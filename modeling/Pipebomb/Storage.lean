/-
  Storage by value and the default dictionary.

  * `Matches`: the maps of two servers have the same contents.
  * `Unmodified`: a step changes no connection data of a client that is and stays in
    `client_db`; the default dictionary shows such a change, a store by value does not.
  * `step_matched`: from agreeing states a step of the default server is one of the server
    over a backend, or it is not `Unmodified` and the backend keeps the old data.
  * `storage_refines_iff`: the server over a backend sends the same and has the same
    contents in every state of a run, if and only if every step is `Unmodified`.
  * `untouched_of_uneventful`: so it is where no login is completed, no session is attached
    and no packet is processed but BYE.
-/
import Pipebomb.ByValue
import Pipebomb.Sessions

namespace Pipebomb

open ByteString

variable {K : Type} (L : Libs K) (B : Backend)

/-- The same contents. -/
structure Matches (s v : Server K) : Prop where
  db : v.db = s.db
  addressBook : v.addressBook = s.addressBook
  clients : ∀ u, v.client u = s.client u

/-- The connection data of the clients that stay in `client_db` is the same. -/
def Unmodified (s s' : Server K) : Prop :=
  ∀ u r, s.clientDb.get? u = some r → s'.clientDb.get? u = some r →
    SameLink (s.objs r) (s'.objs r)

/-- The stored connection data is the same. -/
def LinksKept (v v' : Server K) : Prop :=
  ∀ u cl cl', v.client u = some cl → v'.client u = some cl' → SameLink cl cl'

/-- The servers agree; no name was registered. -/
structure ServerAgrees (s v : Server K) : Prop where
  contents : Matches s v
  dbLock : v.dbLock = s.dbLock
  password : v.password = s.password
  keepDeadSessions : v.keepDeadSessions = s.keepDeadSessions
  book : s.addressBook = .empty
  refs : s.WfRefs
  stored : ∀ u r, v.clientDb.get? u = some r → r < v.fresh

/-- What is stored was stored before or is new. -/
structure Grows (v v' : Server K) : Prop where
  fresh : v.fresh ≤ v'.fresh
  stored : ∀ u r, v'.clientDb.get? u = some r → v.clientDb.get? u = some r ∨ v.fresh ≤ r

/-- Nothing but a copy of the coroutine refers to the object. -/
def Server.Copy (v : Server K) (r : Ref) : Prop := r < v.fresh ∧ ∀ u, v.clientDb.get? u ≠ some r

/-- The coroutine has no reference. -/
def Task.Simple : Task (Accepting K) → Prop
  | .accept (.sendLogin _ _ _) => False
  | .handler h => h.pc.Reads
  | _ => True

/-- The coroutines stand at the same await; the client of a login may be a copy. -/
inductive TaskAgrees (v : Server K) : Task (Accepting K) → Task (Accepting K) → Prop
  | same {t : Task (Accepting K)} : t.Simple → TaskAgrees v t t
  | login {l : Locals K} {u : PyStr} {r r' : Ref} : v.Copy r' →
      TaskAgrees v (.accept (.sendLogin l u r)) (.accept (.sendLogin l u r'))

/-- The outcomes of a step agree. -/
structure OutAgrees (v : Server K) (out outV : Outcome K (Accepting K)) : Prop where
  obs : outV.2.2 = out.2.2
  server : ServerAgrees out.1 outV.1
  grows : Grows v outV.1
  task : TaskAgrees outV.1 out.2.1 outV.2.1

/-- A step of the default server and one over a backend: they agree, or the default server
    changed connection data and the backend did not. -/
def Matched (s v : Server K) (out outV : Outcome K (Accepting K)) : Prop :=
  (OutAgrees v out outV ∧ Unmodified s out.1) ∨ (¬ Unmodified s out.1 ∧ LinksKept v outV.1)

section
variable {s v s' v' : Server K} {u : PyStr} {r r' : Ref} {c : ConnId} {h : Handler} {draw : Uuid4}

theorem Unmodified.refl (s : Server K) : Unmodified s s := fun _ _ _ _ => .refl _

theorem LinksKept.of_clients (h : ∀ u, v'.client u = v.client u) : LinksKept v v' := by
  intro u cl cl' hu hu'
  obtain rfl := Option.some.inj (hu.symm.trans ((h u).symm.trans hu'))
  exact .refl _

theorem LinksKept.refl (v : Server K) : LinksKept v v := .of_clients fun _ => rfl

theorem Grows.refl (v : Server K) : Grows v v := ⟨Nat.le_refl _, fun _ _ h => .inl h⟩

theorem Server.Copy.grows (h : v.Copy r) (hg : Grows v v') : v'.Copy r := by
  refine ⟨Nat.lt_of_lt_of_le h.1 hg.fresh, fun u hu => ?_⟩
  rcases hg.stored u r hu with hu | hle
  · exact h.2 u hu
  · exact absurd h.1 (Nat.not_lt.2 hle)

/-- The clients of a uuid. -/
theorem Matches.get? (h : Matches s v) (u : PyStr) :
    (s.clientDb.get? u = none ∧ v.clientDb.get? u = none) ∨
      ∃ r r', s.clientDb.get? u = some r ∧ v.clientDb.get? u = some r' ∧ v.objs r' = s.objs r := by
  have hu := h.clients u
  rw [Server.client, Server.client] at hu
  rcases hs : s.clientDb.get? u with _ | r
  · rw [hs, Option.map_none, Option.map_eq_none_iff] at hu
    exact .inl ⟨rfl, hu⟩
  · rw [hs, Option.map_some] at hu
    obtain ⟨r', hr', ho⟩ := Option.map_eq_some_iff.1 hu
    exact .inr ⟨r, r', rfl, hr', ho⟩

/-- Nothing happened to the servers. -/
theorem Matched.still (hA : ServerAgrees s v) {t : Task (Accepting K)} (ht : t.Simple)
    (os : List (Obs K)) : Matched s v (s, t, os) (v, t, os) :=
  .inl ⟨⟨rfl, hA, .refl v, .same ht⟩, .refl s⟩

/-- A packet of the handler was counted. -/
theorem not_unmodified (hu : s.clientDb.get? u = some r) (hu' : s'.clientDb.get? u = some r)
    (hrx : (s'.objs r).rxNonce = (s.objs r).rxNonce + 1) : ¬ Unmodified s s' := by
  intro h
  have := (h u r hu hu').rxNonce
  omega

theorem not_unmodified_of_quiet (hu : s.clientDb.get? u = some r)
    (hq : Quiet (s.modify r Client.received) s') : ¬ Unmodified s s' := by
  refine not_unmodified hu ?_ ?_
  · rw [hq.clientDb]
    exact hu
  · rw [(hq.link r).rxNonce, Server.modify_objs_self]
    rfl

/-! ## The handler over a backend -/

theorem load_client (hs : ∀ u r, v.clientDb.get? u = some r → r < v.fresh) (r : Ref) (u : PyStr) :
    (ByValue.load v r).client u = v.client u := by
  simp only [Server.client, ByValue.load]
  rcases hu : v.clientDb.get? u with _ | r'
  · rfl
  · have : r' ≠ v.fresh := Nat.ne_of_lt (hs u r' hu)
    rw [Option.map_some, Option.map_some, Function.update_of_ne this]

theorem addSession_client (hs : ∀ u r, v.clientDb.get? u = some r → r < v.fresh) (u u' : PyStr)
    (cl : Client K) :
    (v.addSession u cl).client u' = if u' = u then some cl else v.client u' := by
  rw [Server.client, Server.addSession_clientDb, Dict.get?_set]
  split_ifs with he
  · rw [Option.map_some, Server.addSession_objs_fresh]
  · rw [Server.client]
    rcases hu : v.clientDb.get? u' with _ | r
    · rfl
    · rw [Option.map_some, Option.map_some, Server.addSession_objs (hs u' r hu)]

/-- Storing a client again with other names keeps the connection data. -/
theorem LinksKept.assign (hs : ∀ u r, v.clientDb.get? u = some r → r < v.fresh)
    (hu : v.clientDb.get? u = some r) {f : Client K → Client K} (hf : KeepsLink f)
    (book : Dict PyStr PyStr) :
    LinksKept v ((v.setBook book).addSession u (f (v.objs r))) := by
  intro u' cl cl' hcl hcl'
  rw [addSession_client (v := v.setBook book) hs] at hcl'
  split_ifs at hcl' with he
  · subst he
    cases hcl'
    rw [Server.client, hu] at hcl
    cases hcl
    exact hf _
  · have hsame : v.client u' = some cl' := hcl'
    obtain rfl := Option.some.inj (hcl.symm.trans hsame)
    exact .refl _

/-- A command over a backend keeps the connection data. -/
theorem byValue_dispatch_links (hs : ∀ u r, v.clientDb.get? u = some r → r < v.fresh) (uuid : PyStr)
    (data : Bytes) (draw : Uuid4) : LinksKept v (ByValue.dispatch v uuid data draw).1 := by
  have hload : ∀ r, LinksKept v (ByValue.load v r) := fun r => .of_clients (load_client hs r)
  cases data with
  | nil => exact .refl v
  | cons type_ value =>
    simp only [ByValue.dispatch]
    cases command type_ with
    | db op => exact .refl v
    | register =>
      simp only [ByValue.register]
      split_ifs
      · exact .refl v
      · split
        · exact .refl v
        · rename_i r hu
          exact .assign hs hu (.own _) _
    | unregister =>
      simp only [ByValue.unregister]
      split
      · exact .refl v
      · rename_i r hu
        split_ifs
        · exact .assign hs hu (.disown _) _
        · exact .refl v
        · exact .refl v
    | whoami => exact .refl v
    | bye => exact .refl v
    | whohas => exact .refl v
    | putInbox =>
      simp only [ByValue.putInbox]
      split
      · split
        · exact .refl v
        · split <;> exact .refl v
      · exact .refl v
      · exact .refl v
    | getInbox =>
      simp only
      split
      · exact .refl v
      · exact hload _
    | putOutbox =>
      simp only [ByValue.putOutbox]
      split
      · split
        · exact .refl v
        · exact hload _
      · exact .refl v
      · exact .refl v
    | getOutbox =>
      simp only
      split
      · exact .refl v
      · exact hload _
    | unknown => exact .refl v

theorem byValue_dispatch_bye {uuid : PyStr} {data : Bytes}
    (hd : (ByValue.dispatch v uuid data draw).2 = .bye) :
    ∃ type_ value, data = type_ :: value ∧ command type_ = .bye := by
  cases data with
  | nil => cases hd
  | cons type_ value =>
    refine ⟨type_, value, rfl, ?_⟩
    simp only [ByValue.dispatch] at hd
    rcases hc : command type_ with op | _ | _ | _ | _ | _ | _ | _ | _ | _ | _
    · rw [hc] at hd; cases hd
    · simp only [hc, ByValue.register] at hd
      split_ifs at hd
      · exact absurd hd (answer_ne_bye (errDispatch 5))
      · split at hd <;> cases hd
    · simp only [hc, ByValue.unregister] at hd
      split at hd
      · cases hd
      · split_ifs at hd
        · exact absurd hd (answer_ne_bye (errDispatch 5))
    · simp only [hc] at hd
      exact absurd hd (answer_ne_bye _)
    · rfl
    · simp only [hc, whohas] at hd
      split at hd
      · exact absurd hd (answer_ne_bye _)
      · exact absurd hd (answer_ne_bye _)
    · simp only [hc, ByValue.putInbox] at hd
      split at hd
      · split at hd
        · cases hd
        · split at hd <;> cases hd
      · cases hd
      · cases hd
    · simp only [hc] at hd
      split at hd <;> cases hd
    · simp only [hc, ByValue.putOutbox] at hd
      split at hd
      · split at hd <;> cases hd
      · cases hd
      · cases hd
    · simp only [hc] at hd
      split at hd <;> cases hd
    · simp only [hc] at hd
      exact absurd hd (answer_ne_bye _)

variable {A : Type}

theorem sendPacket_server (reply : Bytes) (after : After) :
    (sendPacket L s c h reply .none after : Outcome K A).1 = s := by
  rcases (sendPacket_sends L (A := A) reply .none after : Sends L s c h _ _ _ _).server with hs | hs
  · exact hs
  · exact hs

theorem sendReply_server (reply : Except PyErr Bytes) (after : After) :
    (sendReply L s c h reply .none after : Outcome K A).1 = s := by
  cases reply with
  | error e => rfl
  | ok data => exact sendPacket_server L data after

/-- A command other than BYE leaves the server as `dispatch` left it. -/
theorem proceed_server {o : Server K × Next} (ho : o.2 ≠ .bye) :
    (proceed L c h o : Outcome K A).1 = o.1 := by
  obtain ⟨s, n⟩ := o
  cases n with
  | reply data => exact sendPacket_server L data .next
  | wait pc => rfl
  | raise e => rfl
  | bye => exact absurd rfl ho

theorem byValue_proceed_server {o : Server K × Next} (ho : o.2 ≠ .bye) :
    (ByValue.proceed L B c h o : Outcome K A).1 = o.1 := by
  obtain ⟨s, n⟩ := o
  cases n with
  | reply data => exact sendPacket_server L data .next
  | wait pc => rfl
  | raise e => rfl
  | bye => exact absurd rfl ho

/-- The session ends in both; no name has to be released. -/
theorem teardown_agrees (hA : ServerAgrees s v) (hu : s.clientDb.get? u = some r)
    (hk : s.keepDeadSessions = false) :
    ServerAgrees (teardown (s.modify r Client.received) u) (ByValue.teardown B v u) ∧
      Grows v (ByValue.teardown B v u) ∧
      Unmodified s (teardown (s.modify r Client.received) u) := by
  have hbook : s.addressBook.items = [] := by rw [hA.book]; rfl
  have hbookV : B.bookItems v.addressBook = [] := by
    have := B.bookItems_perm v.addressBook
    rw [hA.contents.addressBook, hbook] at this
    rw [hA.contents.addressBook]
    exact List.perm_nil.1 this
  have hS : teardown (s.modify r Client.received) u =
      { s.modify r Client.received with clientDb := s.clientDb.erase u } := by
    simp only [teardown, Server.modify_keepDeadSessions, hk, Server.modify_addressBook, hbook]
    rfl
  have hV : ByValue.teardown B v u = { v with clientDb := v.clientDb.erase u } := by
    simp only [ByValue.teardown, hA.keepDeadSessions, hk, hbookV]
    rfl
  have hgone : ∀ u' r', (v.clientDb.erase u).get? u' = some r' → v.clientDb.get? u' = some r' := by
    intro u' r' h
    rw [Dict.get?_erase] at h
    split_ifs at h
    exact h
  rw [hS, hV]
  refine ⟨⟨⟨hA.contents.db, hA.contents.addressBook, fun u' => ?_⟩, hA.dbLock, hA.password,
    hA.keepDeadSessions, hA.book, ?_, fun u' r' h => hA.stored u' r' (hgone u' r' h)⟩,
    ⟨Nat.le_refl _, fun u' r' h => .inl (hgone u' r' h)⟩, fun u' r' hu' h => ?_⟩
  · change ((v.clientDb.erase u).get? u').map v.objs =
      ((s.clientDb.erase u).get? u').map (s.modify r Client.received).objs
    rw [Dict.get?_erase, Dict.get?_erase]
    split_ifs with he
    · rfl
    · have hother : s.clientDb.get? u' ≠ some r := fun h => he (hA.refs.inj h hu)
      have hclient := hA.contents.clients u'
      rw [Server.client, Server.client] at hclient
      rw [hclient]
      rcases hu' : s.clientDb.get? u' with _ | r'
      · rfl
      · have hne : r' ≠ r := by
          rintro rfl
          exact hother hu'
        rw [Option.map_some, Option.map_some, Server.modify_objs_ne hne]
  · intro u' r' h
    have h : (s.clientDb.erase u).get? u' = some r' := h
    rw [Dict.get?_erase] at h
    split_ifs at h
    exact (hA.refs.modify (r := r) (f := Client.received) fun _ => rfl) u' r' h
  · have h : (s.clientDb.erase u).get? u' = some r' := h
    rw [Dict.get?_erase] at h
    split_ifs at h with he
    have hne : r' ≠ r := by
      rintro rfl
      exact he (hA.refs.inj hu' hu)
    change SameLink (s.objs r') ((s.modify r Client.received).objs r')
    rw [Server.modify_objs_ne hne]
    exact .refl _

/-- **A frame is processed.** -/
theorem onFrame_matched (hA : ServerAgrees s v) (frame : Option Bytes) :
    Matched s v (onFrame L s c h frame draw) (ByValue.onFrame L B v c h frame draw) := by
  unfold onFrame ByValue.onFrame
  rcases hA.contents.get? h.uuid with ⟨hs, hv⟩ | ⟨r, r', hs, hv, ho⟩
  · rw [hs, hv]
    exact .still hA (t := .over _) trivial _
  · rw [hs, hv]
    cases frame with
    | none =>
      simp only [ho]
      exact .still hA (t := .over _) trivial _
    | some f =>
      simp only [ho]
      rcases hver : verifyPacket L f (s.objs r).cipher (s.objs r).rxNonce with e | n | ⟨data, rem⟩
      · exact .still hA (t := .over _) trivial _
      · -- the refused packet is counted by the dictionary only
        refine .inr ⟨not_unmodified_of_quiet hs ?_, ?_⟩
        · exact sendReply_quiet L _ c h (errDispatch n) .none .close
        · simp only [seen_server, sendReply_server]
          exact .refl v
      · simp only
        by_cases hbye : ∃ type_ value, data = type_ :: value ∧ command type_ = .bye
        · obtain ⟨type_, value, rfl, hc⟩ := hbye
          simp only [dispatch, ByValue.dispatch, hc, proceed, ByValue.proceed]
          by_cases hk : s.keepDeadSessions
          · refine .inr ⟨not_unmodified_of_quiet hs ?_, ?_⟩
            · simp only [seen_server, teardown, Server.modify_keepDeadSessions, hk, if_true]
              exact .refl _
            · simp only [seen_server, ByValue.teardown, hA.keepDeadSessions, hk, if_true]
              exact .refl v
          · obtain ⟨hserver, hgrows, hlinks⟩ := teardown_agrees B hA hs (by simpa using hk)
            exact .inl ⟨⟨rfl, hserver, hgrows, .same trivial⟩, hlinks⟩
        · have hS : (dispatch (s.modify r Client.received) h.uuid data draw).2 ≠ .bye := by
            intro hd
            obtain ⟨type_, value, hdata, hc, -⟩ := dispatch_bye hd
            exact hbye ⟨type_, value, hdata, hc⟩
          have hV : (ByValue.dispatch v h.uuid data draw).2 ≠ .bye :=
            fun hd => hbye (byValue_dispatch_bye hd)
          refine .inr ⟨not_unmodified_of_quiet hs ?_, ?_⟩
          · simp only [seen_server, proceed_server L hS]
            exact dispatch_quiet _ _ _ _
          · simp only [seen_server, byValue_proceed_server L B hV]
            exact byValue_dispatch_links hA.stored _ _ _

theorem pump_matched (hA : ServerAgrees s v) :
    Matched s v (pump L s c h draw) (ByValue.pump L B v c h draw) := by
  have hwait : ∀ rest pc os, pc.Reads → Matched s v
      (s, .handler { h with receiveBuffer := rest, pc := pc }, os)
      (v, .handler { h with receiveBuffer := rest, pc := pc }, os) := by
    intro rest pc os hpc
    exact .still hA (t := .handler { h with receiveBuffer := rest, pc := pc }) hpc os
  unfold pump ByValue.pump
  rcases extractPacketFrame h.receiveBuffer with ⟨_ | f, rest, _ | n⟩
  · exact hwait rest .recv [] trivial
  · simp only
    rcases errDispatch n with e | bs
    · exact .still hA (t := .over _) trivial _
    · exact hwait rest (.sendall .none .frameError) _ trivial
  · exact onFrame_matched L B hA _
  · simp only
    rcases errDispatch n with e | bs
    · exact .still hA (t := .over _) trivial _
    · exact hwait rest (.sendall .none .frameError) _ trivial

theorem started_matched (hA : ServerAgrees s v) : Matched s v (started s h) (started v h) := by
  unfold started
  rw [hA.contents.clients]
  rcases s.client h.uuid with _ | cl
  · exact .still hA (t := .over _) trivial _
  · simp only
    split_ifs
    · exact .still hA (t := .over _) trivial _
    · exact .still hA (t := .handler { h with pc := .sleep }) trivial []

theorem Await.Reads.held {pc : Await} (hr : pc.Reads) : pc.held = .none := by
  cases pc with
  | sendall held after =>
    cases held with
    | none => rfl
    | dbLock => exact hr.elim
    | outboxLock r => exact hr.elim
  | _ => rfl

/-- **A step of a handler.** -/
theorem handlerStep_matched (hA : ServerAgrees s v) (hreads : h.pc.Reads) {i : Input}
    {out : Outcome K (Accepting K)} (ho : handlerStep L s c h i draw = some out) :
    ∃ outV, ByValue.handlerStep L B v c h i draw = some outV ∧ Matched s v out outV := by
  obtain ⟨uuid, buffer, data, pc⟩ := h
  have hraise : ∀ e, Matched s v (raised s pc.held e) (raised v pc.held e) := by
    intro e
    have hheld : pc.held = .none := Await.Reads.held hreads
    rw [hheld]
    exact .still hA (t := .over _) trivial _
  cases pc with
  | start =>
    cases i with
    | go => cases ho; exact ⟨_, rfl, started_matched hA⟩
    | raise e => cases ho; exact ⟨_, rfl, hraise e⟩
    | recv chunk => cases ho
    | sent => cases ho
  | sleep =>
    cases i with
    | go => cases ho; exact ⟨_, rfl, pump_matched L B hA⟩
    | raise e => cases ho; exact ⟨_, rfl, hraise e⟩
    | recv chunk => cases ho
    | sent => cases ho
  | recv =>
    cases i with
    | go => cases ho
    | raise e => cases ho; exact ⟨_, rfl, hraise e⟩
    | recv chunk =>
      simp only [handlerStep, ByValue.handlerStep] at ho ⊢
      split_ifs at ho ⊢
      · cases ho; exact ⟨_, rfl, onFrame_matched L B hA none⟩
      · cases ho; exact ⟨_, rfl, pump_matched L B hA⟩
    | sent => cases ho
  | sendall held after =>
    obtain ⟨rfl, rfl⟩ : held = .none ∧ after = .frameError := by
      cases held with
      | none => cases after with
        | frameError => exact ⟨rfl, rfl⟩
        | next => exact hreads.elim
        | close => exact hreads.elim
      | dbLock => exact hreads.elim
      | outboxLock r => exact hreads.elim
    cases i with
    | go => cases ho
    | raise e => cases ho; exact ⟨_, rfl, hraise e⟩
    | recv chunk => cases ho
    | sent => cases ho; exact ⟨_, rfl, onFrame_matched L B hA none⟩
  | dbLock op => exact hreads.elim
  | inboxGet r => exact hreads.elim
  | outboxPut r p => exact hreads.elim
  | outboxGet r id => exact hreads.elim

/-! ## Packets of the handshake -/

/-- A packet of the handshake, seen from both servers. -/
theorem sendHandshake_eq (l : Locals K) (data : Bytes) :
    ∃ e os, (∀ (s : Server K) next, sendHandshake L s c l data next = (s, .over (some e), os)) ∨
      ∀ (s : Server K) next, sendHandshake L s c l data next = (s, .accept next, os) := by
  rcases hp : constructPacket L data (some l.cipher) l.txNonce with e | pkt
  · refine ⟨e, encryptCall (.server c) data (some l.cipher) l.txNonce ++ [], .inl fun s next => ?_⟩
    simp only [sendHandshake, hp]
    rfl
  · refine ⟨.cancelled, encryptCall (.server c) data (some l.cipher) l.txNonce ++
      [.write (.server c) pkt], .inr fun s next => ?_⟩
    simp only [sendHandshake, hp]
    rfl

theorem sendHandshake_still (hA : ServerAgrees s v) (l : Locals K) (data : Bytes)
    {next : Accepting K} (hn : (Task.accept next).Simple) (os : List (Obs K)) :
    Matched s v (seen os (sendHandshake L s c l data next))
      (seen os (sendHandshake L v c l data next)) := by
  obtain ⟨e, os', h | h⟩ := sendHandshake_eq L (c := c) l data
  · rw [h, h]
    exact .still hA (t := .over (some e)) trivial _
  · rw [h, h]
    exact .still hA hn _

/-- A login is answered: a session was entered or attached. -/
theorem sendHandshake_login {s₁ v₁ : Server K} (hA : ServerAgrees s₁ v₁) (hg : Grows v v₁)
    (hun : Unmodified s s₁) (hcopy : v₁.Copy r') (l : Locals K) (os : List (Obs K)) (data : Bytes) :
    Matched s v (seen os (sendHandshake L s₁ c l data (.sendLogin l u r)))
      (seen os (sendHandshake L v₁ c l data (.sendLogin l u r'))) := by
  obtain ⟨e, os', h | h⟩ := sendHandshake_eq L (c := c) l data
  · rw [h, h]
    exact .inl ⟨⟨rfl, hA, hg, .same (t := .over (some e)) trivial⟩, hun⟩
  · rw [h, h]
    exact .inl ⟨⟨rfl, hA, hg, .login hcopy⟩, hun⟩

/-! ## Copies -/

theorem ServerAgrees.load (hA : ServerAgrees s v) (r : Ref) : ServerAgrees s (ByValue.load v r) :=
  ⟨⟨hA.contents.db, hA.contents.addressBook, fun u =>
      (load_client hA.stored r u).trans (hA.contents.clients u)⟩, hA.dbLock, hA.password,
    hA.keepDeadSessions, hA.book, hA.refs, fun u r' h => Nat.lt_succ_of_lt (hA.stored u r' h)⟩

theorem load_grows (v : Server K) (r : Ref) : Grows v (ByValue.load v r) :=
  ⟨Nat.le_succ _, fun _ _ h => .inl h⟩

theorem load_copy (hs : ∀ u r, v.clientDb.get? u = some r → r < v.fresh) (r : Ref) :
    (ByValue.load v r).Copy v.fresh :=
  ⟨Nat.lt_succ_self _, fun u h => absurd (hs u v.fresh h) (Nat.lt_irrefl _)⟩

/-- Changing a copy changes nothing that is stored. -/
theorem copy_client (hc : v.Copy r) (f : Client K → Client K) (u : PyStr) :
    (v.modify r f).client u = v.client u := by
  rw [Server.client, Server.client, Server.modify_clientDb]
  rcases hu : v.clientDb.get? u with _ | r'
  · rfl
  · have hne : r' ≠ r := by
      rintro rfl
      exact hc.2 u hu
    rw [Option.map_some, Option.map_some, Server.modify_objs_ne hne]

theorem ServerAgrees.modifyCopy (hA : ServerAgrees s v) (hc : v.Copy r) (f : Client K → Client K) :
    ServerAgrees s (v.modify r f) :=
  ⟨⟨hA.contents.db, hA.contents.addressBook, fun u =>
      (copy_client hc f u).trans (hA.contents.clients u)⟩, hA.dbLock, hA.password,
    hA.keepDeadSessions, hA.book, hA.refs, hA.stored⟩

theorem modify_grows (v : Server K) (r : Ref) (f : Client K → Client K) : Grows v (v.modify r f) :=
  ⟨Nat.le_refl _, fun _ _ h => .inl h⟩

theorem Grows.trans {v'' : Server K} (h : Grows v v') (h' : Grows v' v'') : Grows v v'' := by
  refine ⟨Nat.le_trans h.fresh h'.fresh, fun u r hu => ?_⟩
  rcases h'.stored u r hu with hu | hle
  · exact h.stored u r hu
  · exact .inr (Nat.le_trans h.fresh hle)

/-- A change of connection data that changes nothing. -/
theorem ServerAgrees.modifyLink (hA : ServerAgrees s v) {f : Client K → Client K}
    (hf : ∀ cl, SameLink cl (f cl) → f cl = cl) (hid : ∀ cl, (f cl).uuid = cl.uuid)
    (hun : Unmodified s (s.modify r f)) : ServerAgrees (s.modify r f) v := by
  refine ⟨⟨hA.contents.db, hA.contents.addressBook, fun u => ?_⟩, hA.dbLock, hA.password,
    hA.keepDeadSessions, hA.book, hA.refs.modify hid, hA.stored⟩
  rw [hA.contents.clients u, Server.client, Server.client, Server.modify_clientDb]
  rcases hu : s.clientDb.get? u with _ | r₁
  · rfl
  · rw [Option.map_some, Option.map_some]
    have hlink := hun u r₁ hu hu
    rw [Server.modify_objs] at hlink ⊢
    split_ifs at hlink ⊢
    · rw [hf _ hlink]
    · rfl

theorem ServerAgrees.addSession (hA : ServerAgrees s v) (cl : Client K) (hcl : cl.uuid = u) :
    ServerAgrees (s.addSession u cl) (v.addSession u cl) := by
  refine ⟨⟨hA.contents.db, hA.contents.addressBook, fun u' => ?_⟩, hA.dbLock, hA.password,
    hA.keepDeadSessions, hA.book, hA.refs.addSession hcl, fun u' r' h => ?_⟩
  · rw [addSession_client hA.stored, addSession_client fun u r h => (hA.refs u r h).1]
    split_ifs
    · rfl
    · exact hA.contents.clients u'
  · rw [Server.addSession_clientDb, Dict.get?_set] at h
    rw [Server.addSession_fresh]
    split_ifs at h
    · cases h
      exact Nat.lt_succ_self _
    · exact Nat.lt_succ_of_lt (hA.stored u' r' h)

theorem addSession_grows (v : Server K) (u : PyStr) (cl : Client K) : Grows v (v.addSession u cl) := by
  refine ⟨Nat.le_succ _, fun u' r' h => ?_⟩
  rw [Server.addSession_clientDb, Dict.get?_set] at h
  split_ifs at h
  · cases h
    exact .inr (Nat.le_refl _)
  · exact .inl h

theorem addSession_unmodified (hw : s.WfRefs) (u : PyStr) (cl : Client K) :
    Unmodified s (s.addSession u cl) := by
  intro u' r' h _
  rw [Server.addSession_objs (hw u' r' h).1]
  exact .refl _

theorem attach_eq (c : ConnId) (cipher : K) (cl : Client K)
    (h : SameLink cl (Client.attach c cipher cl)) : Client.attach c cipher cl = cl := by
  obtain ⟨hs, ha, -, hc, -, -⟩ := h
  cases cl
  simp only [Client.attach] at hs ha hc ⊢
  rw [hs, ha, hc]

theorem setNonces_eq (tx rx : ℕ) (cl : Client K) (h : SameLink cl (Client.setNonces tx rx cl)) :
    Client.setNonces tx rx cl = cl := by
  obtain ⟨-, -, -, -, hrx, htx⟩ := h
  cases cl
  simp only [Client.setNonces] at hrx htx ⊢
  rw [hrx, htx]

theorem modify_self {f : Client K → Client K} (h : f (s.objs r) = s.objs r) : s.modify r f = s := by
  rw [Server.modify, h, Function.update_eq_self]

/-! ## The handshake over a backend -/

theorem seen_seen {A : Type} (os os' : List (Obs K)) (out : Outcome K A) :
    seen os (seen os' out) = seen (os ++ os') out := by
  simp only [seen, List.append_assoc]

/-- A RELOGIN attaches the connection, over a backend to a copy. -/
theorem relogin_matched (hA : ServerAgrees s v) (l : Locals K) (os : List (Obs K)) :
    Matched s v
      (seen os (sendHandshake L (s.modify r (Client.attach c l.cipher)) c l ACK (.sendLogin l u r)))
      (seen os (sendHandshake L ((ByValue.load v r').modify v.fresh (Client.attach c l.cipher)) c l
        ACK (.sendLogin l u v.fresh))) := by
  have hcopy := load_copy hA.stored r'
  by_cases hun : Unmodified s (s.modify r (Client.attach c l.cipher))
  · refine sendHandshake_login L ?_ ((load_grows v r').trans (modify_grows _ _ _)) hun hcopy l os ACK
    exact ((hA.load r').modifyCopy hcopy _).modifyLink (attach_eq c l.cipher) (fun _ => rfl) hun
  · obtain ⟨e, os', h | h⟩ := sendHandshake_eq L (c := c) l ACK
    · rw [h, h]
      exact .inr ⟨hun, .of_clients fun u =>
        (copy_client hcopy _ u).trans (load_client hA.stored r' u)⟩
    · rw [h, h]
      exact .inr ⟨hun, .of_clients fun u =>
        (copy_client hcopy _ u).trans (load_client hA.stored r' u)⟩

/-- A login enters a client, which over a backend is a copy of the coroutine's. -/
theorem login_matched (hA : ServerAgrees s v) (l : Locals K) (os : List (Obs K)) {cl : Client K}
    (hcl : cl.uuid = u) :
    Matched s v (seen os (sendHandshake L (s.addSession u cl) c l ACK (.sendLogin l u s.fresh)))
      (seen os (sendHandshake L (ByValue.load (v.addSession u cl) v.fresh) c l ACK
        (.sendLogin l u (v.fresh + 1)))) := by
  have hadd := hA.addSession _ hcl
  exact sendHandshake_login L (hadd.load v.fresh)
    ((addSession_grows v u cl).trans (load_grows _ _)) (addSession_unmodified hA.refs u cl)
    (load_copy hadd.stored v.fresh) l os ACK

theorem onLogin_matched (hA : ServerAgrees s v) (l : Locals K) (frame : Bytes) :
    Matched s v (onLogin L s c l frame draw) (ByValue.onLogin L v c l frame draw) := by
  unfold onLogin ByValue.onLogin
  rcases verifyPacket L frame (some l.cipher) l.rxNonce with e | n | ⟨response, rem⟩
  · exact .still hA (t := .over _) trivial _
  · exact .still hA (t := .over _) trivial _
  · cases response with
    | nil => exact .still hA (t := .over _) trivial _
    | cons type_ rest =>
      simp only
      split_ifs with h₁ h₂
      · rcases hA.contents.get? (latin1Decode rest) with ⟨hs, hv⟩ | ⟨r, r', hs, hv, -⟩
        · simp only [hs, hv, seen_seen]
          rcases errDispatch 7 with e | reply
          · exact .still hA (t := .over _) trivial _
          · exact sendHandshake_still L hA _ _ (by exact trivial) _
        · simp only [hs, hv, seen_seen]
          exact relogin_matched L hA { l with rxNonce := l.rxNonce + 1 } _
      · simp only [seen_seen]
        exact login_matched L hA { l with rxNonce := l.rxNonce + 1 } _ rfl
      · exact .still hA (t := .over _) trivial _

theorem onPassword_matched (hA : ServerAgrees s v) (l : Locals K) (frame : Bytes) :
    Matched s v (onPassword L s c l frame) (onPassword L v c l frame) := by
  unfold onPassword
  rw [hA.password]
  rcases verifyPacket L frame (some l.cipher) l.rxNonce with e | n | ⟨password, rem⟩
  · exact .still hA (t := .over _) trivial _
  · exact .still hA (t := .over _) trivial _
  · simp only
    split_ifs
    · exact .still hA (t := .over _) trivial _
    · simp only [seen_seen]
      exact sendHandshake_still L hA _ _ (by exact trivial) _

theorem onChunk_matched (hA : ServerAgrees s v) (buffer chunk : Bytes)
    {waiting : Bytes → Accepting K} {frame frameV : Bytes → Outcome K (Accepting K)}
    (hwait : ∀ rest, (Task.accept (waiting rest)).Simple)
    (hframe : ∀ f, Matched s v (frame f) (frameV f)) :
    Matched s v (onChunk s buffer chunk waiting frame) (onChunk v buffer chunk waiting frameV) := by
  unfold onChunk
  split_ifs
  · exact .still hA (t := .over _) trivial _
  · rcases extractPacketFrame (buffer ++ chunk) with ⟨_ | f, rest, _ | n⟩
    · exact .still hA (hwait rest) _
    · exact .still hA (t := .over _) trivial _
    · exact hframe f
    · exact .still hA (t := .over _) trivial _

/-- The end of the handshake stores the counters, over a backend in a copy. -/
theorem finish_matched (hA : ServerAgrees s v) (hcopy : v.Copy r') (l : Locals K) :
    Matched s v (finish s u l r) (finish v u l r') := by
  unfold finish
  by_cases hun : Unmodified s (s.modify r (Client.setNonces l.txNonce l.rxNonce))
  · refine .inl ⟨⟨rfl, ?_, modify_grows _ _ _, .same (t := .handler _) trivial⟩, hun⟩
    exact (hA.modifyCopy hcopy _).modifyLink (setNonces_eq _ _) (fun _ => rfl) hun
  · exact .inr ⟨hun, .of_clients (copy_client hcopy _)⟩

/-- An unknown session: the client gets its counters before it is stored. -/
theorem unknown_matched (hA : ServerAgrees s v) (l : Locals K) :
    Matched s v
      (seen [.session c draw.str] (finish (s.addSession draw.str
        (.login c draw.str l.cipher l.txNonce l.rxNonce)) draw.str l s.fresh))
      (seen [.session c draw.str] (finish (ByValue.load (v.addSession draw.str
        (.login c draw.str l.cipher l.txNonce l.rxNonce)) v.fresh) draw.str l (v.fresh + 1))) := by
  have hadd := hA.addSession (.login c draw.str l.cipher l.txNonce l.rxNonce) rfl
  have hcopy := load_copy hadd.stored v.fresh
  have hself : (s.addSession draw.str (.login c draw.str l.cipher l.txNonce l.rxNonce)).modify
      s.fresh (Client.setNonces l.txNonce l.rxNonce) =
      s.addSession draw.str (.login c draw.str l.cipher l.txNonce l.rxNonce) :=
    modify_self (by rw [Server.addSession_objs_fresh]; rfl)
  simp only [finish, hself]
  exact .inl ⟨⟨rfl, (hadd.load v.fresh).modifyCopy hcopy _,
    ((addSession_grows v _ _).trans (load_grows _ _)).trans (modify_grows _ _ _),
    .same (t := .handler _) trivial⟩, addSession_unmodified hA.refs _ _⟩

/-- **A step of a handshake.** -/
theorem acceptStep_matched (hA : ServerAgrees s v) {a a' : Accepting K}
    (ha : TaskAgrees v (.accept a) (.accept a')) {i : Input} {out : Outcome K (Accepting K)}
    (ho : acceptStep L s c a i draw = some out) :
    ∃ outV, ByValue.acceptStep L v c a' i draw = some outV ∧ Matched s v out outV := by
  have hraise : ∀ e, Matched s v (logged s e) (logged v e) :=
    fun e => .still hA (t := .over _) trivial _
  cases ha with
  | login hcopy =>
    cases i with
    | go => cases ho
    | recv chunk => cases ho
    | sent => cases ho; exact ⟨_, rfl, finish_matched hA hcopy _⟩
    | raise e => cases ho; exact ⟨_, rfl, hraise e⟩
  | same hsimple =>
    cases a with
    | publicKey buffer =>
      cases i with
      | recv chunk =>
        simp only [acceptStep, ByValue.acceptStep] at ho ⊢
        split_ifs at ho ⊢
        · cases ho; exact ⟨_, rfl, .still hA (t := .over _) trivial _⟩
        · cases ho; exact ⟨_, rfl, .still hA (t := .accept (.publicKey _)) trivial _⟩
        · cases ho; exact ⟨_, rfl, .still hA (t := .accept (.sendPublic _)) trivial _⟩
      | go => cases ho
      | sent => cases ho
      | raise e => cases ho; exact ⟨_, rfl, hraise e⟩
    | sendPublic key =>
      cases i with
      | sent =>
        simp only [acceptStep, ByValue.acceptStep] at ho ⊢
        rcases hk : L.exchange c key with _ | k
        · rw [hk] at ho
          cases ho
          exact ⟨_, rfl, .still hA (t := .over _) trivial _⟩
        · rw [hk] at ho
          cases ho
          exact ⟨_, rfl, .still hA (t := .accept (.password _ _)) trivial _⟩
      | go => cases ho
      | recv chunk => cases ho
      | raise e => cases ho; exact ⟨_, rfl, hraise e⟩
    | password l buffer =>
      cases i with
      | recv chunk =>
        simp only [acceptStep, ByValue.acceptStep] at ho ⊢
        split_ifs at ho ⊢
        cases ho
        exact ⟨_, rfl, onChunk_matched hA _ _ (fun _ => trivial) (onPassword_matched L hA l)⟩
      | go => cases ho
      | sent => cases ho
      | raise e => cases ho; exact ⟨_, rfl, hraise e⟩
    | sendAck l =>
      cases i with
      | sent => cases ho; exact ⟨_, rfl, .still hA (t := .accept (.login _ _)) trivial _⟩
      | go => cases ho
      | recv chunk => cases ho
      | raise e => cases ho; exact ⟨_, rfl, hraise e⟩
    | login l buffer =>
      cases i with
      | recv chunk =>
        simp only [acceptStep, ByValue.acceptStep] at ho ⊢
        split_ifs at ho ⊢
        cases ho
        exact ⟨_, rfl, onChunk_matched hA _ _ (fun _ => trivial) (onLogin_matched L hA l)⟩
      | go => cases ho
      | sent => cases ho
      | raise e => cases ho; exact ⟨_, rfl, hraise e⟩
    | sendUnknown l =>
      cases i with
      | sent => cases ho; exact ⟨_, rfl, unknown_matched hA _⟩
      | go => cases ho
      | recv chunk => cases ho
      | raise e => cases ho; exact ⟨_, rfl, hraise e⟩
    | sendLogin l u r => exact hsimple.elim

end

/-! ## Runs -/

section
variable {S V S' V' : Sys K} {a : Act} {o : List (Obs K)}

/-- The states of the two servers agree. -/
structure Sys.Agrees (S V : Sys K) : Prop where
  server : ServerAgrees S.server V.server
  tasks : ∀ c, TaskAgrees V.server (S.tasks c) (V.tasks c)

theorem TaskAgrees.grows {v v' : Server K} {t t' : Task (Accepting K)} (h : TaskAgrees v t t')
    (hg : Grows v v') : TaskAgrees v' t t' := by
  cases h with
  | same hs => exact .same hs
  | login hc => exact .login (hc.grows hg)

theorem agrees_init (password : Bytes) (keep : Bool) :
    (Sys.init password keep : Sys K).Agrees (.init password keep) :=
  ⟨⟨⟨rfl, rfl, fun _ => rfl⟩, rfl, rfl, rfl, rfl, Server.wfRefs_init _ _, fun u r h => (by cases h)⟩,
    fun _ => .same trivial⟩

theorem OutAgrees.put (h : S.Agrees V) {c : ConnId} (out outV : Outcome K (Accepting K))
    (ho : OutAgrees V.server out outV) :
    (S.put c out.1 out.2.1).Agrees (V.put c outV.1 outV.2.1) := by
  refine ⟨ho.server, fun c' => ?_⟩
  by_cases hc : c' = c
  · subst hc
    rw [put_tasks_self, put_tasks_self]
    exact ho.task
  · rw [put_tasks_ne hc, put_tasks_ne hc]
    exact (h.tasks c').grows ho.grows

/-- **A step of the default server is one over the backend**, or it changes connection data
    and the backend does not. -/
theorem step_matched (h : S.Agrees V) (hstep : S.step L a = some (S', o)) (ha : ∀ op, a ≠ .admin op) :
    ∃ V' oV, ByValue.step L B V a = some (V', oV) ∧
      ((oV = o ∧ S'.Agrees V' ∧ Unmodified S.server S'.server) ∨
        (¬ Unmodified S.server S'.server ∧ LinksKept V.server V'.server)) := by
  rcases step_cases L hstep with ⟨c, rfl, hidle, rfl, rfl⟩ | ⟨c, i, draw, s, t, rfl, ht, rfl⟩ |
    ⟨op, rfl, -, -⟩
  · have htask := h.tasks c
    rw [hidle] at htask
    have hV : V.tasks c = .idle := by
      generalize V.tasks c = t at htask
      cases htask
      rfl
    refine ⟨V.put c V.server (.accept (.publicKey [])), [], by simp only [ByValue.step, hV],
      .inl ⟨rfl, ?_, .refl _⟩⟩
    exact OutAgrees.put h (_, _, []) (_, _, [])
      ⟨rfl, h.server, .refl _, .same trivial⟩
  · obtain ⟨outV, hV, hm⟩ : ∃ outV, ByValue.taskStep L B V.server c (V.tasks c) i draw = some outV ∧
        Matched S.server V.server (s, t, o) outV := by
      have htask := h.tasks c
      generalize V.tasks c = tV at htask
      rcases hS : S.tasks c with _ | a | h' | e
      · rw [hS] at ht; cases ht
      · rw [hS] at ht htask
        cases htask with
        | same hs => exact acceptStep_matched L h.server (.same hs) ht
        | login hc => exact acceptStep_matched L h.server (.login hc) ht
      · rw [hS] at ht htask
        cases htask with
        | same hs => exact handlerStep_matched L B h.server hs ht
      · rw [hS] at ht; cases ht
    refine ⟨V.put c outV.1 outV.2.1, outV.2.2, by simp only [ByValue.step, hV], ?_⟩
    rcases hm with ⟨hout, hun⟩ | hm
    · exact .inl ⟨hout.obs, hout.put h, hun⟩
    · exact .inr hm
  · exact absurd rfl (ha op)

/-- No step changes the connection data of a client that is and stays in `client_db`. -/
def Sys.Untouched (S : Sys K) (a : Act) : Prop := ∀ x ∈ S.step L a, Unmodified S.server x.1.server

/-- The server over a backend follows the default server: it sends the same, and in every
    state its maps have the same contents. -/
def Follows : List Act → Sys K → Sys K → Prop
  | [], S, V => Matches S.server V.server
  | a :: as, S, V => Matches S.server V.server ∧ ∀ S' o, S.step L a = some (S', o) →
      ∃ V', ByValue.step L B V a = some (V', o) ∧ Follows as S' V'

theorem Follows.contents {as : List Act} (h : Follows L B as S V) : Matches S.server V.server := by
  cases as with
  | nil => exact h
  | cons a as => exact h.1

/-- Contents that were the same and of which only one changed are not the same. -/
theorem LinksKept.unmodified {s v s' v' : Server K} (h : Matches s v) (h' : Matches s' v')
    (hv : LinksKept v v') : Unmodified s s' := by
  intro u r hu hu'
  refine hv u _ _ ?_ ?_
  · rw [h.clients, Server.client, hu]
    rfl
  · rw [h'.clients, Server.client, hu']
    rfl

theorem follows_iff {as : List Act} (has : ∀ a ∈ as, ∀ op, a ≠ .admin op) :
    ∀ {S V : Sys K}, S.Agrees V →
      (Follows L B as S V ↔ Lts.Along (Sys.step L) (fun S a _ => S.Untouched L a) as S) := by
  induction as with
  | nil => exact fun h => ⟨fun _ => trivial, fun _ => h.server.contents⟩
  | cons a as ih =>
    intro S V h
    have ha := has a (by simp)
    have hrest := fun a' ha' => has a' (List.mem_cons_of_mem _ ha')
    simp only [Follows, Lts.Along]
    rcases hs : S.step L a with _ | ⟨S', o⟩
    · exact ⟨fun _ => trivial, fun _ => ⟨h.server.contents, fun S' o h => (by cases h)⟩⟩
    · obtain ⟨V', oV, hV, hm⟩ := step_matched L B h hs ha
      have huntouched : S.Untouched L a ↔ Unmodified S.server S'.server := by
        simp only [Sys.Untouched, hs]
        exact ⟨fun h => h _ rfl, fun h x hx => (by cases hx; exact h)⟩
      constructor
      · rintro ⟨-, hf⟩
        obtain ⟨V₁, hV₁, hf⟩ := hf S' o rfl
        cases hV.symm.trans hV₁
        rcases hm with ⟨-, hA, hun⟩ | ⟨hnot, hkept⟩
        · exact ⟨huntouched.2 hun, (ih hrest hA).1 hf⟩
        · exact absurd (hkept.unmodified h.server.contents (hf.contents L B)) hnot
      · rintro ⟨hun, halong⟩
        refine ⟨h.server.contents, fun S₁ o₁ he => ?_⟩
        cases he
        rcases hm with ⟨rfl, hA, -⟩ | ⟨hnot, -⟩
        · exact ⟨V', hV, (ih hrest hA).2 halong⟩
        · exact absurd (huntouched.1 hun) hnot

/-- **Storage by value is the default dictionary** as long as no step changes the connection
    data of a stored client: no login is completed, no session is attached, and no packet of
    a session that stays is processed. -/
theorem storage_refines_iff {password : Bytes} {keep : Bool} {as : List Act}
    (has : ∀ a ∈ as, ∀ op, a ≠ .admin op) :
    Follows L B as (.init password keep) (.init password keep) ↔
      Lts.Along (Sys.step L) (fun S a _ => S.Untouched L a) as (.init password keep) :=
  follows_iff L B has (agrees_init password keep)

/-- What a backend that follows sends in a whole run. -/
theorem Follows.exec {as : List Act} : ∀ {S V S' : Sys K} {os : List (Obs K)},
    Follows L B as S V → Lts.exec (Sys.step L) as S = some (S', os) →
      ∃ V', Lts.exec (ByValue.step L B) as V = some (V', os) ∧ Matches S'.server V'.server := by
  induction as with
  | nil =>
    intro S V S' os h he
    cases he
    exact ⟨V, rfl, h⟩
  | cons a as ih =>
    intro S V S' os h he
    simp only [Lts.exec] at he
    rcases hs : S.step L a with _ | ⟨S₁, o₁⟩
    · rw [hs] at he; cases he
    · rw [hs] at he
      rcases hr : Lts.exec (Sys.step L) as S₁ with _ | ⟨S₂, o₂⟩
      · simp only [hr] at he; cases he
      · simp only [hr] at he
        cases he
        obtain ⟨V₁, hV₁, hf⟩ := h.2 S₁ o₁ hs
        obtain ⟨V₂, hV₂, hm⟩ := ih hf hr
        exact ⟨V₂, by simp only [Lts.exec, hV₁, hV₂], hm⟩

end

/-! ## Steps that change no connection data -/

/-- The step of the coroutine completes no login, and it processes no packet but a BYE that ends the
    session. -/
def Task.Uneventful (s : Server K) (os : List (Obs K)) : Task (Accepting K) → Input → Prop
  | .handler h, i => h.pc.Reads → h.Spares L s i ∨ s.keepDeadSessions = false ∧
      ∃ c type_ value, .accepted (.server c) (type_ :: value) ∈ os ∧ command type_ = .bye
  | .accept (.sendLogin _ _ _), i => i ≠ .sent
  | _, _ => True

/-- No login is completed, no session is attached, and no packet is processed but a BYE that ends its
    session. -/
def Sys.Uneventful (S : Sys K) (a : Act) : Prop := ∀ x ∈ S.step L a,
  (∀ c u, .relogin c u ∉ x.2) ∧
    ∀ c i draw, a = .resume c i draw → (S.tasks c).Uneventful L S.server x.2 i

/-- The handlers wait for packets. -/
def Sys.Reading (S : Sys K) : Prop := ∀ c h, S.tasks c = .handler h → h.pc.Reads

section
variable {s s' : Server K} {S S' : Sys K} {a : Act} {c : ConnId} {h : Handler} {i : Input} {draw : Uuid4}
  {out : Outcome K (Accepting K)} {o os : List (Obs K)}

theorem Unmodified.of_quiet (hq : Quiet s s') : Unmodified s s' := fun _ r _ _ => hq.link r

/-- The session that ends is the only one whose data changed. -/
theorem teardown_unmodified (hrefs : s.WfRefs) {r : Ref} {u : PyStr} (hu : s.clientDb.get? u = some r)
    (hkeep : s.keepDeadSessions = false) :
    Unmodified s (teardown (s.modify r Client.received) u) := by
  intro u' r' hu' hafter
  simp only [teardown, Server.modify_keepDeadSessions, hkeep, Bool.false_eq_true, if_false] at hafter ⊢
  have hafter : (s.clientDb.erase u).get? u' = some r' := hafter
  rw [Dict.get?_erase] at hafter
  split_ifs at hafter with hne
  have hr : r' ≠ r := by
    rintro rfl
    exact hne ((hrefs u' r' hu').2.symm.trans (hrefs u r' hu).2)
  have hobjs : (s.modify r Client.received).objs r' = s.objs r' := by
    rw [Server.modify_objs, if_neg hr]
  exact hobjs ▸ .refl _

/-- Sending changes no connection data. -/
theorem Sends.quiet {held : Held} {after : After} {reply : Except PyErr Bytes}
    (hs : Sends L s c h reply held after out) : Quiet s out.1 := by
  rcases hs.server with he | he
  · exact he ▸ .refl s
  · exact he ▸ release_quiet s held

theorem Task.Idles.reads {h' : Handler} (ht : (Task.handler h' : Task (Accepting K)).Idles h) : h'.pc.Reads := by
  obtain ⟨-, hpc | hpc | hpc⟩ := ht
  · rw [hpc]; trivial
  · rw [hpc]; trivial
  · rw [hpc]; trivial

/-- A step of a handler that waits for packets. -/
theorem Move.uneventful (hrefs : s.WfRefs) (hpc : h.pc.Reads)
    (ho : handlerStep L s c h i draw = some out) (hm : Move L s c h i draw out)
    (hev : (Task.handler h).Uneventful L s out.2.2 i) :
    Unmodified s out.1 ∧ ∀ h', out.2.1 = .handler h' → h'.pc.Reads := by
  have hspare : h.Spares L s i → Unmodified s out.1 := fun hs => .of_quiet (handlerStep_harmless L ho hs).quiet
  have hmodified : ∀ {r : Ref}, s.clientDb.get? h.uuid = some r → Quiet (s.modify r Client.received) out.1 →
      ¬ h.Spares L s i := fun hu hq hs => not_unmodified_of_quiet hu hq (hspare hs)
  cases hm with
  | still _ ht _ =>
    refine ⟨.refl s, fun h' hh' => ?_⟩
    obtain rfl := hh'
    exact ht.reads
  | refuse _ hu _ hos hs =>
    exfalso
    rcases hev hpc with hspares | ⟨-, c', type_, value, hacc, -⟩
    · exact hmodified hu (hs.quiet L) hspares
    · rcases List.mem_append.1 hacc with hacc | hacc
      · exact hos _ hacc
      · exact hs.not_accepted L _ hacc
  | @payload r h₁ frame rem os out _ hu hid _ hos hp =>
    have hdispatch : Quiet (s.modify r Client.received)
        (dispatch (s.modify r Client.received) h.uuid h₁.data draw).1 := dispatch_quiet _ _ _ _
    -- a payload that is no BYE was counted
    have hcounted : Quiet (s.modify r Client.received) out.1 →
        (dispatch (s.modify r Client.received) h.uuid h₁.data draw).2 ≠ .bye →
        (∀ c' data, .accepted (.server c') data ∉ out.2.2) → False := by
      intro hq hbye hno
      rcases hev hpc with hspares | ⟨-, c', type_, value, hacc, hcmd⟩
      · exact hmodified hu hq hspares
      · refine hbye ?_
        have hdata : h₁.data = type_ :: value := by
          rcases List.mem_append.1 hacc with hacc | hacc
          · rcases List.mem_append.1 hacc with hacc | hacc
            · exact (hos _ hacc).elim
            · exact ((Obs.accepted.inj (List.mem_singleton.1 hacc)).2).symm
          · exact absurd hacc (hno _ _)
        rw [hdata]
        simp only [dispatch, hcmd]
    cases hp with
    | reply hd hs =>
      exact (hcounted (hdispatch.trans (hs.quiet L)) (by rw [hd]; simp) fun _ _ => hs.not_accepted L _).elim
    | wait hd => exact (hcounted hdispatch (by rw [hd]; simp) fun _ _ => by simp).elim
    | raise hd => exact (hcounted hdispatch (by rw [hd]; simp) fun _ _ => by simp).elim
    | bye hd =>
      obtain ⟨type_, value, -, -, hs⟩ := dispatch_bye hd
      refine ⟨?_, fun h' hh' => by cases hh'⟩
      rcases hev hpc with hspares | ⟨hkeep, -⟩
      · exact hspare hspares
      · simp only [seen_server, hs, hid]
        exact teardown_unmodified hrefs hu hkeep
  | db hp | inboxGet hp | outboxPut hp | outboxNone hp | outboxGet hp | sent hp | close hp =>
    rw [hp] at hpc
    exact absurd hpc (by simp [Await.Reads])
  | die _ _ => exact ⟨.of_quiet (release_quiet s _), fun h' hh' => by cases hh'⟩

/-- An uneventful step changes no connection data, and the handlers go on to wait for packets. -/
theorem uneventful_step (hS : S.Sound) (hreads : S.Reading) (hadmin : ∀ op, a ≠ .admin op)
    (hev : S.Uneventful L a) (hstep : S.step L a = some (S', o)) :
    Unmodified S.server S'.server ∧ S'.Reading := by
  obtain ⟨hlogin, htasks⟩ := hev _ hstep
  -- a coroutine's step leaves the others
  have hput : ∀ {c : ConnId} {s : Server K} {t : Task (Accepting K)}, S' = S.put c s t →
      (∀ h, t = .handler h → h.pc.Reads) → S'.Reading := by
    rintro c s t rfl ht c' h hc'
    by_cases hne : c' = c
    · subst hne
      rw [put_tasks_self] at hc'
      exact ht h hc'
    · rw [put_tasks_ne hne] at hc'
      exact hreads c' h hc'
  rcases step_cases L hstep with ⟨c, rfl, -, rfl, rfl⟩ | ⟨c, i, draw, s, t, rfl, ht, rfl⟩ | ⟨op, rfl, -, -⟩
  · exact ⟨.refl _, hput rfl fun h ht => by cases ht⟩
  · have hev := htasks c i draw rfl
    rcases htask : S.tasks c with _ | a | h | e
    · rw [htask] at ht
      cases ht
    · rw [htask] at ht hev
      have hj := acceptStep_joins L ht
      cases hj with
      | still hout _ => exact ⟨.refl _, hput rfl fun h hh => by rw [hh] at hout; exact hout.elim⟩
      | login hout _ _ =>
        refine ⟨addSession_unmodified hS.refs _ _, hput rfl fun h hh => ?_⟩
        rcases hout with hout | hout
        · rw [hh] at hout; cases hout
        · rw [hh] at hout; exact hout.elim
      | @attach _ u _ _ _ _ _ _ _ _ _ => exact absurd (by simp) (hlogin c u)
      | @unknown l =>
        have hadd := addSession_unmodified hS.refs draw.str
          (.login c draw.str l.cipher (l.txNonce + 1) l.rxNonce)
        refine ⟨fun u r hu hu' => ?_, hput rfl fun h hh => ?_⟩
        · have hne : r ≠ S.server.fresh := Nat.ne_of_lt (hS.refs u r hu).1
          rw [put_server, Server.modify_objs, if_neg hne]
          exact hadd u r hu hu'
        · cases hh
          trivial
      | finish =>
        exfalso
        obtain ⟨hsent, -⟩ | ⟨e, -, he⟩ := acceptStep_sendLogin L ht
        · exact hev hsent
        · exact absurd (congrArg (fun x => x.2.1) he) (by simp [logged])
    · rw [htask] at ht hev
      have htidy := hS.tidy c
      rw [htask] at htidy
      obtain ⟨hmod, hnext⟩ := (handlerStep_move L htidy ht).uneventful L hS.refs (hreads c h htask) ht hev
      exact ⟨hmod, hput rfl hnext⟩
    · rw [htask] at ht
      cases ht
  · exact absurd rfl (hadmin op)

/-- **Without logins and packets nothing is changed**: where no login is completed, no session is
    attached and no packet is processed but BYE, no step changes the data of a stored client. -/
theorem untouched_of_uneventful {password : Bytes} {keep : Bool} {as : List Act}
    (has : ∀ a ∈ as, ∀ op, a ≠ .admin op)
    (h : Lts.Along (Sys.step L) (fun S a _ => S.Uneventful L a) as (.init password keep)) :
    Lts.Along (Sys.step L) (fun S a _ => S.Untouched L a) as (.init password keep) := by
  suffices hall : ∀ (S : Sys K), S.Sound → S.Reading →
      Lts.Along (Sys.step L) (fun S a _ => S.Uneventful L a) as S →
        Lts.Along (Sys.step L) (fun S a _ => S.Untouched L a) as S from
    hall _ (sound_init _ _) (fun c h hc => by cases hc) h
  clear h
  induction as with
  | nil => exact fun _ _ _ _ => trivial
  | cons a as ih =>
    intro S hS hreads h
    have ha := has a List.mem_cons_self
    simp only [Lts.Along] at h ⊢
    rcases hs : S.step L a with _ | ⟨S', o⟩
    · trivial
    · rw [hs] at h
      obtain ⟨hmod, hreads'⟩ := uneventful_step L hS hreads ha h.1 hs
      refine ⟨fun x hx => ?_, ih (fun a' ha' => has a' (List.mem_cons_of_mem _ ha')) S' (step_sound L hS hs)
        hreads' h.2⟩
      rw [hs] at hx
      cases hx
      exact hmod

end

/-! ## Runs on fixed inputs -/

instance [DecidableEq K] (cl cl' : Client K) : Decidable (SameLink cl cl') :=
  decidable_of_iff (cl'.socket = cl.socket ∧ cl'.address = cl.address ∧ cl'.uuid = cl.uuid ∧
      cl'.cipher = cl.cipher ∧ cl'.rxNonce = cl.rxNonce ∧ cl'.txNonce = cl.txNonce)
    ⟨fun ⟨h₁, h₂, h₃, h₄, h₅, h₆⟩ => ⟨h₁, h₂, h₃, h₄, h₅, h₆⟩,
      fun h => ⟨h.socket, h.address, h.uuid, h.cipher, h.rxNonce, h.txNonce⟩⟩

instance [DecidableEq K] (s s' : Server K) : Decidable (Unmodified s s') :=
  decidable_of_iff (∀ p ∈ s.clientDb.items, s'.clientDb.get? p.1 = some p.2 →
      SameLink (s.objs p.2) (s'.objs p.2))
    ⟨fun h u r hu => h (u, r) (Dict.get?_eq_some.1 hu),
      fun h p hp => h p.1 p.2 (Dict.get?_eq_some.2 hp)⟩

instance [DecidableEq K] (S : Sys K) (a : Act) : Decidable (S.Untouched L a) :=
  inferInstanceAs (Decidable (∀ x ∈ S.step L a, _))

/-- A RELOGIN with an unknown uuid, and BYE. -/
def unknownBye : List Act :=
  loginActs 0 reloginResponse ++ [.resume 0 (.recv (stubPacket 0 2 [0x88])) sampleDraw]

/-- A store by value follows when the session just ends again. -/
theorem storage_refines_sample :
    Follows stub .insertion unknownBye (.init [] false) (.init [] false) ∧
      ∃ S os, Lts.exec (Sys.step stub) unknownBye (.init [] false) = some (S, os) ∧
        .session 0 sampleUuid ∈ os ∧ .accepted (.server 0) [0x88] ∈ os := by
  have hwire : ∀ a ∈ unknownBye, ∀ op, a ≠ .admin op := by
    intro a ha op
    rintro rfl
    simp [unknownBye, loginActs] at ha
  have hexec : ((Lts.exec (Sys.step stub) unknownBye (.init [] false)).any fun x =>
      (.session 0 sampleUuid ∈ x.2 : Bool) && (.accepted (.server 0) [0x88] ∈ x.2 : Bool)) = true := by
    decide +kernel
  obtain ⟨⟨S, os⟩, hS, hos⟩ := Option.any_eq_true _ _ |>.1 hexec
  simp only [Bool.and_eq_true, decide_eq_true_eq] at hos
  exact ⟨(storage_refines_iff stub .insertion hwire).2 (by decide +kernel), S, os, hS, hos⟩

/-- A login, and WHOAMI. -/
def loginWhoami : List Act :=
  loginActs 0 [0xC5] ++ [.resume 0 (.recv (stubPacket 0 2 [0x87])) sampleDraw]

/-- **A store by value forgets the counter**: the reply to WHOAMI is sealed under the nonce
    of the ACK before it. -/
theorem storage_differs :
    (∃ S os, Lts.exec (Sys.step stub) loginWhoami (.init [] false) = some (S, os) ∧
      .encrypt (.server 0) 0 2 (latin1 sampleUuid) ∈ os) ∧
    (∃ V os, Lts.exec (ByValue.step stub .insertion) loginWhoami (.init [] false) = some (V, os) ∧
      .encrypt (.server 0) 0 1 ACK ∈ os ∧ .encrypt (.server 0) 0 1 (latin1 sampleUuid) ∈ os) ∧
    ¬ Follows stub .insertion loginWhoami (.init [] false) (.init [] false) := by
  have hexec : ((Lts.exec (Sys.step stub) loginWhoami (.init [] false)).any fun x =>
      (.encrypt (.server 0) 0 2 (latin1 sampleUuid) ∈ x.2 : Bool)) = true := by decide +kernel
  have hexecV : ((Lts.exec (ByValue.step stub .insertion) loginWhoami (.init [] false)).any fun x =>
      (.encrypt (.server 0) 0 1 ACK ∈ x.2 : Bool) &&
      (.encrypt (.server 0) 0 1 (latin1 sampleUuid) ∈ x.2 : Bool) &&
      (.encrypt (.server 0) 0 2 (latin1 sampleUuid) ∉ x.2 : Bool)) = true := by decide +kernel
  obtain ⟨⟨S, os⟩, hS, hos⟩ := Option.any_eq_true _ _ |>.1 hexec
  obtain ⟨⟨V, osV⟩, hV, hosV⟩ := Option.any_eq_true _ _ |>.1 hexecV
  simp only [Bool.and_eq_true, decide_eq_true_eq] at hos hosV
  refine ⟨⟨S, os, hS, hos⟩, ⟨V, osV, hV, hosV.1⟩, fun h => ?_⟩
  obtain ⟨V', hV', -⟩ := h.exec stub .insertion hS
  cases hV.symm.trans hV'
  exact hosV.2 hos

end Pipebomb
