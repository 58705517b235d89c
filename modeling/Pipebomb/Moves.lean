/-
  What a step of one coroutine can be.

  * `Server.Aside`: the database, the lock of the database and the settings are the same; so a
    command leaves them up to its first await, and an administrative call (`admin_aside`).
  * `Sends`: a reply is sent, or an exception of making it ends the coroutine.
  * `Proceeds`: what becomes of a payload after `dispatch`.
  * `Move`: the steps of a handler, one constructor for each thing it can do; `Joins`: the
    steps of the handshake, as far as the sessions are concerned.
  * `handlerStep_move`, `acceptStep_joins`: every step is one of them; `Move.accepted` is what
    is known of a payload that a step accepts.
  * `Sys.Step`: the steps of the server in these terms, from states in which a handler
    holds no lock while it sends an error about a header (`Sys.Tidy`).
-/
import Pipebomb.System

namespace Pipebomb

open ByteString

variable {K : Type} (L : Libs K)

/-- A call of the cipher or bytes for the socket. -/
def Obs.Inner : Obs K → Prop
  | .encrypt _ _ _ _ | .decrypt _ _ _ _ | .write _ _ => True
  | _ => False

/-- Nothing was accepted, answered or logged in. -/
def Inner (os : List (Obs K)) : Prop := ∀ x ∈ os, x.Inner

section
variable {os os' : List (Obs K)}

theorem Inner.nil : Inner ([] : List (Obs K)) := fun _ h => absurd h (by simp)

theorem Inner.append (h : Inner os) (h' : Inner os') : Inner (os ++ os') :=
  fun x hx => (List.mem_append.1 hx).elim (h x) (h' x)

theorem Inner.cons {x : Obs K} (h : x.Inner) (h' : Inner os) : Inner (x :: os) :=
  fun y hy => (List.mem_cons.1 hy).elim (fun e => e ▸ h) (h' y)

theorem inner_encryptCall (p : Party) (data : Bytes) (cipher : Option K) (n : ℕ) :
    Inner (encryptCall p data cipher n) := by
  unfold encryptCall
  split
  · exact .nil
  · split_ifs
    · exact .cons trivial .nil
    · exact .nil

theorem inner_decryptCall (p : Party) (packet : Bytes) (cipher : Option K) (n : ℕ) :
    Inner (decryptCall p packet cipher n) := by
  unfold decryptCall
  split
  · split_ifs
    · exact .cons trivial .nil
    · exact .nil
  · exact .nil

end

/-! ## Sessions only -/

/-- Database, lock, password and configuration are the same. -/
structure Server.Aside (s s' : Server K) : Prop where
  db : s'.db = s.db
  dbLock : s'.dbLock = s.dbLock
  password : s'.password = s.password
  keepDeadSessions : s'.keepDeadSessions = s.keepDeadSessions

theorem Server.Aside.refl (s : Server K) : s.Aside s := ⟨rfl, rfl, rfl, rfl⟩

theorem Server.Aside.trans {s s' s'' : Server K} (h : s.Aside s') (h' : s'.Aside s'') : s.Aside s'' :=
  ⟨h'.1.trans h.1, h'.2.trans h.2, h'.3.trans h.3, h'.4.trans h.4⟩

theorem modify_aside (s : Server K) (r : Ref) (f : Client K → Client K) : s.Aside (s.modify r f) :=
  ⟨rfl, rfl, rfl, rfl⟩

/-- A command changes sessions only, up to its first await. -/
theorem dispatch_aside (s : Server K) (u : PyStr) (data : Bytes) (draw : Uuid4) :
    s.Aside (dispatch s u data draw).1 := by
  cases data with
  | nil => exact .refl s
  | cons type_ value =>
    simp only [dispatch]
    cases command type_ with
    | register =>
      simp only [register]
      split_ifs
      · exact .refl s
      · split
        · exact .refl s
        · exact ⟨rfl, rfl, rfl, rfl⟩
    | unregister =>
      simp only [unregister]
      split
      · exact .refl s
      · split_ifs
        · exact ⟨rfl, rfl, rfl, rfl⟩
        · exact ⟨rfl, rfl, rfl, rfl⟩
        · exact .refl s
    | putInbox =>
      simp only [putInbox]
      split
      · split
        · exact .refl s
        · split
          · exact .refl s
          · exact modify_aside _ _ _
      · exact .refl s
      · exact .refl s
    | getInbox => simp only; split <;> exact .refl s
    | getOutbox => simp only; split <;> exact .refl s
    | _ => exact .refl s

theorem teardown_aside (s : Server K) (u : PyStr) : s.Aside (teardown s u) := by
  unfold teardown
  split_ifs
  · exact .refl s
  · exact ⟨rfl, rfl, rfl, rfl⟩

/-- An administrative call changes sessions and names only. -/
theorem admin_aside (s : Server K) (op : Admin) : s.Aside (op.run s).1 := by
  cases op with
  | addClient t =>
    simp only [Admin.run, addClient]
    split_ifs <;> exact ⟨rfl, rfl, rfl, rfl⟩
  | removeClient uuid =>
    simp only [Admin.run, removeClient]
    split_ifs
    · exact .refl s
    · split
      · exact .refl s
      · split <;> exact ⟨rfl, rfl, rfl, rfl⟩
  | addKey key uuid =>
    simp only [Admin.run, addKey]
    split_ifs
    · exact .refl s
    · exact .refl s
    · split <;> exact ⟨rfl, rfl, rfl, rfl⟩
  | removeKey key uuid =>
    simp only [Admin.run, removeKey]
    split_ifs
    · exact .refl s
    · split
      · exact ⟨rfl, rfl, rfl, rfl⟩
      · split <;> exact ⟨rfl, rfl, rfl, rfl⟩
    · exact .refl s

/-! ## The handler -/

section
variable {A : Type} {s : Server K} {c : ConnId} {h : Handler}

/-- Sending a reply: the coroutine waits for the end of the send, or, if no packet can be
    built, an exception ends it and gives its lock back. -/
inductive Sends (s : Server K) (c : ConnId) (h : Handler) (reply : Except PyErr Bytes)
    (held : Held) (after : After) : Outcome K A → Prop
  | fail {e : PyErr} {os : List (Obs K)} :
      (∀ data cl pkt, reply = .ok data → s.client h.uuid = some cl →
        constructPacket L data cl.cipher cl.txNonce ≠ .ok pkt) → Inner os →
      Sends s c h reply held after (s.release held, .over (some e), os)
  | start {data pkt : Bytes} {os : List (Obs K)} : reply = .ok data → Inner os →
      Sends s c h reply held after (s, .handler { h with pc := .sendall held after },
        os ++ .write (.server c) pkt :: if after = .next then [.answered c h.uuid h.data data] else [])

/-- What follows `dispatch`. -/
inductive Proceeds (c : ConnId) (h : Handler) (o : Server K × Next) : Outcome K A → Prop
  | reply {data : Bytes} {out : Outcome K A} : o.2 = .reply data →
      Sends L o.1 c h (.ok data) .none .next out → Proceeds c h o out
  | wait {pc : Await} : o.2 = .wait pc → Proceeds c h o (o.1, .handler { h with pc := pc }, [])
  | raise {e : PyErr} : o.2 = .raise e → Proceeds c h o (o.1, .over (some e), [])
  | bye : o.2 = .bye → Proceeds c h o (teardown o.1 h.uuid, .over none, [])

/-- The awaits at which the coroutine has nothing to do but to look for a packet. -/
def Await.Reads : Await → Prop
  | .start | .sleep | .recv | .sendall .none .frameError => True
  | _ => False

/-- Between two payloads the coroutine waits for data or ends. -/
def Task.Idles (h : Handler) : Task A → Prop
  | .handler h' => h'.uuid = h.uuid ∧
      (h'.pc = .sleep ∨ h'.pc = .recv ∨ h'.pc = .sendall .none .frameError)
  | .over (some _) => True
  | _ => False

/-- **What a step of a handler can be.** -/
inductive Move (s : Server K) (c : ConnId) (h : Handler) (i : Input) (draw : Uuid4) :
    Outcome K A → Prop
  /-- nothing happens to the server -/
  | still {t : Task A} {os : List (Obs K)} : h.pc.Reads → t.Idles h → Inner os →
      Move s c h i draw (s, t, os)
  /-- a packet fails verification -/
  | refuse {r : Ref} {h' : Handler} {reply : Except PyErr Bytes} {os : List (Obs K)}
      {out : Outcome K A} : h.pc.Reads → s.clientDb.get? h.uuid = some r →
      h'.uuid = h.uuid → Inner os →
      Sends L (s.modify r Client.received) c h' reply .none .close out →
      Move s c h i draw (seen os out)
  /-- a payload is accepted -/
  | payload {r : Ref} {h' : Handler} {frame : Bytes} {rem : Option Bytes} {os : List (Obs K)}
      {out : Outcome K A} : h.pc.Reads → s.clientDb.get? h.uuid = some r → h'.uuid = h.uuid →
      verifyPacket L frame (s.objs r).cipher (s.objs r).rxNonce = .ok (.payload h'.data rem) →
      Inner os →
      Proceeds L c h' (dispatch (s.modify r Client.received) h.uuid h'.data draw) out →
      Move s c h i draw (seen (os ++ [.accepted (.server c) h'.data]) out)
  /-- a command runs under `db_lock` -/
  | db {op : DbOp} {out : Outcome K A} : h.pc = .dbLock op → i = .go → s.dbLock = false →
      Sends L (op.run (s.setDbLock true) h.data.tail).1 c h
        (op.run (s.setDbLock true) h.data.tail).2 .dbLock .next out → Move s c h i draw out
  /-- a request is taken out of the inbox -/
  | inboxGet {r : Ref} {q : Request} {qs : List Request} {out : Outcome K A} :
      h.pc = .inboxGet r → i = .go → (s.objs r).inbox = q :: qs →
      Sends L (s.modify r (Client.setInbox qs)) c h (inboxReply q) .none .next out →
      Move s c h i draw out
  /-- a response is written -/
  | outboxPut {r : Ref} {p : Response} {out : Outcome K A} : h.pc = .outboxPut r p →
      i = .go → (s.objs r).outboxLock = false →
      Sends L (s.modify r (Client.setOutbox ((s.objs r).outbox.set p.response_uuid p))) c h
        (.ok ACK) .none .next out → Move s c h i draw out
  /-- there is no response with the id -/
  | outboxNone {r : Ref} {id : Bytes} {out : Outcome K A} : h.pc = .outboxGet r id →
      i = .go → (s.objs r).outboxLock = false → (s.objs r).outbox.get? id = none →
      Sends L (s.modify r (Client.setOutboxLock true)) c h (errDispatch 7) (.outboxLock r) .next out →
      Move s c h i draw out
  /-- a response is taken out of the outbox -/
  | outboxGet {r : Ref} {id : Bytes} {p : Response} {out : Outcome K A} :
      h.pc = .outboxGet r id → i = .go → (s.objs r).outboxLock = false →
      (s.objs r).outbox.get? id = some p →
      Sends L ((s.modify r (Client.setOutboxLock true)).modify r
        (Client.setOutbox ((s.objs r).outbox.erase id))) c h (outboxReply p) (.outboxLock r) .next
        out → Move s c h i draw out
  /-- a send ends -/
  | sent {held : Held} {r : Ref} : h.pc = .sendall held .next → i = .sent →
      s.clientDb.get? h.uuid = some r →
      Move s c h i draw ((s.modify r Client.sent).release held, .handler { h with pc := .sleep }, [])
  /-- the send of the last packet ends -/
  | close {held : Held} {r : Ref} : h.pc = .sendall held .close → i = .sent →
      s.clientDb.get? h.uuid = some r →
      Move s c h i draw (teardown ((s.modify r Client.sent).release held) h.uuid, .over none, [])
  /-- an exception ends the coroutine -/
  | die {e : PyErr} : i ≠ .go → (i = .sent → h.uuid ∉ s.clientDb) →
      Move s c h i draw (s.release h.pc.held, .over (some e), [])

theorem Sends.server {reply : Except PyErr Bytes} {held : Held} {after : After} {out : Outcome K A}
    (hs : Sends L s c h reply held after out) : out.1 = s ∨ out.1 = s.release held := by
  cases hs with
  | fail => exact .inr rfl
  | start => exact .inl rfl

theorem sendPacket_sends (reply : Bytes) (held : Held) (after : After) :
    Sends L s c h (.ok reply) held after (sendPacket L s c h reply held after : Outcome K A) := by
  unfold sendPacket
  rcases hcl : s.client h.uuid with _ | cl
  · refine .fail ?_ .nil
    rintro data cl pkt - hcl'
    rw [hcl] at hcl'
    cases hcl'
  · simp only
    rcases hpkt : constructPacket L reply cl.cipher cl.txNonce with e | pkt
    · have hin := inner_encryptCall (.server c) reply cl.cipher cl.txNonce
      refine .fail ?_ (hin.append .nil)
      rintro data cl' pkt ⟨⟩ hcl' hok
      obtain rfl := Option.some.inj (hcl.symm.trans hcl')
      rw [hpkt] at hok
      cases hok
    · exact .start rfl (inner_encryptCall _ _ _ _)

theorem sendReply_sends (reply : Except PyErr Bytes) (held : Held) (after : After) :
    Sends L s c h reply held after (sendReply L s c h reply held after : Outcome K A) := by
  cases reply with
  | error e => exact .fail (fun _ _ _ h => (by cases h)) .nil
  | ok data => exact sendPacket_sends L data held after

theorem proceed_proceeds (o : Server K × Next) :
    Proceeds L c h o (proceed L c h o : Outcome K A) := by
  unfold proceed
  rcases hn : o.2 with data | pc | e | _
  · exact .reply hn (sendPacket_sends L data .none .next)
  · exact .wait hn
  · exact .raise hn
  · exact .bye hn

/-- `onFrame` with the variables `h'` of the coroutine. -/
theorem onFrame_move {h' : Handler} {frame : Option Bytes} {i : Input} {draw : Uuid4}
    (hreads : h.pc.Reads) (hu : h'.uuid = h.uuid) :
    Move L s c h i draw (onFrame L s c h' frame draw : Outcome K A) := by
  unfold onFrame
  rw [hu]
  rcases hr : s.clientDb.get? h.uuid with _ | r
  · exact .still hreads trivial .nil
  · cases frame with
    | none => exact .still hreads trivial .nil
    | some f =>
      simp only
      have hin := inner_decryptCall (.server c) f (s.objs r).cipher (s.objs r).rxNonce
      rcases hv : verifyPacket L f (s.objs r).cipher (s.objs r).rxNonce with e | n | ⟨data, rem⟩
      · exact .still hreads trivial (hin.append .nil)
      · exact .refuse hreads hr hu hin (sendReply_sends L _ _ _)
      · have hu' : ({ h' with data := data } : Handler).uuid = h.uuid := hu
        have hmove : Move L s c h i draw (seen _ (proceed L c { h' with data := data } _)) :=
          .payload (A := A) hreads hr hu' hv hin (proceed_proceeds L _)
        simpa only [seen, List.append_assoc, hu] using hmove

theorem pump_move {h' : Handler} {i : Input} {draw : Uuid4} (hreads : h.pc.Reads)
    (hu : h'.uuid = h.uuid) : Move L s c h i draw (pump L s c h' draw : Outcome K A) := by
  unfold pump
  rcases extractPacketFrame h'.receiveBuffer with ⟨_ | f, rest, _ | n⟩
  · exact .still hreads ⟨hu, .inr (.inl rfl)⟩ .nil
  · simp only
    rcases errDispatch n with e | bs
    · exact .still hreads trivial .nil
    · exact .still hreads ⟨hu, .inr (.inr rfl)⟩ (.cons trivial .nil)
  · exact onFrame_move L hreads hu
  · simp only
    rcases errDispatch n with e | bs
    · exact .still hreads trivial .nil
    · exact .still hreads ⟨hu, .inr (.inr rfl)⟩ (.cons trivial .nil)

/-- **Every step of a handler is a move.** -/
theorem handlerStep_move {i : Input} {draw : Uuid4} {o : Outcome K A}
    (hframe : ∀ held, h.pc = .sendall held .frameError → held = .none)
    (ho : handlerStep L s c h i draw = some o) : Move L s c h i draw o := by
  have hreads : ∀ {pc : Await}, h.pc = pc → pc.Reads → h.pc.Reads := by
    rintro pc rfl hp
    exact hp
  unfold handlerStep at ho
  split at ho
  · rename_i hpc
    cases ho
    unfold started
    split
    · exact .still (hreads hpc trivial) trivial .nil
    · split_ifs
      · exact .still (hreads hpc trivial) trivial .nil
      · exact .still (hreads hpc trivial) ⟨rfl, .inl rfl⟩ .nil
  · rename_i hpc
    cases ho
    exact pump_move L (hreads hpc trivial) rfl
  · rename_i hpc
    split_ifs at ho
    · cases ho; exact onFrame_move L (hreads hpc trivial) rfl
    · cases ho; exact pump_move L (hreads hpc trivial) rfl
  · rename_i hpc
    split_ifs at ho with hlock
    cases ho
    exact .db hpc rfl (by simpa using hlock) (sendReply_sends L _ _ _)
  · rename_i hpc
    split at ho
    · cases ho
    · rename_i hq
      cases ho
      exact .inboxGet hpc rfl hq (sendReply_sends L _ _ _)
  · rename_i hpc
    split_ifs at ho with hlock
    cases ho
    exact .outboxPut hpc rfl (by simpa using hlock) (sendPacket_sends L _ _ _)
  · rename_i r id hpc
    split_ifs at ho with hlock
    have hbox : ((s.modify r (Client.setOutboxLock true)).objs r).outbox = (s.objs r).outbox := by
      rw [Server.modify_objs_self]; rfl
    simp only [hbox] at ho
    rcases hg : (s.objs r).outbox.get? id with _ | p
    · rw [hg] at ho
      cases ho
      exact .outboxNone hpc rfl (by simpa using hlock) hg (sendReply_sends L _ _ _)
    · rw [hg] at ho
      cases ho
      exact .outboxGet hpc rfl (by simpa using hlock) hg (sendReply_sends L _ _ _)
  · rename_i held after hpc
    cases ho
    cases after with
    | frameError => exact onFrame_move L (hreads hpc (by rw [hframe held hpc]; trivial)) rfl
    | next =>
      simp only [onSent]
      rcases hr : s.clientDb.get? h.uuid with _ | r
      · have hheld : h.pc.held = held := by rw [hpc]; rfl
        rw [← hheld]
        exact .die (by simp) fun _ => Dict.get?_eq_none.1 hr
      · exact .sent hpc rfl hr
    | close =>
      simp only [onSent]
      rcases hr : s.clientDb.get? h.uuid with _ | r
      · have hheld : h.pc.held = held := by rw [hpc]; rfl
        rw [← hheld]
        exact .die (by simp) fun _ => Dict.get?_eq_none.1 hr
      · exact .close hpc rfl hr
  · cases ho; exact .die (by simp) (by simp)
  · cases ho

/-! ## What is accepted and answered -/

variable {out : Outcome K A} {i : Input} {draw : Uuid4} {reply : Except PyErr Bytes} {held : Held}
  {after : After} {data : Bytes}

theorem Sends.not_accepted (hs : Sends L s c h reply held after out) (p : Party) :
    .accepted p data ∉ out.2.2 := by
  intro hm
  cases hs with
  | fail _ hin => exact hin _ hm
  | start _ hin =>
    rcases List.mem_append.1 hm with hm | hm
    · exact hin _ hm
    · split_ifs at hm
      · simp at hm
      · simp at hm

/-- A payload that fits is sent, as long as the session has a cipher and a nonce left. -/
theorem Sends.answered {cl : Client K} (hs : Sends L s c h (.ok data) held .next out)
    (hcl : s.client h.uuid = some cl) (hk : cl.cipher ≠ none) (hn : cl.txNonce < 2 ^ 96)
    (hd : data ≠ []) (hf : Fits L data) : .answered c h.uuid h.data data ∈ out.2.2 := by
  cases hs with
  | fail hno =>
    obtain ⟨k, hk⟩ := Option.ne_none_iff_exists'.1 hk
    refine absurd ?_ (hno data cl (packetOf (sealed L k cl.txNonce data)) rfl hcl)
    rw [hk]
    exact constructPacket_eq L hd hf hn k
  | start he hin =>
    cases he
    simp

/-- **A step that accepts a payload.** -/
theorem Move.accepted (hm : Move L s c h i draw out) {p : Party}
    (hd : .accepted p data ∈ out.2.2) :
    ∃ r h' os out' frame rem, h.pc.Reads ∧ s.clientDb.get? h.uuid = some r ∧ h'.uuid = h.uuid ∧
      h'.data = data ∧ Inner os ∧
      verifyPacket L frame (s.objs r).cipher (s.objs r).rxNonce = .ok (.payload data rem) ∧
      Proceeds L c h' (dispatch (s.modify r Client.received) h.uuid data draw) out' ∧
      out = seen (os ++ [.accepted (.server c) data]) out' := by
  cases hm with
  | still _ _ hin => exact absurd hd fun hd => hin _ hd
  | refuse _ _ _ hin hs =>
    rcases List.mem_append.1 hd with hd | hd
    · exact absurd hd fun hd => hin _ hd
    · exact absurd hd (hs.not_accepted L p)
  | payload hreads hr hu hv hin hp =>
    rename_i r h' frame rem os out'
    have hdata : h'.data = data := by
      rcases List.mem_append.1 hd with hd | hd
      · rcases List.mem_append.1 hd with hd | hd
        · exact absurd hd fun hd => hin _ hd
        · simp only [List.mem_singleton, Obs.accepted.injEq] at hd
          exact hd.2.symm
      · cases hp with
        | reply _ hs => exact absurd hd (hs.not_accepted L p)
        | wait => cases hd
        | raise => cases hd
        | bye => cases hd
    rw [hdata] at hv hp ⊢
    exact ⟨r, h', os, out', frame, rem, hreads, hr, hu, hdata, hin, hv, hp, rfl⟩
  | db _ _ _ hs => exact absurd hd (hs.not_accepted L p)
  | inboxGet _ _ _ hs => exact absurd hd (hs.not_accepted L p)
  | outboxPut _ _ _ hs => exact absurd hd (hs.not_accepted L p)
  | outboxNone _ _ _ _ hs => exact absurd hd (hs.not_accepted L p)
  | outboxGet _ _ _ _ hs => exact absurd hd (hs.not_accepted L p)
  | sent => cases hd
  | close => cases hd
  | die => cases hd

end

/-! ## The handshake -/

section
variable {s : Server K} {c : ConnId}

/-- A coroutine of the handshake that has no session, or none at all. -/
def Task.Outside : Task (Accepting K) → Prop
  | .accept (.sendLogin _ _ _) | .handler _ | .idle => False
  | _ => True

/-- Nothing was answered and nobody logged in. -/
def Obs.Shut : Obs K → Prop
  | .encrypt _ _ _ _ | .decrypt _ _ _ _ | .write _ _ | .accepted _ _ => True
  | _ => False

def Shut (os : List (Obs K)) : Prop := ∀ x ∈ os, x.Shut

/-- **What a step of the handshake can be**, as far as the sessions are concerned. -/
inductive Joins (s : Server K) (c : ConnId) (draw : Uuid4) :
    Accepting K → Outcome K (Accepting K) → Prop
  | still {a : Accepting K} {t : Task (Accepting K)} {os : List (Obs K)} : t.Outside → Shut os →
      Joins s c draw a (s, t, os)
  /-- a new session -/
  | login {a : Accepting K} {l : Locals K} {t : Task (Accepting K)} {os os' : List (Obs K)} :
      t = .accept (.sendLogin l draw.str s.fresh) ∨ t.Outside → Shut os → Shut os' →
      Joins s c draw a (s.addSession draw.str (.login c draw.str l.cipher l.txNonce l.rxNonce), t,
        os ++ .session c draw.str :: os')
  /-- an old session -/
  | attach {a : Accepting K} {u : PyStr} {r : Ref} {l : Locals K} {t : Task (Accepting K)}
      {os os' : List (Obs K)} : s.clientDb.get? u = some r →
      t = .accept (.sendLogin l u r) ∨ t.Outside → Shut os → Shut os' →
      Joins s c draw a (s.modify r (Client.attach c l.cipher), t, os ++ .relogin c u :: os')
  /-- a new session after a RELOGIN with an unknown uuid -/
  | unknown {l : Locals K} : Joins s c draw (.sendUnknown l)
      ((s.addSession draw.str (.login c draw.str l.cipher (l.txNonce + 1) l.rxNonce)).modify s.fresh
          (Client.setNonces (l.txNonce + 1) l.rxNonce),
        .handler ⟨draw.str, [], [], .start⟩, [.session c draw.str])
  /-- the handler starts -/
  | finish {l : Locals K} {u : PyStr} {r : Ref} : Joins s c draw (.sendLogin l u r)
      (s.modify r (Client.setNonces (l.txNonce + 1) l.rxNonce), .handler ⟨u, [], [], .start⟩, [])

variable {os os' : List (Obs K)}

theorem Joins.aside {draw : Uuid4} {a : Accepting K} {out : Outcome K (Accepting K)} (hj : Joins s c draw a out) :
    s.Aside out.1 := by
  cases hj <;> exact ⟨rfl, rfl, rfl, rfl⟩

theorem Shut.nil : Shut ([] : List (Obs K)) := fun _ h => absurd h (by simp)

theorem Shut.append (h : Shut os) (h' : Shut os') : Shut (os ++ os') :=
  fun x hx => (List.mem_append.1 hx).elim (h x) (h' x)

theorem Shut.cons {x : Obs K} (h : x.Shut) (h' : Shut os) : Shut (x :: os) :=
  fun y hy => (List.mem_cons.1 hy).elim (fun e => e ▸ h) (h' y)

theorem Inner.shut (h : Inner os) : Shut os := by
  intro x hx
  have := h x hx
  cases x <;> first | exact this.elim | trivial

/-- What is seen of a packet of the handshake, and where the coroutine stands then. -/
theorem sendHandshake_joins (l : Locals K) (data : Bytes) (next : Accepting K) :
    ∃ t os, sendHandshake L s c l data next = (s, t, os) ∧ Shut os ∧
      (t = .accept next ∨ t.Outside) := by
  have hin := (inner_encryptCall (.server c) data (some l.cipher) l.txNonce).shut
  unfold sendHandshake
  rcases constructPacket L data (some l.cipher) l.txNonce with e | pkt
  · exact ⟨_, _, rfl, hin.append .nil, .inr trivial⟩
  · exact ⟨_, _, rfl, hin.append (.cons trivial .nil), .inl rfl⟩

theorem onPassword_joins (a : Accepting K) (l : Locals K) (frame : Bytes) (draw : Uuid4) :
    Joins s c draw a (onPassword L s c l frame) := by
  have hin := (inner_decryptCall (.server c) frame (some l.cipher) l.rxNonce).shut
  unfold onPassword
  rcases verifyPacket L frame (some l.cipher) l.rxNonce with e | n | ⟨password, rem⟩
  · exact .still trivial (hin.append .nil)
  · exact .still trivial (hin.append .nil)
  · simp only
    split_ifs
    · exact .still trivial (hin.append .nil)
    · obtain ⟨t, os, ho, hos, ht⟩ := sendHandshake_joins L (s := s) (c := c)
        { l with rxNonce := l.rxNonce + 1 } ACK
        (.sendAck { l with rxNonce := l.rxNonce + 1, txNonce := l.txNonce + 1 })
      rw [ho]
      refine .still ?_ (hin.append (.cons trivial hos))
      rcases ht with rfl | ht
      · trivial
      · exact ht

theorem onLogin_joins (a : Accepting K) (l : Locals K) (frame : Bytes) (draw : Uuid4) :
    Joins s c draw a (onLogin L s c l frame draw) := by
  have hin := (inner_decryptCall (.server c) frame (some l.cipher) l.rxNonce).shut
  have hin' : ∀ data : Bytes, Shut (decryptCall (.server c) frame (some l.cipher) l.rxNonce ++
      [.accepted (.server c) data]) := fun data => hin.append (.cons trivial .nil)
  unfold onLogin
  rcases verifyPacket L frame (some l.cipher) l.rxNonce with e | n | ⟨response, rem⟩
  · exact .still trivial (hin.append .nil)
  · exact .still trivial (hin.append .nil)
  · rcases response with _ | ⟨type_, rest⟩
    · exact .still trivial (hin.append (.cons trivial .nil))
    · simp only
      split_ifs
      · rcases hu : s.clientDb.get? (latin1Decode rest) with _ | r
        · rcases errDispatch 7 with e | reply
          · exact .still trivial (hin.append (.cons trivial .nil))
          · obtain ⟨t, os, ho, hos, ht⟩ := sendHandshake_joins L (s := s) (c := c)
              { l with rxNonce := l.rxNonce + 1 } reply
              (.sendUnknown { l with rxNonce := l.rxNonce + 1 })
            simp only [ho]
            refine .still ?_ (hin.append (.cons trivial hos))
            rcases ht with rfl | ht
            · trivial
            · exact ht
        · obtain ⟨t, os, ho, hos, ht⟩ := sendHandshake_joins L
            (s := s.modify r (Client.attach c l.cipher)) (c := c)
            { l with rxNonce := l.rxNonce + 1 } ACK
            (.sendLogin { l with rxNonce := l.rxNonce + 1 } (latin1Decode rest) r)
          simp only [ho, seen]
          have hjoin : Joins s c draw a (s.modify r (Client.attach c l.cipher), t,
              (decryptCall (.server c) frame (some l.cipher) l.rxNonce ++
                [.accepted (.server c) (type_ :: rest)]) ++ .relogin c (latin1Decode rest) :: os) :=
            .attach (l := { l with rxNonce := l.rxNonce + 1 }) hu ht (hin' _) hos
          simpa [List.append_assoc] using hjoin
      · obtain ⟨t, os, ho, hos, ht⟩ := sendHandshake_joins L (c := c)
          (s := s.addSession draw.str (.login c draw.str l.cipher l.txNonce (l.rxNonce + 1)))
          { l with rxNonce := l.rxNonce + 1 } ACK
          (.sendLogin { l with rxNonce := l.rxNonce + 1 } draw.str s.fresh)
        simp only [ho, seen]
        have hjoin : Joins s c draw a
            (s.addSession draw.str (.login c draw.str l.cipher l.txNonce (l.rxNonce + 1)), t,
              (decryptCall (.server c) frame (some l.cipher) l.rxNonce ++
                [.accepted (.server c) (type_ :: rest)]) ++ .session c draw.str :: os) :=
          .login (l := { l with rxNonce := l.rxNonce + 1 }) ht (hin' _) hos
        simpa [List.append_assoc] using hjoin
      · exact .still trivial (hin.append (.cons trivial .nil))

theorem onChunk_joins {a : Accepting K} {buffer chunk : Bytes} {waiting : Bytes → Accepting K}
    {frame : Bytes → Outcome K (Accepting K)} {draw : Uuid4}
    (hw : ∀ b, (Task.accept (waiting b)).Outside) (hf : ∀ f, Joins s c draw a (frame f)) :
    Joins s c draw a (onChunk s buffer chunk waiting frame) := by
  unfold onChunk
  split_ifs
  · exact .still trivial .nil
  · split
    · exact .still trivial .nil
    · exact hf _
    · exact .still (hw _) .nil

/-- **Every step of the handshake.** -/
theorem acceptStep_joins {a : Accepting K} {i : Input} {draw : Uuid4}
    {o : Outcome K (Accepting K)} (ho : acceptStep L s c a i draw = some o) :
    Joins s c draw a o := by
  unfold acceptStep at ho
  split at ho
  · split_ifs at ho
    · cases ho; exact .still trivial .nil
    · cases ho; exact .still trivial .nil
    · cases ho; exact .still trivial (.cons trivial .nil)
  · split at ho
    · cases ho; exact .still trivial .nil
    · cases ho; exact .still trivial .nil
  · split_ifs at ho
    cases ho
    exact onChunk_joins (fun _ => trivial) fun f => onPassword_joins L _ _ f draw
  · cases ho; exact .still trivial .nil
  · split_ifs at ho
    cases ho
    exact onChunk_joins (fun _ => trivial) fun f => onLogin_joins L _ _ f draw
  · cases ho; exact .unknown
  · cases ho; exact .finish
  · cases ho; exact .still trivial .nil
  · cases ho

end

/-! ## The server -/

/-- A handler holds no lock while it sends an error about a header. -/
def Task.Tidy : Task (Accepting K) → Prop
  | .handler h => ∀ held, h.pc = .sendall held .frameError → held = .none
  | _ => True

section
variable {S S' : Sys K} {s s' : Server K} {c : ConnId} {h : Handler} {draw : Uuid4}
  {o : List (Obs K)}

theorem Task.Idles.tidy {t : Task (Accepting K)} (ht : t.Idles h) : t.Tidy := by
  cases t with
  | handler h' =>
    rintro held hpc
    rcases ht.2 with hi | hi | hi
    · rw [hi] at hpc; cases hpc
    · rw [hi] at hpc; cases hpc
    · rw [hi] at hpc; cases hpc; rfl
  | _ => trivial

theorem Sends.tidy {reply : Except PyErr Bytes} {held : Held} {after : After}
    {out : Outcome K (Accepting K)} (hs : Sends L s c h reply held after out)
    (ha : after ≠ .frameError) : out.2.1.Tidy := by
  cases hs with
  | fail => trivial
  | start =>
    rintro held' hpc
    cases hpc
    exact absurd rfl ha

theorem answer_wait {x : Except PyErr Bytes} {pc : Await} : answer x ≠ .wait pc := by
  cases x <;> simp [answer]

/-- `dispatch` waits for a lock or an item, or does not wait. -/
theorem dispatch_wait {uuid : PyStr} {data : Bytes} {pc : Await}
    (hd : (dispatch s uuid data draw).2 = .wait pc) :
    ∃ type_ value, data = type_ :: value ∧ (dispatch s uuid data draw).1 = s ∧
      ((∃ op, command type_ = .db op ∧ pc = .dbLock op) ∨
      (∃ r, command type_ = .getInbox ∧ s.clientDb.get? uuid = some r ∧ pc = .inboxGet r) ∨
      (∃ r p, command type_ = .putOutbox ∧ putOutbox s value = .wait pc ∧ pc = .outboxPut r p) ∨
      ∃ r, command type_ = .getOutbox ∧ s.clientDb.get? uuid = some r ∧ pc = .outboxGet r value) := by
  cases data with
  | nil => cases hd
  | cons type_ value =>
    simp only [dispatch] at hd ⊢
    refine ⟨type_, value, rfl, ?_⟩
    rcases hc : command type_ with op | _ | _ | _ | _ | _ | _ | _ | _ | _ | _
    · rw [hc] at hd
      cases hd
      exact ⟨rfl, .inl ⟨op, rfl, rfl⟩⟩
    · rw [hc] at hd
      simp only [register] at hd
      split_ifs at hd
      · exact (answer_wait (x := errDispatch 5) hd).elim
      · rcases hu : s.clientDb.get? uuid with _ | r
        · rw [hu] at hd; cases hd
        · rw [hu] at hd; cases hd
    · rw [hc] at hd
      simp only [unregister] at hd
      rcases hu : s.clientDb.get? uuid with _ | r
      · rw [hu] at hd; cases hd
      · rw [hu] at hd
        simp only at hd
        split_ifs at hd
        · exact (answer_wait (x := errDispatch 5) hd).elim
    · rw [hc] at hd; exact (answer_wait hd).elim
    · rw [hc] at hd; cases hd
    · rw [hc] at hd
      simp only [whohas] at hd
      split at hd
      · exact (answer_wait hd).elim
      · exact (answer_wait hd).elim
    · rw [hc] at hd
      simp only [putInbox] at hd
      split at hd
      · split at hd
        · cases hd
        · split at hd
          · cases hd
          · cases hd
      · cases hd
      · cases hd
    · rw [hc] at hd
      rcases hu : s.clientDb.get? uuid with _ | r
      · rw [hu] at hd; cases hd
      · rw [hu] at hd
        cases hd
        exact ⟨rfl, .inr (.inl ⟨r, rfl, rfl, rfl⟩)⟩
    · rw [hc] at hd
      refine ⟨rfl, .inr (.inr (.inl ?_))⟩
      have hd' := hd
      simp only [putOutbox] at hd'
      split at hd'
      · split at hd'
        · cases hd'
        · cases hd'; exact ⟨_, _, rfl, hd, rfl⟩
      · cases hd'
      · cases hd'
    · rw [hc] at hd
      rcases hu : s.clientDb.get? uuid with _ | r
      · rw [hu] at hd; cases hd
      · rw [hu] at hd
        cases hd
        exact ⟨rfl, .inr (.inr (.inr ⟨r, rfl, rfl, rfl⟩))⟩
    · rw [hc] at hd; exact (answer_wait (x := errDispatch 4) hd).elim

theorem answer_ne_bye (x : Except PyErr Bytes) : answer x ≠ .bye := by
  cases x <;> simp [answer]

theorem register_ne_bye (s : Server K) (uuid name : PyStr) :
    (register s uuid name).2 ≠ .bye := by
  unfold register
  split_ifs
  · exact answer_ne_bye (errDispatch 5)
  · split <;> simp

theorem unregister_ne_bye (s : Server K) (uuid name : PyStr) :
    (unregister s uuid name).2 ≠ .bye := by
  unfold unregister
  split
  · simp
  · simp only
    split_ifs
    · simp
    · simp
    · exact answer_ne_bye (errDispatch 5)

theorem putInbox_ne_bye (s : Server K) (uuid : PyStr) (value : Bytes) (draw : Uuid4) :
    (putInbox s uuid value draw).2 ≠ .bye := by
  unfold putInbox
  split
  · split
    · simp
    · split <;> simp
  · simp
  · simp

/-- `dispatch` leaves the loop at BYE. -/
theorem dispatch_bye {uuid : PyStr} {data : Bytes} (hd : (dispatch s uuid data draw).2 = .bye) :
    ∃ type_ value, data = type_ :: value ∧ command type_ = .bye ∧
      (dispatch s uuid data draw).1 = s := by
  cases data with
  | nil => cases hd
  | cons type_ value =>
    simp only [dispatch] at hd ⊢
    refine ⟨type_, value, rfl, ?_⟩
    rcases hc : command type_ with op | _ | _ | _ | _ | _ | _ | _ | _ | _ | _
    · rw [hc] at hd; cases hd
    · rw [hc] at hd; exact absurd hd (register_ne_bye _ _ _)
    · rw [hc] at hd; exact absurd hd (unregister_ne_bye _ _ _)
    · rw [hc] at hd; exact absurd hd (answer_ne_bye _)
    · exact ⟨rfl, rfl⟩
    · rw [hc] at hd
      simp only [whohas] at hd
      split at hd
      · exact absurd hd (answer_ne_bye _)
      · exact absurd hd (answer_ne_bye _)
    · rw [hc] at hd; exact absurd hd (putInbox_ne_bye _ _ _ _)
    · rw [hc] at hd
      rcases hu : s.clientDb.get? uuid with _ | r
      · rw [hu] at hd; cases hd
      · rw [hu] at hd; cases hd
    · rw [hc] at hd
      simp only [putOutbox] at hd
      split at hd
      · split at hd
        · cases hd
        · cases hd
      · cases hd
      · cases hd
    · rw [hc] at hd
      rcases hu : s.clientDb.get? uuid with _ | r
      · rw [hu] at hd; cases hd
      · rw [hu] at hd; cases hd
    · rw [hc] at hd; exact absurd hd (answer_ne_bye (errDispatch 4))

theorem Move.tidy {i : Input} {out : Outcome K (Accepting K)} (hm : Move L s c h i draw out) : out.2.1.Tidy := by
  cases hm with
  | still _ ht _ => exact ht.tidy
  | refuse _ _ _ _ hs => exact hs.tidy L (by simp)
  | payload _ _ _ _ _ hp =>
    cases hp with
    | reply _ hs => exact hs.tidy L (by simp)
    | wait hw =>
      obtain ⟨_, _, -, -, ⟨_, -, rfl⟩ | ⟨_, -, -, rfl⟩ | ⟨_, _, -, -, rfl⟩ | ⟨_, -, -, rfl⟩⟩ :=
        dispatch_wait hw
      · rintro held ⟨⟩
      · rintro held ⟨⟩
      · rintro held ⟨⟩
      · rintro held ⟨⟩
    | raise => trivial
    | bye => trivial
  | db _ _ _ hs => exact hs.tidy L (by simp)
  | inboxGet _ _ _ hs => exact hs.tidy L (by simp)
  | outboxPut _ _ _ hs => exact hs.tidy L (by simp)
  | outboxNone _ _ _ _ hs => exact hs.tidy L (by simp)
  | outboxGet _ _ _ _ hs => exact hs.tidy L (by simp)
  | sent => rintro held ⟨⟩
  | close => trivial
  | die => trivial

theorem Joins.tidy {a : Accepting K} {out : Outcome K (Accepting K)} (hj : Joins s c draw a out) :
    out.2.1.Tidy := by
  have hout : ∀ t : Task (Accepting K), t.Outside → t.Tidy := by
    intro t ht
    cases t with
    | handler h => exact ht.elim
    | _ => trivial
  cases hj with
  | still ht _ => exact hout _ ht
  | login ht _ _ =>
    rcases ht with rfl | ht
    · trivial
    · exact hout _ ht
  | attach _ ht _ _ =>
    rcases ht with rfl | ht
    · trivial
    · exact hout _ ht
  | unknown => rintro held ⟨⟩
  | finish => rintro held ⟨⟩

/-- **What a step of the server can be.** -/
inductive Sys.Step (S : Sys K) : Act → Sys K → List (Obs K) → Prop
  | connect {c : ConnId} : S.tasks c = .idle →
      S.Step (.connect c) (S.put c S.server (.accept (.publicKey []))) []
  | join {c : ConnId} {i : Input} {draw : Uuid4} {a : Accepting K} {s : Server K}
      {t : Task (Accepting K)} {o : List (Obs K)} : S.tasks c = .accept a →
      Joins S.server c draw a (s, t, o) → S.Step (.resume c i draw) (S.put c s t) o
  | move {c : ConnId} {i : Input} {draw : Uuid4} {h : Handler} {s : Server K}
      {t : Task (Accepting K)} {o : List (Obs K)} : S.tasks c = .handler h →
      Move L S.server c h i draw (s, t, o) → S.Step (.resume c i draw) (S.put c s t) o
  | admin {op : Admin} : S.Step (.admin op) ⟨(op.run S.server).1, S.tasks⟩ []

/-- Every step is one of them, and keeps the coroutines tidy. -/
theorem step_step {a : Act} (htidy : ∀ c, (S.tasks c).Tidy) (hstep : S.step L a = some (S', o)) :
    S.Step L a S' o ∧ ∀ c, (S'.tasks c).Tidy := by
  have hput : ∀ c s (t : Task (Accepting K)), t.Tidy → ∀ c', ((S.put c s t).tasks c').Tidy := by
    intro c s t ht c'
    by_cases hc : c' = c
    · subst hc; rw [put_tasks_self]; exact ht
    · rw [put_tasks_ne hc]; exact htidy c'
  rcases step_cases L hstep with ⟨c, rfl, hidle, rfl, rfl⟩ | ⟨c, i, draw, s, t, rfl, ht, rfl⟩ |
    ⟨op, rfl, rfl, rfl⟩
  · exact ⟨.connect hidle, hput _ _ _ trivial⟩
  · rcases htask : S.tasks c with _ | a | h | e
    · rw [htask] at ht; cases ht
    · rw [htask] at ht
      have hj := acceptStep_joins L ht
      exact ⟨.join htask hj, hput _ _ _ hj.tidy⟩
    · rw [htask] at ht
      have hframe := htidy c
      rw [htask] at hframe
      have hm := handlerStep_move L hframe ht
      exact ⟨.move htask hm, hput _ _ _ (hm.tidy L)⟩
    · rw [htask] at ht; cases ht
  · exact ⟨.admin, htidy⟩

end

end Pipebomb
