/-
  The server as one atomic office.

  The clients see the server as if it served one request at a time.

  * `Office.Serves` says for each command, without connections, packets and locks, what it
    does to the office and what it is answered.  `officeSpec` adds the login and the end
    of a session.
  * The history of a run has a call where a handler accepts a payload, and a return where
    its reply starts to be sent (`Sys.history`).
  * `service_linearizable`: the history is linearizable to the office, and the server ends
    in the state of the office.
-/
import Pipebomb.Mailbox
import Pipebomb.Answers
import Pipebomb.Persistence
import Pipebomb.Store

namespace Pipebomb

open ByteString Linear

variable {K : Type} (L : Libs K)

/-! ## The office at work -/

/-- What is asked of the office. -/
inductive Errand where
  | request (u : PyStr) (data : Bytes)
  | login (u : PyStr)
  | leave (u : PyStr)
  deriving DecidableEq, Repr

/-- The end of a session: it goes with one of its names, unless dead sessions are kept. -/
def Office.Ends (O : Office) (keep : Bool) (u : PyStr) : Option Effect → Prop
  | none => keep = true
  | some e => keep = false ∧ ∃ name, e = .leave u name ∧ (∀ n ∈ name, O.book n = some u) ∧
      (name = none → ∀ n, O.book n ≠ some u)

/-- The office of a server that just started. -/
def Office.empty : Office := ⟨fun _ => none, fun _ => none, fun _ => none⟩

/-- **What a payload does**, and the reply to it, if there is one. -/
def Office.Serves (O : Office) (keep : Bool) (u : PyStr) (data : Bytes) (e : Option Effect)
    (y : Option Bytes) : Prop :=
  match data with
  | [] => False
  | type_ :: value => match command type_ with
    | .db op => ∃ kv reply, kvOp op value = some kv ∧ kv.Answers O.db (.reply reply) ∧
        e = some (.kv kv) ∧ y = some reply
    | .register =>
      if O.book (latin1Decode value) = none then
        e = some (.register u (latin1Decode value)) ∧ y = some ACK
      else e = none ∧ y = some [0, 69, 82, 82, 5]
    | .unregister =>
      O.Owns u (latin1Decode value) ∧ e = some (.unregister u (latin1Decode value)) ∧ y = some ACK ∨
      ¬ O.Owns u (latin1Decode value) ∧ e = none ∧ y = some [0, 69, 82, 82, 5]
    | .whoami => e = none ∧ y = some (latin1 u)
    | .bye => O.Ends keep u e ∧ y = none
    | .whohas => e = none ∧ y = some (((O.book (latin1Decode value)).map latin1).getD [0, 69, 82, 82, 5])
    | .putInbox => ∃ target request key draw, splitBody 3 value = .ok [target, request, key] ∧
        O.boxes (latin1Decode target) ≠ none ∧
        e = some (.put (latin1Decode target) ⟨latin1 u, key, request, draw⟩) ∧ y = some draw
    | .getInbox => ∃ b q qs, O.boxes u = some b ∧ b.inbox = q :: qs ∧ e = some (.take u) ∧
        y = (inboxReply q).toOption
    | .putOutbox => ∃ target response key id, splitBody 4 value = .ok [target, response, key, id] ∧
        -- a response to a session that ended while the request waited is lost
        e = (if O.boxes (latin1Decode target) = none then none
          else some (.write (latin1Decode target) ⟨key, response, id⟩)) ∧ y = some ACK
    | .getOutbox => ∃ b, O.boxes u = some b ∧ e = some (.consume u value) ∧
        y = (collectReply (b.outbox value)).toOption
    | .unknown => e = none ∧ y = some [0, 69, 82, 82, 4]

/-- **The office**: an errand, its result and the office after it. -/
def officeSpec (keep : Bool) (O : Office) : Errand → Option Bytes → Office → Prop
  | .request u data, y, O' => ∃ e, O.Serves keep u data e y ∧ O' = O.applyAll e
  | .login u, y, O' => O.boxes u = none ∧ y = none ∧ O' = O.apply (.login u)
  | .leave u, y, O' => ∃ e, O.boxes u ≠ none ∧ O.Ends keep u e ∧ y = none ∧ O' = O.applyAll e

/-! ## The history -/

/-- The event in an observation of a handler of the session `u`. -/
def Obs.errand (u : PyStr) : Obs K → Option (Event ConnId Errand (Option Bytes))
  | .accepted (.server c) data => some (.call c (.request u data))
  | .answered c _ _ reply => some (.ret c (some reply))
  | _ => none

/-- The events in an observation of a handshake. -/
def Obs.entrance : Obs K → List (Event ConnId Errand (Option Bytes))
  | .session c u => [.call c (.login u), .ret c none]
  | _ => []

/-- The events in a step of a handler. -/
def Handler.errands (s : Server K) (c : ConnId) (h : Handler) (i : Input) (o : List (Obs K)) :
    List (Event ConnId Errand (Option Bytes)) :=
  match h.pc, i with
  | .sendall _ .close, .sent => if h.uuid ∈ s.clientDb then [.call c (.leave h.uuid)] else []
  | _, _ => o.filterMap (Obs.errand h.uuid)

/-- **The events in a step.** -/
def Sys.history (S : Sys K) (a : Act) (o : List (Obs K)) : List (Event ConnId Errand (Option Bytes)) :=
  match a with
  | .resume c i _ => match S.tasks c with
    | .handler h => h.errands S.server c i o
    | .accept _ => o.flatMap Obs.entrance
    | _ => []
  | _ => []

/-! ## What a command does -/

section
variable {s : Server K} {u : PyStr} {data : Bytes} {draw : Uuid4}

theorem teardownEffect_ends (s : Server K) (u : PyStr) :
    s.office.Ends s.keepDeadSessions u (teardownEffect s u) := by
  rcases hk : s.keepDeadSessions with _ | _
  · have he : teardownEffect s u =
        some (.leave u ((s.addressBook.items.find? fun p => p.2 = u).map Prod.fst)) := by
      simp [teardownEffect, hk]
    rw [he]
    refine ⟨rfl, _, rfl, teardownEffect_valid he, fun hnone n hn => ?_⟩
    have hfind := Option.map_eq_none_iff.1 hnone
    have hmem : (n, u) ∈ s.addressBook.items := Dict.get?_eq_some.1 hn
    simpa using List.find?_eq_none.1 hfind _ hmem
  · have he : teardownEffect s u = none := by simp [teardownEffect, hk]
    rw [he]
    rfl

theorem owns_names (s : Server K) (u name : PyStr) : s.office.Owns u name ↔ name ∈ s.names u :=
  owns_iff ⟨s, fun _ => .idle⟩

theorem answer_reply {x : Except PyErr Bytes} {y : Bytes} (h : answer x = .reply y) : x = .ok y := by
  cases x with
  | error e => cases h
  | ok y' => cases h; rfl

theorem register_serves {value y : Bytes} (hd : (register s u (latin1Decode value)).2 = .reply y) :
    if s.office.book (latin1Decode value) = none then
      (if latin1Decode value ∈ s.addressBook ∨ u ∉ s.clientDb then none
        else some (Effect.register u (latin1Decode value))) =
          some (.register u (latin1Decode value)) ∧ some y = some ACK
    else (if latin1Decode value ∈ s.addressBook ∨ u ∉ s.clientDb then none
        else some (Effect.register u (latin1Decode value))) = none ∧ some y = some [0, 69, 82, 82, 5] := by
  have hbook : s.office.book (latin1Decode value) = none ↔ latin1Decode value ∉ s.addressBook :=
    Dict.get?_eq_none
  unfold register at hd
  split_ifs at hd with hmem
  · cases hd
    rw [if_neg (mt hbook.1 (not_not.2 hmem)), if_pos (.inl hmem)]
    exact ⟨rfl, rfl⟩
  · rcases hu : s.clientDb.get? u with _ | r
    · simp only [hu] at hd
      cases hd
    · simp only [hu] at hd
      cases hd
      have hlive : u ∈ s.clientDb := Dict.mem_of_get? hu
      rw [if_pos (hbook.2 hmem), if_neg (by simp [hmem, hlive])]
      exact ⟨rfl, rfl⟩

theorem unregister_serves {value y : Bytes}
    (hd : (unregister s u (latin1Decode value)).2 = .reply y) :
    s.office.Owns u (latin1Decode value) ∧
        (if latin1Decode value ∈ s.names u then some (Effect.unregister u (latin1Decode value))
          else none) = some (.unregister u (latin1Decode value)) ∧ some y = some ACK ∨
      ¬ s.office.Owns u (latin1Decode value) ∧
        (if latin1Decode value ∈ s.names u then some (Effect.unregister u (latin1Decode value))
          else none) = none ∧ some y = some [0, 69, 82, 82, 5] := by
  unfold unregister at hd
  rcases hu : s.clientDb.get? u with _ | r
  · simp only [hu] at hd
    cases hd
  · have hnames : s.names u = (s.objs r).addressesOwned := by
      simp [Server.names, Server.client, hu]
    simp only [hu] at hd
    split_ifs at hd with hown hbook
    · cases hd
      rw [← hnames] at hown
      rw [owns_names, if_pos hown]
      exact .inl ⟨hown, rfl, rfl⟩
    · cases hd
      rw [← hnames] at hown
      rw [owns_names, if_neg hown]
      exact .inr ⟨hown, rfl, rfl⟩

theorem putInbox_serves {value y : Bytes} (hd : (putInbox s u value draw).2 = .reply y) :
    ∃ target request key draw', splitBody 3 value = .ok [target, request, key] ∧
      s.office.boxes (latin1Decode target) ≠ none ∧
      (if latin1Decode target ∈ s.clientDb then match latin1Encode u with
        | .ok sender => some (Effect.put (latin1Decode target) ⟨sender, key, request, draw.bytes⟩)
        | .error _ => none
      else none) = some (.put (latin1Decode target) ⟨latin1 u, key, request, draw'⟩) ∧
        some y = some draw' := by
  unfold putInbox at hd
  split at hd
  · rename_i target request key hbody
    rcases hu : s.clientDb.get? (latin1Decode target) with _ | r
    · simp only [hu] at hd
      cases hd
    · have hmem : latin1Decode target ∈ s.clientDb := Dict.mem_of_get? hu
      rcases hl : latin1Encode u with e | sender
      · simp only [hu, hl] at hd
        cases hd
      · simp only [hu, hl] at hd
        cases hd
        obtain ⟨-, rfl⟩ := latin1Encode_ok hl
        refine ⟨target, request, key, draw.bytes, hbody, boxes_ne_none.2 hmem, ?_, rfl⟩
        rw [if_pos hmem]
  · cases hd
  · cases hd

/-- **A command that is answered at once.** -/
theorem dispatch_serves (keep : Bool) {y : Bytes}
    (hd : (dispatch s u data draw).2 = .reply y) :
    s.office.Serves keep u data (payloadEffect s u data draw) (some y) := by
  cases data with
  | nil => cases hd
  | cons type_ value =>
    simp only [dispatch] at hd
    simp only [Office.Serves, payloadEffect]
    rcases hc : command type_ with op | _ | _ | _ | _ | _ | _ | _ | _ | _ | _
    · simp only [hc] at hd
      cases hd
    · simp only [hc] at hd ⊢
      exact register_serves hd
    · simp only [hc] at hd ⊢
      exact unregister_serves hd
    · simp only [hc] at hd ⊢
      obtain ⟨-, rfl⟩ := latin1Encode_ok (answer_reply hd)
      exact ⟨trivial, rfl⟩
    · simp only [hc] at hd
      cases hd
    · simp only [hc, whohas] at hd ⊢
      refine ⟨trivial, ?_⟩
      change _ = some (((s.addressBook.get? (latin1Decode value)).map latin1).getD _)
      rcases hg : s.addressBook.get? (latin1Decode value) with _ | u'
      · simp only [hg] at hd
        cases hd
        rfl
      · simp only [hg] at hd
        obtain ⟨-, rfl⟩ := latin1Encode_ok (answer_reply hd)
        rfl
    · simp only [hc] at hd ⊢
      obtain ⟨target, request, key, draw', hbody, hbox, he, hy⟩ := putInbox_serves hd
      refine ⟨target, request, key, draw', hbody, hbox, ?_, hy⟩
      rw [hbody]
      exact he
    · simp only [hc] at hd
      split at hd
      · cases hd
      · cases hd
    · simp only [hc, putOutbox] at hd
      split at hd
      · split at hd
        · cases hd
        · cases hd
      · cases hd
      · cases hd
    · simp only [hc] at hd
      split at hd
      · cases hd
      · cases hd
    · simp only [hc] at hd ⊢
      cases hd
      exact ⟨trivial, rfl⟩

/-- A command that raises did nothing. -/
theorem dispatch_raise_effect (hA : s.office.Agrees) {e : PyErr}
    (hd : (dispatch s u data draw).2 = .raise e) : payloadEffect s u data draw = none := by
  cases data with
  | nil => rfl
  | cons type_ value =>
    simp only [dispatch] at hd
    simp only [payloadEffect]
    rcases hc : command type_ with op | _ | _ | _ | _ | _ | _ | _ | _ | _ | _
    · rfl
    · simp only [hc, register] at hd ⊢
      split_ifs at hd with hmem
      · cases hd
      · rcases hu : s.clientDb.get? u with _ | r
        · rw [if_pos (.inr (Dict.get?_eq_none.1 hu))]
        · simp only [hu] at hd
          cases hd
    · simp only [hc, unregister] at hd ⊢
      rcases hu : s.clientDb.get? u with _ | r
      · have hnames : s.names u = [] := by simp [Server.names, Server.client, hu]
        rw [if_neg (by simp [hnames])]
      · simp only [hu] at hd
        split_ifs at hd with hmem hbook
        · -- a name of the session is in the address book
          have hown : latin1Decode value ∈ s.names u := by
            simpa [Server.names, Server.client, hu] using hmem
          have hget : s.addressBook.get? (latin1Decode value) = some u :=
            hA.book ((owns_names s u _).2 hown)
          exact absurd (Dict.mem_of_get? hget) hbook
        · cases hd
    · rfl
    · simp only [hc] at hd
      cases hd
    · rfl
    · simp only [hc, putInbox] at hd ⊢
      split
      · rename_i target request key hbody
        simp only [hbody] at hd
        split_ifs with hmem
        · obtain ⟨r, hu⟩ := Dict.mem_iff.1 hmem
          rcases hl : latin1Encode u with e | sender
          · rfl
          · simp only [hu, hl] at hd
            cases hd
        · rfl
      · rfl
    · rfl
    · rfl
    · rfl
    · rfl

end

/-! ## Objects of sessions -/

/-- An object whose uuid is one of a session is the one of the session. -/
def Server.Singular (s : Server K) : Prop :=
  ∀ r < s.fresh, (s.objs r).uuid ∈ s.clientDb → s.clientDb.get? (s.objs r).uuid = some r

section
variable {s : Server K} {c : ConnId} {h : Handler} {i : Input} {draw : Uuid4} {keep : Bool}

theorem Server.Singular.session (h : s.Singular) {r : Ref} (hr : r < s.fresh) {u : PyStr}
    (hu : (s.objs r).uuid = u) :
    u ∈ s.clientDb ∧ s.session r = some u ∧ s.office.boxes u = some (s.objs r).box ∨
      u ∉ s.clientDb ∧ s.session r = none ∧ s.office.boxes u = none := by
  subst hu
  by_cases hmem : (s.objs r).uuid ∈ s.clientDb
  · have hget := h r hr hmem
    exact .inl ⟨hmem, if_pos hget, by rw [office_boxes, Server.client, hget]; rfl⟩
  · have hget : s.clientDb.get? (s.objs r).uuid = none := Dict.get?_eq_none.2 hmem
    refine .inr ⟨hmem, ?_, by rw [office_boxes, Server.client, hget]; rfl⟩
    rw [Server.session, hget]
    rfl

/-- A request about the database has a reply. -/
theorem dbOp_replies {op : DbOp} {value : Bytes} {kv : KvOp} (s : Server K)
    (hkv : kvOp op value = some kv) : ∃ y, (op.run s value).2 = .ok y := by
  cases op with
  | set =>
    simp only [kvOp] at hkv
    split at hkv
    · rename_i hbody
      simp only [DbOp.run, hbody]
      exact ⟨ACK, rfl⟩
    · cases hkv
  | get =>
    simp only [DbOp.run, lookupReply]
    split
    · exact ⟨_, rfl⟩
    · exact ⟨_, rfl⟩
  | delete =>
    simp only [DbOp.run]
    split_ifs
    · exact ⟨_, rfl⟩
    · exact ⟨_, rfl⟩
  | list => exact ⟨_, latin1Encode_eq (jsonDumps_latin1 _)⟩

/-- **What a handler does that gets what it waited for**: it serves its payload, or the
    payload has no effect and no reply. -/
theorem queued_serves (keep : Bool) (draw : Uuid4) (hh : h.Wf s) (hone : s.Singular) (hq : h.pc.Queues)
    (data? : Option Bytes) {reply : Except PyErr Bytes} (hr : h.pc.reply s h.data = some reply) :
    s.office.Serves keep h.uuid h.data (h.effect s .go draw data?) reply.toOption ∨
      h.effect s .go draw data? = none ∧ (h.uuid ∈ s.clientDb → ∃ e, reply = .error e) := by
  rcases hpc : h.pc with _ | _ | _ | op | r | ⟨r, p⟩ | ⟨r, id⟩ | ⟨held, after⟩
  · rw [hpc] at hq; exact hq.elim
  · rw [hpc] at hq; exact hq.elim
  · rw [hpc] at hq; exact hq.elim
  · obtain ⟨type_, value, hdata, hc⟩ := hh.dbLock hpc
    simp only [hpc, hdata, List.tail_cons, Await.reply] at hr
    simp only [hpc, hdata, List.tail_cons, Handler.effect, Office.Serves, hc]
    split_ifs at hr
    cases hr
    rcases hkv : kvOp op value with _ | kv
    · refine .inr ⟨rfl, fun _ => ?_⟩
      rcases hres : (op.run (s.setDbLock true) value).2 with e | y
      · exact ⟨e, rfl⟩
      · exact absurd hres (dbOp_none y hkv).1
    · obtain ⟨y, hy⟩ := dbOp_replies (s.setDbLock true) hkv
      rw [hy]
      exact .inl ⟨kv, y, rfl, (dbOp_spec (s := s.setDbLock true) hkv hy).1, rfl, rfl⟩
  · obtain ⟨⟨type_, value, hdata, hc⟩, hlt, hid⟩ := hh.inboxGet hpc
    simp only [hpc, Await.reply] at hr
    obtain ⟨q, hq', rfl⟩ := Option.map_eq_some_iff.1 hr
    rw [hdata]
    simp only [hpc, Handler.effect, Office.Serves, hc]
    rcases hone.session hlt hid with ⟨-, hs, hbox⟩ | ⟨hgone, hs, -⟩
    · refine .inl ⟨_, q, (s.objs r).inbox.tail, hbox, ?_, by rw [hs]; rfl, rfl⟩
      exact (List.eq_cons_of_mem_head? hq')
    · exact .inr ⟨by rw [hs]; rfl, fun hu => absurd hu hgone⟩
  · obtain ⟨⟨type_, value, target, hdata, hc, hbody, hid⟩, hlt⟩ := hh.outboxPut hpc
    simp only [hpc, Await.reply] at hr
    split_ifs at hr
    cases hr
    rw [hdata]
    simp only [hpc, Handler.effect, Office.Serves, hc]
    refine .inl ⟨target, p.response, p.key, p.response_uuid, hbody, ?_, rfl⟩
    rcases hone.session hlt hid with ⟨-, hs, hbox⟩ | ⟨-, hs, hbox⟩
    · rw [hs, hbox, if_neg (Option.some_ne_none _)]
      rfl
    · rw [hs, if_pos hbox]
      rfl
  · obtain ⟨⟨type_, hdata, hc⟩, hlt, hid⟩ := hh.outboxGet hpc
    simp only [hpc, Await.reply] at hr
    split_ifs at hr
    rw [hdata]
    simp only [hpc, Handler.effect, Office.Serves, hc]
    rcases hone.session hlt hid with ⟨-, hs, hbox⟩ | ⟨hgone, hs, -⟩
    · refine .inl ⟨_, hbox, by rw [hs]; rfl, ?_⟩
      have hout : (s.objs r).box.outbox id = (s.objs r).outbox.get? id := rfl
      rw [hout]
      rcases hg : (s.objs r).outbox.get? id with _ | p
      · simp only [hg] at hr
        cases hr
        rfl
      · simp only [hg] at hr
        cases hr
        rfl
    · exact .inr ⟨by rw [hs]; rfl, fun hu => absurd hu hgone⟩
  · rw [hpc] at hq; exact hq.elim

end

/-! ## One step -/

/-- What the client of a coroutine is waiting for.  A coroutine that ended may have left a
    request without a return. -/
def Task.Busy : Task (Accepting K) → Status Errand (Option Bytes) → Prop
  | .handler h, st => (h.pc.Queues → st = .called (.request h.uuid h.data)) ∧ (¬ h.pc.Queues → st = .idle)
  | .over _, _ => True
  | _, st => st = .idle

section
variable {s s' : Server K} {c : ConnId} {h h' : Handler} {i : Input} {draw : Uuid4} {keep : Bool}
  {es new : List (Event ConnId Errand (Option Bytes))} {st : ConnId → Status Errand (Option Bytes)}
  {O₀ O : Office} {t : Task (Accepting K)} {out : Outcome K (Accepting K)} {os : List (Obs K)}

/-- The events `new` are those of `c`, which then does what its coroutine says. -/
def Attends (keep : Bool) (O₀ : Office) (es : List (Event ConnId Errand (Option Bytes)))
    (st : ConnId → Status Errand (Option Bytes)) (c : ConnId)
    (new : List (Event ConnId Errand (Option Bytes))) (O : Office) (t : Task (Accepting K)) : Prop :=
  ∃ st', Tracks (officeSpec keep) O₀ (es ++ new) st' O ∧ t.Busy (st' c) ∧ ∀ p, p ≠ c → st' p = st p

theorem Attends.none (hT : Tracks (officeSpec keep) O₀ es st O) (ht : t.Busy (st c)) :
    Attends keep O₀ es st c [] O t :=
  ⟨st, by rwa [List.append_nil], ht, fun _ _ => rfl⟩

/-- An errand that takes effect and is not answered. -/
theorem Attends.point {op : Errand} {y : Option Bytes} {O' : Office} {e : Option PyErr}
    (hT : Tracks (officeSpec keep) O₀ es st O) (hc : st c = .called op)
    (hspec : officeSpec keep O op y O') : Attends keep O₀ es st c [] O' (.over e : Task (Accepting K)) :=
  ⟨_, by rw [List.append_nil]; exact hT.point hc hspec, trivial, fun _ hp => Function.update_of_ne hp ..⟩

/-- An errand that takes effect and is answered. -/
theorem Attends.served {op : Errand} {y : Option Bytes} {O' : Office}
    (hT : Tracks (officeSpec keep) O₀ es st O) (hc : st c = .called op)
    (hspec : officeSpec keep O op y O') (hidle : t.Busy .idle) :
    Attends keep O₀ es st c [.ret c y] O' t := by
  have hret := (hT.point hc hspec).ret (p := c) (Function.update_self ..)
  refine ⟨_, hret, by rwa [Function.update_self], fun p hp => ?_⟩
  rw [Function.update_of_ne hp, Function.update_of_ne hp]

/-- An errand is called before. -/
theorem Attends.call {op : Errand}
    (ha : Attends keep O₀ (es ++ [.call c op]) (Function.update st c (.called op)) c new O t) :
    Attends keep O₀ es st c (.call c op :: new) O t := by
  obtain ⟨st', hT, hbusy, hother⟩ := ha
  refine ⟨st', by simpa using hT, hbusy, fun p hp => ?_⟩
  rw [hother p hp, Function.update_of_ne hp]

theorem Inner.errands (u : PyStr) (hin : Inner os) : os.filterMap (Obs.errand u) = [] := by
  rw [List.filterMap_eq_nil_iff]
  intro x hx
  have := hin x hx
  cases x <;> first | rfl | exact this.elim

/-- What is seen of sending a reply. -/
theorem Sends.errands {reply : Except PyErr Bytes} {held : Held} {after : After} (u : PyStr)
    (hs : Sends L s c h reply held after out) :
    ((∃ e, out.2.1 = .over (some e)) ∧ out.2.2.filterMap (Obs.errand u) = []) ∨
      ∃ y, reply = .ok y ∧ out.2.1 = .handler { h with pc := .sendall held after } ∧
        out.2.2.filterMap (Obs.errand u) = if after = .next then [.ret c (some y)] else [] := by
  cases hs with
  | fail _ hin => exact .inl ⟨⟨_, rfl⟩, hin.errands u⟩
  | start he hin =>
    refine .inr ⟨_, he, rfl, ?_⟩
    rw [List.filterMap_append, hin.errands u]
    split_ifs
    · rfl
    · rfl

/-- The reply to an errand is sent, or cannot be. -/
theorem Sends.attends {reply : Except PyErr Bytes} {held : Held} {op : Errand} {O' : Office}
    (u : PyStr) (hs : Sends L s c h reply held .next out)
    (hT : Tracks (officeSpec keep) O₀ es st O) (hc : st c = .called op)
    (hspec : officeSpec keep O op reply.toOption O') :
    Attends keep O₀ es st c (out.2.2.filterMap (Obs.errand u)) O' out.2.1 := by
  rcases hs.errands L u with ⟨⟨e, ht⟩, he⟩ | ⟨y, rfl, ht, he⟩
  · rw [he, ht]
    exact .point hT hc hspec
  · rw [he, ht, if_pos rfl]
    exact .served hT hc hspec ⟨fun hq => hq.elim, fun _ => rfl⟩

/-- **A payload is accepted.** -/
theorem Proceeds.attends {data : Bytes} {u : PyStr} (hA : s.office.Agrees) (hu : h.uuid = u)
    (hdata : h.data = data) (hp : Proceeds L c h (dispatch s u data draw) out)
    (hT : Tracks (officeSpec s.keepDeadSessions) O₀ es st s.office)
    (hc : st c = .called (.request u data)) :
    Attends s.keepDeadSessions O₀ es st c (out.2.2.filterMap (Obs.errand u))
      (s.office.applyAll (payloadEffect s u data draw)) out.2.1 := by
  cases hp with
  | reply hn hs =>
    refine hs.attends L u hT hc ⟨_, ?_, rfl⟩
    exact dispatch_serves s.keepDeadSessions hn
  | wait hn =>
    rw [dispatch_wait_effect hn]
    refine .none hT ⟨fun _ => ?_, fun hq => ?_⟩
    · rw [hc, hu, hdata]
    · obtain ⟨_, _, -, -, ⟨_, -, rfl⟩ | ⟨_, -, -, rfl⟩ | ⟨_, _, -, -, rfl⟩ | ⟨_, -, -, rfl⟩⟩ :=
        dispatch_wait hn
      · exact absurd trivial hq
      · exact absurd trivial hq
      · exact absurd trivial hq
      · exact absurd trivial hq
  | raise hn =>
    rw [dispatch_raise_effect hA hn]
    exact .none hT trivial
  | bye hn =>
    obtain ⟨type_, value, rfl, hcmd, -⟩ := dispatch_bye hn
    have he : payloadEffect s u (type_ :: value) draw = teardownEffect s u := by
      simp only [payloadEffect, hcmd]
    rw [he]
    refine .point (y := none) hT hc ⟨_, ?_, rfl⟩
    simp only [Office.Serves, hcmd]
    exact ⟨teardownEffect_ends s u, trivial⟩

theorem errands_reads (hr : h.pc.Reads) (o : List (Obs K)) :
    h.errands s c i o = o.filterMap (Obs.errand h.uuid) := by
  unfold Handler.errands
  split
  · rename_i held hpc
    rw [hpc] at hr
    cases held with
    | _ => exact hr.elim
  · rfl

theorem errands_queues (hq : h.pc.Queues) (o : List (Obs K)) :
    h.errands s c i o = o.filterMap (Obs.errand h.uuid) := by
  unfold Handler.errands
  split
  · rename_i hpc
    rw [hpc] at hq
    exact hq.elim
  · rfl

/-- A handler goes on that waited for a lock or an item. -/
theorem queued_attends (hw : s.WfRefs) (hone : s.Singular) (hh : h.Wf s)
    (htidy : (Task.handler h : Task (Accepting K)).Tidy) (hq : h.pc.Queues)
    (hstep : handlerStep L s c h i draw = some out) (hT : Tracks (officeSpec keep) O₀ es st s.office)
    (hc : st c = .called (.request h.uuid h.data)) :
    Attends keep O₀ es st c (h.errands s c i out.2.2) out.1.office out.2.1 := by
  have hoffice := (handlerStep_move L htidy hstep).office L hw
  rw [errands_queues hq]
  rcases handlerStep_queues L hq hstep with ⟨reply, rfl, hr, rfl⟩ | ⟨e, rfl, rfl⟩
  · have hs := sendReply_sends L (A := Accepting K) (s := h.pc.take s h.data) (c := c) (h := h) reply
      h.pc.lock .next
    rw [hoffice]
    rcases queued_serves keep draw hh hone hq
      (acceptedOn c (sendReply L (h.pc.take s h.data) c h reply h.pc.lock .next :
        Outcome K (Accepting K)).2.2) hr with hserve | ⟨he, hdead⟩
    · exact hs.attends L h.uuid hT hc ⟨_, hserve, rfl⟩
    · rw [he]
      have hno : ¬ Sendable L (h.pc.take s h.data) h.uuid reply := by
        intro hsend
        rcases reply with e | y
        · exact hsend
        · obtain ⟨cl, hcl, -⟩ := (sendable_ok L).1 hsend
          have hcl' : (h.pc.take s h.data).clientDb.get? h.uuid ≠ none := by
            intro hnone
            rw [Server.client, hnone] at hcl
            cases hcl
          rw [(take_quiet s h.data h.pc).clientDb] at hcl'
          obtain ⟨e, he⟩ := hdead (by
            by_contra hmem
            exact hcl' (Dict.get?_eq_none.2 hmem))
          cases he
      obtain ⟨e, os, hin, hout⟩ := sendReply_not_sendable L (A := Accepting K) (c := c) h.pc.lock .next hno
      rw [hout, hin.errands]
      exact .none hT trivial
  · exact .none hT trivial

/-- **A step of a handler.** -/
theorem handler_attends (hw : s.WfRefs) (hone : s.Singular) (hA : s.office.Agrees) (hh : h.Wf s)
    (htidy : (Task.handler h : Task (Accepting K)).Tidy)
    (hstep : handlerStep L s c h i draw = some out)
    (hT : Tracks (officeSpec s.keepDeadSessions) O₀ es st s.office)
    (hbusy : (Task.handler h : Task (Accepting K)).Busy (st c)) :
    Attends s.keepDeadSessions O₀ es st c (h.errands s c i out.2.2) out.1.office out.2.1 := by
  by_cases hq : h.pc.Queues
  · exact queued_attends L hw hone hh htidy hq hstep hT (hbusy.1 hq)
  have hidle := hbusy.2 hq
  have hm := handlerStep_move L htidy hstep
  have hoffice := hm.office L hw
  have hreceived : ∀ cl : Client K, cl.received.box = cl.box := fun _ => rfl
  cases hm with
  | still hr ht hin =>
    rename_i t os
    rw [errands_reads hr, hin.errands]
    refine .none hT ?_
    cases t with
    | handler h' =>
      refine ⟨fun hq' => ?_, fun _ => hidle⟩
      obtain ⟨-, hpc | hpc | hpc⟩ := ht
      · rw [hpc] at hq'; exact hq'.elim
      · rw [hpc] at hq'; exact hq'.elim
      · rw [hpc] at hq'; exact hq'.elim
    | «over» e => trivial
    | idle => exact ht.elim
    | accept a => exact ht.elim
  | refuse hr hu hid hin hs =>
    rw [errands_reads hr, seen_obs, List.filterMap_append, hin.errands, List.nil_append, seen_task,
      seen_server, hs.office, office_modify_link hreceived]
    rcases hs.errands L h.uuid with ⟨⟨e, ht⟩, he⟩ | ⟨y, -, ht, he⟩
    · rw [he, ht]
      exact .none hT trivial
    · rw [he, ht]
      exact .none hT ⟨fun hq' => hq'.elim, fun _ => hidle⟩
  | payload hr hu hid hv hin hp =>
    rename_i r h' frame rem os out
    have hmap : (os ++ [Obs.accepted (.server c) h'.data]).filterMap (Obs.errand h.uuid) =
        [.call c (.request h.uuid h'.data)] := by
      rw [List.filterMap_append, hin.errands]
      rfl
    have hlink : (s.modify r Client.received).office = s.office := office_modify_link hreceived
    have hw' : (s.modify r Client.received).WfRefs := hw.modify fun _ => rfl
    rw [errands_reads hr, seen_obs, List.filterMap_append, hmap, seen_task, seen_server]
    have hout := hp
    rw [← hid] at hp
    rw [hp.office L hw', hid]
    refine .call ?_
    have hcalled : Tracks (officeSpec s.keepDeadSessions) O₀ (es ++ [.call c (.request h.uuid h'.data)])
        (Function.update st c (.called (.request h.uuid h'.data))) s.office := hT.call hidle
    rw [← hlink] at hcalled hA
    exact hout.attends L hA hid rfl hcalled (Function.update_self ..)
  | db hpc => rw [hpc] at hq; exact absurd trivial hq
  | inboxGet hpc => rw [hpc] at hq; exact absurd trivial hq
  | outboxPut hpc => rw [hpc] at hq; exact absurd trivial hq
  | outboxNone hpc => rw [hpc] at hq; exact absurd trivial hq
  | outboxGet hpc => rw [hpc] at hq; exact absurd trivial hq
  | sent hpc hi hu =>
    have hnone : h.effect s i draw (acceptedOn c ([] : List (Obs K))) = none := by
      simp only [Handler.effect, hpc, hi]
      rfl
    have herr : h.errands s c i ([] : List (Obs K)) = [] := by
      simp only [Handler.errands, hpc, hi]
      rfl
    rw [hoffice, hnone, herr]
    exact .none hT ⟨fun hq' => hq'.elim, fun _ => hidle⟩
  | close hpc hi hu =>
    have hmem : h.uuid ∈ s.clientDb := Dict.mem_of_get? hu
    have heff : h.effect s i draw (acceptedOn c ([] : List (Obs K))) = teardownEffect s h.uuid := by
      simp only [Handler.effect, hpc, hi, if_pos hmem]
    have herr : h.errands s c i ([] : List (Obs K)) = [.call c (.leave h.uuid)] := by
      simp only [Handler.errands, hpc, hi, if_pos hmem]
    rw [hoffice, heff, herr]
    refine .call (.point (y := none) (hT.call hidle) (Function.update_self ..) ?_)
    exact ⟨_, boxes_ne_none.2 hmem, teardownEffect_ends s h.uuid, rfl, rfl⟩
  | die hi hu =>
    have herr : h.errands s c i ([] : List (Obs K)) = [] := by
      unfold Handler.errands
      split
      · rw [if_neg (hu rfl)]
      · rfl
    rw [herr, office_release]
    exact .none hT trivial

theorem Shut.entrance (h : Shut os) : os.flatMap Obs.entrance = [] := by
  rw [List.flatMap_eq_nil_iff]
  intro x hx
  have := h x hx
  cases x <;> first | rfl | exact this.elim

theorem Task.Outside.busy (ht : t.Outside) : t.Busy .idle := by
  cases t with
  | idle => exact ht.elim
  | accept a => rfl
  | handler h => exact ht.elim
  | «over» e => trivial

/-- **A step of a handshake.** -/
theorem Joins.attends {a : Accepting K} (hw : s.WfRefs) (hj : Joins s c draw a out)
    (hfresh : ∀ c' u, .session c' u ∈ out.2.2 → u ∉ s.clientDb)
    (hT : Tracks (officeSpec keep) O₀ es st s.office) (hidle : st c = .idle) :
    Attends keep O₀ es st c (out.2.2.flatMap Obs.entrance) out.1.office out.2.1 := by
  have hoffice := hj.office hw
  -- a login is called, takes effect and returns
  have hlogin : ∀ (u : PyStr) (t : Task (Accepting K)), u ∉ s.clientDb → t.Busy .idle →
      Attends keep O₀ es st c [.call c (.login u), .ret c none] (s.office.apply (.login u)) t := by
    intro u t hu ht
    refine .call (.served (hT.call hidle) (Function.update_self ..) ⟨?_, rfl, rfl⟩ ht)
    by_contra hne
    exact hu (boxes_ne_none.1 hne)
  have hstays : ∀ t : Task (Accepting K), t.Busy .idle → Attends keep O₀ es st c [] s.office t :=
    fun t ht => .none hT (by rwa [hidle])
  cases hj with
  | still ht hin =>
    rw [hin.entrance]
    exact hstays _ ht.busy
  | login ht hin hin' =>
    rename_i l t os os'
    have hlogged : loggedIn (os ++ Obs.session c draw.str :: os') = some draw.str := by
      rw [loggedIn_append, hin.loggedIn]
      rfl
    have hevents : (os ++ Obs.session c draw.str :: os').flatMap Obs.entrance =
        [.call c (.login draw.str), .ret c none] := by
      rw [List.flatMap_append, hin.entrance, List.flatMap_cons, hin'.entrance]
      rfl
    rw [hoffice, hlogged, hevents]
    refine hlogin _ _ (hfresh c _ (by simp)) ?_
    rcases ht with rfl | ht
    · rfl
    · exact ht.busy
  | attach hu ht hin hin' =>
    rename_i u r l t os os'
    have hevents : (os ++ Obs.relogin c u :: os').flatMap Obs.entrance = [] := by
      rw [List.flatMap_append, hin.entrance, List.flatMap_cons, hin'.entrance]
      rfl
    rw [hevents, office_modify_link (f := Client.attach c l.cipher) fun _ => rfl]
    refine hstays _ ?_
    rcases ht with rfl | ht
    · rfl
    · exact ht.busy
  | unknown =>
    rw [hoffice]
    exact hlogin _ _ (hfresh c _ (by simp)) ⟨fun hq => hq.elim, fun _ => rfl⟩
  | finish =>
    rename_i l u r
    rw [office_modify_link (f := Client.setNonces (l.txNonce + 1) l.rxNonce) fun _ => rfl]
    exact hstays _ ⟨fun hq => hq.elim, fun _ => rfl⟩

end

/-! ## Runs -/

/-- Logins and requests only; `uuid4()` gives a uuid that no session ever had. -/
def Sys.Unrepeated (S : Sys K) (a : Act) (o : List (Obs K)) : Prop :=
  S.Ordinary a o ∧ ∀ c u, .session c u ∈ o → ∀ r < S.server.fresh, (S.server.objs r).uuid ≠ u

section
variable {S S' : Sys K} {a : Act} {o : List (Obs K)} {c : ConnId} {h : Handler} {i : Input}
  {draw : Uuid4} {s : Server K} {out : Outcome K (Accepting K)} {keep : Bool} {O₀ : Office}
  {es : List (Event ConnId Errand (Option Bytes))} {st : ConnId → Status Errand (Option Bytes)}

theorem SameSessions.singular {s' : Server K} (hs : SameSessions s s') (h : s.Singular) : s'.Singular := by
  intro r hr hmem
  rw [hs.fresh] at hr
  rw [hs.clientDb, hs.uuid] at hmem ⊢
  exact h r hr hmem

theorem teardown_singular (u : PyStr) (h : s.Singular) : (teardown s u).Singular := by
  unfold teardown
  split_ifs
  · exact h
  · intro r hr hmem
    obtain ⟨hne, hmem⟩ := Dict.mem_erase.1 hmem
    exact (Dict.get?_erase_ne s.clientDb hne).trans (h r hr hmem)

/-- A handler makes no session. -/
theorem Move.singular (hm : Move L s c h i draw out) (h1 : s.Singular) : out.1.Singular := by
  have hreceived : ∀ r, SameSessions s (s.modify r Client.received) := fun r =>
    .modify s r fun _ => rfl
  cases hm with
  | still => exact h1
  | refuse _ _ _ _ hs => exact ((hreceived _).trans (hs.sameSessions L)).singular h1
  | @payload r h' _ _ _ _ _ _ _ _ _ hp =>
    have hd := (hreceived r).trans (dispatch_quiet _ h.uuid h'.data draw).sameSessions
    cases hp with
    | reply _ hs => exact (hd.trans (hs.sameSessions L)).singular h1
    | wait => exact hd.singular h1
    | raise => exact hd.singular h1
    | bye => exact teardown_singular _ (hd.singular h1)
  | db _ _ _ hs =>
    have hlock : Quiet s (s.setDbLock true) := ⟨rfl, rfl, fun _ => .refl _⟩
    exact ((hlock.trans (dbOp_quiet _ _ _)).sameSessions.trans (hs.sameSessions L)).singular h1
  | inboxGet _ _ _ hs =>
    exact ((Quiet.modify s _ _ (.setInbox _)).sameSessions.trans (hs.sameSessions L)).singular h1
  | outboxPut _ _ _ hs =>
    exact ((Quiet.modify s _ _ (.setOutbox _)).sameSessions.trans (hs.sameSessions L)).singular h1
  | outboxNone _ _ _ _ hs =>
    exact ((Quiet.modify s _ _ (.setOutboxLock _)).sameSessions.trans (hs.sameSessions L)).singular h1
  | outboxGet _ _ _ _ hs =>
    exact (((Quiet.modify s _ _ (.setOutboxLock _)).trans
      (.modify _ _ _ (.setOutbox _))).sameSessions.trans (hs.sameSessions L)).singular h1
  | @sent _ r =>
    have hsent : SameSessions s (s.modify r Client.sent) := .modify s r fun _ => rfl
    exact (hsent.trans (release_quiet _ _).sameSessions).singular h1
  | @close _ r =>
    have hsent : SameSessions s (s.modify r Client.sent) := .modify s r fun _ => rfl
    exact teardown_singular _ ((hsent.trans (release_quiet _ _).sameSessions).singular h1)
  | die => exact (release_quiet _ _).sameSessions.singular h1

/-- A new session has an object of its own. -/
theorem Server.Singular.addSession (h1 : s.Singular) {u : PyStr} (cl : Client K) (hcl : cl.uuid = u)
    (hu : ∀ r < s.fresh, (s.objs r).uuid ≠ u) : (s.addSession u cl).Singular := by
  intro r hr hmem
  rcases Nat.lt_succ_iff_lt_or_eq.1 hr with hr | rfl
  · rw [Server.addSession_objs hr, Server.addSession_clientDb] at hmem
    rw [Server.addSession_objs hr, Server.addSession_clientDb, Dict.get?_set_ne _ (hu r hr)]
    exact h1 r hr ((Dict.mem_set.1 hmem).resolve_left (hu r hr))
  · rw [Server.addSession_objs_fresh, hcl, Server.addSession_clientDb, Dict.get?_set_self]

theorem Joins.singular {a : Accepting K} (hj : Joins s c draw a out) (h1 : s.Singular)
    (hu : ∀ c' u, .session c' u ∈ out.2.2 → ∀ r < s.fresh, (s.objs r).uuid ≠ u) : out.1.Singular := by
  cases hj with
  | still => exact h1
  | login => exact h1.addSession _ rfl (hu c _ (by simp))
  | @attach _ _ r l =>
    exact (SameSessions.modify s r (f := Client.attach c l.cipher) fun _ => rfl).singular h1
  | @unknown l =>
    refine (SameSessions.modify _ _ (f := Client.setNonces (l.txNonce + 1) l.rxNonce)
      fun _ => rfl).singular ?_
    exact h1.addSession _ rfl (hu c _ (by simp))
  | @finish l _ r =>
    exact (SameSessions.modify s r (f := Client.setNonces (l.txNonce + 1) l.rxNonce)
      fun _ => rfl).singular h1

/-- The history of the run so far has a point for each errand, the first in the office `O₀`, and
    the clients are where the coroutines are. -/
structure Sys.Attended (S : Sys K) (keep : Bool) (O₀ : Office)
    (es : List (Event ConnId Errand (Option Bytes))) (st : ConnId → Status Errand (Option Bytes)) :
    Prop where
  named : S.Named
  one : S.server.Singular
  kept : S.server.keepDeadSessions = keep
  tracks : Tracks (officeSpec keep) O₀ es st S.server.office
  conns : ∀ c, (S.tasks c).Busy (st c)

/-- **One step.** -/
theorem step_attended (hS : S.Attended keep O₀ es st) (hstep : S.step L a = some (S', o))
    (hok : S.Unrepeated a o) : ∃ st', S'.Attended keep O₀ (es ++ S.history a o) st' := by
  have hsound := hS.named.sound
  have hnamed := step_named L hS.named hstep hok.1
  have hkept := (step_keepDeadSessions L hsound hstep).trans hS.kept
  -- the other coroutines are where they were
  have hput : ∀ {c : ConnId} {s : Server K} {t : Task (Accepting K)}
      {new : List (Event ConnId Errand (Option Bytes))}, S' = S.put c s t → s.Singular →
      Attends keep O₀ es st c new s.office t → ∃ st', S'.Attended keep O₀ (es ++ new) st' := by
    rintro c s t new rfl hone ⟨st', hT, hbusy, hother⟩
    refine ⟨st', hnamed, hone, hkept, hT, fun c' => ?_⟩
    by_cases hc : c' = c
    · subst hc
      rw [put_tasks_self]
      exact hbusy
    · rw [put_tasks_ne hc, hother c' hc]
      exact hS.conns c'
  rcases step_cases L hstep with ⟨c, rfl, hidle, rfl, hS'⟩ | ⟨c, i, draw, s, t, rfl, ht, hS'⟩ |
    ⟨op, rfl, -, -⟩
  · refine hput hS' hS.one (.none hS.tracks ?_)
    have hbusy := hS.conns c
    rwa [hidle] at hbusy
  · have hbusy := hS.conns c
    rcases htask : S.tasks c with _ | a | h | e
    · rw [htask] at ht; cases ht
    · rw [htask] at ht hbusy
      have hj := acceptStep_joins L ht
      have hhist : S.history (.resume c i draw) o = o.flatMap Obs.entrance := by
        simp only [Sys.history, htask]
      rw [hhist]
      exact hput hS' (hj.singular hS.one hok.2)
        (hj.attends hsound.refs (fun c' u hu => (hok.1.2 c' u hu).1.1) hS.tracks hbusy)
    · rw [htask] at ht hbusy
      have htidy := hsound.tidy c
      rw [htask] at htidy
      have hhist : S.history (.resume c i draw) o = h.errands S.server c i o := by
        simp only [Sys.history, htask]
      have hT := hS.tracks
      rw [hhist, ← hS.kept] at *
      exact hput hS' ((handlerStep_move L htidy ht).singular L hS.one)
        (handler_attends L hsound.refs hS.one hS.named.agrees (hsound.handlers c h htask) htidy ht hT hbusy)
    · rw [htask] at ht; cases ht
  · exact hok.1.1.elim

theorem attended_init (password : Bytes) (keep : Bool) :
    (Sys.init password keep : Sys K).Attended keep .empty [] fun _ => .idle := by
  refine ⟨named_init _ _, fun r hr => absurd hr (Nat.not_lt_zero r), rfl, ?_, fun _ => rfl⟩
  exact .nil

/-- **The server is linearizable**: in every run of logins and requests there is an order of
    the errands, consistent with their calls and returns, in which an office that serves one
    at a time gives the same replies, and ends as the server. -/
theorem service_linearizable {password : Bytes} {keep : Bool}
    {xs : List (Lts.Shown (Sys K) Act (Obs K))}
    (hrun : Lts.Run (Lts.Guarded (Lts.shown (Sys.step L)) (Lts.Showing Sys.Unrepeated))
      (.init password keep) S xs) :
    ∃ l, Linearizes (officeSpec keep) .empty S.server.office
      (numbered (xs.flatMap fun x => x.before.history x.act x.obs)) l := by
  obtain ⟨st, hS⟩ := hrun.inv
    (I := fun S xs => ∃ st, S.Attended keep .empty (xs.flatMap fun x => x.before.history x.act x.obs) st)
    ⟨_, attended_init password keep⟩ fun _ ⟨st, hS⟩ ⟨_, hshown, hok⟩ => by
      obtain ⟨o, hstep, rfl⟩ := Lts.shown_step hshown
      rw [List.flatMap_append, List.flatMap_singleton]
      exact step_attended L hS hstep (hok _ (List.mem_singleton_self _))
  exact hS.tracks.linearizes

end

/-! ## A run on fixed inputs -/

/-- `Unrepeated` for actions on connections below `n`. -/
def Sys.UnrepeatedBelow (n : ℕ) (S : Sys K) (a : Act) (o : List (Obs K)) : Prop :=
  S.OrdinaryBelow n a o ∧
    ∀ x ∈ o, ∀ u ∈ loginUuid false x, ∀ r < S.server.fresh, (S.server.objs r).uuid ≠ u

instance Sys.decidableUnrepeatedBelow (n : ℕ) (S : Sys K) (a : Act) (o : List (Obs K)) :
    Decidable (S.UnrepeatedBelow n a o) :=
  inferInstanceAs (Decidable (_ ∧ _))

theorem Sys.UnrepeatedBelow.unrepeated {n : ℕ} {S : Sys K} {a : Act} {o : List (Obs K)}
    (hS : S.Below n) (h : S.UnrepeatedBelow n a o) : S.Unrepeated a o :=
  ⟨h.1.ordinary hS, fun _ u hm => h.2 _ hm u rfl⟩

/-- Connections 0 and 1 log in; 0 registers `k`, and 1 asks who has it. -/
def errandActs : List Act := twoLogins ++ [registerAct] ++
  drawing sampleDraw 1 [.recv (stubPacket 1 2 [0x1, 107])]

/-- The errands of two clients. -/
theorem service_linearizable_sample : ∃ (S : Sys ℕ) (es : List (Event ConnId Errand (Option Bytes)))
    (l : List ((ConnId × ℕ) × Errand × Option Bytes)),
    Linearizes (officeSpec false) .empty S.server.office (numbered es) l ∧
      es = [.call 0 (.login sampleUuid), .ret 0 none, .call 1 (.login otherUuid), .ret 1 none,
        .call 0 (.request sampleUuid [0x85, 107]), .ret 0 (some ACK),
        .call 1 (.request otherUuid [0x1, 107]), .ret 1 (some (latin1 sampleUuid))] := by
  have hexec : ((Lts.exec (Lts.shown (Sys.step stub)) errandActs (.init [] false)).any fun x =>
      x.2.flatMap (fun y => y.before.history y.act y.obs) =
        [.call 0 (.login sampleUuid), .ret 0 none, .call 1 (.login otherUuid), .ret 1 none,
          .call 0 (.request sampleUuid [0x85, 107]), .ret 0 (some ACK),
          .call 1 (.request otherUuid [0x1, 107]), .ret 1 (some (latin1 sampleUuid))]) = true := by
    decide +kernel
  have halong : Lts.Along (Lts.shown (Sys.step stub)) (Lts.Showing (Sys.UnrepeatedBelow 2)) errandActs
      (.init [] false) := by decide +kernel
  obtain ⟨⟨S, xs⟩, hS, hp⟩ := Option.any_eq_true _ _ |>.1 hexec
  -- only the connections 0 and 1 are used, so the new uuid is fresh
  have hrun := Lts.exec_run hS (halong.imp (I := Sys.Below 2) (fun hS h hshown => by
    obtain ⟨o, hstep, rfl⟩ := Lts.shown_step hshown
    exact step_below stub hS (h _ (List.mem_singleton_self _)).1.2.1.1 hstep)
    (fun hS h x hx => (h x hx).unrepeated hS) fun _ _ => rfl)
  obtain ⟨l, hl⟩ := service_linearizable stub hrun
  exact ⟨S, _, l, hl, of_decide_eq_true hp⟩

end Pipebomb
