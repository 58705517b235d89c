/-
  Errors and data in one reply.

  An error of the server is the payload of a packet like any other.  `recv_loop` looks for
  packets that start with `ERR`, and the errors of the server have a zero byte in front, so
  every method gets them as its reply.

  * `Exchange`: a call of a method that was answered in a reachable state.
  * `Exchange.Succeeds`: the server found what it was asked for.
  * `error_distinguishable_iff`: an error is told from what a method returns after a success,
    unless a value of the database is the error itself.
-/
import Pipebomb.MailPath

namespace Pipebomb

open ByteString

variable {K : Type} (L : Libs K)

/-- A call that is answered in a step from a reachable state. -/
structure Exchange (call : Call) where
  password : Bytes
  keep : Bool
  before : Sys K
  seen : List (Obs K)
  conn : ConnId
  handler : Handler
  input : Input
  draw : Uuid4
  after : Sys K
  obs : List (Obs K)
  data : Bytes
  reply : Bytes
  reaches : Reaches L (.init password keep) before seen
  task : before.tasks conn = .handler handler
  step : before.step L (.resume conn input draw) = some (after, obs)
  draws : draw.Valid
  payload : call.payload = .ok data
  answered : .answered conn handler.uuid data reply ∈ obs

/-- What was asked for is there. -/
def Exchange.Succeeds {call : Call} (x : Exchange L call) : Prop :=
  match call with
  | .get key => key ∈ x.before.server.db
  | .find key => latin1Decode key ∈ x.before.server.addressBook
  | .readOutbox id => ∃ r, x.handler.pc = .outboxGet r id ∧ id ∈ (x.before.server.objs r).outbox
  | _ => True

/-- What the method returns or raises. -/
def Exchange.outcome {call : Call} (x : Exchange L call) : Option (Except PyErr Value) :=
  call.outcome x.reply

/-- Two calls of one method that fetches something. -/
def Call.Alike : Call → Call → Prop
  | .get _, .get _ | .find _, .find _ | .request _ _ _, .request _ _ _ => True
  | .readInbox, .readInbox | .readOutbox _, .readOutbox _ => True
  | _, _ => False

/-- The call raises, or returns something else. -/
def Distinguishable (failed succeeded : Option (Except PyErr Value)) : Prop :=
  failed = none ∨ (∃ e, failed = some (.error e)) ∨ failed ≠ succeeded

namespace Exchange

variable {L} {call : Call} {type_ : UInt8} {value : Bytes}

theorem uuids (x : Exchange L call) : x.before.Uuids := run_uuids L (uuids_init _ _) x.reaches

/-- Where the reply comes from. -/
theorem source (x : Exchange L call) (hd : x.data = type_ :: value) :
    (∃ r, (dispatch (x.before.server.modify r Client.received) x.handler.uuid (type_ :: value)
        x.draw).2 = .reply x.reply) ∨
      x.handler.pc.reply x.before.server (type_ :: value) = some (.ok x.reply) ∧
        ((∃ op, command type_ = .db op ∧ x.handler.pc = .dbLock op) ∨
        (∃ r, command type_ = .getInbox ∧ x.handler.pc = .inboxGet r) ∨
        (∃ r p, command type_ = .putOutbox ∧ x.handler.pc = .outboxPut r p) ∨
        ∃ r, command type_ = .getOutbox ∧ x.handler.pc = .outboxGet r value) := by
  have hS := x.uuids.sound
  obtain ⟨s, t, ho, -⟩ := step_handler L x.task x.step
  have hframe := hS.tidy x.conn
  rw [x.task] at hframe
  obtain ⟨-, -, ⟨-, r, -, hr⟩ | ⟨hq, -, hdata, hr⟩⟩ :=
    (handlerStep_move L hframe ho).answered L x.answered
  · rw [hd] at hr
    exact .inl ⟨r, hr⟩
  · obtain ⟨_, _, he, hwaits⟩ := (hS.handlers _ _ x.task).waits hq
    rw [← hdata, hd] at hr he
    cases he
    exact .inr ⟨hr, hwaits⟩

variable {reply : Bytes}

/-- The reply to `get`. -/
theorem get_reply {key : Bytes} (x : Exchange L (.get key)) :
    lookupReply x.before.server.db key = .ok x.reply := by
  have hcmd : command 0x82 = .db .get := by decide
  have hdata : x.data = 0x82 :: key := (Except.ok.inj x.payload).symm
  obtain ⟨r, hr⟩ | ⟨hr, hwaits⟩ := x.source hdata
  · simp only [dispatch, hcmd] at hr
    cases hr
  · rw [hcmd] at hwaits
    obtain ⟨op, hop, hpc⟩ | ⟨_, hc, -⟩ | ⟨_, _, hc, -⟩ | ⟨_, hc, -⟩ := hwaits
    · cases hop
      rw [hpc, Await.reply] at hr
      split_ifs at hr
      exact Option.some.inj hr
    · cases hc
    · cases hc
    · cases hc

/-- The reply to `find` is the uuid in the address book. -/
theorem find_reply {key : Bytes} (x : Exchange L (.find key)) (hx : x.Succeeds) :
    x.reply.length = 36 := by
  have hcmd : command 0x1 = .whohas := by decide
  have hdata : x.data = 0x1 :: key := (Except.ok.inj x.payload).symm
  obtain ⟨r, hr⟩ | ⟨-, hwaits⟩ := x.source hdata
  · obtain ⟨u, hu⟩ := Dict.mem_iff.1 (show latin1Decode key ∈ x.before.server.addressBook from hx)
    have hget : (x.before.server.modify r Client.received).addressBook.get? (latin1Decode key) =
      some u := hu
    simp only [dispatch, hcmd, whohas, hget] at hr
    have hlen := x.uuids.book _ _ hu
    simp only [answer] at hr
    split at hr
    · rename_i bs hbs
      cases hr
      obtain ⟨-, he⟩ := latin1Encode_ok hbs
      rw [he, latin1, List.length_map]
      exact hlen
    · cases hr
  · rw [hcmd] at hwaits
    obtain ⟨_, hc, -⟩ | ⟨_, hc, -⟩ | ⟨_, _, hc, -⟩ | ⟨_, hc, -⟩ := hwaits <;> cases hc

/-- The reply to `request` is the id that was drawn. -/
theorem request_reply {uuid req key : Bytes} (x : Exchange L (.request uuid req key)) :
    x.reply.length = 16 := by
  have hcmd : command 0x2 = .putInbox := by decide
  obtain ⟨-, hdata⟩ := withLengths_ok.1 x.payload
  obtain ⟨r, hr⟩ | ⟨-, hwaits⟩ := x.source hdata
  · simp only [dispatch, hcmd, putInbox] at hr
    split at hr
    · split at hr
      · cases hr
      · split at hr
        · cases hr
        · rw [← (Next.reply.inj hr)]
          exact x.draws.bytes
    · cases hr
    · cases hr
  · rw [hcmd] at hwaits
    obtain ⟨_, hc, -⟩ | ⟨_, hc, -⟩ | ⟨_, _, hc, -⟩ | ⟨_, hc, -⟩ := hwaits <;> cases hc

end Exchange

/-! ## The errors of the server -/

section
variable {n : ℕ} {E : Bytes} {call call' : Call} {outcome : Option (Except PyErr Value)}

theorem errDispatch_ok (hE : errDispatch n = .ok E) : ∃ b, E = [0, 69, 82, 82, b] := by
  unfold errDispatch at hE
  split_ifs at hE
  cases hE
  exact ⟨_, rfl⟩

/-- `recv_loop` does not tell an error of the server from other packets. -/
theorem outcome_error (hE : errDispatch n = .ok E) : call.outcome E = some (call.result E) := by
  obtain ⟨b, rfl⟩ := errDispatch_ok hE
  rw [Call.outcome, if_neg]
  rintro ⟨⟨rest, hrest⟩, -⟩
  cases hrest

theorem readInbox_error (hE : errDispatch n = .ok E) : ∃ e, Call.readInbox.result E = .error e := by
  obtain ⟨b, rfl⟩ := errDispatch_ok hE
  exact ⟨.structError, rfl⟩

theorem readOutbox_error (id : Bytes) (hE : errDispatch n = .ok E) :
    ∃ e, (Call.readOutbox id).result E = .error e := by
  obtain ⟨b, rfl⟩ := errDispatch_ok hE
  exact ⟨_, rfl⟩

/-- A method that returns what it receives gives an error back as data. -/
theorem distinguishable_bytes (hcall : ∀ reply, call.result reply = .ok (.bytes reply))
    (hcall' : ∀ reply, call'.result reply = .ok (.bytes reply)) (hE : errDispatch n = .ok E)
    {reply : Bytes} : Distinguishable (call.outcome E) (call'.outcome reply) ↔ reply ≠ E := by
  rw [outcome_error hE, hcall]
  constructor
  · rintro (h | ⟨e, h⟩ | h) rfl
    · cases h
    · cases h
    · rw [outcome_error hE, hcall'] at h
      exact h rfl
  · intro hne
    refine .inr (.inr fun h => ?_)
    rw [Call.outcome] at h
    split_ifs at h
    rw [hcall'] at h
    cases h
    exact hne rfl

end

/-- **An error is told from every success**, unless the value that `get` found is the error. -/
theorem error_distinguishable_iff {n : ℕ} {call call' : Call} (x : Exchange L call)
    (y : Exchange L call') (hx : errDispatch n = .ok x.reply) (hy : y.Succeeds)
    (hm : call.Alike call') : Distinguishable x.outcome y.outcome ↔
      ¬ ∃ key, call' = .get key ∧ y.before.server.db.get? key = some x.reply := by
  obtain ⟨b, hb⟩ := errDispatch_ok hx
  have hlen : x.reply.length = 5 := by rw [hb]; rfl
  cases call with
  | get key =>
    cases call' with
    | get key' =>
      -- the value that was found is the reply
      obtain ⟨v, hv⟩ := Dict.mem_iff.1 (show key' ∈ y.before.server.db from hy)
      have hreply := y.get_reply
      rw [lookupReply, hv] at hreply
      cases hreply
      refine (distinguishable_bytes (fun _ => rfl) (fun _ => rfl) hx).trans (not_congr ?_)
      constructor
      · intro h
        exact ⟨key', rfl, hv.trans (congrArg some h)⟩
      · rintro ⟨_, h, hv'⟩
        cases h
        exact Option.some.inj (hv.symm.trans hv')
    | _ => exact hm.elim
  | find key =>
    cases call' with
    | find key' =>
      refine iff_of_true ((distinguishable_bytes (fun _ => rfl) (fun _ => rfl) hx).2 fun h => ?_)
        fun ⟨_, h, _⟩ => (by cases h)
      have hreply := y.find_reply hy
      rw [h] at hreply
      omega
    | _ => exact hm.elim
  | request uuid req key =>
    cases call' with
    | request uuid' req' key' =>
      refine iff_of_true ((distinguishable_bytes (fun _ => rfl) (fun _ => rfl) hx).2 fun h => ?_)
        fun ⟨_, h, _⟩ => (by cases h)
      have hreply := y.request_reply
      rw [h] at hreply
      omega
    | _ => exact hm.elim
  | readInbox =>
    obtain ⟨e, he⟩ := readInbox_error hx
    have hout : x.outcome = some (.error e) := (outcome_error hx).trans (congrArg some he)
    cases call' with
    | readInbox => exact iff_of_true (.inr (.inl ⟨e, hout⟩)) fun ⟨_, h, _⟩ => (by cases h)
    | _ => exact hm.elim
  | readOutbox id =>
    obtain ⟨e, he⟩ := readOutbox_error id hx
    have hout : x.outcome = some (.error e) := (outcome_error hx).trans (congrArg some he)
    cases call' with
    | readOutbox => exact iff_of_true (.inr (.inl ⟨e, hout⟩)) fun ⟨_, h, _⟩ => (by cases h)
    | _ => exact hm.elim
  | _ => exact hm.elim

/-! ## Runs on fixed inputs -/

/-- Connection 0 logs in, sets the key `0` and gets `key`, up to the lock. -/
def getActs (v key : Bytes) : List Act :=
  loginActs 0 [0xC5] ++ drawing sampleDraw 0 [.recv (stubPacket 0 2 (0x81 :: bodyOf [[0], v])), .go,
    .sent, .go, .recv (stubPacket 0 3 (0x82 :: key))]

/-- `get` is answered. -/
theorem Exchange.of_exec (acts : List Act) (key reply : Bytes) (found : Option Bytes)
    (hexec : ((Lts.exec (Sys.step stub) acts (.init [] false)).any fun x =>
      (x.1.tasks 0).handler?.any fun h => (x.1.step stub (goOn 0)).any fun y =>
        .answered 0 h.uuid (0x82 :: key) reply ∈ y.2 && x.1.server.db.get? key = found) = true)
    (hdraws : Lts.Along (Sys.step stub) (fun _ a _ => a.Draws) acts (.init [] false)) :
    ∃ x : Exchange stub (.get key), x.reply = reply ∧ x.before.server.db.get? key = found := by
  obtain ⟨⟨S, os⟩, hS, hp⟩ := Option.any_eq_true _ _ |>.1 hexec
  obtain ⟨h, hh, hp⟩ := Option.any_eq_true _ _ |>.1 hp
  obtain ⟨⟨S', o⟩, hS', hp⟩ := Option.any_eq_true _ _ |>.1 hp
  simp only [Bool.and_eq_true, decide_eq_true_eq] at hp
  exact ⟨⟨[], false, S, os, 0, h, .go, sampleDraw, S', o, 0x82 :: key, reply, Lts.exec_run hS hdraws,
    Task.eq_handler hh, hS', ⟨by decide, by decide⟩, rfl, hp.1⟩, rfl, hp.2⟩

/-- Error 5. -/
def sampleError : Bytes := [0, 69, 82, 82, 5]

/-- A key that is missing, and one with the value `9`. -/
theorem error_distinguishable_sample : ∃ (x : Exchange stub (.get [1])) (y : Exchange stub (.get [0])),
    errDispatch 5 = .ok x.reply ∧ y.Succeeds ∧ Distinguishable x.outcome y.outcome := by
  obtain ⟨x, hx, -⟩ := Exchange.of_exec (getActs [9] [1]) [1] sampleError none
    (by decide +kernel) (by decide +kernel)
  obtain ⟨y, -, hy⟩ := Exchange.of_exec (getActs [9] [0]) [0] [9] (some [9])
    (by decide +kernel) (by decide +kernel)
  have herr : errDispatch 5 = .ok x.reply := by rw [hx]; rfl
  have hfound : y.Succeeds := Dict.mem_of_get? hy
  refine ⟨x, y, herr, hfound, (error_distinguishable_iff stub x y herr hfound trivial).2 ?_⟩
  rintro ⟨key, hkey, hv⟩
  cases hkey
  rw [hy, hx] at hv
  exact absurd hv (by decide)

/-- **An error and a value are the same.**  One key is missing, the value of the other is
    error 5. -/
theorem error_as_value : ∃ (x : Exchange stub (.get [1])) (y : Exchange stub (.get [0])),
    errDispatch 5 = .ok x.reply ∧ [1] ∉ x.before.server.db ∧ y.Succeeds ∧ x.outcome = y.outcome ∧
      ¬ Distinguishable x.outcome y.outcome := by
  obtain ⟨x, hx, hmiss⟩ := Exchange.of_exec (getActs sampleError [1]) [1] sampleError none
    (by decide +kernel) (by decide +kernel)
  obtain ⟨y, hy, hfound⟩ := Exchange.of_exec (getActs sampleError [0]) [0] sampleError (some sampleError)
    (by decide +kernel) (by decide +kernel)
  have hxo : x.outcome = some (.ok (.bytes sampleError)) := by rw [Exchange.outcome, hx]; rfl
  have hyo : y.outcome = some (.ok (.bytes sampleError)) := by rw [Exchange.outcome, hy]; rfl
  refine ⟨x, y, by rw [hx]; rfl, fun h => ?_, Dict.mem_of_get? hfound, hxo.trans hyo.symm, ?_⟩
  · obtain ⟨v, hv⟩ := Dict.mem_iff.1 h
    rw [hmiss] at hv
    cases hv
  · rw [hxo, hyo]
    rintro (h | ⟨e, h⟩ | h)
    · cases h
    · cases h
    · exact h rfl

end Pipebomb
