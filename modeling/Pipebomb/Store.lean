/-
  The database under concurrent requests.

  * `setDb`, `getDb`, `removeDb` are the methods of `Server` on the database.  A caller
    waits for `db_lock`, which is free when the body runs, and the body does not await:
    `Store` is the server with the callers that wait, and `Store.step` lets one of them or
    the server go on.
  * The history of a run has a call where a handler accepts a request about the database or
    a method is called, and a return where the reply starts to be sent or the method
    returns (`Sys.events`).
  * `store_linearizable`: the history is linearizable to a plain map, and the database at
    the end is that map.
-/
import Pipebomb.Lib.Linear
import Pipebomb.Office
import Pipebomb.Sessions

namespace Pipebomb

open ByteString Linear

variable {K : Type} (L : Libs K)

/-! ## The methods of the server -/

/-- `set_db`. -/
def setDb (s : Server K) (key value : Bytes) : Server K × Except PyErr (Option Bytes) :=
  (s.setDb (s.db.set key value), .ok none)

/-- `get_db`. -/
def getDb (s : Server K) (key : Bytes) : Server K × Except PyErr (Option Bytes) :=
  match s.db.get? key with
  | none => (s, .error .keyError)
  | some v => (s, .ok (some v))

/-- `remove_db`. -/
def removeDb (s : Server K) (key : Bytes) : Server K × Except PyErr (Option Bytes) :=
  if key ∈ s.db then (s.setDb (s.db.erase key), .ok none) else (s, .error .keyError)

/-- A call of one of the methods. -/
inductive DbCall where
  | set (key value : Bytes)
  | get (key : Bytes)
  | remove (key : Bytes)
  deriving DecidableEq, Repr

def DbCall.run (s : Server K) : DbCall → Server K × Except PyErr (Option Bytes)
  | .set key value => Pipebomb.setDb s key value
  | .get key => Pipebomb.getDb s key
  | .remove key => Pipebomb.removeDb s key

/-- The operation a method is called for. -/
def DbCall.op : DbCall → KvOp
  | .set key value => .set key value
  | .get key => .get key
  | .remove key => .delete key

/-- The server and the callers that wait for `db_lock`, numbered as they called. -/
structure Store (K : Type) where
  sys : Sys K
  calls : Dict ℕ DbCall
  next : ℕ

/-- Who calls an operation on the database. -/
inductive Caller where
  | conn (c : ConnId)
  | method (n : ℕ)
  deriving DecidableEq, Repr

/-- What a caller gets: a reply, or the result of the method. -/
inductive Answer where
  | reply (bs : Bytes)
  | result (x : Except PyErr (Option Bytes))
  deriving DecidableEq

/-- The request about the database in a payload. -/
def request (data : Bytes) : Option KvOp :=
  match data with
  | [] => none
  | type_ :: value => match command type_ with
    | .db op => kvOp op value
    | _ => none

/-- The event in an observation of a handler. -/
def Obs.event : Obs K → Option (Event Caller KvOp Answer)
  | .accepted (.server c) data => (request data).map (.call (.conn c))
  | .answered c _ data reply => (request data).map fun _ => .ret (.conn c) (.reply reply)
  | _ => none

/-- The events in a step of the server: those of a handler. -/
def Sys.events (S : Sys K) (a : Act) (o : List (Obs K)) : List (Event Caller KvOp Answer) :=
  match a with
  | .resume c _ _ => match S.tasks c with
    | .handler _ => o.filterMap Obs.event
    | _ => []
  | _ => []

/-- What happens next. -/
inductive StoreAct where
  | server (a : Act)
  /-- a method is called -/
  | call (op : DbCall)
  /-- the caller gets the lock -/
  | run (n : ℕ)

/-- **One step.** -/
def Store.step (X : Store K) : StoreAct → Option (Store K × List (Event Caller KvOp Answer))
  | .server a => match X.sys.step L a with
    | none => none
    | some (S, o) => some ({ X with sys := S }, X.sys.events a o)
  | .call op => some ({ X with calls := X.calls.set X.next op, next := X.next + 1 },
      [.call (.method X.next) op.op])
  | .run n =>
    if X.sys.server.dbLock then none
    else match X.calls.get? n with
      | none => none
      | some op =>
        let (s, result) := op.run X.sys.server
        some ({ X with sys := { X.sys with server := s }, calls := X.calls.erase n },
          [.ret (.method n) (.result result)])

def Store.init (password : Bytes) (keepDeadSessions : Bool) : Store K :=
  ⟨.init password keepDeadSessions, .empty, 0⟩

/-! ## The plain map -/

/-- The answer of an operation on a plain map.  LIST answers with the JSON text of the
    whole map, in some order. -/
def KvOp.Answers (db : Bytes → Option Bytes) : KvOp → Answer → Prop
  | .set _ _, .reply bs => bs = ACK
  | .set _ _, .result x => x = .ok none
  | .get key, .reply bs => match db key with
    | none => bs = [0, 69, 82, 82, 5]
    | some v => bs = v
  | .get key, .result x => match db key with
    | none => x = .error .keyError
    | some v => x = .ok (some v)
  | .delete key, .reply bs => bs = if (db key).isSome then ACK else [0, 69, 82, 82, 5]
  | .delete key, .result x => x = if (db key).isSome then .ok none else .error .keyError
  | .list, .reply bs => ∃ d : Dict Bytes Bytes, d.get? = db ∧ listReply d = .ok bs
  | .list, .result _ => False

/-- An operation on a plain map. -/
def mapSpec (db : Bytes → Option Bytes) (op : KvOp) (r : Answer) (db' : Bytes → Option Bytes) :
    Prop :=
  op.Answers db r ∧ db' = op.apply db

/-- A method is an operation on the map. -/
theorem DbCall.run_spec (op : DbCall) (s : Server K) :
    mapSpec s.db.get? op.op (.result (op.run s).2) (op.run s).1.db.get? := by
  cases op with
  | set key value => exact ⟨rfl, Dict.get?_set_update _ _ _⟩
  | get key =>
    simp only [DbCall.run, getDb, DbCall.op, mapSpec, KvOp.Answers]
    rcases s.db.get? key with _ | v
    · exact ⟨rfl, rfl⟩
    · exact ⟨rfl, rfl⟩
  | remove key =>
    simp only [DbCall.run, removeDb, DbCall.op, mapSpec, KvOp.Answers]
    by_cases hk : key ∈ s.db
    · obtain ⟨v, hv⟩ := Dict.mem_iff.1 hk
      rw [if_pos hk, hv]
      exact ⟨rfl, Dict.get?_erase_update _ _⟩
    · have hnone := Dict.get?_eq_none.2 hk
      rw [if_neg hk, hnone]
      refine ⟨rfl, ?_⟩
      rw [KvOp.apply, ← hnone, Function.update_eq_self]

/-- A command under the lock is an operation on the map, if it gives a reply. -/
theorem dbOp_spec {op : DbOp} {s : Server K} {value reply : Bytes} {kv : KvOp}
    (hkv : kvOp op value = some kv) (hr : (op.run s value).2 = .ok reply) :
    mapSpec s.db.get? kv (.reply reply) (op.run s value).1.db.get? := by
  cases op with
  | set =>
    simp only [kvOp] at hkv
    split at hkv
    · rename_i hbody
      cases hkv
      simp only [DbOp.run, hbody] at hr ⊢
      cases hr
      exact ⟨rfl, Dict.get?_set_update _ _ _⟩
    · cases hkv
  | get =>
    cases hkv
    simp only [DbOp.run, lookupReply] at hr ⊢
    refine ⟨?_, rfl⟩
    simp only [KvOp.Answers]
    rcases hget : s.db.get? value with _ | v
    · rw [hget] at hr
      cases hr
      rfl
    · rw [hget] at hr
      cases hr
      rfl
  | delete =>
    cases hkv
    simp only [DbOp.run] at hr ⊢
    by_cases hk : value ∈ s.db
    · obtain ⟨v, hv⟩ := Dict.mem_iff.1 hk
      rw [if_pos hk] at hr ⊢
      cases hr
      refine ⟨?_, Dict.get?_erase_update _ _⟩
      simp [KvOp.Answers, hv]
    · have hnone := Dict.get?_eq_none.2 hk
      rw [if_neg hk] at hr ⊢
      cases hr
      refine ⟨?_, ?_⟩
      · simp [KvOp.Answers, hnone]
      · rw [KvOp.apply, ← hnone, Function.update_eq_self]
  | list =>
    cases hkv
    exact ⟨⟨s.db, rfl, hr⟩, rfl⟩

/-- A request that is no operation gives no reply. -/
theorem dbOp_none {op : DbOp} {s : Server K} {value : Bytes} (reply : Bytes) (hkv : kvOp op value = none) :
    (op.run s value).2 ≠ .ok reply ∧ (op.run s value).1 = s := by
  cases op with
  | set =>
    simp only [kvOp] at hkv
    simp only [DbOp.run]
    split
    · rename_i hbody
      rw [hbody] at hkv
      cases hkv
    · exact ⟨by simp, rfl⟩
    · exact ⟨by simp, rfl⟩
  | get => cases hkv
  | delete => cases hkv
  | list => cases hkv

/-! ## Events of a step -/

section
variable {s : Server K} {c : ConnId} {h : Handler} {i : Input} {draw : Uuid4}
  {out : Outcome K (Accepting K)} {os : List (Obs K)}

theorem Inner.events (hin : Inner os) : os.filterMap Obs.event = [] := by
  rw [List.filterMap_eq_nil_iff]
  intro x hx
  have := hin x hx
  cases x <;> first | rfl | exact this.elim

/-- The return of the request that the handler processes, if there is one. -/
def returnOf (c : ConnId) (data reply : Bytes) : List (Event Caller KvOp Answer) :=
  ((request data).map fun _ => .ret (.conn c) (.reply reply)).toList

theorem Sends.db {A : Type} {reply : Except PyErr Bytes} {held : Held} {after : After}
    {out : Outcome K A} (hs : Sends L s c h reply held after out) : out.1.db = s.db := by
  rcases hs.server with hs | hs
  · rw [hs]
  · rw [hs]
    cases held <;> rfl

/-- What is seen of sending a reply. -/
theorem Sends.events {reply : Except PyErr Bytes} {held : Held} {after : After}
    (hs : Sends L s c h reply held after out) :
    ((∃ e, out.2.1 = .over (some e)) ∧ out.2.2.filterMap Obs.event = []) ∨
      ∃ data, reply = .ok data ∧ out.2.1 = .handler { h with pc := .sendall held after } ∧
        out.2.2.filterMap Obs.event = if after = .next then returnOf c h.data data else [] := by
  cases hs with
  | fail _ hin => exact .inl ⟨⟨_, rfl⟩, hin.events⟩
  | start he hin =>
    rename_i data pkt os
    refine .inr ⟨data, he, rfl, ?_⟩
    rw [List.filterMap_append, hin.events]
    split_ifs
    · rcases hr : request h.data with _ | op
      · simp [List.filterMap_cons, Obs.event, returnOf, hr]
      · simp [List.filterMap_cons, Obs.event, returnOf, hr]
    · rfl

/-- What the caller of a coroutine is doing.  A coroutine that ended may have left an
    operation without a return. -/
def Task.Doing : Task (Accepting K) → Status KvOp Answer → Prop
  | .handler h, st => st = match h.pc with
    | .dbLock _ => match request h.data with
      | some op => .called op
      | none => .idle
    | _ => .idle
  | .over _, _ => True
  | _, st => st = .idle

variable {es : List (Event Caller KvOp Answer)} {st : Caller → Status KvOp Answer}
  {db₀ : Bytes → Option Bytes}

/-- The events `new` are those of the caller of `c`, who then does what its coroutine says. -/
def Continues (db₀ : Bytes → Option Bytes) (es : List (Event Caller KvOp Answer))
    (st : Caller → Status KvOp Answer) (c : ConnId) (new : List (Event Caller KvOp Answer))
    (db : Dict Bytes Bytes) (t : Task (Accepting K)) : Prop :=
  ∃ st', Tracks mapSpec db₀ (es ++ new) st' db.get? ∧ t.Doing (st' (.conn c)) ∧
    ∀ p, p ≠ .conn c → st' p = st p

theorem Continues.none {t : Task (Accepting K)} {db : Dict Bytes Bytes}
    (hT : Tracks mapSpec db₀ es st db.get?) (ht : t.Doing (st (.conn c))) :
    Continues db₀ es st c [] db t :=
  ⟨st, by rwa [List.append_nil], ht, fun _ _ => rfl⟩

/-- Sending a reply to a payload that is no request about the database. -/
theorem Sends.continues {reply : Except PyErr Bytes} {held : Held} {after : After}
    (hs : Sends L s c h reply held after out) (hT : Tracks mapSpec db₀ es st s.db.get?)
    (hidle : st (.conn c) = .idle) (hd : after = .next → request h.data = Option.none) :
    Continues db₀ es st c (out.2.2.filterMap Obs.event) out.1.db out.2.1 := by
  rw [hs.db]
  rcases hs.events with ⟨⟨e, ht⟩, he⟩ | ⟨data, -, ht, he⟩
  · rw [he, ht]
    exact .none hT trivial
  · have hnone : (if after = .next then returnOf c h.data data else []) = [] := by
      split_ifs with ha
      · rw [returnOf, hd ha]
        rfl
      · rfl
    rw [he, ht, hnone]
    exact .none hT hidle

/-- Only a command about the database is a request about it. -/
theorem request_eq_none {type_ : UInt8} {value : Bytes} (hc : ∀ op, command type_ ≠ .db op) :
    request (type_ :: value) = Option.none := by
  rw [request]
  rcases hcmd : command type_ with op | _ | _ | _ | _ | _ | _ | _ | _ | _ | _
  · exact absurd hcmd (hc op)
  all_goals rfl

theorem request_of_not_wait {s : Server K} {u : PyStr} {data : Bytes} (draw : Uuid4)
    (hd : ∀ op, (dispatch s u data draw).2 ≠ .wait (.dbLock op)) : request data = Option.none := by
  cases data with
  | nil => rfl
  | cons type_ value =>
    refine request_eq_none fun op hc => hd op ?_
    simp only [dispatch, hc]

/-- A payload is accepted. -/
theorem Proceeds.continues {data : Bytes} {u : PyStr}
    (hp : Proceeds L c h (dispatch s u data draw) out) (hdata : h.data = data)
    (hT : Tracks mapSpec db₀ es st s.db.get?) (hidle : st (.conn c) = .idle) :
    Continues db₀ es st c ((request data).toList.map (.call (.conn c)) ++
      out.2.2.filterMap Obs.event) out.1.db out.2.1 := by
  have hdb := (dispatch_aside s u data draw).db
  rw [← hdb] at hT
  cases hp with
  | reply hn hs =>
    have hnone : request data = Option.none := request_of_not_wait (s := s) (u := u) draw
      fun op he => by rw [hn] at he; cases he
    rw [hnone]
    exact hs.continues L hT hidle fun _ => by rw [hdata, hnone]
  | raise hn =>
    have hnone : request data = Option.none := request_of_not_wait (s := s) (u := u) draw
      fun op he => by rw [hn] at he; cases he
    rw [hnone]
    exact .none hT trivial
  | bye hn =>
    have hnone : request data = Option.none := request_of_not_wait (s := s) (u := u) draw
      fun op he => by rw [hn] at he; cases he
    rw [hnone, (teardown_aside _ _).db]
    exact .none hT trivial
  | wait hn =>
    rename_i pc
    simp only [List.filterMap_nil, List.append_nil]
    obtain ⟨type_, value, rfl, -, hcase⟩ := dispatch_wait hn
    rcases hcase with ⟨op, hc, rfl⟩ | ⟨r, hc, -, rfl⟩ | ⟨r, p, hc, -, rfl⟩ | ⟨r, hc, -, rfl⟩
    · rcases hr : request (type_ :: value) with _ | kv
      · refine .none hT ?_
        simp only [Task.Doing, hdata, hr]
        exact hidle
      · refine ⟨_, hT.call hidle, ?_, fun p hp => Function.update_of_ne hp ..⟩
        simp only [Task.Doing, hdata, hr]
        exact Function.update_self ..
    · rw [request_eq_none (by simp [hc])]
      exact .none hT hidle
    · rw [request_eq_none (by simp [hc])]
      exact .none hT hidle
    · rw [request_eq_none (by simp [hc])]
      exact .none hT hidle

/-- A command runs under the lock: it takes effect, and its return follows if its reply is
    sent. -/
theorem db_continues {op : DbOp} (hh : h.Wf s) (hpc : h.pc = .dbLock op)
    (hs : Sends L (op.run (s.setDbLock true) h.data.tail).1 c h
      (op.run (s.setDbLock true) h.data.tail).2 .dbLock .next out)
    (hT : Tracks mapSpec db₀ es st s.db.get?)
    (hdo : (Task.handler h : Task (Accepting K)).Doing (st (.conn c))) :
    Continues db₀ es st c (out.2.2.filterMap Obs.event) out.1.db out.2.1 := by
  obtain ⟨type_, value, hdata, hc⟩ := hh.dbLock hpc
  have hreq : request h.data = kvOp op value := by
    rw [hdata]
    simp only [request, hc]
  have htail : h.data.tail = value := by
    rw [hdata]
    rfl
  simp only [Task.Doing, hpc, hreq] at hdo
  rw [htail] at hs
  rw [hs.db]
  rcases hkv : kvOp op value with _ | kv
  · rw [hkv] at hdo
    obtain ⟨hno, hsame⟩ := dbOp_none (s := s.setDbLock true) [] hkv
    rw [hsame]
    rcases hs.events with ⟨⟨e, ht⟩, he⟩ | ⟨data, hr, -, -⟩
    · rw [he, ht]
      exact .none hT trivial
    · exact absurd hr (dbOp_none _ hkv).1
  · rw [hkv] at hdo
    rcases hr : (op.run (s.setDbLock true) value).2 with e | reply
    · -- the reply cannot be made, and nothing was changed
      have hsame : (op.run (s.setDbLock true) value).1.db = s.db := by
        cases op with
        | set =>
          simp only [DbOp.run] at hr ⊢
          split
          · rename_i hbody
            rw [hbody] at hr
            cases hr
          · rfl
          · rfl
        | get => rfl
        | delete =>
          simp only [DbOp.run] at hr ⊢
          split_ifs with hk
          · rw [if_pos hk] at hr
            cases hr
          · rfl
        | list => rfl
      rw [hsame]
      rcases hs.events with ⟨⟨e, ht⟩, he⟩ | ⟨data, hr', -, -⟩
      · rw [he, ht]
        exact .none hT trivial
      · rw [hr] at hr'
        cases hr'
    · have hpoint := hT.point hdo (dbOp_spec (s := s.setDbLock true) hkv hr)
      rcases hs.events with ⟨⟨e, ht⟩, he⟩ | ⟨data, hr', ht, he⟩
      · rw [he, ht]
        exact ⟨_, by rwa [List.append_nil], trivial, fun p hp => Function.update_of_ne hp ..⟩
      · obtain rfl := Except.ok.inj (hr.symm.trans hr')
        have hret := hpoint.ret (p := .conn c) (Function.update_self ..)
        have hreturn : returnOf c h.data reply = [.ret (.conn c) (.reply reply)] := by
          rw [returnOf, hreq, hkv]
          rfl
        rw [he, ht, if_pos rfl, hreturn]
        refine ⟨_, hret, Function.update_self .., fun p hp => ?_⟩
        rw [Function.update_of_ne hp, Function.update_of_ne hp]

/-- **A step of a handler.** -/
theorem Move.continues (hh : h.Wf s) (hm : Move L s c h i draw out)
    (hT : Tracks mapSpec db₀ es st s.db.get?)
    (hdo : (Task.handler h : Task (Accepting K)).Doing (st (.conn c))) :
    Continues db₀ es st c (out.2.2.filterMap Obs.event) out.1.db out.2.1 := by
  have hidle : (∀ op, h.pc ≠ .dbLock op) → st (.conn c) = .idle := by
    intro hpc
    simpa only [Task.Doing] using hdo
  have hreads : h.pc.Reads → ∀ op, h.pc ≠ .dbLock op := by
    intro hr op hpc
    rw [hpc] at hr
    exact hr
  cases hm with
  | still hr ht hin =>
    rename_i t os
    rw [hin.events]
    refine .none hT ?_
    cases t with
    | handler h' =>
      obtain ⟨-, hpc | hpc | hpc⟩ := ht
      · simp only [Task.Doing, hpc]
        exact hidle (hreads hr)
      · simp only [Task.Doing, hpc]
        exact hidle (hreads hr)
      · simp only [Task.Doing, hpc]
        exact hidle (hreads hr)
    | «over» e => trivial
    | idle => exact ht.elim
    | accept a => exact ht.elim
  | refuse hr hu hid hin hs =>
    rw [seen_obs, List.filterMap_append, hin.events, List.nil_append]
    exact hs.continues L hT (hidle (hreads hr)) fun h => by cases h
  | payload hr hu hid hv hin hp =>
    rename_i r h' frame rem os out
    have hmap : (os ++ [Obs.accepted (.server c) h'.data]).filterMap Obs.event =
        (request h'.data).toList.map (.call (.conn c)) := by
      rw [List.filterMap_append, hin.events]
      rcases hreq : request h'.data with _ | op
      · simp [Obs.event, hreq]
      · simp [Obs.event, hreq]
    rw [seen_obs, List.filterMap_append, hmap]
    exact hp.continues L rfl hT (hidle (hreads hr))
  | db hpc hi hl hs => exact db_continues L hh hpc hs hT hdo
  | inboxGet hpc hi hq hs =>
    obtain ⟨⟨type_, value, hdata, hc⟩, -⟩ := hh.inboxGet hpc
    refine hs.continues L hT (hidle fun op h => ?_) fun _ => ?_
    · rw [hpc] at h
      cases h
    · rw [hdata]
      exact request_eq_none (by simp [hc])
  | outboxPut hpc hi hl hs =>
    obtain ⟨⟨type_, value, target, hdata, hc, -⟩, -⟩ := hh.outboxPut hpc
    refine hs.continues L hT (hidle fun op h => ?_) fun _ => ?_
    · rw [hpc] at h
      cases h
    · rw [hdata]
      exact request_eq_none (by simp [hc])
  | outboxNone hpc hi hl hg hs =>
    obtain ⟨⟨type_, hdata, hc⟩, -⟩ := hh.outboxGet hpc
    refine hs.continues L hT (hidle fun op h => ?_) fun _ => ?_
    · rw [hpc] at h
      cases h
    · rw [hdata]
      exact request_eq_none (by simp [hc])
  | outboxGet hpc hi hl hg hs =>
    obtain ⟨⟨type_, hdata, hc⟩, -⟩ := hh.outboxGet hpc
    refine hs.continues L hT (hidle fun op h => ?_) fun _ => ?_
    · rw [hpc] at h
      cases h
    · rw [hdata]
      exact request_eq_none (by simp [hc])
  | sent hpc hi hu =>
    have hdb : ∀ r held, ((s.modify r Client.sent).release held).db = s.db := by
      intro r held
      cases held <;> rfl
    rw [hdb]
    exact .none hT (hidle fun op h => by rw [hpc] at h; cases h)
  | close hpc hi hu =>
    have hdb : ∀ r held, (teardown ((s.modify r Client.sent).release held) h.uuid).db = s.db := by
      intro r held
      rw [(teardown_aside _ _).db]
      cases held <;> rfl
    rw [hdb]
    exact .none hT trivial
  | die =>
    have hdb : ∀ held, (s.release held).db = s.db := by
      intro held
      cases held <;> rfl
    rw [hdb]
    exact .none hT trivial

end

/-! ## Runs -/

section
variable {X X' : Store K} {S S' : Sys K} {a : Act} {o : List (Obs K)} {x : StoreAct}
  {es new : List (Event Caller KvOp Answer)} {st : Caller → Status KvOp Answer}
  {db₀ : Bytes → Option Bytes}

/-- The history of the run so far has a point for each operation, and the callers stand
    where the coroutines and the waiting methods do. -/
structure Store.Tracked (db₀ : Bytes → Option Bytes) (es : List (Event Caller KvOp Answer))
    (st : Caller → Status KvOp Answer) (X : Store K) : Prop where
  sound : X.sys.Sound
  tracks : Tracks mapSpec db₀ es st X.sys.server.db.get?
  conns : ∀ c, (X.sys.tasks c).Doing (st (.conn c))
  waiting : ∀ n op, X.calls.get? n = some op → st (.method n) = .called op.op ∧ n < X.next
  unused : ∀ n, X.next ≤ n → st (.method n) = .idle

/-- A coroutine went on: the callers are where they were, but for its own. -/
theorem Store.Tracked.put (hX : X.Tracked db₀ es st) {c : ConnId} {s : Server K}
    {t : Task (Accepting K)} (hsound : (X.sys.put c s t).Sound)
    (hc : Continues db₀ es st c new s.db t) :
    ∃ st', ({ X with sys := X.sys.put c s t } : Store K).Tracked db₀ (es ++ new) st' := by
  obtain ⟨st', hT, hdo, hother⟩ := hc
  refine ⟨st', hsound, hT, fun c' => ?_, fun n op hn => ?_, fun n hn => ?_⟩
  · by_cases hc' : c' = c
    · subst hc'
      rw [put_tasks_self]
      exact hdo
    · rw [put_tasks_ne hc', hother _ (by simpa using hc')]
      exact hX.conns c'
  · rw [hother _ (by simp)]
    exact hX.waiting n op hn
  · rw [hother _ (by simp)]
    exact hX.unused n hn

/-- Whoever joins has not called anything yet. -/
theorem Joins.doing {s : Server K} {c : ConnId} {draw : Uuid4} {a : Accepting K}
    {out : Outcome K (Accepting K)} {status : Status KvOp Answer} (hj : Joins s c draw a out)
    (hidle : status = .idle) : out.2.1.Doing status := by
  have hout : ∀ {t : Task (Accepting K)}, t.Outside → t.Doing status := by
    intro t ht
    cases t with
    | idle => exact ht.elim
    | accept a => exact hidle
    | handler h => exact ht.elim
    | «over» e => trivial
  cases hj with
  | still hto _ => exact hout hto
  | login hto _ _ =>
    rcases hto with rfl | hto
    · exact hidle
    · exact hout hto
  | attach _ hto _ _ =>
    rcases hto with rfl | hto
    · exact hidle
    · exact hout hto
  | unknown => exact hidle
  | finish => exact hidle

/-- The server makes a step. -/
theorem Store.Tracked.server (hX : X.Tracked db₀ es st) (hstep : X.sys.step L a = some (S', o)) :
    ∃ st', ({ X with sys := S' } : Store K).Tracked db₀ (es ++ X.sys.events a o) st' := by
  have hsound := step_sound L hX.sound hstep
  cases (step_step L hX.sound.tidy hstep).1 with
  | connect hidle =>
    rename_i c
    refine hX.put hsound (.none hX.tracks ?_)
    have := hX.conns c
    rwa [hidle] at this
  | join htask hj =>
    rename_i c i draw a s t
    have he : X.sys.events (.resume c i draw) o = [] := by
      simp only [Sys.events, htask]
    have hidle : st (.conn c) = .idle := by
      have := hX.conns c
      rwa [htask] at this
    rw [he]
    refine hX.put hsound (.none ?_ (hj.doing hidle))
    have hdb : s.db = X.sys.server.db := hj.aside.db
    rw [hdb]
    exact hX.tracks
  | move htask hm =>
    rename_i c i draw h s t
    have he : X.sys.events (.resume c i draw) o = o.filterMap Obs.event := by
      simp only [Sys.events, htask]
    rw [he]
    have hdo := hX.conns c
    rw [htask] at hdo
    exact hX.put hsound (hm.continues L (hX.sound.handlers c h htask) hX.tracks hdo)
  | admin =>
    rename_i op
    refine ⟨st, hsound, ?_, hX.conns, hX.waiting, hX.unused⟩
    simp only [Sys.events, List.append_nil, (admin_aside _ _).db]
    exact hX.tracks

theorem dbCall_quiet (op : DbCall) (s : Server K) : Quiet s (op.run s).1 := by
  cases op with
  | set key value => exact ⟨rfl, rfl, fun _ => .refl _⟩
  | get key =>
    simp only [DbCall.run, getDb]
    split <;> exact .refl s
  | remove key =>
    simp only [DbCall.run, removeDb]
    split_ifs
    · exact ⟨rfl, rfl, fun _ => .refl _⟩
    · exact .refl s

theorem dbCall_sound (op : DbCall) (hS : S.Sound) :
    ({ S with server := (op.run S.server).1 } : Sys K).Sound := by
  have hf : Frame (fun _ => True) S.server (op.run S.server).1 := (dbCall_quiet op S.server).frame
  exact ⟨hf.wfRefs hS.refs, fun c => hf.taskWf (hS.tasks c), hS.tidy,
    fun c h hc => hf.handlerWf (hS.handlers c h hc)⟩

/-- A method is called. -/
theorem Store.Tracked.call (hX : X.Tracked db₀ es st) (op : DbCall) :
    ({ X with calls := X.calls.set X.next op, next := X.next + 1 } : Store K).Tracked db₀
      (es ++ [.call (.method X.next) op.op])
      (Function.update st (.method X.next) (.called op.op)) := by
  have hne : ∀ n, n ≠ X.next → Function.update st (.method X.next) (.called op.op) (.method n) =
      st (.method n) := fun n hn => Function.update_of_ne (by simpa using hn) ..
  refine ⟨hX.sound, hX.tracks.call (hX.unused _ (Nat.le_refl _)), fun c => ?_, fun n op' hn => ?_,
    fun n hn => ?_⟩
  · rw [Function.update_of_ne (by simp)]
    exact hX.conns c
  · have hn : (X.calls.set X.next op).get? n = some op' := hn
    rw [Dict.get?_set] at hn
    split_ifs at hn with he
    · cases hn
      subst he
      rw [Function.update_self]
      exact ⟨rfl, Nat.lt_succ_self _⟩
    · rw [hne n he]
      exact ⟨(hX.waiting n op' hn).1, Nat.lt_succ_of_lt (hX.waiting n op' hn).2⟩
  · have hn : X.next + 1 ≤ n := hn
    rw [hne n (by omega)]
    exact hX.unused n (by omega)

/-- A method runs under the lock and returns. -/
theorem Store.Tracked.run (hX : X.Tracked db₀ es st) {n : ℕ} {op : DbCall}
    (hn : X.calls.get? n = some op) :
    ∃ st', ({ X with
        sys := { X.sys with server := (op.run X.sys.server).1 }, calls := X.calls.erase n } :
          Store K).Tracked db₀ (es ++ [.ret (.method n) (.result (op.run X.sys.server).2)]) st' := by
  have hpoint := hX.tracks.point (hX.waiting n op hn).1 (op.run_spec X.sys.server)
  have hret := hpoint.ret (p := .method n) (Function.update_self ..)
  rw [Function.update_idem] at hret
  refine ⟨_, dbCall_sound op hX.sound, hret, fun c => ?_, fun m op' hm => ?_, fun m hm => ?_⟩
  · rw [Function.update_of_ne (by simp)]
    exact hX.conns c
  · have hm : (X.calls.erase n).get? m = some op' := hm
    rw [Dict.get?_erase] at hm
    split_ifs at hm with he
    rw [Function.update_of_ne (by simpa using he)]
    exact hX.waiting m op' hm
  · have hm : X.next ≤ m := hm
    have hlt := (hX.waiting n op hn).2
    have he : m ≠ n := by omega
    rw [Function.update_of_ne (by simpa using he)]
    exact hX.unused m hm

/-- **A step keeps the points.** -/
theorem Store.step_tracked (hX : X.Tracked db₀ es st) (hstep : X.step L x = some (X', new)) :
    ∃ st', X'.Tracked db₀ (es ++ new) st' := by
  cases x with
  | server a =>
    simp only [Store.step] at hstep
    rcases hs : X.sys.step L a with _ | ⟨S', o⟩
    · rw [hs] at hstep
      cases hstep
    · rw [hs] at hstep
      cases hstep
      exact hX.server L hs
  | call op =>
    cases hstep
    exact ⟨_, hX.call op⟩
  | run n =>
    simp only [Store.step] at hstep
    split_ifs at hstep
    rcases hn : X.calls.get? n with _ | op
    · rw [hn] at hstep
      cases hstep
    · rw [hn] at hstep
      cases hstep
      exact hX.run hn

theorem Store.tracked_init (password : Bytes) (keep : Bool) :
    (Store.init password keep : Store K).Tracked (fun _ => none) [] fun _ => .idle := by
  refine ⟨sound_init _ _, ?_, fun _ => rfl, fun n op hn => (by cases hn), fun _ _ => rfl⟩
  exact .nil

/-- **The database is linearizable**: in every run there is an order of the operations,
    consistent with their calls and returns, in which a plain map gives the same answers and
    ends as the database. -/
theorem store_linearizable {password : Bytes} {keep : Bool}
    (hrun : Lts.Run (Lts.Guarded (Store.step L) fun _ _ _ => True) (.init password keep) X es) :
    ∃ l, Linearizes mapSpec (fun _ => none) X.sys.server.db.get? (numbered es) l := by
  obtain ⟨st, hX⟩ := hrun.inv (I := fun X es => ∃ st, X.Tracked (fun _ => none) es st)
    ⟨_, Store.tracked_init password keep⟩
    fun _ ⟨st, hX⟩ ⟨_, hstep, _⟩ => Store.step_tracked L hX hstep
  exact hX.tracks.linearizes

end

/-! ## A run on fixed inputs -/

/-- A client asks for a value, which a method sets before the handler gets the lock. -/
def getWhileSet : List StoreAct :=
  (loginActs 0 [0xC5] ++ [Act.resume 0 (.recv (stubPacket 0 2 [0x82, 107])) sampleDraw]).map .server ++
    [.call (.set [107] [118]), .run 0, .server (.resume 0 .go sampleDraw)]

/-- The client gets the value that was set after it asked. -/
theorem store_linearizable_sample : ∃ (X : Store ℕ) (es : List (Event Caller KvOp Answer))
    (l : List ((Caller × ℕ) × KvOp × Answer)),
    Linearizes mapSpec (fun _ => none) X.sys.server.db.get? (numbered es) l ∧
      es = [.call (.conn 0) (.get [107]), .call (.method 0) (.set [107] [118]),
        .ret (.method 0) (.result (.ok none)), .ret (.conn 0) (.reply [118])] := by
  have hexec : ((Lts.exec (Store.step stub) getWhileSet (Store.init [] false)).any fun x =>
      x.2 = [.call (.conn 0) (.get [107]), .call (.method 0) (.set [107] [118]),
        .ret (.method 0) (.result (.ok none)), .ret (.conn 0) (.reply [118])]) = true := by
    decide +kernel
  have halong : Lts.Along (Store.step stub) (fun _ _ _ => True) getWhileSet
      (Store.init [] false) := by decide +kernel
  obtain ⟨⟨X, es⟩, hX, hes⟩ := Option.any_eq_true _ _ |>.1 hexec
  obtain ⟨l, hl⟩ := store_linearizable stub (Lts.exec_run hX halong)
  exact ⟨X, es, l, hl, of_decide_eq_true hes⟩

end Pipebomb
