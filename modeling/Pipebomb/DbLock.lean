/-
  `db_lock`: who takes it, and whether it is given back.

  * `DictOp`: the dict-style operations of `Server`, which acquire the lock, use the database
    and release the lock, with no `finally`; `DbCall.locked`: the methods on the database,
    which use `async with`.
  * `Sys.dbStep`: the server, with these operations and with a dictionary that may raise.
    An operation that does not get the lock waits, while the others go on.
  * `db_lock_free_iff`: the lock is free whenever nobody uses the database, exactly if no
    dict-style operation raised.
-/
import Pipebomb.Lib.Mutex
import Pipebomb.Pass
import Pipebomb.Store

namespace Pipebomb

open ByteString

variable {K : Type} (L : Libs K)

/-! ## Operations -/

/-- The dict-style operations of `Server`. -/
inductive DictOp where
  | getitem (key : Bytes)
  | setitem (key value : Bytes)
  | delitem (key : Bytes)
  | contains (key : Bytes)
  | len
  | keys
  | values
  deriving DecidableEq, Repr

/-- What a dict-style operation returns. -/
inductive DictValue where
  | none
  | bytes (bs : Bytes)
  | bool (b : Bool)
  | int (n : ℕ)
  | keys (ks : List Bytes)
  | values (vs : List Bytes)
  deriving DecidableEq, Repr

/-- The line between `acquire` and `release`. -/
def DictOp.body (s : Server K) : DictOp → Server K × Except PyErr DictValue
  | .getitem key => match s.db.get? key with
    | none => (s, .error .keyError)
    | some v => (s, .ok (.bytes v))
  | .setitem key value => (s.setDb (s.db.set key value), .ok .none)
  | .delitem key =>
    if key ∈ s.db then (s.setDb (s.db.erase key), .ok .none) else (s, .error .keyError)
  | .contains key => (s, .ok (.bool (key ∈ s.db)))
  | .len => (s, .ok (.int s.db.items.length))
  | .keys => (s, .ok (.keys s.db.keys))
  | .values => (s, .ok (.values s.db.values))

/-- A dict-style operation behind `acquire`; `fault` is what the dictionary raises.  An
    exception skips `release`. -/
def DictOp.run (s : Server K) (op : DictOp) (fault : Option PyErr) :
    Server K × Except PyErr DictValue :=
  let s := s.setDbLock true
  match fault with
  | some e => (s, .error e)
  | none => match op.body s with
    | (s, .error e) => (s, .error e)
    | (s, .ok v) => (s.setDbLock false, .ok v)

/-- A method on the database behind `async with self.db_lock`. -/
def DbCall.locked (s : Server K) (op : DbCall) (fault : Option PyErr) :
    Server K × Except PyErr (Option Bytes) :=
  let s := s.setDbLock true
  let o : Server K × Except PyErr (Option Bytes) := match fault with
    | some e => (s, .error e)
    | none => op.run s
  (o.1.setDbLock false, o.2)

/-- What happens next. -/
inductive DbAct where
  | server (a : Act)
  /-- a dict-style operation gets the lock -/
  | dict (op : DictOp) (fault : Option PyErr)
  /-- a method gets the lock -/
  | call (op : DbCall) (fault : Option PyErr)
  /-- the handler of a connection gets the lock, and the dictionary raises -/
  | broken (c : ConnId) (e : PyErr)

/-- **One step.**  Nobody gets a lock that is taken. -/
def Sys.dbStep (S : Sys K) : DbAct → Option (Sys K × List (Obs K))
  | .server a => S.step L a
  | .dict op fault =>
    if S.server.dbLock then none else some (⟨(op.run S.server fault).1, S.tasks⟩, [])
  | .call op fault =>
    if S.server.dbLock then none else some (⟨(op.locked S.server fault).1, S.tasks⟩, [])
  | .broken c e => match S.tasks c with
    | .handler h => match h.pc with
      | .dbLock _ =>
        if S.server.dbLock then none
        else
          let (s, t, os) := raised (S.server.setDbLock true) .dbLock e
          some (S.put c s t, os)
      | _ => none
    | _ => none

/-- The dict-style operation does not raise: the dictionary does not, and indexing and
    deletion find their key. -/
def DictOp.Finds (s : Server K) : DictOp → Prop
  | .getitem key | .delitem key => key ∈ s.db
  | _ => True

/-- A dict-style operation of the step does not raise. -/
def DbAct.Returns (S : Sys K) : DbAct → Prop
  | .dict op fault => fault = none ∧ op.Finds S.server
  | _ => True

/-! ## The lock -/

/-- The coroutine uses the database. -/
def Task.HoldsDb : Task (Accepting K) → Prop
  | .handler h => h.pc.held = .dbLock
  | _ => False

/-- `db_lock` and the coroutines inside. -/
def dbMutex : Mutex (Sys K) ConnId where
  taken S := S.server.dbLock = true
  holds S c := (S.tasks c).HoldsDb

section
variable {s : Server K} {c : ConnId} {h : Handler} {i : Input} {draw : Uuid4}
  {out : Outcome K (Accepting K)}

/-- What a step of a coroutine does to the lock: nothing, or it takes it, or it gives it
    back. -/
inductive Locks (s : Server K) (t : Task (Accepting K)) (out : Outcome K (Accepting K)) : Prop
  | keep : out.1.dbLock = s.dbLock → ¬ t.HoldsDb → ¬ out.2.1.HoldsDb → Locks s t out
  | take : s.dbLock = false → out.1.dbLock = true → ¬ t.HoldsDb → out.2.1.HoldsDb → Locks s t out
  | release : out.1.dbLock = false → t.HoldsDb → ¬ out.2.1.HoldsDb → Locks s t out

theorem Locks.seen {t : Task (Accepting K)} (hl : Locks s t out) (os : List (Obs K)) :
    Locks s t (seen os out) := by
  cases hl with
  | keep h₁ h₂ h₃ => exact .keep h₁ h₂ h₃
  | take h₁ h₂ h₃ h₄ => exact .take h₁ h₂ h₃ h₄
  | release h₁ h₂ h₃ => exact .release h₁ h₂ h₃

theorem Task.Outside.not_holds {t : Task (Accepting K)} (h : t.Outside) : ¬ t.HoldsDb := by
  cases t with
  | handler h' => exact h.elim
  | _ => exact id

theorem release_dbLock {held : Held} (h : held ≠ .dbLock) (s : Server K) :
    (s.release held).dbLock = s.dbLock := by
  cases held with
  | dbLock => exact absurd rfl h
  | _ => rfl

/-- Sending a reply without the lock. -/
theorem Sends.not_holds {reply : Except PyErr Bytes} {held : Held} {after : After}
    (hs : Sends L s c h reply held after out) (hheld : held ≠ .dbLock) :
    out.1.dbLock = s.dbLock ∧ ¬ out.2.1.HoldsDb := by
  cases hs with
  | fail => exact ⟨release_dbLock hheld s, id⟩
  | start => exact ⟨rfl, hheld⟩

theorem dbOp_dbLock (op : DbOp) (s : Server K) (value : Bytes) :
    (op.run s value).1.dbLock = s.dbLock := by
  cases op with
  | set => simp only [DbOp.run]; split <;> rfl
  | get => rfl
  | delete => simp only [DbOp.run]; split_ifs <;> rfl
  | list => rfl

theorem Await.Reads.not_holds (hr : h.pc.Reads) : ¬ (Task.handler (A := Accepting K) h).HoldsDb := by
  intro hheld
  simp only [Task.HoldsDb] at hheld
  cases hpc : h.pc with
  | sendall held after =>
    rw [hpc] at hr hheld
    cases hheld
    exact hr
  | _ => rw [hpc] at hheld; cases hheld

/-- **A step of a handler and the lock.** -/
theorem Move.locks (hm : Move L s c h i draw out) : Locks s (.handler h) out := by
  have hpc : ∀ {pc : Await}, h.pc = pc → pc.held ≠ .dbLock →
      ¬ (Task.handler (A := Accepting K) h).HoldsDb := by
    intro pc hp hheld hh
    rw [← hp] at hheld
    exact hheld hh
  have hsend : ∀ {s' : Server K} {h' : Handler} {reply : Except PyErr Bytes} {held : Held}
      {after : After} {out : Outcome K (Accepting K)}, Sends L s' c h' reply held after out →
      held ≠ .dbLock → s'.dbLock = s.dbLock → ¬ (Task.handler (A := Accepting K) h).HoldsDb →
      Locks s (.handler h) out := by
    intro s' h' reply held after out hs hheld hlock hh
    obtain ⟨h₁, h₂⟩ := hs.not_holds L hheld
    exact .keep (h₁.trans hlock) hh h₂
  cases hm with
  | still hr ht hin =>
    refine .keep rfl hr.not_holds ?_
    rename_i t os
    cases t with
    | handler h' =>
      obtain ⟨-, hpc | hpc | hpc⟩ := ht
      · simp [Task.HoldsDb, hpc, Await.held]
      · simp [Task.HoldsDb, hpc, Await.held]
      · simp [Task.HoldsDb, hpc, Await.held]
    | _ => exact id
  | refuse hr _ _ _ hs => exact (hsend hs (by simp) rfl hr.not_holds).seen _
  | payload hr hu hid hv hin hp =>
    rename_i r h' frame rem os out
    have haside := (dispatch_aside (s.modify r Client.received) h.uuid h'.data draw).dbLock
    refine Locks.seen ?_ _
    cases hp with
    | reply _ hs => exact hsend hs (by simp) haside hr.not_holds
    | wait hw =>
      refine .keep haside hr.not_holds ?_
      obtain ⟨_, _, -, -, ⟨_, -, rfl⟩ | ⟨_, -, -, rfl⟩ | ⟨_, _, -, -, rfl⟩ | ⟨_, -, -, rfl⟩⟩ :=
        dispatch_wait hw
      · simp [Task.HoldsDb, Await.held]
      · simp [Task.HoldsDb, Await.held]
      · simp [Task.HoldsDb, Await.held]
      · simp [Task.HoldsDb, Await.held]
    | raise => exact .keep haside hr.not_holds id
    | bye => exact .keep ((teardown_aside _ _).dbLock.trans haside) hr.not_holds id
  | db hp hi hfree hs =>
    rename_i op
    have hlock : (op.run (s.setDbLock true) h.data.tail).1.dbLock = true := dbOp_dbLock _ _ _
    cases hs with
    | fail => exact .keep hfree.symm (hpc hp (by simp [Await.held])) id
    | start => exact .take hfree hlock (hpc hp (by simp [Await.held])) rfl
  | inboxGet hp _ _ hs => exact hsend hs (by simp) rfl (hpc hp (by simp [Await.held]))
  | outboxPut hp _ _ hs => exact hsend hs (by simp) rfl (hpc hp (by simp [Await.held]))
  | outboxNone hp _ _ _ hs => exact hsend hs (by simp) rfl (hpc hp (by simp [Await.held]))
  | outboxGet hp _ _ _ hs => exact hsend hs (by simp) rfl (hpc hp (by simp [Await.held]))
  | sent hp =>
    rename_i held r _ _
    by_cases hheld : held = .dbLock
    · subst hheld
      exact .release rfl (by simp [Task.HoldsDb, hp, Await.held]) (by simp [Task.HoldsDb, Await.held])
    · exact .keep (release_dbLock hheld _) (hpc hp hheld) (by simp [Task.HoldsDb, Await.held])
  | close hp =>
    rename_i held r _ _
    by_cases hheld : held = .dbLock
    · subst hheld
      exact .release (teardown_aside _ _).dbLock (by simp [Task.HoldsDb, hp, Await.held]) id
    · exact .keep ((teardown_aside _ _).dbLock.trans (release_dbLock hheld _)) (hpc hp hheld) id
  | die =>
    by_cases hheld : h.pc.held = .dbLock
    · exact .release (by rw [hheld]; rfl) hheld id
    · exact .keep (release_dbLock hheld _) hheld id

/-- A step of the handshake leaves the lock alone. -/
theorem Joins.locks {a : Accepting K} (hj : Joins s c draw a out) : Locks s (.accept a) out := by
  have haside := hj.aside.dbLock
  cases hj with
  | still ht => exact .keep haside id ht.not_holds
  | login ht =>
    refine .keep haside id ?_
    rcases ht with rfl | ht
    · exact id
    · exact ht.not_holds
  | attach _ ht =>
    refine .keep haside id ?_
    rcases ht with rfl | ht
    · exact id
    · exact ht.not_holds
  | unknown => exact .keep haside id (by simp [Task.HoldsDb, Await.held])
  | finish => exact .keep haside id (by simp [Task.HoldsDb, Await.held])

end

section
variable {S S' : Sys K} {a : DbAct} {o : List (Obs K)}

/-- The coroutine of a connection takes the lock, gives it back, or leaves it. -/
theorem put_locks {c : ConnId} {s : Server K} {t : Task (Accepting K)}
    (h : Locks S.server (S.tasks c) (s, t, o)) : dbMutex.Step S (S.put c s t) := by
  have hothers : ∀ c', c' ≠ c → (((S.put c s t).tasks c').HoldsDb ↔ (S.tasks c').HoldsDb) := by
    intro c' hc
    rw [put_tasks_ne hc]
  cases h with
  | keep hlock hbefore hafter =>
    have hlock : s.dbLock = S.server.dbLock := hlock
    refine .keep (by simp only [dbMutex, put_server, hlock]) fun c' => ?_
    by_cases hc : c' = c
    · subst hc
      exact iff_of_false (by simpa [dbMutex] using hafter) hbefore
    · exact hothers c' hc
  | take hfree htaken hbefore hafter =>
    refine .take c (by simp [dbMutex, hfree]) htaken fun c' => ?_
    by_cases hc : c' = c
    · subst hc
      exact iff_of_true (by simpa [dbMutex] using hafter) (.inl rfl)
    · exact (hothers c' hc).trans ⟨.inr, fun h => h.resolve_left hc⟩
  | release hfree hbefore hafter =>
    have hfree : s.dbLock = false := hfree
    refine .release c hbefore (by simp [dbMutex, hfree]) fun c' => ?_
    by_cases hc : c' = c
    · subst hc
      exact iff_of_false (by simpa [dbMutex] using hafter) fun h => h.1 rfl
    · exact (hothers c' hc).trans ⟨fun h => ⟨hc, h⟩, fun h => h.2⟩

/-- A step of the server and the lock. -/
theorem step_locks (htidy : ∀ c, (S.tasks c).Tidy) {a : Act} (hstep : S.step L a = some (S', o)) :
    dbMutex.Step S S' := by
  cases (step_step L htidy hstep).1 with
  | connect hidle =>
    refine put_locks (o := []) (.keep rfl ?_ id)
    rw [hidle]
    exact id
  | join htask hj => exact put_locks (by rw [htask]; exact hj.locks)
  | move htask hm => exact put_locks (by rw [htask]; exact hm.locks L)
  | admin =>
    rename_i op
    refine .keep ?_ fun _ => .rfl
    simp only [dbMutex, (admin_aside S.server op).dbLock]

theorem DictOp.body_dbLock (s : Server K) (op : DictOp) : (op.body s).1.dbLock = s.dbLock := by
  cases op with
  | getitem key => simp only [DictOp.body]; split <;> rfl
  | delitem key => simp only [DictOp.body]; split_ifs <;> rfl
  | _ => rfl

/-- A dict-style operation raises exactly if its key is missing. -/
theorem DictOp.body_ok (s : Server K) (op : DictOp) :
    (∃ v, (op.body s).2 = .ok v) ↔ op.Finds s := by
  cases op with
  | getitem key =>
    simp only [DictOp.body, DictOp.Finds]
    rw [Dict.mem_iff]
    rcases s.db.get? key with _ | v
    · simp
    · simp
  | delitem key =>
    simp only [DictOp.body, DictOp.Finds]
    split_ifs with h
    · simp [h]
    · simp [h]
  | _ => simp [DictOp.body, DictOp.Finds]

/-- A dict-style operation gives the lock back exactly if it does not raise. -/
theorem DictOp.run_dbLock (s : Server K) (op : DictOp) (fault : Option PyErr) :
    (op.run s fault).1.dbLock = false ↔ fault = none ∧ op.Finds s := by
  have hfinds : op.Finds (s.setDbLock true) ↔ op.Finds s := by cases op <;> exact .rfl
  rw [← hfinds, ← DictOp.body_ok]
  have hbody : (op.body (s.setDbLock true)).1.dbLock = true := DictOp.body_dbLock _ op
  unfold DictOp.run
  cases fault with
  | some e => simp [Server.setDbLock]
  | none =>
    simp only [true_and]
    rcases hx : op.body (s.setDbLock true) with ⟨s', e | v⟩
    · rw [hx] at hbody
      exact iff_of_false (by simpa using hbody) (by simp)
    · exact iff_of_true rfl ⟨v, rfl⟩

/-- **A step and the lock**: a dict-style operation that raises leaves it taken. -/
theorem dbStep_locks (htidy : ∀ c, (S.tasks c).Tidy) (hstep : S.dbStep L a = some (S', o)) :
    (a.Returns S ∧ dbMutex.Step S S') ∨
    (¬ a.Returns S ∧ S.server.dbLock = false ∧ S'.server.dbLock = true ∧ S'.tasks = S.tasks) := by
  cases a with
  | server a => exact .inl ⟨trivial, step_locks L htidy hstep⟩
  | dict op fault =>
    simp only [Sys.dbStep] at hstep
    split_ifs at hstep with hfree
    cases hstep
    have hfree : S.server.dbLock = false := by simpa using hfree
    have hrun := DictOp.run_dbLock S.server op fault
    by_cases hret : fault = none ∧ op.Finds S.server
    · exact .inl ⟨hret, .keep (by simp [dbMutex, hfree, hrun.2 hret]) fun _ => .rfl⟩
    · refine .inr ⟨hret, hfree, ?_, rfl⟩
      simpa using fun h => hret (hrun.1 h)
  | call op fault =>
    simp only [Sys.dbStep] at hstep
    split_ifs at hstep with hfree
    cases hstep
    refine .inl ⟨trivial, .keep ?_ fun _ => .rfl⟩
    simp [dbMutex, DbCall.locked, Server.setDbLock, hfree]
  | broken c e =>
    refine .inl ⟨trivial, ?_⟩
    simp only [Sys.dbStep] at hstep
    split at hstep
    · rename_i h htask
      split at hstep
      · rename_i op hpc
        split_ifs at hstep with hfree
        cases hstep
        refine put_locks (o := []) (.keep ?_ ?_ id)
        · simpa [raised, Server.release, Server.setDbLock] using hfree
        · rw [htask]
          simp [Task.HoldsDb, hpc, Await.held]
      · cases hstep
    · cases hstep

/-- No step of these leaves a handler with a lock while it sends an error about a header. -/
theorem dbStep_tidy (htidy : ∀ c, (S.tasks c).Tidy) (hstep : S.dbStep L a = some (S', o)) (c : ConnId) :
    (S'.tasks c).Tidy := by
  cases a with
  | server a => exact (step_step L htidy hstep).2 c
  | dict op fault =>
    simp only [Sys.dbStep] at hstep
    split_ifs at hstep
    cases hstep
    exact htidy c
  | call op fault =>
    simp only [Sys.dbStep] at hstep
    split_ifs at hstep
    cases hstep
    exact htidy c
  | broken c' e =>
    simp only [Sys.dbStep] at hstep
    split at hstep
    · split at hstep
      · split_ifs at hstep
        cases hstep
        by_cases hc : c = c'
        · subst hc; simp [raised, Task.Tidy]
        · rw [put_tasks_ne hc]; exact htidy c
      · cases hstep
    · cases hstep

variable {xs : List (Lts.Shown (Sys K) DbAct (Obs K))}

/-- The lock is sound, or a dict-style operation raised and it is lost. -/
theorem run_locks {password : Bytes} {keep : Bool}
    (hrun : Lts.Run (Lts.Guarded (Lts.shown (Sys.dbStep L)) (Lts.Showing fun _ _ _ => True))
      (.init password keep) S xs) :
    (∀ c, (S.tasks c).Tidy) ∧
      ((dbMutex.Sound S ∧ ∀ x ∈ xs, x.act.Returns x.before) ∨
        dbMutex.Lost S ∧ ∃ x ∈ xs, ¬ x.act.Returns x.before) := by
  refine hrun.inv (I := fun S xs => (∀ c, (S.tasks c).Tidy) ∧
    ((dbMutex.Sound S ∧ ∀ x ∈ xs, x.act.Returns x.before) ∨
      dbMutex.Lost S ∧ ∃ x ∈ xs, ¬ x.act.Returns x.before)) ⟨fun _ => trivial, .inl ⟨?_, by simp⟩⟩ ?_
  · exact ⟨fun h => (by cases h), fun _ h => h.elim, fun _ _ h => h.elim⟩
  · rintro S S' xs new - ⟨htidy, hI⟩ ⟨a, hs, -⟩
    obtain ⟨o, hstep, rfl⟩ := Lts.shown_step hs
    refine ⟨dbStep_tidy L htidy hstep, ?_⟩
    obtain ⟨hret, hmutex⟩ | ⟨hret, hfree, htaken, htasks⟩ := dbStep_locks L htidy hstep
    · rcases hI with ⟨hsound, hall⟩ | ⟨hlost, x, hx, hno⟩
      · refine .inl ⟨hsound.step hmutex, fun x hx => ?_⟩
        rcases List.mem_append.1 hx with hx | hx
        · exact hall x hx
        · rw [List.mem_singleton] at hx
          subst hx
          exact hret
      · exact .inr ⟨hlost.step hmutex, x, List.mem_append_left _ hx, hno⟩
    · rcases hI with ⟨hsound, -⟩ | ⟨hlost, -⟩
      · refine .inr ⟨hsound.leak (by simp [dbMutex, hfree]) htaken fun c => ?_, _,
          List.mem_append_right _ List.mem_cons_self, hret⟩
        simp only [dbMutex, htasks]
      · have htaken : S.server.dbLock = true := hlost.1
        rw [hfree] at htaken
        cases htaken

/-- **The database lock is given back**: whenever nobody uses the database it is free,
    exactly if no dict-style operation raised, by a missing key or in the dictionary. -/
theorem db_lock_free_iff {password : Bytes} {keep : Bool}
    (hrun : Lts.Run (Lts.Guarded (Lts.shown (Sys.dbStep L)) (Lts.Showing fun _ _ _ => True))
      (.init password keep) S xs) :
    (S.server.dbLock = true → ∃ c, (S.tasks c).HoldsDb) ↔ ∀ x ∈ xs, x.act.Returns x.before := by
  obtain ⟨-, ⟨hsound, hall⟩ | ⟨hlost, x, hx, hno⟩⟩ := run_locks L hrun
  · exact iff_of_true hsound.held hall
  · exact iff_of_false hlost.not_held fun hall => hno (hall x hx)

end

/-! ## Runs on fixed inputs -/

instance (s : Server K) (op : DictOp) : Decidable (op.Finds s) := by
  cases op <;> unfold DictOp.Finds <;> infer_instance

instance (S : Sys K) (a : DbAct) : Decidable (a.Returns S) := by
  cases a <;> unfold DbAct.Returns <;> infer_instance

instance : ∀ t : Task (Accepting K), Decidable t.HoldsDb
  | .handler h => inferInstanceAs (Decidable (h.pc.held = .dbLock))
  | .idle | .accept _ | .over _ => isFalse id

/-- A method sets a value, a client asks for it, and it is indexed and deleted. -/
def dbActs : List DbAct :=
  .call (.set [107] [118]) none :: (loginActs 0 [0xC5] ++
      drawing sampleDraw 0 [.recv (stubPacket 0 2 [0x82, 107]), .go, .sent]).map .server ++
    [.dict (.getitem [107]) none, .dict (.delitem [107]) none]

/-- Every key is found, and nobody uses the database at the end. -/
theorem db_lock_free_sample : ∃ (S : Sys ℕ) (xs : List (Lts.Shown (Sys ℕ) DbAct (Obs ℕ))),
    xs.length = 15 ∧ (S.server.dbLock = true → ∃ c, (S.tasks c).HoldsDb) := by
  have hexec : ((Lts.exec (Lts.shown (Sys.dbStep stub)) dbActs (.init [] false)).any fun x =>
      x.2.length = 15 && x.2.all fun y => y.act.Returns y.before) = true := by decide +kernel
  have halong : Lts.Along (Lts.shown (Sys.dbStep stub)) (Lts.Showing fun _ _ _ => True) dbActs
      (.init [] false) := by decide +kernel
  obtain ⟨⟨S, xs⟩, hS, hp⟩ := Option.any_eq_true _ _ |>.1 hexec
  simp only [Bool.and_eq_true, decide_eq_true_eq] at hp
  refine ⟨S, xs, hp.1, (db_lock_free_iff stub (Lts.exec_run hS halong)).2 fun x hx => ?_⟩
  exact of_decide_eq_true (List.all_eq_true.1 hp.2 x hx)

/-- **The lock is lost.**  `server[key]` with a missing key raises, and the lock stays taken
    while nobody uses the database: no later operation gets it. -/
theorem db_lock_lost : ∃ (S : Sys ℕ) (xs : List (Lts.Shown (Sys ℕ) DbAct (Obs ℕ))),
    Lts.Run (Lts.Guarded (Lts.shown (Sys.dbStep stub)) (Lts.Showing fun _ _ _ => True))
      (.init [] false) S xs ∧
      ¬ (S.server.dbLock = true → ∃ c, (S.tasks c).HoldsDb) ∧
      ∀ op fault, S.dbStep stub (.dict op fault) = none := by
  have hexec : ((Lts.exec (Lts.shown (Sys.dbStep stub)) [.dict (.getitem [107]) none]
      (.init [] false)).any fun x => x.1.server.dbLock) = true := by decide +kernel
  have halong : Lts.Along (Lts.shown (Sys.dbStep stub)) (Lts.Showing fun _ _ _ => True)
      [.dict (.getitem [107]) none] (.init [] false) := by decide +kernel
  obtain ⟨⟨S, xs⟩, hS, hlock⟩ := Option.any_eq_true _ _ |>.1 hexec
  have hlock : S.server.dbLock = true := hlock
  have htasks : S.tasks = fun _ => .idle := by
    cases hS
    rfl
  refine ⟨S, xs, Lts.exec_run hS halong, fun h => ?_, fun op fault => by simp [Sys.dbStep, hlock]⟩
  obtain ⟨c, hc⟩ := h hlock
  rw [htasks] at hc
  exact hc

end Pipebomb
