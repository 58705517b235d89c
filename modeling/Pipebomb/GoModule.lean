/-
  The module `gsyncio` over the Go library.

  A caller draws an id from `_GetNextTaskId`, a counter that is returned as a `C.int`, and
  starts its callback under it.  The module keeps a cancel flag for each id: `CancelGoTask`
  sets it, after `_CancelGoTask` has replaced the pointer to it.

  * `GoModule`: the library, the counter, the flags, and where the callers are;
    `GoModule.step`.  Callers start tasks under ids they drew, and cancel any ids.
  * `GoModule.Drawn`: the ids that were drawn are different, as long as there are no more
    than a `C.int` has values.
  * `GoModule.Flagged`: what the flags and the pointers to them tell about cancels.
  * `go_module_life`: a callback is called once, unless its own task was cancelled.
-/
import Pipebomb.GoTasks

namespace Pipebomb

/-- The module, with the library that it loaded. -/
structure GoModule where
  lib : Sched
  nextTaskId : ℤ
  /-- `_cancel_flags`, by the addresses of the flags -/
  cancelFlags : Dict ℤ ℕ
  /-- how many flags `ffi.new` made -/
  flags : ℕ
  /-- ids that callers drew and did not use yet -/
  drawn : List ℤ
  /-- calls of `StartGoTaskWithResult` that have a flag and did not call the library yet -/
  starting : List (ℤ × ℕ)
  /-- calls of `CancelGoTask` that returned from the library -/
  cancelling : List ℤ

inductive ModuleAct
  | getNextTaskId
  /-- `StartGoTaskWithResult` makes the flag -/
  | newFlag (id : ℤ)
  /-- it calls the library -/
  | startGoTaskWithResult (id : ℤ) (canceled : ℕ)
  | startGoTask (id : ℤ)
  /-- `CancelGoTask` calls the library, which takes the lock -/
  | cancelGoTask (id : ℤ)
  /-- the library returns to it -/
  | canceled
  /-- `flag[0] = 1` -/
  | setFlag (id : ℤ)
  | isCanceled (id : ℤ)
  | go (g : ℕ)
  deriving DecidableEq

namespace GoModule

def init : GoModule := ⟨.init, 1, .empty, 0, [], [], []⟩

/-- A call of the library. -/
def call (M : GoModule) (a : GoAct) : Option (GoModule × List GoObs) :=
  match M.lib.step a with
  | none => none
  | some (S, o) => some ({ M with lib := S }, o)

/-- `_GetNextTaskId`; a `C.int` has 32 bits. -/
def getNextTaskId (M : GoModule) : Option (GoModule × List GoObs) :=
  if M.lib.cancelling = none then
    some ({ M with nextTaskId := M.nextTaskId + 1, drawn := M.drawn ++ [M.nextTaskId.bmod (2 ^ 32)] }, [])
  else none

/-- `canceled_flag = ffi.new("int32_t *", 0)`, under the id in `_cancel_flags`. -/
def newFlag (M : GoModule) (id : ℤ) : Option (GoModule × List GoObs) :=
  if id ∈ M.drawn then
    { M with
      cancelFlags := M.cancelFlags.set id M.flags
      flags := M.flags + 1
      drawn := M.drawn.erase id
      starting := M.starting ++ [(id, M.flags)] }.call (.write M.flags 0)
  else none

def startGoTaskWithResult (M : GoModule) (id : ℤ) (canceled : ℕ) : Option (GoModule × List GoObs) :=
  if (id, canceled) ∈ M.starting then
    { M with starting := M.starting.erase (id, canceled) }.call (.startGoTaskWithResult id canceled)
  else none

def startGoTask (M : GoModule) (id : ℤ) : Option (GoModule × List GoObs) :=
  if id ∈ M.drawn then { M with drawn := M.drawn.erase id }.call (.startGoTask id) else none

def canceled (M : GoModule) : Option (GoModule × List GoObs) :=
  match M.lib.cancelling with
  | none => none
  | some id => { M with cancelling := M.cancelling ++ [id] }.call .canceled

def setFlag (M : GoModule) (id : ℤ) : Option (GoModule × List GoObs) :=
  if id ∈ M.cancelling then
    match M.cancelFlags.get? id with
    | none => some ({ M with cancelling := M.cancelling.erase id }, [])
    | some a => { M with cancelling := M.cancelling.erase id }.call (.write a 1)
  else none

def step (M : GoModule) : ModuleAct → Option (GoModule × List GoObs)
  | .getNextTaskId => M.getNextTaskId
  | .newFlag id => M.newFlag id
  | .startGoTaskWithResult id canceled => M.startGoTaskWithResult id canceled
  | .startGoTask id => M.startGoTask id
  | .cancelGoTask id => M.call (.cancelGoTask id)
  | .canceled => M.canceled
  | .setFlag id => M.setFlag id
  | .isCanceled id => M.call (.isCanceled id)
  | .go g => M.call (.go g)

/-- The counter did not come round. -/
def NoWrap (M : GoModule) (a : ModuleAct) (_ : List GoObs) : Prop :=
  a = .getNextTaskId → M.nextTaskId ≤ 2 ^ 32

instance (M : GoModule) (a : ModuleAct) (o : List GoObs) : Decidable (M.NoWrap a o) :=
  inferInstanceAs (Decidable (_ → _))

/-! ## What a step does -/

/-- Calls of the library that start no task and write no flag. -/
def StartsNone : GoAct → Prop
  | .cancelGoTask _ | .isCanceled _ | .go _ | .canceled => True
  | .startGoTaskWithResult _ _ | .startGoTask _ | .write _ _ => False

/-- **What a step does.** -/
inductive Does (M : GoModule) : GoModule → List GoObs → Prop
  | draw : M.nextTaskId ≤ 2 ^ 32 → Does M { M with
      nextTaskId := M.nextTaskId + 1
      drawn := M.drawn ++ [M.nextTaskId.bmod (2 ^ 32)] } []
  | flag {id : ℤ} : id ∈ M.drawn → Does M { M with
      lib := { M.lib with flags := fun b => if b = M.flags then 0 else M.lib.flags b }
      cancelFlags := M.cancelFlags.set id M.flags
      flags := M.flags + 1
      drawn := M.drawn.erase id
      starting := M.starting ++ [(id, M.flags)] } []
  | start {id : ℤ} {a : ℕ} {S : Sched} {o : List GoObs} : (id, a) ∈ M.starting →
      M.lib.startGoTaskWithResult id a = some (S, o) →
      Does M { M with lib := S, starting := M.starting.erase (id, a) } o
  | plain {id : ℤ} {S : Sched} {o : List GoObs} : id ∈ M.drawn → M.lib.startGoTask id = some (S, o) →
      Does M { M with lib := S, drawn := M.drawn.erase id } o
  | returns {id : ℤ} : M.lib.cancelling = some id → Does M { M with
      lib := { M.lib with cancellationMap := M.lib.cancellationMap.set id true, cancelling := none }
      cancelling := M.cancelling ++ [id] } [.canceled id]
  | unflagged {id : ℤ} : Does M { M with cancelling := M.cancelling.erase id } []
  | set {id : ℤ} {a : ℕ} : id ∈ M.cancelling → M.cancelFlags.get? id = some a →
      Does M { M with
        lib := { M.lib with flags := fun b => if b = a then 1 else M.lib.flags b }
        cancelling := M.cancelling.erase id } []
  | lib {b : GoAct} {S : Sched} {o : List GoObs} : StartsNone b → M.lib.step b = some (S, o) →
      Does M { M with lib := S } o

variable {M M' : GoModule} {os o : List GoObs} {a : ModuleAct} {g : ℕ} {id : ℤ}

theorem call_eq {b : GoAct} (h : M.call b = some (M', o)) :
    ∃ S, M.lib.step b = some (S, o) ∧ M' = { M with lib := S } := by
  unfold call at h
  rcases hs : M.lib.step b with _ | ⟨S, o'⟩
  · rw [hs] at h
    cases h
  · rw [hs] at h
    cases h
    exact ⟨S, rfl, rfl⟩

theorem step_does (h : M.step a = some (M', o)) (hok : M.NoWrap a o) : Does M M' o := by
  cases a with
  | getNextTaskId =>
    simp only [step, getNextTaskId] at h
    split at h
    · cases h
      exact .draw (hok rfl)
    · cases h
  | newFlag id =>
    simp only [step, newFlag] at h
    split at h
    · rename_i hid
      cases h
      exact .flag hid
    · cases h
  | startGoTaskWithResult id a =>
    simp only [step, startGoTaskWithResult] at h
    split at h
    · rename_i hid
      obtain ⟨S, hs, rfl⟩ := call_eq h
      exact .start hid hs
    · cases h
  | startGoTask id =>
    simp only [step, startGoTask] at h
    split at h
    · rename_i hid
      obtain ⟨S, hs, rfl⟩ := call_eq h
      exact .plain hid hs
    · cases h
  | cancelGoTask id =>
    obtain ⟨S, hs, rfl⟩ := call_eq h
    exact .lib (b := .cancelGoTask id) trivial hs
  | canceled =>
    simp only [step, canceled] at h
    split at h
    · cases h
    · rename_i id hid
      obtain ⟨S, hs, rfl⟩ := call_eq h
      simp only [Sched.step, hid] at hs
      cases hs
      exact .returns hid
  | setFlag id =>
    simp only [step, setFlag] at h
    split at h
    · rename_i hid
      rcases ha : M.cancelFlags.get? id with _ | a
      · rw [ha] at h
        cases h
        exact .unflagged
      · rw [ha] at h
        cases h
        exact .set hid ha
    · cases h
  | isCanceled id =>
    obtain ⟨S, hs, rfl⟩ := call_eq h
    exact .lib (b := .isCanceled id) trivial hs
  | go g =>
    obtain ⟨S, hs, rfl⟩ := call_eq h
    exact .lib (b := .go g) trivial hs

/-- A step of the module is a step of the library, or leaves it alone. -/
theorem Does.library (h : Does M M' o) : M'.lib = M.lib ∧ o = [] ∨ ∃ b, M.lib.step b = some (M'.lib, o) := by
  cases h with
  | draw _ => exact .inl ⟨rfl, rfl⟩
  | flag _ => exact .inr ⟨.write M.flags 0, rfl⟩
  | start _ hs => exact .inr ⟨.startGoTaskWithResult _ _, hs⟩
  | plain _ hs => exact .inr ⟨.startGoTask _, hs⟩
  | returns hid => exact .inr ⟨.canceled, by simp only [Sched.step, hid]⟩
  | unflagged => exact .inl ⟨rfl, rfl⟩
  | @set _ a _ _ => exact .inr ⟨.write a 1, rfl⟩
  | @lib b _ _ _ hs => exact .inr ⟨b, hs⟩

/-- Runs of the module while the counter does not come round. -/
def Steps : GoModule → GoModule → List GoObs → Prop := Lts.Guarded step NoWrap

theorem lib_run (hrun : Lts.Run Steps init M os) : Lts.Run Sched.Steps .init M.lib os := by
  refine hrun.inv (I := fun (M : GoModule) os => Lts.Run Sched.Steps .init M.lib os) .nil ?_
  rintro M M' os o - ih ⟨a, hs, hok⟩
  rcases (step_does hs hok).library with ⟨hlib, rfl⟩ | ⟨b, hb⟩
  · rw [hlib, List.append_nil]
    exact ih
  · exact ih.snoc ⟨b, hb, trivial⟩

/-! ## The ids -/

/-- The ids of the tasks that were started. -/
def startedIds (os : List GoObs) : List ℤ :=
  os.filterMap fun
    | .started _ _ id => some id
    | _ => none

theorem startedIds_append : startedIds (os ++ o) = startedIds os ++ startedIds o := List.filterMap_append

theorem mem_startedIds : id ∈ startedIds os ↔ ∃ g, Sched.Started os g id := by
  constructor
  · intro h
    obtain ⟨x, hx, he⟩ := List.mem_filterMap.1 h
    cases x with
    | started c g id' =>
      cases he
      exact ⟨g, c, hx⟩
    | _ => cases he
  · rintro ⟨g, c, h⟩
    exact List.mem_filterMap.2 ⟨_, h, rfl⟩

theorem startedIds_eq_nil (h : ∀ g id, ¬ Sched.Started o g id) : startedIds o = [] :=
  List.eq_nil_iff_forall_not_mem.2 fun id hid => by
    obtain ⟨g, hg⟩ := mem_startedIds.1 hid
    exact h g id hg

/-- The ids that callers have, and those of the tasks. -/
def used (M : GoModule) (os : List GoObs) : List ℤ :=
  M.drawn ++ (M.starting.map Prod.fst ++ startedIds os)

/-- **What is drawn is used once.** -/
structure Drawn (M : GoModule) (os : List GoObs) : Prop where
  pos : 1 ≤ M.nextTaskId
  nodup : (M.used os).Nodup
  counted : ∀ id ∈ M.used os, ∃ k, 1 ≤ k ∧ k < M.nextTaskId ∧ id = k.bmod (2 ^ 32)

/-- A start. -/
theorem enter_eq {S S' : Sched} {checks : Bool} {t : GoTask} (h : S.enter checks t = some (S', o)) :
    S.cancelling = none ∧ S' = { S with
      cancellationMap := S.cancellationMap.set t.id false
      callbacks := S.callbacks.set t.id S.tasks.length
      tasks := S.tasks ++ [t] } ∧ o = [.started checks S.tasks.length t.id] := by
  unfold Sched.enter at h
  split at h
  · rename_i hfree
    cases h
    exact ⟨hfree, rfl, rfl⟩
  · cases h

/-- Such a call starts no task and writes no flag. -/
theorem plain_step {S S' : Sched} {b : GoAct} (hb : StartsNone b) (h : S.step b = some (S', o)) :
    (∀ g id, ¬ Sched.Started o g id) ∧ S'.flags = S.flags := by
  cases b with
  | startGoTaskWithResult id a => exact hb.elim
  | startGoTask id => exact hb.elim
  | write a v => exact hb.elim
  | cancelGoTask id' =>
    simp only [Sched.step, Sched.cancelGoTask] at h
    split at h
    · cases h
      exact ⟨fun _ _ => Sched.not_started_nil, rfl⟩
    · cases h
  | canceled =>
    simp only [Sched.step] at h
    split at h
    · cases h
      exact ⟨fun _ _ => Sched.not_started (by simp), rfl⟩
    · cases h
  | isCanceled id' =>
    simp only [Sched.step] at h
    split at h
    · cases h
      exact ⟨fun _ _ => Sched.not_started (by simp), rfl⟩
    · cases h
  | go g =>
    simp only [Sched.step, Sched.go] at h
    rcases ht : S.tasks[g]? with _ | t
    · rw [ht] at h
      cases h
    · rw [ht] at h
      rcases hpc : t.pc with _ | p | _ | _ | _ | _
      · simp only [hpc] at h
        cases h
        exact ⟨fun _ _ => Sched.not_started (by simp), rfl⟩
      · simp only [hpc] at h
        cases h
        exact ⟨fun _ _ => Sched.not_started_nil, rfl⟩
      · simp only [hpc] at h
        cases h
        exact ⟨fun _ _ => Sched.not_started (by simp), rfl⟩
      · simp only [hpc] at h
        cases h
        exact ⟨fun _ _ => Sched.not_started_nil, rfl⟩
      · simp only [hpc] at h
        split at h
        · cases h
          exact ⟨fun _ _ => Sched.not_started (by simp), rfl⟩
        · cases h
      · simp only [hpc] at h
        cases h

/-- A step draws an id, or hands ids on. -/
theorem Does.used (os : List GoObs) (h : Does M M' o) :
    (M'.used (os ++ o)).Perm (M.used os) ∧ M'.nextTaskId = M.nextTaskId ∨
    M.nextTaskId ≤ 2 ^ 32 ∧ (M'.used (os ++ o)).Perm (M.nextTaskId.bmod (2 ^ 32) :: M.used os) ∧
      M'.nextTaskId = M.nextTaskId + 1 := by
  have hquiet : M'.drawn = M.drawn → M'.starting = M.starting → (∀ g id, ¬ Sched.Started o g id) →
      (M'.used (os ++ o)).Perm (M.used os) := by
    intro hd hst ho
    rw [GoModule.used, GoModule.used, hd, hst, startedIds_append, startedIds_eq_nil ho, List.append_nil]
  cases h with
  | draw hle =>
    refine .inr ⟨hle, ?_, rfl⟩
    rw [List.append_nil, GoModule.used, List.append_assoc]
    exact List.perm_middle
  | @flag id hid =>
    refine .inl ⟨List.perm_iff_count.2 fun x => ?_, rfl⟩
    have hdrawn := (List.perm_cons_erase hid).count_eq x
    simp only [GoModule.used, List.append_nil, List.map_append, List.map_cons, List.map_nil, List.count_append,
      hdrawn, List.count_cons, List.count_nil]
    omega
  | @start id a S o hid hs =>
    refine .inl ⟨List.perm_iff_count.2 fun x => ?_, rfl⟩
    obtain ⟨-, -, rfl⟩ := enter_eq hs
    have hstarting := ((List.perm_cons_erase hid).map Prod.fst).count_eq x
    have hone : startedIds [.started true M.lib.tasks.length id] = [id] := rfl
    simp only [GoModule.used, startedIds_append, hone, List.count_append, hstarting, List.map_cons,
      List.count_cons, List.count_nil]
    omega
  | @plain id S o hid hs =>
    refine .inl ⟨List.perm_iff_count.2 fun x => ?_, rfl⟩
    obtain ⟨-, -, rfl⟩ := enter_eq hs
    have hdrawn := (List.perm_cons_erase hid).count_eq x
    have hone : startedIds [.started false M.lib.tasks.length id] = [id] := rfl
    simp only [GoModule.used, startedIds_append, hone, List.count_append, hdrawn, List.count_cons,
      List.count_nil]
    omega
  | returns _ => exact .inl ⟨hquiet rfl rfl fun g id => Sched.not_started (by simp), rfl⟩
  | unflagged => exact .inl ⟨hquiet rfl rfl fun g id => Sched.not_started_nil, rfl⟩
  | set _ _ => exact .inl ⟨hquiet rfl rfl fun g id => Sched.not_started_nil, rfl⟩
  | lib hb hs => exact .inl ⟨hquiet rfl rfl (plain_step hb hs).1, rfl⟩

/-- A `C.int` has room for the counter. -/
theorem bmod_inj {k m : ℤ} (hk : 1 ≤ k) (hkm : k < m) (hm : m ≤ 2 ^ 32) :
    k.bmod (2 ^ 32) ≠ m.bmod (2 ^ 32) := by
  intro he
  have hk' : k.bmod (2 ^ 32) % ((2 ^ 32 : ℕ) : ℤ) = k % ((2 ^ 32 : ℕ) : ℤ) := Int.bmod_emod
  have hm' : m.bmod (2 ^ 32) % ((2 ^ 32 : ℕ) : ℤ) = m % ((2 ^ 32 : ℕ) : ℤ) := Int.bmod_emod
  rw [he, hm'] at hk'
  omega

theorem Drawn.step (h : Drawn M os) (hs : Does M M' o) : Drawn M' (os ++ o) := by
  have hpos := h.pos
  rcases hs.used os with ⟨hperm, hnext⟩ | ⟨hle, hperm, hnext⟩
  · refine ⟨by omega, hperm.nodup_iff.2 h.nodup, fun id hid => ?_⟩
    obtain ⟨k, hk, hlt, rfl⟩ := h.counted id (hperm.mem_iff.1 hid)
    exact ⟨k, hk, by omega, rfl⟩
  · refine ⟨by omega, hperm.nodup_iff.2 (List.nodup_cons.2 ⟨fun hmem => ?_, h.nodup⟩), fun id hid => ?_⟩
    · obtain ⟨k, hk, hlt, he⟩ := h.counted _ hmem
      exact bmod_inj hk hlt hle he.symm
    · rcases List.mem_cons.1 (hperm.mem_iff.1 hid) with rfl | hid
      · exact ⟨M.nextTaskId, hpos, by omega, rfl⟩
      · obtain ⟨k, hk, hlt, rfl⟩ := h.counted id hid
        exact ⟨k, hk, by omega, rfl⟩

theorem drawn_init : Drawn init [] :=
  ⟨le_rfl, List.nodup_nil, fun _ h => by cases h⟩

theorem Drawn.run (hrun : Lts.Run Steps init M os) : Drawn M os :=
  hrun.inv (I := fun (M : GoModule) os => Drawn M os) drawn_init
    fun _ h ⟨_, hs, hok⟩ => h.step (step_does hs hok)

/-- An id that a caller has is the one of no task. -/
theorem Drawn.fresh (h : Drawn M os) (hid : id ∈ M.drawn ∨ id ∈ M.starting.map Prod.fst) :
    id ∉ startedIds os := by
  intro hst
  obtain ⟨-, hrest, hne⟩ := List.nodup_append.1 h.nodup
  rcases hid with hid | hid
  · exact hne id hid id (List.mem_append_right _ hst) rfl
  · exact (List.nodup_append.1 hrest).2.2 id hid id hst rfl

/-- **Starts are fresh.** -/
theorem starts_fresh (hrun : Lts.Run Steps init M os) : Lts.Each Sched.StartsFresh os := by
  refine hrun.inv (I := fun (_ : GoModule) os => Lts.Each Sched.StartsFresh os) .nil ?_
  rintro M M' os o hrun ih ⟨a, hs, hok⟩
  have hdrawn := Drawn.run hrun
  have hstart : ∀ {c : Bool} {id : ℤ}, id ∈ M.drawn ∨ id ∈ M.starting.map Prod.fst →
      Lts.Each Sched.StartsFresh (os ++ [.started c M.lib.tasks.length id]) := fun hid =>
    ih.snoc fun g hg => hdrawn.fresh hid (mem_startedIds.2 ⟨g, hg⟩)
  have hquiet : (∀ g id, ¬ Sched.Started o g id) → Lts.Each Sched.StartsFresh (os ++ o) := by
    intro ho
    refine ih.append (Lts.each_of_all fun before x hx => ?_)
    cases x with
    | started c g id => exact absurd ⟨c, hx⟩ (ho g id)
    | _ => trivial
  cases step_does hs hok with
  | draw _ => exact hquiet fun g id => Sched.not_started_nil
  | flag _ => exact hquiet fun g id => Sched.not_started_nil
  | start hid hs =>
    obtain ⟨-, -, rfl⟩ := enter_eq hs
    exact hstart (.inr (List.mem_map_of_mem hid))
  | plain hid hs =>
    obtain ⟨-, -, rfl⟩ := enter_eq hs
    exact hstart (.inl hid)
  | returns _ => exact hquiet fun g id => Sched.not_started (by simp)
  | unflagged => exact hquiet fun g id => Sched.not_started_nil
  | set _ _ => exact hquiet fun g id => Sched.not_started_nil
  | lib hb hs => exact hquiet (plain_step hb hs).1

/-! ## The flags -/

/-- **What the flags tell**: each id has its own, and one that is set belongs to an id that was
    cancelled. -/
structure Flagged (M : GoModule) (os : List GoObs) : Prop where
  keys : ∀ id a, M.cancelFlags.get? id = some a → id ∈ M.starting.map Prod.fst ∨ id ∈ startedIds os
  bounded : ∀ id a, M.cancelFlags.get? id = some a → a < M.flags
  own : ∀ id id' a, M.cancelFlags.get? id = some a → M.cancelFlags.get? id' = some a → id = id'
  starting : ∀ id a, (id, a) ∈ M.starting → M.cancelFlags.get? id = some a
  returned : ∀ id ∈ M.cancelling, .canceled id ∈ os
  set : ∀ a, M.lib.flags a ≠ 0 → ∃ id, M.cancelFlags.get? id = some a ∧ .canceled id ∈ os

theorem flagged_init : Flagged init [] where
  keys id a h := by cases h
  bounded id a h := by cases h
  own id id' a h := by cases h
  starting id a h := by cases h
  returned id h := by cases h
  set a h := absurd rfl h

/-- The callers do not move, and no flag is written. -/
theorem Flagged.mono (h : Flagged M os) (hflags : M'.lib.flags = M.lib.flags)
    (hkeys : M'.cancelFlags = M.cancelFlags) (hmade : M'.flags = M.flags)
    (hst : ∀ x ∈ M.starting.map Prod.fst, x ∈ M'.starting.map Prod.fst ∨ x ∈ startedIds o)
    (hst' : ∀ x ∈ M'.starting, x ∈ M.starting)
    (hret : ∀ id ∈ M'.cancelling, id ∈ M.cancelling ∨ .canceled id ∈ o) : Flagged M' (os ++ o) where
  keys id a hid := by
    rw [hkeys] at hid
    rw [startedIds_append, List.mem_append]
    rcases h.keys id a hid with hm | hm
    · rcases hst id hm with hm | hm
      · exact .inl hm
      · exact .inr (.inr hm)
    · exact .inr (.inl hm)
  bounded id a hid := by
    rw [hkeys] at hid
    rw [hmade]
    exact h.bounded id a hid
  own id id' a hid hid' := by
    rw [hkeys] at hid hid'
    exact h.own id id' a hid hid'
  starting id a hm := by
    rw [hkeys]
    exact h.starting id a (hst' _ hm)
  returned id hm := by
    rcases hret id hm with hm | hm
    · exact List.mem_append_left _ (h.returned id hm)
    · exact List.mem_append_right _ hm
  set a ha := by
    rw [hflags] at ha
    obtain ⟨id, hid, hc⟩ := h.set a ha
    exact ⟨id, by rwa [hkeys], List.mem_append_left _ hc⟩

theorem Flagged.step (h : Flagged M os) (hd : Drawn M os) (hs : Does M M' o) : Flagged M' (os ++ o) := by
  cases hs with
  | draw _ =>
    exact h.mono rfl rfl rfl (fun _ hx => .inl hx) (fun _ hx => hx) fun _ hx => .inl hx
  | @flag id hid =>
    -- the id is new, so no other flag is lost
    have hnew : ∀ {id' : ℤ} {a : ℕ}, M.cancelFlags.get? id' = some a → id' ≠ id := by
      rintro id' a ha rfl
      exact (List.nodup_append.1 hd.nodup).2.2 id' hid id' (List.mem_append.2 (h.keys id' a ha)) rfl
    have hget : ∀ {id' : ℤ} {a : ℕ}, (M.cancelFlags.set id M.flags).get? id' = some a →
        id' = id ∧ a = M.flags ∨ id' ≠ id ∧ M.cancelFlags.get? id' = some a := by
      intro id' a ha
      rw [Dict.get?_set] at ha
      split_ifs at ha with he
      · cases ha
        exact .inl ⟨he, rfl⟩
      · exact .inr ⟨he, ha⟩
    have hkept : ∀ {id' : ℤ} {a : ℕ}, M.cancelFlags.get? id' = some a →
        (M.cancelFlags.set id M.flags).get? id' = some a := fun ha => by
      rw [Dict.get?_set_ne _ (hnew ha), ha]
    rw [List.append_nil]
    refine ⟨fun id' a ha => ?_, fun id' a ha => ?_, fun id₁ id₂ a h₁ h₂ => ?_, fun id' a hm => ?_, h.returned,
      fun a ha => ?_⟩
    · rw [List.map_append]
      rcases hget ha with ⟨rfl, -⟩ | ⟨-, ha⟩
      · exact .inl (List.mem_append_right _ (List.mem_singleton_self _))
      · exact (h.keys id' a ha).imp (List.mem_append_left _) fun hm => hm
    · rcases hget ha with ⟨-, rfl⟩ | ⟨-, ha⟩
      · exact Nat.lt_succ_self _
      · exact Nat.lt_succ_of_lt (h.bounded id' a ha)
    · rcases hget h₁ with ⟨rfl, rfl⟩ | ⟨-, h₁⟩
      · rcases hget h₂ with ⟨rfl, -⟩ | ⟨-, h₂⟩
        · rfl
        · exact absurd (h.bounded _ _ h₂) (Nat.lt_irrefl _)
      · rcases hget h₂ with ⟨-, rfl⟩ | ⟨-, h₂⟩
        · exact absurd (h.bounded _ _ h₁) (Nat.lt_irrefl _)
        · exact h.own id₁ id₂ a h₁ h₂
    · rcases List.mem_append.1 hm with hm | hm
      · exact hkept (h.starting id' a hm)
      · cases List.mem_singleton.1 hm
        rw [Dict.get?_set_self]
    · have ha : (if a = M.flags then 0 else M.lib.flags a) ≠ 0 := ha
      by_cases he : a = M.flags
      · rw [if_pos he] at ha
        exact absurd rfl ha
      · rw [if_neg he] at ha
        obtain ⟨id', hid', hc⟩ := h.set a ha
        exact ⟨id', hkept hid', hc⟩
  | @start id a S o hid hs =>
    obtain ⟨-, rfl, rfl⟩ := enter_eq hs
    refine h.mono rfl rfl rfl (fun x hx => ?_) (fun x hx => List.mem_of_mem_erase hx) fun x hx => .inl hx
    obtain ⟨⟨x, b⟩, hm, rfl⟩ := List.mem_map.1 hx
    by_cases he : (x, b) = (id, a)
    · cases he
      exact .inr (mem_startedIds.2 ⟨_, true, List.mem_singleton_self _⟩)
    · exact .inl (List.mem_map_of_mem ((List.mem_erase_of_ne he).2 hm))
  | plain hid hs =>
    obtain ⟨-, rfl, rfl⟩ := enter_eq hs
    exact h.mono rfl rfl rfl (fun _ hx => .inl hx) (fun _ hx => hx) fun _ hx => .inl hx
  | returns hid =>
    refine h.mono rfl rfl rfl (fun _ hx => .inl hx) (fun _ hx => hx) fun x hx => ?_
    rcases List.mem_append.1 hx with hx | hx
    · exact .inl hx
    · rw [List.mem_singleton.1 hx]
      exact .inr (List.mem_singleton_self _)
  | unflagged =>
    exact h.mono rfl rfl rfl (fun _ hx => .inl hx) (fun _ hx => hx) fun _ hx => .inl (List.mem_of_mem_erase hx)
  | @set id a hid ha =>
    rw [List.append_nil]
    refine ⟨h.keys, h.bounded, h.own, h.starting, fun x hx => h.returned x (List.mem_of_mem_erase hx),
      fun b hb => ?_⟩
    have hb : (if b = a then 1 else M.lib.flags b) ≠ 0 := hb
    by_cases he : b = a
    · subst he
      exact ⟨id, ha, h.returned id hid⟩
    · rw [if_neg he] at hb
      exact h.set b hb
  | lib hb hs =>
    exact h.mono (plain_step hb hs).2 rfl rfl (fun _ hx => .inl hx) (fun _ hx => hx) fun _ hx => .inl hx

theorem Flagged.run (hrun : Lts.Run Steps init M os) : Flagged M os := by
  refine hrun.inv (I := fun (M : GoModule) os => Flagged M os) flagged_init ?_
  rintro M M' os o hrun h ⟨a, hs, hok⟩
  exact h.step (Drawn.run hrun) (step_does hs hok)

/-! ## The tasks -/

/-- **What a task tells**: it points to its own flag, or its id was cancelled, and so it was if
    the goroutine ends without a call. -/
structure Explained (M : GoModule) (os : List GoObs) (g : ℕ) (t : GoTask) : Prop where
  given : ∀ a, t.canceled = .given a ∨ t.pc = .loaded (.given a) → M.cancelFlags.get? t.id = some a
  one : t.canceled = .one ∨ t.pc = .loaded .one → M.lib.cancelling = some t.id ∨ .canceled t.id ∈ os
  looks : t.pc = .check ∨ (∃ p, t.pc = .loaded p) → .started true g t.id ∈ os
  called : t.pc = .calling → .invoked g ∈ os
  ended : t.pc = .deferred → .invoked g ∈ os ∨
    .started true g t.id ∈ os ∧ (M.lib.cancelling = some t.id ∨ .canceled t.id ∈ os)

variable {t : GoTask}

/-- The goroutine does not move. -/
theorem Explained.mono (h : Explained M os g t)
    (hkeys : ∀ a, M.cancelFlags.get? t.id = some a → M'.cancelFlags.get? t.id = some a)
    (hc : M.lib.cancelling = some t.id → M'.lib.cancelling = some t.id ∨ .canceled t.id ∈ o) :
    Explained M' (os ++ o) g t := by
  have hcanceled : M.lib.cancelling = some t.id ∨ .canceled t.id ∈ os →
      M'.lib.cancelling = some t.id ∨ .canceled t.id ∈ os ++ o := by
    rintro (hm | hm)
    · exact (hc hm).imp (fun hm => hm) (List.mem_append_right _)
    · exact .inr (List.mem_append_left _ hm)
  refine ⟨fun a ha => hkeys a (h.given a ha), fun ht => hcanceled (h.one ht),
    fun ht => List.mem_append_left _ (h.looks ht), fun ht => List.mem_append_left _ (h.called ht), fun ht => ?_⟩
  rcases h.ended ht with hm | ⟨hm, hm'⟩
  · exact .inl (List.mem_append_left _ hm)
  · exact .inr ⟨List.mem_append_left _ hm, hcanceled hm'⟩

section
variable {S : Sched} {pc : GoPc}

theorem Explained.canceled (h : S.cancelling = M.lib.cancelling)
    (hc : M.lib.cancelling = some id ∨ .canceled id ∈ os) :
    S.cancelling = some id ∨ .canceled id ∈ os ++ o := by
  rw [h]
  exact hc.imp (fun hm => hm) (List.mem_append_left _)

/-- The goroutine is past its flag. -/
theorem Explained.past (h : Explained M os g t) (hc : S.cancelling = M.lib.cancelling)
    (hcheck : pc ≠ .check) (hloaded : ∀ p, pc ≠ .loaded p) (hcalled : pc = .calling → .invoked g ∈ os ++ o)
    (hended : pc = .deferred → .invoked g ∈ os ++ o ∨
      .started true g t.id ∈ os ++ o ∧ (S.cancelling = some t.id ∨ .canceled t.id ∈ os ++ o)) :
    Explained { M with lib := S } (os ++ o) g { t with pc := pc } where
  given a ha := h.given a (.inl (ha.resolve_right (hloaded _)))
  one ht := canceled hc (h.one (.inl (ht.resolve_right (hloaded _))))
  looks ht := by
    rcases ht with ht | ⟨p, ht⟩
    · exact absurd ht hcheck
    · exact absurd ht (hloaded p)
  called := hcalled
  ended := hended

/-- **The goroutine moves.**  It stops at a flag that is set, and that is its own. -/
theorem Explained.goes (h : Explained M os g t) (hf : Flagged M os) (hgo : t.Goes M.lib.read g pc o)
    (hc : S.cancelling = M.lib.cancelling) :
    Explained { M with lib := S } (os ++ o) g { t with pc := pc } := by
  cases hgo with
  | check hpc =>
    refine ⟨fun a ha => h.given a (.inl ?_), fun ht => canceled hc (h.one (.inl ?_)),
      fun _ => List.mem_append_left _ (h.looks (.inl hpc)), fun ht => ?_, fun ht => ?_⟩
    · exact ha.elim (fun ha => ha) GoPc.loaded.inj
    · exact ht.elim (fun ht => ht) GoPc.loaded.inj
    · cases ht
    · cases ht
  | @stop p hpc hp =>
    refine h.past hc (fun he => by cases he) (fun _ he => by cases he) (fun he => by cases he) fun _ => .inr
      ⟨List.mem_append_left _ (h.looks (.inr ⟨p, hpc⟩)), canceled hc ?_⟩
    cases p with
    | given a =>
      obtain ⟨id, hid, hm⟩ := hf.set a hp
      rw [← hf.own id t.id a hid (h.given a (.inr hpc))]
      exact .inr hm
    | noCancel => exact absurd rfl hp
    | one => exact h.one (.inr hpc)
  | pass hpc _ =>
    exact h.past hc (fun he => by cases he) (fun _ he => by cases he) (fun he => by cases he)
      fun he => by cases he
  | call hpc =>
    exact h.past hc (fun he => by cases he) (fun _ he => by cases he) (fun _ => by simp)
      fun he => by cases he
  | back hpc =>
    exact h.past hc (fun he => by cases he) (fun _ he => by cases he) (fun he => by cases he)
      fun _ => .inl (List.mem_append_left _ (h.called hpc))

end

/-- All tasks. -/
def Told (M : GoModule) (os : List GoObs) : Prop := ∀ g t, M.lib.tasks[g]? = some t → Explained M os g t

/-- A new task. -/
theorem Told.enter {S : Sched} {checks : Bool} (h : Told M os) (ht : t.pc = if checks then .check else .call)
    (ha : ∀ a, t.canceled = .given a → M.cancelFlags.get? t.id = some a) (hone : t.canceled ≠ .one)
    (hs : M.lib.enter checks t = some (S, o)) : ∀ g u, S.tasks[g]? = some u →
      Explained { M with lib := S } (os ++ o) g u := by
  obtain ⟨hfree, rfl, rfl⟩ := enter_eq hs
  intro g u hu
  rcases Sched.get?_enter.1 hu with hu | ⟨rfl, rfl⟩
  · exact (h g u hu).mono (fun _ ha => ha) fun hc => .inl hc
  · cases checks with
    | true =>
      refine ⟨fun a hc => ha a (hc.resolve_right fun he => ?_), fun hc => ?_, fun _ => by simp, fun hc => ?_,
        fun hc => ?_⟩
      · rw [ht] at he
        cases he
      · rcases hc with hc | hc
        · exact absurd hc hone
        · rw [ht] at hc
          cases hc
      · rw [ht] at hc
        cases hc
      · rw [ht] at hc
        cases hc
    | false =>
      refine ⟨fun a hc => ha a (hc.resolve_right fun he => ?_), fun hc => ?_, fun hc => ?_, fun hc => ?_,
        fun hc => ?_⟩
      · rw [ht] at he
        cases he
      · rcases hc with hc | hc
        · exact absurd hc hone
        · rw [ht] at hc
          cases hc
      · rw [ht] at hc
        rcases hc with hc | ⟨p, hc⟩
        · cases hc
        · cases hc
      · rw [ht] at hc
        cases hc
      · rw [ht] at hc
        cases hc

theorem Told.step (h : Told M os) (hd : Drawn M os) (hf : Flagged M os) (hi : M.lib.Inv os)
    (hs : Does M M' o) : Told M' (os ++ o) := by
  cases hs with
  | draw _ => exact fun g t ht => (h g t ht).mono (fun _ ha => ha) fun hc => .inl hc
  | @flag id hid =>
    intro g t ht
    refine (h g t ht).mono (fun a ha => ?_) fun hc => .inl hc
    have hne : t.id ≠ id := by
      rintro rfl
      exact hd.fresh (.inl hid) (mem_startedIds.2 ⟨g, (hi.entered g t.id).1 ⟨t, ht, rfl⟩⟩)
    rw [Dict.get?_set_ne _ hne]
    exact ha
  | @start id a S o hid hs =>
    intro g u hu
    have hu' := h.enter rfl (fun b hb => by cases hb; exact hf.starting id a hid) (fun he => by cases he) hs g u hu
    exact ⟨hu'.given, hu'.one, hu'.looks, hu'.called, hu'.ended⟩
  | plain hid hs =>
    intro g u hu
    have hu' := h.enter rfl (fun b hb => by cases hb) (fun he => by cases he) hs g u hu
    exact ⟨hu'.given, hu'.one, hu'.looks, hu'.called, hu'.ended⟩
  | @returns id hid =>
    refine fun g t ht => (h g t ht).mono (fun _ ha => ha) fun hc => .inr ?_
    rw [hid] at hc
    cases hc
    exact List.mem_singleton_self _
  | unflagged => exact fun g t ht => (h g t ht).mono (fun _ ha => ha) fun hc => .inl hc
  | set _ _ => exact fun g t ht => (h g t ht).mono (fun _ ha => ha) fun hc => .inl hc
  | @lib b S o hb hs =>
    obtain ⟨hno, -⟩ := plain_step hb hs
    intro g u hu
    cases Sched.step_moves hs with
    | enter _ _ => exact absurd ⟨_, List.mem_singleton_self _⟩ (hno _ _)
    | @swap id g' hfree hget =>
      obtain ⟨t, ht, rfl⟩ := Sched.get?_swap.1 hu
      have hmono : Explained
          { M with lib := { M.lib with tasks := Sched.swap M.lib.tasks g', cancelling := some id } }
          (os ++ []) g t := (h g t ht).mono (fun _ ha => ha) fun hc => by
        rw [hfree] at hc
        cases hc
      split
      · rename_i he
        subst he
        have hid : id = t.id := ((hi.callbacks id g).1 hget).entered.id_eq ht
        refine ⟨fun a ha => hmono.given a (.inr (ha.resolve_left fun he => by cases he)), fun _ => .inl ?_,
          hmono.looks, hmono.called, hmono.ended⟩
        rw [hid]
      · exact hmono
    | keep hfree _ =>
      refine (h g u hu).mono (fun _ ha => ha) fun hc => ?_
      rw [hfree] at hc
      cases hc
    | @mark id hid =>
      refine (h g u hu).mono (fun _ ha => ha) fun hc => .inr ?_
      rw [hid] at hc
      cases hc
      exact List.mem_singleton_self _
    | answer _ => exact (h g u hu).mono (fun _ ha => ha) fun hc => .inl hc
    | write => exact (h g u hu).mono (fun _ ha => ha) fun hc => .inl hc
    | goes ht hgo =>
      rcases (Sched.get?_set_task ht).1 hu with ⟨rfl, rfl⟩ | ⟨-, hu⟩
      · exact (h _ _ ht).goes hf hgo rfl
      · exact (h g u hu).mono (fun _ ha => ha) fun hc => .inl hc
    | clean ht hpc _ =>
      rcases (Sched.get?_set_task ht).1 hu with ⟨rfl, rfl⟩ | ⟨-, hu⟩
      · exact (h _ _ ht).past rfl (fun he => by cases he) (fun _ he => by cases he) (fun he => by cases he)
          fun he => by cases he
      · exact (h g u hu).mono (fun _ ha => ha) fun hc => .inl hc

theorem Told.run (hrun : Lts.Run Steps init M os) : Told M os := by
  refine hrun.inv (I := fun (M : GoModule) os => Told M os) (fun g t ht => by cases ht) ?_
  rintro M M' os o hrun h ⟨a, hs, hok⟩
  exact h.step (.run hrun) (.run hrun) (.run (lib_run hrun) (starts_fresh hrun)) (step_does hs hok)

/-! ## Runs -/

/-- A task that cleans up was called, or it was to look at its flag and its id was cancelled. -/
def Accounts (before : List GoObs) : GoObs → Prop
  | .cleaned g => .invoked g ∈ before ∨ ∃ id, .started true g id ∈ before ∧ .canceled id ∈ before
  | _ => True

theorem accounts_run (hrun : Lts.Run Steps init M os) : Lts.Each Accounts os := by
  refine hrun.inv (I := fun (_ : GoModule) os => Lts.Each Accounts os) .nil ?_
  rintro M M' os o hrun ih ⟨a, hs, hok⟩
  have hlib := (step_does hs hok).library
  have hquiet : (∀ g, .cleaned g ∉ o) → Lts.Each Accounts (os ++ o) := by
    intro ho
    refine ih.append (Lts.each_of_all fun before x hx => ?_)
    cases x with
    | cleaned g => exact absurd hx (ho g)
    | _ => trivial
  rcases hlib with ⟨-, rfl⟩ | ⟨b, hb⟩
  · exact hquiet fun _ hm => by cases hm
  · have hmoves := Sched.step_moves hb
    generalize M'.lib = S at hmoves
    cases hmoves with
    | enter _ _ => exact hquiet fun _ hm => by simp at hm
    | swap _ _ => exact hquiet fun _ hm => by cases hm
    | keep _ _ => exact hquiet fun _ hm => by cases hm
    | mark _ => exact hquiet fun _ hm => by simp at hm
    | answer _ => exact hquiet fun _ hm => by simp at hm
    | write => exact hquiet fun _ hm => by cases hm
    | goes _ hgo => exact hquiet fun _ => hgo.not_cleaned
    | @clean g t ht hpc hfree =>
      refine ih.snoc ?_
      rcases (Told.run hrun g t ht).ended hpc with hm | ⟨hst, hm | hm⟩
      · exact .inl hm
      · rw [hfree] at hm
        cases hm
      · exact .inr ⟨t.id, hst, hm⟩

/-- **The life of a task of the module**: callers that draw their ids start each task under an id
    of its own, up to the 2 ^ 32 ids that there are.  A callback is called at most once, and not
    after a cancel that the check can see; a task that ends without a call was itself
    cancelled; and `IsCanceled` tells whether a task runs and is not cancelled. -/
theorem go_module_life (hrun : Lts.Run Steps init M os) :
    Lts.Each Sched.StartsFresh os ∧ (∀ g, os.count (.invoked g) ≤ 1) ∧
      (∀ g id, Sched.CanceledUnchecked os g id → .invoked g ∉ os) ∧ Lts.Each Accounts os ∧
        Lts.Each Sched.Answers os := by
  have hfresh := starts_fresh hrun
  have hlib := lib_run hrun
  refine ⟨hfresh, fun g => ?_, fun g id hc => (Sched.spared_run hlib hfresh hc).2, accounts_run hrun,
    Sched.answers_run hlib hfresh⟩
  have hone := Sched.invoked_once hlib g
  omega

/-- Two tasks, the first of which is cancelled before it looks at its flag. -/
def twoTasks : List ModuleAct :=
  [.getNextTaskId, .getNextTaskId, .newFlag 1, .startGoTaskWithResult 1 0, .newFlag 2,
    .startGoTaskWithResult 2 1, .cancelGoTask 1, .canceled, .setFlag 1, .go 0, .go 0, .go 0, .go 1, .go 1,
    .go 1, .go 1, .go 1]

/-- The task that is cancelled ends without a call, and the other is called. -/
theorem go_module_life_sample : ∃ (M : GoModule) (os : List GoObs), Lts.Run Steps init M os ∧
    os = [.started true 0 1, .started true 1 2, .canceled 1, .checked 0, .cleaned 0, .checked 1, .invoked 1,
      .cleaned 1] ∧
    Lts.Each Sched.StartsFresh os ∧ (∀ g, os.count (.invoked g) ≤ 1) ∧ .invoked 0 ∉ os ∧
      Lts.Each Accounts os ∧ Lts.Each Sched.Answers os := by
  obtain ⟨M, hexec⟩ : ∃ M, Lts.exec step twoTasks init = some (M, [.started true 0 1, .started true 1 2,
    .canceled 1, .checked 0, .cleaned 0, .checked 1, .invoked 1, .cleaned 1]) := ⟨_, rfl⟩
  have hrun : Lts.Run Steps init M _ := Lts.exec_run hexec (by decide +kernel)
  obtain ⟨hfresh, hone, hspared, haccounts, hanswers⟩ := go_module_life hrun
  have hfirst : Sched.CanceledUnchecked [.started true 0 1, .started true 1 2, .canceled 1, .checked 0,
      .cleaned 0, .checked 1, .invoked 1, .cleaned 1] 0 1 :=
    ⟨[.started true 0 1, .started true 1 2], _, _, rfl, rfl, by simp, by simp⟩
  exact ⟨M, _, hrun, rfl, hfresh, hone, hspared 0 1 hfirst, haccounts, hanswers⟩

end GoModule

end Pipebomb
