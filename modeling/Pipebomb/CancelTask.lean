/-
  `CancelableTask.cancel` over the three backends of `run_task_async`.

  * `Gsyncio`: the module `gsyncio`, whose functions exist only if the cffi extension was
    loaded (`ffi`), and raise RuntimeError while there is no Go library.
  * `CancelableTask.cancel`, `runTaskAsync`: the task id is `None` for a coroutine, an id of
    the Go library, or -1 for a thread.
  * `CancelsWell`: what a call of `cancel` in a run of the task should do; `cancel_iff`: it
    does on every backend but the thread without the extension, where `CancelGoTask` is no
    attribute of `gsyncio` and AttributeError is not caught.
-/
import Pipebomb.Py
import Pipebomb.Lib.Dict
import Pipebomb.Lib.Run

namespace Pipebomb

/-! ## The module `gsyncio` -/

/-- The Go library, by the calls it has got. -/
structure GoLibrary where
  nextTaskId : ℤ
  /-- the ids given to `_StartGoTaskWithResult` -/
  started : List ℤ
  /-- the ids given to `_CancelGoTask` -/
  canceled : List ℤ
  deriving DecidableEq

structure Gsyncio where
  /-- `ffi is not None`: the extension was loaded, and the functions are defined -/
  ffi : Bool
  gsyncioLib : Option GoLibrary
  /-- `_cancel_flags`, by what the flags hold -/
  cancelFlags : Dict ℤ ℤ
  deriving DecidableEq

namespace Gsyncio

/-- The lookup of a function in the module, and the test at its start. -/
def lib (G : Gsyncio) : Except PyErr GoLibrary :=
  if G.ffi then
    match G.gsyncioLib with
    | none => .error (.runtimeError "Go library not loaded")
    | some lib => .ok lib
  else .error .attributeError

/-- `get_next_task_id`; a `C.int` has 32 bits. -/
def getNextTaskId (G : Gsyncio) : Except PyErr (Gsyncio × ℤ) := do
  let lib ← G.lib
  return ({ G with gsyncioLib := some { lib with nextTaskId := lib.nextTaskId + 1 } },
    lib.nextTaskId.bmod (2 ^ 32))

def startGoTaskWithResult (G : Gsyncio) (taskId : ℤ) : Except PyErr Gsyncio := do
  let lib ← G.lib
  return { G with
    cancelFlags := G.cancelFlags.set taskId 0
    gsyncioLib := some { lib with started := lib.started ++ [taskId] } }

def cancelGoTask (G : Gsyncio) (taskId : ℤ) : Except PyErr Gsyncio := do
  let lib ← G.lib
  return { G with
    gsyncioLib := some { lib with canceled := lib.canceled ++ [taskId] }
    cancelFlags := match G.cancelFlags.get? taskId with
      | some _ => G.cancelFlags.set taskId 1
      | none => G.cancelFlags }

end Gsyncio

/-! ## Tasks -/

/-- An `asyncio.Task`, by whether it is done and how often its cancellation was requested. -/
structure AsyncioTask where
  done : Bool
  requests : ℕ
  deriving DecidableEq

/-- `asyncio.Task.cancel` -/
def AsyncioTask.cancel (t : AsyncioTask) : AsyncioTask × Bool :=
  if t.done then (t, false) else ({ t with requests := t.requests + 1 }, true)

structure CancelableTask where
  asyncioTask : AsyncioTask
  taskId : Option ℤ
  cancelled : Bool
  deriving DecidableEq

/-- A task and the module it was made with. -/
structure Tasking where
  gsy : Gsyncio
  task : CancelableTask
  deriving DecidableEq

namespace Tasking

/-- `except (ImportError, RuntimeError): pass` -/
def passes : PyErr → Bool
  | .runtimeError _ => true
  | _ => false

/-- `gsy.CancelGoTask` for a task that has an id. -/
def native (T : Tasking) : Except PyErr Gsyncio :=
  match T.task.taskId with
  | none => .ok T.gsy
  | some id => match T.gsy.cancelGoTask id with
    | .ok G => .ok G
    | .error e => if passes e then .ok T.gsy else .error e

/-- `self._asyncio_task.cancel()` -/
def request (T : Tasking) : Tasking × Bool :=
  ({ T with task.asyncioTask := T.task.asyncioTask.cancel.1 }, T.task.asyncioTask.cancel.2)

/-- `CancelableTask.cancel` -/
def cancel (T : Tasking) : Tasking × Except PyErr Bool :=
  if T.task.cancelled then (T, .ok false)
  else
    let T := { T with task.cancelled := true }
    match T.native with
    | .error e => (T, .error e)
    | .ok G => (request { T with gsy := G } |>.1, .ok (request { T with gsy := G }).2)

/-- A new task. -/
def new (G : Gsyncio) (taskId : Option ℤ) : Tasking := ⟨G, ⟨false, 0⟩, taskId, false⟩

/-- `run_task_async` for a callback that is a coroutine function or not; `available` is
    `_gsyncio_available`. -/
def runTaskAsync (coroutine available : Bool) (G : Gsyncio) : Except PyErr Tasking :=
  if coroutine then .ok (new G none)
  else if available then do
    let (G, tid) ← G.getNextTaskId
    let G ← G.startGoTaskWithResult tid
    return new G (some tid)
  else .ok (new G (some (-1)))

end Tasking

/-! ## Runs of a task -/

inductive TaskAct
  /-- `CancelableTask.cancel` is called -/
  | cancel
  /-- somebody else calls `cancel` of the `asyncio.Task` -/
  | request
  /-- the `asyncio.Task` completes -/
  | complete
  /-- `load_go_library` -/
  | load (lib : GoLibrary)
  deriving DecidableEq

def Tasking.step (T : Tasking) : TaskAct → Option (Tasking × List (Except PyErr Bool))
  | .cancel => some (T.cancel.1, [T.cancel.2])
  | .request => some (T.request.1, [])
  | .complete =>
    if T.task.asyncioTask.done then none
    else some ({ T with task.asyncioTask.done := true }, [])
  | .load lib => if T.gsy.ffi then some ({ T with gsy.gsyncioLib := some lib }, []) else none

/-- A step of a run of the task. -/
abbrev TaskStep : Type := Lts.Shown Tasking TaskAct (Except PyErr Bool)

/-- **A call of `cancel` in a run**: the first one requests the cancellation of the
    `asyncio.Task` and returns what that request returns, and a later one returns False and
    changes nothing. -/
def CancelsWell (before : List TaskStep) (x : TaskStep) : Prop :=
  x.act = .cancel →
    if ∀ y ∈ before, y.act ≠ .cancel then
      x.obs = [.ok x.before.task.asyncioTask.cancel.2] ∧
        x.after.task.asyncioTask = x.before.task.asyncioTask.cancel.1
    else x.obs = [.ok false] ∧ x.after = x.before

namespace Tasking

variable {T T' : Tasking} {G G' : Gsyncio} {coroutine available : Bool}

theorem cancelGoTask_ffi {id : ℤ} (h : G.cancelGoTask id = .ok G') : G'.ffi = G.ffi := by
  obtain ⟨lib, -, he⟩ := bind_eq_ok.1 h
  cases he
  rfl

/-- With the extension, `CancelGoTask` raises nothing that `cancel` does not catch. -/
theorem cancelGoTask_error {id : ℤ} {e : PyErr} (hffi : G.ffi = true)
    (h : G.cancelGoTask id = .error e) : passes e = true := by
  rcases hlib : G.gsyncioLib with _ | lib
  · rw [Gsyncio.cancelGoTask, Gsyncio.lib, if_pos hffi, hlib] at h
    cases h
    rfl
  · rw [Gsyncio.cancelGoTask, Gsyncio.lib, if_pos hffi, hlib] at h
    cases h

theorem native_ffi (h : T.native = .ok G) : G.ffi = T.gsy.ffi := by
  unfold native at h
  split at h
  · cases h
    rfl
  · split at h
    · rename_i hgo
      cases h
      exact cancelGoTask_ffi hgo
    · split at h
      · cases h
        rfl
      · cases h

/-- **The native call** goes well if the task has no id or the extension is loaded. -/
theorem native_ok (hok : T.task.taskId = none ∨ T.gsy.ffi = true) : ∃ G, T.native = .ok G := by
  unfold native
  rcases hok with hid | hffi
  · rw [hid]
    exact ⟨_, rfl⟩
  · split
    · exact ⟨_, rfl⟩
    · split
      · exact ⟨_, rfl⟩
      · rename_i hgo
        rw [if_pos (cancelGoTask_error hffi hgo)]
        exact ⟨_, rfl⟩

/-- **The first call.** -/
theorem cancel_first (hc : T.task.cancelled = false) (hok : T.task.taskId = none ∨ T.gsy.ffi = true) :
    T.cancel.2 = .ok T.task.asyncioTask.cancel.2 ∧
      T.cancel.1.task.asyncioTask = T.task.asyncioTask.cancel.1 := by
  have hok' : ({ T with task.cancelled := true } : Tasking).task.taskId = none ∨
      ({ T with task.cancelled := true } : Tasking).gsy.ffi = true := hok
  obtain ⟨G, hG⟩ := native_ok hok'
  unfold cancel
  rw [hc, if_neg Bool.false_ne_true]
  simp only [hG]
  exact ⟨rfl, rfl⟩

/-- **A later call.** -/
theorem cancel_again (hc : T.task.cancelled = true) : T.cancel = (T, .ok false) := by
  rw [cancel, if_pos hc]

/-- A call leaves the task cancelled, with its id and the extension as it was. -/
theorem cancel_keeps : T.cancel.1.task.cancelled = true ∧ T.cancel.1.task.taskId = T.task.taskId ∧
    T.cancel.1.gsy.ffi = T.gsy.ffi := by
  unfold cancel
  by_cases hc : T.task.cancelled = true
  · rw [if_pos hc]
    exact ⟨hc, rfl, rfl⟩
  · rw [if_neg hc]
    simp only
    split
    · exact ⟨rfl, rfl, rfl⟩
    · rename_i hG
      exact ⟨rfl, rfl, native_ffi hG⟩

/-- The steps of a task that show themselves. -/
def Steps : Tasking → Tasking → List TaskStep → Prop :=
  Lts.Guarded (Lts.shown step) fun _ _ _ => True

/-- **What a run keeps**: the id, the extension, and a flag that tells whether `cancel` was
    called. -/
structure Kept (T T' : Tasking) (xs : List TaskStep) : Prop where
  taskId : T'.task.taskId = T.task.taskId
  ffi : T'.gsy.ffi = T.gsy.ffi
  cancelled : T'.task.cancelled = true ↔ ∃ x ∈ xs, x.act = .cancel

theorem Kept.step {xs : List TaskStep} {T'' : Tasking} {a : TaskAct} {o : List (Except PyErr Bool)}
    (h : Kept T T' xs) (hs : T'.step a = some (T'', o)) : Kept T T'' (xs ++ [⟨T', a, o, T''⟩]) := by
  have hsame (hid : T''.task.taskId = T'.task.taskId) (hffi : T''.gsy.ffi = T'.gsy.ffi)
      (hc : T''.task.cancelled = T'.task.cancelled) (ha : a ≠ .cancel) :
      Kept T T'' (xs ++ [⟨T', a, o, T''⟩]) := by
    refine ⟨hid.trans h.taskId, hffi.trans h.ffi, ?_⟩
    rw [hc, h.cancelled]
    simp [ha]
  cases a with
  | cancel =>
    cases hs
    obtain ⟨hc, hid, hffi⟩ := cancel_keeps (T := T')
    exact ⟨hid.trans h.taskId, hffi.trans h.ffi, iff_of_true hc ⟨_, List.mem_concat_self, rfl⟩⟩
  | request =>
    cases hs
    exact hsame rfl rfl rfl (by decide)
  | complete =>
    rw [Tasking.step] at hs
    split at hs
    · cases hs
    · cases hs
      exact hsame rfl rfl rfl (by decide)
  | load lib =>
    rw [Tasking.step] at hs
    split at hs
    · cases hs
      exact hsame rfl rfl rfl (by simp)
    · cases hs

theorem Kept.run {xs : List TaskStep} (hnew : T.task.cancelled = false)
    (hrun : Lts.Run Steps T T' xs) : Kept T T' xs := by
  refine hrun.inv (I := fun T' xs => Kept T T' xs) ⟨rfl, rfl, by simp [hnew]⟩ ?_
  rintro T₁ T₂ xs x - ih ⟨a, hs, -⟩
  obtain ⟨o, ho, rfl⟩ := Lts.shown_step hs
  exact ih.step ho

/-- **Cancellation works** if the task has no id or the extension is loaded. -/
theorem cancels_run {xs : List TaskStep} (hnew : T.task.cancelled = false)
    (hok : T.task.taskId = none ∨ T.gsy.ffi = true) (hrun : Lts.Run Steps T T' xs) :
    Lts.Each CancelsWell xs := by
  refine hrun.inv (I := fun (_ : Tasking) xs => Lts.Each CancelsWell xs) .nil ?_
  rintro T₁ T₂ xs x hrun ih ⟨a, hs, -⟩
  obtain ⟨o, hs, rfl⟩ := Lts.shown_step hs
  refine ih.snoc ?_
  rintro (rfl : a = .cancel)
  cases hs
  have hkept := Kept.run hnew hrun
  by_cases hfirst : ∀ y ∈ xs, y.act ≠ .cancel
  · rw [if_pos hfirst]
    have hc : T₁.task.cancelled = false := by
      rw [← Bool.not_eq_true, hkept.cancelled]
      rintro ⟨y, hy, ha⟩
      exact hfirst y hy ha
    obtain ⟨hret, htask⟩ := cancel_first hc (by rwa [hkept.taskId, hkept.ffi])
    exact ⟨by rw [hret], htask⟩
  · rw [if_neg hfirst]
    have hc : T₁.task.cancelled = true := by
      rw [hkept.cancelled]
      by_contra hno
      exact hfirst fun y hy ha => hno ⟨y, hy, ha⟩
    rw [cancel_again hc]
    exact ⟨rfl, rfl⟩

/-- What `run_task_async` returns. -/
theorem runTaskAsync_ok (h : runTaskAsync coroutine available G = .ok T) :
    T.task.cancelled = false ∧ T.task.asyncioTask.done = false ∧ T.gsy.ffi = G.ffi ∧
      (T.task.taskId = none ↔ coroutine = true) := by
  unfold runTaskAsync at h
  cases coroutine with
  | true =>
    cases h
    exact ⟨rfl, rfl, rfl, by simp [new]⟩
  | false =>
    cases available with
    | true =>
      obtain ⟨⟨G₁, tid⟩, h₁, h⟩ := bind_eq_ok.1 h
      obtain ⟨G₂, h₂, h⟩ := bind_eq_ok.1 h
      obtain ⟨lib, -, h₁⟩ := bind_eq_ok.1 h₁
      obtain ⟨lib', -, h₂⟩ := bind_eq_ok.1 h₂
      cases h₁
      cases h₂
      cases h
      exact ⟨rfl, rfl, rfl, by simp [new]⟩
    | false =>
      cases h
      exact ⟨rfl, rfl, rfl, by simp [new]⟩

/-- **Without the extension** a task with an id raises AttributeError. -/
theorem cancel_raises {id : ℤ} (hc : T.task.cancelled = false) (hid : T.task.taskId = some id)
    (hffi : T.gsy.ffi = false) :
    T.cancel = ({ T with task.cancelled := true }, .error .attributeError) := by
  have hgo : T.gsy.cancelGoTask id = .error .attributeError := by
    rw [Gsyncio.cancelGoTask, Gsyncio.lib, hffi]
    rfl
  rw [cancel, hc, if_neg Bool.false_ne_true]
  simp only [native, hid, hgo]
  rfl

/-- **Cancellation works in every run of a task** that `run_task_async` returned, if and only if
    the callback is a coroutine function or the extension is loaded. -/
theorem cancel_iff (h : runTaskAsync coroutine available G = .ok T) :
    (∀ T' xs, Lts.Run Steps T T' xs → Lts.Each CancelsWell xs) ↔
      coroutine = true ∨ G.ffi = true := by
  obtain ⟨hnew, -, hffi, hid⟩ := runTaskAsync_ok h
  rw [← hid, ← hffi]
  constructor
  · intro hall
    by_contra hno
    rw [not_or, Bool.not_eq_true] at hno
    obtain ⟨id, hid⟩ := Option.ne_none_iff_exists'.1 hno.1
    have hcancel := cancel_raises hnew hid hno.2
    have hrun : Lts.Run Steps T T.cancel.1 [⟨T, .cancel, [T.cancel.2], T.cancel.1⟩] :=
      .single ⟨.cancel, rfl, trivial⟩
    have hfirst := hall _ _ hrun [] _ [] rfl rfl
    rw [if_pos (by simp), hcancel] at hfirst
    obtain ⟨hobs, -⟩ := hfirst
    cases hobs
  · intro hok T' xs hrun
    exact cancels_run hnew hok hrun

/-- A callback that is no coroutine function, without the extension. -/
def threadTask : Tasking := new ⟨false, none, .empty⟩ (some (-1))

/-- A coroutine function. -/
def coroutineTask : Tasking := new ⟨false, none, .empty⟩ none

/-- Without the extension the task of a coroutine function is cancelled well in every run, and
    another task is not. -/
theorem cancel_sample : (∀ T' xs, Lts.Run Steps coroutineTask T' xs → Lts.Each CancelsWell xs) ∧
    ¬ ∀ T' xs, Lts.Run Steps threadTask T' xs → Lts.Each CancelsWell xs := by
  have hco : runTaskAsync true false ⟨false, none, .empty⟩ = .ok coroutineTask := rfl
  have hthread : runTaskAsync false false ⟨false, none, .empty⟩ = .ok threadTask := rfl
  rw [cancel_iff hco, cancel_iff hthread]
  exact ⟨.inl rfl, by decide⟩

/-- **The task stays marked**: the first call raises, the second returns False, and the
    cancellation of the `asyncio.Task` was never requested. -/
theorem cancel_stuck : runTaskAsync false false ⟨false, none, .empty⟩ = .ok threadTask ∧
    threadTask.cancel.2 = .error .attributeError ∧ threadTask.cancel.1.cancel.2 = .ok false ∧
      threadTask.cancel.1.cancel.1.task.asyncioTask.requests = 0 ∧
        ¬ ∀ T' xs, Lts.Run Steps threadTask T' xs → Lts.Each CancelsWell xs := by
  refine ⟨rfl, rfl, rfl, rfl, fun hall => ?_⟩
  have hrun : Lts.Run Steps threadTask threadTask.cancel.1
      [⟨threadTask, .cancel, [.error .attributeError], threadTask.cancel.1⟩] :=
    .single ⟨.cancel, rfl, trivial⟩
  have hfirst := hall _ _ hrun [] _ [] rfl rfl
  rw [if_pos (by simp)] at hfirst
  obtain ⟨hobs, -⟩ := hfirst
  cases hobs

end Tasking

end Pipebomb
