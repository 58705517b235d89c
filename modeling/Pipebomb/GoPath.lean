/-
  The outcome of a synchronous callback on the Go path of `run_task_async`.

  The goroutine runs `wrapped`, which stores what the callback returned or raised in
  `result_holder[0]` and wakes the task that waits for `event`: by `call_soon_threadsafe` if
  `asyncio.get_event_loop()` gives it a running loop, else by `event.set()` outside the
  thread of the task's loop.

  * `GoPath`: the cell, the event with its waiter, the loop, and where the task and the
    goroutine are; `GoPath.step`, one step of either.  A task that is not cancelled and a
    callback that comes to an end are all there is: nothing else calls for the task.
  * `Settled`: nothing is left to do but what comes from outside (`settled_iff`), and without
    that a run comes there (`Moves.rank_lt`).
  * `Phase`, `Told`: what ties the task and the cell to what was seen on the way.
  * `go_path_iff`: when the task ends as it does on the path through `asyncio.to_thread`.
-/
import Pipebomb.Lib.Run

namespace Pipebomb

/-! ## Objects and outcomes -/

/-- The classes of exceptions that the code tells apart: StopIteration, any other Exception,
    CancelledError, and any other BaseException. -/
inductive ExcKind
  | stopIteration
  | exception
  | cancelledError
  | baseException
  deriving DecidableEq

structure PyExc (V : Type) where
  kind : ExcKind
  args : V

/-- `isinstance(e, Exception)` -/
def PyExc.isException {V : Type} (e : PyExc V) : Bool :=
  match e.kind with
  | .stopIteration | .exception => true
  | .cancelledError | .baseException => false

/-- An object: `None`, an exception, or any other. -/
inductive PyObj (V : Type)
  | none
  | exc (e : PyExc V)
  | value (v : V)

/-- How a call ends. -/
inductive CallEnd (V : Type)
  | returns (v : PyObj V)
  | raises (e : PyExc V)

/-- How an `asyncio.Task` ends. -/
inductive TaskEnd (V : Type)
  | result (v : PyObj V)
  | exception (e : PyExc V)
  | cancelled (e : PyExc V)

variable {V : Type}

/-- `Task.result()` of a task that is done. -/
def TaskEnd.result? : TaskEnd V → Except (PyExc V) (PyObj V)
  | result v => .ok v
  | exception e => .error e
  | cancelled e => .error e

/-- `Task.exception()` of a task that is done. -/
def TaskEnd.exception? : TaskEnd V → Except (PyExc V) (Option (PyExc V))
  | result _ => .ok none
  | exception e => .ok (some e)
  | cancelled e => .error e

/-- How a task ends whose coroutine ends so. -/
def CallEnd.taskEnd : CallEnd V → TaskEnd V
  | returns v => .result v
  | raises e => if e.kind = .cancelledError then .cancelled e else .exception e

/-- A StopIteration does not leave a coroutine; a RuntimeError does. -/
def CallEnd.coroutine : CallEnd V → CallEnd V
  | returns v => .returns v
  | raises e => .raises (if e.kind = .stopIteration then { e with kind := .exception } else e)

/-- `_await_wrapper` after its `event.wait()`, with what `result_holder[0]` holds. -/
def awaitWrapper : PyObj V → CallEnd V
  | .exc e => if e.isException then .raises e else .returns (.exc e)
  | v => .returns v

/-! ## The program -/

/-- What `asyncio.get_event_loop()` does in the goroutine's thread. -/
inductive Lookup (V : Type)
  | raises (e : PyExc V)
  /-- it gives the task's loop, which is running -/
  | own
  /-- it gives a loop that is not running, or one that runs in another thread and calls
      `event.set()` there -/
  | other

/-- What `wrapped` does next; `first` in the `try` block, else in the `except` clause. -/
inductive WrappedPc (V : Type)
  | call
  | lookup (first : Bool)
  /-- enter the `except` clause and store the exception -/
  | caught (e : PyExc V)
  /-- `event.set()`: the value -/
  | set
  /-- `event.set()`: the waiters -/
  | notify
  | over
  /-- an exception has left `wrapped` -/
  | died

/-- What the task does next. -/
inductive AwaitPc (V : Type)
  /-- it is to be created -/
  | absent
  | created
  /-- `event.wait()` found the event not set, and has not entered its future yet -/
  | tested
  | waiting
  /-- its future has a result -/
  | resolved
  | over (t : TaskEnd V)

structure GoPath (V : Type) where
  /-- how the callback ends -/
  callback : CallEnd V
  /-- `result_holder[0]` -/
  cell : PyObj V
  event : Bool
  /-- `event.set` is in the loop's queue -/
  queued : Bool
  /-- the loop waits in its selector -/
  blocked : Bool
  wrapped : WrappedPc V
  task : AwaitPc V

inductive PathAct (V : Type)
  | call
  | lookup (r : Lookup V)
  | store
  | set
  | notify
  | create
  | test
  | register
  | resume
  /-- the loop runs the `event.set` in its queue -/
  | runSet
  | block
  /-- the loop is woken by something else -/
  | wake

/-- What is seen on the way. -/
inductive PathObs (V : Type)
  | looked (r : Lookup V)
  /-- `event.set()` in the goroutine's thread goes through the waiters -/
  | notified (task : AwaitPc V) (blocked : Bool)
  | woken

namespace GoPath

/-- `run_task_async` has started the goroutine. -/
def start (callback : CallEnd V) : GoPath V :=
  ⟨callback, .none, false, false, false, .call, .absent⟩

/-- The future of the waiter gets its result. -/
def notifyTask : AwaitPc V → AwaitPc V
  | .waiting => .resolved
  | pc => pc

/-- The task reads the cell and ends. -/
def finish (S : GoPath V) : GoPath V :=
  { S with task := .over (awaitWrapper S.cell).coroutine.taskEnd }

/-- An exception in `wrapped`. -/
def raise (first : Bool) (e : PyExc V) : WrappedPc V :=
  if first && e.isException then .caught e else .died

def step (S : GoPath V) : PathAct V → Option (GoPath V × List (PathObs V))
  | .call => match S.wrapped with
    | .call => match S.callback with
      | .returns v => some ({ S with cell := v, wrapped := .lookup true }, [])
      | .raises e => some ({ S with wrapped := raise true e }, [])
    | _ => none
  | .lookup r => match S.wrapped with
    | .lookup first => match r with
      | .raises e => some ({ S with wrapped := raise first e }, [.looked r])
      | .own => some ({ S with queued := true, blocked := false, wrapped := .over }, [.looked r])
      | .other => some ({ S with wrapped := .set }, [.looked r])
    | _ => none
  | .store => match S.wrapped with
    | .caught e => some ({ S with cell := .exc e, wrapped := .lookup false }, [])
    | _ => none
  | .set => match S.wrapped with
    | .set => some ({ S with event := true, wrapped := if S.event then .over else .notify }, [])
    | _ => none
  | .notify => match S.wrapped with
    | .notify => some ({ S with task := notifyTask S.task, wrapped := .over },
        [.notified S.task S.blocked])
    | _ => none
  | .create => match S.task, S.blocked with
    | .absent, false => some ({ S with task := .created }, [])
    | _, _ => none
  | .test => match S.task, S.blocked with
    | .created, false => some (if S.event then S.finish else { S with task := .tested }, [])
    | _, _ => none
  | .register => match S.task, S.blocked with
    | .tested, false => some ({ S with task := .waiting }, [])
    | _, _ => none
  | .resume => match S.task, S.blocked with
    | .resolved, false => some (S.finish, [])
    | _, _ => none
  | .runSet => match S.task, S.blocked, S.queued with
    | .tested, _, _ => none
    | _, false, true => some ({ S with
        queued := false
        event := true
        task := if S.event then S.task else notifyTask S.task }, [])
    | _, _, _ => none
  | .block => match S.task, S.blocked, S.queued with
    | .waiting, false, false => some ({ S with blocked := true }, [])
    | .over _, false, false => some ({ S with blocked := true }, [])
    | _, _, _ => none
  | .wake => if S.blocked then some ({ S with blocked := false }, [.woken]) else none

/-- Nothing is left to do. -/
structure Settled (S : GoPath V) : Prop where
  wrapped : S.wrapped = .over ∨ S.wrapped = .died
  blocked : S.blocked = true

/-- The steps of the program, in any order. -/
def Steps : GoPath V → GoPath V → List (PathObs V) → Prop := Lts.Guarded step fun _ _ _ => True

/-- **The same outcome**: the task is done, and ends as on the path through a thread, which
    hands on what the callback returned or raised. -/
def Delivers (S : GoPath V) : Prop :=
  ∃ t, S.task = .over t ∧ t.result? = S.callback.taskEnd.result? ∧
    t.exception? = S.callback.taskEnd.exception?

end GoPath

/-- What the callback returns is no Exception, and what it raises is an Exception other than
    StopIteration. -/
def CallEnd.Ordinary : CallEnd V → Prop
  | returns (.exc e) => e.isException = false
  | returns _ => True
  | raises e => e.kind = .exception

/-- `asyncio.get_event_loop()` raised nothing. -/
def FindsLoop (os : List (PathObs V)) : Prop := ∀ e, .looked (.raises e) ∉ os

/-- **The wake-up comes in time**: `event.set()` in the goroutine's thread does not go through
    the waiters while the task is about to enter its own, and if it finds the task waiting and
    the loop in its selector, something else wakes the loop afterwards. -/
structure InTime (os : List (PathObs V)) : Prop where
  entered : ∀ blocked, .notified .tested blocked ∉ os
  woken : ∀ before after, os = before ++ .notified .waiting true :: after → .woken ∈ after

/-! ## What a step does -/

namespace GoPath

/-- **What a step does.** -/
inductive Moves (S : GoPath V) : GoPath V → List (PathObs V) → Prop
  | returned {v : PyObj V} : S.wrapped = .call → S.callback = .returns v →
      Moves S { S with cell := v, wrapped := .lookup true } []
  | raised {e : PyExc V} : S.wrapped = .call → S.callback = .raises e →
      Moves S { S with wrapped := raise true e } []
  | fails {first : Bool} {e : PyExc V} : S.wrapped = .lookup first →
      Moves S { S with wrapped := raise first e } [.looked (.raises e)]
  | queues {first : Bool} : S.wrapped = .lookup first →
      Moves S { S with queued := true, blocked := false, wrapped := .over } [.looked .own]
  | found {first : Bool} : S.wrapped = .lookup first →
      Moves S { S with wrapped := .set } [.looked .other]
  | stores {e : PyExc V} : S.wrapped = .caught e →
      Moves S { S with cell := .exc e, wrapped := .lookup false } []
  | sets : S.wrapped = .set →
      Moves S { S with event := true, wrapped := if S.event then .over else .notify } []
  | notifies : S.wrapped = .notify →
      Moves S { S with task := notifyTask S.task, wrapped := .over } [.notified S.task S.blocked]
  | creates : S.task = .absent → S.blocked = false → Moves S { S with task := .created } []
  | passes : S.task = .created → S.blocked = false → S.event = true → Moves S S.finish []
  | tests : S.task = .created → S.blocked = false → S.event = false →
      Moves S { S with task := .tested } []
  | registers : S.task = .tested → S.blocked = false → Moves S { S with task := .waiting } []
  | resumes : S.task = .resolved → S.blocked = false → Moves S S.finish []
  | runs : S.task ≠ .tested → S.blocked = false → S.queued = true → Moves S { S with
      queued := false
      event := true
      task := if S.event then S.task else notifyTask S.task } []
  | blocks : (S.task = .waiting ∨ ∃ t, S.task = .over t) → S.blocked = false → S.queued = false →
      Moves S { S with blocked := true } []
  | wakes : S.blocked = true → Moves S { S with blocked := false } [.woken]

variable {S S' : GoPath V} {os o : List (PathObs V)} {c : CallEnd V}

theorem step_moves {a : PathAct V} (h : S.step a = some (S', o)) : Moves S S' o := by
  cases a with
  | call =>
    rw [step] at h
    split at h
    · rename_i hw
      split at h
      · rename_i hc
        cases h
        exact .returned hw hc
      · rename_i hc
        cases h
        exact .raised hw hc
    · cases h
  | lookup r =>
    rw [step] at h
    split at h
    · rename_i hw
      rcases r with e | _ | _ <;> cases h
      · exact .fails hw
      · exact .queues hw
      · exact .found hw
    · cases h
  | store =>
    rw [step] at h
    split at h
    · rename_i hw
      cases h
      exact .stores hw
    · cases h
  | set =>
    rw [step] at h
    split at h
    · rename_i hw
      cases h
      exact .sets hw
    · cases h
  | notify =>
    rw [step] at h
    split at h
    · rename_i hw
      cases h
      exact .notifies hw
    · cases h
  | create =>
    rw [step] at h
    split at h
    · rename_i ht hb
      cases h
      exact .creates ht hb
    · cases h
  | test =>
    rw [step] at h
    split at h
    · rename_i ht hb
      by_cases he : S.event = true
      · rw [if_pos he] at h
        cases h
        exact .passes ht hb he
      · rw [if_neg he] at h
        cases h
        exact .tests ht hb (Bool.not_eq_true _ ▸ he)
    · cases h
  | register =>
    rw [step] at h
    split at h
    · rename_i ht hb
      cases h
      exact .registers ht hb
    · cases h
  | resume =>
    rw [step] at h
    split at h
    · rename_i ht hb
      cases h
      exact .resumes ht hb
    · cases h
  | runSet =>
    rw [step] at h
    split at h
    · cases h
    · rename_i hb hq hne
      cases h
      exact .runs hne hb hq
    · cases h
  | block =>
    rw [step] at h
    split at h
    · rename_i ht hb hq
      cases h
      exact .blocks (.inl ht) hb hq
    · rename_i t ht hb hq
      cases h
      exact .blocks (.inr ⟨t, ht⟩) hb hq
    · cases h
  | wake =>
    rw [step] at h
    split at h
    · rename_i hb
      cases h
      exact .wakes hb
    · cases h

/-! ## The way to an end -/

def wrappedRank : WrappedPc V → ℕ
  | .call => 7
  | .lookup true => 6
  | .caught _ => 5
  | .lookup false => 4
  | .set => 2
  | .notify => 1
  | .over | .died => 0

def taskRank : AwaitPc V → ℕ
  | .absent => 5
  | .created => 4
  | .tested => 3
  | .waiting => 2
  | .resolved => 1
  | .over _ => 0

/-- The steps that are left, at most. -/
def rank (S : GoPath V) : ℕ :=
  wrappedRank S.wrapped + taskRank S.task + S.queued.toNat + (!S.blocked).toNat

theorem taskRank_notifyTask (pc : AwaitPc V) : taskRank (notifyTask pc) ≤ taskRank pc := by
  cases pc <;> simp [notifyTask, taskRank]

theorem wrappedRank_raise (first : Bool) (e : PyExc V) :
    wrappedRank (raise first e) < wrappedRank (.lookup first : WrappedPc V) := by
  unfold raise
  cases first
  · simp [wrappedRank]
  · split
    · simp [wrappedRank]
    · simp [wrappedRank]

/-- **The program comes to rest**: a step other than a wake-up from outside leaves fewer. -/
theorem Moves.rank_lt (h : Moves S S' o) (ho : .woken ∉ o) : S'.rank < S.rank := by
  cases h with
  | returned hw _ =>
    simp only [rank, hw, wrappedRank]
    omega
  | @raised e hw _ =>
    have hlt := wrappedRank_raise true e
    simp only [rank, hw, wrappedRank] at hlt ⊢
    omega
  | @fails first e hw =>
    have hlt := wrappedRank_raise first e
    simp only [rank, hw] at hlt ⊢
    omega
  | @queues first hw =>
    have hfour : 4 ≤ wrappedRank (.lookup first : WrappedPc V) := by
      cases first <;> simp [wrappedRank]
    have hover : wrappedRank (.over : WrappedPc V) = 0 := rfl
    simp only [rank, hw, hover, Bool.not_false, Bool.toNat_true]
    omega
  | @found first hw =>
    have hfour : 4 ≤ wrappedRank (.lookup first : WrappedPc V) := by
      cases first <;> simp [wrappedRank]
    have hset : wrappedRank (.set : WrappedPc V) = 2 := rfl
    simp only [rank, hw, hset]
    omega
  | stores hw =>
    simp only [rank, hw, wrappedRank]
    omega
  | sets hw =>
    have hle : wrappedRank (if S.event then .over else .notify : WrappedPc V) ≤ 1 := by
      split <;> simp [wrappedRank]
    have hset : wrappedRank (.set : WrappedPc V) = 2 := rfl
    simp only [rank, hw, hset]
    omega
  | notifies hw =>
    have hle := taskRank_notifyTask S.task
    simp only [rank, hw, wrappedRank]
    omega
  | creates ht _ =>
    simp only [rank, ht, taskRank]
    omega
  | passes ht _ _ =>
    simp only [rank, finish, ht, taskRank]
    omega
  | tests ht _ _ =>
    simp only [rank, ht, taskRank]
    omega
  | registers ht _ =>
    simp only [rank, ht, taskRank]
    omega
  | resumes ht _ =>
    simp only [rank, finish, ht, taskRank]
    omega
  | runs _ _ hq =>
    have hle : taskRank (if S.event then S.task else notifyTask S.task) ≤ taskRank S.task := by
      split
      · exact le_rfl
      · exact taskRank_notifyTask S.task
    simp only [rank, hq, Bool.toNat_true, Bool.toNat_false]
    omega
  | blocks _ hb _ =>
    simp [rank, hb]
  | wakes _ => exact absurd List.mem_cons_self ho

/-- **Settled** is a state in which no step is left, but a wake-up from outside. -/
theorem settled_iff : S.Settled ↔ ∀ a, a ≠ .wake → S.step a = none := by
  constructor
  · rintro ⟨hw, hb⟩ a ha
    cases a with
    | wake => exact absurd rfl ha
    | call => rcases hw with hw | hw <;> simp [step, hw]
    | lookup r => rcases hw with hw | hw <;> simp [step, hw]
    | store => rcases hw with hw | hw <;> simp [step, hw]
    | set => rcases hw with hw | hw <;> simp [step, hw]
    | notify => rcases hw with hw | hw <;> simp [step, hw]
    | create => simp [step, hb]
    | test => simp [step, hb]
    | register => simp [step, hb]
    | resume => simp [step, hb]
    | runSet => rcases ht : S.task with _ | _ | _ | _ | _ | t <;> simp [step, hb, ht]
    | block => simp [step, hb]
  · intro h
    have hb : S.blocked = true := by
      by_contra hb
      rw [Bool.not_eq_true] at hb
      have hcreate := h .create (by simp)
      have htest := h .test (by simp)
      have hregister := h .register (by simp)
      have hresume := h .resume (by simp)
      have hrun := h .runSet (by simp)
      have hblock := h .block (by simp)
      rcases ht : S.task with _ | _ | _ | _ | _ | t
      · simp [step, ht, hb] at hcreate
      · simp [step, ht, hb] at htest
      · simp [step, ht, hb] at hregister
      · rcases hq : S.queued with _ | _
        · simp [step, ht, hb, hq] at hblock
        · simp [step, ht, hb, hq] at hrun
      · simp [step, ht, hb] at hresume
      · rcases hq : S.queued with _ | _
        · simp [step, ht, hb, hq] at hblock
        · simp [step, ht, hb, hq] at hrun
    refine ⟨?_, hb⟩
    have hcall := h .call (by simp)
    have hlookup := h (.lookup .other) (by simp)
    have hstore := h .store (by simp)
    have hset := h .set (by simp)
    have hnotify := h .notify (by simp)
    rcases hw : S.wrapped with _ | first | e | _ | _ | _ | _
    · rcases hc : S.callback with v | e
      · simp [step, hw, hc] at hcall
      · simp [step, hw, hc] at hcall
    · simp [step, hw] at hlookup
    · simp [step, hw] at hstore
    · simp [step, hw] at hset
    · simp [step, hw] at hnotify
    · exact .inl rfl
    · exact .inr rfl

/-! ## What is in the cell -/

/-- The cell holds what the callback returned or raised, or an exception that
    `get_event_loop()` raised in the `try` block. -/
inductive Ready (c : CallEnd V) (cell : PyObj V) (os : List (PathObs V)) : Prop
  | returned : FindsLoop os → c = .returns cell → Ready c cell os
  | raised {e : PyExc V} : FindsLoop os → c = .raises e → e.isException = true → cell = .exc e →
      Ready c cell os
  | replaced {e : PyExc V} {v : PyObj V} : ¬ FindsLoop os → c = .returns v → e.isException = true →
      cell = .exc e → Ready c cell os

/-- **What `wrapped` has done**, by what it does next. -/
def Told (S : GoPath V) (os : List (PathObs V)) : Prop :=
  match S.wrapped with
  | .call => FindsLoop os
  | .lookup true => FindsLoop os ∧ S.callback = .returns S.cell
  | .caught e => e.isException = true ∧ (FindsLoop os ∧ S.callback = .raises e ∨
      ¬ FindsLoop os ∧ ∃ v, S.callback = .returns v)
  | .lookup false | .set | .notify | .over => Ready S.callback S.cell os
  | .died => ¬ FindsLoop os ∨ ∃ e, S.callback = .raises e ∧ e.isException = false

theorem findsLoop_append (ho : FindsLoop o) : FindsLoop (os ++ o) ↔ FindsLoop os := by
  constructor
  · intro h e he
    exact h e (List.mem_append_left _ he)
  · intro h e he
    rcases List.mem_append.1 he with he | he
    · exact h e he
    · exact ho e he

theorem not_findsLoop {e : PyExc V} : ¬ FindsLoop (os ++ [.looked (.raises e)]) :=
  fun h => h e List.mem_concat_self

theorem Ready.append {cell : PyObj V} (h : Ready c cell os) (ho : FindsLoop o) :
    Ready c cell (os ++ o) := by
  rcases h with ⟨hf, hc⟩ | ⟨hf, hc, he, hcell⟩ | ⟨hf, hc, he, hcell⟩
  · exact .returned ((findsLoop_append ho).2 hf) hc
  · exact .raised ((findsLoop_append ho).2 hf) hc he hcell
  · exact .replaced (fun h => hf ((findsLoop_append ho).1 h)) hc he hcell

/-- Steps that are not of `wrapped`. -/
theorem Told.keep (h : S.Told os) (ho : FindsLoop o) (hw : S'.wrapped = S.wrapped)
    (hc : S'.callback = S.callback) (hcell : S'.cell = S.cell) : S'.Told (os ++ o) := by
  unfold Told at h ⊢
  rw [hw, hc, hcell]
  generalize S.wrapped = pc at h ⊢
  rcases pc with _ | first | e | _ | _ | _ | _
  · exact (findsLoop_append ho).2 h
  · cases first with
    | true => exact ⟨(findsLoop_append ho).2 h.1, h.2⟩
    | false => exact Ready.append h ho
  · refine ⟨h.1, ?_⟩
    rw [findsLoop_append ho]
    exact h.2
  · exact Ready.append h ho
  · exact Ready.append h ho
  · exact Ready.append h ho
  · have h' : ¬ FindsLoop os ∨ ∃ e, S.callback = .raises e ∧ e.isException = false := h
    show ¬ FindsLoop (os ++ o) ∨ _
    rw [findsLoop_append ho]
    exact h'

theorem findsLoop_nil : FindsLoop ([] : List (PathObs V)) := fun _ h => by cases h

theorem Told.step (h : S.Told os) (hs : Moves S S' o) : S'.Told (os ++ o) := by
  cases hs with
  | returned hw hc =>
    have hf : FindsLoop os := by simpa [Told, hw] using h
    simpa [Told] using ⟨hf, hc⟩
  | @raised e hw hc =>
    have hf : FindsLoop os := by simpa [Told, hw] using h
    by_cases he : e.isException = true
    · simp [Told, raise, he, hf, hc]
    · simp [Told, raise, he, hc]
  | @fails first e hw =>
    cases first with
    | true =>
      obtain ⟨-, hc⟩ : FindsLoop os ∧ S.callback = .returns S.cell := by simpa [Told, hw] using h
      by_cases he : e.isException = true
      · simp [Told, raise, he, hc, not_findsLoop]
      · simp [Told, raise, he, not_findsLoop]
    | false => simp [Told, raise, not_findsLoop]
  | @queues first hw =>
    have ho : FindsLoop [.looked (.own : Lookup V)] := by simp [FindsLoop]
    cases first with
    | true =>
      obtain ⟨hf, hc⟩ : FindsLoop os ∧ S.callback = .returns S.cell := by simpa [Told, hw] using h
      exact .returned ((findsLoop_append ho).2 hf) hc
    | false =>
      have hr : Ready S.callback S.cell os := by simpa [Told, hw] using h
      exact hr.append ho
  | @found first hw =>
    have ho : FindsLoop [.looked (.other : Lookup V)] := by simp [FindsLoop]
    cases first with
    | true =>
      obtain ⟨hf, hc⟩ : FindsLoop os ∧ S.callback = .returns S.cell := by simpa [Told, hw] using h
      exact .returned ((findsLoop_append ho).2 hf) hc
    | false =>
      have hr : Ready S.callback S.cell os := by simpa [Told, hw] using h
      exact hr.append ho
  | @stores e hw =>
    obtain ⟨he, ⟨hf, hc⟩ | ⟨hf, v, hc⟩⟩ : e.isException = true ∧ (FindsLoop os ∧
        S.callback = .raises e ∨ ¬ FindsLoop os ∧ ∃ v, S.callback = .returns v) := by
      simpa [Told, hw] using h
    · rw [List.append_nil]
      exact .raised hf hc he rfl
    · rw [List.append_nil]
      exact .replaced hf hc he rfl
  | sets hw =>
    have hr : Ready S.callback S.cell os := by simpa [Told, hw] using h
    rw [List.append_nil]
    by_cases he : S.event = true
    · simpa [Told, he] using hr
    · simpa [Told, he] using hr
  | notifies hw =>
    have hr : Ready S.callback S.cell os := by simpa [Told, hw] using h
    exact hr.append (by simp [FindsLoop])
  | creates _ _ => exact h.keep findsLoop_nil rfl rfl rfl
  | passes _ _ _ => exact h.keep findsLoop_nil rfl rfl rfl
  | tests _ _ _ => exact h.keep findsLoop_nil rfl rfl rfl
  | registers _ _ => exact h.keep findsLoop_nil rfl rfl rfl
  | resumes _ _ => exact h.keep findsLoop_nil rfl rfl rfl
  | runs _ _ _ => exact h.keep findsLoop_nil rfl rfl rfl
  | blocks _ _ _ => exact h.keep findsLoop_nil rfl rfl rfl
  | wakes _ => exact h.keep (by simp [FindsLoop]) rfl rfl rfl

/-- How the task ends that reads the cell. -/
def ending (cell : PyObj V) : TaskEnd V := (awaitWrapper cell).coroutine.taskEnd

theorem ending_exc {e : PyExc V} (he : e.isException = true) :
    ending (.exc e) = .exception (if e.kind = .stopIteration then { e with kind := .exception } else e) := by
  rcases e with ⟨kind, args⟩
  cases kind with
  | stopIteration => rfl
  | exception => rfl
  | cancelledError => cases he
  | baseException => cases he

/-- **The end of the task** that reads the cell is the one on the other path if and only if the
    outcome is ordinary and a loop was found. -/
theorem Ready.ending_iff {cell : PyObj V} (h : Ready c cell os) :
    ((ending cell).result? = c.taskEnd.result? ∧ (ending cell).exception? = c.taskEnd.exception?) ↔
      c.Ordinary ∧ FindsLoop os := by
  rcases h with ⟨hf, rfl⟩ | ⟨hf, rfl, he, rfl⟩ | ⟨hf, rfl, he, rfl⟩
  · rcases cell with _ | e | v
    · exact iff_of_true ⟨rfl, rfl⟩ ⟨trivial, hf⟩
    · by_cases he : e.isException = true
      · rw [ending_exc he]
        refine iff_of_false (fun h => by cases h.1) fun h => ?_
        have hno : e.isException = false := h.1
        rw [he] at hno
        cases hno
      · have hret : ending (.exc e) = .result (.exc e) := by
          simp [ending, awaitWrapper, he, CallEnd.coroutine, CallEnd.taskEnd]
        rw [hret]
        have hno : e.isException = false := by simpa using he
        exact iff_of_true ⟨rfl, rfl⟩ ⟨hno, hf⟩
    · exact iff_of_true ⟨rfl, rfl⟩ ⟨trivial, hf⟩
  · rename_i e
    rw [ending_exc he]
    rcases e with ⟨kind, args⟩
    cases kind with
    | stopIteration =>
      refine iff_of_false (fun h => ?_) fun h => by cases h.1
      cases h.1
    | exception => exact iff_of_true ⟨rfl, rfl⟩ ⟨rfl, hf⟩
    | cancelledError => cases he
    | baseException => cases he
  · rw [ending_exc he]
    exact iff_of_false (fun h => by cases h.1) fun h => hf h.2

/-! ## Where the task is -/

/-- The task has not been woken. -/
inductive Early : AwaitPc V → Prop
  | absent : Early .absent
  | created : Early .created
  | tested : Early .tested
  | waiting : Early .waiting

/-- The waiters were gone through in the goroutine's thread. -/
def Unnotified (os : List (PathObs V)) : Prop := ∀ task blocked, .notified task blocked ∉ os

/-- **How far the wake-up is.** -/
inductive Phase (S : GoPath V) (os : List (PathObs V)) : Prop
  | unset : S.event = false → S.queued = false → S.wrapped ≠ .notify → S.wrapped ≠ .over →
      Early S.task → Unnotified os → Phase S os
  | queued : S.event = false → S.queued = true → S.blocked = false → S.wrapped = .over →
      Early S.task → Unnotified os → Phase S os
  | set : S.event = true → S.queued = false → S.wrapped = .notify →
      Early S.task ∨ S.task = .over (ending S.cell) → Unnotified os → Phase S os
  /-- the task has the wake-up, or does not need it -/
  | arrived : S.event = true → S.queued = false → S.wrapped = .over →
      S.task = .absent ∨ S.task = .created ∨ S.task = .resolved ∧ S.blocked = false ∨
        S.task = .over (ending S.cell) → InTime os → Phase S os
  /-- the task is woken, and the loop waits in its selector -/
  | parked {before after : List (PathObs V)} : S.event = true → S.queued = false →
      S.wrapped = .over → S.task = .resolved → S.blocked = true →
      os = before ++ .notified .waiting true :: after → .woken ∉ after →
      (∀ blocked, .notified .tested blocked ∉ os) → Phase S os
  /-- the waiters were gone through before the task entered its own -/
  | lost {blocked : Bool} : S.event = true → S.queued = false → S.wrapped = .over →
      S.task = .tested ∨ S.task = .waiting → .notified .tested blocked ∈ os → Phase S os

theorem Unnotified.append (h : Unnotified os) (ho : Unnotified o) : Unnotified (os ++ o) := by
  intro task blocked hm
  rcases List.mem_append.1 hm with hm | hm
  · exact h task blocked hm
  · exact ho task blocked hm

theorem Unnotified.inTime (h : Unnotified os) : InTime os where
  entered blocked := h _ blocked
  woken before after he := absurd (by rw [he]; simp) (h .waiting true)

theorem unnotified_nil : Unnotified ([] : List (PathObs V)) := fun _ _ h => by cases h

/-- What is seen after the wake-up does not make it late. -/
theorem inTime_append (h : InTime os) (ho : Unnotified o) : InTime (os ++ o) where
  entered blocked hm := by
    rcases List.mem_append.1 hm with hm | hm
    · exact h.entered blocked hm
    · exact ho _ blocked hm
  woken before after he := by
    rcases List.append_eq_append_iff.1 he with ⟨l, hl, hl'⟩ | ⟨l, hl, hl'⟩
    · exact absurd (by rw [hl']; simp) (ho .waiting true)
    · cases l with
      | nil => exact absurd (by rw [← List.nil_append o, ← hl']; simp) (ho .waiting true)
      | cons x l =>
        obtain ⟨rfl, rfl⟩ := List.cons.inj hl'
        exact List.mem_append_left _ (h.woken before l hl)

/-- A wake-up from outside is in time for every wake-up before it. -/
theorem inTime_woken (h : ∀ blocked, .notified .tested blocked ∉ os) : InTime (os ++ [.woken]) where
  entered blocked hm := by
    rcases List.mem_append.1 hm with hm | hm
    · exact h blocked hm
    · simp at hm
  woken before after he := by
    rcases after.eq_nil_or_concat with rfl | ⟨l, x, rfl⟩
    · obtain ⟨-, hx⟩ := List.append_inj' he rfl
      cases hx
    · rw [List.concat_eq_append, ← List.cons_append, ← List.append_assoc] at he
      obtain ⟨-, hx⟩ := List.append_inj' he rfl
      cases hx
      simp

/-- Where `wrapped` is before `event.set()`, nothing is set. -/
theorem Phase.unset_of (h : Phase S os) (hn : S.wrapped ≠ .notify) (ho : S.wrapped ≠ .over) :
    S.event = false ∧ S.queued = false ∧ Early S.task ∧ Unnotified os := by
  cases h with
  | unset he hq _ _ ht hu => exact ⟨he, hq, ht, hu⟩
  | queued _ _ _ hw _ _ => exact absurd hw ho
  | set _ _ hw _ _ => exact absurd hw hn
  | arrived _ _ hw _ _ => exact absurd hw ho
  | parked _ _ hw _ _ _ _ _ => exact absurd hw ho
  | lost _ _ hw _ _ => exact absurd hw ho

theorem raise_ne (first : Bool) (e : PyExc V) : raise first e ≠ .notify ∧ raise first e ≠ .over := by
  unfold raise
  split
  · exact ⟨fun h => (by cases h), fun h => (by cases h)⟩
  · exact ⟨fun h => (by cases h), fun h => (by cases h)⟩

/-- Steps of `wrapped` before `event.set()`. -/
theorem Phase.before (h : Phase S os) (hn : S.wrapped ≠ .notify) (ho : S.wrapped ≠ .over)
    (hn' : S'.wrapped ≠ .notify) (ho' : S'.wrapped ≠ .over) (he : S'.event = S.event)
    (hq : S'.queued = S.queued) (ht : S'.task = S.task) (hu : Unnotified o) : Phase S' (os ++ o) := by
  obtain ⟨he₀, hq₀, ht₀, hu₀⟩ := h.unset_of hn ho
  exact .unset (he.trans he₀) (hq.trans hq₀) hn' ho' (by rw [ht]; exact ht₀) (hu₀.append hu)

theorem inTime_notified {task : AwaitPc V} {blocked : Bool} (h : Unnotified os)
    (hne : task ≠ .tested) (hb : task = .waiting → blocked = false) :
    InTime (os ++ [.notified task blocked]) where
  entered blocked' hm := by
    rcases List.mem_append.1 hm with hm | hm
    · exact h _ _ hm
    · rw [List.mem_singleton] at hm
      injection hm with ht _
      exact hne ht.symm
  woken before after he := by
    rcases after.eq_nil_or_concat with rfl | ⟨l, x, rfl⟩
    · obtain ⟨-, hx⟩ := List.append_inj' he rfl
      injection hx with hx
      injection hx with ht hb'
      rw [hb ht] at hb'
      cases hb'
    · rw [List.concat_eq_append, ← List.cons_append, ← List.append_assoc] at he
      obtain ⟨rfl, -⟩ := List.append_inj' he rfl
      exact absurd (by simp) (h .waiting true)

/-- **The waiters are gone through** in the goroutine's thread. -/
theorem Phase.notified (h : Phase S os) (hw : S.wrapped = .notify) :
    Phase { S with task := notifyTask S.task, wrapped := .over }
      (os ++ [.notified S.task S.blocked]) := by
  cases h with
  | unset _ _ hn _ _ _ => exact absurd hw hn
  | queued _ _ _ ho _ _ => rw [hw] at ho; cases ho
  | arrived _ _ ho _ _ => rw [hw] at ho; cases ho
  | parked _ _ ho _ _ _ _ _ => rw [hw] at ho; cases ho
  | lost _ _ ho _ _ => rw [hw] at ho; cases ho
  | set he hq _ ht hu =>
    rcases hpc : S.task with _ | _ | _ | _ | _ | t
    · exact .arrived he hq rfl (.inl rfl) (inTime_notified hu (by simp) (by simp))
    · exact .arrived he hq rfl (.inr (.inl rfl)) (inTime_notified hu (by simp) (by simp))
    · exact .lost he hq rfl (.inl rfl) List.mem_concat_self
    · rcases hb : S.blocked with _ | _
      · exact .arrived he hq rfl (.inr (.inr (.inl ⟨rfl, rfl⟩))) (inTime_notified hu (by simp) (by simp))
      · refine .parked he hq rfl rfl rfl rfl (by simp) fun blocked hm => ?_
        rcases List.mem_append.1 hm with hm | hm
        · exact hu _ _ hm
        · simp at hm
    · rw [hpc] at ht
      rcases ht with ht | ht
      · cases ht
      · cases ht
    · rw [hpc] at ht
      have hend := ht.resolve_left fun h => by cases h
      exact .arrived he hq rfl (.inr (.inr (.inr hend))) (inTime_notified hu (by simp) (by simp))

/-- A step of the loop that does not touch the event, by the phases it can be made in. -/
theorem Phase.step (h : Phase S os) (hs : Moves S S' o) : Phase S' (os ++ o) := by
  cases hs with
  | returned hw _ =>
    refine h.before ?_ ?_ ?_ ?_ rfl rfl rfl unnotified_nil <;> simp [hw]
  | @raised e hw _ =>
    refine h.before ?_ ?_ (raise_ne true e).1 (raise_ne true e).2 rfl rfl rfl unnotified_nil <;>
      simp [hw]
  | @fails first e hw =>
    refine h.before ?_ ?_ (raise_ne first e).1 (raise_ne first e).2 rfl rfl rfl ?_ <;>
      simp [hw, Unnotified]
  | queues hw =>
    obtain ⟨he, -, ht, hu⟩ := h.unset_of (by simp [hw]) (by simp [hw])
    exact .queued he rfl rfl rfl ht (hu.append (by simp [Unnotified]))
  | found hw =>
    refine h.before ?_ ?_ ?_ ?_ rfl rfl rfl ?_ <;> simp [hw, Unnotified]
  | stores hw =>
    refine h.before ?_ ?_ ?_ ?_ rfl rfl rfl unnotified_nil <;> simp [hw]
  | sets hw =>
    obtain ⟨he, hq, ht, hu⟩ := h.unset_of (by simp [hw]) (by simp [hw])
    refine .set rfl hq (by simp [he]) (.inl ht) (hu.append unnotified_nil)
  | notifies hw => exact h.notified hw
  | creates ht hb =>
    rw [List.append_nil]
    cases h with
    | unset he hq hn ho _ hu => exact .unset he hq hn ho .created hu
    | queued he hq hb ho _ hu => exact .queued he hq hb ho .created hu
    | set he hq hw _ hu => exact .set he hq hw (.inl .created) hu
    | arrived he hq hw _ hin => exact .arrived he hq hw (.inr (.inl rfl)) hin
    | parked _ _ _ ht' _ _ _ _ => rw [ht] at ht'; cases ht'
    | lost _ _ _ ht' _ =>
      rw [ht] at ht'
      rcases ht' with ht' | ht'
      · cases ht'
      · cases ht'
  | passes ht hb he =>
    rw [List.append_nil]
    cases h with
    | unset he' _ _ _ _ _ => rw [he] at he'; cases he'
    | queued he' _ _ _ _ _ => rw [he] at he'; cases he'
    | set _ hq hw _ hu => exact .set he hq hw (.inr rfl) hu
    | arrived _ hq hw _ hin => exact .arrived he hq hw (.inr (.inr (.inr rfl))) hin
    | parked _ _ _ ht' _ _ _ _ => rw [ht] at ht'; cases ht'
    | lost _ _ _ ht' _ =>
      rw [ht] at ht'
      rcases ht' with ht' | ht'
      · cases ht'
      · cases ht'
  | tests ht hb he =>
    rw [List.append_nil]
    cases h with
    | unset _ hq hn ho _ hu => exact .unset he hq hn ho .tested hu
    | queued _ hq hb ho _ hu => exact .queued he hq hb ho .tested hu
    | set he' _ _ _ _ => rw [he] at he'; cases he'
    | arrived he' _ _ _ _ => rw [he] at he'; cases he'
    | parked he' _ _ _ _ _ _ _ => rw [he] at he'; cases he'
    | lost he' _ _ _ _ => rw [he] at he'; cases he'
  | registers ht hb =>
    rw [List.append_nil]
    cases h with
    | unset he hq hn ho _ hu => exact .unset he hq hn ho .waiting hu
    | queued he hq hb ho _ hu => exact .queued he hq hb ho .waiting hu
    | set he hq hw _ hu => exact .set he hq hw (.inl .waiting) hu
    | arrived _ _ _ ht' _ =>
      rw [ht] at ht'
      rcases ht' with ht' | ht' | ⟨ht', -⟩ | ht' <;> cases ht'
    | parked _ _ _ ht' _ _ _ _ => rw [ht] at ht'; cases ht'
    | lost he hq hw _ hm => exact .lost he hq hw (.inr rfl) hm
  | resumes ht hb =>
    rw [List.append_nil]
    cases h with
    | unset _ _ _ _ ht' _ => rw [ht] at ht'; cases ht'
    | queued _ _ _ _ ht' _ => rw [ht] at ht'; cases ht'
    | set _ _ _ ht' _ =>
      rw [ht] at ht'
      rcases ht' with ht' | ht'
      · cases ht'
      · cases ht'
    | arrived he hq hw _ hin => exact .arrived he hq hw (.inr (.inr (.inr rfl))) hin
    | parked _ _ _ _ hb' _ _ _ => rw [hb] at hb'; cases hb'
    | lost _ _ _ ht' _ =>
      rw [ht] at ht'
      rcases ht' with ht' | ht'
      · cases ht'
      · cases ht'
  | runs hne hb hq =>
    rw [List.append_nil]
    cases h with
    | unset _ hq' _ _ _ _ => rw [hq] at hq'; cases hq'
    | set _ hq' _ _ _ => rw [hq] at hq'; cases hq'
    | arrived _ hq' _ _ _ => rw [hq] at hq'; cases hq'
    | parked _ hq' _ _ _ _ _ _ => rw [hq] at hq'; cases hq'
    | lost _ hq' _ _ _ => rw [hq] at hq'; cases hq'
    | queued he _ _ hw ht hu =>
      refine .arrived rfl rfl hw ?_ hu.inTime
      rcases hpc : S.task with _ | _ | _ | _ | _ | t
      · exact .inl (by simp [he, notifyTask])
      · exact .inr (.inl (by simp [he, notifyTask]))
      · exact absurd hpc hne
      · exact .inr (.inr (.inl ⟨by simp [he, notifyTask], hb⟩))
      · rw [hpc] at ht; cases ht
      · rw [hpc] at ht; cases ht
  | blocks ht hb hq =>
    rw [List.append_nil]
    cases h with
    | unset he hq hn ho ht hu => exact .unset he hq hn ho ht hu
    | queued _ hq' _ _ _ _ => rw [hq] at hq'; cases hq'
    | set he hq hw ht hu => exact .set he hq hw ht hu
    | arrived he hq hw ht' hin =>
      refine .arrived he hq hw ?_ hin
      rcases ht' with ht' | ht' | ⟨ht', -⟩ | ht'
      · exact .inl ht'
      · exact .inr (.inl ht')
      · rw [ht'] at ht
        rcases ht with ht | ⟨t, ht⟩
        · cases ht
        · cases ht
      · exact .inr (.inr (.inr ht'))
    | parked _ _ _ _ hb' _ _ _ => rw [hb] at hb'; cases hb'
    | lost he hq hw ht hm => exact .lost he hq hw ht hm
  | wakes hb =>
    cases h with
    | unset he hq hn ho ht hu => exact .unset he hq hn ho ht (hu.append (by simp [Unnotified]))
    | queued _ _ hb' _ _ _ => rw [hb] at hb'; cases hb'
    | set he hq hw ht hu => exact .set he hq hw ht (hu.append (by simp [Unnotified]))
    | arrived he hq hw ht hin =>
      refine .arrived he hq hw ?_ (inTime_append hin (by simp [Unnotified]))
      rcases ht with ht | ht | ⟨ht, -⟩ | ht
      · exact .inl ht
      · exact .inr (.inl ht)
      · exact .inr (.inr (.inl ⟨ht, rfl⟩))
      · exact .inr (.inr (.inr ht))
    | parked he hq hw ht _ _ _ hno => exact .arrived he hq hw (.inr (.inr (.inl ⟨ht, rfl⟩))) (inTime_woken hno)
    | lost he hq hw ht hm => exact .lost he hq hw ht (List.mem_append_left _ hm)

/-- While the loop is in its selector the task has nothing to do in it. -/
def Rests (S : GoPath V) : Prop :=
  S.blocked = true → S.task ≠ .absent ∧ S.task ≠ .created ∧ S.task ≠ .tested

theorem Rests.step (h : S.Rests) (hs : Moves S S' o) : S'.Rests := by
  intro hb
  cases hs with
  | returned _ _ => exact h hb
  | raised _ _ => exact h hb
  | fails _ => exact h hb
  | queues _ => cases hb
  | found _ => exact h hb
  | stores _ => exact h hb
  | sets _ => exact h hb
  | notifies _ =>
    obtain ⟨ha, hc, ht⟩ := h hb
    rcases hpc : S.task with _ | _ | _ | _ | _ | t <;> simp_all [notifyTask]
  | creates _ hb' => rw [show S.blocked = true from hb] at hb'; cases hb'
  | passes _ hb' _ => rw [show S.blocked = true from hb] at hb'; cases hb'
  | tests _ hb' _ => rw [show S.blocked = true from hb] at hb'; cases hb'
  | registers _ hb' => rw [show S.blocked = true from hb] at hb'; cases hb'
  | resumes _ hb' => rw [show S.blocked = true from hb] at hb'; cases hb'
  | runs _ hb' _ => rw [show S.blocked = true from hb] at hb'; cases hb'
  | blocks ht _ _ =>
    rcases ht with ht | ⟨t, ht⟩
    · simp [ht]
    · simp [ht]
  | wakes _ => cases hb

/-! ## Runs -/

/-- **What a run keeps.** -/
structure Kept (S : GoPath V) (os : List (PathObs V)) : Prop where
  told : S.Told os
  phase : Phase S os
  rests : S.Rests

theorem Kept.run (hrun : Lts.Run Steps (start c) S os) : Kept S os ∧ S.callback = c := by
  refine hrun.inv (I := fun (S : GoPath V) os => Kept S os ∧ S.callback = c) ?_ ?_
  · exact ⟨⟨findsLoop_nil, .unset rfl rfl (by simp [start]) (by simp [start]) .absent unnotified_nil,
      fun h => by cases h⟩, rfl⟩
  · rintro S S' os o - ⟨⟨htold, hphase, hrests⟩, hc⟩ ⟨a, hs, -⟩
    have hmoves := step_moves hs
    refine ⟨⟨htold.step hmoves, hphase.step hmoves, hrests.step hmoves⟩, ?_⟩
    rw [← hc]
    cases hmoves <;> rfl

theorem not_inTime_of_parked {before after : List (PathObs V)}
    (ho : os = before ++ .notified .waiting true :: after) (hno : .woken ∉ after) : ¬ InTime os :=
  fun h => hno (h.woken before after ho)

/-- **The Go path delivers the outcome** in the runs in which the callback's outcome is ordinary,
    a loop was found and the wake-up was in time, and in no other. -/
theorem go_path_iff (hrun : Lts.Run Steps (start c) S os) (hs : S.Settled) :
    S.Delivers ↔ c.Ordinary ∧ FindsLoop os ∧ InTime os := by
  obtain ⟨⟨htold, hphase, hrests⟩, rfl⟩ := Kept.run hrun
  obtain ⟨hw, hb⟩ := hs
  have hnot (ht : ∀ t, S.task ≠ .over t) : ¬ S.Delivers := fun ⟨t, h, _⟩ => ht t h
  cases hphase with
  | unset _ _ _ ho ht _ =>
    have hdied := hw.resolve_left ho
    refine iff_of_false (hnot fun t he => ?_) ?_
    · rw [he] at ht
      cases ht
    · rintro ⟨hord, hf, -⟩
      rw [Told, hdied] at htold
      rcases htold with hno | ⟨e, hc, he⟩
      · exact hno hf
      · rw [hc] at hord
        have hkind : e.kind = .exception := hord
        rw [PyExc.isException, hkind] at he
        cases he
  | queued _ _ hb' _ _ _ => rw [hb] at hb'; cases hb'
  | set _ _ hn _ _ =>
    rw [hn] at hw
    rcases hw with hw | hw
    · cases hw
    · cases hw
  | arrived _ _ hover ht hin =>
    have hend : S.task = .over (ending S.cell) := by
      obtain ⟨ha, hc, -⟩ := hrests hb
      rcases ht with ht | ht | ⟨-, hb'⟩ | ht
      · exact absurd ht ha
      · exact absurd ht hc
      · rw [hb] at hb'
        cases hb'
      · exact ht
    rw [Told, hover] at htold
    have hiff := htold.ending_iff
    have hdel : S.Delivers ↔ (ending S.cell).result? = S.callback.taskEnd.result? ∧
        (ending S.cell).exception? = S.callback.taskEnd.exception? := by
      constructor
      · rintro ⟨t, ht', hr⟩
        rw [hend] at ht'
        cases ht'
        exact hr
      · intro hr
        exact ⟨_, hend, hr⟩
    rw [hdel, hiff]
    simp [hin]
  | parked _ _ _ ht _ ho hno _ =>
    refine iff_of_false (hnot fun t he => ?_) fun h => not_inTime_of_parked ho hno h.2.2
    rw [he] at ht
    cases ht
  | lost _ _ _ ht hm =>
    refine iff_of_false (hnot fun t he => ?_) fun h => h.2.2.entered _ hm
    rw [he] at ht
    rcases ht with ht | ht
    · cases ht
    · cases ht

/-- The loop tests and waits, and the goroutine wakes it. -/
def plainWay : List (PathAct ℕ) :=
  [.call, .create, .test, .register, .lookup .own, .runSet, .resume, .block]

theorem plainWay_run (v : PyObj ℕ) : ∃ S, Lts.Run Steps (start (.returns v)) S [.looked .own] ∧
    S.Settled ∧ S.task = .over (ending v) := by
  obtain ⟨S, hexec, hs⟩ : ∃ S, Lts.exec step plainWay (start (.returns v)) = some (S, [.looked .own]) ∧
      S.Settled ∧ S.task = .over (ending v) := ⟨_, rfl, ⟨.inl rfl, rfl⟩, rfl⟩
  exact ⟨S, Lts.exec_run hexec (Lts.along_of fun _ _ _ => trivial), hs⟩

theorem findsLoop_own : FindsLoop [.looked (.own : Lookup ℕ)] := by simp [FindsLoop]

theorem inTime_own : InTime [.looked (.own : Lookup ℕ)] := by
  have h : Unnotified [.looked (.own : Lookup ℕ)] := by simp [Unnotified]
  exact h.inTime

theorem go_path_sample : ∃ S : GoPath ℕ, S.Settled ∧ S.Delivers ∧ S.callback = .returns (.value 7) := by
  obtain ⟨S, hrun, hs, -⟩ := plainWay_run (.value 7)
  exact ⟨S, hs, (go_path_iff hrun hs).2 ⟨trivial, findsLoop_own, inTime_own⟩, (Kept.run hrun).2⟩

/-- **A returned exception is raised**: the callback returns an instance of an Exception, and
    `result()` of the task raises it. -/
theorem returned_exception_raised : ∃ S : GoPath ℕ,
    Lts.Run Steps (start (.returns (.exc ⟨.exception, 0⟩))) S [.looked .own] ∧ S.Settled ∧
      S.task = .over (.exception ⟨.exception, 0⟩) ∧ ¬ S.Delivers := by
  obtain ⟨S, hrun, hs, ht⟩ := plainWay_run (.exc ⟨.exception, 0⟩)
  refine ⟨S, hrun, hs, ht, ?_⟩
  rintro ⟨t, ht', hr, -⟩
  rw [ht] at ht'
  cases ht'
  rw [(Kept.run hrun).2] at hr
  cases hr

end GoPath

end Pipebomb
