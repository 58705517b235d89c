/-
  The Go side of a task: `gsyncio.go`.

  A starter allocates a `callbackEntry`, enters it into `callbacks` and
  `cancellationMap`, and starts a goroutine, whose deferred function deletes the two
  entries.  All of these hold `mapMu`, and nothing reads the maps without it, so each is
  one step.  `_CancelGoTask` is two: `entry.canceled`, which it replaces first, is read by
  the goroutine without the lock.

  * `Sched`: the two maps, the entries with the goroutines that run on them, the callers'
    flags, and the cancel that holds the lock; `Sched.step` is one step of the program.
  * `UsesFresh`: a start takes an id that no earlier start or cancel named.  The invariants
    need less, that no earlier start did (`StartsFresh`).
  * `Sched.Inv`: what ties the maps, the flag pointers and the goroutines to the steps
    made so far; `Sched.Spared`: a task that was cancelled before it looked at its flag.
  * `go_task_life`: callbacks run at most once, not after a cancel that the check can see,
    and `_IsCanceled` tells whether the task runs.
-/
import Pipebomb.Lib.Dict
import Pipebomb.Lib.Run

namespace Pipebomb

/-! ## The program -/

/-- Where a cancel flag is. -/
inductive FlagPtr
  /-- in the caller's memory: `canceled *C.int` -/
  | given (a : ℕ)
  /-- `&noCancel`, which nothing writes -/
  | noCancel
  /-- `&[]int32{1}[0]` -/
  | one
  deriving DecidableEq

/-- What a goroutine does next. -/
inductive GoPc
  /-- read `entry.canceled` -/
  | check
  /-- read what the pointer it has read points to -/
  | loaded (p : FlagPtr)
  | call
  /-- come back from the callback -/
  | calling
  /-- run the deferred function -/
  | deferred
  | done
  deriving DecidableEq

/-- A `callbackEntry` and the goroutine that runs on it. -/
structure GoTask where
  id : ℤ
  canceled : FlagPtr
  pc : GoPc
  deriving DecidableEq

/-- The state of the library. -/
structure Sched where
  callbacks : Dict ℤ ℕ
  cancellationMap : Dict ℤ Bool
  tasks : List GoTask
  /-- the memory of the callers -/
  flags : ℕ → ℤ
  /-- the id of the `_CancelGoTask` that holds `mapMu` -/
  cancelling : Option ℤ

/-- What happens to a task, which is named by its entry, and what a call answers. -/
inductive GoObs
  /-- a start has returned; `checks` for `_StartGoTaskWithResult` -/
  | started (checks : Bool) (g : ℕ) (id : ℤ)
  /-- a `_CancelGoTask` has returned -/
  | canceled (id : ℤ)
  /-- an `_IsCanceled` has returned -/
  | answered (id : ℤ) (b : Bool)
  /-- the goroutine begins `*entry.canceled != 0` -/
  | checked (g : ℕ)
  | invoked (g : ℕ)
  /-- the deferred function has run -/
  | cleaned (g : ℕ)
  deriving DecidableEq

inductive GoAct
  | startGoTaskWithResult (id : ℤ) (canceled : ℕ)
  | startGoTask (id : ℤ)
  /-- `_CancelGoTask` takes the lock and replaces `entry.canceled` -/
  | cancelGoTask (id : ℤ)
  /-- it enters `cancellationMap` and returns -/
  | canceled
  | isCanceled (id : ℤ)
  /-- a caller writes a flag of its own -/
  | write (a : ℕ) (v : ℤ)
  /-- a goroutine takes its next step -/
  | go (g : ℕ)

namespace Sched

def init : Sched := ⟨.empty, .empty, [], fun _ => 0, none⟩

def read (S : Sched) : FlagPtr → ℤ
  | .given a => S.flags a
  | .noCancel => 0
  | .one => 1

/-- The part of a start that holds `mapMu`, and `go`. -/
def enter (S : Sched) (checks : Bool) (t : GoTask) : Option (Sched × List GoObs) :=
  if S.cancelling = none then
    some ({ S with
      cancellationMap := S.cancellationMap.set t.id false
      callbacks := S.callbacks.set t.id S.tasks.length
      tasks := S.tasks ++ [t] }, [.started checks S.tasks.length t.id])
  else none

def startGoTaskWithResult (S : Sched) (id : ℤ) (canceled : ℕ) : Option (Sched × List GoObs) :=
  S.enter true ⟨id, .given canceled, .check⟩

def startGoTask (S : Sched) (id : ℤ) : Option (Sched × List GoObs) :=
  S.enter false ⟨id, .noCancel, .call⟩

/-- `entry.canceled = &[]int32{1}[0]` -/
def swap (tasks : List GoTask) (entry : ℕ) : List GoTask :=
  tasks.modify entry ({ · with canceled := .one })

def cancelGoTask (S : Sched) (id : ℤ) : Option (Sched × List GoObs) :=
  if S.cancelling = none then
    some ({ S with
      tasks := match S.callbacks.get? id with
        | some entry => swap S.tasks entry
        | none => S.tasks
      cancelling := some id }, [])
  else none

def isCanceled (S : Sched) (id : ℤ) : Bool :=
  match S.cancellationMap.get? id with
  | none => true
  | some canceled => canceled

/-- The goroutine `g` takes a step. -/
def go (S : Sched) (g : ℕ) : Option (Sched × List GoObs) :=
  match S.tasks[g]? with
  | none => none
  | some t =>
    let next pc := { S with tasks := S.tasks.set g { t with pc := pc } }
    match t.pc with
    | .check => some (next (.loaded t.canceled), [.checked g])
    | .loaded p => some (next (if S.read p ≠ 0 then .deferred else .call), [])
    | .call => some (next .calling, [.invoked g])
    | .calling => some (next .deferred, [])
    | .deferred =>
      if S.cancelling = none then
        some ({ next .done with
          cancellationMap := S.cancellationMap.erase t.id
          callbacks := S.callbacks.erase t.id }, [.cleaned g])
      else none
    | .done => none

def step (S : Sched) : GoAct → Option (Sched × List GoObs)
  | .startGoTaskWithResult id canceled => S.startGoTaskWithResult id canceled
  | .startGoTask id => S.startGoTask id
  | .cancelGoTask id => S.cancelGoTask id
  | .canceled => match S.cancelling with
    | some id => some ({ S with
        cancellationMap := S.cancellationMap.set id true
        cancelling := none }, [.canceled id])
    | none => none
  | .isCanceled id =>
    if S.cancelling = none then some (S, [.answered id (S.isCanceled id)]) else none
  | .write a v => some ({ S with flags := fun b => if b = a then v else S.flags b }, [])
  | .go g => S.go g

end Sched

/-! ## What a step does -/

/-- How a goroutine goes on. -/
inductive GoTask.Goes (read : FlagPtr → ℤ) (g : ℕ) (t : GoTask) : GoPc → List GoObs → Prop
  | check : t.pc = .check → Goes read g t (.loaded t.canceled) [.checked g]
  | stop {p : FlagPtr} : t.pc = .loaded p → read p ≠ 0 → Goes read g t .deferred []
  | pass {p : FlagPtr} : t.pc = .loaded p → read p = 0 → Goes read g t .call []
  | call : t.pc = .call → Goes read g t .calling [.invoked g]
  | back : t.pc = .calling → Goes read g t .deferred []

namespace Sched

/-- **What a step does.** -/
inductive Moves (S : Sched) : Sched → List GoObs → Prop
  | enter {checks : Bool} {t : GoTask} : S.cancelling = none →
      t.pc = (if checks then .check else .call) →
      Moves S { S with
        cancellationMap := S.cancellationMap.set t.id false
        callbacks := S.callbacks.set t.id S.tasks.length
        tasks := S.tasks ++ [t] } [.started checks S.tasks.length t.id]
  | swap {id : ℤ} {g : ℕ} : S.cancelling = none → S.callbacks.get? id = some g →
      Moves S { S with tasks := swap S.tasks g, cancelling := some id } []
  | keep {id : ℤ} : S.cancelling = none → S.callbacks.get? id = none →
      Moves S { S with cancelling := some id } []
  | mark {id : ℤ} : S.cancelling = some id →
      Moves S { S with cancellationMap := S.cancellationMap.set id true, cancelling := none }
        [.canceled id]
  | answer {id : ℤ} : S.cancelling = none → Moves S S [.answered id (S.isCanceled id)]
  | write {flags : ℕ → ℤ} : Moves S { S with flags := flags } []
  | goes {g : ℕ} {t : GoTask} {pc : GoPc} {o : List GoObs} : S.tasks[g]? = some t →
      t.Goes S.read g pc o → Moves S { S with tasks := S.tasks.set g { t with pc := pc } } o
  | clean {g : ℕ} {t : GoTask} : S.tasks[g]? = some t → t.pc = .deferred → S.cancelling = none →
      Moves S { S with
        tasks := S.tasks.set g { t with pc := .done }
        cancellationMap := S.cancellationMap.erase t.id
        callbacks := S.callbacks.erase t.id } [.cleaned g]

variable {S S' : Sched} {os o : List GoObs} {g : ℕ} {id : ℤ} {t : GoTask}

theorem enter_moves {checks : Bool} (ht : t.pc = if checks then .check else .call)
    (h : S.enter checks t = some (S', o)) : Moves S S' o := by
  unfold enter at h
  split at h
  · rename_i hfree
    cases h
    exact .enter hfree ht
  · cases h

theorem go_moves (h : S.go g = some (S', o)) : Moves S S' o := by
  unfold go at h
  rcases ht : S.tasks[g]? with _ | t
  · rw [ht] at h
    cases h
  rw [ht] at h
  rcases hpc : t.pc with _ | p | _ | _ | _ | _
  · simp only [hpc] at h
    cases h
    exact .goes ht (.check hpc)
  · simp only [hpc] at h
    cases h
    by_cases hp : S.read p ≠ 0
    · rw [if_pos hp]
      exact .goes ht (.stop hpc hp)
    · rw [if_neg hp]
      exact .goes ht (.pass hpc (not_not.1 hp))
  · simp only [hpc] at h
    cases h
    exact .goes ht (.call hpc)
  · simp only [hpc] at h
    cases h
    exact .goes ht (.back hpc)
  · simp only [hpc] at h
    split at h
    · rename_i hfree
      cases h
      exact .clean ht hpc hfree
    · cases h
  · simp only [hpc] at h
    cases h

theorem step_moves {a : GoAct} (h : S.step a = some (S', o)) : Moves S S' o := by
  cases a with
  | startGoTaskWithResult id canceled => exact enter_moves rfl h
  | startGoTask id => exact enter_moves rfl h
  | cancelGoTask id =>
    rw [step, cancelGoTask] at h
    split at h
    · rename_i hfree
      cases h
      rcases hg : S.callbacks.get? id with _ | g
      · exact .keep hfree hg
      · exact .swap hfree hg
    · cases h
  | canceled =>
    rcases hid : S.cancelling with _ | id
    · simp [step, hid] at h
    · simp only [step, hid] at h
      cases h
      exact .mark hid
  | isCanceled id =>
    rw [step] at h
    split at h
    · rename_i hfree
      cases h
      exact .answer hfree
    · cases h
  | write a v =>
    cases h
    exact .write
  | go g => exact go_moves h

/-! ## The tasks -/

/-- The entry `g` was made for the id. -/
def Entered (ts : List GoTask) (g : ℕ) (id : ℤ) : Prop := ∃ t, ts[g]? = some t ∧ t.id = id

/-- The goroutine of `g`, which was made for the id, has not run its deferred function. -/
def Runs (ts : List GoTask) (g : ℕ) (id : ℤ) : Prop :=
  ∃ t, ts[g]? = some t ∧ t.id = id ∧ t.pc ≠ .done

section
variable {ts : List GoTask} {g' : ℕ} {t' u : GoTask}

theorem Runs.entered (h : Runs ts g id) : Entered ts g id := by
  obtain ⟨t, ht, hid, -⟩ := h
  exact ⟨t, ht, hid⟩

theorem Entered.lt (h : Entered ts g id) : g < ts.length := by
  obtain ⟨t, ht, -⟩ := h
  exact (List.getElem?_eq_some_iff.1 ht).1

theorem Entered.id_eq (h : Entered ts g id) (ht : ts[g]? = some t) : id = t.id := by
  obtain ⟨t', ht', rfl⟩ := h
  rw [ht] at ht'
  cases ht'
  rfl

theorem get?_set_task (ht : ts[g']? = some t) :
    (ts.set g' t')[g]? = some u ↔ g = g' ∧ u = t' ∨ g ≠ g' ∧ ts[g]? = some u := by
  have hlt := (List.getElem?_eq_some_iff.1 ht).1
  rw [List.getElem?_set]
  by_cases hg : g' = g
  · subst hg
    simp [hlt, eq_comm]
  · simp [hg, Ne.symm hg]

theorem get?_swap : (swap ts g')[g]? = some u ↔
    ∃ t, ts[g]? = some t ∧ u = if g = g' then { t with canceled := .one } else t := by
  rw [swap, List.getElem?_modify]
  rcases ts[g]? with _ | t
  · simp
  · by_cases hg : g' = g
    · simp [hg, eq_comm]
    · simp [hg, Ne.symm hg, eq_comm]

theorem get?_enter :
    (ts ++ [t])[g]? = some u ↔ ts[g]? = some u ∨ g = ts.length ∧ u = t := by
  rw [List.getElem?_append]
  by_cases hg : g < ts.length
  · simp [hg, hg.ne]
  · rw [if_neg hg, List.getElem?_eq_none (by omega : ts.length ≤ g), List.getElem?_singleton]
    by_cases hlen : g = ts.length
    · simp [hlen, eq_comm]
    · rw [if_neg (by omega)]
      simp [hlen]

theorem entered_set (ht : ts[g']? = some t) (hid : t'.id = t.id) :
    Entered (ts.set g' t') g id ↔ Entered ts g id := by
  constructor
  · rintro ⟨u, hu, hid'⟩
    rcases (get?_set_task ht).1 hu with ⟨rfl, rfl⟩ | ⟨-, hu⟩
    · exact ⟨t, ht, hid.symm.trans hid'⟩
    · exact ⟨u, hu, hid'⟩
  · rintro ⟨u, hu, hid'⟩
    by_cases hg : g = g'
    · subst hg
      rw [ht] at hu
      cases hu
      exact ⟨t', (get?_set_task ht).2 (.inl ⟨rfl, rfl⟩), hid.trans hid'⟩
    · exact ⟨u, (get?_set_task ht).2 (.inr ⟨hg, hu⟩), hid'⟩

/-- A goroutine goes on. -/
theorem runs_set (ht : ts[g']? = some t) (hid : t'.id = t.id) (hpc : t.pc ≠ .done)
    (hpc' : t'.pc ≠ .done) : Runs (ts.set g' t') g id ↔ Runs ts g id := by
  constructor
  · rintro ⟨u, hu, hid', hu'⟩
    rcases (get?_set_task ht).1 hu with ⟨rfl, rfl⟩ | ⟨-, hu⟩
    · exact ⟨t, ht, hid.symm.trans hid', hpc⟩
    · exact ⟨u, hu, hid', hu'⟩
  · rintro ⟨u, hu, hid', hu'⟩
    by_cases hg : g = g'
    · subst hg
      rw [ht] at hu
      cases hu
      exact ⟨t', (get?_set_task ht).2 (.inl ⟨rfl, rfl⟩), hid.trans hid', hpc'⟩
    · exact ⟨u, (get?_set_task ht).2 (.inr ⟨hg, hu⟩), hid', hu'⟩

/-- A goroutine ends. -/
theorem runs_end (ht : ts[g']? = some t) (hpc : t'.pc = .done) :
    Runs (ts.set g' t') g id ↔ Runs ts g id ∧ g ≠ g' := by
  constructor
  · rintro ⟨u, hu, hid, hu'⟩
    rcases (get?_set_task ht).1 hu with ⟨rfl, rfl⟩ | ⟨hg, hu⟩
    · exact absurd hpc hu'
    · exact ⟨⟨u, hu, hid, hu'⟩, hg⟩
  · rintro ⟨⟨u, hu, hid, hu'⟩, hg⟩
    exact ⟨u, (get?_set_task ht).2 (.inr ⟨hg, hu⟩), hid, hu'⟩

theorem entered_swap : Entered (swap ts g') g id ↔ Entered ts g id := by
  constructor
  · rintro ⟨u, hu, hid⟩
    obtain ⟨t, ht, rfl⟩ := get?_swap.1 hu
    refine ⟨t, ht, ?_⟩
    split at hid
    · exact hid
    · exact hid
  · rintro ⟨t, ht, hid⟩
    refine ⟨_, get?_swap.2 ⟨t, ht, rfl⟩, ?_⟩
    split
    · exact hid
    · exact hid

theorem runs_swap : Runs (swap ts g') g id ↔ Runs ts g id := by
  constructor
  · rintro ⟨u, hu, hid, hpc⟩
    obtain ⟨t, ht, rfl⟩ := get?_swap.1 hu
    refine ⟨t, ht, ?_⟩
    split at hid
    · rw [if_pos ‹_›] at hpc
      exact ⟨hid, hpc⟩
    · rw [if_neg ‹_›] at hpc
      exact ⟨hid, hpc⟩
  · rintro ⟨t, ht, hid, hpc⟩
    refine ⟨_, get?_swap.2 ⟨t, ht, rfl⟩, ?_⟩
    split
    · exact ⟨hid, hpc⟩
    · exact ⟨hid, hpc⟩

theorem entered_enter :
    Entered (ts ++ [t]) g id ↔ Entered ts g id ∨ g = ts.length ∧ id = t.id := by
  constructor
  · rintro ⟨u, hu, rfl⟩
    rcases get?_enter.1 hu with hu | ⟨rfl, rfl⟩
    · exact .inl ⟨u, hu, rfl⟩
    · exact .inr ⟨rfl, rfl⟩
  · rintro (⟨u, hu, rfl⟩ | ⟨rfl, rfl⟩)
    · exact ⟨u, get?_enter.2 (.inl hu), rfl⟩
    · exact ⟨t, get?_enter.2 (.inr ⟨rfl, rfl⟩), rfl⟩

theorem runs_enter (hpc : t.pc ≠ .done) :
    Runs (ts ++ [t]) g id ↔ Runs ts g id ∨ g = ts.length ∧ id = t.id := by
  constructor
  · rintro ⟨u, hu, rfl, hu'⟩
    rcases get?_enter.1 hu with hu | ⟨rfl, rfl⟩
    · exact .inl ⟨u, hu, rfl, hu'⟩
    · exact .inr ⟨rfl, rfl⟩
  · rintro (⟨u, hu, rfl, hu'⟩ | ⟨rfl, rfl⟩)
    · exact ⟨u, get?_enter.2 (.inl hu), rfl, hu'⟩
    · exact ⟨t, get?_enter.2 (.inr ⟨rfl, rfl⟩), rfl, hpc⟩

end

/-- A start of the task `g` with the id has returned. -/
def Started (os : List GoObs) (g : ℕ) (id : ℤ) : Prop := ∃ checks, .started checks g id ∈ os

theorem started_append : Started (os ++ o) g id ↔ Started os g id ∨ Started o g id := by
  simp only [Started, List.mem_append, exists_or]

theorem started_single {c : Bool} {g' : ℕ} {id' : ℤ} :
    Started [.started c g' id'] g id ↔ g = g' ∧ id = id' := by
  simp [Started]

theorem not_started {x : GoObs} (hx : ∀ c g' id', x ≠ .started c g' id') : ¬ Started [x] g id := by
  rintro ⟨c, hc⟩
  exact hx c g id (List.mem_singleton.1 hc).symm

theorem not_started_nil : ¬ Started [] g id := by
  rintro ⟨c, hc⟩
  cases hc

end Sched

section
variable {read : FlagPtr → ℤ} {g : ℕ} {t : GoTask} {pc : GoPc} {o : List GoObs}

theorem GoTask.Goes.live (h : t.Goes read g pc o) : t.pc ≠ .done ∧ pc ≠ .done := by
  cases h with
  | check hpc => simp [hpc]
  | stop hpc _ => simp [hpc]
  | pass hpc _ => simp [hpc]
  | call hpc => simp [hpc]
  | back hpc => simp [hpc]

theorem GoTask.Goes.quiet (h : t.Goes read g pc o) : ∀ x ∈ o, x = .checked g ∨ x = .invoked g := by
  cases h with
  | check _ => simp
  | stop _ _ => simp
  | pass _ _ => simp
  | call _ => simp
  | back _ => simp

theorem GoTask.Goes.not_started {id : ℤ} {g' : ℕ} (h : t.Goes read g pc o) :
    ¬ Sched.Started o g' id := by
  rintro ⟨c, hc⟩
  rcases h.quiet _ hc with he | he
  · cases he
  · cases he

theorem GoTask.Goes.not_canceled {id : ℤ} (h : t.Goes read g pc o) : .canceled id ∉ o := by
  intro hc
  rcases h.quiet _ hc with he | he
  · cases he
  · cases he

theorem GoTask.Goes.not_cleaned {g' : ℕ} (h : t.Goes read g pc o) : .cleaned g' ∉ o := by
  intro hc
  rcases h.quiet _ hc with he | he
  · cases he
  · cases he

end

namespace Sched

variable {S S' : Sched} {os o : List GoObs} {g : ℕ} {id : ℤ}

theorem fresh_pc {checks : Bool} {t : GoTask} (ht : t.pc = if checks then .check else .call) :
    t.pc ≠ .done := by
  rw [ht]
  cases checks
  · intro h
    cases h
  · intro h
    cases h

/-- **Entries** come from starts. -/
theorem Moves.entered (h : Moves S S' o) :
    Entered S'.tasks g id ↔ Entered S.tasks g id ∨ Started o g id := by
  cases h with
  | enter _ _ => rw [entered_enter, started_single]
  | swap _ _ => simp only [entered_swap, not_started_nil, or_false]
  | keep _ _ => simp only [not_started_nil, or_false]
  | mark _ => simp [Started]
  | answer _ => simp [Started]
  | write => simp only [not_started_nil, or_false]
  | goes ht hgo => simp only [entered_set ht, hgo.not_started, or_false]
  | clean ht _ _ => simp [entered_set ht, Started]

/-- **Tasks run** from their start to their deferred function. -/
theorem Moves.runs (h : Moves S S' o) :
    Runs S'.tasks g id ↔ (Runs S.tasks g id ∨ Started o g id) ∧ .cleaned g ∉ o := by
  cases h with
  | enter _ hpc => simp [runs_enter (fresh_pc hpc), started_single]
  | swap _ _ => simp [runs_swap, not_started_nil]
  | keep _ _ => simp [not_started_nil]
  | mark _ => simp [Started]
  | answer _ => simp [Started]
  | write => simp [not_started_nil]
  | @goes g' t pc o ht hgo =>
    have hset : Runs (S.tasks.set g' { t with pc := pc }) g id ↔ Runs S.tasks g id :=
      runs_set ht rfl hgo.live.1 hgo.live.2
    rw [hset]
    simp [hgo.not_started, hgo.not_cleaned]
  | clean ht _ _ => simp [runs_end ht, Started]

/-! ## The maps -/

/-- A cancel of the id has returned since the start of the task `g` with the id. -/
def CanceledSince (os : List GoObs) (g : ℕ) (id : ℤ) : Prop :=
  Lts.Once (fun before x => x = .canceled id ∧ Started before g id) os

theorem CanceledSince.started (h : CanceledSince os g id) : Started os g id := by
  obtain ⟨before, x, after, rfl, -, c, hc⟩ := h
  exact ⟨c, List.mem_append_left _ hc⟩

theorem canceledSince_append (ho : .canceled id ∉ o) :
    CanceledSince (os ++ o) g id ↔ CanceledSince os g id := by
  refine Lts.once_append ?_
  rintro before x hx ⟨rfl, -⟩
  exact ho hx

/-- A start takes an id that no earlier start took. -/
def StartsFresh (before : List GoObs) : GoObs → Prop
  | .started _ _ id => ∀ g, ¬ Started before g id
  | _ => True

/-- **What ties the maps to the steps made so far.** -/
structure Inv (S : Sched) (os : List GoObs) : Prop where
  entered : ∀ g id, Entered S.tasks g id ↔ Started os g id
  runs : ∀ g id, Runs S.tasks g id ↔ Started os g id ∧ .cleaned g ∉ os
  cleaned : ∀ g, .cleaned g ∈ os → g < S.tasks.length
  callbacks : ∀ id g, S.callbacks.get? id = some g ↔ Runs S.tasks g id
  marks : ∀ id, S.cancellationMap.get? id = some false ↔
    ∃ g, Runs S.tasks g id ∧ ¬ CanceledSince os g id

theorem inv_init : init.Inv [] where
  entered g id := iff_of_false (fun ⟨t, ht, _⟩ => by cases ht) not_started_nil
  runs g id := iff_of_false (fun ⟨t, ht, _⟩ => by cases ht) fun h => not_started_nil h.1
  cleaned g hg := by cases hg
  callbacks id g := iff_of_false (by simp [init]) fun ⟨t, ht, _⟩ => by cases ht
  marks id := iff_of_false (by simp [init]) fun ⟨g, ⟨t, ht, _⟩, _⟩ => by cases ht

theorem Inv.unique (h : S.Inv os) {g' : ℕ} (hg : Runs S.tasks g id) (hg' : Runs S.tasks g' id) :
    g = g' := by
  have he := (h.callbacks id g).2 hg
  rw [(h.callbacks id g').2 hg'] at he
  exact (Option.some.inj he).symm

theorem Moves.cleaned (h : Moves S S' o) (hg : .cleaned g ∈ o) : ∃ id, Runs S.tasks g id := by
  cases h with
  | enter _ _ => simp at hg
  | swap _ _ => cases hg
  | keep _ _ => cases hg
  | mark _ => simp at hg
  | answer _ => simp at hg
  | write => cases hg
  | goes _ hgo => exact absurd hg hgo.not_cleaned
  | clean ht hpc _ =>
    obtain rfl : g = _ := by simpa using hg
    exact ⟨_, _, ht, rfl, by rw [hpc]; intro h; cases h⟩

theorem Moves.length_le (h : Moves S S' o) : S.tasks.length ≤ S'.tasks.length := by
  cases h with
  | enter _ _ => simp
  | swap _ _ => simp [Sched.swap]
  | keep _ _ => exact le_rfl
  | mark _ => exact le_rfl
  | answer _ => exact le_rfl
  | write => exact le_rfl
  | goes _ _ => simp
  | clean _ _ _ => simp

theorem Moves.started_new (h : Moves S S' o) (hg : Started o g id) : g = S.tasks.length := by
  obtain ⟨c, hc⟩ := hg
  cases h with
  | enter _ _ =>
    obtain ⟨-, rfl, -⟩ : _ ∧ g = _ ∧ _ := by simpa using hc
    rfl
  | swap _ _ => cases hc
  | keep _ _ => cases hc
  | mark _ => simp at hc
  | answer _ => simp at hc
  | write => cases hc
  | goes _ hgo => exact absurd ⟨c, hc⟩ hgo.not_started
  | clean _ _ _ => simp at hc

/-- **A step keeps the invariant** if a start takes a fresh id. -/
theorem Inv.step (h : S.Inv os) (hs : Moves S S' o)
    (hfresh : ∀ x ∈ o, StartsFresh os x) : S'.Inv (os ++ o) where
  entered g id := by
    rw [hs.entered, h.entered, started_append]
  runs g id := by
    rw [hs.runs, h.runs, started_append, List.mem_append, not_or]
    constructor
    · rintro ⟨⟨hst, hno⟩ | hst, hno'⟩
      · exact ⟨.inl hst, hno, hno'⟩
      · refine ⟨.inr hst, fun hcl => ?_, hno'⟩
        have hlt := h.cleaned g hcl
        have := hs.started_new hst
        omega
    · rintro ⟨hst | hst, hno, hno'⟩
      · exact ⟨.inl ⟨hst, hno⟩, hno'⟩
      · exact ⟨.inr hst, hno'⟩
  cleaned g hg := by
    refine lt_of_lt_of_le ?_ hs.length_le
    rcases List.mem_append.1 hg with hg | hg
    · exact h.cleaned g hg
    · obtain ⟨id, hrun⟩ := hs.cleaned hg
      exact hrun.entered.lt
  callbacks id g := by
    rw [hs.runs]
    cases hs with
    | @enter c t _ _ =>
      have hnone : ¬ Runs S.tasks g t.id := fun hr =>
        hfresh _ List.mem_cons_self g (((h.runs g t.id).1 hr).1)
      rw [Dict.get?_set, started_single]
      by_cases hid : id = t.id
      · subst hid
        simp [hnone, eq_comm]
      · simp [hid, h.callbacks]
    | swap _ _ => simp [h.callbacks, not_started_nil]
    | keep _ _ => simp [h.callbacks, not_started_nil]
    | mark _ => simp [h.callbacks, Started]
    | answer _ => simp [h.callbacks, Started]
    | write => simp [h.callbacks, not_started_nil]
    | goes _ hgo => simp [h.callbacks, hgo.not_started, hgo.not_cleaned]
    | @clean g' t ht hpc _ =>
      have hrun : Runs S.tasks g' t.id := ⟨t, ht, rfl, by rw [hpc]; intro h; cases h⟩
      rw [Dict.get?_erase]
      by_cases hid : id = t.id
      · subst hid
        refine iff_of_false (by simp) ?_
        rintro ⟨hr | hst, hno⟩
        · rw [h.unique hr hrun] at hno
          exact hno List.mem_cons_self
        · simp [Started] at hst
      · have hne : Runs S.tasks g id → g ≠ g' := by
          rintro hr rfl
          exact hid (hr.entered.id_eq ht)
        rw [if_neg hid, h.callbacks]
        simpa [Started] using hne
  marks id := by
    cases hs with
    | @enter c t _ hpc =>
      have hsince : ∀ g, CanceledSince (os ++ [.started c S.tasks.length t.id]) g id ↔
          CanceledSince os g id := fun g => canceledSince_append (by simp)
      simp only [hsince, runs_enter (fresh_pc hpc), Dict.get?_set]
      by_cases hid : id = t.id
      · subst hid
        rw [if_pos rfl]
        refine iff_of_true rfl ⟨S.tasks.length, .inr ⟨rfl, rfl⟩, fun hc => ?_⟩
        have hlt := ((h.entered _ _).2 hc.started).lt
        omega
      · simp [hid, h.marks]
    | swap _ _ =>
      simp only [List.append_nil, runs_swap]
      exact h.marks id
    | keep _ _ =>
      rw [List.append_nil]
      exact h.marks id
    | @mark id' _ =>
      rw [Dict.get?_set]
      by_cases hid : id = id'
      · subst hid
        rw [if_pos rfl]
        refine iff_of_false (by simp) ?_
        rintro ⟨g, hr, hno⟩
        exact hno (Lts.once_snoc.2 (.inr ⟨rfl, ((h.runs g id).1 hr).1⟩))
      · have hsince : ∀ g, CanceledSince (os ++ [.canceled id']) g id ↔ CanceledSince os g id :=
          fun g => canceledSince_append (by simpa using hid)
        simp only [hsince, if_neg hid]
        exact h.marks id
    | @answer id' _ =>
      have hsince : ∀ g, CanceledSince (os ++ [.answered id' (S.isCanceled id')]) g id ↔
          CanceledSince os g id := fun g => canceledSince_append (by simp)
      simp only [hsince]
      exact h.marks id
    | write =>
      rw [List.append_nil]
      exact h.marks id
    | @goes g' t pc o ht hgo =>
      have hset : ∀ g, Runs (S.tasks.set g' { t with pc := pc }) g id ↔ Runs S.tasks g id :=
        fun g => runs_set ht rfl hgo.live.1 hgo.live.2
      have hsince : ∀ g, CanceledSince (os ++ o) g id ↔ CanceledSince os g id :=
        fun g => canceledSince_append hgo.not_canceled
      simp only [hset, hsince]
      exact h.marks id
    | @clean g' t ht hpc _ =>
      have hrun : Runs S.tasks g' t.id := ⟨t, ht, rfl, by rw [hpc]; intro h; cases h⟩
      have hsince : ∀ g, CanceledSince (os ++ [.cleaned g']) g id ↔ CanceledSince os g id :=
        fun g => canceledSince_append (by simp)
      have hend : ∀ g, Runs (S.tasks.set g' { t with pc := .done }) g id ↔
          Runs S.tasks g id ∧ g ≠ g' := fun g => runs_end ht rfl
      simp only [hsince, hend, Dict.get?_erase]
      by_cases hid : id = t.id
      · subst hid
        refine iff_of_false (by simp) ?_
        rintro ⟨g, ⟨hr, hne⟩, -⟩
        exact hne (h.unique hr hrun)
      · rw [if_neg hid, h.marks]
        constructor
        · rintro ⟨g, hr, hno⟩
          refine ⟨g, ⟨hr, ?_⟩, hno⟩
          rintro rfl
          exact hid (hr.entered.id_eq ht)
        · rintro ⟨g, ⟨hr, -⟩, hno⟩
          exact ⟨g, hr, hno⟩

end Sched

/-! ## Calls -/

/-- The calls that a goroutine may still make. -/
def GoPc.toCall : GoPc → ℕ
  | check | loaded _ | call => 1
  | calling | deferred | done => 0

theorem GoPc.toCall_le (pc : GoPc) : pc.toCall ≤ 1 := by
  cases pc <;> simp [toCall]

/-- The goroutine will not call its callback. -/
inductive GoTask.Spared (t : GoTask) : Prop
  | check : t.pc = .check → t.canceled = .one → Spared t
  | loaded : t.pc = .loaded .one → Spared t
  | deferred : t.pc = .deferred → Spared t
  | done : t.pc = .done → Spared t

section
variable {read : FlagPtr → ℤ} {g : ℕ} {t : GoTask} {pc : GoPc} {o : List GoObs}

theorem GoTask.Goes.toCall_le (h : t.Goes read g pc o) :
    o.count (.invoked g) + pc.toCall ≤ t.pc.toCall := by
  cases h with
  | check hpc => simp [hpc, GoPc.toCall]
  | stop hpc _ => simp [hpc, GoPc.toCall]
  | pass hpc _ => simp [hpc, GoPc.toCall]
  | call hpc => simp [hpc, GoPc.toCall]
  | back hpc => simp [hpc, GoPc.toCall]

theorem GoTask.Goes.not_invoked {g' : ℕ} (h : t.Goes read g pc o) (hg : g' ≠ g) :
    .invoked g' ∉ o := by
  cases h with
  | check _ => simp
  | stop _ _ => simp
  | pass _ _ => simp
  | call _ => simp [hg]
  | back _ => simp

theorem GoTask.Goes.checks (h : t.Goes read g pc o) (hpc : t.pc = .check) : .checked g ∈ o := by
  cases h with
  | check _ => simp
  | stop hp _ => rw [hpc] at hp; cases hp
  | pass hp _ => rw [hpc] at hp; cases hp
  | call hp => rw [hpc] at hp; cases hp
  | back hp => rw [hpc] at hp; cases hp

theorem GoTask.Goes.past_check (h : t.Goes read g pc o) : pc ≠ .check := by
  intro he
  subst he
  cases h

/-- **A spared goroutine** finds a flag that is set, or is past its call. -/
theorem GoTask.Goes.spared (h : t.Goes read g pc o) (hone : read .one ≠ 0) (hsp : t.Spared) :
    GoTask.Spared { t with pc := pc } ∧ .invoked g ∉ o := by
  cases h with
  | check hpc =>
    refine ⟨.loaded ?_, by simp⟩
    rcases hsp with ⟨-, hptr⟩ | hp | hp | hp
    · rw [hptr]
    · rw [hpc] at hp; cases hp
    · rw [hpc] at hp; cases hp
    · rw [hpc] at hp; cases hp
  | stop _ _ => exact ⟨.deferred rfl, by simp⟩
  | pass hpc hz =>
    rcases hsp with ⟨hp, -⟩ | hp | hp | hp
    · rw [hpc] at hp; cases hp
    · rw [hpc] at hp
      cases hp
      exact absurd hz hone
    · rw [hpc] at hp; cases hp
    · rw [hpc] at hp; cases hp
  | call hpc =>
    rcases hsp with ⟨hp, -⟩ | hp | hp | hp <;> (rw [hpc] at hp; cases hp)
  | back _ => exact ⟨.deferred rfl, by simp⟩

end

namespace Sched

variable {S S' : Sched} {os o : List GoObs} {g : ℕ} {id : ℤ}

/-- What the goroutine of `g` may still call; a goroutine that is to come, once. -/
def toCall (ts : List GoTask) (g : ℕ) : ℕ := ((ts[g]?).map GoTask.pc).elim 1 GoPc.toCall

theorem toCall_le (ts : List GoTask) (g : ℕ) : toCall ts g ≤ 1 := by
  unfold toCall
  rcases ts[g]? with _ | t
  · exact le_rfl
  · exact t.pc.toCall_le

/-- **A call uses up** what its goroutine may call. -/
theorem Moves.toCall_le (h : Moves S S' o) :
    o.count (.invoked g) + toCall S'.tasks g ≤ toCall S.tasks g := by
  cases h with
  | @enter c t _ _ =>
    by_cases hg : g < S.tasks.length
    · simp [toCall, List.getElem?_append_left hg]
    · have hnone : toCall S.tasks g = 1 := by
        rw [toCall, List.getElem?_eq_none (by omega)]
        rfl
      have := Sched.toCall_le (S.tasks ++ [t]) g
      simp [hnone, this]
  | @swap _ g' _ _ =>
    have hpc : ((Sched.swap S.tasks g')[g]?).map GoTask.pc = (S.tasks[g]?).map GoTask.pc := by
      rw [Sched.swap, List.getElem?_modify]
      by_cases hg : g' = g
      · simp [hg, Function.comp_def]
      · simp [hg]
    simp [toCall, hpc]
  | keep _ _ => simp
  | mark _ => simp
  | answer _ => simp
  | write => simp
  | @goes g' t pc o ht hgo =>
    by_cases hg : g = g'
    · subst hg
      have hlt := (List.getElem?_eq_some_iff.1 ht).1
      rw [toCall, toCall, ht, List.getElem?_set_self hlt]
      exact hgo.toCall_le
    · rw [List.count_eq_zero.2 (hgo.not_invoked hg), toCall, toCall,
        List.getElem?_set_ne (Ne.symm hg), zero_add]
  | @clean g' t ht _ _ =>
    by_cases hg : g = g'
    · subst hg
      have hlt := (List.getElem?_eq_some_iff.1 ht).1
      simp [toCall, hlt, GoPc.toCall]
    · simp [toCall, List.getElem?_set_ne (Ne.symm hg)]

/-- The goroutine of `g` is spared. -/
def Spared (ts : List GoTask) (g : ℕ) : Prop := ∃ t, ts[g]? = some t ∧ t.Spared

/-- **A task stays spared.** -/
theorem Moves.spared (h : Moves S S' o) (hsp : Spared S.tasks g) :
    Spared S'.tasks g ∧ .invoked g ∉ o := by
  obtain ⟨u, hu, hpc⟩ := hsp
  cases h with
  | enter _ _ => exact ⟨⟨u, get?_enter.2 (.inl hu), hpc⟩, by simp⟩
  | swap _ _ =>
    refine ⟨⟨_, get?_swap.2 ⟨u, hu, rfl⟩, ?_⟩, by simp⟩
    split
    · rcases hpc with ⟨hp, -⟩ | hp | hp | hp
      · exact .check hp rfl
      · exact .loaded hp
      · exact .deferred hp
      · exact .done hp
    · exact hpc
  | keep _ _ => exact ⟨⟨u, hu, hpc⟩, by simp⟩
  | mark _ => exact ⟨⟨u, hu, hpc⟩, by simp⟩
  | answer _ => exact ⟨⟨u, hu, hpc⟩, by simp⟩
  | write => exact ⟨⟨u, hu, hpc⟩, by simp⟩
  | @goes g' t pc o ht hgo =>
    by_cases hg : g = g'
    · subst hg
      rw [ht] at hu
      cases hu
      obtain ⟨hsp, hno⟩ := hgo.spared one_ne_zero hpc
      exact ⟨⟨_, (get?_set_task ht).2 (.inl ⟨rfl, rfl⟩), hsp⟩, hno⟩
    · exact ⟨⟨u, (get?_set_task ht).2 (.inr ⟨hg, hu⟩), hpc⟩, hgo.not_invoked hg⟩
  | @clean g' t ht _ _ =>
    refine ⟨?_, by simp⟩
    by_cases hg : g = g'
    · exact ⟨_, (get?_set_task ht).2 (.inl ⟨hg, rfl⟩), .done rfl⟩
    · exact ⟨u, (get?_set_task ht).2 (.inr ⟨hg, hu⟩), hpc⟩

/-- **The checks**: a goroutine that did not look at its flag yet, and a cancel that holds the
    lock. -/
structure Checks (S : Sched) (os : List GoObs) : Prop where
  unchecked : ∀ g id, .started true g id ∈ os → .checked g ∉ os →
    ∃ t, S.tasks[g]? = some t ∧ t.id = id ∧ t.pc = .check
  swapped : ∀ id, S.cancelling = some id → ∀ t ∈ S.tasks, t.id = id → t.pc = .check →
    t.canceled = .one

theorem checks_init : init.Checks [] where
  unchecked g id h _ := by cases h
  swapped id h := by cases h

theorem Checks.step (h : S.Checks os) (hi : S.Inv os) (hs : Moves S S' o) : S'.Checks (os ++ o) where
  unchecked g id hst hck := by
    rw [List.mem_append, not_or] at hck
    rcases List.mem_append.1 hst with hst | hst
    · obtain ⟨u, hu, hid, hpc⟩ := h.unchecked g id hst hck.1
      cases hs with
      | enter _ _ => exact ⟨u, get?_enter.2 (.inl hu), hid, hpc⟩
      | swap _ _ =>
        refine ⟨_, get?_swap.2 ⟨u, hu, rfl⟩, ?_⟩
        split
        · exact ⟨hid, hpc⟩
        · exact ⟨hid, hpc⟩
      | keep _ _ => exact ⟨u, hu, hid, hpc⟩
      | mark _ => exact ⟨u, hu, hid, hpc⟩
      | answer _ => exact ⟨u, hu, hid, hpc⟩
      | write => exact ⟨u, hu, hid, hpc⟩
      | goes ht hgo =>
        refine ⟨u, (get?_set_task ht).2 (.inr ⟨?_, hu⟩), hid, hpc⟩
        rintro rfl
        rw [ht] at hu
        cases hu
        exact hck.2 (hgo.checks hpc)
      | clean ht hdef _ =>
        refine ⟨u, (get?_set_task ht).2 (.inr ⟨?_, hu⟩), hid, hpc⟩
        rintro rfl
        rw [ht] at hu
        cases hu
        rw [hdef] at hpc
        cases hpc
    · cases hs with
      | @enter c t _ hpc =>
        obtain ⟨rfl, rfl, rfl⟩ : true = c ∧ g = S.tasks.length ∧ id = t.id := by simpa using hst
        exact ⟨t, get?_enter.2 (.inr ⟨rfl, rfl⟩), rfl, hpc⟩
      | swap _ _ => cases hst
      | keep _ _ => cases hst
      | mark _ => simp at hst
      | answer _ => simp at hst
      | write => cases hst
      | goes _ hgo => exact absurd ⟨true, hst⟩ hgo.not_started
      | clean _ _ _ => simp at hst
  swapped id hc t ht hid hpc := by
    obtain ⟨g, hg⟩ := List.getElem?_of_mem ht
    cases hs with
    | enter hfree _ =>
      rw [hfree] at hc
      cases hc
    | @swap id' g' hfree hget =>
      cases hc
      obtain ⟨u, hu, rfl⟩ := get?_swap.1 hg
      by_cases hgg : g = g'
      · rw [if_pos hgg]
      · rw [if_neg hgg] at hid hpc
        have hrun : Runs S.tasks g id := ⟨u, hu, hid, by rw [hpc]; intro h; cases h⟩
        exact absurd (hi.unique hrun ((hi.callbacks id g').1 hget)) hgg
    | keep hfree hnone =>
      cases hc
      have hrun : Runs S.tasks g id := ⟨t, hg, hid, by rw [hpc]; intro h; cases h⟩
      rw [(hi.callbacks id g).2 hrun] at hnone
      cases hnone
    | mark _ => cases hc
    | answer hfree => exact h.swapped id hc t ht hid hpc
    | write => exact h.swapped id hc t ht hid hpc
    | goes hg' hgo =>
      rcases (get?_set_task hg').1 hg with ⟨-, rfl⟩ | ⟨-, hg⟩
      · exact absurd hpc hgo.past_check
      · exact h.swapped id hc t (List.mem_of_getElem? hg) hid hpc
    | clean hg' _ hfree =>
      rw [hfree] at hc
      cases hc

/-! ## Runs -/

/-- The steps of the program, in any order. -/
def Steps : Sched → Sched → List GoObs → Prop := Lts.Guarded step fun _ _ _ => True

theorem StartsFresh.left {x : GoObs} (h : StartsFresh (os ++ o) x) : StartsFresh os x := by
  cases x with
  | started c g id => exact fun g' hst => h g' (started_append.2 (.inl hst))
  | canceled id => trivial
  | answered id b => trivial
  | checked g => trivial
  | invoked g => trivial
  | cleaned g => trivial

theorem Inv.run (hrun : Lts.Run Steps init S os) : Lts.Each StartsFresh os → S.Inv os := by
  refine hrun.inv (I := fun (S : Sched) os => Lts.Each StartsFresh os → S.Inv os) (fun _ => inv_init) ?_
  rintro S S' os o hrun ih ⟨a, hs, -⟩ hfresh
  refine (ih hfresh.left).step (step_moves hs) fun x hx => ?_
  obtain ⟨l, m, rfl⟩ := List.append_of_mem hx
  have hx' : StartsFresh (os ++ l) x := hfresh (os ++ l) x m (by simp)
  exact hx'.left

theorem Checks.run (hrun : Lts.Run Steps init S os) : Lts.Each StartsFresh os → S.Checks os := by
  refine hrun.inv (I := fun (S : Sched) os => Lts.Each StartsFresh os → S.Checks os)
    (fun _ => checks_init) ?_
  rintro S S' os o hrun ih ⟨a, hs, -⟩ hfresh
  exact (ih hfresh.left).step (.run hrun hfresh.left) (step_moves hs)

/-- **At most one call** of each callback. -/
theorem invoked_once (hrun : Lts.Run Steps init S os) (g : ℕ) :
    os.count (.invoked g) + toCall S.tasks g ≤ 1 := by
  refine hrun.inv (I := fun (S : Sched) os => os.count (.invoked g) + toCall S.tasks g ≤ 1)
    le_rfl ?_
  rintro S S' os o - ih ⟨a, hs, -⟩
  have := (step_moves hs).toCall_le (g := g)
  rw [List.count_append]
  omega

/-- A cancel of the id has returned since the task `g` was started with it, and before its
    goroutine looked at the flag. -/
def CanceledUnchecked (os : List GoObs) (g : ℕ) (id : ℤ) : Prop :=
  Lts.Once (fun before x => x = .canceled id ∧ .started true g id ∈ before ∧ .checked g ∉ before) os

/-- **A task that is cancelled in time** is not called. -/
theorem spared_run (hrun : Lts.Run Steps init S os) : Lts.Each StartsFresh os →
    CanceledUnchecked os g id → Spared S.tasks g ∧ .invoked g ∉ os := by
  refine hrun.inv (I := fun (S : Sched) os => Lts.Each StartsFresh os →
    CanceledUnchecked os g id → Spared S.tasks g ∧ .invoked g ∉ os) ?_ ?_
  · intro _ h
    exact absurd h Lts.not_once_nil
  · rintro S S' os o hrun ih ⟨a, hs, -⟩ hfresh hc
    have hmoves := step_moves hs
    have hbefore : CanceledUnchecked os g id →
        Spared S'.tasks g ∧ .invoked g ∉ os ++ o := by
      intro hc
      obtain ⟨hsp, hno⟩ := ih hfresh.left hc
      obtain ⟨hsp', hno'⟩ := hmoves.spared hsp
      exact ⟨hsp', by simp [hno, hno']⟩
    cases hmoves with
    | enter _ _ =>
      rcases Lts.once_snoc.1 hc with hc | ⟨he, -⟩
      · exact hbefore hc
      · cases he
    | swap _ _ => exact hbefore (by rwa [List.append_nil] at hc)
    | keep _ _ => exact hbefore (by rwa [List.append_nil] at hc)
    | mark hheld =>
      rcases Lts.once_snoc.1 hc with hc | ⟨he, hst, hck⟩
      · exact hbefore hc
      · cases he
        have hchecks := Checks.run hrun hfresh.left
        obtain ⟨t, ht, hid, hpc⟩ := hchecks.unchecked g id hst hck
        refine ⟨⟨t, ht, .check hpc (hchecks.swapped id hheld t (List.mem_of_getElem? ht) hid hpc)⟩, ?_⟩
        have hone := invoked_once hrun g
        have hcall : toCall S.tasks g = 1 := by simp [toCall, ht, hpc, GoPc.toCall]
        have hzero : os.count (.invoked g) = 0 := by omega
        simpa using List.count_eq_zero.1 hzero
    | answer _ =>
      rcases Lts.once_snoc.1 hc with hc | ⟨he, -⟩
      · exact hbefore hc
      · cases he
    | write => exact hbefore (by rwa [List.append_nil] at hc)
    | goes _ hgo =>
      refine hbefore ((Lts.once_append ?_).1 hc)
      rintro before x hx ⟨rfl, -⟩
      exact hgo.not_canceled hx
    | clean _ _ _ =>
      rcases Lts.once_snoc.1 hc with hc | ⟨he, -⟩
      · exact hbefore hc
      · cases he

/-- The task with the id runs, and no cancel of the id has returned since its start. -/
def Uncanceled (os : List GoObs) (id : ℤ) : Prop :=
  ∃ g, Started os g id ∧ .cleaned g ∉ os ∧ ¬ CanceledSince os g id

/-- `_IsCanceled` answers false if and only if the task runs and is not cancelled. -/
def Answers (before : List GoObs) : GoObs → Prop
  | .answered id b => b = false ↔ Uncanceled before id
  | _ => True

theorem isCanceled_iff (h : S.Inv os) : S.isCanceled id = false ↔ Uncanceled os id := by
  have hmark : S.isCanceled id = false ↔ S.cancellationMap.get? id = some false := by
    unfold isCanceled
    split
    · rename_i hnone
      simp [hnone]
    · rename_i hsome
      simp [hsome]
  rw [hmark, h.marks]
  simp only [h.runs, and_assoc, Uncanceled]

/-- **Every answer is right.** -/
theorem answers_run (hrun : Lts.Run Steps init S os) :
    Lts.Each StartsFresh os → Lts.Each Answers os := by
  refine hrun.inv (I := fun (_ : Sched) os => Lts.Each StartsFresh os → Lts.Each Answers os)
    (fun _ => .nil) ?_
  rintro S S' os o hrun ih ⟨a, hs, -⟩ hfresh
  have hbefore := ih hfresh.left
  cases step_moves hs with
  | enter _ _ => exact hbefore.snoc trivial
  | swap _ _ => rwa [List.append_nil]
  | keep _ _ => rwa [List.append_nil]
  | mark _ => exact hbefore.snoc trivial
  | answer _ => exact hbefore.snoc (isCanceled_iff (Inv.run hrun hfresh.left))
  | write => rwa [List.append_nil]
  | goes _ hgo =>
    cases hgo with
    | check _ => exact hbefore.snoc trivial
    | stop _ _ => rwa [List.append_nil]
    | pass _ _ => rwa [List.append_nil]
    | call _ => exact hbefore.snoc trivial
    | back _ => rwa [List.append_nil]
  | clean _ _ _ => exact hbefore.snoc trivial

/-- **Fresh ids**: a start takes an id that no earlier start took and no earlier cancel named. -/
def UsesFresh (before : List GoObs) : GoObs → Prop
  | .started _ _ id => (∀ g, ¬ Started before g id) ∧ .canceled id ∉ before
  | _ => True

theorem UsesFresh.starts {before : List GoObs} {x : GoObs} (h : UsesFresh before x) :
    StartsFresh before x := by
  cases x with
  | started c g id => exact h.1
  | canceled id => trivial
  | answered id b => trivial
  | checked g => trivial
  | invoked g => trivial
  | cleaned g => trivial

/-- A cancel of the id has returned before the goroutine of `g` looked at the flag. -/
def CanceledFirst (os : List GoObs) (g : ℕ) (id : ℤ) : Prop :=
  Lts.Once (fun before x => x = .canceled id ∧ .checked g ∉ before) os

theorem CanceledFirst.unchecked (h : CanceledFirst os g id) (hfresh : Lts.Each UsesFresh os)
    (hst : .started true g id ∈ os) : CanceledUnchecked os g id := by
  obtain ⟨before, x, after, rfl, rfl, hck⟩ := h
  refine ⟨before, _, after, rfl, rfl, ?_, hck⟩
  rcases List.mem_append.1 hst with hst | hst
  · exact hst
  rcases List.mem_cons.1 hst with he | hst
  · cases he
  · obtain ⟨l, m, rfl⟩ := List.append_of_mem hst
    have hno : UsesFresh (before ++ .canceled id :: l) (.started true g id) :=
      hfresh _ _ m (by simp)
    exact absurd (by simp) hno.2

/-- **The life of a Go task**, in every order of the steps of callers and goroutines. -/
theorem go_task_life (hrun : Lts.Run Steps init S os) (hfresh : Lts.Each UsesFresh os) :
    (∀ g, os.count (.invoked g) ≤ 1) ∧
      (∀ g id, .started true g id ∈ os → CanceledFirst os g id → .invoked g ∉ os) ∧
        Lts.Each Answers os := by
  have hstarts : Lts.Each StartsFresh os := hfresh.mono fun _ _ => UsesFresh.starts
  refine ⟨fun g => ?_, fun g id hst hc => ?_, answers_run hrun hstarts⟩
  · have := invoked_once hrun g
    omega
  · exact (spared_run hrun hstarts (hc.unchecked hfresh hst)).2

/-- A task that is cancelled before its goroutine looks at the flag. -/
def cancelEarly : List GoAct :=
  [.startGoTaskWithResult 1 0, .isCanceled 1, .cancelGoTask 1, .canceled, .go 0, .go 0, .go 0]

theorem cancelEarly_run : ∃ S, Lts.Run Steps init S
    [.started true 0 1, .answered 1 false, .canceled 1, .checked 0, .cleaned 0] := by
  obtain ⟨S, hexec⟩ : ∃ S, Lts.exec step cancelEarly init = some (S, [.started true 0 1,
    .answered 1 false, .canceled 1, .checked 0, .cleaned 0]) := ⟨_, rfl⟩
  exact ⟨S, Lts.exec_run hexec (Lts.along_of fun _ _ _ => trivial)⟩

/-- The callback is never called, and the answer before the cancel was right. -/
theorem go_task_life_sample : ∃ (S : Sched) (os : List GoObs), Lts.Run Steps init S os ∧
    os = [.started true 0 1, .answered 1 false, .canceled 1, .checked 0, .cleaned 0] ∧
      (∀ g, os.count (.invoked g) ≤ 1) ∧ .invoked 0 ∉ os ∧ Lts.Each Answers os := by
  obtain ⟨S, hrun⟩ := cancelEarly_run
  have hfresh : Lts.Each UsesFresh
      [.started true 0 1, .answered 1 false, .canceled 1, .checked 0, .cleaned 0] := by
    simp [Lts.each_cons, Lts.Each.nil, UsesFresh, Started]
  obtain ⟨hone, hspared, hanswers⟩ := go_task_life hrun hfresh
  have hfirst : CanceledFirst [.started true 0 1, .answered 1 false, .canceled 1, .checked 0, .cleaned 0] 0 1 :=
    ⟨[.started true 0 1, .answered 1 false], _, _, rfl, rfl, by simp⟩
  exact ⟨S, _, hrun, rfl, hone, hspared 0 1 (by simp) hfirst, hanswers⟩

end Sched

end Pipebomb
