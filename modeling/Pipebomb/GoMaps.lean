/-
  What finished Go tasks leave in the maps of `gsyncio.go`.

  A starter enters its id into `callbacks` and `cancellationMap`, the deferred function of
  its goroutine deletes it from both, and `_CancelGoTask` enters any id it is given into
  `cancellationMap`.

  * `Sched.Tidy`: both maps have the ids of the tasks that have not cleaned up, and no others.
  * `Sched.Careful`: a cancel names the id of such a task, and a task cleans up while no
    other one runs under its id.  `Tidy.step_iff`: from tidy maps the careful steps, and no
    others, lead to tidy maps.
  * `tidy_iff`: the maps are tidy all through a run if and only if its steps are careful;
    `careful_iff`: where starts take fresh ids, only a cancel can be careless.
-/
import Pipebomb.GoTasks

namespace Pipebomb

namespace Sched

variable {S S' : Sched} {os o : List GoObs} {g : ℕ} {id : ℤ}

/-- A task with the id has not run its deferred function. -/
def Live (ts : List GoTask) (id : ℤ) : Prop := ∃ g, Runs ts g id

/-- **The maps are tidy**: they have the same keys, which are the ids of the tasks that have not
    cleaned up, and nothing is left when all have. -/
structure Tidy (S : Sched) : Prop where
  same : ∀ id, id ∈ S.callbacks ↔ id ∈ S.cancellationMap
  live : ∀ id, id ∈ S.callbacks ↔ Live S.tasks id
  empty : (∀ t ∈ S.tasks, t.pc = .done) → S.callbacks = .empty ∧ S.cancellationMap = .empty

/-- **A careful step**: a cancel returns while a task with its id has not cleaned up, and a task
    cleans up while no other task with its id is still to do so. -/
def Careful (S : Sched) : GoObs → Prop
  | .canceled id => Live S.tasks id
  | .cleaned g => ∀ id, Runs S.tasks g id → ∀ g', Runs S.tasks g' id → g' = g
  | _ => True

theorem eq_empty {ν : Type} {d : Dict ℤ ν} (h : ∀ id, id ∉ d) : d = .empty := by
  apply Dict.ext
  apply List.eq_nil_iff_forall_not_mem.2
  intro p hp
  exact h p.1 (List.mem_map_of_mem hp)

/-- The keys decide whether the maps are tidy. -/
theorem tidy_of_keys (hc : ∀ id, id ∈ S.callbacks ↔ Live S.tasks id)
    (hm : ∀ id, id ∈ S.cancellationMap ↔ Live S.tasks id) : S.Tidy := by
  refine ⟨fun id => (hc id).trans (hm id).symm, hc, fun hdone => ?_⟩
  have hnot : ∀ id, ¬ Live S.tasks id := by
    rintro id ⟨g, t, ht, -, hpc⟩
    exact hpc (hdone t (List.mem_of_getElem? ht))
  exact ⟨eq_empty fun id h => hnot id ((hc id).1 h), eq_empty fun id h => hnot id ((hm id).1 h)⟩

theorem Tidy.marked (h : S.Tidy) (id : ℤ) : id ∈ S.cancellationMap ↔ Live S.tasks id :=
  (h.same id).symm.trans (h.live id)

theorem tidy_init : init.Tidy := by
  have hnot : ∀ id, ¬ Live init.tasks id := by
    rintro id ⟨g, t, ht, -⟩
    cases ht
  refine tidy_of_keys (fun id => ?_) fun id => ?_
  · exact iff_of_false (Dict.not_mem_empty id) (hnot id)
  · exact iff_of_false (Dict.not_mem_empty id) (hnot id)

/-- A step that neither enters nor deletes keeps the maps tidy. -/
theorem Tidy.same_keys (h : S.Tidy) (hc : S'.callbacks = S.callbacks)
    (hm : S'.cancellationMap = S.cancellationMap)
    (hl : ∀ g id, Runs S'.tasks g id ↔ Runs S.tasks g id) : S'.Tidy := by
  have hlive : ∀ id, Live S'.tasks id ↔ Live S.tasks id := fun id => exists_congr fun g => hl g id
  refine tidy_of_keys (fun id => ?_) fun id => ?_
  · rw [hc, h.live, hlive]
  · rw [hm, h.marked, hlive]

/-- A start. -/
theorem Tidy.enter {t : GoTask} (h : S.Tidy) (hpc : t.pc ≠ .done) : Tidy { S with
    cancellationMap := S.cancellationMap.set t.id false
    callbacks := S.callbacks.set t.id S.tasks.length
    tasks := S.tasks ++ [t] } := by
  have hlive : ∀ id, Live (S.tasks ++ [t]) id ↔ id = t.id ∨ Live S.tasks id := by
    intro id
    simp only [Live, runs_enter hpc, exists_or, exists_eq_left]
    exact or_comm
  refine tidy_of_keys (fun id => ?_) fun id => ?_
  · rw [Dict.mem_set, hlive, h.live]
  · rw [Dict.mem_set, hlive, h.marked]

/-- A cancel enters its id, which has to be there already. -/
theorem Tidy.mark_iff (h : S.Tidy) : Tidy { S with
    cancellationMap := S.cancellationMap.set id true
    cancelling := none } ↔ Live S.tasks id := by
  constructor
  · intro h'
    exact (h'.marked id).1 (Dict.mem_set.2 (.inl rfl))
  · intro hlive
    refine tidy_of_keys h.live fun id' => ?_
    rw [Dict.mem_set, h.marked]
    constructor
    · rintro (rfl | hl)
      · exact hlive
      · exact hl
    · exact .inr

/-- A deferred function deletes its id, which no other task may have. -/
theorem Tidy.clean_iff {t : GoTask} (h : S.Tidy) (ht : S.tasks[g]? = some t) : Tidy { S with
    tasks := S.tasks.set g { t with pc := .done }
    cancellationMap := S.cancellationMap.erase t.id
    callbacks := S.callbacks.erase t.id } ↔ ∀ g', Runs S.tasks g' t.id → g' = g := by
  have hend : ∀ g' id, Runs (S.tasks.set g { t with pc := .done }) g' id ↔
      Runs S.tasks g' id ∧ g' ≠ g := fun g' id => runs_end ht rfl
  constructor
  · intro h' g' hr
    by_contra hne
    have hmem := (h'.live t.id).2 ⟨g', (hend g' t.id).2 ⟨hr, hne⟩⟩
    exact (Dict.mem_erase.1 hmem).1 rfl
  · intro honly
    have hlive : ∀ id, Live (S.tasks.set g { t with pc := .done }) id ↔
        id ≠ t.id ∧ Live S.tasks id := by
      intro id
      constructor
      · rintro ⟨g', hr⟩
        obtain ⟨hr, hne⟩ := (hend g' id).1 hr
        refine ⟨?_, g', hr⟩
        rintro rfl
        exact hne (honly g' hr)
      · rintro ⟨hid, g', hr⟩
        refine ⟨g', (hend g' id).2 ⟨hr, ?_⟩⟩
        rintro rfl
        exact hid (hr.entered.id_eq ht)
    refine tidy_of_keys (fun id => ?_) fun id => ?_
    · rw [Dict.mem_erase, hlive, h.live]
    · rw [Dict.mem_erase, hlive, h.marked]

/-- **A step from tidy maps** leads to tidy maps if and only if it is careful. -/
theorem Tidy.step_iff (h : S.Tidy) (hs : Moves S S' o) : S'.Tidy ↔ ∀ x ∈ o, S.Careful x := by
  cases hs with
  | enter _ hpc =>
    refine iff_of_true (h.enter (fresh_pc hpc)) ?_
    simp [Careful]
  | swap _ _ => exact iff_of_true (h.same_keys rfl rfl fun _ _ => runs_swap) (by simp)
  | keep _ _ => exact iff_of_true (h.same_keys rfl rfl fun _ _ => .rfl) (by simp)
  | mark _ =>
    rw [h.mark_iff]
    simp [Careful]
  | answer _ => exact iff_of_true h (by simp [Careful])
  | write => exact iff_of_true (h.same_keys rfl rfl fun _ _ => .rfl) (by simp)
  | goes ht hgo =>
    refine iff_of_true (h.same_keys rfl rfl fun _ _ => runs_set ht rfl hgo.live.1 hgo.live.2) ?_
    intro x hx
    rcases hgo.quiet x hx with rfl | rfl
    · trivial
    · trivial
  | @clean g t ht hpc _ =>
    rw [h.clean_iff ht]
    have hrun : Runs S.tasks g t.id := ⟨t, ht, rfl, by rw [hpc]; intro h; cases h⟩
    simp only [List.mem_singleton, forall_eq, Careful]
    constructor
    · intro honly id hr g' hr'
      obtain rfl := hr.entered.id_eq ht
      exact honly g' hr'
    · intro honly
      exact honly t.id hrun

/-! ## Runs -/

/-- A step of a run of the library. -/
abbrev GoStep : Type := Lts.Shown Sched GoAct GoObs

/-- The steps of the program that show themselves, in any order. -/
def ShownSteps : Sched → Sched → List GoStep → Prop :=
  Lts.Guarded (Lts.shown step) (Lts.Showing fun _ _ _ => True)

/-- **Tidy maps**: in every order of the steps of callers and goroutines, the maps are tidy after
    every step if and only if every step is careful. -/
theorem tidy_iff {xs : List GoStep} (hrun : Lts.Run ShownSteps init S xs) :
    (∀ x ∈ xs, x.after.Tidy) ↔ ∀ x ∈ xs, ∀ o ∈ x.obs, x.before.Careful o := by
  -- The state after the last step is tidy if all are, so that `Tidy.step_iff` applies to it.
  refine (hrun.inv (I := fun (S : Sched) xs => ((∀ x ∈ xs, x.after.Tidy) → S.Tidy) ∧
    ((∀ x ∈ xs, x.after.Tidy) ↔ ∀ x ∈ xs, ∀ o ∈ x.obs, x.before.Careful o)) ?_ ?_).2
  · exact ⟨fun _ => tidy_init, by simp⟩
  · rintro S S' xs x - ⟨htidy, hiff⟩ ⟨a, hs, -⟩
    obtain ⟨o, hstep, rfl⟩ := Lts.shown_step hs
    have hmoves := step_moves hstep
    simp only [List.mem_append, List.mem_singleton, or_imp, forall_and, forall_eq]
    refine ⟨And.right, ?_⟩
    rw [← hiff]
    constructor
    · rintro ⟨hall, htidy'⟩
      exact ⟨hall, ((htidy hall).step_iff hmoves).1 htidy'⟩
    · rintro ⟨hall, hcareful⟩
      exact ⟨hall, ((htidy hall).step_iff hmoves).2 hcareful⟩

/-- A task that is cancelled before it looks at its flag, and cleans up. -/
theorem tidy_iff_sample : ∃ S xs, Lts.Run ShownSteps init S xs ∧ S.tasks = [⟨1, .one, .done⟩] ∧
    ∀ x ∈ xs, x.after.Tidy := by
  obtain ⟨S, xs, hexec, htasks, hcareful⟩ : ∃ S xs, Lts.exec (Lts.shown step) [.startGoTaskWithResult 1 0,
      .cancelGoTask 1, .canceled, .go 0, .go 0, .go 0] init = some (S, xs) ∧
        S.tasks = [⟨1, .one, .done⟩] ∧ ∀ x ∈ xs, ∀ o ∈ x.obs, x.before.Careful o := by
    refine ⟨_, _, rfl, rfl, ?_⟩
    simp only [List.cons_append, List.nil_append, List.forall_mem_cons, List.not_mem_nil,
      IsEmpty.forall_iff, implies_true, and_true, true_and]
    refine ⟨trivial, ⟨0, ⟨1, .one, .check⟩, rfl, rfl, by decide⟩, trivial, ?_⟩
    rintro id - g' ⟨t, ht, -⟩
    rcases g' with _ | g'
    · rfl
    · cases ht
  have hrun : Lts.Run ShownSteps init S xs :=
    Lts.exec_run hexec (Lts.along_of fun _ _ _ _ _ => trivial)
  exact ⟨S, xs, hrun, htasks, (tidy_iff hrun).2 hcareful⟩

/-- **A cancel after the end.**  All goroutines are done, and the id stays in a map. -/
theorem cancel_leaks : ∃ S xs, Lts.Run ShownSteps init S xs ∧ (∀ t ∈ S.tasks, t.pc = .done) ∧
    S.callbacks = .empty ∧ S.cancellationMap.get? 1 = some true ∧ ¬ ∀ x ∈ xs, x.after.Tidy := by
  obtain ⟨S, xs, hexec, hdone, hc, hm, hlast⟩ : ∃ S xs, Lts.exec (Lts.shown step) [.startGoTask 1,
      .go 0, .go 0, .go 0, .cancelGoTask 1, .canceled] init = some (S, xs) ∧
        (∀ t ∈ S.tasks, t.pc = .done) ∧ S.callbacks = .empty ∧
          S.cancellationMap.get? 1 = some true ∧ ∃ x ∈ xs, x.after = S := by
    refine ⟨_, _, rfl, ?_, ?_, rfl, ?_⟩
    · decide
    · decide
    · simp
  have hrun : Lts.Run ShownSteps init S xs :=
    Lts.exec_run hexec (Lts.along_of fun _ _ _ _ _ => trivial)
  refine ⟨S, xs, hrun, hdone, hc, hm, fun htidy => ?_⟩
  obtain ⟨x, hx, rfl⟩ := hlast
  rw [((htidy x hx).empty hdone).2] at hm
  cases hm

/-- **With fresh ids** only a cancel can be careless. -/
theorem careful_iff {xs : List GoStep} (hrun : Lts.Run ShownSteps init S xs)
    (hfresh : Lts.Each StartsFresh (xs.flatMap Lts.Shown.obs)) :
    (∀ x ∈ xs, ∀ o ∈ x.obs, x.before.Careful o) ↔
      ∀ x ∈ xs, ∀ id, .canceled id ∈ x.obs → Live x.before.tasks id := by
  constructor
  · intro hall x hx id ho
    exact hall x hx _ ho
  · intro hall x hx o ho
    cases o with
    | canceled id => exact hall x hx id ho
    | cleaned g =>
      obtain ⟨xs₁, xs₂, rfl, hrun₁, -⟩ := Lts.shown_mem hrun hx
      rw [List.flatMap_append] at hfresh
      intro id hr g' hr'
      exact (Inv.run (Lts.shown_run hrun₁) hfresh.left).unique hr' hr
    | started c g id => trivial
    | answered id b => trivial
    | checked g => trivial
    | invoked g => trivial

end Sched

end Pipebomb
