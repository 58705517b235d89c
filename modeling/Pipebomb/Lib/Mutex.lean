/-
  A lock and its holders.

  A system has a lock (`Mutex`): a predicate that tells whether it is taken, and one that
  tells who holds it.

  * `Sound`: the lock is taken exactly while somebody holds it, and only one at a time.
  * `Lost`: it is taken and nobody holds it.
  * `Step`: somebody takes the free lock, its holder gives it back, or neither.  Such steps
    keep a sound lock sound and a lost one lost (`Sound.step`, `Lost.step`).
  * `Turn`: the same for a step of one party, which leaves the others where they are
    (`Turn.step`).
  * `Sound.leak`: a lock that is taken by somebody who is gone afterwards is lost.
-/
import Mathlib

/-- A lock of a system with states `σ` and parties `ι`. -/
structure Mutex (σ ι : Type) where
  taken : σ → Prop
  holds : σ → ι → Prop

namespace Mutex

variable {σ ι : Type} (m : Mutex σ ι) {s s' : σ}

/-- The lock is taken exactly while one party holds it. -/
structure Sound (s : σ) : Prop where
  held : m.taken s → ∃ i, m.holds s i
  taken : ∀ i, m.holds s i → m.taken s
  unique : ∀ i j, m.holds s i → m.holds s j → i = j

/-- The lock is taken and nobody holds it. -/
def Lost (s : σ) : Prop := m.taken s ∧ ∀ i, ¬ m.holds s i

/-- What a step does to the lock. -/
inductive Step (s s' : σ) : Prop
  | keep : (m.taken s' ↔ m.taken s) → (∀ i, m.holds s' i ↔ m.holds s i) → Step s s'
  | take (i : ι) : ¬ m.taken s → m.taken s' → (∀ j, m.holds s' j ↔ j = i ∨ m.holds s j) → Step s s'
  | release (i : ι) : m.holds s i → ¬ m.taken s' → (∀ j, m.holds s' j ↔ j ≠ i ∧ m.holds s j) →
      Step s s'

/-- What a step of one party does to the lock: it takes it, gives it back, or neither. -/
inductive Turn (s s' : σ) (i : ι) : Prop
  | keep : (m.taken s' ↔ m.taken s) → (m.holds s' i ↔ m.holds s i) → Turn s s' i
  | take : ¬ m.taken s → m.taken s' → m.holds s' i → Turn s s' i
  | release : m.holds s i → ¬ m.taken s' → ¬ m.holds s' i → Turn s s' i

variable {m}

/-- A step of one party is a step. -/
theorem Turn.step {i : ι} (h : m.Turn s s' i) (hothers : ∀ j, j ≠ i → (m.holds s' j ↔ m.holds s j)) :
    m.Step s s' := by
  cases h with
  | keep ht hi =>
    refine .keep ht fun j => ?_
    by_cases hj : j = i
    · rw [hj]; exact hi
    · exact hothers j hj
  | take hfree ht hi =>
    refine .take i hfree ht fun j => ?_
    by_cases hj : j = i
    · rw [hj]; exact iff_of_true hi (.inl rfl)
    · exact (hothers j hj).trans ⟨.inr, fun h => h.resolve_left hj⟩
  | release hi ht hi' =>
    refine .release i hi ht fun j => ?_
    by_cases hj : j = i
    · rw [hj]; exact iff_of_false hi' fun h => h.1 rfl
    · exact (hothers j hj).trans ⟨fun h => ⟨hj, h⟩, fun h => h.2⟩

theorem Sound.free (h : m.Sound s) (hfree : ¬ m.taken s) (i : ι) : ¬ m.holds s i :=
  fun hi => hfree (h.taken i hi)

/-- **Steps keep a sound lock sound.** -/
theorem Sound.step (h : m.Sound s) (hs : m.Step s s') : m.Sound s' := by
  cases hs with
  | keep ht hh =>
    refine ⟨fun htaken => ?_, fun i hi => ht.2 (h.taken i ((hh i).1 hi)),
      fun i j hi hj => h.unique i j ((hh i).1 hi) ((hh j).1 hj)⟩
    obtain ⟨i, hi⟩ := h.held (ht.1 htaken)
    exact ⟨i, (hh i).2 hi⟩
  | take i hfree htaken hh =>
    have honly : ∀ j, m.holds s' j → j = i := fun j hj => ((hh j).1 hj).resolve_right (h.free hfree j)
    exact ⟨fun _ => ⟨i, (hh i).2 (.inl rfl)⟩, fun _ _ => htaken,
      fun j k hj hk => (honly j hj).trans (honly k hk).symm⟩
  | release i hi hfree hh =>
    have hnone : ∀ j, ¬ m.holds s' j := fun j hj =>
      ((hh j).1 hj).1 (h.unique j i ((hh j).1 hj).2 hi)
    exact ⟨fun htaken => absurd htaken hfree, fun j hj => absurd hj (hnone j),
      fun j _ hj => absurd hj (hnone j)⟩

/-- **A lost lock stays lost.** -/
theorem Lost.step (h : m.Lost s) (hs : m.Step s s') : m.Lost s' := by
  cases hs with
  | keep ht hh => exact ⟨ht.2 h.1, fun i hi => h.2 i ((hh i).1 hi)⟩
  | take i hfree => exact absurd h.1 hfree
  | release i hi => exact absurd hi (h.2 i)

/-- The lock is taken, and nobody holds it afterwards. -/
theorem Sound.leak (h : m.Sound s) (hfree : ¬ m.taken s) (htaken : m.taken s')
    (hh : ∀ i, m.holds s' i ↔ m.holds s i) : m.Lost s' :=
  ⟨htaken, fun i hi => h.free hfree i ((hh i).1 hi)⟩

theorem Lost.not_held (h : m.Lost s) : ¬ (m.taken s → ∃ i, m.holds s i) := by
  intro hheld
  obtain ⟨i, hi⟩ := hheld h.1
  exact h.2 i hi

end Mutex
