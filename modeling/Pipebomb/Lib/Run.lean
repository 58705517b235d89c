/-
  Runs of a transition system whose steps emit observations.

  * `Run step s s' os`: from `s` a sequence of steps leads to `s'`, emitting `os`.
  * `Run.inv`: what holds at the start and is kept by every step, given the
    observations so far, holds of every run.
  * `progress`: a rank that every step brings down leads a run to its end.
  * `Was P`: on the way of a run `P` held.
  * `Each P`, `Once P`: every observation, or some observation, satisfies `P`, given the
    observations before it.
  * `Guarded f ok`: the steps of a labelled system `f` that satisfy `ok`; `exec` runs
    a list of labels, and `exec_run` turns a successful execution into a run.
  * `shown f`: the system that shows its steps.  A step that is seen in a run was made in
    a state of the run (`shown_mem`).
-/
import Mathlib

namespace Lts

variable {σ α ω : Type}

/-- From `s`, steps lead to `s'` and emit the observations `os`, in order. -/
inductive Run (step : σ → σ → List ω → Prop) (s : σ) : σ → List ω → Prop
  | nil : Run step s s []
  | snoc {s₁ s₂ : σ} {os o : List ω} : Run step s s₁ os → step s₁ s₂ o → Run step s s₂ (os ++ o)

variable {step step' : σ → σ → List ω → Prop} {s s₁ s₂ : σ} {os os₁ os₂ : List ω}

/-- **Invariants hold of every run.** -/
theorem Run.inv {I : σ → List ω → Prop} (h0 : I s [])
    (hs : ∀ {s₁ s₂ os o}, Run step s s₁ os → I s₁ os → step s₁ s₂ o → I s₂ (os ++ o))
    (h : Run step s s₁ os) : I s₁ os := by
  induction h with
  | nil => exact h0
  | snoc hr hst ih => exact hs hr ih hst

theorem Run.single (h : step s s₁ os) : Run step s s₁ os := by
  simpa using Run.snoc .nil h

theorem Run.trans (h₁ : Run step s s₁ os₁) (h₂ : Run step s₁ s₂ os₂) :
    Run step s s₂ (os₁ ++ os₂) := by
  induction h₂ with
  | nil => simpa using h₁
  | snoc _ hst ih => rw [← List.append_assoc]; exact ih.snoc hst

/-- A run of a system is a run of every system with more steps. -/
theorem Run.mono (hm : ∀ {s s' o}, step s s' o → step' s s' o) (h : Run step s s₁ os) :
    Run step' s s₁ os := by
  induction h with
  | nil => exact .nil
  | snoc _ hst ih => exact ih.snoc (hm hst)

/-- **Progress**: if from every state with `P` a step leads to one with `P` that has `Q` or a smaller
    rank, then a run leads to one with `P` and `Q`. -/
theorem progress {P Q : σ → List ω → Prop} (rank : σ → ℕ)
    (h : ∀ s os, P s os → ¬ Q s os →
      ∃ s' o, step s s' o ∧ P s' (os ++ o) ∧ (Q s' (os ++ o) ∨ rank s' < rank s))
    {s : σ} {os : List ω} (hP : P s os) :
    ∃ s' os', Run step s s' os' ∧ P s' (os ++ os') ∧ Q s' (os ++ os') := by
  induction hn : rank s using Nat.strongRecOn generalizing s os with
  | ind n ih =>
    by_cases hQ : Q s os
    · exact ⟨s, [], .nil, by rwa [List.append_nil], by rwa [List.append_nil]⟩
    · obtain ⟨s₁, o, hstep, hP₁, hQ₁ | hlt⟩ := h s os hP hQ
      · exact ⟨s₁, o, .single hstep, hP₁, hQ₁⟩
      · obtain ⟨s₂, os₂, hrun, hP₂, hQ₂⟩ := ih (rank s₁) (hn ▸ hlt) hP₁ rfl
        rw [List.append_assoc] at hP₂ hQ₂
        exact ⟨s₂, o ++ os₂, (Run.single hstep).trans hrun, hP₂, hQ₂⟩

/-- On the way of a run `P` held. -/
def Was (step : σ → σ → List ω → Prop) (s : σ) (P : σ → List ω → Prop) (s' : σ)
    (os : List ω) : Prop :=
  ∃ s₁ os₁ os₂, os = os₁ ++ os₂ ∧ Run step s s₁ os₁ ∧ Run step s₁ s' os₂ ∧ P s₁ os₁

theorem Was.now {P : σ → List ω → Prop} (h : Run step s s₁ os) (hP : P s₁ os) :
    Was step s P s₁ os := ⟨s₁, os, [], by simp, h, .nil, hP⟩

theorem Was.snoc {P : σ → List ω → Prop} {o : List ω} (h : Was step s P s₁ os)
    (hstep : step s₁ s₂ o) : Was step s P s₂ (os ++ o) := by
  obtain ⟨s', os₁, os₂, rfl, h₁, h₂, hP⟩ := h
  exact ⟨s', os₁, os₂ ++ o, by simp, h₁, h₂.snoc hstep, hP⟩

/-! ## Observations in their order -/

/-- Every observation satisfies `P`, given the observations before it. -/
def Each (P : List ω → ω → Prop) (os : List ω) : Prop :=
  ∀ before x after, os = before ++ x :: after → P before x

variable {P Q : List ω → ω → Prop}

theorem Each.left (h : Each P (os₁ ++ os₂)) : Each P os₁ := by
  rintro before x after rfl
  exact h before x (after ++ os₂) (by simp)

theorem Each.nil : Each P ([] : List ω) := by
  intro before x after h
  simp at h

/-- One more observation. -/
theorem Each.snoc {x : ω} (h : Each P os) (hx : P os x) : Each P (os ++ [x]) := by
  intro before y after he
  rcases after.eq_nil_or_concat with rfl | ⟨after', z, rfl⟩
  · obtain ⟨rfl, hy⟩ := List.append_inj' he rfl
    cases hy
    exact hx
  · rw [List.concat_eq_append, ← List.cons_append, ← List.append_assoc] at he
    obtain ⟨rfl, -⟩ := List.append_inj' he rfl
    exact h before y after' rfl

theorem Each.single {x : ω} (h : P [] x) : Each P [x] := Each.nil.snoc h

/-- More observations, each of which satisfies `P` after those before it. -/
theorem Each.append (h : Each P os₁) (h' : Each (fun before => P (os₁ ++ before)) os₂) :
    Each P (os₁ ++ os₂) := by
  induction os₂ using List.reverseRecOn with
  | nil => rwa [List.append_nil]
  | append_singleton os x ih =>
    rw [← List.append_assoc]
    exact (ih h'.left).snoc (h' os x [] rfl)

/-- Observations that satisfy `P` whatever was seen before. -/
theorem each_of_all (h : ∀ before, ∀ x ∈ os, P before x) : Each P os := by
  rintro before x after rfl
  exact h before x (by simp)

theorem each_cons {x : ω} {xs : List ω} :
    Each P (x :: xs) ↔ P [] x ∧ Each (fun before => P (x :: before)) xs := by
  constructor
  · intro h
    refine ⟨h [] x xs rfl, ?_⟩
    rintro before y after rfl
    exact h (x :: before) y after rfl
  · rintro ⟨hx, hxs⟩ before y after he
    cases before with
    | nil =>
      obtain ⟨rfl, rfl⟩ := List.cons.inj he
      exact hx
    | cons z before =>
      obtain ⟨rfl, rfl⟩ := List.cons.inj he
      exact hxs before y after rfl

theorem Each.mono (himp : ∀ before x, P before x → Q before x) (h : Each P os) : Each Q os :=
  fun before x after he => himp before x (h before x after he)

/-- Some observation satisfies `P`, given the observations before it. -/
def Once (P : List ω → ω → Prop) (os : List ω) : Prop :=
  ∃ before x after, os = before ++ x :: after ∧ P before x

theorem not_once_nil : ¬ Once P ([] : List ω) := by
  rintro ⟨before, x, after, he, -⟩
  simp at he

theorem once_snoc {x : ω} : Once P (os ++ [x]) ↔ Once P os ∨ P os x := by
  constructor
  · rintro ⟨before, y, after, he, hy⟩
    rcases after.eq_nil_or_concat with rfl | ⟨after', z, rfl⟩
    · obtain ⟨rfl, hyx⟩ := List.append_inj' he rfl
      cases hyx
      exact .inr hy
    · rw [List.concat_eq_append, ← List.cons_append, ← List.append_assoc] at he
      obtain ⟨rfl, -⟩ := List.append_inj' he rfl
      exact .inl ⟨before, y, after', rfl, hy⟩
  · rintro (⟨before, y, after, rfl, hy⟩ | hx)
    · exact ⟨before, y, after ++ [x], by simp, hy⟩
    · exact ⟨os, x, [], rfl, hx⟩

theorem once_append (hno : ∀ before, ∀ x ∈ os₂, ¬ P before x) :
    Once P (os₁ ++ os₂) ↔ Once P os₁ := by
  induction os₂ using List.reverseRecOn with
  | nil => rw [List.append_nil]
  | append_singleton xs x ih =>
    rw [← List.append_assoc, once_snoc, or_iff_left (hno _ x (by simp))]
    exact ih fun before y hy => hno before y (List.mem_append_left _ hy)

/-- The observation between others. -/
theorem Each.at {x : ω} (h : Each P (os₁ ++ x :: os₂)) : P os₁ x := h os₁ x os₂ rfl

/-- The observations that satisfy `b`, in their order. -/
theorem Each.filter {b : ω → Bool} (h : Each Q os)
    (himp : ∀ before x, b x = true → Q before x → P (before.filter b) x) :
    Each P (os.filter b) := by
  intro before x after he
  obtain ⟨l₁, l₂', rfl, rfl, h₂⟩ := List.filter_eq_append_iff.1 he
  obtain ⟨l, l₂, rfl, hl, hx, -⟩ := List.filter_eq_cons_iff.1 h₂
  have hb : l₁.filter b = (l₁ ++ l).filter b := by
    rw [List.filter_append, List.filter_eq_nil_iff.2 hl, List.append_nil]
  rw [hb]
  exact himp _ x hx (h (l₁ ++ l) x l₂ (by simp))

theorem each_iff : Each P os ↔ ∀ i : Fin os.length, P (os.take i) (os.get i) := by
  constructor
  · intro h i
    refine h _ _ (os.drop (i + 1)) ?_
    rw [List.get_eq_getElem, ← List.drop_eq_getElem_cons i.2, List.take_append_drop]
  · rintro h before x after rfl
    have := h ⟨before.length, by simp⟩
    simpa using this

instance decidableEach [∀ before x, Decidable (P before x)] : Decidable (Each P os) :=
  decidable_of_iff _ each_iff.symm

/-! ## Labelled systems -/

/-- The steps of the labelled system `f` that satisfy `ok`. -/
def Guarded (f : σ → α → Option (σ × List ω)) (ok : σ → α → List ω → Prop) (s s' : σ)
    (o : List ω) : Prop :=
  ∃ a, f s a = some (s', o) ∧ ok s a o

theorem Run.guard {f : σ → α → Option (σ × List ω)} {ok ok' : σ → α → List ω → Prop}
    (himp : ∀ {s a o}, ok s a o → ok' s a o) (h : Run (Guarded f ok) s s₁ os) :
    Run (Guarded f ok') s s₁ os :=
  h.mono fun ⟨a, hs, hok⟩ => ⟨a, hs, himp hok⟩

/-- Take the steps with the given labels. -/
def exec (f : σ → α → Option (σ × List ω)) : List α → σ → Option (σ × List ω)
  | [], s => some (s, [])
  | a :: as, s => match f s a with
    | none => none
    | some (s', o) => match exec f as s' with
      | none => none
      | some (s'', o') => some (s'', o ++ o')

/-- The guard holds at every step of the execution. -/
def Along (f : σ → α → Option (σ × List ω)) (ok : σ → α → List ω → Prop) : List α → σ → Prop
  | [], _ => True
  | a :: as, s => match f s a with
    | none => True
    | some (s', o) => ok s a o ∧ Along f ok as s'

variable {f : σ → α → Option (σ × List ω)} {ok : σ → α → List ω → Prop}

/-- **A successful execution along which the guard holds is a run.** -/
theorem exec_run : ∀ {as : List α} {s s₁ : σ} {os : List ω}, exec f as s = some (s₁, os) →
    Along f ok as s → Run (Guarded f ok) s s₁ os
  | [], s, s₁, os, h, _ => by cases h; exact .nil
  | a :: as, s, s₁, os, h, hok => by
    rcases ha : f s a with _ | ⟨s', o⟩
    · simp [exec, ha] at h
    · rcases he : exec f as s' with _ | ⟨s'', o'⟩
      · simp [exec, ha, he] at h
      · simp only [exec, ha, he, Option.some.injEq, Prod.mk.injEq] at h
        simp only [Along, ha] at hok
        obtain ⟨rfl, rfl⟩ := h
        exact (Run.single ⟨a, ha, hok.1⟩).trans (exec_run he hok.2)

theorem along_of (h : ∀ s a o, ok s a o) : ∀ {as : List α} {s : σ}, Along f ok as s := by
  intro as
  induction as with
  | nil => exact trivial
  | cons a as ih =>
    intro s
    rw [Along]
    split
    · exact trivial
    · exact ⟨h _ _ _, ih⟩

instance decidableAlong [∀ s a o, Decidable (ok s a o)] :
    ∀ (as : List α) (s : σ), Decidable (Along f ok as s)
  | [], _ => isTrue trivial
  | a :: as, s => by
    rw [Along]
    rcases f s a with _ | ⟨s', o⟩
    · exact isTrue trivial
    · have := decidableAlong as s'
      exact inferInstanceAs (Decidable (_ ∧ _))

/-- A guard follows from another and an invariant that guarded steps keep. -/
theorem Along.imp {ok' : σ → α → List ω → Prop} {I : σ → Prop}
    (hstep : ∀ {s a s' o}, I s → ok s a o → f s a = some (s', o) → I s')
    (himp : ∀ {s a o}, I s → ok s a o → ok' s a o) : ∀ {as : List α} {s : σ},
      I s → Along f ok as s → Along f ok' as s
  | [], _, _, _ => trivial
  | a :: as, s, hI, h => by
    rw [Along] at h ⊢
    rcases ha : f s a with _ | ⟨s', o⟩
    · trivial
    · rw [ha] at h
      exact ⟨himp hI h.1, Along.imp hstep himp (hstep hI h.1 ha) h.2⟩

/-! ## Steps as observations -/

/-- A step of a labelled system. -/
structure Shown (σ α ω : Type) where
  before : σ
  act : α
  obs : List ω
  after : σ

/-- The system that shows its steps. -/
def shown (f : σ → α → Option (σ × List ω)) (s : σ) (a : α) :
    Option (σ × List (Shown σ α ω)) :=
  match f s a with
  | none => none
  | some (s', o) => some (s', [⟨s, a, o, s'⟩])

/-- The guard of the steps that are shown. -/
def Showing (ok : σ → α → List ω → Prop) (s : σ) (a : α) (xs : List (Shown σ α ω)) : Prop :=
  ∀ x ∈ xs, ok s a x.obs

instance decidableShowing [∀ s a o, Decidable (ok s a o)] (s : σ) (a : α) (xs : List (Shown σ α ω)) :
    Decidable (Showing ok s a xs) := inferInstanceAs (Decidable (∀ x ∈ xs, _))

theorem shown_step {s' : σ} {a : α} {xs : List (Shown σ α ω)} (h : shown f s a = some (s', xs)) :
    ∃ o, f s a = some (s', o) ∧ xs = [⟨s, a, o, s'⟩] := by
  unfold shown at h
  rcases hf : f s a with _ | ⟨s₁, o⟩
  · rw [hf] at h; cases h
  · rw [hf] at h
    cases h
    exact ⟨o, rfl, rfl⟩

/-- A run that shows its steps is a run. -/
theorem shown_run {xs : List (Shown σ α ω)} (h : Run (Guarded (shown f) (Showing ok)) s s₁ xs) :
    Run (Guarded f ok) s s₁ (xs.flatMap Shown.obs) := by
  induction h with
  | nil => exact .nil
  | snoc _ hst ih =>
    rename_i s₂ s₃ xs _ _
    obtain ⟨a, hs, hok⟩ := hst
    obtain ⟨o, hf, rfl⟩ := shown_step hs
    rw [List.flatMap_append]
    have hobs : [(⟨s₂, a, o, s₃⟩ : Shown σ α ω)].flatMap Shown.obs = o := by simp
    rw [hobs]
    exact ih.snoc ⟨a, hf, hok _ List.mem_cons_self⟩

/-- **A step that was shown** was made in a state of the run, after the steps before it. -/
theorem shown_mem {xs : List (Shown σ α ω)} {x : Shown σ α ω}
    (h : Run (Guarded (shown f) (Showing ok)) s s₁ xs) (hx : x ∈ xs) :
    ∃ xs₁ xs₂, xs = xs₁ ++ x :: xs₂ ∧ Run (Guarded (shown f) (Showing ok)) s x.before xs₁ ∧
      f x.before x.act = some (x.after, x.obs) ∧ ok x.before x.act x.obs := by
  induction h with
  | nil => cases hx
  | snoc hr hst ih =>
    rename_i s₁ s₂ xs o
    obtain ⟨a, hs, hok⟩ := hst
    obtain ⟨o, hf, rfl⟩ := shown_step hs
    rcases List.mem_append.1 hx with hx | hx
    · obtain ⟨xs₁, xs₂, rfl, hrun, hstep, hguard⟩ := ih hx
      exact ⟨xs₁, xs₂ ++ [⟨s₁, a, o, s₂⟩], by simp, hrun, hstep, hguard⟩
    · rw [List.mem_singleton] at hx
      subst hx
      exact ⟨xs, [], rfl, hr, hf, hok _ (by simp)⟩

end Lts
