/-
  Waiting in line for a lock.

  A `Line` tells which lock a party of a system waits for, which party makes a step, and whether
  the step takes the lock that the party waits for.

  * `Lined`: each party that waits stands in the line of its lock, once.
  * `inLine f`: the labelled system `f` with its lines.  A lock is taken by the first in its line,
    and who begins to wait goes to the end.  Its runs are runs of `f` (`run_left`), and they keep
    the lines (`Lined.run`).  `progress` is the rule for a rank.
  * `Serves`: the lock can be given back by the one who holds it, and be taken by each who waits.
  * `Serves.turn_comes`: then at most two steps for each that waits before lead to the turn.
-/
import Pipebomb.Lib.Run

/-- Who waits for which lock, and who makes a step. -/
structure Line (σ α ι ℓ : Type) where
  waits : σ → ι → Option ℓ
  actor : α → Option ι
  /-- the step takes the lock that its party waits for -/
  takes : α → Bool

namespace Line

variable {σ α ι ℓ ω : Type} (W : Line σ α ι ℓ)

/-- Each party that waits stands in the line of its lock, once. -/
structure Lined (s : σ) (q : ℓ → List ι) : Prop where
  nodup : ∀ l, (q l).Nodup
  mem : ∀ l i, i ∈ q l ↔ W.waits s i = some l

/-- A lock is taken by the first in its line. -/
def InTurn (s : σ) (q : ℓ → List ι) (a : α) : Prop :=
  W.takes a = true → ∀ i ∈ W.actor a, ∀ l ∈ W.waits s i, (q l).head? = some i

/-- A step leaves what the other parties wait for. -/
def Local (f : σ → α → Option (σ × List ω)) : Prop :=
  ∀ s a s' o, f s a = some (s', o) → ∀ i, W.actor a ≠ some i → W.waits s' i = W.waits s i

variable {W} in
/-- A party that waits for nothing is always in turn. -/
theorem inTurn_of_not_waits {s : σ} {q : ℓ → List ι} {a : α} (h : ∀ i ∈ W.actor a, W.waits s i = none) :
    W.InTurn s q a := by
  intro _ i hi l hl
  rw [h i hi] at hl
  cases hl

variable {W} in
/-- So is the first in the line of the lock that it waits for. -/
theorem inTurn_of_first {s : σ} {q : ℓ → List ι} {a : α} {i : ι} {l : ℓ} (ha : W.actor a = some i)
    (hw : W.waits s i = some l) (hq : (q l).head? = some i) : W.InTurn s q a := by
  intro _ j hj l' hl'
  obtain rfl : i = j := Option.some.inj (ha.symm.trans hj)
  obtain rfl : l = l' := Option.some.inj (hw.symm.trans hl')
  exact hq

variable {W} in
/-- Nobody waits. -/
theorem Lined.empty {s : σ} (h : ∀ i, W.waits s i = none) : W.Lined s fun _ => [] :=
  ⟨fun _ => List.nodup_nil, fun l i => iff_of_false List.not_mem_nil (by simp [h i])⟩

variable [DecidableEq ι] [DecidableEq ℓ]

instance (s : σ) (q : ℓ → List ι) (a : α) : Decidable (W.InTurn s q a) :=
  inferInstanceAs (Decidable (_ → ∀ i ∈ W.actor a, ∀ l ∈ W.waits s i, _))

/-- The lines after a step: its party leaves the line where it stood, and goes to the end of the
    one where it waits now. -/
def next (q : ℓ → List ι) (s' : σ) (a : α) : ℓ → List ι :=
  match W.actor a with
  | none => q
  | some i => fun l => (q l).erase i ++ if W.waits s' i = some l then [i] else []

/-- The system with its lines: every step is made in turn. -/
def inLine (f : σ → α → Option (σ × List ω)) (x : σ × (ℓ → List ι)) (a : α) :
    Option ((σ × (ℓ → List ι)) × List ω) :=
  if W.InTurn x.1 x.2 a then (f x.1 a).map fun y => ((y.1, W.next x.2 y.1 a), y.2) else none

variable {W} {f : σ → α → Option (σ × List ω)} {ok : σ → α → List ω → Prop} {s s' : σ}
  {q : ℓ → List ι} {a : α} {i : ι} {l : ℓ} {o os : List ω} {x y : σ × (ℓ → List ι)}

/-! ## Steps in line -/

theorem inLine_eq_some : W.inLine f x a = some (y, o) ↔
    W.InTurn x.1 x.2 a ∧ f x.1 a = some (y.1, o) ∧ y.2 = W.next x.2 y.1 a := by
  unfold inLine
  split_ifs with hturn
  · rw [Option.map_eq_some_iff, and_iff_right hturn]
    constructor
    · rintro ⟨⟨s', o'⟩, hs, he⟩
      cases he
      exact ⟨hs, rfl⟩
    · rintro ⟨hs, hq⟩
      exact ⟨(y.1, o), hs, by rw [← hq]⟩
  · exact iff_of_false (by simp) fun h => hturn h.1

theorem single (hstep : f s a = some (s', o)) (hok : ok s a o) (hturn : W.InTurn s q a) :
    Lts.Run (Lts.Guarded (W.inLine f) fun x a o => ok x.1 a o) (s, q) (s', W.next q s' a) o :=
  .single ⟨a, inLine_eq_some.2 ⟨hturn, hstep, rfl⟩, hok⟩

/-- **Progress in line**: if from every state with `P` a step of a party whose turn it is leads to one with
    `P` that has `Q` or a smaller rank, then so does a run in line. -/
theorem progress {P Q : σ → List ω → Prop} (rank : σ → ℕ)
    (h : ∀ s q os, P s os → ¬ Q s os → ∃ a s' o, f s a = some (s', o) ∧ ok s a o ∧ W.InTurn s q a ∧
      P s' (os ++ o) ∧ (Q s' (os ++ o) ∨ rank s' < rank s)) (hP : P s os) (q : ℓ → List ι) :
    ∃ s' q' os', Lts.Run (Lts.Guarded (W.inLine f) fun x a o => ok x.1 a o) (s, q) (s', q') os' ∧
      P s' (os ++ os') ∧ Q s' (os ++ os') := by
  suffices hpairs : ∃ (y : σ × (ℓ → List ι)) (os' : List ω),
      Lts.Run (Lts.Guarded (W.inLine f) fun x a o => ok x.1 a o) (s, q) y os' ∧
        P y.1 (os ++ os') ∧ Q y.1 (os ++ os') by
    obtain ⟨⟨s', q'⟩, os', hrun, hend⟩ := hpairs
    exact ⟨s', q', os', hrun, hend⟩
  refine Lts.progress (P := fun (y : σ × (ℓ → List ι)) os => P y.1 os) (Q := fun y os => Q y.1 os)
    (fun y => rank y.1) ?_ hP
  rintro ⟨s, q⟩ os hP hQ
  obtain ⟨a, s', o, hstep, hok, hturn, hnext⟩ := h s q os hP hQ
  exact ⟨(s', W.next q s' a), o, ⟨a, inLine_eq_some.2 ⟨hturn, hstep, rfl⟩, hok⟩, hnext⟩

/-- **A run in line is a run.** -/
theorem run_left {q' : ℓ → List ι}
    (h : Lts.Run (Lts.Guarded (W.inLine f) fun x a o => ok x.1 a o) (s, q) (s', q') os) :
    Lts.Run (Lts.Guarded f ok) s s' os := by
  suffices hall : ∀ {y : σ × (ℓ → List ι)},
      Lts.Run (Lts.Guarded (W.inLine f) fun x a o => ok x.1 a o) (s, q) y os →
        Lts.Run (Lts.Guarded f ok) s y.1 os from hall h
  clear h
  intro y h
  induction h with
  | nil => exact .nil
  | snoc _ hst ih =>
    obtain ⟨a, hs, hok⟩ := hst
    exact ih.snoc ⟨a, (inLine_eq_some.1 hs).2.1, hok⟩

theorem exec_left {y : σ × (ℓ → List ι)} : ∀ {as : List α} {x : σ × (ℓ → List ι)} {os : List ω},
    Lts.exec (W.inLine f) as x = some (y, os) → Lts.exec f as x.1 = some (y.1, os)
  | [], _, _, h => by cases h; rfl
  | a :: as, x, os, h => by
    rcases hs : W.inLine f x a with _ | ⟨x', o⟩
    · simp [Lts.exec, hs] at h
    rcases hn : Lts.exec (W.inLine f) as x' with _ | ⟨z, o'⟩
    · simp [Lts.exec, hs, hn] at h
    simp only [Lts.exec, hs, hn, Option.some.injEq, Prod.mk.injEq] at h
    obtain ⟨rfl, rfl⟩ := h
    simp only [Lts.exec, (inLine_eq_some.1 hs).2.1, exec_left hn]

theorem next_some (ha : W.actor a = some i) (l : ℓ) :
    W.next q s' a l = (q l).erase i ++ if W.waits s' i = some l then [i] else [] := by
  simp only [next, ha]

/-- **A step keeps the lines.** -/
theorem Lined.step (hlocal : W.Local f) (h : W.Lined s q) (hstep : f s a = some (s', o)) :
    W.Lined s' (W.next q s' a) := by
  have hothers := hlocal s a s' o hstep
  cases ha : W.actor a with
  | none =>
    have hq : W.next q s' a = q := by simp only [next, ha]
    rw [hq]
    exact ⟨h.nodup, fun l i => by rw [h.mem, hothers i (by rw [ha]; simp)]⟩
  | some i =>
    have hi : ∀ l, i ∉ (q l).erase i := fun l => (h.nodup l).not_mem_erase
    constructor
    · intro l
      rw [next_some ha]
      split_ifs with hw
      · refine List.nodup_append.2 ⟨(h.nodup l).erase i, List.nodup_singleton i, ?_⟩
        rintro j hj _ hk rfl
        rw [List.mem_singleton.1 hk] at hj
        exact hi l hj
      · rw [List.append_nil]
        exact (h.nodup l).erase i
    · intro l j
      rw [next_some ha, List.mem_append]
      by_cases hj : j = i
      · subst hj
        rw [or_iff_right (hi l)]
        split_ifs with hw
        · exact iff_of_true (List.mem_singleton_self j) hw
        · exact iff_of_false List.not_mem_nil hw
      · rw [List.mem_erase_of_ne hj, h.mem, hothers j fun he => hj (Option.some.inj (ha.symm.trans he)).symm]
        refine or_iff_left fun hm => ?_
        split_ifs at hm
        · exact hj (List.mem_singleton.1 hm)
        · cases hm

/-- **The lines are kept in every run.** -/
theorem Lined.run {ok : σ × (ℓ → List ι) → α → List ω → Prop} (hlocal : W.Local f)
    (h : W.Lined x.1 x.2) (hrun : Lts.Run (Lts.Guarded (W.inLine f) ok) x y os) : W.Lined y.1 y.2 := by
  refine hrun.inv (I := fun y _ => W.Lined y.1 y.2) h ?_
  rintro y z os o - ih ⟨a, hs, -⟩
  obtain ⟨-, hf, hq⟩ := inLine_eq_some.1 hs
  rw [hq]
  exact ih.step hlocal hf

/-! ## The turn comes -/

/-- A step after which its party waits for nothing: it leaves its line. -/
theorem next_leaves (ha : W.actor a = some i) (hw : W.waits s' i = none) (l : ℓ) :
    W.next q s' a l = (q l).erase i := by
  rw [next_some ha, hw, if_neg (Option.some_ne_none l).symm, List.append_nil]

theorem next_eq (h : W.Lined s q) (ha : W.actor a = some i) (hbefore : W.waits s i = none)
    (hafter : W.waits s' i = none) : W.next q s' a = q := by
  funext l
  rw [next_leaves ha hafter]
  refine List.erase_of_not_mem fun hm => ?_
  rw [h.mem, hbefore] at hm
  cases hm

theorem next_pops {rest : List ι} (h : W.Lined s q) (hq : q l = i :: rest) (ha : W.actor a = some i)
    (hafter : W.waits s' i = none) : W.next q s' a = Function.update q l rest := by
  funext l'
  rw [next_leaves ha hafter, Function.update_apply]
  split_ifs with hl
  · rw [hl, hq, List.erase_cons_head]
  · refine List.erase_of_not_mem fun hm => ?_
    have hi : i ∈ q l := by
      rw [hq]
      exact List.mem_cons_self
    rw [h.mem] at hm hi
    exact hl (Option.some.inj (hm.symm.trans hi))

/-- Runs in line that show their steps, each of which satisfies `ok`. -/
def Leads (W : Line σ α ι ℓ) (f : σ → α → Option (σ × List ω)) (ok : σ → α → List ω → Prop)
    (x y : σ × (ℓ → List ι)) (xs : List (Lts.Shown (σ × (ℓ → List ι)) α ω)) : Prop :=
  Lts.Run (Lts.Guarded (Lts.shown (W.inLine f)) (Lts.Showing fun x a o => ok x.1 a o)) x y xs

theorem leads_single (hstep : f s a = some (s', o)) (hok : ok s a o) (hturn : W.InTurn s q a) :
    W.Leads f ok (s, q) (s', W.next q s' a) [⟨(s, q), a, o, (s', W.next q s' a)⟩] := by
  have hline : W.inLine f (s, q) a = some ((s', W.next q s' a), o) := inLine_eq_some.2 ⟨hturn, hstep, rfl⟩
  refine Lts.Run.single ⟨a, ?_, fun x hx => ?_⟩
  · simp only [Lts.shown, hline]
  · obtain rfl := List.mem_singleton.1 hx
    exact hok

/-- While `I` holds, the lock that is taken can be given back, and each party with `P` that waits for
    the free lock can take it, after which `I` holds or the step was `bad`. -/
structure Serves (W : Line σ α ι ℓ) (f : σ → α → Option (σ × List ω)) (ok : σ → α → List ω → Prop) (l : ℓ)
    (I taken : σ → Prop) (P : ι → Prop) (bad : σ → α → Prop) : Prop where
  others : W.Local f
  release : ∀ s, I s → taken s → ∃ a i s' o, f s a = some (s', o) ∧ ok s a o ∧ W.actor a = some i ∧
    W.waits s i = none ∧ W.waits s' i = none ∧ I s' ∧ ¬ taken s'
  turn : ∀ s i, I s → ¬ taken s → P i → W.waits s i = some l → ∃ a s' o, f s a = some (s', o) ∧ ok s a o ∧
    W.actor a = some i ∧ W.waits s' i = none ∧ (I s' ∨ bad s a)

section
variable {I taken : σ → Prop} {P : ι → Prop} {bad : σ → α → Prop}

/-- The lock is given back, and the lines stay. -/
theorem Serves.unlock (h : W.Serves f ok l I taken P bad) (hI : I s) (hlined : W.Lined s q) :
    ∃ s' xs, W.Leads f ok (s, q) (s', q) xs ∧ xs.length ≤ 1 ∧ I s' ∧ ¬ taken s' ∧ W.Lined s' q := by
  by_cases htaken : taken s
  · obtain ⟨a, i, s', o, hstep, hok, ha, hbefore, hafter, hI', hfree⟩ := h.release s hI htaken
    have hturn : W.InTurn s q a := inTurn_of_not_waits fun j hj => by
      obtain rfl : i = j := Option.some.inj (ha.symm.trans hj)
      exact hbefore
    have hq := next_eq hlined ha hbefore hafter
    have hrun := leads_single hstep hok hturn
    have hlined' := hlined.step h.others hstep
    rw [hq] at hrun hlined'
    exact ⟨s', _, hrun, le_rfl, hI', hfree, hlined'⟩
  · exact ⟨s, [], .nil, Nat.zero_le 1, hI, htaken, hlined⟩

/-- **The turn comes**: those that wait before take the lock and give it back, one after the other,
    which takes two steps for each, unless one of the steps is bad. -/
theorem Serves.turn_comes (h : W.Serves f ok l I taken P bad) {after : List ι} :
    ∀ {before : List ι} {s : σ} {q : ℓ → List ι}, I s → W.Lined s q → q l = before ++ after →
      (∀ i ∈ before, P i) →
      ∃ s' q' xs, W.Leads f ok (s, q) (s', q') xs ∧ xs.length ≤ 2 * before.length + 1 ∧
        ((I s' ∧ ¬ taken s' ∧ W.Lined s' q' ∧ q' = Function.update q l after) ∨
          ∃ x ∈ xs, bad x.before.1 x.act) := by
  intro before
  induction before with
  | nil =>
    intro s q hI hlined hq _
    obtain ⟨s', xs, hrun, hlen, hI', hfree, hlined'⟩ := h.unlock hI hlined
    have hsame : q = Function.update q l after := by
      rw [List.nil_append] at hq
      rw [← hq, Function.update_eq_self]
    exact ⟨s', q, xs, hrun, hlen, .inl ⟨hI', hfree, hlined', hsame⟩⟩
  | cons i before ih =>
    intro s q hI hlined hq hP
    obtain ⟨s₁, xs₁, hrun₁, hlen₁, hI₁, hfree, hlined₁⟩ := h.unlock hI hlined
    have hwaits : W.waits s₁ i = some l := by
      rw [← hlined₁.mem, hq]
      exact List.mem_cons_self
    obtain ⟨a, s₂, o, hstep, hok, ha, hafter, hI₂⟩ := h.turn s₁ i hI₁ hfree (hP i List.mem_cons_self) hwaits
    have hturn : W.InTurn s₁ q a := inTurn_of_first ha hwaits (by rw [hq]; rfl)
    have hpops := next_pops hlined₁ hq ha hafter
    have hstep₂ := leads_single hstep hok hturn
    have hlined₂ := hlined₁.step h.others hstep
    rw [hpops] at hstep₂ hlined₂
    have hrun₂ := hrun₁.trans hstep₂
    rcases hI₂ with hI₂ | hbad
    · obtain ⟨s', q', xs, hrun, hlen, hend⟩ := ih hI₂ hlined₂ (Function.update_self l _ q)
        fun j hj => hP j (List.mem_cons_of_mem i hj)
      refine ⟨s', q', _, hrun₂.trans hrun, ?_, ?_⟩
      · simp only [List.length_append, List.length_cons, List.length_nil]
        omega
      · rw [Function.update_idem] at hend
        refine hend.imp id ?_
        rintro ⟨x, hx, hbad⟩
        exact ⟨x, List.mem_append_right _ hx, hbad⟩
    · refine ⟨s₂, _, _, hrun₂, ?_, .inr ⟨_, List.mem_append_right _ List.mem_cons_self, hbad⟩⟩
      simp only [List.length_append, List.length_cons, List.length_nil]
      omega

end

end Line
