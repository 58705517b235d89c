/-
  Linearizability of a history of concurrent operations.

  * `Event`: an operation is called, or returns.  `Legal spec s l s'`: the operations of
    `l`, executed one after the other from `s` on, give their results and end in `s'`.
  * `Linearizes spec s s' h l`: `l` is a legal execution of the operations that returned
    in `h`, and of some that were only called, in an order in which an operation that
    returned before another was called comes before it.
  * In the history of sequential processes `numbered` gives the operations of a process
    their numbers.
  * `Tracks`: every operation takes effect at one point between its call and its return.
    `Tracks.linearizes`: the order of these points linearizes the history.
    `Tracks.follow`: a history of other processes goes on where one stopped.
-/
import Mathlib

namespace Linear

variable {ι P Op R σ : Type}

/-- What is seen of an operation. -/
inductive Event (ι Op R : Type) where
  | call (i : ι) (op : Op)
  | ret (i : ι) (r : R)
  deriving DecidableEq

/-- The event of an operation under another name. -/
def Event.map {κ : Type} (f : ι → κ) : Event ι Op R → Event κ Op R
  | .call i op => .call (f i) op
  | .ret i r => .ret (f i) r

/-- The operations are executed one after the other and give the results. -/
inductive Legal (spec : σ → Op → R → σ → Prop) (s : σ) : List (ι × Op × R) → σ → Prop
  | nil : Legal spec s [] s
  | snoc {l : List (ι × Op × R)} {s₁ s₂ : σ} {i : ι} {op : Op} {r : R} :
      Legal spec s l s₁ → spec s₁ op r s₂ → Legal spec s (l ++ [(i, op, r)]) s₂

/-- `l` linearizes the history `h` from `s` to `s'`. -/
structure Linearizes (spec : σ → Op → R → σ → Prop) (s s' : σ) (h : List (Event ι Op R))
    (l : List (ι × Op × R)) : Prop where
  /-- no operation is executed twice -/
  unique : (l.map Prod.fst).Nodup
  /-- the operations were called -/
  called : ∀ x ∈ l, .call x.1 x.2.1 ∈ h
  /-- the operations that returned are among them, with the result they returned -/
  returned : ∀ i r, .ret i r ∈ h → ∃ op, (i, op, r) ∈ l
  legal : Legal spec s l s'
  /-- an operation that returned before another was called comes before it -/
  order : ∀ h₁ h₂ i r j op, h = h₁ ++ .ret i r :: h₂ → .call j op ∈ h₂ →
    ∀ l₁ x l₂, l = l₁ ++ x :: l₂ → x.1 = j → ∃ y ∈ l₁, y.1 = i

/-! ## Sequential processes -/

section
variable [DecidableEq P]

/-- The numbers of calls after an event. -/
def Event.counted (n : P → ℕ) : Event P Op R → P → ℕ
  | .call p _ => Function.update n p (n p + 1)
  | .ret _ _ => n

/-- How often each process called an operation. -/
def calls (h : List (Event P Op R)) : P → ℕ := h.foldl Event.counted fun _ => 0

/-- An event with the number of its operation; a return belongs to the last call. -/
def Event.number (n : P → ℕ) : Event P Op R → Event (P × ℕ) Op R
  | .call p op => .call (p, n p) op
  | .ret p r => .ret (p, n p - 1) r

def numberFrom (n : P → ℕ) : List (Event P Op R) → List (Event (P × ℕ) Op R)
  | [] => []
  | e :: h => e.number n :: numberFrom (e.counted n) h

/-- The history in which the operations of each process are numbered. -/
def numbered (h : List (Event P Op R)) : List (Event (P × ℕ) Op R) := numberFrom (fun _ => 0) h

variable {h : List (Event P Op R)} {e : Event P Op R}

theorem calls_snoc : calls (h ++ [e]) = e.counted (calls h) := by
  rw [calls, List.foldl_append]
  rfl

theorem numberFrom_snoc (n : P → ℕ) :
    numberFrom n (h ++ [e]) = numberFrom n h ++ [e.number (h.foldl Event.counted n)] := by
  induction h generalizing n with
  | nil => rfl
  | cons e' h ih => simp only [List.cons_append, numberFrom, ih, List.foldl_cons]

theorem numbered_snoc : numbered (h ++ [e]) = numbered h ++ [e.number (calls h)] :=
  numberFrom_snoc _

/-! ## One point for each operation -/

/-- What a process is doing: nothing, an operation that did not take effect yet, or one
    that did and will return `r`. -/
inductive Status (Op R : Type) where
  | idle
  | called (op : Op)
  | done (op : Op) (r : R)

/-- Every operation in the history took effect at one point between its call and its
    return; what the processes are doing, and the state after the last effect. -/
inductive Tracks (spec : σ → Op → R → σ → Prop) (s₀ : σ) :
    List (Event P Op R) → (P → Status Op R) → σ → Prop
  | nil : Tracks spec s₀ [] (fun _ => .idle) s₀
  | call {h : List (Event P Op R)} {st : P → Status Op R} {s : σ} {p : P} {op : Op} :
      Tracks spec s₀ h st s → st p = .idle →
      Tracks spec s₀ (h ++ [.call p op]) (Function.update st p (.called op)) s
  | point {h : List (Event P Op R)} {st : P → Status Op R} {s s' : σ} {p : P} {op : Op} {r : R} :
      Tracks spec s₀ h st s → st p = .called op → spec s op r s' →
      Tracks spec s₀ h (Function.update st p (.done op r)) s'
  | ret {h : List (Event P Op R)} {st : P → Status Op R} {s : σ} {p : P} {op : Op} {r : R} :
      Tracks spec s₀ h st s → st p = .done op r →
      Tracks spec s₀ (h ++ [.ret p r]) (Function.update st p .idle) s

variable {spec : σ → Op → R → σ → Prop} {s₀ s : σ} {st : P → Status Op R}
  {l : List ((P × ℕ) × Op × R)}

/-- The last operation of each process, and the order of the effects. -/
structure Ordered (spec : σ → Op → R → σ → Prop) (s₀ : σ) (h : List (Event P Op R))
    (st : P → Status Op R) (s : σ) (l : List ((P × ℕ) × Op × R)) : Prop where
  linearizes : Linearizes spec s₀ s (numbered h) l
  old : ∀ x ∈ l, x.1.2 < calls h x.1.1
  called : ∀ p op, st p = .called op → 0 < calls h p ∧ (∀ x ∈ l, x.1 ≠ (p, calls h p - 1)) ∧
    .call (p, calls h p - 1) op ∈ numbered h
  done : ∀ p op r, st p = .done op r → ((p, calls h p - 1), op, r) ∈ l

/-- The last element of a list, or one before it. -/
theorem snoc_eq {α : Type} {as bs cs : List α} {a b : α} (h : as ++ [a] = bs ++ b :: cs) :
    (cs = [] ∧ a = b ∧ as = bs) ∨ ∃ cs', cs = cs' ++ [a] ∧ as = bs ++ b :: cs' := by
  rcases cs.eq_nil_or_concat with rfl | ⟨cs', c, rfl⟩
  · obtain ⟨rfl, hab⟩ := List.append_inj' h rfl
    cases hab
    exact .inl ⟨rfl, rfl, rfl⟩
  · rw [List.concat_eq_append, ← List.cons_append, ← List.append_assoc] at h
    obtain ⟨rfl, hac⟩ := List.append_inj' h rfl
    cases hac
    exact .inr ⟨cs', List.concat_eq_append, rfl⟩

theorem Ordered.call (hO : Ordered spec s₀ h st s l) {p : P} (op : Op) (hp : st p = .idle) :
    Ordered spec s₀ (h ++ [.call p op]) (Function.update st p (.called op)) s l := by
  obtain ⟨⟨hunique, hcalled, hret, hlegal, horder⟩, hold, hst, hdone⟩ := hO
  have hcount : ∀ q, calls h q ≤ calls (h ++ [.call p op]) q ∧
      (q ≠ p → calls (h ++ [.call p op]) q = calls h q) := by
    intro q
    rw [calls_snoc]
    by_cases hq : q = p
    · subst hq
      exact ⟨by simp [Event.counted], fun h => absurd rfl h⟩
    · simp [Event.counted, Function.update_of_ne hq]
  have hself : calls (h ++ [.call p op]) p = calls h p + 1 := by
    rw [calls_snoc]
    simp [Event.counted]
  refine ⟨⟨hunique, fun x hx => ?_, fun i r hr => ?_, hlegal, ?_⟩, fun x hx => ?_, fun q op' hq => ?_,
    fun q op' r hq => ?_⟩
  · rw [numbered_snoc]
    exact List.mem_append_left _ (hcalled x hx)
  · rw [numbered_snoc] at hr
    rcases List.mem_append.1 hr with hr | hr
    · exact hret i r hr
    · simp [Event.number] at hr
  · intro h₁ h₂ i r j op' heq hj l₁ x l₂ hl hx
    rw [numbered_snoc] at heq
    rcases snoc_eq heq with ⟨rfl, -, -⟩ | ⟨h₂', rfl, heq'⟩
    · cases hj
    · rcases List.mem_append.1 hj with hj | hj
      · exact horder h₁ h₂' i r j op' heq' hj l₁ x l₂ hl hx
      · -- the call that was just made did not take effect yet
        simp only [Event.number, List.mem_singleton, Event.call.injEq] at hj
        have := hold x (by rw [hl]; simp)
        rw [hx, hj.1] at this
        exact absurd this (Nat.lt_irrefl _)
  · exact Nat.lt_of_lt_of_le (hold x hx) (hcount _).1
  · by_cases he : q = p
    · subst he
      rw [Function.update_self] at hq
      cases hq
      rw [hself, Nat.add_sub_cancel]
      refine ⟨Nat.succ_pos _, fun x hx hx' => ?_, ?_⟩
      · have := hold x hx
        rw [hx'] at this
        exact absurd this (Nat.lt_irrefl _)
      · rw [numbered_snoc]
        simp [Event.number]
    · rw [Function.update_of_ne he] at hq
      rw [(hcount q).2 he]
      obtain ⟨hpos, hnot, hmem⟩ := hst q op' hq
      refine ⟨hpos, hnot, ?_⟩
      rw [numbered_snoc]
      exact List.mem_append_left _ hmem
  · have he : q ≠ p := by
      rintro rfl
      rw [Function.update_self] at hq
      cases hq
    rw [Function.update_of_ne he] at hq
    rw [(hcount q).2 he]
    exact hdone q op' r hq

theorem Ordered.point (hO : Ordered spec s₀ h st s l) {p : P} {op : Op} {r : R} {s' : σ}
    (hp : st p = .called op) (hs : spec s op r s') :
    Ordered spec s₀ h (Function.update st p (.done op r)) s'
      (l ++ [((p, calls h p - 1), op, r)]) := by
  obtain ⟨⟨hunique, hcalled, hret, hlegal, horder⟩, hold, hst, hdone⟩ := hO
  obtain ⟨hpos, hnot, hmem⟩ := hst p op hp
  refine ⟨⟨?_, fun x hx => ?_, fun i r' hr => ?_, hlegal.snoc hs, ?_⟩, fun x hx => ?_,
    fun q op' hq => ?_, fun q op' r' hq => ?_⟩
  · rw [List.map_append, List.nodup_append]
    refine ⟨hunique, by simp, fun a ha b hb => ?_⟩
    obtain ⟨x, hx, rfl⟩ := List.mem_map.1 ha
    simp only [List.map_cons, List.map_nil, List.mem_singleton] at hb
    rw [hb]
    exact hnot x hx
  · rcases List.mem_append.1 hx with hx | hx
    · exact hcalled x hx
    · rw [List.mem_singleton.1 hx]
      exact hmem
  · obtain ⟨op', hm⟩ := hret i r' hr
    exact ⟨op', List.mem_append_left _ hm⟩
  · intro h₁ h₂ i r' j op' heq hj l₁ x l₂ hl hx
    rcases snoc_eq hl with ⟨-, -, rfl⟩ | ⟨l₂', -, hl⟩
    · -- what returned before took effect before
      obtain ⟨op'', hm⟩ := hret i r' (by rw [heq]; simp)
      exact ⟨_, hm, rfl⟩
    · exact horder h₁ h₂ i r' j op' heq hj l₁ x l₂' hl hx
  · rcases List.mem_append.1 hx with hx | hx
    · exact hold x hx
    · rw [List.mem_singleton.1 hx]
      exact Nat.sub_lt hpos Nat.one_pos
  · have he : q ≠ p := by
      rintro rfl
      rw [Function.update_self] at hq
      cases hq
    rw [Function.update_of_ne he] at hq
    obtain ⟨hpos', hnot', hmem'⟩ := hst q op' hq
    refine ⟨hpos', fun x hx => ?_, hmem'⟩
    rcases List.mem_append.1 hx with hx | hx
    · exact hnot' x hx
    · rw [List.mem_singleton.1 hx]
      exact fun h => he (congrArg Prod.fst h).symm
  · by_cases he : q = p
    · subst he
      rw [Function.update_self] at hq
      cases hq
      simp
    · rw [Function.update_of_ne he] at hq
      exact List.mem_append_left _ (hdone q op' r' hq)

theorem Ordered.ret (hO : Ordered spec s₀ h st s l) {p : P} {op : Op} {r : R}
    (hp : st p = .done op r) :
    Ordered spec s₀ (h ++ [.ret p r]) (Function.update st p .idle) s l := by
  obtain ⟨⟨hunique, hcalled, hret, hlegal, horder⟩, hold, hst, hdone⟩ := hO
  have hcount : calls (h ++ [.ret p r]) = calls h := calls_snoc
  have hne : ∀ {q : P} {x : Status Op R}, x ≠ .idle → Function.update st p .idle q = x → st q = x := by
    intro q x hx hq
    by_cases he : q = p
    · subst he
      rw [Function.update_self] at hq
      exact absurd hq.symm hx
    · rwa [Function.update_of_ne he] at hq
  refine ⟨⟨hunique, fun x hx => ?_, fun i r' hr => ?_, hlegal, ?_⟩, fun x hx => ?_, fun q op' hq => ?_,
    fun q op' r' hq => ?_⟩
  · rw [numbered_snoc]
    exact List.mem_append_left _ (hcalled x hx)
  · rw [numbered_snoc] at hr
    rcases List.mem_append.1 hr with hr | hr
    · exact hret i r' hr
    · simp only [Event.number, List.mem_singleton, Event.ret.injEq] at hr
      rw [hr.1, hr.2]
      exact ⟨op, hdone p op r hp⟩
  · intro h₁ h₂ i r' j op' heq hj l₁ x l₂ hl hx
    rw [numbered_snoc] at heq
    rcases snoc_eq heq with ⟨rfl, -, -⟩ | ⟨h₂', rfl, heq'⟩
    · cases hj
    · rcases List.mem_append.1 hj with hj | hj
      · exact horder h₁ h₂' i r' j op' heq' hj l₁ x l₂ hl hx
      · simp [Event.number] at hj
  · rw [hcount]
    exact hold x hx
  · obtain ⟨hpos, hnot, hmem⟩ := hst q op' (hne (by simp) hq)
    rw [hcount, numbered_snoc]
    exact ⟨hpos, hnot, List.mem_append_left _ hmem⟩
  · rw [hcount]
    exact hdone q op' r' (hne (by simp) hq)

theorem Tracks.ordered (ht : Tracks spec s₀ h st s) : ∃ l, Ordered spec s₀ h st s l := by
  induction ht with
  | nil =>
    refine ⟨[], ⟨List.nodup_nil, fun _ h => (by cases h), fun _ _ h => (by cases h), .nil, ?_⟩,
      fun _ h => (by cases h), fun _ _ h => (by cases h), fun _ _ _ h => (by cases h)⟩
    intro h₁ h₂ i r j op heq
    simp [numbered, numberFrom] at heq
  | call _ hp ih =>
    obtain ⟨l, hl⟩ := ih
    exact ⟨l, hl.call _ hp⟩
  | point _ hp hs ih =>
    obtain ⟨l, hl⟩ := ih
    exact ⟨_, hl.point hp hs⟩
  | ret _ hp ih =>
    obtain ⟨l, hl⟩ := ih
    exact ⟨l, hl.ret hp⟩

/-- The processes of one history after those of another, which stay as they are. -/
theorem Tracks.follow {Q : Type} [DecidableEq Q] {f : P → Q} (hf : Function.Injective f)
    {h₀ : List (Event Q Op R)} {st₀ : Q → Status Op R} {s₁ : σ} (ht₀ : Tracks spec s₁ h₀ st₀ s₀)
    (hidle : ∀ p, st₀ (f p) = .idle) (ht : Tracks spec s₀ h st s) :
    ∃ st', Tracks spec s₁ (h₀ ++ h.map (Event.map f)) st' s ∧ (∀ p, st' (f p) = st p) ∧
      ∀ q, (∀ p, q ≠ f p) → st' q = st₀ q := by
  have hupdate : ∀ {st : P → Status Op R} {st' : Q → Status Op R} (p : P) (x : Status Op R),
      (∀ p, st' (f p) = st p) → (∀ q, (∀ p, q ≠ f p) → st' q = st₀ q) →
      (∀ q, Function.update st' (f p) x (f q) = Function.update st p x q) ∧
        ∀ q, (∀ p, q ≠ f p) → Function.update st' (f p) x q = st₀ q := by
    intro st st' p x hst hother
    refine ⟨fun q => ?_, fun q hq => ?_⟩
    · by_cases he : q = p
      · subst he
        rw [Function.update_self, Function.update_self]
      · rw [Function.update_of_ne he, Function.update_of_ne (hf.ne he)]
        exact hst q
    · rw [Function.update_of_ne (hq p)]
      exact hother q hq
  induction ht with
  | nil =>
    rw [List.map_nil, List.append_nil]
    exact ⟨st₀, ht₀, hidle, fun _ _ => rfl⟩
  | @call _ _ _ p op _ hp ih =>
    obtain ⟨st', ht', hst, hother⟩ := ih
    rw [List.map_append, ← List.append_assoc]
    exact ⟨_, ht'.call ((hst p).trans hp), hupdate p (.called op) hst hother⟩
  | @point _ _ _ _ p op r _ hp hs ih =>
    obtain ⟨st', ht', hst, hother⟩ := ih
    exact ⟨_, ht'.point ((hst p).trans hp) hs, hupdate p (.done op r) hst hother⟩
  | @ret _ _ _ p op r _ hp ih =>
    obtain ⟨st', ht', hst, hother⟩ := ih
    rw [List.map_append, ← List.append_assoc]
    exact ⟨_, ht'.ret ((hst p).trans hp), hupdate p .idle hst hother⟩

/-- **The order of the effects linearizes the history.** -/
theorem Tracks.linearizes (ht : Tracks spec s₀ h st s) :
    ∃ l, Linearizes spec s₀ s (numbered h) l :=
  ht.ordered.imp fun _ hO => hO.linearizes

end

end Linear
