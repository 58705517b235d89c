/-
  Reassembling frames from a byte stream that arrives in chunks of any size.

  A `Framing` looks at a buffer and either asks for more, finds the framing broken,
  or cuts one complete frame off the front.  Its laws say that the answer does not
  change when more of the stream arrives behind the buffer.

  * `drain` cuts frames off a buffer until none is complete, giving each to `act`,
    which may stop the loop; the loop ends on every buffer (`drain_eq`, its defining
    equation, holds without a side condition on the fuel).
  * `drain_append`: draining a buffer and then the rest of the stream behind what is
    left is draining both at once, so the cuts between chunks do not matter
    (`feedAll_eq`, `feedAll_drain`).
  * `collect` keeps the frames; they and the buffer are the stream (`drain_collect`).
-/
import Mathlib

/-- What a framing sees at the front of a buffer. -/
inductive Cut (α ε : Type) where
  /-- no complete frame yet -/
  | more
  /-- not the start of a frame -/
  | bad (e : ε)
  /-- a complete frame and what follows it -/
  | frame (f rest : List α)

/-- A framing whose answers are stable under arrival of more data. -/
structure Framing (α ε : Type) where
  cut : List α → Cut α ε
  split {b f r : List α} : cut b = .frame f r → b = f ++ r ∧ f ≠ []
  frame_append {b f r : List α} (c : List α) : cut b = .frame f r → cut (b ++ c) = .frame f (r ++ c)
  bad_append {b : List α} {e : ε} (c : List α) : cut b = .bad e → cut (b ++ c) = .bad e

namespace Framing

variable {α ε σ η : Type} (F : Framing α ε) (act : σ → List α → σ × Option η)

/-- The state of a receive loop: the state of the frame handler, the buffer, and why
    the loop stopped, if it did. -/
abbrev Loop (α ε σ η : Type) := σ × List α × Option (ε ⊕ η)

/-- Cut at most `n` frames off the buffer. -/
def drainN : ℕ → σ → List α → Loop α ε σ η
  | 0, s, b => (s, b, none)
  | n + 1, s, b => match F.cut b with
    | .more => (s, b, none)
    | .bad e => (s, [], some (.inl e))
    | .frame f r => match act s f with
      | (s', none) => drainN n s' r
      | (s', some e) => (s', r, some (.inr e))

/-- Cut frames off the buffer until none is complete or the loop stops. -/
def drain (s : σ) (b : List α) : Loop α ε σ η := drainN F act (b.length + 1) s b

theorem length_rest {b f r : List α} (h : F.cut b = .frame f r) : r.length < b.length := by
  obtain ⟨hb, hf⟩ := F.split h
  have := List.length_pos_iff.2 hf
  rw [hb, List.length_append]; omega

/-- Any fuel above the length of the buffer gives the same loop. -/
theorem drainN_fuel : ∀ {n m : ℕ} {s : σ} {b : List α}, b.length < n → b.length < m →
    drainN F act n s b = drainN F act m s b
  | n + 1, m + 1, s, b, hn, hm => by
    simp only [drainN]
    cases hc : F.cut b with
    | more => rfl
    | bad e => rfl
    | frame f r =>
      have hr := F.length_rest hc
      rcases ha : act s f with ⟨s', _ | e⟩
      · simp only [ha]
        exact drainN_fuel (by omega) (by omega)
      · simp only [ha]

/-- **The loop's equation.** -/
theorem drain_eq (s : σ) (b : List α) :
    drain F act s b = match F.cut b with
      | .more => (s, b, none)
      | .bad e => (s, [], some (.inl e))
      | .frame f r => match act s f with
        | (s', none) => drain F act s' r
        | (s', some e) => (s', r, some (.inr e)) := by
  rw [drain, drainN]
  cases hc : F.cut b with
  | more => rfl
  | bad e => rfl
  | frame f r =>
    have hr := F.length_rest hc
    rcases ha : act s f with ⟨s', _ | e⟩
    · simp only [ha]
      exact drainN_fuel F act (by omega) (by omega)
    · simp only [ha]

theorem drain_more {s : σ} {b : List α} (h : F.cut b = .more) : drain F act s b = (s, b, none) := by
  rw [drain_eq, h]

theorem drain_bad {s : σ} {b : List α} {e : ε} (h : F.cut b = .bad e) :
    drain F act s b = (s, [], some (.inl e)) := by rw [drain_eq, h]

theorem drain_frame {s s' : σ} {b f r : List α} (h : F.cut b = .frame f r)
    (ha : act s f = (s', none)) : drain F act s b = drain F act s' r := by
  rw [drain_eq, h]; simp only [ha]

theorem drain_stop {s s' : σ} {b f r : List α} {e : η} (h : F.cut b = .frame f r)
    (ha : act s f = (s', some e)) : drain F act s b = (s', r, some (.inr e)) := by
  rw [drain_eq, h]; simp only [ha]

/-- Induction on the frames of a buffer. -/
theorem buffer_induct {P : List α → Prop} (h : ∀ b, (∀ f r, F.cut b = .frame f r → P r) → P b)
    (b : List α) : P b := by
  induction hn : b.length using Nat.strongRecOn generalizing b with
  | ind n ih => exact h b fun f r hc => ih r.length (hn ▸ F.length_rest hc) r rfl

/-- **What every frame keeps, the loop keeps.** -/
theorem drain_inv {P : σ → Prop} (hP : ∀ s f, P s → P (act s f).1) {s : σ} (h : P s)
    (b : List α) : P (drain F act s b).1 := by
  induction b using F.buffer_induct generalizing s with
  | h b ih =>
    cases hc : F.cut b with
    | more => rw [drain_more F act hc]; exact h
    | bad e => rw [drain_bad F act hc]; exact h
    | frame f r =>
      have hf := hP s f h
      rcases ha : act s f with ⟨s₁, _ | e⟩
      · rw [drain_frame F act hc ha]
        rw [ha] at hf
        exact ih f r hc hf
      · rw [drain_stop F act hc ha]
        rw [ha] at hf
        exact hf

/-- What is left of a buffer after a loop that did not stop holds no complete frame. -/
theorem cut_drain {s s' : σ} {b b' : List α} (h : drain F act s b = (s', b', none)) :
    F.cut b' = .more := by
  induction b using F.buffer_induct generalizing s with
  | h b ih =>
    cases hc : F.cut b with
    | more =>
      rw [drain_more F act hc] at h
      cases h; exact hc
    | bad e => rw [drain_bad F act hc] at h; simp at h
    | frame f r =>
      rcases ha : act s f with ⟨s₁, _ | e⟩
      · rw [drain_frame F act hc ha] at h
        exact ih f r hc h
      · rw [drain_stop F act hc ha] at h; simp at h

/-- **More data behind a drained buffer**: the loop goes on from where it stood. -/
theorem drain_append {s s' : σ} {b b' : List α} (h : drain F act s b = (s', b', none))
    (c : List α) : drain F act s (b ++ c) = drain F act s' (b' ++ c) := by
  induction b using F.buffer_induct generalizing s with
  | h b ih =>
    cases hc : F.cut b with
    | more =>
      rw [drain_more F act hc] at h
      cases h; rfl
    | bad e => rw [drain_bad F act hc] at h; simp at h
    | frame f r =>
      rcases ha : act s f with ⟨s₁, _ | e⟩
      · rw [drain_frame F act hc ha] at h
        rw [drain_frame F act (F.frame_append c hc) ha]
        exact ih f r hc h
      · rw [drain_stop F act hc ha] at h; simp at h

/-- A loop that stopped stops at the same frame when more data stands behind it. -/
theorem drain_append_stop {s s' : σ} {b b' : List α} {e : ε ⊕ η}
    (h : drain F act s b = (s', b', some e)) (c : List α) :
    ∃ b'', drain F act s (b ++ c) = (s', b'', some e) := by
  induction b using F.buffer_induct generalizing s with
  | h b ih =>
    cases hc : F.cut b with
    | more => rw [drain_more F act hc] at h; simp at h
    | bad e' =>
      rw [drain_bad F act hc] at h
      cases h
      exact ⟨[], drain_bad F act (F.bad_append c hc)⟩
    | frame f r =>
      rcases ha : act s f with ⟨s₁, _ | e'⟩
      · rw [drain_frame F act hc ha] at h
        rw [drain_frame F act (F.frame_append c hc) ha]
        exact ih f r hc h
      · rw [drain_stop F act hc ha] at h
        cases h
        exact ⟨_, drain_stop F act (F.frame_append c hc) ha⟩

/-- A loop stopped by a broken framing keeps no buffer. -/
theorem drain_bad_rest {s s' : σ} {b b' : List α} {e : ε}
    (h : drain F act s b = (s', b', some (.inl e))) : b' = [] := by
  induction b using F.buffer_induct generalizing s with
  | h b ih =>
    cases hc : F.cut b with
    | more => rw [drain_more F act hc] at h; simp at h
    | bad e' =>
      rw [drain_bad F act hc] at h
      cases h; rfl
    | frame f r =>
      rcases ha : act s f with ⟨s₁, _ | e'⟩
      · rw [drain_frame F act hc ha] at h
        exact ih f r hc h
      · rw [drain_stop F act hc ha] at h; simp at h

/-! ## Collecting the frames -/

/-- Keep the frame and go on. -/
def collect (frames : List (List α)) (f : List α) : List (List α) × Option Empty :=
  (frames ++ [f], none)

/-- The collected frames stand at the front of what was read; without an error the buffer is
    the rest. -/
theorem drain_collect {fs fs' : List (List α)} {b b' : List α} {e? : Option (ε ⊕ Empty)}
    (h : drain F collect fs b = (fs', b', e?)) :
    fs'.flatten <+: fs.flatten ++ b ∧ (e? = none → fs'.flatten ++ b' = fs.flatten ++ b) := by
  induction b using F.buffer_induct generalizing fs with
  | h b ih =>
    cases hc : F.cut b with
    | more =>
      rw [drain_more F collect hc] at h
      cases h
      exact ⟨List.prefix_append _ _, fun _ => rfl⟩
    | bad e =>
      rw [drain_bad F collect hc] at h
      cases h
      refine ⟨List.prefix_append _ _, ?_⟩
      intro he
      cases he
    | frame f r =>
      rw [drain_frame F collect hc rfl] at h
      have hb := (F.split hc).1
      have := ih f r hc h
      rwa [List.flatten_append, List.flatten_singleton, List.append_assoc, ← hb] at this

/-! ## Feeding chunks -/

/-- A chunk arrives; a stopped loop reads no more. -/
def feed (l : Loop α ε σ η) (chunk : List α) : Loop α ε σ η :=
  match l with
  | (s, b, none) => drain F act s (b ++ chunk)
  | stopped => stopped

/-- Chunks arrive one after the other. -/
def feedAll (l : Loop α ε σ η) (chunks : List (List α)) : Loop α ε σ η := chunks.foldl (feed F act) l

theorem feedAll_stopped (s : σ) (b : List α) (e : ε ⊕ η) (cs : List (List α)) :
    feedAll F act (s, b, some e) cs = (s, b, some e) := by
  induction cs with
  | nil => rfl
  | cons c cs ih => exact ih

/-- **The cuts do not matter**: if the whole stream is drained without stopping, so is
    every way of cutting it into chunks, with the same state and the same rest. -/
theorem feedAll_eq {s s' : σ} {b b' : List α} (cs : List (List α)) (hb : F.cut b = .more)
    (h : drain F act s (b ++ cs.flatten) = (s', b', none)) :
    feedAll F act (s, b, none) cs = (s', b', none) := by
  induction cs generalizing s b with
  | nil =>
    rw [List.flatten_nil, List.append_nil, drain_more F act hb] at h
    exact h
  | cons c cs ih =>
    rw [List.flatten_cons, ← List.append_assoc] at h
    rcases hd : drain F act s (b ++ c) with ⟨s₁, b₁, _ | e⟩
    · rw [drain_append F act hd] at h
      have := ih (cut_drain F act hd) h
      simpa only [feedAll, List.foldl_cons, feed, hd] using this
    · obtain ⟨b'', h'⟩ := drain_append_stop F act hd cs.flatten
      rw [h'] at h; simp at h

/-- **The cuts do not matter** to a loop that goes on after every frame: it is left as if the
    whole stream had arrived at once, also where the framing is broken. -/
theorem feedAll_drain {act : σ → List α → σ × Option Empty} {s : σ} {b : List α}
    (cs : List (List α)) (hb : F.cut b = .more) :
    feedAll F act (s, b, none) cs = drain F act s (b ++ cs.flatten) := by
  rcases h : drain F act s (b ++ cs.flatten) with ⟨s', b', _ | e | e⟩
  · exact feedAll_eq F act cs hb h
  · induction cs generalizing s b with
    | nil =>
      rw [List.flatten_nil, List.append_nil, drain_more F act hb] at h
      cases h
    | cons c cs ih =>
      rw [List.flatten_cons, ← List.append_assoc] at h
      rw [feedAll, List.foldl_cons, feed]
      rcases hd : drain F act s (b ++ c) with ⟨s₁, b₁, _ | e'⟩
      · rw [drain_append F act hd] at h
        exact ih (cut_drain F act hd) h
      · obtain ⟨b'', h'⟩ := drain_append_stop F act hd cs.flatten
        have hstop := feedAll_stopped F act s₁ b₁ e' cs
        rw [feedAll] at hstop
        rw [h'] at h
        cases h
        rw [hstop, drain_bad_rest F act hd, drain_bad_rest F act h']
  · exact e.elim

end Framing
