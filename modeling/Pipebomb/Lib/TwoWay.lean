/-
  A relation that is stored twice: as a partial map from keys to owners, and as a list
  of keys for each owner.

  `Agree` says that the two copies describe the same relation and that no list repeats
  a key.  Adding a pair, removing a pair, an owner without keys that enters and an owner
  that leaves with all its keys keep the agreement when they are done on both copies; an
  owner that enters with keys on one copy only breaks it (`Agree.enter_iff`).
-/
import Mathlib

namespace TwoWay

variable {κ υ : Type*}

/-- Both copies describe the same relation. -/
structure Agree (book : κ → Option υ) (owned : υ → Option (List κ)) : Prop where
  iff : ∀ k u, book k = some u ↔ ∃ ks, owned u = some ks ∧ k ∈ ks
  nodup : ∀ u ks, owned u = some ks → ks.Nodup

variable {book : κ → Option υ} {owned : υ → Option (List κ)} {k : κ} {u : υ} {ks : List κ}

theorem agree_empty : Agree (fun _ : κ => (none : Option υ)) fun _ => none :=
  ⟨fun _ _ => by simp, fun _ _ h => by cases h⟩

/-- The owner of a listed key. -/
theorem Agree.book_eq (h : Agree book owned) (hu : owned u = some ks) (hk : k ∈ ks) :
    book k = some u := (h.iff k u).2 ⟨ks, hu, hk⟩

/-- A key without an owner is in no list. -/
theorem Agree.not_mem (h : Agree book owned) (hb : book k = none) (hu : owned u = some ks) :
    k ∉ ks := fun hk => by
  rw [h.book_eq hu hk] at hb
  cases hb

variable [DecidableEq κ] [BEq κ] [LawfulBEq κ] [DecidableEq υ]

omit [BEq κ] [LawfulBEq κ] in
/-- **A new pair.** -/
theorem Agree.add (h : Agree book owned) (hb : book k = none) (hu : owned u = some ks) :
    Agree (Function.update book k (some u)) (Function.update owned u (some (ks ++ [k]))) where
  iff k' u' := by
    by_cases hk : k' = k
    · subst hk
      rw [Function.update_self]
      by_cases he : u' = u
      · subst he; simp
      · rw [Function.update_of_ne he]
        refine ⟨fun hs => absurd (Option.some.inj hs).symm he, ?_⟩
        rintro ⟨l, hl, hm⟩
        exact absurd hm (h.not_mem hb hl)
    · rw [Function.update_of_ne hk, h.iff]
      by_cases he : u' = u
      · subst he; simp [hu, hk]
      · rw [Function.update_of_ne he]
  nodup u' l hl := by
    by_cases he : u' = u
    · subst he
      rw [Function.update_self] at hl
      cases hl
      rw [List.nodup_append]
      refine ⟨h.nodup _ _ hu, by simp, fun a ha b hb' => ?_⟩
      rintro rfl
      exact h.not_mem hb hu (List.mem_singleton.1 hb' ▸ ha)
    · rw [Function.update_of_ne he] at hl
      exact h.nodup u' l hl

/-- **A pair less.** -/
theorem Agree.remove (h : Agree book owned) (hu : owned u = some ks) (hk : k ∈ ks) :
    Agree (Function.update book k none) (Function.update owned u (some (ks.erase k))) where
  iff k' u' := by
    have hn := h.nodup u ks hu
    by_cases hk' : k' = k
    · subst hk'
      rw [Function.update_self]
      refine ⟨fun hs => absurd hs (by simp), ?_⟩
      rintro ⟨l, hl, hm⟩
      by_cases he : u' = u
      · subst he
        rw [Function.update_self] at hl
        cases hl
        exact absurd hm hn.not_mem_erase
      · rw [Function.update_of_ne he] at hl
        have := (h.book_eq hl hm).symm.trans (h.book_eq hu hk)
        exact absurd (Option.some.inj this) he
    · rw [Function.update_of_ne hk', h.iff]
      by_cases he : u' = u
      · subst he; simp [hu, List.mem_erase_of_ne hk']
      · rw [Function.update_of_ne he]
  nodup u' l hl := by
    by_cases he : u' = u
    · subst he
      rw [Function.update_self] at hl
      cases hl
      exact (h.nodup _ _ hu).erase k
    · rw [Function.update_of_ne he] at hl
      exact h.nodup u' l hl

omit [DecidableEq κ] [BEq κ] [LawfulBEq κ] in
/-- **A new owner** keeps the agreement exactly if it brings no keys. -/
theorem Agree.enter_iff (h : Agree book owned) (ks : List κ) (hu : owned u = none) :
    Agree book (Function.update owned u (some ks)) ↔ ks = [] := by
  constructor
  · intro h'
    by_contra hne
    obtain ⟨k, hk⟩ := List.exists_mem_of_ne_nil ks hne
    have hb : book k = some u := h'.book_eq (Function.update_self ..) hk
    obtain ⟨l, hl, -⟩ := (h.iff k u).1 hb
    rw [hu] at hl
    cases hl
  · rintro rfl
    refine ⟨fun k' u' => ?_, fun u' l hl => ?_⟩
    · rw [h.iff]
      by_cases he : u' = u
      · subst he; simp [hu]
      · rw [Function.update_of_ne he]
    · by_cases he : u' = u
      · subst he
        rw [Function.update_self] at hl
        cases hl
        exact List.nodup_nil
      · rw [Function.update_of_ne he] at hl
        exact h.nodup u' l hl

omit [DecidableEq κ] in
/-- **An owner leaves** with all its keys. -/
theorem Agree.leave (h : Agree book owned) (hu : owned u = some ks) {book' : κ → Option υ}
    (hb : ∀ k, book' k = if k ∈ ks then none else book k) :
    Agree book' (Function.update owned u none) where
  iff k' u' := by
    rw [hb]
    by_cases he : u' = u
    · subst he
      rw [Function.update_self]
      refine ⟨fun hs => ?_, fun ⟨l, hl, _⟩ => absurd hl (by simp)⟩
      split_ifs at hs with hk
      obtain ⟨l, hl, hm⟩ := (h.iff k' u').1 hs
      rw [hu] at hl
      cases hl
      exact absurd hm hk
    · rw [Function.update_of_ne he, ← h.iff]
      split_ifs with hk
      · refine ⟨fun hs => absurd hs (by simp), fun hs => ?_⟩
        rw [h.book_eq hu hk] at hs
        exact absurd (Option.some.inj hs).symm he
      · rfl
  nodup u' l hl := by
    by_cases he : u' = u
    · subst he
      rw [Function.update_self] at hl
      cases hl
    · rw [Function.update_of_ne he] at hl
      exact h.nodup u' l hl

end TwoWay
