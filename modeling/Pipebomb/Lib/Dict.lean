/-
  Finite maps that remember insertion order.

  A `Dict κ ν` is a list of key-value pairs in which no key occurs twice; the
  invariant is a field, so a map with a repeated key cannot be built.  Assigning to
  a present key keeps its place, assigning to a new key puts it last, and erasing
  keeps the order of the others.

  * `get?_set`, `get?_erase`: the map laws;
  * `items_erase_find?`, `eraseP_eq_filter_iff`: removing the first pair that satisfies a
    condition, and when this removes all that do;
  * `setAll_items`: assigning the pairs of a map one after the other to the empty
    map gives the map back, order included (what a decoder does that rebuilds a
    map from its pairs);
  * `mapVal`: the same keys in the same order with other values.
-/
import Mathlib

/-- A finite map with its keys in insertion order. -/
@[ext] structure Dict (κ ν : Type) where
  items : List (κ × ν)
  nodup : (items.map Prod.fst).Nodup

namespace Dict

variable {κ ν ν' : Type}

instance [DecidableEq κ] [DecidableEq ν] : DecidableEq (Dict κ ν) := fun d d' =>
  decidable_of_iff (d.items = d'.items) Dict.ext_iff.symm

/-- The empty map. -/
def empty : Dict κ ν := ⟨[], List.nodup_nil⟩

/-- The keys, oldest first. -/
def keys (d : Dict κ ν) : List κ := d.items.map Prod.fst

/-- The values, oldest key first. -/
def values (d : Dict κ ν) : List ν := d.items.map Prod.snd

instance : Membership κ (Dict κ ν) := ⟨fun d k => k ∈ d.keys⟩

theorem mem_def {d : Dict κ ν} {k : κ} : k ∈ d ↔ k ∈ d.items.map Prod.fst := Iff.rfl

variable [DecidableEq κ]

instance (d : Dict κ ν) (k : κ) : Decidable (k ∈ d) := inferInstanceAs (Decidable (k ∈ d.keys))

/-- The value of the first pair with key `k`. -/
def find (k : κ) : List (κ × ν) → Option ν
  | [] => none
  | p :: ps => if p.1 = k then some p.2 else find k ps

/-- The value at `k`, if there is one. -/
def get? (d : Dict κ ν) (k : κ) : Option ν := find k d.items

/-- The pairs with the value at the present key `k` replaced. -/
def replace (k : κ) (v : ν) (ps : List (κ × ν)) : List (κ × ν) :=
  ps.map fun p => if p.1 = k then (k, v) else p

theorem map_fst_replace (k : κ) (v : ν) (ps : List (κ × ν)) :
    (replace k v ps).map Prod.fst = ps.map Prod.fst := by
  simp only [replace, List.map_map]
  refine List.map_congr_left fun p _ => ?_
  simp only [Function.comp_apply]
  split_ifs with h
  · exact h.symm
  · rfl

/-- Assign `v` at `k`. -/
def set (d : Dict κ ν) (k : κ) (v : ν) : Dict κ ν :=
  if h : k ∈ d then ⟨replace k v d.items, by rw [map_fst_replace]; exact d.nodup⟩
  else ⟨d.items ++ [(k, v)], by
    rw [List.map_append, List.nodup_append]
    refine ⟨d.nodup, by simp, fun a ha b hb => ?_⟩
    simp only [List.map_cons, List.map_nil, List.mem_singleton] at hb
    rintro rfl
    exact h (hb ▸ ha)⟩

/-- Remove `k`. -/
def erase (d : Dict κ ν) (k : κ) : Dict κ ν :=
  ⟨d.items.filter fun p => p.1 ≠ k, d.nodup.sublist (List.filter_sublist.map _)⟩

/-! ## Lookup -/

theorem find_isSome {k : κ} {ps : List (κ × ν)} : (find k ps).isSome ↔ k ∈ ps.map Prod.fst := by
  induction ps with
  | nil => simp [find]
  | cons p ps ih =>
    simp only [find, List.map_cons, List.mem_cons]
    split_ifs with h
    · simp [h]
    · rw [ih]; simp [Ne.symm h]

theorem mem_iff {d : Dict κ ν} {k : κ} : k ∈ d ↔ ∃ v, d.get? k = some v := by
  rw [mem_def, ← find_isSome, Option.isSome_iff_exists]; rfl

theorem get?_eq_none {d : Dict κ ν} {k : κ} : d.get? k = none ↔ k ∉ d := by
  rw [mem_iff]; cases h : d.get? k <;> simp

theorem mem_of_get? {d : Dict κ ν} {k : κ} {v : ν} (h : d.get? k = some v) : k ∈ d :=
  mem_iff.2 ⟨v, h⟩

theorem find_eq_some {k : κ} {v : ν} {ps : List (κ × ν)} (hn : (ps.map Prod.fst).Nodup) :
    find k ps = some v ↔ (k, v) ∈ ps := by
  induction ps with
  | nil => simp [find]
  | cons p ps ih =>
    simp only [List.map_cons, List.nodup_cons] at hn
    simp only [find, List.mem_cons]
    split_ifs with h
    · subst h
      constructor
      · rintro ⟨rfl⟩; exact Or.inl rfl
      · rintro (h | h)
        · rw [← h]
        · exact absurd (List.mem_map_of_mem (f := Prod.fst) h) hn.1
    · rw [ih hn.2]
      constructor
      · exact Or.inr
      · rintro (rfl | h')
        · exact absurd rfl h
        · exact h'

/-- The value at `k` is the value of the pair with key `k`. -/
theorem get?_eq_some {d : Dict κ ν} {k : κ} {v : ν} : d.get? k = some v ↔ (k, v) ∈ d.items :=
  find_eq_some d.nodup

@[simp] theorem get?_empty (k : κ) : (empty : Dict κ ν).get? k = none := rfl

omit [DecidableEq κ] in
@[simp] theorem not_mem_empty (k : κ) : k ∉ (empty : Dict κ ν) := by simp [mem_def, empty]

/-! ## Assignment and removal -/

theorem items_set_of_mem {d : Dict κ ν} {k : κ} (h : k ∈ d) (v : ν) :
    (d.set k v).items = replace k v d.items := by rw [set, dif_pos h]

theorem items_set_of_not_mem {d : Dict κ ν} {k : κ} (h : k ∉ d) (v : ν) :
    (d.set k v).items = d.items ++ [(k, v)] := by rw [set, dif_neg h]

theorem find_append {k : κ} {ps qs : List (κ × ν)} :
    find k (ps ++ qs) = (find k ps).or (find k qs) := by
  induction ps with
  | nil => simp [find]
  | cons p ps ih => simp only [List.cons_append, find]; split_ifs <;> simp [ih]

theorem find_replace {k k' : κ} {v : ν} {ps : List (κ × ν)} (h : k ∈ ps.map Prod.fst) :
    find k' (replace k v ps) = if k' = k then some v else find k' ps := by
  induction ps with
  | nil => simp at h
  | cons p ps ih =>
    by_cases hp : p.1 = k
    · subst hp
      simp only [replace, List.map_cons, if_true, find]
      by_cases hk : k' = p.1
      · simp [hk]
      · rw [if_neg (Ne.symm hk), if_neg hk, if_neg (Ne.symm hk)]
        clear ih h
        induction ps with
        | nil => rfl
        | cons q ps ih =>
          simp only [List.map_cons, find]
          by_cases hq : q.1 = p.1
          · rw [if_pos hq, if_neg (Ne.symm hk), ih, if_neg (by rw [hq]; exact Ne.symm hk)]
          · rw [if_neg hq, ih]
    · have h' : k ∈ ps.map Prod.fst := by
        rcases List.mem_cons.1 h with h | h
        · exact absurd h.symm hp
        · exact h
      have ih' := ih h'
      simp only [replace] at ih'
      simp only [replace, List.map_cons, if_neg hp, find, ih']
      by_cases hk : k' = k
      · subst hk; rw [if_neg hp]; simp
      · simp [hk]

theorem get?_set (d : Dict κ ν) (k k' : κ) (v : ν) :
    (d.set k v).get? k' = if k' = k then some v else d.get? k' := by
  by_cases h : k ∈ d
  · simp only [set, dif_pos h, get?, find_replace h]
  · simp only [set, dif_neg h, get?, find_append, find]
    by_cases hk : k' = k
    · subst hk
      have hn : find k' d.items = none := get?_eq_none.2 h
      simp [hn]
    · simp [hk, Ne.symm hk]

@[simp] theorem get?_set_self (d : Dict κ ν) (k : κ) (v : ν) : (d.set k v).get? k = some v := by
  simp [get?_set]

theorem get?_set_ne (d : Dict κ ν) {k k' : κ} (h : k' ≠ k) (v : ν) :
    (d.set k v).get? k' = d.get? k' := by simp [get?_set, h]

theorem get?_erase (d : Dict κ ν) (k k' : κ) :
    (d.erase k).get? k' = if k' = k then none else d.get? k' := by
  by_cases hk : k' = k
  · subst hk
    rw [if_pos rfl, get?_eq_none, mem_def]
    simp [erase]
  · rw [if_neg hk]
    apply Option.ext
    intro v
    simp only [get?_eq_some, erase, List.mem_filter, decide_eq_true_eq, ne_eq, hk,
      not_false_eq_true, and_true]

@[simp] theorem get?_erase_self (d : Dict κ ν) (k : κ) : (d.erase k).get? k = none := by
  simp [get?_erase]

theorem get?_erase_ne (d : Dict κ ν) {k k' : κ} (h : k' ≠ k) :
    (d.erase k).get? k' = d.get? k' := by simp [get?_erase, h]

theorem get?_set_update (d : Dict κ ν) (k : κ) (v : ν) :
    (d.set k v).get? = Function.update d.get? k (some v) := by
  funext k'
  rw [get?_set, Function.update_apply]

theorem get?_erase_update (d : Dict κ ν) (k : κ) :
    (d.erase k).get? = Function.update d.get? k none := by
  funext k'
  rw [get?_erase, Function.update_apply]

theorem mem_set {d : Dict κ ν} {k k' : κ} {v : ν} : k' ∈ d.set k v ↔ k' = k ∨ k' ∈ d := by
  rw [mem_iff, mem_iff]
  by_cases h : k' = k
  · subst h; simp
  · simp [get?_set_ne d h, h]

theorem mem_erase {d : Dict κ ν} {k k' : κ} : k' ∈ d.erase k ↔ k' ≠ k ∧ k' ∈ d := by
  rw [mem_iff, mem_iff]
  by_cases h : k' = k
  · subst h; simp
  · simp [get?_erase_ne d h, h]

/-- Removing a key that is not there changes nothing. -/
theorem erase_of_not_mem {d : Dict κ ν} {k : κ} (h : k ∉ d) : d.erase k = d := by
  apply Dict.ext
  rw [erase, List.filter_eq_self]
  intro p hp
  have hne : p.1 ≠ k := fun he => h (mem_def.2 (List.mem_map.2 ⟨p, hp, he⟩))
  simpa using hne

/-- Assigning the value a key already has changes nothing. -/
theorem set_get? {d : Dict κ ν} {k : κ} {v : ν} (h : d.get? k = some v) : d.set k v = d := by
  apply Dict.ext
  rw [set, dif_pos (mem_of_get? h)]
  have hkv := get?_eq_some.1 h
  refine (List.map_congr_left fun p hp => ?_).trans (List.map_id _)
  split_ifs with hpk
  · have hpv : d.get? p.1 = some p.2 := get?_eq_some.2 hp
    rw [hpk, h] at hpv
    cases p; simp_all
  · rfl

theorem replace_replace (k : κ) (v w : ν) (ps : List (κ × ν)) :
    replace k w (replace k v ps) = replace k w ps := by
  simp only [replace, List.map_map]
  refine List.map_congr_left fun p _ => ?_
  simp only [Function.comp_apply]
  split_ifs with h h'
  · rfl
  · exact absurd rfl h'
  · rfl

/-- The later of two assignments at a key counts. -/
theorem set_set (d : Dict κ ν) (k : κ) (v w : ν) : (d.set k v).set k w = d.set k w := by
  apply Dict.ext
  rw [items_set_of_mem (mem_set.2 (Or.inl rfl))]
  by_cases h : k ∈ d
  · rw [items_set_of_mem h, items_set_of_mem h, replace_replace]
  · rw [items_set_of_not_mem h, items_set_of_not_mem h, replace, List.map_append]
    congr 1
    · refine (List.map_congr_left fun p hp => if_neg ?_).trans (List.map_id _)
      rintro rfl
      exact h (List.mem_map_of_mem hp)
    · simp

/-! ## Removing the first pair that satisfies a condition -/

theorem filter_eq_eraseP {q : κ × ν → Bool} {p : κ × ν} : ∀ {ps : List (κ × ν)},
    (ps.map Prod.fst).Nodup → ps.find? q = some p → (ps.filter fun x => x.1 ≠ p.1) = ps.eraseP q
  | [], _, h => by cases h
  | x :: ps, hn, h => by
    simp only [List.map_cons, List.nodup_cons] at hn
    rw [List.find?_cons] at h
    rw [List.eraseP_cons]
    rcases hx : q x with _ | _
    · rw [hx] at h
      have hne : x.1 ≠ p.1 := by
        intro he
        exact hn.1 (he ▸ List.mem_map_of_mem (List.mem_of_find?_eq_some h))
      rw [List.filter_cons_of_pos (by simpa using hne), filter_eq_eraseP hn.2 h]
      rfl
    · rw [hx] at h
      cases h
      rw [List.filter_cons_of_neg (by simp), List.filter_eq_self.2]
      · rfl
      · intro y hy
        simp only [ne_eq, decide_not, Bool.not_eq_eq_eq_not, Bool.not_true, decide_eq_false_iff_not]
        intro he
        exact hn.1 (he ▸ List.mem_map_of_mem hy)

/-- Removing the key of the first pair that satisfies `q` removes that pair. -/
theorem items_erase_find? {d : Dict κ ν} {q : κ × ν → Bool} {p : κ × ν}
    (h : d.items.find? q = some p) : (d.erase p.1).items = d.items.eraseP q :=
  filter_eq_eraseP d.nodup h

omit [DecidableEq κ] in
/-- Removing the first pair that satisfies `q` removes all that do, exactly if there is at
    most one. -/
theorem eraseP_eq_filter_iff {q : κ × ν → Bool} {ps : List (κ × ν)} :
    ps.eraseP q = ps.filter (fun p => !q p) ↔ (ps.filter q).length ≤ 1 := by
  induction ps with
  | nil => simp
  | cons p ps ih =>
    rw [List.eraseP_cons]
    rcases hp : q p with _ | _
    · rw [List.filter_cons_of_pos (by simp [hp]), List.filter_cons_of_neg (by simp [hp]), ← ih]
      simp
    · rw [List.filter_cons_of_neg (by simp [hp]), List.filter_cons_of_pos (by simp [hp])]
      have hlen : (p :: ps.filter q).length ≤ 1 ↔ ps.filter q = [] := by
        rw [List.length_cons, ← List.length_eq_zero_iff]; omega
      rw [hlen, List.filter_eq_nil_iff, cond_true, eq_comm, List.filter_eq_self]
      simp

/-! ## Rebuilding a map from its pairs -/

/-- Assign the pairs one after the other. -/
def setAll (d : Dict κ ν) (ps : List (κ × ν)) : Dict κ ν := ps.foldl (fun d p => d.set p.1 p.2) d

@[simp] theorem setAll_nil (d : Dict κ ν) : d.setAll [] = d := rfl

@[simp] theorem setAll_cons (d : Dict κ ν) (p : κ × ν) (ps : List (κ × ν)) :
    d.setAll (p :: ps) = (d.set p.1 p.2).setAll ps := rfl

/-- Pairs with new and distinct keys are appended in order. -/
theorem items_setAll {ps : List (κ × ν)} : ∀ {d : Dict κ ν},
    (d.items ++ ps).map Prod.fst |>.Nodup → (d.setAll ps).items = d.items ++ ps := by
  induction ps with
  | nil => simp
  | cons p ps ih =>
    intro d h
    have hp : p.1 ∉ d := by
      intro hd
      rw [List.map_append, List.nodup_append] at h
      exact h.2.2 _ hd _ (by simp) rfl
    have hi := items_set_of_not_mem hp p.2
    rw [setAll_cons, ih (by rw [hi]; simpa using h), hi]
    simp

/-- **A map is rebuilt from its pairs**, order included. -/
theorem setAll_items (d : Dict κ ν) : (empty : Dict κ ν).setAll d.items = d := by
  apply Dict.ext
  rw [items_setAll (by simpa [empty] using d.nodup)]
  rfl

/-! ## Mapping the values -/

omit [DecidableEq κ] in
/-- The same keys with the values mapped. -/
def mapVal (f : ν → ν') (d : Dict κ ν) : Dict κ ν' :=
  ⟨d.items.map fun p => (p.1, f p.2), by
    simpa [List.map_map, Function.comp_def] using d.nodup⟩

theorem find_map (f : ν → ν') (k : κ) (ps : List (κ × ν)) :
    find k (ps.map fun p => (p.1, f p.2)) = (find k ps).map f := by
  induction ps with
  | nil => rfl
  | cons p ps ih => simp only [List.map_cons, find]; split_ifs <;> simp [ih]

theorem get?_mapVal (f : ν → ν') (d : Dict κ ν) (k : κ) :
    (d.mapVal f).get? k = (d.get? k).map f := find_map f k d.items

end Dict
