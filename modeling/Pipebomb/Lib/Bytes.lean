/-
  Byte strings: slices, fixed-width unsigned integers in both byte orders, and
  length-prefixed fields.

  * `leBytes`/`leVal` and `beBytes`/`beVal` write and read an unsigned integer of
    `w` bytes; each pair is inverse below `256 ^ w` (`leVal_leBytes`,
    `beVal_beBytes`), so a fixed-width encoding is injective (`leBytes_inj`), and on byte
    strings of the width (`leBytes_leVal`, `beBytes_beVal`).
  * `slice bs i j` is the half-open slice `bs[i:j]`, truncated at the end of `bs`;
    `slices` cuts consecutive parts, and cuts out what was joined (`slices_flatten`); the
    parts are whole if `bs` is long enough (`slices_whole`).
  * `field n bs` is a byte string behind its own length in `n` bytes, and `fields`
    a row of them.
-/
import Mathlib

namespace ByteString

/-- A byte string. -/
abbrev Bytes := List UInt8

/-! ## Slices -/

/-- The half-open slice `bs[i:j]`, cut at the end of `bs`. -/
def slice {α : Type*} (bs : List α) (i j : ℕ) : List α := (bs.drop i).take (j - i)

section
variable {α : Type*}

theorem slice_zero (bs : List α) (n : ℕ) : slice bs 0 n = bs.take n := by simp [slice]

/-- The slice that covers exactly the middle part. -/
theorem slice_mid {as bs cs : List α} {i j : ℕ} (hi : i = as.length) (hj : j = i + bs.length) :
    slice (as ++ (bs ++ cs)) i j = bs := by
  subst hi hj
  simp [slice]

theorem slice_end {as bs : List α} {i j : ℕ} (hi : i = as.length) (hj : j = i + bs.length) :
    slice (as ++ bs) i j = bs := by
  subst hi hj
  simp [slice]

theorem length_slice (bs : List α) (i j : ℕ) : (slice bs i j).length = min (j - i) (bs.length - i) := by
  simp [slice]

/-- Consecutive slices with the given lengths. -/
def slices (bs : List α) : List ℕ → ℕ → List (List α)
  | [], _ => []
  | length :: rest, offset =>
    slice bs offset (offset + length) :: slices bs rest (offset + length)

/-- Parts written one after the other are cut out again. -/
theorem slices_flatten {vs : List (List α)} : ∀ as : List α,
    slices (as ++ vs.flatten) (vs.map List.length) as.length = vs := by
  induction vs with
  | nil => intro as; rfl
  | cons v vs ih =>
    intro as
    have := ih (as ++ v)
    rw [List.append_assoc, List.length_append] at this
    rw [List.map_cons, slices, List.flatten_cons, this, slice_mid rfl rfl]

theorem length_slices (bs : List α) : ∀ (lengths : List ℕ) (offset : ℕ),
    (slices bs lengths offset).length = lengths.length
  | [], _ => rfl
  | length :: rest, offset => congrArg (· + 1) (length_slices bs rest (offset + length))

/-- No part is longer than it should be. -/
theorem slices_short {bs : List α} {N : ℕ} : ∀ {lengths : List ℕ} {offset : ℕ},
    (∀ n ∈ lengths, n < N) → ∀ v ∈ slices bs lengths offset, v.length < N
  | [], _, _, v, hv => by cases hv
  | length :: rest, offset, h, v, hv => by
    rcases List.mem_cons.1 hv with rfl | hv
    · have hlen : length < N := h length (by simp)
      rw [slice, List.length_take]
      omega
    · exact slices_short (fun n hn => h n (by simp [hn])) v hv

/-- The parts have the given lengths and are everything if the lengths add up. -/
theorem slices_whole {bs : List α} : ∀ {lengths : List ℕ} {offset : ℕ},
    offset + lengths.sum ≤ bs.length → (slices bs lengths offset).map List.length = lengths ∧
      (slices bs lengths offset).flatten = (bs.drop offset).take lengths.sum
  | [], offset, _ => by simp [slices]
  | length :: rest, offset, h => by
    rw [List.sum_cons] at h
    have hrest : offset + length + rest.sum ≤ bs.length := by omega
    obtain ⟨hlen, hflat⟩ := slices_whole hrest
    constructor
    · rw [slices, List.map_cons, hlen, length_slice]
      congr 1
      omega
    · rw [slices, List.flatten_cons, hflat, List.sum_cons, slice, Nat.add_sub_cancel_left,
        List.take_add, List.drop_drop]

end

/-! ## Fixed-width unsigned integers -/

/-- `n` in `w` bytes, least significant byte first. -/
def leBytes : ℕ → ℕ → Bytes
  | 0, _ => []
  | w + 1, n => UInt8.ofNat n :: leBytes w (n / 256)

/-- The number written by `bs`, least significant byte first. -/
def leVal : Bytes → ℕ
  | [] => 0
  | b :: bs => b.toNat + 256 * leVal bs

/-- `n` in `w` bytes, most significant byte first. -/
def beBytes (w n : ℕ) : Bytes := (leBytes w n).reverse

/-- The number written by `bs`, most significant byte first. -/
def beVal (bs : Bytes) : ℕ := leVal bs.reverse

@[simp] theorem length_leBytes (w n : ℕ) : (leBytes w n).length = w := by
  induction w generalizing n with
  | zero => rfl
  | succ w ih => simp [leBytes, ih]

@[simp] theorem length_beBytes (w n : ℕ) : (beBytes w n).length = w := by
  simp [beBytes]

theorem leVal_leBytes {w n : ℕ} (h : n < 256 ^ w) : leVal (leBytes w n) = n := by
  induction w generalizing n with
  | zero => simp at h; simp [leBytes, leVal, h]
  | succ w ih =>
    have hd : n / 256 < 256 ^ w := by
      rw [Nat.div_lt_iff_lt_mul (by decide), ← Nat.pow_succ]; exact h
    simp only [leBytes, leVal, ih hd, UInt8.toNat_ofNat']
    omega

theorem beVal_beBytes {w n : ℕ} (h : n < 256 ^ w) : beVal (beBytes w n) = n := by
  simp [beVal, beBytes, leVal_leBytes h]

theorem leVal_lt (bs : Bytes) : leVal bs < 256 ^ bs.length := by
  induction bs with
  | nil => simp [leVal]
  | cons b bs ih =>
    have hb := b.toNat_lt
    simp only [leVal, List.length_cons, Nat.pow_succ]
    omega

theorem beVal_lt (bs : Bytes) : beVal bs < 256 ^ bs.length := by
  simpa [beVal] using leVal_lt bs.reverse

/-- Two numbers of the width with the same bytes are the same. -/
theorem leBytes_inj {w m n : ℕ} (hm : m < 256 ^ w) (hn : n < 256 ^ w)
    (h : leBytes w m = leBytes w n) : m = n := by
  rw [← leVal_leBytes hm, ← leVal_leBytes hn, h]

theorem leBytes_leVal (bs : Bytes) : leBytes bs.length (leVal bs) = bs := by
  induction bs with
  | nil => rfl
  | cons b bs ih =>
    have hb := b.toNat_lt
    have hmod : UInt8.ofNat (b.toNat + 256 * leVal bs) = b := by
      apply UInt8.toNat_inj.1
      rw [UInt8.toNat_ofNat']
      omega
    have hdiv : (b.toNat + 256 * leVal bs) / 256 = leVal bs := by omega
    rw [List.length_cons, leVal, leBytes, hmod, hdiv, ih]

theorem beBytes_beVal {bs : Bytes} {w : ℕ} (h : bs.length = w) : beBytes w (beVal bs) = bs := by
  have hrev := leBytes_leVal bs.reverse
  rw [List.length_reverse, h] at hrev
  rw [beBytes, beVal, hrev, List.reverse_reverse]

/-! ## Length-prefixed fields -/

/-- A byte string behind its length in `w` bytes. -/
def field (w : ℕ) (bs : Bytes) : Bytes := beBytes w bs.length ++ bs

/-- A row of length-prefixed byte strings. -/
def fields (w : ℕ) (bss : List Bytes) : Bytes := (bss.map (field w)).flatten

@[simp] theorem length_field (w : ℕ) (bs : Bytes) : (field w bs).length = w + bs.length := by
  simp [field]

@[simp] theorem fields_nil (w : ℕ) : fields w [] = [] := rfl

@[simp] theorem fields_cons (w : ℕ) (bs : Bytes) (bss : List Bytes) :
    fields w (bs :: bss) = field w bs ++ fields w bss := rfl

theorem mem_length_fields {w : ℕ} {bs : Bytes} {bss : List Bytes} (h : bs ∈ bss) :
    w + bs.length ≤ (fields w bss).length := by
  induction bss with
  | nil => simp at h
  | cons b bss ih =>
    simp only [fields_cons, List.length_append, length_field]
    rcases List.mem_cons.1 h with rfl | h
    · omega
    · have := ih h; omega

end ByteString
