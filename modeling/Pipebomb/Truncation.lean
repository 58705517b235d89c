/-
  Which checkpoints `deserialize` takes that are not whole.

  * `skipItems`: the loops over the items of a value as movements of a cursor; they end at the
    end of the value (`Whole`), or behind it, when the last field is cut short (`CutOff`).
  * `Admitted`: what the checks of `deserialize` let through (`deserialize_ok`).
  * `Intact`: nothing was cut short or dropped.  `Slip` are the ways to get past the checks
    without being intact (`intact_iff`).
  * `no_truncation_iff`: a checkpoint is refused or intact if and only if it is refused or has
    no slip.
-/
import Pipebomb.CheckpointRoundTrip
import Pipebomb.Lib.Run
import Pipebomb.Stub

namespace Pipebomb

open ByteString

variable {K : Type}

/-! ## The items of a value -/

/-- Items of `n` fields each, and nothing else. -/
def Whole (n : ℕ) (bs : Bytes) : Prop :=
  ∃ items : List (List Bytes), (∀ fs ∈ items, fs.length = n ∧ ∀ f ∈ fs, f.length < 2 ^ 32) ∧
    bs = (items.map (fields 4)).flatten

/-- Items of `n` fields each, the last field of which is shorter than its length says. -/
def CutOff (n : ℕ) (bs : Bytes) : Prop :=
  ∃ (items : List (List Bytes)) (fs : List Bytes) (length : ℕ) (f : Bytes),
    (∀ fs ∈ items, fs.length = n ∧ ∀ f ∈ fs, f.length < 2 ^ 32) ∧ fs.length + 1 = n ∧
    (∀ f ∈ fs, f.length < 2 ^ 32) ∧ f.length < length ∧ length < 2 ^ 32 ∧
    bs = (items.map (fields 4)).flatten ++ (fields 4 fs ++ (beBytes 4 length ++ f))

/-- The cursor behind `n` fields. -/
def skipFields : ℕ → Bytes → ℕ → Except PyErr ℕ
  | 0, _, cursor => .ok cursor
  | n + 1, value, cursor => do
    let (_, cursor) ← readField value cursor
    skipFields n value cursor

/-- The cursor behind the items. -/
def skipItems (n : ℕ) (value : Bytes) : ℕ → ℕ → Except PyErr ℕ
  | 0, cursor => .ok cursor
  | fuel + 1, cursor => do
    if cursor < value.length then
      let cursor ← skipFields n value cursor
      skipItems n value fuel cursor
    else .ok cursor

/-- `read` reads `n` fields. -/
def ReadsFields {ι : Type} (n : ℕ) (read : Bytes → ℕ → Except PyErr (ι × ℕ)) : Prop :=
  ∀ value cursor, (read value cursor).map Prod.snd = skipFields n value cursor

section
variable {value : Bytes} {cursor cursor' n fuel : ℕ}

theorem readAddress_reads : ReadsFields 1 readAddress := by
  intro value cursor
  rw [readAddress, skipFields]
  rcases readField value cursor with e | ⟨x, c⟩
  · rfl
  · rfl

theorem readRequest_reads : ReadsFields 4 readRequest := by
  intro value cursor
  simp only [readRequest, skipFields]
  rcases readField value cursor with e | ⟨x, c⟩
  · rfl
  simp only [ok_bind]
  rcases readField value c with e | ⟨x, c⟩
  · rfl
  simp only [ok_bind]
  rcases readField value c with e | ⟨x, c⟩
  · rfl
  simp only [ok_bind]
  rcases readField value c with e | ⟨x, c⟩
  · rfl
  · rfl

theorem readResponse_reads : ReadsFields 3 readResponse := by
  intro value cursor
  simp only [readResponse, skipFields]
  rcases readField value cursor with e | ⟨x, c⟩
  · rfl
  simp only [ok_bind]
  rcases readField value c with e | ⟨x, c⟩
  · rfl
  simp only [ok_bind]
  rcases readField value c with e | ⟨x, c⟩
  · rfl
  · rfl

/-- The loop raises where the cursor cannot move on. -/
theorem readItems_ok {ι : Type} {read : Bytes → ℕ → Except PyErr (ι × ℕ)} (hread : ReadsFields n read) :
    (∃ xs, readItems read value fuel cursor = .ok xs) ↔
      ∃ cursor', skipItems n value fuel cursor = .ok cursor' := by
  induction fuel generalizing cursor with
  | zero => exact iff_of_true ⟨[], rfl⟩ ⟨cursor, rfl⟩
  | succ fuel ih =>
    rw [readItems, skipItems]
    by_cases hc : cursor < value.length
    · rw [if_pos hc, if_pos hc, ← hread value cursor]
      rcases read value cursor with e | ⟨x, c⟩
      · refine iff_of_false ?_ ?_
        · rintro ⟨xs, h⟩
          cases h
        · rintro ⟨c, h⟩
          cases h
      · have hmap : (Except.ok (x, c) : Except PyErr (ι × ℕ)).map Prod.snd = .ok c := rfl
        simp only [hmap, ok_bind]
        rw [← ih]
        constructor
        · rintro ⟨xs, h⟩
          obtain ⟨ys, hys, -⟩ := bind_eq_ok.1 h
          exact ⟨ys, hys⟩
        · rintro ⟨ys, hys⟩
          rw [hys]
          exact ⟨x :: ys, rfl⟩
    · rw [if_neg hc, if_neg hc]
      exact iff_of_true ⟨[], rfl⟩ ⟨cursor, rfl⟩

/-! ### One field -/

/-- A field that is all there. -/
theorem readField_whole {f bs : Bytes} (hf : f.length < 2 ^ 32)
    (h : value.drop cursor = field 4 f ++ bs) :
    readField value cursor = .ok (f, cursor + (field 4 f).length) ∧
      value.drop (cursor + (field 4 f).length) = bs := by
  have hle : cursor ≤ value.length := by
    by_contra hlt
    rw [List.drop_eq_nil_of_le (by omega)] at h
    have hlen := congrArg List.length h
    rw [List.length_append, length_field, List.length_nil] at hlen
    omega
  have hsplit := List.take_append_drop cursor value
  have hlen : (value.take cursor).length = cursor := by
    rw [List.length_take]
    omega
  constructor
  · have := readField_append (value.take cursor) hf bs
    rwa [hlen, ← h, hsplit] at this
  · rw [← List.drop_drop, h, List.drop_left]

/-- A field that is cut short. -/
theorem readField_short {length : ℕ} {f : Bytes} (hl : length < 2 ^ 32) (hf : f.length < length)
    (h : value.drop cursor = beBytes 4 length ++ f) :
    ∃ x cursor', readField value cursor = .ok (x, cursor') ∧ value.length < cursor' := by
  have hlen := congrArg List.length h
  rw [List.length_drop, List.length_append, length_beBytes] at hlen
  have hword : unpackFromI value cursor = .ok length := by
    rw [unpackFromI, if_pos (by omega), slice, h, Nat.add_sub_cancel_left,
      List.take_left' (length_beBytes 4 length), beVal_beBytes4 hl]
  have hlt : value.length < cursor + 4 + length := by omega
  refine ⟨slice value (cursor + 4) (cursor + 4 + length), cursor + 4 + length, ?_, hlt⟩
  rw [readField, hword]
  rfl

/-- There is no other way to read a field. -/
theorem readField_inv {x : Bytes} (h : readField value cursor = .ok (x, cursor')) :
    (∃ f, f.length < 2 ^ 32 ∧ value.drop cursor = field 4 f ++ value.drop cursor' ∧
        cursor < cursor' ∧ cursor' ≤ value.length) ∨
      ∃ length f, f.length < length ∧ length < 2 ^ 32 ∧
        value.drop cursor = beBytes 4 length ++ f ∧ value.length < cursor' := by
  rw [readField, unpackFromI] at h
  split_ifs at h with hfour
  · rw [ok_bind, Except.ok.injEq, Prod.mk.injEq] at h
    obtain ⟨-, rfl⟩ := h
    have hword : (slice value cursor (cursor + 4)).length = 4 := by
      rw [length_slice]
      omega
    have hlt : beVal (slice value cursor (cursor + 4)) < 2 ^ 32 := by
      have := beVal_lt (slice value cursor (cursor + 4))
      rwa [hword] at this
    have hdrop : value.drop cursor =
        beBytes 4 (beVal (slice value cursor (cursor + 4))) ++ value.drop (cursor + 4) := by
      rw [beBytes_beVal hword, slice, Nat.add_sub_cancel_left, ← List.drop_drop,
        List.take_append_drop]
    generalize beVal (slice value cursor (cursor + 4)) = length at hlt hdrop ⊢
    by_cases hfits : cursor + 4 + length ≤ value.length
    · have hflen : ((value.drop (cursor + 4)).take length).length = length := by
        rw [List.length_take, List.length_drop]
        omega
      refine .inl ⟨(value.drop (cursor + 4)).take length, by rw [hflen]; exact hlt, ?_, by omega,
        hfits⟩
      have hbody := List.take_append_drop length (value.drop (cursor + 4))
      rw [List.drop_drop] at hbody
      rw [field, hflen, List.append_assoc, hbody]
      exact hdrop
    · refine .inr ⟨length, value.drop (cursor + 4), ?_, hlt, hdrop, by omega⟩
      rw [List.length_drop]
      omega
  · cases h

/-! ### The fields of an item -/

theorem skipFields_succ {x : Bytes} (h : readField value cursor = .ok (x, cursor')) (n : ℕ) :
    skipFields (n + 1) value cursor = skipFields n value cursor' := by
  rw [skipFields, h]
  rfl

theorem skipFields_whole {fs : List Bytes} (hfs : ∀ f ∈ fs, f.length < 2 ^ 32) {bs : Bytes}
    (h : value.drop cursor = fields 4 fs ++ bs) :
    skipFields fs.length value cursor = .ok (cursor + (fields 4 fs).length) ∧
      value.drop (cursor + (fields 4 fs).length) = bs := by
  induction fs generalizing cursor with
  | nil => exact ⟨rfl, h⟩
  | cons f fs ih =>
    rw [fields_cons, List.append_assoc] at h
    obtain ⟨hread, hrest⟩ := readField_whole (hfs f (by simp)) h
    obtain ⟨hskip, hend⟩ := ih (fun f hf => hfs f (by simp [hf])) hrest
    rw [Nat.add_assoc, ← List.length_append, ← fields_cons] at hskip hend
    exact ⟨by rw [List.length_cons, skipFields_succ hread, hskip], hend⟩

theorem skipFields_short {fs : List Bytes} (hfs : ∀ f ∈ fs, f.length < 2 ^ 32) {length : ℕ}
    {f : Bytes} (hl : length < 2 ^ 32) (hf : f.length < length)
    (h : value.drop cursor = fields 4 fs ++ (beBytes 4 length ++ f)) :
    ∃ cursor', skipFields (fs.length + 1) value cursor = .ok cursor' ∧ value.length < cursor' := by
  induction fs generalizing cursor with
  | nil =>
    obtain ⟨x, cursor', hread, hlt⟩ := readField_short hl hf h
    exact ⟨cursor', by rw [List.length_nil, skipFields_succ hread]; rfl, hlt⟩
  | cons g fs ih =>
    rw [fields_cons, List.append_assoc] at h
    obtain ⟨hread, hrest⟩ := readField_whole (hfs g (by simp)) h
    obtain ⟨cursor', hskip, hlt⟩ := ih (fun f hf => hfs f (by simp [hf])) hrest
    exact ⟨cursor', by rw [List.length_cons, skipFields_succ hread, hskip], hlt⟩

theorem skipFields_inv (hle : cursor ≤ value.length)
    (h : skipFields n value cursor = .ok cursor') :
    (∃ fs : List Bytes, fs.length = n ∧ (∀ f ∈ fs, f.length < 2 ^ 32) ∧
        value.drop cursor = fields 4 fs ++ value.drop cursor' ∧ cursor + n ≤ cursor' ∧
        cursor' ≤ value.length) ∨
      ∃ (fs : List Bytes) (length : ℕ) (f : Bytes), fs.length + 1 = n ∧
        (∀ f ∈ fs, f.length < 2 ^ 32) ∧ f.length < length ∧ length < 2 ^ 32 ∧
        value.drop cursor = fields 4 fs ++ (beBytes 4 length ++ f) ∧ value.length < cursor' := by
  induction n generalizing cursor with
  | zero =>
    cases h
    exact .inl ⟨[], rfl, by simp, rfl, Nat.le_refl _, hle⟩
  | succ n ih =>
    obtain ⟨⟨x, c⟩, hread, hskip⟩ := bind_eq_ok.1 h
    rcases readField_inv hread with ⟨f, hf, hdrop, hlt, hc⟩ | ⟨length, f, hf, hl, hdrop, hc⟩
    · rcases ih hc hskip with ⟨fs, hlen, hfs, hrest, hlt', hend⟩ |
        ⟨fs, length, f', hlen, hfs, hf', hl, hrest, hend⟩
      · refine .inl ⟨f :: fs, by rw [List.length_cons, hlen], ?_, ?_, by omega, hend⟩
        · intro g hg
          rcases List.mem_cons.1 hg with rfl | hg
          · exact hf
          · exact hfs g hg
        · rw [hdrop, hrest, fields_cons, List.append_assoc]
      · refine .inr ⟨f :: fs, length, f', by rw [List.length_cons, hlen], ?_, hf', hl, ?_, hend⟩
        · intro g hg
          rcases List.mem_cons.1 hg with rfl | hg
          · exact hf
          · exact hfs g hg
        · rw [hdrop, hrest, fields_cons, List.append_assoc]
    · -- behind the end of the value no length can be read
      cases n with
      | zero =>
        cases hskip
        exact .inr ⟨[], length, f, rfl, by simp, hf, hl, hdrop, hc⟩
      | succ n =>
        obtain ⟨⟨y, c'⟩, hread', -⟩ := bind_eq_ok.1 hskip
        rw [readField, unpackFromI, if_neg (by omega)] at hread'
        cases hread'

/-! ### The items -/

theorem four_le_fields {fs : List Bytes} (h : 0 < fs.length) : 4 ≤ (fields 4 fs).length := by
  cases fs with
  | nil => simp at h
  | cons f fs =>
    rw [fields_cons, List.length_append, length_field]
    omega

theorem skipItems_whole (hn : 0 < n) (hle : cursor ≤ value.length)
    (hfuel : value.length - cursor ≤ fuel) (h : Whole n (value.drop cursor)) :
    skipItems n value fuel cursor = .ok value.length := by
  obtain ⟨items, hitems, hdrop⟩ := h
  induction items generalizing cursor fuel with
  | nil =>
    have hend : cursor = value.length := by
      have := congrArg List.length hdrop
      simp at this
      omega
    subst hend
    cases fuel with
    | zero => rfl
    | succ fuel => rw [skipItems, if_neg (by omega)]
  | cons fs items ih =>
    obtain ⟨hlen, hfs⟩ := hitems fs (by simp)
    rw [List.map_cons, List.flatten_cons] at hdrop
    obtain ⟨hskip, hrest⟩ := skipFields_whole hfs hdrop
    have hpos := @four_le_fields fs (by omega)
    have htotal := congrArg List.length hdrop
    rw [List.length_drop, List.length_append] at htotal
    cases fuel with
    | zero => omega
    | succ fuel =>
      rw [skipItems, if_pos (by omega), ← hlen, hskip, ok_bind, hlen]
      exact ih (by omega) (by omega) (fun fs hfs => hitems fs (by simp [hfs])) hrest

theorem skipItems_cutOff (hfuel : value.length - cursor ≤ fuel) (h : CutOff n (value.drop cursor)) :
    ∃ cursor', skipItems n value fuel cursor = .ok cursor' ∧ value.length < cursor' := by
  obtain ⟨items, fs, length, f, hitems, hn, hfs, hf, hl, hdrop⟩ := h
  induction items generalizing cursor fuel with
  | nil =>
    rw [List.map_nil, List.flatten_nil, List.nil_append] at hdrop
    obtain ⟨cursor', hskip, hlt⟩ := skipFields_short hfs hl hf hdrop
    have htotal := congrArg List.length hdrop
    rw [List.length_drop, List.length_append, List.length_append, length_beBytes] at htotal
    refine ⟨cursor', ?_, hlt⟩
    cases fuel with
    | zero => omega
    | succ fuel =>
      rw [skipItems, if_pos (by omega), ← hn, hskip, ok_bind]
      cases fuel with
      | zero => rfl
      | succ fuel => rw [skipItems, if_neg (by omega)]
  | cons gs items ih =>
    obtain ⟨hlen, hgs⟩ := hitems gs (by simp)
    rw [List.map_cons, List.flatten_cons, List.append_assoc] at hdrop
    obtain ⟨hskip, hrest⟩ := skipFields_whole hgs hdrop
    have hpos := @four_le_fields gs (by omega)
    have htotal := congrArg List.length hdrop
    rw [List.length_drop, List.length_append] at htotal
    cases fuel with
    | zero => omega
    | succ fuel =>
      rw [skipItems, if_pos (by omega), ← hlen, hskip, ok_bind, hlen]
      exact ih (by omega) (fun fs hfs => hitems fs (by simp [hfs])) hrest

theorem skipItems_inv (hn : 0 < n) (hle : cursor ≤ value.length) (hfuel : value.length - cursor ≤ fuel)
    (h : skipItems n value fuel cursor = .ok cursor') :
    Whole n (value.drop cursor) ∨ CutOff n (value.drop cursor) := by
  induction fuel generalizing cursor with
  | zero =>
    have hend : value.length ≤ cursor := by omega
    exact .inl ⟨[], by simp, by rw [List.drop_eq_nil_of_le hend]; rfl⟩
  | succ fuel ih =>
    rw [skipItems] at h
    by_cases hc : cursor < value.length
    · rw [if_pos hc] at h
      obtain ⟨c, hskip, hrest⟩ := bind_eq_ok.1 h
      rcases skipFields_inv hle hskip with ⟨fs, hlen, hfs, hdrop, hlt, hend⟩ |
        ⟨fs, length, f, hlen, hfs, hf, hl, hdrop, hend⟩
      · rcases ih hend (by omega) hrest with ⟨items, hitems, he⟩ |
          ⟨items, gs, length, f, hitems, hgs⟩
        · refine .inl ⟨fs :: items, ?_, ?_⟩
          · intro gs hgs
            rcases List.mem_cons.1 hgs with rfl | hgs
            · exact ⟨hlen, hfs⟩
            · exact hitems gs hgs
          · rw [hdrop, he, List.map_cons, List.flatten_cons]
        · obtain ⟨h1, h2, h3, h4, he⟩ := hgs
          refine .inr ⟨fs :: items, gs, length, f, ?_, h1, h2, h3, h4, ?_⟩
          · intro gs hgs
            rcases List.mem_cons.1 hgs with rfl | hgs
            · exact ⟨hlen, hfs⟩
            · exact hitems gs hgs
          · rw [hdrop, he, List.map_cons, List.flatten_cons, List.append_assoc]
      · exact .inr ⟨[], fs, length, f, by simp, hlen, hfs, hf, hl, hdrop⟩
    · exact .inl ⟨[], by simp, by rw [List.drop_eq_nil_of_le (by omega)]; rfl⟩

/-- Items cannot be both: the cursor ends at one place. -/
theorem CutOff.not_whole (hn : 0 < n) {bs : Bytes} (h : CutOff n bs) : ¬ Whole n bs := by
  intro hw
  have hend : skipItems n bs bs.length 0 = .ok bs.length :=
    skipItems_whole hn (Nat.zero_le _) (Nat.sub_le _ _) hw
  have hcut : ∃ cursor', skipItems n bs bs.length 0 = .ok cursor' ∧ bs.length < cursor' :=
    skipItems_cutOff (Nat.sub_le _ _) h
  obtain ⟨cursor', hskip, hlt⟩ := hcut
  rw [hend] at hskip
  cases hskip
  omega

/-- **The items of a value are read** if nothing but its last field is cut short. -/
theorem itemsOf_ok {ι : Type} {read : Bytes → ℕ → Except PyErr (ι × ℕ)} (hread : ReadsFields n read)
    (hn : 0 < n) :
    (∃ xs, itemsOf read value = .ok xs) ↔ Whole n (value.drop 36) ∨ CutOff n (value.drop 36) := by
  rw [itemsOf, readItems_ok hread]
  by_cases hlen : 36 ≤ value.length
  · constructor
    · rintro ⟨cursor', h⟩
      exact skipItems_inv hn hlen (by omega) h
    · rintro (h | h)
      · exact ⟨_, skipItems_whole hn hlen (by omega) h⟩
      · obtain ⟨cursor', h, -⟩ := skipItems_cutOff (Nat.sub_le value.length 36) h
        exact ⟨cursor', h⟩
  · refine iff_of_true ?_ (.inl ⟨[], by simp, by rw [List.drop_eq_nil_of_le (by omega)]; rfl⟩)
    cases hfuel : value.length with
    | zero => exact ⟨36, rfl⟩
    | succ fuel => exact ⟨36, by rw [skipItems, if_neg (by omega)]⟩

end

/-! ## The fields of a checkpoint -/

/-- The types that come in pairs: a key and its value, an address and its uuid. -/
def pairedTypes : List (UInt8 × UInt8) := [(0x10, 0x11), (0x20, 0x21)]

/-- The types of the fields with items behind a uuid, and the fields of an item. -/
def itemTypes : List (UInt8 × ℕ) := [(0x31, 1), (0x32, 4), (0x33, 3)]

/-- The types that `serialize` writes. -/
def knownTypes : List UInt8 := [0x10, 0x11, 0x20, 0x21, 0x30, 0x31, 0x32, 0x33]

/-- A field of type `a` waits for one of type `b`. -/
def Pending (a b : UInt8) (before : List Field) : Prop :=
  ∃ l v m, before = l ++ (a, v) :: m ∧ ∀ x ∈ m, x.1 ≠ b

/-- The value of a field with items: a uuid that was read, and items of which the last field may
    be cut short. -/
def Readable (n : ℕ) (before : List Field) (value : Bytes) : Prop :=
  (0x30, value.take 36) ∈ before ∧ (Whole n (value.drop 36) ∨ CutOff n (value.drop 36))

/-- What the checks of `deserialize` let through behind other fields. -/
def Acceptable (before : List Field) (x : Field) : Prop :=
  if x.1 = 0x11 then Pending 0x10 0x11 before
  else if x.1 = 0x20 then 4 ≤ x.2.length
  else if x.1 = 0x21 then Pending 0x20 0x21 before
  else if x.1 = 0x31 then Readable 1 before x.2
  else if x.1 = 0x32 then Readable 4 before x.2
  else if x.1 = 0x33 then Readable 3 before x.2
  else True

/-- The maps agree with the fields that were read. -/
structure Restored (st : Restoring K) (before : List Field) : Prop where
  key : st.pendingDbKey.isSome ↔ Pending 0x10 0x11 before
  address : st.pendingAddress.isSome ↔ Pending 0x20 0x21 before
  clients : ∀ uuid, latin1Decode uuid ∈ st.clientDb ↔ (0x30, uuid) ∈ before

section
variable {st st' : Restoring K} {before : List Field} {x : Field} {a b t : UInt8} {v : Bytes}

theorem not_pending_nil : ¬ Pending a b [] := by
  rintro ⟨l, v, m, h, -⟩
  simp at h

theorem pending_snoc (hab : a ≠ b) :
    Pending a b (before ++ [x]) ↔ x.1 = a ∨ x.1 ≠ b ∧ Pending a b before := by
  constructor
  · rintro ⟨l, v, m, h, hm⟩
    rcases m.eq_nil_or_concat with rfl | ⟨m, y, rfl⟩
    · obtain ⟨rfl, hx⟩ := List.append_inj' h rfl
      cases hx
      exact .inl rfl
    · rw [List.concat_eq_append, ← List.cons_append, ← List.append_assoc] at h
      obtain ⟨rfl, hx⟩ := List.append_inj' h rfl
      cases hx
      exact .inr ⟨hm x (by simp), l, v, m, rfl, fun y hy => hm y (by simp [hy])⟩
  · rintro (rfl | ⟨hx, l, v, m, rfl, hm⟩)
    · exact ⟨before, x.2, [], rfl, by simp⟩
    · refine ⟨l, v, m ++ [x], by simp, ?_⟩
      intro y hy
      rcases List.mem_append.1 hy with hy | hy
      · exact hm y hy
      · rw [List.mem_singleton.1 hy]
        exact hx

theorem Restored.mem (h : Restored st before) {uuid : Bytes} {cl : Client K}
    (hcl : st.clientDb.get? (latin1Decode uuid) = some cl) : (0x30, uuid) ∈ before :=
  (h.clients uuid).1 (Dict.mem_of_get? hcl)

theorem Restored.not_mem (h : Restored st before) {uuid : Bytes}
    (hcl : st.clientDb.get? (latin1Decode uuid) = none) : (0x30, uuid) ∉ before := by
  rw [← h.clients uuid]
  exact Dict.get?_eq_none.1 hcl

/-- A field with items. -/
theorem readable_ok {ι : Type} {read : Bytes → ℕ → Except PyErr (ι × ℕ)} {n : ℕ}
    (h : Restored st before) (hread : ReadsFields n read) (hn : 0 < n) {e : PyErr}
    {f : Client K → List ι → Restoring K} :
    (∃ st', (match st.clientDb.get? (latin1Decode (v.take 36)) with
      | none => .error e
      | some cl => do
        let xs ← itemsOf read v
        .ok (f cl xs) : Except PyErr (Restoring K)) = .ok st') ↔ Readable n before v := by
  rw [Readable, ← itemsOf_ok hread hn]
  rcases hcl : st.clientDb.get? (latin1Decode (v.take 36)) with _ | cl
  · refine iff_of_false ?_ fun hr => h.not_mem hcl hr.1
    rintro ⟨st', he⟩
    cases he
  · constructor
    · rintro ⟨st', he⟩
      obtain ⟨xs, hxs, -⟩ := bind_eq_ok.1 he
      exact ⟨h.mem hcl, xs, hxs⟩
    · rintro ⟨-, xs, hxs⟩
      exact ⟨f cl xs, bind_eq_ok.2 ⟨xs, hxs, rfl⟩⟩

/-- **A field is taken** exactly if the checks let it through. -/
theorem restoreField_ok (h : Restored st before) :
    (∃ st', restoreField st t v = .ok st') ↔ Acceptable before (t, v) := by
  unfold restoreField Acceptable
  by_cases h10 : t = 0x10
  · subst h10
    exact iff_of_true ⟨_, rfl⟩ trivial
  by_cases h11 : t = 0x11
  · subst h11
    rw [if_neg h10, if_pos rfl, if_pos rfl, ← h.key]
    rcases st.pendingDbKey with _ | key
    · refine iff_of_false ?_ (by simp)
      rintro ⟨st', he⟩
      cases he
    · exact iff_of_true ⟨_, rfl⟩ rfl
  by_cases h20 : t = 0x20
  · subst h20
    rw [if_neg h10, if_neg h11, if_pos rfl, if_neg h11, if_pos rfl, unpackFromI]
    by_cases hlen : 4 ≤ v.length
    · rw [if_pos (by omega)]
      exact iff_of_true ⟨_, rfl⟩ hlen
    · rw [if_neg (by omega)]
      refine iff_of_false ?_ hlen
      rintro ⟨st', he⟩
      cases he
  by_cases h21 : t = 0x21
  · subst h21
    rw [if_neg h10, if_neg h11, if_neg h20, if_pos rfl, if_neg h11, if_neg h20, if_pos rfl,
      ← h.address]
    rcases st.pendingAddress with _ | address
    · refine iff_of_false ?_ (by simp)
      rintro ⟨st', he⟩
      cases he
    · exact iff_of_true ⟨_, rfl⟩ rfl
  by_cases h30 : t = 0x30
  · subst h30
    exact iff_of_true ⟨_, rfl⟩ trivial
  rw [if_neg h10, if_neg h11, if_neg h20, if_neg h21, if_neg h30, if_neg h11, if_neg h20,
    if_neg h21]
  by_cases h31 : t = 0x31
  · subst h31
    rw [if_pos rfl, if_pos rfl]
    exact readable_ok h readAddress_reads (by decide)
  by_cases h32 : t = 0x32
  · subst h32
    rw [if_neg h31, if_pos rfl, if_neg h31, if_pos rfl]
    exact readable_ok h readRequest_reads (by decide)
  by_cases h33 : t = 0x33
  · subst h33
    rw [if_neg h31, if_neg h32, if_pos rfl, if_neg h31, if_neg h32, if_pos rfl]
    exact readable_ok h readResponse_reads (by decide)
  · rw [if_neg h31, if_neg h32, if_neg h33, if_neg h31, if_neg h32, if_neg h33]
    exact iff_of_true ⟨_, rfl⟩ trivial

/-- What a field does to the maps, as far as later checks can tell. -/
theorem Restored.snoc (h : Restored st before)
    (hkey : st'.pendingDbKey.isSome ↔ t = 0x10 ∨ t ≠ 0x11 ∧ st.pendingDbKey.isSome)
    (haddress : st'.pendingAddress.isSome ↔ t = 0x20 ∨ t ≠ 0x21 ∧ st.pendingAddress.isSome)
    (hclients : ∀ uuid, latin1Decode uuid ∈ st'.clientDb ↔
      latin1Decode uuid ∈ st.clientDb ∨ t = 0x30 ∧ v = uuid) :
    Restored st' (before ++ [(t, v)]) where
  key := by rw [hkey, pending_snoc (by decide), h.key]
  address := by rw [haddress, pending_snoc (by decide), h.address]
  clients uuid := by
    rw [hclients, h.clients, List.mem_append, List.mem_singleton, Prod.mk.injEq]
    constructor
    · rintro (hm | ⟨rfl, rfl⟩)
      · exact .inl hm
      · exact .inr ⟨rfl, rfl⟩
    · rintro (hm | ⟨ht, hv⟩)
      · exact .inl hm
      · exact .inr ⟨ht.symm, hv.symm⟩

/-- Assigning a client that is there. -/
theorem Restored.setClient (h : Restored st before) {uuid : PyStr} {cl cl' : Client K}
    (hcl : st.clientDb.get? uuid = some cl) (h10 : t ≠ 0x10) (h11 : t ≠ 0x11) (h20 : t ≠ 0x20)
    (h21 : t ≠ 0x21) (h30 : t ≠ 0x30) :
    Restored (st.setClient uuid cl') (before ++ [(t, v)]) := by
  refine h.snoc ?_ ?_ ?_
  · simp [Restoring.setClient, h10, h11]
  · simp [Restoring.setClient, h20, h21]
  · intro uuid'
    have hmem : latin1Decode uuid' ∈ (st.setClient uuid cl').clientDb ↔
        latin1Decode uuid' = uuid ∨ latin1Decode uuid' ∈ st.clientDb := Dict.mem_set
    rw [hmem]
    constructor
    · rintro (he | hm)
      · rw [he]
        exact .inl (Dict.mem_of_get? hcl)
      · exact .inl hm
    · rintro (hm | ⟨ht, -⟩)
      · exact .inr hm
      · exact absurd ht h30

theorem restoreField_restored (h : Restored st before) (he : restoreField st t v = .ok st') :
    Restored st' (before ++ [(t, v)]) := by
  unfold restoreField at he
  by_cases h10 : t = 0x10
  · subst h10
    cases he
    exact h.snoc (by simp) (by simp) (by simp)
  by_cases h11 : t = 0x11
  · subst h11
    rw [if_neg h10, if_pos rfl] at he
    rcases hkey : st.pendingDbKey with _ | key
    · rw [hkey] at he
      cases he
    · rw [hkey] at he
      cases he
      exact h.snoc (by simp) (by simp) (by simp)
  by_cases h20 : t = 0x20
  · subst h20
    rw [if_neg h10, if_neg h11, if_pos rfl] at he
    obtain ⟨n, -, he⟩ := bind_eq_ok.1 he
    cases he
    exact h.snoc (by simp) (by simp) (by simp)
  by_cases h21 : t = 0x21
  · subst h21
    rw [if_neg h10, if_neg h11, if_neg h20, if_pos rfl] at he
    rcases haddress : st.pendingAddress with _ | address
    · rw [haddress] at he
      cases he
    · rw [haddress] at he
      cases he
      exact h.snoc (by simp) (by simp) (by simp)
  by_cases h30 : t = 0x30
  · subst h30
    cases he
    refine h.snoc (by simp [Restoring.setClient]) (by simp [Restoring.setClient]) fun uuid => ?_
    have hmem : latin1Decode uuid ∈ (st.setClient (latin1Decode v)
          (.preset (latin1Decode v) [] [] .empty)).clientDb ↔
        latin1Decode uuid = latin1Decode v ∨ latin1Decode uuid ∈ st.clientDb := Dict.mem_set
    rw [hmem]
    constructor
    · rintro (he | hm)
      · exact .inr ⟨rfl, (latin1Decode_inj he).symm⟩
      · exact .inl hm
    · rintro (hm | ⟨-, rfl⟩)
      · exact .inr hm
      · exact .inl rfl
  rw [if_neg h10, if_neg h11, if_neg h20, if_neg h21, if_neg h30] at he
  have hitems : ∀ {ι : Type} {read : Bytes → ℕ → Except PyErr (ι × ℕ)} {e : PyErr}
      {f : Client K → List ι → Client K},
      (match st.clientDb.get? (latin1Decode (v.take 36)) with
        | none => .error e
        | some cl => do
          let xs ← itemsOf read v
          .ok (st.setClient (latin1Decode (v.take 36)) (f cl xs)) : Except PyErr (Restoring K)) =
        .ok st' → Restored st' (before ++ [(t, v)]) := by
    intro ι read e f he
    rcases hcl : st.clientDb.get? (latin1Decode (v.take 36)) with _ | cl
    · rw [hcl] at he
      cases he
    · rw [hcl] at he
      obtain ⟨xs, -, he⟩ := bind_eq_ok.1 he
      cases he
      exact h.setClient hcl h10 h11 h20 h21 h30
  by_cases h31 : t = 0x31
  · rw [if_pos h31] at he
    exact hitems he
  rw [if_neg h31] at he
  by_cases h32 : t = 0x32
  · rw [if_pos h32] at he
    exact hitems he
  rw [if_neg h32] at he
  by_cases h33 : t = 0x33
  · rw [if_pos h33] at he
    exact hitems he
  · rw [if_neg h33] at he
    cases he
    refine h.snoc (by simp [h10, h11]) (by simp [h20, h21]) ?_
    intro uuid
    simp [h30]

/-- **The fields are taken** if there are as many types as values and every one passes. -/
theorem restoreFields_ok {ts : List UInt8} {vs : List Bytes} (h : Restored st before) :
    (∃ st', restoreFields st ts vs = .ok st') ↔ ts.length = vs.length ∧
      Lts.Each (fun b x => Acceptable (before ++ b) x) (ts.zip vs) := by
  induction ts generalizing st before vs with
  | nil =>
    cases vs with
    | nil => exact iff_of_true ⟨st, rfl⟩ ⟨rfl, .nil⟩
    | cons v vs =>
      refine iff_of_false ?_ (by simp)
      rintro ⟨st', he⟩
      cases he
  | cons t ts ih =>
    cases vs with
    | nil =>
      refine iff_of_false ?_ (by simp)
      rintro ⟨st', he⟩
      cases he
    | cons v vs =>
      rw [List.zip_cons_cons, Lts.each_cons, List.append_nil, ← restoreField_ok h, restoreFields,
        List.length_cons, List.length_cons, Nat.add_right_cancel_iff]
      have hassoc : (fun b x => Acceptable (before ++ (t, v) :: b) x) =
          fun b x => Acceptable (before ++ [(t, v)] ++ b) x := by
        funext b x
        rw [List.append_assoc]
        rfl
      rw [hassoc]
      constructor
      · rintro ⟨st', he⟩
        obtain ⟨st₁, he₁, he⟩ := bind_eq_ok.1 he
        obtain ⟨hlen, heach⟩ := (ih (restoreField_restored h he₁)).1 ⟨st', he⟩
        exact ⟨hlen, ⟨st₁, he₁⟩, heach⟩
      · rintro ⟨hlen, ⟨st₁, he₁⟩, heach⟩
        obtain ⟨st', he⟩ := (ih (restoreField_restored h he₁)).2 ⟨hlen, heach⟩
        exact ⟨st', bind_eq_ok.2 ⟨st₁, he₁, he⟩⟩

end

/-! ## The tables -/

/-- The three lengths at the start. -/
def headerWord (sd : Bytes) (i : ℕ) : ℕ := (wordsI 3 sd).getD i 0

def tableOfT (sd : Bytes) : Bytes := slice sd 12 (12 + headerWord sd 0)

def tableOfL (sd : Bytes) : Bytes :=
  slice sd (12 + headerWord sd 0) (12 + headerWord sd 0 + headerWord sd 1)

def tableOfV (sd : Bytes) : Bytes :=
  slice sd (12 + headerWord sd 0 + headerWord sd 1)
    (12 + headerWord sd 0 + headerWord sd 1 + headerWord sd 2)

/-- The entries of the length table. -/
def entries (sd : Bytes) : ℕ := (headerWord sd 1 + 3) / 4

def lengthsIn (sd : Bytes) : List ℕ := wordsI (entries sd) (tableOfL sd)

def valuesIn (sd : Bytes) : List Bytes := slices (tableOfV sd) (lengthsIn sd) 0

def fieldsIn (sd : Bytes) : List Field := (tableOfT sd).zip (valuesIn sd)

/-- **The checks of `deserialize`** on data with the content `sd`. -/
structure Admitted (L : Libs K) (data sd : Bytes) : Prop where
  magic : 4 ≤ data.length ∧ beVal (data.take 4) = CHECKPOINT_MAGIC
  content : L.decompress (data.drop 4) = some sd
  header : 12 ≤ sd.length
  lengths : 4 * entries sd ≤ (tableOfL sd).length
  types : (tableOfT sd).length = entries sd
  fields : Lts.Each Acceptable (fieldsIn sd)

theorem readLengths_ok {l : Bytes} {ns : List ℕ} : ∀ {n i : ℕ}, readLengths l n i = .ok ns ↔
    (n = 0 ∨ i + 4 * n ≤ l.length) ∧ ns = wordsI n (l.drop i) := by
  intro n
  induction n generalizing ns with
  | zero =>
    intro i
    constructor
    · intro h
      cases h
      exact ⟨.inl rfl, rfl⟩
    · rintro ⟨-, rfl⟩
      rfl
  | succ n ih =>
    intro i
    rw [readLengths, unpackFromI, wordsI, List.drop_drop]
    by_cases hi : i + 4 ≤ l.length
    · rw [if_pos hi, ok_bind, slice, Nat.add_sub_cancel_left]
      constructor
      · intro h
        obtain ⟨rest, hrest, he⟩ := bind_eq_ok.1 h
        cases he
        obtain ⟨hlen, rfl⟩ := ih.1 hrest
        exact ⟨.inr (by omega), rfl⟩
      · rintro ⟨hlen, rfl⟩
        exact bind_eq_ok.2 ⟨_, ih.2 ⟨by omega, rfl⟩, rfl⟩
    · rw [if_neg hi]
      refine iff_of_false ?_ (by omega)
      intro h
      cases h

theorem restored_empty : Restored (⟨⟨.empty, .empty, .empty⟩, none, none⟩ : Restoring K) [] where
  key := iff_of_false (by simp) not_pending_nil
  address := iff_of_false (by simp) not_pending_nil
  clients uuid := iff_of_false (Dict.not_mem_empty _) (by simp)

theorem restore_ok {sd : Bytes} : (∃ R : Snapshot K, restore sd = .ok R) ↔ 12 ≤ sd.length ∧
    4 * entries sd ≤ (tableOfL sd).length ∧ (tableOfT sd).length = entries sd ∧
      Lts.Each Acceptable (fieldsIn sd) := by
  unfold restore unpackFrom0
  by_cases hheader : 12 ≤ sd.length
  · rw [if_pos (by omega), ok_bind]
    have hlen : (valuesIn sd).length = entries sd := by
      rw [valuesIn, length_slices, lengthsIn, length_wordsI]
    have hfields : (∃ st', restoreFields _ (tableOfT sd) (valuesIn sd) = .ok st') ↔ _ :=
      restoreFields_ok (restored_empty (K := K))
    rw [hlen] at hfields
    constructor
    · rintro ⟨R, h⟩
      obtain ⟨ns, hns, h⟩ := bind_eq_ok.1 h
      obtain ⟨hle, rfl⟩ := readLengths_ok.1 hns
      obtain ⟨st, hst, -⟩ := bind_eq_ok.1 h
      obtain ⟨htypes, heach⟩ := hfields.1 ⟨st, hst⟩
      have hle : entries sd = 0 ∨ 0 + 4 * entries sd ≤ (tableOfL sd).length := hle
      exact ⟨hheader, by omega, htypes, heach⟩
    · rintro ⟨-, hle, htypes, heach⟩
      obtain ⟨st, hst⟩ := hfields.2 ⟨htypes, heach⟩
      have hlengths : readLengths (tableOfL sd) (entries sd) 0 = .ok (lengthsIn sd) :=
        readLengths_ok.2 ⟨.inr (by omega), rfl⟩
      exact ⟨st.toSnapshot, bind_eq_ok.2 ⟨_, hlengths, bind_eq_ok.2 ⟨st, hst, rfl⟩⟩⟩
  · rw [if_neg (by omega)]
    refine iff_of_false ?_ fun h => hheader h.1
    rintro ⟨R, h⟩
    cases h

/-- **What `deserialize` takes.** -/
theorem deserialize_ok {L : Libs K} {data : Bytes} :
    (∃ R, deserialize L data = .ok R) ↔ ∃ sd, Admitted L data sd := by
  unfold deserialize unpackFromI
  by_cases hfour : 4 ≤ data.length
  · rw [if_pos (by omega), ok_bind, slice_zero]
    by_cases hmagic : beVal (data.take 4) = CHECKPOINT_MAGIC
    · rw [if_neg (not_not.2 hmagic)]
      rcases hsd : L.decompress (data.drop 4) with _ | sd
      · refine iff_of_false ?_ ?_
        · rintro ⟨R, h⟩
          cases h
        · rintro ⟨sd, h⟩
          rw [h.content] at hsd
          cases hsd
      · show (∃ R : Snapshot K, restore sd = .ok R) ↔ _
        rw [restore_ok]
        constructor
        · rintro ⟨h12, hlengths, htypes, hfields⟩
          exact ⟨sd, ⟨hfour, hmagic⟩, hsd, h12, hlengths, htypes, hfields⟩
        · rintro ⟨sd', h⟩
          have he := h.content
          rw [hsd] at he
          cases he
          exact ⟨h.header, h.lengths, h.types, h.fields⟩
    · rw [if_pos hmagic]
      refine iff_of_false ?_ fun ⟨sd, h⟩ => hmagic h.magic.2
      rintro ⟨R, h⟩
      cases h
  · rw [if_neg (by omega)]
    refine iff_of_false ?_ fun ⟨sd, h⟩ => hfour h.magic.1
    rintro ⟨R, h⟩
    cases h

/-! ## Nothing cut short or dropped -/

/-- Every field of type `a` is followed by one of type `b` before the next of type `a`. -/
def Followed (a b : UInt8) (fs : List Field) : Prop :=
  ∀ l v m, fs = l ++ (a, v) :: m → ∃ mid w rest, m = mid ++ (b, w) :: rest ∧ ∀ x ∈ mid, x.1 ≠ a

/-- **Nothing is cut short or dropped.** -/
structure Intact (sd : Bytes) : Prop where
  backed : (valuesIn sd).map List.length = lengthsIn sd
  used : (valuesIn sd).flatten = tableOfV sd
  paired : ∀ p ∈ pairedTypes, Followed p.1 p.2 (fieldsIn sd)
  known : ∀ x ∈ fieldsIn sd, x.1 ∈ knownTypes
  key : ∀ v, (0x20, v) ∈ fieldsIn sd → ∃ key : Bytes, key.length < 2 ^ 32 ∧ v = field 4 key
  items : ∀ p ∈ itemTypes, ∀ v, (p.1, v) ∈ fieldsIn sd → Whole p.2 (v.drop 36)

/-- **What the checks do not see.** -/
inductive Slip (sd : Bytes) : Prop
  /-- the lengths do not add up to the length of the value table -/
  | lengths : (lengthsIn sd).sum ≠ (tableOfV sd).length → Slip sd
  /-- a key or an address is replaced before its value comes, or no value comes -/
  | single {p : UInt8 × UInt8} {l m : List Field} {v : Bytes} : p ∈ pairedTypes →
      fieldsIn sd = l ++ (p.1, v) :: m →
      (∀ mid w rest, m = mid ++ (p.2, w) :: rest → ∃ x ∈ mid, x.1 = p.1) → Slip sd
  | unknown {x : Field} : x ∈ fieldsIn sd → x.1 ∉ knownTypes → Slip sd
  /-- an address is not as long as its length says -/
  | key {v : Bytes} : (0x20, v) ∈ fieldsIn sd → v.length ≠ 4 + beVal (v.take 4) → Slip sd
  /-- the last item is cut short in its last field -/
  | items {p : UInt8 × ℕ} {v : Bytes} : p ∈ itemTypes → (p.1, v) ∈ fieldsIn sd →
      CutOff p.2 (v.drop 36) → Slip sd

section
variable {L : Libs K} {data sd : Bytes}

theorem itemTypes_pos : ∀ p ∈ itemTypes, 0 < p.2 := by decide

/-- The items of an accepted field. -/
theorem Admitted.readable (h : Admitted L data sd) {p : UInt8 × ℕ} (hp : p ∈ itemTypes) {v : Bytes}
    (hv : (p.1, v) ∈ fieldsIn sd) : Whole p.2 (v.drop 36) ∨ CutOff p.2 (v.drop 36) := by
  obtain ⟨before, after, he⟩ := List.append_of_mem hv
  have hacc := h.fields before (p.1, v) after he
  simp only [itemTypes, List.mem_cons, List.not_mem_nil, or_false] at hp
  unfold Acceptable at hacc
  rcases hp with rfl | rfl | rfl
  · exact And.right hacc
  · exact And.right hacc
  · exact And.right hacc

theorem key_iff {v : Bytes} (hlen : 4 ≤ v.length) :
    (∃ key : Bytes, key.length < 2 ^ 32 ∧ v = field 4 key) ↔ v.length = 4 + beVal (v.take 4) := by
  have htake : (v.take 4).length = 4 := by
    rw [List.length_take]
    omega
  constructor
  · rintro ⟨key, hkey, rfl⟩
    rw [field, List.take_left' (length_beBytes 4 key.length), beVal_beBytes4 hkey,
      List.length_append, length_beBytes]
  · intro h
    have hlt := beVal_lt (v.take 4)
    rw [htake] at hlt
    have hdrop : (v.drop 4).length = beVal (v.take 4) := by
      rw [List.length_drop]
      omega
    refine ⟨v.drop 4, by rw [hdrop]; exact hlt, ?_⟩
    rw [field, hdrop, beBytes_beVal htake, List.take_append_drop]

/-- **Intact or slipped**, for data that is taken. -/
theorem Admitted.intact_iff (h : Admitted L data sd) : Intact sd ↔ ¬ Slip sd := by
  constructor
  · rintro hi (hsum | ⟨hp, he, hsingle⟩ | ⟨hx, hunknown⟩ | ⟨hv, hkey⟩ | ⟨hp, hv, hcut⟩)
    · apply hsum
      rw [← hi.used, List.length_flatten, hi.backed]
    · obtain ⟨mid, w, rest, hm, hmid⟩ := hi.paired _ hp _ _ _ he
      obtain ⟨x, hx, hx'⟩ := hsingle mid w rest hm
      exact hmid x hx hx'
    · exact hunknown (hi.known _ hx)
    · obtain ⟨key, hlt, rfl⟩ := hi.key _ hv
      exact hkey ((key_iff (by rw [length_field]; omega)).1 ⟨key, hlt, rfl⟩)
    · exact hcut.not_whole (itemTypes_pos _ hp) (hi.items _ hp _ hv)
  · intro hslip
    have hsum : (lengthsIn sd).sum = (tableOfV sd).length := by
      by_contra hne
      exact hslip (.lengths hne)
    have hslices : 0 + (lengthsIn sd).sum ≤ (tableOfV sd).length := by omega
    obtain ⟨hbacked, hused⟩ := slices_whole hslices
    rw [hsum, List.drop_zero, List.take_length] at hused
    refine ⟨hbacked, hused, ?_, ?_, ?_, ?_⟩
    · intro p hp l v m he
      by_contra hno
      refine hslip (.single hp he fun mid w rest hm => ?_)
      by_contra hx
      exact hno ⟨mid, w, rest, hm, fun x hx' hxa => hx ⟨x, hx', hxa⟩⟩
    · intro x hx
      by_contra hunknown
      exact hslip (.unknown hx hunknown)
    · intro v hv
      obtain ⟨before, after, he⟩ := List.append_of_mem hv
      have hlen : 4 ≤ v.length := h.fields before (0x20, v) after he
      rw [key_iff hlen]
      by_contra hkey
      exact hslip (.key hv hkey)
    · intro p hp v hv
      rcases h.readable hp hv with hw | hcut
      · exact hw
      · exact absurd (.items hp hv hcut) hslip

/-- **No silent truncation**: a checkpoint that is restored is intact, if and only if it has no
    slip or does not pass the checks. -/
theorem no_truncation_iff (L : Libs K) (data : Bytes) :
    (∀ R, deserialize L data = .ok R → ∃ sd, L.decompress (data.drop 4) = some sd ∧ Intact sd) ↔
      ∀ sd, Admitted L data sd → ¬ Slip sd := by
  constructor
  · intro h sd hacc
    obtain ⟨R, hR⟩ := deserialize_ok.2 ⟨sd, hacc⟩
    obtain ⟨sd', hsd', hi⟩ := h R hR
    rw [hacc.content] at hsd'
    cases hsd'
    exact hacc.intact_iff.1 hi
  · intro h R hR
    obtain ⟨sd, hacc⟩ := deserialize_ok.1 ⟨R, hR⟩
    exact ⟨sd, hacc.content, hacc.intact_iff.2 (h sd hacc)⟩

end

/-- A checkpoint with one field: a database key without a value. -/
def singleKey : Bytes :=
  beBytes 4 CHECKPOINT_MAGIC ++ stubCompress (joined [0x10] [0, 0, 0, 1] [107])

/-- **The key is dropped**: an empty database is restored from it. -/
theorem single_key_dropped : ∃ R : Snapshot ℕ, deserialize stub singleKey = .ok R ∧ R.db.items = [] ∧
    ∀ sd, stub.decompress (singleKey.drop 4) = some sd → ¬ Intact sd := by
  refine ⟨_, rfl, rfl, ?_⟩
  intro sd hsd hi
  cases hsd
  obtain ⟨mid, w, rest, hm, -⟩ := hi.paired (0x10, 0x11) (by decide) [] [107] [] rfl
  simp at hm

end Pipebomb
