/-
  The parts of Python and of its standard library that the code rests on: exceptions,
  strings and latin-1, `struct`, `int.to_bytes`, `zlib.crc32`, `uuid4` and `json.dumps`.

  A Python string is its list of code points (`PyStr`); latin-1 maps the code points
  below 256 to bytes and back (`latin1Encode_decode`, `latin1Decode_latin1`).
-/
import Pipebomb.Lib.Bytes

namespace Pipebomb

open ByteString

/-- The exceptions the code raises or lets through. -/
inductive PyErr where
  | valueError (msg : String)
  | runtimeError (msg : String)
  | keyError
  | structError
  | typeError
  | indexError
  | overflowError
  | attributeError
  | unicodeEncodeError
  | osError
  | zstdError
  | cancelled
  deriving DecidableEq, Repr

@[simp] theorem ok_bind {α β : Type} (a : α) (f : α → Except PyErr β) :
    ((Except.ok a : Except PyErr α) >>= f) = f a := rfl

@[simp] theorem error_bind {α β : Type} (e : PyErr) (f : α → Except PyErr β) :
    ((Except.error e : Except PyErr α) >>= f) = .error e := rfl

theorem bind_eq_ok {ε α β : Type} {x : Except ε α} {f : α → Except ε β} {b : β} :
    (x >>= f) = .ok b ↔ ∃ a, x = .ok a ∧ f a = .ok b := by
  cases x with
  | error e => exact ⟨fun h => (by cases h), fun ⟨_, h, _⟩ => (by cases h)⟩
  | ok a => exact ⟨fun h => ⟨a, rfl, h⟩, fun ⟨_, h, h'⟩ => by cases h; exact h'⟩

/-! ## Strings -/

/-- A Python string. -/
abbrev PyStr := List Char

instance : LawfulBEq PyStr := inferInstance

/-- `s.encode("latin1")` of one character. -/
def latin1Char (c : Char) : Except PyErr UInt8 :=
  if c.toNat < 256 then .ok (UInt8.ofNat c.toNat) else .error .unicodeEncodeError

/-- `s.encode("latin1")`. -/
def latin1Encode : PyStr → Except PyErr Bytes
  | [] => .ok []
  | c :: s => match latin1Char c, latin1Encode s with
    | .ok b, .ok bs => .ok (b :: bs)
    | .error e, _ => .error e
    | _, .error e => .error e

/-- `bs.decode("latin1")`. -/
def latin1Decode (bs : Bytes) : PyStr := bs.map fun b => Char.ofNat b.toNat

/-- Every character fits in latin-1. -/
def Latin1 (s : PyStr) : Prop := ∀ c ∈ s, c.toNat < 256

instance (s : PyStr) : Decidable (Latin1 s) := List.decidableBAll (fun c : Char => c.toNat < 256) s

/-- The bytes of a latin-1 string. -/
def latin1 (s : PyStr) : Bytes := s.map fun c => UInt8.ofNat c.toNat

theorem latin1Encode_eq {s : PyStr} (h : Latin1 s) : latin1Encode s = .ok (latin1 s) := by
  induction s with
  | nil => rfl
  | cons c s ih =>
    have hc : c.toNat < 256 := h c (by simp)
    have hs : Latin1 s := fun d hd => h d (by simp [hd])
    simp only [latin1Encode, latin1Char, if_pos hc, ih hs, latin1, List.map_cons]

theorem latin1Encode_ok {s : PyStr} : ∀ {bs : Bytes}, latin1Encode s = .ok bs →
    Latin1 s ∧ bs = latin1 s := by
  induction s with
  | nil =>
    intro bs h
    cases h
    exact ⟨by simp [Latin1], rfl⟩
  | cons c s ih =>
    intro bs h
    by_cases hc : c.toNat < 256
    · rcases hs : latin1Encode s with e | bs'
      · simp [latin1Encode, latin1Char, hc, hs] at h
      · obtain ⟨hl, rfl⟩ := ih hs
        have hcs : Latin1 (c :: s) := by
          intro d hd
          rcases List.mem_cons.1 hd with rfl | hd
          · exact hc
          · exact hl d hd
        rw [latin1Encode_eq hcs] at h
        exact ⟨hcs, (Except.ok.inj h).symm⟩
    · rcases hs : latin1Encode s with e | bs'
      · simp [latin1Encode, latin1Char, hc] at h
      · simp [latin1Encode, latin1Char, hc] at h

theorem toNat_ofNat_byte (b : UInt8) : (Char.ofNat b.toNat).toNat = b.toNat := by
  have hb := b.toNat_lt
  have hv : b.toNat.isValidChar := Or.inl (by omega)
  rw [Char.ofNat, dif_pos hv]
  simp only [Char.ofNatAux, Char.toNat, UInt32.toNat]
  rfl

theorem ofNat_toNat (c : Char) : Char.ofNat c.toNat = c := by
  have hv : c.toNat.isValidChar := c.valid
  rw [Char.ofNat, dif_pos hv]
  rfl

theorem latin1_latin1Decode (bs : Bytes) : latin1 (latin1Decode bs) = bs := by
  simp only [latin1, latin1Decode, List.map_map]
  refine (List.map_congr_left fun b _ => ?_).trans (List.map_id bs)
  simp [toNat_ofNat_byte]

theorem latin1_decode (bs : Bytes) : Latin1 (latin1Decode bs) := by
  intro c hc
  obtain ⟨b, -, rfl⟩ := List.mem_map.1 hc
  rw [toNat_ofNat_byte]
  exact b.toNat_lt

/-- Decoding and encoding again gives the bytes back. -/
theorem latin1Encode_decode (bs : Bytes) : latin1Encode (latin1Decode bs) = .ok bs := by
  rw [latin1Encode_eq (latin1_decode bs), latin1_latin1Decode]

/-- Encoding a latin-1 string and decoding gives the string back. -/
theorem latin1Decode_latin1 {s : PyStr} (h : Latin1 s) : latin1Decode (latin1 s) = s := by
  simp only [latin1, latin1Decode, List.map_map]
  refine (List.map_congr_left fun c hc => ?_).trans (List.map_id s)
  have hc' := h c hc
  simp only [Function.comp_apply, UInt8.toNat_ofNat', id_eq]
  rw [Nat.mod_eq_of_lt (by omega), ofNat_toNat]

theorem latin1Decode_inj {bs bs' : Bytes} (h : latin1Decode bs = latin1Decode bs') : bs = bs' := by
  rw [← latin1_latin1Decode bs, h, latin1_latin1Decode]

@[simp] theorem length_latin1 (s : PyStr) : (latin1 s).length = s.length := by simp [latin1]

@[simp] theorem length_latin1Decode (bs : Bytes) : (latin1Decode bs).length = bs.length := by
  simp [latin1Decode]

/-! ## `struct` and `int.to_bytes` -/

/-- `struct.pack(">I", n)`. -/
def packI (n : ℕ) : Except PyErr Bytes :=
  if n < 2 ^ 32 then .ok (beBytes 4 n) else .error .structError

theorem packI_eq {n : ℕ} (h : n < 2 ^ 32) : packI n = .ok (beBytes 4 n) := if_pos h

theorem packI_ok {n : ℕ} {bs : Bytes} : packI n = .ok bs ↔ n < 2 ^ 32 ∧ bs = beBytes 4 n := by
  unfold packI
  split_ifs with h
  · exact ⟨fun he => ⟨h, (Except.ok.inj he).symm⟩, fun he => congrArg _ he.2.symm⟩
  · exact iff_of_false nofun fun he => h he.1

/-- The unsigned 32-bit numbers written one after the other in `bs`. -/
def wordsI : ℕ → Bytes → List ℕ
  | 0, _ => []
  | n + 1, bs => beVal (bs.take 4) :: wordsI n (bs.drop 4)

/-- `struct.unpack(">nI", bs)`: the length has to be exact. -/
def unpackI (n : ℕ) (bs : Bytes) : Except PyErr (List ℕ) :=
  if bs.length = 4 * n then .ok (wordsI n bs) else .error .structError

/-- `struct.unpack_from(">I", bs, offset)[0]`. -/
def unpackFromI (bs : Bytes) (offset : ℕ) : Except PyErr ℕ :=
  if offset + 4 ≤ bs.length then .ok (beVal (slice bs offset (offset + 4)))
  else .error .structError

/-- `struct.unpack_from(">nI", bs, 0)`. -/
def unpackFrom0 (n : ℕ) (bs : Bytes) : Except PyErr (List ℕ) :=
  if 4 * n ≤ bs.length then .ok (wordsI n bs) else .error .structError

/-- `n` in `w` upper-case hexadecimal digits. -/
def hexUpper (w n : ℕ) : String :=
  let digits := (Nat.toDigits 16 n).map Char.toUpper
  String.ofList (List.replicate (w - digits.length) '0' ++ digits)

/-- `n.to_bytes(12, "little")`. -/
def nonceBytes (n : ℕ) : Except PyErr Bytes :=
  if n < 2 ^ 96 then .ok (leBytes 12 n) else .error .overflowError

theorem nonceBytes_eq {n : ℕ} (h : n < 2 ^ 96) : nonceBytes n = .ok (leBytes 12 n) := if_pos h

theorem nonceBytes_error {n : ℕ} (h : ¬ n < 2 ^ 96) : nonceBytes n = .error .overflowError :=
  if_neg h

theorem beVal_beBytes4 {n : ℕ} (h : n < 2 ^ 32) : beVal (beBytes 4 n) = n :=
  beVal_beBytes (by simpa using h)

theorem length_wordsI : ∀ (n : ℕ) (bs : Bytes), (wordsI n bs).length = n
  | 0, _ => rfl
  | n + 1, bs => congrArg (· + 1) (length_wordsI n (bs.drop 4))

/-- Words written one after the other are read back. -/
theorem wordsI_append {ns : List ℕ} (h : ∀ n ∈ ns, n < 2 ^ 32) (bs : Bytes) :
    wordsI ns.length ((ns.map (beBytes 4)).flatten ++ bs) = ns := by
  induction ns with
  | nil => rfl
  | cons n ns ih =>
    have hn := h n (by simp)
    have ht : ((n :: ns).map (beBytes 4)).flatten ++ bs =
        beBytes 4 n ++ ((ns.map (beBytes 4)).flatten ++ bs) := by simp
    rw [ht, List.length_cons, wordsI, List.take_left' (length_beBytes 4 n),
      List.drop_left' (length_beBytes 4 n), beVal_beBytes4 hn,
      ih fun m hm => h m (by simp [hm])]

/-- Reading a word behind a prefix. -/
theorem unpackFromI_append (as : Bytes) {n : ℕ} (h : n < 2 ^ 32) (bs : Bytes) :
    unpackFromI (as ++ (beBytes 4 n ++ bs)) as.length = .ok n := by
  rw [unpackFromI, if_pos (by simp)]
  rw [slice_mid rfl (by simp), beVal_beBytes4 h]

/-! ## `zlib.crc32` -/

/-- One bit of the reflected CRC with polynomial `0xEDB88320`. -/
def crcBit (c : ℕ) : ℕ := if c % 2 = 1 then (c / 2) ^^^ 0xEDB88320 else c / 2

/-- One byte of the CRC. -/
def crcByte (c : ℕ) (b : UInt8) : ℕ := Nat.repeat crcBit 8 (c ^^^ b.toNat)

/-- `zlib.crc32(bs)`. -/
def crc32 (bs : Bytes) : ℕ := bs.foldl crcByte 0xFFFFFFFF ^^^ 0xFFFFFFFF

/-! ## `uuid4` -/

/-- A UUID drawn by `uuid4()`: its text and its bytes. -/
structure Uuid4 where
  str : PyStr
  bytes : Bytes

/-! ## `json.dumps` of strings -/

/-- A hexadecimal digit. -/
def hexDigit (n : ℕ) : Char := if n < 10 then Char.ofNat (48 + n) else Char.ofNat (87 + n)

/-- A character inside a JSON string, as `json.dumps` with `ensure_ascii` writes it. -/
def jsonChar (c : Char) : PyStr :=
  let n := c.toNat
  let backslash := Char.ofNat 92
  if n = 34 ∨ n = 92 then [backslash, c]
  else if n = 8 then [backslash, 'b']
  else if n = 9 then [backslash, 't']
  else if n = 10 then [backslash, 'n']
  else if n = 12 then [backslash, 'f']
  else if n = 13 then [backslash, 'r']
  else if 32 ≤ n ∧ n ≤ 126 then [c]
  else if n < 65536 then
    [backslash, 'u', hexDigit (n / 4096), hexDigit (n / 256 % 16), hexDigit (n / 16 % 16),
      hexDigit (n % 16)]
  else
    let m := n - 65536
    [backslash, 'u', hexDigit 13, hexDigit (8 + m / 262144), hexDigit (m / 16384 % 16),
      hexDigit (m / 1024 % 16), backslash, 'u', hexDigit 13, hexDigit (12 + m / 256 % 4),
      hexDigit (m / 16 % 16), hexDigit (m % 16)]

/-- A JSON string literal. -/
def jsonString (s : PyStr) : PyStr := Char.ofNat 34 :: s.flatMap jsonChar ++ [Char.ofNat 34]

/-- `json.dumps` of a dictionary from strings to strings, given by its pairs. -/
def jsonDumps (ps : List (PyStr × PyStr)) : PyStr :=
  ['{'] ++ List.intercalate [',', ' ']
    (ps.map fun p => jsonString p.1 ++ [':', ' '] ++ jsonString p.2) ++ ['}']

theorem Latin1.append {s t : PyStr} (hs : Latin1 s) (ht : Latin1 t) : Latin1 (s ++ t) := by
  intro c hc
  exact (List.mem_append.1 hc).elim (hs c) (ht c)

theorem jsonChar_latin1 : ∀ n < 256, Latin1 (jsonChar (Char.ofNat n)) := by decide +kernel

theorem jsonString_latin1 (bs : Bytes) : Latin1 (jsonString (latin1Decode bs)) := by
  have hquote : Latin1 [Char.ofNat 34] := by decide
  refine (hquote.append (t := (latin1Decode bs).flatMap jsonChar) ?_).append hquote
  intro c hc
  obtain ⟨d, hd, hc⟩ := List.mem_flatMap.1 hc
  obtain ⟨b, -, rfl⟩ := List.mem_map.1 hd
  exact jsonChar_latin1 b.toNat (UInt8.toNat_lt b) c hc

theorem intercalate_latin1 {sep : PyStr} (hsep : Latin1 sep) : ∀ {ss : List PyStr},
    (∀ s ∈ ss, Latin1 s) → Latin1 (List.intercalate sep ss)
  | [], _ => fun c hc => by cases hc
  | [s], h => by simpa [List.intercalate] using h s (by simp)
  | s :: t :: ss, h => by
    have ht : Latin1 (List.intercalate sep (t :: ss)) :=
      intercalate_latin1 hsep fun x hx => h x (by simp [hx])
    have hall := ((h s (by simp)).append hsep).append ht
    simpa [List.intercalate, List.intersperse] using hall

/-- `json.dumps` writes byte strings in ASCII. -/
theorem jsonDumps_latin1 (ps : List (Bytes × Bytes)) :
    Latin1 (jsonDumps (ps.map fun p => (latin1Decode p.1, latin1Decode p.2))) := by
  refine Latin1.append (.append (by decide) (intercalate_latin1 (by decide) ?_)) (by decide)
  intro s hs
  simp only [List.map_map, List.mem_map, Function.comp] at hs
  obtain ⟨p, -, rfl⟩ := hs
  exact ((jsonString_latin1 _).append (by decide)).append (jsonString_latin1 _)

end Pipebomb
