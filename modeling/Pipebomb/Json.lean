/-
  `json.loads`, which `Client.list` calls on its reply.

  The reader follows the Python decoder: `scanString` reads a string behind its opening
  quote, `scanNumber` a number, `scanOnce` any value; in an object the last of several
  equal keys counts.  Numbers stay texts.  A lone surrogate escape is refused, since a
  `PyStr` cannot hold it.

  * `loads_jsonDumps`: what `json.dumps` writes of a dictionary of strings is read back.
  * `listing_round_trip`: the reply to LIST is read as the database, in its order.
-/
import Pipebomb.Handler

namespace Pipebomb

open ByteString

/-- What `json.loads` returns. -/
inductive Json where
  | null
  | bool (b : Bool)
  /-- an `int` or a `float`, as it is written -/
  | num (text : PyStr)
  | str (s : PyStr)
  | arr (values : List Json)
  /-- a `dict`, by its pairs -/
  | obj (pairs : List (PyStr × Json))

namespace Json

/-- The rest of a text behind a value. -/
abbrev Scan (α : Type) := Option (α × PyStr)

def quote : Char := Char.ofNat 34

def backslash : Char := Char.ofNat 92

/-! ## Strings -/

def hexVal (c : Char) : Option ℕ :=
  let n := c.toNat
  if 48 ≤ n ∧ n ≤ 57 then some (n - 48)
  else if 97 ≤ n ∧ n ≤ 102 then some (n - 87)
  else if 65 ≤ n ∧ n ≤ 70 then some (n - 55)
  else none

/-- The four digits of a `\u` escape. -/
def hex4 : PyStr → Scan ℕ
  | a :: b :: c :: d :: rest =>
    match hexVal a, hexVal b, hexVal c, hexVal d with
    | some a, some b, some c, some d => some (4096 * a + 256 * b + 16 * c + d, rest)
    | _, _, _, _ => none
  | _ => none

/-- The second half of a surrogate pair. -/
def lowSurrogate : PyStr → Scan ℕ
  | b :: u :: rest =>
    if b = backslash ∧ u = 'u' then match hex4 rest with
      | some (v, rest) => if 0xDC00 ≤ v ∧ v < 0xE000 then some (v, rest) else none
      | none => none
    else none
  | _ => none

/-- The character of a `\u` escape. -/
def scanUnicode (text : PyStr) : Scan Char :=
  match hex4 text with
  | none => none
  | some (u, rest) =>
    if 0xD800 ≤ u ∧ u < 0xDC00 then match lowSurrogate rest with
      | some (v, rest) => some (Char.ofNat (0x10000 + (u - 0xD800) * 1024 + (v - 0xDC00)), rest)
      | none => none
    else if 0xDC00 ≤ u ∧ u < 0xE000 then none
    else some (Char.ofNat u, rest)

/-- `BACKSLASH`, the escapes of one character. -/
def escape (e : Char) : Option Char :=
  if e = quote ∨ e = backslash ∨ e = '/' then some e
  else if e = 'b' then some (Char.ofNat 8)
  else if e = 'f' then some (Char.ofNat 12)
  else if e = 'n' then some (Char.ofNat 10)
  else if e = 'r' then some (Char.ofNat 13)
  else if e = 't' then some (Char.ofNat 9)
  else none

/-- One character of a string. -/
def scanChar : PyStr → Scan Char
  | [] => none
  | c :: rest =>
    if c = backslash then match rest with
      | [] => none
      | e :: rest =>
        if e = 'u' then scanUnicode rest else (escape e).map fun c => (c, rest)
    -- `strict`: no control characters
    else if c.toNat < 32 then none
    else some (c, rest)

/-- `scanstring`, behind the opening quote. -/
def scanString : ℕ → PyStr → Scan PyStr
  | 0, _ => none
  | _ + 1, [] => none
  | n + 1, c :: rest =>
    if c = quote then some ([], rest)
    else match scanChar (c :: rest) with
      | none => none
      | some (c, rest) => (scanString n rest).map fun p => (c :: p.1, p.2)

/-! ## Numbers -/

def isDigit (c : Char) : Bool := 48 ≤ c.toNat && c.toNat ≤ 57

/-- At least one digit. -/
def scanDigits (text : PyStr) : Scan PyStr :=
  match text.takeWhile isDigit with
  | [] => none
  | ds => some (ds, text.dropWhile isDigit)

/-- The digits before the point: a zero alone, or digits that start with none. -/
def scanInt : PyStr → Scan PyStr
  | '0' :: rest => some (['0'], rest)
  | text => scanDigits text

/-- A part of a number that may be missing. -/
def optional (part : Scan PyStr) (text : PyStr) : PyStr × PyStr := part.getD ([], text)

def scanFraction : PyStr → Scan PyStr
  | '.' :: rest => (scanDigits rest).map fun p => ('.' :: p.1, p.2)
  | _ => none

def scanExponent : PyStr → Scan PyStr
  | e :: rest =>
    if e = 'e' ∨ e = 'E' then
      let sign := rest.takeWhile fun c => c = '+' ∨ c = '-'
      if 1 < sign.length then none
      else (scanDigits (rest.drop sign.length)).map fun p => (e :: sign ++ p.1, p.2)
    else none
  | [] => none

/-- `NUMBER_RE`. -/
def scanNumber (text : PyStr) : Scan PyStr :=
  let sign := if text.head? = some '-' then ['-'] else []
  match scanInt (text.drop sign.length) with
  | none => none
  | some (int, rest) =>
    let (fraction, rest) := optional (scanFraction rest) rest
    let (exponent, rest) := optional (scanExponent rest) rest
    some (sign ++ int ++ fraction ++ exponent, rest)

/-! ## Values -/

def isSpace (c : Char) : Bool := c = ' ' || c.toNat = 9 || c.toNat = 10 || c.toNat = 13

def skip (text : PyStr) : PyStr := text.dropWhile isSpace

/-- The constants. -/
def constants : List (PyStr × Json) :=
  [("null".toList, .null), ("true".toList, .bool true), ("false".toList, .bool false)]

def constantsOfFloat : List (PyStr × Json) :=
  ["NaN".toList, "Infinity".toList, "-Infinity".toList].map fun t => (t, .num t)

/-- The first of the constants that the text starts with. -/
def scanConstant (cs : List (PyStr × Json)) (text : PyStr) : Scan Json :=
  (cs.find? fun c => c.1.isPrefixOf text).map fun c => (c.2, text.drop c.1.length)

/-- `dict(pairs)`. -/
def dictOf (pairs : List (PyStr × Json)) : List (PyStr × Json) :=
  ((Dict.empty : Dict PyStr Json).setAll pairs).items

/-- A value that starts with none of a quote, a brace and a bracket. -/
def scanScalar (text : PyStr) : Scan Json :=
  match scanConstant constants text with
  | some p => some p
  | none => match scanNumber text with
    | some (t, rest) => some (.num t, rest)
    | none => scanConstant constantsOfFloat text

mutual

/-- `scan_once`. -/
def scanOnce : ℕ → PyStr → Scan Json
  | 0, _ => none
  | _ + 1, [] => none
  | n + 1, c :: rest =>
    if c = quote then (scanString (rest.length + 1) rest).map fun p => (.str p.1, p.2)
    else if c = '{' then match skip rest with
      | [] => none
      | d :: rest =>
        if d = '}' then some (.obj [], rest)
        else if d = quote then (scanPairs n rest).map fun p => (.obj (dictOf p.1), p.2)
        else none
    else if c = '[' then match skip rest with
      | [] => none
      | d :: rest =>
        if d = ']' then some (.arr [], rest)
        else (scanItems n (d :: rest)).map fun p => (.arr p.1, p.2)
    else scanScalar (c :: rest)

/-- The pairs of an object, behind the quote of the first key. -/
def scanPairs : ℕ → PyStr → Scan (List (PyStr × Json))
  | 0, _ => none
  | n + 1, text => match scanString (text.length + 1) text with
    | none => none
    | some (key, rest) => match skip rest with
      | [] => none
      | colon :: rest =>
        if colon ≠ ':' then none
        else match scanOnce n (skip rest) with
          | none => none
          | some (value, rest) => match skip rest with
            | [] => none
            | d :: rest =>
              if d = '}' then some ([(key, value)], rest)
              else if d ≠ ',' then none
              else match skip rest with
                | [] => none
                | q :: rest =>
                  if q ≠ quote then none
                  else (scanPairs n rest).map fun p => ((key, value) :: p.1, p.2)

/-- The values of an array. -/
def scanItems : ℕ → PyStr → Scan (List Json)
  | 0, _ => none
  | n + 1, text => match scanOnce n text with
    | none => none
    | some (value, rest) => match skip rest with
      | [] => none
      | d :: rest =>
        if d = ']' then some ([value], rest)
        else if d ≠ ',' then none
        else (scanItems n (skip rest)).map fun p => (value :: p.1, p.2)

end

/-- `json.loads`, or `none` where it raises. -/
def loads (text : PyStr) : Option Json :=
  match scanOnce (text.length + 1) (skip text) with
  | none => none
  | some (value, rest) => if skip rest = [] then some value else none

/-! ## What `json.dumps` writes is read back -/

theorem hexVal_hexDigit : ∀ n < 16, hexVal (hexDigit n) = some n := by decide

theorem hex4_hexDigit {a b c d : ℕ} (ha : a < 16) (hb : b < 16) (hc : c < 16) (hd : d < 16) (rest : PyStr) :
    hex4 (hexDigit a :: hexDigit b :: hexDigit c :: hexDigit d :: rest) =
      some (4096 * a + 256 * b + 16 * c + d, rest) := by
  simp only [hex4, hexVal_hexDigit a ha, hexVal_hexDigit b hb, hexVal_hexDigit c hc, hexVal_hexDigit d hd]

/-- A character is no surrogate. -/
theorem toNat_cases (c : Char) : c.toNat < 0xD800 ∨ 0xDFFF < c.toNat ∧ c.toNat < 0x110000 := by
  rcases c.valid with h | ⟨h, h'⟩
  · exact .inl h
  · exact .inr ⟨h, h'⟩

/-- The escape of a character of the basic plane. -/
theorem scanUnicode_basic {c : Char} (hc : c.toNat < 65536) (rest : PyStr) :
    scanUnicode (hexDigit (c.toNat / 4096) :: hexDigit (c.toNat / 256 % 16) :: hexDigit (c.toNat / 16 % 16) ::
      hexDigit (c.toNat % 16) :: rest) = some (c, rest) := by
  have hhex := hex4_hexDigit (a := c.toNat / 4096) (b := c.toNat / 256 % 16) (c := c.toNat / 16 % 16)
    (d := c.toNat % 16) (by omega) (by omega) (by omega) (by omega) rest
  have hn : 4096 * (c.toNat / 4096) + 256 * (c.toNat / 256 % 16) + 16 * (c.toNat / 16 % 16) + c.toNat % 16 =
      c.toNat := by omega
  rw [hn] at hhex
  have hvalid := toNat_cases c
  simp only [scanUnicode, hhex]
  rw [if_neg (by omega), if_neg (by omega), Char.ofNat_toNat]

/-- The two escapes of any other character. -/
theorem scanUnicode_pair {c : Char} {m : ℕ} (hm : c.toNat = 65536 + m) (rest : PyStr) :
    scanUnicode (hexDigit 13 :: hexDigit (8 + m / 262144) :: hexDigit (m / 16384 % 16) ::
      hexDigit (m / 1024 % 16) :: backslash :: 'u' :: hexDigit 13 :: hexDigit (12 + m / 256 % 4) ::
      hexDigit (m / 16 % 16) :: hexDigit (m % 16) :: rest) = some (c, rest) := by
  have hbound : m < 1048576 := by
    have := toNat_cases c
    omega
  have hlow : lowSurrogate (backslash :: 'u' :: hexDigit 13 :: hexDigit (12 + m / 256 % 4) ::
      hexDigit (m / 16 % 16) :: hexDigit (m % 16) :: rest) = some (0xDC00 + m % 1024, rest) := by
    have hhex := hex4_hexDigit (a := 13) (b := 12 + m / 256 % 4) (c := m / 16 % 16) (d := m % 16)
      (by omega) (by omega) (by omega) (by omega) rest
    have hn : 4096 * 13 + 256 * (12 + m / 256 % 4) + 16 * (m / 16 % 16) + m % 16 = 0xDC00 + m % 1024 := by
      omega
    rw [hn] at hhex
    simp only [lowSurrogate, hhex, and_self, if_true]
    rw [if_pos (by omega)]
  have hhex := hex4_hexDigit (a := 13) (b := 8 + m / 262144) (c := m / 16384 % 16) (d := m / 1024 % 16)
    (by omega) (by omega) (by omega) (by omega)
    (backslash :: 'u' :: hexDigit 13 :: hexDigit (12 + m / 256 % 4) :: hexDigit (m / 16 % 16) ::
      hexDigit (m % 16) :: rest)
  have hn : 4096 * 13 + 256 * (8 + m / 262144) + 16 * (m / 16384 % 16) + m / 1024 % 16 =
      0xD800 + m / 1024 := by omega
  rw [hn] at hhex
  have hc : 0x10000 + (0xD800 + m / 1024 - 0xD800) * 1024 + (0xDC00 + m % 1024 - 0xDC00) = c.toNat := by
    omega
  simp only [scanUnicode, hhex, hlow]
  rw [if_pos (by omega), hc, Char.ofNat_toNat]

theorem char_eq {c : Char} {n : ℕ} (h : c.toNat = n) : c = Char.ofNat n := by
  rw [← h, Char.ofNat_toNat]

/-- **A character is read back**, and a string does not end in it. -/
theorem scanChar_jsonChar (c : Char) (rest : PyStr) :
    scanChar (jsonChar c ++ rest) = some (c, rest) ∧ ∃ d ds, jsonChar c = d :: ds ∧ d ≠ quote := by
  have hescape : ∀ {e : Char}, e ≠ 'u' → escape e = some c →
      scanChar ([backslash, e] ++ rest) = some (c, rest) := by
    intro e hu he
    simp [scanChar, hu, he]
  have hquote : backslash ≠ quote := by decide
  unfold jsonChar
  simp only
  split_ifs with h₁ h₂ h₃ h₄ h₅ h₆ h₇ h₈
  · refine ⟨hescape ?_ ?_, _, _, rfl, hquote⟩
    · rintro rfl; revert h₁; decide
    · rcases h₁ with h₁ | h₁
      · rw [char_eq h₁]; decide
      · rw [char_eq h₁]; decide
  · exact ⟨hescape (by decide) (by rw [char_eq h₂]; decide), _, _, rfl, hquote⟩
  · exact ⟨hescape (by decide) (by rw [char_eq h₃]; decide), _, _, rfl, hquote⟩
  · exact ⟨hescape (by decide) (by rw [char_eq h₄]; decide), _, _, rfl, hquote⟩
  · exact ⟨hescape (by decide) (by rw [char_eq h₅]; decide), _, _, rfl, hquote⟩
  · exact ⟨hescape (by decide) (by rw [char_eq h₆]; decide), _, _, rfl, hquote⟩
  · -- a character that stands for itself
    have hb : c ≠ backslash := by
      rintro rfl
      exact h₁ (.inr rfl)
    refine ⟨?_, c, [], rfl, ?_⟩
    · simp only [List.singleton_append, scanChar, if_neg hb]
      rw [if_neg (by omega)]
    · rintro rfl
      exact h₁ (.inl rfl)
  · refine ⟨?_, _, _, rfl, hquote⟩
    have hu := scanUnicode_basic h₈ rest
    simpa [scanChar, backslash] using hu
  · refine ⟨?_, _, _, rfl, hquote⟩
    have hu := scanUnicode_pair (c := c) (m := c.toNat - 65536) (by omega) rest
    simpa [scanChar, backslash] using hu

/-- **A string is read back.** -/
theorem scanString_jsonChar (s : PyStr) : ∀ {n : ℕ} {rest : PyStr}, s.length < n →
    scanString n (s.flatMap jsonChar ++ quote :: rest) = some (s, rest) := by
  induction s with
  | nil =>
    intro n rest hn
    obtain ⟨n, rfl⟩ := Nat.exists_eq_succ_of_ne_zero (Nat.ne_of_gt hn)
    simp [scanString]
  | cons c s ih =>
    intro n rest hn
    obtain ⟨n, rfl⟩ := Nat.exists_eq_succ_of_ne_zero (Nat.ne_zero_of_lt hn)
    obtain ⟨hchar, d, ds, hd, hne⟩ := scanChar_jsonChar c (s.flatMap jsonChar ++ quote :: rest)
    have htail := @ih n rest (by simpa using hn)
    rw [hd] at hchar
    simp only [List.cons_append] at hchar
    simp only [List.flatMap_cons, List.append_assoc, hd, List.cons_append, scanString, if_neg hne, hchar,
      htail, Option.map_some]

theorem length_le_flatMap_jsonChar (s : PyStr) : s.length ≤ (s.flatMap jsonChar).length := by
  induction s with
  | nil => exact Nat.le_refl 0
  | cons c s ih =>
    obtain ⟨-, d, ds, hd, -⟩ := scanChar_jsonChar c []
    rw [List.flatMap_cons, hd]
    simp only [List.length_append, List.length_cons]
    omega

/-- A string with its closing quote. -/
theorem scanString_closed (s rest : PyStr) :
    scanString ((s.flatMap jsonChar ++ quote :: rest).length + 1) (s.flatMap jsonChar ++ quote :: rest) =
      some (s, rest) := by
  refine scanString_jsonChar s ?_
  have := length_le_flatMap_jsonChar s
  simp only [List.length_append, List.length_cons]
  omega

theorem jsonString_append (s rest : PyStr) :
    jsonString s ++ rest = quote :: (s.flatMap jsonChar ++ quote :: rest) := by
  simp [jsonString, quote]

theorem scanOnce_jsonString (n : ℕ) (s rest : PyStr) :
    scanOnce (n + 1) (jsonString s ++ rest) = some (.str s, rest) := by
  rw [jsonString_append]
  simp only [scanOnce, if_true, scanString_closed, Option.map_some]

/-- A character that is no space. -/
theorem skip_cons {c : Char} (hc : isSpace c = false) (rest : PyStr) : skip (c :: rest) = c :: rest := by
  simp only [skip, List.dropWhile, hc]

theorem skip_jsonString (s rest : PyStr) : skip (jsonString s ++ rest) = jsonString s ++ rest := by
  rw [jsonString_append]
  exact skip_cons (by decide) _

theorem skip_space_jsonString (s rest : PyStr) :
    skip (' ' :: (jsonString s ++ rest)) = jsonString s ++ rest := by
  have hskip := skip_jsonString s rest
  simpa [skip, List.dropWhile, isSpace] using hskip

/-- A pair, as `json.dumps` writes it. -/
def member (p : PyStr × PyStr) : PyStr := jsonString p.1 ++ [':', ' '] ++ jsonString p.2

/-- The rest of an object, behind a pair. -/
def members (ps : List (PyStr × PyStr)) (rest : PyStr) : PyStr :=
  (ps.flatMap fun p => [',', ' '] ++ member p) ++ '}' :: rest

theorem intercalate_cons {α : Type} (sep a : List α) (as : List (List α)) :
    List.intercalate sep (a :: as) = a ++ as.flatMap fun b => sep ++ b := by
  induction as generalizing a with
  | nil => simp [List.intercalate]
  | cons b as ih =>
    have hb := ih b
    simp only [List.intercalate, List.intersperse, List.flatten_cons, List.flatMap_cons] at hb ⊢
    rw [hb]
    simp

theorem jsonDumps_cons (p : PyStr × PyStr) (ps : List (PyStr × PyStr)) :
    jsonDumps (p :: ps) = '{' :: (member p ++ members ps []) := by
  simp [jsonDumps, intercalate_cons, member, members, List.flatMap_map]

theorem skip_members_nil (rest : PyStr) : skip (members [] rest) = '}' :: rest :=
  skip_cons (by decide) rest

theorem skip_members_cons (p : PyStr × PyStr) (ps : List (PyStr × PyStr)) (rest : PyStr) :
    skip (members (p :: ps) rest) = ',' :: ' ' :: (member p ++ members ps rest) := by
  simp [members, skip, isSpace]

theorem member_append (p : PyStr × PyStr) (rest : PyStr) : member p ++ rest =
    jsonString p.1 ++ ([':', ' '] ++ jsonString p.2 ++ rest) := by
  simp [member]

/-- **The pairs of an object are read back.** -/
theorem scanPairs_members (ps : List (PyStr × PyStr)) : ∀ {n : ℕ} (p : PyStr × PyStr) (rest : PyStr),
    ps.length + 1 < n →
    scanPairs n (p.1.flatMap jsonChar ++ quote :: ([':', ' '] ++ jsonString p.2 ++ members ps rest)) =
      some ((p :: ps).map fun p => (p.1, .str p.2), rest) := by
  have hcolon : isSpace ':' = false := by decide
  induction ps with
  | nil =>
    intro n p rest hn
    obtain ⟨n, rfl⟩ : ∃ m, n = m + 2 := ⟨n - 2, by simp at hn; omega⟩
    rw [scanPairs, scanString_closed]
    simp only [List.cons_append, List.nil_append, skip_cons hcolon, ne_eq, not_true_eq_false, if_false,
      skip_space_jsonString, scanOnce_jsonString, skip_members_nil, if_true]
    rfl
  | cons q ps ih =>
    intro n p rest hn
    obtain ⟨n, rfl⟩ : ∃ m, n = m + 2 := ⟨n - 2, by simp at hn; omega⟩
    have hquote : skip (' ' :: (member q ++ members ps rest)) =
        quote :: (q.1.flatMap jsonChar ++ quote :: ([':', ' '] ++ jsonString q.2 ++ members ps rest)) := by
      rw [member_append, skip_space_jsonString, jsonString_append]
    have hrest := @ih (n + 1) q rest (by simp at hn; omega)
    rw [scanPairs, scanString_closed]
    simp only [List.cons_append, List.nil_append, skip_cons hcolon, ne_eq, not_true_eq_false, if_false,
      skip_space_jsonString, scanOnce_jsonString, skip_members_cons, hquote]
    rw [if_neg (by decide)]
    simp only [List.cons_append, List.nil_append] at hrest
    rw [hrest]
    rfl

/-- **What `json.dumps` writes of a dictionary of strings is read back.** -/
theorem loads_jsonDumps (ps : List (PyStr × PyStr)) :
    loads (jsonDumps ps) = some (.obj (dictOf (ps.map fun p => (p.1, .str p.2)))) := by
  cases ps with
  | nil => rfl
  | cons p ps =>
    have hlen : ps.length + 1 < (jsonDumps (p :: ps)).length := by
      have hps : ps.length ≤ (members ps []).length := by
        induction ps with
        | nil => exact Nat.zero_le _
        | cons q ps ih => simp [members] at ih ⊢; omega
      rw [jsonDumps_cons]
      simp only [member, jsonString, List.length_cons, List.length_append]
      omega
    have hpairs := scanPairs_members ps p [] hlen
    have hmember : member p ++ members ps [] =
        quote :: (p.1.flatMap jsonChar ++ quote :: ([':', ' '] ++ jsonString p.2 ++ members ps [])) := by
      rw [member_append, jsonString_append]
    have hskip : skip (jsonDumps (p :: ps)) = jsonDumps (p :: ps) := by
      rw [jsonDumps_cons]
      exact skip_cons (by decide) _
    have hskip' : skip (member p ++ members ps []) = member p ++ members ps [] := by
      rw [hmember]
      exact skip_cons (by decide) _
    have honce : scanOnce ((jsonDumps (p :: ps)).length + 1) (jsonDumps (p :: ps)) =
        some (.obj (dictOf ((p :: ps).map fun p => (p.1, .str p.2))), []) := by
      rw [jsonDumps_cons] at hpairs ⊢
      rw [scanOnce, if_neg (by decide), if_pos rfl, hskip', hmember]
      simp only
      rw [if_neg (by decide), if_pos trivial, ← hmember, hpairs]
      rfl
    simp only [loads, hskip, honce]
    rfl

/-! ## ASCII -/

/-- ASCII characters without NUL, which all encodings of `json.loads` but those with wider units
    decode to themselves. -/
def Ascii (s : PyStr) : Prop := ∀ c ∈ s, 0 < c.toNat ∧ c.toNat < 128

theorem Ascii.append {s t : PyStr} (hs : Ascii s) (ht : Ascii t) : Ascii (s ++ t) := by
  intro c hc
  exact (List.mem_append.1 hc).elim (hs c) (ht c)

theorem Ascii.cons {c : Char} {s : PyStr} (hc : 0 < c.toNat ∧ c.toNat < 128) (hs : Ascii s) : Ascii (c :: s) := by
  intro d hd
  rcases List.mem_cons.1 hd with rfl | hd
  · exact hc
  · exact hs d hd

theorem hexDigit_ascii : ∀ n < 16, 0 < (hexDigit n).toNat ∧ (hexDigit n).toNat < 128 := by decide

theorem jsonChar_ascii (c : Char) : Ascii (jsonChar c) := by
  have hnil : Ascii [] := fun _ h => (by cases h)
  have hvalid := toNat_cases c
  unfold jsonChar
  simp only
  split_ifs with h₁ h₂ h₃ h₄ h₅ h₆ h₇ h₈
  · refine .cons (by decide) (.cons ?_ hnil)
    omega
  · exact .cons (by decide) (.cons (by decide) hnil)
  · exact .cons (by decide) (.cons (by decide) hnil)
  · exact .cons (by decide) (.cons (by decide) hnil)
  · exact .cons (by decide) (.cons (by decide) hnil)
  · exact .cons (by decide) (.cons (by decide) hnil)
  · refine .cons ?_ hnil
    omega
  · exact .cons (by decide) (.cons (by decide) (.cons (hexDigit_ascii _ (by omega))
      (.cons (hexDigit_ascii _ (by omega)) (.cons (hexDigit_ascii _ (by omega))
      (.cons (hexDigit_ascii _ (by omega)) hnil)))))
  · exact .cons (by decide) (.cons (by decide) (.cons (hexDigit_ascii _ (by omega))
      (.cons (hexDigit_ascii _ (by omega)) (.cons (hexDigit_ascii _ (by omega))
      (.cons (hexDigit_ascii _ (by omega)) (.cons (by decide) (.cons (by decide)
      (.cons (hexDigit_ascii _ (by omega)) (.cons (hexDigit_ascii _ (by omega))
      (.cons (hexDigit_ascii _ (by omega)) (.cons (hexDigit_ascii _ (by omega)) hnil)))))))))))

theorem jsonString_ascii (s : PyStr) : Ascii (jsonString s) := by
  have hquote : Ascii [Char.ofNat 34] := by simp [Ascii]
  refine (hquote.append (t := s.flatMap jsonChar) ?_).append hquote
  intro c hc
  obtain ⟨d, -, hc⟩ := List.mem_flatMap.1 hc
  exact jsonChar_ascii d c hc

theorem member_ascii (p : PyStr × PyStr) : Ascii (member p) :=
  ((jsonString_ascii _).append (by simp [Ascii])).append (jsonString_ascii _)

/-- `json.dumps` writes ASCII. -/
theorem jsonDumps_ascii (ps : List (PyStr × PyStr)) : Ascii (jsonDumps ps) := by
  cases ps with
  | nil => simp [Ascii, jsonDumps]
  | cons p ps =>
    rw [jsonDumps_cons]
    refine .cons (by decide) ((member_ascii p).append (.append ?_ (by simp [Ascii])))
    intro c hc
    obtain ⟨q, -, hc⟩ := List.mem_flatMap.1 hc
    have hsep : Ascii [',', ' '] := by simp [Ascii]
    exact hsep.append (member_ascii q) c hc

end Json

/-- **The listing.**  The reply to LIST is ASCII without NUL, and `json.loads` makes of it the
    database: every key with its value, in their order, as latin-1 text. -/
theorem listing_round_trip (db : Dict Bytes Bytes) : ∃ reply, listReply db = .ok reply ∧
    (∀ b ∈ reply, 0 < b.toNat ∧ b.toNat < 128) ∧
    Json.loads (latin1Decode reply) =
      some (.obj (db.items.map fun p => (latin1Decode p.1, .str (latin1Decode p.2)))) := by
  have hlatin := jsonDumps_latin1 db.items
  refine ⟨_, latin1Encode_eq hlatin, fun b hb => ?_, ?_⟩
  · obtain ⟨c, hc, rfl⟩ := List.mem_map.1 hb
    have hascii := Json.jsonDumps_ascii _ c hc
    rw [UInt8.toNat_ofNat', Nat.mod_eq_of_lt (by omega)]
    exact hascii
  · have hkeys : ((db.items.map fun p => (latin1Decode p.1, Json.str (latin1Decode p.2))).map
        Prod.fst).Nodup := by
      rw [List.map_map]
      have hinj := db.nodup.map (fun _ _ h => latin1Decode_inj h)
      rwa [List.map_map] at hinj
    rw [latin1Decode_latin1 hlatin, Json.loads_jsonDumps, List.map_map]
    have hdict := Dict.items_setAll (d := Dict.empty) hkeys
    exact congrArg (fun ps => some (Json.obj ps)) hdict

end Pipebomb
