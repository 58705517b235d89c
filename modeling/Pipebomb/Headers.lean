/-
  The six bytes of a header, read twice (`utils.py`).

  `extract_packet_frame` cuts a stream and `verify_packet` checks a packet; each parses the
  header with code of its own.

  * `unsealed`: what `verify_packet` does past the header; `verifyPacket_eq`: it rejects a
    packet for its size or header exactly where `ciphertextOf` has nothing to decrypt.
  * `extractPacketFrame_frame`, `extractPacketFrame_noFrame`: when there is a frame, and when
    there is none, in the words of the other parser.
  * `headers_agree`: a frame passes the tests of its size and header, it is read the same alone
    and at the front of its buffer, and a buffer without a frame is refused, for every nonce
    that fits into twelve bytes.
-/
import Pipebomb.Stub

namespace Pipebomb

open ByteString

variable {K : Type} (L : Libs K)

/-- `verify_packet` past the header. -/
def unsealed (cipher : Option K) (nonce ciphertext : Bytes) (remainder : Option Bytes) :
    Except PyErr Verified :=
  match cipher with
  | none => .error .attributeError
  | some k => match L.decrypt k nonce ciphertext with
    | none => .ok (.code 3)
    | some plaintext => match openPlaintext L plaintext with
      | .error n => .ok (.code n)
      | .ok payload => .ok (.payload payload remainder)

/-- The same answer with other bytes behind the packet. -/
def Verified.withRemainder (remainder : Option Bytes) : Verified → Verified
  | .code n => .code n
  | .payload data _ => .payload data remainder

section
variable {packet buffer frame rest ciphertext : Bytes} {e : Option ℕ}

/-- **The two stages of `verify_packet`.** -/
theorem verifyPacket_eq (packet : Bytes) (cipher : Option K) (n : ℕ) :
    verifyPacket L packet cipher n = match nonceBytes n with
      | .error e => .error e
      | .ok nonce => match ciphertextOf packet with
        | none => .ok (.code 2)
        | some ciphertext =>
          unsealed L cipher nonce ciphertext (orNone (packet.drop (frameSize packet))) := by
  unfold verifyPacket ciphertextOf
  rcases nonceBytes n with e | nonce
  · rfl
  by_cases h6 : packet.length < 6
  · simp only [if_pos h6]
  by_cases hh : packet.take 2 ≠ HEADER
  · simp only [if_neg h6, if_pos hh]
  by_cases hs : packet.length < frameSize packet
  · have hs' : packet.length < 6 + beVal (slice packet 2 6) := hs
    simp only [if_neg h6, if_neg hh, if_pos hs, if_pos hs']
  · have hs' : ¬ packet.length < 6 + beVal (slice packet 2 6) := hs
    simp only [if_neg h6, if_neg hh, if_neg hs, if_neg hs']
    rfl

theorem unsealed_withRemainder (cipher : Option K) (nonce ciphertext : Bytes)
    (remainder remainder' : Option Bytes) :
    unsealed L cipher nonce ciphertext remainder' =
      (unsealed L cipher nonce ciphertext remainder).map (Verified.withRemainder remainder') := by
  unfold unsealed
  cases cipher with
  | none => rfl
  | some k =>
    rcases hd : L.decrypt k nonce ciphertext with _ | plaintext
    · simp only [hd]
      rfl
    · rcases ho : openPlaintext L plaintext with n | payload
      · simp only [hd, ho]
        rfl
      · simp only [hd, ho]
        rfl

theorem unsealed_remainder {cipher : Option K} {nonce data : Bytes} {remainder rem : Option Bytes}
    (h : unsealed L cipher nonce ciphertext remainder = .ok (.payload data rem)) :
    rem = remainder := by
  unfold unsealed at h
  split at h
  · cases h
  · split at h
    · cases h
    · split at h
      · cases h
      · cases h
        rfl

theorem extractPacketFrame_eq (buffer : Bytes) : extractPacketFrame buffer =
    if buffer.length < 6 then (none, buffer, none)
    else if buffer.take 2 ≠ HEADER then (none, [], some 2)
    else if buffer.length < frameSize buffer then (none, buffer, none)
    else (some (buffer.take (frameSize buffer)), buffer.drop (frameSize buffer), none) := rfl

/-- **A frame**: the buffer begins with what `verify_packet` takes for a packet. -/
theorem extractPacketFrame_frame (h : extractPacketFrame buffer = (some frame, rest, e)) :
    ciphertextOf buffer = some (slice buffer 6 (frameSize buffer)) ∧
      frame = buffer.take (frameSize buffer) ∧ rest = buffer.drop (frameSize buffer) := by
  rw [extractPacketFrame_eq] at h
  split_ifs at h with h6 hh hs
  · cases h
  · cases h
  · cases h
  · cases h
    refine ⟨?_, rfl, rfl⟩
    rw [ciphertextOf, if_neg h6, if_neg hh, if_neg hs]

/-- **No frame**: `verify_packet` has nothing to decrypt. -/
theorem extractPacketFrame_noFrame (h : extractPacketFrame buffer = (none, rest, e)) :
    ciphertextOf buffer = none := by
  rw [extractPacketFrame_eq] at h
  unfold ciphertextOf
  split_ifs at h with h6 hh hs
  · rw [if_pos h6]
  · rw [if_neg h6, if_pos hh]
  · rw [if_neg h6, if_neg hh, if_pos hs]
  · cases h

/-- A frame has the header of its buffer. -/
theorem frameSize_take (buffer : Bytes) :
    frameSize (buffer.take (frameSize buffer)) = frameSize buffer := by
  have h6 : 6 ≤ frameSize buffer := Nat.le_add_right _ _
  have hslice : slice (buffer.take (frameSize buffer)) 2 6 = slice buffer 2 6 := by
    simp only [slice, List.drop_take, List.take_take]
    congr 1
    omega
  rw [frameSize, hslice, frameSize]

/-- **The frame is a packet** of the same ciphertext, which fills it. -/
theorem ciphertextOf_frame (h : ciphertextOf buffer = some ciphertext) :
    ciphertextOf (buffer.take (frameSize buffer)) = some ciphertext ∧
      (buffer.take (frameSize buffer)).drop (frameSize buffer) = [] := by
  have hsize := frameSize_take buffer
  unfold ciphertextOf at h
  split_ifs at h with h6 hh hs
  obtain rfl := Option.some.inj h
  have h6' : 6 ≤ frameSize buffer := Nat.le_add_right _ _
  have hlen : (buffer.take (frameSize buffer)).length = frameSize buffer :=
    List.length_take_of_le (not_lt.1 hs)
  have hhead : (buffer.take (frameSize buffer)).take 2 = buffer.take 2 := by
    rw [List.take_take, min_eq_left (by omega)]
  refine ⟨?_, List.drop_eq_nil_of_le hlen.le⟩
  rw [ciphertextOf, hlen, hhead, hsize, if_neg (by omega), if_neg hh, if_neg (lt_irrefl _)]
  simp only [slice, List.drop_take, List.take_take, min_self]

/-- **A frame alone**: nothing in `verify_packet` but the cipher and the nonce can refuse it. -/
theorem verifyPacket_frame (h : extractPacketFrame buffer = (some frame, rest, e)) (cipher : Option K)
    (n : ℕ) : verifyPacket L frame cipher n =
      (nonceBytes n).bind fun nonce => unsealed L cipher nonce (frame.drop 6) none := by
  obtain ⟨hct, rfl, rfl⟩ := extractPacketFrame_frame h
  obtain ⟨hctf, hnone⟩ := ciphertextOf_frame hct
  have hrest : (buffer.take (frameSize buffer)).drop 6 = slice buffer 6 (frameSize buffer) := by
    rw [slice, List.drop_take]
  rw [verifyPacket_eq, hctf, frameSize_take, hnone, hrest]
  rcases nonceBytes n with e | nonce
  · rfl
  · rfl

end

/-- **The two readings of a header agree.**  A frame and the rest are the buffer; the frame
    is not refused for its size or header: all of it behind the six bytes is decrypted, and
    nothing is left behind it; and it gives the answer of its buffer but for the remainder.
    A buffer with no frame is refused with code 2, unless the nonce does not fit into twelve
    bytes. -/
theorem headers_agree (buffer : Bytes) (cipher : Option K) (n : ℕ) :
    (∀ frame rest e, extractPacketFrame buffer = (some frame, rest, e) →
      frame ++ rest = buffer ∧
        verifyPacket L frame cipher n =
          ((nonceBytes n).bind fun nonce => unsealed L cipher nonce (frame.drop 6) none) ∧
        (∀ data rem, verifyPacket L frame cipher n = .ok (.payload data rem) → rem = none) ∧
        verifyPacket L buffer cipher n =
          (verifyPacket L frame cipher n).map (Verified.withRemainder (orNone rest))) ∧
    (∀ rest e, extractPacketFrame buffer = (none, rest, e) →
      verifyPacket L buffer cipher n =
        if n < 2 ^ 96 then .ok (.code 2) else .error .overflowError) := by
  constructor
  · intro frame rest e h
    have hframe := verifyPacket_frame L h cipher n
    obtain ⟨hct, hfr, hrest⟩ := extractPacketFrame_frame h
    refine ⟨?_, hframe, ?_, ?_⟩
    · rw [hfr, hrest]
      exact List.take_append_drop _ _
    · intro data rem hv
      rw [hframe] at hv
      rcases hn : nonceBytes n with e | nonce
      · rw [hn] at hv
        cases hv
      · rw [hn] at hv
        exact unsealed_remainder L hv
    · have hdrop : frame.drop 6 = slice buffer 6 (frameSize buffer) := by
        rw [hfr, slice, List.drop_take]
      rw [hframe, verifyPacket_eq, hct, hdrop, hrest]
      rcases nonceBytes n with e | nonce
      · rfl
      · exact unsealed_withRemainder L cipher nonce _ _ _
  · intro rest e h
    rw [verifyPacket_eq, extractPacketFrame_noFrame h]
    unfold nonceBytes
    split_ifs
    · rfl
    · rfl

/-- A packet with two bytes behind it. -/
theorem headers_agree_sample :
    verifyPacket stub (stubPacket 7 5 [9] ++ [1, 2]) (some 7) 5 = .ok (.payload [9] (some [1, 2])) := by
  obtain ⟨hframe, -⟩ := headers_agree stub (stubPacket 7 5 [9] ++ [1, 2]) (some 7) 5
  obtain ⟨-, -, -, hbuffer⟩ := hframe (stubPacket 7 5 [9]) [1, 2] none (by decide +kernel)
  rw [hbuffer]
  decide +kernel

/-- **A nonce of thirteen bytes.**  `verify_packet` raises before it looks at the packet. -/
theorem nonce_overflow : verifyPacket stub [0] (some 7) (2 ^ 96) = .error .overflowError ∧
    ¬ ∀ (buffer : Bytes) (n : ℕ) rest e, buffer ≠ [] → extractPacketFrame buffer = (none, rest, e) →
      verifyPacket stub buffer (some 7) n = .ok (.code 2) := by
  have hraise : verifyPacket stub [0] (some 7) (2 ^ 96) = .error .overflowError := by
    decide +kernel
  refine ⟨hraise, fun hall => ?_⟩
  have hcode := hall [0] (2 ^ 96) [0] none (by decide) (by decide +kernel)
  rw [hraise] at hcode
  cases hcode

end Pipebomb
