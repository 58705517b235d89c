/-
  `verify_packet` as the gate in front of `accept_clients` and `handle_client`, which read
  the first byte of what it returns.

  * `SafeGate`: it does not raise, and a payload has a first byte and the checksum that came
    with it.
  * `Hollow`: a plaintext whose body decompresses to nothing, with the checksum of nothing.
    The test for an empty body is made before decompression.
  * `safeGate_iff`: this plaintext alone gets through.
-/
import Pipebomb.Packet
import Pipebomb.Stub

namespace Pipebomb

open ByteString

variable {K : Type} (L : Libs K)

/-- `plaintext[-6:-2]`, the checksum of a plaintext of at least six bytes. -/
def checksumOf (plaintext : Bytes) : Bytes :=
  slice plaintext (plaintext.length - 6) (plaintext.length - 2)

/-- `plaintext[1:-6]`, the body of a plaintext of at least six bytes. -/
def bodyField (plaintext : Bytes) : Bytes := slice plaintext 1 (plaintext.length - 6)

/-- What the AEAD yields for the packet. -/
def plaintextOf (packet : Bytes) (k : K) (n : ℕ) : Option Bytes :=
  (ciphertextOf packet).bind (L.decrypt k (leBytes 12 n))

/-- The call returns, and a payload has a first byte and the checksum of its plaintext. -/
structure SafeGate (packet : Bytes) (k : K) (n : ℕ) : Prop where
  returns : ∃ v, verifyPacket L packet (some k) n = .ok v
  opcode : ∀ data rem, verifyPacket L packet (some k) n = .ok (.payload data rem) →
    ∃ type_ value, data = type_ :: value
  checksum : ∀ data rem, verifyPacket L packet (some k) n = .ok (.payload data rem) →
    ∃ plaintext, plaintextOf L packet k n = some plaintext ∧
      checksumOf plaintext = beBytes 4 (crc32 data)

/-- A plaintext with a compressed body of nothing. -/
structure Hollow (plaintext : Bytes) : Prop where
  long : 8 ≤ plaintext.length
  footer : plaintext.drop (plaintext.length - 2) = FOOTER
  compressed : plaintext.headD 0 &&& 1 ≠ 0
  empty : L.decompress (bodyField plaintext) = some []
  checksum : checksumOf plaintext = [0, 0, 0, 0]

section
variable {L} {packet plaintext data : Bytes} {rem : Option Bytes} {k : K} {n : ℕ}

/-- With a cipher and a nonce of twelve bytes nothing raises. -/
theorem verifyPacket_returns (packet : Bytes) (k : K) (hn : n < 2 ^ 96) :
    ∃ v, verifyPacket L packet (some k) n = .ok v := by
  simp only [verifyPacket, nonceBytes_eq hn]
  split_ifs
  · exact ⟨_, rfl⟩
  · exact ⟨_, rfl⟩
  · exact ⟨_, rfl⟩
  · split
    · exact ⟨_, rfl⟩
    · split
      · exact ⟨_, rfl⟩
      · exact ⟨_, rfl⟩

/-- What an opened plaintext has passed. -/
theorem openPlaintext_ok : openPlaintext L plaintext = .ok data ↔
    8 ≤ plaintext.length ∧ plaintext.drop (plaintext.length - 2) = FOOTER ∧
      (if plaintext.headD 0 &&& 1 ≠ 0 then L.decompress (bodyField plaintext)
        else some (bodyField plaintext)) = some data ∧
      checksumOf plaintext = beBytes 4 (crc32 data) := by
  unfold openPlaintext bodyField checksumOf
  by_cases hlong : plaintext.length < 8
  · simp only [if_pos hlong, Nat.not_le.2 hlong, false_and, iff_false]
    intro h
    cases h
  by_cases hfoot : plaintext.drop (plaintext.length - 2) ≠ FOOTER
  · simp only [if_neg hlong, if_pos hfoot]
    constructor
    · intro h
      cases h
    · intro h
      exact absurd h.2.1 hfoot
  -- eight bytes leave at least one for the body
  have hbody : slice plaintext 1 (plaintext.length - 6) ≠ [] := by
    apply List.ne_nil_of_length_pos
    rw [length_slice]
    omega
  simp only [if_neg hlong, if_neg hfoot, if_neg hbody]
  generalize (if plaintext.headD 0 &&& 1 ≠ 0 then L.decompress (slice plaintext 1 (plaintext.length - 6))
    else some (slice plaintext 1 (plaintext.length - 6))) = payload?
  cases payload? with
  | none =>
    constructor
    · intro h
      cases h
    · intro h
      cases h.2.2.1
  | some payload =>
    simp only [Option.some.injEq]
    by_cases hcrc : beBytes 4 (crc32 payload) ≠ slice plaintext (plaintext.length - 6) (plaintext.length - 2)
    · rw [if_pos hcrc]
      constructor
      · intro h
        cases h
      · rintro ⟨-, -, rfl, h⟩
        exact absurd h.symm hcrc
    · rw [if_neg hcrc]
      constructor
      · intro h
        cases h
        exact ⟨by omega, not_not.1 hfoot, rfl, (not_not.1 hcrc).symm⟩
      · rintro ⟨-, -, rfl, -⟩
        rfl

/-- A payload is what the plaintext of the packet opens to. -/
theorem verifyPacket_opens (h : verifyPacket L packet (some k) n = .ok (.payload data rem)) :
    ∃ plaintext, plaintextOf L packet k n = some plaintext ∧ openPlaintext L plaintext = .ok data := by
  obtain ⟨-, k', ct, plaintext, hk, hct, hd, ho⟩ := verifyPacket_payload L h
  obtain rfl : k = k' := Option.some.inj hk
  refine ⟨plaintext, ?_, ho⟩
  rw [plaintextOf, hct]
  exact hd

/-- A plaintext that opens is accepted. -/
theorem verifyPacket_of_opens (hn : n < 2 ^ 96) (hp : plaintextOf L packet k n = some plaintext)
    (ho : openPlaintext L plaintext = .ok data) :
    ∃ rem, verifyPacket L packet (some k) n = .ok (.payload data rem) := by
  obtain ⟨ct, hct, hd⟩ := Option.bind_eq_some_iff.1 hp
  unfold ciphertextOf frameSize at hct
  split_ifs at hct with h1 h2 h3
  obtain rfl := Option.some.inj hct
  refine ⟨orNone (packet.drop (6 + beVal (slice packet 2 6))), ?_⟩
  simp only [verifyPacket, nonceBytes_eq hn, if_neg h1, if_neg h2, if_neg h3, hd, ho]

/-- The only plaintext that opens to nothing. -/
theorem hollow_iff : Hollow L plaintext ↔ openPlaintext L plaintext = .ok [] := by
  have hcrc : beBytes 4 (crc32 []) = [0, 0, 0, 0] := by decide
  rw [openPlaintext_ok, hcrc]
  constructor
  · intro h
    refine ⟨h.long, h.footer, ?_, h.checksum⟩
    rw [if_pos h.compressed]
    exact h.empty
  · rintro ⟨hlong, hfoot, hpayload, hsum⟩
    have hbody : bodyField plaintext ≠ [] := by
      apply List.ne_nil_of_length_pos
      rw [bodyField, length_slice]
      omega
    split_ifs at hpayload with hflag
    · exact ⟨hlong, hfoot, hflag, hpayload, hsum⟩
    · exact absurd (Option.some.inj hpayload) hbody

end

/-- **The gate is safe** if and only if the plaintext is not a compressed body of nothing. -/
theorem safeGate_iff (packet : Bytes) (k : K) (n : ℕ) (hn : n < 2 ^ 96) :
    SafeGate L packet k n ↔ ∀ plaintext, plaintextOf L packet k n = some plaintext →
      ¬ Hollow L plaintext := by
  constructor
  · intro h plaintext hp hhollow
    obtain ⟨rem, hv⟩ := verifyPacket_of_opens hn hp (hollow_iff.1 hhollow)
    obtain ⟨type_, value, hdata⟩ := h.opcode [] rem hv
    cases hdata
  · intro hno
    refine ⟨verifyPacket_returns packet k hn, ?_, ?_⟩
    · intro data rem hv
      obtain ⟨plaintext, hp, ho⟩ := verifyPacket_opens hv
      apply List.exists_cons_of_ne_nil
      rintro rfl
      exact hno plaintext hp (hollow_iff.2 ho)
    · intro data rem hv
      obtain ⟨plaintext, hp, ho⟩ := verifyPacket_opens hv
      exact ⟨plaintext, hp, (openPlaintext_ok.1 ho).2.2.2⟩

/-- A packet whose body is the compressed empty string. -/
def hollowPacket : Bytes :=
  packetOf (stub.encrypt 7 (leBytes 12 0) ([1] ++ stubCompress [] ++ [0, 0, 0, 0] ++ FOOTER))

/-- A packet that was built is behind a safe gate. -/
theorem safeGate_sample : 5 < 2 ^ 96 ∧ SafeGate stub (packetOf (sealed stub 7 5 [9])) 7 5 := by
  refine ⟨by decide, (safeGate_iff stub _ 7 5 (by decide)).2 ?_⟩
  intro plaintext hp hhollow
  have hplain : plaintextOf stub (packetOf (sealed stub 7 5 [9])) 7 5 =
      some (packetPlaintext stub [9]) := by decide +kernel
  rw [hplain] at hp
  obtain rfl := Option.some.inj hp
  have hflag : (packetPlaintext stub [9]).headD 0 &&& 1 = 0 := by decide +kernel
  exact hhollow.compressed hflag

/-- **The empty payload.**  The packet is accepted, and there is no first byte to read. -/
theorem hollow_accepted : verifyPacket stub hollowPacket (some 7) 0 = .ok (.payload [] none) ∧
    ¬ SafeGate stub hollowPacket 7 0 := by
  have hv : verifyPacket stub hollowPacket (some 7) 0 = .ok (.payload [] none) := by decide +kernel
  refine ⟨hv, ?_⟩
  intro h
  obtain ⟨type_, value, hdata⟩ := h.opcode [] none hv
  cases hdata

end Pipebomb
