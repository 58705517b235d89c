/-
  Packages that can be run, for the concrete inputs of this development.

  `stub` has the shape of the real packages: a ciphertext is as long as the plaintext
  and a tag of 16 bytes and opens only under its key and nonce, a compressed text is a
  Zstandard frame with one raw block, a public key has 32 bytes.  It gives no secrecy.
-/
import Pipebomb.Packet

namespace Pipebomb

open ByteString

/-- The tag of a ciphertext: the key and the nonce. -/
def stubTag (k : ℕ) (n : Bytes) : Bytes := (leBytes 4 k ++ n ++ List.replicate 16 0).take 16

def stubDecrypt (k : ℕ) (n ct : Bytes) : Option Bytes :=
  if ct.drop (ct.length - 16) = stubTag k n then some (ct.take (ct.length - 16)) else none

@[simp] theorem length_stubTag (k : ℕ) (n : Bytes) : (stubTag k n).length = 16 := by
  simp [stubTag]; omega

def ZSTD_MAGIC : Bytes := [0x28, 0xB5, 0x2F, 0xFD]

/-- A Zstandard frame with one raw block; the content size has one byte or eight. -/
def stubCompress (d : Bytes) : Bytes :=
  let block := leBytes 3 (8 * d.length + 1) ++ d
  if d.length < 256 then ZSTD_MAGIC ++ [0x20] ++ leBytes 1 d.length ++ block
  else ZSTD_MAGIC ++ [0xE0] ++ leBytes 8 d.length ++ block

def stubDecompress (bs : Bytes) : Option Bytes :=
  if bs.take 4 ≠ ZSTD_MAGIC then none
  else if (bs.drop 4).head? = some 0x20 then some (bs.drop 9)
  else if (bs.drop 4).head? = some 0xE0 then some (bs.drop 16)
  else none

theorem stubDecompress_stubCompress (d : Bytes) : stubDecompress (stubCompress d) = some d := by
  by_cases h : d.length < 256
  · have hc : stubCompress d = (ZSTD_MAGIC ++ [0x20] ++ leBytes 1 d.length ++
        leBytes 3 (8 * d.length + 1)) ++ d := by simp [stubCompress, h]
    rw [hc, stubDecompress, if_neg (by simp [ZSTD_MAGIC]), if_pos (by simp [ZSTD_MAGIC]),
      List.drop_left' (by simp [ZSTD_MAGIC])]
  · have hc : stubCompress d = (ZSTD_MAGIC ++ [0xE0] ++ leBytes 8 d.length ++
        leBytes 3 (8 * d.length + 1)) ++ d := by simp [stubCompress, h]
    rw [hc, stubDecompress, if_neg (by simp [ZSTD_MAGIC]), if_neg (by simp [ZSTD_MAGIC]),
      if_pos (by simp [ZSTD_MAGIC]), List.drop_left' (by simp [ZSTD_MAGIC])]

/-- The public key of the connection's server key pair; there are keys for 256
    connections. -/
def stubPublic (c : ConnId) : Bytes := if c < 256 then beBytes 32 c else List.replicate 32 255

def stubClientPublic : Bytes := beBytes 32 256

def stubKey (p : Bytes) : Option ℕ := if beVal p < 256 then some (beVal p) else none

theorem stubKey_stubPublic (c : ConnId) :
    stubKey (stubPublic c) = if c < 256 then some c else none := by
  by_cases h : c < 256
  · have hv : beVal (beBytes 32 c) = c := beVal_beBytes (Nat.lt_of_lt_of_le h (by decide))
    simp [stubKey, stubPublic, h, hv]
  · rw [stubPublic, if_neg h, if_neg h]
    decide

/-- The packages. -/
def stub : Libs ℕ where
  encrypt k n p := p ++ stubTag k n
  decrypt := stubDecrypt
  decrypt_encrypt := by intro k n p; simp [stubDecrypt]
  length_encrypt := by intro k n p; simp
  compress _ d := stubCompress d
  decompress := stubDecompress
  decompress_compress _ d := stubDecompress_stubCompress d
  compress_ne_nil := by intro _ d; unfold stubCompress; split_ifs <;> simp [ZSTD_MAGIC]
  serverPublic := stubPublic
  clientPublic := stubClientPublic
  exchange c p := if p = stubClientPublic ∧ c < 256 then some c else none
  clientExchange := stubKey
  owner k := k
  length_serverPublic := by intro c; unfold stubPublic; split_ifs <;> simp
  length_clientPublic := length_beBytes 32 256
  owner_exchange := by
    intro c p k h
    split_ifs at h
    cases h; rfl
  agree := by intro c; rw [stubKey_stubPublic]; simp

/-! ## Inputs -/

/-- The packet around `data` under the key of the connection. -/
def stubPacket (c : ConnId) (n : ℕ) (data : Bytes) : Bytes := packetOf (sealed stub c n data)

def sampleUuid : PyStr := List.replicate 36 'a'

def sampleDraw : Uuid4 := ⟨sampleUuid, List.replicate 16 7⟩

end Pipebomb
