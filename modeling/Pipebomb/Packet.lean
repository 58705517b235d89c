/-
  Packets (`utils.py`) and the third-party packages under them.

  * `Libs`: ChaCha20-Poly1305, Zstandard and X25519 with HKDF, as functions with the
    documented behaviour the code relies on.
  * `extractPacketFrame`, `constructPacket`, `verifyPacket`: the functions of
    `utils.py`; `sealed` is the ciphertext `constructPacket` puts into a packet and
    `openPlaintext` what `verifyPacket` does after decryption.
  * `packetFraming`: `extractPacketFrame` is a framing, its answers do not change when
    more data arrives.
  * `verify_construct`: a packet that was built under a key and a nonce verifies under
    them and gives its payload, compressed or not.
-/
import Pipebomb.Lib.Framing
import Pipebomb.Py

namespace Pipebomb

open ByteString

/-! ## Third-party packages -/

/-- A connection. -/
abbrev ConnId := ℕ

/-- `ChaCha20Poly1305`: `encrypt` and `decrypt` take the key, the nonce bytes and the
    text; `decrypt` gives `none` where it raises `InvalidTag`. -/
structure Aead (K : Type) where
  encrypt : K → Bytes → Bytes → Bytes
  decrypt : K → Bytes → Bytes → Option Bytes
  decrypt_encrypt (k : K) (n p : Bytes) : decrypt k n (encrypt k n p) = some p
  length_encrypt (k : K) (n p : Bytes) : (encrypt k n p).length = p.length + 16

/-- `zstandard`: `compress` takes the level; `decompress` gives `none` where it raises.
    A compressed frame starts with a magic number, so it is never empty. -/
structure Zstd where
  compress : ℕ → Bytes → Bytes
  decompress : Bytes → Option Bytes
  decompress_compress (l : ℕ) (d : Bytes) : decompress (compress l d) = some d
  compress_ne_nil (l : ℕ) (d : Bytes) : compress l d ≠ []

/-- X25519 followed by HKDF, for the key pair the server makes for each connection and
    the one the client makes.  `exchange` gives `none` where it raises.  A session key of
    the server tells whose key pair it was made with (`owner`). -/
structure KeyExchange (K : Type) where
  serverPublic : ConnId → Bytes
  clientPublic : Bytes
  exchange : ConnId → Bytes → Option K
  clientExchange : Bytes → Option K
  owner : K → ConnId
  length_serverPublic (c : ConnId) : (serverPublic c).length = 32
  length_clientPublic : clientPublic.length = 32
  owner_exchange {c : ConnId} {p : Bytes} {k : K} : exchange c p = some k → owner k = c
  agree (c : ConnId) : exchange c clientPublic = clientExchange (serverPublic c)

/-- The packages together. -/
structure Libs (K : Type) extends Aead K, Zstd, KeyExchange K

/-! ## The functions of `utils.py` -/

def HEADER : Bytes := [0x91, 0x93]
def FOOTER : Bytes := [0x80, 0x38]
def FRAME_HEADER_SIZE : ℕ := 6
def ACK : Bytes := [0, 69, 82, 82, 0]

structure Request where
  return_uuid : Bytes
  key : Bytes
  request : Bytes
  request_uuid : Bytes
  deriving DecidableEq, Repr

structure Response where
  key : Bytes
  response : Bytes
  response_uuid : Bytes
  deriving DecidableEq, Repr

/-- The frame at the front of the buffer, the remaining buffer, and an error code. -/
def extractPacketFrame (buffer : Bytes) : Option Bytes × Bytes × Option ℕ :=
  if buffer.length < FRAME_HEADER_SIZE then (none, buffer, none)
  else if buffer.take 2 ≠ HEADER then (none, [], some 2)
  else
    let ciphertextSize := beVal (slice buffer 2 FRAME_HEADER_SIZE)
    let frameSize := FRAME_HEADER_SIZE + ciphertextSize
    if buffer.length < frameSize then (none, buffer, none)
    else (some (buffer.take frameSize), buffer.drop frameSize, none)

variable {K : Type} (L : Libs K)

/-- The plaintext of a packet: flags, body, checksum and footer. -/
def packetPlaintext (data : Bytes) : Bytes :=
  let compressedPayload := L.compress 9 data
  let useCompression := compressedPayload.length < data.length
  let flags : UInt8 := if useCompression then 1 else 0
  let body := if useCompression then compressedPayload else data
  let checksum := beBytes 4 (crc32 data)
  [flags] ++ body ++ checksum ++ FOOTER

/-- Build a packet around `data`. -/
def constructPacket (data : Bytes) (cipher : Option K) (txNonce : ℕ) : Except PyErr Bytes :=
  if data = [] then .error (.runtimeError "Empty packet")
  else match nonceBytes txNonce with
    | .error e => .error e
    | .ok nonce => match cipher with
      | none => .error .attributeError
      | some k =>
        let ciphertext := L.encrypt k nonce (packetPlaintext L data)
        match packI ciphertext.length with
        | .error e => .error e
        | .ok size => .ok (HEADER ++ size ++ ciphertext)

/-- What `verifyPacket` returns: an error code, or the payload and the bytes behind the
    packet. -/
inductive Verified where
  | code (n : ℕ)
  | payload (data : Bytes) (remainder : Option Bytes)
  deriving DecidableEq, Repr

/-- `verifyPacket` after decryption: the payload, or an error code. -/
def openPlaintext (plaintext : Bytes) : Except ℕ Bytes :=
  let n := plaintext.length
  if n < 8 then .error 2
  else if plaintext.drop (n - 2) ≠ FOOTER then .error 2
  else
    let checksum := slice plaintext (n - 6) (n - 2)
    let flags := plaintext.headD 0
    let body := slice plaintext 1 (n - 6)
    if body = [] then .error 2
    else
      let isCompressed := flags &&& 1 ≠ 0
      match (if isCompressed then L.decompress body else some body) with
      | none => .error 2
      | some payload => if beBytes 4 (crc32 payload) ≠ checksum then .error 3 else .ok payload

/-- `bs or None`. -/
def orNone (bs : Bytes) : Option Bytes := if bs = [] then none else some bs

/-- Check, decrypt and unpack a packet. -/
def verifyPacket (packet : Bytes) (cipher : Option K) (rxNonce : ℕ) : Except PyErr Verified :=
  match nonceBytes rxNonce with
  | .error e => .error e
  | .ok nonce =>
    if packet.length < 6 then .ok (.code 2)
    else if packet.take 2 ≠ HEADER then .ok (.code 2)
    else
      let ciphertextSize := beVal (slice packet 2 6)
      if packet.length < 6 + ciphertextSize then .ok (.code 2)
      else
        let ciphertext := slice packet 6 (6 + ciphertextSize)
        let remainder := orNone (packet.drop (6 + ciphertextSize))
        match cipher with
        | none => .error .attributeError
        | some k => match L.decrypt k nonce ciphertext with
          | none => .ok (.code 3)
          | some plaintext => match openPlaintext L plaintext with
            | .error n => .ok (.code n)
            | .ok payload => .ok (.payload payload remainder)

/-! ## Framing -/

/-- `extractPacketFrame` as the cut of a framing. -/
def cutPacket (buffer : Bytes) : Cut UInt8 ℕ :=
  match extractPacketFrame buffer with
  | (_, _, some e) => .bad e
  | (some f, r, none) => .frame f r
  | (none, _, none) => .more

/-- The length a complete frame has, by its header. -/
def frameSize (buffer : Bytes) : ℕ := 6 + beVal (slice buffer 2 6)

theorem frameSize_append {b : Bytes} (h : 6 ≤ b.length) (c : Bytes) :
    frameSize (b ++ c) = frameSize b := by
  have hs : slice (b ++ c) 2 6 = slice b 2 6 := by
    simp only [slice]
    rw [List.drop_append_of_le_length (by omega), List.take_append_of_le_length (by simp; omega)]
  rw [frameSize, frameSize, hs]

theorem cutPacket_eq (b : Bytes) :
    cutPacket b = if b.length < 6 then .more else if b.take 2 ≠ HEADER then .bad 2
      else if b.length < frameSize b then .more
      else .frame (b.take (frameSize b)) (b.drop (frameSize b)) := by
  unfold cutPacket extractPacketFrame FRAME_HEADER_SIZE frameSize
  by_cases h1 : b.length < 6
  · rw [if_pos h1, if_pos h1]
  by_cases h2 : b.take 2 ≠ HEADER
  · rw [if_neg h1, if_neg h1, if_pos h2, if_pos h2]
  by_cases h3 : b.length < 6 + beVal (slice b 2 6)
  · rw [if_neg h1, if_neg h1, if_neg h2, if_neg h2, if_pos h3]; simp only [if_pos h3]
  · rw [if_neg h1, if_neg h1, if_neg h2, if_neg h2, if_neg h3]; simp only [if_neg h3]

theorem cutPacket_frame {b f r : Bytes} (h : cutPacket b = .frame f r) :
    6 ≤ b.length ∧ b.take 2 = HEADER ∧ frameSize b ≤ b.length ∧ f = b.take (frameSize b) ∧
      r = b.drop (frameSize b) := by
  rw [cutPacket_eq] at h
  split_ifs at h with h1 h2 h3
  simp only [Cut.frame.injEq] at h
  exact ⟨by omega, by simpa using h2, by omega, h.1.symm, h.2.symm⟩

/-- **Packets are a framing.** -/
def packetFraming : Framing UInt8 ℕ where
  cut := cutPacket
  split := by
    intro b f r h
    obtain ⟨h6, -, hle, rfl, rfl⟩ := cutPacket_frame h
    refine ⟨(List.take_append_drop _ _).symm, List.ne_nil_of_length_pos ?_⟩
    have : 6 ≤ frameSize b := Nat.le_add_right _ _
    rw [List.length_take]; omega
  frame_append := by
    intro b f r c h
    obtain ⟨h6, hh, hle, rfl, rfl⟩ := cutPacket_frame h
    rw [cutPacket_eq, frameSize_append h6, List.take_append_of_le_length (by omega : 2 ≤ b.length),
      if_neg (by simp; omega), if_neg (by simpa using hh), if_neg (by simp; omega),
      List.take_append_of_le_length hle, List.drop_append_of_le_length hle]
  bad_append := by
    intro b e c h
    rw [cutPacket_eq] at h ⊢
    split_ifs at h with h1 h2 h3
    rw [if_neg (by simp; omega), List.take_append_of_le_length (by omega : 2 ≤ b.length),
      if_pos h2]
    exact h

theorem cut_eq_cutPacket (b : Bytes) : packetFraming.cut b = cutPacket b := rfl

/-! ## Built packets -/

/-- The ciphertext of the packet that carries `data` under key `k` and nonce `n`. -/
def sealed (k : K) (n : ℕ) (data : Bytes) : Bytes := L.encrypt k (leBytes 12 n) (packetPlaintext L data)

/-- A payload that fits into one packet: its ciphertext's length fits in 32 bits. -/
def Fits (data : Bytes) : Prop := (packetPlaintext L data).length + 16 < 2 ^ 32

instance (data : Bytes) : Decidable (Fits L data) := inferInstanceAs (Decidable (_ < _))

/-- A short payload fits: what compression saves it saves. -/
theorem fits_of_length {data : Bytes} (h : data.length + 23 < 2 ^ 32) : Fits L data := by
  have hlen : (packetPlaintext L data).length ≤ data.length + 7 := by
    unfold packetPlaintext
    by_cases hc : (L.compress 9 data).length < data.length
    · simp only [hc, if_true, List.length_append, List.length_singleton, length_beBytes]
      simp [FOOTER]
      omega
    · simp only [hc, if_false, List.length_append, List.length_singleton, length_beBytes]
      simp [FOOTER]
      omega
  unfold Fits
  omega

theorem length_sealed (k : K) (n : ℕ) (data : Bytes) :
    (sealed L k n data).length = (packetPlaintext L data).length + 16 := L.length_encrypt _ _ _

/-- The packet with ciphertext `ct`. -/
def packetOf (ct : Bytes) : Bytes := HEADER ++ beBytes 4 ct.length ++ ct

theorem constructPacket_eq {data : Bytes} (hd : data ≠ []) (hf : Fits L data) {n : ℕ}
    (hn : n < 2 ^ 96) (k : K) :
    constructPacket L data (some k) n = .ok (packetOf (sealed L k n data)) := by
  have hs : (L.encrypt k (leBytes 12 n) (packetPlaintext L data)).length < 2 ^ 32 := by
    rw [L.length_encrypt]; exact hf
  simp only [constructPacket, if_neg hd, nonceBytes_eq hn, packI_eq hs]
  rfl

/-- **When a packet can be built**, and which it is. -/
theorem constructPacket_ok {data : Bytes} {cipher : Option K} {n : ℕ} {pkt : Bytes} :
    constructPacket L data cipher n = .ok pkt ↔
      data ≠ [] ∧ n < 2 ^ 96 ∧ Fits L data ∧
        ∃ k, cipher = some k ∧ pkt = packetOf (sealed L k n data) := by
  constructor
  · intro h
    have hd : data ≠ [] := by
      rintro rfl; simp [constructPacket] at h
    have hn : n < 2 ^ 96 := by
      by_contra hn
      simp [constructPacket, hd, nonceBytes_error hn] at h
    cases cipher with
    | none => simp [constructPacket, hd, nonceBytes_eq hn] at h
    | some k =>
      have hf : Fits L data := by
        by_contra hf
        have : ¬ (L.encrypt k (leBytes 12 n) (packetPlaintext L data)).length < 2 ^ 32 := by
          rw [L.length_encrypt]; exact hf
        simp only [constructPacket, if_neg hd, nonceBytes_eq hn, packI, if_neg this] at h
        cases h
      rw [constructPacket_eq L hd hf hn] at h
      exact ⟨hd, hn, hf, k, rfl, by cases h; rfl⟩
  · rintro ⟨hd, hn, hf, k, rfl, rfl⟩
    exact constructPacket_eq L hd hf hn k

theorem openPlaintext_packetPlaintext {data : Bytes} (hd : data ≠ []) :
    openPlaintext L (packetPlaintext L data) = .ok data := by
  have hpos := List.length_pos_iff.2 hd
  have key : ∀ (fl : UInt8) (body : Bytes), body ≠ [] →
      (if fl &&& 1 ≠ 0 then L.decompress body else some body) = some data →
      openPlaintext L ([fl] ++ body ++ beBytes 4 (crc32 data) ++ FOOTER) = .ok data := by
    intro fl body hb hdec
    have hlen : ([fl] ++ body ++ beBytes 4 (crc32 data) ++ FOOTER).length = body.length + 7 := by
      simp [FOOTER]
    have hbl := List.length_pos_iff.2 hb
    have hfoot : ([fl] ++ body ++ beBytes 4 (crc32 data) ++ FOOTER).drop (body.length + 7 - 2) =
        FOOTER := List.drop_left' (by simp)
    have hsum : slice ([fl] ++ body ++ beBytes 4 (crc32 data) ++ FOOTER) (body.length + 7 - 6)
        (body.length + 7 - 2) = beBytes 4 (crc32 data) := by
      rw [List.append_assoc]
      exact slice_mid (by simp) (by simp)
    have hbody : slice ([fl] ++ body ++ beBytes 4 (crc32 data) ++ FOOTER) 1 (body.length + 7 - 6) =
        body := by
      rw [List.append_assoc, List.append_assoc]
      exact slice_mid rfl (by omega)
    have hhead : ([fl] ++ body ++ beBytes 4 (crc32 data) ++ FOOTER).headD 0 = fl := rfl
    simp only [openPlaintext, hlen, hfoot, hsum, hbody, hhead, hdec]
    rw [if_neg (by omega), if_neg (by simp), if_neg hb, if_neg (by simp)]
  unfold packetPlaintext
  by_cases hc : (L.compress 9 data).length < data.length
  · simp only [hc, if_true]
    exact key 1 _ (L.compress_ne_nil _ _) (by
      rw [if_pos (by decide)]; exact L.decompress_compress _ _)
  · simp only [hc, if_false]
    exact key 0 _ hd (by rw [if_neg (by decide)])

/-- A packet is cut off the stream exactly. -/
theorem cutPacket_packetOf {ct : Bytes} (h : ct.length < 2 ^ 32) (rest : Bytes) :
    cutPacket (packetOf ct ++ rest) = .frame (packetOf ct) rest := by
  have hlen : (packetOf ct).length = 6 + ct.length := by simp [packetOf, HEADER]; omega
  have hsize : frameSize (packetOf ct ++ rest) = (packetOf ct).length := by
    rw [frameSize_append (by omega), frameSize]
    have : slice (packetOf ct) 2 6 = beBytes 4 ct.length := by
      rw [packetOf, List.append_assoc]
      exact slice_mid rfl (by simp)
    rw [this, beVal_beBytes4 h, hlen]
  have hhead : (packetOf ct ++ rest).take 2 = HEADER := by
    rw [packetOf, List.append_assoc, List.append_assoc]
    exact List.take_left' rfl
  rw [cutPacket_eq, if_neg (by simp; omega), if_neg (by simpa using hhead), hsize,
    if_neg (by simp), List.take_left' rfl, List.drop_left' rfl]

/-- What `verifyPacket` decrypts: the ciphertext of a packet of sufficient length. -/
def ciphertextOf (packet : Bytes) : Option Bytes :=
  if packet.length < 6 then none
  else if packet.take 2 ≠ HEADER then none
  else if packet.length < frameSize packet then none
  else some (slice packet 6 (frameSize packet))

theorem ciphertextOf_packetOf {ct : Bytes} (h : ct.length < 2 ^ 32) :
    ciphertextOf (packetOf ct) = some ct := by
  obtain ⟨h6, hh, hle, -, hr⟩ := cutPacket_frame (by simpa using cutPacket_packetOf h [])
  have hlen : (packetOf ct).length = frameSize (packetOf ct) := by
    have := congrArg List.length hr
    simp at this; omega
  rw [ciphertextOf, if_neg (by omega), if_neg (by simpa using hh), if_neg (by omega), ← hlen]
  have hpk : packetOf ct = (HEADER ++ beBytes 4 ct.length) ++ ct := rfl
  have hl : (HEADER ++ beBytes 4 ct.length).length = 6 := by simp [HEADER]
  nth_rewrite 1 [hpk]
  rw [slice_end hl.symm (by rw [hpk, List.length_append, hl])]

/-- The length of a ciphertext fits into the header. -/
theorem length_ciphertextOf {packet ct : Bytes} (h : ciphertextOf packet = some ct) :
    ct.length < 2 ^ 32 := by
  unfold ciphertextOf at h
  split_ifs at h with h1 h2 h3
  cases h
  have hlen : (slice packet 2 6).length = 4 := by rw [length_slice]; omega
  have hsize := beVal_lt (slice packet 2 6)
  rw [hlen] at hsize
  rw [length_slice, frameSize]
  omega

/-- **An accepted payload** came out of the decryption of the packet's ciphertext. -/
theorem verifyPacket_payload {packet : Bytes} {cipher : Option K} {n : ℕ} {data : Bytes}
    {rem : Option Bytes} (h : verifyPacket L packet cipher n = .ok (.payload data rem)) :
    n < 2 ^ 96 ∧ ∃ k ct plaintext, cipher = some k ∧ ciphertextOf packet = some ct ∧
      L.decrypt k (leBytes 12 n) ct = some plaintext ∧ openPlaintext L plaintext = .ok data := by
  by_cases hn : n < 2 ^ 96
  · simp only [verifyPacket, nonceBytes_eq hn] at h
    refine ⟨hn, ?_⟩
    split_ifs at h with h1 h2 h3
    · simp at h
    · simp at h
    · simp at h
    rw [ciphertextOf, frameSize, if_neg h1, if_neg h2, if_neg h3]
    cases cipher with
    | none => simp at h
    | some k =>
      simp only at h
      split at h
      · simp at h
      · rename_i pt hdec
        split at h
        · simp at h
        · rename_i payload hop
          simp only [Except.ok.injEq, Verified.payload.injEq] at h
          obtain ⟨rfl, -⟩ := h
          exact ⟨k, _, pt, rfl, rfl, hdec, hop⟩
  · simp [verifyPacket, nonceBytes_error hn] at h

/-- Verification of a packet with a given ciphertext. -/
theorem verifyPacket_packetOf {ct pt data : Bytes} (hl : ct.length < 2 ^ 32) {k : K} {n : ℕ}
    (hn : n < 2 ^ 96) (hd : L.decrypt k (leBytes 12 n) ct = some pt)
    (ho : openPlaintext L pt = .ok data) :
    verifyPacket L (packetOf ct) (some k) n = .ok (.payload data none) := by
  have hct := ciphertextOf_packetOf hl
  unfold ciphertextOf frameSize at hct
  split_ifs at hct with h1 h2 h3
  simp only [Option.some.injEq] at hct
  have hrest : (packetOf ct).drop (6 + beVal (slice (packetOf ct) 2 6)) = [] := by
    obtain ⟨-, -, -, -, hr⟩ := cutPacket_frame (by simpa using cutPacket_packetOf hl [])
    exact hr.symm
  simp only [verifyPacket, nonceBytes_eq hn, if_neg h1, if_neg h2, if_neg h3, hct, hd, ho, hrest]
  rfl

/-- **A built packet verifies** under its key and nonce. -/
theorem verify_construct {data pkt : Bytes} {k : K} {n : ℕ}
    (h : constructPacket L data (some k) n = .ok pkt) :
    verifyPacket L pkt (some k) n = .ok (.payload data none) := by
  obtain ⟨hd, hn, hf, k', hk, rfl⟩ := (constructPacket_ok L).1 h
  cases hk
  exact verifyPacket_packetOf L (by rw [length_sealed]; exact hf) hn (L.decrypt_encrypt _ _ _)
    (openPlaintext_packetPlaintext L hd)

end Pipebomb
