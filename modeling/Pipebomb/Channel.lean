/-
  One direction of a connection: packets built one after the other, cut into chunks
  by the transport, and received.

  The receive loop is the one of `handle_client` and of `recv_loop`: append the chunk,
  cut off frames with `extractPacketFrame`, verify each under the next nonce.

  * `drain_packets`: a stream that starts with packets built under consecutive nonces
    is received packet by packet, whatever follows them.
  * `channel_delivery`: for every way of cutting the stream into chunks the loop
    delivers exactly the payloads, in order, and leaves nothing behind.
-/
import Pipebomb.Packet
import Pipebomb.Stub

namespace Pipebomb

open ByteString

variable {K : Type} (L : Libs K)

/-- Why a receive loop stops at a frame: an error code or an exception. -/
inductive RecvStop where
  | code (n : ℕ)
  | exn (e : PyErr)
  deriving DecidableEq, Repr

/-- Verify the next frame; the state is the receive nonce and the payloads so far. -/
def verifyStep (k : K) (s : ℕ × List Bytes) (frame : Bytes) :
    (ℕ × List Bytes) × Option RecvStop :=
  match verifyPacket L frame (some k) s.1 with
  | .error e => (s, some (.exn e))
  | .ok (.code n) => ((s.1 + 1, s.2), some (.code n))
  | .ok (.payload d _) => ((s.1 + 1, s.2 ++ [d]), none)

/-- The receive loop from nonce `t` on the chunks. -/
def receiveLoop (k : K) (t : ℕ) (chunks : List Bytes) :
    Framing.Loop UInt8 ℕ (ℕ × List Bytes) RecvStop :=
  packetFraming.feedAll (verifyStep L k) ((t, []), [], none) chunks

/-- The packets of the payloads under the nonces from `t` on, one after the other. -/
def constructPackets (k : K) : ℕ → List Bytes → Except PyErr Bytes
  | _, [] => .ok []
  | t, p :: ps => match constructPacket L p (some k) t with
    | .error e => .error e
    | .ok pkt => match constructPackets k (t + 1) ps with
      | .error e => .error e
      | .ok wire => .ok (pkt ++ wire)

theorem constructPackets_cons {k : K} {t : ℕ} {p : Bytes} {ps : List Bytes} {wire : Bytes}
    (h : constructPackets L k t (p :: ps) = .ok wire) :
    ∃ pkt w, constructPacket L p (some k) t = .ok pkt ∧ constructPackets L k (t + 1) ps = .ok w ∧
      wire = pkt ++ w := by
  rw [constructPackets] at h
  rcases hp : constructPacket L p (some k) t with e | pkt
  · simp [hp] at h
  · rcases hw : constructPackets L k (t + 1) ps with e | w
    · simp [hp, hw] at h
    · simp only [hp, hw, Except.ok.injEq] at h
      exact ⟨pkt, w, rfl, rfl, h.symm⟩

/-- The packets can be built if the payloads are not empty, fit, and the nonces are
    representable. -/
theorem constructPackets_total {k : K} {ps : List Bytes} (hne : ∀ p ∈ ps, p ≠ [])
    (hfit : ∀ p ∈ ps, Fits L p) : ∀ {t : ℕ}, t + ps.length ≤ 2 ^ 96 →
      ∃ wire, constructPackets L k t ps = .ok wire := by
  induction ps with
  | nil => exact fun _ => ⟨[], rfl⟩
  | cons p ps ih =>
    intro t ht
    rw [List.length_cons] at ht
    have hp := constructPacket_eq L (hne p (by simp)) (hfit p (by simp)) (show t < 2 ^ 96 by omega) k
    obtain ⟨w, hw⟩ := ih (fun q hq => hne q (by simp [hq])) (fun q hq => hfit q (by simp [hq]))
      (t := t + 1) (by omega)
    exact ⟨_, by simp only [constructPackets, hp, hw]; rfl⟩

/-- One packet at the front of the stream is received. -/
theorem drain_packet {k : K} {t : ℕ} {p pkt : Bytes} (h : constructPacket L p (some k) t = .ok pkt)
    (ds : List Bytes) (rest : Bytes) :
    packetFraming.drain (verifyStep L k) (t, ds) (pkt ++ rest) =
      packetFraming.drain (verifyStep L k) (t + 1, ds ++ [p]) rest := by
  have hcut : packetFraming.cut (pkt ++ rest) = .frame pkt rest := by
    obtain ⟨-, -, hf, k', hk, rfl⟩ := (constructPacket_ok L).1 h
    exact cutPacket_packetOf (by rw [length_sealed]; exact hf) rest
  refine Framing.drain_frame _ _ hcut ?_
  simp only [verifyStep, verify_construct L h]

/-- **A stream that starts with packets** built under consecutive nonces. -/
theorem drain_packets {k : K} {ps : List Bytes} : ∀ {t : ℕ} {wire : Bytes},
    constructPackets L k t ps = .ok wire → ∀ (ds : List Bytes) (rest : Bytes),
      packetFraming.drain (verifyStep L k) (t, ds) (wire ++ rest) =
        packetFraming.drain (verifyStep L k) (t + ps.length, ds ++ ps) rest := by
  induction ps with
  | nil => intro t wire h ds rest; cases h; simp
  | cons p ps ih =>
    intro t wire h ds rest
    obtain ⟨pkt, w, hp, hw, rfl⟩ := constructPackets_cons L h
    rw [List.append_assoc, drain_packet L hp, ih hw]
    simp [Nat.add_comm, Nat.add_left_comm]

theorem cut_nil : packetFraming.cut [] = .more := rfl

/-- **Channel delivery.**  Payloads that are not empty and fit into a packet are built
    under every starting nonce that leaves the nonces representable, and every way of
    cutting the stream into chunks delivers exactly these payloads, in order, with no
    error and nothing left in the buffer. -/
theorem channel_delivery (k : K) (t : ℕ) (ps : List Bytes) (hne : ∀ p ∈ ps, p ≠ [])
    (hfit : ∀ p ∈ ps, Fits L p) :
    (t + ps.length ≤ 2 ^ 96 → ∃ wire, constructPackets L k t ps = .ok wire) ∧
    ∀ wire, constructPackets L k t ps = .ok wire →
      ∀ chunks : List Bytes, (∀ c ∈ chunks, c ≠ []) → chunks.flatten = wire →
        receiveLoop L k t chunks = ((t + ps.length, ps), [], none) := by
  refine ⟨fun ht => constructPackets_total L hne hfit ht, fun wire hw chunks _ hc => ?_⟩
  refine Framing.feedAll_eq _ _ chunks cut_nil ?_
  have hd := drain_packets L hw [] []
  rw [List.append_nil] at hd
  rw [List.nil_append, hc, hd, Framing.drain_more _ _ cut_nil, List.nil_append]

/-- Two payloads, one of a single byte. -/
theorem channel_delivery_sample :
    (5 + [[1, 2], [3]].length ≤ 2 ^ 96 →
      ∃ wire, constructPackets stub 7 5 [[1, 2], [3]] = .ok wire) ∧
    ∀ wire, constructPackets stub 7 5 [[1, 2], [3]] = .ok wire →
      ∀ chunks : List Bytes, (∀ c ∈ chunks, c ≠ []) → chunks.flatten = wire →
        receiveLoop stub 7 5 chunks = ((7, [[1, 2], [3]]), [], none) :=
  channel_delivery stub 7 5 [[1, 2], [3]] (by decide) (by decide)

end Pipebomb
