/-
  The packets of a connection, as bytes.

  * `packet` is a built packet as it is written, `opening` the call of `decrypt` that opens
    it; `Numbered` says that packets are built under one key and the nonces from 0 on.
  * `tally`: what was seen of one end, by kind.  `tally_append` splits it over a run.
  * `stream`: what an end writes, its public key and then its packets; `next_packet` is the
    message after those that were read.
-/
import Pipebomb.Channel
import Pipebomb.Lib.Inlet
import Pipebomb.ServerLink

namespace Pipebomb

open ByteString

variable {K : Type} (L : Libs K)

/-- A built packet as it is written. -/
def packet (x : K × ℕ × Bytes) : Bytes := packetOf (sealed L x.1 x.2.1 x.2.2)

/-- The call of `decrypt` that opens a packet. -/
def opening (x : K × ℕ × Bytes) : K × ℕ × Bytes := (x.1, x.2.1, sealed L x.1 x.2.1 x.2.2)

/-- The packets are built under the key of the connection and the nonces from 0 on. -/
def Numbered (c : ConnId) (bs : List (K × ℕ × Bytes)) : Prop :=
  ∀ m x, bs[m]? = some x → x.2.1 = m ∧ L.exchange c L.clientPublic = some x.1 ∧
    constructPacket L x.2.2 (some x.1) x.2.1 = .ok (packet L x)

/-- The messages an end writes: its public key, then its packets. -/
def stream (key : Bytes) (bs : List (K × ℕ × Bytes)) : List Bytes := key :: bs.map (packet L)

variable {c : ConnId} {bs : List (K × ℕ × Bytes)} {k : K} {n j : ℕ} {data : Bytes}

theorem Numbered.nil : Numbered L c ([] : List (K × ℕ × Bytes)) := fun m x h => by simp at h

theorem Numbered.snoc (h : Numbered L c bs) (hk : L.exchange c L.clientPublic = some k)
    (hp : constructPacket L data (some k) bs.length = .ok (packet L (k, bs.length, data))) :
    Numbered L c (bs ++ [(k, bs.length, data)]) := by
  intro m x hx
  rcases Nat.lt_trichotomy m bs.length with hm | rfl | hm
  · rw [List.getElem?_append_left hm] at hx
    exact h m x hx
  · rw [List.getElem?_append_right (Nat.le_refl _), Nat.sub_self] at hx
    cases hx
    exact ⟨rfl, hk, hp⟩
  · rw [List.getElem?_eq_none (by simp; omega)] at hx
    cases hx

/-- The buffer is kept while the reader waits. -/
theorem extract_more {b : Bytes} (h : packetFraming.cut b = .more) :
    extractPacketFrame b = (none, b, none) := by
  have hcut : cutPacket b = .more := h
  unfold cutPacket extractPacketFrame at hcut
  unfold extractPacketFrame
  split_ifs at hcut ⊢
  · rfl
  · simp only at hcut ⊢
    split_ifs at hcut ⊢
    rfl

theorem extract_frame {b f r : Bytes} (h : packetFraming.cut b = .frame f r) :
    extractPacketFrame b = (some f, r, none) := by
  have hcut : cutPacket b = .frame f r := h
  unfold cutPacket at hcut
  rcases hx : extractPacketFrame b with ⟨_ | f', r', _ | e⟩
  · rw [hx] at hcut; cases hcut
  · rw [hx] at hcut; cases hcut
  · rw [hx] at hcut; cases hcut; rfl
  · rw [hx] at hcut; cases hcut

/-- A packet that can be built is cut off every stream. -/
theorem complete_packet {x : K × ℕ × Bytes}
    (h : constructPacket L x.2.2 (some x.1) x.2.1 = .ok (packet L x)) :
    packetFraming.Complete (packet L x) := by
  obtain ⟨-, -, hf, -⟩ := (constructPacket_ok L).1 h
  intro r
  have hshort : (sealed L x.1 x.2.1 x.2.2).length < 2 ^ 32 := by
    rw [length_sealed]
    exact hf
  rw [cut_eq_cutPacket]
  exact cutPacket_packetOf hshort r

/-- **The end that reads it opens a built packet**, under its key and nonce. -/
theorem open_packet {x : K × ℕ × Bytes} (p : Party)
    (h : constructPacket L x.2.2 (some x.1) x.2.1 = .ok (packet L x)) :
    decryptCall p (packet L x) (some x.1) x.2.1 =
        [.decrypt p x.1 x.2.1 (sealed L x.1 x.2.1 x.2.2)] ∧
      verifyPacket L (packet L x) (some x.1) x.2.1 = .ok (.payload x.2.2 none) := by
  obtain ⟨-, hn, hf, -⟩ := (constructPacket_ok L).1 h
  have hct : ciphertextOf (packet L x) = some (sealed L x.1 x.2.1 x.2.2) :=
    ciphertextOf_packetOf (by rw [length_sealed]; exact hf)
  exact ⟨by rw [decryptCall_eq hct, if_pos hn], verify_construct L h⟩

theorem Numbered.complete (h : Numbered L c bs) (key : Bytes) :
    ∀ f ∈ (stream L key bs).drop (j + 1), packetFraming.Complete f := by
  intro f hf
  rw [stream, List.drop_succ_cons] at hf
  obtain ⟨x, hx, rfl⟩ := List.mem_map.1 (List.mem_of_mem_drop hf)
  obtain ⟨m, hm⟩ := List.mem_iff_getElem?.1 hx
  exact complete_packet L (h m x hm).2.2

/-- The message after the key and `j` packets. -/
theorem next_packet {key f : Bytes} (h : (stream L key bs)[j + 1]? = some f) :
    ∃ x, bs[j]? = some x ∧ f = packet L x := by
  rw [stream, List.getElem?_cons_succ, List.getElem?_map, Option.map_eq_some_iff] at h
  obtain ⟨x, hx, rfl⟩ := h
  exact ⟨x, hx, rfl⟩

@[simp] theorem length_stream (key : Bytes) : (stream L key bs).length = bs.length + 1 := by
  simp [stream]

/-! ## What was seen of one end -/

/-- The calls of `decrypt` of the party. -/
def opened (p : Party) (os : List (Obs K)) : List (K × ℕ × Bytes) :=
  os.filterMap fun
    | .decrypt p' k n ct => if p' = p then some (k, n, ct) else none
    | _ => none

/-- What the party handed to its socket, send by send. -/
def sends (p : Party) (os : List (Obs K)) : List Bytes :=
  os.filterMap fun
    | .write p' bs => if p' = p then some bs else none
    | _ => none

/-- The payloads that the handler of the connection answered, with the replies. -/
def answers (p : Party) (os : List (Obs K)) : List (Bytes × Bytes) :=
  os.filterMap fun
    | .answered c _ data reply => if .server c = p then some (data, reply) else none
    | _ => none

/-- What was seen of one end: the packets it built, what it decrypted and accepted, what it
    wrote and what it answered. -/
structure Tally (K : Type) where
  built : List (K × ℕ × Bytes)
  opened : List (K × ℕ × Bytes)
  accepted : List Bytes
  sends : List Bytes
  answers : List (Bytes × Bytes)

def Tally.none : Tally K := ⟨[], [], [], [], []⟩

/-- What was seen of one end first and then. -/
def Tally.append (T T' : Tally K) : Tally K where
  built := T.built ++ T'.built
  opened := T.opened ++ T'.opened
  accepted := T.accepted ++ T'.accepted
  sends := T.sends ++ T'.sends
  answers := T.answers ++ T'.answers

def tally (p : Party) (os : List (Obs K)) : Tally K :=
  ⟨built L p os, opened p os, acceptedBy p os, sends p os, answers p os⟩

variable {p : Party} {os o : List (Obs K)} {T : Tally K}

theorem opened_append_obs (p : Party) (os o : List (Obs K)) :
    opened p (os ++ o) = opened p os ++ opened p o := List.filterMap_append

theorem tally_append (os o : List (Obs K)) :
    tally L p (os ++ o) = (tally L p os).append (tally L p o) := by
  simp [tally, Tally.append, built, opened, acceptedBy, sends, answers, List.filterMap_append]

@[simp] theorem tally_nil : tally L p ([] : List (Obs K)) = .none := rfl

/-- Bytes that are handed to the socket. -/
theorem tally_write (p : Party) (bs : Bytes) :
    tally L p [.write p bs] = ⟨[], [], [], [bs], []⟩ := by
  simp [tally, built, opened, acceptedBy, sends, answers]

@[simp] theorem Tally.none_append : Tally.none.append T = T := by
  simp [Tally.append, Tally.none]

@[simp] theorem Tally.append_none : T.append .none = T := by simp [Tally.append, Tally.none]

theorem Tally.append_assoc (T T' T'' : Tally K) :
    (T.append T').append T'' = T.append (T'.append T'') := by
  simp [Tally.append]

theorem written_eq (p : Party) (os : List (Obs K)) : Net.written p os = (sends p os).flatten := rfl

theorem tally_of_not (h : ∀ x ∈ os, ¬ x.Of p) : tally L p os = .none := by
  have hnone : ∀ {β : Type} {f : Obs K → Option β}, (∀ x, ¬ x.Of p → f x = none) → os.filterMap f = [] :=
    fun hf => List.filterMap_eq_nil_iff.2 fun x hx => hf x (h x hx)
  simp only [tally, Tally.none, Tally.mk.injEq]
  refine ⟨hnone fun x hx => ?_, hnone fun x hx => ?_, hnone fun x hx => ?_, hnone fun x hx => ?_,
    hnone fun x hx => ?_⟩
  · cases x with
    | encrypt q => exact if_neg fun hq => hx hq.1
    | _ => rfl
  · cases x with
    | decrypt q => exact if_neg hx
    | _ => rfl
  · cases x with
    | accepted q => exact if_neg hx
    | _ => rfl
  · cases x with
    | write q => exact if_neg hx
    | _ => rfl
  · cases x with
    | answered q => exact if_neg hx
    | _ => rfl

/-- What is seen of a coroutine of the server is about its own end. -/
theorem AllBy.of {uses : Option PyStr} (h : AllBy c uses os) (hp : p ≠ .server c) :
    ∀ x ∈ os, ¬ x.Of p := by
  intro x hx ho
  have hby := h x hx
  cases x with
  | encrypt q | decrypt q | accepted q | write q =>
    obtain rfl : q = .server c := hby
    exact hp (Eq.symm ho)
  | answered c' =>
    obtain rfl : c' = c := hby.1
    exact hp (Eq.symm ho)
  | _ => exact ho

/-! ## Building and opening -/

/-- Building a packet: it can be built, or it is not. -/
theorem tally_construct (p : Party) (k : K) (n : ℕ) (data : Bytes) :
    (constructPacket L data (some k) n = .ok (packet L (k, n, data)) ∧
        tally L p (encryptCall p data (some k) n) = ⟨[(k, n, data)], [], [], [], []⟩) ∨
      ∃ e, constructPacket L data (some k) n = .error e ∧
        tally L p (encryptCall p data (some k) n) = .none := by
  rcases hp : constructPacket L data (some k) n with e | pkt
  · refine .inr ⟨e, rfl, ?_⟩
    by_cases hc : data ≠ [] ∧ n < 2 ^ 96
    · have hf : ¬ Fits L data := by
        intro hf
        rw [constructPacket_eq L hc.1 hf hc.2] at hp
        cases hp
      simp [tally, Tally.none, encryptCall, hc, built, hf, opened, acceptedBy, sends, answers]
    · rw [encryptCall]
      simp only [if_neg hc, tally_nil]
  · obtain ⟨hd, hn, hf, k', hk, rfl⟩ := (constructPacket_ok L).1 hp
    cases hk
    refine .inl ⟨rfl, ?_⟩
    rw [encryptCall_eq p k hd hn]
    simp [tally, built, hf, opened, acceptedBy, sends, answers]

/-- What a reply adds: a packet under the key and the nonce, or nothing; `data` is the payload
    it answers. -/
inductive Emits (k : K) (n : ℕ) (data : Option Bytes) : Tally K → Prop
  | none : Emits k n data .none
  | reply {reply : Bytes} : constructPacket L reply (some k) n = .ok (packet L (k, n, reply)) →
      Emits k n data ⟨[(k, n, reply)], [], [], [packet L (k, n, reply)],
        data.toList.map (·, reply)⟩

end Pipebomb
