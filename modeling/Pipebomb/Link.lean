/-
  The two ends of one connection as small machines.

  `ServerEnd` and `ClientEnd` keep what matters for the packets of a connection: the key,
  the counters, and how far the packet being processed is.  Their steps emit the calls of
  `encrypt` and `decrypt` and the accepted payloads (`linkObs`).  Packets that do not fit
  are left out: they are never sent.

  * The server answers the `n`-th packet it decrypts with the `n`-th packet it encrypts, so
    when it decrypts under a nonce it has not encrypted under that nonce yet (`ServerEnd.Ok`).
  * A sequential client encrypts under the nonces in order (`ClientEnd.Ok`).
  * `link_replay`: the payloads the server accepts are the first ones the client sealed.
  * `link_authentic`: the payloads the client accepts are the first ones the server sealed,
    if the client verifies every reply and is handed no packet of its own.
-/
import Pipebomb.Network

namespace Pipebomb

open ByteString

variable {K : Type} (L : Libs K)

/-! ## The observations of a connection -/

/-- The payloads the party sealed into packets, with keys and nonces. -/
def built (p : Party) (os : List (Obs K)) : List (K × ℕ × Bytes) :=
  os.filterMap fun
    | .encrypt p' k n data => if p' = p ∧ Fits L data then some (k, n, data) else none
    | _ => none

/-- The payloads the party sealed into packets. -/
def sealedBy (p : Party) (os : List (Obs K)) : List Bytes := (built L p os).map fun x => x.2.2

/-- The payloads the party accepted. -/
def acceptedBy (p : Party) (os : List (Obs K)) : List Bytes :=
  os.filterMap fun
    | .accepted p' data => if p' = p then some data else none
    | _ => none

/-- The observation is a call of the cipher at an end of the connection, for a packet, or
    an accepted payload. -/
def Obs.onLink (c : ConnId) : Obs K → Bool
  | .encrypt p _ _ data => p.At c ∧ Fits L data
  | .decrypt p _ _ _ | .accepted p _ => p.At c
  | _ => false

/-- The observations of the connection. -/
def linkObs (c : ConnId) (os : List (Obs K)) : List (Obs K) := os.filter (Obs.onLink L c)

variable {c : ConnId} {os os₁ os₂ o : List (Obs K)}

theorem built_append (p : Party) : built L p (os₁ ++ os₂) = built L p os₁ ++ built L p os₂ :=
  List.filterMap_append

theorem acceptedBy_append (p : Party) :
    acceptedBy p (os₁ ++ os₂) = acceptedBy p os₁ ++ acceptedBy p os₂ :=
  List.filterMap_append

theorem sealedBy_append (p : Party) :
    sealedBy L p (os₁ ++ os₂) = sealedBy L p os₁ ++ sealedBy L p os₂ := by
  rw [sealedBy, built_append, List.map_append, sealedBy, sealedBy]

theorem mem_built {p : Party} {k : K} {n : ℕ} {data : Bytes} :
    (k, n, data) ∈ built L p os ↔ .encrypt p k n data ∈ os ∧ Fits L data := by
  rw [built, List.mem_filterMap]
  constructor
  · rintro ⟨x, hx, he⟩
    cases x with
    | encrypt p' k' n' data' =>
      simp only at he
      split_ifs at he with h
      cases he
      exact ⟨h.1 ▸ hx, h.2⟩
    | _ => cases he
  · rintro ⟨hm, hf⟩
    exact ⟨_, hm, if_pos ⟨rfl, hf⟩⟩

theorem linkObs_append : linkObs L c (os₁ ++ os₂) = linkObs L c os₁ ++ linkObs L c os₂ :=
  List.filter_append ..

theorem built_linkObs {p : Party} (hp : p.At c) : built L p (linkObs L c os) = built L p os := by
  rw [linkObs, built, built, List.filterMap_filter]
  congr 1
  funext x
  cases x with
  | encrypt p' k n data =>
    by_cases h : p' = p ∧ Fits L data
    · rw [if_pos (by simpa [Obs.onLink, h.1] using ⟨hp, h.2⟩)]
    · simp [h]
  | _ => simp

theorem acceptedBy_linkObs {p : Party} (hp : p.At c) :
    acceptedBy p (linkObs L c os) = acceptedBy p os := by
  rw [linkObs, acceptedBy, acceptedBy, List.filterMap_filter]
  congr 1
  funext x
  cases x with
  | accepted p' data =>
    by_cases h : p' = p
    · rw [if_pos (by simpa [Obs.onLink, h] using hp)]
    · simp [h]
  | _ => simp

/-- What an ideal cipher requires of an observation of the connection after others. -/
def GenuineAfter (c : ConnId) (before : List (Obs K)) : Obs K → Prop
  | .decrypt _ k n ct => ct.length < 2 ^ 32 → L.decrypt k (leBytes 12 n) ct ≠ none →
      ∃ q data, q.At c ∧ (k, n, data) ∈ built L q before ∧ ct = sealed L k n data
  | _ => True

/-- Every decryption that succeeds is one of a packet sealed before; for the observations
    of a connection. -/
def Genuine (c : ConnId) (os : List (Obs K)) : Prop := Lts.Each (GenuineAfter L c) os

/-- An ideal cipher makes every decryption genuine. -/
theorem Ideal.genuine (h : Ideal L c os) : Genuine L c (linkObs L c os) := by
  refine Lts.Each.filter h fun before x hx hi => ?_
  cases x with
  | decrypt p k n ct =>
    intro hct hd
    obtain ⟨q, data, hq, hm, rfl⟩ := hi (by simpa [Obs.onLink] using hx) hd
    refine ⟨q, data, hq, ?_, rfl⟩
    rw [← linkObs, built_linkObs L hq, mem_built]
    exact ⟨hm, by rwa [length_sealed] at hct⟩
  | _ => trivial

/-! ## The server's end -/

/-- The server's end of a connection. -/
inductive ServerEnd (K : Type) where
  /-- no key yet -/
  | start
  /-- `n` packets were answered -/
  | idle (k : K) (n : ℕ)
  /-- the next packet was accepted -/
  | busy (k : K) (n : ℕ)
  /-- the next packet failed verification -/
  | failed (k : K) (n : ℕ)
  /-- the answer is being sent -/
  | sending (k : K) (n : ℕ)
  /-- the answer to a packet that failed verification is being sent -/
  | closing (k : K) (n : ℕ)
  | over

/-- A step of the server's end. -/
inductive ServerStep (c : ConnId) : ServerEnd K → ServerEnd K → List (Obs K) → Prop
  | key (k : K) : ServerStep c .start (.idle k 0) []
  | accept {k : K} {n : ℕ} {ct plaintext data : Bytes} : ct.length < 2 ^ 32 →
      L.decrypt k (leBytes 12 n) ct = some plaintext → openPlaintext L plaintext = .ok data →
      ServerStep c (.idle k n) (.busy k n)
        [.decrypt (.server c) k n ct, .accepted (.server c) data]
  | reject {k : K} {n : ℕ} (cts : List Bytes) :
      ServerStep c (.idle k n) (.failed k n) (cts.map (.decrypt (.server c) k n))
  | reply {k : K} {n : ℕ} {data : Bytes} : Fits L data →
      ServerStep c (.busy k n) (.sending k n) [.encrypt (.server c) k n data]
  | refuse {k : K} {n : ℕ} {data : Bytes} : Fits L data →
      ServerStep c (.failed k n) (.closing k n) [.encrypt (.server c) k n data]
  | sent {k : K} {n : ℕ} : ServerStep c (.sending k n) (.idle k (n + 1)) []
  | die {e : ServerEnd K} : ServerStep c e .over []

/-- The packets were sealed under the nonces from 0 to `m - 1`, in order. -/
def Counted (k : K) (m : ℕ) (bs : List (K × ℕ × Bytes)) : Prop :=
  bs.map (fun x => (x.1, x.2.1)) = (List.range m).map (k, ·)

variable {k : K} {m n : ℕ} {bs : List (K × ℕ × Bytes)} {data : Bytes}

theorem Counted.nil : Counted k 0 [] := rfl

theorem Counted.length (h : Counted k m bs) : bs.length = m := by
  simpa using congrArg List.length h

theorem Counted.snoc (h : Counted k m bs) : Counted k (m + 1) (bs ++ [(k, m, data)]) := by
  rw [Counted, List.map_append, h, List.range_succ, List.map_append]
  rfl

/-- A packet stands at the place of its nonce. -/
theorem Counted.get {k' : K} (h : Counted k m bs) (hm : (k', n, data) ∈ bs) :
    n < m ∧ bs[n]? = some (k', n, data) := by
  obtain ⟨i, hi, he⟩ := List.getElem_of_mem hm
  have hlen := h.length
  have hnonce : (bs.map fun x => (x.1, x.2.1))[i]? = some (k', n) := by
    rw [List.getElem?_map, List.getElem?_eq_getElem hi, he]
    rfl
  rw [h, List.getElem?_map, List.getElem?_range (by omega)] at hnonce
  obtain ⟨rfl, rfl⟩ : k = k' ∧ i = n := by simpa using hnonce
  exact ⟨by omega, by rw [List.getElem?_eq_getElem hi, he]⟩

/-- The invariant of the server's end: `bs` are the packets it sealed and `as` the payloads
    it accepted. -/
def ServerEnd.Ok (bs : List (K × ℕ × Bytes)) (as : List Bytes) : ServerEnd K → Prop
  | .start => bs = [] ∧ as = []
  | .idle k n | .failed k n => Counted k n bs ∧ as.length = n
  | .busy k n => Counted k n bs ∧ as.length = n + 1
  | .sending k n => Counted k (n + 1) bs ∧ as.length = n + 1
  | .closing k n => Counted k (n + 1) bs ∧ as.length = n
  | .over => bs = [] ∨ ∃ k m, Counted k m bs

theorem ServerEnd.Ok.over {e : ServerEnd K} {as : List Bytes} (h : e.Ok bs as) :
    ServerEnd.over.Ok bs as := by
  cases e with
  | start => exact .inl h.1
  | «over» => exact h
  | idle k n => exact .inr ⟨k, n, h.1⟩
  | busy k n => exact .inr ⟨k, n, h.1⟩
  | failed k n => exact .inr ⟨k, n, h.1⟩
  | sending k n => exact .inr ⟨k, n + 1, h.1⟩
  | closing k n => exact .inr ⟨k, n + 1, h.1⟩

/-- The packets of the server stand at the places of their nonces. -/
theorem ServerEnd.Ok.get {e : ServerEnd K} {as : List Bytes} (h : e.Ok bs as)
    (hm : (k, n, data) ∈ bs) : bs[n]? = some (k, n, data) := by
  rcases h.over with hnil | ⟨k', m, hcount⟩
  · rw [hnil] at hm; cases hm
  · exact (hcount.get hm).2

theorem built_encrypt {p : Party} (hf : Fits L data) :
    built L p [.encrypt p k n data] = [(k, n, data)] := by
  simp [built, hf]

theorem built_decrypts {p q : Party} (cts : List Bytes) :
    built L p (cts.map (.decrypt q k n)) = [] := by
  simp [built]

theorem acceptedBy_accept {p : Party} {ct : Bytes} :
    acceptedBy p [.decrypt p k n ct, .accepted p data] = [data] := by
  simp [acceptedBy]

theorem sealedBy_nil {p : Party} (h : built L p o = []) : sealedBy L p o = [] := by
  rw [sealedBy, h, List.map_nil]

theorem acceptedBy_decrypts {p q : Party} (cts : List Bytes) :
    acceptedBy p (cts.map (.decrypt q k n) : List (Obs K)) = [] := by
  simp [acceptedBy]

/-- **A step of the server's end keeps the invariant.** -/
theorem ServerStep.ok {e e' : ServerEnd K} (h : ServerStep L c e e' o)
    (hok : e.Ok (built L (.server c) os) (acceptedBy (.server c) os)) :
    e'.Ok (built L (.server c) (os ++ o)) (acceptedBy (.server c) (os ++ o)) := by
  rw [built_append, acceptedBy_append]
  cases h with
  | key k =>
    obtain ⟨hb, ha⟩ := hok
    simp only [hb, ha]
    exact ⟨.nil, rfl⟩
  | accept hct hd ho =>
    refine ⟨?_, ?_⟩
    · simpa [built] using hok.1
    · simpa [acceptedBy] using hok.2
  | reject cts =>
    rw [built_decrypts, acceptedBy_decrypts, List.append_nil, List.append_nil]
    exact hok
  | reply hf =>
    rw [built_encrypt L hf]
    exact ⟨hok.1.snoc, by simpa [acceptedBy] using hok.2⟩
  | refuse hf =>
    rw [built_encrypt L hf]
    exact ⟨hok.1.snoc, by simpa [acceptedBy] using hok.2⟩
  | sent => exact ⟨by simpa [built] using hok.1, by simpa [acceptedBy] using hok.2⟩
  | die => simpa [built, acceptedBy] using hok.over

/-! ## The client's end -/

/-- The client's end: the key, the counters, and how many packets were sealed and not
    counted yet; `none` after a send failed. -/
inductive ClientEnd (K : Type) where
  | start
  | up (k : K) (tx : ℕ) (pending : Option ℕ) (rx : ℕ)
  | closed

/-- A step of the client's end.  `sequential`: a packet is sealed after the one before was
    counted.  `verified`: every packet that is counted was verified. -/
inductive ClientStep (sequential verified : Prop) :
    ClientEnd K → ClientEnd K → List (Obs K) → Prop
  | key (k : K) : ClientStep sequential verified .start (.up k 0 (some 0) 0) []
  | build {k : K} {tx rx : ℕ} {pending pending' : Option ℕ} {data : Bytes} : Fits L data →
      (sequential → pending = some 0 ∧ pending' = some 1) →
      ClientStep sequential verified (.up k tx pending rx) (.up k tx pending' rx)
        [.encrypt .client k tx data]
  | sent {k : K} {tx rx : ℕ} {pending pending' : Option ℕ} :
      (∀ j, pending' = some j → pending = some (j + 1)) →
      ClientStep sequential verified (.up k tx pending rx) (.up k (tx + 1) pending' rx) []
  | stuck {k : K} {tx rx : ℕ} {pending : Option ℕ} :
      ClientStep sequential verified (.up k tx pending rx) (.up k tx none rx) []
  | accept {k : K} {tx rx : ℕ} {pending : Option ℕ} {ct plaintext data : Bytes} :
      ct.length < 2 ^ 32 → L.decrypt k (leBytes 12 rx) ct = some plaintext →
      openPlaintext L plaintext = .ok data →
      ClientStep sequential verified (.up k tx pending rx) (.up k tx pending (rx + 1))
        [.decrypt .client k rx ct, .accepted .client data]
  | reject {k : K} {tx rx : ℕ} {pending : Option ℕ} (cts : List Bytes) :
      ClientStep sequential verified (.up k tx pending rx) (.up k tx pending rx)
        (cts.map (.decrypt .client k rx))
  | skip {k : K} {tx rx : ℕ} {pending : Option ℕ} : ¬ verified →
      ClientStep sequential verified (.up k tx pending rx) (.up k tx pending (rx + 1)) []
  | close {f : ClientEnd K} : ClientStep sequential verified f .closed []

variable {sequential verified : Prop}

/-- The invariant of the client's end. -/
def ClientEnd.Ok (sequential verified : Prop) (bs : List (K × ℕ × Bytes)) (as : List Bytes) :
    ClientEnd K → Prop
  | .start => bs = [] ∧ as = []
  | .up k tx pending rx =>
    (sequential → ∃ m, Counted k m bs ∧ ∀ j, pending = some j → j ≤ 1 ∧ m = tx + j) ∧
      (verified → as.length = rx)
  | .closed => sequential → bs = [] ∨ ∃ k m, Counted k m bs

theorem ClientEnd.Ok.closed {f : ClientEnd K} {as : List Bytes} (h : f.Ok sequential verified bs as) :
    ClientEnd.closed.Ok sequential verified bs as := by
  cases f with
  | start => exact fun _ => .inl h.1
  | up k tx pending rx =>
    intro hs
    obtain ⟨m, hm, -⟩ := h.1 hs
    exact .inr ⟨k, m, hm⟩
  | closed => exact h

/-- The packets of a sequential client stand at the places of their nonces. -/
theorem ClientEnd.Ok.get {f : ClientEnd K} {as : List Bytes} (h : f.Ok True verified bs as)
    (hm : (k, n, data) ∈ bs) : bs[n]? = some (k, n, data) := by
  cases f with
  | start => rw [h.1] at hm; cases hm
  | up k' tx pending rx =>
    obtain ⟨m, hcount, -⟩ := h.1 trivial
    exact (hcount.get hm).2
  | closed =>
    rcases h trivial with hnil | ⟨k', m, hcount⟩
    · rw [hnil] at hm; cases hm
    · exact (hcount.get hm).2

/-- **A step of the client's end keeps the invariant.** -/
theorem ClientStep.ok {f f' : ClientEnd K} (h : ClientStep L sequential verified f f' o)
    (hok : f.Ok sequential verified (built L .client os) (acceptedBy .client os)) :
    f'.Ok sequential verified (built L .client (os ++ o)) (acceptedBy .client (os ++ o)) := by
  rw [built_append, acceptedBy_append]
  cases h with
  | key k =>
    obtain ⟨hb, ha⟩ := hok
    simp only [hb, ha]
    exact ⟨fun _ => ⟨0, .nil, by rintro j ⟨⟩; exact ⟨Nat.zero_le 1, rfl⟩⟩, fun _ => rfl⟩
  | build hf hseq =>
    rw [built_encrypt L hf]
    refine ⟨fun hs => ?_, by simpa [acceptedBy] using hok.2⟩
    obtain ⟨m, hm, hj⟩ := hok.1 hs
    obtain ⟨h0, rfl⟩ := hseq hs
    obtain ⟨-, rfl⟩ := hj 0 h0
    refine ⟨_, hm.snoc, ?_⟩
    rintro j ⟨⟩
    exact ⟨Nat.le_refl 1, rfl⟩
  | sent hp =>
    refine ⟨fun hs => ?_, by simpa [acceptedBy] using hok.2⟩
    obtain ⟨m, hm, hj⟩ := hok.1 hs
    refine ⟨m, by simpa [built] using hm, fun j h => ?_⟩
    obtain ⟨hle, hmj⟩ := hj _ (hp j h)
    exact ⟨by omega, by omega⟩
  | stuck =>
    refine ⟨fun hs => ?_, by simpa [acceptedBy] using hok.2⟩
    obtain ⟨m, hm, -⟩ := hok.1 hs
    exact ⟨m, by simpa [built] using hm, by rintro j ⟨⟩⟩
  | accept hct hd ho =>
    refine ⟨by simpa [built] using hok.1, fun hv => ?_⟩
    simpa [acceptedBy] using hok.2 hv
  | reject cts =>
    rw [built_decrypts, acceptedBy_decrypts, List.append_nil, List.append_nil]
    exact hok
  | skip hv => exact ⟨by simpa [built] using hok.1, fun h => absurd h hv⟩
  | close => simpa [built, acceptedBy] using hok.closed

/-! ## Both ends -/

/-- A step of either end. -/
inductive LinkStep (c : ConnId) (sequential verified : Prop) :
    ServerEnd K × ClientEnd K → ServerEnd K × ClientEnd K → List (Obs K) → Prop
  | server {e e' : ServerEnd K} {f : ClientEnd K} {o : List (Obs K)} : ServerStep L c e e' o →
      LinkStep c sequential verified (e, f) (e', f) o
  | client {e : ServerEnd K} {f f' : ClientEnd K} {o : List (Obs K)} :
      ClientStep L sequential verified f f' o → LinkStep c sequential verified (e, f) (e, f') o

/-- A server's step seals and accepts nothing at the client. -/
theorem ServerStep.client {e e' : ServerEnd K} (h : ServerStep L c e e' o) :
    built L .client o = [] ∧ acceptedBy .client o = [] := by
  cases h with
  | reject cts => exact ⟨built_decrypts L cts, acceptedBy_decrypts cts⟩
  | _ => exact ⟨by simp [built], by simp [acceptedBy]⟩

/-- A client's step seals and accepts nothing at the server. -/
theorem ClientStep.server {f f' : ClientEnd K} (h : ClientStep L sequential verified f f' o) :
    built L (.server c) o = [] ∧ acceptedBy (.server c) o = [] := by
  cases h with
  | reject cts => exact ⟨built_decrypts L cts, acceptedBy_decrypts cts⟩
  | _ => exact ⟨by simp [built], by simp [acceptedBy]⟩

/-- The invariant of both ends. -/
def LinkOk (c : ConnId) (sequential verified : Prop) (os : List (Obs K))
    (x : ServerEnd K × ClientEnd K) : Prop :=
  x.1.Ok (built L (.server c) os) (acceptedBy (.server c) os) ∧
    x.2.Ok sequential verified (built L .client os) (acceptedBy .client os)

variable {x y : ServerEnd K × ClientEnd K}

theorem LinkStep.ok (h : LinkStep L c sequential verified x y o)
    (hok : LinkOk L c sequential verified os x) :
    LinkOk L c sequential verified (os ++ o) y := by
  cases h with
  | server hs =>
    refine ⟨hs.ok L hok.1, ?_⟩
    rw [built_append, acceptedBy_append, (hs.client L).1, (hs.client L).2, List.append_nil,
      List.append_nil]
    exact hok.2
  | client hs =>
    refine ⟨?_, hs.ok L hok.2⟩
    rw [built_append, acceptedBy_append, (hs.server L).1, (hs.server L).2, List.append_nil,
      List.append_nil]
    exact hok.1

/-- **Every run.** -/
theorem link_ok (h : Lts.Run (LinkStep L c sequential verified) (.start, .start) x os) :
    LinkOk L c sequential verified os x := by
  refine h.inv (I := fun x os => LinkOk L c sequential verified os x) ?_
    fun _ hok hs => hs.ok L hok
  exact ⟨⟨rfl, rfl⟩, ⟨rfl, rfl⟩⟩

/-- An empty payload does not come out of a packet. -/
theorem openPlaintext_eq {data data' : Bytes}
    (h : openPlaintext L (packetPlaintext L data) = .ok data') : data' = data := by
  by_cases hd : data = []
  · subst hd
    have hlen : (packetPlaintext L []).length = 7 := by simp [packetPlaintext, FOOTER]
    simp [openPlaintext, hlen] at h
  · rw [openPlaintext_packetPlaintext L hd] at h
    exact (Except.ok.inj h).symm

/-- What a genuine decryption opens was sealed by one of the ends. -/
theorem Genuine.opened {p : Party} {ct plaintext : Bytes}
    (h : Genuine L c (os ++ .decrypt p k n ct :: o)) (hct : ct.length < 2 ^ 32)
    (hd : L.decrypt k (leBytes 12 n) ct = some plaintext)
    (ho : openPlaintext L plaintext = .ok data) :
    ∃ q, q.At c ∧ (k, n, data) ∈ built L q os ∧ ct = sealed L k n data := by
  obtain ⟨q, data', hq, hm, rfl⟩ := h.at hct (by rw [hd]; exact Option.some_ne_none _)
  rw [sealed, L.decrypt_encrypt] at hd
  cases hd
  obtain rfl := openPlaintext_eq L ho
  exact ⟨q, hq, hm, rfl⟩

/-- A prefix grows by the element that comes next. -/
theorem prefix_snoc {α : Type} {as bs : List α} {b : α} (h : as <+: bs)
    (hb : bs[as.length]? = some b) : as ++ [b] <+: bs := by
  obtain ⟨rest, rfl⟩ := h
  rw [List.getElem?_append_right (Nat.le_refl _), Nat.sub_self] at hb
  cases rest with
  | nil => cases hb
  | cons b' rest =>
    cases hb
    exact ⟨rest, by simp⟩

/-- **Replay and reflection protection at the server.** -/
theorem link_replay (h : Lts.Run (LinkStep L c True verified) (.start, .start) x os)
    (hg : Genuine L c os) : acceptedBy (.server c) os <+: sealedBy L .client os := by
  refine h.inv (I := fun _ os => Genuine L c os →
    acceptedBy (.server c) os <+: sealedBy L .client os) (fun _ => List.prefix_rfl) ?_ hg
  intro x y os o hrun ih hstep hg
  have hpre := ih (Lts.Each.left hg)
  obtain ⟨hsok, hcok⟩ := link_ok L hrun
  rw [acceptedBy_append, sealedBy_append]
  cases hstep with
  | client hs =>
    rw [(hs.server L).2, List.append_nil]
    exact hpre.trans (List.prefix_append _ _)
  | server hs =>
    rw [sealedBy_nil L (hs.client L).1, List.append_nil]
    cases hs with
    | @accept k n ct plaintext data hct hd ho =>
      rw [acceptedBy_accept]
      obtain ⟨q, rfl | rfl, hm, -⟩ := hg.opened L hct hd ho
      · refine prefix_snoc hpre ?_
        rw [sealedBy, List.getElem?_map, hsok.2, hcok.get hm]
        rfl
      · -- the server has not sealed under this nonce yet
        exact absurd (hsok.1.get hm).1 (Nat.lt_irrefl n)
    | reject cts => rw [acceptedBy_decrypts, List.append_nil]; exact hpre
    | _ => simpa [acceptedBy] using hpre

/-- The packet that a client decrypts is none of its own. -/
def UnreflectedAfter (before : List (Obs K)) : Obs K → Prop
  | .decrypt .client k n ct =>
    ∀ data, .encrypt .client k n data ∈ before → ct ≠ sealed L k n data
  | _ => True

/-- No packet of the client is handed to the client under the nonce it is sealed with. -/
def Unreflected (os : List (Obs K)) : Prop := Lts.Each (UnreflectedAfter L) os

theorem Unreflected.linkObs (h : Unreflected L os) : Unreflected L (linkObs L c os) := by
  refine Lts.Each.filter h fun before x _ hi => ?_
  rcases x with _ | ⟨_ | _, k, n, ct⟩
  case decrypt.client => exact fun data hm => hi data (List.mem_of_mem_filter hm)
  all_goals trivial

/-- **Authenticity at the client.** -/
theorem link_authentic (h : Lts.Run (LinkStep L c sequential True) (.start, .start) x os)
    (hg : Genuine L c os) (hr : Unreflected L os) :
    acceptedBy .client os <+: sealedBy L (.server c) os := by
  refine h.inv (I := fun _ os => Genuine L c os → Unreflected L os →
    acceptedBy .client os <+: sealedBy L (.server c) os) (fun _ _ => List.prefix_rfl) ?_ hg hr
  intro x y os o hrun ih hstep hg hr
  have hpre := ih (Lts.Each.left hg) (Lts.Each.left hr)
  obtain ⟨hsok, hcok⟩ := link_ok L hrun
  rw [acceptedBy_append, sealedBy_append]
  cases hstep with
  | server hs =>
    rw [(hs.client L).2, List.append_nil]
    exact hpre.trans (List.prefix_append _ _)
  | client hs =>
    rw [sealedBy_nil L (hs.server L).1, List.append_nil]
    cases hs with
    | @accept k tx rx pending ct plaintext data hct hd ho =>
      rw [acceptedBy_accept]
      obtain ⟨q, rfl | rfl, hm, he⟩ := hg.opened L hct hd ho
      · exact absurd he (Lts.Each.at hr data ((mem_built L).1 hm).1)
      · refine prefix_snoc hpre ?_
        rw [sealedBy, List.getElem?_map, hcok.2 trivial, hsok.get hm]
        rfl
    | reject cts => rw [acceptedBy_decrypts, List.append_nil]; exact hpre
    | skip hv => exact absurd trivial hv
    | _ => simpa [acceptedBy] using hpre

end Pipebomb
