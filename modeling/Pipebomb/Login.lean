/-
  The counters of the client during `connect`, and what it seals.

  * `AtNonces`: the counters at each await.
  * `LoggedIn`: under nonce 1 the client seals its login and nothing else, in every run
    (`client_loggedIn`).
-/
import Pipebomb.Keys
import Pipebomb.RawClient

namespace Pipebomb

open ByteString

variable {K : Type} (L : Libs K)

/-! ## The counters of the client -/

namespace RawClient

/-- The counters of the client at each await of `connect`, and later. -/
def AtNonces (C : RawClient K) : Prop :=
  match C.connection with
  | .idle | .sendPublic | .serverKey _ | .sendPassword =>
    C.txNonce = 0 ∧ C.rxNonce = 0 ∧ C.closing = .idle
  | .ack _ => C.txNonce = 1 ∧ C.rxNonce = 0 ∧ C.closing = .idle
  | .sendLogin => C.txNonce = 1 ∧ C.rxNonce = 1 ∧ C.closing = .idle
  | .reply _ => C.txNonce = 2 ∧ C.rxNonce = 1 ∧ C.closing = .idle
  | .connected => C.cipher = none ∨ 2 ≤ C.txNonce
  | .failed _ => True

/-- The first ACK arrived, or `connect` failed. -/
def PastAck (C : RawClient K) : Prop :=
  match C.connection with
  | .sendLogin | .reply _ | .connected | .failed _ => True
  | _ => False

/-- Under nonce 1 the client seals its login. -/
structure LoggedIn (C : RawClient K) (os : List (Obs K)) : Prop where
  nonces : C.AtNonces
  login : ∀ k data, .encrypt .client k 1 data ∈ os → data = C.loginPayload ∧ C.PastAck

end RawClient

section
variable {C C' : RawClient K} {os o : List (Obs K)}

theorem loginPayload_congr (h : C'.relogUuid = C.relogUuid) : C'.loginPayload = C.loginPayload := by
  rw [RawClient.loginPayload, RawClient.loginPayload, h]

/-- A step that seals nothing under nonce 1. -/
theorem RawClient.LoggedIn.step (h : C.LoggedIn os) (hn : C'.AtNonces)
    (ho : ∀ k data, .encrypt .client k 1 data ∉ o) (hre : C'.relogUuid = C.relogUuid)
    (hpast : C.PastAck → C'.PastAck) : C'.LoggedIn (os ++ o) := by
  refine ⟨hn, fun k data hm => ?_⟩
  rcases List.mem_append.1 hm with hm | hm
  · obtain ⟨hd, hp⟩ := h.login k data hm
    exact ⟨hd.trans (loginPayload_congr hre).symm, hpast hp⟩
  · exact absurd hm (ho k data)

theorem RawClient.LoggedIn.fail (h : C.LoggedIn os) (C' : RawClient K) (ho : Unsealed o) {e : PyErr}
    (hre : C'.relogUuid = C.relogUuid) :
    (C'.fail e).1.LoggedIn (os ++ (o ++ (C'.fail e).2)) :=
  h.step trivial (fun k data => (ho.append unsealed_nil) _ k 1 data) hre fun _ => trivial

/-- A packet of the handshake. -/
theorem sendConnect_cases (C : RawClient K) (data : Bytes) (next : Connecting) :
    ((∃ e, C.sendConnect L data next =
        ((C.fail e).1, encryptCall .client data C.cipher C.txNonce)) ∨
      ∃ pkt, C.sendConnect L data next =
        (C.stand next, encryptCall .client data C.cipher C.txNonce ++ [.write .client pkt])) := by
  unfold RawClient.sendConnect RawClient.saw RawClient.fail
  split
  · rename_i e _
    exact .inl ⟨e, by rw [List.append_nil]⟩
  · exact .inr ⟨_, rfl⟩

theorem onServerKey_loggedIn (h : C.LoggedIn os) {buffer : Bytes}
    (hc : C.connection = .serverKey buffer) (key : Bytes) :
    (C.onServerKey L key).1.LoggedIn (os ++ (C.onServerKey L key).2) := by
  have hn := h.nonces
  rw [RawClient.AtNonces, hc] at hn
  unfold RawClient.onServerKey
  split
  · exact h.fail _ unsealed_nil rfl
  · rename_i k hk
    have hcall : ∀ k' data, .encrypt .client k' 1 data ∉
        encryptCall .client (0 :: C.password) (some k) C.txNonce := by
      intro k' data hm
      have := (mem_encryptCall hm).2.2.1
      omega
    have hearly : ¬ C.PastAck := by rw [RawClient.PastAck, hc]; exact id
    rcases sendConnect_cases L { C with cipher := some k } (0 :: C.password) .sendPassword with
      ⟨e, he⟩ | ⟨pkt, he⟩
    · rw [he]
      exact h.step trivial hcall rfl fun _ => trivial
    · rw [he]
      refine h.step hn (fun k' data hm => ?_) rfl fun h => absurd h hearly
      rcases List.mem_append.1 hm with hm | hm
      · exact hcall k' data hm
      · simp at hm

theorem onAck_loggedIn (h : C.LoggedIn os) {buffer : Bytes} (hc : C.connection = .ack buffer)
    (frame : Bytes) : (C.onAck L frame).1.LoggedIn (os ++ (C.onAck L frame).2) := by
  have hn := h.nonces
  rw [RawClient.AtNonces, hc] at hn
  have hdec := unsealed_decrypt .client frame C.cipher C.rxNonce
  unfold RawClient.onAck
  split
  · exact h.fail _ hdec rfl
  · exact h.fail C.received hdec rfl
  · rename_i ack rem hv
    split_ifs with hack
    · have := h.fail C.received (e := .runtimeError "Invalid ACK")
        (hdec.append (unsealed_accepted .client ack)) rfl
      simpa [RawClient.saw] using this
    · -- before this step nothing was sealed under nonce 1
      have hnone : ∀ k data, .encrypt .client k 1 data ∉ os := by
        intro k data hm
        have := (h.login k data hm).2
        rw [RawClient.PastAck, hc] at this
        exact this
      have hpre : ∀ o, (∀ k data, .encrypt .client k 1 data ∈ o → data = C.loginPayload) →
          ∀ k data, .encrypt .client k 1 data ∈ os ++ (decryptCall .client frame C.cipher C.rxNonce ++
            ([.accepted .client ack] ++ o)) → data = C.loginPayload := by
        intro o ho k data hm
        simp only [List.mem_append, List.mem_singleton, reduceCtorEq, false_or] at hm
        rcases hm with hm | hm | hm
        · exact absurd hm (hnone k data)
        · exact absurd hm (hdec _ k 1 data)
        · exact ho k data hm
      have hcall : ∀ k data, .encrypt .client k 1 data ∈
          encryptCall .client C.loginPayload C.cipher C.received.txNonce → data = C.loginPayload :=
        fun k data hm => (mem_encryptCall hm).2.2.2
      rcases sendConnect_cases L C.received C.loginPayload .sendLogin with ⟨e, he⟩ | ⟨pkt, he⟩
      · rw [he]
        exact ⟨trivial, fun k data hm => ⟨hpre _ hcall k data hm, trivial⟩⟩
      · rw [he]
        refine ⟨⟨hn.1, congrArg (· + 1) hn.2.1, hn.2.2⟩, fun k data hm => ⟨hpre _ ?_ k data hm,
          trivial⟩⟩
        intro k data hm
        rcases List.mem_append.1 hm with hm | hm
        · exact hcall k data hm
        · simp at hm

theorem onReply_loggedIn (h : C.LoggedIn os) {buffer : Bytes} (hc : C.connection = .reply buffer)
    (frame : Bytes) : (C.onReply L frame).1.LoggedIn (os ++ (C.onReply L frame).2) := by
  have hn := h.nonces
  rw [RawClient.AtNonces, hc] at hn
  have hdec := unsealed_decrypt .client frame C.cipher C.rxNonce
  have htwo : (C.received.stand .connected).AtNonces := .inr (Nat.le_of_eq hn.1.symm)
  unfold RawClient.onReply
  split
  · exact h.fail _ hdec rfl
  · exact h.step htwo (fun k data => (hdec.append unsealed_nil) _ k 1 data) rfl fun _ => trivial
  · exact h.step htwo (fun k data => (hdec.append (unsealed_accepted _ _)) _ k 1 data) rfl
      fun _ => trivial

theorem clientOnChunk_loggedIn (h : C.LoggedIn os) {buffer chunk : Bytes}
    {waiting : Bytes → Connecting} {frame : Bytes → RawClient.After K}
    (hw : ∀ b, (C.stand (waiting b)).AtNonces) (hp : ∀ b, C.PastAck → (C.stand (waiting b)).PastAck)
    (hf : ∀ f, (frame f).1.LoggedIn (os ++ (frame f).2)) :
    (C.onChunk buffer chunk waiting frame).1.LoggedIn
      (os ++ (C.onChunk buffer chunk waiting frame).2) := by
  unfold RawClient.onChunk
  split_ifs
  · exact h.fail _ unsealed_nil rfl
  · split
    · exact h.fail _ unsealed_nil rfl
    · exact hf _
    · exact h.step (hw _) (by simp) rfl (hp _)

theorem connectStep_loggedIn (h : C.LoggedIn os) {i : Input} {out : RawClient.After K}
    (hstep : C.connectStep L i = some out) : out.1.LoggedIn (os ++ out.2) := by
  have hn := h.nonces
  rw [RawClient.AtNonces] at hn
  unfold RawClient.connectStep at hstep
  split at hstep
  · rename_i hc
    rw [hc] at hn
    cases hstep
    refine h.step hn (by simp) rfl fun hp => ?_
    rw [RawClient.PastAck, hc] at hp
    exact hp.elim
  · rename_i buffer chunk hc
    rw [hc] at hn
    split_ifs at hstep
    · cases hstep; exact h.fail _ unsealed_nil rfl
    · cases hstep
      refine h.step hn (by simp) rfl fun hp => ?_
      rw [RawClient.PastAck, hc] at hp
      exact hp.elim
    · cases hstep
      exact onServerKey_loggedIn L h hc _
  · rename_i hc
    rw [hc] at hn
    cases hstep
    refine h.step ⟨congrArg (· + 1) hn.1, hn.2⟩ (by simp) rfl fun hp => ?_
    rw [RawClient.PastAck, hc] at hp
    exact hp.elim
  · rename_i buffer chunk hc
    rw [hc] at hn
    split_ifs at hstep
    cases hstep
    refine clientOnChunk_loggedIn h (fun _ => hn) (fun _ hp => ?_) fun f => onAck_loggedIn L h hc f
    rw [RawClient.PastAck, hc] at hp
    exact hp.elim
  · rename_i hc
    rw [hc] at hn
    cases hstep
    exact h.step ⟨congrArg (· + 1) hn.1, hn.2⟩ (by simp) rfl fun _ => trivial
  · rename_i buffer chunk hc
    rw [hc] at hn
    split_ifs at hstep
    cases hstep
    exact clientOnChunk_loggedIn h (fun _ => hn) (fun _ _ => trivial)
      fun f => onReply_loggedIn L h hc f
  · cases hstep
  · cases hstep
  · cases hstep
  · cases hstep; exact h.fail _ unsealed_nil rfl
  · cases hstep

/-- A connected client goes on: its counter does not fall, until it has no cipher. -/
theorem RawClient.LoggedIn.connected (h : C.LoggedIn os) (hc : C.connection = .connected)
    (hc' : C'.connection = .connected) (hre : C'.relogUuid = C.relogUuid)
    (hn : C'.cipher = none ∨ C'.cipher = C.cipher ∧ C.txNonce ≤ C'.txNonce)
    (ho : ∀ k n data, .encrypt .client k n data ∈ o → C.cipher = some k ∧ n = C.txNonce) :
    C'.LoggedIn (os ++ o) := by
  have hnon := h.nonces
  rw [RawClient.AtNonces, hc] at hnon
  refine h.step ?_ (fun k data hm => ?_) hre fun _ => by rw [RawClient.PastAck, hc']; trivial
  · rw [RawClient.AtNonces, hc']
    rcases hn with hn | ⟨hcip, hle⟩
    · exact .inl hn
    · exact hnon.imp (fun h => hcip.trans h) fun h => Nat.le_trans h hle
  · obtain ⟨hk, h1⟩ := ho k 1 data hm
    rcases hnon with hnone | h2
    · rw [hnone] at hk; cases hk
    · omega

/-- What the receive loop keeps. -/
def RecvKeeps (C : RawClient K) (o : RawClient.After K) : Prop :=
  o.1.connection = C.connection ∧ o.1.relogUuid = C.relogUuid ∧ o.1.cipher = C.cipher ∧
    o.1.txNonce = C.txNonce ∧ Unsealed o.2

theorem recvFrame_keeps {o : RawClient.After K} (h : RecvKeeps C o) (frame : Bytes) :
    RecvKeeps C (RawClient.recvFrame L o frame).1 := by
  obtain ⟨hc, hre, hk, htx, ho⟩ := h
  have hdec := ho.append (unsealed_decrypt .client frame o.1.cipher o.1.rxNonce)
  unfold RawClient.recvFrame
  simp only
  split
  · exact ⟨hc, hre, hk, htx, hdec⟩
  · exact ⟨hc, hre, hk, htx, hdec⟩
  · split_ifs
    · exact ⟨hc, hre, hk, htx, hdec⟩
    all_goals exact ⟨hc, hre, hk, htx, hdec.append (unsealed_accepted _ _)⟩

theorem recvLoopStep_keeps {i : Input} {out : RawClient.After K}
    (ho : C.recvLoopStep L i = some out) : RecvKeeps C out := by
  unfold RawClient.recvLoopStep at ho
  split at ho
  · rename_i buffer chunk hr
    have hdrain := packetFraming.drain_inv (P := RecvKeeps C) (RawClient.recvFrame L)
      (fun _ frame h => recvFrame_keeps L h frame) (s := (C, []))
      ⟨rfl, rfl, rfl, rfl, unsealed_nil⟩ (buffer ++ chunk)
    split_ifs at ho
    · cases ho; exact ⟨rfl, rfl, rfl, rfl, unsealed_nil⟩
    · split at ho
      · rename_i he
        cases ho
        rw [he] at hdrain
        exact hdrain
      · rename_i he
        cases ho
        rw [he] at hdrain
        exact hdrain
      · rename_i he
        cases ho
        rw [he] at hdrain
        exact hdrain
  · cases ho; exact ⟨rfl, rfl, rfl, rfl, unsealed_nil⟩
  · cases ho

theorem send_loggedIn (h : C.LoggedIn os) (hc : C.connection = .connected) (call : Call) :
    (C.attempt (C.send L call)).1.LoggedIn (os ++ (C.attempt (C.send L call)).2) := by
  have hcall : ∀ data' : Bytes, ∀ o : List (Obs K), Unsealed o → ∀ k n data,
      .encrypt .client k n data ∈ encryptCall .client data' C.cipher C.txNonce ++ o →
        C.cipher = some k ∧ n = C.txNonce := by
    intro data' o ho k n data hm
    rcases List.mem_append.1 hm with hm | hm
    · exact ⟨(mem_encryptCall hm).2.1, (mem_encryptCall hm).2.2.1⟩
    · exact absurd hm (ho _ k n data)
  unfold RawClient.send RawClient.attempt
  split
  · rename_i e he
    refine h.connected hc hc rfl (.inr ⟨rfl, Nat.le_refl _⟩) fun k n data hm => ?_
    split at hm
    · simp at hm
    · rename_i data' _
      split at hm
      · exact hcall data' [] unsealed_nil k n data (by simpa using hm)
      · exact hcall data' [.called data'] (by simp [Unsealed]) k n data hm
  · rename_i C₁ he
    split at he
    · cases he
    · rename_i data' hp
      split at he
      · cases he
      · rename_i pkt hpkt
        cases he
        simp only
        exact h.connected hc hc rfl (.inr ⟨rfl, Nat.le_refl _⟩)
          (hcall data' [.called data'] (by simp [Unsealed]))

theorem close_loggedIn (h : C.LoggedIn os) (hc : C.connection = .connected) :
    (C.attempt (C.close L)).1.LoggedIn (os ++ (C.attempt (C.close L)).2) := by
  unfold RawClient.close RawClient.attempt
  rcases hk : C.cipher with _ | k
  · exact h.connected hc hc rfl (.inr ⟨rfl, Nat.le_refl _⟩) (by simp)
  · have hcall : ∀ o : List (Obs K), Unsealed o → ∀ k' n data,
        .encrypt .client k' n data ∈ encryptCall .client [0x88] (some k) C.txNonce ++ o →
          C.cipher = some k' ∧ n = C.txNonce := by
      intro o ho k' n data hm
      rcases List.mem_append.1 hm with hm | hm
      · obtain ⟨-, hk', hn, -⟩ := mem_encryptCall hm
        exact ⟨hk.trans hk', hn⟩
      · exact absurd hm (ho _ k' n data)
    rcases hpkt : constructPacket L [0x88] (some k) C.txNonce with e | pkt
    · simp only [hpkt]
      refine h.connected hc hc rfl (.inr ⟨rfl, Nat.le_refl _⟩) ?_
      simpa using hcall [] unsealed_nil
    · simp only [hpkt]
      exact h.connected hc hc rfl (.inr ⟨hk.symm, Nat.le_refl _⟩)
        (hcall [.write .client pkt] (by simp [Unsealed]))

theorem sendLoopStep_loggedIn (h : C.LoggedIn os) (hc : C.connection = .connected) {i : Input}
    {out : RawClient.After K} (hstep : C.sendLoopStep i = some out) :
    out.1.LoggedIn (os ++ out.2) := by
  unfold RawClient.sendLoopStep at hstep
  split at hstep
  · split at hstep
    · cases hstep
    · cases hstep
      exact h.connected hc hc rfl (.inr ⟨rfl, Nat.le_refl _⟩) (by simp)
  · split_ifs at hstep
    · cases hstep
      exact h.connected hc hc rfl (.inr ⟨rfl, Nat.le_succ _⟩) (by simp)
    · cases hstep
      exact h.connected hc hc rfl (.inr ⟨rfl, Nat.le_succ _⟩) (by simp)
  · cases hstep
  · cases hstep
    exact h.connected hc hc rfl (.inr ⟨rfl, Nat.le_refl _⟩) (by simp)
  · cases hstep

theorem closeStep_loggedIn (h : C.LoggedIn os) {i : Input} {out : RawClient.After K}
    (hstep : C.closeStep i = some out) : out.1.LoggedIn (os ++ out.2) := by
  have hn := h.nonces
  rw [RawClient.AtNonces] at hn
  have hclosing : C.closing = .idle ∨ C.connection = .connected ∨ ∃ e, C.connection = .failed e := by
    split at hn
    · exact .inl hn.2.2
    · exact .inl hn.2.2
    · exact .inl hn.2.2
    · exact .inl hn.2.2
    · exact .inl hn.2.2
    · exact .inl hn.2.2
    · exact .inl hn.2.2
    · exact .inr (.inl ‹_›)
    · exact .inr (.inr ⟨_, ‹_›⟩)
  rcases hclosing with hi | hc | ⟨e, he⟩
  · simp [RawClient.closeStep, hi] at hstep
  · unfold RawClient.closeStep at hstep
    split at hstep
    · cases hstep
      exact h.connected hc hc rfl (.inl rfl) (by simp)
    · cases hstep
      exact h.connected hc hc rfl (.inr ⟨rfl, Nat.le_refl _⟩) (by simp)
    · cases hstep
  · have hfailed : ∀ C' : RawClient K, C'.connection = C.connection → C'.relogUuid = C.relogUuid →
        C'.LoggedIn (os ++ []) := by
      intro C' hc' hre
      rw [he] at hc'
      refine h.step ?_ (by simp) hre fun _ => ?_
      · rw [RawClient.AtNonces, hc']; trivial
      · rw [RawClient.PastAck, hc']; trivial
    unfold RawClient.closeStep at hstep
    split at hstep
    · cases hstep; exact hfailed _ rfl rfl
    · cases hstep; exact hfailed _ rfl rfl
    · cases hstep

/-- **A step of the client.** -/
theorem client_loggedIn (h : C.LoggedIn os) {a : RawClient.Act} {out : RawClient.After K}
    (hstep : C.step L a = some out) : out.1.LoggedIn (os ++ out.2) := by
  have hsame : ∀ (C' : RawClient K) (o : List (Obs K)), C'.connection = C.connection →
      C'.relogUuid = C.relogUuid → C'.cipher = C.cipher → C'.txNonce = C.txNonce →
      C'.rxNonce = C.rxNonce → C'.closing = C.closing → Unsealed o → C'.LoggedIn (os ++ o) := by
    intro C' o hc hre hk htx hrx hcl ho
    refine h.step ?_ (fun k data => ho _ k 1 data) hre fun hp => ?_
    · have hn := h.nonces
      rw [RawClient.AtNonces] at hn ⊢
      rw [hc, hk, htx, hrx, hcl]
      exact hn
    · rw [RawClient.PastAck] at hp ⊢
      rw [hc]
      exact hp
  cases a with
  | connect relogUuid =>
    simp only [RawClient.step] at hstep
    split_ifs at hstep with hi
    cases hstep
    have hi := not_not.1 hi
    have hn := h.nonces
    rw [RawClient.AtNonces, hi] at hn
    refine ⟨hn, fun k data hm => ?_⟩
    rcases List.mem_append.1 hm with hm | hm
    · have hp := (h.login k data hm).2
      rw [RawClient.PastAck, hi] at hp
      exact hp.elim
    · simp at hm
  | resume i => exact connectStep_loggedIn L h hstep
  | sendLoop i =>
    simp only [RawClient.step] at hstep
    split_ifs at hstep with hc
    exact sendLoopStep_loggedIn h hc hstep
  | recvLoop i =>
    simp only [RawClient.step] at hstep
    split_ifs at hstep with hc
    obtain ⟨hc', hre, hk, htx, ho⟩ := recvLoopStep_keeps L hstep
    exact h.connected hc (hc'.trans hc) hre (.inr ⟨hk, Nat.le_of_eq htx.symm⟩)
      fun k n data hm => absurd hm (ho _ k n data)
  | call call =>
    simp only [RawClient.step] at hstep
    split_ifs at hstep with hc
    cases hstep
    exact send_loggedIn L h hc call
  | receive n =>
    simp only [RawClient.step] at hstep
    split at hstep
    · cases hstep; exact hsame _ _ rfl rfl rfl rfl rfl rfl (by simp [Unsealed])
    · cases hstep
  | timeout n =>
    simp only [RawClient.step] at hstep
    split at hstep
    · cases hstep; exact hsame _ _ rfl rfl rfl rfl rfl rfl (by simp [Unsealed])
    · cases hstep
  | close =>
    simp only [RawClient.step] at hstep
    split_ifs at hstep with hc
    cases hstep
    exact close_loggedIn L h hc
  | closing i => exact closeStep_loggedIn h hstep

theorem loggedIn_init (peer : String) (password : Bytes) :
    (RawClient.init peer password : RawClient K).LoggedIn [] :=
  ⟨⟨rfl, rfl, rfl⟩, by simp⟩

/-! ## What a client does -/

/-- All observations are about the client's end. -/
def OfClient (os : List (Obs K)) : Prop := ∀ x ∈ os, x.Of .client

theorem OfClient.nil : OfClient ([] : List (Obs K)) := fun _ h => absurd h (by simp)

theorem OfClient.append (h : OfClient os) (h' : OfClient o) : OfClient (os ++ o) :=
  fun x hx => (List.mem_append.1 hx).elim (h x) (h' x)

theorem ofClient_single {x : Obs K} (h : x.Of .client) : OfClient [x] := by
  intro y hy
  rw [List.mem_singleton] at hy
  exact hy ▸ h

theorem ofClient_encryptCall (data : Bytes) (cipher : Option K) (n : ℕ) :
    OfClient (encryptCall .client data cipher n) := by
  unfold encryptCall
  split
  · exact .nil
  · split_ifs
    · exact ofClient_single rfl
    · exact .nil

theorem ofClient_decryptCall (frame : Bytes) (cipher : Option K) (n : ℕ) :
    OfClient (decryptCall .client frame cipher n) := by
  unfold decryptCall
  split
  · split_ifs
    · exact ofClient_single rfl
    · exact .nil
  · exact .nil

theorem sendConnect_ofClient (C : RawClient K) (data : Bytes) (next : Connecting) :
    OfClient (C.sendConnect L data next).2 := by
  have hcall := ofClient_encryptCall data C.cipher C.txNonce
  rcases sendConnect_cases L C data next with ⟨e, he⟩ | ⟨pkt, he⟩
  · rw [he]; exact hcall
  · rw [he]; exact hcall.append (ofClient_single rfl)

theorem onAck_ofClient (C : RawClient K) (frame : Bytes) : OfClient (C.onAck L frame).2 := by
  unfold RawClient.onAck
  refine (ofClient_decryptCall frame C.cipher C.rxNonce).append ?_
  split
  · exact .nil
  · exact .nil
  · refine (ofClient_single (x := .accepted .client _) rfl).append ?_
    split_ifs
    · exact .nil
    · exact sendConnect_ofClient L _ _ _

theorem onReply_ofClient (C : RawClient K) (frame : Bytes) : OfClient (C.onReply L frame).2 := by
  unfold RawClient.onReply
  refine (ofClient_decryptCall frame C.cipher C.rxNonce).append ?_
  split
  · exact .nil
  · exact .nil
  · exact ofClient_single rfl

theorem clientOnChunk_ofClient {buffer chunk : Bytes} {waiting : Bytes → Connecting}
    {frame : Bytes → RawClient.After K} (hf : ∀ f, OfClient (frame f).2) :
    OfClient (C.onChunk buffer chunk waiting frame).2 := by
  unfold RawClient.onChunk
  split_ifs
  · exact .nil
  · split
    · exact .nil
    · exact hf _
    · exact .nil

theorem connectStep_ofClient {i : Input} {out : RawClient.After K}
    (hstep : C.connectStep L i = some out) : OfClient out.2 := by
  unfold RawClient.connectStep at hstep
  split at hstep
  · cases hstep; exact .nil
  · split_ifs at hstep
    · cases hstep; exact .nil
    · cases hstep; exact .nil
    · cases hstep
      unfold RawClient.onServerKey
      split
      · exact .nil
      · exact sendConnect_ofClient L _ _ _
  · cases hstep; exact .nil
  · split_ifs at hstep
    cases hstep
    exact clientOnChunk_ofClient fun f => onAck_ofClient L C f
  · cases hstep; exact .nil
  · split_ifs at hstep
    cases hstep
    exact clientOnChunk_ofClient fun f => onReply_ofClient L C f
  · cases hstep
  · cases hstep
  · cases hstep
  · cases hstep; exact .nil
  · cases hstep

theorem recvFrame_ofClient {o : RawClient.After K} (h : OfClient o.2) (frame : Bytes) :
    OfClient (RawClient.recvFrame L o frame).1.2 := by
  have hdec := h.append (ofClient_decryptCall frame o.1.cipher o.1.rxNonce)
  unfold RawClient.recvFrame
  simp only
  split
  · exact hdec
  · exact hdec
  · split_ifs
    · exact hdec
    all_goals exact hdec.append (ofClient_single rfl)

theorem recvLoopStep_ofClient {i : Input} {out : RawClient.After K}
    (hstep : C.recvLoopStep L i = some out) : OfClient out.2 := by
  unfold RawClient.recvLoopStep at hstep
  split at hstep
  · rename_i buffer chunk hr
    have hdrain := packetFraming.drain_inv (P := fun o => OfClient o.2) (RawClient.recvFrame L)
      (fun _ frame h => recvFrame_ofClient L h frame) (s := (C, [])) .nil (buffer ++ chunk)
    split_ifs at hstep
    · cases hstep; exact .nil
    · split at hstep
      · rename_i he
        cases hstep
        rw [he] at hdrain
        exact hdrain
      · rename_i he
        cases hstep
        rw [he] at hdrain
        exact hdrain
      · rename_i he
        cases hstep
        rw [he] at hdrain
        exact hdrain
  · cases hstep; exact .nil
  · cases hstep

/-- What is seen of the send loop. -/
theorem sendLoopStep_ofClient {i : Input} {out : RawClient.After K}
    (hstep : C.sendLoopStep i = some out) : OfClient out.2 := by
  unfold RawClient.sendLoopStep at hstep
  split at hstep
  · split at hstep
    · cases hstep
    · cases hstep; exact ofClient_single rfl
  · split_ifs at hstep <;> cases hstep <;> exact .nil
  · cases hstep
  · cases hstep; exact .nil
  · cases hstep

/-- The client does this, at its end of the connection or to its caller. -/
def Obs.AtClient : Obs K → Prop
  | .encrypt p _ _ _ | .decrypt p _ _ _ | .accepted p _ | .write p _ => p = .client
  | .called _ | .returned _ _ | .timedOut _ => True
  | .answered _ _ _ _ | .session _ _ | .relogin _ _ => False

/-- The client does all of this. -/
def AtClient (os : List (Obs K)) : Prop := ∀ x ∈ os, x.AtClient

theorem OfClient.atClient (h : OfClient os) : AtClient os := by
  intro x hx
  have ho := h x hx
  cases x with
  | answered => cases ho
  | session | relogin | called | returned | timedOut => exact ho.elim
  | _ => exact ho

theorem AtClient.append (h : AtClient os) (h' : AtClient o) : AtClient (os ++ o) :=
  fun x hx => (List.mem_append.1 hx).elim (h x) (h' x)

theorem atClient_single {x : Obs K} (h : x.AtClient) : AtClient [x] := by
  intro y hy
  rw [List.mem_singleton] at hy
  exact hy ▸ h

theorem attempt_atClient {r : Except PyErr (RawClient K)} (h : AtClient o) :
    AtClient (C.attempt (r, o)).2 := by
  cases r <;> exact h

theorem send_atClient (C : RawClient K) (call : Call) : AtClient (C.send L call).2 := by
  unfold RawClient.send
  split
  · exact OfClient.nil.atClient
  · have hcall := fun data => (ofClient_encryptCall data C.cipher C.txNonce).atClient
    split
    · exact hcall _
    · exact (hcall _).append (atClient_single trivial)

theorem close_atClient (C : RawClient K) : AtClient (C.close L).2 := by
  unfold RawClient.close
  split
  · exact OfClient.nil.atClient
  · rename_i k _
    have hcall := (ofClient_encryptCall [0x88] (some k) C.txNonce).atClient
    split
    · exact hcall
    · exact hcall.append (atClient_single rfl)

/-- **What is seen of a step of the client** is about the client. -/
theorem client_atClient {a : RawClient.Act} {out : RawClient.After K}
    (hstep : C.step L a = some out) : AtClient out.2 := by
  cases a with
  | connect relogUuid =>
    simp only [RawClient.step] at hstep
    split_ifs at hstep
    cases hstep
    exact atClient_single rfl
  | resume i => exact (connectStep_ofClient L hstep).atClient
  | sendLoop i =>
    simp only [RawClient.step] at hstep
    split_ifs at hstep
    exact (sendLoopStep_ofClient hstep).atClient
  | recvLoop i =>
    simp only [RawClient.step] at hstep
    split_ifs at hstep
    exact (recvLoopStep_ofClient L hstep).atClient
  | call call =>
    simp only [RawClient.step] at hstep
    split_ifs at hstep
    cases hstep
    exact attempt_atClient (send_atClient L C call)
  | receive n =>
    simp only [RawClient.step] at hstep
    split at hstep
    · cases hstep; exact atClient_single trivial
    · cases hstep
  | timeout n =>
    simp only [RawClient.step] at hstep
    split at hstep
    · cases hstep; exact atClient_single trivial
    · cases hstep
  | close =>
    simp only [RawClient.step] at hstep
    split_ifs at hstep
    cases hstep
    exact attempt_atClient (close_atClient L C)
  | closing i =>
    simp only [RawClient.step, RawClient.closeStep] at hstep
    split at hstep
    · cases hstep; exact OfClient.nil.atClient
    · cases hstep; exact OfClient.nil.atClient
    · cases hstep

/-- Only the client seals. -/
theorem client_byClient {a : RawClient.Act} {out : RawClient.After K}
    (hstep : C.step L a = some out) (p : Party) (k : K) (n : ℕ) (data : Bytes)
    (hm : .encrypt p k n data ∈ out.2) : p = .client := client_atClient L hstep _ hm

/-! ## The end of `connect` -/

theorem attempt_cipher {r : Except PyErr (RawClient K)} {o : List (Obs K)}
    (h : ∀ C', r = .ok C' → C'.cipher = C.cipher ∧ C'.connection = C.connection) :
    (C.attempt (r, o)).1.cipher = C.cipher ∧ (C.attempt (r, o)).1.connection = C.connection := by
  cases r with
  | error e => exact ⟨rfl, rfl⟩
  | ok C' => exact h C' rfl

/-- A connected client stays connected, with its cipher or with none. -/
theorem connected_step (hc : C.connection = .connected) {a : RawClient.Act}
    {out : RawClient.After K} (hstep : C.step L a = some out) :
    out.1.connection = .connected ∧ ∀ k ∈ out.1.cipher, k ∈ C.cipher := by
  have hsame : ∀ C' : RawClient K, C'.cipher = C.cipher ∧ C'.connection = C.connection →
      C'.connection = .connected ∧ ∀ k ∈ C'.cipher, k ∈ C.cipher := by
    rintro C' ⟨hk, hc'⟩
    exact ⟨hc'.trans hc, by rw [hk]; exact fun _ h => h⟩
  cases a with
  | connect relogUuid => simp [RawClient.step, hc] at hstep
  | resume i => cases i <;> simp [RawClient.step, RawClient.connectStep, hc] at hstep
  | sendLoop i =>
    simp only [RawClient.step, if_pos hc] at hstep
    unfold RawClient.sendLoopStep at hstep
    split at hstep
    · split at hstep
      · cases hstep
      · cases hstep; exact hsame _ ⟨rfl, rfl⟩
    · split_ifs at hstep <;> cases hstep <;> exact hsame _ ⟨rfl, rfl⟩
    · cases hstep
    · cases hstep; exact hsame _ ⟨rfl, rfl⟩
    · cases hstep
  | recvLoop i =>
    simp only [RawClient.step, if_pos hc] at hstep
    obtain ⟨hc', -, hk, -, -⟩ := recvLoopStep_keeps L hstep
    exact hsame _ ⟨hk, hc'⟩
  | call call =>
    simp only [RawClient.step, if_pos hc] at hstep
    cases hstep
    refine hsame _ (attempt_cipher fun C' hC' => ?_)
    split at hC'
    · cases hC'
    · split at hC'
      · cases hC'
      · cases hC'; exact ⟨rfl, rfl⟩
  | receive n =>
    simp only [RawClient.step] at hstep
    split at hstep
    · cases hstep; exact hsame _ ⟨rfl, rfl⟩
    · cases hstep
  | timeout n =>
    simp only [RawClient.step] at hstep
    split at hstep
    · cases hstep; exact hsame _ ⟨rfl, rfl⟩
    · cases hstep
  | close =>
    simp only [RawClient.step, if_pos hc] at hstep
    cases hstep
    refine hsame _ (attempt_cipher fun C' hC' => ?_)
    split at hC'
    · cases hC'
    · split at hC'
      · cases hC'
      · cases hC'; exact ⟨rfl, rfl⟩
  | closing i =>
    simp only [RawClient.step, RawClient.closeStep] at hstep
    split at hstep
    · cases hstep; exact ⟨hc, fun k hk => by cases hk⟩
    · cases hstep; exact hsame _ ⟨rfl, rfl⟩
    · cases hstep

theorem sendConnect_connection (C : RawClient K) (data : Bytes) {next : Connecting}
    (hn : next ≠ .connected) : (C.sendConnect L data next).1.connection ≠ .connected := by
  rcases sendConnect_cases L C data next with ⟨e, he⟩ | ⟨pkt, he⟩
  · rw [he]; exact nofun
  · rw [he]; exact hn

theorem clientOnChunk_connection {buffer chunk : Bytes} (waiting : Bytes → Connecting)
    {frame : Bytes → RawClient.After K} (hw : ∀ b, waiting b ≠ .connected)
    (h : (C.onChunk buffer chunk waiting frame).1.connection = .connected) :
    ∃ f rest, extractPacketFrame (buffer ++ chunk) = (some f, rest, none) ∧
      C.onChunk buffer chunk waiting frame = frame f := by
  unfold RawClient.onChunk at h ⊢
  split_ifs at h ⊢
  · cases h
  · split at h
    · cases h
    · rename_i f rest he
      exact ⟨f, rest, he, rfl⟩
    · exact absurd h (hw _)

/-- **The step at which `connect` returns**: the reply to the login arrived, and opened or
    not. -/
theorem connect_returns (hc : C.connection ≠ .connected) {a : RawClient.Act}
    {out : RawClient.After K} (hstep : C.step L a = some out)
    (hc' : out.1.connection = .connected) :
    ∃ buffer chunk f rest, a = .resume (.recv chunk) ∧ C.connection = .reply buffer ∧
      extractPacketFrame (buffer ++ chunk) = (some f, rest, none) ∧ out.1.cipher = C.cipher ∧
        ((∃ n, verifyPacket L f C.cipher C.rxNonce = .ok (.code n)) ∨
          ∃ data rem, verifyPacket L f C.cipher C.rxNonce = .ok (.payload data rem) ∧
            out.2 = decryptCall .client f C.cipher C.rxNonce ++ [.accepted .client data]) := by
  cases a with
  | resume i =>
    simp only [RawClient.step] at hstep
    unfold RawClient.connectStep at hstep
    split at hstep
    · cases hstep; cases hc'
    · split_ifs at hstep
      · cases hstep; cases hc'
      · cases hstep; cases hc'
      · cases hstep
        unfold RawClient.onServerKey at hc'
        split at hc'
        · cases hc'
        · exact absurd hc' (sendConnect_connection L _ _ nofun)
    · cases hstep; cases hc'
    · split_ifs at hstep
      cases hstep
      obtain ⟨f, rest, -, hf⟩ :=
        clientOnChunk_connection .ack (fun _ h => by cases h) hc'
      rw [hf] at hc'
      unfold RawClient.onAck at hc'
      split at hc'
      · cases hc'
      · cases hc'
      · split_ifs at hc'
        · cases hc'
        · exact absurd hc' (sendConnect_connection L _ _ nofun)
    · cases hstep; cases hc'
    · rename_i buffer chunk hr
      split_ifs at hstep
      cases hstep
      obtain ⟨f, rest, hcut, hf⟩ :=
        clientOnChunk_connection .reply (fun _ h => by cases h) hc'
      refine ⟨buffer, chunk, f, rest, rfl, hr, hcut, ?_⟩
      rw [hf] at hc' ⊢
      unfold RawClient.onReply at hc' ⊢
      split at hc'
      · cases hc'
      · rename_i n hv
        simp only [hv]
        exact ⟨rfl, .inl ⟨n, rfl⟩⟩
      · rename_i data rem hv
        simp only [hv]
        exact ⟨rfl, .inr ⟨data, rem, rfl, rfl⟩⟩
    · cases hstep
    · cases hstep
    · cases hstep
    · cases hstep; cases hc'
    · cases hstep
  | connect relogUuid =>
    simp only [RawClient.step] at hstep
    split_ifs at hstep
    cases hstep
    cases hc'
  | sendLoop i | recvLoop i | call call | close =>
    simp only [RawClient.step, if_neg hc] at hstep
    cases hstep
  | receive n =>
    simp only [RawClient.step] at hstep
    split at hstep
    · cases hstep; exact absurd hc' hc
    · cases hstep
  | timeout n =>
    simp only [RawClient.step] at hstep
    split at hstep
    · cases hstep; exact absurd hc' hc
    · cases hstep
  | closing i =>
    simp only [RawClient.step, RawClient.closeStep] at hstep
    split at hstep
    · cases hstep; exact absurd hc' hc
    · cases hstep; exact absurd hc' hc
    · cases hstep

end

end Pipebomb
