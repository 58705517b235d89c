/-
  The roles of the symbolic handshake are what `connect` and `accept_clients` do.

  `κ` gives the key of two exponents and `encode` the bytes of a term.  A chunk that arrives
  is for the party what the term is for its role (`Reads`); what the party writes are the
  packets of the terms that the role sends (`Carries`).

  * `ServerRole.Stands`, `ClientRole.Stands`: where the coroutine of a role stands.
  * `acceptStep_publicKey`, `acceptStep_password`, `acceptStep_login`: a message arrives at
    the server; `acceptStep_sent` is the end of a send.
  * `connectStep_serverKey`, `connectStep_ack`, `connectStep_reply`: a message arrives at the
    client.
-/
import Pipebomb.Accept
import Pipebomb.Secrecy

namespace Pipebomb

open ByteString

namespace Secrecy

variable {K : Type} (L : Libs K) (κ : Key → K) (encode : Term → Bytes)

/-- What a chunk is for a party that has the key `k` and expects the nonce `n`. -/
inductive Reads (k : Key) (n : ℕ) : Option Term → Bytes → Prop
  /-- a packet that opens -/
  | payload {m : Term} {chunk frame rest : Bytes} {rem : Option Bytes} :
      extractPacketFrame chunk = (some frame, rest, none) →
      verifyPacket L frame (some (κ k)) n = .ok (.payload (encode m) rem) →
      Reads k n (some (packet k n m)) chunk
  /-- a packet under another key or nonce -/
  | code {q m : Term} {n' e : ℕ} {chunk frame rest : Bytes} :
      extractPacketFrame chunk = (some frame, rest, none) →
      verifyPacket L frame (some (κ k)) n = .ok (.code e) → ¬ (q = .shared k ∧ n' = n) →
      Reads k n (some (.aead q n' m)) chunk
  /-- no packet -/
  | invalid {t : Option Term} {chunk rest : Bytes} {frame : Option Bytes} {e : ℕ} :
      extractPacketFrame chunk = (frame, rest, some e) → (∀ q n m, t ≠ some (.aead q n m)) →
      Reads k n t chunk
  /-- the end of the stream -/
  | broken : Reads k n none []

/-- The bytes that carry a term which a role sends. -/
inductive Carries : Term → Bytes → Prop
  | server (c : ConnId) : Carries (.pub (.server c)) (L.serverPublic c)
  | client (i : ℕ) : Carries (.pub (.client i)) L.clientPublic
  | packet {k : Key} {n : ℕ} {m : Term} {pkt : Bytes} :
      constructPacket L (encode m) (some (κ k)) n = .ok pkt → Carries (packet k n m) pkt

/-- The bytes handed to a socket. -/
def writes (os : List (Obs K)) : List Bytes :=
  os.filterMap fun
    | .write _ bs => some bs
    | _ => none

/-- The bytes of data are the data. -/
def Literal : Prop := ∀ d, encode (.data d) = d

/-! ## `accept_clients` -/

/-- The session of the uuid has the key. -/
def Session (s : Server K) (u : PyStr) (r : Ref) (k : Key) : Prop :=
  s.clientDb.get? u = some r ∧ (s.objs r).cipher = some (κ k)

/-- Where the pass stands that plays the role. -/
def ServerRole.Stands (s : Server K) (c : ConnId) (t : Task (Accepting K)) : ServerRole → Prop
  | .idle => t = .idle
  | .publicKey => t = .accept (.publicKey [])
  | .password k =>
    (∃ key, t = .accept (.sendPublic key) ∧ L.exchange c key = some (κ k)) ∨
      t = .accept (.password ⟨κ k, 0, 0⟩ [])
  | .login k => t = .accept (.sendAck ⟨κ k, 1, 1⟩) ∨ t = .accept (.login ⟨κ k, 1, 1⟩ [])
  | .installed k =>
    (∃ u r, t = .accept (.sendLogin ⟨κ k, 1, 2⟩ u r) ∧ Session κ s u r k) ∨
      t = .accept (.sendUnknown ⟨κ k, 1, 2⟩) ∨
        ∃ h r, t = .handler h ∧ Session κ s h.uuid r k
  | .over => ∃ e, t = .over e

/-- The pass does what the role does. -/
def ServerPlays (c : ConnId) (o : ServerRole × List Term) (out : Outcome K (Accepting K)) : Prop :=
  o.1.Stands L κ out.1 c out.2.1 ∧ List.Forall₂ (Carries L κ encode) o.2 (writes out.2.2)

variable {L κ encode} {s : Server K} {c : ConnId} {k : Key} {n : ℕ} {t : Option Term} {y : Owner}
  {chunk : Bytes} {draw : Uuid4} {known : Bool}

theorem writes_append (os os' : List (Obs K)) : writes (os ++ os') = writes os ++ writes os' :=
  List.filterMap_append

theorem writes_encryptCall (p : Party) (data : Bytes) (cipher : Option K) (n : ℕ) :
    writes (encryptCall p data cipher n) = [] := by
  unfold encryptCall
  split
  · rfl
  · split_ifs <;> rfl

theorem writes_decryptCall (p : Party) (pkt : Bytes) (cipher : Option K) (n : ℕ) :
    writes (decryptCall p pkt cipher n) = [] := by
  unfold decryptCall
  split
  · split_ifs <;> rfl
  · rfl

theorem serverPlays_over {e : Option PyErr} {os : List (Obs K)} (h : writes os = []) :
    ServerPlays L κ encode c (.over, []) (s, .over e, os) :=
  ⟨⟨e, rfl⟩, by rw [h]; exact .nil⟩

/-- What was seen before a step and is no write. -/
theorem ServerPlays.seen {o : ServerRole × List Term} {out : Outcome K (Accepting K)}
    {os : List (Obs K)} (h : ServerPlays L κ encode c o out) (hos : writes os = []) :
    ServerPlays L κ encode c o (seen os out) :=
  ⟨h.1, by rw [Pipebomb.seen, writes_append, hos]; exact h.2⟩

theorem serverPlays_send {l : Locals K} {data : Bytes} {next : Accepting K} {r : ServerRole}
    (hlit : Literal encode) (hl : l.cipher = κ k) (hn : l.txNonce = n) (hlt : n < 2 ^ 96)
    (hne : data ≠ []) (hfit : Fits L data) (hr : r.Stands L κ s c (.accept next)) :
    ServerPlays L κ encode c (r, [packet k n (.data data)]) (sendHandshake L s c l data next) := by
  have hpkt := constructPacket_eq L hne hfit hlt (κ k)
  refine ServerPlays.seen ?_ (writes_encryptCall ..)
  rw [hl, hn, hpkt]
  refine ⟨hr, .cons ?_ .nil⟩
  exact .packet (by rw [hlit]; exact hpkt)

/-- **The client's public key arrives**, in one piece. -/
theorem acceptStep_publicKey (hlen : chunk.length = 32)
    (hkey : L.exchange c chunk = some (κ s(.server c, y))) :
    ∃ o out, ServerRole.receive encode c known .publicKey (some (.pub y)) = some o ∧
      acceptStep L s c (.publicKey []) (.recv chunk) draw = some out ∧
        ServerPlays L κ encode c o out := by
  refine ⟨_, (s, .accept (.sendPublic chunk), [.write (.server c) (L.serverPublic c)]), rfl, ?_,
    .inl ⟨chunk, rfl, hkey⟩, .cons (.server c) .nil⟩
  have hne : chunk ≠ [] := by rintro rfl; cases hlen
  simp [acceptStep, hlen, hne]

theorem chunk_ne_nil {x : Option Bytes × Bytes × Option ℕ} (h : extractPacketFrame chunk = x)
    (hx : x.1 ≠ none ∨ x.2.2 ≠ none) : chunk ≠ [] := by
  rintro rfl
  subst h
  simp [extractPacketFrame, FRAME_HEADER_SIZE] at hx

/-- A chunk arrives where the pass waits for a packet. -/
theorem onChunk_reads (hin : Reads L κ encode k n t chunk) (s : Server K)
    (waiting : Bytes → Accepting K) (frame : Bytes → Outcome K (Accepting K)) :
    (∃ m f rem, t = some (packet k n m) ∧
        verifyPacket L f (some (κ k)) n = .ok (.payload (encode m) rem) ∧
          onChunk s [] chunk waiting frame = frame f) ∨
      (∃ q n' m f e, t = some (.aead q n' m) ∧ ¬ (q = .shared k ∧ n' = n) ∧
        verifyPacket L f (some (κ k)) n = .ok (.code e) ∧
          onChunk s [] chunk waiting frame = frame f) ∨
      (∀ q n m, t ≠ some (.aead q n m)) ∧ ∃ e, onChunk s [] chunk waiting frame = logged s e := by
  cases hin with
  | payload hcut hv =>
    refine .inl ⟨_, _, _, rfl, hv, ?_⟩
    simp [onChunk, chunk_ne_nil hcut, hcut]
  | code hcut hv hq =>
    refine .inr (.inl ⟨_, _, _, _, _, rfl, hq, hv, ?_⟩)
    simp [onChunk, chunk_ne_nil hcut, hcut]
  | invalid hcut ht =>
    refine .inr (.inr ⟨ht, ?_⟩)
    simp only [onChunk, if_neg (chunk_ne_nil hcut (.inr nofun)), List.nil_append, hcut]
    exact ⟨_, rfl⟩
  | broken => exact .inr (.inr ⟨nofun, _, rfl⟩)

/-- **The password arrives.**  The attacker does not guess it. -/
theorem acceptStep_password (hlit : Literal encode) (hfit : Fits L ACK)
    (hin : Reads L κ encode k 0 t chunk) (hlen : chunk.length ≤ 1024)
    (hpw : ∀ m, t = some (packet k 0 m) → (encode m = 0 :: s.password ↔ m = password)) :
    ∃ o out, ServerRole.receive encode c known (.password k) t = some o ∧
      acceptStep L s c (.password ⟨κ k, 0, 0⟩ []) (.recv chunk) draw = some out ∧
        ServerPlays L κ encode c o out := by
  simp only [acceptStep, ServerRole.receive, if_neg (Nat.not_lt.2 hlen)]
  obtain ⟨m, f, rem, rfl, hv, he⟩ | ⟨q, n', m, f, e, rfl, hq, hv, he⟩ | ⟨ht, e, he⟩ :=
    onChunk_reads hin s (.password ⟨κ k, 0, 0⟩) (onPassword L s c ⟨κ k, 0, 0⟩)
  · rw [he]
    simp only [onPassword, hv]
    by_cases hm : m = password
    · subst hm
      rw [if_pos rfl, if_neg (by rw [not_not]; exact (hpw _ rfl).2 rfl)]
      refine ⟨_, _, rfl, rfl, .seen (.seen ?_ rfl) (writes_decryptCall ..)⟩
      exact serverPlays_send hlit rfl rfl (by omega) (by decide) hfit (.inl rfl)
    · rw [if_neg (by simpa [packet] using hm), if_pos fun h => hm ((hpw m rfl).1 h)]
      exact ⟨_, _, rfl, rfl, .seen (serverPlays_over rfl) (writes_decryptCall ..)⟩
  · rw [he]
    simp only [onPassword, hv]
    rw [if_neg (by simp only [packet, Option.some.injEq, Symbolic.Term.aead.injEq]; tauto)]
    exact ⟨_, _, rfl, rfl, .seen (serverPlays_over rfl) (writes_decryptCall ..)⟩
  · rw [he, if_neg (show t ≠ some (packet k 0 password) from ht _ _ _)]
    exact ⟨_, _, rfl, rfl, serverPlays_over rfl⟩

/-- The role's view of `client_db`: a session has the uuid that a RELOGIN names. -/
def Server.Names (s : Server K) (response : Bytes) : Bool :=
  (s.clientDb.get? (latin1Decode response.tail)).isSome

theorem receive_login (ht : ∀ q n m, t ≠ some (.aead q n m)) :
    ServerRole.receive encode c known (.login k) t = some (.over, []) := by
  rcases t with _ | t
  · rfl
  · cases t with
    | aead q n m => exact absurd rfl (ht q n m)
    | _ => rfl

/-- **The client's response arrives.** -/
theorem acceptStep_login (hlit : Literal encode) (hack : Fits L ACK) (hunknown : Fits L unknownUuid)
    (hin : Reads L κ encode k 1 t chunk) (hlen : chunk.length ≤ 1024)
    (hknown : ∀ m, t = some (packet k 1 m) → known = Server.Names s (encode m)) :
    ∃ o out, ServerRole.receive encode c known (.login k) t = some o ∧
      acceptStep L s c (.login ⟨κ k, 1, 1⟩ []) (.recv chunk) draw = some out ∧
        ServerPlays L κ encode c o out := by
  simp only [acceptStep, if_neg (Nat.not_lt.2 hlen)]
  obtain ⟨m, f, rem, rfl, hv, he⟩ | ⟨q, n', m, f, e, rfl, hq, hv, he⟩ | ⟨ht, e, he⟩ :=
    onChunk_reads hin s (.login ⟨κ k, 1, 1⟩) fun f => onLogin L s c ⟨κ k, 1, 1⟩ f draw
  · refine ⟨_, _, if_pos ⟨rfl, rfl⟩, rfl, ?_⟩
    rw [he]
    simp only [onLogin, hv]
    refine .seen (.seen ?_ rfl) (writes_decryptCall ..)
    rcases hm : encode m with _ | ⟨type_, rest⟩
    · exact serverPlays_over rfl
    have hknown := hknown m rfl
    rw [hm, Server.Names, List.tail_cons] at hknown
    by_cases hr : type_ = 0xC4
    · simp only [ServerRole.respond, if_pos hr]
      rcases hu : s.clientDb.get? (latin1Decode rest) with _ | r
      · rw [hu] at hknown
        subst hknown
        exact serverPlays_send hlit rfl rfl (by omega) (by decide) hunknown (.inr (.inl rfl))
      · rw [hu] at hknown
        subst hknown
        simp only [Option.isSome_some, if_true]
        refine .seen (serverPlays_send hlit rfl rfl (by omega) (by decide) hack ?_) rfl
        exact .inl ⟨_, r, rfl, hu, by rw [Server.modify_objs_self]; rfl⟩
    by_cases hl : type_ = 0xC5
    · simp only [ServerRole.respond, if_neg hr, if_pos hl]
      refine .seen (serverPlays_send hlit rfl rfl (by omega) (by decide) hack ?_) rfl
      refine .inl ⟨_, _, rfl, ?_, ?_⟩
      · rw [Server.addSession_clientDb, Dict.get?_set, if_pos rfl]
      · rw [Server.addSession_objs_fresh]; rfl
    · simp only [ServerRole.respond, if_neg hr, if_neg hl]
      exact serverPlays_over rfl
  · rw [he]
    simp only [onLogin, hv]
    exact ⟨_, _, if_neg hq, rfl, .seen (serverPlays_over rfl) (writes_decryptCall ..)⟩
  · rw [he]
    exact ⟨_, _, receive_login ht, rfl, serverPlays_over rfl⟩

/-- **A send ends.**  The role goes on waiting, or the handler starts. -/
theorem acceptStep_sent {r : ServerRole} {a : Accepting K} {out : Outcome K (Accepting K)}
    (hr : r.Stands L κ s c (.accept a)) (h : acceptStep L s c a .sent draw = some out) :
    r.Stands L κ out.1 c out.2.1 ∧ writes out.2.2 = [] := by
  cases r with
  | idle => cases hr
  | publicKey => cases hr; cases h
  | password k =>
    obtain ⟨key, he, hk⟩ | he := hr
    · cases he
      simp only [acceptStep, hk] at h
      cases h
      exact ⟨.inr rfl, rfl⟩
    · cases he; cases h
  | login k =>
    obtain he | he := hr
    · cases he
      cases h
      exact ⟨.inr rfl, rfl⟩
    · cases he; cases h
  | installed k =>
    obtain ⟨u, r, he, hu, hk⟩ | he | ⟨h', r, he, -⟩ := hr
    · cases he
      cases h
      refine ⟨.inr (.inr ⟨_, r, rfl, hu, ?_⟩), rfl⟩
      rw [finish, Server.modify_objs_self]
      exact hk
    · cases he
      cases h
      refine ⟨.inr (.inr ⟨_, s.fresh, rfl, ?_, ?_⟩), rfl⟩
      · simp only [seen, finish, Server.modify_clientDb, Server.addSession_clientDb]
        rw [Dict.get?_set, if_pos rfl]
      · simp only [seen, finish, Server.modify_objs_self, Server.addSession_objs_fresh]
        rfl
    · cases he
  | «over» => obtain ⟨e, he⟩ := hr; cases he

/-! ## `connect` -/

/-- Where `connect` stands that plays the role. -/
def ClientRole.Stands (κ : Key → K) (C : RawClient K) : ClientRole → Prop
  | .idle => C.connection = .idle ∧ C.txNonce = 0 ∧ C.rxNonce = 0
  | .serverKey relogUuid => (C.connection = .sendPublic ∨ C.connection = .serverKey []) ∧
      C.txNonce = 0 ∧ C.rxNonce = 0 ∧ C.relogUuid = relogUuid
  | .ack k relogUuid => (C.connection = .sendPassword ∧ C.txNonce = 0 ∨
      C.connection = .ack [] ∧ C.txNonce = 1) ∧ C.rxNonce = 0 ∧ C.relogUuid = relogUuid ∧
        C.cipher = some (κ k)
  | .reply k => (C.connection = .sendLogin ∧ C.txNonce = 1 ∨
      C.connection = .reply [] ∧ C.txNonce = 2) ∧ C.rxNonce = 1 ∧ C.cipher = some (κ k)
  | .connected k => C.connection = .connected ∧ C.txNonce = 2 ∧ C.rxNonce = 2 ∧
      C.cipher = some (κ k)
  | .failed => ∃ e, C.connection = .failed e

variable (L κ encode) in
/-- `connect` does what the role does. -/
def ClientPlays (o : ClientRole × List Term) (out : RawClient.After K) : Prop :=
  o.1.Stands κ out.1 ∧ List.Forall₂ (Carries L κ encode) o.2 (writes out.2)

variable {C : RawClient K} {i : ℕ} {relogUuid : Option Bytes}

theorem clientPlays_fail (e : PyErr) : ClientPlays L κ encode (.failed, []) (C.fail e) :=
  ⟨⟨e, rfl⟩, .nil⟩

theorem ClientPlays.saw {o : ClientRole × List Term} {out : RawClient.After K} {os : List (Obs K)}
    (h : ClientPlays L κ encode o out) (hos : writes os = []) :
    ClientPlays L κ encode o (RawClient.saw os out) :=
  ⟨h.1, by rw [RawClient.saw, writes_append, hos]; exact h.2⟩

theorem clientPlays_send {m : Term} {data : Bytes} {next : Connecting} {r : ClientRole}
    (hm : encode m = data) (hk : C.cipher = some (κ k)) (hn : C.txNonce = n) (hlt : n < 2 ^ 96)
    (hne : data ≠ []) (hfit : Fits L data) (hr : r.Stands κ (C.stand next)) :
    ClientPlays L κ encode (r, [packet k n m]) (C.sendConnect L data next) := by
  have hpkt := constructPacket_eq L hne hfit hlt (κ k)
  refine ClientPlays.saw ?_ (writes_encryptCall ..)
  rw [hk, hn, hpkt]
  refine ⟨hr, .cons ?_ .nil⟩
  exact .packet (by rw [hm]; exact hpkt)

/-- A chunk arrives where `connect` waits for a packet. -/
theorem clientOnChunk_reads (hin : Reads L κ encode k n t chunk) (C : RawClient K)
    (waiting : Bytes → Connecting) (frame : Bytes → RawClient.After K) :
    (∃ m f rem, t = some (packet k n m) ∧
        verifyPacket L f (some (κ k)) n = .ok (.payload (encode m) rem) ∧
          C.onChunk [] chunk waiting frame = frame f) ∨
      (∃ q n' m f e, t = some (.aead q n' m) ∧ ¬ (q = .shared k ∧ n' = n) ∧
        verifyPacket L f (some (κ k)) n = .ok (.code e) ∧
          C.onChunk [] chunk waiting frame = frame f) ∨
      (∀ q n m, t ≠ some (.aead q n m)) ∧ ∃ e, C.onChunk [] chunk waiting frame = C.fail e := by
  cases hin with
  | payload hcut hv =>
    refine .inl ⟨_, _, _, rfl, hv, ?_⟩
    simp [RawClient.onChunk, chunk_ne_nil hcut, hcut]
  | code hcut hv hq =>
    refine .inr (.inl ⟨_, _, _, _, _, rfl, hq, hv, ?_⟩)
    simp [RawClient.onChunk, chunk_ne_nil hcut, hcut]
  | invalid hcut ht =>
    refine .inr (.inr ⟨ht, ?_⟩)
    simp only [RawClient.onChunk, if_neg (chunk_ne_nil hcut (.inr nofun)), List.nil_append, hcut]
    exact ⟨_, rfl⟩
  | broken => exact .inr (.inr ⟨nofun, _, rfl⟩)

/-- **The server's public key arrives**, in one piece. -/
theorem connectStep_serverKey (hr : (ClientRole.serverKey relogUuid).Stands κ C)
    (hc : C.connection = .serverKey []) (hlen : chunk.length = 32)
    (hkey : L.clientExchange chunk = some (κ s(.client i, y)))
    (hpw : encode password = 0 :: C.password) (hfit : Fits L (0 :: C.password)) :
    ∃ o out, ClientRole.receive i (.serverKey relogUuid) (some (.pub y)) = some o ∧
      C.connectStep L (.recv chunk) = some out ∧ ClientPlays L κ encode o out := by
  obtain ⟨-, htx, hrx, hre⟩ := hr
  have hne : chunk ≠ [] := by rintro rfl; cases hlen
  refine ⟨_, C.onServerKey L chunk, rfl, ?_, ?_⟩
  · simp [RawClient.connectStep, hc, hlen, hne]
  · simp only [RawClient.onServerKey, hkey]
    refine clientPlays_send hpw rfl htx (by omega) (by simp) hfit ?_
    exact ⟨.inl ⟨rfl, htx⟩, hrx, hre, rfl⟩

/-- **The first ACK arrives.** -/
theorem connectStep_ack (hr : (ClientRole.ack k relogUuid).Stands κ C)
    (hc : C.connection = .ack []) (hlit : Literal encode) (hfit : Fits L (login relogUuid))
    (hin : Reads L κ encode k 0 t chunk) (hlen : chunk.length ≤ 1024)
    (hack : ∀ m, t = some (packet k 0 m) → (encode m = ACK ↔ m = .data ACK)) :
    ∃ o out, ClientRole.receive i (.ack k relogUuid) t = some o ∧
      C.connectStep L (.recv chunk) = some out ∧ ClientPlays L κ encode o out := by
  obtain ⟨hpc, hrx, hre, hk⟩ := hr
  have htx : C.txNonce = 1 := by
    rcases hpc with ⟨h, -⟩ | ⟨-, h⟩
    · rw [hc] at h; cases h
    · exact h
  have hpay : C.loginPayload = login relogUuid := by
    rw [← hre]
    unfold RawClient.loginPayload login
    rfl
  simp only [RawClient.connectStep, hc, ClientRole.receive, if_neg (Nat.not_lt.2 hlen)]
  obtain ⟨m, f, rem, rfl, hv, he⟩ | ⟨q, n', m, f, e, rfl, hq, hv, he⟩ | ⟨ht, e, he⟩ :=
    clientOnChunk_reads hin C .ack (C.onAck L)
  · rw [he]
    simp only [RawClient.onAck, hk, hrx, hv]
    by_cases hm : m = .data ACK
    · subst hm
      rw [if_pos rfl, if_neg (by rw [not_not]; exact (hack _ rfl).2 rfl)]
      refine ⟨_, _, rfl, rfl, .saw (.saw ?_ rfl) (writes_decryptCall ..)⟩
      rw [hpay]
      refine clientPlays_send (hlit _) hk htx (by omega) (by cases relogUuid <;> simp [login]) hfit ?_
      exact ⟨.inl ⟨rfl, htx⟩, congrArg (· + 1) hrx, hk⟩
    · rw [if_neg (by simpa [packet] using hm), if_pos fun h => hm ((hack m rfl).1 h)]
      exact ⟨_, _, rfl, rfl, .saw (.saw (clientPlays_fail _) rfl) (writes_decryptCall ..)⟩
  · rw [he]
    simp only [RawClient.onAck, hk, hrx, hv]
    rw [if_neg (by simp only [packet, Option.some.injEq, Symbolic.Term.aead.injEq]; tauto)]
    exact ⟨_, _, rfl, rfl, .saw (clientPlays_fail _) (writes_decryptCall ..)⟩
  · rw [he, if_neg (show t ≠ some (packet k 0 (.data ACK)) from ht _ _ _)]
    exact ⟨_, _, rfl, rfl, clientPlays_fail _⟩

theorem receive_reply (ht : ∀ q n m, t ≠ some (.aead q n m)) :
    ClientRole.receive i (.reply k) t = some (.failed, []) := by
  rcases t with _ | t
  · rfl
  · cases t with
    | aead q n m => exact absurd rfl (ht q n m)
    | _ => rfl

/-- **The reply to the login arrives.**  Every packet will do. -/
theorem connectStep_reply (hr : (ClientRole.reply k).Stands κ C) (hc : C.connection = .reply [])
    (hin : Reads L κ encode k 1 t chunk) (hlen : chunk.length ≤ 1024) :
    ∃ o out, ClientRole.receive i (.reply k) t = some o ∧
      C.connectStep L (.recv chunk) = some out ∧ ClientPlays L κ encode o out := by
  obtain ⟨hpc, hrx, hk⟩ := hr
  have htx : C.txNonce = 2 := by
    rcases hpc with ⟨h, -⟩ | ⟨-, h⟩
    · rw [hc] at h; cases h
    · exact h
  have hconn : (ClientRole.connected k).Stands κ (C.received.stand .connected) :=
    ⟨rfl, htx, congrArg (· + 1) hrx, hk⟩
  simp only [RawClient.connectStep, hc, if_neg (Nat.not_lt.2 hlen)]
  obtain ⟨m, f, rem, rfl, hv, he⟩ | ⟨q, n', m, f, e, rfl, hq, hv, he⟩ | ⟨ht, e, he⟩ :=
    clientOnChunk_reads hin C .reply (C.onReply L)
  · rw [he]
    simp only [RawClient.onReply, hk, hrx, hv]
    exact ⟨_, _, rfl, rfl, .saw ⟨hconn, .nil⟩ (writes_decryptCall ..)⟩
  · rw [he]
    simp only [RawClient.onReply, hk, hrx, hv]
    exact ⟨_, _, rfl, rfl, .saw ⟨hconn, .nil⟩ (writes_decryptCall ..)⟩
  · rw [he]
    exact ⟨_, _, receive_reply ht, rfl, clientPlays_fail _⟩

/-- **A send ends.** -/
theorem connectStep_sent {r : ClientRole} {out : RawClient.After K} (hr : r.Stands κ C)
    (h : C.connectStep L .sent = some out) : r.Stands κ out.1 ∧ writes out.2 = [] := by
  cases r with
  | idle => simp [RawClient.connectStep, hr.1] at h
  | serverKey relogUuid =>
    obtain ⟨hpc | hpc, htx, hrx, hre⟩ := hr
    · simp only [RawClient.connectStep, hpc] at h
      cases h
      exact ⟨⟨.inr rfl, htx, hrx, hre⟩, rfl⟩
    · simp [RawClient.connectStep, hpc] at h
  | ack k relogUuid =>
    obtain ⟨⟨hpc, htx⟩ | ⟨hpc, -⟩, hrx, hre, hk⟩ := hr
    · simp only [RawClient.connectStep, hpc] at h
      cases h
      exact ⟨⟨.inr ⟨rfl, congrArg (· + 1) htx⟩, hrx, hre, hk⟩, rfl⟩
    · simp [RawClient.connectStep, hpc] at h
  | reply k =>
    obtain ⟨⟨hpc, htx⟩ | ⟨hpc, -⟩, hrx, hk⟩ := hr
    · simp only [RawClient.connectStep, hpc] at h
      cases h
      exact ⟨⟨.inr ⟨rfl, congrArg (· + 1) htx⟩, hrx, hk⟩, rfl⟩
    · simp [RawClient.connectStep, hpc] at h
  | connected k => simp [RawClient.connectStep, hr.1] at h
  | failed => obtain ⟨e, he⟩ := hr; simp [RawClient.connectStep, he] at h

end Secrecy

end Pipebomb
