/-
  The stages of the handshake, over a network that delivers what was written.

  The two ends take turns: at each stage one message is under way, and the end that it is not for
  ends its last send or waits.

  * `Stage`: where the two ends stand, by the message that is under way.
  * `handshakeRank`: what is left of the handshake.
  * `Stage.server`, `Stage.client`: every step of either end leads to a stage with a smaller rank, or
    to the end of `connect`.
-/
import Pipebomb.Handshake
import Pipebomb.SetGet

namespace Pipebomb

open ByteString

variable {K : Type} (L : Libs K)

/-! ## A message that is under way -/

section
variable {α : Type} {pc pc' first : α} {read : Bytes → α} {msg feed b chunk : Bytes}

/-- A party that no message is under way to: it ends its last send, or it waits. -/
def Awaits (pc first : α) (read : Bytes → α) : Prop := pc = first ∨ pc = read []

/-- A party that the message is under way to: it ends its last send, or it has `b` of the
    message. -/
def Takes (pc first : α) (read : Bytes → α) (msg feed : Bytes) : Prop :=
  pc = first ∧ feed = msg ∨ ∃ b, pc = read b ∧ b ++ feed = msg ∧ feed ≠ []

/-- A message is written to it. -/
theorem Awaits.takes (h : Awaits pc first read) (hmsg : msg ≠ []) : Takes pc first read msg msg := by
  rcases h with h | h
  · exact .inl ⟨h, rfl⟩
  · exact .inr ⟨[], h, rfl, hmsg⟩

/-- A chunk of the message arrives: it is the rest, or more comes. -/
theorem chunk_comes (hmsg : b ++ feed = msg) (hchunk : chunk <+: feed) :
    b ++ chunk = msg ∧ feed.drop chunk.length = [] ∨
      (b ++ chunk).length < msg.length ∧ (b ++ chunk) ++ feed.drop chunk.length = msg ∧
        feed.drop chunk.length ≠ [] := by
  obtain ⟨rest, rfl⟩ := hchunk
  have hdrop : (chunk ++ rest).drop chunk.length = rest := List.drop_left
  rw [hdrop]
  rcases rest with _ | ⟨r, rest⟩
  · rw [List.append_nil] at hmsg
    exact .inl ⟨hmsg, rfl⟩
  · refine .inr ⟨?_, ?_, List.cons_ne_nil _ _⟩
    · rw [← hmsg]
      simp
    · rw [List.append_assoc]
      exact hmsg

/-- A chunk of a packet arrives: the packet is there, or its reader waits for more. -/
theorem packet_comes {x : K × ℕ × Bytes} (hp : constructPacket L x.2.2 (some x.1) x.2.1 = .ok (packet L x))
    (hmsg : b ++ feed = packet L x) (hchunk : chunk <+: feed) :
    extractPacketFrame (b ++ chunk) = (some (packet L x), [], none) ∧ feed.drop chunk.length = [] ∨
      extractPacketFrame (b ++ chunk) = (none, b ++ chunk, none) ∧
        (b ++ chunk) ++ feed.drop chunk.length = packet L x ∧ feed.drop chunk.length ≠ [] := by
  have hcomplete := complete_packet L hp
  rcases chunk_comes hmsg hchunk with ⟨hall, hdrop⟩ | ⟨-, hmore, hdrop⟩
  · refine .inl ⟨?_, hdrop⟩
    rw [hall]
    exact extract_frame (by simpa using hcomplete [])
  · refine .inr ⟨?_, hmore, hdrop⟩
    have hflat : (b ++ chunk) ++ feed.drop chunk.length = [packet L x].flatten := by simpa using hmore
    obtain hcut | ⟨f, fs, r, hfs, -, hr⟩ := packetFraming.cut_flatten (by rfl)
      (fun f hf => by rw [List.mem_singleton.1 hf]; exact hcomplete) hflat
    · exact extract_more hcut
    · obtain ⟨rfl, rfl⟩ := List.cons.inj hfs
      exact absurd (List.append_eq_nil_iff.1 hr).2 hdrop

end

/-! ## The two ends -/

/-- The handshake's client: it called nothing but `connect`. -/
structure RawClient.Joins (password : Bytes) (relogUuid : Option Bytes) (C : RawClient K) : Prop where
  password : C.password = password
  relogUuid : C.relogUuid = relogUuid
  calls : C.calls = []
  closing : C.closing = .idle

/-- Where `connect` stands, and its counter of packets. -/
def RawClient.at (C : RawClient K) : Connecting × ℕ := (C.connection, C.txNonce)

/-- The coroutine has nothing to read for the client that was answered. -/
def Task.Rests : Task (Accepting K) → Prop
  | .accept (.sendUnknown _) | .accept (.sendLogin _ _ _) | .over _ => True
  | .handler h => h.receiveBuffer = [] ∧ (h.pc = .start ∨ h.pc = .sleep ∨ h.pc = .recv)
  | _ => False

/-- How the server lets in the client that sent `login relogUuid`, and what it answers. -/
inductive LetsIn (c : ConnId) (s : Server K) (o : List (Obs K)) : Option Bytes → Bytes → Prop
  | login {u : PyStr} : .session c u ∈ o → LetsIn c s o none ACK
  | relogin {uuid : Bytes} : latin1Decode uuid ∈ s.clientDb → .relogin c (latin1Decode uuid) ∈ o →
      LetsIn c s o (some uuid) ACK
  | unknown {uuid : Bytes} : latin1Decode uuid ∉ s.clientDb → LetsIn c s o (some uuid) Secrecy.unknownUuid

/-- **The stages of the handshake**, by the message that is under way; `toServer` and `toClient`
    are the bytes that did not arrive.  `P` is known of the reply to the login. -/
inductive Stage (c : ConnId) (k : K) (password : Bytes) (relogUuid : Option Bytes) (P : Bytes → Prop)
    (C : RawClient K) (t : Task (Accepting K)) (toServer toClient : Bytes) : Prop
  | publicKey (hC : Awaits C.at (.sendPublic, 0) fun b => (.serverKey b, 0)) (hrx : C.rxNonce = 0)
      (ht : Takes t .idle (fun b => .accept (.publicKey b)) L.clientPublic toServer) (hy : toClient = [])
  | serverKey (hC : Takes C.at (.sendPublic, 0) (fun b => (.serverKey b, 0)) (L.serverPublic c) toClient)
      (hrx : C.rxNonce = 0) (ht : Awaits t (.accept (.sendPublic L.clientPublic)) fun b =>
        .accept (.password ⟨k, 0, 0⟩ b)) (hx : toServer = [])
  | password (hC : Awaits C.at (.sendPassword, 0) fun b => (.ack b, 1)) (hrx : C.rxNonce = 0)
      (hk : C.cipher = some k) (ht : Takes t (.accept (.sendPublic L.clientPublic))
        (fun b => .accept (.password ⟨k, 0, 0⟩ b)) (packet L (k, 0, 0 :: C.password)) toServer)
      (hy : toClient = [])
  | refused (hC : Awaits C.at (.sendPassword, 0) fun b => (.ack b, 1)) (hrx : C.rxNonce = 0)
      (hk : C.cipher = some k) (hne : C.password ≠ password) (ht : t = .over none) (hx : toServer = [])
      (hy : toClient = [])
  | ack (hC : Takes C.at (.sendPassword, 0) (fun b => (.ack b, 1)) (packet L (k, 0, ACK)) toClient)
      (hrx : C.rxNonce = 0) (hk : C.cipher = some k) (heq : C.password = password)
      (ht : Awaits t (.accept (.sendAck ⟨k, 1, 1⟩)) fun b => .accept (.login ⟨k, 1, 1⟩ b))
      (hx : toServer = [])
  | login (hC : Awaits C.at (.sendLogin, 1) fun b => (.reply b, 2)) (hrx : C.rxNonce = 1)
      (hk : C.cipher = some k) (heq : C.password = password)
      (ht : Takes t (.accept (.sendAck ⟨k, 1, 1⟩)) (fun b => .accept (.login ⟨k, 1, 1⟩ b))
        (packet L (k, 1, Secrecy.login relogUuid)) toServer) (hy : toClient = [])
  | reply (answer : Bytes) (hP : P answer) (hanswer : answer = ACK ∨ answer = Secrecy.unknownUuid)
      (hC : Takes C.at (.sendLogin, 1) (fun b => (.reply b, 2)) (packet L (k, 1, answer)) toClient)
      (hrx : C.rxNonce = 1) (hk : C.cipher = some k) (heq : C.password = password) (ht : t.Rests)
      (hx : toServer = [])

/-! ## The rank -/

/-- The awaits that `connect` has before it. -/
def Connecting.rank : Connecting → ℕ
  | .idle => 7
  | .sendPublic => 6
  | .serverKey _ => 5
  | .sendPassword => 4
  | .ack _ => 3
  | .sendLogin => 2
  | .reply _ => 1
  | .connected | .failed _ => 0

/-- The awaits that the coroutine of the connection has before it. -/
def Task.rank : Task (Accepting K) → ℕ
  | .idle => 10
  | .accept (.publicKey _) => 9
  | .accept (.sendPublic _) => 8
  | .accept (.password _ _) => 7
  | .accept (.sendAck _) => 6
  | .accept (.login _ _) => 5
  | .accept (.sendUnknown _) | .accept (.sendLogin _ _ _) => 4
  | .handler h => if h.pc = .start then 3 else if h.pc = .sleep then 2 else 1
  | .over _ => 0

/-- More than the bytes of any message of the handshake. -/
def messageBound (c : ConnId) (k : K) (password : Bytes) (relogUuid : Option Bytes) : ℕ :=
  L.clientPublic.length + (L.serverPublic c).length + (packet L (k, 0, 0 :: password)).length +
    (packet L (k, 0, ACK)).length + (packet L (k, 1, Secrecy.login relogUuid)).length +
    (packet L (k, 1, ACK)).length + (packet L (k, 1, Secrecy.unknownUuid)).length + 1

/-- What is left of the handshake. -/
def handshakeRank (bound : ℕ) (C : RawClient K) (t : Task (Accepting K)) (toServer toClient : Bytes) : ℕ :=
  bound * (C.connection.rank + t.rank) + toServer.length + toClient.length

section
variable {c : ConnId} {k : K} {s : Server K} {C C' : RawClient K} {t t' : Task (Accepting K)}
  {b x x' y y' chunk feed data : Bytes} {n bound : ℕ} {i : Input} {draw : Uuid4}

theorem handshakeRank_lt (hrank : C'.connection.rank + t'.rank < C.connection.rank + t.rank)
    (hbytes : x'.length + y'.length < x.length + y.length + bound) :
    handshakeRank bound C' t' x' y' < handshakeRank bound C t x y := by
  have hmul : bound * (C'.connection.rank + t'.rank + 1) ≤ bound * (C.connection.rank + t.rank) :=
    Nat.mul_le_mul_left bound hrank
  rw [Nat.mul_succ] at hmul
  unfold handshakeRank
  omega

/-- A chunk of a message arrives, and more is to come. -/
theorem handshakeRank_drop (hrank : C'.connection.rank + t'.rank = C.connection.rank + t.rank)
    (hchunk : chunk <+: feed) (hne : chunk ≠ []) (hbytes : x'.length + y'.length + feed.length =
      x.length + y.length + (feed.drop chunk.length).length) :
    handshakeRank bound C' t' x' y' < handshakeRank bound C t x y := by
  have hle := hchunk.length_le
  have hpos := List.length_pos_iff.2 hne
  rw [List.length_drop] at hbytes
  unfold handshakeRank
  rw [hrank]
  omega

/-! ## The server -/

theorem built_packet (hne : data ≠ []) (hf : Fits L data) (hn : n < 2 ^ 96) (k : K) :
    constructPacket L data (some k) n = .ok (packet L (k, n, data)) := constructPacket_eq L hne hf hn k

theorem sendHandshake_packet {l : Locals K} {next : Accepting K} (hne : data ≠ []) (hf : Fits L data)
    (hn : l.txNonce < 2 ^ 96) : sendHandshake L s c l data next = (s, .accept next,
      [.encrypt (.server c) l.cipher l.txNonce data,
        .write (.server c) (packet L (l.cipher, l.txNonce, data))]) := by
  rw [sendHandshake, built_packet L hne hf hn, encryptCall_eq _ _ hne hn]
  rfl

/-- A chunk of a packet arrives at the pass. -/
theorem onChunk_takes (s : Server K) (waiting : Bytes → Accepting K)
    (frame : Bytes → Outcome K (Accepting K)) {p : K × ℕ × Bytes}
    (hp : constructPacket L p.2.2 (some p.1) p.2.1 = .ok (packet L p)) (hmsg : b ++ feed = packet L p)
    (hchunk : chunk <+: feed) (hne : chunk ≠ []) :
    onChunk s b chunk waiting frame = frame (packet L p) ∧ feed.drop chunk.length = [] ∨
      onChunk s b chunk waiting frame = (s, .accept (waiting (b ++ chunk)), []) ∧
        (b ++ chunk) ++ feed.drop chunk.length = packet L p ∧ feed.drop chunk.length ≠ [] := by
  rcases packet_comes L hp hmsg hchunk with ⟨hcut, hdrop⟩ | ⟨hcut, hmore⟩
  · exact .inl ⟨by simp only [onChunk, if_neg hne, hcut], hdrop⟩
  · exact .inr ⟨by simp only [onChunk, if_neg hne, hcut], hmore⟩

@[simp] theorem written_write (p : Party) (bs : Bytes) : Net.written p [(.write p bs : Obs K)] = bs := by
  simp [Net.written]

@[simp] theorem written_nil (p : Party) : Net.written p ([] : List (Obs K)) = [] := rfl

/-- The password of the server arrives. -/
theorem onPassword_right (hf : Fits L (0 :: s.password)) :
    onPassword L s c ⟨k, 0, 0⟩ (packet L (k, 0, 0 :: s.password)) = (s, .accept (.sendAck ⟨k, 1, 1⟩),
      [.decrypt (.server c) k 0 (sealed L k 0 (0 :: s.password)),
        .accepted (.server c) (0 :: s.password), .encrypt (.server c) k 0 ACK,
        .write (.server c) (packet L (k, 0, ACK))]) := by
  have hp := built_packet L (List.cons_ne_nil 0 s.password) hf (n := 0) (by omega) k
  obtain ⟨hdec, hver⟩ := open_packet L (x := (k, 0, 0 :: s.password)) (.server c) hp
  simp only at hdec hver
  simp only [onPassword, hdec, hver, ne_eq, not_true_eq_false, if_false]
  rw [sendHandshake_packet L (by decide) (fits_of_length L (by decide)) (by decide : 0 < 2 ^ 96)]
  rfl

/-- Another password arrives. -/
theorem onPassword_wrong {password : Bytes} (hf : Fits L (0 :: password)) (hne : password ≠ s.password) :
    onPassword L s c ⟨k, 0, 0⟩ (packet L (k, 0, 0 :: password)) =
      (s, .over none, [.decrypt (.server c) k 0 (sealed L k 0 (0 :: password))]) := by
  have hp := built_packet L (List.cons_ne_nil 0 password) hf (n := 0) (by omega) k
  obtain ⟨hdec, hver⟩ := open_packet L (x := (k, 0, 0 :: password)) (.server c) hp
  have hne' : (0 :: password : Bytes) ≠ 0 :: s.password := fun h => hne (List.cons.inj h).2
  simp only at hdec hver
  simp only [onPassword, hdec, hver, if_pos hne']
  rfl

theorem login_ne_nil (relogUuid : Option Bytes) : Secrecy.login relogUuid ≠ [] := by
  cases relogUuid with
  | none => exact List.cons_ne_nil _ _
  | some uuid => exact List.cons_ne_nil _ _

theorem fits_unknown : Fits L Secrecy.unknownUuid := fits_of_length L (by decide)

theorem fits_ack : Fits L ACK := fits_of_length L (by decide)

/-- **The login arrives.** -/
theorem onLogin_packet (s : Server K) (c : ConnId) (k : K) (draw : Uuid4) {relogUuid : Option Bytes}
    (hf : Fits L (Secrecy.login relogUuid)) :
    ∃ answer out, onLogin L s c ⟨k, 1, 1⟩ (packet L (k, 1, Secrecy.login relogUuid)) draw = out ∧
      (answer = ACK ∨ answer = Secrecy.unknownUuid) ∧ out.2.1.Rests ∧ out.2.1.rank = 4 ∧
      Net.written (.server c) out.2.2 = packet L (k, 1, answer) ∧
      .accepted (.server c) (Secrecy.login relogUuid) ∈ out.2.2 ∧ LetsIn c s out.2.2 relogUuid answer := by
  have hp := built_packet L (login_ne_nil relogUuid) hf (n := 1) (by omega) k
  obtain ⟨hdec, hver⟩ := open_packet L (x := (k, 1, Secrecy.login relogUuid)) (.server c) hp
  have hsend : ∀ (s' : Server K) (data : Bytes) (next : Accepting K), data ≠ [] → Fits L data →
      sendHandshake L s' c ⟨k, 1, 2⟩ data next = (s', .accept next,
        [.encrypt (.server c) k 1 data, .write (.server c) (packet L (k, 1, data))]) :=
    fun s' data next hne hfit => sendHandshake_packet L hne hfit (by decide : 1 < 2 ^ 96)
  simp only at hdec hver
  simp only [onLogin, hdec, hver]
  cases relogUuid with
  | none =>
    simp only [Secrecy.login, hsend _ _ _ (by decide) (fits_ack L)]
    refine ⟨ACK, _, rfl, .inl rfl, trivial, rfl, ?_, ?_, ?_⟩
    · simp [seen, Net.written]
    · simp [seen]
    · exact .login (u := draw.str) (by simp [seen])
  | some uuid =>
    simp only [Secrecy.login, List.cons_append, List.nil_append, if_true]
    rcases hu : s.clientDb.get? (latin1Decode uuid) with _ | r
    · have herr : errDispatch 7 = .ok Secrecy.unknownUuid := rfl
      simp only [herr, hsend _ _ _ (by decide) (fits_unknown L)]
      refine ⟨Secrecy.unknownUuid, _, rfl, .inr rfl, trivial, rfl, ?_, ?_, ?_⟩
      · simp [seen, Net.written]
      · simp [seen]
      · exact .unknown (Dict.get?_eq_none.1 hu)
    · simp only [hsend _ _ _ (by decide) (fits_ack L)]
      refine ⟨ACK, _, rfl, .inl rfl, trivial, rfl, ?_, ?_, ?_⟩
      · simp [seen, Net.written]
      · simp [seen]
      · exact .relogin (Dict.mem_iff.2 ⟨r, hu⟩) (by simp [seen])

/-- The await ends a send. -/
def Accepting.Sends : Accepting K → Prop
  | .sendPublic _ | .sendAck _ | .sendUnknown _ | .sendLogin _ _ _ => True
  | _ => False

section
variable {a : Accepting K} {out : Outcome K (Accepting K)} (hstep : acceptStep L s c a i draw = some out)
  (hi : ¬ i.Fails)
include hstep hi

theorem accept_sent (ha : a.Sends) : i = .sent := by
  cases i with
  | sent => rfl
  | raise => exact (hi trivial).elim
  | go | recv => cases a <;> first | exact ha.elim | cases hstep

theorem accept_recv (ha : ¬ a.Sends) : ∃ chunk, i = .recv chunk ∧ chunk ≠ [] := by
  cases i with
  | recv chunk => exact ⟨chunk, rfl, hi⟩
  | raise => exact (hi trivial).elim
  | go => cases a <;> cases hstep
  | sent => cases a <;> first | exact (ha trivial).elim | cases hstep

end

/-- The coroutine of a client that was answered goes on. -/
theorem Task.Rests.step {out : Outcome K (Accepting K)} (h : t.Rests)
    (hstep : taskStep L s c t i draw = some out) (hchunk : i.chunk <+: []) (hi : ¬ i.Fails) :
    out.2.1.Rests ∧ out.2.1.rank < t.rank ∧ Net.written (.server c) out.2.2 = [] := by
  cases t with
  | idle => cases h
  | «over» => cases hstep
  | accept a =>
    cases a with
    | sendUnknown l =>
      obtain rfl := accept_sent L hstep hi trivial
      cases hstep
      exact ⟨⟨rfl, .inl rfl⟩, by simp [seen, finish, Task.rank], by simp [seen, finish, Net.written]⟩
    | sendLogin l u r =>
      obtain rfl := accept_sent L hstep hi trivial
      cases hstep
      exact ⟨⟨rfl, .inl rfl⟩, by simp [finish, Task.rank], rfl⟩
    | _ => cases h
  | handler h' =>
    obtain ⟨hbuf, hpc⟩ := h
    cases i with
    | raise => exact (hi trivial).elim
    | recv chunk => exact (hi (List.prefix_nil.1 hchunk)).elim
    | sent => rcases hpc with hpc | hpc | hpc <;> simp [taskStep, handlerStep, hpc] at hstep
    | go =>
      rcases hpc with hpc | hpc | hpc
      · simp only [taskStep, handlerStep, hpc] at hstep
        cases hstep
        unfold started
        split
        · exact ⟨trivial, by simp [raised, Task.rank, hpc], rfl⟩
        · split_ifs
          · exact ⟨trivial, by simp [raised, Task.rank, hpc], rfl⟩
          · exact ⟨⟨hbuf, .inr (.inl rfl)⟩, by simp [Task.rank, hpc], rfl⟩
      · have hcut : extractPacketFrame [] = (none, [], none) := rfl
        simp only [taskStep, handlerStep, hpc, pump, hbuf, hcut] at hstep
        cases hstep
        exact ⟨⟨rfl, .inr (.inr rfl)⟩, by simp [Task.rank, hpc], rfl⟩
      · simp [taskStep, handlerStep, hpc] at hstep

variable {password : Bytes} {relogUuid : Option Bytes} {P P' : Bytes → Prop}
  {out : Outcome K (Accepting K)}

/-- The stage after a step, whose rank is smaller. -/
def Stage.Next (c : ConnId) (k : K) (password : Bytes) (relogUuid : Option Bytes) (P : Bytes → Prop)
    (C C' : RawClient K) (t t' : Task (Accepting K)) (x x' y y' : Bytes) : Prop :=
  Stage L c k password relogUuid P C' t' x' y' ∧
    handshakeRank (messageBound L c k C.password relogUuid) C' t' x' y' <
      handshakeRank (messageBound L c k C.password relogUuid) C t x y

theorem packet_ne_nil (p : K × ℕ × Bytes) : packet L p ≠ [] := by
  simp [packet, packetOf, HEADER]

/-- **Bytes of the public key arrive.** -/
theorem publicKey_arrives (hC : Awaits C.at (.sendPublic, 0) fun b => (.serverKey b, 0)) (hrx : C.rxNonce = 0)
    (hb : b ++ x = L.clientPublic) (hchunk : chunk <+: x) (hne : chunk ≠ [])
    (hstep : acceptStep L s c (.publicKey b) (.recv chunk) draw = some out) :
    Stage.Next L c k password relogUuid P C C (.accept (.publicKey b)) out.2.1 x (x.drop chunk.length) []
      (Net.written (.server c) out.2.2) := by
  have hlen : (b ++ chunk).length ≤ 32 := by
    have := hchunk.length_le
    rw [← L.length_clientPublic, ← hb, List.length_append, List.length_append]
    omega
  rw [List.length_append] at hlen
  simp only [acceptStep, if_neg (Nat.not_lt.2 hlen), if_neg hne] at hstep
  rcases chunk_comes hb hchunk with ⟨hall, hdrop⟩ | ⟨hlt, hmore, hdrop⟩
  · rw [hall, L.length_clientPublic, if_neg (Nat.lt_irrefl 32)] at hstep
    cases hstep
    rw [written_write, hdrop]
    have hQ : L.serverPublic c ≠ [] := List.ne_nil_of_length_eq_add_one (L.length_serverPublic c)
    refine ⟨.serverKey (hC.takes hQ) hrx (.inl rfl) rfl, handshakeRank_lt (by simp [Task.rank]) ?_⟩
    simp only [messageBound, List.length_nil]
    omega
  · rw [L.length_clientPublic] at hlt
    rw [if_pos hlt] at hstep
    cases hstep
    refine ⟨.publicKey hC hrx (.inr ⟨_, rfl, hmore, hdrop⟩) rfl, ?_⟩
    exact handshakeRank_drop rfl hchunk hne (by simp; omega)

/-- **Bytes of the password arrive.** -/
theorem password_arrives (hC : Awaits C.at (.sendPassword, 0) fun b => (.ack b, 1)) (hrx : C.rxNonce = 0)
    (hk : C.cipher = some k) (hfit : Fits L (0 :: C.password)) (hb : b ++ x = packet L (k, 0, 0 :: C.password))
    (hchunk : chunk <+: x) (hne : chunk ≠ [])
    (hstep : acceptStep L s c (.password ⟨k, 0, 0⟩ b) (.recv chunk) draw = some out) :
    Stage.Next L c k s.password relogUuid P C C (.accept (.password ⟨k, 0, 0⟩ b)) out.2.1 x
      (x.drop chunk.length) [] (Net.written (.server c) out.2.2) := by
  have hp := built_packet L (List.cons_ne_nil 0 C.password) hfit (n := 0) (by omega) k
  simp only [acceptStep] at hstep
  split_ifs at hstep
  rcases onChunk_takes L s (.password ⟨k, 0, 0⟩) (onPassword L s c ⟨k, 0, 0⟩) (p := (k, 0, 0 :: C.password))
    hp hb hchunk hne with ⟨hframe, hdrop⟩ | ⟨hmore, hmsg, hdrop⟩
  · rw [hframe] at hstep
    rw [hdrop]
    by_cases heq : C.password = s.password
    · rw [heq] at hstep hfit
      rw [onPassword_right L hfit] at hstep
      cases hstep
      have hw : Net.written (.server c) [(.decrypt (.server c) k 0 (sealed L k 0 (0 :: s.password)) : Obs K),
          .accepted (.server c) (0 :: s.password), .encrypt (.server c) k 0 ACK,
          .write (.server c) (packet L (k, 0, ACK))] = packet L (k, 0, ACK) := by
        simp [Net.written]
      simp only [hw]
      refine ⟨.ack (hC.takes (packet_ne_nil L _)) hrx hk heq (.inl rfl) rfl,
        handshakeRank_lt (by simp [Task.rank]) ?_⟩
      simp only [messageBound, List.length_nil]
      omega
    · rw [onPassword_wrong L hfit heq] at hstep
      cases hstep
      exact ⟨.refused hC hrx hk heq rfl rfl rfl,
        handshakeRank_lt (by simp [Task.rank]) (by simp [messageBound, Net.written])⟩
  · rw [hmore] at hstep
    cases hstep
    refine ⟨.password hC hrx hk (.inr ⟨_, rfl, hmsg, hdrop⟩) rfl, ?_⟩
    exact handshakeRank_drop rfl hchunk hne (by simp; omega)

/-- **Bytes of the login arrive.** -/
theorem login_arrives (hC : Awaits C.at (.sendLogin, 1) fun b => (.reply b, 2)) (hrx : C.rxNonce = 1)
    (hk : C.cipher = some k) (heq : C.password = password) (hlogin : Fits L (Secrecy.login relogUuid))
    (hb : b ++ x = packet L (k, 1, Secrecy.login relogUuid)) (hchunk : chunk <+: x) (hne : chunk ≠ [])
    (hstep : acceptStep L s c (.login ⟨k, 1, 1⟩ b) (.recv chunk) draw = some out)
    (hnew : ∀ a, .accepted (.server c) (Secrecy.login relogUuid) ∈ out.2.2 →
      LetsIn c s out.2.2 relogUuid a → P a) :
    Stage.Next L c k password relogUuid P C C (.accept (.login ⟨k, 1, 1⟩ b)) out.2.1 x (x.drop chunk.length) []
      (Net.written (.server c) out.2.2) := by
  have hp := built_packet L (login_ne_nil relogUuid) hlogin (n := 1) (by omega) k
  simp only [acceptStep] at hstep
  split_ifs at hstep
  rcases onChunk_takes L s (.login ⟨k, 1, 1⟩) (fun f => onLogin L s c ⟨k, 1, 1⟩ f draw)
    (p := (k, 1, Secrecy.login relogUuid)) hp hb hchunk hne with ⟨hframe, hdrop⟩ | ⟨hmore, hmsg, hdrop⟩
  · rw [hframe] at hstep
    obtain ⟨answer, out', hout, hanswer, hrests, hrank, hw, hacc, hlets⟩ :=
      onLogin_packet L s c k draw hlogin
    rw [hout] at hstep
    cases hstep
    rw [hdrop, hw]
    refine ⟨.reply answer (hnew answer hacc hlets) hanswer (hC.takes (packet_ne_nil L _)) hrx hk heq hrests
      rfl, handshakeRank_lt (by rw [hrank]; simp [Task.rank]) ?_⟩
    rcases hanswer with rfl | rfl
    · simp only [messageBound, List.length_nil]
      omega
    · simp only [messageBound, List.length_nil]
      omega
  · rw [hmore] at hstep
    cases hstep
    refine ⟨.login hC hrx hk heq (.inr ⟨_, rfl, hmsg, hdrop⟩) rfl, ?_⟩
    exact handshakeRank_drop rfl hchunk hne (by simp; omega)

/-- **A step of the coroutine of the connection.** -/
theorem Stage.server (h : Stage L c k s.password relogUuid P C t x y)
    (hk : L.exchange c L.clientPublic = some k) (hfit : Fits L (0 :: C.password))
    (hlogin : Fits L (Secrecy.login relogUuid)) (hstep : taskStep L s c t i draw = some out)
    (hchunk : i.chunk <+: x) (hi : ¬ i.Fails) (hP : ∀ a, P a → P' a)
    (hnew : ∀ a, .accepted (.server c) (Secrecy.login relogUuid) ∈ out.2.2 →
      LetsIn c s out.2.2 relogUuid a → P' a) :
    Stage.Next L c k s.password relogUuid P' C C t out.2.1 x (x.drop i.chunk.length) y
      (y ++ Net.written (.server c) out.2.2) := by
  cases h with
  | publicKey hC hrx ht hy =>
    subst hy
    rcases ht with ⟨rfl, rfl⟩ | ⟨b, rfl, hb, hx⟩
    · cases hstep
    · obtain ⟨chunk, rfl, hne⟩ := accept_recv L hstep hi id
      have hstep : acceptStep L s c (.publicKey b) (.recv chunk) draw = some out := hstep
      exact publicKey_arrives L hC hrx hb hchunk hne hstep
  | serverKey hC hrx ht hx =>
    subst hx
    rcases ht with rfl | rfl
    · obtain rfl := accept_sent L hstep hi trivial
      simp only [taskStep, acceptStep, hk] at hstep
      cases hstep
      rw [written_nil, List.append_nil]
      exact ⟨.serverKey hC hrx (.inr rfl) rfl, handshakeRank_lt (by simp [Task.rank]) (by simp [messageBound])⟩
    · obtain ⟨chunk, rfl, hne⟩ := accept_recv L hstep hi id
      exact absurd (List.prefix_nil.1 hchunk) hne
  | password hC hrx hk' ht hy =>
    subst hy
    rcases ht with ⟨rfl, rfl⟩ | ⟨b, rfl, hb, hx⟩
    · obtain rfl := accept_sent L hstep hi trivial
      simp only [taskStep, acceptStep, hk] at hstep
      cases hstep
      exact ⟨.password hC hrx hk' (.inr ⟨[], rfl, rfl, packet_ne_nil L _⟩) rfl,
        handshakeRank_lt (by simp [Task.rank]) (by simp [messageBound, Input.chunk])⟩
    · obtain ⟨chunk, rfl, hne⟩ := accept_recv L hstep hi id
      have hstep : acceptStep L s c (.password ⟨k, 0, 0⟩ b) (.recv chunk) draw = some out := hstep
      exact password_arrives L hC hrx hk' hfit hb hchunk hne hstep
  | refused hC hrx hk' hne ht hx hy =>
    subst ht
    cases hstep
  | ack hC hrx hk' heq ht hx =>
    subst hx
    rcases ht with rfl | rfl
    · obtain rfl := accept_sent L hstep hi trivial
      cases hstep
      rw [written_nil, List.append_nil]
      exact ⟨.ack hC hrx hk' heq (.inr rfl) rfl, handshakeRank_lt (by simp [Task.rank]) (by simp [messageBound])⟩
    · obtain ⟨chunk, rfl, hne⟩ := accept_recv L hstep hi id
      exact absurd (List.prefix_nil.1 hchunk) hne
  | login hC hrx hk' heq ht hy =>
    subst hy
    rcases ht with ⟨rfl, rfl⟩ | ⟨b, rfl, hb, hx⟩
    · obtain rfl := accept_sent L hstep hi trivial
      cases hstep
      exact ⟨.login hC hrx hk' heq (.inr ⟨[], rfl, rfl, packet_ne_nil L _⟩) rfl,
        handshakeRank_lt (by simp [Task.rank]) (by simp [messageBound, Input.chunk])⟩
    · obtain ⟨chunk, rfl, hne⟩ := accept_recv L hstep hi id
      have hstep : acceptStep L s c (.login ⟨k, 1, 1⟩ b) (.recv chunk) draw = some out := hstep
      exact login_arrives L hC hrx hk' heq hlogin hb hchunk hne hstep hnew
  | reply answer hPa ha hC hrx hk' heq ht hx =>
    subst hx
    obtain ⟨hrests, hrank, hw⟩ := ht.step L hstep hchunk hi
    rw [hw, List.append_nil, List.drop_nil]
    exact ⟨.reply answer (hP answer hPa) ha hC hrx hk' heq hrests rfl,
      handshakeRank_lt (Nat.add_lt_add_left hrank _) (by simp [messageBound])⟩

/-! ## The client -/

section
variable {a : RawClient.Act} {o : List (Obs K)}

/-- A client that joins is resumed in `connect`. -/
theorem RawClient.Joins.resume (hj : C.Joins password relogUuid) (hidle : C.connection ≠ .idle)
    (hconn : C.connection ≠ .connected) (hstep : C.step L a = some (C', o)) :
    ∃ i, a = .resume i ∧ C.connectStep L i = some (C', o) := by
  cases a with
  | connect relogUuid => simp [RawClient.step, hidle] at hstep
  | resume i => exact ⟨i, rfl, hstep⟩
  | sendLoop | recvLoop | call | close => simp [RawClient.step, hconn] at hstep
  | receive n | timeout n => simp [RawClient.step, hj.calls] at hstep
  | closing i => cases i <;> simp [RawClient.step, RawClient.closeStep, hj.closing] at hstep

/-- The await ends a send. -/
def Connecting.Sends : Connecting → Prop
  | .sendPublic | .sendPassword | .sendLogin => True
  | _ => False

theorem connect_sent (hstep : C.connectStep L i = some (C', o)) (hi : ¬ i.Fails)
    (hs : C.connection.Sends) : i = .sent := by
  unfold RawClient.connectStep at hstep
  cases i with
  | sent => rfl
  | raise => exact (hi trivial).elim
  | go | recv => cases hc : C.connection <;> rw [hc] at hs hstep <;> first | exact hs.elim | cases hstep

theorem connect_recv (hstep : C.connectStep L i = some (C', o)) (hi : ¬ i.Fails)
    (hs : ¬ C.connection.Sends) : ∃ chunk, i = .recv chunk ∧ chunk ≠ [] := by
  unfold RawClient.connectStep at hstep
  cases i with
  | recv chunk => exact ⟨chunk, rfl, hi⟩
  | raise => exact (hi trivial).elim
  | go => cases hc : C.connection <;> rw [hc] at hstep <;> cases hstep
  | sent =>
    cases hc : C.connection <;> rw [hc] at hs hstep <;> first | exact (hs trivial).elim | cases hstep

theorem sendConnect_packet {next : Connecting} (hne : data ≠ []) (hf : Fits L data) (hk : C.cipher = some k)
    (hn : C.txNonce < 2 ^ 96) : C.sendConnect L data next = (C.stand next,
      [.encrypt .client k C.txNonce data, .write .client (packet L (k, C.txNonce, data))]) := by
  rw [RawClient.sendConnect, hk, built_packet L hne hf hn, encryptCall_eq _ _ hne hn]
  rfl

/-- A chunk of a packet arrives at `connect`. -/
theorem connect_takes (C : RawClient K) (waiting : Bytes → Connecting) (frame : Bytes → RawClient.After K)
    {p : K × ℕ × Bytes} (hp : constructPacket L p.2.2 (some p.1) p.2.1 = .ok (packet L p))
    (hmsg : b ++ feed = packet L p) (hchunk : chunk <+: feed) (hne : chunk ≠ []) :
    C.onChunk b chunk waiting frame = frame (packet L p) ∧ feed.drop chunk.length = [] ∨
      C.onChunk b chunk waiting frame = (C.stand (waiting (b ++ chunk)), []) ∧
        (b ++ chunk) ++ feed.drop chunk.length = packet L p ∧ feed.drop chunk.length ≠ [] := by
  rcases packet_comes L hp hmsg hchunk with ⟨hcut, hdrop⟩ | ⟨hcut, hmore⟩
  · exact .inl ⟨by simp only [RawClient.onChunk, if_neg hne, hcut], hdrop⟩
  · exact .inr ⟨by simp only [RawClient.onChunk, if_neg hne, hcut], hmore⟩

/-- **Bytes of the server's key arrive.** -/
theorem serverKey_arrives (hc : C.connection = .serverKey b) (htx : C.txNonce = 0) (hrx : C.rxNonce = 0)
    (hk : L.clientExchange (L.serverPublic c) = some k) (hfit : Fits L (0 :: C.password))
    (ht : Awaits t (.accept (.sendPublic L.clientPublic)) fun b => .accept (.password ⟨k, 0, 0⟩ b))
    (hb : b ++ y = L.serverPublic c) (hchunk : chunk <+: y) (hne : chunk ≠ [])
    (hstep : C.connectStep L (.recv chunk) = some (C', o)) (hj : C.Joins password relogUuid) :
    C'.Joins password relogUuid ∧ Stage.Next L c k s.password relogUuid P C C' t t []
      (Net.written .client o) y (y.drop chunk.length) := by
  have hlen : (b ++ chunk).length ≤ 32 := by
    have := hchunk.length_le
    rw [← L.length_serverPublic c, ← hb, List.length_append, List.length_append]
    omega
  rw [List.length_append] at hlen
  simp only [RawClient.connectStep, hc, if_neg (Nat.not_lt.2 hlen), if_neg hne] at hstep
  rcases chunk_comes hb hchunk with ⟨hall, hdrop⟩ | ⟨hlt, hmore, hdrop⟩
  · rw [hall, L.length_serverPublic, if_neg (Nat.lt_irrefl 32)] at hstep
    simp only [RawClient.onServerKey, hk] at hstep
    rw [sendConnect_packet L (List.cons_ne_nil 0 C.password) hfit rfl (by simp only [htx]; decide)] at hstep
    cases hstep
    have hw : Net.written .client [(.encrypt .client k C.txNonce (0 :: C.password) : Obs K),
        .write .client (packet L (k, C.txNonce, 0 :: C.password))] = packet L (k, 0, 0 :: C.password) := by
      simp [Net.written, htx]
    simp only [hw, hdrop]
    refine ⟨⟨hj.password, hj.relogUuid, hj.calls, hj.closing⟩,
      .password (.inl ?_) hrx rfl (ht.takes (packet_ne_nil L _)) rfl, handshakeRank_lt ?_ ?_⟩
    · simp [RawClient.at, RawClient.stand, htx]
    · simp [RawClient.stand, hc, Connecting.rank]
    · simp only [messageBound, List.length_nil]
      omega
  · rw [L.length_serverPublic] at hlt
    rw [if_pos hlt] at hstep
    cases hstep
    refine ⟨⟨hj.password, hj.relogUuid, hj.calls, hj.closing⟩,
      .serverKey (.inr ⟨_, ?_, hmore, hdrop⟩) hrx ht rfl, handshakeRank_drop ?_ hchunk hne (by simp; omega)⟩
    · simp [RawClient.at, RawClient.stand, htx]
    · simp [RawClient.stand, hc, Connecting.rank]

/-- **Bytes of the first ACK arrive.** -/
theorem ack_arrives (hc : C.connection = .ack b) (htx : C.txNonce = 1) (hrx : C.rxNonce = 0)
    (hk : C.cipher = some k) (heq : C.password = s.password) (hlogin : Fits L (Secrecy.login relogUuid))
    (ht : Awaits t (.accept (.sendAck ⟨k, 1, 1⟩)) fun b => .accept (.login ⟨k, 1, 1⟩ b))
    (hb : b ++ y = packet L (k, 0, ACK)) (hchunk : chunk <+: y) (hne : chunk ≠ [])
    (hstep : C.connectStep L (.recv chunk) = some (C', o)) (hj : C.Joins password relogUuid) :
    C'.Joins password relogUuid ∧ Stage.Next L c k s.password relogUuid P C C' t t []
      (Net.written .client o) y (y.drop chunk.length) := by
  have hp := built_packet L (by decide : ACK ≠ []) (fits_ack L) (n := 0) (by omega) k
  obtain ⟨hdec, hver⟩ := open_packet L (x := (k, 0, ACK)) .client hp
  simp only at hdec hver
  have hpay : C.loginPayload = Secrecy.login relogUuid := by
    rw [← hj.relogUuid]
    rfl
  simp only [RawClient.connectStep, hc] at hstep
  split_ifs at hstep
  rcases connect_takes L C .ack (C.onAck L) (p := (k, 0, ACK)) hp hb hchunk hne with
    ⟨hframe, hdrop⟩ | ⟨hmore, hmsg, hdrop⟩
  · rw [hframe] at hstep
    simp only [RawClient.onAck, hk, hrx, hdec, hver, ne_eq, not_true_eq_false, if_false, hpay] at hstep
    have hk' : C.received.cipher = some k := hk
    rw [sendConnect_packet L (login_ne_nil relogUuid) hlogin hk'
      (by simp only [RawClient.received, htx]; decide)] at hstep
    simp only [RawClient.saw, List.cons_append, List.nil_append] at hstep
    cases hstep
    have hw : Net.written .client [(.decrypt .client k 0 (sealed L k 0 ACK) : Obs K), .accepted .client ACK,
        .encrypt .client k C.received.txNonce (Secrecy.login relogUuid),
        .write .client (packet L (k, C.received.txNonce, Secrecy.login relogUuid))] =
          packet L (k, 1, Secrecy.login relogUuid) := by
      simp [Net.written, RawClient.received, htx]
    simp only [hw, hdrop]
    refine ⟨⟨hj.password, hj.relogUuid, hj.calls, hj.closing⟩,
      .login (.inl ?_) ?_ hk heq (ht.takes (packet_ne_nil L _)) rfl, handshakeRank_lt ?_ ?_⟩
    · simp [RawClient.at, RawClient.stand, RawClient.received, htx]
    · simp [RawClient.stand, RawClient.received, hrx]
    · simp [RawClient.stand, hc, Connecting.rank]
    · simp only [messageBound, List.length_nil]
      omega
  · rw [hmore] at hstep
    cases hstep
    refine ⟨⟨hj.password, hj.relogUuid, hj.calls, hj.closing⟩,
      .ack (.inr ⟨_, ?_, hmsg, hdrop⟩) hrx hk heq ht rfl, handshakeRank_drop ?_ hchunk hne (by simp; omega)⟩
    · simp [RawClient.at, RawClient.stand, htx]
    · simp [RawClient.stand, hc, Connecting.rank]

/-- **Bytes of the reply to the login arrive.** -/
theorem reply_arrives {answer : Bytes} (hP : P answer) (hanswer : answer = ACK ∨ answer = Secrecy.unknownUuid)
    (hc : C.connection = .reply b) (htx : C.txNonce = 2) (hrx : C.rxNonce = 1) (hk : C.cipher = some k)
    (heq : C.password = s.password) (ht : t.Rests) (hb : b ++ y = packet L (k, 1, answer))
    (hchunk : chunk <+: y) (hne : chunk ≠ []) (hstep : C.connectStep L (.recv chunk) = some (C', o))
    (hj : C.Joins password relogUuid) :
    (C'.Joins password relogUuid ∧ Stage.Next L c k s.password relogUuid P C C' t t []
      (Net.written .client o) y (y.drop chunk.length)) ∨
      C'.connection = .connected ∧ .accepted .client answer ∈ o := by
  have hfit : Fits L answer ∧ answer ≠ [] := by
    rcases hanswer with rfl | rfl
    · exact ⟨fits_ack L, by decide⟩
    · exact ⟨fits_unknown L, by decide⟩
  have hp := built_packet L hfit.2 hfit.1 (n := 1) (by omega) k
  obtain ⟨hdec, hver⟩ := open_packet L (x := (k, 1, answer)) .client hp
  simp only at hdec hver
  simp only [RawClient.connectStep, hc] at hstep
  split_ifs at hstep
  rcases connect_takes L C .reply (C.onReply L) (p := (k, 1, answer)) hp hb hchunk hne with
    ⟨hframe, hdrop⟩ | ⟨hmore, hmsg, hdrop⟩
  · rw [hframe] at hstep
    simp only [RawClient.onReply, hk, hrx, hdec, hver] at hstep
    cases hstep
    exact .inr ⟨rfl, by simp⟩
  · rw [hmore] at hstep
    cases hstep
    refine .inl ⟨⟨hj.password, hj.relogUuid, hj.calls, hj.closing⟩,
      .reply answer hP hanswer (.inr ⟨_, ?_, hmsg, hdrop⟩) hrx hk heq ht rfl,
      handshakeRank_drop ?_ hchunk hne (by simp; omega)⟩
    · simp [RawClient.at, RawClient.stand, htx]
    · simp [RawClient.stand, hc, Connecting.rank]

/-- **A step of a client that joins.** -/
theorem Stage.client (h : Stage L c k s.password relogUuid P C t x y) (hj : C.Joins password relogUuid)
    (hk : L.clientExchange (L.serverPublic c) = some k) (hfit : Fits L (0 :: C.password))
    (hlogin : Fits L (Secrecy.login relogUuid)) (hstep : C.connectStep L i = some (C', o))
    (hchunk : i.chunk <+: y) (hi : ¬ i.Fails) :
    (C'.Joins password relogUuid ∧ Stage.Next L c k s.password relogUuid P C C' t t x
      (x ++ Net.written .client o) y (y.drop i.chunk.length)) ∨
      C'.connection = .connected ∧ C.password = s.password ∧
        ∃ answer, P answer ∧ .accepted .client answer ∈ o := by
  have hsent : C.connection.Sends → i = .sent := connect_sent L hstep hi
  have hrecv : ¬ C.connection.Sends → ∃ chunk, i = .recv chunk ∧ chunk ≠ [] := connect_recv L hstep hi
  have hjoins : ∀ pc n, RawClient.Joins password relogUuid { C with connection := pc, txNonce := n } :=
    fun _ _ => ⟨hj.password, hj.relogUuid, hj.calls, hj.closing⟩
  cases h with
  | publicKey hC hrx ht hy =>
    subst hy
    rcases hC with hC | hC
    · obtain ⟨hc, htx⟩ := Prod.mk.inj hC
      obtain rfl := hsent (by rw [hc]; trivial)
      simp only [RawClient.connectStep, hc] at hstep
      cases hstep
      rw [written_nil, List.append_nil]
      refine .inl ⟨hjoins _ _, .publicKey (.inr ?_) hrx ht rfl, handshakeRank_lt ?_ ?_⟩
      · simp [RawClient.at, RawClient.stand, htx]
      · simp [RawClient.stand, hc, Connecting.rank]
      · simp [messageBound]
    · obtain ⟨hc, -⟩ := Prod.mk.inj hC
      obtain ⟨chunk, rfl, hne⟩ := hrecv (by rw [hc]; exact id)
      exact absurd (List.prefix_nil.1 hchunk) hne
  | serverKey hC hrx ht hx =>
    subst hx
    rcases hC with ⟨hC, rfl⟩ | ⟨b, hC, hb, hy⟩
    · obtain ⟨hc, htx⟩ := Prod.mk.inj hC
      obtain rfl := hsent (by rw [hc]; trivial)
      simp only [RawClient.connectStep, hc] at hstep
      cases hstep
      have hQ : L.serverPublic c ≠ [] := List.ne_nil_of_length_eq_add_one (L.length_serverPublic c)
      refine .inl ⟨hjoins _ _, .serverKey (.inr ⟨[], ?_, rfl, hQ⟩) hrx ht rfl, handshakeRank_lt ?_ ?_⟩
      · simp [RawClient.at, RawClient.stand, htx]
      · simp [RawClient.stand, hc, Connecting.rank]
      · simp [messageBound, Input.chunk]
    · obtain ⟨hc, htx⟩ := Prod.mk.inj hC
      obtain ⟨chunk, rfl, hne⟩ := hrecv (by rw [hc]; exact id)
      exact .inl (serverKey_arrives L hc htx hrx hk hfit ht hb hchunk hne hstep hj)
  | password hC hrx hk' ht hy =>
    subst hy
    rcases hC with hC | hC
    · obtain ⟨hc, htx⟩ := Prod.mk.inj hC
      obtain rfl := hsent (by rw [hc]; trivial)
      simp only [RawClient.connectStep, hc] at hstep
      cases hstep
      rw [written_nil, List.append_nil]
      refine .inl ⟨hjoins _ _, .password (.inr ?_) hrx hk' ht rfl, handshakeRank_lt ?_ ?_⟩
      · simp [RawClient.at, RawClient.stand, RawClient.sent, htx]
      · simp [RawClient.stand, hc, Connecting.rank]
      · simp [messageBound]
    · obtain ⟨hc, -⟩ := Prod.mk.inj hC
      obtain ⟨chunk, rfl, hne⟩ := hrecv (by rw [hc]; exact id)
      exact absurd (List.prefix_nil.1 hchunk) hne
  | refused hC hrx hk' hne ht hx hy =>
    subst hx hy
    rcases hC with hC | hC
    · obtain ⟨hc, htx⟩ := Prod.mk.inj hC
      obtain rfl := hsent (by rw [hc]; trivial)
      simp only [RawClient.connectStep, hc] at hstep
      cases hstep
      refine .inl ⟨hjoins _ _, .refused (.inr ?_) hrx hk' hne ht rfl rfl, handshakeRank_lt ?_ ?_⟩
      · simp [RawClient.at, RawClient.stand, RawClient.sent, htx]
      · simp [RawClient.stand, hc, Connecting.rank]
      · simp [messageBound]
    · obtain ⟨hc, -⟩ := Prod.mk.inj hC
      obtain ⟨chunk, rfl, hne'⟩ := hrecv (by rw [hc]; exact id)
      exact absurd (List.prefix_nil.1 hchunk) hne'
  | ack hC hrx hk' heq ht hx =>
    subst hx
    rcases hC with ⟨hC, rfl⟩ | ⟨b, hC, hb, hy⟩
    · obtain ⟨hc, htx⟩ := Prod.mk.inj hC
      obtain rfl := hsent (by rw [hc]; trivial)
      simp only [RawClient.connectStep, hc] at hstep
      cases hstep
      refine .inl ⟨hjoins _ _, .ack (.inr ⟨[], ?_, rfl, packet_ne_nil L _⟩) hrx hk' heq ht rfl,
        handshakeRank_lt ?_ ?_⟩
      · simp [RawClient.at, RawClient.stand, RawClient.sent, htx]
      · simp [RawClient.stand, hc, Connecting.rank]
      · simp [messageBound, Input.chunk]
    · obtain ⟨hc, htx⟩ := Prod.mk.inj hC
      obtain ⟨chunk, rfl, hne⟩ := hrecv (by rw [hc]; exact id)
      exact .inl (ack_arrives L hc htx hrx hk' heq hlogin ht hb hchunk hne hstep hj)
  | login hC hrx hk' heq ht hy =>
    subst hy
    rcases hC with hC | hC
    · obtain ⟨hc, htx⟩ := Prod.mk.inj hC
      obtain rfl := hsent (by rw [hc]; trivial)
      simp only [RawClient.connectStep, hc] at hstep
      cases hstep
      rw [written_nil, List.append_nil]
      refine .inl ⟨hjoins _ _, .login (.inr ?_) hrx hk' heq ht rfl, handshakeRank_lt ?_ ?_⟩
      · simp [RawClient.at, RawClient.stand, RawClient.sent, htx]
      · simp [RawClient.stand, hc, Connecting.rank]
      · simp [messageBound]
    · obtain ⟨hc, -⟩ := Prod.mk.inj hC
      obtain ⟨chunk, rfl, hne⟩ := hrecv (by rw [hc]; exact id)
      exact absurd (List.prefix_nil.1 hchunk) hne
  | reply answer hPa ha hC hrx hk' heq ht hx =>
    subst hx
    rcases hC with ⟨hC, rfl⟩ | ⟨b, hC, hb, hy⟩
    · obtain ⟨hc, htx⟩ := Prod.mk.inj hC
      obtain rfl := hsent (by rw [hc]; trivial)
      simp only [RawClient.connectStep, hc] at hstep
      cases hstep
      refine .inl ⟨hjoins _ _, .reply answer hPa ha (.inr ⟨[], ?_, rfl, packet_ne_nil L _⟩) hrx hk' heq ht rfl,
        handshakeRank_lt ?_ ?_⟩
      · simp [RawClient.at, RawClient.stand, RawClient.sent, htx]
      · simp [RawClient.stand, hc, Connecting.rank]
      · simp [messageBound, Input.chunk]
    · obtain ⟨hc, htx⟩ := Prod.mk.inj hC
      obtain ⟨chunk, rfl, hne⟩ := hrecv (by rw [hc]; exact id)
      refine (reply_arrives L hPa ha hc htx hrx hk' heq ht hb hchunk hne hstep hj).imp id ?_
      rintro ⟨hconn, hacc⟩
      exact ⟨hconn, heq, answer, hPa, hacc⟩

end

theorem Stage.mono (h : Stage L c k password relogUuid P C t x y) (hP : ∀ a, P a → P' a) :
    Stage L c k password relogUuid P' C t x y := by
  cases h with
  | publicKey hC hrx ht hy => exact .publicKey hC hrx ht hy
  | serverKey hC hrx ht hx => exact .serverKey hC hrx ht hx
  | password hC hrx hk ht hy => exact .password hC hrx hk ht hy
  | refused hC hrx hk hne ht hx hy => exact .refused hC hrx hk hne ht hx hy
  | ack hC hrx hk heq ht hx => exact .ack hC hrx hk heq ht hx
  | login hC hrx hk heq ht hy => exact .login hC hrx hk heq ht hy
  | reply answer hPa ha hC hrx hk heq ht hx => exact .reply answer (hP answer hPa) ha hC hrx hk heq ht hx

/-- At every stage the client is in `connect`. -/
theorem Stage.joining (h : Stage L c k password relogUuid P C t x y) :
    C.connection ≠ .idle ∧ C.connection ≠ .connected ∧ ∀ e, C.connection ≠ .failed e := by
  have hof : ∀ {pc n}, C.at = (pc, n) → C.connection = pc := fun h => (Prod.mk.inj h).1
  cases h with
  | publicKey hC | password hC | refused hC | login hC =>
    rcases hC with hC | hC
    · rw [hof hC]; simp
    · rw [hof hC]; simp
  | serverKey hC | ack hC | reply _ _ _ hC =>
    rcases hC with ⟨hC, -⟩ | ⟨b, hC, -⟩
    · rw [hof hC]; simp
    · rw [hof hC]; simp

end

end Pipebomb
