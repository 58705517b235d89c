/-
  The client reads packets that arrive unmodified.

  A client past the exchange of the keys gets the stream of the server's packets.

  * `ClientFed` is what a step can be then: of the server's packets it takes exactly the next
    ones, which it opens, and it builds at most one packet, under its counter.
  * `connectStep_fed`, `recvLoopStep_fed`, `client_fed`: every step is one of these.
-/
import Pipebomb.ClientLink
import Pipebomb.Login
import Pipebomb.ServerFeed

namespace Pipebomb

open ByteString

variable {K : Type} (L : Libs K)

/-- The payloads that operations sent, in order. -/
def asked (os : List (Obs K)) : List Bytes :=
  os.filterMap fun
    | .called data => some data
    | _ => none

/-- What operations received, each with the payload it sent, in order. -/
def returns (os : List (Obs K)) : List (Bytes × Bytes) :=
  os.filterMap fun
    | .returned data reply => some (data, reply)
    | _ => none

theorem asked_append (os o : List (Obs K)) : asked (os ++ o) = asked os ++ asked o :=
  List.filterMap_append

theorem returns_append (os o : List (Obs K)) : returns (os ++ o) = returns os ++ returns o :=
  List.filterMap_append

/-- The buffer of a client that reads packets. -/
def RawClient.reading (C : RawClient K) : Option Bytes :=
  match C.connection, C.cipher, C.recvLoop with
  | .sendPassword, _, _ | .sendLogin, _, _ => some []
  | .ack b, _, _ | .reply b, _, _ => some b
  | .connected, some _, .recv b => some b
  | _, _, _ => none

/-- **A step of a client that is fed with the packets `ys`**, of which it opened `i`; `feed`
    is on its way after the step.  It takes `taken`, of which operations get `got`, and
    builds `new`. -/
structure ClientFed (c : ConnId) (ys : List (K × ℕ × Bytes)) (i : ℕ) (feed : Bytes)
    (C : RawClient K) (out : RawClient.After K) (taken new : List (K × ℕ × Bytes))
    (got : List Bytes) : Prop where
  built : (tally L .client out.2).built = new
  opened : (tally L .client out.2).opened = taken.map (opening L)
  sends : (tally L .client out.2).sends ++ out.1.tasks = C.tasks ++ new.map (packet L)
  fresh : new = [] ∨ ∃ k data, new = [(k, C.txNonce, data)] ∧ C.Ready ∧ C.cipher = some k ∧
    constructPacket L data (some k) C.txNonce = .ok (packet L (k, C.txNonce, data))
  next : taken <+: ys.drop i
  reads : ∀ b, out.1.reading = some b → (∃ b', C.reading = some b') ∧
    out.1.rxNonce = C.rxNonce + taken.length ∧
      Inlet (stream L (L.serverPublic c) ys) (i + 1 + taken.length) b feed
  gets : got <+: taken.map fun x => x.2.2
  all : C.connection = .connected → out.1.reading ≠ none → got = taken.map fun x => x.2.2
  inputs : (returns out.2).map Prod.snd ++ out.1.inputPackets = C.inputPackets ++ got
  stopped : C.reading = none → taken = []
  paced : C.connection ≠ .connected → got = [] ∧ new.length ≤ taken.length
  joins : C.connection ≠ .connected → out.1.connection = .connected →
    (∃ b, C.connection = .reply b) ∧ taken.length = 1 ∧ new = []

/-- What is needed to read: the packets are numbered, and the client stands at the next. -/
structure ClientFeeding (c : ConnId) (ys : List (K × ℕ × Bytes)) (i : ℕ) (feed : Bytes)
    (C : RawClient K) : Prop where
  numbered : Numbered L c ys
  key : ∀ k ∈ C.cipher, L.exchange c L.clientPublic = some k
  place : ∀ b, C.reading = some b →
    C.rxNonce = i ∧ Inlet (stream L (L.serverPublic c) ys) (i + 1) b feed

variable {c : ConnId} {ys : List (K × ℕ × Bytes)} {i : ℕ} {feed b : Bytes} {C C' : RawClient K}
  {k : K} {x : K × ℕ × Bytes}

/-- The next packet opens under the client's key and counter. -/
theorem ClientFeeding.next (h : ClientFeeding L c ys i feed C) (hk : C.cipher = some k)
    (hrx : C.rxNonce = i) (hx : ys[i]? = some x) :
    decryptCall .client (packet L x) C.cipher C.rxNonce =
        [.decrypt .client x.1 x.2.1 (sealed L x.1 x.2.1 x.2.2)] ∧
      verifyPacket L (packet L x) C.cipher C.rxNonce = .ok (.payload x.2.2 none) := by
  obtain ⟨hn, hkey, hp⟩ := h.numbered i x hx
  obtain rfl : k = x.1 := Option.some.inj ((h.key k hk).symm.trans hkey)
  rw [hk, hrx, ← hn]
  exact open_packet L .client hp

/-! ## Steps that take nothing -/

/-- A step that writes what was queued, or nothing. -/
theorem clientFed_still {os : List (Obs K)} (sent : List Bytes)
    (hf : ClientFeeding L c ys i feed C) (ht : tally L .client os = ⟨[], [], [], sent, []⟩)
    (hs : sent ++ C'.tasks = C.tasks) (hr : ∀ b, C'.reading = some b → C.reading = some b)
    (hrx : C'.rxNonce = C.rxNonce ∨ C'.reading = none)
    (hc : C'.connection = .connected → C.connection = .connected)
    (hin : (returns os).map Prod.snd ++ C'.inputPackets = C.inputPackets) :
    ClientFed L c ys i feed C (C', os) [] [] [] where
  built := by rw [ht]
  opened := by rw [ht]; rfl
  sends := by rw [ht]; simpa using hs
  fresh := .inl rfl
  next := List.nil_prefix
  reads b hb := by
    refine ⟨⟨b, hr b hb⟩, ?_, (hf.place b (hr b hb)).2⟩
    rcases hrx with hrx | hrx
    · exact hrx
    · rw [hrx] at hb; cases hb
  gets := List.nil_prefix
  all _ _ := rfl
  inputs := by simpa using hin
  stopped _ := rfl
  paced _ := ⟨rfl, Nat.le_refl _⟩
  joins h h' := absurd (hc h') h

/-- The coroutine that read is at its end. -/
theorem clientFed_end (hf : ClientFeeding L c ys i feed C) (hs : C'.tasks = C.tasks)
    (hr : C'.reading = none) (hc : C'.connection = .connected → C.connection = .connected)
    (hin : C'.inputPackets = C.inputPackets) :
    ClientFed L c ys i feed C (C', []) [] [] [] :=
  clientFed_still L [] hf rfl hs (fun b hb => by rw [hr] at hb; cases hb) (.inr hr) hc hin

/-- Building a packet returns nothing. -/
theorem returns_encryptCall (k : K) (n : ℕ) (data : Bytes) :
    returns (encryptCall (K := K) .client data (some k) n) = [] := by
  unfold encryptCall
  split_ifs <;> rfl

/-! ## `connect` -/

/-- A packet of the handshake, after the packets `taken`. -/
theorem sendConnect_tally (hk : C.cipher = some k) (data : Bytes) (next : Connecting) :
    ∃ new : List (K × ℕ × Bytes), (new = [] ∨ ∃ data, new = [(k, C.txNonce, data)] ∧
        constructPacket L data (some k) C.txNonce = .ok (packet L (k, C.txNonce, data))) ∧
      tally L .client (C.sendConnect L data next).2 = ⟨new, [], [], new.map (packet L), []⟩ ∧
      returns (C.sendConnect L data next).2 = [] ∧
      ((∃ e, (C.sendConnect L data next).1 = C.stand (.failed e)) ∨
        (C.sendConnect L data next).1 = C.stand next) := by
  simp only [RawClient.sendConnect, RawClient.saw, hk, tally_append, returns_append]
  rw [returns_encryptCall k _ data]
  rcases tally_construct L .client k C.txNonce data with ⟨hp, ht⟩ | ⟨e, hp, ht⟩
  · rw [hp, ht]
    refine ⟨[(k, C.txNonce, data)], .inr ⟨data, rfl, hp⟩, ?_, rfl, .inr rfl⟩
    simp [tally, Tally.append, Pipebomb.built, Pipebomb.opened, acceptedBy, Pipebomb.sends, answers]
  · rw [hp, ht]
    exact ⟨[], .inl rfl, rfl, rfl, .inl ⟨e, rfl⟩⟩

/-- A frame of the handshake that is the next packet; `o` is what follows it. -/
theorem clientFed_took {o : RawClient.After K} {new : List (K × ℕ × Bytes)} {feed' : Bytes}
    (hf : ClientFeeding L c ys i feed' C) (hb : ∃ b, C.reading = some b)
    (hconn : C.connection ≠ .connected) (hr : C.Ready) (hk : C.cipher = some k)
    (hx : ys[i]? = some x) (hin : Inlet (stream L (L.serverPublic c) ys) (i + 1 + 1) [] feed)
    (hnew : new = [] ∨ ∃ data, new = [(k, C.txNonce, data)] ∧
      constructPacket L data (some k) C.txNonce = .ok (packet L (k, C.txNonce, data)))
    (ht : tally L .client o.2 = ⟨new, [], [], new.map (packet L), []⟩)
    (hret : returns o.2 = []) (htasks : o.1.tasks = C.tasks)
    (hinput : o.1.inputPackets = C.inputPackets)
    (hreads : ∀ b, o.1.reading = some b → b = [] ∧ o.1.rxNonce = C.rxNonce + 1)
    (hjoin : o.1.connection = .connected → (∃ b, C.connection = .reply b) ∧ new = []) :
    ClientFed L c ys i feed C (RawClient.saw (decryptCall .client (packet L x) C.cipher C.rxNonce)
      (RawClient.saw [.accepted .client x.2.2] o)) [x] new [] := by
  obtain ⟨b, hb⟩ := hb
  obtain ⟨hdec, -⟩ := hf.next L hk (hf.place b hb).1 hx
  have htally : tally L .client (RawClient.saw (decryptCall .client (packet L x) C.cipher C.rxNonce)
      (RawClient.saw [.accepted .client x.2.2] o)).2 =
        ⟨new, [opening L x], [x.2.2], new.map (packet L), []⟩ := by
    simp only [RawClient.saw, hdec, tally_append, ht]
    simp [tally, Tally.append, Pipebomb.built, Pipebomb.opened, acceptedBy, Pipebomb.sends, answers,
      opening]
  have hreturns : returns (RawClient.saw (decryptCall .client (packet L x) C.cipher C.rxNonce)
      (RawClient.saw [.accepted .client x.2.2] o)).2 = [] := by
    simp only [RawClient.saw, hdec, returns_append, hret]
    rfl
  refine ⟨by rw [htally], by rw [htally]; rfl, ?_, ?_, ?_, ?_, List.nil_prefix, fun h => absurd h hconn,
    ?_, fun h => ?_, fun _ => ⟨rfl, ?_⟩, fun _ h => ?_⟩
  · rw [htally]
    simp only [RawClient.saw, htasks, hr.tasks, List.append_nil, List.nil_append]
  · refine hnew.imp_right ?_
    rintro ⟨data, hd, hp⟩
    exact ⟨k, data, hd, hr, hk, hp⟩
  · obtain ⟨hlt, rfl⟩ := List.getElem?_eq_some_iff.1 hx
    rw [List.drop_eq_getElem_cons hlt]
    exact ⟨_, rfl⟩
  · intro b' hb'
    obtain ⟨rfl, hrx⟩ := hreads b' hb'
    exact ⟨⟨b, hb⟩, hrx, hin⟩
  · rw [hreturns]
    simpa [RawClient.saw] using hinput
  · rw [hb] at h
    cases h
  · rcases hnew with rfl | ⟨data, rfl, -⟩
    · exact Nat.zero_le 1
    · exact Nat.le_refl 1
  · obtain ⟨hreply, hn⟩ := hjoin h
    exact ⟨hreply, rfl, hn⟩

theorem onAck_fed {feed' : Bytes} (hf : ClientFeeding L c ys i feed' C) (hb : ∃ b, C.reading = some b)
    (hconn : C.connection ≠ .connected) (hr : C.Ready) (hk : C.cipher = some k)
    (hx : ys[i]? = some x) (hin : Inlet (stream L (L.serverPublic c) ys) (i + 1 + 1) [] feed) :
    ∃ taken new, ClientFed L c ys i feed C (C.onAck L (packet L x)) taken new [] := by
  obtain ⟨b, hb'⟩ := id hb
  obtain ⟨hdec, hv⟩ := hf.next L hk (hf.place b hb').1 hx
  simp only [RawClient.onAck, hv]
  by_cases hack : x.2.2 ≠ ACK
  · rw [if_pos hack]
    exact ⟨[x], [], clientFed_took L hf hb hconn hr hk hx hin (.inl rfl) rfl rfl rfl rfl
      (fun b hb => by cases hb) fun h => by cases h⟩
  · rw [if_neg hack]
    obtain ⟨new, hnew, ht, hret, hout⟩ :=
      sendConnect_tally L (C := C.received) hk C.loginPayload .sendLogin
    refine ⟨[x], new, clientFed_took L hf hb hconn hr hk hx hin hnew ht hret ?_ ?_ ?_ ?_⟩
    · rcases hout with ⟨e, he⟩ | he <;> rw [he] <;> rfl
    · rcases hout with ⟨e, he⟩ | he <;> rw [he] <;> rfl
    · intro b' hb'
      rcases hout with ⟨e, he⟩ | he
      · rw [he] at hb'; cases hb'
      · rw [he] at hb' ⊢
        cases hb'
        exact ⟨rfl, rfl⟩
    · intro h
      rcases hout with ⟨e, he⟩ | he
      · rw [he] at h; cases h
      · rw [he] at h; cases h

theorem onReply_fed {feed' : Bytes} (hf : ClientFeeding L c ys i feed' C)
    (hb : ∃ b, C.reading = some b) (hc : C.connection = .reply buffer) (hr : C.Ready)
    (hk : C.cipher = some k) (hloop : C.recvLoop = .recv []) (hx : ys[i]? = some x)
    (hin : Inlet (stream L (L.serverPublic c) ys) (i + 1 + 1) [] feed) :
    ∃ taken new, ClientFed L c ys i feed C (C.onReply L (packet L x)) taken new [] := by
  obtain ⟨b, hb'⟩ := id hb
  obtain ⟨hdec, hv⟩ := hf.next L hk (hf.place b hb').1 hx
  simp only [RawClient.onReply, hv]
  have hconn : C.connection ≠ .connected := by
    intro h
    rw [hc] at h
    cases h
  refine ⟨[x], [], clientFed_took (o := (_, [])) L hf hb hconn hr hk hx hin (.inl rfl) rfl rfl rfl rfl
    (fun b hb => ?_) fun _ => ⟨⟨_, hc⟩, rfl⟩⟩
  simp only [RawClient.reading, RawClient.received, hk, hloop] at hb
  cases hb
  exact ⟨rfl, rfl⟩

/-- A chunk of `connect`; nothing is written behind the packet that it waits for. -/
theorem clientOnChunk_fed {buffer chunk : Bytes} {waiting : Bytes → Connecting}
    {frame : Bytes → RawClient.After K} {feed : Bytes} (hf : ClientFeeding L c ys i feed C)
    (hb : C.reading = some buffer) (hw : ∀ b, (C.stand (waiting b)).reading = some b)
    (hwc : ∀ b, waiting b ≠ .connected)
    (hshort : ys.length ≤ i + 1) (hchunk : chunk <+: feed)
    (h : ∀ x, ys[i]? = some x →
      Inlet (stream L (L.serverPublic c) ys) (i + 1 + 1) [] (feed.drop chunk.length) →
      ∃ taken new, ClientFed L c ys i (feed.drop chunk.length) C (frame (packet L x)) taken new []) :
    ∃ taken new, ClientFed L c ys i (feed.drop chunk.length) C
      (C.onChunk buffer chunk waiting frame) taken new [] := by
  obtain ⟨hrx, hin⟩ := hf.place _ hb
  have hin' := hin.arrive hchunk
  have hsame : ∀ pc : Connecting, pc ≠ .connected →
      (∀ b, (C.stand pc).reading = some b → b = buffer ++ chunk) →
      ClientFed L c ys i (feed.drop chunk.length) C (C.stand pc, []) [] [] [] := by
    intro pc hne hpc
    refine ⟨rfl, rfl, by simp [tally, Pipebomb.sends, RawClient.stand], .inl rfl, List.nil_prefix, ?_,
      List.nil_prefix, fun _ _ => rfl, by simp [returns, RawClient.stand], fun _ => rfl,
      fun _ => ⟨rfl, Nat.le_refl _⟩, fun _ h => absurd h hne⟩
    intro b hb'
    rw [hpc b hb']
    exact ⟨⟨_, hb⟩, rfl, hin'⟩
  unfold RawClient.onChunk
  split_ifs
  · exact ⟨[], [], hsame (.failed _) (fun h => by cases h) fun b hb => by cases hb⟩
  rcases hin'.cut packetFraming cut_nil (hf.numbered.complete L _) with hc | ⟨f, r, hm, hc, hr⟩
  · simp only [extract_more hc]
    refine ⟨[], [], hsame _ (hwc _) fun b hb' => ?_⟩
    rw [hw] at hb'
    exact (Option.some.inj hb').symm
  · obtain ⟨x, hx, rfl⟩ := next_packet L hm
    simp only [extract_frame hc]
    refine h x hx (hr.clear ?_)
    have := hr.pos_le
    rw [length_stream] at this ⊢
    omega

/-- **A step of `connect`** after the exchange of the keys. -/
theorem connectStep_fed {a : Input} {out : RawClient.After K} {feed : Bytes}
    (hf : ClientFeeding L c ys i feed C) (hb : ∃ b, C.reading = some b) (hr : C.Ready)
    (hk : C.cipher = some k) (hloop : C.recvLoop = .recv []) (hshort : ys.length ≤ i + 1)
    (hchunk : a.chunk <+: feed) (ho : C.connectStep L a = some out) :
    ∃ taken new, ClientFed L c ys i (feed.drop a.chunk.length) C out taken new [] := by
  obtain ⟨b, hb'⟩ := id hb
  unfold RawClient.connectStep at ho
  split at ho
  · rename_i hc
    simp [RawClient.reading, hc] at hb'
  · rename_i hc
    simp [RawClient.reading, hc] at hb'
  · rename_i hc
    cases ho
    refine ⟨[], [], clientFed_still L [] hf rfl rfl (fun b hb => ?_) (.inl rfl)
      (fun h => by cases h) rfl⟩
    cases hb
    simp [RawClient.reading, hc]
  · rename_i buffer chunk hc
    split_ifs at ho
    cases ho
    refine clientOnChunk_fed L hf (by simp [RawClient.reading, hc])
      (fun b => by simp [RawClient.reading, RawClient.stand]) (fun b h => by cases h) hshort hchunk
      fun x hx hin => ?_
    exact onAck_fed L hf hb (by rw [hc]; intro h; cases h) hr hk hx hin
  · rename_i hc
    cases ho
    refine ⟨[], [], clientFed_still L [] hf rfl rfl (fun b hb => ?_) (.inl rfl)
      (fun h => by cases h) rfl⟩
    cases hb
    simp [RawClient.reading, hc]
  · rename_i buffer chunk hc
    split_ifs at ho
    cases ho
    refine clientOnChunk_fed L hf (by simp [RawClient.reading, hc])
      (fun b => by simp [RawClient.reading, RawClient.stand]) (fun b h => by cases h) hshort hchunk
      fun x hx hin => ?_
    exact onReply_fed L hf hb hc hr hk hloop hx hin
  · cases ho
  · cases ho
  · cases ho
  · cases ho
    exact ⟨[], [], clientFed_end L hf rfl rfl (fun h => by cases h) rfl⟩
  · cases ho

/-! ## The receive loop -/

/-- The loop took the packets `taken`, and put the payloads `got` into the queue. -/
structure Took (ys : List (K × ℕ × Bytes)) (i : ℕ) (C : RawClient K)
    (taken : List (K × ℕ × Bytes)) (got : List Bytes) (o : RawClient.After K) : Prop where
  same : ∃ rx u, o.1 =
    { C with rxNonce := rx, inputPackets := C.inputPackets ++ got, unfinished := u }
  next : taken <+: ys.drop i
  seen : ∃ as, tally L .client o.2 = ⟨[], taken.map (opening L), as, [], []⟩
  returns : returns o.2 = []
  gets : got <+: taken.map fun x => x.2.2

theorem prefix_drop_snoc {α : Type} {l l' : List α} {n : ℕ} {a : α} (h : l <+: l'.drop n)
    (ha : l'[n + l.length]? = some a) : l ++ [a] <+: l'.drop n :=
  prefix_snoc h (by rw [List.getElem?_drop]; exact ha)

/-- A frame that is the next packet: it is put into the queue, or the loop stops. -/
theorem recvFrame_took {o : RawClient.After K} {taken : List (K × ℕ × Bytes)} {feed : Bytes}
    (hf : ClientFeeding L c ys i feed C) (hk : C.cipher = some k) (hrx : C.rxNonce = i)
    (h : Took L ys i C taken (taken.map fun x => x.2.2) o)
    (horx : o.1.rxNonce = C.rxNonce + taken.length) (hx : ys[i + taken.length]? = some x) :
    ∃ got o' e, RawClient.recvFrame L o (packet L x) = (o', e) ∧
      Took L ys i C (taken ++ [x]) got o' ∧
        (e = none → got = (taken ++ [x]).map (fun x => x.2.2) ∧
          o'.1.rxNonce = C.rxNonce + (taken ++ [x]).length) := by
  obtain ⟨⟨rx, u, hC⟩, hnext, ⟨as, ht⟩, hret, hg⟩ := h
  obtain ⟨C', os⟩ := o
  simp only at hC ht hret horx
  subst hC
  simp only at horx
  -- the packet opens
  have hopen : decryptCall .client (packet L x) C.cipher rx =
        [.decrypt .client x.1 x.2.1 (sealed L x.1 x.2.1 x.2.2)] ∧
      verifyPacket L (packet L x) C.cipher rx = .ok (.payload x.2.2 none) := by
    obtain ⟨hn, hkey, hp⟩ := hf.numbered _ x hx
    obtain rfl : k = x.1 := Option.some.inj ((hf.key k hk).symm.trans hkey)
    rw [hk, horx, hrx, ← hn]
    exact open_packet L .client hp
  obtain ⟨hdec, hv⟩ := hopen
  have htally : ∀ os', tally L .client os' = ⟨[], [], [x.2.2], [], []⟩ ∨ os' = [] →
      ∃ as, tally L .client ((os ++ [.decrypt .client x.1 x.2.1 (sealed L x.1 x.2.1 x.2.2)]) ++ os') =
        ⟨[], (taken ++ [x]).map (opening L), as, [], []⟩ := by
    intro os' hos'
    have hd : tally L .client ([.decrypt .client x.1 x.2.1 (sealed L x.1 x.2.1 x.2.2)] : List (Obs K)) =
        ⟨[], [opening L x], [], [], []⟩ := by
      simp [tally, Pipebomb.built, Pipebomb.opened, acceptedBy, Pipebomb.sends, answers, opening]
    rw [tally_append, tally_append, ht, hd]
    rcases hos' with h | rfl
    · rw [h]
      exact ⟨as ++ [x.2.2], by simp [Tally.append]⟩
    · exact ⟨as, by simp [Tally.append, Tally.none]⟩
  have hacc : tally L .client ([.accepted .client x.2.2] : List (Obs K)) =
      ⟨[], [], [x.2.2], [], []⟩ := by
    simp [tally, Pipebomb.built, Pipebomb.opened, acceptedBy, Pipebomb.sends, answers]
  have hquiet : ∀ os' : List (Obs K), os' = [] ∨ os' = [.accepted .client x.2.2] →
      Pipebomb.returns ((os ++ [.decrypt .client x.1 x.2.1 (sealed L x.1 x.2.1 x.2.2)]) ++ os') = [] := by
    intro os' hos'
    simp only [returns_append, hret]
    rcases hos' with rfl | rfl <;> rfl
  have hnext' := prefix_drop_snoc hnext hx
  have hpre : taken.map (fun x => x.2.2) <+: (taken ++ [x]).map fun x => x.2.2 := by
    rw [List.map_append]
    exact List.prefix_append _ _
  simp only [RawClient.recvFrame, hdec, hv]
  by_cases hdone : (x.2.2 = RawClient.ERR_ACK ∧ C.tasks ≠ []) ∧ u = 0
  · rw [if_pos hdone]
    refine ⟨_, _, _, rfl, ⟨⟨rx, u, rfl⟩, hnext', ?_, ?_, hpre⟩, fun h => by cases h⟩
    · simpa using htally [] (.inr rfl)
    · simpa using hquiet [] (.inl rfl)
  rw [if_neg hdone]
  generalize (if x.2.2 = RawClient.ERR_ACK ∧ C.tasks ≠ [] then u - 1 else u) = u'
  by_cases herr : RawClient.ERR <+: x.2.2 ∧ x.2.2 ≠ RawClient.ERR_ACK
  · rw [if_pos herr]
    exact ⟨_, _, _, rfl, ⟨⟨rx + 1, u', rfl⟩, hnext', htally _ (.inl hacc), hquiet _ (.inr rfl),
      hpre⟩, fun h => by cases h⟩
  · rw [if_neg herr]
    refine ⟨(taken ++ [x]).map fun x => x.2.2, _, _, rfl, ⟨⟨rx + 1, u', ?_⟩, hnext',
      htally _ (.inl hacc), hquiet _ (.inr rfl), List.prefix_refl _⟩,
      fun _ => ⟨rfl, ?_⟩⟩
    · simp [RawClient.received]
    · simp only [RawClient.received, List.length_append, List.length_singleton]
      omega

/-- What the loop took is what the step took. -/
theorem Took.fed {C' : RawClient K} {os : List (Obs K)} {taken : List (K × ℕ × Bytes)}
    {got : List Bytes} (h : Took L ys i C taken got (C', os)) (hc : C.connection = .connected)
    (hb : ∃ b, C.reading = some b) (r : RecvLoop)
    (hreads : ∀ b, ({ C' with recvLoop := r } : RawClient K).reading = some b →
      C'.rxNonce = C.rxNonce + taken.length ∧
        got = taken.map (fun x => x.2.2) ∧
          Inlet (stream L (L.serverPublic c) ys) (i + 1 + taken.length) b feed) :
    ClientFed L c ys i feed C ({ C' with recvLoop := r }, os) taken [] got := by
  obtain ⟨⟨rx, u, hC⟩, hnext, ⟨as, ht⟩, hret, hg⟩ := h
  simp only at hC ht hret
  subst hC
  refine ⟨by rw [ht], by rw [ht], by rw [ht]; simp, .inl rfl, hnext, fun b hb' => ?_, hg, fun _ hr => ?_,
    ?_, fun hnone => ?_, fun h => absurd hc h, fun h => absurd hc h⟩
  · obtain ⟨hrx, -, hin⟩ := hreads b hb'
    exact ⟨hb, hrx, hin⟩
  · obtain ⟨b, hb'⟩ := Option.ne_none_iff_exists'.1 hr
    exact (hreads b hb').2.1
  · rw [hret]
    rfl
  · obtain ⟨b, hb⟩ := hb
    rw [hb] at hnone
    cases hnone

/-- Without a key the loop opens nothing. -/
theorem recvFrame_keyless (hk : C.cipher = none) (frame : Bytes) :
    ∃ e, RawClient.recvFrame L (C, []) frame = ((C, []), some e) := by
  have hdec : decryptCall .client frame (none : Option K) C.rxNonce = [] := by simp [decryptCall]
  simp only [RawClient.recvFrame, hk, hdec, List.append_nil]
  rcases hv : verifyPacket L frame none C.rxNonce with e | n | ⟨data, rem⟩
  · exact ⟨e, rfl⟩
  · exact ⟨_, rfl⟩
  · obtain ⟨-, k, -, -, hk', -⟩ := verifyPacket_payload L hv
    cases hk'

/-- A loop that is over reads nothing. -/
theorem reading_stopped {r : RecvLoop} (hc : C.connection = .connected) (hr : ∀ b, r ≠ .recv b) :
    ({ C with recvLoop := r } : RawClient K).reading = none := by
  cases r with
  | recv b => exact absurd rfl (hr b)
  | ended => simp [RawClient.reading, hc]
  | dead e => simp [RawClient.reading, hc]

/-- The loop is over, and nothing was seen. -/
theorem recvLoop_over {feed : Bytes} (hc : C.connection = .connected) (hr : C'.reading = none) (ht : C'.tasks = C.tasks)
    (hin : C'.inputPackets = C.inputPackets) :
    ∃ taken got, ClientFed L c ys i feed C (C', []) taken [] got := by
  refine ⟨[], [], ⟨rfl, rfl, ?_, .inl rfl, List.nil_prefix, fun b hb => ?_, List.nil_prefix,
    fun _ h => absurd hr h, ?_, fun _ => rfl, fun h => absurd hc h, fun h => absurd hc h⟩⟩
  · simp [Tally.none, ht]
  · rw [hr] at hb
    cases hb
  · simp [Pipebomb.returns, hin]

/-- The loop of a closed client. -/
theorem recvLoopStep_keyless {a : Input} {out : RawClient.After K} {feed : Bytes}
    (hc : C.connection = .connected) (hk : C.cipher = none) (ho : C.recvLoopStep L a = some out) :
    ∃ taken got, ClientFed L c ys i feed C out taken [] got := by
  have hkeyless : ∀ r : RecvLoop, ({ C with recvLoop := r } : RawClient K).reading = none := by
    intro r
    cases r <;> simp [RawClient.reading, hc, hk]
  have hdrain : ∀ b, (packetFraming.drain (RawClient.recvFrame L) (C, []) b).1 = (C, []) := by
    intro b
    refine packetFraming.drain_inv (P := fun o => o = (C, [])) _ ?_ rfl b
    rintro o frame rfl
    obtain ⟨e, he⟩ := recvFrame_keyless L hk frame
    rw [he]
  unfold RawClient.recvLoopStep at ho
  split at ho
  · rename_i buffer chunk hr
    have hd := hdrain (buffer ++ chunk)
    split_ifs at ho
    · cases ho
      exact recvLoop_over L hc (hkeyless _) rfl rfl
    split at ho
    · rename_i C' os rest he
      rw [he] at hd
      cases hd
      cases ho
      exact recvLoop_over L hc (hkeyless _) rfl rfl
    · rename_i C' os rest n he
      rw [he] at hd
      cases hd
      cases ho
      exact recvLoop_over L hc (hkeyless _) rfl rfl
    · rename_i C' os rest e he
      rw [he] at hd
      cases hd
      cases ho
      exact recvLoop_over L hc (hkeyless _) rfl rfl
  · cases ho
    exact recvLoop_over L hc (hkeyless _) rfl rfl
  · cases ho

/-- The frames of a buffer, up to where the loop waits or stops. -/
theorem drain_took {feed : Bytes} (hf : ClientFeeding L c ys i feed C) (hk : C.cipher = some k)
    (hrx : C.rxNonce = i) {feed' : Bytes}
    (hin : Inlet (stream L (L.serverPublic c) ys) (i + 1) b feed') :
    (∃ o b' taken, packetFraming.drain (RawClient.recvFrame L) (C, []) b = (o, b', none) ∧
      Took L ys i C taken (taken.map fun x => x.2.2) o ∧ o.1.rxNonce = C.rxNonce + taken.length ∧
        Inlet (stream L (L.serverPublic c) ys) (i + 1 + taken.length) b' feed') ∨
      ∃ o b' e taken got, packetFraming.drain (RawClient.recvFrame L) (C, []) b =
        (o, b', some (.inr e)) ∧ Took L ys i C taken got o := by
  have hstart : Took L ys i C [] [] (C, []) :=
    ⟨⟨C.rxNonce, C.unfinished, by simp⟩, List.nil_prefix, ⟨[], rfl⟩, rfl, List.nil_prefix⟩
  have hnext : ∀ {taken : List (K × ℕ × Bytes)} {f : Bytes},
      (stream L (L.serverPublic c) ys)[i + 1 + taken.length]? = some f →
        ∃ x, ys[i + taken.length]? = some x ∧ f = packet L x := by
    intro taken f hm
    have hpos : i + 1 + taken.length = i + taken.length + 1 := by omega
    rw [hpos] at hm
    exact next_packet L hm
  have hdrain := hin.drain packetFraming (RawClient.recvFrame L)
    (P := fun o pos => ∃ taken, Took L ys i C taken (taken.map fun x => x.2.2) o ∧
      o.1.rxNonce = C.rxNonce + taken.length ∧ pos = i + 1 + taken.length)
    (Q := fun o => ∃ taken got, Took L ys i C taken got o) cut_nil ?_ ?_
    (hf.numbered.complete L _) ⟨[], hstart, rfl, rfl⟩
  · rcases hdrain with ⟨o, b', pos, hd, ⟨taken, htook, hrx', rfl⟩, hin'⟩ | ⟨o, b', e, hd, taken, got, htook⟩
    · exact .inl ⟨o, b', taken, hd, htook, hrx', hin'⟩
    · exact .inr ⟨o, b', e, taken, got, hd, htook⟩
  · rintro o o' pos f ⟨taken, htook, hrx', rfl⟩ hm ha
    obtain ⟨x, hx, rfl⟩ := hnext hm
    obtain ⟨got, o'', e, he, htook', hnone⟩ := recvFrame_took L hf hk hrx htook hrx' hx
    rw [he] at ha
    cases ha
    obtain ⟨rfl, hrx''⟩ := hnone rfl
    refine ⟨taken ++ [x], htook', hrx'', ?_⟩
    rw [List.length_append, List.length_singleton]
    omega
  · rintro o o' pos f e ⟨taken, htook, hrx', rfl⟩ hm ha
    obtain ⟨x, hx, rfl⟩ := hnext hm
    obtain ⟨got, o'', e', he, htook', -⟩ := recvFrame_took L hf hk hrx htook hrx' hx
    rw [he] at ha
    cases ha
    exact ⟨_, got, htook'⟩

/-- **A step of `recv_loop`.** -/
theorem recvLoopStep_fed {a : Input} {out : RawClient.After K} {feed : Bytes}
    (hf : ClientFeeding L c ys i feed C) (hc : C.connection = .connected) (hchunk : a.chunk <+: feed)
    (ho : C.recvLoopStep L a = some out) :
    ∃ taken got, ClientFed L c ys i (feed.drop a.chunk.length) C out taken [] got := by
  rcases hk : C.cipher with _ | k
  · exact recvLoopStep_keyless L hc hk ho
  unfold RawClient.recvLoopStep at ho
  split at ho
  · rename_i buffer chunk hr
    have hreading : C.reading = some buffer := by simp [RawClient.reading, hc, hk, hr]
    obtain ⟨hrx, hin⟩ := hf.place _ hreading
    have hin' : Inlet (stream L (L.serverPublic c) ys) (i + 1) (buffer ++ chunk)
        (feed.drop chunk.length) := hin.arrive hchunk
    split_ifs at ho
    · cases ho
      exact recvLoop_over L hc (reading_stopped hc fun b h => by cases h) rfl rfl
    rcases drain_took L hf hk hrx hin' with ⟨⟨C', os⟩, b', taken, hd, htook, hrx', hin''⟩ |
      ⟨⟨C', os⟩, b', e, taken, got, hd, htook⟩
    · rw [hd] at ho
      cases ho
      obtain ⟨⟨rx, u, hC⟩, -⟩ := id htook
      simp only at hC hrx'
      refine ⟨taken, _, htook.fed L hc ⟨_, hreading⟩ (.recv b') fun b hb => ⟨hrx', rfl, ?_⟩⟩
      obtain rfl : b' = b := by
        subst hC
        simpa [RawClient.reading, hc, hk] using hb
      exact hin''
    · rw [hd] at ho
      cases ho
      obtain ⟨⟨rx, u, hC⟩, -⟩ := id htook
      simp only at hC
      refine ⟨taken, got, htook.fed L hc ⟨_, hreading⟩ (.dead e) fun b hb => ?_⟩
      rw [reading_stopped (by rw [hC]; exact hc) fun b h => by cases h] at hb
      cases hb
  · cases ho
    exact recvLoop_over L hc (reading_stopped hc fun b h => by cases h) rfl rfl
  · cases ho

/-! ## The other steps -/

theorem sendLoopStep_fed {a : Input} {out : RawClient.After K} (hf : ClientFeeding L c ys i feed C)
    (ho : C.sendLoopStep a = some out) : ClientFed L c ys i feed C out [] [] [] := by
  unfold RawClient.sendLoopStep at ho
  split at ho
  · split at ho
    · cases ho
    · rename_i p ps ht
      cases ho
      exact clientFed_still L [p] hf (tally_write L _ p) ht.symm (fun b hb => hb) (.inl rfl) id rfl
  · split_ifs at ho
    · cases ho
      exact clientFed_still L [] hf rfl rfl (fun b hb => hb) (.inl rfl) id rfl
    · cases ho
      exact clientFed_still L [] hf rfl rfl (fun b hb => hb) (.inl rfl) id rfl
  · cases ho
  · cases ho
    exact clientFed_still L [] hf rfl rfl (fun b hb => hb) (.inl rfl) id rfl
  · cases ho

/-- A packet that an operation or `close` builds. -/
theorem clientFed_built {os : List (Obs K)} (sent : List Bytes) (hf : ClientFeeding L c ys i feed C)
    (hc : C.connection = .connected) (hr : C.Ready) (hk : C.cipher = some k) {data : Bytes}
    (hp : constructPacket L data (some k) C.txNonce = .ok (packet L (k, C.txNonce, data)))
    (ht : tally L .client os = ⟨[(k, C.txNonce, data)], [], [], sent, []⟩)
    (hs : sent ++ C'.tasks = [packet L (k, C.txNonce, data)]) (hread : C'.reading = C.reading)
    (hrx : C'.rxNonce = C.rxNonce) (hin : C'.inputPackets = C.inputPackets) (hret : returns os = []) :
    ClientFed L c ys i feed C (C', os) [] [(k, C.txNonce, data)] [] where
  built := by rw [ht]
  opened := by rw [ht]; rfl
  sends := by
    rw [ht, hr.tasks]
    exact hs
  fresh := .inr ⟨k, data, rfl, hr, hk, hp⟩
  next := List.nil_prefix
  reads b hb := by
    rw [hread] at hb
    exact ⟨⟨b, hb⟩, hrx, (hf.place b hb).2⟩
  gets := List.nil_prefix
  all _ _ := rfl
  inputs := by
    rw [hret, hin]
    simp
  stopped _ := rfl
  paced h := absurd hc h
  joins h := absurd hc h

theorem send_fed {call : Call} (hf : ClientFeeding L c ys i feed C) (hc : C.connection = .connected)
    (hr : C.Ready) : ∃ new, ClientFed L c ys i feed C (C.attempt (C.send L call)) [] new [] := by
  have hsame : ∀ os : List (Obs K), tally L .client os = .none → returns os = [] →
      ClientFed L c ys i feed C (C, os) [] [] [] := fun os ht hret =>
    clientFed_still L [] hf ht rfl (fun b hb => hb) (.inl rfl) id (by rw [hret]; rfl)
  unfold RawClient.send RawClient.attempt
  rcases hpay : call.payload with e | data
  · exact ⟨[], hsame [] rfl rfl⟩
  simp only
  rcases hk : C.cipher with _ | k
  · rcases hp : constructPacket L data (none : Option K) C.txNonce with e | pkt
    · exact ⟨[], hsame [] rfl rfl⟩
    · obtain ⟨-, -, -, k, hk', -⟩ := (constructPacket_ok L).1 hp
      cases hk'
  · have hret := returns_encryptCall (K := K) k C.txNonce data
    rcases tally_construct L .client k C.txNonce data with ⟨hp, ht⟩ | ⟨e, hp, ht⟩
    · rw [hp]
      refine ⟨_, clientFed_built L [] hf hc hr hk hp ?_ ?_ ?_ rfl rfl ?_⟩
      · rw [tally_append, ht]
        simp [tally, Tally.append, Pipebomb.built, Pipebomb.opened, acceptedBy, Pipebomb.sends, answers]
      · simp [hr.tasks]
      · simp [RawClient.reading, hk]
      · rw [returns_append, hret]
        rfl
    · rw [hp]
      exact ⟨[], hsame _ ht hret⟩

theorem close_fed (hf : ClientFeeding L c ys i feed C) (hc : C.connection = .connected)
    (hr : C.Ready) : ∃ new, ClientFed L c ys i feed C (C.attempt (C.close L)) [] new [] := by
  have hsame : ∀ os : List (Obs K), tally L .client os = .none → returns os = [] →
      ClientFed L c ys i feed C (C, os) [] [] [] := fun os ht hret =>
    clientFed_still L [] hf ht rfl (fun b hb => hb) (.inl rfl) id (by rw [hret]; rfl)
  unfold RawClient.close RawClient.attempt
  rcases hk : C.cipher with _ | k
  · exact ⟨[], hsame [] rfl rfl⟩
  · have hret := returns_encryptCall (K := K) k C.txNonce [0x88]
    simp only
    rcases tally_construct L .client k C.txNonce [0x88] with ⟨hp, ht⟩ | ⟨e, hp, ht⟩
    · rw [hp]
      refine ⟨_, clientFed_built L [packet L (k, C.txNonce, [0x88])] hf hc hr hk hp ?_ ?_ ?_ rfl rfl ?_⟩
      · rw [tally_append, ht]
        simp [tally, Tally.append, Pipebomb.built, Pipebomb.opened, acceptedBy, Pipebomb.sends, answers]
      · simp [hr.tasks]
      · simp [RawClient.reading, hk]
      · rw [returns_append, hret]
        rfl
    · rw [hp]
      exact ⟨[], hsame _ ht hret⟩

/-- The client is past the exchange of the keys. -/
def RawClient.Keyed (C : RawClient K) : Prop :=
  match C.connection with
  | .idle | .sendPublic | .serverKey _ => False
  | _ => True

/-- A handshake that is not over: nothing was asked yet, and nothing is written behind the
    packet it waits for. -/
def RawClient.Logging (ys : List (K × ℕ × Bytes)) (i : ℕ) (C : RawClient K) : Prop :=
  (∃ b, C.reading = some b) → C.connection ≠ .connected →
    C.Ready ∧ (∃ k, C.cipher = some k) ∧ C.recvLoop = .recv [] ∧ ys.length ≤ i + 1

/-- A handshake that is not over reads. -/
theorem RawClient.Keyed.reading (h : C.Keyed) (hc : C.connection ≠ .connected)
    (hfail : ∀ e, C.connection ≠ .failed e) : ∃ b, C.reading = some b := by
  rw [RawClient.Keyed] at h
  rcases hcon : C.connection with _ | _ | b | _ | b | _ | b | _ | e
  case idle | sendPublic | serverKey =>
    rw [hcon] at h
    exact h.elim
  case sendPassword | sendLogin => exact ⟨[], by simp only [RawClient.reading, hcon]⟩
  case ack | reply => exact ⟨b, by simp only [RawClient.reading, hcon]⟩
  case connected => exact absurd hcon hc
  case failed => exact absurd hcon (hfail e)

/-- The chunk that arrives at the client. -/
def RawClient.Act.chunk : RawClient.Act → Bytes
  | .resume i | .recvLoop i => i.chunk
  | _ => []

/-- Operations and `close` are called when nothing is outstanding, and receive in the order of
    their calls; only the last one may time out. -/
def RawClient.InOrder (C : RawClient K) : RawClient.Act → Prop
  | .call _ | .close => C.Ready
  | .receive n => n = 0
  | .timeout n => n + 1 = C.calls.length
  | _ => True

/-- **A step of the client** after the exchange of the keys. -/
theorem client_fed {a : RawClient.Act} {out : RawClient.After K} {feed : Bytes}
    (hf : ClientFeeding L c ys i feed C) (hkeyed : C.Keyed) (hn : C.AtNonces) (hlog : C.Logging ys i)
    (hseq : C.InOrder a) (hchunk : a.chunk <+: feed) (ho : C.step L a = some out) :
    ∃ taken new got, ClientFed L c ys i (feed.drop a.chunk.length) C out taken new got := by
  cases a with
  | connect relogUuid =>
    simp only [RawClient.step] at ho
    split_ifs at ho with hc
    simp [RawClient.Keyed, not_not.1 hc] at hkeyed
  | resume a =>
    have hconn : C.connection ≠ .connected := by
      intro hc
      simp only [RawClient.step, RawClient.connectStep, hc] at ho
      cases ho
    have hb := hkeyed.reading hconn fun e hc => by
      simp only [RawClient.step, RawClient.connectStep, hc] at ho
      cases ho
    obtain ⟨hr, ⟨k, hk⟩, hloop, hshort⟩ := hlog hb hconn
    obtain ⟨taken, new, h⟩ := connectStep_fed L hf hb hr hk hloop hshort hchunk ho
    exact ⟨taken, new, [], h⟩
  | sendLoop a =>
    simp only [RawClient.step] at ho
    split_ifs at ho
    exact ⟨[], [], [], sendLoopStep_fed L hf ho⟩
  | recvLoop a =>
    simp only [RawClient.step] at ho
    split_ifs at ho with hc
    obtain ⟨taken, got, h⟩ := recvLoopStep_fed L hf hc hchunk ho
    exact ⟨taken, [], got, h⟩
  | call call =>
    simp only [RawClient.step] at ho
    split_ifs at ho with hc
    cases ho
    obtain ⟨new, h⟩ := send_fed L hf hc hseq
    exact ⟨[], new, [], h⟩
  | receive n =>
    simp only [RawClient.step] at ho
    split at ho
    · rename_i data p ps hcall hin
      cases ho
      exact ⟨[], [], [], clientFed_still L [] hf rfl rfl (fun b hb => hb) (.inl rfl) id hin.symm⟩
    · cases ho
  | timeout n =>
    simp only [RawClient.step] at ho
    split at ho
    · cases ho
      exact ⟨[], [], [], clientFed_still L [] hf rfl rfl (fun b hb => hb) (.inl rfl) id rfl⟩
    · cases ho
  | close =>
    simp only [RawClient.step] at ho
    split_ifs at ho with hc
    cases ho
    obtain ⟨new, h⟩ := close_fed L hf hc hseq
    exact ⟨[], new, [], h⟩
  | closing a =>
    simp only [RawClient.step, RawClient.closeStep] at ho
    split at ho
    · rename_i hcl
      cases ho
      refine ⟨[], [], [], clientFed_end L hf rfl ?_ id rfl⟩
      rw [RawClient.AtNonces] at hn
      rcases hc : C.connection with _ | _ | b | _ | b | _ | b | _ | e
      case connected | failed => simp [RawClient.reading]
      all_goals
        rw [hc] at hn
        rw [hn.2.2] at hcl
        cases hcl
    · cases ho
      exact ⟨[], [], [], clientFed_still L [] hf rfl rfl (fun b hb => hb) (.inl rfl) id rfl⟩
    · cases ho

end Pipebomb
