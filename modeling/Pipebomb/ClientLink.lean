/-
  The client refines its end of a connection.

  * `RawClient.AtEnd` says at which state of `ClientEnd` the client stands; `outstanding`
    counts the packets that were built and not counted in `tx_nonce` yet.
  * `client_link`: a step of the client is a run of `ClientStep` with the observations it
    emits, of the sequential one if operations are called when nothing is outstanding
    (`Ready`), and of the verified one if the reply to the login is.
-/
import Pipebomb.ServerLink

namespace Pipebomb

open ByteString

variable {K : Type} (L : Libs K)

/-- The packets in the hands of `send_loop`. -/
def SendLoop.held : SendLoop → Option ℕ
  | .waiting => some 0
  | .sending => some 1
  | .dead _ => none

/-- The packets in the hands of `close`. -/
def Closing.held : Closing → Option ℕ
  | .idle => some 0
  | .sending => some 1
  | .failed _ => none

namespace RawClient

/-- The packets that were built and not counted yet; `none` after a send failed. -/
def outstanding (C : RawClient K) : Option ℕ :=
  C.sendLoop.held.bind fun a => C.closing.held.map fun b => C.tasks.length + a + b

/-- Nothing is outstanding. -/
structure Ready (C : RawClient K) : Prop where
  tasks : C.tasks = []
  sendLoop : C.sendLoop = .waiting
  closing : C.closing = .idle

theorem Ready.outstanding {C : RawClient K} (h : C.Ready) : C.outstanding = some 0 := by
  simp [RawClient.outstanding, h.tasks, h.sendLoop, h.closing, SendLoop.held, Closing.held]

theorem Ready.stand {C : RawClient K} (h : C.Ready) (pc : Connecting) : (C.stand pc).Ready :=
  ⟨h.tasks, h.sendLoop, h.closing⟩

/-- The client stands at a state of its end. -/
def AtEnd (f : ClientEnd K) (C : RawClient K) : Prop :=
  match C.connection with
  | .idle | .sendPublic | .serverKey _ =>
    C.Ready ∧ C.txNonce = 0 ∧ C.rxNonce = 0 ∧ f = .start
  | .sendPassword | .sendLogin =>
    C.Ready ∧ ∃ k, C.cipher = some k ∧ f = .up k C.txNonce (some 1) C.rxNonce
  | .ack _ | .reply _ => C.Ready ∧ ∃ k, C.cipher = some k ∧ f = .up k C.txNonce (some 0) C.rxNonce
  | .connected => match C.cipher with
    | none => f = .closed
    | some k => f = .up k C.txNonce C.outstanding C.rxNonce
  | .failed _ => f = .closed

/-- A chunk completes a reply to the login that does not verify. -/
def replyRejected (C : RawClient K) : RawClient.Act → Bool
  | .resume (.recv chunk) => match C.connection with
    | .reply buffer => match extractPacketFrame (buffer ++ chunk) with
      | (some f, _, none) => match verifyPacket L f C.cipher C.rxNonce with
        | .ok (.code _) => true
        | _ => false
      | _ => false
    | _ => false
  | _ => false

/-- Operations are called when nothing is outstanding. -/
def Sequential (C : RawClient K) : RawClient.Act → Prop
  | .call _ | .close => C.Ready
  | _ => True

end RawClient

variable {sequential verified : Prop} {C C' : RawClient K} {f : ClientEnd K} {c : ConnId}
  {k : K} {tx rx : ℕ}

/-- The step of the client is a run of its end. -/
def ClientGoes (sequential verified : Prop) (c : ConnId) (f : ClientEnd K)
    (o : RawClient.After K) : Prop :=
  ∃ f', o.1.AtEnd f' ∧ Lts.Run (ClientStep L sequential verified) f f' (linkObs L c o.2)

theorem ClientGoes.saw (f' : ClientEnd K) {os : List (Obs K)} {o : RawClient.After K}
    (hr : Lts.Run (ClientStep L sequential verified) f f' (linkObs L c os))
    (h : ClientGoes L sequential verified c f' o) :
    ClientGoes L sequential verified c f (RawClient.saw os o) := by
  obtain ⟨f'', ht, hr'⟩ := h
  refine ⟨f'', ht, ?_⟩
  rw [RawClient.saw, linkObs_append]
  exact hr.trans hr'

/-- A step that emits nothing about the link and stays at the same state. -/
theorem clientGoes_same {os : List (Obs K)} (ht : C.AtEnd f) (h : linkObs L c os = []) :
    ClientGoes L sequential verified c f (C, os) := by
  refine ⟨f, ht, ?_⟩
  rw [h]
  exact .nil

theorem fail_goes {e : PyErr} : ClientGoes L sequential verified c f (C.fail e) :=
  ⟨.closed, rfl, .single .close⟩

/-! ## `connect` -/

/-- A packet of the handshake. -/
theorem sendConnect_goes {data : Bytes} {next : Connecting} (hr : C.Ready)
    (hk : C.cipher = some k) (htx : C.txNonce = tx) (hrx : C.rxNonce = rx)
    (hn : next = .sendPassword ∨ next = .sendLogin) :
    ClientGoes L sequential verified c (.up k tx (some 0) rx) (C.sendConnect L data next) := by
  subst htx hrx
  unfold RawClient.sendConnect
  rw [hk]
  rcases linkObs_construct L k C.txNonce data (.inl rfl : Party.At c .client)
    with ⟨pkt, hp, hf, ho⟩ | ⟨x, hx, ho⟩
  · refine .saw L (.up k C.txNonce (some 1) C.rxNonce) ?_ ?_
    · rw [ho]
      exact .single (.build hf fun _ => ⟨rfl, rfl⟩)
    · rw [hp]
      refine clientGoes_same L ?_ rfl
      rcases hn with rfl | rfl
      · exact ⟨hr.stand _, k, hk, rfl⟩
      · exact ⟨hr.stand _, k, hk, rfl⟩
  · refine .saw L _ (by rw [ho]; exact .nil) ?_
    rw [hx]
    exact fail_goes L

/-- A frame that does not verify, or is not accepted. -/
theorem reject_goes (packet : Bytes) {pending : Option ℕ}
    {o : RawClient.After K} (hf : f = .up k tx pending rx)
    (h : ClientGoes L sequential verified c f o) :
    ClientGoes L sequential verified c f
      (RawClient.saw (decryptCall .client packet (some k) rx) o) := by
  subst hf
  obtain ⟨cts, hcts⟩ := linkObs_decryptCall L k rx packet
    (.inl rfl : Party.At c .client)
  refine .saw L _ ?_ h
  rw [hcts]
  exact .single (.reject cts)

/-- A frame that verifies. -/
theorem accept_goes {packet data : Bytes} {rem : Option Bytes} {pending : Option ℕ}
    {o : RawClient.After K} (hv : verifyPacket L packet (some k) rx = .ok (.payload data rem))
    (h : ClientGoes L sequential verified c (.up k tx pending (rx + 1)) o) :
    ClientGoes L sequential verified c (.up k tx pending rx)
      (RawClient.saw (decryptCall .client packet (some k) rx)
        (RawClient.saw [.accepted .client data] o)) := by
  obtain ⟨ct, plaintext, hct, hd, ho, hobs⟩ := linkObs_verify L (.inl rfl : Party.At c .client) hv
  obtain ⟨f', hat, hrun⟩ := h
  refine ⟨f', hat, ?_⟩
  simp only [RawClient.saw]
  rw [← List.append_assoc, linkObs_append, hobs]
  exact (Lts.Run.single (.accept hct hd ho)).trans hrun

theorem onAck_goes {frame : Bytes} (hr : C.Ready) (hk : C.cipher = some k) :
    ClientGoes L sequential verified c (.up k C.txNonce (some 0) C.rxNonce) (C.onAck L frame) := by
  unfold RawClient.onAck
  rw [hk]
  rcases hv : verifyPacket L frame (some k) C.rxNonce with x | n | ⟨ack, rem⟩
  · exact reject_goes L _ rfl (fail_goes L)
  · exact reject_goes L _ rfl (fail_goes L)
  · refine accept_goes L hv ?_
    split_ifs
    · exact fail_goes L
    · exact sendConnect_goes L (C := C.received) ⟨hr.tasks, hr.sendLoop, hr.closing⟩ hk rfl rfl
        (.inr rfl)

theorem onReply_goes {frame : Bytes} (hr : C.Ready) (hk : C.cipher = some k)
    (hv : verified → ∀ n, verifyPacket L frame C.cipher C.rxNonce ≠ .ok (.code n)) :
    ClientGoes L sequential verified c (.up k C.txNonce (some 0) C.rxNonce)
      (C.onReply L frame) := by
  have hat : (C.received.stand .connected).AtEnd (.up k C.txNonce (some 0) (C.rxNonce + 1)) := by
    have hout : (C.received.stand .connected).outstanding = some 0 := hr.outstanding
    simp only [RawClient.AtEnd, RawClient.stand, RawClient.received, hk]
    exact congrArg (fun p => ClientEnd.up k C.txNonce p (C.rxNonce + 1)) hout.symm
  unfold RawClient.onReply
  rw [hk] at hv ⊢
  rcases hver : verifyPacket L frame (some k) C.rxNonce with x | n | ⟨ack, rem⟩
  · exact reject_goes L _ rfl (fail_goes L)
  · refine reject_goes L _ rfl ⟨_, hat, .single (.skip fun h => hv h n hver)⟩
  · refine accept_goes L hver (o := (_, [])) ?_
    exact clientGoes_same L hat rfl

theorem clientOnChunk_goes {buffer chunk : Bytes} {waiting : Bytes → Connecting}
    {frame : Bytes → RawClient.After K} (hw : ∀ b, (C.stand (waiting b)).AtEnd f)
    (h : ∀ fr rest, extractPacketFrame (buffer ++ chunk) = (some fr, rest, none) →
      ClientGoes L sequential verified c f (frame fr)) :
    ClientGoes L sequential verified c f (C.onChunk buffer chunk waiting frame) := by
  unfold RawClient.onChunk
  split_ifs
  · exact fail_goes L
  · split
    · exact fail_goes L
    · rename_i fr rest he
      exact h fr rest he
    · exact clientGoes_same L (hw _) rfl

/-- **A step of `connect`.** -/
theorem connectStep_goes {i : Input} {o : RawClient.After K} (hat : C.AtEnd f)
    (hv : verified → C.replyRejected L (.resume i) = false) (ho : C.connectStep L i = some o) :
    ClientGoes L sequential verified c f o := by
  unfold RawClient.connectStep at ho
  split at ho
  · rename_i hc
    simp only [RawClient.AtEnd, hc] at hat
    obtain ⟨hr, htx, hrx, rfl⟩ := hat
    cases ho
    exact clientGoes_same L ⟨hr.stand _, htx, hrx, rfl⟩ rfl
  · rename_i buffer chunk hc
    simp only [RawClient.AtEnd, hc] at hat
    obtain ⟨hr, htx, hrx, rfl⟩ := hat
    split_ifs at ho
    · cases ho; exact fail_goes L
    · cases ho
      exact clientGoes_same L ⟨hr.stand _, htx, hrx, rfl⟩ rfl
    · cases ho
      unfold RawClient.onServerKey
      split
      · exact fail_goes L
      · rename_i k _
        have hsend : ClientGoes L sequential verified c (.up k 0 (some 0) 0)
            ({ C with cipher := some k }.sendConnect L (0 :: C.password) .sendPassword) :=
          sendConnect_goes L ⟨hr.tasks, hr.sendLoop, hr.closing⟩ rfl htx hrx (.inl rfl)
        obtain ⟨f', hat, hrun⟩ := hsend
        refine ⟨f', hat, ?_⟩
        exact (Lts.Run.single (.key k)).trans hrun
  · rename_i hc
    simp only [RawClient.AtEnd, hc] at hat
    obtain ⟨hr, k, hk, rfl⟩ := hat
    cases ho
    refine ⟨_, ⟨⟨hr.tasks, hr.sendLoop, hr.closing⟩, k, hk, rfl⟩, .single (.sent ?_)⟩
    rintro j ⟨⟩
    rfl
  · rename_i buffer chunk hc
    simp only [RawClient.AtEnd, hc] at hat
    obtain ⟨hr, k, hk, rfl⟩ := hat
    split_ifs at ho
    cases ho
    exact clientOnChunk_goes L (fun _ => ⟨hr.stand _, k, hk, rfl⟩)
      fun fr rest he => onAck_goes L hr hk
  · rename_i hc
    simp only [RawClient.AtEnd, hc] at hat
    obtain ⟨hr, k, hk, rfl⟩ := hat
    cases ho
    refine ⟨_, ⟨⟨hr.tasks, hr.sendLoop, hr.closing⟩, k, hk, rfl⟩, .single (.sent ?_)⟩
    rintro j ⟨⟩
    rfl
  · rename_i buffer chunk hc
    simp only [RawClient.AtEnd, hc] at hat
    obtain ⟨hr, k, hk, rfl⟩ := hat
    split_ifs at ho
    cases ho
    exact clientOnChunk_goes L (fun _ => ⟨hr.stand _, k, hk, rfl⟩)
      fun fr rest he => onReply_goes L hr hk fun h n hn => by
        simpa [RawClient.replyRejected, hc, he, hn] using hv h
  · cases ho
  · cases ho
  · cases ho
  · cases ho; exact fail_goes L
  · cases ho

/-! ## The loops -/

/-- A connected client stands at its end. -/
theorem atEnd_connected (hc : C.connection = .connected) (hk : C.cipher = some k) :
    C.AtEnd f ↔ f = .up k C.txNonce C.outstanding C.rxNonce := by
  simp only [RawClient.AtEnd, hc, hk]

theorem atEnd_closed (hc : C.connection = .connected) (hk : C.cipher = none) :
    C.AtEnd f ↔ f = .closed := by
  simp only [RawClient.AtEnd, hc, hk]

/-- Packets that were received and operations that wait do not matter. -/
theorem atEnd_congr (hat : C.AtEnd f) (hc : C'.connection = C.connection)
    (hk : C'.cipher = C.cipher) (htx : C'.txNonce = C.txNonce) (hrx : C'.rxNonce = C.rxNonce)
    (hready : C.Ready → C'.Ready) (hout : C'.outstanding = C.outstanding) : C'.AtEnd f := by
  unfold RawClient.AtEnd at hat ⊢
  rw [hc, hk, htx, hrx, hout]
  cases hcon : C.connection with
  | connected => rw [hcon] at hat; exact hat
  | failed e => rw [hcon] at hat; exact hat
  | _ => rw [hcon] at hat; exact ⟨hready hat.1, hat.2⟩

/-- A step of a connected client that emits nothing about the link, keeps key and
    `rx_nonce`, and counts a packet that was outstanding, or stays, or gets stuck. -/
theorem quiet_goes {os : List (Obs K)} (hc : C.connection = .connected) (hat : C.AtEnd f)
    (hc' : C'.connection = .connected) (hk : C'.cipher = C.cipher) (hrx : C'.rxNonce = C.rxNonce)
    (ho : linkObs L c os = [])
    (h : C'.txNonce = C.txNonce ∧ (C'.outstanding = C.outstanding ∨ C'.outstanding = none) ∨
      C'.txNonce = C.txNonce + 1 ∧
        ∀ j, C'.outstanding = some j → C.outstanding = some (j + 1)) :
    ClientGoes L sequential verified c f (C', os) := by
  rcases hcip : C.cipher with _ | k
  · refine ⟨.closed, (atEnd_closed hc' (hk.trans hcip)).2 rfl, ?_⟩
    rw [(atEnd_closed hc hcip).1 hat, ho]
    exact .nil
  · refine ⟨_, (atEnd_connected hc' (hk.trans hcip)).2 rfl, ?_⟩
    rw [(atEnd_connected hc hcip).1 hat, ho, hrx]
    rcases h with ⟨htx, hout | hout⟩ | ⟨htx, hout⟩
    · rw [htx, hout]; exact .nil
    · rw [htx, hout]; exact .single .stuck
    · rw [htx]; exact .single (.sent hout)

theorem sendLoopStep_goes {i : Input} {o : RawClient.After K} (hc : C.connection = .connected)
    (hat : C.AtEnd f) (ho : C.sendLoopStep i = some o) :
    ClientGoes L sequential verified c f o := by
  unfold RawClient.sendLoopStep at ho
  split at ho
  · rename_i hs
    split at ho
    · cases ho
    · rename_i p ps ht
      cases ho
      refine quiet_goes L hc hat hc rfl rfl rfl (.inl ⟨rfl, .inl ?_⟩)
      simp only [RawClient.outstanding, hs, ht, SendLoop.held, Option.bind_some, List.length_cons]
  · rename_i hs
    split_ifs at ho
    · cases ho
      exact quiet_goes L hc hat hc rfl rfl rfl (.inr ⟨rfl, by rintro j ⟨⟩⟩)
    · cases ho
      refine quiet_goes L hc hat hc rfl rfl rfl (.inr ⟨rfl, fun j hj => ?_⟩)
      simp only [RawClient.outstanding, hs, RawClient.sent, SendLoop.held, Option.bind_some,
        Option.map_eq_some_iff] at hj ⊢
      obtain ⟨b, hb, rfl⟩ := hj
      exact ⟨b, hb, by omega⟩
  · cases ho
  · cases ho
    exact quiet_goes L hc hat hc rfl rfl rfl (.inl ⟨rfl, .inr rfl⟩)
  · cases ho

/-- The client after a frame of `recv_loop`, as a run since the loop was resumed. -/
def RecvGoes (sequential verified : Prop) (c : ConnId) (f : ClientEnd K)
    (o : RawClient.After K) : Prop :=
  o.1.connection = .connected ∧ ClientGoes L sequential verified c f o

theorem recvFrame_goes {o : RawClient.After K} (h : RecvGoes L sequential verified c f o)
    (frame : Bytes) : RecvGoes L sequential verified c f (RawClient.recvFrame L o frame).1 := by
  obtain ⟨C, os⟩ := o
  obtain ⟨hc, f', hat, hrun⟩ := h
  -- what is seen of the frame is a run from where the client stands
  suffices hgoes : ∀ C' os', C'.connection = .connected →
      ClientGoes L sequential verified c f' (C', os') →
        RecvGoes L sequential verified c f (C', os ++ os') by
    rcases hcip : C.cipher with _ | k
    · have hnone : ∀ o' : RawClient.After K × Option PyErr, o'.1 = (C, os ++ []) →
          RecvGoes L sequential verified c f o'.1 := by
        rintro ⟨o', e⟩ rfl
        exact hgoes C [] hc (clientGoes_same L hat rfl)
      refine hnone _ ?_
      have hdec : decryptCall .client frame (none : Option K) C.rxNonce = [] := by
        simp [decryptCall]
      simp only [RawClient.recvFrame, hcip, hdec]
      rcases hv : verifyPacket L frame none C.rxNonce with x | n | ⟨packet, rem⟩
      · rfl
      · rfl
      · obtain ⟨-, k, ct, pt, hk, -⟩ := verifyPacket_payload L hv
        cases hk
    · have hf' := (atEnd_connected hc hcip).1 hat
      have hrej : ClientGoes L sequential verified c f'
          (C, decryptCall .client frame (some k) C.rxNonce) := by
        have hsame : ClientGoes L sequential verified c f' (C, []) := clientGoes_same L hat rfl
        simpa [RawClient.saw] using reject_goes L frame hf' hsame
      simp only [RawClient.recvFrame, hcip]
      rcases hv : verifyPacket L frame (some k) C.rxNonce with x | n | ⟨packet, rem⟩
      · exact hgoes _ _ hc hrej
      · exact hgoes _ _ hc hrej
      · have hacc : ∀ C', C'.connection = .connected → C'.cipher = some k →
            C'.txNonce = C.txNonce → C'.rxNonce = C.rxNonce + 1 →
            C'.outstanding = C.outstanding → RecvGoes L sequential verified c f
              (C', os ++ decryptCall .client frame (some k) C.rxNonce ++
                [.accepted .client packet]) := by
          intro C' hc' hk' htx hrx hout
          rw [List.append_assoc]
          refine hgoes _ _ hc' ?_
          rw [hf']
          refine accept_goes L hv (o := (C', [])) (clientGoes_same L ?_ rfl)
          rw [atEnd_connected hc' hk', htx, hrx, hout]
        simp only
        by_cases hdone : (packet = RawClient.ERR_ACK ∧ C.tasks ≠ []) ∧ C.unfinished = 0
        · rw [if_pos hdone]
          exact hgoes _ _ hc hrej
        · rw [if_neg hdone]
          by_cases herr : RawClient.ERR <+: packet ∧ packet ≠ RawClient.ERR_ACK
          · rw [if_pos herr]
            exact hacc _ hc hcip rfl rfl rfl
          · rw [if_neg herr]
            exact hacc _ hc hcip rfl rfl rfl
  rintro C' os' hc' ⟨f'', hat', hrun'⟩
  refine ⟨hc', f'', hat', ?_⟩
  rw [linkObs_append]
  exact hrun.trans hrun'

theorem recvLoopStep_goes {i : Input} {o : RawClient.After K} (hc : C.connection = .connected)
    (hat : C.AtEnd f) (ho : C.recvLoopStep L i = some o) :
    ClientGoes L sequential verified c f o := by
  unfold RawClient.recvLoopStep at ho
  split at ho
  · rename_i buffer chunk hr
    have hstand : ∀ r, ClientGoes L sequential verified c f ({ C with recvLoop := r }, []) :=
      fun r => quiet_goes L hc hat hc rfl rfl rfl (.inl ⟨rfl, .inl rfl⟩)
    have hdrain : RecvGoes L sequential verified c f
        (packetFraming.drain (RawClient.recvFrame L) (C, []) (buffer ++ chunk)).1 :=
      packetFraming.drain_inv (P := RecvGoes L sequential verified c f) _
        (fun _ frame h => recvFrame_goes L h frame) ⟨hc, clientGoes_same L hat rfl⟩ _
    have hfinish : ∀ (C' : RawClient K) (os : List (Obs K)) r, RecvGoes L sequential verified c f (C', os) →
        ClientGoes L sequential verified c f ({ C' with recvLoop := r }, os) := by
      rintro C' os r ⟨hc', f', hat', hrun⟩
      exact ⟨f', atEnd_congr hat' rfl rfl rfl rfl (fun h => ⟨h.1, h.2, h.3⟩) rfl, hrun⟩
    split_ifs at ho
    · cases ho; exact hstand _
    · split at ho
      · rename_i C' os rest he
        cases ho
        rw [he] at hdrain
        exact hfinish _ _ _ hdrain
      · rename_i C' os _ n he
        cases ho
        rw [he] at hdrain
        exact hfinish _ _ _ hdrain
      · rename_i C' os _ e he
        cases ho
        rw [he] at hdrain
        exact hfinish _ _ _ hdrain
  · cases ho
    exact quiet_goes L hc hat hc rfl rfl rfl (.inl ⟨rfl, .inl rfl⟩)
  · cases ho

/-! ## Operations -/

theorem send_goes {call : Call} (hc : C.connection = .connected) (hat : C.AtEnd f)
    (hs : sequential → C.Ready) :
    ClientGoes L sequential verified c f (C.attempt (C.send L call)) := by
  unfold RawClient.send RawClient.attempt
  rcases hp : call.payload with x | data
  · exact clientGoes_same L hat rfl
  · rcases hcip : C.cipher with _ | k
    · have hcon : ∃ x, constructPacket L data (none : Option K) C.txNonce = .error x := by
        rcases h : constructPacket L data (none : Option K) C.txNonce with x | pkt
        · exact ⟨x, rfl⟩
        · obtain ⟨-, -, -, k, hk, -⟩ := (constructPacket_ok L).1 h
          cases hk
      obtain ⟨x, hx⟩ := hcon
      simp only [hx]
      exact clientGoes_same L hat rfl
    · have hf := (atEnd_connected hc hcip).1 hat
      rcases linkObs_construct L k C.txNonce data
        (.inl rfl : Party.At c .client) with ⟨pkt, hpk, hfit, ho⟩ | ⟨x, hx, ho⟩
      · simp only [hpk]
        refine ⟨_, (atEnd_connected (by exact hc) rfl).2 rfl, ?_⟩
        rw [hf, linkObs_append, ho]
        refine .single (.build hfit fun h => ⟨(hs h).outstanding, ?_⟩)
        simp [RawClient.outstanding, (hs h).tasks, (hs h).sendLoop, (hs h).closing, SendLoop.held,
          Closing.held]
      · simp only [hx]
        exact clientGoes_same L hat ho

theorem close_goes (hc : C.connection = .connected) (hat : C.AtEnd f)
    (hs : sequential → C.Ready) :
    ClientGoes L sequential verified c f (C.attempt (C.close L)) := by
  unfold RawClient.close RawClient.attempt
  rcases hcip : C.cipher with _ | k
  · exact clientGoes_same L hat rfl
  · have hf := (atEnd_connected hc hcip).1 hat
    rcases linkObs_construct L k C.txNonce [0x88]
      (.inl rfl : Party.At c .client) with ⟨pkt, hpk, hfit, ho⟩ | ⟨x, hx, ho⟩
    · simp only [hpk]
      refine ⟨_, (atEnd_connected (by exact hc) rfl).2 rfl, ?_⟩
      rw [hf, linkObs_append, ho]
      refine .single (.build hfit fun h => ⟨(hs h).outstanding, ?_⟩)
      simp [RawClient.outstanding, (hs h).tasks, (hs h).sendLoop, SendLoop.held, Closing.held]
    · simp only [hx]
      exact clientGoes_same L hat ho

/-- **The client refines its end**: a step of the client is a run of the end. -/
theorem client_link {a : RawClient.Act} {o : RawClient.After K} (hat : C.AtEnd f)
    (ho : C.step L a = some o) (hs : sequential → C.Sequential a)
    (hv : verified → C.replyRejected L a = false) : ClientGoes L sequential verified c f o := by
  cases a with
  | connect relogUuid =>
    simp only [RawClient.step] at ho
    split_ifs at ho with hc
    simp only [RawClient.AtEnd, not_not.1 hc] at hat
    obtain ⟨hr, htx, hrx, rfl⟩ := hat
    cases ho
    exact clientGoes_same L ⟨⟨hr.tasks, hr.sendLoop, hr.closing⟩, htx, hrx, rfl⟩ rfl
  | resume i => exact connectStep_goes L hat hv ho
  | sendLoop i =>
    simp only [RawClient.step] at ho
    split_ifs at ho with hc
    exact sendLoopStep_goes L hc hat ho
  | recvLoop i =>
    simp only [RawClient.step] at ho
    split_ifs at ho with hc
    exact recvLoopStep_goes L hc hat ho
  | call call =>
    simp only [RawClient.step] at ho
    split_ifs at ho with hc
    cases ho
    exact send_goes L hc hat hs
  | receive n =>
    simp only [RawClient.step] at ho
    split at ho
    · cases ho
      exact clientGoes_same L (atEnd_congr hat rfl rfl rfl rfl (fun h => ⟨h.1, h.2, h.3⟩) rfl) rfl
    · cases ho
  | timeout n =>
    simp only [RawClient.step] at ho
    split at ho
    · cases ho
      exact clientGoes_same L (atEnd_congr hat rfl rfl rfl rfl (fun h => ⟨h.1, h.2, h.3⟩) rfl) rfl
    · cases ho
  | close =>
    simp only [RawClient.step] at ho
    split_ifs at ho with hc
    cases ho
    exact close_goes L hc hat hs
  | closing i =>
    simp only [RawClient.step, RawClient.closeStep] at ho
    split at ho
    · rename_i hcl
      cases ho
      rcases hc : C.connection with _ | _ | _ | _ | _ | _ | _ | _ | e
      case connected =>
        exact ⟨.closed, (atEnd_closed rfl rfl).2 rfl, .single .close⟩
      case failed =>
        simp only [RawClient.AtEnd, hc] at hat
        subst hat
        exact clientGoes_same L (by simp only [RawClient.AtEnd]) rfl
      all_goals
        simp only [RawClient.AtEnd, hc] at hat
        rw [hat.1.closing] at hcl
        cases hcl
    · rename_i e hcl
      cases ho
      rcases hc : C.connection with _ | _ | _ | _ | _ | _ | _ | _ | e
      case connected =>
        refine quiet_goes L hc hat rfl rfl rfl rfl (.inl ⟨rfl, .inr ?_⟩)
        cases C.sendLoop <;> rfl
      case failed =>
        simp only [RawClient.AtEnd, hc] at hat
        subst hat
        exact clientGoes_same L (by simp only [RawClient.AtEnd]) rfl
      all_goals
        simp only [RawClient.AtEnd, hc] at hat
        rw [hat.1.closing] at hcl
        cases hcl
    · cases ho

theorem atEnd_init (peer : String) (password : Bytes) :
    (RawClient.init peer password : RawClient K).AtEnd .start :=
  ⟨⟨rfl, rfl, rfl⟩, rfl, rfl, rfl⟩

end Pipebomb
