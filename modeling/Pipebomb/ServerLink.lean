/-
  The server refines its end of a connection.

  * `Task.AtEnd` says at which state of `ServerEnd` the coroutine of a connection stands:
    the counters and the key of the handshake, later those of the session.
  * `handlerStep_goes`, `acceptStep_goes`: a step of the coroutine is a run of `ServerStep`
    with the observations it emits.
  * `OneHandler`: no step makes a second coroutine for the session of the connection, so there
    is none (`step_sole`).
  * `Alone`: nor does an administrative call make or remove the session.  In such runs the
    steps of the others leave the end where it is (`server_link`).
-/
import Pipebomb.Link
import Pipebomb.Moves
import Pipebomb.Trace

namespace Pipebomb

open ByteString

variable {K : Type} (L : Libs K)

/-! ## Where the coroutine stands -/

/-- The link of the session: its key and its counters. -/
def Server.Linked (s : Server K) (u : PyStr) (k : K) (tx rx : ℕ) : Prop :=
  ∃ cl, s.client u = some cl ∧ cl.cipher = some k ∧ cl.txNonce = tx ∧ cl.rxNonce = rx

/-- The state of the server's end at an await of `handle_client`. -/
def Await.stage (k : K) (n : ℕ) : Await → ServerEnd K
  | .start | .sleep | .recv | .sendall _ .frameError => .idle k n
  | .dbLock _ | .inboxGet _ | .outboxPut _ _ | .outboxGet _ _ => .busy k n
  | .sendall _ .next => .sending k n
  | .sendall _ .close => .closing k n

/-- How far `rx_nonce` is ahead of `tx_nonce` at an await. -/
def Await.ahead : Await → ℕ
  | .start | .sleep | .recv | .sendall _ .frameError => 0
  | _ => 1

/-- The coroutine of a connection stands at a state of the server's end. -/
def Task.AtEnd (s : Server K) (e : ServerEnd K) : Task (Accepting K) → Prop
  | .idle | .accept (.publicKey _) | .accept (.sendPublic _) => e = .start
  | .accept (.password l _) => l.txNonce = 0 ∧ l.rxNonce = 0 ∧ e = .idle l.cipher 0
  | .accept (.sendAck l) => l.txNonce = 1 ∧ l.rxNonce = 1 ∧ e = .sending l.cipher 0
  | .accept (.login l _) => l.txNonce = 1 ∧ l.rxNonce = 1 ∧ e = .idle l.cipher 1
  | .accept (.sendUnknown l) => l.txNonce = 1 ∧ l.rxNonce = 2 ∧ e = .sending l.cipher 1
  | .accept (.sendLogin l u r) => l.txNonce = 1 ∧ l.rxNonce = 2 ∧ e = .sending l.cipher 1 ∧
      s.clientDb.get? u = some r ∧ (s.objs r).cipher = some l.cipher
  | .handler h => ∃ k n, s.Linked h.uuid k n (n + h.pc.ahead) ∧ e = h.pc.stage k n
  | .over _ => e = .over

variable {s s' : Server K} {u : PyStr} {k : K} {n tx rx : ℕ} {r : Ref} {c : ConnId}
  {e : ServerEnd K}

theorem Server.Linked.quiet (h : s.Linked u k tx rx) (hq : Quiet s s') : s'.Linked u k tx rx := by
  obtain ⟨cl, hcl, hk, ht, hr⟩ := h
  obtain ⟨r, hu, rfl⟩ := Server.client_eq_some.1 hcl
  have hl := hq.link r
  exact ⟨s'.objs r, Server.client_eq_some.2 ⟨r, (hq.get? u).trans hu, rfl⟩, hl.cipher.trans hk,
    hl.txNonce.trans ht, hl.rxNonce.trans hr⟩

/-- A change of the session's object. -/
theorem Server.Linked.modify (h : s.Linked u k tx rx) (hu : s.clientDb.get? u = some r)
    {f : Client K → Client K} (hk : ∀ cl, (f cl).cipher = cl.cipher) {tx' rx' : ℕ}
    (ht : ∀ cl, cl.txNonce = tx → (f cl).txNonce = tx')
    (hr : ∀ cl, cl.rxNonce = rx → (f cl).rxNonce = rx') : (s.modify r f).Linked u k tx' rx' := by
  obtain ⟨cl, hcl, hk', ht', hr'⟩ := h
  obtain ⟨r', hu', rfl⟩ := Server.client_eq_some.1 hcl
  obtain rfl : r = r' := by rw [hu] at hu'; exact Option.some.inj hu'
  refine ⟨f (s.objs r), Server.client_eq_some.2 ⟨r, hu, ?_⟩, (hk _).trans hk', ht _ ht', hr _ hr'⟩
  rw [Server.modify_objs, if_pos rfl]

/-! ## Runs of the end -/

/-- The step of a coroutine is a run of the server's end. -/
def Goes (c : ConnId) (e : ServerEnd K) (o : Outcome K (Accepting K)) : Prop :=
  ∃ e', o.2.1.AtEnd o.1 e' ∧ Lts.Run (ServerStep L c) e e' (linkObs L c o.2.2)

theorem goes_over {os : List (Obs K)} {x : Option PyErr} (h : linkObs L c os = []) :
    Goes L c e (s, .over x, os) := by
  refine ⟨.over, rfl, ?_⟩
  rw [h]
  exact .single .die

/-- A step that emits nothing about the link and stays at the same state. -/
theorem goes_same {os : List (Obs K)} {t : Task (Accepting K)} (ht : t.AtEnd s e)
    (h : linkObs L c os = []) : Goes L c e (s, t, os) := by
  refine ⟨e, ht, ?_⟩
  rw [h]
  exact .nil

theorem Goes.seen (e' : ServerEnd K) {os : List (Obs K)} {o : Outcome K (Accepting K)}
    (hr : Lts.Run (ServerStep L c) e e' (linkObs L c os)) (h : Goes L c e' o) :
    Goes L c e (seen os o) := by
  obtain ⟨e'', ht, hr'⟩ := h
  refine ⟨e'', ht, ?_⟩
  rw [seen_obs, linkObs_append]
  exact hr.trans hr'

/-- The observations of a call of `encrypt` that is followed by a packet, or not. -/
theorem linkObs_encryptCall {data : Bytes} {p : Party} (hp : p.At c) :
    linkObs L c (encryptCall p data (some k) n) =
      if data ≠ [] ∧ n < 2 ^ 96 ∧ Fits L data then [.encrypt p k n data] else [] := by
  by_cases h : data ≠ [] ∧ n < 2 ^ 96
  · by_cases hf : Fits L data
    · simp [encryptCall, linkObs, Obs.onLink, h, hf, hp]
    · simp [encryptCall, linkObs, Obs.onLink, h, hf]
  · have h' : ¬ (data ≠ [] ∧ n < 2 ^ 96 ∧ Fits L data) := fun h' => h ⟨h'.1, h'.2.1⟩
    rw [if_neg h', encryptCall, if_neg h]
    rfl

/-- The observations of building a packet. -/
theorem linkObs_construct (k : K) (n : ℕ) (data : Bytes) {p : Party} (hp : p.At c) :
    (∃ pkt, constructPacket L data (some k) n = .ok pkt ∧ Fits L data ∧
      linkObs L c (encryptCall p data (some k) n) = [.encrypt p k n data]) ∨
    ∃ x, constructPacket L data (some k) n = .error x ∧
      linkObs L c (encryptCall p data (some k) n) = [] := by
  rw [linkObs_encryptCall L hp]
  rcases hc : constructPacket L data (some k) n with x | pkt
  · refine .inr ⟨x, rfl, if_neg ?_⟩
    rintro ⟨hd, hn, hf⟩
    rw [constructPacket_eq L hd hf hn] at hc
    cases hc
  · obtain ⟨hd, hn, hf, -⟩ := (constructPacket_ok L).1 hc
    exact .inl ⟨pkt, rfl, hf, if_pos ⟨hd, hn, hf⟩⟩

/-- The observations of a decryption. -/
theorem linkObs_decryptCall (k : K) (n : ℕ) (packet : Bytes) {p : Party} (hp : p.At c) :
    ∃ cts : List Bytes, linkObs L c (decryptCall p packet (some k) n) =
      cts.map (.decrypt p k n) := by
  rcases hct : ciphertextOf packet with _ | ct
  · exact ⟨[], by simp [decryptCall, hct, linkObs]⟩
  · by_cases hn : n < 2 ^ 96
    · exact ⟨[ct], by rw [decryptCall_eq hct, if_pos hn]; simp [linkObs, Obs.onLink, hp]⟩
    · exact ⟨[], by rw [decryptCall_eq hct, if_neg hn]; rfl⟩

/-- The call of `decrypt` for a packet that verifies. -/
theorem decryptCall_verify {packet data : Bytes} {cipher : Option K} {rem : Option Bytes}
    (p : Party) (h : verifyPacket L packet cipher n = .ok (.payload data rem)) :
    ∃ k ct plaintext, cipher = some k ∧ decryptCall p packet cipher n = [.decrypt p k n ct] ∧
      L.decrypt k (leBytes 12 n) ct = some plaintext ∧ ct.length < 2 ^ 32 ∧
      openPlaintext L plaintext = .ok data := by
  obtain ⟨hn, k, ct, plaintext, rfl, hct, hd, ho⟩ := verifyPacket_payload L h
  exact ⟨k, ct, plaintext, rfl, by rw [decryptCall_eq hct, if_pos hn], hd, length_ciphertextOf hct, ho⟩

/-- The observations of a packet that verifies. -/
theorem linkObs_verify {packet data : Bytes} {rem : Option Bytes} {p : Party} (hp : p.At c)
    (h : verifyPacket L packet (some k) n = .ok (.payload data rem)) :
    ∃ ct plaintext, ct.length < 2 ^ 32 ∧ L.decrypt k (leBytes 12 n) ct = some plaintext ∧
      openPlaintext L plaintext = .ok data ∧
      linkObs L c (decryptCall p packet (some k) n ++ [.accepted p data]) =
        [.decrypt p k n ct, .accepted p data] := by
  obtain ⟨k', ct, plaintext, hk, hcall, hd, hl, ho⟩ := decryptCall_verify L p h
  cases hk
  refine ⟨ct, plaintext, hl, hd, ho, ?_⟩
  simp [hcall, linkObs, Obs.onLink, hp]

/-! ## The handler -/

section
variable {h : Handler} {held : Held} {after : After}

theorem raised_goes {x : PyErr} : Goes L c e (raised s held x) := goes_over L rfl

/-- A reply to a session with key `k`, from the state `e` before the packet is built. -/
theorem sendPacket_goes {reply : Bytes} (hl : s.Linked h.uuid k n (n + 1))
    (ha : after ≠ .frameError)
    (hstep : Fits L reply → ServerStep L c e ((Await.sendall held after).stage k n)
      [.encrypt (.server c) k n reply]) : Goes L c e (sendPacket L s c h reply held after) := by
  obtain ⟨cl, hcl, hk, rfl, hrx⟩ := hl
  unfold sendPacket
  rw [hcl]
  simp only [hk]
  rcases linkObs_construct L k cl.txNonce reply (.inr rfl : Party.At c (.server c))
    with ⟨pkt, hp, hf, ho⟩ | ⟨x, hx, ho⟩
  · refine .seen L _ (by rw [ho]; exact .single (hstep hf)) ?_
    rw [hp]
    refine goes_same L ⟨k, cl.txNonce, ⟨cl, hcl, hk, rfl, ?_⟩, rfl⟩ ?_
    · cases after with
      | frameError => exact absurd rfl ha
      | next => exact hrx
      | close => exact hrx
    · by_cases hn : after = .next
      · simp [hn, linkObs, Obs.onLink]
      · simp [hn, linkObs, Obs.onLink]
  · refine .seen L _ (by rw [ho]; exact .nil) ?_
    rw [hx]
    exact raised_goes L

theorem sendReply_goes {reply : Except PyErr Bytes} (hl : s.Linked h.uuid k n (n + 1))
    (ha : after ≠ .frameError)
    (hstep : ∀ data, Fits L data → ServerStep L c e ((Await.sendall held after).stage k n)
      [.encrypt (.server c) k n data]) : Goes L c e (sendReply L s c h reply held after) := by
  cases reply with
  | error x => exact raised_goes L
  | ok data => exact sendPacket_goes L hl ha (hstep data)

/-- The reply to a packet that was accepted. -/
theorem sendReply_next {reply : Except PyErr Bytes} (hl : s.Linked h.uuid k n (n + 1)) :
    Goes L c (.busy k n) (sendReply L s c h reply held .next) :=
  sendReply_goes L hl (by simp) fun _ => .reply

/-- The awaits of a command. -/
def Await.Waits : Await → Prop
  | .dbLock _ | .inboxGet _ | .outboxPut _ _ | .outboxGet _ _ => True
  | _ => False

theorem Await.Waits.stage {pc : Await} (h : pc.Waits) (k : K) (n : ℕ) :
    pc.ahead = 1 ∧ pc.stage k n = .busy k n := by
  cases pc with
  | dbLock | inboxGet | outboxPut | outboxGet => exact ⟨rfl, rfl⟩
  | start | sleep | recv | sendall => cases h

/-- A command that waits waits for a lock or an item. -/
theorem dispatch_waits {data : Bytes} {draw : Uuid4} {pc : Await}
    (h : (dispatch s u data draw).2 = .wait pc) : pc.Waits := by
  obtain ⟨_, _, -, -, ⟨_, -, rfl⟩ | ⟨_, -, -, rfl⟩ | ⟨_, _, -, -, rfl⟩ | ⟨_, -, -, rfl⟩⟩ := dispatch_wait h
  · trivial
  · trivial
  · trivial
  · trivial

theorem proceed_goes {o : Server K × Next} (hl : o.1.Linked h.uuid k n (n + 1))
    (hw : ∀ pc, o.2 = .wait pc → pc.Waits) : Goes L c (.busy k n) (proceed L c h o) := by
  unfold proceed
  split
  · exact sendPacket_goes L hl (by simp) .reply
  · rename_i pc hpc
    obtain ⟨ha, hs⟩ := (hw pc hpc).stage k n
    exact goes_same L ⟨k, n, by simpa [ha] using hl, hs.symm⟩ rfl
  · exact raised_goes L
  · exact goes_over L rfl

theorem onFrame_goes {frame : Option Bytes} {draw : Uuid4} (hl : s.Linked h.uuid k n n) :
    Goes L c (.idle k n) (onFrame L s c h frame draw) := by
  obtain ⟨cl, hcl, hk, htx, hrx⟩ := hl
  obtain ⟨r, hu, rfl⟩ := Server.client_eq_some.1 hcl
  have hrec : (s.modify r Client.received).Linked h.uuid k n (n + 1) :=
    Server.Linked.modify (f := Client.received) ⟨_, hcl, hk, htx, hrx⟩ hu (fun _ => rfl)
      (fun _ h => h) fun _ h => congrArg (· + 1) h
  unfold onFrame
  rw [hu]
  cases frame with
  | none => exact raised_goes L
  | some f =>
    simp only [hk, hrx]
    have hserver : Party.At c (.server c) := .inr rfl
    obtain ⟨cts, hcts⟩ := linkObs_decryptCall L k n f hserver
    rcases hv : verifyPacket L f (some k) n with x | code | ⟨data, rem⟩
    · refine .seen L _ ?_ (raised_goes L (e := .failed k n))
      rw [hcts]
      exact .single (.reject cts)
    · refine .seen L (.failed k n) ?_ ?_
      · rw [hcts]
        exact .single (.reject cts)
      · exact sendReply_goes L hrec (by simp) fun _ => .refuse
    · obtain ⟨ct, plaintext, hct, hd, ho, hobs⟩ := linkObs_verify L hserver hv
      have hgoes : Goes L c (.busy k n) (proceed L c { h with data := data }
          (dispatch (s.modify r Client.received) h.uuid data draw)) :=
        proceed_goes L (hrec.quiet (dispatch_quiet _ _ _ _)) fun _ => dispatch_waits
      obtain ⟨e', hat, hrun⟩ := hgoes
      refine ⟨e', hat, ?_⟩
      simp only [seen_obs]
      rw [← List.append_assoc, linkObs_append, hobs]
      exact (Lts.Run.single (.accept hct hd ho)).trans hrun

theorem pump_goes {draw : Uuid4} (hl : s.Linked h.uuid k n n) :
    Goes L c (.idle k n) (pump L s c h draw) := by
  unfold pump
  split
  · split
    · exact raised_goes L
    · exact goes_same L ⟨k, n, hl, rfl⟩ rfl
  · exact onFrame_goes L (h := { h with receiveBuffer := _ }) hl
  · exact goes_same L ⟨k, n, hl, rfl⟩ rfl

/-- **A step of a handler is a run of the server's end.** -/
theorem handlerStep_goes {i : Input} {draw : Uuid4} {o : Outcome K (Accepting K)}
    (hat : (Task.handler h).AtEnd s e) (ho : handlerStep L s c h i draw = some o) :
    Goes L c e o := by
  obtain ⟨k, n, hl, rfl⟩ := hat
  obtain ⟨uuid, buffer, data, pc⟩ := h
  dsimp only [handlerStep] at ho hl ⊢
  split at ho
  · cases ho
    obtain ⟨cl, hcl, hk, -⟩ := id hl
    unfold started
    simp only [hcl, hk]
    exact goes_same L ⟨k, n, hl, rfl⟩ rfl
  · cases ho; exact pump_goes L hl
  · split_ifs at ho
    · cases ho; exact onFrame_goes L hl
    · cases ho; exact pump_goes L (h := ⟨uuid, _, data, _⟩) hl
  · split_ifs at ho
    cases ho
    have hlock : Quiet s (s.setDbLock true) := ⟨rfl, rfl, fun _ => .refl _⟩
    exact sendReply_next L (hl.quiet (hlock.trans (dbOp_quiet _ _ _)))
  · split at ho
    · cases ho
    · cases ho
      exact sendReply_next L (hl.quiet (.modify s _ _ (.setInbox _)))
  · split_ifs at ho
    cases ho
    exact sendPacket_goes L (hl.quiet (.modify s _ _ (.setOutbox _))) (by simp) .reply
  · rename_i r id
    split_ifs at ho
    have hlock := hl.quiet (.modify s r _ (.setOutboxLock true))
    split at ho
    · cases ho
      exact sendReply_next L hlock
    · cases ho
      exact sendReply_next L (hlock.quiet (.modify _ _ _ (.setOutbox _)))
  · cases ho
    rename_i held after
    obtain ⟨cl, hcl, hk, htx, hrx⟩ := id hl
    obtain ⟨r, hu, rfl⟩ := Server.client_eq_some.1 hcl
    cases after with
    | frameError => exact onFrame_goes L hl
    | next =>
      have hsent : (s.modify r Client.sent).Linked uuid k (n + 1) (n + 1) :=
        hl.modify (f := Client.sent) hu (fun _ => rfl) (fun _ h => congrArg (· + 1) h) fun _ h => h
      simp only [onSent, hu]
      refine ⟨.idle k (n + 1), ⟨k, n + 1, hsent.quiet (release_quiet _ _), rfl⟩, .single .sent⟩
    | close =>
      simp only [onSent, hu]
      exact goes_over L rfl
  · cases ho; exact raised_goes L
  · cases ho

end

/-! ## The handshake -/

section
variable {l : Locals K}

theorem logged_goes {x : PyErr} : Goes L c e (logged s x) := goes_over L rfl

theorem rejected_goes : Goes L c e (rejected s) := goes_over L rfl

theorem sendHandshake_goes (data : Bytes) {next : Accepting K} (hn : l.txNonce = n)
    (hnext : (Task.accept next).AtEnd s (.sending l.cipher n)) :
    Goes L c (.busy l.cipher n) (sendHandshake L s c l data next) := by
  subst hn
  unfold sendHandshake
  rcases linkObs_construct L l.cipher l.txNonce data
    (.inr rfl : Party.At c (.server c)) with ⟨pkt, hp, hf, ho⟩ | ⟨x, hx, ho⟩
  · refine .seen L _ (by rw [ho]; exact .single (.reply hf)) ?_
    rw [hp]
    exact goes_same L hnext rfl
  · refine .seen L _ (by rw [ho]; exact .nil) ?_
    rw [hx]
    exact logged_goes L

theorem onPassword_goes {frame : Bytes} (htx : l.txNonce = 0) (hrx : l.rxNonce = 0) :
    Goes L c (.idle l.cipher 0) (onPassword L s c l frame) := by
  unfold onPassword
  have hserver : Party.At c (.server c) := .inr rfl
  obtain ⟨cts, hcts⟩ := linkObs_decryptCall L l.cipher 0 frame hserver
  rw [hrx]
  rcases hv : verifyPacket L frame (some l.cipher) 0 with x | code | ⟨data, rem⟩
  · refine .seen L _ ?_ (logged_goes L (e := .failed l.cipher 0))
    rw [hcts]
    exact .single (.reject cts)
  · refine .seen L _ ?_ (rejected_goes L (e := .failed l.cipher 0))
    rw [hcts]
    exact .single (.reject cts)
  · simp only
    split_ifs with hp
    · refine .seen L _ ?_ (rejected_goes L (e := .failed l.cipher 0))
      rw [hcts]
      exact .single (.reject cts)
    · obtain ⟨ct, plaintext, hct, hd, ho, hobs⟩ := linkObs_verify L hserver hv
      have hnext : (Task.accept (.sendAck { l with rxNonce := 0 + 1, txNonce := l.txNonce + 1 })).AtEnd
          s (.sending l.cipher 0) := ⟨by simp [htx], rfl, rfl⟩
      obtain ⟨e', hat, hrun⟩ := sendHandshake_goes L (c := c) (l := { l with rxNonce := 0 + 1 })
        ACK htx hnext
      refine ⟨e', hat, ?_⟩
      simp only [seen_obs]
      rw [← List.append_assoc, linkObs_append, hobs]
      exact (Lts.Run.single (.accept hct hd ho)).trans hrun

theorem onLogin_goes {frame : Bytes} {draw : Uuid4} (htx : l.txNonce = 1) (hrx : l.rxNonce = 1) :
    Goes L c (.idle l.cipher 1) (onLogin L s c l frame draw) := by
  unfold onLogin
  have hserver : Party.At c (.server c) := .inr rfl
  obtain ⟨cts, hcts⟩ := linkObs_decryptCall L l.cipher 1 frame hserver
  rw [hrx]
  rcases hv : verifyPacket L frame (some l.cipher) 1 with x | code | ⟨response, rem⟩
  · refine .seen L _ ?_ (logged_goes L (e := .failed l.cipher 1))
    rw [hcts]
    exact .single (.reject cts)
  · refine .seen L _ ?_ (rejected_goes L (e := .failed l.cipher 1))
    rw [hcts]
    exact .single (.reject cts)
  · obtain ⟨ct, plaintext, hct, hd, ho, hobs⟩ := linkObs_verify L hserver hv
    suffices hgoes : ∀ o, Goes L c (.busy l.cipher 1) o → Goes L c (.idle l.cipher 1)
        (seen (decryptCall (.server c) frame (some l.cipher) 1)
          (seen [.accepted (.server c) response] o)) by
      refine hgoes _ ?_
      split
      · exact logged_goes L
      · simp only
        split_ifs
        · split
          · split
            · exact logged_goes L
            · exact sendHandshake_goes L _ htx ⟨htx, rfl, rfl⟩
          · rename_i r hu
            refine .seen L _ (.nil) (sendHandshake_goes L _ htx ⟨htx, rfl, rfl, hu, ?_⟩)
            rw [Server.modify_objs, if_pos rfl]
            rfl
        · refine .seen L _ (.nil) (sendHandshake_goes L _ htx ⟨htx, rfl, rfl, ?_, ?_⟩)
          · rw [Server.addSession_clientDb, Dict.get?_set, if_pos rfl]
          · rw [Server.addSession_objs_fresh]
            rfl
        · exact rejected_goes L
    rintro o ⟨e', hat, hrun⟩
    refine ⟨e', hat, ?_⟩
    simp only [seen_obs]
    rw [← List.append_assoc, linkObs_append, hobs]
    exact (Lts.Run.single (.accept hct hd ho)).trans hrun

theorem onChunk_goes {buffer chunk : Bytes} {waiting : Bytes → Accepting K}
    {frame : Bytes → Outcome K (Accepting K)} (hw : ∀ b, (Task.accept (waiting b)).AtEnd s e)
    (h : ∀ f, Goes L c e (frame f)) : Goes L c e (onChunk s buffer chunk waiting frame) := by
  unfold onChunk
  split_ifs
  · exact logged_goes L
  · split
    · exact logged_goes L
    · exact h _
    · exact goes_same L (hw _) rfl

/-- The counters are stored in the session's object. -/
theorem finish_goes {r : Ref} (hu : s.clientDb.get? u = some r)
    (hk : (s.objs r).cipher = some l.cipher) (htx : l.txNonce = n + 1) (hrx : l.rxNonce = n + 1) :
    Goes L c (.sending l.cipher n) (finish s u l r) := by
  refine ⟨.idle l.cipher (n + 1), ⟨l.cipher, n + 1, ?_, rfl⟩, .single .sent⟩
  refine ⟨_, Server.client_eq_some.2 ⟨r, hu, rfl⟩, ?_⟩
  simp only [finish, Server.modify_objs, if_pos]
  exact ⟨hk, htx, hrx⟩

/-- **A step of a handshake is a run of the server's end.** -/
theorem acceptStep_goes {a : Accepting K} {i : Input} {draw : Uuid4}
    {o : Outcome K (Accepting K)} (hat : (Task.accept a).AtEnd s e)
    (ho : acceptStep L s c a i draw = some o) : Goes L c e o := by
  unfold acceptStep at ho
  split at ho
  · obtain rfl := hat
    split_ifs at ho <;> cases ho
    · exact rejected_goes L
    · exact goes_same L rfl rfl
    · exact goes_same L rfl rfl
  · obtain rfl := hat
    split at ho <;> cases ho
    · exact logged_goes L
    · rename_i k _
      exact ⟨.idle k 0, ⟨rfl, rfl, rfl⟩, .single (.key k)⟩
  · obtain ⟨htx, hrx, rfl⟩ := hat
    split_ifs at ho
    cases ho
    exact onChunk_goes L (fun _ => ⟨htx, hrx, rfl⟩) fun f => onPassword_goes L htx hrx
  · obtain ⟨htx, hrx, rfl⟩ := hat
    cases ho
    exact ⟨_, ⟨htx, hrx, rfl⟩, .single .sent⟩
  · obtain ⟨htx, hrx, rfl⟩ := hat
    split_ifs at ho
    cases ho
    exact onChunk_goes L (fun _ => ⟨htx, hrx, rfl⟩) fun f => onLogin_goes L htx hrx
  · obtain ⟨htx, hrx, rfl⟩ := hat
    rename_i l
    cases ho
    refine .seen L _ .nil (finish_goes L (l := { l with txNonce := l.txNonce + 1 }) ?_ ?_ ?_ hrx)
    · rw [Server.addSession_clientDb, Dict.get?_set, if_pos rfl]
    · rw [Server.addSession_objs_fresh]
      rfl
    · exact congrArg (· + 1) htx
  · obtain ⟨htx, hrx, rfl, hu, hk⟩ := hat
    rename_i l u r
    cases ho
    exact finish_goes L (l := { l with txNonce := l.txNonce + 1 }) hu hk (congrArg (· + 1) htx) hrx
  · cases ho; exact logged_goes L
  · cases ho

end

/-- **A step of the coroutine of a connection is a run of the server's end.** -/
theorem taskStep_goes {t : Task (Accepting K)} {i : Input} {draw : Uuid4}
    {o : Outcome K (Accepting K)} (hat : t.AtEnd s e) (ho : taskStep L s c t i draw = some o) :
    Goes L c e o := by
  cases t with
  | idle => cases ho
  | «over» x => cases ho
  | accept a => exact acceptStep_goes L hat ho
  | handler h => exact handlerStep_goes L hat ho

/-! ## The other coroutines -/

/-- A step that touches other sessions leaves the end where it is. -/
theorem Frame.atEnd {P : PyStr → Prop} (hf : Frame P s s') (hw : s.WfRefs)
    {t : Task (Accepting K)} (hP : ∀ u, t.uses = some u → ¬ P u) (hat : t.AtEnd s e) :
    t.AtEnd s' e := by
  have hlink : ∀ {u r}, t.uses = some u → s.clientDb.get? u = some r →
      s'.clientDb.get? u = some r ∧ SameLink (s.objs r) (s'.objs r) := by
    intro u r hu hr
    obtain ⟨hlt, hid⟩ := hw u r hr
    exact ⟨(hf.sessions u (hP u hu)).trans hr, hf.link r hlt (by rw [hid]; exact hP u hu)⟩
  cases t with
  | idle => exact hat
  | «over» x => exact hat
  | accept a =>
    cases a with
    | sendLogin l u r =>
      obtain ⟨htx, hrx, he, hu, hk⟩ := hat
      obtain ⟨hu', hl⟩ := hlink rfl hu
      exact ⟨htx, hrx, he, hu', hl.cipher.trans hk⟩
    | _ => exact hat
  | handler h =>
    obtain ⟨k, n, ⟨cl, hcl, hk, htx, hrx⟩, he⟩ := hat
    obtain ⟨r, hu, rfl⟩ := Server.client_eq_some.1 hcl
    obtain ⟨hu', hl⟩ := hlink rfl hu
    exact ⟨k, n, ⟨_, Server.client_eq_some.2 ⟨r, hu', rfl⟩, hl.cipher.trans hk,
      hl.txNonce.trans htx, hl.rxNonce.trans hrx⟩, he⟩

/-- What is seen of another coroutine is not about the connection. -/
theorem AllBy.linkObs {c' : ConnId} {uses : Option PyStr} {os : List (Obs K)}
    (h : AllBy c' uses os) (hc : c' ≠ c) : linkObs L c os = [] := by
  rw [Pipebomb.linkObs, List.filter_eq_nil_iff]
  intro x hx
  have hby := h x hx
  have hne : ¬ Party.At c (.server c' : Party) := by
    rintro (h | h)
    · cases h
    · exact hc (Party.server.inj h)
  cases x with
  | encrypt p k n data =>
    obtain rfl : p = .server c' := hby
    simp [Obs.onLink, hne]
  | decrypt p k n ct =>
    obtain rfl : p = .server c' := hby
    simp [Obs.onLink, hne]
  | accepted p data =>
    obtain rfl : p = .server c' := hby
    simp [Obs.onLink, hne]
  | _ => simp [Obs.onLink]

/-- **The session is not shared.**  New sessions have fresh uuids; nobody else logs in to
    the session of the connection, and it logs in to a session nobody works for; no
    administrative call makes or removes its session. -/
def Sys.Alone (c : ConnId) (S : Sys K) (a : Act) (o : List (Obs K)) : Prop :=
  (∀ c' u, .session c' u ∈ o → S.Fresh u) ∧
    (∀ u, .relogin c u ∈ o → ∀ c', (S.tasks c').uses ≠ some u) ∧
    (∀ c' u, c' ≠ c → .relogin c' u ∈ o → (S.tasks c).uses ≠ some u) ∧
    ∀ op, a = .admin op → ∀ u, op.Names u → (S.tasks c).uses ≠ some u

/-- **One coroutine for each session.**  New sessions have fresh uuids; nobody else logs in to
    the session of the connection, and it logs in to a session nobody works for. -/
def Sys.OneHandler (c : ConnId) (S : Sys K) (o : List (Obs K)) : Prop :=
  (∀ c' u, .session c' u ∈ o → S.Fresh u) ∧
    (∀ u, .relogin c u ∈ o → ∀ c', (S.tasks c').uses ≠ some u) ∧
    ∀ c' u, c' ≠ c → .relogin c' u ∈ o → (S.tasks c).uses ≠ some u

theorem Sys.Alone.oneHandler {S : Sys K} {a : Act} {o : List (Obs K)} (h : S.Alone c a o) :
    S.OneHandler c o := ⟨h.1, h.2.1, h.2.2.1⟩

/-- No other coroutine works for the session of the connection. -/
def Sys.Sole (c : ConnId) (S : Sys K) : Prop :=
  ∀ c' u, c' ≠ c → (S.tasks c).uses = some u → (S.tasks c').uses ≠ some u

theorem sole_init (c : ConnId) (password : Bytes) (keep : Bool) :
    (Sys.init password keep : Sys K).Sole c := by
  intro c' u _ h
  cases h

/-- What a step that names a session leaves to the others. -/
theorem named_ne {S : Sys K} {c' : ConnId} (hc : c' ≠ c) {i : Input} {draw : Uuid4}
    {s : Server K} {t : Task (Accepting K)} {o : List (Obs K)}
    (hstep : taskStep L S.server c' (S.tasks c') i draw = some (s, t, o))
    (hg : S.OneHandler c o) {u : PyStr} (hn : Named o u) : (S.tasks c).uses ≠ some u := by
  obtain ⟨c'', hm | hm⟩ := hn
  · exact (hg.1 c'' u hm).2 c
  · obtain ⟨rfl, -⟩ := taskStep_obs L hstep _ hm
    exact hg.2.2 c'' u hc hm

/-- **It stays so.** -/
theorem step_sole {S S' : Sys K} (hw : S.server.WfRefs) (hS : S.Sole c) {a : Act}
    {o : List (Obs K)} (hstep : S.step L a = some (S', o)) (hg : S.OneHandler c o) : S'.Sole c := by
  rcases step_cases L hstep with ⟨c', rfl, hidle, rfl, rfl⟩ | ⟨c', i, draw, s, t, rfl, ht, rfl⟩ |
    ⟨op, rfl, rfl, rfl⟩
  · intro c'' u hc hu
    by_cases hc' : c'' = c'
    · subst hc'; rw [put_tasks_self]; simp [Task.uses]
    · rw [put_tasks_ne hc']
      refine hS c'' u hc ?_
      by_cases hcc : c = c'
      · subst hcc; rw [put_tasks_self] at hu; cases hu
      · rwa [put_tasks_ne hcc] at hu
  · obtain ⟨-, huses⟩ := taskStep_enters L hw ht
    by_cases hc : c' = c
    · subst hc
      intro c'' u hne hu
      rw [put_tasks_self] at hu
      rw [put_tasks_ne hne]
      rcases huses u hu with h | h | h
      · exact hS c'' u hne h
      · exact (hg.1 c' u h).2 c''
      · exact hg.2.1 u h c''
    · have hnamed : ∀ u, Named o u → (S.tasks c).uses ≠ some u := fun u => named_ne L hc ht hg
      intro c'' u hne hu
      rw [put_tasks_ne (Ne.symm hc)] at hu
      by_cases hc'' : c'' = c'
      · subst hc''
        rw [put_tasks_self]
        intro hu'
        rcases huses u hu' with h | h | h
        · exact hS c'' u hne hu h
        · exact hnamed u ⟨_, .inl h⟩ hu
        · exact hnamed u ⟨_, .inr h⟩ hu
      · rw [put_tasks_ne hc'']; exact hS c'' u hne hu
  · exact hS

/-- The invariant of the server's side of a connection. -/
structure ServerSide (c : ConnId) (S : Sys K) (e : ServerEnd K) : Prop where
  refs : S.server.WfRefs
  tasks : ∀ c', (S.tasks c').Wf S.server
  alone : ∀ c' u, c' ≠ c → (S.tasks c).uses = some u → (S.tasks c').uses ≠ some u
  atEnd : (S.tasks c).AtEnd S.server e

theorem serverSide_init (c : ConnId) (password : Bytes) (keep : Bool) :
    ServerSide c (Sys.init password keep : Sys K) .start :=
  ⟨Server.wfRefs_init _ _, fun _ => trivial, fun _ _ _ h => (by cases h), rfl⟩

/-- The coroutine of the connection goes on. -/
theorem resume_self {S : Sys K} (hI : ServerSide c S e) {i : Input} {draw : Uuid4}
    {s : Server K} {t : Task (Accepting K)} {o : List (Obs K)}
    (hstep : taskStep L S.server c (S.tasks c) i draw = some (s, t, o))
    (hsole : (S.put c s t).Sole c) :
    ∃ e', ServerSide c (S.put c s t) e' ∧ Lts.Run (ServerStep L c) e e' (linkObs L c o) := by
  have hframe : Frame (fun _ => True) S.server s :=
    taskStep_frame L hI.refs (hI.tasks c) hstep (fun _ _ => trivial) fun _ _ => trivial
  obtain ⟨hwf, -⟩ := taskStep_enters L hI.refs hstep
  obtain ⟨e', hat, hrun⟩ := taskStep_goes L hI.atEnd hstep
  refine ⟨e', ⟨hframe.wfRefs hI.refs, fun c' => ?_, hsole, ?_⟩, hrun⟩
  · by_cases hc : c' = c
    · subst hc; rw [put_tasks_self]; exact hwf
    · rw [put_tasks_ne hc]; exact hframe.taskWf (hI.tasks c')
  · rw [put_tasks_self]; exact hat

/-- The coroutine of another connection goes on. -/
theorem resume_other {S : Sys K} (hI : ServerSide c S e) {c' : ConnId} (hc : c' ≠ c) {i : Input}
    {draw : Uuid4} {s : Server K} {t : Task (Accepting K)} {o : List (Obs K)}
    (hstep : taskStep L S.server c' (S.tasks c') i draw = some (s, t, o))
    (hg : S.OneHandler c o) (hsole : (S.put c' s t).Sole c) :
    ServerSide c (S.put c' s t) e ∧ linkObs L c o = [] := by
  have hframe : Frame (fun u => (S.tasks c).uses ≠ some u) S.server s :=
    taskStep_frame L hI.refs (hI.tasks c') hstep
      (fun u hu hu' => hI.alone c' u hc hu' hu) fun u => named_ne L hc hstep hg
  obtain ⟨hwf, -⟩ := taskStep_enters L hI.refs hstep
  refine ⟨⟨hframe.wfRefs hI.refs, fun c'' => ?_, hsole, ?_⟩,
    (taskStep_obs L hstep).linkObs L hc⟩
  · by_cases hc' : c'' = c'
    · subst hc'; rw [put_tasks_self]; exact hwf
    · rw [put_tasks_ne hc']; exact hframe.taskWf (hI.tasks c'')
  · rw [put_tasks_ne hc.symm]
    exact hframe.atEnd hI.refs (fun u hu hn => hn hu) hI.atEnd

/-- **The server refines its end**: a step of the server is a run of the end. -/
theorem server_link {S S' : Sys K} (hI : ServerSide c S e) {a : Act} {o : List (Obs K)}
    (hstep : S.step L a = some (S', o)) (hg : S.Alone c a o) :
    ∃ e', ServerSide c S' e' ∧ Lts.Run (ServerStep L c) e e' (linkObs L c o) := by
  have hsole := step_sole L hI.refs hI.alone hstep hg.oneHandler
  rcases step_cases L hstep with ⟨c', rfl, hidle, rfl, rfl⟩ | ⟨c', i, draw, s, t, rfl, ht, rfl⟩ |
    ⟨op, rfl, rfl, rfl⟩
  · refine ⟨e, ⟨hI.refs, fun c'' => ?_, hsole, ?_⟩, .nil⟩
    · by_cases hc : c'' = c'
      · subst hc; rw [put_tasks_self]; trivial
      · rw [put_tasks_ne hc]; exact hI.tasks c''
    · have hat := hI.atEnd
      by_cases hcc : c = c'
      · subst hcc
        rw [hidle] at hat
        rw [put_tasks_self]
        exact hat
      · rw [put_tasks_ne hcc]; exact hat
  · by_cases hc : c' = c
    · subst hc
      exact resume_self L hI ht hsole
    · obtain ⟨hS, ho⟩ := resume_other L hI hc ht hg.oneHandler hsole
      refine ⟨e, hS, ?_⟩
      rw [ho]
      exact .nil
  · have hframe := admin_frame S.server op
    exact ⟨e, ⟨hframe.wfRefs hI.refs, fun c' => hframe.taskWf (hI.tasks c'), hsole,
      hframe.atEnd hI.refs (fun u hu hn => hg.2.2.2 op rfl u hn hu) hI.atEnd⟩, .nil⟩

end Pipebomb
