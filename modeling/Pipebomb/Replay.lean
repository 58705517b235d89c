/-
  What the ends of a connection accept when an attacker controls the network.

  The attacker decides which chunks arrive and what the other connections do; the cipher is
  ideal for the connection.

  * `net_link`: a run of client and server is a run of the two ends.
  * `replay_protection`: the payloads the server accepts on the connection are the first
    ones its client sealed, in order.
  * `reply_authenticity`: the payloads the client accepts are the first ones the server
    sealed on the connection, if no packet of the client is handed to the client and the
    reply to the login verifies.  `reply_reflected` is a run in which the attacker sends
    packets of the client back.
-/
import Pipebomb.ClientLink
import Pipebomb.Sessions

namespace Pipebomb

open ByteString

variable {K : Type} (L : Libs K)

namespace Net

/-- The session of the connection is not shared. -/
def Alone (c : ConnId) (N : Net K) (a : Act) (o : List (Obs K)) : Prop :=
  ∀ b, a = .server b → N.sys.Alone c b o

/-- The client calls operations when nothing is outstanding. -/
def Sequential (N : Net K) : Act → Prop
  | .client b => N.client.Sequential b
  | .server _ => True

/-- The reply to the client's login verifies. -/
def ReplyVerifies (N : Net K) : Act → Prop
  | .client b => N.client.replyRejected L b = false
  | .server _ => True

end Net

variable {c : ConnId} {os : List (Obs K)} {N : Net K} {sequential verified : Prop}

/-- The ends at which client and server stand after a run of the ends. -/
def NetLink (sequential verified : Prop) (c : ConnId) (N : Net K) (os : List (Obs K)) : Prop :=
  ∃ e f, ServerSide c N.sys e ∧ N.client.AtEnd f ∧
    Lts.Run (LinkStep L c sequential verified) (.start, .start) (e, f) (linkObs L c os)

theorem run_server {e e' : ServerEnd K} {f : ClientEnd K}
    (h : Lts.Run (ServerStep L c) e e' os) :
    Lts.Run (LinkStep L c sequential verified) (e, f) (e', f) os := by
  induction h with
  | nil => exact .nil
  | snoc _ hst ih => exact ih.snoc (.server hst)

theorem run_client {e : ServerEnd K} {f f' : ClientEnd K}
    (h : Lts.Run (ClientStep L sequential verified) f f' os) :
    Lts.Run (LinkStep L c sequential verified) (e, f) (e, f') os := by
  induction h with
  | nil => exact .nil
  | snoc _ hst ih => exact ih.snoc (.client hst)

/-- **One step.** -/
theorem step_netLink {N' : Net K} {a : Net.Act} {o : List (Obs K)}
    (hI : NetLink L sequential verified c N os) (hstep : N.step L c a = some (N', o))
    (halone : N.Alone c a o) (hseq : sequential → N.Sequential a)
    (hver : verified → N.ReplyVerifies L a) : NetLink L sequential verified c N' (os ++ o) := by
  obtain ⟨e, f, hS, hC, hrun⟩ := hI
  rcases Net.step_cases L hstep with ⟨b, S, rfl, hs, rfl⟩ | ⟨b, C, rfl, hs, rfl⟩
  · obtain ⟨e', hS', hrun'⟩ := server_link L hS hs (halone b rfl)
    refine ⟨e', f, hS', hC, ?_⟩
    rw [linkObs_append]
    exact hrun.trans (run_server L hrun')
  · obtain ⟨f', hC', hrun'⟩ := client_link L (c := c) hC hs hseq hver
    refine ⟨e, f', hS, hC', ?_⟩
    rw [linkObs_append]
    exact hrun.trans (run_client L hrun')

/-- **Every run of client and server is a run of the ends.** -/
theorem net_link {ok : Net K → Net.Act → List (Obs K) → Prop} {password clientPassword : Bytes}
    {keep : Bool} {peer : String} (halone : ∀ N a o, ok N a o → N.Alone c a o)
    (hseq : sequential → ∀ N a o, ok N a o → N.Sequential a)
    (hver : verified → ∀ N a o, ok N a o → N.ReplyVerifies L a)
    (hrun : Lts.Run (Lts.Guarded (Net.step L c) ok) (.init password keep peer clientPassword)
      N os) : NetLink L sequential verified c N os := by
  refine hrun.inv (I := NetLink L sequential verified c) ?_ ?_
  · exact ⟨.start, .start, serverSide_init c password keep, atEnd_init peer clientPassword, .nil⟩
  · rintro N N' os o - hI ⟨a, hstep, hok⟩
    exact step_netLink L hI hstep (halone _ _ _ hok) (fun h => hseq h _ _ _ hok)
      fun h => hver h _ _ _ hok

/-- **Replay and reflection protection at the server.**  Whatever the network delivers, the
    payloads the server accepts on the connection are the first ones its client sealed. -/
theorem replay_protection (c : ConnId) (password clientPassword : Bytes) (keep : Bool)
    (peer : String)
    (hrun : Lts.Run (Lts.Guarded (Net.step L c) fun N a o => N.Alone c a o ∧ N.Sequential a)
      (.init password keep peer clientPassword) N os)
    (hideal : Ideal L c os) : acceptedBy (.server c) os <+: sealedBy L .client os := by
  obtain ⟨e, f, -, -, hlink⟩ := net_link L (fun _ _ _ h => h.1)
    (fun (_ : True) _ _ _ h => h.2) (fun h : False => h.elim) hrun
  have h := link_replay L hlink (hideal.genuine L)
  rwa [acceptedBy_linkObs L (.inr rfl), sealedBy, built_linkObs L (.inl rfl)] at h

/-- **Authenticity of the replies.**  The payloads the client accepts are the first ones the
    server sealed on the connection, whatever the network delivers apart from packets of
    the client and a reply to the login that does not verify. -/
theorem reply_authenticity (c : ConnId) (password clientPassword : Bytes) (keep : Bool)
    (peer : String)
    (hrun : Lts.Run (Lts.Guarded (Net.step L c) fun N a o => N.Alone c a o ∧ N.ReplyVerifies L a)
      (.init password keep peer clientPassword) N os)
    (hideal : Ideal L c os) (hrefl : Unreflected L os) :
    acceptedBy .client os <+: sealedBy L (.server c) os := by
  obtain ⟨e, f, -, -, hlink⟩ := net_link L (fun _ _ _ h => h.1)
    (fun h : False => h.elim) (fun (_ : True) _ _ _ h => h.2) hrun
  have h := link_authentic L hlink (hideal.genuine L) (hrefl.linkObs L)
  rwa [acceptedBy_linkObs L (.inl rfl), sealedBy, built_linkObs L (.inr rfl)] at h

/-! ## Checking a run -/

/-- The arguments of a call of `encrypt`. -/
def Obs.encrypts : Obs K → Option (Party × K × ℕ × Bytes)
  | .encrypt p k n data => some (p, k, n, data)
  | _ => none

theorem mem_encrypts {x : Obs K} {p : Party} {k : K} {n : ℕ} {data : Bytes} :
    (p, k, n, data) ∈ x.encrypts ↔ x = .encrypt p k n data := by
  cases x <;> simp [Obs.encrypts, eq_comm]

instance [DecidableEq K] (before : List (Obs K)) : DecidablePred (IdealAfter L c before)
  | .decrypt p k n ct =>
    decidable_of_iff (p.At c → L.decrypt k (leBytes 12 n) ct ≠ none → ∃ x ∈ before,
        ∃ y ∈ x.encrypts, y.1.At c ∧ y.2.1 = k ∧ y.2.2.1 = n ∧ ct = sealed L k n y.2.2.2) <| by
      refine imp_congr Iff.rfl (imp_congr Iff.rfl ⟨?_, ?_⟩)
      · rintro ⟨x, hx, ⟨q, k', n', data⟩, hy, hq, rfl, rfl, hct⟩
        exact ⟨q, data, hq, mem_encrypts.1 hy ▸ hx, hct⟩
      · rintro ⟨q, data, hq, hx, hct⟩
        exact ⟨_, hx, _, mem_encrypts.2 rfl, hq, rfl, rfl, hct⟩
  | .encrypt _ _ _ _ | .accepted _ _ | .write _ _ | .answered _ _ _ _ | .session _ _
  | .relogin _ _ | .called _ | .returned _ _ | .timedOut _ => isTrue trivial

instance [DecidableEq K] : Decidable (Ideal L c os) := inferInstanceAs (Decidable (Lts.Each _ os))

instance [DecidableEq K] (before : List (Obs K)) : DecidablePred (UnreflectedAfter L before)
  | .decrypt .client k n ct =>
    decidable_of_iff (∀ x ∈ before, ∀ y ∈ x.encrypts,
        y.1 = .client → y.2.1 = k → y.2.2.1 = n → ct ≠ sealed L k n y.2.2.2) <| by
      constructor
      · intro h data hm
        exact h _ hm _ (mem_encrypts.2 rfl) rfl rfl rfl
      · rintro h x hx ⟨q, k', n', data⟩ hy rfl rfl rfl
        exact h data (mem_encrypts.1 hy ▸ hx)
  | .decrypt (.server _) _ _ _ | .encrypt _ _ _ _ | .accepted _ _ | .write _ _
  | .answered _ _ _ _ | .session _ _ | .relogin _ _ | .called _ | .returned _ _ | .timedOut _ =>
    isTrue trivial

instance [DecidableEq K] : Decidable (Unreflected L os) :=
  inferInstanceAs (Decidable (Lts.Each _ os))

/-! ## Runs on fixed inputs -/

instance (C : RawClient K) : Decidable C.Ready :=
  decidable_of_iff (C.tasks = [] ∧ C.sendLoop = .waiting ∧ C.closing = .idle)
    ⟨fun h => ⟨h.1, h.2.1, h.2.2⟩, fun h => ⟨h.1, h.2, h.3⟩⟩

instance (C : RawClient K) : DecidablePred C.Sequential
  | .call _ | .close => inferInstanceAs (Decidable C.Ready)
  | .connect _ | .resume _ | .sendLoop _ | .recvLoop _ | .receive _ | .timeout _ | .closing _ =>
    isTrue trivial

/-- `Alone` and `Sequential` for a run on connections below `n` without administrative
    calls. -/
def Net.Checked (n : ℕ) (N : Net K) (a : Net.Act) (o : List (Obs K)) : Prop :=
  N.Sequential a ∧ match a with
    | .server b => b.conn.isSome ∧ N.sys.ExclusiveBelow n true b o
    | .client _ => True

instance (n : ℕ) (N : Net K) (a : Net.Act) (o : List (Obs K)) : Decidable (N.Checked n a o) :=
  match a with
  | .server _ => inferInstanceAs (Decidable (True ∧ _ ∧ _))
  | .client b => inferInstanceAs (Decidable (N.client.Sequential b ∧ True))

instance (N : Net K) : DecidablePred (N.ReplyVerifies L)
  | .server _ => isTrue trivial
  | .client b => inferInstanceAs (Decidable (N.client.replyRejected L b = false))

theorem Net.Checked.alone {n : ℕ} {a : Net.Act} {o : List (Obs K)} (hN : N.sys.Below n)
    (h : N.Checked n a o) : N.Alone c a o := by
  rintro b rfl
  obtain ⟨-, hc, hx⟩ := h
  obtain ⟨hfresh, hrelogin⟩ := hx.exclusive hN
  refine ⟨hfresh, hrelogin c, fun c'' u _ hm => hrelogin c'' u hm c, ?_⟩
  rintro op rfl
  cases hc

/-- A checked execution is a run. -/
theorem checked_run {n : ℕ} {as : List Net.Act} {N₀ : Net K} {ok : Net K → Net.Act → List (Obs K) → Prop}
    (h0 : N₀.sys.Below n) (hexec : Lts.exec (Net.step L c) as N₀ = some (N, os))
    (hcheck : Lts.Along (Net.step L c) (fun N a o => N.Checked n a o ∧ ok N a o) as N₀) :
    Lts.Run (Lts.Guarded (Net.step L c) fun N a o => N.Alone c a o ∧ N.Sequential a ∧ ok N a o)
      N₀ N os := by
  refine Lts.exec_run hexec (hcheck.imp (I := fun N => N.sys.Below n) ?_ ?_ h0)
  · rintro N a N' o hN ⟨hc, -⟩ hstep
    rcases Net.step_cases L hstep with ⟨b, S, rfl, hs, rfl⟩ | ⟨b, C, rfl, hs, rfl⟩
    · exact step_below L hN hc.2.2.1 hs
    · exact hN
  · rintro N a o hN ⟨hc, hok⟩
    exact ⟨hc.alone hN, hc.1, hok⟩

/-- The steps of a handshake of client and server over an honest network on connection 0,
    up to the reply to the login. -/
def handshakeActs : List Net.Act :=
  [.client (.connect none), .server (.connect 0), .client (.resume .sent),
    .server (.resume 0 (.recv stubClientPublic) sampleDraw),
    .client (.resume (.recv (stubPublic 0))), .client (.resume .sent),
    .server (.resume 0 .sent sampleDraw),
    .server (.resume 0 (.recv (stubPacket 0 0 [0])) sampleDraw),
    .client (.resume (.recv (stubPacket 0 0 ACK))), .client (.resume .sent),
    .server (.resume 0 .sent sampleDraw),
    .server (.resume 0 (.recv (stubPacket 0 1 [0xC5])) sampleDraw),
    .server (.resume 0 .sent sampleDraw), .server (.resume 0 .go sampleDraw),
    .server (.resume 0 .go sampleDraw)]

/-- The handshake and `whoami`; then a packet is replayed to the server. -/
def replaySample : List Net.Act :=
  handshakeActs ++ [.client (.resume (.recv (stubPacket 0 1 ACK))), .client (.call .whoami),
    .client (.sendLoop .go), .client (.sendLoop .sent),
    .server (.resume 0 (.recv (stubPacket 0 2 [0x87])) sampleDraw),
    .client (.recvLoop (.recv (stubPacket 0 2 (latin1 sampleUuid)))), .client (.receive 0),
    .server (.resume 0 .sent sampleDraw), .server (.resume 0 .go sampleDraw),
    .server (.resume 0 (.recv (stubPacket 0 2 [0x87])) sampleDraw)]

theorem replay_protection_sample : ∃ N os,
    Lts.Run (Lts.Guarded (Net.step stub 0) fun N a o => N.Alone 0 a o ∧ N.Sequential a)
      (.init [] false "" []) N os ∧ acceptedBy (.server 0) os = [[0], [0xC5], [0x87]] ∧
      acceptedBy (.server 0) os <+: sealedBy stub .client os := by
  have hexec : ((Lts.exec (Net.step stub 0) replaySample (.init [] false "" [])).any fun x =>
      acceptedBy (.server 0) x.2 = [[0], [0xC5], [0x87]] && Ideal stub 0 x.2) = true := by
    decide +kernel
  have hcheck : Lts.Along (Net.step stub 0) (fun N a o => N.Checked 1 a o ∧ True) replaySample
      (.init [] false "" []) := by decide +kernel
  obtain ⟨⟨N, os⟩, hN, hp⟩ := Option.any_eq_true _ _ |>.1 hexec
  simp only [Bool.and_eq_true, decide_eq_true_eq] at hp
  have hrun : Lts.Run (Lts.Guarded (Net.step stub 0) fun N a o => N.Alone 0 a o ∧ N.Sequential a)
      (.init [] false "" []) N os :=
    (checked_run stub (fun _ _ => rfl) hN hcheck).guard fun h => ⟨h.1, h.2.1⟩
  exact ⟨N, os, hrun, hp.1, replay_protection stub 0 [] [] false "" hrun hp.2⟩

theorem reply_authenticity_sample : ∃ N os,
    Lts.Run (Lts.Guarded (Net.step stub 0) fun N a o => N.Alone 0 a o ∧ N.ReplyVerifies stub a)
      (.init [] false "" []) N os ∧ acceptedBy .client os = [ACK, ACK, latin1 sampleUuid] ∧
      acceptedBy .client os <+: sealedBy stub (.server 0) os := by
  have hexec : ((Lts.exec (Net.step stub 0) replaySample (.init [] false "" [])).any fun x =>
      acceptedBy .client x.2 = [ACK, ACK, latin1 sampleUuid] && (Ideal stub 0 x.2 : Bool) &&
        (Unreflected stub x.2 : Bool)) = true := by
    decide +kernel
  have hcheck : Lts.Along (Net.step stub 0)
      (fun N a o => N.Checked 1 a o ∧ N.ReplyVerifies stub a) replaySample
      (.init [] false "" []) := by decide +kernel
  obtain ⟨⟨N, os⟩, hN, hp⟩ := Option.any_eq_true _ _ |>.1 hexec
  simp only [Bool.and_eq_true, decide_eq_true_eq] at hp
  have hrun : Lts.Run (Lts.Guarded (Net.step stub 0) fun N a o =>
        N.Alone 0 a o ∧ N.ReplyVerifies stub a) (.init [] false "" []) N os :=
    (checked_run stub (fun _ _ => rfl) hN hcheck).guard fun h => ⟨h.1, h.2.2⟩
  exact ⟨N, os, hrun, hp.1.1, reply_authenticity stub 0 [] [] false "" hrun hp.1.2 hp.2⟩

/-- The handshake; then every packet the client sends is sent back to it. -/
def reflectionSample : List Net.Act :=
  handshakeActs ++ [.client (.resume (.recv (stubPacket 0 1 [0xC5]))), .client (.call .whoami),
    .client (.sendLoop .go), .client (.recvLoop (.recv (stubPacket 0 2 [0x87]))),
    .client (.receive 0)]

/-- **Packets of the client are accepted by the client.**  The cipher is ideal, the session
    is not shared, the client is sequential and every reply verifies; the second payload the
    client accepts, and the one `whoami` returns, are its own. -/
theorem reply_reflected : ∃ N os,
    Lts.Run (Lts.Guarded (Net.step stub 0) fun N a o =>
        N.Alone 0 a o ∧ N.Sequential a ∧ N.ReplyVerifies stub a)
      (.init [] false "" []) N os ∧ Ideal stub 0 os ∧ .returned [0x87] [0x87] ∈ os ∧
      ¬ acceptedBy .client os <+: sealedBy stub (.server 0) os ∧
      [0x87] ∉ sealedBy stub (.server 0) os := by
  have hexec : ((Lts.exec (Net.step stub 0) reflectionSample (.init [] false "" [])).any fun x =>
      (Ideal stub 0 x.2 : Bool) && (.returned [0x87] [0x87] ∈ x.2 : Bool) &&
        (¬ acceptedBy .client x.2 <+: sealedBy stub (.server 0) x.2 : Bool) &&
        ([0x87] ∉ sealedBy stub (.server 0) x.2 : Bool)) = true := by
    decide +kernel
  have hcheck : Lts.Along (Net.step stub 0)
      (fun N a o => N.Checked 1 a o ∧ N.ReplyVerifies stub a) reflectionSample
      (.init [] false "" []) := by decide +kernel
  obtain ⟨⟨N, os⟩, hN, hp⟩ := Option.any_eq_true _ _ |>.1 hexec
  simp only [Bool.and_eq_true, decide_eq_true_eq] at hp
  exact ⟨N, os, checked_run stub (fun _ _ => rfl) hN hcheck, hp.1.1.1, hp.1.1.2, hp.1.2, hp.2⟩

end Pipebomb
