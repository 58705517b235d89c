/-
  `connect` over a network that delivers what was written.

  * `Net.Gentle`: chunks of any size, and whatever the other connections and the administrator do.
  * `Joining`: what holds of a run: `connect` was not called, is at a stage of the handshake, or
    returned.  `Joining.step` is the step lemma.
  * `Meeting.canGo`: once the server took the connection, one of its two ends can go on until the
    handshake is over.
  * `connect_completes`: with the server's password `connect` returns; without it the server ends the
    pass.
-/
import Pipebomb.GetReturns
import Pipebomb.PasswordFirst
import Pipebomb.Stages

namespace Pipebomb

open ByteString

variable {K : Type} (L : Libs K)

/-! ## Runs -/

section
variable {c : ConnId} {k : K} {N N' : Net K} {a : Net.Act} {o : List (Obs K)} {password : Bytes}
  {relogUuid : Option Bytes} {xs ys : List (Lts.Shown (Net K) Net.Act (Obs K))} {draw : Uuid4}

/-- The uuid that `connect` is called with fits into a packet. -/
def Net.Act.LoginFits : Net.Act → Prop
  | .client (.connect relogUuid) => Fits L (Secrecy.login relogUuid)
  | _ => True

/-- The network delivers what was written, in order, and nothing fails on the connection. -/
structure Net.Gentle (c : ConnId) (N : Net K) (a : Net.Act) (o : List (Obs K)) : Prop where
  honest : N.Honest c a o
  lossless : N.Lossless c a
  fits : a.LoginFits L

/-- A step of the client or of the coroutine of its connection, for which `uuid4()` gives `draw`. -/
def Net.Act.Of (c : ConnId) (draw : Uuid4) : Net.Act → Prop
  | .server (.resume c' _ d) => c' = c ∧ d = draw
  | .server _ => False
  | .client _ => True

/-- `connect` was called with the uuid. -/
def Called (relogUuid : Option Bytes) (xs : List (Lts.Shown (Net K) Net.Act (Obs K))) : Prop :=
  ∃ x ∈ xs, x.act = .client (.connect relogUuid)

/-- The login of the client arrived, and the server let it in with the answer. -/
def Welcomed (c : ConnId) (relogUuid : Option Bytes) (xs : List (Lts.Shown (Net K) Net.Act (Obs K)))
    (answer : Bytes) : Prop :=
  ∃ x ∈ xs, .accepted (.server c) (Secrecy.login relogUuid) ∈ x.obs ∧
    LetsIn c x.before.sys.server x.obs relogUuid answer

theorem Called.append (h : Called relogUuid xs) : Called relogUuid (xs ++ ys) := by
  obtain ⟨x, hx, hact⟩ := h
  exact ⟨x, List.mem_append_left _ hx, hact⟩

theorem Welcomed.append {answer : Bytes} (h : Welcomed c relogUuid xs answer) :
    Welcomed c relogUuid (xs ++ ys) answer := by
  obtain ⟨x, hx, hanswer⟩ := h
  exact ⟨x, List.mem_append_left _ hx, hanswer⟩

/-- **`connect` runs.** -/
structure Meeting (c : ConnId) (k : K) (password : Bytes) (relogUuid : Option Bytes) (N : Net K)
    (xs : List (Lts.Shown (Net K) Net.Act (Obs K))) : Prop where
  sound : N.sys.Sound
  called : Called relogUuid xs
  fits : Fits L (Secrecy.login relogUuid)
  joins : N.client.Joins password relogUuid
  stage : Stage L c k N.sys.server.password relogUuid (Welcomed c relogUuid xs) N.client (N.sys.tasks c)
    N.toServer N.toClient

/-- **`connect` returned.** -/
def Connected (c : ConnId) (password : Bytes) (relogUuid : Option Bytes) (N : Net K)
    (xs : List (Lts.Shown (Net K) Net.Act (Obs K))) : Prop :=
  N.client.connection = .connected ∧ password = N.sys.server.password ∧
    ∃ answer, Welcomed c relogUuid xs answer ∧ .accepted .client answer ∈ xs.flatMap Lts.Shown.obs

/-- What is left of the handshake. -/
def Net.handshakeRank (c : ConnId) (k : K) (relogUuid : Option Bytes) (N : Net K) : ℕ :=
  Pipebomb.handshakeRank (messageBound L c k N.client.password relogUuid) N.client (N.sys.tasks c) N.toServer
    N.toClient

include L in
/-- What is seen of others are no bytes of the party. -/
theorem written_of_not {p : Party} (h : ∀ x ∈ o, ¬ x.Of p) : Net.written p o = [] := by
  have hs : sends p o = [] := congrArg Tally.sends (tally_of_not L h)
  rw [written_eq, hs]
  rfl

/-- A step of the server at which the coroutine of the connection does not go on. -/
theorem Meeting.aside (h : Meeting L c k password relogUuid N xs) {b : Act} {S : Sys K}
    (hs : N.sys.step L b = some (S, o)) (hchunk : (Net.Act.server b).toServer c = none)
    (htask : S.tasks c = N.sys.tasks c) (ho : ∀ p : Party, p.At c → ∀ x ∈ o, ¬ x.Of p) :
    Meeting L c k password relogUuid (N.flow c (.server b) S N.client o)
      (xs ++ [⟨N, .server b, o, N.flow c (.server b) S N.client o⟩]) := by
  have hflow : N.flow c (.server b) S N.client o = ⟨S, N.client, N.toServer, N.toClient⟩ := by
    simp only [Net.flow, hchunk, Net.Act.toClient, written_of_not L (ho _ (.inl rfl)),
      written_of_not L (ho _ (.inr rfl)), Option.getD_none, List.length_nil, List.drop_zero, List.append_nil]
  rw [hflow]
  refine ⟨step_sound L h.sound hs, h.called.append, h.fits, h.joins, ?_⟩
  show Stage L c k S.server.password relogUuid _ N.client (S.tasks c) N.toServer N.toClient
  rw [htask, step_password L h.sound hs]
  exact h.stage.mono L fun _ => Welcomed.append

/-- The connection is accepted. -/
theorem Meeting.accepted (h : Meeting L c k password relogUuid N xs) {S : Sys K}
    (hs : N.sys.step L (.connect c) = some (S, o)) :
    Meeting L c k password relogUuid (N.flow c (.server (.connect c)) S N.client o)
      (xs ++ [⟨N, .server (.connect c), o, N.flow c (.server (.connect c)) S N.client o⟩]) := by
  have hsound := step_sound L h.sound hs
  have hpw := step_password L h.sound hs
  have hwelcomed : ∀ answer, Welcomed c relogUuid xs answer → Welcomed c relogUuid (xs ++
      [⟨N, .server (.connect c), o, N.flow c (.server (.connect c)) S N.client o⟩]) answer :=
    fun _ => Welcomed.append
  have hstage := h.stage.mono L hwelcomed
  rcases htask : N.sys.tasks c with _ | a | h' | e
  · simp only [Sys.step, htask] at hs
    cases hs
    have hflow : N.flow c (.server (.connect c)) (N.sys.put c N.sys.server (.accept (.publicKey []))) N.client [] =
        ⟨N.sys.put c N.sys.server (.accept (.publicKey [])), N.client, N.toServer, N.toClient⟩ := by
      simp [Net.flow, Net.Act.toServer, Net.Act.toClient, Net.written]
    rw [htask] at hstage
    rw [hflow] at hstage ⊢
    have hP : L.clientPublic ≠ [] := List.ne_nil_of_length_eq_add_one L.length_clientPublic
    cases hstage with
    | publicKey hC hrx ht hy =>
      rcases ht with ⟨-, hx⟩ | ⟨b, hb, -⟩
      · refine ⟨hsound, h.called.append, h.fits, h.joins, .publicKey hC hrx (.inr ⟨[], ?_, hx, ?_⟩) hy⟩
        · simp
        · exact hx ▸ hP
      · cases hb
    | serverKey _ _ ht | ack _ _ _ _ ht => rcases ht with ht | ht <;> cases ht
    | password _ _ _ ht | login _ _ _ _ ht => rcases ht with ⟨ht, -⟩ | ⟨b, ht, -⟩ <;> cases ht
    | refused _ _ _ _ ht => cases ht
    | reply _ _ _ _ _ _ _ ht => cases ht
  · simp only [Sys.step, htask] at hs; cases hs
  · simp only [Sys.step, htask] at hs; cases hs
  · simp only [Sys.step, htask] at hs; cases hs

/-- The coroutine of the connection goes on. -/
theorem Meeting.resumed (h : Meeting L c k password relogUuid N xs)
    (hk : L.exchange c L.clientPublic = some k) (hfit : Fits L (0 :: password)) {i : Input} {s : Server K}
    {t : Task (Accepting K)} (ht : taskStep L N.sys.server c (N.sys.tasks c) i draw = some (s, t, o))
    (hs : N.sys.step L (.resume c i draw) = some (N.sys.put c s t, o))
    (hg : N.Gentle L c (.server (.resume c i draw)) o) :
    Meeting L c k password relogUuid (N.flow c (.server (.resume c i draw)) (N.sys.put c s t) N.client o)
        (xs ++ [⟨N, .server (.resume c i draw), o,
          N.flow c (.server (.resume c i draw)) (N.sys.put c s t) N.client o⟩]) ∧
      (N.flow c (.server (.resume c i draw)) (N.sys.put c s t) N.client o).handshakeRank L c k relogUuid <
        N.handshakeRank L c k relogUuid := by
  have hchunk : (((Net.Act.server (.resume c i draw)).toServer c).getD []) = i.chunk := by
    cases i with
    | recv chunk => simp [Net.Act.toServer, Input.chunk]
    | _ => rfl
  have hby := taskStep_obs L ht
  have hflow : N.flow c (.server (.resume c i draw)) (N.sys.put c s t) N.client o =
      ⟨N.sys.put c s t, N.client, N.toServer.drop i.chunk.length,
        N.toClient ++ Net.written (.server c) o⟩ := by
    have hclient : Net.written .client o = [] := written_of_not L (hby.of (p := .client) (by simp))
    simp only [Net.flow, hchunk, Net.Act.toClient, hclient, Option.getD_none, List.length_nil, List.drop_zero,
      List.append_nil]
  have hpw := step_password L h.sound hs
  have hfit' : Fits L (0 :: N.client.password) := by rw [h.joins.password]; exact hfit
  have hnew : ∀ answer, .accepted (.server c) (Secrecy.login relogUuid) ∈ o →
      LetsIn c N.sys.server o relogUuid answer → Welcomed c relogUuid (xs ++ [⟨N, .server (.resume c i draw), o,
        N.flow c (.server (.resume c i draw)) (N.sys.put c s t) N.client o⟩]) answer :=
    fun answer hacc hlets => ⟨_, List.mem_append_right _ (List.mem_singleton_self _), hacc, hlets⟩
  obtain ⟨hstage, hrank⟩ := h.stage.server L hk hfit' h.fits ht (hg.honest.server rfl) (hg.lossless rfl)
    (fun _ => Welcomed.append) hnew
  rw [hflow] at hstage ⊢
  refine ⟨⟨step_sound L h.sound hs, h.called.append, h.fits, h.joins, ?_⟩, ?_⟩
  · simp only [put_tasks_self, hpw]
    exact hstage
  · simp only [Net.handshakeRank, put_tasks_self]
    exact hrank

/-- **A step of the server.** -/
theorem Meeting.server (h : Meeting L c k password relogUuid N xs)
    (hk : L.exchange c L.clientPublic = some k) (hfit : Fits L (0 :: password)) {b : Act} {S : Sys K}
    (hs : N.sys.step L b = some (S, o)) (hg : N.Gentle L c (.server b) o) :
    Meeting L c k password relogUuid (N.flow c (.server b) S N.client o)
        (xs ++ [⟨N, .server b, o, N.flow c (.server b) S N.client o⟩]) ∧
      ∀ draw, (Net.Act.server b).Of c draw → (N.flow c (.server b) S N.client o).handshakeRank L c k relogUuid <
        N.handshakeRank L c k relogUuid := by
  rcases step_cases L hs with ⟨c', rfl, -, rfl, hS⟩ | ⟨c', i, d, s, t, rfl, ht, rfl⟩ | ⟨op, rfl, rfl, hS⟩
  · by_cases hc : c' = c
    · subst hc
      exact ⟨h.accepted L hs, fun _ hof => hof.elim⟩
    · refine ⟨h.aside L hs rfl ?_ (fun _ _ _ hx => (by cases hx)), fun _ hof => hof.elim⟩
      rw [hS, put_tasks_ne (Ne.symm hc)]
  · by_cases hc : c' = c
    · subst hc
      obtain ⟨hmeets, hrank⟩ := h.resumed L hk hfit ht hs hg
      exact ⟨hmeets, fun _ _ => hrank⟩
    · have hby := taskStep_obs L ht
      refine ⟨h.aside L hs ?_ (put_tasks_ne (Ne.symm hc)) ?_, fun _ hof => absurd hof.1 hc⟩
      · cases i with
        | recv chunk => exact if_neg hc
        | _ => rfl
      · rintro p (rfl | rfl)
        · exact hby.of (p := .client) (by simp)
        · exact hby.of (p := .server c) (by simpa using Ne.symm hc)
  · refine ⟨h.aside L hs rfl ?_ (fun _ _ _ hx => (by cases hx)), fun _ hof => hof.elim⟩
    rw [hS]

/-- **A step of the client.** -/
theorem Meeting.client (h : Meeting L c k password relogUuid N xs)
    (hk : L.clientExchange (L.serverPublic c) = some k) (hfit : Fits L (0 :: password))
    {b : RawClient.Act} {C : RawClient K} (hs : N.client.step L b = some (C, o))
    (hg : N.Gentle L c (.client b) o) :
    Meeting L c k password relogUuid (N.flow c (.client b) N.sys C o)
        (xs ++ [⟨N, .client b, o, N.flow c (.client b) N.sys C o⟩]) ∧
      (N.flow c (.client b) N.sys C o).handshakeRank L c k relogUuid < N.handshakeRank L c k relogUuid ∨
    Connected c password relogUuid (N.flow c (.client b) N.sys C o)
      (xs ++ [⟨N, .client b, o, N.flow c (.client b) N.sys C o⟩]) := by
  obtain ⟨hidle, hconn, -⟩ := h.stage.joining L
  obtain ⟨i, rfl, hstep⟩ := h.joins.resume L hidle hconn hs
  have hpw := h.joins.password
  have hfit' : Fits L (0 :: N.client.password) := by rw [hpw]; exact hfit
  have htally : tally L (.server c) o = .none := (client_atClient L hs).tally L
  obtain ⟨hserver, hclient⟩ := flow_client L (N := N) (c := c) (b := .resume i) (C := C) htally
  have hflow : N.flow c (.client (.resume i)) N.sys C o =
      ⟨N.sys, C, N.toServer ++ Net.written .client o, N.toClient.drop i.chunk.length⟩ := by
    show _ = Net.mk N.sys C (N.toServer ++ (tally L .client o).sends.flatten)
      (N.toClient.drop (RawClient.Act.resume i).chunk.length)
    rw [← hserver, ← hclient]
    rfl
  rw [hflow]
  rcases h.stage.client L h.joins hk hfit' h.fits hstep hg.honest.client hg.lossless with
    ⟨hjoins, hstage, hrank⟩ | ⟨hconn', heq, answer, hwelcomed, hacc⟩
  · refine .inl ⟨⟨h.sound, h.called.append, h.fits, hjoins, hstage.mono L fun _ => Welcomed.append⟩, ?_⟩
    simp only [Net.handshakeRank, hjoins.password, hpw]
    rw [hpw] at hrank
    exact hrank
  · refine .inr ⟨hconn', hpw ▸ heq, answer, hwelcomed.append, ?_⟩
    simp only [List.flatMap_append, List.mem_append]
    exact .inr (by simpa using hacc)

/-- The server refused the password, and the client waits; the end of the stream is all that comes, and
    it ends `connect`. -/
def Net.Refused (c : ConnId) (N : Net K) : Prop :=
  N.sys.tasks c = .over none ∧ N.client.connection = .ack [] ∧ N.toClient = [] ∧
    N.client.connectStep L (.recv []) =
      some (N.client.fail (.runtimeError "Connection closed while waiting for packet frame"))

/-- The handshake is over. -/
def Net.Settled (c : ConnId) (N : Net K) : Prop := N.client.connection = .connected ∨ N.Refused L c

/-! ## The end that the message is for goes on -/

/-- A step that can be made, by one of the two ends. -/
def Net.CanGo (c : ConnId) (draw : Uuid4) (N : Net K) : Prop :=
  ∃ a N' o, N.step L c a = some (N', o) ∧ N.Gentle L c a o ∧ a.Of c draw

theorem Net.canGo_server {i : Input} {t : Task (Accepting K)} (ht : N.sys.tasks c = t)
    (hstep : ∃ out, taskStep L N.sys.server c t i draw = some out) (hchunk : i.chunk <+: N.toServer)
    (hi : ¬ i.Fails) : N.CanGo L c draw := by
  subst ht
  obtain ⟨⟨s, t, o⟩, hstep⟩ := hstep
  have hs : N.sys.step L (.resume c i draw) = some (N.sys.put c s t, o) := by
    simp only [Sys.step, hstep]
  have hN : N.step L c (.server (.resume c i draw)) =
      some (N.flow c (.server (.resume c i draw)) (N.sys.put c s t) N.client o, o) := by
    simp only [Net.step, hs]
  refine ⟨_, _, _, hN, ⟨⟨?_, fun _ hm => (by cases hm)⟩, fun _ => hi, trivial⟩, rfl, rfl⟩
  intro chunk hm
  cases i with
  | recv chunk' =>
    simp only [Net.Act.toServer, if_true, Option.mem_def, Option.some.injEq] at hm
    exact hm ▸ hchunk
  | _ => cases hm

theorem Net.canGo_client {i : Input} (hstep : ∃ out, N.client.connectStep L i = some out)
    (hchunk : i.chunk <+: N.toClient) (hi : ¬ i.Fails) : N.CanGo L c draw := by
  obtain ⟨⟨C, o⟩, hstep⟩ := hstep
  have hs : N.client.step L (.resume i) = some (C, o) := hstep
  have hN : N.step L c (.client (.resume i)) = some (N.flow c (.client (.resume i)) N.sys C o, o) := by
    simp only [Net.step, hs]
  refine ⟨_, _, _, hN, ⟨⟨fun _ hm => (by cases hm), ?_⟩, hi, trivial⟩, trivial⟩
  intro chunk hm
  cases i with
  | recv chunk' =>
    cases hm
    exact hchunk
  | _ => cases hm

theorem Net.canGo_sent (hs : N.client.connection.Sends) : N.CanGo L c draw := by
  refine Net.canGo_client L (i := .sent) ?_ List.nil_prefix id
  unfold RawClient.connectStep
  cases hc : N.client.connection <;> rw [hc] at hs <;> first | exact hs.elim | exact ⟨_, rfl⟩

/-- A chunk of what is under way. -/
theorem chunk_of {feed : Bytes} (h : feed ≠ []) :
    feed.take 1024 <+: feed ∧ feed.take 1024 ≠ [] ∧ ¬ 1024 < (feed.take 1024).length := by
  have hpos := List.length_pos_iff.2 h
  refine ⟨List.take_prefix _ _, List.ne_nil_of_length_pos ?_, ?_⟩
  · rw [List.length_take]; omega
  · rw [List.length_take]; omega

/-- **The end that the message is for can go on**, until the handshake is over. -/
theorem Meeting.canGo (h : Meeting L c k password relogUuid N xs) (htook : N.sys.tasks c ≠ .idle)
    (hk : L.exchange c L.clientPublic = some k) (hover : ¬ N.Settled L c) (draw : Uuid4) :
    N.CanGo L c draw := by
  have hstage := h.stage
  have hpc : ∀ {pc n}, N.client.at = (pc, n) → N.client.connection = pc := fun h => (Prod.mk.inj h).1
  cases hstage with
  | publicKey hC hrx ht hy =>
    rcases ht with ⟨ht, -⟩ | ⟨b, ht, hb, hx⟩
    · exact absurd ht htook
    · have hlen := congrArg List.length hb
      rw [List.length_append, L.length_clientPublic] at hlen
      refine Net.canGo_server L (i := .recv N.toServer) ht ?_ List.prefix_rfl hx
      simp only [taskStep, acceptStep, if_neg (show ¬ 32 < b.length + N.toServer.length by omega), if_neg hx]
      split_ifs
      · exact ⟨_, rfl⟩
      · exact ⟨_, rfl⟩
  | serverKey hC hrx ht hx =>
    rcases hC with ⟨hC, -⟩ | ⟨b, hC, hb, hy⟩
    · exact Net.canGo_sent L (by rw [hpc hC]; trivial)
    · have hlen := congrArg List.length hb
      rw [List.length_append, L.length_serverPublic] at hlen
      refine Net.canGo_client L (i := .recv N.toClient) ?_ List.prefix_rfl hy
      simp only [RawClient.connectStep, hpc hC, if_neg (show ¬ 32 < b.length + N.toClient.length by omega),
        if_neg hy]
      split_ifs
      · exact ⟨_, rfl⟩
      · exact ⟨_, rfl⟩
  | password hC hrx hk' ht hy =>
    rcases ht with ⟨ht, -⟩ | ⟨b, ht, -, hx⟩
    · refine Net.canGo_server L (i := .sent) ht ?_ List.nil_prefix id
      simp only [taskStep, acceptStep, hk]
      exact ⟨_, rfl⟩
    · obtain ⟨hpre, hne, hlen⟩ := chunk_of hx
      refine Net.canGo_server L (i := .recv (N.toServer.take 1024)) ht ?_ hpre hne
      simp only [taskStep, acceptStep, if_neg hlen]
      exact ⟨_, rfl⟩
  | refused hC hrx hk' hne ht hx hy =>
    rcases hC with hC | hC
    · exact Net.canGo_sent L (by rw [hpc hC]; trivial)
    · refine absurd (.inr ⟨ht, hpc hC, hy, ?_⟩) hover
      simp [RawClient.connectStep, hpc hC, RawClient.onChunk]
  | ack hC hrx hk' heq ht hx =>
    rcases hC with ⟨hC, -⟩ | ⟨b, hC, -, hy⟩
    · exact Net.canGo_sent L (by rw [hpc hC]; trivial)
    · obtain ⟨hpre, hne, hlen⟩ := chunk_of hy
      refine Net.canGo_client L (i := .recv (N.toClient.take 1024)) ?_ hpre hne
      simp only [RawClient.connectStep, hpc hC, if_neg hlen]
      exact ⟨_, rfl⟩
  | login hC hrx hk' heq ht hy =>
    rcases ht with ⟨ht, -⟩ | ⟨b, ht, -, hx⟩
    · refine Net.canGo_server L (i := .sent) ht ?_ List.nil_prefix id
      exact ⟨_, rfl⟩
    · obtain ⟨hpre, hne, hlen⟩ := chunk_of hx
      refine Net.canGo_server L (i := .recv (N.toServer.take 1024)) ht ?_ hpre hne
      simp only [taskStep, acceptStep, if_neg hlen]
      exact ⟨_, rfl⟩
  | reply answer hPa ha hC hrx hk' heq ht hx =>
    rcases hC with ⟨hC, -⟩ | ⟨b, hC, -, hy⟩
    · exact Net.canGo_sent L (by rw [hpc hC]; trivial)
    · obtain ⟨hpre, hne, hlen⟩ := chunk_of hy
      refine Net.canGo_client L (i := .recv (N.toClient.take 1024)) ?_ hpre hne
      simp only [RawClient.connectStep, hpc hC, if_neg hlen]
      exact ⟨_, rfl⟩

/-! ## The run -/

/-- `connect` was not called. -/
structure Unmet (c : ConnId) (peer : String) (password : Bytes) (N : Net K) : Prop where
  client : N.client = .init peer password
  task : Awaits (N.sys.tasks c) .idle fun b => .accept (.publicKey b)
  toServer : N.toServer = []
  toClient : N.toClient = []

/-- **What holds of a run.** -/
structure Joining (c : ConnId) (k : K) (peer : String) (password serverPassword : Bytes) (N : Net K)
    (xs : List (Lts.Shown (Net K) Net.Act (Obs K))) : Prop where
  sound : N.sys.Sound
  same : N.sys.server.password = serverPassword
  stands : Unmet c peer password N ∨ ∃ relogUuid, Called relogUuid xs ∧
    (Meeting L c k password relogUuid N xs ∨ Connected c password relogUuid N xs)

variable {peer : String} {serverPassword : Bytes}

/-- `connect` is called. -/
theorem Unmet.calls (h : Unmet c peer password N) (hsound : N.sys.Sound)
    (hfit : Fits L (Secrecy.login relogUuid)) (k : K) (xs : List (Lts.Shown (Net K) Net.Act (Obs K))) :
    ∃ C o, N.client.step L (.connect relogUuid) = some (C, o) ∧
      Meeting L c k password relogUuid (N.flow c (.client (.connect relogUuid)) N.sys C o)
        (xs ++ [⟨N, .client (.connect relogUuid), o, N.flow c (.client (.connect relogUuid)) N.sys C o⟩]) := by
  obtain ⟨hclient, htask, hx, hy⟩ := h
  have hs : N.client.step L (.connect relogUuid) = some
      ({ N.client with relogUuid := relogUuid, connection := .sendPublic },
        [.write .client L.clientPublic]) := by
    rw [hclient]
    rfl
  have hP : L.clientPublic ≠ [] := List.ne_nil_of_length_eq_add_one L.length_clientPublic
  refine ⟨_, _, hs, hsound, ⟨_, List.mem_append_right _ (List.mem_singleton_self _), rfl⟩, hfit, ?_, ?_⟩
  · rw [hclient]
    exact ⟨rfl, rfl, rfl, rfl⟩
  · have hrx : N.client.rxNonce = 0 := by rw [hclient]; rfl
    have htx : N.client.txNonce = 0 := by rw [hclient]; rfl
    refine .publicKey (.inl ?_) hrx ?_ ?_
    · simp [RawClient.at, Net.flow, htx]
    · simpa [Net.flow, hx, Net.Act.toServer, Net.written] using htask.takes hP
    · simp [Net.flow, hy, Net.Act.toClient, Net.written]

/-- Before `connect` is called only the server goes on. -/
theorem Unmet.server (h : Unmet c peer password N) {b : Act} {S : Sys K} (hs : N.sys.step L b = some (S, o))
    (hg : N.Gentle L c (.server b) o) : Unmet c peer password (N.flow c (.server b) S N.client o) := by
  obtain ⟨hclient, htask, hx, hy⟩ := h
  have haside : ∀ {S : Sys K} {o : List (Obs K)}, Awaits (S.tasks c) .idle (fun b => .accept (.publicKey b)) →
      (∀ p : Party, p.At c → ∀ x ∈ o, ¬ x.Of p) → Unmet c peer password (N.flow c (.server b) S N.client o) := by
    intro S o htask ho
    refine ⟨hclient, htask, ?_, ?_⟩
    · simp [Net.flow, hx, written_of_not L (ho _ (.inl rfl))]
    · simp [Net.flow, hy, written_of_not L (ho _ (.inr rfl))]
  rcases step_cases L hs with ⟨c', rfl, -, rfl, rfl⟩ | ⟨c', i, d, s, t, rfl, ht, rfl⟩ | ⟨op, rfl, rfl, rfl⟩
  · refine haside ?_ fun _ _ _ hx => (by cases hx)
    by_cases hc : c' = c
    · subst hc
      rw [put_tasks_self]
      exact .inr rfl
    · rwa [put_tasks_ne (Ne.symm hc)]
  · by_cases hc : c' = c
    · subst hc
      exfalso
      rcases htask with htask | htask
      · rw [htask] at ht
        cases ht
      · rw [htask] at ht
        obtain ⟨chunk, rfl, hne⟩ := accept_recv L ht (hg.lossless rfl) id
        have hchunk : chunk <+: N.toServer := hg.honest.server rfl
        rw [hx] at hchunk
        exact hne (List.prefix_nil.1 hchunk)
    · have hby := taskStep_obs L ht
      refine haside (by rwa [put_tasks_ne (Ne.symm hc)]) ?_
      rintro p (rfl | rfl)
      · exact hby.of (p := .client) (by simp)
      · exact hby.of (p := .server c) (by simpa using Ne.symm hc)
  · exact haside htask fun _ _ _ hx => (by cases hx)

/-- What `connect` did stays done. -/
theorem Connected.step (h : Connected c password relogUuid N xs) (hsound : N.sys.Sound)
    (hstep : N.step L c a = some (N', o)) (x : Lts.Shown (Net K) Net.Act (Obs K)) :
    Connected c password relogUuid N' (xs ++ [x]) := by
  obtain ⟨hconn, hpw, answer, hwelcomed, hacc⟩ := h
  have hmem : .accepted .client answer ∈ (xs ++ [x]).flatMap Lts.Shown.obs := by
    rw [List.flatMap_append]
    exact List.mem_append_left _ hacc
  rcases Net.step_cases L hstep with ⟨b, S, rfl, hs, rfl⟩ | ⟨b, C, rfl, hs, rfl⟩
  · exact ⟨hconn, hpw.trans (step_password L hsound hs).symm, answer, hwelcomed.append, hmem⟩
  · exact ⟨(connected_step L hconn hs).1, hpw, answer, hwelcomed.append, hmem⟩

/-- **A step keeps it.** -/
theorem Joining.step (h : Joining L c k peer password serverPassword N xs)
    (hk : L.exchange c L.clientPublic = some k) (hfit : Fits L (0 :: password))
    (hstep : N.step L c a = some (N', o)) (hg : N.Gentle L c a o) :
    Joining L c k peer password serverPassword N' (xs ++ [⟨N, a, o, N'⟩]) := by
  have hk' : L.clientExchange (L.serverPublic c) = some k := L.agree c ▸ hk
  have hnext : N'.sys.Sound ∧ N'.sys.server.password = serverPassword := by
    rcases Net.step_cases L hstep with ⟨b, S, rfl, hs, rfl⟩ | ⟨b, C, rfl, hs, rfl⟩
    · exact ⟨step_sound L h.sound hs, (step_password L h.sound hs).trans h.same⟩
    · exact ⟨h.sound, h.same⟩
  refine ⟨hnext.1, hnext.2, ?_⟩
  rcases h.stands with hun | ⟨relogUuid, hcalled, hmeets | hconn⟩
  · rcases Net.step_cases L hstep with ⟨b, S, rfl, hs, rfl⟩ | ⟨b, C, rfl, hs, rfl⟩
    · exact .inl (hun.server L hs hg)
    · cases b with
      | connect relogUuid =>
        obtain ⟨C', o', hs', hmeets⟩ := hun.calls L h.sound (hg.fits) k xs
        rw [hs] at hs'
        cases hs'
        exact .inr ⟨relogUuid, hmeets.called, .inl hmeets⟩
      | resume i => cases i <;> simp [RawClient.step, RawClient.connectStep, hun.client, RawClient.init] at hs
      | closing i => cases i <;> simp [RawClient.step, RawClient.closeStep, hun.client, RawClient.init] at hs
      | _ => simp [RawClient.step, hun.client, RawClient.init] at hs
  · refine .inr ⟨relogUuid, hcalled.append, ?_⟩
    rcases Net.step_cases L hstep with ⟨b, S, rfl, hs, rfl⟩ | ⟨b, C, rfl, hs, rfl⟩
    · exact .inl (hmeets.server L hk hfit hs hg).1
    · exact (hmeets.client L hk' hfit hs hg).imp And.left id
  · exact .inr ⟨relogUuid, hcalled.append, .inr (hconn.step L h.sound hstep _)⟩

/-- The server refused a password that is not its own. -/
theorem Meeting.refused (h : Meeting L c k password relogUuid N xs) (hr : N.Refused L c) :
    password ≠ N.sys.server.password := by
  obtain ⟨ht, hc, -, -⟩ := hr
  have hpc : ∀ {pc n}, N.client.at = (pc, n) → N.client.connection = pc := fun h => (Prod.mk.inj h).1
  have hstage := h.stage
  cases hstage with
  | refused _ _ _ hne => exact h.joins.password ▸ hne
  | publicKey _ _ ht' | login _ _ _ _ ht' | password _ _ _ ht' =>
    rw [ht] at ht'
    rcases ht' with ⟨ht', -⟩ | ⟨_, ht', -⟩ <;> cases ht'
  | serverKey _ _ ht' | ack _ _ _ _ ht' =>
    rw [ht] at ht'
    rcases ht' with ht' | ht' <;> cases ht'
  | reply _ _ _ hC =>
    rcases hC with ⟨hC, -⟩ | ⟨_, hC, -⟩
    · rw [hpc hC] at hc; cases hc
    · rw [hpc hC] at hc; cases hc

theorem taskStep_not_idle {s : Server K} {t : Task (Accepting K)} {i : Input} {out : Outcome K (Accepting K)}
    (ho : taskStep L s c t i draw = some out) : out.2.1 ≠ .idle := by
  have houtside : ∀ {t : Task (Accepting K)}, t.Outside → t ≠ .idle := by
    rintro t ht rfl
    exact ht
  cases t with
  | idle => cases ho
  | «over» e => cases ho
  | handler h =>
    intro hidle
    have hstays := handlerStep_stays L ho
    rw [hidle] at hstays
    exact hstays
  | accept a =>
    cases acceptStep_joins L ho with
    | still ht _ => exact houtside ht
    | login ht _ _ | attach _ ht _ _ =>
      rcases ht with rfl | ht
      · exact fun h => by cases h
      · exact houtside ht
    | unknown => exact fun h => by cases h
    | finish => exact fun h => by cases h

/-- The server keeps a connection that it took. -/
theorem took_step (htook : N.sys.tasks c ≠ .idle) (hstep : N.step L c a = some (N', o)) :
    N'.sys.tasks c ≠ .idle := by
  rcases Net.step_cases L hstep with ⟨b, S, rfl, hs, rfl⟩ | ⟨b, C, rfl, hs, rfl⟩
  · rcases step_cases L hs with ⟨c', rfl, -, -, rfl⟩ | ⟨c', i, d, s, t, rfl, ht, rfl⟩ | ⟨op, rfl, -, rfl⟩
    · by_cases hc : c = c'
      · subst hc
        intro h
        cases put_tasks_self.symm.trans h
      · exact fun h => htook ((put_tasks_ne hc).symm.trans h)
    · by_cases hc : c = c'
      · subst hc
        exact fun h => taskStep_not_idle L ht (put_tasks_self.symm.trans h)
      · exact fun h => htook ((put_tasks_ne hc).symm.trans h)
    · exact htook
  · exact htook

/-- **The two ends bring the handshake to its end.** -/
theorem Meeting.settles (h : Meeting L c k password relogUuid N xs) (htook : N.sys.tasks c ≠ .idle)
    (hk : L.exchange c L.clientPublic = some k) (hfit : Fits L (0 :: password)) (draw : Uuid4) :
    ∃ N' xs', Lts.Run (Lts.Guarded (Lts.shown (Net.step L c))
      (Lts.Showing fun N a o => N.Gentle L c a o ∧ a.Of c draw)) N N' xs' ∧ N'.Settled L c := by
  have hk' : L.clientExchange (L.serverPublic c) = some k := L.agree c ▸ hk
  suffices hprogress : ∃ N' xs', Lts.Run (Lts.Guarded (Lts.shown (Net.step L c))
      (Lts.Showing fun N a o => N.Gentle L c a o ∧ a.Of c draw)) N N' xs' ∧
        (Meeting L c k password relogUuid N' (xs ++ xs') ∧ N'.sys.tasks c ≠ .idle ∨ N'.Settled L c) ∧
          N'.Settled L c by
    obtain ⟨N', xs', hrun, -, hsettled⟩ := hprogress
    exact ⟨N', xs', hrun, hsettled⟩
  refine Lts.progress
    (P := fun N xs => Meeting L c k password relogUuid N xs ∧ N.sys.tasks c ≠ .idle ∨ N.Settled L c)
    (Q := fun N _ => N.Settled L c) (Net.handshakeRank L c k relogUuid) ?_ (.inl ⟨h, htook⟩)
  rintro N xs (⟨hmeets, htook⟩ | hsettled) hover
  · obtain ⟨a, N', o, hstep, hg, hof⟩ := hmeets.canGo L htook hk hover draw
    have htook' := took_step L htook hstep
    have hshown : Lts.shown (Net.step L c) N a = some (N', [⟨N, a, o, N'⟩]) := by
      simp only [Lts.shown, hstep]
    refine ⟨N', _, ⟨a, hshown, ?_⟩, ?_⟩
    · intro x hx
      obtain rfl := List.mem_singleton.1 hx
      exact ⟨hg, hof⟩
    · rcases Net.step_cases L hstep with ⟨b, S, rfl, hs, rfl⟩ | ⟨b, C, rfl, hs, rfl⟩
      · obtain ⟨hmeets', hrank⟩ := hmeets.server L hk hfit hs hg
        exact ⟨.inl ⟨hmeets', htook'⟩, .inr (hrank draw hof)⟩
      · rcases hmeets.client L hk' hfit hs hg with ⟨hmeets', hrank⟩ | hconn
        · exact ⟨.inl ⟨hmeets', htook'⟩, .inr hrank⟩
        · exact ⟨.inr (.inl hconn.1), .inl (.inl hconn.1)⟩
  · exact absurd hsettled hover

/-- `connect` is called, and brought to its end. -/
theorem Joining.settles (h : Joining L c k peer password serverPassword N xs) (htook : N.sys.tasks c ≠ .idle)
    (hk : L.exchange c L.clientPublic = some k) (hfit : Fits L (0 :: password)) (draw : Uuid4) :
    ∃ N' xs', Lts.Run (Lts.Guarded (Lts.shown (Net.step L c))
      (Lts.Showing fun N a o => N.Gentle L c a o ∧ a.Of c draw)) N N' xs' ∧ N'.Settled L c := by
  rcases h.stands with hun | ⟨relogUuid, -, hmeets | hconn⟩
  · have hlogin : Fits L (Secrecy.login none) := fits_of_length L (by decide)
    obtain ⟨C, o, hs, hmeets⟩ := hun.calls L h.sound hlogin k xs
    obtain ⟨N', xs', hrun, hsettled⟩ := hmeets.settles L htook hk hfit draw
    have hshown : Lts.shown (Net.step L c) N (.client (.connect none)) =
        some (N.flow c (.client (.connect none)) N.sys C o,
          [⟨N, .client (.connect none), o, N.flow c (.client (.connect none)) N.sys C o⟩]) := by
      simp only [Lts.shown, Net.step, hs]
    refine ⟨N', _, (Lts.Run.single ⟨_, hshown, ?_⟩).trans hrun, hsettled⟩
    intro x hx
    obtain rfl := List.mem_singleton.1 hx
    exact ⟨⟨⟨fun _ hm => (by cases hm), fun _ hm => (by cases hm)⟩, trivial, hlogin⟩, trivial⟩
  · exact hmeets.settles L htook hk hfit draw
  · exact ⟨N, [], .nil, .inl hconn.1⟩

theorem joining_run {S : Sys K} (hS : S.Sound) (hidle : S.tasks c = .idle)
    (hk : L.exchange c L.clientPublic = some k) (hfit : Fits L (0 :: password))
    (hrun : Lts.Run (Lts.Guarded (Lts.shown (Net.step L c)) (Lts.Showing (Net.Gentle L c)))
      ⟨S, .init peer password, [], []⟩ N xs) :
    Joining L c k peer password S.server.password N xs := by
  refine hrun.inv (I := fun N xs => Joining L c k peer password S.server.password N xs)
    ⟨hS, rfl, .inl ⟨rfl, .inl hidle, rfl, rfl⟩⟩ ?_
  rintro N N' xs new - hN ⟨a, hshown, hg⟩
  obtain ⟨o, hstep, rfl⟩ := Lts.shown_step hshown
  exact hN.step L hk hfit hstep (hg _ (List.mem_singleton_self _))

/-- **`connect` returns with the server's password, and only with it.**  Over a network that delivers
    what was written, in pieces of any size, and whatever the other connections and the administrator
    do, `connect` does not raise; if it returned, the passwords are the same, the server let the client
    in as it asked to be, and the client got the server's answer to its login.  Once the server took the
    connection (it can while one of its tasks accepts), the two ends alone go on from every state to the
    end: it returns, or the server refused the password. -/
theorem connect_completes {S : Sys K} (hS : S.Sound) (hidle : S.tasks c = .idle) (peer : String)
    (password : Bytes) (hk : L.exchange c L.clientPublic = some k) (hfit : Fits L (0 :: password))
    (hrun : Lts.Run (Lts.Guarded (Lts.shown (Net.step L c)) (Lts.Showing (Net.Gentle L c)))
      ⟨S, .init peer password, [], []⟩ N xs) (draw : Uuid4) :
    (∀ e, N.client.connection ≠ .failed e) ∧
    (N.client.connection = .connected → password = S.server.password ∧
      ∃ relogUuid answer, Called relogUuid xs ∧ Welcomed c relogUuid xs answer ∧
        .accepted .client answer ∈ xs.flatMap Lts.Shown.obs) ∧
    (N.sys.tasks c ≠ .idle → ∃ N' xs', Lts.Run (Lts.Guarded (Lts.shown (Net.step L c))
        (Lts.Showing fun N a o => N.Gentle L c a o ∧ a.Of c draw)) N N' xs' ∧
      (password = S.server.password → N'.client.connection = .connected) ∧
      (password ≠ S.server.password → N'.Refused L c)) := by
  have hN := joining_run L hS hidle hk hfit hrun
  refine ⟨fun e he => ?_, fun hconn => ?_, fun htook => ?_⟩
  · rcases hN.stands with hun | ⟨relogUuid, -, hmeets | hconn⟩
    · rw [hun.client] at he
      cases he
    · exact (hmeets.stage.joining L).2.2 e he
    · rw [hconn.1] at he
      cases he
  · rcases hN.stands with hun | ⟨relogUuid, hcalled, hmeets | ⟨-, hpw, answer, hwelcomed, hacc⟩⟩
    · rw [hun.client] at hconn
      cases hconn
    · exact absurd hconn (hmeets.stage.joining L).2.1
    · exact ⟨hpw.trans hN.same, relogUuid, answer, hcalled, hwelcomed, hacc⟩
  · obtain ⟨N', xs', hrun', hsettled⟩ := hN.settles L htook hk hfit draw
    have hN' := joining_run L hS hidle hk hfit (hrun.trans (hrun'.mono fun ⟨a, hs, hg⟩ =>
      ⟨a, hs, fun x hx => (hg x hx).1⟩))
    refine ⟨N', xs', hrun', fun heq => ?_, fun hne => ?_⟩
    · refine hsettled.resolve_right fun hrefused => ?_
      rcases hN'.stands with hun | ⟨relogUuid, -, hmeets | hconn⟩
      · obtain ⟨-, hc, -⟩ := hrefused
        rw [hun.client] at hc
        cases hc
      · exact hmeets.refused L hrefused (heq.trans hN'.same.symm)
      · obtain ⟨-, hc, -⟩ := hrefused
        rw [hconn.1] at hc
        cases hc
    · refine hsettled.resolve_left fun hc => ?_
      rcases hN'.stands with hun | ⟨relogUuid, -, hmeets | hconn⟩
      · rw [hun.client] at hc
        cases hc
      · exact (hmeets.stage.joining L).2.1 hc
      · exact hne (hconn.2.1.trans hN'.same)

end

/-! ## Runs on fixed inputs -/

instance (c : ConnId) (N : Net K) (a : Net.Act) (o : List (Obs K)) : Decidable (N.Gentle L c a o) :=
  have : Decidable (a.LoginFits L) := match a with
    | .client (.connect _) => inferInstanceAs (Decidable (Fits L _))
    | .client (.resume _) | .client (.sendLoop _) | .client (.recvLoop _) | .client (.call _)
    | .client (.receive _) | .client (.timeout _) | .client .close | .client (.closing _)
    | .server _ => isTrue trivial
  decidable_of_iff (N.Honest c a o ∧ N.Lossless c a ∧ a.LoginFits L)
    ⟨fun ⟨h₁, h₂, h₃⟩ => ⟨h₁, h₂, h₃⟩, fun h => ⟨h.honest, h.lossless, h.fits⟩⟩

/-- A client joins; another one, whose connection the server took, has a wrong password. -/
theorem connect_completes_sample :
    (∃ (N : Net ℕ) (xs : List (Lts.Shown (Net ℕ) Net.Act (Obs ℕ))), N.client.connection = .connected ∧
      ∃ relogUuid answer, Called relogUuid xs ∧ Welcomed 0 relogUuid xs answer ∧
        .accepted .client answer ∈ xs.flatMap Lts.Shown.obs) ∧
    ∃ (N N' : Net ℕ) (xs xs' : List (Lts.Shown (Net ℕ) Net.Act (Obs ℕ))),
      Lts.Run (Lts.Guarded (Lts.shown (Net.step stub 0)) (Lts.Showing (Net.Gentle stub 0)))
        (.init [] false "" [1]) N xs ∧
      Lts.Run (Lts.Guarded (Lts.shown (Net.step stub 0)) (Lts.Showing fun N a o =>
        N.Gentle stub 0 a o ∧ a.Of 0 sampleDraw)) N N' xs' ∧ N'.Refused stub 0 := by
  have hexec : ((Lts.exec (Lts.shown (Net.step stub 0)) joinActs (.init [] false "" [])).any fun x =>
      x.1.client.connection = .connected) = true := by decide +kernel
  have halong : Lts.Along (Lts.shown (Net.step stub 0)) (Lts.Showing (Net.Gentle stub 0)) joinActs
      (.init [] false "" []) := by decide +kernel
  obtain ⟨⟨N, xs⟩, hN, hp⟩ := Option.any_eq_true _ _ |>.1 hexec
  have hconn : N.client.connection = .connected := of_decide_eq_true hp
  have hkey : stub.exchange 0 stub.clientPublic = some 0 := by decide
  have hjoined := (connect_completes stub (sound_init [] false) rfl "" [] hkey (by decide)
    (Lts.exec_run hN halong) sampleDraw).2.1 hconn
  -- the server takes the connection of the other one
  have hstep : Lts.shown (Net.step stub 0) (.init [] false "" [1]) (.server (.connect 0)) = some _ := rfl
  have htook : Lts.Run (Lts.Guarded (Lts.shown (Net.step stub 0)) (Lts.Showing (Net.Gentle stub 0)))
      (.init [] false "" [1]) _ _ := .single ⟨.server (.connect 0), hstep, by decide +kernel⟩
  obtain ⟨N', xs', hrun, -, hrefused⟩ := (connect_completes stub (sound_init [] false) rfl "" [1] hkey
    (by decide) htook sampleDraw).2.2 (fun h => by cases h)
  exact ⟨⟨N, xs, hconn, hjoined.2⟩, _, N', _, xs', htook, hrun, hrefused (by decide)⟩

end Pipebomb
