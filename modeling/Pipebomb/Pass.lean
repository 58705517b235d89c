/-
  A pass of `accept_clients` that starts no handler.

  * `Accepting.Installs`: a LOGIN, or a RELOGIN with the uuid of a session, arrives.  The
    session is entered or rewritten before the ACK is sent, and nothing undoes that.
  * `Untraced`: `client_db` has the same uuids, and the same sockets, addresses, ciphers and
    counters.
  * `Sys.Unbound`: no session has the socket of a connection that did not log in.
  * `failed_handshake_iff`: the steps of a pass without a handler leave no trace, exactly if
    nothing was installed.
-/
import Pipebomb.Teardown

namespace Pipebomb

open ByteString

variable {K : Type} (L : Libs K)

/-! ## What arrives -/

/-- The payload that arrives at the pass behind the password. -/
def Accepting.response (a : Accepting K) (i : Input) : Option Bytes :=
  match a, i with
  | .login l buffer, .recv chunk =>
    if chunk = [] then none
    else match extractPacketFrame (buffer ++ chunk) with
      | (some f, _, none) => match verifyPacket L f (some l.cipher) l.rxNonce with
        | .ok (.payload response _) => some response
        | _ => none
      | _ => none
  | _, _ => none

/-- LOGIN, or RELOGIN with the uuid of a session. -/
def LoginOf (s : Server K) (response : Bytes) : Prop :=
  ∃ type_ rest, response = type_ :: rest ∧
    (type_ = 0xC5 ∨ type_ = 0xC4 ∧ latin1Decode rest ∈ s.clientDb)

/-- The pass enters or rewrites a session. -/
def Accepting.Installs (s : Server K) (a : Accepting K) (i : Input) : Prop :=
  ∃ response, a.response L i = some response ∧ LoginOf s response

/-- `client_db` has the same uuids, and each session the same link. -/
structure Untraced (s s' : Server K) : Prop where
  uuids : ∀ u, u ∈ s'.clientDb ↔ u ∈ s.clientDb
  sessions : ∀ u cl, s.client u = some cl → ∃ cl', s'.client u = some cl' ∧
    cl'.socket = cl.socket ∧ cl'.address = cl.address ∧ cl'.cipher = cl.cipher ∧
      cl'.txNonce = cl.txNonce ∧ cl'.rxNonce = cl.rxNonce

theorem Untraced.refl (s : Server K) : Untraced s s :=
  ⟨fun _ => .rfl, fun _ cl h => ⟨cl, h, rfl, rfl, rfl, rfl, rfl⟩⟩

/-- The connection did not log in. -/
def Task.Anonymous : Task (Accepting K) → Prop
  | .idle => True
  | .accept (.sendLogin _ _ _) => False
  | .accept _ => True
  | _ => False

/-- A session was entered or rewritten for the connection. -/
def Installed (s s' : Server K) (c : ConnId) (draw : Uuid4) : Prop :=
  (∃ cl : Client K, cl.socket = some c ∧ s' = s.addSession draw.str cl) ∨
    ∃ u r k, s.clientDb.get? u = some r ∧ s' = s.modify r (Client.attach c k)

section
variable {s : Server K} {c : ConnId} {a : Accepting K} {i : Input} {draw : Uuid4}
  {o : Outcome K (Accepting K)}

theorem sendHandshake_anonymous (l : Locals K) (data : Bytes) (l' : Locals K) (u : PyStr) (r : Ref) :
    ¬ (sendHandshake L s c l data (.sendLogin l' u r)).2.1.Anonymous := by
  unfold sendHandshake
  rw [seen_task]
  split
  · exact id
  · exact id

theorem onLogin_installs (l : Locals K) (frame : Bytes) (draw : Uuid4) :
    (∃ response rem, verifyPacket L frame (some l.cipher) l.rxNonce = .ok (.payload response rem) ∧
      LoginOf s response ∧ Installed s (onLogin L s c l frame draw).1 c draw ∧
        ¬ (onLogin L s c l frame draw).2.1.Anonymous) ∨
    (∀ response rem, verifyPacket L frame (some l.cipher) l.rxNonce = .ok (.payload response rem) →
      ¬ LoginOf s response) ∧ (onLogin L s c l frame draw).1 = s := by
  unfold onLogin
  rw [seen_server, seen_task]
  rcases hv : verifyPacket L frame (some l.cipher) l.rxNonce with e | n | ⟨response, rem⟩
  · exact .inr ⟨fun _ _ h => (by cases h), rfl⟩
  · exact .inr ⟨fun _ _ h => (by cases h), rfl⟩
  · simp only [seen_server, seen_task]
    rcases response with _ | ⟨type_, rest⟩
    · refine .inr ⟨?_, rfl⟩
      rintro _ _ ⟨⟩ ⟨_, _, h, -⟩
      cases h
    · simp only
      split_ifs with h4 h5
      · rcases hu : s.clientDb.get? (latin1Decode rest) with _ | r
        · refine .inr ⟨?_, ?_⟩
          · rintro _ _ ⟨⟩ ⟨_, _, ⟨⟩, h | ⟨-, hm⟩⟩
            · rw [h4] at h; exact absurd h (by decide)
            · exact Dict.get?_eq_none.1 hu hm
          · simp only
            rcases errDispatch 7 with e | reply
            · rfl
            · exact sendHandshake_server L _ _ _ _ _
        · simp only [seen_server, seen_task, sendHandshake_server]
          exact .inl ⟨_, _, rfl, ⟨_, _, rfl, .inr ⟨h4, Dict.mem_of_get? hu⟩⟩,
            .inr ⟨_, r, l.cipher, hu, rfl⟩, sendHandshake_anonymous L _ _ _ _ _⟩
      · simp only [seen_server, seen_task, sendHandshake_server]
        exact .inl ⟨_, _, rfl, ⟨_, _, rfl, .inl h5⟩, .inl ⟨_, rfl, rfl⟩,
          sendHandshake_anonymous L _ _ _ _ _⟩
      · refine .inr ⟨?_, rfl⟩
        rintro _ _ ⟨⟩ ⟨_, _, ⟨⟩, h | ⟨h, -⟩⟩
        · exact h5 h
        · exact h4 h

/-- **A step of a pass that does not start the handler** installs a session, or leaves the
    server as it is. -/
theorem acceptStep_installs (ho : acceptStep L s c a i draw = some o)
    (hno : o.2.1.handler? = none) :
    (a.Installs L s i ∧ (Task.accept a).Anonymous ∧ Installed s o.1 c draw ∧ ¬ o.2.1.Anonymous) ∨
    (¬ a.Installs L s i ∧ o.1 = s ∧ (o.2.1.Anonymous → (Task.accept a).Anonymous)) := by
  -- nothing arrives but at the await for the response
  have hnone : a.response L i = none → ¬ a.Installs L s i := by
    rintro hr ⟨_, hr', -⟩
    rw [hr] at hr'
    cases hr'
  unfold acceptStep at ho
  split at ho
  · refine .inr ⟨hnone rfl, ?_, fun _ => trivial⟩
    split_ifs at ho <;> cases ho <;> rfl
  · refine .inr ⟨hnone rfl, ?_, fun _ => trivial⟩
    split at ho <;> cases ho <;> rfl
  · refine .inr ⟨hnone rfl, ?_, fun _ => trivial⟩
    split_ifs at ho
    cases ho
    unfold onChunk
    split_ifs
    · rfl
    · split
      · rfl
      · exact onPassword_server L _ _ _ _
      · rfl
  · cases ho
    exact .inr ⟨hnone rfl, rfl, fun _ => trivial⟩
  · rename_i l buffer chunk
    split_ifs at ho
    cases ho
    unfold onChunk
    split_ifs with hnil
    · exact .inr ⟨hnone (by simp [Accepting.response, hnil]), rfl, fun _ => trivial⟩
    · rcases hex : extractPacketFrame (buffer ++ chunk) with ⟨_ | f, rest, _ | n⟩
      · exact .inr ⟨hnone (by simp [Accepting.response, hex]), rfl, fun _ => trivial⟩
      · exact .inr ⟨hnone (by simp [Accepting.response, hex]), rfl, fun _ => trivial⟩
      · have hresp : (Accepting.login l buffer).response L (.recv chunk) =
            match verifyPacket L f (some l.cipher) l.rxNonce with
            | .ok (.payload response _) => some response
            | _ => none := by
          simp only [Accepting.response, if_neg hnil, hex]
        rcases onLogin_installs L (s := s) (c := c) l f draw with
          ⟨response, rem, hv, hlogin, hin, hout⟩ | ⟨hno', hs⟩
        · refine .inl ⟨⟨response, ?_, hlogin⟩, trivial, hin, hout⟩
          rw [hresp, hv]
        · refine .inr ⟨?_, hs, fun _ => trivial⟩
          rintro ⟨response, hr, hlogin⟩
          rw [hresp] at hr
          split at hr
          · rename_i hv
            cases hr
            exact hno' _ _ hv hlogin
          · cases hr
      · exact .inr ⟨hnone (by simp [Accepting.response, hex]), rfl, fun _ => trivial⟩
  · cases ho; cases hno
  · cases ho; cases hno
  · cases ho
    refine .inr ⟨hnone ?_, rfl, fun h => h.elim⟩
    unfold Accepting.response
    split
    · rename_i h
      cases h
    · rfl
  · cases ho

end

/-! ## Sockets -/

/-- No session has the socket of a connection that did not log in. -/
def Sys.Unbound (S : Sys K) : Prop :=
  ∀ c, (S.tasks c).Anonymous → ∀ r, (S.server.objs r).socket ≠ some c

/-- Every object has its socket. -/
def SameSockets (s s' : Server K) : Prop := ∀ r, (s'.objs r).socket = (s.objs r).socket

section
variable {s s' s'' : Server K} {c : ConnId} {h : Handler} {i : Input} {draw : Uuid4}

theorem SameSockets.trans (h : SameSockets s s') (h' : SameSockets s' s'') : SameSockets s s'' :=
  fun r => (h' r).trans (h r)

theorem Quiet.sockets (h : Quiet s s') : SameSockets s s' := fun r => (h.link r).socket

theorem modify_sockets (r : Ref) {f : Client K → Client K} (hf : ∀ cl, (f cl).socket = cl.socket) :
    SameSockets s (s.modify r f) := by
  intro r'
  rw [Server.modify_objs]
  split_ifs
  · exact hf _
  · rfl

theorem teardown_sockets (s : Server K) (u : PyStr) : SameSockets s (teardown s u) := by
  intro r
  unfold teardown
  split_ifs <;> rfl

theorem Sends.sockets {A : Type} {reply : Except PyErr Bytes} {held : Held} {after : After}
    {out : Outcome K A} (hs : Sends L s c h reply held after out) : SameSockets s out.1 := by
  rcases hs.server with h | h
  · rw [h]; exact fun _ => rfl
  · rw [h]; exact (release_quiet s held).sockets

/-- A handler keeps the sockets. -/
theorem Move.sockets {A : Type} {out : Outcome K A} (hm : Move L s c h i draw out) :
    SameSockets s out.1 := by
  have hreceived : ∀ r, SameSockets s (s.modify r Client.received) :=
    fun r => modify_sockets r fun _ => rfl
  cases hm with
  | still => exact fun _ => rfl
  | refuse _ _ _ _ hs => exact (hreceived _).trans (hs.sockets L)
  | payload h₁ h₂ h₃ h₄ h₅ hp =>
    rename_i r h' frame rem os out
    have hd := (hreceived r).trans
      (dispatch_quiet (s.modify r Client.received) h.uuid h'.data draw).sockets
    cases hp with
    | reply _ hs => exact hd.trans (hs.sockets L)
    | wait => exact hd
    | raise => exact hd
    | bye => exact hd.trans (teardown_sockets _ _)
  | db _ _ _ hs =>
    have hlock : SameSockets s (s.setDbLock true) := fun _ => rfl
    exact (hlock.trans (dbOp_quiet _ _ _).sockets).trans (hs.sockets L)
  | inboxGet _ _ _ hs =>
    exact (modify_sockets (f := Client.setInbox _) _ fun _ => rfl).trans (hs.sockets L)
  | outboxPut _ _ _ hs =>
    exact (modify_sockets (f := Client.setOutbox _) _ fun _ => rfl).trans (hs.sockets L)
  | outboxNone _ _ _ _ hs =>
    exact (modify_sockets (f := Client.setOutboxLock true) _ fun _ => rfl).trans (hs.sockets L)
  | outboxGet _ _ _ _ hs =>
    rename_i r id p _ _ _ _
    have hlock : SameSockets s (s.modify r (Client.setOutboxLock true)) :=
      modify_sockets r fun _ => rfl
    exact (hlock.trans (modify_sockets (f := Client.setOutbox _) r fun _ => rfl)).trans (hs.sockets L)
  | sent =>
    exact (modify_sockets (f := Client.sent) _ fun _ => rfl).trans (release_quiet _ _).sockets
  | close =>
    exact ((modify_sockets (f := Client.sent) _ fun _ => rfl).trans (release_quiet _ _).sockets).trans
      (teardown_sockets _ _)
  | die => exact (release_quiet _ _).sockets

/-- A new object does not have the socket. -/
theorem addSession_socket {u : PyStr} {cl : Client K} (hs : ∀ r, (s.objs r).socket ≠ some c)
    (hcl : cl.socket ≠ some c) (r : Ref) : ((s.addSession u cl).objs r).socket ≠ some c := by
  by_cases hr : r = s.fresh
  · subst hr
    rw [Server.addSession_objs_fresh]
    exact hcl
  · have he : (s.addSession u cl).objs r = s.objs r := by
      simp [Server.addSession, Function.update_of_ne hr]
    rw [he]
    exact hs r

/-- The handshake of a connection gives nobody the socket of another. -/
theorem Joins.sockets {a : Accepting K} {out : Outcome K (Accepting K)} {c' : ConnId}
    (hj : Joins s c' draw a out) (hc : c' ≠ c) (hs : ∀ r, (s.objs r).socket ≠ some c) (r : Ref) :
    (out.1.objs r).socket ≠ some c := by
  have hne : some c' ≠ some c := fun he => hc (Option.some.inj he)
  cases hj with
  | still => exact hs r
  | login => exact addSession_socket hs hne r
  | attach hu _ _ _ =>
    simp only [Server.modify_objs]
    split_ifs
    · exact hne
    · exact hs r
  | unknown =>
    simp only [Server.modify_objs]
    split_ifs
    · exact addSession_socket hs hne r
    · exact addSession_socket hs hne r
  | finish =>
    simp only [Server.modify_objs]
    split_ifs
    · exact hs r
    · exact hs r

/-- No administrative call gives anybody a socket. -/
theorem admin_sockets (op : Admin) (hs : ∀ r, (s.objs r).socket ≠ some c) (r : Ref) :
    ((op.run s).1.objs r).socket ≠ some c := by
  have hmod : ∀ (s : Server K) (r' : Ref) (f : Client K → Client K), (∀ cl, (f cl).socket = cl.socket) →
      (∀ r, (s.objs r).socket ≠ some c) → ((s.modify r' f).objs r).socket ≠ some c := by
    intro s r' f hf hs
    rw [modify_sockets r' hf r]
    exact hs r
  cases op with
  | addClient t =>
    simp only [Admin.run, addClient]
    split_ifs
    · exact hs r
    · exact hs r
    · exact hs r
    · exact addSession_socket hs (by simp [Client.preset]) r
  | removeClient uuid =>
    simp only [Admin.run, removeClient]
    split_ifs
    · exact hs r
    · split
      · exact hs r
      · split
        · exact hs r
        · exact hs r
  | addKey key uuid =>
    simp only [Admin.run, addKey]
    split_ifs
    · exact hs r
    · exact hs r
    · split
      · exact hs r
      · exact hmod _ _ _ (fun _ => rfl) hs
  | removeKey key uuid =>
    simp only [Admin.run, removeKey]
    split_ifs
    · exact hs r
    · split
      · exact hs r
      · split
        · exact hmod _ _ _ (fun _ => rfl) hs
        · exact hs r
    · exact hs r

end

section
variable {S S' : Sys K} {a : Act} {o : List (Obs K)}

theorem unbound_init (password : Bytes) (keep : Bool) : (Sys.init password keep : Sys K).Unbound := by
  intro c _ r
  simp [Sys.init, Server.init, Client.preset]

/-- A step keeps the sockets with the connections that logged in. -/
theorem step_unbound (hS : S.Sound) (hI : S.Unbound) (hstep : S.step L a = some (S', o)) :
    S'.Unbound := by
  -- the connection that goes on, and the others
  have hput : ∀ (c : ConnId) (s : Server K) (t : Task (Accepting K)),
      (t.Anonymous → ∀ r, (s.objs r).socket ≠ some c) →
      (∀ c', c' ≠ c → (∀ r, (S.server.objs r).socket ≠ some c') → ∀ r, (s.objs r).socket ≠ some c') →
      (S.put c s t).Unbound := by
    intro c s t hself hother c' hc'
    by_cases hc : c' = c
    · subst hc
      rw [put_tasks_self] at hc'
      exact hself hc'
    · rw [put_tasks_ne hc] at hc'
      exact hother c' hc (hI c' hc')
  rcases step_cases L hstep with ⟨c, rfl, hidle, rfl, rfl⟩ | ⟨c, i, draw, s, t, rfl, ht, rfl⟩ |
    ⟨op, rfl, rfl, rfl⟩
  · exact hput _ _ _ (fun _ => hI c (by rw [hidle]; trivial)) fun _ _ h => h
  · rcases htask : S.tasks c with _ | a | h | e
    · rw [htask] at ht; cases ht
    · rw [htask] at ht
      refine hput _ _ _ (fun hanon => ?_) fun c' hc h =>
        (acceptStep_joins L ht).sockets (Ne.symm hc) h
      have hno : t.handler? = none := by
        cases t with
        | handler h => exact hanon.elim
        | _ => rfl
      obtain ⟨-, -, -, hout⟩ | ⟨-, hs, hbefore⟩ := acceptStep_installs L ht hno
      · exact absurd hanon hout
      · simp only at hs
        rw [hs]
        exact hI c (by rw [htask]; exact hbefore hanon)
    · have hframe := hS.tidy c
      rw [htask] at ht hframe
      have hs : SameSockets S.server s := (handlerStep_move L hframe ht).sockets L
      refine hput _ _ _ (fun hanon => ?_) fun c' _ h r => by rw [hs r]; exact h r
      have hstays : t.Stays h.uuid := handlerStep_stays L ht
      cases t with
      | handler h => exact hanon.elim
      | «over» e => exact hanon.elim
      | idle => exact hstays.elim
      | accept a => exact hstays.elim
    · rw [htask] at ht; cases ht
  · exact fun c hc r => admin_sockets op (hI c hc) r

theorem run_unbound {ok : Sys K → Act → List (Obs K) → Prop} {password : Bytes} {keep : Bool}
    {os : List (Obs K)} (hrun : Lts.Run (Lts.Guarded (Sys.step L) ok) (.init password keep) S os) :
    S.Unbound :=
  (hrun.inv (I := fun S _ => S.Sound ∧ S.Unbound) ⟨sound_init _ _, unbound_init _ _⟩
    fun _ ⟨hS, hI⟩ ⟨_, hstep, _⟩ => ⟨step_sound L hS hstep, step_unbound L hS hI hstep⟩).2

end

/-! ## Passes without a handler -/

/-- An installed session is a trace. -/
theorem Installed.traced {s s' : Server K} {c : ConnId} {draw : Uuid4}
    (hs : ∀ r, (s.objs r).socket ≠ some c) (h : Installed s s' c draw) : ¬ Untraced s s' := by
  intro hun
  -- a session that was there did not have the socket of the connection
  have hold : ∀ u cl', s'.client u = some cl' → cl'.socket = some c → u ∉ s.clientDb := by
    intro u cl' hcl' hsock hu
    obtain ⟨r, hr⟩ := Dict.mem_iff.1 hu
    obtain ⟨cl'', hcl'', hsocket, -⟩ := hun.sessions u _ (Server.client_eq_some.2 ⟨r, hr, rfl⟩)
    obtain rfl := Option.some.inj (hcl'.symm.trans hcl'')
    exact hs r (hsocket.symm.trans hsock)
  rcases h with ⟨cl, hcl, rfl⟩ | ⟨u, r, k, hu, rfl⟩
  · have hnew : (s.addSession draw.str cl).client draw.str = some cl :=
      Server.client_eq_some.2 ⟨s.fresh, by simp, by simp⟩
    refine hold _ _ hnew hcl ((hun.uuids _).1 ?_)
    exact Dict.mem_set.2 (.inl rfl)
  · have hnew : (s.modify r (Client.attach c k)).client u = some (Client.attach c k (s.objs r)) :=
      Server.client_eq_some.2 ⟨r, hu, by simp⟩
    exact hold _ _ hnew rfl (Dict.mem_of_get? hu)

/-- The steps of the connection leave no trace. -/
def NoTrace (c : ConnId) (xs : List (Lts.Shown (Sys K) Act (Obs K))) : Prop :=
  ∀ x ∈ xs, ∀ i draw, x.act = .resume c i draw → Untraced x.before.server x.after.server

/-- No LOGIN and no RELOGIN with the uuid of a session arrives at the pass. -/
def NoLogin (c : ConnId) (xs : List (Lts.Shown (Sys K) Act (Obs K))) : Prop :=
  ∀ x ∈ xs, ∀ i draw a, x.act = .resume c i draw → x.before.tasks c = .accept a →
    ¬ a.Installs L x.before.server i

section
variable {S : Sys K} {xs : List (Lts.Shown (Sys K) Act (Obs K))} {c : ConnId}

/-- The connection started no handler. -/
def NoHandler (c : ConnId) (xs : List (Lts.Shown (Sys K) Act (Obs K))) : Prop :=
  ∀ x ∈ xs, (x.after.tasks c).handler? = none

theorem run_noHandler {S₀ : Sys K} (h₀ : (S₀.tasks c).handler? = none)
    {ok : Sys K → Act → List (Obs K) → Prop}
    (hrun : Lts.Run (Lts.Guarded (Lts.shown (Sys.step L)) (Lts.Showing ok)) S₀ S xs)
    (hno : NoHandler c xs) : (S.tasks c).handler? = none := by
  cases hrun with
  | nil => exact h₀
  | snoc _ hst =>
    obtain ⟨a, hs, -⟩ := hst
    obtain ⟨o, -, rfl⟩ := Lts.shown_step hs
    exact hno _ (List.mem_append_right _ (List.mem_singleton.2 rfl))

/-- **Failed handshakes.**  In every run, the steps of a pass that starts no handler leave
    no trace in `client_db`, exactly if no LOGIN and no RELOGIN with the uuid of a session
    arrives. -/
theorem failed_handshake_iff {password : Bytes} {keep : Bool}
    (hrun : Lts.Run (Lts.Guarded (Lts.shown (Sys.step L)) (Lts.Showing fun _ _ _ => True))
      (.init password keep) S xs) (hno : NoHandler c xs) : NoTrace c xs ↔ NoLogin L c xs := by
  -- one step of the pass
  have hstep : ∀ x ∈ xs, ∀ i draw, x.act = .resume c i draw → ∃ a, x.before.tasks c = .accept a ∧
      (Untraced x.before.server x.after.server ↔ ¬ a.Installs L x.before.server i) := by
    intro x hx i draw hact
    obtain ⟨xs₁, xs₂, rfl, hbefore, hstep, -⟩ := Lts.shown_mem hrun hx
    have hun := run_unbound L (Lts.shown_run hbefore) c
    have hh := run_noHandler L (c := c) rfl hbefore fun y hy => hno y (by simp [hy])
    have hafter := hno x hx
    rw [hact] at hstep
    obtain ⟨_, ha, -⟩ | ⟨_, _, _, s, t, ha, ht, he⟩ | ⟨_, ha, -⟩ := step_cases L hstep
    · cases ha
    · cases ha
      rw [he, put_tasks_self] at hafter
      rcases htask : x.before.tasks c with _ | a | h | e
      · rw [htask] at ht; cases ht
      · rw [htask] at ht hun
        refine ⟨a, rfl, ?_⟩
        rw [he, put_server]
        obtain ⟨hin, hanon, hin', -⟩ | ⟨hin, hs, -⟩ := acceptStep_installs L ht hafter
        · exact iff_of_false (hin'.traced (hun hanon)) (not_not.2 hin)
        · simp only at hs
          rw [hs]
          exact iff_of_true (.refl _) hin
      · rw [htask] at hh; cases hh
      · rw [htask] at ht; cases ht
    · cases ha
  constructor
  · intro h x hx i draw a hact htask
    obtain ⟨a', htask', hiff⟩ := hstep x hx i draw hact
    rw [htask] at htask'
    cases htask'
    exact hiff.1 (h x hx i draw hact)
  · intro h x hx i draw hact
    obtain ⟨a, htask, hiff⟩ := hstep x hx i draw hact
    exact hiff.2 (h x hx i draw a hact htask)

end

/-! ## Runs on fixed inputs -/

instance (s : Server K) (response : Bytes) : Decidable (LoginOf s response) :=
  match response with
  | [] => isFalse fun ⟨_, _, h, _⟩ => (by cases h)
  | type_ :: rest =>
    decidable_of_iff (type_ = 0xC5 ∨ type_ = 0xC4 ∧ latin1Decode rest ∈ s.clientDb)
      ⟨fun h => ⟨type_, rest, rfl, h⟩, fun ⟨_, _, he, h⟩ => by cases he; exact h⟩

instance (s : Server K) (a : Accepting K) (i : Input) : Decidable (a.Installs L s i) :=
  match hr : a.response L i with
  | none => isFalse fun ⟨_, h, _⟩ => (by rw [hr] at h; cases h)
  | some response =>
    decidable_of_iff (LoginOf s response)
      ⟨fun h => ⟨response, hr, h⟩, fun ⟨_, he, h⟩ => by rw [hr] at he; cases he; exact h⟩

/-- The step is one of the connection that does not log in. -/
def quietPass (c : ConnId) (x : Lts.Shown (Sys K) Act (Obs K)) : Bool :=
  match x.act, x.before.tasks c with
  | .resume c' i _, .accept a => c' ≠ c || ¬ a.Installs L x.before.server i
  | _, _ => true

theorem noLogin_of_all {c : ConnId} {xs : List (Lts.Shown (Sys K) Act (Obs K))}
    (h : xs.all (quietPass L c) = true) : NoLogin L c xs := by
  intro x hx i draw a hact htask
  have hx := List.all_eq_true.1 h x hx
  simpa [quietPass, hact, htask] using hx

instance (c : ConnId) (xs : List (Lts.Shown (Sys K) Act (Obs K))) : Decidable (NoHandler c xs) :=
  inferInstanceAs (Decidable (∀ x ∈ xs, _))

/-- A client connects and sends a password. -/
def passwordActs (password : Bytes) : List Act :=
  .connect 0 :: [.recv stubClientPublic, .sent, .recv (stubPacket 0 0 (0 :: password))].map fun i =>
    .resume 0 i sampleDraw

/-- Connection 1 logs in, and 0 has a wrong password. -/
def loginThenWrong : List Act := loginActs 1 [0xC5] ++ passwordActs [1]

/-- The pass of connection 0 leaves the session of connection 1 as it is. -/
theorem failed_handshake_sample : ∃ (S : Sys ℕ) (xs : List (Lts.Shown (Sys ℕ) Act (Obs ℕ))),
    Lts.Run (Lts.Guarded (Lts.shown (Sys.step stub)) (Lts.Showing fun _ _ _ => True))
      (.init [] false) S xs ∧ NoHandler 0 xs ∧ S.tasks 0 = .over none ∧
    sampleUuid ∈ S.server.clientDb ∧ NoTrace 0 xs := by
  have hexec : ((Lts.exec (Lts.shown (Sys.step stub)) loginThenWrong (.init [] false)).any fun x =>
      x.1.tasks 0 = .over none && NoHandler 0 x.2 && x.2.all (quietPass stub 0) &&
        sampleUuid ∈ x.1.server.clientDb) = true := by
    decide +kernel
  have halong : Lts.Along (Lts.shown (Sys.step stub)) (Lts.Showing fun _ _ _ => True)
      loginThenWrong (.init [] false) := by decide +kernel
  obtain ⟨⟨S, xs⟩, hS, hp⟩ := Option.any_eq_true _ _ |>.1 hexec
  simp only [Bool.and_eq_true, decide_eq_true_eq] at hp
  obtain ⟨⟨⟨hover, hno⟩, hquiet⟩, hmem⟩ := hp
  have hrun := Lts.exec_run hS halong
  exact ⟨S, xs, hrun, hno, hover, hmem,
    (failed_handshake_iff stub hrun hno).2 (noLogin_of_all stub hquiet)⟩

/-- The coroutine of the connection is resumed. -/
def Act.resumes (c : ConnId) : Act → Bool
  | .resume c' _ _ => c' = c
  | .connect _ | .admin _ => false

/-- **A session stays.**  The connection breaks while the ACK to LOGIN is sent: the pass
    ends without a handler, and a new session is in `client_db`. -/
theorem failed_login_traced : ∃ (S : Sys ℕ) (xs : List (Lts.Shown (Sys ℕ) Act (Obs ℕ))),
    Lts.Run (Lts.Guarded (Lts.shown (Sys.step stub)) (Lts.Showing fun _ _ _ => True))
      (.init [] false) S xs ∧ NoHandler 0 xs ∧ S.tasks 0 = .over (some .osError) ∧
      ¬ NoTrace 0 xs ∧ sampleUuid ∈ S.server.clientDb := by
  have hexec : ((Lts.exec (Lts.shown (Sys.step stub))
      (passwordActs [] ++ drawing sampleDraw 0 [.sent, .recv (stubPacket 0 1 [0xC5]), .raise .osError])
      (.init [] false)).any fun x =>
        NoHandler 0 x.2 && x.1.tasks 0 = .over (some .osError) && sampleUuid ∈ x.1.server.clientDb &&
        x.2.any fun y => y.act.resumes 0 && sampleUuid ∉ y.before.server.clientDb &&
          sampleUuid ∈ y.after.server.clientDb) = true := by
    decide +kernel
  have halong : Lts.Along (Lts.shown (Sys.step stub)) (Lts.Showing fun _ _ _ => True)
      (passwordActs [] ++ drawing sampleDraw 0 [.sent, .recv (stubPacket 0 1 [0xC5]), .raise .osError])
      (.init [] false) := by decide +kernel
  obtain ⟨⟨S, xs⟩, hS, hp⟩ := Option.any_eq_true _ _ |>.1 hexec
  simp only [Bool.and_eq_true, decide_eq_true_eq] at hp
  refine ⟨S, xs, Lts.exec_run hS halong, hp.1.1.1, hp.1.1.2, fun h => ?_, hp.1.2⟩
  obtain ⟨y, hy, hq⟩ := List.any_eq_true.1 hp.2
  simp only [Bool.and_eq_true, decide_eq_true_eq] at hq
  obtain ⟨⟨hact, hbefore⟩, hafter⟩ := hq
  rcases hres : y.act with c | ⟨c, i, draw⟩ | op
  · rw [hres] at hact
    cases hact
  · rw [hres] at hact
    obtain rfl : c = 0 := of_decide_eq_true hact
    exact hbefore (((h y hy i draw hres).uuids _).1 hafter)
  · rw [hres] at hact
    cases hact

end Pipebomb
