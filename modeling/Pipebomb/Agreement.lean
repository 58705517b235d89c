/-
  What a client knows about the server when `connect` returns.

  The attacker decides which chunks arrive; the cipher is ideal for the connection.

  * `Net.HasSession`: the connection has a session with the key.
  * `Net.Confirmed`: the reply to the login is a packet of the server, and a session that is
    made after the reply is made before it arrives.
  * `handshake_agreement`: then the server has a session with the client's key when `connect`
    returns.  `handshake_disagreement` is a run in which the reply does not verify, and
    `connect` returns without a session.
-/
import Pipebomb.Login
import Pipebomb.Replay

namespace Pipebomb

open ByteString

variable {K : Type} (L : Libs K)

/-- The pass is sending error 7. -/
def Task.SendsUnknown : Task (Accepting K) → Prop
  | .accept (.sendUnknown _) => True
  | _ => False

/-- What a chunk that completes the reply to the login opens to. -/
def RawClient.loginReply (C : RawClient K) (chunk : Bytes) : Option (Except PyErr Verified) :=
  match C.connection with
  | .reply buffer => match extractPacketFrame (buffer ++ chunk) with
    | (some f, _, none) => some (verifyPacket L f C.cipher C.rxNonce)
    | _ => none
  | _ => none

namespace Net

/-- The connection has a session with the key: a new one, or the one that the client names. -/
def HasSession (c : ConnId) (k : K) (N : Net K) (os : List (Obs K)) : Prop :=
  ∃ u r, N.sys.server.clientDb.get? u = some r ∧ (N.sys.server.objs r).cipher = some k ∧
    (N.sys.server.objs r).socket = some c ∧
      (.session c u ∈ os ∨
        ∃ uuid, N.client.relogUuid = some uuid ∧ u = latin1Decode uuid ∧ .relogin c u ∈ os)

/-- What the reply to the login opens to: it is from the server, not the client's own login,
    and under a key of the connection.  If it answers a RELOGIN with an unknown uuid, its
    send ended. -/
def Vouched (c : ConnId) (N : Net K) : Option (Except PyErr Verified) → Prop
  | some (.ok (.code _)) => False
  | some (.ok (.payload data _)) => data ≠ N.client.loginPayload ∧
      (∀ k ∈ N.client.cipher, L.owner k = c) ∧ ¬ (N.sys.tasks c).SendsUnknown
  | _ => True

/-- The reply to the login is from the server, and the send of error 7 raises nothing. -/
def Confirmed (c : ConnId) (N : Net K) : Act → Prop
  | .client (.resume (.recv chunk)) => N.Vouched L c (N.client.loginReply L chunk)
  | .server (.resume c' (.raise _) _) => c' = c → ¬ (N.sys.tasks c).SendsUnknown
  | _ => True

/-- On the way from `N₀` the connection had a session with the client's key `k`, and the
    client took a packet that the server sealed for the reply to its login. -/
def Agreed (c : ConnId) (step : Net K → Net K → List (Obs K) → Prop) (N₀ N : Net K)
    (os : List (Obs K)) : Prop :=
  ∃ k data, (∀ k' ∈ N.client.cipher, k' = k) ∧ Lts.Was step N₀ (HasSession c k) N os ∧
    .encrypt (.server c) k 1 data ∈ os ∧
      [.decrypt .client k 1 (sealed L k 1 data), .accepted .client data] <:+: os

/-- **The invariant of a run.** -/
structure Agrees (c : ConnId) (step : Net K → Net K → List (Obs K) → Prop) (N₀ N : Net K)
    (os : List (Obs K)) : Prop where
  keys : ∀ r k, (N.sys.server.objs r).cipher = some k → L.owner k = c →
    Lts.Was step N₀ (HasSession c k) N os
  stages : ∀ c', (N.sys.tasks c').AtStage L c'
  early : (N.sys.tasks c).Unanswered → ∀ k n data, .encrypt (.server c) k n data ∈ os → n = 0
  second : ∀ k data, .encrypt (.server c) k 1 data ∈ os → Fits L data → L.owner k = c →
    Lts.Was step N₀ (HasSession c k) N os ∨
      ∃ l, N.sys.tasks c = .accept (.sendUnknown l) ∧ l.cipher = k
  client : N.client.LoggedIn os
  returned : N.client.connection = .connected → Agreed L c step N₀ N os

end Net

variable {c : ConnId} {os o : List (Obs K)} {N₀ N N' : Net K}
  {step : Net K → Net K → List (Obs K) → Prop}

/-! ## The server -/

/-- A RELOGIN is processed before it is answered. -/
theorem acceptStep_relogin {s : Server K} {a : Accepting K} {i : Input} {draw : Uuid4}
    {out : Outcome K (Accepting K)} (ho : acceptStep L s c a i draw = some out) {u : PyStr}
    (hm : .relogin c u ∈ out.2.2) : Task.Unanswered (.accept a) := by
  cases a with
  | sendUnknown l =>
    cases i <;> simp only [acceptStep, reduceCtorEq] at ho
    · cases ho; simp [finish, seen] at hm
    · cases ho; simp [logged] at hm
  | sendLogin l uuid r =>
    cases i <;> simp only [acceptStep, reduceCtorEq] at ho
    · cases ho; simp [finish] at hm
    · cases ho; simp [logged] at hm
  | _ => trivial

theorem admin_keys {s : Server K} {op : Admin} {r : Ref} {k : K}
    (h : ((op.run s).1.objs r).cipher = some k) : (s.objs r).cipher = some k := by
  cases op with
  | addClient t =>
    simp only [Admin.run, addClient] at h
    split_ifs at h
    · exact h
    · exact h
    · exact h
    · exact (addSession_keys h).resolve_right (by simp [Client.preset])
  | removeClient uuid =>
    simp only [Admin.run, removeClient] at h
    split_ifs at h
    · exact h
    · split at h
      · exact h
      · split at h
        · exact h
        · exact h
  | addKey key uuid =>
    simp only [Admin.run, addKey] at h
    split_ifs at h
    · exact h
    · exact h
    · split at h
      · exact h
      · rename_i r' _
        exact (sameKeys_modify (s.setBook _) r' (f := Client.own key) (fun _ => rfl) r).symm.trans h
  | removeKey key uuid =>
    simp only [Admin.run, removeKey] at h
    split_ifs at h
    · exact h
    · split at h
      · exact h
      · split_ifs at h
        · rename_i r' _ _
          exact (sameKeys_modify (s.setBook _) r' (f := Client.disown key) (fun _ => rfl) r).symm.trans h
        · exact h
    · exact h

/-- A session that a pass enters is the one the client asked for. -/
theorem Enters.hasSession {k : K} {S : Sys K} {a : Net.Act} (h : Enters L c k S.server o)
    (hI : Net.Agrees L c step N₀ N os)
    (hun : ∀ u, .relogin c u ∈ o → (N.sys.tasks c).Unanswered) (hideal : Ideal L c (os ++ o)) :
    (N.flow c a S N.client o).HasSession c k (os ++ o) := by
  obtain ⟨-, u, r, hu, hk, hs, hm | ⟨hm, before, ct, after, plaintext, uuid, rfl, hb, hd, ho, rfl⟩⟩ := h
  · exact ⟨u, r, hu, hk, hs, .inl (List.mem_append_right _ hm)⟩
  · refine ⟨_, r, hu, hk, hs, .inr ⟨uuid, ?_, rfl, List.mem_append_right _ hm⟩⟩
    rw [← List.append_assoc] at hideal
    obtain ⟨q, data, hq, hsealed, rfl⟩ := hideal.at (.inr rfl) (by rw [hd]; exact Option.some_ne_none _)
    rw [sealed, L.decrypt_encrypt] at hd
    cases hd
    obtain rfl := openPlaintext_eq L ho
    rcases List.mem_append.1 hsealed with hsealed | hsealed
    · rcases hq with rfl | rfl
      · have hlogin := (hI.client.login k _ hsealed).1
        unfold RawClient.loginPayload at hlogin
        split at hlogin
        · cases hlogin
        · rename_i uuid' hre
          cases hlogin
          exact hre
      · -- before its second packet the server sealed under nonce 0 only
        cases hI.early (hun _ hm) k 1 _ hsealed
    · exact absurd hsealed (hb q k 1 _)

/-- After its send of error 7 the pass enters a new session. -/
theorem sendUnknown_enters {s : Server K} {l : Locals K} {i : Input} {draw : Uuid4}
    {out : Outcome K (Accepting K)} (hl : L.owner l.cipher = c)
    (ho : acceptStep L s c (.sendUnknown l) i draw = some out) (hi : ∀ e, i ≠ .raise e) :
    Enters L c l.cipher out.1 out.2.2 := by
  cases i with
  | sent =>
    cases ho
    refine ⟨hl, draw.str, s.fresh, ?_, ?_, ?_, .inl ?_⟩
    · simp [finish]
    · simp [finish, Client.setNonces, Client.login]
    · simp [finish, Client.setNonces, Client.login]
    · simp [finish]
  | raise e => exact absurd rfl (hi e)
  | _ => cases ho

theorem Net.Agreed.snoc (h : Net.Agreed L c step N₀ N os) (hstep : step N N' o)
    (hk : ∀ k ∈ N'.client.cipher, k ∈ N.client.cipher) : Net.Agreed L c step N₀ N' (os ++ o) := by
  obtain ⟨k, data, hkey, hwas, hsealed, htook⟩ := h
  exact ⟨k, data, fun k' hk' => hkey k' (hk k' hk'), hwas.snoc hstep,
    List.mem_append_left _ hsealed, htook.trans (List.prefix_append _ _).isInfix⟩

/-- A step of the server elsewhere: it puts no key of the connection into a session and
    seals nothing on the connection. -/
theorem elsewhere_agrees {a : Net.Act} {S : Sys K} (hI : Net.Agrees L c step N₀ N os)
    (hstep : step N (N.flow c a S N.client o) o) (htask : S.tasks c = N.sys.tasks c)
    (hos : ∀ p k n data, p.At c → .encrypt p k n data ∉ o)
    (hkeys : ∀ r k, (S.server.objs r).cipher = some k → L.owner k = c →
      ∃ r', (N.sys.server.objs r').cipher = some k)
    (hstages : ∀ c', (S.tasks c').AtStage L c') :
    Net.Agrees L c step N₀ (N.flow c a S N.client o) (os ++ o) where
  keys r k hk howner := by
    obtain ⟨r', hr'⟩ := hkeys r k hk howner
    exact (hI.keys r' k hr' howner).snoc hstep
  stages := hstages
  early hun k n data hm := by
    rcases List.mem_append.1 hm with hm | hm
    · exact hI.early (by rw [← htask]; exact hun) k n data hm
    · exact absurd hm (hos _ k n data (.inr rfl))
  second k data hm hf howner := by
    rcases List.mem_append.1 hm with hm | hm
    · refine (hI.second k data hm hf howner).imp (fun h => h.snoc hstep) ?_
      rintro ⟨l, hl, hk⟩
      exact ⟨l, htask.trans hl, hk⟩
    · exact absurd hm (hos _ k 1 data (.inr rfl))
  client := hI.client.step hI.client.nonces (fun k data => hos _ k 1 data (.inl rfl)) rfl id
  returned hc := (hI.returned hc).snoc L hstep fun _ h => h

/-- A step of the connection's pass. -/
theorem pass_agrees {act : Net.Act} {a : Accepting K} {i : Input} {draw : Uuid4} {s : Server K}
    {t : Task (Accepting K)} (hrun : Lts.Run step N₀ N os) (hI : Net.Agrees L c step N₀ N os)
    (htask : N.sys.tasks c = .accept a)
    (hstep : step N (N.flow c act (N.sys.put c s t) N.client o) o)
    (ho : acceptStep L N.sys.server c a i draw = some (s, t, o))
    (hraise : ∀ e, i = .raise e → ¬ (N.sys.tasks c).SendsUnknown) (hideal : Ideal L c (os ++ o)) :
    Net.Agrees L c step N₀ (N.flow c act (N.sys.put c s t) N.client o) (os ++ o) := by
  have ha : a.AtStage L c := by
    have := hI.stages c
    rw [htask] at this
    exact this
  have hpass := acceptStep_pass L ha ho
  have hun : ∀ u, .relogin c u ∈ o → (N.sys.tasks c).Unanswered := by
    intro u hm
    rw [htask]
    exact acceptStep_relogin L ho hm
  have hwas : ∀ k, Enters L c k s o →
      Lts.Was step N₀ (Net.HasSession c k) (N.flow c act (N.sys.put c s t) N.client o) (os ++ o) :=
    fun k he => .now (hrun.snoc hstep) (Enters.hasSession L (S := N.sys.put c s t) he hI hun hideal)
  have hserver : ∀ p k n data, .encrypt p k n data ∈ o → p = .server c :=
    fun p k n data hm => (hpass.sealed p k n data hm).1
  refine ⟨fun r k hk howner => ?_, fun c' => ?_, fun hun k n data hm => ?_,
    fun k data hm hf howner => ?_, ?_, fun hc => (hI.returned hc).snoc L hstep fun _ h => h⟩
  · rcases hpass.keys r k hk with hk | he
    · exact (hI.keys r k hk howner).snoc hstep
    · exact hwas k he
  · exact put_stages L hI.stages hpass.stage c'
  · have hun : t.Unanswered := by
      have : ((N.sys.put c s t).tasks c).Unanswered := hun
      rwa [put_tasks_self] at this
    rcases List.mem_append.1 hm with hm | hm
    · exact hI.early (by rw [htask]; exact hpass.unanswered hun) k n data hm
    · exact (hpass.sealed _ k n data hm).2.2.resolve_right fun h => h hun
  · have hgoal : (N.flow c act (N.sys.put c s t) N.client o).sys.tasks c = t := put_tasks_self
    rw [hgoal]
    rcases List.mem_append.1 hm with hm | hm
    · rcases hI.second k data hm hf howner with hw | ⟨l, hl, rfl⟩
      · exact .inl (hw.snoc hstep)
      · -- the send of error 7 ends
        have hi : ∀ e, i ≠ .raise e := by
          intro e he
          refine hraise e he ?_
          rw [hl]
          trivial
        rw [hl] at htask
        cases htask
        exact .inl (hwas _ (sendUnknown_enters L ha.1 ho hi))
    · exact (hpass.second _ k data hm hf).imp_left (hwas k)
  · exact hI.client.step hI.client.nonces (fun k data hm => by cases hserver _ k 1 data hm) rfl id

/-- A step of the connection's handler. -/
theorem handler_agrees {act : Net.Act} {h : Handler} {i : Input} {draw : Uuid4} {s : Server K}
    {t : Task (Accepting K)} (hI : Net.Agrees L c step N₀ N os)
    (htask : N.sys.tasks c = .handler h)
    (hstep : step N (N.flow c act (N.sys.put c s t) N.client o) o)
    (ho : handlerStep L N.sys.server c h i draw = some (s, t, o)) :
    Net.Agrees L c step N₀ (N.flow c act (N.sys.put c s t) N.client o) (os ++ o) := by
  have hseal := handlerStep_sealing L ho
  have hobs := handlerStep_obs L ho
  have hstays := handlerStep_stays L ho
  have ht : t.Stays h.uuid := hstays
  have hkeys : ∀ r k, (N.sys.server.objs r).cipher = some k → L.owner k = c →
      Lts.Was step N₀ (Net.HasSession c k) (N.flow c act (N.sys.put c s t) N.client o) (os ++ o) :=
    fun r k hk howner => (hI.keys r k hk howner).snoc hstep
  refine ⟨fun r k hk howner => ?_, fun c' => ?_, fun hun => ?_, fun k data hm hf howner => ?_, ?_,
    fun hc => (hI.returned hc).snoc L hstep fun _ h => h⟩
  · exact hkeys r k ((hseal.keys r).symm.trans hk) howner
  · exact put_stages L hI.stages (ht.atStage L) c'
  · have hun : t.Unanswered := by
      have : ((N.sys.put c s t).tasks c).Unanswered := hun
      rwa [put_tasks_self] at this
    cases t with
    | idle => exact ht.elim
    | accept a => exact ht.elim
    | handler h' => exact hun.elim
    | «over» e => exact hun.elim
  · rcases List.mem_append.1 hm with hm | hm
    · rcases hI.second k data hm hf howner with hw | ⟨l, hl, rfl⟩
      · exact .inl (hw.snoc hstep)
      · rw [htask] at hl; cases hl
    · obtain ⟨r, hr⟩ := hseal.sealed _ k 1 data hm
      exact .inl (hkeys r k hr howner)
  · refine hI.client.step hI.client.nonces (fun k data hm => ?_) rfl id
    have hp : (Party.client : Party) = .server c := hobs _ hm
    cases hp

/-! ## The client -/

/-- A step of the client. -/
theorem client_agrees {b : RawClient.Act} {C : RawClient K}
    (hI : Net.Agrees L c step N₀ N os) (hstep : step N (N.flow c (.client b) N.sys C o) o)
    (hC : N.client.step L b = some (C, o)) (hok : N.Confirmed L c (.client b))
    (hideal : Ideal L c (os ++ o)) :
    Net.Agrees L c step N₀ (N.flow c (.client b) N.sys C o) (os ++ o) := by
  have hby := client_byClient L hC
  have hserver : ∀ k n data, .encrypt (.server c) k n data ∉ o :=
    fun k n data hm => by cases hby _ k n data hm
  refine ⟨fun r k hk howner => (hI.keys r k hk howner).snoc hstep, hI.stages,
    fun hun k n data hm => ?_, fun k data hm hf howner => ?_, client_loggedIn L hI.client hC, ?_⟩
  · rcases List.mem_append.1 hm with hm | hm
    · exact hI.early hun k n data hm
    · exact absurd hm (hserver k n data)
  · rcases List.mem_append.1 hm with hm | hm
    · exact (hI.second k data hm hf howner).imp_left fun h => h.snoc hstep
    · exact absurd hm (hserver k 1 data)
  intro hc'
  by_cases hc : N.client.connection = .connected
  · exact (hI.returned hc).snoc L hstep (connected_step L hc hC).2
  obtain ⟨buffer, chunk, f, rest, rfl, hr, hcut, hcip, hv⟩ := connect_returns L hc hC hc'
  simp only [Net.Confirmed, RawClient.loginReply, hr, hcut] at hok
  rcases hv with ⟨n, hv⟩ | ⟨data, rem, hv, ho⟩
  · rw [hv] at hok
    exact hok.elim
  rw [hv] at hok
  obtain ⟨hdata, howner, hunknown⟩ := hok
  have hrx : N.client.rxNonce = 1 := by
    have := hI.client.nonces
    rw [RawClient.AtNonces, hr] at this
    exact this.2.1
  obtain ⟨k, ct, plaintext, hk, hcall, hd, hct, hopen⟩ := decryptCall_verify L .client hv
  simp only at ho hcip
  rw [hcall] at ho
  -- the packet was sealed by an end of the connection, and not by the client
  subst ho
  obtain ⟨q, data', hq, hm, rfl⟩ := hideal.at (.inl rfl) (by rw [hd]; exact Option.some_ne_none _)
  rw [sealed, L.decrypt_encrypt] at hd
  cases hd
  obtain rfl := openPlaintext_eq L hopen
  rw [hrx] at hm hstep ⊢
  rw [length_sealed] at hct
  rcases hq with rfl | rfl
  · exact absurd (hI.client.login k _ hm).1 hdata
  refine ⟨k, data, fun k' hk' => ?_, ?_, List.mem_append_left _ hm,
    (List.suffix_append _ _).isInfix⟩
  · have hk' : k' ∈ C.cipher := hk'
    rw [hcip, hk] at hk'
    cases hk'
    rfl
  · rcases hI.second k data hm hct (howner k hk) with hw | ⟨l, hl, -⟩
    · exact hw.snoc hstep
    · exact absurd (by rw [hl]; trivial) hunknown

/-! ## Runs -/

/-- **One step.** -/
theorem step_agrees {a : Net.Act} (hrun : Lts.Run step N₀ N os)
    (hI : Net.Agrees L c step N₀ N os) (hstep : step N N' o) (ha : N.step L c a = some (N', o))
    (hok : N.Confirmed L c a) (hideal : Ideal L c (os ++ o)) :
    Net.Agrees L c step N₀ N' (os ++ o) := by
  rcases Net.step_cases L ha with ⟨b, S, rfl, hs, rfl⟩ | ⟨b, C, rfl, hC, rfl⟩
  · rcases step_cases L hs with ⟨c', rfl, hidle, rfl, rfl⟩ | ⟨c', i, draw, s, t, rfl, ht, rfl⟩ |
      ⟨op, rfl, rfl, rfl⟩
    · refine ⟨fun r k hk howner => (hI.keys r k hk howner).snoc hstep,
        put_stages L hI.stages trivial, fun hun k n data hm => ?_, fun k data hm hf howner => ?_, ?_,
        fun hc => (hI.returned hc).snoc L hstep fun _ h => h⟩
      · rw [List.append_nil] at hm
        refine hI.early ?_ k n data hm
        by_cases hc : c = c'
        · rw [hc, hidle]; trivial
        · have : ((N.sys.put c' N.sys.server (.accept (.publicKey []))).tasks c).Unanswered := hun
          rwa [put_tasks_ne hc] at this
      · rw [List.append_nil] at hm
        refine (hI.second k data hm hf howner).imp (fun h => h.snoc hstep) ?_
        rintro ⟨l, hl, hk⟩
        have hc : c ≠ c' := by
          rintro rfl
          rw [hidle] at hl
          cases hl
        exact ⟨l, (put_tasks_ne hc).trans hl, hk⟩
      · rw [List.append_nil]; exact hI.client
    · by_cases hc : c' = c
      · subst hc
        rcases hk : N.sys.tasks c' with _ | a | h | e
        · rw [hk] at ht; cases ht
        · rw [hk] at ht
          refine pass_agrees L hrun hI hk hstep ht ?_ hideal
          rintro e rfl
          exact hok rfl
        · rw [hk] at ht
          exact handler_agrees L hI hk hstep ht
        · rw [hk] at ht; cases ht
      · refine elsewhere_agrees L hI hstep (put_tasks_ne (Ne.symm hc)) ?_ ?_ ?_
        · rintro p k n data (rfl | rfl) hm
          · have hp : (Party.client : Party) = .server c' := taskStep_obs L ht _ hm
            cases hp
          · have hp : (Party.server c : Party) = .server c' := taskStep_obs L ht _ hm
            cases hp
            exact hc rfl
        · intro r k hk howner
          rcases taskStep_keys L (hI.stages c') ht r k hk with hk | hown
          · exact ⟨r, hk⟩
          · exact absurd (hown.symm.trans howner) hc
        · exact put_stages L hI.stages (taskStep_stage L (hI.stages c') ht)
    · exact elsewhere_agrees L hI hstep rfl (by simp) (fun r k hk _ => ⟨r, admin_keys hk⟩) hI.stages
  · exact client_agrees L hI hstep hC hok hideal

theorem agreement_init (c : ConnId) (password clientPassword : Bytes) (keep : Bool) (peer : String) :
    Net.Agrees L c step N₀ (.init password keep peer clientPassword) [] where
  keys r k hk _ := by cases hk
  stages _ := trivial
  early _ k n data hm := by cases hm
  second k data hm := by cases hm
  client := loggedIn_init peer clientPassword
  returned hc := by cases hc

/-- The steps in which the reply to the login is from the server. -/
def Net.ConfirmedStep (c : ConnId) : Net K → Net K → List (Obs K) → Prop :=
  Lts.Guarded (Net.step L c) fun N a _ => N.Confirmed L c a

/-- **Handshake agreement.**  Whatever the attacker delivers, if the reply to the login is
    from the server, then in every state after `connect` returned the server had a session
    with the client's key for the connection, a new one or the one the client named, and the
    client took a packet of the server for the reply. -/
theorem handshake_agreement (c : ConnId) (password clientPassword : Bytes) (keep : Bool)
    (peer : String)
    (hrun : Lts.Run (Net.ConfirmedStep L c) (.init password keep peer clientPassword) N os)
    (hideal : Ideal L c os) (hconn : N.client.connection = .connected) :
    Net.Agreed L c (Net.ConfirmedStep L c) (.init password keep peer clientPassword) N os := by
  have hI := hrun.inv (I := fun N os => Ideal L c os → Net.Agrees L c (Net.ConfirmedStep L c)
    (.init password keep peer clientPassword) N os)
    (fun _ => agreement_init L c password clientPassword keep peer) ?_ hideal
  · exact hI.returned hconn
  · rintro N N' os o hrun ih ⟨a, ha, hok⟩ hideal
    exact step_agrees L hrun (ih hideal.left) ⟨a, ha, hok⟩ ha hok hideal

/-! ## Runs on fixed inputs -/

instance : DecidablePred (Task.SendsUnknown (K := K))
  | .accept (.sendUnknown _) => isTrue trivial
  | .accept (.publicKey _) | .accept (.sendPublic _) | .accept (.password _ _)
  | .accept (.sendAck _) | .accept (.login _ _) | .accept (.sendLogin _ _ _) | .idle | .handler _
  | .over _ => isFalse id

instance (N : Net K) : DecidablePred (N.Vouched L c)
  | some (.ok (.code _)) => isFalse id
  | some (.ok (.payload _ _)) => inferInstanceAs (Decidable (_ ∧ _ ∧ _))
  | some (.error _) | none => isTrue trivial

instance (N : Net K) : DecidablePred (N.Confirmed L c)
  | .client (.resume (.recv chunk)) =>
    inferInstanceAs (Decidable (N.Vouched L c (N.client.loginReply L chunk)))
  | .server (.resume c' (.raise _) _) =>
    inferInstanceAs (Decidable (c' = c → ¬ (N.sys.tasks c).SendsUnknown))
  | .client (.resume .go) | .client (.resume .sent) | .client (.resume (.raise _))
  | .client (.connect _) | .client (.sendLoop _) | .client (.recvLoop _) | .client (.call _)
  | .client (.receive _) | .client (.timeout _) | .client .close | .client (.closing _)
  | .server (.connect _) | .server (.admin _) | .server (.resume _ .go _)
  | .server (.resume _ .sent _) | .server (.resume _ (.recv _) _) => isTrue trivial

/-- The handshake over an honest network. -/
theorem handshake_agreement_sample : ∃ N os,
    Lts.Run (Net.ConfirmedStep stub 0) (.init [] false "" []) N os ∧
      N.client.connection = .connected ∧
      Net.Agreed stub 0 (Net.ConfirmedStep stub 0) (.init [] false "" []) N os := by
  have hexec : ((Lts.exec (Net.step stub 0)
      (handshakeActs ++ [.client (.resume (.recv (stubPacket 0 1 ACK)))])
      (.init [] false "" [])).any fun x =>
        (Ideal stub 0 x.2 : Bool) && (x.1.client.connection = .connected : Bool)) = true := by
    decide +kernel
  have hcheck : Lts.Along (Net.step stub 0) (fun N a _ => N.Confirmed stub 0 a)
      (handshakeActs ++ [.client (.resume (.recv (stubPacket 0 1 ACK)))])
      (.init [] false "" []) := by decide +kernel
  obtain ⟨⟨N, os⟩, hN, hp⟩ := Option.any_eq_true _ _ |>.1 hexec
  simp only [Bool.and_eq_true, decide_eq_true_eq] at hp
  have hrun := Lts.exec_run hN hcheck
  exact ⟨N, os, hrun, hp.2, handshake_agreement stub 0 [] [] false "" hrun hp.1 hp.2⟩

/-- The handshake up to the first ACK.  The login is lost, and the reply to it is not what
    the server would have sealed. -/
def lostLogin : List Net.Act :=
  handshakeActs.take 10 ++ [.client (.resume (.recv (stubPacket 1 1 ACK)))]

/-- Without a login there is no session. -/
theorem Net.Agreed.login {N₀ N : Net K} (h : Net.Agreed L c step N₀ N os) :
    ∃ u, .session c u ∈ os ∨ .relogin c u ∈ os := by
  obtain ⟨k, data, -, ⟨N₁, os₁, os₂, rfl, -, -, u, r, -, -, -, hm⟩, -⟩ := h
  refine ⟨u, hm.imp (List.mem_append_left _) ?_⟩
  rintro ⟨-, -, -, hm⟩
  exact List.mem_append_left _ hm

/-- Whether an observation is a login on the connection. -/
def Obs.isLogin (c : ConnId) : Obs K → Bool
  | .session c' _ | .relogin c' _ => c' = c
  | _ => false

/-- **`connect` returns although the reply does not verify.**  The cipher is ideal; the
    server saw no login. -/
theorem handshake_disagreement : ∃ N os,
    Lts.Run (Lts.Guarded (Net.step stub 0) fun _ _ _ => True) (.init [] false "" []) N os ∧
      Ideal stub 0 os ∧ N.client.connection = .connected ∧ N.sys.server.clientDb.items = [] ∧
      ∀ step N₀, ¬ Net.Agreed stub 0 step N₀ N os := by
  have hexec : ((Lts.exec (Net.step stub 0) lostLogin (.init [] false "" [])).any fun x =>
      (Ideal stub 0 x.2 : Bool) && (x.1.client.connection = .connected : Bool) &&
        (x.1.sys.server.clientDb.items = [] : Bool) && !x.2.any (Obs.isLogin 0)) = true := by
    decide +kernel
  have hcheck : Lts.Along (Net.step stub 0) (fun _ _ _ => True) lostLogin
      (.init [] false "" []) := by decide +kernel
  obtain ⟨⟨N, os⟩, hN, hp⟩ := Option.any_eq_true _ _ |>.1 hexec
  simp only [Bool.and_eq_true, decide_eq_true_eq, Bool.not_eq_true', List.any_eq_false] at hp
  obtain ⟨⟨⟨hideal, hconn⟩, hdb⟩, hlogin⟩ := hp
  refine ⟨N, os, Lts.exec_run hN hcheck, hideal, hconn, hdb, fun step N₀ h => ?_⟩
  obtain ⟨u, hm | hm⟩ := h.login
  · exact absurd (by simp [Obs.isLogin]) (hlogin _ hm)
  · exact absurd (by simp [Obs.isLogin]) (hlogin _ hm)

end Pipebomb
