/-
  Which nonces the two ends of a connection use.

  Both ends count from 0 and share one key, so the server's first packet repeats the nonce
  of the client's: the ACK answers the password, both under nonce 0.

  * `usedAt`: the keys and nonces of the calls of `encrypt` at the ends of a connection.
  * `Early`: the server did not accept anything yet; the client sealed its password at most.
  * `nonces_unique_iff`: the nonces are unique as long as the server accepts nothing.
    `nonce_repeated` is a handshake over an honest network.
-/
import Pipebomb.Replay

namespace Pipebomb

open ByteString

variable {K : Type} (L : Libs K)

/-- The key and the nonce of a call of `encrypt` at an end of the connection. -/
def Obs.usedAt (c : ConnId) : Obs K → Option (K × ℕ)
  | .encrypt p k n _ => if p.At c then some (k, n) else none
  | _ => none

/-- The keys and nonces used at the ends of the connection, in order. -/
def usedAt (c : ConnId) (os : List (Obs K)) : List (K × ℕ) := os.filterMap (Obs.usedAt c)

/-- The server accepted nothing on the connection. -/
def Unaccepted (c : ConnId) (os : List (Obs K)) : Prop := ∀ data, .accepted (.server c) data ∉ os

variable {c : ConnId} {os o : List (Obs K)} {k : K} {n : ℕ}

theorem usedAt_append (os o : List (Obs K)) : usedAt c (os ++ o) = usedAt c os ++ usedAt c o :=
  List.filterMap_append

theorem mem_usedAt : (k, n) ∈ usedAt c os ↔ ∃ p data, p.At c ∧ .encrypt p k n data ∈ os := by
  rw [usedAt, List.mem_filterMap]
  constructor
  · rintro ⟨x, hx, he⟩
    cases x with
    | encrypt p k' n' data =>
      simp only [Obs.usedAt] at he
      split_ifs at he with hp
      cases he
      exact ⟨p, data, hp, hx⟩
    | _ => cases he
  · rintro ⟨p, data, hp, hm⟩
    exact ⟨_, hm, if_pos hp⟩

theorem Unaccepted.append (h : Unaccepted c os) (h' : Unaccepted c o) : Unaccepted c (os ++ o) := by
  intro data hm
  rcases List.mem_append.1 hm with hm | hm
  · exact h data hm
  · exact h' data hm

/-- An observation is neither about a nonce of the connection nor accepted by the server. -/
def Obs.Plain (c : ConnId) (x : Obs K) : Prop :=
  x.usedAt c = none ∧ ∀ data, x ≠ .accepted (.server c) data

/-- No observation is about a nonce of the connection or accepted by the server. -/
def Plain (c : ConnId) (os : List (Obs K)) : Prop := ∀ x ∈ os, x.Plain c

theorem Plain.nil : Plain c ([] : List (Obs K)) := fun _ h => absurd h (by simp)

theorem Plain.append (h : Plain c os) (h' : Plain c o) : Plain c (os ++ o) :=
  fun x hx => (List.mem_append.1 hx).elim (h x) (h' x)

theorem Plain.cons {x : Obs K} (h : x.Plain c) (h' : Plain c os) : Plain c (x :: os) :=
  fun y hy => (List.mem_cons.1 hy).elim (fun e => e ▸ h) (h' y)

theorem Plain.usedAt (h : Plain c os) : usedAt c os = [] :=
  List.filterMap_eq_nil_iff.2 fun x hx => (h x hx).1

theorem Plain.unaccepted (h : Plain c os) : Unaccepted c os :=
  fun data hm => (h _ hm).2 data rfl

theorem Plain.encrypt {p : Party} {data : Bytes} (h : Plain c os) (hp : p.At c) :
    .encrypt p k n data ∉ os := by
  intro hm
  have := (h _ hm).1
  simp [Obs.usedAt, hp] at this

theorem plain_decryptCall (p : Party) (packet : Bytes) (cipher : Option K) :
    Plain c (decryptCall p packet cipher n) := by
  unfold decryptCall
  split
  · split_ifs
    · exact .cons ⟨rfl, by simp⟩ .nil
    · exact .nil
  · exact .nil

/-- What is seen of another coroutine is plain. -/
theorem AllBy.plain {c' : ConnId} {uses : Option PyStr} (h : AllBy c' uses os) (hc : c' ≠ c) :
    Plain c os := by
  intro x hx
  have hby := h x hx
  have hne : ¬ Party.At c (.server c' : Party) := by
    rintro (h | h)
    · cases h
    · exact hc (Party.server.inj h)
  cases x with
  | encrypt p k n data =>
    obtain rfl : p = .server c' := hby
    exact ⟨if_neg hne, by simp⟩
  | accepted p data =>
    obtain rfl : p = .server c' := hby
    refine ⟨rfl, ?_⟩
    rintro data' he
    cases he
    exact hne (.inr rfl)
  | _ => exact ⟨rfl, by simp⟩

/-! ## Before the server accepts the password -/

/-- The server did not accept the password yet. -/
def Task.Early : Task (Accepting K) → Prop
  | .idle | .over _ | .accept (.publicKey _) | .accept (.sendPublic _) => True
  | .accept (.password l _) => l.txNonce = 0 ∧ l.rxNonce = 0
  | _ => False

/-- The client did not get past its wait for the first ACK; before it has the server's key
    it used no nonce. -/
def RawClient.Early (C : RawClient K) (used : List (K × ℕ)) : Prop :=
  match C.connection with
  | .idle | .sendPublic | .serverKey _ => C.txNonce = 0 ∧ C.rxNonce = 0 ∧ used = []
  | .sendPassword | .ack _ => C.rxNonce = 0
  | .failed _ => True
  | _ => False

/-- The client's side: at most one nonce was used, by the client for its password. -/
structure EarlyClient (clientPassword : Bytes) (c : ConnId) (C : RawClient K)
    (os : List (Obs K)) : Prop where
  early : C.Early (usedAt c os)
  password : C.password = clientPassword
  closing : C.closing = .idle
  used : (usedAt c os).length ≤ 1
  encrypted : ∀ p k n data, p.At c → .encrypt p k n data ∈ os →
    p = .client ∧ n = 0 ∧ data = 0 :: clientPassword

/-- **Before the server accepts the password.** -/
structure Early (clientPassword : Bytes) (c : ConnId) (N : Net K) (os : List (Obs K)) : Prop where
  server : (N.sys.tasks c).Early
  client : EarlyClient clientPassword c N.client os
  unaccepted : Unaccepted c os

/-- The server accepted a packet, and a nonce was used twice. -/
def Clash (c : ConnId) (os : List (Obs K)) : Prop := ¬ Unaccepted c os ∧ ¬ (usedAt c os).Nodup

theorem Clash.append (h : Clash c os) (o : List (Obs K)) : Clash c (os ++ o) := by
  refine ⟨fun hu => h.1 fun data hm => hu data (List.mem_append_left _ hm), fun hn => h.2 ?_⟩
  rw [usedAt_append] at hn
  exact hn.of_append_left

variable {s : Server K} {N N' : Net K} {C C' : RawClient K} {clientPassword : Bytes}

/-! ### The server -/

/-- A step before the password is accepted, as far as the nonces are concerned: nothing
    happens, or the password is accepted and answered. -/
def EarlyStep (c : ConnId) (o : Outcome K (Accepting K)) : Prop :=
  (o.2.1.Early ∧ Plain c o.2.2) ∨
    ∃ k ct rest plaintext data, o.2.2 = .decrypt (.server c) k 0 ct ::
        .accepted (.server c) data :: .encrypt (.server c) k 0 ACK :: rest ∧
      L.decrypt k (leBytes 12 0) ct = some plaintext

theorem onPassword_early {l : Locals K} {frame : Bytes} (htx : l.txNonce = 0)
    (hrx : l.rxNonce = 0) : EarlyStep L c (onPassword L s c l frame) := by
  have hplain := plain_decryptCall (c := c) (n := l.rxNonce) (.server c) frame (some l.cipher)
  unfold onPassword
  rcases hv : verifyPacket L frame (some l.cipher) l.rxNonce with e | _ | ⟨password, rem⟩
  · exact .inl ⟨trivial, hplain.append .nil⟩
  · exact .inl ⟨trivial, hplain.append .nil⟩
  · by_cases hpw : password ≠ 0 :: s.password
    · simp only [if_pos hpw]
      exact .inl ⟨trivial, hplain.append .nil⟩
    · obtain ⟨k, ct, plaintext, hk, hcall, hd, -, -⟩ := decryptCall_verify L (.server c) hv
      cases hk
      simp only [if_neg hpw, hcall, sendHandshake, encryptCall, htx]
      rw [hrx] at hd
      exact .inr ⟨l.cipher, ct, _, plaintext, password, by rw [hrx]; rfl, hd⟩

theorem acceptStep_early {a : Accepting K} {i : Input} {draw : Uuid4}
    {o : Outcome K (Accepting K)} (ha : (Task.accept a).Early)
    (ho : acceptStep L s c a i draw = some o) : EarlyStep L c o := by
  unfold acceptStep at ho
  split at ho
  · rename_i buffer chunk
    split_ifs at ho
    · cases ho; exact .inl ⟨trivial, .nil⟩
    · cases ho; exact .inl ⟨trivial, .nil⟩
    · cases ho; exact .inl ⟨trivial, .cons ⟨rfl, by simp⟩ .nil⟩
  · split at ho
    · cases ho; exact .inl ⟨trivial, .nil⟩
    · cases ho; exact .inl ⟨⟨rfl, rfl⟩, .nil⟩
  · rename_i l buffer chunk
    split_ifs at ho
    cases ho
    unfold onChunk
    split_ifs
    · exact .inl ⟨trivial, .nil⟩
    · split
      · exact .inl ⟨trivial, .nil⟩
      · exact onPassword_early L ha.1 ha.2
      · exact .inl ⟨ha, .nil⟩
  · exact ha.elim
  · exact ha.elim
  · exact ha.elim
  · exact ha.elim
  · cases ho; exact .inl ⟨trivial, .nil⟩
  · cases ho

theorem taskStep_early {t : Task (Accepting K)} {i : Input} {draw : Uuid4}
    {o : Outcome K (Accepting K)} (ht : t.Early) (ho : taskStep L s c t i draw = some o) :
    EarlyStep L c o := by
  cases t with
  | idle => cases ho
  | «over» e => cases ho
  | accept a => exact acceptStep_early L ht ho
  | handler h => exact ht.elim

/-! ### The client -/

/-- A step without an observation about nonces. -/
theorem EarlyClient.plain (h : EarlyClient clientPassword c C os) (hp : Plain c o)
    (he : C'.Early (usedAt c os)) (hpw : C'.password = C.password)
    (hcl : C'.closing = C.closing) :
    EarlyClient clientPassword c C' (os ++ o) ∧ Unaccepted c o := by
  have hused : usedAt c (os ++ o) = usedAt c os := by rw [usedAt_append, hp.usedAt, List.append_nil]
  refine ⟨⟨?_, hpw.trans h.password, hcl.trans h.closing, ?_, ?_⟩, hp.unaccepted⟩
  · rw [hused]; exact he
  · rw [hused]; exact h.used
  · intro p k n data hat hm
    rcases List.mem_append.1 hm with hm | hm
    · exact h.encrypted p k n data hat hm
    · exact absurd hm (hp.encrypt hat)

theorem EarlyClient.fail (h : EarlyClient clientPassword c C os) (hp : Plain c o) (e : PyErr) :
    EarlyClient clientPassword c (C.fail e).1 (os ++ (o ++ (C.fail e).2)) ∧
      Unaccepted c (o ++ (C.fail e).2) :=
  h.plain (hp.append .nil) trivial rfl rfl

/-- The client seals its password. -/
theorem onServerKey_early (h : EarlyClient clientPassword c C os) (htx : C.txNonce = 0)
    (hrx : C.rxNonce = 0) (hused : usedAt c os = []) (key : Bytes) :
    EarlyClient clientPassword c (C.onServerKey L key).1 (os ++ (C.onServerKey L key).2) ∧
      Unaccepted c (C.onServerKey L key).2 := by
  unfold RawClient.onServerKey
  cases L.clientExchange key with
  | none => exact h.fail .nil _
  | some k =>
    have hcall : encryptCall .client (0 :: C.password) (some k) C.txNonce =
        [.encrypt .client k 0 (0 :: clientPassword)] := by
      simp [encryptCall, htx, h.password]
    have hsealed : ∀ C' : RawClient K, ∀ o : List (Obs K), Plain c o → C'.Early [(k, 0)] →
        C'.password = C.password → C'.closing = C.closing →
        EarlyClient clientPassword c C'
            (os ++ ([.encrypt .client k 0 (0 :: clientPassword)] ++ o)) ∧
          Unaccepted c ([.encrypt .client k 0 (0 :: clientPassword)] ++ o) := by
      intro C' o hp he hpw hcl
      have hu : usedAt c (os ++ ([.encrypt .client k 0 (0 :: clientPassword)] ++ o)) = [(k, 0)] := by
        rw [usedAt_append, usedAt_append, hused, hp.usedAt]
        simp [Pipebomb.usedAt, Obs.usedAt, Party.At]
      refine ⟨⟨by rw [hu]; exact he, hpw.trans h.password, hcl.trans h.closing, by rw [hu]; exact Nat.le_refl 1,
          ?_⟩,
        Unaccepted.append (fun data hm => by simp at hm) hp.unaccepted⟩
      intro p k' n data hat hm
      simp only [List.mem_append, List.mem_singleton] at hm
      rcases hm with hm | hm | hm
      · exact h.encrypted p k' n data hat hm
      · cases hm; exact ⟨rfl, rfl, rfl⟩
      · exact absurd hm (hp.encrypt hat)
    simp only [RawClient.sendConnect, RawClient.saw, hcall]
    split
    · exact hsealed _ _ .nil trivial rfl rfl
    · exact hsealed _ _ (.cons ⟨rfl, by simp⟩ .nil) hrx rfl rfl

/-- The first ACK cannot verify: the server sealed nothing, and the client's own packet is
    no ACK or is not handed to it. -/
theorem onAck_early (h : EarlyClient clientPassword c C os) (frame : Bytes)
    (hideal : Ideal L c (os ++ (C.onAck L frame).2))
    (hown : 0 :: clientPassword ≠ ACK ∨ Unreflected L (os ++ (C.onAck L frame).2)) :
    EarlyClient clientPassword c (C.onAck L frame).1 (os ++ (C.onAck L frame).2) ∧
      Unaccepted c (C.onAck L frame).2 := by
  have hplain := plain_decryptCall (c := c) (n := C.rxNonce) .client frame C.cipher
  unfold RawClient.onAck at hideal hown ⊢
  rcases hv : verifyPacket L frame C.cipher C.rxNonce with e | _ | ⟨ack, rem⟩
  · exact h.fail hplain e
  · exact h.plain (hplain.append .nil) trivial rfl rfl
  · simp only [hv] at hideal hown ⊢
    by_cases hack : ack ≠ ACK
    · simp only [if_pos hack]
      exact h.plain (hplain.append (.cons ⟨rfl, by simp⟩ .nil)) trivial rfl rfl
    · obtain rfl := not_not.1 hack
      obtain ⟨k, ct, plaintext, hk, hcall, hd, -, ho⟩ := decryptCall_verify L .client hv
      simp only [RawClient.saw, hcall, List.cons_append, List.nil_append] at hideal hown
      obtain ⟨q, data, hq, hm, rfl⟩ := hideal.at (.inl rfl) (by rw [hd]; exact Option.some_ne_none _)
      obtain ⟨rfl, -, rfl⟩ := h.encrypted q k C.rxNonce data hq hm
      rw [sealed, L.decrypt_encrypt] at hd
      cases hd
      rcases hown with hown | hown
      · exact absurd (openPlaintext_eq L ho).symm hown
      · exact absurd rfl (hown.at _ hm)

theorem connectStep_early (h : EarlyClient clientPassword c C os) {i : Input}
    {o : RawClient.After K} (hstep : C.connectStep L i = some o)
    (hideal : Ideal L c (os ++ o.2)) (hown : 0 :: clientPassword ≠ ACK ∨ Unreflected L (os ++ o.2)) :
    EarlyClient clientPassword c o.1 (os ++ o.2) ∧ Unaccepted c o.2 := by
  have he := h.early
  unfold RawClient.connectStep at hstep
  unfold RawClient.Early at he
  split at hstep
  · rename_i hc
    rw [hc] at he
    cases hstep
    exact h.plain .nil he rfl rfl
  · rename_i buffer chunk hc
    rw [hc] at he
    split_ifs at hstep
    · cases hstep; exact h.fail .nil _
    · cases hstep; exact h.plain .nil he rfl rfl
    · cases hstep; exact onServerKey_early L h he.1 he.2.1 he.2.2 _
  · rename_i hc
    rw [hc] at he
    cases hstep
    exact h.plain .nil he rfl rfl
  · rename_i buffer chunk hc
    rw [hc] at he
    split_ifs at hstep
    cases hstep
    unfold RawClient.onChunk at hideal hown ⊢
    split_ifs at hideal hown ⊢
    · exact h.fail .nil _
    · rcases hx : extractPacketFrame (buffer ++ chunk) with ⟨_ | f, rest, _ | n⟩
      · exact h.plain .nil he rfl rfl
      · exact h.fail .nil _
      · simp only [hx] at hideal hown ⊢
        exact onAck_early L h f hideal hown
      · exact h.fail .nil _
  · rename_i hc
    rw [hc] at he
    exact he.elim
  · rename_i hc
    rw [hc] at he
    exact he.elim
  · cases hstep
  · cases hstep
  · cases hstep
  · cases hstep; exact h.fail .nil _
  · cases hstep

/-- **A step of the client.** -/
theorem client_early (h : EarlyClient clientPassword c C os) {a : RawClient.Act}
    {o : RawClient.After K} (hstep : C.step L a = some o) (hideal : Ideal L c (os ++ o.2))
    (hown : 0 :: clientPassword ≠ ACK ∨ Unreflected L (os ++ o.2)) :
    EarlyClient clientPassword c o.1 (os ++ o.2) ∧ Unaccepted c o.2 := by
  have he := h.early
  have hc : C.connection ≠ .connected := by
    intro hc
    simp [RawClient.Early, hc] at he
  cases a with
  | connect uuid =>
    simp only [RawClient.step] at hstep
    split_ifs at hstep with hi
    cases hstep
    rw [RawClient.Early, not_not.1 hi] at he
    exact h.plain (.cons ⟨rfl, by simp⟩ .nil) he rfl rfl
  | resume i => exact connectStep_early L h hstep hideal hown
  | sendLoop i | recvLoop i | call call | close =>
    simp only [RawClient.step, if_neg hc] at hstep
    cases hstep
  | receive n =>
    simp only [RawClient.step] at hstep
    split at hstep
    · cases hstep
      exact h.plain (.cons ⟨rfl, by simp⟩ .nil) he rfl rfl
    · cases hstep
  | timeout n =>
    simp only [RawClient.step] at hstep
    split at hstep
    · cases hstep
      exact h.plain (.cons ⟨rfl, by simp⟩ .nil) he rfl rfl
    · cases hstep
  | closing i => simp [RawClient.step, RawClient.closeStep, h.closing] at hstep

/-! ## The nonces of a run -/

/-- The password is accepted: the ACK repeats the nonce under which the client sealed it. -/
theorem EarlyStep.clash {o : Outcome K (Accepting K)}
    (hstep : EarlyStep L c o) (hideal : Ideal L c (os ++ o.2.2)) :
    (o.2.1.Early ∧ Plain c o.2.2) ∨ Clash c (os ++ o.2.2) := by
  rcases hstep with hstep | ⟨k, ct, rest, plaintext, data, ho, hd⟩
  · exact .inl hstep
  · rw [ho] at hideal ⊢
    obtain ⟨q, data', hq, hm, -⟩ := hideal.at (.inr rfl) (by rw [hd]; exact Option.some_ne_none _)
    refine .inr ⟨fun hu => hu data (by simp), fun hn => ?_⟩
    rw [usedAt_append] at hn
    refine hn.disjoint (mem_usedAt.2 ⟨q, data', hq, hm⟩) (mem_usedAt.2 ⟨.server c, ACK, .inr rfl, ?_⟩)
    simp

/-- **One step.** -/
theorem step_early (h : Early clientPassword c N os) {a : Net.Act}
    (hstep : N.step L c a = some (N', o)) (hideal : Ideal L c (os ++ o))
    (hown : 0 :: clientPassword ≠ ACK ∨ Unreflected L (os ++ o)) :
    Early clientPassword c N' (os ++ o) ∨ Clash c (os ++ o) := by
  -- what another coroutine does is plain, and so is a step without observations
  have hplain : ∀ S C, Plain c o → (S.tasks c).Early → C = N.client →
      Early clientPassword c (N.flow c a S C o) (os ++ o) := by
    rintro S C hp ht rfl
    obtain ⟨hc, hu⟩ := h.client.plain hp h.client.early rfl rfl
    exact ⟨ht, hc, h.unaccepted.append hu⟩
  rcases Net.step_cases L hstep with ⟨b, S, rfl, hs, rfl⟩ | ⟨b, C, rfl, hs, rfl⟩
  · rcases step_cases L hs with ⟨c', rfl, hidle, rfl, rfl⟩ | ⟨c', i, draw, s, t, rfl, ht, rfl⟩ |
      ⟨op, rfl, rfl, rfl⟩
    · refine .inl (hplain _ _ .nil ?_ rfl)
      by_cases hc : c = c'
      · subst hc; rw [put_tasks_self]; trivial
      · rw [put_tasks_ne hc]; exact h.server
    · by_cases hc : c = c'
      · subst hc
        rcases (taskStep_early L h.server ht).clash L hideal with ⟨hte, hp⟩ | hclash
        · refine .inl (hplain _ _ hp ?_ rfl)
          rw [put_tasks_self]; exact hte
        · exact .inr hclash
      · refine .inl (hplain _ _ ((taskStep_obs L ht).plain (Ne.symm hc)) ?_ rfl)
        rw [put_tasks_ne hc]; exact h.server
    · exact .inl (hplain _ _ .nil h.server rfl)
  · obtain ⟨hc, hu⟩ := client_early L h.client hs hideal hown
    exact .inl ⟨h.server, hc, h.unaccepted.append hu⟩

/-- Every run is before the server's first acceptance, or used a nonce twice. -/
theorem run_early {password : Bytes} {keep : Bool} {peer : String}
    (hrun : Lts.Run (Lts.Guarded (Net.step L c) fun _ _ _ => True)
      (.init password keep peer clientPassword) N os) :
    Ideal L c os → 0 :: clientPassword ≠ ACK ∨ Unreflected L os →
      Early clientPassword c N os ∨ Clash c os := by
  refine hrun.inv (I := fun N os => Ideal L c os → 0 :: clientPassword ≠ ACK ∨ Unreflected L os →
    Early clientPassword c N os ∨ Clash c os) ?_ ?_
  · intro _ _
    refine .inl ⟨trivial, ⟨⟨rfl, rfl, rfl⟩, rfl, rfl, by simp [usedAt], ?_⟩, ?_⟩
    · intro p k n data _ hm; cases hm
    · intro data hm; cases hm
  · rintro N N' os o - ih ⟨a, hstep, -⟩ hideal hown
    rcases ih hideal.left (hown.imp_right Lts.Each.left) with h | h
    · exact step_early L h hstep hideal hown
    · exact .inr (h.append o)

/-- **When the nonces of a connection are unique**: as long as the server accepts nothing on
    it, not even the password.  The network is an attacker; the client's own password
    packet must not be handed to it where it reads as an ACK. -/
theorem nonces_unique_iff (c : ConnId) (password clientPassword : Bytes) (keep : Bool)
    (peer : String)
    (hrun : Lts.Run (Lts.Guarded (Net.step L c) fun _ _ _ => True)
      (.init password keep peer clientPassword) N os)
    (hideal : Ideal L c os) (hown : 0 :: clientPassword ≠ ACK ∨ Unreflected L os) :
    (usedAt c os).Nodup ↔ ∀ data, .accepted (.server c) data ∉ os := by
  rcases run_early L hrun hideal hown with h | h
  · refine ⟨fun _ => h.unaccepted, fun _ => ?_⟩
    have := h.client.used
    rcases hu : usedAt c os with _ | ⟨x, _ | ⟨y, l⟩⟩
    · exact List.nodup_nil
    · exact List.nodup_singleton x
    · simp [hu] at this
  · exact ⟨fun hn => absurd hn h.2, fun hu => absurd hu h.1⟩

/-! ## Runs on fixed inputs -/

instance (N : Net K) (a : Net.Act) (o : List (Obs K)) : Decidable (N.Honest c a o) :=
  inferInstanceAs (Decidable (_ ∧ _))

/-- A handshake with a wrong password: the server does not answer. -/
def wrongPassword : List Net.Act :=
  [.client (.connect none), .server (.connect 0), .client (.resume .sent),
    .server (.resume 0 (.recv stubClientPublic) sampleDraw),
    .client (.resume (.recv (stubPublic 0))), .client (.resume .sent),
    .server (.resume 0 .sent sampleDraw),
    .server (.resume 0 (.recv (stubPacket 0 0 [0, 1])) sampleDraw)]

theorem nonces_unique_sample : ∃ N os,
    Lts.Run (Lts.Guarded (Net.step stub 0) fun _ _ _ => True) (.init [] false "" [1]) N os ∧
      usedAt 0 os = [(0, 0)] ∧
      ((usedAt 0 os).Nodup ↔ ∀ data, .accepted (.server 0) data ∉ os) := by
  have hexec : ((Lts.exec (Net.step stub 0) wrongPassword (.init [] false "" [1])).any fun x =>
      (Ideal stub 0 x.2 : Bool) && (usedAt 0 x.2 = [(0, 0)] : Bool)) = true := by decide +kernel
  have hcheck : Lts.Along (Net.step stub 0) (fun _ _ _ => True) wrongPassword
      (.init [] false "" [1]) := by decide +kernel
  obtain ⟨⟨N, os⟩, hN, hp⟩ := Option.any_eq_true _ _ |>.1 hexec
  simp only [Bool.and_eq_true, decide_eq_true_eq] at hp
  have hrun := Lts.exec_run hN hcheck
  exact ⟨N, os, hrun, hp.2,
    nonces_unique_iff stub 0 [] [1] false "" hrun hp.1 (.inl (by decide))⟩

/-- **A nonce is used twice in every handshake that goes on**, also over an honest
    network: the client's password and the server's ACK are sealed under nonce 0, the login
    and its ACK under nonce 1. -/
theorem nonce_repeated : ∃ N os,
    Lts.Run (Lts.Guarded (Net.step stub 0) (Net.Honest 0)) (.init [] false "" []) N os ∧
      Ideal stub 0 os ∧ usedAt 0 os = [(0, 0), (0, 0), (0, 1), (0, 1)] ∧
      ¬ (usedAt 0 os).Nodup := by
  have hexec : ((Lts.exec (Net.step stub 0) handshakeActs (.init [] false "" [])).any fun x =>
      (Ideal stub 0 x.2 : Bool) && (usedAt 0 x.2 = [(0, 0), (0, 0), (0, 1), (0, 1)] : Bool)) =
        true := by decide +kernel
  have hcheck : Lts.Along (Net.step stub 0) (Net.Honest 0) handshakeActs
      (.init [] false "" []) := by decide +kernel
  obtain ⟨⟨N, os⟩, hN, hp⟩ := Option.any_eq_true _ _ |>.1 hexec
  simp only [Bool.and_eq_true, decide_eq_true_eq] at hp
  exact ⟨N, os, Lts.exec_run hN hcheck, hp.1, hp.2, by rw [hp.2]; decide⟩

end Pipebomb
