/-
  Under which keys the server seals.

  * A handler seals under the keys of the sessions, and changes none of them (`Sealing`).
  * A pass of `accept_clients` seals under the key of its connection: the first ACK under
    nonce 0, the answer to the login under nonce 1.  Its key gets into a session when it
    enters or attaches one (`PassStep`, `Enters`).
-/
import Pipebomb.ServerLink

namespace Pipebomb

open ByteString

variable {K : Type} (L : Libs K)

/-! ## The keys of a handler -/

section
variable {A : Type} {s s' : Server K} {c : ConnId}

/-- The sessions have the same keys. -/
def SameKeys (s s' : Server K) : Prop := ∀ r, (s'.objs r).cipher = (s.objs r).cipher

theorem Quiet.sameKeys (h : Quiet s s') : SameKeys s s' := fun r => (h.link r).cipher

theorem SameKeys.refl (s : Server K) : SameKeys s s := fun _ => rfl

theorem SameKeys.trans {s'' : Server K} (h : SameKeys s s') (h' : SameKeys s' s'') :
    SameKeys s s'' := fun r => (h' r).trans (h r)

theorem sameKeys_modify (s : Server K) (r : Ref) {f : Client K → Client K}
    (hf : ∀ cl, (f cl).cipher = cl.cipher) : SameKeys s (s.modify r f) := by
  intro r'
  rw [Server.modify_objs]
  split_ifs
  · exact hf _
  · rfl

theorem sameKeys_teardown (s : Server K) (u : PyStr) : SameKeys s (teardown s u) := by
  intro r
  unfold teardown
  split_ifs <;> rfl

theorem unsealed_decryptCall {p q : Party} {packet data : Bytes} {cipher : Option K} {k : K}
    {n m : ℕ} : .encrypt q k m data ∉ decryptCall p packet cipher n := by
  unfold decryptCall
  split
  · split_ifs <;> simp
  · simp

theorem mem_encryptCall {p q : Party} {data data' : Bytes} {cipher : Option K} {k : K} {n m : ℕ}
    (h : .encrypt q k m data' ∈ encryptCall p data cipher n) :
    q = p ∧ cipher = some k ∧ m = n ∧ data' = data := by
  unfold encryptCall at h
  split at h
  · simp at h
  · split_ifs at h
    · simp only [List.mem_singleton, Obs.encrypt.injEq] at h
      obtain ⟨rfl, rfl, rfl, rfl⟩ := h
      exact ⟨rfl, rfl, rfl, rfl⟩
    · simp at h

/-- After a step of a handler the sessions have their keys; it sealed under these only. -/
structure Sealing (s : Server K) (o : Outcome K A) : Prop where
  keys : SameKeys s o.1
  sealed : ∀ p k n data, .encrypt p k n data ∈ o.2.2 → ∃ r, (s.objs r).cipher = some k

theorem Sealing.of {o : Outcome K A} (h : Sealing s' o) (hs : SameKeys s s') : Sealing s o := by
  refine ⟨hs.trans h.keys, fun p k n data hm => ?_⟩
  obtain ⟨r, hr⟩ := h.sealed p k n data hm
  exact ⟨r, (hs r).symm.trans hr⟩

theorem sealing_quiet {t : Task A} (h : SameKeys s s') : Sealing s (s', t, []) :=
  ⟨h, by simp⟩

theorem Sealing.seen {o : Outcome K A} {os : List (Obs K)} (h : Sealing s o)
    (hos : ∀ p k n data, .encrypt p k n data ∈ os → ∃ r, (s.objs r).cipher = some k) :
    Sealing s (seen os o) := by
  refine ⟨h.keys, fun p k n data hm => ?_⟩
  rcases List.mem_append.1 hm with hm | hm
  · exact hos p k n data hm
  · exact h.sealed p k n data hm

theorem sendPacket_sealing (h : Handler) (reply : Bytes) (held : Held) (after : After) :
    Sealing s (sendPacket L s c h reply held after : Outcome K A) := by
  refine ⟨(sendPacket_quiet L s c h reply held after).sameKeys, fun p k n data hm => ?_⟩
  unfold sendPacket at hm
  split at hm
  · simp [raised] at hm
  · rename_i cl hcl
    obtain ⟨r, -, rfl⟩ := Server.client_eq_some.1 hcl
    rcases List.mem_append.1 hm with hm | hm
    · exact ⟨r, (mem_encryptCall hm).2.1⟩
    · split at hm
      · simp [raised] at hm
      · simp at hm

theorem sendReply_sealing (h : Handler) (reply : Except PyErr Bytes) (held : Held) (after : After) :
    Sealing s (sendReply L s c h reply held after : Outcome K A) := by
  cases reply with
  | error e => exact sealing_quiet (release_quiet s held).sameKeys
  | ok data => exact sendPacket_sealing L h data held after

theorem proceed_sealing (h : Handler) (o : Server K × Next) :
    Sealing o.1 (proceed L c h o : Outcome K A) := by
  unfold proceed
  split
  · exact sendPacket_sealing L h _ _ _
  · exact sealing_quiet (.refl _)
  · exact sealing_quiet (.refl _)
  · exact sealing_quiet (sameKeys_teardown _ _)

theorem onFrame_sealing (h : Handler) (frame : Option Bytes) (draw : Uuid4) :
    Sealing s (onFrame L s c h frame draw : Outcome K A) := by
  unfold onFrame
  split
  · exact sealing_quiet (.refl s)
  · exact sealing_quiet (.refl s)
  · rename_i r f hu
    have hreceived : SameKeys s (s.modify r Client.received) := sameKeys_modify s r fun _ => rfl
    refine Sealing.seen ?_ fun p k n data hm => absurd hm unsealed_decryptCall
    split
    · exact sealing_quiet (.refl s)
    · exact (sendReply_sealing L h _ .none .close).of hreceived
    · refine Sealing.seen ?_ fun p k n data hm => by simp at hm
      exact (proceed_sealing L _ _).of (hreceived.trans (dispatch_quiet _ _ _ _).sameKeys)

theorem pump_sealing (h : Handler) (draw : Uuid4) :
    Sealing s (pump L s c h draw : Outcome K A) := by
  unfold pump
  split
  · split
    · exact sealing_quiet (.refl s)
    · exact ⟨.refl s, by simp⟩
  · exact onFrame_sealing L _ _ draw
  · exact sealing_quiet (.refl s)

theorem onSent_sealing (h : Handler) (held : Held) (after : After) (draw : Uuid4) :
    Sealing s (onSent L s c h held after draw : Outcome K A) := by
  unfold onSent
  split
  · exact onFrame_sealing L h none draw
  · split
    · exact sealing_quiet (release_quiet s held).sameKeys
    · rename_i r hu
      have hsent : SameKeys s (s.modify r Client.sent) := sameKeys_modify s r fun _ => rfl
      exact sealing_quiet (hsent.trans (release_quiet _ held).sameKeys)
  · split
    · exact sealing_quiet (release_quiet s held).sameKeys
    · rename_i r hu
      have hsent : SameKeys s (s.modify r Client.sent) := sameKeys_modify s r fun _ => rfl
      exact sealing_quiet ((hsent.trans (release_quiet _ held).sameKeys).trans
        (sameKeys_teardown _ _))

theorem handlerStep_sealing {h : Handler} {i : Input} {draw : Uuid4} {o : Outcome K A}
    (ho : handlerStep L s c h i draw = some o) : Sealing s o := by
  unfold handlerStep at ho
  split at ho
  · cases ho
    unfold started
    split
    · exact sealing_quiet (.refl s)
    · split_ifs <;> exact sealing_quiet (.refl s)
  · cases ho; exact pump_sealing L h draw
  · split_ifs at ho
    · cases ho; exact onFrame_sealing L h none draw
    · cases ho; exact pump_sealing L { h with receiveBuffer := _ } draw
  · rename_i op _
    split_ifs at ho
    cases ho
    have hlock : SameKeys s (s.setDbLock true) := .refl s
    have hrun := dbOp_quiet op (s.setDbLock true) h.data.tail
    exact (sendReply_sealing L h _ _ _).of (hlock.trans hrun.sameKeys)
  · split at ho
    · cases ho
    · cases ho; exact (sendReply_sealing L h _ _ _).of (sameKeys_modify s _ fun _ => rfl)
  · split_ifs at ho
    cases ho; exact (sendPacket_sealing L h _ _ _).of (sameKeys_modify s _ fun _ => rfl)
  · split_ifs at ho
    have hlock : ∀ r, SameKeys s (s.modify r (Client.setOutboxLock true)) :=
      fun r => sameKeys_modify s r fun _ => rfl
    simp only at ho
    split at ho
    · cases ho; exact (sendReply_sealing L h _ _ _).of (hlock _)
    · cases ho
      exact (sendReply_sealing L h _ _ _).of ((hlock _).trans (sameKeys_modify _ _ fun _ => rfl))
  · cases ho; exact onSent_sealing L h _ _ draw
  · cases ho; exact sealing_quiet (release_quiet s _).sameKeys
  · cases ho

end

/-! ## The keys of a pass -/

section
variable {s : Server K} {c : ConnId} {t : Task (Accepting K)} {l : Locals K}

/-- The cipher is of the connection, and the counters are as given. -/
def Locals.At (c : ConnId) (tx rx : ℕ) (l : Locals K) : Prop :=
  L.owner l.cipher = c ∧ l.txNonce = tx ∧ l.rxNonce = rx

/-- The cipher and the counters of a pass at each await. -/
def Accepting.AtStage (c : ConnId) : Accepting K → Prop
  | .publicKey _ | .sendPublic _ => True
  | .password l _ => l.At L c 0 0
  | .sendAck l | .login l _ => l.At L c 1 1
  | .sendUnknown l | .sendLogin l _ _ => l.At L c 1 2

def Task.AtStage (c : ConnId) : Task (Accepting K) → Prop
  | .accept a => a.AtStage L c
  | _ => True

/-- The login was not answered yet. -/
def Task.Unanswered : Task (Accepting K) → Prop
  | .idle => True
  | .accept (.sendUnknown _) | .accept (.sendLogin _ _ _) => False
  | .accept _ => True
  | _ => False

/-- Nothing is sealed. -/
def Unsealed (os : List (Obs K)) : Prop := ∀ p k n data, .encrypt p k n data ∉ os

/-- A step that leads to the server state `s` enters a session with the key for the
    connection: a new one, or the one that a RELOGIN names. -/
def Enters (c : ConnId) (k : K) (s : Server K) (os : List (Obs K)) : Prop :=
  L.owner k = c ∧ ∃ u r, s.clientDb.get? u = some r ∧ (s.objs r).cipher = some k ∧ (s.objs r).socket = some c ∧
    (.session c u ∈ os ∨ .relogin c u ∈ os ∧ ∃ before ct after plaintext uuid,
      os = before ++ .decrypt (.server c) k 1 ct :: after ∧ Unsealed before ∧
        L.decrypt k (leBytes 12 1) ct = some plaintext ∧
          openPlaintext L plaintext = .ok (0xC4 :: uuid) ∧ u = latin1Decode uuid)

/-- **What a step of a pass does to the keys.** -/
structure PassStep (c : ConnId) (s : Server K) (t : Task (Accepting K))
    (o : Outcome K (Accepting K)) : Prop where
  stage : o.2.1.AtStage L c
  unanswered : o.2.1.Unanswered → t.Unanswered
  keys : ∀ r k, (o.1.objs r).cipher = some k →
    (s.objs r).cipher = some k ∨ Enters L c k o.1 o.2.2
  sealed : ∀ p k n data, .encrypt p k n data ∈ o.2.2 → p = .server c ∧ L.owner k = c ∧
    (n = 0 ∨ ¬ o.2.1.Unanswered)
  second : ∀ p k data, .encrypt p k 1 data ∈ o.2.2 → Fits L data →
    Enters L c k o.1 o.2.2 ∨ ∃ l, o.2.1 = .accept (.sendUnknown l) ∧ l.cipher = k

variable {os os' : List (Obs K)}

theorem unsealed_nil : Unsealed ([] : List (Obs K)) := by simp [Unsealed]

theorem Unsealed.append (h : Unsealed os) (h' : Unsealed os') : Unsealed (os ++ os') :=
  fun p k n data hm => (List.mem_append.1 hm).elim (h p k n data) (h' p k n data)

theorem unsealed_decrypt (p : Party) (packet : Bytes) (cipher : Option K) (n : ℕ) :
    Unsealed (decryptCall p packet cipher n) := fun _ _ _ _ => unsealed_decryptCall

theorem unsealed_accepted (p : Party) (data : Bytes) : Unsealed ([.accepted p data] : List (Obs K)) := by
  simp [Unsealed]

/-- The step touches no session and seals nothing. -/
theorem passStep_still {t' : Task (Accepting K)} (ht : t'.AtStage L c)
    (hu : t'.Unanswered → t.Unanswered) (hos : Unsealed os) : PassStep L c s t (s, t', os) where
  stage := ht
  unanswered := hu
  keys _ _ h := .inl h
  sealed p k n data hm := absurd hm (hos p k n data)
  second p k data hm := absurd hm (hos p k 1 data)

theorem passStep_over {e : Option PyErr} (hos : Unsealed os) :
    PassStep L c s t (s, .over e, os) :=
  passStep_still L trivial (fun h => h.elim) hos

theorem Enters.append {k : K} (h : Enters L c k s os) (os' : List (Obs K)) :
    Enters L c k s (os ++ os') := by
  obtain ⟨howner, u, r, hu, hk, hs, he⟩ := h
  refine ⟨howner, u, r, hu, hk, hs, ?_⟩
  rcases he with hm | ⟨hm, before, ct, after, plaintext, uuid, rfl, hrest⟩
  · exact .inl (List.mem_append_left _ hm)
  · exact .inr ⟨List.mem_append_left _ hm, before, ct, after ++ os', plaintext, uuid, by simp, hrest⟩

theorem Enters.prepend {k : K} (h : Enters L c k s os') (hos : Unsealed os) :
    Enters L c k s (os ++ os') := by
  obtain ⟨howner, u, r, hu, hk, hs, he⟩ := h
  refine ⟨howner, u, r, hu, hk, hs, ?_⟩
  rcases he with hm | ⟨hm, before, ct, after, plaintext, uuid, rfl, hb, hrest⟩
  · exact .inl (List.mem_append_right _ hm)
  · exact .inr ⟨List.mem_append_right _ hm, os ++ before, ct, after, plaintext, uuid, by simp,
      hos.append hb, hrest⟩

theorem PassStep.seen {o : Outcome K (Accepting K)} (h : PassStep L c s t o) (hos : Unsealed os) :
    PassStep L c s t (seen os o) where
  stage := h.stage
  unanswered := h.unanswered
  keys r k hk := (h.keys r k hk).imp_right fun he => he.prepend L hos
  sealed p k n data hm :=
    (List.mem_append.1 hm).elim (fun hm => absurd hm (hos p k n data)) (h.sealed p k n data)
  second p k data hm hf := by
    rcases List.mem_append.1 hm with hm | hm
    · exact absurd hm (hos p k 1 data)
    · exact (h.second p k data hm hf).imp_left fun he => he.prepend L hos

/-- A packet of the handshake: it is on its way, or it does not fit. -/
theorem sendHandshake_cases (l : Locals K) (data : Bytes) (next : Accepting K) (hne : data ≠ [])
    (hn : l.txNonce < 2 ^ 96) :
    (Fits L data ∧ ∃ pkt, sendHandshake L s c l data next = (s, .accept next,
        [.encrypt (.server c) l.cipher l.txNonce data, .write (.server c) pkt])) ∨
      ¬ Fits L data ∧ ∃ e, sendHandshake L s c l data next = (s, .over (some e),
        [.encrypt (.server c) l.cipher l.txNonce data]) := by
  have hcall : encryptCall (.server c) data (some l.cipher) l.txNonce =
      [.encrypt (.server c) l.cipher l.txNonce data] := if_pos ⟨hne, hn⟩
  by_cases hf : Fits L data
  · refine .inl ⟨hf, packetOf (Pipebomb.sealed L l.cipher l.txNonce data), ?_⟩
    rw [sendHandshake, hcall, constructPacket_eq L hne hf hn]
    rfl
  · refine .inr ⟨hf, ?_⟩
    rcases hpkt : constructPacket L data (some l.cipher) l.txNonce with e | pkt
    · exact ⟨e, by rw [sendHandshake, hcall, hpkt]; rfl⟩
    · exact absurd ((constructPacket_ok L).1 hpkt).2.2.1 hf

/-- The first ACK is sealed under nonce 0. -/
theorem sendAck_pass (h : l.At L c 0 1) (hu : t.Unanswered) :
    PassStep L c s t (sendHandshake L s c l ACK (.sendAck { l with txNonce := l.txNonce + 1 })) := by
  obtain ⟨howner, htx, hrx⟩ := h
  have hone : ¬ l.txNonce = 1 := by omega
  rcases sendHandshake_cases L (s := s) (c := c) l ACK
    (.sendAck { l with txNonce := l.txNonce + 1 }) (by decide) (by rw [htx]; decide) with
    ⟨-, pkt, he⟩ | ⟨-, e, he⟩
  · rw [he]
    refine ⟨⟨howner, congrArg (· + 1) htx, hrx⟩, fun _ => hu, fun _ _ h => .inl h, ?_, ?_⟩
    · intro p k n data hm
      simp only [List.mem_cons, reduceCtorEq, List.not_mem_nil, or_false] at hm
      cases hm
      exact ⟨rfl, howner, .inl htx⟩
    · intro p k data hm
      simp [eq_comm, hone] at hm
  · rw [he]
    refine ⟨trivial, fun _ => hu, fun _ _ h => .inl h, ?_, ?_⟩
    · intro p k n data hm
      cases List.mem_singleton.1 hm
      exact ⟨rfl, howner, .inl htx⟩
    · intro p k data hm
      simp [eq_comm, hone] at hm

/-- The answer to the login is sealed under nonce 1; `s'` is the server after the login. -/
theorem sendLogin_pass (os : List (Obs K)) {s' : Server K} (data : Bytes) (next : Accepting K)
    (h : l.At L c 1 2) (hne : data ≠ []) (hnext : next.AtStage L c) (hun : ¬ Task.Unanswered (.accept next))
    (hos : Unsealed os)
    (hkeys : ∀ r k, (s'.objs r).cipher = some k →
      (s.objs r).cipher = some k ∨ Enters L c k s' os)
    (henters : Enters L c l.cipher s' os ∨ ∃ l', next = .sendUnknown l' ∧ l'.cipher = l.cipher) :
    PassStep L c s t (seen os (sendHandshake L s' c l data next)) := by
  obtain ⟨howner, htx, hrx⟩ := h
  have hsealed : ∀ os' : List (Obs K),
      (∀ x ∈ os', x = .encrypt (.server c) l.cipher l.txNonce data ∨ ∃ p bs, x = .write p bs) →
      ∀ p k n data', .encrypt p k n data' ∈ os ++ os' →
        p = .server c ∧ k = l.cipher ∧ data' = data := by
    intro os' h' p k n data' hm
    rcases List.mem_append.1 hm with hm | hm
    · exact absurd hm (hos p k n data')
    · rcases h' _ hm with he | ⟨_, _, he⟩
      · cases he; exact ⟨rfl, rfl, rfl⟩
      · cases he
  rcases sendHandshake_cases L (s := s') (c := c) l data next hne (by rw [htx]; decide) with
    ⟨-, pkt, he⟩ | ⟨hf, e, he⟩
  · have hs := hsealed [.encrypt (.server c) l.cipher l.txNonce data, .write (.server c) pkt]
      (by simp)
    rw [he]
    refine ⟨hnext, fun h => absurd h hun, fun r k hk => ?_, fun p k n data' hm => ?_, ?_⟩
    · exact (hkeys r k hk).imp_right fun h => h.append L _
    · obtain ⟨rfl, rfl, -⟩ := hs p k n data' hm
      exact ⟨rfl, howner, .inr hun⟩
    · intro p k data' hm _
      obtain ⟨rfl, rfl, -⟩ := hs p k 1 data' hm
      refine henters.imp (fun h => h.append L _) ?_
      rintro ⟨l', rfl, hl'⟩
      exact ⟨l', rfl, hl'⟩
  · have hs := hsealed [.encrypt (.server c) l.cipher l.txNonce data] (by simp)
    rw [he]
    refine ⟨trivial, fun h => h.elim, fun r k hk => ?_, fun p k n data' hm => ?_, ?_⟩
    · exact (hkeys r k hk).imp_right fun h => h.append L _
    · obtain ⟨rfl, rfl, -⟩ := hs p k n data' hm
      exact ⟨rfl, howner, .inr id⟩
    · intro p k data' hm hf'
      obtain ⟨rfl, rfl, rfl⟩ := hs p k 1 data' hm
      exact absurd hf' hf

theorem onPassword_pass {buffer frame : Bytes} (hl : l.At L c 0 0) :
    PassStep L c s (.accept (.password l buffer)) (onPassword L s c l frame) := by
  obtain ⟨howner, htx, hrx⟩ := hl
  have hl' : Locals.At L c 0 1 { l with rxNonce := l.rxNonce + 1 } :=
    ⟨howner, htx, congrArg (· + 1) hrx⟩
  refine PassStep.seen L ?_ (unsealed_decrypt _ _ _ _)
  split
  · exact passStep_over L unsealed_nil
  · exact passStep_over L unsealed_nil
  · split_ifs
    · exact passStep_over L unsealed_nil
    · exact (sendAck_pass L (t := .accept (.password l buffer)) hl' trivial).seen L
        (unsealed_accepted _ _)

/-- A new session has the key. -/
theorem enters_session {u : PyStr} {k : K} {cl : Client K} (howner : L.owner k = c)
    (hk : cl.cipher = some k) (hs : cl.socket = some c) (hm : .session c u ∈ os) :
    Enters L c k (s.addSession u cl) os :=
  ⟨howner, u, s.fresh, by simp, by simpa using hk, by simpa using hs, .inl hm⟩

/-- Only the new session has another key. -/
theorem addSession_keys {u : PyStr} {cl : Client K} {r : Ref} {k : K}
    (h : ((s.addSession u cl).objs r).cipher = some k) :
    (s.objs r).cipher = some k ∨ cl.cipher = some k := by
  by_cases hr : r = s.fresh
  · subst hr
    rw [Server.addSession_objs_fresh] at h
    exact .inr h
  · simp only [Server.addSession, Function.update_of_ne hr] at h
    exact .inl h

theorem onLogin_pass {buffer frame : Bytes} {draw : Uuid4} (hl : l.At L c 1 1) :
    PassStep L c s (.accept (.login l buffer)) (onLogin L s c l frame draw) := by
  obtain ⟨howner, htx, hrx⟩ := hl
  have hl' : Locals.At L c 1 2 { l with rxNonce := l.rxNonce + 1 } :=
    ⟨howner, htx, congrArg (· + 1) hrx⟩
  have hdec := unsealed_decrypt (.server c) frame (some l.cipher) l.rxNonce
  unfold onLogin
  split
  · exact (passStep_over L unsealed_nil).seen L hdec
  · exact (passStep_over L unsealed_nil).seen L hdec
  rename_i response rem hv
  rcases response with _ | ⟨type_, rest⟩
  · exact ((passStep_over L unsealed_nil).seen L (unsealed_accepted _ _)).seen L hdec
  simp only
  by_cases hr : type_ = 0xC4
  · subst hr
    simp only [if_true]
    rcases hu : s.clientDb.get? (latin1Decode rest) with _ | r
    · refine (PassStep.seen L ?_ (unsealed_accepted _ _)).seen L hdec
      exact sendLogin_pass L [] _ _ hl' (by decide) hl' id unsealed_nil (fun _ _ h => .inl h)
        (.inr ⟨_, rfl, rfl⟩)
    · obtain ⟨k, ct, plaintext, hk, hcall, hd, -, ho⟩ := decryptCall_verify L (.server c) hv
      cases hk
      rw [hrx] at hd
      have hattach : Enters L c l.cipher (s.modify r (Client.attach c l.cipher))
          (decryptCall (.server c) frame (some l.cipher) l.rxNonce ++
            ([.accepted (.server c) (0xC4 :: rest)] ++ [.relogin c (latin1Decode rest)])) := by
        refine ⟨howner, _, r, hu, by rw [Server.modify_objs_self]; rfl,
          by rw [Server.modify_objs_self]; rfl, .inr ⟨by simp, [], ct,
            [.accepted (.server c) (0xC4 :: rest), .relogin c (latin1Decode rest)], plaintext, rest,
            ?_, unsealed_nil, hd, ho, rfl⟩⟩
        rw [hcall, hrx]
        rfl
      have hos : Unsealed (decryptCall (.server c) frame (some l.cipher) l.rxNonce ++
          ([.accepted (.server c) (0xC4 :: rest)] ++ [.relogin c (latin1Decode rest)])) :=
        hdec.append ((unsealed_accepted _ _).append (by simp [Unsealed]))
      have hstep := sendLogin_pass L (s := s) (t := .accept (.login l buffer)) _ ACK
        (.sendLogin { l with rxNonce := l.rxNonce + 1 } (latin1Decode rest) r) hl' (by decide) hl'
        id hos ?_ (.inl hattach)
      · simpa only [seen, List.append_assoc] using hstep
      · intro r' k hk
        by_cases hr : r' = r
        · subst hr
          rw [Server.modify_objs_self] at hk
          cases hk
          exact .inr hattach
        · rw [Server.modify_objs_ne hr] at hk
          exact .inl hk
  by_cases hl : type_ = 0xC5
  · subst hl
    simp only [if_neg hr, if_true]
    refine PassStep.seen L (PassStep.seen L ?_ (unsealed_accepted _ _)) hdec
    refine sendLogin_pass L _ _ _ hl' (by decide) hl' id (by simp [Unsealed]) ?_
      (.inl (enters_session L howner rfl rfl (by simp)))
    intro r k hk
    refine (addSession_keys hk).imp_right fun h => ?_
    cases h
    exact enters_session L howner rfl rfl (by simp)
  · simp only [if_neg hr, if_neg hl]
    exact ((passStep_over L unsealed_nil).seen L (unsealed_accepted _ _)).seen L hdec

theorem onChunk_pass {a : Accepting K} {buffer chunk : Bytes} {waiting : Bytes → Accepting K}
    {frame : Bytes → Outcome K (Accepting K)} (hw : ∀ b, (waiting b).AtStage L c)
    (hu : Task.Unanswered (.accept a)) (hf : ∀ f, PassStep L c s (.accept a) (frame f)) :
    PassStep L c s (.accept a) (onChunk s buffer chunk waiting frame) := by
  unfold onChunk
  split_ifs
  · exact passStep_over L unsealed_nil
  · split
    · exact passStep_over L unsealed_nil
    · exact hf _
    · exact passStep_still L (hw _) (fun _ => hu) unsealed_nil

/-- **A step of a pass.** -/
theorem acceptStep_pass {a : Accepting K} {i : Input} {draw : Uuid4}
    {o : Outcome K (Accepting K)} (ha : a.AtStage L c) (ho : acceptStep L s c a i draw = some o) :
    PassStep L c s (.accept a) o := by
  unfold acceptStep at ho
  split at ho
  · split_ifs at ho <;> cases ho
    · exact passStep_over L unsealed_nil
    · exact passStep_still L trivial (fun _ => trivial) unsealed_nil
    · exact passStep_still L trivial (fun _ => trivial) (by simp [Unsealed])
  · rename_i key
    split at ho
    · cases ho; exact passStep_over L unsealed_nil
    · rename_i k hk
      cases ho
      exact passStep_still L ⟨L.owner_exchange hk, rfl, rfl⟩ (fun _ => trivial) unsealed_nil
  · split_ifs at ho
    cases ho
    exact onChunk_pass L (fun _ => ha) trivial fun f => onPassword_pass L ha
  · cases ho
    exact passStep_still L ha (fun _ => trivial) unsealed_nil
  · split_ifs at ho
    cases ho
    exact onChunk_pass L (fun _ => ha) trivial fun f => onLogin_pass L ha
  · rename_i l
    cases ho
    refine ⟨trivial, fun h => h.elim, fun r k hk => ?_, fun _ _ _ _ hm => ?_, fun _ _ _ hm => ?_⟩
    · rw [finish, seen_server, Server.modify_objs] at hk
      have hsame : ((s.addSession draw.str (.login c draw.str l.cipher (l.txNonce + 1)
          l.rxNonce)).objs r).cipher = some k := by
        split_ifs at hk
        · exact hk
        · exact hk
      refine (addSession_keys hsame).imp_right fun h => ?_
      cases h
      refine ⟨ha.1, draw.str, s.fresh, ?_, ?_, ?_, .inl ?_⟩
      · simp [finish]
      · simp [finish, Client.setNonces, Client.login]
      · simp [finish, Client.setNonces, Client.login]
      · simp [finish]
    · simp [seen, finish] at hm
    · simp [seen, finish] at hm
  · rename_i l uuid r₀
    cases ho
    refine ⟨trivial, fun h => h.elim, fun r k hk => .inl ?_, fun _ _ _ _ hm => ?_,
      fun _ _ _ hm => ?_⟩
    · have hsame : SameKeys s (s.modify r₀ (Client.setNonces (l.txNonce + 1) l.rxNonce)) :=
        sameKeys_modify s r₀ fun _ => rfl
      exact (hsame r).symm.trans hk
    · simp [finish] at hm
    · simp [finish] at hm
  · cases ho
    exact passStep_over L unsealed_nil
  · cases ho

/-! ## A step of a coroutine -/

/-- A handler is past the stages of a pass. -/
theorem Task.Stays.atStage {u : PyStr} (h : t.Stays u) : t.AtStage L c := by
  cases t with
  | accept a => exact h.elim
  | _ => trivial

theorem taskStep_stage {i : Input} {draw : Uuid4} {o : Outcome K (Accepting K)}
    (ht : t.AtStage L c) (ho : taskStep L s c t i draw = some o) : o.2.1.AtStage L c := by
  cases t with
  | idle => cases ho
  | accept a => exact (acceptStep_pass L ht ho).stage
  | handler h => exact (handlerStep_stays L ho).atStage L
  | «over» e => cases ho

/-- Only keys of the connection are new in a session. -/
theorem taskStep_keys {i : Input} {draw : Uuid4} {o : Outcome K (Accepting K)}
    (ht : t.AtStage L c) (ho : taskStep L s c t i draw = some o) (r : Ref) (k : K)
    (hk : (o.1.objs r).cipher = some k) : (s.objs r).cipher = some k ∨ L.owner k = c := by
  cases t with
  | idle => cases ho
  | accept a => exact ((acceptStep_pass L ht ho).keys r k hk).imp_right fun h => h.1
  | handler h => exact .inl (((handlerStep_sealing L ho).keys r).symm.trans hk)
  | «over» e => cases ho

theorem put_stages {S : Sys K} (h : ∀ c', (S.tasks c').AtStage L c') (ht : t.AtStage L c)
    (c' : ConnId) : ((S.put c s t).tasks c').AtStage L c' := by
  by_cases hc : c' = c
  · subst hc; rw [put_tasks_self]; exact ht
  · rw [put_tasks_ne hc]; exact h c'

end

end Pipebomb
