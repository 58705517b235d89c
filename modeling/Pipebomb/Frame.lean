/-
  What a step of one coroutine leaves alone.

  * `SameLink` compares the part of two clients that belongs to the connection: socket,
    address, uuid, cipher and counters.
  * `Quiet`: the sessions and all links are the same; every command and every send is
    quiet, whatever it does to names, boxes and the database.
  * `Frame P`: sessions and links change for uuids with `P` only.  `taskStep_frame`: a
    coroutine touches the session it works for and the one its login names; `admin_frame`:
    an administrative call touches the session it makes or removes.
-/
import Pipebomb.System

namespace Pipebomb

open ByteString

variable {K : Type} (L : Libs K)

/-- The same connection. -/
structure SameLink (cl cl' : Client K) : Prop where
  socket : cl'.socket = cl.socket
  address : cl'.address = cl.address
  uuid : cl'.uuid = cl.uuid
  cipher : cl'.cipher = cl.cipher
  rxNonce : cl'.rxNonce = cl.rxNonce
  txNonce : cl'.txNonce = cl.txNonce

theorem SameLink.refl (cl : Client K) : SameLink cl cl := ⟨rfl, rfl, rfl, rfl, rfl, rfl⟩

theorem SameLink.trans {a b c : Client K} (h : SameLink a b) (h' : SameLink b c) : SameLink a c :=
  ⟨h'.1.trans h.1, h'.2.trans h.2, h'.3.trans h.3, h'.4.trans h.4, h'.5.trans h.5, h'.6.trans h.6⟩

/-- A change of a client that keeps its link. -/
def KeepsLink (f : Client K → Client K) : Prop := ∀ cl, SameLink cl (f cl)

theorem KeepsLink.own (name : PyStr) : KeepsLink (Client.own (K := K) name) :=
  fun _ => ⟨rfl, rfl, rfl, rfl, rfl, rfl⟩

theorem KeepsLink.disown (name : PyStr) : KeepsLink (Client.disown (K := K) name) :=
  fun _ => ⟨rfl, rfl, rfl, rfl, rfl, rfl⟩

theorem KeepsLink.put (q : Request) : KeepsLink (Client.put (K := K) q) :=
  fun _ => ⟨rfl, rfl, rfl, rfl, rfl, rfl⟩

theorem KeepsLink.setInbox (qs : List Request) : KeepsLink (Client.setInbox (K := K) qs) :=
  fun _ => ⟨rfl, rfl, rfl, rfl, rfl, rfl⟩

theorem KeepsLink.setOutbox (d : Dict Bytes Response) : KeepsLink (Client.setOutbox (K := K) d) :=
  fun _ => ⟨rfl, rfl, rfl, rfl, rfl, rfl⟩

theorem KeepsLink.setOutboxLock (b : Bool) : KeepsLink (Client.setOutboxLock (K := K) b) :=
  fun _ => ⟨rfl, rfl, rfl, rfl, rfl, rfl⟩

/-- The sessions and their links are the same. -/
structure Quiet (s s' : Server K) : Prop where
  fresh : s'.fresh = s.fresh
  clientDb : s'.clientDb = s.clientDb
  link : ∀ r, SameLink (s.objs r) (s'.objs r)

/-- Sessions and links are the same apart from the uuids with `P`, and a new reference
    in `client_db` is one to a new object. -/
structure Frame (P : PyStr → Prop) (s s' : Server K) : Prop where
  fresh : s.fresh ≤ s'.fresh
  uuid : ∀ r < s.fresh, (s'.objs r).uuid = (s.objs r).uuid
  link : ∀ r < s.fresh, ¬ P (s.objs r).uuid → SameLink (s.objs r) (s'.objs r)
  sessions : ∀ u, ¬ P u → s'.clientDb.get? u = s.clientDb.get? u
  refs : ∀ u r, s'.clientDb.get? u = some r →
    s.clientDb.get? u = some r ∨ s.fresh ≤ r ∧ r < s'.fresh ∧ (s'.objs r).uuid = u

variable {s s' s'' : Server K} {P Q : PyStr → Prop}

/-! ## Quiet steps -/

theorem Quiet.refl (s : Server K) : Quiet s s := ⟨rfl, rfl, fun _ => .refl _⟩

theorem Quiet.trans (h : Quiet s s') (h' : Quiet s' s'') : Quiet s s'' :=
  ⟨h'.1.trans h.1, h'.2.trans h.2, fun r => (h.3 r).trans (h'.3 r)⟩

theorem Quiet.modify (s : Server K) (r : Ref) (f : Client K → Client K)
    (hf : KeepsLink f) : Quiet s (s.modify r f) := by
  refine ⟨rfl, rfl, fun r' => ?_⟩
  rw [Server.modify_objs]
  split_ifs
  · exact hf _
  · exact .refl _

theorem Quiet.get? (h : Quiet s s') (u : PyStr) : s'.clientDb.get? u = s.clientDb.get? u := by
  rw [h.clientDb]

theorem setBook_quiet (s : Server K) (book : Dict PyStr PyStr) : Quiet s (s.setBook book) :=
  ⟨rfl, rfl, fun _ => .refl _⟩

theorem release_quiet (s : Server K) (held : Held) : Quiet s (s.release held) := by
  cases held with
  | none => exact .refl s
  | dbLock => exact ⟨rfl, rfl, fun _ => .refl _⟩
  | outboxLock r => exact .modify s r _ (.setOutboxLock false)

theorem register_quiet (s : Server K) (uuid name : PyStr) : Quiet s (register s uuid name).1 := by
  unfold register
  split_ifs
  · exact .refl s
  · cases s.clientDb.get? uuid with
    | none => exact .refl s
    | some r =>
      exact ⟨rfl, rfl, (Quiet.modify s r _ (.own name)).link⟩

theorem unregister_quiet (s : Server K) (uuid name : PyStr) :
    Quiet s (unregister s uuid name).1 := by
  unfold unregister
  cases s.clientDb.get? uuid with
  | none => exact .refl s
  | some r =>
    have := Quiet.modify s r _ (.disown name)
    simp only
    split_ifs
    · exact ⟨rfl, rfl, this.link⟩
    · exact this
    · exact .refl s

theorem putInbox_quiet (s : Server K) (uuid : PyStr) (value : Bytes) (draw : Uuid4) :
    Quiet s (putInbox s uuid value draw).1 := by
  unfold putInbox
  split
  · split
    · exact .refl s
    · split
      · exact .refl s
      · exact .modify s _ _ (.put _)
  · exact .refl s
  · exact .refl s

/-- A command is quiet up to its first await. -/
theorem dispatch_quiet (s : Server K) (uuid : PyStr) (data : Bytes) (draw : Uuid4) :
    Quiet s (dispatch s uuid data draw).1 := by
  cases data with
  | nil => exact .refl s
  | cons type_ value =>
    simp only [dispatch]
    cases command type_ with
    | register => exact register_quiet s uuid _
    | unregister => exact unregister_quiet s uuid _
    | putInbox => exact putInbox_quiet s uuid value draw
    | getInbox => simp only; split <;> exact .refl s
    | getOutbox => simp only; split <;> exact .refl s
    | _ => exact .refl s

/-- A command under `db_lock` is quiet. -/
theorem dbOp_quiet (op : DbOp) (s : Server K) (value : Bytes) : Quiet s (op.run s value).1 := by
  cases op with
  | set => simp only [DbOp.run]; split <;> exact ⟨rfl, rfl, fun _ => .refl _⟩
  | get => exact .refl s
  | delete => simp only [DbOp.run]; split_ifs <;> exact ⟨rfl, rfl, fun _ => .refl _⟩
  | list => exact .refl s

@[simp] theorem seen_server {A : Type} (os : List (Obs K)) (o : Outcome K A) :
    (seen os o).1 = o.1 := rfl

@[simp] theorem seen_task {A : Type} (os : List (Obs K)) (o : Outcome K A) :
    (seen os o).2.1 = o.2.1 := rfl

@[simp] theorem seen_obs {A : Type} (os : List (Obs K)) (o : Outcome K A) :
    (seen os o).2.2 = os ++ o.2.2 := rfl

theorem sendPacket_quiet {A : Type} (s : Server K) (c : ConnId) (h : Handler) (reply : Bytes)
    (held : Held) (after : After) :
    Quiet s (sendPacket L s c h reply held after : Outcome K A).1 := by
  unfold sendPacket
  split
  · exact release_quiet s held
  · rw [seen_server]
    split
    · exact release_quiet s held
    · exact .refl s

theorem sendReply_quiet {A : Type} (s : Server K) (c : ConnId) (h : Handler)
    (reply : Except PyErr Bytes) (held : Held) (after : After) :
    Quiet s (sendReply L s c h reply held after : Outcome K A).1 := by
  cases reply with
  | error e => exact release_quiet s held
  | ok data => exact sendPacket_quiet L s c h data held after

/-! ## Frames -/

theorem Quiet.frame (h : Quiet s s') : Frame P s s' where
  fresh := Nat.le_of_eq h.fresh.symm
  uuid r _ := (h.link r).uuid
  link r _ _ := h.link r
  sessions u _ := h.get? u
  refs u _ hu := .inl (h.get? u ▸ hu)

theorem Frame.mono (h : Frame P s s') (hPQ : ∀ u, P u → Q u) : Frame Q s s' where
  fresh := h.fresh
  uuid := h.uuid
  link r hr hu := h.link r hr fun hp => hu (hPQ _ hp)
  sessions u hu := h.sessions u fun hp => hu (hPQ _ hp)
  refs := h.refs

theorem Frame.trans (h : Frame P s s') (h' : Frame P s' s'') : Frame P s s'' where
  fresh := Nat.le_trans h.fresh h'.fresh
  uuid r hr := (h'.uuid r (Nat.lt_of_lt_of_le hr h.fresh)).trans (h.uuid r hr)
  link r hr hu := (h.link r hr hu).trans
    (h'.link r (Nat.lt_of_lt_of_le hr h.fresh) (by rw [h.uuid r hr]; exact hu))
  sessions u hu := (h'.sessions u hu).trans (h.sessions u hu)
  refs u r hu := by
    rcases h'.refs u r hu with hu | ⟨hle, hlt, hid⟩
    · rcases h.refs u r hu with hu | ⟨hle, hlt, hid⟩
      · exact .inl hu
      · exact .inr ⟨hle, Nat.lt_of_lt_of_le hlt h'.fresh, (h'.uuid r hlt).trans hid⟩
    · exact .inr ⟨Nat.le_trans h.fresh hle, hlt, hid⟩

/-- References stay well-formed. -/
theorem Frame.wfRefs (h : Frame P s s') (hw : s.WfRefs) : s'.WfRefs := by
  intro u r hu
  rcases h.refs u r hu with hu | ⟨-, hlt, hid⟩
  · obtain ⟨hlt, hid⟩ := hw u r hu
    exact ⟨Nat.lt_of_lt_of_le hlt h.fresh, (h.uuid r hlt).trans hid⟩
  · exact ⟨hlt, hid⟩

/-- Changing the object of a session with `P`. -/
theorem Frame.modify {r : Ref} {f : Client K → Client K} (hP : P (s.objs r).uuid)
    (hf : ∀ cl, (f cl).uuid = cl.uuid) : Frame P s (s.modify r f) where
  fresh := Nat.le_refl _
  uuid r' _ := by
    rw [Server.modify_objs]
    split_ifs
    · exact hf _
    · rfl
  link r' _ hu := by
    rw [Server.modify_objs_ne]
    · exact .refl _
    · rintro rfl; exact hu hP
  sessions u _ := rfl
  refs u r' hu := .inl hu

theorem Frame.addSession {u : PyStr} {cl : Client K} (hP : P u) (hcl : cl.uuid = u) :
    Frame P s (s.addSession u cl) where
  fresh := Nat.le_succ _
  uuid r hr := by rw [Server.addSession_objs hr]
  link r hr _ := by rw [Server.addSession_objs hr]; exact .refl _
  sessions u' hu := by
    rw [Server.addSession_clientDb, Dict.get?_set_ne]
    rintro rfl; exact hu hP
  refs u' r hu := by
    rw [Server.addSession_clientDb, Dict.get?_set] at hu
    split_ifs at hu with he
    · cases hu
      exact .inr ⟨Nat.le_refl _, Nat.lt_succ_self _, by rw [Server.addSession_objs_fresh, hcl, he]⟩
    · exact .inl hu

theorem teardown_frame (s : Server K) {u : PyStr} (hP : P u) : Frame P s (teardown s u) := by
  unfold teardown
  split_ifs
  · exact (Quiet.refl s).frame
  · refine ⟨Nat.le_refl _, fun _ _ => rfl, fun _ _ _ => .refl _, fun u' hu => ?_, fun u' r hu => ?_⟩
    · exact Dict.get?_erase_ne _ (by rintro rfl; exact hu hP)
    · have hu : (s.clientDb.erase u).get? u' = some r := hu
      rw [Dict.get?_erase] at hu
      split_ifs at hu
      exact .inl hu

/-! ## The handler -/

section
variable {A : Type}

theorem proceed_frame (c : ConnId) (h : Handler) (o : Server K × Next) (hP : P h.uuid) :
    Frame P o.1 (proceed L c h o : Outcome K A).1 := by
  unfold proceed
  split
  · exact (sendPacket_quiet L _ _ _ _ _ _).frame
  · exact (Quiet.refl _).frame
  · exact (Quiet.refl _).frame
  · exact teardown_frame _ hP

theorem onFrame_frame (hw : s.WfRefs) (c : ConnId) (h : Handler) (frame : Option Bytes)
    (draw : Uuid4) (hP : P h.uuid) : Frame P s (onFrame L s c h frame draw : Outcome K A).1 := by
  unfold onFrame
  split
  · exact (Quiet.refl s).frame
  · exact (Quiet.refl s).frame
  · rename_i r f hu
    have hrx : Frame P s (s.modify r Client.received) :=
      .modify (by rw [(hw _ _ hu).2]; exact hP) fun _ => rfl
    simp only [seen_server]
    split
    · exact (Quiet.refl s).frame
    · exact hrx.trans (sendReply_quiet L _ _ _ _ _ _).frame
    · exact hrx.trans ((dispatch_quiet _ _ _ _).frame.trans (proceed_frame L c _ _ hP))

theorem pump_frame (hw : s.WfRefs) (c : ConnId) (h : Handler) (draw : Uuid4) (hP : P h.uuid) :
    Frame P s (pump L s c h draw : Outcome K A).1 := by
  unfold pump
  split
  · split
    · exact (Quiet.refl s).frame
    · exact (Quiet.refl s).frame
  · exact onFrame_frame L hw c _ _ draw hP
  · exact (Quiet.refl s).frame

theorem onSent_frame (hw : s.WfRefs) (c : ConnId) (h : Handler) (held : Held) (after : After)
    (draw : Uuid4) (hP : P h.uuid) : Frame P s (onSent L s c h held after draw : Outcome K A).1 := by
  have hsent : ∀ r, s.clientDb.get? h.uuid = some r →
      Frame P s ((s.modify r Client.sent).release held) := fun r hu =>
    (Frame.modify (f := Client.sent) (by rw [(hw _ _ hu).2]; exact hP) fun _ => rfl).trans
      (release_quiet _ _).frame
  cases after with
  | frameError => exact onFrame_frame L hw c h none draw hP
  | next =>
    simp only [onSent]
    split
    · exact (release_quiet s held).frame
    · rename_i r hu; exact hsent r hu
  | close =>
    simp only [onSent]
    split
    · exact (release_quiet s held).frame
    · rename_i r hu; exact (hsent r hu).trans (teardown_frame _ hP)

/-- **A handler touches its own session only.** -/
theorem handlerStep_frame (hw : s.WfRefs) {c : ConnId} {h : Handler} {i : Input} {draw : Uuid4}
    {o : Outcome K A} (hP : P h.uuid) (ho : handlerStep L s c h i draw = some o) :
    Frame P s o.1 := by
  obtain ⟨uuid, buffer, data, pc⟩ := h
  unfold handlerStep at ho
  split at ho
  · cases ho
    unfold started
    split
    · exact (Quiet.refl s).frame
    · split_ifs <;> exact (Quiet.refl s).frame
  · cases ho; exact pump_frame L hw c _ draw hP
  · split_ifs at ho
    · cases ho; exact onFrame_frame L hw c _ none draw hP
    · cases ho; exact pump_frame L hw c _ draw hP
  · split_ifs at ho
    cases ho
    have hlock : Quiet s (s.setDbLock true) := ⟨rfl, rfl, fun _ => .refl _⟩
    exact (hlock.trans ((dbOp_quiet _ _ _).trans (sendReply_quiet L _ _ _ _ _ _))).frame
  · split at ho
    · cases ho
    · cases ho
      exact (Quiet.trans (.modify s _ _ (.setInbox _)) (sendReply_quiet L _ _ _ _ _ _)).frame
  · split_ifs at ho
    cases ho
    exact (Quiet.trans (.modify s _ _ (.setOutbox _)) (sendPacket_quiet L _ _ _ _ _ _)).frame
  · split_ifs at ho
    simp only at ho
    split at ho
    · cases ho
      exact (Quiet.trans (.modify s _ _ (.setOutboxLock true))
        (sendReply_quiet L _ _ _ _ _ _)).frame
    · cases ho
      exact (Quiet.trans (.modify s _ _ (.setOutboxLock true)) (.trans
        (.modify _ _ _ (.setOutbox _)) (sendReply_quiet L _ _ _ _ _ _))).frame
  · cases ho; exact onSent_frame L hw c _ _ _ draw hP
  · cases ho; exact (release_quiet s _).frame
  · cases ho

end

/-! ## The handshake -/

theorem sendHandshake_server (s : Server K) (c : ConnId) (l : Locals K) (data : Bytes)
    (next : Accepting K) : (sendHandshake L s c l data next).1 = s := by
  simp only [sendHandshake, seen_server]
  split <;> rfl

/-- The uuids a login names. -/
def Named (os : List (Obs K)) (u : PyStr) : Prop :=
  ∃ c, .session c u ∈ os ∨ .relogin c u ∈ os

theorem onPassword_server (s : Server K) (c : ConnId) (l : Locals K) (frame : Bytes) :
    (onPassword L s c l frame).1 = s := by
  simp only [onPassword, seen_server]
  split
  · rfl
  · rfl
  · split_ifs
    · rfl
    · exact sendHandshake_server L _ _ _ _ _

theorem onLogin_frame (hw : s.WfRefs) (c : ConnId) (l : Locals K) (frame : Bytes) (draw : Uuid4)
    (hP : ∀ u, Named (onLogin L s c l frame draw).2.2 u → P u) :
    Frame P s (onLogin L s c l frame draw).1 := by
  unfold onLogin at hP ⊢
  simp only [seen_server, seen_obs] at hP ⊢
  split at hP
  · exact (Quiet.refl s).frame
  · exact (Quiet.refl s).frame
  · simp only [seen_server, seen_obs] at hP ⊢
    split at hP
    · exact (Quiet.refl s).frame
    · split_ifs at hP ⊢ with h1 h2
      · split at hP
        · split
          · exact (Quiet.refl s).frame
          · rw [sendHandshake_server]; exact (Quiet.refl s).frame
        · rename_i r hu
          simp only [seen_server, sendHandshake_server]
          refine .modify (f := Client.attach c l.cipher) ?_ fun _ => rfl
          rw [(hw _ _ hu).2]
          exact hP _ ⟨c, .inr (by simp)⟩
      · simp only [seen_server, sendHandshake_server]
        exact .addSession (hP _ ⟨c, .inl (by simp)⟩) rfl
      · exact (Quiet.refl s).frame

theorem onChunk_frame (buffer chunk : Bytes) (waiting : Bytes → Accepting K)
    (frame : Bytes → Outcome K (Accepting K))
    (h : ∀ f, onChunk s buffer chunk waiting frame = frame f → Frame P s (frame f).1) :
    Frame P s (onChunk s buffer chunk waiting frame).1 := by
  unfold onChunk at h ⊢
  split_ifs with hc
  · exact (Quiet.refl s).frame
  · rw [if_neg hc] at h
    split
    · exact (Quiet.refl s).frame
    · rename_i f rest he
      exact h f (by rw [he])
    · exact (Quiet.refl s).frame

theorem finish_frame (uuid : PyStr) (l : Locals K) {r : Ref} (hP : P (s.objs r).uuid) :
    Frame P s (finish s uuid l r).1 :=
  .modify (f := Client.setNonces l.txNonce l.rxNonce) hP fun _ => rfl

/-- A client that waits for its login is one of the session. -/
def Accepting.Wf (s : Server K) : Accepting K → Prop
  | .sendLogin _ uuid r => r < s.fresh ∧ (s.objs r).uuid = uuid
  | _ => True

/-- **A handshake touches the session it names only.** -/
theorem acceptStep_frame (hw : s.WfRefs) {c : ConnId} {a : Accepting K} (ha : a.Wf s) {i : Input}
    {draw : Uuid4} {o : Outcome K (Accepting K)} (ho : acceptStep L s c a i draw = some o)
    (hu : ∀ u, (Task.accept a).uses = some u → P u) (hP : ∀ u, Named o.2.2 u → P u) :
    Frame P s o.1 := by
  unfold acceptStep at ho
  split at ho
  · split_ifs at ho <;> cases ho <;> exact (Quiet.refl s).frame
  · split at ho <;> cases ho <;> exact (Quiet.refl s).frame
  · split_ifs at ho
    cases ho
    exact onChunk_frame _ _ _ _ fun f _ => by
      rw [onPassword_server]; exact (Quiet.refl s).frame
  · cases ho; exact (Quiet.refl s).frame
  · split_ifs at ho
    cases ho
    exact onChunk_frame _ _ _ _ fun f hf => onLogin_frame L hw _ _ _ _ (by rwa [← hf])
  · cases ho
    have hd : P draw.str := hP _ ⟨c, .inl (by simp)⟩
    refine .trans (.addSession hd ?_) (finish_frame draw.str _ ?_)
    · rfl
    · rw [Server.addSession_objs_fresh]; exact hd
  · cases ho
    exact finish_frame _ _ (by rw [ha.2]; exact hu _ rfl)
  · cases ho; exact (Quiet.refl s).frame
  · cases ho

/-! ## Any coroutine -/

/-- The references a coroutine holds are those of its session. -/
def Task.Wf (s : Server K) : Task (Accepting K) → Prop
  | .accept a => a.Wf s
  | _ => True

/-- The references of a coroutine stay those of its session. -/
theorem Frame.taskWf (h : Frame P s s') {t : Task (Accepting K)} (ht : t.Wf s) : t.Wf s' := by
  cases t with
  | accept a =>
    cases a with
    | sendLogin l uuid r => exact ⟨Nat.lt_of_lt_of_le ht.1 h.fresh, (h.uuid r ht.1).trans ht.2⟩
    | _ => trivial
  | _ => trivial

/-- **A coroutine touches its own session and the one its login names.** -/
theorem taskStep_frame (hw : s.WfRefs) {c : ConnId} {t : Task (Accepting K)} (ht : t.Wf s)
    {i : Input} {draw : Uuid4} {o : Outcome K (Accepting K)}
    (ho : taskStep L s c t i draw = some o) (hu : ∀ u, t.uses = some u → P u)
    (hP : ∀ u, Named o.2.2 u → P u) : Frame P s o.1 := by
  cases t with
  | idle => cases ho
  | «over» e => cases ho
  | accept a => exact acceptStep_frame L hw ht ho hu hP
  | handler h => exact handlerStep_frame L hw (hu _ rfl) ho

/-! ## Administrative calls -/

/-- The uuid whose session the call makes or removes. -/
def Admin.Names : Admin → PyStr → Prop
  | .addClient t, u => t.uuid = u
  | .removeClient uuid, u => uuid = u
  | _, _ => False

theorem admin_frame (s : Server K) (op : Admin) : Frame op.Names s (op.run s).1 := by
  cases op with
  | addClient t =>
    simp only [Admin.run, addClient]
    split_ifs
    · exact (Quiet.refl s).frame
    · exact (Quiet.refl s).frame
    · exact (Quiet.refl s).frame
    · exact .addSession rfl rfl
  | removeClient uuid =>
    simp only [Admin.run, removeClient]
    split_ifs
    · exact (Quiet.refl s).frame
    · split
      · exact (Quiet.refl s).frame
      · split
        · exact (setBook_quiet s _).frame
        · refine ⟨Nat.le_refl _, fun _ _ => rfl, fun _ _ _ => .refl _, fun u hu => ?_,
            fun u r hu => ?_⟩
          · exact Dict.get?_erase_ne _ fun he => hu he.symm
          · have hu : (s.clientDb.erase uuid).get? u = some r := hu
            rw [Dict.get?_erase] at hu
            split_ifs at hu
            exact .inl hu
  | addKey key uuid =>
    simp only [Admin.run, addKey]
    split_ifs
    · exact (Quiet.refl s).frame
    · exact (Quiet.refl s).frame
    · split
      · exact (setBook_quiet s _).frame
      · exact ((setBook_quiet s _).trans (.modify _ _ _ (.own key))).frame
  | removeKey key uuid =>
    simp only [Admin.run, removeKey]
    split_ifs
    · exact (Quiet.refl s).frame
    · split
      · exact (setBook_quiet s _).frame
      · split
        · exact ((setBook_quiet s _).trans (.modify _ _ _ (.disown key))).frame
        · exact (setBook_quiet s _).frame
    · exact (Quiet.refl s).frame

end Pipebomb
