/-
  Sessions and their connections over whole runs of the server.

  * `owner` is the connection that logged in to a session last.  `Owned`: every
    coroutine that works for a session is the one of its owner; steps at which a RELOGIN
    is accepted only while no coroutine works for the session keep it (`step_owned`).
  * `Task.Spares`: a coroutine that works for a session makes a step at which it reads no
    packet for it, sends it no reply and ends no send of one.
  * `reattach_isolation_iff`: the coroutines of other connections leave a session alone that was
    logged in to again, exactly if each step of the old ones spares it.
  * `reattach_interference` is a run without that condition: the handler of the old
    connection changes the counters of the session and removes it.
-/
import Pipebomb.Answers
import Pipebomb.Stub

namespace Pipebomb

open ByteString

variable {K : Type} (L : Libs K)

/-! ## Owners -/

/-- The connection an observation attaches to the session. -/
def attaches (u : PyStr) : Obs K → Option ConnId
  | .session c u' | .relogin c u' => if u' = u then some c else none
  | _ => none

/-- The connection that logged in to the session last. -/
def owner (u : PyStr) (os : List (Obs K)) : Option ConnId := (os.filterMap (attaches u)).getLast?

/-- The observations contain a login to the session. -/
def Attached (u : PyStr) (os : List (Obs K)) : Prop :=
  ∃ c, .session c u ∈ os ∨ .relogin c u ∈ os

theorem attaches_eq_some {u : PyStr} {x : Obs K} {c : ConnId} :
    attaches u x = some c ↔ x = .session c u ∨ x = .relogin c u := by
  cases x <;> simp [attaches]
  all_goals exact and_comm

variable {u : PyStr} {os o : List (Obs K)} {c : ConnId}

theorem owner_append_of_not (h : ¬ Attached u o) : owner u (os ++ o) = owner u os := by
  have : o.filterMap (attaches u) = [] := by
    rw [List.filterMap_eq_nil_iff]
    intro x hx
    rcases ha : attaches u x with _ | c
    · rfl
    · rcases attaches_eq_some.1 ha with rfl | rfl
      · exact absurd ⟨c, .inl hx⟩ h
      · exact absurd ⟨c, .inr hx⟩ h
  rw [owner, List.filterMap_append, this, List.append_nil, owner]

theorem owner_append_of_by {uses : Option PyStr} (h : Attached u o) (hb : AllBy c uses o) :
    owner u (os ++ o) = some c := by
  rw [owner, List.filterMap_append, List.getLast?_append]
  rcases hl : (o.filterMap (attaches u)).getLast? with _ | c'
  · rw [List.getLast?_eq_none_iff, List.filterMap_eq_nil_iff] at hl
    obtain ⟨c', hm | hm⟩ := h
    · have := hl _ hm; simp [attaches] at this
    · have := hl _ hm; simp [attaches] at this
  · obtain ⟨x, hx, ha⟩ := List.mem_filterMap.1 (List.mem_of_getLast? hl)
    have hx' := hb x hx
    rcases attaches_eq_some.1 ha with rfl | rfl
    · exact congrArg some hx'.1
    · exact congrArg some hx'.1

/-- The condition on the logins of a step: a new session has a fresh uuid, and no
    coroutine works for the session of a RELOGIN. -/
def Sys.Exclusive (S : Sys K) (_ : Act) (o : List (Obs K)) : Prop :=
  (∀ c u, .session c u ∈ o → S.Fresh u) ∧
    ∀ c u, .relogin c u ∈ o → ∀ c', (S.tasks c').uses ≠ some u

/-- The invariant of such runs. -/
structure Owned (S : Sys K) (os : List (Obs K)) : Prop where
  refs : S.server.WfRefs
  tasks : ∀ c, (S.tasks c).Wf S.server
  owner : ∀ c u, (S.tasks c).uses = some u → owner u os = some c

theorem Sys.Exclusive.not_uses {S : Sys K} {a : Act} (h : S.Exclusive a o) (hu : Attached u o)
    (c : ConnId) : (S.tasks c).uses ≠ some u := by
  obtain ⟨c', hm | hm⟩ := hu
  · exact (h.1 c' u hm).2 c
  · exact h.2 c' u hm c

/-- A coroutine goes on. -/
theorem resume_owned {S : Sys K} (hI : Owned S os) {i : Input} {draw : Uuid4}
    {s : Server K} {t : Task (Accepting K)}
    (hstep : taskStep L S.server c (S.tasks c) i draw = some (s, t, o))
    (hg : S.Exclusive (.resume c i draw) o) : Owned (S.put c s t) (os ++ o) := by
  have hframe : Frame (fun _ => True) S.server s :=
    taskStep_frame L hI.refs (hI.tasks c) hstep (fun _ _ => trivial) fun _ _ => trivial
  have hby : AllBy c (S.tasks c).uses o := taskStep_obs L hstep
  obtain ⟨hwf, huses⟩ := taskStep_enters L hI.refs hstep
  refine ⟨hframe.wfRefs hI.refs, fun c' => ?_, fun c' u hu => ?_⟩
  · by_cases hc : c' = c
    · subst hc; rw [put_tasks_self]; exact hwf
    · rw [put_tasks_ne hc]; exact hframe.taskWf (hI.tasks c')
  · by_cases hc : c' = c
    · subst hc
      rw [put_tasks_self] at hu
      by_cases ha : Attached u o
      · exact owner_append_of_by ha hby
      · rw [owner_append_of_not ha]
        rcases huses u hu with h | h
        · exact hI.owner c' u h
        · exact absurd ⟨c', h⟩ ha
    · rw [put_tasks_ne hc] at hu
      rw [owner_append_of_not fun ha => hg.not_uses ha c' hu]
      exact hI.owner c' u hu

/-- **One step.** -/
theorem step_owned {S S' : Sys K} (hI : Owned S os) {a : Act} (hstep : S.step L a = some (S', o))
    (hg : S.Exclusive a o) : Owned S' (os ++ o) := by
  rcases step_cases L hstep with ⟨c, rfl, -, rfl, rfl⟩ | ⟨c, i, draw, s, t, rfl, ht, rfl⟩ |
    ⟨op, rfl, rfl, rfl⟩
  · rw [List.append_nil]
    refine ⟨hI.refs, fun c' => ?_, fun c' u hu => ?_⟩
    · by_cases hc : c' = c
      · subst hc; rw [put_tasks_self]; trivial
      · rw [put_tasks_ne hc]; exact hI.tasks c'
    · by_cases hc : c' = c
      · subst hc; rw [put_tasks_self] at hu; cases hu
      · rw [put_tasks_ne hc] at hu; exact hI.owner c' u hu
  · exact resume_owned L hI ht hg
  · have hframe := admin_frame S.server op
    rw [List.append_nil]
    exact ⟨hframe.wfRefs hI.refs, fun c => hframe.taskWf (hI.tasks c), hI.owner⟩

/-! ## The end of a coroutine -/

/-- The teardown of a session leaves the names of the others. -/
theorem teardown_book {s : Server K} {u u' k : PyStr} (hu : u' ≠ u)
    (hk : s.addressBook.get? k = some u') : (teardown s u).addressBook.get? k = some u' := by
  unfold teardown
  split_ifs
  · exact hk
  · simp only
    split
    · exact hk
    · rename_i p hp
      have hp2 : p.2 = u := by simpa using List.find?_some hp
      have hget : s.addressBook.get? p.1 = some p.2 :=
        Dict.get?_eq_some.2 (List.mem_of_find?_eq_some hp)
      rw [Dict.get?_erase_ne]
      · exact hk
      · rintro rfl
        rw [hk] at hget
        exact hu ((Option.some.inj hget).trans hp2)

/-- A handler that returned ran the teardown, and changed no name before. -/
def TornDown {A : Type} (s : Server K) (uuid : PyStr) (o : Outcome K A) : Prop :=
  o.2.1 = .over none → ∃ s₁, o.1 = teardown s₁ uuid ∧ s₁.addressBook = s.addressBook

section
variable {A : Type} {s : Server K}

theorem tornDown_raised (held : Held) (e : PyErr) :
    TornDown s u (raised s held e : Outcome K A) := fun h => by cases h

theorem sendPacket_over (h : Handler) (reply : Bytes) (held : Held) (after : After) :
    (sendPacket L s c h reply held after : Outcome K A).2.1 ≠ .over none := by
  unfold sendPacket
  split
  · simp [raised]
  · rw [seen_task]
    split <;> simp [raised]

theorem sendReply_over (h : Handler) (reply : Except PyErr Bytes) (held : Held) (after : After) :
    (sendReply L s c h reply held after : Outcome K A).2.1 ≠ .over none := by
  cases reply with
  | error e => simp [sendReply, raised]
  | ok data => exact sendPacket_over L h data held after

theorem onFrame_tornDown (h : Handler) (frame : Option Bytes) (draw : Uuid4) :
    TornDown s h.uuid (onFrame L s c h frame draw : Outcome K A) := by
  unfold onFrame
  split
  · exact tornDown_raised _ _
  · exact tornDown_raised _ _
  · rename_i r f _
    intro ho
    simp only [seen_task, seen_server] at ho ⊢
    split at ho
    · cases ho
    · exact absurd ho (sendReply_over L _ _ _ _)
    · rename_i data _ _
      simp only [seen_task, proceed] at ho
      split at ho
      · exact absurd ho (sendPacket_over L _ _ _ _)
      · cases ho
      · cases ho
      · rename_i hbye
        obtain ⟨type_, value, -, -, hs⟩ := dispatch_bye hbye
        simp only [seen_server, proceed, hbye, hs]
        exact ⟨_, rfl, rfl⟩

theorem pump_tornDown (h : Handler) (draw : Uuid4) :
    TornDown s h.uuid (pump L s c h draw : Outcome K A) := by
  unfold pump
  split
  · split
    · exact tornDown_raised _ _
    · exact fun ho => by cases ho
  · exact onFrame_tornDown L { h with receiveBuffer := _ } _ draw
  · exact fun ho => by cases ho

theorem release_addressBook (s : Server K) (held : Held) :
    (s.release held).addressBook = s.addressBook := by cases held <;> rfl

theorem onSent_tornDown (h : Handler) (held : Held) (after : After) (draw : Uuid4) :
    TornDown s h.uuid (onSent L s c h held after draw : Outcome K A) := by
  unfold onSent
  split
  · exact onFrame_tornDown L h none draw
  · split
    · exact tornDown_raised _ _
    · exact fun ho => by cases ho
  · split
    · exact tornDown_raised _ _
    · exact fun _ => ⟨_, rfl, release_addressBook _ _⟩

theorem handlerStep_tornDown {h : Handler} {i : Input} {draw : Uuid4} {o : Outcome K A}
    (ho : handlerStep L s c h i draw = some o) : TornDown s h.uuid o := by
  unfold handlerStep at ho
  split at ho
  · cases ho
    unfold started
    split
    · exact tornDown_raised _ _
    · split_ifs
      · exact tornDown_raised _ _
      · exact fun ho => by cases ho
  · cases ho; exact pump_tornDown L h draw
  · split_ifs at ho
    · cases ho; exact onFrame_tornDown L h none draw
    · cases ho; exact pump_tornDown L { h with receiveBuffer := _ } draw
  · split_ifs at ho
    cases ho; exact fun ho => absurd ho (sendReply_over L _ _ _ _)
  · split at ho
    · cases ho
    · cases ho; exact fun ho => absurd ho (sendReply_over L _ _ _ _)
  · split_ifs at ho
    cases ho; exact fun ho => absurd ho (sendPacket_over L _ _ _ _)
  · split_ifs at ho
    simp only at ho
    split at ho
    · cases ho; exact fun ho => absurd ho (sendReply_over L _ _ _ _)
    · cases ho; exact fun ho => absurd ho (sendReply_over L _ _ _ _)
  · cases ho; exact onSent_tornDown L h _ _ draw
  · cases ho; exact tornDown_raised _ _
  · cases ho

/-- A handshake changes no name. -/
theorem onLogin_book (l : Locals K) (frame : Bytes) (draw : Uuid4) :
    (onLogin L s c l frame draw).1.addressBook = s.addressBook := by
  unfold onLogin
  rw [seen_server]
  split
  · rfl
  · rfl
  · rw [seen_server]
    split
    · rfl
    · simp only
      split_ifs
      · split
        · split
          · rfl
          · rw [sendHandshake_server]
        · rw [seen_server, sendHandshake_server]; rfl
      · rw [seen_server, sendHandshake_server]; rfl
      · rfl

theorem onChunk_book (buffer chunk : Bytes) (waiting : Bytes → Accepting K)
    (frame : Bytes → Outcome K (Accepting K)) (h : ∀ f, (frame f).1.addressBook = s.addressBook) :
    (onChunk s buffer chunk waiting frame).1.addressBook = s.addressBook := by
  unfold onChunk
  split_ifs
  · rfl
  · split
    · rfl
    · exact h _
    · rfl

theorem acceptStep_book {a : Accepting K} {i : Input} {draw : Uuid4}
    {o : Outcome K (Accepting K)} (ho : acceptStep L s c a i draw = some o) :
    o.1.addressBook = s.addressBook := by
  unfold acceptStep at ho
  split at ho
  · split_ifs at ho <;> cases ho <;> rfl
  · split at ho <;> cases ho <;> rfl
  · split_ifs at ho
    cases ho; exact onChunk_book _ _ _ _ fun f => by rw [onPassword_server]
  · cases ho; rfl
  · split_ifs at ho
    cases ho; exact onChunk_book _ _ _ _ fun f => onLogin_book L _ f draw
  · cases ho; rfl
  · cases ho; rfl
  · cases ho; rfl
  · cases ho

/-- **A coroutine that returns** leaves the names of other sessions. -/
theorem taskStep_over_book {t : Task (Accepting K)} {i : Input} {draw : Uuid4}
    {o : Outcome K (Accepting K)} (ho : taskStep L s c t i draw = some o)
    (hover : o.2.1 = .over none) (hu : t.uses ≠ some u) {k : PyStr}
    (hk : s.addressBook.get? k = some u) : o.1.addressBook.get? k = some u := by
  cases t with
  | idle => cases ho
  | «over» e => cases ho
  | accept a => rw [acceptStep_book L ho]; exact hk
  | handler h =>
    obtain ⟨s₁, h1, h2⟩ := handlerStep_tornDown L ho hover
    rw [h1]
    exact teardown_book (fun he => hu (congrArg some he.symm)) (h2 ▸ hk)

end

/-! ## Isolation -/

/-- A step of the coroutine of `c'` does not disturb the session `u`. -/
structure Undisturbed (S S' : Sys K) (o : List (Obs K)) (c' : ConnId) (u : PyStr) : Prop where
  /-- the session stays, with its socket, cipher and counters -/
  link : ∀ cl, S.server.client u = some cl → ∃ cl', S'.server.client u = some cl' ∧ SameLink cl cl'
  /-- nothing is answered for the session -/
  answers : ∀ c data reply, .answered c u data reply ∉ o
  /-- a coroutine that returns leaves the names of the session -/
  names : S'.tasks c' = .over none → ∀ k, S.server.addressBook.get? k = some u →
    S'.server.addressBook.get? k = some u

section
variable {S S' : Sys K} {i : Input} {draw : Uuid4}

/-- **A coroutine that does not work for the session** leaves it alone, unless it logs in to it. -/
theorem undisturbed_of_not_uses (hS : S.Sound) (hstep : S.step L (.resume c i draw) = some (S', o))
    (huses : (S.tasks c).uses ≠ some u) (hlogin : ¬ Attached u o) : Undisturbed S S' o c u := by
  obtain ⟨_, ha, -⟩ | ⟨_, _, _, s, t, ha, ht, rfl⟩ | ⟨_, ha, -⟩ := step_cases L hstep
  · cases ha
  · cases ha
    have hframe : Frame (fun u' => u' ≠ u) S.server s :=
      taskStep_frame L hS.refs (hS.tasks c) ht (fun u' hu' he => huses (he ▸ hu'))
        fun u' hu' he => hlogin (he ▸ hu')
    refine ⟨fun cl hcl => ?_, fun c'' data reply hm => ?_, fun hover k hk => ?_⟩
    · obtain ⟨r, hr, rfl⟩ := Server.client_eq_some.1 hcl
      obtain ⟨hlt, hid⟩ := hS.refs u r hr
      refine ⟨s.objs r, Server.client_eq_some.2 ⟨r, ?_, rfl⟩, hframe.link r hlt (by simp [hid])⟩
      exact (hframe.sessions u (by simp)).trans hr
    · exact huses (taskStep_obs L ht _ hm).2
    · rw [put_tasks_self] at hover
      exact taskStep_over_book L ht hover huses hk
  · cases ha

end

/-! ## A session that was logged in to again -/

/-- No packet comes out of the buffer: there is no frame in it, or no session, or
    `verify_packet` raises. -/
def Unread (s : Server K) (u : PyStr) (buffer : Bytes) : Prop :=
  ∀ frame ∈ (extractPacketFrame buffer).1, ∀ cl ∈ s.client u,
    (verifyPacket L frame cl.cipher cl.rxNonce).isOk = false

/-- **The step of a handler spares the session it works for**: it reads no packet for it, sends it
    no reply and ends no send of one. -/
def Handler.Spares (s : Server K) (h : Handler) : Input → Prop
  | .raise _ => True
  | .recv chunk => chunk = [] ∨ Unread L s h.uuid (h.receiveBuffer ++ chunk)
  | .sent => match h.pc with
    | .sendall _ after => after = .frameError ∨ h.uuid ∉ s.clientDb
    | _ => True
  | .go => match h.pc with
    | .sleep => Unread L s h.uuid h.receiveBuffer
    | pc => ∀ reply ∈ pc.reply s h.data, ¬ Sendable L s h.uuid reply

/-- The step of a coroutine spares the session it works for.  A handshake that ends sets the
    counters, if the session is still the one it attached. -/
def Task.Spares (s : Server K) : Task (Accepting K) → Input → Prop
  | .handler h, i => h.Spares L s i
  | .accept (.sendLogin l u r), .sent => s.clientDb.get? u = some r →
      (s.objs r).txNonce = l.txNonce + 1 ∧ (s.objs r).rxNonce = l.rxNonce
  | _, _ => True

/-- The step of a coroutine spares its session, if another connection logged in to it since. -/
def Sparing (before : List (Lts.Shown (Sys K) Act (Obs K))) (x : Lts.Shown (Sys K) Act (Obs K)) : Prop :=
  match x.act with
  | .resume c i _ => ∀ u ∈ (x.before.tasks c).uses, owner u (before.flatMap Lts.Shown.obs) ≠ some c →
      (x.before.tasks c).Spares L x.before.server i
  | _ => True

/-- The step of a coroutine leaves alone each session that another connection logged in to last,
    unless it is a login to the session. -/
def Isolated (before : List (Lts.Shown (Sys K) Act (Obs K))) (x : Lts.Shown (Sys K) Act (Obs K)) : Prop :=
  ∀ u c i draw, x.act = .resume c i draw → owner u (before.flatMap Lts.Shown.obs) ≠ some c →
    ¬ Attached u x.obs → Undisturbed x.before x.after x.obs c u

instance (s : Server K) (u : PyStr) (buffer : Bytes) : Decidable (Unread L s u buffer) :=
  inferInstanceAs (Decidable (∀ frame ∈ _, ∀ cl ∈ _, _))

instance (s : Server K) (h : Handler) (i : Input) : Decidable (h.Spares L s i) := by
  unfold Handler.Spares
  split
  · exact isTrue trivial
  · exact inferInstanceAs (Decidable (_ ∨ _))
  · split
    · exact inferInstanceAs (Decidable (_ ∨ _))
    · exact isTrue trivial
  · split
    · exact inferInstanceAs (Decidable (Unread _ _ _ _))
    · exact inferInstanceAs (Decidable (∀ reply ∈ _, ¬ Sendable _ _ _ reply))

instance (s : Server K) (t : Task (Accepting K)) (i : Input) : Decidable (t.Spares L s i) := by
  unfold Task.Spares
  split
  · exact inferInstanceAs (Decidable (Handler.Spares _ _ _ _))
  · exact inferInstanceAs (Decidable (_ → _ ∧ _))
  · exact isTrue trivial

instance (before : List (Lts.Shown (Sys K) Act (Obs K))) (x : Lts.Shown (Sys K) Act (Obs K)) :
    Decidable (Sparing L before x) := by
  unfold Sparing
  split
  · exact inferInstanceAs (Decidable (∀ u ∈ _, _ → _))
  · exact isTrue trivial

section
variable {A : Type} {s s' s'' : Server K} {h : Handler} {i : Input} {draw : Uuid4} {out : Outcome K A}

/-- Sessions and links stay, nothing is answered, and the coroutine does not return. -/
structure Harmless (s : Server K) (out : Outcome K A) : Prop where
  quiet : Quiet s out.1
  inner : Inner out.2.2
  «over» : out.2.1 ≠ .over none

theorem harmless_raised (s : Server K) (held : Held) (e : PyErr) :
    Harmless s (raised s held e : Outcome K A) :=
  ⟨release_quiet s held, .nil, fun h => by cases h⟩

theorem harmless_handler (s : Server K) (h : Handler) :
    Harmless s ((s, .handler h, []) : Outcome K A) := ⟨.refl s, .nil, fun h => by cases h⟩

theorem onFrame_none (s : Server K) (c : ConnId) (h : Handler) (draw : Uuid4) :
    Harmless s (onFrame L s c h none draw : Outcome K A) := by
  unfold onFrame
  split
  · exact harmless_raised _ _ _
  · exact harmless_raised _ _ _
  · rename_i hf
    cases hf

/-- `pump` on a buffer from which no packet comes. -/
theorem pump_unread (hun : Unread L s h.uuid h.receiveBuffer) (c : ConnId) (draw : Uuid4) :
    Harmless s (pump L s c h draw : Outcome K A) := by
  unfold pump
  rcases he : extractPacketFrame h.receiveBuffer with ⟨_ | frame, rest, _ | n⟩
  · exact harmless_handler _ _
  · simp only
    split
    · exact harmless_raised _ _ _
    · exact ⟨.refl s, .cons trivial .nil, fun h => by cases h⟩
  · simp only [onFrame]
    rcases hr : s.clientDb.get? h.uuid with _ | r
    · exact harmless_raised _ _ _
    · have hcl : s.client h.uuid = some (s.objs r) := Server.client_eq_some.2 ⟨r, hr, rfl⟩
      have hraises := hun frame (by rw [he]; rfl) (s.objs r) hcl
      rcases hv : verifyPacket L frame (s.objs r).cipher (s.objs r).rxNonce with e | v
      · simp only [hv]
        exact ⟨release_quiet s .none, (inner_decryptCall _ _ _ _).append .nil, fun h => by cases h⟩
      · rw [hv] at hraises
        cases hraises
  · simp only
    split
    · exact harmless_raised _ _ _
    · exact ⟨.refl s, .cons trivial .nil, fun h => by cases h⟩

/-- **A step that spares the session is harmless.** -/
theorem handlerStep_harmless (ho : handlerStep L s c h i draw = some out) (hs : h.Spares L s i) :
    Harmless s out := by
  by_cases hq : h.pc.Queues
  · obtain ⟨reply, rfl, hreply, rfl⟩ | ⟨e, -, rfl⟩ := handlerStep_queues L hq ho
    · have hun : ¬ Sendable L s h.uuid reply := by
        cases hpc : h.pc with
        | dbLock | inboxGet | outboxPut | outboxGet =>
          simp only [Handler.Spares, hpc] at hs
          rw [hpc] at hreply
          exact hs reply hreply
        | _ =>
          rw [hpc] at hq
          exact hq.elim
      have htake := take_quiet s h.data h.pc
      obtain ⟨e, os, hos, he⟩ := sendReply_not_sendable (A := A) L (c := c) h.pc.lock .next
        ((htake.sendable L).not.2 hun)
      rw [he]
      exact ⟨htake.trans (release_quiet _ _), hos, fun h => by cases h⟩
    · exact ⟨.refl s, .nil, fun h => by cases h⟩
  · unfold handlerStep at ho
    split at ho
    · cases ho
      unfold started
      split
      · exact harmless_raised _ _ _
      · split_ifs
        · exact harmless_raised _ _ _
        · exact harmless_handler _ _
    · rename_i hpc
      cases ho
      simp only [Handler.Spares, hpc] at hs
      exact pump_unread L hs c draw
    · rename_i chunk hpc
      split_ifs at ho with h1024 hnil
      · cases ho
        exact onFrame_none L s c h draw
      · cases ho
        exact pump_unread L (h := { h with receiveBuffer := h.receiveBuffer ++ chunk })
          (hs.resolve_left hnil) c draw
    · rename_i hpc
      rw [hpc] at hq
      exact absurd trivial hq
    · rename_i hpc
      rw [hpc] at hq
      exact absurd trivial hq
    · rename_i hpc
      rw [hpc] at hq
      exact absurd trivial hq
    · rename_i hpc
      rw [hpc] at hq
      exact absurd trivial hq
    · rename_i held after hpc
      cases ho
      simp only [Handler.Spares, hpc] at hs
      rcases hs with rfl | hno
      · exact onFrame_none L s c h draw
      · have hget := Dict.get?_eq_none.2 hno
        cases after with
        | frameError => exact onFrame_none L s c h draw
        | next | close =>
          simp only [onSent, hget]
          exact harmless_raised _ _ _
    · cases ho
      exact harmless_raised _ _ _
    · cases ho

/-! ### A step that does not spare it -/

/-- The session is the one of before, if it is there. -/
def Inherits (s s' : Server K) (u : PyStr) : Prop :=
  ∀ cl', s'.client u = some cl' → ∃ cl, s.client u = some cl ∧ SameLink cl cl'

theorem Inherits.trans (h : Inherits s s' u) (h' : Inherits s' s'' u) : Inherits s s'' u := by
  intro cl'' hcl''
  obtain ⟨cl', hcl', hsame'⟩ := h' cl'' hcl''
  obtain ⟨cl, hcl, hsame⟩ := h cl' hcl'
  exact ⟨cl, hcl, hsame.trans hsame'⟩

theorem Quiet.inherits (hq : Quiet s s') (u : PyStr) : Inherits s s' u := by
  intro cl' hcl'
  obtain ⟨r, hr, rfl⟩ := Server.client_eq_some.1 hcl'
  exact ⟨s.objs r, Server.client_eq_some.2 ⟨r, hq.get? u ▸ hr, rfl⟩, hq.link r⟩

theorem teardown_inherits (s : Server K) (u' u : PyStr) : Inherits s (teardown s u') u := by
  intro cl hcl
  obtain ⟨r, hr, rfl⟩ := Server.client_eq_some.1 hcl
  unfold teardown at hr ⊢
  split_ifs at hr ⊢
  · exact ⟨s.objs r, Server.client_eq_some.2 ⟨r, hr, rfl⟩, .refl _⟩
  · have hr : (s.clientDb.erase u').get? u = some r := hr
    rw [Dict.get?_erase] at hr
    split_ifs at hr
    exact ⟨s.objs r, Server.client_eq_some.2 ⟨r, hr, rfl⟩, .refl _⟩

theorem proceed_inherits (c : ConnId) (h : Handler) (o : Server K × Next) (u : PyStr) :
    Inherits o.1 (proceed L c h o : Outcome K A).1 u := by
  unfold proceed
  split
  · exact (sendPacket_quiet L _ _ _ _ _ _).inherits u
  · exact (Quiet.refl _).inherits u
  · exact (Quiet.refl _).inherits u
  · exact teardown_inherits _ _ u

/-- **A packet counts**, whether it verifies or not. -/
theorem onFrame_counts {cl cl' : Client K} {frame : Bytes} (hcl : s.client h.uuid = some cl)
    (hok : (verifyPacket L frame cl.cipher cl.rxNonce).isOk = true)
    (hcl' : (onFrame L s c h (some frame) draw : Outcome K A).1.client h.uuid = some cl') :
    cl'.rxNonce = cl.rxNonce + 1 := by
  obtain ⟨r, hr, rfl⟩ := Server.client_eq_some.1 hcl
  have hrec : (s.modify r Client.received).client h.uuid = some (s.objs r).received :=
    Server.client_eq_some.2 ⟨r, hr, Server.modify_objs_self⟩
  suffices hinherits : Inherits (s.modify r Client.received)
      (onFrame L s c h (some frame) draw : Outcome K A).1 h.uuid by
    obtain ⟨cl'', hcl'', hsame⟩ := hinherits cl' hcl'
    obtain rfl := Option.some.inj (hrec.symm.trans hcl'')
    exact hsame.rxNonce
  simp only [onFrame, hr, seen_server]
  rcases hv : verifyPacket L frame (s.objs r).cipher (s.objs r).rxNonce with e | n | ⟨data, rem⟩
  · rw [hv] at hok
    cases hok
  · exact (sendReply_quiet L _ _ _ _ _ _).inherits _
  · exact ((dispatch_quiet _ _ _ _).inherits _).trans
      (proceed_inherits L c { h with data := data } _ _)

theorem extractPacketFrame_some {buffer frame rest : Bytes} {e : Option ℕ}
    (h : extractPacketFrame buffer = (some frame, rest, e)) : e = none := by
  unfold extractPacketFrame at h
  simp only at h
  split_ifs at h
  · cases congrArg (fun x => x.1) h
  · cases congrArg (fun x => x.1) h
  · cases congrArg (fun x => x.1) h
  · exact (congrArg (fun x => x.2.2) h).symm

theorem pump_counts {cl cl' : Client K} (hun : ¬ Unread L s h.uuid h.receiveBuffer)
    (hcl : s.client h.uuid = some cl)
    (hcl' : (pump L s c h draw : Outcome K A).1.client h.uuid = some cl') :
    cl'.rxNonce = cl.rxNonce + 1 := by
  rcases he : extractPacketFrame h.receiveBuffer with ⟨_ | frame, rest, e⟩
  · refine absurd (fun frame hframe => ?_) hun
    rw [he] at hframe
    cases hframe
  · have hok : (verifyPacket L frame cl.cipher cl.rxNonce).isOk = true := by
      simpa [Unread, he, hcl] using hun
    obtain rfl := extractPacketFrame_some he
    simp only [pump, he] at hcl'
    exact onFrame_counts L (h := { h with receiveBuffer := rest }) hcl hok hcl'

/-- The end of a send counts. -/
theorem onSent_counts {cl cl' : Client K} {held : Held} {after : After} (hafter : after ≠ .frameError)
    (hcl : s.client h.uuid = some cl)
    (hcl' : (onSent L s c h held after draw : Outcome K A).1.client h.uuid = some cl') :
    cl'.txNonce = cl.txNonce + 1 := by
  obtain ⟨r, hr, rfl⟩ := Server.client_eq_some.1 hcl
  have hsent : (s.modify r Client.sent).client h.uuid = some (s.objs r).sent :=
    Server.client_eq_some.2 ⟨r, hr, Server.modify_objs_self⟩
  suffices hinherits : Inherits (s.modify r Client.sent)
      (onSent L s c h held after draw : Outcome K A).1 h.uuid by
    obtain ⟨cl'', hcl'', hsame⟩ := hinherits cl' hcl'
    obtain rfl := Option.some.inj (hsent.symm.trans hcl'')
    exact hsame.txNonce
  have hrelease := (release_quiet (s.modify r Client.sent) held).inherits h.uuid
  cases after with
  | frameError => exact absurd rfl hafter
  | next =>
    simp only [onSent, hr]
    exact hrelease
  | close =>
    simp only [onSent, hr]
    exact hrelease.trans (teardown_inherits _ _ _)

/-- **A step that does not spare the session disturbs it**: it sends a reply, or it counts. -/
theorem handlerStep_disturbs (ho : handlerStep L s c h i draw = some out) (hs : ¬ h.Spares L s i) :
    (∃ reply, .answered c h.uuid h.data reply ∈ out.2.2) ∨ ∃ cl, s.client h.uuid = some cl ∧
      ∀ cl', out.1.client h.uuid = some cl' → ¬ SameLink cl cl' := by
  have hread : ∀ {g : Handler}, g.uuid = h.uuid → ¬ Unread L s h.uuid g.receiveBuffer →
      ∃ cl, s.client h.uuid = some cl ∧ ∀ cl', (pump L s c g draw : Outcome K A).1.client h.uuid = some cl' →
        ¬ SameLink cl cl' := by
    intro g hg hun
    rcases hcl : s.client h.uuid with _ | cl
    · refine absurd (fun frame _ cl hm => ?_) hun
      rw [hcl] at hm
      cases hm
    · refine ⟨cl, rfl, fun cl' hcl' hsame => ?_⟩
      rw [← hg] at hcl hcl' hun
      have hrx := pump_counts L hun hcl hcl'
      rw [hsame.rxNonce] at hrx
      omega
  by_cases hq : h.pc.Queues
  · obtain ⟨reply, rfl, hreply, rfl⟩ | ⟨e, rfl, -⟩ := handlerStep_queues L hq ho
    · have hsend : Sendable L s h.uuid reply := by
        by_contra hun
        refine hs ?_
        cases hpc : h.pc with
        | dbLock | inboxGet | outboxPut | outboxGet =>
          simp only [Handler.Spares, hpc]
          rw [hpc] at hreply
          rintro reply' hreply'
          obtain rfl := Option.some.inj (hreply.symm.trans hreply')
          exact hun
        | _ =>
          rw [hpc] at hq
          exact hq.elim
      obtain ⟨y, pkt, os, -, -, he⟩ := sendReply_sendable (A := A) L (c := c) h.pc.lock .next
        (((take_quiet s h.data h.pc).sendable L).2 hsend)
      rw [he]
      exact .inl ⟨y, by simp⟩
    · exact absurd trivial hs
  · unfold handlerStep at ho
    split at ho
    · rename_i hpc
      refine absurd ?_ hs
      simp only [Handler.Spares, hpc, Await.reply]
      exact fun _ h => by cases h
    · rename_i hpc
      cases ho
      simp only [Handler.Spares, hpc] at hs
      exact .inr (hread rfl hs)
    · rename_i chunk hpc
      simp only [Handler.Spares, not_or] at hs
      split_ifs at ho with h1024 hnil
      · exact absurd hnil hs.1
      · cases ho
        exact .inr (hread (g := { h with receiveBuffer := h.receiveBuffer ++ chunk }) rfl hs.2)
    · rename_i hpc
      rw [hpc] at hq
      exact absurd trivial hq
    · rename_i hpc
      rw [hpc] at hq
      exact absurd trivial hq
    · rename_i hpc
      rw [hpc] at hq
      exact absurd trivial hq
    · rename_i hpc
      rw [hpc] at hq
      exact absurd trivial hq
    · rename_i held after hpc
      cases ho
      simp only [Handler.Spares, hpc, not_or, not_not] at hs
      obtain ⟨r, hr⟩ := Dict.mem_iff.1 hs.2
      have hcl : s.client h.uuid = some (s.objs r) := Server.client_eq_some.2 ⟨r, hr, rfl⟩
      refine .inr ⟨_, hcl, fun cl' hcl' hsame => ?_⟩
      have htx := onSent_counts L hs.1 hcl hcl'
      rw [hsame.txNonce] at htx
      omega
    · exact absurd trivial hs
    · cases ho

end

section
variable {S S' : Sys K} {i : Input} {draw : Uuid4} {password : Bytes} {keep : Bool}
  {xs : List (Lts.Shown (Sys K) Act (Obs K))}

theorem Harmless.undisturbed {s : Server K} {t : Task (Accepting K)}
    (h : Harmless S.server ((s, t, o) : Outcome K (Accepting K))) (u : PyStr) :
    Undisturbed S (S.put c s t) o c u := by
  refine ⟨fun cl hcl => ?_, fun _ _ _ hm => h.inner _ hm, fun hover => ?_⟩
  · obtain ⟨r, hr, rfl⟩ := Server.client_eq_some.1 hcl
    exact ⟨s.objs r, Server.client_eq_some.2 ⟨r, (h.quiet.get? u).trans hr, rfl⟩, h.quiet.link r⟩
  · rw [put_tasks_self] at hover
    exact absurd hover h.over

theorem acceptStep_sendLogin {s : Server K} {l : Locals K} {r : Ref} {out : Outcome K (Accepting K)}
    (ho : acceptStep L s c (.sendLogin l u r) i draw = some out) :
    (i = .sent ∧ out = finish s u { l with txNonce := l.txNonce + 1 } r) ∨
      ∃ e, i = .raise e ∧ out = logged s e := by
  cases i with
  | sent =>
    cases ho
    exact .inl ⟨rfl, rfl⟩
  | raise e =>
    cases ho
    exact .inr ⟨e, rfl, rfl⟩
  | go | recv => cases ho

/-- The end of a handshake. -/
theorem finish_undisturbed {l : Locals K} {r : Ref} :
    Undisturbed S (S.put c (S.server.modify r (Client.setNonces (l.txNonce + 1) l.rxNonce))
      (.handler ⟨u, [], [], .start⟩)) [] c u ↔
      (S.server.clientDb.get? u = some r →
        (S.server.objs r).txNonce = l.txNonce + 1 ∧ (S.server.objs r).rxNonce = l.rxNonce) := by
  constructor
  · intro hu hr
    obtain ⟨cl', hcl', hsame⟩ := hu.link _ (Server.client_eq_some.2 ⟨r, hr, rfl⟩)
    obtain ⟨r', hr', rfl⟩ := Server.client_eq_some.1 hcl'
    obtain rfl := Option.some.inj (hr.symm.trans hr')
    have htx := hsame.txNonce
    have hrx := hsame.rxNonce
    rw [put_server, Server.modify_objs_self] at htx hrx
    exact ⟨htx.symm, hrx.symm⟩
  · refine fun hsame => ⟨fun cl hcl => ?_, fun _ _ _ hm => (by cases hm), fun hover => ?_⟩
    · obtain ⟨r', hr', rfl⟩ := Server.client_eq_some.1 hcl
      refine ⟨_, Server.client_eq_some.2 ⟨r', hr', rfl⟩, ?_⟩
      rw [put_server, Server.modify_objs]
      split_ifs with he
      · subst he
        obtain ⟨htx, hrx⟩ := hsame hr'
        exact ⟨rfl, rfl, rfl, rfl, hrx.symm, htx.symm⟩
      · exact .refl _
    · rw [put_tasks_self] at hover
      cases hover

/-- **A coroutine that works for the session** leaves it alone exactly if its step spares it. -/
theorem undisturbed_iff (hstep : S.step L (.resume c i draw) = some (S', o))
    (huses : (S.tasks c).uses = some u) :
    Undisturbed S S' o c u ↔ (S.tasks c).Spares L S.server i := by
  obtain ⟨_, ha, -⟩ | ⟨_, _, _, s, t, ha, ht, rfl⟩ | ⟨_, ha, -⟩ := step_cases L hstep
  · cases ha
  · cases ha
    rcases htask : S.tasks c with _ | a | h | e
    · rw [htask] at huses; cases huses
    · rw [htask] at huses ht
      cases a with
      | sendLogin l u' r =>
        cases huses
        obtain ⟨rfl, he⟩ | ⟨e, rfl, he⟩ := acceptStep_sendLogin L ht
        · cases he
          exact finish_undisturbed
        · cases he
          have hharmless : Harmless S.server (logged S.server e) := harmless_raised S.server .none e
          exact iff_of_true (hharmless.undisturbed _) trivial
      | _ => cases huses
    · rw [htask] at huses ht
      cases huses
      constructor
      · intro hu
        by_contra hno
        rcases handlerStep_disturbs L ht hno with ⟨reply, hm⟩ | ⟨cl, hcl, hdiff⟩
        · exact hu.answers _ _ _ hm
        · obtain ⟨cl', hcl', hsame⟩ := hu.link cl hcl
          exact hdiff cl' hcl' hsame
      · exact fun hs => (handlerStep_harmless L ht hs).undisturbed _
    · rw [htask] at huses; cases huses
  · cases ha

/-- A coroutine that works for a session does not log in. -/
theorem not_attached_of_uses (hstep : S.step L (.resume c i draw) = some (S', o))
    (huses : (S.tasks c).uses = some u) : ¬ Attached u o := by
  obtain ⟨_, ha, -⟩ | ⟨_, _, _, s, t, ha, ht, rfl⟩ | ⟨_, ha, -⟩ := step_cases L hstep
  · cases ha
  · cases ha
    have hby := taskStep_obs L ht
    rintro ⟨c', hm | hm⟩
    · have hnone := (hby _ hm).2
      rw [huses] at hnone
      cases hnone
    · have hnone := (hby _ hm).2
      rw [huses] at hnone
      cases hnone
  · cases ha

/-- **Reattach isolation.**  In every run, the steps of the coroutines of other connections than the one
    that logged in to a session last leave the session alone exactly if each step of the old ones of them
    spares it. -/
theorem reattach_isolation_iff
    (hrun : Lts.Run (Lts.Guarded (Lts.shown (Sys.step L)) (Lts.Showing fun _ _ _ => True))
      (.init password keep) S xs) : Lts.Each Isolated xs ↔ Lts.Each (Sparing L) xs := by
  have hpoint : ∀ before x after, xs = before ++ x :: after → (Isolated before x ↔ Sparing L before x) := by
    intro before x after he
    obtain ⟨xs₁, -, -, hrun₁, hstep, -⟩ := Lts.shown_mem hrun (x := x) (by simp [he])
    have hS : x.before.Sound := run_sound L (sound_init password keep) (Lts.shown_run hrun₁)
    constructor
    · intro hiso
      unfold Sparing
      split
      · rename_i c i draw hact
        intro u huses hown
        rw [hact] at hstep
        have hlogin : ¬ Attached u x.obs := not_attached_of_uses L hstep huses
        exact (undisturbed_iff L hstep huses).1 (hiso u c i draw hact hown hlogin)
      · trivial
    · intro hspares u c i draw hact hown hlogin
      rw [hact] at hstep
      by_cases huses : (x.before.tasks c).uses = some u
      · simp only [Sparing, hact] at hspares
        exact (undisturbed_iff L hstep huses).2 (hspares u huses hown)
      · exact undisturbed_of_not_uses L hS hstep huses hlogin
  exact ⟨fun h before x after he => (hpoint before x after he).1 (h before x after he),
    fun h before x after he => (hpoint before x after he).2 (h before x after he)⟩

end


/-! ## Runs on fixed inputs -/

/-- The connection an action is about. -/
def Act.conn : Act → Option ConnId
  | .connect c | .resume c _ _ => some c
  | .admin _ => none

/-- Only connections below `n` were used. -/
def Sys.Below (n : ℕ) (S : Sys K) : Prop := ∀ c, n ≤ c → S.tasks c = .idle

theorem step_below {n : ℕ} {S S' : Sys K} {a : Act} (hS : S.Below n) (ha : ∀ c ∈ a.conn, c < n)
    (h : S.step L a = some (S', o)) : S'.Below n := by
  intro c hc
  obtain ⟨c', rfl, -, -, rfl⟩ | ⟨c', i, draw, s, t, rfl, -, rfl⟩ | ⟨op, rfl, -, rfl⟩ :=
    step_cases L h
  · have hlt : c' < n := ha c' rfl
    rw [put_tasks_ne (Nat.ne_of_gt (Nat.lt_of_lt_of_le hlt hc))]; exact hS c hc
  · have hlt : c' < n := ha c' rfl
    rw [put_tasks_ne (Nat.ne_of_gt (Nat.lt_of_lt_of_le hlt hc))]; exact hS c hc
  · exact hS c hc

/-- The uuid of a login, of a new session or of any. -/
def loginUuid (relogins : Bool) : Obs K → Option PyStr
  | .session _ u => some u
  | .relogin _ u => if relogins then some u else none
  | _ => none

/-- `Exclusive` for actions on connections below `n`, with or without its part about
    RELOGIN. -/
def Sys.ExclusiveBelow (n : ℕ) (relogins : Bool) (S : Sys K) (a : Act) (o : List (Obs K)) : Prop :=
  (∀ c ∈ a.conn, c < n) ∧ (∀ x ∈ o, ∀ u ∈ loginUuid false x, u ∉ S.server.clientDb) ∧
    ∀ x ∈ o, ∀ u ∈ loginUuid relogins x, ∀ c < n, (S.tasks c).uses ≠ some u

instance (n : ℕ) (relogins : Bool) (S : Sys K) (a : Act) (o : List (Obs K)) :
    Decidable (S.ExclusiveBelow n relogins a o) := inferInstanceAs (Decidable (_ ∧ _ ∧ _))

/-- New sessions have fresh uuids. -/
def Sys.FreshDraws (S : Sys K) (_ : Act) (o : List (Obs K)) : Prop :=
  ∀ c u, .session c u ∈ o → S.Fresh u

section
variable {n : ℕ} {S : Sys K} {a : Act} {relogins : Bool}

theorem Sys.Below.not_uses (hS : S.Below n) (h : ∀ c < n, (S.tasks c).uses ≠ some u) (c : ConnId) :
    (S.tasks c).uses ≠ some u := by
  by_cases hc : c < n
  · exact h c hc
  · rw [hS c (Nat.le_of_not_lt hc)]
    intro hu
    cases hu

theorem Sys.ExclusiveBelow.fresh (hS : S.Below n) (h : S.ExclusiveBelow n relogins a o) :
    S.FreshDraws a o := fun _ u hm =>
  ⟨h.2.1 _ hm u rfl, hS.not_uses (h.2.2 _ hm u rfl)⟩

theorem Sys.ExclusiveBelow.exclusive (hS : S.Below n) (h : S.ExclusiveBelow n true a o) :
    S.Exclusive a o :=
  ⟨h.fresh hS, fun _ u hm => hS.not_uses (h.2.2 _ hm u rfl)⟩

end

/-- The steps of a login of the connection with the given response. -/
def loginActs (c : ConnId) (response : Bytes) : List Act :=
  .connect c :: [.recv stubClientPublic, .sent, .recv (stubPacket c 0 [0]), .sent,
    .recv (stubPacket c 1 response), .sent, .go, .go].map fun i => .resume c i sampleDraw

/-- RELOGIN to the sample session. -/
def reloginResponse : Bytes := 0xC4 :: List.replicate 36 97

/-- Connection 0 logs in; 1 logs in to its session while 0 waits for a packet. -/
def interferenceSample : List Act := loginActs 0 [0xC5] ++ loginActs 1 reloginResponse

/-- Then connection 0 is closed, and 1 asks for its uuid. -/
def reattachSample : List Act := interferenceSample ++
  [.resume 0 (.recv []) sampleDraw, .resume 1 (.recv (stubPacket 1 2 [0x87])) sampleDraw]

/-- The old handler waits for a chunk when the session is logged in to again, gets the end of the stream
    and ends by an exception. -/
theorem reattach_isolation_sample : ∃ (S : Sys ℕ) (xs : List (Lts.Shown (Sys ℕ) Act (Obs ℕ))),
    Lts.Run (Lts.Guarded (Lts.shown (Sys.step stub)) (Lts.Showing fun _ _ _ => True)) (.init [] false) S xs ∧
      (∃ x ∈ xs, .relogin 1 sampleUuid ∈ x.obs ∧
        (x.before.tasks 0).handler?.map Handler.pc = some .recv) ∧
      S.tasks 0 = .over (some .typeError) ∧ sampleUuid ∈ S.server.clientDb ∧ Lts.Each Isolated xs := by
  have hexec : ((Lts.exec (Lts.shown (Sys.step stub)) reattachSample (.init [] false)).any fun x =>
      (x.2.any fun y => .relogin 1 sampleUuid ∈ y.obs &&
        (y.before.tasks 0).handler?.map Handler.pc = some .recv) &&
      x.1.tasks 0 = .over (some .typeError) && sampleUuid ∈ x.1.server.clientDb &&
      Lts.Each (Sparing stub) x.2) = true := by decide +kernel
  obtain ⟨⟨S, xs⟩, hS, hp⟩ := Option.any_eq_true _ _ |>.1 hexec
  simp only [Bool.and_eq_true, decide_eq_true_eq, List.any_eq_true] at hp
  obtain ⟨⟨⟨hx, hover⟩, hmem⟩, hspares⟩ := hp
  have halong : Lts.Along (Lts.shown (Sys.step stub)) (Lts.Showing fun _ _ _ => True) reattachSample
      (.init [] false) := Lts.along_of fun _ _ _ _ _ => trivial
  have hrun := Lts.exec_run hS halong
  exact ⟨S, xs, hrun, hx, hover, hmem, (reattach_isolation_iff stub hrun).2 hspares⟩

/-- **The old handler interferes.**  After connection 1 logged in to the session, the
    handler of connection 0 gets a packet.  It changes `rx_nonce` of the session, and when
    it ends it removes the session, while the handler of connection 1 runs. -/
theorem reattach_interference : ∃ S os S₁ o₁ S₂ o₂,
    Lts.Run (Lts.Guarded (Sys.step stub) Sys.FreshDraws) (Sys.init [] false) S os ∧
      owner sampleUuid os = some 1 ∧
      S.step stub (.resume 0 (.recv (stubPacket 0 2 [0x87])) sampleDraw) = some (S₁, o₁) ∧
      (S₁.server.client sampleUuid).map Client.rxNonce ≠
        (S.server.client sampleUuid).map Client.rxNonce ∧
      S₁.step stub (.resume 0 .sent sampleDraw) = some (S₂, o₂) ∧
      (S₂.tasks 1).uses = some sampleUuid ∧ sampleUuid ∉ S₂.server.clientDb := by
  have hexec : ((Lts.exec (Sys.step stub) interferenceSample (Sys.init [] false)).any fun x =>
      owner sampleUuid x.2 = some 1 &&
        (x.1.step stub (.resume 0 (.recv (stubPacket 0 2 [0x87])) sampleDraw)).any fun y =>
          (y.1.server.client sampleUuid).map Client.rxNonce ≠
              (x.1.server.client sampleUuid).map Client.rxNonce &&
            (y.1.step stub (.resume 0 .sent sampleDraw)).any fun z =>
              (z.1.tasks 1).uses = some sampleUuid && sampleUuid ∉ z.1.server.clientDb) = true := by
    decide +kernel
  have halong : Lts.Along (Sys.step stub) (Sys.ExclusiveBelow 2 false) interferenceSample
      (Sys.init [] false) := by decide +kernel
  obtain ⟨⟨S, os⟩, hS, hp⟩ := Option.any_eq_true _ _ |>.1 hexec
  simp only [Bool.and_eq_true, decide_eq_true_eq] at hp
  obtain ⟨⟨S₁, o₁⟩, hS₁, hq⟩ := Option.any_eq_true _ _ |>.1 hp.2
  simp only [Bool.and_eq_true, decide_eq_true_eq] at hq
  obtain ⟨⟨S₂, o₂⟩, hS₂, hr⟩ := Option.any_eq_true _ _ |>.1 hq.2
  simp only [Bool.and_eq_true, decide_eq_true_eq] at hr
  have hrun := Lts.exec_run hS (halong.imp (I := Sys.Below 2) (fun hS h => step_below stub hS h.1)
    (fun hS h => h.fresh hS) fun _ _ => rfl)
  exact ⟨S, os, S₁, o₁, S₂, o₂, hrun, hp.1, hS₁, hq.1, hS₂, hr.1, hr.2⟩

end Pipebomb
