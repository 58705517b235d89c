/-
  What holds in every reachable state of the server.

  * `Handler.Wf`: a handler that waits for a lock or an item was sent there by the command
    it processes; what it waits for is told by its payload (`Handler.Wf.waits`).
  * `Sys.Sound` puts this together with well-formed references; `step_sound` and
    `run_sound` keep it, over any actions.
-/
import Pipebomb.Moves
import Pipebomb.Trace

namespace Pipebomb

open ByteString

variable {K : Type} (L : Libs K)

/-- The coroutine waits for a lock or an item. -/
def Await.Queues : Await → Prop
  | .dbLock _ | .inboxGet _ | .outboxPut _ _ | .outboxGet _ _ => True
  | _ => False

/-- Where a handler waits for a lock or an item, the command it processes sent it there. -/
def Handler.Wf (s : Server K) (h : Handler) : Prop :=
  h.pc.Queues → ∃ s₀ draw, s₀.WfRefs ∧ (dispatch s₀ h.uuid h.data draw).2 = .wait h.pc ∧
    s₀.fresh ≤ s.fresh ∧ ∀ r < s₀.fresh, (s.objs r).uuid = ((s₀ : Server K).objs r).uuid

/-- What holds in every reachable state: references are well-formed, and no handler holds a
    lock while it sends an error about a header. -/
structure Sys.Sound (S : Sys K) : Prop where
  refs : S.server.WfRefs
  tasks : ∀ c, (S.tasks c).Wf S.server
  tidy : ∀ c, (S.tasks c).Tidy
  handlers : ∀ c h, S.tasks c = .handler h → h.Wf S.server

section
variable {s : Server K} {c : ConnId} {h h' : Handler} {i : Input} {draw : Uuid4}
  {out : Outcome K (Accepting K)}

/-- **What a handler waits for** is told by the command it processes. -/
theorem Handler.Wf.waits (hh : h.Wf s) (hq : h.pc.Queues) :
    ∃ type_ value, h.data = type_ :: value ∧
      ((∃ op, command type_ = .db op ∧ h.pc = .dbLock op) ∨
      (∃ r, command type_ = .getInbox ∧ h.pc = .inboxGet r) ∨
      (∃ r p, command type_ = .putOutbox ∧ h.pc = .outboxPut r p) ∨
      ∃ r, command type_ = .getOutbox ∧ h.pc = .outboxGet r value) := by
  obtain ⟨s₀, draw, -, hd, -, -⟩ := hh hq
  obtain ⟨type_, value, hdata, -, hcases⟩ := dispatch_wait hd
  refine ⟨type_, value, hdata, ?_⟩
  rcases hcases with ⟨op, hc, he⟩ | ⟨r, hc, -, he⟩ | ⟨r, p, hc, -, he⟩ | ⟨r, hc, -, he⟩
  · exact .inl ⟨op, hc, he⟩
  · exact .inr (.inl ⟨r, hc, he⟩)
  · exact .inr (.inr (.inl ⟨r, p, hc, he⟩))
  · exact .inr (.inr (.inr ⟨r, hc, he⟩))

/-- A handler that waits for `db_lock` processes a command about the database. -/
theorem Handler.Wf.dbLock (hh : h.Wf s) {op : DbOp} (hpc : h.pc = .dbLock op) :
    ∃ type_ value, h.data = type_ :: value ∧ command type_ = .db op := by
  obtain ⟨s₀, draw, -, hd, -, -⟩ := hh (by rw [hpc]; trivial)
  rw [hpc] at hd
  obtain ⟨type_, value, hdata, -, ⟨_, hc, he⟩ | ⟨_, -, -, he⟩ | ⟨_, _, -, -, he⟩ | ⟨_, -, -, he⟩⟩ :=
    dispatch_wait hd
  · cases he
    exact ⟨type_, value, hdata, hc⟩
  · cases he
  · cases he
  · cases he

/-- A handler that waits for a request waits for one of its session. -/
theorem Handler.Wf.inboxGet (hh : h.Wf s) {r : Ref} (hpc : h.pc = .inboxGet r) :
    (∃ type_ value, h.data = type_ :: value ∧ command type_ = .getInbox) ∧ r < s.fresh ∧
      (s.objs r).uuid = h.uuid := by
  obtain ⟨s₀, draw, hw, hd, hfresh, hid⟩ := hh (by rw [hpc]; trivial)
  rw [hpc] at hd
  obtain ⟨type_, value, hdata, -, ⟨_, -, he⟩ | ⟨_, hc, hu, he⟩ | ⟨_, _, -, -, he⟩ | ⟨_, -, -, he⟩⟩ :=
    dispatch_wait hd
  · cases he
  · cases he
    obtain ⟨hlt, hu⟩ := hw _ _ hu
    exact ⟨⟨type_, value, hdata, hc⟩, Nat.lt_of_lt_of_le hlt hfresh, (hid r hlt).trans hu⟩
  · cases he
  · cases he

/-- A handler that waits for a lock to take a response waits for the one of its session. -/
theorem Handler.Wf.outboxGet (hh : h.Wf s) {r : Ref} {id : Bytes} (hpc : h.pc = .outboxGet r id) :
    (∃ type_, h.data = type_ :: id ∧ command type_ = .getOutbox) ∧ r < s.fresh ∧
      (s.objs r).uuid = h.uuid := by
  obtain ⟨s₀, draw, hw, hd, hfresh, hid⟩ := hh (by rw [hpc]; trivial)
  rw [hpc] at hd
  obtain ⟨type_, value, hdata, -, ⟨_, -, he⟩ | ⟨_, -, -, he⟩ | ⟨_, _, -, -, he⟩ | ⟨_, hc, hu, he⟩⟩ :=
    dispatch_wait hd
  · cases he
  · cases he
  · cases he
  · cases he
    obtain ⟨hlt, hu⟩ := hw _ _ hu
    exact ⟨⟨type_, hdata, hc⟩, Nat.lt_of_lt_of_le hlt hfresh, (hid r hlt).trans hu⟩

/-- A handler that waits for a lock to write a response has it from its payload. -/
theorem Handler.Wf.outboxPut (hh : h.Wf s) {r : Ref} {p : Response} (hpc : h.pc = .outboxPut r p) :
    (∃ type_ value target, h.data = type_ :: value ∧ command type_ = .putOutbox ∧
      splitBody 4 value = .ok [target, p.response, p.key, p.response_uuid] ∧
        (s.objs r).uuid = latin1Decode target) ∧ r < s.fresh := by
  obtain ⟨s₀, draw, hw, hd, hfresh, hid⟩ := hh (by rw [hpc]; trivial)
  rw [hpc] at hd
  obtain ⟨type_, value, hdata, -, ⟨_, -, he⟩ | ⟨_, -, -, he⟩ | ⟨_, _, hc, hput, -⟩ | ⟨_, -, -, he⟩⟩ :=
    dispatch_wait hd
  · cases he
  · cases he
  · simp only [putOutbox] at hput
    split at hput
    · rename_i target response key requestUuid hbody
      rcases hu : s₀.clientDb.get? (latin1Decode target) with _ | r'
      · rw [hu] at hput; cases hput
      · rw [hu] at hput
        cases hput
        obtain ⟨hlt, hu⟩ := hw _ _ hu
        exact ⟨⟨type_, value, target, hdata, hc, hbody, (hid r hlt).trans hu⟩,
          Nat.lt_of_lt_of_le hlt hfresh⟩
    · cases hput
    · cases hput
  · cases he

theorem Handler.Wf.of_not (hpc : ¬ h.pc.Queues) : h.Wf s := fun hw => absurd hw hpc

theorem Sends.handlerWf {reply : Except PyErr Bytes} {held : Held} {after : After} {s' : Server K}
    (hs : Sends L s c h reply held after out) (ht : out.2.1 = .handler h') : h'.Wf s' := by
  cases hs with
  | fail => cases ht
  | start => cases ht; exact .of_not id

/-- A step of a handler leaves it where its command sent it. -/
theorem Move.handlerWf (hw : s.WfRefs) (hm : Move L s c h i draw out)
    (ht : out.2.1 = .handler h') : h'.Wf out.1 := by
  cases hm with
  | still _ hidle _ =>
    simp only at ht
    subst ht
    refine .of_not fun hwaits => ?_
    obtain ⟨-, hpc | hpc | hpc⟩ := hidle
    · rw [hpc] at hwaits; exact hwaits
    · rw [hpc] at hwaits; exact hwaits
    · rw [hpc] at hwaits; exact hwaits
  | refuse _ _ _ _ hs => exact hs.handlerWf L ht
  | payload hr hu hid hv hin hp =>
    cases hp with
    | reply _ hs => exact hs.handlerWf L ht
    | raise => cases ht
    | bye => cases ht
    | wait hn =>
      rename_i r h₁ frame rem os pc
      cases ht
      obtain ⟨-, -, -, hs, -⟩ := dispatch_wait hn
      intro _
      refine ⟨s.modify r Client.received, draw, hw.modify fun _ => rfl, ?_, ?_, ?_⟩
      · simp only [hid]
        exact hn
      · simp only [seen_server, hs]
        exact Nat.le_refl _
      · intro r' _
        rw [seen_server, hs]
  | db _ _ _ hs => exact hs.handlerWf L ht
  | inboxGet _ _ _ hs => exact hs.handlerWf L ht
  | outboxPut _ _ _ hs => exact hs.handlerWf L ht
  | outboxNone _ _ _ _ hs => exact hs.handlerWf L ht
  | outboxGet _ _ _ _ hs => exact hs.handlerWf L ht
  | sent => cases ht; exact .of_not id
  | close => cases ht
  | die => cases ht

theorem Joins.handlerWf {a : Accepting K} (hj : Joins s c draw a out)
    (ht : out.2.1 = .handler h') : h'.Wf out.1 := by
  have hout : ∀ {t : Task (Accepting K)}, t.Outside → t ≠ .handler h' := by
    rintro t hout rfl
    exact hout
  cases hj with
  | still hto _ => exact absurd ht (hout hto)
  | login hto _ _ =>
    rcases hto with rfl | hto
    · cases ht
    · exact absurd ht (hout hto)
  | attach _ hto _ _ =>
    rcases hto with rfl | hto
    · cases ht
    · exact absurd ht (hout hto)
  | unknown => cases ht; exact .of_not id
  | finish => cases ht; exact .of_not id

theorem Frame.handlerWf {P : PyStr → Prop} {s' : Server K} (hf : Frame P s s') (hh : h.Wf s) :
    h.Wf s' := by
  intro hpc
  obtain ⟨s₀, draw, hw, hd, hfresh, hid⟩ := hh hpc
  exact ⟨s₀, draw, hw, hd, Nat.le_trans hfresh hf.fresh, fun r hr =>
    (hf.uuid r (Nat.lt_of_lt_of_le hr hfresh)).trans (hid r hr)⟩

end

section
variable {S S' : Sys K} {a : Act} {o : List (Obs K)}

theorem sound_init (password : Bytes) (keep : Bool) : (Sys.init password keep : Sys K).Sound :=
  ⟨Server.wfRefs_init _ _, fun _ => trivial, fun _ => trivial, fun _ _ h => (by cases h)⟩

/-- A step touches no uuid of an object. -/
theorem step_frame (h : S.Sound) (hstep : S.step L a = some (S', o)) :
    Frame (fun _ => True) S.server S'.server := by
  rcases step_cases L hstep with ⟨c, rfl, -, rfl, rfl⟩ | ⟨c, i, draw, s, t, rfl, ht, rfl⟩ |
    ⟨op, rfl, rfl, rfl⟩
  · exact (Quiet.refl _).frame
  · exact taskStep_frame L h.refs (h.tasks c) ht (fun _ _ => trivial) fun _ _ => trivial
  · exact (admin_frame S.server op).mono fun _ _ => trivial

theorem step_handlers (h : S.Sound) (hstep : S.step L a = some (S', o)) :
    ∀ c h', S'.tasks c = .handler h' → h'.Wf S'.server := by
  have hframe := step_frame L h hstep
  -- the coroutines that did not go on
  have hput : ∀ (c : ConnId) (s : Server K) (t : Task (Accepting K)),
      Frame (fun _ => True) S.server s → (∀ h', t = .handler h' → h'.Wf s) →
      ∀ c' h', (S.put c s t).tasks c' = .handler h' → h'.Wf s := by
    intro c s t hf hh c' h' hc'
    by_cases hc : c' = c
    · subst hc; rw [put_tasks_self] at hc'; exact hh h' hc'
    · rw [put_tasks_ne hc] at hc'; exact hf.handlerWf (h.handlers c' h' hc')
  cases (step_step L h.tidy hstep).1 with
  | connect => exact hput _ _ _ hframe fun h' ht => (by cases ht)
  | join htask hj => exact hput _ _ _ hframe fun h' ht => hj.handlerWf ht
  | move htask hm => exact hput _ _ _ hframe fun h' ht => hm.handlerWf L h.refs ht
  | admin => exact fun c h' hc => hframe.handlerWf (h.handlers c h' hc)

theorem step_sound (h : S.Sound) (hstep : S.step L a = some (S', o)) : S'.Sound := by
  have hframe := step_frame L h hstep
  refine ⟨hframe.wfRefs h.refs, fun c' => ?_, (step_step L h.tidy hstep).2, step_handlers L h hstep⟩
  rcases step_cases L hstep with ⟨c, rfl, -, rfl, rfl⟩ | ⟨c, i, draw, s, t, rfl, ht, rfl⟩ |
    ⟨op, rfl, rfl, rfl⟩
  · by_cases hc : c' = c
    · subst hc; rw [put_tasks_self]; trivial
    · rw [put_tasks_ne hc]; exact h.tasks c'
  · by_cases hc : c' = c
    · subst hc; rw [put_tasks_self]; exact (taskStep_enters L h.refs ht).1
    · rw [put_tasks_ne hc]; exact hframe.taskWf (h.tasks c')
  · exact hframe.taskWf (h.tasks c')

/-- **Every reachable state is sound.** -/
theorem run_sound {ok : Sys K → Act → List (Obs K) → Prop} {os : List (Obs K)} (h : S.Sound)
    (hrun : Lts.Run (Lts.Guarded (Sys.step L) ok) S S' os) : S'.Sound :=
  hrun.inv (I := fun S _ => S.Sound) h fun _ h ⟨_, hstep, _⟩ => step_sound L h hstep

end

end Pipebomb
