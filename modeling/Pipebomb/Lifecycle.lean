/-
  `start` and `stop` of `Server`, and the loops of `accept_clients`.

  `start` makes `client_accepters` tasks that run `accept_clients`.  Each serves one
  connection at a time, by the pass through its loop that `Accepting` models; an exception
  ends the pass, `CancelledError` the task.  `stop` empties the dictionaries and cancels all
  tasks: the await of a cancelled task raises when the task goes on.

  * `Host`: the server with the tasks of `start`; `Host.step` is one step of it.
  * `accepts_iff`: a connection gets in exactly if fewer than `client_accepters` others are
    in the handshake.
  * `stop_final`: nothing is left and nothing is sent after `stop`, and when the tasks are
    through no lock is taken.
-/
import Pipebomb.OutboxLock

namespace Pipebomb

open ByteString

variable {K : Type} (L : Libs K)

/-! ## The tasks -/

/-- Where a task stands that runs `accept_clients`. -/
inductive Loop where
  /-- `sock_accept` -/
  | waiting
  /-- the pass of a connection -/
  | serving (c : ConnId)
  | ended
  deriving DecidableEq, Repr

/-- The server with the tasks of `start`. -/
structure Host (K : Type) where
  sys : Sys K
  loops : ℕ → Loop
  stopped : Bool

/-- What happens next. -/
inductive HostAct where
  /-- `sock_accept` of the loop gives the connection -/
  | accept (k : ℕ) (c : ConnId)
  /-- `sock_accept` of the loop raises -/
  | broken (k : ℕ) (e : PyErr)
  /-- the coroutine of the connection is resumed -/
  | resume (c : ConnId) (i : Input) (draw : Uuid4)
  /-- `stop` is called -/
  | stop

/-- `stop`, apart from the socket and the tasks. -/
def Server.stop (s : Server K) : Server K :=
  { s with clientDb := .empty, addressBook := .empty, db := .empty }

/-- A cancelled task is resumed with `CancelledError`, and only a cancelled one. -/
def Host.Allows (X : Host K) (i : Input) : Prop := X.stopped = true ↔ i = .raise .cancelled

instance (X : Host K) (i : Input) : Decidable (X.Allows i) := inferInstanceAs (Decidable (_ ↔ _))

/-- The coroutine is a pass of `accept_clients`. -/
def Task.isAccept {A : Type} : Task A → Bool
  | .accept _ => true
  | _ => false

/-- `except Exception` of `accept_clients`: the loop goes on, unless the task was cancelled. -/
def Loop.after (i : Input) : Loop := if i = .raise .cancelled then .ended else .waiting

/-- The pass of the connection is over for the loop that served it. -/
def Loop.leave (c : ConnId) (i : Input) (l : Loop) : Loop := if l = .serving c then .after i else l

/-- **One step.** -/
def Host.step (X : Host K) : HostAct → Option (Host K × List (Obs K))
  | .accept k c =>
    if X.stopped ∨ X.loops k ≠ .waiting then none
    else match X.sys.step L (.connect c) with
      | none => none
      | some (S, o) => some ({ X with sys := S, loops := Function.update X.loops k (.serving c) }, o)
  | .broken k e =>
    if ¬ X.Allows (.raise e) ∨ X.loops k ≠ .waiting then none
    else some ({ X with loops := Function.update X.loops k (.after (.raise e)) }, [])
  | .resume c i draw =>
    if ¬ X.Allows i then none
    else match X.sys.step L (.resume c i draw) with
      | none => none
      | some (S, o) => some ({ X with
          sys := S, loops := if (S.tasks c).isAccept then X.loops else fun k => (X.loops k).leave c i }, o)
  | .stop => some ({ X with sys := ⟨X.sys.server.stop, X.sys.tasks⟩, stopped := true }, [])

/-- A server on which `start` was called. -/
def Host.start (n : ℕ) (password : Bytes) (keepDeadSessions : Bool) : Host K :=
  ⟨.init password keepDeadSessions, fun k => if k < n then .waiting else .ended, false⟩

section
variable {X X' : Host K} {a : HostAct} {o : List (Obs K)}

/-- **What a step can be.** -/
theorem Host.step_cases (h : X.step L a = some (X', o)) :
    (∃ k c S, a = .accept k c ∧ X.stopped = false ∧ X.loops k = .waiting ∧
      X.sys.step L (.connect c) = some (S, o) ∧
      X' = { X with sys := S, loops := Function.update X.loops k (.serving c) }) ∨
    (∃ k e, a = .broken k e ∧ X.Allows (.raise e) ∧ X.loops k = .waiting ∧ o = [] ∧
      X' = { X with loops := Function.update X.loops k (.after (.raise e)) }) ∨
    (∃ c i draw S, a = .resume c i draw ∧ X.Allows i ∧ X.sys.step L (.resume c i draw) = some (S, o) ∧
      X' = { X with
        sys := S, loops := if (S.tasks c).isAccept then X.loops else fun k => (X.loops k).leave c i }) ∨
    a = .stop ∧ o = [] ∧
      X' = { X with sys := ⟨X.sys.server.stop, X.sys.tasks⟩, stopped := true } := by
  cases a with
  | accept k c =>
    simp only [Host.step] at h
    split_ifs at h with hno
    rw [not_or, not_not] at hno
    rcases hs : X.sys.step L (.connect c) with _ | ⟨S, os⟩
    · rw [hs] at h; cases h
    · rw [hs] at h
      cases h
      exact .inl ⟨k, c, S, rfl, by simpa using hno.1, hno.2, hs, rfl⟩
  | broken k e =>
    simp only [Host.step] at h
    split_ifs at h with hno
    rw [not_or, not_not, not_not] at hno
    cases h
    exact .inr (.inl ⟨k, e, rfl, hno.1, hno.2, rfl, rfl⟩)
  | resume c i draw =>
    simp only [Host.step] at h
    split_ifs at h with hno
    rcases hs : X.sys.step L (.resume c i draw) with _ | ⟨S, os⟩
    · rw [hs] at h; cases h
    · rw [hs] at h
      cases h
      exact .inr (.inr (.inl ⟨c, i, draw, S, rfl, hno, hs, rfl⟩))
  | stop =>
    cases h
    exact .inr (.inr (.inr ⟨rfl, rfl, rfl⟩))

end

/-! ## Connections are let in -/

/-- The loops serve the connections in the handshake, one each. -/
structure Host.Attending (n : ℕ) (X : Host K) : Prop where
  ended : ∀ k, n ≤ k → X.loops k = .ended
  alive : X.stopped = false → ∀ k < n, X.loops k ≠ .ended
  serving : ∀ k c, X.loops k = .serving c → (X.sys.tasks c).isAccept = true
  served : ∀ c, (X.sys.tasks c).isAccept = true → ∃ k, X.loops k = .serving c
  unique : ∀ k k' c, X.loops k = .serving c → X.loops k' = .serving c → k = k'

section
variable {X X' : Host K} {a : HostAct} {o : List (Obs K)} {n : ℕ} {S : Sys K} {c c' : ConnId} {k : ℕ}

theorem Loop.leave_eq_serving {l : Loop} {i : Input} :
    l.leave c i = .serving c' ↔ l = .serving c' ∧ c' ≠ c := by
  unfold Loop.leave Loop.after
  split_ifs with hl hi
  · exact iff_of_false (by simp) fun h => h.2 (Loop.serving.inj (h.1.symm.trans hl))
  · exact iff_of_false (by simp) fun h => h.2 (Loop.serving.inj (h.1.symm.trans hl))
  · refine ⟨fun h => ⟨h, ?_⟩, And.left⟩
    rintro rfl
    exact hl h

/-- A coroutine that serves a session is never in the handshake again. -/
theorem taskStep_isAccept {s : Server K} {t : Task (Accepting K)} {i : Input} {draw : Uuid4}
    {out : Outcome K (Accepting K)} (ho : taskStep L s c t i draw = some out)
    (hout : out.2.1.isAccept = true) : t.isAccept = true := by
  cases t with
  | accept a => rfl
  | handler h =>
    have hstays := handlerStep_stays L ho
    cases ht : out.2.1 with
    | accept a => rw [ht] at hstays; exact hstays.elim
    | _ => rw [ht] at hout; cases hout
  | _ => cases ho

theorem Host.Attending.start (n : ℕ) (password : Bytes) (keep : Bool) :
    (Host.start n password keep : Host K).Attending n := by
  refine ⟨fun k hk => if_neg (Nat.not_lt.2 hk), fun _ k hk => ?_, fun k c hc => ?_,
    fun c hc => (by cases hc), fun k k' c hc => ?_⟩
  · simp [Host.start, hk]
  · simp only [Host.start] at hc; split_ifs at hc
  · simp only [Host.start] at hc; split_ifs at hc

/-- A loop gets a connection. -/
theorem Host.Attending.accept (h : X.Attending n) (hidle : X.sys.tasks c = .idle)
    (hwaiting : X.loops k = .waiting) (s : Server K) (a : Accepting K) :
    Host.Attending n { X with
      sys := X.sys.put c s (.accept a), loops := Function.update X.loops k (.serving c) } := by
  have hnone : ∀ k', X.loops k' ≠ .serving c := by
    intro k' hk'
    have := h.serving k' c hk'
    rw [hidle] at this
    cases this
  constructor
  · intro k' hk'
    have hne : k' ≠ k := by
      rintro rfl
      rw [h.ended k' hk'] at hwaiting
      cases hwaiting
    simpa only [Function.update_of_ne hne] using h.ended k' hk'
  · intro hrun k' hk'
    by_cases hne : k' = k
    · subst hne; simp
    · simpa only [Function.update_of_ne hne] using h.alive hrun k' hk'
  · intro k' c' hk'
    by_cases hne : k' = k
    · subst hne
      simp only [Function.update_self, Loop.serving.injEq] at hk'
      subst hk'
      simp [Task.isAccept]
    · simp only [Function.update_of_ne hne] at hk'
      have hc : c' ≠ c := fun he => hnone k' (he ▸ hk')
      simpa only [put_tasks_ne hc] using h.serving k' c' hk'
  · intro c' hc'
    by_cases hc : c' = c
    · exact ⟨k, by simp [hc]⟩
    · simp only [put_tasks_ne hc] at hc'
      obtain ⟨k', hk'⟩ := h.served c' hc'
      have hne : k' ≠ k := by
        rintro rfl
        rw [hk'] at hwaiting
        cases hwaiting
      exact ⟨k', by simpa only [Function.update_of_ne hne] using hk'⟩
  · intro k₁ k₂ c' h₁ h₂
    have hself : ∀ k', Function.update X.loops k (.serving c) k' = .serving c → k' = k := by
      intro k' hk'
      by_contra hne
      exact hnone k' (by simpa only [Function.update_of_ne hne] using hk')
    by_cases hc : c' = c
    · subst hc
      exact (hself k₁ h₁).trans (hself k₂ h₂).symm
    · have hold : ∀ k', Function.update X.loops k (.serving c) k' = .serving c' →
          X.loops k' = .serving c' := by
        intro k' hk'
        by_cases hne : k' = k
        · subst hne
          rw [Function.update_self, Loop.serving.injEq] at hk'
          exact absurd hk'.symm hc
        · rwa [Function.update_of_ne hne] at hk'
      exact h.unique k₁ k₂ c' (hold k₁ h₁) (hold k₂ h₂)

/-- A loop loses the connection it did not have yet. -/
theorem Host.Attending.broken (h : X.Attending n) (hwaiting : X.loops k = .waiting) {i : Input}
    (hallows : X.Allows i) :
    Host.Attending n { X with loops := Function.update X.loops k (.after i) } := by
  have hold : ∀ k' c', Function.update X.loops k (Loop.after i) k' = .serving c' →
      X.loops k' = .serving c' := by
    intro k' c' hk'
    by_cases hne : k' = k
    · subst hne
      rw [Function.update_self, Loop.after] at hk'
      split_ifs at hk'
    · rwa [Function.update_of_ne hne] at hk'
  constructor
  · intro k' hk'
    have hne : k' ≠ k := by
      rintro rfl
      rw [h.ended k' hk'] at hwaiting
      cases hwaiting
    simpa only [Function.update_of_ne hne] using h.ended k' hk'
  · intro hrun k' hk'
    by_cases hne : k' = k
    · subst hne
      have hi : i ≠ .raise .cancelled := fun hi => by simp [hallows.2 hi] at hrun
      simp [Loop.after, hi]
    · simpa only [Function.update_of_ne hne] using h.alive hrun k' hk'
  · exact fun k' c' hk' => h.serving k' c' (hold k' c' hk')
  · intro c' hc'
    obtain ⟨k', hk'⟩ := h.served c' hc'
    have hne : k' ≠ k := by
      rintro rfl
      rw [hk'] at hwaiting
      cases hwaiting
    exact ⟨k', by simpa only [Function.update_of_ne hne] using hk'⟩
  · exact fun k₁ k₂ c' h₁ h₂ => h.unique k₁ k₂ c' (hold k₁ c' h₁) (hold k₂ c' h₂)

/-- A coroutine goes on. -/
theorem Host.Attending.resume (h : X.Attending n) {i : Input} {draw : Uuid4} (hallows : X.Allows i)
    (hstep : X.sys.step L (.resume c i draw) = some (S, o)) :
    Host.Attending n { X with
      sys := S, loops := if (S.tasks c).isAccept then X.loops else fun k => (X.loops k).leave c i } := by
  obtain ⟨_, ha, -⟩ | ⟨_, _, _, s, t, ha, htask, rfl⟩ | ⟨_, ha, -⟩ := Pipebomb.step_cases L hstep
  · cases ha
  · cases ha
    by_cases ht : t.isAccept = true
    · -- still in the handshake
      rw [put_tasks_self, if_pos ht]
      have htasks : ∀ c', ((X.sys.put c s t).tasks c').isAccept = true ↔ (X.sys.tasks c').isAccept = true := by
        intro c'
        by_cases hc : c' = c
        · subst hc
          rw [put_tasks_self]
          exact iff_of_true ht (taskStep_isAccept L htask ht)
        · rw [put_tasks_ne hc]
      exact ⟨h.ended, h.alive, fun k c' hk => (htasks c').2 (h.serving k c' hk),
        fun c' hc' => h.served c' ((htasks c').1 hc'), h.unique⟩
    · rw [put_tasks_self, if_neg ht]
      constructor
      · intro k hk
        have hend := h.ended k hk
        simp only [hend, Loop.leave]
        rfl
      · intro hrun k hk
        have hi : i ≠ .raise .cancelled := fun hi => by simp [hallows.2 hi] at hrun
        simp only [Loop.leave, Loop.after, if_neg hi]
        split_ifs
        · simp
        · exact h.alive hrun k hk
      · intro k c' hk
        obtain ⟨hk, hc⟩ := Loop.leave_eq_serving.1 hk
        simpa only [put_tasks_ne hc] using h.serving k c' hk
      · intro c' hc'
        have hc : c' ≠ c := by
          rintro rfl
          rw [put_tasks_self] at hc'
          exact ht hc'
        rw [put_tasks_ne hc] at hc'
        obtain ⟨k, hk⟩ := h.served c' hc'
        exact ⟨k, Loop.leave_eq_serving.2 ⟨hk, hc⟩⟩
      · exact fun k₁ k₂ c' h₁ h₂ =>
          h.unique k₁ k₂ c' (Loop.leave_eq_serving.1 h₁).1 (Loop.leave_eq_serving.1 h₂).1
  · cases ha

/-- Every step keeps it. -/
theorem hostStep_attending (h : X.Attending n) (hstep : X.step L a = some (X', o)) : X'.Attending n := by
  obtain ⟨k, c, S, -, -, hwaiting, hs, rfl⟩ | ⟨k, e, -, hallows, hwaiting, -, rfl⟩ |
    ⟨c, i, draw, S, -, hallows, hs, rfl⟩ | ⟨-, -, rfl⟩ := Host.step_cases L hstep
  · obtain ⟨_, ha, hidle, -, rfl⟩ | ⟨_, _, _, _, _, ha, -⟩ | ⟨_, ha, -⟩ := step_cases L hs
    · cases ha
      exact h.accept hidle hwaiting _ _
    · cases ha
    · cases ha
  · exact h.broken hwaiting hallows
  · exact h.resume L hallows hs
  · exact ⟨h.ended, fun hrun => (by cases hrun), h.serving, h.served, h.unique⟩

/-- As many connections are in the handshake as loops serve one. -/
theorem Host.Attending.ncard (h : X.Attending n) :
    {c | (X.sys.tasks c).isAccept = true}.ncard = {k | ∃ c, X.loops k = .serving c}.ncard := by
  refine (Set.ncard_congr (fun k (hk : ∃ c, X.loops k = .serving c) => hk.choose) ?_ ?_ ?_).symm
  · exact fun k hk => h.serving k _ hk.choose_spec
  · intro k k' hk hk' he
    exact h.unique k k' _ hk.choose_spec (he ▸ hk'.choose_spec)
  · intro c hc
    obtain ⟨k, hk⟩ := h.served c hc
    have hex : ∃ c, X.loops k = .serving c := ⟨c, hk⟩
    exact ⟨k, hex, Loop.serving.inj (hex.choose_spec.symm.trans hk)⟩

/-- A loop waits for a connection exactly if fewer are in the handshake than there are loops. -/
theorem Host.Attending.waiting_iff (h : X.Attending n) (hrun : X.stopped = false) :
    (∃ k, X.loops k = .waiting) ↔ {c | (X.sys.tasks c).isAccept = true}.ncard < n := by
  have hsub : {k | ∃ c, X.loops k = .serving c} ⊆ (Finset.range n : Set ℕ) := by
    rintro k ⟨c, hk⟩
    by_contra hout
    rw [Finset.coe_range, Set.mem_Iio, not_lt] at hout
    rw [h.ended k hout] at hk
    cases hk
  have hcard : (Finset.range n : Set ℕ).ncard = n := by rw [Set.ncard_coe_finset, Finset.card_range]
  rw [h.ncard]
  constructor
  · rintro ⟨k, hk⟩
    have hmem : k ∈ (Finset.range n : Set ℕ) := by
      by_contra hout
      rw [Finset.coe_range, Set.mem_Iio, not_lt] at hout
      rw [h.ended k hout] at hk
      cases hk
    have hnot : k ∉ {k | ∃ c, X.loops k = .serving c} := by
      rintro ⟨c, hc⟩
      rw [hk] at hc
      cases hc
    exact hcard ▸ Set.ncard_lt_ncard (hsub.ssubset_of_mem_notMem hmem hnot)
  · intro hlt
    by_contra hnone
    have hall : (Finset.range n : Set ℕ) ⊆ {k | ∃ c, X.loops k = .serving c} := by
      intro k hk
      rw [Finset.coe_range, Set.mem_Iio] at hk
      cases hl : X.loops k with
      | waiting => exact absurd ⟨k, hl⟩ hnone
      | serving c => exact ⟨c, hl⟩
      | ended => exact absurd hl (h.alive hrun k hk)
    rw [hsub.antisymm hall, hcard] at hlt
    exact Nat.lt_irrefl n hlt

variable {password : Bytes} {keep : Bool} {os : List (Obs K)}

/-- **Who gets in.**  A server with `n` tasks accepts a connection exactly if it was not stopped and
    fewer than `n` others are in the handshake: `n` connections that send nothing keep all others
    out. -/
theorem accepts_iff
    (hrun : Lts.Run (Lts.Guarded (Host.step L) fun _ _ _ => True) (.start n password keep) X os)
    (hidle : X.sys.tasks c = .idle) :
    (∃ k X' o, X.step L (.accept k c) = some (X', o)) ↔
      X.stopped = false ∧ {c' | (X.sys.tasks c').isAccept = true}.ncard < n := by
  have h : X.Attending n := hrun.inv (I := fun X _ => X.Attending n) (.start n password keep)
    fun _ hX ⟨_, hstep, _⟩ => hostStep_attending L hX hstep
  constructor
  · rintro ⟨k, X', o, hstep⟩
    obtain ⟨k', c', S, ha, hopen, hwaiting, -⟩ | ⟨_, _, ha, -⟩ | ⟨_, _, _, _, ha, -⟩ | ⟨ha, -⟩ :=
      Host.step_cases L hstep
    · exact ⟨hopen, (h.waiting_iff hopen).1 ⟨k', hwaiting⟩⟩
    · cases ha
    · cases ha
    · cases ha
  · rintro ⟨hopen, hlt⟩
    obtain ⟨k, hk⟩ := (h.waiting_iff hopen).2 hlt
    exact ⟨k, _, _, by simp only [Host.step, hopen, hk, Sys.step, hidle]; rfl⟩

end

/-! ## The server is stopped -/

/-- The coroutine is not through. -/
def Task.Works {A : Type} : Task A → Prop
  | .accept _ | .handler _ => True
  | _ => False

/-- References are well-formed and the locks are sound. -/
structure Host.Orderly (X : Host K) : Prop where
  sound : X.sys.Sound
  outboxes : X.sys.Latched
  db : dbMutex.Sound X.sys

/-- The server was stopped when its coroutines stood at `tasks`, and has nothing left. -/
structure Host.Stopped (tasks : ConnId → Task (Accepting K)) (X : Host K) : Prop where
  stopped : X.stopped = true
  db : X.sys.server.db = .empty
  addressBook : X.sys.server.addressBook = .empty
  clientDb : X.sys.server.clientDb = .empty
  tasks : ∀ c, X.sys.tasks c = tasks c ∨ X.sys.tasks c = .over (some .cancelled)

section
variable {X X' : Host K} {a : HostAct} {o : List (Obs K)} {S S' : Sys K} {c : ConnId} {draw : Uuid4}
  {tasks : ConnId → Task (Accepting K)}

theorem orderly_start (n : ℕ) (password : Bytes) (keep : Bool) :
    (Host.start n password keep : Host K).Orderly :=
  ⟨sound_init _ _, latched_init _ _, ⟨fun h => (by cases h), fun _ h => h.elim, fun _ _ h => h.elim⟩⟩

/-- `stop` takes no lock and gives none back. -/
theorem Host.Orderly.stop (h : X.Orderly) (loops : ℕ → Loop) :
    Host.Orderly ⟨⟨X.sys.server.stop, X.sys.tasks⟩, loops, true⟩ := by
  have hrefs : X.sys.server.stop.WfRefs := by
    intro u r hu
    cases hu
  refine ⟨⟨hrefs, h.sound.tasks, h.sound.tidy, h.sound.handlers⟩, ⟨fun r => ?_, h.outboxes.allocated⟩,
    ⟨h.db.held, h.db.taken, h.db.unique⟩⟩
  exact ⟨(h.outboxes.outbox r).held, (h.outboxes.outbox r).taken, (h.outboxes.outbox r).unique⟩

/-- Every step keeps the references and the locks. -/
theorem hostStep_orderly (h : X.Orderly) (hstep : X.step L a = some (X', o)) : X'.Orderly := by
  have hsys : ∀ {b : Act} {S : Sys K}, X.sys.step L b = some (S, o) → S.Sound ∧ S.Latched ∧ dbMutex.Sound S :=
    fun hs => ⟨step_sound L h.sound hs, step_latched L h.sound h.outboxes hs,
      h.db.step (step_locks L h.sound.tidy hs)⟩
  obtain ⟨k, c, S, -, -, -, hs, rfl⟩ | ⟨k, e, -, -, -, -, rfl⟩ | ⟨c, i, draw, S, -, -, hs, rfl⟩ |
    ⟨-, -, rfl⟩ := Host.step_cases L hstep
  · exact ⟨(hsys hs).1, (hsys hs).2.1, (hsys hs).2.2⟩
  · exact ⟨h.sound, h.outboxes, h.db⟩
  · exact ⟨(hsys hs).1, (hsys hs).2.1, (hsys hs).2.2⟩
  · exact h.stop _

/-- A coroutine that is not through ends when its await raises; it gives back its lock. -/
theorem step_cancel (hworks : (S.tasks c).Works) (draw : Uuid4) (e : PyErr) :
    ∃ held, S.step L (.resume c (.raise e) draw) = some (S.put c (S.server.release held) (.over (some e)), []) := by
  cases ht : S.tasks c with
  | accept a =>
    refine ⟨.none, ?_⟩
    have hstep : acceptStep L S.server c a (.raise e) draw = some (logged S.server e) := by cases a <;> rfl
    simp only [Sys.step, ht, taskStep, hstep]
    rfl
  | handler h =>
    refine ⟨h.pc.held, ?_⟩
    have hstep : handlerStep L S.server c h (.raise e) draw
        = some (raised S.server h.pc.held e : Outcome K (Accepting K)) := by
      unfold handlerStep
      cases h.pc <;> rfl
    simp only [Sys.step, ht, taskStep, hstep]
    rfl
  | _ => rw [ht] at hworks; exact hworks.elim

/-- Only a coroutine that is not through goes on. -/
theorem resume_works {i : Input} (hstep : S.step L (.resume c i draw) = some (S', o)) : (S.tasks c).Works := by
  cases ht : S.tasks c with
  | accept _ => trivial
  | handler _ => trivial
  | _ => simp [Sys.step, ht, taskStep] at hstep

/-- Every step of a server that was stopped leaves it without anything and sends nothing. -/
theorem hostStep_stopped (h : X.Stopped tasks) (hstep : X.step L a = some (X', o)) :
    X'.Stopped tasks ∧ o = [] := by
  obtain ⟨k, c, S, -, hopen, -⟩ | ⟨k, e, -, -, -, rfl, rfl⟩ | ⟨c, i, draw, S, -, hallows, hs, rfl⟩ |
    ⟨-, rfl, rfl⟩ := Host.step_cases L hstep
  · rw [h.stopped] at hopen
    cases hopen
  · exact ⟨⟨h.stopped, h.db, h.addressBook, h.clientDb, h.tasks⟩, rfl⟩
  · cases hallows.1 h.stopped
    obtain ⟨held, hcancel⟩ := step_cancel L (resume_works L hs) draw .cancelled
    rw [hs] at hcancel
    cases hcancel
    refine ⟨⟨h.stopped, ?_, ?_, ?_, fun c' => ?_⟩, rfl⟩
    · cases held <;> exact h.db
    · cases held <;> exact h.addressBook
    · cases held <;> exact h.clientDb
    · by_cases hc : c' = c
      · subst hc
        exact .inr put_tasks_self
      · simpa only [put_tasks_ne hc] using h.tasks c'
  · exact ⟨⟨rfl, rfl, rfl, rfl, h.tasks⟩, rfl⟩

/-- When all coroutines are through, no lock is taken. -/
theorem Host.Orderly.free (h : X.Orderly) (hover : ∀ c, ¬ (X.sys.tasks c).Works) :
    X.sys.server.dbLock = false ∧ ∀ r, (X.sys.server.objs r).outboxLock = false := by
  have hno : ∀ c, ¬ (X.sys.tasks c).HoldsDb ∧ ∀ r, ¬ (X.sys.tasks c).HoldsOutbox r := by
    intro c
    have hc := hover c
    cases ht : X.sys.tasks c with
    | handler _ => rw [ht] at hc; exact absurd trivial hc
    | _ => exact ⟨id, fun _ => id⟩
  constructor
  · rw [← Bool.not_eq_true]
    intro hlock
    obtain ⟨c, hc⟩ := h.db.held hlock
    exact (hno c).1 hc
  · intro r
    rw [← Bool.not_eq_true]
    intro hlock
    obtain ⟨c, hc⟩ := (h.outboxes.outbox r).held hlock
    exact (hno c).2 r hc

variable {X₀ X₁ : Host K} {password : Bytes} {keep : Bool} {n : ℕ} {os₀ os : List (Obs K)}

/-- **After `stop`**: from then on the server sends nothing and holds no session, name or key,
    every coroutine stands where it stood or was cancelled, each of them can end, and when all are
    through no lock is taken. -/
theorem stop_final
    (hrun : Lts.Run (Lts.Guarded (Host.step L) fun _ _ _ => True) (.start n password keep) X₀ os₀)
    (hstop : X₀.step L .stop = some (X₁, o))
    (hmore : Lts.Run (Lts.Guarded (Host.step L) fun _ _ _ => True) X₁ X os) :
    X.Stopped X₀.sys.tasks ∧ o ++ os = [] ∧
      (∀ c draw, (X.sys.tasks c).Works → ∃ X', X.step L (.resume c (.raise .cancelled) draw) = some (X', []) ∧
        X'.sys.tasks c = .over (some .cancelled)) ∧
      ((∀ c, ¬ (X.sys.tasks c).Works) →
        X.sys.server.dbLock = false ∧ ∀ r, (X.sys.server.objs r).outboxLock = false) := by
  have h₀ : X₀.Orderly := hrun.inv (I := fun X _ => X.Orderly) (orderly_start n password keep)
    fun _ hX ⟨_, hstep, _⟩ => hostStep_orderly L hX hstep
  have h₁ : X₁.Orderly ∧ X₁.Stopped X₀.sys.tasks ∧ o = [] := by
    refine ⟨hostStep_orderly L h₀ hstop, ?_⟩
    cases hstop
    exact ⟨⟨rfl, rfl, rfl, rfl, fun _ => .inl rfl⟩, rfl⟩
  obtain ⟨horderly, hstopped, rfl⟩ : X.Orderly ∧ X.Stopped X₀.sys.tasks ∧ os = [] := by
    refine hmore.inv (I := fun X os => X.Orderly ∧ X.Stopped X₀.sys.tasks ∧ os = []) ⟨h₁.1, h₁.2.1, rfl⟩ ?_
    rintro X X' os o - ⟨horderly, hstopped, rfl⟩ ⟨a, hstep, -⟩
    obtain ⟨hstopped, rfl⟩ := hostStep_stopped L hstopped hstep
    exact ⟨hostStep_orderly L horderly hstep, hstopped, rfl⟩
  refine ⟨hstopped, by rw [h₁.2.2]; rfl, fun c draw hworks => ?_, horderly.free⟩
  obtain ⟨held, hstep⟩ := step_cancel L hworks draw .cancelled
  have hallows : X.Allows (.raise .cancelled) := iff_of_true hstopped.stopped rfl
  simp only [Host.step, hstep, if_neg (not_not.2 hallows)]
  exact ⟨_, rfl, put_tasks_self⟩

end

/-! ## Runs on fixed inputs -/

/-- An action of a server with one task. -/
def Act.hosted : Act → List HostAct
  | .connect c => [.accept 0 c]
  | .resume c i draw => [.resume c i draw]
  | .admin _ => []

/-- The connection has no coroutine. -/
def Task.isIdle {A : Type} : Task A → Bool
  | .idle => true
  | _ => false

/-- Connection 0 logs in, connection 1 stops in the middle of its handshake. -/
def stalledActs : List HostAct :=
  (loginActs 0 [0xC5]).flatMap Act.hosted ++ [.accept 0 1, .resume 1 (.recv stubClientPublic) sampleDraw]

/-- The only task is with connection 1, so connection 2 does not get in. -/
theorem accepts_sample : ∃ (X : Host ℕ) (os : List (Obs ℕ)), os ≠ [] ∧
    ((∃ k X' o, X.step stub (.accept k 2) = some (X', o)) ↔
      X.stopped = false ∧ {c' | (X.sys.tasks c').isAccept = true}.ncard < 1) := by
  have hexec : ((Lts.exec (Host.step stub) stalledActs (.start 1 [] false)).any fun x =>
      x.2 ≠ [] && (x.1.sys.tasks 2).isIdle) = true := by decide +kernel
  obtain ⟨⟨X, os⟩, hX, hp⟩ := Option.any_eq_true _ _ |>.1 hexec
  simp only [Bool.and_eq_true, decide_eq_true_eq] at hp
  have hidle : X.sys.tasks 2 = .idle := by
    cases ht : X.sys.tasks 2 with
    | idle => rfl
    | _ => rw [ht] at hp; cases hp.2
  exact ⟨X, os, hp.1, accepts_iff stub (Lts.exec_run hX (Lts.along_of fun _ _ _ => trivial)) hidle⟩

/-- Connection 0 logs in and sets a key; its handler sends the reply under `db_lock`. -/
def settingActs : List HostAct :=
  (loginActs 0 [0xC5] ++ drawing sampleDraw 0
    [.recv (stubPacket 0 2 [0x81, 0, 0, 0, 1, 0, 0, 0, 1, 107, 118]), .go]).flatMap Act.hosted

/-- The server is stopped under `db_lock`, and the lock is given back. -/
theorem stop_final_sample : ∃ X₀ X : Host ℕ, X₀.sys.server.dbLock = true ∧
    X.sys.server.dbLock = false ∧ X.Stopped X₀.sys.tasks := by
  have hexec : ((Lts.exec (Host.step stub) settingActs (.start 1 [] false)).any fun x =>
      x.1.sys.server.dbLock && (x.1.step stub .stop).any fun y =>
        (Lts.exec (Host.step stub) [.resume 0 (.raise .cancelled) sampleDraw] y.1).any fun z =>
          !z.1.sys.server.dbLock) = true := by
    decide +kernel
  obtain ⟨⟨X₀, os₀⟩, hX₀, hp⟩ := Option.any_eq_true _ _ |>.1 hexec
  simp only [Bool.and_eq_true] at hp
  obtain ⟨⟨X₁, o⟩, hX₁, hq⟩ := Option.any_eq_true _ _ |>.1 hp.2
  obtain ⟨⟨X, os⟩, hX, hfree⟩ := Option.any_eq_true _ _ |>.1 hq
  have hall : ∀ {as : List HostAct} {X : Host ℕ}, Lts.Along (Host.step stub) (fun _ _ _ => True) as X :=
    Lts.along_of fun _ _ _ => trivial
  exact ⟨X₀, X, hp.1, by simpa using hfree,
    (stop_final stub (Lts.exec_run hX₀ hall) hX₁ (Lts.exec_run hX hall)).1⟩

end Pipebomb
