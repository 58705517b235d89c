/-
  The locks of the outboxes.

  GET_OUTBOX sends its reply under the `outbox_lock` of its client, and the commands about
  the database send theirs under `db_lock`.  PUT_OUTBOX takes the lock of the client it
  writes to, and gives it back before it sends.

  * `outboxMutex r`: the lock of an object, and the coroutines inside.  Every step takes it,
    gives it back, or neither (`Move.latches`, `put_outbox`).
  * `Sys.Latched`: the lock of every outbox is taken exactly while one coroutine sends under
    it; every step keeps it (`step_latched`), also those of the operations on the database
    (`run_latched`).
-/
import Pipebomb.CheckpointRun
import Pipebomb.DbLock

namespace Pipebomb

open ByteString

variable {K : Type} (L : Libs K)

/-! ## The lock of an outbox -/

/-- The coroutine is inside the `outbox_lock` of the object. -/
def Task.HoldsOutbox (r : Ref) : Task (Accepting K) → Prop
  | .handler h => h.pc.held = .outboxLock r
  | _ => False

/-- The `outbox_lock` of an object and the coroutines inside. -/
def outboxMutex (r : Ref) : Mutex (Sys K) ConnId where
  taken S := (S.server.objs r).outboxLock = true
  holds S c := (S.tasks c).HoldsOutbox r

/-- The lock of an object beside one coroutine. -/
def outboxTurn (r : Ref) : Mutex (Server K × Task (Accepting K)) Unit where
  taken x := (x.1.objs r).outboxLock = true
  holds x _ := x.2.HoldsOutbox r

/-- What a step of a coroutine does to the lock of an object. -/
abbrev Latches (r : Ref) (s : Server K) (t : Task (Accepting K)) (out : Outcome K (Accepting K)) : Prop :=
  (outboxTurn r).Turn (s, t) (out.1, out.2.1) ()

section
variable {s s' : Server K} {c : ConnId} {h h' : Handler} {i : Input} {draw : Uuid4}
  {out : Outcome K (Accepting K)} {r r' : Ref} {t : Task (Accepting K)}

/-- The locks of all outboxes are as before. -/
def SameOutboxLocks (s s' : Server K) : Prop := ∀ r, (s'.objs r).outboxLock = (s.objs r).outboxLock

theorem SameOutboxLocks.refl (s : Server K) : SameOutboxLocks s s := fun _ => rfl

theorem SameOutboxLocks.trans {s'' : Server K} (h : SameOutboxLocks s s') (h' : SameOutboxLocks s' s'') :
    SameOutboxLocks s s'' := fun r => (h' r).trans (h r)

theorem modify_outboxLocks (s : Server K) (r : Ref) (f : Client K → Client K)
    (hf : ∀ cl, (f cl).outboxLock = cl.outboxLock) : SameOutboxLocks s (s.modify r f) := by
  intro r'
  rw [Server.modify_objs]
  split_ifs
  · exact hf _
  · rfl

theorem dbOp_outboxLocks (op : DbOp) (s : Server K) (value : Bytes) :
    SameOutboxLocks s (op.run s value).1 := by
  cases op with
  | set => simp only [DbOp.run]; split <;> exact .refl _
  | get => exact .refl _
  | delete => simp only [DbOp.run]; split_ifs <;> exact .refl _
  | list => exact .refl _

theorem dispatch_outboxLocks (s : Server K) (u : PyStr) (data : Bytes) (draw : Uuid4) :
    SameOutboxLocks s (dispatch s u data draw).1 := by
  cases data with
  | nil => exact .refl s
  | cons type_ value =>
    simp only [dispatch]
    cases command type_ with
    | register =>
      simp only [register]
      split_ifs
      · exact .refl s
      · split
        · exact .refl s
        · exact modify_outboxLocks s _ _ fun _ => rfl
    | unregister =>
      simp only [unregister]
      split
      · exact .refl s
      · split_ifs
        · exact modify_outboxLocks s _ _ fun _ => rfl
        · exact modify_outboxLocks s _ _ fun _ => rfl
        · exact .refl s
    | putInbox =>
      simp only [putInbox]
      split
      · split
        · exact .refl s
        · split
          · exact .refl s
          · exact modify_outboxLocks s _ _ fun _ => rfl
      · exact .refl s
      · exact .refl s
    | getInbox => simp only; split <;> exact .refl s
    | getOutbox => simp only; split <;> exact .refl s
    | _ => exact .refl s

theorem teardown_outboxLocks (s : Server K) (u : PyStr) : SameOutboxLocks s (teardown s u) := by
  unfold teardown
  split_ifs <;> exact .refl _

/-- Giving back another lock leaves the one of an outbox. -/
theorem release_outboxLock {held : Held} (hheld : held ≠ .outboxLock r) (s : Server K) :
    ((s.release held).objs r).outboxLock = (s.objs r).outboxLock := by
  cases held with
  | none => rfl
  | dbLock => rfl
  | outboxLock r' =>
    have hr : r ≠ r' := fun he => hheld (he ▸ rfl)
    rw [Server.release, Server.modify_objs_ne hr]

theorem release_outboxLock_self (r : Ref) (s : Server K) :
    ((s.release (.outboxLock r)).objs r).outboxLock = false := by
  rw [Server.release, Server.modify_objs_self]
  rfl

theorem Task.Outside.not_holdsOutbox (h : t.Outside) : ¬ t.HoldsOutbox r := by
  cases t with
  | handler h' => exact h.elim
  | _ => exact id

theorem Task.Idles.not_holdsOutbox (ht : t.Idles h) : ¬ t.HoldsOutbox r := by
  cases t with
  | handler h' =>
    obtain ⟨-, hpc | hpc | hpc⟩ := ht
    · simp [Task.HoldsOutbox, hpc, Await.held]
    · simp [Task.HoldsOutbox, hpc, Await.held]
    · simp [Task.HoldsOutbox, hpc, Await.held]
  | _ => exact id

theorem not_holdsOutbox (hheld : h.pc.held ≠ .outboxLock r) :
    ¬ (Task.handler (A := Accepting K) h).HoldsOutbox r := hheld

theorem Await.Reads.held_none {pc : Await} (hr : pc.Reads) : pc.held = .none := by
  cases pc with
  | sendall held after =>
    cases held with
    | none => rfl
    | dbLock => exact hr.elim
    | outboxLock _ => exact hr.elim
  | _ => rfl

/-- Nothing happens to the lock. -/
theorem Latches.still (hlock : (out.1.objs r).outboxLock = (s.objs r).outboxLock)
    (hbefore : ¬ t.HoldsOutbox r) (hafter : ¬ out.2.1.HoldsOutbox r) : Latches r s t out :=
  .keep (by simp only [outboxTurn, hlock]) (iff_of_false hafter hbefore)

/-- A reply is sent outside the lock. -/
theorem Sends.latches {reply : Except PyErr Bytes} {held : Held} {after : After}
    (hs : Sends L s' c h' reply held after out) (hheld : held ≠ .outboxLock r)
    (hlock : (s'.objs r).outboxLock = (s.objs r).outboxLock) (hbefore : ¬ t.HoldsOutbox r) :
    Latches r s t out := by
  cases hs with
  | fail => exact .still ((release_outboxLock hheld s').trans hlock) hbefore id
  | start => exact .still hlock hbefore hheld

/-- A reply is sent under the lock, which was free. -/
theorem Sends.latches_under {reply : Except PyErr Bytes} {after : After}
    (hs : Sends L s' c h' reply (.outboxLock r) after out) (hfree : (s.objs r).outboxLock = false)
    (htaken : (s'.objs r).outboxLock = true) (hbefore : ¬ t.HoldsOutbox r) : Latches r s t out := by
  cases hs with
  | fail => exact .still ((release_outboxLock_self r s').trans hfree.symm) hbefore id
  | start =>
    refine .take ?_ htaken rfl
    simp only [outboxTurn, hfree, Bool.false_eq_true, not_false_eq_true]

/-- GET_OUTBOX takes the lock of its client. -/
theorem Sends.latches_take {reply : Except PyErr Bytes}
    (hs : Sends L s' c h reply (.outboxLock r') .next out) (hfree : (s.objs r').outboxLock = false)
    (hlocks : SameOutboxLocks (s.modify r' (Client.setOutboxLock true)) s') (hbefore : ¬ t.HoldsOutbox r) :
    Latches r s t out := by
  by_cases hr : r = r'
  · subst hr
    refine hs.latches_under L hfree ((hlocks r).trans ?_) hbefore
    rw [Server.modify_objs_self]
    rfl
  · refine hs.latches L (fun he => hr (Held.outboxLock.inj he).symm) ((hlocks r).trans ?_) hbefore
    rw [Server.modify_objs_ne hr]

/-- The coroutine gives back its lock, whatever it is. -/
theorem latches_release (hlocks : SameOutboxLocks s s') (hout : SameOutboxLocks (s'.release h.pc.held) out.1)
    (hafter : ¬ out.2.1.HoldsOutbox r) : Latches r s (.handler h) out := by
  by_cases hheld : h.pc.held = .outboxLock r
  · refine .release hheld ?_ hafter
    have hfree : (out.1.objs r).outboxLock = false := by
      rw [hout r, hheld]
      exact release_outboxLock_self r s'
    simp only [outboxTurn, hfree, Bool.false_eq_true, not_false_eq_true]
  · exact .still (((hout r).trans (release_outboxLock hheld s')).trans (hlocks r)) hheld hafter

/-- **A step of a handler and the lock of an outbox.** -/
theorem Move.latches (hm : Move L s c h i draw out) (r : Ref) : Latches r s (.handler h) out := by
  have hpc : ∀ {pc : Await}, h.pc = pc → pc.held ≠ .outboxLock r →
      ¬ (Task.handler (A := Accepting K) h).HoldsOutbox r := by
    intro pc hp hheld
    rw [← hp] at hheld
    exact not_holdsOutbox hheld
  have hreads : h.pc.Reads → ¬ (Task.handler (A := Accepting K) h).HoldsOutbox r := by
    intro hr
    exact hpc rfl (by rw [hr.held_none]; simp)
  cases hm with
  | still hr ht _ => exact .still rfl (hreads hr) ht.not_holdsOutbox
  | refuse hr _ _ _ hs =>
    exact hs.latches L (by simp) (modify_outboxLocks s _ Client.received (fun _ => rfl) r) (hreads hr)
  | payload hr hu hid hv hin hp =>
    rename_i r' h' frame rem os out
    have hlock := ((modify_outboxLocks s r' Client.received fun _ => rfl).trans
      (dispatch_outboxLocks (s.modify r' Client.received) h.uuid h'.data draw)) r
    cases hp with
    | reply _ hs => exact hs.latches L (by simp) hlock (hreads hr)
    | wait hw =>
      refine .still hlock (hreads hr) ?_
      obtain ⟨_, _, -, -, ⟨_, -, rfl⟩ | ⟨_, -, -, rfl⟩ | ⟨_, _, -, -, rfl⟩ | ⟨_, -, -, rfl⟩⟩ :=
        dispatch_wait hw
      · exact not_holdsOutbox (by simp [Await.held])
      · exact not_holdsOutbox (by simp [Await.held])
      · exact not_holdsOutbox (by simp [Await.held])
      · exact not_holdsOutbox (by simp [Await.held])
    | raise => exact .still hlock (hreads hr) id
    | bye => exact .still ((teardown_outboxLocks _ _ r).trans hlock) (hreads hr) id
  | db hp _ _ hs =>
    exact hs.latches L (by simp) (dbOp_outboxLocks _ _ _ r) (hpc hp (by simp [Await.held]))
  | inboxGet hp _ _ hs =>
    exact hs.latches L (by simp) (modify_outboxLocks s _ (Client.setInbox _) (fun _ => rfl) r)
      (hpc hp (by simp [Await.held]))
  | outboxPut hp _ _ hs =>
    exact hs.latches L (by simp) (modify_outboxLocks s _ (Client.setOutbox _) (fun _ => rfl) r)
      (hpc hp (by simp [Await.held]))
  | outboxNone hp _ hfree _ hs =>
    exact hs.latches_take L hfree (.refl _) (hpc hp (by simp [Await.held]))
  | outboxGet hp _ hfree _ hs =>
    exact hs.latches_take L hfree (modify_outboxLocks _ _ (Client.setOutbox _) fun _ => rfl)
      (hpc hp (by simp [Await.held]))
  | sent hp =>
    rename_i held r' _ _
    have hheld : h.pc.held = held := by rw [hp]; rfl
    refine latches_release (modify_outboxLocks s r' Client.sent fun _ => rfl) ?_
      (not_holdsOutbox (by simp [Await.held]))
    rw [hheld]
    exact .refl _
  | close hp =>
    rename_i held r' _ _
    have hheld : h.pc.held = held := by rw [hp]; rfl
    refine latches_release (modify_outboxLocks s r' Client.sent fun _ => rfl) ?_ id
    rw [hheld]
    exact teardown_outboxLocks _ _
  | die => exact latches_release (.refl s) (.refl _) id

theorem Sends.holdsOutbox {reply : Except PyErr Bytes} {held : Held} {after : After}
    (hs : Sends L s' c h' reply held after out) (hr : out.2.1.HoldsOutbox r) : held = .outboxLock r := by
  cases hs with
  | fail => exact hr.elim
  | start => exact hr

/-- The lock that a coroutine is inside of is that of an object. -/
theorem Move.holdsOutbox (hh : h.Wf s) (hm : Move L s c h i draw out) (hr : out.2.1.HoldsOutbox r) :
    r < s.fresh := by
  have hnone : ∀ {s' : Server K} {h' : Handler} {reply : Except PyErr Bytes} {held : Held} {after : After}
      {out : Outcome K (Accepting K)}, Sends L s' c h' reply held after out → held ≠ .outboxLock r →
      ¬ out.2.1.HoldsOutbox r := fun hs hheld hr => hheld (hs.holdsOutbox L hr)
  have htake : ∀ {r' : Ref} {id : Bytes} {s' : Server K} {reply : Except PyErr Bytes} {after : After}
      {out : Outcome K (Accepting K)}, h.pc = .outboxGet r' id →
      Sends L s' c h reply (.outboxLock r') after out → out.2.1.HoldsOutbox r → r < s.fresh := by
    intro r' id s' reply after out hpc hs hr
    cases hs.holdsOutbox L hr
    exact (hh.outboxGet hpc).2.1
  cases hm with
  | still _ ht _ => exact absurd hr ht.not_holdsOutbox
  | refuse _ _ _ _ hs => exact (hnone hs (by simp) hr).elim
  | payload _ _ _ _ _ hp =>
    cases hp with
    | reply _ hs => exact (hnone hs (by simp) hr).elim
    | wait hw =>
      obtain ⟨_, _, -, -, ⟨_, -, rfl⟩ | ⟨_, -, -, rfl⟩ | ⟨_, _, -, -, rfl⟩ | ⟨_, -, -, rfl⟩⟩ :=
        dispatch_wait hw
      · cases hr
      · cases hr
      · cases hr
      · cases hr
    | raise => exact hr.elim
    | bye => exact hr.elim
  | db _ _ _ hs => exact (hnone hs (by simp) hr).elim
  | inboxGet _ _ _ hs => exact (hnone hs (by simp) hr).elim
  | outboxPut _ _ _ hs => exact (hnone hs (by simp) hr).elim
  | outboxNone hpc _ _ _ hs => exact htake hpc hs hr
  | outboxGet hpc _ _ _ hs => exact htake hpc hs hr
  | sent => cases hr
  | close => exact hr.elim
  | die => exact hr.elim

/-! ## The handshake and the administrative calls -/

/-- The locks of all outboxes are as before, and the one of a new object is free. -/
def KeepsOutboxLocks (s s' : Server K) : Prop :=
  ∀ r, (s'.objs r).outboxLock = (s.objs r).outboxLock ∨ r = s.fresh ∧ (s'.objs r).outboxLock = false

theorem SameOutboxLocks.keeps (h : SameOutboxLocks s s') : KeepsOutboxLocks s s' := fun r => .inl (h r)

theorem addSession_outboxLocks (s : Server K) (u : PyStr) {cl : Client K} (hcl : cl.outboxLock = false) :
    KeepsOutboxLocks s (s.addSession u cl) := by
  intro r
  by_cases hr : r = s.fresh
  · rw [hr, Server.addSession_objs_fresh]
    exact .inr ⟨rfl, hcl⟩
  · exact .inl (by simp only [Server.addSession, Function.update_of_ne hr])

theorem KeepsOutboxLocks.modify (h : KeepsOutboxLocks s s') (r : Ref) (f : Client K → Client K)
    (hf : ∀ cl, (f cl).outboxLock = cl.outboxLock) : KeepsOutboxLocks s (s'.modify r f) := by
  intro r'
  rw [modify_outboxLocks s' r f hf r']
  exact h r'

theorem Joins.latches {a : Accepting K} (hj : Joins s c draw a out) : KeepsOutboxLocks s out.1 := by
  cases hj with
  | still => exact (SameOutboxLocks.refl s).keeps
  | login => exact addSession_outboxLocks s _ rfl
  | attach => exact (modify_outboxLocks s _ (Client.attach c _) fun _ => rfl).keeps
  | unknown => exact (addSession_outboxLocks s _ rfl).modify _ (Client.setNonces _ _) fun _ => rfl
  | finish => exact (modify_outboxLocks s _ (Client.setNonces _ _) fun _ => rfl).keeps

theorem Joins.not_holdsOutbox {a : Accepting K} (hj : Joins s c draw a out) : ¬ out.2.1.HoldsOutbox r := by
  cases hj with
  | still ht _ => exact ht.not_holdsOutbox
  | login ht _ _ =>
    rcases ht with rfl | ht
    · exact id
    · exact ht.not_holdsOutbox
  | attach _ ht _ _ =>
    rcases ht with rfl | ht
    · exact id
    · exact ht.not_holdsOutbox
  | unknown => exact not_holdsOutbox (by simp [Await.held])
  | finish => exact not_holdsOutbox (by simp [Await.held])

theorem admin_outboxLocks (s : Server K) (op : Admin) : KeepsOutboxLocks s (op.run s).1 := by
  have hsame := (SameOutboxLocks.refl s).keeps
  cases op with
  | addClient t =>
    simp only [Admin.run, addClient]
    split_ifs
    · exact hsame
    · exact hsame
    · exact hsame
    · exact addSession_outboxLocks s _ rfl
  | removeClient uuid =>
    simp only [Admin.run, removeClient]
    split_ifs
    · exact hsame
    · split
      · exact hsame
      · split <;> exact hsame
  | addKey key uuid =>
    simp only [Admin.run, addKey]
    split_ifs
    · exact hsame
    · exact hsame
    · split
      · exact hsame
      · exact (modify_outboxLocks (s.setBook _) _ (Client.own key) fun _ => rfl).keeps
  | removeKey key uuid =>
    simp only [Admin.run, removeKey]
    split_ifs
    · exact hsame
    · split
      · exact hsame
      · split_ifs
        · exact (modify_outboxLocks (s.setBook _) _ (Client.disown key) fun _ => rfl).keeps
        · exact hsame
    · exact hsame

end

/-! ## All locks -/

/-- The lock of every outbox is taken exactly while one coroutine sends under it. -/
structure Sys.Latched (S : Sys K) : Prop where
  outbox : ∀ r, (outboxMutex r).Sound S
  allocated : ∀ c r, (S.tasks c).HoldsOutbox r → r < S.server.fresh

section
variable {S S' : Sys K} {o : List (Obs K)} {c : ConnId} {s : Server K} {t : Task (Accepting K)}

theorem latched_init (password : Bytes) (keep : Bool) : (Sys.init password keep : Sys K).Latched :=
  ⟨fun _ => ⟨fun h => (by cases h), fun _ h => h.elim, fun _ _ h => h.elim⟩, fun _ _ h => h.elim⟩

/-- No lock of an object that is not made yet is taken. -/
theorem Sys.Latched.free (h : S.Latched) {r : Ref} (hr : S.server.fresh ≤ r) :
    (S.server.objs r).outboxLock = false := by
  rcases hlock : (S.server.objs r).outboxLock with _ | _
  · rfl
  · obtain ⟨c, hc⟩ := (h.outbox r).held hlock
    exact absurd (h.allocated c r hc) (Nat.not_lt.2 hr)

theorem put_outbox {r : Ref} (ht : Latches r S.server (S.tasks c) (s, t, o)) :
    (outboxMutex r).Step S (S.put c s t) := by
  have hothers : ∀ c', c' ≠ c →
      (((S.put c s t).tasks c').HoldsOutbox r ↔ (S.tasks c').HoldsOutbox r) := by
    intro c' hc
    rw [put_tasks_ne hc]
  refine Mutex.Turn.step (i := c) ?_ hothers
  cases ht with
  | keep hlock hholds => exact .keep hlock (by simpa [outboxMutex, outboxTurn] using hholds)
  | take hfree htaken hholds => exact .take hfree htaken (by simpa [outboxMutex, outboxTurn] using hholds)
  | release hholds hfree hnot => exact .release hholds hfree (by simpa [outboxMutex, outboxTurn] using hnot)

/-- Changes outside the locks. -/
theorem Sys.Latched.keeps (h : S.Latched) (hserver : KeepsOutboxLocks S.server S'.server)
    (hfresh : S.server.fresh ≤ S'.server.fresh)
    (htasks : ∀ c r, (S'.tasks c).HoldsOutbox r ↔ (S.tasks c).HoldsOutbox r) : S'.Latched := by
  refine ⟨fun r => (h.outbox r).step (.keep ?_ fun c => htasks c r), fun c r hc =>
    Nat.lt_of_lt_of_le (h.allocated c r ((htasks c r).1 hc)) hfresh⟩
  rcases hserver r with hsame | ⟨rfl, hnew⟩
  · simp only [outboxMutex, hsame]
  · have hold := h.free (Nat.le_refl _)
    simp only [outboxMutex, hnew, hold]

/-- **Every step keeps the locks of the outboxes.** -/
theorem step_latched (hS : S.Sound) (h : S.Latched) {a : Act} (hstep : S.step L a = some (S', o)) :
    S'.Latched := by
  have hfresh := (step_frame L hS hstep).fresh
  have hput : ∀ {c : ConnId} {s : Server K} {t : Task (Accepting K)},
      (∀ r, ¬ (S.tasks c).HoldsOutbox r) → (∀ r, ¬ t.HoldsOutbox r) →
      ∀ c' r, ((S.put c s t).tasks c').HoldsOutbox r ↔ (S.tasks c').HoldsOutbox r := by
    intro c s t hbefore hafter c' r
    by_cases hc : c' = c
    · subst hc
      rw [put_tasks_self]
      exact iff_of_false (hafter r) (hbefore r)
    · rw [put_tasks_ne hc]
  cases (step_step L hS.tidy hstep).1 with
  | connect hidle =>
    exact h.keeps (SameOutboxLocks.refl _).keeps hfresh
      (hput (fun r => by rw [hidle]; exact id) fun _ => id)
  | join htask hj =>
    exact h.keeps hj.latches hfresh (hput (fun r => by rw [htask]; exact id) fun _ => hj.not_holdsOutbox)
  | admin => exact h.keeps (admin_outboxLocks S.server _) hfresh fun _ _ => .rfl
  | @move c i draw g s t _ htask hm =>
    refine ⟨fun r => (h.outbox r).step (put_outbox (o := o) ?_), fun c' r hc' => ?_⟩
    · rw [htask]
      exact hm.latches L r
    · refine Nat.lt_of_lt_of_le ?_ hfresh
      by_cases hc : c' = c
      · subst hc
        rw [put_tasks_self] at hc'
        exact hm.holdsOutbox L (hS.handlers _ _ htask) hc'
      · rw [put_tasks_ne hc] at hc'
        exact h.allocated c' r hc'

/-! ## The server with the operations on the database -/

/-- Only the database and its lock change. -/
structure DbOnly (s s' : Server K) : Prop where
  fresh : s'.fresh = s.fresh
  clientDb : s'.clientDb = s.clientDb
  objs : s'.objs = s.objs

theorem DbOnly.quiet {s' : Server K} (h : DbOnly s s') : Quiet s s' :=
  ⟨h.fresh, h.clientDb, fun r => by rw [h.objs]; exact .refl _⟩

theorem DictOp.run_dbOnly (s : Server K) (op : DictOp) (fault : Option PyErr) :
    DbOnly s (op.run s fault).1 := by
  have hbody : ∀ s : Server K, DbOnly s (op.body s).1 := by
    intro s
    cases op with
    | getitem key => simp only [DictOp.body]; split <;> exact ⟨rfl, rfl, rfl⟩
    | delitem key => simp only [DictOp.body]; split_ifs <;> exact ⟨rfl, rfl, rfl⟩
    | _ => exact ⟨rfl, rfl, rfl⟩
  unfold DictOp.run
  cases fault with
  | some e => exact ⟨rfl, rfl, rfl⟩
  | none =>
    simp only
    have h := hbody (s.setDbLock true)
    rcases hx : op.body (s.setDbLock true) with ⟨s', e | v⟩
    · rw [hx] at h; exact ⟨h.fresh, h.clientDb, h.objs⟩
    · rw [hx] at h; exact ⟨h.fresh, h.clientDb, h.objs⟩

theorem DbCall.locked_dbOnly (s : Server K) (op : DbCall) (fault : Option PyErr) :
    DbOnly s (op.locked s fault).1 := by
  have hrun : ∀ s : Server K, DbOnly s (op.run s).1 := by
    intro s
    cases op with
    | set key value => exact ⟨rfl, rfl, rfl⟩
    | get key => simp only [DbCall.run, getDb]; split <;> exact ⟨rfl, rfl, rfl⟩
    | remove key => simp only [DbCall.run, removeDb]; split_ifs <;> exact ⟨rfl, rfl, rfl⟩
  cases fault with
  | some e => exact ⟨rfl, rfl, rfl⟩
  | none =>
    have h := hrun (s.setDbLock true)
    exact ⟨h.fresh, h.clientDb, h.objs⟩

/-- An operation on the database, and the coroutines stay where they are, or one ends that waited
    for the lock. -/
theorem dbStep_aside {a : DbAct} (hstep : S.dbStep L a = some (S', o)) :
    (∃ b, a = .server b ∧ S.step L b = some (S', o)) ∨
      (DbOnly S.server S'.server ∧ o = [] ∧ ∀ c, S'.tasks c = S.tasks c ∨
        (∃ h op, S.tasks c = .handler h ∧ h.pc = .dbLock op) ∧ ∃ e, S'.tasks c = .over (some e)) := by
  cases a with
  | server b => exact .inl ⟨b, rfl, hstep⟩
  | dict op fault =>
    simp only [Sys.dbStep] at hstep
    split_ifs at hstep
    cases hstep
    exact .inr ⟨op.run_dbOnly _ fault, rfl, fun _ => .inl rfl⟩
  | call op fault =>
    simp only [Sys.dbStep] at hstep
    split_ifs at hstep
    cases hstep
    exact .inr ⟨op.locked_dbOnly _ fault, rfl, fun _ => .inl rfl⟩
  | broken c e =>
    simp only [Sys.dbStep] at hstep
    split at hstep
    · rename_i h htask
      split at hstep
      · rename_i op hpc
        split_ifs at hstep
        cases hstep
        refine .inr ⟨⟨rfl, rfl, rfl⟩, rfl, fun c' => ?_⟩
        by_cases hc : c' = c
        · subst hc
          exact .inr ⟨⟨h, op, htask, hpc⟩, e, put_tasks_self⟩
        · exact .inl (put_tasks_ne hc)
      · cases hstep
    · cases hstep

theorem dbStep_sound (hS : S.Sound) {a : DbAct} (hstep : S.dbStep L a = some (S', o)) : S'.Sound := by
  rcases dbStep_aside L hstep with ⟨b, rfl, hstep⟩ | ⟨hdb, -, htasks⟩
  · exact step_sound L hS hstep
  · have hsound := hdb.quiet.sound hS
    have hend : ∀ {c : ConnId} {P : Task (Accepting K) → Prop}, (∀ e, P (.over e)) → P (S.tasks c) →
        P (S'.tasks c) := by
      intro c P hover hP
      rcases htasks c with ht | ⟨-, e, ht⟩
      · rw [ht]; exact hP
      · rw [ht]; exact hover _
    refine ⟨hsound.refs, fun c => hend (P := fun t => t.Wf S'.server) (fun _ => trivial) (hsound.tasks c),
      fun c => hend (P := Task.Tidy) (fun _ => trivial) (hS.tidy c), fun c => ?_⟩
    exact hend (P := fun t => ∀ h, t = .handler h → h.Wf S'.server) (fun _ _ ht => (by cases ht))
      (hsound.handlers c)

theorem dbStep_latched (hS : S.Sound) (h : S.Latched) {a : DbAct} (hstep : S.dbStep L a = some (S', o)) :
    S'.Latched := by
  rcases dbStep_aside L hstep with ⟨b, rfl, hstep⟩ | ⟨hdb, -, htasks⟩
  · exact step_latched L hS h hstep
  · refine h.keeps (fun r => .inl (by rw [hdb.objs])) (Nat.le_of_eq hdb.fresh.symm) fun c r => ?_
    rcases htasks c with ht | ⟨⟨g, op, hg, hpc⟩, e, ht⟩
    · rw [ht]
    · rw [ht, hg]
      exact iff_of_false id (not_holdsOutbox (by rw [hpc]; simp [Await.held]))

variable {xs : List (Lts.Shown (Sys K) DbAct (Obs K))}

/-- **Every outbox lock is taken exactly while one coroutine sends under it**, in every run. -/
theorem run_latched {password : Bytes} {keep : Bool}
    (hrun : Lts.Run (Lts.Guarded (Lts.shown (Sys.dbStep L)) (Lts.Showing fun _ _ _ => True))
      (.init password keep) S xs) : S.Sound ∧ S.Latched := by
  refine hrun.inv (I := fun S _ => S.Sound ∧ S.Latched) ⟨sound_init _ _, latched_init _ _⟩ ?_
  rintro S S' xs new - ⟨hS, hl⟩ ⟨a, hs, -⟩
  obtain ⟨o, hstep, rfl⟩ := Lts.shown_step hs
  exact ⟨dbStep_sound L hS hstep, dbStep_latched L hS hl hstep⟩

end

end Pipebomb
