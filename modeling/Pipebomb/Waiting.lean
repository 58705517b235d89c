/-
  Waiting for a lock.

  * `Await.wants`: the lock that a coroutine waits for.  While it waits it holds none.
  * `locked_holder`: a lock that is taken is the one of exactly one coroutine, which sends;
    `onSent_unlocked`: the end of its send gives the lock back.
  * `lost_lock_stops`: once a dict-style operation raised, nothing happens to the database any
    more, and no request about it is answered.
-/
import Pipebomb.Answers
import Pipebomb.Fields
import Pipebomb.OutboxLock

namespace Pipebomb

open ByteString

variable {K : Type} (L : Libs K)

/-! ## Waiting for a lock -/

/-- The lock that a coroutine waits for. -/
def Await.wants : Await → Held
  | .dbLock _ => .dbLock
  | .outboxPut r _ | .outboxGet r _ => .outboxLock r
  | _ => .none

/-- The lock is taken. -/
def Server.Locked (s : Server K) : Held → Prop
  | .none => False
  | .dbLock => s.dbLock = true
  | .outboxLock r => (s.objs r).outboxLock = true

/-- The coroutine sends under the lock. -/
def Task.SendsUnder (held : Held) : Task (Accepting K) → Prop
  | .handler h => ∃ after, h.pc = .sendall held after
  | _ => False

section
variable {s : Server K} {S : Sys K} {h : Handler} {held : Held} {after : After}

theorem release_unlocked (held : Held) (s : Server K) : ¬ (s.release held).Locked held := by
  cases held with
  | none => exact id
  | dbLock => exact Bool.false_ne_true
  | outboxLock r =>
    simp only [Server.Locked, release_outboxLock_self, Bool.false_eq_true, not_false_eq_true]

theorem teardown_locked (s : Server K) (u : PyStr) (held : Held) :
    (teardown s u).Locked held ↔ s.Locked held := by
  cases held with
  | none => exact .rfl
  | dbLock => simp only [Server.Locked, (teardown_aside s u).dbLock]
  | outboxLock r => simp only [Server.Locked, teardown_outboxLocks s u r]

/-- **The end of a send gives the lock back.** -/
theorem onSent_unlocked (s : Server K) (c : ConnId) (h : Handler) (held : Held) (draw : Uuid4)
    (hafter : after ≠ .frameError) :
    ¬ (onSent L s c h held after draw : Outcome K (Accepting K)).1.Locked held := by
  cases after with
  | frameError => exact absurd rfl hafter
  | next =>
    simp only [onSent]
    split
    · exact release_unlocked held _
    · exact release_unlocked held _
  | close =>
    simp only [onSent]
    split
    · exact release_unlocked held _
    · rw [teardown_locked]
      exact release_unlocked held _

/-- A coroutine that waits for a free lock can go on. -/
theorem handlerStep_free (c : ConnId) (draw : Uuid4) (hw : h.pc.wants ≠ .none) (hfree : ¬ s.Locked h.pc.wants) :
    ∃ out, handlerStep (A := Accepting K) L s c h .go draw = some out := by
  cases hpc : h.pc with
  | dbLock op =>
    rw [hpc] at hfree
    have hlock : ¬ s.dbLock = true := hfree
    simp only [handlerStep, hpc, if_neg hlock]
    exact ⟨_, rfl⟩
  | outboxPut r p =>
    rw [hpc] at hfree
    have hlock : ¬ (s.objs r).outboxLock = true := hfree
    simp only [handlerStep, hpc, if_neg hlock]
    exact ⟨_, rfl⟩
  | outboxGet r id =>
    rw [hpc] at hfree
    have hlock : ¬ (s.objs r).outboxLock = true := hfree
    simp only [handlerStep, hpc, if_neg hlock]
    split <;> exact ⟨_, rfl⟩
  | _ => rw [hpc] at hw; exact absurd rfl hw

/-- A lock that is taken is the one of exactly one coroutine, which sends. -/
theorem locked_holder (hl : held ≠ .dbLock → S.Latched) (hdb : held = .dbLock → dbMutex.Sound S)
    (hlock : S.server.Locked held) :
    ∃ c', (S.tasks c').SendsUnder held ∧ ∀ c'', (S.tasks c'').SendsUnder held → c'' = c' := by
  have hiff : ∀ {t : Task (Accepting K)}, held ≠ .none →
      (t.SendsUnder held ↔ ∃ h, t = .handler h ∧ h.pc.held = held) := by
    intro t hheld
    cases t with
    | handler h =>
      constructor
      · rintro ⟨after, hpc⟩
        exact ⟨h, rfl, by rw [hpc]; rfl⟩
      · rintro ⟨h', ht, hpc⟩
        cases ht
        simp only [Task.SendsUnder]
        cases hp : h.pc with
        | sendall held' after =>
          rw [hp] at hpc
          exact ⟨after, by rw [← hpc]; rfl⟩
        | _ => rw [hp] at hpc; exact absurd hpc.symm hheld
    | _ => exact iff_of_false id fun ⟨_, ht, _⟩ => (by cases ht)
  cases held with
  | none => exact hlock.elim
  | dbLock =>
    have hholds : ∀ c, (S.tasks c).SendsUnder .dbLock ↔ dbMutex.holds S c := by
      intro c
      rw [hiff (by simp)]
      show _ ↔ (S.tasks c).HoldsDb
      cases S.tasks c with
      | handler g => simp [Task.HoldsDb]
      | _ => simp [Task.HoldsDb]
    have hdb := hdb rfl
    obtain ⟨c', hc'⟩ := hdb.held hlock
    exact ⟨c', (hholds c').2 hc', fun c'' hc'' => hdb.unique _ _ ((hholds c'').1 hc'') hc'⟩
  | outboxLock r =>
    have hholds : ∀ c, (S.tasks c).SendsUnder (.outboxLock r) ↔ (outboxMutex r).holds S c := by
      intro c
      rw [hiff (by simp)]
      show _ ↔ (S.tasks c).HoldsOutbox r
      cases S.tasks c with
      | handler g => simp [Task.HoldsOutbox]
      | _ => simp [Task.HoldsOutbox]
    have hmutex := (hl (by simp)).outbox r
    obtain ⟨c', hc'⟩ := hmutex.held hlock
    exact ⟨c', (hholds c').2 hc', fun c'' hc'' => hmutex.unique _ _ ((hholds c'').1 hc'') hc'⟩

end

/-! ## A lock that is lost -/

/-- A payload for one of the commands about the database. -/
def ForDb (data : Bytes) : Prop := ∃ type_ value op, data = type_ :: value ∧ command type_ = .db op

/-- A step that leaves the database alone: no operation on it runs and no request about it is
    answered. -/
structure LeavesDb (x : Lts.Shown (Sys K) DbAct (Obs K)) : Prop where
  db : x.after.server.db = x.before.server.db
  server : ∃ a, x.act = .server a
  answered : ∀ c u data reply, .answered c u data reply ∈ x.obs → ¬ ForDb data

section
variable {s : Server K} {S S' : Sys K} {c : ConnId} {h : Handler} {i : Input} {draw : Uuid4}
  {out : Outcome K (Accepting K)} {o : List (Obs K)} {xs ys : List (Lts.Shown (Sys K) DbAct (Obs K))}
  {x : Lts.Shown (Sys K) DbAct (Obs K)}

theorem release_db (s : Server K) (held : Held) : (s.release held).db = s.db := by
  cases held <;> rfl

theorem Sends.same_db {s' : Server K} {h' : Handler} {reply : Except PyErr Bytes} {held : Held}
    {after : After} (hs : Sends L s' c h' reply held after out) (hdb : s'.db = s.db) :
    out.1.db = s.db := by
  rcases hs.server with he | he
  · rw [he, hdb]
  · rw [he, release_db, hdb]

/-- While the lock is taken a handler leaves the database alone. -/
theorem Move.same_db (hm : Move L s c h i draw out) (hlock : s.dbLock = true) : out.1.db = s.db := by
  cases hm with
  | still => rfl
  | refuse _ _ _ _ hs => exact hs.same_db L rfl
  | payload hr hu hid hv hin hp =>
    rename_i r h' frame rem os out
    have hdb := (dispatch_aside (s.modify r Client.received) h.uuid h'.data draw).db
    cases hp with
    | reply _ hs => exact hs.same_db L hdb
    | wait => exact hdb
    | raise => exact hdb
    | bye => exact (teardown_aside _ _).db.trans hdb
  | db _ _ hfree _ => rw [hlock] at hfree; cases hfree
  | inboxGet _ _ _ hs => exact hs.same_db L rfl
  | outboxPut _ _ _ hs => exact hs.same_db L rfl
  | outboxNone _ _ _ _ hs => exact hs.same_db L rfl
  | outboxGet _ _ _ _ hs => exact hs.same_db L rfl
  | sent => exact release_db _ _
  | close => exact (teardown_aside _ _).db.trans (release_db _ _)
  | die => exact release_db _ _

/-- While the lock is taken no request about the database is answered. -/
theorem Move.not_forDb (hh : h.Wf s) (hm : Move L s c h i draw out) (hlock : s.dbLock = true)
    {c' : ConnId} {u : PyStr} {data reply : Bytes} (ha : .answered c' u data reply ∈ out.2.2) :
    ¬ ForDb data := by
  rintro ⟨type_, value, op, rfl, hcmd⟩
  obtain ⟨-, -, ⟨-, r, -, hd⟩ | ⟨hq, -, hdata, hreply⟩⟩ := hm.answered L ha
  · simp only [dispatch, hcmd] at hd
    cases hd
  · obtain ⟨t, v, hdata', hpc⟩ := hh.waits hq
    rw [← hdata] at hdata'
    cases hdata'
    rcases hpc with ⟨op', -, hpc⟩ | ⟨r, hc, -⟩ | ⟨r, p, hc, -⟩ | ⟨r, hc, -⟩
    · rw [hpc, Await.reply, if_pos hlock] at hreply
      cases hreply
    · rw [hcmd] at hc; cases hc
    · rw [hcmd] at hc; cases hc
    · rw [hcmd] at hc; cases hc

theorem Joins.not_answered {a : Accepting K} (hj : Joins s c draw a out) {c' : ConnId} {u : PyStr}
    {data reply : Bytes} : .answered c' u data reply ∉ out.2.2 := by
  have hshut : ∀ {os os' : List (Obs K)} {x : Obs K}, Shut os → Shut os' → x ≠ .answered c' u data reply →
      .answered c' u data reply ∉ os ++ x :: os' := by
    intro os os' x hos hos' hx ha
    rcases List.mem_append.1 ha with ha | ha
    · exact hos _ ha
    · rcases List.mem_cons.1 ha with ha | ha
      · exact hx ha.symm
      · exact hos' _ ha
  cases hj with
  | still _ hos => exact fun ha => hos _ ha
  | login _ hos hos' => exact hshut hos hos' (by simp)
  | attach _ _ hos hos' => exact hshut hos hos' (by simp)
  | unknown => simp
  | finish => simp

/-- A step of the server while the lock is lost. -/
theorem lost_step (hS : S.Sound) (hlost : dbMutex.Lost S) {a : DbAct}
    (hstep : S.dbStep L a = some (S', o)) : dbMutex.Lost S' ∧ LeavesDb ⟨S, a, o, S'⟩ := by
  have hlock : S.server.dbLock = true := hlost.1
  refine ⟨?_, ?_⟩
  · obtain ⟨-, hmutex⟩ | ⟨-, hfree, -⟩ := dbStep_locks L hS.tidy hstep
    · exact hlost.step hmutex
    · rw [hlock] at hfree; cases hfree
  · cases a with
    | server b =>
      have hstep : S.step L b = some (S', o) := hstep
      suffices hS' : S'.server.db = S.server.db ∧
          ∀ c u data reply, .answered c u data reply ∈ o → ¬ ForDb data from
        ⟨hS'.1, ⟨b, rfl⟩, hS'.2⟩
      cases (step_step L hS.tidy hstep).1 with
      | connect => exact ⟨rfl, fun _ _ _ _ h => (by cases h)⟩
      | join htask hj => exact ⟨hj.aside.db, fun _ _ _ _ ha => absurd ha hj.not_answered⟩
      | move htask hm =>
        exact ⟨hm.same_db L hlock, fun _ _ _ _ ha => hm.not_forDb L (hS.handlers _ _ htask) hlock ha⟩
      | admin => exact ⟨(admin_aside _ _).db, fun _ _ _ _ h => (by cases h)⟩
    | dict op fault => simp [Sys.dbStep, hlock] at hstep
    | call op fault => simp [Sys.dbStep, hlock] at hstep
    | broken c e =>
      simp only [Sys.dbStep, hlock, if_true] at hstep
      split at hstep
      · split at hstep <;> cases hstep
      · cases hstep

/-- **A dict-style operation that raises stops the database.**  The lock it took is never given
    back: in the rest of the run no operation on the database is executed, no request about it is
    answered, and the database stays as it is. -/
theorem lost_lock_stops {password : Bytes} {keep : Bool}
    (hrun : Lts.Run (Lts.Guarded (Lts.shown (Sys.dbStep L)) (Lts.Showing fun _ _ _ => True))
      (.init password keep) S (xs ++ x :: ys)) (hx : ¬ x.act.Returns x.before) :
    S.server.dbLock = true ∧ ∀ y ∈ ys, LeavesDb y := by
  -- the steps after any one that raised
  suffices hall : S.Sound ∧ ((dbMutex.Sound S ∧ ∀ y ∈ xs ++ x :: ys, y.act.Returns y.before) ∨
      dbMutex.Lost S) ∧ ∀ xs' x' ys', xs ++ x :: ys = xs' ++ x' :: ys' → ¬ x'.act.Returns x'.before →
        dbMutex.Lost S ∧ ∀ y ∈ ys', LeavesDb y by
    obtain ⟨hlost, hys⟩ := hall.2.2 xs x ys rfl hx
    exact ⟨hlost.1, hys⟩
  refine hrun.inv (I := fun S zs => S.Sound ∧
    ((dbMutex.Sound S ∧ ∀ y ∈ zs, y.act.Returns y.before) ∨ dbMutex.Lost S) ∧
    ∀ xs' x' ys', zs = xs' ++ x' :: ys' → ¬ x'.act.Returns x'.before →
      dbMutex.Lost S ∧ ∀ y ∈ ys', LeavesDb y) ?_ ?_
  · refine ⟨sound_init _ _, .inl ⟨⟨fun h => (by cases h), fun _ h => h.elim, fun _ _ h => h.elim⟩,
      by simp⟩, fun xs' x' ys' h => by simp at h⟩
  · rintro S S' zs new hpre ⟨hS, hlock, hI⟩ ⟨a, hs, -⟩
    obtain ⟨o, hstep, rfl⟩ := Lts.shown_step hs
    have hrun' := hpre.snoc ⟨a, hs, fun _ _ => trivial⟩
    obtain ⟨-, hlock'⟩ := run_locks L hrun'
    have hS' := dbStep_sound L hS hstep
    refine ⟨hS', hlock'.imp id fun h => h.1, fun xs' x' ys' heq hx' => ?_⟩
    rcases Linear.snoc_eq heq with ⟨rfl, rfl, rfl⟩ | ⟨ys'', rfl, heq'⟩
    · rcases hlock' with ⟨-, hall⟩ | ⟨hlost, -⟩
      · exact absurd (hall _ (by simp)) hx'
      · exact ⟨hlost, by simp⟩
    · obtain ⟨hlost, hys⟩ := hI xs' x' ys'' heq' hx'
      obtain ⟨hlost', hleaves⟩ := lost_step L hS hlost hstep
      refine ⟨hlost', fun y hy => ?_⟩
      rcases List.mem_append.1 hy with hy | hy
      · exact hys y hy
      · rw [List.mem_singleton] at hy
        subst hy
        exact hleaves

end

/-! ## A run on fixed inputs -/

/-- A missing key is indexed, and then a client asks for a value. -/
def indexThenGet : List DbAct :=
  .dict (.getitem [107]) none :: (loginActs 0 [0xC5] ++
    drawing sampleDraw 0 [.recv (stubPacket 0 2 [0x82, 107])]).map .server

/-- The client waits for good. -/
theorem lost_lock_stops_sample : ∃ (S : Sys ℕ) (ys : List (Lts.Shown (Sys ℕ) DbAct (Obs ℕ))),
    ys.length = 10 ∧ S.server.dbLock = true ∧ ∀ y ∈ ys, LeavesDb y := by
  have hexec : ((Lts.exec (Lts.shown (Sys.dbStep stub)) indexThenGet (.init [] false)).any
      fun x => x.2.length = 11 && x.2.head?.any fun y => ¬ y.act.Returns y.before) = true := by decide +kernel
  have halong : Lts.Along (Lts.shown (Sys.dbStep stub)) (Lts.Showing fun _ _ _ => True) indexThenGet
      (.init [] false) := by decide +kernel
  obtain ⟨⟨S, xs⟩, hS, hp⟩ := Option.any_eq_true _ _ |>.1 hexec
  simp only [Bool.and_eq_true, decide_eq_true_eq] at hp
  obtain ⟨x, hx, hno⟩ := Option.any_eq_true _ _ |>.1 hp.2
  obtain ⟨ys, rfl⟩ := List.head?_eq_some_iff.1 hx
  exact ⟨S, ys, Nat.succ.inj hp.1, @lost_lock_stops _ stub _ [] _ _ _ _ (Lts.exec_run hS halong)
    (of_decide_eq_true hno)⟩

end Pipebomb
