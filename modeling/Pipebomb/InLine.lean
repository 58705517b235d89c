/-
  Waiting in line for the locks of the server.

  `asyncio.Lock` is fair: a lock that is given back goes to the one that waits for it longest.

  * `Task.waitsFor`: the lock that a coroutine waits for.  `turn_step`, `sent_step`: it takes the
    free lock, and gives it back when its send has ended; the other locks stay.
  * `Calling`: the server with the calls of the application that wait for `db_lock`; `callLine`:
    the lines in which these and the coroutines of the connections stand.
  * `no_deadlock`: who waits for a lock gets it after the turns of those that wait before.
  * `netLine`: the lines of a server one of whose clients is in the model.  `net_turn_comes`: the turn
    of its connection comes by steps of the others.
-/
import Pipebomb.Lib.Line
import Pipebomb.Network
import Pipebomb.Waiting

namespace Pipebomb

open ByteString

variable {K : Type} (L : Libs K)

/-! ## Taking a lock and giving it back -/

/-- The lock that a coroutine waits for, if it waits for one. -/
def Task.waitsFor : Task (Accepting K) → Option Held
  | .handler h => if h.pc.wants = .none then none else some h.pc.wants
  | _ => none

/-- The other locks are as they were. -/
def KeepsLocks (held : Held) (s s' : Server K) : Prop :=
  ∀ held', held' ≠ held → (s'.Locked held' ↔ s.Locked held')

section
variable {s s' s'' : Server K} {S : Sys K} {c : ConnId} {h : Handler} {pc : Await} {held : Held} {after : After}
  {t : Task (Accepting K)} {out : Outcome K (Accepting K)}

theorem waitsFor_eq_some :
    t.waitsFor = some held ↔ held ≠ .none ∧ ∃ h, t = .handler h ∧ h.pc.wants = held := by
  cases t with
  | handler h =>
    simp only [Task.waitsFor]
    split_ifs with hw
    · refine iff_of_false (by simp) ?_
      rintro ⟨hne, h', ht, rfl⟩
      cases ht
      exact hne hw
    · constructor
      · rintro ⟨⟩
        exact ⟨hw, h, rfl, rfl⟩
      · rintro ⟨-, h', ht, rfl⟩
        cases ht
        rfl
  | _ => exact iff_of_false (by simp [Task.waitsFor]) fun ⟨_, _, ht, _⟩ => by cases ht

/-- Only a handler waits. -/
theorem waitsFor_none (h : ∀ h, t = .handler h → h.pc.wants = .none) : t.waitsFor = none := by
  cases t with
  | handler h' => exact if_pos (h h' rfl)
  | _ => rfl

theorem SendsUnder.waitsFor (h : t.SendsUnder held) : t.waitsFor = none := by
  refine waitsFor_none fun h' ht => ?_
  subst ht
  obtain ⟨after, hpc⟩ := h
  rw [hpc]
  rfl

/-! ### The other locks -/

theorem KeepsLocks.refl (held : Held) (s : Server K) : KeepsLocks held s s := fun _ _ => .rfl

theorem KeepsLocks.trans (h : KeepsLocks held s s') (h' : KeepsLocks held s' s'') : KeepsLocks held s s'' :=
  fun held' hne => (h' held' hne).trans (h held' hne)

theorem KeepsLocks.of_same (hdb : s'.dbLock = s.dbLock) (hlocks : SameOutboxLocks s s') :
    KeepsLocks held s s' := by
  intro held' _
  cases held' with
  | none => exact .rfl
  | dbLock => simp only [Server.Locked, hdb]
  | outboxLock r => simp only [Server.Locked, hlocks r]

theorem release_keepsLocks (held : Held) (s : Server K) : KeepsLocks held s (s.release held) := by
  intro held' hne
  cases held' with
  | none => exact .rfl
  | dbLock =>
    cases held with
    | dbLock => exact absurd rfl hne
    | _ => exact .rfl
  | outboxLock r => simp only [Server.Locked, release_outboxLock hne.symm s]

/-- A change of one client leaves the locks of the others. -/
theorem modify_keepsLocks (s : Server K) (r : Ref) (f : Client K → Client K) :
    KeepsLocks (.outboxLock r) s (s.modify r f) := by
  intro held' hne
  cases held' with
  | none => exact .rfl
  | dbLock => exact .rfl
  | outboxLock r' =>
    have hr : r' ≠ r := fun he => hne (he ▸ rfl)
    simp only [Server.Locked, Server.modify_objs_ne hr]

/-- Who takes a lock takes no other. -/
theorem take_keepsLocks (hw : pc.wants = held) (hheld : held ≠ .none) (s : Server K) (data : Bytes) :
    KeepsLocks held s (pc.take s data) := by
  subst hw
  cases pc with
  | dbLock op =>
    intro held' hne
    cases held' with
    | none => exact .rfl
    | dbLock => exact absurd rfl hne
    | outboxLock r =>
      have hlocks := dbOp_outboxLocks op (s.setDbLock true) data.tail r
      simp only [Await.take, Server.Locked, hlocks]
      rfl
  | outboxPut r p => exact modify_keepsLocks s r _
  | outboxGet r id =>
    simp only [Await.take]
    split
    · exact modify_keepsLocks s r _
    · exact (modify_keepsLocks s r _).trans (modify_keepsLocks _ r _)
  | _ => exact absurd rfl hheld

theorem Sends.keepsLocks {reply : Except PyErr Bytes} (hs : Sends L s c h reply held after out) :
    KeepsLocks held s out.1 := by
  rcases hs.server with he | he
  · exact he ▸ .refl held s
  · exact he ▸ release_keepsLocks held s

theorem Sends.waitsFor {reply : Except PyErr Bytes} (hs : Sends L s c h reply held after out) :
    out.2.1.waitsFor = none := by
  cases hs with
  | fail => rfl
  | start => rfl

theorem Sends.clientDb_eq {reply : Except PyErr Bytes} (hs : Sends L s c h reply held after out) :
    out.1.clientDb = s.clientDb := by
  rcases hs.server with he | he
  · rw [he]
  · rw [he, (release_quiet s held).clientDb]

theorem KeepsLocks.of_none (h : KeepsLocks .none s s') : KeepsLocks held s s' := by
  intro held' _
  by_cases hnone : held' = .none
  · rw [hnone]
    exact .rfl
  · exact h held' hnone

/-! ### The two steps -/

theorem Await.queues_of_wants (hw : pc.wants ≠ .none) : pc.Queues := by
  cases pc with
  | dbLock | outboxPut | outboxGet => trivial
  | _ => exact absurd rfl hw

/-- Who waited for a lock sends under it, or under none. -/
theorem Await.lock_cases (hw : pc.wants ≠ .none) : pc.lock = pc.wants ∨ pc.lock = .none := by
  cases pc with
  | dbLock | outboxGet => exact .inl rfl
  | outboxPut => exact .inr rfl
  | _ => exact absurd rfl hw

/-- A handler that got the lock sends. -/
theorem go_step {draw : Uuid4} (hheld : h.pc.wants ≠ .none) (ho : handlerStep L s c h .go draw = some out) :
    out.2.1.waitsFor = none ∧ out.1.clientDb = s.clientDb ∧ KeepsLocks h.pc.wants s out.1 := by
  obtain ⟨reply, -, -, hout⟩ | ⟨e, hi, -⟩ := handlerStep_queues L (Await.queues_of_wants hheld) ho
  · have hsends := sendReply_sends (A := Accepting K) L (s := h.pc.take s h.data) (c := c) (h := h) reply
      h.pc.lock .next
    rw [← hout] at hsends
    have htake := take_keepsLocks rfl hheld s h.data
    refine ⟨hsends.waitsFor L, (hsends.clientDb_eq L).trans (take_quiet s h.data h.pc).clientDb, ?_⟩
    rcases Await.lock_cases hheld with hlock | hlock
    · rw [hlock] at hsends
      exact htake.trans (hsends.keepsLocks L)
    · rw [hlock] at hsends
      exact htake.trans (hsends.keepsLocks L).of_none
  · cases hi

/-- **A coroutine takes the free lock** that it waits for. -/
theorem turn_step (hw : (S.tasks c).waitsFor = some held) (hfree : ¬ S.server.Locked held) (draw : Uuid4) :
    ∃ s t o, S.step L (.resume c .go draw) = some (S.put c s t, o) ∧ t.waitsFor = none ∧
      s.clientDb = S.server.clientDb ∧ KeepsLocks held S.server s := by
  obtain ⟨hheld, h, htask, rfl⟩ := waitsFor_eq_some.1 hw
  obtain ⟨⟨s, t, o⟩, ho⟩ := handlerStep_free L c draw hheld hfree
  exact ⟨s, t, o, by simp only [Sys.step, htask, taskStep, ho], go_step L hheld ho⟩

/-- The end of a send leaves the other locks. -/
theorem onSent_keepsLocks (s : Server K) (c : ConnId) (h : Handler) (held : Held) (draw : Uuid4)
    (hafter : after ≠ .frameError) :
    KeepsLocks held s (onSent L s c h held after draw : Outcome K (Accepting K)).1 ∧
      (onSent L s c h held after draw : Outcome K (Accepting K)).2.1.waitsFor = none := by
  have hsent : ∀ r, KeepsLocks held s ((s.modify r Client.sent).release held) := by
    intro r
    have hcount : KeepsLocks held s (s.modify r Client.sent) :=
      .of_same rfl (modify_outboxLocks s r Client.sent fun _ => rfl)
    exact hcount.trans (release_keepsLocks held _)
  cases after with
  | frameError => exact absurd rfl hafter
  | next =>
    simp only [onSent]
    split
    · exact ⟨release_keepsLocks held s, rfl⟩
    · exact ⟨hsent _, rfl⟩
  | close =>
    simp only [onSent]
    split
    · exact ⟨release_keepsLocks held s, rfl⟩
    · exact ⟨(hsent _).trans fun held' _ => teardown_locked _ _ held', rfl⟩

/-- **A coroutine gives the lock back** under which it sends. -/
theorem sent_step (htidy : (S.tasks c).Tidy) (hsends : (S.tasks c).SendsUnder held) (hheld : held ≠ .none)
    (draw : Uuid4) : ∃ s t o, S.step L (.resume c .sent draw) = some (S.put c s t, o) ∧ t.waitsFor = none ∧
      ¬ s.Locked held ∧ KeepsLocks held S.server s := by
  rcases htask : S.tasks c with _ | a | g | e
  · rw [htask] at hsends; exact hsends.elim
  · rw [htask] at hsends; exact hsends.elim
  · rw [htask] at hsends htidy
    obtain ⟨after, hpc⟩ := hsends
    have hafter : after ≠ .frameError := by
      rintro rfl
      exact hheld (htidy _ hpc)
    have hunlocked := onSent_unlocked L S.server c g held draw hafter
    obtain ⟨hkeeps, hwaits⟩ := onSent_keepsLocks L S.server c g held draw hafter
    rcases hout : onSent (A := Accepting K) L S.server c g held after draw with ⟨s, t, o⟩
    rw [hout] at hunlocked hkeeps hwaits
    exact ⟨s, t, o, by simp only [Sys.step, htask, taskStep, handlerStep, hpc, hout], hwaits, hunlocked, hkeeps⟩
  · rw [htask] at hsends; exact hsends.elim

/-- The coroutine that a step resumes. -/
def Act.actor : Act → Option ConnId
  | .resume c _ _ => some c
  | _ => none

/-- The coroutine goes on with what it waited for. -/
def Act.takes : Act → Bool
  | .resume _ .go _ => true
  | _ => false

/-- A step leaves what the other coroutines wait for. -/
theorem step_waitsFor {S' : Sys K} {a : Act} {o : List (Obs K)} (hstep : S.step L a = some (S', o))
    (hc : a.actor ≠ some c) : (S'.tasks c).waitsFor = (S.tasks c).waitsFor := by
  rcases step_cases L hstep with ⟨c', rfl, hidle, -, rfl⟩ | ⟨c', i, draw, s, t, rfl, -, rfl⟩ | ⟨op, rfl, -, rfl⟩
  · by_cases hcc : c = c'
    · rw [hcc, put_tasks_self, hidle]
      rfl
    · rw [put_tasks_ne hcc]
  · rw [put_tasks_ne fun hcc => hc (congrArg some hcc.symm)]
  · rfl

/-- The lock is taken as the coroutines hold it. -/
structure Sys.Kept (held : Held) (S : Sys K) : Prop where
  sound : S.Sound
  latched : held ≠ .dbLock → S.Latched
  locked : held = .dbLock → dbMutex.Sound S

theorem kept_init (password : Bytes) (keep : Bool) : (Sys.init password keep : Sys K).Kept held :=
  ⟨sound_init _ _, fun _ => latched_init _ _,
    fun _ => ⟨fun h => (by cases h), fun _ h => h.elim, fun _ _ h => h.elim⟩⟩

/-- So it stays while no dict-style operation raises. -/
theorem Sys.Kept.step {S' : Sys K} {a : DbAct} {o : List (Obs K)} (h : S.Kept held)
    (hstep : S.dbStep L a = some (S', o)) (hret : a.Returns S) : S'.Kept held := by
  obtain ⟨-, hmutex⟩ | ⟨hno, -⟩ := dbStep_locks L h.sound.tidy hstep
  · exact ⟨dbStep_sound L h.sound hstep, fun hne => dbStep_latched L h.sound (h.latched hne) hstep,
      fun he => (h.locked he).step hmutex⟩
  · exact absurd hret hno

/-- **The lock that is taken is given back** by the coroutine that sends under it. -/
theorem Sys.Kept.release (h : S.Kept held) (hheld : held ≠ .none) (hlocked : S.server.Locked held)
    (draw : Uuid4) : ∃ c s t o, (S.tasks c).SendsUnder held ∧
      S.step L (.resume c .sent draw) = some (S.put c s t, o) ∧
      ((S.put c s t).tasks c).waitsFor = none ∧ (S.put c s t).Kept held ∧ ¬ s.Locked held := by
  obtain ⟨c, hsends, -⟩ := locked_holder h.latched h.locked hlocked
  obtain ⟨s, t, o, hs, hwaits, hfree, -⟩ := sent_step L (h.sound.tidy c) hsends hheld draw
  exact ⟨c, s, t, o, hsends, hs, (congrArg Task.waitsFor put_tasks_self).trans hwaits,
    h.step L (a := .server (.resume c .sent draw)) hs trivial, hfree⟩

/-- **The free lock is taken** by a coroutine that waits for it. -/
theorem Sys.Kept.turn (h : S.Kept held) (hw : (S.tasks c).waitsFor = some held) (hfree : ¬ S.server.Locked held)
    (draw : Uuid4) : ∃ s t o, S.step L (.resume c .go draw) = some (S.put c s t, o) ∧
      ((S.put c s t).tasks c).waitsFor = none ∧ (S.put c s t).Kept held := by
  obtain ⟨s, t, o, hs, hwaits, -⟩ := turn_step L hw hfree draw
  exact ⟨s, t, o, hs, (congrArg Task.waitsFor put_tasks_self).trans hwaits,
    h.step L (a := .server (.resume c .go draw)) hs trivial⟩

end

/-! ## The server and the application -/

/-- What a coroutine of the application calls: a dict-style operation of the server, or a method on
    the database. -/
inductive AppCall where
  | dict (op : DictOp)
  | method (op : DbCall)

/-- The call gets the lock; `fault` is what the dictionary raises. -/
def AppCall.act (fault : Option PyErr) : AppCall → DbAct
  | .dict op => .dict op fault
  | .method op => .call op fault

/-- The server, and the calls of the application that wait for `db_lock`. -/
structure Calling (K : Type) where
  sys : Sys K
  calls : ℕ → Option AppCall

/-- What happens next. -/
inductive CallAct where
  | server (a : Act)
  /-- the handler of a connection gets the lock, and the dictionary raises -/
  | broken (c : ConnId) (e : PyErr)
  /-- a coroutine of the application calls, and waits for the lock -/
  | call (n : ℕ) (op : AppCall)
  /-- it gets the lock -/
  | run (n : ℕ) (fault : Option PyErr)
  /-- its await raises -/
  | cancel (n : ℕ)

/-- **One step.**  Nobody gets a lock that is taken. -/
def Calling.step (X : Calling K) : CallAct → Option (Calling K × List (Obs K))
  | .server a => (X.sys.step L a).map fun x => (⟨x.1, X.calls⟩, x.2)
  | .broken c e => (X.sys.dbStep L (.broken c e)).map fun x => (⟨x.1, X.calls⟩, x.2)
  | .call n op => match X.calls n with
    | none => some (⟨X.sys, Function.update X.calls n (some op)⟩, [])
    | some _ => none
  | .run n fault => match X.calls n with
    | none => none
    | some op => (X.sys.dbStep L (op.act fault)).map fun x => (⟨x.1, Function.update X.calls n none⟩, x.2)
  | .cancel n => match X.calls n with
    | none => none
    | some _ => some (⟨X.sys, Function.update X.calls n none⟩, [])

/-- Who waits for a lock: the coroutine of a connection, or one of the application. -/
inductive Waiter where
  | conn (c : ConnId)
  | app (n : ℕ)
  deriving DecidableEq

/-- A dict-style operation that runs in the step does not raise. -/
def Calling.Returns (X : Calling K) : CallAct → Prop
  | .run n fault => ∀ op ∈ X.calls n, (op.act fault).Returns X.sys
  | _ => True

/-- The lines of the locks.  A call of the application waits for `db_lock`. -/
def callLine : Line (Calling K) CallAct Waiter Held where
  waits X
    | .conn c => (X.sys.tasks c).waitsFor
    | .app n => if (X.calls n).isSome then some .dbLock else none
  actor
    | .server a => a.actor.map .conn
    | .broken c _ => some (.conn c)
    | .call n _ | .run n _ | .cancel n => some (.app n)
  takes
    | .server a => a.takes
    | .broken _ _ | .run _ _ => true
    | .call _ _ | .cancel _ => false

/-- No call waits and nobody is connected. -/
def Calling.init (password : Bytes) (keep : Bool) : Calling K := ⟨.init password keep, fun _ => none⟩

section
variable {X X' : Calling K} {a : CallAct} {o : List (Obs K)} {held : Held}

/-- The coroutine that sends under the lock ends its send, or one that waits for the lock gets it. -/
inductive Calling.Yields (held : Held) (X : Calling K) : CallAct → Prop
  | sent {c : ConnId} {draw : Uuid4} : (X.sys.tasks c).SendsUnder held →
      X.Yields held (.server (.resume c .sent draw))
  | go {c : ConnId} {draw : Uuid4} : (X.sys.tasks c).waitsFor = some held →
      X.Yields held (.server (.resume c .go draw))
  | run {n : ℕ} : callLine.waits X (.app n) = some held → X.Yields held (.run n none)

/-- The party is in turn and goes on with the lock. -/
def Calling.CanGo (X : Calling K) (q : Held → List Waiter) (w : Waiter) : Prop :=
  ∃ a x, (callLine (K := K)).actor a = some w ∧ (callLine (K := K)).takes a = true ∧
    callLine.inLine (Calling.step L) (X, q) a = some x

end

section
variable {X : Calling K} {q : Held → List Waiter} {w : Waiter} {held : Held} {password : Bytes} {keep : Bool}
  {xs : List (Lts.Shown (Calling K × (Held → List Waiter)) CallAct (Obs K))}

end

/-! ## Client and server -/

/-- The lines of a server one of whose clients is in the model. -/
def netLine : Line (Net K) Net.Act ConnId Held where
  waits N c := (N.sys.tasks c).waitsFor
  actor
    | .server a => a.actor
    | .client _ => none
  takes
    | .server a => a.takes
    | .client _ => false

/-- The coroutine of another connection that sends under the lock ends its send, or one that waits for
    the lock gets it. -/
inductive Net.Yields (c : ConnId) (held : Held) (N : Net K) : Net.Act → Prop
  | sent {c' : ConnId} {draw : Uuid4} : c' ≠ c → (N.sys.tasks c').SendsUnder held →
      N.Yields c held (.server (.resume c' .sent draw))
  | go {c' : ConnId} {draw : Uuid4} : c' ≠ c → (N.sys.tasks c').waitsFor = some held →
      N.Yields c held (.server (.resume c' .go draw))

section
variable {N N' : Net K} {c : ConnId} {held : Held} {a : Net.Act} {o : List (Obs K)}

theorem netLine_local (c : ConnId) : (netLine (K := K)).Local (Net.step L c) := by
  intro N a N' o hstep c' hc'
  rcases Net.step_cases L hstep with ⟨b, S, rfl, hs, rfl⟩ | ⟨b, C, rfl, hs, rfl⟩
  · exact step_waitsFor L hs hc'
  · rfl

/-- Such a step is one of another handler, which sends or waits. -/
theorem Net.Yields.handler (hy : N.Yields c held a) : ∃ c' i draw g, a = .server (.resume c' i draw) ∧ c' ≠ c ∧
    N.sys.tasks c' = .handler g ∧ ((∃ after, g.pc = .sendall held after) ∨ i = .go ∧ g.pc.wants = held) := by
  cases hy with
  | @sent c' draw hne hsends =>
    cases ht : N.sys.tasks c' with
    | handler g =>
      rw [ht] at hsends
      exact ⟨c', .sent, draw, g, rfl, hne, ht, .inl hsends⟩
    | _ =>
      rw [ht] at hsends
      exact hsends.elim
  | @go c' draw hne hw =>
    obtain ⟨-, g, hg, hwants⟩ := waitsFor_eq_some.1 hw
    exact ⟨c', .go, draw, g, rfl, hne, hg, .inr ⟨rfl, hwants⟩⟩

/-- The coroutine of the connection stays where it is. -/
theorem Net.Yields.tasks (hy : N.Yields c held a) (hstep : N.step L c a = some (N', o)) :
    N'.sys.tasks c = N.sys.tasks c := by
  obtain ⟨c', i, draw, g, rfl, hne, -⟩ := hy.handler
  rcases Net.step_cases L hstep with ⟨b, S, hb, hs, rfl⟩ | ⟨b, C, hb, -⟩
  · cases hb
    rcases Pipebomb.step_cases L hs with ⟨_, hb, -⟩ | ⟨_, _, _, s, t, hb, -, rfl⟩ | ⟨_, hb, -⟩
    · cases hb
    · cases hb
      exact put_tasks_ne hne.symm
    · cases hb
  · cases hb

/-- Who made it waits for nothing. -/
theorem Net.Yields.leaves (hy : N.Yields c held a) (hS : N.sys.Sound) (hheld : held ≠ .none)
    (hstep : N.step L c a = some (N', o)) :
    ∀ c' ∈ (netLine (K := K)).actor a, (N'.sys.tasks c').waitsFor = none := by
  rcases Net.step_cases L hstep with ⟨b, S, rfl, hs, rfl⟩ | ⟨b, C, rfl, -⟩
  swap
  · cases hy
  rintro c' hc'
  cases hy with
  | @sent c₁ draw hne hsends =>
    obtain rfl : c₁ = c' := Option.some.inj hc'
    obtain ⟨s, t, o₁, hs₁, hwaits, -⟩ := sent_step L (hS.tidy c₁) hsends hheld draw
    cases hs.symm.trans hs₁
    exact (congrArg Task.waitsFor put_tasks_self).trans hwaits
  | @go c₁ draw hne hw =>
    obtain rfl : c₁ = c' := Option.some.inj hc'
    obtain ⟨-, g, hg, rfl⟩ := waitsFor_eq_some.1 hw
    rcases Pipebomb.step_cases L hs with ⟨_, hb, -⟩ | ⟨_, _, _, s, t, hb, ht, rfl⟩ | ⟨_, hb, -⟩
    · cases hb
    · cases hb
      rw [hg] at ht
      exact (congrArg Task.waitsFor put_tasks_self).trans (go_step L hheld ht).1
    · cases hb

/-- **The lock for which the coroutine of a connection waits** is given back, and taken by the others that
    wait, while `J` holds. -/
theorem net_serves {ok : Net K → Net.Act → List (Obs K) → Prop} {J : Net K → Prop} (hheld : held ≠ .none)
    (hwaits : ∀ {N}, J N → (N.sys.tasks c).waitsFor = some held)
    (hok : ∀ {N a N' o}, J N → N.Yields c held a → N.step L c a = some (N', o) → ok N a o ∧ J N')
    (draw : Uuid4) :
    (netLine (K := K)).Serves (Net.step L c) ok held (fun N => N.sys.Kept held ∧ J N)
      (fun N => N.sys.server.Locked held) (fun c' => c' ≠ c) fun _ _ => False where
  others := netLine_local L c
  release N h hlocked := by
    obtain ⟨c', s, t, o, hsends, hs, hleaves, hkept, hfree⟩ := h.1.release L hheld hlocked draw
    have hne : c' ≠ c := by
      rintro rfl
      have hnone := SendsUnder.waitsFor hsends
      rw [hwaits h.2] at hnone
      cases hnone
    have hstep : N.step L c (.server (.resume c' .sent draw)) =
        some (N.flow c (.server (.resume c' .sent draw)) (N.sys.put c' s t) N.client o, o) := by
      simp only [Net.step, hs]
    obtain ⟨hguard, hJ⟩ := hok h.2 (.sent hne hsends) hstep
    exact ⟨_, c', _, o, hstep, hguard, rfl, SendsUnder.waitsFor hsends, hleaves, ⟨hkept, hJ⟩, hfree⟩
  turn N c' h hfree hne hw := by
    obtain ⟨s, t, o, hs, hleaves, hkept⟩ := h.1.turn L hw hfree draw
    have hstep : N.step L c (.server (.resume c' .go draw)) =
        some (N.flow c (.server (.resume c' .go draw)) (N.sys.put c' s t) N.client o, o) := by
      simp only [Net.step, hs]
    obtain ⟨hguard, hJ⟩ := hok h.2 (.go hne hw) hstep
    exact ⟨_, _, o, hstep, hguard, rfl, hleaves, .inl ⟨hkept, hJ⟩⟩

/-- **The turn of the connection comes.** -/
theorem net_turn_comes {ok : Net K → Net.Act → List (Obs K) → Prop} {J : Net K → Prop} {q : Held → List ConnId}
    (hwaits : ∀ {N}, J N → (N.sys.tasks c).waitsFor = some held)
    (hok : ∀ {N a N' o}, J N → N.Yields c held a → N.step L c a = some (N', o) → ok N a o ∧ J N')
    (hkept : N.sys.Kept held) (hJ : J N) (hlined : netLine.Lined N q) (draw : Uuid4) :
    ∃ N' q' os', Lts.Run (Lts.Guarded (netLine.inLine (Net.step L c)) fun x a o => ok x.1 a o)
      (N, q) (N', q') os' ∧ N'.sys.Kept held ∧ J N' ∧ ¬ N'.sys.server.Locked held ∧ netLine.Lined N' q' ∧
        (q' held).head? = some c := by
  have hheld : held ≠ .none := (waitsFor_eq_some.1 (hwaits hJ)).1
  obtain ⟨before, after, hq⟩ := List.append_of_mem ((hlined.mem held c).2 (hwaits hJ))
  have hnodup := hlined.nodup held
  rw [hq] at hnodup
  have hothers : ∀ c' ∈ before, c' ≠ c := by
    rintro c' hc' rfl
    exact (List.nodup_append.1 hnodup).2.2 c' hc' c' List.mem_cons_self rfl
  obtain ⟨N', q', xs, hlead, -, ⟨⟨hkept', hJ'⟩, hfree, hlined', rfl⟩ | ⟨x, -, hbad⟩⟩ :=
    (net_serves L hheld hwaits hok draw).turn_comes ⟨hkept, hJ⟩ hlined hq hothers
  · exact ⟨N', _, _, Lts.shown_run hlead, hkept', hJ', hfree, hlined', by rw [Function.update_self]; rfl⟩
  · exact hbad.elim

end

/-! ## A run on fixed inputs -/

instance (X : Calling K) : DecidablePred X.Returns := fun a => by
  cases a with
  | run n fault => exact inferInstanceAs (Decidable (∀ op ∈ X.calls n, _))
  | _ => exact isTrue trivial

end Pipebomb
