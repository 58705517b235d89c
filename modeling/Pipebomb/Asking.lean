/-
  A client that waits for the end of one operation.

  * `Outstanding`: an operation was called over an honest network, and nothing else was called since.
  * `Handler.Attends`: the coroutine that serves the operation; `handlerStep_attended` is its step lemma.
  * `Asking`: where client and server stand until the operation ends (`Net.Ended`); `Asking.step` is the
    step lemma, `Outstanding.asking` the run lemma.
-/
import Pipebomb.GetReturns
import Pipebomb.InLine

namespace Pipebomb

open ByteString

variable {K : Type} (L : Libs K)

/-! ## The coroutine -/

/-- The coroutine on its way to the payload, with it, or behind it. -/
inductive Handler.Attends (data : Bytes) (h : Handler) : Prop
  | start : h.pc = .start → Attends data h
  | sleep : h.pc = .sleep → Attends data h
  | recv : h.pc = .recv → packetFraming.cut h.receiveBuffer = .more → Attends data h
  | queues : h.pc.Queues → h.data = data → Attends data h
  | sending {held : Held} : h.pc = .sendall held .next → Attends data h

/-- The coroutine ended; without an exception only after BYE. -/
def Task.Ends (data : Bytes) (t : Task (Accepting K)) : Prop :=
  ∃ e, t = .over e ∧ (e = none → ∃ type_ value, data = type_ :: value ∧ command type_ = .bye)

/-- The reply to the payload was built. -/
def Replied (c : ConnId) (data : Bytes) (o : List (Obs K)) : Prop :=
  ∃ k n reply u, built L (.server c) o = [(k, n, reply)] ∧ .answered c u data reply ∈ o

/-- How far the coroutine may be from the payload after a step. -/
def Await.next : Await → ℕ
  | .start | .sendall _ _ => 3
  | .sleep | .recv => 2
  | _ => 0

/-- **What a step of the coroutine does**: it ends, replies, or gets nearer to the payload. -/
inductive Attended (c : ConnId) (data : Bytes) (d : ℕ) (out : Outcome K (Accepting K)) : Prop
  | ends : out.2.1.Ends data → Attended c data d out
  | replied {h : Handler} : out.2.1 = .handler h → h.Attends data → Replied L c data out.2.2 →
      Attended c data d out
  | goes {h : Handler} : out.2.1 = .handler h → h.Attends data → h.pc.distance ≤ d →
      built L (.server c) out.2.2 = [] → Attended c data d out

section
variable {s : Server K} {c : ConnId} {h : Handler} {xs : List (K × ℕ × Bytes)} {j n m d : ℕ} {e : ServerEnd K}
  {k : K} {feed data : Bytes} {draw : Uuid4} {held : Held} {i : Input} {out : Outcome K (Accepting K)}

theorem raised_ends (s : Server K) (held : Held) (e : PyErr) :
    (raised s held e : Outcome K (Accepting K)).2.1.Ends data := ⟨some e, rfl, fun h => by cases h⟩

/-- A reply is built, or the coroutine raises. -/
theorem sendPacket_attended (hl : s.Linked h.uuid k n m) (reply : Bytes) :
    Attended L c h.data d (sendPacket L s c h reply held .next) := by
  obtain ⟨cl, hcl, hk, rfl, -⟩ := hl
  simp only [sendPacket, hcl, hk]
  rcases tally_construct L (.server c) k cl.txNonce reply with ⟨hp, ht⟩ | ⟨e, hp, -⟩
  · rw [hp]
    have hb : built L (.server c) (encryptCall (.server c) reply (some k) cl.txNonce) =
        [(k, cl.txNonce, reply)] := congrArg Tally.built ht
    refine .replied (h := { h with pc := .sendall held .next }) rfl (.sending rfl)
      ⟨k, cl.txNonce, reply, h.uuid, ?_, ?_⟩
    · simp only [seen, built_append, hb]
      simp [built]
    · simp [seen]
  · rw [hp]
    exact .ends (raised_ends s held e)

theorem sendReply_attended (hl : s.Linked h.uuid k n m) (reply : Except PyErr Bytes) :
    Attended L c h.data d (sendReply L s c h reply held .next) := by
  cases reply with
  | error e => exact .ends (raised_ends s held e)
  | ok reply => exact sendPacket_attended L hl reply

theorem proceed_attended {x : Server K × Next} (hl : x.1.Linked h.uuid k n m)
    (hwait : ∀ pc, x.2 = .wait pc → pc.Queues ∧ pc.distance ≤ d)
    (hbye : x.2 = .bye → ∃ type_ value, h.data = type_ :: value ∧ command type_ = .bye) :
    Attended L c h.data d (proceed L c h x) := by
  unfold proceed
  split
  · exact sendPacket_attended L hl _
  · rename_i pc hpc
    obtain ⟨hqueues, hnear⟩ := hwait pc hpc
    exact .goes (h := { h with pc := pc }) rfl (.queues hqueues rfl) hnear rfl
  · exact .ends (raised_ends _ _ _)
  · rename_i hb
    exact .ends ⟨none, rfl, fun _ => hbye hb⟩

/-- What was seen before is no packet. -/
theorem Attended.seen (ha : Attended L c data d out) {os : List (Obs K)} (hos : built L (.server c) os = []) :
    Attended L c data d (seen os out) := by
  have hbuilt : built L (.server c) (Pipebomb.seen os out).2.2 = built L (.server c) out.2.2 := by
    simp only [Pipebomb.seen, built_append, hos, List.nil_append]
  cases ha with
  | ends he => exact .ends he
  | replied ht ha hr =>
    obtain ⟨k, n, reply, u, hb, hm⟩ := hr
    exact .replied ht ha ⟨k, n, reply, u, hbuilt.trans hb, List.mem_append_right _ hm⟩
  | goes ht ha hnear hb => exact .goes ht ha hnear (hbuilt.trans hb)

/-- The next frame is the operation. -/
theorem onFrame_attended (hl : s.Linked h.uuid k n n) (hf : Feeding L c xs j (.idle k n))
    {x : K × ℕ × Bytes} (hx : xs[j]? = some x) (hdata : x.2.2 = data) :
    Attended L c data 2 (onFrame L s c h (some (packet L x)) draw) := by
  obtain ⟨cl, hcl, hk, htx, hrx⟩ := id hl
  obtain ⟨r, hu, rfl⟩ := Server.client_eq_some.1 hcl
  obtain ⟨hdec, hv⟩ := hf.next L hx
  have hrec : (s.modify r Client.received).Linked h.uuid k n (n + 1) :=
    hl.modify (f := Client.received) hu (fun _ => rfl) (fun _ h => h) fun _ h => congrArg (· + 1) h
  subst hdata
  have hp : Attended L c x.2.2 2 (proceed L c { h with data := x.2.2 }
      (dispatch (s.modify r Client.received) h.uuid x.2.2 draw)) := by
    refine proceed_attended L (h := { h with data := x.2.2 })
      (hrec.quiet (dispatch_quiet _ h.uuid x.2.2 draw)) (fun pc hpc => ?_) fun hb => ?_
    · obtain ⟨_, _, -, -, ⟨_, -, rfl⟩ | ⟨_, -, -, rfl⟩ | ⟨_, _, -, -, rfl⟩ | ⟨_, -, -, rfl⟩⟩ :=
        dispatch_wait hpc
      · exact ⟨trivial, Nat.le_succ 1⟩
      · exact ⟨trivial, Nat.le_succ 1⟩
      · exact ⟨trivial, Nat.le_succ 1⟩
      · exact ⟨trivial, Nat.le_succ 1⟩
    · obtain ⟨type_, value, hd, hc, -⟩ := dispatch_bye hb
      exact ⟨type_, value, hd, hc⟩
  simp only [onFrame, hu, hk, hrx, hdec, hv]
  exact (hp.seen L rfl).seen L rfl

theorem pump_attended (hl : s.Linked h.uuid k n n) (hf : Feeding L c xs j (.idle k n))
    (hin : Inlet (stream L L.clientPublic xs) (j + 1) h.receiveBuffer feed)
    (hnext : ∀ x, xs[j]? = some x → x.2.2 = data) : Attended L c data 2 (pump L s c h draw) := by
  rcases hin.cut packetFraming cut_nil (hf.numbered.complete L _) with hc | ⟨f, r, hm, hc, hr⟩
  · simp only [pump, extract_more hc]
    exact .goes (h := { h with pc := .recv }) rfl (.recv rfl hc) le_rfl rfl
  · obtain ⟨x, hx, rfl⟩ := next_packet L hm
    simp only [pump, extract_frame hc]
    exact onFrame_attended L (h := { h with receiveBuffer := r }) hl hf hx (hnext x hx)

/-- A command that waited runs. -/
theorem queued_attended (hq : h.pc.Queues) (hl : s.Linked h.uuid k n m)
    (ho : handlerStep L s c h .go draw = some out) : Attended L c h.data d out := by
  cases hpc : h.pc with
  | dbLock op =>
    have hlock : Quiet s (s.setDbLock true) := ⟨rfl, rfl, fun _ => .refl _⟩
    simp only [handlerStep, hpc] at ho
    split_ifs at ho
    cases ho
    exact sendReply_attended L (hl.quiet (hlock.trans (dbOp_quiet _ _ _))) _
  | inboxGet r =>
    simp only [handlerStep, hpc] at ho
    split at ho
    · cases ho
    · cases ho
      exact sendReply_attended L (hl.quiet (.modify s _ _ (.setInbox _))) _
  | outboxPut r p =>
    simp only [handlerStep, hpc] at ho
    split_ifs at ho
    cases ho
    exact sendPacket_attended L (hl.quiet (.modify s _ _ (.setOutbox _))) _
  | outboxGet r id =>
    have hlock := hl.quiet (.modify s r _ (.setOutboxLock true))
    simp only [handlerStep, hpc] at ho
    split_ifs at ho
    split at ho
    · cases ho
      exact sendReply_attended L hlock _
    · cases ho
      exact sendReply_attended L (hlock.quiet (.modify _ _ _ (.setOutbox _))) _
  | _ =>
    rw [hpc] at hq
    exact hq.elim

/-- **A step of the coroutine.** -/
theorem handlerStep_attended (ha : h.Attends data) (hat : (Task.handler h).AtEnd s e)
    (hf : Feeding L c xs j e) (hin : Inlet (stream L L.clientPublic xs) (j + 1) h.receiveBuffer feed)
    (hnext : ∀ x, xs[j]? = some x → x.2.2 = data) (hi : ¬ i.Fails) (hchunk : i.chunk <+: feed)
    (ho : handlerStep L s c h i draw = some out) : Attended L c data h.pc.next out := by
  obtain ⟨k, n, hl, he⟩ := hat
  cases ha with
  | start hpc =>
    obtain ⟨cl, hcl, hk, -⟩ := hl
    rw [hpc]
    cases i with
    | go =>
      simp only [handlerStep, hpc, started, hcl, hk] at ho
      cases ho
      exact .goes (h := { h with pc := .sleep }) rfl (.sleep rfl) le_rfl rfl
    | raise x => exact absurd trivial hi
    | recv | sent => simp [handlerStep, hpc] at ho
  | sleep hpc =>
    rw [hpc] at hl he ⊢
    subst he
    cases i with
    | go =>
      simp only [handlerStep, hpc] at ho
      cases ho
      exact pump_attended L hl hf hin hnext
    | raise x => exact absurd trivial hi
    | recv | sent => simp [handlerStep, hpc] at ho
  | recv hpc _ =>
    rw [hpc] at hl he ⊢
    subst he
    cases i with
    | recv chunk =>
      have hne : chunk ≠ [] := hi
      simp only [handlerStep, hpc, if_neg hne] at ho
      split_ifs at ho
      cases ho
      exact pump_attended L (h := { h with receiveBuffer := h.receiveBuffer ++ chunk }) hl hf
        (hin.arrive hchunk) hnext
    | raise x => exact absurd trivial hi
    | go | sent => simp [handlerStep, hpc] at ho
  | queues hq hdata =>
    subst hdata
    cases i with
    | go => exact queued_attended L hq hl ho
    | raise x => exact absurd trivial hi
    | recv | sent =>
      cases hpc : h.pc with
      | dbLock | inboxGet | outboxPut | outboxGet => simp [handlerStep, hpc] at ho
      | _ =>
        rw [hpc] at hq
        exact hq.elim
  | sending hpc =>
    rw [hpc]
    cases i with
    | sent =>
      obtain ⟨cl, hcl, -⟩ := hl
      obtain ⟨r, hu, -⟩ := Server.client_eq_some.1 hcl
      simp only [handlerStep, hpc, onSent, hu] at ho
      cases ho
      exact .goes (h := { h with pc := .sleep }) rfl (.sleep rfl) le_rfl rfl
    | raise x => exact absurd trivial hi
    | recv | go => simp [handlerStep, hpc] at ho

/-- Behind the payload it works on it. -/
theorem Handler.Attends.data_eq (ha : h.Attends data) (hq : h.pc.Queues) : h.data = data := by
  cases ha with
  | queues _ hdata => exact hdata
  | start hpc | sleep hpc | recv hpc _ | sending hpc =>
    rw [hpc] at hq
    exact hq.elim

/-- **The coroutine can go on**, unless it waits for a lock, an item or a chunk. -/
theorem Handler.Attends.canGo (ha : h.Attends data) (c : ConnId) (draw : Uuid4)
    (hfree : ¬ s.Locked h.pc.wants) (hinbox : ∀ r, h.pc = .inboxGet r → (s.objs r).inbox ≠ [])
    (hfeed : h.pc = .recv → feed ≠ []) :
    ∃ i out, handlerStep (A := Accepting K) L s c h i draw = some out ∧ ¬ i.Fails ∧ i.chunk <+: feed ∧
      (h.pc = .recv → i.chunk ≠ []) := by
  have hgo : h.pc ≠ .recv → (∃ out, handlerStep (A := Accepting K) L s c h .go draw = some out) →
      ∃ i out, handlerStep (A := Accepting K) L s c h i draw = some out ∧ ¬ i.Fails ∧ i.chunk <+: feed ∧
        (h.pc = .recv → i.chunk ≠ []) := by
    rintro hpc ⟨out, ho⟩
    exact ⟨.go, out, ho, id, List.nil_prefix, fun he => absurd he hpc⟩
  cases ha with
  | start hpc => exact hgo (by simp [hpc]) ⟨_, by simp only [handlerStep, hpc]; rfl⟩
  | sleep hpc => exact hgo (by simp [hpc]) ⟨_, by simp only [handlerStep, hpc]; rfl⟩
  | recv hpc _ =>
    have hne : feed.take 1024 ≠ [] := by simpa using hfeed hpc
    have hshort : ¬ 1024 < (feed.take 1024).length := by
      rw [List.length_take]
      omega
    exact ⟨.recv (feed.take 1024), _, by simp only [handlerStep, hpc, if_neg hshort, if_neg hne]; rfl, hne,
      List.take_prefix 1024 _, fun _ => hne⟩
  | queues hq _ =>
    refine hgo (fun hpc => by rw [hpc] at hq; exact hq) ?_
    cases hpc : h.pc with
    | inboxGet r =>
      rcases hin : (s.objs r).inbox with _ | ⟨q, qs⟩
      · exact absurd hin (hinbox r hpc)
      · exact ⟨_, by simp only [handlerStep, hpc, hin]; rfl⟩
    | dbLock | outboxPut | outboxGet =>
      exact handlerStep_free L c draw (by rw [hpc]; simp [Await.wants]) hfree
    | _ =>
      rw [hpc] at hq
      exact hq.elim
  | sending hpc =>
    refine ⟨.sent, _, by simp only [handlerStep, hpc]; rfl, id, List.nil_prefix, fun he => ?_⟩
    rw [hpc] at he
    cases he

end

/-! ## The network -/

section
variable {c : ConnId} {data : Bytes} {N N' N₀ : Net K} {os os' o : List (Obs K)} {a : Net.Act} {n : ℕ}
  {draw : Uuid4} {S : Sys K}

/-- **The operation came to its end**: it received a reply; the server sent one that `recv_loop` takes for
    an error; or the coroutine of the connection is over. -/
inductive Net.Ended (c : ConnId) (data : Bytes) (N : Net K) (os : List (Obs K)) : Prop
  | returned {reply : Bytes} : (data, reply) ∈ returns os → Ended c data N os
  | refused {u : PyStr} {reply : Bytes} : .answered c u data reply ∈ os → RawClient.ERR <+: reply →
      reply ≠ RawClient.ERR_ACK → Ended c data N os
  | over : (N.sys.tasks c).Ends data → Ended c data N os

/-- The operation is GET_INBOX, and there is no request in the inbox. -/
def Net.Starved (c : ConnId) (data : Bytes) (N : Net K) : Prop :=
  (∃ type_ value, data = type_ :: value ∧ command type_ = .getInbox) ∧
    ∃ h r, N.sys.tasks c = .handler h ∧ h.pc = .inboxGet r ∧ (N.sys.server.objs r).inbox = []

/-- The client and the server of the connection go on, for which `uuid4()` gives `draw`; or the coroutine
    of the connection waits for a lock, and another one that sends under the lock or waits for it goes on. -/
inductive Net.Advances (c : ConnId) (draw : Uuid4) (N : Net K) : Net.Act → Prop
  | client (b : RawClient.Act) : N.Advances c draw (.client b)
  | server (i : Input) : N.Advances c draw (.server (.resume c i draw))
  | yields {held : Held} {a : Net.Act} : (N.sys.tasks c).waitsFor = some held → N.Yields c held a →
      N.Advances c draw a

/-- A step that brings an operation on: nothing is called, and nothing fails. -/
structure Net.Onward (c : ConnId) (draw : Uuid4) (N : Net K) (a : Net.Act) (o : List (Obs K)) : Prop where
  awaits : N.Awaits c a o
  advances : N.Advances c draw a

/-- **An operation was called** that sends `data`, by a client that was between operations, and nothing
    was called since; `os'` was seen since. -/
inductive Outstanding (c : ConnId) (data : Bytes) (N₀ : Net K) (os : List (Obs K)) :
    Net K → List (Obs K) → Prop
  | call {call : Call} {N N' : Net K} {before o : List (Obs K)} :
      Lts.Run (Lts.Guarded (Net.step L c) (Net.Fair c)) N₀ N before → N.Usable c →
      N.client.OneAtATime (.call call) → N.step L c (.client (.call call)) = some (N', o) →
      .called data ∈ o → os = before ++ o → Outstanding c data N₀ os N' []
  | go {N N' : Net K} {a : Net.Act} {os' o : List (Obs K)} : Outstanding c data N₀ os N os' →
      N.step L c a = some (N', o) → N.Awaits c a o → Outstanding c data N₀ os N' (os' ++ o)

/-! ### What holds in every run -/

/-- Client and server, and the locks of the server. -/
structure Poised (c : ConnId) (N : Net K) (os : List (Obs K)) : Prop where
  steady : Steady L c N os
  latched : N.sys.Latched

theorem Poised.kept {held : Held} (h : Poised L c N os) : N.sys.Kept held :=
  ⟨h.steady.sound, fun _ => h.latched, fun _ => h.steady.lock⟩

theorem Poised.step (h : Poised L c N os) (hstep : N.step L c a = some (N', o)) (hfair : N.Fair c a o) :
    Poised L c N' (os ++ o) := by
  refine ⟨h.steady.step L hstep hfair, ?_⟩
  rcases Net.step_cases L hstep with ⟨b, S, rfl, hs, rfl⟩ | ⟨b, C, rfl, hs, rfl⟩
  · exact step_latched L h.steady.sound h.latched hs
  · exact h.latched

theorem poised_init {password clientPassword : Bytes} {keep : Bool} {os₀ : List (Obs K)}
    (hS : Lts.Run (Lts.Guarded (Sys.step L) fun _ _ _ => True) (.init password keep) S os₀)
    (hidle : S.tasks c = .idle) (peer : String) :
    Poised L c ⟨S, .init peer clientPassword, [], []⟩ [] := by
  have hkept : ∀ held, S.Kept held := by
    refine hS.inv (I := fun S _ => ∀ held, S.Kept held) (fun _ => kept_init password keep) ?_
    rintro S S' os o - h ⟨a, hstep, -⟩ held
    exact (h held).step L (a := .server a) hstep trivial
  exact ⟨steady_init L (hkept .none).sound ((hkept .dbLock).locked rfl) hidle peer clientPassword,
    (hkept .none).latched (by simp)⟩

theorem Net.Ended.after (h : N.Ended c data o) : N.Ended c data (os ++ o) := by
  cases h with
  | returned hr =>
    rw [← List.nil_append (returns o)] at hr
    exact .returned (by rw [returns_append]; exact List.mem_append_right _ (by simpa using hr))
  | refused hm herr hne => exact .refused (List.mem_append_right _ hm) herr hne
  | «over» ht => exact .over ht

/-- An operation that ended stays ended. -/
theorem Net.Ended.step (h : N.Ended c data os) (hstep : N.step L c a = some (N', o)) :
    N'.Ended c data (os ++ o) := by
  cases h with
  | returned hr => exact .returned (by rw [returns_append]; exact List.mem_append_left _ hr)
  | refused hm herr hne => exact .refused (List.mem_append_left _ hm) herr hne
  | «over» ht =>
    obtain ⟨e, htask, hbye⟩ := ht
    refine .over ⟨e, ?_, hbye⟩
    rcases Net.step_cases L hstep with ⟨b, S, rfl, hs, rfl⟩ | ⟨b, C, rfl, hs, rfl⟩
    · show S.tasks c = .over e
      rcases Pipebomb.step_cases L hs with ⟨c', rfl, hidle, -, rfl⟩ | ⟨c', i, draw, s, t, rfl, ht, rfl⟩ |
        ⟨op, rfl, -, rfl⟩
      · refine (put_tasks_ne ?_).trans htask
        rintro rfl
        rw [htask] at hidle
        cases hidle
      · refine (put_tasks_ne ?_).trans htask
        rintro rfl
        rw [htask] at ht
        cases ht
      · exact htask
    · exact htask

/-- **Where client and server stand** until the operation ends, whose packet is the client's `n`-th. -/
structure Asking (c : ConnId) (data : Bytes) (n : ℕ) (N : Net K) (os : List (Obs K)) : Prop where
  poised : Poised L c N os
  client : N.client.Working
  calls : ∃ call, N.client.calls = [(call, data)]
  served : ∃ h, N.sys.tasks c = .handler h ∧ h.Attends data
  returned : (returns os).length + 2 = n
  asked : (built L .client os).length = n + 1
  payload : (payloads (built L .client os))[n]? = some data
  took : n ≤ (opened .client os).length ∧ n ≤ (opened (.server c) os).length
  replies : n ≤ (built L (.server c) os).length
  fine : ∀ p, (payloads (built L (.server c) os))[n]? = some p → RawClient.ERR <+: p → p = RawClient.ERR_ACK

/-- What is on its way: the server opened and answered at most the operation. -/
theorem Asking.bounds (h : Asking L c data n N os) {e : ServerEnd K} {f : ClientEnd K}
    {xs : List (K × ℕ × Bytes)} (hlock : Locked L c N os e f xs) :
    (opened .client os).length ≤ (built L (.server c) os).length ∧
      (built L (.server c) os).length ≤ (opened (.server c) os).length ∧
      (opened (.server c) os).length ≤ xs.length ∧ xs.length ≤ n + 1 ∧
      (xs.length = n + 1 → N.client.tasks = []) := by
  have hle := hlock.opened_le L
  obtain ⟨h₁, h₂, h₃⟩ := hlock.le L
  simp only [tally] at h₁ h₂ h₃
  rw [h.asked] at h₃
  refine ⟨hle, h₁, h₂, h₃, fun hall => ?_⟩
  obtain ⟨pending, hb, htasks⟩ := hlock.client.built
  have hlen := congrArg List.length hb
  rw [List.length_append, hall] at hlen
  simp only [tally] at hlen
  rw [h.asked] at hlen
  rw [htasks, List.eq_nil_of_length_eq_zero (l := pending) (by omega)]
  rfl

/-- A packet that the server did not open before is the operation. -/
theorem Asking.next (h : Asking L c data n N os) {e : ServerEnd K} {f : ClientEnd K}
    {xs : List (K × ℕ × Bytes)} (hlock : Locked L c N os e f xs) {m : ℕ} {x : K × ℕ × Bytes}
    (hm : n ≤ m) (hx : xs[m]? = some x) : x.2.2 = data := by
  obtain ⟨-, -, -, hlen, -⟩ := h.bounds L hlock
  have hlt := (List.getElem?_eq_some_iff.1 hx).1
  obtain rfl : m = n := by omega
  obtain ⟨pending, hb, -⟩ := hlock.client.built
  have hget := h.payload
  have hb' : built L .client os = xs ++ pending := hb
  rw [hb', payloads_append, List.getElem?_append_left (by rwa [length_payloads]), payloads,
    List.getElem?_map, hx] at hget
  exact Option.some.inj hget

/-! ### A step -/

/-- A step of the server: the coroutine ends, replies, or goes on. -/
theorem Asking.server (h : Asking L c data n N os) {b : Act} {S : Sys K} (hs : N.sys.step L b = some (S, o))
    (hhonest : N.Honest c (.server b) o) (hlossless : N.Lossless c (.server b)) :
    (S.tasks c).Ends data ∨ (∃ h', S.tasks c = .handler h' ∧ h'.Attends data) ∧
      (built L (.server c) o = [] ∨ Replied L c data o) := by
  obtain ⟨h₀, htask, hattends⟩ := h.served
  obtain ⟨⟨e, f, xs, hlock⟩, -⟩ := h.poised.steady.conversing
  rcases step_cases L hs with ⟨c', rfl, hidle, rfl, rfl⟩ | ⟨c', i, draw, s, t, rfl, ht, rfl⟩ |
    ⟨op, rfl, rfl, rfl⟩
  · have hc : c ≠ c' := by
      rintro rfl
      rw [htask] at hidle
      cases hidle
    exact .inr ⟨⟨h₀, (put_tasks_ne hc).trans htask, hattends⟩, .inl rfl⟩
  · by_cases hc : c' = c
    · subst hc
      have hk : (N.sys.tasks c').Keyed := by
        rw [htask]
        trivial
      obtain ⟨hfeeding, hin⟩ := hlock.feeding L hk
      have hat := hlock.side.atEnd
      rw [htask] at hat hin ht
      rw [put_tasks_self]
      cases handlerStep_attended L hattends hat hfeeding hin (fun x hx => h.next L hlock h.took.2 hx)
        (hlossless rfl) (hhonest.server rfl) ht with
      | ends he => exact .inl he
      | replied ht ha hr => exact .inr ⟨⟨_, ht, ha⟩, .inr hr⟩
      | goes ht ha _ hb => exact .inr ⟨⟨_, ht, ha⟩, .inl hb⟩
    · have hby := taskStep_obs L ht
      refine .inr ⟨⟨h₀, (put_tasks_ne (Ne.symm hc)).trans htask, hattends⟩, .inl ?_⟩
      exact congrArg Tally.built (tally_of_not L (hby.of fun hp => hc (Party.server.inj hp).symm))
  · exact .inr ⟨⟨h₀, htask, hattends⟩, .inl rfl⟩

/-- What a step of the client leaves, where the operation goes on. -/
structure StillAsks (C : RawClient K) (out : RawClient.After K) : Prop where
  working : out.1.Working
  built : built L .client out.2 = []
  calls : out.1.calls = C.calls
  returns : returns out.2 = []

/-- `recv_loop` reads nothing but the reply. -/
theorem Asking.recvLoop (h : Asking L c data n N os) {chunk : Bytes} {out : RawClient.After K}
    (hs : N.client.recvLoopStep L (.recv chunk) = some out) (hne : chunk ≠ [])
    (hchunk : chunk <+: N.toClient) : StillAsks L N.client out := by
  have hconn := h.client.opened.connected
  obtain ⟨b, hb, -⟩ := h.client.receives
  obtain ⟨k, hk⟩ := Option.ne_none_iff_exists'.1 h.client.opened.cipher
  obtain ⟨⟨e, f, xs, hlock⟩, -⟩ := h.poised.steady.conversing
  obtain ⟨-, hanswered, hopened, hlen, hsent⟩ := h.bounds L hlock
  have hkeyed : N.client.Keyed := by
    rw [RawClient.Keyed, hconn]
    trivial
  have hfine : ∀ m x, (opened .client os).length ≤ m → (Pipebomb.built L (.server c) os)[m]? = some x →
      N.client.tasks = [] ∧ (RawClient.ERR <+: x.2.2 → x.2.2 = RawClient.ERR_ACK) := by
    intro m x hm hx
    have hlt := (List.getElem?_eq_some_iff.1 hx).1
    have htook := h.took.1
    obtain rfl : m = n := by omega
    refine ⟨hsent (by omega), h.fine _ ?_⟩
    rw [payloads, List.getElem?_map, hx]
    rfl
  obtain ⟨rx, input, b', hout, hmore'⟩ := recvLoop_goesOn L (hlock.clientFeeding L hkeyed) hconn hk hb
    hfine hne hchunk hs
  have hreceives := recvLoopStep_receives L hs
  obtain ⟨-, hreturns, -⟩ := (recvLoopStep_ofClient L hs).silent
  refine ⟨⟨⟨?_, ?_, ?_⟩, ⟨b', ?_, hmore'⟩, ?_, ?_⟩, hreceives.built, hreceives.calls, hreturns⟩
  · rw [hout]
    exact hconn
  · rw [hreceives.closing]
    exact h.client.opened.closing
  · rw [hreceives.cipher]
    exact h.client.opened.cipher
  · rw [hout]
  · rw [hout]
    exact h.client.sends
  · rw [hout]
    exact h.client.paid

/-- A step of the client: the operation returns, or goes on. -/
theorem Asking.clientGoes (h : Asking L c data n N os) {b : RawClient.Act} {out : RawClient.After K}
    (hs : N.client.step L b = some out) (hchunk : b.chunk <+: N.toClient) (hcall : ∀ call, b ≠ .call call)
    (hclose : b ≠ .close) (hpatient : N.Patient (.client b)) (hlossless : N.Lossless c (.client b)) :
    (∃ reply, (data, reply) ∈ returns out.2) ∨ StillAsks L N.client out := by
  have hconn := h.client.opened.connected
  cases b with
  | connect relogUuid => simp [RawClient.step, hconn] at hs
  | resume i => simp [RawClient.step, RawClient.connectStep, hconn] at hs
  | call call => exact absurd rfl (hcall call)
  | timeout m => exact hpatient.elim
  | close => exact absurd rfl hclose
  | closing i => simp [RawClient.step, RawClient.closeStep, h.client.opened.closing] at hs
  | sendLoop i =>
    have hsilent : returns out.2 = [] := (client_ofClient L hs (fun _ hb => by cases hb)
      (fun _ hb => by cases hb) fun _ hb => by cases hb).silent.2.1
    simp only [RawClient.step, if_pos hconn] at hs
    have hf : Fetches L [] [] N.client out := h.client.sendLoop L hlossless hs
    refine .inr ⟨hf.working, hf.built, ?_, hsilent⟩
    rcases hf.calls with ⟨hsame, -⟩ | ⟨-, -, hret⟩
    · exact hsame
    · rw [hsilent] at hret
      cases hret
  | recvLoop i =>
    simp only [RawClient.step, if_pos hconn] at hs
    obtain ⟨b, hb, -⟩ := h.client.receives
    cases i with
    | go | sent => simp [RawClient.recvLoopStep, hb] at hs
    | raise e => exact absurd trivial hlossless
    | recv chunk => exact .inr (h.recvLoop L hs hlossless hchunk)
  | receive m =>
    obtain ⟨call, hcalls⟩ := h.calls
    simp only [RawClient.step, hcalls] at hs
    rcases m with _ | m
    · rcases hinput : N.client.inputPackets with _ | ⟨p, ps⟩
      · rw [hinput] at hs
        cases hs
      · rw [hinput] at hs
        cases hs
        exact .inl ⟨p, by simp [returns]⟩
    · cases hs

/-- The reply that is built is none that is taken for an error. -/
theorem Asking.fine_append (h : Asking L c data n N os) {k : K} {m : ℕ} {reply : Bytes}
    (hone : built L (.server c) o = [(k, m, reply)])
    (hok : RawClient.ERR <+: reply → reply = RawClient.ERR_ACK) (p : Bytes)
    (hp : (payloads (built L (.server c) (os ++ o)))[n]? = some p) :
    RawClient.ERR <+: p → p = RawClient.ERR_ACK := by
  rw [built_append, payloads_append, hone] at hp
  by_cases hlt : n < (payloads (built L (.server c) os)).length
  · rw [List.getElem?_append_left hlt] at hp
    exact h.fine p hp
  · have hreplies := h.replies
    rw [length_payloads] at hlt
    have hzero : n - (payloads (built L (.server c) os)).length = 0 := by
      rw [length_payloads]
      omega
    rw [List.getElem?_append_right (by rw [length_payloads]; omega), hzero] at hp
    obtain rfl := Option.some.inj hp
    exact hok

/-- **Every step keeps it**, or ends the operation. -/
theorem Asking.step (h : Asking L c data n N os) (hstep : N.step L c a = some (N', o))
    (hawaits : N.Awaits c a o) : N'.Ended c data o ∨ Asking L c data n N' (os ++ o) := by
  have hpoised := h.poised.step L hstep hawaits.fair
  -- what the step does to either side
  have hsides : N'.Ended c data o ∨ N'.client.Working ∧ N'.client.calls = N.client.calls ∧ returns o = [] ∧
      built L .client o = [] ∧ (∃ h', N'.sys.tasks c = .handler h' ∧ h'.Attends data) ∧
      (built L (.server c) o = [] ∨ Replied L c data o) := by
    rcases Net.step_cases L hstep with ⟨b, S, rfl, hs, rfl⟩ | ⟨b, C, rfl, hs, rfl⟩
    · obtain ⟨htally, hreturns⟩ := server_silent L hs
      rcases h.server L hs hawaits.fair.honest hawaits.lossless with hends | ⟨hserved, hreply⟩
      · exact .inl (.over hends)
      · exact .inr ⟨h.client, rfl, hreturns, congrArg Tally.built htally, hserved, hreply⟩
    · rcases h.clientGoes L hs hawaits.fair.honest.client
        (fun call hb => hawaits.noCall call (congrArg _ hb)) (fun hb => hawaits.noClose (congrArg _ hb))
        hawaits.fair.patient hawaits.lossless with ⟨reply, hr⟩ | hstill
      · exact .inl (.returned hr)
      · exact .inr ⟨hstill.working, hstill.calls, hstill.returns, hstill.built, h.served,
          .inl (congrArg Tally.built ((client_atClient L hs).tally L))⟩
  rcases hsides with hended | ⟨hclient, hcalls, hreturns, hasked, hserved, hreply⟩
  · exact .inl hended
  have htook := h.took
  have hreplies := h.replies
  -- the reply is taken for an error, or the operation goes on
  have hfine : N'.Ended c data o ∨ ∀ p, (payloads (built L (.server c) (os ++ o)))[n]? = some p →
      RawClient.ERR <+: p → p = RawClient.ERR_ACK := by
    rcases hreply with hnone | ⟨k, m, reply, u, hone, hm⟩
    · rw [built_append, hnone, List.append_nil]
      exact .inr h.fine
    · by_cases herr : RawClient.ERR <+: reply ∧ reply ≠ RawClient.ERR_ACK
      · exact .inl (.refused hm herr.1 herr.2)
      · refine .inr (h.fine_append L hone fun hpre => ?_)
        exact by_contra fun hne => herr ⟨hpre, hne⟩
  rcases hfine with hended | hfine
  · exact .inl hended
  refine .inr ⟨hpoised, hclient, ?_, hserved, ?_, ?_, ?_, ?_, ?_, hfine⟩
  · rw [hcalls]
    exact h.calls
  · rw [returns_append, hreturns, List.append_nil]
    exact h.returned
  · rw [built_append, hasked, List.append_nil]
    exact h.asked
  · rw [built_append, hasked, List.append_nil]
    exact h.payload
  · rw [opened_append_obs, opened_append_obs, List.length_append, List.length_append]
    omega
  · rw [built_append, List.length_append]
    omega

/-! ### The call -/

/-- An operation puts its packet into the queue. -/
theorem called_call {C C' : RawClient K} {k : K} {call : Call} (hconn : C.connection = .connected)
    (hk : C.cipher = some k) (htasks : C.tasks = []) (hcalls : C.calls = []) (hcalled : .called data ∈ o)
    (hs : C.step L (.call call) = some (C', o)) :
    returns o = [] ∧ tally L .client o = ⟨[(k, C.txNonce, data)], [], [], [], []⟩ ∧
      C' = { C with
        tasks := [packet L (k, C.txNonce, data)]
        unfinished := C.unfinished + 1
        calls := [(call, data)] } := by
  have hno : ∀ d, Obs.called data ∉ (encryptCall .client d (some k) C.txNonce : List (Obs K)) := by
    intro d hm
    cases ofClient_encryptCall d (some k) C.txNonce _ hm
  simp only [RawClient.step, if_pos hconn, RawClient.attempt, RawClient.send, hk] at hs
  rcases hpay : call.payload with e | d
  · rw [hpay] at hs
    cases hs
    cases hcalled
  · rw [hpay] at hs
    rcases tally_construct L .client k C.txNonce d with ⟨hp, ht⟩ | ⟨e, hp, -⟩
    · simp only [hp] at hs
      cases hs
      obtain rfl : data = d := by
        rcases List.mem_append.1 hcalled with hm | hm
        · exact absurd hm (hno d)
        · simpa using hm
      refine ⟨?_, ?_, ?_⟩
      · rw [returns_append, (ofClient_encryptCall data (some k) C.txNonce).silent.2.1]
        rfl
      · rw [tally_append, ht]
        simp [tally, Tally.append, built, opened, acceptedBy, sends, answers]
      · simp [hk, htasks, hcalls]
    · simp only [hp] at hs
      cases hs
      exact absurd hcalled (hno d)

/-- Between operations the coroutine is on its way to the next payload. -/
theorem Conversing.attends (h : Conversing L c N os) (data : Bytes)
    (hhandler : ∃ h', N.sys.tasks c = .handler h' ∧ h'.GoesOn)
    (hbuilt : (built L (.server c) os).length = (built L .client os).length)
    (hopened : (opened (.server c) os).length = (built L .client os).length) :
    ∃ h', N.sys.tasks c = .handler h' ∧ h'.Attends data := by
  obtain ⟨⟨e, f, xs, hlock⟩, -⟩ := id h
  obtain ⟨h', htask, hserving⟩ := h.serving L [] hhandler hbuilt hopened
  refine ⟨h', htask, ?_⟩
  cases hserving with
  | start hpc => exact .start hpc
  | sleep hpc => exact .sleep hpc
  | sending hpc => exact .sending hpc
  | receiving hr =>
    cases hr with
    | recv hpc hmore => exact .recv hpc hmore
    | reading hpc hdata =>
      -- a handler that works on a payload has not answered it
      have hat := hlock.side.atEnd
      rw [htask] at hat
      obtain ⟨k, m, -, he⟩ := hat
      rw [hpc] at he
      subst he
      have hlen := (hlock.ok L).1.1.length
      have hlen' := (hlock.ok L).1.2
      have hk : (N.sys.tasks c).Keyed := by
        rw [htask]
        trivial
      obtain ⟨-, hacc, -⟩ := (place_keyed L hk).1 hlock.server.place
      simp only [tally] at hlen hlen' hacc
      omega

/-- **An operation is called**: nothing is outstanding but its packet. -/
theorem asking_call {call : Call} (h : Poised L c N os) (husable : N.Usable c)
    (hone : N.client.OneAtATime (.call call)) (hstep : N.step L c (.client (.call call)) = some (N', o))
    (hcalled : .called data ∈ o) : Asking L c data (built L .client os).length N' (os ++ o) := by
  obtain ⟨hcalls, hsend, hclosing⟩ := hone
  obtain ⟨hopen, ⟨b, hb⟩, -, hhandler⟩ := husable
  obtain ⟨k, hk⟩ := Option.ne_none_iff_exists'.1 hopen.cipher
  have hreading : N.client.reading = some b := by
    simp [RawClient.reading, hopen.connected, hk, hb]
  have hready := h.steady.conversing.ready L hopen hcalls hsend h.steady.untimed
  have hreturned := h.steady.conversing.returned L hopen hcalls h.steady.untimed
  obtain ⟨h2, -, hbuilt, hopened, hopened'⟩ := h.steady.conversing.settled L hopen hcalls h.steady.untimed
    (by rw [hreading]; exact Option.some_ne_none b)
  have hpoised := h.step L hstep
    ⟨⟨fun _ hm => (by cases hm), fun _ hm => (by cases hm)⟩, fun _ hm => (by cases hm),
      ⟨hcalls, hsend, hclosing⟩, trivial⟩
  have hattends := h.steady.conversing.attends L data hhandler hbuilt hopened'
  -- the buffer of the client is empty
  obtain ⟨⟨e, f, xs, hlock⟩, -⟩ := h.steady.conversing
  have hkeyed : N.client.Keyed := by
    rw [RawClient.Keyed, hopen.connected]
    trivial
  obtain ⟨-, hin⟩ := (hlock.clientFeeding L hkeyed).place b hreading
  obtain ⟨rfl, -⟩ := hin.empty (by rw [length_stream]; simp only [tally]; omega)
  rcases Net.step_cases L hstep with ⟨b, S, hact, -⟩ | ⟨b, C, hact, hs, rfl⟩
  · cases hact
  cases hact
  obtain ⟨hret, htally, rfl⟩ := called_call L hopen.connected hk hready.tasks hcalls hcalled hs
  have hcbuilt : built L .client o = [(k, N.client.txNonce, data)] := congrArg Tally.built htally
  have hU : tally L (.server c) o = .none := (client_atClient L hs).tally L
  have hsbuilt : built L (.server c) o = [] := congrArg Tally.built hU
  have hsopened : opened (.server c) o = [] := congrArg Tally.opened hU
  have hcopened : opened .client o = [] := congrArg Tally.opened htally
  refine ⟨hpoised, ⟨⟨hopen.connected, hopen.closing, hopen.cipher⟩, ⟨[], hb, cut_nil⟩, fun e he => ?_, ?_⟩,
    ⟨call, rfl⟩, hattends, ?_, ?_, ?_, ?_, ?_, fun p hp => ?_⟩
  · have hdead : N.client.sendLoop = .dead e := he
    rw [hsend] at hdead
    cases hdead
  · simp [Net.flow, hsend]
  · rw [returns_append, hret, List.append_nil]
    omega
  · rw [built_append, hcbuilt, List.length_append, List.length_singleton]
  · rw [built_append, hcbuilt, payloads_append, List.getElem?_append_right (by rw [length_payloads]),
      length_payloads, Nat.sub_self]
    rfl
  · rw [opened_append_obs, opened_append_obs, hcopened, hsopened, List.append_nil, List.append_nil, hopened,
      hopened']
    exact ⟨le_rfl, le_rfl⟩
  · rw [built_append, hsbuilt, List.append_nil, hbuilt]
  · rw [built_append, hsbuilt, List.append_nil, List.getElem?_eq_none (by rw [length_payloads, hbuilt])] at hp
    cases hp

/-- **Until the operation ends.** -/
theorem Outstanding.asking (h : Outstanding L c data N₀ os N os') (h₀ : Poised L c N₀ []) :
    N.Ended c data os' ∨ ∃ n, Asking L c data n N (os ++ os') := by
  induction h with
  | @call call N N' before o hrun husable hone hstep hcalled hos =>
    have hpoised : Poised L c N before := by
      refine hrun.inv (I := Poised L c) h₀ ?_
      rintro N N' os o - ih ⟨a, hstep, hfair⟩
      exact ih.step L hstep hfair
    subst hos
    rw [List.append_nil]
    exact .inr ⟨_, asking_call L hpoised husable hone hstep hcalled⟩
  | go _ hstep hawaits ih =>
    rcases ih with hended | ⟨n, hasking⟩
    · exact .inl (hended.step L hstep)
    · rw [← List.append_assoc]
      exact (hasking.step L hstep hawaits).imp Net.Ended.after fun h => ⟨n, h⟩

end

end Pipebomb
