/-
  `get` returns what `set` stored.

  * `Net.Quiet`: a step of the wait for `get` that leaves the key alone.  `Nears`: the two ends
    make one that brings the GET nearer to the server (`Net.distance`).
  * `Fetching.lock_comes`: so GET comes to wait for `db_lock`.  `Fetching.reply_comes`: it gets the
    lock when the coroutine inside gave it back; `Fetching.reply_comes_inLine`: or those that wait
    before, none of which changes the key (`Net.Unqueued`).
  * `Fetching.returns_come`: then the reply is received.
  * `set_get_round_trip`: `get` returns the value and both ends can go on, if the value can be
    the reply to GET.  `get_breaks`: values that cannot.
-/
import Pipebomb.InLine
import Pipebomb.SetGet

namespace Pipebomb

open ByteString

variable {K : Type} (L : Libs K)

variable {c : ConnId} {key value : Bytes} {N N' : Net K} {os os' o : List (Obs K)} {n : ℕ}

/-! ## Steps of the wait -/

/-- A step of the wait that runs no SET or DELETE of the key. -/
structure Net.Quiet (c : ConnId) (key : Bytes) (N : Net K) (a : Net.Act) (o : List (Obs K)) : Prop where
  awaits : N.Awaits c a o
  unwritten : ¬ N.Writes key a o

/-- Only a command under `db_lock` is a request to the database. -/
theorem Handler.effect_kv {s : Server K} {h : Handler} {i : Input} {draw : Uuid4} {data? : Option Bytes}
    {op : KvOp} (he : h.effect s i draw data? = some (.kv op)) :
    ∃ dbOp, h.pc = .dbLock dbOp ∧ kvOp dbOp h.data.tail = some op := by
  rcases Handler.effect_cases he with ⟨dbOp, _, hpc, hop, h⟩ | ⟨_, h⟩ | ⟨_, _, h⟩ | ⟨_, _, h⟩ | ⟨_, _, h⟩ | ⟨_, he⟩
  · cases h
    exact ⟨dbOp, hpc, hop⟩
  · cases h
  · cases h
  · cases h
  · cases h
  · rcases payloadEffect_cases he with ⟨_, h⟩ | ⟨_, h⟩ | ⟨_, _, h⟩ | ⟨_, h⟩
    · cases h
    · cases h
    · cases h
    · cases h

/-- A handler that goes on opens no session. -/
theorem alone_handler {S S' : Sys K} {c' : ConnId} {i : Input} {draw : Uuid4} {h : Handler}
    (htask : S.tasks c' = .handler h) (hs : S.step L (.resume c' i draw) = some (S', o)) :
    S.Alone c (.resume c' i draw) o := by
  have hby : AllBy c' (some h.uuid) o := by
    rcases step_cases L hs with ⟨c₁, hb, -⟩ | ⟨c₁, i₁, draw₁, s, t, hb, ht, -⟩ | ⟨op, hb, -⟩
    · cases hb
    · cases hb
      have hby := taskStep_obs L ht
      rw [htask] at hby
      exact hby
    · cases hb
  refine ⟨fun c₁ u hm => ?_, fun u hm => ?_, fun c₁ u _ hm => ?_, fun op hb => by cases hb⟩
  · cases (hby _ hm).2
  · cases (hby _ hm).2
  · cases (hby _ hm).2

/-- A step of a handler. -/
theorem awaits_handler {S : Sys K} {c' : ConnId} {i : Input} {draw : Uuid4} {h : Handler}
    (htask : N.sys.tasks c' = .handler h) (hs : N.sys.step L (.resume c' i draw) = some (S, o))
    (hi : c' = c → ¬ i.Fails) (hchunk : c' = c → i.chunk <+: N.toServer) :
    N.Awaits c (.server (.resume c' i draw)) o := by
  refine ⟨⟨⟨fun chunk hm => ?_, fun _ hm => (by cases hm)⟩, ?_, trivial, trivial⟩, hi,
    fun _ hb => (by cases hb), fun hb => (by cases hb)⟩
  · cases i with
    | recv chunk' =>
      simp only [Net.Act.toServer, Option.mem_def, Option.ite_none_right_eq_some, Option.some.injEq] at hm
      obtain ⟨hc, rfl⟩ := hm
      exact hchunk hc
    | _ => cases hm
  · rintro b hb
    cases hb
    exact alone_handler L htask hs

/-- A step of a handler that waits with no SET or DELETE of the key. -/
theorem quiet_handler {S : Sys K} {c' : ConnId} {i : Input} {draw : Uuid4} {h : Handler}
    (htask : N.sys.tasks c' = .handler h) (hs : N.sys.step L (.resume c' i draw) = some (S, o))
    (hno : ∀ dbOp op, h.pc = .dbLock dbOp → kvOp dbOp h.data.tail = some op → ¬ op.Changes key)
    (hi : c' = c → ¬ i.Fails) (hchunk : c' = c → i.chunk <+: N.toServer) :
    N.Quiet c key (.server (.resume c' i draw)) o := by
  refine ⟨awaits_handler L htask hs hi hchunk, ?_⟩
  rintro ⟨b, op, hb, he, hop⟩
  cases hb
  simp only [Sys.effect, htask] at he
  obtain ⟨dbOp, hdb, hkv⟩ := Handler.effect_kv he
  exact hno dbOp op hdb hkv hop

/-- A step of the client that calls nothing. -/
theorem quiet_client {b : RawClient.Act} (hchunk : ∀ chunk ∈ (Net.Act.client b).toClient, chunk <+: N.toClient)
    (hcall : ∀ call, b ≠ .call call) (hclose : b ≠ .close) (hpatient : N.Patient (.client b))
    (hlossless : N.Lossless c (.client b)) (o : List (Obs K)) : N.Quiet c key (.client b) o := by
  refine ⟨⟨⟨⟨fun _ hm => (by cases hm), hchunk⟩, fun _ hb => (by cases hb), ?_, hpatient⟩, hlossless,
    fun call hb => ?_, fun hb => ?_⟩, ?_⟩
  · cases b with
    | call call => exact absurd rfl (hcall call)
    | close => exact absurd rfl hclose
    | _ => trivial
  · cases hb
    exact hcall call rfl
  · cases hb
    exact hclose rfl
  · rintro ⟨b, op, hb, -⟩
    cases hb

theorem quiet_sendLoop {i : Input} (hi : ¬ i.Fails) (o : List (Obs K)) :
    N.Quiet c key (.client (.sendLoop i)) o :=
  quiet_client (b := .sendLoop i) (fun _ hm => (by cases hm)) (fun _ hb => (by cases hb))
    (fun hb => by cases hb) trivial hi o

theorem quiet_recvLoop (hne : N.toClient.take 1024 ≠ []) (o : List (Obs K)) :
    N.Quiet c key (.client (.recvLoop (.recv (N.toClient.take 1024)))) o := by
  refine quiet_client (b := .recvLoop (.recv (N.toClient.take 1024))) (fun chunk hm => ?_)
    (fun _ hb => (by cases hb)) (fun hb => by cases hb) trivial hne o
  cases hm
  exact List.take_prefix 1024 _

/-! ## The reply is built -/

/-- How many steps of the handler are left before a command runs, when its packet is there. -/
def Await.distance : Await → ℕ
  | .start | .sendall _ _ => 4
  | .sleep => 3
  | .recv => 2
  | _ => 1

def Task.distance : Task (Accepting K) → ℕ
  | .handler h => h.pc.distance
  | _ => 0

/-- What the client has to send: steps of `send_loop`, and bytes. -/
def RawClient.unsent (C : RawClient K) : ℕ :=
  2 * C.tasks.length + (if C.sendLoop = .sending then 1 else 0) + C.tasks.flatten.length

/-- **What is left before the command runs.** -/
def Net.distance (c : ConnId) (N : Net K) : ℕ :=
  N.client.unsent + N.toServer.length + (N.sys.tasks c).distance

/-- A step of the two ends brings the GET nearer. -/
def Nears (c : ConnId) (key : Bytes) (N : Net K) : Prop :=
  ∃ a N' o, N.step L c a = some (N', o) ∧ N.Quiet c key a o ∧ (∀ c' ∈ (netLine (K := K)).actor a, c' = c) ∧
    N'.distance c < N.distance c

/-- `send_loop` goes on. -/
theorem sendLoop_goes (h : N.client.Working) (hbusy : N.client.sendLoop = .sending ∨ N.client.tasks ≠ []) :
    ∃ i N' o, N.step L c (.client (.sendLoop i)) = some (N', o) ∧ ¬ i.Fails ∧
      N'.distance c < N.distance c := by
  have hconn := h.opened.connected
  have hpaid := h.paid
  cases hw : N.client.sendLoop with
  | dead e => exact absurd hw (h.sends e)
  | sending =>
    rw [if_pos hw] at hpaid
    have hne : N.client.unfinished ≠ 0 := by omega
    have hs : N.step L c (.client (.sendLoop .sent)) = some (N.flow c (.client (.sendLoop .sent)) N.sys
        { N.client.sent with sendLoop := .waiting, unfinished := N.client.unfinished - 1 } [], []) := by
      simp only [Net.step, RawClient.step, if_pos hconn, RawClient.sendLoopStep, hw, if_neg hne]
    refine ⟨.sent, _, _, hs, id, ?_⟩
    simp only [Net.distance, RawClient.unsent, Net.flow, RawClient.sent, hw, Net.Act.toServer, Net.written,
      if_true]
    simp
  | waiting =>
    rcases htasks : N.client.tasks with _ | ⟨p, ps⟩
    · rw [hw, htasks] at hbusy
      simp at hbusy
    · have hs : N.step L c (.client (.sendLoop .go)) = some (N.flow c (.client (.sendLoop .go)) N.sys
          { N.client with tasks := ps, sendLoop := .sending } [.write .client p], [.write .client p]) := by
        simp only [Net.step, RawClient.step, if_pos hconn, RawClient.sendLoopStep, hw, htasks]
      refine ⟨.go, _, _, hs, id, ?_⟩
      simp only [Net.distance, RawClient.unsent, Net.flow, hw, htasks, Net.Act.toServer, Net.written, if_true]
      simp
      omega

/-- `recv_loop` reads on. -/
theorem recvLoop_goes (h : N.client.Working) (hfeed : N.toClient ≠ []) :
    ∃ N' o, N.step L c (.client (.recvLoop (.recv (N.toClient.take 1024)))) = some (N', o) ∧
      N.toClient.take 1024 ≠ [] ∧ N'.toClient.length < N.toClient.length ∧
      N'.client.calls = N.client.calls := by
  obtain ⟨b, hb, -⟩ := h.receives
  have hconn := h.opened.connected
  have hlen : (N.toClient.take 1024).length = min 1024 N.toClient.length := List.length_take
  have hpos := List.length_pos_iff.2 hfeed
  have hne : N.toClient.take 1024 ≠ [] := by simpa using hfeed
  obtain ⟨⟨C, o⟩, hs⟩ : ∃ out, N.client.recvLoopStep L (.recv (N.toClient.take 1024)) = some out := by
    simp only [RawClient.recvLoopStep, hb, if_neg (show ¬ 1024 < (N.toClient.take 1024).length by omega),
      if_neg hne]
    split
    · exact ⟨_, rfl⟩
    · exact ⟨_, rfl⟩
    · exact ⟨_, rfl⟩
  have hs' : N.client.step L (.recvLoop (.recv (N.toClient.take 1024))) = some (C, o) := by
    simp only [RawClient.step, if_pos hconn, hs]
  have hstep : N.step L c (.client (.recvLoop (.recv (N.toClient.take 1024)))) =
      some (N.flow c (.client (.recvLoop (.recv (N.toClient.take 1024)))) N.sys C o, o) := by
    simp only [Net.step, hs']
  obtain ⟨-, hflow⟩ := flow_client L (N := N) (c := c) (b := .recvLoop (.recv (N.toClient.take 1024)))
    (C := C) ((client_atClient L hs').tally L)
  refine ⟨_, o, hstep, hne, ?_, (recvLoopStep_receives L hs).calls⟩
  rw [hflow, List.length_drop]
  show N.toClient.length - (N.toClient.take 1024).length < _
  omega

/-- What is left after a step of a coroutine. -/
theorem distance_resume {c' : ConnId} {i : Input} {draw : Uuid4} {s : Server K} {t : Task (Accepting K)}
    (hs : N.sys.step L (.resume c' i draw) = some (N.sys.put c' s t, o)) :
    (N.flow c (.server (.resume c' i draw)) (N.sys.put c' s t) N.client o).distance c = N.client.unsent +
      (N.toServer.length - (((Net.Act.server (.resume c' i draw)).toServer c).getD []).length) +
        ((N.sys.put c' s t).tasks c).distance := by
  obtain ⟨hflow, -⟩ := flow_server L (N := N) (c := c) (b := .resume c' i draw) (S := N.sys.put c' s t)
    (server_silent L hs).1
  rw [Net.distance, hflow, List.length_drop]
  rfl

/-- The handler goes on. -/
theorem resume_nears {i : Input} {draw : Uuid4} {h h' : Handler} {out : Outcome K (Accepting K)}
    (htask : N.sys.tasks c = .handler h) (ho : handlerStep L N.sys.server c h i draw = some out)
    (htask' : out.2.1 = .handler h') (hpc : ∀ op, h.pc ≠ .dbLock op) (hi : ¬ i.Fails)
    (hchunk : i.chunk <+: N.toServer)
    (hless : h'.pc.distance + (N.toServer.length - i.chunk.length) < h.pc.distance + N.toServer.length) :
    Nears L c key N := by
  obtain ⟨s, t, o⟩ := out
  obtain rfl : t = .handler h' := htask'
  have hs : N.sys.step L (.resume c i draw) = some (N.sys.put c s (.handler h'), o) := by
    simp only [Sys.step, taskStep, htask, ho]
  have hstep : N.step L c (.server (.resume c i draw)) =
      some (N.flow c (.server (.resume c i draw)) (N.sys.put c s (.handler h')) N.client o, o) := by
    simp only [Net.step, hs]
  have hquiet : N.Quiet c key (.server (.resume c i draw)) o :=
    quiet_handler L htask hs (fun op _ hop => absurd hop (hpc op)) (fun _ => hi) fun _ => hchunk
  refine ⟨_, _, _, hstep, hquiet, fun _ hc => (Option.some.inj hc).symm, ?_⟩
  have hlen : (((Net.Act.server (.resume c i draw)).toServer c).getD []).length = i.chunk.length := by
    cases i <;> simp [Net.Act.toServer, Input.chunk]
  rw [distance_resume L hs, put_tasks_self, hlen, Net.distance, htask]
  simp only [Task.distance]
  omega

theorem Handler.Receiving.near {h : Handler} (hr : h.Receiving key) : h.pc.distance ≤ 2 := by
  cases hr with
  | recv hpc _ =>
    rw [hpc]
    exact le_rfl
  | reading hpc _ =>
    rw [hpc]
    exact Nat.le_succ 1

/-- The GET was sent, and the server waits for it: bytes are on their way. -/
theorem Fetching.get_arrives (h : Fetching L c key value n os N os') {k : K} {m : ℕ} {f : ClientEnd K}
    {xs : List (K × ℕ × Bytes)} (hlock : Locked L c N (os ++ os') (.idle k m) f xs)
    (hk : (N.sys.tasks c).Keyed) (htasks : N.client.tasks = [])
    (hreplies : (built L (.server c) (os ++ os')).length = n)
    (hmore : packetFraming.cut (N.sys.tasks c).buffer = .more) : N.toServer ≠ [] := by
  obtain ⟨hfeeding, hin⟩ := hlock.feeding L hk
  have hxs : xs.length = n + 1 := by
    obtain ⟨pending, hb, hp⟩ := hlock.client.built
    rw [htasks] at hp
    rw [List.map_eq_nil_iff.1 hp.symm, List.append_nil] at hb
    rw [← h.asked, ← hb]
    rfl
  have hunread : (tally L (.server c) (os ++ os')).opened.length = n := by
    obtain ⟨-, hacc, -⟩ := (place_keyed L hk).1 hlock.server.place
    obtain ⟨hlen, hlen'⟩ := (hlock.ok L).1
    have hlen := hlen.length
    simp only [tally] at hacc hlen hlen' ⊢
    omega
  refine hin.hungry packetFraming (hfeeding.numbered.complete L _) hmore ?_
  rw [length_stream, hxs, hunread]
  exact Nat.lt_succ_self _

/-- **The server comes nearer to the GET**, or waits for the lock to run it. -/
theorem Fetching.nears (h : Fetching L c key value n os N os')
    (hreplies : (built L (.server c) (os ++ os')).length = n) :
    (N.sys.tasks c).waitsFor = some .dbLock ∨ Nears L c key N := by
  by_cases hbusy : N.client.sendLoop = .sending ∨ N.client.tasks ≠ []
  · obtain ⟨i, N', o, hstep, hi, hless⟩ := sendLoop_goes L (c := c) h.client hbusy
    exact .inr ⟨_, N', o, hstep, quiet_sendLoop hi o, fun _ hc => (by cases hc), hless⟩
  push Not at hbusy
  obtain ⟨-, htasks⟩ := hbusy
  let draw : Uuid4 := ⟨[], []⟩
  obtain ⟨h₀, htask, hserving⟩ := h.served
  obtain ⟨⟨e, f, xs, hlock⟩, -⟩ := h.steady.conversing
  have hk : (N.sys.tasks c).Keyed := by
    rw [htask]
    trivial
  obtain ⟨hfeeding, hin⟩ := hlock.feeding L hk
  have hat := hlock.side.atEnd
  have hnext : ∀ x, xs[(tally L (.server c) (os ++ os')).opened.length]? = some x → x.2.2 = getPayload key :=
    fun x hx => h.next L hlock h.took.2 hx
  rw [htask] at hat hin
  obtain ⟨k, m, hl, he⟩ := hat
  have hother : ∀ {pc : Await}, h₀.pc = pc → (∀ op, pc ≠ .dbLock op) → ∀ op, h₀.pc ≠ .dbLock op :=
    fun hpc hno op hop => hno op (hpc.symm.trans hop)
  cases hserving with
  | start hpc =>
    obtain ⟨cl, hcl, hkey, -⟩ := hl
    have ho : handlerStep (A := Accepting K) L N.sys.server c h₀ .go draw =
        some (N.sys.server, .handler { h₀ with pc := .sleep }, []) := by
      simp only [handlerStep, hpc, started, hcl, hkey]
      rfl
    refine .inr (resume_nears L htask ho rfl (hother hpc (by simp)) id List.nil_prefix ?_)
    rw [hpc]
    simp only [Await.distance, Input.chunk]
    omega
  | sleep hpc =>
    rw [hpc] at hl he
    subst he
    have ho : handlerStep (A := Accepting K) L N.sys.server c h₀ .go draw =
        some (pump L N.sys.server c h₀ draw) := by
      simp only [handlerStep, hpc]
    have hlooks : Looks L c key (pump (A := Accepting K) L N.sys.server c h₀ draw) :=
      pump_looks L hl hfeeding hin hnext
    obtain ⟨h', htask', hr⟩ := hlooks.receiving
    refine .inr (resume_nears L htask ho htask' (hother hpc (by simp)) id List.nil_prefix ?_)
    rw [hpc]
    exact Nat.add_lt_add_right (show _ < 3 from hr.near.trans_lt (Nat.lt_succ_self 2)) _
  | @sending held hpc =>
    obtain ⟨cl, hcl, -⟩ := hl
    obtain ⟨r, hu, -⟩ := Server.client_eq_some.1 hcl
    have ho : handlerStep (A := Accepting K) L N.sys.server c h₀ .sent draw =
        some ((N.sys.server.modify r Client.sent).release held, .handler { h₀ with pc := .sleep }, []) := by
      simp only [handlerStep, hpc, onSent, hu]
    refine .inr (resume_nears L htask ho rfl (hother hpc (by simp)) id List.nil_prefix ?_)
    rw [hpc]
    simp only [Await.distance, Input.chunk]
    omega
  | receiving hr =>
    cases hr with
    | recv hpc hmore =>
      rw [hpc] at hl he
      subst he
      have hfeed := h.get_arrives L hlock hk htasks hreplies (by rw [htask]; exact hmore)
      have hpos := List.length_pos_iff.2 hfeed
      have hlen : (Input.recv (N.toServer.take 1024)).chunk.length = min 1024 N.toServer.length :=
        List.length_take
      have hne : N.toServer.take 1024 ≠ [] := by simpa using hfeed
      let h₁ : Handler := { h₀ with receiveBuffer := h₀.receiveBuffer ++ N.toServer.take 1024 }
      have ho : handlerStep (A := Accepting K) L N.sys.server c h₀ (.recv (N.toServer.take 1024)) draw =
          some (pump L N.sys.server c h₁ draw) := by
        have hshort : ¬ 1024 < (N.toServer.take 1024).length := by
          rw [List.length_take]
          omega
        simp only [handlerStep, hpc, if_neg hshort, if_neg hne]
        rfl
      have hlooks : Looks L c key (pump (A := Accepting K) L N.sys.server c h₁ draw) :=
        pump_looks L (h := h₁) hl hfeeding (hin.arrive (List.take_prefix 1024 _)) hnext
      obtain ⟨h', htask', hr⟩ := hlooks.receiving
      refine .inr (resume_nears L htask ho htask' (hother hpc (by simp)) hne (List.take_prefix 1024 _) ?_)
      rw [hpc]
      refine Nat.add_lt_add_of_le_of_lt hr.near ?_
      omega
    | reading hpc _ => exact .inl (waitsFor_eq_some.2 ⟨by simp, h₀, htask, by rw [hpc]; rfl⟩)

/-! ### The lock -/

/-- The handler that waits for `db_lock` runs GET. -/
theorem Fetching.waits (h : Fetching L c key value n os N os')
    (hw : (N.sys.tasks c).waitsFor = some .dbLock) :
    ∃ h₀, N.sys.tasks c = .handler h₀ ∧ h₀.pc = .dbLock .get ∧ h₀.data = getPayload key := by
  obtain ⟨h₀, htask, hserving⟩ := h.served
  obtain ⟨-, h₁, htask₁, hwants⟩ := waitsFor_eq_some.1 hw
  obtain rfl : h₀ = h₁ := Task.handler.inj (htask.symm.trans htask₁)
  cases hserving with
  | receiving hr =>
    cases hr with
    | recv hpc _ =>
      rw [hpc] at hwants
      cases hwants
    | reading hpc hdata => exact ⟨h₀, htask, hpc, hdata⟩
  | start hpc | sleep hpc | sending hpc =>
    rw [hpc] at hwants
    cases hwants

/-- It waits for no other lock. -/
theorem Fetching.waitsFor (h : Fetching L c key value n os N os') :
    (N.sys.tasks c).waitsFor = none ∨ (N.sys.tasks c).waitsFor = some .dbLock := by
  obtain ⟨h₀, htask, hserving⟩ := h.served
  have hnone : h₀.pc.wants = .none → (N.sys.tasks c).waitsFor = none := by
    intro hwants
    refine waitsFor_none fun g hg => ?_
    obtain rfl : h₀ = g := Task.handler.inj (htask.symm.trans hg)
    exact hwants
  cases hserving with
  | receiving hr =>
    cases hr with
    | recv hpc _ => exact .inl (hnone (by rw [hpc]; rfl))
    | reading hpc _ => exact .inr (waitsFor_eq_some.2 ⟨by simp, h₀, htask, by rw [hpc]; rfl⟩)
  | start hpc | sleep hpc | sending hpc => exact .inl (hnone (by rw [hpc]; rfl))

/-- **GET runs** when the lock is free: the reply is built. -/
theorem Fetching.runs_next (h : Fetching L c key value n os N os') (hok : Returnable L value)
    (hw : (N.sys.tasks c).waitsFor = some .dbLock) (hfree : ¬ N.sys.server.Locked .dbLock) (draw : Uuid4) :
    ∃ N' o, N.step L c (.server (.resume c .go draw)) = some (N', o) ∧
      N.Quiet c key (.server (.resume c .go draw)) o ∧ built L (.server c) o ≠ [] := by
  obtain ⟨h₀, htask, hpc, hdata⟩ := h.waits L hw
  obtain ⟨⟨e, f, xs, hlock⟩, -⟩ := h.steady.conversing
  have hk : (N.sys.tasks c).Keyed := by
    rw [htask]
    trivial
  have hat := hlock.side.atEnd
  rw [htask] at hat
  obtain ⟨k, m, hl, he⟩ := hat
  rw [hpc] at hl he
  subst he
  obtain ⟨hget, hm⟩ := h.running L hlock hk
  obtain ⟨-, hbuilt⟩ := get_replies L (c := c) hl hdata hget hok hm
  have hunlocked : ¬ N.sys.server.dbLock = true := hfree
  rcases hout : sendReply (A := Accepting K) L
    (DbOp.get.run (N.sys.server.setDbLock true) h₀.data.tail).1 c h₀
    (DbOp.get.run (N.sys.server.setDbLock true) h₀.data.tail).2 .dbLock .next with ⟨s, t, o⟩
  rw [hout] at hbuilt
  have hs : N.sys.step L (.resume c .go draw) = some (N.sys.put c s t, o) := by
    simp only [Sys.step, taskStep, htask, handlerStep, hpc, if_neg hunlocked, hout]
  refine ⟨_, o, by simp only [Net.step, hs]; rfl, quiet_handler L htask hs ?_ (fun _ => id)
    (fun _ => List.nil_prefix), ?_⟩
  · intro dbOp op hop hkv
    rw [hpc] at hop
    cases hop
    cases hkv
    exact id
  · rw [hbuilt]
    exact List.cons_ne_nil _ _

/-- Steps in line of the wait that run no SET or DELETE of the key. -/
def Net.Calm (c : ConnId) (key : Bytes) (x y : Net K × (Held → List ConnId)) (os : List (Obs K)) : Prop :=
  Lts.Run (Lts.Guarded (netLine.inLine (Net.step L c)) fun x a o => x.1.Quiet c key a o) x y os

/-- No other coroutine waits for `db_lock` with a SET or a DELETE of the key. -/
def Net.Unqueued (c : ConnId) (key : Bytes) (N : Net K) : Prop :=
  ∀ c' h dbOp op, c' ≠ c → N.sys.tasks c' = .handler h → h.pc = .dbLock dbOp →
    kvOp dbOp h.data.tail = some op → ¬ op.Changes key

section
variable {q q' : Held → List ConnId} {os'' : List (Obs K)} {a : Net.Act}

theorem Fetching.run (h : Fetching L c key value n os N os') (hok : Returnable L value)
    (hrun : Lts.Run (Lts.Guarded (Net.step L c) (Net.Quiet c key)) N N' os'') :
    Fetching L c key value n os N' (os' ++ os'') := by
  refine hrun.inv (I := fun N os'' => Fetching L c key value n os N (os' ++ os''))
    (by rwa [List.append_nil]) ?_
  rintro N₁ N₂ os₁ o - ih ⟨a, hstep, hquiet⟩
  rw [← List.append_assoc]
  exact ih.step L hok hstep hquiet.awaits fun hw => absurd hw hquiet.unwritten

/-- A handler that makes no step was there before. -/
theorem netStep_handler {c' : ConnId} {g : Handler} (hstep : N.step L c a = some (N', o))
    (ha : (netLine (K := K)).actor a ≠ some c') (hg : N'.sys.tasks c' = .handler g) :
    N.sys.tasks c' = .handler g := by
  rcases Net.step_cases L hstep with ⟨b, S, rfl, hs, rfl⟩ | ⟨b, C, rfl, hs, rfl⟩
  · rcases step_cases L hs with ⟨c₁, rfl, -, -, rfl⟩ | ⟨c₁, i, draw, s, t, rfl, -, rfl⟩ | ⟨op, rfl, -, rfl⟩
    · by_cases hc : c' = c₁
      · subst hc
        rw [show (N.flow c _ (N.sys.put c' _ _) N.client o).sys.tasks c' = _ from put_tasks_self] at hg
        cases hg
      · rwa [show (N.flow c _ (N.sys.put c₁ _ _) N.client o).sys.tasks c' = _ from put_tasks_ne hc] at hg
    · have hc : c' ≠ c₁ := fun hc => ha (congrArg some hc.symm)
      rwa [show (N.flow c _ (N.sys.put c₁ s t) N.client o).sys.tasks c' = _ from put_tasks_ne hc] at hg
    · exact hg
  · exact hg

/-- A step of the connection, or of one that waits for nothing after it. -/
theorem Net.Unqueued.step (h : N.Unqueued c key) (hstep : N.step L c a = some (N', o))
    (ha : ∀ c' ∈ (netLine (K := K)).actor a, c' = c ∨ (N'.sys.tasks c').waitsFor = none) :
    N'.Unqueued c key := by
  intro c' g dbOp op hne hg hpc hop
  refine h c' g dbOp op hne (netStep_handler L hstep (fun hact => ?_) hg) hpc hop
  rcases ha c' hact with hc | hnone
  · exact hne hc
  · have hwaits : (N'.sys.tasks c').waitsFor = some .dbLock :=
      waitsFor_eq_some.2 ⟨by simp, g, hg, by rw [hpc]; rfl⟩
    rw [hwaits] at hnone
    cases hnone

/-- **GET comes to wait for the lock**, or its reply is there. -/
theorem Fetching.lock_comes (h : Fetching L c key value n os N os') (hok : Returnable L value)
    (q : Held → List ConnId) :
    ∃ N₁ q₁ os₁, Net.Calm L c key (N, q) (N₁, q₁) os₁ ∧ (N.Unqueued c key → N₁.Unqueued c key) ∧
      (n < (built L (.server c) (os ++ (os' ++ os₁))).length ∨
        (N₁.sys.tasks c).waitsFor = some .dbLock) := by
  suffices hprogress : ∃ N₁ q₁ os₁, Net.Calm L c key (N, q) (N₁, q₁) os₁ ∧
      (Fetching L c key value n os N₁ (os' ++ os₁) ∧ (N.Unqueued c key → N₁.Unqueued c key)) ∧
      (n < (built L (.server c) (os ++ (os' ++ os₁))).length ∨
        (N₁.sys.tasks c).waitsFor = some .dbLock) by
    obtain ⟨N₁, q₁, os₁, hrun, ⟨-, hfree⟩, hend⟩ := hprogress
    exact ⟨N₁, q₁, os₁, hrun, hfree, hend⟩
  refine Line.progress (P := fun N₁ os' =>
      Fetching L c key value n os N₁ os' ∧ (N.Unqueued c key → N₁.Unqueued c key))
    (Q := fun N₁ os' => n < (built L (.server c) (os ++ os')).length ∨
      (N₁.sys.tasks c).waitsFor = some .dbLock) (Net.distance c) ?_ ⟨h, id⟩ q
  rintro N₁ q₁ os₁ ⟨h₁, hfree⟩ hQ
  simp only [not_or, not_lt] at hQ
  obtain ⟨hnone, hwaits⟩ := hQ
  have hreplies := h₁.replies
  have hnears : (N₁.sys.tasks c).waitsFor = some .dbLock ∨ Nears L c key N₁ := h₁.nears L (by omega)
  obtain ⟨a, N₂, o, hstep, hquiet, hactor, hless⟩ := hnears.resolve_left hwaits
  -- the coroutine of the connection waits for no lock
  have hturn : netLine.InTurn N₁ q₁ a := by
    refine Line.inTurn_of_not_waits fun c' hc' => ?_
    obtain rfl := hactor c' hc'
    exact (h₁.waitsFor L).resolve_right hwaits
  exact ⟨a, N₂, o, hstep, hquiet, hturn,
    ⟨h₁.step L hok hstep hquiet.awaits fun hw => absurd hw hquiet.unwritten,
      fun hno => (hfree hno).step L hstep fun c' hc' => .inl (hactor c' hc')⟩, .inr hless⟩

/-- The lock is given back, and GET waits for it. -/
theorem Fetching.lock_frees (h : Fetching L c key value n os N os')
    (hw : (N.sys.tasks c).waitsFor = some .dbLock) :
    ∃ N₁ os₁, Lts.Run (Lts.Guarded (Net.step L c) (Net.Quiet c key)) N N₁ os₁ ∧
      (N₁.sys.tasks c).waitsFor = some .dbLock ∧ ¬ N₁.sys.server.Locked .dbLock := by
  by_cases hlocked : N.sys.server.Locked .dbLock
  swap
  · exact ⟨N, [], .nil, hw, hlocked⟩
  have hkept : N.sys.Kept .dbLock := ⟨h.steady.sound, fun hne => absurd rfl hne, fun _ => h.steady.lock⟩
  obtain ⟨c', s, t, o, hsends, hs, -, -, hfree⟩ := hkept.release L (by simp) hlocked ⟨[], []⟩
  have hne : c' ≠ c := by
    rintro rfl
    have hnone := SendsUnder.waitsFor hsends
    rw [hw] at hnone
    cases hnone
  have hstep : N.step L c (.server (.resume c' .sent ⟨[], []⟩)) =
      some (N.flow c (.server (.resume c' .sent ⟨[], []⟩)) (N.sys.put c' s t) N.client o, o) := by
    simp only [Net.step, hs]
  have hy : N.Yields c .dbLock (.server (.resume c' .sent ⟨[], []⟩)) := .sent hne hsends
  refine ⟨_, o, .single ⟨_, hstep, ?_⟩, by rw [hy.tasks L hstep]; exact hw, hfree⟩
  obtain ⟨g, hg, after, hpc⟩ : ∃ g, N.sys.tasks c' = .handler g ∧ ∃ after, g.pc = .sendall .dbLock after := by
    cases hg : N.sys.tasks c' with
    | handler g =>
      rw [hg] at hsends
      exact ⟨g, rfl, hsends⟩
    | _ =>
      rw [hg] at hsends
      exact hsends.elim
  exact quiet_handler L hg hs (fun dbOp _ hop => by rw [hpc] at hop; cases hop) (fun hc => absurd hc hne)
    fun hc => absurd hc hne

theorem Fetching.built_more (h : Fetching L c key value n os N os') (hbuilt : built L (.server c) o ≠ []) :
    n < (built L (.server c) (os ++ (os' ++ o))).length := by
  have hreplies := h.replies
  have hpos := List.length_pos_iff.2 hbuilt
  rw [← List.append_assoc, built_append, List.length_append]
  omega

/-- **The reply comes** when the lock is given back. -/
theorem Fetching.reply_comes (h : Fetching L c key value n os N os') (hok : Returnable L value) :
    ∃ N₁ os₁, Lts.Run (Lts.Guarded (Net.step L c) (Net.Quiet c key)) N N₁ os₁ ∧
      n < (built L (.server c) (os ++ (os' ++ os₁))).length := by
  obtain ⟨N₁, q₁, os₁, hrun₁, -, hreply | hwaits₁⟩ := h.lock_comes L hok fun _ => []
  · exact ⟨N₁, os₁, Line.run_left hrun₁, hreply⟩
  obtain ⟨N₂, os₂, hrun₂, hwaits₂, hfree⟩ := (h.run L hok (Line.run_left hrun₁)).lock_frees L hwaits₁
  have hrun := (Line.run_left hrun₁).trans hrun₂
  have h₂ := h.run L hok hrun
  obtain ⟨N₃, o, hstep, hquiet, hbuilt⟩ := h₂.runs_next L hok hwaits₂ hfree ⟨[], []⟩
  have hreply := h₂.built_more L hbuilt
  rw [List.append_assoc os'] at hreply
  exact ⟨N₃, _, hrun.snoc ⟨_, hstep, hquiet⟩, hreply⟩

/-- Those that hold the lock, or wait for it before. -/
theorem yields_quiet (hw : (N.sys.tasks c).waitsFor = some .dbLock) (hno : N.Unqueued c key)
    (hS : N.sys.Sound) (hy : N.Yields c .dbLock a) (hstep : N.step L c a = some (N', o)) :
    N.Quiet c key a o ∧ (N'.sys.tasks c).waitsFor = some .dbLock ∧ N'.Unqueued c key ∧ N'.sys.Sound := by
  have hwaits : (N'.sys.tasks c).waitsFor = some .dbLock := by
    rw [hy.tasks L hstep]
    exact hw
  have hno' := hno.step L hstep fun c' hc' => .inr (hy.leaves L hS (by simp) hstep c' hc')
  obtain ⟨c', i, draw, g, rfl, hne, hg, -⟩ := hy.handler
  rcases Net.step_cases L hstep with ⟨b, S, hb, hs, rfl⟩ | ⟨b, C, hb, -⟩
  · cases hb
    exact ⟨quiet_handler L hg hs (hno c' g · · hne hg) (fun hc => absurd hc hne) fun hc => absurd hc hne,
      hwaits, hno', step_sound L hS hs⟩
  · cases hb

/-- **The reply comes in line**: GET runs when those that wait before had the lock. -/
theorem Fetching.reply_comes_inLine (h : Fetching L c key value n os N os') (hok : Returnable L value)
    (hlined : netLine.Lined N q) (hno : N.Unqueued c key) :
    ∃ N₁ q₁ os₁, Net.Calm L c key (N, q) (N₁, q₁) os₁ ∧
      n < (built L (.server c) (os ++ (os' ++ os₁))).length := by
  obtain ⟨N₁, q₁, os₁, hrun₁, hno₁, hreply | hwaits₁⟩ := h.lock_comes L hok q
  · exact ⟨N₁, q₁, os₁, hrun₁, hreply⟩
  have h₁ := h.run L hok (Line.run_left hrun₁)
  have hkept : N₁.sys.Kept .dbLock := ⟨h₁.steady.sound, fun hne => absurd rfl hne, fun _ => h₁.steady.lock⟩
  -- those that wait before go first
  obtain ⟨N₂, q₂, os₂, hrun₂, -, ⟨hwaits₂, -⟩, hfree, -, hfirst⟩ :=
    net_turn_comes L (J := fun N => (N.sys.tasks c).waitsFor = some .dbLock ∧ N.Unqueued c key ∧ N.sys.Sound)
      And.left (fun hJ hy hstep => yields_quiet L hJ.1 hJ.2.1 hJ.2.2 hy hstep) hkept
      ⟨hwaits₁, hno₁ hno, hkept.sound⟩ (Line.Lined.run (netLine_local L c) hlined hrun₁) ⟨[], []⟩
  have hrun := hrun₁.trans hrun₂
  have h₂ := h.run L hok (Line.run_left hrun)
  obtain ⟨N₃, o, hstep, hquiet, hbuilt⟩ := h₂.runs_next L hok hwaits₂ hfree ⟨[], []⟩
  have hturn : netLine.InTurn N₂ q₂ (.server (.resume c .go ⟨[], []⟩)) :=
    Line.inTurn_of_first rfl hwaits₂ hfirst
  have hreply := h₂.built_more L hbuilt
  rw [List.append_assoc os'] at hreply
  exact ⟨N₃, _, _, hrun.trans (Line.single hstep hquiet hturn), hreply⟩

end

/-! ## The return -/

/-- The reply was built: bytes of it are on their way, or it is in the queue. -/
theorem Fetching.reply_arrives (h : Fetching L c key value n os N os')
    (hreply : n < (built L (.server c) (os ++ os')).length) (hreturns : returns os' = [])
    (hinput : N.client.inputPackets = []) : N.toClient ≠ [] := by
  obtain ⟨⟨e, f, xs, hlock⟩, hcorr⟩ := h.steady.conversing
  obtain ⟨b, hb, hmore⟩ := h.client.receives
  have hconn := h.client.opened.connected
  obtain ⟨k, hk⟩ := Option.ne_none_iff_exists'.1 h.client.opened.cipher
  have hreading : N.client.reading = some b := by
    simp [RawClient.reading, hconn, hk, hb]
  have hkeyed : N.client.Keyed := by
    rw [RawClient.Keyed, hconn]
    trivial
  have hfeeding := hlock.clientFeeding L hkeyed
  obtain ⟨-, hin⟩ := hfeeding.place b hreading
  have hall := congrArg List.length (hcorr.reading hconn (by rw [hreading]; exact Option.some_ne_none b))
  rw [returns_append, hreturns, hinput, List.append_nil, List.append_nil, List.length_map, List.length_drop,
    List.length_take, length_payloads] at hall
  have hreturned := h.returned
  refine hin.hungry packetFraming (hfeeding.numbered.complete L _) hmore ?_
  rw [length_stream]
  simp only [tally]
  omega

/-- **`get` comes nearer to its return.** -/
theorem Fetching.takes_next (h : Fetching L c key value n os N os')
    (hreply : n < (built L (.server c) (os ++ os')).length)
    (hreturned : returns os' ≠ [(getPayload key, value)]) :
    ∃ b N' o, N.step L c (.client b) = some (N', o) ∧ N.Quiet c key (.client b) o ∧
      N'.toClient.length + N'.client.calls.length < N.toClient.length + N.client.calls.length := by
  obtain ⟨hcalls, hreturns⟩ := h.calls.resolve_right fun h => hreturned h.2
  have hconn := h.client.opened.connected
  rcases hinput : N.client.inputPackets with _ | ⟨p, ps⟩
  · obtain ⟨N', o, hstep, hne, hless, hsame⟩ :=
      recvLoop_goes L (c := c) h.client (h.reply_arrives L hreply hreturns hinput)
    exact ⟨_, N', o, hstep, quiet_recvLoop hne o, by rw [hsame]; omega⟩
  · have hs : N.client.step L (.receive 0) =
        some ({ N.client with inputPackets := ps, calls := [] }, [.returned (getPayload key) p]) := by
      simp only [RawClient.step, hcalls, hinput]
      rfl
    have hstep : N.step L c (.client (.receive 0)) = some (N.flow c (.client (.receive 0)) N.sys
        { N.client with inputPackets := ps, calls := [] } [.returned (getPayload key) p],
          [.returned (getPayload key) p]) := by
      simp only [Net.step, hs]
    refine ⟨_, _, _, hstep, quiet_client (b := .receive 0) (fun _ hm => (by cases hm))
      (fun _ hb => (by cases hb)) (fun hb => by cases hb) trivial trivial _, ?_⟩
    obtain ⟨-, hflow⟩ := flow_client L (N := N) (c := c) (b := .receive 0)
      (C := { N.client with inputPackets := ps, calls := [] }) ((client_atClient L hs).tally L)
    rw [hflow, List.length_drop, hcalls]
    exact Nat.add_lt_add_left Nat.zero_lt_one _

/-- The reply that was built is received. -/
theorem Fetching.returns_come (h : Fetching L c key value n os N os') (hok : Returnable L value)
    (hreply : n < (built L (.server c) (os ++ os')).length) (q : Held → List ConnId) :
    ∃ N'' q'' os'', Net.Calm L c key (N, q) (N'', q'') os'' ∧
      returns (os' ++ os'') = [(getPayload key, value)] := by
  suffices hprogress : ∃ N'' q'' os'', Net.Calm L c key (N, q) (N'', q'') os'' ∧
      (Fetching L c key value n os N'' (os' ++ os'') ∧
        n < (built L (.server c) (os ++ (os' ++ os''))).length) ∧
          returns (os' ++ os'') = [(getPayload key, value)] by
    obtain ⟨N'', q'', os'', hrun, -, hreturned⟩ := hprogress
    exact ⟨N'', q'', os'', hrun, hreturned⟩
  refine Line.progress
    (P := fun N os' => Fetching L c key value n os N os' ∧ n < (built L (.server c) (os ++ os')).length)
    (Q := fun _ os' => returns os' = [(getPayload key, value)])
    (fun N => N.toClient.length + N.client.calls.length) ?_ ⟨h, hreply⟩ q
  rintro N q os' ⟨h, hreply⟩ hreturned
  obtain ⟨b, N', o, hstep, hquiet, hlt⟩ := h.takes_next L hreply hreturned
  -- the client waits for no lock
  have hturn : netLine.InTurn N q (.client b) := Line.inTurn_of_not_waits fun _ hc => by cases hc
  refine ⟨_, N', o, hstep, hquiet, hturn,
    ⟨h.step L hok hstep hquiet.awaits (fun hw => absurd hw hquiet.unwritten), ?_⟩, .inr hlt⟩
  rw [← List.append_assoc, built_append, List.length_append]
  exact Nat.lt_add_right _ hreply

/-- **`get` returns** the value. -/
theorem Fetching.returning (h : Fetching L c key value n os N os') (hok : Returnable L value) :
    ∃ N'' os'', Lts.Run (Lts.Guarded (Net.step L c) (Net.Quiet c key)) N N'' os'' ∧
      returns (os' ++ os'') = [(getPayload key, value)] := by
  obtain ⟨N₁, os₁, hrun₁, hreply⟩ := h.reply_comes L hok
  obtain ⟨N₂, q₂, os₂, hrun₂, hreturned⟩ := (h.run L hok hrun₁).returns_come L hok hreply fun _ => []
  rw [List.append_assoc] at hreturned
  exact ⟨N₂, os₁ ++ os₂, hrun₁.trans (Line.run_left hrun₂), hreturned⟩

/-- It returns in line. -/
theorem Fetching.returning_inLine (h : Fetching L c key value n os N os') (hok : Returnable L value)
    {q : Held → List ConnId} (hlined : netLine.Lined N q) (hno : N.Unqueued c key) :
    ∃ N'' q'' os'', Net.Calm L c key (N, q) (N'', q'') os'' ∧
      returns (os' ++ os'') = [(getPayload key, value)] := by
  obtain ⟨N₁, q₁, os₁, hrun₁, hreply⟩ := h.reply_comes_inLine L hok hlined hno
  obtain ⟨N₂, q₂, os₂, hrun₂, hreturned⟩ :=
    (h.run L hok (Line.run_left hrun₁)).returns_come L hok hreply q₁
  rw [List.append_assoc] at hreturned
  exact ⟨N₂, q₂, os₁ ++ os₂, hrun₁.trans hrun₂, hreturned⟩

/-- The wait goes on. -/
theorem Getting.run {N₀ N'' : Net K} {os'' : List (Obs K)} (h : Getting L c key value N₀ os N os')
    (hrun : Lts.Run (Lts.Guarded (Net.step L c) (Net.Quiet c key)) N N'' os'') :
    Getting L c key value N₀ os N'' (os' ++ os'') := by
  induction hrun with
  | nil => rwa [List.append_nil]
  | snoc _ hst ih =>
    obtain ⟨a, hstep, hquiet⟩ := hst
    rw [← List.append_assoc]
    exact ih.go hstep hquiet.awaits fun hw => absurd hw hquiet.unwritten

/-- **Set and get**: after `set` stored a value that can be the reply to GET, and while no other SET
    or DELETE of the key runs, `get` returns the value: it returns nothing else, and from every state
    that is reached the run goes on to its return; in whatever order the coroutines wait for the
    locks, it does so in line, if none of them waits with a SET or a DELETE of the key.  Client and
    server stay in lockstep and can go on. -/
theorem set_get_round_trip {S : Sys K} (hS : S.Sound) (hlock : dbMutex.Sound S) (hidle : S.tasks c = .idle)
    (peer : String) (password : Bytes) (hok : Returnable L value) (hkey : Fits L (getPayload key))
    (hget : Getting L c key value ⟨S, .init peer password, [], []⟩ os N os') :
    N.Usable c ∧ Lockstep L c N (os ++ os') ∧
      (returns os' = [] ∨ returns os' = [(getPayload key, value)]) ∧
      (∃ N'' os'', Getting L c key value ⟨S, .init peer password, [], []⟩ os N'' (os' ++ os'') ∧
        returns (os' ++ os'') = [(getPayload key, value)]) ∧
      ∀ q, netLine.Lined N q → N.Unqueued c key → ∃ N'' q'' os'',
        Net.Calm L c key (N, q) (N'', q'') os'' ∧ returns (os' ++ os'') = [(getPayload key, value)] := by
  obtain ⟨n, h⟩ := hget.fetching L (steady_init L hS hlock hidle peer password) hok hkey
  obtain ⟨N'', os'', hrun, hreturned⟩ := h.returning L hok
  exact ⟨h.usable L, h.steady.conversing.lockstep L, h.calls.imp And.right And.right,
    ⟨N'', os'', hget.run L hrun, hreturned⟩, fun q hlined hno => h.returning_inLine L hok hlined hno⟩

/-- What is assumed of the server holds in every state it reaches. -/
theorem reached_sound {S : Sys K} {password : Bytes} {keep : Bool}
    (hrun : Lts.Run (Lts.Guarded (Sys.step L) fun _ _ _ => True) (.init password keep) S os) :
    S.Sound ∧ dbMutex.Sound S := by
  refine hrun.inv (I := fun S _ => S.Sound ∧ dbMutex.Sound S) ⟨sound_init password keep, ?_⟩ ?_
  · exact ⟨fun h => (by cases h), fun _ h => h.elim, fun _ _ h => h.elim⟩
  · rintro S S' os o - ⟨hS, hlock⟩ ⟨a, hstep, -⟩
    exact ⟨step_sound L hS hstep, hlock.step (step_locks L hS.tidy hstep)⟩

/-! ## Runs on fixed inputs -/

/-- The await of the loop is `sock_recv`. -/
def RecvLoop.receives : RecvLoop → Bool
  | .recv _ => true
  | _ => false

def SendLoop.lives : SendLoop → Bool
  | .dead _ => false
  | _ => true

def Task.goesOn : Task (Accepting K) → Bool
  | .handler h => match h.pc with
    | .sendall _ after => after = .next
    | _ => true
  | _ => false

theorem Task.goesOn_iff {t : Task (Accepting K)} : t.goesOn = true ↔ ∃ h, t = .handler h ∧ h.GoesOn := by
  constructor
  · intro ht
    cases t with
    | handler h =>
      refine ⟨h, rfl, fun held after hpc => ?_⟩
      simpa [Task.goesOn, hpc] using ht
    | _ => cases ht
  · rintro ⟨h, rfl, hgoes⟩
    cases hpc : h.pc with
    | sendall held after => simp [Task.goesOn, hpc, hgoes held after hpc]
    | _ => simp [Task.goesOn, hpc]

theorem usable_iff : N.Usable c ↔ N.client.connection = .connected ∧ N.client.closing = .idle ∧
    N.client.cipher.isSome = true ∧ N.client.recvLoop.receives = true ∧ N.client.sendLoop.lives = true ∧
      (N.sys.tasks c).goesOn = true := by
  rw [Task.goesOn_iff]
  constructor
  · rintro ⟨⟨hconn, hclosing, hcipher⟩, ⟨b, hb⟩, hsends, hserved⟩
    refine ⟨hconn, hclosing, Option.isSome_iff_ne_none.2 hcipher, by rw [hb]; rfl, ?_, hserved⟩
    cases hw : N.client.sendLoop with
    | dead e => exact absurd hw (hsends e)
    | _ => rfl
  · rintro ⟨hconn, hclosing, hcipher, hreceives, hlives, hserved⟩
    refine ⟨⟨hconn, hclosing, Option.isSome_iff_ne_none.1 hcipher⟩, ?_, fun e he => ?_, hserved⟩
    · cases hr : N.client.recvLoop with
      | recv b => exact ⟨b, rfl⟩
      | _ =>
        rw [hr] at hreceives
        cases hreceives
    · rw [he] at hlives
      cases hlives

instance : Decidable (N.Usable c) := decidable_of_iff _ usable_iff.symm

instance : DecidablePred Input.Fails
  | .raise _ => isTrue trivial
  | .recv chunk => inferInstanceAs (Decidable (chunk = []))
  | .go | .sent => isFalse id

instance (N : Net K) : DecidablePred (N.Lossless c)
  | .server (.resume c' i _) => inferInstanceAs (Decidable (c' = c → ¬ i.Fails))
  | .client (.resume i) | .client (.sendLoop i) | .client (.recvLoop i) | .client (.closing i) =>
    inferInstanceAs (Decidable (¬ i.Fails))
  | .server (.connect _) | .server (.admin _) | .client (.connect _) | .client (.call _) | .client (.receive _)
  | .client (.timeout _) | .client .close => isTrue trivial

/-- The step runs a SET or a DELETE, as it can be computed. -/
def Net.writes (key : Bytes) (N : Net K) (a : Net.Act) (o : List (Obs K)) : Bool :=
  match a with
  | .server b => match N.sys.effect b o with
    | some (.kv (.set key' _)) | some (.kv (.delete key')) => key' = key
    | _ => false
  | .client _ => false

theorem Net.writes_of {a : Net.Act} (h : N.Writes key a o) : N.writes key a o = true := by
  obtain ⟨b, op, rfl, he, hop⟩ := h
  cases op with
  | set key' _ | delete key' =>
    have hkey : key' = key := hop
    simp [Net.writes, he, hkey]
  | _ => exact hop.elim

/-- The step is one of the client that calls nothing, or one of a handler. -/
def Net.Handled (N : Net K) : Net.Act → Bool
  | .server (.resume c' _ _) => (N.sys.tasks c').handler?.isSome
  | .client (.call _) | .client .close | .server _ => false
  | .client _ => true

/-- What is checked of a step of the wait. -/
def Net.Checks (c : ConnId) (key : Bytes) (N : Net K) (a : Net.Act) (o : List (Obs K)) : Prop :=
  N.Honest c a o ∧ N.Patient a ∧ N.Lossless c a ∧ N.Handled a = true ∧ N.writes key a o = false

instance (N : Net K) (a : Net.Act) (o : List (Obs K)) : Decidable (N.Checks c key a o) :=
  inferInstanceAs (Decidable (_ ∧ _ ∧ _ ∧ _ ∧ _))

theorem handled_alone {a : Net.Act} (h : N.Handled a = true) (hstep : N.step L c a = some (N', o)) :
    N.Alone c a o := by
  rintro b rfl
  cases b with
  | resume c' i draw =>
    have hsome : (N.sys.tasks c').handler?.isSome = true := h
    obtain ⟨h', hh⟩ := Option.isSome_iff_exists.1 hsome
    obtain ⟨b, S, hb, hs, -⟩ | ⟨b, C, hb, -⟩ := Net.step_cases L hstep
    · cases hb
      exact alone_handler L (Task.eq_handler hh) hs
    · cases hb
  | _ => cases h

theorem Net.Checks.quiet {a : Net.Act} (h : N.Checks c key a o) (hstep : N.step L c a = some (N', o)) :
    N.Quiet c key a o := by
  obtain ⟨hhonest, hpatient, hlossless, hhandled, hwrites⟩ := h
  have hunwritten : ¬ N.Writes key a o := by
    intro hw
    rw [Net.writes_of hw] at hwrites
    cases hwrites
  have hone : N.OneAtATime a := by
    cases a with
    | server b => trivial
    | client b =>
      cases b with
      | call | close => cases hhandled
      | _ => trivial
  refine ⟨⟨⟨hhonest, handled_alone L hhandled hstep, hone, hpatient⟩, hlossless, ?_, ?_⟩, hunwritten⟩
  · rintro call rfl
    cases hhandled
  · rintro rfl
    cases hhandled

/-- Steps that are checked. -/
theorem checks_run {acts : List Net.Act} (hexec : Lts.exec (Net.step L c) acts N = some (N', os))
    (halong : Lts.Along (Net.step L c) (Net.Checks c key) acts N) :
    Lts.Run (Lts.Guarded (Net.step L c) (Net.Quiet c key)) N N' os :=
  (Lts.exec_run hexec halong).mono fun ⟨a, hs, hok⟩ => ⟨a, hs, hok.quiet L hs⟩

/-- The SET stays the last. -/
theorem Wrote.run {N₀ : Net K} (h : Wrote L c key value N₀ N os)
    (hrun : Lts.Run (Lts.Guarded (Net.step L c) (Net.Quiet c key)) N N' os') :
    Wrote L c key value N₀ N' (os ++ os') := by
  induction hrun with
  | nil => rwa [List.append_nil]
  | snoc _ hst ih =>
    obtain ⟨a, hstep, hquiet⟩ := hst
    rw [← List.append_assoc]
    exact ih.keep hstep hquiet.awaits.fair hquiet.unwritten

/-- What `set` sends for the key 7. -/
def setPayload (value : Bytes) : Bytes := [0x81] ++ beBytes 4 1 ++ beBytes 4 value.length ++ [7] ++ value

/-- The handshake and `set`, up to the lock. -/
def setActs (value : Bytes) : List Net.Act :=
  joinActs ++ [.client (.call (.set [7] value)), .client (.sendLoop .go), .client (.sendLoop .sent),
    .server (.resume 0 (.recv (stubPacket 0 2 (setPayload value))) sampleDraw)]

/-- `set` returns. -/
def setReturns : List Net.Act :=
  [.server (.resume 0 .sent sampleDraw), .server (.resume 0 .go sampleDraw),
    .client (.recvLoop (.recv (stubPacket 0 2 ACK))), .client (.receive 0)]

/-- `get` is sent, and the server runs it. -/
def getRuns : List Net.Act :=
  [.client (.sendLoop .go), .client (.sendLoop .sent),
    .server (.resume 0 (.recv (stubPacket 0 3 [0x82, 7])) sampleDraw), .server (.resume 0 .go sampleDraw)]

/-- `set` and then `get`, whose steps are `acts`. -/
def setThenGet (value : Bytes) (acts : List Net.Act) (P : Net ℕ → List (Obs ℕ) → Bool) : Bool :=
  (Lts.exec (Net.step stub 0) (setActs value) (.init [] false "" [])).any fun x =>
    (Net.step stub 0 x.1 (.server (.resume 0 .go sampleDraw))).any fun y =>
      (x.1.Handled (.server (.resume 0 .go sampleDraw)) : Bool) &&
      (.answered 0 sampleUuid (setPayload value) ACK ∈ y.2 : Bool) &&
      (Lts.exec (Net.step stub 0) setReturns y.1).any fun z =>
        (Lts.Along (Net.step stub 0) (Net.Checks 0 [7]) setReturns y.1 : Bool) && (z.1.Usable 0 : Bool) &&
        (z.1.client.OneAtATime (.call (.get [7])) : Bool) && (z.1.client.txNonce < 2 ^ 96 : Bool) &&
        (Net.step stub 0 z.1 (.client (.call (.get [7])))).any fun w =>
          (Lts.exec (Net.step stub 0) acts w.1).any fun v =>
            (Lts.Along (Net.step stub 0) (Net.Checks 0 [7]) acts w.1 : Bool) && P v.1 v.2

theorem setThenGet_getting {acts : List Net.Act} {P : Net ℕ → List (Obs ℕ) → Bool}
    (hpay : (Call.set [7] value).payload = .ok (setPayload value))
    (hcheck : Lts.Along (Net.step stub 0) (fun N a o => N.Checked 1 a o ∧ N.Honest 0 a o ∧
      N.OneAtATime a ∧ N.Patient a) (setActs value) (.init [] false "" []))
    (hexec : setThenGet value acts P = true) : ∃ N os os',
      Getting stub 0 [7] value (.init [] false "" []) os N os' ∧ P N os' = true := by
  obtain ⟨⟨N₁, os₁⟩, hN₁, h₁⟩ := Option.any_eq_true _ _ |>.1 hexec
  obtain ⟨⟨N₂, o₂⟩, hN₂, h₂⟩ := Option.any_eq_true _ _ |>.1 h₁
  simp only [Bool.and_eq_true, decide_eq_true_eq] at h₂
  obtain ⟨⟨hhandled, hack⟩, h₂⟩ := h₂
  obtain ⟨⟨N₃, os₃⟩, hN₃, h₃⟩ := Option.any_eq_true _ _ |>.1 h₂
  simp only [Bool.and_eq_true, decide_eq_true_eq] at h₃
  obtain ⟨⟨⟨⟨halong₃, husable⟩, hone⟩, hn⟩, h₃⟩ := h₃
  obtain ⟨⟨N₄, o₄⟩, hN₄, h₄⟩ := Option.any_eq_true _ _ |>.1 h₃
  obtain ⟨⟨N, os'⟩, hN, h₅⟩ := Option.any_eq_true _ _ |>.1 h₄
  simp only [Bool.and_eq_true, decide_eq_true_eq] at h₅
  obtain ⟨halong, hP⟩ := h₅
  have hrun₁ : Lts.Run (Lts.Guarded (Net.step stub 0) (Net.Fair 0)) (.init [] false "" []) N₁ os₁ :=
    (checked_run stub (fun _ _ => rfl) hN₁ hcheck).guard fun h => ⟨h.2.2.1, h.1, h.2.2.2.1, h.2.2.2.2⟩
  have hfair : N₁.Fair 0 (.server (.resume 0 .go sampleDraw)) o₂ :=
    ⟨⟨fun _ hm => (by cases hm), fun _ hm => (by cases hm)⟩, handled_alone stub hhandled hN₂, trivial,
      trivial⟩
  have hwrote := (Wrote.set hrun₁ hN₂ hfair ⟨sampleUuid, setPayload value, hpay, hack⟩).run stub
    (checks_run stub hN₃ halong₃)
  have hget := (Getting.call hwrote husable hone hn hN₄ rfl).run stub (checks_run stub hN halong)
  exact ⟨N, _, _, hget, hP⟩

/-- `get` returns. -/
def getReturns (value : Bytes) : List Net.Act :=
  getRuns ++ [.client (.recvLoop (.recv (stubPacket 0 3 value))), .client (.receive 0)]

theorem set_get_round_trip_sample : ∃ N os os',
    Getting stub 0 [7] [8] (.init [] false "" []) os N os' ∧ returns os' = [([0x82, 7], [8])] ∧
      N.Usable 0 ∧ Lockstep stub 0 N (os ++ os') := by
  have hcheck : Lts.Along (Net.step stub 0) (fun N a o => N.Checked 1 a o ∧ N.Honest 0 a o ∧
      N.OneAtATime a ∧ N.Patient a) (setActs [8]) (.init [] false "" []) := by decide +kernel
  have hexec : setThenGet [8] (getReturns [8]) (fun _ os' => returns os' = [([0x82, 7], [8])]) = true := by
    decide +kernel
  obtain ⟨N, os, os', hget, hP⟩ := setThenGet_getting (by rfl) hcheck hexec
  have hsound : (Sys.init [] false).Sound ∧ dbMutex.Sound (Sys.init [] false) := reached_sound stub .nil
  obtain ⟨husable, hlockstep, -⟩ := set_get_round_trip stub hsound.1 hsound.2 rfl "" []
    ⟨by decide, by decide, by decide⟩ (by decide) hget
  exact ⟨N, os, os', hget, of_decide_eq_true hP, husable, hlockstep⟩

/-- **Values that do not come back.**  A stored empty value ends the handler that runs GET, a stored
    value that starts with `ERR` ends `recv_loop`, although `set` was acknowledged. -/
theorem get_breaks :
    (∃ N os os', Getting stub 0 [7] [] (.init [] false "" []) os N os' ∧ ¬ N.Usable 0 ∧
      (N.sys.tasks 0).goesOn = false) ∧
    ∃ N os os', Getting stub 0 [7] [69, 82, 82, 5] (.init [] false "" []) os N os' ∧ ¬ N.Usable 0 ∧
      N.client.recvLoop.receives = false := by
  have hempty : setThenGet [] getRuns (fun N _ => ¬ N.Usable 0 ∧ (N.sys.tasks 0).goesOn = false) = true := by
    decide +kernel
  have herror : setThenGet [69, 82, 82, 5] (getRuns ++
      [.client (.recvLoop (.recv (stubPacket 0 3 [69, 82, 82, 5])))])
        (fun N _ => ¬ N.Usable 0 ∧ N.client.recvLoop.receives = false) = true := by
    decide +kernel
  obtain ⟨N, os, os', hget, hP⟩ := setThenGet_getting (by rfl) (by decide +kernel) hempty
  obtain ⟨N₁, os₁, os₁', hget₁, hP₁⟩ := setThenGet_getting (by rfl) (by decide +kernel) herror
  rw [decide_eq_true_eq] at hP hP₁
  exact ⟨⟨N, os, os', hget, hP⟩, N₁, os₁, os₁', hget₁, hP₁⟩

end Pipebomb
