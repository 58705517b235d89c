/-
  Every operation comes to its end.

  * `Net.distance`: what is left before the command runs.  `Asking.nearer`: a step makes it less, unless the
    coroutine waits for a lock.
  * `Asking.runs_next`: when the turn of the coroutine comes, the command runs.
  * `Asking.reply_comes`, `Asking.returns_come`: the reply is built, and then received.
  * `operation_ends`: whatever the other connections did, and in whatever order the coroutines wait for
    the locks, an operation comes to its end.
-/
import Pipebomb.Asking

namespace Pipebomb

open ByteString

variable {K : Type} (L : Libs K)

/-! ## The reply -/

section
variable {pc pc' : Await}

theorem Await.distance_pos (pc : Await) : 0 < pc.distance := by
  cases pc <;> simp [Await.distance]

/-- The coroutine is nearer, or has read. -/
theorem Await.nearer {x y : ℕ} (hnear : pc'.distance ≤ pc.next) (hle : y ≤ x)
    (hrecv : pc = .recv → y < x) : pc'.distance + y < pc.distance + x := by
  generalize pc'.distance = far at hnear ⊢
  cases pc with
  | recv =>
    have hlt := hrecv rfl
    simp only [Await.next, Await.distance] at hnear ⊢
    omega
  | _ =>
    simp only [Await.next, Await.distance] at hnear ⊢
    omega

end

section
variable {c : ConnId} {data : Bytes} {N N' N₀ : Net K} {os os' o : List (Obs K)} {a : Net.Act} {n : ℕ}
  {draw : Uuid4} {h₀ : Handler} {q : Held → List ConnId}

/-- A step of one who waits for no lock brings the reply nearer, builds it, or is the last of the
    coroutine. -/
def Net.Nearer (c : ConnId) (data : Bytes) (draw : Uuid4) (N : Net K) : Prop :=
  ∃ a N' o, N.step L c a = some (N', o) ∧ N.Onward c draw a o ∧
    (∀ c' ∈ (netLine (K := K)).actor a, (N.sys.tasks c').waitsFor = none) ∧
    (N'.distance c < N.distance c ∨ built L (.server c) o ≠ [] ∨ (N'.sys.tasks c).Ends data)

/-- The coroutine goes on. -/
theorem Asking.resume_nearer (h : Asking L c data n N os) (htask : N.sys.tasks c = .handler h₀) {i : Input}
    {out : Outcome K (Accepting K)} (ho : handlerStep L N.sys.server c h₀ i draw = some out) (hi : ¬ i.Fails)
    (hchunk : i.chunk <+: N.toServer) (hrecv : h₀.pc = .recv → i.chunk ≠ [])
    (hw : h₀.pc.wants = .none) : N.Nearer L c data draw := by
  obtain ⟨h₁, htask₁, hattends⟩ := h.served
  obtain ⟨⟨e, f, xs, hlock⟩, -⟩ := h.poised.steady.conversing
  have hk : (N.sys.tasks c).Keyed := by
    rw [htask]
    trivial
  obtain ⟨hfeeding, hin⟩ := hlock.feeding L hk
  have hat := hlock.side.atEnd
  rw [htask] at hat hin htask₁
  cases htask₁
  have hattended := handlerStep_attended L hattends hat hfeeding hin
    (fun x hx => h.next L hlock h.took.2 hx) hi hchunk ho
  obtain ⟨s, t, o⟩ := out
  have hs : N.sys.step L (.resume c i draw) = some (N.sys.put c s t, o) := by
    simp only [Sys.step, taskStep, htask, ho]
  have hstep : N.step L c (.server (.resume c i draw)) =
      some (N.flow c (.server (.resume c i draw)) (N.sys.put c s t) N.client o, o) := by
    simp only [Net.step, hs]
  have hwaits : ∀ c' ∈ some c, (N.sys.tasks c').waitsFor = none := by
    rintro _ ⟨⟩
    rw [htask]
    exact if_pos hw
  refine ⟨_, _, _, hstep, ⟨awaits_handler L htask hs (fun _ => hi) fun _ => hchunk, .server i⟩, hwaits, ?_⟩
  have hself : (N.flow c (.server (.resume c i draw)) (N.sys.put c s t) N.client o).sys.tasks c = t :=
    put_tasks_self
  cases hattended with
  | ends he =>
    rw [hself]
    exact .inr (.inr he)
  | replied _ _ hr =>
    obtain ⟨k, m, reply, u, hb, -⟩ := hr
    refine .inr (.inl ?_)
    rw [show built L (.server c) o = _ from hb]
    exact List.cons_ne_nil _ _
  | @goes h' ht _ hnear _ =>
    obtain rfl : t = .handler h' := ht
    refine .inl ?_
    have hlen : (((Net.Act.server (.resume c i draw)).toServer c).getD []).length = i.chunk.length := by
      cases i <;> simp [Net.Act.toServer, Input.chunk]
    have hle := hchunk.length_le
    have hless : h'.pc.distance + (N.toServer.length - i.chunk.length) <
        h₀.pc.distance + N.toServer.length := by
      refine Await.nearer hnear (Nat.sub_le _ _) fun hpc => ?_
      have hpos := List.length_pos_iff.2 (hrecv hpc)
      omega
    rw [distance_resume L hs, put_tasks_self, hlen, Net.distance, htask]
    simp only [Task.distance]
    omega

/-- The operation was sent, and the server waits for it: bytes are on their way. -/
theorem Asking.arrives (h : Asking L c data n N os) (hidle : N.client.tasks = [])
    (hreplies : (built L (.server c) os).length = n) (htask : N.sys.tasks c = .handler h₀)
    (hpc : h₀.pc = .recv) (hmore : packetFraming.cut h₀.receiveBuffer = .more) : N.toServer ≠ [] := by
  obtain ⟨⟨e, f, xs, hlock⟩, -⟩ := h.poised.steady.conversing
  have hk : (N.sys.tasks c).Keyed := by
    rw [htask]
    trivial
  obtain ⟨hfeeding, hin⟩ := hlock.feeding L hk
  have hat := hlock.side.atEnd
  rw [htask] at hat
  obtain ⟨k, m, -, he⟩ := hat
  rw [hpc] at he
  subst he
  have hxs : xs.length = n + 1 := by
    obtain ⟨pending, hb, hp⟩ := hlock.client.built
    rw [hidle] at hp
    rw [List.map_eq_nil_iff.1 hp.symm, List.append_nil] at hb
    rw [← h.asked, ← hb]
    rfl
  have hunread : (tally L (.server c) os).opened.length = n := by
    obtain ⟨-, hacc, -⟩ := (place_keyed L hk).1 hlock.server.place
    obtain ⟨hlen, hlen'⟩ := (hlock.ok L).1
    have hlen := hlen.length
    simp only [tally] at hacc hlen hlen' ⊢
    omega
  rw [htask] at hin
  refine hin.hungry packetFraming (hfeeding.numbered.complete L _) hmore ?_
  rw [length_stream, hxs, hunread]
  exact Nat.lt_succ_self _

/-- **The server comes nearer to the reply**, or waits for a lock or a request. -/
theorem Asking.nearer (h : Asking L c data n N os) (hreplies : (built L (.server c) os).length = n) :
    N.Starved c data ∨ (∃ held, (N.sys.tasks c).waitsFor = some held) ∨ N.Nearer L c data draw := by
  by_cases hbusy : N.client.sendLoop = .sending ∨ N.client.tasks ≠ []
  · obtain ⟨i, N', o, hstep, hi, hless⟩ := sendLoop_goes L (c := c) h.client hbusy
    have hquiet : N.Quiet c [] (.client (.sendLoop i)) o := quiet_sendLoop hi o
    exact .inr (.inr ⟨_, N', o, hstep, ⟨hquiet.awaits, .client _⟩, fun _ hc => (by cases hc), .inl hless⟩)
  push Not at hbusy
  obtain ⟨h₀, htask, hattends⟩ := h.served
  by_cases hwants : h₀.pc.wants = .none
  swap
  · exact .inr (.inl ⟨_, waitsFor_eq_some.2 ⟨hwants, h₀, htask, rfl⟩⟩)
  by_cases hinbox : ∀ r, h₀.pc = .inboxGet r → (N.sys.server.objs r).inbox ≠ []
  · have hfeed : h₀.pc = .recv → N.toServer ≠ [] := by
      intro hpc
      cases hattends with
      | recv _ hmore => exact h.arrives L hbusy.2 hreplies htask hpc hmore
      | start he | sleep he | sending he =>
        rw [hpc] at he
        cases he
      | queues hq _ =>
        rw [hpc] at hq
        exact hq.elim
    obtain ⟨i, out, ho, hi, hchunk, hrecv⟩ := hattends.canGo L c draw (by rw [hwants]; exact id) hinbox hfeed
    exact .inr (.inr (h.resume_nearer L htask ho hi hchunk hrecv hwants))
  · push Not at hinbox
    obtain ⟨r, hpc, hempty⟩ := hinbox
    refine .inl ⟨?_, h₀, r, htask, hpc, hempty⟩
    have hq : h₀.pc.Queues := by
      rw [hpc]
      trivial
    obtain ⟨type_, value, hd, hcmd⟩ := (h.poised.steady.sound.handlers c h₀ htask).waits hq
    refine ⟨type_, value, (hattends.data_eq hq).symm.trans hd, ?_⟩
    rcases hcmd with ⟨_, -, he⟩ | ⟨_, hcmd, -⟩ | ⟨_, _, -, he⟩ | ⟨_, -, he⟩
    · rw [hpc] at he
      cases he
    · exact hcmd
    · rw [hpc] at he
      cases he
    · rw [hpc] at he
      cases he

/-- Steps in line that bring an operation on. -/
def Net.Goes (c : ConnId) (draw : Uuid4) (x y : Net K × (Held → List ConnId)) (os : List (Obs K)) : Prop :=
  Lts.Run (Lts.Guarded (netLine.inLine (Net.step L c)) fun x a o => x.1.Onward c draw a o) x y os

theorem Asking.run {q' : Held → List ConnId} {os'' : List (Obs K)}
    (h : N.Ended c data os' ∨ Asking L c data n N (os ++ os'))
    (hrun : Net.Goes L c draw (N, q) (N', q') os'') :
    N'.Ended c data (os' ++ os'') ∨ Asking L c data n N' (os ++ (os' ++ os'')) := by
  refine (Line.run_left hrun).inv
    (I := fun N os'' => N.Ended c data (os' ++ os'') ∨ Asking L c data n N (os ++ (os' ++ os'')))
    (by rwa [List.append_nil]) ?_
  rintro N₁ N₂ os₁ o - ih ⟨a, hstep, honward⟩
  rw [← List.append_assoc os']
  rcases ih with hended | h
  · exact .inl (hended.step L hstep)
  · have hnext := h.step L hstep honward.awaits
    rw [List.append_assoc] at hnext
    exact hnext.imp Net.Ended.after id

/-- **The command waits for a lock**, or the reply is built, or the operation ends before, or waits for a
    request. -/
theorem Asking.lock_comes (h : Asking L c data n N (os ++ os')) (q : Held → List ConnId) (draw : Uuid4) :
    ∃ N₁ q₁ os₁, Net.Goes L c draw (N, q) (N₁, q₁) os₁ ∧
      (N₁.Ended c data (os' ++ os₁) ∨ Asking L c data n N₁ (os ++ (os' ++ os₁))) ∧
      (N₁.Ended c data (os' ++ os₁) ∨ N₁.Starved c data ∨
        n < (built L (.server c) (os ++ (os' ++ os₁))).length ∨
        ∃ held, (N₁.sys.tasks c).waitsFor = some held) := by
  refine Line.progress (P := fun N os' => N.Ended c data os' ∨ Asking L c data n N (os ++ os'))
    (Q := fun N os' => N.Ended c data os' ∨ N.Starved c data ∨
      n < (built L (.server c) (os ++ os')).length ∨ ∃ held, (N.sys.tasks c).waitsFor = some held)
    (Net.distance c) ?_ (.inr h) q
  intro N q os' hP hQ
  simp only [not_or, not_lt] at hQ
  obtain ⟨hgoes, hfed, hnone, hfree⟩ := hQ
  have h := hP.resolve_left hgoes
  have hreplies := h.replies
  have hnearer : N.Starved c data ∨ (∃ held, (N.sys.tasks c).waitsFor = some held) ∨ N.Nearer L c data draw :=
    h.nearer L (by omega)
  obtain ⟨a, N', o, hstep, honward, hwaits, hnear⟩ := (hnearer.resolve_left hfed).resolve_left hfree
  have hnext := h.step L hstep honward.awaits
  rw [List.append_assoc] at hnext
  refine ⟨a, N', o, hstep, honward, Line.inTurn_of_not_waits hwaits, hnext.imp Net.Ended.after id, ?_⟩
  rcases hnear with hlt | hbuilt | hends
  · exact .inr hlt
  · have hpos := List.length_pos_iff.2 hbuilt
    refine .inl (.inr (.inr (.inl ?_)))
    show n < (built L (.server c) (os ++ (os' ++ o))).length
    rw [← List.append_assoc, built_append, List.length_append]
    omega
  · exact .inl (.inl (.over hends))

/-- **The command runs** when the turn of the coroutine has come. -/
theorem Asking.runs_next {held : Held} (h : Asking L c data n N (os ++ os'))
    (hwaits : (N.sys.tasks c).waitsFor = some held) (hfree : ¬ N.sys.server.Locked held)
    (hfirst : (q held).head? = some c) (draw : Uuid4) :
    ∃ N' q' o, Net.Goes L c draw (N, q) (N', q') o ∧ (N'.Ended c data (os' ++ o) ∨
      Asking L c data n N' (os ++ (os' ++ o)) ∧ n < (built L (.server c) (os ++ (os' ++ o))).length) := by
  obtain ⟨hheld, h₀, htask, rfl⟩ := waitsFor_eq_some.1 hwaits
  obtain ⟨⟨s, t, o⟩, ho⟩ := handlerStep_free L c draw hheld hfree
  have hs : N.sys.step L (.resume c .go draw) = some (N.sys.put c s t, o) := by
    simp only [Sys.step, taskStep, htask, ho]
  have hstep : N.step L c (.server (.resume c .go draw)) =
      some (N.flow c (.server (.resume c .go draw)) (N.sys.put c s t) N.client o, o) := by
    simp only [Net.step, hs]
  have hturn : netLine.InTurn N q (.server (.resume c .go draw)) := Line.inTurn_of_first rfl hwaits hfirst
  have honward : N.Onward c draw (.server (.resume c .go draw)) o :=
    ⟨awaits_handler L htask hs (fun _ => id) fun _ => List.nil_prefix, .server .go⟩
  refine ⟨_, _, o, Line.single hstep honward hturn, ?_⟩
  -- the coroutine replies, or it is over
  obtain ⟨h₁, htask₁, hattends⟩ := h.served
  rw [htask] at htask₁
  cases htask₁
  have hq := Await.queues_of_wants hheld
  obtain ⟨⟨e, f, xs, hlock⟩, -⟩ := h.poised.steady.conversing
  have hat := hlock.side.atEnd
  rw [htask] at hat
  obtain ⟨k, m, hl, -⟩ := hat
  have hattended := queued_attended L (d := 0) hq hl ho
  rw [hattends.data_eq hq] at hattended
  cases hattended with
  | ends he =>
    have hself : (N.flow c (.server (.resume c .go draw)) (N.sys.put c s t) N.client o).sys.tasks c = t :=
      put_tasks_self
    exact .inl (.over (by rw [hself]; exact he))
  | replied _ _ hr =>
    obtain ⟨k, m, reply, u, hb, -⟩ := hr
    have hreplies := h.replies
    have hnext := h.step L hstep honward.awaits
    rw [List.append_assoc] at hnext
    refine hnext.imp Net.Ended.after fun hasking => ⟨hasking, ?_⟩
    rw [← List.append_assoc, built_append, List.length_append, show built L (.server c) o = _ from hb,
      List.length_singleton]
    omega
  | @goes h' _ _ hnear _ => exact absurd hnear (Nat.not_le.2 h'.pc.distance_pos)

/-- Those that hold the lock, or wait for it before, bring the operation on. -/
theorem yields_onward {held : Held} (hw : (N.sys.tasks c).waitsFor = some held) (hy : N.Yields c held a)
    (hstep : N.step L c a = some (N', o)) :
    N.Onward c draw a o ∧ (N'.sys.tasks c).waitsFor = some held := by
  refine ⟨⟨?_, .yields hw hy⟩, by rw [hy.tasks L hstep]; exact hw⟩
  obtain ⟨c', i, draw, g, rfl, hne, hg, -⟩ := hy.handler
  rcases Net.step_cases L hstep with ⟨b, S, hb, hs, -⟩ | ⟨b, C, hb, -⟩
  · cases hb
    exact awaits_handler L hg hs (fun he => absurd he hne) fun he => absurd he hne
  · cases hb

/-- **The reply comes**, or the operation ends before, or waits for a request. -/
theorem Asking.reply_comes (h : Asking L c data n N (os ++ os')) (hlined : netLine.Lined N q) (draw : Uuid4) :
    ∃ N₁ q₁ os₁, Net.Goes L c draw (N, q) (N₁, q₁) os₁ ∧
      (N₁.Ended c data (os' ++ os₁) ∨ N₁.Starved c data ∨ Asking L c data n N₁ (os ++ (os' ++ os₁)) ∧
        n < (built L (.server c) (os ++ (os' ++ os₁))).length) := by
  obtain ⟨N₁, q₁, os₁, hrun₁, hasking, hended | hstarved | hreply | ⟨held, hwaits⟩⟩ := h.lock_comes L q draw
  · exact ⟨N₁, q₁, os₁, hrun₁, .inl hended⟩
  · exact ⟨N₁, q₁, os₁, hrun₁, .inr (.inl hstarved)⟩
  · exact ⟨N₁, q₁, os₁, hrun₁, hasking.imp id fun ha => .inr ⟨ha, hreply⟩⟩
  rcases hasking with hended | h₁
  · exact ⟨N₁, q₁, os₁, hrun₁, .inl hended⟩
  -- those that wait before go first
  obtain ⟨N₂, q₂, os₂, hrun₂, -, hwaits₂, hfree, -, hfirst⟩ :=
    net_turn_comes L (J := fun N => (N.sys.tasks c).waitsFor = some held) id
      (fun hw hy hstep => yields_onward L hw hy hstep) h₁.poised.kept hwaits
      (Line.Lined.run (netLine_local L c) hlined hrun₁) draw
  rcases Asking.run L (.inr h₁) hrun₂ with hended | h₂
  · rw [List.append_assoc] at hended
    exact ⟨N₂, q₂, _, hrun₁.trans hrun₂, .inl hended⟩
  obtain ⟨N₃, q₃, os₃, hrun₃, hreply⟩ := h₂.runs_next L hwaits₂ hfree hfirst draw
  rw [List.append_assoc, List.append_assoc] at hreply
  exact ⟨N₃, q₃, _, hrun₁.trans (hrun₂.trans hrun₃), hreply.imp_right .inr⟩

/-- The reply was built: bytes of it are on their way, or it is in the queue. -/
theorem Asking.reply_arrives (h : Asking L c data n N os) (hreply : n < (built L (.server c) os).length)
    (hinput : N.client.inputPackets = []) : N.toClient ≠ [] := by
  obtain ⟨⟨e, f, xs, hlock⟩, hcorr⟩ := h.poised.steady.conversing
  obtain ⟨b, hb, hmore⟩ := h.client.receives
  have hconn := h.client.opened.connected
  obtain ⟨k, hk⟩ := Option.ne_none_iff_exists'.1 h.client.opened.cipher
  have hreading : N.client.reading = some b := by
    simp [RawClient.reading, hconn, hk, hb]
  have hkeyed : N.client.Keyed := by
    rw [RawClient.Keyed, hconn]
    trivial
  have hfeeding := hlock.clientFeeding L hkeyed
  obtain ⟨-, hin⟩ := hfeeding.place b hreading
  have hall := congrArg List.length (hcorr.reading hconn (by rw [hreading]; exact Option.some_ne_none b))
  rw [hinput, List.append_nil, List.length_map, List.length_drop, List.length_take, length_payloads] at hall
  have hreturned := h.returned
  refine hin.hungry packetFraming (hfeeding.numbered.complete L _) hmore ?_
  rw [length_stream]
  simp only [tally]
  omega

/-- **The operation returns**, or a chunk of its reply is read. -/
theorem Asking.takes_next (h : Asking L c data n N os) (hreply : n < (built L (.server c) os).length)
    (draw : Uuid4) : ∃ b N' o, N.step L c (.client b) = some (N', o) ∧ N.Onward c draw (.client b) o ∧
      (N'.Ended c data o ∨ N'.toClient.length < N.toClient.length) := by
  obtain ⟨call, hcalls⟩ := h.calls
  have hconn := h.client.opened.connected
  rcases hinput : N.client.inputPackets with _ | ⟨p, ps⟩
  · obtain ⟨N', o, hstep, hne, hless, -⟩ :=
      recvLoop_goes L (c := c) h.client (h.reply_arrives L hreply hinput)
    have hquiet : N.Quiet c [] (.client (.recvLoop (.recv (N.toClient.take 1024)))) o := quiet_recvLoop hne o
    exact ⟨_, N', o, hstep, ⟨hquiet.awaits, .client _⟩, .inr hless⟩
  · have hs : N.client.step L (.receive 0) =
        some ({ N.client with inputPackets := ps, calls := [] }, [.returned data p]) := by
      simp only [RawClient.step, hcalls, hinput]
      rfl
    have hstep : N.step L c (.client (.receive 0)) = some (N.flow c (.client (.receive 0)) N.sys
        { N.client with inputPackets := ps, calls := [] } [.returned data p], [.returned data p]) := by
      simp only [Net.step, hs]
    have hquiet : N.Quiet c [] (.client (.receive 0)) [.returned data p] := quiet_client (b := .receive 0)
      (fun _ hm => (by cases hm)) (fun _ hb => (by cases hb)) (fun hb => by cases hb) trivial trivial _
    have hmem : (data, p) ∈ returns [(.returned data p : Obs K)] := by simp [returns]
    exact ⟨_, _, _, hstep, ⟨hquiet.awaits, .client _⟩, .inl (.returned hmem)⟩

/-- The reply that was built is received. -/
theorem Asking.returns_come (h : Asking L c data n N (os ++ os'))
    (hreply : n < (built L (.server c) (os ++ os')).length) (q : Held → List ConnId) (draw : Uuid4) :
    ∃ N'' q'' os'', Net.Goes L c draw (N, q) (N'', q'') os'' ∧ N''.Ended c data (os' ++ os'') := by
  suffices hprogress : ∃ N'' q'' os'', Net.Goes L c draw (N, q) (N'', q'') os'' ∧
      (N''.Ended c data (os' ++ os'') ∨ Asking L c data n N'' (os ++ (os' ++ os'')) ∧
        n < (built L (.server c) (os ++ (os' ++ os''))).length) ∧ N''.Ended c data (os' ++ os'') by
    obtain ⟨N'', q'', os'', hrun, -, hended⟩ := hprogress
    exact ⟨N'', q'', os'', hrun, hended⟩
  refine Line.progress (P := fun N os' => N.Ended c data os' ∨
      Asking L c data n N (os ++ os') ∧ n < (built L (.server c) (os ++ os')).length)
    (Q := fun N os' => N.Ended c data os') (fun N => N.toClient.length) ?_ (.inr ⟨h, hreply⟩) q
  intro N q os' hP hgoes
  obtain ⟨h, hreply⟩ := hP.resolve_left hgoes
  obtain ⟨b, N', o, hstep, honward, hnear⟩ := h.takes_next L hreply draw
  have hnext := h.step L hstep honward.awaits
  rw [List.append_assoc] at hnext
  -- the client waits for no lock
  have hturn : netLine.InTurn N q (.client b) := Line.inTurn_of_not_waits fun _ hc => by cases hc
  refine ⟨_, N', o, hstep, honward, hturn,
    hnext.imp Net.Ended.after fun ha => ⟨ha, ?_⟩, hnear.imp_left Net.Ended.after⟩
  rw [← List.append_assoc, built_append, List.length_append]
  exact Nat.lt_add_right _ hreply

theorem Outstanding.run (h : Outstanding L c data N₀ os N os')
    (hrun : Lts.Run (Lts.Guarded (Net.step L c) (Net.Awaits c)) N N' o) :
    Outstanding L c data N₀ os N' (os' ++ o) := by
  induction hrun with
  | nil => rwa [List.append_nil]
  | snoc _ hst ih =>
    obtain ⟨a, hstep, hawaits⟩ := hst
    rw [← List.append_assoc]
    exact ih.go hstep hawaits

/-- **Every operation comes to its end.**  Over an honest network, from every state that is reached after
    the call, in whatever order the coroutines wait for the locks, whatever `uuid4()` gives: steps of the
    two ends, and of those that hold the lock or wait for it before, lead on until the operation received a
    reply, or was answered with what `recv_loop` takes for an error, or the coroutine of the connection is
    over (it raised, or the operation was BYE), or the operation is GET_INBOX and there is no request. -/
theorem operation_ends {password clientPassword : Bytes} {keep : Bool} {S : Sys K} {os₀ : List (Obs K)}
    (hS : Lts.Run (Lts.Guarded (Sys.step L) fun _ _ _ => True) (.init password keep) S os₀)
    (hidle : S.tasks c = .idle) (peer : String)
    (hcall : Outstanding L c data ⟨S, .init peer clientPassword, [], []⟩ os N os')
    (hlined : netLine.Lined N q) (draw : Uuid4) :
    ∃ N'' q'' os'', Net.Goes L c draw (N, q) (N'', q'') os'' ∧
      (N''.Ended c data (os' ++ os'') ∨ N''.Starved c data) := by
  rcases hcall.asking L (poised_init L hS hidle peer) with hended | ⟨n, h⟩
  · exact ⟨N, q, [], .nil, .inl (by rwa [List.append_nil])⟩
  obtain ⟨N₁, q₁, os₁, hrun₁, hended | hstarved | ⟨h₁, hreply⟩⟩ := h.reply_comes L hlined draw
  · exact ⟨N₁, q₁, os₁, hrun₁, .inl hended⟩
  · exact ⟨N₁, q₁, os₁, hrun₁, .inr hstarved⟩
  · obtain ⟨N₂, q₂, os₂, hrun₂, hended⟩ := h₁.returns_come L hreply q₁ draw
    rw [List.append_assoc] at hended
    exact ⟨N₂, q₂, os₁ ++ os₂, hrun₁.trans hrun₂, .inl hended⟩

end

/-! ## A run on fixed inputs -/

/-- Connection 1 waits for `db_lock` with a GET. -/
def othersWait : List Net.Act :=
  (otherLogin 1 ++ [Act.resume 1 (.recv (stubPacket 1 2 [0x82, 107])) sampleDraw]).map .server

/-- The packet of an operation goes to the server. -/
def asksForKey : List Net.Act :=
  [.client (.sendLoop .go), .client (.sendLoop .sent),
    .server (.resume 0 (.recv (stubPacket 0 2 [0x82, 7])) sampleDraw)]

/-- `get` behind the GET of another connection. -/
theorem operation_ends_sample : ∃ (N N'' : Net ℕ) (q q'' : Held → List ConnId) (os' os'' : List (Obs ℕ)),
    q .dbLock = [1, 0] ∧ returns os' = [] ∧ Net.Goes stub 0 sampleDraw (N, q) (N'', q'') os'' ∧
      (N''.Ended 0 [0x82, 7] (os' ++ os'') ∨ N''.Starved 0 [0x82, 7]) := by
  have hexec : ((Lts.exec (netLine.inLine (Net.step stub 0)) (joinActs ++ othersWait)
      (.init [] false "" [], fun _ => [])).any fun x =>
        (x.1.1.Usable 0 : Bool) && (x.1.1.client.OneAtATime (.call (.get [7])) : Bool) &&
          (netLine.inLine (Net.step stub 0) x.1 (.client (.call (.get [7])))).any fun y =>
            .called [0x82, 7] ∈ y.2 &&
              (Lts.exec (netLine.inLine (Net.step stub 0)) asksForKey y.1).any fun z =>
                (Lts.Along (Net.step stub 0) (Net.Checks 0 [7]) asksForKey y.1.1 : Bool) &&
                  z.1.2 .dbLock = [1, 0] && returns z.2 = []) = true := by decide +kernel
  have hcheck : Lts.Along (Net.step stub 0) (fun N a o => N.Checked 2 a o ∧ N.Honest 0 a o ∧
      N.OneAtATime a ∧ N.Patient a) (joinActs ++ othersWait) (.init [] false "" []) := by decide +kernel
  have halways : ∀ {as : List Net.Act} {x : Net ℕ × (Held → List ConnId)},
      Lts.Along (netLine.inLine (Net.step stub 0)) (fun _ _ _ => True) as x :=
    Lts.along_of fun _ _ _ => trivial
  obtain ⟨⟨⟨N₁, q₁⟩, os₁⟩, hN₁, h₁⟩ := Option.any_eq_true _ _ |>.1 hexec
  simp only [Bool.and_eq_true, decide_eq_true_eq] at h₁
  obtain ⟨⟨husable, hone⟩, h₁⟩ := h₁
  obtain ⟨⟨⟨N₂, q₂⟩, o⟩, hN₂, h₂⟩ := Option.any_eq_true _ _ |>.1 h₁
  simp only [Bool.and_eq_true, decide_eq_true_eq] at h₂
  obtain ⟨hcalled, h₂⟩ := h₂
  obtain ⟨⟨⟨N, q⟩, os'⟩, hN, h₃⟩ := Option.any_eq_true _ _ |>.1 h₂
  simp only [Bool.and_eq_true, decide_eq_true_eq] at h₃
  obtain ⟨⟨halong, hq⟩, hreturns⟩ := h₃
  have hrun : Lts.Run (Lts.Guarded (Net.step stub 0) (Net.Fair 0)) (.init [] false "" []) N₁ os₁ :=
    (checked_run stub (fun _ _ => rfl) (Line.exec_left hN₁) hcheck).guard fun h =>
      ⟨h.2.2.1, h.1, h.2.2.2.1, h.2.2.2.2⟩
  have hcall := Outstanding.call hrun husable hone (Line.inLine_eq_some.1 hN₂).2.1 hcalled rfl
  have hwait := hcall.run stub ((checks_run stub (Line.exec_left hN) halong).guard Net.Quiet.awaits)
  have hlined : netLine.Lined N q :=
    Line.Lined.run (netLine_local stub 0) (.empty fun _ => rfl)
      (((Lts.exec_run hN₁ halways).trans (.single ⟨_, hN₂, trivial⟩)).trans (Lts.exec_run hN halways))
  obtain ⟨N'', q'', os'', hrun'', hended⟩ := operation_ends stub .nil rfl "" hwait hlined sampleDraw
  exact ⟨N, N'', q, q'', os', os'', hq, hreturns, hrun'', hended⟩

end Pipebomb
