/-
  `set` and then `get` on one client.

  * `Wrote`: the server acknowledged `set`, and ran no other SET or DELETE of the key since.
    `Getting`: then `get` was called, and no other operation; until the server answers it, it runs
    no SET or DELETE of the key.
  * `Fetching`: where client and server stand meanwhile; `Fetching.step`: every step keeps it,
    for a value that can be returned (`Returnable`).
-/
import Pipebomb.Answers
import Pipebomb.Conversation
import Pipebomb.DbLock
import Pipebomb.Fields

namespace Pipebomb

open ByteString

variable {K : Type} (L : Libs K)

/-! ## Steps -/

/-- The await raises, or the stream is at its end. -/
def Input.Fails : Input → Prop
  | .raise _ => True
  | .recv chunk => chunk = []
  | _ => False

/-- No await of the connection fails. -/
def Net.Lossless (c : ConnId) (_ : Net K) : Net.Act → Prop
  | .server (.resume c' i _) => c' = c → ¬ i.Fails
  | .client (.resume i) | .client (.sendLoop i) | .client (.recvLoop i) | .client (.closing i) =>
    ¬ i.Fails
  | _ => True

/-- The network is honest, the session is not shared, and operations come one after another,
    without timeouts. -/
structure Net.Fair (c : ConnId) (N : Net K) (a : Net.Act) (o : List (Obs K)) : Prop where
  honest : N.Honest c a o
  alone : N.Alone c a o
  oneAtATime : N.OneAtATime a
  patient : N.Patient a

/-- The operation assigns the key or deletes it. -/
def KvOp.Changes (key : Bytes) : KvOp → Prop
  | .set key' _ | .delete key' => key' = key
  | _ => False

/-- The step runs a SET or a DELETE of the key. -/
def Net.Writes (key : Bytes) (N : Net K) (a : Net.Act) (o : List (Obs K)) : Prop :=
  ∃ b op, a = .server b ∧ N.sys.effect b o = some (.kv op) ∧ op.Changes key

/-- The server acknowledges what `set` sent: this makes `set` return true. -/
def Acknowledges (c : ConnId) (key value : Bytes) (o : List (Obs K)) : Prop :=
  ∃ u data, (Call.set key value).payload = .ok data ∧ .answered c u data ACK ∈ o

/-- The handler goes on after a send. -/
def Handler.GoesOn (h : Handler) : Prop := ∀ held after, h.pc = .sendall held after → after = .next

/-- Client and server can go on with operations. -/
structure Net.Usable (c : ConnId) (N : Net K) : Prop where
  opened : N.client.Open
  receives : ∃ b, N.client.recvLoop = .recv b
  sends : ∀ e, N.client.sendLoop ≠ .dead e
  served : ∃ h, N.sys.tasks c = .handler h ∧ h.GoesOn

/-- The payload of `get`. -/
def getPayload (key : Bytes) : Bytes := 0x82 :: key

/-- The value can be the reply to GET: `constructPacket` builds the packet, and `recv_loop` does not take it
    for an error. -/
structure Returnable (value : Bytes) : Prop where
  nonempty : value ≠ []
  fits : Fits L value
  noError : RawClient.ERR <+: value → value = RawClient.ERR_ACK

/-! ## Runs -/

/-- The server acknowledged the SET, and ran no other SET or DELETE of the key since. -/
inductive Wrote (c : ConnId) (key value : Bytes) (N₀ : Net K) : Net K → List (Obs K) → Prop
  | set {N N' : Net K} {a : Net.Act} {os o : List (Obs K)} :
      Lts.Run (Lts.Guarded (Net.step L c) (Net.Fair c)) N₀ N os → N.step L c a = some (N', o) →
      N.Fair c a o → Acknowledges c key value o → Wrote c key value N₀ N' (os ++ o)
  | keep {N N' : Net K} {a : Net.Act} {os o : List (Obs K)} :
      Wrote c key value N₀ N os → N.step L c a = some (N', o) → N.Fair c a o →
      ¬ N.Writes key a o → Wrote c key value N₀ N' (os ++ o)

/-- The server answered the GET. -/
def Answered (c : ConnId) (key : Bytes) (os : List (Obs K)) : Prop :=
  ∃ u reply, .answered c u (getPayload key) reply ∈ os

/-- A step after the call of an operation, before the next. -/
structure Net.Awaits (c : ConnId) (N : Net K) (a : Net.Act) (o : List (Obs K)) : Prop where
  fair : N.Fair c a o
  lossless : N.Lossless c a
  noCall : ∀ call, a ≠ .client (.call call)
  noClose : a ≠ .client .close

/-- `get` was called after the SET, and no other operation since; `os'` was seen since. -/
inductive Getting (c : ConnId) (key value : Bytes) (N₀ : Net K) (os : List (Obs K)) :
    Net K → List (Obs K) → Prop
  | call {N N' : Net K} {before o : List (Obs K)} : Wrote L c key value N₀ N before → N.Usable c →
      N.client.OneAtATime (.call (.get key)) → N.client.txNonce < 2 ^ 96 →
      N.step L c (.client (.call (.get key))) = some (N', o) → os = before ++ o →
      Getting c key value N₀ os N' []
  | go {N N' : Net K} {a : Net.Act} {os' o : List (Obs K)} : Getting c key value N₀ os N os' →
      N.step L c a = some (N', o) → N.Awaits c a o →
      (N.Writes key a o → Answered c key os') → Getting c key value N₀ os N' (os' ++ o)

variable {c : ConnId} {key value : Bytes} {N N' : Net K} {os o : List (Obs K)} {a : Net.Act} {S : Sys K}

/-! ## The database -/

/-- A step that does not write the key keeps its value. -/
theorem get?_unwritten (hS : S.Sound) {S' : Sys K} {b : Act} (hstep : S.step L b = some (S', o))
    (hno : ∀ op, S.effect b o = some (.kv op) → ¬ op.Changes key) :
    S'.server.db.get? key = S.server.db.get? key := by
  by_cases hwire : b.Wire
  · have hoffice := step_office L hS.refs (step_step L hS.tidy hstep).1 hwire
    have hdb : S'.server.db.get? = (S.server.office.applyAll (S.effect b o)).db :=
      congrArg Office.db hoffice
    rw [hdb]
    rcases he : S.effect b o with _ | e
    · rfl
    · cases e with
      | kv op =>
        have hop := hno op he
        cases op with
        | set key' v => exact Function.update_of_ne (Ne.symm hop) ..
        | delete key' => exact Function.update_of_ne (Ne.symm hop) ..
        | get | list => rfl
      | _ => rfl
  · cases b with
    | admin op =>
      cases hstep
      rw [(admin_aside S.server op).db]
    | _ => exact absurd trivial hwire

/-- A handshake answers no payload. -/
theorem acceptStep_not_answered {s : Server K} {A : Accepting K} {i : Input} {draw : Uuid4}
    {out : Outcome K (Accepting K)} (ho : acceptStep L s c A i draw = some out) (c' : ConnId) (u : PyStr)
    (data reply : Bytes) : .answered c' u data reply ∉ out.2.2 := by
  intro hm
  have huses := (acceptStep_obs L ho _ hm).2
  cases A with
  | sendLogin l uuid r =>
    cases i with
    | sent | raise =>
      cases ho
      cases hm
    | go | recv => cases ho
  | _ => cases huses

/-- What `set` sends is a SET of the key and the value. -/
theorem acknowledges_effect (hS : S.Sound) {S' : Sys K} {b : Act} (hstep : S.step L b = some (S', o))
    (h : Acknowledges c key value o) : S.effect b o = some (.kv (.set key value)) := by
  obtain ⟨u, data, hpay, hm⟩ := h
  obtain ⟨hshort, hdata⟩ := withLengths_ok.1 hpay
  have hcmd : command 0x81 = .db .set := by decide
  rcases step_cases L hstep with ⟨c', rfl, -, rfl, -⟩ | ⟨c', i, draw, s, t, rfl, ht, -⟩ | ⟨op, rfl, rfl, -⟩
  · cases hm
  · cases htask : S.tasks c' with
    | idle | «over» x =>
      rw [htask] at ht
      cases ht
    | accept A =>
      rw [htask] at ht
      exact absurd hm (acceptStep_not_answered L ht c u data ACK)
    | handler h =>
      rw [htask] at ht
      have hframe := hS.tidy c'
      rw [htask] at hframe
      obtain ⟨-, -, ⟨-, r, -, hr⟩ | ⟨hq, rfl, hd, -⟩⟩ := (handlerStep_move L hframe ht).answered L hm
      · simp only [hdata, dispatch, hcmd] at hr
        cases hr
      · obtain ⟨_, _, he, hwaits⟩ := (hS.handlers c' h htask).waits hq
        rw [← hd, hdata] at he
        cases he
        rw [hcmd] at hwaits
        obtain ⟨op, hop, hpc⟩ | ⟨_, hc, -⟩ | ⟨_, _, hc, -⟩ | ⟨_, hc, -⟩ := hwaits
        · cases hop
          have hkv : kvOp .set h.data.tail = some (.set key value) := by
            rw [← hd, hdata]
            simp only [List.tail_cons, kvOp]
            rw [splitBody_eq (n := 2) rfl hshort]
          simp only [Sys.effect, htask, Handler.effect, hpc, hkv, Option.map_some]
        · cases hc
        · cases hc
        · cases hc
  · cases hm

theorem get?_set {S' : Sys K} {b : Act} (hS : S.Sound) (hstep : S.step L b = some (S', o))
    (he : S.effect b o = some (.kv (.set key value))) : S'.server.db.get? key = some value := by
  have hwire : b.Wire := by
    cases b with
    | admin op => cases he
    | _ => trivial
  have hoffice := step_office L hS.refs (step_step L hS.tidy hstep).1 hwire
  have hdb : S'.server.db.get? = (S.server.office.applyAll (S.effect b o)).db :=
    congrArg Office.db hoffice
  rw [hdb, he]
  exact Function.update_self ..

/-! ## Before the call -/

/-- Client and server between operations, or during one. -/
structure Steady (c : ConnId) (N : Net K) (os : List (Obs K)) : Prop where
  conversing : Conversing L c N os
  calls : N.client.calls.length ≤ 1
  untimed : ∀ d, .timedOut d ∉ os
  sound : N.sys.Sound
  lock : dbMutex.Sound N.sys

theorem Steady.step (h : Steady L c N os) (hstep : N.step L c a = some (N', o)) (hfair : N.Fair c a o) :
    Steady L c N' (os ++ o) := by
  obtain ⟨hconv, hcalls⟩ := h.conversing.oneAtATime L h.calls hstep hfair.honest hfair.alone
    hfair.oneAtATime h.untimed
  have hsys : N'.sys.Sound ∧ dbMutex.Sound N'.sys := by
    rcases Net.step_cases L hstep with ⟨b, S, rfl, hs, rfl⟩ | ⟨b, C, rfl, hs, rfl⟩
    · exact ⟨step_sound L h.sound hs, h.lock.step (step_locks L h.sound.tidy hs)⟩
    · exact ⟨h.sound, h.lock⟩
  refine ⟨hconv, hcalls, fun d hd => ?_, hsys.1, hsys.2⟩
  rcases List.mem_append.1 hd with hd | hd
  · exact h.untimed d hd
  · exact patient_step L hstep hfair.patient d hd

theorem steady_init (hS : S.Sound) (hlock : dbMutex.Sound S) (hidle : S.tasks c = .idle) (peer : String)
    (password : Bytes) : Steady L c ⟨S, .init peer password, [], []⟩ [] :=
  ⟨conversing_init L hS hidle peer password, Nat.zero_le 1, fun d hd => (by cases hd), hS, hlock⟩

/-- A step that does not write the key. -/
theorem unwritten_step (hS : N.sys.Sound) (hstep : N.step L c a = some (N', o))
    (hno : ¬ N.Writes key a o) : N'.sys.server.db.get? key = N.sys.server.db.get? key := by
  rcases Net.step_cases L hstep with ⟨b, S, rfl, hs, rfl⟩ | ⟨b, C, rfl, hs, rfl⟩
  · exact get?_unwritten L hS hs fun op he hop => hno ⟨b, op, rfl, he, hop⟩
  · rfl

/-- **The value is there.** -/
theorem Wrote.stored {N₀ : Net K} (h : Wrote L c key value N₀ N os) (h₀ : Steady L c N₀ []) :
    Steady L c N os ∧ N.sys.server.db.get? key = some value := by
  induction h with
  | @set N N' a os o hrun hstep hfair hack =>
    have hsteady : Steady L c N os := by
      refine hrun.inv (I := Steady L c) h₀ ?_
      rintro N N' os o - ih ⟨a, hstep, hfair⟩
      exact ih.step L hstep hfair
    refine ⟨hsteady.step L hstep hfair, ?_⟩
    rcases Net.step_cases L hstep with ⟨b, S, rfl, hs, rfl⟩ | ⟨b, C, rfl, hs, rfl⟩
    · exact get?_set L hsteady.sound hs (acknowledges_effect L hsteady.sound hs hack)
    · obtain ⟨u, data, -, hm⟩ := hack
      exact absurd hm (client_atClient L hs _)
  | keep _ hstep hfair hno ih =>
    obtain ⟨hsteady, hget⟩ := ih
    exact ⟨hsteady.step L hstep hfair, (unwritten_step L hsteady.sound hstep hno).trans hget⟩

/-- **Between operations** both ends have taken all packets and built equally many. -/
theorem Conversing.settled (h : Conversing L c N os) (hopen : N.client.Open) (hcalls : N.client.calls = [])
    (huntimed : ∀ d, .timedOut d ∉ os) (hreading : N.client.reading ≠ none) :
    2 ≤ (built L .client os).length ∧ N.client.inputPackets = [] ∧
      (built L (.server c) os).length = (built L .client os).length ∧
      (opened .client os).length = (built L .client os).length ∧
      (opened (.server c) os).length = (built L .client os).length := by
  have hreturned := h.returned L hopen hcalls huntimed
  obtain ⟨⟨e, f, xs, hlock⟩, hcorr⟩ := h
  have h2 : 2 ≤ (opened .client os).length := hlock.client.joined hopen.connected
  have hle := hlock.opened_le L
  obtain ⟨h₁, h₂, h₃⟩ := hlock.le L
  simp only [tally] at h₁ h₂ h₃
  have hall := congrArg List.length (hcorr.reading hopen.connected hreading)
  rw [List.length_append, List.length_map, List.length_drop, List.length_take, length_payloads] at hall
  refine ⟨by omega, List.eq_nil_of_length_eq_zero (by omega), by omega, by omega, by omega⟩

/-! ## The handler -/

/-- The handler waits for the GET, or runs it. -/
inductive Handler.Receiving (key : Bytes) (h : Handler) : Prop
  | recv : h.pc = .recv → packetFraming.cut h.receiveBuffer = .more → Receiving key h
  | reading : h.pc = .dbLock .get → h.data = getPayload key → Receiving key h

/-- The handler is on its way to GET, runs it, or sent the reply. -/
inductive Handler.Serving (key : Bytes) (h : Handler) : Prop
  | start : h.pc = .start → Serving key h
  | sleep : h.pc = .sleep → Serving key h
  | receiving : h.Receiving key → Serving key h
  | sending {held : Held} : h.pc = .sendall held .next → Serving key h

theorem Handler.Serving.goesOn {h : Handler} (hs : h.Serving key) : h.GoesOn := by
  intro held after hpc
  cases hs with
  | start h | sleep h =>
    rw [h] at hpc
    cases hpc
  | receiving hr =>
    cases hr with
    | recv h _ | reading h _ =>
      rw [h] at hpc
      cases hpc
  | sending h =>
    rw [h] at hpc
    cases hpc
    rfl

/-- The server builds no packet and answers nothing. -/
def Unanswered (c : ConnId) (o : List (Obs K)) : Prop :=
  built L (.server c) o = [] ∧ ∀ u data reply, .answered c u data reply ∉ o

theorem unanswered_nil : Unanswered L c ([] : List (Obs K)) := ⟨rfl, fun _ _ _ h => by cases h⟩

/-- A step of the handler that serves: it goes on, and builds nothing but the reply. -/
structure Serves (c : ConnId) (key value : Bytes) (out : Outcome K (Accepting K)) : Prop where
  serving : ∃ h, out.2.1 = .handler h ∧ h.Serving key
  built : Unanswered L c out.2.2 ∨ ∃ k n, built L (.server c) out.2.2 = [(k, n, value)]

/-- A step of the handler that looks for the GET. -/
structure Looks (c : ConnId) (key : Bytes) (out : Outcome K (Accepting K)) : Prop where
  receiving : ∃ h, out.2.1 = .handler h ∧ h.Receiving key
  unanswered : Unanswered L c out.2.2

section
variable {s : Server K} {h : Handler} {xs : List (K × ℕ × Bytes)} {j n : ℕ} {e : ServerEnd K} {k : K}
  {feed : Bytes} {draw : Uuid4}

/-- Nothing is seen. -/
theorem serves_still (h' : Handler) (hs : h'.Serving key) (s : Server K) :
    Serves L c key value (s, .handler h', []) := ⟨⟨h', rfl, hs⟩, .inl (unanswered_nil L)⟩

theorem Looks.serves {out : Outcome K (Accepting K)} (h : Looks L c key out) : Serves L c key value out := by
  obtain ⟨h', htask, hreceiving⟩ := h.receiving
  exact ⟨⟨h', htask, .receiving hreceiving⟩, .inl h.unanswered⟩

/-- The next frame is the GET. -/
theorem onFrame_looks (hl : s.Linked h.uuid k n n) (hf : Feeding L c xs j (.idle k n))
    {x : K × ℕ × Bytes} (hx : xs[j]? = some x) (hget : x.2.2 = getPayload key) :
    Looks L c key (onFrame L s c h (some (packet L x)) draw) := by
  obtain ⟨cl, hcl, hk, htx, hrx⟩ := hl
  obtain ⟨r, hu, rfl⟩ := Server.client_eq_some.1 hcl
  obtain ⟨hdec, hv⟩ := hf.next L hx
  have hdispatch : dispatch (s.modify r Client.received) h.uuid (getPayload key) draw =
      (s.modify r Client.received, .wait (.dbLock .get)) := rfl
  simp only [onFrame, hu, hk, hrx, hdec, hv, hget, hdispatch]
  refine ⟨⟨{ h with data := getPayload key, pc := .dbLock .get }, rfl, .reading rfl rfl⟩, rfl, ?_⟩
  intro u data reply hm
  simp [seen, proceed] at hm

theorem pump_looks (hl : s.Linked h.uuid k n n) (hf : Feeding L c xs j (.idle k n))
    (hin : Inlet (stream L L.clientPublic xs) (j + 1) h.receiveBuffer feed)
    (hnext : ∀ x, xs[j]? = some x → x.2.2 = getPayload key) : Looks L c key (pump L s c h draw) := by
  rcases hin.cut packetFraming cut_nil (hf.numbered.complete L _) with hc | ⟨f, r, hm, hc, hr⟩
  · simp only [pump, extract_more hc]
    exact ⟨⟨{ h with pc := .recv }, rfl, .recv rfl hc⟩, unanswered_nil L⟩
  · obtain ⟨x, hx, rfl⟩ := next_packet L hm
    simp only [pump, extract_frame hc]
    exact onFrame_looks L (h := { h with receiveBuffer := r }) hl hf hx (hnext x hx)

/-- GET runs. -/
theorem get_replies (hl : s.Linked h.uuid k n (n + 1)) (hdata : h.data = getPayload key)
    (hget : s.db.get? key = some value) (hok : Returnable L value) (hn : n < 2 ^ 96) :
    let out : Outcome K (Accepting K) := sendReply L (DbOp.get.run (s.setDbLock true) h.data.tail).1 c h
      (DbOp.get.run (s.setDbLock true) h.data.tail).2 .dbLock .next
    (∃ h', out.2.1 = .handler h' ∧ h'.pc = .sendall .dbLock .next) ∧
      built L (.server c) out.2.2 = [(k, n, value)] := by
  obtain ⟨cl, hcl, hk, htx, -⟩ := hl
  have hreply : lookupReply s.db key = .ok value := by
    rw [lookupReply, hget]
  have hclient : (s.setDbLock true).client h.uuid = some cl := hcl
  have hpkt := constructPacket_eq L hok.nonempty hok.fits hn k
  have hrun : DbOp.get.run (s.setDbLock true) (getPayload key).tail = (s.setDbLock true, .ok value) := by
    rw [← hreply]
    rfl
  rw [hdata, hrun]
  simp only [sendReply, sendPacket, hclient, hk, htx, hpkt, encryptCall_eq _ k hok.nonempty hn]
  refine ⟨⟨{ h with pc := .sendall .dbLock .next }, rfl, rfl⟩, ?_⟩
  simp [seen, built, hok.fits]

/-- **A step of the handler**, which waits for the GET or runs it. -/
theorem handlerStep_serves {i : Input} {out : Outcome K (Accepting K)} {feed : Bytes}
    (hs : h.Serving key) (hat : (Task.handler h).AtEnd s e) (hf : Feeding L c xs j e)
    (hin : Inlet (stream L L.clientPublic xs) (j + 1) h.receiveBuffer feed)
    (hnext : ∀ x, xs[j]? = some x → x.2.2 = getPayload key)
    (hvalue : ∀ k n, e = .busy k n → s.db.get? key = some value ∧ n < 2 ^ 96)
    (hok : Returnable L value) (hi : ¬ i.Fails) (hchunk : i.chunk <+: feed)
    (ho : handlerStep L s c h i draw = some out) : Serves L c key value out := by
  obtain ⟨k, n, hl, he⟩ := hat
  cases hs with
  | start hpc =>
    rw [hpc] at hl
    cases i with
    | go =>
      simp only [handlerStep, hpc, started] at ho
      obtain ⟨cl, hcl, hk, -⟩ := hl
      simp only [hcl, hk] at ho
      cases ho
      exact serves_still L { h with pc := .sleep } (.sleep rfl) s
    | raise x => exact absurd trivial hi
    | recv | sent => simp [handlerStep, hpc] at ho
  | sleep hpc =>
    rw [hpc] at hl he
    subst he
    cases i with
    | go =>
      simp only [handlerStep, hpc] at ho
      cases ho
      exact (pump_looks L hl hf hin hnext).serves L
    | raise x => exact absurd trivial hi
    | recv | sent => simp [handlerStep, hpc] at ho
  | receiving hr =>
    cases hr with
    | recv hpc _ =>
      rw [hpc] at hl he
      subst he
      cases i with
      | recv chunk =>
        have hne : chunk ≠ [] := hi
        simp only [handlerStep, hpc, if_neg hne] at ho
        split_ifs at ho
        cases ho
        exact (pump_looks L (h := { h with receiveBuffer := h.receiveBuffer ++ chunk }) hl hf
          (hin.arrive hchunk) hnext).serves L
      | raise x => exact absurd trivial hi
      | go | sent => simp [handlerStep, hpc] at ho
    | reading hpc hdata =>
      rw [hpc] at hl he
      subst he
      cases i with
      | go =>
        simp only [handlerStep, hpc] at ho
        split_ifs at ho
        cases ho
        obtain ⟨hget, hn⟩ := hvalue k n rfl
        obtain ⟨⟨h', htask, hsending⟩, hbuilt⟩ := get_replies L (c := c) hl hdata hget hok hn
        exact ⟨⟨h', htask, .sending hsending⟩, .inr ⟨k, n, hbuilt⟩⟩
      | raise x => exact absurd trivial hi
      | recv | sent => simp [handlerStep, hpc] at ho
  | @sending held hpc =>
    cases i with
    | sent =>
      simp only [handlerStep, hpc, onSent] at ho
      obtain ⟨cl, hcl, -⟩ := hl
      obtain ⟨r, hu, -⟩ := Server.client_eq_some.1 hcl
      simp only [hu] at ho
      cases ho
      exact ⟨⟨{ h with pc := .sleep }, rfl, .sleep rfl⟩, .inl (unanswered_nil L)⟩
    | raise x => exact absurd trivial hi
    | recv | go => simp [handlerStep, hpc] at ho

end

/-! ## The receive loop -/

section
variable {C : RawClient K} {ys : List (K × ℕ × Bytes)} {i j : ℕ} {feed b : Bytes} {k : K}
  {x : K × ℕ × Bytes}

/-- A packet that is no error is put into the queue. -/
theorem recvFrame_puts (hf : ClientFeeding L c ys i feed C) (hk : C.cipher = some k) (htasks : C.tasks = [])
    (hx : ys[j]? = some x) (hfine : RawClient.ERR <+: x.2.2 → x.2.2 = RawClient.ERR_ACK)
    (input : List Bytes) (os : List (Obs K)) :
    ∃ os', RawClient.recvFrame L ({ C with rxNonce := j, inputPackets := input }, os) (packet L x) =
      (({ C with rxNonce := j + 1, inputPackets := input ++ [x.2.2] }, os'), none) := by
  obtain ⟨hn, hkey, hp⟩ := hf.numbered j x hx
  obtain rfl : k = x.1 := Option.some.inj ((hf.key k hk).symm.trans hkey)
  obtain ⟨-, hv⟩ := open_packet L .client hp
  rw [hn] at hv
  have herr : ¬ (RawClient.ERR <+: x.2.2 ∧ x.2.2 ≠ RawClient.ERR_ACK) := fun h => h.2 (hfine h.1)
  simp only [RawClient.recvFrame, hk, hv, htasks, ne_eq, not_true_eq_false, and_false, false_and, if_false,
    if_neg herr]
  exact ⟨_, rfl⟩

/-- **A chunk that arrives**: the loop goes on if no packet from the `i`-th on is an error. -/
theorem recvLoop_goesOn {chunk : Bytes} {out : RawClient.After K} (hf : ClientFeeding L c ys i feed C)
    (hconn : C.connection = .connected) (hk : C.cipher = some k) (hb : C.recvLoop = .recv b)
    (hfine : ∀ m x, i ≤ m → ys[m]? = some x →
      C.tasks = [] ∧ (RawClient.ERR <+: x.2.2 → x.2.2 = RawClient.ERR_ACK))
    (hne : chunk ≠ []) (hchunk : chunk <+: feed) (ho : C.recvLoopStep L (.recv chunk) = some out) :
    ∃ rx input b', out.1 = { C with rxNonce := rx, inputPackets := input, recvLoop := .recv b' } ∧
      packetFraming.cut b' = .more := by
  have hreading : C.reading = some b := by simp [RawClient.reading, hconn, hk, hb]
  obtain ⟨hrx, hin⟩ := hf.place b hreading
  have hstep : ∀ {pos : ℕ} {f : Bytes} {o o' : RawClient.After K} {e : Option PyErr},
      (∃ input, o.1 = { C with rxNonce := pos - 1, inputPackets := input } ∧ i + 1 ≤ pos) →
      (stream L (L.serverPublic c) ys)[pos]? = some f → RawClient.recvFrame L o f = (o', e) →
      e = none ∧ ∃ input, o'.1 = { C with rxNonce := pos + 1 - 1, inputPackets := input } ∧
        i + 1 ≤ pos + 1 := by
    rintro pos f ⟨C', os⟩ o' e ⟨input, hC, hle⟩ hm ha
    obtain ⟨j, rfl⟩ : ∃ j, pos = j + 1 := ⟨pos - 1, by omega⟩
    obtain ⟨x, hx, rfl⟩ := next_packet L hm
    obtain ⟨htasks, herr⟩ := hfine j x (by omega) hx
    obtain ⟨os', hr⟩ := recvFrame_puts L hf hk htasks hx herr input os
    obtain rfl : C' = { C with rxNonce := j, inputPackets := input } := hC
    rw [hr] at ha
    cases ha
    exact ⟨rfl, _, rfl, by omega⟩
  have hstart : ∃ input, ((C, []) : RawClient.After K).1 =
      { C with rxNonce := i + 1 - 1, inputPackets := input } ∧ i + 1 ≤ i + 1 :=
    ⟨C.inputPackets, by rw [Nat.add_sub_cancel, ← hrx], le_rfl⟩
  have hdrain := (hin.arrive hchunk).drain packetFraming (RawClient.recvFrame L)
    (P := fun o pos => ∃ input, o.1 = { C with rxNonce := pos - 1, inputPackets := input } ∧ i + 1 ≤ pos)
    (Q := fun _ => False) cut_nil (fun hP hm ha => (hstep hP hm ha).2)
    (fun hP hm ha => by cases (hstep hP hm ha).1) (hf.numbered.complete L _) hstart
  rcases hdrain with ⟨⟨C', os⟩, b', pos, hd, ⟨input, hC, -⟩, -⟩ | ⟨o, b', e, -, hfalse⟩
  · simp only [RawClient.recvLoopStep, hb, hd] at ho
    split_ifs at ho
    cases ho
    obtain rfl : C' = { C with rxNonce := pos - 1, inputPackets := input } := hC
    exact ⟨_, _, b', rfl, packetFraming.cut_drain _ hd⟩
  · exact hfalse.elim

end

/-! ## During `get` -/

/-- The loops of the client run, and `send_loop` can count what it sends. -/
structure RawClient.Working (C : RawClient K) : Prop where
  opened : C.Open
  receives : ∃ b, C.recvLoop = .recv b ∧ packetFraming.cut b = .more
  sends : ∀ e, C.sendLoop ≠ .dead e
  paid : C.tasks.length + (if C.sendLoop = .sending then 1 else 0) ≤ C.unfinished

/-- **Where client and server stand** after the call of `get`, whose packet is the client's
    `n`-th; `os'` was seen since. -/
structure Fetching (c : ConnId) (key value : Bytes) (n : ℕ) (os : List (Obs K)) (N : Net K)
    (os' : List (Obs K)) : Prop where
  steady : Steady L c N (os ++ os')
  client : N.client.Working
  calls : N.client.calls = [(.get key, getPayload key)] ∧ returns os' = [] ∨
    N.client.calls = [] ∧ returns os' = [(getPayload key, value)]
  served : ∃ h, N.sys.tasks c = .handler h ∧ h.Serving key
  few : 2 ≤ n ∧ n < 2 ^ 96
  returned : (returns os).length + 2 = n
  asked : (built L .client (os ++ os')).length = n + 1
  get : (payloads (built L .client (os ++ os')))[n]? = some (getPayload key)
  took : n ≤ (opened .client (os ++ os')).length ∧ n ≤ (opened (.server c) (os ++ os')).length
  replies : n ≤ (built L (.server c) (os ++ os')).length
  stored : (built L (.server c) (os ++ os')).length = n → N.sys.server.db.get? key = some value
  replied : ∀ p, (payloads (built L (.server c) (os ++ os')))[n]? = some p → p = value
  answered : Answered c key os' → n < (built L (.server c) (os ++ os')).length

section
variable {n : ℕ} {os' : List (Obs K)}

theorem Fetching.usable (h : Fetching L c key value n os N os') : N.Usable c := by
  obtain ⟨b, hb, -⟩ := h.client.receives
  obtain ⟨h', htask, hs⟩ := h.served
  exact ⟨h.client.opened, ⟨b, hb⟩, h.client.sends, h', htask, hs.goesOn⟩

/-- What is on its way: the server opened and answered at most the GET. -/
theorem Fetching.bounds (h : Fetching L c key value n os N os') {e : ServerEnd K} {f : ClientEnd K}
    {xs : List (K × ℕ × Bytes)} (hlock : Locked L c N (os ++ os') e f xs) :
    (opened .client (os ++ os')).length ≤ (built L (.server c) (os ++ os')).length ∧
      (built L (.server c) (os ++ os')).length ≤
        (opened (.server c) (os ++ os')).length ∧
      (opened (.server c) (os ++ os')).length ≤ xs.length ∧ xs.length ≤ n + 1 ∧
      (xs.length = n + 1 → N.client.tasks = []) := by
  have hle := hlock.opened_le L
  obtain ⟨h₁, h₂, h₃⟩ := hlock.le L
  simp only [tally] at h₁ h₂ h₃
  rw [h.asked] at h₃
  refine ⟨hle, h₁, h₂, h₃, fun hall => ?_⟩
  obtain ⟨pending, hb, htasks⟩ := hlock.client.built
  have hlen := congrArg List.length hb
  rw [List.length_append, hall] at hlen
  simp only [tally] at hlen
  rw [h.asked] at hlen
  rw [htasks, List.eq_nil_of_length_eq_zero (l := pending) (by omega)]
  rfl

/-- A packet that the server did not answer before is the GET. -/
theorem Fetching.next (h : Fetching L c key value n os N os') {e : ServerEnd K} {f : ClientEnd K}
    {xs : List (K × ℕ × Bytes)} (hlock : Locked L c N (os ++ os') e f xs) {m : ℕ} {x : K × ℕ × Bytes}
    (hm : n ≤ m) (hx : xs[m]? = some x) : x.2.2 = getPayload key := by
  obtain ⟨-, -, -, hlen, -⟩ := h.bounds L hlock
  have hlt := (List.getElem?_eq_some_iff.1 hx).1
  obtain rfl : m = n := by omega
  obtain ⟨pending, hb, -⟩ := hlock.client.built
  have hget := h.get
  have hb' : built L .client (os ++ os') = xs ++ pending := hb
  rw [hb', payloads_append, List.getElem?_append_left (by rwa [length_payloads]), payloads,
    List.getElem?_map, hx] at hget
  exact Option.some.inj hget

/-! ### A step of the server -/

/-- A handler that works on a payload works on the GET, and the value is there. -/
theorem Fetching.running (h : Fetching L c key value n os N os') {k : K} {m : ℕ} {f : ClientEnd K}
    {xs : List (K × ℕ × Bytes)} (hlock : Locked L c N (os ++ os') (.busy k m) f xs)
    (hk : (N.sys.tasks c).Keyed) : N.sys.server.db.get? key = some value ∧ m < 2 ^ 96 := by
  obtain ⟨-, hanswered, hopened, hlen, -⟩ := h.bounds L hlock
  have hbuilt := (hlock.ok L).1.1.length
  have hacc := (hlock.ok L).1.2
  obtain ⟨-, hacc', -⟩ := (place_keyed L hk).1 hlock.server.place
  rw [hacc'] at hacc
  simp only [tally] at hbuilt hacc
  have hreplies := h.replies
  obtain rfl : m = n := by omega
  exact ⟨h.stored hbuilt, h.few.2⟩

/-- **The server goes on.** -/
theorem Fetching.server_goesOn (h : Fetching L c key value n os N os') (hok : Returnable L value) {b : Act}
    {S : Sys K} (hs : N.sys.step L b = some (S, o)) (hhonest : N.Honest c (.server b) o)
    (hlossless : N.Lossless c (.server b)) :
    (∃ h', S.tasks c = .handler h' ∧ h'.Serving key) ∧
      (Unanswered L c o ∨ ∃ k m, built L (.server c) o = [(k, m, value)]) := by
  obtain ⟨h₀, htask, hserving⟩ := h.served
  obtain ⟨⟨e, f, xs, hlock⟩, -⟩ := h.steady.conversing
  rcases step_cases L hs with ⟨c', rfl, hidle, rfl, rfl⟩ | ⟨c', i, draw, s, t, rfl, ht, rfl⟩ |
    ⟨op, rfl, rfl, rfl⟩
  · have hc : c ≠ c' := by
      rintro rfl
      rw [htask] at hidle
      cases hidle
    exact ⟨⟨h₀, (put_tasks_ne hc).trans htask, hserving⟩, .inl (unanswered_nil L)⟩
  · by_cases hc : c' = c
    · subst hc
      have hk : (N.sys.tasks c').Keyed := by
        rw [htask]
        trivial
      obtain ⟨hfeeding, hin⟩ := hlock.feeding L hk
      have hat := hlock.side.atEnd
      rw [htask] at hat hin ht
      have hvalue : ∀ k m, e = .busy k m → N.sys.server.db.get? key = some value ∧ m < 2 ^ 96 := by
        rintro k m rfl
        exact h.running L hlock hk
      have hserves := handlerStep_serves L hserving hat hfeeding hin
        (fun x hx => h.next L hlock h.took.2 hx) hvalue hok (hlossless rfl) (hhonest.server rfl) ht
      rw [put_tasks_self]
      exact ⟨hserves.serving, hserves.built⟩
    · have hby := taskStep_obs L ht
      refine ⟨⟨h₀, (put_tasks_ne (Ne.symm hc)).trans htask, hserving⟩, .inl ⟨?_, fun u data reply hm => ?_⟩⟩
      · exact congrArg Tally.built (tally_of_not L (hby.of fun hp => hc (Party.server.inj hp).symm))
      · exact hc (hby _ hm).1.symm
  · exact ⟨⟨h₀, htask, hserving⟩, .inl (unanswered_nil L)⟩

/-! ### A step of the client -/

/-- What a step of the client leaves. -/
structure Fetches (key value : Bytes) (C : RawClient K) (out : RawClient.After K) : Prop where
  working : out.1.Working
  built : built L .client out.2 = []
  calls : out.1.calls = C.calls ∧ returns out.2 = [] ∨
    C.calls = [(.get key, getPayload key)] ∧ out.1.calls = [] ∧ returns out.2 = [(getPayload key, value)]

/-- `get` takes the reply. -/
theorem Fetching.takes (h : Fetching L c key value n os N os')
    (hcalls : N.client.calls = [(.get key, getPayload key)] ∧ returns os' = []) {p : Bytes} {ps : List Bytes}
    (hinput : N.client.inputPackets = p :: ps) : p = value := by
  obtain ⟨-, hcorr⟩ := h.steady.conversing
  obtain ⟨b, hb, -⟩ := h.client.receives
  obtain ⟨k, hk⟩ := Option.ne_none_iff_exists'.1 h.client.opened.cipher
  have hreading : N.client.reading ≠ none := by
    simp [RawClient.reading, h.client.opened.connected, hk, hb]
  have hall := hcorr.reading h.client.opened.connected hreading
  rw [returns_append, hcalls.2, List.append_nil, hinput] at hall
  have hlen : ((returns os).map Prod.snd).length = n - 2 := by
    rw [List.length_map, ← h.returned, Nat.add_sub_cancel]
  have hp : ((returns os).map Prod.snd ++ p :: ps)[n - 2]? = some p := by
    rw [List.getElem?_append_right (by rw [hlen]), hlen, Nat.sub_self]
    rfl
  have h2 := h.few.1
  rw [hall, List.getElem?_drop, Nat.add_sub_cancel' h2, List.getElem?_take] at hp
  split_ifs at hp
  exact h.replied p hp

theorem RawClient.Working.sendLoop {C : RawClient K} {i : Input} {out : RawClient.After K} (h : C.Working)
    (hi : ¬ i.Fails) (hs : C.sendLoopStep i = some out) : Fetches L key value C out := by
  have hpaid := h.paid
  unfold RawClient.sendLoopStep at hs
  split at hs
  · rename_i hw
    split at hs
    · cases hs
    · rename_i p ps htasks
      cases hs
      refine ⟨⟨⟨h.opened.connected, h.opened.closing, h.opened.cipher⟩, h.receives,
        fun e he => (by cases he), ?_⟩, rfl, .inl ⟨rfl, rfl⟩⟩
      rw [htasks, hw, List.length_cons] at hpaid
      simpa using hpaid
  · rename_i hw
    rw [if_pos hw] at hpaid
    split_ifs at hs with hzero
    · omega
    · cases hs
      refine ⟨⟨⟨h.opened.connected, h.opened.closing, h.opened.cipher⟩, h.receives,
        fun e he => (by cases he), ?_⟩, rfl, .inl ⟨rfl, rfl⟩⟩
      simp only [RawClient.sent, reduceCtorEq, if_false]
      omega
  · cases hs
  · exact absurd trivial hi
  · cases hs

/-- `recv_loop` reads nothing but the reply to the GET. -/
theorem Fetching.recvLoop (h : Fetching L c key value n os N os') (hok : Returnable L value) {chunk : Bytes}
    {out : RawClient.After K} (hs : N.client.recvLoopStep L (.recv chunk) = some out) (hne : chunk ≠ [])
    (hchunk : chunk <+: N.toClient) : Fetches L key value N.client out := by
  have hconn := h.client.opened.connected
  obtain ⟨b, hb, -⟩ := h.client.receives
  obtain ⟨k, hk⟩ := Option.ne_none_iff_exists'.1 h.client.opened.cipher
  obtain ⟨⟨e, f, xs, hlock⟩, -⟩ := h.steady.conversing
  obtain ⟨-, hanswered, hopened, hlen, hsent⟩ := h.bounds L hlock
  have hkeyed : N.client.Keyed := by
    rw [RawClient.Keyed, hconn]
    trivial
  have hfine : ∀ m x, (opened .client (os ++ os')).length ≤ m →
      (built L (.server c) (os ++ os'))[m]? = some x →
      N.client.tasks = [] ∧ (RawClient.ERR <+: x.2.2 → x.2.2 = RawClient.ERR_ACK) := by
    intro m x hm hx
    have hlt := (List.getElem?_eq_some_iff.1 hx).1
    have htook := h.took.1
    obtain rfl : m = n := by omega
    have hx' : x.2.2 = value := by
      refine h.replied _ ?_
      rw [payloads, List.getElem?_map, hx]
      rfl
    rw [hx']
    exact ⟨hsent (by omega), hok.noError⟩
  obtain ⟨rx, input, b', hout, hmore'⟩ := recvLoop_goesOn L (hlock.clientFeeding L hkeyed) hconn hk hb
    hfine hne hchunk hs
  have hreceives := recvLoopStep_receives L hs
  obtain ⟨-, hreturns, -⟩ := (recvLoopStep_ofClient L hs).silent
  refine ⟨⟨⟨?_, ?_, ?_⟩, ⟨b', ?_, hmore'⟩, ?_, ?_⟩, hreceives.built, .inl ⟨hreceives.calls, hreturns⟩⟩
  · rw [hout]
    exact hconn
  · rw [hreceives.closing]
    exact h.client.opened.closing
  · rw [hreceives.cipher]
    exact h.client.opened.cipher
  · rw [hout]
  · rw [hout]
    exact h.client.sends
  · rw [hout]
    exact h.client.paid

/-- **The client goes on.** -/
theorem Fetching.client_goesOn (h : Fetching L c key value n os N os') (hok : Returnable L value)
    {b : RawClient.Act} {out : RawClient.After K} (hs : N.client.step L b = some out)
    (hchunk : b.chunk <+: N.toClient) (hcall : ∀ call, b ≠ .call call) (hclose : b ≠ .close)
    (hpatient : N.Patient (.client b)) (hlossless : N.Lossless c (.client b)) :
    Fetches L key value N.client out := by
  have hconn := h.client.opened.connected
  cases b with
  | connect relogUuid => simp [RawClient.step, hconn] at hs
  | resume i => simp [RawClient.step, RawClient.connectStep, hconn] at hs
  | call call => exact absurd rfl (hcall call)
  | timeout m => exact hpatient.elim
  | close => exact absurd rfl hclose
  | closing i => simp [RawClient.step, RawClient.closeStep, h.client.opened.closing] at hs
  | sendLoop i =>
    simp only [RawClient.step, if_pos hconn] at hs
    exact h.client.sendLoop L hlossless hs
  | recvLoop i =>
    simp only [RawClient.step, if_pos hconn] at hs
    obtain ⟨b, hb, -⟩ := h.client.receives
    cases i with
    | go | sent => simp [RawClient.recvLoopStep, hb] at hs
    | raise e => exact absurd trivial hlossless
    | recv chunk => exact h.recvLoop L hok hs hlossless hchunk
  | receive m =>
    simp only [RawClient.step] at hs
    rcases h.calls with hcalls | ⟨hcalls, -⟩
    · rw [hcalls.1] at hs
      rcases m with _ | m
      · rcases hinput : N.client.inputPackets with _ | ⟨p, ps⟩
        · rw [hinput] at hs
          cases hs
        · obtain rfl := h.takes L hcalls hinput
          rw [hinput] at hs
          cases hs
          exact ⟨⟨⟨hconn, h.client.opened.closing, h.client.opened.cipher⟩, h.client.receives,
            h.client.sends, h.client.paid⟩, rfl, .inr ⟨hcalls.1, rfl, rfl⟩⟩
      · cases hs
    · rw [hcalls] at hs
      cases hs

/-! ### A step -/

/-- A step of the server is none of the client. -/
theorem server_silent {S' : Sys K} {b : Act} (hs : S.step L b = some (S', o)) :
    tally L .client o = .none ∧ returns o = [] := by
  rcases step_cases L hs with ⟨c', rfl, -, rfl, rfl⟩ | ⟨c', i, draw, s, t, rfl, ht, rfl⟩ |
    ⟨op, rfl, rfl, rfl⟩
  · exact ⟨rfl, rfl⟩
  · have hby := taskStep_obs L ht
    exact ⟨tally_of_not L (hby.of fun hp => by cases hp), hby.silent.2.1⟩
  · exact ⟨rfl, rfl⟩

theorem Answered.append (h : Answered c key (os' ++ o)) : Answered c key os' ∨ Answered c key o := by
  obtain ⟨u, reply, hm⟩ := h
  exact (List.mem_append.1 hm).imp (fun hm => ⟨u, reply, hm⟩) fun hm => ⟨u, reply, hm⟩

/-- **Every step keeps it.** -/
theorem Fetching.step (h : Fetching L c key value n os N os') (hok : Returnable L value)
    (hstep : N.step L c a = some (N', o)) (hawaits : N.Awaits c a o)
    (hwrites : N.Writes key a o → Answered c key os') : Fetching L c key value n os N' (os' ++ o) := by
  have hsteady := h.steady.step L hstep hawaits.fair
  -- what the step does to either side
  obtain ⟨hclient, hcalls, hasked, hserved, hreply⟩ : N'.client.Working ∧
      (N'.client.calls = [(.get key, getPayload key)] ∧ returns (os' ++ o) = [] ∨
        N'.client.calls = [] ∧ returns (os' ++ o) = [(getPayload key, value)]) ∧
      built L .client o = [] ∧ (∃ h', N'.sys.tasks c = .handler h' ∧ h'.Serving key) ∧
      (Unanswered L c o ∨ ∃ k m, built L (.server c) o = [(k, m, value)]) := by
    rcases Net.step_cases L hstep with ⟨b, S, rfl, hs, rfl⟩ | ⟨b, C, rfl, hs, rfl⟩
    · obtain ⟨htally, hreturns⟩ := server_silent L hs
      obtain ⟨hserved, hreply⟩ := h.server_goesOn L hok hs hawaits.fair.honest hawaits.lossless
      refine ⟨h.client, ?_, congrArg Tally.built htally, hserved, hreply⟩
      rw [returns_append, hreturns, List.append_nil]
      exact h.calls
    · have hf := h.client_goesOn L hok hs hawaits.fair.honest.client
        (fun call hb => hawaits.noCall call (congrArg _ hb)) (fun hb => hawaits.noClose (congrArg _ hb))
        hawaits.fair.patient hawaits.lossless
      have hat := client_atClient L hs
      refine ⟨hf.working, ?_, hf.built, h.served,
        .inl ⟨congrArg Tally.built (hat.tally L), fun u data reply hm => ?_⟩⟩
      · rw [returns_append]
        rcases hf.calls with ⟨hsame, hnone⟩ | ⟨hget, hnil, hret⟩
        · rw [hnone, List.append_nil]
          exact h.calls.imp (And.imp_left hsame.trans) (And.imp_left hsame.trans)
        · rcases h.calls with ⟨-, hbefore⟩ | ⟨hcalls, -⟩
          · rw [hbefore, hret]
            exact .inr ⟨hnil, rfl⟩
          · rw [hcalls] at hget
            cases hget
      · exact hat _ hm
  have hopened : ∀ p, opened p (os ++ (os' ++ o)) = opened p (os ++ os') ++ opened p o := by
    intro p
    rw [← List.append_assoc, opened_append_obs]
  have hbuilt : ∀ p, built L p (os ++ (os' ++ o)) = built L p (os ++ os') ++ built L p o := by
    intro p
    rw [← List.append_assoc, built_append]
  have htook := h.took
  have hreplies := h.replies
  refine ⟨?_, hclient, hcalls, hserved, h.few, h.returned, ?_, ?_, ?_, ?_, fun hlen => ?_, fun p hp => ?_,
    fun hanswered => ?_⟩
  · rw [← List.append_assoc]
    exact hsteady
  · rw [hbuilt, hasked, List.append_nil]
    exact h.asked
  · rw [hbuilt, hasked, List.append_nil]
    exact h.get
  · rw [hopened, hopened, List.length_append, List.length_append]
    omega
  · rw [hbuilt, List.length_append]
    omega
  · -- the key is not written before the reply
    rw [hbuilt, List.length_append] at hlen
    have hnone : built L (.server c) o = [] := List.eq_nil_of_length_eq_zero (by omega)
    rw [hnone, List.length_nil, Nat.add_zero] at hlen
    have hunwritten : ¬ N.Writes key a o := fun hw => absurd (h.answered (hwrites hw)) (by omega)
    rw [unwritten_step L h.steady.sound hstep hunwritten]
    exact h.stored hlen
  · rw [hbuilt, payloads_append] at hp
    rcases hreply with ⟨hnone, -⟩ | ⟨k, m, hone⟩
    · rw [hnone] at hp
      exact h.replied p (by simpa [payloads] using hp)
    · rw [hone] at hp
      by_cases hlt : n < (payloads (built L (.server c) (os ++ os'))).length
      · rw [List.getElem?_append_left hlt] at hp
        exact h.replied p hp
      · rw [length_payloads] at hlt
        have hzero : n - (payloads (built L (.server c) (os ++ os'))).length = 0 := by
          rw [length_payloads]
          omega
        rw [List.getElem?_append_right (by rw [length_payloads]; omega), hzero] at hp
        exact (Option.some.inj hp).symm
  · rw [hbuilt, List.length_append]
    rcases hanswered.append with hbefore | ⟨u, reply, hm⟩
    · exact (h.answered hbefore).trans_le (Nat.le_add_right _ _)
    · rcases hreply with ⟨-, hno⟩ | ⟨k, m, hone⟩
      · exact absurd hm (hno u _ reply)
      · rw [hone, List.length_singleton]
        omega

/-! ### The call -/

/-- `get` puts its packet into the queue. -/
theorem get_called {C C' : RawClient K} {k : K} (hconn : C.connection = .connected) (hk : C.cipher = some k)
    (htasks : C.tasks = []) (hcalls : C.calls = []) (hkey : Fits L (getPayload key)) (hn : C.txNonce < 2 ^ 96)
    (hs : C.step L (.call (.get key)) = some (C', o)) :
    returns o = [] ∧ tally L .client o = ⟨[(k, C.txNonce, getPayload key)], [], [], [], []⟩ ∧
      C' = { C with
        tasks := [packet L (k, C.txNonce, getPayload key)]
        unfinished := C.unfinished + 1
        calls := [(.get key, getPayload key)] } := by
  have hpay : (Call.get key).payload = .ok (getPayload key) := rfl
  have hne : getPayload key ≠ [] := List.cons_ne_nil _ _
  have hpkt := constructPacket_eq L hne hkey hn k
  simp only [RawClient.step, if_pos hconn, RawClient.attempt, RawClient.send, hpay, hk, hpkt] at hs
  cases hs
  refine ⟨?_, ?_, ?_⟩
  · rw [returns_append, (ofClient_encryptCall (getPayload key) (some k) C.txNonce).silent.2.1]
    rfl
  · rcases tally_construct L .client k C.txNonce (getPayload key) with ⟨-, ht⟩ | ⟨e, hp, -⟩
    · rw [tally_append, ht]
      simp [tally, Tally.append, built, opened, acceptedBy, sends, answers]
    · rw [hpkt] at hp
      cases hp
  · simp [packet, hk, htasks, hcalls]

/-- Between operations a handler waits for the next payload. -/
theorem Conversing.serving (h : Conversing L c N os) (key : Bytes)
    (hhandler : ∃ h', N.sys.tasks c = .handler h' ∧ h'.GoesOn)
    (hbuilt : (built L (.server c) os).length = (built L .client os).length)
    (hopened : (opened (.server c) os).length = (built L .client os).length) :
    ∃ h', N.sys.tasks c = .handler h' ∧ h'.Serving key := by
  obtain ⟨h', htask, hgoes⟩ := hhandler
  obtain ⟨⟨e, f, xs, hlock⟩, -⟩ := h
  have hk : (N.sys.tasks c).Keyed := by
    rw [htask]
    trivial
  obtain ⟨-, hin⟩ := hlock.feeding L hk
  obtain ⟨-, hacc, -⟩ := (place_keyed L hk).1 hlock.server.place
  obtain ⟨h₁, h₂, h₃⟩ := hlock.le L
  have hat := hlock.side.atEnd
  have hok := (hlock.ok L).1
  rw [htask] at hat hin
  obtain ⟨k, n, -, he⟩ := hat
  simp only [tally] at h₁ h₂ h₃ hacc
  refine ⟨h', htask, ?_⟩
  -- a handler that works on a payload has not answered it
  have hbusy : ∀ {k n}, e ≠ .busy k n := by
    rintro k n rfl
    have hlen := hok.1.length
    have hlen' := hok.2
    simp only [tally] at hlen hlen'
    omega
  cases hpc : h'.pc with
  | start => exact .start hpc
  | sleep => exact .sleep hpc
  | recv =>
    refine .receiving (.recv hpc ?_)
    have hempty := (hin.empty (by rw [length_stream]; simp only [tally]; omega)).1
    have hnil : h'.receiveBuffer = [] := hempty
    rw [hnil]
    exact cut_nil
  | sendall held after =>
    obtain rfl := hgoes held after hpc
    exact .sending hpc
  | dbLock | inboxGet | outboxPut | outboxGet =>
    rw [hpc] at he
    exact absurd he hbusy

/-- **`get` is called**: nothing is outstanding but its packet. -/
theorem fetching_call (h : Steady L c N os) (hstored : N.sys.server.db.get? key = some value)
    (husable : N.Usable c) (hone : N.client.OneAtATime (.call (.get key))) (hkey : Fits L (getPayload key))
    (hn : N.client.txNonce < 2 ^ 96) (hstep : N.step L c (.client (.call (.get key))) = some (N', o)) :
    Fetching L c key value (built L .client os).length (os ++ o) N' [] := by
  obtain ⟨hcalls, hsend, hclosing⟩ := hone
  obtain ⟨hopen, ⟨b, hb⟩, -, hhandler⟩ := husable
  obtain ⟨k, hk⟩ := Option.ne_none_iff_exists'.1 hopen.cipher
  have hreading : N.client.reading = some b := by
    simp [RawClient.reading, hopen.connected, hk, hb]
  have hready := h.conversing.ready L hopen hcalls hsend h.untimed
  have hreturned := h.conversing.returned L hopen hcalls h.untimed
  obtain ⟨h2, -, hbuilt, hopened, hopened'⟩ := h.conversing.settled L hopen hcalls h.untimed
    (by rw [hreading]; exact Option.some_ne_none b)
  have hsteady := h.step L hstep
    ⟨⟨fun _ hm => (by cases hm), fun _ hm => (by cases hm)⟩, fun _ hm => (by cases hm),
      ⟨hcalls, hsend, hclosing⟩, trivial⟩
  have hserving := h.conversing.serving L key hhandler hbuilt hopened'
  -- the buffer of the client is empty
  obtain ⟨⟨e, f, xs, hlock⟩, -⟩ := h.conversing
  have hkeyed : N.client.Keyed := by
    rw [RawClient.Keyed, hopen.connected]
    trivial
  obtain ⟨-, hin⟩ := (hlock.clientFeeding L hkeyed).place b hreading
  obtain ⟨rfl, -⟩ := hin.empty (by rw [length_stream]; simp only [tally]; omega)
  rcases Net.step_cases L hstep with ⟨b, S, hact, -⟩ | ⟨b, C, hact, hs, rfl⟩
  · cases hact
  cases hact
  obtain ⟨hret, htally, rfl⟩ := get_called L hopen.connected hk hready.tasks hcalls hkey hn hs
  have hcbuilt : built L .client o = [(k, N.client.txNonce, getPayload key)] := congrArg Tally.built htally
  have hU : tally L (.server c) o = .none := (client_atClient L hs).tally L
  have hsbuilt : built L (.server c) o = [] := congrArg Tally.built hU
  have hsopened : opened (.server c) o = [] := congrArg Tally.opened hU
  have hcopened : opened .client o = [] := congrArg Tally.opened htally
  have hnonce : N.client.txNonce = (built L .client os).length := by
    obtain ⟨⟨e', f', xs', hlock'⟩, -⟩ := hsteady.conversing
    refine (hlock'.client.numbered (built L .client os).length (k, N.client.txNonce, getPayload key) ?_).1
    simp only [tally]
    rw [built_append, hcbuilt, List.getElem?_concat_length]
  refine ⟨?_, ⟨⟨hopen.connected, hopen.closing, ?_⟩, ⟨[], hb, cut_nil⟩, fun e he => ?_, ?_⟩, .inl ⟨rfl, rfl⟩,
    hserving, ⟨h2, hnonce ▸ hn⟩, ?_, ?_, ?_, ?_, ?_, fun _ => hstored, fun p hp => ?_, ?_⟩
  · rw [List.append_nil]
    exact hsteady
  · exact hopen.cipher
  · have hdead : N.client.sendLoop = .dead e := he
    rw [hsend] at hdead
    cases hdead
  · simp [Net.flow, hsend]
  · rw [returns_append, hret, List.append_nil]
    omega
  · rw [List.append_nil, built_append, hcbuilt, List.length_append, List.length_singleton]
  · rw [List.append_nil, built_append, hcbuilt, payloads_append,
      List.getElem?_append_right (by rw [length_payloads]), length_payloads, Nat.sub_self]
    rfl
  · rw [List.append_nil, opened_append_obs, opened_append_obs, hcopened, hsopened, List.append_nil, List.append_nil,
      hopened, hopened']
    exact ⟨le_rfl, le_rfl⟩
  · rw [List.append_nil, built_append, hsbuilt, List.append_nil, hbuilt]
  · rw [List.append_nil, built_append, hsbuilt, List.append_nil] at hp
    rw [List.getElem?_eq_none (by rw [length_payloads, hbuilt])] at hp
    cases hp
  · rintro ⟨u, reply, hm⟩
    cases hm

/-- **During `get`.** -/
theorem Getting.fetching {N₀ : Net K} (h : Getting L c key value N₀ os N os') (h₀ : Steady L c N₀ [])
    (hok : Returnable L value) (hkey : Fits L (getPayload key)) : ∃ n, Fetching L c key value n os N os' := by
  induction h with
  | @call N N' before o hwrote husable hone hn hstep hos =>
    obtain ⟨hsteady, hstored⟩ := hwrote.stored L h₀
    subst hos
    exact ⟨_, fetching_call L hsteady hstored husable hone hkey hn hstep⟩
  | go _ hstep hawaits hwrites ih =>
    obtain ⟨n, hf⟩ := ih
    exact ⟨n, hf.step L hok hstep hawaits hwrites⟩

end

end Pipebomb
