/-
  What the methods of `Client` mean.

  A method sends one packet and makes something of the reply.  `Call.Means` says for each of
  them, without connections, packets and locks, what it does to the office of the server and
  what it returns there.

  * `Call.means_of_serves`: a reply of the office is read by the client as what the method
    means.
  * `Performed`: the server executed an operation in one step, after its packet was built.
  * `operations_performed`: in every run of a client whose operations come one after another,
    what an operation receives is what it means in the step in which it was executed.
-/
import Pipebomb.Atomic
import Pipebomb.Conversation
import Pipebomb.Json
import Pipebomb.SetGet

namespace Pipebomb

open ByteString Linear

variable {K : Type} (L : Libs K)

/-! ## The methods -/

/-- An error of the server, which a method gets as its reply. -/
def errReply (n : UInt8) : Bytes := [0, 69, 82, 82, n]

/-- **What a method means** that a client of the session `u` calls: its effect on the office `O`,
    and what it returns or raises. -/
def Call.Means (u : PyStr) (O : Office) (e : Option Effect) (result : Except PyErr Value) : Call → Prop
  | .set key value => e = some (.kv (.set key value)) ∧ result = .ok (.bool true)
  | .get key => e = some (.kv (.get key)) ∧ result = .ok (.bytes ((O.db key).getD (errReply 5)))
  | .delete key => e = some (.kv (.delete key)) ∧ result = .ok (.bool (O.db key).isSome)
  | .list => e = some (.kv .list) ∧ ∃ (db : Dict Bytes Bytes) (text : Bytes), db.get? = O.db ∧
      result = .ok (.json text) ∧ Json.loads (latin1Decode text) =
        some (.obj (db.items.map fun p => (latin1Decode p.1, .str (latin1Decode p.2))))
  | .register key =>
    if O.book (latin1Decode key) = none then
      e = some (.register u (latin1Decode key)) ∧ result = .ok (.bool true)
    else e = none ∧ result = .ok (.bool false)
  | .unregister key =>
    O.Owns u (latin1Decode key) ∧ e = some (.unregister u (latin1Decode key)) ∧ result = .ok (.bool true) ∨
    ¬ O.Owns u (latin1Decode key) ∧ e = none ∧ result = .ok (.bool false)
  | .whoami => e = none ∧ result = .ok (.bytes (latin1 u))
  | .find key => e = none ∧
      result = .ok (.bytes (((O.book (latin1Decode key)).map latin1).getD (errReply 5)))
  | .request uuid req key => ∃ id, O.boxes (latin1Decode uuid) ≠ none ∧
      e = some (.put (latin1Decode uuid) ⟨latin1 u, key, req, id⟩) ∧ result = .ok (.bytes id)
  | .readInbox => ∃ b q qs, O.boxes u = some b ∧ b.inbox = q :: qs ∧ e = some (.take u) ∧
      result = .ok (.request q)
  | .respond targetUuid response key requestUuid =>
    e = (if O.boxes (latin1Decode targetUuid) = none then none
      else some (.write (latin1Decode targetUuid) ⟨key, response, requestUuid⟩)) ∧
    result = .ok (.bool true)
  | .readOutbox requestUuid => ∃ b, O.boxes u = some b ∧ e = some (.consume u requestUuid) ∧
      ((∃ p, b.outbox requestUuid = some p ∧ (p.key ≠ [] ∨ p.response ≠ []) ∧
          result = .ok (.response ⟨p.key, p.response, requestUuid⟩)) ∨
        -- a response that is missing, or too short to be told from an error
        ((∀ p, b.outbox requestUuid = some p → p.key = [] ∧ p.response = []) ∧
          ∃ msg, result = .error (.runtimeError msg)))
  | .raw _ => True

section
variable {O : Office} {keep : Bool} {u : PyStr} {e : Option Effect} {data reply : Bytes}

/-- A reply to `read_outbox`. -/
theorem readResponse_collectReply {p : Option Response} (id : Bytes) (h : collectReply p = .ok reply) :
    (∃ q, p = some q ∧ (q.key ≠ [] ∨ q.response ≠ []) ∧
        Call.readResponse id reply = .ok ⟨q.key, q.response, id⟩) ∨
      ((∀ q, p = some q → q.key = [] ∧ q.response = []) ∧
        ∃ msg, Call.readResponse id reply = .error (.runtimeError msg)) := by
  have hshort : reply.length < 9 → ∃ msg, Call.readResponse id reply = .error (.runtimeError msg) := by
    intro hlen
    exact ⟨_, by rw [Call.readResponse, if_pos hlen]⟩
  cases p with
  | none =>
    cases h
    exact .inr ⟨fun q hq => (by cases hq), hshort (by decide)⟩
  | some q =>
    obtain ⟨hok, rfl⟩ := outboxReply_ok.1 h
    have hlen : (bodyOf q.fields).length = 8 + q.key.length + q.response.length := by
      simp [bodyOf, lengthsOf, Response.fields]
      omega
    by_cases hempty : q.key = [] ∧ q.response = []
    · refine .inr ⟨fun q' hq' => by cases hq'; exact hempty, hshort ?_⟩
      rw [hlen, hempty.1, hempty.2]
      decide
    · have hsome : q.key ≠ [] ∨ q.response ≠ [] := by rwa [not_and_or] at hempty
      have hlong : 9 ≤ (bodyOf q.fields).length := by
        rw [hlen]
        rcases hsome with hk | hr
        · have := List.length_pos_iff.2 hk
          omega
        · have := List.length_pos_iff.2 hr
          omega
      have hread := readResponse_outboxReply (p := ⟨q.key, q.response, id⟩) h hlong
      exact .inl ⟨q, rfl, hsome, hread⟩

/-- A command about the database. -/
theorem serves_kv {type_ : UInt8} {value : Bytes} {op : DbOp} {kv : KvOp} (hcmd : command type_ = .db op)
    (hkv : kvOp op value = some kv) (hserves : O.Serves keep u (type_ :: value) e (some reply)) :
    e = some (.kv kv) ∧ kv.Answers O.db (.reply reply) := by
  simp only [Office.Serves, hcmd] at hserves
  obtain ⟨kv', y, hkv', hans, he, hy⟩ := hserves
  cases hy
  rw [hkv] at hkv'
  cases hkv'
  exact ⟨he, hans⟩

/-- A reply to a method that returns a `bool`. -/
theorem decide_ack : decide (ACK = ACK) = true ∧ decide (errReply 5 = ACK) = false := by decide

/-- **What the office replies** to the payload of a method is what the method means. -/
theorem Call.means_of_serves {call : Call} (hpayload : call.payload = .ok data)
    (hserves : O.Serves keep u data e (some reply)) : call.Means u O e (call.result reply) := by
  cases call with
  | set key value =>
    obtain ⟨hshort, rfl⟩ := withLengths_ok.1 hpayload
    have hsplit : splitBody 2 (bodyOf [key, value]) = .ok [key, value] := splitBody_eq rfl hshort
    have hcmd : command 0x81 = .db .set := by decide
    obtain ⟨he, hans⟩ := serves_kv hcmd (by rw [kvOp, hsplit]) hserves
    cases hans
    exact ⟨he, by rw [Call.result, decide_ack.1]⟩
  | get key =>
    cases hpayload
    have hcmd : command 0x82 = .db .get := by decide
    rw [List.singleton_append] at hserves
    obtain ⟨he, hans⟩ := serves_kv hcmd rfl hserves
    refine ⟨he, ?_⟩
    simp only [KvOp.Answers] at hans
    rcases hg : O.db key with _ | v
    · rw [hg] at hans; cases hans; rfl
    · rw [hg] at hans; cases hans; rfl
  | delete key =>
    cases hpayload
    have hcmd : command 0x83 = .db .delete := by decide
    rw [List.singleton_append] at hserves
    obtain ⟨he, hans⟩ := serves_kv hcmd rfl hserves
    refine ⟨he, ?_⟩
    simp only [KvOp.Answers] at hans
    rcases hg : O.db key with _ | v
    · rw [hg] at hans; cases hans; rfl
    · rw [hg] at hans; cases hans; rfl
  | list =>
    cases hpayload
    have hcmd : command 0x84 = .db .list := by decide
    obtain ⟨he, db, hdb, hlist⟩ := serves_kv hcmd rfl hserves
    obtain ⟨text, htext, -, hloads⟩ := listing_round_trip db
    obtain rfl := Except.ok.inj (hlist.symm.trans htext)
    exact ⟨he, db, reply, hdb, rfl, hloads⟩
  | register key =>
    cases hpayload
    have hcmd : command 0x85 = .register := by decide
    simp only [List.singleton_append, Office.Serves, hcmd] at hserves
    simp only [Call.Means]
    split_ifs at hserves ⊢ with hfree
    · obtain ⟨he, hy⟩ := hserves
      cases hy
      exact ⟨he, by rw [Call.result, decide_ack.1]⟩
    · obtain ⟨he, hy⟩ := hserves
      cases hy
      exact ⟨he, by rw [Call.result]; exact congrArg _ (congrArg _ decide_ack.2)⟩
  | unregister key =>
    cases hpayload
    have hcmd : command 0x86 = .unregister := by decide
    simp only [List.singleton_append, Office.Serves, hcmd] at hserves
    rcases hserves with ⟨hown, he, hy⟩ | ⟨hown, he, hy⟩
    · cases hy
      exact .inl ⟨hown, he, by rw [Call.result, decide_ack.1]⟩
    · cases hy
      exact .inr ⟨hown, he, by rw [Call.result]; exact congrArg _ (congrArg _ decide_ack.2)⟩
  | whoami =>
    cases hpayload
    have hcmd : command 0x87 = .whoami := by decide
    simp only [Office.Serves, hcmd] at hserves
    obtain ⟨he, hy⟩ := hserves
    cases hy
    exact ⟨he, rfl⟩
  | find key =>
    cases hpayload
    have hcmd : command 0x1 = .whohas := by decide
    simp only [List.singleton_append, Office.Serves, hcmd] at hserves
    obtain ⟨he, hy⟩ := hserves
    cases hy
    exact ⟨he, rfl⟩
  | request uuid req key =>
    obtain ⟨hshort, rfl⟩ := withLengths_ok.1 hpayload
    have hcmd : command 0x2 = .putInbox := by decide
    have hsplit : splitBody 3 (bodyOf [uuid, req, key]) = .ok [uuid, req, key] := splitBody_eq rfl hshort
    simp only [Office.Serves, hcmd, hsplit] at hserves
    obtain ⟨target, request, key', id, hbody, hbox, he, hy⟩ := hserves
    cases hbody
    cases hy
    exact ⟨reply, hbox, he, rfl⟩
  | readInbox =>
    cases hpayload
    have hcmd : command 0x3 = .getInbox := by decide
    simp only [Office.Serves, hcmd] at hserves
    obtain ⟨b, q, qs, hb, hin, he, hy⟩ := hserves
    rcases hr : inboxReply q with err | y
    · rw [hr] at hy
      cases hy
    · rw [hr] at hy
      cases hy
      refine ⟨b, q, qs, hb, hin, he, ?_⟩
      rw [Call.result, readRequest_inboxReply hr]
      rfl
  | respond targetUuid response key requestUuid =>
    obtain ⟨hshort, rfl⟩ := withLengths_ok.1 hpayload
    have hcmd : command 0x4 = .putOutbox := by decide
    have hsplit : splitBody 4 (bodyOf [targetUuid, response, key, requestUuid]) =
        .ok [targetUuid, response, key, requestUuid] := splitBody_eq rfl hshort
    simp only [Office.Serves, hcmd, hsplit] at hserves
    obtain ⟨target, response', key', id, hbody, he, hy⟩ := hserves
    cases hbody
    cases hy
    exact ⟨he, by rw [Call.result, decide_ack.1]⟩
  | readOutbox requestUuid =>
    cases hpayload
    have hcmd : command 0x5 = .getOutbox := by decide
    simp only [List.singleton_append, Office.Serves, hcmd] at hserves
    obtain ⟨b, hb, he, hy⟩ := hserves
    refine ⟨b, hb, he, ?_⟩
    rcases hr : collectReply (b.outbox requestUuid) with err | y
    · rw [hr] at hy
      cases hy
    · rw [hr] at hy
      cases hy
      rcases readResponse_collectReply requestUuid hr with ⟨q, hq, hne, hread⟩ | ⟨hnone, msg, hread⟩
      · refine .inl ⟨q, hq, hne, ?_⟩
        rw [Call.result, hread]
        rfl
      · refine .inr ⟨hnone, msg, ?_⟩
        rw [Call.result, hread]
        rfl
  | raw data => trivial

end

/-! ## One step of the server -/

section
variable {S S' : Sys K} {a : Act} {o : List (Obs K)} {c : ConnId} {h : Handler} {i : Input} {draw : Uuid4}
  {s : Server K} {out : Outcome K (Accepting K)} {u : PyStr} {data y : Bytes} {keep : Bool}

/-- The reply that a handler sends is the one of the office. -/
theorem handler_serves (hw : s.WfRefs) (hone : s.Singular) (hh : h.Wf s)
    (htidy : (Task.handler h : Task (Accepting K)).Tidy) (hstep : handlerStep L s c h i draw = some out)
    {c' : ConnId} (ha : .answered c' u data y ∈ out.2.2) :
    ∃ e, s.office.Serves keep u data e (some y) ∧ out.1.office = s.office.applyAll e := by
  have hm := handlerStep_move L htidy hstep
  have hoffice := hm.office L hw
  by_cases hq : h.pc.Queues
  · rcases handlerStep_queues L hq hstep with ⟨reply, rfl, hr, rfl⟩ | ⟨e, rfl, rfl⟩
    · have hs := sendReply_sends L (A := Accepting K) (s := h.pc.take s h.data) (c := c) (h := h) reply
        h.pc.lock .next
      obtain ⟨-, -, rfl, rfl, rfl⟩ := hs.answered_eq L ha
      rcases queued_serves keep draw hh hone hq _ hr with hserve | ⟨-, hdead⟩
      · exact ⟨_, hserve, hoffice⟩
      · -- the session is gone, so nothing was sent
        have hgone : h.uuid ∉ s.clientDb := fun hmem => by
          obtain ⟨e, he⟩ := hdead hmem
          cases he
        have hnone : (h.pc.take s h.data).client h.uuid = none := by
          rw [Server.client, (take_quiet s h.data h.pc).clientDb, Dict.get?_eq_none.2 hgone]
          rfl
        simp only [sendReply, sendPacket, hnone, raised] at ha
        cases ha
    · cases ha
  · cases hm with
    | still _ _ hin => exact (hin _ ha).elim
    | refuse _ _ _ hin hs =>
      rcases List.mem_append.1 ha with ha | ha
      · exact (hin _ ha).elim
      · have hclose := (hs.answered_eq L ha).1
        cases hclose
    | payload hr hu hid hv hin hp =>
      rename_i r h' frame rem os out
      have hlink : (s.modify r Client.received).office = s.office := office_modify_link fun _ => rfl
      have hw' : (s.modify r Client.received).WfRefs := hw.modify fun _ => rfl
      have ha' : .answered c' u data y ∈ out.2.2 := by
        rcases List.mem_append.1 ha with ha | ha
        · rcases List.mem_append.1 ha with ha | ha
          · exact (hin _ ha).elim
          · simp at ha
        · exact ha
      cases hp with
      | reply hn hs =>
        have hserve := dispatch_serves keep hn
        have hproceeds : Proceeds L c h' (dispatch (s.modify r Client.received) h'.uuid h'.data draw) _ :=
          .reply (by rw [hid]; exact hn) (by rw [hid]; exact hs)
        obtain ⟨-, rfl, rfl, rfl, hy⟩ := hs.answered_eq L ha'
        cases hy
        rw [hlink] at hserve
        rw [seen_server, hproceeds.office L hw', hlink, hid]
        exact ⟨_, hserve, rfl⟩
      | wait => cases ha'
      | raise => cases ha'
      | bye => cases ha'
    | db hpc => rw [hpc] at hq; exact absurd trivial hq
    | inboxGet hpc => rw [hpc] at hq; exact absurd trivial hq
    | outboxPut hpc => rw [hpc] at hq; exact absurd trivial hq
    | outboxNone hpc => rw [hpc] at hq; exact absurd trivial hq
    | outboxGet hpc => rw [hpc] at hq; exact absurd trivial hq
    | sent => cases ha
    | close => cases ha
    | die => cases ha

/-- **A reply is the one of the office**, in the step in which it starts to be sent. -/
theorem step_serves (hS : S.Named) (hone : S.server.Singular) (hstep : S.step L a = some (S', o))
    (ha : .answered c u data y ∈ o) :
    ∃ e, S.server.office.Serves keep u data e (some y) ∧ S'.server.office = S.server.office.applyAll e := by
  rcases step_cases L hstep with ⟨_, rfl, -, rfl, -⟩ | ⟨c', i, draw, s, t, rfl, ht, rfl⟩ | ⟨_, rfl, rfl, -⟩
  · cases ha
  · rcases htask : S.tasks c' with _ | A | h | e
    · rw [htask] at ht; cases ht
    · rw [htask] at ht
      exact absurd ha (acceptStep_not_answered L ht c u data y)
    · rw [htask] at ht
      have htidy := hS.sound.tidy c'
      rw [htask] at htidy
      exact handler_serves L hS.sound.refs hone (hS.sound.handlers c' h htask) htidy ht ha
    · rw [htask] at ht; cases ht
  · cases ha

end

/-! ## Runs -/

/-- **The server executed an operation**, the one with the number `i`: in one step, which came
    after the client built its packet, it replied and did what the method means. -/
def Performed (c : ConnId) (xs : List (Lts.Shown (Net K) Net.Act (Obs K))) (i : ℕ)
    (data reply : Bytes) : Prop :=
  ∃ l y m u e, xs = l ++ y :: m ∧
    ((payloads (built L .client (l.flatMap Lts.Shown.obs))).drop 2)[i]? = some data ∧
    (answers (.server c) (l.flatMap Lts.Shown.obs)).length ≤ i ∧
    (answers (.server c) (l.flatMap Lts.Shown.obs ++ y.obs))[i]? = some (data, reply) ∧
    .answered c u data reply ∈ y.obs ∧
    y.after.sys.server.office = y.before.sys.server.office.applyAll e ∧
    ∀ call : Call, call.payload = .ok data → call.Means u y.before.sys.server.office e (call.result reply)

/-- Logins and requests only, with uuids that no session ever had. -/
def Net.Unrepeated (N : Net K) (a : Net.Act) (o : List (Obs K)) : Prop :=
  ∀ b, a = .server b → N.sys.Unrepeated b o

section
variable {N N' : Net K} {a : Net.Act} {o os : List (Obs K)} {c : ConnId} {data reply : Bytes} {i : ℕ}
  {xs more : List (Lts.Shown (Net K) Net.Act (Obs K))} {keep : Bool}

theorem Performed.append (h : Performed L c xs i data reply) : Performed L c (xs ++ more) i data reply := by
  obtain ⟨l, y, m, u, e, rfl, hrest⟩ := h
  exact ⟨l, y, m ++ more, u, e, by simp, hrest⟩

theorem mem_answers {p : Bytes × Bytes} (h : p ∈ answers (.server c) o) : ∃ u, .answered c u p.1 p.2 ∈ o := by
  obtain ⟨x, hx, he⟩ := List.mem_filterMap.1 h
  cases x with
  | answered c' u data reply =>
    simp only [Option.ite_none_right_eq_some, Option.some.injEq, Party.server.injEq] at he
    obtain ⟨rfl, rfl⟩ := he
    exact ⟨u, hx⟩
  | _ => cases he

theorem flatMap_obs (xs : List (Lts.Shown (Net K) Net.Act (Obs K))) (x : Lts.Shown (Net K) Net.Act (Obs K)) :
    (xs ++ [x]).flatMap Lts.Shown.obs = xs.flatMap Lts.Shown.obs ++ x.obs := by simp

theorem answers_append (os o : List (Obs K)) :
    answers (.server c) (os ++ o) = answers (.server c) os ++ answers (.server c) o :=
  List.filterMap_append

theorem getElem?_of_prefix {α : Type} {as bs : List α} {x : α} (h : as <+: bs) (hx : as[i]? = some x) :
    bs[i]? = some x := by
  obtain ⟨hlt, rfl⟩ := List.getElem?_eq_some_iff.1 hx
  exact List.prefix_iff_getElem?.1 h i hlt

/-- What is paired comes from the first list, in its order. -/
theorem map_fst_zip_start {α β : Type} : ∀ (as : List α) (bs : List β), (as.zip bs).map Prod.fst <+: as
  | [], _ => List.nil_prefix
  | _ :: _, [] => List.nil_prefix
  | a :: as, _ :: bs => (List.prefix_cons_inj a).2 (map_fst_zip_start as bs)

/-- The client built the packets that were answered, in their order. -/
theorem Conversing.answers_built (h : Conversing L c N os) :
    (answers (.server c) os).map Prod.fst <+: (payloads (built L .client os)).drop 2 := by
  obtain ⟨⟨e, f, xs, hlock⟩, -⟩ := h
  obtain ⟨pending, hb, -⟩ := hlock.client.built
  have hb' : built L .client os = xs ++ pending := hb
  have hanswers : answers (.server c) os =
      ((payloads xs).zip (payloads (built L (.server c) os))).drop 2 := hlock.server.exchange.answers
  rw [hanswers, List.map_drop, hb', payloads_append]
  exact ((map_fst_zip_start _ _).trans (List.prefix_append _ _)).drop 2

/-- An operation that returns takes the first packet that waits. -/
theorem returned_receive {C : RawClient K} {b : RawClient.Act} {out : RawClient.After K}
    (hs : C.step L b = some out) (hr : .returned data reply ∈ out.2) :
    C.calls ≠ [] ∧ out.2 = [.returned data reply] := by
  have hno : ∀ {os : List (Obs K)}, OfClient os → .returned data reply ∉ os := fun hof hm => hof _ hm
  cases b with
  | receive n =>
    simp only [RawClient.step] at hs
    split at hs
    · rename_i hcalls _
      cases hs
      rw [List.mem_singleton] at hr
      refine ⟨fun hnil => ?_, by rw [hr]⟩
      rw [hnil] at hcalls
      cases hcalls
    · cases hs
  | call call =>
    simp only [RawClient.step] at hs
    split_ifs at hs
    cases hs
    unfold RawClient.send RawClient.attempt at hr
    rcases hpay : call.payload with e | d
    · rw [hpay] at hr
      cases hr
    · have hcall := hno (ofClient_encryptCall d C.cipher C.txNonce)
      rw [hpay] at hr
      simp only at hr
      rcases hp : constructPacket L d C.cipher C.txNonce with e | pkt
      · rw [hp] at hr
        exact absurd hr hcall
      · rw [hp] at hr
        simp [hcall] at hr
  | timeout n =>
    simp only [RawClient.step] at hs
    split at hs
    · cases hs
      cases List.mem_singleton.1 hr
    · cases hs
  | _ =>
    exact absurd hr (hno (client_ofClient L hs (fun _ h => by cases h) (fun _ h => by cases h)
      fun _ h => by cases h))

/-- The client sends no replies. -/
theorem client_answers {C : RawClient K} {b : RawClient.Act} {out : RawClient.After K}
    (hs : C.step L b = some out) : answers (.server c) out.2 = [] := by
  refine List.eq_nil_iff_forall_not_mem.2 fun p hp => ?_
  obtain ⟨u, hu⟩ := mem_answers hp
  exact client_atClient L hs _ hu

/-- What holds while operations are executed. -/
structure Performing (c : ConnId) (keep : Bool) (N : Net K)
    (xs : List (Lts.Shown (Net K) Net.Act (Obs K))) : Prop where
  attended : ∃ es st, N.sys.Attended keep .empty es st
  talks : (Conversing L c N (xs.flatMap Lts.Shown.obs) ∧ N.client.calls.length ≤ 1 ∧
      (∀ d, .timedOut d ∉ xs.flatMap Lts.Shown.obs) ∧
      ∀ i data reply, (answers (.server c) (xs.flatMap Lts.Shown.obs))[i]? = some (data, reply) →
        Performed L c xs i data reply) ∨
    Expired c N (xs.flatMap Lts.Shown.obs)

/-- The server does what it always does. -/
theorem step_attended_net (h : ∃ es st, N.sys.Attended keep .empty es st) (hstep : N.step L c a = some (N', o))
    (hok : N.Unrepeated a o) : ∃ es st, N'.sys.Attended keep .empty es st := by
  rcases Net.step_cases L hstep with ⟨b, S, rfl, hs, rfl⟩ | ⟨b, C, rfl, hs, rfl⟩
  · obtain ⟨es, st, hS⟩ := h
    obtain ⟨st', hS'⟩ := step_attended L hS hs (hok b rfl)
    exact ⟨_, st', hS'⟩
  · exact h

/-- **A new reply** was made in this step, to an operation whose packet was built before. -/
theorem performed_new {es : List (Event ConnId Errand (Option Bytes))}
    {st : ConnId → Status Errand (Option Bytes)} (hS : N.sys.Attended keep .empty es st)
    (hstep : N.step L c a = some (N', o)) (h : Conversing L c N' (xs.flatMap Lts.Shown.obs ++ o))
    (hle : (answers (.server c) (xs.flatMap Lts.Shown.obs)).length ≤ i)
    (hi : (answers (.server c) (xs.flatMap Lts.Shown.obs ++ o))[i]? = some (data, reply)) :
    Performed L c (xs ++ [⟨N, a, o, N'⟩]) i data reply := by
  have hnew : (data, reply) ∈ answers (.server c) o := by
    rw [answers_append, List.getElem?_append_right hle] at hi
    exact List.mem_of_getElem? hi
  obtain ⟨u, hu⟩ := mem_answers hnew
  rcases Net.step_cases L hstep with ⟨b, S, rfl, hs, rfl⟩ | ⟨b, C, rfl, hs, rfl⟩
  · obtain ⟨e, hserves, hoffice⟩ : ∃ e, N.sys.server.office.Serves keep u data e (some reply) ∧
        S.server.office = N.sys.server.office.applyAll e := step_serves L hS.named hS.one hs hu
    have hbuilt : (payloads (built L .client (xs.flatMap Lts.Shown.obs))).drop 2 =
        (payloads (built L .client (xs.flatMap Lts.Shown.obs ++ o))).drop 2 := by
      have hnone : built L .client o = [] := congrArg Tally.built (server_silent L hs).1
      rw [built_append, hnone, List.append_nil]
    refine ⟨xs, _, [], u, e, rfl, ?_, hle, hi, hu, hoffice, fun call hcall =>
      Call.means_of_serves hcall hserves⟩
    rw [hbuilt]
    have hfst := congrArg (Option.map Prod.fst) hi
    rw [← List.getElem?_map] at hfst
    exact getElem?_of_prefix (h.answers_built L) hfst
  · rw [client_answers L hs] at hnew
    cases hnew

/-- **One step.** -/
theorem Performing.step (h : Performing L c keep N xs) (hstep : N.step L c a = some (N', o))
    (hhonest : N.Honest c a o) (halone : N.Alone c a o) (hone : N.OneAtATime a) (hok : N.Unrepeated a o)
    (hcalled : Lts.Each CalledUntimed (xs.flatMap Lts.Shown.obs ++ o)) :
    Performing L c keep N' (xs ++ [⟨N, a, o, N'⟩]) := by
  have hobs := flatMap_obs xs ⟨N, a, o, N'⟩
  refine ⟨step_attended_net L h.attended hstep hok, ?_⟩
  rw [hobs]
  rcases h.talks with ⟨hconv, hlen, huntimed, hperf⟩ | hexpired
  · obtain ⟨hconv', hlen'⟩ := hconv.oneAtATime L hlen hstep hhonest halone hone huntimed
    by_cases htimed : ∃ d, .timedOut d ∈ o
    · obtain ⟨d, hd⟩ := htimed
      refine .inr ⟨⟨d, List.mem_append_right _ hd⟩, ?_, hconv'.corresponds L⟩
      exact timedOut_calls L hstep hlen hd
    · refine .inl ⟨hconv', hlen', fun d hd => ?_, fun i data reply hi => ?_⟩
      · rcases List.mem_append.1 hd with hd | hd
        · exact huntimed d hd
        · exact htimed ⟨d, hd⟩
      · by_cases hlt : i < (answers (.server c) (xs.flatMap Lts.Shown.obs)).length
        · rw [answers_append, List.getElem?_append_left hlt] at hi
          exact (hperf i data reply hi).append L
        · obtain ⟨es, st, hS⟩ := h.attended
          exact performed_new L hS hstep hconv' (Nat.le_of_not_lt hlt) hi
  · exact .inr (hexpired.step L hstep (calledUntimed_step hcalled))

/-- An operation that returns was executed. -/
theorem Performing.returned (h : Performing L c keep N xs) (hstep : N.step L c a = some (N', o))
    (hhonest : N.Honest c a o) (halone : N.Alone c a o) (hone : N.OneAtATime a)
    (hr : .returned data reply ∈ o) :
    Performed L c xs (returns (xs.flatMap Lts.Shown.obs)).length data reply := by
  rcases Net.step_cases L hstep with ⟨b, S, rfl, hs, rfl⟩ | ⟨b, C, rfl, hs, rfl⟩
  · have hnone := (server_silent L hs).2
    have hmem : (data, reply) ∈ returns o := List.mem_filterMap.2 ⟨_, hr, rfl⟩
    rw [hnone] at hmem
    cases hmem
  · obtain ⟨hcalls, rfl⟩ := returned_receive L hs hr
    rcases h.talks with ⟨hconv, hlen, huntimed, hperf⟩ | hexpired
    · refine hperf _ data reply ?_
      obtain ⟨hconv', -⟩ := hconv.oneAtATime L hlen hstep hhonest halone hone huntimed
      have hpre := (hconv'.corresponds L).2
      have hnone : answers (.server c) [.returned (K := K) data reply] = [] := rfl
      rw [answers_append, hnone, List.append_nil, returns_append] at hpre
      exact getElem?_of_prefix hpre (by simp [returns])
    · exact absurd hexpired.calls hcalls

/-- **What operations return**: over an honest network, whatever other clients do, the operations of
    a client that come one after another, none after one timed out, are executed one by one
    between the call and the return, and return what they mean in the step of their execution. -/
theorem operations_performed {password : Bytes} {S : Sys K} {os₀ : List (Obs K)}
    (hS : Lts.Run (Lts.Guarded (Sys.step L) Sys.Unrepeated) (.init password keep) S os₀)
    (hidle : S.tasks c = .idle) (peer : String) (clientPassword : Bytes)
    (hrun : Lts.Run (Lts.Guarded (Lts.shown (Net.step L c)) (Lts.Showing fun N a o =>
        N.Honest c a o ∧ N.Alone c a o ∧ N.OneAtATime a ∧ N.Unrepeated a o))
      ⟨S, .init peer clientPassword, [], []⟩ N xs)
    (hcalled : Lts.Each CalledUntimed (xs.flatMap Lts.Shown.obs)) :
    Lts.Each (fun before x => ∀ data reply, .returned data reply ∈ x.obs →
      Performed L c before (returns (before.flatMap Lts.Shown.obs)).length data reply) xs := by
  obtain ⟨es, st, hattended⟩ : ∃ es st, S.Attended keep .empty es st :=
    hS.inv (I := fun S _ => ∃ es st, S.Attended keep .empty es st) ⟨_, _, attended_init password keep⟩
      fun _ ⟨_, _, hS⟩ ⟨_, hstep, hok⟩ => by
        obtain ⟨st', hS'⟩ := step_attended L hS hstep hok
        exact ⟨_, st', hS'⟩
  have hstart : Performing L c keep ⟨S, .init peer clientPassword, [], []⟩ [] := by
    refine ⟨⟨es, st, hattended⟩, .inl ⟨?_, Nat.zero_le 1, ?_, ?_⟩⟩
    · exact conversing_init L hattended.named.sound hidle peer clientPassword
    · intro d hd
      cases hd
    · intro i data reply hi
      cases hi
  suffices h : Performing L c keep N xs ∧ Lts.Each (fun before x => ∀ data reply,
      .returned data reply ∈ x.obs →
        Performed L c before (returns (before.flatMap Lts.Shown.obs)).length data reply) xs from h.2
  revert hcalled
  refine hrun.inv (I := fun N xs => Lts.Each CalledUntimed (xs.flatMap Lts.Shown.obs) →
    Performing L c keep N xs ∧ Lts.Each (fun before x => ∀ data reply, .returned data reply ∈ x.obs →
      Performed L c before (returns (before.flatMap Lts.Shown.obs)).length data reply) xs)
    (fun _ => ⟨hstart, .nil⟩) ?_
  rintro N N' xs new - ih ⟨a, hshown, hok⟩ hcalled
  obtain ⟨o, hstep, rfl⟩ := Lts.shown_step hshown
  obtain ⟨hhonest, halone, hone, hfresh⟩ := hok _ (List.mem_singleton_self _)
  have hobs := flatMap_obs xs ⟨N, a, o, N'⟩
  rw [hobs] at hcalled
  obtain ⟨hperf, heach⟩ := ih hcalled.left
  refine ⟨hperf.step L hstep hhonest halone hone hfresh hcalled, heach.snoc fun data reply hr => ?_⟩
  exact hperf.returned L hstep hhonest halone hone hr

end

/-! ## A run on fixed inputs -/

/-- `Unrepeated` for actions on connections below `n`. -/
def Net.UnrepeatedBelow (n : ℕ) (N : Net K) (a : Net.Act) (o : List (Obs K)) : Prop :=
  match a with
  | .server b => N.sys.UnrepeatedBelow n b o
  | .client _ => True

instance Net.decidableUnrepeatedBelow (n : ℕ) (N : Net K) (a : Net.Act) (o : List (Obs K)) :
    Decidable (N.UnrepeatedBelow n a o) :=
  match a with
  | .server _ => inferInstanceAs (Decidable (_ ∧ _))
  | .client _ => isTrue trivial

theorem Net.UnrepeatedBelow.unrepeated {n : ℕ} {N : Net K} {a : Net.Act} {o : List (Obs K)}
    (hN : N.sys.Below n) (h : N.UnrepeatedBelow n a o) : N.Unrepeated a o := by
  rintro b rfl
  exact Sys.UnrepeatedBelow.unrepeated hN h

/-- A client joins and calls `whoami`. -/
def whoamiActs : List Net.Act := joinActs ++ askActs ++ replyActs 2 ++ takeActs 2

/-- `whoami` of a client. -/
theorem operations_performed_sample : ∃ xs : List (Lts.Shown (Net ℕ) Net.Act (Obs ℕ)),
    returns (xs.flatMap Lts.Shown.obs) = [([0x87], latin1 sampleUuid)] ∧
      Lts.Each (fun before x => ∀ data reply, .returned data reply ∈ x.obs →
        Performed stub 0 before (returns (before.flatMap Lts.Shown.obs)).length data reply) xs := by
  have hexec : ((Lts.exec (Lts.shown (Net.step stub 0)) whoamiActs (.init [] false "" [])).any fun x =>
      (returns (x.2.flatMap Lts.Shown.obs) = [([0x87], latin1 sampleUuid)] : Bool) &&
        (Lts.Each CalledUntimed (x.2.flatMap Lts.Shown.obs) : Bool)) = true := by decide +kernel
  have halong : Lts.Along (Lts.shown (Net.step stub 0)) (Lts.Showing fun N a o => N.Checked 1 a o ∧
      N.Honest 0 a o ∧ N.OneAtATime a ∧ N.UnrepeatedBelow 1 a o) whoamiActs (.init [] false "" []) := by
    decide +kernel
  obtain ⟨⟨N, xs⟩, hN, hp⟩ := Option.any_eq_true _ _ |>.1 hexec
  simp only [Bool.and_eq_true, decide_eq_true_eq] at hp
  -- only the connection 0 is used
  have hrun : Lts.Run (Lts.Guarded (Lts.shown (Net.step stub 0)) (Lts.Showing fun N a o =>
      N.Honest 0 a o ∧ N.Alone 0 a o ∧ N.OneAtATime a ∧ N.Unrepeated a o)) (.init [] false "" []) N xs :=
    Lts.exec_run hN (halong.imp (I := fun N => N.sys.Below 1) (fun hN h hshown => by
      obtain ⟨o, hstep, rfl⟩ := Lts.shown_step hshown
      obtain ⟨hc, -⟩ := h _ (List.mem_singleton_self _)
      rcases Net.step_cases stub hstep with ⟨b, S, rfl, hs, rfl⟩ | ⟨b, C, rfl, hs, rfl⟩
      · exact step_below stub hN hc.2.2.1 hs
      · exact hN)
    (fun hN h x hx => by
      obtain ⟨hc, hhonest, hone, hfresh⟩ := h x hx
      exact ⟨hhonest, hc.alone hN, hone, hfresh.unrepeated hN⟩) fun _ _ => rfl)
  exact ⟨xs, hp.1, operations_performed stub .nil rfl "" [] hrun hp.2⟩

end Pipebomb
