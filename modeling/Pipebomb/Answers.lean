/-
  What a payload is answered with.

  A handler makes a reply in two kinds of steps: where it accepts the payload, and where it
  gets the lock or the item that the command waits for.

  * `Sendable`: a packet can be built around the reply; `sendReply_sendable`,
    `sendReply_not_sendable` say what sending it is then.
  * `Await.reply`, `Await.take`: the reply of a handler that waited, and the server when it
    is made; `handlerStep_queues` is this step, `handlerStep_accepted` the other.
  * `Move.answered`: where an answer comes from.
-/
import Pipebomb.Sound

namespace Pipebomb

open ByteString

variable {K : Type} (L : Libs K)

/-! ## Sending a reply -/

/-- A packet can be built around the reply: the session is there and has a cipher and a nonce
    left, and the reply is not empty and fits. -/
def Sendable (s : Server K) (u : PyStr) : Except PyErr Bytes → Prop
  | .error _ => False
  | .ok reply => match s.client u with
    | none => False
    | some cl => cl.cipher.isSome ∧ cl.txNonce < 2 ^ 96 ∧ reply ≠ [] ∧ Fits L reply

instance (s : Server K) (u : PyStr) (reply : Except PyErr Bytes) : Decidable (Sendable L s u reply) := by
  unfold Sendable
  split
  · exact isFalse id
  · split
    · exact isFalse id
    · exact inferInstanceAs (Decidable (_ ∧ _))

section
variable {A : Type} {s : Server K} {c : ConnId} {h : Handler} {reply : Except PyErr Bytes} {held : Held}
  {after : After}

theorem sendable_ok {y : Bytes} {u : PyStr} : Sendable L s u (.ok y) ↔ ∃ cl, s.client u = some cl ∧
    cl.cipher.isSome ∧ cl.txNonce < 2 ^ 96 ∧ y ≠ [] ∧ Fits L y := by
  simp only [Sendable]
  rcases s.client u with _ | cl
  · exact ⟨False.elim, fun ⟨_, h, _⟩ => (by cases h)⟩
  · exact ⟨fun h => ⟨cl, rfl, h⟩, fun ⟨_, h, h'⟩ => by cases h; exact h'⟩

/-- The reply is sent. -/
theorem sendReply_sendable (held : Held) (after : After) (hs : Sendable L s h.uuid reply) :
    ∃ y pkt os, reply = .ok y ∧ Inner os ∧ (sendReply L s c h reply held after : Outcome K A) =
      (s, .handler { h with pc := .sendall held after }, os ++ .write (.server c) pkt ::
        if after = .next then [.answered c h.uuid h.data y] else []) := by
  cases reply with
  | error e => exact hs.elim
  | ok y =>
    obtain ⟨cl, hcl, hk, hn, hy, hf⟩ := (sendable_ok L).1 hs
    obtain ⟨k, hk⟩ := Option.isSome_iff_exists.1 hk
    have hpkt := constructPacket_eq L hy hf hn k
    rw [← hk] at hpkt
    refine ⟨y, packetOf (sealed L k cl.txNonce y), encryptCall (.server c) y cl.cipher cl.txNonce,
      rfl, inner_encryptCall _ _ _ _, ?_⟩
    simp only [sendReply, sendPacket, hcl, hpkt]
    rfl

/-- An exception ends the coroutine. -/
theorem sendReply_not_sendable (held : Held) (after : After) (hs : ¬ Sendable L s h.uuid reply) :
    ∃ e os, Inner os ∧ (sendReply L s c h reply held after : Outcome K A) =
      (s.release held, .over (some e), os) := by
  cases reply with
  | error e => exact ⟨e, [], .nil, rfl⟩
  | ok y =>
    simp only [sendReply, sendPacket]
    rcases hcl : s.client h.uuid with _ | cl
    · exact ⟨.keyError, [], .nil, rfl⟩
    · simp only
      rcases hpkt : constructPacket L y cl.cipher cl.txNonce with e | pkt
      · refine ⟨e, encryptCall (.server c) y cl.cipher cl.txNonce, inner_encryptCall _ _ _ _, ?_⟩
        simp only [seen, raised, List.append_nil]
      · obtain ⟨hy, hn, hf, k, hk, -⟩ := (constructPacket_ok L).1 hpkt
        exact absurd ((sendable_ok L).2 ⟨cl, hcl, by rw [hk]; rfl, hn, hy, hf⟩) hs

end

/-! ## A handler that waited -/

/-- The lock with which a handler that waited sends. -/
def Await.lock : Await → Held
  | .dbLock _ => .dbLock
  | .outboxGet r _ => .outboxLock r
  | _ => .none

/-- The server when a handler that waited makes its reply. -/
def Await.take (s : Server K) (data : Bytes) : Await → Server K
  | .dbLock op => (op.run (s.setDbLock true) data.tail).1
  | .inboxGet r => s.modify r (Client.setInbox (s.objs r).inbox.tail)
  | .outboxPut r p => s.modify r (Client.setOutbox ((s.objs r).outbox.set p.response_uuid p))
  | .outboxGet r id =>
    let s' := s.modify r (Client.setOutboxLock true)
    match (s.objs r).outbox.get? id with
    | none => s'
    | some _ => s'.modify r (Client.setOutbox ((s.objs r).outbox.erase id))
  | _ => s

/-- The reply of a handler that waited and may go on. -/
def Await.reply (s : Server K) (data : Bytes) : Await → Option (Except PyErr Bytes)
  | .dbLock op => if s.dbLock then none else some (op.run (s.setDbLock true) data.tail).2
  | .inboxGet r => (s.objs r).inbox.head?.map inboxReply
  | .outboxPut r _ => if (s.objs r).outboxLock then none else some (.ok ACK)
  | .outboxGet r id =>
    if (s.objs r).outboxLock then none
    else match (s.objs r).outbox.get? id with
      | none => some (errDispatch 7)
      | some p => some (outboxReply p)
  | _ => none

theorem take_quiet (s : Server K) (data : Bytes) (pc : Await) : Quiet s (pc.take s data) := by
  have hlock : Quiet s (s.setDbLock true) := ⟨rfl, rfl, fun _ => .refl _⟩
  cases pc with
  | dbLock op => exact hlock.trans (dbOp_quiet op _ _)
  | inboxGet r => exact .modify s r _ (.setInbox _)
  | outboxPut r p => exact .modify s r _ (.setOutbox _)
  | outboxGet r id =>
    simp only [Await.take]
    split
    · exact .modify s r _ (.setOutboxLock true)
    · exact (Quiet.modify s r _ (.setOutboxLock true)).trans (.modify _ r _ (.setOutbox _))
  | _ => exact .refl s

/-- A change that keeps the links keeps what can be sent. -/
theorem Quiet.sendable {s s' : Server K} (hq : Quiet s s') {u : PyStr} {reply : Except PyErr Bytes} :
    Sendable L s' u reply ↔ Sendable L s u reply := by
  cases reply with
  | error e => exact .rfl
  | ok y =>
    simp only [Sendable, Server.client, hq.clientDb]
    rcases s.clientDb.get? u with _ | r
    · exact .rfl
    · simp only [Option.map_some, (hq.link r).cipher, (hq.link r).txNonce]

section
variable {A : Type} {s : Server K} {c : ConnId} {h h' : Handler} {i : Input} {draw : Uuid4}
  {out : Outcome K A} {data : Bytes} {p : Party}

/-- **The step of a handler that waited**: it goes on with a reply, or its await raises. -/
theorem handlerStep_queues (hq : h.pc.Queues) (ho : handlerStep L s c h i draw = some out) :
    (∃ reply, i = .go ∧ h.pc.reply s h.data = some reply ∧
      out = sendReply L (h.pc.take s h.data) c h reply h.pc.lock .next) ∨
    ∃ e, i = .raise e ∧ out = (s, .over (some e), []) := by
  unfold handlerStep at ho
  split at ho
  · rename_i hpc; rw [hpc] at hq; exact hq.elim
  · rename_i hpc; rw [hpc] at hq; exact hq.elim
  · rename_i hpc; rw [hpc] at hq; exact hq.elim
  · rename_i op hpc
    rw [hpc]
    split_ifs at ho with hlock
    cases ho
    exact .inl ⟨_, rfl, if_neg hlock, rfl⟩
  · rename_i r hpc
    rw [hpc]
    rcases hbox : (s.objs r).inbox with _ | ⟨q, qs⟩
    · rw [hbox] at ho; cases ho
    · rw [hbox] at ho
      cases ho
      exact .inl ⟨inboxReply q, rfl, by rw [Await.reply, hbox]; rfl, by rw [Await.take, hbox]; rfl⟩
  · rename_i r p hpc
    rw [hpc]
    split_ifs at ho with hlock
    cases ho
    exact .inl ⟨.ok ACK, rfl, if_neg hlock, rfl⟩
  · rename_i r id hpc
    rw [hpc]
    have hbox : ((s.modify r (Client.setOutboxLock true)).objs r).outbox = (s.objs r).outbox := by
      rw [Server.modify_objs_self]; rfl
    split_ifs at ho with hlock
    simp only [hbox] at ho
    rcases hg : (s.objs r).outbox.get? id with _ | p
    · rw [hg] at ho
      cases ho
      exact .inl ⟨errDispatch 7, rfl, by rw [Await.reply, if_neg hlock, hg],
        by simp only [Await.take, hg]; rfl⟩
    · rw [hg] at ho
      cases ho
      exact .inl ⟨outboxReply p, rfl, by rw [Await.reply, if_neg hlock, hg],
        by simp only [Await.take, hg]; rfl⟩
  · rename_i hpc; rw [hpc] at hq; exact hq.elim
  · rename_i e
    cases ho
    refine .inr ⟨e, rfl, ?_⟩
    rcases hpc : h.pc with _ | _ | _ | op | r | ⟨r, p⟩ | ⟨r, id⟩ | ⟨held, after⟩
    all_goals first | rfl | (rw [hpc] at hq; exact hq.elim)
  · cases ho

/-! ## A handler that accepts a payload -/

/-- The outcome of a step that accepts `data` for the session `u`. -/
def Accepted (s : Server K) (c : ConnId) (u : PyStr) (data : Bytes) (draw : Uuid4)
    (out : Outcome K A) : Prop :=
  ∃ r h' frame rem os, s.clientDb.get? u = some r ∧ h'.uuid = u ∧ h'.data = data ∧ Inner os ∧
    verifyPacket L frame (s.objs r).cipher (s.objs r).rxNonce = .ok (.payload data rem) ∧
    out = seen (os ++ [.accepted (.server c) data])
      (proceed L c h' (dispatch (s.modify r Client.received) u data draw))

theorem sendReply_not_accepted (reply : Except PyErr Bytes) {held : Held} {after : After} :
    .accepted p data ∉ (sendReply L s c h reply held after : Outcome K A).2.2 :=
  (sendReply_sends L reply held after).not_accepted L p

theorem proceed_not_accepted {o : Server K × Next} :
    .accepted p data ∉ (proceed L c h o : Outcome K A).2.2 := by
  unfold proceed
  split
  · exact sendReply_not_accepted L (.ok _)
  · simp
  · simp [raised]
  · simp

theorem onFrame_accepted (frame : Option Bytes)
    (ha : .accepted p data ∈ (onFrame L s c h frame draw : Outcome K A).2.2) :
    Accepted L s c h.uuid data draw (onFrame L s c h frame draw : Outcome K A) := by
  unfold onFrame at ha ⊢
  rcases hr : s.clientDb.get? h.uuid with _ | r
  · rw [hr] at ha; cases ha
  · cases frame with
    | none => rw [hr] at ha; cases ha
    | some f =>
      rw [hr] at ha
      simp only at ha ⊢
      have hin := inner_decryptCall (.server c) f (s.objs r).cipher (s.objs r).rxNonce
      rcases hv : verifyPacket L f (s.objs r).cipher (s.objs r).rxNonce with e | n | ⟨d, rem⟩
      · rw [hv] at ha
        rcases List.mem_append.1 ha with ha | ha
        · exact (hin _ ha).elim
        · cases ha
      · rw [hv] at ha
        rcases List.mem_append.1 ha with ha | ha
        · exact (hin _ ha).elim
        · exact absurd ha (sendReply_not_accepted L _)
      · rw [hv] at ha
        have hd : d = data := by
          rcases List.mem_append.1 ha with ha | ha
          · exact (hin _ ha).elim
          · rcases List.mem_append.1 ha with ha | ha
            · rw [List.mem_singleton, Obs.accepted.injEq] at ha
              exact ha.2.symm
            · exact absurd ha (proceed_not_accepted L)
        subst hd
        refine ⟨r, { h with data := d }, f, rem, _, hr, rfl, rfl, hin, hv, ?_⟩
        simp only [seen, List.append_assoc]

theorem pump_accepted (ha : .accepted p data ∈ (pump L s c h draw : Outcome K A).2.2) :
    Accepted L s c h.uuid data draw (pump L s c h draw : Outcome K A) := by
  unfold pump at ha ⊢
  split at ha
  · split at ha
    · cases ha
    · simp at ha
  · rename_i he
    exact onFrame_accepted L (h := { h with receiveBuffer := _ }) _ ha
  · cases ha

/-- **The step of a handler that accepts a payload.** -/
theorem handlerStep_accepted (ho : handlerStep L s c h i draw = some out)
    (ha : .accepted p data ∈ out.2.2) : h.pc.Reads ∧ Accepted L s c h.uuid data draw out := by
  have hreads : ∀ {pc : Await}, h.pc = pc → pc.Reads → h.pc.Reads := by
    rintro pc rfl hp
    exact hp
  unfold handlerStep at ho
  split at ho
  · cases ho
    unfold started at ha
    split at ha
    · cases ha
    · split_ifs at ha <;> cases ha
  · rename_i hpc
    cases ho
    exact ⟨hreads hpc trivial, pump_accepted L ha⟩
  · rename_i hpc
    split_ifs at ho
    · cases ho; exact ⟨hreads hpc trivial, onFrame_accepted L _ ha⟩
    · cases ho; exact ⟨hreads hpc trivial, pump_accepted L (h := { h with receiveBuffer := _ }) ha⟩
  · split_ifs at ho
    cases ho; exact absurd ha (sendReply_not_accepted L _)
  · split at ho
    · cases ho
    · cases ho; exact absurd ha (sendReply_not_accepted L _)
  · split_ifs at ho
    cases ho; exact absurd ha (sendReply_not_accepted L (.ok _))
  · split_ifs at ho
    simp only at ho
    split at ho
    · cases ho; exact absurd ha (sendReply_not_accepted L _)
    · cases ho; exact absurd ha (sendReply_not_accepted L _)
  · rename_i held after hpc
    cases ho
    cases after with
    | frameError =>
      -- there is no frame
      obtain ⟨r, h', f, rem, os, hr, -, -, -, -, -⟩ := onFrame_accepted L none ha
      simp only [onSent, onFrame, hr] at ha
      cases ha
    | next =>
      simp only [onSent] at ha
      split at ha <;> cases ha
    | close =>
      simp only [onSent] at ha
      split at ha <;> cases ha
  · cases ho; cases ha
  · cases ho

/-! ## Where an answer comes from -/

variable {c' : ConnId} {u : PyStr} {y : Bytes}

theorem Sends.answered_eq {reply : Except PyErr Bytes} {held : Held} {after : After}
    (hs : Sends L s c h reply held after out) (ha : .answered c' u data y ∈ out.2.2) :
    after = .next ∧ c' = c ∧ u = h.uuid ∧ data = h.data ∧ reply = .ok y := by
  cases hs with
  | fail _ hin => exact (hin _ ha).elim
  | start hreply hin =>
    rcases List.mem_append.1 ha with ha | ha
    · exact (hin _ ha).elim
    · split_ifs at ha with hnext
      · simp only [List.mem_cons, reduceCtorEq, Obs.answered.injEq, List.not_mem_nil, or_false,
          false_or] at ha
        obtain ⟨rfl, rfl, rfl, rfl⟩ := ha
        exact ⟨hnext, rfl, rfl, rfl, hreply⟩
      · simp at ha

/-- **An answer** is the reply to a payload that was just accepted, or the one of a handler
    that waited. -/
theorem Move.answered (hm : Move L s c h i draw out) (ha : .answered c' u data y ∈ out.2.2) :
    c' = c ∧ u = h.uuid ∧
      ((.accepted (.server c) data ∈ out.2.2 ∧ ∃ r, s.clientDb.get? h.uuid = some r ∧
          (dispatch (s.modify r Client.received) h.uuid data draw).2 = .reply y) ∨
        (h.pc.Queues ∧ i = .go ∧ data = h.data ∧ h.pc.reply s h.data = some (.ok y))) := by
  cases hm with
  | still _ _ hin => exact (hin _ ha).elim
  | refuse _ _ _ hin hs =>
    rcases List.mem_append.1 ha with ha | ha
    · exact (hin _ ha).elim
    · have hclose := (hs.answered_eq L ha).1
      cases hclose
  | payload hreads hr hu hv hin hp =>
    rename_i r h' frame rem os out'
    have ha' : .answered c' u data y ∈ out'.2.2 := by
      rcases List.mem_append.1 ha with ha | ha
      · rcases List.mem_append.1 ha with ha | ha
        · exact (hin _ ha).elim
        · simp at ha
      · exact ha
    cases hp with
    | reply hn hs =>
      obtain ⟨-, rfl, rfl, rfl, hy⟩ := hs.answered_eq L ha'
      cases hy
      exact ⟨rfl, hu, .inl ⟨by simp [seen], r, hr, hn⟩⟩
    | wait => cases ha'
    | raise => cases ha'
    | bye => cases ha'
  | db hpc hi hlock hs =>
    obtain ⟨-, rfl, rfl, rfl, hy⟩ := hs.answered_eq L ha
    refine ⟨rfl, rfl, .inr ⟨by rw [hpc]; trivial, hi, rfl, ?_⟩⟩
    rw [hpc, Await.reply, hlock, if_neg (by simp), hy]
  | inboxGet hpc hi hbox hs =>
    obtain ⟨-, rfl, rfl, rfl, hy⟩ := hs.answered_eq L ha
    refine ⟨rfl, rfl, .inr ⟨by rw [hpc]; trivial, hi, rfl, ?_⟩⟩
    rw [hpc, Await.reply, hbox, List.head?_cons, Option.map_some, hy]
  | outboxPut hpc hi hlock hs =>
    obtain ⟨-, rfl, rfl, rfl, hy⟩ := hs.answered_eq L ha
    refine ⟨rfl, rfl, .inr ⟨by rw [hpc]; trivial, hi, rfl, ?_⟩⟩
    rw [hpc, Await.reply, hlock, if_neg (by simp), hy]
  | outboxNone hpc hi hlock hg hs =>
    obtain ⟨-, rfl, rfl, rfl, hy⟩ := hs.answered_eq L ha
    refine ⟨rfl, rfl, .inr ⟨by rw [hpc]; trivial, hi, rfl, ?_⟩⟩
    simp only [hpc, Await.reply, hlock, hg, hy, Bool.false_eq_true, if_false]
  | outboxGet hpc hi hlock hg hs =>
    obtain ⟨-, rfl, rfl, rfl, hy⟩ := hs.answered_eq L ha
    refine ⟨rfl, rfl, .inr ⟨by rw [hpc]; trivial, hi, rfl, ?_⟩⟩
    simp only [hpc, Await.reply, hlock, hg, hy, Bool.false_eq_true, if_false]
  | sent => cases ha
  | close => cases ha
  | die => cases ha

end

end Pipebomb
