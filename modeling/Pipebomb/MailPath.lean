/-
  The way of a request and of a response through a mailbox.

  * `request_path`: PUT_INBOX decodes what `request` sends, and `read_inbox` what GET_INBOX
    replies, to the same request.
  * `response_path_iff`: when `read_outbox` gives the response that `respond` wrote.  The
    length that tells an error from a response is one too large, so a response with no key
    and no bytes is rejected after the server threw it away.
-/
import Pipebomb.Answers
import Pipebomb.Fields
import Pipebomb.Uuids

namespace Pipebomb

open ByteString

variable {K : Type} (L : Libs K)

/-! ## Requests -/

section
variable {s : Server K} {u : PyStr} {r : Ref} {draw : Uuid4}

/-- PUT_INBOX of a body with the three fields. -/
theorem dispatch_putInbox {target req key : Bytes} (h : AllShort [target, req, key])
    (ht : s.clientDb.get? (latin1Decode target) = some r) (hu : Latin1 u) :
    dispatch s u (0x2 :: bodyOf [target, req, key]) draw =
      (s.modify r (Client.put ⟨latin1 u, key, req, draw.bytes⟩), .reply draw.bytes) := by
  have hcmd : command 0x2 = .putInbox := by decide
  have hsplit : splitBody 3 (bodyOf [target, req, key]) = .ok [target, req, key] := splitBody_eq rfl h
  simp only [dispatch, hcmd, putInbox, hsplit, ht, latin1Encode_eq hu]

/-- The reply to a request that was taken is read back. -/
theorem request_read {q : Request} {c c' : ConnId} {h : Handler} {A : Type} {out : Outcome K A}
    {qs : List Request} {u' : PyStr} {data reply : Bytes} (hpc : h.pc = .inboxGet r)
    (hbox : (s.objs r).inbox = q :: qs) (ho : handlerStep L s c h .go draw = some out)
    (ha : .answered c' u' data reply ∈ out.2.2) :
    Call.result reply .readInbox = .ok (.request q) := by
  rcases handlerStep_queues L (by rw [hpc]; trivial) ho with ⟨reply', -, hreply, rfl⟩ | ⟨e, he, -⟩
  · obtain ⟨-, -, -, -, hy⟩ := (sendReply_sends L reply' _ _).answered_eq L ha
    rw [hpc, Await.reply, hbox, List.head?_cons, Option.map_some, hy, Option.some.injEq] at hreply
    rw [Call.result, readRequest_inboxReply hreply]
    rfl
  · cases he

end

section
variable {password : Bytes} {keep : Bool} {S : Sys K} {os : List (Obs K)} {c : ConnId} {h : Handler}

/-- **The request path.**  In every reachable state, what `request` sends for a session `target`
    is decoded by PUT_INBOX into its arguments; the request that it puts into the inbox has
    the id that the sender gets, and GET_INBOX replies to `read_inbox` with exactly that
    request. -/
theorem request_path (hrun : Reaches L (.init password keep) S os) (hh : S.tasks c = .handler h)
    {target req key : Bytes} {r : Ref} (ht : S.server.clientDb.get? (latin1Decode target) = some r)
    (hreq : req.length < 2 ^ 32) (hkey : key.length < 2 ^ 32) {draw : Uuid4} (hd : draw.Valid) :
    ∃ body, (Call.request target req key).payload = .ok (0x2 :: body) ∧
      splitBody 3 body = .ok [target, req, key] ∧
      (∀ i S' o, S.step L (.resume c i draw) = some (S', o) → .accepted (.server c) (0x2 :: body) ∈ o →
        (S'.server.objs r).inbox =
          (S.server.objs r).inbox ++ [⟨latin1 h.uuid, key, req, draw.bytes⟩] ∧
        S.Replies o c h (0x2 :: body) draw.bytes) ∧
      (∃ reply, inboxReply ⟨latin1 h.uuid, key, req, draw.bytes⟩ = .ok reply ∧
        Call.outcome reply .readInbox =
          some (.ok (.request ⟨latin1 h.uuid, key, req, draw.bytes⟩))) ∧
      ∀ (s₁ : Server K) (c₁ : ConnId) (h₁ : Handler) (draw₁ : Uuid4)
        (out₁ : Outcome K (Accepting K)) (r₁ : Ref) (qs : List Request), h₁.pc = .inboxGet r₁ →
        (s₁.objs r₁).inbox = ⟨latin1 h.uuid, key, req, draw.bytes⟩ :: qs →
        handlerStep L s₁ c₁ h₁ .go draw₁ = some out₁ →
        ∀ c' u' data reply, .answered c' u' data reply ∈ out₁.2.2 → Call.result reply .readInbox =
          .ok (.request ⟨latin1 h.uuid, key, req, draw.bytes⟩) := by
  have huuids := run_uuids L (uuids_init password keep) hrun
  have huuid : IsUuid h.uuid := huuids.tasks c h.uuid (by rw [hh]; rfl)
  have htarget : target.length = 36 := by
    rw [← length_latin1Decode]
    exact huuids.sessions _ (Dict.mem_of_get? ht)
  have hshort : AllShort [target, req, key] := by
    simp only [allShort_cons, htarget]
    exact ⟨by decide, hreq, hkey, allShort_nil⟩
  refine ⟨bodyOf [target, req, key], withLengths_eq 0x2 hshort, splitBody_eq rfl hshort,
    fun i S' o hstep ha => ?_, ?_, ?_⟩
  · have ht' : taskStep L S.server c (.handler h) i draw ≠ none := by
      intro hnone
      simp only [Sys.step, hh, hnone] at hstep
      cases hstep
    obtain ⟨out, hout⟩ := Option.ne_none_iff_exists'.1 ht'
    simp only [Sys.step, hh, hout, Option.some.injEq, Prod.mk.injEq] at hstep
    obtain ⟨rfl, rfl⟩ := hstep
    have hframe := huuids.sound.tidy c
    rw [hh] at hframe
    have hdispatch : ∀ r₀, dispatch (S.server.modify r₀ Client.received) h.uuid
        (0x2 :: bodyOf [target, req, key]) draw = ((S.server.modify r₀ Client.received).modify r
          (Client.put ⟨latin1 h.uuid, key, req, draw.bytes⟩), .reply draw.bytes) :=
      fun r₀ => dispatch_putInbox hshort ht huuid.2
    refine ⟨?_, (handlerStep_move L hframe hout).replies L ha (fun r₀ _ => by rw [hdispatch]) ?_ ?_⟩
    · obtain ⟨-, r₀, h', frame, rem, os', -, -, -, -, -, he⟩ := handlerStep_accepted L hout ha
      have hserver : out.1 = (S.server.modify r₀ Client.received).modify r
          (Client.put ⟨latin1 h.uuid, key, req, draw.bytes⟩) := by
        rw [he, seen_server, hdispatch]
        rcases (sendPacket_sends (A := Accepting K) L (h := h') draw.bytes .none .next).server with hs | hs
        · exact hs
        · exact hs
      rw [put_server, hserver, Server.modify_objs_self, Client.put, Server.modify_objs]
      split_ifs <;> rfl
    · exact List.ne_nil_of_length_pos (by rw [hd.bytes]; decide)
    · exact fits_of_length L (by rw [hd.bytes]; decide)
  · have hfields : AllShort (Request.fields ⟨latin1 h.uuid, key, req, draw.bytes⟩) := by
      simp only [Request.fields, allShort_cons, length_latin1, huuid.1, hd.bytes]
      exact ⟨by decide, hreq, hkey, by decide, allShort_nil⟩
    have hreply := inboxReply_ok.2 ⟨hfields, rfl⟩
    refine ⟨_, hreply, ?_⟩
    -- a reply starts with the length of the sender's uuid
    have hmark : ¬ Marked (bodyOf (Request.fields ⟨latin1 h.uuid, key, req, draw.bytes⟩)) := by
      rintro ⟨⟨t, ht⟩, -⟩
      have hfirst := congrArg List.head? ht
      simp [bodyOf, lengthsOf, Request.fields, huuid.1, RawClient.ERR, beBytes, leBytes] at hfirst
    rw [Call.outcome, if_neg hmark, Call.result, readRequest_inboxReply hreply]
    rfl
  · intro s₁ c₁ h₁ draw₁ out₁ r₁ qs hpc hbox ho c' u' data reply ha
    exact request_read L hpc hbox ho ha

end

/-- The packet in which connection 1 sends a request to the session of 0. -/
def sampleRequest : Bytes :=
  stubPacket 1 2 (0x2 :: bodyOf [latin1 sampleUuid, [9], [107, 107]])

/-- A request of one byte under a key of two. -/
theorem request_path_sample : ∃ (S S' : Sys ℕ) (o : List (Obs ℕ)) (r : Ref) (h : Handler),
    S.step stub (.resume 1 (.recv sampleRequest) sampleDraw) = some (S', o) ∧
      S.Replies o 1 h (0x2 :: bodyOf [latin1 sampleUuid, [9], [107, 107]]) (List.replicate 16 7) ∧
      (S'.server.objs r).inbox =
        (S.server.objs r).inbox ++ [⟨latin1 h.uuid, [107, 107], [9], List.replicate 16 7⟩] ∧
      ∃ reply, Call.outcome reply .readInbox =
        some (.ok (.request ⟨latin1 h.uuid, [107, 107], [9], List.replicate 16 7⟩)) := by
  have hexec : ((Lts.exec (Sys.step stub) twoLogins (.init [] false)).any fun x =>
      (x.1.tasks 1).handler?.any fun _ =>
        (x.1.server.clientDb.get? (latin1Decode (latin1 sampleUuid))).any fun _ =>
          (x.1.step stub (.resume 1 (.recv sampleRequest) sampleDraw)).any fun y =>
            .accepted (.server 1) (0x2 :: bodyOf [latin1 sampleUuid, [9], [107, 107]]) ∈ y.2) =
      true := by decide +kernel
  have halong : Lts.Along (Sys.step stub) (fun _ a _ => a.Draws) twoLogins (.init [] false) := by
    decide +kernel
  obtain ⟨⟨S, os⟩, hS, hp⟩ := Option.any_eq_true _ _ |>.1 hexec
  obtain ⟨h, hh, hp⟩ := Option.any_eq_true _ _ |>.1 hp
  obtain ⟨r, hr, hp⟩ := Option.any_eq_true _ _ |>.1 hp
  obtain ⟨⟨S', o⟩, hS', ha⟩ := Option.any_eq_true _ _ |>.1 hp
  have hdraw : sampleDraw.Valid := by decide
  obtain ⟨body, hpay, -, hput, ⟨reply, -, hread⟩, -⟩ := request_path stub
    (Lts.exec_run hS halong) (Task.eq_handler hh) hr (show ([9] : Bytes).length < 2 ^ 32 by decide)
    (show ([107, 107] : Bytes).length < 2 ^ 32 by decide) hdraw
  have hshort : AllShort [latin1 sampleUuid, [9], [107, 107]] := by decide
  cases hpay.symm.trans (withLengths_eq 0x2 hshort)
  obtain ⟨hbox, hreplies⟩ := hput _ S' o hS' (of_decide_eq_true ha)
  exact ⟨S, S', o, r, h, hS', hreplies, hbox, reply, hread⟩

/-! ## Responses -/

/-- The coroutine is about to write or take the response with the id in the outbox `r`. -/
def Await.Handles (r : Ref) (id : Bytes) : Await → Prop
  | .outboxPut r' p => r' = r ∧ p.response_uuid = id
  | .outboxGet r' id' => r' = r ∧ id' = id
  | _ => False

instance (r : Ref) (id : Bytes) (pc : Await) : Decidable (pc.Handles r id) := by
  cases pc <;> simp only [Await.Handles] <;> infer_instance

/-- Nobody writes or reads the response with the id in the outbox `r` in the step. -/
def Sys.Unhandled (S : Sys K) (r : Ref) (id : Bytes) : Act → Prop
  | .resume c .go _ => ∀ h ∈ (S.tasks c).handler?, ¬ h.pc.Handles r id
  | _ => True

instance (S : Sys K) (r : Ref) (id : Bytes) (a : Act) : Decidable (S.Unhandled r id a) := by
  unfold Sys.Unhandled
  split <;> infer_instance

section
variable {s : Server K} {c : ConnId} {h : Handler} {i : Input} {draw : Uuid4} {r : Ref} {id : Bytes}
  {out : Outcome K (Accepting K)}

theorem modify_outbox (s : Server K) (r r' : Ref) {f : Client K → Client K}
    (hf : ∀ cl, (f cl).outbox = cl.outbox) : ((s.modify r' f).objs r).outbox = (s.objs r).outbox := by
  rw [Server.modify_objs]
  split_ifs
  · exact hf _
  · rfl

theorem release_outbox (s : Server K) (held : Held) (r : Ref) :
    ((s.release held).objs r).outbox = (s.objs r).outbox := by
  cases held with
  | outboxLock r' => exact modify_outbox s r r' fun _ => rfl
  | _ => rfl

theorem dispatch_outbox (s : Server K) (u : PyStr) (data : Bytes) (draw : Uuid4) (r : Ref) :
    ((dispatch s u data draw).1.objs r).outbox = (s.objs r).outbox := by
  cases data with
  | nil => rfl
  | cons type_ value =>
    simp only [dispatch]
    cases command type_ with
    | register =>
      simp only [register]
      split_ifs
      · rfl
      · split
        · rfl
        · exact modify_outbox s r _ fun _ => rfl
    | unregister =>
      simp only [unregister]
      split
      · rfl
      · split_ifs
        · exact modify_outbox s r _ fun _ => rfl
        · exact modify_outbox s r _ fun _ => rfl
        · rfl
    | putInbox =>
      simp only [putInbox]
      split
      · split
        · rfl
        · split
          · rfl
          · exact modify_outbox s r _ fun _ => rfl
      · rfl
      · rfl
    | getInbox => simp only; split <;> rfl
    | getOutbox => simp only; split <;> rfl
    | _ => rfl

theorem teardown_objs (s : Server K) (u : PyStr) : (teardown s u).objs = s.objs := by
  unfold teardown
  split_ifs <;> rfl

theorem dbOp_objs (op : DbOp) (s : Server K) (value : Bytes) : (op.run s value).1.objs = s.objs := by
  cases op with
  | set => simp only [DbOp.run]; split <;> rfl
  | get => rfl
  | delete => simp only [DbOp.run]; split_ifs <;> rfl
  | list => rfl

theorem Sends.outbox {reply : Except PyErr Bytes} {held : Held} {after : After}
    (hs : Sends L s c h reply held after out) (r : Ref) :
    (out.1.objs r).outbox = (s.objs r).outbox := by
  rcases hs.server with he | he
  · rw [he]
  · rw [he, release_outbox]

/-- A handler that does not handle the response leaves it. -/
theorem Move.outbox (hm : Move L s c h i draw out) (hno : i = .go → ¬ h.pc.Handles r id) :
    (out.1.objs r).outbox.get? id = (s.objs r).outbox.get? id := by
  cases hm with
  | still => rfl
  | refuse _ _ _ _ hs =>
    rw [seen_server, hs.outbox]
    exact congrArg (Dict.get? · id) (modify_outbox s r _ (f := Client.received) fun _ => rfl)
  | payload hreads hr hu hv hin hp =>
    rename_i r₀ h' frame rem os out'
    have hd : ((dispatch (s.modify r₀ Client.received) h.uuid h'.data draw).1.objs r).outbox =
        (s.objs r).outbox := by
      rw [dispatch_outbox]
      exact modify_outbox s r r₀ fun _ => rfl
    rw [seen_server]
    cases hp with
    | reply _ hs => rw [hs.outbox, hd]
    | wait => rw [hd]
    | raise => rw [hd]
    | bye => rw [teardown_objs, hd]
  | db _ _ _ hs => rw [hs.outbox, dbOp_objs]; rfl
  | inboxGet _ _ _ hs =>
    rw [hs.outbox]
    exact congrArg (Dict.get? · id) (modify_outbox s r _ (f := Client.setInbox _) fun _ => rfl)
  | outboxPut hpc hi hlock hs =>
    rename_i r' p
    rw [hs.outbox, Server.modify_objs]
    split_ifs with he
    · subst he
      have hid : id ≠ p.response_uuid := fun hid => hno hi (by rw [hpc]; exact ⟨rfl, hid.symm⟩)
      exact Dict.get?_set_ne _ hid _
    · rfl
  | outboxNone _ _ _ _ hs =>
    rw [hs.outbox]
    exact congrArg (Dict.get? · id) (modify_outbox s r _ (f := Client.setOutboxLock true) fun _ => rfl)
  | outboxGet hpc hi hlock hg hs =>
    rename_i r' id' p
    rw [hs.outbox, Server.modify_objs]
    split_ifs with he
    · subst he
      have hid : id ≠ id' := fun hid => hno hi (by rw [hpc]; exact ⟨rfl, hid.symm⟩)
      exact Dict.get?_erase_ne _ hid
    · exact congrArg (Dict.get? · id) (modify_outbox s r _ (f := Client.setOutboxLock true) fun _ => rfl)
  | sent =>
    rw [release_outbox]
    exact congrArg (Dict.get? · id) (modify_outbox s r _ (f := Client.sent) fun _ => rfl)
  | close =>
    rw [teardown_objs, release_outbox]
    exact congrArg (Dict.get? · id) (modify_outbox s r _ (f := Client.sent) fun _ => rfl)
  | die => rw [release_outbox]

theorem Joins.outbox {a : Accepting K} (hj : Joins s c draw a out) (hr : r < s.fresh) :
    (out.1.objs r).outbox = (s.objs r).outbox := by
  cases hj with
  | still => rfl
  | login => rw [Server.addSession_objs hr]
  | attach => exact modify_outbox s r _ fun _ => rfl
  | unknown =>
    rw [modify_outbox _ r _ (f := Client.setNonces _ _) fun _ => rfl, Server.addSession_objs hr]
  | finish => exact modify_outbox s r _ fun _ => rfl

theorem admin_outbox (op : Admin) (hr : r < s.fresh) :
    ((op.run s).1.objs r).outbox = (s.objs r).outbox := by
  cases op with
  | addClient t =>
    simp only [Admin.run, addClient]
    split_ifs
    · rfl
    · rfl
    · rfl
    · rw [Server.addSession_objs hr]
  | removeClient uuid =>
    simp only [Admin.run, removeClient]
    split_ifs
    · rfl
    · split
      · rfl
      · split <;> rfl
  | addKey key uuid =>
    simp only [Admin.run, addKey]
    split_ifs
    · rfl
    · rfl
    · split
      · rfl
      · exact modify_outbox _ r _ fun _ => rfl
  | removeKey key uuid =>
    simp only [Admin.run, removeKey]
    split_ifs
    · rfl
    · split
      · rfl
      · split_ifs
        · exact modify_outbox _ r _ fun _ => rfl
        · rfl
    · rfl

end

section
variable {S S' : Sys K} {a : Act} {o os : List (Obs K)} {r : Ref} {id : Bytes}

/-- A response that nobody writes or reads stays as it is. -/
theorem step_outbox (hS : S.Sound) (hr : r < S.server.fresh) (hstep : S.step L a = some (S', o))
    (hno : S.Unhandled r id a) :
    (S'.server.objs r).outbox.get? id = (S.server.objs r).outbox.get? id := by
  cases (step_step L hS.tidy hstep).1 with
  | connect => rfl
  | join htask hj => rw [put_server, hj.outbox hr]
  | move htask hm =>
    refine hm.outbox L ?_
    rintro rfl
    exact hno _ (by rw [htask]; rfl)
  | admin => rw [admin_outbox _ hr]

theorem run_outbox (hS : S.Sound) (hr : r < S.server.fresh)
    (hrun : Lts.Run (Lts.Guarded (Sys.step L) fun S a _ => S.Unhandled r id a) S S' os) :
    S'.Sound ∧ r < S'.server.fresh ∧
      (S'.server.objs r).outbox.get? id = (S.server.objs r).outbox.get? id := by
  refine hrun.inv (I := fun (S' : Sys K) _ => S'.Sound ∧ r < S'.server.fresh ∧
    (S'.server.objs r).outbox.get? id = (S.server.objs r).outbox.get? id) ⟨hS, hr, rfl⟩
    fun _ ⟨hS, hr, hget⟩ ⟨a, hstep, hno⟩ => ?_
  exact ⟨step_sound L hS hstep, Nat.lt_of_lt_of_le hr (step_frame L hS hstep).fresh,
    (step_outbox L hS hr hstep hno).trans hget⟩

end

/-! ## The reply of GET_OUTBOX -/

section
variable {key response id : Bytes}

theorem beBytes_take {w n : ℕ} : (beBytes (w + 1) n).take w = beBytes w (n / 256) := by
  simp only [beBytes, leBytes, List.reverse_cons]
  exact List.take_left' (by simp)

/-- `recv_loop` takes the reply for an error if the length of the key says `ERR`. -/
theorem marked_bodyOf (h : key.length < 2 ^ 32) (args : List Bytes) :
    Marked (bodyOf (key :: args)) ↔ key.length / 256 = 0x455252 := by
  have htake : (bodyOf (key :: args)).take 3 = beBytes 3 (key.length / 256) := by
    rw [bodyOf, lengthsOf_cons, List.append_assoc, List.take_append_of_le_length (by simp),
      beBytes_take]
  have herr : RawClient.ERR = beBytes 3 0x455252 := by decide
  have hpre : RawClient.ERR <+: bodyOf (key :: args) ↔ key.length / 256 = 0x455252 := by
    rw [List.prefix_iff_eq_take, show RawClient.ERR.length = 3 from rfl, htake, herr]
    constructor
    · intro he
      have hinj := leBytes_inj (w := 3) (by decide) (by omega) (List.reverse_injective he)
      exact hinj.symm
    · intro he
      rw [he]
  rw [Marked, hpre, and_iff_left_iff_imp]
  rintro he hack
  have hlen := congrArg List.length hack
  simp only [bodyOf, List.length_append, length_lengthsOf, List.length_cons, List.flatten_cons,
    RawClient.ERR_ACK, RawClient.ERR, List.length_nil] at hlen
  omega

/-- `read_outbox` rejects a response with no key and no bytes. -/
theorem outcome_readOutbox (id : Bytes) (h : AllShort [key, response]) :
    Call.outcome (bodyOf [key, response]) (.readOutbox id) = some (.ok (.response ⟨key, response, id⟩)) ↔
      (key ≠ [] ∨ response ≠ []) ∧ key.length / 256 ≠ 0x455252 := by
  have hmark := marked_bodyOf (h key (by simp)) [response]
  have hlen : (bodyOf [key, response]).length = 8 + key.length + response.length := by
    simp [bodyOf]; omega
  have hreply : outboxReply ⟨key, response, id⟩ = .ok (bodyOf [key, response]) :=
    outboxReply_ok.2 ⟨h, rfl⟩
  rw [Call.outcome]
  by_cases hm : Marked (bodyOf [key, response])
  · rw [if_pos hm]
    exact ⟨fun h => (by cases h), fun h => absurd (hmark.1 hm) h.2⟩
  · rw [if_neg hm, Call.result]
    by_cases hempty : key ≠ [] ∨ response ≠ []
    · have hlong : 9 ≤ (bodyOf [key, response]).length := by
        rcases hempty with hk | hk
        · have := List.length_pos_iff.2 hk; omega
        · have := List.length_pos_iff.2 hk; omega
      rw [readResponse_outboxReply hreply hlong]
      exact ⟨fun _ => ⟨hempty, fun he => hm (hmark.2 he)⟩, fun _ => rfl⟩
    · rw [Call.readResponse, if_pos (by
        simp only [not_or, not_not] at hempty
        rw [hlen, hempty.1, hempty.2]; decide)]
      exact ⟨fun h => (by cases h), fun h => absurd h.1 hempty⟩

end

section
variable {password : Bytes} {keep : Bool} {S S₁ : Sys K} {os o : List (Obs K)} {c : ConnId}
  {h : Handler} {i : Input} {draw : Uuid4}

/-- A step of a handler in terms of its coroutine. -/
theorem step_handler {out : Sys K × List (Obs K)} (hh : S.tasks c = .handler h)
    (hstep : S.step L (.resume c i draw) = some out) :
    ∃ s t, handlerStep L S.server c h i draw = some (s, t, out.2) ∧ out.1 = S.put c s t := by
  simp only [Sys.step, hh] at hstep
  rcases ht : taskStep L S.server c (.handler h) i draw with _ | ⟨s, t, o⟩
  · rw [ht] at hstep; cases hstep
  · rw [ht] at hstep
    cases hstep
    exact ⟨s, t, ht, rfl⟩

/-- An answer to `respond` comes from the handler that wrote the response. -/
theorem respond_answered {target response key id data reply : Bytes} (hS : S.Sound)
    (hh : S.tasks c = .handler h) (hstep : S.step L (.resume c i draw) = some (S₁, o))
    (hpay : (Call.respond target response key id).payload = .ok data)
    (ha : .answered c h.uuid data reply ∈ o) :
    ∃ r, h.pc = .outboxPut r ⟨key, response, id⟩ ∧ (S.server.objs r).uuid = latin1Decode target ∧
      r < S.server.fresh ∧ (S₁.server.objs r).outbox.get? id = some ⟨key, response, id⟩ := by
  obtain ⟨hshort, rfl⟩ := withLengths_ok.1 hpay
  have hcmd : command 0x4 = .putOutbox := by decide
  obtain ⟨s, t, ho, rfl⟩ := step_handler L hh hstep
  have hframe := hS.tidy c
  rw [hh] at hframe
  have hm := handlerStep_move L hframe ho
  have hwf := hS.handlers c h hh
  obtain ⟨-, -, ⟨-, r, -, hd⟩ | ⟨hq, rfl, hdata, hreply⟩⟩ := hm.answered L ha
  · -- PUT_OUTBOX waits for the lock
    simp only [dispatch, hcmd, putOutbox] at hd
    split at hd
    · split at hd <;> cases hd
    · cases hd
    · cases hd
  · obtain ⟨_, _, he, hcases⟩ := hwf.waits hq
    rw [← hdata] at he
    cases he
    rw [hcmd] at hcases
    obtain ⟨_, hc, -⟩ | ⟨_, hc, -⟩ | ⟨r, p, -, hpc⟩ | ⟨_, hc, -⟩ := hcases
    · cases hc
    · cases hc
    · obtain ⟨⟨_, _, target', he, -, hsplit, hu⟩, hr⟩ := hwf.outboxPut hpc
      rw [← hdata] at he
      cases he
      rw [splitBody_eq (n := 4) rfl hshort] at hsplit
      simp only [Except.ok.injEq, List.cons.injEq, and_true] at hsplit
      obtain ⟨rfl, rfl, rfl, rfl⟩ := hsplit
      refine ⟨r, hpc, hu, hr, ?_⟩
      rcases handlerStep_queues L hq ho with ⟨reply', -, -, he⟩ | ⟨e, he, -⟩
      · have hs := (sendReply_sends (A := Accepting K) L (s := h.pc.take S.server h.data) (c := c)
          (h := h) reply' h.pc.lock .next).outbox L r
        rw [← he, hpc] at hs
        rw [put_server, hs, Await.take, Server.modify_objs_self]
        exact Dict.get?_set_self _ _ _
      · cases he
    · cases hc

/-- **The response path.**  `respond` was answered in a step from a reachable state, and nobody
    wrote or read the response with the id in that outbox until a handler takes it: then
    `read_outbox` returns exactly the response if and only if the reply can be sent, the
    response is not without key and bytes, and the length of the key is not taken for an
    error. -/
theorem response_path_iff
    (hrun : Lts.Run (Lts.Guarded (Sys.step L) fun _ _ _ => True) (.init password keep) S os)
    (hh : S.tasks c = .handler h) (hstep : S.step L (.resume c i draw) = some (S₁, o))
    {target response key id data : Bytes}
    (hpay : (Call.respond target response key id).payload = .ok data)
    (ha : .answered c h.uuid data ACK ∈ o) :
    ∃ r, h.pc = .outboxPut r ⟨key, response, id⟩ ∧ (S.server.objs r).uuid = latin1Decode target ∧
      ∀ (S₂ S₃ : Sys K) (os₂ o₃ : List (Obs K)) (c₂ : ConnId) (h₂ : Handler) (draw₂ : Uuid4),
        Lts.Run (Lts.Guarded (Sys.step L) fun S a _ => S.Unhandled r id a) S₁ S₂ os₂ →
        S₂.tasks c₂ = .handler h₂ → h₂.pc = .outboxGet r id →
        S₂.step L (.resume c₂ .go draw₂) = some (S₃, o₃) →
        ((∃ reply, .answered c₂ h₂.uuid h₂.data reply ∈ o₃ ∧
            Call.outcome reply (.readOutbox id) = some (.ok (.response ⟨key, response, id⟩))) ↔
          Sendable L S₂.server h₂.uuid (.ok (bodyOf [key, response])) ∧
            (key ≠ [] ∨ response ≠ []) ∧ key.length / 256 ≠ 0x455252) := by
  have hS := run_sound L (sound_init password keep) hrun
  obtain ⟨r, hpc, hu, hr, hget⟩ := respond_answered L hS hh hstep hpay ha
  refine ⟨r, hpc, hu, fun S₂ S₃ os₂ o₃ c₂ h₂ draw₂ hrun₂ hh₂ hpc₂ hstep₂ => ?_⟩
  have hS₁ := step_sound L hS hstep
  have hr₁ := Nat.lt_of_lt_of_le hr (step_frame L hS hstep).fresh
  obtain ⟨hS₂, -, hget₂⟩ := run_outbox L hS₁ hr₁ hrun₂
  rw [hget] at hget₂
  have hshort : AllShort [key, response] := by
    have hall := (withLengths_ok.1 hpay).1
    simp only [allShort_cons] at hall ⊢
    exact ⟨hall.2.2.1, hall.2.1, allShort_nil⟩
  have hreply : outboxReply ⟨key, response, id⟩ = .ok (bodyOf [key, response]) :=
    outboxReply_ok.2 ⟨hshort, rfl⟩
  obtain ⟨s, t, ho, rfl⟩ := step_handler L hh₂ hstep₂
  rcases handlerStep_queues L (by rw [hpc₂]; trivial) ho with ⟨reply', -, he, hout⟩ | ⟨e, he, -⟩
  · rw [hpc₂, Await.reply] at he
    split_ifs at he
    rw [hget₂, Option.some.injEq, hreply] at he
    subst he
    have hquiet := take_quiet S₂.server h₂.data h₂.pc
    rw [← outcome_readOutbox id hshort, ← hquiet.sendable L]
    constructor
    · rintro ⟨reply, hans, hres⟩
      have hans' : .answered c₂ h₂.uuid h₂.data reply ∈
          (sendReply L (h₂.pc.take S₂.server h₂.data) c₂ h₂ (.ok (bodyOf [key, response]))
            h₂.pc.lock .next : Outcome K (Accepting K)).2.2 := by rw [← hout]; exact hans
      by_cases hsend : Sendable L (h₂.pc.take S₂.server h₂.data) h₂.uuid (.ok (bodyOf [key, response]))
      · obtain ⟨-, -, -, -, hy⟩ := (sendReply_sends L _ _ _).answered_eq L hans'
        cases hy
        exact ⟨hsend, hres⟩
      · obtain ⟨e, os', hin, hs⟩ := sendReply_not_sendable (A := Accepting K) L (c := c₂)
          h₂.pc.lock .next hsend
        rw [hs] at hans'
        exact (hin _ hans').elim
    · rintro ⟨hsend, hres⟩
      obtain ⟨y, pkt, os', hy, -, hs⟩ := sendReply_sendable (A := Accepting K) L (c := c₂)
        h₂.pc.lock .next hsend
      cases hy
      rw [← hout] at hs
      cases hs
      exact ⟨bodyOf [key, response], by simp, hres⟩
  · cases he

end

/-! ## Runs on fixed inputs -/

/-- The payload in which connection 1 responds to the session of 0 under the id `1`. -/
def sampleRespond (response key : Bytes) : Bytes :=
  0x4 :: bodyOf [latin1 sampleUuid, response, key, [1]]

/-- Connection 1 responds, up to the lock. -/
def respondActs (response key : Bytes) : List Act :=
  twoLogins ++ [.resume 1 (.recv (stubPacket 1 2 (sampleRespond response key))) sampleDraw]

/-- Connection 0 asks for the response, up to the lock. -/
def readActs : List Act := [.resume 0 (.recv (stubPacket 0 2 [0x5, 1])) sampleDraw]

/-- A coroutine is resumed that waits. -/
def goOn (c : ConnId) : Act := .resume c .go sampleDraw

/-- A response of one byte. -/
theorem response_path_sample : ∃ (S₂ S₃ : Sys ℕ) (o₃ : List (Obs ℕ)) (h : Handler) (reply : Bytes),
    S₂.step stub (goOn 0) = some (S₃, o₃) ∧ .answered 0 h.uuid h.data reply ∈ o₃ ∧
      Call.outcome reply (.readOutbox [1]) = some (.ok (.response ⟨[], [5], [1]⟩)) := by
  have hexec : ((Lts.exec (Sys.step stub) (respondActs [5] []) (.init [] false)).any fun x =>
      (x.1.tasks 1).handler?.any fun h => (x.1.step stub (goOn 1)).any fun y =>
        .answered 1 h.uuid (sampleRespond [5] []) ACK ∈ y.2 &&
        h.pc = .outboxPut 0 ⟨[], [5], [1]⟩ &&
        (Lts.exec (Sys.step stub) readActs y.1).any fun z => (z.1.tasks 0).handler?.any fun h₂ =>
          (z.1.step stub (goOn 0)).any fun _ => h₂.pc = .outboxGet 0 [1] &&
          Lts.Along (Sys.step stub) (fun S a _ => S.Unhandled 0 [1] a) readActs y.1 &&
          Sendable stub z.1.server h₂.uuid (.ok (bodyOf [[], [5]]))) = true := by decide +kernel
  have halong : Lts.Along (Sys.step stub) (fun _ _ _ => True) (respondActs [5] []) (.init [] false) := by
    decide +kernel
  obtain ⟨⟨S, os⟩, hS, hp⟩ := Option.any_eq_true _ _ |>.1 hexec
  obtain ⟨h, hh, hp⟩ := Option.any_eq_true _ _ |>.1 hp
  obtain ⟨⟨S₁, o⟩, hS₁, hp⟩ := Option.any_eq_true _ _ |>.1 hp
  simp only [Bool.and_eq_true, decide_eq_true_eq] at hp
  obtain ⟨⟨hans, hpc⟩, hp⟩ := hp
  obtain ⟨⟨S₂, os₂⟩, hS₂, hp⟩ := Option.any_eq_true _ _ |>.1 hp
  obtain ⟨h₂, hh₂, hp⟩ := Option.any_eq_true _ _ |>.1 hp
  obtain ⟨⟨S₃, o₃⟩, hS₃, hp⟩ := Option.any_eq_true _ _ |>.1 hp
  simp only [Bool.and_eq_true, decide_eq_true_eq] at hp
  obtain ⟨⟨hpc₂, hfree⟩, hsend⟩ := hp
  have hpay : (Call.respond (latin1 sampleUuid) [5] [] [1]).payload = .ok (sampleRespond [5] []) :=
    withLengths_eq 0x4 (by decide)
  obtain ⟨r, hr, -, hiff⟩ := response_path_iff stub (Lts.exec_run hS halong) (Task.eq_handler hh) hS₁
    hpay hans
  cases hpc.symm.trans hr
  obtain ⟨reply, hreply, hres⟩ := (hiff S₂ S₃ os₂ o₃ 0 h₂ sampleDraw (Lts.exec_run hS₂ hfree)
    (Task.eq_handler hh₂) hpc₂ hS₃).2 ⟨hsend, .inr (by simp), by decide⟩
  exact ⟨S₂, S₃, o₃, h₂, reply, hS₃, hreply, hres⟩

/-- **A response is lost.**  `respond` with no key and no bytes was answered; `read_outbox`
    rejects the reply, and the response is gone. -/
theorem response_lost : ∃ (S S₁ S₂ S₃ : Sys ℕ) (os o os₂ o₃ : List (Obs ℕ)) (h h₂ : Handler)
    (reply : Bytes),
    Lts.Run (Lts.Guarded (Sys.step stub) fun _ _ _ => True) (.init [] false) S os ∧
      S.tasks 1 = .handler h ∧ S.step stub (goOn 1) = some (S₁, o) ∧
      .answered 1 h.uuid (sampleRespond [] []) ACK ∈ o ∧
      (Call.respond (latin1 sampleUuid) [] [] [1]).payload = .ok (sampleRespond [] []) ∧
      h.pc = .outboxPut 0 ⟨[], [], [1]⟩ ∧
      Lts.Run (Lts.Guarded (Sys.step stub) fun S a _ => S.Unhandled 0 [1] a) S₁ S₂ os₂ ∧
      S₂.tasks 0 = .handler h₂ ∧ h₂.pc = .outboxGet 0 [1] ∧
      S₂.step stub (goOn 0) = some (S₃, o₃) ∧ .answered 0 h₂.uuid h₂.data reply ∈ o₃ ∧
      (∃ e, Call.outcome reply (.readOutbox [1]) = some (.error e)) ∧
      [1] ∉ (S₃.server.objs 0).outbox := by
  have hexec : ((Lts.exec (Sys.step stub) (respondActs [] []) (.init [] false)).any fun x =>
      (x.1.tasks 1).handler?.any fun h => (x.1.step stub (goOn 1)).any fun y =>
        .answered 1 h.uuid (sampleRespond [] []) ACK ∈ y.2 &&
        h.pc = .outboxPut 0 ⟨[], [], [1]⟩ &&
        (Lts.exec (Sys.step stub) readActs y.1).any fun z => (z.1.tasks 0).handler?.any fun h₂ =>
          (z.1.step stub (goOn 0)).any fun w => h₂.pc = .outboxGet 0 [1] &&
          Lts.Along (Sys.step stub) (fun S a _ => S.Unhandled 0 [1] a) readActs y.1 &&
          .answered 0 h₂.uuid h₂.data (List.replicate 8 0) ∈ w.2 &&
          [1] ∉ (w.1.server.objs 0).outbox) = true := by decide +kernel
  have halong : Lts.Along (Sys.step stub) (fun _ _ _ => True) (respondActs [] []) (.init [] false) := by
    decide +kernel
  obtain ⟨⟨S, os⟩, hS, hp⟩ := Option.any_eq_true _ _ |>.1 hexec
  obtain ⟨h, hh, hp⟩ := Option.any_eq_true _ _ |>.1 hp
  obtain ⟨⟨S₁, o⟩, hS₁, hp⟩ := Option.any_eq_true _ _ |>.1 hp
  simp only [Bool.and_eq_true, decide_eq_true_eq] at hp
  obtain ⟨⟨hans, hpc⟩, hp⟩ := hp
  obtain ⟨⟨S₂, os₂⟩, hS₂, hp⟩ := Option.any_eq_true _ _ |>.1 hp
  obtain ⟨h₂, hh₂, hp⟩ := Option.any_eq_true _ _ |>.1 hp
  obtain ⟨⟨S₃, o₃⟩, hS₃, hp⟩ := Option.any_eq_true _ _ |>.1 hp
  simp only [Bool.and_eq_true, decide_eq_true_eq] at hp
  obtain ⟨⟨⟨hpc₂, hfree⟩, hans₂⟩, hgone⟩ := hp
  exact ⟨S, S₁, S₂, S₃, os, o, os₂, o₃, h, h₂, List.replicate 8 0, Lts.exec_run hS halong,
    Task.eq_handler hh, hS₁, hans, withLengths_eq 0x4 (by decide), hpc, Lts.exec_run hS₂ hfree,
    Task.eq_handler hh₂, hpc₂, hS₃, hans₂, ⟨_, rfl⟩, hgone⟩

end Pipebomb
