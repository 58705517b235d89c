/-
  Bodies of several fields: the lengths of all fields, and then the fields.

  * `Body n value`: the body of `n` fields, with nothing missing and nothing left over.
  * `body_iff`: the server cuts the fields out of such a body, and their body is it again;
    `Call.payload` of a method with several arguments builds one (`withLengths_eq`).
  * `readRequest_inboxReply`, `readResponse_outboxReply`: the client reads back what the server
    replies.
-/
import Pipebomb.RawClient

namespace Pipebomb

open ByteString

/-- The lengths fit in 32 bits. -/
def AllShort (args : List Bytes) : Prop := ∀ a ∈ args, a.length < 2 ^ 32

instance (args : List Bytes) : Decidable (AllShort args) := inferInstanceAs (Decidable (∀ a ∈ args, _))

theorem allShort_nil : AllShort [] := List.forall_mem_nil _

theorem allShort_cons {a : Bytes} {args : List Bytes} :
    AllShort (a :: args) ↔ a.length < 2 ^ 32 ∧ AllShort args := List.forall_mem_cons

/-- The lengths of the fields. -/
def lengthsOf (args : List Bytes) : Bytes := ((args.map List.length).map (beBytes 4)).flatten

/-- The fields behind their lengths. -/
def bodyOf (args : List Bytes) : Bytes := lengthsOf args ++ args.flatten

/-- The body of `n` fields. -/
def Body (n : ℕ) (value : Bytes) : Prop :=
  ∃ args : List Bytes, args.length = n ∧ AllShort args ∧ value = bodyOf args

section
variable {args : List Bytes} {n : ℕ} {value : Bytes}

theorem lengthsOf_cons (a : Bytes) (args : List Bytes) :
    lengthsOf (a :: args) = beBytes 4 a.length ++ lengthsOf args := rfl

@[simp] theorem length_lengthsOf (args : List Bytes) : (lengthsOf args).length = 4 * args.length := by
  induction args with
  | nil => rfl
  | cons a args ih =>
    rw [lengthsOf_cons, List.length_append, ih, length_beBytes, List.length_cons]
    omega

theorem take_bodyOf (args : List Bytes) : (bodyOf args).take (4 * args.length) = lengthsOf args :=
  List.take_left' (length_lengthsOf args)

theorem unpackI_lengthsOf (h : AllShort args) :
    unpackI args.length (lengthsOf args) = .ok (args.map List.length) := by
  rw [unpackI, if_pos (length_lengthsOf args)]
  have hshort : ∀ n ∈ args.map List.length, n < 2 ^ 32 := by
    intro n hn
    obtain ⟨a, ha, rfl⟩ := List.mem_map.1 hn
    exact h a ha
  have hwords := wordsI_append hshort []
  rw [List.append_nil, List.length_map] at hwords
  exact congrArg Except.ok hwords

/-- **The fields are cut out of their body.** -/
theorem splitBody_bodyOf (h : AllShort args) : splitBody args.length (bodyOf args) = .ok args := by
  have hslices : slices (lengthsOf args ++ args.flatten) (args.map List.length)
    (lengthsOf args).length = args := slices_flatten (lengthsOf args)
  rw [length_lengthsOf] at hslices
  rw [splitBody, take_bodyOf, unpackI_lengthsOf h, ok_bind, bodyOf, hslices]

theorem splitBody_eq (hn : args.length = n) (h : AllShort args) : splitBody n (bodyOf args) = .ok args :=
  hn ▸ splitBody_bodyOf h

/-! ### Any body -/

theorem wordsI_lt : ∀ {n : ℕ} {bs : Bytes}, ∀ w ∈ wordsI n bs, w < 2 ^ 32
  | 0, _, w, h => by cases h
  | n + 1, bs, w, h => by
    rcases List.mem_cons.1 h with rfl | h
    · have hlt := beVal_lt (bs.take 4)
      have hlen : (bs.take 4).length ≤ 4 := List.length_take_le 4 bs
      exact Nat.lt_of_lt_of_le hlt (Nat.pow_le_pow_right (by decide) hlen)
    · exact wordsI_lt w h

/-- What is cut out of a body: a field is missing or short where the body ends. -/
theorem splitBody_ok {fields : List Bytes} : splitBody n value = .ok fields ↔
    4 * n ≤ value.length ∧ fields = slices value (wordsI n (value.take (4 * n))) (4 * n) := by
  rw [splitBody, unpackI, List.length_take]
  split_ifs with h
  · have hle : 4 * n ≤ value.length := by omega
    constructor
    · intro he
      exact ⟨hle, (Except.ok.inj he).symm⟩
    · rintro ⟨-, rfl⟩
      rfl
  · exact iff_of_false (fun he => by cases he) fun ⟨hle, _⟩ => h (by omega)

theorem splitBody_short {fields : List Bytes} (h : splitBody n value = .ok fields) :
    fields.length = n ∧ AllShort fields := by
  obtain ⟨-, rfl⟩ := splitBody_ok.1 h
  exact ⟨by rw [length_slices, length_wordsI], slices_short wordsI_lt⟩

/-- A body has `n` fields exactly if the fields that are cut out of it make it up. -/
theorem body_iff : Body n value ↔ ∃ fields, splitBody n value = .ok fields ∧ bodyOf fields = value := by
  constructor
  · rintro ⟨args, hn, hshort, rfl⟩
    exact ⟨args, splitBody_eq hn hshort, rfl⟩
  · rintro ⟨fields, hsplit, hbody⟩
    obtain ⟨hn, hshort⟩ := splitBody_short hsplit
    exact ⟨fields, hn, hshort, hbody.symm⟩

instance : Decidable (Body n value) :=
  match hsplit : splitBody n value with
  | .error _ => isFalse fun h => by
    obtain ⟨_, h, -⟩ := body_iff.1 h
    rw [hsplit] at h
    cases h
  | .ok fields => decidable_of_iff (bodyOf fields = value) ⟨fun h => body_iff.2 ⟨fields, hsplit, h⟩, fun h => by
    obtain ⟨_, h, h'⟩ := body_iff.1 h
    rw [hsplit] at h
    cases h
    exact h'⟩

theorem convertToLengthFormat_eq (h : AllShort args) :
    convertToLengthFormat args = .ok (lengthsOf args) := by
  induction args with
  | nil => rfl
  | cons a args ih =>
    rw [convertToLengthFormat, packI_eq (h a (by simp)), ok_bind, ih fun b hb => h b (by simp [hb]),
      ok_bind, lengthsOf_cons]

/-- The payload of a method with several arguments. -/
theorem withLengths_eq (opcode : UInt8) (h : AllShort args) :
    withLengths opcode args = .ok (opcode :: bodyOf args) := by
  rw [withLengths, convertToLengthFormat_eq h, ok_bind]
  rfl

theorem convertToLengthFormat_ok : ∀ {args : List Bytes} {bs : Bytes},
    convertToLengthFormat args = .ok bs → AllShort args
  | [], _, _ => fun _ h => absurd h (by simp)
  | a :: args, bs, h => by
    obtain ⟨length, ha, h⟩ := bind_eq_ok.1 h
    obtain ⟨rest, hrest, -⟩ := bind_eq_ok.1 h
    have hargs := convertToLengthFormat_ok hrest
    intro b hb
    rcases List.mem_cons.1 hb with rfl | hb
    · exact (packI_ok.1 ha).1
    · exact hargs b hb

/-- When a method with several arguments sends a payload. -/
theorem withLengths_ok {opcode : UInt8} {data : Bytes} :
    withLengths opcode args = .ok data ↔ AllShort args ∧ data = opcode :: bodyOf args := by
  constructor
  · intro h
    obtain ⟨lengths, hl, -⟩ := bind_eq_ok.1 h
    have hshort := convertToLengthFormat_ok hl
    exact ⟨hshort, Except.ok.inj (h.symm.trans (withLengths_eq opcode hshort))⟩
  · rintro ⟨hshort, rfl⟩
    exact withLengths_eq opcode hshort

end

/-! ## Replies -/

section
variable {q : Request} {p : Response} {reply : Bytes}

/-- The fields of a request, as the reply to GET_INBOX has them. -/
def Request.fields (q : Request) : List Bytes := [q.return_uuid, q.request, q.key, q.request_uuid]

/-- The fields of a response, as the reply to GET_OUTBOX has them. -/
def Response.fields (p : Response) : List Bytes := [p.key, p.response]

/-- When there is a reply to GET_INBOX. -/
theorem inboxReply_ok : inboxReply q = .ok reply ↔ AllShort q.fields ∧ reply = bodyOf q.fields := by
  constructor
  · intro h
    obtain ⟨a, ha, h⟩ := bind_eq_ok.1 h
    obtain ⟨b, hb, h⟩ := bind_eq_ok.1 h
    obtain ⟨c, hc, h⟩ := bind_eq_ok.1 h
    obtain ⟨d, hd, h⟩ := bind_eq_ok.1 h
    cases h
    obtain ⟨hna, rfl⟩ := packI_ok.1 ha
    obtain ⟨hnb, rfl⟩ := packI_ok.1 hb
    obtain ⟨hnc, rfl⟩ := packI_ok.1 hc
    obtain ⟨hnd, rfl⟩ := packI_ok.1 hd
    refine ⟨?_, by simp [bodyOf, lengthsOf, Request.fields]⟩
    simp only [Request.fields, allShort_cons]
    exact ⟨hna, hnb, hnc, hnd, allShort_nil⟩
  · rintro ⟨h, rfl⟩
    simp only [Request.fields, allShort_cons] at h
    obtain ⟨hna, hnb, hnc, hnd, -⟩ := h
    simp only [inboxReply, packI_eq hna, packI_eq hnb, packI_eq hnc, packI_eq hnd, ok_bind]
    simp [bodyOf, lengthsOf, Request.fields]

/-- When there is a reply to GET_OUTBOX. -/
theorem outboxReply_ok : outboxReply p = .ok reply ↔ AllShort p.fields ∧ reply = bodyOf p.fields := by
  constructor
  · intro h
    obtain ⟨a, ha, h⟩ := bind_eq_ok.1 h
    obtain ⟨b, hb, h⟩ := bind_eq_ok.1 h
    cases h
    obtain ⟨hna, rfl⟩ := packI_ok.1 ha
    obtain ⟨hnb, rfl⟩ := packI_ok.1 hb
    refine ⟨?_, by simp [bodyOf, lengthsOf, Response.fields]⟩
    simp only [Response.fields, allShort_cons]
    exact ⟨hna, hnb, allShort_nil⟩
  · rintro ⟨h, rfl⟩
    simp only [Response.fields, allShort_cons] at h
    obtain ⟨hna, hnb, -⟩ := h
    simp only [outboxReply, packI_eq hna, packI_eq hnb, ok_bind]
    simp [bodyOf, lengthsOf, Response.fields]

/-- `read_inbox` cuts a reply like the server cuts a body. -/
theorem readRequest_eq (res : Bytes) : Call.readRequest res = (do
    let fields ← splitBody 4 res
    match fields with
    | [uuid, req, key, reqUuid] => .ok ⟨uuid, key, req, reqUuid⟩
    | _ => .error .structError) := by
  rw [Call.readRequest, splitBody]
  rcases unpackI 4 (res.take (4 * 4)) with e | lengths
  · rfl
  · rfl

/-- The client reads back the request. -/
theorem readRequest_inboxReply (h : inboxReply q = .ok reply) : Call.readRequest reply = .ok q := by
  obtain ⟨hshort, rfl⟩ := inboxReply_ok.1 h
  rw [readRequest_eq, splitBody_eq (n := 4) rfl hshort]
  rfl

/-- The client reads back the response, if the reply is not taken for an error. -/
theorem readResponse_outboxReply (h : outboxReply p = .ok reply) (hlen : 9 ≤ reply.length) :
    Call.readResponse p.response_uuid reply = .ok p := by
  obtain ⟨hshort, rfl⟩ := outboxReply_ok.1 h
  have hsplit : splitBody 2 (bodyOf p.fields) = .ok p.fields := splitBody_eq rfl hshort
  rw [splitBody] at hsplit
  obtain ⟨lengths, hl, hs⟩ := bind_eq_ok.1 hsplit
  rw [Call.readResponse, if_neg (by omega), hl, ok_bind, Except.ok.inj hs]
  rfl

end

/-! ## `recv_loop` -/

/-- `recv_loop` takes the packet for an error of the server. -/
def Marked (packet : Bytes) : Prop := RawClient.ERR <+: packet ∧ packet ≠ RawClient.ERR_ACK

instance (packet : Bytes) : Decidable (Marked packet) := inferInstanceAs (Decidable (_ ∧ _))

/-- What a method returns or raises when the packet arrives; `recv_loop` ends at a marked
    packet, and the method that waits for it times out. -/
def Call.outcome (reply : Bytes) (call : Call) : Option (Except PyErr Value) :=
  if Marked reply then none else some (call.result reply)

/-- The body of `recv_loop` for a packet that verifies. -/
theorem recvFrame_payload {K : Type} (L : Libs K) {o : RawClient.After K} {frame packet : Bytes}
    {rem : Option Bytes} (hv : verifyPacket L frame o.1.cipher o.1.rxNonce = .ok (.payload packet rem))
    (hack : packet ≠ RawClient.ERR_ACK) :
    if Marked packet then (RawClient.recvFrame L o frame).2 ≠ none
    else (RawClient.recvFrame L o frame).2 = none ∧
      (RawClient.recvFrame L o frame).1.1.inputPackets = o.1.inputPackets ++ [packet] := by
  simp only [RawClient.recvFrame, hv, hack, false_and, if_false]
  split_ifs with hm hm' hm'
  · exact Option.some_ne_none _
  · exact absurd hm hm'
  · exact absurd hm' hm
  · exact ⟨rfl, rfl⟩

end Pipebomb
