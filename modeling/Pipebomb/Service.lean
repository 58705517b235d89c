/-
  The service of a payload: one reply, and nothing changed by an error.

  A handler works on a payload in up to three steps: it accepts it, it gets the lock or the
  item that it waits for, and its send ends.  An exception in any of them ends it.

  * `Served`: what a step has to do for the payload.
  * `Command.Ready`, `Await.Ready`: when the code of a command raises no exception, in terms
    of the body of the payload and of the state.
  * `dispatch_ready`, `reply_ready`: the code up to the reply, and the reply of a handler
    that waited.
  * `served_iff`: all payloads of a run are served exactly if all were ready.
-/
import Pipebomb.Grammar
import Pipebomb.Uuids
import Pipebomb.Teardown

namespace Pipebomb

open ByteString

variable {K : Type} (L : Libs K)

/-! ## What an error may not change -/

/-- The database, the address book, and what belongs to the clients stay the same. -/
structure Unchanged (s s' : Server K) : Prop where
  db : s'.db = s.db
  addressBook : s'.addressBook = s.addressBook
  clients : ∀ r, (s'.objs r).addressesOwned = (s.objs r).addressesOwned ∧
    (s'.objs r).inbox = (s.objs r).inbox ∧ (s'.objs r).outbox = (s.objs r).outbox

theorem Unchanged.refl (s : Server K) : Unchanged s s := ⟨rfl, rfl, fun _ => ⟨rfl, rfl, rfl⟩⟩

theorem Unchanged.trans {s s' s'' : Server K} (h : Unchanged s s') (h' : Unchanged s' s'') :
    Unchanged s s'' :=
  ⟨h'.db.trans h.db, h'.addressBook.trans h.addressBook, fun r =>
    ⟨(h'.clients r).1.trans (h.clients r).1, (h'.clients r).2.1.trans (h.clients r).2.1,
      (h'.clients r).2.2.trans (h.clients r).2.2⟩⟩

theorem Unchanged.modify {f : Client K → Client K} (s : Server K) (r : Ref)
    (hf : ∀ cl, (f cl).addressesOwned = cl.addressesOwned ∧ (f cl).inbox = cl.inbox ∧
      (f cl).outbox = cl.outbox) : Unchanged s (s.modify r f) := by
  refine ⟨rfl, rfl, fun r' => ?_⟩
  rw [Server.modify_objs]
  split_ifs
  · exact hf _
  · exact ⟨rfl, rfl, rfl⟩

theorem Unchanged.received (s : Server K) (r : Ref) : Unchanged s (s.modify r Client.received) :=
  .modify s r fun _ => ⟨rfl, rfl, rfl⟩

/-- A reply that is an error. -/
def IsError (reply : Bytes) : Prop := ∃ n, errDispatch n = .ok reply

theorem IsError.length {reply : Bytes} (h : IsError reply) : reply.length = 5 := by
  obtain ⟨n, h⟩ := h
  unfold errDispatch at h
  split_ifs at h
  cases h
  rfl

theorem ack_not_error : ¬ IsError ACK := by
  rintro ⟨n, h⟩
  unfold errDispatch at h
  split_ifs at h with hn
  obtain ⟨h2, h7⟩ := hn
  have hne : ∀ m ≤ 7, 2 ≤ m → UInt8.ofNat m ≠ 0 := by decide
  exact hne n h7 h2 (by simpa [ACK] using h)

/-! ## Commands up to their reply -/

/-- The first field of a body with `n` lengths. -/
def target (n : ℕ) (value : Bytes) : PyStr :=
  latin1Decode (slice value (4 * n) (4 * n + beVal (value.take 4)))

/-- The code of a command up to its reply raises no exception, and the reply can be sent. -/
def Command.Ready (s : Server K) (u : PyStr) (value : Bytes) : Command → Prop
  | .db _ | .bye | .getInbox | .getOutbox => True
  | .register | .whoami | .unknown => s.HasNonce u
  | .unregister => s.HasNonce u ∧ (latin1Decode value ∈ s.names u → latin1Decode value ∈ s.addressBook)
  | .whohas => s.HasNonce u ∧ ∀ v, s.addressBook.get? (latin1Decode value) = some v → Latin1 v
  | .putInbox => s.HasNonce u ∧ 12 ≤ value.length ∧ target 3 value ∈ s.clientDb
  | .putOutbox => 16 ≤ value.length ∧ target 4 value ∈ s.clientDb

/-- What `dispatch` ends with can go on. -/
def GoesOn (u : PyStr) (o : Server K × Next) : Prop :=
  match o.2 with
  | .reply y => Sendable L o.1 u (.ok y)
  | .wait _ | .bye => True
  | .raise _ => False

section
variable {s : Server K} {u : PyStr} {r : Ref} {data value y : Bytes} {draw : Uuid4} {n : ℕ}

theorem splitBody_target (hn : 0 < n) (hlen : 4 * n ≤ value.length) : ∃ field fields,
    splitBody n value = .ok (field :: fields) ∧ fields.length + 1 = n ∧
      latin1Decode field = target n value := by
  obtain ⟨m, rfl⟩ : ∃ m, n = m + 1 := ⟨n - 1, by omega⟩
  refine ⟨_, _, splitBody_ok.2 ⟨hlen, rfl⟩, ?_, ?_⟩
  · rw [length_slices, length_wordsI]
  · rw [target, List.take_take, Nat.min_eq_left (by omega)]

theorem splitBody_error (hlen : ¬ 4 * n ≤ value.length) : ∃ e, splitBody n value = .error e := by
  rcases h : splitBody n value with e | fields
  · exact ⟨e, rfl⟩
  · exact absurd (splitBody_ok.1 h).1 hlen

/-- A command whose reply is short needs a nonce. -/
theorem goes_reply (hr : s.clientDb.get? u = some r) (hk : (s.objs r).cipher.isSome)
    (hy : (dispatch (s.modify r Client.received) u data draw).2 = .reply y) (hne : y ≠ [])
    (hlen : y.length ≤ 36) :
    GoesOn L u (dispatch (s.modify r Client.received) u data draw) ↔ s.HasNonce u := by
  rw [GoesOn, hy]
  exact (sendable_dispatch L hr hk).trans
    ⟨fun h => h.1, fun h => ⟨h, hne, fits_of_length L (by omega)⟩⟩

theorem not_goes_raise {o : Server K × Next} {e : PyErr} (ho : o.2 = .raise e) : ¬ GoesOn L u o := by
  rw [GoesOn, ho]
  exact id

/-- **When the code of a command can go on.** -/
theorem dispatch_ready {type_ : UInt8} (hr : s.clientDb.get? u = some r)
    (hk : (s.objs r).cipher.isSome) (hu : IsUuid u)
    (hbook : ∀ n v, s.addressBook.get? n = some v → v.length = 36) (hd : draw.Valid) :
    GoesOn L u (dispatch (s.modify r Client.received) u (type_ :: value) draw) ↔
      (command type_).Ready s u value := by
  have hshort : ∀ y, (dispatch (s.modify r Client.received) u (type_ :: value) draw).2 = .reply y →
      y ≠ [] → y.length ≤ 36 →
      (GoesOn L u (dispatch (s.modify r Client.received) u (type_ :: value) draw) ↔ s.HasNonce u) :=
    fun y => goes_reply L hr hk
  have hcl : (s.modify r Client.received).clientDb.get? u = some r := hr
  cases hc : command type_ with
  | db op => simp [GoesOn, dispatch, hc, Command.Ready]
  | bye => simp [GoesOn, dispatch, hc, Command.Ready]
  | getInbox => simp [GoesOn, dispatch, hc, hr, Command.Ready]
  | getOutbox => simp [GoesOn, dispatch, hc, hr, Command.Ready]
  | unknown =>
    refine hshort [0, 69, 82, 82, 4] ?_ (by simp) (by decide)
    simp only [dispatch, hc]
    rfl
  | whoami =>
    refine hshort (latin1 u) ?_ ?_ ?_
    · simp only [dispatch, hc, latin1Encode_eq hu.2]
      rfl
    · rw [← List.length_pos_iff, latin1, List.length_map, hu.1]
      decide
    · rw [latin1, List.length_map, hu.1]
  | register =>
    by_cases hname : latin1Decode value ∈ (s.modify r Client.received).addressBook
    · refine hshort [0, 69, 82, 82, 5] ?_ (by simp) (by decide)
      simp only [dispatch, hc, register, if_pos hname]
      rfl
    · refine hshort ACK ?_ (by decide) (by decide)
      simp only [dispatch, hc, register, if_neg hname, hcl]
  | unregister =>
    have howned : ((s.modify r Client.received).objs r).addressesOwned = s.names u := by
      rw [Server.modify_objs_self, Server.names, Server.client, hr]
      rfl
    by_cases hname : latin1Decode value ∈ s.names u
    · by_cases hbook : latin1Decode value ∈ s.addressBook
      · have hbook' : latin1Decode value ∈ ((s.modify r Client.received).modify r
          (Client.disown (latin1Decode value))).addressBook := hbook
        refine (hshort ACK ?_ (by decide) (by decide)).trans ?_
        · simp only [dispatch, hc, unregister, hcl, howned, hname, not_true_eq_false, if_false,
            if_pos hbook']
        · exact ⟨fun h => ⟨h, fun _ => hbook⟩, fun h => h.1⟩
      · -- `address_book.pop` raises
        have hbook' : latin1Decode value ∉ ((s.modify r Client.received).modify r
          (Client.disown (latin1Decode value))).addressBook := hbook
        refine iff_of_false (not_goes_raise L (e := .keyError) ?_) fun h => hbook (h.2 hname)
        simp only [dispatch, hc, unregister, hcl, howned, hname, not_true_eq_false, if_false,
          if_neg hbook']
    · refine (hshort [0, 69, 82, 82, 5] ?_ (by simp) (by decide)).trans ?_
      · simp only [dispatch, hc, unregister, hcl, howned, hname, not_false_eq_true, if_true]
        rfl
      · exact ⟨fun h => ⟨h, fun h => absurd h hname⟩, fun h => h.1⟩
  | whohas =>
    rcases hv : s.addressBook.get? (latin1Decode value) with _ | v
    · have hv' : (s.modify r Client.received).addressBook.get? (latin1Decode value) = none := hv
      refine (hshort [0, 69, 82, 82, 5] ?_ (by simp) (by decide)).trans ?_
      · simp only [dispatch, hc, whohas, hv']
        rfl
      · exact ⟨fun h => ⟨h, fun _ h => by rw [hv] at h; cases h⟩, fun h => h.1⟩
    · have hv' : (s.modify r Client.received).addressBook.get? (latin1Decode value) = some v := hv
      have hlen : (latin1 v).length = 36 := by rw [latin1, List.length_map, hbook _ _ hv]
      by_cases hlatin : Latin1 v
      · refine (hshort (latin1 v) ?_ ?_ (Nat.le_of_eq hlen)).trans ?_
        · simp only [dispatch, hc, whohas, hv', latin1Encode_eq hlatin]
          rfl
        · rw [← List.length_pos_iff, hlen]
          decide
        · exact ⟨fun h => ⟨h, fun _ h' => by rw [hv] at h'; cases h'; exact hlatin⟩, fun h => h.1⟩
      · -- the uuid is not in latin-1
        rcases he : latin1Encode v with e | bs
        · refine iff_of_false (not_goes_raise L (e := e) ?_) fun h => hlatin (h.2 v hv)
          simp only [dispatch, hc, whohas, hv', he]
          rfl
        · exact absurd (latin1Encode_ok he).1 hlatin
  | putInbox =>
    by_cases hlen : 12 ≤ value.length
    · obtain ⟨field, fields, hsplit, hn, htarget⟩ := splitBody_target (n := 3) (by decide) hlen
      obtain ⟨request, key, rfl⟩ := List.length_eq_two.1 (Nat.succ.inj hn)
      rcases ht : s.clientDb.get? (target 3 value) with _ | r'
      · refine iff_of_false (not_goes_raise L (e := .keyError) ?_) fun h => ?_
        · simp only [dispatch, hc, putInbox, hsplit, htarget, Server.modify_clientDb, ht]
        · obtain ⟨_, h⟩ := Dict.mem_iff.1 h.2.2
          rw [ht] at h
          cases h
      · refine (hshort draw.bytes ?_ ?_ ?_).trans ?_
        · simp only [dispatch, hc, putInbox, hsplit, htarget, Server.modify_clientDb, ht,
            latin1Encode_eq hu.2]
        · rw [← List.length_pos_iff, hd.bytes]
          decide
        · rw [hd.bytes]
          decide
        · exact ⟨fun h => ⟨h, hlen, Dict.mem_of_get? ht⟩, fun h => h.1⟩
    · obtain ⟨e, he⟩ := splitBody_error (n := 3) hlen
      refine iff_of_false (not_goes_raise L (e := e) ?_) fun h => hlen h.2.1
      simp only [dispatch, hc, putInbox, he]
  | putOutbox =>
    by_cases hlen : 16 ≤ value.length
    · obtain ⟨field, fields, hsplit, hn, htarget⟩ := splitBody_target (n := 4) (by decide) hlen
      obtain ⟨response, key, id, rfl⟩ := List.length_eq_three.1 (Nat.succ.inj hn)
      rcases ht : s.clientDb.get? (target 4 value) with _ | r'
      · refine iff_of_false (not_goes_raise L (e := .keyError) ?_) fun h => ?_
        · simp only [dispatch, hc, putOutbox, hsplit, htarget, Server.modify_clientDb, ht]
        · obtain ⟨_, h⟩ := Dict.mem_iff.1 h.2
          rw [ht] at h
          cases h
      · refine iff_of_true ?_ ⟨hlen, Dict.mem_of_get? ht⟩
        simp only [GoesOn, dispatch, hc, putOutbox, hsplit, htarget, Server.modify_clientDb, ht]
    · obtain ⟨e, he⟩ := splitBody_error (n := 4) hlen
      refine iff_of_false (not_goes_raise L (e := e) ?_) fun h => hlen h.1
      simp only [dispatch, hc, putOutbox, he]

/-- A command that waits, or that is answered with an error, changes nothing. -/
theorem dispatch_unchanged {type_ : UInt8} (hd : draw.Valid)
    (hraise : ∀ e, (dispatch s u (type_ :: value) draw).2 ≠ .raise e)
    (herr : ∀ y, (dispatch s u (type_ :: value) draw).2 = .reply y → IsError y) :
    Unchanged s (dispatch s u (type_ :: value) draw).1 := by
  cases hc : command type_ with
  | register =>
    simp only [dispatch, hc, register] at hraise herr ⊢
    split_ifs at herr ⊢
    · exact .refl s
    · split at herr
      · exact .refl s
      · exact absurd (herr ACK rfl) ack_not_error
  | unregister =>
    rcases hr : s.clientDb.get? u with _ | r
    · simp only [dispatch, hc, unregister, hr]
      exact .refl s
    · by_cases hname : latin1Decode value ∈ (s.objs r).addressesOwned
      · by_cases hbook : latin1Decode value ∈ (s.modify r (Client.disown (latin1Decode value))).addressBook
        · refine absurd (herr ACK ?_) ack_not_error
          simp only [dispatch, hc, unregister, hr, hname, not_true_eq_false, if_false, if_pos hbook]
        · refine absurd ?_ (hraise .keyError)
          simp only [dispatch, hc, unregister, hr, hname, not_true_eq_false, if_false, if_neg hbook]
      · simp only [dispatch, hc, unregister, hr, hname, not_false_eq_true, if_true]
        exact .refl s
  | putInbox =>
    simp only [dispatch, hc, putInbox] at herr ⊢
    split at herr
    · split at herr
      · exact .refl s
      · split at herr
        · exact .refl s
        · have hlen := (herr draw.bytes rfl).length
          rw [hd.bytes] at hlen
          cases hlen
    · exact .refl s
    · exact .refl s
  | getInbox =>
    simp only [dispatch, hc]
    split <;> exact .refl s
  | getOutbox =>
    simp only [dispatch, hc]
    split <;> exact .refl s
  | _ =>
    simp only [dispatch, hc]
    exact .refl s

end

/-! ## The reply of a handler that waited -/

/-- The reply of a handler that waits can be made and sent. -/
def Await.Ready (s : Server K) (value : Bytes) : Await → Prop
  | .dbLock .set => 8 ≤ value.length
  | .dbLock .get => ∀ v, s.db.get? value = some v → v ≠ [] ∧ Fits L v
  | .dbLock .list => ∀ reply, listReply s.db = .ok reply → Fits L reply
  | .inboxGet r => ∀ q ∈ (s.objs r).inbox.head?, AllShort q.fields ∧ Fits L (bodyOf q.fields)
  | .outboxGet r id => ∀ p, (s.objs r).outbox.get? id = some p →
    AllShort p.fields ∧ Fits L (bodyOf p.fields)
  | _ => True

/-- The session is there and has a cipher and a nonce left. -/
def Server.CanSend (s : Server K) (u : PyStr) : Prop :=
  ∃ cl, s.client u = some cl ∧ cl.cipher.isSome ∧ cl.txNonce < 2 ^ 96

section
variable {s : Server K} {u : PyStr} {data y : Bytes} {reply : Except PyErr Bytes} {pc : Await}

theorem sendable_iff : Sendable L s u reply ↔
    s.CanSend u ∧ ∃ y, reply = .ok y ∧ y ≠ [] ∧ Fits L y := by
  cases reply with
  | error e => exact ⟨False.elim, fun ⟨_, _, h, _⟩ => by cases h⟩
  | ok y =>
    rw [sendable_ok]
    constructor
    · rintro ⟨cl, hcl, hk, hn, hy⟩
      exact ⟨⟨cl, hcl, hk, hn⟩, y, rfl, hy⟩
    · rintro ⟨⟨cl, hcl, hk, hn⟩, _, h, hy⟩
      cases h
      exact ⟨cl, hcl, hk, hn, hy⟩

/-- LIST always has a reply. -/
theorem listReply_ok (db : Dict Bytes Bytes) : ∃ reply, listReply db = .ok reply ∧ reply ≠ [] :=
  ⟨_, latin1Encode_eq (jsonDumps_latin1 _), by simp [latin1, jsonDumps]⟩

theorem bodyOf_ne_nil {args : List Bytes} (h : args ≠ []) : bodyOf args ≠ [] := by
  have hpos := List.length_pos_iff.2 h
  rw [← List.length_pos_iff, bodyOf, List.length_append, length_lengthsOf]
  omega

theorem short_reply (hne : y ≠ []) (hlen : y.length ≤ 36) :
    ∃ y', (.ok y : Except PyErr Bytes) = .ok y' ∧ y' ≠ [] ∧ Fits L y' :=
  ⟨y, rfl, hne, fits_of_length L (by omega)⟩

/-- **When a handler that waited can reply.** -/
theorem reply_ready (hq : pc.Queues) (hreply : pc.reply s data = some reply) :
    Sendable L s u reply ↔ s.CanSend u ∧ pc.Ready L s data.tail := by
  rw [sendable_iff]
  refine and_congr_right fun _ => ?_
  cases pc with
  | dbLock op =>
    simp only [Await.reply] at hreply
    split_ifs at hreply
    cases hreply
    cases op with
    | set =>
      simp only [DbOp.run, Await.Ready]
      by_cases hlen : 8 ≤ data.tail.length
      · obtain ⟨field, fields, hsplit, hn, -⟩ := splitBody_target (n := 2) (by decide) hlen
        obtain ⟨v, rfl⟩ := List.length_eq_one_iff.1 (Nat.succ.inj hn)
        rw [hsplit]
        exact iff_of_true (short_reply L (by decide) (by decide)) hlen
      · obtain ⟨e, he⟩ := splitBody_error (n := 2) hlen
        rw [he]
        exact iff_of_false (by rintro ⟨_, h, -⟩; cases h) hlen
    | get =>
      simp only [DbOp.run, Await.Ready, lookupReply]
      have hdb : (s.setDbLock true).db = s.db := rfl
      rw [hdb]
      rcases hv : s.db.get? data.tail with _ | v
      · exact iff_of_true (short_reply L (by simp) (by decide)) fun _ h => by cases h
      · constructor
        · rintro ⟨_, h, hy⟩ _ hv'
          cases h
          cases hv'
          exact hy
        · intro h
          exact ⟨v, rfl, h v rfl⟩
    | delete =>
      simp only [DbOp.run, Await.Ready]
      split_ifs
      · exact iff_of_true (short_reply L (by decide) (by decide)) trivial
      · exact iff_of_true (short_reply L (by simp) (by decide)) trivial
    | list =>
      obtain ⟨bs, hbs, hne⟩ := listReply_ok s.db
      simp only [DbOp.run, Await.Ready]
      have hdb : (s.setDbLock true).db = s.db := rfl
      rw [hdb, hbs]
      constructor
      · rintro ⟨_, h, -, hf⟩ _ h'
        cases h
        cases h'
        exact hf
      · intro h
        exact ⟨bs, rfl, hne, h bs rfl⟩
  | inboxGet r =>
    simp only [Await.reply] at hreply
    rcases hbox : (s.objs r).inbox.head? with _ | q
    · rw [hbox] at hreply
      cases hreply
    · rw [hbox] at hreply
      cases hreply
      simp only [Await.Ready, hbox, Option.mem_some, forall_eq', inboxReply_ok]
      constructor
      · rintro ⟨_, ⟨hshort, rfl⟩, -, hf⟩
        exact ⟨hshort, hf⟩
      · rintro ⟨hshort, hf⟩
        exact ⟨_, ⟨hshort, rfl⟩, bodyOf_ne_nil (by simp [Request.fields]), hf⟩
  | outboxPut r p =>
    simp only [Await.reply] at hreply
    split_ifs at hreply
    cases hreply
    exact iff_of_true (short_reply L (by decide) (by decide)) trivial
  | outboxGet r id =>
    simp only [Await.reply] at hreply
    split_ifs at hreply
    simp only [Await.Ready]
    rcases hg : (s.objs r).outbox.get? id with _ | p
    · rw [hg] at hreply
      cases hreply
      exact iff_of_true (short_reply L (by simp) (by decide)) fun _ h => by cases h
    · rw [hg] at hreply
      cases hreply
      simp only [Option.some.injEq, forall_eq', outboxReply_ok]
      constructor
      · rintro ⟨_, ⟨hshort, rfl⟩, -, hf⟩
        exact ⟨hshort, hf⟩
      · rintro ⟨hshort, hf⟩
        exact ⟨_, ⟨hshort, rfl⟩, bodyOf_ne_nil (by simp [Response.fields]), hf⟩
  | _ => exact hq.elim

/-- A handler that waited and replies with an error changes nothing. -/
theorem take_unchanged (hreply : pc.reply s data = some (.ok y)) (herr : IsError y) :
    Unchanged s (pc.take s data) := by
  have hlong : ∀ args : List Bytes, 2 ≤ args.length → y ≠ bodyOf args := by
    rintro args hargs rfl
    have hlen := herr.length
    rw [bodyOf, List.length_append, length_lengthsOf] at hlen
    omega
  have hack : y ≠ ACK := by
    rintro rfl
    exact ack_not_error herr
  have hlock : Unchanged s (s.setDbLock true) := ⟨rfl, rfl, fun _ => ⟨rfl, rfl, rfl⟩⟩
  cases pc with
  | dbLock op =>
    simp only [Await.reply] at hreply
    split_ifs at hreply
    simp only [Await.take]
    cases op with
    | set =>
      simp only [DbOp.run] at hreply ⊢
      split at hreply
      · cases hreply
        exact absurd rfl hack
      · cases hreply
      · cases hreply
    | get => exact hlock
    | delete =>
      simp only [DbOp.run] at hreply ⊢
      split_ifs at hreply ⊢
      · cases hreply
        exact absurd rfl hack
      · exact hlock
    | list => exact hlock
  | inboxGet r =>
    simp only [Await.reply] at hreply
    rcases hbox : (s.objs r).inbox.head? with _ | q
    · rw [hbox] at hreply
      cases hreply
    · rw [hbox] at hreply
      exact absurd (inboxReply_ok.1 (Option.some.inj hreply)).2 (hlong _ (by simp [Request.fields]))
  | outboxPut r p =>
    simp only [Await.reply] at hreply
    split_ifs at hreply
    cases hreply
    exact absurd rfl hack
  | outboxGet r id =>
    simp only [Await.reply] at hreply
    split_ifs at hreply
    simp only [Await.take]
    rcases hg : (s.objs r).outbox.get? id with _ | p
    · exact .modify s r fun _ => ⟨rfl, rfl, rfl⟩
    · rw [hg] at hreply
      exact absurd (outboxReply_ok.1 (Option.some.inj hreply)).2 (hlong _ (by simp [Response.fields]))
  | _ => cases hreply

end

/-! ## What a step sends -/

/-- The bytes that were handed to a socket. -/
def writtenIn (os : List (Obs K)) : List Bytes :=
  os.filterMap fun
    | .write _ bs => some bs
    | _ => none

/-- The payloads that were answered, with the replies. -/
def answersIn (os : List (Obs K)) : List (PyStr × Bytes × Bytes) :=
  os.filterMap fun
    | .answered _ u data reply => some (u, data, reply)
    | _ => none

/-- At most one packet is written, and then the coroutine waits for the end of its send. -/
def WritesOne {A : Type} (out : Outcome K A) : Prop :=
  writtenIn out.2.2 = [] ∨ ∃ pkt h held after, out.2.1 = .handler h ∧ h.pc = .sendall held after ∧
    writtenIn out.2.2 = [pkt]

section
variable {A : Type} {s : Server K} {c : ConnId} {h : Handler} {i : Input} {draw : Uuid4}
  {out : Outcome K A} {os os' : List (Obs K)}

theorem writtenIn_append : writtenIn (os ++ os') = writtenIn os ++ writtenIn os' := List.filterMap_append

theorem answersIn_append : answersIn (os ++ os') = answersIn os ++ answersIn os' := List.filterMap_append

theorem Inner.answersIn (hin : Inner os) : answersIn os = [] := by
  refine List.filterMap_eq_nil_iff.2 fun x hx => ?_
  have := hin x hx
  cases x <;> first | rfl | exact False.elim this

@[simp] theorem writtenIn_encryptCall (p : Party) (data : Bytes) (cipher : Option K) (n : ℕ) :
    writtenIn (encryptCall p data cipher n) = [] := by
  unfold encryptCall
  split
  · rfl
  · split_ifs <;> rfl

@[simp] theorem writtenIn_decryptCall (p : Party) (packet : Bytes) (cipher : Option K) (n : ℕ) :
    writtenIn (decryptCall p packet cipher n) = [] := by
  unfold decryptCall
  split
  · split_ifs <;> rfl
  · rfl

theorem WritesOne.seen (hout : WritesOne out) (hos : writtenIn os = []) :
    WritesOne (Pipebomb.seen os out) := by
  rwa [WritesOne, seen_obs, writtenIn_append, hos, List.nil_append]

theorem sendReply_writesOne (reply : Except PyErr Bytes) (held : Held) (after : After) :
    WritesOne (sendReply L s c h reply held after : Outcome K A) := by
  cases reply with
  | error e => exact .inl rfl
  | ok data =>
    simp only [sendReply, sendPacket]
    split
    · exact .inl rfl
    · refine WritesOne.seen ?_ (writtenIn_encryptCall _ _ _ _)
      split
      · exact .inl rfl
      · rename_i pkt _
        refine .inr ⟨pkt, _, held, after, rfl, rfl, ?_⟩
        cases after <;> rfl

theorem proceed_writesOne (o : Server K × Next) : WritesOne (proceed L c h o : Outcome K A) := by
  unfold proceed
  split
  · exact sendReply_writesOne L (.ok _) .none .next
  · exact .inl rfl
  · exact .inl rfl
  · exact .inl rfl

theorem onFrame_writesOne (frame : Option Bytes) :
    WritesOne (onFrame L s c h frame draw : Outcome K A) := by
  unfold onFrame
  split
  · exact .inl rfl
  · exact .inl rfl
  · refine WritesOne.seen ?_ (writtenIn_decryptCall _ _ _ _)
    split
    · exact .inl rfl
    · exact sendReply_writesOne L _ _ _
    · exact (proceed_writesOne L _).seen rfl

theorem pump_writesOne : WritesOne (pump L s c h draw : Outcome K A) := by
  unfold pump
  split
  · split
    · exact .inl rfl
    · exact .inr ⟨_, _, _, _, rfl, rfl, rfl⟩
  · exact onFrame_writesOne L _
  · exact .inl rfl

/-- **A step of a handler writes one packet at most.** -/
theorem handlerStep_writesOne (ho : handlerStep L s c h i draw = some out) : WritesOne out := by
  unfold handlerStep at ho
  split at ho
  · cases ho
    unfold started
    split
    · exact .inl rfl
    · split_ifs <;> exact .inl rfl
  · cases ho
    exact pump_writesOne L
  · split_ifs at ho
    · cases ho; exact onFrame_writesOne L _
    · cases ho; exact pump_writesOne L
  · split_ifs at ho
    cases ho; exact sendReply_writesOne L _ _ _
  · split at ho
    · cases ho
    · cases ho; exact sendReply_writesOne L _ _ _
  · split_ifs at ho
    cases ho; exact sendReply_writesOne L (.ok _) _ _
  · split_ifs at ho
    simp only at ho
    split at ho
    · cases ho; exact sendReply_writesOne L _ _ _
    · cases ho; exact sendReply_writesOne L _ _ _
  · cases ho
    unfold onSent
    split
    · exact onFrame_writesOne L _
    · split <;> exact .inl rfl
    · split <;> exact .inl rfl
  · cases ho; exact .inl rfl
  · cases ho

end

/-! ## Steps -/

/-- One packet is sent, with the reply to the payload; an error changes nothing. -/
def Answers (S S' : Sys K) (o : List (Obs K)) (c : ConnId) (u : PyStr) (data : Bytes) : Prop :=
  ∃ h held pkt reply, S'.tasks c = .handler h ∧ h.pc = .sendall held .next ∧
    writtenIn o = [pkt] ∧ answersIn o = [(u, data, reply)] ∧
    (IsError reply → Unchanged S.server S'.server)

/-- Nothing is sent. -/
def Silent (o : List (Obs K)) : Prop := writtenIn o = [] ∧ answersIn o = []

/-- The handler waits with the payload for a lock or an item, and changed nothing. -/
def Waits (S S' : Sys K) (o : List (Obs K)) (c : ConnId) (u : PyStr) (data : Bytes) : Prop :=
  ∃ h, S'.tasks c = .handler h ∧ h.uuid = u ∧ h.data = data ∧ h.pc.Queues ∧ Silent o ∧
    Unchanged S.server S'.server

/-- The payload is BYE and the handler ends, with no exception. -/
def Leaves (S' : Sys K) (o : List (Obs K)) (c : ConnId) (data : Bytes) : Prop :=
  (∃ type_ value, data = type_ :: value ∧ command type_ = .bye) ∧ S'.tasks c = .over none ∧ Silent o

/-- The handler goes on to the next payload. -/
def Resumes (S' : Sys K) (o : List (Obs K)) (c : ConnId) : Prop :=
  ∃ h, S'.tasks c = .handler h ∧ h.pc = .sleep ∧ Silent o

/-- The await of a handler that sends a reply. -/
def Await.Sending : Await → Prop
  | .sendall _ .next => True
  | _ => False

section
variable {S S' : Sys K} {c : ConnId} {h : Handler} {i : Input} {draw : Uuid4} {o : List (Obs K)}
  {type_ : UInt8} {value : Bytes}

/-- A coroutine that an exception ended serves nothing. -/
theorem not_served_over {data : Bytes} {u : PyStr} {s : Server K} {e : PyErr} :
    ¬ (Answers S (S.put c s (.over (some e))) o c u data ∨
      Waits S (S.put c s (.over (some e))) o c u data ∨ Leaves (S.put c s (.over (some e))) o c data) := by
  rintro (⟨_, _, _, _, h, -⟩ | ⟨_, h, -⟩ | ⟨-, h, -⟩)
  · rw [put_tasks_self] at h
    cases h
  · rw [put_tasks_self] at h
    cases h
  · rw [put_tasks_self] at h
    cases h

/-- What a step of a handler writes. -/
theorem step_writtenIn (hh : S.tasks c = .handler h) (hstep : S.step L (.resume c i draw) = some (S', o)) :
    writtenIn o = [] ∨ ∃ pkt h' held after, S'.tasks c = .handler h' ∧ h'.pc = .sendall held after ∧
      writtenIn o = [pkt] := by
  obtain ⟨s, t, ho, rfl⟩ := step_handler L hh hstep
  rw [put_tasks_self]
  exact handlerStep_writesOne L ho

/-- **A step that accepts a payload.** -/
theorem accepted_served_iff (hU : S.Uuids) (hd : draw.Valid) (hh : S.tasks c = .handler h)
    (hstep : S.step L (.resume c i draw) = some (S', o))
    (ha : .accepted (.server c) (type_ :: value) ∈ o) :
    Answers S S' o c h.uuid (type_ :: value) ∨ Waits S S' o c h.uuid (type_ :: value) ∨
        Leaves S' o c (type_ :: value) ↔
      (command type_).Ready S.server h.uuid value := by
  have hwritten := step_writtenIn L hh hstep
  obtain ⟨r, h', os, s, t, -, hr, hk, hu, hdata, hin, rfl, hout⟩ := step_accepted L hh hstep ha
  rw [put_tasks_self] at hwritten
  have huuid : IsUuid h.uuid := hU.tasks c h.uuid (by rw [hh]; rfl)
  rw [← dispatch_ready L hr hk huuid hU.book hd]
  have hanswers : answersIn (os ++ [.accepted (.server c) (type_ :: value)]) = [] := by
    rw [answersIn_append, hin.answersIn]
    rfl
  have hrecv := Unchanged.received S.server r
  generalize hdisp : dispatch (S.server.modify r Client.received) h.uuid (type_ :: value) draw = d at hout ⊢
  have hchange : (∀ e, d.2 ≠ .raise e) → (∀ y, d.2 = .reply y → IsError y) →
      Unchanged S.server d.1 := by
    rw [← hdisp]
    exact fun hraise herr => hrecv.trans (dispatch_unchanged hd hraise herr)
  obtain ⟨s', next⟩ := d
  cases next with
  | reply y =>
    have hgoes : GoesOn L h.uuid (s', .reply y) ↔ Sendable L s' h'.uuid (.ok y) := by
      rw [hu]
      rfl
    rw [hgoes]
    have hproceed : proceed (A := Accepting K) L c h' (s', .reply y) =
        sendReply L s' c h' (.ok y) .none .next := rfl
    by_cases hs : Sendable L s' h'.uuid (.ok y)
    · obtain ⟨_, pkt, os', hy, hin', hsend⟩ := sendReply_sendable (A := Accepting K) L (c := c)
        .none .next hs
      cases hy
      rw [hproceed, hsend] at hout
      cases hout
      refine iff_of_true (.inl ?_) hs
      rcases hwritten with hnone | ⟨pkt', -, -, -, -, -, hone⟩
      · simp [writtenIn] at hnone
      · refine ⟨_, .none, pkt', y, put_tasks_self, rfl, hone, ?_, fun herr => ?_⟩
        · rw [answersIn_append, hanswers]
          refine answersIn_append.trans ?_
          rw [hin'.answersIn, hu, hdata]
          rfl
        · exact hchange (fun e h => by cases h) fun _ h => by cases h; exact herr
    · obtain ⟨e, os', -, hsend⟩ := sendReply_not_sendable (A := Accepting K) L (c := c)
        .none .next hs
      rw [hproceed, hsend] at hout
      cases hout
      exact iff_of_false not_served_over hs
  | wait pc =>
    cases hout
    have hq : pc.Queues := by
      obtain ⟨_, _, -, -, ⟨_, -, rfl⟩ | ⟨_, -, -, rfl⟩ | ⟨_, _, -, -, rfl⟩ | ⟨_, -, -, rfl⟩⟩ :=
        dispatch_wait (congrArg Prod.snd hdisp) <;> trivial
    have hsilent : writtenIn _ = [] := hwritten.resolve_right fun ⟨_, _, _, _, ht, hpc, _⟩ => by
      cases ht
      simp only at hpc
      subst hpc
      exact hq
    refine iff_of_true (.inr (.inl ⟨_, put_tasks_self, hu, hdata, hq, ⟨hsilent, ?_⟩, ?_⟩)) trivial
    · rw [answersIn_append, hanswers]
      rfl
    · exact hchange (fun e h => by cases h) fun _ h => by cases h
  | raise e =>
    cases hout
    exact iff_of_false not_served_over id
  | bye =>
    cases hout
    have hsilent : writtenIn _ = [] := hwritten.resolve_right fun ⟨_, _, _, _, ht, _⟩ => by cases ht
    obtain ⟨_, _, he, hcmd, -⟩ := dispatch_bye (congrArg Prod.snd hdisp)
    refine iff_of_true (.inr (.inr ⟨⟨_, _, he, hcmd⟩, put_tasks_self, hsilent, ?_⟩)) trivial
    rw [answersIn_append, hanswers]
    rfl

/-- **A step of a handler that waited.** -/
theorem queued_served_iff (hh : S.tasks c = .handler h) (hq : h.pc.Queues)
    (hstep : S.step L (.resume c i draw) = some (S', o)) :
    Answers S S' o c h.uuid h.data ↔
      (∀ e, i ≠ .raise e) ∧ S.server.CanSend h.uuid ∧ h.pc.Ready L S.server h.data.tail := by
  have hwritten := step_writtenIn L hh hstep
  obtain ⟨s, t, ho, rfl⟩ := step_handler L hh hstep
  rw [put_tasks_self] at hwritten
  rcases handlerStep_queues L hq ho with ⟨reply, rfl, hreply, hout⟩ | ⟨e, rfl, hout⟩
  · have hready := reply_ready L (u := h.uuid) hq hreply
    rw [← (take_quiet S.server h.data h.pc).sendable] at hready
    have hgo : ∀ e, Input.go ≠ .raise e := fun e he => by cases he
    rw [← hready, and_iff_right hgo]
    by_cases hs : Sendable L (h.pc.take S.server h.data) h.uuid reply
    · obtain ⟨y, pkt, os', rfl, hin', hsend⟩ := sendReply_sendable (A := Accepting K) L (c := c)
        h.pc.lock .next hs
      rw [hsend] at hout
      cases hout
      refine iff_of_true ?_ hs
      rcases hwritten with hnone | ⟨pkt', -, -, -, -, -, hone⟩
      · simp [writtenIn] at hnone
      · refine ⟨_, h.pc.lock, pkt', y, put_tasks_self, rfl, hone, ?_, take_unchanged hreply⟩
        refine answersIn_append.trans ?_
        rw [hin'.answersIn]
        rfl
    · obtain ⟨e, os', -, hsend⟩ := sendReply_not_sendable (A := Accepting K) L (c := c)
        h.pc.lock .next hs
      rw [hsend] at hout
      cases hout
      exact iff_of_false (fun hans => not_served_over (.inl hans)) hs
  · cases hout
    exact iff_of_false (fun hans => not_served_over (.inl hans)) fun hraise => hraise.1 e rfl

/-- **A step at the send of a reply.** -/
theorem sending_served_iff (hh : S.tasks c = .handler h) (hs : h.pc.Sending)
    (hstep : S.step L (.resume c i draw) = some (S', o)) :
    Resumes S' o c ↔ (∀ e, i ≠ .raise e) ∧ h.uuid ∈ S.server.clientDb := by
  obtain ⟨s, t, ho, rfl⟩ := step_handler L hh hstep
  have hover : ∀ e, ¬ Resumes (S.put c s (.over (some e))) o c := by
    rintro e ⟨_, h, -⟩
    rw [put_tasks_self] at h
    cases h
  obtain ⟨held, hpc⟩ : ∃ held, h.pc = .sendall held .next := by
    rcases hpc : h.pc with _ | _ | _ | _ | _ | ⟨_, _⟩ | ⟨_, _⟩ | ⟨held, after⟩
    all_goals rw [hpc] at hs
    all_goals first | exact hs.elim | skip
    cases after with
    | next => exact ⟨held, rfl⟩
    | close => exact hs.elim
    | frameError => exact hs.elim
  cases i with
  | sent =>
    have hsent : ∀ e, Input.sent ≠ .raise e := fun e he => by cases he
    rw [and_iff_right hsent]
    simp only [handlerStep, hpc, onSent, Option.some.injEq] at ho
    rcases hu : S.server.clientDb.get? h.uuid with _ | r
    · rw [hu] at ho
      cases ho
      refine iff_of_false (hover _) fun hmem => ?_
      obtain ⟨_, hmem⟩ := Dict.mem_iff.1 hmem
      rw [hu] at hmem
      cases hmem
    · rw [hu] at ho
      cases ho
      exact iff_of_true ⟨_, put_tasks_self, rfl, rfl, rfl⟩ (Dict.mem_of_get? hu)
  | raise e =>
    simp only [handlerStep, hpc, Option.some.injEq] at ho
    cases ho
    exact iff_of_false (hover e) fun hraise => hraise.1 e rfl
  | go => simp [handlerStep, hpc] at ho
  | recv chunk => simp [handlerStep, hpc] at ho

end

/-! ## Runs -/

/-- What a step does for the payload of the handler that is resumed: it replies, waits or
    leaves; where the handler waited it replies, and where it sent it goes on. -/
def Served (x : Lts.Shown (Sys K) Act (Obs K)) : Prop :=
  ∀ c i draw h, x.act = .resume c i draw → x.before.tasks c = .handler h →
    (∀ type_ value, .accepted (.server c) (type_ :: value) ∈ x.obs →
      Answers x.before x.after x.obs c h.uuid (type_ :: value) ∨
        Waits x.before x.after x.obs c h.uuid (type_ :: value) ∨
          Leaves x.after x.obs c (type_ :: value)) ∧
    (h.pc.Queues → Answers x.before x.after x.obs c h.uuid h.data) ∧
    (h.pc.Sending → Resumes x.after x.obs c)

/-- The command, the reply or the session is ready, and no await raises. -/
def Ready (x : Lts.Shown (Sys K) Act (Obs K)) : Prop :=
  ∀ c i draw h, x.act = .resume c i draw → x.before.tasks c = .handler h →
    (∀ type_ value, .accepted (.server c) (type_ :: value) ∈ x.obs →
      (command type_).Ready x.before.server h.uuid value) ∧
    (h.pc.Queues → (∀ e, i ≠ .raise e) ∧ x.before.server.CanSend h.uuid ∧
      h.pc.Ready L x.before.server h.data.tail) ∧
    (h.pc.Sending → (∀ e, i ≠ .raise e) ∧ h.uuid ∈ x.before.server.clientDb)

/-- **One step.** -/
theorem step_served_iff {x : Lts.Shown (Sys K) Act (Obs K)} (hU : x.before.Uuids)
    (hstep : x.before.step L x.act = some (x.after, x.obs)) (hdraws : x.act.Draws) :
    Served x ↔ Ready L x := by
  refine forall_congr' fun c => forall_congr' fun i => forall_congr' fun draw =>
    forall_congr' fun h => forall_congr' fun hact => forall_congr' fun hh => ?_
  rw [hact] at hstep hdraws
  refine and_congr ?_ (and_congr ?_ ?_)
  · exact forall_congr' fun type_ => forall_congr' fun value => forall_congr' fun ha =>
      accepted_served_iff L hU hdraws hh hstep ha
  · exact forall_congr' fun hq => queued_served_iff L hh hq hstep
  · exact forall_congr' fun hs => sending_served_iff L hh hs hstep

/-- **All payloads are served** exactly if, at each step, what it needs is there. -/
theorem served_iff {password : Bytes} {keep : Bool} {S : Sys K}
    {xs : List (Lts.Shown (Sys K) Act (Obs K))}
    (hrun : Lts.Run (Lts.Guarded (Lts.shown (Sys.step L)) (Lts.Showing fun _ a _ => a.Draws))
      (.init password keep) S xs) : (∀ x ∈ xs, Served x) ↔ ∀ x ∈ xs, Ready L x := by
  refine forall_congr' fun x => forall_congr' fun hx => ?_
  obtain ⟨xs₁, xs₂, rfl, hbefore, hstep, hdraws⟩ := Lts.shown_mem hrun hx
  exact step_served_iff L (run_uuids L (uuids_init _ _) (Lts.shown_run hbefore)) hstep hdraws

/-! ## One reply for each payload -/

/-- The payloads that were accepted on a connection. -/
def acceptedList (c : ConnId) (os : List (Obs K)) : List Bytes :=
  os.filterMap fun
    | .accepted (.server c') data => if c' = c then some data else none
    | _ => none

/-- The payloads that were answered on a connection. -/
def answeredList (c : ConnId) (os : List (Obs K)) : List Bytes :=
  os.filterMap fun
    | .answered c' _ data _ => if c' = c then some data else none
    | _ => none

/-- The payload asks for a reply: it is not empty and not BYE. -/
def wantsReply : Bytes → Bool
  | [] => false
  | type_ :: _ => command type_ ≠ .bye

/-- The payloads for which the handler of the connection has to reply. -/
def requested (c : ConnId) (x : Lts.Shown (Sys K) Act (Obs K)) : List Bytes :=
  match x.before.tasks c with
  | .handler _ => (acceptedList c x.obs).filter wantsReply
  | _ => []

/-- The payload with which the coroutine waits. -/
def awaited (t : Task (Accepting K)) : List Bytes :=
  match t with
  | .handler h => match h.pc with
    | .dbLock _ | .inboxGet _ | .outboxPut _ _ | .outboxGet _ _ => [h.data]
    | _ => []
  | _ => []

section
variable {S S' : Sys K} {c : ConnId} {h : Handler} {i : Input} {draw : Uuid4} {o : List (Obs K)}

theorem awaited_queues (hq : h.pc.Queues) : awaited (.handler h : Task (Accepting K)) = [h.data] := by
  simp only [awaited]
  rcases hpc : h.pc with _ | _ | _ | _ | _ | _ | _ | _
  all_goals first | rfl | (rw [hpc] at hq; exact hq.elim)

theorem awaited_not_queues (hq : ¬ h.pc.Queues) : awaited (.handler h : Task (Accepting K)) = [] := by
  simp only [awaited]
  rcases hpc : h.pc with _ | _ | _ | _ | _ | _ | _ | _
  all_goals first | rfl | (rw [hpc] at hq; exact absurd trivial hq)

theorem acceptedList_append {os os' : List (Obs K)} :
    acceptedList c (os ++ os') = acceptedList c os ++ acceptedList c os' := List.filterMap_append

theorem answeredList_append {os os' : List (Obs K)} :
    answeredList c (os ++ os') = answeredList c os ++ answeredList c os' := List.filterMap_append

theorem Inner.acceptedList {os : List (Obs K)} (hin : Inner os) : acceptedList c os = [] := by
  refine List.filterMap_eq_nil_iff.2 fun x hx => ?_
  have := hin x hx
  cases x <;> first | rfl | exact False.elim this

theorem Inner.answeredList {os : List (Obs K)} (hin : Inner os) : answeredList c os = [] := by
  refine List.filterMap_eq_nil_iff.2 fun x hx => ?_
  have := hin x hx
  cases x <;> first | rfl | exact False.elim this

/-- Sending a reply: nothing is accepted, and the payload is answered if the coroutine goes on. -/
theorem Sends.lists {s : Server K} {reply : Except PyErr Bytes} {held : Held} {after : After}
    {out : Outcome K (Accepting K)} (hs : Sends L s c h reply held after out) :
    acceptedList c out.2.2 = [] ∧ ((∃ e, out.2.1 = .over (some e) ∧ answeredList c out.2.2 = []) ∨
      awaited out.2.1 = [] ∧ answeredList c out.2.2 = if after = .next then [h.data] else []) := by
  cases hs with
  | fail _ hin => exact ⟨hin.acceptedList, .inl ⟨_, rfl, hin.answeredList⟩⟩
  | start hreply hin =>
    rename_i data pkt os
    refine ⟨?_, .inr ⟨rfl, ?_⟩⟩
    · rw [acceptedList_append, hin.acceptedList]
      split_ifs <;> rfl
    · rw [answeredList_append, hin.answeredList]
      split_ifs
      · simp [Pipebomb.answeredList]
      · rfl

theorem Await.Reads.not_awaited (hreads : h.pc.Reads) : awaited (.handler h : Task (Accepting K)) = [] := by
  refine awaited_not_queues fun hq => ?_
  rcases hpc : h.pc with _ | _ | _ | _ | _ | _ | _ | _
  all_goals rw [hpc] at hq hreads; first | exact hq.elim | exact hreads.elim

theorem Task.Idles.not_awaited {t : Task (Accepting K)} (ht : t.Idles h) : awaited t = [] := by
  cases t with
  | handler h' =>
    refine awaited_not_queues fun hq => ?_
    obtain ⟨-, hpc | hpc | hpc⟩ := ht
    all_goals rw [hpc] at hq; exact hq
  | «over» e => rfl
  | _ => exact ht.elim

/-- A handler that waited and is not ended by an exception. -/
theorem Sends.balance {s : Server K} {reply : Except PyErr Bytes} {held : Held}
    {out : Outcome K (Accepting K)} (hq : h.pc.Queues) (hs : Sends L s c h reply held .next out)
    (hover : ∀ e, out.2.1 ≠ .over (some e)) :
    awaited (.handler h : Task (Accepting K)) ++ (acceptedList c out.2.2).filter wantsReply =
      answeredList c out.2.2 ++ awaited out.2.1 := by
  obtain ⟨hacc, ⟨e, ht, -⟩ | ⟨hpend, hans⟩⟩ := hs.lists L
  · exact absurd ht (hover e)
  · rw [hacc, hans, hpend, awaited_queues hq]
    rfl

/-- A handler that accepts a payload and is not ended by an exception. -/
theorem Proceeds.balance {s : Server K} {out : Outcome K (Accepting K)}
    (hp : Proceeds L c h (dispatch s h.uuid h.data draw) out)
    (hover : h.data ≠ [] → ∀ e, out.2.1 ≠ .over (some e)) :
    acceptedList c out.2.2 = [] ∧
      [h.data].filter wantsReply = answeredList c out.2.2 ++ awaited out.2.1 := by
  rcases hdata : h.data with _ | ⟨type_, value⟩
  · rw [hdata] at hp
    cases hp with
    | reply hn => cases hn
    | wait hn => cases hn
    | raise => exact ⟨rfl, rfl⟩
    | bye hn => cases hn
  · have hgoes := hover (by rw [hdata]; simp)
    have hwants : (dispatch s h.uuid h.data draw).2 ≠ .bye → wantsReply (type_ :: value) = true := by
      intro hne
      refine decide_eq_true fun hcmd => hne ?_
      simp only [hdata, dispatch, hcmd]
    cases hp with
    | reply hn hs =>
      obtain ⟨hacc, ⟨e, ht, -⟩ | ⟨hpend, hans⟩⟩ := hs.lists L
      · exact absurd ht (hgoes e)
      · refine ⟨hacc, ?_⟩
        rw [hans, hpend, List.filter_cons_of_pos (hwants (by rw [hn]; exact fun h => by cases h)), hdata]
        rfl
    | wait hn =>
      rename_i pc
      refine ⟨rfl, ?_⟩
      have hq : pc.Queues := by
        obtain ⟨_, _, -, -, ⟨_, -, rfl⟩ | ⟨_, -, -, rfl⟩ | ⟨_, _, -, -, rfl⟩ | ⟨_, -, -, rfl⟩⟩ :=
          dispatch_wait hn <;> trivial
      have hpend : awaited (.handler { h with pc := pc } : Task (Accepting K)) = [h.data] :=
        awaited_queues hq
      rw [hpend, hdata, List.filter_cons_of_pos (hwants (by rw [hn]; exact fun h => by cases h))]
      rfl
    | raise => exact absurd rfl (hgoes _)
    | bye hn =>
      obtain ⟨_, _, he, hcmd, -⟩ := dispatch_bye hn
      rw [hdata] at he
      cases he
      refine ⟨rfl, ?_⟩
      rw [List.filter_cons_of_neg (by simp [wantsReply, hcmd])]
      rfl

/-- **One step of a handler** that no exception ends: the payloads that are asked for and
    waited for are those that are answered and waited for. -/
theorem Move.balance {s : Server K} {out : Outcome K (Accepting K)} (hm : Move L s c h i draw out)
    (haccept : ∀ type_ value, .accepted (.server c) (type_ :: value) ∈ out.2.2 →
      ∀ e, out.2.1 ≠ .over (some e)) (hqueue : h.pc.Queues → ∀ e, out.2.1 ≠ .over (some e)) :
    awaited (.handler h : Task (Accepting K)) ++ (acceptedList c out.2.2).filter wantsReply =
      answeredList c out.2.2 ++ awaited out.2.1 := by
  cases hm with
  | still hreads hidle hin =>
    rw [hreads.not_awaited, hin.acceptedList, hin.answeredList, hidle.not_awaited]
    rfl
  | refuse hreads hr hu hin hs =>
    obtain ⟨hacc, hcases⟩ := hs.lists L
    rw [seen_obs, acceptedList_append, answeredList_append, hin.acceptedList, hin.answeredList, hacc,
      hreads.not_awaited]
    obtain ⟨e, ht, hans⟩ | ⟨hpend, hans⟩ := hcases
    · rw [seen_task, ht, hans]
      rfl
    · rw [seen_task, hpend, hans]
      rfl
  | payload hreads hr hu hv hin hp =>
    rename_i r h' frame rem os out'
    have hp' : Proceeds L c h' (dispatch (s.modify r Client.received) h'.uuid h'.data draw) out' := by
      rw [hu]
      exact hp
    have hover : h'.data ≠ [] → ∀ e, out'.2.1 ≠ .over (some e) := by
      intro hne
      obtain ⟨type_, value, hdata⟩ := List.exists_cons_of_ne_nil hne
      exact haccept type_ value (by rw [← hdata]; simp)
    obtain ⟨hacc, hbal⟩ := hp'.balance L hover
    have hself : acceptedList c [(.accepted (.server c) h'.data : Obs K)] = [h'.data] := by
      simp [Pipebomb.acceptedList]
    have hnone : answeredList c [(.accepted (.server c) h'.data : Obs K)] = [] := rfl
    rw [seen_obs, seen_task, acceptedList_append, acceptedList_append, hin.acceptedList, hself, hacc,
      answeredList_append, answeredList_append, hin.answeredList, hnone, hreads.not_awaited]
    exact hbal
  | db hpc hi hlock hs => exact hs.balance L (by rw [hpc]; trivial) (hqueue (by rw [hpc]; trivial))
  | inboxGet hpc hi hbox hs => exact hs.balance L (by rw [hpc]; trivial) (hqueue (by rw [hpc]; trivial))
  | outboxPut hpc hi hlock hs => exact hs.balance L (by rw [hpc]; trivial) (hqueue (by rw [hpc]; trivial))
  | outboxNone hpc hi hlock hg hs =>
    exact hs.balance L (by rw [hpc]; trivial) (hqueue (by rw [hpc]; trivial))
  | outboxGet hpc hi hlock hg hs =>
    exact hs.balance L (by rw [hpc]; trivial) (hqueue (by rw [hpc]; trivial))
  | sent hpc => rw [awaited_not_queues (by rw [hpc]; exact id)]; rfl
  | close hpc => rw [awaited_not_queues (by rw [hpc]; exact id)]; rfl
  | die =>
    rw [awaited_not_queues fun hq => hqueue hq _ rfl]
    rfl

/-- What is seen of another connection. -/
theorem AllBy.lists_ne {c' : ConnId} {uses : Option PyStr} (hby : AllBy c' uses o) (hne : c ≠ c') :
    acceptedList c o = [] ∧ answeredList c o = [] := by
  refine ⟨List.filterMap_eq_nil_iff.2 fun x hx => ?_, List.filterMap_eq_nil_iff.2 fun x hx => ?_⟩
  · have hx := hby x hx
    cases x with
    | accepted p data =>
      cases hx
      exact if_neg (Ne.symm hne)
    | _ => rfl
  · have hx := hby x hx
    cases x with
    | answered c'' u data reply =>
      obtain ⟨rfl, -⟩ := hx
      exact if_neg (Ne.symm hne)
    | _ => rfl

theorem Shut.answeredList {os : List (Obs K)} (hos : Shut os) : answeredList c os = [] := by
  refine List.filterMap_eq_nil_iff.2 fun x hx => ?_
  have := hos x hx
  cases x <;> first | rfl | exact False.elim this

theorem Task.Outside.not_awaited {t : Task (Accepting K)} (ht : t.Outside) : awaited t = [] := by
  cases t with
  | handler => exact ht.elim
  | _ => rfl

/-- A handshake answers nothing and leaves no payload. -/
theorem Joins.balance {s : Server K} {a : Accepting K} {out : Outcome K (Accepting K)}
    (hj : Joins s c draw a out) : answeredList c out.2.2 = [] ∧ awaited out.2.1 = [] := by
  cases hj with
  | still ht hos => exact ⟨hos.answeredList, ht.not_awaited⟩
  | login ht hos hos' =>
    refine ⟨?_, ht.elim (fun h => by subst h; rfl) fun h => h.not_awaited⟩
    rw [answeredList_append, hos.answeredList, List.nil_append]
    exact hos'.answeredList
  | attach hu ht hos hos' =>
    refine ⟨?_, ht.elim (fun h => by subst h; rfl) fun h => h.not_awaited⟩
    rw [answeredList_append, hos.answeredList, List.nil_append]
    exact hos'.answeredList
  | unknown => exact ⟨rfl, rfl⟩
  | finish => exact ⟨rfl, rfl⟩

/-- **One step.** -/
theorem step_balance {a : Act} (hS : S.Sound) (hstep : S.step L a = some (S', o))
    (hserved : Served ⟨S, a, o, S'⟩) (c : ConnId) :
    awaited (S.tasks c) ++ requested c ⟨S, a, o, S'⟩ = answeredList c o ++ awaited (S'.tasks c) := by
  have hother : ∀ {c' s t}, S' = S.put c' s t → (∃ uses, AllBy c' uses o) → c ≠ c' →
      awaited (S.tasks c) ++ requested c ⟨S, a, o, S'⟩ = answeredList c o ++ awaited (S'.tasks c) := by
    rintro c' s t rfl ⟨uses, hby⟩ hc
    obtain ⟨hacc, hans⟩ := hby.lists_ne hc
    have hnone : requested c ⟨S, a, o, S.put c' s t⟩ = [] := by
      simp only [requested]
      split
      · rw [hacc]
        rfl
      · rfl
    rw [hnone, hans, put_tasks_ne hc, List.append_nil, List.nil_append]
  have hby : ∀ {c' i draw}, a = .resume c' i draw → ∃ uses, AllBy c' uses o := by
    rintro c' i draw rfl
    obtain ⟨_, h, -⟩ | ⟨_, _, _, s, t, h, ht, -⟩ | ⟨_, h, -⟩ := step_cases L hstep
    · cases h
    · cases h
      exact ⟨_, taskStep_obs L ht⟩
    · cases h
  cases (step_step L hS.tidy hstep).1 with
  | connect hidle =>
    rename_i c'
    by_cases hc : c = c'
    · subst hc
      simp only [requested, hidle, put_tasks_self]
      rfl
    · exact hother rfl ⟨none, .nil⟩ hc
  | join htask hj =>
    rename_i c' i draw a s t
    by_cases hc : c = c'
    · subst hc
      obtain ⟨hans, hpend⟩ := hj.balance
      simp only at hans hpend
      simp only [requested, htask, put_tasks_self, hans, hpend]
      rfl
    · exact hother rfl (hby rfl) hc
  | move htask hm =>
    rename_i c' i draw h s t
    by_cases hc : c = c'
    · subst hc
      obtain ⟨haccept, hqueue, -⟩ := hserved c i draw h rfl htask
      have hbal := hm.balance L (fun type_ value ha e ht => ?_) fun hq e ht => ?_
      · simp only [requested, htask, put_tasks_self]
        exact hbal
      · simp only at ht
        subst ht
        exact not_served_over (haccept type_ value ha)
      · simp only at ht
        subst ht
        exact not_served_over (.inl (hqueue hq))
    · exact hother rfl (hby rfl) hc
  | admin =>
    simp only [requested]
    split
    · exact List.append_nil _
    · exact List.append_nil _

/-- **One reply for each payload**: if all payloads of a run are served, those of a
    connection that want a reply were answered in their order, up to one that waits. -/
theorem served_once {password : Bytes} {keep : Bool} {xs : List (Lts.Shown (Sys K) Act (Obs K))}
    (hrun : Lts.Run (Lts.Guarded (Lts.shown (Sys.step L)) (Lts.Showing fun _ a _ => a.Draws))
      (.init password keep) S xs) (hserved : ∀ x ∈ xs, Served x) (c : ConnId) :
    xs.flatMap (requested c) = xs.flatMap (fun x => answeredList c x.obs) ++ awaited (S.tasks c) := by
  induction hrun with
  | nil => rfl
  | snoc hbefore hst ih =>
    rename_i S₁ S₂ xs o
    obtain ⟨a, hs, -⟩ := hst
    obtain ⟨o, hstep, rfl⟩ := Lts.shown_step hs
    have hS := run_sound L (sound_init password keep) (Lts.shown_run hbefore)
    have hbal := step_balance L hS hstep (hserved _ (by simp)) c
    have hrest := ih fun x hx => hserved x (List.mem_append_left _ hx)
    rw [List.flatMap_append, List.flatMap_append, hrest, List.append_assoc, List.flatMap_singleton,
      List.flatMap_singleton, hbal, List.append_assoc]

/-- **Payloads are served** exactly if, at each step, what it needs is there; then those of a
    connection that want a reply are answered in their order, up to one that waits. -/
theorem payloads_served_iff {password : Bytes} {keep : Bool} {xs : List (Lts.Shown (Sys K) Act (Obs K))}
    (hrun : Lts.Run (Lts.Guarded (Lts.shown (Sys.step L)) (Lts.Showing fun _ a _ => a.Draws))
      (.init password keep) S xs) :
    ((∀ x ∈ xs, Served x) ↔ ∀ x ∈ xs, Ready L x) ∧
      ((∀ x ∈ xs, Ready L x) → ∀ c, xs.flatMap (requested c) =
        xs.flatMap (fun x => answeredList c x.obs) ++ awaited (S.tasks c)) :=
  ⟨served_iff L hrun, fun hready => served_once L hrun ((served_iff L hrun).2 hready)⟩

end

/-! ## Runs on fixed inputs -/

section
variable (s : Server K) (u : PyStr) (value : Bytes)

instance Command.decidableReady : ∀ cmd : Command, Decidable (cmd.Ready s u value)
  | .db _ | .bye | .getInbox | .getOutbox => isTrue trivial
  | .register | .whoami | .unknown => inferInstanceAs (Decidable (s.HasNonce u))
  | .unregister | .putInbox | .putOutbox => inferInstanceAs (Decidable (_ ∧ _))
  | .whohas =>
    have : Decidable (∀ v, s.addressBook.get? (latin1Decode value) = some v → Latin1 v) :=
      inferInstanceAs (Decidable (∀ v ∈ s.addressBook.get? (latin1Decode value), Latin1 v))
    inferInstanceAs (Decidable (_ ∧ _))

instance Await.decidableReady : ∀ pc : Await, Decidable (pc.Ready L s value)
  | .dbLock .set => inferInstanceAs (Decidable (_ ≤ _))
  | .dbLock .get => inferInstanceAs (Decidable (∀ v ∈ s.db.get? value, v ≠ [] ∧ Fits L v))
  | .dbLock .list => match hlist : listReply s.db with
    | .error _ => isTrue fun _ h => by rw [hlist] at h; cases h
    | .ok reply => decidable_of_iff (Fits L reply)
        ⟨fun h _ h' => by rw [hlist] at h'; cases h'; exact h, fun h => h reply hlist⟩
  | .inboxGet r => inferInstanceAs (Decidable (∀ q ∈ (s.objs r).inbox.head?, _))
  | .outboxGet r id => inferInstanceAs (Decidable (∀ p ∈ (s.objs r).outbox.get? id, _))
  | .start | .sleep | .recv | .dbLock .delete | .outboxPut _ _ | .sendall _ _ => isTrue trivial

instance : Decidable (s.CanSend u) :=
  match hcl : s.client u with
  | none => isFalse fun ⟨_, h, _⟩ => by rw [hcl] at h; cases h
  | some cl => decidable_of_iff (cl.cipher.isSome ∧ cl.txNonce < 2 ^ 96)
      ⟨fun h => ⟨cl, hcl, h⟩, fun ⟨_, h, h'⟩ => by rw [hcl] at h; cases h; exact h'⟩

instance : ∀ pc : Await, Decidable pc.Queues
  | .dbLock _ | .inboxGet _ | .outboxPut _ _ | .outboxGet _ _ => isTrue trivial
  | .start | .sleep | .recv | .sendall _ _ => isFalse id

instance : ∀ pc : Await, Decidable pc.Sending
  | .sendall _ .next => isTrue trivial
  | .start | .sleep | .recv | .dbLock _ | .inboxGet _ | .outboxPut _ _ | .outboxGet _ _
  | .sendall _ .close | .sendall _ .frameError => isFalse id

/-- The exception that the await raises. -/
def Input.raised : Input → Option PyErr
  | .raise e => some e
  | .go | .recv _ | .sent => none

theorem Input.raised_eq_none (i : Input) : i.raised = none ↔ ∀ e, i ≠ .raise e := by
  cases i <;> simp [Input.raised]

instance (i : Input) : Decidable (∀ e, i ≠ .raise e) :=
  decidable_of_iff (i.raised = none) (Input.raised_eq_none i)

end

theorem mem_acceptedList {c : ConnId} {os : List (Obs K)} {data : Bytes} :
    data ∈ acceptedList c os ↔ .accepted (.server c) data ∈ os := by
  simp only [acceptedList, List.mem_filterMap]
  constructor
  · rintro ⟨x, hx, h⟩
    split at h
    · split_ifs at h with hc
      cases h
      subst hc
      exact hx
    · cases h
  · intro h
    exact ⟨_, h, if_pos rfl⟩

instance Ready.decidable (x : Lts.Shown (Sys K) Act (Obs K)) : Decidable (Ready L x) :=
  match hact : x.act with
  | .connect _ | .admin _ => isTrue fun _ _ _ _ h => by rw [hact] at h; cases h
  | .resume c i draw => match hh : (x.before.tasks c).handler? with
    | none => isTrue fun _ _ _ _ h h' => by
      rw [hact] at h
      cases h
      rw [h'] at hh
      cases hh
    | some h => decidable_of_iff
        ((∀ data ∈ acceptedList c x.obs, ∀ type_ ∈ data.head?,
            (command type_).Ready x.before.server h.uuid data.tail) ∧
          (h.pc.Queues → (∀ e, i ≠ .raise e) ∧ x.before.server.CanSend h.uuid ∧
            h.pc.Ready L x.before.server h.data.tail) ∧
          (h.pc.Sending → (∀ e, i ≠ .raise e) ∧ h.uuid ∈ x.before.server.clientDb))
        ⟨fun hready _ _ _ _ ha ht => by
          rw [hact] at ha
          cases ha
          cases (Task.eq_handler hh).symm.trans ht
          exact ⟨fun type_ value ha => hready.1 _ (mem_acceptedList.2 ha) type_ rfl, hready.2⟩,
        fun hready => by
          obtain ⟨haccept, hrest⟩ := hready c i draw h hact (Task.eq_handler hh)
          refine ⟨fun data hdata type_ htype => ?_, hrest⟩
          cases data with
          | nil => cases htype
          | cons b value =>
            cases htype
            exact haccept _ value (mem_acceptedList.1 hdata)⟩

/-- Connection 0 sets a key, gets it and says BYE. -/
def serviceActs : List Act := loginActs 0 [0xC5] ++ drawing sampleDraw 0
  [.recv (stubPacket 0 2 (0x81 :: bodyOf [[107], [9]])), .go, .sent, .go,
    .recv (stubPacket 0 3 [0x82, 107]), .go, .sent, .go, .recv (stubPacket 0 4 [0x88])]

/-- Everything is there. -/
theorem payloads_served_sample : ∃ (S : Sys ℕ) (xs : List (Lts.Shown (Sys ℕ) Act (Obs ℕ))),
    xs.length = 18 ∧ (∀ x ∈ xs, Served x) ∧
      xs.flatMap (requested 0) = xs.flatMap (fun x => answeredList 0 x.obs) ++ awaited (S.tasks 0) := by
  have hexec : ((Lts.exec (Lts.shown (Sys.step stub)) serviceActs (.init [] false)).any fun x =>
      x.2.length = 18 && x.2.all fun y => Ready stub y) = true := by decide +kernel
  have halong : Lts.Along (Lts.shown (Sys.step stub)) (Lts.Showing fun _ a _ => a.Draws) serviceActs
      (.init [] false) := by decide +kernel
  obtain ⟨⟨S, xs⟩, hS, hp⟩ := Option.any_eq_true _ _ |>.1 hexec
  simp only [Bool.and_eq_true, decide_eq_true_eq] at hp
  have hready : ∀ x ∈ xs, Ready stub x := fun x hx => of_decide_eq_true (List.all_eq_true.1 hp.2 x hx)
  obtain ⟨hiff, hlists⟩ := payloads_served_iff stub (Lts.exec_run hS halong)
  exact ⟨S, xs, hp.1, hiff.2 hready, hlists hready 0⟩

/-- A SET with no lengths, up to the lock and behind it. -/
def shortSetActs : List Act :=
  loginActs 0 [0xC5] ++ drawing sampleDraw 0 [.recv (stubPacket 0 2 [0x81]), .go]

/-- **A payload ends the handler.**  The body of SET is too short, `struct.unpack` raises, and
    there is no reply. -/
theorem short_set_ends : ∃ (S : Sys ℕ) (xs : List (Lts.Shown (Sys ℕ) Act (Obs ℕ))),
    Lts.Run (Lts.Guarded (Lts.shown (Sys.step stub)) (Lts.Showing fun _ a _ => a.Draws))
      (.init [] false) S xs ∧ S.tasks 0 = .over (some .structError) ∧ ¬ ∀ x ∈ xs, Served x := by
  have hexec : ((Lts.exec (Lts.shown (Sys.step stub)) shortSetActs (.init [] false)).any fun x =>
      decide (x.1.tasks 0 = .over (some .structError)) && x.2.any fun y => ¬ Ready stub y) = true := by
    decide +kernel
  have halong : Lts.Along (Lts.shown (Sys.step stub)) (Lts.Showing fun _ a _ => a.Draws) shortSetActs
      (.init [] false) := by decide +kernel
  obtain ⟨⟨S, xs⟩, hS, hp⟩ := Option.any_eq_true _ _ |>.1 hexec
  simp only [Bool.and_eq_true, decide_eq_true_eq, List.any_eq_true] at hp
  obtain ⟨hover, x, hx, hnot⟩ := hp
  have hrun := Lts.exec_run hS halong
  exact ⟨S, xs, hrun, hover, fun hserved => hnot ((served_iff stub hrun).1 hserved x hx)⟩

end Pipebomb
