/-
  What an administrative call leaves behind when it raises.

  `Admin.AllOrNothing` says that a call that raises changed nothing; `Admin.HalfDone` are the
  calls that raise behind their first write: `add_key` binds the key before it looks for the
  client, `remove_key` deletes it before, and `remove_client` deletes bindings until it finds
  one missing.

  * `all_or_nothing_iff`: these are the only ones that leave something behind;
    `half_done_reached` is a state with one of each.
  * `ticket_applied_iff`: `apply_client_state` does what its ticket says, or nothing, exactly in
    the cases of `Applicable`.  It replaces the boxes before it looks at the keys, and never
    looks at the keys that the session had.
-/
import Pipebomb.Ownership
import Pipebomb.Names

namespace Pipebomb

open ByteString

variable {K : Type}

/-! ## `add_client`, `remove_client`, `add_key`, `remove_key` -/

/-- If the call raises, the sessions, the address book and the owned addresses are as before. -/
def Admin.AllOrNothing (s : Server K) (op : Admin) : Prop :=
  ∀ e, (op.run s).2 = .error e → (op.run s).1.clientDb = s.clientDb ∧
    (op.run s).1.addressBook = s.addressBook ∧ (op.run s).1.owned = s.owned

/-- The call raises after its first write. -/
def Admin.HalfDone (s : Server K) : Admin → Prop
  | .addClient _ => False
  | .removeClient uuid => uuid.length = 36 ∧ ∃ key keys, s.owned uuid = some (key :: keys) ∧
      key ∈ s.addressBook ∧ ¬ ((key :: keys).Nodup ∧ ∀ k ∈ keys, k ∈ s.addressBook)
  | .addKey key uuid => uuid.length = 36 ∧ key ∉ s.addressBook ∧ uuid ∉ s.clientDb
  | .removeKey key uuid => uuid.length = 36 ∧ key ∈ s.addressBook ∧
      ∀ keys, s.owned uuid = some keys → key ∉ keys

section
variable {s : Server K} {book : Dict PyStr PyStr} {key uuid : PyStr} {keys : List PyStr}

/-- All keys can be deleted if they are bound and none comes twice. -/
theorem deleteKeys_ok : (deleteKeys book keys).2 = .ok () ↔ keys.Nodup ∧ ∀ k ∈ keys, k ∈ book := by
  induction keys generalizing book with
  | nil => simp [deleteKeys]
  | cons key keys ih =>
    rw [deleteKeys]
    split_ifs with hkey
    · rw [ih, List.nodup_cons]
      constructor
      · rintro ⟨hn, hall⟩
        refine ⟨⟨fun hm => ?_, hn⟩, ?_⟩
        · exact (Dict.mem_erase.1 (hall key hm)).1 rfl
        · intro k hk
          rcases List.mem_cons.1 hk with rfl | hk
          · exact hkey
          · exact (Dict.mem_erase.1 (hall k hk)).2
      · rintro ⟨⟨hm, hn⟩, hall⟩
        refine ⟨hn, fun k hk => Dict.mem_erase.2 ⟨?_, hall k (by simp [hk])⟩⟩
        rintro rfl
        exact hm hk
    · constructor
      · intro h
        cases h
      · intro h
        exact absurd (h.2 key (by simp)) hkey

/-- Deleting binds nothing. -/
theorem mem_deleteKeys {k : PyStr} (h : k ∈ (deleteKeys book keys).1) : k ∈ book := by
  induction keys generalizing book with
  | nil => exact h
  | cons key keys ih =>
    rw [deleteKeys] at h
    split_ifs at h
    · exact (Dict.mem_erase.1 (ih h)).2
    · exact h

/-- The first key is gone, whatever happens then. -/
theorem deleteKeys_ne (hkey : key ∈ book) : (deleteKeys book (key :: keys)).1 ≠ book := by
  intro h
  have hm : key ∈ (deleteKeys book (key :: keys)).1 := by
    rw [h]
    exact hkey
  rw [deleteKeys, if_pos hkey] at hm
  exact (Dict.mem_erase.1 (mem_deleteKeys hm)).1 rfl

/-! ### One call -/

variable {op : Admin}

/-- A call that wrote nothing. -/
theorem allOrNothing_of_eq (h : (op.run s).1 = s) : op.AllOrNothing s := by
  intro e _
  rw [h]
  exact ⟨rfl, rfl, rfl⟩

/-- A call that returned. -/
theorem allOrNothing_of_ok (h : (op.run s).2 = .ok ()) : op.AllOrNothing s := by
  intro e he
  rw [h] at he
  cases he

/-- A call that raised with another address book. -/
theorem not_allOrNothing {e : PyErr} (he : (op.run s).2 = .error e)
    (hbook : (op.run s).1.addressBook ≠ s.addressBook) : ¬ op.AllOrNothing s :=
  fun h => hbook (h e he).2.1

theorem addClient_allOrNothing (s : Server K) (t : NewClientTicket) :
    (Admin.addClient t).AllOrNothing s := by
  by_cases hlen : t.uuid.length ≠ 36
  · apply allOrNothing_of_eq
    rw [Admin.run, addClient, if_pos hlen]
  by_cases hu : t.uuid ∈ s.clientDb
  · apply allOrNothing_of_eq
    rw [Admin.run, addClient, if_neg hlen, if_pos hu]
  by_cases hout : ∃ p ∈ t.outbox.items, p.1 ≠ p.2.response_uuid
  · apply allOrNothing_of_eq
    rw [Admin.run, addClient, if_neg hlen, if_neg hu, if_pos hout]
  · apply allOrNothing_of_ok
    rw [Admin.run, addClient, if_neg hlen, if_neg hu, if_neg hout]

theorem removeClient_allOrNothing :
    (Admin.removeClient uuid).AllOrNothing s ↔ ¬ (Admin.removeClient uuid).HalfDone s := by
  by_cases hlen : uuid.length ≠ 36
  · refine iff_of_true (allOrNothing_of_eq ?_) fun h => hlen h.1
    rw [Admin.run, removeClient, if_pos hlen]
  rcases hu : s.clientDb.get? uuid with _ | r
  · refine iff_of_true (allOrNothing_of_eq ?_) ?_
    · rw [Admin.run, removeClient, if_neg hlen, hu]
    · rintro ⟨-, key, keys, howned, -⟩
      rw [owned_eq_none.2 (Dict.get?_eq_none.1 hu)] at howned
      cases howned
  have howned := owned_eq_some hu
  cases hkeys : (s.objs r).addressesOwned with
  | nil =>
    refine iff_of_true (allOrNothing_of_ok ?_) ?_
    · simp only [Admin.run, removeClient, if_neg hlen, hu, hkeys, deleteKeys]
    · rintro ⟨-, key, keys, h, -⟩
      rw [howned, hkeys] at h
      cases h
  | cons key keys =>
    have hok : (deleteKeys s.addressBook (key :: keys)).2 = .ok () ↔ _ := deleteKeys_ok
    have hne : key ∈ s.addressBook →
        (deleteKeys s.addressBook (key :: keys)).1 ≠ s.addressBook := deleteKeys_ne
    rcases hdel : deleteKeys s.addressBook (key :: keys) with ⟨book, e | ⟨⟩⟩
    · rw [hdel] at hok hne
      have hrun : (Admin.removeClient uuid).run s = (s.setBook book, .error e) := by
        simp only [Admin.run, removeClient, if_neg hlen, hu, hkeys, hdel]
      by_cases hkey : key ∈ s.addressBook
      · refine iff_of_false (not_allOrNothing (e := e) ?_ ?_) (not_not.2 ?_)
        · rw [hrun]
        · rw [hrun]
          exact hne hkey
        · refine ⟨not_not.1 hlen, key, keys, howned.trans (congrArg some hkeys), hkey, ?_⟩
          rintro ⟨hn, hall⟩
          have hmem : ∀ k ∈ key :: keys, k ∈ s.addressBook := by
            intro k hk
            rcases List.mem_cons.1 hk with rfl | hk
            · exact hkey
            · exact hall k hk
          cases hok.2 ⟨hn, hmem⟩
      · -- the first key is missing: nothing was deleted
        rw [deleteKeys, if_neg hkey] at hdel
        cases hdel
        refine iff_of_true (allOrNothing_of_eq ?_) ?_
        · rw [hrun]
          rfl
        · rintro ⟨-, key', keys', h, hkey', -⟩
          rw [howned, hkeys] at h
          cases h
          exact hkey hkey'
    · rw [hdel] at hok
      refine iff_of_true (allOrNothing_of_ok ?_) ?_
      · simp only [Admin.run, removeClient, if_neg hlen, hu, hkeys, hdel]
      · rintro ⟨-, key', keys', h, -, hno⟩
        rw [howned, hkeys] at h
        cases h
        obtain ⟨hn, hall⟩ := hok.1 rfl
        exact hno ⟨hn, fun k hk => hall k (List.mem_cons_of_mem _ hk)⟩

theorem addKey_allOrNothing :
    (Admin.addKey key uuid).AllOrNothing s ↔ ¬ (Admin.addKey key uuid).HalfDone s := by
  by_cases hlen : uuid.length ≠ 36
  · refine iff_of_true (allOrNothing_of_eq ?_) fun h => hlen h.1
    rw [Admin.run, addKey, if_pos hlen]
  by_cases hkey : key ∈ s.addressBook
  · refine iff_of_true (allOrNothing_of_eq ?_) fun h => h.2.1 hkey
    rw [Admin.run, addKey, if_neg hlen, if_pos hkey]
  rcases hu : s.clientDb.get? uuid with _ | r
  · have hrun : (Admin.addKey key uuid).run s = (s.setBook (s.addressBook.set key uuid),
        .error (.valueError "Client not in client db")) := by
      simp only [Admin.run, addKey, if_neg hlen, if_neg hkey, Server.setBook_clientDb, hu]
    refine iff_of_false (not_allOrNothing (congrArg Prod.snd hrun) ?_) (not_not.2 ?_)
    · rw [hrun]
      intro h
      have hm : key ∈ s.addressBook.set key uuid := Dict.mem_set.2 (.inl rfl)
      rw [← h] at hkey
      exact hkey hm
    · exact ⟨not_not.1 hlen, hkey, Dict.get?_eq_none.1 hu⟩
  · refine iff_of_true (allOrNothing_of_ok ?_) fun h => h.2.2 (Dict.mem_of_get? hu)
    simp only [Admin.run, addKey, if_neg hlen, if_neg hkey, Server.setBook_clientDb, hu]

theorem removeKey_allOrNothing :
    (Admin.removeKey key uuid).AllOrNothing s ↔ ¬ (Admin.removeKey key uuid).HalfDone s := by
  by_cases hlen : uuid.length ≠ 36
  · refine iff_of_true (allOrNothing_of_eq ?_) fun h => hlen h.1
    rw [Admin.run, removeKey, if_pos hlen]
  by_cases hkey : key ∉ s.addressBook
  · refine iff_of_true (allOrNothing_of_eq ?_) fun h => hkey h.2.1
    rw [Admin.run, removeKey, if_neg hlen, if_pos hkey]
  have hne : s.addressBook.erase key ≠ s.addressBook := by
    intro h
    rw [← h] at hkey
    exact hkey fun hm => (Dict.mem_erase.1 hm).1 rfl
  rcases hu : s.clientDb.get? uuid with _ | r
  · have hrun : (Admin.removeKey key uuid).run s = (s.setBook (s.addressBook.erase key),
        .error (.valueError "Client not in client db")) := by
      simp only [Admin.run, removeKey, if_neg hlen, if_neg hkey, Server.setBook_clientDb, hu]
    refine iff_of_false (not_allOrNothing (congrArg Prod.snd hrun) ?_) (not_not.2 ?_)
    · rw [hrun]
      exact hne
    · refine ⟨not_not.1 hlen, not_not.1 hkey, ?_⟩
      intro keys hkeys
      rw [owned_eq_none.2 (Dict.get?_eq_none.1 hu)] at hkeys
      cases hkeys
  by_cases hm : key ∈ (s.objs r).addressesOwned
  · refine iff_of_true (allOrNothing_of_ok ?_) fun h => h.2.2 _ (owned_eq_some hu) hm
    simp only [Admin.run, removeKey, if_neg hlen, if_neg hkey, Server.setBook_clientDb, hu]
    rw [if_pos (by exact hm)]
  · have hrun : (Admin.removeKey key uuid).run s = (s.setBook (s.addressBook.erase key),
        .error (.valueError "list.remove(x): x not in list")) := by
      simp only [Admin.run, removeKey, if_neg hlen, if_neg hkey, Server.setBook_clientDb, hu]
      rw [if_neg (by exact hm)]
    refine iff_of_false (not_allOrNothing (congrArg Prod.snd hrun) ?_) (not_not.2 ?_)
    · rw [hrun]
      exact hne
    · refine ⟨not_not.1 hlen, not_not.1 hkey, ?_⟩
      intro keys hkeys
      rw [owned_eq_some hu] at hkeys
      cases hkeys
      exact hm

end

/-- **All or nothing**: in every state a call that raises changed nothing if and only if it did
    not raise behind its first write. -/
theorem all_or_nothing_iff (s : Server K) (op : Admin) :
    op.AllOrNothing s ↔ ¬ op.HalfDone s := by
  cases op with
  | addClient t => exact iff_of_true (addClient_allOrNothing s t) id
  | removeClient uuid => exact removeClient_allOrNothing
  | addKey key uuid => exact addKey_allOrNothing
  | removeKey key uuid => exact removeKey_allOrNothing

/-- Two preset clients; one of them claims the addresses `j`, which goes to the other, and `k`,
    which nobody binds. -/
def presetActs : List Act :=
  [.admin (.addClient ⟨sampleUuid, [], [], .empty⟩),
    .admin (.addClient ⟨otherUuid, [['j'], ['k']], [], .empty⟩),
    .admin (.addKey ['j'] sampleUuid)]

/-- **A state of the server** in which `add_key` for an unknown client, `remove_key` by another
    than the owner and `remove_client` for a client with an unbound address raise half done. -/
theorem half_done_reached : ∃ (S : Sys ℕ) (os : List (Obs ℕ)),
    Lts.Run (Lts.Guarded (Sys.step stub) fun _ _ _ => True) (.init [] false) S os ∧
      ¬ (Admin.addKey ['n'] (List.replicate 36 'c')).AllOrNothing S.server ∧
      ¬ (Admin.removeKey ['j'] (List.replicate 36 'c')).AllOrNothing S.server ∧
      ¬ (Admin.removeClient otherUuid).AllOrNothing S.server := by
  have hexec : Lts.exec (Sys.step stub) presetActs (Sys.init [] false) = some _ := rfl
  have halong : Lts.Along (Sys.step stub) (fun _ _ _ => True) presetActs (Sys.init [] false) :=
    ⟨trivial, trivial, trivial, trivial⟩
  refine ⟨_, _, Lts.exec_run hexec halong, ?_, ?_, ?_⟩
  · exact not_allOrNothing (e := .valueError "Client not in client db") (by decide) (by decide)
  · exact not_allOrNothing (e := .valueError "Client not in client db") (by decide) (by decide)
  · exact not_allOrNothing (e := .keyError) (by decide) (by decide)

/-! ## `apply_client_state` -/

/-- A key is bound to a session exactly if the session lists it. -/
def Server.Consistent (s : Server K) : Prop :=
  ∀ k u, s.addressBook.get? k = some u ↔ ∃ ks, s.owned u = some ks ∧ k ∈ ks

/-- The session of the ticket has what the ticket gives, with responses keyed by their uuids, no
    other session's addresses changed, and the two sides agree. -/
structure TicketApplied (s s' : Server K) (t : NewClientTicket) : Prop where
  session : ∃ cl, s'.client t.uuid = some cl ∧ cl.inbox = t.inbox ∧ cl.outbox = t.outbox ∧
    cl.addressesOwned = t.addressesOwned ∧ ∀ p ∈ cl.outbox.items, p.1 = p.2.response_uuid
  others : ∀ u, u ≠ t.uuid → s'.owned u = s.owned u ∧
    ∀ k, s'.addressBook.get? k = some u ↔ s.addressBook.get? k = some u
  consistent : s'.Consistent

/-- What `apply_client_state` owes its caller: nothing changed if it raises. -/
def AppliesTicket (s : Server K) (t : NewClientTicket) (strict : Bool) : Prop :=
  match applyClientState s t strict with
  | (s', .error _) => s'.client t.uuid = s.client t.uuid ∧ s'.addressBook = s.addressBook
  | (s', .ok ()) => TicketApplied s s' t

/-- The tickets it deals with.  A strict call that finds an unbound key must not have changed the
    boxes; every other call must give each response its uuid as key, drop no key the session had
    and take none of another session. -/
def Applicable (s : Server K) (t : NewClientTicket) (strict : Bool) : Prop :=
  t.uuid.length = 36 → ∀ cl, s.client t.uuid = some cl →
    if strict ∧ ∃ k ∈ t.addressesOwned, k ∉ s.addressBook then
      t.inbox = cl.inbox ∧ t.outbox = cl.outbox
    else
      (∀ p ∈ t.outbox.items, p.1 = p.2.response_uuid) ∧
      (∀ k ∈ cl.addressesOwned, k ∈ t.addressesOwned) ∧
      ∀ k ∈ t.addressesOwned, ∀ u, s.addressBook.get? k = some u → u = t.uuid

section
variable {s : Server K} {book : Dict PyStr PyStr} {uuid : PyStr} {keys : List PyStr}
  {t : NewClientTicket} {strict : Bool}

/-- A strict loop binds nothing. -/
theorem bindKeys_strict : bindKeys book uuid true keys = (book,
    if ∃ k ∈ keys, k ∉ book then .error (.valueError "Key not in address book") else .ok ()) := by
  induction keys with
  | nil => simp [bindKeys]
  | cons key keys ih =>
    rw [bindKeys]
    by_cases hkey : key ∈ book
    · rw [if_pos hkey, ih]
      simp [hkey]
    · rw [if_neg hkey]
      simp [hkey]

/-- The other binds every key that nobody has. -/
theorem bindKeys_lax : ∃ book', bindKeys book uuid false keys = (book', .ok ()) ∧
    ∀ k, book'.get? k = if k ∈ keys ∧ k ∉ book then some uuid else book.get? k := by
  induction keys generalizing book with
  | nil => exact ⟨book, rfl, by simp⟩
  | cons key keys ih =>
    rw [bindKeys]
    by_cases hkey : key ∈ book
    · rw [if_pos hkey]
      obtain ⟨book', h, hget⟩ := @ih book
      refine ⟨book', h, fun k => ?_⟩
      rw [hget]
      by_cases hk : k = key
      · subst hk
        simp [hkey]
      · simp [hk]
    · rw [if_neg hkey, if_neg Bool.false_ne_true]
      obtain ⟨book', h, hget⟩ := @ih (book.set key uuid)
      refine ⟨book', h, fun k => ?_⟩
      rw [hget]
      by_cases hk : k = key
      · subst hk
        simp [hkey, Dict.mem_set]
      · simp [hk, Dict.mem_set, Dict.get?_set_ne _ hk]

/-! ### The state after the call -/

variable {r : Ref}

/-- The state after the boxes were replaced. -/
def withBoxes (s : Server K) (r : Ref) (t : NewClientTicket) : Server K :=
  (s.modify r (Client.setInbox t.inbox)).modify r (Client.setOutbox t.outbox)

theorem withBoxes_wf (hw : s.WfRefs) : (withBoxes s r t).WfRefs :=
  (hw.modify (f := Client.setInbox t.inbox) fun _ => rfl).modify
    (f := Client.setOutbox t.outbox) fun _ => rfl

theorem withBoxes_objs :
    (withBoxes s r t).objs r = ((s.objs r).setInbox t.inbox).setOutbox t.outbox := by
  rw [withBoxes, Server.modify_objs_self, Server.modify_objs_self]

/-- The session lists the addresses of the ticket, the others what they listed. -/
theorem owned_applied (hw : s.WfRefs) (hu : s.clientDb.get? uuid = some r) :
    (((withBoxes s r t).setBook book).modify r (Client.setOwned keys)).owned =
      Function.update s.owned uuid (some keys) := by
  have hbook : ((withBoxes s r t).setBook book).WfRefs := withBoxes_wf (t := t) hw
  have hboxes : ((withBoxes s r t).setBook book).owned =
      Function.update s.owned uuid (some (s.objs r).addressesOwned) := by
    show (withBoxes s r t).owned = _
    rw [withBoxes, owned_modify (hw.modify (f := Client.setInbox t.inbox) fun _ => rfl) hu,
      owned_modify hw hu, Function.update_idem, Server.modify_objs_self]
    rfl
  rw [owned_modify hbook hu, hboxes, Function.update_idem]
  rfl

/-- The two sides agree again if the session gave up no key and took none. -/
theorem consistent_applied (hc : s.Consistent) (hu : s.clientDb.get? uuid = some r)
    (hget : ∀ k, book.get? k =
      if k ∈ keys ∧ k ∉ s.addressBook then some uuid else s.addressBook.get? k) :
    (∀ k u, book.get? k = some u ↔ ∃ ks, Function.update s.owned uuid (some keys) u = some ks ∧
        k ∈ ks) ↔
      (∀ k ∈ (s.objs r).addressesOwned, k ∈ keys) ∧
        ∀ k ∈ keys, ∀ u, s.addressBook.get? k = some u → u = uuid := by
  have howned : ∀ k, s.addressBook.get? k = some uuid ↔ k ∈ (s.objs r).addressesOwned := by
    intro k
    rw [hc k uuid, owned_eq_some hu]
    simp
  have hbound : ∀ k u, s.addressBook.get? k = some u → book.get? k = some u := by
    intro k u hk
    rw [hget, if_neg (fun h => h.2 (Dict.mem_of_get? hk)), hk]
  constructor
  · intro h
    constructor
    · intro k hk
      obtain ⟨ks, hks, hm⟩ := (h k uuid).1 (hbound k uuid ((howned k).2 hk))
      rw [Function.update_self] at hks
      cases hks
      exact hm
    · intro k hk u hu'
      have hself : book.get? k = some uuid := (h k uuid).2 ⟨keys, Function.update_self .., hk⟩
      rw [hbound k u hu'] at hself
      exact Option.some.inj hself
  · rintro ⟨hkept, hfree⟩ k u
    rw [hget]
    by_cases he : u = uuid
    · subst he
      rw [Function.update_self]
      simp only [Option.some.injEq, exists_eq_left']
      split_ifs with hk
      · simp [hk.1]
      · rw [howned]
        constructor
        · exact hkept k
        · intro hm
          have hmem : k ∈ s.addressBook := by
            by_contra hn
            exact hk ⟨hm, hn⟩
          obtain ⟨u', hu'⟩ := Dict.mem_iff.1 hmem
          rw [← howned, hu', hfree k hm u' hu']
    · rw [Function.update_of_ne he, ← hc]
      split_ifs with hk
      · have hnone : s.addressBook.get? k = none := Dict.get?_eq_none.2 hk.2
        rw [hnone]
        constructor
        · intro h
          exact absurd (Option.some.inj h).symm he
        · intro h
          cases h
      · rfl

/-- What the call reaches is what the ticket asks for, or the ticket is one that it does not deal
    with. -/
theorem applied_iff (hw : s.WfRefs) (hc : s.Consistent) (hu : s.clientDb.get? t.uuid = some r)
    (hget : ∀ k, book.get? k = if k ∈ t.addressesOwned ∧ k ∉ s.addressBook then some t.uuid
      else s.addressBook.get? k) :
    TicketApplied s (((withBoxes s r t).setBook book).modify r (Client.setOwned t.addressesOwned)) t ↔
      (∀ p ∈ t.outbox.items, p.1 = p.2.response_uuid) ∧
      (∀ k ∈ (s.objs r).addressesOwned, k ∈ t.addressesOwned) ∧
      ∀ k ∈ t.addressesOwned, ∀ u, s.addressBook.get? k = some u → u = t.uuid := by
  have howned : (((withBoxes s r t).setBook book).modify r (Client.setOwned t.addressesOwned)).owned =
      Function.update s.owned t.uuid (some t.addressesOwned) := owned_applied hw hu
  rw [← consistent_applied hc hu hget, ← howned]
  constructor
  · rintro ⟨⟨cl, -, -, hout, -, hkeyed⟩, -, hcons⟩
    exact ⟨hout ▸ hkeyed, hcons⟩
  · rintro ⟨hkeyed, hcons⟩
    refine ⟨?_, ?_, hcons⟩
    · refine ⟨_, Server.client_eq_some.2 ⟨r, hu, rfl⟩, ?_⟩
      rw [Server.modify_objs_self, Server.setBook_objs, withBoxes_objs]
      exact ⟨rfl, rfl, rfl, hkeyed⟩
    · intro u hne
      refine ⟨by rw [howned, Function.update_of_ne hne], fun k => ?_⟩
      show book.get? k = some u ↔ _
      rw [hget]
      split_ifs with hk
      · rw [Dict.get?_eq_none.2 hk.2]
        constructor
        · intro h
          exact absurd (Option.some.inj h).symm hne
        · intro h
          cases h
      · rfl

/-- **A ticket is applied or refused as a whole** in exactly the cases of `Applicable`. -/
theorem ticket_applied_iff (hw : s.WfRefs) (hc : s.Consistent) :
    AppliesTicket s t strict ↔ Applicable s t strict := by
  unfold AppliesTicket Applicable applyClientState
  by_cases hlen : t.uuid.length ≠ 36
  · rw [if_pos hlen]
    exact iff_of_true ⟨rfl, rfl⟩ fun h => absurd h hlen
  rw [if_neg hlen]
  rcases hu : s.clientDb.get? t.uuid with _ | r
  · refine iff_of_true ⟨rfl, rfl⟩ ?_
    intro _ cl hcl
    rw [Server.client_eq_none.2 hu] at hcl
    cases hcl
  have hcl : s.client t.uuid = some (s.objs r) := Server.client_eq_some.2 ⟨r, hu, rfl⟩
  have hcond : ∀ P : Client K → Prop, (t.uuid.length = 36 → ∀ cl, s.client t.uuid = some cl → P cl) ↔
      P (s.objs r) := by
    intro P
    constructor
    · intro h
      exact h (not_not.1 hlen) _ hcl
    · intro h _ cl hcl'
      rw [hcl] at hcl'
      cases hcl'
      exact h
  rw [hcond]
  cases strict with
  | true =>
    simp only [bindKeys_strict, Server.modify_addressBook, true_and]
    by_cases hunbound : ∃ k ∈ t.addressesOwned, k ∉ s.addressBook
    · -- the boxes were replaced before the keys were looked at
      simp only [if_pos hunbound]
      have hclient : (withBoxes s r t).client t.uuid =
          some (((s.objs r).setInbox t.inbox).setOutbox t.outbox) :=
        Server.client_eq_some.2 ⟨r, hu, withBoxes_objs⟩
      rw [hcl]
      show (withBoxes s r t).client t.uuid = _ ∧ _ ↔ _
      rw [hclient]
      constructor
      · rintro ⟨h, -⟩
        have hsame := Option.some.inj h
        rw [← hsame]
        exact ⟨rfl, rfl⟩
      · rintro ⟨hin, hout⟩
        rw [hin, hout]
        exact ⟨rfl, rfl⟩
    · simp only [if_neg hunbound]
      refine applied_iff hw hc hu fun k => ?_
      rw [if_neg fun h => hunbound ⟨k, h⟩]
  | false =>
    obtain ⟨book, hbind, hget⟩ := @bindKeys_lax s.addressBook t.uuid t.addressesOwned
    simp only [Server.modify_addressBook, hbind, Bool.false_eq_true, false_and, if_false]
    exact applied_iff hw hc hu hget

end

/-! ### One session that owns a key -/

/-- A server with one preset client, which has the address `k`. -/
def oneKey : Server ℕ :=
  (addKey (addClient (.init [] false) ⟨sampleUuid, [], [], .empty⟩).1 ['k'] sampleUuid).1

theorem oneKey_consistent : oneKey.Consistent ∧ oneKey.WfRefs := by
  have hadd : addClient (.init [] false : Server ℕ) ⟨sampleUuid, [], [], .empty⟩ =
      ((addClient (.init [] false) ⟨sampleUuid, [], [], .empty⟩).1, .ok ()) := rfl
  obtain ⟨hclient, hw⟩ := addClient_agree (agree_init [] false) (Server.wfRefs_init [] false) hadd
  have hkey : addKey (addClient (.init [] false : Server ℕ) ⟨sampleUuid, [], [], .empty⟩).1 ['k']
      sampleUuid = (oneKey, .ok ()) := rfl
  obtain ⟨hagree, hrefs⟩ := addKey_agree (hclient.2 rfl) hw hkey
  exact ⟨hagree.iff, hrefs⟩

/-- A ticket that keeps the address and brings another. -/
theorem ticket_applied_sample :
    AppliesTicket oneKey ⟨sampleUuid, [['k'], ['l']], [⟨[], [], [1], []⟩], .empty⟩ false := by
  refine (ticket_applied_iff oneKey_consistent.2 oneKey_consistent.1).2 ?_
  intro _ cl hcl
  have hcl' : oneKey.client sampleUuid = some cl := hcl
  cases hcl'
  decide

/-- **Tickets that are applied by half**: one with an unbound key, in a strict call, which raises
    when the inbox is already replaced, and one without the address the session had, which stays
    bound to the session. -/
theorem ticket_half_applied : oneKey.Consistent ∧ oneKey.WfRefs ∧
    ¬ AppliesTicket oneKey ⟨sampleUuid, [['k'], ['l']], [⟨[], [], [1], []⟩], .empty⟩ true ∧
    ¬ AppliesTicket oneKey ⟨sampleUuid, [], [], .empty⟩ true := by
  refine ⟨oneKey_consistent.1, oneKey_consistent.2, ?_, ?_⟩
  · intro h
    have hbox := congrArg (Option.map Client.inbox) h.1
    revert hbox
    decide
  · intro h
    have hbound : oneKey.addressBook.get? ['k'] = some sampleUuid := rfl
    obtain ⟨ks, hks, hk⟩ := ((TicketApplied.consistent h) ['k'] sampleUuid).1 hbound
    have hnone : ks = [] := (Option.some.inj hks).symm
    rw [hnone] at hk
    cases hk

end Pipebomb
