/-
  What a checkpoint does to the server it is taken of.

  `serialize` reads an inbox by taking the requests out of the queue, and nobody puts them
  back.

  * `Server.reached`: the clients whose inboxes are read, as far as the fields before them
    can be written.
  * `serializeClients_empty`, `serializeClients_taken`: the loop over the clients leaves
    everything as it is if the inboxes it reads are empty, and shortens one otherwise.
  * `serialize_undisturbed_iff`: a checkpoint leaves the server as it was, and a second one
    gives the same, if and only if the inboxes it reads are empty.
-/
import Pipebomb.CheckpointRoundTrip
import Pipebomb.Admin

namespace Pipebomb

open ByteString

variable {K : Type}

/-! ## What can be written -/

/-- The database and the address book can be written. -/
structure Server.MapsOk (s : Server K) : Prop where
  db : Short (dbFields s.db.items)
  address_latin1 : ∀ p ∈ s.addressBook.items, Latin1 p.1
  address_uuid : ∀ p ∈ s.addressBook.items, p.2.length = 36 ∧ Latin1 p.2
  book : Short (bookFields s.addressBook.items)

/-- The uuid and the addresses of a client can be written. -/
structure Client.OwnedOk (cl : Client K) : Prop where
  uuid_length : cl.uuid.length = 36
  uuid_latin1 : Latin1 cl.uuid
  owned_latin1 : ∀ a ∈ cl.addressesOwned, Latin1 a
  short : Short ((clientFields cl).take 2)

/-- The inbox and the outbox of a client can be written. -/
def Client.BoxesOk (cl : Client K) : Prop := Short ((clientFields cl).drop 2)

open Classical in
/-- The clients whose inboxes are read: all up to the first that cannot be written. -/
noncomputable def Server.reached (s : Server K) : List Ref → List Ref
  | [] => []
  | r :: rs =>
    if (s.objs r).OwnedOk then
      r :: if (s.objs r).BoxesOk then s.reached rs else []
    else []

variable {s s' : Server K} {T T' : Tables} {cl : Client K} {r : Ref}

theorem addField_eq (T : Tables) (t : UInt8) {v : Bytes} (h : v.length < 2 ^ 32) :
    T.addField t v = .ok ⟨T.t ++ [t], T.l ++ [beBytes 4 v.length], T.v ++ [v]⟩ := by
  simp only [Tables.addField, packI_eq h, ok_bind]

theorem addField_ok {t : UInt8} {v : Bytes} (h : T.addField t v = .ok T') : v.length < 2 ^ 32 := by
  obtain ⟨bs, hp, -⟩ := bind_eq_ok.1 h
  exact (packI_ok.1 hp).1

theorem serializeDb_ok {ps : List (Bytes × Bytes)} : ∀ {T T' : Tables},
    serializeDb T ps = .ok T' → Short (dbFields ps) := by
  induction ps with
  | nil => intro T T' _ f hf; cases hf
  | cons p ps ih =>
    intro T T' h
    obtain ⟨T₁, hk, h⟩ := bind_eq_ok.1 h
    obtain ⟨T₂, hv, h⟩ := bind_eq_ok.1 h
    exact Short.cons.2 ⟨addField_ok hk, Short.cons.2 ⟨addField_ok hv, ih h⟩⟩

theorem serializeAddressBook_ok {ps : List (PyStr × PyStr)} : ∀ {T T' : Tables},
    serializeAddressBook T ps = .ok T' → Short (bookFields ps) ∧ (∀ p ∈ ps, Latin1 p.1) ∧
      ∀ p ∈ ps, p.2.length = 36 ∧ Latin1 p.2 := by
  induction ps with
  | nil => intro T T' _; exact ⟨fun f hf => (by cases hf), by simp, by simp⟩
  | cons p ps ih =>
    intro T T' h
    simp only [serializeAddressBook] at h
    split_ifs at h with h36
    obtain ⟨len, hl, h₁⟩ := bind_eq_ok.1 h
    obtain ⟨key, hk, h₂⟩ := bind_eq_ok.1 h₁
    obtain ⟨T₁, hf, h₃⟩ := bind_eq_ok.1 h₂
    obtain ⟨uuid, hu, h₄⟩ := bind_eq_ok.1 h₃
    obtain ⟨T₂, hg, hrest⟩ := bind_eq_ok.1 h₄
    obtain ⟨-, rfl⟩ := packI_ok.1 hl
    obtain ⟨hkey, rfl⟩ := latin1Encode_ok hk
    obtain ⟨huuid, rfl⟩ := latin1Encode_ok hu
    obtain ⟨hs, hkeys, huuids⟩ := ih hrest
    have h20 : (field 4 (latin1 p.1)).length < 2 ^ 32 := by simpa [field] using addField_ok hf
    refine ⟨Short.cons.2 ⟨h20, Short.cons.2 ⟨addField_ok hg, hs⟩⟩, ?_, ?_⟩
    · intro q hq
      rcases List.mem_cons.1 hq with rfl | hq
      · exact hkey
      · exact hkeys q hq
    · intro q hq
      rcases List.mem_cons.1 hq with rfl | hq
      · exact ⟨not_not.1 h36, huuid⟩
      · exact huuids q hq

theorem packFields_ok {bss : List Bytes} : ∀ {bs : Bytes}, packFields bss = .ok bs →
    bs = fields 4 bss := by
  induction bss with
  | nil => intro bs h; cases h; rfl
  | cons b bss ih =>
    intro bs h
    obtain ⟨len, hl, h⟩ := bind_eq_ok.1 h
    obtain ⟨rest, hr, h⟩ := bind_eq_ok.1 h
    obtain ⟨-, rfl⟩ := packI_ok.1 hl
    cases h
    rw [ih hr, fields_cons, field]

theorem packAddresses_ok {as : List PyStr} : ∀ {bs : Bytes}, packAddresses as = .ok bs →
    (∀ a ∈ as, Latin1 a) ∧ bs = (as.map addressBytes).flatten := by
  induction as with
  | nil => intro bs h; cases h; exact ⟨by simp, rfl⟩
  | cons a as ih =>
    intro bs h
    obtain ⟨enc, he, h⟩ := bind_eq_ok.1 h
    obtain ⟨len, hl, h⟩ := bind_eq_ok.1 h
    obtain ⟨rest, hr, h⟩ := bind_eq_ok.1 h
    obtain ⟨-, rfl⟩ := packI_ok.1 hl
    obtain ⟨ha, rfl⟩ := latin1Encode_ok he
    obtain ⟨has, rfl⟩ := ih hr
    cases h
    refine ⟨?_, by simp [addressBytes, field]⟩
    intro b hb
    rcases List.mem_cons.1 hb with rfl | hb
    · exact ha
    · exact has b hb

/-- The fields of a client before its inbox are written if and only if they can be. -/
theorem serializeOwned_ok : (∃ T', serializeOwned T cl = .ok T') ↔ cl.OwnedOk := by
  constructor
  · rintro ⟨T', h⟩
    simp only [serializeOwned] at h
    split_ifs at h with h36
    obtain ⟨uuid, hu, h⟩ := bind_eq_ok.1 h
    obtain ⟨T₁, hf, h⟩ := bind_eq_ok.1 h
    obtain ⟨owned, ho, h⟩ := bind_eq_ok.1 h
    obtain ⟨hlat, rfl⟩ := latin1Encode_ok hu
    obtain ⟨hall, rfl⟩ := packAddresses_ok ho
    exact ⟨not_not.1 h36, hlat, hall, Short.cons.2 ⟨addField_ok hf, Short.cons.2
      ⟨addField_ok h, fun f hf => (by cases hf)⟩⟩⟩
  · intro hc
    have h := hc.short
    simp only [clientFields, List.take_succ_cons, List.take_zero, Short.cons] at h
    obtain ⟨h30, h31, -⟩ := h
    have howned := packAddresses_eq hc.owned_latin1 (by rw [List.length_append] at h31; omega)
    rcases hs : serializeOwned T cl with e | T'
    · simp only [serializeOwned, hc.uuid_length, ne_eq, not_true_eq_false, if_false,
        latin1Encode_eq hc.uuid_latin1, howned, ok_bind, addField_eq _ _ h30,
        addField_eq _ _ h31] at hs
      cases hs
    · exact ⟨T', rfl⟩

/-! ## The inboxes -/

/-- Reading an inbox takes the first request out. -/
theorem length_drainInbox (qs : List Request) :
    (drainInbox qs).1.length ≤ qs.length ∧ (qs ≠ [] → (drainInbox qs).1.length < qs.length) := by
  induction qs with
  | nil => exact ⟨Nat.le_refl 0, fun h => absurd rfl h⟩
  | cons q qs ih =>
    have : (drainInbox (q :: qs)).1.length < (q :: qs).length := by
      rcases hq : packRequest q with e | bs
      · simp [drainInbox, hq]
      · rcases hd : drainInbox qs with ⟨left, e | bss⟩
        · simp only [drainInbox, hq, hd, List.length_cons]
          have := ih.1
          rw [hd] at this
          exact Nat.lt_succ_of_le this
        · simp only [drainInbox, hq, hd, List.length_cons]
          have := ih.1
          rw [hd] at this
          exact Nat.lt_succ_of_le this
    exact ⟨Nat.le_of_lt this, fun _ => this⟩

theorem packOutbox_ok {ps : List Response} : ∀ {bs : Bytes}, packOutbox ps = .ok bs →
    bs = (ps.map responseBytes).flatten := by
  induction ps with
  | nil => intro bs h; cases h; rfl
  | cons p ps ih =>
    intro bs h
    obtain ⟨b, hb, h₁⟩ := bind_eq_ok.1 h
    obtain ⟨rest, hr, h₂⟩ := bind_eq_ok.1 h₁
    cases h₂
    rw [packFields_ok hb, ih hr]
    rfl

/-- The boxes of a client with an empty inbox are written if and only if they can be. -/
theorem serializeBoxes_ok (hu : Latin1 cl.uuid) (hi : cl.inbox = []) :
    (∃ T', serializeBoxes T cl (.ok []) = .ok T') ↔ cl.BoxesOk := by
  simp only [Client.BoxesOk, clientFields, List.drop_succ_cons, List.drop_zero, Short.cons, hi,
    List.map_nil, List.flatten_nil]
  constructor
  · rintro ⟨T', h⟩
    simp only [serializeBoxes, latin1Encode_eq hu, ok_bind] at h
    obtain ⟨T₁, hf, h₁⟩ := bind_eq_ok.1 h
    obtain ⟨out, ho, h₂⟩ := bind_eq_ok.1 h₁
    obtain rfl := packOutbox_ok ho
    exact ⟨addField_ok hf, addField_ok h₂, fun f hf => (by cases hf)⟩
  · rintro ⟨h32, h33, -⟩
    have hout : packOutbox cl.outbox.values = _ :=
      packOutbox_eq (by rw [List.length_append] at h33; omega)
    rcases hs : serializeBoxes T cl (.ok []) with e | T'
    · simp only [serializeBoxes, latin1Encode_eq hu, hout, ok_bind, addField_eq _ _ h32,
        addField_eq _ _ h33] at hs
      cases hs
    · exact ⟨T', rfl⟩

theorem modify_setInbox (hi : (s.objs r).inbox = []) : s.modify r (Client.setInbox []) = s := by
  have hsame : Client.setInbox [] (s.objs r) = s.objs r := by rw [← hi]; rfl
  rw [Server.modify, hsame, Function.update_eq_self]

/-! ## The loop over the clients -/

/-- Inboxes only get shorter. -/
theorem serializeClients_le (r : Ref) {rs : List Ref} : ∀ {s : Server K} {T : Tables},
    (((serializeClients s T rs).1.objs r).inbox).length ≤ (s.objs r).inbox.length := by
  induction rs with
  | nil => intro s T; exact Nat.le_refl _
  | cons r' rs ih =>
    intro s T
    simp only [serializeClients, serializeClient]
    rcases serializeOwned T (s.objs r') with e | T₁
    · exact Nat.le_refl _
    · have hle : (((s.modify r' (Client.setInbox (drainInbox (s.objs r').inbox).1)).objs r).inbox).length ≤
          (s.objs r).inbox.length := by
        rw [Server.modify_objs]
        split_ifs with he
        · rw [← he]
          exact (length_drainInbox _).1
        · exact Nat.le_refl _
      rcases hb : serializeBoxes T₁ (s.objs r') (drainInbox (s.objs r').inbox).2 with e | T₂
      · simp only [hb]; exact hle
      · simp only [hb]; exact Nat.le_trans ih hle

/-- If the inboxes that are read are empty, nothing changes. -/
theorem serializeClients_empty {rs : List Ref} : ∀ {T : Tables},
    (∀ r ∈ s.reached rs, (s.objs r).inbox = []) → (serializeClients s T rs).1 = s := by
  induction rs with
  | nil => intro T _; rfl
  | cons r rs ih =>
    intro T h
    simp only [serializeClients, serializeClient]
    rcases ho : serializeOwned T (s.objs r) with e | T₁
    · rfl
    · have howned := serializeOwned_ok.1 ⟨T₁, ho⟩
      rw [Server.reached, if_pos howned] at h
      have hi := h r (by simp)
      simp only [hi, drainInbox, modify_setInbox hi]
      rcases hb : serializeBoxes T₁ (s.objs r) (.ok []) with e | T₂
      · rfl
      · refine ih fun r' hr' => h r' (List.mem_cons_of_mem _ ?_)
        rw [if_pos ((serializeBoxes_ok howned.uuid_latin1 hi).1 ⟨T₂, hb⟩)]
        exact hr'

/-- If an inbox that is read is not empty, requests are taken out of one. -/
theorem serializeClients_taken {rs : List Ref} : ∀ {T : Tables},
    (∃ r ∈ s.reached rs, (s.objs r).inbox ≠ []) →
      ∃ r ∈ rs, (((serializeClients s T rs).1.objs r).inbox).length < (s.objs r).inbox.length := by
  induction rs with
  | nil => rintro T ⟨r, hr, -⟩; cases hr
  | cons r rs ih =>
    rintro T ⟨r', hr', hne⟩
    by_cases howned : (s.objs r).OwnedOk
    · obtain ⟨T₁, ho⟩ := serializeOwned_ok (T := T).2 howned
      rw [Server.reached, if_pos howned] at hr'
      simp only [serializeClients, serializeClient, ho]
      by_cases hi : (s.objs r).inbox = []
      · rcases List.mem_cons.1 hr' with rfl | hr'
        · exact absurd hi hne
        · by_cases hboxes : (s.objs r).BoxesOk
          · obtain ⟨T₂, hb⟩ := (serializeBoxes_ok (T := T₁) howned.uuid_latin1 hi).2 hboxes
            rw [if_pos hboxes] at hr'
            simp only [hi, drainInbox, modify_setInbox hi, hb]
            obtain ⟨r'', hm, hlt⟩ := ih ⟨r', hr', hne⟩
            exact ⟨r'', List.mem_cons_of_mem _ hm, hlt⟩
          · rw [if_neg hboxes] at hr'
            cases hr'
      · refine ⟨r, by simp, ?_⟩
        have hlt : (((s.modify r (Client.setInbox (drainInbox (s.objs r).inbox).1)).objs r).inbox).length <
            (s.objs r).inbox.length := by
          rw [Server.modify_objs_self]
          exact (length_drainInbox _).2 hi
        rcases serializeBoxes T₁ (s.objs r) (drainInbox (s.objs r).inbox).2 with e | T₂
        · exact hlt
        · exact Nat.lt_of_le_of_lt (serializeClients_le r) hlt
    · rw [Server.reached, if_neg howned] at hr'
      cases hr'

/-! ## A checkpoint -/

/-- The state a checkpoint is about is the same. -/
structure SameState (s s' : Server K) : Prop where
  db : s'.db = s.db
  addressBook : s'.addressBook = s.addressBook
  clientDb : s'.clientDb = s.clientDb
  addressesOwned : ∀ r ∈ s.clientDb.values, (s'.objs r).addressesOwned = (s.objs r).addressesOwned
  inbox : ∀ r ∈ s.clientDb.values, (s'.objs r).inbox = (s.objs r).inbox
  outbox : ∀ r ∈ s.clientDb.values, (s'.objs r).outbox = (s.objs r).outbox

theorem SameState.refl (s : Server K) : SameState s s :=
  ⟨rfl, rfl, rfl, fun _ _ => rfl, fun _ _ => rfl, fun _ _ => rfl⟩

/-- The inboxes a checkpoint reads are empty. -/
def Server.InboxesEmpty (s : Server K) : Prop :=
  s.MapsOk → ∀ r ∈ s.reached s.clientDb.values, (s.objs r).inbox = []

theorem tables_maps : (∃ T₁ T₂, serializeDb ⟨[], [], []⟩ s.db.items = .ok T₁ ∧
    serializeAddressBook T₁ s.addressBook.items = .ok T₂) ↔ s.MapsOk := by
  constructor
  · rintro ⟨T₁, T₂, h₁, h₂⟩
    obtain ⟨hs, hk, hu⟩ := serializeAddressBook_ok h₂
    exact ⟨serializeDb_ok h₁, hk, hu, hs⟩
  · intro h
    exact ⟨_, _, serializeDb_eq [] h.db,
      serializeAddressBook_eq _ h.book h.address_latin1 h.address_uuid⟩

theorem serialize_server (L : Libs K) (s : Server K) : (serialize L s).1 = (tables s).1 := by
  unfold serialize
  rcases tables s with ⟨s', e | T⟩
  · rfl
  · rfl

/-- The server after a checkpoint. -/
theorem tables_server (hmaps : s.MapsOk) :
    ∃ T, (tables s).1 = (serializeClients s T s.clientDb.values).1 := by
  obtain ⟨T₁, T₂, h₁, h₂⟩ := tables_maps.2 hmaps
  exact ⟨T₂, by simp only [tables, h₁, h₂]⟩

theorem tables_unread (hmaps : ¬ s.MapsOk) : (tables s).1 = s := by
  unfold tables
  rcases h₁ : serializeDb ⟨[], [], []⟩ s.db.items with e | T₁
  · rfl
  · rcases h₂ : serializeAddressBook T₁ s.addressBook.items with e | T₂
    · simp only [h₂]
    · exact absurd (tables_maps.1 ⟨T₁, T₂, h₁, h₂⟩) hmaps

/-- **When a checkpoint disturbs the server.**  It leaves the database, the address book
    and every client's names and boxes as they were, and a second one gives the same, if and
    only if the inboxes it reads are empty. -/
theorem serialize_undisturbed_iff (L : Libs K) (s : Server K) :
    (SameState s (serialize L s).1 ∧
      (serialize L (serialize L s).1).2 = (serialize L s).2) ↔ s.InboxesEmpty := by
  rw [serialize_server]
  constructor
  · rintro ⟨h, -⟩ hmaps
    by_contra hex
    have hex' : ∃ r ∈ s.reached s.clientDb.values, (s.objs r).inbox ≠ [] := by
      by_contra hall
      exact hex fun r hr => by_contra fun hne => hall ⟨r, hr, hne⟩
    obtain ⟨T, hT⟩ := tables_server hmaps
    obtain ⟨r, hr, hlt⟩ := serializeClients_taken (T := T) hex'
    rw [← hT, h.inbox r hr] at hlt
    exact Nat.lt_irrefl _ hlt
  · intro h
    have hsame : (tables s).1 = s := by
      by_cases hmaps : s.MapsOk
      · obtain ⟨T, hT⟩ := tables_server hmaps
        rw [hT, serializeClients_empty (h hmaps)]
      · exact tables_unread hmaps
    rw [hsame]
    exact ⟨.refl s, rfl⟩

/-- A server with one client that has one request in its inbox. -/
def requestWaits : Server ℕ :=
  (addClient (.init [] false) ⟨List.replicate 36 'a', [], [⟨[97], [], [1], [2]⟩], .empty⟩).1

/-- **A checkpoint takes the requests away**, and the next one does not have them. -/
theorem serialize_disturbs : ¬ SameState requestWaits (serialize stub requestWaits).1 ∧
    ((serialize stub requestWaits).1.objs 0).inbox = [] ∧
      (serialize stub (serialize stub requestWaits).1).2 ≠ (serialize stub requestWaits).2 := by
  have hempty : ((serialize stub requestWaits).1.objs 0).inbox = [] := by decide +kernel
  refine ⟨fun h => ?_, hempty, by decide +kernel⟩
  have hsame := h.inbox 0 (by decide)
  rw [hempty] at hsame
  exact absurd hsame (by decide)

end Pipebomb
