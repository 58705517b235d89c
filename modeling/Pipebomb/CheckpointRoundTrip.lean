/-
  Checkpoints restore what was held.

  * `Snapshot.fields` is the row of fields of a checkpoint; `Encodable` is the condition
    under which `tables` succeeds, and `tables_eq` says that it writes these fields.
  * `readItems_encode`: a cursor loop reads back the items that were written one after
    the other; one lemma for the addresses, the requests and the responses.
  * `restoreFields_db`, `restoreFields_book`, `restoreFields_clients` follow the fold of
    `deserialize` group by group.
  * `checkpoint_round_trip`: deserializing gives the maps back, with every client as it
    was apart from its connection, and serializing the result writes the same tables.
-/
import Pipebomb.Checkpoint
import Pipebomb.Stub

namespace Pipebomb

open ByteString

variable {K : Type}

/-! ## The fields of a checkpoint -/

/-- A field: its type and its value. -/
abbrev Field := UInt8 × Bytes

def dbFields (ps : List (Bytes × Bytes)) : List Field :=
  ps.flatMap fun p => [(0x10, p.1), (0x11, p.2)]

def bookFields (ps : List (PyStr × PyStr)) : List Field :=
  ps.flatMap fun p => [(0x20, field 4 (latin1 p.1)), (0x21, latin1 p.2)]

def requestBytes (q : Request) : Bytes :=
  fields 4 [q.return_uuid, q.key, q.request, q.request_uuid]

def responseBytes (p : Response) : Bytes := fields 4 [p.key, p.response, p.response_uuid]

def addressBytes (a : PyStr) : Bytes := field 4 (latin1 a)

def clientFields (cl : Client K) : List Field :=
  [(0x30, latin1 cl.uuid),
   (0x31, latin1 cl.uuid ++ (cl.addressesOwned.map addressBytes).flatten),
   (0x32, latin1 cl.uuid ++ (cl.inbox.map requestBytes).flatten),
   (0x33, latin1 cl.uuid ++ (cl.outbox.values.map responseBytes).flatten)]

def Snapshot.fields (C : Snapshot K) : List Field :=
  dbFields C.db.items ++ bookFields C.addressBook.items ++ C.clientDb.values.flatMap clientFields

/-- The tables of a row of fields. -/
def Tables.ofFields (fs : List Field) : Tables :=
  ⟨fs.map Prod.fst, fs.map fun f => beBytes 4 f.2.length, fs.map Prod.snd⟩

/-- A client that can be written. -/
structure Client.Encodable (cl : Client K) : Prop where
  uuid_length : cl.uuid.length = 36
  uuid_latin1 : Latin1 cl.uuid
  owned_latin1 : ∀ a ∈ cl.addressesOwned, Latin1 a
  outbox_keyed : ∀ p ∈ cl.outbox.items, p.2.response_uuid = p.1

/-- Maps that can be written: strings in latin-1, uuids of 36 characters, clients and
    responses under their own uuids, and tables whose lengths fit in 32 bits. -/
structure Snapshot.Encodable (C : Snapshot K) : Prop where
  address_latin1 : ∀ p ∈ C.addressBook.items, Latin1 p.1
  address_uuid : ∀ p ∈ C.addressBook.items, p.2.length = 36 ∧ Latin1 p.2
  client_keyed : ∀ p ∈ C.clientDb.items, p.2.uuid = p.1
  client : ∀ cl ∈ C.clientDb.values, cl.Encodable
  lengthTable_fits : (Tables.ofFields C.fields).l.flatten.length < 2 ^ 32
  valueTable_fits : (Tables.ofFields C.fields).v.flatten.length < 2 ^ 32

/-- Values short enough for `struct.pack(">I", …)`. -/
def Short (fs : List Field) : Prop := ∀ f ∈ fs, f.2.length < 2 ^ 32

theorem Short.append {fs gs : List Field} : Short (fs ++ gs) ↔ Short fs ∧ Short gs := by
  simp only [Short, List.mem_append]
  exact ⟨fun h => ⟨fun f hf => h f (.inl hf), fun f hf => h f (.inr hf)⟩,
    fun h f hf => hf.elim (h.1 f) (h.2 f)⟩

theorem Short.cons {f : Field} {fs : List Field} :
    Short (f :: fs) ↔ f.2.length < 2 ^ 32 ∧ Short fs := by simp [Short]

theorem length_le_flatten {bs : Bytes} {bss : List Bytes} (h : bs ∈ bss) :
    bs.length ≤ bss.flatten.length := (List.sublist_flatten_of_mem h).length_le

theorem Snapshot.Encodable.short {C : Snapshot K} (h : C.Encodable) : Short C.fields :=
  fun _ hf => Nat.lt_of_le_of_lt (length_le_flatten (List.mem_map_of_mem hf)) h.valueTable_fits

/-! ## Writing -/

theorem addField_ofFields (fs : List Field) (t : UInt8) {v : Bytes} (h : v.length < 2 ^ 32) :
    (Tables.ofFields fs).addField t v = .ok (Tables.ofFields (fs ++ [(t, v)])) := by
  simp [Tables.addField, packI_eq h, Tables.ofFields]

theorem serializeDb_eq {ps : List (Bytes × Bytes)} : ∀ fs : List Field, Short (dbFields ps) →
    serializeDb (.ofFields fs) ps = .ok (.ofFields (fs ++ dbFields ps)) := by
  induction ps with
  | nil => intro fs _; simp [serializeDb, dbFields]
  | cons p ps ih =>
    intro fs h
    have hp : dbFields (p :: ps) = [(0x10, p.1)] ++ [(0x11, p.2)] ++ dbFields ps := rfl
    rw [hp, Short.append, Short.append, Short.cons, Short.cons] at h
    obtain ⟨⟨⟨hk, -⟩, hv, -⟩, hps⟩ := h
    simp only [serializeDb, addField_ofFields _ _ hk, addField_ofFields _ _ hv, ok_bind, ih _ hps, hp,
      List.append_assoc]

theorem serializeAddressBook_eq {ps : List (PyStr × PyStr)} :
    ∀ fs : List Field, Short (bookFields ps) → (∀ p ∈ ps, Latin1 p.1) →
      (∀ p ∈ ps, p.2.length = 36 ∧ Latin1 p.2) →
      serializeAddressBook (.ofFields fs) ps = .ok (.ofFields (fs ++ bookFields ps)) := by
  induction ps with
  | nil => intro fs _ _ _; simp [serializeAddressBook, bookFields]
  | cons p ps ih =>
    intro fs h hkey huuid
    have hp : bookFields (p :: ps) =
      [(0x20, field 4 (latin1 p.1))] ++ [(0x21, latin1 p.2)] ++ bookFields ps := rfl
    rw [hp, Short.append, Short.append, Short.cons, Short.cons] at h
    obtain ⟨⟨⟨hk, -⟩, hv, -⟩, hps⟩ := h
    obtain ⟨hlen, hlat⟩ := huuid p (by simp)
    have hkl : p.1.length < 2 ^ 32 := by simp at hk; omega
    have hf : beBytes 4 p.1.length ++ latin1 p.1 = field 4 (latin1 p.1) := by simp [field]
    have hkey' : ∀ q ∈ ps, Latin1 q.1 := fun q hq => hkey q (by simp [hq])
    have huuid' : ∀ q ∈ ps, q.2.length = 36 ∧ Latin1 q.2 := fun q hq => huuid q (by simp [hq])
    simp only [serializeAddressBook, hlen, ne_eq, not_true_eq_false, if_false, packI_eq hkl,
      latin1Encode_eq (hkey p (by simp)), hf, addField_ofFields _ _ hk, latin1Encode_eq hlat,
      addField_ofFields _ _ hv, ok_bind, ih _ hps hkey' huuid', hp, List.append_assoc]

theorem packFields_eq {bss : List Bytes} (h : ∀ bs ∈ bss, bs.length < 2 ^ 32) :
    packFields bss = .ok (fields 4 bss) := by
  induction bss with
  | nil => rfl
  | cons bs bss ih =>
    simp only [packFields, packI_eq (h bs (by simp)), ih fun b hb => h b (by simp [hb]), ok_bind,
      fields_cons, field]

theorem packAddresses_eq {as : List PyStr} (hl : ∀ a ∈ as, Latin1 a)
    (h : (as.map addressBytes).flatten.length < 2 ^ 32) :
    packAddresses as = .ok (as.map addressBytes).flatten := by
  induction as with
  | nil => rfl
  | cons a as ih =>
    have hcons : ((a :: as).map addressBytes).flatten =
        addressBytes a ++ (as.map addressBytes).flatten := rfl
    rw [hcons, List.length_append] at h
    have ha : (latin1 a).length < 2 ^ 32 := by
      have : (addressBytes a).length = 4 + (latin1 a).length := by simp [addressBytes]
      omega
    simp only [packAddresses, latin1Encode_eq (hl a (by simp)), packI_eq ha,
      ih (fun b hb => hl b (by simp [hb])) (by omega), ok_bind, hcons, addressBytes, field]

/-- The parts of a row of fields are short when the row is. -/
theorem parts_short {bss : List Bytes} (h : (fields 4 bss).length < 2 ^ 32) :
    ∀ bs ∈ bss, bs.length < 2 ^ 32 := fun _ hb => by
  have := mem_length_fields (w := 4) hb
  omega

theorem drainInbox_eq {qs : List Request} (h : (qs.map requestBytes).flatten.length < 2 ^ 32) :
    drainInbox qs = ([], .ok (qs.map requestBytes).flatten) := by
  induction qs with
  | nil => rfl
  | cons q qs ih =>
    have hcons : ((q :: qs).map requestBytes).flatten =
        requestBytes q ++ (qs.map requestBytes).flatten := rfl
    rw [hcons, List.length_append] at h
    have hq : packRequest q = .ok (requestBytes q) :=
      packFields_eq (parts_short (by unfold requestBytes at h; omega))
    simp only [drainInbox, hq, ih (by omega), hcons]

theorem packOutbox_eq {ps : List Response}
    (h : (ps.map responseBytes).flatten.length < 2 ^ 32) :
    packOutbox ps = .ok (ps.map responseBytes).flatten := by
  induction ps with
  | nil => rfl
  | cons p ps ih =>
    have hcons : ((p :: ps).map responseBytes).flatten =
        responseBytes p ++ (ps.map responseBytes).flatten := rfl
    rw [hcons, List.length_append] at h
    have hp : packResponse p = .ok (responseBytes p) :=
      packFields_eq (parts_short (by unfold responseBytes at h; omega))
    simp only [packOutbox, hp, ih (by omega), ok_bind, hcons]

/-- The fields of an encodable client are written. -/
theorem serializeOwned_eq (fs : List Field) {cl : Client K} (hc : cl.Encodable)
    (h : Short (clientFields cl)) :
    serializeOwned (.ofFields fs) cl = .ok (.ofFields (fs ++ (clientFields cl).take 2)) := by
  simp only [clientFields, Short.cons] at h
  obtain ⟨h30, h31, -⟩ := h
  have howned := packAddresses_eq hc.owned_latin1 (by rw [List.length_append] at h31; omega)
  simp only [serializeOwned, hc.uuid_length, ne_eq, not_true_eq_false, if_false,
    latin1Encode_eq hc.uuid_latin1, howned, ok_bind, addField_ofFields _ _ h30,
    addField_ofFields _ _ h31, List.append_assoc]
  rfl

theorem serializeBoxes_eq (fs : List Field) {cl : Client K} (hc : cl.Encodable)
    (h : Short (clientFields cl)) :
    serializeBoxes (.ofFields fs) cl (drainInbox cl.inbox).2 =
      .ok (.ofFields (fs ++ (clientFields cl).drop 2)) := by
  simp only [clientFields, Short.cons] at h
  obtain ⟨-, -, h32, h33, -⟩ := h
  have hinbox : drainInbox cl.inbox = _ :=
    drainInbox_eq (by rw [List.length_append] at h32; omega)
  have houtbox : packOutbox cl.outbox.values = _ :=
    packOutbox_eq (by rw [List.length_append] at h33; omega)
  simp only [serializeBoxes, hinbox, latin1Encode_eq hc.uuid_latin1, houtbox, ok_bind,
    addField_ofFields _ _ h32, addField_ofFields _ _ h33, List.append_assoc]
  rfl

theorem serializeClient_eq (s : Server K) (fs : List Field) {r : Ref} (hc : (s.objs r).Encodable)
    (h : Short (clientFields (s.objs r))) :
    serializeClient s (.ofFields fs) r =
      (s.modify r (Client.setInbox (drainInbox (s.objs r).inbox).1),
        .ok (.ofFields (fs ++ clientFields (s.objs r)))) := by
  have hB := serializeBoxes_eq (fs ++ (clientFields (s.objs r)).take 2) hc h
  rw [List.append_assoc, List.take_append_drop] at hB
  simp only [serializeClient, serializeOwned_eq fs hc h, hB]

/-- The clients are written one after the other; emptying the inbox of one does not
    change the others. -/
theorem serializeClients_eq {rs : List Ref} : ∀ {s : Server K} (fs : List Field), rs.Nodup →
    (∀ r ∈ rs, (s.objs r).Encodable) → Short (rs.flatMap fun r => clientFields (s.objs r)) →
      (serializeClients s (.ofFields fs) rs).2 =
        .ok (.ofFields (fs ++ rs.flatMap fun r => clientFields (s.objs r))) := by
  induction rs with
  | nil => intro s fs _ _ _; simp [serializeClients]
  | cons r rs ih =>
    intro s fs hn hc h
    rw [List.flatMap_cons, Short.append] at h
    obtain ⟨hr, hn⟩ := List.nodup_cons.1 hn
    have hsame : ∀ f : Client K → Client K, ∀ r' ∈ rs, (s.modify r f).objs r' = s.objs r' :=
      fun f r' hr' => Server.modify_objs_ne fun he => hr (he ▸ hr')
    simp only [serializeClients, serializeClient_eq s fs (hc r (by simp)) h.1]
    generalize Client.setInbox (drainInbox (s.objs r).inbox).1 = f
    have hfields : (rs.flatMap fun r' => clientFields ((s.modify r f).objs r')) =
        rs.flatMap fun r' => clientFields (s.objs r') :=
      List.flatMap_congr fun r' hr' => by rw [hsame f r' hr']
    rw [ih _ hn (fun r' hr' => by rw [hsame f r' hr']; exact hc r' (by simp [hr'])) (by
      rw [hfields]; exact h.2), hfields, List.flatMap_cons, List.append_assoc]

/-- The sessions of a server keyed by their uuids have different objects. -/
theorem Snapshot.Encodable.refs_nodup {s : Server K} (h : s.snapshot.Encodable) :
    s.clientDb.values.Nodup := by
  refine List.Nodup.of_map (fun r => (s.objs r).uuid) ?_
  have : s.clientDb.values.map (fun r => (s.objs r).uuid) = s.clientDb.items.map Prod.fst := by
    rw [Dict.values, List.map_map]
    exact List.map_congr_left fun p hp =>
      h.client_keyed (p.1, s.objs p.2) (List.mem_map_of_mem (f := fun p => (p.1, s.objs p.2)) hp)
  rw [this]
  exact s.clientDb.nodup

theorem values_snapshot (s : Server K) :
    s.snapshot.clientDb.values = s.clientDb.values.map s.objs := by
  simp [Server.snapshot, Dict.values, Dict.mapVal]

/-- **The tables of an encodable server** are those of its fields. -/
theorem tables_eq {s : Server K} (h : s.snapshot.Encodable) :
    (tables s).2 = .ok (.ofFields s.snapshot.fields) := by
  have hs := h.short
  rw [Snapshot.fields, Short.append, Short.append, values_snapshot, List.flatMap_map] at hs
  obtain ⟨⟨hdb, hbook⟩, hcl⟩ := hs
  have hc : ∀ r ∈ s.clientDb.values, (s.objs r).Encodable := fun r hr =>
    h.client _ (by rw [values_snapshot]; exact List.mem_map_of_mem hr)
  have h1 : serializeDb _ s.db.items = _ := serializeDb_eq [] hdb
  have h2 : serializeAddressBook _ s.addressBook.items = _ :=
    serializeAddressBook_eq ([] ++ dbFields s.db.items) hbook h.address_latin1 h.address_uuid
  have h3 := serializeClients_eq ([] ++ dbFields s.db.items ++ bookFields s.addressBook.items)
    h.refs_nodup hc hcl
  have h0 : (⟨[], [], []⟩ : Tables) = .ofFields [] := rfl
  simp only [tables, h0, h1, h2, h3]
  rw [Snapshot.fields, values_snapshot, List.flatMap_map, List.nil_append]
  rfl

/-! ## Reading the tables -/

/-- The lengths are read out of the length table. -/
theorem readLengths_words {ns : List ℕ} : ∀ as : Bytes, (∀ n ∈ ns, n < 2 ^ 32) →
    readLengths (as ++ (ns.map (beBytes 4)).flatten) ns.length as.length = .ok ns := by
  induction ns with
  | nil => intro as _; rfl
  | cons n ns ih =>
    intro as h
    have hrest := ih (as ++ beBytes 4 n) fun m hm => h m (by simp [hm])
    rw [List.append_assoc, List.length_append, length_beBytes] at hrest
    simp only [readLengths, List.length_cons, List.map_cons, List.flatten_cons,
      unpackFromI_append as (h n (by simp)), hrest, ok_bind]

theorem length_lengthTable (fs : List Field) :
    (Tables.ofFields fs).l.flatten.length = 4 * fs.length := by
  induction fs with
  | nil => rfl
  | cons f fs ih =>
    simp only [Tables.ofFields, List.map_cons, List.flatten_cons, List.length_append,
      length_beBytes, List.length_cons] at ih ⊢
    omega

/-- Three tables behind their lengths. -/
def joined (t l v : Bytes) : Bytes :=
  ([t.length, l.length, v.length].map (beBytes 4)).flatten ++ (t ++ (l ++ v))

theorem join_eq {T : Tables} (ht : T.t.length < 2 ^ 32) (hl : T.l.flatten.length < 2 ^ 32)
    (hv : T.v.flatten.length < 2 ^ 32) : T.join = .ok (joined T.t T.l.flatten T.v.flatten) := by
  simp only [Tables.join, packI_eq ht, packI_eq hl, packI_eq hv, ok_bind]
  simp [joined]

/-- The three tables are found behind their lengths. -/
theorem restore_joined {t l v : Bytes} (ht : t.length < 2 ^ 32) (hl : l.length < 2 ^ 32)
    (hv : v.length < 2 ^ 32) :
    restore (K := K) (joined t l v) = (do
      let lengths ← readLengths l ((l.length + 3) / 4) 0
      let st ← restoreFields ⟨⟨.empty, .empty, .empty⟩, none, none⟩ t (slices v lengths 0)
      .ok st.toSnapshot) := by
  have hns : ∀ n ∈ [t.length, l.length, v.length], n < 2 ^ 32 := by
    simp only [List.mem_cons, List.not_mem_nil, or_false]
    rintro n (rfl | rfl | rfl) <;> assumption
  have h12 : (([t.length, l.length, v.length].map (beBytes 4)).flatten).length = 12 := by simp
  have hwords : unpackFrom0 3 (joined t l v) = .ok [t.length, l.length, v.length] := by
    rw [unpackFrom0, joined, if_pos (by rw [List.length_append, h12]; omega)]
    exact congrArg Except.ok (wordsI_append hns _)
  have hT : slice (joined t l v) 12 (12 + t.length) = t := slice_mid h12.symm rfl
  have hL : slice (joined t l v) (12 + t.length) (12 + t.length + l.length) = l := by
    rw [joined, ← List.append_assoc]
    exact slice_mid (by rw [List.length_append, h12]) rfl
  have hV : slice (joined t l v) (12 + t.length + l.length)
      (12 + t.length + l.length + v.length) = v := by
    rw [joined, ← List.append_assoc, ← List.append_assoc]
    exact slice_end (by rw [List.length_append, List.length_append, h12]) rfl
  simp only [restore, hwords, ok_bind, List.getD_cons_zero, List.getD_cons_succ, hT, hL, hV]

/-- **The tables are read back**: `restore` folds over the fields that were written. -/
theorem restore_fields {fs : List Field} (hl : (Tables.ofFields fs).l.flatten.length < 2 ^ 32)
    (hv : (Tables.ofFields fs).v.flatten.length < 2 ^ 32) :
    ∃ data, (Tables.ofFields fs).join = .ok data ∧ restore (K := K) data = (do
      let st ← restoreFields ⟨⟨.empty, .empty, .empty⟩, none, none⟩ (fs.map Prod.fst)
        (fs.map Prod.snd)
      .ok st.toSnapshot) := by
  have hll := length_lengthTable fs
  have ht : (Tables.ofFields fs).t.length < 2 ^ 32 := by
    have : (Tables.ofFields fs).t.length = fs.length := by simp [Tables.ofFields]
    omega
  refine ⟨_, join_eq ht hl hv, ?_⟩
  have hlens : readLengths (Tables.ofFields fs).l.flatten
      (((Tables.ofFields fs).l.flatten.length + 3) / 4) 0 = .ok (fs.map fun f => f.2.length) := by
    have hn : ((Tables.ofFields fs).l.flatten.length + 3) / 4 =
        (fs.map fun f : Field => f.2.length).length := by rw [List.length_map]; omega
    have hw : (Tables.ofFields fs).l.flatten =
        [] ++ ((fs.map fun f : Field => f.2.length).map (beBytes 4)).flatten := by
      rw [Tables.ofFields, List.map_map, List.nil_append]; rfl
    rw [hn, hw]
    refine readLengths_words [] fun n hn => ?_
    obtain ⟨f, hf, rfl⟩ := List.mem_map.1 hn
    exact Nat.lt_of_le_of_lt (length_le_flatten (List.mem_map_of_mem hf)) hv
  have hcut : slices (Tables.ofFields fs).v.flatten (fs.map fun f => f.2.length) 0 =
      fs.map Prod.snd := by
    have : slices _ ((fs.map Prod.snd).map List.length) _ = _ := slices_flatten []
    rwa [List.nil_append, List.map_map] at this
  rw [restore_joined ht hl hv]
  simp only [hlens, ok_bind, hcut]
  rfl

/-! ## Reading the items of a value -/

theorem readField_append (as : Bytes) {b : Bytes} (h : b.length < 2 ^ 32) (bs : Bytes) :
    readField (as ++ (field 4 b ++ bs)) as.length =
      .ok (b, as.length + (field 4 b).length) := by
  have hs : slice (as ++ (beBytes 4 b.length ++ (b ++ bs))) (as.length + 4)
      (as.length + 4 + b.length) = b := by
    rw [← List.append_assoc]
    exact slice_mid (by simp) rfl
  simp only [readField, field, List.append_assoc, unpackFromI_append as h, ok_bind, hs,
    length_beBytes, List.length_append]
  rw [Nat.add_assoc]

/-- `read` reads back what `enc` writes, wherever it stands. -/
def Reads {ι : Type} (read : Bytes → ℕ → Except PyErr (ι × ℕ)) (enc : ι → Bytes) (x : ι) : Prop :=
  0 < (enc x).length ∧ ∀ as bs : Bytes,
    read (as ++ (enc x ++ bs)) as.length = .ok (x, as.length + (enc x).length)

/-- **A cursor loop** reads back the items that were written one after the other. -/
theorem readItems_encode {ι : Type} {read : Bytes → ℕ → Except PyErr (ι × ℕ)} {enc : ι → Bytes}
    {xs : List ι} (h : ∀ x ∈ xs, Reads read enc x) : ∀ {n : ℕ} (as : Bytes), xs.length ≤ n →
      readItems read (as ++ (xs.map enc).flatten) n as.length = .ok xs := by
  induction xs with
  | nil =>
    intro n as _
    cases n <;> simp [readItems]
  | cons x xs ih =>
    intro n as hn
    obtain ⟨hpos, hread⟩ := h x (by simp)
    cases n with
    | zero => simp at hn
    | succ n =>
      have hrest := ih (fun y hy => h y (by simp [hy])) (as ++ enc x) (Nat.le_of_succ_le_succ hn)
      rw [List.append_assoc, List.length_append] at hrest
      rw [List.map_cons, List.flatten_cons, readItems,
        if_pos (by simp only [List.length_append]; omega)]
      simp only [hread, ok_bind, hrest]

theorem length_le_flatten_map {ι : Type} {enc : ι → Bytes} {xs : List ι}
    (h : ∀ x ∈ xs, 0 < (enc x).length) : xs.length ≤ (xs.map enc).flatten.length := by
  induction xs with
  | nil => simp
  | cons x xs ih =>
    have hx := h x (by simp)
    have := ih fun y hy => h y (by simp [hy])
    simp only [List.length_cons, List.map_cons, List.flatten_cons, List.length_append]
    omega

/-- The items behind a uuid are read back. -/
theorem itemsOf_encode {ι : Type} {read : Bytes → ℕ → Except PyErr (ι × ℕ)} {enc : ι → Bytes}
    {xs : List ι} (h : ∀ x ∈ xs, Reads read enc x) {uuid : Bytes} (hu : uuid.length = 36) :
    itemsOf read (uuid ++ (xs.map enc).flatten) = .ok xs := by
  have hle := length_le_flatten_map fun x hx => (h x hx).1
  rw [itemsOf, ← hu]
  exact readItems_encode h uuid (by rw [List.length_append]; omega)

theorem reads_address {a : PyStr} (hl : Latin1 a) (h : (addressBytes a).length < 2 ^ 32) :
    Reads readAddress addressBytes a := by
  have ha : (latin1 a).length < 2 ^ 32 := by simp [addressBytes] at h ⊢; omega
  refine ⟨by simp [addressBytes], fun as bs => ?_⟩
  simp only [readAddress, addressBytes, readField_append as ha, ok_bind, latin1Decode_latin1 hl]

/-- Reading the fields of a record one after the other. -/
theorem readField_fields (as : Bytes) {b : Bytes} {bss : List Bytes}
    (h : (fields 4 (b :: bss)).length < 2 ^ 32) (bs : Bytes) :
    readField (as ++ (fields 4 (b :: bss) ++ bs)) as.length =
        .ok (b, (as ++ field 4 b).length) ∧
      as ++ (fields 4 (b :: bss) ++ bs) = (as ++ field 4 b) ++ (fields 4 bss ++ bs) ∧
      (fields 4 bss).length < 2 ^ 32 := by
  rw [fields_cons, List.length_append, length_field] at h
  refine ⟨?_, by simp, by omega⟩
  rw [fields_cons, List.append_assoc, readField_append as (by omega), List.length_append]

theorem reads_request {q : Request} (h : (requestBytes q).length < 2 ^ 32) :
    Reads readRequest requestBytes q := by
  refine ⟨by simp [requestBytes], fun as bs => ?_⟩
  unfold requestBytes at h ⊢
  obtain ⟨h1, e1, h⟩ := readField_fields as h bs
  rw [e1] at h1
  obtain ⟨h2, e2, h⟩ := readField_fields _ h bs
  rw [e2] at h1 h2
  obtain ⟨h3, e3, h⟩ := readField_fields _ h bs
  rw [e3] at h1 h2 h3
  obtain ⟨h4, e4, h⟩ := readField_fields _ h bs
  rw [e4] at h1 h2 h3 h4
  rw [e1, e2, e3, e4]
  simp only [readRequest, h1, h2, h3, h4, ok_bind]
  simp only [fields_cons, fields_nil, List.append_nil, List.length_append, Nat.add_assoc]

theorem reads_response {p : Response} (h : (responseBytes p).length < 2 ^ 32) :
    Reads readResponse responseBytes p := by
  refine ⟨by simp [responseBytes], fun as bs => ?_⟩
  unfold responseBytes at h ⊢
  obtain ⟨h1, e1, h⟩ := readField_fields as h bs
  rw [e1] at h1
  obtain ⟨h2, e2, h⟩ := readField_fields _ h bs
  rw [e2] at h1 h2
  obtain ⟨h3, e3, h⟩ := readField_fields _ h bs
  rw [e3] at h1 h2 h3
  rw [e1, e2, e3]
  simp only [readResponse, h1, h2, h3, ok_bind]
  simp only [fields_cons, fields_nil, List.append_nil, List.length_append, Nat.add_assoc]

/-! ## The fold over the fields -/

/-- The fields of the database restore it. -/
theorem restoreFields_db {ps : List (Bytes × Bytes)} : ∀ (C : Snapshot K) (fs : List Field),
    restoreFields ⟨C, none, none⟩ ((dbFields ps ++ fs).map Prod.fst)
        ((dbFields ps ++ fs).map Prod.snd) =
      restoreFields ⟨{ C with db := C.db.setAll ps }, none, none⟩ (fs.map Prod.fst)
        (fs.map Prod.snd) := by
  induction ps with
  | nil => intro C fs; rfl
  | cons p ps ih =>
    intro C fs
    exact ih { C with db := C.db.set p.1 p.2 } fs

theorem restoreFields_book {ps : List (PyStr × PyStr)} (hkey : ∀ p ∈ ps, Latin1 p.1)
    (huuid : ∀ p ∈ ps, p.2.length = 36 ∧ Latin1 p.2) (hs : Short (bookFields ps)) :
    ∀ (C : Snapshot K) (fs : List Field),
      restoreFields ⟨C, none, none⟩ ((bookFields ps ++ fs).map Prod.fst)
          ((bookFields ps ++ fs).map Prod.snd) =
        restoreFields ⟨{ C with addressBook := C.addressBook.setAll ps }, none, none⟩
          (fs.map Prod.fst) (fs.map Prod.snd) := by
  induction ps with
  | nil => intro C fs; rfl
  | cons p ps ih =>
    intro C fs
    have hp : bookFields (p :: ps) ++ fs =
      (0x20, field 4 (latin1 p.1)) :: (0x21, latin1 p.2) :: (bookFields ps ++ fs) := rfl
    have hs' : Short (bookFields (p :: ps)) := hs
    rw [show bookFields (p :: ps) = [(0x20, field 4 (latin1 p.1)), (0x21, latin1 p.2)] ++
      bookFields ps from rfl, Short.append, Short.cons] at hs'
    have hk : (latin1 p.1).length < 2 ^ 32 := by
      have := hs'.1.1
      rw [length_field] at this
      omega
    have hlen : unpackFromI (field 4 (latin1 p.1)) 0 = .ok (latin1 p.1).length := by
      have := unpackFromI_append [] hk (latin1 p.1)
      simpa [field] using this
    have hcut : slice (field 4 (latin1 p.1)) 4 (4 + (latin1 p.1).length) = latin1 p.1 :=
      slice_end (by simp) rfl
    have h20 : restoreField ⟨C, none, none⟩ 0x20 (field 4 (latin1 p.1)) =
        .ok ⟨C, none, some p.1⟩ := by
      simp only [restoreField, hlen, ok_bind, hcut, latin1Decode_latin1 (hkey p (by simp))]
      rfl
    have h21 : restoreField ⟨C, none, some p.1⟩ 0x21 (latin1 p.2) =
        .ok ⟨{ C with addressBook := C.addressBook.set p.1 p.2 }, none, none⟩ := by
      simp only [restoreField, latin1Decode_latin1 (huuid p (by simp)).2]
      rfl
    have ih' := ih (fun q hq => hkey q (by simp [hq])) (fun q hq => huuid q (by simp [hq])) hs'.2
      { C with addressBook := C.addressBook.set p.1 p.2 } fs
    simp only [hp, List.map_cons, restoreFields, h20, h21, ok_bind, ih']
    rfl

/-- A client as a checkpoint keeps it: without its connection. -/
def Client.restored (cl : Client K) : Client K :=
  .preset cl.uuid cl.addressesOwned cl.inbox cl.outbox

/-- An outbox is rebuilt from its responses. -/
theorem setAll_outbox {outbox : Dict Bytes Response}
    (h : ∀ p ∈ outbox.items, p.2.response_uuid = p.1) :
    (Dict.empty : Dict Bytes Response).setAll
      (outbox.values.map fun p => (p.response_uuid, p)) = outbox := by
  have : (outbox.values.map fun p => (p.response_uuid, p)) = outbox.items := by
    rw [Dict.values, List.map_map]
    refine (List.map_congr_left fun p hp => ?_).trans (List.map_id _)
    simp only [Function.comp_apply, h p hp, id_eq]
  rw [this, Dict.setAll_items]

/-- The uuid at the front of a value. -/
theorem take_uuid {cl : Client K} (h : cl.Encodable) (bs : Bytes) :
    latin1Decode ((latin1 cl.uuid ++ bs).take 36) = cl.uuid := by
  rw [List.take_left' (by rw [length_latin1, h.uuid_length]), latin1Decode_latin1 h.uuid_latin1]

/-- The items of a client's value are read back. -/
theorem itemsOf_client {ι : Type} {read : Bytes → ℕ → Except PyErr (ι × ℕ)} {enc : ι → Bytes}
    {xs : List ι} {cl : Client K} (hc : cl.Encodable)
    (hs : (latin1 cl.uuid ++ (xs.map enc).flatten).length < 2 ^ 32)
    (h : ∀ x ∈ xs, (enc x).length < 2 ^ 32 → Reads read enc x) :
    itemsOf read (latin1 cl.uuid ++ (xs.map enc).flatten) = .ok xs := by
  refine itemsOf_encode (fun x hx => h x hx ?_) (by rw [length_latin1, hc.uuid_length])
  have := length_le_flatten (List.mem_map_of_mem (f := enc) hx)
  rw [List.length_append] at hs
  omega

/-- **The four fields of a client restore it.** -/
theorem restoreFields_client {cl : Client K} (hc : cl.Encodable) (hs : Short (clientFields cl))
    (C : Snapshot K) (fs : List Field) :
    restoreFields ⟨C, none, none⟩ ((clientFields cl ++ fs).map Prod.fst)
        ((clientFields cl ++ fs).map Prod.snd) =
      restoreFields ⟨C.setClient cl.uuid cl.restored, none, none⟩ (fs.map Prod.fst)
        (fs.map Prod.snd) := by
  simp only [clientFields, Short.cons] at hs
  obtain ⟨-, h31, h32, h33, -⟩ := hs
  have howned : itemsOf readAddress _ = _ :=
    itemsOf_client hc h31 fun a ha hl => reads_address (hc.owned_latin1 a ha) hl
  have hinbox : itemsOf readRequest _ = _ := itemsOf_client hc h32 fun _ _ => reads_request
  have houtbox : itemsOf readResponse _ = _ := itemsOf_client hc h33 fun _ _ => reads_response
  have hget : ∀ a : Client K, (C.setClient cl.uuid a).clientDb.get? cl.uuid = some a :=
    fun a => Dict.get?_set_self _ _ _
  have hset : ∀ a b : Client K, (C.setClient cl.uuid a).setClient cl.uuid b =
    C.setClient cl.uuid b := fun a b => Snapshot.ext rfl rfl (Dict.set_set _ _ _ _)
  have e30 : restoreField ⟨C, none, none⟩ 0x30 (latin1 cl.uuid) =
      .ok ⟨C.setClient cl.uuid (.preset cl.uuid [] [] .empty), none, none⟩ := by
    simp only [restoreField, latin1Decode_latin1 hc.uuid_latin1]
    rfl
  have e31 : restoreField ⟨C.setClient cl.uuid (.preset cl.uuid [] [] .empty), none, none⟩ 0x31
        (latin1 cl.uuid ++ (cl.addressesOwned.map addressBytes).flatten) =
      .ok ⟨C.setClient cl.uuid (.preset cl.uuid cl.addressesOwned [] .empty), none, none⟩ := by
    simp only [restoreField, take_uuid hc, hget, howned, ok_bind, Restoring.setClient, hset]
    rfl
  have e32 : restoreField
        ⟨C.setClient cl.uuid (.preset cl.uuid cl.addressesOwned [] .empty), none, none⟩ 0x32
        (latin1 cl.uuid ++ (cl.inbox.map requestBytes).flatten) =
      .ok ⟨C.setClient cl.uuid (.preset cl.uuid cl.addressesOwned cl.inbox .empty),
        none, none⟩ := by
    simp only [restoreField, take_uuid hc, hget, hinbox, ok_bind, Restoring.setClient, hset]
    rfl
  have e33 : restoreField
        ⟨C.setClient cl.uuid (.preset cl.uuid cl.addressesOwned cl.inbox .empty), none, none⟩ 0x33
        (latin1 cl.uuid ++ (cl.outbox.values.map responseBytes).flatten) =
      .ok ⟨C.setClient cl.uuid cl.restored, none, none⟩ := by
    have hout := setAll_outbox hc.outbox_keyed
    simp only [restoreField, take_uuid hc, hget, houtbox, ok_bind, Restoring.setClient, hset,
      Client.preset, hout]
    rfl
  simp only [clientFields, List.cons_append, List.nil_append, List.map_cons, restoreFields, e30,
    e31, e32, e33, ok_bind]

theorem restoreFields_clients {cls : List (Client K)} (hc : ∀ cl ∈ cls, cl.Encodable)
    (hs : Short (cls.flatMap clientFields)) : ∀ C : Snapshot K,
      restoreFields ⟨C, none, none⟩ ((cls.flatMap clientFields).map Prod.fst)
          ((cls.flatMap clientFields).map Prod.snd) =
        .ok ⟨{ C with clientDb := C.clientDb.setAll (cls.map fun cl => (cl.uuid, cl.restored)) },
          none, none⟩ := by
  induction cls with
  | nil => intro C; rfl
  | cons cl cls ih =>
    intro C
    rw [List.flatMap_cons, Short.append] at hs
    rw [List.flatMap_cons, restoreFields_client (hc cl (by simp)) hs.1,
      ih (fun c h => hc c (by simp [h])) hs.2]
    rfl

/-! ## The round trip -/

/-- The maps as a checkpoint keeps them. -/
def Snapshot.restored (C : Snapshot K) : Snapshot K :=
  { C with clientDb := C.clientDb.mapVal Client.restored }

/-- **Reading back what was written.** -/
theorem restore_tables {C : Snapshot K} (h : C.Encodable) :
    ∃ data, (Tables.ofFields C.fields).join = .ok data ∧ restore data = .ok C.restored := by
  obtain ⟨data, hjoin, hrestore⟩ :=
    restore_fields (K := K) h.lengthTable_fits h.valueTable_fits
  refine ⟨data, hjoin, hrestore.trans ?_⟩
  have hs := h.short
  rw [Snapshot.fields, Short.append, Short.append] at hs
  obtain ⟨⟨-, hbook⟩, hcl⟩ := hs
  have hitems : (C.clientDb.values.map fun cl => (cl.uuid, cl.restored)) =
      (C.clientDb.mapVal Client.restored).items := by
    rw [Dict.values, List.map_map]
    exact List.map_congr_left fun p hp => by
      simp only [Function.comp_apply, h.client_keyed p hp]
  rw [Snapshot.fields, List.append_assoc, restoreFields_db,
    restoreFields_book h.address_latin1 h.address_uuid hbook, restoreFields_clients h.client hcl,
    hitems]
  simp only [ok_bind, Dict.setAll_items]
  rfl

/-- The clients of a restored server are the restored ones. -/
theorem snapshot_addSessions {ps : List (PyStr × Client K)} : ∀ {s : Server K},
    (s.clientDb.items.map Prod.fst ++ ps.map Prod.fst).Nodup →
    (∀ p ∈ s.clientDb.items, p.2 < s.fresh) →
    (ps.foldl (fun s p => s.addSession p.1 p.2) s).snapshot.clientDb.items =
      s.snapshot.clientDb.items ++ ps := by
  induction ps with
  | nil => intro s _ _; simp
  | cons p ps ih =>
    intro s hn hlt
    have hp : p.1 ∉ s.clientDb := fun hm =>
      (List.nodup_append.1 hn).2.2 _ hm _ (by simp) rfl
    have hitems := Dict.items_set_of_not_mem hp s.fresh
    have hlt' : ∀ q ∈ (s.addSession p.1 p.2).clientDb.items,
        q.2 < (s.addSession p.1 p.2).fresh := by
      intro q hq
      rw [Server.addSession_clientDb, hitems, List.mem_append, List.mem_singleton] at hq
      rw [Server.addSession_fresh]
      rcases hq with hq | rfl
      · exact Nat.lt_succ_of_lt (hlt q hq)
      · exact Nat.lt_succ_self _
    rw [List.foldl_cons, ih (by rw [Server.addSession_clientDb, hitems]; simpa using hn) hlt']
    have hsnap : (s.addSession p.1 p.2).snapshot.clientDb.items =
        s.snapshot.clientDb.items ++ [p] := by
      simp only [Server.snapshot, Dict.mapVal, Server.addSession_clientDb, hitems, List.map_append]
      congr 1
      · exact List.map_congr_left fun q hq => by rw [Server.addSession_objs (hlt q hq)]
      · simp
    rw [hsnap, List.append_assoc]
    rfl

/-- **Installed maps are held**, whatever the server held before. -/
theorem snapshot_applyState (s : Server K) (R : Snapshot K) : (s.applyState R).snapshot = R := by
  have hdb : ∀ (ps : List (PyStr × Client K)) (s : Server K),
      (ps.foldl (fun s p => s.addSession p.1 p.2) s).db = s.db ∧
        (ps.foldl (fun s p => s.addSession p.1 p.2) s).addressBook = s.addressBook := by
    intro ps
    induction ps with
    | nil => intro s; exact ⟨rfl, rfl⟩
    | cons p ps ih => intro s; exact ih _
  have hcl : (s.applyState R).snapshot.clientDb = R.clientDb := by
    apply Dict.ext
    rw [Server.applyState, snapshot_addSessions]
    · rfl
    · simpa [Dict.empty] using R.clientDb.nodup
    · simp [Dict.empty]
  obtain ⟨h1, h2⟩ := hdb R.clientDb.items
    { s with db := R.db, addressBook := R.addressBook, clientDb := .empty }
  exact Snapshot.ext h1 h2 hcl

theorem fields_restored (C : Snapshot K) : C.restored.fields = C.fields := by
  have : C.restored.clientDb.values = C.clientDb.values.map Client.restored := by
    simp [Snapshot.restored, Dict.values, Dict.mapVal]
  rw [Snapshot.fields, Snapshot.fields, this, List.flatMap_map]
  rfl

/-- What a checkpoint restored can be written again. -/
theorem Snapshot.Encodable.restored {C : Snapshot K} (h : C.Encodable) : C.restored.Encodable where
  address_latin1 := h.address_latin1
  address_uuid := h.address_uuid
  client_keyed := by
    intro p hp
    obtain ⟨q, hq, rfl⟩ := List.mem_map.1 hp
    exact h.client_keyed q hq
  client := by
    intro cl hcl
    rw [Snapshot.restored, Dict.values, Dict.mapVal, List.map_map] at hcl
    obtain ⟨q, hq, rfl⟩ := List.mem_map.1 hcl
    obtain ⟨h1, h2, h3, h4⟩ := h.client q.2 (List.mem_map_of_mem hq)
    exact ⟨h1, h2, h3, h4⟩
  lengthTable_fits := by rw [fields_restored]; exact h.lengthTable_fits
  valueTable_fits := by rw [fields_restored]; exact h.valueTable_fits

/-- **Checkpoint round trip.**  Deserializing a checkpoint gives the database, the
    address book and the clients the server held when it was taken, in the same orders,
    each client with its uuid, addresses, inbox and outbox; and a server that holds them
    is serialized to the same tables. -/
theorem checkpoint_round_trip (L : Libs K) (s : Server K) (h : s.snapshot.Encodable) :
    ∃ T data, (tables s).2 = .ok T ∧ (serialize L s).2 = .ok data ∧
      deserialize L data = .ok s.snapshot.restored ∧
      ∀ s₀ : Server K, (tables (s₀.applyState s.snapshot.restored)).2 = .ok T := by
  obtain ⟨bytes, hjoin, hrestore⟩ := restore_tables h
  have hmagic : CHECKPOINT_MAGIC < 2 ^ 32 := by decide
  have hT := tables_eq h
  have hser : (serialize L s).2 = .ok (beBytes 4 CHECKPOINT_MAGIC ++ L.compress 22 bytes) := by
    unfold serialize
    rcases ht : tables s with ⟨s', e | T⟩
    · rw [ht] at hT; cases hT
    · rw [ht] at hT
      cases hT
      simp only [hjoin, packI_eq hmagic, ok_bind]
  refine ⟨_, _, hT, hser, ?_, fun s₀ => ?_⟩
  · have hread : unpackFromI (beBytes 4 CHECKPOINT_MAGIC ++ L.compress 22 bytes) 0 =
        .ok CHECKPOINT_MAGIC := unpackFromI_append [] hmagic _
    have hdrop : (beBytes 4 CHECKPOINT_MAGIC ++ L.compress 22 bytes).drop 4 =
      L.compress 22 bytes := List.drop_left' (length_beBytes 4 _)
    simp only [deserialize, hread, ok_bind, ne_eq, not_true_eq_false, if_false, hdrop,
      L.decompress_compress, hrestore]
  · have hsnap := snapshot_applyState s₀ s.snapshot.restored
    have := tables_eq (s := s₀.applyState s.snapshot.restored) (by rw [hsnap]; exact h.restored)
    rw [this, hsnap, fields_restored]

/-- A server with an empty value, a name, a waiting request and a response. -/
def checkpointSample : Server ℕ :=
  let uuid : PyStr := List.replicate 36 'a'
  let response : Response := ⟨[], [1], [2, 3]⟩
  { Server.init [] false with
    db := Dict.empty.set [7] []
    addressBook := Dict.empty.set ['k'] uuid }.addSession uuid
      (.preset uuid [['k']] [⟨latin1 uuid, [], [9], [4]⟩] (Dict.empty.set [2, 3] response))

/-- The sample makes the round trip. -/
theorem checkpoint_round_trip_sample : ∃ T data, (tables checkpointSample).2 = .ok T ∧
    (serialize stub checkpointSample).2 = .ok data ∧
      deserialize stub data = .ok checkpointSample.snapshot.restored ∧
      ∀ s₀ : Server ℕ, (tables (s₀.applyState checkpointSample.snapshot.restored)).2 = .ok T :=
  checkpoint_round_trip stub checkpointSample
    { address_latin1 := by decide
      address_uuid := by decide
      client_keyed := by decide
      client := by
        intro cl hcl
        obtain rfl := List.mem_singleton.1 hcl
        exact ⟨by decide, by decide, by decide, by decide⟩
      lengthTable_fits := by decide
      valueTable_fits := by decide +kernel }

end Pipebomb
