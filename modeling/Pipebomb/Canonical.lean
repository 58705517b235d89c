/-
  Checkpoints of restored servers.

  * `Client.Clean`, `Snapshot.Clean`: what `deserialize` builds, whatever bytes it is given.  Strings are
    in latin-1, sessions and responses lie under their ids, and no session has a connection.
  * `Snapshot.Writable`: what `deserialize` does not check and `serialize` asks for.
  * `restored_writable`: a restored server is written exactly if its maps are writable; what is written
    gives the same maps back, and from then on the same bytes.
-/
import Pipebomb.Restart

namespace Pipebomb

open ByteString

variable {K : Type} (L : Libs K)

/-! ## What is built -/

/-- A session that has no connection, with strings in latin-1 and responses under their ids. -/
structure Client.Clean (cl : Client K) : Prop where
  offline : cl.restored = cl
  uuid_latin1 : Latin1 cl.uuid
  owned_latin1 : ∀ a ∈ cl.addressesOwned, Latin1 a
  outbox_keyed : ∀ id p, cl.outbox.get? id = some p → p.response_uuid = id

/-- Maps with strings in latin-1 and sessions under their uuids. -/
structure Snapshot.Clean (C : Snapshot K) : Prop where
  book : ∀ name uuid, C.addressBook.get? name = some uuid → Latin1 name ∧ Latin1 uuid
  sessions : ∀ uuid cl, C.clientDb.get? uuid = some cl → cl.uuid = uuid ∧ cl.Clean

/-- The same while they are restored. -/
structure Restoring.Clean (st : Restoring K) : Prop where
  maps : st.toSnapshot.Clean
  address : ∀ a ∈ st.pendingAddress, Latin1 a

section
variable {cl : Client K} {C : Snapshot K} {st st' : Restoring K} {t : UInt8} {v : Bytes}

theorem clean_preset {uuid : PyStr} (h : Latin1 uuid) :
    (Client.preset uuid [] [] .empty : Client K).Clean where
  offline := rfl
  uuid_latin1 := h
  owned_latin1 := fun _ ha => by cases ha
  outbox_keyed := fun _ _ hp => by cases hp

theorem Client.Clean.setOwned (h : cl.Clean) {owned : List PyStr} (howned : ∀ a ∈ owned, Latin1 a) :
    ({ cl with addressesOwned := owned } : Client K).Clean where
  offline := by
    rw [← h.offline]
    rfl
  uuid_latin1 := h.uuid_latin1
  owned_latin1 := howned
  outbox_keyed := h.outbox_keyed

theorem Client.Clean.setInbox (h : cl.Clean) (inbox : List Request) :
    ({ cl with inbox := inbox } : Client K).Clean where
  offline := by
    rw [← h.offline]
    rfl
  uuid_latin1 := h.uuid_latin1
  owned_latin1 := h.owned_latin1
  outbox_keyed := h.outbox_keyed

theorem Client.Clean.setOutbox (h : cl.Clean) {outbox : Dict Bytes Response}
    (houtbox : ∀ id p, outbox.get? id = some p → p.response_uuid = id) :
    ({ cl with outbox := outbox } : Client K).Clean where
  offline := by
    rw [← h.offline]
    rfl
  uuid_latin1 := h.uuid_latin1
  owned_latin1 := h.owned_latin1
  outbox_keyed := houtbox

/-- Responses that are filed under their ids. -/
theorem setAll_keyed {ps : List Response} : ∀ {outbox : Dict Bytes Response},
    (∀ id p, outbox.get? id = some p → p.response_uuid = id) → ∀ id p,
      (outbox.setAll (ps.map fun p => (p.response_uuid, p))).get? id = some p → p.response_uuid = id := by
  induction ps with
  | nil => exact fun h => h
  | cons q ps ih =>
    intro outbox h
    refine ih fun id p hp => ?_
    rw [Dict.get?_set] at hp
    split_ifs at hp with hid
    · cases hp
      exact hid.symm
    · exact h id p hp

/-- What is true of whatever is read is true of all items. -/
theorem readItems_all {ι : Type} {read : Bytes → ℕ → Except PyErr (ι × ℕ)} {P : ι → Prop}
    (hread : ∀ cursor x cursor', read v cursor = .ok (x, cursor') → P x) {n : ℕ} :
    ∀ {cursor : ℕ} {xs : List ι}, readItems read v n cursor = .ok xs → ∀ x ∈ xs, P x := by
  induction n with
  | zero =>
    intro cursor xs h x hx
    cases h
    cases hx
  | succ n ih =>
    intro cursor xs h x hx
    rw [readItems] at h
    split_ifs at h
    · obtain ⟨⟨y, cursor'⟩, hy, h⟩ := bind_eq_ok.1 h
      obtain ⟨ys, hys, h⟩ := bind_eq_ok.1 h
      cases h
      rcases List.mem_cons.1 hx with rfl | hx
      · exact hread _ _ _ hy
      · exact ih hys x hx
    · cases h
      cases hx

theorem addresses_latin1 {as : List PyStr} (h : itemsOf readAddress v = .ok as) : ∀ a ∈ as, Latin1 a := by
  refine readItems_all (fun cursor a cursor' ha => ?_) h
  obtain ⟨⟨bs, cursor₁⟩, -, ha⟩ := bind_eq_ok.1 ha
  cases ha
  exact latin1_decode bs

theorem Snapshot.Clean.setClient (h : C.Clean) {uuid : PyStr} (hid : cl.uuid = uuid) (hcl : cl.Clean) :
    (C.setClient uuid cl).Clean where
  book := h.book
  sessions u cl' hu := by
    rw [Snapshot.setClient, Dict.get?_set] at hu
    split_ifs at hu with he
    · cases hu
      exact ⟨hid.trans he.symm, hcl⟩
    · exact h.sessions u cl' hu

/-- A field that changes a session which is there. -/
theorem Restoring.Clean.items (h : st.Clean) {ι : Type} {read : Bytes → ℕ → Except PyErr (ι × ℕ)}
    {cl : Client K} {f : List ι → Client K} {uuid : PyStr} (hcl : st.clientDb.get? uuid = some cl)
    (he : (itemsOf read v >>= fun xs => .ok (st.setClient uuid (f xs))) = .ok st')
    (hf : ∀ xs, cl.Clean → itemsOf read v = .ok xs → (f xs).uuid = cl.uuid ∧ (f xs).Clean) : st'.Clean := by
  obtain ⟨xs, hxs, he⟩ := bind_eq_ok.1 he
  cases he
  obtain ⟨hid, hclean⟩ := h.maps.sessions _ cl hcl
  obtain ⟨hid', hclean'⟩ := hf xs hclean hxs
  exact ⟨h.maps.setClient (hid'.trans hid) hclean', h.address⟩

/-- **One field.** -/
theorem restoreField_clean (h : st.Clean) (he : restoreField st t v = .ok st') : st'.Clean := by
  unfold restoreField at he
  by_cases h10 : t = 0x10
  · rw [if_pos h10] at he
    cases he
    exact ⟨⟨h.maps.book, h.maps.sessions⟩, h.address⟩
  rw [if_neg h10] at he
  by_cases h11 : t = 0x11
  · rw [if_pos h11] at he
    rcases hkey : st.pendingDbKey with _ | key
    · rw [hkey] at he
      cases he
    · rw [hkey] at he
      cases he
      exact ⟨⟨h.maps.book, h.maps.sessions⟩, h.address⟩
  rw [if_neg h11] at he
  by_cases h20 : t = 0x20
  · rw [if_pos h20] at he
    obtain ⟨n, -, he⟩ := bind_eq_ok.1 he
    cases he
    refine ⟨⟨h.maps.book, h.maps.sessions⟩, fun a ha => ?_⟩
    cases ha
    exact latin1_decode _
  rw [if_neg h20] at he
  by_cases h21 : t = 0x21
  · rw [if_pos h21] at he
    rcases haddress : st.pendingAddress with _ | address
    · rw [haddress] at he
      cases he
    · rw [haddress] at he
      cases he
      refine ⟨⟨fun name uuid hbook => ?_, h.maps.sessions⟩, fun a ha => by cases ha⟩
      rw [Dict.get?_set] at hbook
      split_ifs at hbook with hname
      · cases hbook
        exact ⟨hname ▸ h.address address haddress, latin1_decode v⟩
      · exact h.maps.book name uuid hbook
  rw [if_neg h21] at he
  by_cases h30 : t = 0x30
  · rw [if_pos h30] at he
    cases he
    exact ⟨h.maps.setClient rfl (clean_preset (latin1_decode v)), h.address⟩
  rw [if_neg h30] at he
  -- the other fields change a session that is there
  by_cases h31 : t = 0x31
  · rw [if_pos h31] at he
    dsimp only at he
    rcases hcl : st.clientDb.get? (latin1Decode (v.take 36)) with _ | cl
    · rw [hcl] at he
      cases he
    · rw [hcl] at he
      refine h.items hcl he fun xs hclean hxs => ⟨rfl, hclean.setOwned fun a ha => ?_⟩
      rcases List.mem_append.1 ha with ha | ha
      · exact hclean.owned_latin1 a ha
      · exact addresses_latin1 hxs a ha
  rw [if_neg h31] at he
  by_cases h32 : t = 0x32
  · rw [if_pos h32] at he
    dsimp only at he
    rcases hcl : st.clientDb.get? (latin1Decode (v.take 36)) with _ | cl
    · rw [hcl] at he
      cases he
    · rw [hcl] at he
      exact h.items hcl he fun xs hclean _ => ⟨rfl, hclean.setInbox _⟩
  rw [if_neg h32] at he
  by_cases h33 : t = 0x33
  · rw [if_pos h33] at he
    dsimp only at he
    rcases hcl : st.clientDb.get? (latin1Decode (v.take 36)) with _ | cl
    · rw [hcl] at he
      cases he
    · rw [hcl] at he
      exact h.items hcl he fun xs hclean _ => ⟨rfl, hclean.setOutbox (setAll_keyed hclean.outbox_keyed)⟩
  · rw [if_neg h33] at he
    cases he
    exact h

theorem restoreFields_clean {ts : List UInt8} : ∀ {st st' : Restoring K} {vs : List Bytes}, st.Clean →
    restoreFields st ts vs = .ok st' → st'.Clean := by
  induction ts with
  | nil =>
    intro st st' vs h he
    cases vs with
    | nil =>
      cases he
      exact h
    | cons v vs => cases he
  | cons t ts ih =>
    intro st st' vs h he
    cases vs with
    | nil => cases he
    | cons v vs =>
      obtain ⟨st₁, h₁, he⟩ := bind_eq_ok.1 he
      exact ih (restoreField_clean h h₁) he

end

/-- **What `deserialize` builds**, whatever bytes it is given. -/
theorem deserialize_clean {data : Bytes} {R : Snapshot K} (h : deserialize L data = .ok R) : R.Clean := by
  obtain ⟨magic, -, h⟩ := bind_eq_ok.1 h
  split_ifs at h
  rcases hd : L.decompress (data.drop 4) with _ | serializedData
  · rw [hd] at h
    cases h
  · rw [hd] at h
    obtain ⟨header, -, h⟩ := bind_eq_ok.1 h
    obtain ⟨lengths, -, h⟩ := bind_eq_ok.1 h
    obtain ⟨st, hst, h⟩ := bind_eq_ok.1 h
    cases h
    refine (restoreFields_clean ?_ hst).maps
    exact ⟨⟨fun _ _ hbook => (by cases hbook), fun _ _ hcl => by cases hcl⟩, fun _ ha => by cases ha⟩

/-! ## What can be written -/

/-- The uuids have 36 characters, and the lengths of the tables fit in 32 bits. -/
structure Snapshot.Writable (C : Snapshot K) : Prop where
  owners : ∀ name uuid, C.addressBook.get? name = some uuid → uuid.length = 36
  sessions : ∀ uuid ∈ C.clientDb, uuid.length = 36
  lengthTable_fits : (Tables.ofFields C.fields).l.flatten.length < 2 ^ 32
  valueTable_fits : (Tables.ofFields C.fields).v.flatten.length < 2 ^ 32

section
variable {C R : Snapshot K} {s : Server K} {data : Bytes}

theorem Snapshot.Clean.restored (h : C.Clean) : C.restored = C := by
  refine Snapshot.ext rfl rfl (Dict.ext ?_)
  show C.clientDb.items.map (fun p => (p.1, p.2.restored)) = C.clientDb.items
  refine (List.map_congr_left fun p hp => ?_).trans (List.map_id _)
  rw [(h.sessions p.1 p.2 (Dict.get?_eq_some.2 hp)).2.offline]
  rfl

/-- Clean maps that are writable can be written, and no others. -/
theorem Snapshot.Clean.encodable_iff (h : C.Clean) : C.Encodable ↔ C.Writable := by
  constructor
  · intro henc
    refine ⟨fun name uuid hbook => ?_, fun uuid hu => ?_, henc.lengthTable_fits, henc.valueTable_fits⟩
    · exact (henc.address_uuid _ (Dict.get?_eq_some.1 hbook)).1
    · obtain ⟨cl, hcl⟩ := Dict.mem_iff.1 hu
      rw [← (h.sessions uuid cl hcl).1]
      exact (henc.client cl (List.mem_map_of_mem (Dict.get?_eq_some.1 hcl))).uuid_length
  · intro hw
    have hbook : ∀ p ∈ C.addressBook.items, C.addressBook.get? p.1 = some p.2 :=
      fun p hp => Dict.get?_eq_some.2 hp
    have hsession : ∀ p ∈ C.clientDb.items, C.clientDb.get? p.1 = some p.2 :=
      fun p hp => Dict.get?_eq_some.2 hp
    refine ⟨fun p hp => (h.book p.1 p.2 (hbook p hp)).1,
      fun p hp => ⟨hw.owners p.1 p.2 (hbook p hp), (h.book p.1 p.2 (hbook p hp)).2⟩,
      fun p hp => (h.sessions p.1 p.2 (hsession p hp)).1, fun cl hcl => ?_, hw.lengthTable_fits,
      hw.valueTable_fits⟩
    obtain ⟨p, hp, rfl⟩ := List.mem_map.1 hcl
    obtain ⟨hid, hclean⟩ := h.sessions p.1 p.2 (hsession p hp)
    refine ⟨?_, hclean.uuid_latin1, hclean.owned_latin1, fun q hq => ?_⟩
    · rw [hid]
      exact hw.sessions p.1 (Dict.mem_of_get? (hsession p hp))
    · exact hclean.outbox_keyed q.1 q.2 (Dict.get?_eq_some.2 hq)

/-- A server that takes over sessions under their uuids. -/
theorem wfRefs_applyState (hC : C.Clean) (s : Server K) : (s.applyState C).WfRefs := by
  have hfold : ∀ {ps : List (PyStr × Client K)} {s : Server K}, s.WfRefs →
      (∀ p ∈ ps, p.2.uuid = p.1) → (ps.foldl (fun s p => s.addSession p.1 p.2) s).WfRefs := by
    intro ps
    induction ps with
    | nil => exact fun hw _ => hw
    | cons p ps ih =>
      exact fun hw hid => ih (hw.addSession (hid p List.mem_cons_self)) fun q hq =>
        hid q (List.mem_cons_of_mem _ hq)
  refine hfold (fun u r hr => by cases hr) fun p hp => ?_
  exact (hC.sessions p.1 p.2 (Dict.get?_eq_some.2 hp)).1

theorem Snapshot.Clean.keyed (h : C.Clean) : C.office.Keyed := by
  intro u b id p hb hp
  obtain ⟨cl, hcl, rfl⟩ := Option.map_eq_some_iff.1 hb
  exact (h.sessions u cl hcl).2.outbox_keyed id p hp

/-- The bytes that are written depend on the maps alone. -/
theorem serialize_encodable (h : s.snapshot.Encodable) : ∃ bytes,
    (Tables.ofFields s.snapshot.fields).join = .ok bytes ∧
      (serialize L s).2 = .ok (beBytes 4 CHECKPOINT_MAGIC ++ L.compress 22 bytes) := by
  obtain ⟨bytes, hjoin, -⟩ := restore_tables h
  have hmagic : CHECKPOINT_MAGIC < 2 ^ 32 := by decide
  refine ⟨bytes, hjoin, ?_⟩
  rw [← finishTables_tables, tables_eq h]
  simp only [finishTables, ok_bind, hjoin, packI_eq hmagic]

/-- **A restored server can be written** exactly if its uuids have 36 characters and its tables fit.
    What is written then gives the same maps back, and every server that takes them over writes the same
    bytes again. -/
theorem restored_writable (h : deserialize L data = .ok R) (s : Server K) :
    ((∃ data', (serialize L (s.applyState R)).2 = .ok data') ↔ R.Writable) ∧
    ∀ data', (serialize L (s.applyState R)).2 = .ok data' → deserialize L data' = .ok R ∧
      ∀ s' : Server K, (serialize L (s'.applyState R)).2 = .ok data' := by
  have hclean := deserialize_clean L h
  have hwritten : ∀ {data'}, (serialize L (s.applyState R)).2 = .ok data' → R.Encodable ∧
      deserialize L data' = .ok R := by
    intro data' hdata
    have hkeyed : (s.applyState R).office.Keyed := by
      rw [office_snapshot, snapshot_applyState]
      exact hclean.keyed
    have henc := encodable_of_written L (wfRefs_applyState hclean s) hkeyed hdata
    have hread := deserialize_written L (wfRefs_applyState hclean s) hkeyed hdata
    rw [snapshot_applyState] at henc hread
    rw [hclean.restored] at hread
    exact ⟨henc, hread⟩
  have hserialize : ∀ s' : Server K, R.Encodable → ∃ bytes, (Tables.ofFields R.fields).join = .ok bytes ∧
      (serialize L (s'.applyState R)).2 = .ok (beBytes 4 CHECKPOINT_MAGIC ++ L.compress 22 bytes) := by
    intro s' henc
    have hs' := serialize_encodable L (s := s'.applyState R) (by rw [snapshot_applyState]; exact henc)
    rwa [snapshot_applyState] at hs'
  refine ⟨⟨?_, fun hw => ?_⟩, fun data' hdata => ⟨(hwritten hdata).2, fun s' => ?_⟩⟩
  · rintro ⟨data', hdata⟩
    exact hclean.encodable_iff.1 (hwritten hdata).1
  · obtain ⟨bytes, -, hbytes⟩ := hserialize s (hclean.encodable_iff.2 hw)
    exact ⟨_, hbytes⟩
  · obtain ⟨bytes, hjoin, hbytes⟩ := hserialize s (hwritten hdata).1
    obtain ⟨bytes', hjoin', hbytes'⟩ := hserialize s' (hwritten hdata).1
    rw [hjoin] at hjoin'
    cases hjoin'
    rw [hbytes', ← hbytes, hdata]

end

/-- A checkpoint with a key that comes twice, a field of no known type and the uuid of a session. -/
def untidy (uuid : Bytes) : Bytes :=
  let T := Tables.ofFields [(0x10, [1]), (0x11, [2]), (0x55, [9]), (0x10, [1]), (0x11, [3]), (0x30, uuid)]
  beBytes 4 CHECKPOINT_MAGIC ++ stubCompress (joined T.t T.l.flatten T.v.flatten)

def tidied (uuid : Bytes) : Snapshot ℕ :=
  ⟨Dict.empty.set [1] [3], .empty,
    Dict.empty.set (latin1Decode uuid) (.preset (latin1Decode uuid) [] [] .empty)⟩

/-- It is restored, and written in other bytes; with a uuid of one character it cannot be written. -/
theorem restored_writable_sample :
    (∃ data', data' ≠ untidy (List.replicate 36 97) ∧ ∀ s : Server ℕ,
      (serialize stub (s.applyState (tidied (List.replicate 36 97)))).2 = .ok data') ∧
    ∀ (s : Server ℕ) data', (serialize stub (s.applyState (tidied [97]))).2 ≠ .ok data' := by
  have hlong : deserialize stub (untidy (List.replicate 36 97)) = .ok (tidied (List.replicate 36 97)) := rfl
  have hshort : deserialize stub (untidy [97]) = .ok (tidied [97]) := rfl
  have hwritable : (tidied (List.replicate 36 97)).Writable := by
    refine ⟨fun _ _ h => (by cases h), ?_, by decide, by decide +kernel⟩
    intro uuid hu
    rcases Dict.mem_set.1 hu with rfl | hu
    · decide
    · cases hu
  obtain ⟨hiff, hagain⟩ := restored_writable stub hlong (.init [] false)
  obtain ⟨data', hdata⟩ := hiff.2 hwritable
  refine ⟨⟨data', ?_, (hagain data' hdata).2⟩, fun s data' hdata => ?_⟩
  · rintro rfl
    revert hdata
    decide +kernel
  · have hw := (restored_writable stub hshort s).1.1 ⟨data', hdata⟩
    have hlen := hw.sessions (latin1Decode [97]) (by decide)
    revert hlen
    decide

end Pipebomb
