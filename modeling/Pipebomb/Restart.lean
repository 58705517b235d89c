/-
  Restarts from a checkpoint.

  A server whose process ends is started again from a checkpoint: `deserialize` gives a new
  server the maps that `serialize` wrote, and every connection is new.

  * `Office.Keyed`: every response lies under its own id.  Requests keep that, and it is all
    that `serialize` does not check (`encodable_of_written`), so what it returned for a server
    in a run can be read, and nothing is lost (`deserialize_written`).
  * `Sys.restart` is a restart, `Era.step` a step of a server or a restart.
  * `restarts_linearizable`: over any number of restarts the requests of all connections are
    linearizable to one office.  What was answered before a restart stays done, and whatever
    `serialize` returns, `deserialize` reads back.
-/
import Pipebomb.Atomic
import Pipebomb.CheckpointRun

namespace Pipebomb

open ByteString Linear

variable {K : Type} (L : Libs K)

/-! ## What was written can be read -/

/-- Every response lies under its own id. -/
def Office.Keyed (O : Office) : Prop :=
  ∀ u b id p, O.boxes u = some b → b.outbox id = some p → p.response_uuid = id

/-- Changing a box keeps the ids, if the change does. -/
theorem Office.Keyed.modifyBox {O : Office} (h : O.Keyed) (u : PyStr) {f : Box → Box}
    (hf : ∀ b id p, (f b).outbox id = some p → b.outbox id = some p ∨ p.response_uuid = id) :
    (O.modifyBox u f).Keyed := by
  intro u' b id p hb hp
  by_cases hu : u' = u
  · subst hu
    rw [Office.modifyBox_boxes_self, Option.map_eq_some_iff] at hb
    obtain ⟨b', hb', rfl⟩ := hb
    rcases hf b' id p hp with hp | hid
    · exact h u' b' id p hb' hp
    · exact hid
  · rw [Office.modifyBox_boxes_ne O hu] at hb
    exact h u' b id p hb hp

theorem Office.Keyed.apply {O : Office} (h : O.Keyed) (e : Effect) : (O.apply e).Keyed := by
  cases e with
  | kv op => exact h
  | register u name => exact h.modifyBox u fun b id p hp => .inl hp
  | unregister u name => exact h.modifyBox u fun b id p hp => .inl hp
  | put u q => exact h.modifyBox u fun b id p hp => .inl hp
  | take u => exact h.modifyBox u fun b id p hp => .inl hp
  | write u q =>
    refine h.modifyBox u fun b id p hp => ?_
    by_cases hid : id = q.response_uuid
    · subst hid
      simp only [Box.write, Function.update_self] at hp
      cases hp
      exact .inr rfl
    · simp only [Box.write, Function.update_of_ne hid] at hp
      exact .inl hp
  | consume u id' =>
    refine h.modifyBox u fun b id p hp => ?_
    by_cases hid : id = id'
    · subst hid
      simp only [Box.consume, Function.update_self] at hp
      cases hp
    · simp only [Box.consume, Function.update_of_ne hid] at hp
      exact .inl hp
  | login u =>
    intro u' b id p hb hp
    by_cases hu : u' = u
    · subst hu
      simp only [Office.apply, Function.update_self] at hb
      cases hb
      cases hp
    · simp only [Office.apply, Function.update_of_ne hu] at hb
      exact h u' b id p hb hp
  | leave u name =>
    intro u' b id p hb hp
    by_cases hu : u' = u
    · subst hu
      simp only [Office.apply, Function.update_self] at hb
      cases hb
    · simp only [Office.apply, Function.update_of_ne hu] at hb
      exact h u' b id p hb hp

theorem Office.keyed_empty : Office.empty.Keyed := fun _ _ _ _ hb => by cases hb

section
variable {s : Server K} {cl : Client K} {T T' : Tables} {data : Bytes}

/-- The requests of an inbox that was read. -/
theorem drainInbox_ok {qs : List Request} : ∀ {bs : Bytes}, (drainInbox qs).2 = .ok bs →
    bs = (qs.map requestBytes).flatten := by
  induction qs with
  | nil =>
    intro bs h
    cases h
    rfl
  | cons q qs ih =>
    intro bs h
    rcases hq : packRequest q with e | b
    · simp only [drainInbox, hq] at h
      cases h
    · rcases hd : drainInbox qs with ⟨left, e | rest⟩
      · simp only [drainInbox, hq, hd] at h
        cases h
      · simp only [drainInbox, hq, hd] at h
        cases h
        have hrest : (drainInbox qs).2 = .ok rest := by rw [hd]
        rw [packFields_ok hq, ih hrest]
        rfl

/-- The boxes of a client that were written fit. -/
theorem boxesOk_of_written (h : serializeBoxes T cl (drainInbox cl.inbox).2 = .ok T') : cl.BoxesOk := by
  obtain ⟨inbox, hi, h⟩ := bind_eq_ok.1 h
  obtain ⟨uuid, hu, h⟩ := bind_eq_ok.1 h
  obtain ⟨T₁, hf, h⟩ := bind_eq_ok.1 h
  obtain ⟨outbox, ho, h⟩ := bind_eq_ok.1 h
  obtain ⟨-, rfl⟩ := latin1Encode_ok hu
  obtain rfl := drainInbox_ok hi
  obtain rfl := packOutbox_ok ho
  exact Short.cons.2 ⟨addField_ok hf, Short.cons.2 ⟨addField_ok h, fun f hf => by cases hf⟩⟩

/-- The clients that were written fit; what is read of one does not change the others. -/
theorem clients_of_written {rs : List Ref} : ∀ {s : Server K} {T T' : Tables}, rs.Nodup →
    (serializeClients s T rs).2 = .ok T' → ∀ r ∈ rs, (s.objs r).OwnedOk ∧ (s.objs r).BoxesOk := by
  induction rs with
  | nil =>
    intro s T T' _ _ r hr
    cases hr
  | cons r rs ih =>
    intro s T T' hn h r' hr'
    obtain ⟨hr, hn⟩ := List.nodup_cons.1 hn
    simp only [serializeClients, serializeClient] at h
    rcases ho : serializeOwned T (s.objs r) with e | T₁
    · simp only [ho] at h
      cases h
    · rcases hb : serializeBoxes T₁ (s.objs r) (drainInbox (s.objs r).inbox).2 with e | T₂
      · simp only [ho, hb] at h
        cases h
      · simp only [ho, hb] at h
        rcases List.mem_cons.1 hr' with rfl | hmem
        · exact ⟨serializeOwned_ok.1 ⟨T₁, ho⟩, boxesOk_of_written hb⟩
        · have hne : r' ≠ r := by
            rintro rfl
            exact hr hmem
          have hsame := ih hn h r' hmem
          rwa [Server.modify_objs_ne hne] at hsame

/-- The objects of the sessions are different. -/
theorem Server.WfRefs.values_nodup (hw : s.WfRefs) : s.clientDb.values.Nodup := by
  refine List.Nodup.of_map (fun r => (s.objs r).uuid) ?_
  have hkeys : s.clientDb.values.map (fun r => (s.objs r).uuid) = s.clientDb.items.map Prod.fst := by
    rw [Dict.values, List.map_map]
    exact List.map_congr_left fun p hp => (hw p.1 p.2 (Dict.get?_eq_some.2 hp)).2
  rw [hkeys]
  exact s.clientDb.nodup

theorem Client.OwnedOk.fields (h : cl.OwnedOk) (h' : cl.BoxesOk) : Short (clientFields cl) := by
  have happ : clientFields cl = (clientFields cl).take 2 ++ (clientFields cl).drop 2 := rfl
  rw [happ, Short.append]
  exact ⟨h.short, h'⟩

/-- The responses of a client lie under their ids. -/
theorem Office.Keyed.outbox (hk : s.office.Keyed) {r : Ref}
    (hr : r ∈ s.clientDb.values) : ∀ p ∈ (s.objs r).outbox.items, p.2.response_uuid = p.1 := by
  obtain ⟨⟨u, r⟩, hmem, rfl⟩ := List.mem_map.1 hr
  intro p hp
  refine hk u (s.objs r).box p.1 p.2 ?_ (Dict.get?_eq_some.2 hp)
  rw [office_boxes, Server.client, Dict.get?_eq_some.2 hmem]
  rfl

/-- **What was written can be read**, if the responses lie under their ids. -/
theorem encodable_of_written (hw : s.WfRefs) (hk : s.office.Keyed)
    (h : (serialize L s).2 = .ok data) : s.snapshot.Encodable := by
  rw [← finishTables_tables] at h
  obtain ⟨T, hT, h⟩ := bind_eq_ok.1 h
  obtain ⟨bytes, hjoin, -⟩ := bind_eq_ok.1 h
  unfold tables at hT
  rcases hd : serializeDb ⟨[], [], []⟩ s.db.items with e | T₁
  · simp only [hd] at hT
    cases hT
  rcases hb : serializeAddressBook T₁ s.addressBook.items with e | T₂
  · simp only [hd, hb] at hT
    cases hT
  simp only [hd, hb] at hT
  have hwritten := clients_of_written hw.values_nodup hT
  have hdb := serializeDb_ok hd
  obtain ⟨hbook, hkeys, huuids⟩ := serializeAddressBook_ok hb
  have hclient : ∀ r ∈ s.clientDb.values, (s.objs r).Encodable := fun r hr =>
    ⟨(hwritten r hr).1.uuid_length, (hwritten r hr).1.uuid_latin1, (hwritten r hr).1.owned_latin1,
      hk.outbox hr⟩
  have hshort : Short (s.clientDb.values.flatMap fun r => clientFields (s.objs r)) := by
    intro f hf
    obtain ⟨r, hr, hf⟩ := List.mem_flatMap.1 hf
    exact (hwritten r hr).1.fields (hwritten r hr).2 f hf
  -- so the tables are those of the fields, and their lengths were packed
  obtain rfl := Except.ok.inj (hd.symm.trans (serializeDb_eq [] hdb))
  obtain rfl := Except.ok.inj (hb.symm.trans (serializeAddressBook_eq _ hbook hkeys huuids))
  obtain rfl := Except.ok.inj (hT.symm.trans (serializeClients_eq _ hw.values_nodup hclient hshort))
  have hfields : s.snapshot.fields = [] ++ dbFields s.db.items ++ bookFields s.addressBook.items ++
      s.clientDb.values.flatMap fun r => clientFields (s.objs r) := by
    rw [Snapshot.fields, values_snapshot, List.flatMap_map]
    rfl
  rw [← hfields] at hjoin
  obtain ⟨a, -, hjoin⟩ := bind_eq_ok.1 hjoin
  obtain ⟨b, hl, hjoin⟩ := bind_eq_ok.1 hjoin
  obtain ⟨c, hv, -⟩ := bind_eq_ok.1 hjoin
  refine ⟨hkeys, huuids, ?_, ?_, (packI_ok.1 hl).1, (packI_ok.1 hv).1⟩
  · intro p hp
    obtain ⟨q, hq, rfl⟩ := List.mem_map.1 hp
    exact (hw q.1 q.2 (Dict.get?_eq_some.2 hq)).2
  · intro cl hcl
    rw [values_snapshot] at hcl
    obtain ⟨r, hr, rfl⟩ := List.mem_map.1 hcl
    exact hclient r hr

/-- **Nothing is lost**: what `serialize` returned gives the maps back. -/
theorem deserialize_written (hw : s.WfRefs) (hk : s.office.Keyed) (h : (serialize L s).2 = .ok data) :
    deserialize L data = .ok s.snapshot.restored := by
  have henc := encodable_of_written L hw hk h
  obtain ⟨bytes, hjoin, hrestore⟩ := restore_tables henc
  have hmagic : CHECKPOINT_MAGIC < 2 ^ 32 := by decide
  rw [← finishTables_tables, tables_eq henc] at h
  simp only [finishTables, ok_bind, hjoin, packI_eq hmagic] at h
  cases h
  have hread : unpackFromI (beBytes 4 CHECKPOINT_MAGIC ++ L.compress 22 bytes) 0 = .ok CHECKPOINT_MAGIC :=
    unpackFromI_append [] hmagic _
  have hdrop : (beBytes 4 CHECKPOINT_MAGIC ++ L.compress 22 bytes).drop 4 = L.compress 22 bytes :=
    List.drop_left' (length_beBytes 4 _)
  rw [deserialize, hread, ok_bind, if_neg (not_not.2 rfl), hdrop, L.decompress_compress]
  exact hrestore

end

/-! ## Restarts -/

/-- A restart: a checkpoint is taken, by a `serialize` that does not have to wait for a lock, and a
    new server with the same password takes it over. -/
def Sys.restart (S : Sys K) : Option (Sys K) :=
  match (serializeStart S.server).2 with
  | .waits _ _ _ => none
  | .done tables => match finishTables L tables with
    | .error _ => none
    | .ok data => match deserialize (K := K) L data with
      | .error _ => none
      | .ok R =>
        some ⟨(Server.init S.server.password S.server.keepDeadSessions).applyState R, fun _ => .idle⟩

/-- A server, and how often it was restarted. -/
structure Era (K : Type) where
  number : ℕ
  sys : Sys K

inductive EraAct where
  | server (a : Act)
  | restart

namespace Era

def step (X : Era K) : EraAct → Option (Era K × List (Obs K))
  | .server a => match X.sys.step L a with
    | none => none
    | some (S, o) => some ({ X with sys := S }, o)
  | .restart => match X.sys.restart L with
    | none => none
    | some S => some (⟨X.number + 1, S⟩, [])

/-- What clients see of a step, by the restart before their connection and its number. -/
def history (X : Era K) (a : EraAct) (o : List (Obs K)) : List (Event (ℕ × ConnId) Errand (Option Bytes)) :=
  match a with
  | .server a => (X.sys.history a o).map (Event.map (Prod.mk X.number))
  | .restart => []

def Unrepeated (X : Era K) (a : EraAct) (o : List (Obs K)) : Prop :=
  ∀ b, a = .server b → X.sys.Unrepeated b o

end Era

/-! ## What a restart keeps -/

section
variable {s : Server K} {ps : List (PyStr × Client K)} {R : Snapshot K} {S S' : Sys K}

def Snapshot.office (C : Snapshot K) : Office :=
  ⟨C.db.get?, C.addressBook.get?, fun u => (C.clientDb.get? u).map Client.box⟩

theorem office_snapshot (s : Server K) : s.office = s.snapshot.office := by
  ext : 1
  · rfl
  · rfl
  · funext u
    show (s.client u).map Client.box = ((s.clientDb.mapVal s.objs).get? u).map Client.box
    rw [Dict.get?_mapVal]
    rfl

theorem office_restored (C : Snapshot K) : C.restored.office = C.office := by
  ext : 1
  · rfl
  · rfl
  · funext u
    show ((C.clientDb.mapVal Client.restored).get? u).map Client.box = (C.clientDb.get? u).map Client.box
    rw [Dict.get?_mapVal, Option.map_map]
    rfl

/-- The sessions that a server takes over have objects of their own. -/
theorem addSessions_wf : ∀ {s : Server K}, s.WfRefs → s.Singular → (ps.map Prod.fst).Nodup →
    (∀ p ∈ ps, p.2.uuid = p.1 ∧ ∀ r < s.fresh, (s.objs r).uuid ≠ p.1) →
    (ps.foldl (fun s p => s.addSession p.1 p.2) s).WfRefs ∧
      (ps.foldl (fun s p => s.addSession p.1 p.2) s).Singular ∧
      (ps.foldl (fun s p => s.addSession p.1 p.2) s).keepDeadSessions = s.keepDeadSessions := by
  induction ps with
  | nil => exact fun hw h1 _ _ => ⟨hw, h1, rfl⟩
  | cons p ps ih =>
    intro s hw h1 hn hp
    obtain ⟨hkey, hnew⟩ := hp p List.mem_cons_self
    rw [List.map_cons, List.nodup_cons] at hn
    refine ih (hw.addSession hkey) (h1.addSession p.2 hkey hnew) hn.2 fun q hq => ?_
    obtain ⟨hkey', hnew'⟩ := hp q (List.mem_cons_of_mem _ hq)
    refine ⟨hkey', fun r hr => ?_⟩
    rcases Nat.lt_succ_iff_lt_or_eq.1 hr with hr | rfl
    · rw [Server.addSession_objs hr]
      exact hnew' r hr
    · rw [Server.addSession_objs_fresh, hkey]
      rintro he
      exact hn.1 (he ▸ List.mem_map_of_mem hq)

/-- A new server that takes over clients under their uuids. -/
theorem applyState_wf (password : Bytes) (keep : Bool) (hkeyed : ∀ p ∈ R.clientDb.items, p.2.uuid = p.1) :
    ((Server.init password keep).applyState R).WfRefs ∧ ((Server.init password keep).applyState R).Singular ∧
      ((Server.init password keep).applyState R).keepDeadSessions = keep := by
  refine addSessions_wf ?_ ?_ R.clientDb.nodup fun p hp => ⟨hkeyed p hp, fun r hr => ?_⟩
  · intro u r hr
    cases hr
  · intro r hr
    exact absurd hr (Nat.not_lt_zero r)
  · exact absurd hr (Nat.not_lt_zero r)

/-- **The server after a restart.** -/
theorem restart_eq (hw : S.server.WfRefs) (hk : S.server.office.Keyed) (h : S.restart L = some S') :
    S.server.snapshot.Encodable ∧
      S' = ⟨(Server.init S.server.password S.server.keepDeadSessions).applyState S.server.snapshot.restored,
        fun _ => .idle⟩ := by
  have hresult := serializeStart_result S.server
  unfold Sys.restart at h
  rcases hstart : (serializeStart S.server).2 with T | ⟨T, r, rest⟩
  · rw [hstart] at h hresult
    have hser : finishTables L T = (serialize L S.server).2 := by
      rw [← finishTables_tables, ← hresult]
      rfl
    simp only [hser] at h
    rcases hdata : (serialize L S.server).2 with e | data
    · simp only [hdata] at h
      cases h
    · simp only [hdata, deserialize_written L hw hk hdata] at h
      cases h
      exact ⟨encodable_of_written L hw hk hdata, rfl⟩
  · rw [hstart] at h
    cases h

/-- **A restart** keeps the office, and the new server is as servers are. -/
theorem restart_office (hN : S.Named) (hk : S.server.office.Keyed) (h : S.restart L = some S') :
    S'.server.office = S.server.office ∧ S'.Named ∧ S'.server.Singular ∧
      S'.server.keepDeadSessions = S.server.keepDeadSessions ∧ ∀ c, S'.tasks c = .idle := by
  obtain ⟨henc, rfl⟩ := restart_eq L hN.sound.refs hk h
  obtain ⟨hw, hone, hkeep⟩ := applyState_wf S.server.password S.server.keepDeadSessions
    henc.restored.client_keyed
  have hoffice : ((Server.init S.server.password S.server.keepDeadSessions).applyState
      S.server.snapshot.restored).office = S.server.office := by
    rw [office_snapshot, snapshot_applyState, office_restored, ← office_snapshot]
  refine ⟨hoffice, ⟨⟨hw, fun _ => trivial, fun _ => trivial, fun _ _ ht => by cases ht⟩, ?_, ?_⟩, hone, hkeep,
    fun _ => rfl⟩
  · rw [hoffice]
    exact hN.agrees
  · intro u hu
    rw [← boxes_ne_none, hoffice] at hu
    exact hN.uuids u (boxes_ne_none.1 hu)

end

/-! ## Runs with restarts -/

section
variable {S S' : Sys K} {a : Act} {o : List (Obs K)} {keep : Bool} {X X' : Era K} {b : EraAct}
  {es : List (Event (ℕ × ConnId) Errand (Option Bytes))}

/-- A step keeps the ids of responses. -/
theorem step_keyed (hN : S.Named) (hk : S.server.office.Keyed) (hstep : S.step L a = some (S', o))
    (ha : a.Wire) : S'.server.office.Keyed := by
  rw [step_office L hN.sound.refs (step_step L hN.sound.tidy hstep).1 ha]
  rcases S.effect a o with _ | e
  · exact hk
  · exact hk.apply e

/-- The history up to the last restart has a point for each errand, and the office that is left
    is where the history since then started. -/
structure Era.Follows (X : Era K) (keep : Bool) (es₀ : List (Event (ℕ × ConnId) Errand (Option Bytes)))
    (st₀ : ℕ × ConnId → Status Errand (Option Bytes)) (O₀ : Office)
    (es₁ : List (Event ConnId Errand (Option Bytes))) (st₁ : ConnId → Status Errand (Option Bytes)) :
    Prop where
  past : Tracks (officeSpec keep) .empty es₀ st₀ O₀
  /-- connections after the restart are new -/
  idle : ∀ n c, X.number ≤ n → st₀ (n, c) = .idle
  now : X.sys.Attended keep O₀ es₁ st₁
  keyed : X.sys.server.office.Keyed

def Era.Attended (X : Era K) (keep : Bool) (es : List (Event (ℕ × ConnId) Errand (Option Bytes))) : Prop :=
  ∃ es₀ st₀ O₀ es₁ st₁, es = es₀ ++ es₁.map (Event.map (Prod.mk X.number)) ∧
    X.Follows keep es₀ st₀ O₀ es₁ st₁

/-- The whole history has a point for each errand. -/
theorem Era.Attended.tracks (hX : X.Attended keep es) :
    ∃ st, Tracks (officeSpec keep) .empty es st X.sys.server.office ∧
      ∀ n c, X.number < n → st (n, c) = .idle := by
  obtain ⟨es₀, st₀, O₀, es₁, st₁, rfl, hX⟩ := hX
  obtain ⟨st, hT, -, hother⟩ := hX.past.follow (Prod.mk_right_injective X.number)
    (fun c => hX.idle _ c le_rfl) hX.now.tracks
  refine ⟨st, hT, fun n c hn => ?_⟩
  rw [hother (n, c) fun c' he => hn.ne (congrArg Prod.fst he).symm]
  exact hX.idle n c hn.le

/-- **One step.** -/
theorem era_step_attended (hX : X.Attended keep es) (hstep : X.step L b = some (X', o))
    (hok : X.Unrepeated b o) : X'.Attended keep (es ++ X.history b o) := by
  cases b with
  | server a =>
    obtain ⟨es₀, st₀, O₀, es₁, st₁, rfl, hX⟩ := hX
    rcases hs : X.sys.step L a with _ | ⟨S', o'⟩
    · simp only [Era.step, hs] at hstep
      cases hstep
    · simp only [Era.step, hs] at hstep
      cases hstep
      obtain ⟨st₂, hnow⟩ := step_attended L hX.now hs (hok a rfl)
      refine ⟨es₀, st₀, O₀, _, st₂, ?_, hX.past, hX.idle, hnow, ?_⟩
      · rw [List.append_assoc, List.map_append]
        rfl
      · exact step_keyed L hX.now.named hX.keyed hs (hok a rfl).1.1
  | restart =>
    obtain ⟨st, hT, hidle⟩ := hX.tracks
    obtain ⟨es₀, st₀, O₀, es₁, st₁, rfl, hX⟩ := hX
    rcases hs : X.sys.restart L with _ | S'
    · simp only [Era.step, hs] at hstep
      cases hstep
    · simp only [Era.step, hs] at hstep
      cases hstep
      obtain ⟨hoffice, hnamed, hone, hkeep, htasks⟩ := restart_office L hX.now.named hX.keyed hs
      refine ⟨_, st, X.sys.server.office, [], fun _ => .idle, rfl, hT, fun n c hn => hidle n c hn, ?_, ?_⟩
      · refine ⟨hnamed, hone, hkeep.trans hX.now.kept, ?_, fun c => ?_⟩
        · rw [hoffice]
          exact .nil
        · rw [htasks]
          rfl
      · rw [hoffice]
        exact hX.keyed

/-- **The service is linearizable over restarts**: in every run of logins, requests and restarts
    there is an order of the errands, consistent with their calls and returns, in which one office
    that serves one at a time gives the same replies, and ends as the server; and what `serialize`
    returns for the server, `deserialize` reads back as the same office. -/
theorem restarts_linearizable {password : Bytes} {xs : List (Lts.Shown (Era K) EraAct (Obs K))}
    (hrun : Lts.Run (Lts.Guarded (Lts.shown (Era.step L)) (Lts.Showing Era.Unrepeated))
      ⟨0, .init password keep⟩ X xs) :
    (∃ l, Linearizes (officeSpec keep) .empty X.sys.server.office
      (numbered (xs.flatMap fun x => x.before.history x.act x.obs)) l) ∧
    ∀ data, (serialize L X.sys.server).2 = .ok data →
      ∃ R : Snapshot K, deserialize L data = .ok R ∧ R.office = X.sys.server.office := by
  have hstart : (⟨0, .init password keep⟩ : Era K).Attended keep [] :=
    ⟨[], fun _ => .idle, _, [], fun _ => .idle, rfl, .nil, fun _ _ _ => rfl, attended_init password keep,
      Office.keyed_empty⟩
  have hX := hrun.inv
    (I := fun X xs => X.Attended keep (xs.flatMap fun x => x.before.history x.act x.obs)) hstart
    fun _ hX ⟨_, hshown, hok⟩ => by
      obtain ⟨o, hstep, rfl⟩ := Lts.shown_step hshown
      rw [List.flatMap_append, List.flatMap_singleton]
      exact era_step_attended L hX hstep (hok _ (List.mem_singleton_self _))
  obtain ⟨st, hT, -⟩ := hX.tracks
  refine ⟨hT.linearizes, fun data hdata => ?_⟩
  obtain ⟨es₀, st₀, O₀, es₁, st₁, -, hX⟩ := hX
  refine ⟨_, deserialize_written L hX.now.named.sound.refs hX.keyed hdata, ?_⟩
  rw [office_restored, ← office_snapshot]

end

/-! ## A run on fixed inputs -/

/-- `Unrepeated` for actions on connections below `n`. -/
def Era.UnrepeatedBelow (n : ℕ) (X : Era K) (a : EraAct) (o : List (Obs K)) : Prop :=
  match a with
  | .server a => X.sys.UnrepeatedBelow n a o
  | .restart => True

instance Era.decidableUnrepeatedBelow (n : ℕ) (X : Era K) (a : EraAct) (o : List (Obs K)) :
    Decidable (X.UnrepeatedBelow n a o) :=
  match a with
  | .server _ => inferInstanceAs (Decidable (_ ∧ _))
  | .restart => isTrue trivial

section
variable {X X' : Era K} {a : EraAct} {o : List (Obs K)} {n : ℕ}

theorem Era.UnrepeatedBelow.unrepeated (hX : X.sys.Below n) (h : X.UnrepeatedBelow n a o) :
    X.Unrepeated a o := by
  rintro b rfl
  exact Sys.UnrepeatedBelow.unrepeated hX h

theorem era_step_below (hX : X.sys.Below n) (h : X.UnrepeatedBelow n a o)
    (hstep : X.step L a = some (X', o)) : X'.sys.Below n := by
  cases a with
  | server b =>
    rcases hs : X.sys.step L b with _ | ⟨S', o'⟩
    · simp only [Era.step, hs] at hstep
      cases hstep
    · simp only [Era.step, hs] at hstep
      cases hstep
      exact step_below L hX h.1.2.1.1 hs
  | restart =>
    rcases hs : X.sys.restart L with _ | S'
    · simp only [Era.step, hs] at hstep
      cases hstep
    · simp only [Era.step, hs] at hstep
      cases hstep
      unfold Sys.restart at hs
      split at hs
      · cases hs
      · split at hs
        · cases hs
        · split at hs
          · cases hs
          · cases hs
            exact fun _ _ => rfl

end

/-- A client registers `k`, the server is restarted, and the client logs in to its session again
    and asks who has `k`. -/
def restartActs : List EraAct :=
  (loginActs 0 [0xC5] ++ registerAct :: drawing sampleDraw 0 [.sent, .go]).map EraAct.server ++
    EraAct.restart :: (loginActs 0 reloginResponse ++
      drawing sampleDraw 0 [.recv (stubPacket 0 2 [0x1, 107])]).map EraAct.server

/-- The name is still there, and the server can be restarted again. -/
theorem restarts_linearizable_sample : ∃ (X : Era ℕ)
    (es : List (Event (ℕ × ConnId) Errand (Option Bytes)))
    (l : List (((ℕ × ConnId) × ℕ) × Errand × Option Bytes)) (data : Bytes) (R : Snapshot ℕ),
    Linearizes (officeSpec true) .empty X.sys.server.office (numbered es) l ∧
      (serialize stub X.sys.server).2 = .ok data ∧ deserialize stub data = .ok R ∧
      R.office = X.sys.server.office ∧
      es = [.call (0, 0) (.login sampleUuid), .ret (0, 0) none,
        .call (0, 0) (.request sampleUuid [0x85, 107]), .ret (0, 0) (some ACK),
        .call (1, 0) (.request sampleUuid [0x1, 107]), .ret (1, 0) (some (latin1 sampleUuid))] := by
  have hexec : ((Lts.exec (Lts.shown (Era.step stub)) restartActs ⟨0, .init [] true⟩).any fun x =>
      x.2.flatMap (fun y => y.before.history y.act y.obs) =
        [.call (0, 0) (.login sampleUuid), .ret (0, 0) none,
          .call (0, 0) (.request sampleUuid [0x85, 107]), .ret (0, 0) (some ACK),
          .call (1, 0) (.request sampleUuid [0x1, 107]), .ret (1, 0) (some (latin1 sampleUuid))] &&
        (serialize stub x.1.sys.server).2.isOk) = true := by
    decide +kernel
  have halong : Lts.Along (Lts.shown (Era.step stub)) (Lts.Showing (Era.UnrepeatedBelow 1)) restartActs
      ⟨0, .init [] true⟩ := by decide +kernel
  obtain ⟨⟨X, xs⟩, hX, hp⟩ := Option.any_eq_true _ _ |>.1 hexec
  -- only the connection 0 is used, so the uuid of the login is fresh
  have hrun := Lts.exec_run hX (halong.imp (I := fun X => X.sys.Below 1) (fun hX h hshown => by
    obtain ⟨o, hstep, rfl⟩ := Lts.shown_step hshown
    exact era_step_below stub hX (h _ (List.mem_singleton_self _)) hstep)
    (fun hX h x hx => (h x hx).unrepeated hX) fun _ _ => rfl)
  obtain ⟨⟨l, hl⟩, hread⟩ := restarts_linearizable stub hrun
  rw [Bool.and_eq_true] at hp
  rcases hdata : (serialize stub X.sys.server).2 with e | data
  · rw [hdata] at hp
    cases hp.2
  · obtain ⟨R, hR, hoffice⟩ := hread data hdata
    exact ⟨X, _, l, data, R, hl, hdata, hR, hoffice, of_decide_eq_true hp.1⟩

end Pipebomb
