/-
  Who owns a key: the address book and the lists of owned addresses.

  `Operation` are the completed operations that touch either: logins, REGISTER,
  UNREGISTER and the administrative calls.  A state agrees if the address book and the
  lists of the sessions are two copies of one relation (`TwoWay.Agree`).

  * `Operation.run_agree`: from an agreeing state, an operation reaches an agreeing state
    exactly if it is not `add_client` with owned addresses, which enters the addresses
    into the list of the client but not into the address book.
  * `ownership_agrees_iff`: so all states of a run agree exactly if no such call is made;
    `ownership_disagrees` is a run where they do not.
-/
import Pipebomb.Accept
import Pipebomb.Admin
import Pipebomb.Stub
import Pipebomb.Lib.Run
import Pipebomb.Lib.TwoWay

namespace Pipebomb

open ByteString

variable {K : Type}

/-- The addresses a session owns. -/
def Server.owned (s : Server K) (u : PyStr) : Option (List PyStr) :=
  (s.client u).map Client.addressesOwned

/-- The address book and the lists of owned addresses agree. -/
def Server.Agree (s : Server K) : Prop := TwoWay.Agree s.addressBook.get? s.owned

/-- An operation that touches them. -/
inductive Operation (K : Type) where
  | login (c : ConnId) (uuid : PyStr) (cipher : K) (txNonce rxNonce : ℕ)
  | relogin (c : ConnId) (uuid : PyStr) (cipher : K)
  | register (uuid name : PyStr)
  | unregister (uuid name : PyStr)
  | admin (op : Admin)

/-- A command that did not raise. -/
def completed (o : Server K × Next) : Except PyErr (Server K) :=
  match o.2 with
  | .raise e => .error e
  | _ => .ok o.1

/-- The state after an operation, or what it raised. -/
def Operation.run (s : Server K) : Operation K → Except PyErr (Server K)
  | .login c uuid cipher txNonce rxNonce =>
    .ok (s.addSession uuid (.login c uuid cipher txNonce rxNonce))
  | .relogin c uuid cipher => match s.clientDb.get? uuid with
    | none => .error .keyError
    | some r => .ok (s.modify r (Client.attach c cipher))
  | .register uuid name => completed (Pipebomb.register s uuid name)
  | .unregister uuid name => completed (Pipebomb.unregister s uuid name)
  | .admin op => match op.run s with
    | (s, .ok ()) => .ok s
    | (_, .error e) => .error e

/-- `uuid4()` gives a uuid that is not in use. -/
def Operation.Fresh (s : Server K) : Operation K → Prop
  | .login _ uuid _ _ _ => uuid ∉ s.clientDb
  | _ => True

/-- A step of a run: an operation that completes; what is seen is the state it reaches. -/
def Operation.step (s : Server K) (op : Operation K) : Option (Server K × List (Server K)) :=
  match op.run s with
  | .ok s' => some (s', [s'])
  | .error _ => none

/-- The operation enters owned addresses on one side only. -/
def Operation.Preset : Operation K → Prop
  | .admin (.addClient t) => t.addressesOwned ≠ []
  | _ => False

/-! ## What an operation does to the two copies -/

variable {s s' : Server K}

theorem owned_eq_some {u : PyStr} {r : Ref} (hu : s.clientDb.get? u = some r) :
    s.owned u = some (s.objs r).addressesOwned := by
  rw [Server.owned, Server.client, hu]; rfl

theorem owned_eq_none {u : PyStr} : s.owned u = none ↔ u ∉ s.clientDb := by
  rw [Server.owned, Option.map_eq_none_iff, Server.client_eq_none, Dict.get?_eq_none]

/-- Changing the object of a session changes the list of that session only. -/
theorem owned_modify (hw : s.WfRefs) {u : PyStr} {r : Ref} (hu : s.clientDb.get? u = some r)
    (f : Client K → Client K) :
    (s.modify r f).owned = Function.update s.owned u (some (f (s.objs r)).addressesOwned) := by
  funext u'
  by_cases he : u' = u
  · subst he
    rw [Function.update_self, owned_eq_some (by exact hu), Server.modify_objs_self]
  · rw [Function.update_of_ne he]
    rcases hu' : s.clientDb.get? u' with _ | r'
    · rw [owned_eq_none.2 (Dict.get?_eq_none.1 hu'),
        owned_eq_none.2 (by exact Dict.get?_eq_none.1 hu')]
    · have hr : r' ≠ r := by
        rintro rfl
        exact he (hw.inj hu' hu)
      rw [owned_eq_some hu', owned_eq_some (by exact hu'), Server.modify_objs_ne hr]

theorem owned_addSession (hw : s.WfRefs) (u : PyStr) (cl : Client K) :
    (s.addSession u cl).owned = Function.update s.owned u (some cl.addressesOwned) := by
  funext u'
  by_cases he : u' = u
  · subst he
    have hu : (s.addSession u' cl).clientDb.get? u' = some s.fresh := by simp
    rw [Function.update_self, owned_eq_some hu, Server.addSession_objs_fresh]
  · rw [Function.update_of_ne he]
    have hget : (s.addSession u cl).clientDb.get? u' = s.clientDb.get? u' := by
      rw [Server.addSession_clientDb, Dict.get?_set_ne _ he]
    rcases hu' : s.clientDb.get? u' with _ | r'
    · rw [owned_eq_none.2 (Dict.get?_eq_none.1 (hget.trans hu')),
        owned_eq_none.2 (Dict.get?_eq_none.1 hu')]
    · rw [owned_eq_some hu', owned_eq_some (hget.trans hu'),
        Server.addSession_objs (hw u' r' hu').1]

theorem get?_deleteKeys {ks : List PyStr} : ∀ {book book' : Dict PyStr PyStr},
    deleteKeys book ks = (book', .ok ()) →
      ∀ k, book'.get? k = if k ∈ ks then none else book.get? k := by
  induction ks with
  | nil => intro book book' h k; cases h; rfl
  | cons key ks ih =>
    intro book book' h k
    rw [deleteKeys] at h
    split_ifs at h with hm
    · rw [ih h, Dict.get?_erase]
      by_cases hk : k = key <;> simp [hk]
    · cases h

/-! ## Each operation keeps the agreement -/

/-- A new key enters both copies. -/
theorem own_agree (hA : s.Agree) (hw : s.WfRefs) {uuid name : PyStr} {r : Ref}
    (hn : name ∉ s.addressBook) (hu : s.clientDb.get? uuid = some r) :
    ((s.modify r (Client.own name)).setBook (s.addressBook.set name uuid)).Agree := by
  have hadd := hA.add (Dict.get?_eq_none.2 hn) (owned_eq_some hu)
  have howned : (s.modify r (Client.own name)).owned =
    Function.update s.owned uuid (some ((s.objs r).addressesOwned ++ [name])) := owned_modify hw hu _
  rw [← howned, ← Dict.get?_set_update] at hadd
  exact hadd

/-- A key leaves both copies. -/
theorem disown_agree (hA : s.Agree) (hw : s.WfRefs) {uuid name : PyStr} {r : Ref}
    (hm : name ∈ (s.objs r).addressesOwned) (hu : s.clientDb.get? uuid = some r) :
    ((s.modify r (Client.disown name)).setBook (s.addressBook.erase name)).Agree := by
  have hrem := hA.remove (owned_eq_some hu) hm
  have howned : (s.modify r (Client.disown name)).owned =
    Function.update s.owned uuid (some ((s.objs r).addressesOwned.erase name)) :=
      owned_modify hw hu _
  rw [← howned, ← Dict.get?_erase_update] at hrem
  exact hrem

theorem register_agree (hA : s.Agree) (hw : s.WfRefs) {uuid name : PyStr}
    (h : completed (Pipebomb.register s uuid name) = .ok s') : s'.Agree ∧ s'.WfRefs := by
  unfold Pipebomb.register at h
  split_ifs at h with hn
  · cases h; exact ⟨hA, hw⟩
  · rcases hu : s.clientDb.get? uuid with _ | r
    · rw [hu] at h; cases h
    · rw [hu] at h
      cases h
      exact ⟨own_agree hA hw hn hu, hw.modify (f := Client.own name) fun _ => rfl⟩

theorem unregister_agree (hA : s.Agree) (hw : s.WfRefs) {uuid name : PyStr}
    (h : completed (Pipebomb.unregister s uuid name) = .ok s') : s'.Agree ∧ s'.WfRefs := by
  unfold Pipebomb.unregister at h
  rcases hu : s.clientDb.get? uuid with _ | r
  · rw [hu] at h; cases h
  · rw [hu] at h
    simp only at h
    split_ifs at h with hm hb
    · cases h
      exact ⟨disown_agree hA hw hm hu, hw.modify (f := Client.disown name) fun _ => rfl⟩
    · cases h
    · cases h; exact ⟨hA, hw⟩

theorem addKey_agree (hA : s.Agree) (hw : s.WfRefs) {key uuid : PyStr}
    (h : addKey s key uuid = (s', .ok ())) : s'.Agree ∧ s'.WfRefs := by
  unfold addKey at h
  split_ifs at h with hl hn
  · cases h
  · cases h
  · rcases hu : s.clientDb.get? uuid with _ | r
    · simp only [Server.setBook_clientDb, hu] at h; cases h
    · simp only [Server.setBook_clientDb, hu] at h
      cases h
      exact ⟨own_agree hA hw hn hu, hw.modify (f := Client.own key) fun _ => rfl⟩

theorem removeKey_agree (hA : s.Agree) (hw : s.WfRefs) {key uuid : PyStr}
    (h : removeKey s key uuid = (s', .ok ())) : s'.Agree ∧ s'.WfRefs := by
  unfold removeKey at h
  split_ifs at h with hl hn
  · cases h
  · rcases hu : s.clientDb.get? uuid with _ | r
    · simp only [Server.setBook_clientDb, hu] at h; cases h
    · simp only [Server.setBook_clientDb, hu] at h
      split at h
      · rename_i hm
        cases h
        exact ⟨disown_agree hA hw hm hu, hw.modify (f := Client.disown key) fun _ => rfl⟩
      · cases h
  · cases h

theorem removeClient_agree (hA : s.Agree) (hw : s.WfRefs) {uuid : PyStr}
    (h : removeClient s uuid = (s', .ok ())) : s'.Agree ∧ s'.WfRefs := by
  unfold removeClient at h
  split_ifs at h with hl
  · cases h
  · rcases hu : s.clientDb.get? uuid with _ | r
    · rw [hu] at h; cases h
    · rw [hu] at h
      simp only at h
      rcases hdel : deleteKeys s.addressBook (s.objs r).addressesOwned with ⟨book, _ | ⟨⟩⟩
      · rw [hdel] at h; cases h
      · rw [hdel] at h
        cases h
        refine ⟨?_, fun u' r' hu' => ?_⟩
        · have hleave := hA.leave (owned_eq_some hu) (get?_deleteKeys hdel)
          have howned : ({ s.setBook book with clientDb := s.clientDb.erase uuid } :
              Server K).owned = Function.update s.owned uuid none := by
            funext u'
            rw [Server.owned, Server.client, Dict.get?_erase, Function.update_apply]
            split_ifs <;> rfl
          rw [← howned] at hleave
          exact hleave
        · have hu' : (s.clientDb.erase uuid).get? u' = some r' := hu'
          rw [Dict.get?_erase] at hu'
          split_ifs at hu'
          exact hw _ _ hu'

/-- **`add_client` keeps the agreement exactly if the ticket owns nothing.** -/
theorem addClient_agree (hA : s.Agree) (hw : s.WfRefs) {t : NewClientTicket}
    (h : addClient s t = (s', .ok ())) : (s'.Agree ↔ t.addressesOwned = []) ∧ s'.WfRefs := by
  unfold addClient at h
  split_ifs at h with hl hm hr
  · cases h
  · cases h
  · cases h
  · cases h
    have howned := owned_addSession hw t.uuid
      (.preset t.uuid t.addressesOwned t.inbox t.outbox)
    have hagree : (s.addSession t.uuid (.preset t.uuid t.addressesOwned t.inbox t.outbox)).Agree ↔
        TwoWay.Agree s.addressBook.get? (Function.update s.owned t.uuid
          (some t.addressesOwned)) := by
      rw [Server.Agree, howned]; rfl
    exact ⟨hagree.trans (hA.enter_iff _ (owned_eq_none.2 hm)), hw.addSession rfl⟩

theorem attach_agree (hA : s.Agree) (hw : s.WfRefs) {uuid : PyStr} {r : Ref}
    (hu : s.clientDb.get? uuid = some r) (c : ConnId) (cipher : K) :
    (s.modify r (Client.attach c cipher)).Agree := by
  have howned : (s.modify r (Client.attach c cipher)).owned = s.owned := by
    rw [owned_modify hw hu]
    exact Function.update_eq_self_iff.2 (owned_eq_some hu).symm
  rw [Server.Agree, howned]
  exact hA

/-- **One operation.** -/
theorem Operation.run_agree (hA : s.Agree) (hw : s.WfRefs) {op : Operation K}
    (hf : op.Fresh s) (h : op.run s = .ok s') : (s'.Agree ↔ ¬ op.Preset) ∧ s'.WfRefs := by
  have easy : s'.Agree ∧ s'.WfRefs → ¬ op.Preset → (s'.Agree ↔ ¬ op.Preset) ∧ s'.WfRefs :=
    fun h hp => ⟨⟨fun _ => hp, fun _ => h.1⟩, h.2⟩
  cases op with
  | login c uuid cipher txNonce rxNonce =>
    cases h
    refine easy ⟨?_, hw.addSession rfl⟩ id
    have henter := hA.enter_iff [] (owned_eq_none.2 hf)
    rw [Server.Agree, owned_addSession hw]
    exact henter.2 rfl
  | relogin c uuid cipher =>
    rw [Operation.run] at h
    rcases hu : s.clientDb.get? uuid with _ | r
    · rw [hu] at h; cases h
    · rw [hu] at h
      cases h
      exact easy ⟨attach_agree hA hw hu c cipher, hw.modify fun _ => rfl⟩ id
  | register uuid name => exact easy (register_agree hA hw h) id
  | unregister uuid name => exact easy (unregister_agree hA hw h) id
  | admin op =>
    rw [Operation.run] at h
    rcases ho : op.run s with ⟨s₁, _ | ⟨⟩⟩
    · rw [ho] at h; cases h
    · rw [ho] at h
      cases h
      cases op with
      | addClient t =>
        obtain ⟨hA', hw'⟩ := addClient_agree hA hw ho
        exact ⟨hA'.trans (by simp [Preset]), hw'⟩
      | removeClient uuid => exact easy (removeClient_agree hA hw ho) id
      | addKey key uuid => exact easy (addKey_agree hA hw ho) id
      | removeKey key uuid => exact easy (removeKey_agree hA hw ho) id

/-! ## Runs -/

theorem agree_init (password : Bytes) (keep : Bool) : (Server.init password keep : Server K).Agree :=
  TwoWay.agree_empty

/-- The states of a run from an agreeing state. -/
theorem run_agree_iff {ops : List (Operation K)} : ∀ {s s' : Server K} {visited},
    s.Agree → s.WfRefs → Lts.exec Operation.step ops s = some (s', visited) →
    Lts.Along Operation.step (fun s op _ => op.Fresh s) ops s →
      ((∀ v ∈ visited, v.Agree) ↔ ∀ op ∈ ops, ¬ op.Preset) := by
  induction ops with
  | nil => intro s s' visited _ _ h _; cases h; simp
  | cons op ops ih =>
    intro s s' visited hA hw h hf
    rcases ho : op.run s with e | s₁
    · simp [Lts.exec, Operation.step, ho] at h
    · have hstep : Operation.step s op = some (s₁, [s₁]) := by rw [Operation.step, ho]
      rcases he : Lts.exec Operation.step ops s₁ with _ | ⟨s₂, rest⟩
      · simp [Lts.exec, hstep, he] at h
      · simp only [Lts.exec, hstep, he, Option.some.injEq, Prod.mk.injEq] at h
        simp only [Lts.Along, hstep] at hf
        obtain ⟨-, rfl⟩ := h
        obtain ⟨hA', hw'⟩ := Operation.run_agree hA hw hf.1 ho
        simp only [List.singleton_append, List.mem_cons, forall_eq_or_imp]
        constructor
        · rintro ⟨h1, hrest⟩
          exact ⟨hA'.1 h1, (ih h1 hw' he hf.2).1 hrest⟩
        · rintro ⟨h1, hrest⟩
          exact ⟨hA'.2 h1, (ih (hA'.2 h1) hw' he hf.2).2 hrest⟩

/-- **Address book and session ownership agree** in every state of a run exactly if the
    run makes no `add_client` call with owned addresses. -/
theorem ownership_agrees_iff (password : Bytes) (keep : Bool) (ops : List (Operation K))
    (s' : Server K) (visited : List (Server K))
    (hrun : Lts.exec Operation.step ops (Server.init password keep) = some (s', visited))
    (hfresh : Lts.Along Operation.step (fun s op _ => op.Fresh s) ops
      (Server.init password keep)) :
    (∀ v ∈ visited, v.Agree) ↔
      ∀ t, Operation.admin (.addClient t) ∈ ops → t.addressesOwned = [] := by
  rw [run_agree_iff (agree_init password keep) (Server.wfRefs_init password keep) hrun hfresh]
  constructor
  · intro h t ht
    have := h _ ht
    simpa [Operation.Preset] using this
  · intro h op hop hp
    cases op with
    | admin op =>
      cases op with
      | addClient t => exact hp (h t hop)
      | removeClient uuid => exact hp
      | addKey key uuid => exact hp
      | removeKey key uuid => exact hp
    | login c uuid cipher txNonce rxNonce => exact hp
    | relogin c uuid cipher => exact hp
    | register uuid name => exact hp
    | unregister uuid name => exact hp

/-- A login, REGISTER and `remove_key`. -/
def ownershipSample : List (Operation ℕ) :=
  [.login 0 sampleUuid 0 1 2, .register sampleUuid ['k'], .admin (.removeKey ['k'] sampleUuid)]

theorem ownership_agrees_iff_sample : ∃ s' visited,
    Lts.exec Operation.step ownershipSample (Server.init [] false) = some (s', visited) ∧
      ((∀ v ∈ visited, v.Agree) ↔
        ∀ t, Operation.admin (.addClient t) ∈ ownershipSample → t.addressesOwned = []) :=
  ⟨_, _, rfl, ownership_agrees_iff [] false ownershipSample _ _ rfl
    ⟨Dict.not_mem_empty _, trivial, trivial, trivial⟩⟩

/-- `add_client` with one owned address. -/
def presetSample : List (Operation ℕ) :=
  [.admin (.addClient ⟨sampleUuid, [['k']], [], .empty⟩)]

/-- **A run after which they disagree**: the session owns a key the address book does not
    have. -/
theorem ownership_disagrees : ∃ s' visited,
    Lts.exec Operation.step presetSample (Server.init [] false) = some (s', visited) ∧
      Lts.Along Operation.step (fun s op _ => op.Fresh s) presetSample (Server.init [] false) ∧
      ¬ ∀ v ∈ visited, v.Agree := by
  refine ⟨_, _, rfl, ⟨trivial, trivial⟩, fun h => ?_⟩
  have hbook := ((h _ (List.mem_singleton_self _)).iff ['k'] sampleUuid).2 ⟨[['k']], rfl, by simp⟩
  cases hbook

end Pipebomb
