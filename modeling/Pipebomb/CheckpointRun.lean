/-
  A checkpoint while the server runs.

  `serialize` awaits the `outbox_lock` of each client, so other coroutines go on while a
  GET_OUTBOX sends its reply under that lock.

  * `Serializing` is where the call stands, `serializeFrom` its code up to the next lock
    that is held, `Checkpointing.step` a step of the server or of the call.
  * Python's iterator over `client_db` raises an exception once the dictionary has another
    size.  If it changed and has the same size, what the iterator finds is not specified
    and is an input of the step.
  * `serializeFrom_result`: waiting in the middle changes nothing by itself.
  * `serialize_consistent`: if nothing that belongs in a checkpoint changes while the call
    waits, it returns what it would have returned at once.
-/
import Pipebomb.CheckpointEffect
import Pipebomb.Names

namespace Pipebomb

open ByteString

variable {K : Type} (L : Libs K)

/-! ## The call -/

/-- The inbox of a client. -/
def serializeInbox (T : Tables) (cl : Client K) (inboxItems : Except PyErr Bytes) :
    Except PyErr Tables := do
  let inbox ← inboxItems
  let uuid ← latin1Encode cl.uuid
  T.addField 0x32 (uuid ++ inbox)

/-- The outbox of a client. -/
def serializeOutbox (T : Tables) (cl : Client K) : Except PyErr Tables := do
  let outbox ← packOutbox cl.outbox.values
  let uuid ← latin1Encode cl.uuid
  T.addField 0x33 (uuid ++ outbox)

/-- How far the loop over the clients got. -/
inductive Progress where
  | done (tables : Except PyErr Tables)
  /-- the lock of a client is held; the clients behind it -/
  | waits (T : Tables) (r : Ref) (rest : List Ref)

/-- The loop over the clients up to the next lock that is held. -/
def serializeFrom (s : Server K) (T : Tables) : List Ref → Server K × Progress
  | [] => (s, .done (.ok T))
  | r :: rs =>
    let cl := s.objs r
    match serializeOwned T cl with
    | .error e => (s, .done (.error e))
    | .ok T =>
      let (left, inboxItems) := drainInbox cl.inbox
      let s := s.modify r (Client.setInbox left)
      match serializeInbox T cl inboxItems with
      | .error e => (s, .done (.error e))
      | .ok T =>
        if cl.outboxLock then (s, .waits T r rs)
        else match serializeOutbox T cl with
          | .error e => (s, .done (.error e))
          | .ok T => serializeFrom s T rs

/-- `serialize` up to the first lock that is held. -/
def serializeStart (s : Server K) : Server K × Progress :=
  match serializeDb ⟨[], [], []⟩ s.db.items with
  | .error e => (s, .done (.error e))
  | .ok T => match serializeAddressBook T s.addressBook.items with
    | .error e => (s, .done (.error e))
    | .ok T => serializeFrom s T s.clientDb.values

/-- What `serialize` returns for its tables. -/
def finishTables (tables : Except PyErr Tables) : Except PyErr Bytes := do
  let T ← tables
  let serializedData ← T.join
  let magic ← packI CHECKPOINT_MAGIC
  .ok (magic ++ L.compress 22 serializedData)

/-- Where the call stands.  A call that waits has an iterator over `client_db` as it was. -/
inductive Serializing where
  | idle
  | waits (T : Tables) (r : Ref) (rest : List Ref) (clientDb : Dict PyStr Ref)
  | returned (result : Except PyErr Bytes)

/-- The server and a call of `serialize`. -/
structure Checkpointing (K : Type) where
  sys : Sys K
  call : Serializing

/-- The server was left in state `s` and the call got as far as `p`. -/
def Checkpointing.put (X : Checkpointing K) (s : Server K) (p : Progress) : Checkpointing K :=
  ⟨{ X.sys with server := s }, match p with
    | .done tables => .returned (finishTables L tables)
    | .waits T r rest => .waits T r rest s.clientDb⟩

inductive CheckpointAct where
  | server (a : Act)
  | serialize
  /-- the call gets the lock; `found` is what the iterator finds in another dictionary of
      the same size -/
  | resume (found : List Ref)

/-- The call goes on with the lock of the client behind `r`. -/
def serializeResume (s : Server K) (T : Tables) (r : Ref) (rest : List Ref)
    (clientDb : Dict PyStr Ref) (found : List Ref) : Server K × Progress :=
  match serializeOutbox T (s.objs r) with
  | .error e => (s, .done (.error e))
  | .ok T =>
    if s.clientDb.items.length ≠ clientDb.items.length then
      (s, .done (.error (.runtimeError "dictionary changed size during iteration")))
    else serializeFrom s T (if s.clientDb = clientDb then rest else found)

/-- **One step.** -/
def Checkpointing.step (X : Checkpointing K) :
    CheckpointAct → Option (Checkpointing K × List (Obs K))
  | .server a => (X.sys.step L a).map fun x => ({ X with sys := x.1 }, x.2)
  | .serialize => match X.call with
    | .idle =>
      let (s, p) := serializeStart X.sys.server
      some (X.put L s p, [])
    | _ => none
  | .resume found => match X.call with
    | .waits T r rest clientDb =>
      if (X.sys.server.objs r).outboxLock then none
      else
        let (s, p) := serializeResume X.sys.server T r rest clientDb found
        some (X.put L s p, [])
    | _ => none

/-! ## What is left to do -/

/-- What the rest of the call gives without waiting. -/
def Progress.result (s : Server K) : Progress → Except PyErr Tables
  | .done tables => tables
  | .waits T r rest => do
    let T ← serializeOutbox T (s.objs r)
    (serializeClients s T rest).2

variable {s s' : Server K} {T : Tables}

theorem serializeBoxes_eq_bind (T : Tables) (cl : Client K) (items : Except PyErr Bytes) :
    serializeBoxes T cl items = (do
      let T ← serializeInbox T cl items
      serializeOutbox T cl) := by
  rcases items with e | inbox
  · rfl
  · rcases hu : latin1Encode cl.uuid with e | uuid
    · simp only [serializeBoxes, serializeInbox, hu, ok_bind, error_bind]
    · rcases hf : T.addField 0x32 (uuid ++ inbox) with e | T'
      · simp only [serializeBoxes, serializeInbox, hu, hf, ok_bind, error_bind]
      · simp only [serializeBoxes, serializeInbox, serializeOutbox, hu, hf, ok_bind]

/-- **Waiting changes nothing by itself.** -/
theorem serializeFrom_result {rs : List Ref} : ∀ {s : Server K} {T : Tables},
    (serializeFrom s T rs).2.result (serializeFrom s T rs).1 = (serializeClients s T rs).2 := by
  induction rs with
  | nil => intro s T; rfl
  | cons r rs ih =>
    intro s T
    simp only [serializeFrom, serializeClients, serializeClient]
    rcases serializeOwned T (s.objs r) with e | T₁
    · rfl
    · simp only [serializeBoxes_eq_bind]
      rcases hi : serializeInbox T₁ (s.objs r) (drainInbox (s.objs r).inbox).2 with e | T₂
      · rfl
      · simp only [ok_bind]
        split_ifs with hlock
        · -- the outbox is not touched by reading the inbox
          have hout : serializeOutbox T₂
              ((s.modify r (Client.setInbox (drainInbox (s.objs r).inbox).1)).objs r) =
              serializeOutbox T₂ (s.objs r) := by
            rw [Server.modify_objs_self]
            rfl
          simp only [Progress.result, hout]
          rcases serializeOutbox T₂ (s.objs r) with e | T₃
          · rfl
          · rfl
        · rcases serializeOutbox T₂ (s.objs r) with e | T₃
          · rfl
          · exact ih

theorem serializeStart_result (s : Server K) :
    (serializeStart s).2.result (serializeStart s).1 = (tables s).2 := by
  unfold serializeStart tables
  rcases hd : serializeDb ⟨[], [], []⟩ s.db.items with e | T₁
  · rfl
  · rcases hb : serializeAddressBook T₁ s.addressBook.items with e | T₂
    · simp only [hb]; rfl
    · simp only [hb]
      exact serializeFrom_result

theorem finishTables_tables (s : Server K) : finishTables L (tables s).2 = (serialize L s).2 := by
  unfold serialize finishTables
  rcases tables s with ⟨s', e | T⟩
  · rfl
  · rfl

/-! ## The server changes meanwhile -/

/-- The parts of a client that belong in a checkpoint are the same. -/
structure SameContents (cl cl' : Client K) : Prop where
  uuid : cl'.uuid = cl.uuid
  addressesOwned : cl'.addressesOwned = cl.addressesOwned
  inbox : cl'.inbox = cl.inbox
  outbox : cl'.outbox = cl.outbox

theorem SameContents.serializeOutbox {cl cl' : Client K} (h : SameContents cl cl') (T : Tables) :
    serializeOutbox T cl' = Pipebomb.serializeOutbox T cl := by
  rw [Pipebomb.serializeOutbox, Pipebomb.serializeOutbox, h.uuid, h.outbox]

/-- The loop depends on what belongs in a checkpoint only. -/
theorem serializeClients_same {rs : List Ref} : ∀ {s s' : Server K} {T : Tables},
    (∀ r ∈ rs, SameContents (s.objs r) (s'.objs r)) →
      (serializeClients s' T rs).2 = (serializeClients s T rs).2 := by
  induction rs with
  | nil => intro s s' T _; rfl
  | cons r rs ih =>
    intro s s' T h
    have hr := h r (by simp)
    have howned : serializeOwned T (s'.objs r) = serializeOwned T (s.objs r) := by
      rw [serializeOwned, serializeOwned, hr.uuid, hr.addressesOwned]
    have hboxes : ∀ T items, serializeBoxes T (s'.objs r) items = serializeBoxes T (s.objs r) items := by
      intro T items
      rw [serializeBoxes, serializeBoxes, hr.uuid, hr.outbox]
    simp only [serializeClients, serializeClient, howned, hr.inbox]
    rcases serializeOwned T (s.objs r) with e | T₁
    · rfl
    · simp only [hboxes]
      rcases serializeBoxes T₁ (s.objs r) (drainInbox (s.objs r).inbox).2 with e | T₂
      · rfl
      · refine ih fun r' hr' => ?_
        have hsame := h r' (List.mem_cons_of_mem _ hr')
        rw [Server.modify_objs, Server.modify_objs]
        split_ifs
        · exact ⟨hsame.uuid, hsame.addressesOwned, rfl, hsame.outbox⟩
        · exact hsame

theorem SameState.contents (h : SameState s s') (hw : s.WfRefs) (hw' : s'.WfRefs) {r : Ref}
    (hr : r ∈ s.clientDb.values) : SameContents (s.objs r) (s'.objs r) := by
  obtain ⟨p, hp, rfl⟩ := List.mem_map.1 hr
  have hu := Dict.get?_eq_some.2 hp
  have hu' : s'.clientDb.get? p.1 = some p.2 := by rw [h.clientDb, hu]
  exact ⟨(hw' _ _ hu').2.trans (hw _ _ hu).2.symm, h.addressesOwned _ hr, h.inbox _ hr,
    h.outbox _ hr⟩

/-- What is left to do is the same. -/
theorem SameState.result (h : SameState s s') (hw : s.WfRefs) (hw' : s'.WfRefs) {r : Ref}
    {rest : List Ref} (hr : r ∈ s.clientDb.values) (hrest : ∀ r ∈ rest, r ∈ s.clientDb.values) :
    (Progress.waits T r rest).result s' = (Progress.waits T r rest).result s := by
  simp only [Progress.result, (h.contents hw hw' hr).serializeOutbox T]
  rcases serializeOutbox T (s.objs r) with e | T'
  · rfl
  · exact serializeClients_same fun r' hr' => h.contents hw hw' (hrest r' hr')

/-- What a call that waits knows is in `client_db`. -/
def Progress.Within (clientDb : Dict PyStr Ref) : Progress → Prop
  | .done _ => True
  | .waits _ r rest => r ∈ clientDb.values ∧ ∀ r ∈ rest, r ∈ clientDb.values

theorem serializeFrom_quiet {rs : List Ref} : ∀ {s : Server K} {T : Tables},
    Quiet s (serializeFrom s T rs).1 := by
  induction rs with
  | nil => intro s T; exact .refl s
  | cons r rs ih =>
    intro s T
    have hread : ∀ qs, Quiet s (s.modify r (Client.setInbox qs)) :=
      fun qs => .modify s r _ (.setInbox qs)
    simp only [serializeFrom]
    rcases serializeOwned T (s.objs r) with e | T₁
    · exact .refl s
    · simp only
      rcases serializeInbox T₁ (s.objs r) (drainInbox (s.objs r).inbox).2 with e | T₂
      · exact hread _
      · simp only
        split_ifs
        · exact hread _
        · rcases serializeOutbox T₂ (s.objs r) with e | T₃
          · exact hread _
          · exact (hread _).trans ih

theorem serializeFrom_within {clientDb : Dict PyStr Ref} {rs : List Ref} :
    ∀ {s : Server K} {T : Tables}, (∀ r ∈ rs, r ∈ clientDb.values) →
      (serializeFrom s T rs).2.Within clientDb := by
  induction rs with
  | nil => intro s T _; trivial
  | cons r rs ih =>
    intro s T h
    have hrs : ∀ r ∈ rs, r ∈ clientDb.values := fun r hr => h r (List.mem_cons_of_mem _ hr)
    simp only [serializeFrom]
    rcases serializeOwned T (s.objs r) with e | T₁
    · trivial
    · simp only
      rcases serializeInbox T₁ (s.objs r) (drainInbox (s.objs r).inbox).2 with e | T₂
      · trivial
      · simp only
        split_ifs
        · exact ⟨h r (by simp), hrs⟩
        · rcases serializeOutbox T₂ (s.objs r) with e | T₃
          · trivial
          · exact ih hrs

theorem serializeStart_quiet (s : Server K) : Quiet s (serializeStart s).1 := by
  unfold serializeStart
  rcases serializeDb ⟨[], [], []⟩ s.db.items with e | T₁
  · exact .refl s
  · rcases hb : serializeAddressBook T₁ s.addressBook.items with e | T₂
    · simp only [hb]; exact .refl s
    · simp only [hb]; exact serializeFrom_quiet

theorem serializeStart_within (s : Server K) : (serializeStart s).2.Within s.clientDb := by
  unfold serializeStart
  rcases serializeDb ⟨[], [], []⟩ s.db.items with e | T₁
  · trivial
  · rcases hb : serializeAddressBook T₁ s.addressBook.items with e | T₂
    · simp only [hb]; trivial
    · simp only [hb]; exact serializeFrom_within fun _ h => h

/-! ## Runs -/

section
variable {X X' : Checkpointing K} {a : CheckpointAct} {o os : List (Obs K)}
  {x : Except PyErr Tables}

/-- The call that started will give `x`, or gave it. -/
structure Checkpointing.Gives (X : Checkpointing K) (x : Except PyErr Tables) : Prop where
  sound : X.sys.Sound
  call : match X.call with
    | .idle => False
    | .waits T r rest clientDb => clientDb = X.sys.server.clientDb ∧
        (Progress.waits T r rest).Within clientDb ∧
        (Progress.waits T r rest).result X.sys.server = x
    | .returned result => result = finishTables L x

/-- While the call waits, nothing changes that belongs in a checkpoint. -/
def Checkpointing.Undisturbed (X : Checkpointing K) (a : CheckpointAct) : Prop :=
  match X.call, a with
  | .waits _ _ _ _, .server a => ∀ y ∈ X.sys.step L a, SameState X.sys.server y.1.server
  | _, _ => True

theorem Quiet.sound {S : Sys K} (h : Quiet S.server s) (hS : S.Sound) :
    ({ S with server := s } : Sys K).Sound := by
  have hf : Frame (fun _ => True) S.server s := h.frame
  exact ⟨hf.wfRefs hS.refs, fun c => hf.taskWf (hS.tasks c), hS.tidy,
    fun c h hc => hf.handlerWf (hS.handlers c h hc)⟩

/-- The call got as far as `p`. -/
theorem gives_put (hS : X.sys.Sound) {p : Progress} (hq : Quiet X.sys.server s)
    (hin : p.Within s.clientDb) (hx : p.result s = x) : (X.put L s p).Gives L x := by
  refine ⟨hq.sound hS, ?_⟩
  cases p with
  | done tables =>
    subst hx
    rfl
  | waits T r rest => exact ⟨rfl, hin, hx⟩

theorem step_gives (hX : X.Gives L x) (hstep : X.step L a = some (X', o))
    (hok : X.Undisturbed L a) : X'.Gives L x := by
  obtain ⟨⟨server, tasks⟩, call⟩ := X
  obtain ⟨hS, hcall⟩ := hX
  cases a with
  | server a =>
    simp only [Checkpointing.step, Option.map_eq_some_iff] at hstep
    obtain ⟨⟨S', o'⟩, hs, he⟩ := hstep
    cases he
    have hS' := step_sound L hS hs
    refine ⟨hS', ?_⟩
    cases call with
    | idle => exact hcall
    | returned result => exact hcall
    | waits T r rest clientDb =>
      obtain ⟨hdb, ⟨hr, hrest⟩, hx⟩ := hcall
      obtain rfl : clientDb = server.clientDb := hdb
      have hsame : SameState server S'.server := hok _ hs
      exact ⟨hsame.clientDb.symm, ⟨hr, hrest⟩,
        (hsame.result hS.refs hS'.refs hr hrest).trans hx⟩
  | serialize =>
    cases call with
    | idle => exact hcall.elim
    | returned result => cases hstep
    | waits T r rest clientDb => cases hstep
  | resume found =>
    cases call with
    | idle => exact hcall.elim
    | returned result => cases hstep
    | waits T r rest clientDb =>
      obtain ⟨hdb, ⟨hr, hrest⟩, hx⟩ := hcall
      obtain rfl : clientDb = server.clientDb := hdb
      simp only [Checkpointing.step] at hstep
      split_ifs at hstep
      cases hstep
      simp only [Progress.result] at hx
      simp only [serializeResume]
      rcases ho : serializeOutbox T (server.objs r) with e | T'
      · rw [ho] at hx
        exact gives_put L hS (.refl _) trivial hx
      · rw [ho] at hx
        simp only [ne_eq, not_true_eq_false, if_false, if_true]
        refine gives_put L hS serializeFrom_quiet ?_ (serializeFrom_result.trans hx)
        rw [serializeFrom_quiet.clientDb]
        exact serializeFrom_within hrest

/-- **A checkpoint that is not disturbed.**  If nothing that belongs in a checkpoint changes
    while the call waits, it returns what it would have returned at once, and that reads
    back as what the server held when it was called. -/
theorem serialize_consistent {password : Bytes} {keep : Bool} {S : Sys K} {os₀ : List (Obs K)}
    {result : Except PyErr Bytes}
    (hrun₀ : Lts.Run (Lts.Guarded (Sys.step L) fun _ _ _ => True) (.init password keep) S os₀)
    (hcall : (⟨S, .idle⟩ : Checkpointing K).step L .serialize = some (X, o))
    (hrun : Lts.Run (Lts.Guarded (Checkpointing.step L) fun X a _ => X.Undisturbed L a) X X' os)
    (hret : X'.call = .returned result) :
    result = (serialize L S.server).2 ∧ (S.server.snapshot.Encodable →
      ∃ data, result = .ok data ∧ deserialize L data = .ok S.server.snapshot.restored) := by
  have hS : S.Sound := run_sound L (sound_init _ _) hrun₀
  have hX : X.Gives L (tables S.server).2 := by
    have hwithin := serializeStart_within S.server
    rw [← (serializeStart_quiet S.server).clientDb] at hwithin
    have hput := gives_put L (X := ⟨S, .idle⟩) hS (serializeStart_quiet S.server) hwithin
      (serializeStart_result _)
    cases hcall
    exact hput
  have hX' := hrun.inv (I := fun X _ => X.Gives L (tables S.server).2) hX
    fun _ h ⟨_, hstep, hok⟩ => step_gives L h hstep hok
  have hresult : result = (serialize L S.server).2 := by
    have hc := hX'.call
    rw [hret] at hc
    rw [hc, finishTables_tables]
  refine ⟨hresult, fun h => ?_⟩
  obtain ⟨T, data, -, hdata, hread, -⟩ := checkpoint_round_trip L S.server h
  exact ⟨data, hresult.trans hdata, hread⟩

/-- A call that goes on after sessions came or went fails. -/
theorem serialize_resized {T T' : Tables} {r : Ref} {rest found : List Ref}
    {clientDb : Dict PyStr Ref} (ho : serializeOutbox T (s.objs r) = .ok T')
    (hsize : s.clientDb.items.length ≠ clientDb.items.length) :
    (serializeResume s T r rest clientDb found).2 =
      .done (.error (.runtimeError "dictionary changed size during iteration")) := by
  simp only [serializeResume, ho, if_pos hsize]

end

/-! ## Runs on fixed inputs -/

/-- Connection 0 logs in and asks for a response that is not there; the reply is on its
    way. -/
def lockHeld : List Act :=
  loginActs 0 [0xC5] ++ [.resume 0 (.recv (stubPacket 0 2 [0x5, 1])) sampleDraw,
    .resume 0 .go sampleDraw]

/-- The reply gets out, and the call goes on. -/
def lockReleased : List CheckpointAct :=
  [.server (.resume 0 .sent sampleDraw), .resume []]

instance (s s' : Server K) : Decidable (SameState s s') :=
  decidable_of_iff (s'.db = s.db ∧ s'.addressBook = s.addressBook ∧ s'.clientDb = s.clientDb ∧
      ∀ r ∈ s.clientDb.values, (s'.objs r).addressesOwned = (s.objs r).addressesOwned ∧
        (s'.objs r).inbox = (s.objs r).inbox ∧ (s'.objs r).outbox = (s.objs r).outbox)
    ⟨fun ⟨h₁, h₂, h₃, h⟩ => ⟨h₁, h₂, h₃, fun r hr => (h r hr).1, fun r hr => (h r hr).2.1,
        fun r hr => (h r hr).2.2⟩,
      fun h => ⟨h.db, h.addressBook, h.clientDb, fun r hr =>
        ⟨h.addressesOwned r hr, h.inbox r hr, h.outbox r hr⟩⟩⟩

instance (X : Checkpointing K) (a : CheckpointAct) : Decidable (X.Undisturbed L a) := by
  rcases X with ⟨S, _ | ⟨T, r, rest, clientDb⟩ | result⟩
  · exact isTrue (by cases a <;> trivial)
  · cases a with
    | server a => exact inferInstanceAs (Decidable (∀ y ∈ S.step L a, _))
    | serialize => exact isTrue trivial
    | resume found => exact isTrue trivial
  · exact isTrue (by cases a <;> trivial)

/-- The result of a call that returned. -/
def Serializing.result : Serializing → Option (Except PyErr Bytes)
  | .returned result => some result
  | _ => none

theorem Serializing.result_eq {call : Serializing} {result : Except PyErr Bytes}
    (h : call.result = some result) : call = .returned result := by
  cases call with
  | idle => cases h
  | waits T r rest clientDb => cases h
  | returned result' => cases h; rfl

/-- A checkpoint that waits for the reply. -/
theorem serialize_consistent_sample :
    ∃ (S : Sys ℕ) (X : Checkpointing ℕ) (o : List (Obs ℕ)) (result : Except PyErr Bytes),
      (⟨S, .idle⟩ : Checkpointing ℕ).step stub .serialize = some (X, o) ∧ X.call.result = none ∧
        result = (serialize stub S.server).2 ∧ (S.server.snapshot.Encodable →
          ∃ data, result = .ok data ∧ deserialize stub data = .ok S.server.snapshot.restored) := by
  have hexec : ((Lts.exec (Sys.step stub) lockHeld (.init [] false)).any fun x =>
      ((⟨x.1, .idle⟩ : Checkpointing ℕ).step stub .serialize).any fun y =>
        (y.1.call.result = none : Bool) &&
        (Lts.Along (Checkpointing.step stub) (fun X a _ => X.Undisturbed stub a) lockReleased y.1 :
          Bool) &&
        (Lts.exec (Checkpointing.step stub) lockReleased y.1).any fun z =>
          z.1.call.result.isSome) = true := by decide +kernel
  have halong : Lts.Along (Sys.step stub) (fun _ _ _ => True) lockHeld (.init [] false) := by
    decide +kernel
  obtain ⟨⟨S, os₀⟩, hS, hx⟩ := Option.any_eq_true _ _ |>.1 hexec
  obtain ⟨⟨X, o⟩, hX, hy⟩ := Option.any_eq_true _ _ |>.1 hx
  simp only [Bool.and_eq_true, decide_eq_true_eq] at hy
  obtain ⟨⟨hwaits, hguard⟩, hz⟩ := hy
  obtain ⟨⟨X', os⟩, hX', hret⟩ := Option.any_eq_true _ _ |>.1 hz
  obtain ⟨result, hresult⟩ := Option.isSome_iff_exists.1 hret
  exact ⟨S, X, o, result, hX, hwaits, serialize_consistent stub (Lts.exec_run hS halong) hX
    (Lts.exec_run hX' hguard) (Serializing.result_eq hresult)⟩

/-- **A login while a checkpoint waits makes it fail.** -/
theorem serialize_interrupted :
    ∃ (S : Sys ℕ) (X X' : Checkpointing ℕ) (os₀ o os : List (Obs ℕ)) (data : Bytes),
      Lts.Run (Lts.Guarded (Sys.step stub) fun _ _ _ => True) (.init [] false) S os₀ ∧
        (⟨S, .idle⟩ : Checkpointing ℕ).step stub .serialize = some (X, o) ∧
        Lts.Run (Lts.Guarded (Checkpointing.step stub) fun _ _ _ => True) X X' os ∧
        X'.call = .returned
          (.error (.runtimeError "dictionary changed size during iteration")) ∧
        (serialize stub S.server).2 = .ok data := by
  have hexec : ((Lts.exec (Sys.step stub) lockHeld (.init [] false)).any fun x =>
      ((serialize stub x.1.server).2.toOption.isSome) &&
      ((⟨x.1, .idle⟩ : Checkpointing ℕ).step stub .serialize).any fun y =>
        (Lts.Along (Checkpointing.step stub) (fun _ _ _ => True)
          ((otherLogin 1).map .server ++ lockReleased) y.1 : Bool) &&
        (Lts.exec (Checkpointing.step stub)
          ((otherLogin 1).map .server ++ lockReleased) y.1).any fun z =>
            z.1.call.result =
              some (.error (.runtimeError "dictionary changed size during iteration"))) = true := by
    decide +kernel
  have halong : Lts.Along (Sys.step stub) (fun _ _ _ => True) lockHeld (.init [] false) := by
    decide +kernel
  obtain ⟨⟨S, os₀⟩, hS, hx⟩ := Option.any_eq_true _ _ |>.1 hexec
  simp only [Bool.and_eq_true] at hx
  obtain ⟨hok, hx⟩ := hx
  obtain ⟨⟨X, o⟩, hX, hy⟩ := Option.any_eq_true _ _ |>.1 hx
  simp only [Bool.and_eq_true, decide_eq_true_eq] at hy
  obtain ⟨hguard, hz⟩ := hy
  obtain ⟨⟨X', os⟩, hX', hret⟩ := Option.any_eq_true _ _ |>.1 hz
  obtain ⟨data, hdata⟩ : ∃ data, (serialize stub S.server).2 = .ok data := by
    rcases hs : (serialize stub S.server).2 with e | data
    · rw [hs] at hok; cases hok
    · exact ⟨data, rfl⟩
  exact ⟨S, X, X', os₀, o, os, data, Lts.exec_run hS halong, hX, Lts.exec_run hX' hguard,
    Serializing.result_eq (of_decide_eq_true hret), hdata⟩

end Pipebomb
