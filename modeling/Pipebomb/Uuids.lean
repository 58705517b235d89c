/-
  The uuids of the sessions.

  * `Uuid4.Valid`: what `uuid4()` gives; `Act.Draws`: the uuids of a step come from it.
  * `Sys.Uuids`: the uuids in `client_db` and in the address book have 36 characters, and
    the session a coroutine works for has one in latin-1; an administrative call may have
    entered one that is not.
  * `step_uuids`, `run_uuids` keep it, over all runs whose uuids come from `uuid4()` (`Reaches`).
-/
import Pipebomb.Names
import Pipebomb.Sessions

namespace Pipebomb

open ByteString

variable {K : Type} (L : Libs K)

/-- A text of 36 characters, and 16 bytes. -/
structure Uuid4.Valid (draw : Uuid4) : Prop where
  str : IsUuid draw.str
  bytes : draw.bytes.length = 16

instance (draw : Uuid4) : Decidable draw.Valid :=
  decidable_of_iff (IsUuid draw.str ∧ draw.bytes.length = 16) ⟨fun h => ⟨h.1, h.2⟩, fun h => ⟨h.1, h.2⟩⟩

/-- The uuids come from `uuid4()`. -/
def Act.Draws : Act → Prop
  | .resume _ _ draw => draw.Valid
  | _ => True

instance : ∀ a : Act, Decidable a.Draws
  | .resume _ _ draw => inferInstanceAs (Decidable draw.Valid)
  | .connect _ | .admin _ => isTrue trivial

/-- A run of a server whose uuids come from `uuid4()`. -/
def Reaches (S S' : Sys K) (os : List (Obs K)) : Prop :=
  Lts.Run (Lts.Guarded (Sys.step L) fun _ a _ => a.Draws) S S' os

/-- The uuid of a login was drawn, or is one of `client_db` in latin-1. -/
def Obs.Known (s : Server K) (draw : Uuid4) : Obs K → Prop
  | .session _ u => u = draw.str
  | .relogin _ u => u ∈ s.clientDb ∧ Latin1 u
  | _ => True

/-- The uuids are what `uuid4()` gives, but for the characters of those of `client_db`. -/
structure Sys.Uuids (S : Sys K) : Prop where
  sound : S.Sound
  sessions : ∀ u ∈ S.server.clientDb, u.length = 36
  tasks : ∀ c u, (S.tasks c).uses = some u → IsUuid u
  book : ∀ n u, S.server.addressBook.get? n = some u → u.length = 36

section
variable {s : Server K} {c : ConnId} {h : Handler} {i : Input} {draw : Uuid4} {u n v : PyStr}
  {out : Outcome K (Accepting K)}

theorem Inner.known {os : List (Obs K)} (h : Inner os) : ∀ x ∈ os, x.Known s draw := by
  intro x hx
  have := h x hx
  cases x <;> first | exact this.elim | trivial

theorem sendHandshake_known {s' : Server K} (l : Locals K) (data : Bytes) (next : Accepting K) :
    ∀ x ∈ (sendHandshake L s' c l data next).2.2, x.Known s draw := by
  intro x hx
  rcases List.mem_append.1 hx with hx | hx
  · exact (inner_encryptCall _ _ _ _).known x hx
  · split at hx
    · cases hx
    · rw [List.mem_singleton] at hx
      subst hx
      trivial

theorem onPassword_known (l : Locals K) (frame : Bytes) :
    ∀ x ∈ (onPassword L s c l frame).2.2, x.Known s draw := by
  intro x hx
  rcases List.mem_append.1 hx with hx | hx
  · exact (inner_decryptCall _ _ _ _).known x hx
  · split at hx
    · cases hx
    · cases hx
    · split_ifs at hx
      · cases hx
      · rcases List.mem_append.1 hx with hx | hx
        · rw [List.mem_singleton] at hx
          subst hx
          trivial
        · exact sendHandshake_known L _ _ _ x hx

theorem onLogin_known (l : Locals K) (frame : Bytes) :
    ∀ x ∈ (onLogin L s c l frame draw).2.2, x.Known s draw := by
  intro x hx
  rcases List.mem_append.1 hx with hx | hx
  · exact (inner_decryptCall _ _ _ _).known x hx
  · split at hx
    · cases hx
    · cases hx
    · rcases List.mem_append.1 hx with hx | hx
      · rw [List.mem_singleton] at hx
        subst hx
        trivial
      · split at hx
        · cases hx
        · simp only at hx
          split_ifs at hx
          · split at hx
            · split at hx
              · cases hx
              · exact sendHandshake_known L _ _ _ x hx
            · rename_i r hu
              rcases List.mem_append.1 hx with hx | hx
              · rw [List.mem_singleton] at hx
                subst hx
                exact ⟨Dict.mem_of_get? hu, latin1_decode _⟩
              · exact sendHandshake_known L _ _ _ x hx
          · rcases List.mem_append.1 hx with hx | hx
            · rw [List.mem_singleton] at hx
              subst hx
              rfl
            · exact sendHandshake_known L _ _ _ x hx
          · cases hx

theorem onChunk_known {buffer chunk : Bytes} {waiting : Bytes → Accepting K}
    {frame : Bytes → Outcome K (Accepting K)} (h : ∀ f, ∀ x ∈ (frame f).2.2, x.Known s draw) :
    ∀ x ∈ (onChunk s buffer chunk waiting frame).2.2, x.Known s draw := by
  intro x hx
  unfold onChunk at hx
  split_ifs at hx
  · cases hx
  · split at hx
    · cases hx
    · exact h _ x hx
    · cases hx

/-- The uuids that a step of the handshake names. -/
theorem acceptStep_known {a : Accepting K} (ho : acceptStep L s c a i draw = some out) :
    ∀ x ∈ out.2.2, x.Known s draw := by
  unfold acceptStep at ho
  split at ho
  · split_ifs at ho
    · cases ho; exact fun x hx => by cases hx
    · cases ho; exact fun x hx => by cases hx
    · cases ho; exact Inner.known (.cons trivial .nil)
  · split at ho
    · cases ho; exact fun x hx => by cases hx
    · cases ho; exact fun x hx => by cases hx
  · split_ifs at ho
    cases ho
    exact onChunk_known fun f => onPassword_known L _ f
  · cases ho; exact fun x hx => by cases hx
  · split_ifs at ho
    cases ho
    exact onChunk_known fun f => onLogin_known L _ f
  · cases ho
    intro x hx
    rw [List.mem_singleton.1 hx]
    rfl
  · cases ho; exact fun x hx => by cases hx
  · cases ho; exact fun x hx => by cases hx
  · cases ho

theorem taskStep_known {t : Task (Accepting K)} (ho : taskStep L s c t i draw = some out) :
    ∀ x ∈ out.2.2, x.Known s draw := by
  cases t with
  | idle => cases ho
  | «over» e => cases ho
  | accept a => exact acceptStep_known L ho
  | handler h =>
    intro x hx
    have hby := handlerStep_obs L ho x hx
    cases x with
    | session c' u => exact absurd hby.2 (by simp)
    | relogin c' u => exact absurd hby.2 (by simp)
    | _ => trivial

/-! ## The address book -/

/-- REGISTER enters the session itself. -/
theorem dispatch_book {data : Bytes} (hg : (dispatch s u data draw).1.addressBook.get? n = some v) :
    s.addressBook.get? n = some v ∨ v = u := by
  cases data with
  | nil => exact .inl hg
  | cons type_ value =>
    simp only [dispatch] at hg
    cases hc : command type_ with
    | register =>
      simp only [hc, register] at hg
      split_ifs at hg
      · exact .inl hg
      · split at hg
        · exact .inl hg
        · simp only [Server.setBook_addressBook, Dict.get?_set] at hg
          split_ifs at hg
          · exact .inr (Option.some.inj hg).symm
          · exact .inl hg
    | unregister =>
      simp only [hc, unregister] at hg
      split at hg
      · exact .inl hg
      · split_ifs at hg
        · simp only [Server.setBook_addressBook, Dict.get?_erase] at hg
          split_ifs at hg
          exact .inl hg
        · exact .inl hg
        · exact .inl hg
    | putInbox =>
      simp only [hc, putInbox] at hg
      split at hg
      · split at hg
        · exact .inl hg
        · split at hg <;> exact .inl hg
      · exact .inl hg
      · exact .inl hg
    | getInbox => simp only [hc] at hg; split at hg <;> exact .inl hg
    | getOutbox => simp only [hc] at hg; split at hg <;> exact .inl hg
    | _ => rw [hc] at hg; exact .inl hg

theorem get?_of_teardown (hg : (teardown s u).addressBook.get? n = some v) :
    s.addressBook.get? n = some v := by
  unfold teardown at hg
  split_ifs at hg
  · exact hg
  · simp only at hg
    split at hg
    · exact hg
    · rw [Dict.get?_erase] at hg
      split_ifs at hg
      exact hg

@[simp] theorem dbOp_addressBook (op : DbOp) (s : Server K) (value : Bytes) :
    (op.run s value).1.addressBook = s.addressBook := by
  cases op with
  | set => simp only [DbOp.run]; split <;> rfl
  | get => rfl
  | delete => simp only [DbOp.run]; split_ifs <;> rfl
  | list => rfl

theorem Sends.addressBook {reply : Except PyErr Bytes} {held : Held} {after : After}
    (hs : Sends L s c h reply held after out) : out.1.addressBook = s.addressBook := by
  rcases hs.server with he | he
  · rw [he]
  · rw [he, release_addressBook]

/-- A step of a handler enters its own session only. -/
theorem Move.book (hm : Move L s c h i draw out) (hg : out.1.addressBook.get? n = some v) :
    s.addressBook.get? n = some v ∨ v = h.uuid := by
  cases hm with
  | still => exact .inl hg
  | refuse _ _ _ _ hs => exact .inl (by rwa [seen_server, hs.addressBook] at hg)
  | payload hreads hr hu hv hin hp =>
    rename_i r h' frame rem os out'
    have hd : ∀ {data : Bytes},
        (dispatch (s.modify r Client.received) h.uuid data draw).1.addressBook.get? n = some v →
        s.addressBook.get? n = some v ∨ v = h.uuid :=
      fun hg => dispatch_book (s := s.modify r Client.received) hg
    rw [seen_server] at hg
    cases hp with
    | reply _ hs => exact hd (by rwa [hs.addressBook] at hg)
    | wait => exact hd hg
    | raise => exact hd hg
    | bye => exact hd (get?_of_teardown hg)
  | db _ _ _ hs => exact .inl (by rwa [hs.addressBook, dbOp_addressBook] at hg)
  | inboxGet _ _ _ hs => exact .inl (by rwa [hs.addressBook] at hg)
  | outboxPut _ _ _ hs => exact .inl (by rwa [hs.addressBook] at hg)
  | outboxNone _ _ _ _ hs => exact .inl (by rwa [hs.addressBook] at hg)
  | outboxGet _ _ _ _ hs => exact .inl (by rwa [hs.addressBook] at hg)
  | sent => exact .inl (by simpa [release_addressBook] using hg)
  | close => exact .inl (by simpa [release_addressBook] using get?_of_teardown hg)
  | die => exact .inl (by simpa [release_addressBook] using hg)

theorem Joins.addressBook {a : Accepting K} (hj : Joins s c draw a out) :
    out.1.addressBook = s.addressBook := by
  cases hj <;> rfl

/-- A name that an administrative call enters is one of a uuid of 36 characters. -/
theorem admin_book (op : Admin) (hg : (op.run s).1.addressBook.get? n = some v) :
    s.addressBook.get? n = some v ∨ v.length = 36 := by
  cases op with
  | addClient t =>
    simp only [Admin.run, addClient] at hg
    split_ifs at hg <;> exact .inl hg
  | removeClient uuid =>
    have hkeys : ∀ (keys : List PyStr) (book : Dict PyStr PyStr),
        (deleteKeys book keys).1.get? n = some v → book.get? n = some v := by
      intro keys
      induction keys with
      | nil => exact fun _ h => h
      | cons key keys ih =>
        intro book h
        simp only [deleteKeys] at h
        split_ifs at h
        · have := ih _ h
          rw [Dict.get?_erase] at this
          split_ifs at this
          exact this
        · exact h
    simp only [Admin.run, removeClient] at hg
    split_ifs at hg
    · exact .inl hg
    · split at hg
      · exact .inl hg
      · rename_i r _
        have hk := hkeys (s.objs r).addressesOwned s.addressBook
        rcases hd : deleteKeys s.addressBook (s.objs r).addressesOwned with ⟨book, e | _⟩
        · rw [hd] at hg hk
          exact .inl (hk hg)
        · rw [hd] at hg hk
          exact .inl (hk hg)
  | addKey key uuid =>
    simp only [Admin.run, addKey] at hg
    split_ifs at hg with hl hm
    · exact .inl hg
    · exact .inl hg
    · have hset : (s.addressBook.set key uuid).get? n = some v := by
        split at hg <;> exact hg
      rw [Dict.get?_set] at hset
      split_ifs at hset
      · cases hset
        exact .inr (by simpa using hl)
      · exact .inl hset
  | removeKey key uuid =>
    simp only [Admin.run, removeKey] at hg
    split_ifs at hg
    · exact .inl hg
    · have herase : (s.addressBook.erase key).get? n = some v := by
        split at hg
        · exact hg
        · split_ifs at hg <;> exact hg
      rw [Dict.get?_erase] at herase
      split_ifs at herase
      exact .inl herase
    · exact .inl hg

/-- A call enters a uuid of 36 characters. -/
theorem admin_sessions (op : Admin) (hu : u ∈ (op.run s).1.clientDb) :
    u ∈ s.clientDb ∨ u.length = 36 := by
  by_cases hnames : op.Names u
  · cases op with
    | addClient t =>
      simp only [Admin.run, addClient] at hu
      split_ifs at hu with hl hm hout
      · exact .inl hu
      · exact .inl hu
      · exact .inl hu
      · exact .inr (by simpa [← show t.uuid = u from hnames] using hl)
    | removeClient uuid =>
      have hshort : (Admin.run s (.removeClient uuid)).1.clientDb = s.clientDb ∨
          (Admin.run s (.removeClient uuid)).1.clientDb = s.clientDb.erase uuid := by
        simp only [Admin.run, removeClient]
        split_ifs
        · exact .inl rfl
        · split
          · exact .inl rfl
          · split
            · exact .inl rfl
            · exact .inr rfl
      rcases hshort with he | he
      · exact .inl (he ▸ hu)
      · rw [he] at hu
        exact .inl (Dict.mem_erase.1 hu).2
    | addKey key uuid => exact hnames.elim
    | removeKey key uuid => exact hnames.elim
  · obtain ⟨r, hr⟩ := Dict.mem_iff.1 hu
    rw [(admin_frame s op).sessions u hnames] at hr
    exact .inl (Dict.mem_of_get? hr)

end

section
variable {S S' : Sys K} {a : Act} {o os : List (Obs K)}

theorem uuids_init (password : Bytes) (keep : Bool) : (Sys.init password keep : Sys K).Uuids :=
  ⟨sound_init _ _, fun _ h => absurd h (Dict.not_mem_empty _), fun _ _ h => (by cases h),
    fun _ _ h => (by cases h)⟩

/-- A coroutine enters sessions of 36 characters and works for one that `uuid4()` may give. -/
theorem taskStep_uuids {c : ConnId} {i : Input} {draw : Uuid4} {out : Outcome K (Accepting K)}
    (h : S.Uuids) (hd : draw.Valid) (ht : taskStep L S.server c (S.tasks c) i draw = some out) :
    (∀ u ∈ out.1.clientDb, u.length = 36) ∧ ∀ u, out.2.1.uses = some u → IsUuid u := by
  have hknown := taskStep_known L ht
  have hnamed : ∀ u, Named out.2.2 u → IsUuid u := by
    rintro u ⟨c', hm | hm⟩
    · obtain rfl := hknown _ hm
      exact hd.str
    · obtain ⟨hmem, hlatin⟩ := hknown _ hm
      exact ⟨h.sessions u hmem, hlatin⟩
  have hframe := taskStep_frame L (P := IsUuid) h.sound.refs (h.sound.tasks c) ht (h.tasks c) hnamed
  refine ⟨fun u hu => ?_, fun u hu => ?_⟩
  · by_cases huuid : IsUuid u
    · exact huuid.1
    · obtain ⟨r, hr⟩ := Dict.mem_iff.1 hu
      rw [hframe.sessions u huuid] at hr
      exact h.sessions u (Dict.mem_of_get? hr)
  · rcases (taskStep_enters L h.sound.refs ht).2 u hu with hold | hm | hm
    · exact h.tasks c u hold
    · exact hnamed u ⟨c, .inl hm⟩
    · exact hnamed u ⟨c, .inr hm⟩

theorem step_uuids (h : S.Uuids) (hd : a.Draws) (hstep : S.step L a = some (S', o)) : S'.Uuids := by
  have hsound := step_sound L h.sound hstep
  have hput : ∀ (c : ConnId) (s : Server K) (t : Task (Accepting K)),
      (∀ u, t.uses = some u → IsUuid u) → ∀ c' u, ((S.put c s t).tasks c').uses = some u → IsUuid u := by
    intro c s t ht c' u hu
    by_cases hc : c' = c
    · subst hc; rw [put_tasks_self] at hu; exact ht u hu
    · rw [put_tasks_ne hc] at hu; exact h.tasks c' u hu
  rcases step_cases L hstep with ⟨c, rfl, -, rfl, rfl⟩ | ⟨c, i, draw, s, t, rfl, ht, rfl⟩ |
    ⟨op, rfl, rfl, rfl⟩
  · exact ⟨hsound, h.sessions, hput _ _ _ (fun _ h => by cases h), h.book⟩
  · obtain ⟨hsessions, huses⟩ := taskStep_uuids L h hd ht
    refine ⟨hsound, hsessions, hput _ _ _ huses, fun n v hg => ?_⟩
    rcases htask : S.tasks c with _ | a | h' | e
    · rw [htask] at ht; cases ht
    · rw [htask] at ht
      have hsame := (acceptStep_joins L ht).addressBook
      exact h.book n v (by rw [← hsame]; exact hg)
    · rw [htask] at ht
      have hframe := h.sound.tidy c
      rw [htask] at hframe
      rcases (handlerStep_move L hframe ht).book L hg with hg | rfl
      · exact h.book n v hg
      · exact (h.tasks c h'.uuid (by rw [htask]; rfl)).1
    · rw [htask] at ht; cases ht
  · exact ⟨hsound, fun u hu => (admin_sessions op hu).elim (h.sessions u) id, h.tasks,
      fun n v hg => (admin_book op hg).elim (h.book n v) id⟩

/-- **The uuids of every reachable state.** -/
theorem run_uuids (h : S.Uuids) (hrun : Reaches L S S' os) : S'.Uuids :=
  hrun.inv (I := fun S _ => S.Uuids) h fun _ h ⟨_, hstep, hd⟩ => step_uuids L h hd hstep

end

end Pipebomb
