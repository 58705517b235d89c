/-
  What connections leave behind on a server that does not keep dead sessions.

  * `sessions_iff`: the sessions of the server are those whose last connection still works
    for them, and those whose last connection was ended by an exception.  Nothing but a
    RELOGIN takes the latter up again.
  * `stale_name_stays`: a name that is left in the address book when its session is gone
    stays there.  WHOHAS answers with the dead uuid; REGISTER and UNREGISTER are refused
    to everyone.
-/
import Pipebomb.Teardown

namespace Pipebomb

open ByteString

variable {K : Type} (L : Libs K)

/-! ## Sessions -/

/-- The coroutine works for the session, or an exception ended it. -/
def Task.Keeps (u : PyStr) (t : Task (Accepting K)) : Prop :=
  t.uses = some u ∨ ∃ e, t = .over (some e)

/-- Logins and requests only; a RELOGIN is accepted while no coroutine works for the session. -/
def Sys.Alternating (S : Sys K) (a : Act) (o : List (Obs K)) : Prop := a.Wire ∧ S.Exclusive a o

/-- The state of a session whose last connection is `c`. -/
def Sys.Accounts (S : Sys K) (c : ConnId) (u : PyStr) : Prop :=
  u ∈ S.server.clientDb ∧ (S.tasks c).Keeps u ∨ u ∉ S.server.clientDb ∧ S.tasks c = .over none

/-- The invariant: every session has a last connection, which accounts for it. -/
structure Accounted (S : Sys K) (os : List (Obs K)) : Prop where
  owned : Owned S os
  sound : S.Sound
  drops : S.server.keepDeadSessions = false
  known : ∀ u ∈ S.server.clientDb, ∃ c, owner u os = some c
  accounts : ∀ c u, owner u os = some c → S.Accounts c u

section
variable {s s' : Server K} {c : ConnId} {u : PyStr} {o : List (Obs K)} {t : Task (Accepting K)}
  {i : Input} {draw : Uuid4}

/-- The start of a send of the handshake, or an exception. -/
theorem sendHandshake_task (s : Server K) (c : ConnId) (l : Locals K) (data : Bytes) (next : Accepting K) :
    (sendHandshake L s c l data next).2.1 = .accept next ∨
      ∃ e, (sendHandshake L s c l data next).2.1 = .over (some e) := by
  unfold sendHandshake
  rw [seen_task]
  split
  · exact .inr ⟨_, rfl⟩
  · exact .inl rfl

theorem sendHandshake_keeps (l l' : Locals K) (data : Bytes) (r : Ref) :
    (sendHandshake L s c l data (.sendLogin l' u r)).2.1.Keeps u := by
  rcases sendHandshake_task L s c l data (.sendLogin l' u r) with h | h
  · exact .inl (by rw [h]; rfl)
  · exact .inr h

/-- The step logs in to sessions only that exist and that the coroutine keeps. -/
def Admits (o : Outcome K (Accepting K)) : Prop :=
  ∀ u, Attached u o.2.2 → u ∈ o.1.clientDb ∧ o.2.1.Keeps u

theorem Shut.not_attached (h : Shut o) : ¬ Attached u o := by
  rintro ⟨c, hm | hm⟩
  · exact h _ hm
  · exact h _ hm

theorem Shut.admits {out : Outcome K (Accepting K)} (h : Shut out.2.2) : Admits out :=
  fun _ hu => absurd hu h.not_attached

theorem Admits.seen {out : Outcome K (Accepting K)} (h : Admits out) (ho : Shut o) :
    Admits (seen o out) := by
  rintro u ⟨c, hm⟩
  refine h u ⟨c, ?_⟩
  rw [seen_obs, List.mem_append, List.mem_append] at hm
  rcases hm with (hm | hm) | hm | hm
  · exact (ho _ hm).elim
  · exact .inl hm
  · exact (ho _ hm).elim
  · exact .inr hm

theorem sendHandshake_shut (l : Locals K) (data : Bytes) (next : Accepting K) :
    Shut (sendHandshake L s c l data next).2.2 := by
  unfold sendHandshake
  rw [seen_obs]
  refine (inner_encryptCall _ _ _ _).shut.append ?_
  split
  · exact .nil
  · exact .cons trivial .nil

/-- The last packet of a login, for a session that exists. -/
theorem sendLogin_admits (hmem : u ∈ s.clientDb) (l l' : Locals K) (data : Bytes) (r : Ref) {x : Obs K}
    (hx : x = .session c u ∨ x = .relogin c u) :
    Admits (seen [x] (sendHandshake L s c l data (.sendLogin l' u r))) := by
  rintro u' ⟨c', hm⟩
  have hu : u' = u := by
    have hshut := sendHandshake_shut L (s := s) (c := c) l data (.sendLogin l' u r)
    rw [seen_obs, List.mem_append, List.mem_append, List.mem_singleton, List.mem_singleton] at hm
    rcases hm with (rfl | hm) | rfl | hm
    · rcases hx with hx | hx <;> cases hx; rfl
    · exact (hshut _ hm).elim
    · rcases hx with hx | hx <;> cases hx; rfl
    · exact (hshut _ hm).elim
  subst hu
  rw [seen_server, seen_task, sendHandshake_server]
  exact ⟨hmem, sendHandshake_keeps L l l' data r⟩

theorem onPassword_admits (l : Locals K) (frame : Bytes) : Admits (onPassword L s c l frame) := by
  refine Admits.seen ?_ (inner_decryptCall _ _ _ _).shut
  split
  · exact Shut.nil.admits
  · exact Shut.nil.admits
  · split_ifs
    · exact Shut.nil.admits
    · exact (sendHandshake_shut L _ _ _).admits.seen (.cons trivial .nil)

theorem onLogin_admits (l : Locals K) (frame : Bytes) (draw : Uuid4) :
    Admits (onLogin L s c l frame draw) := by
  refine Admits.seen ?_ (inner_decryptCall _ _ _ _).shut
  split
  · exact Shut.nil.admits
  · exact Shut.nil.admits
  · refine Admits.seen ?_ (.cons trivial .nil)
    split
    · exact Shut.nil.admits
    · simp only
      split_ifs
      · split
        · split
          · exact Shut.nil.admits
          · exact (sendHandshake_shut L _ _ _).admits
        · rename_i r hu
          have hmem : latin1Decode _ ∈ (s.modify r (Client.attach c l.cipher)).clientDb :=
            Dict.mem_of_get? hu
          exact sendLogin_admits L hmem _ _ _ _ (.inr rfl)
      · refine sendLogin_admits L ?_ _ _ _ _ (.inl rfl)
        exact Dict.mem_of_get? (Dict.get?_set_self ..)
      · exact Shut.nil.admits

theorem onChunk_admits (buffer chunk : Bytes) (waiting : Bytes → Accepting K)
    {frame : Bytes → Outcome K (Accepting K)} (h : ∀ f, Admits (frame f)) :
    Admits (onChunk s buffer chunk waiting frame) := by
  unfold onChunk
  split_ifs
  · exact Shut.nil.admits
  · split
    · exact Shut.nil.admits
    · exact h _
    · exact Shut.nil.admits

/-- **A coroutine that logs in to a session** works for it, or is ended by an exception. -/
theorem acceptStep_admits {a : Accepting K} {out : Outcome K (Accepting K)}
    (h : acceptStep L s c a i draw = some out) : Admits out := by
  unfold acceptStep at h
  split at h
  · split_ifs at h <;> cases h
    · exact Shut.nil.admits
    · exact Shut.nil.admits
    · exact Shut.admits (.cons trivial .nil)
  · split at h
    · cases h; exact Shut.nil.admits
    · cases h; exact Shut.nil.admits
  · split_ifs at h
    cases h; exact onChunk_admits _ _ _ fun _ => onPassword_admits L _ _
  · cases h; exact Shut.nil.admits
  · split_ifs at h
    cases h; exact onChunk_admits _ _ _ fun _ => onLogin_admits L _ _ _
  · cases h
    rintro u ⟨c', hm⟩
    simp only [seen_obs, finish, List.append_nil, List.mem_singleton, reduceCtorEq, or_false,
      Obs.session.injEq] at hm
    rw [hm.2]
    exact ⟨Dict.mem_of_get? (Dict.get?_set_self ..), .inl rfl⟩
  · cases h; exact Shut.nil.admits
  · cases h; exact Shut.nil.admits
  · cases h

/-- Behind its login a coroutine keeps the session. -/
theorem sendLogin_keeps {l : Locals K} {r : Ref} {out : Outcome K (Accepting K)}
    (h : acceptStep L s c (.sendLogin l u r) i draw = some out) :
    out.1.clientDb = s.clientDb ∧ out.2.1.Keeps u := by
  cases i with
  | sent => cases h; exact ⟨rfl, .inl rfl⟩
  | raise e => cases h; exact ⟨rfl, .inr ⟨e, rfl⟩⟩
  | go => cases h
  | recv chunk => cases h

theorem Sends.clientDb {A : Type} {h : Handler} {reply : Except PyErr Bytes} {held : Held}
    {after : After} {out : Outcome K A} (hs : Sends L s c h reply held after out) :
    out.1.clientDb = s.clientDb := by
  rcases hs.server with h | h
  · rw [h]
  · rw [h, (release_quiet s held).clientDb]

/-- **A handler that does not return** leaves the sessions. -/
theorem Move.clientDb {A : Type} {h : Handler} {out : Outcome K A} (hm : Move L s c h i draw out)
    (hover : out.2.1 ≠ .over none) : out.1.clientDb = s.clientDb := by
  cases hm with
  | still => rfl
  | refuse _ _ _ _ hs =>
    rw [seen_server, hs.clientDb]
    rfl
  | @payload r h' _ _ _ _ _ _ _ _ _ hp =>
    rw [seen_task] at hover
    rw [seen_server]
    have hquiet := dispatch_quiet (s.modify r Client.received) h.uuid h'.data draw
    cases hp with
    | reply _ hs => rw [hs.clientDb, hquiet.clientDb]; rfl
    | wait => exact hquiet.clientDb
    | raise => exact hquiet.clientDb
    | bye => exact absurd rfl hover
  | db _ _ _ hs => rw [hs.clientDb, (dbOp_quiet _ _ _).clientDb]; rfl
  | inboxGet _ _ _ hs => rw [hs.clientDb]; rfl
  | outboxPut _ _ _ hs => rw [hs.clientDb]; rfl
  | outboxNone _ _ _ _ hs => rw [hs.clientDb]; rfl
  | outboxGet _ _ _ _ hs => rw [hs.clientDb]; rfl
  | sent => exact (release_quiet _ _).clientDb
  | close => exact absurd rfl hover
  | die => exact (release_quiet _ _).clientDb

end

section
variable {S S' : Sys K} {a : Act} {os o : List (Obs K)} {c : ConnId} {u : PyStr} {s : Server K}
  {t : Task (Accepting K)} {i : Input} {draw : Uuid4}

theorem taskStep_admits (ht : taskStep L S.server c (S.tasks c) i draw = some (s, t, o)) :
    Admits (s, t, o) := by
  rcases htask : S.tasks c with _ | a | h | e
  · rw [htask] at ht; cases ht
  · rw [htask] at ht
    exact acceptStep_admits L ht
  · rw [htask] at ht
    rintro u ⟨c', hm | hm⟩
    · cases (handlerStep_obs L ht _ hm).2
    · cases (handlerStep_obs L ht _ hm).2
  · rw [htask] at ht; cases ht

/-- A coroutine that ended does not go on. -/
theorem taskStep_live (ht : taskStep L S.server c (S.tasks c) i draw = some (s, t, o))
    (e : Option PyErr) : S.tasks c ≠ .over e := by
  intro he
  rw [he] at ht
  cases ht

/-- A coroutine that works for a session keeps it, or removes it and returns. -/
theorem taskStep_keeps (htidy : (S.tasks c).Tidy) (hdrops : S.server.keepDeadSessions = false)
    (hstep : taskStep L S.server c (S.tasks c) i draw = some (s, t, o))
    (huses : (S.tasks c).uses = some u) :
    s.clientDb = S.server.clientDb ∧ t.Keeps u ∨ u ∉ s.clientDb ∧ t = .over none := by
  rcases htask : S.tasks c with _ | a | h | e
  · rw [htask] at huses; cases huses
  · rw [htask] at huses hstep
    cases a with
    | sendLogin l u' r =>
      cases huses
      exact .inl (sendLogin_keeps L hstep)
    | publicKey | sendPublic | password | sendAck | login | sendUnknown => cases huses
  · rw [htask] at huses hstep htidy
    cases huses
    by_cases hover : t = .over none
    · obtain ⟨s₁, hs₁, -⟩ := handlerStep_tornDown L hstep hover
      have hkeep := (handlerStep_move L htidy hstep).keepDeadSessions
      refine .inr ⟨?_, hover⟩
      have hs₁ : s = teardown s₁ h.uuid := hs₁
      rw [hs₁] at hkeep ⊢
      exact teardown_gone ((teardown_aside s₁ h.uuid).keepDeadSessions.symm.trans
        (hkeep.trans hdrops)) _
    · refine .inl ⟨(handlerStep_move L htidy hstep).clientDb L hover, ?_⟩
      have hstays := handlerStep_stays L hstep
      rcases t with _ | _ | h' | _ | e
      · exact hstays.elim
      · exact hstays.elim
      · exact .inl (congrArg some hstays)
      · exact absurd rfl hover
      · exact .inr ⟨e, rfl⟩
  · rw [htask] at huses; cases huses

/-- **One step.** -/
theorem step_accounted (hI : Accounted S os) (hstep : S.step L a = some (S', o))
    (hok : S.Alternating a o) : Accounted S' (os ++ o) := by
  have howned := step_owned L hI.owned hstep hok.2
  have hsound := step_sound L hI.sound hstep
  have hdrops := (step_keepDeadSessions L hI.sound hstep).trans hI.drops
  rcases step_cases L hstep with ⟨c, rfl, hidle, rfl, rfl⟩ | ⟨c, i, draw, s, t, rfl, ht, rfl⟩ |
    ⟨op, rfl, rfl, rfl⟩
  · rw [List.append_nil] at howned ⊢
    refine ⟨howned, hsound, hdrops, hI.known, fun c' u hu => ?_⟩
    have hacc := hI.accounts c' u hu
    by_cases hc : c' = c
    · subst hc
      rw [Sys.Accounts, hidle] at hacc
      rcases hacc with ⟨-, hk | ⟨e, he⟩⟩ | ⟨-, he⟩
      · cases hk
      · cases he
      · cases he
    · rw [Sys.Accounts, put_tasks_ne hc]
      exact hacc
  · have hby : AllBy c (S.tasks c).uses o := taskStep_obs L ht
    -- the other sessions stay
    have hother : ∀ u, (S.tasks c).uses ≠ some u → ¬ Attached u o →
        (u ∈ s.clientDb ↔ u ∈ S.server.clientDb) := by
      intro u hu ha
      have hframe : Frame (fun u' => u' ≠ u) S.server s :=
        taskStep_frame L hI.sound.refs (hI.sound.tasks c) ht (fun u' hu' he => hu (he ▸ hu'))
          fun u' hu' he => ha (he ▸ hu')
      have hget := hframe.sessions u (by simp)
      rw [← not_iff_not, ← Dict.get?_eq_none, ← Dict.get?_eq_none, hget]
    refine ⟨howned, hsound, hdrops, fun u hu => ?_, fun c' u hu => ?_⟩
    · by_cases ha : Attached u o
      · exact ⟨c, owner_append_of_by ha hby⟩
      · rw [owner_append_of_not ha]
        by_cases huses : (S.tasks c).uses = some u
        · exact ⟨c, hI.owned.owner c u huses⟩
        · exact hI.known u ((hother u huses ha).1 hu)
    · by_cases ha : Attached u o
      · rw [owner_append_of_by ha hby] at hu
        cases hu
        rw [Sys.Accounts, put_tasks_self]
        exact .inl (taskStep_admits L ht u ha)
      · rw [owner_append_of_not ha] at hu
        have hacc := hI.accounts c' u hu
        by_cases hc : c' = c
        · subst hc
          rw [Sys.Accounts, put_tasks_self]
          have hlive := taskStep_live L ht
          rcases hacc with ⟨hmem, huses | ⟨e, he⟩⟩ | ⟨-, he⟩
          · rcases taskStep_keeps L (hI.sound.tidy c') hI.drops ht huses with ⟨hdb, hk⟩ | hgone
            · exact .inl ⟨hdb ▸ hmem, hk⟩
            · exact .inr hgone
          · exact absurd he (hlive _)
          · exact absurd he (hlive _)
        · have huses : (S.tasks c).uses ≠ some u := by
            intro huses
            have := (hI.owned.owner c u huses).symm.trans hu
            exact hc (Option.some.inj this).symm
          rw [Sys.Accounts, put_tasks_ne hc, put_server, hother u huses ha]
          exact hacc
  · exact hok.1.elim

theorem run_accounted {password : Bytes}
    (hrun : Lts.Run (Lts.Guarded (Sys.step L) Sys.Alternating) (.init password false) S os) :
    Accounted S os := by
  refine hrun.inv ?_ fun _ hI ⟨_, hstep, hok⟩ => step_accounted L hI hstep hok
  refine ⟨?_, sound_init _ _, rfl, fun u hu => absurd hu (Dict.not_mem_empty u), fun _ _ h => by cases h⟩
  exact ⟨Server.wfRefs_init _ _, fun _ => trivial, fun _ _ hu => by cases hu⟩

/-- **The sessions of a server** that does not keep dead ones: in every run of logins and
    requests in which a RELOGIN is accepted only while no coroutine works for its session,
    a session exists exactly if the coroutine that logged in to it last works for it, or
    was ended by an exception. -/
theorem sessions_iff {password : Bytes}
    (hrun : Lts.Run (Lts.Guarded (Sys.step L) Sys.Alternating) (.init password false) S os)
    (u : PyStr) : u ∈ S.server.clientDb ↔ ∃ c, owner u os = some c ∧ (S.tasks c).Keeps u := by
  have hI := run_accounted L hrun
  constructor
  · intro hu
    obtain ⟨c, hc⟩ := hI.known u hu
    refine ⟨c, hc, ?_⟩
    rcases hI.accounts c u hc with ⟨-, hk⟩ | ⟨hgone, -⟩
    · exact hk
    · exact absurd hu hgone
  · rintro ⟨c, hc, hk⟩
    rcases hI.accounts c u hc with ⟨hu, -⟩ | ⟨-, hover⟩
    · exact hu
    · rcases hk with hk | ⟨e, he⟩
      · rw [hover] at hk; cases hk
      · rw [hover] at he; cases he

end

/-! ## Names -/

/-- In the step the name stays with a session that is gone. -/
structure NameStuck (S S' : Sys K) (a : Act) (o : List (Obs K)) (u name : PyStr) : Prop where
  /-- WHOHAS answers with the uuid of the session -/
  resolves : ∀ c h data, S.Accepts a o c h data → Asks .whohas name data →
    S.Replies o c h data (latin1 u)
  /-- REGISTER and UNREGISTER are refused to everyone and change nothing -/
  refused : ∀ c h data, S.Accepts a o c h data → Asks .register name data ∨ Asks .unregister name data →
    S.Replies o c h data [0, 69, 82, 82, 5] ∧ S'.server.office = S.server.office
  stays : S'.server.addressBook.get? name = some u

/-- The address book has the name of a session that is gone. -/
structure Sys.Stale (S : Sys K) (u name : PyStr) : Prop where
  book : S.server.addressBook.get? name = some u
  gone : u ∉ S.server.clientDb

/-- Logins and requests only, and `uuid4()` does not give `u` again. -/
def Sys.Unlike (u : PyStr) (S : Sys K) (a : Act) (o : List (Obs K)) : Prop :=
  S.Ordinary a o ∧ ∀ c, .session c u ∉ o

section
variable {S S' : Sys K} {a : Act} {os o : List (Obs K)} {c : ConnId} {u name : PyStr} {h : Handler}
  {data : Bytes}

theorem mem_acceptedOn (hd : acceptedOn c o = some data) : .accepted (.server c) data ∈ o := by
  obtain ⟨x, hx, hx'⟩ := List.exists_of_findSome?_eq_some hd
  cases x with
  | accepted p d =>
    cases p with
    | client => simp at hx'
    | server c' =>
      simp only at hx'
      split_ifs at hx' with hc
      cases hx'
      rwa [← hc]
  | _ => simp at hx'

/-- The session of a handler that ends is there. -/
theorem leave_live (hS : S.Sound) (hstep : S.Step L a S' o) {n : Option PyStr}
    (he : S.effect a o = some (.leave u n)) : u ∈ S.server.clientDb := by
  cases hstep with
  | connect => cases he
  | join ht hj =>
    simp only [Sys.effect, ht] at he
    obtain ⟨_, -, hl⟩ := Option.map_eq_some_iff.1 he
    cases hl
  | @move c i draw h s t o ht hm =>
    simp only [Sys.effect, ht] at he
    obtain rfl : h.uuid = u := Handler.effect_own (hS.handlers c h ht) he rfl
    unfold Handler.effect at he
    split at he
    · obtain ⟨_, -, hl⟩ := Option.map_eq_some_iff.1 he
      cases hl
    · obtain ⟨_, -, hl⟩ := Option.map_eq_some_iff.1 he
      cases hl
    · obtain ⟨_, -, hl⟩ := Option.map_eq_some_iff.1 he
      cases hl
    · obtain ⟨_, -, hl⟩ := Option.map_eq_some_iff.1 he
      cases hl
    · split_ifs at he with hmem
      exact hmem
    · obtain ⟨data, hd, -⟩ := Option.bind_eq_some_iff.1 he
      obtain ⟨r, -, -, -, -, -, -, hr, -⟩ := hm.accepted L (mem_acceptedOn hd)
      exact Dict.mem_of_get? hr
  | admin => cases he

/-- An effect that a session could have leaves a name of a session that is gone. -/
theorem book_apply {O : Office} {e : Effect} (hA : O.Agrees) (hv : e.Valid O)
    (hbook : O.book name = some u) (hleave : ∀ n, e ≠ .leave u n) (hun : O.boxes u = none) :
    (O.apply e).book name = some u := by
  cases e with
  | register u' n =>
    refine (Function.update_of_ne ?_ ..).trans hbook
    rintro rfl
    exact absurd (hbook.symm.trans hv.1) (Option.some_ne_none u)
  | unregister u' n =>
    refine (Function.update_of_ne ?_ ..).trans hbook
    rintro rfl
    obtain ⟨b, hb, hn⟩ := hv
    obtain rfl : u' = u := Option.some.inj (((hA u' b hb).2 _ hn).symm.trans hbook)
    exact absurd (hb.symm.trans hun) (Option.some_ne_none b)
  | leave u' n =>
    rcases n with _ | n
    · exact hbook
    · refine (Function.update_of_ne ?_ ..).trans hbook
      rintro rfl
      obtain rfl : u' = u := Option.some.inj ((hv _ rfl).symm.trans hbook)
      exact hleave _ rfl
  | kv | put | take | write | consume | login => exact hbook

/-- **One step**: the name stays, and the session stays away. -/
theorem step_stale (hN : S.Named) (hst : S.Stale u name) (hstep : S.step L a = some (S', o))
    (hok : S.Unlike u a o) : S'.Stale u name := by
  have hboxes : S.server.office.boxes u = none := by
    by_contra hne
    exact hst.gone (boxes_ne_none.1 hne)
  have hst' := (step_step L hN.sound.tidy hstep).1
  have hoffice := step_office L hN.sound.refs hst' hok.1.1
  rcases he : S.effect a o with _ | e
  · rw [he] at hoffice
    refine ⟨(congrFun (congrArg Office.book hoffice) name).trans hst.book, fun hu => ?_⟩
    rw [← boxes_ne_none, hoffice] at hu
    exact hu hboxes
  · rw [he] at hoffice
    refine ⟨?_, fun hu => ?_⟩
    · refine (congrFun (congrArg Office.book hoffice) name).trans ?_
      refine book_apply hN.agrees (effect_valid he) hst.book (fun n hn => ?_) hboxes
      exact hst.gone (leave_live L hN.sound hst' (he.trans (congrArg some hn)))
    · rw [← boxes_ne_none, hoffice] at hu
      rcases boxes_apply hu with hu | rfl
      · exact hu hboxes
      · obtain ⟨c, hc⟩ := effect_login he
        exact hok.2 c hc

/-- Every name is in the book under the text of a uuid. -/
def Server.BookUuids (s : Server K) : Prop := ∀ k u, s.addressBook.get? k = some u → IsUuid u

theorem step_bookUuids (hN : S.Named) (hB : S.server.BookUuids) (hstep : S.step L a = some (S', o))
    (hok : S.Ordinary a o) : S'.server.BookUuids := by
  intro k u hk
  have hoffice := step_office L hN.sound.refs (step_step L hN.sound.tidy hstep).1 hok.1
  have hk : S'.server.office.book k = some u := hk
  rw [hoffice] at hk
  rcases he : S.effect a o with _ | e
  · rw [he] at hk
    exact hB k u hk
  · rw [he] at hk
    have hv := effect_valid he
    cases e with
    | register u' n =>
      have hk : Function.update S.server.office.book n (some u') k = some u := hk
      rw [Function.update_apply] at hk
      split_ifs at hk
      · cases hk
        exact hN.uuids u (boxes_ne_none.1 hv.2)
      · exact hB k u hk
    | unregister u' n =>
      have hk : Function.update S.server.office.book n none k = some u := hk
      rw [Function.update_apply] at hk
      split_ifs at hk
      exact hB k u hk
    | leave u' n =>
      rcases n with _ | n
      · exact hB k u hk
      · have hk : Function.update S.server.office.book n none k = some u := hk
        rw [Function.update_apply] at hk
        split_ifs at hk
        exact hB k u hk
    | kv | put | take | write | consume | login => exact hB k u hk

/-- **What a step does with a stale name.** -/
theorem step_stuck (hN : S.Named) (hB : S.server.BookUuids) (hst : S.Stale u name)
    (hstep : S.step L a = some (S', o)) (hok : S.Unlike u a o) : NameStuck S S' a o u name := by
  have huuid := hB name u hst.book
  refine ⟨fun c h data hacc hask => ?_, fun c h data hacc hask => ?_, (step_stale L hN hst hstep hok).book⟩
  · obtain ⟨type_, value, rfl, hcmd, rfl⟩ := hask
    refine replies_accepted L hN.sound hstep hacc (fun r draw hu => ?_) ?_
    · simp only [dispatch, hcmd, whohas, Server.modify_addressBook, hst.book,
        latin1Encode_eq huuid.2]
      rfl
    · rw [length_latin1, huuid.1]
      decide
  · have hmem : name ∈ S.server.addressBook := Dict.mem_of_get? hst.book
    have hnot : ∀ u', name ∉ S.server.names u' := by
      intro u' hn
      obtain ⟨b, hb, hn⟩ := names_boxes hn
      obtain rfl : u' = u := Option.some.inj (((hN.agrees u' b hb).2 _ hn).symm.trans hst.book)
      refine hst.gone (boxes_ne_none.1 ?_)
      rw [hb]
      exact Option.some_ne_none b
    refine ⟨replies_accepted L hN.sound hstep hacc (fun r draw hu => ?_) (by decide), ?_⟩
    · rcases hask with ⟨type_, value, rfl, hcmd, rfl⟩ | ⟨type_, value, rfl, hcmd, rfl⟩
      · have hmem' : latin1Decode value ∈ (S.server.modify r Client.received).addressBook := hmem
        simp only [dispatch, hcmd, register]
        rw [if_pos hmem']
        rfl
      · have hlist : latin1Decode value ∉ (S.server.objs r).received.addressesOwned := by
          simpa [Server.names, Server.client, hu, Client.received] using hnot h.uuid
        simp only [dispatch, hcmd, unregister, Server.modify_clientDb, hu, Server.modify_objs_self]
        rw [if_pos hlist]
        rfl
    · refine office_accepted L hN.sound hstep hok.1.1 hacc fun draw => ?_
      rcases hask with ⟨type_, value, rfl, hcmd, rfl⟩ | ⟨type_, value, rfl, hcmd, rfl⟩
      · simp only [payloadEffect, hcmd, if_pos (Or.inl hmem)]
      · simp only [payloadEffect, hcmd, if_neg (hnot h.uuid)]

/-- **A name of a session that is gone stays in the address book for ever.**  In every run
    of logins and requests in which `uuid4()` does not give its uuid again, WHOHAS answers
    with the dead uuid, and REGISTER and UNREGISTER of the name are refused to everyone. -/
theorem stale_name_stays {password : Bytes} {keep : Bool} {S₀ : Sys K} {os₀ : List (Obs K)}
    (h₀ : Lts.Run (Lts.Guarded (Sys.step L) Sys.Ordinary) (.init password keep) S₀ os₀)
    (hst : S₀.Stale u name)
    (hrun : Lts.Run (Lts.Guarded (Sys.step L) (Sys.Unlike u)) S₀ S os)
    (hstep : S.step L a = some (S', o)) (hok : S.Unlike u a o) : NameStuck S S' a o u name := by
  obtain ⟨hN₀, hB₀⟩ := h₀.inv (I := fun S _ => S.Named ∧ S.server.BookUuids)
    ⟨named_init _ _, fun k u hk => by cases hk⟩ fun _ ⟨hN, hB⟩ ⟨_, hstep, hok⟩ =>
      ⟨step_named L hN hstep hok, step_bookUuids L hN hB hstep hok⟩
  obtain ⟨hN, hB, hst⟩ := hrun.inv
    (I := fun S _ => S.Named ∧ S.server.BookUuids ∧ S.Stale u name) ⟨hN₀, hB₀, hst⟩
    fun _ ⟨hN, hB, hst⟩ ⟨_, hstep, hok⟩ => ⟨step_named L hN hstep hok.1,
      step_bookUuids L hN hB hstep hok.1, step_stale L hN hst hstep hok⟩
  exact step_stuck L hN hB hst hstep hok

end

/-! ## Runs on fixed inputs -/

/-- `Alternating` for actions on connections below `n`. -/
def Sys.AlternatingBelow (n : ℕ) (S : Sys K) (a : Act) (o : List (Obs K)) : Prop :=
  a.Wire ∧ S.ExclusiveBelow n true a o

instance (n : ℕ) (S : Sys K) (a : Act) (o : List (Obs K)) : Decidable (S.AlternatingBelow n a o) :=
  inferInstanceAs (Decidable (_ ∧ _))

/-- The connection logs in and is closed. -/
def closedSample : List Act := loginActs 0 [0xC5] ++ [.resume 0 (.recv []) sampleDraw]

/-- A connection is closed: its session stays. -/
theorem sessions_iff_sample : ∃ (S : Sys ℕ) (os : List (Obs ℕ)),
    Lts.Run (Lts.Guarded (Sys.step stub) Sys.Alternating) (.init [] false) S os ∧
      S.tasks 0 = .over (some .typeError) ∧ sampleUuid ∈ S.server.clientDb := by
  have hexec : ((Lts.exec (Sys.step stub) closedSample (.init [] false)).any fun x =>
      owner sampleUuid x.2 = some 0 && x.1.tasks 0 = .over (some .typeError)) = true := by
    decide +kernel
  have halong : Lts.Along (Sys.step stub) (Sys.AlternatingBelow 1) closedSample (.init [] false) := by
    decide +kernel
  obtain ⟨⟨S, os⟩, hS, hp⟩ := Option.any_eq_true _ _ |>.1 hexec
  simp only [Bool.and_eq_true, decide_eq_true_eq] at hp
  have hrun := Lts.exec_run hS (halong.imp (I := Sys.Below 1)
    (fun hS h => step_below stub hS h.2.1) (fun hS h => And.intro h.1 (h.2.exclusive hS))
    fun _ _ => rfl)
  exact ⟨S, os, hrun, hp.2, (sessions_iff stub hrun sampleUuid).2 ⟨0, hp.1, .inr ⟨_, hp.2⟩⟩⟩

/-- `Unlike` for actions on connections below `n`. -/
def Sys.UnlikeBelow (n : ℕ) (u : PyStr) (S : Sys K) (a : Act) (o : List (Obs K)) : Prop :=
  S.OrdinaryBelow n a o ∧ ∀ x ∈ o, u ∉ loginUuid false x

instance (n : ℕ) (u : PyStr) (S : Sys K) (a : Act) (o : List (Obs K)) :
    Decidable (S.UnlikeBelow n u a o) := inferInstanceAs (Decidable (_ ∧ _))

theorem Sys.UnlikeBelow.unlike {n : ℕ} {u : PyStr} {S : Sys K} {a : Act} {o : List (Obs K)}
    (hS : S.Below n) (h : S.UnlikeBelow n u a o) : S.Unlike u a o :=
  ⟨h.1.ordinary hS, fun _ hm => h.2 _ hm rfl⟩

/-- Connections 0 and 1 log in; 0 registers `k` and `l` and says BYE. -/
def staleStart : List Act := twoLogins ++ drawing sampleDraw 0
  [.recv (stubPacket 0 2 [0x85, 107]), .sent, .go, .recv (stubPacket 0 3 [0x85, 108]), .sent, .go,
    .recv (stubPacket 0 4 [0x88])]

/-- Connection 1 tries to register `l`. -/
def staleMore : List Act := drawing sampleDraw 1 [.recv (stubPacket 1 2 [0x85, 108]), .sent, .go]

/-- Connection 1 asks who has `l`. -/
def staleAct : Act := .resume 1 (.recv (stubPacket 1 3 [0x1, 108])) sampleDraw

/-- The name `l` of the session of connection 0 stays when it is gone. -/
theorem stale_name_stays_sample : ∃ (S S' : Sys ℕ) (o : List (Obs ℕ)),
    NameStuck S S' staleAct o sampleUuid ['l'] ∧
      .answered 1 otherUuid [0x1, 108] (latin1 sampleUuid) ∈ o := by
  have hexec : ((Lts.exec (Sys.step stub) staleStart (.init [] false)).any fun x =>
      (x.1.server.addressBook.get? ['l'] = some sampleUuid : Bool) &&
      (sampleUuid ∉ x.1.server.clientDb : Bool) &&
      (Lts.Along (Sys.step stub) (Sys.UnlikeBelow 2 sampleUuid) staleMore x.1 : Bool) &&
      (Lts.exec (Sys.step stub) staleMore x.1).any fun y =>
        (y.1.step stub staleAct).any fun z =>
          (y.1.UnlikeBelow 2 sampleUuid staleAct z.2 : Bool) &&
          (.answered 1 otherUuid [0x1, 108] (latin1 sampleUuid) ∈ z.2 : Bool)) = true := by
    decide +kernel
  have halong : Lts.Along (Sys.step stub) (Sys.OrdinaryBelow 2) staleStart (.init [] false) := by
    decide +kernel
  obtain ⟨⟨S₀, os₀⟩, hS₀, hp⟩ := Option.any_eq_true _ _ |>.1 hexec
  simp only [Bool.and_eq_true, decide_eq_true_eq] at hp
  obtain ⟨⟨⟨hbook, hgone⟩, hmore⟩, hq⟩ := hp
  obtain ⟨⟨S, os⟩, hS, hr⟩ := Option.any_eq_true _ _ |>.1 hq
  obtain ⟨⟨S', o⟩, hS', ht⟩ := Option.any_eq_true _ _ |>.1 hr
  simp only [Bool.and_eq_true, decide_eq_true_eq] at ht
  -- only the connections 0 and 1 are used, so the new uuid is fresh
  have hbelow : ∀ {S S' : Sys ℕ} {os : List (Obs ℕ)}, S.Below 2 →
      Lts.Run (Lts.Guarded (Sys.step stub) (Sys.OrdinaryBelow 2)) S S' os → S'.Below 2 := by
    intro S S' os hS hrun
    refine hrun.inv (I := fun S _ => S.Below 2) hS ?_
    rintro S S' os o - hS ⟨a, hstep, hok⟩
    exact step_below stub hS hok.2.1.1 hstep
  have hb₀ := hbelow (fun _ _ => rfl) (Lts.exec_run hS₀ halong)
  have hb := hbelow hb₀ ((Lts.exec_run hS hmore).guard fun h => h.1)
  have hrun₀ := Lts.exec_run hS₀ (halong.imp (I := Sys.Below 2)
    (fun hS h => step_below stub hS h.2.1.1) (fun hS h => h.ordinary hS) fun _ _ => rfl)
  have hrun := Lts.exec_run hS (hmore.imp (I := Sys.Below 2)
    (fun hS h => step_below stub hS h.1.2.1.1) (fun hS h => h.unlike hS) hb₀)
  exact ⟨S, S', o, stale_name_stays stub hrun₀ ⟨hbook, hgone⟩ hrun hS' (ht.1.unlike hb), ht.2⟩

end Pipebomb
