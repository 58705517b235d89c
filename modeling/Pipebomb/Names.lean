/-
  Names stay with the session that registered them.

  * `Office.Agrees`: every name of a session is in the address book under it, once; every
    possible effect keeps it.
  * `Effect.Releases`: the effects that take a name from a session, its own UNREGISTER and
    its own end.  All other effects leave the name with it (`Owns.apply`).
  * `name_kept`: from a REGISTER to the first such effect WHOHAS finds the session, and
    REGISTER and UNREGISTER of the name are refused to the others.
-/
import Pipebomb.Office
import Pipebomb.Sessions

namespace Pipebomb

open ByteString

/-! ## Names in the office -/

/-- Every name of a session is in the book under it, and once in its list. -/
def Office.Agrees (O : Office) : Prop :=
  ∀ u b, O.boxes u = some b → b.names.Nodup ∧ ∀ name ∈ b.names, O.book name = some u

/-- The session has the name. -/
def Office.Owns (O : Office) (u name : PyStr) : Prop :=
  ∃ b, O.boxes u = some b ∧ name ∈ b.names

/-- The session gives the name back, or ends. -/
def Effect.Releases (u name : PyStr) : Effect → Prop
  | .unregister u' name' => u' = u ∧ name' = name
  | .leave u' _ => u' = u
  | _ => False

instance (u name : PyStr) (e : Effect) : Decidable (e.Releases u name) := by
  cases e <;> unfold Effect.Releases <;> infer_instance

section
variable {O : Office} {e : Effect} {u name : PyStr}

theorem Office.Agrees.book (h : O.Agrees) (ho : O.Owns u name) : O.book name = some u := by
  obtain ⟨b, hb, hname⟩ := ho
  exact (h u b hb).2 name hname

/-- Changing a box in other respects than its names. -/
theorem Office.Agrees.modifyBox (h : O.Agrees) (u : PyStr) (f : Box → Box)
    (hf : ∀ b, (f b).names = b.names) : (O.modifyBox u f).Agrees := by
  intro u' b hb
  by_cases hu : u' = u
  · subst hu
    rw [Office.modifyBox_boxes_self] at hb
    obtain ⟨b', hb', rfl⟩ := Option.map_eq_some_iff.1 hb
    rw [hf]
    exact h u' b' hb'
  · rw [Office.modifyBox_boxes_ne _ hu] at hb
    exact h u' b hb

/-- **Every possible effect keeps book and lists in agreement.** -/
theorem Office.Agrees.apply (h : O.Agrees) (hv : e.Valid O) : (O.apply e).Agrees := by
  cases e with
  | kv op => exact h
  | put u q => exact h.modifyBox u (Box.put q) fun _ => rfl
  | take u => exact h.modifyBox u Box.take fun _ => rfl
  | write u p => exact h.modifyBox u (Box.write p) fun _ => rfl
  | consume u id => exact h.modifyBox u (Box.consume id) fun _ => rfl
  | register u name =>
    intro u' b hb
    have hnew : ∀ u' b, O.boxes u' = some b → name ∉ b.names := by
      intro u' b hb hname
      have := (h u' b hb).2 name hname
      rw [hv.1] at this
      cases this
    by_cases hu : u' = u
    · subst hu
      have hb : (O.modifyBox u' (Box.own name)).boxes u' = some b := hb
      rw [Office.modifyBox_boxes_self] at hb
      obtain ⟨b', hb', rfl⟩ := Option.map_eq_some_iff.1 hb
      obtain ⟨hnodup, hbook⟩ := h u' b' hb'
      refine ⟨?_, fun n hn => ?_⟩
      · refine List.nodup_append.2 ⟨hnodup, List.nodup_singleton _, fun a ha b hb => ?_⟩
        rintro rfl
        rw [List.mem_singleton.1 hb] at ha
        exact hnew u' b' hb' ha
      · have hn : n ∈ b'.names ++ [name] := hn
        rcases List.mem_append.1 hn with hold | hown
        · have hne : n ≠ name := by
            rintro rfl
            exact hnew u' b' hb' hold
          simp only [Office.apply, Office.setBook, Function.update_of_ne hne]
          exact hbook n hold
        · rw [List.mem_singleton.1 hown]
          exact Function.update_self ..
    · simp only [Office.apply, Office.setBook, Office.modifyBox, Function.update_of_ne hu] at hb
      refine ⟨(h u' b hb).1, fun n hn => ?_⟩
      have hne : n ≠ name := by
        rintro rfl
        exact hnew u' b hb hn
      simp only [Office.apply, Office.setBook, Function.update_of_ne hne]
      exact (h u' b hb).2 n hn
  | unregister u name =>
    obtain ⟨b₀, hb₀, hname⟩ := hv
    obtain ⟨hnodup₀, hbook₀⟩ := h u b₀ hb₀
    intro u' b hb
    by_cases hu : u' = u
    · subst hu
      obtain rfl : b₀.disown name = b := by
        simpa [Office.apply, Office.modifyBox, Office.setBook, hb₀] using hb
      refine ⟨hnodup₀.erase _, fun n hn => ?_⟩
      obtain ⟨hne, hn⟩ := hnodup₀.mem_erase_iff.1 hn
      simp only [Office.apply, Office.setBook, Function.update_of_ne hne]
      exact hbook₀ n hn
    · simp only [Office.apply, Office.setBook, Office.modifyBox, Function.update_of_ne hu] at hb
      refine ⟨(h u' b hb).1, fun n hn => ?_⟩
      have hne : n ≠ name := by
        rintro rfl
        exact hu (Option.some.inj (((h u' b hb).2 _ hn).symm.trans (hbook₀ _ hname)))
      simp only [Office.apply, Office.setBook, Function.update_of_ne hne]
      exact (h u' b hb).2 n hn
  | login u =>
    intro u' b hb
    by_cases hu : u' = u
    · subst hu
      obtain rfl : Box.empty = b := by simpa [Office.apply] using hb
      exact ⟨List.nodup_nil, fun _ hn => by cases hn⟩
    · simp only [Office.apply, Function.update_of_ne hu] at hb
      exact h u' b hb
  | leave u name =>
    intro u' b hb
    have hu : u' ≠ u := by
      rintro rfl
      simp [Office.apply] at hb
    simp only [Office.apply, Function.update_of_ne hu] at hb
    refine ⟨(h u' b hb).1, fun n hn => ?_⟩
    cases name with
    | none => exact (h u' b hb).2 n hn
    | some name =>
      have hne : n ≠ name := by
        rintro rfl
        exact hu (Option.some.inj (((h u' b hb).2 _ hn).symm.trans (hv n rfl)))
      simp only [Office.apply, Function.update_of_ne hne]
      exact (h u' b hb).2 n hn

theorem Office.Owns.modifyBox (ho : O.Owns u name) (u' : PyStr) (f : Box → Box)
    (hf : ∀ b, name ∈ b.names → u' = u → name ∈ (f b).names) : (O.modifyBox u' f).Owns u name := by
  obtain ⟨b, hb, hname⟩ := ho
  by_cases hu : u' = u
  · subst hu
    exact ⟨f b, by rw [Office.modifyBox_boxes_self, hb]; rfl, hf b hname rfl⟩
  · exact ⟨b, by rw [Office.modifyBox_boxes_ne _ (Ne.symm hu)]; exact hb, hname⟩

/-- **A name stays with its session**, unless the session releases it or logs in anew. -/
theorem Office.Owns.apply (ho : O.Owns u name) (hr : ¬ e.Releases u name) (hl : e ≠ .login u) :
    (O.apply e).Owns u name := by
  cases e with
  | kv op => exact ho
  | put u' q => exact ho.modifyBox u' (Box.put q) fun _ h _ => h
  | take u' => exact ho.modifyBox u' Box.take fun _ h _ => h
  | write u' p => exact ho.modifyBox u' (Box.write p) fun _ h _ => h
  | consume u' id => exact ho.modifyBox u' (Box.consume id) fun _ h _ => h
  | register u' name' => exact ho.modifyBox u' (Box.own name') fun _ h _ => List.mem_append_left _ h
  | unregister u' name' =>
    refine ho.modifyBox u' (Box.disown name') fun b h hu => ?_
    have hne : name ≠ name' := fun hn => hr ⟨hu, hn.symm⟩
    exact (List.mem_erase_of_ne hne).2 h
  | login u' =>
    obtain ⟨b, hb, hname⟩ := ho
    have hu : u ≠ u' := fun hu => hl (hu ▸ rfl)
    exact ⟨b, by simp only [Office.apply, Function.update_of_ne hu]; exact hb, hname⟩
  | leave u' name' =>
    obtain ⟨b, hb, hname⟩ := ho
    have hu : u ≠ u' := fun hu => hr hu.symm
    exact ⟨b, by simp only [Office.apply, Function.update_of_ne hu]; exact hb, hname⟩

end

/-! ## Names in a run -/

/-- The text of a uuid. -/
def IsUuid (u : PyStr) : Prop := u.length = 36 ∧ Latin1 u

instance (u : PyStr) : Decidable (IsUuid u) := inferInstanceAs (Decidable (_ ∧ _))

variable {K : Type} (L : Libs K)

/-- Logins and requests only; a new session has a fresh uuid. -/
def Sys.Ordinary (S : Sys K) (a : Act) (o : List (Obs K)) : Prop :=
  a.Wire ∧ ∀ c u, .session c u ∈ o → S.Fresh u ∧ IsUuid u

/-- The payload is the command about the name. -/
def Asks (cmd : Command) (name : PyStr) (data : Bytes) : Prop :=
  ∃ type_ value, data = type_ :: value ∧ command type_ = cmd ∧ latin1Decode value = name

/-- The handler of the connection accepts the payload in the step. -/
def Sys.Accepts (S : Sys K) (a : Act) (o : List (Obs K)) (c : ConnId) (h : Handler)
    (data : Bytes) : Prop :=
  (∃ i draw, a = .resume c i draw) ∧ S.tasks c = .handler h ∧ .accepted (.server c) data ∈ o

/-- The reply to the payload is sent, or the session has used up all nonces. -/
def Sys.Replies (S : Sys K) (o : List (Obs K)) (c : ConnId) (h : Handler) (data reply : Bytes) :
    Prop :=
  .answered c h.uuid data reply ∈ o ∨ ∃ cl, S.server.client h.uuid = some cl ∧ 2 ^ 96 ≤ cl.txNonce

/-- In the step the name stays with the session `u`. -/
structure NameKept (S S' : Sys K) (a : Act) (o : List (Obs K)) (u name : PyStr) : Prop where
  /-- WHOHAS finds the session -/
  resolves : ∀ c h data, S.Accepts a o c h data → Asks .whohas name data →
    S.Replies o c h data (latin1 u)
  /-- REGISTER and UNREGISTER of the others are refused and change nothing -/
  refused : ∀ c h data, S.Accepts a o c h data → h.uuid ≠ u →
    Asks .register name data ∨ Asks .unregister name data →
      S.Replies o c h data [0, 69, 82, 82, 5] ∧
        (∀ k, S'.server.addressBook.get? k = S.server.addressBook.get? k) ∧
          ∀ u', S'.server.names u' = S.server.names u'
  /-- the session keeps the name, unless it releases it -/
  kept : (∀ e ∈ S.effect a o, ¬ e.Releases u name) →
    S'.server.addressBook.get? name = some u ∧ name ∈ S'.server.names u

section
variable {S S' : Sys K} {a : Act} {o os : List (Obs K)} {c : ConnId} {h : Handler} {data : Bytes}
  {u name : PyStr} {s : Server K}

/-- The invariant of runs of logins and requests. -/
structure Sys.Named (S : Sys K) : Prop where
  sound : S.Sound
  agrees : S.server.office.Agrees
  uuids : ∀ u ∈ S.server.clientDb, IsUuid u

theorem named_init (password : Bytes) (keep : Bool) : (Sys.init password keep : Sys K).Named :=
  ⟨sound_init _ _, fun _ _ hb => (by cases hb), fun _ hu => absurd hu (Dict.not_mem_empty _)⟩

/-- A session that is new logged in. -/
theorem boxes_apply {O : Office} {e : Effect} (hu : (O.apply e).boxes u ≠ none) :
    O.boxes u ≠ none ∨ e = .login u := by
  have hmodify : ∀ (u' : PyStr) (f : Box → Box), (O.modifyBox u' f).boxes u ≠ none →
      O.boxes u ≠ none := by
    intro u' f hne hu
    refine hne ?_
    by_cases he : u = u'
    · subst he; rw [Office.modifyBox_boxes_self, hu]; rfl
    · rw [Office.modifyBox_boxes_ne _ he, hu]
  cases e with
  | kv op => exact .inl hu
  | register u' n => exact .inl (hmodify u' (Box.own n) hu)
  | unregister u' n => exact .inl (hmodify u' (Box.disown n) hu)
  | put u' q => exact .inl (hmodify u' (Box.put q) hu)
  | take u' => exact .inl (hmodify u' Box.take hu)
  | write u' p => exact .inl (hmodify u' (Box.write p) hu)
  | consume u' id => exact .inl (hmodify u' (Box.consume id) hu)
  | login u' =>
    by_cases he : u' = u
    · exact .inr (he ▸ rfl)
    · refine .inl ?_
      simpa only [Office.apply, Function.update_of_ne (Ne.symm he)] using hu
  | leave u' n =>
    refine .inl ?_
    by_cases he : u = u'
    · subst he
      simp [Office.apply] at hu
    · simpa only [Office.apply, Function.update_of_ne he] using hu

/-- A request is no login. -/
theorem Handler.effect_ne_login (h : Handler) {i : Input} {draw : Uuid4} {data? : Option Bytes}
    (u : PyStr) : h.effect s i draw data? ≠ some (.login u) := by
  intro he
  rcases Handler.effect_cases he with ⟨_, _, -, -, h⟩ | ⟨_, h⟩ | ⟨_, _, h⟩ | ⟨_, _, h⟩ | ⟨_, _, h⟩ | ⟨data, he⟩
  · cases h
  · cases h
  · cases h
  · cases h
  · cases h
  · rcases payloadEffect_cases he with ⟨_, h⟩ | ⟨_, h⟩ | ⟨_, _, h⟩ | ⟨_, h⟩
    · cases h
    · cases h
    · cases h
    · cases h

theorem effect_login (he : S.effect a o = some (.login u)) : ∃ c, .session c u ∈ o := by
  unfold Sys.effect at he
  split at he
  · split at he
    · rename_i h _
      exact absurd he (h.effect_ne_login u)
    · obtain ⟨u', hu, hl⟩ := Option.map_eq_some_iff.1 he
      cases hl
      obtain ⟨x, hx, hx'⟩ := List.exists_of_findSome?_eq_some hu
      cases x <;> simp at hx'
      rename_i c u''
      subst hx'
      exact ⟨c, hx⟩
    · cases he
  · cases he

theorem step_named (hN : S.Named) (hstep : S.step L a = some (S', o)) (hok : S.Ordinary a o) :
    S'.Named := by
  have hoffice := step_office L hN.sound.refs (step_step L hN.sound.tidy hstep).1 hok.1
  refine ⟨step_sound L hN.sound hstep, ?_, fun u hu => ?_⟩
  · rw [hoffice]
    rcases he : S.effect a o with _ | e
    · exact hN.agrees
    · exact hN.agrees.apply (effect_valid he)
  · rw [← boxes_ne_none, hoffice] at hu
    rcases he : S.effect a o with _ | e
    · rw [he] at hu
      exact hN.uuids u (boxes_ne_none.1 hu)
    · rw [he] at hu
      rcases boxes_apply hu with hu | rfl
      · exact hN.uuids u (boxes_ne_none.1 hu)
      · obtain ⟨c, hc⟩ := effect_login he
        exact (hok.2 c u hc).2

theorem run_named {password : Bytes} {keep : Bool}
    (hrun : Lts.Run (Lts.Guarded (Sys.step L) Sys.Ordinary) (.init password keep) S os) : S.Named :=
  hrun.inv (I := fun S _ => S.Named) (named_init _ _) fun _ hN ⟨_, hstep, hok⟩ =>
    step_named L hN hstep hok

theorem owns_iff (S : Sys K) : S.server.office.Owns u name ↔ name ∈ S.server.names u := by
  constructor
  · rintro ⟨b, hb, hname⟩
    rw [office_boxes] at hb
    obtain ⟨cl, hcl, rfl⟩ := Option.map_eq_some_iff.1 hb
    rw [Server.names, hcl]
    exact hname
  · exact names_boxes

/-- Any other step leaves the name with its session. -/
theorem step_owns (hN : S.Named) (ho : S.server.office.Owns u name)
    (hstep : S.step L a = some (S', o)) (hok : S.Ordinary a o)
    (hr : ∀ e ∈ S.effect a o, ¬ e.Releases u name) : S'.server.office.Owns u name := by
  rw [step_office L hN.sound.refs (step_step L hN.sound.tidy hstep).1 hok.1]
  rcases he : S.effect a o with _ | e
  · exact ho
  · refine ho.apply (hr e he) ?_
    -- the session exists, so a login with its uuid would not be fresh
    rintro rfl
    obtain ⟨c, hc⟩ := effect_login he
    obtain ⟨b, hb, -⟩ := ho
    refine (hok.2 c u hc).1.1 (boxes_ne_none.1 ?_)
    rw [hb]
    exact Option.some_ne_none b

/-- A payload without effect. -/
theorem office_accepted (hS : S.Sound) (hstep : S.step L a = some (S', o)) (ha : a.Wire)
    (hacc : S.Accepts a o c h data)
    (heff : ∀ draw, payloadEffect S.server h.uuid data draw = none) :
    S'.server.office = S.server.office := by
  obtain ⟨⟨i, draw, rfl⟩, ht, hd⟩ := hacc
  have hst := (step_step L hS.tidy hstep).1
  rw [step_office L hS.refs hst ha]
  cases hst with
  | join ht' => rw [ht] at ht'; cases ht'
  | move ht' hm =>
    rw [ht] at ht'
    cases ht'
    simp only [Sys.effect, ht]
    rw [hm.effect_accepted L hd, heff]
    rfl

/-- A payload whose reply is known. -/
theorem replies_accepted (hS : S.Sound) (hstep : S.step L a = some (S', o))
    (hacc : S.Accepts a o c h data) {reply : Bytes}
    (hr : ∀ r draw, S.server.clientDb.get? h.uuid = some r →
      (dispatch (S.server.modify r Client.received) h.uuid data draw).2 = .reply reply)
    (hlen : 0 < reply.length ∧ reply.length ≤ 36) : S.Replies o c h data reply := by
  obtain ⟨⟨i, draw, rfl⟩, ht, hd⟩ := hacc
  cases (step_step L hS.tidy hstep).1 with
  | join ht' => rw [ht] at ht'; cases ht'
  | move ht' hm =>
    rw [ht] at ht'
    cases ht'
    exact hm.replies L hd (fun r hu => hr r draw hu) (List.ne_nil_of_length_pos hlen.1)
      (fits_of_length L (by omega))

/-- **One step.** -/
theorem step_kept (hN : S.Named) (ho : S.server.office.Owns u name)
    (hstep : S.step L a = some (S', o)) (hok : S.Ordinary a o) : NameKept S S' a o u name := by
  have hbook : S.server.addressBook.get? name = some u := hN.agrees.book ho
  have hmem : name ∈ S.server.addressBook := Dict.mem_of_get? hbook
  have huuid : IsUuid u := by
    obtain ⟨b, hb, -⟩ := ho
    refine hN.uuids u (boxes_ne_none.1 ?_)
    rw [hb]
    exact Option.some_ne_none b
  refine ⟨fun c h data hacc hask => ?_, fun c h data hacc hne hask => ?_, fun hr => ?_⟩
  · obtain ⟨type_, value, rfl, hcmd, rfl⟩ := hask
    refine replies_accepted L hN.sound hstep hacc (fun r draw hu => ?_) ?_
    · simp only [dispatch, hcmd, whohas, Server.modify_addressBook, hbook,
        latin1Encode_eq huuid.2]
      rfl
    · rw [length_latin1, huuid.1]
      decide
  · have hnot : name ∉ S.server.names h.uuid := fun hn =>
      hne (Option.some.inj ((hN.agrees.book (owns_iff S |>.2 hn)).symm.trans hbook))
    have heff : ∀ draw, payloadEffect S.server h.uuid data draw = none := by
      intro draw
      rcases hask with ⟨type_, value, rfl, hcmd, rfl⟩ | ⟨type_, value, rfl, hcmd, rfl⟩
      · simp only [payloadEffect, hcmd, if_pos (Or.inl hmem)]
      · simp only [payloadEffect, hcmd, if_neg hnot]
    have hoffice := office_accepted L hN.sound hstep hok.1 hacc heff
    refine ⟨replies_accepted L hN.sound hstep hacc (fun r draw hu => ?_) (by decide), fun k => ?_,
      fun u' => ?_⟩
    · rcases hask with ⟨type_, value, rfl, hcmd, rfl⟩ | ⟨type_, value, rfl, hcmd, rfl⟩
      · have hmem' : latin1Decode value ∈ (S.server.modify r Client.received).addressBook := hmem
        simp only [dispatch, hcmd, register]
        rw [if_pos hmem']
        rfl
      · have hlist : latin1Decode value ∉ (S.server.objs r).received.addressesOwned := by
          simpa [Server.names, Server.client, hu, Client.received] using hnot
        simp only [dispatch, hcmd, unregister, Server.modify_clientDb, hu, Server.modify_objs_self]
        rw [if_pos hlist]
        rfl
    · exact congrFun (congrArg Office.book hoffice) k
    · rw [names_office, names_office, hoffice]
  · have howns := step_owns L hN ho hstep hok hr
    exact ⟨(step_named L hN hstep hok).agrees.book howns, owns_iff S' |>.1 howns⟩

/-- **Names stay with their session.**  After a REGISTER took effect, and as long as the
    session does not release the name and does not end: WHOHAS finds the session, REGISTER
    and UNREGISTER of the name by other sessions are refused and change nothing, and no
    step takes the name from the session but its own UNREGISTER or its own end. -/
theorem name_kept {password : Bytes} {keep : Bool} {S₀ S₁ : Sys K} {a₁ : Act}
    {os₀ o₁ : List (Obs K)}
    (h₀ : Lts.Run (Lts.Guarded (Sys.step L) Sys.Ordinary) (.init password keep) S₀ os₀)
    (h₁ : S₀.step L a₁ = some (S₁, o₁)) (hok₁ : S₀.Ordinary a₁ o₁)
    (hreg : S₀.effect a₁ o₁ = some (.register u name))
    (hrun : Lts.Run (Lts.Guarded (Sys.step L) fun S a o =>
      S.Ordinary a o ∧ ∀ e ∈ S.effect a o, ¬ e.Releases u name) S₁ S os)
    (hstep : S.step L a = some (S', o)) (hok : S.Ordinary a o) : NameKept S S' a o u name := by
  have hN₀ := run_named L h₀
  have ho₁ : S₁.server.office.Owns u name := by
    rw [step_office L hN₀.sound.refs (step_step L hN₀.sound.tidy h₁).1 hok₁.1, hreg]
    obtain ⟨b, hb⟩ := Option.ne_none_iff_exists'.1 (effect_valid hreg).2
    refine ⟨b.own name, ?_, by simp [Box.own]⟩
    change (S₀.server.office.modifyBox u (Box.own name)).boxes u = _
    rw [Office.modifyBox_boxes_self, hb]
    rfl
  obtain ⟨hN, ho⟩ := hrun.inv (I := fun S _ => S.Named ∧ S.server.office.Owns u name)
    ⟨step_named L hN₀ h₁ hok₁, ho₁⟩ fun _ ⟨hN, ho⟩ ⟨_, hstep, hok, hr⟩ =>
      ⟨step_named L hN hstep hok, step_owns L hN ho hstep hok hr⟩
  exact step_kept L hN ho hstep hok

end

/-! ## A run on fixed inputs -/

instance (a : Act) : Decidable a.Wire := by
  cases a <;> unfold Act.Wire <;> infer_instance

/-- `Ordinary` for actions on connections below `n`. -/
def Sys.OrdinaryBelow (n : ℕ) (S : Sys K) (a : Act) (o : List (Obs K)) : Prop :=
  a.Wire ∧ S.ExclusiveBelow n false a o ∧ ∀ x ∈ o, ∀ u ∈ loginUuid false x, IsUuid u

instance (n : ℕ) (S : Sys K) (a : Act) (o : List (Obs K)) : Decidable (S.OrdinaryBelow n a o) :=
  inferInstanceAs (Decidable (_ ∧ _ ∧ _))

theorem Sys.OrdinaryBelow.ordinary {n : ℕ} {S : Sys K} {a : Act} {o : List (Obs K)}
    (hS : S.Below n) (h : S.OrdinaryBelow n a o) : S.Ordinary a o :=
  ⟨h.1, fun c u hm => ⟨h.2.1.fresh hS c u hm, h.2.2 _ hm u rfl⟩⟩

def otherUuid : PyStr := List.replicate 36 'b'

/-- The steps of a connection with the uuid that it draws. -/
def drawing (draw : Uuid4) (c : ConnId) (is : List Input) : List Act :=
  is.map fun i => .resume c i draw

/-- The steps of a login that draws the other uuid. -/
def otherLogin (c : ConnId) : List Act :=
  .connect c :: drawing ⟨otherUuid, List.replicate 16 8⟩ c [.recv stubClientPublic, .sent,
    .recv (stubPacket c 0 [0]), .sent, .recv (stubPacket c 1 [0xC5]), .sent, .go, .go]

/-- Connections 0 and 1 log in. -/
def twoLogins : List Act := loginActs 0 [0xC5] ++ otherLogin 1

/-- Connection 0 registers `k`. -/
def registerAct : Act := .resume 0 (.recv (stubPacket 0 2 [0x85, 107])) sampleDraw

/-- Connection 1 asks who has `k`. -/
def whohasAct : Act := .resume 1 (.recv (stubPacket 1 3 [0x1, 107])) sampleDraw

/-- Connection 0 registers `k`, 1 tries to register it too and asks who has it. -/
theorem name_kept_sample : ∃ (S S' : Sys ℕ) (o : List (Obs ℕ)),
    NameKept S S' whohasAct o sampleUuid ['k'] ∧
      .answered 1 otherUuid [0x1, 107] (latin1 sampleUuid) ∈ o := by
  have hexec : ((Lts.exec (Sys.step stub) twoLogins (Sys.init [] false)).any fun x =>
      (x.1.step stub registerAct).any fun y =>
        (x.1.OrdinaryBelow 2 registerAct y.2 : Bool) &&
        (x.1.effect registerAct y.2 = some (.register sampleUuid ['k']) : Bool) &&
        (Lts.Along (Sys.step stub) (fun S a o => S.OrdinaryBelow 2 a o ∧
          ∀ e ∈ S.effect a o, ¬ e.Releases sampleUuid ['k'])
          (drawing sampleDraw 1 [.recv (stubPacket 1 2 [0x85, 107]), .sent, .go]) y.1 : Bool) &&
        (Lts.exec (Sys.step stub)
          (drawing sampleDraw 1 [.recv (stubPacket 1 2 [0x85, 107]), .sent, .go]) y.1).any fun z =>
            (z.1.step stub whohasAct).any fun w =>
              (z.1.OrdinaryBelow 2 whohasAct w.2 : Bool) &&
              (.answered 1 otherUuid [0x1, 107] (latin1 sampleUuid) ∈ w.2 : Bool)) = true := by
    decide +kernel
  have halong : Lts.Along (Sys.step stub) (Sys.OrdinaryBelow 2) twoLogins (Sys.init [] false) := by
    decide +kernel
  obtain ⟨⟨S₀, os₀⟩, hS₀, hp⟩ := Option.any_eq_true _ _ |>.1 hexec
  obtain ⟨⟨S₁, o₁⟩, hS₁, hq⟩ := Option.any_eq_true _ _ |>.1 hp
  simp only [Bool.and_eq_true, decide_eq_true_eq] at hq
  obtain ⟨⟨⟨hok₁, hreg⟩, hmid⟩, hrest⟩ := hq
  obtain ⟨⟨S, os⟩, hS, hr⟩ := Option.any_eq_true _ _ |>.1 hrest
  obtain ⟨⟨S', o⟩, hS', ht⟩ := Option.any_eq_true _ _ |>.1 hr
  simp only [Bool.and_eq_true, decide_eq_true_eq] at ht
  -- only the connections 0 and 1 are used, so the new uuid is fresh
  have hbelow : ∀ {S S' : Sys ℕ} {os : List (Obs ℕ)}, S.Below 2 →
      Lts.Run (Lts.Guarded (Sys.step stub) (Sys.OrdinaryBelow 2)) S S' os → S'.Below 2 :=
    fun hS hrun => hrun.inv (I := fun S _ => S.Below 2) hS fun _ hS ⟨_, hstep, hok⟩ =>
      step_below stub hS hok.2.1.1 hstep
  have hb₀ := hbelow (fun _ _ => rfl) (Lts.exec_run hS₀ halong)
  have hb₁ := step_below stub hb₀ hok₁.2.1.1 hS₁
  have hb := hbelow hb₁ ((Lts.exec_run hS hmid).guard fun h => h.1)
  have hrun₀ := Lts.exec_run hS₀ (halong.imp (I := Sys.Below 2)
    (fun hS h => step_below stub hS h.2.1.1) (fun hS h => h.ordinary hS) fun _ _ => rfl)
  have hrun := Lts.exec_run hS (hmid.imp (I := Sys.Below 2)
    (fun hS h => step_below stub hS h.1.2.1.1) (fun hS h => And.intro (h.1.ordinary hS) h.2) hb₁)
  exact ⟨S, S', o, name_kept stub hrun₀ hS₁ (hok₁.ordinary hb₀) hreg hrun hS' (ht.1.ordinary hb),
    ht.2⟩

end Pipebomb
