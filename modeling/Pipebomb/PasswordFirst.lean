/-
  Nothing is served without the password.

  * `Obs.Behind`: what a connection gets from the server behind the check of the password: it
    is all but the public key.  `Task.Past`: the coroutine of the connection is behind it.
  * `acceptStep_outer`: a step of a handshake that is not behind the check changes nothing of the
    server, and what is seen of it comes after the password.
  * `password_first`: in every run the password of the server arrived on a connection and
    verified, before anything is served on it.
-/
import Pipebomb.Sound
import Pipebomb.Stub

namespace Pipebomb

open ByteString

variable {K : Type} (L : Libs K)

/-- The password arrived on the connection and verified. -/
def Authenticated (password : Bytes) (c : ConnId) (os : List (Obs K)) : Prop :=
  .accepted (.server c) (0 :: password) ∈ os

/-- What happens on the connection only behind the check of the password. -/
def Obs.Behind (password : Bytes) (c : ConnId) : Obs K → Prop
  | .encrypt p _ _ _ => p = .server c
  | .write p bs => p = .server c ∧ bs ≠ L.serverPublic c
  | .accepted p data => p = .server c ∧ data ≠ 0 :: password
  | .answered c' _ _ _ | .session c' _ | .relogin c' _ => c' = c
  | _ => False

/-- The coroutine is behind the check. -/
def Task.Past : Task (Accepting K) → Prop
  | .accept (.publicKey _) | .accept (.sendPublic _) | .accept (.password _ _) => False
  | .accept _ | .handler _ => True
  | _ => False

/-- Everything behind the check comes after the password. -/
def PasswordFirst (password : Bytes) (before : List (Obs K)) (x : Obs K) : Prop :=
  ∀ c, x.Behind L password c → Authenticated password c before

section
variable {s : Server K} {c c' : ConnId} {t : Task (Accepting K)} {a : Accepting K} {i : Input} {draw : Uuid4}
  {out : Outcome K (Accepting K)} {os o before : List (Obs K)} {password : Bytes} {x : Obs K}

theorem Obs.By.behind {uses : Option PyStr} (hx : x.By c uses) (h : x.Behind L password c') : c' = c := by
  cases x with
  | encrypt p k n data => have hp : p = .server c' := h; rw [hx] at hp; cases hp; rfl
  | write p bs => have hp : p = .server c' := h.1; rw [hx] at hp; cases hp; rfl
  | accepted p data => have hp : p = .server c' := h.1; rw [hx] at hp; cases hp; rfl
  | answered c₁ u data reply => exact h.symm.trans hx.1
  | session c₁ u => exact h.symm.trans hx.1
  | relogin c₁ u => exact h.symm.trans hx.1
  | _ => exact h.elim

/-- Behind the check every step may be seen. -/
theorem AllBy.passwordFirst {uses : Option PyStr} (hby : AllBy c uses o) (h : Authenticated password c os) :
    Lts.Each (fun before => PasswordFirst L password (os ++ before)) o := by
  refine Lts.each_of_all fun before x hx c' hc' => ?_
  rw [(hby x hx).behind L hc']
  exact List.mem_append_left _ h

theorem decryptCall_passwordFirst (c : ConnId) (password packet : Bytes) (cipher : Option K) (n : ℕ) :
    Lts.Each (PasswordFirst L password) (decryptCall (.server c) packet cipher n) := by
  refine Lts.each_of_all fun before x hx c' hc' => ?_
  unfold decryptCall at hx
  split at hx
  · split_ifs at hx
    · rw [List.mem_singleton] at hx
      subst hx
      exact hc'.elim
    · cases hx
  · cases hx

/-- What a step in front of the check does. -/
structure Outer (password : Bytes) (c : ConnId) (s : Server K) (out : Outcome K (Accepting K)) : Prop where
  server : out.1 = s
  seen : Lts.Each (PasswordFirst L password) out.2.2
  past : out.2.1.Past → Authenticated password c out.2.2

theorem Outer.silent {t : Task (Accepting K)} (ht : ¬ t.Past) : Outer L password c s (s, t, []) :=
  ⟨rfl, .nil, fun h => absurd h ht⟩

/-- The packet with the password arrives. -/
theorem onPassword_outer (l : Locals K) (frame : Bytes) :
    Outer L s.password c s (onPassword L s c l frame) := by
  have hdec := decryptCall_passwordFirst L c s.password frame (some l.cipher) l.rxNonce
  unfold onPassword
  rcases verifyPacket L frame (some l.cipher) l.rxNonce with e | n | ⟨data, rem⟩
  · exact ⟨rfl, hdec.append .nil, fun h => h.elim⟩
  · exact ⟨rfl, hdec.append .nil, fun h => h.elim⟩
  · simp only
    split_ifs with hp
    · exact ⟨rfl, hdec.append .nil, fun h => h.elim⟩
    · rw [not_not] at hp
      subst hp
      have hmem : ∀ os : List (Obs K), Authenticated s.password c
          (decryptCall (.server c) frame (some l.cipher) l.rxNonce ++
            ([.accepted (.server c) (0 :: s.password)] ++ os)) := by
        intro os
        simp [Authenticated]
      refine ⟨sendHandshake_server L _ _ _ _ _, ?_, fun _ => hmem _⟩
      simp only [seen]
      rw [← List.append_assoc]
      refine (hdec.append (.single ?_)).append ?_
      · rintro c' ⟨-, hne⟩
        exact absurd rfl hne
      · refine AllBy.passwordFirst L (show AllBy c none _ from sendHandshake_obs L _ _ _) ?_
        simp [Authenticated]

theorem onChunk_outer {buffer chunk : Bytes} {waiting : Bytes → Accepting K}
    {frame : Bytes → Outcome K (Accepting K)} (hw : ∀ rest, ¬ (Task.accept (waiting rest)).Past)
    (hf : ∀ f, Outer L password c s (frame f)) : Outer L password c s (onChunk s buffer chunk waiting frame) := by
  unfold onChunk
  split_ifs
  · exact .silent L id
  · split
    · exact .silent L id
    · exact hf _
    · exact .silent L (hw _)

/-- **A step in front of the check** changes nothing of the server. -/
theorem acceptStep_outer (ha : ¬ (Task.accept a).Past) (ho : acceptStep L s c a i draw = some out) :
    Outer L s.password c s out := by
  unfold acceptStep at ho
  split at ho
  · split_ifs at ho
    · cases ho; exact .silent L id
    · cases ho; exact .silent L id
    · cases ho
      refine ⟨rfl, Lts.Each.single ?_, fun h => h.elim⟩
      rintro c' ⟨hp, hne⟩
      cases hp
      exact absurd rfl hne
  · split at ho
    · cases ho; exact .silent L id
    · cases ho; exact .silent L id
  · split_ifs at ho
    cases ho
    exact onChunk_outer L (fun _ => id) fun f => onPassword_outer L _ f
  · exact absurd trivial ha
  · exact absurd trivial ha
  · exact absurd trivial ha
  · exact absurd trivial ha
  · cases ho; exact .silent L id
  · cases ho

end

/-! ## Runs -/

section
variable {s : Server K} {c : ConnId} {h : Handler} {i : Input} {draw : Uuid4}
  {out : Outcome K (Accepting K)}

theorem release_password (s : Server K) (held : Held) : (s.release held).password = s.password := by
  cases held <;> rfl

theorem dbOp_password (op : DbOp) (s : Server K) (value : Bytes) :
    (op.run s value).1.password = s.password := by
  cases op with
  | set => simp only [DbOp.run]; split <;> rfl
  | get => rfl
  | delete => simp only [DbOp.run]; split_ifs <;> rfl
  | list => rfl

theorem Sends.password {reply : Except PyErr Bytes} {held : Held} {after : After}
    (hs : Sends L s c h reply held after out) : out.1.password = s.password := by
  rcases hs.server with hs | hs
  · rw [hs]
  · rw [hs, release_password]

/-- No step changes the password. -/
theorem Move.password (hm : Move L s c h i draw out) : out.1.password = s.password := by
  cases hm with
  | still => rfl
  | refuse _ _ _ _ hs => exact hs.password
  | payload _ _ _ _ _ hp =>
    cases hp with
    | reply _ hs => exact hs.password.trans (dispatch_aside _ _ _ _).password
    | wait => exact (dispatch_aside _ _ _ _).password
    | raise => exact (dispatch_aside _ _ _ _).password
    | bye => exact ((dispatch_aside _ _ _ _).trans (teardown_aside _ _)).password
  | db _ _ _ hs => exact hs.password.trans (dbOp_password _ _ _)
  | inboxGet _ _ _ hs => exact hs.password
  | outboxPut _ _ _ hs => exact hs.password
  | outboxNone _ _ _ _ hs => exact hs.password
  | outboxGet _ _ _ _ hs => exact hs.password
  | sent => exact release_password _ _
  | close => exact (teardown_aside _ _).password.trans (release_password _ _)
  | die => exact release_password _ _

theorem step_password {S S' : Sys K} {a : Act} {o : List (Obs K)} (hS : S.Sound)
    (hstep : S.step L a = some (S', o)) : S'.server.password = S.server.password := by
  cases (step_step L hS.tidy hstep).1 with
  | connect => rfl
  | join _ hj => exact hj.aside.password
  | move _ hm => exact hm.password
  | admin => exact (admin_aside _ _).password

end

/-- What holds of a run: the coroutines behind the check belong to connections on which the
    password arrived. -/
structure Sys.Guarded (password : Bytes) (S : Sys K) (os : List (Obs K)) : Prop where
  same : S.server.password = password
  past : ∀ c, (S.tasks c).Past → Authenticated password c os
  seen : Lts.Each (PasswordFirst L password) os

section
variable {S S' : Sys K} {o os : List (Obs K)} {password : Bytes} {c : ConnId}

/-- One more step: what it changes, it changes for a connection on which the password
    arrived. -/
theorem Sys.Guarded.step (hG : S.Guarded L password os) (hS : S.Sound) {a : Act}
    (hstep : S.step L a = some (S', o)) : S'.Guarded L password (os ++ o) ∧
      ∀ c i draw, a = .resume c i draw → S'.server ≠ S.server → Authenticated password c os := by
  have hpw := step_password L hS hstep
  have hold : ∀ c, Authenticated password c os → Authenticated password c (os ++ o) :=
    fun c h => List.mem_append_left _ h
  have hput : ∀ {c : ConnId} {s : Server K} {t : Task (Accepting K)},
      (t.Past → Authenticated password c (os ++ o)) →
      ∀ c', ((S.put c s t).tasks c').Past → Authenticated password c' (os ++ o) := by
    intro c s t ht c' hc'
    by_cases hc : c' = c
    · subst hc
      rw [put_tasks_self] at hc'
      exact ht hc'
    · rw [put_tasks_ne hc] at hc'
      exact hold c' (hG.past c' hc')
  rcases step_cases L hstep with ⟨c, rfl, -, rfl, rfl⟩ | ⟨c, i, draw, s, t, rfl, ht, rfl⟩ |
    ⟨op, rfl, rfl, rfl⟩
  · exact ⟨⟨hpw.trans hG.same, hput fun h => h.elim, hG.seen.append .nil⟩,
      fun _ _ _ h => (by cases h)⟩
  · by_cases hauth : Authenticated password c os
    · refine ⟨⟨hpw.trans hG.same, hput fun _ => hold c hauth, hG.seen.append ?_⟩,
        fun c' i' draw' he _ => ?_⟩
      · exact (taskStep_obs L ht).passwordFirst L hauth
      · cases he
        exact hauth
    · -- the coroutine is in front of the check
      rcases htask : S.tasks c with _ | a | h | e
      · rw [htask] at ht; cases ht
      · rw [htask] at ht
        have hpast : ¬ (Task.accept a).Past := fun h => hauth (hG.past c (htask ▸ h))
        have hout := acceptStep_outer L hpast ht
        rw [hG.same] at hout
        refine ⟨⟨hpw.trans hG.same, hput fun h => List.mem_append_right _ (hout.past h),
          hG.seen.append (hout.seen.mono fun before x hx c' hc' =>
            List.mem_append_right _ (hx c' hc'))⟩, fun _ _ _ _ hne => absurd hout.server hne⟩
      · exact absurd (hG.past c (htask ▸ trivial)) hauth
      · rw [htask] at ht; cases ht
  · exact ⟨⟨hpw.trans hG.same, fun c h => hold c (hG.past c h), hG.seen.append .nil⟩,
      fun _ _ _ h => (by cases h)⟩

theorem guarded_init (password : Bytes) (keep : Bool) : (Sys.init password keep : Sys K).Guarded L password [] :=
  ⟨rfl, fun _ h => h.elim, .nil⟩

/-- **The password comes first.**  Whatever bytes arrive: on a connection the server encrypts,
    answers and accepts nothing, writes nothing but its public key and enters or attaches no
    session, before the password arrived on it and verified; and until then no step of the
    connection changes the server. -/
theorem password_first {keep : Bool} {xs : List (Lts.Shown (Sys K) Act (Obs K))}
    (hrun : Lts.Run (Lts.Guarded (Lts.shown (Sys.step L)) (Lts.Showing fun _ _ _ => True))
      (.init password keep) S xs) :
    Lts.Each (PasswordFirst L password) (xs.flatMap Lts.Shown.obs) ∧
      Lts.Each (fun before x => ∀ c i draw, x.act = .resume c i draw → x.after.server ≠ x.before.server →
        Authenticated password c (before.flatMap Lts.Shown.obs)) xs := by
  suffices h : S.Sound ∧ S.Guarded L password (xs.flatMap Lts.Shown.obs) ∧
      Lts.Each (fun before x => ∀ c i draw, x.act = .resume c i draw → x.after.server ≠ x.before.server →
        Authenticated password c (before.flatMap Lts.Shown.obs)) xs from ⟨h.2.1.seen, h.2.2⟩
  refine hrun.inv (I := fun S xs => S.Sound ∧ S.Guarded L password (xs.flatMap Lts.Shown.obs) ∧
    Lts.Each (fun before x => ∀ c i draw, x.act = .resume c i draw → x.after.server ≠ x.before.server →
      Authenticated password c (before.flatMap Lts.Shown.obs)) xs)
    ⟨sound_init _ _, guarded_init L _ _, .nil⟩ ?_
  rintro S S' xs new - ⟨hS, hG, hE⟩ ⟨a, hs, -⟩
  obtain ⟨o, hstep, rfl⟩ := Lts.shown_step hs
  obtain ⟨hG', hchange⟩ := hG.step L hS hstep
  refine ⟨step_sound L hS hstep, ?_, hE.snoc hchange⟩
  simpa using hG'

end

/-! ## A run on fixed inputs -/

/-- The steps of a login with a password. -/
def passwordLogin : List Act :=
  .connect 0 :: [.recv stubClientPublic, .sent, .recv (stubPacket 0 0 [0, 7]), .sent,
    .recv (stubPacket 0 1 [0xC5]), .sent, .go].map fun i => .resume 0 i sampleDraw

/-- Connection 0 logs in. -/
theorem password_first_sample : ∃ xs : List (Lts.Shown (Sys ℕ) Act (Obs ℕ)),
    .session 0 sampleUuid ∈ xs.flatMap Lts.Shown.obs ∧
      Lts.Each (PasswordFirst stub [7]) (xs.flatMap Lts.Shown.obs) ∧
      Lts.Each (fun before x => ∀ c i draw, x.act = .resume c i draw → x.after.server ≠ x.before.server →
        Authenticated [7] c (before.flatMap Lts.Shown.obs)) xs := by
  have hexec : ((Lts.exec (Lts.shown (Sys.step stub)) passwordLogin (.init [7] false)).any fun x =>
      x.2.any fun y => .session 0 sampleUuid ∈ y.obs) = true := by decide +kernel
  have halong : Lts.Along (Lts.shown (Sys.step stub)) (Lts.Showing fun _ _ _ => True) passwordLogin
      (.init [7] false) := by decide +kernel
  obtain ⟨⟨S, xs⟩, hS, hp⟩ := Option.any_eq_true _ _ |>.1 hexec
  obtain ⟨y, hy, hses⟩ := List.any_eq_true.1 hp
  exact ⟨xs, List.mem_flatMap.2 ⟨y, hy, of_decide_eq_true hses⟩,
    password_first stub (Lts.exec_run hS halong)⟩

end Pipebomb
