/-
  What is seen of a step of one coroutine, and which session it works for afterwards.

  * `taskStep_obs`: what is seen of a step is about the connection whose coroutine goes
    on and about the session it works for.
  * `taskStep_enters`: a coroutine works for the same session as before, or for the one its
    login names, and the references it holds stay those of its session.
-/
import Pipebomb.Frame

namespace Pipebomb

open ByteString

variable {K : Type} (L : Libs K)

/-! ## What is seen of a step -/

/-- The observation is about the connection and the session. -/
def Obs.By (c : ConnId) (uses : Option PyStr) : Obs K → Prop
  | .encrypt p _ _ _ | .decrypt p _ _ _ | .accepted p _ | .write p _ => p = .server c
  | .answered c' u _ _ => c' = c ∧ uses = some u
  | .session c' _ | .relogin c' _ => c' = c ∧ uses = none
  | .called _ | .returned _ _ | .timedOut _ => False

/-- All observations are about the connection and the session. -/
def AllBy (c : ConnId) (uses : Option PyStr) (os : List (Obs K)) : Prop := ∀ o ∈ os, o.By c uses

/-- The observation is about an end of a connection. -/
def Obs.Of (p : Party) : Obs K → Prop
  | .encrypt q _ _ _ | .decrypt q _ _ _ | .accepted q _ | .write q _ => q = p
  | .answered c _ _ _ => .server c = p
  | _ => False

variable {c : ConnId} {uses : Option PyStr} {os os' : List (Obs K)}

theorem AllBy.nil : AllBy c uses ([] : List (Obs K)) := fun _ h => absurd h (by simp)

theorem AllBy.append (h : AllBy c uses os) (h' : AllBy c uses os') : AllBy c uses (os ++ os') :=
  fun o ho => (List.mem_append.1 ho).elim (h o) (h' o)

theorem AllBy.cons {o : Obs K} (h : o.By c uses) (h' : AllBy c uses os) : AllBy c uses (o :: os) :=
  fun x hx => (List.mem_cons.1 hx).elim (fun e => e ▸ h) (h' x)

theorem allBy_encryptCall (data : Bytes) (cipher : Option K) (n : ℕ) :
    AllBy c uses (encryptCall (.server c) data cipher n) := by
  unfold encryptCall
  split
  · exact .nil
  · split_ifs
    · exact .cons rfl .nil
    · exact .nil

theorem allBy_decryptCall (packet : Bytes) (cipher : Option K) (n : ℕ) :
    AllBy c uses (decryptCall (.server c) packet cipher n) := by
  unfold decryptCall
  split
  · split_ifs
    · exact .cons rfl .nil
    · exact .nil
  · exact .nil

section
variable {A : Type} {s : Server K}

theorem sendPacket_obs (h : Handler) (reply : Bytes) (held : Held) (after : After) :
    AllBy c (some h.uuid) (sendPacket L s c h reply held after : Outcome K A).2.2 := by
  unfold sendPacket
  split
  · exact .nil
  · refine .append (allBy_encryptCall _ _ _) ?_
    split
    · exact .nil
    · refine .cons rfl ?_
      split_ifs
      · exact .cons ⟨rfl, rfl⟩ .nil
      · exact .nil

theorem sendReply_obs (h : Handler) (reply : Except PyErr Bytes) (held : Held) (after : After) :
    AllBy c (some h.uuid) (sendReply L s c h reply held after : Outcome K A).2.2 := by
  cases reply with
  | error e => exact .nil
  | ok data => exact sendPacket_obs L h data held after

theorem proceed_obs (h : Handler) (o : Server K × Next) :
    AllBy c (some h.uuid) (proceed L c h o : Outcome K A).2.2 := by
  unfold proceed
  split
  · exact sendPacket_obs L h _ _ _
  · exact .nil
  · exact .nil
  · exact .nil

theorem onFrame_obs (h : Handler) (frame : Option Bytes) (draw : Uuid4) :
    AllBy c (some h.uuid) (onFrame L s c h frame draw : Outcome K A).2.2 := by
  unfold onFrame
  split
  · exact .nil
  · exact .nil
  · refine .append (allBy_decryptCall _ _ _) ?_
    split
    · exact .nil
    · exact sendReply_obs L _ _ _ _
    · exact .cons rfl (proceed_obs L { h with data := _ } _)

theorem pump_obs (h : Handler) (draw : Uuid4) :
    AllBy c (some h.uuid) (pump L s c h draw : Outcome K A).2.2 := by
  unfold pump
  split
  · split
    · exact .nil
    · exact .cons rfl .nil
  · exact onFrame_obs L { h with receiveBuffer := _ } _ draw
  · exact .nil

theorem onSent_obs (h : Handler) (held : Held) (after : After) (draw : Uuid4) :
    AllBy c (some h.uuid) (onSent L s c h held after draw : Outcome K A).2.2 := by
  unfold onSent
  split
  · exact onFrame_obs L h none draw
  · split <;> exact .nil
  · split <;> exact .nil

theorem handlerStep_obs {h : Handler} {i : Input} {draw : Uuid4} {o : Outcome K A}
    (ho : handlerStep L s c h i draw = some o) : AllBy c (some h.uuid) o.2.2 := by
  unfold handlerStep at ho
  split at ho
  · cases ho
    unfold started
    split
    · exact .nil
    · split_ifs <;> exact .nil
  · cases ho; exact pump_obs L h draw
  · split_ifs at ho
    · cases ho; exact onFrame_obs L h none draw
    · cases ho; exact pump_obs L { h with receiveBuffer := _ } draw
  · split_ifs at ho
    cases ho; exact sendReply_obs L h _ _ _
  · split at ho
    · cases ho
    · cases ho; exact sendReply_obs L h _ _ _
  · split_ifs at ho
    cases ho; exact sendPacket_obs L h _ _ _
  · split_ifs at ho
    simp only at ho
    split at ho
    · cases ho; exact sendReply_obs L h _ _ _
    · cases ho; exact sendReply_obs L h _ _ _
  · cases ho; exact onSent_obs L h _ _ draw
  · cases ho; exact .nil
  · cases ho

end

section
variable {s : Server K}

theorem sendHandshake_obs (l : Locals K) (data : Bytes) (next : Accepting K) :
    AllBy c uses (sendHandshake L s c l data next).2.2 := by
  refine .append (allBy_encryptCall _ _ _) ?_
  split
  · exact .nil
  · exact .cons rfl .nil

theorem onPassword_obs (l : Locals K) (frame : Bytes) :
    AllBy c uses (onPassword L s c l frame).2.2 := by
  refine .append (allBy_decryptCall _ _ _) ?_
  split
  · exact .nil
  · exact .nil
  · split_ifs
    · exact .nil
    · exact .cons rfl (sendHandshake_obs L _ _ _)

theorem onLogin_obs (l : Locals K) (frame : Bytes) (draw : Uuid4) :
    AllBy c none (onLogin L s c l frame draw).2.2 := by
  refine .append (allBy_decryptCall _ _ _) ?_
  split
  · exact .nil
  · exact .nil
  · refine .cons rfl ?_
    split
    · exact .nil
    · simp only
      split_ifs
      · split
        · split
          · exact .nil
          · exact sendHandshake_obs L _ _ _
        · exact .cons ⟨rfl, rfl⟩ (sendHandshake_obs L _ _ _)
      · exact .cons ⟨rfl, rfl⟩ (sendHandshake_obs L _ _ _)
      · exact .nil

theorem onChunk_obs (buffer chunk : Bytes) (waiting : Bytes → Accepting K)
    (frame : Bytes → Outcome K (Accepting K)) (h : ∀ f, AllBy c uses (frame f).2.2) :
    AllBy c uses (onChunk s buffer chunk waiting frame).2.2 := by
  unfold onChunk
  split_ifs
  · exact .nil
  · split
    · exact .nil
    · exact h _
    · exact .nil

theorem acceptStep_obs {a : Accepting K} {i : Input} {draw : Uuid4}
    {o : Outcome K (Accepting K)} (ho : acceptStep L s c a i draw = some o) :
    AllBy c (Task.accept a).uses o.2.2 := by
  unfold acceptStep at ho
  split at ho
  · split_ifs at ho <;> cases ho
    · exact .nil
    · exact .nil
    · exact .cons rfl .nil
  · split at ho <;> cases ho <;> exact .nil
  · split_ifs at ho
    cases ho; exact onChunk_obs _ _ _ _ fun f => onPassword_obs L _ f
  · cases ho; exact .nil
  · split_ifs at ho
    cases ho; exact onChunk_obs _ _ _ _ fun f => onLogin_obs L _ f draw
  · cases ho; exact .cons ⟨rfl, rfl⟩ .nil
  · cases ho; exact .nil
  · cases ho; exact .nil
  · cases ho

/-- **What is seen of a step of a coroutine.** -/
theorem taskStep_obs {t : Task (Accepting K)} {i : Input} {draw : Uuid4}
    {o : Outcome K (Accepting K)} (ho : taskStep L s c t i draw = some o) :
    AllBy c t.uses o.2.2 := by
  cases t with
  | idle => cases ho
  | «over» e => cases ho
  | accept a => exact acceptStep_obs L ho
  | handler h => exact handlerStep_obs L ho

end

/-! ## The session of a coroutine -/

/-- A handler goes on for the same session or ends. -/
def Task.Stays {A : Type} (u : PyStr) : Task A → Prop
  | .handler h => h.uuid = u
  | .over _ => True
  | _ => False

section
variable {A : Type} {s : Server K}

theorem sendPacket_stays (h : Handler) (reply : Bytes) (held : Held) (after : After) :
    (sendPacket L s c h reply held after : Outcome K A).2.1.Stays h.uuid := by
  unfold sendPacket
  split
  · trivial
  · rw [seen_task]
    split
    · trivial
    · rfl

theorem sendReply_stays (h : Handler) (reply : Except PyErr Bytes) (held : Held) (after : After) :
    (sendReply L s c h reply held after : Outcome K A).2.1.Stays h.uuid := by
  cases reply with
  | error e => trivial
  | ok data => exact sendPacket_stays L h data held after

theorem proceed_stays (h : Handler) (o : Server K × Next) :
    (proceed L c h o : Outcome K A).2.1.Stays h.uuid := by
  unfold proceed
  split
  · exact sendPacket_stays L h _ _ _
  · rfl
  · trivial
  · trivial

theorem onFrame_stays (h : Handler) (frame : Option Bytes) (draw : Uuid4) :
    (onFrame L s c h frame draw : Outcome K A).2.1.Stays h.uuid := by
  unfold onFrame
  split
  · trivial
  · trivial
  · simp only [seen_task]
    split
    · trivial
    · exact sendReply_stays L _ _ _ _
    · exact proceed_stays L { h with data := _ } _

theorem pump_stays (h : Handler) (draw : Uuid4) :
    (pump L s c h draw : Outcome K A).2.1.Stays h.uuid := by
  unfold pump
  split
  · split
    · trivial
    · rfl
  · exact onFrame_stays L { h with receiveBuffer := _ } _ draw
  · rfl

theorem onSent_stays (h : Handler) (held : Held) (after : After) (draw : Uuid4) :
    (onSent L s c h held after draw : Outcome K A).2.1.Stays h.uuid := by
  unfold onSent
  split
  · exact onFrame_stays L h none draw
  · split
    · trivial
    · rfl
  · split <;> trivial

theorem handlerStep_stays {h : Handler} {i : Input} {draw : Uuid4} {o : Outcome K A}
    (ho : handlerStep L s c h i draw = some o) : o.2.1.Stays h.uuid := by
  unfold handlerStep at ho
  split at ho
  · cases ho
    unfold started
    split
    · trivial
    · split_ifs
      · trivial
      · rfl
  · cases ho; exact pump_stays L h draw
  · split_ifs at ho
    · cases ho; exact onFrame_stays L h none draw
    · cases ho; exact pump_stays L { h with receiveBuffer := _ } draw
  · split_ifs at ho
    cases ho; exact sendReply_stays L h _ _ _
  · split at ho
    · cases ho
    · cases ho; exact sendReply_stays L h _ _ _
  · split_ifs at ho
    cases ho; exact sendPacket_stays L h _ _ _
  · split_ifs at ho
    simp only at ho
    split at ho
    · cases ho; exact sendReply_stays L h _ _ _
    · cases ho; exact sendReply_stays L h _ _ _
  · cases ho; exact onSent_stays L h _ _ draw
  · cases ho; trivial
  · cases ho

end

/-- After a step of a handshake: the references are those of the session the coroutine
    works for, and it has worked for it before or the step names it. -/
def Task.Enters (c : ConnId) (t : Task (Accepting K)) (o : Outcome K (Accepting K)) : Prop :=
  o.2.1.Wf o.1 ∧
    ∀ u, o.2.1.uses = some u → t.uses = some u ∨ .session c u ∈ o.2.2 ∨ .relogin c u ∈ o.2.2

section
variable {s : Server K} {t : Task (Accepting K)}

theorem Task.Enters.seen {o : Outcome K (Accepting K)} (h : t.Enters c o) (os : List (Obs K)) :
    t.Enters c (seen os o) := by
  refine ⟨h.1, fun u hu => (h.2 u hu).imp_right ?_⟩
  rintro (hm | hm)
  · exact .inl (List.mem_append.2 (.inr hm))
  · exact .inr (List.mem_append.2 (.inr hm))

theorem enters_over (s : Server K) (e : Option PyErr) (os : List (Obs K)) :
    t.Enters c (s, .over e, os) := ⟨trivial, fun _ h => by cases h⟩

/-- A handshake that sends and then works for no session yet. -/
theorem sendHandshake_enters (l : Locals K) (data : Bytes) {next : Accepting K}
    (hn : (Task.accept next).uses = none) : t.Enters c (sendHandshake L s c l data next) := by
  refine .seen ?_ _
  split
  · exact enters_over _ _ _
  · refine ⟨?_, fun u hu => ?_⟩
    · cases next with
      | sendLogin l u r => cases hn
      | _ => trivial
    · rw [hn] at hu; cases hu

/-- A handshake that sends its last packet, for the session `uuid`. -/
theorem sendLogin_enters (l l' : Locals K) (data : Bytes) {uuid : PyStr} {r : Ref}
    (hr : r < s.fresh ∧ (s.objs r).uuid = uuid) {x : Obs K}
    (hx : x = .session c uuid ∨ x = .relogin c uuid) :
    t.Enters c (seen [x] (sendHandshake L s c l data (.sendLogin l' uuid r))) := by
  have hserver := sendHandshake_server L s c l data (.sendLogin l' uuid r)
  have htask : ∀ u, (sendHandshake L s c l data (.sendLogin l' uuid r)).2.1.uses = some u →
      u = uuid := by
    intro u hu
    rw [sendHandshake, seen_task] at hu
    split at hu
    · cases hu
    · cases hu; rfl
  have hwf : (sendHandshake L s c l data (.sendLogin l' uuid r)).2.1.Wf s := by
    rw [sendHandshake, seen_task]
    split
    · trivial
    · exact hr
  refine ⟨by rw [seen_server, hserver]; exact hwf, fun u hu => .inr ?_⟩
  obtain rfl := htask u hu
  rcases hx with rfl | rfl
  · exact .inl (by simp)
  · exact .inr (by simp)

theorem onPassword_enters (l : Locals K) (frame : Bytes) :
    t.Enters c (onPassword L s c l frame) := by
  refine .seen ?_ _
  split
  · exact enters_over _ _ _
  · exact enters_over _ _ _
  · split_ifs
    · exact enters_over _ _ _
    · exact .seen (sendHandshake_enters L _ _ rfl) _

theorem onLogin_enters (hw : s.WfRefs) (l : Locals K) (frame : Bytes) (draw : Uuid4) :
    t.Enters c (onLogin L s c l frame draw) := by
  refine .seen ?_ _
  split
  · exact enters_over _ _ _
  · exact enters_over _ _ _
  · refine .seen ?_ _
    split
    · exact enters_over _ _ _
    · simp only
      split_ifs
      · split
        · split
          · exact enters_over _ _ _
          · exact sendHandshake_enters L _ _ rfl
        · rename_i r hu
          have hw' := hw.modify (r := r) (f := Client.attach c l.cipher) fun _ => rfl
          exact sendLogin_enters L _ _ _ (hw' _ _ hu) (.inr rfl)
      · refine sendLogin_enters L _ _ _ ⟨Nat.lt_succ_self _, ?_⟩ (.inl rfl)
        rw [Server.addSession_objs_fresh]; rfl
      · exact enters_over _ _ _

theorem onChunk_enters (buffer chunk : Bytes) {waiting : Bytes → Accepting K}
    (hn : ∀ b, (Task.accept (waiting b)).uses = none) (hwf : ∀ b, (waiting b).Wf s)
    {frame : Bytes → Outcome K (Accepting K)} (h : ∀ f, t.Enters c (frame f)) :
    t.Enters c (onChunk s buffer chunk waiting frame) := by
  unfold onChunk
  split_ifs
  · exact enters_over _ _ _
  · split
    · exact enters_over _ _ _
    · exact h _
    · exact ⟨hwf _, fun u hu => by rw [hn] at hu; cases hu⟩

theorem acceptStep_enters (hw : s.WfRefs) {a : Accepting K} {i : Input} {draw : Uuid4}
    {o : Outcome K (Accepting K)} (ho : acceptStep L s c a i draw = some o) :
    (Task.accept a).Enters c o := by
  unfold acceptStep at ho
  split at ho
  · split_ifs at ho <;> cases ho
    · exact enters_over _ _ _
    · exact ⟨trivial, fun _ h => by cases h⟩
    · exact ⟨trivial, fun _ h => by cases h⟩
  · split at ho <;> cases ho
    · exact enters_over _ _ _
    · exact ⟨trivial, fun _ h => by cases h⟩
  · split_ifs at ho
    cases ho
    refine onChunk_enters _ _ (fun _ => rfl) ?_ fun f => onPassword_enters L _ f
    exact fun _ => trivial
  · cases ho; exact ⟨trivial, fun _ h => by cases h⟩
  · split_ifs at ho
    cases ho
    refine onChunk_enters _ _ (fun _ => rfl) ?_ fun f => onLogin_enters L hw _ f draw
    exact fun _ => trivial
  · cases ho
    refine ⟨trivial, fun u hu => .inr (.inl ?_)⟩
    cases hu
    simp
  · cases ho
    refine ⟨trivial, fun u hu => .inl ?_⟩
    cases hu; rfl
  · cases ho; exact enters_over _ _ _
  · cases ho

theorem taskStep_enters (hw : s.WfRefs) {i : Input} {draw : Uuid4}
    {o : Outcome K (Accepting K)} (ho : taskStep L s c t i draw = some o) : t.Enters c o := by
  cases t with
  | idle => cases ho
  | «over» e => cases ho
  | accept a => exact acceptStep_enters L hw ho
  | handler h =>
    have hs := handlerStep_stays L ho
    rcases ht : o.2.1 with _ | a | h' | e
    · rw [ht] at hs; cases hs
    · rw [ht] at hs; cases hs
    · rw [ht] at hs
      refine ⟨by rw [ht]; trivial, fun u hu => .inl ?_⟩
      rw [ht] at hu
      cases hu
      exact congrArg some (Eq.symm hs)
    · exact ⟨by rw [ht]; trivial, fun u hu => by rw [ht] at hu; cases hu⟩

end

end Pipebomb
