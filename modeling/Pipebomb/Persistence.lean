/-
  A session between two connections.

  With `keep_dead_sessions` a session stays when its handler ends with BYE.

  * `Sys.record` is the system whose runs record the effect of every step.
  * `Sys.Deserted`: no handler works for the session.  In such a state only requests put
    into its inbox and responses written to its outbox change its box (`step_deserted`).
  * `Accepting.Counts`: the counters of a handshake are those of its own packets.
  * `session_persists`: a RELOGIN finds the names, the inbox and the outbox as they were
    left, with what arrived meanwhile, and gives the session its own cipher and counters.
-/
import Pipebomb.Names

namespace Pipebomb

open ByteString

variable {K : Type} (L : Libs K)

/-! ## Recorded runs -/

/-- What is recorded of a step. -/
structure Entry (K : Type) where
  effect : Option Effect
  obs : List (Obs K)

/-- `Sys.step`, recorded. -/
def Sys.record (S : Sys K) (a : Act) : Option (Sys K × List (Entry K)) :=
  match S.step L a with
  | none => none
  | some (S', o) => some (S', [⟨S.effect a o, o⟩])

/-- The recorded steps that satisfy `ok`. -/
def Recorded (ok : Sys K → Act → List (Obs K) → Prop) : Sys K → Act → List (Entry K) → Prop :=
  fun S a es => ∀ e ∈ es, ok S a e.obs

instance {ok : Sys K → Act → List (Obs K) → Prop} [∀ S a o, Decidable (ok S a o)] (S : Sys K)
    (a : Act) (es : List (Entry K)) : Decidable (Recorded ok S a es) :=
  inferInstanceAs (Decidable (∀ e ∈ es, ok S a e.obs))

/-- The effects of a run, in order. -/
def effects (es : List (Entry K)) : List Effect := es.filterMap Entry.effect

/-- The requests that are put into the inbox of the session. -/
def puts (u : PyStr) (es : List Effect) : List Request :=
  es.filterMap fun
    | .put u' q => if u' = u then some q else none
    | _ => none

/-- The responses that are written to the outbox of the session. -/
def writes (u : PyStr) (es : List Effect) : List Response :=
  es.filterMap fun
    | .write u' p => if u' = u then some p else none
    | _ => none

/-- An outbox after responses were written, one after the other. -/
def written (outbox : Bytes → Option Response) (ps : List Response) : Bytes → Option Response :=
  ps.foldl (fun outbox p => Function.update outbox p.response_uuid (some p)) outbox

/-- The box of a session after requests and responses arrived. -/
def Box.receive (b : Box) (qs : List Request) (ps : List Response) : Box :=
  { b with inbox := b.inbox ++ qs, outbox := written b.outbox ps }

section
variable {S S' : Sys K} {a : Act} {o : List (Obs K)} {u : PyStr}

theorem record_cases {es : List (Entry K)} (h : S.record L a = some (S', es)) :
    ∃ o, S.step L a = some (S', o) ∧ es = [⟨S.effect a o, o⟩] := by
  unfold Sys.record at h
  split at h
  · cases h
  · rename_i S₁ o ho
    cases h
    exact ⟨o, ho, rfl⟩

/-- A recorded run is a run. -/
theorem record_run {ok : Sys K → Act → List (Obs K) → Prop} {es : List (Entry K)}
    (hrun : Lts.Run (Lts.Guarded (Sys.record L) (Recorded ok)) S S' es) :
    ∃ os, Lts.Run (Lts.Guarded (Sys.step L) ok) S S' os := by
  refine hrun.inv (I := fun S' _ => ∃ os, Lts.Run (Lts.Guarded (Sys.step L) ok) S S' os)
    ⟨[], .nil⟩ ?_
  rintro S₁ S₂ es _ - ⟨os, hos⟩ ⟨a, hrec, hg⟩
  obtain ⟨o, hstep, rfl⟩ := record_cases L hrec
  exact ⟨os ++ o, hos.snoc ⟨a, hstep, hg _ (List.mem_singleton_self _)⟩⟩

theorem Box.receive_nil (b : Box) : b.receive [] [] = b := by
  simp [Box.receive, written]

theorem Box.receive_receive (b : Box) (qs qs' : List Request) (ps ps' : List Response) :
    (b.receive qs ps).receive qs' ps' = b.receive (qs ++ qs') (ps ++ ps') := by
  simp [Box.receive, written, List.append_assoc]

/-! ## While no handler works for the session -/

/-- The coroutine is a handler of the session. -/
def Task.Serves (u : PyStr) : Task (Accepting K) → Prop
  | .handler h => h.uuid = u
  | _ => False

/-- No handler works for the session. -/
def Sys.Deserted (S : Sys K) (u : PyStr) : Prop := ∀ c, ¬ (S.tasks c).Serves u

/-- The effect is one that only the session itself has. -/
def Effect.Own (u : PyStr) : Effect → Prop
  | .register u' _ | .unregister u' _ | .take u' | .consume u' _ | .leave u' _ => u' = u
  | _ => False

theorem payloadEffect_own {s : Server K} {u' : PyStr} {data : Bytes} {draw : Uuid4} {e : Effect}
    (he : payloadEffect s u' data draw = some e) (ho : e.Own u) : u' = u := by
  rcases payloadEffect_cases he with ⟨_, rfl⟩ | ⟨_, rfl⟩ | ⟨_, _, rfl⟩ | ⟨_, rfl⟩
  · exact ho
  · exact ho
  · exact ho.elim
  · exact ho

/-- A handler has such effects on its own session only. -/
theorem Handler.effect_own {s : Server K} {h : Handler} {i : Input} {draw : Uuid4}
    {data? : Option Bytes} {e : Effect} (hh : h.Wf s) (he : h.effect s i draw data? = some e)
    (ho : e.Own u) : h.uuid = u := by
  have hsession : ∀ (r : Ref) (u' : PyStr), s.session r = some u' → (s.objs r).uuid = u' := by
    intro r u' hr
    rw [Server.session] at hr
    split_ifs at hr
    exact Option.some.inj hr
  unfold Handler.effect at he
  split at he
  · obtain ⟨op, -, rfl⟩ := Option.map_eq_some_iff.1 he
    exact ho.elim
  · rename_i r hpc
    obtain ⟨u', hu', rfl⟩ := Option.map_eq_some_iff.1 he
    rw [← (hh.inboxGet hpc).2.2, hsession r u' hu']
    exact ho
  · obtain ⟨u', -, rfl⟩ := Option.map_eq_some_iff.1 he
    exact ho.elim
  · rename_i r id hpc
    obtain ⟨u', hu', rfl⟩ := Option.map_eq_some_iff.1 he
    rw [← (hh.outboxGet hpc).2.2, hsession r u' hu']
    exact ho
  · split_ifs at he
    unfold teardownEffect at he
    split_ifs at he
    cases he
    exact ho
  · obtain ⟨data, -, he⟩ := Option.bind_eq_some_iff.1 he
    exact payloadEffect_own he ho

/-- In a deserted session nothing is done but by others. -/
theorem Sys.Deserted.effect (hd : S.Deserted u) (hS : S.Sound) {e : Effect}
    (he : S.effect a o = some e) : ¬ e.Own u := by
  intro ho
  unfold Sys.effect at he
  split at he
  · split at he
    · rename_i c _ _ _ h ht
      refine hd c ?_
      rw [ht]
      exact Handler.effect_own (hS.handlers _ _ ht) he ho
    · obtain ⟨u', -, rfl⟩ := Option.map_eq_some_iff.1 he
      exact ho
    · cases he
  · cases he

/-- What such an effect does to the box of the session. -/
theorem boxes_apply_others {O : Office} {e : Effect} (ho : ¬ e.Own u) (hl : e ≠ .login u) :
    (O.apply e).boxes u = (O.boxes u).map fun b => b.receive (puts u [e]) (writes u [e]) := by
  have hsame : (O.boxes u).map (fun b => b.receive [] []) = O.boxes u := by
    simp only [Box.receive_nil, Option.map_id']
  cases e with
  | kv op => exact hsame.symm
  | register u' name =>
    refine Eq.trans ?_ hsame.symm
    exact Office.modifyBox_boxes_ne _ (fun hu => ho hu.symm) _
  | unregister u' name =>
    refine Eq.trans ?_ hsame.symm
    exact Office.modifyBox_boxes_ne _ (fun hu => ho hu.symm) _
  | take u' =>
    refine Eq.trans ?_ hsame.symm
    exact Office.modifyBox_boxes_ne _ (fun hu => ho hu.symm) _
  | consume u' id =>
    refine Eq.trans ?_ hsame.symm
    exact Office.modifyBox_boxes_ne _ (fun hu => ho hu.symm) _
  | login u' =>
    refine Eq.trans ?_ hsame.symm
    exact Function.update_of_ne (fun hu : u = u' => hl (hu ▸ rfl)) ..
  | leave u' name =>
    refine Eq.trans ?_ hsame.symm
    exact Function.update_of_ne (fun hu => ho hu.symm) ..
  | put u' q =>
    by_cases hu : u' = u
    · subst hu
      simp only [Office.apply, Office.modifyBox_boxes_self, puts, writes, List.filterMap_cons,
        if_pos, List.filterMap_nil]
      rfl
    · simp only [Office.apply, Office.modifyBox_boxes_ne _ (Ne.symm hu), puts, writes,
        List.filterMap_cons, if_neg hu, List.filterMap_nil]
      exact hsame.symm
  | write u' p =>
    by_cases hu : u' = u
    · subst hu
      simp only [Office.apply, Office.modifyBox_boxes_self, puts, writes, List.filterMap_cons,
        if_pos, List.filterMap_nil]
      congr 1
      funext b
      simp [Box.write, Box.receive, written]
    · simp only [Office.apply, Office.modifyBox_boxes_ne _ (Ne.symm hu), puts, writes,
        List.filterMap_cons, if_neg hu, List.filterMap_nil]
      exact hsame.symm

/-- **One step** while no handler works for the session. -/
theorem step_deserted (hN : S.Named) (hd : S.Deserted u) (hu : u ∈ S.server.clientDb)
    (hstep : S.step L a = some (S', o)) (hok : S.Ordinary a o) :
    S'.server.office.boxes u = (S.server.office.boxes u).map fun b =>
      b.receive (puts u (S.effect a o).toList) (writes u (S.effect a o).toList) := by
  rw [step_office L hN.sound.refs (step_step L hN.sound.tidy hstep).1 hok.1]
  rcases he : S.effect a o with _ | e
  · have hsame : (S.server.office.boxes u).map (fun b => b.receive [] []) = S.server.office.boxes u := by
      simp only [Box.receive_nil, Option.map_id']
    exact hsame.symm
  · refine boxes_apply_others (hd.effect hN.sound he) ?_
    rintro rfl
    obtain ⟨c, hc⟩ := effect_login he
    exact (hok.2 c u hc).1.1 hu

theorem puts_append (es es' : List Effect) : puts u (es ++ es') = puts u es ++ puts u es' :=
  List.filterMap_append

theorem writes_append (es es' : List Effect) :
    writes u (es ++ es') = writes u es ++ writes u es' :=
  List.filterMap_append

theorem effects_append (es es' : List (Entry K)) : effects (es ++ es') = effects es ++ effects es' :=
  List.filterMap_append

/-- **A run** while no handler works for the session. -/
theorem run_deserted {ok : Sys K → Act → List (Obs K) → Prop}
    (hok : ∀ {S a o}, ok S a o → S.Ordinary a o ∧ S.Deserted u) {es : List (Entry K)}
    (hrun : Lts.Run (Lts.Guarded (Sys.record L) (Recorded ok)) S S' es) (hN : S.Named) {b : Box}
    (hb : S.server.office.boxes u = some b) :
    S'.Named ∧ S'.server.office.boxes u =
      some (b.receive (puts u (effects es)) (writes u (effects es))) := by
  refine hrun.inv (I := fun S es => S.Named ∧ S.server.office.boxes u =
    some (b.receive (puts u (effects es)) (writes u (effects es)))) ?_ ?_
  · refine ⟨hN, ?_⟩
    rw [hb]
    exact congrArg some b.receive_nil.symm
  · rintro S S' es _ - ⟨hN, hb⟩ ⟨a, hrec, hg⟩
    obtain ⟨o, hstep, rfl⟩ := record_cases L hrec
    obtain ⟨hord, hd⟩ := hok (hg _ (List.mem_singleton_self _))
    have hu : u ∈ S.server.clientDb := boxes_ne_none.1 (by rw [hb]; exact Option.some_ne_none _)
    have heff : effects (es ++ [⟨S.effect a o, o⟩]) = effects es ++ (S.effect a o).toList := by
      rw [effects, List.filterMap_append, effects]
      rcases S.effect a o with _ | e
      · rfl
      · rfl
    refine ⟨step_named L hN hstep hord, ?_⟩
    rw [step_deserted L hN hd hu hstep hord, hb, heff, puts_append, writes_append,
      ← Box.receive_receive]
    rfl

end

/-! ## BYE -/

section
variable {s : Server K} {u : PyStr}

theorem dbOp_keepDeadSessions (op : DbOp) (s : Server K) (value : Bytes) :
    (op.run s value).1.keepDeadSessions = s.keepDeadSessions := by
  cases op with
  | set => simp only [DbOp.run]; split <;> rfl
  | get => rfl
  | delete => simp only [DbOp.run]; split_ifs <;> rfl
  | list => rfl

theorem release_keepDeadSessions (s : Server K) (held : Held) :
    (s.release held).keepDeadSessions = s.keepDeadSessions := by
  cases held <;> rfl

theorem Sends.keepDeadSessions {A : Type} {c : ConnId} {h : Handler} {reply : Except PyErr Bytes}
    {held : Held} {after : After} {out : Outcome K A} (hs : Sends L s c h reply held after out) :
    out.1.keepDeadSessions = s.keepDeadSessions := by
  rcases hs.server with hs | hs
  · rw [hs]
  · rw [hs, release_keepDeadSessions]

theorem Move.keepDeadSessions {A : Type} {c : ConnId} {h : Handler} {i : Input} {draw : Uuid4}
    {out : Outcome K A} (hm : Move L s c h i draw out) :
    out.1.keepDeadSessions = s.keepDeadSessions := by
  cases hm with
  | still => rfl
  | refuse _ _ _ _ hs => exact hs.keepDeadSessions
  | payload _ _ _ _ _ hp =>
    cases hp with
    | reply _ hs => exact (hs.keepDeadSessions).trans (dispatch_aside _ _ _ _).keepDeadSessions
    | wait => exact (dispatch_aside _ _ _ _).keepDeadSessions
    | raise => exact (dispatch_aside _ _ _ _).keepDeadSessions
    | bye => exact ((dispatch_aside _ _ _ _).trans (teardown_aside _ _)).keepDeadSessions
  | db _ _ _ hs => exact hs.keepDeadSessions.trans (dbOp_keepDeadSessions _ _ _)
  | inboxGet _ _ _ hs => exact hs.keepDeadSessions
  | outboxPut _ _ _ hs => exact hs.keepDeadSessions
  | outboxNone _ _ _ _ hs => exact hs.keepDeadSessions
  | outboxGet _ _ _ _ hs => exact hs.keepDeadSessions
  | sent => exact release_keepDeadSessions _ _
  | close => exact (teardown_aside _ _).keepDeadSessions.trans (release_keepDeadSessions _ _)
  | die => exact release_keepDeadSessions _ _

end

section
variable {S S' : Sys K} {a : Act} {o os : List (Obs K)} {u : PyStr}

theorem step_keepDeadSessions (hS : S.Sound) (hstep : S.step L a = some (S', o)) :
    S'.server.keepDeadSessions = S.server.keepDeadSessions := by
  cases (step_step L hS.tidy hstep).1 with
  | connect => rfl
  | join _ hj => exact hj.aside.keepDeadSessions
  | move _ hm => exact hm.keepDeadSessions
  | admin => exact (admin_aside _ _).keepDeadSessions

theorem run_keepDeadSessions {ok : Sys K → Act → List (Obs K) → Prop} {password : Bytes}
    {keep : Bool} (hrun : Lts.Run (Lts.Guarded (Sys.step L) ok) (.init password keep) S os) :
    S.server.keepDeadSessions = keep :=
  (hrun.inv (I := fun S _ => S.Sound ∧ S.server.keepDeadSessions = keep) ⟨sound_init _ _, rfl⟩
    fun _ ⟨hS, hk⟩ ⟨_, hstep, _⟩ => ⟨step_sound L hS hstep,
      (step_keepDeadSessions L hS hstep).trans hk⟩).2

/-- BYE leaves the office as it is, if dead sessions are kept. -/
theorem office_bye (hS : S.Sound) (hk : S.server.keepDeadSessions = true)
    (hstep : S.step L a = some (S', o)) (ha : a.Wire) {c : ConnId} {h : Handler} {type_ : UInt8}
    {value : Bytes} (hacc : S.Accepts a o c h (type_ :: value)) (hbye : command type_ = .bye) :
    S'.server.office = S.server.office := by
  refine office_accepted L hS hstep ha hacc fun draw => ?_
  simp only [payloadEffect, hbye, teardownEffect, if_pos hk]

end

/-! ## The counters of a handshake -/

/-- The key was made on the connection, and the counters are as given. -/
def Locals.Is (c : ConnId) (txNonce rxNonce : ℕ) (l : Locals K) : Prop :=
  (∃ p, L.exchange c p = some l.cipher) ∧ l.txNonce = txNonce ∧ l.rxNonce = rxNonce

/-- The counters of a handshake are those of its own packets. -/
def Accepting.Counts (c : ConnId) : Accepting K → Prop
  | .publicKey _ | .sendPublic _ => True
  | .password l _ => l.Is L c 0 0
  | .sendAck l | .login l _ => l.Is L c 1 1
  | .sendUnknown l | .sendLogin l _ _ => l.Is L c 1 2

/-- The coroutine is no handshake, or one with such counters. -/
def Task.Counts (c : ConnId) : Task (Accepting K) → Prop
  | .accept a => a.Counts L c
  | _ => True

section
variable {s : Server K} {c : ConnId} {l : Locals K}

theorem sendHandshake_counts (data : Bytes) {next : Accepting K} (hn : next.Counts L c) :
    (sendHandshake L s c l data next).2.1.Counts L c := by
  unfold sendHandshake
  rcases constructPacket L data (some l.cipher) l.txNonce with e | pkt
  · trivial
  · exact hn

theorem onPassword_counts (hl : l.Is L c 0 0) (frame : Bytes) :
    (onPassword L s c l frame).2.1.Counts L c := by
  obtain ⟨hk, ht, hr⟩ := hl
  unfold onPassword
  rcases verifyPacket L frame (some l.cipher) l.rxNonce with e | n | ⟨password, rem⟩
  · trivial
  · trivial
  · simp only
    split_ifs
    · trivial
    · exact sendHandshake_counts L ACK ⟨hk, congrArg (· + 1) ht, congrArg (· + 1) hr⟩

theorem onLogin_counts (hl : l.Is L c 1 1) (frame : Bytes) (draw : Uuid4) :
    (onLogin L s c l frame draw).2.1.Counts L c := by
  obtain ⟨hk, ht, hr⟩ := hl
  have hl' : ({ l with rxNonce := l.rxNonce + 1 } : Locals K).Is L c 1 2 :=
    ⟨hk, ht, congrArg (· + 1) hr⟩
  unfold onLogin
  rcases verifyPacket L frame (some l.cipher) l.rxNonce with e | n | ⟨response, rem⟩
  · trivial
  · trivial
  · rcases response with _ | ⟨type_, rest⟩
    · trivial
    · simp only
      split_ifs
      · rcases s.clientDb.get? (latin1Decode rest) with _ | r
        · rcases errDispatch 7 with e | reply
          · trivial
          · exact sendHandshake_counts L reply hl'
        · exact sendHandshake_counts L ACK hl'
      · exact sendHandshake_counts L ACK hl'
      · trivial

theorem onChunk_counts {buffer chunk : Bytes} {waiting : Bytes → Accepting K}
    {frame : Bytes → Outcome K (Accepting K)} (hw : ∀ b, (waiting b).Counts L c)
    (hf : ∀ f, (frame f).2.1.Counts L c) :
    (onChunk s buffer chunk waiting frame).2.1.Counts L c := by
  unfold onChunk
  split_ifs
  · trivial
  · split
    · trivial
    · exact hf _
    · exact hw _

theorem acceptStep_counts {a : Accepting K} (ha : a.Counts L c) {i : Input} {draw : Uuid4}
    {o : Outcome K (Accepting K)} (ho : acceptStep L s c a i draw = some o) :
    o.2.1.Counts L c := by
  unfold acceptStep at ho
  split at ho
  · split_ifs at ho
    · cases ho; trivial
    · cases ho; trivial
    · cases ho; trivial
  · rename_i p
    rcases hk : L.exchange c p with _ | k
    · rw [hk] at ho; cases ho; trivial
    · rw [hk] at ho; cases ho; exact ⟨⟨p, hk⟩, rfl, rfl⟩
  · split_ifs at ho
    cases ho
    exact onChunk_counts L (fun _ => ha) fun f => onPassword_counts L ha f
  · cases ho; exact ha
  · split_ifs at ho
    cases ho
    exact onChunk_counts L (fun _ => ha) fun f => onLogin_counts L ha f draw
  · cases ho; trivial
  · cases ho; trivial
  · cases ho; trivial
  · cases ho

end

section
variable {S S' : Sys K} {a : Act} {o os : List (Obs K)}

theorem step_counts (hc : ∀ c, (S.tasks c).Counts L c) (hstep : S.step L a = some (S', o)) :
    ∀ c, (S'.tasks c).Counts L c := by
  have hput : ∀ (c : ConnId) (s : Server K) (t : Task (Accepting K)), t.Counts L c →
      ∀ c', ((S.put c s t).tasks c').Counts L c' := by
    intro c s t ht c'
    by_cases he : c' = c
    · subst he; rw [put_tasks_self]; exact ht
    · rw [put_tasks_ne he]; exact hc c'
  rcases step_cases L hstep with ⟨c, rfl, -, rfl, rfl⟩ | ⟨c, i, draw, s, t, rfl, ht, rfl⟩ |
    ⟨op, rfl, rfl, rfl⟩
  · exact hput _ _ _ trivial
  · refine hput _ _ _ ?_
    rcases htask : S.tasks c with _ | a | h | e
    · rw [htask] at ht; cases ht
    · rw [htask] at ht
      have ha := hc c
      rw [htask] at ha
      exact acceptStep_counts L ha ht
    · rw [htask] at ht
      have hs := handlerStep_stays L ht
      cases t with
      | accept a => exact hs.elim
      | _ => trivial
    · rw [htask] at ht; cases ht
  · exact hc

theorem counts_init (password : Bytes) (keep : Bool) (c : ConnId) :
    ((Sys.init password keep : Sys K).tasks c).Counts L c := trivial

/-- **In every run** the counters of a handshake are those of its own packets. -/
theorem run_counts {ok : Sys K → Act → List (Obs K) → Prop} (hc : ∀ c, (S.tasks c).Counts L c)
    (hrun : Lts.Run (Lts.Guarded (Sys.step L) ok) S S' os) : ∀ c, (S'.tasks c).Counts L c :=
  hrun.inv (I := fun S _ => ∀ c, (S.tasks c).Counts L c) hc fun _ hc ⟨_, hstep, _⟩ =>
    step_counts L hc hstep

end

/-! ## RELOGIN -/

/-- The coroutine of `c` is about to start a handler for the session `u`, and no other
    coroutine works for it. -/
def Sys.Rejoins (S : Sys K) (c : ConnId) (u : PyStr) : Prop :=
  ∀ l r, S.tasks c = .accept (.sendLogin l u r) →
    S.server.clientDb.get? u = some r ∧ (S.server.objs r).cipher = some l.cipher ∧
      ∀ c', c' ≠ c → (S.tasks c').uses ≠ some u

section
variable {S S' : Sys K} {a : Act} {o : List (Obs K)} {c : ConnId} {u : PyStr}

/-- **A step that accepts a RELOGIN.** -/
theorem relogin_attach (hstep : S.step L a = some (S', o)) (hre : .relogin c u ∈ o) :
    ∃ i draw l r t os os', a = .resume c i draw ∧ (S.tasks c).uses = none ∧
      S.server.clientDb.get? u = some r ∧ S' = S.put c (S.server.modify r (Client.attach c l.cipher)) t ∧
      (t = .accept (.sendLogin l u r) ∨ t.Outside) ∧ o = os ++ .relogin c u :: os' ∧ Shut os ∧
      Shut os' := by
  have hshut : ∀ {os : List (Obs K)}, Shut os → .relogin c u ∉ os := fun h hm => h _ hm
  rcases step_cases L hstep with ⟨_, -, -, rfl, -⟩ | ⟨c', i, draw, s, t, rfl, ht, rfl⟩ |
    ⟨_, -, rfl, -⟩
  · cases hre
  · obtain ⟨rfl, huses⟩ := taskStep_obs L ht _ hre
    rcases htask : S.tasks c with _ | a | h | e
    · rw [htask] at ht; cases ht
    · rw [htask] at ht huses
      cases acceptStep_joins L ht with
      | still _ hin => exact absurd hre (hshut hin)
      | login _ hin hin' =>
        rcases List.mem_append.1 hre with hm | hm
        · exact absurd hm (hshut hin)
        · simp only [List.mem_cons, reduceCtorEq, false_or] at hm
          exact absurd hm (hshut hin')
      | attach hu hto hin hin' =>
        rename_i u' r l os os'
        have hu' : u' = u := by
          rcases List.mem_append.1 hre with hm | hm
          · exact absurd hm (hshut hin)
          · simp only [List.mem_cons, Obs.relogin.injEq, true_and] at hm
            exact hm.elim Eq.symm fun hm => absurd hm (hshut hin')
        subst hu'
        exact ⟨i, draw, l, r, t, os, os', rfl, huses, hu, rfl, hto, rfl, hin, hin'⟩
      | unknown => simp at hre
      | finish => cases hre
    · rw [htask] at huses; cases huses
    · rw [htask] at ht; cases ht
  · cases hre

/-- A RELOGIN has no effect. -/
theorem relogin_effect (hstep : S.step L a = some (S', o)) (hre : .relogin c u ∈ o) :
    S.effect a o = none := by
  obtain ⟨i, draw, l, r, t, os, os', rfl, huses, -, -, -, rfl, hin, hin'⟩ :=
    relogin_attach L hstep hre
  have hnone : loggedIn (os ++ Obs.relogin c u :: os') = none := by
    rw [loggedIn_append, hin.loggedIn, loggedIn, List.findSome?_cons]
    exact hin'.loggedIn
  unfold Sys.effect
  simp only
  split
  · rename_i ht
    rw [ht] at huses
    cases huses
  · rw [hnone]
    rfl
  · rfl

theorem relogin_rejoins (hno : ∀ c, (S.tasks c).uses ≠ some u)
    (hstep : S.step L a = some (S', o)) (hre : .relogin c u ∈ o) : S'.Rejoins c u := by
  obtain ⟨i, draw, l, r, t, os, os', rfl, -, hu, rfl, hto, -, -, -⟩ := relogin_attach L hstep hre
  intro l' r' hl
  rw [put_tasks_self] at hl
  subst hl
  rcases hto with hto | hto
  · cases hto
    refine ⟨hu, ?_, fun c' hc' => ?_⟩
    · rw [put_server, Server.modify_objs_self]
      rfl
    · rw [put_tasks_ne hc']
      exact hno c'
  · exact hto.elim

/-- Nobody else logs in to the session. -/
theorem step_rejoins (hN : S.Named) (hu : u ∈ S.server.clientDb) (hI : S.Rejoins c u)
    (hstep : S.step L a = some (S', o)) (hok : S.Ordinary a o) (hno : ∀ c, .relogin c u ∉ o) :
    S'.Rejoins c u := by
  have hnamed : ∀ c, .session c u ∉ o ∧ .relogin c u ∉ o := fun c' =>
    ⟨fun hm => (hok.2 c' u hm).1.1 hu, hno c'⟩
  intro l r hl
  rcases step_cases L hstep with ⟨c', rfl, -, rfl, rfl⟩ | ⟨c', i, draw, s, t, rfl, ht, rfl⟩ |
    ⟨_, rfl, -, -⟩
  · by_cases hc : c = c'
    · subst hc
      rw [put_tasks_self] at hl
      cases hl
    · rw [put_tasks_ne hc] at hl
      obtain ⟨hget, hcipher, hothers⟩ := hI l r hl
      refine ⟨hget, hcipher, fun c'' hc'' => ?_⟩
      by_cases he : c'' = c'
      · subst he
        rw [put_tasks_self]
        exact fun h => by cases h
      · rw [put_tasks_ne he]
        exact hothers c'' hc''
  · obtain ⟨-, huses⟩ := taskStep_enters L hN.sound.refs ht
    have hown : t.uses = some u → (S.tasks c').uses = some u := fun h =>
      (huses u h).elim id fun hm => (hm.elim (hnamed c').1 (hnamed c').2).elim
    by_cases hc : c = c'
    · -- the coroutine itself ends or starts its handler
      subst hc
      rw [put_tasks_self] at hl
      subst hl
      have hold := hown rfl
      rcases htask : S.tasks c with _ | a | h | e
      · rw [htask] at hold; cases hold
      · rw [htask] at hold ht
        cases a with
        | sendLogin l' u' r' => cases i <;> cases ht
        | _ => cases hold
      · rw [htask] at ht
        exact (handlerStep_stays L ht).elim
      · rw [htask] at hold; cases hold
    · rw [put_tasks_ne hc] at hl
      obtain ⟨hget, hcipher, hothers⟩ := hI l r hl
      have hframe : Frame (fun u' => u' ≠ u) S.server s :=
        taskStep_frame L hN.sound.refs (hN.sound.tasks c') ht
          (fun u' hu' he => hothers c' (Ne.symm hc) (he ▸ hu')) fun u' hu' he => by
            obtain ⟨c'', hm | hm⟩ := hu'
            · exact (hnamed c'').1 (he ▸ hm)
            · exact (hnamed c'').2 (he ▸ hm)
      obtain ⟨hlt, hid⟩ := hN.sound.refs u r hget
      refine ⟨(hframe.sessions u (by simp)).trans hget, ?_, fun c'' hc'' => ?_⟩
      · exact (hframe.link r hlt (by simp [hid])).cipher.trans hcipher
      · by_cases he : c'' = c'
        · subst he
          rw [put_tasks_self]
          exact fun h => hothers c'' hc'' (hown h)
        · rw [put_tasks_ne he]
          exact hothers c'' hc''
  · exact hok.1.elim

/-- **A run** in which nobody else logs in to the session. -/
theorem run_rejoins {es : List (Entry K)} (hN : S.Named) {b : Box}
    (hb : S.server.office.boxes u = some b) (hI : S.Rejoins c u)
    (hrun : Lts.Run (Lts.Guarded (Sys.record L) (Recorded fun S a o =>
      S.Ordinary a o ∧ S.Deserted u ∧ ∀ c, .relogin c u ∉ o)) S S' es) : S'.Rejoins c u := by
  refine hrun.inv (I := fun S _ => S.Rejoins c u) hI ?_
  rintro S₁ S₂ es _ hr hI ⟨a, hrec, hg⟩
  obtain ⟨hN₁, hb₁⟩ := run_deserted L (fun h => ⟨h.1, h.2.1⟩) hr hN hb
  obtain ⟨o, hstep, rfl⟩ := record_cases L hrec
  obtain ⟨hok, -, hno⟩ := hg _ (List.mem_singleton_self _)
  exact step_rejoins L hN₁ (boxes_ne_none.1 (by rw [hb₁]; simp)) hI hstep hok hno

/-- What the handler of a RELOGIN finds. -/
structure Persisted (s₀ s : Server K) (c : ConnId) (u : PyStr) (es : List Effect) : Prop where
  /-- names, inbox and outbox are the old ones with what arrived meanwhile -/
  box : ∃ cl₀ cl, s₀.client u = some cl₀ ∧ s.client u = some cl ∧ cl.uuid = u ∧
    cl.addressesOwned = cl₀.addressesOwned ∧ cl.inbox = cl₀.inbox ++ puts u es ∧
    cl.outbox.get? = written cl₀.outbox.get? (writes u es)
  /-- WHOHAS finds the session under all its names -/
  names : ∀ cl₀, s₀.client u = some cl₀ → ∀ name ∈ cl₀.addressesOwned,
    whohas s name = .reply (latin1 u)
  /-- cipher and counters are those of the new connection -/
  link : ∃ cl k p, s.client u = some cl ∧ L.exchange c p = some k ∧ cl.cipher = some k ∧
    cl.txNonce = 2 ∧ cl.rxNonce = 2

/-- **A session outlives its connection.**  With `keep_dead_sessions`: the handler of a
    session ends with BYE, no handler works for the session (`es₁`), one RELOGIN with its
    uuid is accepted, and its ACK gets out (`es₂`).  Then the new handler finds the session
    as it was left, with what arrived meanwhile. -/
theorem session_persists {password : Bytes} {S₀ S₁ S₂ S₃ S₄ S₅ : Sys K} {a₁ a₂ : Act}
    {os₀ o₁ o₂ o₃ : List (Obs K)} {es₁ es₂ : List (Entry K)} {c₀ : ConnId} {h : Handler}
    {type_ : UInt8} {value : Bytes} {l : Locals K} {r : Ref} {draw : Uuid4}
    (h₀ : Lts.Run (Lts.Guarded (Sys.step L) Sys.Ordinary) (.init password true) S₀ os₀)
    (hbye : S₀.step L a₁ = some (S₁, o₁)) (hok₁ : S₀.Ordinary a₁ o₁)
    (hacc : S₀.Accepts a₁ o₁ c₀ h (type_ :: value)) (hcmd : command type_ = .bye)
    (h₁ : Lts.Run (Lts.Guarded (Sys.record L) (Recorded fun S a o =>
      S.Ordinary a o ∧ S.Deserted h.uuid)) S₁ S₂ es₁)
    (honly : ∀ c, (S₂.tasks c).uses ≠ some h.uuid)
    (hre : S₂.step L a₂ = some (S₃, o₂)) (hok₂ : S₂.Ordinary a₂ o₂)
    (hmem : .relogin c h.uuid ∈ o₂)
    (h₂ : Lts.Run (Lts.Guarded (Sys.record L) (Recorded fun S a o =>
      S.Ordinary a o ∧ S.Deserted h.uuid ∧ ∀ c, .relogin c h.uuid ∉ o)) S₃ S₄ es₂)
    (hsend : S₄.tasks c = .accept (.sendLogin l h.uuid r))
    (hstart : S₄.step L (.resume c .sent draw) = some (S₅, o₃)) :
    S₅.tasks c = .handler ⟨h.uuid, [], [], .start⟩ ∧
      Persisted L S₀.server S₅.server c h.uuid (effects (es₁ ++ es₂)) := by
  have hN₀ := run_named L h₀
  have hN₁ := step_named L hN₀ hbye hok₁
  -- the session has a box when the handler accepts BYE
  obtain ⟨r₀, hr₀⟩ : ∃ r, S₀.server.clientDb.get? h.uuid = some r := by
    obtain ⟨⟨i, d, rfl⟩, ht, hd⟩ := hacc
    cases (step_step L hN₀.sound.tidy hbye).1 with
    | join ht' => rw [ht] at ht'; cases ht'
    | move ht' hm =>
      rw [ht] at ht'
      cases ht'
      obtain ⟨r, _, _, _, _, _, -, hr, -⟩ := hm.accepted L hd
      exact ⟨r, hr⟩
  have hcl₀ : S₀.server.client h.uuid = some (S₀.server.objs r₀) := by
    rw [Server.client, hr₀]
    rfl
  have hbox₁ : S₁.server.office.boxes h.uuid = some (S₀.server.objs r₀).box := by
    rw [office_bye L hN₀.sound (run_keepDeadSessions L h₀) hbye hok₁.1 hacc hcmd, office_boxes, hcl₀]
    rfl
  obtain ⟨hN₂, hbox₂⟩ := run_deserted L (fun h => h) h₁ hN₁ hbox₁
  have hbox₃ : S₃.server.office.boxes h.uuid = S₂.server.office.boxes h.uuid := by
    rw [step_office L hN₂.sound.refs (step_step L hN₂.sound.tidy hre).1 hok₂.1,
      relogin_effect L hre hmem]
    rfl
  have hN₃ := step_named L hN₂ hre hok₂
  obtain ⟨hN₄, hbox₄⟩ := run_deserted L (fun h => ⟨h.1, h.2.1⟩) h₂ hN₃ (hbox₃.trans hbox₂)
  rw [Box.receive_receive, ← puts_append, ← writes_append, ← effects_append] at hbox₄
  -- the link is the one of the RELOGIN when its handler starts
  obtain ⟨hget, hcipher, -⟩ :=
    run_rejoins L hN₃ (hbox₃.trans hbox₂) (relogin_rejoins L honly hre hmem) h₂ l r hsend
  have hcounts : (S₄.tasks c).Counts L c := by
    obtain ⟨_, h₁⟩ := record_run L h₁
    obtain ⟨_, h₂⟩ := record_run L h₂
    exact run_counts L (step_counts L (run_counts L (step_counts L
      (run_counts L (counts_init L _ _) h₀) hbye) h₁) hre) h₂ c
  rw [hsend] at hcounts
  obtain ⟨⟨p, hkey⟩, htx, hrx⟩ := hcounts
  have hcl₄ : S₄.server.client h.uuid = some (S₄.server.objs r) := by
    rw [Server.client, hget]
    rfl
  rw [office_boxes, hcl₄, Option.map_some, Option.some.injEq] at hbox₄
  -- the last step stores the counters
  simp only [Sys.step, hsend, taskStep, acceptStep, finish, Option.some.injEq,
    Prod.mk.injEq] at hstart
  obtain ⟨rfl, -⟩ := hstart
  have hcl₅ : (S₄.server.modify r (Client.setNonces (l.txNonce + 1) l.rxNonce)).client h.uuid =
      some ((S₄.server.objs r).setNonces (l.txNonce + 1) l.rxNonce) := by
    rw [Server.client, Server.modify_clientDb, hget, Option.map_some, Server.modify_objs_self]
  refine ⟨put_tasks_self, ⟨S₀.server.objs r₀, _, hcl₀, hcl₅, (hN₄.sound.refs _ _ hget).2,
    congrArg Box.names hbox₄, congrArg Box.inbox hbox₄, congrArg Box.outbox hbox₄⟩, ?_, ?_⟩
  · intro cl₀ hcl name hname
    obtain rfl := Option.some.inj (hcl₀.symm.trans hcl)
    have hbook : S₄.server.addressBook.get? name = some h.uuid := by
      refine hN₄.agrees.book ⟨(S₄.server.objs r).box, by rw [office_boxes, hcl₄]; rfl, ?_⟩
      rw [hbox₄]
      exact hname
    simp only [whohas, put_server, Server.modify_addressBook, hbook,
      latin1Encode_eq (hN₄.uuids _ (Dict.mem_of_get? hget)).2]
    rfl
  · exact ⟨_, l.cipher, p, hcl₅, hkey, hcipher, congrArg (· + 1) htx, hrx⟩

end

/-! ## A run on fixed inputs -/

instance (u : PyStr) : (t : Task (Accepting K)) → Decidable (t.Serves u)
  | .handler h => inferInstanceAs (Decidable (h.uuid = u))
  | .idle | .accept _ | .over _ => isFalse id

/-- `Ordinary` and `Deserted` for connections below `n`. -/
def Sys.DesertedBelow (n : ℕ) (u : PyStr) (S : Sys K) (a : Act) (o : List (Obs K)) : Prop :=
  S.OrdinaryBelow n a o ∧ (∀ c < n, ¬ (S.tasks c).Serves u) ∧ ∀ x ∈ o, loginUuid true x ≠ some u

instance (n : ℕ) (u : PyStr) (S : Sys K) (a : Act) (o : List (Obs K)) :
    Decidable (S.DesertedBelow n u a o) := inferInstanceAs (Decidable (_ ∧ _ ∧ _))

theorem Sys.DesertedBelow.deserted {n : ℕ} {u : PyStr} {S : Sys K} {a : Act} {o : List (Obs K)}
    (hS : S.Below n) (h : S.DesertedBelow n u a o) :
    S.Ordinary a o ∧ S.Deserted u ∧ ∀ c, .relogin c u ∉ o := by
  refine ⟨h.1.ordinary hS, fun c hc => ?_, fun c hm => h.2.2 _ hm rfl⟩
  by_cases hlt : c < n
  · exact h.2.1 c hlt hc
  · rw [hS c (Nat.le_of_not_lt hlt)] at hc
    exact hc

/-- Connections 0 and 1 log in, and 0 registers `k`. -/
def keptStart : List Act := twoLogins ++ registerAct :: drawing sampleDraw 0 [.sent, .go]

/-- Connection 0 says BYE. -/
def keptBye : Act := .resume 0 (.recv (stubPacket 0 3 [0x88])) sampleDraw

/-- Connection 1 puts a request into the inbox of the session of 0; 2 connects. -/
def keptAway : List Act :=
  .resume 1 (.recv (stubPacket 1 2 ([0x2, 0, 0, 0, 36, 0, 0, 0, 1, 0, 0, 0, 1] ++
    latin1 sampleUuid ++ [9, 107]))) sampleDraw :: .connect 2 ::
    drawing sampleDraw 2 [.recv stubClientPublic, .sent, .recv (stubPacket 2 0 [0]), .sent]

/-- Connection 2 logs in to the session of 0. -/
def keptRelogin : Act := .resume 2 (.recv (stubPacket 2 1 reloginResponse)) sampleDraw

/-- The send of the sender's reply ends. -/
def keptMore : List Act := [.resume 1 .sent sampleDraw]

/-- The ACK of the RELOGIN gets out. -/
def keptFinish : Act := .resume 2 .sent sampleDraw

/-- The names and the inbox of the sample session are found by connection 2. -/
theorem session_persists_sample : ∃ (S₀ S₅ : Sys ℕ) (es : List (Entry ℕ)),
    S₅.tasks 2 = .handler ⟨sampleUuid, [], [], .start⟩ ∧
      Persisted stub S₀.server S₅.server 2 sampleUuid (effects es) ∧
      puts sampleUuid (effects es) =
        [⟨latin1 otherUuid, [107], [9], List.replicate 16 7⟩] := by
  have hexec : ((Lts.exec (Sys.step stub) keptStart (Sys.init [] true)).any fun x₀ =>
      (x₀.1.step stub keptBye).any fun x₁ =>
      (x₀.1.OrdinaryBelow 3 keptBye x₁.2 : Bool) && ((x₀.1.tasks 0).Serves sampleUuid : Bool) &&
      (.accepted (.server 0) [0x88] ∈ x₁.2 : Bool) &&
      (Lts.Along (Sys.record stub) (Recorded (Sys.DesertedBelow 3 sampleUuid)) keptAway x₁.1 : Bool) &&
      (Lts.exec (Sys.record stub) keptAway x₁.1).any fun x₂ =>
      (∀ c < 3, (x₂.1.tasks c).uses ≠ some sampleUuid : Bool) &&
      (x₂.1.step stub keptRelogin).any fun x₃ =>
      (x₂.1.OrdinaryBelow 3 keptRelogin x₃.2 : Bool) && (.relogin 2 sampleUuid ∈ x₃.2 : Bool) &&
      (Lts.Along (Sys.record stub) (Recorded (Sys.DesertedBelow 3 sampleUuid)) keptMore x₃.1 : Bool) &&
      (Lts.exec (Sys.record stub) keptMore x₃.1).any fun x₄ =>
      ((x₄.1.tasks 2).uses = some sampleUuid : Bool) &&
      (¬ (x₄.1.tasks 2).Serves sampleUuid : Bool) &&
      (puts sampleUuid (effects (x₂.2 ++ x₄.2)) =
        [⟨latin1 otherUuid, [107], [9], List.replicate 16 7⟩] : Bool) &&
      (x₄.1.step stub keptFinish).isSome) = true := by decide +kernel
  have halong : Lts.Along (Sys.step stub) (Sys.OrdinaryBelow 3) keptStart (Sys.init [] true) := by
    decide +kernel
  obtain ⟨⟨S₀, os₀⟩, hS₀, h₀⟩ := Option.any_eq_true _ _ |>.1 hexec
  obtain ⟨⟨S₁, o₁⟩, hS₁, h₁⟩ := Option.any_eq_true _ _ |>.1 h₀
  simp only [Bool.and_eq_true, decide_eq_true_eq] at h₁
  obtain ⟨⟨⟨⟨hok₁, hserves⟩, hacc⟩, haway⟩, h₁⟩ := h₁
  obtain ⟨⟨S₂, es₁⟩, hS₂, h₂⟩ := Option.any_eq_true _ _ |>.1 h₁
  simp only [Bool.and_eq_true, decide_eq_true_eq] at h₂
  obtain ⟨honly, h₂⟩ := h₂
  obtain ⟨⟨S₃, o₂⟩, hS₃, h₃⟩ := Option.any_eq_true _ _ |>.1 h₂
  simp only [Bool.and_eq_true, decide_eq_true_eq] at h₃
  obtain ⟨⟨⟨hok₃, hre⟩, hmore⟩, h₃⟩ := h₃
  obtain ⟨⟨S₄, es₂⟩, hS₄, h₄⟩ := Option.any_eq_true _ _ |>.1 h₃
  simp only [Bool.and_eq_true, decide_eq_true_eq] at h₄
  obtain ⟨⟨⟨huses, hnot⟩, hputs⟩, h₄⟩ := h₄
  obtain ⟨⟨S₅, o₃⟩, hS₅⟩ := Option.isSome_iff_exists.1 h₄
  -- only the connections below 3 are used
  have hrec : ∀ {S S' : Sys ℕ} {a : Act} {es : List (Entry ℕ)}, S.Below 3 →
      Recorded (Sys.DesertedBelow 3 sampleUuid) S a es → S.record stub a = some (S', es) →
      S'.Below 3 := by
    intro S S' a es hS hg h
    obtain ⟨o, hstep, rfl⟩ := record_cases stub h
    exact step_below stub hS (hg _ (List.mem_singleton_self _)).1.2.1.1 hstep
  have hb₀ : S₀.Below 3 := (Lts.exec_run hS₀ halong).inv (I := fun S _ => S.Below 3)
    (fun _ _ => rfl) fun _ hS ⟨_, hstep, hok⟩ => step_below stub hS hok.2.1.1 hstep
  have hb₁ := step_below stub hb₀ hok₁.2.1.1 hS₁
  have hb₂ : S₂.Below 3 := (Lts.exec_run hS₂ haway).inv (I := fun S _ => S.Below 3) hb₁
    fun _ hS ⟨_, hstep, hg⟩ => hrec hS hg hstep
  have hb₃ := step_below stub hb₂ hok₃.2.1.1 hS₃
  have hrun₀ := Lts.exec_run hS₀ (halong.imp (I := Sys.Below 3)
    (fun hS h => step_below stub hS h.2.1.1) (fun hS h => h.ordinary hS) fun _ _ => rfl)
  have hrun₁ := Lts.exec_run hS₂ (haway.imp (I := Sys.Below 3)
    (fun hS h => hrec hS h) (fun hS h e he => (h e he).deserted hS) hb₁)
  have hrun₂ := Lts.exec_run hS₄ (hmore.imp (I := Sys.Below 3)
    (fun hS h => hrec hS h) (fun hS h e he => (h e he).deserted hS) hb₃)
  obtain ⟨⟨uuid, buffer, data, pc⟩, ht, rfl⟩ :
      ∃ h, S₀.tasks 0 = .handler h ∧ h.uuid = sampleUuid := by
    rcases htask : S₀.tasks 0 with _ | a | h | e
    · rw [htask] at hserves; exact hserves.elim
    · rw [htask] at hserves; exact hserves.elim
    · rw [htask] at hserves; exact ⟨h, rfl, hserves⟩
    · rw [htask] at hserves; exact hserves.elim
  obtain ⟨l, r, hsend⟩ : ∃ l r, S₄.tasks 2 = .accept (.sendLogin l sampleUuid r) := by
    rcases htask : S₄.tasks 2 with _ | a | h | e
    · rw [htask] at huses; cases huses
    · rw [htask] at huses
      cases a with
      | sendLogin l u r => cases huses; exact ⟨l, r, rfl⟩
      | _ => cases huses
    · rw [htask] at huses hnot
      exact absurd (Option.some.inj huses) hnot
    · rw [htask] at huses; cases huses
  obtain ⟨htask, hpersisted⟩ := session_persists stub hrun₀ hS₁ (hok₁.ordinary hb₀)
    ⟨⟨_, _, rfl⟩, ht, hacc⟩ (by decide)
    (hrun₁.guard fun h e he => ⟨(h e he).1, (h e he).2.1⟩)
    (hb₂.not_uses honly) hS₃ (hok₃.ordinary hb₂) hre hrun₂ hsend hS₅
  exact ⟨S₀, S₅, es₁ ++ es₂, htask, hpersisted, hputs⟩

end Pipebomb
