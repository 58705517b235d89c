/-
  The end of a connection: the exits of the loop of `handle_client`, and the code behind it.

  * `Handler.ending`: the end that the loop comes to at an await.
  * `teardown_reached_iff`: which ends reach the code behind the loop.  At the end of the
    stream and after an invalid header `break` leaves the inner loop only, and
    `verify_packet` is called without a frame.
  * `teardown_releases_iff`: the code behind the loop releases all names of the session,
    exactly if it has at most one.
-/
import Pipebomb.Persistence

namespace Pipebomb

open ByteString

variable {K : Type} (L : Libs K)

/-! ## Names -/

/-- The entries of the address book that are not names of the session. -/
def otherNames (book : Dict PyStr PyStr) (uuid : PyStr) : List (PyStr × PyStr) :=
  book.items.filter fun p => p.2 ≠ uuid

/-- The names of the session. -/
def namesOf (book : Dict PyStr PyStr) (uuid : PyStr) : List PyStr :=
  (book.items.filter fun p => p.2 = uuid).map Prod.fst

/-- The address book after the code behind the loop: the first name is gone. -/
theorem teardown_items (s : Server K) (uuid : PyStr) (hkeep : s.keepDeadSessions = false) :
    (teardown s uuid).addressBook.items = s.addressBook.items.eraseP fun p => p.2 = uuid := by
  simp only [teardown, hkeep, Bool.false_eq_true, if_false]
  split
  · rename_i hnone
    exact (List.eraseP_of_forall_not fun p hp => List.find?_eq_none.1 hnone p hp).symm
  · rename_i p hp
    exact Dict.items_erase_find? hp

/-- **All names are released** exactly if the session has at most one. -/
theorem teardown_releases_iff (s : Server K) (uuid : PyStr) (hkeep : s.keepDeadSessions = false) :
    (teardown s uuid).addressBook.items = otherNames s.addressBook uuid ↔
      (namesOf s.addressBook uuid).length ≤ 1 := by
  have hother : otherNames s.addressBook uuid =
      s.addressBook.items.filter fun p => !decide (p.2 = uuid) := by
    simp [otherNames]
  rw [teardown_items s uuid hkeep, hother, namesOf, List.length_map]
  exact Dict.eraseP_eq_filter_iff

/-- A session with one name. -/
theorem teardown_releases_one : (namesOf (Dict.empty.set ['k'] sampleUuid) sampleUuid).length ≤ 1 ∧
    (teardown ((Server.init [] false : Server ℕ).setBook (Dict.empty.set ['k'] sampleUuid))
      sampleUuid).addressBook.items = otherNames (Dict.empty.set ['k'] sampleUuid) sampleUuid := by
  have hone : (namesOf (Dict.empty.set ['k'] sampleUuid) sampleUuid).length ≤ 1 := by decide
  exact ⟨hone, (teardown_releases_iff _ sampleUuid rfl).2 hone⟩

/-- The connection logs in, registers `k` and `l` and says BYE. -/
def twoNames : List Act := loginActs 0 [0xC5] ++ drawing sampleDraw 0
  [.recv (stubPacket 0 2 [0x85, 107]), .sent, .go, .recv (stubPacket 0 3 [0x85, 108]), .sent, .go]

/-- **A name is left.**  Of a session with two names one stays in the address book when the
    session is gone. -/
theorem name_left : ∃ (S S' : Sys ℕ) (os o : List (Obs ℕ)),
    Lts.Run (Lts.Guarded (Sys.step stub) fun _ _ _ => True) (.init [] false) S os ∧
      S.step stub (.resume 0 (.recv (stubPacket 0 4 [0x88])) sampleDraw) = some (S', o) ∧
      S'.tasks 0 = .over none ∧ sampleUuid ∉ S'.server.clientDb ∧
      S'.server.addressBook.items = [(['l'], sampleUuid)] ∧
      S'.server.addressBook.items ≠ otherNames S.server.addressBook sampleUuid := by
  have hexec : ((Lts.exec (Sys.step stub) twoNames (.init [] false)).any fun x =>
      (x.1.step stub (.resume 0 (.recv (stubPacket 0 4 [0x88])) sampleDraw)).any fun y =>
        y.1.tasks 0 = .over none && sampleUuid ∉ y.1.server.clientDb &&
          y.1.server.addressBook.items = [(['l'], sampleUuid)] &&
          y.1.server.addressBook.items ≠ otherNames x.1.server.addressBook sampleUuid) = true := by
    decide +kernel
  have halong : Lts.Along (Sys.step stub) (fun _ _ _ => True) twoNames (.init [] false) := by
    decide +kernel
  obtain ⟨⟨S, os⟩, hS, hp⟩ := Option.any_eq_true _ _ |>.1 hexec
  obtain ⟨⟨S', o⟩, hS', hq⟩ := Option.any_eq_true _ _ |>.1 hp
  simp only [Bool.and_eq_true, decide_eq_true_eq] at hq
  obtain ⟨⟨⟨hover, hgone⟩, hitems⟩, hleft⟩ := hq
  exact ⟨S, S', os, o, Lts.exec_run hS halong, hS', hover, hgone, hitems, hleft⟩

/-! ## The exits of the loop -/

/-- How the loop of `handle_client` ends. -/
inductive Ending where
  /-- BYE -/
  | bye
  /-- the end of the stream -/
  | eof
  /-- an invalid frame header -/
  | header
  /-- a packet that fails verification -/
  | unverified
  deriving DecidableEq, Repr

/-- The end that the data in the buffer puts to the loop. -/
def bufferEnding (s : Server K) (uuid : PyStr) (buffer : Bytes) : Option Ending :=
  match extractPacketFrame buffer with
  | (_, _, some _) => some .header
  | (none, _, none) => none
  | (some f, _, none) => match s.client uuid with
    | none => none
    | some cl => match verifyPacket L f cl.cipher cl.rxNonce with
      | .ok (.code _) => some .unverified
      | .ok (.payload (type_ :: _) _) => if command type_ = .bye then some .bye else none
      | _ => none

/-- The end that the loop comes to at an await. -/
def Handler.ending (s : Server K) (h : Handler) (i : Input) : Option Ending :=
  match h.pc, i with
  | .sleep, .go => bufferEnding L s h.uuid h.receiveBuffer
  | .recv, .recv [] => some .eof
  | .recv, .recv chunk => bufferEnding L s h.uuid (h.receiveBuffer ++ chunk)
  | .sendall _ .close, _ => some .unverified
  | .sendall _ .frameError, _ => some .header
  | _, _ => none

/-- The step calls `verify_packet` without a frame. -/
def Handler.Frameless (s : Server K) (h : Handler) (i : Input) : Prop :=
  h.uuid ∈ s.clientDb ∧
    (h.pc = .recv ∧ i = .recv [] ∨ (∃ held, h.pc = .sendall held .frameError) ∧ i = .sent)

/-- The coroutine ended behind the loop. -/
structure Torn (s s' : Server K) (h : Handler) (i : Input) (t : Task (Accepting K)) : Prop where
  framed : ¬ h.Frameless s i
  returned : t = .over none
  torn : ∃ s₁, s' = teardown s₁ h.uuid
  gone : h.uuid ∉ s'.clientDb

section
variable {A : Type} {s : Server K} {c : ConnId} {h : Handler} {draw : Uuid4} {k : Ending}

theorem teardown_gone {s : Server K} (hkeep : s.keepDeadSessions = false) (uuid : PyStr) :
    uuid ∉ (teardown s uuid).clientDb := by
  simp only [teardown, hkeep, Bool.false_eq_true, if_false]
  exact fun h => (Dict.mem_erase.1 h).1 rfl

/-- What the data in the buffer does: BYE returns behind the loop, everything else raises
    or goes on. -/
theorem pump_ending (c : ConnId) (draw : Uuid4)
    (hk : bufferEnding L s h.uuid h.receiveBuffer = some k) :
    (k = .bye ∧ ∃ s₁, (pump L s c h draw : Outcome K A).1 = teardown s₁ h.uuid ∧
      s₁.keepDeadSessions = s.keepDeadSessions ∧ (pump L s c h draw : Outcome K A).2.1 = .over none) ∨
    (k = .header ∨ k = .unverified) ∧ (pump L s c h draw : Outcome K A).2.1 ≠ .over none := by
  unfold bufferEnding at hk
  unfold pump
  rcases hex : extractPacketFrame h.receiveBuffer with ⟨_ | f, rest, _ | n⟩
  · rw [hex] at hk; cases hk
  · rw [hex] at hk
    cases hk
    refine .inr ⟨.inl rfl, ?_⟩
    simp only
    split <;> simp [raised]
  · rw [hex] at hk
    simp only at hk ⊢
    rcases hcl : s.client h.uuid with _ | cl
    · rw [hcl] at hk; cases hk
    obtain ⟨r, hr, rfl⟩ := Server.client_eq_some.1 hcl
    rw [hcl] at hk
    simp only at hk
    unfold onFrame
    rw [hr]
    simp only
    rcases hv : verifyPacket L f (s.objs r).cipher (s.objs r).rxNonce with e | n | ⟨_ | ⟨type_, value⟩, rem⟩
    · rw [hv] at hk; cases hk
    · rw [hv] at hk
      cases hk
      exact .inr ⟨.inr rfl, sendReply_over L _ _ _ _⟩
    · rw [hv] at hk; cases hk
    · rw [hv] at hk
      simp only at hk
      split_ifs at hk with hc
      cases hk
      refine .inl ⟨rfl, s.modify r Client.received, ?_⟩
      simp only [seen_server, seen_task, dispatch, hc, proceed]
      exact ⟨trivial, rfl, trivial⟩
  · rw [hex] at hk
    cases hk
    refine .inr ⟨.inl rfl, ?_⟩
    simp only
    split <;> simp [raised]

end

section
variable {s s' : Server K} {c : ConnId} {h : Handler} {draw : Uuid4} {i : Input} {k : Ending}
  {e : Option PyErr} {o : List (Obs K)}

/-- The end of a coroutine whose last step had data in the buffer. -/
theorem pump_torn (h' : Handler) (hu : h'.uuid = h.uuid) (hkeep : s.keepDeadSessions = false)
    (hk : bufferEnding L s h.uuid h'.receiveBuffer = some k)
    (hp : pump L s c h' draw = (s', Task.over (A := Accepting K) e, o))
    (hframe : ¬ h.Frameless s i) (hi : i ≠ .sent) :
    Torn s s' h i (.over e) ↔ k = .bye ∨ k = .unverified ∧ i = .sent ∧ h.uuid ∈ s.clientDb := by
  rw [← hu] at hk
  have hcases := pump_ending L (A := Accepting K) c draw hk
  rw [hp, hu] at hcases
  obtain ⟨rfl, s₁, rfl, hk₁, hover⟩ | ⟨hne, hover⟩ := hcases
  · exact iff_of_true ⟨hframe, hover, ⟨s₁, rfl⟩, teardown_gone (hk₁.trans hkeep) _⟩ (.inl rfl)
  · refine iff_of_false (fun ht => hover ht.returned) ?_
    rintro (rfl | ⟨-, rfl, -⟩)
    · rcases hne with h | h <;> cases h
    · exact hi rfl

/-- `verify_packet` is called without a frame: the coroutine raises. -/
theorem onFrame_none_over (s : Server K) (c : ConnId) (h : Handler) (draw : Uuid4) :
    (onFrame L s c h none draw : Outcome K (Accepting K)).2.1 ≠ .over none := by
  unfold onFrame
  rcases s.clientDb.get? h.uuid with _ | r
  · simp [raised]
  · simp [raised]

/-- Which ends of a handler reach the code behind the loop. -/
theorem handlerStep_torn (hkeep : s.keepDeadSessions = false) (hk : h.ending L s i = some k)
    (ho : handlerStep L s c h i draw = some (s', Task.over (A := Accepting K) e, o)) :
    Torn s s' h i (.over e) ↔ k = .bye ∨ k = .unverified ∧ i = .sent ∧ h.uuid ∈ s.clientDb := by
  unfold Handler.ending at hk
  obtain ⟨j, hj⟩ : ∃ j, j = i := ⟨i, rfl⟩
  split at hk
  · rename_i hpc
    simp only [handlerStep, hpc, Option.some.injEq] at ho
    refine pump_torn L h rfl hkeep hk ho ?_ (by simp)
    rintro ⟨-, ⟨hr, -⟩ | ⟨⟨_, hr⟩, -⟩⟩
    · rw [hpc] at hr; cases hr
    · rw [hpc] at hr; cases hr
  · rename_i hpc
    cases hk
    simp only [handlerStep, hpc, List.length_nil, Nat.not_lt_zero, if_false, if_true,
      Option.some.injEq] at ho
    have hover := onFrame_none_over L s c h draw
    rw [ho] at hover
    refine iff_of_false (fun ht => hover ht.returned) ?_
    rintro (hk | ⟨hk, -⟩)
    · cases hk
    · cases hk
  · rename_i chunk hne hpc
    simp only [handlerStep, hpc] at ho
    split_ifs at ho
    simp only [Option.some.injEq] at ho
    refine pump_torn L { h with receiveBuffer := h.receiveBuffer ++ chunk } rfl hkeep hk ho
      ?_ (by simp)
    rintro ⟨-, ⟨-, hr⟩ | ⟨-, hr⟩⟩
    · cases hr; exact hne rfl
    · cases hr
  · rename_i held hpc
    cases hk
    subst hj
    cases j with
    | sent =>
      simp only [handlerStep, hpc, onSent] at ho
      rcases hr : s.clientDb.get? h.uuid with _ | r
      · rw [hr] at ho
        simp only [raised, Option.some.injEq, Prod.mk.injEq, Task.over.injEq] at ho
        obtain ⟨-, rfl, -⟩ := ho
        refine iff_of_false (fun ht => by cases ht.returned) ?_
        rintro (hk | ⟨-, -, hu⟩)
        · cases hk
        · exact Dict.get?_eq_none.1 hr hu
      · rw [hr] at ho
        simp only [Option.some.injEq, Prod.mk.injEq, Task.over.injEq] at ho
        obtain ⟨rfl, rfl, -⟩ := ho
        refine iff_of_true ⟨?_, rfl, ⟨_, rfl⟩, teardown_gone ?_ _⟩
          (.inr ⟨rfl, rfl, Dict.mem_of_get? hr⟩)
        · rintro ⟨-, ⟨hr, -⟩ | ⟨⟨_, hr⟩, -⟩⟩
          · rw [hpc] at hr; cases hr
          · rw [hpc] at hr; cases hr
        · rw [release_keepDeadSessions]
          exact hkeep
    | raise e =>
      simp only [handlerStep, hpc, raised, Option.some.injEq, Prod.mk.injEq, Task.over.injEq] at ho
      obtain ⟨-, rfl, -⟩ := ho
      refine iff_of_false (fun ht => by cases ht.returned) ?_
      rintro (hk | ⟨-, hi, -⟩)
      · cases hk
      · cases hi
    | go => simp only [handlerStep, hpc] at ho; cases ho
    | recv chunk => simp only [handlerStep, hpc] at ho; cases ho
  · rename_i held hpc
    cases hk
    subst hj
    have hfalse : ¬ (Ending.header = .bye ∨ Ending.header = .unverified ∧ j = .sent ∧
        h.uuid ∈ s.clientDb) := by
      rintro (hk | ⟨hk, -⟩)
      · cases hk
      · cases hk
    refine iff_of_false (fun ht => ?_) hfalse
    have hret := ht.returned
    cases hret
    cases j with
    | sent =>
      simp only [handlerStep, hpc, onSent, Option.some.injEq] at ho
      have hover := onFrame_none_over L s c h draw
      rw [ho] at hover
      exact hover rfl
    | raise e =>
      simp only [handlerStep, hpc, raised, Option.some.injEq, Prod.mk.injEq, Task.over.injEq] at ho
      cases ho.2.1
    | go => simp only [handlerStep, hpc] at ho; cases ho
    | recv chunk => simp only [handlerStep, hpc] at ho; cases ho
  · cases hk

end

section
variable {S S' : Sys K} {os o : List (Obs K)}

/-- **Which ends reach the code behind the loop**: BYE, and a packet that fails
    verification, if the error is sent and the session is still there then.  At the end of
    the stream and after an invalid header the coroutine raises. -/
theorem teardown_reached_iff {password : Bytes}
    (hrun : Lts.Run (Lts.Guarded (Sys.step L) fun _ _ _ => True) (.init password false) S os)
    {c : ConnId} {h : Handler} (htask : S.tasks c = .handler h) {i : Input} {draw : Uuid4}
    (hstep : S.step L (.resume c i draw) = some (S', o)) {k : Ending}
    (hk : h.ending L S.server i = some k) {e : Option PyErr} (hend : S'.tasks c = .over e) :
    Torn S.server S'.server h i (S'.tasks c) ↔
      k = .bye ∨ k = .unverified ∧ i = .sent ∧ h.uuid ∈ S.server.clientDb := by
  have hkeep := run_keepDeadSessions L hrun
  obtain ⟨_, ha, -⟩ | ⟨_, _, _, s, t, ha, ht, rfl⟩ | ⟨_, ha, -⟩ := step_cases L hstep
  · cases ha
  · cases ha
    rw [put_tasks_self] at hend
    subst hend
    rw [htask] at ht
    rw [put_tasks_self]
    exact handlerStep_torn L hkeep hk ht
  · cases ha

end

/-! ## Runs on fixed inputs -/

/-- A connection says BYE. -/
theorem teardown_reached_sample : ∃ (S S' : Sys ℕ) (h : Handler) (i : Input),
    h.ending stub S.server i = some .bye ∧ Torn S.server S'.server h i (S'.tasks 0) := by
  have hexec : ((Lts.exec (Sys.step stub) (loginActs 0 [0xC5]) (.init [] false)).any fun x =>
      (x.1.tasks 0).handler?.any fun h =>
        h.ending stub x.1.server (.recv (stubPacket 0 2 [0x88])) = some .bye &&
          (x.1.step stub (.resume 0 (.recv (stubPacket 0 2 [0x88])) sampleDraw)).any fun y =>
            y.1.tasks 0 = .over none) = true := by decide +kernel
  have halong : Lts.Along (Sys.step stub) (fun _ _ _ => True) (loginActs 0 [0xC5])
      (.init [] false) := by decide +kernel
  obtain ⟨⟨S, os⟩, hS, hp⟩ := Option.any_eq_true _ _ |>.1 hexec
  obtain ⟨h, hh, hq⟩ := Option.any_eq_true _ _ |>.1 hp
  simp only [Bool.and_eq_true, decide_eq_true_eq] at hq
  obtain ⟨⟨S', o⟩, hS', hover⟩ := Option.any_eq_true _ _ |>.1 hq.2
  exact ⟨S, S', h, _, hq.1, (teardown_reached_iff stub (Lts.exec_run hS halong)
    (Task.eq_handler hh) hS' hq.1 (of_decide_eq_true hover)).2 (.inl rfl)⟩

instance (s : Server K) (h : Handler) (i : Input) : Decidable (h.Frameless s i) :=
  have : Decidable (∃ held, h.pc = .sendall held .frameError) :=
    match h.pc with
    | .sendall held .frameError => isTrue ⟨held, rfl⟩
    | .sendall _ .next | .sendall _ .close | .start | .sleep | .recv | .dbLock _ | .inboxGet _
    | .outboxPut _ _ | .outboxGet _ _ => isFalse (by simp)
  inferInstanceAs (Decidable (_ ∧ _))

/-- **The end of the stream.**  A connection is closed while the handler waits for data: the
    coroutine raises, and its session stays. -/
theorem eof_not_torn : ∃ (S S' : Sys ℕ) (os o : List (Obs ℕ)) (h : Handler),
    Lts.Run (Lts.Guarded (Sys.step stub) fun _ _ _ => True) (.init [] false) S os ∧
      S.tasks 0 = .handler h ∧ h.ending stub S.server (.recv []) = some .eof ∧
      S.step stub (.resume 0 (.recv []) sampleDraw) = some (S', o) ∧
      h.Frameless S.server (.recv []) ∧ (S'.tasks 0).handler? = none ∧
      h.uuid ∈ S'.server.clientDb ∧ ¬ Torn S.server S'.server h (.recv []) (S'.tasks 0) := by
  have hexec : ((Lts.exec (Sys.step stub) (loginActs 0 [0xC5]) (.init [] false)).any fun x =>
      (x.1.tasks 0).handler?.any fun h =>
        h.ending stub x.1.server (.recv []) = some .eof && h.Frameless x.1.server (.recv []) &&
          (x.1.step stub (.resume 0 (.recv []) sampleDraw)).any fun y =>
            (y.1.tasks 0).handler? = none && h.uuid ∈ y.1.server.clientDb) = true := by
    decide +kernel
  have halong : Lts.Along (Sys.step stub) (fun _ _ _ => True) (loginActs 0 [0xC5])
      (.init [] false) := by decide +kernel
  obtain ⟨⟨S, os⟩, hS, hp⟩ := Option.any_eq_true _ _ |>.1 hexec
  obtain ⟨h, hh, hq⟩ := Option.any_eq_true _ _ |>.1 hp
  simp only [Bool.and_eq_true, decide_eq_true_eq] at hq
  obtain ⟨⟨S', o⟩, hS', hr⟩ := Option.any_eq_true _ _ |>.1 hq.2
  simp only [Bool.and_eq_true, decide_eq_true_eq] at hr
  exact ⟨S, S', os, o, h, Lts.exec_run hS halong, Task.eq_handler hh, hq.1.1, hS', hq.1.2, hr.1,
    hr.2, fun ht => ht.gone hr.2⟩

end Pipebomb
