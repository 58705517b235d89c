/-
  The grammar of the requests.

  `handle_client` decodes a command from the lower half of the first byte and the bit above
  it, and cuts the fields of a body with slices that may come out short.  So more payloads
  run a command than the documented ones.

  * `Grammatical`: the documented payloads; `Executes`: the payloads that run a command.
  * `Refused`: a payload is answered with an error and only counters change.
  * `by_grammar_iff`: a payload is treated by its grammar, unless it runs a command that the
    grammar does not have, or is empty.
-/
import Pipebomb.MailPath

namespace Pipebomb

open ByteString

variable {K : Type} (L : Libs K)

/-! ## Payloads -/

/-- The documented first bytes, of server requests and of client requests. -/
def opcodes : List UInt8 :=
  [0x81, 0x82, 0x83, 0x84, 0x85, 0x86, 0x87, 0x88] ++ [0x01, 0x02, 0x03, 0x04, 0x05]

/-- A documented first byte, and for SET, PUT_INBOX and PUT_OUTBOX a body of fields. -/
def Grammatical : Bytes → Prop
  | [] => False
  | type_ :: value => type_ ∈ opcodes ∧ (type_ = 0x81 → Body 2 value) ∧
      (type_ = 0x02 → Body 3 value) ∧ (type_ = 0x04 → Body 4 value)

/-- The payload runs a command. -/
def Executes : Bytes → Prop
  | [] => False
  | type_ :: _ => command type_ ≠ .unknown

instance (data : Bytes) : Decidable (Executes data) := by
  cases data with
  | nil => exact isFalse id
  | cons type_ value => exact inferInstanceAs (Decidable (_ ≠ _))

instance (data : Bytes) : Decidable (Grammatical data) := by
  cases data with
  | nil => exact isFalse id
  | cons type_ value => exact inferInstanceAs (Decidable (_ ∧ _))

/-- A documented first byte runs a command. -/
theorem command_opcodes : ∀ type_ ∈ opcodes, command type_ ≠ .unknown := by decide +kernel

theorem Grammatical.executes {data : Bytes} (h : Grammatical data) : Executes data := by
  cases data with
  | nil => exact h
  | cons type_ value => exact command_opcodes type_ h.1

/-- Nothing changes but the counters of the sessions. -/
def OnlyCounters (s s' : Server K) : Prop :=
  ∃ rx tx : Ref → ℕ, s' = { s with objs := fun r => { s.objs r with rxNonce := rx r, txNonce := tx r } }

/-- The session has a nonce left for a reply. -/
def Server.HasNonce (s : Server K) (u : PyStr) : Prop := ∃ cl, s.client u = some cl ∧ cl.txNonce < 2 ^ 96

instance (s : Server K) (u : PyStr) : Decidable (s.HasNonce u) :=
  match hcl : s.client u with
  | none => isFalse fun ⟨_, h, _⟩ => by rw [hcl] at h; cases h
  | some cl => decidable_of_iff (cl.txNonce < 2 ^ 96)
      ⟨fun h => ⟨cl, hcl, h⟩, fun ⟨_, h, h'⟩ => by rw [hcl] at h; cases h; exact h'⟩

section
variable {s : Server K} {c : ConnId} {u : PyStr} {r : Ref} {data y : Bytes} {draw : Uuid4}

theorem received_onlyCounters (s : Server K) (r : Ref) : OnlyCounters s (s.modify r Client.received) := by
  refine ⟨fun r' => ((s.modify r Client.received).objs r').rxNonce, fun r' => (s.objs r').txNonce, ?_⟩
  have hobjs : (s.modify r Client.received).objs = fun r' =>
      { s.objs r' with rxNonce := ((s.modify r Client.received).objs r').rxNonce } := by
    funext r'
    rw [Server.modify_objs]
    split_ifs <;> rfl
  rw [← hobjs]
  rfl

/-- What can be sent after a payload was processed. -/
theorem sendable_dispatch (hr : s.clientDb.get? u = some r) (hk : (s.objs r).cipher.isSome) :
    Sendable L (dispatch (s.modify r Client.received) u data draw).1 u (.ok y) ↔
      s.HasNonce u ∧ y ≠ [] ∧ Fits L y := by
  have hcl : s.client u = some (s.objs r) := by rw [Server.client, hr]; rfl
  have hcl' : (s.modify r Client.received).client u = some (s.objs r).received := by
    rw [Server.client, Server.modify_clientDb, hr, Option.map_some, Server.modify_objs_self]
  rw [(dispatch_quiet _ u data draw).sendable, sendable_ok]
  constructor
  · rintro ⟨cl, h, -, hn, hy⟩
    cases hcl'.symm.trans h
    exact ⟨⟨s.objs r, hcl, hn⟩, hy⟩
  · rintro ⟨⟨cl, h, hn⟩, hy⟩
    cases hcl.symm.trans h
    exact ⟨_, hcl', hk, hn, hy⟩

end

/-! ## A step that accepts a payload -/

section
variable {S S' : Sys K} {c : ConnId} {h : Handler} {i : Input} {draw : Uuid4} {o : List (Obs K)} {data : Bytes}

/-- The payload is answered with an error and only counters change. -/
def Refused (S S' : Sys K) (o : List (Obs K)) (c : ConnId) (u : PyStr) (data : Bytes) : Prop :=
  (∃ n E, errDispatch n = .ok E ∧ .answered c u data E ∈ o) ∧ OnlyCounters S.server S'.server

/-- **What is done with a payload.** -/
theorem step_accepted (hh : S.tasks c = .handler h) (hstep : S.step L (.resume c i draw) = some (S', o))
    (ha : .accepted (.server c) data ∈ o) :
    ∃ r h' os s t, h.pc.Reads ∧ S.server.clientDb.get? h.uuid = some r ∧
      (S.server.objs r).cipher.isSome ∧ h'.uuid = h.uuid ∧ h'.data = data ∧ Inner os ∧
      S' = S.put c s t ∧ (s, t, o) = seen (os ++ [.accepted (.server c) data])
        (proceed L c h' (dispatch (S.server.modify r Client.received) h.uuid data draw)) := by
  obtain ⟨s, t, ho, he⟩ := step_handler L hh hstep
  obtain ⟨hreads, r, h', frame, rem, os, hr, hu, hd, hin, hv, hout⟩ := handlerStep_accepted L ho ha
  obtain ⟨-, k, -, -, hk, -⟩ := verifyPacket_payload L hv
  exact ⟨r, h', os, s, t, hreads, hr, by rw [hk]; rfl, hu, hd, hin, he, hout⟩

/-- An unknown command is refused as long as there are nonces. -/
theorem unknown_refused_iff {type_ : UInt8} {value : Bytes} (hh : S.tasks c = .handler h)
    (hstep : S.step L (.resume c i draw) = some (S', o))
    (ha : .accepted (.server c) (type_ :: value) ∈ o) (hcmd : command type_ = .unknown) :
    Refused S S' o c h.uuid (type_ :: value) ↔ S.server.HasNonce h.uuid := by
  obtain ⟨r, h', os, s, t, -, hr, hk, hu, hd, hin, rfl, hout⟩ := step_accepted L hh hstep ha
  have hsend : Sendable L (dispatch (S.server.modify r Client.received) h.uuid (type_ :: value) draw).1
      h.uuid (.ok [0, 69, 82, 82, 4]) ↔ S.server.HasNonce h.uuid ∧ ([0, 69, 82, 82, 4] : Bytes) ≠ [] ∧
        Fits L [0, 69, 82, 82, 4] := sendable_dispatch L hr hk
  have hdispatch : dispatch (S.server.modify r Client.received) h.uuid (type_ :: value) draw =
      (S.server.modify r Client.received, .reply [0, 69, 82, 82, 4]) := by
    simp only [dispatch, hcmd]
    rfl
  have hfits : Fits L [0, 69, 82, 82, 4] := fits_of_length L (by decide)
  rw [hdispatch, ← hu] at hsend
  have hiff : Sendable L (S.server.modify r Client.received) h'.uuid (.ok [0, 69, 82, 82, 4]) ↔
      S.server.HasNonce h.uuid := by
    rw [hsend, hu]
    exact ⟨fun h => h.1, fun h => ⟨h, by simp, hfits⟩⟩
  rw [hdispatch] at hout
  rw [← hiff]
  constructor
  · rintro ⟨⟨n, E, -, hans⟩, -⟩
    by_contra hno
    obtain ⟨e, os', hin', hs⟩ := sendReply_not_sendable (A := Accepting K) L (c := c) .none .next hno
    rw [show proceed L c h' (S.server.modify r Client.received, .reply [0, 69, 82, 82, 4]) = _
      from hs] at hout
    cases hout
    rcases List.mem_append.1 hans with hans | hans
    · rcases List.mem_append.1 hans with hans | hans
      · exact hin _ hans
      · simp at hans
    · exact hin' _ hans
  · intro hs
    obtain ⟨y, pkt, os', hy, hin', hs⟩ := sendReply_sendable (A := Accepting K) L (c := c)
      .none .next hs
    cases hy
    rw [show proceed L c h' (S.server.modify r Client.received, .reply [0, 69, 82, 82, 4]) = _
      from hs] at hout
    cases hout
    refine ⟨⟨4, _, rfl, ?_⟩, received_onlyCounters _ _⟩
    rw [hu, hd]
    simp

/-- **A payload is treated by its grammar** exactly if it has it, or is refused. -/
theorem accepted_by_grammar_iff (hh : S.tasks c = .handler h)
    (hstep : S.step L (.resume c i draw) = some (S', o)) (ha : .accepted (.server c) data ∈ o) :
    (Executes data → Grammatical data) ∧ (¬ Grammatical data → Refused S S' o c h.uuid data) ↔
      Grammatical data ∨ data ≠ [] ∧ ¬ Executes data ∧ S.server.HasNonce h.uuid := by
  cases data with
  | nil =>
    refine iff_of_false (fun ⟨_, hno⟩ => ?_) (by rintro (h | ⟨h, -⟩); exacts [h, h rfl])
    -- `data[0]` raises
    obtain ⟨⟨n, E, -, hans⟩, -⟩ := hno id
    obtain ⟨r, h', os, s, t, -, -, -, -, -, hin, -, hout⟩ := step_accepted L hh hstep ha
    cases hout
    rcases List.mem_append.1 hans with hans | hans
    · rcases List.mem_append.1 hans with hans | hans
      · exact hin _ hans
      · simp at hans
    · cases hans
  | cons type_ value =>
    by_cases hcmd : command type_ = .unknown
    · have hexec : ¬ Executes (type_ :: value) := fun h => h hcmd
      have hgram : ¬ Grammatical (type_ :: value) := fun h => hexec h.executes
      rw [← unknown_refused_iff L hh hstep ha hcmd]
      exact ⟨fun h => .inr ⟨by simp, hexec, h.2 hgram⟩,
        fun h => ⟨fun h' => absurd h' hexec, fun _ => (h.resolve_left hgram).2.2⟩⟩
    · exact ⟨fun h => .inl (h.1 hcmd),
        fun h => (h.imp_right fun h' => absurd hcmd h'.2.1).elim
          (fun h => ⟨fun _ => h, fun h' => absurd h h'⟩) False.elim⟩

end

/-- **Payloads and their grammar.**  In every run, a payload that a handler accepts runs a
    command only if it is grammatical, and is refused otherwise, exactly if it is
    grammatical, or it is not empty, its command is unknown and there is a nonce left. -/
theorem by_grammar_iff {password : Bytes} {keep : Bool} {S : Sys K}
    {xs : List (Lts.Shown (Sys K) Act (Obs K))}
    (hrun : Lts.Run (Lts.Guarded (Lts.shown (Sys.step L)) (Lts.Showing fun _ _ _ => True))
      (.init password keep) S xs) :
    ∀ x ∈ xs, ∀ c h data, x.before.Accepts x.act x.obs c h data →
      ((Executes data → Grammatical data) ∧
          (¬ Grammatical data → Refused x.before x.after x.obs c h.uuid data) ↔
        Grammatical data ∨ data ≠ [] ∧ ¬ Executes data ∧ x.before.server.HasNonce h.uuid) := by
  rintro x hx c h data ⟨⟨i, draw, hact⟩, hh, ha⟩
  obtain ⟨xs₁, xs₂, rfl, hbefore, hstep, -⟩ := Lts.shown_mem hrun hx
  rw [hact] at hstep
  exact accepted_by_grammar_iff L hh hstep ha

/-! ## Runs on fixed inputs -/

instance (a : Act) (c : ConnId) : Decidable (∃ i draw, a = .resume c i draw) :=
  match a with
  | .resume c' i draw => decidable_of_iff (c' = c)
      ⟨fun h => ⟨i, draw, h ▸ rfl⟩, fun ⟨_, _, h⟩ => by cases h; rfl⟩
  | .connect _ | .admin _ => isFalse fun ⟨_, _, h⟩ => by cases h

/-- Connection 0 logs in and sends the payload. -/
def payloadActs (data : Bytes) : List Act :=
  loginActs 0 [0xC5] ++ [.resume 0 (.recv (stubPacket 0 2 data)) sampleDraw]

/-- The last step of a run. -/
theorem last_mem (acts : List Act) (P : Lts.Shown (Sys ℕ) Act (Obs ℕ) → Bool)
    (hexec : ((Lts.exec (Lts.shown (Sys.step stub)) acts (.init [] false)).any fun x =>
      x.2.getLast?.any P) = true)
    (halong : Lts.Along (Lts.shown (Sys.step stub)) (Lts.Showing fun _ _ _ => True) acts
      (.init [] false)) :
    ∃ S xs x, Lts.Run (Lts.Guarded (Lts.shown (Sys.step stub)) (Lts.Showing fun _ _ _ => True))
      (.init [] false) S xs ∧ x ∈ xs ∧ P x = true := by
  obtain ⟨⟨S, xs⟩, hS, hp⟩ := Option.any_eq_true _ _ |>.1 hexec
  obtain ⟨x, hx, hp⟩ := Option.any_eq_true _ _ |>.1 hp
  exact ⟨S, xs, x, Lts.exec_run hS halong, List.mem_of_getLast? hx, hp⟩

/-- The payload `0x80` is refused. -/
theorem by_grammar_sample : ∃ (x : Lts.Shown (Sys ℕ) Act (Obs ℕ)) (h : Handler),
    x.before.Accepts x.act x.obs 0 h [0x80] ∧ (Executes [0x80] → Grammatical [0x80]) ∧
      (¬ Grammatical [0x80] → Refused x.before x.after x.obs 0 h.uuid [0x80]) := by
  obtain ⟨S, xs, x, hrun, hx, hp⟩ := last_mem (payloadActs [0x80])
    (fun x => (x.before.tasks 0).handler?.any fun h => .accepted (.server 0) [0x80] ∈ x.obs &&
      decide (∃ i draw, x.act = .resume 0 i draw) &&
      x.before.server.HasNonce h.uuid) (by decide +kernel) (by decide +kernel)
  obtain ⟨h, hh, hp⟩ := Option.any_eq_true _ _ |>.1 hp
  simp only [Bool.and_eq_true, decide_eq_true_eq] at hp
  obtain ⟨⟨ha, hact⟩, hn⟩ := hp
  have haccepts : x.before.Accepts x.act x.obs 0 h [0x80] := ⟨hact, Task.eq_handler hh, ha⟩
  exact ⟨x, h, haccepts,
    (by_grammar_iff stub hrun x hx 0 h [0x80] haccepts).2 (.inr ⟨by simp, by decide, hn⟩)⟩

/-- In a run the payload runs a command, though it is not grammatical, and is not refused. -/
def Misread (data : Bytes) : Prop :=
  ∃ (S : Sys ℕ) (xs : List (Lts.Shown (Sys ℕ) Act (Obs ℕ))) (x : Lts.Shown (Sys ℕ) Act (Obs ℕ))
    (h : Handler), Lts.Run (Lts.Guarded (Lts.shown (Sys.step stub)) (Lts.Showing fun _ _ _ => True))
      (.init [] false) S xs ∧ x ∈ xs ∧ x.before.Accepts x.act x.obs 0 h data ∧
    ¬ Grammatical data ∧ Executes data ∧ ¬ Refused x.before x.after x.obs 0 h.uuid data

theorem misread_of_exec {data : Bytes} (hgram : ¬ Grammatical data) (hcmd : Executes data)
    (hexec : ((Lts.exec (Lts.shown (Sys.step stub)) (payloadActs data) (.init [] false)).any fun x =>
      x.2.getLast?.any fun x => (x.before.tasks 0).handler?.any fun _ =>
        .accepted (.server 0) data ∈ x.obs && decide (∃ i draw, x.act = .resume 0 i draw) &&
        x.obs.all fun o => match o with
          | .answered .. => false
          | _ => true) = true)
    (halong : Lts.Along (Lts.shown (Sys.step stub)) (Lts.Showing fun _ _ _ => True) (payloadActs data)
      (.init [] false)) : Misread data := by
  obtain ⟨S, xs, x, hrun, hx, hp⟩ := last_mem _ _ hexec halong
  obtain ⟨h, hh, hp⟩ := Option.any_eq_true _ _ |>.1 hp
  simp only [Bool.and_eq_true, decide_eq_true_eq] at hp
  obtain ⟨⟨ha, hact⟩, hsilent⟩ := hp
  refine ⟨S, xs, x, h, hrun, hx, ⟨hact, Task.eq_handler hh, ha⟩, hgram, hcmd, ?_⟩
  rintro ⟨⟨n, E, -, hans⟩, -⟩
  exact absurd (List.all_eq_true.1 hsilent _ hans) (by simp)

/-- **RELOGIN after the login runs LIST**, and a SET with a byte left over is not refused. -/
theorem misread_payloads : Misread [0xC4] ∧ Misread (0x81 :: (bodyOf [[1], [2]] ++ [9])) :=
  ⟨misread_of_exec (by decide) (by decide) (by decide +kernel) (by decide +kernel),
    misread_of_exec (by decide) (by decide) (by decide +kernel) (by decide +kernel)⟩

end Pipebomb
