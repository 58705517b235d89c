/-
  Operations and the replies they receive.

  Replies carry no id: they go through `input_packets` in the order in which they arrive, and
  an operation takes the first one.

  * `RawClient.Turns`: what a step of the client does to its operations.
  * `Correlated`: what was asked, what was returned and what still waits, beside the packets
    that both ends built; `Correlated.step`: every step keeps it, if the operations are in order
    and none is called after one timed out.
  * `Correlated.returns`: what operations receive is what the server answered them.
-/
import Pipebomb.Lockstep

namespace Pipebomb

open ByteString

variable {K : Type} (L : Libs K)

/-! ## Operations -/

variable {c : ConnId} {os o : List (Obs K)} {C C' : RawClient K}

/-- An operation of the client starts or ends. -/
def Obs.Turn : Obs K → Prop
  | .called _ | .returned _ _ | .timedOut _ => True
  | _ => False

theorem silent_of_not (h : ∀ x ∈ o, ¬ x.Turn) :
    asked o = [] ∧ returns o = [] ∧ ∀ d, .timedOut d ∉ o := by
  refine ⟨?_, ?_, fun d hd => h _ hd trivial⟩
  · rw [asked, List.filterMap_eq_nil_iff]
    intro x hx
    cases x with
    | called data => exact absurd trivial (h _ hx)
    | _ => rfl
  · rw [returns, List.filterMap_eq_nil_iff]
    intro x hx
    cases x with
    | returned data reply => exact absurd trivial (h _ hx)
    | _ => rfl

theorem OfClient.silent (h : OfClient o) : asked o = [] ∧ returns o = [] ∧ ∀ d, .timedOut d ∉ o := by
  refine silent_of_not fun x hx ht => ?_
  cases x with
  | called | returned | timedOut => exact h _ hx
  | _ => exact ht

theorem AllBy.silent {uses : Option PyStr} (h : AllBy c uses o) :
    asked o = [] ∧ returns o = [] ∧ ∀ d, .timedOut d ∉ o := by
  refine silent_of_not fun x hx ht => ?_
  cases x with
  | called | returned | timedOut => exact h _ hx
  | _ => exact ht

theorem mem_of_asked {data : Bytes} (h : data ∈ asked o) : .called data ∈ o := by
  obtain ⟨x, hx, he⟩ := List.mem_filterMap.1 h
  cases x with
  | called data' =>
    cases he
    exact hx
  | _ => cases he

/-- A client whose operations can be called. -/
structure RawClient.Open (C : RawClient K) : Prop where
  connected : C.connection = .connected
  closing : C.closing = .idle
  cipher : C.cipher ≠ none

/-- **What a step does to the operations.** -/
inductive RawClient.Turns (C : RawClient K) (out : RawClient.After K) : Prop
  /-- no operation starts or ends -/
  | goesOn : OfClient out.2 → out.1.calls = C.calls →
      (C.connection = .connected → out.1.Open → C.Open ∧ built L .client out.2 = []) → Turns C out
  | asks {call : Call} {data : Bytes} : C.Open → asked out.2 = [data] → returns out.2 = [] →
      payloads (built L .client out.2) = [data] → (∀ d, .timedOut d ∉ out.2) →
      out.1.calls = C.calls ++ [(call, data)] → Turns C out
  | returns {call : Call} {data reply : Bytes} {rest : List (Call × Bytes)} {replies : List Bytes} :
      C.calls = (call, data) :: rest → C.inputPackets = reply :: replies →
      out = ({ C with inputPackets := replies, calls := rest }, [.returned data reply]) → Turns C out
  | timesOut {call : Call} {data : Bytes} {rest : List (Call × Bytes)} :
      C.calls = rest ++ [(call, data)] →
      out = ({ C with calls := rest }, [.timedOut data]) → Turns C out

/-! ## `connect` and the loops -/

/-- The operations are the same, and so is what waits for them. -/
def RawClient.SameCalls (C C' : RawClient K) : Prop :=
  C'.calls = C.calls ∧ C'.inputPackets = C.inputPackets

theorem sendConnect_sameCalls {data : Bytes} {next : Connecting} (h : C.SameCalls C') :
    C.SameCalls (C'.sendConnect L data next).1 := by
  unfold RawClient.sendConnect RawClient.saw
  split
  · exact h
  · exact h

theorem onChunk_sameCalls {buffer chunk : Bytes} {waiting : Bytes → Connecting}
    {frame : Bytes → RawClient.After K} (h : ∀ f, C.SameCalls (frame f).1) :
    C.SameCalls (C.onChunk buffer chunk waiting frame).1 := by
  unfold RawClient.onChunk
  split_ifs
  · exact ⟨rfl, rfl⟩
  · split
    · exact ⟨rfl, rfl⟩
    · exact h _
    · exact ⟨rfl, rfl⟩

theorem onAck_sameCalls (frame : Bytes) : C.SameCalls (C.onAck L frame).1 := by
  unfold RawClient.onAck RawClient.saw
  split
  · exact ⟨rfl, rfl⟩
  · exact ⟨rfl, rfl⟩
  · simp only
    split_ifs
    · exact ⟨rfl, rfl⟩
    · exact sendConnect_sameCalls L ⟨rfl, rfl⟩

theorem onReply_sameCalls (frame : Bytes) : C.SameCalls (C.onReply L frame).1 := by
  unfold RawClient.onReply RawClient.saw
  split
  · exact ⟨rfl, rfl⟩
  · exact ⟨rfl, rfl⟩
  · exact ⟨rfl, rfl⟩

theorem connectStep_sameCalls {i : Input} {out : RawClient.After K}
    (h : C.connectStep L i = some out) : C.SameCalls out.1 := by
  unfold RawClient.connectStep at h
  split at h
  · cases h
    exact ⟨rfl, rfl⟩
  · split_ifs at h
    · cases h
      exact ⟨rfl, rfl⟩
    · cases h
      exact ⟨rfl, rfl⟩
    · cases h
      unfold RawClient.onServerKey
      split
      · exact ⟨rfl, rfl⟩
      · exact sendConnect_sameCalls L ⟨rfl, rfl⟩
  · cases h
    exact ⟨rfl, rfl⟩
  · split_ifs at h
    cases h
    exact onChunk_sameCalls (onAck_sameCalls L)
  · cases h
    exact ⟨rfl, rfl⟩
  · split_ifs at h
    cases h
    exact onChunk_sameCalls (onReply_sameCalls L)
  · cases h
  · cases h
  · cases h
  · cases h
    exact ⟨rfl, rfl⟩
  · cases h

/-- A step that neither builds a packet nor opens or closes the client. -/
structure RawClient.Receives (C : RawClient K) (out : RawClient.After K) : Prop where
  built : built L .client out.2 = []
  calls : out.1.calls = C.calls
  cipher : out.1.cipher = C.cipher
  closing : out.1.closing = C.closing

theorem recvFrame_receives {out : RawClient.After K} (h : C.Receives L out) (frame : Bytes) :
    C.Receives L (RawClient.recvFrame L out frame).1 := by
  have hbuilt : ∀ o : List (Obs K), Pipebomb.built L .client o = [] →
      Pipebomb.built L .client
        ((out.2 ++ decryptCall .client frame out.1.cipher out.1.rxNonce) ++ o) = [] := by
    intro o ho
    have hdec : Pipebomb.built L .client
        (decryptCall .client frame out.1.cipher out.1.rxNonce) = [] := by
      unfold decryptCall
      split
      · split_ifs
        · rfl
        · rfl
      · rfl
    rw [built_append, built_append, h.built, hdec, ho]
    rfl
  have hnone := hbuilt [] rfl
  rw [List.append_nil] at hnone
  unfold RawClient.recvFrame
  simp only
  split
  · exact ⟨hnone, h.calls, h.cipher, h.closing⟩
  · exact ⟨hnone, h.calls, h.cipher, h.closing⟩
  · split_ifs
    · exact ⟨hnone, h.calls, h.cipher, h.closing⟩
    all_goals exact ⟨hbuilt _ rfl, h.calls, h.cipher, h.closing⟩

theorem recvLoopStep_receives {i : Input} {out : RawClient.After K}
    (h : C.recvLoopStep L i = some out) : C.Receives L out := by
  have hsame : ∀ r : RecvLoop, C.Receives L ({ C with recvLoop := r }, []) :=
    fun r => ⟨rfl, rfl, rfl, rfl⟩
  unfold RawClient.recvLoopStep at h
  split at h
  · rename_i buffer chunk hr
    have hdrain := packetFraming.drain_inv (P := fun o => C.Receives L o) (RawClient.recvFrame L)
      (fun _ frame h => recvFrame_receives L h frame) (s := (C, [])) ⟨rfl, rfl, rfl, rfl⟩
        (buffer ++ chunk)
    split_ifs at h
    · cases h
      exact hsame _
    · split at h
      · rename_i he
        cases h
        rw [he] at hdrain
        exact ⟨hdrain.built, hdrain.calls, hdrain.cipher, hdrain.closing⟩
      · rename_i he
        cases h
        rw [he] at hdrain
        exact ⟨hdrain.built, hdrain.calls, hdrain.cipher, hdrain.closing⟩
      · rename_i he
        cases h
        rw [he] at hdrain
        exact ⟨hdrain.built, hdrain.calls, hdrain.cipher, hdrain.closing⟩
  · cases h
    exact hsame _
  · cases h

theorem sendLoopStep_receives {i : Input} {out : RawClient.After K}
    (h : C.sendLoopStep i = some out) : C.Receives L out := by
  unfold RawClient.sendLoopStep at h
  split at h
  · split at h
    · cases h
    · cases h
      exact ⟨rfl, rfl, rfl, rfl⟩
  · split_ifs at h
    · cases h
      exact ⟨rfl, rfl, rfl, rfl⟩
    · cases h
      exact ⟨rfl, rfl, rfl, rfl⟩
  · cases h
  · cases h
    exact ⟨rfl, rfl, rfl, rfl⟩
  · cases h

/-- A step of a loop. -/
theorem RawClient.Receives.turns {out : RawClient.After K} (h : C.Receives L out)
    (ho : OfClient out.2) (hc : C.connection = .connected) : C.Turns L out := by
  refine .goesOn ho h.calls fun _ hopen => ⟨⟨hc, ?_, ?_⟩, h.built⟩
  · rw [← h.closing]
    exact hopen.closing
  · rw [← h.cipher]
    exact hopen.cipher

/-! ## Calls -/

/-- An operation that cannot build its packet. -/
theorem unbuilt_turns {k : K} {n : ℕ} {data : Bytes}
    (ht : tally L .client (encryptCall .client data (some k) n) = .none) :
    C.Turns L (C, encryptCall .client data (some k) n) :=
  .goesOn (ofClient_encryptCall data (some k) n) rfl fun _ hopen => ⟨hopen, congrArg Tally.built ht⟩

theorem send_turns {call : Call} (hc : C.connection = .connected) (hr : C.Ready) :
    C.Turns L (C.attempt (C.send L call)) := by
  have hsame : C.Turns L (C, []) := .goesOn .nil rfl fun _ hopen => ⟨hopen, rfl⟩
  unfold RawClient.send RawClient.attempt
  rcases hpay : call.payload with e | data
  · exact hsame
  simp only
  rcases hk : C.cipher with _ | k
  · rcases hp : constructPacket L data (none : Option K) C.txNonce with e | pkt
    · exact hsame
    · obtain ⟨-, -, -, k, hk', -⟩ := (constructPacket_ok L).1 hp
      cases hk'
  · rcases tally_construct L .client k C.txNonce data with ⟨hp, ht⟩ | ⟨e, hp, ht⟩
    · rw [hp]
      obtain ⟨hasked, hret, htimed⟩ := (ofClient_encryptCall data (some k) C.txNonce).silent
      have hopen : C.Open := ⟨hc, hr.closing, by rw [hk]; exact Option.some_ne_none k⟩
      refine RawClient.Turns.asks hopen ?_ ?_ ?_ ?_ rfl
      · rw [asked_append, hasked]
        rfl
      · rw [returns_append, hret]
        rfl
      · have hbuilt := congrArg Tally.built ht
        rw [built_append]
        rw [tally] at hbuilt
        simp only at hbuilt
        rw [hbuilt]
        rfl
      · intro d hd
        rcases List.mem_append.1 hd with hd | hd
        · exact htimed d hd
        · cases List.mem_singleton.1 hd
    · rw [hp]
      exact unbuilt_turns L ht

theorem close_turns : C.Turns L (C.attempt (C.close L)) := by
  unfold RawClient.close RawClient.attempt
  rcases hk : C.cipher with _ | k
  · exact .goesOn .nil rfl fun _ hopen => absurd hk hopen.cipher
  simp only
  rcases tally_construct L .client k C.txNonce [0x88] with ⟨hp, ht⟩ | ⟨e, hp, ht⟩
  · rw [hp]
    refine .goesOn ((ofClient_encryptCall _ _ _).append (ofClient_single rfl)) rfl fun _ hopen => ?_
    cases hopen.closing
  · rw [hp]
    exact unbuilt_turns L ht

/-- **What a step does to the operations.** -/
theorem client_turns {a : RawClient.Act} {out : RawClient.After K} (h : C.step L a = some out)
    (horder : C.InOrder a) : C.Turns L out := by
  cases a with
  | connect relogUuid =>
    simp only [RawClient.step] at h
    split_ifs at h with hc
    cases h
    refine .goesOn (ofClient_single rfl) rfl fun hc' => ?_
    rw [not_not.1 hc] at hc'
    cases hc'
  | resume i =>
    refine .goesOn (connectStep_ofClient L h) (connectStep_sameCalls L h).1 fun hc => ?_
    simp only [RawClient.step, RawClient.connectStep, hc] at h
    cases h
  | sendLoop i =>
    simp only [RawClient.step] at h
    split_ifs at h with hc
    exact (sendLoopStep_receives L h).turns L (sendLoopStep_ofClient h) hc
  | recvLoop i =>
    simp only [RawClient.step] at h
    split_ifs at h with hc
    exact (recvLoopStep_receives L h).turns L (recvLoopStep_ofClient L h) hc
  | call call =>
    simp only [RawClient.step] at h
    split_ifs at h with hc
    cases h
    exact send_turns L hc horder
  | receive n =>
    obtain rfl : n = 0 := horder
    simp only [RawClient.step] at h
    rcases hcalls : C.calls with _ | ⟨⟨call, data⟩, rest⟩
    · rw [hcalls] at h
      cases h
    rcases hin : C.inputPackets with _ | ⟨reply, replies⟩
    · rw [hcalls, hin] at h
      cases h
    · rw [hcalls, hin] at h
      cases h
      exact .returns hcalls hin rfl
  | timeout n =>
    simp only [RawClient.step] at h
    rcases List.eq_nil_or_concat C.calls with hcalls | ⟨rest, ⟨call, data⟩, hcalls⟩
    · rw [hcalls] at h
      cases h
    · obtain rfl : n = rest.length := by
        have hlen : n + 1 = C.calls.length := horder
        rw [hcalls] at hlen
        simpa using hlen
      have herase : (rest ++ [(call, data)]).eraseIdx rest.length = rest := by
        rw [List.eraseIdx_append_of_length_le le_rfl, Nat.sub_self, List.eraseIdx_cons_zero,
          List.append_nil]
      rw [hcalls, List.concat_eq_append, List.getElem?_concat_length] at h
      simp only [herase] at h
      cases h
      exact .timesOut (by rwa [List.concat_eq_append] at hcalls) rfl
  | close =>
    simp only [RawClient.step] at h
    split_ifs at h with hc
    cases h
    exact close_turns L
  | closing i =>
    simp only [RawClient.step, RawClient.closeStep] at h
    split at h
    · cases h
      refine .goesOn .nil rfl fun _ hopen => ?_
      exact absurd rfl hopen.cipher
    · cases h
      refine .goesOn .nil rfl fun _ hopen => ?_
      cases hopen.closing
    · cases h

/-! ## Correlation -/

/-- **What ties the operations to the packets.**  The first two packets of each end are those of
    the handshake. -/
structure Correlated (c : ConnId) (C : RawClient K) (os : List (Obs K)) : Prop where
  asked : asked os <+: (payloads (built L .client os)).drop 2
  opened : C.Open → Pipebomb.asked os = (payloads (built L .client os)).drop 2
  calls : (returns os).map Prod.fst ++ C.calls.map Prod.snd <+: Pipebomb.asked os
  untimed : (∀ d, .timedOut d ∉ os) →
    (returns os).map Prod.fst ++ C.calls.map Prod.snd = Pipebomb.asked os
  replies : (returns os).map Prod.snd ++ C.inputPackets <+:
    ((payloads (built L (.server c) os)).take (Pipebomb.opened .client os).length).drop 2
  reading : C.connection = .connected → C.reading ≠ none →
    (returns os).map Prod.snd ++ C.inputPackets =
      ((payloads (built L (.server c) os)).take (Pipebomb.opened .client os).length).drop 2
  early : C.connection ≠ .connected → Pipebomb.asked os = [] ∧ returns os = [] ∧ C.calls = [] ∧
    C.inputPackets = [] ∧ ∀ d, .timedOut d ∉ os

theorem correlated_init (peer : String) (password : Bytes) :
    Correlated L c (.init peer password) [] where
  asked := List.nil_prefix
  opened h := by cases h.connected
  calls := List.nil_prefix
  untimed _ := rfl
  replies := List.nil_prefix
  reading h := by cases h
  early _ := ⟨rfl, rfl, rfl, rfl, by simp⟩

/-- No operation is called after one timed out. -/
def CalledUntimed (before : List (Obs K)) : Obs K → Prop
  | .called _ => ∀ d, .timedOut d ∉ before
  | _ => True

theorem prefix_drop_append {α : Type} (l m : List α) (n : ℕ) : l.drop n <+: (l ++ m).drop n := by
  rw [List.drop_append]
  exact List.prefix_append _ _

/-- The operations after a step of a connected client. -/
theorem Correlated.turns (h : Correlated L c C os) {out : RawClient.After K}
    (hc : C.connection = .connected) (h2 : 2 ≤ (built L .client os).length) (ht : C.Turns L out)
    (hcalled : ∀ x ∈ out.2, CalledUntimed os x) :
    Pipebomb.asked (os ++ out.2) <+: (payloads (built L .client (os ++ out.2))).drop 2 ∧
      (out.1.Open → Pipebomb.asked (os ++ out.2) = (payloads (built L .client (os ++ out.2))).drop 2) ∧
      (returns (os ++ out.2)).map Prod.fst ++ out.1.calls.map Prod.snd <+:
        Pipebomb.asked (os ++ out.2) ∧
      ((∀ d, .timedOut d ∉ os ++ out.2) →
        (returns (os ++ out.2)).map Prod.fst ++ out.1.calls.map Prod.snd =
          Pipebomb.asked (os ++ out.2)) := by
  have hbefore : (∀ d, .timedOut d ∉ os ++ out.2) → ∀ d, .timedOut d ∉ os :=
    fun hno d hd => hno d (List.mem_append_left _ hd)
  rw [asked_append, returns_append, built_append, payloads_append]
  cases ht with
  | goesOn ho hcalls hopen =>
    obtain ⟨hasked, hret, htimed⟩ := ho.silent
    rw [hasked, hret, hcalls, List.append_nil, List.append_nil]
    refine ⟨h.asked.trans (prefix_drop_append _ _ _), fun ho' => ?_, h.calls,
      fun hno => h.untimed (hbefore hno)⟩
    obtain ⟨ho, hb⟩ := hopen hc ho'
    rw [hb, h.opened ho]
    simp [payloads]
  | @asks call data hopen hasked hret hb htimed hcalls =>
    have hmem : .called data ∈ out.2 := mem_of_asked (by rw [hasked]; exact List.mem_cons_self)
    have huntimed : ∀ d, .timedOut d ∉ os := hcalled _ hmem
    have hasks : Pipebomb.asked os ++ [data] = (payloads (built L .client os) ++ [data]).drop 2 := by
      rw [h.opened hopen, List.drop_append_of_le_length]
      rwa [length_payloads]
    have hcall : (returns os).map Prod.fst ++ (C.calls ++ [(call, data)]).map Prod.snd =
        Pipebomb.asked os ++ [data] := by
      rw [List.map_append, ← List.append_assoc, h.untimed huntimed]
      rfl
    rw [hasked, hret, hb, hcalls, List.append_nil, hcall]
    exact ⟨hasks ▸ List.prefix_refl _, fun _ => hasks, List.prefix_refl _, fun _ => rfl⟩
  | @returns call data reply rest replies hcalls hin hout =>
    subst hout
    have hmove : (returns os ++ [(data, reply)]).map Prod.fst ++ rest.map Prod.snd =
        (returns os).map Prod.fst ++ C.calls.map Prod.snd := by
      rw [hcalls]
      simp
    have hasked : Pipebomb.asked ([.returned data reply] : List (Obs K)) = [] := rfl
    have hret : Pipebomb.returns ([.returned data reply] : List (Obs K)) = [(data, reply)] := rfl
    have hb : built L .client ([.returned data reply] : List (Obs K)) = [] := rfl
    rw [hasked, hret, hb, hmove, List.append_nil]
    refine ⟨?_, fun hopen => ?_, h.calls, fun hno => h.untimed (hbefore hno)⟩
    · simpa [payloads] using h.asked
    · simpa [payloads] using h.opened ⟨hopen.connected, hopen.closing, hopen.cipher⟩
  | @timesOut call data rest hcalls hout =>
    subst hout
    have hasked : Pipebomb.asked ([.timedOut data] : List (Obs K)) = [] := rfl
    have hret : Pipebomb.returns ([.timedOut data] : List (Obs K)) = [] := rfl
    have hb : built L .client ([.timedOut data] : List (Obs K)) = [] := rfl
    rw [hasked, hret, hb, List.append_nil, List.append_nil]
    refine ⟨?_, fun hopen => ?_, ?_, fun hno => ?_⟩
    · simpa [payloads] using h.asked
    · simpa [payloads] using h.opened ⟨hopen.connected, hopen.closing, hopen.cipher⟩
    · have hfewer : (returns os).map Prod.fst ++ rest.map Prod.snd <+:
          (returns os).map Prod.fst ++ C.calls.map Prod.snd := by
        rw [hcalls, List.map_append, ← List.append_assoc]
        exact List.prefix_append _ _
      exact hfewer.trans h.calls
    · exact absurd (List.mem_append_right _ List.mem_cons_self) (hno data)

/-- What was taken behind the packets of the handshake. -/
theorem take_taken {ys taken : List (K × ℕ × Bytes)} {i : ℕ} (h2 : 2 ≤ i) (hi : i ≤ ys.length)
    (ht : taken <+: ys.drop i) : ((payloads ys).take (i + taken.length)).drop 2 =
      ((payloads ys).take i).drop 2 ++ payloads taken := by
  have htaken : ((payloads ys).drop i).take taken.length = payloads taken := by
    rw [payloads, ← List.map_drop, ← List.map_take, ← List.prefix_iff_eq_take.1 ht]
    rfl
  rw [List.take_add, htaken, List.drop_append_of_le_length]
  rw [List.length_take, length_payloads]
  omega

/-- The replies after a step of a connected client. -/
theorem Correlated.fed (h : Correlated L c C os) {out : RawClient.After K} {feed : Bytes}
    {taken new : List (K × ℕ × Bytes)} {got : List Bytes} (hc : C.connection = .connected)
    (h2 : 2 ≤ (Pipebomb.opened .client os).length)
    (hle : (Pipebomb.opened .client os).length ≤ (built L (.server c) os).length)
    (hf : ClientFed L c (built L (.server c) os) (Pipebomb.opened .client os).length feed C out taken new
      got) :
    (returns (os ++ out.2)).map Prod.snd ++ out.1.inputPackets <+:
        ((payloads (built L (.server c) os)).take (Pipebomb.opened .client (os ++ out.2)).length).drop 2 ∧
      (out.1.reading ≠ none → (returns (os ++ out.2)).map Prod.snd ++ out.1.inputPackets =
        ((payloads (built L (.server c) os)).take
          (Pipebomb.opened .client (os ++ out.2)).length).drop 2) := by
  have hopened : (Pipebomb.opened .client (os ++ out.2)).length =
      (Pipebomb.opened .client os).length + taken.length := by
    have ho : Pipebomb.opened .client out.2 = taken.map (opening L) := hf.opened
    rw [opened_append_obs, List.length_append, ho, List.length_map]
  have hreplies : (returns (os ++ out.2)).map Prod.snd ++ out.1.inputPackets =
      ((returns os).map Prod.snd ++ C.inputPackets) ++ got := by
    rw [returns_append, List.map_append, List.append_assoc, hf.inputs, List.append_assoc]
  rw [hopened, take_taken h2 hle hf.next, hreplies]
  constructor
  · by_cases hr : C.reading = none
    · obtain rfl := hf.stopped hr
      obtain rfl := List.prefix_nil.1 hf.gets
      simpa [payloads] using h.replies
    · rw [h.reading hc hr]
      exact (List.prefix_append_right_inj _).2 hf.gets
  · intro hr
    obtain ⟨b, hb⟩ := Option.ne_none_iff_exists'.1 hr
    obtain ⟨⟨b', hb'⟩, -⟩ := hf.reads b hb
    rw [h.reading hc (by rw [hb']; exact Option.some_ne_none b'), hf.all hc hr]
    rfl

/-- Before `connect` returned no operation waits, and none can be called. -/
theorem unconnected_step (hc : C.connection ≠ .connected) (hcalls : C.calls = [])
    {a : RawClient.Act} {out : RawClient.After K} (h : C.step L a = some out) :
    C.SameCalls out.1 ∧ OfClient out.2 := by
  cases a with
  | connect relogUuid =>
    simp only [RawClient.step] at h
    split_ifs at h
    cases h
    exact ⟨⟨rfl, rfl⟩, ofClient_single rfl⟩
  | resume i => exact ⟨connectStep_sameCalls L h, connectStep_ofClient L h⟩
  | sendLoop i | recvLoop i | call call | close =>
    simp only [RawClient.step, if_neg hc] at h
    cases h
  | receive n | timeout n =>
    simp only [RawClient.step, hcalls] at h
    cases h
  | closing i =>
    simp only [RawClient.step, RawClient.closeStep] at h
    split at h
    · cases h
      exact ⟨⟨rfl, rfl⟩, .nil⟩
    · cases h
      exact ⟨⟨rfl, rfl⟩, .nil⟩
    · cases h

variable {N N' : Net K} {e : ServerEnd K} {f : ClientEnd K} {xs : List (K × ℕ × Bytes)}

/-- When `connect` returns, the packets of the handshake were built and opened. -/
theorem Locked.joins (h : Locked L c N os e f xs) {b : RawClient.Act} (horder : N.client.InOrder b)
    (hchunk : b.chunk <+: N.toClient) (hs : N.client.step L b = some (C, o))
    (hc : N.client.connection ≠ .connected) (hc' : C.connection = .connected) :
    (built L .client (os ++ o)).length ≤ 2 ∧ (opened .client (os ++ o)).length = 2 := by
  obtain ⟨buffer, -, -, -, -, hreply, -⟩ := connect_returns L hc hs hc'
  have hk : N.client.Keyed := by
    rw [RawClient.Keyed, hreply]
    trivial
  obtain ⟨taken, new, got, hf⟩ := h.clientFed L hk hs hchunk horder
  obtain ⟨-, htaken, rfl⟩ := hf.joins hc hc'
  have hread : N.client.reading = some buffer := by simp only [RawClient.reading, hreply]
  have hplace := ((clientPlace_keyed L hk).1 h.client.place).2 buffer hread
  have hn := h.nonces
  rw [RawClient.AtNonces, hreply] at hn
  have hone : (opened .client os).length = 1 := hplace.1.symm.trans hn.2.1
  have hbuilt : (built L .client os).length ≤ 2 := by
    have hearly := h.client.early
    rw [tally] at hearly
    simp only [hone] at hearly
    exact hearly le_rfl
  have hopened : opened .client o = taken.map (opening L) := hf.opened
  have hnew : built L .client o = [] := hf.built
  rw [built_append, hnew, List.append_nil, opened_append_obs, List.length_append, hopened, List.length_map, hone,
    htaken]
  exact ⟨hbuilt, rfl⟩

/-- **A step of the client.** -/
theorem Correlated.client (h : Correlated L c N.client os) (hlock : Locked L c N os e f xs)
    {b : RawClient.Act} (horder : N.client.InOrder b) (hchunk : b.chunk <+: N.toClient)
    (hs : N.client.step L b = some (C, o)) (hcalled : ∀ x ∈ o, CalledUntimed os x) :
    Correlated L c C (os ++ o) := by
  have hserver : built L (.server c) (os ++ o) = built L (.server c) os := by
    have hno : built L (.server c) o = [] := congrArg Tally.built ((client_atClient L hs).tally L)
    rw [built_append, hno, List.append_nil]
  by_cases hc : N.client.connection = .connected
  · have hk : N.client.Keyed := by
      rw [RawClient.Keyed, hc]
      trivial
    have hc' : C.connection = .connected := (connected_step L hc hs).1
    obtain ⟨taken, new, got, hf⟩ := hlock.clientFed L hk hs hchunk horder
    have h2 : 2 ≤ (Pipebomb.opened .client os).length := hlock.client.joined hc
    have hle := hlock.opened_le L
    have hbuilt : 2 ≤ (built L .client os).length := by
      obtain ⟨h₁, h₂, h₃⟩ := hlock.le L
      exact (h2.trans hle).trans (h₁.trans (h₂.trans h₃))
    obtain ⟨hasked, hopen, hcalls, huntimed⟩ :=
      h.turns L hc hbuilt (client_turns L hs horder) hcalled
    obtain ⟨hreplies, hreading⟩ := h.fed L hc h2 hle hf
    refine ⟨hasked, hopen, hcalls, huntimed, ?_, fun _ hr => ?_, fun hno => absurd hc' hno⟩
    · rw [hserver]
      exact hreplies
    · rw [hserver]
      exact hreading hr
  · obtain ⟨hasked, hret, hcalls, hinput, htimed⟩ := h.early hc
    obtain ⟨⟨hcalls', hinput'⟩, ho⟩ := unconnected_step L hc hcalls hs
    obtain ⟨hasked', hret', htimed'⟩ := ho.silent
    have hA : Pipebomb.asked (os ++ o) = [] := by rw [asked_append, hasked, hasked']; rfl
    have hR : returns (os ++ o) = [] := by rw [returns_append, hret, hret']; rfl
    rw [hcalls] at hcalls'
    rw [hinput] at hinput'
    refine ⟨?_, fun hopen => ?_, ?_, fun _ => ?_, ?_, fun hc' _ => ?_, fun _ => ?_⟩
    · rw [hA]
      exact List.nil_prefix
    · have hjoin := hlock.joins L horder hchunk hs hc hopen.connected
      rw [hA, List.drop_eq_nil_of_le]
      rw [length_payloads]
      exact hjoin.1
    · rw [hR, hcalls']
      exact List.nil_prefix
    · rw [hR, hcalls', hA]
      rfl
    · rw [hR, hinput']
      exact List.nil_prefix
    · have hjoin := hlock.joins L horder hchunk hs hc hc'
      rw [hR, hinput', List.drop_eq_nil_of_le]
      · rfl
      · rw [hjoin.2]
        exact List.length_take_le _ _
    · refine ⟨hA, hR, hcalls', hinput', fun d hd => ?_⟩
      rcases List.mem_append.1 hd with hd | hd
      · exact htimed d hd
      · exact htimed' d hd

/-- **A step of the server.** -/
theorem Correlated.server (h : Correlated L c C os)
    (hle : (Pipebomb.opened .client os).length ≤ (built L (.server c) os).length)
    (ht : tally L .client o = .none)
    (hsilent : Pipebomb.asked o = [] ∧ returns o = [] ∧ ∀ d, .timedOut d ∉ o) :
    Correlated L c C (os ++ o) := by
  obtain ⟨hasked, hret, htimed⟩ := hsilent
  have hA : Pipebomb.asked (os ++ o) = Pipebomb.asked os := by rw [asked_append, hasked, List.append_nil]
  have hR : returns (os ++ o) = returns os := by rw [returns_append, hret, List.append_nil]
  have hB : built L .client (os ++ o) = built L .client os := by
    have hb : built L .client o = [] := congrArg Tally.built ht
    rw [built_append, hb, List.append_nil]
  have hO : Pipebomb.opened .client (os ++ o) = Pipebomb.opened .client os := by
    have ho : Pipebomb.opened .client o = [] := congrArg Tally.opened ht
    rw [opened_append_obs, ho, List.append_nil]
  have hU : (payloads (built L (.server c) (os ++ o))).take (Pipebomb.opened .client os).length =
      (payloads (built L (.server c) os)).take (Pipebomb.opened .client os).length := by
    rw [built_append, payloads_append, List.take_append_of_le_length]
    rwa [length_payloads]
  have htimed' : (∀ d, .timedOut d ∉ os ++ o) ↔ ∀ d, .timedOut d ∉ os := by
    simp only [List.mem_append, not_or, forall_and]
    exact and_iff_left htimed
  constructor
  · rw [hA, hB]
    exact h.asked
  · rw [hA, hB]
    exact h.opened
  · rw [hA, hR]
    exact h.calls
  · rw [hA, hR, htimed']
    exact h.untimed
  · rw [hR, hO, hU]
    exact h.replies
  · rw [hR, hO, hU]
    exact h.reading
  · rw [hA, hR, htimed']
    exact h.early

/-- **One step.** -/
theorem Correlated.step {a : Net.Act} (h : Correlated L c N.client os)
    (hlock : Locked L c N os e f xs) (hstep : N.step L c a = some (N', o))
    (hhonest : N.Honest c a o) (horder : N.InOrder a) (hcalled : ∀ x ∈ o, CalledUntimed os x) :
    Correlated L c N'.client (os ++ o) := by
  rcases Net.step_cases L hstep with ⟨b, S, rfl, hs, rfl⟩ | ⟨b, C, rfl, hs, rfl⟩
  · have hle := hlock.opened_le L
    rcases step_cases L hs with ⟨c', rfl, hidle, rfl, rfl⟩ | ⟨c', i, draw, s, t, rfl, ht, rfl⟩ |
      ⟨op, rfl, rfl, rfl⟩
    · exact h.server L hle rfl ⟨rfl, rfl, by simp⟩
    · have hby := taskStep_obs L ht
      exact h.server L hle (tally_of_not L (hby.of fun hp => by cases hp)) hby.silent
    · exact h.server L hle rfl ⟨rfl, rfl, by simp⟩
  · exact h.client L hlock horder hhonest.client hs hcalled

/-! ## What operations receive -/

/-- Pairs whose parts are the first ones. -/
theorem prefix_zip {α β : Type} {ps : List (α × β)} {as : List α} {bs : List β}
    (ha : ps.map Prod.fst <+: as) (hb : ps.map Prod.snd <+: bs) : ps <+: as.zip bs := by
  obtain ⟨as', rfl⟩ := ha
  obtain ⟨bs', rfl⟩ := hb
  have hps : (ps.map Prod.fst).zip (ps.map Prod.snd) = ps := by
    have hunzip := List.zip_unzip ps
    rwa [List.unzip_eq_map] at hunzip
  rw [List.zip_append (by rw [List.length_map, List.length_map]), hps]
  exact List.prefix_append _ _

/-- **What operations receive** is what the server answered them: in the order of the calls, each
    gets the reply to its own request. -/
theorem Correlated.returns (h : Correlated L c N.client os) (hlock : Locked L c N os e f xs) :
    (Pipebomb.returns os).map Prod.fst <+: Pipebomb.asked os ∧
      Pipebomb.returns os <+: answers (.server c) os := by
  have hasked : (Pipebomb.returns os).map Prod.fst <+: Pipebomb.asked os :=
    (List.prefix_append _ _).trans h.calls
  refine ⟨hasked, ?_⟩
  have hsent : (Pipebomb.returns os).map Prod.fst <+: (payloads (built L .client os)).drop 2 :=
    hasked.trans h.asked
  have hreplied : (Pipebomb.returns os).map Prod.snd <+:
      (payloads (built L (.server c) os)).drop 2 :=
    ((List.prefix_append _ _).trans h.replies).trans ((List.take_prefix _ _).drop 2)
  -- the requests that the server answered are the first of those that the client built
  have hanswers : answers (.server c) os =
      ((payloads (built L .client os)).drop 2).zip ((payloads (built L (.server c) os)).drop 2) := by
    obtain ⟨pending, hb, -⟩ := hlock.client.built
    have hb' : built L .client os = xs ++ pending := hb
    obtain ⟨h₁, h₂, -⟩ := hlock.le L
    have hzip : (payloads (built L .client os)).zip (payloads (built L (.server c) os)) =
        (payloads xs).zip (payloads (built L (.server c) os)) := by
      rw [hb', payloads_append, zip_grow]
      rw [length_payloads, length_payloads]
      exact h₁.trans h₂
    have hdrop : ((payloads (built L .client os)).zip (payloads (built L (.server c) os))).drop 2 =
        ((payloads (built L .client os)).drop 2).zip ((payloads (built L (.server c) os)).drop 2) :=
      List.drop_zipWith
    rw [← hdrop, hzip]
    exact hlock.server.exchange.answers
  rw [hanswers]
  exact prefix_zip hsent hreplied

end Pipebomb
