/-
  What `handle_client` writes to its socket.

  * `Server.sending` is the cipher and the nonce under which a session sends, `Handler.next`
    those of the next packet of its handler.
  * `Emission`: a step writes nothing, or one packet under the next nonce.  Only the answer to
    a broken header is no packet: it is written without `construct_packet`
    (`handlerStep_emission`).
  * `output_iff`: so what a handler writes is a stream of packets under consecutive nonces,
    which the client cuts and opens one by one, if and only if it never found a broken header.
-/
import Pipebomb.Segments
import Pipebomb.Service
import Pipebomb.Wire
import Pipebomb.ServerLink
import Pipebomb.Names

namespace Pipebomb

open ByteString

variable {K : Type} (L : Libs K)

/-! ## Packets under consecutive nonces -/

/-- Built packets, which open under the nonces from `n` on. -/
def Packets (k : K) (n : ℕ) (ps : List Bytes) : Prop :=
  ∀ i p, ps[i]? = some p → ∃ data, constructPacket L data (some k) (n + i) = .ok p ∧
    verifyPacket L p (some k) (n + i) = .ok (.payload data none)

/-- The bytes are such packets, and the receive loop takes them off one by one. -/
def PacketStream (k : K) (n : ℕ) (bs : Bytes) : Prop :=
  ∃ ps, bs = ps.flatten ∧ Packets L k n ps ∧ takeFrames [] bs = (ps, [], none)

section
variable {k : K} {n : ℕ} {ps : List Bytes} {p data : Bytes}

theorem Packets.nil : Packets L k n [] := by
  intro i p h
  cases h

theorem Packets.snoc (h : Packets L k n ps)
    (hp : constructPacket L data (some k) (n + ps.length) = .ok p) : Packets L k n (ps ++ [p]) := by
  intro i q hq
  rcases Nat.lt_trichotomy i ps.length with hi | rfl | hi
  · rw [List.getElem?_append_left hi] at hq
    exact h i q hq
  · rw [List.getElem?_append_right (Nat.le_refl _), Nat.sub_self] at hq
    cases hq
    exact ⟨data, hp, verify_construct L hp⟩
  · rw [List.getElem?_eq_none (by simp; omega)] at hq
    cases hq

theorem Packets.wellFormed (h : Packets L k n ps) : ∀ p ∈ ps, WellFormed p := by
  intro p hp
  obtain ⟨i, hi⟩ := List.mem_iff_getElem?.1 hp
  obtain ⟨data, hc, -⟩ := h i p hi
  obtain ⟨-, -, hf, k', -, rfl⟩ := (constructPacket_ok L).1 hc
  exact ⟨_, by rw [length_sealed]; exact hf, rfl⟩

/-- Packets are a stream of packets. -/
theorem Packets.stream (h : Packets L k n ps) : PacketStream L k n ps.flatten :=
  ⟨ps, rfl, h, takeFrames_flatten fun p hp => (h.wellFormed L p hp).complete⟩

/-- Packets and then a few bytes that are none are no stream of packets. -/
theorem Packets.not_stream {raw : Bytes} (h : Packets L k n ps) (hne : raw ≠ [])
    (hraw : raw.length < 6) : ¬ PacketStream L k n (ps ++ [raw]).flatten := by
  rintro ⟨qs, -, -, hqs⟩
  rw [List.flatten_append, List.flatten_singleton,
    takeFrames_append fun p hp => (h.wellFormed L p hp).complete] at hqs
  have hmore : packetFraming.cut raw = .more := by
    show cutPacket raw = .more
    rw [cutPacket_eq, if_pos hraw]
  rw [takeFrames, packetFraming.drain_more _ hmore] at hqs
  exact hne (congrArg (fun x => x.2.1) hqs)

end

/-! ## What a session sends under -/

/-- The cipher of the session and the nonce of its next packet. -/
def Server.sending (s : Server K) (u : PyStr) : Option (K × ℕ) :=
  (s.client u).bind fun cl => cl.cipher.map fun k => (k, cl.txNonce)

/-- The packets whose send has not ended: they do not count in `tx_nonce` yet. -/
def Await.owes : Await → ℕ
  | .sendall _ .next | .sendall _ .close => 1
  | _ => 0

/-- The cipher and the nonce of the next packet of the handler. -/
def Handler.next (s : Server K) (h : Handler) : Option (K × ℕ) :=
  (s.sending h.uuid).map fun x => (x.1, x.2 + h.pc.owes)

def Task.next {A : Type} (s : Server K) : Task A → Option (K × ℕ)
  | .handler h => h.next s
  | _ => none

/-- The coroutine is not sending the answer to a broken header. -/
def Task.Whole {A : Type} : Task A → Prop
  | .handler h => ∀ held, h.pc ≠ .sendall held .frameError
  | _ => True

section
variable {s s' : Server K} {u : PyStr} {r : Ref}

theorem sending_of_client {cl : Client K} (h : s.client u = some cl) :
    s.sending u = cl.cipher.map fun k => (k, cl.txNonce) := by
  rw [Server.sending, h]
  rfl

/-- A change that keeps sessions, ciphers and counters of sent packets. -/
theorem sending_congr (hdb : s'.clientDb = s.clientDb)
    (hobj : ∀ r, (s'.objs r).cipher = (s.objs r).cipher ∧ (s'.objs r).txNonce = (s.objs r).txNonce) :
    s'.sending u = s.sending u := by
  rw [Server.sending, Server.sending, Server.client, Server.client, hdb]
  rcases s.clientDb.get? u with _ | r
  · rfl
  · simp only [Option.map_some, Option.bind_some, (hobj r).1, (hobj r).2]

theorem Quiet.sending (h : Quiet s s') : s'.sending u = s.sending u :=
  sending_congr h.clientDb fun r => ⟨(h.link r).cipher, (h.link r).txNonce⟩

theorem sending_received (s : Server K) (r : Ref) :
    (s.modify r Client.received).sending u = s.sending u := by
  refine sending_congr rfl fun r' => ?_
  rw [Server.modify_objs]
  split_ifs
  · exact ⟨rfl, rfl⟩
  · exact ⟨rfl, rfl⟩

/-- The end of a send advances the counter. -/
theorem sending_sent (hu : s.clientDb.get? u = some r) :
    (s.modify r Client.sent).sending u = (s.sending u).map fun x => (x.1, x.2 + 1) := by
  have hcl : s.client u = some (s.objs r) := Server.client_eq_some.2 ⟨r, hu, rfl⟩
  have hcl' : (s.modify r Client.sent).client u = some (s.objs r).sent :=
    Server.client_eq_some.2 ⟨r, hu, Server.modify_objs_self⟩
  rw [sending_of_client hcl, sending_of_client hcl']
  cases h : (s.objs r).cipher with
  | none => simp [Client.sent, h]
  | some k => simp [Client.sent, h]

/-- Others keep what the session sends under. -/
theorem Frame.sending {P : PyStr → Prop} (hf : Frame P s s') (hw : s.WfRefs) (hu : ¬ P u) :
    s'.sending u = s.sending u := by
  rw [Server.sending, Server.sending, Server.client, Server.client, hf.sessions u hu]
  rcases hr : s.clientDb.get? u with _ | r
  · rfl
  · obtain ⟨hlt, hid⟩ := hw u r hr
    have hl := hf.link r hlt (by rw [hid]; exact hu)
    simp only [Option.map_some, Option.bind_some, hl.cipher, hl.txNonce]

/-- An administrative call gives no cipher. -/
theorem admin_sending (hw : s.WfRefs) (op : Admin) {y : K × ℕ} (h : (op.run s).1.sending u = some y) :
    s.sending u = some y := by
  by_cases hn : op.Names u
  · cases op with
    | addClient t =>
      obtain rfl : t.uuid = u := hn
      simp only [Admin.run, addClient] at h
      split_ifs at h
      · exact h
      · exact h
      · exact h
      · -- the new session has no cipher
        have hcl : (s.addSession t.uuid (.preset t.uuid t.addressesOwned t.inbox t.outbox)).client
            t.uuid = some (.preset t.uuid t.addressesOwned t.inbox t.outbox) :=
          Server.client_eq_some.2 ⟨s.fresh, by simp, by simp⟩
        rw [sending_of_client hcl] at h
        cases h
    | removeClient uuid =>
      obtain rfl : uuid = u := hn
      simp only [Admin.run, removeClient] at h
      split_ifs at h
      · exact h
      rcases hr : s.clientDb.get? uuid with _ | r
      · rw [hr] at h
        exact h
      rw [hr] at h
      rcases hdel : deleteKeys s.addressBook (s.objs r).addressesOwned with ⟨book, e | ⟨⟩⟩
      · simp only [hdel] at h
        exact h
      · simp only [hdel] at h
        have hnone : (s.clientDb.erase uuid).get? uuid = none := by
          rw [Dict.get?_erase, if_pos rfl]
        rw [Server.sending, Server.client_eq_none.2 hnone] at h
        cases h
    | addKey key uuid => exact hn.elim
    | removeKey key uuid => exact hn.elim
  · exact ((admin_frame s op).sending hw hn).symm.trans h

end

/-! ## What a step of a handler writes -/

/-- A step writes nothing, or one packet under the next nonce `x`; `Task.next` goes on behind it. -/
inductive Emission {A : Type} (x : Option (K × ℕ)) : Outcome K A → Prop
  | silent {s : Server K} {t : Task A} {os : List (Obs K)} : writtenIn os = [] → t.Whole →
      (∀ y, t.next s = some y → x = some y) → Emission x (s, t, os)
  | packet {s : Server K} {t : Task A} {os : List (Obs K)} {k : K} {n : ℕ} {data pkt : Bytes} :
      x = some (k, n) → constructPacket L data (some k) n = .ok pkt → writtenIn os = [pkt] →
      t.Whole → (∀ y, t.next s = some y → y = (k, n + 1)) → Emission x (s, t, os)

section
variable {A : Type} {s : Server K} {c : ConnId} {h : Handler} {x : Option (K × ℕ)}
  {os : List (Obs K)} {out : Outcome K A}

theorem Emission.seen (hout : Emission L x out) (hos : writtenIn os = []) :
    Emission L x (Pipebomb.seen os out) := by
  cases hout with
  | silent hw ht hy => exact .silent (by rw [writtenIn_append, hos, hw]; rfl) ht hy
  | packet hx hc hw ht hy => exact .packet hx hc (by rw [writtenIn_append, hos, hw]; rfl) ht hy

theorem over_emission (s : Server K) (e : Option PyErr) :
    Emission L x ((s, .over e, []) : Outcome K A) := by
  refine .silent rfl trivial ?_
  intro y hy
  cases hy

theorem raised_emission (s : Server K) (held : Held) (e : PyErr) :
    Emission L x (raised s held e : Outcome K A) := over_emission L _ _

theorem sendPacket_emission {reply : Bytes} {held : Held} {after : After}
    (ha : after ≠ .frameError) :
    Emission L (s.sending h.uuid) (sendPacket L s c h reply held after : Outcome K A) := by
  unfold sendPacket
  rcases hcl : s.client h.uuid with _ | cl
  · exact raised_emission L s held _
  simp only
  refine .seen L ?_ (writtenIn_encryptCall _ _ _ _)
  rcases hc : constructPacket L reply cl.cipher cl.txNonce with e | pkt
  · exact raised_emission L s held e
  obtain ⟨-, -, -, k, hk, -⟩ := (constructPacket_ok L).1 hc
  have hx : s.sending h.uuid = some (k, cl.txNonce) := by
    rw [sending_of_client hcl, hk]
    rfl
  rw [hk] at hc
  have howes : (Await.sendall held after).owes = 1 := by
    cases after with
    | next => rfl
    | close => rfl
    | frameError => exact absurd rfl ha
  refine .packet hx hc ?_ ?_ ?_
  · cases after <;> rfl
  · rintro held' he
    cases he
    exact ha rfl
  · intro y hy
    simp only [Task.next, Handler.next, hx, howes, Option.map_some, Option.some.injEq] at hy
    exact hy.symm

theorem sendReply_emission {reply : Except PyErr Bytes} {held : Held} {after : After}
    (ha : after ≠ .frameError) :
    Emission L (s.sending h.uuid) (sendReply L s c h reply held after : Outcome K A) := by
  cases reply with
  | error e => exact raised_emission L s held e
  | ok data => exact sendPacket_emission L ha

theorem proceed_emission {o : Server K × Next} (hwait : ∀ pc, o.2 = .wait pc → pc.Queues) :
    Emission L (o.1.sending h.uuid) (proceed L c h o : Outcome K A) := by
  unfold proceed
  split
  · exact sendPacket_emission L (by simp)
  · rename_i pc hpc
    have hq := hwait pc hpc
    refine .silent rfl ?_ ?_
    · rintro held rfl
      exact hq
    · intro y hy
      have howes : pc.owes = 0 := by
        cases pc with
        | sendall held after => exact hq.elim
        | _ => rfl
      simpa [Task.next, Handler.next, howes] using hy
  · exact raised_emission L _ _ _
  · exact over_emission L _ _

theorem onFrame_emission {frame : Option Bytes} {draw : Uuid4} :
    Emission L (s.sending h.uuid) (onFrame L s c h frame draw : Outcome K A) := by
  unfold onFrame
  split
  · exact raised_emission L s _ _
  · exact raised_emission L s _ _
  rename_i r f hu
  refine .seen L ?_ (writtenIn_decryptCall _ _ _ _)
  split
  · exact raised_emission L s _ _
  · rw [← sending_received s r]
    exact sendReply_emission L (by simp)
  · refine .seen L ?_ rfl
    rename_i data _ _
    have hq := dispatch_quiet (s.modify r Client.received) h.uuid data draw
    rw [← sending_received s r, ← hq.sending]
    refine proceed_emission L (h := { h with data := data }) fun pc hpc => ?_
    obtain ⟨type_, value, -, -, ⟨op, -, rfl⟩ | ⟨r', -, -, rfl⟩ | ⟨r', p, -, -, rfl⟩ | ⟨r', -, -, rfl⟩⟩ :=
      dispatch_wait hpc
    · trivial
    · trivial
    · trivial
    · trivial

/-! ### Broken headers -/

/-- The buffer in which a step looks for a packet. -/
def Handler.looks (h : Handler) (i : Input) : Option Bytes :=
  match h.pc, i with
  | .sleep, .go => some h.receiveBuffer
  | .recv, .recv chunk => if chunk = [] then none else some (h.receiveBuffer ++ chunk)
  | _, _ => none

/-- The step finds no broken header. -/
def Handler.Cuts (h : Handler) (i : Input) : Prop :=
  ∀ b ∈ h.looks i, (extractPacketFrame b).2.2 = none

instance (h : Handler) (i : Input) : Decidable (h.Cuts i) :=
  inferInstanceAs (Decidable (∀ b ∈ h.looks i, (extractPacketFrame b).2.2 = none))

/-- Error 2 is sent as it is, without a packet around it. -/
def Bare (out : Outcome K A) : Prop :=
  ∃ h' raw, out.2.1 = .handler h' ∧ h'.pc = .sendall .none .frameError ∧
    writtenIn out.2.2 = [raw] ∧ raw ≠ [] ∧ raw.length < 6

theorem extractPacketFrame_error {b : Bytes} {e : ℕ} (h : (extractPacketFrame b).2.2 = some e) :
    e = 2 := by
  unfold extractPacketFrame at h
  simp only at h
  split_ifs at h
  cases h
  rfl

theorem pump_emission {draw : Uuid4} :
    if (extractPacketFrame h.receiveBuffer).2.2 = none then
      Emission L (s.sending h.uuid) (pump L s c h draw : Outcome K A)
    else Bare (pump L s c h draw : Outcome K A) := by
  unfold pump
  rcases hx : extractPacketFrame h.receiveBuffer with ⟨f?, rest, _ | e⟩
  · rw [if_pos rfl]
    cases f? with
    | none =>
      refine .silent rfl ?_ ?_
      · rintro held he
        cases he
      · intro y hy
        simpa [Task.next, Handler.next, Await.owes] using hy
    | some f => exact onFrame_emission L (h := { h with receiveBuffer := rest })
  · rw [if_neg (by simp)]
    obtain rfl : e = 2 := extractPacketFrame_error (by rw [hx])
    exact ⟨_, _, rfl, rfl, rfl, by decide, by decide⟩

theorem Handler.next_eq (howes : h.pc.owes = 0) : h.next s = s.sending h.uuid := by
  rw [Handler.next, howes]
  simp

/-- A look into a buffer. -/
theorem pump_step {i : Input} {b : Bytes} {draw : Uuid4} (howes : h.pc.owes = 0)
    (hlooks : h.looks i = some b) :
    (h.Cuts i ∧ Emission L (h.next s) (pump L s c { h with receiveBuffer := b } draw : Outcome K A)) ∨
      (¬ h.Cuts i ∧ Bare (pump L s c { h with receiveBuffer := b } draw : Outcome K A)) := by
  have hpump : if (extractPacketFrame b).2.2 = none then
      Emission L (s.sending h.uuid) (pump L s c { h with receiveBuffer := b } draw : Outcome K A)
    else Bare (pump L s c { h with receiveBuffer := b } draw : Outcome K A) :=
    pump_emission L (h := { h with receiveBuffer := b })
  rw [Handler.next_eq howes]
  by_cases hb : (extractPacketFrame b).2.2 = none
  · rw [if_pos hb] at hpump
    refine .inl ⟨?_, hpump⟩
    intro b' hb'
    rw [hlooks] at hb'
    cases hb'
    exact hb
  · rw [if_neg hb] at hpump
    exact .inr ⟨fun hcuts => hb (hcuts b hlooks), hpump⟩

/-- **What a step of a handler writes.** -/
theorem handlerStep_emission {i : Input} {draw : Uuid4} (ho : handlerStep L s c h i draw = some out) :
    (h.Cuts i ∧ Emission L (h.next s) out) ∨ (¬ h.Cuts i ∧ Bare out) := by
  -- a step that does not look for a packet
  have hplain : h.looks i = none → Emission L (h.next s) out →
      (h.Cuts i ∧ Emission L (h.next s) out) ∨ (¬ h.Cuts i ∧ Bare out) := by
    intro hlooks hout
    refine .inl ⟨?_, hout⟩
    intro b hb
    rw [hlooks] at hb
    cases hb
  unfold handlerStep at ho
  split at ho
  · rename_i hpc
    cases ho
    refine hplain (by simp [Handler.looks, hpc]) ?_
    rw [Handler.next_eq (by rw [hpc]; rfl)]
    unfold started
    split
    · exact raised_emission L s _ _
    · split_ifs
      · exact raised_emission L s _ _
      · refine .silent rfl ?_ ?_
        · rintro held he
          cases he
        · intro y hy
          simpa [Task.next, Handler.next, Await.owes] using hy
  · rename_i hpc
    cases ho
    exact pump_step L (by rw [hpc]; rfl) (by simp [Handler.looks, hpc])
  · rename_i chunk hpc
    split_ifs at ho with hlen hnil
    · cases ho
      refine hplain (by simp [Handler.looks, hpc, hnil]) ?_
      rw [Handler.next_eq (by rw [hpc]; rfl)]
      exact onFrame_emission L
    · cases ho
      exact pump_step L (by rw [hpc]; rfl) (by simp [Handler.looks, hpc, hnil])
  · rename_i op hpc
    split_ifs at ho
    cases ho
    refine hplain (by simp [Handler.looks, hpc]) ?_
    have hlock : Quiet s (s.setDbLock true) := ⟨rfl, rfl, fun _ => .refl _⟩
    rw [Handler.next_eq (by rw [hpc]; rfl), ← (hlock.trans (dbOp_quiet op _ h.data.tail)).sending]
    exact sendReply_emission L (by simp)
  · rename_i r hpc
    split at ho
    · cases ho
    · rename_i q qs _
      cases ho
      refine hplain (by simp [Handler.looks, hpc]) ?_
      rw [Handler.next_eq (by rw [hpc]; rfl), ← (Quiet.modify s r _ (.setInbox qs)).sending]
      exact sendReply_emission L (by simp)
  · rename_i r p hpc
    split_ifs at ho
    cases ho
    refine hplain (by simp [Handler.looks, hpc]) ?_
    rw [Handler.next_eq (by rw [hpc]; rfl), ← (Quiet.modify s r _ (.setOutbox _)).sending]
    exact sendPacket_emission L (by simp)
  · rename_i r id hpc
    have hlock := Quiet.modify s r _ (.setOutboxLock true)
    split_ifs at ho
    simp only at ho
    split at ho
    · cases ho
      refine hplain (by simp [Handler.looks, hpc]) ?_
      rw [Handler.next_eq (by rw [hpc]; rfl), ← hlock.sending]
      exact sendReply_emission L (by simp)
    · cases ho
      refine hplain (by simp [Handler.looks, hpc]) ?_
      rw [Handler.next_eq (by rw [hpc]; rfl),
        ← (hlock.trans (Quiet.modify _ r _ (.setOutbox _))).sending]
      exact sendReply_emission L (by simp)
  · rename_i held after hpc
    cases ho
    refine hplain (by simp [Handler.looks, hpc]) ?_
    cases after with
    | frameError =>
      rw [Handler.next_eq (by rw [hpc]; rfl)]
      exact onFrame_emission L
    | next =>
      simp only [onSent]
      rcases hu : s.clientDb.get? h.uuid with _ | r
      · exact raised_emission L s held _
      · -- the counter takes over the packet that was sent
        refine .silent rfl ?_ ?_
        · rintro held' he
          cases he
        · intro y hy
          simp only [Task.next, Handler.next, (release_quiet _ held).sending, sending_sent hu] at hy
          simpa [Handler.next, hpc, Await.owes] using hy
    | close =>
      simp only [onSent]
      split
      · exact raised_emission L s held _
      · exact over_emission L _ _
  · cases ho
    rename_i pc e hpc
    refine hplain ?_ (raised_emission L s _ _)
    unfold Handler.looks
    split
    · rename_i he
      cases he
    · rename_i he
      cases he
    · rfl
  · cases ho

end

/-! ## What a run writes -/

section
variable {c c' : ConnId} {k : K} {n : ℕ} {S S' S₀ : Sys K} {a : Act} {os o : List (Obs K)}
  {ws : List Bytes} {uses : Option PyStr}

theorem sends_append {p : Party} : sends p (os ++ o) = sends p os ++ sends p o := List.filterMap_append

theorem AllBy.sends (h : AllBy c uses os) : sends (.server c) os = writtenIn os := by
  refine List.filterMap_congr fun x hx => ?_
  have hby := h x hx
  cases x with
  | write p bs => exact if_pos hby
  | _ => rfl

theorem AllBy.sends_ne (h : AllBy c' uses os) (hne : c' ≠ c) : Pipebomb.sends (.server c) os = [] := by
  refine List.filterMap_eq_nil_iff.2 fun x hx => ?_
  have hby := h x hx
  cases x with
  | write p bs =>
    refine if_neg ?_
    rintro rfl
    cases hby
    exact hne rfl
  | _ => rfl

/-- What the coroutine of the connection is resumed with. -/
def Act.input? (c : ConnId) : Act → Option Input
  | .resume c' i _ => if c' = c then some i else none
  | _ => none

/-- If the step is one of the handler of the connection, it finds no broken header. -/
def Sys.Cuts (c : ConnId) (S : Sys K) (a : Act) : Prop :=
  ∀ h ∈ (S.tasks c).handler?, ∀ i ∈ a.input? c, h.Cuts i

instance (c : ConnId) (S : Sys K) (a : Act) : Decidable (S.Cuts c a) :=
  inferInstanceAs (Decidable (∀ h ∈ (S.tasks c).handler?, ∀ i ∈ a.input? c, h.Cuts i))

/-- The handler runs or ran. -/
def Sys.Handles (c : ConnId) (S : Sys K) : Prop :=
  (∃ h, S.tasks c = .handler h) ∨ ∃ e, S.tasks c = .over e

/-- Up to now the handler wrote packets. -/
structure Writing (c : ConnId) (k : K) (n : ℕ) (S : Sys K) (ws : List Bytes) : Prop where
  handles : S.Handles c
  packets : Packets L k n ws
  whole : (S.tasks c).Whole
  next : ∀ y, (S.tasks c).next S.server = some y → y = (k, n + ws.length)

/-- The handler wrote bytes that are no packet, and ends. -/
structure Broken (c : ConnId) (k : K) (n : ℕ) (S : Sys K) (ws : List Bytes) : Prop where
  last : ∃ ps raw, ws = ps ++ [raw] ∧ Packets L k n ps ∧ raw ≠ [] ∧ raw.length < 6
  ends : (∃ h, S.tasks c = .handler h ∧ h.pc = .sendall .none .frameError) ∨ ∃ e, S.tasks c = .over e

theorem Broken.handles (h : Broken L c k n S ws) : S.Handles c := by
  rcases h.ends with ⟨h, ht, -⟩ | he
  · exact .inl ⟨h, ht⟩
  · exact .inr he

/-- The other steps: the handler stands where it stood, and nobody takes its nonces. -/
theorem step_beside (hS : S.Sound) (hsole : S.Sole c) (hstep : S.step L a = some (S', o))
    (hg : S.OneHandler c o) (hh : S.Handles c) (ha : ∀ i draw, a ≠ .resume c i draw) :
    S'.tasks c = S.tasks c ∧ sends (.server c) o = [] ∧
      ∀ y, (S.tasks c).next S'.server = some y → (S.tasks c).next S.server = some y := by
  rcases step_cases L hstep with ⟨c', rfl, hidle, rfl, rfl⟩ | ⟨c', i, draw, s, t, rfl, ht, rfl⟩ |
    ⟨op, rfl, rfl, rfl⟩
  · have hc : c ≠ c' := by
      rintro rfl
      rcases hh with ⟨h, hh⟩ | ⟨e, hh⟩
      · rw [hh] at hidle; cases hidle
      · rw [hh] at hidle; cases hidle
    exact ⟨put_tasks_ne hc, rfl, fun y hy => hy⟩
  · have hc : c' ≠ c := by
      rintro rfl
      exact ha i draw rfl
    have hframe : Frame (fun u => (S.tasks c).uses ≠ some u) S.server s :=
      taskStep_frame L hS.refs (hS.tasks c') ht
        (fun u hu hu' => hsole c' u hc hu' hu) fun u => named_ne L hc ht hg
    refine ⟨put_tasks_ne hc.symm, (taskStep_obs L ht).sends_ne hc, fun y hy => ?_⟩
    rcases hh with ⟨h, hh⟩ | ⟨e, hh⟩
    · rw [hh] at hy ⊢
      have hu : (S.tasks c).uses = some h.uuid := by rw [hh]; rfl
      rw [Task.next, Handler.next, put_server, hframe.sending hS.refs (fun hne => hne hu)] at hy
      exact hy
    · rw [hh] at hy; cases hy
  · refine ⟨rfl, rfl, fun y hy => ?_⟩
    rcases hh with ⟨h, hh⟩ | ⟨e, hh⟩
    · rw [hh] at hy ⊢
      simp only [Task.next, Handler.next, Option.map_eq_some_iff] at hy ⊢
      obtain ⟨x, hx, rfl⟩ := hy
      exact ⟨x, admin_sending hS.refs op hx, rfl⟩
    · rw [hh] at hy; cases hy

/-- The handler goes on. -/
theorem step_writing (hS : S.Sound) (hsole : S.Sole c) (hstep : S.step L a = some (S', o))
    (hg : S.OneHandler c o) (hW : Writing L c k n S ws) :
    (S.Cuts c a ∧ Writing L c k n S' (ws ++ sends (.server c) o)) ∨
      (¬ S.Cuts c a ∧ Broken L c k n S' (ws ++ sends (.server c) o)) := by
  by_cases ha : ∀ i draw, a ≠ .resume c i draw
  · obtain ⟨htask, hsends, hnext⟩ := step_beside L hS hsole hstep hg hW.handles ha
    have hinput : a.input? c = none := by
      cases a with
      | resume c' i draw =>
        refine if_neg ?_
        rintro rfl
        exact ha i draw rfl
      | connect c' => rfl
      | admin op => rfl
    refine .inl ⟨?_, ?_⟩
    · intro h _ i hi
      rw [hinput] at hi
      cases hi
    rw [hsends, List.append_nil]
    refine ⟨?_, hW.packets, ?_, ?_⟩
    · rw [Sys.Handles, htask]
      exact hW.handles
    · rw [htask]
      exact hW.whole
    · rw [htask]
      exact fun y hy => hW.next y (hnext y hy)
  obtain ⟨i, draw, rfl⟩ : ∃ i draw, a = .resume c i draw := by
    simpa using ha
  rcases step_cases L hstep with ⟨_, he, -⟩ | ⟨_, _, _, s, t, he, ht, rfl⟩ | ⟨_, he, -⟩
  · cases he
  · cases he
    have hby := (taskStep_obs L ht).sends
    rcases hW.handles with ⟨h, hh⟩ | ⟨e, hh⟩
    · rw [hh] at ht
      have hcuts : S.Cuts c (.resume c i draw) ↔ h.Cuts i := by
        simp [Sys.Cuts, Act.input?, Task.handler?, hh]
      have hnext := hW.next
      rw [hh] at hnext
      rw [hby, hcuts]
      rcases handlerStep_emission L ht with ⟨hc, hout⟩ | ⟨hc, h', raw, ht', hpc, hw, hne, hlen⟩
      · refine .inl ⟨hc, ?_⟩
        have hhandles : (S.put c s t).Handles c := by
          have hstays := handlerStep_stays L ht
          rw [Sys.Handles, put_tasks_self]
          cases t with
          | handler h' => exact .inl ⟨h', rfl⟩
          | «over» e => exact .inr ⟨e, rfl⟩
          | idle => exact hstays.elim
          | accept a => exact hstays.elim
        cases hout with
        | silent hw hwhole hgoes =>
          rw [hw, List.append_nil]
          refine ⟨hhandles, hW.packets, ?_, ?_⟩
          · rw [put_tasks_self]
            exact hwhole
          · rw [put_tasks_self]
            exact fun y hy => hnext y (hgoes y hy)
        | packet hx hc hw hwhole hgoes =>
          obtain ⟨rfl, rfl⟩ : _ = k ∧ _ = n + ws.length := Prod.mk.inj (hnext _ hx)
          rw [hw]
          refine ⟨hhandles, hW.packets.snoc L hc, ?_, ?_⟩
          · rw [put_tasks_self]
            exact hwhole
          · rw [put_tasks_self, List.length_append]
            exact fun y hy => hgoes y hy
      · have ht' : t = .handler h' := ht'
        subst ht'
        rw [hw]
        exact .inr ⟨hc, ⟨ws, raw, rfl, hW.packets, hne, hlen⟩, .inl ⟨h', put_tasks_self, hpc⟩⟩
    · rw [hh] at ht
      cases ht
  · cases he

/-- It ends. -/
theorem step_broken (hS : S.Sound) (hsole : S.Sole c) (hstep : S.step L a = some (S', o))
    (hg : S.OneHandler c o) (hB : Broken L c k n S ws) :
    Broken L c k n S' (ws ++ sends (.server c) o) := by
  by_cases ha : ∀ i draw, a ≠ .resume c i draw
  · obtain ⟨htask, hsends, -⟩ := step_beside L hS hsole hstep hg hB.handles ha
    rw [hsends, List.append_nil]
    refine ⟨hB.last, ?_⟩
    rw [htask]
    exact hB.ends
  obtain ⟨i, draw, rfl⟩ : ∃ i draw, a = .resume c i draw := by
    simpa using ha
  rcases step_cases L hstep with ⟨_, he, -⟩ | ⟨_, _, _, s, t, he, ht, rfl⟩ | ⟨_, he, -⟩
  · cases he
  · cases he
    rcases hB.ends with ⟨h, hh, hpc⟩ | ⟨e, hh⟩
    · rw [hh] at ht
      have hover : ∃ e, t = .over e ∧ o = [] := by
        simp only [taskStep, handlerStep, hpc] at ht
        cases i with
        | sent =>
          simp only [onSent, onFrame] at ht
          split at ht
          · cases ht
            exact ⟨_, rfl, rfl⟩
          · cases ht
            exact ⟨_, rfl, rfl⟩
          · rename_i he
            cases he
        | raise e =>
          cases ht
          exact ⟨_, rfl, rfl⟩
        | go => cases ht
        | recv chunk => cases ht
      obtain ⟨e, rfl, rfl⟩ := hover
      have hnil : sends (.server c) ([] : List (Obs K)) = [] := rfl
      rw [hnil, List.append_nil]
      exact ⟨hB.last, .inr ⟨e, put_tasks_self⟩⟩
    · rw [hh] at ht
      cases ht
  · cases he

/-- **What a run writes**: packets, or packets and error 2 as it is. -/
theorem run_output {xs : List (Lts.Shown (Sys K) Act (Obs K))} (hS : S₀.Sound) (hsole : S₀.Sole c)
    (hW : Writing L c k n S₀ [])
    (hrun : Lts.Run (Lts.Guarded (Lts.shown (Sys.step L)) (Lts.Showing fun S _ o => S.OneHandler c o))
      S₀ S xs) :
    (S.Sound ∧ S.Sole c) ∧
      (((∀ x ∈ xs, x.before.Cuts c x.act) ∧
        Writing L c k n S (sends (.server c) (xs.flatMap Lts.Shown.obs))) ∨
      ((¬ ∀ x ∈ xs, x.before.Cuts c x.act) ∧
        Broken L c k n S (sends (.server c) (xs.flatMap Lts.Shown.obs)))) := by
  induction hrun with
  | nil => exact ⟨⟨hS, hsole⟩, .inl ⟨by simp, hW⟩⟩
  | snoc hr hst ih =>
    rename_i S₁ S₂ xs o
    obtain ⟨⟨hS₁, hsole₁⟩, hinv⟩ := ih
    obtain ⟨a, hs, hok⟩ := hst
    obtain ⟨o, hstep, rfl⟩ := Lts.shown_step hs
    have hg : S₁.OneHandler c o := hok _ List.mem_cons_self
    refine ⟨⟨step_sound L hS₁ hstep, step_sole L hS₁.refs hsole₁ hstep hg⟩, ?_⟩
    have hobs : [(⟨S₁, a, o, S₂⟩ : Lts.Shown (Sys K) Act (Obs K))].flatMap Lts.Shown.obs = o := by simp
    have hall : (∀ x ∈ xs ++ [(⟨S₁, a, o, S₂⟩ : Lts.Shown (Sys K) Act (Obs K))],
        x.before.Cuts c x.act) ↔ (∀ x ∈ xs, x.before.Cuts c x.act) ∧ S₁.Cuts c a := by
      simp [or_imp, forall_and]
    rw [List.flatMap_append, hobs, sends_append, hall]
    rcases hinv with ⟨hcuts, hW⟩ | ⟨hcuts, hB⟩
    · rcases step_writing L hS₁ hsole₁ hstep hg hW with ⟨hc, hW'⟩ | ⟨hc, hB'⟩
      · exact .inl ⟨⟨hcuts, hc⟩, hW'⟩
      · exact .inr ⟨fun h => hc h.2, hB'⟩
    · exact .inr ⟨fun h => hcuts h.1, step_broken L hS₁ hsole₁ hstep hg hB⟩

/-- **The output of a handler.**  With one coroutine for the session, what the handler writes
    from its start on is a stream of packets under the cipher of the session and consecutive
    nonces from its `tx_nonce` on, if and only if the handler found no broken header. -/
theorem output_iff {password : Bytes} {keep : Bool} {os₀ : List (Obs K)} {h : Handler}
    {xs : List (Lts.Shown (Sys K) Act (Obs K))}
    (hrun₀ : Lts.Run (Lts.Guarded (Sys.step L) fun S _ o => S.OneHandler c o)
      (.init password keep) S₀ os₀)
    (hh : S₀.tasks c = .handler h) (hpc : h.pc = .start)
    (hlink : S₀.server.sending h.uuid = some (k, n))
    (hrun : Lts.Run (Lts.Guarded (Lts.shown (Sys.step L)) (Lts.Showing fun S _ o => S.OneHandler c o))
      S₀ S xs) :
    PacketStream L k n (Net.written (.server c) (xs.flatMap Lts.Shown.obs)) ↔
      ∀ x ∈ xs, x.before.Cuts c x.act := by
  have hinv : S₀.Sound ∧ S₀.Sole c := hrun₀.inv (I := fun (S : Sys K) _ => S.Sound ∧ S.Sole c)
    ⟨sound_init password keep, sole_init c password keep⟩ fun _ hI ⟨a, hstep, hok⟩ =>
      ⟨step_sound L hI.1 hstep, step_sole L hI.1.refs hI.2 hstep hok⟩
  have hW : Writing L c k n S₀ [] := by
    refine ⟨.inl ⟨h, hh⟩, .nil L, ?_, ?_⟩
    · rw [hh]
      intro held he
      rw [hpc] at he
      cases he
    · rw [hh]
      intro y hy
      rw [Task.next, Handler.next_eq (by rw [hpc]; rfl), hlink] at hy
      exact (Option.some.inj hy).symm
  rw [written_eq]
  obtain ⟨-, ⟨hcuts, hW⟩ | ⟨hcuts, hB⟩⟩ := run_output L hinv.1 hinv.2 hW hrun
  · exact iff_of_true (hW.packets.stream L) hcuts
  · refine iff_of_false ?_ hcuts
    obtain ⟨ps, raw, hws, hps, hne, hlen⟩ := hB.last
    rw [hws]
    exact hps.not_stream L hne hlen

end

/-! ## Two connections -/

theorem Sys.ExclusiveBelow.oneHandler {m : ℕ} {c : ConnId} {S : Sys K} {a : Act} {o : List (Obs K)}
    (hS : S.Below m) (h : S.ExclusiveBelow m true a o) : S.OneHandler c o := by
  obtain ⟨hfresh, hrelogin⟩ := h.exclusive hS
  exact ⟨hfresh, hrelogin c, fun c' u _ hm => hrelogin c' u hm c⟩

/-- Executions on connections below `m`, without a second login to a session. -/
theorem exec_oneHandler {m : ℕ} {c : ConnId} {acts acts' : List Act} {S₀ S : Sys ℕ}
    {os₀ : List (Obs ℕ)} {xs : List (Lts.Shown (Sys ℕ) Act (Obs ℕ))}
    (hexec : Lts.exec (Sys.step stub) acts (.init [] false) = some (S₀, os₀))
    (halong : Lts.Along (Sys.step stub) (Sys.ExclusiveBelow m true) acts (.init [] false))
    (hexec' : Lts.exec (Lts.shown (Sys.step stub)) acts' S₀ = some (S, xs))
    (halong' : Lts.Along (Lts.shown (Sys.step stub)) (Lts.Showing (Sys.ExclusiveBelow m true)) acts' S₀) :
    Lts.Run (Lts.Guarded (Sys.step stub) fun S _ o => S.OneHandler c o) (.init [] false) S₀ os₀ ∧
      Lts.Run (Lts.Guarded (Lts.shown (Sys.step stub)) (Lts.Showing fun S _ o => S.OneHandler c o))
        S₀ S xs := by
  have hrun₀ := Lts.exec_run hexec halong
  have hbelow : S₀.Below m := hrun₀.inv (I := fun S _ => S.Below m) (fun _ _ => rfl)
    fun _ hS ⟨_, hstep, hok⟩ => step_below stub hS hok.1 hstep
  refine ⟨Lts.exec_run hexec (halong.imp (I := Sys.Below m) (fun hS h => step_below stub hS h.1)
    (fun hS h => h.oneHandler hS) fun _ _ => rfl), Lts.exec_run hexec' (halong'.imp
      (I := Sys.Below m) ?_ ?_ hbelow)⟩
  · intro S a S' ys hS hok hstep
    obtain ⟨o, hs, rfl⟩ := Lts.shown_step hstep
    exact step_below stub hS (hok _ List.mem_cons_self).1 hs
  · intro _ a ys hS hok x hx
    exact (hok x hx).oneHandler hS

/-- The login of connection 0, until its handler starts. -/
def handlerStarts : List Act := (loginActs 0 [0xC5]).take 7

/-- The handler is asked for its uuid. -/
theorem output_sample : ∃ xs : List (Lts.Shown (Sys ℕ) Act (Obs ℕ)),
    sends (.server 0) (xs.flatMap Lts.Shown.obs) = [stubPacket 0 2 (latin1 sampleUuid)] ∧
      PacketStream stub 0 2 (Net.written (.server 0) (xs.flatMap Lts.Shown.obs)) := by
  have hexec : ((Lts.exec (Sys.step stub) handlerStarts (.init [] false)).any fun x =>
      decide (((x.1.tasks 0).handler?.any fun h => decide (h.pc = .start) &&
          decide (x.1.server.sending h.uuid = some (0, 2))) = true) &&
        decide (Lts.Along (Lts.shown (Sys.step stub)) (Lts.Showing (Sys.ExclusiveBelow 1 true))
          (drawing sampleDraw 0 [.go, .go, .recv (stubPacket 0 2 [0x87]), .sent, .go]) x.1) &&
        (Lts.exec (Lts.shown (Sys.step stub))
          (drawing sampleDraw 0 [.go, .go, .recv (stubPacket 0 2 [0x87]), .sent, .go]) x.1).any
            fun y => decide (sends (.server 0) (y.2.flatMap Lts.Shown.obs) =
              [stubPacket 0 2 (latin1 sampleUuid)]) && y.2.all fun z => z.before.Cuts 0 z.act) = true := by
    decide +kernel
  have halong : Lts.Along (Sys.step stub) (Sys.ExclusiveBelow 1 true) handlerStarts (.init [] false) := by
    decide +kernel
  obtain ⟨⟨S₀, os₀⟩, hS₀, hp⟩ := Option.any_eq_true _ _ |>.1 hexec
  simp only [Bool.and_eq_true, decide_eq_true_eq] at hp
  obtain ⟨⟨hstart, halong'⟩, hrest⟩ := hp
  obtain ⟨h, hh, hstart⟩ := Option.any_eq_true _ _ |>.1 hstart
  obtain ⟨⟨S, xs⟩, hS, hq⟩ := Option.any_eq_true _ _ |>.1 hrest
  simp only [Bool.and_eq_true, decide_eq_true_eq] at hstart hq
  obtain ⟨hrun₀, hrun⟩ := exec_oneHandler (c := 0) hS₀ halong hS halong'
  refine ⟨xs, hq.1, ?_⟩
  refine (output_iff stub hrun₀ (Task.eq_handler hh) hstart.1 hstart.2 hrun).2 fun x hx => ?_
  exact of_decide_eq_true (List.all_eq_true.1 hq.2 x hx)

/-- **Six bytes that are no header** are answered with five bytes that are no packet. -/
theorem bare_error : ∃ (S₀ S : Sys ℕ) (os₀ : List (Obs ℕ)) (h : Handler)
      (xs : List (Lts.Shown (Sys ℕ) Act (Obs ℕ))),
    Lts.Run (Lts.Guarded (Sys.step stub) fun S _ o => S.OneHandler 0 o) (.init [] false) S₀ os₀ ∧
      S₀.tasks 0 = .handler h ∧ h.pc = .start ∧ S₀.server.sending h.uuid = some (0, 2) ∧
      Lts.Run (Lts.Guarded (Lts.shown (Sys.step stub)) (Lts.Showing fun S _ o => S.OneHandler 0 o))
        S₀ S xs ∧
      sends (.server 0) (xs.flatMap Lts.Shown.obs) = [[0, 69, 82, 82, 2]] ∧
      ¬ PacketStream stub 0 2 (Net.written (.server 0) (xs.flatMap Lts.Shown.obs)) := by
  have hexec : ((Lts.exec (Sys.step stub) handlerStarts (.init [] false)).any fun x =>
      decide (((x.1.tasks 0).handler?.any fun h => decide (h.pc = .start) &&
          decide (x.1.server.sending h.uuid = some (0, 2))) = true) &&
        decide (Lts.Along (Lts.shown (Sys.step stub)) (Lts.Showing (Sys.ExclusiveBelow 1 true))
          (drawing sampleDraw 0 [.go, .go, .recv (List.replicate 6 0)]) x.1) &&
        (Lts.exec (Lts.shown (Sys.step stub))
          (drawing sampleDraw 0 [.go, .go, .recv (List.replicate 6 0)]) x.1).any
            fun y => decide (sends (.server 0) (y.2.flatMap Lts.Shown.obs) = [[0, 69, 82, 82, 2]])) =
      true := by
    decide +kernel
  have halong : Lts.Along (Sys.step stub) (Sys.ExclusiveBelow 1 true) handlerStarts (.init [] false) := by
    decide +kernel
  obtain ⟨⟨S₀, os₀⟩, hS₀, hp⟩ := Option.any_eq_true _ _ |>.1 hexec
  simp only [Bool.and_eq_true, decide_eq_true_eq] at hp
  obtain ⟨⟨hstart, halong'⟩, hrest⟩ := hp
  obtain ⟨h, hh, hstart⟩ := Option.any_eq_true _ _ |>.1 hstart
  obtain ⟨⟨S, xs⟩, hS, hq⟩ := Option.any_eq_true _ _ |>.1 hrest
  simp only [Bool.and_eq_true, decide_eq_true_eq] at hstart hq
  obtain ⟨hrun₀, hrun⟩ := exec_oneHandler (c := 0) hS₀ halong hS halong'
  refine ⟨S₀, S, os₀, h, xs, hrun₀, Task.eq_handler hh, hstart.1, hstart.2, hrun, hq, ?_⟩
  rw [written_eq, hq]
  have hno : ¬ PacketStream stub 0 2 (([] : List Bytes) ++ [[0, 69, 82, 82, 2]]).flatten :=
    (Packets.nil stub).not_stream stub (by simp) (by decide)
  exact hno

end Pipebomb
