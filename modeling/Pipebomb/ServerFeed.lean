/-
  The server reads packets that arrive unmodified.

  A coroutine past the exchange of the keys gets the stream of its client's packets.

  * `Fed` is what a step can be then: it waits, replies to the payload it works on, or takes
    exactly the next packet, which it opens.  A packet is never found broken.
  * `handlerStep_fed`, `acceptStep_fed`: every step is one of these.  During the handshake
    the buffer behind a packet is thrown away, so nothing may be written behind it yet.
-/
import Pipebomb.Wire

namespace Pipebomb

open ByteString

variable {K : Type} (L : Libs K)

/-- The buffer of a pass. -/
def Accepting.buffer : Accepting K → Bytes
  | .publicKey b | .password _ b | .login _ b => b
  | _ => []

/-- The buffer of a coroutine. -/
def Task.buffer : Task (Accepting K) → Bytes
  | .accept a => a.buffer
  | .handler h => h.receiveBuffer
  | _ => []

/-- The payload a handler processes or processed last. -/
def Task.data : Task (Accepting K) → Bytes
  | .handler h => h.data
  | _ => []

/-- A handler answers payloads of operations. -/
def Task.asked (data : Bytes) : Task (Accepting K) → Option Bytes
  | .handler _ => some data
  | _ => none

/-- The coroutine is over. -/
def Task.Over (t : Task (Accepting K)) : Prop := ∃ e, t = .over e

/-- The pass has a key. -/
def Accepting.Keyed : Accepting K → Prop
  | .publicKey _ | .sendPublic _ => False
  | _ => True

/-- The coroutine is past the exchange of the keys, and not over. -/
def Task.Keyed : Task (Accepting K) → Prop
  | .accept a => a.Keyed
  | .handler _ => True
  | _ => False

/-- The coroutine is over, or it goes on with the payload and the buffer. -/
def Task.Holds (data b : Bytes) (t : Task (Accepting K)) : Prop :=
  t.Over ∨ t.Keyed ∧ (∀ h, t = .handler h → h.data = data) ∧ t.buffer = b

/-- The chunk that an await gives. -/
def Input.chunk : Input → Bytes
  | .recv chunk => chunk
  | _ => []

/-- The key of an end. -/
def ServerEnd.key : ServerEnd K → Option K
  | .idle k _ | .busy k _ | .failed k _ | .sending k _ | .closing k _ => some k
  | _ => none

/-- **A step of a coroutine that is fed with the packets `bs`**, of which it opened `j`;
    `feed` is on its way after the step. -/
inductive Fed (c : ConnId) (bs : List (K × ℕ × Bytes)) (j : ℕ) (feed : Bytes) (e : ServerEnd K)
    (t : Task (Accepting K)) (out : Outcome K (Accepting K)) : Prop
  | still {b : Bytes} : tally L (.server c) out.2.2 = .none → out.2.1.Holds t.data b →
      Inlet (stream L L.clientPublic bs) (j + 1) b feed → Fed c bs j feed e t out
  | reply {k : K} {n : ℕ} {b : Bytes} : e = .busy k n →
      Emits L k n (some t.data) (tally L (.server c) out.2.2) → out.2.1.Holds t.data b →
      Inlet (stream L L.clientPublic bs) (j + 1) b feed → Fed c bs j feed e t out
  | took {k : K} {n : ℕ} {x : K × ℕ × Bytes} (as : List Bytes) {T : Tally K} {b : Bytes} :
      e = .idle k n → bs[j]? = some x → Emits L k n (t.asked x.2.2) T →
      tally L (.server c) out.2.2 = Tally.append ⟨[], [opening L x], as, [], []⟩ T →
      (out.2.1.Over ∨ as = [x.2.2]) → (x.2.2 = [0x88] → T = .none ∧ out.2.1.Over) →
      out.2.1.Holds x.2.2 b → Inlet (stream L L.clientPublic bs) (j + 1 + 1) b feed →
      Fed c bs j feed e t out

variable {c : ConnId} {bs : List (K × ℕ × Bytes)} {j n : ℕ} {feed b data : Bytes} {e : ServerEnd K}
  {k : K} {s : Server K}

theorem Task.Holds.over (x : Option PyErr) : Task.Holds data b (.over x : Task (Accepting K)) :=
  .inl ⟨x, rfl⟩

theorem Task.Holds.handler (h : Handler) :
    (Task.handler h : Task (Accepting K)).Holds h.data h.receiveBuffer :=
  .inr ⟨trivial, fun _ he => (by cases he; rfl), rfl⟩

theorem Task.Holds.accept {a : Accepting K} (hk : a.Keyed) (ha : a.buffer = b) :
    (Task.accept a).Holds data b := .inr ⟨hk, fun _ he => (by cases he), ha⟩

/-- The coroutine of a handshake or a handler, where nothing is seen. -/
theorem Fed.over {t : Task (Accepting K)} {x : Option PyErr}
    (h : Inlet (stream L L.clientPublic bs) (j + 1) b feed) :
    Fed L c bs j feed e t (s, .over x, []) := .still rfl (.over x) h

/-- What is needed to read: the packets are numbered, and the end stands at the next. -/
structure Feeding (c : ConnId) (bs : List (K × ℕ × Bytes)) (j : ℕ) (e : ServerEnd K) : Prop where
  numbered : Numbered L c bs
  key : ∀ k ∈ e.key, L.exchange c L.clientPublic = some k
  place : ∀ k n, e = .idle k n → n = j

/-- The next packet opens under the key and the nonce of the end. -/
theorem Feeding.next (h : Feeding L c bs j (.idle k n)) {x : K × ℕ × Bytes} (hx : bs[j]? = some x) :
    decryptCall (.server c) (packet L x) (some k) n =
        [.decrypt (.server c) x.1 x.2.1 (sealed L x.1 x.2.1 x.2.2)] ∧
      verifyPacket L (packet L x) (some k) n = .ok (.payload x.2.2 none) := by
  obtain ⟨hn, hk, hp⟩ := h.numbered j x hx
  obtain rfl : k = x.1 := Option.some.inj ((h.key k rfl).symm.trans hk)
  obtain rfl : n = x.2.1 := (h.place _ n rfl).trans hn.symm
  exact open_packet L (.server c) hp

theorem tally_opened (x : K × ℕ × Bytes) (os : List (Obs K)) :
    tally L (.server c) ([.decrypt (.server c) x.1 x.2.1 (sealed L x.1 x.2.1 x.2.2)] ++ os) =
      Tally.append ⟨[], [opening L x], [], [], []⟩ (tally L (.server c) os) := by
  rw [tally_append]
  simp [tally, built, opened, acceptedBy, sends, answers, opening]

theorem tally_accepted (p : Party) (data : Bytes) (os : List (Obs K)) :
    tally L p ([.accepted p data] ++ os) = Tally.append ⟨[], [], [data], [], []⟩ (tally L p os) := by
  rw [tally_append]
  simp [tally, built, opened, acceptedBy, sends, answers]

/-! ## The handler -/

section
variable {h : Handler} {held : Held}

/-- A reply. -/
theorem sendPacket_emits {m : ℕ} (hl : s.Linked h.uuid k n m) (reply : Bytes) :
    let out : Outcome K (Accepting K) := sendPacket L s c h reply held .next
    Emits L k n (some h.data) (tally L (.server c) out.2.2) ∧ out.2.1.Holds h.data h.receiveBuffer := by
  obtain ⟨cl, hcl, hk, rfl, -⟩ := hl
  simp only [sendPacket, hcl, hk, seen]
  rw [tally_append]
  rcases tally_construct L (.server c) k cl.txNonce reply with ⟨hp, ht⟩ | ⟨e, hp, ht⟩
  · rw [ht, hp]
    refine ⟨?_, Task.Holds.handler { h with pc := .sendall held .next }⟩
    have : Emits L k cl.txNonce (some h.data) _ := Emits.reply hp
    simpa [tally, Tally.append, built, opened, acceptedBy, sends, answers] using this
  · rw [ht, hp, Tally.none_append]
    exact ⟨.none, .over _⟩

theorem sendReply_emits {m : ℕ} (hl : s.Linked h.uuid k n m) (reply : Except PyErr Bytes) :
    let out : Outcome K (Accepting K) := sendReply L s c h reply held .next
    Emits L k n (some h.data) (tally L (.server c) out.2.2) ∧ out.2.1.Holds h.data h.receiveBuffer := by
  cases reply with
  | error x => exact ⟨.none, .over _⟩
  | ok data => exact sendPacket_emits L hl data

/-- The reply of a command that waited. -/
theorem sendReply_fed {m : ℕ} (hl : s.Linked h.uuid k n m) (reply : Except PyErr Bytes)
    (hin : Inlet (stream L L.clientPublic bs) (j + 1) h.receiveBuffer feed) :
    Fed L c bs j feed (.busy k n) (.handler h) (sendReply L s c h reply held .next) :=
  .reply rfl (sendReply_emits L hl reply).1 (sendReply_emits L hl reply).2 hin

theorem proceed_emits {m : ℕ} {o : Server K × Next} (hl : o.1.Linked h.uuid k n m) :
    let out : Outcome K (Accepting K) := proceed L c h o
    Emits L k n (some h.data) (tally L (.server c) out.2.2) ∧ out.2.1.Holds h.data h.receiveBuffer := by
  unfold proceed
  split
  · exact sendPacket_emits L hl _
  · exact ⟨.none, Task.Holds.handler { h with pc := _ }⟩
  · exact ⟨.none, .over _⟩
  · exact ⟨.none, .over _⟩

/-- A frame that is the next packet. -/
theorem onFrame_fed (hl : s.Linked h.uuid k n n) (hf : Feeding L c bs j (.idle k n))
    {x : K × ℕ × Bytes} (hx : bs[j]? = some x) {t : Task (Accepting K)}
    (ht : t.asked x.2.2 = some x.2.2) (draw : Uuid4)
    (hin : Inlet (stream L L.clientPublic bs) (j + 1 + 1) h.receiveBuffer feed) :
    Fed L c bs j feed (.idle k n) t (onFrame L s c h (some (packet L x)) draw) := by
  obtain ⟨cl, hcl, hk, htx, hrx⟩ := id hl
  obtain ⟨r, hu, rfl⟩ := Server.client_eq_some.1 hcl
  obtain ⟨hdec, hv⟩ := hf.next L hx
  have hrec : (s.modify r Client.received).Linked h.uuid k n (n + 1) :=
    hl.modify (f := Client.received) hu (fun _ => rfl) (fun _ h => h) fun _ h => congrArg (· + 1) h
  have hsent := proceed_emits L (c := c) (h := { h with data := x.2.2 })
    (hrec.quiet (dispatch_quiet _ h.uuid x.2.2 draw))
  have hbye : x.2.2 = [0x88] → (proceed L c { h with data := x.2.2 }
      (dispatch (s.modify r Client.received) h.uuid x.2.2 draw) : Outcome K (Accepting K)) =
        (teardown (s.modify r Client.received) h.uuid, .over none, []) := by
    intro hb
    rw [hb]
    rfl
  simp only [onFrame, hu, hk, hrx, hdec, hv]
  refine .took [x.2.2] rfl hx (ht ▸ hsent.1) ?_ (.inr rfl) (fun hb => ?_) hsent.2 hin
  · simp only [seen]
    rw [tally_opened, tally_accepted]
    rfl
  · simp only [seen, hbye hb]
    exact ⟨rfl, none, rfl⟩

theorem pump_fed (hl : s.Linked h.uuid k n n) (hf : Feeding L c bs j (.idle k n))
    {t : Task (Accepting K)} (hd : t.data = h.data) (ht : ∀ d, t.asked d = some d) (draw : Uuid4)
    (hin : Inlet (stream L L.clientPublic bs) (j + 1) h.receiveBuffer feed) :
    Fed L c bs j feed (.idle k n) t (pump L s c h draw) := by
  rcases hin.cut packetFraming cut_nil (hf.numbered.complete L _) with hc | ⟨f, r, hm, hc, hr⟩
  · have hx := extract_more hc
    simp only [pump, hx]
    refine .still rfl ?_ hin
    rw [hd]
    exact Task.Holds.handler { h with pc := .recv }
  · have hx := extract_frame hc
    obtain ⟨x, hbs, rfl⟩ := next_packet L hm
    simp only [pump, hx]
    exact onFrame_fed L (h := { h with receiveBuffer := r }) hl hf hbs (ht _) draw hr

/-- Without a frame the handler raises. -/
theorem onFrame_none_fed (draw : Uuid4) {t : Task (Accepting K)}
    (hin : Inlet (stream L L.clientPublic bs) (j + 1) b feed) :
    Fed L c bs j feed e t (onFrame L s c h none draw) := by
  unfold onFrame
  cases s.clientDb.get? h.uuid with
  | none => exact .over L hin
  | some r => exact .over L hin

/-- **A step of a handler.** -/
theorem handlerStep_fed {i : Input} {draw : Uuid4} {out : Outcome K (Accepting K)} {feed : Bytes}
    (hat : (Task.handler h).AtEnd s e) (hf : Feeding L c bs j e)
    (hin : Inlet (stream L L.clientPublic bs) (j + 1) h.receiveBuffer feed)
    (hchunk : i.chunk <+: feed) (ho : handlerStep L s c h i draw = some out) :
    Fed L c bs j (feed.drop i.chunk.length) e (.handler h) out := by
  obtain ⟨k, n, hl, rfl⟩ := hat
  obtain ⟨uuid, buffer, data, pc⟩ := h
  dsimp only at hl hin
  have hin' := hin.arrive hchunk
  have hasked : ∀ (h : Handler) (d : Bytes), (Task.handler h : Task (Accepting K)).asked d = some d :=
    fun _ _ => rfl
  dsimp only [handlerStep] at ho
  split at ho
  · cases ho
    obtain ⟨cl, hcl, hk, -⟩ := id hl
    simp only [started, hcl, hk]
    exact .still rfl (Task.Holds.handler ⟨uuid, buffer, data, .sleep⟩) hin
  · cases ho
    exact pump_fed L (h := ⟨uuid, buffer, data, .sleep⟩) hl hf rfl (hasked _) draw hin
  · rename_i chunk
    split_ifs at ho
    · cases ho
      exact onFrame_none_fed L draw hin'
    · cases ho
      exact pump_fed L (h := ⟨uuid, buffer ++ chunk, data, .recv⟩) hl hf rfl (hasked _) draw hin'
  · split_ifs at ho
    cases ho
    have hlock : Quiet s (s.setDbLock true) := ⟨rfl, rfl, fun _ => .refl _⟩
    exact sendReply_fed L (hl.quiet (hlock.trans (dbOp_quiet _ _ _))) _ hin
  · split at ho
    · cases ho
    · cases ho
      exact sendReply_fed L (hl.quiet (.modify s _ _ (.setInbox _))) _ hin
  · split_ifs at ho
    cases ho
    exact sendReply_fed L (hl.quiet (.modify s _ _ (.setOutbox _))) (.ok ACK) hin
  · rename_i r id
    split_ifs at ho
    have hlock := hl.quiet (.modify s r _ (.setOutboxLock true))
    split at ho
    · cases ho
      exact sendReply_fed L hlock _ hin
    · cases ho
      exact sendReply_fed L (hlock.quiet (.modify _ _ _ (.setOutbox _))) _ hin
  · cases ho
    rename_i held after
    obtain ⟨cl, hcl, hk, htx, hrx⟩ := id hl
    obtain ⟨r, hu, rfl⟩ := Server.client_eq_some.1 hcl
    cases after with
    | frameError => exact onFrame_none_fed L draw hin'
    | next =>
      simp only [onSent, hu]
      exact .still rfl (Task.Holds.handler ⟨uuid, buffer, data, .sleep⟩) hin
    | close =>
      simp only [onSent, hu]
      exact .over L hin'
  · cases ho
    exact .over L hin'
  · cases ho

end

/-! ## The handshake -/

section
variable {l : Locals K}

theorem sendHandshake_emits (s : Server K) (c : ConnId) (l : Locals K) (data : Bytes)
    (hn : l.txNonce = n) (reply : Bytes) (next : Accepting K) (hk : next.Keyed)
    (hb : next.buffer = []) :
    let out := sendHandshake L s c l reply next
    Emits L l.cipher n none (tally L (.server c) out.2.2) ∧ out.2.1.Holds data [] := by
  subst hn
  simp only [sendHandshake, seen]
  rw [tally_append]
  rcases tally_construct L (.server c) l.cipher l.txNonce reply with ⟨hp, ht⟩ | ⟨e, hp, ht⟩
  · rw [ht, hp]
    refine ⟨?_, .accept hk hb⟩
    have : Emits L l.cipher l.txNonce none _ := Emits.reply hp
    simpa [tally, Tally.append, built, opened, acceptedBy, sends, answers] using this
  · rw [ht, hp]
    exact ⟨.none, .over _⟩

variable {a : Accepting K} {x : K × ℕ × Bytes}

/-- A frame that is the next packet. -/
theorem onPassword_fed (htx : l.txNonce = 0) (hrx : l.rxNonce = 0)
    (hf : Feeding L c bs j (.idle l.cipher 0)) (hx : bs[j]? = some x)
    (hin : Inlet (stream L L.clientPublic bs) (j + 1 + 1) [] feed) :
    Fed L c bs j feed (.idle l.cipher 0) (.accept a) (onPassword L s c l (packet L x)) := by
  obtain ⟨hdec, hv⟩ := hf.next L hx
  simp only [onPassword, hrx, hdec, hv]
  by_cases hp : x.2.2 ≠ 0 :: s.password
  · rw [if_pos hp]
    refine .took [] (T := .none) rfl hx .none ?_ (.inl ⟨none, rfl⟩)
      (fun _ => ⟨rfl, none, rfl⟩) (.over none) hin
    simp only [seen, rejected]
    rw [tally_opened]
    rfl
  · rw [if_neg hp]
    have hs := sendHandshake_emits L s c { l with rxNonce := 0 + 1 } x.2.2 htx ACK
      (.sendAck { l with rxNonce := 0 + 1, txNonce := l.txNonce + 1 }) trivial rfl
    refine .took [x.2.2] rfl hx hs.1 ?_ (.inr rfl) (fun hb => ?_) hs.2 hin
    · simp only [seen]
      rw [tally_opened, tally_accepted]
      rfl
    · rw [not_not, hb] at hp
      cases hp

theorem onLogin_fed (htx : l.txNonce = 1) (hrx : l.rxNonce = 1)
    (hf : Feeding L c bs j (.idle l.cipher 1)) (hx : bs[j]? = some x) (draw : Uuid4)
    (hin : Inlet (stream L L.clientPublic bs) (j + 1 + 1) [] feed) :
    Fed L c bs j feed (.idle l.cipher 1) (.accept a) (onLogin L s c l (packet L x) draw) := by
  obtain ⟨hdec, hv⟩ := hf.next L hx
  simp only [onLogin, hrx, hdec, hv]
  -- what follows the payload is a reply, or the pass is over
  suffices hrest : ∀ o : Outcome K (Accepting K), Emits L l.cipher 1 none (tally L (.server c) o.2.2) →
      o.2.1.Holds x.2.2 [] → (x.2.2 = [0x88] → o.2.2 = [] ∧ o.2.1.Over) →
      Fed L c bs j feed (.idle l.cipher 1) (.accept a)
        (seen [.decrypt (.server c) x.1 x.2.1 (sealed L x.1 x.2.1 x.2.2)]
          (seen [.accepted (.server c) x.2.2] o)) by
    have hsend : ∀ (s : Server K) (os : List (Obs K)) (reply : Bytes) (next : Accepting K),
        tally L (.server c) os = .none → next.Keyed → next.buffer = [] →
        let o := seen os (sendHandshake L s c { l with rxNonce := 1 + 1 } reply next)
        Emits L l.cipher 1 none (tally L (.server c) o.2.2) ∧ o.2.1.Holds x.2.2 [] := by
      intro s os reply next hos hk hb
      simp only [seen]
      rw [tally_append, hos, Tally.none_append]
      exact sendHandshake_emits L s c { l with rxNonce := 1 + 1 } x.2.2 htx reply next hk hb
    rcases hd : x.2.2 with _ | ⟨type_, rest⟩
    · rw [hd] at hrest
      exact hrest _ .none (.over _) fun _ => ⟨rfl, _, rfl⟩
    rw [hd] at hrest hsend
    simp only
    by_cases hr : type_ = 0xC4
    · subst hr
      simp only [if_true]
      rcases s.clientDb.get? (latin1Decode rest) with _ | r
      · have hs := hsend s [] [0, 69, 82, 82, 7] (.sendUnknown { l with rxNonce := 1 + 1 }) rfl trivial
          rfl
        exact hrest _ hs.1 hs.2 fun h => by cases h
      · have hs := hsend (s.modify r (Client.attach c l.cipher)) [.relogin c (latin1Decode rest)] ACK
          (.sendLogin { l with rxNonce := 1 + 1 } (latin1Decode rest) r) rfl trivial rfl
        exact hrest _ hs.1 hs.2 fun h => by cases h
    by_cases hl : type_ = 0xC5
    · subst hl
      simp only [if_neg hr, if_true]
      have hs := hsend (s.addSession draw.str (.login c draw.str l.cipher l.txNonce (1 + 1)))
        [.session c draw.str] ACK (.sendLogin { l with rxNonce := 1 + 1 } draw.str s.fresh) rfl
        trivial rfl
      exact hrest _ hs.1 hs.2 fun h => by cases h
    · simp only [if_neg hr, if_neg hl]
      exact hrest _ .none (.over _) fun _ => ⟨rfl, _, rfl⟩
  intro o he hh hb
  refine .took [x.2.2] rfl hx he ?_ (.inr rfl) (fun h => ?_) hh hin
  · simp only [seen]
    rw [tally_opened, tally_accepted]
    rfl
  · rw [(hb h).1]
    exact ⟨rfl, (hb h).2⟩

/-- A chunk of a pass; nothing is written behind the packet that it waits for. -/
theorem onChunk_fed {k : K} {n : ℕ} {buffer chunk : Bytes} {waiting : Bytes → Accepting K}
    {frame : Bytes → Outcome K (Accepting K)} (hk : ∀ b, (waiting b).Keyed)
    (hw : ∀ b, (waiting b).buffer = b)
    (hf : Feeding L c bs j (.idle k n)) (hshort : bs.length ≤ j + 1)
    (hin : Inlet (stream L L.clientPublic bs) (j + 1) (buffer ++ chunk) feed)
    (h : ∀ x, bs[j]? = some x → Inlet (stream L L.clientPublic bs) (j + 1 + 1) [] feed →
      Fed L c bs j feed (.idle k n) (.accept a) (frame (packet L x))) :
    Fed L c bs j feed (.idle k n) (.accept a) (onChunk s buffer chunk waiting frame) := by
  unfold onChunk
  split_ifs
  · exact .over L hin
  rcases hin.cut packetFraming cut_nil (hf.numbered.complete L _) with hc | ⟨f, r, hm, hc, hr⟩
  · simp only [extract_more hc]
    exact .still rfl (.accept (hk _) (hw _)) hin
  · obtain ⟨x, hx, rfl⟩ := next_packet L hm
    simp only [extract_frame hc]
    refine h x hx (hr.clear ?_)
    have := hr.pos_le
    rw [length_stream] at this ⊢
    omega

/-- **A step of a pass that has its key.** -/
theorem acceptStep_fed {i : Input} {draw : Uuid4} {out : Outcome K (Accepting K)} {feed : Bytes}
    (hkeyed : a.Keyed) (hat : (Task.accept a).AtEnd s e) (hf : Feeding L c bs j e)
    (hshort : (∃ k n, e = .idle k n) → bs.length ≤ j + 1)
    (hin : Inlet (stream L L.clientPublic bs) (j + 1) a.buffer feed) (hchunk : i.chunk <+: feed)
    (ho : acceptStep L s c a i draw = some out) :
    Fed L c bs j (feed.drop i.chunk.length) e (.accept a) out := by
  have hin' := hin.arrive hchunk
  unfold acceptStep at ho
  split at ho
  · exact hkeyed.elim
  · exact hkeyed.elim
  · obtain ⟨htx, hrx, rfl⟩ := hat
    split_ifs at ho
    cases ho
    exact onChunk_fed L (fun _ => trivial) (fun _ => rfl) hf (hshort ⟨_, _, rfl⟩) hin' fun x hx hr =>
      onPassword_fed L htx hrx hf hx hr
  · cases ho
    exact .still rfl (.accept trivial rfl) hin
  · obtain ⟨htx, hrx, rfl⟩ := hat
    split_ifs at ho
    cases ho
    exact onChunk_fed L (fun _ => trivial) (fun _ => rfl) hf (hshort ⟨_, _, rfl⟩) hin' fun x hx hr =>
      onLogin_fed L htx hrx hf hx draw hr
  · cases ho
    exact .still rfl (Task.Holds.handler _) hin
  · cases ho
    exact .still rfl (Task.Holds.handler _) hin
  · cases ho
    exact .over L hin'
  · cases ho

end

end Pipebomb
