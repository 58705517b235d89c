/-
  The two ends of a connection whose streams deliver what was written.

  * `Dialogue`: what the server opened and built so far, given the packets it was sent.
  * `ServerHalf`, `ClientHalf`: an end, with the stream that it reads.
  * `ServerHalf.fed`, `ClientHalf.fed`: a step past the exchange of the keys keeps it;
    `ServerHalf.greets`, `ClientHalf.greets`: so does a step of the exchange.
-/
import Pipebomb.ClientFeed
import Pipebomb.Moves

namespace Pipebomb

open ByteString

variable {K : Type} (L : Libs K)

/-! ## Streams -/

/-- What an end wrote: nothing, or its key and the packets. -/
def Spoken (key : Bytes) (sends : List Bytes) (bs : List (K × ℕ × Bytes)) : Prop :=
  sends = stream L key bs ∨ sends = [] ∧ bs = []

/-- The payloads of packets. -/
def payloads (bs : List (K × ℕ × Bytes)) : List Bytes := bs.map fun x => x.2.2

variable {c : ConnId} {key feed b : Bytes} {sends : List Bytes} {xs ys new : List (K × ℕ × Bytes)}
  {T U : Tally K} {x : K × ℕ × Bytes} {k : K} {n : ℕ}

theorem Spoken.stream (h : Spoken L key sends xs) (hne : sends ≠ []) :
    sends = Pipebomb.stream L key xs :=
  h.resolve_right fun h' => hne h'.1

/-- More packets are written behind the key. -/
theorem Spoken.append (h : Spoken L key sends xs) (new : List (K × ℕ × Bytes)) (hne : sends ≠ []) :
    Spoken L key (sends ++ new.map (packet L)) (xs ++ new) := by
  refine .inl ?_
  rw [h.stream L hne, Pipebomb.stream, Pipebomb.stream, List.cons_append, ← List.map_append]

/-- A reader that took something was sent something. -/
theorem Spoken.of_inlet {pos : ℕ} (h : Spoken L key sends xs) (hin : Inlet sends (pos + 1) b feed) :
    sends = Pipebomb.stream L key xs := by
  refine h.stream L ?_
  rintro rfl
  exact absurd hin.pos_le (by simp)

@[simp] theorem payloads_append (bs bs' : List (K × ℕ × Bytes)) :
    payloads (bs ++ bs') = payloads bs ++ payloads bs' := List.map_append

@[simp] theorem length_payloads (bs : List (K × ℕ × Bytes)) : (payloads bs).length = bs.length :=
  List.length_map ..

/-- Nothing is paired with what the longer list gets. -/
theorem zip_grow {α β : Type} {as as' : List α} {bs : List β} (h : bs.length ≤ as.length) :
    (as ++ as').zip bs = as.zip bs := by
  induction bs generalizing as with
  | nil => rw [List.zip_nil_right, List.zip_nil_right]
  | cons b bs ih =>
    cases as with
    | nil => exact absurd h (by simp)
    | cons a as =>
      rw [List.cons_append, List.zip_cons_cons, List.zip_cons_cons, ih (by simpa using h)]

/-- The next pair. -/
theorem zip_snoc {α β : Type} {as : List α} {bs : List β} {a : α} {y : β}
    (ha : as[bs.length]? = some a) : as.zip (bs ++ [y]) = as.zip bs ++ [(a, y)] := by
  induction bs generalizing as with
  | nil =>
    cases as with
    | nil => cases ha
    | cons a' as =>
      cases ha
      rw [List.nil_append, List.zip_cons_cons, List.zip_nil_right, List.zip_nil_right, List.nil_append]
  | cons b bs ih =>
    cases as with
    | nil => cases ha
    | cons a' as =>
      rw [List.length_cons, List.getElem?_cons_succ] at ha
      rw [List.cons_append, List.zip_cons_cons, List.zip_cons_cons, ih ha, List.cons_append]

/-- What was taken of the packets behind those that were opened. -/
theorem opened_append {os : List (K × ℕ × Bytes)} {taken : List (K × ℕ × Bytes)}
    (h : os <+: ys.map (opening L)) (ht : taken <+: ys.drop os.length) :
    os ++ taken.map (opening L) <+: ys.map (opening L) := by
  have hos : os = (ys.take os.length).map (opening L) := by
    rw [List.map_take]
    exact List.prefix_iff_eq_take.1 h
  obtain ⟨rest, hrest⟩ := ht
  refine ⟨rest.map (opening L), ?_⟩
  rw [List.append_assoc, ← List.map_append, hrest]
  nth_rewrite 1 [hos]
  rw [← List.map_append, List.take_append_drop]

/-! ## What the server opened and built -/

/-- What the server opened and built, given the packets `xs` that its client wrote. -/
structure Dialogue (c : ConnId) (xs : List (K × ℕ × Bytes)) (U : Tally K) : Prop where
  said : Spoken L (L.serverPublic c) U.sends U.built
  numbered : Numbered L c U.built
  opened : U.opened <+: xs.map (opening L)
  behind : U.built.length ≤ U.opened.length
  answers : U.answers = ((payloads xs).zip (payloads U.built)).drop 2
  noBye : ∀ p ∈ U.answers, p.1 ≠ [0x88]

namespace Dialogue

theorem empty (c : ConnId) (xs : List (K × ℕ × Bytes)) : Dialogue L c xs .none where
  said := .inr ⟨rfl, rfl⟩
  numbered := .nil L
  opened := List.nil_prefix
  behind := Nat.le_refl 0
  answers := by simp [payloads, Tally.none]
  noBye := by simp [Tally.none]

variable (h : Dialogue L c xs U)
include h

theorem le : U.opened.length ≤ xs.length := by
  simpa using h.opened.length_le

/-- More packets are written. -/
theorem grow (new : List (K × ℕ × Bytes)) : Dialogue L c (xs ++ new) U where
  said := h.said
  numbered := h.numbered
  opened := by
    rw [List.map_append]
    exact h.opened.trans (List.prefix_append _ _)
  behind := h.behind
  answers := by
    have hle : (payloads U.built).length ≤ (payloads xs).length := by
      rw [length_payloads, length_payloads]
      exact h.behind.trans (h.le L)
    rw [payloads_append, zip_grow hle]
    exact h.answers
  noBye := h.noBye

/-- The next packet is opened. -/
theorem opens (as : List Bytes) (hx : xs[U.opened.length]? = some x) :
    Dialogue L c xs (U.append ⟨[], [opening L x], as, [], []⟩) where
  said := by simpa [Tally.append] using h.said
  numbered := by simpa [Tally.append] using h.numbered
  opened := by
    refine prefix_snoc h.opened ?_
    rw [List.getElem?_map, hx]
    rfl
  behind := by
    simp only [Tally.append, List.append_nil, List.length_append]
    exact h.behind.trans (Nat.le_add_right _ _)
  answers := by simpa [Tally.append] using h.answers
  noBye := by simpa [Tally.append] using h.noBye

/-- The packet that was opened last is answered. -/
theorem emits {data : Option Bytes} (hb : U.built.length < U.opened.length) (hn : U.built.length = n)
    (hk : L.exchange c L.clientPublic = some k) (hne : U.sends ≠ [])
    (hsome : ∀ d ∈ data, 2 ≤ n ∧ (payloads xs)[n]? = some d) (hnone : data = .none → n ≤ 1)
    (hbye : ∀ d ∈ data, d = [0x88] → T = .none) (he : Emits L k n data T) : Dialogue L c xs (U.append T) := by
  subst hn
  cases he with
  | none => rwa [Tally.append_none]
  | @reply reply hp =>
    refine ⟨?_, h.numbered.snoc L hk hp, ?_, ?_, ?_, ?_⟩
    · exact h.said.append L [(k, U.built.length, reply)] hne
    · simpa [Tally.append] using h.opened
    · simpa [Tally.append] using hb
    · simp only [Tally.append, payloads_append, h.answers]
      have hlen : U.built.length < (payloads xs).length := by
        rw [length_payloads]
        exact hb.trans_le (h.le L)
      cases data with
      | none =>
        have hle := hnone rfl
        have hdrop : ∀ l : List (Bytes × Bytes), l.length ≤ 2 → l.drop 2 = [] :=
          fun l hl => List.drop_eq_nil_of_le hl
        rw [hdrop, hdrop]
        · rfl
        · simp [payloads]
          omega
        · simp
          omega
      | some d =>
        obtain ⟨h2, hd⟩ := hsome d rfl
        have hpair : (payloads xs).zip (payloads U.built ++ [reply]) =
            (payloads xs).zip (payloads U.built) ++ [(d, reply)] :=
          zip_snoc (by rwa [length_payloads])
        have hmap : payloads [(k, U.built.length, reply)] = [reply] := rfl
        rw [hmap, hpair, List.drop_append_of_le_length]
        · rfl
        · rw [List.length_zip, length_payloads, length_payloads]
          rw [length_payloads] at hlen
          omega
    · intro p hm
      rcases List.mem_append.1 hm with hm | hm
      · exact h.noBye p hm
      · obtain ⟨d, hd, rfl⟩ := List.mem_map.1 hm
        intro hd'
        have := congrArg Tally.built (hbye d (by simpa using hd) hd')
        cases this

end Dialogue

/-! ## The server's half -/

/-- Where the coroutine of the connection stands in the stream of its client. -/
def Task.Place (c : ConnId) (sends : List Bytes) (U : Tally K) (feed : Bytes) :
    Task (Accepting K) → Prop
  | .over _ => True
  | .idle => U = .none ∧ Inlet sends 0 [] feed
  | .accept (.publicKey b) => U = .none ∧ Inlet sends 0 b feed
  | .accept (.sendPublic key) =>
    key = L.clientPublic ∧ U = ⟨[], [], [], [L.serverPublic c], []⟩ ∧ Inlet sends 1 [] feed
  | t => U.sends ≠ [] ∧ U.accepted.length = U.opened.length ∧
      Inlet sends (U.opened.length + 1) t.buffer feed

/-- The server's half: its client wrote `sends`, the packets in it are `xs`. -/
structure ServerHalf (c : ConnId) (sends : List Bytes) (xs : List (K × ℕ × Bytes)) (U : Tally K)
    (feed : Bytes) (e : ServerEnd K) (t : Task (Accepting K)) : Prop where
  exchange : Dialogue L c xs U
  key : ∀ k ∈ e.key, L.exchange c L.clientPublic = some k
  place : t.Place L c sends U feed
  work : ∀ h, t = .handler h → 2 ≤ U.built.length ∧ h.data ≠ [0x88] ∧
    (U.built.length < U.opened.length → (payloads xs)[U.built.length]? = some h.data)

variable {e e' : ServerEnd K} {t t' : Task (Accepting K)} {s : Server K}

theorem place_keyed (h : t.Keyed) : t.Place L c sends U feed ↔
    U.sends ≠ [] ∧ U.accepted.length = U.opened.length ∧
      Inlet sends (U.opened.length + 1) t.buffer feed := by
  cases t with
  | idle => exact h.elim
  | «over» x => exact h.elim
  | handler h' => exact Iff.rfl
  | accept a =>
    cases a with
    | publicKey b => exact h.elim
    | sendPublic key => exact h.elim
    | password | sendAck | login | sendUnknown | sendLogin => exact Iff.rfl

/-- More arrives from the client. -/
theorem Task.Place.grow (h : t.Place L c sends U feed) (ms : List Bytes) :
    t.Place L c (sends ++ ms) U (feed ++ ms.flatten) := by
  cases t with
  | idle => exact ⟨h.1, h.2.grow ms⟩
  | «over» x => trivial
  | handler h' => exact ⟨h.1, h.2.1, h.2.2.grow ms⟩
  | accept a =>
    cases a with
    | publicKey b => exact ⟨h.1, h.2.grow ms⟩
    | sendPublic key => exact ⟨h.1, h.2.1, h.2.2.grow ms⟩
    | password | sendAck | login | sendUnknown | sendLogin => exact ⟨h.1, h.2.1, h.2.2.grow ms⟩

/-- The client writes more. -/
theorem ServerHalf.grow (h : ServerHalf L c sends xs U feed e t) (new : List (K × ℕ × Bytes))
    (ms : List Bytes) : ServerHalf L c (sends ++ ms) (xs ++ new) U (feed ++ ms.flatten) e t where
  exchange := h.exchange.grow L new
  key := h.key
  place := h.place.grow L ms
  work h' ht := by
    obtain ⟨h2, hbye, hd⟩ := h.work h' ht
    refine ⟨h2, hbye, fun hlt => ?_⟩
    have hlen : U.built.length < (payloads xs).length := by
      rw [length_payloads]
      exact hlt.trans_le (h.exchange.le L)
    rw [payloads_append, List.getElem?_append_left hlen]
    exact hd hlt

/-- Another coroutine goes on. -/
theorem ServerHalf.congr (h : ServerHalf L c sends xs U feed e t) (hk : ∀ k ∈ e'.key, k ∈ e.key) :
    ServerHalf L c sends xs U feed e' t :=
  ⟨h.exchange, fun k hk' => h.key k (hk k hk'), h.place, h.work⟩

/-- A step of the end keeps the key. -/
theorem ServerStep.key_of {o : List (Obs K)} (h : ServerStep L c e e' o) (he : e ≠ .start) :
    e' ≠ .start ∧ ∀ k ∈ e'.key, k ∈ e.key := by
  cases h with
  | key k => exact absurd rfl he
  | die => exact ⟨fun h => (by cases h), fun k hk => (by cases hk)⟩
  | accept | reject | reply | refuse | sent => exact ⟨fun h => (by cases h), fun k hk => hk⟩

theorem run_key {o : List (Obs K)} (h : Lts.Run (ServerStep L c) e e' o) (he : e ≠ .start) :
    e' ≠ .start ∧ ∀ k ∈ e'.key, k ∈ e.key := by
  induction h with
  | nil => exact ⟨he, fun k hk => hk⟩
  | snoc _ hst ih =>
    obtain ⟨hne, hsub⟩ := hst.key_of L ih.1
    exact ⟨hne, fun k hk => ih.2 k (hsub k hk)⟩

/-- Where a handshake with a key stands. -/
theorem keyed_stage {a : Accepting K} (hk : a.Keyed) (hat : (Task.accept a).AtEnd s e) :
    ∃ k, e = .idle k 0 ∨ e = .sending k 0 ∨ e = .idle k 1 ∨ e = .sending k 1 := by
  cases a with
  | publicKey | sendPublic => exact hk.elim
  | password l b => exact ⟨_, .inl hat.2.2⟩
  | sendAck l => exact ⟨_, .inr (.inl hat.2.2)⟩
  | login l b => exact ⟨_, .inr (.inr (.inl hat.2.2))⟩
  | sendUnknown l => exact ⟨_, .inr (.inr (.inr hat.2.2))⟩
  | sendLogin l u r => exact ⟨_, .inr (.inr (.inr hat.2.2.1))⟩

/-- A handler starts when the reply to the login was sent. -/
theorem handler_starts {i : Input} {draw : Uuid4} {out : Outcome K (Accepting K)} {h : Handler}
    (hat : t.AtEnd s e) (ho : taskStep L s c t i draw = some out) (hh : out.2.1 = .handler h) :
    (∃ h₀, t = .handler h₀) ∨ ∃ k, e = .sending k 1 := by
  cases t with
  | idle => cases ho
  | «over» x => cases ho
  | handler h₀ => exact .inl ⟨h₀, rfl⟩
  | accept a =>
    cases acceptStep_joins L ho with
    | still hout => exact absurd hh (fun hh => by subst hh; exact hout.elim)
    | login ht =>
      rcases ht with rfl | hout
      · cases hh
      · exact absurd hh (fun hh => by subst hh; exact hout.elim)
    | attach _ ht =>
      rcases ht with rfl | hout
      · cases hh
      · exact absurd hh (fun hh => by subst hh; exact hout.elim)
    | unknown => exact .inr ⟨_, hat.2.2⟩
    | finish => exact .inr ⟨_, hat.2.2.1⟩

theorem Task.Holds.place {data : Bytes} (hh : t'.Holds data b) (hne : U.sends ≠ [])
    (hacc : t'.Over ∨ U.accepted.length = U.opened.length)
    (hin : Inlet sends (U.opened.length + 1) b feed) : t'.Place L c sends U feed := by
  rcases hh with ⟨x, rfl⟩ | ⟨hk, -, rfl⟩
  · trivial
  · refine (place_keyed L hk).2 ⟨hne, hacc.resolve_left ?_, hin⟩
    rintro ⟨x, rfl⟩
    exact hk

theorem Task.Holds.data {data : Bytes} {h : Handler} (hh : t'.Holds data b) (ht : t' = .handler h) :
    h.data = data := by
  rcases hh with ⟨x, rfl⟩ | ⟨-, hd, -⟩
  · cases ht
  · exact hd h ht

/-- What a reply leaves, and that it is one packet at most. -/
theorem Emits.rest {data : Option Bytes} (h : Emits L k n data T) :
    T.opened = [] ∧ T.accepted = [] ∧ T.built.length ≤ 1 := by
  cases h with
  | none => exact ⟨rfl, rfl, Nat.zero_le 1⟩
  | reply => exact ⟨rfl, rfl, Nat.le_refl 1⟩

/-- **A step of a coroutine past the exchange of the keys.** -/
theorem ServerHalf.fed {feed' : Bytes} {out : Outcome K (Accepting K)}
    (h : ServerHalf L c sends xs U feed e t) (hsends : Spoken L L.clientPublic sends xs)
    (hkeyed : t.Keyed) (hat : t.AtEnd s e) (hok : e.Ok U.built U.accepted)
    (hf : Fed L c xs U.opened.length feed' e t out) (hkey : ∀ k ∈ e'.key, k ∈ e.key)
    (hstart : ∀ h', out.2.1 = .handler h' → (∃ h₀, t = .handler h₀) ∨ ∃ k, e = .sending k 1) :
    ServerHalf L c sends xs (U.append (tally L (.server c) out.2.2)) feed' e' out.2.1 := by
  obtain ⟨hne, hacc, hin⟩ := (place_keyed L hkeyed).1 h.place
  have hstream := hsends.of_inlet L hin
  have hkey' : ∀ k ∈ e'.key, L.exchange c L.clientPublic = some k := fun k hk => h.key k (hkey k hk)
  -- a handler answers, or the handshake, which answers twice
  have hasks : ∀ {k n}, e = .idle k n ∨ e = .busy k n →
      (∃ h₀, t = .handler h₀) ∨ n ≤ 1 ∧ e = .idle k n ∧ (∀ h', out.2.1 ≠ .handler h') ∧
        ∀ d, t.asked d = none := by
    intro k n he
    cases t with
    | idle => exact hkeyed.elim
    | «over» x => exact hkeyed.elim
    | handler h₀ => exact .inl ⟨h₀, rfl⟩
    | accept a =>
      obtain ⟨k', hs⟩ := keyed_stage hkeyed hat
      have hnot : ∀ h', out.2.1 ≠ .handler h' := by
        intro h' hh
        rcases hstart h' hh with ⟨h₀, h₀'⟩ | ⟨k'', hs'⟩
        · cases h₀'
        · rcases he with he | he <;> rw [he] at hs' <;> cases hs'
      rcases he with he | he
      · refine .inr ⟨?_, he, hnot, fun _ => rfl⟩
        rcases hs with hs | hs | hs | hs <;> rw [he] at hs <;> cases hs
        · exact Nat.zero_le 1
        · exact Nat.le_refl 1
      · rcases hs with hs | hs | hs | hs <;> rw [he] at hs <;> cases hs
  cases hf with
  | @still b' ht hh hin' =>
    rw [ht, Tally.append_none]
    refine ⟨h.exchange, hkey', hh.place L hne (.inr hacc) (hstream ▸ hin'), fun h' hh' => ?_⟩
    rw [hh.data hh']
    rcases hstart h' hh' with ⟨h₀, rfl⟩ | ⟨k, rfl⟩
    · exact h.work h₀ rfl
    · have hbuilt := hok.1.length
      have hopened := hok.2
      refine ⟨by omega, ?_, by omega⟩
      cases t with
      | handler h₀ => exact (h.work h₀ rfl).2.1
      | _ => simp [Task.data]
  | @reply k n b' he hE hh hin' =>
    subst he
    obtain ⟨h₀, rfl⟩ : ∃ h₀, t = .handler h₀ := by
      rcases hasks (.inr rfl) with h₀ | ⟨-, he, -⟩
      · exact h₀
      · cases he
    have hbuilt := hok.1.length
    have hopened := hok.2
    obtain ⟨h2, hnobye, hd⟩ := h.work h₀ rfl
    have hdata := hd (by omega)
    obtain ⟨ho, ha, hle⟩ := hE.rest L
    refine ⟨h.exchange.emits L (by omega) hbuilt (h.key k rfl) hne ?_ (fun hn => by cases hn) ?_ hE,
      hkey', hh.place L ?_ (.inr ?_) ?_, fun h' hh' => ?_⟩
    · rintro d ⟨⟩
      exact ⟨hbuilt ▸ h2, hbuilt ▸ hdata⟩
    · rintro d ⟨⟩ hd
      exact absurd hd hnobye
    · simp [Tally.append, hne]
    · simp [Tally.append, ho, ha, hacc]
    · simp only [Tally.append, ho, List.append_nil]
      exact hstream ▸ hin'
    · simp only [Tally.append, ho, List.append_nil, List.length_append]
      rw [hh.data hh']
      refine ⟨by omega, hnobye, fun hlt => ?_⟩
      have hzero : (tally L (.server c) out.2.2).built.length = 0 := by omega
      rw [hzero, Nat.add_zero]
      exact hdata
  | @took k n x as T b' he hx hE ht hover hbye hh hin' =>
    subst he
    have hbuilt := hok.1.length
    have hopened : U.opened.length = n := hacc.symm.trans hok.2
    obtain ⟨ho, ha, hle⟩ := hE.rest L
    have hpay : (payloads xs)[n]? = some x.2.2 := by
      rw [payloads, List.getElem?_map, ← hopened, hx]
      rfl
    rw [ht, ← Tally.append_assoc]
    refine ⟨(h.exchange.opens L as hx).emits L ?_ ?_ (h.key k rfl) ?_ ?_ ?_ ?_ hE, hkey',
      hh.place L ?_ ?_ ?_, fun h' hh' => ?_⟩
    · simp [Tally.append]
      omega
    · simpa [Tally.append] using hbuilt
    · simpa [Tally.append] using hne
    · rintro d hd
      rcases hasks (.inl rfl) with ⟨h₀, rfl⟩ | ⟨-, -, -, hnone⟩
      · cases hd
        exact ⟨hbuilt ▸ (h.work h₀ rfl).1, hpay⟩
      · rw [hnone] at hd
        cases hd
    · intro hnone
      rcases hasks (.inl rfl) with ⟨h₀, rfl⟩ | ⟨hle, -⟩
      · cases hnone
      · exact hle
    · rintro d hd hd'
      rcases hasks (.inl rfl) with ⟨h₀, rfl⟩ | ⟨-, -, -, hnone⟩
      · cases hd
        exact (hbye hd').1
      · rw [hnone] at hd
        cases hd
    · simp [Tally.append, hne]
    · refine hover.imp_right fun has => ?_
      simp [Tally.append, ho, ha, has, hacc]
    · simp only [Tally.append, ho, List.append_nil, List.length_append, List.length_singleton]
      exact hstream ▸ hin'
    · obtain ⟨h₀, rfl⟩ : ∃ h₀, t = .handler h₀ := by
        rcases hasks (.inl rfl) with h₀ | ⟨-, -, hnot, -⟩
        · exact h₀
        · exact absurd hh' (hnot h')
      obtain ⟨h2, -⟩ := h.work h₀ rfl
      simp only [Tally.append, ho, List.append_nil, List.length_append, List.length_singleton]
      rw [hh.data hh']
      refine ⟨by omega, fun hd => ?_, fun hlt => ?_⟩
      · obtain ⟨-, x, hover⟩ := hbye hd
        rw [hover] at hh'
        cases hh'
      · have hzero : T.built.length = 0 := by omega
        rw [hzero, Nat.add_zero, hbuilt]
        exact hpay

/-- **A step of the exchange of the keys.** -/
theorem ServerHalf.greets {a : Accepting K} {i : Input} {draw : Uuid4}
    {out : Outcome K (Accepting K)} (h : ServerHalf L c sends xs U feed e (.accept a))
    (hsends : Spoken L L.clientPublic sends xs) (hkeyed : ¬ a.Keyed) (hchunk : i.chunk <+: feed)
    (ho : acceptStep L s c a i draw = some out) (hat' : out.2.1.AtEnd out.1 e') :
    ServerHalf L c sends xs (U.append (tally L (.server c) out.2.2)) (feed.drop i.chunk.length) e'
      out.2.1 := by
  have hover : ∀ {x : Option PyErr} {feed' : Bytes}, (Task.over x).AtEnd out.1 e' →
      ServerHalf L c sends xs (U.append (tally L (.server c) [])) feed' e' (.over x) := by
    intro x feed' he
    obtain rfl : e' = .over := he
    rw [tally_nil, Tally.append_none]
    exact ⟨h.exchange, fun k hk => (by cases hk), trivial, fun h' ht => by cases ht⟩
  have hplace := h.place
  unfold acceptStep at ho
  split at ho
  · rename_i buffer chunk
    obtain ⟨rfl, hin⟩ := hplace
    have hin' : Inlet sends 0 (buffer ++ chunk) (feed.drop chunk.length) := hin.arrive hchunk
    split_ifs at ho with h32 hnil hshort
    · cases ho
      exact hover hat'
    · cases ho
      obtain rfl : e' = .start := hat'
      rw [tally_nil, Tally.append_none]
      exact ⟨h.exchange, fun k hk => (by cases hk), ⟨rfl, hin'⟩, fun h' ht => by cases ht⟩
    · cases ho
      obtain rfl : e' = .start := hat'
      have hne : sends ≠ [] := by
        rintro rfl
        have hb := hin'.bytes
        rw [List.drop_nil, List.flatten_nil] at hb
        rw [(List.append_eq_nil_iff.1 hb).1] at hshort
        exact hshort (by decide)
      have hfirst : sends[0]? = some L.clientPublic := by
        rw [hsends.stream L hne]
        rfl
      have hlen : (buffer ++ chunk).length = L.clientPublic.length := by
        rw [L.length_clientPublic]
        rw [List.length_append] at hshort ⊢
        omega
      obtain ⟨hkey, hin''⟩ := hin'.exactly hfirst hlen
      simp only
      rw [tally_write, Tally.none_append]
      refine ⟨⟨.inl rfl, .nil L, List.nil_prefix, Nat.le_refl 0, by simp [payloads], by simp⟩,
        fun k hk => (by cases hk), ⟨hkey, rfl, hin''⟩, fun h' ht => by cases ht⟩
  · obtain ⟨rfl, rfl, hin⟩ := hplace
    rcases hx : L.exchange c L.clientPublic with _ | k
    · rw [hx] at ho
      cases ho
      exact hover hat'
    · rw [hx] at ho
      cases ho
      obtain ⟨-, -, rfl⟩ := hat'
      rw [tally_nil, Tally.append_none]
      refine ⟨h.exchange, ?_, ⟨by simp, rfl, hin⟩, fun h' ht => by cases ht⟩
      rintro k' ⟨⟩
      exact hx
  · exact absurd trivial hkeyed
  · exact absurd trivial hkeyed
  · exact absurd trivial hkeyed
  · exact absurd trivial hkeyed
  · exact absurd trivial hkeyed
  · cases ho
    exact hover hat'
  · cases ho

/-! ## The client's half -/

/-- Where the client stands in the stream of the server. -/
def RawClient.Place (sends : List Bytes) (T : Tally K) (feed : Bytes) (C : RawClient K) : Prop :=
  match C.connection with
  | .idle => T = .none ∧ Inlet sends 0 [] feed
  | .sendPublic => T = ⟨[], [], [], [L.clientPublic], []⟩ ∧ Inlet sends 0 [] feed
  | .serverKey b => T = ⟨[], [], [], [L.clientPublic], []⟩ ∧ Inlet sends 0 b feed
  | _ => T.sends ≠ [] ∧ ∀ b, C.reading = some b →
      C.rxNonce = T.opened.length ∧ Inlet sends (T.opened.length + 1) b feed

/-- The client's half: the server wrote `sends`, the packets in it are `ys`; the client wrote
    the packets `xs`. -/
structure ClientHalf (c : ConnId) (sends : List Bytes) (ys : List (K × ℕ × Bytes)) (T : Tally K)
    (feed : Bytes) (xs : List (K × ℕ × Bytes)) (C : RawClient K) : Prop where
  said : Spoken L L.clientPublic T.sends xs
  built : ∃ pending, T.built = xs ++ pending ∧ C.tasks = pending.map (packet L)
  numbered : Numbered L c T.built
  key : ∀ k ∈ C.cipher, L.exchange c L.clientPublic = some k
  opened : T.opened <+: ys.map (opening L)
  early : T.opened.length ≤ 1 → T.built.length ≤ T.opened.length + 1
  joined : C.connection = .connected → 2 ≤ T.opened.length
  loop : C.connection ≠ .connected → C.recvLoop = .recv []
  place : C.Place L sends T feed

variable {C C' : RawClient K}

/-- A step of a client past the exchange of the keys stays there, and gets no new key. -/
theorem keyed_step {a : RawClient.Act} {out : RawClient.After K} (hkeyed : C.Keyed)
    (hstep : C.step L a = some out) : out.1.Keyed ∧ (∀ k ∈ out.1.cipher, k ∈ C.cipher) ∧
      (out.1.connection ≠ .connected → C.connection ≠ .connected ∧ out.1.recvLoop = C.recvLoop) := by
  by_cases hconn : C.connection = .connected
  · obtain ⟨hc, hk⟩ := connected_step L hconn hstep
    refine ⟨?_, hk, fun h => absurd hc h⟩
    rw [RawClient.Keyed, hc]
    trivial
  -- a client that is not connected only gets on with `connect`
  suffices hgo : out.1.Keyed ∧ (∀ k ∈ out.1.cipher, k ∈ C.cipher) ∧ out.1.recvLoop = C.recvLoop by
    exact ⟨hgo.1, hgo.2.1, fun _ => ⟨hconn, hgo.2.2⟩⟩
  have hsend : ∀ (C' : RawClient K) (data : Bytes), C'.cipher = C.cipher → C'.recvLoop = C.recvLoop →
      (C'.sendConnect L data .sendLogin).1.Keyed ∧
        (∀ k ∈ (C'.sendConnect L data .sendLogin).1.cipher, k ∈ C.cipher) ∧
          (C'.sendConnect L data .sendLogin).1.recvLoop = C.recvLoop := by
    intro C' data hk hl
    rcases sendConnect_cases L C' data .sendLogin with ⟨e, he⟩ | ⟨pkt, he⟩
    · rw [he]
      exact ⟨trivial, fun k hk' => hk ▸ hk', hl⟩
    · rw [he]
      exact ⟨trivial, fun k hk' => hk ▸ hk', hl⟩
  have hchunk : ∀ (buffer chunk : Bytes) (waiting : Bytes → Connecting) (frame : Bytes → RawClient.After K),
      (∀ b, (C.stand (waiting b)).Keyed) → (∀ f, (frame f).1.Keyed ∧
        (∀ k ∈ (frame f).1.cipher, k ∈ C.cipher) ∧ (frame f).1.recvLoop = C.recvLoop) →
      (C.onChunk buffer chunk waiting frame).1.Keyed ∧
        (∀ k ∈ (C.onChunk buffer chunk waiting frame).1.cipher, k ∈ C.cipher) ∧
          (C.onChunk buffer chunk waiting frame).1.recvLoop = C.recvLoop := by
    intro buffer chunk waiting frame hw hf
    unfold RawClient.onChunk
    split_ifs
    · exact ⟨trivial, fun k hk => hk, rfl⟩
    · split
      · exact ⟨trivial, fun k hk => hk, rfl⟩
      · exact hf _
      · exact ⟨hw _, fun k hk => hk, rfl⟩
  cases a with
  | connect relogUuid =>
    simp only [RawClient.step] at hstep
    split_ifs at hstep with hc
    rw [RawClient.Keyed, not_not.1 hc] at hkeyed
    exact hkeyed.elim
  | resume i =>
    simp only [RawClient.step] at hstep
    unfold RawClient.connectStep at hstep
    split at hstep
    · rename_i hc
      rw [RawClient.Keyed, hc] at hkeyed
      exact hkeyed.elim
    · rename_i hc
      rw [RawClient.Keyed, hc] at hkeyed
      exact hkeyed.elim
    · cases hstep
      exact ⟨trivial, fun k hk => hk, rfl⟩
    · split_ifs at hstep
      cases hstep
      refine hchunk _ _ _ _ (fun _ => trivial) fun f => ?_
      simp only [RawClient.onAck, RawClient.saw]
      split
      · exact ⟨trivial, fun k hk => hk, rfl⟩
      · exact ⟨trivial, fun k hk => hk, rfl⟩
      · split_ifs
        · exact ⟨trivial, fun k hk => hk, rfl⟩
        · exact hsend C.received _ rfl rfl
    · cases hstep
      exact ⟨trivial, fun k hk => hk, rfl⟩
    · split_ifs at hstep
      cases hstep
      refine hchunk _ _ _ _ (fun _ => trivial) fun f => ?_
      simp only [RawClient.onReply, RawClient.saw]
      split
      · exact ⟨trivial, fun k hk => hk, rfl⟩
      · exact ⟨trivial, fun k hk => hk, rfl⟩
      · exact ⟨trivial, fun k hk => hk, rfl⟩
    · cases hstep
    · cases hstep
    · cases hstep
    · cases hstep
      exact ⟨trivial, fun k hk => hk, rfl⟩
    · cases hstep
  | sendLoop i | recvLoop i | call call | close =>
    simp only [RawClient.step, if_neg hconn] at hstep
    cases hstep
  | receive n =>
    simp only [RawClient.step] at hstep
    split at hstep
    · cases hstep
      exact ⟨hkeyed, fun k hk => hk, rfl⟩
    · cases hstep
  | timeout n =>
    simp only [RawClient.step] at hstep
    split at hstep
    · cases hstep
      exact ⟨hkeyed, fun k hk => hk, rfl⟩
    · cases hstep
  | closing i =>
    simp only [RawClient.step, RawClient.closeStep] at hstep
    split at hstep
    · cases hstep
      exact ⟨hkeyed, fun k hk => (by cases hk), rfl⟩
    · cases hstep
      exact ⟨hkeyed, fun k hk => hk, rfl⟩
    · cases hstep

theorem clientPlace_keyed (h : C.Keyed) : C.Place L sends T feed ↔
    T.sends ≠ [] ∧ ∀ b, C.reading = some b →
      C.rxNonce = T.opened.length ∧ Inlet sends (T.opened.length + 1) b feed := by
  rw [RawClient.Keyed] at h
  rw [RawClient.Place]
  rcases hc : C.connection with _ | _ | b | _ | b | _ | b | _ | e
  case idle | sendPublic | serverKey =>
    rw [hc] at h
    exact h.elim
  all_goals exact Iff.rfl

/-- More arrives from the server. -/
theorem RawClient.Place.grow (h : C.Place L sends T feed) (ms : List Bytes) :
    C.Place L (sends ++ ms) T (feed ++ ms.flatten) := by
  rw [RawClient.Place] at h ⊢
  rcases hc : C.connection with _ | _ | b | _ | b | _ | b | _ | e
  case idle | sendPublic | serverKey =>
    rw [hc] at h
    exact ⟨h.1, h.2.grow ms⟩
  all_goals
    rw [hc] at h
    refine ⟨h.1, fun b hb => ?_⟩
    obtain ⟨hrx, hin⟩ := h.2 b hb
    exact ⟨hrx, hin.grow ms⟩

/-- The server writes more. -/
theorem ClientHalf.grow (h : ClientHalf L c sends ys T feed xs C) (new : List (K × ℕ × Bytes))
    (ms : List Bytes) : ClientHalf L c (sends ++ ms) (ys ++ new) T (feed ++ ms.flatten) xs C :=
  { h with
    opened := by
      rw [List.map_append]
      exact h.opened.trans (List.prefix_append _ _)
    place := h.place.grow L ms }

/-- **A step of a client past the exchange of the keys**; `new` are the packets it writes. -/
theorem ClientHalf.fed {a : RawClient.Act} {feed' : Bytes} {out : RawClient.After K}
    {taken built : List (K × ℕ × Bytes)} {got : List Bytes}
    (h : ClientHalf L c sends ys T feed xs C) (hsends : Spoken L (L.serverPublic c) sends ys)
    (hkeyed : C.Keyed) (hn : C.AtNonces) (hstep : C.step L a = some out)
    (hf : ClientFed L c ys T.opened.length feed' C out taken built got)
    (hcount : ∀ x, (tally L .client out.2).built = [x] → x.2.1 = T.built.length) :
    ∃ new, ClientHalf L c sends ys (T.append (tally L .client out.2)) feed' (xs ++ new) out.1 := by
  obtain ⟨hne, hplace⟩ := (clientPlace_keyed L hkeyed).1 h.place
  obtain ⟨hkeyed', hk, hloop⟩ := keyed_step L hkeyed hstep
  obtain ⟨pending, hbuilt, htasks⟩ := h.built
  -- what is written is the front of what was built and not written
  have hfront : (tally L .client out.2).sends ++ out.1.tasks = (pending ++ built).map (packet L) := by
    rw [hf.sends, htasks, List.map_append]
  obtain ⟨new, pending', hsplit, hnew, hpending⟩ := List.map_eq_append_iff.1 hfront.symm
  refine ⟨new, ?_, ⟨pending', ?_, hpending.symm⟩, ?_, fun k hk' => h.key k (hk k hk'), ?_, ?_, ?_, ?_, ?_⟩
  · rw [Tally.append, ← hnew]
    exact h.said.append L new hne
  · rw [Tally.append, hf.built, hbuilt, List.append_assoc, hsplit, List.append_assoc]
  · rw [Tally.append, hf.built]
    rcases hf.fresh with rfl | ⟨k, data, rfl, hr, hk', hp⟩
    · rw [List.append_nil]
      exact h.numbered
    · have hlen : C.txNonce = T.built.length := hcount _ hf.built
      rw [hlen] at hp ⊢
      exact h.numbered.snoc L (h.key k hk') hp
  · rw [Tally.append, hf.opened]
    exact opened_append L h.opened hf.next
  · simp only [Tally.append, hf.opened, hf.built, List.length_append, List.length_map]
    intro hle
    by_cases hc : C.connection = .connected
    · have := h.joined hc
      omega
    · have := h.early (by omega)
      have := (hf.paced hc).2
      omega
  · intro hc'
    simp only [Tally.append, hf.opened, List.length_append, List.length_map]
    by_cases hc : C.connection = .connected
    · exact (h.joined hc).trans (Nat.le_add_right _ _)
    · obtain ⟨⟨b, hb⟩, htaken, -⟩ := hf.joins hc hc'
      have hread : C.reading = some b := by simp only [RawClient.reading, hb]
      rw [RawClient.AtNonces, hb] at hn
      have hrx := (hplace b hread).1
      have := hn.2.1
      omega
  · intro hc'
    obtain ⟨hc, hl⟩ := hloop hc'
    exact hl.trans (h.loop hc)
  · refine (clientPlace_keyed L hkeyed').2 ⟨by simp [Tally.append, hne], fun b hb => ?_⟩
    obtain ⟨⟨b', hb'⟩, hrx, hin⟩ := hf.reads b hb
    obtain ⟨hrx', hin'⟩ := hplace b' hb'
    simp only [Tally.append, hf.opened, List.length_append, List.length_map]
    refine ⟨by omega, ?_⟩
    rw [hsends.of_inlet L hin', Nat.add_right_comm]
    exact hin

/-- A client in the exchange of the keys built nothing. -/
theorem ClientHalf.unbuilt (h : ClientHalf L c sends ys T feed xs C) (hT : T.built = []) :
    xs = [] ∧ C.tasks = [] := by
  obtain ⟨pending, hb, ht⟩ := h.built
  rw [hT] at hb
  obtain ⟨rfl, rfl⟩ := List.append_eq_nil_iff.1 hb.symm
  exact ⟨rfl, ht⟩

/-- The server's key arrived. -/
theorem ClientHalf.getsKey {feed' : Bytes} (h : ClientHalf L c sends ys T feed xs C)
    (hT : T = ⟨[], [], [], [L.clientPublic], []⟩) (htx : C.txNonce = 0) (hrx : C.rxNonce = 0)
    (hconn : C.connection ≠ .connected) (hin : Inlet sends 1 [] feed') :
    let out := C.onServerKey L (L.serverPublic c)
    ∃ new, ClientHalf L c sends ys (T.append (tally L .client out.2)) feed' (xs ++ new) out.1 := by
  obtain ⟨rfl, htasks⟩ := h.unbuilt L (by rw [hT])
  subst hT
  have hloop := h.loop hconn
  simp only [RawClient.onServerKey]
  rcases hx : L.clientExchange (L.serverPublic c) with _ | k
  · refine ⟨[], ?_⟩
    simp only [RawClient.fail, tally_nil, Tally.append_none, List.append_nil]
    exact ⟨.inl rfl, ⟨[], rfl, htasks⟩, .nil L, h.key, List.nil_prefix, fun _ => Nat.zero_le _,
      fun hc => (by cases hc), fun _ => hloop, by simp, fun b hb => (by cases hb)⟩
  · have hkey : L.exchange c L.clientPublic = some k := (L.agree c).trans hx
    obtain ⟨new, hnew, ht, -, hout⟩ := sendConnect_tally L (C := { C with cipher := some k }) rfl
      (0 :: C.password) .sendPassword
    refine ⟨new, ?_⟩
    rw [ht]
    simp only [Tally.append, List.nil_append]
    have hnumbered : Numbered L c new := by
      rcases hnew with rfl | ⟨data, rfl, hp⟩
      · exact .nil L
      · simp only [htx] at hp ⊢
        exact (Numbered.nil L).snoc L hkey hp
    have hlen : new.length ≤ 1 := by
      rcases hnew with rfl | ⟨data, rfl, -⟩
      · exact Nat.zero_le 1
      · exact Nat.le_refl 1
    have hsaid : Spoken L L.clientPublic ([L.clientPublic] ++ new.map (packet L)) new := .inl rfl
    rcases hout with ⟨e, he⟩ | he
    · rw [he]
      exact ⟨hsaid, ⟨[], by simp, htasks⟩, hnumbered, fun k' hk' => (by cases hk'; exact hkey),
        List.nil_prefix, fun _ => hlen, fun hc => (by cases hc), fun _ => hloop, by simp,
        fun b hb => (by cases hb)⟩
    · rw [he]
      refine ⟨hsaid, ⟨[], by simp, htasks⟩, hnumbered, fun k' hk' => (by cases hk'; exact hkey),
        List.nil_prefix, fun _ => hlen, fun hc => (by cases hc), fun _ => hloop, by simp, fun b hb => ?_⟩
      cases hb
      exact ⟨hrx, hin⟩

/-- **A step of a client in the exchange of the keys.** -/
theorem ClientHalf.greets {a : RawClient.Act} {out : RawClient.After K}
    (h : ClientHalf L c sends ys T feed xs C) (hsends : Spoken L (L.serverPublic c) sends ys)
    (hkeyed : ¬ C.Keyed) (hn : C.AtNonces) (hchunk : a.chunk <+: feed)
    (hstep : C.step L a = some out) :
    ∃ new, ClientHalf L c sends ys (T.append (tally L .client out.2)) (feed.drop a.chunk.length)
      (xs ++ new) out.1 := by
  have hplace := h.place
  rw [RawClient.Place] at hplace
  rw [RawClient.AtNonces] at hn
  have hconn : C.connection ≠ .connected := by
    intro hc
    rw [RawClient.Keyed, hc] at hkeyed
    exact hkeyed trivial
  have hclosing : C.closing = .idle := by
    rw [RawClient.Keyed] at hkeyed
    rcases hc : C.connection with _ | _ | b | _ | b | _ | b | _ | e
    case idle | sendPublic | serverKey =>
      rw [hc] at hn
      exact hn.2.2
    all_goals
      rw [hc] at hkeyed
      exact absurd trivial hkeyed
  -- the exchange is over
  have hfail : ∀ {e : PyErr} {feed' : Bytes}, T = ⟨[], [], [], [L.clientPublic], []⟩ →
      ClientHalf L c sends ys (T.append .none) feed' (xs ++ []) (C.stand (.failed e)) := by
    rintro e feed' rfl
    rw [Tally.append_none, List.append_nil]
    exact ⟨h.said, h.built, h.numbered, h.key, h.opened, h.early, fun hc => (by cases hc),
      fun _ => h.loop hconn, by simp, fun b hb => (by cases hb)⟩
  cases a with
  | connect relogUuid =>
    simp only [RawClient.step] at hstep
    split_ifs at hstep with hc
    cases hstep
    rw [not_not.1 hc] at hplace
    obtain ⟨rfl, hin⟩ := hplace
    obtain ⟨rfl, htasks⟩ := h.unbuilt L rfl
    refine ⟨[], ?_⟩
    simp only
    rw [tally_write, Tally.none_append]
    exact ⟨.inl rfl, ⟨[], rfl, htasks⟩, .nil L, h.key, List.nil_prefix, fun _ => Nat.zero_le _,
      fun hc => (by cases hc), fun _ => h.loop hconn, rfl, hin⟩
  | resume i =>
    simp only [RawClient.step] at hstep
    unfold RawClient.connectStep at hstep
    split at hstep
    · rename_i hc
      cases hstep
      rw [hc] at hplace
      obtain ⟨rfl, hin⟩ := hplace
      refine ⟨[], ?_⟩
      rw [tally_nil, Tally.append_none, List.append_nil]
      exact ⟨h.said, h.built, h.numbered, h.key, h.opened, h.early, fun hc => (by cases hc),
        fun _ => h.loop hconn, rfl, hin⟩
    · rename_i buffer chunk hc
      rw [hc] at hplace hn
      obtain ⟨hT, hin⟩ := hplace
      have hin' : Inlet sends 0 (buffer ++ chunk) (feed.drop chunk.length) := hin.arrive hchunk
      split_ifs at hstep with h32 hnil hshort
      · cases hstep
        exact ⟨[], hfail hT⟩
      · cases hstep
        refine ⟨[], ?_⟩
        rw [tally_nil, Tally.append_none, List.append_nil]
        exact ⟨h.said, h.built, h.numbered, h.key, h.opened, h.early, fun hc => (by cases hc),
          fun _ => h.loop hconn, hT, hin'⟩
      · cases hstep
        have hne : sends ≠ [] := by
          rintro rfl
          have hb := hin'.bytes
          rw [List.drop_nil, List.flatten_nil] at hb
          rw [(List.append_eq_nil_iff.1 hb).1] at hshort
          exact hshort (by decide)
        have hfirst : sends[0]? = some (L.serverPublic c) := by
          rw [hsends.stream L hne]
          rfl
        have hlen : (buffer ++ chunk).length = (L.serverPublic c).length := by
          rw [L.length_serverPublic]
          rw [List.length_append] at hshort ⊢
          omega
        obtain ⟨hkey, hin''⟩ := hin'.exactly hfirst hlen
        rw [hkey]
        exact h.getsKey L hT hn.1 hn.2.1 hconn hin''
    · rename_i hc
      exact absurd (by rw [RawClient.Keyed, hc]; trivial) hkeyed
    · rename_i hc
      exact absurd (by rw [RawClient.Keyed, hc]; trivial) hkeyed
    · rename_i hc
      exact absurd (by rw [RawClient.Keyed, hc]; trivial) hkeyed
    · rename_i hc
      exact absurd (by rw [RawClient.Keyed, hc]; trivial) hkeyed
    · cases hstep
    · cases hstep
    · cases hstep
    · cases hstep
      refine ⟨[], hfail ?_⟩
      rw [RawClient.Keyed] at hkeyed
      rcases hc : C.connection with _ | _ | b | _ | b | _ | b | _ | e
      case sendPublic | serverKey =>
        rw [hc] at hplace
        exact hplace.1
      case idle => simp_all
      all_goals
        rw [hc] at hkeyed
        exact absurd trivial hkeyed
    · cases hstep
  | sendLoop i | recvLoop i | call call | close =>
    simp only [RawClient.step, if_neg hconn] at hstep
    cases hstep
  | receive n =>
    simp only [RawClient.step] at hstep
    split at hstep
    · cases hstep
      refine ⟨[], ?_⟩
      have ht : ∀ data reply : Bytes, tally L .client [Obs.returned data reply] = .none :=
        fun _ _ => rfl
      rw [ht, Tally.append_none, List.append_nil]
      exact ⟨h.said, h.built, h.numbered, h.key, h.opened, h.early, h.joined, h.loop, h.place⟩
    · cases hstep
  | timeout n =>
    simp only [RawClient.step] at hstep
    split at hstep
    · cases hstep
      refine ⟨[], ?_⟩
      have ht : ∀ data : Bytes, tally L .client [Obs.timedOut data] = .none := fun _ => rfl
      rw [ht, Tally.append_none, List.append_nil]
      exact ⟨h.said, h.built, h.numbered, h.key, h.opened, h.early, h.joined, h.loop, h.place⟩
    · cases hstep
  | closing i =>
    simp only [RawClient.step, RawClient.closeStep, hclosing] at hstep
    cases hstep

end Pipebomb
