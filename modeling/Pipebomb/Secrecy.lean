/-
  The handshake against an attacker who controls the network, with perfect cryptography.

  `connect` and `accept_clients` are roles that exchange terms instead of bytes.  Any number
  of clients and of connections of the server take part, in any order.  All of them have the
  password.  What arrives is any term that the attacker derives from what it knows: its own
  exponents and everything that was sent.  A 32-byte string is the public key of somebody,
  but maybe of nobody who knows the exponent.

  * `ClientRole.receive`, `ServerRole.receive`: a message arrives.
  * `World.step`: what can happen next; `World.Attacked` is what the attacker can deliver.
  * `handshake_secure_iff`: the password and the keys of the installed sessions stay secret
    exactly as long as no client takes a public key of the attacker for the server's.
  * `handshake_intercepted`: nothing in the handshake keeps a client from that.
-/
import Pipebomb.Lib.Symbolic
import Pipebomb.Lib.Run
import Pipebomb.RawClient

namespace Pipebomb

open ByteString

open Symbolic (Derives)

namespace Secrecy

/-! ## Terms -/

/-- Who has the exponent of a public key. -/
inductive Owner where
  | client (i : ℕ)
  | server (c : ConnId)
  | attacker (m : ℕ)
  | nobody (m : ℕ)
  deriving DecidableEq, Repr

/-- The attacker has the exponent. -/
def Owner.Attacker : Owner → Prop
  | .attacker _ => True
  | _ => False

instance : DecidablePred Owner.Attacker := fun x => by
  cases x <;> simp only [Owner.Attacker] <;> infer_instance

/-- The key derived from two exponents. -/
abbrev Key := Sym2 Owner

abbrev Term := Symbolic.Term Bytes Unit Owner

/-- `b"\x00" + self.password`. -/
def password : Term := .secret ()

/-- A packet around `m`. -/
def packet (k : Key) (n : ℕ) (m : Term) : Term := .aead (.shared k) n m

/-! ## The roles -/

/-- What `connect` waits for. -/
inductive ClientRole where
  | idle
  | serverKey (relogUuid : Option Bytes)
  | ack (k : Key) (relogUuid : Option Bytes)
  | reply (k : Key)
  | connected (k : Key)
  | failed
  deriving DecidableEq

/-- The payload of LOGIN, or of RELOGIN. -/
def login : Option Bytes → Bytes
  | none => [0xC5]
  | some uuid => [0xC4] ++ uuid

/-- A message arrives at the client `i`, or the connection breaks. -/
def ClientRole.receive (i : ℕ) : ClientRole → Option Term → Option (ClientRole × List Term)
  | .serverKey relogUuid, some (.pub y) =>
    some (.ack s(.client i, y) relogUuid, [packet s(.client i, y) 0 password])
  | .serverKey _, _ => some (.failed, [])
  | .ack k relogUuid, m =>
    if m = some (packet k 0 (.data ACK)) then
      some (.reply k, [packet k 1 (.data (login relogUuid))])
    else some (.failed, [])
  -- any packet will do, also one that does not verify
  | .reply k, some (.aead _ _ _) => some (.connected k, [])
  | .reply _, _ => some (.failed, [])
  | _, _ => none

/-- What the pass of `accept_clients` for a connection waits for; `installed` when its session
    is in `client_db`. -/
inductive ServerRole where
  | idle
  | publicKey
  | password (k : Key)
  | login (k : Key)
  | installed (k : Key)
  | over
  deriving DecidableEq

/-- `ERR_DISPATCH[7]`. -/
def unknownUuid : Bytes := [0, 69, 82, 82, 7]

/-- The client's response arrived; `known` tells if a session has the uuid of a RELOGIN. -/
def ServerRole.respond (known : Bool) (k : Key) : Bytes → ServerRole × List Term
  | [] => (.over, [])
  | type_ :: _ =>
    if type_ = 0xC4 then
      (.installed k, [packet k 1 (.data (if known then ACK else unknownUuid))])
    else if type_ = 0xC5 then (.installed k, [packet k 1 (.data ACK)])
    else (.over, [])

variable (encode : Term → Bytes)

/-- A message arrives at the connection `c` of the server, or the connection breaks; `encode`
    are the bytes of a term. -/
def ServerRole.receive (c : ConnId) (known : Bool) :
    ServerRole → Option Term → Option (ServerRole × List Term)
  | .publicKey, some (.pub y) => some (.password s(.server c, y), [.pub (.server c)])
  | .publicKey, _ => some (.over, [])
  | .password k, m =>
    if m = some (packet k 0 Secrecy.password) then some (.login k, [packet k 0 (.data ACK)])
    else some (.over, [])
  | .login k, some (.aead k' n m) =>
    if k' = .shared k ∧ n = 1 then some (ServerRole.respond known k (encode m))
    else some (.over, [])
  | .login _, _ => some (.over, [])
  | _, _ => none

/-! ## The world -/

/-- The clients, the connections of the server, and everything that was sent. -/
structure World where
  clients : ℕ → ClientRole
  servers : ConnId → ServerRole
  sent : List Term

namespace World

/-- Nothing happened yet. -/
def init : World := ⟨fun _ => .idle, fun _ => .idle, []⟩

/-- What happens next. -/
inductive Act where
  | connect (i : ℕ) (relogUuid : Option Bytes)
  | toClient (i : ℕ) (m : Option Term)
  | accept (c : ConnId)
  | toServer (c : ConnId) (m : Option Term) (known : Bool)

/-- A client takes `y` for the server's public key. -/
inductive Event where
  | serverKey (i : ℕ) (y : Owner)
  deriving DecidableEq

def putClient (w : World) (i : ℕ) (o : ClientRole × List Term) : World where
  clients := Function.update w.clients i o.1
  servers := w.servers
  sent := w.sent ++ o.2

def putServer (w : World) (c : ConnId) (o : ServerRole × List Term) : World where
  clients := w.clients
  servers := Function.update w.servers c o.1
  sent := w.sent ++ o.2

@[simp] theorem putServer_self (w : World) (c : ConnId) (o : ServerRole × List Term) :
    (w.putServer c o).servers c = o.1 := Function.update_self ..

theorem putServer_ne (w : World) {c c' : ConnId} (o : ServerRole × List Term) (h : c' ≠ c) :
    (w.putServer c o).servers c' = w.servers c' := Function.update_of_ne h ..

theorem putClient_ne (w : World) {i j : ℕ} (o : ClientRole × List Term) (h : j ≠ i) :
    (w.putClient i o).clients j = w.clients j := Function.update_of_ne h ..

/-- The key that a client takes for the server's. -/
def takes (i : ℕ) : ClientRole → Option Term → List Event
  | .serverKey _, some (.pub y) => [.serverKey i y]
  | _, _ => []

/-- **One step.** -/
def step (w : World) : Act → Option (World × List Event)
  | .connect i relogUuid => match w.clients i with
    | .idle => some (w.putClient i (.serverKey relogUuid, [.pub (.client i)]), [])
    | _ => none
  | .toClient i m => match (w.clients i).receive i m with
    | none => none
    | some o => some (w.putClient i o, takes i (w.clients i) m)
  | .accept c => match w.servers c with
    | .idle => some (w.putServer c (.publicKey, []), [])
    | _ => none
  | .toServer c m known => match (w.servers c).receive encode c known m with
    | none => none
    | some o => some (w.putServer c o, [])

/-- What the attacker knows. -/
def known (w : World) : Set Term :=
  {m | m ∈ w.sent ∨ (∃ j, m = .exponent (.attacker j)) ∨ ∃ j, m = .pub (.nobody j)}

/-- The message that arrives. -/
def Act.message : Act → Option Term
  | .toClient _ m | .toServer _ m _ => m
  | _ => none

/-- The attacker delivers what it derives. -/
def Attacked (w : World) (a : Act) (_ : List Event) : Prop :=
  ∀ m ∈ a.message, Derives w.known m

/-- The attacker knows neither the password nor the key of an installed session. -/
def Secure (w : World) : Prop :=
  ¬ Derives w.known password ∧
    ∀ c k, w.servers c = .installed k → ¬ Derives w.known (.shared k)

end World

variable {encode} {i : ℕ} {c : ConnId} {k : Key} {y : Owner} {n : ℕ} {m : Term} {t : Option Term}
  {w w' : World} {a : World.Act} {es e : List World.Event} {known : Bool}

/-! ## What the roles send -/

/-- What the attacker can have learnt without harm. -/
def Harmless (m : Term) : Prop := m.Harmless Owner.Attacker

theorem harmless_packet {d : Bytes} : Harmless (packet k n (.data d)) := fun _ => trivial

/-- A client gives nothing away unless it takes the attacker for the server. -/
theorem ClientRole.receive_harmless {r : ClientRole} {o : ClientRole × List Term}
    (h : r.receive i t = some o) (hkey : ∀ y, .serverKey i y ∈ World.takes i r t → ¬ y.Attacker) :
    ∀ m ∈ o.2, Harmless m := by
  unfold receive at h
  split at h
  · cases h
    rename_i y
    simp only [List.mem_singleton]
    rintro m rfl
    refine Symbolic.harmless_sealed fun x hx => ?_
    rcases Sym2.mem_iff.1 hx with rfl | rfl
    · exact id
    · exact hkey _ (by simp [World.takes])
  · cases h; simp
  · split at h
    · cases h
      simp only [List.mem_singleton]
      rintro m rfl
      exact harmless_packet
    · cases h; simp
  · cases h; simp
  · cases h; simp
  · cases h

theorem ServerRole.respond_harmless {r : Bytes} : ∀ m ∈ (respond known k r).2, Harmless m := by
  intro m hm
  rcases r with _ | ⟨type_, rest⟩
  · simp [respond] at hm
  by_cases hr : type_ = 0xC4
  · simp only [respond, if_pos hr, List.mem_singleton] at hm
    rw [hm]
    exact harmless_packet
  by_cases hl : type_ = 0xC5
  · simp only [respond, if_neg hr, if_pos hl, List.mem_singleton] at hm
    rw [hm]
    exact harmless_packet
  · simp [respond, hr, hl] at hm

theorem ServerRole.receive_harmless {r : ServerRole} {o : ServerRole × List Term}
    (h : r.receive encode c known t = some o) : ∀ m ∈ o.2, Harmless m := by
  unfold receive at h
  split at h
  · cases h
    simp only [List.mem_singleton]
    rintro m rfl
    exact trivial
  · cases h; simp
  · split at h
    · cases h
      simp only [List.mem_singleton]
      rintro m rfl
      exact harmless_packet
    · cases h; simp
  · split at h
    · cases h; exact respond_harmless
    · cases h; simp
  · cases h; simp
  · cases h

/-- The keys under which the password arrived. -/
def ServerRole.Trusts (k : Key) (r : ServerRole) : Prop := r = .login k ∨ r = .installed k

theorem ServerRole.respond_trusts {k' : Key} {r : Bytes} (h : (respond known k r).1.Trusts k') :
    k' = k := by
  unfold respond at h
  split at h
  · simp [Trusts] at h
  · split_ifs at h <;> simp_all [Trusts]

/-- The server trusts a key because of the password. -/
theorem ServerRole.receive_trusts {r : ServerRole} {o : ServerRole × List Term}
    (h : r.receive encode c known t = some o) (ho : o.1.Trusts k) :
    r.Trusts k ∨ t = some (packet k 0 Secrecy.password) := by
  unfold receive at h
  split at h
  · cases h; simp [Trusts] at ho
  · cases h; simp [Trusts] at ho
  · rename_i k'
    split at h
    · rename_i hm
      cases h
      obtain rfl : k' = k := by simpa [Trusts] using ho
      exact .inr hm
    · cases h; simp [Trusts] at ho
  · split at h
    · cases h
      rw [respond_trusts ho]
      exact .inl (.inl rfl)
    · cases h; simp [Trusts] at ho
  · cases h; simp [Trusts] at ho
  · cases h

/-! ## While no client is deceived -/

namespace World

/-- Nothing harmful was sent, and the attacker has no exponent of a trusted key. -/
structure Intact (w : World) : Prop where
  sent : ∀ m ∈ w.sent, Harmless m
  servers : ∀ c k, (w.servers c).Trusts k → ¬ Harmless (.shared k)

/-- No client takes a public key of the attacker for the server's. -/
def Undeceived (es : List Event) : Prop := ∀ i y, .serverKey i y ∈ es → ¬ y.Attacker

theorem Intact.harmless (h : w.Intact) (hm : Derives w.known m) : Harmless m := by
  refine hm.harmless ?_
  rintro t (ht | ⟨j, rfl⟩ | ⟨j, rfl⟩)
  · exact h.sent t ht
  · exact trivial
  · exact trivial

theorem Intact.secure (h : w.Intact) : w.Secure :=
  ⟨fun hp => h.harmless hp, fun c k hk hd => h.servers c k (.inr hk) (h.harmless hd)⟩

theorem intact_init : init.Intact where
  sent := by simp [init]
  servers := by simp [init, ServerRole.Trusts]

theorem step_intact (h : w.Intact) (hstep : w.step encode a = some (w', e))
    (hatt : w.Attacked a e) (he : Undeceived e) : w'.Intact := by
  cases a with
  | connect i relogUuid =>
    simp only [step] at hstep
    split at hstep
    · cases hstep
      refine ⟨fun m hm => ?_, h.servers⟩
      rcases List.mem_append.1 hm with hm | hm
      · exact h.sent m hm
      · rw [List.mem_singleton.1 hm]; exact trivial
    · cases hstep
  | toClient i t =>
    simp only [step] at hstep
    split at hstep
    · cases hstep
    · rename_i o ho
      cases hstep
      refine ⟨fun m hm => ?_, h.servers⟩
      rcases List.mem_append.1 hm with hm | hm
      · exact h.sent m hm
      · exact ClientRole.receive_harmless ho (fun y hy => he i y hy) m hm
  | accept c =>
    simp only [step] at hstep
    split at hstep
    · cases hstep
      refine ⟨fun m hm => h.sent m (by simpa [putServer] using hm), fun c' k hk => ?_⟩
      by_cases hc : c' = c
      · subst hc
        simp [ServerRole.Trusts] at hk
      · rw [putServer_ne _ _ hc] at hk
        exact h.servers c' k hk
    · cases hstep
  | toServer c t known =>
    simp only [step] at hstep
    split at hstep
    · cases hstep
    · rename_i o ho
      cases hstep
      refine ⟨fun m hm => ?_, fun c' k hk => ?_⟩
      · rcases List.mem_append.1 hm with hm | hm
        · exact h.sent m hm
        · exact ServerRole.receive_harmless ho m hm
      by_cases hc : c' = c
      · subst hc
        rw [putServer_self] at hk
        rcases ServerRole.receive_trusts ho hk with hk | rfl
        · exact h.servers c' k hk
        · -- a packet around the password is harmless only under a key the attacker has not
          exact fun hk => h.harmless (hatt _ rfl) hk
      · rw [putServer_ne _ _ hc] at hk
        exact h.servers c' k hk

/-! ## When a client is deceived -/

/-- What the clients sent: their public keys, and the password under each key they took. -/
structure Told (w : World) (es : List Event) : Prop where
  clients : ∀ i, w.clients i ≠ .idle → .pub (.client i) ∈ w.sent
  keys : ∀ i y, .serverKey i y ∈ es →
    .pub (.client i) ∈ w.sent ∧ packet s(.client i, y) 0 password ∈ w.sent

theorem Told.server (h : w.Told es) (c : ConnId) (o : ServerRole × List Term) :
    (w.putServer c o).Told es where
  clients i hi := List.mem_append_left _ (h.clients i hi)
  keys i y hy := ⟨List.mem_append_left _ (h.keys i y hy).1, List.mem_append_left _ (h.keys i y hy).2⟩

/-- A client that takes a key sends the password under it. -/
theorem receive_takes {r : ClientRole} {o : ClientRole × List Term} (h : r.receive i t = some o)
    {j : ℕ} (hy : .serverKey j y ∈ takes i r t) :
    j = i ∧ packet s(.client i, y) 0 password ∈ o.2 := by
  unfold takes at hy
  split at hy
  · cases h
    simp only [List.mem_singleton, Event.serverKey.injEq] at hy
    obtain ⟨rfl, rfl⟩ := hy
    exact ⟨rfl, List.mem_singleton.2 rfl⟩
  · simp at hy

theorem step_told (h : w.Told es) (hstep : w.step encode a = some (w', e)) :
    w'.Told (es ++ e) := by
  cases a with
  | connect i relogUuid =>
    simp only [step] at hstep
    split at hstep
    · cases hstep
      rw [List.append_nil]
      refine ⟨fun j hj => ?_, fun j y hy => ?_⟩
      · by_cases hji : j = i
        · subst hji
          exact List.mem_append_right _ (List.mem_singleton.2 rfl)
        · rw [putClient_ne _ _ hji] at hj
          exact List.mem_append_left _ (h.clients j hj)
      · exact ⟨List.mem_append_left _ (h.keys j y hy).1, List.mem_append_left _ (h.keys j y hy).2⟩
    · cases hstep
  | toClient i t =>
    simp only [step] at hstep
    split at hstep
    · cases hstep
    · rename_i o ho
      cases hstep
      have hi : w.clients i ≠ .idle := by
        intro hidle
        rw [hidle] at ho
        cases ho
      refine ⟨fun j hj => ?_, fun j y hy => ?_⟩
      · by_cases hji : j = i
        · subst hji
          exact List.mem_append_left _ (h.clients j hi)
        · rw [putClient_ne _ _ hji] at hj
          exact List.mem_append_left _ (h.clients j hj)
      · rcases List.mem_append.1 hy with hy | hy
        · exact ⟨List.mem_append_left _ (h.keys j y hy).1, List.mem_append_left _ (h.keys j y hy).2⟩
        · obtain ⟨rfl, hp⟩ := receive_takes ho hy
          exact ⟨List.mem_append_left _ (h.clients j hi), List.mem_append_right _ hp⟩
  | accept c =>
    simp only [step] at hstep
    split at hstep
    · cases hstep
      rw [List.append_nil]
      exact h.server c _
    · cases hstep
  | toServer c t known =>
    simp only [step] at hstep
    split at hstep
    · cases hstep
    · cases hstep
      rw [List.append_nil]
      exact h.server c _

theorem run_told {ok : World → Act → List Event → Prop}
    (hrun : Lts.Run (Lts.Guarded (step encode) ok) init w es) : w.Told es :=
  hrun.inv (I := Told) ⟨fun i hi => absurd rfl hi, by simp⟩
    fun _ h ⟨_, hstep, _⟩ => step_told h hstep

/-- The attacker opens what a client seals for it. -/
theorem Told.learns (h : w.Told es) (he : .serverKey i y ∈ es) (hy : y.Attacker) :
    Derives w.known password := by
  obtain ⟨hpub, hpw⟩ := h.keys i y he
  cases y with
  | attacker j =>
    have hk : Derives w.known (.shared s(.client i, .attacker j)) := by
      rw [Sym2.eq_swap]
      exact .shared (.known (.inr (.inl ⟨j, rfl⟩))) (.known (.inl hpub))
    exact .decrypt (.known (.inl hpw)) hk
  | client _ => cases hy
  | server _ => cases hy
  | nobody _ => cases hy

end World

end Secrecy

open Secrecy

/-- **The handshake is secure exactly as long as no client is deceived.**  Whatever the
    attacker delivers to any number of clients and connections, the password and the keys of
    the installed sessions are secret if and only if no client took a public key of the
    attacker for the server's. -/
theorem handshake_secure_iff (encode : Term → Bytes) {w : World} {es : List World.Event}
    (hrun : Lts.Run (Lts.Guarded (World.step encode) World.Attacked) .init w es) :
    w.Secure ↔ ∀ i y, .serverKey i y ∈ es → ¬ y.Attacker := by
  constructor
  · intro hw i y he hy
    exact hw.1 ((World.run_told hrun).learns he hy)
  · intro hes
    refine World.Intact.secure ?_
    refine hrun.inv (I := fun w es => World.Undeceived es → w.Intact)
      (fun _ => World.intact_init) ?_ hes
    rintro w w' es e - hw ⟨a, hstep, hatt⟩ he
    refine World.step_intact (hw fun i y hy => he i y (List.mem_append_left _ hy)) hstep hatt ?_
    exact fun i y hy => he i y (List.mem_append_right _ hy)

/-! ## Two runs -/

namespace Secrecy

/-- The bytes of data; the other terms are not read as bytes in the runs below. -/
def dataBytes : Term → Bytes
  | .data d => d
  | _ => []

namespace World

/-- The attacker answers a client in place of the server, then logs in with the password. -/
def intercept : List Act :=
  let k : Key := s(.server 5, .attacker 0)
  [.connect 0 none, .toClient 0 (some (.pub (.attacker 0))),
    .accept 5, .toServer 5 (some (.pub (.attacker 0))) false,
    .toServer 5 (some (packet k 0 password)) false,
    .toServer 5 (some (packet k 1 (.data [0xC5]))) false]


/-- The network delivers the messages of client 0 and of connection 5 to each other. -/
def relay : List Act :=
  [.connect 0 none, .accept 5, .toServer 5 (some (.pub (.client 0))) false,
    .toClient 0 (some (.pub (.server 5))),
    .toServer 5 (some (packet s(.server 5, .client 0) 0 password)) false,
    .toClient 0 (some (packet s(.client 0, .server 5) 0 (.data ACK))),
    .toServer 5 (some (packet s(.server 5, .client 0) 1 (.data [0xC5]))) false,
    .toClient 0 (some (packet s(.client 0, .server 5) 1 (.data ACK)))]

/-- What was sent can be delivered. -/
theorem attacked_sent {w : World} {a : Act} {e : List Event} {m : Term} (ha : a.message = some m)
    (hm : m ∈ w.sent) : Attacked w a e := by
  intro t ht
  rw [ha] at ht
  cases ht
  exact .known (.inl hm)

theorem attacked_none {w : World} {a : Act} {e : List Event} (ha : a.message = none) :
    Attacked w a e := by
  intro t ht
  rw [ha] at ht
  cases ht

theorem relay_attacked : Lts.Along (step dataBytes) Attacked relay init := by
  refine .intro (attacked_none rfl) ?_
  refine .intro (attacked_none rfl) ?_
  refine .intro (attacked_sent rfl (by decide)) ?_
  refine .intro (attacked_sent rfl (by decide)) ?_
  refine .intro (attacked_sent rfl (by rw [Sym2.eq_swap]; decide)) ?_
  refine .intro (attacked_sent rfl (by rw [Sym2.eq_swap]; decide)) ?_
  refine .intro (attacked_sent rfl (by rw [Sym2.eq_swap]; decide)) ?_
  exact .intro (attacked_sent rfl (by rw [Sym2.eq_swap]; decide)) trivial

theorem intercept_attacked : Lts.Along (step dataBytes) Attacked intercept init := by
  have hkey : ∀ {w : World}, Derives w.known (.exponent (.attacker 0)) :=
    .known (.inr (.inl ⟨0, rfl⟩))
  have hk : ∀ {w : World} (x : Owner), .pub x ∈ w.sent →
      Derives w.known (.shared s(x, .attacker 0)) := by
    intro w x hx
    rw [Sym2.eq_swap]
    exact .shared hkey (.known (.inl hx))
  refine .intro (attacked_none rfl) ?_
  refine .intro (fun m hm => by cases hm; exact .pub hkey) ?_
  refine .intro (attacked_none rfl) ?_
  refine .intro (fun m hm => by cases hm; exact .pub hkey) ?_
  refine .intro (fun m hm => ?_) ?_
  · cases hm
    -- the password that the client sealed for the attacker
    refine .encrypt (hk _ (by decide)) (.decrypt (n := 0) (k := .shared s(.client 0, .attacker 0))
      (.known (.inl ?_)) (hk _ (by decide)))
    decide
  refine .intro (fun m hm => ?_) trivial
  cases hm
  exact .encrypt (hk _ (by decide)) .data

end World

end Secrecy

open Secrecy World

/-- A run in which the network relays the messages. -/
theorem handshake_secure_relay : ∃ w es,
    Lts.Run (Lts.Guarded (step dataBytes) Attacked) .init w es ∧
      w.servers 5 = .installed s(.server 5, .client 0) ∧
        w.clients 0 = .connected s(.client 0, .server 5) ∧ w.Secure := by
  obtain ⟨⟨w, es⟩, hexec, hw⟩ := Option.any_eq_true _ _ |>.1
    (show (Lts.exec (step dataBytes) relay init).any (fun o =>
      o.1.servers 5 = .installed s(.server 5, .client 0) ∧
        o.1.clients 0 = .connected s(.client 0, .server 5) ∧
          o.2 = [.serverKey 0 (.server 5)]) = true by decide)
  obtain ⟨hs, hc, rfl⟩ := of_decide_eq_true hw
  have hrun := Lts.exec_run hexec relay_attacked
  refine ⟨w, _, hrun, hs, hc, (handshake_secure_iff dataBytes hrun).2 fun i y hy => ?_⟩
  obtain ⟨rfl, rfl⟩ : i = 0 ∧ y = .server 5 := by simpa using hy
  exact id

/-- **Nothing ties the key exchange to the password.**  In this run the attacker learns the
    password from a client, and the server installs a session whose key the attacker has. -/
theorem handshake_intercepted : ∃ w es,
    Lts.Run (Lts.Guarded (step dataBytes) Attacked) .init w es ∧ ¬ w.Secure ∧
      Derives w.known password ∧ ∃ k, w.servers 5 = .installed k ∧ Derives w.known (.shared k) := by
  obtain ⟨⟨w, es⟩, hexec, hw⟩ := Option.any_eq_true _ _ |>.1
    (show (Lts.exec (step dataBytes) intercept init).any (fun o =>
      o.1.servers 5 = .installed s(.server 5, .attacker 0) ∧ .pub (.server 5) ∈ o.1.sent ∧
        .serverKey 0 (.attacker 0) ∈ o.2) = true by decide)
  obtain ⟨hs, hpub, hkey⟩ := of_decide_eq_true hw
  have hrun := Lts.exec_run hexec intercept_attacked
  have hpw : Derives w.known password := (run_told hrun).learns hkey trivial
  refine ⟨w, es, hrun, fun h => h.1 hpw, hpw, _, hs, ?_⟩
  rw [Sym2.eq_swap]
  exact .shared (.known (.inr (.inl ⟨0, rfl⟩))) (.known (.inl hpub))

end Pipebomb
