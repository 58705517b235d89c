/-
  A client, the server, and the two byte streams between them.

  The client is the one of the connection `c`; the other connections of the server have
  any clients.  `toServer` and `toClient` are the bytes that were written on the connection
  and did not arrive yet.

  * `Net.step` lets the server or the client go on.  A chunk that arrives may be anything:
    an attacker controls the network.
  * `Net.Honest` restricts the chunks to what was written, in order.
  * `Ideal`: what is assumed of the cipher against an attacker.
-/
import Pipebomb.RawClient
import Pipebomb.System

namespace Pipebomb

open ByteString

variable {K : Type} (L : Libs K)

/-- The server, the client of one connection, and the bytes on the way. -/
structure Net (K : Type) where
  sys : Sys K
  client : RawClient K
  toServer : Bytes
  toClient : Bytes

namespace Net

/-- What happens next. -/
inductive Act where
  | server (a : Pipebomb.Act)
  | client (a : RawClient.Act)

/-- The chunk of the connection that arrives at the server. -/
def Act.toServer (c : ConnId) : Act → Option Bytes
  | .server (.resume c' (.recv chunk) _) => if c' = c then some chunk else none
  | _ => none

/-- The chunk that arrives at the client. -/
def Act.toClient : Act → Option Bytes
  | .client (.resume (.recv chunk)) | .client (.recvLoop (.recv chunk)) => some chunk
  | _ => none

/-- The bytes a party hands to its socket. -/
def written (p : Party) (os : List (Obs K)) : Bytes :=
  (os.filterMap fun
    | .write p' bs => if p' = p then some bs else none
    | _ => none).flatten

/-- The streams after a step. -/
def flow (N : Net K) (c : ConnId) (a : Act) (S : Sys K) (C : RawClient K) (os : List (Obs K)) :
    Net K where
  sys := S
  client := C
  toServer := N.toServer.drop ((a.toServer c).getD []).length ++ written .client os
  toClient := N.toClient.drop (a.toClient.getD []).length ++ written (.server c) os

/-- **One step.** -/
def step (c : ConnId) (N : Net K) (a : Act) : Option (Net K × List (Obs K)) :=
  match a with
  | .server b => match N.sys.step L b with
    | none => none
    | some (S, os) => some (N.flow c a S N.client os, os)
  | .client b => match N.client.step L b with
    | none => none
    | some (C, os) => some (N.flow c a N.sys C os, os)

/-- A server that just started and a client that did not connect yet. -/
def init (password : Bytes) (keepDeadSessions : Bool) (peer : String) (clientPassword : Bytes) :
    Net K :=
  ⟨.init password keepDeadSessions, .init peer clientPassword, [], []⟩

/-- The network delivers what was written, in order.  The empty chunk is the end of the
    stream. -/
def Honest (c : ConnId) (N : Net K) (a : Act) (_ : List (Obs K)) : Prop :=
  (∀ chunk ∈ a.toServer c, chunk <+: N.toServer) ∧ ∀ chunk ∈ a.toClient, chunk <+: N.toClient

variable {c : ConnId} {N N' : Net K} {a : Act} {o : List (Obs K)}

/-- **What a step can be.** -/
theorem step_cases (h : N.step L c a = some (N', o)) :
    (∃ b S, a = .server b ∧ N.sys.step L b = some (S, o) ∧ N' = N.flow c a S N.client o) ∨
      ∃ b C, a = .client b ∧ N.client.step L b = some (C, o) ∧ N' = N.flow c a N.sys C o := by
  cases a with
  | server b =>
    simp only [step] at h
    rcases hs : N.sys.step L b with _ | ⟨S, os⟩
    · rw [hs] at h; cases h
    · rw [hs] at h
      cases h
      exact .inl ⟨b, S, rfl, hs, rfl⟩
  | client b =>
    simp only [step] at h
    rcases hs : N.client.step L b with _ | ⟨C, os⟩
    · rw [hs] at h; cases h
    · rw [hs] at h
      cases h
      exact .inr ⟨b, C, rfl, hs, rfl⟩

end Net

/-- The party is at one end of the connection. -/
def Party.At (c : ConnId) (p : Party) : Prop := p = .client ∨ p = .server c

instance (c : ConnId) (p : Party) : Decidable (p.At c) := inferInstanceAs (Decidable (_ ∨ _))

/-- What an ideal cipher requires of an observation after others. -/
def IdealAfter (c : ConnId) (before : List (Obs K)) : Obs K → Prop
  | .decrypt p k n ct => p.At c → L.decrypt k (leBytes 12 n) ct ≠ none →
      ∃ q data, q.At c ∧ .encrypt q k n data ∈ before ∧ ct = sealed L k n data
  | _ => True

/-- **The cipher is ideal** for the connection: what an end of it decrypts was encrypted by
    one of its ends before, under the same key and nonce. -/
def Ideal (c : ConnId) (os : List (Obs K)) : Prop := Lts.Each (IdealAfter L c) os

end Pipebomb
