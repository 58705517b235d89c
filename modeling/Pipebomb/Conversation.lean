/-
  A client and its server over an honest network, over whole runs.

  * `Conversing`: both ends and their operations are where `Locked` and `Correlated` say;
    `Conversing.step`: every step keeps it, if the operations are in order.
  * `concurrent_operations`: operations side by side.  `nonces_reused`: two packets that are
    built one after the other, before the first is sent, get one nonce.
  * `nonce_lockstep`, `reply_correlation`: operations one after another, without and with
    timeouts.  `late_reply`: after a timeout an operation gets the reply to the one before.
-/
import Pipebomb.Correlation
import Pipebomb.Nonces
import Pipebomb.Sound

namespace Pipebomb

open ByteString

variable {K : Type} (L : Libs K)

/-- Client and server are in lockstep, and the operations get their own replies. -/
def Conversing (c : ConnId) (N : Net K) (os : List (Obs K)) : Prop :=
  (∃ e f xs, Locked L c N os e f xs) ∧ Correlated L c N.client os

variable {c : ConnId} {N N' : Net K} {os o : List (Obs K)} {a : Net.Act} {S : Sys K}

theorem conversing_init (hS : S.Sound) (hidle : S.tasks c = .idle) (peer : String) (password : Bytes) :
    Conversing L c ⟨S, .init peer password, [], []⟩ [] :=
  ⟨⟨_, _, _, locked_init L hS.refs hS.tasks hidle peer password⟩, correlated_init L peer password⟩

theorem Conversing.step (h : Conversing L c N os) (hstep : N.step L c a = some (N', o))
    (hhonest : N.Honest c a o) (halone : N.Alone c a o) (horder : N.InOrder a)
    (hcalled : ∀ x ∈ o, CalledUntimed os x) : Conversing L c N' (os ++ o) := by
  obtain ⟨⟨e, f, xs, hlock⟩, hcorr⟩ := h
  exact ⟨step_locked L hlock hstep hhonest halone horder,
    hcorr.step L hlock hstep hhonest horder hcalled⟩

/-- Operations take the replies that the server sent them, in the order of the calls. -/
def Corresponds (c : ConnId) (os : List (Obs K)) : Prop :=
  (returns os).map Prod.fst <+: asked os ∧ returns os <+: answers (.server c) os

theorem Conversing.lockstep (h : Conversing L c N os) : Lockstep L c N os := by
  obtain ⟨⟨e, f, xs, hlock⟩, -⟩ := h
  exact hlock.lockstep L

theorem Conversing.corresponds (h : Conversing L c N os) : Corresponds c os := by
  obtain ⟨⟨e, f, xs, hlock⟩, hcorr⟩ := h
  exact hcorr.returns L hlock

theorem calledUntimed_step (h : Lts.Each CalledUntimed (os ++ o)) : ∀ x ∈ o, CalledUntimed os x := by
  intro x hx
  obtain ⟨l, m, rfl⟩ := List.append_of_mem hx
  have hx' : CalledUntimed (os ++ l) x := h (os ++ l) x m (by simp)
  cases x with
  | called data => exact fun d hd => hx' d (List.mem_append_left _ hd)
  | _ => trivial

/-! ## Operations side by side -/

/-- **Operations side by side**: if every packet is built when no other is on its way to the
    socket, operations receive in the order of their calls, and none is called after one timed
    out, then the packets have their nonces and the operations get their replies. -/
theorem concurrent_operations (hS : S.Sound) (hidle : S.tasks c = .idle) (peer : String)
    (password : Bytes)
    (hrun : Lts.Run (Lts.Guarded (Net.step L c) fun N a o => N.Honest c a o ∧ N.Alone c a o ∧ N.InOrder a)
      ⟨S, .init peer password, [], []⟩ N os) (hcalled : Lts.Each CalledUntimed os) :
    Lockstep L c N os ∧ Corresponds c os := by
  suffices h : Conversing L c N os from ⟨h.lockstep L, h.corresponds L⟩
  revert hcalled
  refine hrun.inv (I := fun N os => Lts.Each CalledUntimed os → Conversing L c N os)
    (fun _ => conversing_init L hS hidle peer password) ?_
  rintro N N' os o - ih ⟨a, hstep, hhonest, halone, horder⟩ hcalled
  exact (ih hcalled.left).step L hstep hhonest halone horder (calledUntimed_step hcalled)

/-! ## Operations one after another -/

/-- Operations and `close` are called when no other operation waits, nothing is being sent and
    the client is not being closed. -/
def RawClient.OneAtATime (C : RawClient K) : RawClient.Act → Prop
  | .call _ | .close => C.calls = [] ∧ C.sendLoop = .waiting ∧ C.closing = .idle
  | _ => True

def Net.OneAtATime (N : Net K) : Net.Act → Prop
  | .client b => N.client.OneAtATime b
  | .server _ => True

/-- A call that raises before its packet is built leaves no trace on the connection. -/
structure Net.Raises (c : ConnId) (N : Net K) (out : RawClient.After K) : Prop where
  same : out.1 = N.client
  ofClient : OfClient out.2
  tally : tally L .client out.2 = .none
  link : linkObs L c out.2 = []

theorem raises_nil : N.Raises L c (N.client, []) := ⟨rfl, .nil, rfl, rfl⟩

/-- A packet that cannot be built. -/
theorem raises_encrypt {k : K} {n : ℕ} {data : Bytes} {e : PyErr}
    (hp : constructPacket L data (some k) n = .error e) :
    N.Raises L c (N.client, encryptCall .client data (some k) n) := by
  refine ⟨rfl, ofClient_encryptCall data (some k) n, ?_, ?_⟩
  · rcases tally_construct L .client k n data with ⟨hp', -⟩ | ⟨e', -, ht⟩
    · rw [hp] at hp'
      cases hp'
    · exact ht
  · rcases linkObs_construct L k n data (.inl rfl : Party.At c .client) with ⟨pkt, hp', -⟩ | ⟨e', -, hl⟩
    · rw [hp] at hp'
      cases hp'
    · exact hl

/-- An operation raises, or there is a key, and it shows. -/
theorem send_raises (call : Call) : N.Raises L c (N.client.attempt (N.client.send L call)) ∨
    N.client.cipher ≠ none ∧ ∃ data, .called data ∈ (N.client.attempt (N.client.send L call)).2 := by
  unfold RawClient.send RawClient.attempt
  rcases hpay : call.payload with e | data
  · exact .inl (raises_nil L)
  simp only
  rcases hk : N.client.cipher with _ | k
  · rcases hp : constructPacket L data (none : Option K) N.client.txNonce with e | pkt
    · exact .inl (raises_nil L)
    · obtain ⟨-, -, -, k, hk', -⟩ := (constructPacket_ok L).1 hp
      cases hk'
  · rcases hp : constructPacket L data (some k) N.client.txNonce with e | pkt
    · exact .inl (raises_encrypt L hp)
    · exact .inr ⟨Option.some_ne_none k, data, by simp⟩

/-- `close` raises, or there is a key. -/
theorem close_raises : N.Raises L c (N.client.attempt (N.client.close L)) ∨
    N.client.cipher ≠ none := by
  unfold RawClient.close RawClient.attempt
  rcases hk : N.client.cipher with _ | k
  · exact .inl (raises_nil L)
  · exact .inr (Option.some_ne_none k)

/-- **A call that raises** changes nothing. -/
theorem Conversing.raises (h : Conversing L c N os) {b : RawClient.Act} {out : RawClient.After K}
    (hb : b.chunk = []) (hout : N.Raises L c out) :
    Conversing L c (N.flow c (.client b) N.sys out.1 out.2) (os ++ out.2) := by
  obtain ⟨⟨e, f, xs, hlock⟩, hcorr⟩ := h
  obtain ⟨C, o⟩ := out
  obtain ⟨rfl, ho, ht, hl⟩ := hout
  have hU : Pipebomb.tally L (.server c) o = .none := ho.atClient.tally L
  obtain ⟨hserver, hclient⟩ := flow_client L (N := N) (c := c) (b := b) (C := N.client) hU
  rw [hb, List.length_nil, List.drop_zero] at hclient
  rw [ht, Tally.none, List.flatten_nil, List.append_nil] at hserver
  refine ⟨⟨e, f, xs, hlock.side, hlock.atEnd, ?_, hlock.nonces, ?_, ?_⟩, ?_⟩
  · rw [linkObs_append, hl, List.append_nil]
    exact hlock.link
  · rw [tally_append, tally_append, hU, ht, Tally.append_none, Tally.append_none, hserver]
    exact hlock.server
  · rw [tally_append, tally_append, hU, ht, Tally.append_none, Tally.append_none, hclient]
    exact hlock.client
  · exact hcorr.server L (hlock.opened_le L) ht ho.silent

/-- All that was asked was returned. -/
theorem Conversing.returned (h : Conversing L c N os) (hopen : N.client.Open) (hcalls : N.client.calls = [])
    (huntimed : ∀ d, .timedOut d ∉ os) :
    (returns os).length = (built L .client os).length - 2 := by
  obtain ⟨-, hcorr⟩ := h
  have hall := hcorr.untimed huntimed
  rw [hcalls, List.map_nil, List.append_nil, hcorr.opened hopen] at hall
  rw [← List.length_map Prod.fst, hall, List.length_drop, length_payloads]

/-- **Nothing is outstanding** when no operation waits, unless one timed out: the server answered
    all that was asked, so that all of it was sent. -/
theorem Conversing.ready (h : Conversing L c N os) (hopen : N.client.Open) (hcalls : N.client.calls = [])
    (hsend : N.client.sendLoop = .waiting) (huntimed : ∀ d, .timedOut d ∉ os) : N.client.Ready := by
  have hreturned := h.returned L hopen hcalls huntimed
  obtain ⟨⟨e, f, xs, hlock⟩, hcorr⟩ := h
  refine ⟨?_, hsend, hopen.closing⟩
  obtain ⟨pending, hb, htasks⟩ := hlock.client.built
  have hb' : built L .client os = xs ++ pending := hb
  -- the server built a packet for each return
  have hreplied : (returns os).length ≤ (payloads (built L (.server c) os)).length - 2 := by
    have hpre := ((List.prefix_append _ _).trans hcorr.replies).length_le
    rw [List.length_map, List.length_drop, List.length_take] at hpre
    omega
  have h2 := hlock.client.joined hopen.connected
  have hle := hlock.client.opened.length_le
  obtain ⟨h₁, h₂, -⟩ := hlock.le L
  rw [tally, tally] at hle
  simp only [List.length_map] at hle
  rw [tally] at h2
  simp only at h2
  rw [tally] at h₁ h₂
  simp only at h₁ h₂
  rw [hb', List.length_append] at hreturned
  rw [length_payloads] at hreplied
  have hnone : pending = [] := by
    apply List.eq_nil_of_length_eq_zero
    omega
  rw [htasks, hnone]
  rfl

/-- A step of a client whose operations come one after another is in order, or raises. -/
theorem Conversing.inOrder (h : Conversing L c N os) (hlen : N.client.calls.length ≤ 1)
    {b : RawClient.Act} {out : RawClient.After K} (hs : N.client.step L b = some out)
    (hone : N.client.OneAtATime b) (huntimed : ∀ d, .timedOut d ∉ os) : N.client.InOrder b ∨
      b.chunk = [] ∧ N.Raises L c out := by
  cases b with
  | call call =>
    simp only [RawClient.step] at hs
    split_ifs at hs with hc
    cases hs
    obtain ⟨hcalls, hsend, hclosing⟩ := hone
    rcases send_raises L (c := c) (N := N) call with hraises | ⟨hk, -⟩
    · exact .inr ⟨rfl, hraises⟩
    · exact .inl (h.ready L ⟨hc, hclosing, hk⟩ hcalls hsend huntimed)
  | close =>
    simp only [RawClient.step] at hs
    split_ifs at hs with hc
    cases hs
    obtain ⟨hcalls, hsend, hclosing⟩ := hone
    rcases close_raises L (c := c) (N := N) with hraises | hk
    · exact .inr ⟨rfl, hraises⟩
    · exact .inl (h.ready L ⟨hc, hclosing, hk⟩ hcalls hsend huntimed)
  | receive n =>
    left
    simp only [RawClient.step] at hs
    rcases hn : N.client.calls[n]? with _ | x
    · rw [hn] at hs
      cases hs
    · have hlt := (List.getElem?_eq_some_iff.1 hn).1
      exact Nat.lt_one_iff.1 (hlt.trans_le hlen)
  | timeout n =>
    left
    simp only [RawClient.step] at hs
    rcases hn : N.client.calls[n]? with _ | x
    · rw [hn] at hs
      cases hs
    · have hlt := (List.getElem?_eq_some_iff.1 hn).1
      exact le_antisymm hlt (hlen.trans (Nat.succ_le_succ (Nat.zero_le n)))
  | _ => exact .inl trivial

/-- Operations start and end with their own steps. -/
theorem client_ofClient {C : RawClient K} {b : RawClient.Act} {out : RawClient.After K}
    (hs : C.step L b = some out) (hcall : ∀ call, b ≠ .call call) (hreceive : ∀ n, b ≠ .receive n)
    (htimeout : ∀ n, b ≠ .timeout n) : OfClient out.2 := by
  cases b with
  | call call => exact absurd rfl (hcall call)
  | receive n => exact absurd rfl (hreceive n)
  | timeout n => exact absurd rfl (htimeout n)
  | connect relogUuid =>
    simp only [RawClient.step] at hs
    split_ifs at hs
    cases hs
    exact ofClient_single rfl
  | resume i => exact connectStep_ofClient L hs
  | sendLoop i =>
    simp only [RawClient.step] at hs
    split_ifs at hs
    exact sendLoopStep_ofClient hs
  | recvLoop i =>
    simp only [RawClient.step] at hs
    split_ifs at hs
    exact recvLoopStep_ofClient L hs
  | close =>
    simp only [RawClient.step] at hs
    split_ifs at hs
    cases hs
    unfold RawClient.close RawClient.attempt
    rcases C.cipher with _ | k
    · exact .nil
    · rcases hp : constructPacket L [0x88] (some k) C.txNonce with e | pkt
      · simp only [hp]
        exact ofClient_encryptCall _ _ _
      · simp only [hp]
        exact (ofClient_encryptCall _ _ _).append (ofClient_single (x := .write .client pkt) rfl)
  | closing i =>
    simp only [RawClient.step, RawClient.closeStep] at hs
    split at hs
    · cases hs
      exact .nil
    · cases hs
      exact .nil
    · cases hs

/-- Only a call asks. -/
theorem asked_call {C : RawClient K} {b : RawClient.Act} {out : RawClient.After K}
    (hs : C.step L b = some out) (hasked : asked out.2 ≠ []) : ∃ call, b = .call call := by
  by_contra hcall
  push Not at hcall
  refine hasked ?_
  cases b with
  | receive n | timeout n =>
    simp only [RawClient.step] at hs
    split at hs
    · cases hs
      rfl
    · cases hs
  | call call => exact absurd rfl (hcall call)
  | _ => exact (client_ofClient L hs hcall (fun _ h => by cases h) fun _ h => by cases h).silent.1

/-- Only a timeout times out. -/
theorem timedOut_timeout {C : RawClient K} {b : RawClient.Act} {out : RawClient.After K} {d : Bytes}
    (hs : C.step L b = some out) (hd : .timedOut d ∈ out.2) : ∃ n, b = .timeout n := by
  by_contra htimeout
  push Not at htimeout
  cases b with
  | call call =>
    simp only [RawClient.step] at hs
    split_ifs at hs
    cases hs
    unfold RawClient.send RawClient.attempt at hd
    rcases hpay : call.payload with e | data
    · rw [hpay] at hd
      cases hd
    · have hcall := (ofClient_encryptCall data C.cipher C.txNonce).silent.2.2 d
      rw [hpay] at hd
      simp only at hd
      rcases hp : constructPacket L data C.cipher C.txNonce with e | pkt
      · rw [hp] at hd
        exact hcall hd
      · rw [hp] at hd
        simp [hcall] at hd
  | receive n =>
    simp only [RawClient.step] at hs
    split at hs
    · cases hs
      simp at hd
    · cases hs
  | timeout n => exact htimeout n rfl
  | _ =>
    refine (client_ofClient L hs ?_ ?_ htimeout).silent.2.2 d hd
    · exact fun _ h => by cases h
    · exact fun _ h => by cases h

/-- At most one operation waits. -/
theorem calls_le {C : RawClient K} {b : RawClient.Act} {out : RawClient.After K}
    (hs : C.step L b = some out) (horder : C.InOrder b) (hone : C.OneAtATime b)
    (hlen : C.calls.length ≤ 1) : out.1.calls.length ≤ 1 := by
  cases client_turns L hs horder with
  | goesOn _ hcalls _ => rwa [hcalls]
  | asks hopen hasked _ _ _ hcalls =>
    obtain ⟨call, rfl⟩ := asked_call L hs (by rw [hasked]; exact List.cons_ne_nil _ _)
    have hnil : C.calls = [] := hone.1
    rw [hcalls, hnil]
    exact le_rfl
  | returns hcalls _ hout =>
    rw [hout]
    rw [hcalls, List.length_cons] at hlen
    exact (Nat.le_succ _).trans hlen
  | timesOut hcalls hout =>
    rw [hout]
    rw [hcalls, List.length_append] at hlen
    exact (Nat.le_add_right _ _).trans hlen

/-- **One step** of a client whose operations come one after another, when none timed out. -/
theorem Conversing.oneAtATime (h : Conversing L c N os) (hlen : N.client.calls.length ≤ 1)
    (hstep : N.step L c a = some (N', o)) (hhonest : N.Honest c a o) (halone : N.Alone c a o)
    (hone : N.OneAtATime a) (huntimed : ∀ d, .timedOut d ∉ os) :
    Conversing L c N' (os ++ o) ∧ N'.client.calls.length ≤ 1 := by
  have hcalled : ∀ x ∈ o, CalledUntimed os x := by
    intro x hx
    cases x with
    | called data => exact huntimed
    | _ => trivial
  rcases Net.step_cases L hstep with ⟨b, S, rfl, hs, rfl⟩ | ⟨b, C, rfl, hs, rfl⟩
  · exact ⟨h.step L hstep hhonest halone trivial hcalled, hlen⟩
  · rcases h.inOrder L hlen hs hone huntimed with horder | ⟨hb, hraises⟩
    · exact ⟨h.step L hstep hhonest halone horder hcalled, calls_le L hs horder hone hlen⟩
    · refine ⟨h.raises L hb hraises, ?_⟩
      have hsame : C = N.client := hraises.same
      rw [← hsame] at hlen
      exact hlen

/-- No operation times out. -/
def Net.Patient (_ : Net K) : Net.Act → Prop
  | .client (.timeout _) => False
  | _ => True

theorem server_untimed {b : Pipebomb.Act} {S' : Sys K} (hs : S.step L b = some (S', o)) (d : Bytes) :
    .timedOut d ∉ o := by
  intro hd
  rcases step_cases L hs with ⟨c', rfl, -, rfl, rfl⟩ | ⟨c', i, draw, s, t, rfl, ht, rfl⟩ |
    ⟨op, rfl, rfl, rfl⟩
  · cases hd
  · exact (taskStep_obs L ht).silent.2.2 d hd
  · cases hd

theorem patient_step (hstep : N.step L c a = some (N', o)) (hpatient : N.Patient a) (d : Bytes) :
    .timedOut d ∉ o := by
  intro hd
  rcases Net.step_cases L hstep with ⟨b, S, rfl, hs, rfl⟩ | ⟨b, C, rfl, hs, rfl⟩
  · exact server_untimed L hs d hd
  · obtain ⟨n, rfl⟩ := timedOut_timeout L hs hd
    exact hpatient

/-- **Nonce lockstep**: over an honest network, on a session that no other connection shares, a
    client whose operations come one after another without timeouts stays in lockstep with the
    server, whatever the session's record held before. -/
theorem nonce_lockstep (hS : S.Sound) (hidle : S.tasks c = .idle) (peer : String) (password : Bytes)
    (hrun : Lts.Run (Lts.Guarded (Net.step L c) fun N a o =>
        N.Honest c a o ∧ N.Alone c a o ∧ N.OneAtATime a ∧ N.Patient a)
      ⟨S, .init peer password, [], []⟩ N os) : Lockstep L c N os := by
  suffices h : Conversing L c N os ∧ N.client.calls.length ≤ 1 ∧ ∀ d, .timedOut d ∉ os from
    h.1.lockstep L
  refine hrun.inv (I := fun N os => Conversing L c N os ∧ N.client.calls.length ≤ 1 ∧
    ∀ d, .timedOut d ∉ os)
    ⟨conversing_init L hS hidle peer password, Nat.zero_le 1, fun d hd => by cases hd⟩ ?_
  rintro N N' os o - ⟨hconv, hlen, huntimed⟩ ⟨a, hstep, hhonest, halone, hone, hpatient⟩
  obtain ⟨hconv', hlen'⟩ := hconv.oneAtATime L hlen hstep hhonest halone hone huntimed
  refine ⟨hconv', hlen', fun d hd => ?_⟩
  rcases List.mem_append.1 hd with hd | hd
  · exact huntimed d hd
  · exact patient_step L hstep hpatient d hd

/-! ## After a timeout -/

/-- The one that timed out was the only one. -/
theorem timedOut_calls (hstep : N.step L c a = some (N', o)) (hlen : N.client.calls.length ≤ 1)
    {d : Bytes} (hd : .timedOut d ∈ o) : N'.client.calls = [] := by
  rcases Net.step_cases L hstep with ⟨b, S, rfl, hs, rfl⟩ | ⟨b, C, rfl, hs, rfl⟩
  · exact absurd hd (server_untimed L hs d)
  · obtain ⟨n, rfl⟩ := timedOut_timeout L hs hd
    simp only [RawClient.step] at hs
    rcases hn : N.client.calls[n]? with _ | x
    · rw [hn] at hs
      cases hs
    · rw [hn] at hs
      cases hs
      have hlt := (List.getElem?_eq_some_iff.1 hn).1
      apply List.eq_nil_of_length_eq_zero
      have herase := List.length_eraseIdx_of_lt hlt
      exact herase.trans (Nat.sub_eq_zero_of_le hlen)

/-- No operation goes on, and none starts. -/
theorem RawClient.Turns.idle {C : RawClient K} {out : RawClient.After K} (h : C.Turns L out)
    (hcalls : C.calls = []) (hcalled : ∀ d, .called d ∉ out.2) :
    out.1.calls = [] ∧ asked out.2 = [] ∧ Pipebomb.returns out.2 = [] := by
  cases h with
  | goesOn ho hsame _ =>
    obtain ⟨hasked, hreturns, -⟩ := ho.silent
    exact ⟨hsame.trans hcalls, hasked, hreturns⟩
  | @asks call data _ hasked _ _ _ _ =>
    refine absurd (mem_of_asked ?_) (hcalled data)
    rw [hasked]
    exact List.mem_singleton_self data
  | returns h' _ _ | timesOut h' _ =>
    rw [hcalls] at h'
    simp at h'

theorem client_idle {b : RawClient.Act} {out : RawClient.After K}
    (hs : N.client.step L b = some out) (hcalls : N.client.calls = [])
    (hcalled : ∀ d, .called d ∉ out.2) :
    out.1.calls = [] ∧ asked out.2 = [] ∧ Pipebomb.returns out.2 = [] := by
  cases b with
  | call call =>
    simp only [RawClient.step] at hs
    split_ifs at hs
    cases hs
    rcases send_raises L (c := 0) (N := N) call with hraises | ⟨-, data, hm⟩
    · obtain ⟨hasked, hreturns, -⟩ := hraises.ofClient.silent
      exact ⟨by rw [hraises.same, hcalls], hasked, hreturns⟩
    · exact absurd hm (hcalled data)
  | close =>
    simp only [RawClient.step] at hs
    split_ifs at hs
    cases hs
    exact (close_turns L).idle L hcalls hcalled
  | receive n | timeout n =>
    simp only [RawClient.step, hcalls, List.getElem?_nil] at hs
    cases hs
  | _ => exact (client_turns L hs trivial).idle L hcalls hcalled

/-- An operation timed out, and none was called since. -/
structure Expired (c : ConnId) (N : Net K) (os : List (Obs K)) : Prop where
  timedOut : ∃ d, .timedOut d ∈ os
  calls : N.client.calls = []
  corresponds : Corresponds c os

/-- Nothing is asked and nothing is returned any more. -/
theorem Expired.step (h : Expired c N os) (hstep : N.step L c a = some (N', o))
    (hcalled : ∀ x ∈ o, CalledUntimed os x) : Expired c N' (os ++ o) := by
  obtain ⟨d, hd⟩ := h.timedOut
  have hnone : ∀ d', .called d' ∉ o := fun d' hd' => hcalled _ hd' d hd
  have hquiet : N'.client.calls = [] ∧ asked o = [] ∧ returns o = [] := by
    rcases Net.step_cases L hstep with ⟨b, S, rfl, hs, rfl⟩ | ⟨b, C, rfl, hs, rfl⟩
    · rcases step_cases L hs with ⟨c', rfl, -, rfl, rfl⟩ | ⟨c', i, draw, s, t, rfl, ht, rfl⟩ |
        ⟨op, rfl, rfl, rfl⟩
      · exact ⟨h.calls, rfl, rfl⟩
      · obtain ⟨hasked, hreturns, -⟩ := (taskStep_obs L ht).silent
        exact ⟨h.calls, hasked, hreturns⟩
      · exact ⟨h.calls, rfl, rfl⟩
    · exact client_idle L hs h.calls hnone
  obtain ⟨hcalls, hasked, hreturns⟩ := hquiet
  obtain ⟨htook, hreplied⟩ := h.corresponds
  refine ⟨⟨d, List.mem_append_left o hd⟩, hcalls, ?_, ?_⟩
  · rw [returns_append, asked_append, hasked, hreturns, List.append_nil, List.append_nil]
    exact htook
  · have hanswers : answers (.server c) (os ++ o) = answers (.server c) os ++ answers (.server c) o :=
      List.filterMap_append
    rw [returns_append, hreturns, List.append_nil, hanswers]
    exact hreplied.trans (List.prefix_append _ _)

/-- **Reply correlation**: operations that come one after another get their own replies, if none
    is called after one timed out. -/
theorem reply_correlation (hS : S.Sound) (hidle : S.tasks c = .idle) (peer : String)
    (password : Bytes)
    (hrun : Lts.Run (Lts.Guarded (Net.step L c) fun N a o =>
        N.Honest c a o ∧ N.Alone c a o ∧ N.OneAtATime a)
      ⟨S, .init peer password, [], []⟩ N os) (hcalled : Lts.Each CalledUntimed os) :
    Corresponds c os := by
  suffices h : (Conversing L c N os ∧ N.client.calls.length ≤ 1 ∧ ∀ d, .timedOut d ∉ os) ∨
      Expired c N os by
    rcases h with ⟨hconv, -⟩ | hexpired
    · exact hconv.corresponds L
    · exact hexpired.corresponds
  revert hcalled
  refine hrun.inv (I := fun N os => Lts.Each CalledUntimed os →
    (Conversing L c N os ∧ N.client.calls.length ≤ 1 ∧ ∀ d, .timedOut d ∉ os) ∨ Expired c N os)
    (fun _ => .inl ⟨conversing_init L hS hidle peer password, Nat.zero_le 1, fun d hd => by cases hd⟩) ?_
  rintro N N' os o - ih ⟨a, hstep, hhonest, halone, hone⟩ hcalled
  rcases ih hcalled.left with ⟨hconv, hlen, huntimed⟩ | hexpired
  · obtain ⟨hconv', hlen'⟩ := hconv.oneAtATime L hlen hstep hhonest halone hone huntimed
    by_cases htimed : ∃ d, .timedOut d ∈ o
    · obtain ⟨d, hd⟩ := htimed
      refine .inr ⟨⟨d, List.mem_append_right os hd⟩, ?_, hconv'.corresponds L⟩
      exact timedOut_calls L hstep hlen hd
    · refine .inl ⟨hconv', hlen', fun d hd => ?_⟩
      rcases List.mem_append.1 hd with hd | hd
      · exact huntimed d hd
      · exact htimed ⟨d, hd⟩
  · exact .inr (hexpired.step L hstep (calledUntimed_step hcalled))

/-! ## Runs on fixed inputs -/

/-- The payload of an operation that timed out. -/
def Obs.expired : Obs K → Option Bytes
  | .timedOut data => some data
  | _ => none

theorem mem_expired {x : Obs K} {d : Bytes} : d ∈ x.expired ↔ x = .timedOut d := by
  cases x <;> simp [Obs.expired, eq_comm]

instance (before : List (Obs K)) : DecidablePred (CalledUntimed before)
  | .called _ =>
    decidable_of_iff (∀ x ∈ before, x.expired = none) <| by
      constructor
      · intro h d hd
        have hnone := h _ hd
        cases hnone
      · intro h x hx
        rw [Option.eq_none_iff_forall_not_mem]
        intro d hd
        rw [mem_expired.1 hd] at hx
        exact h d hx
  | .encrypt _ _ _ _ | .decrypt _ _ _ _ | .accepted _ _ | .write _ _ | .answered _ _ _ _
  | .session _ _ | .relogin _ _ | .returned _ _ | .timedOut _ => isTrue trivial

instance (C : RawClient K) : DecidablePred C.OneAtATime
  | .call _ | .close => inferInstanceAs (Decidable (_ ∧ _ ∧ _))
  | .connect _ | .resume _ | .sendLoop _ | .recvLoop _ | .receive _ | .timeout _ | .closing _ =>
    isTrue trivial

instance (C : RawClient K) : DecidablePred C.InOrder
  | .call _ | .close => inferInstanceAs (Decidable C.Ready)
  | .receive n => inferInstanceAs (Decidable (n = 0))
  | .timeout n => inferInstanceAs (Decidable (n + 1 = C.calls.length))
  | .connect _ | .resume _ | .sendLoop _ | .recvLoop _ | .closing _ => isTrue trivial

instance (N : Net K) : DecidablePred N.OneAtATime
  | .client b => inferInstanceAs (Decidable (N.client.OneAtATime b))
  | .server _ => isTrue trivial

instance (N : Net K) : DecidablePred N.InOrder
  | .client b => inferInstanceAs (Decidable (N.client.InOrder b))
  | .server _ => isTrue trivial

instance (N : Net K) : DecidablePred N.Patient
  | .client (.timeout _) => isFalse id
  | .client (.connect _) | .client (.resume _) | .client (.sendLoop _) | .client (.recvLoop _)
  | .client (.call _) | .client (.receive _) | .client .close | .client (.closing _)
  | .server _ => isTrue trivial

/-- A call of `whoami`, up to its packet. -/
def askActs : List Net.Act :=
  [.client (.call .whoami), .client (.sendLoop .go), .client (.sendLoop .sent)]

/-- The server answers a packet of `whoami`. -/
def replyActs (n : ℕ) : List Net.Act :=
  [.server (.resume 0 (.recv (stubPacket 0 n [0x87])) sampleDraw),
    .server (.resume 0 .sent sampleDraw), .server (.resume 0 .go sampleDraw)]

/-- A reply to `whoami` arrives, and an operation takes it. -/
def takeActs (n : ℕ) : List Net.Act :=
  [.client (.recvLoop (.recv (stubPacket 0 n (latin1 sampleUuid)))), .client (.receive 0)]

/-- The handshake of a client, with the second ACK. -/
def joinActs : List Net.Act := handshakeActs ++ [.client (.resume (.recv (stubPacket 0 1 ACK)))]

/-- A server whose one session stores counters of an earlier connection. -/
def storedSys : Sys ℕ :=
  ⟨(Server.init [] true).addSession sampleUuid
    { Client.preset sampleUuid [] [] .empty with txNonce := 5, rxNonce := 7 }, fun _ => .idle⟩

theorem storedSys_sound : storedSys.Sound :=
  ⟨(Server.wfRefs_init [] true).addSession rfl, fun _ => trivial, fun _ => trivial,
    fun _ _ h => by cases h⟩

/-- RELOGIN to the stored session, and `whoami`. -/
def reloginTalk : List Net.Act :=
  [.client (.connect (some (latin1 sampleUuid))), .server (.connect 0), .client (.resume .sent),
    .server (.resume 0 (.recv stubClientPublic) sampleDraw),
    .client (.resume (.recv (stubPublic 0))), .client (.resume .sent),
    .server (.resume 0 .sent sampleDraw),
    .server (.resume 0 (.recv (stubPacket 0 0 [0])) sampleDraw),
    .client (.resume (.recv (stubPacket 0 0 ACK))), .client (.resume .sent),
    .server (.resume 0 .sent sampleDraw),
    .server (.resume 0 (.recv (stubPacket 0 1 ([0xC4] ++ latin1 sampleUuid))) sampleDraw),
    .server (.resume 0 .sent sampleDraw), .server (.resume 0 .go sampleDraw),
    .server (.resume 0 .go sampleDraw), .client (.resume (.recv (stubPacket 0 1 ACK)))] ++
  askActs ++ replyActs 2 ++ takeActs 2

theorem nonce_lockstep_sample : ∃ N os,
    Lts.Run (Lts.Guarded (Net.step stub 0) fun N a o =>
        N.Honest 0 a o ∧ N.Alone 0 a o ∧ N.OneAtATime a ∧ N.Patient a)
      ⟨storedSys, .init "" [], [], []⟩ N os ∧
      (built stub (.server 0) os).map (fun x => x.2.1) = [0, 1, 2] ∧ Lockstep stub 0 N os := by
  have hexec : ((Lts.exec (Net.step stub 0) reloginTalk ⟨storedSys, .init "" [], [], []⟩).any fun x =>
      (built stub (.server 0) x.2).map (fun y => y.2.1) = [0, 1, 2]) = true := by decide +kernel
  have hcheck : Lts.Along (Net.step stub 0) (fun N a o => N.Checked 1 a o ∧ N.Honest 0 a o ∧
      N.OneAtATime a ∧ N.Patient a) reloginTalk ⟨storedSys, .init "" [], [], []⟩ := by
    decide +kernel
  obtain ⟨⟨N, os⟩, hN, hp⟩ := Option.any_eq_true _ _ |>.1 hexec
  rw [decide_eq_true_eq] at hp
  have hrun : Lts.Run (Lts.Guarded (Net.step stub 0) fun N a o =>
        N.Honest 0 a o ∧ N.Alone 0 a o ∧ N.OneAtATime a ∧ N.Patient a)
      ⟨storedSys, .init "" [], [], []⟩ N os :=
    (checked_run stub (fun _ _ => rfl) hN hcheck).guard fun h => ⟨h.2.2.1, h.1, h.2.2.2⟩
  exact ⟨N, os, hrun, hp, nonce_lockstep stub storedSys_sound rfl "" [] hrun⟩

/-- Two operations side by side. -/
def sideBySide : List Net.Act :=
  joinActs ++ askActs ++ askActs ++ replyActs 2 ++ replyActs 3 ++ takeActs 2 ++ takeActs 3

theorem concurrent_operations_sample : ∃ N os,
    Lts.Run (Lts.Guarded (Net.step stub 0) fun N a o =>
        N.Honest 0 a o ∧ N.Alone 0 a o ∧ N.InOrder a) (.init [] false "" []) N os ∧
      returns os = [([0x87], latin1 sampleUuid), ([0x87], latin1 sampleUuid)] ∧
      Lockstep stub 0 N os ∧ Corresponds 0 os := by
  have hexec : ((Lts.exec (Net.step stub 0) sideBySide (.init [] false "" [])).any fun x =>
      (returns x.2 = [([0x87], latin1 sampleUuid), ([0x87], latin1 sampleUuid)] : Bool) &&
        (Lts.Each CalledUntimed x.2 : Bool)) = true := by decide +kernel
  have hcheck : Lts.Along (Net.step stub 0) (fun N a o => N.Checked 1 a o ∧ N.Honest 0 a o ∧
      N.InOrder a) sideBySide (.init [] false "" []) := by decide +kernel
  obtain ⟨⟨N, os⟩, hN, hp⟩ := Option.any_eq_true _ _ |>.1 hexec
  simp only [Bool.and_eq_true, decide_eq_true_eq] at hp
  have hrun : Lts.Run (Lts.Guarded (Net.step stub 0) fun N a o =>
        N.Honest 0 a o ∧ N.Alone 0 a o ∧ N.InOrder a) (.init [] false "" []) N os :=
    (checked_run stub (fun _ _ => rfl) hN hcheck).guard fun h => ⟨h.2.2.1, h.1, h.2.2.2⟩
  exact ⟨N, os, hrun, hp.1,
    concurrent_operations stub (sound_init [] false) rfl "" [] hrun hp.2⟩

/-- Two packets are built before the first is sent. -/
def twoAtOnce : List Net.Act :=
  [.client (.call .whoami), .client (.call (.get [7])), .client (.sendLoop .go),
    .client (.sendLoop .sent), .client (.sendLoop .go), .client (.sendLoop .sent)]

instance : DecidablePred fun a : Net.Act => ∀ b, a ≠ .server b
  | .client _ => isTrue fun _ h => by cases h
  | .server b => isFalse fun h => h b rfl

/-- **Two operations at once get one nonce.**  The packets of the third and the fourth write both
    carry nonce 2, and the fourth does not open under nonce 3. -/
theorem nonces_reused : ∃ N os,
    Lts.Run (Lts.Guarded (Net.step stub 0) fun N a o => N.Honest 0 a o ∧ N.Alone 0 a o)
      (.init [] false "" []) N os ∧
      (built stub .client os).map Prod.snd = [(0, [0]), (1, [0xC5]), (2, [0x87]), (2, [0x82, 7])] ∧
      sends .client os = stream stub stubClientPublic (built stub .client os) ∧
      stub.decrypt 0 (leBytes 12 3) (sealed stub 0 2 [0x82, 7]) = none ∧ ¬ Lockstep stub 0 N os := by
  have hexec : ((Lts.exec (Net.step stub 0) joinActs (.init [] false "" [])).any fun x =>
      (Lts.exec (Net.step stub 0) twoAtOnce x.1).any fun y =>
        ((built stub .client (x.2 ++ y.2)).map Prod.snd =
            [(0, [0]), (1, [0xC5]), (2, [0x87]), (2, [0x82, 7])] : Bool) &&
          (sends .client (x.2 ++ y.2) =
            stream stub stubClientPublic (built stub .client (x.2 ++ y.2)) : Bool) &&
          (Lts.Along (Net.step stub 0) (fun N a o => N.Honest 0 a o ∧ ∀ b, a ≠ .server b)
            twoAtOnce x.1 : Bool)) = true := by decide +kernel
  have hcheck : Lts.Along (Net.step stub 0) (fun N a o => N.Checked 1 a o ∧ N.Honest 0 a o)
      joinActs (.init [] false "" []) := by decide +kernel
  obtain ⟨⟨N₀, os₀⟩, hN₀, hp₀⟩ := Option.any_eq_true _ _ |>.1 hexec
  obtain ⟨⟨N, os⟩, hN, hp⟩ := Option.any_eq_true _ _ |>.1 hp₀
  simp only [Bool.and_eq_true, decide_eq_true_eq] at hp
  obtain ⟨⟨hbuilt, hsends⟩, halong⟩ := hp
  have hrun₀ : Lts.Run (Lts.Guarded (Net.step stub 0) fun N a o => N.Honest 0 a o ∧ N.Alone 0 a o)
      (.init [] false "" []) N₀ os₀ :=
    (checked_run stub (fun _ _ => rfl) hN₀ hcheck).guard fun h => ⟨h.2.2, h.1⟩
  have hrun : Lts.Run (Lts.Guarded (Net.step stub 0) fun N a o => N.Honest 0 a o ∧ N.Alone 0 a o)
      N₀ N os :=
    Lts.exec_run hN (halong.imp (I := fun _ => True) (fun _ _ _ => trivial)
      (fun _ h => ⟨h.1, fun b hb => absurd hb (h.2 b)⟩) trivial)
  refine ⟨N, os₀ ++ os, hrun₀.trans hrun, hbuilt, hsends, by decide, fun h => ?_⟩
  have hsome : ((built stub .client (os₀ ++ os)).map Prod.snd)[3]? = some (2, [0x82, 7]) := by
    rw [hbuilt]
    rfl
  rw [List.getElem?_map, Option.map_eq_some_iff] at hsome
  obtain ⟨x, hx, hnonce⟩ := hsome
  have hthree := h.clientNonces 3 x hx
  rw [hnonce] at hthree
  cases hthree

/-- `whoami`, and an operation that times out. -/
def timeoutTalk : List Net.Act :=
  joinActs ++ askActs ++ replyActs 2 ++ takeActs 2 ++ [.client (.call (.get [7])), .client (.timeout 0)]

theorem reply_correlation_sample : ∃ N os,
    Lts.Run (Lts.Guarded (Net.step stub 0) fun N a o =>
        N.Honest 0 a o ∧ N.Alone 0 a o ∧ N.OneAtATime a) (.init [] false "" []) N os ∧
      returns os = [([0x87], latin1 sampleUuid)] ∧ .timedOut [0x82, 7] ∈ os ∧ Corresponds 0 os := by
  have hexec : ((Lts.exec (Net.step stub 0) timeoutTalk (.init [] false "" [])).any fun x =>
      (returns x.2 = [([0x87], latin1 sampleUuid)] : Bool) && (.timedOut [0x82, 7] ∈ x.2 : Bool) &&
        (Lts.Each CalledUntimed x.2 : Bool)) = true := by decide +kernel
  have hcheck : Lts.Along (Net.step stub 0) (fun N a o => N.Checked 1 a o ∧ N.Honest 0 a o ∧
      N.OneAtATime a) timeoutTalk (.init [] false "" []) := by decide +kernel
  obtain ⟨⟨N, os⟩, hN, hp⟩ := Option.any_eq_true _ _ |>.1 hexec
  simp only [Bool.and_eq_true, decide_eq_true_eq] at hp
  have hrun : Lts.Run (Lts.Guarded (Net.step stub 0) fun N a o =>
        N.Honest 0 a o ∧ N.Alone 0 a o ∧ N.OneAtATime a) (.init [] false "" []) N os :=
    (checked_run stub (fun _ _ => rfl) hN hcheck).guard fun h => ⟨h.2.2.1, h.1, h.2.2.2⟩
  exact ⟨N, os, hrun, hp.1.1, hp.1.2,
    reply_correlation stub (sound_init [] false) rfl "" [] hrun hp.2⟩

/-- `whoami` times out, its reply comes later, and `get` takes it. -/
def lateTalk : List Net.Act :=
  joinActs ++ askActs ++ [.client (.timeout 0)] ++ replyActs 2 ++
    [.client (.call (.get [7])), .client (.sendLoop .go), .client (.sendLoop .sent)] ++ takeActs 2

/-- **A late reply goes to the next operation.**  `get` returns the reply that the server sent to
    `whoami`; the server never answered the `get`. -/
theorem late_reply : ∃ N os,
    Lts.Run (Lts.Guarded (Net.step stub 0) fun N a o =>
        N.Honest 0 a o ∧ N.Alone 0 a o ∧ N.OneAtATime a) (.init [] false "" []) N os ∧
      asked os = [[0x87], [0x82, 7]] ∧ answers (.server 0) os = [([0x87], latin1 sampleUuid)] ∧
      returns os = [([0x82, 7], latin1 sampleUuid)] ∧ ¬ Corresponds 0 os := by
  have hexec : ((Lts.exec (Net.step stub 0) lateTalk (.init [] false "" [])).any fun x =>
      (asked x.2 = [[0x87], [0x82, 7]] : Bool) &&
        (answers (.server 0) x.2 = [([0x87], latin1 sampleUuid)] : Bool) &&
        (returns x.2 = [([0x82, 7], latin1 sampleUuid)] : Bool)) = true := by decide +kernel
  have hcheck : Lts.Along (Net.step stub 0) (fun N a o => N.Checked 1 a o ∧ N.Honest 0 a o ∧
      N.OneAtATime a) lateTalk (.init [] false "" []) := by decide +kernel
  obtain ⟨⟨N, os⟩, hN, hp⟩ := Option.any_eq_true _ _ |>.1 hexec
  simp only [Bool.and_eq_true, decide_eq_true_eq] at hp
  obtain ⟨⟨hasked, hanswers⟩, hreturns⟩ := hp
  refine ⟨N, os, (checked_run stub (fun _ _ => rfl) hN hcheck).guard fun h =>
    ⟨h.2.2.1, h.1, h.2.2.2⟩, hasked, hanswers, hreturns, fun h => ?_⟩
  have hfirst := h.1
  rw [hasked, hreturns] at hfirst
  revert hfirst
  decide

end Pipebomb
