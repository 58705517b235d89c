/-
  Client and server over a network that delivers what was written.

  * `Locked`: both ends of the connection, each with the stream it reads.
  * `step_locked`: every step keeps it, if the network is honest, the session is not shared
    and the client's operations are in order.
-/
import Pipebomb.Halves
import Pipebomb.Replay

namespace Pipebomb

open ByteString

variable {K : Type} (L : Libs K)

variable {c : ConnId} {xs : List (K × ℕ × Bytes)} {x : K × ℕ × Bytes} {k : K} {e e' : ServerEnd K}
  {t : Task (Accepting K)} {s : Server K} {C : RawClient K}

/-! ## Both ends -/

/-- Client, server and the two streams between them; the client wrote the packets `xs`. -/
structure Locked (c : ConnId) (N : Net K) (os : List (Obs K)) (e : ServerEnd K) (f : ClientEnd K)
    (xs : List (K × ℕ × Bytes)) : Prop where
  side : ServerSide c N.sys e
  atEnd : N.client.AtEnd f
  link : Lts.Run (LinkStep L c True False) (.start, .start) (e, f) (linkObs L c os)
  nonces : N.client.AtNonces
  server : ServerHalf L c (tally L .client os).sends xs (tally L (.server c) os) N.toServer e
    (N.sys.tasks c)
  client : ClientHalf L c (tally L (.server c) os).sends (tally L (.server c) os).built
    (tally L .client os) N.toClient xs N.client

variable {N N' : Net K} {os o : List (Obs K)} {f f' : ClientEnd K}

theorem Locked.ok (h : Locked L c N os e f xs) :
    e.Ok (tally L (.server c) os).built (tally L (.server c) os).accepted ∧
      f.Ok True False (tally L .client os).built (tally L .client os).accepted := by
  have hok := link_ok L h.link
  rw [LinkOk, built_linkObs L (.inr rfl), built_linkObs L (.inl rfl), acceptedBy_linkObs L (.inr rfl),
    acceptedBy_linkObs L (.inl rfl)] at hok
  exact hok

/-- The nonce of the packet that was built last. -/
theorem Counted.last {bs : List (K × ℕ × Bytes)} {m : ℕ} (h : Counted k m (bs ++ [x])) :
    x.2.1 = bs.length := by
  obtain rfl : bs.length + 1 = m := by
    rw [← h.length, List.length_append, List.length_singleton]
  rw [Counted, List.map_append, List.range_succ, List.map_append] at h
  obtain ⟨-, hx⟩ := List.append_inj' h rfl
  simp only [List.map_cons, List.map_nil, List.cons.injEq, Prod.mk.injEq, and_true] at hx
  exact hx.2

theorem ClientEnd.Ok.last {verified : Prop} {bs : List (K × ℕ × Bytes)} {as : List Bytes}
    (h : f.Ok True verified (bs ++ [x]) as) : x.2.1 = bs.length := by
  cases f with
  | start => exact absurd h.1 (by simp)
  | up k tx pending rx =>
    obtain ⟨m, hm, -⟩ := h.1 trivial
    exact hm.last
  | closed =>
    rcases h trivial with hnil | ⟨k, m, hm⟩
    · exact absurd hnil (by simp)
    · exact hm.last

/-- Where the coroutine stands tells whether it has a key. -/
theorem Task.AtEnd.keyed (h : t.AtEnd s e) : t.Keyed ∨ (∃ x, t = .over x) ∧ e = .over ∨ e = .start := by
  cases t with
  | idle => exact .inr (.inr h)
  | «over» x => exact .inr (.inl ⟨⟨x, rfl⟩, h⟩)
  | handler h' => exact .inl trivial
  | accept a =>
    cases a with
    | publicKey | sendPublic => exact .inr (.inr h)
    | password | sendAck | login | sendUnknown | sendLogin => exact .inl trivial

theorem Task.Keyed.ne_start (hk : t.Keyed) (h : t.AtEnd s e) : e ≠ .start := by
  rintro rfl
  cases t with
  | idle => exact hk
  | «over» x => exact hk
  | handler h' =>
    obtain ⟨k, n, -, he⟩ := h
    cases hpc : h'.pc with
    | sendall held after => cases after <;> rw [hpc] at he <;> cases he
    | _ => rw [hpc] at he; cases he
  | accept a =>
    cases a with
    | publicKey | sendPublic => exact hk
    | password | sendAck | login | sendUnknown => cases h.2.2
    | sendLogin => cases h.2.2.1

/-- An end whose coroutine does not go on keeps its key. -/
theorem end_key {s' : Server K} (hat : t.AtEnd s e) (hat' : t.AtEnd s' e')
    (hrun : Lts.Run (ServerStep L c) e e' o) : ∀ k ∈ e'.key, k ∈ e.key := by
  rcases hat'.keyed with hk | ⟨-, rfl⟩ | rfl
  · exact (run_key L hrun (hk.ne_start hat)).2
  · exact fun k hk => by cases hk
  · exact fun k hk => by cases hk

/-- The streams after a step of the server. -/
theorem flow_server {b : Act} {S : Sys K} (ht : tally L .client o = .none) :
    (N.flow c (.server b) S N.client o).toServer =
        N.toServer.drop (((Net.Act.server b).toServer c).getD []).length ∧
      (N.flow c (.server b) S N.client o).toClient =
        N.toClient ++ (tally L (.server c) o).sends.flatten := by
  have hs : sends .client o = [] := congrArg Tally.sends ht
  refine ⟨?_, ?_⟩
  · simp only [Net.flow, written_eq, hs, List.flatten_nil, List.append_nil]
  · simp only [Net.flow, written_eq, Net.Act.toClient, Option.getD_none, List.length_nil, List.drop_zero]
    rfl

/-- The streams after a step of the client. -/
theorem flow_client {b : RawClient.Act} (ht : tally L (.server c) o = .none) :
    (N.flow c (.client b) N.sys C o).toServer = N.toServer ++ (tally L .client o).sends.flatten ∧
      (N.flow c (.client b) N.sys C o).toClient = N.toClient.drop b.chunk.length := by
  have hs : sends (.server c) o = [] := congrArg Tally.sends ht
  refine ⟨?_, ?_⟩
  · simp only [Net.flow, written_eq, Net.Act.toServer, Option.getD_none, List.length_nil, List.drop_zero]
    rfl
  · simp only [Net.flow, written_eq, hs, List.flatten_nil, List.append_nil]
    congr 2
    cases b with
    | resume i | recvLoop i => cases i <;> rfl
    | _ => rfl

/-- A step of the client is none of the server's end. -/
theorem AtClient.tally (h : AtClient o) : Pipebomb.tally L (.server c) o = .none := by
  refine tally_of_not L fun x hx ho => ?_
  have hc := h x hx
  cases x with
  | encrypt p | decrypt p | accepted p | write p =>
    obtain rfl : p = .client := hc
    cases ho
  | answered => exact hc
  | _ => exact ho

/-- What the network brings to a reader. -/
theorem Net.Honest.server {b : Pipebomb.Act} (h : N.Honest c (.server b) o) {i : Input} {draw : Uuid4}
    (hb : b = .resume c i draw) : i.chunk <+: N.toServer := by
  subst hb
  cases i with
  | recv chunk => exact h.1 chunk (by simp [Net.Act.toServer])
  | _ => exact List.nil_prefix

theorem Net.Honest.client {b : RawClient.Act} (h : N.Honest c (.client b) o) :
    b.chunk <+: N.toClient := by
  cases b with
  | resume i | recvLoop i =>
    cases i with
    | recv chunk => exact h.2 chunk rfl
    | _ => exact List.nil_prefix
  | _ => exact List.nil_prefix

/-- **A step of the server at which the coroutine of the connection does not go on.** -/
theorem Locked.aside (h : Locked L c N os e f xs) {b : Act} {S : Sys K}
    (hside : ServerSide c S e') (hrun : Lts.Run (ServerStep L c) e e' (linkObs L c o))
    (hU : tally L (.server c) o = .none) (hT : tally L .client o = .none)
    (hchunk : (Net.Act.server b).toServer c = none)
    (htask : ServerHalf L c (tally L .client os).sends xs (tally L (.server c) os) N.toServer e'
      (S.tasks c)) :
    Locked L c (N.flow c (.server b) S N.client o) (os ++ o) e' f xs := by
  obtain ⟨hserver, hclient⟩ := flow_server L (N := N) (c := c) (b := b) (S := S) hT
  rw [hchunk, Option.getD_none, List.length_nil, List.drop_zero] at hserver
  rw [hU, Tally.none, List.flatten_nil, List.append_nil] at hclient
  refine ⟨hside, h.atEnd, ?_, h.nonces, ?_, ?_⟩
  · rw [linkObs_append]
    exact h.link.trans (run_server L hrun)
  · rw [tally_append, tally_append, hU, hT, Tally.append_none, Tally.append_none, hserver]
    exact htask
  · rw [tally_append, tally_append, hU, hT, Tally.append_none, Tally.append_none, hclient]
    exact h.client

/-- The packets in front of others are numbered. -/
theorem Numbered.left {bs bs' : List (K × ℕ × Bytes)} (h : Numbered L c (bs ++ bs')) :
    Numbered L c bs := by
  intro m x hx
  have hlt : m < bs.length := (List.getElem?_eq_some_iff.1 hx).1
  refine h m x ?_
  rw [List.getElem?_append_left hlt]
  exact hx

/-- The client opens packets of the server. -/
theorem Locked.opened_le (h : Locked L c N os e f xs) :
    (opened .client os).length ≤ (built L (.server c) os).length := by
  have hpre := h.client.opened.length_le
  rwa [List.length_map] at hpre

theorem Locked.numbered (h : Locked L c N os e f xs) : Numbered L c xs := by
  obtain ⟨pending, hb, -⟩ := h.client.built
  have hn := h.client.numbered
  rw [hb] at hn
  exact hn.left L

/-- The server reads the packets of its client. -/
theorem Locked.feeding (h : Locked L c N os e f xs) (hk : (N.sys.tasks c).Keyed) :
    Feeding L c xs (tally L (.server c) os).opened.length e ∧
      Inlet (stream L L.clientPublic xs) ((tally L (.server c) os).opened.length + 1)
        (N.sys.tasks c).buffer N.toServer := by
  obtain ⟨-, hacc, hin⟩ := (place_keyed L hk).1 h.server.place
  rw [h.client.said.of_inlet L hin] at hin
  refine ⟨⟨h.numbered L, h.server.key, ?_⟩, hin⟩
  rintro k n rfl
  exact ((h.ok L).1.2.symm.trans hacc)

/-- Nothing is written behind the packet that a handshake waits for. -/
theorem Locked.short (h : Locked L c N os e f xs) {a : Accepting K}
    (ht : N.sys.tasks c = .accept a) (hk : a.Keyed) (he : ∃ k n, e = .idle k n) :
    xs.length ≤ (tally L (.server c) os).opened.length + 1 := by
  obtain ⟨k, n, rfl⟩ := he
  have hat := h.side.atEnd
  rw [ht] at hat
  have hn : n ≤ 1 := by
    obtain ⟨k', hs | hs | hs | hs⟩ := keyed_stage hk hat <;> cases hs
    · exact Nat.zero_le 1
    · exact Nat.le_refl 1
  have hkeyed : (N.sys.tasks c).Keyed := by rw [ht]; exact hk
  have hopened := (h.feeding L hkeyed).1.place k n rfl
  have hbuilt := (h.ok L).1.1.length
  have hle := h.client.opened.length_le
  rw [List.length_map] at hle
  have hearly := h.client.early (by omega)
  obtain ⟨pending, hb, -⟩ := h.client.built
  rw [hb, List.length_append] at hearly
  omega

/-- **The coroutine of the connection goes on.** -/
theorem Locked.resume (h : Locked L c N os e f xs) {i : Input} {draw : Uuid4} {s : Server K}
    {t : Task (Accepting K)}
    (ht : taskStep L N.sys.server c (N.sys.tasks c) i draw = some (s, t, o))
    (hside : ServerSide c (N.sys.put c s t) e') (hrun : Lts.Run (ServerStep L c) e e' (linkObs L c o))
    (hchunk : i.chunk <+: N.toServer) :
    Locked L c (N.flow c (.server (.resume c i draw)) (N.sys.put c s t) N.client o) (os ++ o) e' f
      xs := by
  have hT : tally L .client o = .none :=
    tally_of_not L ((taskStep_obs L ht).of (fun hp => by cases hp))
  have hat := h.side.atEnd
  have hat' : t.AtEnd s e' := by simpa using hside.atEnd
  have hstart := fun h' (hh : t = .handler h') => handler_starts L hat ht hh
  have hserver : ServerHalf L c (tally L .client os).sends xs
      ((tally L (.server c) os).append (tally L (.server c) o)) (N.toServer.drop i.chunk.length) e' t := by
    have hhalf := h.server
    have hfed : (N.sys.tasks c).Keyed →
        Fed L c xs (tally L (.server c) os).opened.length (N.toServer.drop i.chunk.length) e
          (N.sys.tasks c) (s, t, o) →
        ServerHalf L c (tally L .client os).sends xs
          ((tally L (.server c) os).append (tally L (.server c) o)) (N.toServer.drop i.chunk.length)
            e' t := fun hk hf =>
      h.server.fed L h.client.said hk hat (h.ok L).1 hf (run_key L hrun (hk.ne_start hat)).2 hstart
    cases htask : N.sys.tasks c with
    | idle => rw [htask] at ht; cases ht
    | «over» x => rw [htask] at ht; cases ht
    | handler h₀ =>
      have hk : (N.sys.tasks c).Keyed := by rw [htask]; trivial
      obtain ⟨hfeeding, hin⟩ := h.feeding L hk
      refine hfed hk ?_
      rw [htask] at hat hin ht ⊢
      exact handlerStep_fed L hat hfeeding hin hchunk ht
    | accept a =>
      by_cases hka : a.Keyed
      · have hk : (N.sys.tasks c).Keyed := by rw [htask]; exact hka
        obtain ⟨hfeeding, hin⟩ := h.feeding L hk
        have hshort := h.short L htask hka
        refine hfed hk ?_
        rw [htask] at hat hin ht ⊢
        exact acceptStep_fed L hka hat hfeeding hshort hin hchunk ht
      · rw [htask] at hhalf ht
        exact hhalf.greets L h.client.said hka hchunk ht hat'
  obtain ⟨hflow, hclient⟩ := flow_server L (N := N) (c := c) (b := .resume c i draw)
    (S := N.sys.put c s t) hT
  have hlen : (((Net.Act.server (.resume c i draw)).toServer c).getD []).length = i.chunk.length := by
    cases i <;> simp [Net.Act.toServer, Input.chunk]
  rw [hlen] at hflow
  refine ⟨hside, h.atEnd, ?_, h.nonces, ?_, ?_⟩
  · rw [linkObs_append]
    exact h.link.trans (run_server L hrun)
  · rw [tally_append, tally_append, hT, Tally.append_none, hflow]
    have htasks : (N.flow c (.server (.resume c i draw)) (N.sys.put c s t) N.client o).sys.tasks c = t :=
      put_tasks_self
    rw [htasks]
    exact hserver
  · rw [tally_append, tally_append, hT, Tally.append_none, hclient]
    exact h.client.grow L _ _

/-- The client reads the packets of the server. -/
theorem Locked.clientFeeding (h : Locked L c N os e f xs) (hk : N.client.Keyed) :
    ClientFeeding L c (tally L (.server c) os).built (tally L .client os).opened.length N.toClient
      N.client := by
  obtain ⟨-, hplace⟩ := (clientPlace_keyed L hk).1 h.client.place
  refine ⟨h.server.exchange.numbered, h.client.key, fun b hb => ?_⟩
  obtain ⟨hrx, hin⟩ := hplace b hb
  refine ⟨hrx, ?_⟩
  rw [h.server.exchange.said.of_inlet L hin] at hin
  exact hin

/-- What the client built is at least what the server built. -/
theorem Locked.le (h : Locked L c N os e f xs) :
    (tally L (.server c) os).built.length ≤ (tally L (.server c) os).opened.length ∧
      (tally L (.server c) os).opened.length ≤ xs.length ∧
        xs.length ≤ (tally L .client os).built.length := by
  obtain ⟨pending, hb, -⟩ := h.client.built
  refine ⟨h.server.exchange.behind, h.server.exchange.le L, ?_⟩
  rw [hb, List.length_append]
  exact Nat.le_add_right _ _

/-- A handshake of the client that is not over. -/
theorem Locked.logging (h : Locked L c N os e f xs) (hk : N.client.Keyed) :
    N.client.Logging (tally L (.server c) os).built (tally L .client os).opened.length := by
  rintro ⟨b, hb⟩ hconn
  obtain ⟨hrx, -⟩ := ((clientPlace_keyed L hk).1 h.client.place).2 b hb
  obtain ⟨h₁, h₂, h₃⟩ := h.le L
  have hearly := h.client.early
  have hn := h.nonces
  have hat := h.atEnd
  rw [RawClient.AtNonces] at hn
  rw [RawClient.AtEnd] at hat
  rcases hc : N.client.connection with _ | _ | b' | _ | b' | _ | b' | _ | e'
  case connected => exact absurd hc hconn
  case failed => simp [RawClient.reading, hc] at hb
  case idle | sendPublic | serverKey =>
    rw [RawClient.Keyed, hc] at hk
    exact hk.elim
  all_goals
    rw [hc] at hn hat
    obtain ⟨hr, k, hk', -⟩ := hat
    exact ⟨hr, ⟨k, hk'⟩, h.client.loop hconn, by omega⟩

/-- What a step of the client past the exchange of the keys takes and builds. -/
theorem Locked.clientFed (h : Locked L c N os e f xs) (hk : N.client.Keyed) {b : RawClient.Act}
    {out : RawClient.After K} (hs : N.client.step L b = some out) (hchunk : b.chunk <+: N.toClient)
    (horder : N.client.InOrder b) :
    ∃ taken new got, ClientFed L c (tally L (.server c) os).built (tally L .client os).opened.length
      (N.toClient.drop b.chunk.length) N.client out taken new got :=
  client_fed L (h.clientFeeding L hk) hk h.nonces (h.logging L hk) horder hchunk hs

/-- **The client goes on.** -/
theorem Locked.client_step (h : Locked L c N os e f xs) {b : RawClient.Act} {C : RawClient K}
    (hs : N.client.step L b = some (C, o)) (hchunk : b.chunk <+: N.toClient)
    (horder : N.client.InOrder b) :
    ∃ f' xs', Locked L c (N.flow c (.client b) N.sys C o) (os ++ o) e f' xs' := by
  have hseq : N.client.Sequential b := by
    cases b with
    | call | close => exact horder
    | _ => trivial
  have hgoes : ClientGoes L True False c f (C, o) :=
    client_link L h.atEnd hs (fun _ => hseq) fun hf => hf.elim
  obtain ⟨f', hC', hrun⟩ := hgoes
  have hU : tally L (.server c) o = .none := (client_atClient L hs).tally L
  have hlink : Lts.Run (LinkStep L c True False) (.start, .start) (e, f') (linkObs L c (os ++ o)) := by
    rw [linkObs_append]
    exact h.link.trans (run_client L hrun)
  have hcount : ∀ x, (tally L .client o).built = [x] → x.2.1 = (tally L .client os).built.length := by
    intro x hx
    have hok := (link_ok L hlink).2
    rw [built_linkObs L (.inl rfl), built_append] at hok
    have hx' : built L .client o = [x] := hx
    rw [hx'] at hok
    exact hok.last
  obtain ⟨new, hclient⟩ : ∃ new, ClientHalf L c (tally L (.server c) os).sends
      (tally L (.server c) os).built ((tally L .client os).append (tally L .client o))
        (N.toClient.drop b.chunk.length) (xs ++ new) C := by
    by_cases hk : N.client.Keyed
    · obtain ⟨taken, built, got, hf⟩ := h.clientFed L hk hs hchunk horder
      exact h.client.fed L h.server.exchange.said hk h.nonces hs hf hcount
    · exact h.client.greets L h.server.exchange.said hk h.nonces hchunk hs
  obtain ⟨hserver, hflow⟩ := flow_client L (N := N) (c := c) (b := b) (C := C) hU
  refine ⟨f', xs ++ new, h.side, hC', hlink, ?_, ?_, ?_⟩
  · have hlogged : N.client.LoggedIn [] := ⟨h.nonces, by simp⟩
    exact (client_loggedIn L hlogged hs).nonces
  · rw [tally_append, tally_append, hU, Tally.append_none, hserver]
    exact h.server.grow L new _
  · rw [tally_append, tally_append, hU, Tally.append_none, hflow]
    exact hclient

/-- The client's operations are in order. -/
def Net.InOrder (N : Net K) : Net.Act → Prop
  | .client b => N.client.InOrder b
  | .server _ => True

/-- **One step.** -/
theorem step_locked {a : Net.Act} (h : Locked L c N os e f xs) (hstep : N.step L c a = some (N', o))
    (hhonest : N.Honest c a o) (halone : N.Alone c a o) (horder : N.InOrder a) :
    ∃ e' f' xs', Locked L c N' (os ++ o) e' f' xs' := by
  rcases Net.step_cases L hstep with ⟨b, S, rfl, hs, rfl⟩ | ⟨b, C, rfl, hs, rfl⟩
  · obtain ⟨e', hside, hrun⟩ := server_link L h.side hs (halone b rfl)
    refine ⟨e', f, xs, ?_⟩
    have hkey : ∀ {t : Task (Accepting K)}, N.sys.tasks c = t → S.tasks c = t →
        ServerHalf L c (tally L .client os).sends xs (tally L (.server c) os) N.toServer e'
          (S.tasks c) := by
      rintro t ht ht'
      have hat := h.side.atEnd
      have hat' := hside.atEnd
      have hhalf := h.server
      rw [ht] at hat hhalf
      rw [ht'] at hat' ⊢
      exact hhalf.congr L (end_key L hat hat' hrun)
    rcases step_cases L hs with ⟨c', rfl, hidle, rfl, rfl⟩ | ⟨c', i, draw, s, t, rfl, ht, rfl⟩ |
      ⟨op, rfl, rfl, rfl⟩
    · refine h.aside L hside hrun rfl rfl rfl ?_
      by_cases hc : c = c'
      · subst hc
        have hhalf := h.server
        have hat' := hside.atEnd
        rw [hidle] at hhalf
        rw [put_tasks_self] at hat' ⊢
        obtain rfl : e' = .start := hat'
        exact ⟨hhalf.exchange, fun k hk => (by cases hk), hhalf.place, fun h' ht => (by cases ht)⟩
      · exact hkey rfl (put_tasks_ne hc)
    · by_cases hc : c' = c
      · subst hc
        exact h.resume L ht hside hrun (Net.Honest.server hhonest rfl)
      · have hby := taskStep_obs L ht
        refine h.aside L hside hrun ?_ ?_ ?_ (hkey rfl (put_tasks_ne (Ne.symm hc)))
        · exact tally_of_not L (hby.of fun hp => hc (Party.server.inj hp).symm)
        · exact tally_of_not L (hby.of fun hp => by cases hp)
        · cases i <;> simp [Net.Act.toServer, hc]
    · exact h.aside L hside hrun rfl rfl rfl (hkey rfl rfl)
  · exact ⟨e, h.client_step L hs hhonest.client horder⟩

/-- A client that did not connect yet, at a server that did not see its connection yet. -/
theorem locked_init {S : Sys K} (hS : S.server.WfRefs) (hwf : ∀ c, (S.tasks c).Wf S.server)
    (hidle : S.tasks c = .idle) (peer : String) (password : Bytes) :
    Locked L c ⟨S, .init peer password, [], []⟩ [] .start .start [] where
  side := by
    refine ⟨hS, hwf, fun c' u _ hu => ?_, ?_⟩
    · rw [hidle] at hu
      cases hu
    · rw [hidle]
      rfl
  atEnd := atEnd_init peer password
  link := .nil
  nonces := ⟨rfl, rfl, rfl⟩
  server := by
    rw [hidle]
    exact ⟨.empty L c [], fun k hk => (by cases hk), ⟨rfl, .nil⟩, fun h ht => (by cases ht)⟩
  client := ⟨.inr ⟨rfl, rfl⟩, ⟨[], rfl, rfl⟩, .nil L, fun k hk => (by cases hk), List.nil_prefix,
    fun _ => Nat.zero_le _, fun hc => (by cases hc), fun _ => rfl, ⟨rfl, .nil⟩⟩

/-! ## What it means -/

/-- The frames of a buffer verify, under the nonces from `n` on. -/
inductive Verifying (k : K) : ℕ → Bytes → Prop
  | more {n : ℕ} {b : Bytes} : packetFraming.cut b = .more → Verifying k n b
  | frame {n : ℕ} {b f r data : Bytes} {rem : Option Bytes} : packetFraming.cut b = .frame f r →
      verifyPacket L f (some k) n = .ok (.payload data rem) → Verifying k (n + 1) r → Verifying k n b

theorem inlet_reads {key b feed : Bytes} {j : ℕ} (hn : Numbered L c xs)
    (hk : L.exchange c L.clientPublic = some k) (hin : Inlet (stream L key xs) (j + 1) b feed) :
    Verifying L k j b := by
  induction b using packetFraming.buffer_induct generalizing j with
  | h b ih =>
    rcases hin.cut packetFraming cut_nil (hn.complete L _) with hc | ⟨f, r, hm, hc, hr⟩
    · exact .more hc
    · obtain ⟨x, hx, rfl⟩ := next_packet L hm
      obtain ⟨hnonce, hkey, hp⟩ := hn j x hx
      obtain rfl : k = x.1 := Option.some.inj (hk.symm.trans hkey)
      have hv : verifyPacket L (packet L x) (some x.1) j = .ok (.payload x.2.2 none) := by
        rw [← hnonce]
        exact verify_construct L hp
      exact .frame hc hv (ih _ _ hc hr)

/-- **Lockstep**: in both directions the packets are built with the nonces 0, 1, 2, ..; what is
    written are the first of them, after the key of the writer; the peer opens the first of
    them, each with its own nonce; and whatever arrives next, the frames in it verify under
    the reader's counter. -/
structure Lockstep (c : ConnId) (N : Net K) (os : List (Obs K)) : Prop where
  clientNonces : ∀ m (x : K × ℕ × Bytes), (built L .client os)[m]? = some x → x.2.1 = m
  serverNonces : ∀ m (x : K × ℕ × Bytes), (built L (.server c) os)[m]? = some x → x.2.1 = m
  clientWrites : sends .client os <+: stream L L.clientPublic (built L .client os)
  serverWrites : sends (.server c) os <+: stream L (L.serverPublic c) (built L (.server c) os)
  serverOpens : opened (.server c) os <+: (built L .client os).map (opening L)
  clientOpens : opened .client os <+: (built L (.server c) os).map (opening L)
  serverReads : ∀ k n chunk, (N.sys.tasks c).AtEnd N.sys.server (.idle k n) → chunk <+: N.toServer →
    Verifying L k n ((N.sys.tasks c).buffer ++ chunk)
  clientReads : ∀ k b chunk, N.client.cipher = some k → N.client.reading = some b →
    chunk <+: N.toClient → Verifying L k N.client.rxNonce (b ++ chunk)

/-- A coroutine stands at one state of the end. -/
theorem Task.AtEnd.unique (h : t.AtEnd s e) (h' : t.AtEnd s e') : e = e' := by
  cases t with
  | idle => exact Eq.trans h (Eq.symm h')
  | «over» x => exact Eq.trans h (Eq.symm h')
  | handler h₀ =>
    obtain ⟨k, n, ⟨cl, hcl, hk, htx, hrx⟩, rfl⟩ := h
    obtain ⟨k', n', ⟨cl', hcl', hk', htx', hrx'⟩, rfl⟩ := h'
    obtain rfl : cl = cl' := Option.some.inj (hcl.symm.trans hcl')
    obtain rfl : k = k' := Option.some.inj (hk.symm.trans hk')
    obtain rfl : n = n' := htx.symm.trans htx'
    rfl
  | accept a =>
    cases a with
    | publicKey | sendPublic => exact Eq.trans h (Eq.symm h')
    | password | sendAck | login | sendUnknown => exact h.2.2.trans h'.2.2.symm
    | sendLogin => exact h.2.2.1.trans h'.2.2.1.symm

/-- What an end wrote are the first of its messages. -/
theorem Spoken.prefix {key : Bytes} {sends : List Bytes} (ys : List (K × ℕ × Bytes))
    (h : Spoken L key sends xs) : sends <+: Pipebomb.stream L key (xs ++ ys) := by
  rcases h with rfl | ⟨rfl, rfl⟩
  · rw [Pipebomb.stream, Pipebomb.stream, List.map_append, ← List.cons_append]
    exact List.prefix_append _ _
  · exact List.nil_prefix

theorem Locked.lockstep (h : Locked L c N os e f xs) : Lockstep L c N os := by
  obtain ⟨pending, hb, -⟩ := h.client.built
  have hb' : built L .client os = xs ++ pending := hb
  refine ⟨fun m x hx => (h.client.numbered m x hx).1, fun m x hx => (h.server.exchange.numbered m x hx).1,
    ?_, ?_, ?_, h.client.opened, ?_, ?_⟩
  · rw [hb']
    exact h.client.said.prefix L pending
  · have hsaid := h.server.exchange.said.prefix L []
    rwa [List.append_nil] at hsaid
  · rw [hb', List.map_append]
    exact h.server.exchange.opened.trans (List.prefix_append _ _)
  · intro k n chunk hat hchunk
    obtain rfl := h.side.atEnd.unique hat
    have hkeyed : (N.sys.tasks c).Keyed := by
      rcases hat.keyed with hk | ⟨-, he⟩ | he
      · exact hk
      · cases he
      · cases he
    obtain ⟨hfeeding, hin⟩ := h.feeding L hkeyed
    obtain rfl := hfeeding.place k n rfl
    exact inlet_reads L (h.numbered L) (h.server.key k rfl) (hin.arrive hchunk)
  · intro k b chunk hk hb hchunk
    have hkeyed : N.client.Keyed := by
      rw [RawClient.Keyed]
      rcases hc : N.client.connection with _ | _ | b' | _ | b' | _ | b' | _ | e'
      case idle | sendPublic | serverKey => simp [RawClient.reading, hc] at hb
      all_goals trivial
    have hfeeding := h.clientFeeding L hkeyed
    obtain ⟨hrx, hin⟩ := hfeeding.place b hb
    rw [hrx]
    exact inlet_reads L hfeeding.numbered (h.client.key k hk) (hin.arrive hchunk)

end Pipebomb
