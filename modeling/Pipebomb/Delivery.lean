/-
  A delivery that fails.

  GET_INBOX and GET_OUTBOX take the item out of the mailbox before they build and send the
  reply, and put nothing back.

  * `Sys.Fails`: the reply cannot be built, or the send raises, while the others leave the
    mailbox alone.
  * `nothing_put_back`: whatever the others do meanwhile, the exception changes no mailbox.
  * `failed_delivery`: the mailbox holds what it held before the request but for the item that
    was taken; `failed_delivery_iff`: it is the same if there was nothing to take.
-/
import Pipebomb.MailPath

namespace Pipebomb

open ByteString

variable {K : Type} (L : Libs K)

/-- The items in the mailbox of a client. -/
def Server.mailbox (s : Server K) (r : Ref) : List Request × Dict Bytes Response :=
  ((s.objs r).inbox, (s.objs r).outbox)

/-- The coroutine is about to take an item out of the mailbox `r`. -/
def Await.Fetches (r : Ref) : Await → Prop
  | .inboxGet r' => r' = r
  | .outboxGet r' _ => r' = r
  | _ => False

/-- The response that is asked for is not there. -/
def Await.Misses (s : Server K) : Await → Prop
  | .outboxGet r id => id ∉ (s.objs r).outbox
  | _ => False

/-- The mailbox without the item that the coroutine takes. -/
def Await.leaves (s : Server K) : Await → List Request × Dict Bytes Response
  | .inboxGet r => ((s.objs r).inbox.tail, (s.objs r).outbox)
  | .outboxGet r id => ((s.objs r).inbox, (s.objs r).outbox.erase id)
  | _ => ([], .empty)

/-- Another coroutine goes on, or an administrative call is made, and leaves the mailbox
    alone. -/
def Sys.Leaves (c : ConnId) (r : Ref) (S : Sys K) (a : Act) : Prop :=
  a.conn ≠ some c ∧ ∀ x ∈ S.step L a, x.1.server.mailbox r = S.server.mailbox r

/-- **The delivery fails**: the reply of the handler of `c` cannot be built, or it is sent and
    the send raises, also because the handler is cancelled. -/
inductive Sys.Fails (S : Sys K) (c : ConnId) (r : Ref) : Sys K → Prop
  | build {draw : Uuid4} {S' : Sys K} {o : List (Obs K)} {e : PyErr} :
      S.step L (.resume c .go draw) = some (S', o) → S'.tasks c = .over (some e) → S.Fails c r S'
  | send {draw draw' : Uuid4} {S₁ S₂ S' : Sys K} {o os o' : List (Obs K)} {e : PyErr} :
      S.step L (.resume c .go draw) = some (S₁, o) →
      Lts.Run (Lts.Guarded (Sys.step L) fun S a _ => S.Leaves L c r a) S₁ S₂ os →
      S₂.step L (.resume c (.raise e) draw') = some (S', o') → S.Fails c r S'

section
variable {s : Server K} {c : ConnId} {h : Handler} {i : Input} {draw : Uuid4} {r : Ref}
  {out : Outcome K (Accepting K)}

theorem modify_mailbox (s : Server K) (r r' : Ref) {f : Client K → Client K}
    (hin : ∀ cl, (f cl).inbox = cl.inbox) (hout : ∀ cl, (f cl).outbox = cl.outbox) :
    (s.modify r' f).mailbox r = s.mailbox r := by
  rw [Server.mailbox, Server.mailbox, Server.modify_objs]
  split_ifs
  · rw [hin, hout]
  · rfl

theorem release_mailbox (s : Server K) (held : Held) (r : Ref) :
    (s.release held).mailbox r = s.mailbox r := by
  cases held with
  | outboxLock r' => exact modify_mailbox s r r' (fun _ => rfl) fun _ => rfl
  | _ => rfl

theorem Sends.mailbox {reply : Except PyErr Bytes} {held : Held} {after : After}
    (hs : Sends L s c h reply held after out) (r : Ref) : out.1.mailbox r = s.mailbox r := by
  rcases hs.server with he | he
  · rw [he]
  · rw [he, release_mailbox]

/-- **What the request takes out of the mailbox.** -/
theorem take_mailbox {pc : Await} {data : Bytes} (hf : pc.Fetches r) :
    (pc.take s data).mailbox r = pc.leaves s := by
  cases pc with
  | inboxGet r' =>
    obtain rfl : r' = r := hf
    simp only [Await.take, Server.mailbox, Server.modify_objs_self, Client.setInbox, Await.leaves]
  | outboxGet r' id =>
    obtain rfl : r' = r := hf
    simp only [Await.take, Await.leaves]
    rcases hg : (s.objs r').outbox.get? id with _ | p
    · simp only [Server.mailbox, Server.modify_objs_self, Client.setOutboxLock,
        Dict.erase_of_not_mem (Dict.get?_eq_none.1 hg)]
    · simp only [Server.mailbox, Server.modify_objs_self, Client.setOutbox, Client.setOutboxLock]
  | _ => exact hf.elim

/-- Something was taken, unless the response is not there. -/
theorem leaves_eq_iff {pc : Await} {data : Bytes} {reply : Except PyErr Bytes} (hf : pc.Fetches r)
    (hr : pc.reply s data = some reply) : pc.leaves s = s.mailbox r ↔ pc.Misses s := by
  cases pc with
  | inboxGet r' =>
    obtain rfl : r' = r := hf
    refine iff_of_false (fun he => ?_) id
    have hlen := congrArg (fun x => x.1.length) he
    simp only [Await.leaves, Server.mailbox, List.length_tail] at hlen
    have hempty : (s.objs r').inbox = [] := List.length_eq_zero_iff.1 (by omega)
    simp only [Await.reply, hempty, List.head?_nil, Option.map_none] at hr
    cases hr
  | outboxGet r' id =>
    obtain rfl : r' = r := hf
    simp only [Await.leaves, Await.Misses, Server.mailbox, Prod.mk.injEq, true_and]
    refine ⟨fun he => ?_, Dict.erase_of_not_mem⟩
    rw [← Dict.get?_eq_none, ← he, Dict.get?_erase_self]
  | _ => exact hf.elim

theorem Await.Fetches.queues {pc : Await} (h : pc.Fetches r) : pc.Queues := by
  cases pc with
  | inboxGet r' => trivial
  | outboxGet r' id => trivial
  | _ => exact h.elim

end

section
variable {S S' : Sys K} {o : List (Obs K)} {c : ConnId} {h : Handler} {draw : Uuid4} {r : Ref}
  {e : PyErr}

/-- The exception of an await changes no mailbox. -/
theorem nothing_put_back (hstep : S.step L (.resume c (.raise e) draw) = some (S', o)) (r : Ref) :
    S'.server.mailbox r = S.server.mailbox r := by
  rcases step_cases L hstep with ⟨c', he, -, -, -⟩ | ⟨c', i, draw', s, t, he, ht, rfl⟩ | ⟨op, he, -, -⟩
  · cases he
  · cases he
    rw [put_server]
    rcases htask : S.tasks c with _ | a | h | e'
    · rw [htask] at ht; cases ht
    · rw [htask] at ht
      cases a <;> cases ht <;> rfl
    · rw [htask] at ht
      have hraise : handlerStep L S.server c h (.raise e) draw =
          some (raised S.server h.pc.held e : Outcome K (Accepting K)) := by
        unfold handlerStep
        rcases h.pc with _ | _ | _ | _ | _ | _ | _ | _ <;> rfl
      cases hraise.symm.trans ht
      exact release_mailbox _ _ _
    · rw [htask] at ht; cases ht
  · cases he

/-- The step that takes the item. -/
theorem fetch_step (hh : S.tasks c = .handler h) (hf : h.pc.Fetches r)
    (hstep : S.step L (.resume c .go draw) = some (S', o)) :
    S'.server.mailbox r = h.pc.leaves S.server ∧ ∃ reply, h.pc.reply S.server h.data = some reply := by
  obtain ⟨s, t, ho, rfl⟩ := step_handler L hh hstep
  rcases handlerStep_queues L hf.queues ho with ⟨reply, -, hreply, he⟩ | ⟨e, he, -⟩
  · have hs := (sendReply_sends (A := Accepting K) L (s := h.pc.take S.server h.data) (c := c) (h := h)
      reply h.pc.lock .next).mailbox L r
    rw [← he] at hs
    exact ⟨by rw [put_server, hs, take_mailbox hf], reply, hreply⟩
  · cases he

theorem Sys.Fails.leaves (hh : S.tasks c = .handler h) (hf : h.pc.Fetches r)
    (hfail : S.Fails L c r S') : S'.server.mailbox r = h.pc.leaves S.server ∧
      ∃ reply, h.pc.reply S.server h.data = some reply := by
  cases hfail with
  | build hstep _ => exact fetch_step L hh hf hstep
  | send hstep hothers hraise =>
    rename_i S₁ S₂ _ _ _ _
    obtain ⟨htaken, hreply⟩ := fetch_step L hh hf hstep
    have hsame : S₂.server.mailbox r = S₁.server.mailbox r :=
      hothers.inv (I := fun (S : Sys K) _ => S.server.mailbox r = S₁.server.mailbox r) rfl
        fun _ hI ⟨a, hstep, hleave⟩ => (hleave.2 _ hstep).trans hI
    exact ⟨by rw [nothing_put_back L hraise, hsame, htaken], hreply⟩

/-- **A failed delivery.**  In every state, when the reply to GET_INBOX or GET_OUTBOX cannot be
    built or sent, the mailbox holds what it held before the request, in the same order, but
    for the item that was taken: the first request of the inbox, or the response with the id. -/
theorem failed_delivery (hh : S.tasks c = .handler h) (hf : h.pc.Fetches r)
    (hfail : S.Fails L c r S') : S'.server.mailbox r = h.pc.leaves S.server :=
  (hfail.leaves L hh hf).1

/-- Nothing is lost exactly if there was nothing to take. -/
theorem failed_delivery_iff (hh : S.tasks c = .handler h) (hf : h.pc.Fetches r)
    (hfail : S.Fails L c r S') : S'.server.mailbox r = S.server.mailbox r ↔ h.pc.Misses S.server := by
  obtain ⟨hleaves, reply, hreply⟩ := hfail.leaves L hh hf
  rw [hleaves]
  exact leaves_eq_iff hf hreply

end

/-! ## Runs on fixed inputs -/

/-- The connection breaks. -/
def breakOff (c : ConnId) : Act := .resume c (.raise .osError) sampleDraw

/-- A step, and then an exception at the send. -/
theorem Sys.Fails.of_steps {S S₁ S' : Sys ℕ} {o o' : List (Obs ℕ)} {c : ConnId} (r : Ref)
    (h₁ : S.step stub (goOn c) = some (S₁, o)) (h₂ : S₁.step stub (breakOff c) = some (S', o')) :
    S.Fails stub c r S' := .send h₁ .nil h₂

/-- The reply to GET_OUTBOX cannot be sent. -/
theorem failed_delivery_sample : ∃ (S S' : Sys ℕ) (h : Handler), S.tasks 0 = .handler h ∧
    h.pc = .outboxGet 0 [1] ∧ [1] ∈ (S.server.objs 0).outbox ∧ S.Fails stub 0 0 S' ∧
    S'.server.mailbox 0 = ((S.server.objs 0).inbox, (S.server.objs 0).outbox.erase [1]) := by
  have hexec : ((Lts.exec (Sys.step stub) (respondActs [5] [] ++ goOn 1 :: readActs)
      (.init [] true)).any fun x => (x.1.tasks 0).handler?.any fun h => (x.1.step stub (goOn 0)).any fun y =>
        (y.1.step stub (breakOff 0)).any fun _ =>
          h.pc = .outboxGet 0 [1] && [1] ∈ (x.1.server.objs 0).outbox) = true := by decide +kernel
  obtain ⟨⟨S, os⟩, hS, hp⟩ := Option.any_eq_true _ _ |>.1 hexec
  obtain ⟨h, hh, hp⟩ := Option.any_eq_true _ _ |>.1 hp
  obtain ⟨⟨S₁, o⟩, hS₁, hp⟩ := Option.any_eq_true _ _ |>.1 hp
  obtain ⟨⟨S', o'⟩, hS', hp⟩ := Option.any_eq_true _ _ |>.1 hp
  simp only [Bool.and_eq_true, decide_eq_true_eq] at hp
  obtain ⟨hpc, hthere⟩ := hp
  have hfail := Sys.Fails.of_steps 0 hS₁ hS'
  have hleaves := failed_delivery stub (r := 0) (Task.eq_handler hh) (by rw [hpc]; rfl) hfail
  rw [hpc] at hleaves
  exact ⟨S, S', h, Task.eq_handler hh, hpc, hthere, hfail, hleaves⟩

/-- **A request is lost.**  The connection breaks while the request is sent; the session is
    kept, and its inbox is empty. -/
theorem request_lost : ∃ (S S' : Sys ℕ) (os : List (Obs ℕ)) (h : Handler),
    Lts.Run (Lts.Guarded (Sys.step stub) fun _ _ _ => True) (.init [] true) S os ∧
      S.tasks 0 = .handler h ∧ h.pc.Fetches 0 ∧ S.Fails stub 0 0 S' ∧
      (S.server.objs 0).inbox = [⟨latin1 otherUuid, [107, 107], [9], List.replicate 16 7⟩] ∧
      (S'.server.objs 0).inbox = [] ∧ S'.server.clientDb.get? sampleUuid = some 0 ∧
      S'.server.mailbox 0 ≠ S.server.mailbox 0 := by
  have hexec : ((Lts.exec (Sys.step stub) (twoLogins ++ [.resume 1 (.recv sampleRequest) sampleDraw,
      .resume 0 (.recv (stubPacket 0 2 [0x3])) sampleDraw]) (.init [] true)).any fun x =>
      (x.1.tasks 0).handler?.any fun h => (x.1.step stub (goOn 0)).any fun y =>
        (y.1.step stub (breakOff 0)).any fun z => h.pc = .inboxGet 0 &&
          (x.1.server.objs 0).inbox = [⟨latin1 otherUuid, [107, 107], [9], List.replicate 16 7⟩] &&
          (z.1.server.objs 0).inbox = [] &&
          z.1.server.clientDb.get? sampleUuid = some 0) = true := by decide +kernel
  have halong : Lts.Along (Sys.step stub) (fun _ _ _ => True) (twoLogins ++
      [.resume 1 (.recv sampleRequest) sampleDraw,
        .resume 0 (.recv (stubPacket 0 2 [0x3])) sampleDraw]) (.init [] true) := by decide +kernel
  obtain ⟨⟨S, os⟩, hS, hp⟩ := Option.any_eq_true _ _ |>.1 hexec
  obtain ⟨h, hh, hp⟩ := Option.any_eq_true _ _ |>.1 hp
  obtain ⟨⟨S₁, o⟩, hS₁, hp⟩ := Option.any_eq_true _ _ |>.1 hp
  obtain ⟨⟨S', o'⟩, hS', hp⟩ := Option.any_eq_true _ _ |>.1 hp
  simp only [Bool.and_eq_true, decide_eq_true_eq] at hp
  obtain ⟨⟨⟨hpc, hbox⟩, hempty⟩, hkept⟩ := hp
  refine ⟨S, S', os, h, Lts.exec_run hS halong, Task.eq_handler hh, by rw [hpc]; rfl,
    .of_steps 0 hS₁ hS', hbox, hempty, hkept, fun he => ?_⟩
  have hin := congrArg Prod.fst he
  simp only [Server.mailbox, hbox, hempty] at hin
  cases hin

end Pipebomb
