/-
  The mail between sessions.

  A request that is put into an inbox is delivered once and in order, and a response can be
  collected until the next collection.

  * `Mail` is what the senders and the owners of the boxes see: a request, or a reply that
    is sent.  `Post.step` says what it does to the boxes, `Mail.Right` which replies are
    right.
  * `step_post`: a step of the server that ends no handler is one mail or none.
  * `mail_exactly_once`: what follows for the mail of a run.
-/
import Pipebomb.Names
import Pipebomb.Fields

namespace Pipebomb

open ByteString

/-! ## The post -/

/-- The mail in the boxes. -/
@[ext] structure Post where
  inbox : PyStr → List Request
  outbox : PyStr → Bytes → Option Response

inductive Mail where
  /-- a request is put into the inbox of `u` -/
  | post (u : PyStr) (q : Request)
  /-- `u` gets a request -/
  | deliver (u : PyStr) (reply : Bytes)
  /-- a response is written to the outbox of `u` -/
  | respond (u : PyStr) (p : Response)
  /-- `u` asks for the response with the id -/
  | collect (u : PyStr) (id reply : Bytes)
  deriving DecidableEq, Repr

/-- The answer to GET_OUTBOX. -/
def collectReply : Option Response → Except PyErr Bytes
  | none => errDispatch 7
  | some p => outboxReply p

namespace Post

def empty : Post := ⟨fun _ => [], fun _ _ => none⟩

/-- Change the inbox of a session. -/
def setInbox (P : Post) (u : PyStr) (qs : List Request) : Post :=
  { P with inbox := Function.update P.inbox u qs }

/-- Change what is in the outbox of a session at an id. -/
def setOutbox (P : Post) (u : PyStr) (id : Bytes) (p : Option Response) : Post :=
  { P with outbox := Function.update P.outbox u (Function.update (P.outbox u) id p) }

def step (P : Post) : Mail → Post
  | .post u q => P.setInbox u (P.inbox u ++ [q])
  | .deliver u _ => P.setInbox u (P.inbox u).tail
  | .respond u p => P.setOutbox u p.response_uuid (some p)
  | .collect u id _ => P.setOutbox u id none

end Post

/-- The reply is the one for what is in the boxes. -/
def Mail.Right (P : Post) : Mail → Prop
  | .deliver u reply => ∃ q qs, P.inbox u = q :: qs ∧ inboxReply q = .ok reply
  | .collect u id reply => collectReply (P.outbox u id) = .ok reply
  | .post _ _ | .respond _ _ => True

/-! ## What a session sees -/

/-- The request in a mail to `u`. -/
def Mail.posted (u : PyStr) : Mail → Option Request
  | .post u' q => if u' = u then some q else none
  | _ => none

/-- The reply to GET_INBOX of `u`. -/
def Mail.delivered (u : PyStr) : Mail → Option Bytes
  | .deliver u' reply => if u' = u then some reply else none
  | _ => none

/-- The requests for `u`. -/
def posted (u : PyStr) (ms : List Mail) : List Request := ms.filterMap (Mail.posted u)

/-- The replies to GET_INBOX of `u`. -/
def delivered (u : PyStr) (ms : List Mail) : List Bytes := ms.filterMap (Mail.delivered u)

/-- The response with the id that was written to the outbox of `u` last and was not
    collected since. -/
def pending (u : PyStr) (id : Bytes) (ms : List Mail) : Option Response :=
  ms.foldl (fun old m => match m with
    | .respond u' p => if u' = u ∧ p.response_uuid = id then some p else old
    | .collect u' id' _ => if u' = u ∧ id' = id then none else old
    | _ => old) none

/-- An answer to GET_OUTBOX is the pending response, or that there is none. -/
def Mail.Collects (before : List Mail) : Mail → Prop
  | .collect u id reply => collectReply (pending u id before) = .ok reply
  | _ => True

theorem posted_snoc (u : PyStr) (ms : List Mail) (m : Mail) :
    posted u (ms ++ [m]) = posted u ms ++ (m.posted u).toList := by
  rw [posted, List.filterMap_append]
  rcases h : m.posted u with _ | q
  · simp [posted, h]
  · simp [posted, h]

theorem delivered_snoc (u : PyStr) (ms : List Mail) (m : Mail) :
    delivered u (ms ++ [m]) = delivered u ms ++ (m.delivered u).toList := by
  rw [delivered, List.filterMap_append]
  rcases h : m.delivered u with _ | q
  · simp [delivered, h]
  · simp [delivered, h]

variable {P : Post} {ms : List Mail} {m : Mail}

/-- The boxes hold what was posted and not delivered, and what was written and not
    collected. -/
structure Post.Holds (P : Post) (ms : List Mail) : Prop where
  inbox : ∀ u, (delivered u ms).map Call.readRequest ++ (P.inbox u).map .ok =
    (posted u ms).map .ok
  outbox : ∀ u id, P.outbox u id = pending u id ms
  collected : Lts.Each Mail.Collects ms

theorem Post.holds_empty : Post.empty.Holds [] := ⟨fun _ => rfl, fun _ _ => rfl, .nil⟩

/-- What is delivered comes from the front, what is posted goes to the end. -/
theorem Mail.Right.inbox (hm : m.Right P) (u : PyStr) :
    (m.delivered u).toList.map Call.readRequest ++ ((P.step m).inbox u).map .ok =
      (P.inbox u).map .ok ++ (m.posted u).toList.map .ok := by
  cases m with
  | post u' q =>
    simp only [Mail.delivered, Mail.posted, Post.step, Post.setInbox, Function.update_apply]
    by_cases hu : u' = u
    · subst hu
      simp
    · simp [hu, Ne.symm hu]
  | deliver u' reply =>
    obtain ⟨q, qs, hq, hreply⟩ := hm
    simp only [Mail.delivered, Mail.posted, Post.step, Post.setInbox, Function.update_apply]
    by_cases hu : u' = u
    · subst hu
      simp [hq, readRequest_inboxReply hreply]
    · simp [hu, Ne.symm hu]
  | respond u' p => simp [Mail.delivered, Mail.posted, Post.step, Post.setOutbox]
  | collect u' id reply => simp [Mail.delivered, Mail.posted, Post.step, Post.setOutbox]

theorem Post.setOutbox_outbox (P : Post) (u u' : PyStr) (id id' : Bytes) (p : Option Response) :
    (P.setOutbox u' id' p).outbox u id = if u' = u ∧ id' = id then p else P.outbox u id := by
  simp only [Post.setOutbox, Function.update_apply]
  by_cases hu : u = u'
  · subst hu
    by_cases hid : id = id'
    · subst hid; simp
    · simp [hid, Ne.symm hid]
  · simp [hu, Ne.symm hu]

/-- **A right mail keeps the boxes up to date.** -/
theorem Post.Holds.step (hP : P.Holds ms) (hm : m.Right P) : (P.step m).Holds (ms ++ [m]) := by
  refine ⟨fun u => ?_, fun u id => ?_, hP.collected.snoc ?_⟩
  · rw [delivered_snoc, posted_snoc, List.map_append, List.map_append, List.append_assoc,
      hm.inbox u, ← List.append_assoc, hP.inbox]
  · rw [pending, List.foldl_append]
    cases m with
    | post u' q => exact hP.outbox u id
    | deliver u' reply => exact hP.outbox u id
    | respond u' p => exact (P.setOutbox_outbox ..).trans (by rw [hP.outbox]; rfl)
    | collect u' id' reply => exact (P.setOutbox_outbox ..).trans (by rw [hP.outbox]; rfl)
  · cases m with
    | collect u' id' reply =>
      rw [Mail.Collects, ← hP.outbox]
      exact hm
    | _ => trivial

/-! ## The server as a post -/

def Office.post (O : Office) : Post :=
  ⟨fun u => ((O.boxes u).map Box.inbox).getD [], fun u id => (O.boxes u).bind (·.outbox id)⟩

/-- The mail in an answered request. -/
def mailOf (u : PyStr) (data reply : Bytes) : Option Mail :=
  match data with
  | [] => none
  | type_ :: value => match command type_ with
    | .putInbox => match splitBody 3 value with
      | .ok [target, request, key] =>
        some (.post (latin1Decode target) ⟨latin1 u, key, request, reply⟩)
      | _ => none
    | .getInbox => some (.deliver u reply)
    | .putOutbox => match splitBody 4 value with
      | .ok [target, response, key, requestUuid] =>
        some (.respond (latin1Decode target) ⟨key, response, requestUuid⟩)
      | _ => none
    | .getOutbox => some (.collect u value reply)
    | _ => none

variable {K : Type} (L : Libs K)

def Obs.mail : Obs K → Option Mail
  | .answered _ u data reply => mailOf u data reply
  | _ => none

/-- **The mail of a run.** -/
def mail (os : List (Obs K)) : List Mail := os.filterMap Obs.mail

/-- The effect touches no mail. -/
def Effect.Silent (O : Office) : Effect → Prop
  | .kv _ | .register _ _ | .unregister _ _ => True
  | .login u => O.boxes u = none
  | _ => False

/-- The effect is seen as a mail, or touches none. -/
inductive Seen (O : Office) : Option Effect → Option Mail → Prop
  | silent {e : Option Effect} : (∀ x ∈ e, x.Silent O) → Seen O e none
  | post {u : PyStr} {q : Request} : O.boxes u ≠ none → Seen O (some (.put u q)) (some (.post u q))
  | deliver {u : PyStr} {b : Box} {q : Request} {qs : List Request} {reply : Bytes} :
      O.boxes u = some b → b.inbox = q :: qs → inboxReply q = .ok reply →
      Seen O (some (.take u)) (some (.deliver u reply))
  | respond {u : PyStr} {p : Response} : O.boxes u ≠ none →
      Seen O (some (.write u p)) (some (.respond u p))
  | collect {u : PyStr} {b : Box} {id reply : Bytes} : O.boxes u = some b →
      collectReply (b.outbox id) = .ok reply →
      Seen O (some (.consume u id)) (some (.collect u id reply))

/-- A change of a box, seen from the post. -/
theorem post_modifyBox {O : Office} {u : PyStr} {b : Box} (hu : O.boxes u = some b) (f : Box → Box) :
    (O.modifyBox u f).post = ⟨Function.update O.post.inbox u (f b).inbox,
      Function.update O.post.outbox u (f b).outbox⟩ := by
  refine Post.ext ?_ ?_
  · funext u'
    by_cases h : u' = u
    · subst h
      simp [Office.post, hu]
    · simp [Office.post, Office.modifyBox_boxes_ne _ h, Function.update_of_ne h]
  · funext u'
    by_cases h : u' = u
    · subst h
      simp [Office.post, hu]
    · simp [Office.post, Office.modifyBox_boxes_ne _ h, Function.update_of_ne h]

/-- Names are no mail. -/
theorem post_modifyBox_names (O : Office) (u : PyStr) {f : Box → Box}
    (hf : ∀ b, (f b).inbox = b.inbox ∧ (f b).outbox = b.outbox) :
    (O.modifyBox u f).post = O.post := by
  have hbox : ∀ u', ((O.modifyBox u f).boxes u').map (fun b => (b.inbox, b.outbox)) =
      (O.boxes u').map (fun b => (b.inbox, b.outbox)) := by
    intro u'
    by_cases h : u' = u
    · subst h
      rw [Office.modifyBox_boxes_self, Option.map_map]
      congr 1
      funext b
      exact Prod.ext (hf b).1 (hf b).2
    · rw [Office.modifyBox_boxes_ne _ h]
  refine Post.ext ?_ ?_
  · funext u'
    have := congrArg (fun x => (x.map Prod.fst).getD []) (hbox u')
    simpa [Office.post, Option.map_map, Function.comp_def] using this
  · funext u' id
    have := congrArg (fun x => x.bind fun y => y.2 id) (hbox u')
    simpa [Office.post, Option.bind_map, Function.comp_def] using this

theorem Effect.Silent.post {O : Office} {e : Effect} (he : e.Silent O) : (O.apply e).post = O.post := by
  cases e with
  | kv op => rfl
  | register u name => exact post_modifyBox_names O u fun _ => ⟨rfl, rfl⟩
  | unregister u name => exact post_modifyBox_names O u fun _ => ⟨rfl, rfl⟩
  | login u =>
    have hnone : O.boxes u = none := he
    refine Post.ext ?_ ?_
    · funext u'
      by_cases h : u' = u
      · subst h
        simp [Office.post, Office.apply, hnone, Box.empty]
      · simp [Office.post, Office.apply, Function.update_of_ne h]
    · funext u'
      by_cases h : u' = u
      · subst h
        simp [Office.post, Office.apply, hnone, Box.empty]
      · simp [Office.post, Office.apply, Function.update_of_ne h]
  | put u q => exact he.elim
  | take u => exact he.elim
  | write u p => exact he.elim
  | consume u id => exact he.elim
  | leave u name => exact he.elim

/-- **An effect that is seen as a mail is the mail.** -/
theorem Seen.post_step {O : Office} {e : Option Effect} {m : Option Mail} (h : Seen O e m) :
    (O.applyAll e).post = m.toList.foldl Post.step O.post ∧ ∀ x ∈ m, x.Right O.post := by
  have hbox : ∀ {u b}, O.boxes u = some b →
      O.post.inbox u = b.inbox ∧ O.post.outbox u = b.outbox := by
    intro u b hu
    simp [Office.post, hu]
  cases h with
  | silent hs =>
    refine ⟨?_, fun x hx => (by cases hx)⟩
    rcases e with _ | e
    · rfl
    · exact (hs e rfl).post
  | post hu =>
    rename_i u q
    obtain ⟨b, hb⟩ := Option.ne_none_iff_exists'.1 hu
    obtain ⟨hin, hout⟩ := hbox hb
    refine ⟨?_, fun x hx => (by cases hx; trivial)⟩
    refine (post_modifyBox hb (Box.put q)).trans (Post.ext ?_ ?_)
    · simp [Post.step, Post.setInbox, Box.put, hin]
    · simp [Post.step, Post.setInbox, Box.put, ← hout]
  | deliver hb hq hr =>
    rename_i u b q qs reply
    obtain ⟨hin, hout⟩ := hbox hb
    refine ⟨?_, fun x hx => (by cases hx; exact ⟨q, qs, hin.trans hq, hr⟩)⟩
    refine (post_modifyBox hb Box.take).trans (Post.ext ?_ ?_)
    · simp [Post.step, Post.setInbox, Box.take, hin]
    · simp [Post.step, Post.setInbox, Box.take, ← hout]
  | respond hu =>
    rename_i u p
    obtain ⟨b, hb⟩ := Option.ne_none_iff_exists'.1 hu
    obtain ⟨hin, hout⟩ := hbox hb
    refine ⟨?_, fun x hx => (by cases hx; trivial)⟩
    refine (post_modifyBox hb (Box.write p)).trans (Post.ext ?_ ?_)
    · simp [Post.step, Post.setOutbox, Box.write, ← hin]
    · simp [Post.step, Post.setOutbox, Box.write, hout]
  | collect hb hr =>
    rename_i u b id reply
    obtain ⟨hin, hout⟩ := hbox hb
    refine ⟨?_, fun x hx => (by cases hx; exact (congrArg (collectReply <| · id) hout).trans hr)⟩
    refine (post_modifyBox hb (Box.consume id)).trans (Post.ext ?_ ?_)
    · simp [Post.step, Post.setOutbox, Box.consume, ← hin]
    · simp [Post.step, Post.setOutbox, Box.consume, hout]

/-! ## Steps of a handler -/

/-- Every object is the one of a session. -/
def Server.Live (s : Server K) : Prop := ∀ r < s.fresh, s.clientDb.get? (s.objs r).uuid = some r

def Task.isHandler {A : Type} : Task A → Bool
  | .handler _ => true
  | _ => false

section
variable {s : Server K} {c : ConnId} {h : Handler} {i : Input} {draw : Uuid4}
  {out : Outcome K (Accepting K)} {os : List (Obs K)}

theorem mail_append (os os' : List (Obs K)) : mail (os ++ os') = mail os ++ mail os' :=
  List.filterMap_append

theorem Inner.mail (hin : Inner os) : mail os = [] := by
  rw [Pipebomb.mail, List.filterMap_eq_nil_iff]
  intro x hx
  have := hin x hx
  cases x <;> first | rfl | exact this.elim

theorem Sends.office_mail {reply : Except PyErr Bytes} {held : Held} {after : After}
    (hs : Sends L s c h reply held after out) (hto : out.2.1.isHandler) :
    ∃ data, reply = .ok data ∧
      mail out.2.2 = if after = .next then (mailOf h.uuid h.data data).toList else [] := by
  cases hs with
  | fail => cases hto
  | start he hin =>
    rename_i data pkt os
    refine ⟨data, he, ?_⟩
    rw [mail_append, hin.mail]
    split_ifs
    · rcases hm : mailOf h.uuid h.data data with _ | m
      · simp [Pipebomb.mail, List.filterMap_cons, Obs.mail, hm]
      · simp [Pipebomb.mail, List.filterMap_cons, Obs.mail, hm]
    · rfl

/-- A command that is answered at once. -/
theorem dispatch_seen {u : PyStr} {data reply : Bytes}
    (hd : (dispatch s u data draw).2 = .reply reply) :
    Seen s.office (payloadEffect s u data draw) (mailOf u data reply) := by
  have hanswer : ∀ {e}, (∀ x ∈ e, Effect.Silent s.office x) → Seen s.office e none := .silent
  cases data with
  | nil => cases hd
  | cons type_ value =>
    simp only [dispatch] at hd
    simp only [payloadEffect, mailOf]
    rcases hc : command type_ with op | _ | _ | _ | _ | _ | _ | _ | _ | _ | _
    · exact .silent fun x hx => (by cases hx)
    · refine .silent fun x hx => ?_
      simp only at hx
      split_ifs at hx
      · cases hx
      · cases hx; trivial
    · refine .silent fun x hx => ?_
      simp only at hx
      split_ifs at hx
      · cases hx; trivial
      · cases hx
    · exact .silent fun x hx => (by cases hx)
    · simp only [hc] at hd
      cases hd
    · exact .silent fun x hx => (by cases hx)
    · simp only [hc, putInbox] at hd
      split at hd
      · rename_i target request key hbody
        simp only [hbody]
        rcases hu : s.clientDb.get? (latin1Decode target) with _ | r
        · simp only [hu] at hd
          cases hd
        · simp only [hu] at hd
          rcases hl : latin1Encode u with e | sender
          · simp only [hl] at hd
            cases hd
          · simp only [hl] at hd
            cases hd
            have hmem : latin1Decode target ∈ s.clientDb := Dict.mem_of_get? hu
            obtain ⟨-, rfl⟩ := latin1Encode_ok hl
            rw [if_pos hmem]
            exact .post (boxes_ne_none.2 hmem)
      · cases hd
      · cases hd
    · simp only [hc] at hd
      split at hd
      · cases hd
      · cases hd
    · simp only [hc] at hd
      simp only [putOutbox] at hd
      split at hd
      · split at hd
        · cases hd
        · cases hd
      · cases hd
      · cases hd
    · simp only [hc] at hd
      split at hd
      · cases hd
      · cases hd
    · exact .silent fun x hx => (by cases hx)

/-- A command that waits did nothing yet. -/
theorem dispatch_wait_effect {u : PyStr} {data : Bytes} {pc : Await}
    (hd : (dispatch s u data draw).2 = .wait pc) : payloadEffect s u data draw = none := by
  obtain ⟨type_, value, rfl, -, ⟨op, hc, -⟩ | ⟨r, hc, -⟩ | ⟨r, p, hc, -⟩ | ⟨r, hc, -⟩⟩ :=
    dispatch_wait hd
  · simp only [payloadEffect, hc]
  · simp only [payloadEffect, hc]
  · simp only [payloadEffect, hc]
  · simp only [payloadEffect, hc]

theorem Proceeds.seen {data : Bytes} (hp : Proceeds L c h (dispatch s h.uuid data draw) out)
    (hdata : h.data = data) (hto : out.2.1.isHandler) :
    ∃ m, mail out.2.2 = m.toList ∧ Seen s.office (payloadEffect s h.uuid data draw) m := by
  cases hp with
  | reply hn hs =>
    obtain ⟨_, ⟨⟩, hmail⟩ := hs.office_mail L hto
    rw [if_pos rfl, hdata] at hmail
    exact ⟨_, hmail, dispatch_seen hn⟩
  | wait hn =>
    rw [dispatch_wait_effect hn]
    exact ⟨none, rfl, .silent fun _ hx => (by cases hx)⟩
  | raise => cases hto
  | bye => cases hto

/-- **What is seen of a step of a handler that goes on.** -/
theorem Move.seen (hw : s.WfRefs) (hlive : s.Live) (hh : h.Wf s) (hm : Move L s c h i draw out)
    (hto : out.2.1.isHandler) :
    ∃ m, mail out.2.2 = m.toList ∧
      Seen s.office (h.effect s i draw (acceptedOn c out.2.2)) m := by
  have hsilent : ∃ m, ([] : List Mail) = m.toList ∧ Seen s.office none m :=
    ⟨none, rfl, .silent fun _ hx => (by cases hx)⟩
  have hbox : ∀ {r u}, r < s.fresh → (s.objs r).uuid = u → s.session r = some u ∧
      s.office.boxes u = some (s.objs r).box := by
    rintro r u hr rfl
    have hu := hlive r hr
    refine ⟨session_of_get? hw hu, ?_⟩
    rw [office_boxes, Server.client, hu]
    rfl
  cases hm with
  | still hr _ hin =>
    rw [effect_reads hr, hin.acceptedOn, hin.mail]
    exact hsilent
  | refuse hr hu hid hin hs =>
    obtain ⟨_, -, hmail⟩ := hs.office_mail L hto
    rw [effect_reads hr, seen_obs, acceptedOn_append, hin.acceptedOn, hs.acceptedOn, mail_append,
      hin.mail, hmail]
    exact hsilent
  | payload hr hu hid hv hin hp =>
    rename_i r h' frame rem os out
    have hdata : acceptedOn c (os ++ [Obs.accepted (.server c) h'.data]) = some h'.data := by
      rw [acceptedOn_append, hin.acceptedOn]
      simp [Pipebomb.acceptedOn]
    have hmail : mail (os ++ [Obs.accepted (.server c) h'.data]) = [] := by
      rw [mail_append, hin.mail]
      rfl
    have hreceived : ∀ cl : Client K, cl.received.box = cl.box := fun _ => rfl
    rw [← hid] at hp
    obtain ⟨m, hm, hs⟩ := hp.seen L rfl hto
    rw [office_modify_link hreceived, hid, payloadEffect_modify_link hreceived] at hs
    rw [effect_reads hr, seen_obs, acceptedOn_append, hdata, mail_append, hmail]
    exact ⟨m, hm, hs⟩
  | db hpc hi hl hs =>
    rename_i op
    obtain ⟨type_, value, hdata, hc⟩ := hh.dbLock hpc
    obtain ⟨reply, -, hmail⟩ := hs.office_mail L hto
    have hnone : mailOf h.uuid h.data reply = none := by
      rw [hdata]
      simp only [mailOf, hc]
    refine ⟨none, by rw [hmail, if_pos rfl, hnone], .silent fun x hx => ?_⟩
    simp only [Handler.effect, hpc, hi] at hx
    obtain ⟨kv, -, rfl⟩ := Option.map_eq_some_iff.1 hx
    trivial
  | inboxGet hpc hi hq hs =>
    rename_i r q qs
    obtain ⟨⟨type_, value, hdata, hc⟩, hr, hid⟩ := hh.inboxGet hpc
    obtain ⟨reply, hreply, hmail⟩ := hs.office_mail L hto
    obtain ⟨hsession, hboxes⟩ := hbox hr hid
    have hm : mailOf h.uuid h.data reply = some (.deliver h.uuid reply) := by
      rw [hdata]
      simp only [mailOf, hc]
    refine ⟨_, by rw [hmail, if_pos rfl, hm], ?_⟩
    simp only [Handler.effect, hpc, hi, hsession]
    exact .deliver hboxes hq hreply
  | outboxPut hpc hi hl hs =>
    rename_i r p
    obtain ⟨⟨type_, value, target, hdata, hc, hbody, hid⟩, hr⟩ := hh.outboxPut hpc
    obtain ⟨reply, -, hmail⟩ := hs.office_mail L hto
    obtain ⟨hsession, hboxes⟩ := hbox hr hid
    have hm : mailOf h.uuid h.data reply = some (.respond (latin1Decode target) p) := by
      rw [hdata]
      simp only [mailOf, hc, hbody]
    refine ⟨_, by rw [hmail, if_pos rfl, hm], ?_⟩
    simp only [Handler.effect, hpc, hi, hsession]
    exact .respond (by rw [hboxes]; simp)
  | outboxNone hpc hi hl hg hs =>
    rename_i r id
    obtain ⟨⟨type_, hdata, hc⟩, hr, hid⟩ := hh.outboxGet hpc
    obtain ⟨reply, hreply, hmail⟩ := hs.office_mail L hto
    obtain ⟨hsession, hboxes⟩ := hbox hr hid
    have hm : mailOf h.uuid h.data reply = some (.collect h.uuid id reply) := by
      rw [hdata]
      simp only [mailOf, hc]
    refine ⟨_, by rw [hmail, if_pos rfl, hm], ?_⟩
    simp only [Handler.effect, hpc, hi, hsession]
    refine .collect hboxes ?_
    have hnone : (s.objs r).box.outbox id = none := hg
    rw [hnone]
    exact hreply
  | outboxGet hpc hi hl hg hs =>
    rename_i r id p
    obtain ⟨⟨type_, hdata, hc⟩, hr, hid⟩ := hh.outboxGet hpc
    obtain ⟨reply, hreply, hmail⟩ := hs.office_mail L hto
    obtain ⟨hsession, hboxes⟩ := hbox hr hid
    have hm : mailOf h.uuid h.data reply = some (.collect h.uuid id reply) := by
      rw [hdata]
      simp only [mailOf, hc]
    refine ⟨_, by rw [hmail, if_pos rfl, hm], ?_⟩
    simp only [Handler.effect, hpc, hi, hsession]
    refine .collect hboxes ?_
    have hsome : (s.objs r).box.outbox id = some p := hg
    rw [hsome]
    exact hreply
  | sent hpc hi hu =>
    simp only [Handler.effect, hpc, hi]
    exact hsilent
  | close => cases hto
  | die => cases hto

/-- The sessions and their objects are the same. -/
structure SameSessions (s s' : Server K) : Prop where
  clientDb : s'.clientDb = s.clientDb
  fresh : s'.fresh = s.fresh
  uuid : ∀ r, (s'.objs r).uuid = (s.objs r).uuid

theorem SameSessions.trans {s s' s'' : Server K} (h : SameSessions s s') (h' : SameSessions s' s'') :
    SameSessions s s'' :=
  ⟨h'.1.trans h.1, h'.2.trans h.2, fun r => (h'.3 r).trans (h.3 r)⟩

theorem Quiet.sameSessions {s s' : Server K} (h : Quiet s s') : SameSessions s s' :=
  ⟨h.clientDb, h.fresh, fun r => (h.link r).uuid⟩

theorem SameSessions.modify (s : Server K) (r : Ref) {f : Client K → Client K}
    (hf : ∀ cl, (f cl).uuid = cl.uuid) : SameSessions s (s.modify r f) := by
  refine ⟨rfl, rfl, fun r' => ?_⟩
  rw [Server.modify_objs]
  split_ifs
  · exact hf _
  · rfl

theorem SameSessions.live {s s' : Server K} (h : SameSessions s s') (hlive : s.Live) : s'.Live := by
  intro r hr
  rw [h.fresh] at hr
  rw [h.clientDb, h.uuid]
  exact hlive r hr

theorem Sends.sameSessions {A : Type} {out : Outcome K A} {reply : Except PyErr Bytes} {held : Held}
    {after : After} (hs : Sends L s c h reply held after out) : SameSessions s out.1 := by
  rcases hs.server with hs | hs
  · rw [hs]
    exact (Quiet.refl s).sameSessions
  · rw [hs]
    exact (release_quiet s held).sameSessions

/-- A handler that goes on ends no session. -/
theorem Move.sameSessions (hm : Move L s c h i draw out) (hto : out.2.1.isHandler) :
    SameSessions s out.1 := by
  have hlink : ∀ r f, (∀ cl : Client K, (f cl).uuid = cl.uuid) → SameSessions s (s.modify r f) :=
    fun r _ hf => .modify s r hf
  cases hm with
  | still => exact (Quiet.refl s).sameSessions
  | refuse _ _ _ _ hs => exact (hlink _ Client.received fun _ => rfl).trans (hs.sameSessions L)
  | payload hr hu hid hv hin hp =>
    rename_i r h' frame rem os out
    have hd := (hlink r Client.received fun _ => rfl).trans
      (dispatch_quiet _ h.uuid h'.data draw).sameSessions
    cases hp with
    | reply _ hs => exact hd.trans (hs.sameSessions L)
    | wait => exact hd
    | raise => cases hto
    | bye => cases hto
  | db _ _ _ hs =>
    have hlock : Quiet s (s.setDbLock true) := ⟨rfl, rfl, fun _ => .refl _⟩
    exact (hlock.trans (dbOp_quiet _ _ _)).sameSessions.trans (hs.sameSessions L)
  | inboxGet _ _ _ hs =>
    exact (Quiet.modify s _ _ (.setInbox _)).sameSessions.trans (hs.sameSessions L)
  | outboxPut _ _ _ hs =>
    exact (Quiet.modify s _ _ (.setOutbox _)).sameSessions.trans (hs.sameSessions L)
  | outboxNone _ _ _ _ hs =>
    exact (Quiet.modify s _ _ (.setOutboxLock _)).sameSessions.trans (hs.sameSessions L)
  | outboxGet _ _ _ _ hs =>
    exact ((Quiet.modify s _ _ (.setOutboxLock _)).trans (.modify _ _ _ (.setOutbox _))).sameSessions.trans
      (hs.sameSessions L)
  | sent => exact (hlink _ Client.sent fun _ => rfl).trans (release_quiet _ _).sameSessions
  | close => cases hto
  | die => cases hto

theorem Server.Live.addSession (hlive : s.Live) {u : PyStr} (cl : Client K) (hu : u ∉ s.clientDb)
    (hcl : cl.uuid = u) : (s.addSession u cl).Live := by
  intro r hr
  rcases Nat.lt_succ_iff_lt_or_eq.1 hr with hr | rfl
  · have hne : (s.objs r).uuid ≠ u := fun he => hu (he ▸ Dict.mem_of_get? (hlive r hr))
    rw [Server.addSession_objs hr, Server.addSession_clientDb, Dict.get?_set_ne _ hne]
    exact hlive r hr
  · rw [Server.addSession_objs_fresh, hcl, Server.addSession_clientDb, Dict.get?_set_self]

/-- Nothing is mailed in a handshake. -/
theorem Joins.mail {a : Accepting K} (hj : Joins s c draw a out) : mail out.2.2 = [] := by
  have hshut : ∀ {os : List (Obs K)}, Shut os → Pipebomb.mail os = [] := by
    intro os hin
    rw [Pipebomb.mail, List.filterMap_eq_nil_iff]
    intro x hx
    have := hin x hx
    cases x <;> first | rfl | exact this.elim
  have hsession : ∀ (x : Obs K) (os : List (Obs K)), x.mail = none → Shut os →
      Pipebomb.mail (x :: os) = [] := by
    intro x os hx hin
    rw [Pipebomb.mail, List.filterMap_cons, hx]
    exact hshut hin
  cases hj with
  | still _ hin => exact hshut hin
  | login _ hin hin' =>
    rw [mail_append, hshut hin, List.nil_append]
    exact hsession (.session c draw.str) _ rfl hin'
  | attach hu ht hin hin' =>
    rename_i u r l t os os'
    rw [mail_append, hshut hin, List.nil_append]
    exact hsession (.relogin c u) _ rfl hin'
  | unknown => rfl
  | finish => rfl

/-- A handshake ends no session. -/
theorem Joins.live {a : Accepting K} (hlive : s.Live) (hj : Joins s c draw a out)
    (hfresh : ∀ c u, .session c u ∈ out.2.2 → u ∉ s.clientDb) : out.1.Live := by
  cases hj with
  | still => exact hlive
  | login => exact hlive.addSession _ (hfresh c draw.str (by simp)) rfl
  | attach => exact SameSessions.live (.modify s _ (f := Client.attach c _) fun _ => rfl) hlive
  | unknown =>
    rename_i l
    have hadd := hlive.addSession (.login c draw.str l.cipher (l.txNonce + 1) l.rxNonce)
      (hfresh c draw.str (by simp)) rfl
    exact SameSessions.live (.modify _ _ (f := Client.setNonces _ _) fun _ => rfl) hadd
  | finish => exact SameSessions.live (.modify s _ (f := Client.setNonces _ _) fun _ => rfl) hlive

end

/-! ## Runs -/

section
variable {S S' : Sys K} {a : Act} {o os : List (Obs K)}

/-- No handler ends in the step. -/
def Sys.Lasting (S : Sys K) (a : Act) : Prop :=
  match a with
  | .resume c _ _ => (S.tasks c).isHandler → ∀ x ∈ S.step L a, (x.1.tasks c).isHandler
  | _ => True

/-- Logins and requests, without disconnects and failing sends. -/
def Sys.Calm (S : Sys K) (a : Act) (o : List (Obs K)) : Prop :=
  S.Ordinary a o ∧ S.Lasting L a

/-- The sessions are live, and the boxes hold the mail. -/
structure Sys.Mailed (S : Sys K) (os : List (Obs K)) : Prop where
  sound : S.Sound
  live : S.server.Live
  holds : S.server.office.post.Holds (mail os)

/-- **A step is one mail or none.** -/
theorem step_post (hS : S.Sound) (hlive : S.server.Live) (hstep : S.step L a = some (S', o))
    (hok : S.Calm L a o) :
    S'.server.Live ∧ ∃ m : Option Mail, mail o = m.toList ∧
      S'.server.office.post = m.toList.foldl Post.step S.server.office.post ∧
      ∀ x ∈ m, x.Right S.server.office.post := by
  have hstep' := (step_step L hS.tidy hstep).1
  have hoffice := step_office L hS.refs hstep' hok.1.1
  suffices hs : S'.server.Live ∧
      ∃ m, mail o = m.toList ∧ Seen S.server.office (S.effect a o) m by
    obtain ⟨hlive', m, hm, hs⟩ := hs
    rw [hoffice]
    exact ⟨hlive', m, hm, hs.post_step⟩
  cases hstep' with
  | connect =>
    exact ⟨hlive, none, rfl, .silent fun _ hx => (by cases hx)⟩
  | join htask hj =>
    rename_i c i draw a s t
    have hfresh : ∀ c u, .session c u ∈ o → u ∉ S.server.clientDb :=
      fun c u hu => (hok.1.2 c u hu).1.1
    refine ⟨hj.live hlive hfresh, none, hj.mail, .silent fun x hx => ?_⟩
    obtain ⟨u, hu⟩ : ∃ u, x = .login u := by
      simp only [Sys.effect, htask] at hx
      obtain ⟨u, -, rfl⟩ := Option.map_eq_some_iff.1 hx
      exact ⟨u, rfl⟩
    subst hu
    obtain ⟨c, hc⟩ := effect_login hx
    exact not_not.1 fun h => hfresh c u hc (boxes_ne_none.1 h)
  | move htask hm =>
    rename_i c i draw h s t
    have hto : t.isHandler := by
      have hlast := hok.2 (by rw [htask]; rfl) _ hstep
      rwa [put_tasks_self] at hlast
    simp only [Sys.effect, htask]
    exact ⟨(hm.sameSessions L hto).live hlive,
      hm.seen L hS.refs hlive (hS.handlers c h htask) hto⟩
  | admin => exact hok.1.1.elim

/-- A step keeps the boxes up to date. -/
theorem step_mailed (h : S.Mailed os) (hstep : S.step L a = some (S', o)) (hok : S.Calm L a o) :
    S'.Mailed (os ++ o) := by
  obtain ⟨hlive, m, hm, hpost, hright⟩ := step_post L h.sound h.live hstep hok
  refine ⟨step_sound L h.sound hstep, hlive, ?_⟩
  rw [mail_append, hm, hpost]
  rcases m with _ | m
  · rw [Option.toList_none, List.append_nil]
    exact h.holds
  · exact h.holds.step (hright m rfl)

/-- **The mail of every run.**  What was delivered to a session and what is in its inbox
    are the requests that were posted to it, in their order; its outbox holds what was
    written and not collected since, and each collection got that. -/
theorem mail_exactly_once {password : Bytes} {keep : Bool}
    (hrun : Lts.Run (Lts.Guarded (Sys.step L) (Sys.Calm L)) (.init password keep) S os) :
    S.server.office.post.Holds (mail os) := by
  have hinit : (Sys.init password keep : Sys K).Mailed [] := by
    refine ⟨sound_init _ _, fun r hr => absurd hr (Nat.not_lt_zero r), ?_⟩
    exact Post.holds_empty
  exact (hrun.inv (I := fun (S : Sys K) os => S.Mailed os) hinit fun _ h ⟨_, hstep, hok⟩ =>
    step_mailed L h hstep hok).holds

end

/-! ## A run on fixed inputs -/

instance (S : Sys K) : ∀ a : Act, Decidable (S.Lasting L a)
  | .resume c i draw => inferInstanceAs (Decidable ((S.tasks c).isHandler →
      ∀ x ∈ S.step L (.resume c i draw), (x.1.tasks c).isHandler))
  | .connect _ | .admin _ => isTrue trivial

/-- Connection 1 posts a request to the session of 0, which takes it and answers; then 1
    collects the answer. -/
def exchange : List Act :=
  drawing sampleDraw 1 [.recv (stubPacket 1 2 ([0x2, 0, 0, 0, 36, 0, 0, 0, 1, 0, 0, 0, 1] ++
      latin1 sampleUuid ++ [9, 107])), .sent, .go] ++
    drawing sampleDraw 0 [.recv (stubPacket 0 2 [0x3]), .go, .sent, .go,
      .recv (stubPacket 0 3 ([0x4, 0, 0, 0, 36, 0, 0, 0, 1, 0, 0, 0, 1, 0, 0, 0, 16] ++
        latin1 otherUuid ++ [5, 107] ++ List.replicate 16 7)), .go, .sent, .go] ++
    drawing sampleDraw 1 [.recv (stubPacket 1 3 (0x5 :: List.replicate 16 7)), .go]

/-- The request and the response of the exchange arrive once. -/
theorem mail_exactly_once_sample : ∃ (S : Sys ℕ) (os : List (Obs ℕ)),
    S.server.office.post.Holds (mail os) ∧ mail os =
      [.post sampleUuid ⟨latin1 otherUuid, [107], [9], List.replicate 16 7⟩,
        .deliver sampleUuid ([0, 0, 0, 36, 0, 0, 0, 1, 0, 0, 0, 1, 0, 0, 0, 16] ++
          latin1 otherUuid ++ [9, 107] ++ List.replicate 16 7),
        .respond otherUuid ⟨[107], [5], List.replicate 16 7⟩,
        .collect otherUuid (List.replicate 16 7) [0, 0, 0, 1, 0, 0, 0, 1, 107, 5]] := by
  have hexec : ((Lts.exec (Sys.step stub) (twoLogins ++ exchange) (Sys.init [] false)).any fun x =>
      mail x.2 = [.post sampleUuid ⟨latin1 otherUuid, [107], [9], List.replicate 16 7⟩,
        .deliver sampleUuid ([0, 0, 0, 36, 0, 0, 0, 1, 0, 0, 0, 1, 0, 0, 0, 16] ++
          latin1 otherUuid ++ [9, 107] ++ List.replicate 16 7),
        .respond otherUuid ⟨[107], [5], List.replicate 16 7⟩,
        .collect otherUuid (List.replicate 16 7) [0, 0, 0, 1, 0, 0, 0, 1, 107, 5]]) = true := by
    decide +kernel
  have halong : Lts.Along (Sys.step stub)
      (fun S a o => S.OrdinaryBelow 2 a o ∧ S.Lasting stub a) (twoLogins ++ exchange)
      (Sys.init [] false) := by decide +kernel
  obtain ⟨⟨S, os⟩, hS, hos⟩ := Option.any_eq_true _ _ |>.1 hexec
  have hrun := Lts.exec_run hS (halong.imp (I := Sys.Below 2)
    (fun hS h => step_below stub hS h.1.2.1.1) (fun hS h => And.intro (h.1.ordinary hS) h.2)
    fun _ _ => rfl)
  exact ⟨S, os, mail_exactly_once stub hrun, of_decide_eq_true hos⟩

end Pipebomb
