/-
  The server as a post office.

  The purpose of the server apart from connections and packets: a database, names that
  sessions register, and a box with names, requests and responses for each session.

  * `Office` is such a state, `Effect` what a request does to it.
  * `Sys.effect` is the effect of a step of the server, read off the payload that is
    processed or the await that ends.
  * `step_office`: every step of logins and requests changes the office by its effect, and
    the effect is a possible one (`Effect.Valid`).
-/
import Pipebomb.Sound

namespace Pipebomb

open ByteString

/-! ## The office -/

/-- The box of a session. -/
@[ext] structure Box where
  names : List PyStr
  inbox : List Request
  outbox : Bytes → Option Response

@[ext] structure Office where
  db : Bytes → Option Bytes
  book : PyStr → Option PyStr
  boxes : PyStr → Option Box

/-- A request about the database. -/
inductive KvOp where
  | set (key value : Bytes)
  | get (key : Bytes)
  | delete (key : Bytes)
  | list
  deriving DecidableEq, Repr

/-- The database after a request, as a plain map. -/
def KvOp.apply (db : Bytes → Option Bytes) : KvOp → Bytes → Option Bytes
  | .set key value => Function.update db key (some value)
  | .delete key => Function.update db key none
  | .get _ | .list => db

/-- What a login, a request or the end of a session does. -/
inductive Effect where
  | kv (op : KvOp)
  | register (u name : PyStr)
  | unregister (u name : PyStr)
  /-- a request is put into the inbox of `u` -/
  | put (u : PyStr) (q : Request)
  /-- the session takes the first request out of its inbox -/
  | take (u : PyStr)
  /-- a response is written to the outbox of `u` -/
  | write (u : PyStr) (p : Response)
  /-- the session takes the response with the id out of its outbox -/
  | consume (u : PyStr) (id : Bytes)
  | login (u : PyStr)
  /-- the session ends, and one of its names is released -/
  | leave (u : PyStr) (name : Option PyStr)
  deriving DecidableEq, Repr

namespace Box

def empty : Box := ⟨[], [], fun _ => none⟩

def own (name : PyStr) (b : Box) : Box := { b with names := b.names ++ [name] }

def disown (name : PyStr) (b : Box) : Box := { b with names := b.names.erase name }

def put (q : Request) (b : Box) : Box := { b with inbox := b.inbox ++ [q] }

def take (b : Box) : Box := { b with inbox := b.inbox.tail }

def write (p : Response) (b : Box) : Box :=
  { b with outbox := Function.update b.outbox p.response_uuid (some p) }

def consume (id : Bytes) (b : Box) : Box := { b with outbox := Function.update b.outbox id none }

end Box

namespace Office

/-- Change the box of a session, if there is one. -/
def modifyBox (O : Office) (u : PyStr) (f : Box → Box) : Office :=
  { O with boxes := Function.update O.boxes u ((O.boxes u).map f) }

def setBook (O : Office) (name : PyStr) (u : Option PyStr) : Office :=
  { O with book := Function.update O.book name u }

/-- The office after an effect. -/
def apply (O : Office) : Effect → Office
  | .kv op => { O with db := op.apply O.db }
  | .register u name => (O.modifyBox u (Box.own name)).setBook name (some u)
  | .unregister u name => (O.modifyBox u (Box.disown name)).setBook name none
  | .put u q => O.modifyBox u (Box.put q)
  | .take u => O.modifyBox u Box.take
  | .write u p => O.modifyBox u (Box.write p)
  | .consume u id => O.modifyBox u (Box.consume id)
  | .login u => { O with boxes := Function.update O.boxes u (some .empty) }
  | .leave u name =>
    { O with
      book := match name with
        | none => O.book
        | some name => Function.update O.book name none
      boxes := Function.update O.boxes u none }

@[simp] theorem modifyBox_boxes_self (O : Office) (u : PyStr) (f : Box → Box) :
    (O.modifyBox u f).boxes u = (O.boxes u).map f := Function.update_self ..

theorem modifyBox_boxes_ne (O : Office) {u u' : PyStr} (hu : u' ≠ u) (f : Box → Box) :
    (O.modifyBox u f).boxes u' = O.boxes u' := Function.update_of_ne hu ..

/-- No effect, or one. -/
def applyAll (O : Office) (es : Option Effect) : Office :=
  match es with
  | none => O
  | some e => O.apply e

end Office

/-- The effect is possible: a name that is registered is new, one that is released belongs
    to the session. -/
def Effect.Valid (O : Office) : Effect → Prop
  | .register u name => O.book name = none ∧ O.boxes u ≠ none
  | .unregister u name => ∃ b, O.boxes u = some b ∧ name ∈ b.names
  | .put u _ | .take u | .write u _ | .consume u _ => O.boxes u ≠ none
  | .leave u name => ∀ n ∈ name, O.book n = some u
  | .kv _ | .login _ => True

variable {K : Type} (L : Libs K)

/-! ## The office of a server -/

def Client.box (cl : Client K) : Box := ⟨cl.addressesOwned, cl.inbox, cl.outbox.get?⟩

def Server.office (s : Server K) : Office :=
  ⟨s.db.get?, s.addressBook.get?, fun u => (s.client u).map Client.box⟩

/-- The session that refers to an object. -/
def Server.session (s : Server K) (r : Ref) : Option PyStr :=
  if s.clientDb.get? (s.objs r).uuid = some r then some (s.objs r).uuid else none

/-- The request in a payload for a command under `db_lock`. -/
def kvOp (op : DbOp) (value : Bytes) : Option KvOp :=
  match op with
  | .set => match splitBody 2 value with
    | .ok [key, v] => some (.set key v)
    | _ => none
  | .get => some (.get value)
  | .delete => some (.delete value)
  | .list => some .list

/-- The names of a session. -/
def Server.names (s : Server K) (u : PyStr) : List PyStr :=
  ((s.client u).map Client.addressesOwned).getD []

/-- The effect of the code behind the loop. -/
def teardownEffect (s : Server K) (u : PyStr) : Option Effect :=
  if s.keepDeadSessions then none
  else some (.leave u ((s.addressBook.items.find? fun p => p.2 = u).map Prod.fst))

/-- The effect of a payload up to the first await. -/
def payloadEffect (s : Server K) (u : PyStr) (data : Bytes) (draw : Uuid4) : Option Effect :=
  match data with
  | [] => none
  | type_ :: value => match command type_ with
    | .register =>
      if latin1Decode value ∈ s.addressBook ∨ u ∉ s.clientDb then none
      else some (.register u (latin1Decode value))
    | .unregister =>
      if latin1Decode value ∈ s.names u then some (.unregister u (latin1Decode value)) else none
    | .putInbox => match splitBody 3 value with
      | .ok [target, request, key] =>
        if latin1Decode target ∈ s.clientDb then match latin1Encode u with
          | .ok sender =>
            some (.put (latin1Decode target) ⟨sender, key, request, draw.bytes⟩)
          | .error _ => none
        else none
      | _ => none
    | .bye => teardownEffect s u
    | _ => none

/-- The effect of a step of a handler, which accepted the payload `data?` in it. -/
def Handler.effect (s : Server K) (h : Handler) (i : Input) (draw : Uuid4)
    (data? : Option Bytes) : Option Effect :=
  match h.pc, i with
  | .dbLock op, .go => (kvOp op h.data.tail).map .kv
  | .inboxGet r, .go => (s.session r).map .take
  | .outboxPut r p, .go => (s.session r).map (.write · p)
  | .outboxGet r id, .go => (s.session r).map (.consume · id)
  | .sendall _ .close, .sent => if h.uuid ∈ s.clientDb then teardownEffect s h.uuid else none
  | _, _ => data?.bind fun data => payloadEffect s h.uuid data draw

/-- The payload the server accepts on the connection in a step. -/
def acceptedOn (c : ConnId) (o : List (Obs K)) : Option Bytes :=
  o.findSome? fun
    | .accepted (.server c') data => if c' = c then some data else none
    | _ => none

/-- The session that is new after a step. -/
def loggedIn (o : List (Obs K)) : Option PyStr :=
  o.findSome? fun
    | .session _ u => some u
    | _ => none

/-- **The effect of a step.** -/
def Sys.effect (S : Sys K) (a : Act) (o : List (Obs K)) : Option Effect :=
  match a with
  | .resume c i draw => match S.tasks c with
    | .handler h => h.effect S.server i draw (acceptedOn c o)
    | .accept _ => (loggedIn o).map .login
    | _ => none
  | _ => none

/-- A payload up to the first await registers a name, or releases one, or puts a request. -/
theorem payloadEffect_cases {s : Server K} {u : PyStr} {data : Bytes} {draw : Uuid4} {e : Effect}
    (he : payloadEffect s u data draw = some e) :
    (∃ name, e = .register u name) ∨ (∃ name, e = .unregister u name) ∨ (∃ target q, e = .put target q) ∨
      ∃ name, e = .leave u name := by
  cases data with
  | nil => cases he
  | cons type_ value =>
    simp only [payloadEffect] at he
    split at he
    · split_ifs at he
      cases he
      exact .inl ⟨_, rfl⟩
    · split_ifs at he
      cases he
      exact .inr (.inl ⟨_, rfl⟩)
    · split at he
      · split_ifs at he
        split at he
        · cases he
          exact .inr (.inr (.inl ⟨_, _, rfl⟩))
        · cases he
      · cases he
    · unfold teardownEffect at he
      split_ifs at he
      cases he
      exact .inr (.inr (.inr ⟨_, rfl⟩))
    · cases he

/-- The effect of a handler that gets a lock or an item, that ends, or that accepts a payload. -/
theorem Handler.effect_cases {s : Server K} {h : Handler} {i : Input} {draw : Uuid4} {data? : Option Bytes}
    {e : Effect} (he : h.effect s i draw data? = some e) :
    (∃ dbOp op, h.pc = .dbLock dbOp ∧ kvOp dbOp h.data.tail = some op ∧ e = .kv op) ∨
      (∃ u, e = .take u) ∨ (∃ u p, e = .write u p) ∨ (∃ u id, e = .consume u id) ∨
        (∃ u name, e = .leave u name) ∨ ∃ data, payloadEffect s h.uuid data draw = some e := by
  unfold Handler.effect at he
  split at he
  · rename_i dbOp hpc
    obtain ⟨op, hop, rfl⟩ := Option.map_eq_some_iff.1 he
    exact .inl ⟨dbOp, op, hpc, hop, rfl⟩
  · obtain ⟨u, -, rfl⟩ := Option.map_eq_some_iff.1 he
    exact .inr (.inl ⟨u, rfl⟩)
  · obtain ⟨u, -, rfl⟩ := Option.map_eq_some_iff.1 he
    exact .inr (.inr (.inl ⟨u, _, rfl⟩))
  · obtain ⟨u, -, rfl⟩ := Option.map_eq_some_iff.1 he
    exact .inr (.inr (.inr (.inl ⟨u, _, rfl⟩)))
  · split_ifs at he
    unfold teardownEffect at he
    split_ifs at he
    cases he
    exact .inr (.inr (.inr (.inr (.inl ⟨_, _, rfl⟩))))
  · obtain ⟨data, -, he⟩ := Option.bind_eq_some_iff.1 he
    exact .inr (.inr (.inr (.inr (.inr ⟨data, he⟩))))

/-! ## Changes of the server -/

section
variable {s : Server K} {r : Ref} {u : PyStr} {f : Client K → Client K} {g : Box → Box}

theorem client_modify_other {u' : PyStr} (h : s.clientDb.get? u' ≠ some r) :
    (s.modify r f).client u' = s.client u' := by
  rw [Server.client, Server.client, Server.modify_clientDb]
  rcases hu : s.clientDb.get? u' with _ | r'
  · rfl
  · rw [Option.map_some, Option.map_some, Server.modify_objs_ne]
    rintro rfl
    exact h hu

/-- A change of the link of a client is no change of the office. -/
theorem office_modify_link (hf : ∀ cl, (f cl).box = cl.box) : (s.modify r f).office = s.office := by
  have hboxes : (fun u => ((s.modify r f).client u).map Client.box) =
      fun u => (s.client u).map Client.box := by
    funext u
    rw [Server.client, Server.client, Server.modify_clientDb]
    rcases s.clientDb.get? u with _ | r'
    · rfl
    · simp only [Option.map_some, Server.modify_objs]
      split_ifs
      · rw [hf]
      · rfl
  rw [Server.office, hboxes]
  rfl

theorem session_of_get? (hw : s.WfRefs) (hu : s.clientDb.get? u = some r) : s.session r = some u := by
  have hid := (hw u r hu).2
  rw [Server.session, hid, if_pos hu]

/-- A change of a box. -/
theorem office_modify_box (hw : s.WfRefs) (hf : (f (s.objs r)).box = g (s.objs r).box) :
    (s.modify r f).office = match s.session r with
      | none => s.office
      | some u => s.office.modifyBox u g := by
  rcases hs : s.session r with _ | u
  · have hnot : ∀ u, s.clientDb.get? u ≠ some r := by
      intro u hu
      rw [session_of_get? hw hu] at hs
      cases hs
    have hboxes : (fun u => ((s.modify r f).client u).map Client.box) =
        fun u => (s.client u).map Client.box := by
      funext u
      rw [client_modify_other (hnot u)]
    rw [Server.office, hboxes]
    rfl
  · have hu : s.clientDb.get? u = some r := by
      rw [Server.session] at hs
      split_ifs at hs with h
      cases hs
      exact h
    have hboxes : (fun u => ((s.modify r f).client u).map Client.box) =
        Function.update (fun u => (s.client u).map Client.box) u
          (((s.client u).map Client.box).map g) := by
      funext u'
      by_cases he : u' = u
      · subst he
        rw [Function.update_self, Server.client, Server.client, Server.modify_clientDb, hu,
          Option.map_some, Option.map_some, Option.map_some, Server.modify_objs_self, hf]
        rfl
      · rw [Function.update_of_ne he, client_modify_other]
        exact fun hu' => he (hw.inj hu' hu)
    rw [Server.office, hboxes]
    rfl

theorem office_modify_session (hw : s.WfRefs) (hu : s.clientDb.get? u = some r)
    (hf : (f (s.objs r)).box = g (s.objs r).box) :
    (s.modify r f).office = s.office.modifyBox u g := by
  rw [office_modify_box hw hf, session_of_get? hw hu]

theorem office_addSession (hw : s.WfRefs) (cl : Client K) :
    (s.addSession u cl).office =
      { s.office with boxes := Function.update s.office.boxes u (some cl.box) } := by
  have hboxes : (fun u' => ((s.addSession u cl).client u').map Client.box) =
      Function.update (fun u' => (s.client u').map Client.box) u (some cl.box) := by
    funext u'
    rw [Server.client, Server.addSession_clientDb, Dict.get?_set]
    by_cases he : u' = u
    · subst he
      rw [if_pos rfl, Function.update_self, Option.map_some, Option.map_some,
        Server.addSession_objs_fresh]
    · rw [if_neg he, Function.update_of_ne he, Server.client]
      rcases hu : s.clientDb.get? u' with _ | r
      · rfl
      · rw [Option.map_some, Option.map_some, Server.addSession_objs (hw u' r hu).1]
        rfl
  rw [Server.office, hboxes]
  rfl

theorem office_release (s : Server K) (held : Held) : (s.release held).office = s.office := by
  cases held with
  | none => rfl
  | dbLock => rfl
  | outboxLock r => exact office_modify_link fun _ => rfl

theorem office_teardown (s : Server K) (u : PyStr) :
    (teardown s u).office = s.office.applyAll (teardownEffect s u) := by
  unfold teardown teardownEffect
  split_ifs
  · rfl
  · have hboxes : (fun u' => (((s.clientDb.erase u).get? u').map s.objs).map Client.box) =
        Function.update (fun u' => (s.client u').map Client.box) u none := by
      funext u'
      rw [Dict.get?_erase]
      by_cases he : u' = u
      · subst he; rw [if_pos rfl, Function.update_self]; rfl
      · rw [if_neg he, Function.update_of_ne he]; rfl
    refine Office.ext rfl ?_ hboxes
    simp only [Server.office]
    split
    · rename_i hf
      rw [hf]
      rfl
    · rename_i p hf
      rw [hf, Dict.get?_erase_update]
      rfl

theorem teardownEffect_release (s : Server K) (held : Held) (u : PyStr) :
    teardownEffect (s.release held) u = teardownEffect s u := by
  cases held <;> rfl

theorem names_office (s : Server K) (u : PyStr) :
    s.names u = ((s.office.boxes u).map Box.names).getD [] := by
  rcases hc : s.client u with _ | cl
  · simp [Server.names, Server.office, hc]
  · simp [Server.names, Server.office, hc, Client.box]

theorem names_modify_link (hf : ∀ cl, (f cl).box = cl.box) (u : PyStr) :
    (s.modify r f).names u = s.names u := by
  rw [names_office, names_office, office_modify_link hf]

theorem payloadEffect_modify_link (hf : ∀ cl, (f cl).box = cl.box) (u : PyStr) (data : Bytes)
    (draw : Uuid4) : payloadEffect (s.modify r f) u data draw = payloadEffect s u data draw := by
  unfold payloadEffect
  rcases data with _ | ⟨type_, value⟩
  · rfl
  · simp only [names_modify_link hf, Server.modify_addressBook, Server.modify_clientDb,
      teardownEffect, Server.modify_keepDeadSessions]
    rfl

/-! ## Commands -/

theorem register_office (hw : s.WfRefs) (value : Bytes) (draw : Uuid4) {type_ : UInt8}
    (hc : command type_ = .register) :
    (register s u (latin1Decode value)).1.office =
      s.office.applyAll (payloadEffect s u (type_ :: value) draw) := by
  simp only [payloadEffect, hc, register]
  by_cases hn : latin1Decode value ∈ s.addressBook
  · rw [if_pos hn, if_pos (.inl hn)]
    rfl
  · rw [if_neg hn]
    rcases hu : s.clientDb.get? u with _ | r
    · have hmem : u ∉ s.clientDb := Dict.get?_eq_none.1 hu
      rw [if_pos (.inr hmem)]
      rfl
    · have hmem : u ∈ s.clientDb := Dict.mem_of_get? hu
      have hnot : ¬ (latin1Decode value ∈ s.addressBook ∨ u ∉ s.clientDb) :=
        fun h => h.elim hn fun h => h hmem
      rw [if_neg hnot]
      have hbox := office_modify_session hw hu (f := Client.own (latin1Decode value))
        (g := Box.own (latin1Decode value)) rfl
      simp only [Office.applyAll, Office.apply, ← hbox, Office.setBook]
      exact Office.ext rfl (Dict.get?_set_update _ _ _) rfl

theorem unregister_office (hw : s.WfRefs) (value : Bytes) (draw : Uuid4) {type_ : UInt8}
    (hc : command type_ = .unregister) :
    (unregister s u (latin1Decode value)).1.office =
      s.office.applyAll (payloadEffect s u (type_ :: value) draw) := by
  simp only [payloadEffect, hc, unregister]
  rcases hu : s.clientDb.get? u with _ | r
  · have hnames : s.names u = [] := by simp [Server.names, Server.client, hu]
    simp [hnames, Office.applyAll]
  · have hnames : s.names u = (s.objs r).addressesOwned := by
      simp [Server.names, Server.client, hu]
    simp only [hnames]
    by_cases hn : latin1Decode value ∈ (s.objs r).addressesOwned
    · rw [if_neg (not_not.2 hn), if_pos hn]
      have hbox := office_modify_session hw hu (f := Client.disown (latin1Decode value))
        (g := Box.disown (latin1Decode value)) rfl
      simp only [Office.applyAll, Office.apply, ← hbox, Office.setBook]
      by_cases hb : latin1Decode value ∈ (s.modify r (Client.disown (latin1Decode value))).addressBook
      · rw [if_pos hb]
        exact Office.ext rfl (Dict.get?_erase_update _ _) rfl
      · rw [if_neg hb]
        have hnone : s.addressBook.get? (latin1Decode value) = none := Dict.get?_eq_none.2 hb
        refine Office.ext rfl ?_ rfl
        change s.addressBook.get? = Function.update s.addressBook.get? _ none
        rw [← hnone, Function.update_eq_self]
    · rw [if_pos hn, if_neg hn]
      rfl

theorem putInbox_office (hw : s.WfRefs) (value : Bytes) (draw : Uuid4) {type_ : UInt8}
    (hc : command type_ = .putInbox) :
    (putInbox s u value draw).1.office =
      s.office.applyAll (payloadEffect s u (type_ :: value) draw) := by
  simp only [payloadEffect, hc, putInbox]
  split
  · rename_i target request key hbody
    simp only [hbody]
    rcases hu : s.clientDb.get? (latin1Decode target) with _ | r
    · have hmem : latin1Decode target ∉ s.clientDb := Dict.get?_eq_none.1 hu
      rw [if_neg hmem]
      rfl
    · rw [if_pos (Dict.mem_of_get? hu)]
      rcases latin1Encode u with e | sender
      · rfl
      · exact office_modify_session hw hu rfl
  · rename_i fields hne hbody
    rw [hbody]
    split
    · rename_i he
      cases he
      exact absurd rfl (hne _ _ _)
    · rfl
  · rename_i hbody
    rw [hbody]
    rfl

/-- **What a command does up to its reply or its first await.** -/
theorem dispatch_office (hw : s.WfRefs) (data : Bytes) (draw : Uuid4)
    (hbye : (dispatch s u data draw).2 ≠ .bye) :
    (dispatch s u data draw).1.office = s.office.applyAll (payloadEffect s u data draw) := by
  cases data with
  | nil => rfl
  | cons type_ value =>
    simp only [dispatch] at hbye ⊢
    rcases hc : command type_ with op | _ | _ | _ | _ | _ | _ | _ | _ | _ | _
    · simp only [payloadEffect, hc]
      rfl
    · exact register_office hw value draw hc
    · exact unregister_office hw value draw hc
    · simp only [payloadEffect, hc]
      rfl
    · rw [hc] at hbye
      exact absurd rfl hbye
    · simp only [payloadEffect, hc]
      rfl
    · exact putInbox_office hw value draw hc
    · simp only [payloadEffect, hc]
      split
      · rfl
      · rfl
    · simp only [payloadEffect, hc]
      rfl
    · simp only [payloadEffect, hc]
      split
      · rfl
      · rfl
    · simp only [payloadEffect, hc]
      rfl

theorem dbOp_office (op : DbOp) (value : Bytes) :
    (op.run s value).1.office = s.office.applyAll ((kvOp op value).map .kv) := by
  cases op with
  | set =>
    simp only [DbOp.run, kvOp]
    split
    · rename_i hbody
      rw [hbody]
      exact Office.ext (Dict.get?_set_update _ _ _) rfl rfl
    · rename_i hne hbody
      rw [hbody]
      split
      · rename_i he
        exact absurd (Except.ok.inj he) (hne _ _)
      · rfl
    · rename_i hbody
      rw [hbody]
      rfl
  | get => rfl
  | delete =>
    simp only [DbOp.run, kvOp]
    split_ifs with hmem
    · exact Office.ext (Dict.get?_erase_update _ _) rfl rfl
    · refine Office.ext ?_ rfl rfl
      change s.db.get? = Function.update s.db.get? value none
      rw [← Dict.get?_eq_none.2 hmem, Function.update_eq_self]
  | list => rfl

/-! ## What was accepted -/

variable {c : ConnId} {os os' : List (Obs K)}

theorem acceptedOn_append : acceptedOn c (os ++ os') = (acceptedOn c os).or (acceptedOn c os') :=
  List.findSome?_append

theorem Inner.acceptedOn (h : Inner os) : acceptedOn c os = none := by
  rw [Pipebomb.acceptedOn, List.findSome?_eq_none_iff]
  intro x hx
  have := h x hx
  cases x <;> first | rfl | exact this.elim

theorem loggedIn_append : loggedIn (os ++ os') = (loggedIn os).or (loggedIn os') :=
  List.findSome?_append

theorem Shut.loggedIn (h : Shut os) : loggedIn os = none := by
  rw [Pipebomb.loggedIn, List.findSome?_eq_none_iff]
  intro x hx
  have := h x hx
  cases x <;> first | rfl | exact this.elim

variable {h : Handler} {A : Type} {out : Outcome K A} {draw : Uuid4} {i : Input}

theorem Sends.office {reply : Except PyErr Bytes} {held : Held} {after : After}
    (hs : Sends L s c h reply held after out) : out.1.office = s.office := by
  cases hs with
  | fail => exact office_release s held
  | start => rfl

theorem Sends.acceptedOn {reply : Except PyErr Bytes} {held : Held} {after : After}
    (hs : Sends L s c h reply held after out) : acceptedOn c out.2.2 = none := by
  cases hs with
  | fail _ hin => exact hin.acceptedOn
  | start _ hin =>
    rw [acceptedOn_append, hin.acceptedOn]
    split_ifs
    · rfl
    · rfl

theorem Proceeds.acceptedOn {o : Server K × Next} (hp : Proceeds L c h o out) :
    acceptedOn c out.2.2 = none := by
  cases hp with
  | reply _ hs => exact hs.acceptedOn
  | wait => rfl
  | raise => rfl
  | bye => rfl

/-- **What becomes of a payload.** -/
theorem Proceeds.office {data : Bytes} (hw : s.WfRefs)
    (hp : Proceeds L c h (dispatch s h.uuid data draw) out) :
    out.1.office = s.office.applyAll (payloadEffect s h.uuid data draw) := by
  cases hp with
  | reply hn hs => rw [hs.office, dispatch_office hw data draw (by rw [hn]; simp)]
  | wait hn => exact dispatch_office hw data draw (by rw [hn]; simp)
  | raise hn => exact dispatch_office hw data draw (by rw [hn]; simp)
  | bye hn =>
    obtain ⟨type_, value, rfl, hc, hs⟩ := dispatch_bye hn
    rw [hs, office_teardown]
    simp only [payloadEffect, hc]

theorem effect_reads (hr : h.pc.Reads) (data? : Option Bytes) :
    h.effect s i draw data? = data?.bind fun data => payloadEffect s h.uuid data draw := by
  unfold Handler.effect
  split
  · rename_i hpc; rw [hpc] at hr; exact hr.elim
  · rename_i hpc; rw [hpc] at hr; exact hr.elim
  · rename_i hpc; rw [hpc] at hr; exact hr.elim
  · rename_i hpc; rw [hpc] at hr; exact hr.elim
  · rename_i held hpc
    rw [hpc] at hr
    cases held with
    | _ => exact hr.elim
  · rfl

/-- A change of the box of the session that refers to an object. -/
theorem office_modify_map (hw : s.WfRefs) (hf : (f (s.objs r)).box = g (s.objs r).box)
    (e : PyStr → Effect) (he : ∀ u, s.office.apply (e u) = s.office.modifyBox u g) :
    (s.modify r f).office = s.office.applyAll ((s.session r).map e) := by
  rw [office_modify_box hw hf]
  rcases s.session r with _ | u
  · rfl
  · exact (he u).symm

/-- **A handler changes the office by its effect.** -/
theorem Move.office (hw : s.WfRefs) (hm : Move L s c h i draw out) :
    out.1.office = s.office.applyAll (h.effect s i draw (acceptedOn c out.2.2)) := by
  cases hm with
  | still hr _ hin => rw [effect_reads hr, hin.acceptedOn]; rfl
  | refuse hr hu _ hin hs =>
    rw [effect_reads hr, seen_obs, acceptedOn_append, hin.acceptedOn, hs.acceptedOn, seen_server,
      hs.office]
    exact office_modify_link fun _ => rfl
  | payload hr hu hid hv hin hp =>
    rename_i r h' frame rem os out
    have hdata : acceptedOn c (os ++ [Obs.accepted (.server c) h'.data]) = some h'.data := by
      rw [acceptedOn_append, hin.acceptedOn]
      simp [Pipebomb.acceptedOn]
    have hreceived : ∀ cl : Client K, cl.received.box = cl.box := fun _ => rfl
    have hw' : (s.modify r Client.received).WfRefs := hw.modify fun _ => rfl
    rw [← hid] at hp
    rw [effect_reads hr, seen_obs, acceptedOn_append, hdata, seen_server, hp.office L hw',
      office_modify_link hreceived, hid, payloadEffect_modify_link hreceived]
    rfl
  | db hpc hi hl hs =>
    rw [hs.office, dbOp_office]
    simp only [Handler.effect, hpc, hi]
    rfl
  | inboxGet hpc hi hq hs =>
    rw [hs.office]
    simp only [Handler.effect, hpc, hi]
    exact office_modify_map hw (g := Box.take) (by simp [Client.box, Client.setInbox, Box.take, hq])
      _ fun _ => rfl
  | outboxPut hpc hi hl hs =>
    rename_i r p
    rw [hs.office]
    simp only [Handler.effect, hpc, hi]
    refine office_modify_map hw (g := Box.write p) (Box.ext rfl rfl ?_) _ fun _ => rfl
    exact Dict.get?_set_update _ _ _
  | outboxNone hpc hi hl hg hs =>
    rename_i r id
    rw [hs.office]
    simp only [Handler.effect, hpc, hi]
    refine office_modify_map hw (g := Box.consume id) (Box.ext rfl rfl ?_) _ fun _ => rfl
    change (s.objs r).outbox.get? = Function.update (s.objs r).outbox.get? id none
    rw [← hg, Function.update_eq_self]
  | outboxGet hpc hi hl hg hs =>
    rename_i r id p
    rw [hs.office]
    simp only [Handler.effect, hpc, hi]
    have hlock : (s.modify r (Client.setOutboxLock true)).office = s.office :=
      office_modify_link fun _ => rfl
    have hsession : (s.modify r (Client.setOutboxLock true)).session r = s.session r := by
      rw [Server.session, Server.session, Server.modify_objs_self]
      rfl
    have hw' : (s.modify r (Client.setOutboxLock true)).WfRefs := hw.modify fun _ => rfl
    rw [← hlock, ← hsession]
    refine office_modify_map hw' (g := Box.consume id) (Box.ext ?_ ?_ ?_) _ fun _ => rfl
    · rw [Server.modify_objs_self]; rfl
    · rw [Server.modify_objs_self]; rfl
    rw [Server.modify_objs_self]
    exact Dict.get?_erase_update _ _
  | sent hpc hi hu =>
    simp only [Handler.effect, hpc, hi]
    rw [office_release, office_modify_link (f := Client.sent) fun _ => rfl]
    rfl
  | close hpc hi hu =>
    simp only [Handler.effect, hpc, hi]
    rw [if_pos (Dict.mem_of_get? hu), office_teardown, teardownEffect_release, office_release,
      office_modify_link (f := Client.sent) fun _ => rfl]
    rfl
  | die hi hu =>
    rw [office_release]
    unfold Handler.effect
    split
    · exact absurd rfl hi
    · exact absurd rfl hi
    · exact absurd rfl hi
    · exact absurd rfl hi
    · rw [if_neg (hu rfl)]
      rfl
    · rfl

/-- The effect of a step that accepts a payload is the one of the payload. -/
theorem Move.effect_accepted {data : Bytes} (hm : Move L s c h i draw out)
    (hd : .accepted (.server c) data ∈ out.2.2) :
    h.effect s i draw (acceptedOn c out.2.2) = payloadEffect s h.uuid data draw := by
  obtain ⟨r, h', os, out', frame, rem, hr, hu, -, -, hin, -, -, rfl⟩ := hm.accepted L hd
  have hdata : acceptedOn c (os ++ [Obs.accepted (.server c) data]) = some data := by
    rw [acceptedOn_append, hin.acceptedOn]
    simp [Pipebomb.acceptedOn]
  rw [effect_reads hr, seen_obs, acceptedOn_append, hdata]
  rfl

/-- **A payload whose reply is known** is answered, or the session has used up all nonces. -/
theorem Move.replies {p : Party} {data reply : Bytes} (hm : Move L s c h i draw out)
    (hd : .accepted p data ∈ out.2.2)
    (hr : ∀ r, s.clientDb.get? h.uuid = some r →
      (dispatch (s.modify r Client.received) h.uuid data draw).2 = .reply reply)
    (hne : reply ≠ []) (hf : Fits L reply) :
    .answered c h.uuid data reply ∈ out.2.2 ∨
      ∃ cl, s.client h.uuid = some cl ∧ 2 ^ 96 ≤ cl.txNonce := by
  obtain ⟨r, h', os, out', frame, rem, -, hu, hid, rfl, -, hv, hp, rfl⟩ := hm.accepted L hd
  obtain ⟨-, k, -, -, hk, -⟩ := verifyPacket_payload L hv
  have hreply := hr r hu
  by_cases hn : (s.objs r).txNonce < 2 ^ 96
  · refine .inl ?_
    cases hp with
    | reply hn' hs =>
      rename_i data'
      rw [hreply] at hn'
      cases hn'
      have hquiet := dispatch_quiet (s.modify r Client.received) h.uuid h'.data draw
      have hlink := hquiet.link r
      rw [Server.modify_objs_self] at hlink
      have hcl : (dispatch (s.modify r Client.received) h.uuid h'.data draw).1.client h'.uuid =
          some ((dispatch (s.modify r Client.received) h.uuid h'.data draw).1.objs r) := by
        rw [hid, Server.client, hquiet.clientDb, Server.modify_clientDb, hu]
        rfl
      have hcipher : (s.objs r).received.cipher ≠ none := by
        change (s.objs r).cipher ≠ none
        rw [hk]
        exact Option.some_ne_none k
      have hanswer := hs.answered L hcl (by rw [hlink.cipher]; exact hcipher)
        (by rw [hlink.txNonce]; exact hn) hne hf
      rw [hid] at hanswer
      exact List.mem_append_right _ hanswer
    | wait hn' => rw [hreply] at hn'; cases hn'
    | raise hn' => rw [hreply] at hn'; cases hn'
    | bye hn' => rw [hreply] at hn'; cases hn'
  · exact .inr ⟨s.objs r, by rw [Server.client, hu]; rfl, Nat.le_of_not_lt hn⟩

/-- **A handshake changes the office by the login in it.** -/
theorem Joins.office {a : Accepting K} {out : Outcome K (Accepting K)} (hw : s.WfRefs)
    (hj : Joins s c draw a out) :
    out.1.office = s.office.applyAll ((loggedIn out.2.2).map .login) := by
  have hlogin : ∀ cl : Client K, cl.box = Box.empty →
      (s.addSession draw.str cl).office = s.office.applyAll (some (.login draw.str)) := by
    intro cl hcl
    rw [office_addSession hw, hcl]
    rfl
  cases hj with
  | still _ hin => rw [hin.loggedIn]; rfl
  | login _ hin hin' =>
    rw [loggedIn_append, hin.loggedIn, hlogin _ rfl]
    rfl
  | attach hu ht hin hin' =>
    rename_i u r l t os os'
    have hlink : (s.modify r (Client.attach c l.cipher)).office = s.office :=
      office_modify_link fun _ => rfl
    have hnone : loggedIn (Obs.relogin c u :: os') = none := by
      rw [Pipebomb.loggedIn, List.findSome?_cons]
      exact hin'.loggedIn
    rw [loggedIn_append, hin.loggedIn, hnone]
    exact hlink
  | unknown =>
    rename_i l
    rw [office_modify_link (f := Client.setNonces (l.txNonce + 1) l.rxNonce) fun _ => rfl,
      hlogin _ rfl]
    rfl
  | finish =>
    rename_i l u r
    exact office_modify_link (f := Client.setNonces (l.txNonce + 1) l.rxNonce) fun _ => rfl

/-! ## The effect is a possible one -/

theorem teardownEffect_valid {e : Effect} (he : teardownEffect s u = some e) :
    e.Valid s.office := by
  unfold teardownEffect at he
  split_ifs at he
  cases he
  rintro name hname
  obtain ⟨p, hp, rfl⟩ := Option.map_eq_some_iff.1 hname
  have hu : p.2 = u := by simpa using List.find?_some hp
  rw [← hu]
  exact Dict.get?_eq_some.2 (List.mem_of_find?_eq_some hp)

theorem office_boxes (s : Server K) (u : PyStr) :
    s.office.boxes u = (s.client u).map Client.box := rfl

theorem boxes_ne_none : s.office.boxes u ≠ none ↔ u ∈ s.clientDb := by
  rw [office_boxes, ← not_iff_not, not_not, Option.map_eq_none_iff, Server.client_eq_none,
    Dict.get?_eq_none]

theorem names_boxes {name : PyStr} (h : name ∈ s.names u) :
    ∃ b, s.office.boxes u = some b ∧ name ∈ b.names := by
  rcases hc : s.client u with _ | cl
  · simp [Server.names, hc] at h
  · simp only [Server.names, hc] at h
    exact ⟨cl.box, by rw [office_boxes, hc]; rfl, h⟩

theorem payloadEffect_valid {data : Bytes} {e : Effect}
    (he : payloadEffect s u data draw = some e) : e.Valid s.office := by
  cases data with
  | nil => cases he
  | cons type_ value =>
    simp only [payloadEffect] at he
    split at he
    · split_ifs at he with hnot
      cases he
      rw [not_or, not_not] at hnot
      exact ⟨Dict.get?_eq_none.2 hnot.1, boxes_ne_none.2 hnot.2⟩
    · split_ifs at he with hname
      cases he
      exact names_boxes hname
    · split at he
      · split_ifs at he with hmem
        split at he
        · cases he
          exact boxes_ne_none.2 hmem
        · cases he
      · cases he
    · exact teardownEffect_valid he
    · cases he

theorem session_boxes (h : s.session r = some u) : s.office.boxes u ≠ none := by
  rw [Server.session] at h
  split_ifs at h with hr
  cases h
  exact boxes_ne_none.2 (Dict.mem_of_get? hr)

theorem Handler.effect_valid {data? : Option Bytes} {e : Effect}
    (he : h.effect s i draw data? = some e) : e.Valid s.office := by
  have hmap : ∀ (r : Ref) (f : PyStr → Effect), (∀ u, s.office.boxes u ≠ none → (f u).Valid s.office) →
      (s.session r).map f = some e → e.Valid s.office := by
    intro r f hf he
    obtain ⟨u, hu, rfl⟩ := Option.map_eq_some_iff.1 he
    exact hf u (session_boxes hu)
  unfold Handler.effect at he
  split at he
  · obtain ⟨op, -, rfl⟩ := Option.map_eq_some_iff.1 he
    trivial
  · exact hmap _ .take (fun _ h => h) he
  · exact hmap _ (.write · _) (fun _ h => h) he
  · exact hmap _ (.consume · _) (fun _ h => h) he
  · split_ifs at he
    exact teardownEffect_valid he
  · obtain ⟨data, -, he⟩ := Option.bind_eq_some_iff.1 he
    exact payloadEffect_valid he

end

/-! ## Steps -/

/-- Logins and requests only. -/
def Act.Wire : Act → Prop
  | .admin _ => False
  | _ => True

section
variable {S S' : Sys K} {a : Act} {o : List (Obs K)}

/-- **Every step of logins and requests changes the office by its effect.** -/
theorem step_office (hw : S.server.WfRefs) (hstep : S.Step L a S' o) (ha : a.Wire) :
    S'.server.office = S.server.office.applyAll (S.effect a o) := by
  cases hstep with
  | connect => rfl
  | join ht hj =>
    simp only [Sys.effect, ht]
    exact hj.office hw
  | move ht hm =>
    simp only [Sys.effect, ht]
    exact hm.office L hw
  | admin => exact ha.elim

/-- The effect of a step is a possible one. -/
theorem effect_valid {e : Effect} (he : S.effect a o = some e) : e.Valid S.server.office := by
  unfold Sys.effect at he
  split at he
  · split at he
    · exact Handler.effect_valid he
    · obtain ⟨u, -, rfl⟩ := Option.map_eq_some_iff.1 he
      trivial
    · cases he
  · cases he

end

end Pipebomb
