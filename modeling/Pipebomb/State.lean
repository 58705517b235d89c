/-
  The state of the server (`server.py`): the database, the address book and the
  sessions.

  The values of `client_db` are references to `Client` objects.  A coroutine may hold
  a reference over an `await`, so an object outlives its entry in `client_db`; the
  objects live in a heap `objs`, allocated at `fresh`.

  * `client` is `self.client_db[uuid]`, `modify` changes the object behind a reference,
    `addSession` makes a new object and enters it into `client_db`.
  * `WfRefs`: every session refers to an allocated object that carries its uuid, so
    different sessions never share an object (`WfRefs.inj`).
-/
import Pipebomb.Lib.Dict
import Pipebomb.Packet

namespace Pipebomb

open ByteString

/-- A reference to a `Client` object. -/
abbrev Ref := ℕ

/-- The address of a client: `("unknown", 0)`, or the one of a connection's peer. -/
inductive Address where
  | unknown
  | peer (c : ConnId)
  deriving DecidableEq, Repr

/-- A `Client` of the server.  The socket of a client that never connected is `none`. -/
structure Client (K : Type) where
  socket : Option ConnId
  address : Address
  addressesOwned : List PyStr
  inbox : List Request
  outbox : Dict Bytes Response
  outboxLock : Bool
  uuid : PyStr
  cipher : Option K
  rxNonce : ℕ
  txNonce : ℕ
  active : Bool

/-- The state of a `Server`. -/
structure Server (K : Type) where
  db : Dict Bytes Bytes
  dbLock : Bool
  clientDb : Dict PyStr Ref
  addressBook : Dict PyStr PyStr
  objs : Ref → Client K
  fresh : Ref
  password : Bytes
  keepDeadSessions : Bool

variable {K : Type}

/-- A client that is not connected, as `add_client` and `deserialize` make it. -/
def Client.preset (uuid : PyStr) (addressesOwned : List PyStr) (inbox : List Request)
    (outbox : Dict Bytes Response) : Client K where
  socket := none
  address := .unknown
  addressesOwned := addressesOwned
  inbox := inbox
  outbox := outbox
  outboxLock := false
  uuid := uuid
  cipher := none
  rxNonce := 0
  txNonce := 0
  active := false

/-- A client that just logged in. -/
def Client.login (c : ConnId) (uuid : PyStr) (cipher : K) (txNonce rxNonce : ℕ) : Client K where
  socket := some c
  address := .peer c
  addressesOwned := []
  inbox := []
  outbox := .empty
  outboxLock := false
  uuid := uuid
  cipher := some cipher
  rxNonce := rxNonce
  txNonce := txNonce
  active := true

namespace Client

/-- `addresses_owned.append(name)`. -/
def own (name : PyStr) (cl : Client K) : Client K :=
  { cl with addressesOwned := cl.addressesOwned ++ [name] }

/-- `addresses_owned.remove(name)`. -/
def disown (name : PyStr) (cl : Client K) : Client K :=
  { cl with addressesOwned := cl.addressesOwned.erase name }

def setInbox (inbox : List Request) (cl : Client K) : Client K := { cl with inbox := inbox }

/-- `inbox.put(q)`; the queue has no bound. -/
def put (q : Request) (cl : Client K) : Client K := { cl with inbox := cl.inbox ++ [q] }

def setOutbox (outbox : Dict Bytes Response) (cl : Client K) : Client K :=
  { cl with outbox := outbox }

def setOutboxLock (locked : Bool) (cl : Client K) : Client K := { cl with outboxLock := locked }

end Client

/-- The error for a uuid of the wrong length. -/
def uuidLength : PyErr := .valueError "UUID must be 36 characters long"

namespace Server

/-- A server that was just constructed. -/
def init (password : Bytes) (keepDeadSessions : Bool) : Server K where
  db := .empty
  dbLock := false
  clientDb := .empty
  addressBook := .empty
  objs := fun _ => .preset [] [] [] .empty
  fresh := 0
  password := password
  keepDeadSessions := keepDeadSessions

/-- `self.client_db[uuid]`, if there is one. -/
def client (s : Server K) (uuid : PyStr) : Option (Client K) := (s.clientDb.get? uuid).map s.objs

/-- Change the object behind a reference. -/
def modify (s : Server K) (r : Ref) (f : Client K → Client K) : Server K :=
  { s with objs := Function.update s.objs r (f (s.objs r)) }

/-- Make an object and enter it at `uuid`; its reference is the old `fresh`. -/
def addSession (s : Server K) (uuid : PyStr) (cl : Client K) : Server K :=
  { s with
    objs := Function.update s.objs s.fresh cl
    fresh := s.fresh + 1
    clientDb := s.clientDb.set uuid s.fresh }

def setBook (s : Server K) (book : Dict PyStr PyStr) : Server K := { s with addressBook := book }

def setDb (s : Server K) (db : Dict Bytes Bytes) : Server K := { s with db := db }

def setDbLock (s : Server K) (locked : Bool) : Server K := { s with dbLock := locked }

/-- Every session refers to an allocated object that carries its uuid. -/
def WfRefs (s : Server K) : Prop :=
  ∀ u r, s.clientDb.get? u = some r → r < s.fresh ∧ (s.objs r).uuid = u

variable {s : Server K} {u : PyStr} {r r' : Ref} {f : Client K → Client K}

theorem client_eq_some {cl : Client K} :
    s.client u = some cl ↔ ∃ r, s.clientDb.get? u = some r ∧ s.objs r = cl := by
  simp [client]

theorem client_eq_none : s.client u = none ↔ s.clientDb.get? u = none := by simp [client]

/-! ## The fields after a change -/

@[simp] theorem modify_db : (s.modify r f).db = s.db := rfl
@[simp] theorem modify_dbLock : (s.modify r f).dbLock = s.dbLock := rfl
@[simp] theorem modify_clientDb : (s.modify r f).clientDb = s.clientDb := rfl
@[simp] theorem modify_addressBook : (s.modify r f).addressBook = s.addressBook := rfl
@[simp] theorem modify_fresh : (s.modify r f).fresh = s.fresh := rfl
@[simp] theorem modify_password : (s.modify r f).password = s.password := rfl
@[simp] theorem modify_keepDeadSessions :
    (s.modify r f).keepDeadSessions = s.keepDeadSessions := rfl

@[simp] theorem modify_objs_self : (s.modify r f).objs r = f (s.objs r) := by simp [modify]

theorem modify_objs_ne (h : r' ≠ r) : (s.modify r f).objs r' = s.objs r' := by
  simp [modify, Function.update_of_ne h]

theorem modify_objs (s : Server K) (r r' : Ref) (f : Client K → Client K) :
    (s.modify r f).objs r' = if r' = r then f (s.objs r') else s.objs r' := by
  by_cases h : r' = r
  · subst h; simp
  · rw [modify_objs_ne h, if_neg h]

@[simp] theorem setBook_clientDb (book : Dict PyStr PyStr) :
    (s.setBook book).clientDb = s.clientDb := rfl
@[simp] theorem setBook_objs (book : Dict PyStr PyStr) : (s.setBook book).objs = s.objs := rfl
@[simp] theorem setBook_addressBook (book : Dict PyStr PyStr) :
    (s.setBook book).addressBook = book := rfl

variable {cl : Client K}

@[simp] theorem addSession_db : (s.addSession u cl).db = s.db := rfl
@[simp] theorem addSession_addressBook : (s.addSession u cl).addressBook = s.addressBook := rfl
@[simp] theorem addSession_fresh : (s.addSession u cl).fresh = s.fresh + 1 := rfl
@[simp] theorem addSession_password : (s.addSession u cl).password = s.password := rfl

@[simp] theorem addSession_clientDb :
    (s.addSession u cl).clientDb = s.clientDb.set u s.fresh := rfl

@[simp] theorem addSession_objs_fresh : (s.addSession u cl).objs s.fresh = cl := by
  simp [addSession]

theorem addSession_objs (h : r < s.fresh) : (s.addSession u cl).objs r = s.objs r := by
  have : r ≠ s.fresh := Nat.ne_of_lt h
  simp [addSession, Function.update_of_ne this]

/-! ## Sessions and their objects -/

/-- Different sessions have different objects. -/
theorem WfRefs.inj (h : s.WfRefs) {u u' : PyStr} (hu : s.clientDb.get? u = some r)
    (hu' : s.clientDb.get? u' = some r) : u = u' := by
  rw [← (h u r hu).2, (h u' r hu').2]

theorem wfRefs_init (p : Bytes) (b : Bool) : (init p b : Server K).WfRefs := by
  intro u r h
  simp [init] at h

theorem WfRefs.modify (h : s.WfRefs) (hf : ∀ cl, (f cl).uuid = cl.uuid) : (s.modify r f).WfRefs := by
  intro u r' hu
  obtain ⟨hlt, hid⟩ := h u r' hu
  refine ⟨hlt, ?_⟩
  rw [modify_objs]
  split_ifs
  · rw [hf, hid]
  · exact hid

theorem WfRefs.addSession (h : s.WfRefs) (hcl : cl.uuid = u) : (s.addSession u cl).WfRefs := by
  intro u' r' hu
  rw [addSession_clientDb, Dict.get?_set] at hu
  split_ifs at hu with he
  · cases hu
    exact ⟨Nat.lt_succ_self _, by rw [addSession_objs_fresh, hcl, he]⟩
  · obtain ⟨hlt, hid⟩ := h u' r' hu
    exact ⟨Nat.lt_succ_of_lt hlt, by rw [addSession_objs hlt, hid]⟩

end Server

end Pipebomb
