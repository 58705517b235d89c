/-
  The administrative operations of `Server`: preset clients and keys.

  The four of `Admin` do not await, so each is one step.  What an operation changed before it
  raised stays changed: each gives the new server and what it returned or raised.  The
  containers of a ticket are taken over by value.  `apply_client_state` awaits the
  `outbox_lock` of the client.
-/
import Pipebomb.State

namespace Pipebomb

open ByteString

variable {K : Type}

structure NewClientTicket where
  uuid : PyStr
  addressesOwned : List PyStr
  inbox : List Request
  outbox : Dict Bytes Response

/-- `add_client`. -/
def addClient (s : Server K) (t : NewClientTicket) : Server K × Except PyErr Unit :=
  if t.uuid.length ≠ 36 then (s, .error uuidLength)
  else if t.uuid ∈ s.clientDb then (s, .error (.valueError "Client already in client db"))
  else if ∃ p ∈ t.outbox.items, p.1 ≠ p.2.response_uuid then
    (s, .error (.valueError "Response UUIDs do not match"))
  else (s.addSession t.uuid (.preset t.uuid t.addressesOwned t.inbox t.outbox), .ok ())

/-- `for key in keys: del address_book[key]`. -/
def deleteKeys (book : Dict PyStr PyStr) : List PyStr → Dict PyStr PyStr × Except PyErr Unit
  | [] => (book, .ok ())
  | key :: keys => if key ∈ book then deleteKeys (book.erase key) keys else (book, .error .keyError)

/-- `remove_client`.  The socket of the client is closed as well. -/
def removeClient (s : Server K) (uuid : PyStr) : Server K × Except PyErr Unit :=
  if uuid.length ≠ 36 then (s, .error uuidLength)
  else match s.clientDb.get? uuid with
    | none => (s, .error (.valueError "Client not in client db"))
    | some r => match deleteKeys s.addressBook (s.objs r).addressesOwned with
      | (book, .error e) => (s.setBook book, .error e)
      | (book, .ok ()) => ({ s.setBook book with clientDb := s.clientDb.erase uuid }, .ok ())

/-- `add_key`. -/
def addKey (s : Server K) (key uuid : PyStr) : Server K × Except PyErr Unit :=
  if uuid.length ≠ 36 then (s, .error uuidLength)
  else if key ∈ s.addressBook then (s, .error (.valueError "Key already exists"))
  else
    let s := s.setBook (s.addressBook.set key uuid)
    match s.clientDb.get? uuid with
    | none => (s, .error (.valueError "Client not in client db"))
    | some r => (s.modify r (Client.own key), .ok ())

/-- `remove_key`. -/
def removeKey (s : Server K) (key uuid : PyStr) : Server K × Except PyErr Unit :=
  if uuid.length ≠ 36 then (s, .error uuidLength)
  else if key ∉ s.addressBook then (s, .error (.valueError "Key not in address book"))
  else
    let s := s.setBook (s.addressBook.erase key)
    match s.clientDb.get? uuid with
    | none => (s, .error (.valueError "Client not in client db"))
    | some r =>
      if key ∈ (s.objs r).addressesOwned then
        (s.modify r (Client.disown key), .ok ())
      else (s, .error (.valueError "list.remove(x): x not in list"))

/-- `apply_client_state`'s loop over the keys of the ticket. -/
def bindKeys (book : Dict PyStr PyStr) (uuid : PyStr) (strict : Bool) :
    List PyStr → Dict PyStr PyStr × Except PyErr Unit
  | [] => (book, .ok ())
  | key :: keys =>
    if key ∈ book then bindKeys book uuid strict keys
    else if strict then (book, .error (.valueError "Key not in address book"))
    else bindKeys (book.set key uuid) uuid strict keys

/-- `addresses_owned = keys`. -/
def Client.setOwned (keys : List PyStr) (cl : Client K) : Client K := { cl with addressesOwned := keys }

/-- `apply_client_state`, where `outbox_lock` is free: the lock is taken without a suspension. -/
def applyClientState (s : Server K) (t : NewClientTicket) (strict : Bool) :
    Server K × Except PyErr Unit :=
  if t.uuid.length ≠ 36 then (s, .error uuidLength)
  else match s.clientDb.get? t.uuid with
    | none => (s, .error (.valueError "Client not in client db. Use add_client first."))
    | some r =>
      let s := s.modify r (Client.setInbox t.inbox)
      let s := s.modify r (Client.setOutbox t.outbox)
      match bindKeys s.addressBook t.uuid strict t.addressesOwned with
      | (book, .error e) => (s.setBook book, .error e)
      | (book, .ok ()) => ((s.setBook book).modify r (Client.setOwned t.addressesOwned), .ok ())

/-- An administrative call. -/
inductive Admin where
  | addClient (t : NewClientTicket)
  | removeClient (uuid : PyStr)
  | addKey (key uuid : PyStr)
  | removeKey (key uuid : PyStr)

def Admin.run (s : Server K) : Admin → Server K × Except PyErr Unit
  | .addClient t => Pipebomb.addClient s t
  | .removeClient uuid => Pipebomb.removeClient s uuid
  | .addKey key uuid => Pipebomb.addKey s key uuid
  | .removeKey key uuid => Pipebomb.removeKey s key uuid

end Pipebomb
