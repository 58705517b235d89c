/-
  Checkpoints: `serialize` and `deserialize` of `server.py`.

  A checkpoint has three parallel tables with the type, the length and the value of
  each field.  `serialize` runs here on its own, so every `outbox_lock` it takes is
  free; it empties the inboxes it reads, also when it raises part-way.

  * `Snapshot`: the three maps of a server by value; `snapshot` takes it, `deserialize`
    returns one, `applyState` installs one.
  * `tables` builds the tables, `serialize` packs and compresses them.
  * `deserialize` reads the tables back and folds over the fields with `restoreField`,
    which keeps the pending database key and address.
-/
import Pipebomb.State

namespace Pipebomb

open ByteString

variable {K : Type}

/-- The maps of a server with the `Client` objects by value. -/
@[ext] structure Snapshot (K : Type) where
  db : Dict Bytes Bytes
  addressBook : Dict PyStr PyStr
  clientDb : Dict PyStr (Client K)

/-- What the server holds. -/
def Server.snapshot (s : Server K) : Snapshot K := ⟨s.db, s.addressBook, s.clientDb.mapVal s.objs⟩

/-! ## `serialize` -/

/-- The tables of types, lengths and values while they grow. -/
structure Tables where
  t : List UInt8
  l : List Bytes
  v : List Bytes
  deriving DecidableEq, Repr

/-- `add_field`. -/
def Tables.addField (T : Tables) (fieldType : UInt8) (value : Bytes) : Except PyErr Tables := do
  let length ← packI value.length
  .ok ⟨T.t ++ [fieldType], T.l ++ [length], T.v ++ [value]⟩

/-- The byte strings one after the other, each behind its packed length. -/
def packFields : List Bytes → Except PyErr Bytes
  | [] => .ok []
  | bs :: bss => do
    let length ← packI bs.length
    let rest ← packFields bss
    .ok (length ++ bs ++ rest)

/-- The owned addresses, each behind its packed length. -/
def packAddresses : List PyStr → Except PyErr Bytes
  | [] => .ok []
  | address :: rest => do
    let encoded ← latin1Encode address
    let length ← packI encoded.length
    let packed ← packAddresses rest
    .ok (length ++ encoded ++ packed)

def packRequest (q : Request) : Except PyErr Bytes :=
  packFields [q.return_uuid, q.key, q.request, q.request_uuid]

def packResponse (p : Response) : Except PyErr Bytes :=
  packFields [p.key, p.response, p.response_uuid]

/-- Get the requests of an inbox one by one and pack them; what is left in the inbox,
    and the packed requests. -/
def drainInbox : List Request → List Request × Except PyErr Bytes
  | [] => ([], .ok [])
  | q :: qs => match packRequest q with
    | .error e => (qs, .error e)
    | .ok bs => match drainInbox qs with
      | (left, .error e) => (left, .error e)
      | (left, .ok bss) => (left, .ok (bs ++ bss))

/-- The responses of an outbox, packed. -/
def packOutbox : List Response → Except PyErr Bytes
  | [] => .ok []
  | p :: ps => do
    let bs ← packResponse p
    let bss ← packOutbox ps
    .ok (bs ++ bss)

def serializeDb (T : Tables) : List (Bytes × Bytes) → Except PyErr Tables
  | [] => .ok T
  | (key, value) :: rest => do
    let T ← T.addField 0x10 key
    let T ← T.addField 0x11 value
    serializeDb T rest

def serializeAddressBook (T : Tables) : List (PyStr × PyStr) → Except PyErr Tables
  | [] => .ok T
  | (key, uuid) :: rest => do
    if uuid.length ≠ 36 then .error uuidLength
    else
      let length ← packI key.length
      let encoded ← latin1Encode key
      let T ← T.addField 0x20 (length ++ encoded)
      let encodedUuid ← latin1Encode uuid
      let T ← T.addField 0x21 encodedUuid
      serializeAddressBook T rest

/-- The fields of a client before its inbox is read. -/
def serializeOwned (T : Tables) (cl : Client K) : Except PyErr Tables := do
  if cl.uuid.length ≠ 36 then .error uuidLength
  else
    let uuid ← latin1Encode cl.uuid
    let T ← T.addField 0x30 uuid
    let addressesOwned ← packAddresses cl.addressesOwned
    T.addField 0x31 (uuid ++ addressesOwned)

/-- The fields of a client from its inbox on. -/
def serializeBoxes (T : Tables) (cl : Client K) (inboxItems : Except PyErr Bytes) :
    Except PyErr Tables := do
  let inbox ← inboxItems
  let uuid ← latin1Encode cl.uuid
  let T ← T.addField 0x32 (uuid ++ inbox)
  let outbox ← packOutbox cl.outbox.values
  T.addField 0x33 (uuid ++ outbox)

/-- The fields of the client behind a reference; its inbox is read until it is empty. -/
def serializeClient (s : Server K) (T : Tables) (r : Ref) : Server K × Except PyErr Tables :=
  let cl := s.objs r
  match serializeOwned T cl with
  | .error e => (s, .error e)
  | .ok T =>
    let (left, inboxItems) := drainInbox cl.inbox
    (s.modify r (Client.setInbox left), serializeBoxes T cl inboxItems)

def serializeClients (s : Server K) (T : Tables) : List Ref → Server K × Except PyErr Tables
  | [] => (s, .ok T)
  | r :: rs => match serializeClient s T r with
    | (s, .error e) => (s, .error e)
    | (s, .ok T) => serializeClients s T rs

/-- The tables of a checkpoint. -/
def tables (s : Server K) : Server K × Except PyErr Tables :=
  match serializeDb ⟨[], [], []⟩ s.db.items with
  | .error e => (s, .error e)
  | .ok T => match serializeAddressBook T s.addressBook.items with
    | .error e => (s, .error e)
    | .ok T => serializeClients s T s.clientDb.values

/-- The tables behind their three lengths. -/
def Tables.join (T : Tables) : Except PyErr Bytes := do
  let typeTable := T.t
  let lengthTable := T.l.flatten
  let valueTable := T.v.flatten
  let a ← packI typeTable.length
  let b ← packI lengthTable.length
  let c ← packI valueTable.length
  .ok (a ++ b ++ c ++ typeTable ++ lengthTable ++ valueTable)

/-- The number a checkpoint starts with. -/
def CHECKPOINT_MAGIC : ℕ := 0x91938038

def serialize (L : Libs K) (s : Server K) : Server K × Except PyErr Bytes :=
  match tables s with
  | (s, .error e) => (s, .error e)
  | (s, .ok T) => (s, do
      let serializedData ← T.join
      let magic ← packI CHECKPOINT_MAGIC
      .ok (magic ++ L.compress 22 serializedData))

/-! ## `deserialize` -/

/-- Read a length and as many bytes at the cursor; the bytes and the new cursor. -/
def readField (value : Bytes) (cursor : ℕ) : Except PyErr (Bytes × ℕ) := do
  let length ← unpackFromI value cursor
  .ok (slice value (cursor + 4) (cursor + 4 + length), cursor + 4 + length)

def readAddress (value : Bytes) (cursor : ℕ) : Except PyErr (PyStr × ℕ) := do
  let (address, cursor) ← readField value cursor
  .ok (latin1Decode address, cursor)

def readRequest (value : Bytes) (cursor : ℕ) : Except PyErr (Request × ℕ) := do
  let (return_uuid, cursor) ← readField value cursor
  let (key, cursor) ← readField value cursor
  let (request, cursor) ← readField value cursor
  let (request_uuid, cursor) ← readField value cursor
  .ok (⟨return_uuid, key, request, request_uuid⟩, cursor)

def readResponse (value : Bytes) (cursor : ℕ) : Except PyErr (Response × ℕ) := do
  let (key, cursor) ← readField value cursor
  let (response, cursor) ← readField value cursor
  let (response_uuid, cursor) ← readField value cursor
  .ok (⟨key, response, response_uuid⟩, cursor)

/-- `while cursor < len(value)`: read the items from the cursor on, at most `n` of them.
    Every item takes at least four bytes. -/
def readItems {ι : Type} (read : Bytes → ℕ → Except PyErr (ι × ℕ)) (value : Bytes) :
    ℕ → ℕ → Except PyErr (List ι)
  | 0, _ => .ok []
  | n + 1, cursor => do
    if cursor < value.length then
      let (x, cursor) ← read value cursor
      let xs ← readItems read value n cursor
      .ok (x :: xs)
    else .ok []

/-- The items of a value behind the uuid. -/
def itemsOf {ι : Type} (read : Bytes → ℕ → Except PyErr (ι × ℕ)) (value : Bytes) :
    Except PyErr (List ι) := readItems read value value.length 36

/-- The maps while they are restored, with the pending key and the pending address. -/
structure Restoring (K : Type) extends Snapshot K where
  pendingDbKey : Option Bytes
  pendingAddress : Option PyStr

/-- Assign a restored client. -/
def Snapshot.setClient (C : Snapshot K) (uuid : PyStr) (cl : Client K) : Snapshot K :=
  { C with clientDb := C.clientDb.set uuid cl }

def Restoring.setClient (st : Restoring K) (uuid : PyStr) (cl : Client K) : Restoring K :=
  { st with toSnapshot := st.toSnapshot.setClient uuid cl }

/-- The loop body of `deserialize`: one field. -/
def restoreField (st : Restoring K) (fieldType : UInt8) (value : Bytes) :
    Except PyErr (Restoring K) := do
  if fieldType = 0x10 then .ok { st with pendingDbKey := some value }
  else if fieldType = 0x11 then
    match st.pendingDbKey with
    | none => .error (.valueError "Encountered DB value without a preceding DB key.")
    | some key => .ok { st with db := st.db.set key value, pendingDbKey := none }
  else if fieldType = 0x20 then
    let keyLength ← unpackFromI value 0
    .ok { st with pendingAddress := some (latin1Decode (slice value 4 (4 + keyLength))) }
  else if fieldType = 0x21 then
    match st.pendingAddress with
    | none => .error (.valueError "Encountered address UUID without a preceding address.")
    | some address =>
      .ok { st with
        addressBook := st.addressBook.set address (latin1Decode value)
        pendingAddress := none }
  else if fieldType = 0x30 then
    let uuid := latin1Decode value
    .ok (st.setClient uuid (.preset uuid [] [] .empty))
  else if fieldType = 0x31 then
    let uuid := latin1Decode (value.take 36)
    match st.clientDb.get? uuid with
    | none => .error (.valueError
        "Client not found in client db. This likely means a malformed UUID")
    | some cl =>
      let addresses ← itemsOf readAddress value
      .ok (st.setClient uuid { cl with addressesOwned := cl.addressesOwned ++ addresses })
  else if fieldType = 0x32 then
    let uuid := latin1Decode (value.take 36)
    match st.clientDb.get? uuid with
    | none => .error .keyError
    | some cl =>
      let requests ← itemsOf readRequest value
      .ok (st.setClient uuid { cl with inbox := cl.inbox ++ requests })
  else if fieldType = 0x33 then
    let uuid := latin1Decode (value.take 36)
    match st.clientDb.get? uuid with
    | none => .error .keyError
    | some cl =>
      let responses ← itemsOf readResponse value
      .ok (st.setClient uuid
        { cl with outbox := cl.outbox.setAll (responses.map fun p => (p.response_uuid, p)) })
  else .ok st

/-- `for field_type, value in zip(table_of_t, table_of_v, strict=True)`. -/
def restoreFields : Restoring K → List UInt8 → List Bytes → Except PyErr (Restoring K)
  | st, t :: ts, v :: vs => do
    let st ← restoreField st t v
    restoreFields st ts vs
  | st, [], [] => .ok st
  | _, _ :: _, [] => .error (.valueError "zip() argument 2 is shorter than argument 1")
  | _, [], _ :: _ => .error (.valueError "zip() argument 2 is longer than argument 1")

/-- `n` lengths, read four bytes apart. -/
def readLengths (tableOfL : Bytes) : ℕ → ℕ → Except PyErr (List ℕ)
  | 0, _ => .ok []
  | n + 1, i => do
    let length ← unpackFromI tableOfL i
    let rest ← readLengths tableOfL n (i + 4)
    .ok (length :: rest)

/-- `deserialize` after decompression. -/
def restore (serializedData : Bytes) : Except PyErr (Snapshot K) := do
  let header ← unpackFrom0 3 serializedData
  let typeLength := header.getD 0 0
  let lengthLength := header.getD 1 0
  let valueLength := header.getD 2 0
  let tableOfT := slice serializedData 12 (12 + typeLength)
  let offset := 12 + typeLength
  let tableOfL := slice serializedData offset (offset + lengthLength)
  let offset := offset + lengthLength
  let tableOfV := slice serializedData offset (offset + valueLength)
  let lengths ← readLengths tableOfL ((lengthLength + 3) / 4) 0
  let st ← restoreFields ⟨⟨.empty, .empty, .empty⟩, none, none⟩ tableOfT
    (slices tableOfV lengths 0)
  .ok st.toSnapshot

def deserialize (L : Libs K) (data : Bytes) : Except PyErr (Snapshot K) := do
  let magic ← unpackFromI data 0
  if magic ≠ CHECKPOINT_MAGIC then
    .error (.valueError ("Invalid magic 0x" ++ hexUpper 8 magic ++ ", expected 0x91938038."))
  else
    match L.decompress (data.drop 4) with
    | none => .error .zstdError
    | some serializedData => restore serializedData

/-- `apply_state`: the server takes over restored maps. -/
def Server.applyState (s : Server K) (R : Snapshot K) : Server K :=
  R.clientDb.items.foldl (fun s p => s.addSession p.1 p.2)
    { s with db := R.db, addressBook := R.addressBook, clientDb := .empty }

end Pipebomb
