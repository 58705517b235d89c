/-
  `handle_client` of `server.py`: the coroutine that serves one connection.

  The coroutine is a state machine whose states are its awaits (`Await`).  One event
  loop runs all coroutines, so the code from one await to the next is atomic:
  `handlerStep` resumes the coroutine at its await and runs it to the next one.  Every
  await may suspend.  The bytes of a send are handed to the transport when the send
  starts (`Obs.write`); the transport decides when they get out, and the send ends
  later.  A lock or an item that several coroutines wait for may go to any of them.

  * `command` decodes the first byte of a payload, `dispatch` runs a command up to its
    reply or its first await, `DbOp.run` is the body of a command under `db_lock`.
  * `sendPacket` builds a packet around a reply and starts to send it.
  * `onFrame` verifies a frame and dispatches its payload, `pump` looks for the next
    frame in the buffer.
  * An exception ends the coroutine; the lock it holds is released, the code behind
    the loop (`teardown`) does not run.
-/
import Pipebomb.State

namespace Pipebomb

open ByteString

/-! ## Observations -/

/-- The two ends of a connection: the modelled client, or the server's end of `c`. -/
inductive Party where
  | client
  | server (c : ConnId)
  deriving DecidableEq, Repr

/-- What can be seen of a run. -/
inductive Obs (K : Type) where
  /-- `cipher.encrypt` for a packet around `data` -/
  | encrypt (p : Party) (k : K) (n : ℕ) (data : Bytes)
  /-- `cipher.decrypt` of a received ciphertext -/
  | decrypt (p : Party) (k : K) (n : ℕ) (ct : Bytes)
  /-- a received payload passed verification -/
  | accepted (p : Party) (data : Bytes)
  /-- bytes are handed to the socket -/
  | write (p : Party) (bs : Bytes)
  /-- the handler of a session starts to send the reply to the payload `data` -/
  | answered (c : ConnId) (uuid : PyStr) (data reply : Bytes)
  /-- a login entered a new session into `client_db` -/
  | session (c : ConnId) (uuid : PyStr)
  /-- a RELOGIN attached the session to the connection -/
  | relogin (c : ConnId) (uuid : PyStr)
  /-- an operation of the client put its packet into the queue -/
  | called (data : Bytes)
  /-- the operation that sent `data` received a packet -/
  | returned (data reply : Bytes)
  /-- the operation that sent `data` received no packet in time -/
  | timedOut (data : Bytes)
  deriving DecidableEq

variable {K : Type} (L : Libs K)

/-- The call of `encrypt` that `constructPacket` makes. -/
def encryptCall (p : Party) (data : Bytes) (cipher : Option K) (txNonce : ℕ) : List (Obs K) :=
  match cipher with
  | none => []
  | some k => if data ≠ [] ∧ txNonce < 2 ^ 96 then [.encrypt p k txNonce data] else []

/-- The call of `decrypt` that `verifyPacket` makes. -/
def decryptCall (p : Party) (packet : Bytes) (cipher : Option K) (rxNonce : ℕ) : List (Obs K) :=
  match cipher, ciphertextOf packet with
  | some k, some ct => if rxNonce < 2 ^ 96 then [.decrypt p k rxNonce ct] else []
  | _, _ => []

theorem encryptCall_eq (p : Party) {data : Bytes} (k : K) {n : ℕ} (hd : data ≠ []) (hn : n < 2 ^ 96) :
    encryptCall p data (some k) n = [.encrypt p k n data] := if_pos ⟨hd, hn⟩

theorem decryptCall_eq {packet ct : Bytes} (hct : ciphertextOf packet = some ct) (p : Party) (k : K)
    (n : ℕ) :
    decryptCall p packet (some k) n = if n < 2 ^ 96 then [.decrypt p k n ct] else [] := by
  simp only [decryptCall, hct]

/-! ## Error replies -/

/-- `ERR_DISPATCH[n]`. -/
def errDispatch (n : ℕ) : Except PyErr Bytes :=
  if 2 ≤ n ∧ n ≤ 7 then .ok [0, 69, 82, 82, UInt8.ofNat n] else .error .keyError

/-- `err_to_human_readable`. -/
def errToHumanReadable : ℕ → String
  | 0 => "Success"
  | 1 => "Unknown error"
  | 2 => "Invalid packet"
  | 3 => "Invalid crc32 or MAC"
  | 4 => "Invalid command"
  | 5 => "Key does not exist or the key already exists"
  | 6 => "Invalid value"
  | 7 => "UUID does not exist"
  | 8 => "Empty outbox"
  | _ => "Unknown error"

/-! ## Commands -/

/-- The commands that run under `db_lock`. -/
inductive DbOp where
  | set
  | get
  | delete
  | list
  deriving DecidableEq, Repr

/-- The commands. -/
inductive Command where
  | db (op : DbOp)
  | register
  | unregister
  | whoami
  | bye
  | whohas
  | putInbox
  | getInbox
  | putOutbox
  | getOutbox
  | unknown
  deriving DecidableEq, Repr

/-- The command in the first byte of a payload. -/
def command (type_ : UInt8) : Command :=
  let opcode := type_ &&& 0xF
  if type_ &&& 0x80 ≠ 0 then
    if opcode = 1 then .db .set
    else if opcode = 2 then .db .get
    else if opcode = 3 then .db .delete
    else if opcode = 4 then .db .list
    else if opcode = 5 then .register
    else if opcode = 6 then .unregister
    else if opcode = 7 then .whoami
    else if opcode = 8 then .bye
    else .unknown
  else
    if opcode = 1 then .whohas
    else if opcode = 2 then .putInbox
    else if opcode = 3 then .getInbox
    else if opcode = 4 then .putOutbox
    else if opcode = 5 then .getOutbox
    else .unknown

/-- The lock a coroutine holds while it sends. -/
inductive Held where
  | none
  | dbLock
  | outboxLock (r : Ref)
  deriving DecidableEq, Repr

/-- What follows a send: the next round of the loop, the end of the loop after a packet
    that failed verification, or the end of the inner loop after an invalid header. -/
inductive After where
  | next
  | close
  | frameError
  deriving DecidableEq, Repr

/-- The awaits of `handle_client`. -/
inductive Await where
  /-- the coroutine was created -/
  | start
  /-- `asyncio.sleep(0)` -/
  | sleep
  /-- `sock_recv` -/
  | recv
  /-- `db_lock.acquire()` -/
  | dbLock (op : DbOp)
  /-- `client.inbox.get()` -/
  | inboxGet (r : Ref)
  /-- `client.outbox_lock.acquire()`, to write the response -/
  | outboxPut (r : Ref) (response : Response)
  /-- `client.outbox_lock.acquire()`, to take the response with the id -/
  | outboxGet (r : Ref) (requestUuid : Bytes)
  /-- `sock_sendall` -/
  | sendall (held : Held) (after : After)
  deriving DecidableEq, Repr

/-- The variables of `handle_client`: `data` is the payload being processed. -/
structure Handler where
  uuid : PyStr
  receiveBuffer : Bytes
  data : Bytes
  pc : Await
  deriving DecidableEq, Repr

/-- What a command does next: send a reply, await, raise, or leave the loop. -/
inductive Next where
  | reply (data : Bytes)
  | wait (pc : Await)
  | raise (e : PyErr)
  | bye
  deriving DecidableEq, Repr

/-- Send the reply, or raise if it cannot be made. -/
def answer : Except PyErr Bytes → Next
  | .ok data => .reply data
  | .error e => .raise e

/-- The fields of a body that starts with their `n` lengths. -/
def splitBody (n : ℕ) (value : Bytes) : Except PyErr (List Bytes) := do
  let lengths ← unpackI n (value.take (4 * n))
  .ok (slices value lengths (4 * n))

/-- REGISTER. -/
def register (s : Server K) (uuid : PyStr) (name : PyStr) : Server K × Next :=
  if name ∈ s.addressBook then (s, answer (errDispatch 5))
  else match s.clientDb.get? uuid with
    | none => (s, .raise .keyError)
    | some r =>
      -- `self.client_db[uuid] = client` assigns the object that is there
      ((s.modify r (Client.own name)).setBook (s.addressBook.set name uuid), .reply ACK)

/-- UNREGISTER. -/
def unregister (s : Server K) (uuid : PyStr) (name : PyStr) : Server K × Next :=
  match s.clientDb.get? uuid with
  | none => (s, .raise .keyError)
  | some r =>
    if name ∉ (s.objs r).addressesOwned then (s, answer (errDispatch 5))
    else
      let s := s.modify r (Client.disown name)
      if name ∈ s.addressBook then (s.setBook (s.addressBook.erase name), .reply ACK)
      else (s, .raise .keyError)

/-- WHOHAS. -/
def whohas (s : Server K) (name : PyStr) : Next :=
  match s.addressBook.get? name with
  | none => answer (errDispatch 5)
  | some uuid => answer (latin1Encode uuid)

/-- PUT_INBOX; `draw` is the `uuid4()` of the operation. -/
def putInbox (s : Server K) (uuid : PyStr) (value : Bytes) (draw : Uuid4) : Server K × Next :=
  match splitBody 3 value with
  | .ok [target, request, key] => match s.clientDb.get? (latin1Decode target) with
    | none => (s, .raise .keyError)
    | some r => match latin1Encode uuid with
      | .error e => (s, .raise e)
      | .ok sender =>
        (s.modify r (Client.put ⟨sender, key, request, draw.bytes⟩), .reply draw.bytes)
  | .ok _ => (s, .raise .structError)
  | .error e => (s, .raise e)

/-- PUT_OUTBOX up to the lock. -/
def putOutbox (s : Server K) (value : Bytes) : Next :=
  match splitBody 4 value with
  | .ok [target, response, key, requestUuid] => match s.clientDb.get? (latin1Decode target) with
    | none => .raise .keyError
    | some r => .wait (.outboxPut r ⟨key, response, requestUuid⟩)
  | .ok _ => .raise .structError
  | .error e => .raise e

/-- A command up to its reply or its first await. -/
def dispatch (s : Server K) (uuid : PyStr) (data : Bytes) (draw : Uuid4) : Server K × Next :=
  match data with
  | [] => (s, .raise .indexError)
  | type_ :: value => match command type_ with
    | .db op => (s, .wait (.dbLock op))
    | .register => register s uuid (latin1Decode value)
    | .unregister => unregister s uuid (latin1Decode value)
    | .whoami => (s, answer (latin1Encode uuid))
    | .bye => (s, .bye)
    | .whohas => (s, whohas s (latin1Decode value))
    | .putInbox => putInbox s uuid value draw
    | .getInbox => match s.clientDb.get? uuid with
      | none => (s, .raise .keyError)
      | some r => (s, .wait (.inboxGet r))
    | .putOutbox => (s, putOutbox s value)
    | .getOutbox => match s.clientDb.get? uuid with
      | none => (s, .raise .keyError)
      | some r => (s, .wait (.outboxGet r value))
    | .unknown => (s, answer (errDispatch 4))

/-- The reply to GET: the value at the key, or error 5. -/
def lookupReply (db : Dict Bytes Bytes) (key : Bytes) : Except PyErr Bytes :=
  match db.get? key with
  | none => errDispatch 5
  | some v => .ok v

/-- The database as `json.dumps` writes it. -/
def listReply (db : Dict Bytes Bytes) : Except PyErr Bytes :=
  latin1Encode (jsonDumps (db.items.map fun p => (latin1Decode p.1, latin1Decode p.2)))

/-- The body of a command under `db_lock`. -/
def DbOp.run (op : DbOp) (s : Server K) (value : Bytes) : Server K × Except PyErr Bytes :=
  match op with
  | .set => match splitBody 2 value with
    | .ok [key, v] => (s.setDb (s.db.set key v), .ok ACK)
    | .ok _ => (s, .error .structError)
    | .error e => (s, .error e)
  | .get => (s, lookupReply s.db value)
  | .delete =>
    if value ∈ s.db then (s.setDb (s.db.erase value), .ok ACK) else (s, errDispatch 5)
  | .list => (s, listReply s.db)

/-- The reply to GET_INBOX. -/
def inboxReply (q : Request) : Except PyErr Bytes := do
  let a ← packI q.return_uuid.length
  let b ← packI q.request.length
  let c ← packI q.key.length
  let d ← packI q.request_uuid.length
  .ok (a ++ b ++ c ++ d ++ q.return_uuid ++ q.request ++ q.key ++ q.request_uuid)

/-- The reply to GET_OUTBOX. -/
def outboxReply (p : Response) : Except PyErr Bytes := do
  let a ← packI p.key.length
  let b ← packI p.response.length
  .ok (a ++ b ++ p.key ++ p.response)

/-! ## The coroutine -/

/-- Where the coroutine of a connection stands; `A` are the states of `accept_clients`. -/
inductive Task (A : Type) where
  | idle
  | accept (a : A)
  | handler (h : Handler)
  | over (e : Option PyErr)

variable {A : Type}

/-- The server, the coroutine and what was seen after a step. -/
abbrev Outcome (K A : Type) := Server K × Task A × List (Obs K)

/-- Give back a lock. -/
def Server.release (s : Server K) : Held → Server K
  | .none => s
  | .dbLock => s.setDbLock false
  | .outboxLock r => s.modify r (Client.setOutboxLock false)

/-- The lock held at an await. -/
def Await.held : Await → Held
  | .sendall held _ => held
  | _ => .none

/-- An exception leaves the coroutine. -/
def raised (s : Server K) (held : Held) (e : PyErr) : Outcome K A :=
  (s.release held, .over (some e), [])

/-- What was seen before the rest of a step. -/
def seen (os : List (Obs K)) (o : Outcome K A) : Outcome K A := (o.1, o.2.1, os ++ o.2.2)

/-- Build a packet around a reply and start to send it. -/
def sendPacket (s : Server K) (c : ConnId) (h : Handler) (reply : Bytes) (held : Held)
    (after : After) : Outcome K A :=
  match s.client h.uuid with
  | none => raised s held .keyError
  | some cl =>
    seen (encryptCall (.server c) reply cl.cipher cl.txNonce)
      (match constructPacket L reply cl.cipher cl.txNonce with
      | .error e => raised s held e
      | .ok pkt => (s, .handler { h with pc := .sendall held after },
          .write (.server c) pkt ::
            if after = .next then [.answered c h.uuid h.data reply] else []))

/-- Send a reply, or let the exception of making it leave the coroutine. -/
def sendReply (s : Server K) (c : ConnId) (h : Handler) (reply : Except PyErr Bytes)
    (held : Held) (after : After) : Outcome K A :=
  match reply with
  | .error e => raised s held e
  | .ok data => sendPacket L s c h data held after

/-- The code behind the loop: of the names of the session the first is released. -/
def teardown (s : Server K) (uuid : PyStr) : Server K :=
  if s.keepDeadSessions then s
  else
    { s with
      addressBook := match s.addressBook.items.find? fun p => p.2 = uuid with
        | none => s.addressBook
        | some p => s.addressBook.erase p.1
      clientDb := s.clientDb.erase uuid }

/-- Go on after `dispatch`. -/
def proceed (c : ConnId) (h : Handler) (o : Server K × Next) : Outcome K A :=
  match o.2 with
  | .reply data => sendPacket L o.1 c h data .none .next
  | .wait pc => (o.1, .handler { h with pc := pc }, [])
  | .raise e => raised o.1 .none e
  | .bye => (teardown o.1 h.uuid, .over none, [])

/-- `self.client_db[uuid].rx_nonce += 1`. -/
def Client.received (cl : Client K) : Client K := { cl with rxNonce := cl.rxNonce + 1 }

/-- `self.client_db[uuid].tx_nonce += 1`. -/
def Client.sent (cl : Client K) : Client K := { cl with txNonce := cl.txNonce + 1 }

/-- The exception of `verify_packet` without a frame: behind the nonce, `len(None)` raises. -/
def noFrame (rxNonce : ℕ) : PyErr :=
  match nonceBytes rxNonce with
  | .error e => e
  | .ok _ => .typeError

/-- Verify a frame and process its payload. -/
def onFrame (s : Server K) (c : ConnId) (h : Handler) (frame : Option Bytes) (draw : Uuid4) :
    Outcome K A :=
  match s.clientDb.get? h.uuid, frame with
  | none, _ => raised s .none .keyError
  | some r, none => raised s .none (noFrame (s.objs r).rxNonce)
  | some r, some f =>
    let cl := s.objs r
    seen (decryptCall (.server c) f cl.cipher cl.rxNonce)
      (match verifyPacket L f cl.cipher cl.rxNonce with
      | .error e => raised s .none e
      | .ok (.code n) => sendReply L (s.modify r Client.received) c h (errDispatch n) .none .close
      | .ok (.payload data _) =>
        seen [.accepted (.server c) data]
          (proceed L c { h with data := data }
            (dispatch (s.modify r Client.received) h.uuid data draw)))

/-- Look for a frame in the buffer; wait for more, refuse an invalid header, or process
    the frame. -/
def pump (s : Server K) (c : ConnId) (h : Handler) (draw : Uuid4) : Outcome K A :=
  match extractPacketFrame h.receiveBuffer with
  | (_, rest, some e) => match errDispatch e with
    | .error e => raised s .none e
    | .ok bs => (s, .handler { h with receiveBuffer := rest, pc := .sendall .none .frameError },
        [.write (.server c) bs])
  | (some f, rest, none) => onFrame L s c { h with receiveBuffer := rest } (some f) draw
  | (none, rest, none) => (s, .handler { h with receiveBuffer := rest, pc := .recv }, [])

/-- What an await gives. -/
inductive Input where
  /-- the coroutine goes on: a sleep ended, a lock or an item is there -/
  | go
  /-- `sock_recv` gives a chunk, the empty one at the end of the stream -/
  | recv (chunk : Bytes)
  /-- `sock_sendall` ends -/
  | sent
  /-- the await raises -/
  | raise (e : PyErr)
  deriving DecidableEq, Repr

/-- The first steps of the coroutine. -/
def started (s : Server K) (h : Handler) : Outcome K A :=
  match s.client h.uuid with
  | none => raised s .none .keyError
  | some cl =>
    if cl.cipher.isNone then
      raised s .none (.runtimeError ("Client " ++ String.ofList h.uuid ++ " has no cipher"))
    else (s, .handler { h with pc := .sleep }, [])

/-- A send ended. -/
def onSent (s : Server K) (c : ConnId) (h : Handler) (held : Held) (after : After)
    (draw : Uuid4) : Outcome K A :=
  match after with
  | .frameError => onFrame L s c h none draw
  | .next => match s.clientDb.get? h.uuid with
    | none => raised s held .keyError
    | some r => ((s.modify r Client.sent).release held, .handler { h with pc := .sleep }, [])
  | .close => match s.clientDb.get? h.uuid with
    | none => raised s held .keyError
    | some r => (teardown ((s.modify r Client.sent).release held) h.uuid, .over none, [])

/-- **One step of the coroutine**: resume it at its await and run it to the next. -/
def handlerStep (s : Server K) (c : ConnId) (h : Handler) (i : Input) (draw : Uuid4) :
    Option (Outcome K A) :=
  match h.pc, i with
  | .start, .go => some (started s h)
  | .sleep, .go => some (pump L s c h draw)
  | .recv, .recv chunk =>
    if 1024 < chunk.length then none
    else if chunk = [] then some (onFrame L s c h none draw)
    else some (pump L s c { h with receiveBuffer := h.receiveBuffer ++ chunk } draw)
  | .dbLock op, .go =>
    if s.dbLock then none
    else
      let (s, reply) := op.run (s.setDbLock true) h.data.tail
      some (sendReply L s c h reply .dbLock .next)
  | .inboxGet r, .go => match (s.objs r).inbox with
    | [] => none
    | q :: qs =>
      some (sendReply L (s.modify r (Client.setInbox qs)) c h (inboxReply q) .none
        .next)
  | .outboxPut r p, .go =>
    if (s.objs r).outboxLock then none
    else
      let s := s.modify r (Client.setOutbox ((s.objs r).outbox.set p.response_uuid p))
      some (sendPacket L s c h ACK .none .next)
  | .outboxGet r id, .go =>
    if (s.objs r).outboxLock then none
    else
      let s := s.modify r (Client.setOutboxLock true)
      match (s.objs r).outbox.get? id with
      | none => some (sendReply L s c h (errDispatch 7) (.outboxLock r) .next)
      | some p =>
        some (sendReply L (s.modify r (Client.setOutbox ((s.objs r).outbox.erase id))) c h
          (outboxReply p) (.outboxLock r) .next)
  | .sendall held after, .sent => some (onSent L s c h held after draw)
  | pc, .raise e => some (raised s pc.held e)
  | _, _ => none

end Pipebomb
