/-
  The server over a storage backend.

  `client_db` of a backend like Redis or SQLite keeps clients by value: indexing gives a
  copy, and only an assignment changes what is stored.  The handshake and the handler are
  modelled again for such a store, under the names they have for the default dictionary.

  * The objects of a state are those that are stored, which nobody else refers to, and the
    copies that coroutines work on; `load` makes a copy, `addSession` stores one.
  * `Backend` is what the maps of a backend may do otherwise than dictionaries: iterate in
    another order.
  * Where the source changes what indexing returned without assigning it
    (`self.client_db[uuid].rx_nonce += 1`), the state stays the same.
-/
import Pipebomb.System

namespace Pipebomb

open ByteString

/-- A storage backend: its maps give their items in some order. -/
structure Backend where
  dbItems : Dict Bytes Bytes → List (Bytes × Bytes)
  bookItems : Dict PyStr PyStr → List (PyStr × PyStr)
  dbItems_perm : ∀ d, (dbItems d).Perm d.items
  bookItems_perm : ∀ d, (bookItems d).Perm d.items

/-- Items in the order in which they were inserted. -/
def Backend.insertion : Backend := ⟨Dict.items, Dict.items, fun _ => .refl _, fun _ => .refl _⟩

namespace ByValue

variable {K : Type} (L : Libs K) (B : Backend)

/-- Copy a stored object; the copy is at the old `fresh`. -/
def load (s : Server K) (r : Ref) : Server K :=
  { s with objs := Function.update s.objs s.fresh (s.objs r), fresh := s.fresh + 1 }

/-! ## `handle_client` -/

/-- REGISTER. -/
def register (s : Server K) (uuid : PyStr) (name : PyStr) : Server K × Next :=
  if name ∈ s.addressBook then (s, answer (errDispatch 5))
  else match s.clientDb.get? uuid with
    | none => (s, .raise .keyError)
    | some r =>
      ((s.setBook (s.addressBook.set name uuid)).addSession uuid ((s.objs r).own name), .reply ACK)

/-- UNREGISTER. -/
def unregister (s : Server K) (uuid : PyStr) (name : PyStr) : Server K × Next :=
  match s.clientDb.get? uuid with
  | none => (s, .raise .keyError)
  | some r =>
    if name ∉ (s.objs r).addressesOwned then (s, answer (errDispatch 5))
    else if name ∈ s.addressBook then
      ((s.setBook (s.addressBook.erase name)).addSession uuid ((s.objs r).disown name), .reply ACK)
    else (s, .raise .keyError)

/-- PUT_INBOX; the request is put into the inbox of a copy. -/
def putInbox (s : Server K) (uuid : PyStr) (value : Bytes) (draw : Uuid4) : Server K × Next :=
  match splitBody 3 value with
  | .ok [target, _, _] => match s.clientDb.get? (latin1Decode target) with
    | none => (s, .raise .keyError)
    | some _ => match latin1Encode uuid with
      | .error e => (s, .raise e)
      | .ok _ => (s, .reply draw.bytes)
  | .ok _ => (s, .raise .structError)
  | .error e => (s, .raise e)

/-- PUT_OUTBOX up to the lock. -/
def putOutbox (s : Server K) (value : Bytes) : Server K × Next :=
  match splitBody 4 value with
  | .ok [target, response, key, requestUuid] => match s.clientDb.get? (latin1Decode target) with
    | none => (s, .raise .keyError)
    | some r => (load s r, .wait (.outboxPut s.fresh ⟨key, response, requestUuid⟩))
  | .ok _ => (s, .raise .structError)
  | .error e => (s, .raise e)

/-- A command up to its reply or its first await. -/
def dispatch (s : Server K) (uuid : PyStr) (data : Bytes) (draw : Uuid4) : Server K × Next :=
  match data with
  | [] => (s, .raise .indexError)
  | type_ :: value => match command type_ with
    | .db op => (s, .wait (.dbLock op))
    | .register => register s uuid (latin1Decode value)
    | .unregister => unregister s uuid (latin1Decode value)
    | .whoami => (s, answer (latin1Encode uuid))
    | .bye => (s, .bye)
    | .whohas => (s, whohas s (latin1Decode value))
    | .putInbox => putInbox s uuid value draw
    | .getInbox => match s.clientDb.get? uuid with
      | none => (s, .raise .keyError)
      | some r => (load s r, .wait (.inboxGet s.fresh))
    | .putOutbox => putOutbox s value
    | .getOutbox => match s.clientDb.get? uuid with
      | none => (s, .raise .keyError)
      | some r => (load s r, .wait (.outboxGet s.fresh value))
    | .unknown => (s, answer (errDispatch 4))

/-- The body of a command under `db_lock`. -/
def runDb (op : DbOp) (s : Server K) (value : Bytes) : Server K × Except PyErr Bytes :=
  match op with
  | .list => (s, latin1Encode
      (jsonDumps ((B.dbItems s.db).map fun p => (latin1Decode p.1, latin1Decode p.2))))
  | op => op.run s value

variable {A : Type}

/-- The code behind the loop. -/
def teardown (s : Server K) (uuid : PyStr) : Server K :=
  if s.keepDeadSessions then s
  else
    { s with
      addressBook := match (B.bookItems s.addressBook).find? fun p => p.2 = uuid with
        | none => s.addressBook
        | some p => s.addressBook.erase p.1
      clientDb := s.clientDb.erase uuid }

/-- Go on after `dispatch`. -/
def proceed (c : ConnId) (h : Handler) (o : Server K × Next) : Outcome K A :=
  match o.2 with
  | .reply data => sendPacket L o.1 c h data .none .next
  | .wait pc => (o.1, .handler { h with pc := pc }, [])
  | .raise e => raised o.1 .none e
  | .bye => (teardown B o.1 h.uuid, .over none, [])

/-- Verify a frame and process its payload; the counter of a copy is increased. -/
def onFrame (s : Server K) (c : ConnId) (h : Handler) (frame : Option Bytes) (draw : Uuid4) :
    Outcome K A :=
  match s.clientDb.get? h.uuid, frame with
  | none, _ => raised s .none .keyError
  | some r, none => raised s .none (noFrame (s.objs r).rxNonce)
  | some r, some f =>
    let cl := s.objs r
    seen (decryptCall (.server c) f cl.cipher cl.rxNonce)
      (match verifyPacket L f cl.cipher cl.rxNonce with
      | .error e => raised s .none e
      | .ok (.code n) => sendReply L s c h (errDispatch n) .none .close
      | .ok (.payload data _) =>
        seen [.accepted (.server c) data]
          (proceed L B c { h with data := data } (dispatch s h.uuid data draw)))

/-- Look for a frame in the buffer; wait for more, refuse an invalid header, or process
    the frame. -/
def pump (s : Server K) (c : ConnId) (h : Handler) (draw : Uuid4) : Outcome K A :=
  match extractPacketFrame h.receiveBuffer with
  | (_, rest, some e) => match errDispatch e with
    | .error e => raised s .none e
    | .ok bs => (s, .handler { h with receiveBuffer := rest, pc := .sendall .none .frameError },
        [.write (.server c) bs])
  | (some f, rest, none) => onFrame L B s c { h with receiveBuffer := rest } (some f) draw
  | (none, rest, none) => (s, .handler { h with receiveBuffer := rest, pc := .recv }, [])

/-- A send ended; the counter of a copy is increased. -/
def onSent (s : Server K) (c : ConnId) (h : Handler) (held : Held) (after : After)
    (draw : Uuid4) : Outcome K A :=
  match after with
  | .frameError => onFrame L B s c h none draw
  | .next => match s.clientDb.get? h.uuid with
    | none => raised s held .keyError
    | some _ => (s.release held, .handler { h with pc := .sleep }, [])
  | .close => match s.clientDb.get? h.uuid with
    | none => raised s held .keyError
    | some _ => (teardown B (s.release held) h.uuid, .over none, [])

/-- One step of the coroutine. -/
def handlerStep (s : Server K) (c : ConnId) (h : Handler) (i : Input) (draw : Uuid4) :
    Option (Outcome K A) :=
  match h.pc, i with
  | .start, .go => some (started s h)
  | .sleep, .go => some (pump L B s c h draw)
  | .recv, .recv chunk =>
    if 1024 < chunk.length then none
    else if chunk = [] then some (onFrame L B s c h none draw)
    else some (pump L B s c { h with receiveBuffer := h.receiveBuffer ++ chunk } draw)
  | .dbLock op, .go =>
    if s.dbLock then none
    else
      let (s, reply) := runDb B op (s.setDbLock true) h.data.tail
      some (sendReply L s c h reply .dbLock .next)
  | .inboxGet r, .go => match (s.objs r).inbox with
    | [] => none
    | q :: qs =>
      some (sendReply L (s.modify r (Client.setInbox qs)) c h (inboxReply q) .none .next)
  | .outboxPut r p, .go =>
    if (s.objs r).outboxLock then none
    else
      let s := s.modify r (Client.setOutbox ((s.objs r).outbox.set p.response_uuid p))
      some (sendPacket L s c h ACK .none .next)
  | .outboxGet r id, .go =>
    if (s.objs r).outboxLock then none
    else
      let s := s.modify r (Client.setOutboxLock true)
      match (s.objs r).outbox.get? id with
      | none => some (sendReply L s c h (errDispatch 7) (.outboxLock r) .next)
      | some p =>
        some (sendReply L (s.modify r (Client.setOutbox ((s.objs r).outbox.erase id))) c h
          (outboxReply p) (.outboxLock r) .next)
  | .sendall held after, .sent => some (onSent L B s c h held after draw)
  | pc, .raise e => some (raised s pc.held e)
  | _, _ => none

/-! ## `accept_clients` -/

/-- The client's response arrived. -/
def onLogin (s : Server K) (c : ConnId) (l : Locals K) (frame : Bytes) (draw : Uuid4) :
    Outcome K (Accepting K) :=
  seen (decryptCall (.server c) frame (some l.cipher) l.rxNonce)
    (match verifyPacket L frame (some l.cipher) l.rxNonce with
    | .error e => logged s e
    | .ok (.code _) => rejected s
    | .ok (.payload response _) =>
      let l := { l with rxNonce := l.rxNonce + 1 }
      seen [.accepted (.server c) response]
        (match response with
        | [] => logged s .indexError
        | type_ :: rest =>
          if type_ = 0xC4 then
            let uuid := latin1Decode rest
            match s.clientDb.get? uuid with
            | none => match errDispatch 7 with
              | .error e => logged s e
              | .ok reply => sendHandshake L s c l reply (.sendUnknown l)
            | some r =>
              seen [.relogin c uuid]
                (sendHandshake L ((load s r).modify s.fresh (Client.attach c l.cipher)) c l ACK
                  (.sendLogin l uuid s.fresh))
          else if type_ = 0xC5 then
            let login := Client.login c draw.str l.cipher l.txNonce l.rxNonce
            seen [.session c draw.str]
              (sendHandshake L (load (s.addSession draw.str login) s.fresh) c l ACK
                (.sendLogin l draw.str (s.fresh + 1)))
          else rejected s))

/-- One step of the handshake; the steps that do not touch `client_db` are the same. -/
def acceptStep (s : Server K) (c : ConnId) (a : Accepting K) (i : Input) (draw : Uuid4) :
    Option (Outcome K (Accepting K)) :=
  match a, i with
  | .login l buffer, .recv chunk =>
    if 1024 < chunk.length then none
    else some (onChunk s buffer chunk (.login l) fun f => onLogin L s c l f draw)
  | .sendUnknown l, .sent =>
    let l := { l with txNonce := l.txNonce + 1 }
    let login := Client.login c draw.str l.cipher l.txNonce l.rxNonce
    some (seen [.session c draw.str]
      (finish (load (s.addSession draw.str login) s.fresh) draw.str l (s.fresh + 1)))
  | a, i => Pipebomb.acceptStep L s c a i draw

/-! ## The server -/

/-- A coroutine goes on. -/
def taskStep (s : Server K) (c : ConnId) (t : Task (Accepting K)) (i : Input) (draw : Uuid4) :
    Option (Outcome K (Accepting K)) :=
  match t with
  | .accept a => acceptStep L s c a i draw
  | .handler h => handlerStep L B s c h i draw
  | _ => none

/-- One step of the server, for logins and requests. -/
def step (S : Sys K) : Act → Option (Sys K × List (Obs K))
  | .resume c i draw => match taskStep L B S.server c (S.tasks c) i draw with
    | none => none
    | some (s, t, os) => some (S.put c s t, os)
  | .connect c => match S.tasks c with
    | .idle => some (S.put c S.server (.accept (.publicKey [])), [])
    | _ => none
  | .admin _ => none

end ByValue

end Pipebomb
