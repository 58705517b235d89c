/-
  `client.py`: the client at the other end of one connection.

  `connect` is a coroutine whose states are its awaits (`Connecting`).  When it is done,
  `send_loop` and `recv_loop` run, each with its own await (`SendLoop`, `RecvLoop`).  An
  operation of `Client` builds its packet, puts it into the queue of `send_loop` and waits
  in `receive` for the next packet of `recv_loop`, or for the timeout.  Operations may be
  called one after the other or side by side, after `connect` returned.

  * `Call`: the operations, with the payload each sends and what it makes of the reply.
  * `connectStep`, `sendLoopStep`, `recvLoopStep`: resume a coroutine at its await and run
    it to the next.
  * `RawClient.step`: what can happen at the client.
-/
import Pipebomb.Handler

namespace Pipebomb

open ByteString

/-! ## Operations -/

/-- `convert_to_length_format`. -/
def convertToLengthFormat : List Bytes → Except PyErr Bytes
  | [] => .ok []
  | a :: as => do
    let length ← packI a.length
    let rest ← convertToLengthFormat as
    .ok (length ++ rest)

/-- The methods of `Client`, and `send` and `receive` of `RawClient` with any data.  The
    arguments are what `primitive` made of them. -/
inductive Call where
  | set (key value : Bytes)
  | get (key : Bytes)
  | delete (key : Bytes)
  | list
  | register (key : Bytes)
  | unregister (key : Bytes)
  | whoami
  | find (key : Bytes)
  | request (uuid req key : Bytes)
  | readInbox
  | respond (targetUuid response key requestUuid : Bytes)
  | readOutbox (requestUuid : Bytes)
  | raw (data : Bytes)
  deriving DecidableEq, Repr

/-- The payload of a method with several arguments. -/
def withLengths (opcode : UInt8) (args : List Bytes) : Except PyErr Bytes := do
  let lengths ← convertToLengthFormat args
  .ok ([opcode] ++ lengths ++ args.flatten)

/-- The payload that a method sends. -/
def Call.payload : Call → Except PyErr Bytes
  | .set key value => withLengths 0x81 [key, value]
  | .get key => .ok ([0x82] ++ key)
  | .delete key => .ok ([0x83] ++ key)
  | .list => .ok [0x84]
  | .register key => .ok ([0x85] ++ key)
  | .unregister key => .ok ([0x86] ++ key)
  | .whoami => .ok [0x87]
  | .find key => .ok ([0x1] ++ key)
  | .request uuid req key => withLengths 0x2 [uuid, req, key]
  | .readInbox => .ok [0x3]
  | .respond targetUuid response key requestUuid =>
    withLengths 0x4 [targetUuid, response, key, requestUuid]
  | .readOutbox requestUuid => .ok ([0x5] ++ requestUuid)
  | .raw data => .ok data

/-- What a method returns; `json` is what `json.loads` makes of the text. -/
inductive Value where
  | bool (b : Bool)
  | bytes (bs : Bytes)
  | json (text : Bytes)
  | request (q : Request)
  | response (p : Response)
  deriving DecidableEq, Repr

/-- `read_inbox` of a reply. -/
def Call.readRequest (res : Bytes) : Except PyErr Request := do
  let lengths ← unpackI 4 (res.take 16)
  match slices res lengths 16 with
  | [uuid, req, key, reqUuid] => .ok ⟨uuid, key, req, reqUuid⟩
  | _ => .error .structError

/-- `read_outbox` of a reply. -/
def Call.readResponse (requestUuid res : Bytes) : Except PyErr Response :=
  if res.length < 9 then
    .error (.runtimeError ("Invalid response. Too short: " ++ toString res.length ++ " bytes"))
  else do
    let lengths ← unpackI 2 (res.take 8)
    match slices res lengths 8 with
    | [key, response] => .ok ⟨key, response, requestUuid⟩
    | _ => .error .structError

/-- What a method makes of the packet it receives. -/
def Call.result (reply : Bytes) : Call → Except PyErr Value
  | .set _ _ | .delete _ | .register _ | .unregister _ | .respond _ _ _ _ =>
    .ok (.bool (reply = ACK))
  | .get _ | .whoami | .find _ | .request _ _ _ | .raw _ => .ok (.bytes reply)
  | .list => .ok (.json reply)
  | .readInbox => do
    let q ← Call.readRequest reply
    .ok (.request q)
  | .readOutbox requestUuid => do
    let p ← Call.readResponse requestUuid reply
    .ok (.response p)

/-! ## The state -/

/-- The awaits of `connect` after `sock_connect`; `idle` before it is called. -/
inductive Connecting where
  | idle
  /-- `sock_sendall` of the public key -/
  | sendPublic
  /-- `read_exact(self.socket, 32)` -/
  | serverKey (buffer : Bytes)
  /-- `sock_sendall` of the password -/
  | sendPassword
  /-- `read_packet_frame`, for the first ACK -/
  | ack (buffer : Bytes)
  /-- `sock_sendall` of LOGIN or RELOGIN -/
  | sendLogin
  /-- `read_packet_frame`, for the second ACK -/
  | reply (buffer : Bytes)
  | connected
  | failed (e : PyErr)
  deriving DecidableEq, Repr

/-- The awaits of `send_loop`. -/
inductive SendLoop where
  /-- `self.tasks.get()` -/
  | waiting
  /-- `sock_sendall` -/
  | sending
  | dead (e : PyErr)
  deriving DecidableEq, Repr

/-- The awaits of `recv_loop`.  `dead` tells the exception before it is wrapped. -/
inductive RecvLoop where
  /-- `sock_recv` -/
  | recv (buffer : Bytes)
  | ended
  | dead (e : PyErr)
  deriving DecidableEq, Repr

/-- The await of `close`; `idle` before it is called and after it returned. -/
inductive Closing where
  | idle
  /-- `sock_sendall` -/
  | sending
  | failed (e : PyErr)
  deriving DecidableEq, Repr

/-- A `RawClient` and its coroutines.  `calls` are the operations that wait in `receive`,
    with the payloads they sent. -/
structure RawClient (K : Type) where
  peer : String
  password : Bytes
  relogUuid : Option Bytes
  cipher : Option K
  txNonce : ℕ
  rxNonce : ℕ
  tasks : List Bytes
  unfinished : ℕ
  inputPackets : List Bytes
  connection : Connecting
  sendLoop : SendLoop
  recvLoop : RecvLoop
  calls : List (Call × Bytes)
  closing : Closing

variable {K : Type} (L : Libs K)

/-- A client that was just constructed. -/
def RawClient.init (peer : String) (password : Bytes) : RawClient K where
  peer := peer
  password := password
  relogUuid := none
  cipher := none
  txNonce := 0
  rxNonce := 0
  tasks := []
  unfinished := 0
  inputPackets := []
  connection := .idle
  sendLoop := .waiting
  recvLoop := .recv []
  calls := []
  closing := .idle

namespace RawClient

/-- The client and what was seen after a step. -/
abbrev After (K : Type) := RawClient K × List (Obs K)

/-- The connection stands at another await. -/
def stand (C : RawClient K) (pc : Connecting) : RawClient K := { C with connection := pc }

/-- An exception leaves `connect`. -/
def fail (C : RawClient K) (e : PyErr) : After K := (C.stand (.failed e), [])

/-- What was seen before the rest of a step. -/
def saw (os : List (Obs K)) (o : After K) : After K := (o.1, os ++ o.2)

/-! ## `connect` -/

/-- Build a packet and start to send it. -/
def sendConnect (C : RawClient K) (data : Bytes) (next : Connecting) : After K :=
  saw (encryptCall .client data C.cipher C.txNonce)
    (match constructPacket L data C.cipher C.txNonce with
    | .error e => C.fail e
    | .ok pkt => (C.stand next, [.write .client pkt]))

/-- `read_packet_frame` got a chunk: the frame, or what to wait for. -/
def onChunk (C : RawClient K) (buffer chunk : Bytes) (waiting : Bytes → Connecting)
    (frame : Bytes → After K) : After K :=
  if chunk = [] then C.fail (.runtimeError "Connection closed while waiting for packet frame")
  else match extractPacketFrame (buffer ++ chunk) with
    | (_, _, some e) => C.fail (.runtimeError ("Invalid packet frame: " ++ errToHumanReadable e))
    | (some f, _, none) => frame f
    | (none, rest, none) => (C.stand (waiting rest), [])

/-- The payload of LOGIN, or of RELOGIN. -/
def loginPayload (C : RawClient K) : Bytes :=
  match C.relogUuid with
  | none => [0xC5]
  | some uuid => [0xC4] ++ uuid

/-- `self.rx_nonce += 1`. -/
def received (C : RawClient K) : RawClient K := { C with rxNonce := C.rxNonce + 1 }

/-- `self.tx_nonce += 1`. -/
def sent (C : RawClient K) : RawClient K := { C with txNonce := C.txNonce + 1 }

/-- The first ACK arrived. -/
def onAck (C : RawClient K) (frame : Bytes) : After K :=
  saw (decryptCall .client frame C.cipher C.rxNonce)
    (match verifyPacket L frame C.cipher C.rxNonce with
    | .error e => C.fail e
    | .ok (.code n) => C.received.fail (.runtimeError ("Unable to connect to " ++ C.peer ++
        ".ACK returned error: Error " ++ toString n ++ ": " ++ errToHumanReadable n))
    | .ok (.payload ack _) =>
      saw [.accepted .client ack]
        (if ack ≠ ACK then C.received.fail (.runtimeError "Invalid ACK")
        else C.received.sendConnect L C.loginPayload .sendLogin))

/-- The second ACK arrived.  Anything else is only warned about. -/
def onReply (C : RawClient K) (frame : Bytes) : After K :=
  saw (decryptCall .client frame C.cipher C.rxNonce)
    (match verifyPacket L frame C.cipher C.rxNonce with
    | .error e => C.fail e
    | .ok (.code _) => (C.received.stand .connected, [])
    | .ok (.payload ack _) => (C.received.stand .connected, [.accepted .client ack]))

/-- The server's public key arrived. -/
def onServerKey (C : RawClient K) (key : Bytes) : After K :=
  match L.clientExchange key with
  | none => C.fail (.valueError "Error computing shared key.")
  | some k => { C with cipher := some k }.sendConnect L (0 :: C.password) .sendPassword

/-- **One step of `connect`.** -/
def connectStep (C : RawClient K) (i : Input) : Option (After K) :=
  match C.connection, i with
  | .sendPublic, .sent => some (C.stand (.serverKey []), [])
  | .serverKey buffer, .recv chunk =>
    if 32 < buffer.length + chunk.length then none
    else if chunk = [] then some (C.fail (.runtimeError "Failed to receive server public key"))
    else if (buffer ++ chunk).length < 32 then some (C.stand (.serverKey (buffer ++ chunk)), [])
    else some (C.onServerKey L (buffer ++ chunk))
  | .sendPassword, .sent => some (C.sent.stand (.ack []), [])
  | .ack buffer, .recv chunk =>
    if 1024 < chunk.length then none
    else some (C.onChunk buffer chunk .ack (C.onAck L))
  | .sendLogin, .sent => some (C.sent.stand (.reply []), [])
  | .reply buffer, .recv chunk =>
    if 1024 < chunk.length then none
    else some (C.onChunk buffer chunk .reply (C.onReply L))
  | .idle, _ | .connected, _ | .failed _, _ => none
  | _, .raise e => some (C.fail e)
  | _, _ => none

/-! ## The loops -/

/-- **One step of `send_loop`.** -/
def sendLoopStep (C : RawClient K) (i : Input) : Option (After K) :=
  match C.sendLoop, i with
  | .waiting, .go => match C.tasks with
    | [] => none
    | p :: ps => some ({ C with tasks := ps, sendLoop := .sending }, [.write .client p])
  | .sending, .sent =>
    if C.unfinished = 0 then
      some ({ C.sent with sendLoop := .dead (.valueError "task_done() called too many times") }, [])
    else some ({ C.sent with sendLoop := .waiting, unfinished := C.unfinished - 1 }, [])
  | .dead _, _ => none
  | _, .raise e => some ({ C with sendLoop := .dead e }, [])
  | _, _ => none

/-- `b"ERR"`, and the packet that `recv_loop` takes for an acknowledgement. -/
def ERR : Bytes := [69, 82, 82]

def ERR_ACK : Bytes := ERR ++ [0]

/-- The exception for an error code. -/
def errorFrom (C : RawClient K) (n : ℕ) : PyErr :=
  .runtimeError ("Error " ++ toString n ++ " from " ++ C.peer ++ ": " ++ errToHumanReadable n)

/-- The exception for a packet that starts with `b"ERR"`. -/
def errorPacket (C : RawClient K) (packet : Bytes) : PyErr :=
  match packet.drop 3 with
  | [] => .indexError
  | b :: bs => .runtimeError ("Error " ++ toString (beVal (b :: bs)) ++ " from " ++ C.peer ++ ": " ++
      errToHumanReadable b.toNat)

/-- The body of `recv_loop` for one frame. -/
def recvFrame (o : After K) (frame : Bytes) : After K × Option PyErr :=
  let C := o.1
  let os := o.2 ++ decryptCall .client frame C.cipher C.rxNonce
  match verifyPacket L frame C.cipher C.rxNonce with
  | .error e => ((C, os), some e)
  | .ok (.code n) => ((C, os), some (C.errorFrom n))
  | .ok (.payload packet _) =>
    let acked := packet = ERR_ACK ∧ C.tasks ≠ []
    if acked ∧ C.unfinished = 0 then
      ((C, os), some (.valueError "task_done() called too many times"))
    else
      let C := { C.received with unfinished := if acked then C.unfinished - 1 else C.unfinished }
      let os := os ++ [.accepted .client packet]
      if ERR <+: packet ∧ packet ≠ ERR_ACK then ((C, os), some (C.errorPacket packet))
      else (({ C with inputPackets := C.inputPackets ++ [packet] }, os), none)

/-- **One step of `recv_loop`.** -/
def recvLoopStep (C : RawClient K) (i : Input) : Option (After K) :=
  match C.recvLoop, i with
  | .recv buffer, .recv chunk =>
    if 1024 < chunk.length then none
    else if chunk = [] then some ({ C with recvLoop := .ended }, [])
    else match packetFraming.drain (recvFrame L) (C, []) (buffer ++ chunk) with
      | ((C, os), rest, none) => some ({ C with recvLoop := .recv rest }, os)
      | ((C, os), _, some (.inl n)) => some ({ C with recvLoop := .dead (C.errorFrom n) }, os)
      | ((C, os), _, some (.inr e)) => some ({ C with recvLoop := .dead e }, os)
  | .recv _, .raise e => some ({ C with recvLoop := .dead e }, [])
  | _, _ => none

/-! ## Operations of the client -/

/-- `send` of an operation: build the packet and put it into the queue. -/
def send (C : RawClient K) (call : Call) : Except PyErr (RawClient K) × List (Obs K) :=
  match call.payload with
  | .error e => (.error e, [])
  | .ok data => match constructPacket L data C.cipher C.txNonce with
    | .error e => (.error e, encryptCall .client data C.cipher C.txNonce)
    | .ok pkt =>
      (.ok { C with
          tasks := C.tasks ++ [pkt]
          unfinished := C.unfinished + 1
          calls := C.calls ++ [(call, data)] },
        encryptCall .client data C.cipher C.txNonce ++ [.called data])

/-- `close` up to its await. -/
def close (C : RawClient K) : Except PyErr (RawClient K) × List (Obs K) :=
  match C.cipher with
  | none => (.error (.runtimeError "Cipher is None"), [])
  | some k => match constructPacket L [0x88] (some k) C.txNonce with
    | .error e => (.error e, encryptCall .client [0x88] (some k) C.txNonce)
    | .ok pkt => (.ok { C with closing := .sending },
        encryptCall .client [0x88] (some k) C.txNonce ++ [.write .client pkt])

/-- An operation that raises leaves the client as it is. -/
def attempt (C : RawClient K) (o : Except PyErr (RawClient K) × List (Obs K)) : After K :=
  match o.1 with
  | .error _ => (C, o.2)
  | .ok C' => (C', o.2)

/-- The end of `close`. -/
def closeStep (C : RawClient K) (i : Input) : Option (After K) :=
  match C.closing, i with
  | .sending, .sent =>
    some ({ C with closing := .idle, txNonce := 0, rxNonce := 0, cipher := none }, [])
  | .sending, .raise e => some ({ C with closing := .failed e }, [])
  | _, _ => none

/-- What happens next at the client. -/
inductive Act where
  /-- `connect` is called -/
  | connect (relogUuid : Option Bytes)
  /-- `connect` is resumed -/
  | resume (i : Input)
  | sendLoop (i : Input)
  | recvLoop (i : Input)
  /-- an operation is called -/
  | call (c : Call)
  /-- the `n`-th waiting operation gets a packet -/
  | receive (n : ℕ)
  /-- the `n`-th waiting operation times out -/
  | timeout (n : ℕ)
  | close
  /-- `close` is resumed -/
  | closing (i : Input)
  deriving DecidableEq, Repr

/-- **One step of the client.** -/
def step (C : RawClient K) : Act → Option (After K)
  | .connect relogUuid =>
    if C.connection ≠ .idle then none
    else some ({ C with relogUuid := relogUuid, connection := .sendPublic },
      [.write .client L.clientPublic])
  | .resume i => C.connectStep L i
  | .sendLoop i => if C.connection = .connected then C.sendLoopStep i else none
  | .recvLoop i => if C.connection = .connected then C.recvLoopStep L i else none
  | .call c => if C.connection = .connected then some (C.attempt (C.send L c)) else none
  | .receive n => match C.calls[n]?, C.inputPackets with
    | some (_, data), p :: ps =>
      some ({ C with inputPackets := ps, calls := C.calls.eraseIdx n }, [.returned data p])
    | _, _ => none
  | .timeout n => match C.calls[n]? with
    | some (_, data) => some ({ C with calls := C.calls.eraseIdx n }, [.timedOut data])
    | none => none
  | .close => if C.connection = .connected then some (C.attempt (C.close L)) else none
  | .closing i => C.closeStep i

end RawClient

end Pipebomb
