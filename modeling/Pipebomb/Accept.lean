/-
  `accept_clients` of `server.py`: the handshake of one connection.

  Each pass through the loop serves one connection, so the pass is modelled as the
  coroutine of its connection, which ends or becomes the handler.  Its states are its
  awaits (`Accepting`); `Locals` are the cipher and the two counters of the pass.

  * `onPassword` checks the password and answers with ACK under the first nonce.
  * `onLogin` enters a new session into `client_db` or attaches an old one, and answers.
  * `finish` stores the counters in the client and starts the handler.
  * `read_packet_frame` keeps nothing of its buffer behind the frame.
-/
import Pipebomb.Handler

namespace Pipebomb

open ByteString

variable {K : Type} (L : Libs K)

/-- The cipher and the counters of a pass through the loop. -/
structure Locals (K : Type) where
  cipher : K
  txNonce : ℕ
  rxNonce : ℕ
  deriving DecidableEq

/-- The awaits of `accept_clients` after `sock_accept`. -/
inductive Accepting (K : Type) where
  /-- `read_exact(client_socket, 32)` -/
  | publicKey (buffer : Bytes)
  /-- `sock_sendall` of the public key -/
  | sendPublic (clientPublicKey : Bytes)
  /-- `read_packet_frame`, for the password -/
  | password (l : Locals K) (buffer : Bytes)
  /-- `sock_sendall` of the first ACK -/
  | sendAck (l : Locals K)
  /-- `read_packet_frame`, for the client's response -/
  | login (l : Locals K) (buffer : Bytes)
  /-- `sock_sendall` of error 7 after a RELOGIN with an unknown uuid -/
  | sendUnknown (l : Locals K)
  /-- `sock_sendall` of the second ACK, for the client `r` -/
  | sendLogin (l : Locals K) (uuid : PyStr) (r : Ref)

/-- The pass ended without a handler. -/
def rejected (s : Server K) : Outcome K (Accepting K) := (s, .over none, [])

/-- An exception is logged and ends the pass. -/
def logged (s : Server K) (e : PyErr) : Outcome K (Accepting K) := (s, .over (some e), [])

/-- Build a packet and start to send it. -/
def sendHandshake (s : Server K) (c : ConnId) (l : Locals K) (data : Bytes)
    (next : Accepting K) : Outcome K (Accepting K) :=
  seen (encryptCall (.server c) data (some l.cipher) l.txNonce)
    (match constructPacket L data (some l.cipher) l.txNonce with
    | .error e => logged s e
    | .ok pkt => (s, .accept next, [.write (.server c) pkt]))

/-- Attach the connection to an old client. -/
def Client.attach (c : ConnId) (cipher : K) (cl : Client K) : Client K :=
  { cl with address := .peer c, socket := some c, cipher := some cipher }

/-- The password arrived. -/
def onPassword (s : Server K) (c : ConnId) (l : Locals K) (frame : Bytes) :
    Outcome K (Accepting K) :=
  seen (decryptCall (.server c) frame (some l.cipher) l.rxNonce)
    (match verifyPacket L frame (some l.cipher) l.rxNonce with
    | .error e => logged s e
    | .ok (.code _) => rejected s
    | .ok (.payload password _) =>
      if password ≠ 0 :: s.password then rejected s
      else
        let l := { l with rxNonce := l.rxNonce + 1 }
        -- the counter is increased before the packet is sent
        seen [.accepted (.server c) password]
          (sendHandshake L s c l ACK (.sendAck { l with txNonce := l.txNonce + 1 })))

/-- The client's response arrived: a RELOGIN (`0xC4`) or a first login (`0xC5`). -/
def onLogin (s : Server K) (c : ConnId) (l : Locals K) (frame : Bytes) (draw : Uuid4) :
    Outcome K (Accepting K) :=
  seen (decryptCall (.server c) frame (some l.cipher) l.rxNonce)
    (match verifyPacket L frame (some l.cipher) l.rxNonce with
    | .error e => logged s e
    | .ok (.code _) => rejected s
    | .ok (.payload response _) =>
      let l := { l with rxNonce := l.rxNonce + 1 }
      seen [.accepted (.server c) response]
        (match response with
        | [] => logged s .indexError
        | type_ :: rest =>
          if type_ = 0xC4 then
            let uuid := latin1Decode rest
            match s.clientDb.get? uuid with
            | none => match errDispatch 7 with
              | .error e => logged s e
              | .ok reply => sendHandshake L s c l reply (.sendUnknown l)
            | some r =>
              seen [.relogin c uuid]
                (sendHandshake L (s.modify r (Client.attach c l.cipher)) c l ACK
                  (.sendLogin l uuid r))
          else if type_ = 0xC5 then
            seen [.session c draw.str]
              (sendHandshake L
                (s.addSession draw.str (.login c draw.str l.cipher l.txNonce l.rxNonce)) c l ACK
                (.sendLogin l draw.str s.fresh))
          else rejected s))

/-- Store the counters. -/
def Client.setNonces (txNonce rxNonce : ℕ) (cl : Client K) : Client K :=
  { cl with txNonce := txNonce, rxNonce := rxNonce }

/-- Store the counters in the client and start its handler. -/
def finish (s : Server K) (uuid : PyStr) (l : Locals K) (r : Ref) : Outcome K (Accepting K) :=
  (s.modify r (Client.setNonces l.txNonce l.rxNonce), .handler ⟨uuid, [], [], .start⟩, [])

/-- `read_packet_frame` got a chunk: the frame, or what to wait for. -/
def onChunk (s : Server K) (buffer chunk : Bytes) (waiting : Bytes → Accepting K)
    (frame : Bytes → Outcome K (Accepting K)) : Outcome K (Accepting K) :=
  if chunk = [] then logged s (.runtimeError "Connection closed while waiting for packet frame")
  else match extractPacketFrame (buffer ++ chunk) with
    | (_, _, some e) =>
      logged s (.runtimeError ("Invalid packet frame: " ++ errToHumanReadable e))
    | (some f, _, none) => frame f
    | (none, rest, none) => (s, .accept (waiting rest), [])

/-- **One step of the handshake.** -/
def acceptStep (s : Server K) (c : ConnId) (a : Accepting K) (i : Input) (draw : Uuid4) :
    Option (Outcome K (Accepting K)) :=
  match a, i with
  | .publicKey buffer, .recv chunk =>
    if 32 < buffer.length + chunk.length then none
    else if chunk = [] then some (rejected s)
    else if (buffer ++ chunk).length < 32 then some (s, .accept (.publicKey (buffer ++ chunk)), [])
    else some (s, .accept (.sendPublic (buffer ++ chunk)), [.write (.server c) (L.serverPublic c)])
  | .sendPublic clientPublicKey, .sent => match L.exchange c clientPublicKey with
    | none => some (logged s (.valueError "Error computing shared key."))
    | some k => some (s, .accept (.password ⟨k, 0, 0⟩ []), [])
  | .password l buffer, .recv chunk =>
    if 1024 < chunk.length then none
    else some (onChunk s buffer chunk (.password l) (onPassword L s c l))
  | .sendAck l, .sent => some (s, .accept (.login l []), [])
  | .login l buffer, .recv chunk =>
    if 1024 < chunk.length then none
    else some (onChunk s buffer chunk (.login l) fun f => onLogin L s c l f draw)
  | .sendUnknown l, .sent =>
    let l := { l with txNonce := l.txNonce + 1 }
    let login := Client.login c draw.str l.cipher l.txNonce l.rxNonce
    some (seen [.session c draw.str] (finish (s.addSession draw.str login) draw.str l s.fresh))
  | .sendLogin l uuid r, .sent => some (finish s uuid { l with txNonce := l.txNonce + 1 } r)
  | _, .raise e => some (logged s e)
  | _, _ => none

end Pipebomb
