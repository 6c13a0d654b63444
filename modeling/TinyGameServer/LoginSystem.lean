import TinyGameServer.DataServer
import TinyGameServer.GateServer
import TinyGameServer.TCPServer

/-!
# The login across both servers

One gate with its clients, one data server, and FIFO channels between them. A channel delivers
the oldest frame whole in one read event, and the callback of the receiving side runs on it. The
gate relays a login only for a connection that is authorized already, and a connection is only
authorized by the reply to a relayed login.
-/

namespace TinyGameServer

structure LoginSystem (ι : Type) where
  gate : TCPServer ι
  /-- The receive buffers of the client connections, of `db`, and of the data server. -/
  received : ConnSPtr → List UInt8
  dbReceived : List UInt8
  dataReceived : List UInt8
  toGate : ConnSPtr → List (List UInt8)
  toClient : ConnSPtr → List (List UInt8)
  toData : List (List UInt8)
  toDb : List (List UInt8)
  /-- All frames that the client of a connection has sent so far. -/
  sent : ConnSPtr → List (List UInt8)

namespace LoginSystem

variable {ι : Type}

def init : LoginSystem ι where
  gate := .init
  received _ := []
  dbReceived := []
  dataReceived := []
  toGate _ := []
  toClient _ := []
  toData := []
  toDb := []
  sent _ := []

/-- The bytes that buffers put on the wire. A buffer that overflowed has none. -/
def wireBytes (buffers : List (Option Buffer)) : Option (List (List UInt8)) :=
  buffers.mapM (·.map Buffer.unread)

inductive Action (ι : Type) where
  | accept (loop : ι) (serialId : Int64)
  | runFunctor (loop : ι)
  | peerClose (conn : ConnSPtr)
  | close (conn : ConnSPtr)
  | clientSends (conn : ConnSPtr) (bytes : List UInt8)
  | deliverToClient (conn : ConnSPtr)
  | deliverToGate (conn : ConnSPtr)
  | deliverToData
  | deliverToDb

variable (host : ByteOrder) (selectUser : SelectUser)

def connected (s : LoginSystem ι) (c : ConnSPtr) : Option (LoginSystem ι) := do
  let bytes ← wireBytes [GateServer.connectionCb host]
  return { s with
    gate.objects := s.gate.objects.modify c ({ · with authorized := false })
    toClient := Function.update s.toClient c (s.toClient c ++ bytes) }

def deliverToGate (s : LoginSystem ι) (c : ConnSPtr) : Option (LoginSystem ι) := do
  let conn ← s.gate.objects[c]?
  if conn.started ∧ ¬ conn.closed then
    let bytes :: rest := s.toGate c | none
    let ((_, sends), unread) ← GateServer.messageCb host (onQueue host) conn.authorized
      conn.serialId (s.received c ++ bytes)
    let frames ← wireBytes sends
    return { s with
      toGate := Function.update s.toGate c rest
      received := Function.update s.received c unread
      toData := s.toData ++ frames }
  else none

def deliverToData (s : LoginSystem ι) : Option (LoginSystem ι) := do
  let bytes :: rest := s.toData | none
  let ((_, sends), unread) ← DataServer.messageCb host (onQueue host) selectUser
    (s.dataReceived ++ bytes)
  let frames ← wireBytes sends
  return { s with toData := rest, dataReceived := unread, toDb := s.toDb ++ frames }

/-- `SetAuthorized` and `setUserId` on what `gate.GetConnection` returns. -/
def authorize (s : LoginSystem ι) (serialId userId : Int64) : LoginSystem ι :=
  let (conn, gate) := s.gate.getConnection serialId
  match conn with
  | none => { s with gate }
  | some c => { s with
      gate := { gate with
        objects := gate.objects.modify c ({ · with authorized := true, userId }) } }

def deliverToDb (s : LoginSystem ι) : Option (LoginSystem ι) := do
  let bytes :: rest := s.toDb | none
  let ((_, granted), unread) ← GateServer.dbMessageCb (onQueue host) (s.dbReceived ++ bytes)
  let s := { s with toDb := rest, dbReceived := unread }
  match granted with
  | none => return s
  | some (serialId, userId) => return s.authorize serialId userId

variable [DecidableEq ι]

def step (s : LoginSystem ι) : Action ι → Option (LoginSystem ι)
  | .accept loop serialId =>
    (s.gate.step (.handleNewConn loop serialId)).map fun gate => { s with gate }
  | .runFunctor loop => do
    let gate ← s.gate.step (.runFunctor loop)
    match s.gate.pending loop with
    | .start id :: _ =>
      match (s.gate.connections.subscript id).1 with
      | none => none
      | some c => connected host { s with gate } c
    | _ => return { s with gate }
  | .peerClose c => (s.gate.step (.peerClose c)).map fun gate => { s with gate }
  | .close c => (s.gate.step (.close c)).map fun gate => { s with gate }
  | .clientSends c bytes =>
    if c < s.gate.objects.length then
      some { s with
        toGate := Function.update s.toGate c (s.toGate c ++ [bytes])
        sent := Function.update s.sent c (s.sent c ++ [bytes]) }
    else none
  | .deliverToClient c =>
    match s.toClient c with
    | [] => none
    | _ :: rest => some { s with toClient := Function.update s.toClient c rest }
  | .deliverToGate c => s.deliverToGate host c
  | .deliverToData => s.deliverToData host selectUser
  | .deliverToDb => s.deliverToDb host

end LoginSystem
end TinyGameServer
