import TinyGameServer.FrameFields

/-!
# The callbacks of the gate server

`dbMessageCb` is the message callback of the client `db`, `connectionCb` and `messageCb` are those
of the server `gate`. The first returns the pair of serial id and user id that it takes to
`gate.GetConnection`, and the last the buffers it has given to `db.Send`. Where the source runs
off the end of a lambda the status is `none`. The signed sum `len + 8` wraps.
-/

namespace TinyGameServer.GateServer

variable (host : ByteOrder) {m : Type → Type} [Monad m]

/-- The first message to a new connection. -/
def connectionCb : Option Buffer := do
  let buf ← (Buffer.new Buffer.INITIAL_SIZE).appendInt8 (ascii 'A')
  buf.appendInt32 host 4

def readLogin (connBuf : ReceiveBuffer m) : m (BufferStatus × Option (Int64 × Int64)) := do
  let tag ← connBuf.readInt8
  -- connect success
  if tag = ascii 's' then
    let _ ← connBuf.readInt32
    let serial_id ← connBuf.readInt64
    let user_id ← connBuf.readInt64
    return (.READ_SUCCESS, some (serial_id, user_id))
  else return (.READ_SUCCESS, none)

def dbMessageCb (connBuf : ReceiveBuffer m) : m (BufferStatus × Option (Int64 × Int64)) := do
  if 13 ≤ (← connBuf.getLength) then
    let taglen ← connBuf.peekTagLen
    if taglen.2.toUInt32 ≤ (← connBuf.getLength) - 1 then readLogin connBuf
    else return (.READ_INCOMPLETE, none)
  else return (.READ_INCOMPLETE, none)

def relayFrame (serialId : Int64) (len : Int32) (value : List UInt8) : Option Buffer := do
  let sendBuf ← (Buffer.new Buffer.INITIAL_SIZE).appendInt8 (ascii 'l')
  let sendBuf ← sendBuf.appendInt32 host (len + 8)
  let sendBuf ← sendBuf.appendInt64 host serialId
  sendBuf.appendString value

def relayLogin (connBuf : ReceiveBuffer m) (serialId : Int64) :
    m (Option BufferStatus × List (Option Buffer)) := do
  let tag ← connBuf.readInt8
  if tag = ascii 'l' then
    let len ← connBuf.readInt32
    let value ← connBuf.readString len.toUInt32
    return (none, [relayFrame host serialId len value])
  else
    connBuf.clear
    return (some .READ_TYPE_ERROR, [])

def messageCb (connBuf : ReceiveBuffer m) (authorized : Bool) (serialId : Int64) :
    m (Option BufferStatus × List (Option Buffer)) := do
  if authorized then
    if 5 ≤ (← connBuf.getLength) then
      let taglen ← connBuf.peekTagLen
      if taglen.2.toUInt32 ≤ (← connBuf.getLength) - 1 then relayLogin host connBuf serialId
      else return (some .READ_INCOMPLETE, [])
    else return (some .READ_INCOMPLETE, [])
  else
    if 5 ≤ (← connBuf.getLength) then return (none, [])
    else return (some .READ_INCOMPLETE, [])

variable {host} {p : ReceiveBuffer (StateT Traced Option)}
  {q : ReceiveBuffer (StateT (List UInt8) Option)}

theorem dbMessageCb_simulates (h : p.Simulated q) :
    BufferSimulates (dbMessageCb p) (dbMessageCb q) := by
  have hread : BufferSimulates (readLogin p) (readLogin q) := by
    refine h.readInt8.bind fun _ => .ite ?_ (.pure _)
    exact h.readInt32.bind fun _ => h.readInt64.bind fun _ => h.readInt64.bind fun _ => .pure _
  refine h.getLength.bind fun _ => .ite ?_ (.pure _)
  exact h.peekTagLen.bind fun _ => h.getLength.bind fun _ => .ite hread (.pure _)

theorem messageCb_simulates (h : p.Simulated q) (authorized : Bool) (serialId : Int64) :
    BufferSimulates (messageCb host p authorized serialId)
      (messageCb host q authorized serialId) := by
  have hrelay : BufferSimulates (relayLogin host p serialId) (relayLogin host q serialId) := by
    refine h.readInt8.bind fun _ => .ite ?_ (h.clear.bind fun _ => .pure _)
    exact h.readInt32.bind fun _ => (h.readString _).bind fun _ => .pure _
  refine .ite ?_ (h.getLength.bind fun _ => .ite (.pure _) (.pure _))
  refine h.getLength.bind fun _ => .ite ?_ (.pure _)
  exact h.peekTagLen.bind fun _ => h.getLength.bind fun _ => .ite hrelay (.pure _)

/-! ## One invocation on the ideal queue -/

section Queue

variable {q : List UInt8}

theorem dbMessageCb_queue (hq : q.length < 2 ^ 32) :
    dbMessageCb (onQueue host) q =
      if Accepts host 13 q then readLogin (onQueue host) q
      else some ((.READ_INCOMPLETE, none), q) :=
  guard_queue host 13 (by decide) (fun _ => readLogin (onQueue host)) _ hq

def grant (host : ByteOrder) (q : List UInt8) : Int64 × Int64 :=
  (Buffer.decodeInt64 host ((q.drop 5).take 8), Buffer.decodeInt64 host ((q.drop 13).take 8))

theorem readLogin_success (hlen : 21 ≤ q.length) (htag : tagOf host q = ascii 's') :
    readLogin (onQueue host) q = some ((.READ_SUCCESS, some (grant host q)), q.drop 21) := by
  rw [readLogin, readInt8_bind host (by omega), if_pos htag, readInt32_bind host 1 (by omega),
    readInt64_bind host 5 (by omega), readInt64_bind host 13 (by omega)]
  rfl

/-- The guard only asks for 13 bytes of a frame of 21. -/
theorem readLogin_short (hmin : 13 ≤ q.length) (hlen : q.length < 21)
    (htag : tagOf host q = ascii 's') : readLogin (onQueue host) q = none := by
  rw [readLogin, readInt8_bind host (by omega), if_pos htag, readInt32_bind host 1 (by omega),
    readInt64_bind host 5 (by omega), readInt64_bind_none host 13 (by omega)]

theorem readLogin_other (hmin : 1 ≤ q.length) (htag : tagOf host q ≠ ascii 's') :
    readLogin (onQueue host) q = some ((.READ_SUCCESS, none), q.drop 1) := by
  rw [readLogin, readInt8_bind host hmin, if_neg htag]
  rfl

theorem messageCb_queue (hq : q.length < 2 ^ 32) (serialId : Int64) :
    messageCb host (onQueue host) true serialId q =
      if Accepts host 5 q then relayLogin host (onQueue host) serialId q
      else some ((some .READ_INCOMPLETE, []), q) :=
  guard_queue host 5 (by decide) (fun _ => relayLogin host (onQueue host) serialId) _ hq

theorem relayLogin_login (hlen : 5 ≤ q.length) (htag : tagOf host q = ascii 'l')
    (serialId : Int64) :
    relayLogin host (onQueue host) serialId q =
      some ((none, [relayFrame host serialId (Buffer.decodeInt32 host ((q.drop 1).take 4))
        ((q.drop 5).take (netField q 1))]), q.drop (5 + netField q 1)) := by
  have hfield : (Buffer.decodeInt32 host ((q.drop 1).take 4)).toUInt32.toNat = netField q 1 :=
    toNat_decodeInt32 host q 1 (by omega)
  rw [relayLogin, readInt8_bind host (by omega), if_pos htag, readInt32_bind host 1 (by omega),
    readString_bind, hfield]
  rfl

theorem relayLogin_other (hlen : 1 ≤ q.length) (htag : tagOf host q ≠ ascii 'l')
    (serialId : Int64) :
    relayLogin host (onQueue host) serialId q = some ((some .READ_TYPE_ERROR, []), []) := by
  rw [relayLogin, readInt8_bind host hlen, if_neg htag]
  rfl

end Queue
end TinyGameServer.GateServer
