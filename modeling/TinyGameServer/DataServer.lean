import TinyGameServer.FrameFields

/-!
# The message callback of the data server

`messageCb` is the lambda `message_cb`. `postgres.SelectUser` is an arbitrary function of the
name and the password. The callback returns its status and the buffers it has given to
`conn->Send`, where `none` stands for a buffer that overflowed while it was built.
-/

namespace TinyGameServer

abbrev SelectUser := List UInt8 → List UInt8 → Int64

namespace DataServer

variable (host : ByteOrder)

def loginError (id : Int64) : Option Buffer := do
  let buf ← (Buffer.new Buffer.INITIAL_SIZE).appendInt8 (ascii 'x')
  let buf ← buf.appendInt32 host 12
  buf.appendInt64 host id

def loginSuccess (id uid : Int64) : Option Buffer := do
  let buf ← (Buffer.new Buffer.INITIAL_SIZE).appendInt8 (ascii 's')
  let buf ← buf.appendInt32 host 20
  let buf ← buf.appendInt64 host id
  buf.appendInt64 host uid

def reply (id uid : Int64) : Option Buffer :=
  if uid = -1 then loginError host id else loginSuccess host id uid

variable {m : Type → Type} [Monad m]

/-- The `switch` on the tag of a frame that has passed the completeness test. -/
def switchTag (connBuf : ReceiveBuffer m) (selectUser : SelectUser) :
    m (BufferStatus × List (Option Buffer)) := do
  let tag ← connBuf.readInt8
  if tag = ascii 'l' then
    -- | l | len | id | len | name | len | password |
    let _ ← connBuf.readInt32
    let id ← connBuf.readInt64
    let name_len ← connBuf.readInt32
    let name ← connBuf.readString name_len.toUInt32
    let pass_len ← connBuf.readInt32
    let pass ← connBuf.readString pass_len.toUInt32
    let uid := selectUser name pass
    return (.READ_SUCCESS, [reply host id uid])
  else
    let len ← connBuf.readInt32
    connBuf.forward len
    return (.READ_TYPE_ERROR, [])

def messageCb (connBuf : ReceiveBuffer m) (selectUser : SelectUser) :
    m (BufferStatus × List (Option Buffer)) := do
  if 13 ≤ (← connBuf.getLength) then
    let taglen ← connBuf.peekTagLen
    if taglen.2.toUInt32 ≤ (← connBuf.getLength) - 1 then switchTag host connBuf selectUser
    else return (.READ_INCOMPLETE, [])
  else return (.READ_INCOMPLETE, [])

variable {host}

theorem messageCb_simulates {p : ReceiveBuffer (StateT Traced Option)}
    {q : ReceiveBuffer (StateT (List UInt8) Option)} (h : p.Simulated q)
    (selectUser : SelectUser) :
    BufferSimulates (messageCb host p selectUser) (messageCb host q selectUser) := by
  have hswitch : BufferSimulates (switchTag host p selectUser) (switchTag host q selectUser) := by
    refine h.readInt8.bind fun _ => .ite ?_ ?_
    · exact h.readInt32.bind fun _ => h.readInt64.bind fun _ => h.readInt32.bind fun _ =>
        (h.readString _).bind fun _ => h.readInt32.bind fun _ => (h.readString _).bind fun _ =>
        .pure _
    · exact h.readInt32.bind fun _ => (h.forward _).bind fun _ => .pure _
  refine h.getLength.bind fun _ => .ite ?_ (.pure _)
  exact h.peekTagLen.bind fun _ => h.getLength.bind fun _ => .ite hswitch (.pure _)

/-! ## One invocation on the ideal queue -/

def nameLen (q : List UInt8) : ℕ := netField q 13

def passLen (q : List UInt8) : ℕ := netField q (17 + nameLen q)

def loginId (host : ByteOrder) (q : List UInt8) : Int64 :=
  Buffer.decodeInt64 host ((q.drop 5).take 8)

def loginName (q : List UInt8) : List UInt8 := (q.drop 17).take (nameLen q)

def loginPass (q : List UInt8) : List UInt8 := (q.drop (21 + nameLen q)).take (passLen q)

section Queue

variable {q : List UInt8} (selectUser : SelectUser)

theorem messageCb_queue (hq : q.length < 2 ^ 32) :
    messageCb host (onQueue host) selectUser q =
      if Accepts host 13 q then switchTag host (onQueue host) selectUser q
      else some ((.READ_INCOMPLETE, []), q) :=
  guard_queue host 13 (by decide) (fun _ => switchTag host (onQueue host) selectUser) _ hq

theorem switchTag_login (hlen : 21 + nameLen q ≤ q.length) (htag : tagOf host q = ascii 'l') :
    switchTag host (onQueue host) selectUser q =
      some ((.READ_SUCCESS, [reply host (loginId host q) (selectUser (loginName q) (loginPass q))]),
        q.drop (21 + nameLen q + passLen q)) := by
  have hname : (Buffer.decodeInt32 host ((q.drop 13).take 4)).toUInt32.toNat = nameLen q :=
    toNat_decodeInt32 host q 13 (by omega)
  have hpass : (Buffer.decodeInt32 host ((q.drop (17 + nameLen q)).take 4)).toUInt32.toNat =
      passLen q := toNat_decodeInt32 host q (17 + nameLen q) (by omega)
  have hoff : 17 + nameLen q + 4 = 21 + nameLen q := by omega
  rw [switchTag, readInt8_bind host (by omega), if_pos htag, readInt32_bind host 1 (by omega),
    readInt64_bind host 5 (by omega), readInt32_bind host 13 (by omega), readString_bind, hname,
    readInt32_bind host (17 + nameLen q) (by omega), readString_bind, hpass, hoff]
  rfl

/-- The second length field is read without asking whether it is there. -/
theorem switchTag_short (hmin : 13 ≤ q.length) (hlen : q.length < 21 + nameLen q)
    (htag : tagOf host q = ascii 'l') : switchTag host (onQueue host) selectUser q = none := by
  rw [switchTag, readInt8_bind host (by omega), if_pos htag, readInt32_bind host 1 (by omega),
    readInt64_bind host 5 (by omega)]
  by_cases hname : 17 ≤ q.length
  · have hlen' : (Buffer.decodeInt32 host ((q.drop 13).take 4)).toUInt32.toNat = nameLen q :=
      toNat_decodeInt32 host q 13 (by omega)
    rw [readInt32_bind host 13 (by omega), readString_bind, hlen']
    exact readInt32_bind_none host (17 + nameLen q) (by omega)
  · exact readInt32_bind_none host 13 (by omega)

theorem switchTag_other (hmin : 5 ≤ q.length) (htag : tagOf host q ≠ ascii 'l') :
    switchTag host (onQueue host) selectUser q =
      some ((.READ_TYPE_ERROR, []), q.drop (5 + netField q 1)) := by
  have hlen : (Buffer.decodeInt32 host ((q.drop 1).take 4)).toUInt32.toNat = netField q 1 :=
    toNat_decodeInt32 host q 1 (by omega)
  rw [switchTag, readInt8_bind host (by omega), if_neg htag, readInt32_bind host 1 (by omega),
    forward_bind, hlen]
  rfl

end Queue

/-! ## The frames that the data server emits -/

variable (host)

def errorFrame (id : Int64) : List UInt8 := wireFrame (ascii 'x') 12 (Buffer.int64Bytes host id)

def successFrame (id uid : Int64) : List UInt8 :=
  wireFrame (ascii 's') 20 (Buffer.int64Bytes host id ++ Buffer.int64Bytes host uid)

theorem foldlM_new (fields : List (List UInt8)) (hfit : fields.flatten.length ≤ 8192) :
    ∃ buf, fields.foldlM Buffer.append (Buffer.new Buffer.INITIAL_SIZE) = some buf ∧
      buf.Ordered ∧ buf.unread = fields.flatten := by
  have hempty := Buffer.unread_new Buffer.INITIAL_SIZE
  obtain ⟨buf, h, hord, hunread, -⟩ := Buffer.foldlM_append
    (Buffer.new_ordered Buffer.INITIAL_SIZE) fields (by decide)
    (by rw [hempty, List.length_nil, Nat.zero_add]; exact hfit)
  exact ⟨buf, h, hord, by rw [hunread, hempty, List.nil_append]⟩

theorem loginError_spec (id : Int64) : ∃ buf, loginError host id = some buf ∧ buf.Ordered ∧
    buf.unread = errorFrame host id := by
  obtain ⟨buf, h, hord, hunread⟩ := foldlM_new [Buffer.int8Bytes (ascii 'x'),
    Buffer.int32Bytes host 12, Buffer.int64Bytes host id]
    (by simp [Buffer.int8Bytes, Buffer.int32Bytes, Buffer.int64Bytes])
  refine ⟨buf, ?_, hord, ?_⟩
  · simp only [List.foldlM_cons, List.foldlM_nil, bind_pure] at h
    exact h
  · have hlen : (Int32.toUInt32 12).toNat = 12 := rfl
    rw [hunread, int32Bytes_eq, hlen]
    simp [errorFrame, wireFrame]

theorem loginSuccess_spec (id uid : Int64) : ∃ buf, loginSuccess host id uid = some buf ∧
    buf.Ordered ∧ buf.unread = successFrame host id uid := by
  obtain ⟨buf, h, hord, hunread⟩ := foldlM_new [Buffer.int8Bytes (ascii 's'),
    Buffer.int32Bytes host 20, Buffer.int64Bytes host id, Buffer.int64Bytes host uid]
    (by simp [Buffer.int8Bytes, Buffer.int32Bytes, Buffer.int64Bytes])
  refine ⟨buf, ?_, hord, ?_⟩
  · simp only [List.foldlM_cons, List.foldlM_nil, bind_pure] at h
    exact h
  · have hlen : (Int32.toUInt32 20).toNat = 20 := rfl
    rw [hunread, int32Bytes_eq, hlen]
    simp [successFrame, wireFrame]

theorem reply_spec (id uid : Int64) : ∃ buf, reply host id uid = some buf ∧ buf.Ordered ∧
    buf.unread = if uid = -1 then errorFrame host id else successFrame host id uid := by
  by_cases huid : uid = -1
  · simpa only [reply, if_pos huid] using loginError_spec host id
  · simpa only [reply, if_neg huid] using loginSuccess_spec host id uid

end DataServer
end TinyGameServer
