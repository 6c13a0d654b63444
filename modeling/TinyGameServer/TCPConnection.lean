import TinyGameServer.BufferSpec
import TinyGameServer.FdWatcher

/-!
# The class TCPConnection

The handlers are cut into the statements between which the loop can be observed, and put together
again below. A `write` call fails, or takes a prefix of what it is offered; no platform takes more
than `INT_MAX` bytes at a time. `int` is a machine word like `unsigned int`, and conversions keep
its bits. `written` collects what has gone out on `fd_`.
-/

namespace TinyGameServer

inductive ConnStatus where
  | Disconnected
  | Connecting
  | Connected
  deriving DecidableEq

inductive WriteResult where
  | error
  | accepted (count : ℕ)
  deriving DecidableEq

namespace WriteResult

def bytes (w : WriteResult) (data : List UInt8) : List UInt8 :=
  match w with
  | error => []
  | accepted count => data.take (min count 0x7fffffff)

def len (w : WriteResult) (data : List UInt8) : Int32 :=
  match w with
  | error => -1
  | accepted _ => Int32.ofNat (w.bytes data).length

end WriteResult

structure TCPConnection where
  status : ConnStatus
  watcher : FdWatcher
  sendBuffer : Buffer
  written : List UInt8

namespace TCPConnection

def new : TCPConnection where
  status := .Connected
  watcher := .new Interest.none
  sendBuffer := .new Buffer.INITIAL_SIZE
  written := []

variable (c : TCPConnection)

/-! ## HandleWrite -/

def writeOut (w : WriteResult) : Option (Int32 × TCPConnection) := do
  let data ← c.sendBuffer.block.load c.sendBuffer.readIndex.toNat c.sendBuffer.getLength.toNat
  return (w.len data, { c with written := c.written ++ w.bytes data })

def forwardSent (len : Int32) : TCPConnection :=
  { c with sendBuffer := c.sendBuffer.forward len }

def stopIfEmpty : TCPConnection :=
  if c.sendBuffer.getLength = 0 then { c with watcher := c.watcher.disableWriteEvent } else c

def handleWrite (w : WriteResult) : Option TCPConnection := do
  let (len, c) ← c.writeOut w
  if 0 < len then return (c.forwardSent len).stopIfEmpty else return c

/-! ## SendInLoop -/

/-- The direct attempt. It returns `remaining` and the buffer that is left. -/
def directWrite (buf : Buffer) (w : WriteResult) : Option (Int32 × Buffer × TCPConnection) :=
  let remaining := buf.getLength.toInt32
  if ¬ c.watcher.isWriting ∧ c.sendBuffer.getLength = 0 then do
    let data ← buf.block.load buf.readIndex.toNat buf.getLength.toNat
    let len := w.len data
    let c := { c with written := c.written ++ w.bytes data }
    if 0 ≤ len then return (remaining - len, buf.forward len, c)
    else return (remaining, buf, c)
  else return (remaining, buf, c)

def queueRest (buf : Buffer) (remaining : Int32) : Option TCPConnection :=
  if 0 < remaining then do
    let sendBuffer ← c.sendBuffer.appendBuffer buf
    return { c with sendBuffer }
  else return c

def enableWriting : TCPConnection :=
  if ¬ c.watcher.isWriting then { c with watcher := c.watcher.enableWriteEvent } else c

def sendInLoop (buf : Buffer) (w : WriteResult) : Option (Buffer × TCPConnection) := do
  let (remaining, buf, c) ← c.directWrite buf w
  let c ← c.queueRest buf remaining
  return (buf, c.enableWriting)

/-! ## HandleClose and Start -/

def disableAll : TCPConnection := { c with watcher := c.watcher.disableAllEvent }

def setDisconnected : TCPConnection := { c with status := .Disconnected }

def enableReading : TCPConnection := { c with watcher := c.watcher.enableReadEvent }

/-! ## Only setDisconnected changes the status -/

variable {c} {c' : TCPConnection}

theorem status_writeOut {w : WriteResult} {len : Int32} (h : c.writeOut w = some (len, c')) :
    c'.status = c.status := by
  obtain ⟨data, -, h⟩ := Option.bind_eq_some_iff.mp h
  cases h
  rfl

theorem status_stopIfEmpty : c.stopIfEmpty.status = c.status := by
  rw [stopIfEmpty]
  split <;> rfl

theorem status_directWrite {buf buf' : Buffer} {w : WriteResult} {remaining : Int32}
    (h : c.directWrite buf w = some (remaining, buf', c')) : c'.status = c.status := by
  rw [directWrite] at h
  split at h
  · obtain ⟨data, -, h⟩ := Option.bind_eq_some_iff.mp h
    dsimp only at h
    split at h <;> cases h <;> rfl
  · cases h
    rfl

theorem status_queueRest {buf : Buffer} {remaining : Int32}
    (h : c.queueRest buf remaining = some c') : c'.status = c.status := by
  rw [queueRest] at h
  split at h
  · obtain ⟨sendBuffer, -, h⟩ := Option.bind_eq_some_iff.mp h
    cases h
    rfl
  · cases h
    rfl

theorem status_enableWriting : c.enableWriting.status = c.status := by
  rw [enableWriting]
  split <;> rfl

end TCPConnection

/-! ## Lengths -/

theorem int32_pos_iff_lt (x : Int32) :
    0 < x ↔ 0 < x.toUInt32.toNat ∧ x.toUInt32.toNat < 2 ^ 31 := by
  have hnat : x.toUInt32.toNat = x.toBitVec.toNat := rfl
  have hint : x.toInt = x.toBitVec.toInt := rfl
  have hlt := x.toBitVec.isLt
  rw [hnat, Int32.lt_iff_toInt_lt, hint, BitVec.toInt_eq_toNat_cond]
  simp only [Int32.toInt_zero]
  split <;> omega

theorem int32_pos_iff (x : Int32) (hx : x.toUInt32.toNat < 2 ^ 31) :
    0 < x ↔ 0 < x.toUInt32.toNat := by
  rw [int32_pos_iff_lt]
  exact and_iff_left hx

theorem int32_nonneg (x : Int32) (hx : x.toUInt32.toNat < 2 ^ 31) : 0 ≤ x := by
  have hnat : x.toUInt32.toNat = x.toBitVec.toNat := rfl
  have hint : x.toInt = x.toBitVec.toInt := rfl
  rw [hnat] at hx
  rw [Int32.le_iff_toInt_le, hint, BitVec.toInt_eq_toNat_cond]
  simp only [Int32.toInt_zero]
  split <;> omega

namespace WriteResult

theorem length_bytes_le (w : WriteResult) (data : List UInt8) :
    (w.bytes data).length ≤ data.length ∧ (w.bytes data).length < 2 ^ 31 := by
  cases w with
  | error => exact ⟨Nat.zero_le _, Nat.two_pow_pos 31⟩
  | accepted count =>
      rw [bytes, List.length_take]
      omega

theorem toNat_len_accepted (count : ℕ) (data : List UInt8) :
    ((accepted count).len data).toUInt32.toNat = ((accepted count).bytes data).length :=
  Buffer.toNat_readv_count _ (length_bytes_le _ data).2

theorem bytes_eq_nil_of_nonpos (w : WriteResult) {data : List UInt8} (h : ¬ 0 < w.len data) :
    w.bytes data = [] := by
  cases w with
  | error => rfl
  | accepted count =>
      have hlt := (length_bytes_le (accepted count) data).2
      rw [int32_pos_iff _ (by rw [toNat_len_accepted]; exact hlt), toNat_len_accepted] at h
      exact List.eq_nil_of_length_eq_zero (by omega)

theorem bytes_append_drop (w : WriteResult) (data : List UInt8) :
    w.bytes data ++ data.drop (w.bytes data).length = data := by
  cases w with
  | error => rfl
  | accepted count =>
      rw [bytes]
      conv_rhs => rw [← List.take_append_drop (min count 0x7fffffff) data]
      congr 1
      rw [List.length_take, List.drop_eq_drop_iff]
      omega

end WriteResult
end TinyGameServer
