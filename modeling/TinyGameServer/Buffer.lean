import TinyGameServer.MemoryBlock
import TinyGameServer.ByteOrder

/-!
# The class Buffer

`block` is the allocation behind `buffer_`; its size is `capacity_` by its type. The three
`unsigned int` members are machine words and wrap like them. A copy that would leave the
allocation has undefined behaviour in the source and makes the operation return `none`.
Strings and foreign memory are byte lists. `host` is the byte order of the machine.
-/

namespace TinyGameServer

structure Buffer where
  capacity : UInt32
  block : Block capacity.toNat
  readIndex : UInt32
  writeIndex : UInt32

/-- What `readv` hands over: an error, or the bytes it has put into the two segments. -/
inductive ReadResult where
  | error
  | data (bytes : List UInt8)
  deriving DecidableEq

namespace Buffer

def INITIAL_SIZE : UInt32 := 8192

def new (capacity : UInt32) : Buffer :=
  { capacity, block := ⟨fun _ => 0⟩, readIndex := 0, writeIndex := 0 }

variable (host : ByteOrder) (b : Buffer)

def getLength : UInt32 := b.writeIndex - b.readIndex

def clear : Buffer := { b with readIndex := 0, writeIndex := 0 }

/-! ## Growing and appending -/

def adjust : Option Buffer := do
  let data ← b.block.load b.readIndex.toNat b.getLength.toNat
  let block ← b.block.store 0 data
  return { b with block, writeIndex := b.getLength, readIndex := 0 }

def grow (length : UInt32) : Option Buffer :=
  if b.writeIndex + b.capacity - b.readIndex < length then do
    let cap := b.capacity * 2 + length
    let data ← b.block.load b.readIndex.toNat b.getLength.toNat
    let buf ← (b.block.fresh cap.toNat).store 0 data
    return { capacity := cap, block := buf, writeIndex := b.getLength, readIndex := 0 }
  else b.adjust

def ensureCapacity (length : UInt32) : Option Buffer :=
  if b.capacity - b.writeIndex < length then b.grow length else some b

def append (data : List UInt8) : Option Buffer := do
  let length := UInt32.ofNat data.length
  let b ← b.ensureCapacity length
  let block ← b.block.store b.writeIndex.toNat data
  return { b with block, writeIndex := b.writeIndex + length }

/-! ## 64-bit byte order -/

def ntohll (x : UInt64) : UInt64 :=
  ((htonl host x.toUInt32).toUInt64 <<< 32) + (htonl host (x >>> 32).toUInt32).toUInt64

def htonll (x : UInt64) : UInt64 := ntohll host x

/-! ## Typed appends -/

def int64Bytes (data : Int64) : List UInt8 :=
  host.toBytes 8 (htonll host data.toUInt64).toNat

def int32Bytes (data : Int32) : List UInt8 :=
  host.toBytes 4 (htonl host data.toUInt32).toNat

def int16Bytes (data : Int16) : List UInt8 :=
  host.toBytes 2 (htons host data.toUInt16).toNat

def int8Bytes (data : Int8) : List UInt8 := [data.toUInt8]

def appendInt64 (data : Int64) : Option Buffer := b.append (int64Bytes host data)

def appendInt32 (data : Int32) : Option Buffer := b.append (int32Bytes host data)

def appendInt16 (data : Int16) : Option Buffer := b.append (int16Bytes host data)

def appendInt8 (data : Int8) : Option Buffer := b.append (int8Bytes data)

/-- The `size_t` length of the string is narrowed to the `unsigned int` of `append`. -/
def appendString (data : List UInt8) : Option Buffer :=
  b.append (data.take (UInt32.ofNat data.length).toNat)

def appendBuffer (data : Buffer) : Option Buffer := do
  let bytes ← data.block.load data.readIndex.toNat data.getLength.toNat
  b.append bytes

def appendData (data : List UInt8) : Option Buffer := b.append data

/-! ## Reading -/

/-- `memcpy` of a fixed-width field, which advances `read_index_` without looking at
`write_index_`. -/
def readField (width : UInt32) : Option (List UInt8 × Buffer) := do
  let bytes ← b.block.load b.readIndex.toNat width.toNat
  return (bytes, { b with readIndex := b.readIndex + width })

def decodeInt64 (bytes : List UInt8) : Int64 :=
  (ntohll host (UInt64.ofNat (host.ofBytes bytes))).toInt64

def decodeInt32 (bytes : List UInt8) : Int32 :=
  (ntohl host (UInt32.ofNat (host.ofBytes bytes))).toInt32

def decodeInt16 (bytes : List UInt8) : Int16 :=
  (ntohs host (UInt16.ofNat (host.ofBytes bytes))).toInt16

def decodeInt8 (bytes : List UInt8) : Int8 := (UInt8.ofNat (host.ofBytes bytes)).toInt8

def readInt64 : Option (Int64 × Buffer) := do
  let (bytes, b) ← b.readField 8
  return (decodeInt64 host bytes, b)

def readInt32 : Option (Int32 × Buffer) := do
  let (bytes, b) ← b.readField 4
  return (decodeInt32 host bytes, b)

def readInt16 : Option (Int16 × Buffer) := do
  let (bytes, b) ← b.readField 2
  return (decodeInt16 host bytes, b)

def readInt8 : Option (Int8 × Buffer) := do
  let (bytes, b) ← b.readField 1
  return (decodeInt8 host bytes, b)

def readString (length : UInt32) : Option (List UInt8 × Buffer) := do
  let length := if b.getLength < length then b.getLength else length
  let str ← b.block.load b.readIndex.toNat length.toNat
  return (str, { b with readIndex := b.readIndex + length })

def readAll : Option (List UInt8 × Buffer) := b.readString b.getLength

/-- The length is copied out as it lies in memory, without `ntohl`. -/
def peekTagLen : Option (Int8 × Int32) := do
  let tag ← b.block.load b.readIndex.toNat 1
  let len ← b.block.load (b.readIndex.toNat + 1) 4
  return (decodeInt8 host tag, (UInt32.ofNat (host.ofBytes len)).toInt32)

/-- The signed argument is compared as an `unsigned int`. -/
def forward (num : Int32) : Buffer :=
  if num.toUInt32 < b.getLength then { b with readIndex := b.readIndex + num.toUInt32 }
  else b.clear

/-! ## Reading from a descriptor -/

/-- `readv` fills the writable room of the buffer first and then the stack segment, whose part
is appended. -/
def readFd : ReadResult → Option (Int32 × Buffer)
  | .error => some (-1, b)
  | .data bytes => do
    let writable := b.capacity - b.writeIndex
    let n := Int32.ofNat bytes.length
    let block ← b.block.store b.writeIndex.toNat (bytes.take writable.toNat)
    if n.toUInt32 ≤ writable then
      return (n, { b with block, writeIndex := b.writeIndex + n.toUInt32 })
    else
      let b ← { b with block, writeIndex := b.capacity : Buffer }.append
        (bytes.drop writable.toNat)
      return (n, b)

end Buffer
end TinyGameServer
