import TinyGameServer.BufferSpec

/-!
# The memory images of the typed fields

Every `Append` turns a value into bytes and every `Read` turns as many bytes into a value. On the
host that wrote it, each field decodes to itself. A field of 16 or 32 bits is in network order on
every host. `htonll` exchanges the two words of a 64-bit value after swapping each of them, so
that only a little-endian host puts it in network order: a big-endian one sends the low word
first.
-/

namespace TinyGameServer

/-! ## The two words of a 64-bit value -/

def highWord (x : UInt64) : UInt32 := (x >>> 32).toUInt32

def lowWord (x : UInt64) : UInt32 := x.toUInt32

def joinWords (high low : UInt32) : UInt64 := (high.toUInt64 <<< 32) + low.toUInt64

theorem toNat_highWord (x : UInt64) : (highWord x).toNat = x.toNat / 2 ^ 32 := by
  have hx := x.toNat_lt
  simp only [highWord, UInt64.toNat_toUInt32, UInt64.toNat_shiftRight, UInt64.reduceToNat,
    Nat.reduceMod, Nat.shiftRight_eq_div_pow]
  omega

theorem toNat_lowWord (x : UInt64) : (lowWord x).toNat = x.toNat % 2 ^ 32 :=
  UInt64.toNat_toUInt32 x

theorem toNat_joinWords (high low : UInt32) :
    (joinWords high low).toNat = low.toNat + 256 ^ 4 * high.toNat := by
  have hhigh := high.toNat_lt
  have hlow := low.toNat_lt
  simp only [joinWords, UInt64.toNat_add, UInt64.toNat_shiftLeft, UInt64.reduceToNat,
    Nat.reduceMod, Nat.shiftLeft_eq, UInt32.toNat_toUInt64]
  omega

theorem toNat_eq_words (x : UInt64) :
    x.toNat = (lowWord x).toNat + 256 ^ 4 * (highWord x).toNat := by
  rw [toNat_lowWord, toNat_highWord]
  omega

@[simp] theorem highWord_joinWords (high low : UInt32) : highWord (joinWords high low) = high := by
  have hlow := low.toNat_lt
  apply UInt32.toNat_inj.mp
  rw [toNat_highWord, toNat_joinWords]
  omega

@[simp] theorem lowWord_joinWords (high low : UInt32) : lowWord (joinWords high low) = low := by
  have hlow := low.toNat_lt
  apply UInt32.toNat_inj.mp
  rw [toNat_lowWord, toNat_joinWords]
  omega

theorem joinWords_words (x : UInt64) : joinWords (highWord x) (lowWord x) = x := by
  apply UInt64.toNat_inj.mp
  rw [toNat_joinWords, ← toNat_eq_words]

namespace Buffer

theorem ntohll_eq (host : ByteOrder) (x : UInt64) :
    ntohll host x = joinWords (htonl host (lowWord x)) (htonl host (highWord x)) := rfl

theorem ntohll_ntohll (host : ByteOrder) (x : UInt64) : ntohll host (ntohll host x) = x := by
  simp only [ntohll_eq, highWord_joinWords, lowWord_joinWords, htonl_htonl, joinWords_words]

end Buffer

/-! ## What is on the wire -/

/-- Two words one after the other in network order. -/
def wireWords (first second : UInt32) : List UInt8 :=
  ByteOrder.big.toBytes 4 first.toNat ++ ByteOrder.big.toBytes 4 second.toNat

theorem big_toBytes_words (x : UInt64) :
    ByteOrder.big.toBytes 8 x.toNat = wireWords (highWord x) (lowWord x) := by
  have hlow := (lowWord x).toNat_lt
  change (ByteOrder.leBytes (4 + 4) x.toNat).reverse = _
  rw [toNat_eq_words x, ByteOrder.leBytes_add_mul 4 4 _ _ (by omega), List.reverse_append]
  rfl

theorem int32Bytes_eq (host : ByteOrder) (data : Int32) :
    Buffer.int32Bytes host data = ByteOrder.big.toBytes 4 data.toUInt32.toNat :=
  toBytes_htonl host data.toUInt32

theorem int16Bytes_eq (host : ByteOrder) (data : Int16) :
    Buffer.int16Bytes host data = ByteOrder.big.toBytes 2 data.toUInt16.toNat :=
  toBytes_htons host data.toUInt16

theorem int64Bytes_little (data : Int64) :
    Buffer.int64Bytes .little data =
      wireWords (highWord data.toUInt64) (lowWord data.toUInt64) := by
  have hlow := (htonl .little (highWord data.toUInt64)).toNat_lt
  change ByteOrder.leBytes (4 + 4) (Buffer.ntohll .little data.toUInt64).toNat = _
  rw [Buffer.ntohll_eq, toNat_joinWords, ByteOrder.leBytes_add_mul 4 4 _ _ (by omega)]
  exact congrArg₂ _ (toBytes_htonl .little _) (toBytes_htonl .little _)

theorem int64Bytes_big (data : Int64) :
    Buffer.int64Bytes .big data =
      wireWords (lowWord data.toUInt64) (highWord data.toUInt64) := by
  change ByteOrder.big.toBytes 8 (Buffer.ntohll .big data.toUInt64).toNat = _
  rw [big_toBytes_words, Buffer.ntohll_eq, highWord_joinWords, lowWord_joinWords, wireWords,
    toBytes_htonl, toBytes_htonl, wireWords]

theorem wireWords_inj {a b c d : UInt32} (h : wireWords a b = wireWords c d) : a = c ∧ b = d := by
  obtain ⟨hfirst, hsecond⟩ := List.append_inj h (by simp only [ByteOrder.length_toBytes])
  have inj : ∀ x y : UInt32, ByteOrder.big.toBytes 4 x.toNat = ByteOrder.big.toBytes 4 y.toNat →
      x = y := by
    intro x y hxy
    have hx := x.toNat_lt
    have hy := y.toNat_lt
    apply UInt32.toNat_inj.mp
    rw [← ByteOrder.big.ofBytes_toBytes 4 x.toNat (by omega), hxy,
      ByteOrder.big.ofBytes_toBytes 4 y.toNat (by omega)]
  exact ⟨inj a c hfirst, inj b d hsecond⟩

/-! ## Each width on its own host and on the other one -/

theorem decodeInt64_int64Bytes (host : ByteOrder) (data : Int64) :
    Buffer.decodeInt64 host (Buffer.int64Bytes host data) = data := by
  have hlt := (Buffer.htonll host data.toUInt64).toNat_lt
  rw [Buffer.decodeInt64, Buffer.int64Bytes, ByteOrder.ofBytes_toBytes _ _ _ (by omega),
    UInt64.ofNat_toNat, Buffer.htonll, Buffer.ntohll_ntohll, Int64.toInt64_toUInt64]

theorem decodeInt32_int32Bytes (reader writer : ByteOrder) (data : Int32) :
    Buffer.decodeInt32 reader (Buffer.int32Bytes writer data) = data := by
  have hlt := data.toUInt32.toNat_lt
  have hword : ntohl reader (UInt32.ofNat (reader.ofBytes (Buffer.int32Bytes writer data))) =
      data.toUInt32 := by
    apply UInt32.toNat_inj.mp
    rw [int32Bytes_eq, toNat_ntohl_ofBytes _ _ (ByteOrder.length_toBytes _ _ _),
      ByteOrder.ofBytes_toBytes _ _ _ (by omega)]
  rw [Buffer.decodeInt32, hword, Int32.toInt32_toUInt32]

theorem decodeInt16_int16Bytes (reader writer : ByteOrder) (data : Int16) :
    Buffer.decodeInt16 reader (Buffer.int16Bytes writer data) = data := by
  have hlt := data.toUInt16.toNat_lt
  have hword : ntohs reader (UInt16.ofNat (reader.ofBytes (Buffer.int16Bytes writer data))) =
      data.toUInt16 := by
    apply UInt16.toNat_inj.mp
    rw [int16Bytes_eq, toNat_ntohs_ofBytes _ _ (ByteOrder.length_toBytes _ _ _),
      ByteOrder.ofBytes_toBytes _ _ _ (by omega)]
  rw [Buffer.decodeInt16, hword, Int16.toInt16_toUInt16]

theorem decodeInt8_int8Bytes (reader : ByteOrder) (data : Int8) :
    Buffer.decodeInt8 reader (Buffer.int8Bytes data) = data := by
  cases reader <;>
    simp [Buffer.decodeInt8, Buffer.int8Bytes, ByteOrder.ofBytes, ByteOrder.ofLeBytes]

def exchangeWords (data : Int64) : Int64 :=
  (joinWords (lowWord data.toUInt64) (highWord data.toUInt64)).toInt64

/-- What one host writes is what the other one writes for the value with its words exchanged. -/
theorem int64Bytes_exchangeWords {reader writer : ByteOrder} (hne : writer ≠ reader)
    (data : Int64) :
    Buffer.int64Bytes writer data = Buffer.int64Bytes reader (exchangeWords data) := by
  have hwords : (exchangeWords data).toUInt64 =
      joinWords (lowWord data.toUInt64) (highWord data.toUInt64) := UInt64.toUInt64_toInt64 _
  cases writer with
  | little =>
      cases reader with
      | little => exact absurd rfl hne
      | big =>
          rw [int64Bytes_little, int64Bytes_big, hwords, highWord_joinWords, lowWord_joinWords]
  | big =>
      cases reader with
      | little =>
          rw [int64Bytes_little, int64Bytes_big, hwords, highWord_joinWords, lowWord_joinWords]
      | big => exact absurd rfl hne

theorem exchangeWords_eq_iff (data : Int64) :
    exchangeWords data = data ↔ highWord data.toUInt64 = lowWord data.toUInt64 := by
  constructor
  · intro h
    have hhigh := highWord_joinWords (lowWord data.toUInt64) (highWord data.toUInt64)
    rw [← UInt64.toUInt64_toInt64 (joinWords _ _)] at hhigh
    change highWord (exchangeWords data).toUInt64 = _ at hhigh
    rwa [h] at hhigh
  · intro h
    have hwords := joinWords_words data.toUInt64
    rw [h] at hwords
    rw [exchangeWords, h, hwords, Int64.toInt64_toUInt64]

/-! ## Fields of all types -/

inductive Field where
  | int64 (data : Int64)
  | int32 (data : Int32)
  | int16 (data : Int16)
  | int8 (data : Int8)
  | string (data : List UInt8)
  deriving DecidableEq

/-- What a reader has to know of a field: its type, and the length of a string. -/
inductive FieldType where
  | int64
  | int32
  | int16
  | int8
  | string (length : UInt32)
  deriving DecidableEq

namespace FieldType

def width : FieldType → UInt32
  | .int64 => 8
  | .int32 => 4
  | .int16 => 2
  | .int8 => 1
  | .string length => length

def decode (host : ByteOrder) (bytes : List UInt8) : FieldType → Field
  | .int64 => .int64 (Buffer.decodeInt64 host bytes)
  | .int32 => .int32 (Buffer.decodeInt32 host bytes)
  | .int16 => .int16 (Buffer.decodeInt16 host bytes)
  | .int8 => .int8 (Buffer.decodeInt8 host bytes)
  | .string _ => .string bytes

end FieldType

namespace Field

def type : Field → FieldType
  | .int64 _ => .int64
  | .int32 _ => .int32
  | .int16 _ => .int16
  | .int8 _ => .int8
  | .string data => .string (UInt32.ofNat data.length)

def bytes (host : ByteOrder) : Field → List UInt8
  | .int64 data => Buffer.int64Bytes host data
  | .int32 data => Buffer.int32Bytes host data
  | .int16 data => Buffer.int16Bytes host data
  | .int8 data => Buffer.int8Bytes data
  | .string data => data

/-- The two's complement bytes, most significant first. -/
def networkBytes : Field → List UInt8
  | .int64 data => ByteOrder.big.toBytes 8 data.toUInt64.toNat
  | .int32 data => ByteOrder.big.toBytes 4 data.toUInt32.toNat
  | .int16 data => ByteOrder.big.toBytes 2 data.toUInt16.toNat
  | .int8 data => ByteOrder.big.toBytes 1 data.toUInt8.toNat
  | .string data => data

def size : Field → ℕ
  | .int64 _ => 8
  | .int32 _ => 4
  | .int16 _ => 2
  | .int8 _ => 1
  | .string data => data.length

/-- The two words of a 64-bit field are the same. -/
def EqualWords : Field → Prop
  | .int64 data => highWord data.toUInt64 = lowWord data.toUInt64
  | _ => True

@[simp] theorem length_bytes (host : ByteOrder) (f : Field) : (f.bytes host).length = f.size := by
  cases f <;> simp [bytes, size, Buffer.int64Bytes, Buffer.int32Bytes, Buffer.int16Bytes,
    Buffer.int8Bytes]

theorem toNat_width_type (f : Field) (hsize : f.size < 2 ^ 32) : f.type.width.toNat = f.size := by
  cases f with
  | string data => exact UInt32.toNat_ofNat_of_lt' hsize
  | _ => rfl

theorem decode_bytes (host : ByteOrder) (f : Field) : f.type.decode host (f.bytes host) = f := by
  cases f with
  | int64 data => exact congrArg Field.int64 (decodeInt64_int64Bytes host data)
  | int32 data => exact congrArg Field.int32 (decodeInt32_int32Bytes host host data)
  | int16 data => exact congrArg Field.int16 (decodeInt16_int16Bytes host host data)
  | int8 data => exact congrArg Field.int8 (decodeInt8_int8Bytes host data)
  | string data => rfl

theorem decode_bytes_other {reader writer : ByteOrder} (hne : writer ≠ reader) (f : Field) :
    f.type.decode reader (f.bytes writer) = f ↔ f.EqualWords := by
  cases f with
  | int64 data =>
      change Field.int64 (Buffer.decodeInt64 reader (Buffer.int64Bytes writer data)) = _ ↔ _
      rw [int64Bytes_exchangeWords hne, decodeInt64_int64Bytes, Field.int64.injEq]
      exact exchangeWords_eq_iff data
  | int32 data =>
      exact iff_of_true (congrArg Field.int32 (decodeInt32_int32Bytes reader writer data)) trivial
  | int16 data =>
      exact iff_of_true (congrArg Field.int16 (decodeInt16_int16Bytes reader writer data)) trivial
  | int8 data => exact iff_of_true (congrArg Field.int8 (decodeInt8_int8Bytes reader data)) trivial
  | string data => exact iff_of_true rfl trivial

theorem bytes_eq_networkBytes_iff (host : ByteOrder) (f : Field) :
    f.bytes host = f.networkBytes ↔ host = .little ∨ f.EqualWords := by
  cases f with
  | int64 data =>
      change Buffer.int64Bytes host data = ByteOrder.big.toBytes 8 data.toUInt64.toNat ↔
        host = .little ∨ highWord data.toUInt64 = lowWord data.toUInt64
      rw [big_toBytes_words]
      cases host with
      | little => simp only [int64Bytes_little, true_or]
      | big =>
          rw [int64Bytes_big]
          constructor
          · intro h
            exact Or.inr (wireWords_inj h).2
          · intro h
            rw [h.resolve_left (by decide)]
  | int32 data => exact iff_of_true (int32Bytes_eq host data) (Or.inr trivial)
  | int16 data => exact iff_of_true (int16Bytes_eq host data) (Or.inr trivial)
  | int8 data => exact iff_of_true (by simp [bytes, networkBytes, Buffer.int8Bytes,
      ByteOrder.toBytes, ByteOrder.leBytes]) (Or.inr trivial)
  | string data => exact iff_of_true rfl (Or.inr trivial)

end Field
end TinyGameServer
