import TinyGameServer.FieldCodec
import TinyGameServer.ReceiveBuffer

/-!
# The fields of a frame and the completeness test

All three message callbacks start in the same way: a minimum length, then the peeked length
against what is buffered after the tag. `Accepts` is that test on the unread bytes. `peekLen`
reads the length in host order, as the test does, and `netField` reads a four-byte field in
network order, as `ReadInt32` does.
-/

namespace TinyGameServer

/-- The code of an ASCII character as the `int8_t` that is read and written. -/
def ascii (c : Char) : Int8 := (UInt8.ofNat c.toNat).toInt8

def tagOf (host : ByteOrder) (q : List UInt8) : Int8 := Buffer.decodeInt8 host (q.take 1)

def peekLen (host : ByteOrder) (q : List UInt8) : ℕ := host.ofBytes ((q.drop 1).take 4)

def netField (q : List UInt8) (off : ℕ) : ℕ := ByteOrder.big.ofBytes ((q.drop off).take 4)

/-- The test that the callbacks make before they read a frame. -/
def Accepts (host : ByteOrder) (minimum : ℕ) (q : List UInt8) : Prop :=
  minimum ≤ q.length ∧ peekLen host q ≤ q.length - 1

instance (host : ByteOrder) (minimum : ℕ) (q : List UInt8) :
    Decidable (Accepts host minimum q) := by
  unfold Accepts
  infer_instance

theorem ofBytes_field_lt (o : ByteOrder) (l : List UInt8) : o.ofBytes (l.take 4) < 2 ^ 32 := by
  have h := o.ofBytes_lt (l.take 4)
  have hlen : (l.take 4).length ≤ 4 := by
    rw [List.length_take]
    exact Nat.min_le_left _ _
  exact h.trans_le (Nat.pow_le_pow_right (by decide) hlen)

theorem toNat_peekField (host : ByteOrder) (q : List UInt8) :
    (peekField host q).2.toUInt32.toNat = peekLen host q := by
  rw [peekField, UInt32.toUInt32_toInt32, UInt32.toNat_ofNat',
    Nat.mod_eq_of_lt (ofBytes_field_lt _ _), peekLen]

theorem toNat_decodeInt32 (host : ByteOrder) (q : List UInt8) (off : ℕ)
    (hlen : off + 4 ≤ q.length) :
    (Buffer.decodeInt32 host ((q.drop off).take 4)).toUInt32.toNat = netField q off := by
  have hfield : ((q.drop off).take 4).length = 4 := by
    rw [List.length_take, List.length_drop]
    omega
  rw [Buffer.decodeInt32, UInt32.toUInt32_toInt32, toNat_ntohl_ofBytes host _ hfield, netField]

/-! ## Frames on the wire -/

def wireFrame (tag : Int8) (len : ℕ) (body : List UInt8) : List UInt8 :=
  Buffer.int8Bytes tag ++ ByteOrder.big.toBytes 4 len ++ body

@[simp] theorem length_wireFrame (tag : Int8) (len : ℕ) (body : List UInt8) :
    (wireFrame tag len body).length = 5 + body.length := by
  simp only [wireFrame, Buffer.int8Bytes, List.length_append, List.length_cons, List.length_nil,
    ByteOrder.length_toBytes]

/-- The length counts itself but not the tag. -/
def frame (tag : Int8) (body : List UInt8) : List UInt8 := wireFrame tag (4 + body.length) body

@[simp] theorem length_frame (tag : Int8) (body : List UInt8) :
    (frame tag body).length = 5 + body.length := length_wireFrame tag _ body

theorem tagOf_wireFrame (host : ByteOrder) (tag : Int8) (len : ℕ) (body rest : List UInt8) :
    tagOf host (wireFrame tag len body ++ rest) = tag := by
  have h : (wireFrame tag len body ++ rest).take 1 = [tag.toUInt8] := rfl
  cases host <;>
    simp [tagOf, h, Buffer.decodeInt8, ByteOrder.ofBytes, ByteOrder.ofLeBytes]

theorem field_wireFrame (tag : Int8) (len : ℕ) (body rest : List UInt8) :
    ((wireFrame tag len body ++ rest).drop 1).take 4 = ByteOrder.big.toBytes 4 len := by
  change List.take 4 (ByteOrder.big.toBytes 4 len ++ body ++ rest) = _
  rw [List.append_assoc, List.take_left' (ByteOrder.length_toBytes _ 4 len)]

theorem netField_wireFrame (tag : Int8) (len : ℕ) (body rest : List UInt8) (hlen : len < 2 ^ 32) :
    netField (wireFrame tag len body ++ rest) 1 = len := by
  rw [netField, field_wireFrame, ByteOrder.ofBytes_toBytes _ _ _ (by omega)]

theorem netField_append {pre post : List UInt8} {off n : ℕ} (hoff : pre.length = off)
    (hn : n < 2 ^ 32) : netField (pre ++ (ByteOrder.big.toBytes 4 n ++ post)) off = n := by
  rw [netField, List.drop_left' hoff, List.take_left' (ByteOrder.length_toBytes _ 4 n),
    ByteOrder.ofBytes_toBytes _ _ _ (by omega)]

theorem drop_wireFrame (tag : Int8) (len : ℕ) (body rest : List UInt8) (k : ℕ) :
    (wireFrame tag len body ++ rest).drop (5 + k) = (body ++ rest).drop k := by
  have hhead : (Buffer.int8Bytes tag ++ ByteOrder.big.toBytes 4 len).length = 5 := by
    rw [List.length_append, ByteOrder.length_toBytes]
    rfl
  rw [wireFrame, List.append_assoc, ← List.drop_drop, List.drop_left' hhead]

/-! ## Programs on the ideal queue -/

section Queue

variable {α β : Type} {q : List UInt8}

theorem toNat_ofNat_length (hq : q.length < 2 ^ 32) : (UInt32.ofNat q.length).toNat = q.length := by
  rw [UInt32.toNat_ofNat', Nat.mod_eq_of_lt hq]

/-! A program at offset `off` of the bytes `q`, one read at a time. -/

theorem takeField_bind {width : ℕ} {decode : List UInt8 → α}
    {k : α → StateT (List UInt8) Option β} (off : ℕ) (hlen : off + width ≤ q.length) :
    (takeField width decode >>= k) (q.drop off) =
      k (decode ((q.drop off).take width)) (q.drop (off + width)) := by
  have hrest : width ≤ (q.drop off).length := by
    rw [List.length_drop]
    omega
  rw [Simulates.bind_apply, takeField, if_pos hrest, Option.bind_some, List.drop_drop]

theorem takeField_bind_none {width : ℕ} {decode : List UInt8 → α}
    {k : α → StateT (List UInt8) Option β} (off : ℕ) (hwidth : 0 < width)
    (hlen : q.length < off + width) : (takeField width decode >>= k) (q.drop off) = none := by
  have hrest : ¬ width ≤ (q.drop off).length := by
    rw [List.length_drop]
    omega
  rw [Simulates.bind_apply, takeField, if_neg hrest, Option.bind_none]

variable (host : ByteOrder)

theorem readInt8_bind {k : Int8 → StateT (List UInt8) Option β} (hlen : 1 ≤ q.length) :
    ((onQueue host).readInt8 >>= k) q = k (tagOf host q) (q.drop 1) := by
  have h : (takeField 1 (Buffer.decodeInt8 host) >>= k) (q.drop 0) = _ :=
    takeField_bind 0 (by omega)
  rwa [List.drop_zero] at h

theorem readInt32_bind {k : Int32 → StateT (List UInt8) Option β} (off : ℕ)
    (hlen : off + 4 ≤ q.length) :
    ((onQueue host).readInt32 >>= k) (q.drop off) =
      k (Buffer.decodeInt32 host ((q.drop off).take 4)) (q.drop (off + 4)) :=
  takeField_bind off hlen

theorem readInt32_bind_none {k : Int32 → StateT (List UInt8) Option β} (off : ℕ)
    (hlen : q.length < off + 4) : ((onQueue host).readInt32 >>= k) (q.drop off) = none :=
  takeField_bind_none off (by decide) hlen

theorem readInt64_bind {k : Int64 → StateT (List UInt8) Option β} (off : ℕ)
    (hlen : off + 8 ≤ q.length) :
    ((onQueue host).readInt64 >>= k) (q.drop off) =
      k (Buffer.decodeInt64 host ((q.drop off).take 8)) (q.drop (off + 8)) :=
  takeField_bind off hlen

theorem readInt64_bind_none {k : Int64 → StateT (List UInt8) Option β} (off : ℕ)
    (hlen : q.length < off + 8) : ((onQueue host).readInt64 >>= k) (q.drop off) = none :=
  takeField_bind_none off (by decide) hlen

theorem readString_bind {k : List UInt8 → StateT (List UInt8) Option β} (off : ℕ)
    (length : UInt32) :
    ((onQueue host).readString length >>= k) (q.drop off) =
      k ((q.drop off).take length.toNat) (q.drop (off + length.toNat)) := by
  rw [Simulates.bind_apply, ← List.drop_drop]
  rfl

theorem forward_bind {k : Unit → StateT (List UInt8) Option β} (off : ℕ) (num : Int32) :
    ((onQueue host).forward num >>= k) (q.drop off) =
      k () (q.drop (off + num.toUInt32.toNat)) := by
  rw [Simulates.bind_apply, ← List.drop_drop]
  rfl

/-- The common guard of the message callbacks. -/
theorem guard_queue (host : ByteOrder) (minimum : UInt32) (hmin : 5 ≤ minimum.toNat)
    (body : Int8 × Int32 → StateT (List UInt8) Option α) (incomplete : α)
    (hq : q.length < 2 ^ 32) :
    (do
      if minimum ≤ (← (onQueue host).getLength) then
        let taglen ← (onQueue host).peekTagLen
        if taglen.2.toUInt32 ≤ (← (onQueue host).getLength) - 1 then body taglen
        else return incomplete
      else return incomplete : StateT (List UInt8) Option α) q =
    if Accepts host minimum.toNat q then body (peekField host q) q else some (incomplete, q) := by
  have hlen := toNat_ofNat_length hq
  have hge : minimum ≤ UInt32.ofNat q.length ↔ minimum.toNat ≤ q.length := by
    rw [UInt32.le_iff_toNat_le, hlen]
  change (if minimum ≤ UInt32.ofNat q.length then _ else _ : StateT (List UInt8) Option α) q = _
  by_cases hshort : minimum.toNat ≤ q.length
  · have hsub : (UInt32.ofNat q.length - 1).toNat = q.length - 1 := by
      rw [UInt32.toNat_sub_of_le _ _ (by rw [UInt32.le_iff_toNat_le, hlen]; simp; omega), hlen]
      rfl
    have hpeek : (peekField host q).2.toUInt32 ≤ UInt32.ofNat q.length - 1 ↔
        peekLen host q ≤ q.length - 1 := by
      rw [UInt32.le_iff_toNat_le, toNat_peekField, hsub]
    have hfive : 5 ≤ q.length := hmin.trans hshort
    rw [if_pos (hge.mpr hshort), Simulates.bind_apply]
    change ((if 5 ≤ q.length then some (peekField host q, q) else none).bind _) = _
    rw [if_pos hfive, Option.bind_some]
    change (if (peekField host q).2.toUInt32 ≤ UInt32.ofNat q.length - 1 then _ else _ :
      StateT (List UInt8) Option α) q = _
    by_cases hfull : peekLen host q ≤ q.length - 1
    · rw [if_pos (hpeek.mpr hfull), if_pos ⟨hshort, hfull⟩]
    · rw [if_neg (hpeek.not.mpr hfull), if_neg (fun h => hfull h.2)]
      rfl
  · rw [if_neg (hge.not.mpr hshort), if_neg (fun h => hshort h.1)]
    rfl

end Queue
end TinyGameServer
