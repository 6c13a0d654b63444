import TinyGameServer.FieldCodec
import TinyGameServer.Transitions

/-!
# Typed fields through a Buffer

Fields are appended and read in any interleaving. A session keeps, next to the buffer, the list
of the fields that were appended and the list of those that were returned. As long as every
field fits and every read asks for the type of the next field, the unread bytes are the images
of the fields that are still to be read, and so what is returned is what was appended.
-/

namespace TinyGameServer

def Field.append (host : ByteOrder) (b : Buffer) : Field → Option Buffer
  | .int64 data => b.appendInt64 host data
  | .int32 data => b.appendInt32 host data
  | .int16 data => b.appendInt16 host data
  | .int8 data => b.appendInt8 data
  | .string data => b.appendString data

def FieldType.read (host : ByteOrder) (b : Buffer) : FieldType → Option (Field × Buffer)
  | .int64 => (b.readInt64 host).map (Prod.map .int64 id)
  | .int32 => (b.readInt32 host).map (Prod.map .int32 id)
  | .int16 => (b.readInt16 host).map (Prod.map .int16 id)
  | .int8 => (b.readInt8 host).map (Prod.map .int8 id)
  | .string length => (b.readString length).map (Prod.map .string id)

inductive FieldOp where
  | append (field : Field)
  | read (type : FieldType)

structure Session where
  buffer : Buffer
  appended : List Field
  returned : List Field

namespace Session

def start (b : Buffer) : Session := { buffer := b, appended := [], returned := [] }

def step (host : ByteOrder) (s : Session) : FieldOp → Option Session
  | .append field => do
    let buffer ← field.append host s.buffer
    return { s with buffer, appended := s.appended ++ [field] }
  | .read type => do
    let (field, buffer) ← type.read host s.buffer
    return { s with buffer, returned := s.returned ++ [field] }

/-- An appended field fits next to the unread bytes. The `k`-th read follows the `k`-th append
and asks for its type. -/
def Legal (s : Session) : FieldOp → Prop
  | .append field => s.buffer.getLength.toNat + field.size ≤ s.buffer.capacity.toNat
  | .read type => s.appended[s.returned.length]?.map Field.type = some type

instance (s : Session) (op : FieldOp) : Decidable (s.Legal op) :=
  match op with
  | .append _ => inferInstanceAs (Decidable (_ ≤ _))
  | .read _ => inferInstanceAs (Decidable (_ = _))

end Session

/-! ## One field -/

variable {host : ByteOrder} {b : Buffer}

theorem Field.append_eq (field : Field) (hsize : field.size < 2 ^ 32) :
    field.append host b = b.append (field.bytes host) := by
  cases field with
  | string data => exact Buffer.appendString_eq_append data hsize
  | _ => rfl

theorem Field.append_spec (host : ByteOrder) (hb : b.Ordered) (field : Field) (hcap : b.capacity.toNat < 2 ^ 31)
    (hfit : b.getLength.toNat + field.size ≤ b.capacity.toNat) :
    ∃ b', field.append host b = some b' ∧ b'.Ordered ∧
      b'.unread = b.unread ++ field.bytes host ∧ b'.capacity = b.capacity := by
  rw [field.append_eq (by omega)]
  apply Buffer.append_within hb
  · omega
  · rwa [field.length_bytes]

theorem readField_map_spec {α : Type} (hb : b.Ordered) (width : UInt32)
    (decode : List UInt8 → α) (wrap : α → Field) (hwidth : width.toNat ≤ b.getLength.toNat) :
    ∃ b', (((b.readField width).bind fun p => some (decode p.1, p.2)).map (Prod.map wrap id)) =
        some (wrap (decode (b.unread.take width.toNat)), b') ∧
      b'.Ordered ∧ b'.unread = b.unread.drop width.toNat ∧ b'.capacity = b.capacity := by
  obtain ⟨b', hread, hrest⟩ := Buffer.readField_spec hb width hwidth
  refine ⟨b', ?_, hrest⟩
  rw [hread]
  rfl

theorem FieldType.read_spec (host : ByteOrder) (hb : b.Ordered) (type : FieldType)
    (hwidth : type.width.toNat ≤ b.getLength.toNat) :
    ∃ b', type.read host b = some (type.decode host (b.unread.take type.width.toNat), b') ∧
      b'.Ordered ∧ b'.unread = b.unread.drop type.width.toNat ∧ b'.capacity = b.capacity := by
  cases type with
  | int64 => exact readField_map_spec hb 8 (Buffer.decodeInt64 host) Field.int64 hwidth
  | int32 => exact readField_map_spec hb 4 (Buffer.decodeInt32 host) Field.int32 hwidth
  | int16 => exact readField_map_spec hb 2 (Buffer.decodeInt16 host) Field.int16 hwidth
  | int8 => exact readField_map_spec hb 1 (Buffer.decodeInt8 host) Field.int8 hwidth
  | string length =>
      obtain ⟨b', hread, hrest⟩ := Buffer.readString_spec hb length
      exact ⟨b', Option.map_eq_some_iff.mpr ⟨_, hread, rfl⟩, hrest⟩

theorem FieldType.read_front (host : ByteOrder) (hb : b.Ordered) {writer : ByteOrder} {field : Field}
    {rest : List UInt8} (hunread : b.unread = field.bytes writer ++ rest) :
    ∃ b', field.type.read host b = some (field.type.decode host (field.bytes writer), b') ∧
      b'.Ordered ∧ b'.unread = rest ∧ b'.capacity = b.capacity := by
  have hlen : b.getLength.toNat = field.size + rest.length := by
    rw [← Buffer.length_unread, hunread, List.length_append, field.length_bytes]
  have hwidth : field.type.width.toNat = field.size := by
    apply field.toNat_width_type
    have := b.getLength.toNat_lt
    omega
  obtain ⟨b', hread, hord, hrest, hcap⟩ := read_spec host hb field.type (by omega)
  have hfront : (field.bytes writer).length = field.type.width.toNat := by
    rw [hwidth, field.length_bytes]
  rw [hunread, List.take_left' hfront] at hread
  rw [hunread, List.drop_left' hfront] at hrest
  exact ⟨b', hread, hord, hrest, hcap⟩

/-! ## Sessions -/

namespace Session

/-- The fields that are still to be read are what the unread bytes are the images of. -/
structure Queued (host : ByteOrder) (s : Session) : Prop where
  ordered : s.buffer.Ordered
  capacity : s.buffer.capacity.toNat < 2 ^ 31
  pending : ∃ fields, s.appended = s.returned ++ fields ∧
    s.buffer.unread = fields.flatMap (Field.bytes host)

theorem Queued.append {s : Session} (h : s.Queued host) (field : Field)
    (hlegal : s.Legal (.append field)) :
    ∃ s', s.step host (.append field) = some s' ∧ s'.Queued host := by
  obtain ⟨fields, happended, hunread⟩ := h.pending
  obtain ⟨b', happend, hord, hunread', hcap⟩ := Field.append_spec host h.ordered field
    h.capacity hlegal
  refine ⟨{ s with buffer := b', appended := s.appended ++ [field] }, ?_, hord, ?_, ?_⟩
  · rw [step, happend]
    rfl
  · rw [hcap]
    exact h.capacity
  · refine ⟨fields ++ [field], ?_, ?_⟩
    · rw [happended, List.append_assoc]
    · rw [hunread', hunread, List.flatMap_append, List.flatMap_singleton]

theorem Queued.read {s : Session} (h : s.Queued host) (type : FieldType)
    (hlegal : s.Legal (.read type)) :
    ∃ s', s.step host (.read type) = some s' ∧ s'.Queued host := by
  obtain ⟨fields, happended, hunread⟩ := h.pending
  obtain ⟨field, hnext, rfl⟩ := Option.map_eq_some_iff.mp hlegal
  rw [happended, List.getElem?_append_right le_rfl, Nat.sub_self] at hnext
  cases fields with
  | nil => cases hnext
  | cons next fields =>
      cases hnext
      obtain ⟨b', hread, hord, hrest, hcap⟩ :=
        FieldType.read_front host h.ordered hunread
      rw [field.decode_bytes] at hread
      refine ⟨{ s with buffer := b', returned := s.returned ++ [field] }, ?_, hord, ?_,
        fields, ?_, hrest⟩
      · rw [step, hread]
        rfl
      · rw [hcap]
        exact h.capacity
      · rw [happended, List.append_assoc]
        rfl

theorem Queued.step {s : Session} (op : FieldOp) (h : s.Queued host) (hlegal : s.Legal op) :
    ∃ s', s.step host op = some s' ∧ s'.Queued host := by
  cases op with
  | append field => exact h.append field hlegal
  | read type => exact h.read type hlegal

theorem start_queued (hb : b.Ordered) (hcap : b.capacity.toNat < 2 ^ 31)
    (hempty : b.getLength = 0) : (start b).Queued host :=
  ⟨hb, hcap, [], rfl, (Buffer.unread_eq_nil_iff b).mpr hempty⟩

/-- Every legal interleaving of typed appends and reads on an empty buffer is defined, returns
the appended fields in order, and leaves nothing unread once all of them have been returned. -/
theorem fields_read_back (host : ByteOrder) (b : Buffer) (hb : b.Ordered)
    (hcap : b.capacity.toNat < 2 ^ 31) (hempty : b.getLength = 0) (ops : List FieldOp)
    (hlegal : Along (step host) Legal (start b) ops) :
    ∃ s, run (step host) (start b) ops = some s ∧
      (∀ k, k < s.returned.length → s.returned[k]? = s.appended[k]?) ∧
      (s.returned.length = s.appended.length → s.buffer.getLength = 0) := by
  obtain ⟨s, hrun, hqueued⟩ := exists_run_of_along (fun _ op => Queued.step op)
    (start_queued hb hcap hempty) hlegal
  obtain ⟨fields, happended, hunread⟩ := hqueued.pending
  refine ⟨s, hrun, ?_, ?_⟩
  · intro k hk
    rw [happended, List.getElem?_append_left hk]
  · intro hall
    have hnone : fields = [] := by
      rw [happended, List.length_append] at hall
      exact List.eq_nil_of_length_eq_zero (by omega)
    rw [hnone, List.flatMap_nil] at hunread
    exact (Buffer.unread_eq_nil_iff _).mp hunread

def mixedFields : List FieldOp :=
  [.append (.int64 (-2)), .read .int64, .append (.string [104, 105]), .append (.int16 (-1)),
    .read (.string 2), .read .int16]

theorem mixed_fields_read_back :
    ∃ s, run (step .big) (start (Buffer.new 10)) mixedFields = some s ∧
      (∀ k, k < s.returned.length → s.returned[k]? = s.appended[k]?) ∧
      (s.returned.length = s.appended.length → s.buffer.getLength = 0) :=
  fields_read_back .big (Buffer.new 10) (Buffer.new_ordered 10) (by decide) rfl mixedFields
    (by decide)

end Session
end TinyGameServer
