import TinyGameServer.TypedFields

/-!
# One wire format for all hosts

A sequence of fields is appended on one host, its bytes travel, and a host of the other byte
order reads them. Fields of up to 32 bits survive this. A 64-bit field is on the wire in network
order when the writer is little-endian; a big-endian host writes and expects its two words in
the opposite order, so that it only agrees with the other kind on values with two equal words.
-/

namespace TinyGameServer

def writeFields (host : ByteOrder) (b : Buffer) (fields : List Field) : Option Buffer :=
  fields.foldlM (Field.append host) b

def readFields (host : ByteOrder) (b : Buffer) : List FieldType → Option (List Field × Buffer)
  | [] => some ([], b)
  | type :: types => do
    let (field, b) ← type.read host b
    let (fields, b) ← readFields host b types
    return (field :: fields, b)

variable {host : ByteOrder} {b : Buffer}

/-- Appends that stay inside the allocation put the images of the fields one after the other. -/
theorem writeFields_eq_some (hb : b.Ordered) {fields : List Field} {b' : Buffer}
    (hsize : ∀ f ∈ fields, f.size < 2 ^ 32) (h : writeFields host b fields = some b') :
    b'.Ordered ∧ b'.unread = b.unread ++ fields.flatMap (Field.bytes host) := by
  induction fields generalizing b with
  | nil =>
      cases h
      exact ⟨hb, (List.append_nil _).symm⟩
  | cons f fields ih =>
      rw [writeFields, List.foldlM_cons] at h
      obtain ⟨b₁, h₁, h⟩ := Option.bind_eq_some_iff.mp h
      rw [f.append_eq (hsize f List.mem_cons_self)] at h₁
      obtain ⟨hord₁, hunread₁⟩ := Buffer.append_eq_some hb h₁
      obtain ⟨hord, hunread⟩ := ih hord₁ (fun g hg => hsize g (List.mem_cons_of_mem f hg)) h
      refine ⟨hord, ?_⟩
      rw [hunread, hunread₁, List.flatMap_cons, List.append_assoc]

theorem readFields_spec (host : ByteOrder) (hb : b.Ordered) (writer : ByteOrder) (fields : List Field)
    (hunread : b.unread = fields.flatMap (Field.bytes writer)) :
    ∃ b', readFields host b (fields.map Field.type) =
        some (fields.map fun f => f.type.decode host (f.bytes writer), b') ∧
      b'.getLength = 0 := by
  induction fields generalizing b with
  | nil =>
      exact ⟨b, rfl, (Buffer.unread_eq_nil_iff b).mp hunread⟩
  | cons f fields ih =>
      rw [List.flatMap_cons] at hunread
      obtain ⟨b₁, hread₁, hord₁, hunread₁, -⟩ := FieldType.read_front host hb hunread
      obtain ⟨b', hread, hempty⟩ := ih hord₁ hunread₁
      refine ⟨b', ?_, hempty⟩
      simp only [List.map_cons, readFields, hread₁, hread, Option.bind_eq_bind, Option.bind_some]
      rfl

@[simp] theorem Field.length_networkBytes (f : Field) : f.networkBytes.length = f.size := by
  cases f <;> simp [networkBytes, size]

theorem flatMap_bytes_eq_iff (host : ByteOrder) (fields : List Field) :
    fields.flatMap (Field.bytes host) = fields.flatMap Field.networkBytes ↔
      host = .little ∨ ∀ f ∈ fields, f.EqualWords := by
  induction fields with
  | nil => exact iff_of_true rfl (Or.inr fun f hf => absurd hf List.not_mem_nil)
  | cons f fields ih =>
      have hlen : (f.bytes host).length = f.networkBytes.length := by
        rw [f.length_bytes, f.length_networkBytes]
      rw [List.flatMap_cons, List.flatMap_cons, List.forall_mem_cons, or_and_left, ← ih,
        ← f.bytes_eq_networkBytes_iff]
      constructor
      · intro h
        exact List.append_inj h hlen
      · rintro ⟨hf, hfields⟩
        rw [hf, hfields]

/-- For a sequence of fields written on one host and copied to a host of the other byte order:
the bytes are in network order exactly when the writer is little-endian or every 64-bit field
has two equal words, and the reader gets the written values back exactly when every 64-bit field
has two equal words. -/
theorem wire_format_iff (writer reader : ByteOrder) (hne : writer ≠ reader) (fields : List Field)
    (hsize : ∀ f ∈ fields, f.size < 2 ^ 32) (b b' c : Buffer) (hb : b.Ordered)
    (hempty : b.getLength = 0) (hwrite : writeFields writer b fields = some b') (hc : c.Ordered)
    (hcopy : c.unread = b'.unread) :
    (b'.unread = fields.flatMap Field.networkBytes ↔
      writer = .little ∨ ∀ f ∈ fields, f.EqualWords) ∧
    ∃ got c', readFields reader c (fields.map Field.type) = some (got, c') ∧
      (got = fields ↔ ∀ f ∈ fields, f.EqualWords) := by
  obtain ⟨-, hunread⟩ := writeFields_eq_some hb hsize hwrite
  rw [(Buffer.unread_eq_nil_iff b).mpr hempty, List.nil_append] at hunread
  constructor
  · rw [hunread]
    exact flatMap_bytes_eq_iff writer fields
  · obtain ⟨c', hread, -⟩ := readFields_spec reader hc writer fields
      (hcopy.trans hunread)
    refine ⟨_, c', hread, ?_⟩
    calc fields.map (fun f => f.type.decode reader (f.bytes writer)) = fields
        ↔ fields.map (fun f => f.type.decode reader (f.bytes writer)) = fields.map id := by
          rw [List.map_id]
      _ ↔ ∀ f ∈ fields, f.type.decode reader (f.bytes writer) = f := List.map_inj_left
      _ ↔ ∀ f ∈ fields, f.EqualWords := forall₂_congr fun f _ => Field.decode_bytes_other hne f

theorem wire_format_equal_words :
    ∃ b' : Buffer, writeFields .big (Buffer.new 16) [.int16 (-1), .int64 0] = some b' ∧
      (b'.unread = [Field.int16 (-1), .int64 0].flatMap Field.networkBytes ↔
        ByteOrder.big = .little ∨ ∀ f ∈ [Field.int16 (-1), .int64 0], f.EqualWords) ∧
      ∃ got c', readFields .little b' [.int16, .int64] = some (got, c') ∧
        (got = [.int16 (-1), .int64 0] ↔ ∀ f ∈ [Field.int16 (-1), .int64 0], f.EqualWords) := by
  have hnew := Buffer.new_ordered 16
  have hsize : ∀ f ∈ [Field.int16 (-1), .int64 0], f.size < 2 ^ 32 := by decide
  have hrun : ∃ b', writeFields .big (Buffer.new 16) [.int16 (-1), .int64 0] = some b' :=
    ⟨_, rfl⟩
  obtain ⟨b', hwrite⟩ := hrun
  have hord := (writeFields_eq_some hnew hsize hwrite).1
  exact ⟨b', hwrite, wire_format_iff .big .little (by decide) _ hsize (Buffer.new 16) b' b' hnew
    rfl hwrite hord rfl⟩

/-- The number 1 arrives as `2 ^ 32`. -/
theorem one_from_big_to_little :
    ∃ b' c' : Buffer, writeFields .big (Buffer.new 8) [.int64 1] = some b' ∧
      b'.unread = [0, 0, 0, 1, 0, 0, 0, 0] ∧
      readFields .little b' [.int64] = some ([.int64 4294967296], c') := ⟨_, _, rfl, rfl, rfl⟩

end TinyGameServer
