import TinyGameServer.Buffer

/-!
# What each Buffer operation does to the unread bytes

`Ordered` is the invariant of the three indices. On ordered buffers every operation is described
by its effect on `unread`, the bytes between the read and the write index. Appending takes one
of three paths; `Overflows` is the exact region of fill levels and lengths in which the chosen
path leaves too little room.
-/

namespace TinyGameServer.Buffer

structure Ordered (b : Buffer) : Prop where
  read_le_write : b.readIndex.toNat ≤ b.writeIndex.toNat
  write_le_capacity : b.writeIndex.toNat ≤ b.capacity.toNat

def unread (b : Buffer) : List UInt8 := b.block.read b.readIndex.toNat b.getLength.toNat

/-- Compaction is chosen although fewer than `n` bytes of the allocation are free. -/
def Overflows (b : Buffer) (n : ℕ) : Prop :=
  b.capacity.toNat - b.getLength.toNat < n ∧ n ≤ b.capacity.toNat + b.getLength.toNat

instance (b : Buffer) (n : ℕ) : Decidable (b.Overflows n) := by
  unfold Overflows
  infer_instance

@[simp] theorem length_unread (b : Buffer) : b.unread.length = b.getLength.toNat := by
  simp [unread]

theorem unread_eq_nil_iff (b : Buffer) : b.unread = [] ↔ b.getLength = 0 := by
  rw [← List.length_eq_zero_iff, length_unread, ← UInt32.toNat_inj]
  rfl

theorem new_ordered (capacity : UInt32) : (new capacity).Ordered := ⟨le_rfl, Nat.zero_le _⟩

theorem unread_new (capacity : UInt32) : (new capacity).unread = [] :=
  (unread_eq_nil_iff _).mpr (UInt32.sub_self 0)

variable {b : Buffer}

theorem Ordered.toNat_getLength (hb : b.Ordered) :
    b.getLength.toNat = b.writeIndex.toNat - b.readIndex.toNat :=
  UInt32.toNat_sub_of_le _ _ (UInt32.le_iff_toNat_le.mpr hb.read_le_write)

theorem Ordered.getLength_le_capacity (hb : b.Ordered) :
    b.getLength.toNat ≤ b.capacity.toNat := by
  have := hb.toNat_getLength
  have := hb.write_le_capacity
  omega

theorem Ordered.toNat_room (hb : b.Ordered) :
    (b.capacity - b.writeIndex).toNat = b.capacity.toNat - b.writeIndex.toNat :=
  UInt32.toNat_sub_of_le _ _ (UInt32.le_iff_toNat_le.mpr hb.write_le_capacity)

theorem Ordered.load_unread (hb : b.Ordered) :
    b.block.load b.readIndex.toNat b.getLength.toNat = some b.unread := by
  have := hb.toNat_getLength
  have := hb.read_le_write
  have := hb.write_le_capacity
  exact Block.load_eq_some (by omega)

/-! ## The three paths of append -/

theorem unread_moved (b : Buffer) (cap : UInt32) (m : Block cap.toNat) :
    (Buffer.mk cap (m.write 0 b.unread) 0 b.getLength).unread = b.unread := by
  have h := m.read_write_self 0 b.unread
  rw [length_unread] at h
  change (m.write 0 b.unread).read (UInt32.toNat 0) (b.getLength - 0).toNat = b.unread
  rwa [UInt32.sub_zero, UInt32.toNat_zero]

theorem adjust_spec (hb : b.Ordered) : ∃ b', b.adjust = some b' ∧ b'.Ordered ∧
    b'.unread = b.unread ∧ b'.capacity = b.capacity ∧ b'.writeIndex = b.getLength := by
  have hle := hb.getLength_le_capacity
  have hstore : b.block.store 0 b.unread = some (b.block.write 0 b.unread) :=
    Block.store_eq_some (by rw [length_unread]; omega)
  refine ⟨_, ?_, ⟨Nat.zero_le _, hle⟩, unread_moved b b.capacity b.block, rfl, rfl⟩
  simp only [adjust, hb.load_unread, hstore, Option.bind_eq_bind, Option.bind_some]
  rfl

theorem grow_reallocates (hb : b.Ordered) (n : ℕ) (hn : 2 * b.capacity.toNat + n < 2 ^ 32)
    (hlong : b.capacity.toNat + b.getLength.toNat < n) :
    ∃ b', b.grow (UInt32.ofNat n) = some b' ∧ b'.Ordered ∧ b'.unread = b.unread ∧
      b'.capacity.toNat = 2 * b.capacity.toNat + n ∧ b'.writeIndex = b.getLength := by
  have hlen := hb.toNat_getLength
  have hrw := hb.read_le_write
  have hwc := hb.write_le_capacity
  have hcond : b.writeIndex + b.capacity - b.readIndex < UInt32.ofNat n := by
    rw [UInt32.lt_iff_toNat_lt]
    simp only [UInt32.toNat_sub, UInt32.toNat_add, UInt32.toNat_ofNat']
    omega
  have hcap : (b.capacity * 2 + UInt32.ofNat n).toNat = 2 * b.capacity.toNat + n := by
    simp only [UInt32.toNat_add, UInt32.toNat_mul, UInt32.toNat_ofNat', UInt32.reduceToNat]
    omega
  let buf := b.block.fresh (b.capacity * 2 + UInt32.ofNat n).toNat
  have hstore : buf.store 0 b.unread = some (buf.write 0 b.unread) :=
    Block.store_eq_some (by rw [length_unread, hcap]; omega)
  refine ⟨_, ?_, ⟨Nat.zero_le _, ?_⟩, unread_moved b _ buf, hcap, rfl⟩
  · simp only [grow, if_pos hcond, hb.load_unread, Option.bind_eq_bind, Option.bind_some]
    simp only [buf, hstore, Option.bind_some]
    rfl
  · change b.getLength.toNat ≤ (b.capacity * 2 + UInt32.ofNat n).toNat
    omega

theorem grow_compacts (hb : b.Ordered) (n : ℕ)
    (hn : b.capacity.toNat + b.getLength.toNat < 2 ^ 32)
    (hshort : n ≤ b.capacity.toNat + b.getLength.toNat) :
    b.grow (UInt32.ofNat n) = b.adjust := by
  have hlen := hb.toNat_getLength
  have hrw := hb.read_le_write
  have hwc := hb.write_le_capacity
  apply if_neg
  rw [UInt32.lt_iff_toNat_lt]
  simp only [UInt32.toNat_sub, UInt32.toNat_add, UInt32.toNat_ofNat']
  omega

/-- The copy that ends every append, once the room has been provided. -/
theorem store_at_writeIndex (hb : b.Ordered) (data : List UInt8)
    (hroom : b.writeIndex.toNat + data.length ≤ b.capacity.toNat) :
    let b' : Buffer := { b with
      block := b.block.write b.writeIndex.toNat data
      writeIndex := b.writeIndex + UInt32.ofNat data.length }
    b'.Ordered ∧ b'.unread = b.unread ++ data := by
  have hlen := hb.toNat_getLength
  have hrw := hb.read_le_write
  have hcap := b.capacity.toNat_lt
  have hw : (b.writeIndex + UInt32.ofNat data.length).toNat =
      b.writeIndex.toNat + data.length := by
    simp only [UInt32.toNat_add, UInt32.toNat_ofNat']
    omega
  intro b'
  have hb' : b'.Ordered := by
    constructor
    · change b.readIndex.toNat ≤ (b.writeIndex + UInt32.ofNat data.length).toNat
      omega
    · change (b.writeIndex + UInt32.ofNat data.length).toNat ≤ b.capacity.toNat
      omega
  refine ⟨hb', ?_⟩
  have hlen' : b'.getLength.toNat = b.getLength.toNat + data.length := by
    rw [hb'.toNat_getLength, hlen]
    change UInt32.toNat _ - b.readIndex.toNat = _
    rw [hw]
    omega
  have hsplit : b.writeIndex.toNat = b.readIndex.toNat + b.getLength.toNat := by omega
  change (b.block.write b.writeIndex.toNat data).read b.readIndex.toNat b'.getLength.toNat = _
  rw [hlen', hsplit, Block.read_write_append]
  rfl

theorem append_of_ensureCapacity {b' : Buffer} (data : List UInt8) (hb' : b'.Ordered)
    (hcap : b.ensureCapacity (UInt32.ofNat data.length) = some b')
    (hroom : b'.writeIndex.toNat + data.length ≤ b'.capacity.toNat) :
    ∃ b'', b.append data = some b'' ∧ b''.Ordered ∧ b''.unread = b'.unread ++ data ∧
      b''.capacity = b'.capacity := by
  obtain ⟨hord, hunread⟩ := store_at_writeIndex hb' data hroom
  refine ⟨_, ?_, hord, hunread, rfl⟩
  simp only [append, hcap, Block.store_eq_some hroom, Option.bind_eq_bind, Option.bind_some]
  rfl

theorem ensureCapacity_of_room (hb : b.Ordered) (n : ℕ) (hn : n < 2 ^ 32)
    (hroom : b.writeIndex.toNat + n ≤ b.capacity.toNat) :
    b.ensureCapacity (UInt32.ofNat n) = some b := by
  apply if_neg
  rw [UInt32.lt_iff_toNat_lt, hb.toNat_room, UInt32.toNat_ofNat', Nat.mod_eq_of_lt hn]
  omega

theorem ensureCapacity_grows (hb : b.Ordered) (n : ℕ) (hn : n < 2 ^ 32)
    (hroom : b.capacity.toNat < b.writeIndex.toNat + n) :
    b.ensureCapacity (UInt32.ofNat n) = b.grow (UInt32.ofNat n) := by
  have hwc := hb.write_le_capacity
  apply if_pos
  rw [UInt32.lt_iff_toNat_lt, hb.toNat_room, UInt32.toNat_ofNat', Nat.mod_eq_of_lt hn]
  omega

theorem append_within (hb : b.Ordered) (data : List UInt8)
    (hcap : b.capacity.toNat + b.getLength.toNat < 2 ^ 32)
    (hfit : b.getLength.toNat + data.length ≤ b.capacity.toNat) :
    ∃ b', b.append data = some b' ∧ b'.Ordered ∧ b'.unread = b.unread ++ data ∧
      b'.capacity = b.capacity := by
  by_cases hroom : b.writeIndex.toNat + data.length ≤ b.capacity.toNat
  · exact append_of_ensureCapacity data hb (ensureCapacity_of_room hb _ (by omega) hroom) hroom
  have hens := ensureCapacity_grows hb data.length (by omega) (by omega)
  obtain ⟨b₁, hadj, hord₁, hunread₁, hcap₁, hw₁⟩ := adjust_spec hb
  rw [grow_compacts hb _ hcap (by omega), hadj] at hens
  obtain ⟨b', h, hord, hunread, hcap'⟩ := append_of_ensureCapacity data hord₁ hens
    (by rw [hw₁, hcap₁]; omega)
  exact ⟨b', h, hord, hunread₁ ▸ hunread, hcap'.trans hcap₁⟩

/-- A message put together field by field in a buffer that is large enough for it. -/
theorem foldlM_append (hb : b.Ordered) (fields : List (List UInt8))
    (hcap : b.capacity.toNat < 2 ^ 31)
    (hfit : b.unread.length + fields.flatten.length ≤ b.capacity.toNat) :
    ∃ b', fields.foldlM append b = some b' ∧ b'.Ordered ∧
      b'.unread = b.unread ++ fields.flatten ∧ b'.capacity = b.capacity := by
  induction fields generalizing b with
  | nil => exact ⟨b, rfl, hb, (List.append_nil _).symm, rfl⟩
  | cons field fields ih =>
      rw [List.flatten_cons, List.length_append] at hfit
      rw [length_unread] at hfit
      obtain ⟨b₁, h₁, hord₁, hunread₁, hcap₁⟩ := append_within hb field (by omega) (by omega)
      have hlen₁ : b₁.unread.length = b.getLength.toNat + field.length := by
        rw [hunread₁, List.length_append, length_unread]
      obtain ⟨b', h, hord, hunread, hcap'⟩ := ih hord₁ (by rwa [hcap₁]) (by rw [hcap₁]; omega)
      refine ⟨b', ?_, hord, ?_, hcap'.trans hcap₁⟩
      · rw [List.foldlM_cons, h₁]
        exact h
      · rw [hunread, hunread₁, List.flatten_cons, List.append_assoc]

/-- Outside the overflow region an append succeeds and extends the unread bytes. The capacity
only changes when the data is longer than it. -/
theorem append_spec (hb : b.Ordered) (data : List UInt8)
    (hn : 2 * b.capacity.toNat + data.length < 2 ^ 32) (hfit : ¬ b.Overflows data.length) :
    ∃ b', b.append data = some b' ∧ b'.Ordered ∧ b'.unread = b.unread ++ data ∧
      (b'.capacity = b.capacity ∨ b.capacity.toNat + b.getLength.toNat < data.length ∧
        b'.capacity.toNat = 2 * b.capacity.toNat + data.length) := by
  have hle := hb.getLength_le_capacity
  by_cases hlong : b.capacity.toNat + b.getLength.toNat < data.length
  · have hwc := hb.toNat_getLength
    have hens := ensureCapacity_grows hb data.length (by omega) (by omega)
    obtain ⟨b₁, hgrow, hord₁, hunread₁, hcap₁, hw₁⟩ := grow_reallocates hb _ hn hlong
    obtain ⟨b', h, hord, hunread, hcap⟩ := append_of_ensureCapacity data hord₁
      (hens.trans hgrow) (by rw [hw₁]; omega)
    exact ⟨b', h, hord, hunread₁ ▸ hunread, Or.inr ⟨hlong, by rw [hcap, hcap₁]⟩⟩
  · by_cases hfull : b.getLength.toNat + data.length ≤ b.capacity.toNat
    · obtain ⟨b', h, hord, hunread, hcap⟩ := append_within hb data (by omega) hfull
      exact ⟨b', h, hord, hunread, Or.inl hcap⟩
    · exact absurd ⟨by omega, by omega⟩ hfit

theorem append_overflows (hb : b.Ordered) (data : List UInt8)
    (hn : 2 * b.capacity.toNat + data.length < 2 ^ 32) (hover : b.Overflows data.length) :
    b.append data = none := by
  have hlen := hb.toNat_getLength
  have hle := hb.getLength_le_capacity
  obtain ⟨hfull, hshort⟩ := hover
  have hens := ensureCapacity_grows hb data.length (by omega) (by omega)
  obtain ⟨b₁, hadj, -, -, hcap₁, hw₁⟩ := adjust_spec hb
  rw [grow_compacts hb _ (by omega) hshort, hadj] at hens
  have hstore : b₁.block.store b₁.writeIndex.toNat data = none :=
    Block.store_eq_none (by rw [hw₁, hcap₁]; omega)
  simp only [append, hens, hstore, Option.bind_eq_bind, Option.bind_some, Option.bind_none]

/-! ## Appends that are defined -/

theorem grow_eq_some (hb : b.Ordered) {length : UInt32} {b' : Buffer}
    (h : b.grow length = some b') : b'.Ordered ∧ b'.unread = b.unread := by
  rw [grow] at h
  split at h
  · simp only [hb.load_unread, Option.bind_eq_bind, Option.bind_some] at h
    obtain ⟨buf, hstore, h⟩ := Option.bind_eq_some_iff.mp h
    obtain ⟨hroom, rfl⟩ := Block.of_store_eq_some hstore
    cases h
    refine ⟨⟨Nat.zero_le _, ?_⟩, unread_moved b _ _⟩
    rwa [length_unread, Nat.zero_add] at hroom
  · obtain ⟨b₁, hadj, hord, hunread, -⟩ := adjust_spec hb
    cases hadj.symm.trans h
    exact ⟨hord, hunread⟩

theorem ensureCapacity_eq_some (hb : b.Ordered) {length : UInt32} {b' : Buffer}
    (h : b.ensureCapacity length = some b') : b'.Ordered ∧ b'.unread = b.unread := by
  rw [ensureCapacity] at h
  split at h
  · exact grow_eq_some hb h
  · cases h
    exact ⟨hb, rfl⟩

/-- Whatever the sizes are, an append that stays inside the allocation extends the unread
bytes. -/
theorem append_eq_some (hb : b.Ordered) {data : List UInt8} {b' : Buffer}
    (h : b.append data = some b') : b'.Ordered ∧ b'.unread = b.unread ++ data := by
  obtain ⟨b₁, hens, h⟩ := Option.bind_eq_some_iff.mp h
  obtain ⟨block, hstore, h⟩ := Option.bind_eq_some_iff.mp h
  obtain ⟨hord, hunread⟩ := ensureCapacity_eq_some hb hens
  obtain ⟨hroom, rfl⟩ := Block.of_store_eq_some hstore
  cases h
  rw [← hunread]
  exact store_at_writeIndex hord data hroom

/-! ## Reading and dropping -/

theorem advance_spec (hb : b.Ordered) (n : UInt32) (hn : n.toNat ≤ b.getLength.toNat) :
    let b' : Buffer := { b with readIndex := b.readIndex + n }
    b'.Ordered ∧ b'.unread = b.unread.drop n.toNat := by
  have hlen := hb.toNat_getLength
  have hrw := hb.read_le_write
  have hw := b.writeIndex.toNat_lt
  have hr : (b.readIndex + n).toNat = b.readIndex.toNat + n.toNat := by
    rw [UInt32.toNat_add]
    omega
  intro b'
  have hb' : b'.Ordered := by
    refine ⟨?_, hb.write_le_capacity⟩
    change (b.readIndex + n).toNat ≤ b.writeIndex.toNat
    omega
  have hlen' : b'.getLength.toNat = b.getLength.toNat - n.toNat := by
    rw [hb'.toNat_getLength, hlen]
    change b.writeIndex.toNat - (b.readIndex + n).toNat = _
    omega
  refine ⟨hb', ?_⟩
  change b.block.read (b.readIndex + n).toNat b'.getLength.toNat = _
  rw [hr, hlen', unread, Block.drop_read _ _ _ _ hn]

theorem clear_spec (b : Buffer) : b.clear.Ordered ∧ b.clear.unread = [] :=
  ⟨⟨le_rfl, Nat.zero_le _⟩, by simp [unread, clear, getLength]⟩

theorem readField_spec (hb : b.Ordered) (width : UInt32)
    (hwidth : width.toNat ≤ b.getLength.toNat) :
    ∃ b', b.readField width = some (b.unread.take width.toNat, b') ∧ b'.Ordered ∧
      b'.unread = b.unread.drop width.toNat ∧ b'.capacity = b.capacity := by
  have hlen := hb.toNat_getLength
  have hwc := hb.write_le_capacity
  have hrw := hb.read_le_write
  obtain ⟨hord, hunread⟩ := advance_spec hb width hwidth
  have hload : b.block.load b.readIndex.toNat width.toNat =
      some (b.unread.take width.toNat) := by
    rw [Block.load_eq_some (by omega), unread, Block.take_read _ _ _ _ hwidth]
  refine ⟨_, ?_, hord, hunread, rfl⟩
  simp only [readField, hload, Option.bind_eq_bind, Option.bind_some]
  rfl

theorem readString_spec (hb : b.Ordered) (length : UInt32) :
    ∃ b', b.readString length = some (b.unread.take length.toNat, b') ∧ b'.Ordered ∧
      b'.unread = b.unread.drop length.toNat ∧ b'.capacity = b.capacity := by
  by_cases hlong : b.getLength < length
  · obtain ⟨b', hread, hord, hunread, hcap⟩ := readField_spec hb b.getLength le_rfl
    have hle : b.unread.length ≤ length.toNat := by
      rw [length_unread]
      exact (UInt32.lt_iff_toNat_lt.mp hlong).le
    refine ⟨b', ?_, hord, ?_, hcap⟩
    · rw [List.take_of_length_le hle]
      rw [List.take_of_length_le (length_unread b).le] at hread
      simpa only [readString, if_pos hlong, readField] using hread
    · rw [hunread, List.drop_of_length_le hle, List.drop_of_length_le (length_unread b).le]
  · have hle : length.toNat ≤ b.getLength.toNat := by
      rw [UInt32.lt_iff_toNat_lt] at hlong
      omega
    obtain ⟨b', hread, hord, hunread, hcap⟩ := readField_spec hb length hle
    exact ⟨b', by simpa only [readString, if_neg hlong, readField] using hread, hord, hunread,
      hcap⟩

theorem readAll_spec (hb : b.Ordered) :
    ∃ b', b.readAll = some (b.unread, b') ∧ b'.Ordered ∧ b'.unread = [] ∧
      b'.capacity = b.capacity := by
  obtain ⟨b', hread, hord, hunread, hcap⟩ := readString_spec hb b.getLength
  rw [List.take_of_length_le (length_unread b).le] at hread
  rw [List.drop_of_length_le (length_unread b).le] at hunread
  exact ⟨b', hread, hord, hunread, hcap⟩

/-- The reset of both indices is the same as dropping everything. -/
theorem forward_spec (hb : b.Ordered) (num : Int32) :
    (b.forward num).Ordered ∧ (b.forward num).unread = b.unread.drop num.toUInt32.toNat ∧
      (b.forward num).capacity = b.capacity := by
  by_cases hlt : num.toUInt32 < b.getLength
  · have hle := (UInt32.lt_iff_toNat_lt.mp hlt).le
    obtain ⟨hord, hunread⟩ := advance_spec hb num.toUInt32 hle
    rw [forward, if_pos hlt]
    exact ⟨hord, hunread, rfl⟩
  · rw [UInt32.lt_iff_toNat_lt] at hlt
    have hle : b.unread.length ≤ num.toUInt32.toNat := by
      rw [length_unread]
      omega
    rw [forward, if_neg (by rwa [UInt32.lt_iff_toNat_lt]), List.drop_of_length_le hle]
    exact ⟨(clear_spec b).1, (clear_spec b).2, rfl⟩

theorem appendBuffer_eq_append (data : Buffer) (hdata : data.Ordered) :
    b.appendBuffer data = b.append data.unread := by
  simp only [appendBuffer, hdata.load_unread, Option.bind_eq_bind, Option.bind_some]

theorem appendString_eq_append (data : List UInt8) (hdata : data.length < 2 ^ 32) :
    b.appendString data = b.append data := by
  rw [appendString, UInt32.toNat_ofNat', Nat.mod_eq_of_lt hdata, List.take_length]

/-! ## Reading from a descriptor -/

def room (b : Buffer) : ℕ := b.capacity.toNat - b.writeIndex.toNat

/-- The byte counts `readv` can return for the one or two segments it is given. -/
def Readable (b : Buffer) (n : ℕ) : Prop :=
  n ≤ b.room ∨ b.room < 65536 ∧ n ≤ b.room + 65536

/-- The spilled bytes do not fit in front of the unread ones, and yet there are too few of them
for a reallocation. -/
def ReadOverflows (b : Buffer) (n : ℕ) : Prop :=
  b.room < n ∧ b.readIndex.toNat < n - b.room ∧
    n - b.room ≤ 2 * b.capacity.toNat - b.readIndex.toNat

theorem toNat_readv_count (n : ℕ) (hn : n < 2 ^ 31) :
    (Int32.ofNat n).toUInt32.toNat = n := by
  change (UInt32.ofNat n).toNat = n
  rw [UInt32.toNat_ofNat', Nat.mod_eq_of_lt (by omega)]

theorem Readable.lt {n : ℕ} (hn : b.Readable n)
    (hcap : 2 * b.capacity.toNat + 65536 < 2 ^ 32) : n < 2 ^ 31 := by
  unfold Readable room at hn
  omega

/-- The state in which the spilled bytes are appended: the allocation is full to its end. -/
def filled (b : Buffer) (bytes : List UInt8) : Buffer :=
  { b with block := b.block.write b.writeIndex.toNat (bytes.take b.room), writeIndex := b.capacity }

theorem filled_spec (hb : b.Ordered) (bytes : List UInt8) (hlong : b.room ≤ bytes.length) :
    (b.filled bytes).Ordered ∧ (b.filled bytes).unread = b.unread ++ bytes.take b.room := by
  have hwc := hb.write_le_capacity
  have hlen : (bytes.take b.room).length = b.room := by
    rw [List.length_take]
    omega
  have hw : b.writeIndex + UInt32.ofNat (bytes.take b.room).length = b.capacity := by
    apply UInt32.toNat_inj.mp
    have := b.capacity.toNat_lt
    rw [hlen, UInt32.toNat_add, UInt32.toNat_ofNat', room]
    omega
  have h := store_at_writeIndex hb (bytes.take b.room) (by rw [hlen, room]; omega)
  simp only [hw] at h
  exact h

theorem overflows_filled_iff (hb : b.Ordered) (bytes : List UInt8)
    (hlong : b.room < bytes.length) :
    (b.filled bytes).Overflows (bytes.drop b.room).length ↔ b.ReadOverflows bytes.length := by
  have hwc := hb.write_le_capacity
  have hrw := hb.read_le_write
  have hlen := (filled_spec hb bytes hlong.le).1.toNat_getLength
  change _ = b.capacity.toNat - b.readIndex.toNat at hlen
  have hcap : (b.filled bytes).capacity = b.capacity := rfl
  rw [Overflows, ReadOverflows, hlen, hcap, List.length_drop]
  omega

theorem readFd_direct (hb : b.Ordered) (bytes : List UInt8) (hlt : bytes.length < 2 ^ 31)
    (hroom : bytes.length ≤ b.room) :
    ∃ b', b.readFd (.data bytes) = some (Int32.ofNat bytes.length, b') ∧ b'.Ordered ∧
      b'.unread = b.unread ++ bytes ∧ b'.capacity = b.capacity := by
  have hwc := hb.write_le_capacity
  have hcond : (Int32.ofNat bytes.length).toUInt32 ≤ b.capacity - b.writeIndex := by
    rw [UInt32.le_iff_toNat_le, toNat_readv_count _ hlt, hb.toNat_room]
    exact hroom
  have htake : bytes.take (b.capacity - b.writeIndex).toNat = bytes :=
    List.take_of_length_le (by rwa [hb.toNat_room])
  have hend : b.writeIndex.toNat + bytes.length ≤ b.capacity.toNat := by
    unfold room at hroom
    omega
  obtain ⟨hord, hunread⟩ := store_at_writeIndex hb bytes hend
  refine ⟨_, ?_, hord, hunread, rfl⟩
  simp only [readFd, htake, Block.store_eq_some hend, Option.bind_eq_bind, Option.bind_some,
    if_pos hcond]
  rfl

theorem readFd_spill (hb : b.Ordered) (bytes : List UInt8) (hlt : bytes.length < 2 ^ 31)
    (hlong : b.room < bytes.length) :
    b.readFd (.data bytes) =
      ((b.filled bytes).append (bytes.drop b.room)).map (Int32.ofNat bytes.length, ·) := by
  have hwc := hb.write_le_capacity
  have hroom : (b.capacity - b.writeIndex).toNat = b.room := hb.toNat_room
  have hcond : ¬ (Int32.ofNat bytes.length).toUInt32 ≤ b.capacity - b.writeIndex := by
    rw [UInt32.le_iff_toNat_le, toNat_readv_count _ hlt, hroom]
    omega
  have hend : b.writeIndex.toNat + (bytes.take b.room).length ≤ b.capacity.toNat := by
    rw [List.length_take, room]
    omega
  simp only [readFd, hroom, Block.store_eq_some hend, Option.bind_eq_bind, Option.bind_some,
    if_neg hcond]
  rw [Option.map_eq_bind]
  rfl

theorem Readable.spill_le {bytes : List UInt8} (hread : b.Readable bytes.length) :
    (bytes.drop b.room).length ≤ 65536 := by
  rw [List.length_drop]
  unfold Readable at hread
  omega

theorem readFd_spec (hb : b.Ordered) (bytes : List UInt8)
    (hcap : 2 * b.capacity.toNat + 65536 < 2 ^ 32) (hread : b.Readable bytes.length)
    (hfit : ¬ b.ReadOverflows bytes.length) :
    ∃ b', b.readFd (.data bytes) = some (Int32.ofNat bytes.length, b') ∧ b'.Ordered ∧
      b'.unread = b.unread ++ bytes ∧
      (b'.capacity = b.capacity ∨ b'.capacity.toNat ≤ 3 * 65536) := by
  have hlt := hread.lt hcap
  by_cases hroom : bytes.length ≤ b.room
  · obtain ⟨b', h, hord, hunread, hcap'⟩ := readFd_direct hb bytes hlt hroom
    exact ⟨b', h, hord, hunread, Or.inl hcap'⟩
  have hlong : b.room < bytes.length := by omega
  have hspill := hread.spill_le
  have hfilled : (b.filled bytes).capacity = b.capacity := rfl
  obtain ⟨hord₁, hunread₁⟩ := filled_spec hb bytes hlong.le
  obtain ⟨b', h, hord, hunread, hcap'⟩ := append_spec hord₁ (bytes.drop b.room)
    (by rw [hfilled]; omega) ((overflows_filled_iff hb bytes hlong).not.mpr hfit)
  refine ⟨b', ?_, hord, ?_, ?_⟩
  · rw [readFd_spill hb bytes hlt hlong, h, Option.map_some]
  · rw [hunread, hunread₁, List.append_assoc, List.take_append_drop]
  · refine hcap'.imp id (fun hgrown => ?_)
    rw [hfilled] at hgrown
    omega

theorem readFd_overflows (hb : b.Ordered) (bytes : List UInt8)
    (hcap : 2 * b.capacity.toNat + 65536 < 2 ^ 32) (hread : b.Readable bytes.length)
    (hover : b.ReadOverflows bytes.length) : b.readFd (.data bytes) = none := by
  have hlong : b.room < bytes.length := hover.1
  have hspill := hread.spill_le
  have hfilled : (b.filled bytes).capacity = b.capacity := rfl
  rw [readFd_spill hb bytes (hread.lt hcap) hlong,
    append_overflows (filled_spec hb bytes hlong.le).1 (bytes.drop b.room)
      (by rw [hfilled]; omega) ((overflows_filled_iff hb bytes hlong).mpr hover),
    Option.map_none]

end TinyGameServer.Buffer
