import TinyGameServer.BufferSpec
import TinyGameServer.StateSimulation

/-!
# The receive buffer as the message handlers see it

The handlers use a handful of operations of `conn->GetBuffer()`. They are written against
`ReceiveBuffer`, so that the same code runs on the class `Buffer`, where every read leaves a
footprint, and on an ideal FIFO byte queue, where reading more than there is has no result.
`simulates` compares the two: the run on the queue is defined exactly when the run on the buffer
reads unread bytes only.
-/

namespace TinyGameServer

inductive BufferStatus where
  | READ_SUCCESS
  | READ_INCOMPLETE
  | READ_TYPE_ERROR
  | READ_INNER_ERROR
  deriving DecidableEq, Repr

structure ReceiveBuffer (m : Type → Type) where
  getLength : m UInt32
  peekTagLen : m (Int8 × Int32)
  readInt8 : m Int8
  readInt16 : m Int16
  readInt32 : m Int32
  readInt64 : m Int64
  readString (length : UInt32) : m (List UInt8)
  forward (num : Int32) : m Unit
  clear : m Unit

/-- A read of `count` bytes from `start` on, and the unread region at that moment. -/
structure Footprint where
  start : ℕ
  count : ℕ
  readIndex : ℕ
  writeIndex : ℕ

def Footprint.Within (f : Footprint) : Prop :=
  f.readIndex ≤ f.start ∧ f.start + f.count ≤ f.writeIndex

/-- A buffer together with the reads of the running handler. -/
structure Traced where
  buffer : Buffer
  reads : List Footprint

namespace Traced

def start (b : Buffer) : Traced := ⟨b, []⟩

/-- Only unread bytes have been read, and the indices are in order. -/
def Clean (s : Traced) : Prop := s.buffer.Ordered ∧ ∀ f ∈ s.reads, f.Within

def Strayed (s : Traced) : Prop := ∃ f ∈ s.reads, ¬ f.Within

def unread (s : Traced) : List UInt8 := s.buffer.unread

theorem Strayed.not_clean (s : Traced) (h : s.Strayed) : ¬ s.Clean := by
  obtain ⟨f, hf, hout⟩ := h
  exact fun hclean => hout (hclean.2 f hf)

theorem start_clean {b : Buffer} (hb : b.Ordered) : (start b).Clean :=
  ⟨hb, fun _ hf => absurd hf List.not_mem_nil⟩

end Traced

def footprint (b : Buffer) (count : UInt32) : Footprint :=
  ⟨b.readIndex.toNat, count.toNat, b.readIndex.toNat, b.writeIndex.toNat⟩

theorem footprint_within_iff {b : Buffer} (hb : b.Ordered) (count : UInt32) :
    (footprint b count).Within ↔ count.toNat ≤ b.getLength.toNat := by
  have hlen := hb.toNat_getLength
  have hrw := hb.read_le_write
  simp only [Footprint.Within, footprint, le_refl, true_and]
  omega

/-- A read operation of the class, with its footprint of `count` bytes. -/
def traced {α : Type} (count : Buffer → UInt32) (op : Buffer → Option (α × Buffer)) :
    StateT Traced Option α := fun s => do
  let (a, b) ← op s.buffer
  return (a, ⟨b, footprint s.buffer (count s.buffer) :: s.reads⟩)

def onBuffer (host : ByteOrder) : ReceiveBuffer (StateT Traced Option) where
  getLength := fun s => some (s.buffer.getLength, s)
  peekTagLen := traced (fun _ => 5) fun b => (b.peekTagLen host).map (·, b)
  readInt8 := traced (fun _ => 1) (Buffer.readInt8 host)
  readInt16 := traced (fun _ => 2) (Buffer.readInt16 host)
  readInt32 := traced (fun _ => 4) (Buffer.readInt32 host)
  readInt64 := traced (fun _ => 8) (Buffer.readInt64 host)
  readString length := traced
    (fun b => if b.getLength < length then b.getLength else length) (Buffer.readString · length)
  forward num := fun s => some ((), { s with buffer := s.buffer.forward num })
  clear := fun s => some ((), { s with buffer := s.buffer.clear })

/-! ## The ideal queue -/

def takeField {α : Type} (width : ℕ) (decode : List UInt8 → α) :
    StateT (List UInt8) Option α := fun q =>
  if width ≤ q.length then some (decode (q.take width), q.drop width) else none

def peekField (host : ByteOrder) (q : List UInt8) : Int8 × Int32 :=
  (Buffer.decodeInt8 host (q.take 1),
    (UInt32.ofNat (host.ofBytes ((q.drop 1).take 4))).toInt32)

def onQueue (host : ByteOrder) : ReceiveBuffer (StateT (List UInt8) Option) where
  getLength := fun q => some (UInt32.ofNat q.length, q)
  peekTagLen := fun q => if 5 ≤ q.length then some (peekField host q, q) else none
  readInt8 := takeField 1 (Buffer.decodeInt8 host)
  readInt16 := takeField 2 (Buffer.decodeInt16 host)
  readInt32 := takeField 4 (Buffer.decodeInt32 host)
  readInt64 := takeField 8 (Buffer.decodeInt64 host)
  readString length := fun q => some (q.take length.toNat, q.drop length.toNat)
  forward num := fun q => some ((), q.drop num.toUInt32.toNat)
  clear := fun _ => some ((), [])

/-! ## The queue describes the buffer -/

abbrev BufferSimulates {α : Type} (p : StateT Traced Option α)
    (q : StateT (List UInt8) Option α) : Prop :=
  Simulates Traced.Clean Traced.Strayed Traced.unread p q

theorem traced_eq_some {α : Type} {count : Buffer → UInt32} {op : Buffer → Option (α × Buffer)}
    {s s' : Traced} {a : α} (h : traced count op s = some (a, s')) :
    ∃ b, op s.buffer = some (a, b) ∧ s' = ⟨b, footprint s.buffer (count s.buffer) :: s.reads⟩ := by
  simp only [traced, Option.bind_eq_bind, Option.bind_eq_some_iff] at h
  obtain ⟨⟨a', b⟩, hop, h⟩ := h
  obtain ⟨rfl, rfl⟩ := Prod.mk.inj (Option.some.inj h)
  exact ⟨b, hop, rfl⟩

/-- A read simulates its counterpart on the queue if it succeeds on enough unread bytes and its
footprint leaves the unread region when there are too few. -/
theorem simulates_traced {α : Type} {count : Buffer → UInt32} {op : Buffer → Option (α × Buffer)}
    {q : StateT (List UInt8) Option α}
    (hdefined : ∀ b a t, b.Ordered → q b.unread = some (a, t) →
      (count b).toNat ≤ b.getLength.toNat ∧ ∃ b', op b = some (a, b') ∧ b'.Ordered ∧ b'.unread = t)
    (hundefined : ∀ b, b.Ordered → q b.unread = none → b.getLength.toNat < (count b).toNat) :
    BufferSimulates (traced count op) q where
  absorbs s a s' hbad h := by
    obtain ⟨f, hf, hout⟩ := hbad
    obtain ⟨b, -, rfl⟩ := traced_eq_some h
    exact ⟨f, List.mem_cons_of_mem _ hf, hout⟩
  agrees s a t hok h := by
    obtain ⟨hcount, b', hop, hord, hunread⟩ := hdefined s.buffer a t hok.1 h
    refine ⟨⟨b', footprint s.buffer (count s.buffer) :: s.reads⟩, ?_, ⟨hord, ?_⟩, hunread⟩
    · simp only [traced, hop, Option.bind_eq_bind, Option.bind_some]
      rfl
    · intro f hf
      rcases List.mem_cons.mp hf with rfl | hf
      · exact (footprint_within_iff hok.1 _).mpr hcount
      · exact hok.2 f hf
  exposes s a s' hok hnone h := by
    obtain ⟨b, -, rfl⟩ := traced_eq_some h
    have hcount := hundefined s.buffer hok.1 hnone
    exact ⟨_, List.mem_cons_self, fun hin =>
      absurd ((footprint_within_iff hok.1 _).mp hin) (by omega)⟩

theorem takeField_unread {α : Type} (b : Buffer) (width : ℕ) (decode : List UInt8 → α) :
    takeField width decode b.unread = if width ≤ b.getLength.toNat then
      some (decode (b.unread.take width), b.unread.drop width) else none := by
  rw [takeField, Buffer.length_unread]

theorem simulates_readField {α : Type} (width : UInt32) (decode : List UInt8 → α) :
    BufferSimulates
      (traced (fun _ => width) fun b => (b.readField width).bind fun p => some (decode p.1, p.2))
      (takeField width.toNat decode) := by
  apply simulates_traced
  · intro b a t hb h
    rw [takeField_unread] at h
    split_ifs at h with hw
    obtain ⟨rfl, rfl⟩ := Prod.mk.inj (Option.some.inj h)
    obtain ⟨b', hread, hord, hunread, -⟩ := Buffer.readField_spec hb width hw
    exact ⟨hw, b', by rw [hread, Option.bind_some], hord, hunread⟩
  · intro b hb h
    rw [takeField_unread] at h
    split_ifs at h with hw
    omega

theorem peekTagLen_spec (host : ByteOrder) {b : Buffer} (hb : b.Ordered)
    (hlen : 5 ≤ b.getLength.toNat) : b.peekTagLen host = some (peekField host b.unread) := by
  have hlen' := hb.toNat_getLength
  have hwc := hb.write_le_capacity
  have htag : b.block.load b.readIndex.toNat 1 = some (b.unread.take 1) := by
    rw [Block.load_eq_some (by omega), Buffer.unread, Block.take_read _ _ _ _ (by omega)]
  have hfield : b.block.load (b.readIndex.toNat + 1) 4 = some ((b.unread.drop 1).take 4) := by
    rw [Block.load_eq_some (by omega), Buffer.unread, Block.drop_read _ _ _ _ (by omega),
      Block.take_read _ _ _ _ (by omega)]
  simp only [Buffer.peekTagLen, htag, hfield, Option.bind_eq_bind, Option.bind_some]
  rfl

theorem simulates_total {α : Type} (value : Buffer → α) (next : Buffer → Buffer)
    {q : StateT (List UInt8) Option α}
    (h : ∀ b, b.Ordered → (next b).Ordered ∧ q b.unread = some (value b, (next b).unread)) :
    BufferSimulates (fun s => some (value s.buffer, { s with buffer := next s.buffer })) q where
  absorbs s a s' hbad hs := by
    obtain ⟨-, rfl⟩ := Prod.mk.inj (Option.some.inj hs)
    exact hbad
  agrees s a t hok hq := by
    obtain ⟨hord, hval⟩ := h s.buffer hok.1
    obtain ⟨rfl, rfl⟩ := Prod.mk.inj (Option.some.inj (hval.symm.trans hq))
    exact ⟨_, rfl, ⟨hord, hok.2⟩, rfl⟩
  exposes s a s' hok hnone _ := by
    rw [Traced.unread, (h s.buffer hok.1).2] at hnone
    cases hnone

theorem simulates_peekTagLen (host : ByteOrder) :
    BufferSimulates (traced (fun _ => 5) fun b => (b.peekTagLen host).map (·, b))
      (fun q => if 5 ≤ q.length then some (peekField host q, q) else none) := by
  apply simulates_traced
  · intro b a t hb h
    rw [Buffer.length_unread] at h
    split_ifs at h with hlen
    obtain ⟨rfl, rfl⟩ := Prod.mk.inj (Option.some.inj h)
    exact ⟨hlen, b, by rw [peekTagLen_spec host hb hlen, Option.map_some], hb, rfl⟩
  · intro b hb h
    rw [Buffer.length_unread] at h
    split_ifs at h with hlen
    exact Nat.lt_of_not_le hlen

theorem simulates_readString (length : UInt32) :
    BufferSimulates
      (traced (fun b => if b.getLength < length then b.getLength else length)
        (Buffer.readString · length))
      (fun q => some (q.take length.toNat, q.drop length.toNat)) := by
  apply simulates_traced
  · intro b a t hb h
    obtain ⟨rfl, rfl⟩ := Prod.mk.inj (Option.some.inj h)
    obtain ⟨b', hread, hord, hunread, -⟩ := Buffer.readString_spec hb length
    refine ⟨?_, b', hread, hord, hunread⟩
    split_ifs with hlong
    · exact le_rfl
    · rw [UInt32.lt_iff_toNat_lt] at hlong
      omega
  · intro b hb h
    cases h

structure ReceiveBuffer.Simulated (p : ReceiveBuffer (StateT Traced Option))
    (q : ReceiveBuffer (StateT (List UInt8) Option)) : Prop where
  getLength : BufferSimulates p.getLength q.getLength
  peekTagLen : BufferSimulates p.peekTagLen q.peekTagLen
  readInt8 : BufferSimulates p.readInt8 q.readInt8
  readInt16 : BufferSimulates p.readInt16 q.readInt16
  readInt32 : BufferSimulates p.readInt32 q.readInt32
  readInt64 : BufferSimulates p.readInt64 q.readInt64
  readString : ∀ length, BufferSimulates (p.readString length) (q.readString length)
  forward : ∀ num, BufferSimulates (p.forward num) (q.forward num)
  clear : BufferSimulates p.clear q.clear

theorem onBuffer_simulated (host : ByteOrder) : (onBuffer host).Simulated (onQueue host) where
  getLength := simulates_total Buffer.getLength id fun b hb => ⟨hb, by
    change some (UInt32.ofNat b.unread.length, _) = _
    rw [Buffer.length_unread, UInt32.ofNat_toNat, id]⟩
  peekTagLen := simulates_peekTagLen host
  readInt8 := simulates_readField 1 (Buffer.decodeInt8 host)
  readInt16 := simulates_readField 2 (Buffer.decodeInt16 host)
  readInt32 := simulates_readField 4 (Buffer.decodeInt32 host)
  readInt64 := simulates_readField 8 (Buffer.decodeInt64 host)
  readString := simulates_readString
  forward num := simulates_total (fun _ => ()) (Buffer.forward · num) fun b hb => by
    obtain ⟨hord, hunread, -⟩ := Buffer.forward_spec hb num
    exact ⟨hord, by rw [hunread]; rfl⟩
  clear := simulates_total (fun _ => ()) Buffer.clear fun b _ => by
    obtain ⟨hord, hunread⟩ := Buffer.clear_spec b
    exact ⟨hord, by rw [hunread]; rfl⟩

end TinyGameServer
