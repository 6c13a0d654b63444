import Mathlib.Algebra.Order.BigOperators.Group.List
import TinyGameServer.BufferSpec

/-!
# Buffer as a FIFO byte queue

An operation of the class is compared with the same operation on an abstract byte queue: append
at the back, drop from the front. `RefinesRun` follows a whole sequence of operations and asks in
every state for ordered indices, for copies inside the allocation, and for unread bytes equal to
the queue. A sequence has this property exactly when no append and no spilled read falls into the
region in which compaction is chosen without enough room.
-/

namespace TinyGameServer.Buffer

inductive Op where
  | appendInt64 (data : Int64)
  | appendInt32 (data : Int32)
  | appendInt16 (data : Int16)
  | appendInt8 (data : Int8)
  | appendString (data : List UInt8)
  | appendData (data : List UInt8)
  | appendBuffer (data : Buffer)
  | readInt64
  | readInt32
  | readInt16
  | readInt8
  | readString (length : UInt32)
  | readAll
  | forward (num : Int32)
  | clear
  | readFd (result : ReadResult)

variable (host : ByteOrder)

def step (b : Buffer) : Op → Option Buffer
  | .appendInt64 data => b.appendInt64 host data
  | .appendInt32 data => b.appendInt32 host data
  | .appendInt16 data => b.appendInt16 host data
  | .appendInt8 data => b.appendInt8 data
  | .appendString data => b.appendString data
  | .appendData data => b.appendData data
  | .appendBuffer data => b.appendBuffer data
  | .readInt64 => (b.readInt64 host).map Prod.snd
  | .readInt32 => (b.readInt32 host).map Prod.snd
  | .readInt16 => (b.readInt16 host).map Prod.snd
  | .readInt8 => (b.readInt8 host).map Prod.snd
  | .readString length => (b.readString length).map Prod.snd
  | .readAll => b.readAll.map Prod.snd
  | .forward num => some (b.forward num)
  | .clear => some b.clear
  | .readFd result => (b.readFd result).map Prod.snd

namespace Op

/-- The bytes that an operation hands to the private `append`. -/
def pushed : Op → List UInt8
  | .appendInt64 data => int64Bytes host data
  | .appendInt32 data => int32Bytes host data
  | .appendInt16 data => int16Bytes host data
  | .appendInt8 data => int8Bytes data
  | .appendString data => data
  | .appendData data => data
  | .appendBuffer data => data.unread
  | _ => []

/-- The bytes that an operation takes from the front of the queue, at most all of them. -/
def dropped : Op → List UInt8 → ℕ
  | .readInt64, _ => 8
  | .readInt32, _ => 4
  | .readInt16, _ => 2
  | .readInt8, _ => 1
  | .readString length, _ => length.toNat
  | .forward num, _ => num.toInt.toNat
  | .readAll, q => q.length
  | .clear, q => q.length
  | _, _ => 0

def received : Op → List UInt8
  | .readFd (.data bytes) => bytes
  | _ => []

/-- The same operation on an abstract FIFO queue of bytes. -/
def onQueue (op : Op) (q : List UInt8) : List UInt8 :=
  q.drop (op.dropped q) ++ op.pushed host ++ op.received

theorem onQueue_of_append {op : Op} {q : List UInt8} (hdropped : op.dropped q = 0)
    (hreceived : op.received = []) : op.onQueue host q = q ++ op.pushed host := by
  rw [onQueue, hdropped, hreceived, List.drop_zero, List.append_nil]

theorem onQueue_of_drop {op : Op} {q : List UInt8} (hpushed : op.pushed host = [])
    (hreceived : op.received = []) : op.onQueue host q = q.drop (op.dropped q) := by
  rw [onQueue, hpushed, hreceived, List.append_nil, List.append_nil]

/-- What the callers of the operation promise. -/
def Legal (b : Buffer) : Op → Prop
  | .readInt64 => 8 ≤ b.getLength.toNat
  | .readInt32 => 4 ≤ b.getLength.toNat
  | .readInt16 => 2 ≤ b.getLength.toNat
  | .readInt8 => 1 ≤ b.getLength.toNat
  | .forward num => 0 ≤ num.toInt
  | .appendBuffer data => data.Ordered
  | .readFd (.data bytes) => b.Readable bytes.length
  | _ => True

/-- The step stays out of the region in which compaction leaves too little room. -/
def Fits (b : Buffer) (op : Op) : Prop :=
  ¬ b.Overflows (op.pushed host).length ∧ ¬ b.ReadOverflows op.received.length

end Op

def RefinesRun (b : Buffer) (q : List UInt8) : List Op → Prop
  | [] => b.Ordered ∧ b.unread = q
  | op :: ops => b.Ordered ∧ b.unread = q ∧ (op.Legal b →
      ∃ b', step host b op = some b' ∧ RefinesRun b' (op.onQueue host q) ops)

def FitsRun (b : Buffer) : List Op → Prop
  | [] => True
  | op :: ops => op.Legal b →
      op.Fits host b ∧ ∀ b', step host b op = some b' → FitsRun b' ops

/-! ## One operation -/

/-- Three times the bound on what is appended: a reallocation at most triples the data. -/
def Bounded (b : Buffer) : Prop := b.capacity.toNat < 3 * 2 ^ 28

variable {host} {b : Buffer}

theorem not_overflows_zero : ¬ b.Overflows 0 := fun h => Nat.not_lt_zero _ h.1

theorem not_readOverflows_zero : ¬ b.ReadOverflows 0 := fun h => Nat.not_lt_zero _ h.1

/-- An operation that drops `n` bytes and appends nothing refines the queue. -/
def Drops (b : Buffer) (result : Option Buffer) (n : ℕ) : Prop :=
  ∃ b', result = some b' ∧ b'.Ordered ∧ b'.unread = b.unread.drop n ∧ b'.capacity = b.capacity

theorem drops_readField {α : Type} (hb : b.Ordered) (width : UInt32) (decode : List UInt8 → α)
    (hwidth : width.toNat ≤ b.getLength.toNat) :
    b.Drops (((b.readField width).bind fun p => some (decode p.1, p.2)).map Prod.snd)
      width.toNat := by
  obtain ⟨b', hread, hord, hunread, hcap⟩ := readField_spec hb width hwidth
  exact ⟨b', by simp only [hread, Option.bind_some, Option.map_some], hord, hunread, hcap⟩

theorem toNat_toUInt32_of_nonneg (num : Int32) (h : 0 ≤ num.toInt) :
    num.toUInt32.toNat = num.toInt.toNat := by
  have hle : num.toUInt32.toNat = num.toBitVec.toNat := rfl
  have hint : num.toInt = num.toBitVec.toInt := rfl
  rw [hint, BitVec.toInt_eq_toNat_cond] at h ⊢
  have hlt := num.toBitVec.isLt
  split_ifs at h ⊢ <;> omega

theorem drops_forward (hb : b.Ordered) (num : Int32) (h : 0 ≤ num.toInt) :
    b.Drops (some (b.forward num)) num.toInt.toNat := by
  obtain ⟨hord, hunread, hcap⟩ := forward_spec hb num
  rw [toNat_toUInt32_of_nonneg num h] at hunread
  exact ⟨_, rfl, hord, hunread, hcap⟩

/-- What one operation has to achieve: it stays inside the allocation, keeps the invariant and
does to the unread bytes what `q` says. -/
def Achieves (result : Option Buffer) (q : List UInt8) : Prop :=
  ∃ b', result = some b' ∧ b'.Ordered ∧ b'.Bounded ∧ b'.unread = q

theorem Drops.achieves {result : Option Buffer} {n : ℕ} (hbound : b.Bounded)
    (h : b.Drops result n) : Achieves result (b.unread.drop n) := by
  obtain ⟨b', hb', hord, hunread, hcap⟩ := h
  exact ⟨b', hb', hord, by rwa [Bounded, hcap], hunread⟩

theorem achieves_append (hb : b.Ordered) (hbound : b.Bounded) (data : List UInt8)
    (hlen : data.length < 2 ^ 28) (hfit : ¬ b.Overflows data.length) :
    Achieves (b.append data) (b.unread ++ data) := by
  unfold Bounded at hbound
  obtain ⟨b', hb', hord, hunread, hcap⟩ := append_spec hb data (by omega) hfit
  refine ⟨b', hb', hord, ?_, hunread⟩
  unfold Bounded
  rcases hcap with hcap | hcap
  · rwa [hcap]
  · omega

theorem achieves_readFd (hb : b.Ordered) (hbound : b.Bounded) (bytes : List UInt8)
    (hread : b.Readable bytes.length) (hfit : ¬ b.ReadOverflows bytes.length) :
    Achieves ((b.readFd (.data bytes)).map Prod.snd) (b.unread ++ bytes) := by
  unfold Bounded at hbound
  obtain ⟨b', hb', hord, hunread, hcap⟩ := readFd_spec hb bytes (by omega) hread hfit
  refine ⟨b', by rw [hb', Option.map_some], hord, ?_, hunread⟩
  unfold Bounded
  rcases hcap with hcap | hcap
  · rwa [hcap]
  · omega

theorem step_achieves (hb : b.Ordered) (hbound : b.Bounded) (op : Op)
    (hlen : (op.pushed host).length < 2 ^ 28) (hlegal : op.Legal b) (hfit : op.Fits host b) :
    Achieves (step host b op) (op.onQueue host b.unread) := by
  obtain ⟨hfit, hfitRead⟩ := hfit
  cases op with
  | appendInt64 data =>
      rw [Op.onQueue_of_append host rfl rfl]
      exact achieves_append hb hbound _ hlen hfit
  | appendInt32 data =>
      rw [Op.onQueue_of_append host rfl rfl]
      exact achieves_append hb hbound _ hlen hfit
  | appendInt16 data =>
      rw [Op.onQueue_of_append host rfl rfl]
      exact achieves_append hb hbound _ hlen hfit
  | appendInt8 data =>
      rw [Op.onQueue_of_append host rfl rfl]
      exact achieves_append hb hbound _ hlen hfit
  | appendString data =>
      rw [Op.onQueue_of_append host rfl rfl, step,
        appendString_eq_append data (hlen.trans (by decide))]
      exact achieves_append hb hbound data hlen hfit
  | appendData data =>
      rw [Op.onQueue_of_append host rfl rfl]
      exact achieves_append hb hbound _ hlen hfit
  | appendBuffer data =>
      rw [Op.onQueue_of_append host rfl rfl, step, appendBuffer_eq_append data hlegal]
      exact achieves_append hb hbound data.unread hlen hfit
  | readInt64 =>
      rw [Op.onQueue_of_drop host rfl rfl]
      exact (drops_readField hb 8 _ hlegal).achieves hbound
  | readInt32 =>
      rw [Op.onQueue_of_drop host rfl rfl]
      exact (drops_readField hb 4 _ hlegal).achieves hbound
  | readInt16 =>
      rw [Op.onQueue_of_drop host rfl rfl]
      exact (drops_readField hb 2 _ hlegal).achieves hbound
  | readInt8 =>
      rw [Op.onQueue_of_drop host rfl rfl]
      exact (drops_readField hb 1 _ hlegal).achieves hbound
  | readString length =>
      obtain ⟨b', hread, hord, hunread, hcap⟩ := readString_spec hb length
      have h : b.Drops ((b.readString length).map Prod.snd) length.toNat :=
        ⟨b', by rw [hread, Option.map_some], hord, hunread, hcap⟩
      rw [Op.onQueue_of_drop host rfl rfl]
      exact h.achieves hbound
  | readAll =>
      obtain ⟨b', hread, hord, hunread, hcap⟩ := readAll_spec hb
      have h : b.Drops (b.readAll.map Prod.snd) b.unread.length :=
        ⟨b', by rw [hread, Option.map_some], hord, by rw [hunread, List.drop_length], hcap⟩
      rw [Op.onQueue_of_drop host rfl rfl]
      exact h.achieves hbound
  | forward num =>
      rw [Op.onQueue_of_drop host rfl rfl]
      exact (drops_forward hb num hlegal).achieves hbound
  | clear =>
      rw [Op.onQueue_of_drop host rfl rfl, Op.dropped, List.drop_length]
      exact ⟨b.clear, rfl, (clear_spec b).1, hbound, (clear_spec b).2⟩
  | readFd result =>
      cases result with
      | error =>
          rw [Op.onQueue_of_append host rfl rfl]
          exact ⟨b, rfl, hb, hbound, (List.append_nil _).symm⟩
      | data bytes =>
          change Achieves _ (b.unread.drop 0 ++ [] ++ bytes)
          rw [List.append_nil, List.drop_zero]
          exact achieves_readFd hb hbound bytes hlegal hfitRead

/-- Outside the condition the operation copies past the end of the allocation. -/
theorem step_overflows (hb : b.Ordered) (hbound : b.Bounded) (op : Op)
    (hlen : (op.pushed host).length < 2 ^ 28) (hlegal : op.Legal b) (hfit : ¬ op.Fits host b) :
    step host b op = none := by
  have hbound' : b.capacity.toNat < 3 * 2 ^ 28 := hbound
  have happend : ∀ data : List UInt8, data.length < 2 ^ 28 →
      ¬ (¬ b.Overflows data.length ∧ ¬ b.ReadOverflows 0) → b.append data = none :=
    fun data hlen hfit => append_overflows hb data (by omega)
      (by_contra fun h => hfit ⟨h, not_readOverflows_zero⟩)
  cases op with
  | appendInt64 data => exact happend _ hlen hfit
  | appendInt32 data => exact happend _ hlen hfit
  | appendInt16 data => exact happend _ hlen hfit
  | appendInt8 data => exact happend _ hlen hfit
  | appendString data =>
      exact (appendString_eq_append data (hlen.trans (by decide))).trans (happend _ hlen hfit)
  | appendData data => exact happend _ hlen hfit
  | appendBuffer data => exact (appendBuffer_eq_append data hlegal).trans (happend _ hlen hfit)
  | readFd result =>
      cases result with
      | error => exact absurd ⟨not_overflows_zero, not_readOverflows_zero⟩ hfit
      | data bytes =>
          have hover : b.ReadOverflows bytes.length :=
            by_contra fun h => hfit ⟨not_overflows_zero, h⟩
          simp only [step, readFd_overflows hb bytes (by omega) hlegal hover, Option.map_none]
  | _ => exact absurd ⟨not_overflows_zero, not_readOverflows_zero⟩ hfit

/-! ## Whole sequences -/

theorem refinesRun_iff_fitsRun (hb : b.Ordered) (hbound : b.Bounded) (ops : List Op)
    (hlen : ∀ op ∈ ops, (op.pushed host).length < 2 ^ 28) :
    RefinesRun host b b.unread ops ↔ FitsRun host b ops := by
  induction ops generalizing b with
  | nil => exact iff_of_true ⟨hb, rfl⟩ trivial
  | cons op ops ih =>
      have hop := hlen op List.mem_cons_self
      have htail : ∀ op' ∈ ops, (op'.pushed host).length < 2 ^ 28 :=
        fun op' hmem => hlen op' (List.mem_cons_of_mem op hmem)
      simp only [RefinesRun, FitsRun, hb, true_and]
      refine forall_congr' fun hlegal => ?_
      by_cases hfit : op.Fits host b
      · obtain ⟨b', hb', hord, hbound', hunread⟩ := step_achieves hb hbound op hop hlegal hfit
        have hrest := ih hord hbound' htail
        rw [hunread] at hrest
        simp only [hb', Option.some.injEq, exists_eq_left', forall_eq', hfit, true_and]
        exact hrest
      · have hnone := step_overflows hb hbound op hop hlegal hfit
        refine iff_of_false ?_ (fun h => hfit h.1)
        rintro ⟨b', hb', -⟩
        rw [hnone] at hb'
        cases hb'

theorem length_pushed_lt {ops : List Op}
    (htotal : (ops.map fun op => (op.pushed host).length).sum < 2 ^ 28) :
    ∀ op ∈ ops, (op.pushed host).length < 2 ^ 28 := by
  intro op hmem
  exact (List.le_sum_of_mem (List.mem_map_of_mem hmem)).trans_lt htotal

/-- Started on a constructed buffer of any contents, a sequence of operations that appends fewer
than `2 ^ 28` bytes refines the byte queue if and only if every step stays out of the region in
which the room test picks compaction although the free bytes do not suffice. -/
theorem run_refines_queue_iff (host : ByteOrder) (b : Buffer) (ops : List Op)
    (hcap : b.capacity.toNat < 2 ^ 28) (hread : b.readIndex = 0) (hwrite : b.writeIndex = 0)
    (htotal : (ops.map fun op => (op.pushed host).length).sum < 2 ^ 28) :
    RefinesRun host b [] ops ↔ FitsRun host b ops := by
  have hb : b.Ordered := ⟨by rw [hread, hwrite], by rw [hwrite]; exact Nat.zero_le _⟩
  have hunread : b.unread = [] := by simp [unread, getLength, hread, hwrite]
  rw [← hunread]
  exact refinesRun_iff_fitsRun hb (hcap.trans (by decide)) ops (length_pushed_lt htotal)

theorem fitsRun_of_step {b' : Buffer} {op : Op} {ops : List Op} (hstep : step host b op = some b')
    (hfit : op.Fits host b) (h : FitsRun host b' ops) : FitsRun host b (op :: ops) := by
  refine fun _ => ⟨hfit, fun b'' hb'' => ?_⟩
  obtain rfl := Option.some.inj (hstep.symm.trans hb'')
  exact h

/-- The third append of a buffer of eight bytes compacts it, and the last one reallocates it. -/
theorem run_refines_queue_grown :
    RefinesRun .little (new 8) []
      [.appendInt32 1, .appendInt32 2, .readInt32, .appendInt32 3,
        .appendString (List.replicate 20 7), .readInt32] := by
  refine (run_refines_queue_iff .little (new 8) _ (by decide) rfl rfl (by decide)).mpr ?_
  refine fitsRun_of_step rfl ⟨by decide, not_readOverflows_zero⟩ ?_
  refine fitsRun_of_step rfl ⟨by decide, not_readOverflows_zero⟩ ?_
  refine fitsRun_of_step rfl ⟨by decide, not_readOverflows_zero⟩ ?_
  refine fitsRun_of_step rfl ⟨by decide, not_readOverflows_zero⟩ ?_
  refine fitsRun_of_step rfl ⟨by decide, not_readOverflows_zero⟩ ?_
  exact fitsRun_of_step rfl ⟨by decide, not_readOverflows_zero⟩ trivial

theorem full_buffer_append_overflows :
    ¬ RefinesRun .little (new 4) [] [.appendInt32 0, .appendInt8 1] := by
  rintro ⟨-, -, h⟩
  obtain ⟨b₁, hb₁, -, -, h⟩ := h trivial
  obtain ⟨b₂, hb₂, -⟩ := h trivial
  have hnone : (step .little (new 4) (.appendInt32 0)).bind (step .little · (.appendInt8 1)) =
      none := by rfl
  rw [hb₁, Option.bind_some, hb₂] at hnone
  cases hnone

end TinyGameServer.Buffer
