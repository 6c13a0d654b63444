import TinyGameServer.BufferSpec

/-!
# Which lengths overrun the allocation

An append is decided by two comparisons, one of the room behind the write index and one that
chooses between compaction and reallocation. A read from a descriptor appends what did not fit
behind the write index to a buffer that is full to its end, so that its window depends on the
room and on the read index. Outside the windows both keep the index order and extend the unread
bytes by the data.
-/

namespace TinyGameServer.Buffer

variable {b : Buffer}

/-- An operation that is undefined in a window, and outside of it does what `Q` says. -/
theorem isSome_iff_of_window {α : Type} {result : Option α} {window : Prop} {Q : α → Prop}
    (hinside : ¬ window → ∃ a, result = some a ∧ Q a) (hwindow : window → result = none) :
    (result.isSome ↔ ¬ window) ∧ ∀ a, result = some a → Q a := by
  by_cases h : window
  · have hnone := hwindow h
    constructor
    · simp only [hnone, Option.isSome_none, Bool.false_eq_true, h, not_true_eq_false]
    · intro a ha
      rw [hnone] at ha
      cases ha
  · obtain ⟨a, hsome, hQ⟩ := hinside h
    constructor
    · simp only [hsome, Option.isSome_some, h, not_false_eq_true]
    · intro a' ha'
      rw [hsome] at ha'
      cases ha'
      exact hQ

/-- An append of `n` bytes stays inside the allocation unless `capacity_ - len < n` and
`n <= capacity_ + len`. -/
theorem append_inside_iff (b : Buffer) (hb : b.Ordered) (data : List UInt8)
    (hn : 2 * b.capacity.toNat + data.length < 2 ^ 32) :
    ((b.append data).isSome ↔
      ¬ (b.capacity.toNat - b.getLength.toNat < data.length ∧
        data.length ≤ b.capacity.toNat + b.getLength.toNat)) ∧
    ∀ b', b.append data = some b' → b'.Ordered ∧ b'.unread = b.unread ++ data := by
  apply isSome_iff_of_window
  · intro hfit
    obtain ⟨b', h, hord, hunread, -⟩ := append_spec hb data hn hfit
    exact ⟨b', h, hord, hunread⟩
  · intro hover
    exact append_overflows hb data hn hover

def lastThree : Buffer :=
  { capacity := 8, block := ⟨fun i => UInt8.ofNat i⟩, readIndex := 5, writeIndex := 8 }

theorem lastThree_ordered : lastThree.Ordered := ⟨by decide, by decide⟩

/-- Five more bytes fit after compaction and twelve after a reallocation, but not six. -/
theorem append_inside_lastThree :
    (lastThree.append (List.replicate 5 1)).isSome ∧
    ¬ (lastThree.append (List.replicate 6 1)).isSome ∧
    (lastThree.append (List.replicate 12 1)).isSome := by
  have happend (n : ℕ) (hn : n ≤ 12) :=
    (append_inside_iff lastThree lastThree_ordered (List.replicate n 1)
      (by rw [List.length_replicate]; exact (Nat.add_le_add_left hn _).trans_lt (by decide))).1
  exact ⟨(happend 5 (by decide)).mpr (by decide), (happend 6 (by decide)).not.mpr (by decide),
    (happend 12 le_rfl).mpr (by decide)⟩

theorem not_readOverflows_iff (b : Buffer) (n : ℕ) :
    ¬ b.ReadOverflows n ↔ n ≤ b.room ∨ n - b.room ≤ b.readIndex.toNat ∨
      2 * b.capacity.toNat - b.readIndex.toNat < n - b.room := by
  unfold ReadOverflows
  omega

/-- A read of `n` bytes stays inside the allocation if and only if they fit behind the write
index, or the `k` that do not are at most `read_index_`, or more than
`2 * capacity_ - read_index_`. -/
theorem readFd_inside_iff (b : Buffer) (hb : b.Ordered) (bytes : List UInt8)
    (hcap : 2 * b.capacity.toNat + 65536 < 2 ^ 32) (hread : b.Readable bytes.length) :
    ((b.readFd (.data bytes)).isSome ↔
      bytes.length ≤ b.room ∨ bytes.length - b.room ≤ b.readIndex.toNat ∨
        2 * b.capacity.toNat - b.readIndex.toNat < bytes.length - b.room) ∧
    ∀ n b', b.readFd (.data bytes) = some (n, b') →
      n = Int32.ofNat bytes.length ∧ b'.Ordered ∧ b'.unread = b.unread ++ bytes := by
  have h : ((b.readFd (.data bytes)).isSome ↔ ¬ b.ReadOverflows bytes.length) ∧
      ∀ p, b.readFd (.data bytes) = some p → p.1 = Int32.ofNat bytes.length ∧ p.2.Ordered ∧
        p.2.unread = b.unread ++ bytes := by
    apply isSome_iff_of_window
    · intro hfit
      obtain ⟨b', h, hord, hunread, -⟩ := readFd_spec hb bytes hcap hread hfit
      exact ⟨_, h, rfl, hord, hunread⟩
    · intro hover
      exact readFd_overflows hb bytes hcap hread hover
  rw [← not_readOverflows_iff]
  exact ⟨h.1, fun n b' hsome => h.2 (n, b') hsome⟩

/-- Two bytes fit in front of the unread ones and twelve after a reallocation, but not six. -/
theorem readFd_inside_lastThree :
    (lastThree.readFd (.data (List.replicate 2 1))).isSome ∧
    ¬ (lastThree.readFd (.data (List.replicate 6 1))).isSome ∧
    (lastThree.readFd (.data (List.replicate 12 1))).isSome := by
  have hread (n : ℕ) (hn : n ≤ 12) :=
    (readFd_inside_iff lastThree lastThree_ordered (List.replicate n 1) (by decide)
      (Or.inr ⟨by decide, by rw [List.length_replicate]; exact hn.trans (by decide)⟩)).1
  exact ⟨(hread 2 (by decide)).mpr (by decide), (hread 6 (by decide)).not.mpr (by decide),
    (hread 12 le_rfl).mpr (by decide)⟩

end TinyGameServer.Buffer
