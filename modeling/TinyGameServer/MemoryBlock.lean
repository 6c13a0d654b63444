import Mathlib.Data.List.Basic
import Mathlib.Data.List.Range

/-!
# Heap blocks of bytes with checked copies

A block of `size` bytes is a byte function together with the size as an index of its type. The
offsets from `size` on are outside the allocation: `load` and `store` are the two directions of
`memcpy` and return `none` when a copy would touch such an offset. `read` and `write` are the
same copies without the check.
-/

namespace TinyGameServer

structure Block (size : ℕ) where
  byte : ℕ → UInt8

namespace Block

variable {size : ℕ}

def read (m : Block size) (off n : ℕ) : List UInt8 :=
  (List.range n).map (fun i => m.byte (off + i))

def write (m : Block size) (off : ℕ) (data : List UInt8) : Block size :=
  ⟨fun i => if off ≤ i then data[i - off]?.getD (m.byte i) else m.byte i⟩

def load (m : Block size) (off n : ℕ) : Option (List UInt8) :=
  if off + n ≤ size then some (m.read off n) else none

def store (m : Block size) (off : ℕ) (data : List UInt8) : Option (Block size) :=
  if off + data.length ≤ size then some (m.write off data) else none

/-- A fresh allocation of another size. Its contents are indeterminate; an arbitrary byte
function stands for them. -/
def fresh (m : Block size) (size' : ℕ) : Block size' := ⟨m.byte⟩

@[simp] theorem length_read (m : Block size) (off n : ℕ) : (m.read off n).length = n := by
  simp [read]

@[simp] theorem read_zero (m : Block size) (off : ℕ) : m.read off 0 = [] := rfl

theorem getElem?_read (m : Block size) (off n i : ℕ) :
    (m.read off n)[i]? = if i < n then some (m.byte (off + i)) else none := by
  by_cases hi : i < n
  · simp [read, hi]
  · simp [read, hi]

theorem read_add (m : Block size) (off n k : ℕ) :
    m.read off (n + k) = m.read off n ++ m.read (off + n) k := by
  simp only [read, List.range_add, List.map_append, List.map_map, Function.comp_def, Nat.add_assoc]

theorem take_read (m : Block size) (off n k : ℕ) (hk : k ≤ n) :
    (m.read off n).take k = m.read off k := by
  obtain ⟨j, rfl⟩ := Nat.exists_eq_add_of_le hk
  rw [read_add, List.take_left' (length_read m off k)]

theorem drop_read (m : Block size) (off n k : ℕ) (hk : k ≤ n) :
    (m.read off n).drop k = m.read (off + k) (n - k) := by
  obtain ⟨j, rfl⟩ := Nat.exists_eq_add_of_le hk
  rw [read_add, List.drop_left' (length_read m off k), Nat.add_sub_cancel_left]

theorem byte_write (m : Block size) (off : ℕ) (data : List UInt8) (i : ℕ) :
    (m.write off data).byte i =
      if off ≤ i then data[i - off]?.getD (m.byte i) else m.byte i := rfl

theorem read_write_self (m : Block size) (off : ℕ) (data : List UInt8) :
    (m.write off data).read off data.length = data := by
  apply List.ext_getElem?
  intro i
  rw [getElem?_read]
  by_cases hi : i < data.length
  · rw [if_pos hi, byte_write, if_pos (Nat.le_add_right off i), Nat.add_sub_cancel_left,
      List.getElem?_eq_getElem hi, Option.getD_some]
  · rw [if_neg hi, List.getElem?_eq_none (Nat.le_of_not_lt hi)]

theorem read_write_before (m : Block size) (off : ℕ) (data : List UInt8) (off' n : ℕ)
    (h : off' + n ≤ off) : (m.write off data).read off' n = m.read off' n := by
  apply List.ext_getElem?
  intro i
  rw [getElem?_read, getElem?_read]
  by_cases hi : i < n
  · rw [if_pos hi, if_pos hi, byte_write, if_neg (by omega)]
  · rw [if_neg hi, if_neg hi]

theorem read_write_append (m : Block size) (off n : ℕ) (data : List UInt8) :
    (m.write (off + n) data).read off (n + data.length) = m.read off n ++ data := by
  rw [read_add, read_write_before m (off + n) data off n le_rfl, read_write_self]

theorem load_eq_some {m : Block size} {off n : ℕ} (h : off + n ≤ size) :
    m.load off n = some (m.read off n) := if_pos h

theorem length_load {m : Block size} {off n : ℕ} {data : List UInt8}
    (h : m.load off n = some data) : data.length = n := by
  rw [load] at h
  split at h
  · cases h
    exact length_read m off n
  · cases h

theorem store_eq_some {m : Block size} {off : ℕ} {data : List UInt8}
    (h : off + data.length ≤ size) : m.store off data = some (m.write off data) := if_pos h

theorem of_store_eq_some {m m' : Block size} {off : ℕ} {data : List UInt8}
    (h : m.store off data = some m') : off + data.length ≤ size ∧ m' = m.write off data := by
  rw [store] at h
  split_ifs at h with hroom
  exact ⟨hroom, (Option.some.inj h).symm⟩

theorem store_eq_none {m : Block size} {off : ℕ} {data : List UInt8}
    (h : size < off + data.length) : m.store off data = none := if_neg (by omega)

end Block
end TinyGameServer
