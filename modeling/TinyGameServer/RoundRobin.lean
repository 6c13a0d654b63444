import Mathlib.Algebra.Group.Nat.Defs

/-!
# Elements in turn

The picker of a list counts its picks in one `int` and takes the element at that count modulo the
length. Past the last `int` the increment is undefined in C++, here it wraps.
-/

namespace TinyGameServer.RoundRobin

variable {α : Type}

/-- The `int` becomes a `size_t` before the remainder is taken. -/
def turn (i : Int32) (size : ℕ) : ℕ := i.toInt64.toUInt64.toNat % size

theorem turn_lt (i : Int32) {size : ℕ} (h : 0 < size) : turn i size < size := Nat.mod_lt _ h

/-- `l[i++ % l.size()]`, unless the list is empty. -/
def pick (l : List α) (i : Int32) : Option α × Int32 :=
  if l.isEmpty then (none, i) else (l[turn i l.length]?, i + 1)

theorem pick_fst (l : List α) (i : Int32) : (pick l i).1 = l[turn i l.length]? := by
  cases l with
  | nil => rfl
  | cons a l => rfl

theorem toNat_counter {k : ℕ} (hk : k < 2 ^ 31) : (Int32.ofNat k).toInt64.toUInt64.toNat = k := by
  have hmax : Int32.maxValue.toInt = 2 ^ 31 - 1 := rfl
  rw [Int32.toInt64_ofNat' (by omega), Int64.toUInt64_ofNat', UInt64.toNat_ofNat_of_lt']
  exact Nat.lt_trans hk (by decide)

theorem pick_ofNat {l : List α} (h : l ≠ []) {k : ℕ} (hk : k < 2 ^ 31) :
    pick l (Int32.ofNat k) = (l[k % l.length]?, Int32.ofNat (k + 1)) := by
  have hempty : l.isEmpty = false := List.isEmpty_eq_false_iff.mpr h
  rw [pick, hempty, turn, toNat_counter hk, Int32.ofNat_add]
  rfl

theorem pick_isSome {l : List α} (h : l ≠ []) (i : Int32) : ∃ a ∈ l, (pick l i).1 = some a := by
  have hlt := turn_lt i (List.length_pos_iff.mpr h)
  refine ⟨l[turn i l.length], List.getElem_mem hlt, ?_⟩
  rw [pick_fst, List.getElem?_eq_getElem hlt]

end TinyGameServer.RoundRobin
