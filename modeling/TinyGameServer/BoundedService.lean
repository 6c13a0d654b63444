import Mathlib.Data.List.Basic
import Mathlib.Order.Lattice

/-!
# Serving at a bounded rate

At every moment some units arrive and at most `rate` of those that are waiting are served. How many
have been served is then the least of what had arrived up to some moment and could be served from
there on. The units can be frames of bytes: `complete` counts how many of them are whole in the
bytes that have arrived.
-/

namespace TinyGameServer.BoundedService

variable {rate : ℕ} {arrived arrived' : ℕ → ℕ}

/-- How many have been served after `k` moments. `arrived j` counts all that arrive up to the
`j`-th one. -/
def served (rate : ℕ) (arrived : ℕ → ℕ) : ℕ → ℕ
  | 0 => 0
  | k + 1 => min (served rate arrived k + rate) (arrived (k + 1))

theorem served_le_arrived (rate : ℕ) (arrived : ℕ → ℕ) (k : ℕ) :
    served rate arrived k ≤ arrived k := by
  cases k with
  | zero => exact Nat.zero_le _
  | succ k => exact min_le_right _ _

theorem served_congr {k : ℕ} (h : ∀ j ≤ k, arrived j = arrived' j) :
    served rate arrived k = served rate arrived' k := by
  induction k with
  | zero => rfl
  | succ k ih =>
      rw [served, served, ih fun j hj => h j (Nat.le_succ_of_le hj), h (k + 1) le_rfl]

/-- Every moment bounds what is served: what had arrived by then, and the rate from then on. The
least of these bounds is attained. -/
theorem le_served_iff (hzero : arrived 0 = 0) (k n : ℕ) :
    n ≤ served rate arrived k ↔ ∀ j ≤ k, n ≤ arrived j + rate * (k - j) := by
  induction k generalizing n with
  | zero =>
      simp [served, hzero]
  | succ k ih =>
      have hrate : ∀ j ≤ k, rate * (k + 1 - j) = rate * (k - j) + rate := by
        intro j hj
        rw [Nat.succ_sub hj, Nat.mul_succ]
      rw [served, Nat.le_min, ← Nat.sub_le_iff_le_add, ih]
      constructor
      · rintro ⟨hbefore, hlast⟩ j hj
        rcases Nat.le_succ_iff.mp hj with hj | rfl
        · have hbound := hbefore j hj
          rw [hrate j hj]
          omega
        · exact hlast.trans (Nat.le_add_right _ _)
      · intro h
        refine ⟨fun j hj => ?_, ?_⟩
        · have hbound := h j (Nat.le_succ_of_le hj)
          rw [hrate j hj] at hbound
          omega
        · have hbound := h (k + 1) le_rfl
          rwa [Nat.sub_self, Nat.mul_zero, Nat.add_zero] at hbound

/-! ## Frames in a stream -/

section Frames

variable {α φ : Type} {bytes : φ → List α}

/-- How many frames of these sizes are whole in the first `m` elements. -/
def complete : List ℕ → ℕ → ℕ
  | [], _ => 0
  | size :: sizes, m => if size ≤ m then complete sizes (m - size) + 1 else 0

theorem complete_zero {sizes : List ℕ} (h : ∀ size ∈ sizes, 0 < size) : complete sizes 0 = 0 := by
  cases sizes with
  | nil => rfl
  | cons size sizes =>
      have hpos := h size List.mem_cons_self
      rw [complete, if_neg (by omega)]

theorem complete_mono {m m' : ℕ} (h : m ≤ m') (sizes : List ℕ) :
    complete sizes m ≤ complete sizes m' := by
  induction sizes generalizing m m' with
  | nil => rfl
  | cons size sizes ih =>
      rw [complete, complete]
      split
      · have hrest : m - size ≤ m' - size := Nat.sub_le_sub_right h size
        rw [if_pos (by omega)]
        exact Nat.succ_le_succ (ih hrest)
      · exact Nat.zero_le _

/-- A part of a frame, which may be the empty one behind the last frame. -/
def Partial (bytes : φ → List α) (p : List α) : Prop :=
  p = [] ∨ ∃ f, p <+: bytes f ∧ p.length < (bytes f).length

/-- What has arrived of a stream is its complete frames and a part of the next one. -/
theorem exists_partial (frames : List φ) {m : List α} (hm : m <+: frames.flatMap bytes) :
    ∃ p, Partial bytes p ∧
      m = (frames.take (complete (frames.map fun f => (bytes f).length) m.length)).flatMap bytes ++
        p := by
  induction frames generalizing m with
  | nil =>
      rw [List.flatMap_nil, List.prefix_nil] at hm
      exact ⟨[], .inl rfl, by rw [hm]; rfl⟩
  | cons f frames ih =>
      rw [List.flatMap_cons] at hm
      rw [List.map_cons, complete]
      by_cases hsize : (bytes f).length ≤ m.length
      · obtain ⟨m', rfl⟩ := List.prefix_of_prefix_length_le (List.prefix_append _ _) hm hsize
        rw [List.prefix_append_right_inj] at hm
        obtain ⟨p, hp, hm'⟩ := ih hm
        refine ⟨p, hp, ?_⟩
        rw [if_pos hsize, List.length_append, Nat.add_sub_cancel_left, List.take_succ_cons,
          List.flatMap_cons, List.append_assoc, ← hm']
      · have hpart : m <+: bytes f :=
          List.prefix_of_prefix_length_le hm (List.prefix_append _ _) (by omega)
        rw [if_neg hsize]
        exact ⟨m, .inr ⟨f, hpart, by omega⟩, rfl⟩

theorem complete_bytes (n m : ℕ) : complete (List.replicate n 1) m = min n m := by
  induction n generalizing m with
  | zero => rw [List.replicate_zero, complete, Nat.zero_min]
  | succ n ih =>
      rw [List.replicate_succ, complete]
      split
      · rw [ih]
        omega
      · omega

end Frames

end TinyGameServer.BoundedService
