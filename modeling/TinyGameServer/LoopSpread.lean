import TinyGameServer.EvenSpread
import TinyGameServer.ThreadManager

/-!
# How evenly the managers of a process use their loops

The calls of `PickEventLoop` on all managers advance one counter, so the `k`-th call of the
process picks number `k % size` on whichever manager it is made. The loops of a manager are
picked evenly as long as the positions of its own calls, in every round of as many calls as it
has threads, are different modulo that number. For a process with one manager they always are.
-/

namespace TinyGameServer.LoopSpread

variable {μ ι : Type}

/-- The picks of a sequence of calls, each with the manager it was made on. -/
def picks (managers : μ → ThreadManager ι) : Int32 → List μ → List (μ × ι)
  | _, [] => []
  | i, m :: calls =>
    let (l, i) := (managers m).pickEventLoop i
    (m, l) :: picks managers i calls

variable [DecidableEq μ]

/-- At which places of the sequence, counted from `k` on, the manager is called. -/
def positionsFrom (m : μ) : ℕ → List μ → List ℕ
  | _, [] => []
  | k, c :: calls =>
    if c = m then k :: positionsFrom m (k + 1) calls else positionsFrom m (k + 1) calls

def positions (m : μ) (calls : List μ) : List ℕ := positionsFrom m 0 calls

/-- The index that a call at position `k` of the process picks. -/
def turnAt {manager : ThreadManager ι} (hthreads : manager.threads ≠ []) (k : ℕ) :
    Fin manager.threads.length :=
  ⟨k % manager.threads.length, Nat.mod_lt _ (List.length_pos_iff.mpr hthreads)⟩

theorem pickEventLoop_ofNat {manager : ThreadManager ι} (hthreads : manager.threads ≠ [])
    {k : ℕ} (hk : k < 2 ^ 31) :
    manager.pickEventLoop (Int32.ofNat k) =
      (manager.threads.get (turnAt hthreads k), Int32.ofNat (k + 1)) := by
  have hlt := Nat.mod_lt k (List.length_pos_iff.mpr hthreads)
  rw [ThreadManager.pickEventLoop, RoundRobin.pick_ofNat hthreads hk]
  simp only [List.getElem?_eq_getElem hlt, Option.getD_some]
  rfl

/-! ## Turns of one manager -/

section Turns

variable {managers : μ → ThreadManager ι} (hthreads : ∀ m, (managers m).threads ≠ [])

def turnsFrom (m : μ) (k : ℕ) (calls : List μ) : List (Fin (managers m).threads.length) :=
  (positionsFrom m k calls).map (turnAt (hthreads m))

theorem count_picks [DecidableEq ι] (hnodup : ∀ m, (managers m).threads.Nodup) (m : μ)
    (v : Fin (managers m).threads.length) (k : ℕ) (calls : List μ)
    (hk : k + calls.length ≤ 2 ^ 31) :
    (picks managers (Int32.ofNat k) calls).count (m, (managers m).threads.get v) =
      (turnsFrom hthreads m k calls).count v := by
  induction calls generalizing k with
  | nil => rfl
  | cons c calls ih =>
      rw [List.length_cons] at hk
      have hrest := ih (k + 1) (by omega)
      rw [picks, pickEventLoop_ofNat (hthreads c) (by omega), List.count_cons, hrest, turnsFrom,
        turnsFrom, positionsFrom]
      by_cases hc : c = m
      · subst hc
        have hget : ((c, (managers c).threads.get (turnAt (hthreads c) k)) ==
            (c, (managers c).threads.get v)) = (turnAt (hthreads c) k == v) := by
          rw [Bool.eq_iff_iff, beq_iff_eq, beq_iff_eq, Prod.mk.injEq,
            (hnodup c).get_inj_iff, eq_self, true_and]
        rw [if_pos rfl, List.map_cons, List.count_cons, hget]
      · have hne : ((c, (managers c).threads.get (turnAt (hthreads c) k)) ==
            (m, (managers m).threads.get v)) = false := by
          rw [beq_eq_false_iff_ne]
          exact fun h => hc (congrArg Prod.fst h)
        rw [if_neg hc, hne, if_neg Bool.false_ne_true, Nat.add_zero]

theorem positionsFrom_append (m : μ) (k : ℕ) (pre post : List μ) :
    positionsFrom m k (pre ++ post) =
      positionsFrom m k pre ++ positionsFrom m (k + pre.length) post := by
  induction pre generalizing k with
  | nil => rfl
  | cons c pre ih =>
      rw [List.cons_append, positionsFrom, positionsFrom, ih, List.length_cons,
        Nat.add_right_comm k 1 pre.length, Nat.add_assoc k]
      split <;> rfl

theorem exists_prefix_positionsFrom (m : μ) (k : ℕ) (calls : List μ) (p : List ℕ)
    (hp : p <+: positionsFrom m k calls) : ∃ pre, pre <+: calls ∧ positionsFrom m k pre = p := by
  induction calls generalizing k p with
  | nil => exact ⟨[], List.prefix_rfl, (List.prefix_nil.mp hp).symm⟩
  | cons c calls ih =>
      rw [positionsFrom] at hp
      split at hp
      · next hc =>
        cases p with
        | nil => exact ⟨[], List.nil_prefix, rfl⟩
        | cons x p =>
            obtain ⟨rfl, hp⟩ := List.cons_prefix_cons.mp hp
            obtain ⟨pre, hpre, rfl⟩ := ih (x + 1) p hp
            refine ⟨c :: pre, List.cons_prefix_cons.mpr ⟨rfl, hpre⟩, ?_⟩
            rw [positionsFrom, if_pos hc]
      · next hc =>
        obtain ⟨pre, hpre, rfl⟩ := ih (k + 1) p hp
        refine ⟨c :: pre, List.cons_prefix_cons.mpr ⟨rfl, hpre⟩, ?_⟩
        rw [positionsFrom, if_neg hc]

theorem forall_prefix_turnsFrom (m : μ) (calls : List μ)
    (P : List (Fin (managers m).threads.length) → Prop) :
    (∀ pre, pre <+: calls → P (turnsFrom hthreads m 0 pre)) ↔
      ∀ p, p <+: turnsFrom hthreads m 0 calls → P p := by
  constructor
  · intro h p hp
    have htake := List.prefix_iff_eq_take.mp hp
    rw [turnsFrom, ← List.map_take] at htake
    obtain ⟨pre, hpre, hpositions⟩ := exists_prefix_positionsFrom m 0 calls _
      (List.take_prefix p.length (positionsFrom m 0 calls))
    rw [htake, ← hpositions]
    exact h pre hpre
  · rintro h pre ⟨post, rfl⟩
    apply h
    rw [turnsFrom, turnsFrom, positionsFrom_append, List.map_append]
    exact List.prefix_append _ _

end Turns

/-! ## The spread -/

/-- In every round of as many calls on the manager as it has threads, no two are made at
positions of the same remainder. -/
def Staggered (managers : μ → ThreadManager ι) (calls : List μ) (m : μ) : Prop :=
  ∀ q, ((((positions m calls).map (· % (managers m).threads.length)).drop
    (q * (managers m).threads.length)).take (managers m).threads.length).Nodup

theorem rounds_turnsFrom_iff {managers : μ → ThreadManager ι}
    (hthreads : ∀ m, (managers m).threads ≠ []) (calls : List μ) (m : μ) :
    EvenSpread.Rounds (turnsFrom hthreads m 0 calls) ↔ Staggered managers calls m := by
  rw [EvenSpread.Rounds, Fintype.card_fin, Staggered]
  refine forall_congr' fun q => ?_
  rw [← List.nodup_map_iff Fin.val_injective, List.map_take, List.map_drop, turnsFrom,
    List.map_map]
  rfl

theorem even_turnsFrom_iff [DecidableEq ι] {managers : μ → ThreadManager ι}
    (hthreads : ∀ m, (managers m).threads ≠ []) (hnodup : ∀ m, (managers m).threads.Nodup)
    (calls : List μ) (hcalls : calls.length ≤ 2 ^ 31) (m : μ) :
    EvenSpread.Even (turnsFrom hthreads m 0 calls) ↔
      ∀ l ∈ (managers m).threads, ∀ l' ∈ (managers m).threads,
        (picks managers 0 calls).count (m, l) ≤ (picks managers 0 calls).count (m, l') + 1 := by
  have hpick := fun v => count_picks hthreads hnodup m v 0 calls (by omega)
  constructor
  · intro h l hl l' hl'
    obtain ⟨v, rfl⟩ := List.get_of_mem hl
    obtain ⟨w, rfl⟩ := List.get_of_mem hl'
    have hvw := h v w
    rwa [← hpick v, ← hpick w] at hvw
  · intro h v w
    rw [← hpick v, ← hpick w]
    exact h _ (List.get_mem _ _) _ (List.get_mem _ _)

theorem even_prefixes_turnsFrom_iff {managers : μ → ThreadManager ι}
    (hthreads : ∀ m, (managers m).threads ≠ []) (calls : List μ) (m : μ) :
    (∀ pre, pre <+: calls → EvenSpread.Even (turnsFrom hthreads m 0 pre)) ↔
      Staggered managers calls m := by
  have : Nonempty (Fin (managers m).threads.length) :=
    ⟨⟨0, List.length_pos_iff.mpr (hthreads m)⟩⟩
  rw [forall_prefix_turnsFrom, EvenSpread.even_prefixes_iff, rounds_turnsFrom_iff]

/-- For managers with threads whose loops are their own, and fewer than `2 ^ 31` calls: at every
point the loops of each manager have been picked equally often up to one if and only if the calls
on every manager are staggered. -/
theorem spread_evenly_iff [DecidableEq ι] (managers : μ → ThreadManager ι)
    (hthreads : ∀ m, (managers m).threads ≠ []) (hnodup : ∀ m, (managers m).threads.Nodup)
    (calls : List μ) (hcalls : calls.length < 2 ^ 31) :
    (∀ pre, pre <+: calls → ∀ m, ∀ l ∈ (managers m).threads, ∀ l' ∈ (managers m).threads,
      (picks managers 0 pre).count (m, l) ≤ (picks managers 0 pre).count (m, l') + 1) ↔
    ∀ m, Staggered managers calls m := by
  have hcount : ∀ pre, pre <+: calls → pre.length ≤ 2 ^ 31 :=
    fun pre hpre => hpre.length_le.trans hcalls.le
  constructor
  · intro h m
    apply (even_prefixes_turnsFrom_iff hthreads calls m).mp
    intro pre hpre
    exact (even_turnsFrom_iff hthreads hnodup pre (hcount pre hpre) m).mpr (h pre hpre m)
  · intro h pre hpre m
    apply (even_turnsFrom_iff hthreads hnodup pre (hcount pre hpre) m).mp
    exact (even_prefixes_turnsFrom_iff hthreads calls m).mpr (h m) pre hpre

def twoManagers (m : Bool) : ThreadManager ℕ :=
  if m then { loop := 0, threads := [1, 2] } else { loop := 10, threads := [11, 12] }

theorem spread_evenly_in_pairs :
    (∀ pre, pre <+: [true, true, false, false] → ∀ m, ∀ l ∈ (twoManagers m).threads,
      ∀ l' ∈ (twoManagers m).threads,
      (picks twoManagers 0 pre).count (m, l) ≤ (picks twoManagers 0 pre).count (m, l') + 1) ↔
    ∀ m, Staggered twoManagers [true, true, false, false] m :=
  spread_evenly_iff twoManagers (by decide) (by decide) [true, true, false, false] (by decide)

theorem alternating_calls_uneven :
    ¬ ∀ pre, pre <+: [true, false, true] → ∀ m, ∀ l ∈ (twoManagers m).threads,
      ∀ l' ∈ (twoManagers m).threads,
      (picks twoManagers 0 pre).count (m, l) ≤ (picks twoManagers 0 pre).count (m, l') + 1 := by
  intro h
  have hfirst := h [true, false, true] List.prefix_rfl true 1 (by decide) 2 (by decide)
  exact absurd hfirst (by decide)

/-! ## One manager -/

theorem positionsFrom_replicate (m : μ) (k n : ℕ) :
    positionsFrom m k (List.replicate n m) = List.range' k n := by
  induction n generalizing k with
  | zero => rfl
  | succ n ih => rw [List.replicate_succ, positionsFrom, if_pos rfl, ih, List.range'_succ]

theorem positionsFrom_of_not_mem {m : μ} {calls : List μ} (hm : m ∉ calls) (k : ℕ) :
    positionsFrom m k calls = [] := by
  induction calls generalizing k with
  | nil => rfl
  | cons c calls ih =>
      have hc : c ≠ m := fun h => hm (h ▸ List.mem_cons_self)
      rw [positionsFrom, if_neg hc]
      exact ih (fun h => hm (List.mem_cons_of_mem c h)) (k + 1)

theorem take_range' (a n s : ℕ) : (List.range' a n).take s = List.range' a (min s n) := by
  rcases Nat.le_total n s with h | h
  · rw [List.take_range'_of_length_le h, Nat.min_eq_right h]
  · rw [List.take_range'_of_length_ge h, Nat.min_eq_left h]

theorem staggered_of_one_manager (managers : μ → ThreadManager ι) (m : μ) (n : ℕ) :
    ∀ m', Staggered managers (List.replicate n m) m' := by
  intro m' q
  by_cases hm : m' = m
  · subst hm
    rw [positions, positionsFrom_replicate, ← List.map_drop, ← List.map_take,
      List.drop_range', take_range', Nat.mul_one, Nat.zero_add]
    refine List.Nodup.map_on (fun x hx y hy hxy => ?_) List.nodup_range'
    rw [List.mem_range'_1] at hx hy
    have hdiv : ∀ z, q * (managers m').threads.length ≤ z →
        z < q * (managers m').threads.length + (managers m').threads.length →
        z / (managers m').threads.length = q := by
      intro z hle hlt
      exact Nat.div_eq_of_lt_le hle (by rwa [Nat.add_one_mul])
    have hxq := hdiv x (by omega) (by omega)
    have hyq := hdiv y (by omega) (by omega)
    rw [← Nat.div_add_mod x (managers m').threads.length,
      ← Nat.div_add_mod y (managers m').threads.length, hxq, hyq, hxy]
  · rw [positions, positionsFrom_of_not_mem fun h => hm (List.eq_of_mem_replicate h)]
    simp

end TinyGameServer.LoopSpread
