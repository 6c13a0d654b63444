import Mathlib.Data.List.Induction
import TinyGameServer.SerialIds

/-!
# The capacity of the serial ids

One thread calls `GenerateSerialID` again and again, with readings of the clock that never run
back. A second has room for 1000 ids: the next one is the first id of a second whose local time,
written as a number, is one more. The slot in between, a number of zero, is never used.
-/

namespace TinyGameServer.UID

variable (localtime : ℤ → Tm)

/-- The ids of calls at these readings of the clock. -/
def serialIDs : UID → List ℤ → List Int64
  | _, [] => []
  | u, current :: readings =>
    let (id, u) := u.generateSerialID localtime current
    id :: serialIDs u readings

def after (u : UID) (readings : List ℤ) : UID :=
  readings.foldl (fun u current => (u.generateSerialID localtime current).2) u

theorem length_serialIDs (u : UID) (readings : List ℤ) :
    (serialIDs localtime u readings).length = readings.length := by
  induction readings generalizing u with
  | nil => rfl
  | cons current readings ih => simp [serialIDs, ih]

theorem serialIDs_append (u : UID) (readings later : List ℤ) :
    serialIDs localtime u (readings ++ later) =
      serialIDs localtime u readings ++ serialIDs localtime (after localtime u readings) later := by
  induction readings generalizing u with
  | nil => rfl
  | cons current readings ih => simp [serialIDs, after, ih]

theorem after_concat (u : UID) (readings : List ℤ) (current : ℤ) :
    after localtime u (readings ++ [current]) =
      ⟨current, (after localtime u readings).nextSerial current⟩ := by
  simp [after, generateSerialID_snd]

/-- The number of a call counts the calls of its second. Those of an earlier second are over for
good, because the clock does not run back. -/
theorem nextSerial_after (time : ℤ) {readings : List ℤ} {current : ℤ}
    (hclock : (readings ++ [current]).Pairwise (· ≤ ·)) :
    (after localtime ⟨time, 0⟩ readings).nextSerial current =
      Int32.ofNat (readings.count current + 1) := by
  induction readings using List.reverseRecOn generalizing current with
  | nil =>
      change (if current = time then (0 : Int32) + 1 else 1) = 1
      simp
  | append_singleton readings last ih =>
      obtain ⟨hbefore, -, hlast⟩ := List.pairwise_append.mp hclock
      rw [after_concat, nextSerial]
      by_cases hcurrent : current = last
      · subst hcurrent
        rw [if_pos rfl, ih hbefore, List.count_append, List.count_singleton_self,
          Int32.ofNat_add (_ + 1)]
        rfl
      · have hnone : (readings ++ [last]).count current = 0 := by
          apply List.count_eq_zero_of_not_mem
          intro hmem
          have hle := hlast last List.mem_concat_self current (List.mem_singleton_self _)
          rcases List.mem_append.mp hmem with hmem | hmem
          · have hge := (List.pairwise_append.mp hbefore).2.2 current hmem last
              (List.mem_singleton_self _)
            omega
          · exact hcurrent (List.mem_singleton.mp hmem)
        rw [if_neg hcurrent, hnone]
        rfl

/-- The id of the call that reads `current`, the `k`-th one of its second. -/
theorem serialIDs_getElem? (time : ℤ) {readings : List ℤ} (hclock : readings.Pairwise (· ≤ ·))
    {i : ℕ} {current : ℤ} (hi : readings[i]? = some current) :
    ∃ id, (serialIDs localtime ⟨time, 0⟩ readings)[i]? = some id ∧
      id.toInt = 1000 * (localtime current).stamp +
        (Int32.ofNat ((readings.take i).count current + 1)).toInt := by
  obtain ⟨hlt, rfl⟩ := List.getElem?_eq_some_iff.mp hi
  have hsplit : readings.take i ++ readings[i] :: readings.drop (i + 1) = readings := by
    rw [← List.drop_eq_getElem_cons, List.take_append_drop]
  have hlength : (serialIDs localtime ⟨time, 0⟩ (readings.take i)).length = i := by
    rw [length_serialIDs, List.length_take, Nat.min_eq_left hlt.le]
  have hupto : (readings.take i ++ [readings[i]]).Pairwise (· ≤ ·) := by
    rw [← List.take_succ_eq_append_getElem hlt]
    exact hclock.sublist (List.take_sublist _ _)
  refine ⟨((after localtime ⟨time, 0⟩ (readings.take i)).generateSerialID localtime
    readings[i]).1, ?_, ?_⟩
  · conv_lhs => rw [← hsplit]
    rw [serialIDs_append, List.getElem?_append_right hlength.le, hlength, Nat.sub_self]
    rfl
  · rw [toInt_generateSerialID, nextSerial_after localtime time hupto]

/-! ## Positions in a second -/

theorem count_take_lt {readings : List ℤ} {i : ℕ} {current : ℤ} (hi : readings[i]? = some current) :
    (readings.take i).count current < readings.count current := by
  obtain ⟨hlt, rfl⟩ := List.getElem?_eq_some_iff.mp hi
  have htake : (readings.take (i + 1)).count readings[i] ≤ readings.count readings[i] :=
    (List.take_sublist _ _).count_le _
  rwa [List.take_succ_eq_append_getElem hlt, List.count_append, List.count_singleton_self] at htake

theorem exists_count_take_eq {readings : List ℤ} {current : ℤ} {n : ℕ}
    (hn : n < readings.count current) :
    ∃ i, readings[i]? = some current ∧ (readings.take i).count current = n := by
  induction readings generalizing n with
  | nil => simp at hn
  | cons first readings ih =>
      by_cases hfirst : first = current
      · subst hfirst
        cases n with
        | zero => exact ⟨0, rfl, rfl⟩
        | succ n =>
            rw [List.count_cons_self] at hn
            obtain ⟨i, hi, hcount⟩ := ih (Nat.lt_of_succ_lt_succ hn)
            exact ⟨i + 1, hi, by rw [List.take_succ_cons, List.count_cons_self, hcount]⟩
      · rw [List.count_cons_of_ne hfirst] at hn
        obtain ⟨i, hi, hcount⟩ := ih hn
        exact ⟨i + 1, hi, by rw [List.take_succ_cons, List.count_cons_of_ne hfirst, hcount]⟩

theorem le_of_getElem? {readings : List ℤ} (hclock : readings.Pairwise (· ≤ ·)) {i j : ℕ}
    {t t' : ℤ} (hi : readings[i]? = some t) (hj : readings[j]? = some t') (hij : i ≤ j) :
    t ≤ t' := by
  obtain ⟨hilt, rfl⟩ := List.getElem?_eq_some_iff.mp hi
  obtain ⟨hjlt, rfl⟩ := List.getElem?_eq_some_iff.mp hj
  rcases Nat.eq_or_lt_of_le hij with rfl | hlt
  · exact Int.le_refl _
  · exact List.pairwise_iff_getElem.mp hclock i j hilt hjlt hlt

/-! ## The capacity of a second -/

variable {localtime}

/-- A calendar that goes forward from each reading to the later ones. -/
def Increasing (localtime : ℤ → Tm) (readings : List ℤ) : Prop :=
  ∀ t ∈ readings, ∀ t' ∈ readings, t < t' → (localtime t).Earlier (localtime t')

theorem serialIDs_increase (time : ℤ) {readings : List ℤ} (hclock : readings.Pairwise (· ≤ ·))
    (hzone : Increasing localtime readings) (hcount : ∀ t, readings.count t ≤ 1000) :
    (serialIDs localtime ⟨time, 0⟩ readings).Pairwise (· < ·) := by
  rw [List.pairwise_iff_getElem]
  intro i j hi hj hij
  have hi' := hi
  have hj' := hj
  rw [length_serialIDs] at hi' hj'
  have hti := List.getElem?_eq_getElem hi'
  have htj := List.getElem?_eq_getElem hj'
  obtain ⟨id, hid, hvalue⟩ := serialIDs_getElem? localtime time hclock hti
  obtain ⟨id', hid', hvalue'⟩ := serialIDs_getElem? localtime time hclock htj
  rw [(List.getElem?_eq_some_iff.mp hid).2, (List.getElem?_eq_some_iff.mp hid').2,
    Int64.lt_iff_toInt_lt, hvalue, hvalue']
  have hnumber := Nat.lt_of_lt_of_le (count_take_lt hti) (hcount _)
  have hnumber' := Nat.lt_of_lt_of_le (count_take_lt htj) (hcount _)
  rw [Int32.toInt_ofNat_of_lt (by omega), Int32.toInt_ofNat_of_lt (by omega)]
  rcases Int.lt_or_eq_of_le (le_of_getElem? hclock hti htj hij.le) with hlt | heq
  · have hstamp := (hzone _ (List.getElem_mem hi') _ (List.getElem_mem hj') hlt).stamp_lt
    omega
  · -- the later call of the same second has the greater number
    have hmore : (readings.take i).count readings[j] < (readings.take j).count readings[j] := by
      have hin : (readings.take j)[i]? = some readings[j] := by
        rw [List.getElem?_take_of_lt hij, hti, heq]
      have hlt := count_take_lt hin
      rwa [List.take_take, Nat.min_eq_left hij.le] at hlt
    rw [heq]
    omega

/-- The call after 1000 others of its second and the first one of the next second. -/
theorem serialIDs_repeat (time : ℤ) {readings : List ℤ} (hclock : readings.Pairwise (· ≤ ·))
    {i : ℕ} {t t' : ℤ} (ht : readings[i]? = some t) (ht' : readings[i + 1]? = some t')
    (hcount : 1001 ≤ readings.count t)
    (hstamp : (localtime t').stamp = (localtime t).stamp + 1) :
    ∃ (j k : ℕ) (id : Int64), j < k ∧ (serialIDs localtime ⟨time, 0⟩ readings)[j]? = some id ∧
      (serialIDs localtime ⟨time, 0⟩ readings)[k]? = some id := by
  have hlt : t < t' := by
    have hle := le_of_getElem? hclock ht ht' (Nat.le_succ i)
    have hne : t ≠ t' := by
      intro heq
      rw [heq] at hstamp
      omega
    omega
  obtain ⟨j, hj, hthousand⟩ := exists_count_take_eq hcount
  have hji : j < i + 1 := by
    by_contra hij
    have hle := le_of_getElem? hclock ht' hj (Nat.le_of_not_lt hij)
    omega
  have hfirst : (readings.take (i + 1)).count t' = 0 := by
    apply List.count_eq_zero_of_not_mem
    intro hmem
    obtain ⟨l, hl, hget⟩ := List.mem_take_iff_getElem.mp hmem
    have hle := le_of_getElem? hclock (List.getElem?_eq_some_iff.mpr ⟨_, hget⟩) ht (by omega)
    omega
  obtain ⟨id, hid, hvalue⟩ := serialIDs_getElem? localtime time hclock hj
  obtain ⟨id', hid', hvalue'⟩ := serialIDs_getElem? localtime time hclock ht'
  have hsame : id = id' := by
    apply Int64.toInt.inj
    have hone : (Int32.ofNat (0 + 1)).toInt = 1 := rfl
    have hover : (Int32.ofNat (1000 + 1)).toInt = 1001 := rfl
    rw [hvalue, hvalue', hthousand, hfirst, hstamp, hone, hover]
    omega
  exact ⟨j, i + 1, id, hji, hid, hsame ▸ hid'⟩

/-- Over all calls with readings that never run back, in a time zone whose local times go forward
with them: while no second has more than 1000 calls the ids increase, and when a second with more
is followed by a call in a second whose stamp is one more, two calls get the same id. -/
theorem serial_capacity (localtime : ℤ → Tm) (time : ℤ) (readings : List ℤ)
    (hclock : readings.Pairwise (· ≤ ·)) (hzone : Increasing localtime readings) :
    ((∀ t, readings.count t ≤ 1000) →
      (serialIDs localtime ⟨time, 0⟩ readings).Pairwise (· < ·)) ∧
    ∀ (i : ℕ) (t t' : ℤ), readings[i]? = some t → readings[i + 1]? = some t' →
      1001 ≤ readings.count t → (localtime t').stamp = (localtime t).stamp + 1 →
      ∃ (j k : ℕ) (id : Int64), j < k ∧ (serialIDs localtime ⟨time, 0⟩ readings)[j]? = some id ∧
        (serialIDs localtime ⟨time, 0⟩ readings)[k]? = some id :=
  ⟨serialIDs_increase time hclock hzone,
    fun _ _ _ ht ht' hcount hstamp => serialIDs_repeat time hclock ht ht' hcount hstamp⟩

def burst (n : ℕ) : List ℤ := List.replicate n 1614427200 ++ [1614427201]

theorem burst_clock (n : ℕ) : (burst n).Pairwise (· ≤ ·) := by
  rw [burst, List.pairwise_append]
  refine ⟨List.pairwise_replicate.mpr (.inr (Int.le_refl _)), List.pairwise_singleton _ _, ?_⟩
  intro t ht t' ht'
  rw [List.eq_of_mem_replicate ht, List.mem_singleton.mp ht']
  decide

theorem burst_zone (n : ℕ) : Increasing SerialIds.oneMinute (burst n) := by
  have hmem : ∀ t ∈ burst n, t = 1614427200 ∨ t = 1614427201 := by
    intro t ht
    rcases List.mem_append.mp ht with ht | ht
    · exact .inl (List.eq_of_mem_replicate ht)
    · exact .inr (List.mem_singleton.mp ht)
  intro t ht t' ht' hlt
  rcases hmem t ht with rfl | rfl <;> rcases hmem t' ht' with rfl | rfl
  · exact absurd hlt (Int.lt_irrefl _)
  · decide
  · exact absurd hlt (by decide)
  · exact absurd hlt (Int.lt_irrefl _)

theorem burst_last (n : ℕ) : (burst (n + 1))[n]? = some 1614427200 ∧
    (burst (n + 1))[n + 1]? = some 1614427201 := by
  constructor
  · rw [burst, List.getElem?_append_left (by rw [List.length_replicate]; exact Nat.lt_succ_self n),
      List.getElem?_replicate, if_pos (Nat.lt_succ_self n)]
  · rw [burst, List.getElem?_append_right List.length_replicate.le, List.length_replicate,
      Nat.sub_self]
    rfl

theorem count_burst (n : ℕ) : (burst n).count 1614427200 = n := by
  rw [burst, List.count_append, List.count_replicate_self]
  rfl

/-- Two calls in one second and one in the next, and a burst of 1001 calls. -/
theorem serial_capacity_at_noon :
    (serialIDs SerialIds.oneMinute ⟨1614427200, 0⟩ (burst 2)).Pairwise (· < ·) ∧
    ∃ (j k : ℕ) (id : Int64), j < k ∧
      (serialIDs SerialIds.oneMinute ⟨1614427200, 0⟩ (burst 1001))[j]? = some id ∧
      (serialIDs SerialIds.oneMinute ⟨1614427200, 0⟩ (burst 1001))[k]? = some id := by
  constructor
  · refine (serial_capacity SerialIds.oneMinute 1614427200 (burst 2) (burst_clock 2)
      (burst_zone 2)).1 fun t => ?_
    exact List.count_le_length.trans (by decide)
  · exact (serial_capacity SerialIds.oneMinute 1614427200 (burst 1001) (burst_clock 1001)
      (burst_zone 1001)).2 1000 1614427200 1614427201 (burst_last 1000).1 (burst_last 1000).2
      (count_burst 1001).ge (by decide)

end TinyGameServer.UID
