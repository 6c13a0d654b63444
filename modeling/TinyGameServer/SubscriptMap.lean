import Mathlib.Logic.Function.Basic

/-!
# Maps of smart pointers with a subscript operator

`std::unordered_map` with pointer values: a key may be absent, or present with the null pointer.
Reading through the subscript operator inserts the null pointer at an absent key. `Exactly` says
that the entries are the pairs of a given relation and that none of them is null.
-/

namespace TinyGameServer

structure SubscriptMap (κ ν : Type) where
  entry : κ → Option (Option ν)

namespace SubscriptMap

variable {κ ν : Type}

def empty : SubscriptMap κ ν := ⟨fun _ => none⟩

def Exactly (m : SubscriptMap κ ν) (R : κ → ν → Prop) : Prop :=
  ∀ k v, m.entry k = some v ↔ ∃ x, v = some x ∧ R k x

variable [DecidableEq κ]

/-- `m[k] = v` -/
def assign (m : SubscriptMap κ ν) (k : κ) (v : ν) : SubscriptMap κ ν :=
  ⟨Function.update m.entry k (some (some v))⟩

/-- `m[k]` -/
def subscript (m : SubscriptMap κ ν) (k : κ) : Option ν × SubscriptMap κ ν :=
  match m.entry k with
  | some v => (v, m)
  | none => (none, ⟨Function.update m.entry k (some none)⟩)

def erase (m : SubscriptMap κ ν) (k : κ) : SubscriptMap κ ν := ⟨Function.update m.entry k none⟩

variable {m : SubscriptMap κ ν} {R R' : κ → ν → Prop} {k : κ} {x : ν}

theorem entry_assign (m : SubscriptMap κ ν) (k k' : κ) (x : ν) :
    (m.assign k x).entry k' = if k' = k then some (some x) else m.entry k' :=
  Function.update_apply ..

/-- Access through the subscript operator inserts null pointers only. -/
theorem entry_of_subscript {k' : κ} (h : (m.subscript k').2.entry k = some (some x)) :
    m.entry k = some (some x) := by
  rw [subscript] at h
  split at h
  · exact h
  · by_cases hk : k = k'
    · subst hk
      simp only [Function.update_self] at h
      cases h
    · simpa only [Function.update_of_ne hk] using h

theorem entry_of_erase {k' : κ} (h : (m.erase k').entry k = some (some x)) :
    m.entry k = some (some x) := by
  by_cases hk : k = k'
  · subst hk
    simp only [erase, Function.update_self] at h
    cases h
  · simpa only [erase, Function.update_of_ne hk] using h

omit [DecidableEq κ] in
theorem exactly_empty (hR : ∀ k x, ¬ R k x) : (empty : SubscriptMap κ ν).Exactly R := by
  intro k v
  refine iff_of_false (fun h => by cases h) ?_
  rintro ⟨x, -, hx⟩
  exact hR k x hx

omit [DecidableEq κ] in
theorem Exactly.unique (h : m.Exactly R) {y : ν} (hx : R k x) (hy : R k y) : x = y := by
  have hkx := (h k (some x)).mpr ⟨x, rfl, hx⟩
  have hky := (h k (some y)).mpr ⟨y, rfl, hy⟩
  exact Option.some.inj (Option.some.inj (hkx.symm.trans hky))

omit [DecidableEq κ] in
theorem Exactly.congr (h : m.Exactly R) (hR : ∀ k x, R k x ↔ R' k x) : m.Exactly R' := by
  intro k v
  rw [h k v]
  exact exists_congr fun x => and_congr_right fun _ => hR k x

theorem Exactly.assign (h : m.Exactly R) (hnew : ∀ y, R' k y ↔ y = x)
    (hold : ∀ k' y, k' ≠ k → (R' k' y ↔ R k' y)) : (m.assign k x).Exactly R' := by
  intro k' v
  by_cases hk : k' = k
  · subst hk
    simp only [SubscriptMap.assign, Function.update_self]
    constructor
    · intro hv
      exact ⟨x, (Option.some.inj hv).symm, (hnew x).mpr rfl⟩
    · rintro ⟨y, rfl, hy⟩
      rw [(hnew y).mp hy]
  · simp only [SubscriptMap.assign, Function.update_of_ne hk, h k' v]
    exact exists_congr fun y => and_congr_right fun _ => (hold k' y hk).symm

theorem Exactly.erase (h : m.Exactly R) (hgone : ∀ y, ¬ R' k y)
    (hold : ∀ k' y, k' ≠ k → (R' k' y ↔ R k' y)) : (m.erase k).Exactly R' := by
  intro k' v
  by_cases hk : k' = k
  · subst hk
    simp only [SubscriptMap.erase, Function.update_self]
    refine iff_of_false (fun hv => by cases hv) ?_
    rintro ⟨y, -, hy⟩
    exact hgone y hy
  · simp only [SubscriptMap.erase, Function.update_of_ne hk, h k' v]
    exact exists_congr fun y => and_congr_right fun _ => (hold k' y hk).symm

theorem Exactly.subscript_of_rel (h : m.Exactly R) (hx : R k x) :
    m.subscript k = (some x, m) := by
  have hk := (h k (some x)).mpr ⟨x, rfl, hx⟩
  rw [subscript, hk]

theorem Exactly.subscript_ne (h : m.Exactly R) (hk : ∀ x, ¬ R k x) :
    (m.subscript k).2 ≠ m := by
  have hnone : m.entry k = none := by
    cases hv : m.entry k with
    | none => rfl
    | some v =>
        obtain ⟨x, -, hx⟩ := (h k v).mp hv
        exact absurd hx (hk x)
  intro heq
  have hval := congrArg (SubscriptMap.entry · k) heq
  simp only [subscript, hnone, Function.update_self] at hval
  cases hval

/-! ## Without null pointers -/

omit [DecidableEq κ] in
def compact (m : SubscriptMap κ ν) : SubscriptMap κ ν :=
  ⟨fun k => (m.entry k).bind fun v => v.map some⟩

omit [DecidableEq κ] in
theorem entry_compact : m.compact.entry k = some (some x) ↔ m.entry k = some (some x) := by
  cases h : m.entry k with
  | none => simp [compact, h]
  | some v => cases v <;> simp [compact, h]

theorem compact_assign (m : SubscriptMap κ ν) (k : κ) (x : ν) :
    (m.assign k x).compact = m.compact.assign k x := by
  simp only [compact, assign, SubscriptMap.mk.injEq]
  funext k'
  by_cases hk : k' = k
  · simp [hk]
  · simp [hk]

theorem compact_erase (m : SubscriptMap κ ν) (k : κ) :
    (m.erase k).compact = m.compact.erase k := by
  simp only [compact, erase, SubscriptMap.mk.injEq]
  funext k'
  by_cases hk : k' = k
  · simp [hk]
  · simp [hk]

/-- Looking up inserts nothing but a null pointer. -/
theorem compact_subscript (m : SubscriptMap κ ν) (k : κ) :
    (m.subscript k).2.compact = m.compact := by
  rw [subscript]
  split
  · rfl
  · next hk =>
    simp only [compact, SubscriptMap.mk.injEq]
    funext k'
    by_cases hk' : k' = k
    · simp [hk', hk]
    · simp [hk']

theorem subscript_eq_some (h : (m.subscript k).1 = some x) : m.subscript k = (some x, m) := by
  rw [subscript] at h ⊢
  split at h
  · exact congrArg (·, m) h
  · cases h

theorem entry_of_subscript_some (h : (m.subscript k).1 = some x) :
    m.entry k = some (some x) := by
  rw [subscript] at h
  split at h
  · next hk =>
    rw [hk]
    exact congrArg some h
  · cases h

theorem subscript_of_entry (h : m.entry k = some (some x)) : m.subscript k = (some x, m) := by
  rw [subscript, h]

end SubscriptMap
end TinyGameServer
