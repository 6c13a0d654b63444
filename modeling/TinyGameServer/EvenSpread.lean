import Mathlib.Data.Fintype.Card

/-!
# Even spreads

A list of choices from a finite type is even if no two elements differ by more than one in how
often they were chosen. All prefixes of a list are even exactly when the list consists of rounds,
blocks as long as the type has elements, in none of which an element comes twice.
-/

namespace TinyGameServer.EvenSpread

variable {α : Type} [DecidableEq α]

def Even (l : List α) : Prop := ∀ a b, l.count a ≤ l.count b + 1

variable [Fintype α] {l : List α}

/-- As long as there is an element left for each choice, an even spread repeats none. -/
theorem even_iff_nodup (hlen : l.length ≤ Fintype.card α) : Even l ↔ l.Nodup := by
  constructor
  · intro heven
    by_contra hdup
    have hshort : l.toFinset.card < Fintype.card α := by
      refine lt_of_lt_of_le ?_ hlen
      rw [List.card_toFinset]
      refine lt_of_le_of_ne l.dedup_sublist.length_le fun heq => hdup ?_
      rw [← l.dedup_sublist.eq_of_length heq]
      exact l.nodup_dedup
    obtain ⟨b, hb⟩ : ∃ b, b ∉ l.toFinset := by
      by_contra hall
      have huniv : l.toFinset = Finset.univ :=
        Finset.eq_univ_of_forall fun b => not_not.mp fun hb => hall ⟨b, hb⟩
      rw [huniv, Finset.card_univ] at hshort
      exact lt_irrefl _ hshort
    have hzero : l.count b = 0 := List.count_eq_zero_of_not_mem (mt List.mem_toFinset.mpr hb)
    apply hdup
    rw [List.nodup_iff_count_le_one]
    intro a
    have h := heven a b
    omega
  · intro hnodup a b
    have h := List.nodup_iff_count_le_one.mp hnodup a
    omega

theorem count_of_round (hlen : l.length = Fintype.card α) (hnodup : l.Nodup) (a : α) :
    l.count a = 1 := by
  apply List.count_eq_one_of_mem hnodup
  have huniv : l.toFinset = Finset.univ := by
    apply (Finset.card_eq_iff_eq_univ _).mp
    rw [List.toFinset_card_of_nodup hnodup, hlen]
  rw [← List.mem_toFinset, huniv]
  exact Finset.mem_univ a

theorem even_append_iff {round : List α} (hlen : round.length = Fintype.card α)
    (hnodup : round.Nodup) (p : List α) : Even (round ++ p) ↔ Even p := by
  simp only [Even, List.count_append, count_of_round hlen hnodup, Nat.add_assoc,
    Nat.add_le_add_iff_left]

/-- The blocks of the list that are as long as the type has elements, from the front. -/
def Rounds (l : List α) : Prop :=
  ∀ q, ((l.drop (q * Fintype.card α)).take (Fintype.card α)).Nodup

omit [DecidableEq α] in
theorem rounds_of_short (hlen : l.length ≤ Fintype.card α) : Rounds l ↔ l.Nodup := by
  constructor
  · intro h
    have hfirst := h 0
    rwa [Nat.zero_mul, List.drop_zero, List.take_of_length_le hlen] at hfirst
  · intro hnodup q
    exact hnodup.sublist ((List.take_sublist _ _).trans (List.drop_sublist _ _))

omit [DecidableEq α] in
theorem rounds_iff (l : List α) :
    Rounds l ↔ (l.take (Fintype.card α)).Nodup ∧ Rounds (l.drop (Fintype.card α)) := by
  have hnext : ∀ q, l.drop ((q + 1) * Fintype.card α) =
      (l.drop (Fintype.card α)).drop (q * Fintype.card α) := by
    intro q
    rw [List.drop_drop, Nat.add_mul, Nat.one_mul, Nat.add_comm]
  constructor
  · intro h
    have hfirst := h 0
    rw [Nat.zero_mul, List.drop_zero] at hfirst
    exact ⟨hfirst, fun q => hnext q ▸ h (q + 1)⟩
  · rintro ⟨hfirst, hrest⟩ q
    cases q with
    | zero => rwa [Nat.zero_mul, List.drop_zero]
    | succ q => exact hnext q ▸ hrest q

theorem even_prefixes_iff_of_short (hlen : l.length ≤ Fintype.card α) :
    (∀ p, p <+: l → Even p) ↔ l.Nodup := by
  constructor
  · intro h
    exact (even_iff_nodup hlen).mp (h l List.prefix_rfl)
  · intro hnodup p hp
    exact (even_iff_nodup (hp.length_le.trans hlen)).mpr (hnodup.sublist hp.sublist)

theorem even_prefixes_iff_of_long (hlen : Fintype.card α ≤ l.length) :
    (∀ p, p <+: l → Even p) ↔
      (l.take (Fintype.card α)).Nodup ∧ ∀ p, p <+: l.drop (Fintype.card α) → Even p := by
  have hround : (l.take (Fintype.card α)).length = Fintype.card α := by
    rw [List.length_take, Nat.min_eq_left hlen]
  constructor
  · intro h
    have hnodup := (even_iff_nodup hround.le).mp (h _ (List.take_prefix _ _))
    refine ⟨hnodup, fun p hp => (even_append_iff hround hnodup p).mp (h _ ?_)⟩
    obtain ⟨rest, hrest⟩ := hp
    exact ⟨rest, by rw [List.append_assoc, hrest, List.take_append_drop]⟩
  · rintro ⟨hnodup, h⟩ p hp
    rcases List.prefix_or_prefix_of_prefix hp (List.take_prefix (Fintype.card α) l) with
      hfirst | ⟨p', rfl⟩
    · exact (even_prefixes_iff_of_short hround.le).mpr hnodup p hfirst
    · apply (even_append_iff hround hnodup p').mpr
      apply h
      have hrest : l.take (Fintype.card α) ++ p' <+:
          l.take (Fintype.card α) ++ l.drop (Fintype.card α) := by
        rwa [List.take_append_drop]
      exact (List.prefix_append_right_inj _).mp hrest

/-- All prefixes are even if and only if no round repeats an element. -/
theorem even_prefixes_iff [Nonempty α] (l : List α) : (∀ p, p <+: l → Even p) ↔ Rounds l := by
  by_cases hlen : l.length ≤ Fintype.card α
  · rw [even_prefixes_iff_of_short hlen, rounds_of_short hlen]
  · have hpos : 0 < Fintype.card α := Fintype.card_pos
    rw [even_prefixes_iff_of_long (Nat.le_of_not_le hlen), rounds_iff,
      even_prefixes_iff (l.drop (Fintype.card α))]
termination_by l.length
decreasing_by
  rw [List.length_drop]
  omega

end TinyGameServer.EvenSpread
