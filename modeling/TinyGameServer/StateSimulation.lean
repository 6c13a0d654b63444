import Mathlib.Data.Nat.Notation

/-!
# Simulation between partial stateful programs

A concrete program may carry on after an error that ends the abstract one. `Simulates ok bad abs`
relates the two: from an `ok` state they agree as long as the abstract program is defined, and
where it is not the concrete program is undefined too or ends in a `bad` state. Bad states are
never left. The rules follow the structure of programs, so that one simulation for each primitive
gives a simulation of everything that is written with them.
-/

namespace TinyGameServer

variable {σ τ α β : Type}

structure Simulates (ok bad : σ → Prop) (abs : σ → τ) (p : StateT σ Option α)
    (q : StateT τ Option α) : Prop where
  absorbs : ∀ s a s', bad s → p s = some (a, s') → bad s'
  agrees : ∀ s a t', ok s → q (abs s) = some (a, t') →
    ∃ s', p s = some (a, s') ∧ ok s' ∧ abs s' = t'
  exposes : ∀ s a s', ok s → q (abs s) = none → p s = some (a, s') → bad s'

namespace Simulates

variable {ok bad : σ → Prop} {abs : σ → τ}

theorem bind_apply (p : StateT σ Option α) (k : α → StateT σ Option β) (s : σ) :
    (p >>= k) s = (p s).bind fun r => k r.1 r.2 := rfl

theorem pure (a : α) : Simulates ok bad abs (Pure.pure a) (Pure.pure a) where
  absorbs s b s' hbad h := by
    obtain ⟨-, rfl⟩ := Prod.mk.inj (Option.some.inj h)
    exact hbad
  agrees s b t' hok h := by
    obtain ⟨rfl, rfl⟩ := Prod.mk.inj (Option.some.inj h)
    exact ⟨s, rfl, hok, rfl⟩
  exposes s b s' _ h := by cases h

theorem bind {p : StateT σ Option α} {q : StateT τ Option α} {k : α → StateT σ Option β}
    {l : α → StateT τ Option β} (h : Simulates ok bad abs p q)
    (hk : ∀ a, Simulates ok bad abs (k a) (l a)) :
    Simulates ok bad abs (p >>= k) (q >>= l) where
  absorbs s b s' hbad hs := by
    rw [bind_apply, Option.bind_eq_some_iff] at hs
    obtain ⟨⟨a, s₁⟩, hp, hs⟩ := hs
    exact (hk a).absorbs s₁ b s' (h.absorbs s a s₁ hbad hp) hs
  agrees s b t' hok ht := by
    rw [bind_apply, Option.bind_eq_some_iff] at ht
    obtain ⟨⟨a, t₁⟩, hq, ht⟩ := ht
    obtain ⟨s₁, hp, hok₁, rfl⟩ := h.agrees s a t₁ hok hq
    obtain ⟨s', hs, hok', habs⟩ := (hk a).agrees s₁ b t' hok₁ ht
    exact ⟨s', by rw [bind_apply, hp, Option.bind_some, hs], hok', habs⟩
  exposes s b s' hok ht hs := by
    rw [bind_apply, Option.bind_eq_some_iff] at hs
    obtain ⟨⟨a, s₁⟩, hp, hs⟩ := hs
    cases hq : q (abs s) with
    | none => exact (hk a).absorbs s₁ b s' (h.exposes s a s₁ hok hq hp) hs
    | some r =>
        obtain ⟨a', t₁⟩ := r
        obtain ⟨s₂, hp₂, hok₂, rfl⟩ := h.agrees s a' t₁ hok hq
        obtain ⟨rfl, rfl⟩ := Prod.mk.inj (Option.some.inj (hp.symm.trans hp₂))
        rw [bind_apply, hq, Option.bind_some] at ht
        exact (hk a).exposes s₁ b s' hok₂ ht hs

theorem ite {c : Prop} [Decidable c] {p p' : StateT σ Option α} {q q' : StateT τ Option α}
    (h : Simulates ok bad abs p q) (h' : Simulates ok bad abs p' q') :
    Simulates ok bad abs (if c then p else p') (if c then q else q') := by
  split
  · exact h
  · exact h'

/-- The concrete program ends in an `ok` state exactly where the abstract one is defined. -/
theorem ok_iff_isSome {p : StateT σ Option α} {q : StateT τ Option α}
    (h : Simulates ok bad abs p q) (hdisjoint : ∀ s, bad s → ¬ ok s) {s : σ} (hok : ok s) :
    (∃ a s', p s = some (a, s') ∧ ok s') ↔ (q (abs s)).isSome := by
  cases hq : q (abs s) with
  | none =>
      refine iff_of_false ?_ (by simp)
      rintro ⟨a, s', hp, hok'⟩
      exact hdisjoint s' (h.exposes s a s' hok hq hp) hok'
  | some r =>
      obtain ⟨s', hp, hok', -⟩ := h.agrees s r.1 r.2 hok hq
      exact iff_of_true ⟨r.1, s', hp, hok'⟩ rfl

end Simulates
end TinyGameServer
