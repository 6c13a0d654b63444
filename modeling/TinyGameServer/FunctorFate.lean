import Mathlib.Algebra.BigOperators.Group.Finset.Piecewise
import Mathlib.Algebra.Order.Group.Multiset
import Mathlib.Data.Fintype.Basic
import Mathlib.Tactic.Abel
import TinyGameServer.LoopThreads

/-!
# What becomes of the functors

Whichever threads stop the loop, and whenever: what `AsyncCall` has accepted is pending, in the
hands of one thread, or executed, and nothing is there twice. Once the loop has been left and its
threads are out of its code, nothing is executed any more and what comes later stays pending.
-/

namespace TinyGameServer.LoopThreads

variable {π φ : Type}

/-- The functors that the calls of one thread have taken over and not finished. -/
def held : List (Frame φ) → List φ
  | [] => []
  | .batch rest :: below => rest ++ held below
  | .functor f :: below => f :: held below
  | _ :: below => held below

def Action.accepted : Action π φ → List φ
  | .asyncCall _ f => [f]
  | _ => []

/-- No thread is in the code of the loop, but for sends that nobody receives. -/
structure Over (s : LoopThreads π φ) : Prop where
  left : s.left = true
  stopped : s.status = .Stopped
  stack : ∀ p, s.stack p = [] ∨ s.stack p = [.asyncCall]

variable [DecidableEq π] {owner : π} {room : ℕ} {s s' : LoopThreads π φ}

section Conservation

variable [Fintype π]

def total (s : LoopThreads π φ) : Multiset φ :=
  (s.executed.map Prod.snd : Multiset φ) + ∑ p, (held (s.stack p) : Multiset φ) +
    (s.pendingFunctors : Multiset φ)

theorem total_of_enter {p : π} {frames : List (Frame φ)}
    (hstack : s'.stack = Function.update s.stack p frames) {extra : Multiset φ}
    (h : (s'.executed.map Prod.snd : Multiset φ) + (held frames : Multiset φ) +
        (s'.pendingFunctors : Multiset φ) =
      (s.executed.map Prod.snd : Multiset φ) + (held (s.stack p) : Multiset φ) +
        (s.pendingFunctors : Multiset φ) + extra) : s'.total = s.total + extra := by
  have hold : ∑ q, (held (s.stack q) : Multiset φ) =
      (held (s.stack p) : Multiset φ) + ∑ q ∈ Finset.univ \ {p}, (held (s.stack q) : Multiset φ) :=
    Finset.sum_eq_add_sum_sdiff_singleton_of_mem (Finset.mem_univ p) _
  have hnew : ∑ q, (held (s'.stack q) : Multiset φ) =
      (held frames : Multiset φ) + ∑ q ∈ Finset.univ \ {p}, (held (s.stack q) : Multiset φ) := by
    rw [Finset.sum_eq_add_sum_sdiff_singleton_of_mem (Finset.mem_univ p), hstack,
      Function.update_self]
    congr 1
    apply Finset.sum_congr rfl
    intro q hq
    have hne : q ≠ p := fun h => (Finset.mem_sdiff.mp hq).2 (Finset.mem_singleton.mpr h)
    rw [Function.update_of_ne hne]
  calc s'.total
      = (s'.executed.map Prod.snd : Multiset φ) + (held frames : Multiset φ) +
          (s'.pendingFunctors : Multiset φ) +
          ∑ q ∈ Finset.univ \ {p}, (held (s.stack q) : Multiset φ) := by
        rw [total, hnew]
        abel
    _ = s.total + extra := by
        rw [h, total, hold]
        abel

theorem step_total {a : Action π φ} (hs' : step owner room s a = some s') :
    s'.total = s.total + (a.accepted : Multiset φ) := by
  cases a with
  | asyncCall p f =>
      rw [step] at hs'
      split_ifs at hs'
      cases hs'
      apply total_of_enter rfl
      simp [held, enter, Action.accepted, ← Multiset.coe_add, add_assoc]
  | notify p =>
      rw [step] at hs'
      split at hs' <;> cases hs'
      rename_i below hstack
      apply total_of_enter rfl
      simp [held, hstack, enter, Action.accepted]
  | wake =>
      rw [step] at hs'
      split_ifs at hs' with hguard
      cases hs'
      apply total_of_enter rfl
      simp [held, hguard.1, enter, Action.accepted]
  | recv =>
      rw [step] at hs'
      split at hs'
      · rename_i below hstack
        split_ifs at hs' <;> cases hs'
        · exact (add_zero s.total).symm
        · apply total_of_enter rfl
          simp [held, hstack, enter, Action.accepted]
      · cases hs'
  | swap p =>
      rw [step] at hs'
      split at hs' <;> cases hs'
      rename_i below hstack
      apply total_of_enter rfl
      simp only [held, hstack, enter, Action.accepted, ← Multiset.coe_add, Multiset.coe_nil]
      abel
  | call p =>
      rw [step] at hs'
      split at hs' <;> cases hs'
      rename_i f rest below hstack
      apply total_of_enter rfl
      simp [held, hstack, enter, Action.accepted]
  | ret p =>
      rw [step] at hs'
      split at hs' <;> cases hs'
      rename_i f below hstack
      apply total_of_enter rfl
      simp only [held, hstack, enter, Action.accepted, List.map_append, List.map_singleton,
        ← Multiset.coe_add, ← Multiset.cons_coe, ← Multiset.singleton_add, Multiset.coe_nil]
      abel
  | endBatch p =>
      rw [step] at hs'
      split at hs' <;> cases hs'
      rename_i below hstack
      apply total_of_enter rfl
      simp [held, hstack, enter, Action.accepted]
  | stop p =>
      rw [step] at hs'
      split_ifs at hs' <;> cases hs'
      · apply total_of_enter rfl
        simp [held, enter, Action.accepted]
      · exact (add_zero s.total).symm
  | setStopped p =>
      rw [step] at hs'
      split at hs' <;> cases hs'
      rename_i below hstack
      apply total_of_enter rfl
      simp [held, hstack, enter, Action.accepted]
  | testPending p =>
      rw [step] at hs'
      split at hs'
      · rename_i exited below hstack
        split at hs' <;> cases hs'
        · apply total_of_enter rfl
          simp [held, enter, Action.accepted]
        · apply total_of_enter rfl
          simp [held, hstack, enter, Action.accepted]
        · apply total_of_enter rfl
          simp [held, hstack, enter, Action.accepted]
      · cases hs'
  | leave =>
      rw [step] at hs'
      split_ifs at hs'
      obtain rfl := Option.some.inj hs'
      exact (add_zero _).symm

theorem run_total {acts : List (Action π φ)} (h : run (step owner room) s acts = some s') :
    s'.total = s.total + (acts.flatMap Action.accepted : Multiset φ) := by
  induction acts generalizing s with
  | nil =>
      cases h
      exact (add_zero _).symm
  | cons a acts ih =>
      obtain ⟨s₁, hs₁, hrun⟩ := run_cons_eq_some h
      rw [ih hrun, step_total hs₁, List.flatMap_cons, ← Multiset.coe_add, add_assoc]

end Conservation

/-! ## After the end -/

omit [DecidableEq π] in
theorem Over.head (h : s.Over) {p : π} {frame : Frame φ} {below : List (Frame φ)}
    (hstack : s.stack p = frame :: below) : frame = .asyncCall ∧ below = [] := by
  rcases h.stack p with hnil | hone
  · rw [hnil] at hstack
    cases hstack
  · rw [hone, List.cons.injEq] at hstack
    exact ⟨hstack.1.symm, hstack.2.symm⟩

theorem Over.enter (h : s.Over) (p : π) {frames : List (Frame φ)}
    (hframes : frames = [] ∨ frames = [.asyncCall]) (q : π) :
    (s.enter p frames).stack q = [] ∨ (s.enter p frames).stack q = [.asyncCall] := by
  by_cases hq : q = p
  · simpa [LoopThreads.enter, hq] using hframes
  · simpa [LoopThreads.enter, hq] using h.stack q

/-- Only `AsyncCall` can go on, and a `Stop` that does nothing. -/
theorem Over.step (h : s.Over) {a : Action π φ} (hs' : s.step owner room a = some s') :
    s'.Over ∧ s'.executed = s.executed ∧
      s'.pendingFunctors = s.pendingFunctors ++ a.accepted := by
  have hkeep : s.pendingFunctors = s.pendingFunctors ++ [] := (List.append_nil _).symm
  cases a with
  | asyncCall p f =>
      rw [LoopThreads.step] at hs'
      split_ifs at hs' with huser
      obtain rfl := Option.some.inj hs'
      refine ⟨⟨h.left, h.stopped, h.enter p (.inr ?_)⟩, rfl, rfl⟩
      rcases h.stack p with hnil | hone
      · rw [hnil]
      · rw [hone] at huser
        cases huser
  | notify p =>
      rw [LoopThreads.step] at hs'
      split at hs'
      · next below hstack =>
        obtain rfl := Option.some.inj hs'
        exact ⟨⟨h.left, h.stopped, h.enter p (.inl (h.head hstack).2)⟩, rfl, hkeep⟩
      · cases hs'
  | wake =>
      rw [LoopThreads.step] at hs'
      split_ifs at hs' with hguard
      exact absurd (h.left.symm.trans hguard.2.1) (by decide)
  | stop p =>
      rw [LoopThreads.step] at hs'
      split_ifs at hs' with _ hrunning
      · exact absurd (h.stopped.symm.trans hrunning) (by decide)
      · obtain rfl := Option.some.inj hs'
        exact ⟨h, rfl, hkeep⟩
  | leave =>
      rw [LoopThreads.step] at hs'
      split_ifs at hs' with hguard
      exact absurd (h.left.symm.trans hguard.2.2) (by decide)
  | recv | swap p | call p | ret p | endBatch p | setStopped p | testPending p =>
      -- all of these need a call that no thread is in
      rw [LoopThreads.step] at hs'
      split at hs'
      · next hstack => cases (h.head hstack).1
      · cases hs'

theorem Over.run (h : s.Over) {acts : List (Action π φ)}
    (hrun : TinyGameServer.run (LoopThreads.step owner room) s acts = some s') :
    s'.executed = s.executed ∧
      s'.pendingFunctors = s.pendingFunctors ++ acts.flatMap Action.accepted := by
  induction acts generalizing s with
  | nil =>
      cases hrun
      exact ⟨rfl, (List.append_nil _).symm⟩
  | cons a acts ih =>
      obtain ⟨s₁, hs₁, hrest⟩ := run_cons_eq_some hrun
      obtain ⟨hover, hexecuted, hpending⟩ := h.step hs₁
      obtain ⟨hexecuted', hpending'⟩ := ih hover hrest
      refine ⟨hexecuted'.trans hexecuted, ?_⟩
      rw [hpending', hpending, List.flatMap_cons, List.append_assoc]

/-- In every run every functor that has been accepted is in one place: executed, in the hands of a
thread, or pending. If the run is over then those that are pending stay so, and all later ones. -/
theorem functors_kept [Fintype π] (owner : π) (room : ℕ) (acts : List (Action π φ))
    (s : LoopThreads π φ) (hrun : run (step owner room) init acts = some s) :
    (acts.flatMap Action.accepted : Multiset φ) =
        (s.executed.map Prod.snd : Multiset φ) + ∑ p, (held (s.stack p) : Multiset φ) +
          (s.pendingFunctors : Multiset φ) ∧
      (s.Over → ∀ acts' t, run (step owner room) s acts' = some t →
        t.executed = s.executed ∧
          t.pendingFunctors = s.pendingFunctors ++ acts'.flatMap Action.accepted) := by
  have hinit : (init : LoopThreads π φ).total = 0 := by
    simp [total, init, held]
  have htotal := run_total hrun
  rw [hinit, zero_add] at htotal
  exact ⟨htotal.symm, fun hover acts' t ht => hover.run ht⟩

/-- Another thread stops the loop and takes over a functor; it posts a second one when all is
over. -/
def stopRun : List (Action Bool ℕ) :=
  [.asyncCall true 1, .notify true, .stop false, .setStopped false, .testPending false,
    .swap false, .call false, .ret false, .endBatch false, .testPending false,
    .testPending false, .leave]

theorem functor_after_stop_kept : ∃ s : LoopThreads Bool ℕ,
    run (step true 0) init stopRun = some s ∧ s.Over ∧
      (stopRun.flatMap Action.accepted : Multiset ℕ) =
        (s.executed.map Prod.snd : Multiset ℕ) + ∑ p, (held (s.stack p) : Multiset ℕ) +
          (s.pendingFunctors : Multiset ℕ) ∧
      (s.Over → ∀ acts' t, run (step true 0) s acts' = some t →
        t.executed = s.executed ∧
          t.pendingFunctors = s.pendingFunctors ++ acts'.flatMap Action.accepted) := by
  refine ⟨_, rfl, ⟨rfl, rfl, fun p => ?_⟩, functors_kept true 0 stopRun _ rfl⟩
  cases p with
  | false => exact .inl rfl
  | true => exact .inl rfl

end TinyGameServer.LoopThreads
