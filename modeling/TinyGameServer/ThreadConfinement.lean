import TinyGameServer.LoopThreads

/-!
# Does every functor run on the thread of its loop?

`Stop` takes over the pending functors on the thread that calls it. Functors are confined to the
owner, one at a time, in every run in which `Stop` never takes over a functor, unless the owner
itself calls it outside of a functor.
-/

namespace TinyGameServer.LoopThreads

variable {π φ : Type}

/-- The functors that the calls of one thread are executing, the innermost first. -/
def inExecution : List (Frame φ) → List φ
  | [] => []
  | .functor f :: below => f :: inExecution below
  | _ :: below => inExecution below

structure Confined (owner : π) (s : LoopThreads π φ) : Prop where
  elsewhere : ∀ p, p ≠ owner → inExecution (s.stack p) = []
  one : (inExecution (s.stack owner)).length ≤ 1
  executed : ∀ e ∈ s.executed, e.1 = owner

/-- `ProcessPendingFunctors`, called by `Stop`, finds no functor, or `Stop` was called by the
owner outside of a functor. -/
def StopTakesNothing (owner : π) (s : LoopThreads π φ) : Action π φ → Prop
  | .swap p =>
    match s.stack p with
    | .process :: .stopLoop _ :: below =>
      s.pendingFunctors = [] ∨ p = owner ∧ inExecution below = []
    | _ => True
  | _ => True

/-- The calls that a thread can be in. Only the owner is in an `Update`, and takes over functors
while it is not inside of one. -/
def Calm (own : Prop) : List (Frame φ) → Prop
  | [] => True
  | .functor _ :: below => own ∧ inExecution below = [] ∧ Calm own below
  | .batch rest :: below => (rest = [] ∨ own ∧ inExecution below = []) ∧ Calm own below
  | .process :: below =>
    (below = [] ∧ own ∨ ∃ exited rest, below = .stopLoop exited :: rest) ∧ Calm own below
  | .update :: below => below = [] ∧ own
  | _ :: below => Calm own below

theorem Calm.inExecution_eq_nil {own : Prop} {frames : List (Frame φ)} (h : Calm own frames)
    (hown : ¬ own) : inExecution frames = [] := by
  induction frames with
  | nil => rfl
  | cons frame below ih =>
      cases frame with
      | functor f => exact absurd h.1 hown
      | batch rest => exact ih h.2
      | process => exact ih h.2
      | update => exact absurd h.2 hown
      | _ => exact ih h

theorem Calm.length_inExecution_le {own : Prop} {frames : List (Frame φ)} (h : Calm own frames) :
    (inExecution frames).length ≤ 1 := by
  induction frames with
  | nil => exact Nat.zero_le 1
  | cons frame below ih =>
      cases frame with
      | functor f => simp [inExecution, h.2.1]
      | batch rest => exact ih h.2
      | process => exact ih h.2
      | update => simp [inExecution, h.1]
      | _ => exact ih h

structure Confining (owner : π) (s : LoopThreads π φ) : Prop where
  calm : ∀ p, Calm (p = owner) (s.stack p)
  executed : ∀ e ∈ s.executed, e.1 = owner

theorem init_confining (owner : π) : (init : LoopThreads π φ).Confining owner where
  calm _ := trivial
  executed _ he := absurd he List.not_mem_nil

theorem Confining.confined {owner : π} {s : LoopThreads π φ} (h : s.Confining owner) :
    s.Confined owner where
  elsewhere p hp := (h.calm p).inExecution_eq_nil hp
  one := (h.calm owner).length_inExecution_le
  executed := h.executed

variable [DecidableEq π] {owner : π} {room : ℕ} {s s' : LoopThreads π φ}

theorem Confining.enter (h : s.Confining owner) {p : π} {frames : List (Frame φ)}
    (hstack : s'.stack = Function.update s.stack p frames) (hexecuted : s'.executed = s.executed)
    (hcalm : Calm (p = owner) frames) : s'.Confining owner where
  calm q := by
    rw [hstack]
    by_cases hq : q = p
    · subst hq
      rwa [Function.update_self]
    · rw [Function.update_of_ne hq]
      exact h.calm q
  executed := by
    rw [hexecuted]
    exact h.executed

omit [DecidableEq π] in
theorem Confining.stack (h : s.Confining owner) {p : π} {frames : List (Frame φ)}
    (hstack : s.stack p = frames) : Calm (p = owner) frames := hstack ▸ h.calm p

omit [DecidableEq π] in
theorem swap_confining (h : s.Confining owner) {p : π} {below : List (Frame φ)}
    (hstack : s.stack p = .process :: below) (hguard : s.StopTakesNothing owner (.swap p)) :
    Calm (p = owner) (.batch s.pendingFunctors :: below) := by
  obtain ⟨hprocess, hbelow⟩ := h.stack hstack
  refine ⟨?_, hbelow⟩
  rcases hprocess with ⟨rfl, hown⟩ | ⟨exited, rest, rfl⟩
  · exact .inr ⟨hown, rfl⟩
  · rw [StopTakesNothing, hstack] at hguard
    exact hguard

theorem step_confining {a : Action π φ} (h : s.Confining owner)
    (hguard : s.StopTakesNothing owner a) (hs' : step owner room s a = some s') :
    s'.Confining owner := by
  cases a with
  | asyncCall p f =>
      rw [step] at hs'
      split_ifs at hs'
      cases hs'
      have hcalm := h.calm p
      exact h.enter rfl rfl hcalm
  | notify p =>
      rw [step] at hs'
      split at hs' <;> cases hs'
      rename_i below hstack
      have hcalm := h.stack hstack
      exact h.enter rfl rfl hcalm
  | wake =>
      rw [step] at hs'
      split_ifs at hs'
      cases hs'
      exact h.enter rfl rfl ⟨rfl, rfl⟩
  | recv =>
      rw [step] at hs'
      split at hs'
      · rename_i below hstack
        obtain ⟨rfl, hown⟩ := h.stack hstack
        split_ifs at hs' <;> cases hs'
        · exact ⟨h.calm, h.executed⟩
        · exact h.enter rfl rfl ⟨.inl ⟨rfl, hown⟩, trivial⟩
      · cases hs'
  | swap p =>
      rw [step] at hs'
      split at hs' <;> cases hs'
      rename_i below hstack
      exact h.enter rfl rfl (swap_confining h hstack hguard)
  | call p =>
      rw [step] at hs'
      split at hs' <;> cases hs'
      rename_i f rest below hstack
      obtain ⟨hbatch, hbelow⟩ := h.stack hstack
      obtain ⟨hown, hnone⟩ := hbatch.resolve_left (List.cons_ne_nil f rest)
      exact h.enter rfl rfl ⟨hown, hnone, .inr ⟨hown, hnone⟩, hbelow⟩
  | ret p =>
      rw [step] at hs'
      split at hs' <;> cases hs'
      rename_i f below hstack
      obtain ⟨hown, -, hbelow⟩ := h.stack hstack
      have hpop : (s.enter p below).Confining owner := h.enter rfl rfl hbelow
      refine ⟨hpop.calm, fun e he => ?_⟩
      rcases List.mem_append.mp he with he | he
      · exact h.executed e he
      · rw [List.mem_singleton.mp he]
        exact hown
  | endBatch p =>
      rw [step] at hs'
      split at hs' <;> cases hs'
      rename_i below hstack
      exact h.enter rfl rfl (h.stack hstack).2
  | stop p =>
      rw [step] at hs'
      split_ifs at hs' <;> cases hs'
      · exact h.enter rfl rfl (h.calm p)
      · exact h
  | setStopped p =>
      rw [step] at hs'
      split at hs' <;> cases hs'
      rename_i below hstack
      have hcalm := h.stack hstack
      exact h.enter rfl rfl hcalm
  | testPending p =>
      rw [step] at hs'
      split at hs'
      · rename_i hstack
        have hcalm := h.stack hstack
        split at hs' <;> cases hs'
        · exact h.enter rfl rfl ⟨.inr ⟨_, _, hstack⟩, h.calm p⟩
        · exact h.enter rfl rfl hcalm
        · exact h.enter rfl rfl hcalm
      · cases hs'
  | leave =>
      rw [step] at hs'
      split_ifs at hs'
      cases hs'
      exact ⟨h.calm, h.executed⟩

/-- In every run in which `Stop` takes over no functor, unless the owner calls it outside of one:
all functors are executed by the owner, and no two at the same time. -/
theorem functors_confined (owner : π) (room : ℕ) (acts : List (Action π φ)) (s : LoopThreads π φ)
    (hguard : Along (step owner room) (StopTakesNothing owner) init acts)
    (hs : run (step owner room) init acts = some s) : s.Confined owner :=
  (run_invariant_of_along (fun _ _ _ => step_confining) (init_confining owner) hguard hs).confined

instance (owner : π) (s : LoopThreads π φ) (a : Action π φ) :
    Decidable (s.StopTakesNothing owner a) := by
  unfold StopTakesNothing
  split
  · split <;> infer_instance
  · infer_instance

/-- The functor 1 is posted by the other thread and run by a wakeup; then that thread stops the
loop, which has nothing left to process. -/
def wakeThenStop : List (Action Bool ℕ) :=
  [.asyncCall false 1, .notify false, .wake, .recv, .recv, .swap true, .call true, .ret true,
    .endBatch true, .stop false, .setStopped false, .testPending false, .testPending false, .leave]

theorem wake_then_stop_confined :
    ∃ s, run (step true 0) init wakeThenStop = some s ∧ s.Confined true := by
  refine ⟨_, rfl, functors_confined true 0 wakeThenStop _ ?_ rfl⟩
  decide

/-- The functor 1 is pending when the other thread stops the loop, and is executed there. -/
theorem stop_executes_elsewhere :
    ¬ ∀ (acts : List (Action Bool ℕ)) s, run (step true 0) init acts = some s →
      s.Confined true := by
  intro h
  have hconfined := h [.asyncCall false 1, .notify false, .stop false, .setStopped false,
    .testPending false, .swap false, .call false] _ rfl
  exact absurd (hconfined.elsewhere false Bool.false_ne_true) (List.cons_ne_nil 1 [])

end TinyGameServer.LoopThreads
