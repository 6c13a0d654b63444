import Mathlib.Data.List.Induction
import Mathlib.Data.Nat.Notation

/-!
# Runs of a transition system

A system is a partial step function. The action fixes every choice of the environment, and a
step is undefined where the action is not possible. `Along` asks for something of every step of a
run. An invariant that one step preserves holds after every run; if it is only preserved by steps
that meet a condition, it holds after the runs whose steps all do.
-/

namespace TinyGameServer

variable {σ act : Type} (step : σ → act → Option σ)

def run (s : σ) (acts : List act) : Option σ := acts.foldlM step s

def Reachable (init s : σ) : Prop := ∃ acts, run step init acts = some s

/-- Every step of the run satisfies `P` in the state in which it is taken. -/
def Along (P : σ → act → Prop) (s : σ) : List act → Prop
  | [] => True
  | a :: acts => P s a ∧ ∀ s', step s a = some s' → Along P s' acts

instance decidableAlong (P : σ → act → Prop) [∀ s a, Decidable (P s a)] (s : σ) (acts : List act) :
    Decidable (Along step P s acts) :=
  match acts with
  | [] => isTrue trivial
  | a :: acts =>
    have : Decidable (∀ s', step s a = some s' → Along step P s' acts) :=
      match h : step s a with
      | none => isTrue fun _ hs' => by cases hs'
      | some s' =>
        have := decidableAlong P s' acts
        decidable_of_iff (Along step P s' acts) ⟨fun hrest _ hs' => by cases hs'; exact hrest,
          fun hrest => hrest s' rfl⟩
    inferInstanceAs (Decidable (P s a ∧ _))

variable {step}

@[simp] theorem run_nil (s : σ) : run step s [] = some s := rfl

theorem run_cons (s : σ) (a : act) (acts : List act) :
    run step s (a :: acts) = (step s a).bind (run step · acts) := List.foldlM_cons ..

theorem run_append (s : σ) (acts acts' : List act) :
    run step s (acts ++ acts') = (run step s acts).bind (run step · acts') := List.foldlM_append ..

theorem run_cons_eq_some {s t : σ} {a : act} {acts : List act}
    (h : run step s (a :: acts) = some t) :
    ∃ s', step s a = some s' ∧ run step s' acts = some t := by
  rw [run_cons] at h
  exact Option.bind_eq_some_iff.mp h

/-- If what has been done says which actions are possible, it says which runs are. -/
theorem isSome_run_iff {Allowed : List act → act → Prop} {init : σ}
    (hstep : ∀ {done : List act} {s : σ}, run step init done = some s →
      ∀ a, (step s a).isSome ↔ Allowed done a) {acts : List act} :
    (run step init acts).isSome ↔ ∀ before a, before ++ [a] <+: acts → Allowed before a := by
  induction acts using List.reverseRecOn with
  | nil => exact iff_of_true rfl fun before a h => by simp at h
  | append_singleton acts a ih =>
      rw [run_append]
      constructor
      · intro hsome before b hfirst
        obtain ⟨s, hs⟩ := Option.isSome_iff_exists.mp (Option.isSome_of_isSome_bind hsome)
        rcases List.prefix_concat_iff.mp hfirst with heq | hold
        · obtain ⟨rfl, rfl⟩ := List.append_singleton_inj.mp heq
          rw [hs, Option.bind_some] at hsome
          obtain ⟨t, ht⟩ := Option.isSome_iff_exists.mp hsome
          obtain ⟨s', hs', -⟩ := run_cons_eq_some ht
          exact (hstep hs b).mp (Option.isSome_of_mem hs')
        · exact ih.mp (Option.isSome_iff_exists.mpr ⟨s, hs⟩) before b hold
      · intro hallowed
        have hbefore := ih.mpr fun before b hfirst =>
          hallowed before b (hfirst.trans (List.prefix_append acts [a]))
        obtain ⟨s, hs⟩ := Option.isSome_iff_exists.mp hbefore
        have hsome := (hstep hs a).mpr (hallowed acts a (List.prefix_refl _))
        obtain ⟨s', hs'⟩ := Option.isSome_iff_exists.mp hsome
        rw [hs, Option.bind_some, run_cons, hs', Option.bind_some]
        rfl

/-- The run rule, for invariants that are preserved under a condition on the step. -/
theorem run_invariant_of_along {Inv : σ → Prop} {G : σ → act → Prop}
    (hstep : ∀ s a s', Inv s → G s a → step s a = some s' → Inv s') {s t : σ} {acts : List act}
    (hs : Inv s) (hguard : Along step G s acts) (h : run step s acts = some t) : Inv t := by
  induction acts generalizing s with
  | nil =>
      cases h
      exact hs
  | cons a acts ih =>
      obtain ⟨s', hs', hrun⟩ := run_cons_eq_some h
      obtain ⟨hg, hrest⟩ := hguard
      exact ih (hstep s a s' hs hg hs') (hrest s' hs') hrun

theorem along_true (s : σ) (acts : List act) : Along step (fun _ _ => True) s acts := by
  induction acts generalizing s with
  | nil => trivial
  | cons a acts ih => exact ⟨trivial, fun s' _ => ih s'⟩

theorem run_invariant {Inv : σ → Prop}
    (hstep : ∀ s a s', Inv s → step s a = some s' → Inv s') {s t : σ} {acts : List act}
    (hs : Inv s) (h : run step s acts = some t) : Inv t :=
  run_invariant_of_along (fun s a s' hs _ => hstep s a s' hs) hs (along_true s acts) h

theorem Reachable.invariant {Inv : σ → Prop}
    (hstep : ∀ s a s', Inv s → step s a = some s' → Inv s') {init s : σ} (hinit : Inv init)
    (h : Reachable step init s) : Inv s := by
  obtain ⟨acts, hrun⟩ := h
  exact run_invariant hstep hinit hrun

/-- Two step properties agree on runs if they agree wherever the invariant holds, and the second
one keeps the invariant. -/
theorem along_iff {Inv : σ → Prop} {P G : σ → act → Prop}
    (hiff : ∀ s a, Inv s → (P s a ↔ G s a))
    (hstep : ∀ s a s', Inv s → G s a → step s a = some s' → Inv s') {s : σ} (hs : Inv s)
    (acts : List act) : Along step P s acts ↔ Along step G s acts := by
  induction acts generalizing s with
  | nil => exact Iff.rfl
  | cons a acts ih =>
      have ha := hiff s a hs
      constructor
      · rintro ⟨hp, hrest⟩
        have hg := ha.mp hp
        exact ⟨hg, fun s' hs' => (ih (hstep s a s' hs hg hs')).mp (hrest s' hs')⟩
      · rintro ⟨hg, hrest⟩
        exact ⟨ha.mpr hg, fun s' hs' => (ih (hstep s a s' hs hg hs')).mpr (hrest s' hs')⟩

theorem Along.cons {P : σ → act → Prop} {s s' : σ} {a : act} {acts : List act} (ha : P s a)
    (hs' : step s a = some s') (h : Along step P s' acts) : Along step P s (a :: acts) := by
  refine ⟨ha, fun t ht => ?_⟩
  rw [hs'] at ht
  cases ht
  exact h

theorem Along.and {P Q : σ → act → Prop} {s : σ} {acts : List act} (hp : Along step P s acts)
    (hq : Along step Q s acts) : Along step (fun s a => P s a ∧ Q s a) s acts := by
  induction acts generalizing s with
  | nil => trivial
  | cons a acts ih => exact ⟨⟨hp.1, hq.1⟩, fun s' hs' => ih (hp.2 s' hs') (hq.2 s' hs')⟩

theorem Along.left {P : σ → act → Prop} {s : σ} {acts acts' : List act}
    (h : Along step P s (acts ++ acts')) : Along step P s acts := by
  induction acts generalizing s with
  | nil => trivial
  | cons a acts ih => exact ⟨h.1, fun s' hs' => ih (h.2 s' hs')⟩

theorem Along.right {P : σ → act → Prop} {s t : σ} {acts acts' : List act}
    (h : Along step P s (acts ++ acts')) (hrun : run step s acts = some t) :
    Along step P t acts' := by
  induction acts generalizing s with
  | nil =>
      cases hrun
      exact h
  | cons a acts ih =>
      obtain ⟨s', hs', hrun⟩ := run_cons_eq_some hrun
      exact ih (h.2 s' hs') hrun

theorem Along.append {P : σ → act → Prop} {s : σ} {acts acts' : List act}
    (h : Along step P s acts) (hrest : ∀ t, run step s acts = some t → Along step P t acts') :
    Along step P s (acts ++ acts') := by
  induction acts generalizing s with
  | nil => exact hrest s rfl
  | cons a acts ih =>
      refine ⟨h.1, fun s' hs' => ih (h.2 s' hs') fun t ht => hrest t ?_⟩
      rw [run_cons, hs', Option.bind_some, ht]

theorem Along.concat {P : σ → act → Prop} {s t : σ} {a : act} {acts : List act}
    (h : Along step P s acts) (hrun : run step s acts = some t) (ha : P t a) :
    Along step P s (acts ++ [a]) := by
  refine h.append fun u hu => ?_
  rw [hrun] at hu
  cases hu
  exact ⟨ha, fun _ _ => trivial⟩

theorem Along.of_append {P : σ → act → Prop} {s t : σ} {a : act} {acts rest : List act}
    (h : Along step P s (acts ++ a :: rest)) (hrun : run step s acts = some t) : P t a :=
  (h.right hrun).1

/-- If the condition on a step says exactly when it keeps the invariant, the condition on a run says
exactly when the invariant holds in all its states. -/
theorem along_iff_invariant {Inv : σ → Prop} {P : σ → act → Prop}
    (hiff : ∀ s a, Inv s → (P s a ↔ ∀ s', step s a = some s' → Inv s')) {s : σ} (hs : Inv s)
    (acts : List act) :
    Along step P s acts ↔ ∀ pre t, pre <+: acts → run step s pre = some t → Inv t := by
  induction acts generalizing s with
  | nil =>
      refine iff_of_true trivial fun pre t hpre hrun => ?_
      rw [List.prefix_nil.mp hpre] at hrun
      cases hrun
      exact hs
  | cons a acts ih =>
      have ha := hiff s a hs
      constructor
      · rintro ⟨hp, hrest⟩ pre t hpre hrun
        rcases List.prefix_cons_iff.mp hpre with rfl | ⟨pre, rfl, hpre⟩
        · cases hrun
          exact hs
        · obtain ⟨s', hs', hrun⟩ := run_cons_eq_some hrun
          exact (ih (ha.mp hp s' hs')).mp (hrest s' hs') pre t
            (List.cons_prefix_cons.mp hpre).2 hrun
      · intro hall
        have hp := ha.mpr fun s' hs' =>
          hall [a] s' (List.prefix_append [a] acts) (by rw [run_cons, hs']; rfl)
        refine ⟨hp, fun s' hs' => (ih (ha.mp hp s' hs')).mpr fun pre t hpre hrun => ?_⟩
        exact hall (a :: pre) t (List.cons_prefix_cons.mpr ⟨rfl, hpre⟩)
          (by rw [run_cons, hs', Option.bind_some, hrun])

/-- What the guard and the invariant give for one step holds for every step of a guarded run. -/
theorem along_of_along {Inv : σ → Prop} {P G : σ → act → Prop}
    (hstep : ∀ s a s', Inv s → G s a → step s a = some s' → Inv s')
    (hpost : ∀ s a, Inv s → G s a → P s a) {s : σ} (hs : Inv s) {acts : List act}
    (hguard : Along step G s acts) : Along step P s acts := by
  induction acts generalizing s with
  | nil => trivial
  | cons a acts ih =>
      obtain ⟨hg, hrest⟩ := hguard
      exact ⟨hpost s a hs hg, fun s' hs' => ih (hstep s a s' hs hg hs') (hrest s' hs')⟩

/-- Steps that are defined wherever the guard and the invariant hold make up a run that is
defined. -/
theorem exists_run_of_along {Inv : σ → Prop} {G : σ → act → Prop}
    (hstep : ∀ s a, Inv s → G s a → ∃ s', step s a = some s' ∧ Inv s') {s : σ} (hs : Inv s)
    {acts : List act} (hguard : Along step G s acts) : ∃ t, run step s acts = some t ∧ Inv t := by
  induction acts generalizing s with
  | nil => exact ⟨s, rfl, hs⟩
  | cons a acts ih =>
      obtain ⟨hg, hrest⟩ := hguard
      obtain ⟨s', hs', hinv⟩ := hstep s a hs hg
      obtain ⟨t, hrun, ht⟩ := ih hinv (hrest s' hs')
      exact ⟨t, by rw [run_cons, hs', Option.bind_some, hrun], ht⟩

end TinyGameServer
