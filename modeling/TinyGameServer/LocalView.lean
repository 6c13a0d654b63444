import Mathlib.Data.List.Basic
import TinyGameServer.Transitions

/-!
# A system seen from one of its components

Components share queues whose items say whose they are. What a component sees of a shared queue is
the list of its own items. If every step of the whole system is, for the component, a sequence of
steps of its own, then so is every run, and a guard on the steps of the whole system that implies
one on the steps of the component does so along the run.
-/

namespace TinyGameServer

/-! ## Shared queues -/

section Queue

variable {κ α : Type} [DecidableEq κ]

def itemsOf (k : κ) (queue : List (κ × α)) : List α :=
  queue.filterMap fun item => if item.1 = k then some item.2 else none

variable {k k' : κ}

@[simp] theorem itemsOf_nil : itemsOf k ([] : List (κ × α)) = [] := rfl

@[simp] theorem itemsOf_append (queue queue' : List (κ × α)) :
    itemsOf k (queue ++ queue') = itemsOf k queue ++ itemsOf k queue' := List.filterMap_append

@[simp] theorem itemsOf_cons_self (a : α) (queue : List (κ × α)) :
    itemsOf k ((k, a) :: queue) = a :: itemsOf k queue := by
  simp [itemsOf]

theorem itemsOf_cons_ne (h : k' ≠ k) (a : α) (queue : List (κ × α)) :
    itemsOf k ((k', a) :: queue) = itemsOf k queue := by
  simp [itemsOf, h]

@[simp] theorem itemsOf_map_self (items : List α) : itemsOf k (items.map (k, ·)) = items := by
  induction items with
  | nil => rfl
  | cons a items ih => rw [List.map_cons, itemsOf_cons_self, ih]

theorem itemsOf_map_ne (h : k' ≠ k) (items : List α) : itemsOf k (items.map (k', ·)) = [] := by
  induction items with
  | nil => rfl
  | cons a items ih => rw [List.map_cons, itemsOf_cons_ne h, ih]

theorem itemsOf_eq_nil {queue : List (κ × α)} (h : k ∉ queue.map Prod.fst) :
    itemsOf k queue = [] := by
  induction queue with
  | nil => rfl
  | cons item queue ih =>
      obtain ⟨hne, hrest⟩ := not_or.mp (mt List.mem_cons.mpr h)
      rw [itemsOf_cons_ne (Ne.symm hne), ih hrest]

end Queue

/-! ## Local runs -/

section LocalRun

variable {σ act σ' act' : Type} {step : σ → act → Option σ} {step' : σ' → act' → Option σ'}

/-- What a run is for a component, if `project` says it of one step. -/
def localActs (step : σ → act → Option σ) (project : σ → act → List act') (s : σ) :
    List act → List act'
  | [] => []
  | a :: acts =>
    project s a ++
      match step s a with
      | none => []
      | some s' => localActs step project s' acts

variable {view : σ → σ'} {project : σ → act → List act'} {Inv : σ → Prop}

theorem localActs_cons {s s' : σ} {a : act} (h : step s a = some s') (acts : List act) :
    localActs step project s (a :: acts) = project s a ++ localActs step project s' acts := by
  rw [localActs, h]

theorem localActs_append {s t : σ} {acts acts' : List act} (h : run step s acts = some t) :
    localActs step project s (acts ++ acts') =
      localActs step project s acts ++ localActs step project t acts' := by
  induction acts generalizing s with
  | nil =>
      cases h
      rfl
  | cons a acts ih =>
      obtain ⟨s', hs', hrun⟩ := run_cons_eq_some h
      rw [List.cons_append, localActs_cons hs', localActs_cons hs', ih hrun, List.append_assoc]

theorem run_localActs {G : σ → act → Prop}
    (hstep : ∀ s a s', Inv s → G s a → step s a = some s' →
      Inv s' ∧ run step' (view s) (project s a) = some (view s')) {s t : σ} {acts : List act}
    (hs : Inv s) (hguard : Along step G s acts) (h : run step s acts = some t) :
    run step' (view s) (localActs step project s acts) = some (view t) := by
  induction acts generalizing s with
  | nil =>
      cases h
      rfl
  | cons a acts ih =>
      obtain ⟨s', hs', hrun⟩ := run_cons_eq_some h
      obtain ⟨hinv, hlocal⟩ := hstep s a s' hs hguard.1 hs'
      rw [localActs_cons hs', run_append, hlocal, Option.bind_some,
        ih hinv (hguard.2 s' hs') hrun]

theorem along_localActs {G : σ → act → Prop} {G' : σ' → act' → Prop}
    (hstep : ∀ s a s', Inv s → G s a → step s a = some s' →
      Inv s' ∧ run step' (view s) (project s a) = some (view s'))
    (hguard : ∀ s a, Inv s → G s a → Along step' G' (view s) (project s a)) {s : σ}
    {acts : List act} (hs : Inv s) (h : Along step G s acts) :
    Along step' G' (view s) (localActs step project s acts) := by
  induction acts generalizing s with
  | nil => trivial
  | cons a acts ih =>
      refine (hguard s a hs h.1).append fun t ht => ?_
      split
      · trivial
      · rename_i s' hs'
        obtain ⟨hinv, hlocal⟩ := hstep s a s' hs h.1 hs'
        rw [hlocal] at ht
        cases ht
        exact ih hinv (h.2 s' hs')

end LocalRun
end TinyGameServer
