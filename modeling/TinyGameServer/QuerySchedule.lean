import Mathlib.Data.Fintype.Defs
import Mathlib.Data.List.Nodup
import Mathlib.Data.Nat.ModEq
import TinyGameServer.PGManager

/-!
# Which schedules keep the queries apart

The calls are numbered in the order of their picks. A numbered call says nothing about the
connections, but as the picker goes round, the call with number `k` works on connection `k % size`.
So two queries share a connection exactly if they run at once and their numbers are equal modulo
the number of connections. This cannot happen while no call lasts for a whole round of picks.
-/

namespace TinyGameServer

variable {κ π : Type}

def SelectUserCall.bind {α β : Type} (f : α → Option β) : SelectUserCall α → SelectUserCall β
  | idle => idle
  | picked c => picked (c.bind f)
  | executing c => executing (c.bind f)

/-- The calls of the threads with their numbers, as the actions alone determine them. -/
structure NumberedCalls (π : Type) where
  picks : ℕ := 0
  calls : π → SelectUserCall ℕ := fun _ => .idle

namespace NumberedCalls

variable [DecidableEq π]

open DataQueries (Action)

def step (n : NumberedCalls π) : Action π → Option (NumberedCalls π)
  | .pickContext p =>
    match n.calls p with
    | .idle => some ⟨n.picks + 1, Function.update n.calls p (.picked (some n.picks))⟩
    | _ => none
  | .startExec p =>
    match n.calls p with
    | .picked k => some { n with calls := Function.update n.calls p (.executing k) }
    | _ => none
  | .endExec p =>
    match n.calls p with
    | .executing _ => some { n with calls := Function.update n.calls p .idle }
    | _ => none

/-! ## Conditions on the schedule -/

/-- The query that starts and the ones that are running have been picked a number of turns apart
that is not a multiple of `size`. -/
def StartsApart (size : ℕ) (n : NumberedCalls π) : Action π → Prop
  | .startExec p => ∀ q k l, n.calls p = .picked (some k) → n.calls q = .executing (some l) →
      k % size ≠ l % size
  | _ => True

/-- At a pick every call in progress is one of the last `size - 1` that were picked. -/
def WithinRound (size : ℕ) (n : NumberedCalls π) : Action π → Prop
  | .pickContext _ => ∀ q, ∀ k ∈ (n.calls q).held, n.picks < k + size
  | _ => True

instance [Fintype π] (size : ℕ) (n : NumberedCalls π) (a : Action π) :
    Decidable (n.WithinRound size a) :=
  match a with
  | .pickContext _ => inferInstanceAs (Decidable (∀ q, ∀ k ∈ (n.calls q).held, _))
  | .startExec _ => isTrue trivial
  | .endExec _ => isTrue trivial

/-! ## A round at a time -/

/-- The calls in progress have different numbers, all from one round. -/
structure OneRound (size : ℕ) (n : NumberedCalls π) : Prop where
  old : ∀ p, ∀ k ∈ (n.calls p).held, k < n.picks
  near : ∀ p q, p ≠ q → ∀ k ∈ (n.calls p).held, ∀ l ∈ (n.calls q).held, k ≠ l ∧ k < l + size

theorem mod_ne_of_near {k l size : ℕ} (hne : k ≠ l) (hkl : k < l + size) (hlk : l < k + size) :
    k % size ≠ l % size := by
  intro heq
  rcases Nat.le_total k l with hle | hle
  · have hdvd := (Nat.modEq_iff_dvd' hle).mp heq
    have hzero := Nat.eq_zero_of_dvd_of_lt hdvd (by omega)
    omega
  · have hdvd := (Nat.modEq_iff_dvd' hle).mp (Eq.symm heq)
    have hzero := Nat.eq_zero_of_dvd_of_lt hdvd (by omega)
    omega

variable {size : ℕ} {n n' : NumberedCalls π}

theorem OneRound.update (h : n.OneRound size) {p : π} {call : SelectUserCall ℕ}
    (hheld : ∀ k ∈ call.held, k ∈ (n.calls p).held) :
    ({ n with calls := Function.update n.calls p call } : NumberedCalls π).OneRound size := by
  have hsub : ∀ q, ∀ k ∈ (Function.update n.calls p call q).held, k ∈ (n.calls q).held := by
    intro q k hk
    by_cases hq : q = p
    · subst hq
      rw [Function.update_self] at hk
      exact hheld k hk
    · rwa [Function.update_of_ne hq] at hk
  exact ⟨fun q k hk => h.old q k (hsub q k hk),
    fun q r hne k hk l hl => h.near q r hne k (hsub q k hk) l (hsub r l hl)⟩

theorem step_oneRound {a : Action π} (h : n.OneRound size) (hguard : n.WithinRound size a)
    (hs' : n.step a = some n') : n'.OneRound size := by
  cases a with
  | pickContext p =>
      rw [step] at hs'
      split at hs' <;> cases hs'
      have hcases : ∀ q, ∀ k ∈ (Function.update n.calls p (.picked (some n.picks)) q).held,
          q = p ∧ k = n.picks ∨ q ≠ p ∧ k ∈ (n.calls q).held := by
        intro q k hk
        by_cases hq : q = p
        · subst hq
          rw [Function.update_self] at hk
          exact .inl ⟨rfl, (Option.some.inj hk).symm⟩
        · rw [Function.update_of_ne hq] at hk
          exact .inr ⟨hq, hk⟩
      constructor
      · intro q k hk
        rcases hcases q k hk with ⟨-, rfl⟩ | ⟨-, hk⟩
        · exact Nat.lt_succ_self _
        · exact Nat.lt_succ_of_lt (h.old q k hk)
      · intro q r hne k hk l hl
        rcases hcases q k hk with ⟨rfl, rfl⟩ | ⟨-, hk⟩
        · rcases hcases r l hl with ⟨rfl, -⟩ | ⟨-, hl⟩
          · exact absurd rfl hne
          · exact ⟨(h.old r l hl).ne', hguard r l hl⟩
        · rcases hcases r l hl with ⟨-, rfl⟩ | ⟨-, hl⟩
          · have hlt := h.old q k hk
            exact ⟨hlt.ne, Nat.lt_add_right size hlt⟩
          · exact h.near q r hne k hk l hl
  | startExec p =>
      rw [step] at hs'
      split at hs' <;> cases hs'
      rename_i c hcall
      exact h.update fun k hk => by rwa [hcall]
  | endExec p =>
      rw [step] at hs'
      split at hs' <;> cases hs'
      exact h.update fun k hk => by cases hk

omit [DecidableEq π] in
theorem init_oneRound (size : ℕ) : ({} : NumberedCalls π).OneRound size :=
  ⟨fun _ _ hk => (Option.not_mem_none _ hk).elim,
    fun _ _ _ _ hk => (Option.not_mem_none _ hk).elim⟩

omit [DecidableEq π] in
/-- Calls of one round never start on a connection that is in use. -/
theorem OneRound.startsApart (h : n.OneRound size) (a : Action π) : n.StartsApart size a := by
  cases a with
  | startExec p =>
      intro q k l hp hq
      have hne : p ≠ q := by
        rintro rfl
        cases hp.symm.trans hq
      have hk : k ∈ (n.calls p).held := by rw [hp]; rfl
      have hl : l ∈ (n.calls q).held := by rw [hq]; rfl
      obtain ⟨hkl, hlt⟩ := h.near p q hne k hk l hl
      exact mod_ne_of_near hkl hlt (h.near q p hne.symm l hl k hk).2
  | _ => trivial

theorem startsApart_of_withinRound {acts : List (Action π)}
    (h : Along step (WithinRound size) ({} : NumberedCalls π) acts) :
    Along step (StartsApart size) {} acts :=
  along_of_along (fun _ _ _ => step_oneRound) (fun _ a hn _ => hn.startsApart a)
    (init_oneRound size) h

/-! ## Queries that run at once -/

/-- No two running queries have numbers that are equal modulo `size`. -/
def Apart (size : ℕ) (n : NumberedCalls π) : Prop :=
  ∀ p q k l, n.calls p = .executing (some k) → n.calls q = .executing (some l) →
    k % size = l % size → p = q

theorem update_eq_some {calls : π → SelectUserCall ℕ} {p q : π} {call call' : SelectUserCall ℕ}
    (h : Function.update calls p call q = call') : q = p ∧ call = call' ∨ q ≠ p ∧ calls q = call' := by
  by_cases hq : q = p
  · rw [hq, Function.update_self] at h
    exact .inl ⟨hq, h⟩
  · rw [Function.update_of_ne hq] at h
    exact .inr ⟨hq, h⟩

theorem Apart.update (h : n.Apart size) (p : π) {call : SelectUserCall ℕ} {picks : ℕ}
    (hcall : ∀ k, call ≠ .executing k) :
    (⟨picks, Function.update n.calls p call⟩ : NumberedCalls π).Apart size := by
  intro q r k l hq hr
  rcases update_eq_some hq with ⟨-, heq⟩ | ⟨-, hq⟩
  · exact absurd heq (hcall _)
  · rcases update_eq_some hr with ⟨-, heq⟩ | ⟨-, hr⟩
    · exact absurd heq (hcall _)
    · exact h q r k l hq hr

/-- The queries stay apart in a step exactly if the one that starts is apart from the others. -/
theorem startsApart_iff (h : n.Apart size) (a : Action π) :
    n.StartsApart size a ↔ ∀ n', n.step a = some n' → n'.Apart size := by
  constructor
  · intro hstart n' hs'
    cases a with
    | pickContext p =>
        rw [step] at hs'
        split at hs' <;> cases hs'
        exact h.update p fun k hk => by cases hk
    | startExec p =>
        rw [step] at hs'
        split at hs' <;> cases hs'
        rename_i c hcall
        intro q r k l hq hr heq
        rcases update_eq_some hq with ⟨rfl, hk⟩ | ⟨-, hq'⟩
        · rcases update_eq_some hr with ⟨rfl, -⟩ | ⟨-, hr'⟩
          · rfl
          · cases hk
            exact absurd heq (hstart r k l hcall hr')
        · rcases update_eq_some hr with ⟨rfl, hl⟩ | ⟨-, hr⟩
          · cases hl
            exact absurd heq.symm (hstart q l k hcall hq')
          · exact h q r k l hq' hr heq
    | endExec p =>
        rw [step] at hs'
        split at hs' <;> cases hs'
        exact h.update p fun k hk => by cases hk
  · intro hnext
    cases a with
    | startExec p =>
        intro q k l hp hq heq
        have hne : p ≠ q := by
          rintro rfl
          cases hp.symm.trans hq
        refine hne (hnext _ (by rw [step, hp]) p q k l ?_ ?_ heq)
        · exact Function.update_self ..
        · exact (Function.update_of_ne hne.symm ..).trans hq
    | _ => trivial

omit [DecidableEq π] in
theorem init_apart (size : ℕ) : ({} : NumberedCalls π).Apart size := fun _ _ _ _ hp => by cases hp

/-! ## The connections of numbered calls -/

def connOf (conns : List κ) (k : ℕ) : Option κ := conns[k % conns.length]?

/-- The calls on the connections whose turn it was when they were picked. -/
def onConns (conns : List κ) (n : NumberedCalls π) : DataQueries κ π where
  manager := { conns, i := Int32.ofNat n.picks }
  calls p := (n.calls p).bind (connOf conns)

variable {conns : List κ}

theorem onConns_update (n : NumberedCalls π) (picks : ℕ) (p : π) (call : SelectUserCall ℕ) :
    onConns conns ⟨picks, Function.update n.calls p call⟩ =
      { (n.onConns conns).setCall p (call.bind (connOf conns)) with
        manager := { conns, i := Int32.ofNat picks } } :=
  congrArg (DataQueries.mk _) <| funext fun q =>
    Function.apply_update (fun _ => SelectUserCall.bind (connOf conns)) n.calls p call q

/-- The manager does what the numbers say as long as its counter is not exhausted. -/
theorem step_onConns (hconns : conns ≠ []) (a : Action π)
    (hpicks : a.isPick → n.picks < 2 ^ 31) :
    DataQueries.step (n.onConns conns) a = (n.step a).map (onConns conns) := by
  have hcalls : ∀ p, (n.onConns conns).calls p = (n.calls p).bind (connOf conns) := fun _ => rfl
  cases a with
  | pickContext p =>
      have hpick := RoundRobin.pick_ofNat hconns (hpicks rfl)
      rw [step, DataQueries.step, hcalls]
      cases hcall : n.calls p with
      | idle =>
          rw [Option.map_some, onConns_update]
          simp only [SelectUserCall.bind, onConns, PGManager.pickContext, hpick]
          rfl
      | _ => rfl
  | startExec p =>
      rw [step, DataQueries.step, hcalls]
      cases hcall : n.calls p with
      | picked c => exact congrArg some (onConns_update n n.picks p (.executing c)).symm
      | _ => rfl
  | endExec p =>
      rw [step, DataQueries.step, hcalls]
      cases hcall : n.calls p with
      | executing c => exact congrArg some (onConns_update n n.picks p .idle).symm
      | _ => rfl

theorem step_picks {a : Action π} (hs' : n.step a = some n') :
    n'.picks = if a.isPick then n.picks + 1 else n.picks := by
  cases a <;>
  · rw [step] at hs'
    split at hs' <;> cases hs'
    rfl

theorem run_onConns (hconns : conns ≠ []) {acts : List (Action π)} {n : NumberedCalls π}
    (hpicks : n.picks + acts.countP Action.isPick < 2 ^ 31) :
    run DataQueries.step (n.onConns conns) acts = (run step n acts).map (onConns conns) := by
  induction acts generalizing n with
  | nil => rfl
  | cons a acts ih =>
      rw [List.countP_cons] at hpicks
      rw [run_cons, run_cons, step_onConns hconns a (by intro ha; omega)]
      cases hs' : n.step a with
      | none => rfl
      | some n' =>
          have hnext := step_picks hs'
          refine ih ?_
          split_ifs at hnext hpicks <;> omega

omit [DecidableEq π] in
theorem onConns_exclusive_iff (hconns : conns ≠ []) (hnodup : conns.Nodup) :
    (n.onConns conns).Exclusive ↔ n.Apart conns.length := by
  have hpos := List.length_pos_iff.mpr hconns
  have hcalls : ∀ p c, (n.onConns conns).calls p = .executing (some c) ↔
      ∃ k, n.calls p = .executing (some k) ∧ conns[k % conns.length]? = some c := by
    intro p c
    cases hcall : n.calls p with
    | executing k => cases k <;> simp [onConns, connOf, hcall, SelectUserCall.bind]
    | _ => simp [onConns, connOf, hcall, SelectUserCall.bind]
  constructor
  · intro h p q k l hp hq heq
    have hlt := Nat.mod_lt k hpos
    have hk := List.getElem?_eq_getElem hlt
    exact h p q _ ((hcalls p _).mpr ⟨k, hp, hk⟩) ((hcalls q _).mpr ⟨l, hq, heq ▸ hk⟩)
  · intro h p q c hp hq
    obtain ⟨k, hp, hk⟩ := (hcalls p c).mp hp
    obtain ⟨l, hq, hl⟩ := (hcalls q c).mp hq
    exact h p q k l hp hq
      ((List.getElem?_inj (Nat.mod_lt k hpos) hnodup).mp (hk.trans hl.symm))

end NumberedCalls

namespace DataQueries

variable [DecidableEq π]

/-- In every state of a run no connection has two queries exactly if, whenever a query starts, it
and the running ones have been picked a number of turns apart that is not a multiple of the number
of connections; in particular if no call is in progress for a whole round of picks. -/
theorem queries_exclusive_iff (conns : List κ) (hconns : conns ≠ []) (hnodup : conns.Nodup)
    (acts : List (Action π)) (hpicks : acts.countP Action.isPick < 2 ^ 31) :
    ((∀ pre s, pre <+: acts → run step (init conns) pre = some s → s.Exclusive) ↔
      Along NumberedCalls.step (NumberedCalls.StartsApart conns.length) {} acts) ∧
    (Along NumberedCalls.step (NumberedCalls.WithinRound conns.length) {} acts →
      ∀ pre s, pre <+: acts → run step (init conns) pre = some s → s.Exclusive) := by
  have hiff : (∀ pre s, pre <+: acts → run step (init conns) pre = some s → s.Exclusive) ↔
      Along NumberedCalls.step (NumberedCalls.StartsApart conns.length) {} acts := by
    rw [along_iff_invariant (fun n a hn => NumberedCalls.startsApart_iff hn a)
      (NumberedCalls.init_apart conns.length)]
    have hrun : ∀ pre, pre <+: acts → run step (init conns) pre =
        (run NumberedCalls.step ({} : NumberedCalls π) pre).map (NumberedCalls.onConns conns) := by
      intro pre hpre
      obtain ⟨rest, rfl⟩ := hpre
      rw [List.countP_append] at hpicks
      have hinit : init conns = ({} : NumberedCalls π).onConns conns := rfl
      rw [hinit]
      exact NumberedCalls.run_onConns hconns (by dsimp only; omega)
    refine forall_congr' fun pre => ?_
    constructor
    · intro h n hpre hn
      exact (NumberedCalls.onConns_exclusive_iff hconns hnodup).mp
        (h _ hpre (by rw [hrun pre hpre, hn, Option.map_some]))
    · intro h s hpre hs
      rw [hrun pre hpre] at hs
      obtain ⟨n, hn, rfl⟩ := Option.map_eq_some_iff.mp hs
      exact (NumberedCalls.onConns_exclusive_iff hconns hnodup).mpr (h n hpre hn)
  exact ⟨hiff, fun h => hiff.mpr (NumberedCalls.startsApart_of_withinRound h)⟩

/-- Two threads in turn on two connections, the first one with a second query. -/
theorem lock_step_exclusive :
    ∃ s : DataQueries ℕ Bool, run step (init [10, 11]) [.pickContext false, .pickContext true,
      .startExec false, .endExec false, .startExec true, .pickContext false,
      .startExec false] = some s ∧ s.Exclusive :=
  ⟨_, rfl, (queries_exclusive_iff [10, 11] (by decide) (by decide) [.pickContext false,
    .pickContext true, .startExec false, .endExec false, .startExec true, .pickContext false,
    .startExec false] (by decide)).2 (by decide) _ _ List.prefix_rfl rfl⟩

end DataQueries
end TinyGameServer
