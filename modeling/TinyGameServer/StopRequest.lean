import TinyGameServer.WorkThread

/-!
# Is a stop request lost?

`Stop` does nothing unless it sees `Running`, and `Run` stores `Running` whatever was there. A
request that comes before `Run` has stored it is lost; a run keeps every request if and only if
none comes so early.
-/

namespace TinyGameServer

/-- The owner is in one of the loops of `Stop`, `exited` behind `event_base_loopexit`. -/
def OwnerPc.Looping {φ : Type} (exited : Bool) : OwnerPc φ → Prop
  | testing b | processing b | batch b _ => b = exited
  | _ => False

theorem OwnerPc.Looping.unique {φ : Type} {owner : OwnerPc φ} {b b' : Bool}
    (h : owner.Looping b) (h' : owner.Looping b') : b = b' := by
  cases owner with
  | testing => exact h.symm.trans h'
  | processing => exact h.symm.trans h'
  | batch => exact h.symm.trans h'
  | _ => exact absurd h id

namespace WorkThread

variable {φ : Type} {s s' : WorkThread φ}

/-- Once a call of `Stop` has returned, the loop has been told to exit and is not running. -/
def StopHolds (s : WorkThread φ) (a : Action φ) : Prop :=
  ∀ s', step s a = some s' → s'.stopReturned = true →
    s'.exiting = true ∧ s'.loopStatus ≠ .Running

/-- `Stop` is not called before `Run` has stored its status. -/
def StopsAfterRun (s : WorkThread φ) : Action φ → Prop
  | .stop => s.owner = .idle → s.loopStatus ≠ .Initial
  | _ => True

structure Invariant (s : WorkThread φ) : Prop where
  fresh : s.loopStatus = .Initial → s.exiting = false
  worker : s.worker = .starting ∨ s.worker = .entered → s.loopStatus = .Initial
  left : s.worker = .left → s.exiting = true
  sawRunning : s.owner = .sawRunning → s.loopStatus ≠ .Initial
  stopping : ∀ b, s.owner.Looping b → s.loopStatus = .Stopped
  exited : s.owner.Looping true → s.exiting = true
  told : s.loopStatus = .Stopped → s.exiting = true ∨ s.owner.Looping false
  exiting : s.exiting = true → s.loopStatus = .Stopped
  returned : s.stopReturned = true → s.exiting = true

theorem init_invariant : (init : WorkThread φ).Invariant where
  fresh _ := rfl
  worker _ := rfl
  left h := by cases h
  sawRunning h := by cases h
  stopping _ h := absurd h id
  exited h := absurd h id
  told h := by cases h
  exiting h := by cases h
  returned h := by cases h

theorem Invariant.move (h : s.Invariant) {owner : OwnerPc φ} {b : Bool}
    (hold : s.owner.Looping b) (hnew : owner.Looping b) (pendingFunctors : List φ) :
    ({ s with owner, pendingFunctors } : WorkThread φ).Invariant := by
  refine { h with
    sawRunning := fun heq => ?_
    stopping := fun _ _ => h.stopping b hold
    exited := fun htrue => ?_
    told := fun _ => ?_ }
  · cases heq
    exact absurd hnew id
  · rw [hnew.unique htrue] at hold
    exact h.exited hold
  · cases b with
    | true => exact .inl (h.exited hold)
    | false => exact .inr hnew

theorem stop_invariant (h : s.Invariant) (hidle : s.owner = .idle)
    (hstatus : s.loopStatus ≠ .Initial) (hrunning : s.loopStatus ≠ .Running) :
    s.exiting = true := by
  have hstopped : s.loopStatus = .Stopped := by
    cases hs : s.loopStatus with
    | Initial => exact absurd hs hstatus
    | Running => exact absurd hs hrunning
    | Stopped => rfl
  rcases h.told hstopped with hexiting | hlooping
  · exact hexiting
  · rw [hidle] at hlooping
    exact absurd hlooping id

/-- Nobody has stopped a loop that has not run yet. -/
theorem runLoop_invariant (h : s.Invariant) (hworker : s.worker = .entered) :
    ({ s with worker := .looping, loopStatus := .Running } : WorkThread φ).Invariant := by
  have hinitial := h.worker (.inr hworker)
  have hexiting := h.fresh hinitial
  refine ⟨fun _ => hexiting, ?_, ?_, ?_, ?_, h.exited, ?_, ?_, h.returned⟩
  · rintro (heq | heq) <;> cases heq
  · intro heq
    cases heq
  · rintro - heq
    cases heq
  · intro b hlooping
    rw [h.stopping b hlooping] at hinitial
    cases hinitial
  · intro heq
    cases heq
  · intro htrue
    rw [hexiting] at htrue
    cases htrue

theorem endLoop_invariant (h : s.Invariant) (hworker : s.worker = .left) :
    ({ s with worker := .ended, loopStatus := .Stopped } : WorkThread φ).Invariant := by
  have hexiting := h.left hworker
  refine ⟨?_, ?_, ?_, ?_, fun _ _ => rfl, h.exited, fun _ => .inl hexiting, fun _ => rfl,
    h.returned⟩
  · intro heq
    cases heq
  · rintro (heq | heq) <;> cases heq
  · intro heq
    cases heq
  · rintro - heq
    cases heq

theorem setStopped_invariant (h : s.Invariant) (howner : s.owner = .sawRunning) :
    ({ s with owner := .testing false, loopStatus := .Stopped } : WorkThread φ).Invariant := by
  have hstatus := h.sawRunning howner
  refine ⟨?_, fun heq => absurd (h.worker heq) hstatus, h.left, ?_, fun _ _ => rfl, ?_,
    fun _ => .inr rfl, fun _ => rfl, h.returned⟩
  · intro heq
    cases heq
  · intro heq
    cases heq
  · intro heq
    cases heq

theorem loopexit_invariant (h : s.Invariant) (howner : s.owner.Looping false) :
    ({ s with owner := .testing true, exiting := true } : WorkThread φ).Invariant := by
  have hstopped := h.stopping false howner
  refine ⟨?_, h.worker, fun _ => rfl, ?_, fun _ _ => hstopped, fun _ => rfl, fun _ => .inl rfl,
    fun _ => hstopped, fun _ => rfl⟩
  · intro heq
    rw [hstopped] at heq
    cases heq
  · intro heq
    cases heq

theorem Invariant.rest (h : s.Invariant) (htold : s.loopStatus = .Stopped → s.exiting = true)
    {stopReturned : Bool} (hreturned : stopReturned = true → s.exiting = true) :
    ({ s with owner := .idle, stopReturned } : WorkThread φ).Invariant := by
  refine { h with
    sawRunning := fun heq => ?_
    stopping := fun _ hlooping => absurd hlooping id
    exited := fun hlooping => absurd hlooping id
    told := fun hstopped => .inl (htold hstopped)
    returned := hreturned }
  cases heq

theorem stopCall_invariant {s' : WorkThread φ} (h : s.Invariant) (hguard : s.StopsAfterRun .stop)
    (hs' : step s .stop = some s') : s'.Invariant := by
  rw [step] at hs'
  split at hs'
  · rename_i hidle
    have hstatus := hguard hidle
    split_ifs at hs' with hrunning
    · cases hs'
      refine { h with
        sawRunning := fun _ => hstatus
        stopping := fun _ hlooping => absurd hlooping id
        exited := fun hlooping => absurd hlooping id
        told := fun hstopped => ?_ }
      rw [hrunning] at hstopped
      cases hstopped
    · cases hs'
      have hexiting := stop_invariant h hidle hstatus hrunning
      exact { h with returned := fun _ => hexiting }
  · cases hs'

theorem looping_of_owner {pc : OwnerPc φ} (b : Bool) (howner : s.owner = pc)
    (hlooping : pc.Looping b) : s.owner.Looping b := by
  rwa [howner]

theorem testPending_invariant {s' : WorkThread φ} (h : s.Invariant)
    (hs' : step s .testPending = some s') : s'.Invariant := by
  rw [step] at hs'
  split at hs'
  · rename_i howner
    split at hs' <;> cases hs'
    · refine h.move (looping_of_owner _ howner rfl) ?_ _
      exact rfl
    · exact loopexit_invariant h (looping_of_owner false howner rfl)
    · have hexiting := h.exited (looping_of_owner true howner rfl)
      exact h.rest (fun _ => hexiting) (fun _ => hexiting)
  · cases hs'

theorem step_invariant {a : Action φ} (h : s.Invariant) (hguard : s.StopsAfterRun a)
    (hs' : step s a = some s') : s'.Invariant := by
  cases a with
  | construct =>
      rw [step] at hs'
      split at hs' <;> cases hs'
      rename_i howner
      have htold := h.told
      rw [howner] at htold
      exact h.rest (fun hstopped => (htold hstopped).resolve_right id) h.returned
  | enter =>
      rw [step] at hs'
      split_ifs at hs' with hworker
      cases hs'
      exact { h with
        worker := fun _ => h.worker (.inl hworker)
        left := fun heq => by cases heq }
  | runLoop =>
      rw [step] at hs'
      split_ifs at hs' with hworker
      cases hs'
      exact runLoop_invariant h hworker
  | update =>
      rw [step] at hs'
      split_ifs at hs'
      cases hs'
      exact { h with }
  | leave =>
      rw [step] at hs'
      split_ifs at hs' with hcond
      cases hs'
      exact { h with
        worker := fun heq => by rcases heq with heq | heq <;> cases heq
        left := fun _ => hcond.2 }
  | endLoop =>
      rw [step] at hs'
      split_ifs at hs' with hworker
      cases hs'
      exact endLoop_invariant h hworker
  | finish =>
      rw [step] at hs'
      split_ifs at hs'
      cases hs'
      exact { h with
        worker := fun heq => by rcases heq with heq | heq <;> cases heq
        left := fun heq => by cases heq }
  | post f =>
      cases hs'
      exact { h with }
  | stop => exact stopCall_invariant h hguard hs'
  | setStopped =>
      rw [step] at hs'
      split at hs' <;> cases hs'
      rename_i howner
      exact setStopped_invariant h howner
  | testPending => exact testPending_invariant h hs'
  | swap =>
      rw [step] at hs'
      split at hs' <;> cases hs'
      rename_i b howner
      refine h.move (looping_of_owner b howner rfl) ?_ _
      exact rfl
  | callFunctor =>
      rw [step] at hs'
      split at hs' <;> cases hs'
      · rename_i b howner
        refine h.move (looping_of_owner b howner rfl) ?_ _
        exact rfl
      · rename_i b f rest howner
        refine h.move (looping_of_owner b howner rfl) ?_ _
        exact rfl

theorem stopHolds_iff {a : Action φ} (h : s.Invariant) : s.StopHolds a ↔ s.StopsAfterRun a := by
  constructor
  · intro hholds
    cases a with
    | stop =>
        intro hidle hinitial
        have hstep : step s .stop = some { s with stopReturned := true } := by
          simp [step, hidle, hinitial]
        have hexiting := (hholds _ hstep rfl).1
        rw [h.fresh hinitial] at hexiting
        cases hexiting
    | _ => trivial
  · intro hguard s' hs' hreturned
    have hinv := step_invariant h hguard hs'
    have hexiting := hinv.returned hreturned
    refine ⟨hexiting, fun hrunning => ?_⟩
    have hstopped := hinv.exiting hexiting
    rw [hrunning] at hstopped
    cases hstopped

/-- Over every run: after a call of `Stop` has returned, the loop has been told to exit and never
is running again, if and only if no call comes before `Run` has stored `Running`. -/
theorem stop_not_lost_iff (acts : List (Action φ)) :
    Along step StopHolds (init : WorkThread φ) acts ↔
      Along step StopsAfterRun (init : WorkThread φ) acts :=
  along_iff (fun _ _ => stopHolds_iff) (fun _ _ _ => step_invariant) init_invariant acts

/-- The owner stops the thread right after its construction, and the loop runs. -/
theorem early_stop_is_lost :
    ¬ Along step StopHolds (init : WorkThread Unit) [.construct, .stop, .enter, .runLoop] := by
  rintro ⟨-, h⟩
  have hstop := (h _ rfl).1
  cases (hstop _ rfl rfl).1

end WorkThread
end TinyGameServer
