import TinyGameServer.FdWatcher
import TinyGameServer.Transitions

/-!
# Is the interest of a watcher registered?

A run is any sequence of the member functions of `FdWatcher` and then the destructor. Before its
first `Start` the event is uninitialised and `ev_type_` holds the mask of the constructor, so
that calls which see nothing to change do not start it, and `DisableAllEvent` deletes an event
that was never assigned. From the first `Start` on libevent and `ev_type_` agree.
-/

namespace TinyGameServer.FdWatcher

inductive Call where
  | start
  | enableReadEvent
  | enableWriteEvent
  | disableReadEvent
  | disableWriteEvent
  | disableAllEvent
  deriving DecidableEq

def call (w : FdWatcher) : Call → FdWatcher
  | .start => w.start
  | .enableReadEvent => w.enableReadEvent
  | .enableWriteEvent => w.enableWriteEvent
  | .disableReadEvent => w.disableReadEvent
  | .disableWriteEvent => w.disableWriteEvent
  | .disableAllEvent => w.disableAllEvent

def step (w : FdWatcher) (c : Call) : Option FdWatcher := some (w.call c)

def destroy (w : FdWatcher) : EventRecord := if w.added then w.event.eventDel else w.event

/-- libevent allows all calls that are made, and after an `Enable` or `Disable` it has the
interest that `ev_type_` says. -/
def Registers (w : FdWatcher) (c : Call) : Prop :=
  (w.call c).event ≠ .misused ∧ (c ≠ .start → (w.call c).registered = (w.call c).evType)

def Starts (w : FdWatcher) : Call → Prop
  | .start => True
  | .enableReadEvent => ¬ w.isReading
  | .enableWriteEvent => ¬ w.isWriting
  | .disableReadEvent => w.isReading
  | .disableWriteEvent => w.isWriting
  | .disableAllEvent => False

/-- The watcher has been started, or the call starts it, or there is no interest and the call
is not `DisableAllEvent`. -/
def Prompt (w : FdWatcher) (c : Call) : Prop :=
  w.added = true ∨ w.Starts c ∨ (c ≠ .disableAllEvent ∧ w.evType = Interest.none)

/-! ## Three phases -/

/-- The states of a watcher as long as nothing has gone wrong. -/
inductive Phase : FdWatcher → Prop
  | fresh (evType : Interest) :
      Phase { evType, event := .uninitialised, added := false }
  | live (evType : Interest) : Phase { evType, event := .added evType, added := true }
  | idle (interest : Interest) :
      Phase { evType := Interest.none, event := .assigned interest, added := true }

variable {w : FdWatcher}

theorem Phase.start (h : w.Phase) (evType : Interest) :
    { w with evType : FdWatcher }.start = { evType, event := .added evType, added := true } := by
  cases h <;> rfl

theorem Phase.call_of_starts (h : w.Phase) {c : Call} (hc : w.Starts c) :
    ∃ evType, w.call c = { evType, event := .added evType, added := true } := by
  cases c with
  | start => exact ⟨_, h.start w.evType⟩
  | enableReadEvent =>
      rw [call, enableReadEvent, if_neg hc]
      exact ⟨_, h.start _⟩
  | enableWriteEvent =>
      rw [call, enableWriteEvent, if_neg hc]
      exact ⟨_, h.start _⟩
  | disableReadEvent =>
      have hread : w.isReading = true := hc
      rw [call, disableReadEvent, if_pos hread]
      exact ⟨_, h.start _⟩
  | disableWriteEvent =>
      have hwrite : w.isWriting = true := hc
      rw [call, disableWriteEvent, if_pos hwrite]
      exact ⟨_, h.start _⟩
  | disableAllEvent => exact hc.elim

theorem call_of_not_starts {c : Call} (hc : ¬ w.Starts c) (hall : c ≠ .disableAllEvent) :
    w.call c = w := by
  cases c with
  | start => exact absurd trivial hc
  | enableReadEvent => exact if_pos (Decidable.of_not_not hc)
  | enableWriteEvent => exact if_pos (Decidable.of_not_not hc)
  | disableReadEvent => exact if_neg hc
  | disableWriteEvent => exact if_neg hc
  | disableAllEvent => exact absurd rfl hall

/-- Only a watcher that was never started can have an interest that is not registered. -/
theorem Phase.registered_iff (h : w.Phase) :
    w.registered = w.evType ↔ w.added = true ∨ w.evType = Interest.none := by
  cases h with
  | fresh evType =>
      change Interest.none = evType ↔ _
      simp [eq_comm]
  | live evType => exact iff_of_true rfl (Or.inl rfl)
  | idle interest => exact iff_of_true rfl (Or.inl rfl)

theorem Phase.not_misused (h : w.Phase) : w.event ≠ .misused := by
  cases h <;> rintro ⟨⟩

theorem Phase.destroy (h : w.Phase) : w.destroy ≠ .misused := by
  cases h <;> rintro ⟨⟩

theorem Phase.disableAllEvent (h : w.Phase) (hadded : w.added = true) :
    w.disableAllEvent.Phase ∧ w.disableAllEvent.registered = Interest.none := by
  cases h with
  | fresh evType => cases hadded
  | live evType => exact ⟨.idle evType, rfl⟩
  | idle interest => exact ⟨.idle interest, rfl⟩

/-! ## One call -/

theorem Phase.registers_iff (h : w.Phase) (c : Call) : w.Registers c ↔ w.Prompt c := by
  by_cases hc : w.Starts c
  · obtain ⟨evType, hcall⟩ := h.call_of_starts hc
    refine iff_of_true ?_ (Or.inr (Or.inl hc))
    rw [Registers, hcall]
    exact ⟨(Phase.live evType).not_misused, fun _ => rfl⟩
  · by_cases hall : c = .disableAllEvent
    · subst hall
      constructor
      · rintro ⟨hmisused, -⟩
        cases h with
        | fresh evType => exact absurd rfl hmisused
        | live evType => exact Or.inl rfl
        | idle interest => exact Or.inl rfl
      · intro hprompt
        rcases hprompt with hadded | hstarts | ⟨hne, -⟩
        · obtain ⟨hphase, hregistered⟩ := h.disableAllEvent hadded
          exact ⟨hphase.not_misused, fun _ => hregistered⟩
        · exact absurd hstarts hc
        · exact absurd rfl hne
    · have hstart : c ≠ .start := fun heq => hc (heq ▸ trivial)
      rw [Registers, Prompt, call_of_not_starts hc hall, h.registered_iff]
      simp only [h.not_misused, hstart, hc, hall, ne_eq, not_false_eq_true, true_and,
        true_imp_iff, false_or]

theorem Phase.call (h : w.Phase) {c : Call} (hprompt : w.Prompt c) : (w.call c).Phase := by
  by_cases hc : w.Starts c
  · obtain ⟨evType, hcall⟩ := h.call_of_starts hc
    rw [hcall]
    exact .live evType
  · by_cases hall : c = .disableAllEvent
    · subst hall
      rcases hprompt with hadded | hstarts | ⟨hne, -⟩
      · exact (h.disableAllEvent hadded).1
      · exact absurd hstarts hc
      · exact absurd rfl hne
    · rw [call_of_not_starts hc hall]
      exact h

/-- For every mask and every sequence of calls: libevent allows all of them and the destructor,
and has the interest of `ev_type_` after every `Enable` and `Disable`, if and only if every call
before the first `Start` starts the watcher or finds no interest in it and is not
`DisableAllEvent`. -/
theorem interest_registered_iff (evType : Interest) (calls : List Call) :
    (Along step Registers (new evType) calls ∧
      ∀ w, run step (new evType) calls = some w → w.destroy ≠ .misused) ↔
    Along step Prompt (new evType) calls := by
  have hstep : ∀ w c w', Phase w → w.Prompt c → step w c = some w' → w'.Phase := by
    intro w c w' h hprompt hw'
    cases hw'
    exact h.call hprompt
  have hiff := along_iff (fun _ c h => h.registers_iff c) hstep (Phase.fresh evType) calls
  constructor
  · rintro ⟨hregisters, -⟩
    exact hiff.mp hregisters
  · intro hprompt
    refine ⟨hiff.mpr hprompt, fun w hrun => ?_⟩
    exact (run_invariant_of_along hstep (Phase.fresh evType) hprompt hrun).destroy

/-- A watcher that was built for reading does not wait for anything after `EnableReadEvent`, and
`DisableAllEvent` on a new watcher deletes an event that was never assigned. -/
theorem first_calls_fail :
    ¬ Along step Registers (new ⟨true, false⟩) [.enableReadEvent] ∧
      ¬ Along step Registers (new Interest.none) [.disableAllEvent] := by
  constructor
  · rintro ⟨⟨-, hregistered⟩, -⟩
    cases hregistered (by decide)
  · rintro ⟨⟨hmisused, -⟩, -⟩
    exact hmisused rfl

end TinyGameServer.FdWatcher
