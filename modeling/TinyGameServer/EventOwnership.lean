import TinyGameServer.WatcherInterest
import TinyGameServer.Watchers

/-!
# Who owns a registered event?

A move takes the event along, but the registration keeps the address of the source as its argument
and the source keeps `added_`. An assignment forgets the event that the target had. Both go wrong
exactly when the watcher that loses its event has been started: nothing takes the event out of
libevent first, as `Start` and the destructor do.
-/

namespace TinyGameServer

/-- What libevent should have under the event of a watcher at `p`. -/
def WatcherObject.cell {ι κ α ε : Type} (w : WatcherObject ι κ ε) (p : α) : EventCell α :=
  if w.added then ⟨.added w.evType, some p⟩ else .new

namespace Watchers

variable {ι κ α ε : Type} {s s' : Watchers ι κ α ε}

def Owns (s : Watchers ι κ α ε) (p : α) (e : ε) : Prop :=
  ∃ w, s.objects p = some w ∧ w.event = some e

/-- Every registered event belongs to one watcher, which is its callback argument. -/
def Sound (s : Watchers ι κ α ε) : Prop :=
  ∀ e cell, s.events e = some cell → cell.Registered →
    (∃! p, s.Owns p e) ∧ ∀ p, s.Owns p e → cell.arg = some p

/-- A destructor that calls `event_del` has an event that is registered. -/
def DeletesRegistered (s : Watchers ι κ α ε) : Action ι κ α ε → Prop
  | .destroy p => ∀ w, s.objects p = some w → w.added = true →
    ∃ e cell, w.event = some e ∧ s.events e = some cell ∧ cell.Registered
  | _ => True

/-- The watchers whose event is taken away or forgotten. -/
def Action.disowned : Action ι κ α ε → List α
  | .moveConstruct _ f => [f]
  | .copyAssign p _ _ => [p]
  | .moveAssign p f => [p, f]
  | _ => []

section Conditions

variable [DecidableEq α] [DecidableEq ε]

def StepSound (s : Watchers ι κ α ε) (a : Action ι κ α ε) : Prop :=
  (∀ s', step s a = some s' → s'.Sound) ∧ s.DeletesRegistered a

/-- If the action is possible, no started watcher loses its event. -/
def DisownsUnstarted (s : Watchers ι κ α ε) (a : Action ι κ α ε) : Prop :=
  (step s a).isSome → ∀ p ∈ a.disowned, ∀ w, s.objects p = some w → w.added = false

end Conditions

/-! ## Started watchers have their events -/

structure Owned (s : Watchers ι κ α ε) : Prop where
  cell : ∀ {p : α} {w : WatcherObject ι κ ε} {e : ε}, s.objects p = some w → w.event = some e →
    s.events e = some (w.cell p)
  pointed : ∀ {p : α} {w : WatcherObject ι κ ε}, s.objects p = some w → w.added = true →
    ∃ e, w.event = some e
  distinct : ∀ {p q : α} {e : ε}, s.Owns p e → s.Owns q e → p = q
  owner : ∀ {e : ε} {cell : EventCell α}, s.events e = some cell → cell.Registered →
    ∃ p, s.Owns p e

theorem registered_cell_iff {w : WatcherObject ι κ ε} {p : α} :
    (w.cell p).Registered ↔ w.added = true := by
  rw [WatcherObject.cell]
  split
  · next hadded => exact iff_of_true ⟨w.evType, rfl⟩ hadded
  · next hadded => exact iff_of_false EventCell.not_registered_new hadded

theorem init_owned : (init : Watchers ι κ α ε).Owned where
  cell h := by cases h
  pointed h := by cases h
  distinct := by
    rintro p q e ⟨w, hp, -⟩
    cases hp
  owner h := by cases h

theorem Owned.started (h : s.Owned) {p : α} {w : WatcherObject ι κ ε} {e : ε}
    {cell : EventCell α} (hp : s.objects p = some w) (hevent : w.event = some e)
    (he : s.events e = some cell) (hregistered : cell.Registered) : w.added = true := by
  rw [h.cell hp hevent] at he
  cases he
  exact registered_cell_iff.mp hregistered

theorem Owned.owner_ne (h : s.Owned) {p : α} {e : ε} {cell : EventCell α}
    (hp : ∀ w, s.objects p = some w → w.added = false) (he : s.events e = some cell)
    (hregistered : cell.Registered) : ∃ q, q ≠ p ∧ s.Owns q e := by
  obtain ⟨q, w, hq, hevent⟩ := h.owner he hregistered
  refine ⟨q, ?_, w, hq, hevent⟩
  rintro rfl
  cases (hp w hq).symm.trans (h.started hq hevent he hregistered)

theorem Owned.event_of_started (h : s.Owned) {p : α} {w : WatcherObject ι κ ε}
    (hp : s.objects p = some w) (hadded : w.added = true) :
    ∃ e, w.event = some e ∧ s.events e = some ⟨.added w.evType, some p⟩ := by
  obtain ⟨e, hevent⟩ := h.pointed hp hadded
  refine ⟨e, hevent, ?_⟩
  rw [h.cell hp hevent, WatcherObject.cell, if_pos hadded]

theorem Owned.sound (h : s.Owned) : s.Sound := by
  intro e cell he hregistered
  obtain ⟨p, howns⟩ := h.owner he hregistered
  refine ⟨⟨p, howns, fun q hq => h.distinct hq howns⟩, ?_⟩
  rintro q ⟨w, hq, hevent⟩
  have hadded := h.started hq hevent he hregistered
  rw [h.cell hq hevent, WatcherObject.cell, if_pos hadded] at he
  cases he
  rfl

theorem Owned.deletesRegistered (h : s.Owned) (a : Action ι κ α ε) : s.DeletesRegistered a := by
  cases a with
  | destroy p =>
      intro w hp hadded
      obtain ⟨e, hevent, he⟩ := h.event_of_started hp hadded
      exact ⟨e, _, hevent, he, _, rfl⟩
  | _ => trivial

/-! ## One watcher changes -/

section Change

variable [DecidableEq α]

theorem owns_setObject {p q : α} {w : Option (WatcherObject ι κ ε)} {e : ε} :
    (s.setObject p w).Owns q e ↔
      q = p ∧ (∃ v, w = some v ∧ v.event = some e) ∨ q ≠ p ∧ s.Owns q e := by
  rw [Owns]
  by_cases hq : q = p
  · subst hq
    simp
  · simp [setObject_ne hq, hq, Owns]

/-- The watcher at `p` becomes `w`, and the events of the other watchers stay as they are. -/
theorem Owned.change (h : s.Owned) {p : α} {w : Option (WatcherObject ι κ ε)}
    (hobjects : s'.objects = (s.setObject p w).objects)
    (hothers : ∀ q e, q ≠ p → s.Owns q e → s'.events e = s.events e)
    (hcell : ∀ v e, w = some v → v.event = some e →
      s'.events e = some (v.cell p) ∧ ∀ q, q ≠ p → ¬ s.Owns q e)
    (hpointed : ∀ v, w = some v → v.added = true → ∃ e, v.event = some e)
    (howner : ∀ e cell, s'.events e = some cell → cell.Registered →
      (∃ v, w = some v ∧ v.event = some e) ∨ ∃ q, q ≠ p ∧ s.Owns q e) : s'.Owned := by
  have howns : ∀ {q e}, s'.Owns q e ↔
      q = p ∧ (∃ v, w = some v ∧ v.event = some e) ∨ q ≠ p ∧ s.Owns q e := by
    intro q e
    rw [← owns_setObject, Owns, Owns, hobjects]
  constructor
  case cell =>
    intro q v e hq hevent
    rw [hobjects] at hq
    rcases of_setObject hq with ⟨rfl, hw⟩ | ⟨hqp, hq⟩
    · exact (hcell v e hw hevent).1
    · rw [hothers q e hqp ⟨v, hq, hevent⟩, h.cell hq hevent]
  case pointed =>
    intro q v hq hadded
    rw [hobjects] at hq
    rcases of_setObject hq with ⟨-, hw⟩ | ⟨-, hq⟩
    · exact hpointed v hw hadded
    · exact h.pointed hq hadded
  case distinct =>
    intro q r e hq hr
    rcases howns.mp hq with ⟨hqp, v, hw, hv⟩ | ⟨hqp, hq⟩ <;>
      rcases howns.mp hr with ⟨hrp, u, hw', hu⟩ | ⟨hrp, hr⟩
    · exact hqp.trans hrp.symm
    · exact absurd hr ((hcell v e hw hv).2 r hrp)
    · exact absurd hq ((hcell u e hw' hu).2 q hqp)
    · exact h.distinct hq hr
  case owner =>
    intro e cell he hregistered
    rcases howner e cell he hregistered with hnew | ⟨q, hqp, hq⟩
    · exact ⟨p, howns.mpr (.inl ⟨rfl, hnew⟩)⟩
    · exact ⟨q, howns.mpr (.inr ⟨hqp, hq⟩)⟩

theorem setObject_owned (h : s.Owned) {p : α} {w w' : WatcherObject ι κ ε}
    (hp : s.objects p = some w) (hevent : w'.event = w.event) (hcell : w'.cell p = w.cell p)
    (hadded : w'.added = w.added) : (s.setObject p (some w')).Owned := by
  refine h.change rfl (fun _ _ _ _ => rfl) ?_ ?_ ?_
  · intro v e hv he
    cases hv
    rw [hevent] at he
    refine ⟨(h.cell hp he).trans (congrArg some hcell.symm), fun q hqp hq => ?_⟩
    exact hqp (h.distinct hq ⟨w, hp, he⟩)
  · intro v hv hv'
    cases hv
    rw [hevent]
    exact h.pointed hp (hadded ▸ hv')
  · intro e cell he hregistered
    obtain ⟨q, hq⟩ := h.owner he hregistered
    by_cases hqp : q = p
    · subst hqp
      obtain ⟨v, hv, he⟩ := hq
      cases hp.symm.trans hv
      exact .inl ⟨w', rfl, hevent.trans he⟩
    · exact .inr ⟨q, hqp, hq⟩

theorem forget_owned (h : s.Owned) {p : α} {w : Option (WatcherObject ι κ ε)}
    (hp : ∀ v, s.objects p = some v → v.added = false)
    (hw : ∀ v, w = some v → v.event = none ∧ v.added = false) : (s.setObject p w).Owned := by
  refine h.change rfl (fun _ _ _ _ => rfl) ?_ ?_ ?_
  · intro v e hv he
    cases (hw v hv).1.symm.trans he
  · intro v hv hadded
    cases (hw v hv).2.symm.trans hadded
  · intro e cell he hregistered
    exact .inr (h.owner_ne hp he hregistered)

/-- A watcher that has not been started takes an event that is not registered and that nobody
has. -/
theorem adopt_owned (h : s.Owned) {p : α} {w : WatcherObject ι κ ε}
    (hp : ∀ v, s.objects p = some v → v.added = false) (hadded : w.added = false)
    (hevent : ∀ e, w.event = some e → s.events e = some .new ∧ ∀ q, ¬ s.Owns q e) :
    (s.setObject p (some w)).Owned := by
  refine h.change rfl (fun _ _ _ _ => rfl) ?_ ?_ ?_
  · intro v e hv he
    cases hv
    rw [WatcherObject.cell, hadded]
    exact ⟨(hevent e he).1, fun q _ => (hevent e he).2 q⟩
  · intro v hv hv'
    cases hv
    cases hadded.symm.trans hv'
  · intro e cell he hregistered
    exact .inr (h.owner_ne hp he hregistered)

theorem take_owned (h : s.Owned) {p f : α} {w wf : WatcherObject ι κ ε} (hne : p ≠ f)
    (hp : ∀ v, s.objects p = some v → v.added = false) (hf : s.objects f = some wf)
    (hadded : wf.added = false) (hevent : w.event = wf.event) (hwadded : w.added = false) :
    (s.take p f w wf).Owned := by
  have hforgotten : (s.setObject f (some wf.movedFrom)).Owned := by
    refine forget_owned h (fun v hv => ?_) fun v hv => ?_
    · cases hf.symm.trans hv
      exact hadded
    · cases hv
      exact ⟨rfl, hadded⟩
  have htake : s.take p f w wf = (s.setObject f (some wf.movedFrom)).setObject p (some w) := by
    rw [take, setObject, setObject, setObject, setObject, Function.update_comm hne]
  rw [htake]
  refine adopt_owned hforgotten (fun v hv => ?_) hwadded fun e he => ?_
  · rw [setObject_ne hne] at hv
    exact hp v hv
  · rw [hevent] at he
    constructor
    · rw [setObject_events, h.cell hf he, WatcherObject.cell, hadded]
      rfl
    · intro q hq
      rcases owns_setObject.mp hq with ⟨-, v, hv, hnone⟩ | ⟨hqf, hq⟩
      · cases hv
        cases hnone
      · exact hqf (h.distinct hq ⟨wf, hf, he⟩)

end Change

section NewEvent

variable [DecidableEq α] [DecidableEq ε]

theorem place_owned (h : s.Owned) {p : α} {w : WatcherObject ι κ ε} {e : ε}
    (hp : ∀ v, s.objects p = some v → v.added = false) (he : s.events e = none)
    (hevent : w.event = some e) (hadded : w.added = false) : (s.place p w e).Owned := by
  have hnobody : ∀ q, ¬ s.Owns q e := by
    rintro q ⟨v, hq, hv⟩
    cases he.symm.trans (h.cell hq hv)
  refine h.change rfl ?_ ?_ ?_ ?_
  · intro q e' _ hq
    refine setEvent_ne ?_ _
    rintro rfl
    exact hnobody q hq
  · intro v e' hv he'
    cases hv
    cases hevent.symm.trans he'
    rw [WatcherObject.cell, hadded]
    exact ⟨setEvent_self _ _, fun q _ => hnobody q⟩
  · intro v hv _
    cases hv
    exact ⟨e, hevent⟩
  · intro e' cell he' hregistered
    rcases of_setEvent he' with ⟨-, hcell⟩ | ⟨-, he'⟩
    · cases hcell
      exact absurd hregistered EventCell.not_registered_new
    · exact .inr (h.owner_ne hp he' hregistered)

theorem setEvent_owned (h : s.Owned) {p : α} {w : WatcherObject ι κ ε} {e : ε}
    {w' : Option (WatcherObject ι κ ε)} (hp : s.objects p = some w) (hevent : w.event = some e)
    (hw' : ∀ v, w' = some v → v.event = some e) :
    ((s.setObject p w').setEvent e (w'.map (·.cell p))).Owned := by
  refine h.change rfl ?_ ?_ ?_ ?_
  · intro q e' hqp hq
    refine setEvent_ne ?_ _
    rintro rfl
    exact hqp (h.distinct hq ⟨w, hp, hevent⟩)
  · intro v e' hv he'
    cases (hw' v hv).symm.trans he'
    rw [setEvent_self, hv]
    exact ⟨rfl, fun q hqp hq => hqp (h.distinct hq ⟨w, hp, hevent⟩)⟩
  · intro v hv _
    exact ⟨e, hw' v hv⟩
  · intro e' cell he' hregistered
    rcases of_setEvent he' with ⟨rfl, hcell⟩ | ⟨hee, he'⟩
    · obtain ⟨v, hv, -⟩ := Option.map_eq_some_iff.mp hcell
      exact .inl ⟨v, hv, hw' v hv⟩
    · obtain ⟨q, hq⟩ := h.owner he' hregistered
      refine .inr ⟨q, ?_, hq⟩
      rintro rfl
      obtain ⟨v, hv, hve⟩ := hq
      cases hp.symm.trans hv
      exact hee (Option.some.inj (hve.symm.trans hevent))

omit [DecidableEq α] [DecidableEq ε] in
/-- A single watcher with its event is in one of the phases of its life. -/
theorem Owned.phase (h : s.Owned) {p : α} {w : WatcherObject ι κ ε} {e : ε} {cell : EventCell α}
    (hp : s.objects p = some w) (hevent : w.event = some e) (he : s.events e = some cell) :
    FdWatcher.Phase { evType := w.evType, event := cell.record, added := w.added } := by
  cases (h.cell hp hevent).symm.trans he
  cases hadded : w.added with
  | false =>
      rw [WatcherObject.cell, hadded]
      exact .fresh w.evType
  | true =>
      rw [WatcherObject.cell, hadded]
      exact .live w.evType

theorem started_owned (h : s.Owned) {p : α} {w : WatcherObject ι κ ε} {e : ε}
    {cell : EventCell α} (hp : s.objects p = some w) (hevent : w.event = some e)
    (he : s.events e = some cell) : (s.started p w e cell).Owned := by
  have hphase := (h.phase hp hevent he).start w.evType
  have hstarted : s.started p w e cell =
      (s.setObject p (some { w with added := true })).setEvent e
        ((some { w with added := true : WatcherObject ι κ ε }).map (·.cell p)) := by
    rw [started, hphase]
    rfl
  rw [hstarted]
  refine setEvent_owned h hp hevent fun v hv => ?_
  cases hv
  exact hevent

theorem destroyed_owned (h : s.Owned) {p : α} {w : WatcherObject ι κ ε} {e : ε}
    {cell : EventCell α} (hp : s.objects p = some w) (hevent : w.event = some e)
    (he : s.events e = some cell) : (s.destroyed p w e cell).Owned := by
  have hdestroyed : s.destroyed p w e cell = (s.setObject p none).setEvent e none := by
    cases (h.cell hp hevent).symm.trans he
    cases hadded : w.added with
    | false =>
        rw [destroyed, WatcherObject.cell, hadded]
        rfl
    | true =>
        rw [destroyed, WatcherObject.cell, hadded]
        rfl
  rw [hdestroyed]
  refine setEvent_owned h hp hevent fun v hv => ?_
  cases hv

end NewEvent

/-! ## Started watchers that lose their event -/

variable [DecidableEq α] [DecidableEq ε]

theorem place_not_sound (h : s.Owned) {p : α} {w v : WatcherObject ι κ ε} {e : ε}
    (hp : s.objects p = some v) (hadded : v.added = true) (he : s.events e = none)
    (hevent : w.event = some e) : ¬ (s.place p w e).Sound := by
  intro hsound
  obtain ⟨e', hevent', he'⟩ := h.event_of_started hp hadded
  have hee : e' ≠ e := by
    rintro rfl
    cases he.symm.trans he'
  have hkept : (s.place p w e).events e' = some ⟨.added v.evType, some p⟩ :=
    (setEvent_ne hee _).trans he'
  obtain ⟨⟨q, hq, -⟩, -⟩ := hsound e' _ hkept ⟨_, rfl⟩
  rcases owns_setObject.mp hq with ⟨-, u, hw, hu⟩ | ⟨hqp, hq⟩
  · cases hw
    exact hee (Option.some.inj (hu.symm.trans hevent))
  · exact hqp (h.distinct hq ⟨v, hp, hevent'⟩)

omit [DecidableEq ε] in
theorem owns_take {p f q : α} {w wf : WatcherObject ι κ ε} {e : ε} :
    (s.take p f w wf).Owns q e ↔
      q ≠ f ∧ (q = p ∧ w.event = some e ∨ q ≠ p ∧ s.Owns q e) := by
  rw [take, owns_setObject, owns_setObject]
  simp [WatcherObject.movedFrom]

omit [DecidableEq ε] in
theorem take_not_sound_of_source (h : s.Owned) {p f : α} {w wf : WatcherObject ι κ ε}
    (hne : p ≠ f) (hf : s.objects f = some wf) (hadded : wf.added = true)
    (hevent : w.event = wf.event) : ¬ (s.take p f w wf).Sound := by
  intro hsound
  obtain ⟨e, hevent', he⟩ := h.event_of_started hf hadded
  have howns : (s.take p f w wf).Owns p e :=
    owns_take.mpr ⟨hne, .inl ⟨rfl, hevent.trans hevent'⟩⟩
  have harg := (hsound e _ he ⟨_, rfl⟩).2 p howns
  exact hne (Option.some.inj harg).symm

omit [DecidableEq ε] in
theorem take_not_sound_of_target (h : s.Owned) {p f : α} {w v wf : WatcherObject ι κ ε}
    (hne : p ≠ f) (hp : s.objects p = some v) (hadded : v.added = true)
    (hf : s.objects f = some wf) (hevent : w.event = wf.event) : ¬ (s.take p f w wf).Sound := by
  intro hsound
  obtain ⟨e, hevent', he⟩ := h.event_of_started hp hadded
  obtain ⟨⟨q, hq, -⟩, -⟩ := hsound e _ he ⟨_, rfl⟩
  rcases (owns_take.mp hq).2 with ⟨-, hw⟩ | ⟨hqp, hq⟩
  · exact hne (h.distinct ⟨v, hp, hevent'⟩ ⟨wf, hf, hevent.symm.trans hw⟩)
  · exact hqp (h.distinct hq ⟨v, hp, hevent'⟩)

/-! ## One step and whole programs -/

theorem step_owned {a : Action ι κ α ε} (h : s.Owned) (hguard : s.DisownsUnstarted a)
    (hs' : step s a = some s') : s'.Owned := by
  have hunstarted := hguard (by rw [hs']; rfl)
  cases step_cases hs' with
  | construct p e loop fd evType hp he =>
      refine place_owned h (fun v hv => ?_) he rfl rfl
      cases hp.symm.trans hv
  | copyConstruct p f e wf hp hf he =>
      refine place_owned h (fun v hv => ?_) he rfl rfl
      cases hp.symm.trans hv
  | moveConstruct p f wf hp hf =>
      have hne : p ≠ f := by
        rintro rfl
        cases hp.symm.trans hf
      have hadded := hunstarted f (List.mem_singleton_self f) wf hf
      refine take_owned h hne (fun v hv => ?_) hf hadded rfl hadded
      cases hp.symm.trans hv
  | copyAssign p f e w wf hp hf he hne =>
      exact place_owned h (hunstarted p (List.mem_singleton_self p)) he rfl rfl
  | moveAssign p f w wf hp hf hne =>
      have hadded := hunstarted f (List.mem_cons_of_mem p (List.mem_singleton_self f)) wf hf
      exact take_owned h hne (hunstarted p List.mem_cons_self) hf hadded rfl hadded
  | setReadCallBack p cb w hp => exact setObject_owned h hp rfl rfl rfl
  | setWriteCallBack p cb w hp => exact setObject_owned h hp rfl rfl rfl
  | start p w e cell hp hevent he => exact started_owned h hp hevent he
  | destroy p w e cell hp hevent he => exact destroyed_owned h hp hevent he
  | destroyNull p w hp hevent hadded =>
      refine forget_owned h (fun v hv => ?_) fun v hv => ?_
      · cases hp.symm.trans hv
        exact hadded
      · cases hv

theorem disownsUnstarted_of_sound {a : Action ι κ α ε} (h : s.Owned)
    (hs' : step s a = some s') (hsound : s'.Sound) : s.DisownsUnstarted a := by
  intro _ q hq v hv
  refine eq_false_of_ne_true fun hadded => ?_
  cases step_cases hs' with
  | moveConstruct p f wf hp hf =>
      obtain rfl := List.mem_singleton.mp hq
      cases hf.symm.trans hv
      refine take_not_sound_of_source h ?_ hf hadded rfl hsound
      rintro rfl
      cases hp.symm.trans hf
  | copyAssign p f e w wf hp hf he hne =>
      obtain rfl := List.mem_singleton.mp hq
      exact place_not_sound h hv hadded he rfl hsound
  | moveAssign p f w wf hp hf hne =>
      rcases List.mem_cons.mp hq with rfl | hq
      · refine take_not_sound_of_target h hne hv hadded hf ?_ hsound
        rfl
      · obtain rfl := List.mem_singleton.mp hq
        cases hf.symm.trans hv
        refine take_not_sound_of_source h hne hf hadded ?_ hsound
        rfl
  | _ => cases hq

theorem stepSound_iff {a : Action ι κ α ε} (h : s.Owned) :
    s.StepSound a ↔ s.DisownsUnstarted a := by
  constructor
  · rintro ⟨hsound, -⟩ hsome
    obtain ⟨s', hs'⟩ := Option.isSome_iff_exists.mp hsome
    exact disownsUnstarted_of_sound h hs' (hsound s' hs') hsome
  · intro hguard
    exact ⟨fun s' hs' => (step_owned h hguard hs').sound, h.deletesRegistered a⟩

theorem along_stepSound_iff (acts : List (Action ι κ α ε)) :
    Along step StepSound (init : Watchers ι κ α ε) acts ↔
      Along step DisownsUnstarted (init : Watchers ι κ α ε) acts :=
  along_iff (fun _ _ => stepSound_iff) (fun _ _ _ => step_owned) init_owned acts

/-- Over all programs: in every state each registered event belongs to one live watcher, which is
its callback argument, and no destructor deletes an event that is null or not registered, if and
only if no started watcher is moved from or assigned to. -/
theorem ownership_sound_iff (acts : List (Action ι κ α ε)) :
    ((init : Watchers ι κ α ε).Sound ∧ Along step StepSound (init : Watchers ι κ α ε) acts) ↔
      Along step DisownsUnstarted (init : Watchers ι κ α ε) acts := by
  rw [along_stepSound_iff]
  exact and_iff_right init_owned.sound

def startedWatcher : List (Action Unit Unit ℕ ℕ) :=
  [.construct 0 0 (some ()) 3 ⟨true, false⟩, .start 0]

/-- A second watcher is moved from it, and then its destructor has no event to delete, or a second
one is copied to it. -/
theorem started_watcher_loses_event :
    ¬ ((init : Watchers Unit Unit ℕ ℕ).Sound ∧
      Along step StepSound init (startedWatcher ++ [.moveConstruct 1 0])) ∧
    (∃ s, run step init (startedWatcher ++ [.moveConstruct 1 0]) = some s ∧
      ¬ s.DeletesRegistered (.destroy 0)) ∧
    ¬ ((init : Watchers Unit Unit ℕ ℕ).Sound ∧ Along step StepSound init
      (startedWatcher ++ [.construct 1 1 (some ()) 4 ⟨true, false⟩, .copyAssign 0 1 2])) := by
  refine ⟨?_, ⟨_, rfl, fun h => ?_⟩, ?_⟩
  · rintro ⟨-, h⟩
    have hlast := ((along_stepSound_iff _).mp h).of_append rfl
    cases hlast rfl 0 (List.mem_singleton_self 0) _ rfl
  · obtain ⟨e, -, hevent, -⟩ := h _ rfl rfl
    cases hevent
  · rintro ⟨-, h⟩
    have hlast := ((along_stepSound_iff _).mp h).right rfl
    cases (hlast.2 _ rfl).1 rfl 0 (List.mem_singleton_self 0) _ rfl

/-- As long as no started watcher loses its event, an event that fires reaches the callbacks of
the live watcher whose event it is. -/
theorem handle_reaches_owner {acts : List (Action ι κ α ε)}
    (hguard : Along step DisownsUnstarted init acts) (hs : run step init acts = some s) {e : ε}
    {cell : EventCell α} (he : s.events e = some cell) (hregistered : cell.Registered)
    (which : Interest) :
    ∃ p w, s.objects p = some w ∧ w.event = some e ∧ s.handle e which = some (w.called which) := by
  have hsound := (run_invariant_of_along (fun _ _ _ => step_owned) init_owned hguard hs).sound
  obtain ⟨⟨p, ⟨w, hp, hevent⟩, -⟩, harg⟩ := hsound e cell he hregistered
  have hcell := harg p ⟨w, hp, hevent⟩
  refine ⟨p, w, hp, hevent, ?_⟩
  simp [handle, he, hcell, hp]

end Watchers
end TinyGameServer
