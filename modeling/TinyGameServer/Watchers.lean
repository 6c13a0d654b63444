import Mathlib.Data.Int.Notation
import Mathlib.Logic.Function.Basic
import Mathlib.Tactic.SplitIfs
import TinyGameServer.FdWatcher

/-!
# Watchers that are copied, moved and destroyed

A watcher lives at an address, which `Start` gives to libevent as the argument of the callback, and
points to its event. Null pointers and events that are not allocated must not be used: there the
program is undefined.
-/

namespace TinyGameServer

/-- A `FdWatcher` in memory. `loop_` and `event_` are null when it has been moved from. -/
structure WatcherObject (ι κ ε : Type) where
  loop : Option ι
  fd : ℤ
  evType : Interest
  event : Option ε
  added : Bool
  readCb : Option κ
  writeCb : Option κ

namespace WatcherObject

variable {ι κ ε : Type}

def new (loop : Option ι) (fd : ℤ) (evType : Interest) (event : ε) : WatcherObject ι κ ε where
  loop := loop
  fd := fd
  evType := evType
  event := some event
  added := false
  readCb := none
  writeCb := none

def copyConstruct (f : WatcherObject ι κ ε) (event : ε) : WatcherObject ι κ ε where
  loop := f.loop
  fd := f.fd
  evType := f.evType
  event := some event
  added := false
  readCb := f.readCb
  writeCb := f.writeCb

def moveConstruct (f : WatcherObject ι κ ε) : WatcherObject ι κ ε where
  loop := f.loop
  fd := f.fd
  evType := f.evType
  event := f.event
  added := f.added
  readCb := f.readCb
  writeCb := f.writeCb

/-- Callbacks that the source does not have stay as they are. -/
def copyAssign (w f : WatcherObject ι κ ε) (event : ε) : WatcherObject ι κ ε where
  loop := f.loop
  fd := f.fd
  evType := f.evType
  event := some event
  added := false
  readCb := f.readCb <|> w.readCb
  writeCb := f.writeCb <|> w.writeCb

def moveAssign (w f : WatcherObject ι κ ε) : WatcherObject ι κ ε where
  loop := f.loop
  fd := f.fd
  evType := f.evType
  event := f.event
  added := f.added
  readCb := f.readCb <|> w.readCb
  writeCb := f.writeCb <|> w.writeCb

/-- The callbacks that `Handle` calls, the one for reading first. -/
def called (w : WatcherObject ι κ ε) (which : Interest) : List κ :=
  (if which.read then w.readCb.toList else []) ++ if which.write then w.writeCb.toList else []

/-- The source after a move, with `added_` as it was. -/
def movedFrom (f : WatcherObject ι κ ε) : WatcherObject ι κ ε :=
  { f with loop := none, event := none }

end WatcherObject

/-- An allocated event and the callback argument that `event_set` has given it. -/
structure EventCell (α : Type) where
  record : EventRecord
  arg : Option α

namespace EventCell

variable {α : Type}

def new : EventCell α := ⟨.uninitialised, none⟩

/-- Between `event_add` and `event_del`. -/
def Registered (cell : EventCell α) : Prop := ∃ interest, cell.record = .added interest

/-- What `delete` leaves behind: libevent keeps an event that is still registered. -/
def delete (cell : EventCell α) : Option (EventCell α) :=
  match cell.record with
  | .added _ => some cell
  | _ => none

theorem not_registered_new : ¬ (new : EventCell α).Registered := by
  rintro ⟨interest, h⟩
  cases h

end EventCell

structure Watchers (ι κ α ε : Type) where
  objects : α → Option (WatcherObject ι κ ε)
  events : ε → Option (EventCell α)

namespace Watchers

variable {ι κ α ε : Type}

def init : Watchers ι κ α ε := { objects := fun _ => none, events := fun _ => none }

/-- `Handle` for an event. Its argument is undefined if there is no watcher at that address. -/
def handle (s : Watchers ι κ α ε) (e : ε) (which : Interest) : Option (List κ) := do
  let cell ← s.events e
  let p ← cell.arg
  let w ← s.objects p
  return w.called which

/-- What a program does, with the addresses that it gets for new watchers and events. -/
inductive Action (ι κ α ε : Type) where
  | construct (p : α) (e : ε) (loop : Option ι) (fd : ℤ) (evType : Interest)
  | copyConstruct (p f : α) (e : ε)
  | moveConstruct (p f : α)
  | copyAssign (p f : α) (e : ε)
  | moveAssign (p f : α)
  | setReadCallBack (p : α) (cb : Option κ)
  | setWriteCallBack (p : α) (cb : Option κ)
  | start (p : α)
  | destroy (p : α)

variable {s s' : Watchers ι κ α ε}

/-! ## Memory -/

section SetObject

variable [DecidableEq α]

def setObject (s : Watchers ι κ α ε) (p : α) (w : Option (WatcherObject ι κ ε)) :
    Watchers ι κ α ε :=
  { s with objects := Function.update s.objects p w }

theorem of_setObject {p q : α} {w : Option (WatcherObject ι κ ε)} {v : WatcherObject ι κ ε}
    (h : (s.setObject p w).objects q = some v) :
    q = p ∧ w = some v ∨ q ≠ p ∧ s.objects q = some v := by
  change Function.update s.objects p w q = some v at h
  by_cases hq : q = p
  · subst hq
    rw [Function.update_self] at h
    exact .inl ⟨rfl, h⟩
  · rw [Function.update_of_ne hq] at h
    exact .inr ⟨hq, h⟩

@[simp] theorem setObject_self (p : α) (w : Option (WatcherObject ι κ ε)) :
    (s.setObject p w).objects p = w := Function.update_self ..

theorem setObject_ne {p q : α} (hq : q ≠ p) (w : Option (WatcherObject ι κ ε)) :
    (s.setObject p w).objects q = s.objects q := Function.update_of_ne hq ..

@[simp] theorem setObject_events (p : α) (w : Option (WatcherObject ι κ ε)) :
    (s.setObject p w).events = s.events := rfl

end SetObject

section SetEvent

variable [DecidableEq ε]

def setEvent (s : Watchers ι κ α ε) (e : ε) (cell : Option (EventCell α)) : Watchers ι κ α ε :=
  { s with events := Function.update s.events e cell }

theorem of_setEvent {e e' : ε} {cell : Option (EventCell α)} {cell' : EventCell α}
    (h : (s.setEvent e cell).events e' = some cell') :
    e' = e ∧ cell = some cell' ∨ e' ≠ e ∧ s.events e' = some cell' := by
  change Function.update s.events e cell e' = some cell' at h
  by_cases he : e' = e
  · subst he
    rw [Function.update_self] at h
    exact .inl ⟨rfl, h⟩
  · rw [Function.update_of_ne he] at h
    exact .inr ⟨he, h⟩

@[simp] theorem setEvent_self (e : ε) (cell : Option (EventCell α)) :
    (s.setEvent e cell).events e = cell := Function.update_self ..

theorem setEvent_ne {e e' : ε} (he : e' ≠ e) (cell : Option (EventCell α)) :
    (s.setEvent e cell).events e' = s.events e' := Function.update_of_ne he ..

@[simp] theorem setEvent_objects (e : ε) (cell : Option (EventCell α)) :
    (s.setEvent e cell).objects = s.objects := rfl

end SetEvent

/-! ## The special members and Start -/

variable [DecidableEq α] [DecidableEq ε]

def place (s : Watchers ι κ α ε) (p : α) (w : WatcherObject ι κ ε) (e : ε) : Watchers ι κ α ε :=
  (s.setObject p (some w)).setEvent e (some .new)

def take (s : Watchers ι κ α ε) (p f : α) (w wf : WatcherObject ι κ ε) : Watchers ι κ α ε :=
  (s.setObject p (some w)).setObject f (some wf.movedFrom)

def started (s : Watchers ι κ α ε) (p : α) (w : WatcherObject ι κ ε) (e : ε)
    (cell : EventCell α) : Watchers ι κ α ε :=
  let watcher := FdWatcher.start { evType := w.evType, event := cell.record, added := w.added }
  (s.setObject p (some { w with added := watcher.added })).setEvent e
    (some { record := watcher.event, arg := some p })

/-- Through a null `loop_` or `event_` it is undefined. -/
def start (s : Watchers ι κ α ε) (p : α) : Option (Watchers ι κ α ε) := do
  let w ← s.objects p
  let _ ← w.loop
  let e ← w.event
  let cell ← s.events e
  return s.started p w e cell

def destroyed (s : Watchers ι κ α ε) (p : α) (w : WatcherObject ι κ ε) (e : ε)
    (cell : EventCell α) : Watchers ι κ α ε :=
  let record := if w.added then cell.record.eventDel else cell.record
  (s.setObject p none).setEvent e { cell with record : EventCell α }.delete

/-- `event_del` of a null pointer is undefined, `delete` is not. -/
def destroy (s : Watchers ι κ α ε) (p : α) : Option (Watchers ι κ α ε) := do
  let w ← s.objects p
  match w.event with
  | none => if w.added then none else return s.setObject p none
  | some e =>
    let cell ← s.events e
    return s.destroyed p w e cell

def step (s : Watchers ι κ α ε) : Action ι κ α ε → Option (Watchers ι κ α ε)
  | .construct p e loop fd evType =>
    match s.objects p, s.events e with
    | none, none => some (s.place p (.new loop fd evType e) e)
    | _, _ => none
  | .copyConstruct p f e =>
    match s.objects p, s.objects f, s.events e with
    | none, some wf, none => some (s.place p (wf.copyConstruct e) e)
    | _, _, _ => none
  | .moveConstruct p f =>
    match s.objects p, s.objects f with
    | none, some wf => some (s.take p f wf.moveConstruct wf)
    | _, _ => none
  | .copyAssign p f e =>
    match s.objects p, s.objects f, s.events e with
    | some w, some wf, none => if p = f then none else some (s.place p (w.copyAssign wf e) e)
    | _, _, _ => none
  | .moveAssign p f =>
    match s.objects p, s.objects f with
    | some w, some wf => if p = f then none else some (s.take p f (w.moveAssign wf) wf)
    | _, _ => none
  | .setReadCallBack p cb =>
    (s.objects p).map fun w => s.setObject p (some { w with readCb := cb })
  | .setWriteCallBack p cb =>
    (s.objects p).map fun w => s.setObject p (some { w with writeCb := cb })
  | .start p => s.start p
  | .destroy p => s.destroy p

/-! ## What an action does -/

inductive Step (s : Watchers ι κ α ε) : Action ι κ α ε → Watchers ι κ α ε → Prop
  | construct (p : α) (e : ε) (loop : Option ι) (fd : ℤ) (evType : Interest)
      (hp : s.objects p = none) (he : s.events e = none) :
      Step s (.construct p e loop fd evType) (s.place p (.new loop fd evType e) e)
  | copyConstruct (p f : α) (e : ε) (wf : WatcherObject ι κ ε) (hp : s.objects p = none)
      (hf : s.objects f = some wf) (he : s.events e = none) :
      Step s (.copyConstruct p f e) (s.place p (wf.copyConstruct e) e)
  | moveConstruct (p f : α) (wf : WatcherObject ι κ ε) (hp : s.objects p = none)
      (hf : s.objects f = some wf) :
      Step s (.moveConstruct p f) (s.take p f wf.moveConstruct wf)
  | copyAssign (p f : α) (e : ε) (w wf : WatcherObject ι κ ε) (hp : s.objects p = some w)
      (hf : s.objects f = some wf) (he : s.events e = none) (hne : p ≠ f) :
      Step s (.copyAssign p f e) (s.place p (w.copyAssign wf e) e)
  | moveAssign (p f : α) (w wf : WatcherObject ι κ ε) (hp : s.objects p = some w)
      (hf : s.objects f = some wf) (hne : p ≠ f) :
      Step s (.moveAssign p f) (s.take p f (w.moveAssign wf) wf)
  | setReadCallBack (p : α) (cb : Option κ) (w : WatcherObject ι κ ε)
      (hp : s.objects p = some w) :
      Step s (.setReadCallBack p cb) (s.setObject p (some { w with readCb := cb }))
  | setWriteCallBack (p : α) (cb : Option κ) (w : WatcherObject ι κ ε)
      (hp : s.objects p = some w) :
      Step s (.setWriteCallBack p cb) (s.setObject p (some { w with writeCb := cb }))
  | start (p : α) (w : WatcherObject ι κ ε) (e : ε) (cell : EventCell α)
      (hp : s.objects p = some w) (hevent : w.event = some e) (he : s.events e = some cell) :
      Step s (.start p) (s.started p w e cell)
  | destroy (p : α) (w : WatcherObject ι κ ε) (e : ε) (cell : EventCell α)
      (hp : s.objects p = some w) (hevent : w.event = some e) (he : s.events e = some cell) :
      Step s (.destroy p) (s.destroyed p w e cell)
  | destroyNull (p : α) (w : WatcherObject ι κ ε) (hp : s.objects p = some w)
      (hevent : w.event = none) (hadded : w.added = false) :
      Step s (.destroy p) (s.setObject p none)

theorem step_cases {a : Action ι κ α ε} (h : step s a = some s') : Step s a s' := by
  cases a with
  | construct p e loop fd evType =>
      rw [step] at h
      split at h <;> cases h
      rename_i hp he
      exact .construct p e loop fd evType hp he
  | copyConstruct p f e =>
      rw [step] at h
      split at h <;> cases h
      rename_i wf hp hf he
      exact .copyConstruct p f e wf hp hf he
  | moveConstruct p f =>
      rw [step] at h
      split at h <;> cases h
      rename_i wf hp hf
      exact .moveConstruct p f wf hp hf
  | copyAssign p f e =>
      rw [step] at h
      split at h
      · rename_i w wf hp hf he
        split_ifs at h with hne
        cases h
        exact .copyAssign p f e w wf hp hf he hne
      · cases h
  | moveAssign p f =>
      rw [step] at h
      split at h
      · rename_i w wf hp hf
        split_ifs at h with hne
        cases h
        exact .moveAssign p f w wf hp hf hne
      · cases h
  | setReadCallBack p cb =>
      obtain ⟨w, hp, rfl⟩ := Option.map_eq_some_iff.mp h
      exact .setReadCallBack p cb w hp
  | setWriteCallBack p cb =>
      obtain ⟨w, hp, rfl⟩ := Option.map_eq_some_iff.mp h
      exact .setWriteCallBack p cb w hp
  | start p =>
      obtain ⟨w, hp, hrest⟩ := Option.bind_eq_some_iff.mp h
      obtain ⟨loop, -, hrest⟩ := Option.bind_eq_some_iff.mp hrest
      obtain ⟨e, hevent, hrest⟩ := Option.bind_eq_some_iff.mp hrest
      obtain ⟨cell, he, hs'⟩ := Option.bind_eq_some_iff.mp hrest
      cases hs'
      exact .start p w e cell hp hevent he
  | destroy p =>
      obtain ⟨w, hp, hrest⟩ := Option.bind_eq_some_iff.mp h
      split at hrest
      · rename_i hevent
        split_ifs at hrest with hadded
        cases hrest
        exact .destroyNull p w hp hevent (eq_false_of_ne_true hadded)
      · rename_i e hevent
        obtain ⟨cell, he, hs'⟩ := Option.bind_eq_some_iff.mp hrest
        cases hs'
        exact .destroy p w e cell hp hevent he

end Watchers
end TinyGameServer
