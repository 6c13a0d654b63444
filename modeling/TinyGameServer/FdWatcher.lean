/-!
# The class FdWatcher over libevent

`ev_type_` is the pair of bits `EV_READ` and `EV_WRITE`. A libevent `event` is uninitialised
memory until `event_set`, and has an interest registered between `event_add` and `event_del`.
Calls that libevent does not allow lead to `misused`, which is never left.
-/

namespace TinyGameServer

structure Interest where
  read : Bool
  write : Bool
  deriving DecidableEq

namespace Interest

def none : Interest := ⟨false, false⟩

/-- Every bit of the first is set in the second. -/
def Within (i j : Interest) : Prop :=
  (i.read = true → j.read = true) ∧ (i.write = true → j.write = true)

instance (i j : Interest) : Decidable (i.Within j) := by
  unfold Within
  infer_instance

theorem eq_none_of_within {i : Interest} (h : i.Within none) : i = none := by
  obtain ⟨hread, hwrite⟩ := h
  obtain ⟨read, write⟩ := i
  cases read with
  | true => exact absurd (hread rfl) Bool.false_ne_true
  | false =>
      cases write with
      | true => exact absurd (hwrite rfl) Bool.false_ne_true
      | false => rfl

end Interest

inductive EventRecord where
  | uninitialised
  | assigned (interest : Interest)
  | added (interest : Interest)
  | misused
  deriving DecidableEq

namespace EventRecord

def eventSet (interest : Interest) : EventRecord → EventRecord
  | uninitialised => assigned interest
  | assigned _ => assigned interest
  | added _ => misused
  | misused => misused

def eventAdd : EventRecord → EventRecord
  | uninitialised => misused
  | assigned interest => added interest
  | added interest => added interest
  | misused => misused

def eventDel : EventRecord → EventRecord
  | uninitialised => misused
  | assigned interest => assigned interest
  | added interest => assigned interest
  | misused => misused

def registered : EventRecord → Interest
  | added interest => interest
  | _ => Interest.none

end EventRecord

structure FdWatcher where
  evType : Interest
  event : EventRecord
  added : Bool

namespace FdWatcher

def new (evType : Interest) : FdWatcher := { evType, event := .uninitialised, added := false }

variable (w : FdWatcher)

def start : FdWatcher :=
  let event := if w.added then w.event.eventDel else w.event
  { w with event := (event.eventSet w.evType).eventAdd, added := true }

def isReading : Bool := w.evType.read

def isWriting : Bool := w.evType.write

def enableReadEvent : FdWatcher :=
  if w.isReading then w else { w with evType.read := true : FdWatcher }.start

def enableWriteEvent : FdWatcher :=
  if w.isWriting then w else { w with evType.write := true : FdWatcher }.start

def disableReadEvent : FdWatcher :=
  if w.isReading then { w with evType.read := false : FdWatcher }.start else w

def disableWriteEvent : FdWatcher :=
  if w.isWriting then { w with evType.write := false : FdWatcher }.start else w

/-- `added_` stays as it is. -/
def disableAllEvent : FdWatcher :=
  { w with evType := Interest.none, event := w.event.eventDel }

def registered : Interest := w.event.registered

@[simp] theorem isWriting_enableWriteEvent : w.enableWriteEvent.isWriting = true := by
  rw [enableWriteEvent]
  split
  · assumption
  · rfl

@[simp] theorem isWriting_disableWriteEvent : w.disableWriteEvent.isWriting = false := by
  rw [disableWriteEvent]
  split
  · rfl
  · rename_i h
    exact eq_false_of_ne_true h

@[simp] theorem registered_disableAllEvent : w.disableAllEvent.registered = Interest.none := by
  cases h : w.event <;> simp [disableAllEvent, registered, h, EventRecord.eventDel,
    EventRecord.registered]

/-- libevent waits for what `ev_type_` says. -/
structure Live : Prop where
  added : w.added = true
  event : w.event = .added w.evType

variable {w}

theorem Live.registered (h : w.Live) : w.registered = w.evType := by
  rw [FdWatcher.registered, h.event]
  rfl

theorem Live.start (h : w.Live) (evType : Interest) : { w with evType : FdWatcher }.start.Live where
  added := rfl
  event := by
    rw [FdWatcher.start, if_pos h.added, h.event]
    rfl

theorem Live.enableWriteEvent (h : w.Live) : w.enableWriteEvent.Live := by
  rw [FdWatcher.enableWriteEvent]
  split
  · exact h
  · exact h.start _

theorem Live.disableWriteEvent (h : w.Live) : w.disableWriteEvent.Live := by
  rw [FdWatcher.disableWriteEvent]
  split
  · exact h.start _
  · exact h

end FdWatcher
end TinyGameServer
