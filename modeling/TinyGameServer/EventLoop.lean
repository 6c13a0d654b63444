import Mathlib.Logic.Function.Basic
import Mathlib.Tactic.SplitIfs
import TinyGameServer.Transitions

/-!
# EventLoop and EventChannel

`AsyncCall` is two atomic steps of its caller, the push under the lock and the send of `Notify`.
`Update` and `ProcessPendingFunctors` are steps of the loop: it receives until the socket is
empty, swaps the list under the lock and runs the batch; a functor that runs can call `AsyncCall`
of the same loop. Threads are arbitrary, and so are functors. The socket holds at most `room + 1`
unread bytes; a send to a full socket fails and nobody looks at its result.
-/

namespace TinyGameServer

inductive LoopPc (φ : Type) where
  | waiting
  | draining
  | drained
  /-- Between two functors of the batch. -/
  | batch (rest : List φ)
  /-- Inside a functor, `posting` between the two steps of an `AsyncCall`. -/
  | functor (f : φ) (posting : Bool) (rest : List φ)

structure EventLoop (π φ : Type) where
  pendingFunctors : List φ
  unread : ℕ
  /-- The threads that have pushed and not yet sent. -/
  notifying : π → Bool
  pc : LoopPc φ
  accepted : List φ
  executed : List φ

namespace EventLoop

variable {π φ : Type}

def init : EventLoop π φ where
  pendingFunctors := []
  unread := 0
  notifying _ := false
  pc := .waiting
  accepted := []
  executed := []

def push (s : EventLoop π φ) (f : φ) : EventLoop π φ :=
  { s with pendingFunctors := s.pendingFunctors ++ [f], accepted := s.accepted ++ [f] }

def notify (room : ℕ) (s : EventLoop π φ) : EventLoop π φ :=
  { s with unread := if s.unread ≤ room then s.unread + 1 else s.unread }

inductive Action (π φ : Type) where
  | push (p : π) (f : φ)
  | notify (p : π)
  | update
  | recv
  | swap
  | call
  | post (g : φ)
  | postNotify
  | ret
  | endBatch

/-- `Update` is entered while the socket is readable, and one `recv` takes up to 64 bytes. -/
def step [DecidableEq π] (room : ℕ) (s : EventLoop π φ) : Action π φ → Option (EventLoop π φ)
  | .push p f =>
    if s.notifying p then none
    else some { s.push f with notifying := Function.update s.notifying p true }
  | .notify p =>
    if s.notifying p then
      some { s.notify room with notifying := Function.update s.notifying p false }
    else none
  | .update =>
    match s.pc with
    | .waiting => if 0 < s.unread then some { s with pc := .draining } else none
    | _ => none
  | .recv =>
    match s.pc with
    | .draining =>
      if 0 < s.unread then some { s with unread := s.unread - 64 }
      else some { s with pc := .drained }
    | _ => none
  | .swap =>
    match s.pc with
    | .drained => some { s with pendingFunctors := [], pc := .batch s.pendingFunctors }
    | _ => none
  | .call =>
    match s.pc with
    | .batch (f :: rest) => some { s with pc := .functor f false rest }
    | _ => none
  | .post g =>
    match s.pc with
    | .functor f false rest => some { s.push g with pc := .functor f true rest }
    | _ => none
  | .postNotify =>
    match s.pc with
    | .functor f true rest => some { s.notify room with pc := .functor f false rest }
    | _ => none
  | .ret =>
    match s.pc with
    | .functor f false rest => some { s with pc := .batch rest, executed := s.executed ++ [f] }
    | _ => none
  | .endBatch =>
    match s.pc with
    | .batch [] => some { s with pc := .waiting }
    | _ => none

/-- A thread or a functor has pushed and not yet sent. -/
def Notifying (s : EventLoop π φ) : Prop :=
  (∃ p, s.notifying p = true) ∨ ∃ f rest, s.pc = .functor f true rest

/-- `Update` has been entered, and its swap is still to come. -/
def Updating (s : EventLoop π φ) : Prop := s.pc = .draining ∨ s.pc = .drained

inductive Step [DecidableEq π] (room : ℕ) (s : EventLoop π φ) :
    Action π φ → EventLoop π φ → Prop
  | push (p : π) (f : φ) (hp : s.notifying p = false) :
      Step room s (.push p f) { s.push f with notifying := Function.update s.notifying p true }
  | notify (p : π) (hp : s.notifying p = true) :
      Step room s (.notify p)
        { s.notify room with notifying := Function.update s.notifying p false }
  | update (hpc : s.pc = .waiting) (hunread : 0 < s.unread) :
      Step room s .update { s with pc := .draining }
  | recv (hpc : s.pc = .draining) (hunread : 0 < s.unread) :
      Step room s .recv { s with unread := s.unread - 64 }
  | recvEmpty (hpc : s.pc = .draining) (hunread : s.unread = 0) :
      Step room s .recv { s with pc := .drained }
  | swap (hpc : s.pc = .drained) :
      Step room s .swap { s with pendingFunctors := [], pc := .batch s.pendingFunctors }
  | call (f : φ) (rest : List φ) (hpc : s.pc = .batch (f :: rest)) :
      Step room s .call { s with pc := .functor f false rest }
  | post (f g : φ) (rest : List φ) (hpc : s.pc = .functor f false rest) :
      Step room s (.post g) { s.push g with pc := .functor f true rest }
  | postNotify (f : φ) (rest : List φ) (hpc : s.pc = .functor f true rest) :
      Step room s .postNotify { s.notify room with pc := .functor f false rest }
  | ret (f : φ) (rest : List φ) (hpc : s.pc = .functor f false rest) :
      Step room s .ret { s with pc := .batch rest, executed := s.executed ++ [f] }
  | endBatch (hpc : s.pc = .batch []) : Step room s .endBatch { s with pc := .waiting }

theorem step_cases [DecidableEq π] {room : ℕ} {s s' : EventLoop π φ} {a : Action π φ}
    (h : step room s a = some s') : Step room s a s' := by
  cases a with
  | push p f =>
      rw [step] at h
      split_ifs at h with hp
      cases h
      exact .push p f (eq_false_of_ne_true hp)
  | notify p =>
      rw [step] at h
      split_ifs at h with hp
      cases h
      exact .notify p hp
  | update =>
      rw [step] at h
      split at h
      · split_ifs at h with hunread
        cases h
        exact .update ‹_› hunread
      · cases h
  | recv =>
      rw [step] at h
      split at h
      · split_ifs at h with hunread
        · cases h
          exact .recv ‹_› hunread
        · cases h
          exact .recvEmpty ‹_› (Nat.eq_zero_of_not_pos hunread)
      · cases h
  | swap =>
      rw [step] at h
      split at h <;> cases h
      exact .swap ‹_›
  | call =>
      rw [step] at h
      split at h <;> cases h
      exact .call _ _ ‹_›
  | post g =>
      rw [step] at h
      split at h <;> cases h
      exact .post _ g _ ‹_›
  | postNotify =>
      rw [step] at h
      split at h <;> cases h
      exact .postNotify _ _ ‹_›
  | ret =>
      rw [step] at h
      split at h <;> cases h
      exact .ret _ _ ‹_›
  | endBatch =>
      rw [step] at h
      split at h <;> cases h
      exact .endBatch ‹_›

end EventLoop
end TinyGameServer
