import Mathlib.Logic.Function.Basic
import Mathlib.Tactic.SplitIfs
import TinyGameServer.Transitions

/-!
# A running EventLoop and the threads that use it

`owner` is the thread on which `Run` was called. `AsyncCall` and `Stop` can be called on every
thread, also by a functor, so each thread has a stack of the calls it is in; the wakeup only
happens on `owner`. `Stop` processes the pending functors on the thread that calls it. The
members are read and written in separate steps, and the socket is that of `EventLoop.step`.
-/

namespace TinyGameServer

inductive LoopStatus where
  | Initial
  | Running
  | Stopped
  deriving DecidableEq

inductive Frame (φ : Type) where
  /-- Between the push and the send. -/
  | asyncCall
  /-- `Update` while it receives. -/
  | update
  /-- `ProcessPendingFunctors` before its swap, and between two functors after it. -/
  | process
  | batch (rest : List φ)
  | functor (f : φ)
  /-- `Stop` before it stores `Stopped`, and at the tests of its two loops. -/
  | stop
  | stopLoop (exited : Bool)

/-- Where a thread can make a call of its own: outside of the loop's code, or in a functor. -/
def Frame.userCode {φ : Type} : List (Frame φ) → Bool
  | [] => true
  | functor _ :: _ => true
  | _ => false

structure LoopThreads (π φ : Type) where
  pendingFunctors : List φ
  unread : ℕ
  status : LoopStatus
  exiting : Bool
  left : Bool
  stack : π → List (Frame φ)
  executed : List (π × φ)

namespace LoopThreads

variable {π φ : Type}

/-- `Run` has stored `Running` and has called `event_base_loop`. -/
def init : LoopThreads π φ where
  pendingFunctors := []
  unread := 0
  status := .Running
  exiting := false
  left := false
  stack _ := []
  executed := []

inductive Action (π φ : Type) where
  | asyncCall (p : π) (f : φ)
  | notify (p : π)
  | wake
  | recv
  | swap (p : π)
  | call (p : π)
  | ret (p : π)
  | endBatch (p : π)
  | stop (p : π)
  | setStopped (p : π)
  | testPending (p : π)
  | leave

variable [DecidableEq π]

def enter (s : LoopThreads π φ) (p : π) (frames : List (Frame φ)) : LoopThreads π φ :=
  { s with stack := Function.update s.stack p frames }

def step (owner : π) (room : ℕ) (s : LoopThreads π φ) :
    Action π φ → Option (LoopThreads π φ)
  | .asyncCall p f =>
    if Frame.userCode (s.stack p) then
      some { s.enter p (.asyncCall :: s.stack p) with
        pendingFunctors := s.pendingFunctors ++ [f] }
    else none
  | .notify p =>
    match s.stack p with
    | .asyncCall :: below =>
      some { s.enter p below with unread := if s.unread ≤ room then s.unread + 1 else s.unread }
    | _ => none
  | .wake =>
    if s.stack owner = [] ∧ s.left = false ∧ 0 < s.unread then
      some (s.enter owner [.update])
    else none
  | .recv =>
    match s.stack owner with
    | .update :: below =>
      if 0 < s.unread then some { s with unread := s.unread - 64 }
      else some (s.enter owner (.process :: below))
    | _ => none
  | .swap p =>
    match s.stack p with
    | .process :: below =>
      some { s.enter p (.batch s.pendingFunctors :: below) with pendingFunctors := [] }
    | _ => none
  | .call p =>
    match s.stack p with
    | .batch (f :: rest) :: below => some (s.enter p (.functor f :: .batch rest :: below))
    | _ => none
  | .ret p =>
    match s.stack p with
    | .functor f :: below => some { s.enter p below with executed := s.executed ++ [(p, f)] }
    | _ => none
  | .endBatch p =>
    match s.stack p with
    | .batch [] :: below => some (s.enter p below)
    | _ => none
  | .stop p =>
    if Frame.userCode (s.stack p) then
      if s.status = .Running then some (s.enter p (.stop :: s.stack p)) else some s
    else none
  | .setStopped p =>
    match s.stack p with
    | .stop :: below => some { s.enter p (.stopLoop false :: below) with status := .Stopped }
    | _ => none
  | .testPending p =>
    match s.stack p with
    | .stopLoop exited :: below =>
      match s.pendingFunctors, exited with
      | _ :: _, _ => some (s.enter p (.process :: s.stack p))
      | [], false => some { s.enter p (.stopLoop true :: below) with exiting := true }
      | [], true => some (s.enter p below)
    | _ => none
  | .leave =>
    if s.stack owner = [] ∧ s.exiting = true ∧ s.left = false then
      some { s with left := true, status := .Stopped }
    else none

end LoopThreads
end TinyGameServer
