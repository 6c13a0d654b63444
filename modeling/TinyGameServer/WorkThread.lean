import TinyGameServer.LoopThreads

/-!
# The class WorkThread

The constructor starts the worker, which stores `Running` twice and enters the event loop. The
owner calls `Stop` after the constructor has returned. With `EVLOOP_NO_EXIT_ON_EMPTY` the event
loop only returns when it has been told to. Functors come from any thread.
-/

namespace TinyGameServer

inductive WorkerPc where
  | starting
  /-- `WorkThread::status_` has been stored, `EventLoop::status_` not yet. -/
  | entered
  | looping
  | left
  | ended
  | finished
  deriving DecidableEq

inductive OwnerPc (φ : Type) where
  | constructing
  | idle
  /-- In `Stop`: it has seen `Running`, it is at the test of a loop, or in the loop's call of
  `ProcessPendingFunctors`. -/
  | sawRunning
  | testing (exited : Bool)
  | processing (exited : Bool)
  | batch (exited : Bool) (rest : List φ)

structure WorkThread (φ : Type) where
  status : LoopStatus
  loopStatus : LoopStatus
  pendingFunctors : List φ
  exiting : Bool
  worker : WorkerPc
  owner : OwnerPc φ
  /-- Some call of `Stop` has returned. -/
  stopReturned : Bool

namespace WorkThread

variable {φ : Type}

def init : WorkThread φ where
  status := .Initial
  loopStatus := .Initial
  pendingFunctors := []
  exiting := false
  worker := .starting
  owner := .constructing
  stopReturned := false

inductive Action (φ : Type) where
  | construct
  | enter
  | runLoop
  | update
  | leave
  | endLoop
  | finish
  | post (f : φ)
  | stop
  | setStopped
  | testPending
  | swap
  | callFunctor

def step (s : WorkThread φ) : Action φ → Option (WorkThread φ)
  | .construct =>
    match s.owner with
    | .constructing => some { s with owner := .idle }
    | _ => none
  | .enter =>
    if s.worker = .starting then some { s with worker := .entered, status := .Running } else none
  | .runLoop =>
    if s.worker = .entered then some { s with worker := .looping, loopStatus := .Running }
    else none
  | .update => if s.worker = .looping then some { s with pendingFunctors := [] } else none
  | .leave =>
    if s.worker = .looping ∧ s.exiting = true then some { s with worker := .left } else none
  | .endLoop =>
    if s.worker = .left then some { s with worker := .ended, loopStatus := .Stopped } else none
  | .finish =>
    if s.worker = .ended then some { s with worker := .finished, status := .Stopped } else none
  | .post f => some { s with pendingFunctors := s.pendingFunctors ++ [f] }
  | .stop =>
    match s.owner with
    | .idle =>
      if s.loopStatus = .Running then some { s with owner := .sawRunning }
      else some { s with stopReturned := true }
    | _ => none
  | .setStopped =>
    match s.owner with
    | .sawRunning => some { s with owner := .testing false, loopStatus := .Stopped }
    | _ => none
  | .testPending =>
    match s.owner with
    | .testing exited =>
      match s.pendingFunctors, exited with
      | _ :: _, _ => some { s with owner := .processing exited }
      | [], false => some { s with owner := .testing true, exiting := true }
      | [], true => some { s with owner := .idle, stopReturned := true }
    | _ => none
  | .swap =>
    match s.owner with
    | .processing exited =>
      some { s with owner := .batch exited s.pendingFunctors, pendingFunctors := [] }
    | _ => none
  | .callFunctor =>
    match s.owner with
    | .batch exited [] => some { s with owner := .testing exited }
    | .batch exited (_ :: rest) => some { s with owner := .batch exited rest }
    | _ => none

end WorkThread
end TinyGameServer
