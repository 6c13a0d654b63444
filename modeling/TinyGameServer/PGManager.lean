import Mathlib.Logic.Function.Basic
import TinyGameServer.RoundRobin
import TinyGameServer.Transitions

/-!
# Queries of the data server

Each thread makes its `SelectUser` calls one after the other. A call picks a connection and then
runs `PQexec` on it, of which the start and the end are seen. The picker goes round the
connections and does not know which of them are busy.
-/

namespace TinyGameServer

structure PGManager (κ : Type) where
  conns : List κ
  i : Int32 := 0

namespace PGManager

variable {κ : Type}

def pickContext (m : PGManager κ) : Option κ × PGManager κ :=
  let (c, i) := RoundRobin.pick m.conns m.i
  (c, { m with i })

end PGManager

/-- Where a thread is in `SelectUser`. -/
inductive SelectUserCall (κ : Type) where
  | idle
  | picked (c : Option κ)
  | executing (c : Option κ)
  deriving DecidableEq

/-- The connection that the call has picked and not yet done with. -/
def SelectUserCall.held {κ : Type} : SelectUserCall κ → Option κ
  | idle => none
  | picked c => c
  | executing c => c

structure DataQueries (κ π : Type) where
  manager : PGManager κ
  calls : π → SelectUserCall κ

namespace DataQueries

variable {κ π : Type}

def init (conns : List κ) : DataQueries κ π := { manager := { conns }, calls := fun _ => .idle }

inductive Action (π : Type) where
  | pickContext (p : π)
  | startExec (p : π)
  | endExec (p : π)

def Action.isPick : Action π → Bool
  | pickContext _ => true
  | _ => false

variable [DecidableEq π]

def setCall (s : DataQueries κ π) (p : π) (call : SelectUserCall κ) : DataQueries κ π :=
  { s with calls := Function.update s.calls p call }

def step (s : DataQueries κ π) : Action π → Option (DataQueries κ π)
  | .pickContext p =>
    match s.calls p with
    | .idle =>
      let (c, manager) := s.manager.pickContext
      some ({ s with manager : DataQueries κ π }.setCall p (.picked c))
    | _ => none
  | .startExec p =>
    match s.calls p with
    | .picked c => some (s.setCall p (.executing c))
    | _ => none
  | .endExec p =>
    match s.calls p with
    | .executing _ => some (s.setCall p .idle)
    | _ => none

variable {s s' : DataQueries κ π}

/-- `libpq` allows one query at a time on a connection. -/
def Exclusive (s : DataQueries κ π) : Prop :=
  ∀ p q c, s.calls p = .executing (some c) → s.calls q = .executing (some c) → p = q

/-- A slow query of one thread and two of the other, on two connections. -/
theorem slow_query_shared :
    ∃ s : DataQueries ℕ Bool, Reachable step (init [10, 11]) s ∧ ¬ s.Exclusive := by
  refine ⟨_, ⟨[.pickContext false, .startExec false, .pickContext true, .startExec true,
    .endExec true, .pickContext true, .startExec true], rfl⟩, fun h => ?_⟩
  cases h false true 10 rfl rfl

end DataQueries
end TinyGameServer
