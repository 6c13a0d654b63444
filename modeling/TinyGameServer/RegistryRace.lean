import Mathlib.Data.List.FinRange
import TinyGameServer.TCPServer
import TinyGameServer.ThreadManager

/-!
# Which loops are inside the registry?

The acceptor loop is `none`, the worker loops are numbered. Every access to `connections_` begins
and ends in a step of the loop that makes it, and a loop makes one at a time. The effect is that
of the functions of `TCPServer` and comes with the end.
-/

namespace TinyGameServer

inductive RegistryAccess (ι : Type) where
  | insert (loop : ι) (serialId : Int64)
  | start (serialId : Int64)
  | erase (conn : ConnSPtr)
  | getConnection (id : Int64)
  deriving DecidableEq

structure RegistryRace (ι : Type) where
  server : TCPServer ι
  threads : ThreadManager ι
  i : Int32
  access : ι → Option (RegistryAccess ι)

namespace RegistryRace

variable {ι : Type}

/-- The access changes the map: `operator[]` at an absent key, `erase` at a present one. -/
def Modifies (s : RegistryRace ι) : RegistryAccess ι → Prop
  | .insert _ _ => True
  | .start serialId => s.server.connections.entry serialId = none
  | .erase c => ∃ conn, s.server.objects[c]? = some conn ∧
      s.server.connections.entry conn.serialId ≠ none
  | .getConnection id => s.server.connections.entry (TCPServer.lookupKey id) = none

/-- Two loops are inside the registry, and one of them modifies it. -/
def Race (s : RegistryRace ι) : Prop :=
  ∃ l l' a a', l ≠ l' ∧ s.access l = some a ∧ s.access l' = some a' ∧ s.Modifies a

def workers (n : ℕ) : ThreadManager (Option (Fin n)) where
  loop := none
  threads := (List.finRange n).map some

def init (n : ℕ) (i : Int32) : RegistryRace (Option (Fin n)) where
  server := .init
  threads := workers n
  i
  access := fun _ => none

inductive Action (ι : Type) where
  | handleNewConn (serialId : Int64)
  | getConnection (id : Int64)
  | runFunctor (loop : ι)
  | peerClose (conn : ConnSPtr)
  | close (conn : ConnSPtr)
  | finish (loop : ι)

variable [DecidableEq ι]

def enter (s : RegistryRace ι) (loop : ι) (a : RegistryAccess ι) : Option (RegistryRace ι) :=
  match s.access loop with
  | none => some { s with access := Function.update s.access loop (some a) }
  | some _ => none

def effect (server : TCPServer ι) : RegistryAccess ι → Option (TCPServer ι)
  | .insert loop serialId => some (server.handleNewConn loop serialId)
  | .start serialId => server.startConn serialId
  | .erase c => some (server.handleClose c)
  | .getConnection id => some (server.getConnection id).2

/-- The listener and the callers of `GetConnection` run on the loop of the manager, functors and
events on the loop of their connection. -/
def step (s : RegistryRace ι) : Action ι → Option (RegistryRace ι)
  | .handleNewConn serialId =>
    let (loop, i) := s.threads.pickEventLoop s.i
    { s with i : RegistryRace ι }.enter s.threads.loop (.insert loop serialId)
  | .getConnection id => s.enter s.threads.loop (.getConnection id)
  | .runFunctor loop =>
    match s.server.pending loop with
    | [] => none
    | f :: rest =>
      { s with server := s.server.pop loop rest : RegistryRace ι }.enter loop
        (match f with
        | .start serialId => .start serialId
        | .handleClose c => .erase c)
  | .peerClose c =>
    match s.server.objects[c]? with
    | none => none
    | some conn => if conn.started ∧ ¬ conn.closed then s.enter conn.loop (.erase c) else none
  | .close c => (s.server.step (.close c)).map ({ s with server := · })
  | .finish loop => do
    let a ← s.access loop
    let server ← effect s.server a
    some { s with server, access := Function.update s.access loop none }

omit [DecidableEq ι] in
theorem not_race_of_subsingleton [Subsingleton ι] (s : RegistryRace ι) : ¬ s.Race := by
  rintro ⟨l, l', -, -, hne, -⟩
  exact hne (Subsingleton.elim l l')

@[simp] theorem loop_workers (n : ℕ) : (workers n).loop = none := rfl

theorem pickEventLoop_workers {n : ℕ} (hn : n ≠ 0) (i : Int32) :
    ∃ (k : Fin n) (i' : Int32), (workers n).pickEventLoop i = (some k, i') := by
  have hthreads : (workers n).threads ≠ [] := by
    intro hnil
    have hlength := congrArg List.length hnil
    simp only [workers, List.length_map, List.length_finRange, List.length_nil] at hlength
    exact hn hlength
  obtain ⟨k, -, hk⟩ := List.mem_map.mp (ThreadManager.pickEventLoop_mem hthreads i)
  exact ⟨k, _, Prod.ext hk.symm rfl⟩

/-- With a worker the next accept can begin while the functor of the first one looks its
connection up. -/
theorem race_reachable {n : ℕ} (hn : n ≠ 0) (i : Int32) :
    ∃ s, Reachable step (init n i) s ∧ s.Race := by
  obtain ⟨k, i', hk⟩ := pickEventLoop_workers hn i
  obtain ⟨k', i'', hk'⟩ := pickEventLoop_workers hn i'
  have hrun : ∃ s, run step (init n i) [.handleNewConn 5, .finish none, .runFunctor (some k),
      .handleNewConn 6] = some s ∧ s.access none = some (.insert (some k') 6) ∧
      s.access (some k) = some (.start 5) := by
    simp [run_cons, step, init, enter, effect, hk, hk', TCPServer.handleNewConn,
      TCPServer.post, TCPServer.init]
  obtain ⟨s, hs, hinsert, hstart⟩ := hrun
  exact ⟨s, ⟨_, hs⟩, none, some k, _, _, (Option.some_ne_none k).symm, hinsert, hstart, trivial⟩

/-- For every number of worker loops and every value of the counter: no run has two loops inside
the registry with one modifying it if and only if there is no worker loop. -/
theorem no_race_iff (n : ℕ) (i : Int32) :
    (∀ s, Reachable step (init n i) s → ¬ s.Race) ↔ n = 0 := by
  constructor
  · intro h
    by_contra hn
    obtain ⟨s, hs, hrace⟩ := race_reachable hn i
    exact h s hs hrace
  · rintro rfl s -
    exact not_race_of_subsingleton s

theorem lookup_races_insert :
    ∃ s, Reachable step (init 1 0) s ∧ s.Race :=
  ⟨_, ⟨[.handleNewConn 5, .finish none, .runFunctor (some 0), .handleNewConn 6], rfl⟩,
    none, some 0, .insert (some 0) 6, .start 5, by decide, rfl, rfl, trivial⟩

end RegistryRace
end TinyGameServer
