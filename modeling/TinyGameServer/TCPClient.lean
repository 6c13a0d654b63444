import Mathlib.Data.Int.Notation
import TinyGameServer.TCPServer

/-!
# Does a client dereference an absent connection?

`connection_` is set when the functor of `Connect` runs and reset when any connection of the
client closes. `Send`, `Disconnect` and the deferred start functor dereference it without a test;
the null pointer has undefined behaviour and no successor. What `Send` queues does not touch
`connection_`. `ran` has the handlers in the order in which they have run.
-/

namespace TinyGameServer

inductive ClientFunctor where
  | newConnection
  | start
  | handleClose (conn : ConnSPtr)
  deriving DecidableEq

structure ClientConn where
  fd : ℤ
  started : Bool := false
  closed : Bool := false

inductive ClientHandler where
  | handleNewConn
  | handleClose
  deriving DecidableEq

structure TCPClient where
  connection : Option ConnSPtr
  /-- `fd_` of the connector. -/
  connectorFd : ℤ
  objects : List ClientConn
  pending : List ClientFunctor
  ran : List ClientHandler

namespace TCPClient

def init : TCPClient where
  connection := none
  connectorFd := -1
  objects := []
  pending := []
  ran := []

def post (s : TCPClient) (f : ClientFunctor) : TCPClient := { s with pending := s.pending ++ [f] }

def connect (s : TCPClient) (fd : ℤ) : TCPClient :=
  { s with connectorFd := fd : TCPClient }.post .newConnection

/-- `HandleNewConn` with the descriptor of the connector, which forgets it. -/
def handleNewConn (s : TCPClient) : TCPClient :=
  { s with
    objects := s.objects ++ [{ fd := s.connectorFd }]
    connection := some s.objects.length
    connectorFd := -1
    ran := s.ran ++ [.handleNewConn] : TCPClient }.post .start

def startConn (s : TCPClient) : Option TCPClient :=
  s.connection.map fun c => { s with objects := s.objects.modify c ({ · with started := true }) }

/-- `TCPConnection::HandleClose` with the close callback of the client, which looks at no
argument. -/
def handleClose (s : TCPClient) (c : ConnSPtr) : TCPClient :=
  { s with
    objects := s.objects.modify c ({ · with closed := true })
    connection := none
    ran := s.ran ++ [.handleClose] }

def runFunctor (s : TCPClient) : Option TCPClient :=
  match s.pending with
  | [] => none
  | f :: rest =>
    let s := { s with pending := rest }
    match f with
    | .newConnection => some s.handleNewConn
    | .start => s.startConn
    | .handleClose c => some (s.handleClose c)

inductive Action where
  | connect (fd : ℤ)
  | send
  | disconnect
  | peerClose (conn : ConnSPtr)
  | runFunctor

def step (s : TCPClient) : Action → Option TCPClient
  | .connect fd => some (s.connect fd)
  | .send => s.connection.map fun _ => s
  | .disconnect => s.connection.map fun c => s.post (.handleClose c)
  | .peerClose c =>
    match s.objects[c]? with
    | none => none
    | some conn => if conn.started ∧ ¬ conn.closed then some (s.handleClose c) else none
  | .runFunctor => s.runFunctor

/-- The action dereferences `connection_`. -/
def Dereferences (s : TCPClient) : Action → Prop
  | .send => True
  | .disconnect => True
  | .runFunctor => s.pending.head? = some .start
  | _ => False

def NonNull (s : TCPClient) (a : Action) : Prop := s.Dereferences a → s.connection ≠ none

/-- A dereference comes after a `HandleNewConn`, with no `HandleClose` in between. -/
def AfterNewConn (s : TCPClient) (a : Action) : Prop :=
  s.Dereferences a → s.ran.getLast? = some .handleNewConn

/-- The next of the functors that open a connection is a start. -/
def StartNext (s : TCPClient) : Prop :=
  s.pending.find? (fun f => f = .newConnection ∨ f = .start) = some .start

/-- The callers only use a connection that is open, and nothing closes one before its start. -/
def Careful (s : TCPClient) : Action → Prop
  | .connect _ => True
  | .send => s.ran.getLast? = some .handleNewConn
  | .disconnect => s.ran.getLast? = some .handleNewConn
  | .peerClose _ => ¬ s.StartNext
  | .runFunctor => ∀ c, s.pending.head? = some (.handleClose c) → ¬ s.StartNext

/-! ## What an action does -/

inductive Step (s : TCPClient) : Action → TCPClient → Prop
  | connect (fd : ℤ) : Step s (.connect fd) (s.connect fd)
  | send (c : ConnSPtr) (hc : s.connection = some c) : Step s .send s
  | disconnect (c : ConnSPtr) (hc : s.connection = some c) :
      Step s .disconnect (s.post (.handleClose c))
  | peerClose (c : ConnSPtr) (conn : ClientConn) (hobj : s.objects[c]? = some conn)
      (hstarted : conn.started = true) (hopen : ¬ conn.closed) :
      Step s (.peerClose c) (s.handleClose c)
  | newConnection (rest : List ClientFunctor) (hqueue : s.pending = .newConnection :: rest) :
      Step s .runFunctor { s with pending := rest : TCPClient }.handleNewConn
  | start (c : ConnSPtr) (rest : List ClientFunctor) (hqueue : s.pending = .start :: rest)
      (hc : s.connection = some c) :
      Step s .runFunctor { s with
        pending := rest
        objects := s.objects.modify c ({ · with started := true }) }
  | runClose (c : ConnSPtr) (rest : List ClientFunctor)
      (hqueue : s.pending = .handleClose c :: rest) :
      Step s .runFunctor ({ s with pending := rest : TCPClient }.handleClose c)

variable {s s' : TCPClient}

theorem step_cases {a : Action} (h : step s a = some s') : Step s a s' := by
  cases a with
  | connect fd =>
      cases h
      exact .connect fd
  | send =>
      obtain ⟨c, hc, rfl⟩ := Option.map_eq_some_iff.mp h
      exact .send c hc
  | disconnect =>
      obtain ⟨c, hc, rfl⟩ := Option.map_eq_some_iff.mp h
      exact .disconnect c hc
  | peerClose c =>
      rw [step] at h
      split at h
      · cases h
      · rename_i conn hobj
        split_ifs at h with hopen
        cases h
        exact .peerClose c conn hobj hopen.1 hopen.2
  | runFunctor =>
      rw [step, runFunctor] at h
      split at h
      · cases h
      · rename_i f rest hqueue
        cases f with
        | newConnection =>
            cases h
            exact .newConnection rest hqueue
        | start =>
            obtain ⟨c, hc, rfl⟩ := Option.map_eq_some_iff.mp h
            exact .start c rest hqueue hc
        | handleClose c =>
            cases h
            exact .runClose c rest hqueue

/-! ## When is `connection_` set? -/

/-- The last handler decides. -/
def Tracked (s : TCPClient) : Prop :=
  s.connection ≠ none ↔ s.ran.getLast? = some .handleNewConn

theorem init_tracked : init.Tracked := by
  refine iff_of_false (fun h => h rfl) ?_
  rintro ⟨⟩

theorem handleNewConn_tracked (s : TCPClient) : s.handleNewConn.Tracked :=
  iff_of_true (Option.some_ne_none _) List.getLast?_concat

theorem handleClose_tracked (s : TCPClient) (c : ConnSPtr) : (s.handleClose c).Tracked := by
  refine iff_of_false (fun h => h rfl) ?_
  simp [handleClose]

theorem step_tracked {a : Action} (h : s.Tracked) (hs' : step s a = some s') : s'.Tracked := by
  cases step_cases hs' with
  | connect fd => exact h
  | send c => exact h
  | disconnect c => exact h
  | peerClose c => exact handleClose_tracked s c
  | newConnection rest => exact handleNewConn_tracked _
  | start c rest => exact h
  | runClose c rest => exact handleClose_tracked _ c

theorem nonNull_iff {a : Action} (h : s.Tracked) : s.NonNull a ↔ s.AfterNewConn a :=
  imp_congr_right fun _ => h

/-! ## Careful runs -/

/-- A start that is next finds the connection. -/
structure Opening (s : TCPClient) : Prop where
  tracked : s.Tracked
  connection : s.StartNext → s.connection ≠ none

theorem init_opening : init.Opening where
  tracked := init_tracked
  connection h := by cases h

theorem startNext_post (f : ClientFunctor) (hf : f ≠ .start) :
    (s.post f).StartNext ↔ s.StartNext := by
  rw [StartNext, StartNext, post, List.find?_append, Option.or_eq_some_iff]
  refine or_iff_left ?_
  rintro ⟨-, hlast⟩
  exact hf (List.mem_singleton.mp (List.mem_of_find?_eq_some hlast)).symm

theorem step_opening {a : Action} (h : s.Opening) (hcareful : s.Careful a)
    (hs' : step s a = some s') : s'.Opening := by
  refine ⟨step_tracked h.tracked hs', ?_⟩
  cases step_cases hs' with
  | connect fd =>
      intro hnext
      apply h.connection
      refine (startNext_post .newConnection ?_).mp hnext
      rintro ⟨⟩
  | send c => exact h.connection
  | disconnect c hc =>
      rintro - hnone
      cases hc.symm.trans hnone
  | peerClose c => exact fun hnext => absurd hnext hcareful
  | newConnection rest => exact fun _ => Option.some_ne_none _
  | start c rest hqueue hc =>
      rintro - hnone
      cases hc.symm.trans hnone
  | runClose c rest hqueue =>
      have hnext : ¬ s.StartNext := hcareful c (by rw [hqueue]; rfl)
      rw [StartNext, hqueue] at hnext
      exact fun hrest => absurd hrest hnext

theorem nonNull_of_careful {a : Action} (h : s.Opening) (hcareful : s.Careful a) :
    s.NonNull a := by
  cases a with
  | connect fd => exact fun hderef => absurd hderef id
  | send => exact fun _ => h.tracked.mpr hcareful
  | disconnect => exact fun _ => h.tracked.mpr hcareful
  | peerClose c => exact fun hderef => absurd hderef id
  | runFunctor =>
      intro hhead
      apply h.connection
      obtain ⟨rest, hqueue⟩ := List.head?_eq_some_iff.mp hhead
      rw [StartNext, hqueue]
      rfl

/-- Over every run: every dereference finds the connection if and only if each comes after a
`HandleNewConn` with no `HandleClose` in between. That is so while the callers only use an open
connection and none is closed before its start. -/
theorem nonNull_run_iff (acts : List Action) :
    (Along step NonNull init acts ↔ Along step AfterNewConn init acts) ∧
      (Along step Careful init acts → Along step NonNull init acts) :=
  ⟨along_iff (fun _ _ => nonNull_iff) (fun _ _ _ h _ => step_tracked h) init_tracked acts,
    along_of_along (fun _ _ _ => step_opening) (fun _ _ => nonNull_of_careful) init_opening⟩

/-- `Send` before the loop has run the functor of `Connect`. -/
theorem send_before_connected : ¬ Along step NonNull init [.connect 7, .send] := by
  rintro ⟨-, h⟩
  exact (h _ rfl).1 trivial rfl

end TCPClient
end TinyGameServer
