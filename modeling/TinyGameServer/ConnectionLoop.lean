import TinyGameServer.TCPConnection
import TinyGameServer.Transitions

/-!
# One connection on its event loop

The loop dispatches events of the connection and runs batches of functors. A handler in progress
is the list `todo` of its remaining statements, and everybody else can act between two of them:
callbacks and other threads call `Send` and `Close`, and copy and drop their references. The
strong references are counted by who holds them. Statements are executed whether or not the
connection still exists; the count says if it does.
-/

namespace TinyGameServer

inductive ConnFunctor where
  | start
  /-- Captures the raw `this`. -/
  | send (buf : Buffer)
  /-- Captures a strong reference. -/
  | handleClose

inductive Statement where
  | enableReading
  | connCb
  /-- `read_cb_` of the watcher, which is `HandleRead`, up to the test of what `ReadFd` returns. -/
  | handleRead (r : ReadResult)
  | readCb
  /-- The temporary that was passed to a callback is destroyed. -/
  | releaseTemp
  /-- The second test of `FdWatcher::Handle` and `HandleWrite` up to the test of `len`. -/
  | handleWrite (w : WriteResult)
  | forwardSent (len : Int32)
  | stopIfEmpty
  | disableAll
  | closeCb
  | setDisconnected
  | directWrite (buf : Buffer) (w : WriteResult)
  | queueRest (buf : Buffer) (remaining : Int32)
  | enableWriting

namespace Statement

/-- Every statement but the end of a temporary reads or writes a member. -/
def Accesses : Statement → Prop
  | releaseTemp => False
  | _ => True

instance : DecidablePred Accesses
  | releaseTemp => isFalse fun h => h
  | enableReading | connCb | handleRead _ | readCb | handleWrite _ | forwardSent _ | stopIfEmpty
  | disableAll | closeCb | setDisconnected | directWrite _ _ | queueRest _ _ | enableWriting =>
    isTrue trivial

def closeProgram : List Statement := [disableAll, closeCb, releaseTemp, setDisconnected]

end Statement

structure ConnectionLoop where
  conn : TCPConnection
  /-- The entry in `connections_` of a server, or `connection_` of a client. -/
  registry : Bool
  users : ℕ
  /-- Temporaries made by `shared_from_this()`. -/
  temps : ℕ
  pending : List ConnFunctor
  /-- The rest of the current batch, and the references in all its functors: they are only
  destroyed together with the batch. -/
  batch : List ConnFunctor
  batchRefs : ℕ
  running : Bool
  todo : List Statement
  /-- Calls of `Send` between the test of `status_` and `AsyncCall`. -/
  sending : List Buffer
  readCalls : ℕ
  closeCalls : ℕ

namespace ConnectionLoop

def refs (functors : List ConnFunctor) : ℕ :=
  functors.countP fun
    | .handleClose => true
    | _ => false

def count (s : ConnectionLoop) : ℕ :=
  s.registry.toNat + s.users + s.temps + refs s.pending + s.batchRefs

def Closed (s : ConnectionLoop) : Prop := s.conn.status = .Disconnected

def registered (s : ConnectionLoop) : Interest := s.conn.watcher.registered

def init : ConnectionLoop where
  conn := .new
  registry := true
  users := 0
  temps := 0
  pending := [.start]
  batch := []
  batchRefs := 0
  running := false
  todo := []
  sending := []
  readCalls := 0
  closeCalls := 0

/-- One statement, where `s.todo` already holds what follows it. -/
def exec (s : ConnectionLoop) : Statement → Option ConnectionLoop
  | .enableReading => some { s with conn := s.conn.enableReading }
  | .connCb => some { s with temps := s.temps + 1 }
  | .handleRead .error => some s
  | .handleRead (.data []) => some { s with todo := Statement.closeProgram ++ s.todo }
  | .handleRead (.data (_ :: _)) => some { s with todo := .readCb :: .releaseTemp :: s.todo }
  | .readCb => some { s with temps := s.temps + 1, readCalls := s.readCalls + 1 }
  | .releaseTemp => some { s with temps := s.temps - 1 }
  | .handleWrite w => do
    let (len, conn) ← s.conn.writeOut w
    if 0 < len then return { s with conn, todo := .forwardSent len :: .stopIfEmpty :: s.todo }
    else return { s with conn }
  | .forwardSent len => some { s with conn := s.conn.forwardSent len }
  | .stopIfEmpty => some { s with conn := s.conn.stopIfEmpty }
  | .disableAll => some { s with conn := s.conn.disableAll }
  | .closeCb =>
    some { s with temps := s.temps + 1, registry := false, closeCalls := s.closeCalls + 1 }
  | .setDisconnected => some { s with conn := s.conn.setDisconnected }
  | .directWrite buf w => do
    let (remaining, buf, conn) ← s.conn.directWrite buf w
    return { s with conn, todo := .queueRest buf remaining :: .enableWriting :: s.todo }
  | .queueRest buf remaining => do
    let conn ← s.conn.queueRest buf remaining
    return { s with conn }
  | .enableWriting => some { s with conn := s.conn.enableWriting }

inductive Action where
  | sendChecked (buf : Buffer)
  | sendPosted (i : ℕ)
  | close
  | hold
  | drop
  /-- `FdWatcher::Handle` with what `readv` and `write` are going to return. -/
  | dispatch (which : Interest) (r : ReadResult) (w : WriteResult)
  | beginBatch
  | runFunctor (w : WriteResult)
  | endBatch
  | tick

/-- The statements of one call of `FdWatcher::Handle`. -/
def handle (which : Interest) (r : ReadResult) (w : WriteResult) : List Statement :=
  (if which.read then [.handleRead r] else []) ++ if which.write then [.handleWrite w] else []

def functorProgram (w : WriteResult) : ConnFunctor → List Statement
  | .start => [.enableReading, .connCb, .releaseTemp]
  | .send buf => [.directWrite buf w]
  | .handleClose => Statement.closeProgram

/-- Calls need a reference; the destructor of a connection removes its event. -/
def step (s : ConnectionLoop) : Action → Option ConnectionLoop
  | .sendChecked buf =>
    if 1 ≤ s.count ∧ s.conn.status = .Connected then some { s with sending := s.sending ++ [buf] }
    else none
  | .sendPosted i =>
    (s.sending[i]?).map fun buf =>
      { s with sending := s.sending.eraseIdx i, pending := s.pending ++ [.send buf] }
  | .close =>
    if 1 ≤ s.count then some { s with pending := s.pending ++ [.handleClose] } else none
  | .hold => if 1 ≤ s.count then some { s with users := s.users + 1 } else none
  | .drop => if 1 ≤ s.users then some { s with users := s.users - 1 } else none
  | .dispatch which r w =>
    if s.todo = [] ∧ s.running = false ∧ 1 ≤ s.count ∧ which ≠ Interest.none ∧
        which.Within s.registered then
      some { s with todo := handle which r w }
    else none
  | .beginBatch =>
    if s.todo = [] ∧ s.running = false then
      some { s with
        batch := s.pending, batchRefs := refs s.pending, pending := [], running := true }
    else none
  | .runFunctor w =>
    if s.todo = [] ∧ s.running = true then
      match s.batch with
      | [] => none
      | f :: rest => some { s with batch := rest, todo := functorProgram w f }
    else none
  | .endBatch =>
    if s.todo = [] ∧ s.running = true ∧ s.batch = [] then
      some { s with running := false, batchRefs := 0 }
    else none
  | .tick =>
    match s.todo with
    | [] => none
    | i :: rest => { s with todo := rest : ConnectionLoop }.exec i

/-! ## What a statement does -/

variable {s s' : ConnectionLoop}

theorem exec_handleWrite {w : WriteResult} (h : s.exec (.handleWrite w) = some s') :
    ∃ len conn, s.conn.writeOut w = some (len, conn) ∧ s' = { s with
      conn, todo := if 0 < len then .forwardSent len :: .stopIfEmpty :: s.todo else s.todo } := by
  obtain ⟨⟨len, conn⟩, hwrite, h⟩ := Option.bind_eq_some_iff.mp h
  refine ⟨len, conn, hwrite, ?_⟩
  dsimp only at h
  by_cases hlen : 0 < len
  · rw [if_pos hlen] at h ⊢
    exact (Option.some.inj h).symm
  · rw [if_neg hlen] at h ⊢
    exact (Option.some.inj h).symm

theorem exec_directWrite {buf : Buffer} {w : WriteResult}
    (h : s.exec (.directWrite buf w) = some s') :
    ∃ remaining buf' conn, s.conn.directWrite buf w = some (remaining, buf', conn) ∧
      s' = { s with conn, todo := .queueRest buf' remaining :: .enableWriting :: s.todo } := by
  obtain ⟨⟨remaining, buf', conn⟩, hwrite, h⟩ := Option.bind_eq_some_iff.mp h
  exact ⟨remaining, buf', conn, hwrite, (Option.some.inj h).symm⟩

theorem exec_queueRest {buf : Buffer} {remaining : Int32}
    (h : s.exec (.queueRest buf remaining) = some s') :
    ∃ conn, s.conn.queueRest buf remaining = some conn ∧ s' = { s with conn } := by
  obtain ⟨conn, hqueue, h⟩ := Option.bind_eq_some_iff.mp h
  exact ⟨conn, hqueue, (Option.some.inj h).symm⟩

/-- Statements change the connection and what remains to be done; only callbacks and the end of a
temporary also change the references. -/
theorem exec_cases {i : Statement} (h : s.exec i = some s') :
    (∃ conn todo, s' = { s with conn, todo }) ∨
    (i = .connCb ∧ s' = { s with temps := s.temps + 1 }) ∨
    (i = .readCb ∧ s' = { s with temps := s.temps + 1, readCalls := s.readCalls + 1 }) ∨
    (i = .closeCb ∧ s' = { s with
      temps := s.temps + 1, registry := false, closeCalls := s.closeCalls + 1 }) ∨
    (i = .releaseTemp ∧ s' = { s with temps := s.temps - 1 }) := by
  cases i with
  | connCb => exact .inr (.inl ⟨rfl, (Option.some.inj h).symm⟩)
  | readCb => exact .inr (.inr (.inl ⟨rfl, (Option.some.inj h).symm⟩))
  | closeCb => exact .inr (.inr (.inr (.inl ⟨rfl, (Option.some.inj h).symm⟩)))
  | releaseTemp => exact .inr (.inr (.inr (.inr ⟨rfl, (Option.some.inj h).symm⟩)))
  | handleWrite w =>
      obtain ⟨len, conn, -, rfl⟩ := exec_handleWrite h
      exact .inl ⟨_, _, rfl⟩
  | directWrite buf w =>
      obtain ⟨remaining, buf', conn, -, rfl⟩ := exec_directWrite h
      exact .inl ⟨_, _, rfl⟩
  | queueRest buf remaining =>
      obtain ⟨conn, -, rfl⟩ := exec_queueRest h
      exact .inl ⟨_, _, rfl⟩
  | handleRead r =>
      rcases r with _ | _ | ⟨x, bytes⟩ <;> exact .inl ⟨_, _, (Option.some.inj h).symm⟩
  | _ => exact .inl ⟨_, _, (Option.some.inj h).symm⟩

/-! ## What an action does -/

/-- The actions that are possible, with everything their guards say. -/
inductive Step (s : ConnectionLoop) : Action → ConnectionLoop → Prop
  | sendChecked (buf : Buffer) (hcount : 1 ≤ s.count) (hconnected : s.conn.status = .Connected) :
      Step s (.sendChecked buf) { s with sending := s.sending ++ [buf] }
  | sendPosted (i : ℕ) (buf : Buffer) (hbuf : s.sending[i]? = some buf) :
      Step s (.sendPosted i)
        { s with sending := s.sending.eraseIdx i, pending := s.pending ++ [.send buf] }
  | close (hcount : 1 ≤ s.count) :
      Step s .close { s with pending := s.pending ++ [.handleClose] }
  | hold (hcount : 1 ≤ s.count) : Step s .hold { s with users := s.users + 1 }
  | drop (husers : 1 ≤ s.users) : Step s .drop { s with users := s.users - 1 }
  | dispatch (which : Interest) (r : ReadResult) (w : WriteResult) (htodo : s.todo = [])
      (hcount : 1 ≤ s.count) (hne : which ≠ Interest.none) (hwithin : which.Within s.registered) :
      Step s (.dispatch which r w) { s with todo := handle which r w }
  | beginBatch (htodo : s.todo = []) (hrunning : s.running = false) :
      Step s .beginBatch { s with
        batch := s.pending, batchRefs := refs s.pending, pending := [], running := true }
  | runFunctor (w : WriteResult) (f : ConnFunctor) (rest : List ConnFunctor) (htodo : s.todo = [])
      (hrunning : s.running = true) (hbatch : s.batch = f :: rest) :
      Step s (.runFunctor w) { s with batch := rest, todo := functorProgram w f }
  | endBatch (htodo : s.todo = []) (hbatch : s.batch = []) :
      Step s .endBatch { s with running := false, batchRefs := 0 }
  | tick (i : Statement) (rest : List Statement) (s' : ConnectionLoop) (htodo : s.todo = i :: rest)
      (hexec : { s with todo := rest : ConnectionLoop }.exec i = some s') : Step s .tick s'

theorem step_cases {a : Action} (h : step s a = some s') : Step s a s' := by
  cases a with
  | sendPosted i =>
      obtain ⟨buf, hbuf, rfl⟩ := Option.map_eq_some_iff.mp h
      exact .sendPosted i buf hbuf
  | runFunctor w =>
      rw [step] at h
      split_ifs at h with hcond
      split at h
      · cases h
      · cases h
        exact .runFunctor w _ _ hcond.1 hcond.2 ‹_›
  | tick =>
      rw [step] at h
      split at h
      · cases h
      · exact .tick _ _ _ ‹_› h
  | sendChecked buf =>
      rw [step] at h
      split_ifs at h with hcond
      cases h
      exact .sendChecked buf hcond.1 hcond.2
  | close =>
      rw [step] at h
      split_ifs at h with hcount
      cases h
      exact .close hcount
  | hold =>
      rw [step] at h
      split_ifs at h with hcount
      cases h
      exact .hold hcount
  | drop =>
      rw [step] at h
      split_ifs at h with husers
      cases h
      exact .drop husers
  | dispatch which r w =>
      rw [step] at h
      split_ifs at h with hcond
      cases h
      exact .dispatch which r w hcond.1 hcond.2.2.1 hcond.2.2.2.1 hcond.2.2.2.2
  | beginBatch =>
      rw [step] at h
      split_ifs at h with hcond
      cases h
      exact .beginBatch hcond.1 hcond.2
  | endBatch =>
      rw [step] at h
      split_ifs at h with hcond
      cases h
      exact .endBatch hcond.1 hcond.2.2

end ConnectionLoop
end TinyGameServer
