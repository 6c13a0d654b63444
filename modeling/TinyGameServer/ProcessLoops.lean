import Mathlib.Logic.Function.Basic
import TinyGameServer.ConnectionLoop
import TinyGameServer.LocalView
import TinyGameServer.TCPServer

/-!
# All connections of a process on its event loops

A connection stays on the loop that it has been given. The queue of a loop, its batch and the rest
of the handler in progress belong to all its connections together, and new connections are queued
at any time, also while a batch runs. The servers keep a connection under its serial id, and a client
keeps its only one: these are the slots, and a new connection replaces what its slot had. A
statement that reads or writes a connection without references is undefined, and so is a call on
one. Every call of `Send` has a buffer of its own, which nobody else changes.
-/

namespace TinyGameServer

structure ConnObject (ι κ : Type) where
  loop : ι
  slot : κ
  conn : TCPConnection := .new
  users : ℕ := 0
  temps : ℕ := 0
  sending : List Buffer := []
  readCalls : ℕ := 0
  closeCalls : ℕ := 0

/-- What the connections on a loop share. The start functor of a connection only has its slot.
`functors` is the whole batch: it is destroyed when all of it has run. -/
structure LoopQueues where
  pending : List (ConnSPtr × ConnFunctor) := []
  batch : List (ConnSPtr × ConnFunctor) := []
  functors : List (ConnSPtr × ConnFunctor) := []
  running : Bool := false
  todo : List (ConnSPtr × Statement) := []

structure ProcessLoops (ι κ : Type) where
  objects : List (ConnObject ι κ)
  connections : κ → Option ConnSPtr
  loops : ι → LoopQueues

def ConnFunctor.isStart : ConnFunctor → Bool
  | .start => true
  | _ => false

namespace ConnObject

variable {ι κ : Type}

/-- The connection alone on its loop. A batch that runs while the start functor waits has begun
before the connection was there. -/
def view (o : ConnObject ι κ) (c : ConnSPtr) (registry : Bool) (l : LoopQueues) :
    ConnectionLoop where
  conn := o.conn
  registry
  users := o.users
  temps := o.temps
  pending := itemsOf c l.pending
  batch := itemsOf c l.batch
  batchRefs := ConnectionLoop.refs (itemsOf c l.functors)
  running := l.running && !(itemsOf c l.pending).any ConnFunctor.isStart
  todo := itemsOf c l.todo
  sending := o.sending
  readCalls := o.readCalls
  closeCalls := o.closeCalls

def update (o : ConnObject ι κ) (s : ConnectionLoop) : ConnObject ι κ where
  loop := o.loop
  slot := o.slot
  conn := s.conn
  users := s.users
  temps := s.temps
  sending := s.sending
  readCalls := s.readCalls
  closeCalls := s.closeCalls

end ConnObject

namespace ProcessLoops

variable {ι κ : Type}

def init : ProcessLoops ι κ :=
  { objects := [], connections := fun _ => none, loops := fun _ => {} }

def registered (s : ProcessLoops ι κ) (c : ConnSPtr) (o : ConnObject ι κ) : Bool :=
  decide (s.connections o.slot = some c)

def count (s : ProcessLoops ι κ) (c : ConnSPtr) (o : ConnObject ι κ) : ℕ :=
  (s.registered c o).toNat + o.users + o.temps +
    ConnectionLoop.refs (itemsOf c (s.loops o.loop).pending) +
    ConnectionLoop.refs (itemsOf c (s.loops o.loop).functors)

def view (s : ProcessLoops ι κ) (c : ConnSPtr) : ConnectionLoop :=
  match s.objects[c]? with
  | none => .init
  | some o => o.view c (s.registered c o) (s.loops o.loop)

inductive Action (ι κ : Type) where
  | handleNewConn (loop : ι) (slot : κ)
  | sendChecked (c : ConnSPtr) (buf : Buffer)
  | sendPosted (c : ConnSPtr) (i : ℕ)
  | close (c : ConnSPtr)
  | hold (c : ConnSPtr)
  | drop (c : ConnSPtr)
  | dispatch (c : ConnSPtr) (which : Interest) (r : ReadResult) (w : WriteResult)
  | beginBatch (loop : ι)
  | runFunctor (loop : ι) (w : WriteResult)
  | endBatch (loop : ι)
  | tick (loop : ι)

/-- Whom a functor runs on. A start functor looks in the slot, and there must be somebody. -/
def target (s : ProcessLoops ι κ) (c : ConnSPtr) : ConnFunctor → Option ConnSPtr
  | .start => do
    let o ← s.objects[c]?
    s.connections o.slot
  | _ => some c

variable [DecidableEq ι] [DecidableEq κ]

def setObject (s : ProcessLoops ι κ) (c : ConnSPtr) (o : ConnObject ι κ) : ProcessLoops ι κ :=
  { s with objects := s.objects.set c o }

def setLoop (s : ProcessLoops ι κ) (loop : ι) (l : LoopQueues) : ProcessLoops ι κ :=
  { s with loops := Function.update s.loops loop l }

def setSlot (s : ProcessLoops ι κ) (slot : κ) (c : Option ConnSPtr) : ProcessLoops ι κ :=
  { s with connections := Function.update s.connections slot c }

def post (s : ProcessLoops ι κ) (loop : ι) (c : ConnSPtr) (f : ConnFunctor) : ProcessLoops ι κ :=
  s.setLoop loop { s.loops loop with pending := (s.loops loop).pending ++ [(c, f)] }

/-- Only the close callback empties a slot, whoever is in it. -/
def closeSlot (s : ProcessLoops ι κ) (slot : κ) : Statement → ProcessLoops ι κ
  | .closeCb => s.setSlot slot none
  | _ => s

/-- The statement of a handler of `c` that is next on the loop. -/
def exec (s : ProcessLoops ι κ) (loop : ι) (c : ConnSPtr) (i : Statement)
    (rest : List (ConnSPtr × Statement)) : Option (ProcessLoops ι κ) := do
  let o ← s.objects[c]?
  if i.Accesses ∧ s.count c o = 0 then none
  else
    let v ← { o.view c (s.registered c o) (s.loops o.loop) with todo := [] : ConnectionLoop }.exec i
    return ((s.closeSlot o.slot i).setObject c (o.update v)).setLoop loop
      { s.loops loop with todo := v.todo.map (c, ·) ++ rest }

def step (s : ProcessLoops ι κ) : Action ι κ → Option (ProcessLoops ι κ)
  | .handleNewConn loop slot =>
    let c := s.objects.length
    some (({ s with objects := s.objects ++ [{ loop, slot }] : ProcessLoops ι κ }.setSlot slot
      (some c)).post loop c .start)
  | .sendChecked c buf => do
    let o ← s.objects[c]?
    if 1 ≤ s.count c o ∧ o.conn.status = .Connected then
      return s.setObject c { o with sending := o.sending ++ [buf] }
    else none
  | .sendPosted c i => do
    let o ← s.objects[c]?
    let buf ← o.sending[i]?
    if 1 ≤ s.count c o then
      return (s.setObject c { o with sending := o.sending.eraseIdx i }).post o.loop c (.send buf)
    else none
  | .close c => do
    let o ← s.objects[c]?
    if 1 ≤ s.count c o then return s.post o.loop c .handleClose else none
  | .hold c => do
    let o ← s.objects[c]?
    if 1 ≤ s.count c o then return s.setObject c { o with users := o.users + 1 } else none
  | .drop c => do
    let o ← s.objects[c]?
    if 1 ≤ o.users then return s.setObject c { o with users := o.users - 1 } else none
  | .dispatch c which r w => do
    let o ← s.objects[c]?
    let l := s.loops o.loop
    if l.todo = [] ∧ l.running = false ∧ 1 ≤ s.count c o ∧ which ≠ Interest.none ∧
        which.Within o.conn.watcher.registered then
      return s.setLoop o.loop { l with todo := (ConnectionLoop.handle which r w).map (c, ·) }
    else none
  | .beginBatch loop =>
    let l := s.loops loop
    if l.todo = [] ∧ l.running = false then
      some (s.setLoop loop
        { pending := [], batch := l.pending, functors := l.pending, running := true, todo := [] })
    else none
  | .runFunctor loop w =>
    let l := s.loops loop
    if l.todo = [] ∧ l.running = true then
      match l.batch with
      | [] => none
      | (c, f) :: rest => do
        let d ← s.target c f
        return s.setLoop loop
          { l with batch := rest, todo := (ConnectionLoop.functorProgram w f).map (d, ·) }
    else none
  | .endBatch loop =>
    let l := s.loops loop
    if l.todo = [] ∧ l.running = true ∧ l.batch = [] then
      some (s.setLoop loop { l with running := false, functors := [] })
    else none
  | .tick loop =>
    match (s.loops loop).todo with
    | [] => none
    | (c, i) :: rest => s.exec loop c i rest

def FreshSlot (s : ProcessLoops ι κ) : Action ι κ → Prop
  | .handleNewConn _ slot => slot ∉ s.objects.map ConnObject.slot
  | _ => True

instance (s : ProcessLoops ι κ) (a : Action ι κ) : Decidable (s.FreshSlot a) :=
  match a with
  | .handleNewConn _ _ => inferInstanceAs (Decidable (_ ∉ _))
  | .sendChecked _ _ | .sendPosted _ _ | .close _ | .hold _ | .drop _ | .dispatch _ _ _ _
  | .beginBatch _ | .runFunctor _ _ | .endBatch _ | .tick _ => isTrue trivial

/-- What an action is for one connection. -/
def project (c : ConnSPtr) (s : ProcessLoops ι κ) : Action ι κ → List ConnectionLoop.Action
  | .handleNewConn _ _ => []
  | .sendChecked d buf => if d = c then [.sendChecked buf] else []
  | .sendPosted d i => if d = c then [.sendPosted i] else []
  | .close d => if d = c then [.close] else []
  | .hold d => if d = c then [.hold] else []
  | .drop d => if d = c then [.drop] else []
  | .dispatch d which r w => if d = c then [.dispatch which r w] else []
  | .beginBatch loop => if s.objects[c]?.map ConnObject.loop = some loop then [.beginBatch] else []
  | .runFunctor loop w =>
    if (s.loops loop).batch.head?.map Prod.fst = some c then [.runFunctor w] else []
  | .endBatch loop =>
    if s.objects[c]?.map ConnObject.loop = some loop ∧ (s.view c).running then [.endBatch] else []
  | .tick loop => if (s.loops loop).todo.head?.map Prod.fst = some c then [.tick] else []

end ProcessLoops
end TinyGameServer
