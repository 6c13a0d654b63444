import TinyGameServer.FdWatcher
import TinyGameServer.Registry

/-!
# The callbacks of the accepted connections

The server with the watcher of each connection and the history of what has been called for it. A
readable event is only delivered while read interest is registered, and `Close` is called by
someone who got the connection from a callback.
-/

namespace TinyGameServer

inductive Occurrence where
  /-- `Start`, with the id that its functor has captured. -/
  | start (serialId : Int64) (conn : ConnSPtr)
  | message (conn : ConnSPtr)
  | close (conn : ConnSPtr)
  deriving DecidableEq

def Occurrence.conn : Occurrence → ConnSPtr
  | start _ c => c
  | message c => c
  | close c => c

structure ServedConnections (ι : Type) where
  server : TCPServer ι
  watchers : List FdWatcher
  history : List Occurrence

namespace ServedConnections

variable {ι : Type}

def init : ServedConnections ι := { server := .init, watchers := [], history := [] }

def startConn (s : ServedConnections ι) (serialId : Int64) : Option (ServedConnections ι) := do
  let c ← (s.server.connections.subscript serialId).1
  let server ← s.server.startConn serialId
  some {
    server
    watchers := s.watchers.modify c FdWatcher.enableReadEvent
    history := s.history ++ [.start serialId c] }

def handleClose (s : ServedConnections ι) (c : ConnSPtr) : ServedConnections ι where
  server := s.server.handleClose c
  watchers := s.watchers.modify c FdWatcher.disableAllEvent
  history := s.history ++ [.close c]

def handleRead (s : ServedConnections ι) (c : ConnSPtr) (len : Int32) : ServedConnections ι :=
  if 0 < len then { s with history := s.history ++ [.message c] }
  else if len = 0 then s.handleClose c
  else s

def Received (s : ServedConnections ι) (c : ConnSPtr) : Prop := c ∈ s.history.map Occurrence.conn

instance (s : ServedConnections ι) (c : ConnSPtr) : Decidable (s.Received c) :=
  inferInstanceAs (Decidable (_ ∈ _))

inductive Action (ι : Type) where
  | handleNewConn (loop : ι) (serialId : Int64)
  | runFunctor (loop : ι)
  | readable (conn : ConnSPtr) (len : Int32)
  | close (conn : ConnSPtr)

variable [DecidableEq ι]

def runFunctor (s : ServedConnections ι) (loop : ι) : Option (ServedConnections ι) :=
  match s.server.pending loop with
  | [] => none
  | f :: rest =>
    let s := { s with server := s.server.pop loop rest }
    match f with
    | .start serialId => s.startConn serialId
    | .handleClose c => some (s.handleClose c)

def step (s : ServedConnections ι) : Action ι → Option (ServedConnections ι)
  | .handleNewConn loop serialId =>
    (s.server.step (.handleNewConn loop serialId)).map fun server =>
      { s with server, watchers := s.watchers ++ [.new Interest.none] }
  | .runFunctor loop => s.runFunctor loop
  | .readable c len =>
    match s.watchers[c]? with
    | none => none
    | some w => if w.registered.read then some (s.handleRead c len) else none
  | .close c =>
    if s.Received c then (s.server.step (.close c)).map ({ s with server := · }) else none

/-! ## The order of the callbacks -/

/-- What may come after the given history: a first start, or a callback after a start. -/
def Allowed (before : List Occurrence) : Occurrence → Prop
  | .start _ c => ∀ id, .start id c ∉ before
  | .message c => ∃ id, .start id c ∈ before
  | .close c => ∃ id, .start id c ∈ before

def InOrder (history : List Occurrence) : Prop :=
  ∀ before o after, history = before ++ o :: after → Allowed before o

theorem inOrder_nil : InOrder [] := by
  intro before o after h
  cases List.append_eq_nil_iff.mp h.symm |>.2

theorem InOrder.concat {history : List Occurrence} {o : Occurrence} (h : InOrder history)
    (ho : Allowed history o) : InOrder (history ++ [o]) := by
  intro before o' after heq
  rcases List.eq_nil_or_concat after with rfl | ⟨after, last, rfl⟩
  · obtain ⟨rfl, hlast⟩ := List.append_inj' heq rfl
    cases hlast
    exact ho
  · rw [List.concat_eq_append, ← List.cons_append, ← List.append_assoc] at heq
    obtain ⟨hhistory, -⟩ := List.append_inj' heq rfl
    exact h before o' after hhistory

structure Attached (history : List Occurrence) (c : ConnSPtr) (conn : Conn ι) (w : FdWatcher) :
    Prop where
  fresh : conn.started = false → w = .new Interest.none
  reading : w.registered.read = true ↔ conn.started = true ∧ conn.closed = false
  started : conn.started = true ↔ ∃ id, .start id c ∈ history

structure Invariant (s : ServedConnections ι) : Prop where
  server : s.server.Invariant
  length : s.watchers.length = s.server.objects.length
  attached : ∀ {c : ConnSPtr} {conn : Conn ι} {w : FdWatcher}, s.server.objects[c]? = some conn →
    s.watchers[c]? = some w → Attached s.history c conn w
  accepted : ∀ {id : Int64} {c : ConnSPtr}, .start id c ∈ s.history →
    ∃ conn, s.server.objects[c]? = some conn ∧ conn.serialId = id
  inOrder : InOrder s.history

omit [DecidableEq ι] in
theorem init_invariant : (init : ServedConnections ι).Invariant where
  server := TCPServer.init_invariant
  length := rfl
  attached hobj := by cases hobj
  accepted hstart := by cases hstart
  inOrder := inOrder_nil

variable {s s' : ServedConnections ι}

omit [DecidableEq ι] in
theorem Invariant.watcher (h : s.Invariant) {c : ConnSPtr} {conn : Conn ι}
    (hobj : s.server.objects[c]? = some conn) : ∃ w, s.watchers[c]? = some w := by
  have hlt := (List.getElem?_eq_some_iff.mp hobj).1
  rw [← h.length] at hlt
  exact ⟨_, List.getElem?_eq_getElem hlt⟩

/-! ## One step -/

omit [DecidableEq ι] in
theorem Attached.concat {history : List Occurrence} {c : ConnSPtr} {conn : Conn ι} {w : FdWatcher}
    {o : Occurrence} (h : Attached history c conn w) (ho : ∀ id, o ≠ .start id c) :
    Attached (history ++ [o]) c conn w where
  fresh := h.fresh
  reading := h.reading
  started := by
    rw [h.started]
    refine exists_congr fun id => ?_
    rw [List.mem_append, List.mem_singleton]
    exact (or_iff_left (ho id).symm).symm

omit [DecidableEq ι] in
theorem Invariant.concat (h : s.Invariant) {o : Occurrence} (ho : ∀ id c, o ≠ .start id c)
    (hallowed : Allowed s.history o) :
    ({ s with history := s.history ++ [o] } : ServedConnections ι).Invariant where
  server := h.server
  length := h.length
  attached hobj hw := (h.attached hobj hw).concat fun id => ho id _
  accepted hstart := by
    rcases List.mem_append.mp hstart with hstart | hstart
    · exact h.accepted hstart
    · exact absurd (List.mem_singleton.mp hstart).symm (ho _ _)
  inOrder := h.inOrder.concat hallowed

omit [DecidableEq ι] in
theorem Invariant.same_objects (h : s.Invariant) {server : TCPServer ι} (hserver : server.Invariant)
    (hobjects : server.objects = s.server.objects) :
    ({ s with server } : ServedConnections ι).Invariant where
  server := hserver
  length := by
    rw [hobjects]
    exact h.length
  attached hobj hw := by
    rw [hobjects] at hobj
    exact h.attached hobj hw
  accepted hstart := by
    rw [hobjects]
    exact h.accepted hstart
  inOrder := h.inOrder

theorem handleNewConn_invariant (h : s.Invariant) (loop : ι) {serialId : Int64}
    (hfresh : ∀ (c : ConnSPtr) (conn : Conn ι), s.server.objects[c]? = some conn →
      conn.serialId ≠ serialId) :
    ({ s with
      server := s.server.handleNewConn loop serialId
      watchers := s.watchers ++ [.new Interest.none] } : ServedConnections ι).Invariant where
  server := TCPServer.handleNewConn_invariant h.server loop hfresh
  length := by
    simp [TCPServer.handleNewConn, TCPServer.post, h.length]
  attached := by
    intro c conn w hobj hw
    rcases TCPServer.getElem?_concat_eq_some.mp hobj with hobj | ⟨rfl, rfl⟩
    · obtain ⟨w', hw'⟩ := h.watcher hobj
      rw [List.getElem?_append_left (List.getElem?_eq_some_iff.mp hw').1] at hw
      exact h.attached hobj hw
    · rw [← h.length, List.getElem?_concat_length] at hw
      cases hw
      refine ⟨fun _ => rfl, ?_, ?_⟩
      · exact iff_of_false Bool.false_ne_true fun hstart => Bool.false_ne_true hstart.1
      · refine iff_of_false Bool.false_ne_true ?_
        rintro ⟨id, hid⟩
        obtain ⟨conn, hobj, -⟩ := h.accepted hid
        exact absurd (List.getElem?_eq_some_iff.mp hobj).1 (Nat.lt_irrefl _)
  accepted := by
    intro id c hstart
    obtain ⟨conn, hobj, hid⟩ := h.accepted hstart
    exact ⟨conn, TCPServer.getElem?_concat_eq_some.mpr (.inl hobj), hid⟩
  inOrder := h.inOrder

omit [DecidableEq ι] in
theorem Invariant.attached_modify (h : s.Invariant) {c : ConnSPtr} {conn : Conn ι} {w : FdWatcher}
    (hobj : s.server.objects[c]? = some conn) (hw : s.watchers[c]? = some w)
    {f : Conn ι → Conn ι} {g : FdWatcher → FdWatcher} {o : Occurrence} (ho : o.conn = c)
    (hnew : Attached (s.history ++ [o]) c (f conn) (g w)) {c' : ConnSPtr} {conn' : Conn ι}
    {w' : FdWatcher} (hobj' : (s.server.objects.modify c f)[c']? = some conn')
    (hw' : (s.watchers.modify c g)[c']? = some w') :
    Attached (s.history ++ [o]) c' conn' w' := by
  by_cases hc : c = c'
  · subst hc
    obtain ⟨conn₀, hconn, rfl⟩ := TCPServer.getElem?_modify_eq_some.mp hobj'
    obtain ⟨w₀, hw₀, rfl⟩ := TCPServer.getElem?_modify_eq_some.mp hw'
    cases hobj.symm.trans hconn
    cases hw.symm.trans hw₀
    rw [if_pos rfl, if_pos rfl]
    exact hnew
  · obtain ⟨conn₀, hconn, rfl⟩ := TCPServer.getElem?_modify_eq_some.mp hobj'
    obtain ⟨w₀, hw₀, rfl⟩ := TCPServer.getElem?_modify_eq_some.mp hw'
    rw [if_neg hc, if_neg hc]
    refine (h.attached hconn hw₀).concat ?_
    rintro id rfl
    exact hc ho.symm

omit [DecidableEq ι] in
theorem Invariant.accepted_modify (h : s.Invariant) {f : Conn ι → Conn ι}
    (hf : ∀ conn, (f conn).serialId = conn.serialId) {id : Int64} {c c' : ConnSPtr}
    (hstart : .start id c ∈ s.history) :
    ∃ conn, (s.server.objects.modify c' f)[c]? = some conn ∧ conn.serialId = id := by
  obtain ⟨conn, hobj, hid⟩ := h.accepted hstart
  refine ⟨_, TCPServer.getElem?_modify_eq_some.mpr ⟨conn, hobj, rfl⟩, ?_⟩
  split
  · rw [hf, hid]
  · exact hid

/-- The deferred functor finds the connection that was accepted under its id, and starts it for
the first time. -/
theorem startConn_spec (h : s.Invariant) {loop : ι} {id : Int64} {rest : List ServerFunctor}
    (hqueue : s.server.pending loop = .start id :: rest) :
    ∃ (c : ConnSPtr) (conn : Conn ι) (server : TCPServer ι), s.server.objects[c]? = some conn ∧
      conn.serialId = id ∧ conn.loop = loop ∧ conn.started = false ∧
      s.server.connections.entry id = some (some c) ∧
      (s.server.pop loop rest).startConn id = some server ∧
      server.objects = s.server.objects.modify c ({ · with started := true }) ∧
      ({ s with server := s.server.pop loop rest } : ServedConnections ι).startConn id =
        some {
          server
          watchers := s.watchers.modify c FdWatcher.enableReadEvent
          history := s.history ++ [.start id c] } := by
  obtain ⟨c, conn, hobj, hid, hloop, hstart, hspec⟩ := TCPServer.startConn_spec h.server hqueue
  have hlive : s.server.Live id c := ⟨conn, hobj, hid, h.server.not_closed hobj hstart⟩
  have hsub : (s.server.pop loop rest).connections.subscript id = (some c, s.server.connections) :=
    h.server.exact.subscript_of_rel hlive
  have hentry := (h.server.exact id (some c)).mpr ⟨c, rfl, hlive⟩
  refine ⟨c, conn, _, hobj, hid, hloop, hstart, hentry, hspec, rfl, ?_⟩
  simp only [startConn, hsub, hspec, Option.bind_eq_bind, Option.bind_some]

theorem startConn_invariant (h : s.Invariant) {loop : ι} {id : Int64} {rest : List ServerFunctor}
    (hqueue : s.server.pending loop = .start id :: rest)
    (hs' : ({ s with server := s.server.pop loop rest } : ServedConnections ι).startConn id =
      some s') : s'.Invariant := by
  obtain ⟨c, conn, server, hobj, hid, -, hstart, -, hserver, hobjects, hspec⟩ :=
    startConn_spec h hqueue
  obtain ⟨w, hw⟩ := h.watcher hobj
  have hattached := h.attached hobj hw
  have hnot : ∀ id', .start id' c ∉ s.history := by
    intro id' hmem
    rw [hattached.started.mpr ⟨id', hmem⟩] at hstart
    cases hstart
  rw [hspec] at hs'
  obtain rfl := Option.some.inj hs'
  constructor
  case server => exact TCPServer.startConn_invariant h.server hqueue hserver
  case length => simp [hobjects, h.length]
  case attached =>
    intro c' conn' w' hobj' hw'
    rw [hobjects] at hobj'
    refine h.attached_modify hobj hw ?_ ?_ hobj' hw'
    · rfl
    · have hopen := h.server.not_closed hobj hstart
      rw [hattached.fresh hstart]
      refine ⟨?_, iff_of_true rfl ⟨rfl, hopen⟩, iff_of_true rfl ⟨id, ?_⟩⟩
      · intro heq
        cases heq
      · exact List.mem_append_right _ List.mem_cons_self
  case accepted =>
    intro id' c' hmem
    rw [hobjects]
    rcases List.mem_append.mp hmem with hmem | hmem
    · apply h.accepted_modify
      · exact fun _ => rfl
      · exact hmem
    · cases List.mem_singleton.mp hmem
      exact ⟨_, TCPServer.getElem?_modify_eq_some.mpr ⟨conn, hobj, rfl⟩, by rw [if_pos rfl, hid]⟩
  case inOrder => exact h.inOrder.concat hnot

omit [DecidableEq ι] in
theorem handleClose_invariant (h : s.Invariant) {c : ConnSPtr} {conn : Conn ι}
    (hobj : s.server.objects[c]? = some conn) (hstarted : conn.started = true) :
    (s.handleClose c).Invariant := by
  obtain ⟨w, hw⟩ := h.watcher hobj
  have hattached := h.attached hobj hw
  have hobjects : (s.handleClose c).server.objects =
      s.server.objects.modify c ({ · with closed := true }) := by
    rw [handleClose, TCPServer.handleClose_eq hobj]
  constructor
  case server => exact TCPServer.handleClose_invariant h.server hobj hstarted
  case length =>
    rw [hobjects, handleClose, List.length_modify, List.length_modify, h.length]
  case attached =>
    intro c' conn' w' hobj' hw'
    rw [hobjects] at hobj'
    refine h.attached_modify hobj hw ?_ ?_ hobj' hw'
    · rfl
    · refine Attached.concat ⟨?_, ?_, hattached.started⟩ ?_
      · intro heq
        cases hstarted.symm.trans heq
      · rw [FdWatcher.registered_disableAllEvent]
        exact iff_of_false Bool.false_ne_true fun hopen => Bool.false_ne_true hopen.2.symm
      · rintro id' ⟨⟩
  case accepted =>
    intro id' c' hmem
    rw [hobjects]
    rcases List.mem_append.mp hmem with hmem | hmem
    · apply h.accepted_modify
      · exact fun _ => rfl
      · exact hmem
    · cases List.mem_singleton.mp hmem
  case inOrder => exact h.inOrder.concat (hattached.started.mp hstarted)

theorem step_invariant {a : Action ι} (h : s.Invariant) (hs' : step s a = some s') :
    s'.Invariant := by
  cases a with
  | handleNewConn loop serialId =>
      obtain ⟨server, hserver, rfl⟩ := Option.map_eq_some_iff.mp hs'
      cases TCPServer.step_cases hserver with
      | handleNewConn _ _ hfresh => exact handleNewConn_invariant h loop hfresh
  | runFunctor loop =>
      rw [step, runFunctor] at hs'
      split at hs'
      · cases hs'
      · rename_i f rest hqueue
        cases f with
        | start id => exact startConn_invariant h hqueue hs'
        | handleClose c =>
            cases hs'
            obtain ⟨conn, hobj, hstarted⟩ := TCPServer.front_close_started h.server hqueue
            have hpop := h.same_objects (TCPServer.pop_close_invariant h.server hqueue) rfl
            exact handleClose_invariant hpop hobj hstarted
  | readable c len =>
      rw [step] at hs'
      split at hs'
      · cases hs'
      · rename_i w hw
        split_ifs at hs' with hread
        cases hs'
        have hlt := (List.getElem?_eq_some_iff.mp hw).1
        rw [h.length] at hlt
        have hobj := List.getElem?_eq_getElem hlt
        have hattached := h.attached hobj hw
        have hstarted := (hattached.reading.mp hread).1
        rw [handleRead]
        split_ifs
        · apply h.concat
          · rintro id c' ⟨⟩
          · exact hattached.started.mp hstarted
        · exact handleClose_invariant h hobj hstarted
        · exact h
  | close c =>
      rw [step] at hs'
      split_ifs at hs'
      obtain ⟨server, hserver, rfl⟩ := Option.map_eq_some_iff.mp hs'
      cases TCPServer.step_cases hserver with
      | close _ conn hobj => exact h.same_objects (TCPServer.post_close_invariant h.server hobj) rfl

/-- In every reachable state: a start functor at the front of its queue finds the connection that
was accepted under its id and not started yet, every `Start` was that of the connection accepted
under the captured id, and nothing comes before the one start of a connection. -/
theorem started_once_first (h : Reachable step init s) :
    (∀ loop id rest, s.server.pending loop = .start id :: rest →
      ∃ (c : ConnSPtr) (conn : Conn ι), s.server.connections.entry id = some (some c) ∧
        s.server.objects[c]? = some conn ∧ conn.serialId = id ∧ ∀ id', .start id' c ∉ s.history) ∧
    (∀ id c, .start id c ∈ s.history →
      ∃ conn, s.server.objects[c]? = some conn ∧ conn.serialId = id) ∧
    InOrder s.history := by
  have hinv := h.invariant (fun _ _ _ => step_invariant) init_invariant
  refine ⟨fun loop id rest hqueue => ?_, fun _ _ => hinv.accepted, hinv.inOrder⟩
  obtain ⟨c, conn, -, hobj, hid, -, hstart, hentry, -⟩ := startConn_spec hinv hqueue
  refine ⟨c, conn, hentry, hobj, hid, fun id' hmem => ?_⟩
  obtain ⟨w, hw⟩ := hinv.watcher hobj
  rw [(hinv.attached hobj hw).started.mpr ⟨id', hmem⟩] at hstart
  cases hstart

/-- Two connections on two loops; the first one is closed twice by its holder, the second one has
its start still pending. -/
theorem close_twice_in_order :
    ∃ s : ServedConnections Bool, Reachable step init s ∧
      s.history = [.start 5 0, .message 0, .close 0, .close 0] ∧
      s.server.pending true = [.start 9] ∧ InOrder s.history := by
  have hrun : ∃ s : ServedConnections Bool, run step init [.handleNewConn false 5,
      .runFunctor false, .readable 0 12, .handleNewConn true 9, .close 0, .runFunctor false,
      .close 0, .runFunctor false] = some s ∧
      s.history = [.start 5 0, .message 0, .close 0, .close 0] ∧
      s.server.pending true = [.start 9] :=
    ⟨_, rfl, rfl, rfl⟩
  obtain ⟨s, hs, hhistory, hpending⟩ := hrun
  exact ⟨s, ⟨_, hs⟩, hhistory, hpending, (started_once_first ⟨_, hs⟩).2.2⟩

end ServedConnections
end TinyGameServer
