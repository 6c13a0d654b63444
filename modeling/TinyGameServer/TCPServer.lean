import Mathlib.Data.List.Basic
import Mathlib.Order.Basic
import TinyGameServer.SubscriptMap
import TinyGameServer.Transitions

/-!
# The connection registry of a server

A `ConnSPtr` is the position of the connection among all that have been accepted. Each worker
loop runs its functors in FIFO order; of these only the deferred start and the close matter to
the registry. A start functor that finds the null pointer has undefined behaviour and no
successor.
-/

namespace TinyGameServer

/-- The members of a connection that the servers look at. -/
structure Conn (ι : Type) where
  serialId : Int64
  loop : ι
  started : Bool := false
  closed : Bool := false
  authorized : Bool := false
  userId : Int64 := -1

abbrev ConnSPtr : Type := ℕ

inductive ServerFunctor where
  | start (serialId : Int64)
  | handleClose (conn : ConnSPtr)

structure TCPServer (ι : Type) where
  objects : List (Conn ι)
  connections : SubscriptMap Int64 ConnSPtr
  pending : ι → List ServerFunctor

namespace TCPServer

variable {ι : Type}

def init : TCPServer ι := { objects := [], connections := .empty, pending := fun _ => [] }

/-- The `int64_t` argument becomes a `uint`, and the `uint` a key. -/
def lookupKey (id : Int64) : Int64 := id.toUInt64.toUInt32.toUInt64.toInt64

def getConnection (s : TCPServer ι) (id : Int64) : Option ConnSPtr × TCPServer ι :=
  let (conn, connections) := s.connections.subscript (lookupKey id)
  (conn, { s with connections })

def startConn (s : TCPServer ι) (serialId : Int64) : Option (TCPServer ι) :=
  match s.connections.subscript serialId with
  | (none, _) => none
  | (some c, connections) =>
    some { s with connections, objects := s.objects.modify c ({ · with started := true }) }

def handleClose (s : TCPServer ι) (c : ConnSPtr) : TCPServer ι :=
  match s.objects[c]? with
  | none => s
  | some conn =>
    { s with
      connections := s.connections.erase conn.serialId
      objects := s.objects.modify c ({ · with closed := true }) }

variable [DecidableEq ι]

def post (s : TCPServer ι) (loop : ι) (f : ServerFunctor) : TCPServer ι :=
  { s with pending := Function.update s.pending loop (s.pending loop ++ [f]) }

def handleNewConn (s : TCPServer ι) (loop : ι) (serialId : Int64) : TCPServer ι :=
  { s with
    objects := s.objects ++ [{ serialId, loop }]
    connections := s.connections.assign serialId s.objects.length : TCPServer ι }.post loop
    (.start serialId)

def runFunctor (s : TCPServer ι) (loop : ι) : Option (TCPServer ι) :=
  match s.pending loop with
  | [] => none
  | f :: rest =>
    let s := { s with pending := Function.update s.pending loop rest }
    match f with
    | .start serialId => s.startConn serialId
    | .handleClose c => some (s.handleClose c)

inductive Action (ι : Type) where
  /-- The loop that `PickEventLoop` returns and the id that `GenerateSerialID` returns. -/
  | handleNewConn (loop : ι) (serialId : Int64)
  | runFunctor (loop : ι)
  | peerClose (conn : ConnSPtr)
  | close (conn : ConnSPtr)
  | getConnection (id : Int64)

/-- Ids are pairwise distinct, and events only reach connections that have been started and not
closed. -/
def step (s : TCPServer ι) : Action ι → Option (TCPServer ι)
  | .handleNewConn loop serialId =>
    if serialId ∈ s.objects.map Conn.serialId then none
    else some (s.handleNewConn loop serialId)
  | .runFunctor loop => s.runFunctor loop
  | .peerClose c =>
    match s.objects[c]? with
    | none => none
    | some conn => if conn.started ∧ ¬ conn.closed then some (s.handleClose c) else none
  | .close c => (s.objects[c]?).map fun conn => s.post conn.loop (.handleClose c)
  | .getConnection id => some (s.getConnection id).2

/-! ## Objects -/

variable {s : TCPServer ι}

theorem getElem?_concat_eq_some {α : Type} {l : List α} {a b : α} {i : ℕ} :
    (l ++ [a])[i]? = some b ↔ l[i]? = some b ∨ i = l.length ∧ b = a := by
  rcases Nat.lt_trichotomy i l.length with hlt | rfl | hgt
  · rw [List.getElem?_append_left hlt]
    simp only [Nat.ne_of_lt hlt, false_and, or_false]
  · simp [eq_comm]
  · rw [List.getElem?_eq_none (by simp; omega), List.getElem?_eq_none (by omega)]
    simp only [Nat.ne_of_gt hgt, false_and, or_false]

theorem getElem?_modify_eq_some {α : Type} {l : List α} {f : α → α} {b : α} {c i : ℕ} :
    (l.modify c f)[i]? = some b ↔ ∃ a, l[i]? = some a ∧ b = if c = i then f a else a := by
  rw [List.getElem?_modify]
  cases l[i]? with
  | none => simp
  | some a => simp [eq_comm]

theorem of_modify {α : Type} {l : List α} {f : α → α} {b : α} {c i : ℕ}
    (h : (l.modify c f)[i]? = some b) :
    (c ≠ i ∧ l[i]? = some b) ∨ ∃ a, c = i ∧ l[i]? = some a ∧ b = f a := by
  obtain ⟨a, ha, rfl⟩ := getElem?_modify_eq_some.mp h
  by_cases hc : c = i
  · exact .inr ⟨a, hc, ha, if_pos hc⟩
  · rw [if_neg hc]
    exact .inl ⟨hc, ha⟩

/-- The connection under an id that has been accepted and not closed. -/
def Live (s : TCPServer ι) (serialId : Int64) (c : ConnSPtr) : Prop :=
  ∃ conn, s.objects[c]? = some conn ∧ conn.serialId = serialId ∧ conn.closed = false

/-- The registry maps the ids of the live connections to them and nothing else. -/
def Exact (s : TCPServer ι) : Prop := s.connections.Exactly s.Live

/-- Order in one queue: nothing that concerns a connection stands before its start. -/
def Before (objects : List (Conn ι)) (f g : ServerFunctor) : Prop :=
  ∀ id, g = .start id → f ≠ .start id ∧
    ∀ (c : ConnSPtr) (conn : Conn ι), f = .handleClose c → objects[c]? = some conn →
      conn.serialId ≠ id

structure Invariant (s : TCPServer ι) : Prop where
  exact : s.Exact
  distinct : ∀ {c c' : ConnSPtr} {conn conn' : Conn ι}, s.objects[c]? = some conn →
    s.objects[c']? = some conn' → conn.serialId = conn'.serialId → c = c'
  not_closed : ∀ {c : ConnSPtr} {conn : Conn ι}, s.objects[c]? = some conn →
    conn.started = false → conn.closed = false
  start_pending : ∀ {c : ConnSPtr} {conn : Conn ι}, s.objects[c]? = some conn →
    conn.started = false → .start conn.serialId ∈ s.pending conn.loop
  pending_start : ∀ {loop : ι} {id : Int64}, .start id ∈ s.pending loop →
    ∃ (c : ConnSPtr) (conn : Conn ι), s.objects[c]? = some conn ∧ conn.serialId = id ∧
      conn.loop = loop ∧ conn.started = false
  pending_close : ∀ {loop : ι} {c : ConnSPtr}, .handleClose c ∈ s.pending loop →
    ∃ conn : Conn ι, s.objects[c]? = some conn ∧ conn.loop = loop
  ordered : ∀ loop, (s.pending loop).Pairwise (Before s.objects)

omit [DecidableEq ι] in
theorem init_invariant : (init : TCPServer ι).Invariant where
  exact := SubscriptMap.exactly_empty fun k c ⟨conn, h, _⟩ => by cases h
  distinct h := by cases h
  not_closed h := by cases h
  start_pending h := by cases h
  pending_start h := by cases h
  pending_close h := by cases h
  ordered loop := .nil

/-! ## One step -/

theorem mem_post {loop loop' : ι} {f g : ServerFunctor} :
    f ∈ (s.post loop g).pending loop' ↔ f ∈ s.pending loop' ∨ loop' = loop ∧ f = g := by
  by_cases hl : loop' = loop
  · subst hl
    simp [post]
  · simp [post, hl]

/-- Appending one functor keeps the order if nothing before it concerns what it starts. -/
theorem ordered_post {objects : List (Conn ι)} {loop : ι} {g : ServerFunctor}
    (hold : ∀ loop, (s.pending loop).Pairwise (Before objects))
    (hnew : ∀ f ∈ s.pending loop, Before objects f g) (loop' : ι) :
    ((s.post loop g).pending loop').Pairwise (Before objects) := by
  by_cases hl : loop' = loop
  · subst hl
    simp only [post, Function.update_self, List.pairwise_append, List.pairwise_singleton,
      List.mem_singleton, forall_eq, true_and]
    exact ⟨hold loop', hnew⟩
  · simp only [post, Function.update_of_ne hl]
    exact hold loop'

theorem post_close_invariant (h : s.Invariant) {c : ConnSPtr} {conn : Conn ι}
    (hc : s.objects[c]? = some conn) : (s.post conn.loop (.handleClose c)).Invariant where
  exact := h.exact
  distinct := h.distinct
  not_closed := h.not_closed
  start_pending hobj hstart := mem_post.mpr (.inl (h.start_pending hobj hstart))
  pending_start hmem := by
    rcases mem_post.mp hmem with hmem | ⟨-, hf⟩
    · exact h.pending_start hmem
    · cases hf
  pending_close hmem := by
    rcases mem_post.mp hmem with hmem | ⟨rfl, hf⟩
    · exact h.pending_close hmem
    · cases hf
      exact ⟨conn, hc, rfl⟩
  ordered := ordered_post h.ordered fun f _ id hg => by cases hg

theorem handleNewConn_exact (h : s.Exact) (loop : ι) {serialId : Int64}
    (hfresh : ∀ (c : ConnSPtr) (conn : Conn ι), s.objects[c]? = some conn →
      conn.serialId ≠ serialId) : (s.handleNewConn loop serialId).Exact := by
  apply SubscriptMap.Exactly.assign h
  · intro y
    constructor
    · rintro ⟨conn, hobj, hid, -⟩
      rcases getElem?_concat_eq_some.mp hobj with hobj | ⟨hy, -⟩
      · exact absurd hid (hfresh y conn hobj)
      · exact hy
    · rintro rfl
      exact ⟨_, getElem?_concat_eq_some.mpr (.inr ⟨rfl, rfl⟩), rfl, rfl⟩
  · intro k y hk
    constructor
    · rintro ⟨conn, hobj, hid, hclosed⟩
      rcases getElem?_concat_eq_some.mp hobj with hobj | ⟨-, rfl⟩
      · exact ⟨conn, hobj, hid, hclosed⟩
      · exact absurd hid.symm hk
    · rintro ⟨conn, hobj, hid, hclosed⟩
      exact ⟨conn, getElem?_concat_eq_some.mpr (.inl hobj), hid, hclosed⟩

theorem handleNewConn_ordered (h : s.Invariant) (loop : ι) {serialId : Int64}
    (hfresh : ∀ (c : ConnSPtr) (conn : Conn ι), s.objects[c]? = some conn →
      conn.serialId ≠ serialId) (loop' : ι) :
    ((s.handleNewConn loop serialId).pending loop').Pairwise
      (Before (s.handleNewConn loop serialId).objects) := by
  -- the objects of queued closes are old ones
  have hold : ∀ {loop' : ι} {c : ConnSPtr} {conn : Conn ι}, .handleClose c ∈ s.pending loop' →
      (s.handleNewConn loop serialId).objects[c]? = some conn → s.objects[c]? = some conn := by
    intro loop' c conn hmem hobj
    obtain ⟨conn', hobj', -⟩ := h.pending_close hmem
    change (s.objects ++ _)[c]? = some conn at hobj
    rwa [List.getElem?_append_left (List.getElem?_eq_some_iff.mp hobj').1] at hobj
  refine ordered_post (fun loop' => ?_) (fun f hf id hg => ?_) loop'
  · refine (h.ordered loop').imp_of_mem fun hf _ hbefore id hg => ?_
    refine ⟨(hbefore id hg).1, fun c conn hclose hobj => ?_⟩
    subst hclose
    exact (hbefore id hg).2 c conn rfl (hold hf hobj)
  · cases hg
    refine ⟨?_, fun c conn hclose hobj => ?_⟩
    · rintro rfl
      obtain ⟨c, conn, hobj, hid, -⟩ := h.pending_start hf
      exact hfresh c conn hobj hid
    · subst hclose
      exact hfresh c conn (hold hf hobj)

theorem handleNewConn_invariant (h : s.Invariant) (loop : ι) {serialId : Int64}
    (hfresh : ∀ (c : ConnSPtr) (conn : Conn ι), s.objects[c]? = some conn →
      conn.serialId ≠ serialId) : (s.handleNewConn loop serialId).Invariant where
  exact := handleNewConn_exact h.exact loop hfresh
  distinct hobj hobj' hid := by
    rcases getElem?_concat_eq_some.mp hobj with hobj | ⟨rfl, rfl⟩ <;>
      rcases getElem?_concat_eq_some.mp hobj' with hobj' | ⟨rfl, rfl⟩
    · exact h.distinct hobj hobj' hid
    · exact absurd hid (hfresh _ _ hobj)
    · exact absurd hid.symm (hfresh _ _ hobj')
    · rfl
  not_closed hobj hstart := by
    rcases getElem?_concat_eq_some.mp hobj with hobj | ⟨rfl, rfl⟩
    · exact h.not_closed hobj hstart
    · rfl
  start_pending hobj hstart := by
    rcases getElem?_concat_eq_some.mp hobj with hobj | ⟨rfl, rfl⟩
    · exact mem_post.mpr (.inl (h.start_pending hobj hstart))
    · exact mem_post.mpr (.inr ⟨rfl, rfl⟩)
  pending_start hmem := by
    rcases mem_post.mp hmem with hmem | ⟨rfl, hf⟩
    · obtain ⟨c, conn, hobj, hconn⟩ := h.pending_start hmem
      exact ⟨c, conn, getElem?_concat_eq_some.mpr (.inl hobj), hconn⟩
    · cases hf
      exact ⟨_, _, getElem?_concat_eq_some.mpr (.inr ⟨rfl, rfl⟩), rfl, rfl, rfl⟩
  pending_close hmem := by
    rcases mem_post.mp hmem with hmem | ⟨-, hf⟩
    · obtain ⟨conn, hobj, hloop⟩ := h.pending_close hmem
      exact ⟨conn, getElem?_concat_eq_some.mpr (.inl hobj), hloop⟩
    · cases hf
  ordered := handleNewConn_ordered h loop hfresh

omit [DecidableEq ι] in
theorem ordered_modify {queue : List ServerFunctor} {f : Conn ι → Conn ι} {c : ConnSPtr}
    (hid : ∀ conn, (f conn).serialId = conn.serialId)
    (h : queue.Pairwise (Before s.objects)) :
    queue.Pairwise (Before (s.objects.modify c f)) := by
  refine h.imp fun hbefore id hg => ⟨(hbefore id hg).1, fun c' conn' hclose hobj => ?_⟩
  obtain ⟨conn, hold, rfl⟩ := getElem?_modify_eq_some.mp hobj
  have hne := (hbefore id hg).2 c' conn hclose hold
  split
  · rwa [hid]
  · exact hne

omit [DecidableEq ι] in
theorem distinct_modify (h : s.Invariant) {f : Conn ι → Conn ι} (c : ConnSPtr)
    (hid : ∀ conn, (f conn).serialId = conn.serialId) {y y' : ConnSPtr} {a a' : Conn ι}
    (hobj : (s.objects.modify c f)[y]? = some a) (hobj' : (s.objects.modify c f)[y']? = some a')
    (hserial : a.serialId = a'.serialId) : y = y' := by
  rcases of_modify hobj with ⟨-, ha⟩ | ⟨a, -, ha, rfl⟩ <;>
    rcases of_modify hobj' with ⟨-, ha'⟩ | ⟨a', -, ha', rfl⟩
  · exact h.distinct ha ha' hserial
  · exact h.distinct ha ha' (hserial.trans (hid a'))
  · exact h.distinct ha ha' ((hid a).symm.trans hserial)
  · exact h.distinct ha ha' ((hid a).symm.trans (hserial.trans (hid a')))

omit [DecidableEq ι] in
theorem pending_close_modify (h : s.Invariant) {f : Conn ι → Conn ι} (c : ConnSPtr)
    (hf : ∀ conn, (f conn).loop = conn.loop) {loop : ι} {y : ConnSPtr}
    (hmem : .handleClose y ∈ s.pending loop) :
    ∃ conn, (s.objects.modify c f)[y]? = some conn ∧ conn.loop = loop := by
  obtain ⟨a, ha, hloop⟩ := h.pending_close hmem
  refine ⟨_, getElem?_modify_eq_some.mpr ⟨a, ha, rfl⟩, ?_⟩
  split
  · rwa [hf]
  · exact hloop

omit [DecidableEq ι] in
theorem handleClose_eq {c : ConnSPtr} {conn : Conn ι} (hc : s.objects[c]? = some conn) :
    s.handleClose c = { s with
      connections := s.connections.erase conn.serialId
      objects := s.objects.modify c ({ · with closed := true }) } := by
  rw [handleClose, hc]

omit [DecidableEq ι] in
theorem handleClose_exact (h : s.Invariant) {c : ConnSPtr} {conn : Conn ι}
    (hc : s.objects[c]? = some conn) : (s.handleClose c).Exact := by
  rw [handleClose_eq hc]
  apply SubscriptMap.Exactly.erase h.exact
  · rintro y ⟨conn', hobj, hserial, hclosed⟩
    rcases of_modify hobj with ⟨hy, ha⟩ | ⟨a, -, -, rfl⟩
    · exact hy (h.distinct hc ha hserial.symm)
    · cases hclosed
  · intro k y hk
    constructor
    · rintro ⟨conn', hobj, hserial, hclosed⟩
      rcases of_modify hobj with ⟨-, ha⟩ | ⟨a, -, -, rfl⟩
      · exact ⟨conn', ha, hserial, hclosed⟩
      · cases hclosed
    · rintro ⟨a, ha, hserial, hclosed⟩
      have hy : c ≠ y := by
        rintro rfl
        exact hk (by rw [← hserial, Option.some.inj (hc.symm.trans ha)])
      exact ⟨a, getElem?_modify_eq_some.mpr ⟨a, ha, (if_neg hy).symm⟩, hserial, hclosed⟩

omit [DecidableEq ι] in
theorem handleClose_invariant (h : s.Invariant) {c : ConnSPtr} {conn : Conn ι}
    (hc : s.objects[c]? = some conn) (hstarted : conn.started = true) :
    (s.handleClose c).Invariant := by
  have hexact := handleClose_exact h hc
  rw [handleClose_eq hc] at hexact ⊢
  constructor
  case exact => exact hexact
  case distinct =>
    intro y y' a a' hobj hobj'
    refine distinct_modify h c ?_ hobj hobj'
    exact fun _ => rfl
  case not_closed =>
    intro y a hobj hstart
    rcases of_modify hobj with ⟨-, ha⟩ | ⟨a, rfl, ha, rfl⟩
    · exact h.not_closed ha hstart
    · rw [Option.some.inj (hc.symm.trans ha)] at hstarted
      cases hstarted.symm.trans hstart
  case start_pending =>
    intro y a hobj hstart
    rcases of_modify hobj with ⟨-, ha⟩ | ⟨a, -, ha, rfl⟩
    · exact h.start_pending ha hstart
    · have hmem := h.start_pending ha hstart
      exact hmem
  case pending_start =>
    intro loop id hmem
    obtain ⟨y, a, ha, hserial, hloop, hstart⟩ := h.pending_start hmem
    refine ⟨y, _, getElem?_modify_eq_some.mpr ⟨a, ha, rfl⟩, ?_⟩
    split <;> exact ⟨hserial, hloop, hstart⟩
  case pending_close =>
    intro loop y hmem
    refine pending_close_modify h c ?_ hmem
    exact fun _ => rfl
  case ordered =>
    intro loop
    exact ordered_modify (fun _ => rfl) (h.ordered loop)

omit [DecidableEq ι] in
theorem front_close_started (h : s.Invariant) {loop : ι} {c : ConnSPtr}
    {rest : List ServerFunctor} (hqueue : s.pending loop = .handleClose c :: rest) :
    ∃ conn, s.objects[c]? = some conn ∧ conn.started = true := by
  have hfront : .handleClose c ∈ s.pending loop := by
    rw [hqueue]
    exact List.mem_cons_self
  obtain ⟨conn, hc, hloop⟩ := h.pending_close hfront
  refine ⟨conn, hc, ?_⟩
  cases hstart : conn.started with
  | true => rfl
  | false =>
      have hmem := h.start_pending hc hstart
      rw [hloop, hqueue] at hmem
      rcases List.mem_cons.mp hmem with hmem | hmem
      · cases hmem
      · have hordered := h.ordered loop
        rw [hqueue, List.pairwise_cons] at hordered
        exact absurd rfl ((hordered.1 _ hmem conn.serialId rfl).2 c conn rfl hc)

def pop (s : TCPServer ι) (loop : ι) (rest : List ServerFunctor) : TCPServer ι :=
  { s with pending := Function.update s.pending loop rest }

theorem pending_pop (s : TCPServer ι) (loop loop' : ι) (rest : List ServerFunctor) :
    (s.pop loop rest).pending loop' = if loop' = loop then rest else s.pending loop' :=
  Function.update_apply ..

theorem mem_pop {loop loop' : ι} {f g : ServerFunctor} {rest : List ServerFunctor}
    (hqueue : s.pending loop = f :: rest) (hmem : g ∈ (s.pop loop rest).pending loop') :
    g ∈ s.pending loop' ∧ (loop' = loop → g ∈ rest) := by
  rw [pending_pop] at hmem
  by_cases hl : loop' = loop
  · subst hl
    rw [if_pos rfl] at hmem
    exact ⟨by rw [hqueue]; exact List.mem_cons_of_mem f hmem, fun _ => hmem⟩
  · rw [if_neg hl] at hmem
    exact ⟨hmem, fun h => absurd h hl⟩

theorem mem_pop_of_ne {loop loop' : ι} {f g : ServerFunctor} {rest : List ServerFunctor}
    (hqueue : s.pending loop = f :: rest) (hmem : g ∈ s.pending loop') (hne : g ≠ f) :
    g ∈ (s.pop loop rest).pending loop' := by
  rw [pending_pop]
  by_cases hl : loop' = loop
  · subst hl
    rw [hqueue, List.mem_cons] at hmem
    rw [if_pos rfl]
    exact hmem.resolve_left hne
  · rwa [if_neg hl]

theorem ordered_pop {objects : List (Conn ι)} {loop : ι} {f : ServerFunctor}
    {rest : List ServerFunctor} (hqueue : s.pending loop = f :: rest)
    (hold : ∀ loop, (s.pending loop).Pairwise (Before objects)) (loop' : ι) :
    ((s.pop loop rest).pending loop').Pairwise (Before objects) := by
  rw [pending_pop]
  by_cases hl : loop' = loop
  · subst hl
    have h := hold loop'
    rw [hqueue] at h
    rw [if_pos rfl]
    exact (List.pairwise_cons.mp h).2
  · rw [if_neg hl]
    exact hold loop'

theorem pop_close_invariant (h : s.Invariant) {loop : ι} {c : ConnSPtr}
    {rest : List ServerFunctor} (hqueue : s.pending loop = .handleClose c :: rest) :
    (s.pop loop rest).Invariant where
  exact := h.exact
  distinct := h.distinct
  not_closed := h.not_closed
  start_pending hobj hstart :=
    mem_pop_of_ne hqueue (h.start_pending hobj hstart) (fun hf => by cases hf)
  pending_start hmem := h.pending_start (mem_pop hqueue hmem).1
  pending_close hmem := h.pending_close (mem_pop hqueue hmem).1
  ordered := ordered_pop hqueue h.ordered

/-- The deferred functor finds the connection that was accepted under its id, and starts it for
the first time. -/
theorem startConn_spec (h : s.Invariant) {loop : ι} {id : Int64} {rest : List ServerFunctor}
    (hqueue : s.pending loop = .start id :: rest) :
    ∃ (c : ConnSPtr) (conn : Conn ι), s.objects[c]? = some conn ∧ conn.serialId = id ∧
      conn.loop = loop ∧ conn.started = false ∧ (s.pop loop rest).startConn id =
        some { s.pop loop rest with
          objects := s.objects.modify c ({ · with started := true }) } := by
  have hmem : .start id ∈ s.pending loop := by
    rw [hqueue]
    exact List.mem_cons_self
  obtain ⟨c, conn, hobj, hid, hloop, hstart⟩ := h.pending_start hmem
  refine ⟨c, conn, hobj, hid, hloop, hstart, ?_⟩
  have hlive : s.Live id c := ⟨conn, hobj, hid, h.not_closed hobj hstart⟩
  have hsub : (s.pop loop rest).connections.subscript id = (some c, s.connections) :=
    h.exact.subscript_of_rel hlive
  rw [startConn, hsub]
  rfl

theorem startConn_invariant (h : s.Invariant) {loop : ι} {id : Int64}
    {rest : List ServerFunctor} (hqueue : s.pending loop = .start id :: rest) {s' : TCPServer ι}
    (hs' : (s.pop loop rest).startConn id = some s') : s'.Invariant := by
  obtain ⟨c, conn, hc, hid, hcloop, hstart, hspec⟩ := startConn_spec h hqueue
  rw [hspec] at hs'
  obtain rfl := Option.some.inj hs'
  constructor
  case exact =>
    refine SubscriptMap.Exactly.congr h.exact fun k y => ?_
    constructor
    · rintro ⟨a, ha, hserial, hclosed⟩
      refine ⟨_, getElem?_modify_eq_some.mpr ⟨a, ha, rfl⟩, ?_⟩
      split <;> exact ⟨hserial, hclosed⟩
    · rintro ⟨conn', hobj, hserial, hclosed⟩
      rcases of_modify hobj with ⟨-, ha⟩ | ⟨a, -, ha, rfl⟩
      · exact ⟨conn', ha, hserial, hclosed⟩
      · exact ⟨a, ha, hserial, hclosed⟩
  case distinct =>
    intro y y' a a' hobj hobj'
    refine distinct_modify h c ?_ hobj hobj'
    exact fun _ => rfl
  case not_closed =>
    intro y a hobj hstart'
    rcases of_modify hobj with ⟨-, ha⟩ | ⟨a, -, -, rfl⟩
    · exact h.not_closed ha hstart'
    · cases hstart'
  case start_pending =>
    intro y a hobj hstart'
    rcases of_modify hobj with ⟨hy, ha⟩ | ⟨a, -, -, rfl⟩
    · refine mem_pop_of_ne hqueue (h.start_pending ha hstart') ?_
      rintro ⟨rfl⟩
      exact hy (h.distinct hc ha hid)
    · cases hstart'
  case pending_start =>
    intro loop' id' hmem
    obtain ⟨hold, hrest⟩ := mem_pop hqueue hmem
    obtain ⟨y, a, ha, hserial, hloop, hstart'⟩ := h.pending_start hold
    have hy : c ≠ y := by
      -- otherwise the same start would stand twice in the queue of this loop
      rintro rfl
      have ha' : conn = a := Option.some.inj (hc.symm.trans ha)
      have hid' : id' = id := by rw [← hserial, ← hid, ha']
      have hloop' : loop' = loop := by rw [← hloop, ← hcloop, ha']
      have hordered := h.ordered loop
      rw [hqueue, List.pairwise_cons] at hordered
      exact (hordered.1 _ (hrest hloop') id' rfl).1 (by rw [hid'])
    exact ⟨y, a, getElem?_modify_eq_some.mpr ⟨a, ha, by rw [if_neg hy]⟩, hserial, hloop,
      hstart'⟩
  case pending_close =>
    intro loop' y hmem
    refine pending_close_modify h c ?_ (mem_pop hqueue hmem).1
    exact fun _ => rfl
  case ordered =>
    intro loop'
    exact ordered_modify (fun _ => rfl) (ordered_pop hqueue h.ordered loop')

/-! ## What an action does -/

inductive Step (s : TCPServer ι) : Action ι → TCPServer ι → Prop
  | handleNewConn (loop : ι) (serialId : Int64)
      (hfresh : ∀ (c : ConnSPtr) (conn : Conn ι), s.objects[c]? = some conn →
        conn.serialId ≠ serialId) :
      Step s (.handleNewConn loop serialId) (s.handleNewConn loop serialId)
  | start (loop : ι) (id : Int64) (rest : List ServerFunctor) (s' : TCPServer ι)
      (hqueue : s.pending loop = .start id :: rest)
      (hstart : (s.pop loop rest).startConn id = some s') : Step s (.runFunctor loop) s'
  | runClose (loop : ι) (c : ConnSPtr) (rest : List ServerFunctor)
      (hqueue : s.pending loop = .handleClose c :: rest) :
      Step s (.runFunctor loop) ((s.pop loop rest).handleClose c)
  | peerClose (c : ConnSPtr) (conn : Conn ι) (hc : s.objects[c]? = some conn)
      (hstarted : conn.started = true) (hopen : ¬ conn.closed) :
      Step s (.peerClose c) (s.handleClose c)
  | close (c : ConnSPtr) (conn : Conn ι) (hc : s.objects[c]? = some conn) :
      Step s (.close c) (s.post conn.loop (.handleClose c))
  | getConnection (id : Int64) : Step s (.getConnection id) (s.getConnection id).2

theorem step_cases {s' : TCPServer ι} {a : Action ι} (h : step s a = some s') : Step s a s' := by
  cases a with
  | handleNewConn loop serialId =>
      rw [step] at h
      split_ifs at h with hmem
      cases h
      refine .handleNewConn loop serialId fun c conn hobj hid => hmem ?_
      exact List.mem_map.mpr ⟨conn, List.mem_of_getElem? hobj, hid⟩
  | runFunctor loop =>
      rw [step, runFunctor] at h
      split at h
      · cases h
      · rename_i f rest hqueue
        cases f with
        | start id => exact .start loop id rest s' hqueue h
        | handleClose c =>
            cases h
            exact .runClose loop c rest hqueue
  | peerClose c =>
      rw [step] at h
      split at h
      · cases h
      · split_ifs at h with hopen
        cases h
        exact .peerClose c _ ‹_› hopen.1 hopen.2
  | close c =>
      obtain ⟨conn, hc, rfl⟩ := Option.map_eq_some_iff.mp h
      exact .close c conn hc
  | getConnection id =>
      cases h
      exact .getConnection id

end TCPServer
end TinyGameServer
