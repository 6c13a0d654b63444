import TinyGameServer.HandlerBounds
import TinyGameServer.LoginOutcome
import TinyGameServer.Registry
import TinyGameServer.SerialIds

/-!
# A data server that sends anything

Whoever is on the other end of `db` decides what the callback of `db` reads, and a success frame
that is too short makes it read on behind the bytes that have come. A pair that it takes over goes
to `GetConnection`, whose `uint` never is a serial id, as those have more than 32 bits. So nobody
is authorized, and all that is left of a reply is a null pointer in the registry under the lower
half of its id.
-/

namespace TinyGameServer

namespace UID

theorem le_toInt_generateSerialID (localtime : ℤ → Tm) (u : UID) {current : ℤ}
    (hyear : 0 < (localtime current).year) :
    2 ^ 32 ≤ (generateSerialID localtime u current).1.toInt := by
  have hserial := (u.nextSerial current).le_toInt
  have hstamp : 10000000000 ≤ (localtime current).stamp := by
    unfold Tm.stamp
    omega
  rw [toInt_generateSerialID]
  omega

end UID

namespace TCPServer

variable {ι : Type} {s s' : TCPServer ι}

/-- The server without the null pointers in its registry. -/
def compact (s : TCPServer ι) : TCPServer ι := { s with connections := s.connections.compact }

theorem lookupKey_lt (id : Int64) : (lookupKey id).toInt < 2 ^ 32 := by
  have hidem : lookupKey (lookupKey id) = lookupKey id := by
    apply Int64.toBitVec_inj.mp
    apply BitVec.eq_of_toNat_eq
    have h := toNat_lookupKey (lookupKey id)
    rw [toNat_lookupKey id, Nat.mod_mod] at h
    exact h.trans (toNat_lookupKey id).symm
  exact ((lookupKey_eq_iff (lookupKey id)).mp hidem).2

theorem startConn_eq {id : Int64} (h : s.startConn id = some s') : ∃ c,
    s.connections.entry id = some (some c) ∧
      s' = { s with objects := s.objects.modify c ({ · with started := true }) } := by
  rw [startConn] at h
  split at h
  · cases h
  · next c connections hsub =>
    obtain rfl := Option.some.inj h
    have hfst : (s.connections.subscript id).1 = some c := congrArg Prod.fst hsub
    have hsame := (SubscriptMap.subscript_eq_some hfst).symm.trans hsub
    rw [Prod.mk.injEq] at hsame
    exact ⟨c, SubscriptMap.entry_of_subscript_some hfst, by rw [← hsame.2]⟩

theorem compact_startConn {id : Int64} (h : s.startConn id = some s') :
    s.compact.startConn id = some s'.compact := by
  obtain ⟨c, hentry, rfl⟩ := startConn_eq h
  have hsub := SubscriptMap.subscript_of_entry (SubscriptMap.entry_compact.mpr hentry)
  rw [startConn, compact, hsub]
  rfl

theorem compact_handleClose (s : TCPServer ι) (c : ConnSPtr) :
    (s.handleClose c).compact = s.compact.handleClose c := by
  cases hc : s.objects[c]? with
  | none =>
      have hcompact : s.compact.objects[c]? = none := hc
      simp only [handleClose, hc, hcompact]
  | some conn =>
      have hcompact : s.compact.objects[c]? = some conn := hc
      rw [handleClose_eq hc, handleClose_eq hcompact]
      simp only [compact, SubscriptMap.compact_erase]

variable [DecidableEq ι]

theorem handleClose_pop (s : TCPServer ι) (loop : ι) (rest : List ServerFunctor) (c : ConnSPtr) :
    (s.pop loop rest).handleClose c = (s.handleClose c).pop loop rest := by
  simp only [handleClose, pop]
  cases s.objects[c]? with
  | none => rfl
  | some conn => rfl

/-- The null pointers make no difference to what the server itself does. -/
theorem compact_step {a : Action ι} (hlookup : ∀ id, a ≠ .getConnection id)
    (h : step s a = some s') : step s.compact a = some s'.compact := by
  cases step_cases h with
  | handleNewConn loop serialId hfresh =>
      have hnew : serialId ∉ s.compact.objects.map Conn.serialId := by
        intro hmem
        obtain ⟨conn, hconn, hid⟩ := List.mem_map.mp hmem
        obtain ⟨c, hc⟩ := List.mem_iff_getElem?.mp hconn
        exact hfresh c conn hc hid
      rw [step, if_neg hnew]
      simp only [handleNewConn, post, compact, SubscriptMap.compact_assign]
  | start loop id rest _ hqueue hstart =>
      have hqueue' : s.compact.pending loop = .start id :: rest := hqueue
      have hstart' : (s.pop loop rest).compact.startConn id = some s'.compact :=
        compact_startConn hstart
      rw [step, runFunctor, hqueue']
      exact hstart'
  | runClose loop c rest hqueue =>
      have hqueue' : s.compact.pending loop = .handleClose c :: rest := hqueue
      rw [step, runFunctor, hqueue', compact_handleClose]
      rfl
  | peerClose c conn hc hstarted hopen =>
      have hc' : s.compact.objects[c]? = some conn := hc
      rw [step, hc', compact_handleClose]
      exact if_pos ⟨hstarted, hopen⟩
  | close c conn hc =>
      have hc' : s.compact.objects[c]? = some conn := hc
      rw [step, hc']
      rfl
  | getConnection id => exact absurd rfl (hlookup id)

omit [DecidableEq ι] in
theorem Invariant.modify (h : s.Invariant) (c : ConnSPtr) {f : Conn ι → Conn ι}
    (hf : ∀ conn, (f conn).serialId = conn.serialId ∧ (f conn).loop = conn.loop ∧
      (f conn).started = conn.started ∧ (f conn).closed = conn.closed) :
    ({ s with objects := s.objects.modify c f } : TCPServer ι).Invariant := by
  have hold : ∀ {y : ConnSPtr} {conn : Conn ι}, (s.objects.modify c f)[y]? = some conn →
      ∃ a, s.objects[y]? = some a ∧ conn.serialId = a.serialId ∧ conn.loop = a.loop ∧
        conn.started = a.started ∧ conn.closed = a.closed := by
    intro y conn hobj
    obtain ⟨a, ha, rfl⟩ := getElem?_modify_eq_some.mp hobj
    refine ⟨a, ha, ?_⟩
    split
    · exact hf a
    · exact ⟨rfl, rfl, rfl, rfl⟩
  have hnew : ∀ {y : ConnSPtr} {a : Conn ι}, s.objects[y]? = some a →
      ∃ conn, (s.objects.modify c f)[y]? = some conn ∧ conn.serialId = a.serialId ∧
        conn.loop = a.loop ∧ conn.started = a.started ∧ conn.closed = a.closed := by
    intro y a ha
    refine ⟨_, getElem?_modify_eq_some.mpr ⟨a, ha, rfl⟩, ?_⟩
    split
    · exact hf a
    · exact ⟨rfl, rfl, rfl, rfl⟩
  constructor
  case exact =>
    refine SubscriptMap.Exactly.congr h.exact fun k y => ?_
    constructor
    · rintro ⟨a, ha, hid, hclosed⟩
      obtain ⟨conn, hobj, hid', -, -, hclosed'⟩ := hnew ha
      exact ⟨conn, hobj, hid'.trans hid, hclosed'.trans hclosed⟩
    · rintro ⟨conn, hobj, hid, hclosed⟩
      obtain ⟨a, ha, hid', -, -, hclosed'⟩ := hold hobj
      exact ⟨a, ha, hid'.symm.trans hid, hclosed'.symm.trans hclosed⟩
  case distinct =>
    intro y y' a a' hobj hobj'
    exact distinct_modify h c (fun conn => (hf conn).1) hobj hobj'
  case not_closed =>
    intro y conn hobj hstart
    obtain ⟨a, ha, -, -, hstart', hclosed⟩ := hold hobj
    exact hclosed.trans (h.not_closed ha (hstart'.symm.trans hstart))
  case start_pending =>
    intro y conn hobj hstart
    obtain ⟨a, ha, hid, hloop, hstart', -⟩ := hold hobj
    have hmem := h.start_pending ha (hstart'.symm.trans hstart)
    rwa [← hid, ← hloop] at hmem
  case pending_start =>
    intro loop id hmem
    obtain ⟨y, a, ha, hid, hloop, hstart⟩ := h.pending_start hmem
    obtain ⟨conn, hobj, hid', hloop', hstart', -⟩ := hnew ha
    exact ⟨y, conn, hobj, hid'.trans hid, hloop'.trans hloop, hstart'.trans hstart⟩
  case pending_close =>
    intro loop y hmem
    exact pending_close_modify h c (fun conn => (hf conn).2.1) hmem
  case ordered =>
    intro loop
    exact ordered_modify (fun conn => (hf conn).1) (h.ordered loop)

/-! ## The gate -/

/-- Nobody is authorized, and the registry has null pointers only, and exactly, under the lower
halves of the ids that have been looked up. It is exact otherwise unless ids come twice. -/
structure Tainted (lookups : List Int64) (s : TCPServer ι) : Prop where
  unauthorized : s.Unauthorized
  large : ∀ conn ∈ s.objects, 2 ^ 32 ≤ conn.serialId.toInt
  registered : ∀ k c, s.connections.entry k = some (some c) → 2 ^ 32 ≤ k.toInt
  nulls : ∀ k, s.connections.entry k = some none ↔ k ∈ lookups.map lookupKey
  exact : (s.objects.map Conn.serialId).Nodup → s.compact.Invariant

omit [DecidableEq ι] in
theorem init_tainted : (init : TCPServer ι).Tainted [] where
  unauthorized _ hconn := absurd hconn List.not_mem_nil
  large _ hconn := absurd hconn List.not_mem_nil
  registered k c h := by cases h
  nulls k := iff_of_false (fun h => by cases h) List.not_mem_nil
  exact _ := init_invariant

theorem not_mem_lookups {k : Int64} (hk : 2 ^ 32 ≤ k.toInt) (lookups : List Int64) :
    k ∉ lookups.map lookupKey := by
  intro hmem
  obtain ⟨id, -, rfl⟩ := List.mem_map.mp hmem
  have hlt := lookupKey_lt id
  omega

omit [DecidableEq ι] in
theorem serialIds_modify (objects : List (Conn ι)) (c : ConnSPtr) {f : Conn ι → Conn ι}
    (hf : ∀ conn, (f conn).serialId = conn.serialId) :
    (objects.modify c f).map Conn.serialId = objects.map Conn.serialId := by
  apply List.ext_getElem?
  intro i
  rw [List.getElem?_map, List.getElem?_modify, List.getElem?_map]
  cases objects[i]? with
  | none => rfl
  | some conn =>
      by_cases hc : c = i
      · simp [hc, hf]
      · simp [hc]

variable {lookups : List Int64}

namespace Tainted

omit [DecidableEq ι] in
/-- A key that is not the lower half of anything comes and goes without affecting the rest. -/
theorem nulls_update (h : s.Tainted lookups) {key : Int64} (hkey : 2 ^ 32 ≤ key.toInt)
    {v : Option (Option ConnSPtr)} (hv : v ≠ some none) (k : Int64) :
    Function.update s.connections.entry key v k = some none ↔ k ∈ lookups.map lookupKey := by
  by_cases hk : k = key
  · subst hk
    rw [Function.update_self]
    exact iff_of_false hv (not_mem_lookups hkey lookups)
  · rw [Function.update_of_ne hk]
    exact h.nulls k

theorem handleNewConn (h : s.Tainted lookups) (loop : ι) {serialId : Int64}
    (hlarge : 2 ^ 32 ≤ serialId.toInt) : (s.handleNewConn loop serialId).Tainted lookups where
  unauthorized conn hconn := by
    rcases List.mem_append.mp hconn with hold | hnew
    · exact h.unauthorized conn hold
    · rw [List.mem_singleton.mp hnew]
  large conn hconn := by
    rcases List.mem_append.mp hconn with hold | hnew
    · exact h.large conn hold
    · rwa [List.mem_singleton.mp hnew]
  registered k c hk := by
    have hentry := SubscriptMap.entry_assign s.connections serialId k s.objects.length
    rw [TCPServer.handleNewConn, post, hentry] at hk
    split_ifs at hk with hid
    · rwa [hid]
    · exact h.registered k c hk
  nulls := h.nulls_update hlarge fun heq => by cases heq
  exact hnodup := by
    have hids : (s.objects.map Conn.serialId ++ [serialId]).Nodup := by
      simpa [TCPServer.handleNewConn, post] using hnodup
    obtain ⟨hold, -, hnew⟩ := List.nodup_append.mp hids
    have hfresh : serialId ∉ s.compact.objects.map Conn.serialId := fun hmem =>
      hnew serialId hmem serialId (List.mem_singleton_self _) rfl
    refine step_invariant (a := .handleNewConn loop serialId) (h.exact hold) trivial ?_
    rw [TCPServer.step, if_neg hfresh]
    simp only [TCPServer.handleNewConn, post, compact, SubscriptMap.compact_assign]

omit [DecidableEq ι] in
theorem handleClose_nulls (h : s.Tainted lookups) (c : ConnSPtr) :
    (∀ conn ∈ (s.handleClose c).objects, 2 ^ 32 ≤ conn.serialId.toInt) ∧
    (∀ k x, (s.handleClose c).connections.entry k = some (some x) → 2 ^ 32 ≤ k.toInt) ∧
    ∀ k, (s.handleClose c).connections.entry k = some none ↔ k ∈ lookups.map lookupKey := by
  cases hc : s.objects[c]? with
  | none =>
      rw [TCPServer.handleClose, hc]
      exact ⟨h.large, h.registered, h.nulls⟩
  | some conn =>
      rw [handleClose_eq hc]
      have hlarge := h.large conn (List.mem_of_getElem? hc)
      refine ⟨forall_mem_modify c h.large fun _ ha => ha, fun k x hk => ?_, ?_⟩
      · exact h.registered k x (SubscriptMap.entry_of_erase hk)
      · exact h.nulls_update hlarge (Option.some_ne_none none).symm

omit [DecidableEq ι] in
theorem serialIds_handleClose (s : TCPServer ι) (c : ConnSPtr) :
    (s.handleClose c).objects.map Conn.serialId = s.objects.map Conn.serialId := by
  rw [TCPServer.handleClose]
  split
  · rfl
  · exact serialIds_modify _ _ fun _ => rfl

theorem step (h : s.Tainted lookups) {a : Action ι} (hlookup : ∀ id, a ≠ .getConnection id)
    (haccept : ∀ loop id, a ≠ .handleNewConn loop id) (hs' : s.step a = some s') :
    s'.Tainted lookups := by
  have hunauthorized := step_unauthorized h.unauthorized hs'
  have hexact : s'.objects.map Conn.serialId = s.objects.map Conn.serialId →
      (s'.objects.map Conn.serialId).Nodup → s'.compact.Invariant := by
    intro hids hnodup
    refine step_invariant (h.exact (hids ▸ hnodup)) ?_ (compact_step hlookup hs')
    cases a with
    | getConnection id => exact absurd rfl (hlookup id)
    | _ => trivial
  cases step_cases hs' with
  | handleNewConn loop serialId => exact absurd rfl (haccept loop serialId)
  | start loop id rest _ _ hstart =>
      obtain ⟨c, -, rfl⟩ := startConn_eq hstart
      exact ⟨hunauthorized, forall_mem_modify c h.large fun _ ha => ha, h.registered, h.nulls,
        hexact (serialIds_modify _ _ fun _ => rfl)⟩
  | runClose loop c rest =>
      rw [handleClose_pop] at hunauthorized hexact ⊢
      obtain ⟨hlarge, hregistered, hnulls⟩ := h.handleClose_nulls c
      exact ⟨hunauthorized, hlarge, hregistered, hnulls, hexact (serialIds_handleClose s c)⟩
  | peerClose c =>
      obtain ⟨hlarge, hregistered, hnulls⟩ := h.handleClose_nulls c
      exact ⟨hunauthorized, hlarge, hregistered, hnulls, hexact (serialIds_handleClose s c)⟩
  | close c => exact ⟨hunauthorized, h.large, h.registered, h.nulls, hexact rfl⟩
  | getConnection id => exact absurd rfl (hlookup id)

omit [DecidableEq ι] in
theorem setUnauthorized (h : s.Tainted lookups) (c : ConnSPtr) :
    ({ s with objects := s.objects.modify c ({ · with authorized := false }) } :
      TCPServer ι).Tainted lookups where
  unauthorized := forall_mem_modify c h.unauthorized fun _ _ => rfl
  large := forall_mem_modify c h.large fun _ ha => ha
  registered := h.registered
  nulls := h.nulls
  exact hnodup := by
    have hids : (s.objects.modify c ({ · with authorized := false })).map Conn.serialId =
        s.objects.map Conn.serialId := serialIds_modify s.objects c fun _ => rfl
    exact (h.exact (hids ▸ hnodup)).modify c fun _ => ⟨rfl, rfl, rfl, rfl⟩

omit [DecidableEq ι] in
/-- No lookup finds anybody. It leaves its null pointer behind. -/
theorem getConnection (h : s.Tainted lookups) (id : Int64) : (s.getConnection id).1 = none ∧
    (s.getConnection id).2.Tainted (lookups ++ [id]) := by
  have hnone : (s.connections.subscript (lookupKey id)).1 = none := by
    cases hsub : (s.connections.subscript (lookupKey id)).1 with
    | none => rfl
    | some c =>
        have hlarge := h.registered _ c (SubscriptMap.entry_of_subscript_some hsub)
        have hlt := lookupKey_lt id
        omega
  refine ⟨hnone, h.unauthorized, h.large, fun k c hk => ?_, fun k => ?_, fun hnodup => ?_⟩
  · exact h.registered k c (SubscriptMap.entry_of_subscript hk)
  · rw [List.map_append, List.mem_append, ← h.nulls k, List.map_singleton, List.mem_singleton]
    change (s.connections.subscript (lookupKey id)).2.entry k = some none ↔ _
    rw [SubscriptMap.subscript] at hnone ⊢
    split at hnone
    · next v hentry =>
      have hnull : v = none := hnone
      rw [hnull] at hentry
      constructor
      · exact .inl
      · rintro (hk | rfl)
        · exact hk
        · exact hentry
    · by_cases hk : k = lookupKey id
      · simp [hk]
      · simp [hk]
  · have hcompact : (s.getConnection id).2.compact = s.compact := by
      simp only [TCPServer.getConnection, compact, SubscriptMap.compact_subscript]
    rw [hcompact]
    exact h.exact hnodup

end Tainted
end TCPServer

/-! ## The gate with a forger -/

/-- Ids that come out of `GenerateSerialID`, all ids that have been looked up, and the logins that
have been given to `db.Send`. -/
structure ForgedLogins (ι : Type) where
  gate : SerialIds ι
  lookups : List Int64
  relayed : List (Option Buffer)

namespace ForgedLogins

variable {ι : Type}

def init (time : ℤ) : ForgedLogins ι := { gate := .init time, lookups := [], relayed := [] }

inductive Action (ι : Type) where
  | gate (a : SerialIds.Action ι)
  /-- The message callback of a client connection, on any receive buffer. -/
  | messageCb (conn : ConnSPtr) (connBuf : Traced)
  /-- The message callback of `db`, on any receive buffer. If it reads behind the array, `stray`
  is what it finds. -/
  | dbMessageCb (connBuf : Traced) (stray : Option (Int64 × Int64))

/-- What the message callback of `db` does with the pair that it has read. -/
def authorize (s : ForgedLogins ι) : Option (Int64 × Int64) → ForgedLogins ι
  | none => s
  | some (serialId, userId) =>
    let (conn, server) := s.gate.server.getConnection serialId
    let objects := match conn with
      | none => server.objects
      | some c => server.objects.modify c ({ · with authorized := true, userId })
    { s with gate.server := { server with objects }, lookups := s.lookups ++ [serialId] }

/-- `connection_cb_` of the gate authorizes nobody. -/
def connected (s : ForgedLogins ι) (c : ConnSPtr) : ForgedLogins ι :=
  { s with gate.server.objects :=
      s.gate.server.objects.modify c ({ · with authorized := false }) }

variable [DecidableEq ι]

def step (host : ByteOrder) (localtime : ℤ → Tm) (s : ForgedLogins ι) :
    Action ι → Option (ForgedLogins ι)
  | .gate (.serve (.getConnection _)) => none
  | .gate (.serve (.runFunctor loop)) => do
    let gate ← s.gate.step localtime (.serve (.runFunctor loop))
    match s.gate.server.pending loop with
    | .start id :: _ =>
      let c ← (s.gate.server.connections.subscript id).1
      return connected { s with gate } c
    | _ => return { s with gate }
  | .gate a => (s.gate.step localtime a).map fun gate => { s with gate }
  | .messageCb c connBuf => do
    let conn ← s.gate.server.objects[c]?
    let ((_, sends), _) ← GateServer.messageCb host (onBuffer host) conn.authorized conn.serialId
      connBuf
    return { s with relayed := s.relayed ++ sends }
  | .dbMessageCb connBuf stray =>
    match GateServer.dbMessageCb (onBuffer host) connBuf with
    | some ((_, granted), _) => some (s.authorize granted)
    | none => some (s.authorize stray)

omit [DecidableEq ι] in
structure Invariant (s : ForgedLogins ι) : Prop where
  tainted : s.gate.server.Tainted s.lookups
  relayed : s.relayed = []

variable {host : ByteOrder} {localtime : ℤ → Tm} {s s' : ForgedLogins ι}

omit [DecidableEq ι] in
theorem init_invariant (time : ℤ) : (init time : ForgedLogins ι).Invariant :=
  ⟨TCPServer.init_tainted, rfl⟩

omit [DecidableEq ι] in
theorem authorize_invariant (h : s.Invariant) (granted : Option (Int64 × Int64)) :
    (s.authorize granted).Invariant := by
  cases granted with
  | none => exact h
  | some grant =>
      obtain ⟨serialId, userId⟩ := grant
      obtain ⟨hnone, htainted⟩ := h.tainted.getConnection serialId
      simp only [authorize, hnone]
      exact ⟨htainted, h.relayed⟩

theorem messageCb_sends_nothing (host : ByteOrder) (serialId : Int64) (connBuf : Traced) :
    ∃ status, GateServer.messageCb host (onBuffer host) false serialId connBuf =
      some ((status, []), connBuf) := by
  have hrun : GateServer.messageCb host (onBuffer host) false serialId connBuf =
      (if 5 ≤ connBuf.buffer.getLength then pure (none, []) else pure (some .READ_INCOMPLETE, []) :
        StateT Traced Option (Option BufferStatus × List (Option Buffer))) connBuf := rfl
  rw [hrun]
  split
  · exact ⟨none, rfl⟩
  · exact ⟨some .READ_INCOMPLETE, rfl⟩

/-- The gate accepts under large ids, and leaves the rest to the server. -/
theorem gate_tainted {gate : SerialIds ι} {a : SerialIds.Action ι}
    (hyear : ∀ current, 0 < (localtime current).year)
    (hlookup : ∀ id, a ≠ .serve (.getConnection id))
    (h : s.gate.server.Tainted s.lookups) (hgate : s.gate.step localtime a = some gate) :
    gate.server.Tainted s.lookups := by
  cases a with
  | handleNewConn loop passed =>
      cases hgate
      exact h.handleNewConn loop (UID.le_toInt_generateSerialID localtime _ (hyear _))
  | serve a =>
      obtain ⟨haccept, server, hserver, rfl⟩ := SerialIds.step_serve hgate
      exact h.step (fun id heq => hlookup id (heq ▸ rfl)) haccept hserver

theorem step_invariant (hyear : ∀ current, 0 < (localtime current).year) {a : Action ι}
    (h : s.Invariant) (hs' : step host localtime s a = some s') : s'.Invariant := by
  have hgate : ∀ a : SerialIds.Action ι, (∀ id, a ≠ .serve (.getConnection id)) →
      (s.gate.step localtime a).map (fun gate => { s with gate }) = some s' →
      s'.Invariant := by
    intro a hlookup hmap
    obtain ⟨gate, hstep, rfl⟩ := Option.map_eq_some_iff.mp hmap
    exact ⟨gate_tainted (s := s) hyear hlookup h.tainted hstep, h.relayed⟩
  cases a with
  | gate a =>
      cases a with
      | handleNewConn loop passed =>
          exact hgate (.handleNewConn loop passed) (fun id heq => by cases heq) hs'
      | serve a =>
          cases a with
          | getConnection id => cases hs'
          | runFunctor loop =>
              obtain ⟨gate, hstep, hs'⟩ := Option.bind_eq_some_iff.mp hs'
              have htainted := gate_tainted (s := s) hyear (fun id heq => by cases heq) h.tainted hstep
              split at hs'
              · obtain ⟨c, -, hs'⟩ := Option.bind_eq_some_iff.mp hs'
                obtain rfl := Option.some.inj hs'
                exact ⟨htainted.setUnauthorized c, h.relayed⟩
              · obtain rfl := Option.some.inj hs'
                exact ⟨htainted, h.relayed⟩
          | handleNewConn loop serialId => cases hs'
          | peerClose c => exact hgate (.serve (.peerClose c)) (fun id heq => by cases heq) hs'
          | close c => exact hgate (.serve (.close c)) (fun id heq => by cases heq) hs'
  | messageCb c connBuf =>
      obtain ⟨conn, hconn, hs'⟩ := Option.bind_eq_some_iff.mp hs'
      have hauth := h.tainted.unauthorized conn (List.mem_of_getElem? hconn)
      obtain ⟨status, hrun⟩ := messageCb_sends_nothing host conn.serialId connBuf
      rw [hauth, hrun] at hs'
      obtain rfl := Option.some.inj hs'
      exact ⟨h.tainted, by rw [h.relayed]; rfl⟩
  | dbMessageCb connBuf stray =>
      rw [step] at hs'
      split at hs' <;> obtain rfl := Option.some.inj hs'
      · exact authorize_invariant h _
      · exact authorize_invariant h stray

end ForgedLogins
end TinyGameServer
