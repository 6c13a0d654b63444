import TinyGameServer.LoginSystem

/-!
# No login is ever completed

The invariant of the composed system is that no connection is authorized and that nothing is in
flight to or from the data server. So the end-to-end property holds in a reachable state exactly
when it asks for no authorization there.
-/

namespace TinyGameServer

theorem GateServer.messageCb_unauthorized (host : ByteOrder) (serialId : Int64)
    (q : List UInt8) : ∃ status, messageCb host (onQueue host) false serialId q =
      some ((status, []), q) := by
  have hrun : messageCb host (onQueue host) false serialId q =
      (if 5 ≤ UInt32.ofNat q.length then pure (none, []) else pure (some .READ_INCOMPLETE, []) :
        StateT (List UInt8) Option (Option BufferStatus × List (Option Buffer))) q := rfl
  rw [hrun]
  split
  · exact ⟨none, rfl⟩
  · exact ⟨some .READ_INCOMPLETE, rfl⟩

namespace TCPServer

variable {ι : Type} {s s' : TCPServer ι}

def Unauthorized (s : TCPServer ι) : Prop := ∀ conn ∈ s.objects, conn.authorized = false

theorem forall_mem_modify {P : Conn ι → Prop} {l : List (Conn ι)} {f : Conn ι → Conn ι}
    (c : ℕ) (hl : ∀ a ∈ l, P a) (hf : ∀ a, P a → P (f a)) : ∀ a ∈ l.modify c f, P a := by
  intro b hb
  obtain ⟨i, hi⟩ := List.mem_iff_getElem?.mp hb
  obtain ⟨a, ha, rfl⟩ := getElem?_modify_eq_some.mp hi
  have hPa := hl a (List.mem_of_getElem? ha)
  split
  · exact hf a hPa
  · exact hPa

theorem handleClose_unauthorized (h : s.Unauthorized) (c : ConnSPtr) :
    (s.handleClose c).Unauthorized := by
  rw [handleClose]
  split
  · exact h
  · exact forall_mem_modify c h fun _ ha => ha

theorem startConn_unauthorized (h : s.Unauthorized) {id : Int64}
    (hs' : s.startConn id = some s') : s'.Unauthorized := by
  rw [startConn] at hs'
  split at hs'
  · cases hs'
  · obtain rfl := Option.some.inj hs'
    exact forall_mem_modify _ h fun _ ha => ha

theorem step_unauthorized [DecidableEq ι] {a : Action ι} (h : s.Unauthorized)
    (hs' : step s a = some s') : s'.Unauthorized := by
  cases step_cases hs' with
  | handleNewConn loop serialId =>
      intro conn hconn
      rcases List.mem_append.mp hconn with hold | hnew
      · exact h conn hold
      · rw [List.mem_singleton.mp hnew]
  | start loop id rest _ hqueue hstart =>
      have hpop : (s.pop loop rest).Unauthorized := h
      exact startConn_unauthorized hpop hstart
  | runClose loop c rest =>
      have hpop : (s.pop loop rest).Unauthorized := h
      exact handleClose_unauthorized hpop c
  | peerClose c => exact handleClose_unauthorized h c
  | _ => exact h

end TCPServer

namespace LoginSystem

variable {ι : Type} {s s' : LoginSystem ι}

/-- The login frame of a client: the body is the name and the password with their lengths. -/
def clientLogin (name pass : List UInt8) : List UInt8 :=
  frame (ascii 'l') (ByteOrder.big.toBytes 4 name.length ++ name ++
    (ByteOrder.big.toBytes 4 pass.length ++ pass))

/-- The bytes are a well-formed login with credentials that map to `uid`. -/
def Grants (selectUser : SelectUser) (bytes : List UInt8) (uid : Int64) : Prop :=
  ∃ name pass, bytes = clientLogin name pass ∧ 12 + name.length + pass.length < 2 ^ 32 ∧
    selectUser name pass = uid ∧ uid ≠ -1

def Quiescent (s : LoginSystem ι) : Prop :=
  s.toData = [] ∧ s.toDb = [] ∧ ∀ (c : ConnSPtr) (conn : Conn ι),
    s.gate.objects[c]? = some conn → conn.closed = false → s.toGate c = [] ∧ s.toClient c = []

/-- The client of an open connection has sent accepted credentials. -/
def Granted (selectUser : SelectUser) (s : LoginSystem ι) (c : ConnSPtr) (conn : Conn ι)
    (uid : Int64) : Prop :=
  s.gate.objects[c]? = some conn ∧ conn.closed = false ∧
    ∃ bytes ∈ s.sent c, Grants selectUser bytes uid

structure LoginExact (selectUser : SelectUser) (s : LoginSystem ι) : Prop where
  accepted : s.Quiescent → ∀ (c : ConnSPtr) (conn : Conn ι) (uid : Int64),
    s.Granted selectUser c conn uid → conn.authorized = true ∧ conn.userId = uid
  refused : ∀ (c : ConnSPtr) (conn : Conn ι), s.gate.objects[c]? = some conn →
    (¬ ∃ bytes ∈ s.sent c, ∃ uid, Grants selectUser bytes uid) → conn.authorized = false

/-! ## The invariant -/

structure NobodyAuthorized (s : LoginSystem ι) : Prop where
  unauthorized : s.gate.Unauthorized
  toData : s.toData = []
  toDb : s.toDb = []

theorem init_nobodyAuthorized : (init : LoginSystem ι).NobodyAuthorized where
  unauthorized _ hconn := absurd hconn List.not_mem_nil
  toData := rfl
  toDb := rfl

variable {host : ByteOrder} {selectUser : SelectUser}

theorem connected_nobodyAuthorized (h : s.NobodyAuthorized) {c : ConnSPtr}
    (hs' : s.connected host c = some s') : s'.NobodyAuthorized := by
  obtain ⟨bytes, -, hs'⟩ := Option.bind_eq_some_iff.mp hs'
  obtain rfl := Option.some.inj hs'
  exact ⟨TCPServer.forall_mem_modify c h.unauthorized fun _ _ => rfl, h.toData, h.toDb⟩

theorem deliverToGate_nobodyAuthorized (h : s.NobodyAuthorized) {c : ConnSPtr}
    (hs' : s.deliverToGate host c = some s') : s'.NobodyAuthorized := by
  obtain ⟨conn, hconn, hs'⟩ := Option.bind_eq_some_iff.mp hs'
  have hauth : conn.authorized = false := h.unauthorized conn (List.mem_of_getElem? hconn)
  split_ifs at hs'
  split at hs'
  · rename_i bytes rest hqueue
    obtain ⟨status, hrun⟩ := GateServer.messageCb_unauthorized host conn.serialId
      (s.received c ++ bytes)
    rw [hauth, hrun] at hs'
    obtain rfl := Option.some.inj hs'
    exact ⟨h.unauthorized, by rw [h.toData]; rfl, h.toDb⟩
  · cases hs'

theorem step_nobodyAuthorized [DecidableEq ι] {a : Action ι} (h : s.NobodyAuthorized)
    (hs' : step host selectUser s a = some s') : s'.NobodyAuthorized := by
  have hgate : ∀ {act : TCPServer.Action ι} {gate : TCPServer ι}, s.gate.step act = some gate →
      ({ s with gate } : LoginSystem ι).NobodyAuthorized := fun hstep =>
    ⟨TCPServer.step_unauthorized h.unauthorized hstep, h.toData, h.toDb⟩
  cases a with
  | accept loop serialId =>
      obtain ⟨gate, hstep, rfl⟩ := Option.map_eq_some_iff.mp hs'
      exact hgate hstep
  | runFunctor loop =>
      obtain ⟨gate, hstep, hs'⟩ := Option.bind_eq_some_iff.mp hs'
      split at hs'
      · split at hs'
        · cases hs'
        · exact connected_nobodyAuthorized (hgate hstep) hs'
      · obtain rfl := Option.some.inj hs'
        exact hgate hstep
  | peerClose c =>
      obtain ⟨gate, hstep, rfl⟩ := Option.map_eq_some_iff.mp hs'
      exact hgate hstep
  | close c =>
      obtain ⟨gate, hstep, rfl⟩ := Option.map_eq_some_iff.mp hs'
      exact hgate hstep
  | clientSends c bytes =>
      rw [step] at hs'
      split_ifs at hs'
      obtain rfl := Option.some.inj hs'
      exact ⟨h.unauthorized, h.toData, h.toDb⟩
  | deliverToClient c =>
      rw [step] at hs'
      split at hs'
      · cases hs'
      · obtain rfl := Option.some.inj hs'
        exact ⟨h.unauthorized, h.toData, h.toDb⟩
  | deliverToGate c => exact deliverToGate_nobodyAuthorized h hs'
  | deliverToData =>
      -- nothing has been relayed
      rw [step, deliverToData, h.toData] at hs'
      cases hs'
  | deliverToDb =>
      rw [step, deliverToDb, h.toDb] at hs'
      cases hs'

theorem reachable_nobodyAuthorized [DecidableEq ι]
    (h : Reachable (step host selectUser) init s) : s.NobodyAuthorized :=
  h.invariant (fun _ _ _ => step_nobodyAuthorized) init_nobodyAuthorized

/-- In a reachable state the property holds exactly if no login should have been completed: no
open connection whose client has sent accepted credentials with nothing left in flight. -/
theorem login_exact_iff [DecidableEq ι] (host : ByteOrder) (selectUser : SelectUser)
    (s : LoginSystem ι) (h : Reachable (step host selectUser) init s) :
    LoginExact selectUser s ↔
      ¬ (s.Quiescent ∧ ∃ c conn uid, s.Granted selectUser c conn uid) := by
  have hunauthorized := (reachable_nobodyAuthorized h).unauthorized
  constructor
  · rintro hexact ⟨hquiet, c, conn, uid, hgranted⟩
    obtain ⟨hauth, -⟩ := hexact.accepted hquiet c conn uid hgranted
    rw [hunauthorized conn (List.mem_of_getElem? hgranted.1)] at hauth
    cases hauth
  · intro hnone
    constructor
    · intro hquiet c conn uid hgranted
      exact absurd ⟨hquiet, c, conn, uid, hgranted⟩ hnone
    · intro c conn hconn _
      exact hunauthorized conn (List.mem_of_getElem? hconn)

/-- One client connects, gets the greeting and logs in with credentials that are accepted; the
gate reads the login, and nothing is left in flight. -/
def loginRun : List (Action Unit) :=
  [.accept () 1, .runFunctor (), .deliverToClient 0, .clientSends 0 (clientLogin [97] [98]),
    .deliverToGate 0]

/-- While the login is on its way to the gate nothing has gone wrong yet. -/
theorem login_exact_in_flight : ∃ s : LoginSystem Unit,
    run (step .little fun _ _ => 7) init (loginRun.take 4) = some s ∧
      s.toGate 0 = [clientLogin [97] [98]] ∧ LoginExact (fun _ _ => 7) s := by
  refine ⟨_, rfl, rfl, (login_exact_iff .little (fun _ _ => 7) _ ⟨loginRun.take 4, rfl⟩).mpr ?_⟩
  rintro ⟨⟨-, -, hquiet⟩, c, conn, uid, hconn, hopen, -⟩
  obtain _ | c := c
  · cases (hquiet 0 conn hconn hopen).1
  · cases hconn

theorem accepted_login_is_dropped : ∃ s : LoginSystem Unit,
    run (step .little fun _ _ => 7) init loginRun = some s ∧ ¬ LoginExact (fun _ _ => 7) s := by
  refine ⟨_, rfl, fun hexact => ?_⟩
  have hgrants : Grants (fun _ _ => 7) (clientLogin [97] [98]) 7 :=
    ⟨[97], [98], rfl, by decide, rfl, by decide⟩
  have hquiet := hexact.accepted ⟨rfl, rfl, ?_⟩ 0 _ 7
    ⟨rfl, rfl, clientLogin [97] [98], List.mem_singleton.mpr rfl, hgrants⟩
  · cases hquiet.1
  · rintro (_ | c) conn hconn -
    · exact ⟨rfl, rfl⟩
    · cases hconn

end LoginSystem
end TinyGameServer
