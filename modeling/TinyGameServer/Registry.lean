import Mathlib.Algebra.Group.Int.Defs
import Mathlib.Algebra.Group.Nat.Defs
import TinyGameServer.TCPServer

/-!
# Is the registry exact?

`GetConnection` takes a `uint` while serial ids are 64-bit numbers, and it looks up through the
subscript operator. A run keeps the registry exact and gets the right answers if and only if
every lookup is for a live connection whose id fits into 32 bits.
-/

namespace TinyGameServer.TCPServer

variable {ι : Type} [DecidableEq ι]

/-- The registry is exact after the step, and a lookup returns the live connection or null and
changes nothing. -/
def StepExact (s : TCPServer ι) (a : Action ι) : Prop :=
  (∀ s', step s a = some s' → s'.Exact) ∧
    match a with
    | .getConnection id =>
      (∀ c, (s.getConnection id).1 = some c ↔ s.Live id c) ∧ (s.getConnection id).2 = s
    | _ => True

def ExactRun (s : TCPServer ι) (acts : List (Action ι)) : Prop :=
  s.Exact ∧ Along step StepExact s acts

/-- The id survives the conversion to `uint`, and its connection is live. -/
def LiveLookup (s : TCPServer ι) : Action ι → Prop
  | .getConnection id => 0 ≤ id.toInt ∧ id.toInt < 2 ^ 32 ∧ ∃ c, s.Live id c
  | _ => True

theorem toNat_lookupKey (id : Int64) :
    (lookupKey id).toUInt64.toNat = id.toUInt64.toNat % 2 ^ 32 := by
  rw [lookupKey, UInt64.toUInt64_toInt64, UInt32.toNat_toUInt64, UInt64.toNat_toUInt32]

theorem lookupKey_eq_iff (id : Int64) :
    lookupKey id = id ↔ 0 ≤ id.toInt ∧ id.toInt < 2 ^ 32 := by
  have hkey : lookupKey id = id ↔ id.toUInt64.toNat < 2 ^ 32 := by
    have hmod := toNat_lookupKey id
    constructor
    · intro h
      rw [h] at hmod
      omega
    · intro hlt
      apply Int64.toBitVec_inj.mp
      apply BitVec.eq_of_toNat_eq
      exact hmod.trans (Nat.mod_eq_of_lt hlt)
  have hint : id.toInt = id.toBitVec.toInt := rfl
  have hnat : id.toUInt64.toNat = id.toBitVec.toNat := rfl
  have hlt := id.toBitVec.isLt
  rw [hkey, hint, hnat, BitVec.toInt_eq_toNat_cond]
  split <;> omega

variable {s : TCPServer ι}

omit [DecidableEq ι] in
theorem getConnection_of_live {id : Int64} {c : ConnSPtr} (h : s.Exact)
    (hkey : lookupKey id = id) (hc : s.Live id c) : s.getConnection id = (some c, s) := by
  have hsub : s.connections.subscript id = (some c, s.connections) := h.subscript_of_rel hc
  rw [getConnection, hkey, hsub]

omit [DecidableEq ι] in
theorem lookup_exact_iff (h : s.Exact) (id : Int64) :
    ((∀ c, (s.getConnection id).1 = some c ↔ s.Live id c) ∧ (s.getConnection id).2 = s) ↔
      0 ≤ id.toInt ∧ id.toInt < 2 ^ 32 ∧ ∃ c, s.Live id c := by
  rw [← and_assoc, ← lookupKey_eq_iff]
  constructor
  · rintro ⟨hresult, hsame⟩
    -- the narrowed key must have been there, so it is what the lookup returns
    have hlive : ∃ c, s.Live (lookupKey id) c := by
      by_contra hnone
      refine h.subscript_ne (fun c hc => hnone ⟨c, hc⟩) ?_
      exact congrArg connections hsame
    obtain ⟨c, hc⟩ := hlive
    have hsub : s.connections.subscript (lookupKey id) = (some c, s.connections) :=
      h.subscript_of_rel hc
    have hreturn : (s.getConnection id).1 = some c := by
      rw [getConnection, hsub]
    have hc' := (hresult c).mp hreturn
    obtain ⟨conn, hobj, hid, -⟩ := hc
    obtain ⟨conn', hobj', hid', hopen⟩ := hc'
    have hconn : conn = conn' := Option.some.inj (hobj.symm.trans hobj')
    exact ⟨by rw [← hid, ← hid', hconn], c, conn', hobj', hid', hopen⟩
  · rintro ⟨hkey, c, hc⟩
    rw [getConnection_of_live h hkey hc]
    refine ⟨fun c' => ?_, rfl⟩
    constructor
    · rintro ⟨⟩
      exact hc
    · intro hc'
      rw [h.unique hc hc']

/-- Every step whose lookup is for a live id of 32 bits keeps the invariant. -/
theorem step_invariant {s' : TCPServer ι} {a : Action ι} (h : s.Invariant)
    (hlookup : s.LiveLookup a) (hs' : step s a = some s') : s'.Invariant := by
  cases step_cases hs' with
  | handleNewConn loop serialId hfresh => exact handleNewConn_invariant h loop hfresh
  | start loop id rest _ hqueue hstart => exact startConn_invariant h hqueue hstart
  | runClose loop c rest hqueue =>
      obtain ⟨conn, hc, hstarted⟩ := front_close_started h hqueue
      exact handleClose_invariant (pop_close_invariant h hqueue) hc hstarted
  | peerClose c conn hc hstarted => exact handleClose_invariant h hc hstarted
  | close c conn hc => exact post_close_invariant h hc
  | getConnection id =>
      obtain ⟨hlow, hhigh, c, hc⟩ := hlookup
      rw [getConnection_of_live h.exact ((lookupKey_eq_iff id).mpr ⟨hlow, hhigh⟩) hc]
      exact h

theorem stepExact_iff {a : Action ι} (h : s.Invariant) : s.StepExact a ↔ s.LiveLookup a := by
  have hexact : s.LiveLookup a → ∀ t, step s a = some t → t.Exact :=
    fun hlookup t ht => (step_invariant h hlookup ht).exact
  cases a with
  | getConnection id =>
      have hlookup := lookup_exact_iff h.exact id
      exact ⟨fun hstep => hlookup.mp hstep.2, fun hl => ⟨hexact hl, hlookup.mpr hl⟩⟩
  | _ => exact ⟨fun _ => trivial, fun hl => ⟨hexact hl, trivial⟩⟩

/-- Over every run: the registry is exact in every state and every lookup is answered rightly if
and only if all lookups are for live connections with an id below `2 ^ 32`. -/
theorem registry_exact_iff (acts : List (Action ι)) :
    ExactRun (init : TCPServer ι) acts ↔ Along step LiveLookup (init : TCPServer ι) acts := by
  have hrun : Along step StepExact (init : TCPServer ι) acts ↔
      Along step LiveLookup (init : TCPServer ι) acts :=
    along_iff (fun _ _ => stepExact_iff) (fun _ _ _ => step_invariant)
      init_invariant acts
  exact ⟨fun h => hrun.mp h.2, fun h => ⟨init_invariant.exact, hrun.mpr h⟩⟩

/-- The first connection of a second in 2021, looked up by its own id, is not found. -/
theorem lookup_of_serial_id_fails :
    ¬ ExactRun (init : TCPServer Unit)
      [.handleNewConn () 20211123143000001, .getConnection 20211123143000001] := by
  rintro ⟨-, h⟩
  obtain ⟨-, h⟩ := h
  obtain ⟨⟨-, hresult, -⟩, -⟩ := h _ rfl
  have hlive : (init.handleNewConn () 20211123143000001).Live 20211123143000001 0 :=
    ⟨_, rfl, rfl, rfl⟩
  have hnull : ((init.handleNewConn () 20211123143000001).getConnection 20211123143000001).1 =
      none := by decide
  cases hnull.symm.trans ((hresult 0).mpr hlive)

end TinyGameServer.TCPServer
