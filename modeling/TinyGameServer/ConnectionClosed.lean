import Mathlib.Tactic.IntervalCases
import TinyGameServer.ConnectionLoop

/-!
# What happens after HandleClose?

None of the handlers looks at `status_`. A functor that was queued before or after the close still
runs, and the write callback follows a read callback that has closed the connection. Without
these two, `Disconnected` is an absorbing state in which nothing is called, written or registered.
-/

namespace TinyGameServer

namespace TCPConnection

/-- A `write` from the send buffer will not take any byte. -/
def Silent (c : TCPConnection) (w : WriteResult) : Prop :=
  w = .error ∨ w = .accepted 0 ∨ c.sendBuffer.getLength = 0

instance (c : TCPConnection) (w : WriteResult) : Decidable (c.Silent w) := by
  unfold Silent
  infer_instance

theorem Silent.bytes {c : TCPConnection} {w : WriteResult} (h : c.Silent w) {data : List UInt8}
    (hdata : data.length = c.sendBuffer.getLength.toNat) : w.bytes data = [] := by
  rcases h with rfl | rfl | hzero
  · rfl
  · rfl
  · rw [hzero] at hdata
    rw [List.eq_nil_of_length_eq_zero hdata]
    cases w with
    | error => rfl
    | accepted count => exact List.take_nil

theorem Silent.writeOut {c c' : TCPConnection} {w : WriteResult} {len : Int32} (h : c.Silent w)
    (hwrite : c.writeOut w = some (len, c')) : c' = c ∧ ¬ 0 < len := by
  obtain ⟨data, hload, hret⟩ := Option.bind_eq_some_iff.mp hwrite
  cases hret
  have hnil : w.bytes data = [] := h.bytes (Block.length_load hload)
  constructor
  · rw [hnil, List.append_nil]
  · cases w with
    | error => exact of_decide_eq_false rfl
    | accepted count =>
        rw [WriteResult.len, hnil]
        decide

end TCPConnection

/-- Not a statement of `HandleClose`, nor one that can lead to it. -/
def Statement.Plain : Statement → Prop
  | .handleRead _ | .disableAll | .closeCb | .setDisconnected => False
  | _ => True

namespace ConnectionLoop

/-- No functor is started once the connection is closed, and a dispatch that reads the end of
file does not also write bytes. -/
def NothingAfterClose (s : ConnectionLoop) : Action → Prop
  | .runFunctor _ => ¬ s.Closed
  | .dispatch which r w => which = ⟨true, true⟩ → r = .data [] → s.conn.Silent w
  | _ => True

/-- What the rest of a run must not change, and that nothing is registered at its end. -/
structure Absorbed (s t : ConnectionLoop) : Prop where
  closed : t.Closed
  closeCalls : t.closeCalls = s.closeCalls
  readCalls : t.readCalls = s.readCalls
  written : t.conn.written = s.conn.written
  registered : t.registered = Interest.none

/-- The remaining statements are calls of `HandleWrite` that write nothing. -/
def Quiet (c : TCPConnection) (todo : List Statement) : Prop :=
  ∀ i ∈ todo, ∃ w, i = .handleWrite w ∧ c.Silent w

def Plain (todo : List Statement) : Prop := ∀ i ∈ todo, Statement.Plain i

/-- Where the connection is between its start and its close. -/
inductive Phase (s : ConnectionLoop) : Prop
  | plain (hopen : ¬ s.Closed) (hplain : Plain s.todo)
  | reading (hopen : ¬ s.Closed) (r : ReadResult) (rest : List Statement)
      (htodo : s.todo = .handleRead r :: rest) (hplain : Plain rest)
      (heof : r = .data [] → Quiet s.conn rest)
  | closing (hopen : ¬ s.Closed) (k : ℕ) (hk : k < 4) (rest : List Statement)
      (htodo : s.todo = Statement.closeProgram.drop k ++ rest)
      (hregistered : 0 < k → s.registered = Interest.none) (hquiet : Quiet s.conn rest)
  | closed (hclosed : s.Closed) (hregistered : s.registered = Interest.none)
      (hquiet : Quiet s.conn s.todo)

variable {s s' : ConnectionLoop}

theorem init_phase : init.Phase :=
  .plain (fun h => by cases h) (fun _ hi => absurd hi List.not_mem_nil)

theorem Phase.of_eq (h : s.Phase) (htodo : s'.todo = s.todo) (hconn : s'.conn = s.conn) :
    s'.Phase := by
  have hclosed : s'.Closed ↔ s.Closed := by rw [Closed, Closed, hconn]
  have hregistered : s'.registered = s.registered := congrArg (·.watcher.registered) hconn
  cases h with
  | plain hopen hplain => exact .plain (mt hclosed.mp hopen) (htodo ▸ hplain)
  | reading hopen r rest hrest hplain heof =>
      exact .reading (mt hclosed.mp hopen) r rest (htodo.trans hrest) hplain (hconn ▸ heof)
  | closing hopen k hk rest hrest hnone hquiet =>
      exact .closing (mt hclosed.mp hopen) k hk rest (htodo.trans hrest)
        (fun hpos => hregistered.trans (hnone hpos)) (hconn ▸ hquiet)
  | closed hclosed' hnone hquiet =>
      refine .closed (hclosed.mpr hclosed') (hregistered.trans hnone) ?_
      rw [htodo, hconn]
      exact hquiet

/-! ## Statements -/

theorem plain_nil : Plain [] := fun _ hi => absurd hi List.not_mem_nil

theorem quiet_nil {c : TCPConnection} : Quiet c [] := fun _ hi => absurd hi List.not_mem_nil

theorem plain_cons {i : Statement} {rest : List Statement} :
    Plain (i :: rest) ↔ i.Plain ∧ Plain rest := List.forall_mem_cons

theorem quiet_cons {c : TCPConnection} {i : Statement} {rest : List Statement} :
    Quiet c (i :: rest) ↔ (∃ w, i = .handleWrite w ∧ c.Silent w) ∧ Quiet c rest :=
  List.forall_mem_cons

theorem exec_plain {i : Statement} (h : s.exec i = some s') (hi : i.Plain) (htodo : Plain s.todo) :
    Plain s'.todo ∧ s'.conn.status = s.conn.status := by
  cases i with
  | handleWrite w =>
      obtain ⟨len, conn, hwrite, rfl⟩ := exec_handleWrite h
      refine ⟨?_, TCPConnection.status_writeOut hwrite⟩
      dsimp only
      split
      · exact plain_cons.mpr ⟨trivial, plain_cons.mpr ⟨trivial, htodo⟩⟩
      · exact htodo
  | directWrite buf w =>
      obtain ⟨remaining, buf', conn, hwrite, rfl⟩ := exec_directWrite h
      exact ⟨plain_cons.mpr ⟨trivial, plain_cons.mpr ⟨trivial, htodo⟩⟩,
        TCPConnection.status_directWrite hwrite⟩
  | queueRest buf remaining =>
      obtain ⟨conn, hqueue, rfl⟩ := exec_queueRest h
      exact ⟨htodo, TCPConnection.status_queueRest hqueue⟩
  | stopIfEmpty =>
      obtain rfl := Option.some.inj h
      exact ⟨htodo, TCPConnection.status_stopIfEmpty⟩
  | enableWriting =>
      obtain rfl := Option.some.inj h
      exact ⟨htodo, TCPConnection.status_enableWriting⟩
  | handleRead r => exact absurd hi id
  | disableAll => exact absurd hi id
  | closeCb => exact absurd hi id
  | setDisconnected => exact absurd hi id
  | _ =>
      obtain rfl := Option.some.inj h
      exact ⟨htodo, rfl⟩

theorem exec_silent {w : WriteResult} (h : s.exec (.handleWrite w) = some s')
    (hsilent : s.conn.Silent w) : s' = s := by
  obtain ⟨len, conn, hwrite, rfl⟩ := exec_handleWrite h
  obtain ⟨rfl, hlen⟩ := hsilent.writeOut hwrite
  rw [if_neg hlen]

/-! ## Phases -/

theorem tick_reading {r : ReadResult} {rest : List Statement} (hopen : ¬ s.Closed)
    (hplain : Plain rest) (heof : r = .data [] → Quiet s.conn rest)
    (h : { s with todo := rest : ConnectionLoop }.exec (.handleRead r) = some s') : s'.Phase := by
  rcases r with _ | _ | ⟨x, bytes⟩
  · obtain rfl := Option.some.inj h
    exact .plain hopen hplain
  · obtain rfl := Option.some.inj h
    exact .closing hopen 0 (by omega) rest rfl (fun hpos => absurd hpos (Nat.lt_irrefl 0))
      (heof rfl)
  · obtain rfl := Option.some.inj h
    exact .plain hopen (plain_cons.mpr ⟨trivial, plain_cons.mpr ⟨trivial, hplain⟩⟩)

theorem tick_closing {i : Statement} {k : ℕ} {todo rest : List Statement} (hopen : ¬ s.Closed)
    (hk : k < 4) (htodo : i :: todo = Statement.closeProgram.drop k ++ rest)
    (hregistered : 0 < k → s.registered = Interest.none) (hquiet : Quiet s.conn rest)
    (h : { s with todo : ConnectionLoop }.exec i = some s') : s'.Phase := by
  interval_cases k
  · obtain ⟨rfl, rfl⟩ := List.cons.inj htodo
    obtain rfl := Option.some.inj h
    exact .closing hopen 1 (by omega) rest rfl (fun _ => s.conn.watcher.registered_disableAllEvent)
      hquiet
  · obtain ⟨rfl, rfl⟩ := List.cons.inj htodo
    obtain rfl := Option.some.inj h
    exact .closing hopen 2 (by omega) rest rfl (fun _ => hregistered (Nat.zero_lt_succ _)) hquiet
  · obtain ⟨rfl, rfl⟩ := List.cons.inj htodo
    obtain rfl := Option.some.inj h
    exact .closing hopen 3 (by omega) rest rfl (fun _ => hregistered (Nat.zero_lt_succ _)) hquiet
  · obtain ⟨rfl, rfl⟩ := List.cons.inj htodo
    obtain rfl := Option.some.inj h
    exact .closed rfl (hregistered (Nat.zero_lt_succ _)) hquiet

theorem Phase.registered (h : s.Phase) (hclosed : s.Closed) : s.registered = Interest.none := by
  cases h with
  | plain hopen _ => exact absurd hclosed hopen
  | reading hopen => exact absurd hclosed hopen
  | closing hopen => exact absurd hclosed hopen
  | closed _ hregistered _ => exact hregistered

theorem Phase.quiet (h : s.Phase) (hclosed : s.Closed) : Quiet s.conn s.todo := by
  cases h with
  | plain hopen _ => exact absurd hclosed hopen
  | reading hopen => exact absurd hclosed hopen
  | closing hopen => exact absurd hclosed hopen
  | closed _ _ hquiet => exact hquiet

theorem dispatch_phase {which : Interest} {r : ReadResult} {w : WriteResult} (hopen : ¬ s.Closed)
    (hguard : which = ⟨true, true⟩ → r = .data [] → s.conn.Silent w) :
    ({ s with todo := handle which r w } : ConnectionLoop).Phase := by
  obtain ⟨read, write⟩ := which
  have hwrite : Plain (if write then [.handleWrite w] else []) := by
    cases write with
    | true => exact plain_cons.mpr ⟨trivial, plain_nil⟩
    | false => exact plain_nil
  cases read with
  | false => exact .plain hopen hwrite
  | true =>
      refine .reading hopen r _ rfl hwrite fun heof => ?_
      cases write with
      | true => exact quiet_cons.mpr ⟨⟨w, rfl, hguard rfl heof⟩, quiet_nil⟩
      | false => exact quiet_nil

theorem functor_phase (hopen : ¬ s.Closed) (batch : List ConnFunctor) (w : WriteResult)
    (f : ConnFunctor) : ({ s with batch, todo := functorProgram w f } : ConnectionLoop).Phase := by
  cases f with
  | start =>
      exact .plain hopen (plain_cons.mpr ⟨trivial, plain_cons.mpr ⟨trivial,
        plain_cons.mpr ⟨trivial, plain_nil⟩⟩⟩)
  | send buf => exact .plain hopen (plain_cons.mpr ⟨trivial, plain_nil⟩)
  | handleClose =>
      exact .closing hopen 0 (by omega) [] rfl (fun hpos => absurd hpos (Nat.lt_irrefl 0)) quiet_nil

theorem step_phase {a : Action} (h : s.Phase) (hguard : s.NothingAfterClose a)
    (hs' : step s a = some s') : s'.Phase := by
  cases step_cases hs' with
  | dispatch which r w htodo hcount hne hwithin =>
      refine dispatch_phase (fun hclosed => ?_) hguard
      rw [h.registered hclosed] at hwithin
      exact hne (Interest.eq_none_of_within hwithin)
  | runFunctor w f rest => exact functor_phase hguard rest w f
  | tick i rest _ htodo hexec =>
      cases h with
      | plain hopen hplain =>
          rw [htodo, plain_cons] at hplain
          obtain ⟨hplain', hstatus⟩ := exec_plain hexec hplain.1 hplain.2
          exact .plain (fun hclosed => hopen (hstatus.symm.trans hclosed)) hplain'
      | reading hopen r rest' htodo' hplain heof =>
          obtain ⟨rfl, rfl⟩ := List.cons.inj (htodo.symm.trans htodo')
          exact tick_reading hopen hplain heof hexec
      | closing hopen k hk rest' htodo' hregistered hquiet =>
          exact tick_closing hopen hk (htodo.symm.trans htodo') hregistered hquiet hexec
      | closed hclosed hregistered hquiet =>
          rw [htodo, quiet_cons] at hquiet
          obtain ⟨⟨w, rfl, hsilent⟩, hrest⟩ := hquiet
          rw [exec_silent hexec hsilent]
          exact .closed hclosed hregistered hrest
  | _ => exact h.of_eq rfl rfl

/-! ## Closed connections -/

theorem absorbed_refl (h : s.Phase) (hclosed : s.Closed) : Absorbed s s :=
  ⟨hclosed, rfl, rfl, rfl, h.registered hclosed⟩

theorem Absorbed.trans {t : ConnectionLoop} (h : Absorbed s s') (h' : Absorbed s' t) :
    Absorbed s t where
  closed := h'.closed
  closeCalls := h'.closeCalls.trans h.closeCalls
  readCalls := h'.readCalls.trans h.readCalls
  written := h'.written.trans h.written
  registered := h'.registered

theorem step_absorbed {a : Action} (h : s.Phase) (hclosed : s.Closed)
    (hguard : s.NothingAfterClose a) (hs' : step s a = some s') : Absorbed s s' := by
  have hregistered := h.registered hclosed
  cases step_cases hs' with
  | runFunctor => exact absurd hclosed hguard
  | tick i rest _ htodo hexec =>
      have hquiet := h.quiet hclosed
      rw [htodo, quiet_cons] at hquiet
      obtain ⟨⟨w, rfl, hsilent⟩, -⟩ := hquiet
      rw [exec_silent hexec hsilent]
      exact ⟨hclosed, rfl, rfl, rfl, hregistered⟩
  | _ => exact ⟨hclosed, rfl, rfl, rfl, hregistered⟩

/-- Once `HandleClose` has completed, in every later state of a run: no callback has been called
again, no byte has been written and nothing is registered. -/
theorem closed_is_absorbing (acts later : List Action) (s t : ConnectionLoop)
    (hguard : Along step NothingAfterClose init (acts ++ later))
    (hs : run step init acts = some s) (hclosed : s.Closed) (ht : run step s later = some t) :
    Absorbed s t := by
  have hphase : s.Phase :=
    run_invariant_of_along (fun _ _ _ => step_phase) init_phase hguard.left hs
  have hstep : ∀ u a u', (u.Phase ∧ Absorbed s u) → u.NothingAfterClose a →
      step u a = some u' → u'.Phase ∧ Absorbed s u' := by
    rintro u a u' ⟨hu, habsorbed⟩ ha hu'
    exact ⟨step_phase hu ha hu', habsorbed.trans (step_absorbed hu habsorbed.closed ha hu')⟩
  exact (run_invariant_of_along hstep ⟨hphase, absorbed_refl hphase hclosed⟩ (hguard.right hs) ht).2

instance (s : ConnectionLoop) : Decidable s.Closed := inferInstanceAs (Decidable (_ = _))

instance (s : ConnectionLoop) (a : Action) : Decidable (s.NothingAfterClose a) :=
  match a with
  | .runFunctor _ => inferInstanceAs (Decidable (¬ s.Closed))
  | .dispatch which r w =>
    inferInstanceAs (Decidable (which = ⟨true, true⟩ → r = .data [] → s.conn.Silent w))
  | .sendChecked _ | .sendPosted _ | .close | .hold | .drop | .beginBatch | .endBatch | .tick =>
    isTrue trivial

def oneByte : Buffer := ((Buffer.new 8).append [7]).getD (.new 8)

/-- A held connection is started, has a send queued and is then closed by its peer, in a dispatch
in which the socket is also writable. -/
def sendAndClose (w : WriteResult) : List Action :=
  [.hold, .sendChecked oneByte, .sendPosted 0, .beginBatch, .runFunctor .error, .tick, .tick, .tick,
    .runFunctor .error, .tick, .tick, .tick, .endBatch, .dispatch ⟨true, true⟩ (.data []) w] ++
    List.replicate 5 .tick

theorem failed_write_is_absorbed :
    ∃ s t, run step init (sendAndClose .error) = some s ∧
      run step s [.tick, .close, .beginBatch] = some t ∧ Absorbed s t :=
  ⟨_, _, rfl, rfl, closed_is_absorbing (sendAndClose .error) [.tick, .close, .beginBatch]
    _ _ (by decide) rfl rfl rfl⟩

def closesAndSend : List Action :=
  [.hold, .close, .close, .sendChecked oneByte, .sendPosted 0, .beginBatch, .runFunctor .error,
    .tick, .tick, .tick, .runFunctor .error] ++ List.replicate 4 .tick

/-- The second close and the send run on the closed connection: the close callback is invoked
again, the byte is written, and write interest is registered. -/
theorem queued_functors_run_after_close :
    ¬ ∀ acts later s t, Along step (fun s _ => 1 ≤ s.count) init (acts ++ later) →
      run step init acts = some s → s.Closed → run step s later = some t → Absorbed s t := by
  intro h
  have habsorbed := h closesAndSend ([.runFunctor .error] ++ List.replicate 4 .tick ++
    [.runFunctor (.accepted 1)] ++ List.replicate 3 .tick) _ _ (by decide) rfl rfl rfl
  have hregistered := habsorbed.registered
  exact absurd hregistered (by decide)

end ConnectionLoop
end TinyGameServer
