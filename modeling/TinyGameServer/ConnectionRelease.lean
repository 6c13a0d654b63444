import TinyGameServer.ConnectionClosed
import TinyGameServer.ConnectionOwnership

/-!
# When is a connection destroyed?

The destructor closes the descriptor when the last reference goes. If every handler is left a
reference and nothing runs after the close, the last reference goes after `HandleClose`: the close
callback has been called once, libevent waits for nothing on the descriptor, and the connection
never comes back.
-/

namespace TinyGameServer.ConnectionLoop

structure Released (s : ConnectionLoop) : Prop where
  count : s.count = 0
  closed : s.Closed
  registered : s.registered = Interest.none
  closeCalls : s.closeCalls = 1
  idle : s.todo = []

/-- The registry keeps the connection until the close callback, which is called once and followed by
the store to `status_`. -/
inductive Entry (s : ConnectionLoop) : Prop
  | kept (hopen : ¬ s.Closed) (hregistry : s.registry = true) (hcalls : s.closeCalls = 0)
      (htodo : .setDisconnected ∈ s.todo → .closeCb ∈ s.todo)
  | dropped (hopen : ¬ s.Closed) (hregistry : s.registry = false) (hcalls : s.closeCalls = 1)
      (k : ℕ) (hk : k < 2) (rest : List Statement)
      (htodo : s.todo = [.releaseTemp, .setDisconnected].drop k ++ rest)
  | closed (hclosed : s.Closed) (hregistry : s.registry = false) (hcalls : s.closeCalls = 1)

structure Lifecycle (s : ConnectionLoop) : Prop where
  owned : s.Owned
  phase : s.Phase
  entry : s.Entry

variable {s s' t : ConnectionLoop}

theorem init_lifecycle : init.Lifecycle where
  owned := init_owned
  phase := init_phase
  entry := .kept (fun h => by cases h) rfl rfl fun h => absurd h List.not_mem_nil

/-! ## The entry -/

theorem Entry.of_eq (h : s.Entry) (htodo : s'.todo = s.todo) (hconn : s'.conn = s.conn)
    (hregistry : s'.registry = s.registry) (hcalls : s'.closeCalls = s.closeCalls) : s'.Entry := by
  have hclosed : s'.Closed ↔ s.Closed := by rw [Closed, Closed, hconn]
  cases h with
  | kept hopen hregistry' hcalls' htodo' =>
      exact .kept (mt hclosed.mp hopen) (hregistry.trans hregistry') (hcalls.trans hcalls')
        (htodo ▸ htodo')
  | dropped hopen hregistry' hcalls' k hk rest hrest =>
      exact .dropped (mt hclosed.mp hopen) (hregistry.trans hregistry') (hcalls.trans hcalls') k hk
        rest (htodo.trans hrest)
  | closed hclosed' hregistry' hcalls' =>
      exact .closed (hclosed.mpr hclosed') (hregistry.trans hregistry') (hcalls.trans hcalls')

theorem not_mem_of_plain {todo : List Statement} (h : Plain todo) : .setDisconnected ∉ todo :=
  fun hmem => h _ hmem

theorem Entry.idle (h : s.Entry) (htodo : s.todo = []) :
    (¬ s.Closed ∧ s.registry = true ∧ s.closeCalls = 0) ∨ s.Closed := by
  cases h with
  | kept hopen hregistry hcalls => exact .inl ⟨hopen, hregistry, hcalls⟩
  | dropped hopen hregistry hcalls k hk rest hrest =>
      rw [htodo] at hrest
      interval_cases k <;> cases hrest
  | closed hclosed => exact .inr hclosed

theorem Entry.handler (h : s.Entry) (hidle : s.todo = []) (hopen : ¬ s.Closed)
    (batch : List ConnFunctor) (todo : List Statement)
    (htodo : .setDisconnected ∈ todo → .closeCb ∈ todo) :
    ({ s with batch, todo } : ConnectionLoop).Entry := by
  rcases h.idle hidle with ⟨-, hregistry, hcalls⟩ | hclosed
  · exact .kept hopen hregistry hcalls htodo
  · exact absurd hclosed hopen

theorem closeCb_of_handle (which : Interest) (r : ReadResult) (w : WriteResult) :
    .setDisconnected ∈ handle which r w → .closeCb ∈ handle which r w := by
  obtain ⟨read, write⟩ := which
  cases read <;> cases write <;> simp [handle]

theorem closeCb_of_functorProgram (w : WriteResult) (f : ConnFunctor) :
    .setDisconnected ∈ functorProgram w f → .closeCb ∈ functorProgram w f := by
  cases f <;> simp [functorProgram, Statement.closeProgram]

theorem exec_registry {i : Statement} (h : s.exec i = some s') (hi : i ≠ .closeCb) :
    s'.registry = s.registry ∧ s'.closeCalls = s.closeCalls := by
  obtain ⟨conn, todo, rfl⟩ | ⟨-, rfl⟩ | ⟨-, rfl⟩ | ⟨rfl, -⟩ | ⟨-, rfl⟩ := exec_cases h
  · exact ⟨rfl, rfl⟩
  · exact ⟨rfl, rfl⟩
  · exact ⟨rfl, rfl⟩
  · exact absurd rfl hi
  · exact ⟨rfl, rfl⟩

theorem closeCb_not_mem_of_quiet {c : TCPConnection} {todo : List Statement} (h : Quiet c todo) :
    .closeCb ∉ todo := by
  intro hmem
  obtain ⟨w, hw, -⟩ := h _ hmem
  cases hw

theorem tick_kept {i : Statement} {rest : List Statement} (hphase : s.Phase)
    (hregistry : s.registry = true) (hcalls : s.closeCalls = 0)
    (hkept : .setDisconnected ∈ s.todo → .closeCb ∈ s.todo) (hopen : ¬ s.Closed)
    (htodo : s.todo = i :: rest)
    (hexec : { s with todo := rest : ConnectionLoop }.exec i = some s') : s'.Entry := by
  cases hphase with
  | plain _ hplain =>
      rw [htodo, plain_cons] at hplain
      obtain ⟨hplain', hstatus⟩ := exec_plain hexec hplain.1 hplain.2
      obtain ⟨hregistry', hcalls'⟩ := exec_registry hexec fun hi => by
        rw [hi] at hplain
        exact hplain.1
      exact .kept (fun hclosed => hopen (hstatus.symm.trans hclosed)) (hregistry'.trans hregistry)
        (hcalls'.trans hcalls) fun hmem => absurd hmem (not_mem_of_plain hplain')
  | reading _ r rest' hrest hplain _ =>
      obtain ⟨rfl, rfl⟩ := List.cons.inj (htodo.symm.trans hrest)
      have hnone := not_mem_of_plain hplain
      rcases r with _ | _ | ⟨x, bytes⟩
      · obtain rfl := Option.some.inj hexec
        exact .kept hopen hregistry hcalls fun hmem => absurd hmem hnone
      · obtain rfl := Option.some.inj hexec
        exact .kept hopen hregistry hcalls fun _ => by simp [Statement.closeProgram]
      · obtain rfl := Option.some.inj hexec
        exact .kept hopen hregistry hcalls fun hmem => by simp [hnone] at hmem
  | closing _ k hk rest' hrest _ hquiet =>
      have hnone := closeCb_not_mem_of_quiet hquiet
      rw [hrest] at hkept
      have hprogram := htodo.symm.trans hrest
      interval_cases k
      · obtain ⟨rfl, rfl⟩ := List.cons.inj hprogram
        obtain rfl := Option.some.inj hexec
        exact .kept hopen hregistry hcalls fun _ => List.mem_cons_self
      · obtain ⟨rfl, rfl⟩ := List.cons.inj hprogram
        obtain rfl := Option.some.inj hexec
        exact .dropped hopen rfl (congrArg (· + 1) hcalls) 0 Nat.zero_lt_two rest' rfl
      · simp [Statement.closeProgram, hnone] at hkept
      · simp [Statement.closeProgram, hnone] at hkept
  | closed hclosed => exact absurd hclosed hopen

theorem tick_entry {i : Statement} {rest : List Statement} (h : s.Entry) (hphase : s.Phase)
    (htodo : s.todo = i :: rest)
    (hexec : { s with todo := rest : ConnectionLoop }.exec i = some s') : s'.Entry := by
  cases h with
  | kept hopen hregistry hcalls hkept =>
      exact tick_kept hphase hregistry hcalls hkept hopen htodo hexec
  | dropped hopen hregistry hcalls k hk rest' hrest =>
      have hprogram := htodo.symm.trans hrest
      interval_cases k
      · obtain ⟨rfl, rfl⟩ := List.cons.inj hprogram
        obtain rfl := Option.some.inj hexec
        exact .dropped hopen hregistry hcalls 1 Nat.one_lt_two rest' rfl
      · obtain ⟨rfl, rfl⟩ := List.cons.inj hprogram
        obtain rfl := Option.some.inj hexec
        exact .closed rfl hregistry hcalls
  | closed hclosed hregistry hcalls =>
      have hquiet := hphase.quiet hclosed
      rw [htodo, quiet_cons] at hquiet
      obtain ⟨⟨w, rfl, hsilent⟩, -⟩ := hquiet
      rw [exec_silent hexec hsilent]
      exact .closed hclosed hregistry hcalls

theorem step_entry {a : Action} (h : s.Entry) (hphase : s.Phase) (hguard : s.NothingAfterClose a)
    (hs' : step s a = some s') : s'.Entry := by
  cases step_cases hs' with
  | dispatch which r w htodo hcount hne hwithin =>
      refine h.handler htodo (fun hclosed => ?_) s.batch _ (closeCb_of_handle which r w)
      rw [hphase.registered hclosed] at hwithin
      exact hne (Interest.eq_none_of_within hwithin)
  | runFunctor w f rest htodo =>
      exact h.handler htodo hguard rest _ (closeCb_of_functorProgram w f)
  | tick i rest _ htodo hexec => exact tick_entry h hphase htodo hexec
  | _ => exact h.of_eq rfl rfl rfl rfl

/-! ## Lifecycles -/

/-- Every handler is left a reference, and nothing runs after the close. -/
def Orderly (s : ConnectionLoop) (a : Action) : Prop := s.Retained a ∧ s.NothingAfterClose a

theorem step_lifecycle {a : Action} (h : s.Lifecycle) (hguard : s.Orderly a)
    (hs' : step s a = some s') : s'.Lifecycle where
  owned := step_owned h.owned hguard.1 hs'
  phase := step_phase h.phase hguard.2 hs'
  entry := step_entry h.entry h.phase hguard.2 hs'

theorem Lifecycle.released (h : s.Lifecycle) (hcount : s.count = 0) : s.Released := by
  have hidle : s.todo = [] := by
    by_contra hne
    have hpos := (h.owned.owned hne).trans lasting_le_count
    omega
  cases h.entry with
  | kept hopen hregistry =>
      rw [count, hregistry, Bool.toNat_true] at hcount
      omega
  | dropped hopen hregistry hcalls k hk rest htodo =>
      rw [hidle] at htodo
      interval_cases k <;> cases htodo
  | closed hclosed hregistry hcalls =>
      exact ⟨hcount, hclosed, h.phase.registered hclosed, hcalls, hidle⟩

theorem step_count_zero {a : Action} (h : s.Lifecycle) (hcount : s.count = 0)
    (hguard : s.Orderly a) (hs' : step s a = some s') : s'.count = 0 := by
  have hparts := hcount
  simp only [count, Nat.add_eq_zero_iff] at hparts
  obtain ⟨⟨⟨⟨hregistry, husers⟩, htemps⟩, hpending⟩, hbatch⟩ := hparts
  cases step_cases hs' with
  | sendChecked buf hpos => omega
  | sendPosted i buf hbuf =>
      have hsend : refs [.send buf] = 0 := rfl
      simp only [count, refs_append, hregistry, husers, htemps, hpending, hbatch, hsend]
  | close hpos => omega
  | hold hpos => omega
  | drop hpos => omega
  | dispatch which r w htodo hpos => omega
  | beginBatch =>
      have hnil : refs [] = 0 := rfl
      simp only [count, hregistry, husers, htemps, hpending, hnil]
  | runFunctor w f rest htodo hrunning hfirst =>
      have hpos := (functor_lasting h.owned.consistent hguard.1 hfirst).trans lasting_le_count
      exact absurd hpos (by simp only [count, hregistry, husers, htemps, hpending, hbatch]; decide)
  | endBatch => simp only [count, hregistry, husers, htemps, hpending]
  | tick i rest _ htodo hexec =>
      have hpos := h.owned.count_pos htodo
      omega

theorem run_lifecycle {acts : List Action} (hguard : Along step Orderly init acts)
    (hs : run step init acts = some s) : s.Lifecycle :=
  run_invariant_of_along (fun _ _ _ => step_lifecycle) init_lifecycle hguard hs

/-- A connection without references is released, and so it stays, whatever comes later. -/
theorem Lifecycle.released_of_run {later : List Action} (h : s.Lifecycle) (hcount : s.count = 0)
    (hguard : Along step Orderly s later) (ht : run step s later = some t) :
    t.Released ∧ Absorbed s t := by
  have hstep : ∀ u a u', (u.Lifecycle ∧ u.count = 0 ∧ Absorbed s u) → u.Orderly a →
      step u a = some u' → u'.Lifecycle ∧ u'.count = 0 ∧ Absorbed s u' := by
    rintro u a u' ⟨hu, hzero, habsorbed⟩ ha hu'
    exact ⟨step_lifecycle hu ha hu', step_count_zero hu hzero ha hu',
      habsorbed.trans (step_absorbed hu.phase habsorbed.closed ha.2 hu')⟩
  obtain ⟨hlife', hcount', habsorbed⟩ := run_invariant_of_along hstep
    ⟨h, hcount, absorbed_refl h.phase (h.released hcount).closed⟩ hguard ht
  exact ⟨hlife'.released hcount', habsorbed⟩

instance (s : ConnectionLoop) (a : Action) : Decidable (s.Orderly a) :=
  inferInstanceAs (Decidable (_ ∧ _))

end TinyGameServer.ConnectionLoop
