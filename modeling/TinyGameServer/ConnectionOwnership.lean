import TinyGameServer.ConnectionLoop

/-!
# Do the handlers run on an owned connection?

`HandleClose` writes `status_` after its close callback has dropped the registry entry, and a
queued `SendInLoop` only has the raw `this`. Who else holds a reference decides: user code, or a
functor of `Close`. If one of them does when the end of file is read and keeps it until the handler
is done, and a send functor finds a holder when it starts, then every access happens on an owned
connection.
-/

namespace TinyGameServer

namespace Statement

/-- The close callback, and the test that leads to it, take away the registry entry. -/
def closes : Statement → Bool
  | handleRead (.data []) => true
  | closeCb => true
  | _ => false

def temps (n : ℕ) : Statement → ℕ
  | connCb | readCb | closeCb => n + 1
  | releaseTemp => n - 1
  | _ => n

end Statement

namespace ConnectionLoop

/-- If the step executes a statement that reads or writes a member, the count is positive. -/
def OwnedAccess (s : ConnectionLoop) (a : Action) : Prop :=
  a = .tick → ∀ i rest, s.todo = i :: rest → i.Accesses → 1 ≤ s.count

/-- The references in user code and in functors. -/
def held (s : ConnectionLoop) : ℕ := s.users + refs s.pending + s.batchRefs

/-- The references that the handler in progress does not take away. -/
def lasting (s : ConnectionLoop) : ℕ :=
  s.held + if s.registry ∧ ¬ s.todo.any Statement.closes then 1 else 0

/-- Besides the registry somebody holds the connection when its end of file is read, a send functor
finds a holder, and while a handler runs nobody drops the last reference that it leaves. -/
def Retained (s : ConnectionLoop) : Action → Prop
  | .dispatch which r _ => which.read = true → r = .data [] → 1 ≤ s.held
  | .runFunctor _ =>
    match s.batch with
    | .send _ :: _ => s.registry = true ∨ 1 ≤ s.held
    | _ => True
  | .drop => s.todo = [] ∨ 2 ≤ s.lasting
  | _ => True

instance (s : ConnectionLoop) (a : Action) : Decidable (s.Retained a) :=
  match a with
  | .dispatch _ _ _ => inferInstanceAs (Decidable (_ → _ → _))
  | .drop => inferInstanceAs (Decidable (_ ∨ _))
  | .runFunctor _ =>
    match h : s.batch with
    | .send _ :: _ =>
      decidable_of_iff (s.registry = true ∨ 1 ≤ s.held) (by rw [Retained, h])
    | [] | .start :: _ | .handleClose :: _ => isTrue (by rw [Retained, h]; trivial)
  | .sendChecked _ | .sendPosted _ | .close | .hold | .tick | .beginBatch | .endBatch => isTrue trivial

/-- While the start functor waits, it is the first one and nothing else has happened. -/
structure Unstarted (s : ConnectionLoop) : Prop where
  first : ∃ rest, s.batch ++ s.pending = .start :: rest ∧ .start ∉ rest
  registry : s.registry = true
  todo : s.todo = []
  registered : s.registered = Interest.none
  connected : s.conn.status = .Connected

structure Consistent (s : ConnectionLoop) : Prop where
  unstarted : .start ∈ s.batch ++ s.pending → s.Unstarted
  idle : s.running = false → s.batch = [] ∧ s.batchRefs = 0
  batchRefs : refs s.batch ≤ s.batchRefs

theorem init_consistent : init.Consistent where
  unstarted _ := ⟨⟨[], rfl, List.not_mem_nil⟩, rfl, rfl, rfl, rfl⟩
  idle _ := ⟨rfl, rfl⟩
  batchRefs := le_rfl

variable {s s' : ConnectionLoop}

theorem refs_append (functors functors' : List ConnFunctor) :
    refs (functors ++ functors') = refs functors + refs functors' := List.countP_append

/-! ## Statements -/

theorem exec_frame {i : Statement} (h : s.exec i = some s') :
    s'.batch = s.batch ∧ s'.pending = s.pending ∧ s'.running = s.running ∧
      s'.batchRefs = s.batchRefs := by
  obtain ⟨conn, todo, rfl⟩ | ⟨-, rfl⟩ | ⟨-, rfl⟩ | ⟨-, rfl⟩ | ⟨-, rfl⟩ := exec_cases h <;>
    exact ⟨rfl, rfl, rfl, rfl⟩

/-- The temporaries of the handler, with those that are still to come, are all released by it. -/
theorem exec_temps {i : Statement} (h : s.exec i = some s') :
    s'.todo.foldl Statement.temps s'.temps = s.todo.foldl Statement.temps (i.temps s.temps) := by
  cases i with
  | handleRead r =>
      rcases r with _ | _ | ⟨x, bytes⟩ <;>
      · cases h
        rfl
  | handleWrite w =>
      obtain ⟨len, conn, -, rfl⟩ := exec_handleWrite h
      dsimp only
      split <;> rfl
  | directWrite buf w =>
      obtain ⟨remaining, buf', conn, -, rfl⟩ := exec_directWrite h
      rfl
  | queueRest buf remaining =>
      obtain ⟨conn, -, rfl⟩ := exec_queueRest h
      rfl
  | _ =>
      cases h
      rfl

theorem exec_held {s s' : ConnectionLoop} {i : Statement} (h : s.exec i = some s') :
    s'.held = s.held := by
  obtain ⟨conn, todo, rfl⟩ | ⟨-, rfl⟩ | ⟨-, rfl⟩ | ⟨-, rfl⟩ | ⟨-, rfl⟩ := exec_cases h <;> rfl

/-- Only the close callback touches the registry, and only an end of file leads to it. -/
theorem exec_closes {i : Statement} (h : s.exec i = some s') (hi : i.closes = false) :
    s'.registry = s.registry ∧ s'.todo.any Statement.closes = s.todo.any Statement.closes := by
  cases i with
  | handleRead r =>
      rcases r with _ | _ | ⟨x, bytes⟩
      · cases h
        exact ⟨rfl, rfl⟩
      · cases hi
      · cases h
        exact ⟨rfl, rfl⟩
  | closeCb => cases hi
  | handleWrite w =>
      obtain ⟨len, conn, -, rfl⟩ := exec_handleWrite h
      dsimp only
      split <;> exact ⟨rfl, rfl⟩
  | directWrite buf w =>
      obtain ⟨remaining, buf', conn, -, rfl⟩ := exec_directWrite h
      exact ⟨rfl, rfl⟩
  | queueRest buf remaining =>
      obtain ⟨conn, -, rfl⟩ := exec_queueRest h
      exact ⟨rfl, rfl⟩
  | _ =>
      cases h
      exact ⟨rfl, rfl⟩

/-- What outlasts a handler outlasts each of its statements. -/
theorem exec_lasting {i : Statement} {rest : List Statement} (htodo : s.todo = i :: rest)
    (h : { s with todo := rest : ConnectionLoop }.exec i = some s') : s.lasting ≤ s'.lasting := by
  have hheld : s'.held = s.held := (exec_held h).trans rfl
  rw [lasting, lasting, hheld, htodo, List.any_cons]
  cases hi : i.closes with
  | true => simp
  | false =>
      obtain ⟨hregistry, hcloses⟩ := exec_closes h hi
      rw [hregistry, hcloses, Bool.false_or]

/-! ## Consistency -/

theorem Unstarted.of_append {s t : ConnectionLoop} (h : s.Unstarted) {f : ConnFunctor}
    (hf : f ≠ .start) (hqueue : t.batch ++ t.pending = s.batch ++ s.pending ++ [f])
    (hregistry : t.registry = s.registry) (htodo : t.todo = s.todo) (hconn : t.conn = s.conn) :
    t.Unstarted where
  first := by
    obtain ⟨rest, hfirst, hrest⟩ := h.first
    refine ⟨rest ++ [f], by rw [hqueue, hfirst]; rfl, ?_⟩
    intro hmem
    rcases List.mem_append.mp hmem with hmem | hmem
    · exact hrest hmem
    · exact hf (List.mem_singleton.mp hmem).symm
  registry := hregistry.trans h.registry
  todo := htodo.trans h.todo
  registered := (congrArg (·.watcher.registered) hconn).trans h.registered
  connected := (congrArg (·.status) hconn).trans h.connected

theorem call_consistent (h : s.Consistent) (users : ℕ) (sending : List Buffer) :
    ({ s with users, sending } : ConnectionLoop).Consistent where
  unstarted hmem := by
    have hold := h.unstarted hmem
    exact ⟨hold.first, hold.registry, hold.todo, hold.registered, hold.connected⟩
  idle := h.idle
  batchRefs := h.batchRefs

theorem post_consistent (h : s.Consistent) {f : ConnFunctor} (hf : f ≠ .start)
    (sending : List Buffer) :
    ({ s with sending, pending := s.pending ++ [f] } : ConnectionLoop).Consistent where
  unstarted hmem := by
    have hold : .start ∈ s.batch ++ s.pending := by
      rcases List.mem_append.mp hmem with hmem | hmem
      · exact List.mem_append_left _ hmem
      · rcases List.mem_append.mp hmem with hmem | hmem
        · exact List.mem_append_right _ hmem
        · exact absurd (List.mem_singleton.mp hmem).symm hf
    exact (h.unstarted hold).of_append hf (List.append_assoc ..).symm rfl rfl rfl
  idle := h.idle
  batchRefs := h.batchRefs

theorem start_not_mem_rest (h : s.Consistent) {f : ConnFunctor} {rest : List ConnFunctor}
    (hbatch : s.batch = f :: rest) : .start ∉ rest ++ s.pending := by
  intro hmem
  have hqueue : .start ∈ s.batch ++ s.pending := by
    rw [hbatch]
    exact List.mem_cons_of_mem f hmem
  obtain ⟨rest', hfirst, hrest'⟩ := (h.unstarted hqueue).first
  rw [hbatch, List.cons_append] at hfirst
  rw [(List.cons.inj hfirst).2] at hmem
  exact hrest' hmem

theorem step_consistent {a : Action} (h : s.Consistent) (hs' : step s a = some s') :
    s'.Consistent := by
  cases step_cases hs' with
  | sendPosted i buf hbuf => exact post_consistent h (fun hf => by cases hf) _
  | close => exact post_consistent h (fun hf => by cases hf) _
  | dispatch which r w htodo hcount hne hwithin =>
      refine ⟨fun hmem => ?_, h.idle, h.batchRefs⟩
      -- nothing is registered before the start
      rw [(h.unstarted hmem).registered] at hwithin
      exact absurd (Interest.eq_none_of_within hwithin) hne
  | beginBatch htodo hrunning =>
      have hbatch := (h.idle hrunning).1
      refine ⟨fun hmem => ?_, fun hrun => (by cases hrun), le_rfl⟩
      rw [List.append_nil] at hmem
      have hold := h.unstarted (List.mem_append_right s.batch hmem)
      obtain ⟨rest, hfirst, hrest⟩ := hold.first
      rw [hbatch, List.nil_append] at hfirst
      exact ⟨⟨rest, by rw [List.append_nil, hfirst], hrest⟩, hold.registry, hold.todo,
        hold.registered, hold.connected⟩
  | runFunctor w f rest htodo hrunning hbatch =>
      refine ⟨fun hmem => absurd hmem (start_not_mem_rest h hbatch), fun hrun => ?_, ?_⟩
      · rw [hrunning] at hrun
        cases hrun
      · have hle := h.batchRefs
        rw [hbatch, ← List.singleton_append, refs_append] at hle
        exact le_of_add_le_right hle
  | endBatch htodo hbatch =>
      refine ⟨fun hmem => ?_, fun _ => ⟨hbatch, rfl⟩, by rw [hbatch]; exact le_rfl⟩
      have hold := h.unstarted hmem
      exact ⟨hold.first, hold.registry, hold.todo, hold.registered, hold.connected⟩
  | tick i rest _ htodo hexec =>
      obtain ⟨hbatch, hpending, hrunning, hrefs⟩ := exec_frame hexec
      refine ⟨fun hmem => ?_, ?_, ?_⟩
      · rw [hbatch, hpending] at hmem
        have hnil := (h.unstarted hmem).todo
        rw [htodo] at hnil
        cases hnil
      · rw [hbatch, hrunning, hrefs]
        exact h.idle
      · rw [hbatch, hrefs]
        exact h.batchRefs
  | _ => exact call_consistent h _ _

/-! ## Ownership -/

theorem lasting_le_count : s.lasting ≤ s.count := by
  have hregistry : (if s.registry ∧ ¬ s.todo.any Statement.closes then 1 else 0) ≤
      s.registry.toNat := by
    split_ifs with h
    · rw [h.1]
      rfl
    · exact Nat.zero_le _
  rw [lasting, held, count]
  omega

/-- Somebody holds the connection until the handler in progress is done, and no temporary is left
when none is. -/
structure Owned (s : ConnectionLoop) : Prop where
  consistent : s.Consistent
  temps : s.todo.foldl Statement.temps s.temps = 0
  owned : s.todo ≠ [] → 1 ≤ s.lasting

theorem init_owned : init.Owned := ⟨init_consistent, rfl, fun h => absurd rfl h⟩

theorem Owned.count_pos (h : s.Owned) {i : Statement} {rest : List Statement}
    (htodo : s.todo = i :: rest) : 1 ≤ s.count := by
  have hne : s.todo ≠ [] := by
    rw [htodo]
    exact List.cons_ne_nil i rest
  exact (h.owned hne).trans lasting_le_count

theorem lasting_of_registry (hregistry : s.registry = true)
    (hcloses : s.todo.any Statement.closes = false) : 1 ≤ s.lasting := by
  rw [lasting, if_pos ⟨hregistry, by rw [hcloses]; exact Bool.false_ne_true⟩]
  exact Nat.le_add_left 1 _

theorem lasting_of_held (h : 1 ≤ s.held) : 1 ≤ s.lasting := h.trans (Nat.le_add_right _ _)

theorem Owned.held_of_count (h : s.Owned) (htodo : s.todo = []) (hcount : 1 ≤ s.count) :
    s.registry = true ∨ 1 ≤ s.held := by
  have htemps := h.temps
  rw [htodo, List.foldl_nil] at htemps
  cases hregistry : s.registry with
  | true => exact .inl rfl
  | false =>
      rw [count, htemps, hregistry, Bool.toNat_false] at hcount
      rw [held]
      omega

theorem temps_handle (which : Interest) (r : ReadResult) (w : WriteResult) (n : ℕ) :
    (handle which r w).foldl Statement.temps n = n := by
  obtain ⟨read, write⟩ := which
  cases read <;> cases write <;> rfl

theorem temps_functorProgram (w : WriteResult) (f : ConnFunctor) (n : ℕ) :
    (functorProgram w f).foldl Statement.temps n = n := by
  cases f <;> rfl

theorem dispatch_lasting {which : Interest} {r : ReadResult} (w : WriteResult)
    (hheld : s.registry = true ∨ 1 ≤ s.held)
    (heof : which.read = true → r = .data [] → 1 ≤ s.held) :
    1 ≤ ({ s with todo := handle which r w } : ConnectionLoop).lasting := by
  by_cases hend : which.read = true ∧ r = .data []
  · exact lasting_of_held (heof hend.1 hend.2)
  · rcases hheld with hregistry | hheld
    · refine lasting_of_registry hregistry ?_
      obtain ⟨read, write⟩ := which
      rcases r with _ | _ | ⟨x, bytes⟩ <;> cases read <;> cases write <;> first
        | rfl
        | exact absurd ⟨rfl, rfl⟩ hend
    · exact lasting_of_held hheld

theorem functor_lasting (h : s.Consistent) {w : WriteResult} (hretained : s.Retained (.runFunctor w))
    {f : ConnFunctor} {rest : List ConnFunctor} (hbatch : s.batch = f :: rest) :
    1 ≤ ({ s with batch := rest, todo := functorProgram w f } : ConnectionLoop).lasting := by
  cases f with
  | start =>
      have hmem : .start ∈ s.batch ++ s.pending := by
        rw [hbatch]
        exact List.mem_cons_self
      exact lasting_of_registry (h.unstarted hmem).registry rfl
  | send buf =>
      rw [Retained, hbatch] at hretained
      rcases hretained with hregistry | hheld
      · exact lasting_of_registry hregistry rfl
      · exact lasting_of_held hheld
  | handleClose =>
      -- the functor itself holds a reference until its batch is destroyed
      have hle := h.batchRefs
      rw [hbatch, ← List.singleton_append, refs_append] at hle
      have hone : refs [.handleClose] = 1 := rfl
      refine lasting_of_held ?_
      rw [held]
      dsimp only
      omega

theorem step_owned {a : Action} (h : s.Owned) (hretained : s.Retained a)
    (hs' : step s a = some s') : s'.Owned := by
  have hconsistent := step_consistent h.consistent hs'
  have hpost (f : ConnFunctor) : refs s.pending ≤ refs (s.pending ++ [f]) := by
    rw [refs_append]
    exact Nat.le_add_right _ _
  cases step_cases hs' with
  | sendChecked buf => exact ⟨hconsistent, h.temps, h.owned⟩
  | sendPosted i buf hbuf =>
      refine ⟨hconsistent, h.temps, fun hne => (h.owned hne).trans ?_⟩
      have hle := hpost (.send buf)
      simp only [lasting, held]
      omega
  | close =>
      refine ⟨hconsistent, h.temps, fun hne => (h.owned hne).trans ?_⟩
      have hle := hpost .handleClose
      simp only [lasting, held]
      omega
  | hold =>
      refine ⟨hconsistent, h.temps, fun hne => (h.owned hne).trans ?_⟩
      simp only [lasting, held]
      omega
  | drop husers =>
      refine ⟨hconsistent, h.temps, fun hne => ?_⟩
      have htwo := hretained.resolve_left hne
      simp only [lasting, held] at htwo ⊢
      omega
  | dispatch which r w htodo hcount =>
      have htemps := h.temps
      rw [htodo, List.foldl_nil] at htemps
      exact ⟨hconsistent, (temps_handle which r w _).trans htemps,
        fun _ => dispatch_lasting w (h.held_of_count htodo hcount) hretained⟩
  | beginBatch htodo => exact ⟨hconsistent, h.temps, fun hne => absurd htodo hne⟩
  | runFunctor w f rest htodo hrunning hbatch =>
      have htemps := h.temps
      rw [htodo, List.foldl_nil] at htemps
      exact ⟨hconsistent, (temps_functorProgram w f _).trans htemps,
        fun _ => functor_lasting h.consistent hretained hbatch⟩
  | endBatch htodo => exact ⟨hconsistent, h.temps, fun hne => absurd htodo hne⟩
  | tick i rest _ htodo hexec =>
      have htemps := h.temps
      rw [htodo, List.foldl_cons] at htemps
      have hne : s.todo ≠ [] := by
        rw [htodo]
        exact List.cons_ne_nil i rest
      exact ⟨hconsistent, (exec_temps hexec).trans htemps,
        fun _ => (h.owned hne).trans (exec_lasting htodo hexec)⟩

/-- Over every run: if somebody besides the registry holds the connection whenever the end of file
is read, and keeps it while a handler runs, and every send functor finds a holder, then every
statement that accesses the connection or its watcher is executed while the count is positive. -/
theorem accesses_are_owned (acts : List Action) (h : Along step Retained init acts) :
    Along step OwnedAccess init acts := by
  refine along_of_along (fun _ _ _ => step_owned) ?_ init_owned h
  rintro s a howned - - i rest htodo -
  exact howned.count_pos htodo

/-- The connection is started, and `HandleRead` reads the end of file. -/
def peerCloses (callback : List Action) : List Action :=
  [.beginBatch, .runFunctor .error, .tick, .tick] ++ callback ++
    [.tick, .endBatch, .dispatch ⟨true, false⟩ (.data []) .error, .tick, .tick, .tick, .tick]

theorem peer_close_accesses_held :
    Along step OwnedAccess init (peerCloses [.hold] ++ [.tick]) :=
  accesses_are_owned (peerCloses [.hold] ++ [.tick]) (by decide)

/-- Without one: after the callback has dropped the registry entry and the temporary is gone,
`HandleClose` writes `status_` of a destroyed connection. -/
theorem peer_close_accesses_destroyed :
    ¬ Along step OwnedAccess init (peerCloses [] ++ [.tick]) := by
  intro h
  have hbad := h.of_append rfl rfl .setDisconnected [] rfl trivial
  exact absurd hbad (by decide)

end ConnectionLoop
end TinyGameServer
