import Mathlib.Data.Int.Notation
import Mathlib.Data.List.Nodup
import TinyGameServer.Transitions

/-!
# What the connector hands over

`Connect` stores its descriptor in `fd_` and queues a functor on the loop, which passes `fd_` to
the callback and resets it. The queue of the loop also has functors of others. `opened` and
`passed` list the descriptors of the `Connect` calls and those that the callback has been given,
one for each functor that has run. `socket` returns no descriptor that is still waiting to be
passed, since nobody has closed it.
-/

namespace TinyGameServer

inductive ConnectorFunctor where
  | newConnection
  | other
  deriving DecidableEq

structure TCPConnector where
  fd : ℤ
  pending : List ConnectorFunctor
  opened : List ℤ
  passed : List ℤ

namespace TCPConnector

def init : TCPConnector := { fd := -1, pending := [], opened := [], passed := [] }

/-- The descriptors of the `Connect` calls whose functors have not run. -/
def waiting (s : TCPConnector) : List ℤ := s.opened.drop s.passed.length

def connect (s : TCPConnector) (fd : ℤ) : TCPConnector :=
  { s with fd, pending := s.pending ++ [.newConnection], opened := s.opened ++ [fd] }

/-- The functor passes `fd_` on and resets it. -/
def newConnection (s : TCPConnector) : TCPConnector :=
  { s with passed := s.passed ++ [s.fd], fd := -1 }

def runFunctor (s : TCPConnector) : Option TCPConnector :=
  match s.pending with
  | [] => none
  | .newConnection :: rest => some { s with pending := rest : TCPConnector }.newConnection
  | .other :: rest => some { s with pending := rest }

inductive Action where
  | connect (fd : ℤ)
  /-- Somebody else's `AsyncCall`. -/
  | asyncCall
  | runFunctor
  deriving DecidableEq

def step (s : TCPConnector) : Action → Option TCPConnector
  | .connect fd => if 0 ≤ fd ∧ fd ∉ s.waiting then some (s.connect fd) else none
  | .asyncCall => some { s with pending := s.pending ++ [.other] }
  | .runFunctor => s.runFunctor

/-- The descriptors passed are those of the first `Connect` calls, as many as functors have run,
and -1 is not among them. -/
def Exact (s : TCPConnector) : Prop := s.passed <+: s.opened ∧ -1 ∉ s.passed

def StepExact (s : TCPConnector) (a : Action) : Prop := ∀ s', step s a = some s' → s'.Exact

/-- When a functor of `Connect` runs, no other one is queued behind it. -/
def Alone (s : TCPConnector) (a : Action) : Prop :=
  a = .runFunctor → s.pending.head? = some .newConnection → s.pending.count .newConnection = 1

/-! ## What an action does -/

inductive Step (s : TCPConnector) : Action → TCPConnector → Prop
  | connect (fd : ℤ) (hfd : 0 ≤ fd) (hfresh : fd ∉ s.waiting) : Step s (.connect fd) (s.connect fd)
  | asyncCall : Step s .asyncCall { s with pending := s.pending ++ [.other] }
  | newConnection (rest : List ConnectorFunctor) (hqueue : s.pending = .newConnection :: rest) :
      Step s .runFunctor { s with pending := rest : TCPConnector }.newConnection
  | other (rest : List ConnectorFunctor) (hqueue : s.pending = .other :: rest) :
      Step s .runFunctor { s with pending := rest }

variable {s s' : TCPConnector}

theorem step_cases {a : Action} (h : step s a = some s') : Step s a s' := by
  cases a with
  | connect fd =>
      rw [step] at h
      split_ifs at h with hfresh
      cases h
      exact .connect fd hfresh.1 hfresh.2
  | asyncCall =>
      cases h
      exact .asyncCall
  | runFunctor =>
      rw [step, runFunctor] at h
      split at h
      · cases h
      · rename_i rest hqueue
        cases h
        exact .newConnection rest hqueue
      · rename_i rest hqueue
        cases h
        exact .other rest hqueue

/-! ## The descriptor in between -/

/-- `fd_` is the last descriptor that waits, and each queued functor of `Connect` has one. -/
structure Tracks (s : TCPConnector) : Prop where
  opened : s.opened = s.passed ++ s.waiting
  count : s.pending.count .newConnection = s.waiting.length
  fd : s.fd = s.waiting.getLast?.getD (-1)
  nodup : s.waiting.Nodup
  valid : ∀ fd ∈ s.opened, 0 ≤ fd

theorem init_tracks : init.Tracks :=
  ⟨rfl, rfl, rfl, List.nodup_nil, fun _ hfd => absurd hfd List.not_mem_nil⟩

theorem Tracks.exact (h : s.Tracks) : s.Exact := by
  have hfirst : s.passed <+: s.opened := ⟨s.waiting, h.opened.symm⟩
  refine ⟨hfirst, fun hmem => ?_⟩
  exact absurd (h.valid _ (hfirst.subset hmem)) (by decide)

theorem Tracks.waiting_connect (h : s.Tracks) (fd : ℤ) :
    (s.connect fd).waiting = s.waiting ++ [fd] := by
  change (s.opened ++ [fd]).drop s.passed.length = _
  rw [h.opened, List.append_assoc, List.drop_left]

theorem Tracks.connect (h : s.Tracks) {fd : ℤ} (hfd : 0 ≤ fd) (hfresh : fd ∉ s.waiting) :
    (s.connect fd).Tracks := by
  have hwaiting := h.waiting_connect fd
  refine ⟨?_, ?_, ?_, ?_, ?_⟩
  · rw [hwaiting, ← List.append_assoc]
    exact congrArg (· ++ [fd]) h.opened
  · rw [hwaiting, List.length_append, ← h.count]
    exact List.count_append
  · rw [hwaiting, List.getLast?_concat]
    rfl
  · rw [hwaiting]
    exact List.nodup_append_comm.mp (List.nodup_cons.mpr ⟨hfresh, h.nodup⟩)
  · intro g hg
    rcases List.mem_append.mp hg with hold | hnew
    · exact h.valid g hold
    · rw [List.mem_singleton.mp hnew]
      exact hfd

theorem Tracks.of_pending (h : s.Tracks) {pending : List ConnectorFunctor}
    (hcount : pending.count .newConnection = s.pending.count .newConnection) :
    { s with pending : TCPConnector }.Tracks :=
  ⟨h.opened, hcount.trans h.count, h.fd, h.nodup, h.valid⟩

theorem getLast_eq_first_iff {first : ℤ} {others : List ℤ} (hnodup : (first :: others).Nodup) :
    (first :: others).getLast?.getD (-1) = first ↔ others = [] := by
  constructor
  · intro hlast
    cases others with
    | nil => rfl
    | cons second others =>
        rw [List.getLast?_cons_cons, List.getLast?_eq_some_getLast (List.cons_ne_nil _ _),
          Option.getD_some] at hlast
        have hagain := List.getLast_mem (List.cons_ne_nil second others)
        rw [hlast] at hagain
        exact absurd hagain (List.nodup_cons.mp hnodup).1
  · rintro rfl
    rfl

/-- The functor passes the last waiting descriptor on, which is the first one only if no other
one waits. -/
theorem Tracks.newConnection_iff (h : s.Tracks) {rest : List ConnectorFunctor}
    (hqueue : s.pending = .newConnection :: rest) :
    { s with pending := rest : TCPConnector }.newConnection.Exact ↔
      s.pending.count .newConnection = 1 := by
  have hopened := h.opened
  have hcount := h.count
  have hfd := h.fd
  have hnodup := h.nodup
  change s.passed ++ [s.fd] <+: s.opened ∧ -1 ∉ s.passed ++ [s.fd] ↔ _
  cases hwaiting : s.waiting with
  | nil =>
      rw [hwaiting, hqueue, List.count_cons_self] at hcount
      cases hcount
  | cons first others =>
      rw [hwaiting] at hopened hcount hfd hnodup
      have hfirst : s.passed ++ [s.fd] <+: s.opened ↔ s.fd = first := by
        rw [hopened, List.prefix_append_right_inj, List.cons_prefix_cons]
        exact and_iff_left List.nil_prefix
      have hone : s.pending.count .newConnection = 1 ↔ s.fd = first := by
        rw [hcount, List.length_cons, Nat.add_eq_right, List.length_eq_zero_iff, hfd,
          getLast_eq_first_iff hnodup]
      rw [hone, hfirst]
      refine and_iff_left_of_imp fun heq hmem => ?_
      have hvalid := h.valid _ ((hfirst.mpr heq).subset hmem)
      exact absurd hvalid (by decide)

theorem Tracks.newConnection (h : s.Tracks) {rest : List ConnectorFunctor}
    (hqueue : s.pending = .newConnection :: rest) (hone : s.pending.count .newConnection = 1) :
    { s with pending := rest : TCPConnector }.newConnection.Tracks := by
  have hone' := hone
  rw [h.count, List.length_eq_one_iff] at hone'
  obtain ⟨first, hwaiting⟩ := hone'
  have hopened := h.opened
  have hfd := h.fd
  rw [hwaiting] at hopened hfd
  have hempty : { s with pending := rest : TCPConnector }.newConnection.waiting = [] := by
    change s.opened.drop (s.passed ++ [s.fd]).length = []
    rw [hopened, List.drop_of_length_le]
    rw [List.length_append, List.length_append]
    exact Nat.le_refl _
  refine ⟨?_, ?_, ?_, ?_, h.valid⟩
  · rw [hempty, List.append_nil, hopened]
    change _ = s.passed ++ [s.fd]
    rw [hfd]
    rfl
  · rw [hempty]
    rw [hqueue, List.count_cons_self] at hone
    exact Nat.succ.inj hone
  · rw [hempty]
    rfl
  · rw [hempty]
    exact List.nodup_nil

theorem step_tracks {a : Action} (h : s.Tracks) (halone : s.Alone a) (hs' : step s a = some s') :
    s'.Tracks := by
  cases step_cases hs' with
  | connect fd hfd hfresh => exact h.connect hfd hfresh
  | asyncCall => exact h.of_pending (by simp)
  | newConnection rest hqueue => exact h.newConnection hqueue (halone rfl (by rw [hqueue]; rfl))
  | other rest hqueue =>
      apply h.of_pending
      rw [hqueue]
      rfl

theorem stepExact_iff {a : Action} (h : s.Tracks) : s.StepExact a ↔ s.Alone a := by
  constructor
  · rintro hexact rfl hhead
    obtain ⟨rest, hqueue⟩ := List.head?_eq_some_iff.mp hhead
    apply (h.newConnection_iff hqueue).mp
    apply hexact
    rw [step, runFunctor, hqueue]
  · intro halone s' hs'
    exact (step_tracks h halone hs').exact

/-- Over every run of `Connect` calls and functors: in every state the descriptors passed are
those of the calls whose functors have run, in order, if and only if every functor of `Connect`
runs when no later one is queued. -/
theorem handed_over_iff (acts : List Action) :
    (init.Exact ∧ Along step StepExact init acts) ↔ Along step Alone init acts := by
  have hrun : Along step StepExact init acts ↔ Along step Alone init acts :=
    along_iff (fun _ _ => stepExact_iff) (fun _ _ _ => step_tracks) init_tracks acts
  exact ⟨fun h => hrun.mp h.2, fun h => ⟨init_tracks.exact, hrun.mpr h⟩⟩

/-- Two calls before the loop runs: the first functor passes the second descriptor. -/
theorem second_connect_overwrites :
    ¬ (init.Exact ∧ Along step StepExact init [.connect 7, .connect 8, .runFunctor]) := by
  rintro ⟨-, -, h⟩
  obtain ⟨-, h⟩ := h _ rfl
  obtain ⟨hexact, -⟩ := h _ rfl
  have hfirst := (hexact _ rfl).1
  exact absurd hfirst (by decide)

end TCPConnector
end TinyGameServer
