import Mathlib.Data.Int.Notation
import Mathlib.Data.List.Induction
import Mathlib.Tactic.SplitIfs
import TinyGameServer.WatcherInterest

/-!
# When does the acceptor listen?

`Accept` replaces the watcher of the listening socket and queues a functor on the loop that starts
the watcher; `Stop` disables it at once. Nothing takes a queued functor back, and it starts the
watcher that is there when it runs, so several calls of `Accept` and `Stop` can overtake each
other. A null watcher, a functor that runs after the destructor and calls that libevent does not
allow are undefined.
-/

namespace TinyGameServer

/-- `pending` counts the functors of `Accept` that have not run. `passed` lists what the callback
has been given, `leaked` the descriptors that nobody has been given. -/
structure TCPAcceptor where
  fdWatcher : Option FdWatcher
  newConnectionCb : Bool
  alive : Bool
  pending : ℕ
  passed : List (ℤ × String)
  leaked : List ℤ

namespace TCPAcceptor

def init : TCPAcceptor where
  fdWatcher := none
  newConnectionCb := false
  alive := true
  pending := 0
  passed := []
  leaked := []

def reading : Interest := ⟨true, false⟩

/-- The last reference to a watcher goes away. -/
def release : Option FdWatcher → Option Unit
  | none => some ()
  | some w => if w.destroy = .misused then none else some ()

def accept (s : TCPAcceptor) : Option TCPAcceptor := do
  release s.fdWatcher
  return { s with fdWatcher := some (.new reading), pending := s.pending + 1 }

def stop (s : TCPAcceptor) : Option TCPAcceptor := do
  let w ← s.fdWatcher
  if w.disableAllEvent.event = .misused then none
  else return { s with fdWatcher := some w.disableAllEvent }

def runFunctor (s : TCPAcceptor) : Option TCPAcceptor := do
  let w ← s.fdWatcher
  if s.pending = 0 ∨ w.start.event = .misused then none
  else return { s with fdWatcher := some w.start, pending := s.pending - 1 }

/-- `HandleAccept` with the descriptor and the address that `accept` returns. -/
def handleAccept (s : TCPAcceptor) (nfd : ℤ) (addr : String) : TCPAcceptor :=
  if nfd = -1 then s
  else if s.newConnectionCb then { s with passed := s.passed ++ [(nfd, addr)] }
  else { s with leaked := s.leaked ++ [nfd] }

def destroy (s : TCPAcceptor) : Option TCPAcceptor := do
  release s.fdWatcher
  return { s with fdWatcher := none, alive := false }

def Listening (s : TCPAcceptor) : Prop := ∃ w, s.fdWatcher = some w ∧ w.registered.read = true

instance (s : TCPAcceptor) : Decidable s.Listening :=
  match h : s.fdWatcher with
  | none => isFalse fun ⟨_, hw, _⟩ => by
      rw [h] at hw
      cases hw
  | some w => decidable_of_iff (w.registered.read = true)
      ⟨fun hread => ⟨w, h, hread⟩, fun ⟨_, hw, hread⟩ => by
        rw [h] at hw
        cases hw
        exact hread⟩

inductive Action where
  | setNewConnectionCallBack
  | accept
  | stop
  | runFunctor
  /-- A connection that waits on the socket, with what `accept` returns for it. -/
  | readable (nfd : ℤ) (addr : String)
  | destroy
  deriving DecidableEq

def perform (s : TCPAcceptor) : Action → Option TCPAcceptor
  | .setNewConnectionCallBack => some { s with newConnectionCb := true }
  | .accept => s.accept
  | .stop => s.stop
  | .runFunctor => s.runFunctor
  | .readable nfd addr => if s.Listening then some (s.handleAccept nfd addr) else none
  | .destroy => s.destroy

/-- Nobody calls a member function after the destructor. -/
def step (s : TCPAcceptor) (a : Action) : Option TCPAcceptor :=
  if s.alive then s.perform a else none

/-! ## What a run has done -/

def sinceAccept (acts : List Action) : Option (List Action) :=
  acts.foldl (fun since a => if a = .accept then some [] else since.map (· ++ [a])) none

@[simp] theorem sinceAccept_nil : sinceAccept [] = none := rfl

theorem sinceAccept_accept (acts : List Action) : sinceAccept (acts ++ [.accept]) = some [] := by
  rw [sinceAccept, List.foldl_append, List.foldl_cons, List.foldl_nil, if_pos rfl]

theorem sinceAccept_concat (acts : List Action) {a : Action} (ha : a ≠ .accept) :
    sinceAccept (acts ++ [a]) = (sinceAccept acts).map (· ++ [a]) := by
  rw [sinceAccept, List.foldl_append, List.foldl_cons, List.foldl_nil, if_neg ha]
  rfl

theorem count_accept_eq_zero {acts : List Action} (h : sinceAccept acts = none) :
    acts.count .accept = 0 := by
  induction acts using List.reverseRecOn with
  | nil => rfl
  | append_singleton acts a ih =>
      by_cases ha : a = .accept
      · subst ha
        rw [sinceAccept_accept] at h
        cases h
      · rw [sinceAccept_concat acts ha, Option.map_eq_none_iff] at h
        rw [List.count_append, ih h, List.count_singleton]
        simpa using ha

/-- A functor has run since the last `Accept`. -/
def Started (acts : List Action) : Prop :=
  .destroy ∉ acts ∧ ∃ since, sinceAccept acts = some since ∧ .runFunctor ∈ since

/-- A functor has run since the last `Accept`, and `Stop` has not been called since. -/
def Listens (acts : List Action) : Prop :=
  .destroy ∉ acts ∧ ∃ since, sinceAccept acts = some since ∧ .runFunctor ∈ since ∧ .stop ∉ since

def Allowed (acts : List Action) : Action → Prop
  | .stop => Started acts
  | .runFunctor => .destroy ∉ acts ∧ acts.count .runFunctor < acts.count .accept
  | .readable _ _ => Listens acts
  | _ => .destroy ∉ acts

/-! ## The watcher since the last Accept -/

structure Watches (since : List Action) (w : FdWatcher) : Prop where
  phase : w.Phase
  started : w.added = true ↔ .runFunctor ∈ since
  reads : w.evType.read = true ↔ .stop ∉ since

variable {since : List Action} {w : FdWatcher}

theorem watches_new : Watches [] (.new reading) where
  phase := .fresh reading
  started := by simp [FdWatcher.new]
  reads := by simp [FdWatcher.new, reading]

theorem start_phase (h : w.Phase) : w.start.Phase := by
  have hstart : w.start = _ := h.start w.evType
  rw [hstart]
  exact .live w.evType

theorem disableAllEvent_allowed_iff (h : w.Phase) :
    w.disableAllEvent.event ≠ .misused ↔ w.added = true := by
  cases h with
  | fresh evType => exact iff_of_false (fun hne => hne rfl) Bool.false_ne_true
  | live evType => exact iff_of_true (by rintro ⟨⟩) rfl
  | idle interest => exact iff_of_true (by rintro ⟨⟩) rfl

theorem registered_read_iff (h : w.Phase) :
    w.registered.read = true ↔ w.added = true ∧ w.evType.read = true := by
  cases h with
  | fresh evType => simp [FdWatcher.registered, EventRecord.registered, Interest.none]
  | live evType => simp [FdWatcher.registered, EventRecord.registered]
  | idle interest => simp [FdWatcher.registered, EventRecord.registered, Interest.none]

theorem Watches.start (h : Watches since w) : Watches (since ++ [.runFunctor]) w.start where
  phase := start_phase h.phase
  started := iff_of_true rfl List.mem_concat_self
  reads := by
    change w.evType.read = true ↔ _
    rw [h.reads]
    simp

theorem Watches.stop (h : Watches since w) (hadded : w.added = true) :
    Watches (since ++ [.stop]) w.disableAllEvent where
  phase := (h.phase.disableAllEvent hadded).1
  started := by
    change w.added = true ↔ _
    rw [h.started]
    simp
  reads := by simp [FdWatcher.disableAllEvent, Interest.none]

theorem Watches.other (h : Watches since w) {a : Action} (hrun : a ≠ .runFunctor)
    (hstop : a ≠ .stop) : Watches (since ++ [a]) w where
  phase := h.phase
  started := by
    rw [h.started]
    simp [hrun.symm]
  reads := by
    rw [h.reads]
    simp [hstop.symm]

/-! ## What an action does -/

inductive Step (s : TCPAcceptor) : Action → TCPAcceptor → Prop
  | setNewConnectionCallBack : Step s .setNewConnectionCallBack { s with newConnectionCb := true }
  | accept : Step s .accept
      { s with fdWatcher := some (.new reading), pending := s.pending + 1 }
  | stop (w : FdWatcher) (hw : s.fdWatcher = some w)
      (hallowed : w.disableAllEvent.event ≠ .misused) :
      Step s .stop { s with fdWatcher := some w.disableAllEvent }
  | runFunctor (w : FdWatcher) (hw : s.fdWatcher = some w) (hpending : s.pending ≠ 0) :
      Step s .runFunctor { s with fdWatcher := some w.start, pending := s.pending - 1 }
  | readable (nfd : ℤ) (addr : String) (hlistening : s.Listening) :
      Step s (.readable nfd addr) (s.handleAccept nfd addr)
  | destroy : Step s .destroy { s with fdWatcher := none, alive := false }

variable {s s' : TCPAcceptor}

theorem perform_cases {a : Action} (h : s.perform a = some s') : Step s a s' := by
  cases a with
  | setNewConnectionCallBack =>
      cases h
      exact .setNewConnectionCallBack
  | accept =>
      obtain ⟨_, -, hs'⟩ := Option.bind_eq_some_iff.mp h
      cases hs'
      exact .accept
  | stop =>
      obtain ⟨w, hw, hs'⟩ := Option.bind_eq_some_iff.mp h
      split_ifs at hs' with hallowed
      cases hs'
      exact .stop w hw hallowed
  | runFunctor =>
      obtain ⟨w, hw, hs'⟩ := Option.bind_eq_some_iff.mp h
      split_ifs at hs' with hallowed
      cases hs'
      exact .runFunctor w hw (not_or.mp hallowed).1
  | readable nfd addr =>
      rw [perform] at h
      split_ifs at h with hlistening
      cases h
      exact .readable nfd addr hlistening
  | destroy =>
      obtain ⟨_, -, hs'⟩ := Option.bind_eq_some_iff.mp h
      cases hs'
      exact .destroy

theorem step_cases {a : Action} (h : step s a = some s') : s.alive = true ∧ Step s a s' := by
  unfold step at h
  split_ifs at h with halive
  exact ⟨halive, perform_cases h⟩

@[simp] theorem handleAccept_fdWatcher (nfd : ℤ) (addr : String) :
    (s.handleAccept nfd addr).fdWatcher = s.fdWatcher := by
  unfold handleAccept
  split_ifs <;> rfl

@[simp] theorem handleAccept_alive (nfd : ℤ) (addr : String) :
    (s.handleAccept nfd addr).alive = s.alive := by
  unfold handleAccept
  split_ifs <;> rfl

@[simp] theorem handleAccept_pending (nfd : ℤ) (addr : String) :
    (s.handleAccept nfd addr).pending = s.pending := by
  unfold handleAccept
  split_ifs <;> rfl

/-! ## The run -/

/-- The watcher of an acceptor that lives follows what has been done since the last `Accept`. -/
structure Tracks (acts : List Action) (s : TCPAcceptor) : Prop where
  alive : s.alive = true ↔ .destroy ∉ acts
  none : s.fdWatcher = none → s.alive = true → sinceAccept acts = none
  pending : acts.count .runFunctor + s.pending = acts.count .accept
  watches : ∀ w, s.fdWatcher = some w → s.alive = true ∧
    ∃ since, sinceAccept acts = some since ∧ Watches since w

theorem init_tracks : Tracks [] init where
  alive := by simp [init]
  none _ _ := rfl
  pending := rfl
  watches w hw := by cases hw

theorem Tracks.other {acts : List Action} (h : Tracks acts s) {a : Action}
    (haccept : a ≠ .accept) (hrun : a ≠ .runFunctor) (hstop : a ≠ .stop) (hdestroy : a ≠ .destroy)
    (hwatcher : s'.fdWatcher = s.fdWatcher) (halive : s'.alive = s.alive)
    (hpending : s'.pending = s.pending) : Tracks (acts ++ [a]) s' where
  alive := by
    rw [halive, h.alive]
    simp [hdestroy.symm]
  none hnone hlive := by
    rw [sinceAccept_concat acts haccept, h.none (hwatcher ▸ hnone) (halive ▸ hlive)]
    rfl
  pending := by
    rw [hpending, List.count_append, List.count_append, List.count_singleton, List.count_singleton]
    simpa [haccept, hrun] using h.pending
  watches w hw := by
    obtain ⟨hlive, since, hsince, hwatches⟩ := h.watches w (hwatcher ▸ hw)
    refine ⟨halive.trans hlive, since ++ [a], ?_, hwatches.other hrun hstop⟩
    rw [sinceAccept_concat acts haccept, hsince]
    rfl

theorem Tracks.call {acts : List Action} (h : Tracks acts s) {a : Action} (haccept : a ≠ .accept)
    (hdestroy : a ≠ .destroy) {w w' : FdWatcher} (hw : s.fdWatcher = some w)
    (hcall : ∀ since, Watches since w → Watches (since ++ [a]) w') (halive : s'.alive = s.alive)
    (hw' : s'.fdWatcher = some w')
    (hpending : (acts ++ [a]).count .runFunctor + s'.pending = (acts ++ [a]).count .accept) :
    Tracks (acts ++ [a]) s' where
  alive := by
    rw [halive, h.alive]
    simp [hdestroy.symm]
  none hnone _ := by
    rw [hw'] at hnone
    cases hnone
  pending := hpending
  watches v hv := by
    rw [hw'] at hv
    cases hv
    obtain ⟨hlive, since, hsince, hwatches⟩ := h.watches w hw
    refine ⟨halive.trans hlive, since ++ [a], ?_, hcall since hwatches⟩
    rw [sinceAccept_concat acts haccept, hsince]
    rfl

theorem step_tracks {acts : List Action} {a : Action} (h : Tracks acts s)
    (hs' : step s a = some s') : Tracks (acts ++ [a]) s' := by
  obtain ⟨halive, hstep⟩ := step_cases hs'
  have hdestroy := h.alive.mp halive
  have hcount := h.pending
  cases hstep with
  | setNewConnectionCallBack =>
      exact h.other (by nofun) (by nofun) (by nofun) (by nofun) rfl rfl rfl
  | accept =>
      refine ⟨by simpa [hdestroy] using halive, by nofun, ?_, ?_⟩
      · simp only [List.count_append, List.count_singleton]
        simpa [← Nat.add_assoc] using hcount
      · intro w hw
        cases hw
        exact ⟨halive, [], sinceAccept_accept acts, watches_new⟩
  | stop w hw hallowed =>
      refine h.call (by nofun) (by nofun) hw (fun since hwatches => ?_) rfl rfl ?_
      · exact hwatches.stop ((disableAllEvent_allowed_iff hwatches.phase).mp hallowed)
      · simpa using hcount
  | runFunctor w hw hpending =>
      refine h.call (by nofun) (by nofun) hw (fun since hwatches => hwatches.start) rfl rfl ?_
      simp only [List.count_append, List.count_singleton]
      simp
      omega
  | readable nfd addr hlistening =>
      exact h.other (by nofun) (by nofun) (by nofun) (by nofun) (handleAccept_fdWatcher nfd addr)
        (handleAccept_alive nfd addr) (handleAccept_pending nfd addr)
  | destroy =>
      refine ⟨by simp, by nofun, ?_, ?_⟩
      · simpa using hcount
      · intro w hw
        cases hw

theorem run_tracks {acts : List Action} (h : run step init acts = some s) : Tracks acts s := by
  induction acts using List.reverseRecOn generalizing s with
  | nil =>
      cases h
      exact init_tracks
  | append_singleton acts a ih =>
      rw [run_append] at h
      obtain ⟨t, ht, hs⟩ := Option.bind_eq_some_iff.mp h
      obtain ⟨s', hs', hnil⟩ := run_cons_eq_some hs
      cases hnil
      exact step_tracks (ih ht) hs'

theorem Tracks.watcher_of_since {acts since : List Action} (h : Tracks acts s)
    (halive : s.alive = true) (hsince : sinceAccept acts = some since) :
    ∃ w, s.fdWatcher = some w ∧ Watches since w := by
  cases hw : s.fdWatcher with
  | none =>
      have hnone := h.none hw halive
      rw [hsince] at hnone
      cases hnone
  | some w =>
      obtain ⟨-, since', hsince', hwatches⟩ := h.watches w hw
      rw [hsince] at hsince'
      cases hsince'
      exact ⟨w, rfl, hwatches⟩

theorem Tracks.listening_iff {acts : List Action} (h : Tracks acts s) :
    s.Listening ↔ Listens acts := by
  constructor
  · rintro ⟨w, hw, hread⟩
    obtain ⟨halive, since, hsince, hwatches⟩ := h.watches w hw
    obtain ⟨hadded, hreads⟩ := (registered_read_iff hwatches.phase).mp hread
    exact ⟨h.alive.mp halive, since, hsince, hwatches.started.mp hadded, hwatches.reads.mp hreads⟩
  · rintro ⟨hdestroy, since, hsince, hrun, hstop⟩
    obtain ⟨w, hw, hwatches⟩ := h.watcher_of_since (h.alive.mpr hdestroy) hsince
    refine ⟨w, hw, (registered_read_iff hwatches.phase).mpr ?_⟩
    exact ⟨hwatches.started.mpr hrun, hwatches.reads.mpr hstop⟩

theorem Tracks.release {acts : List Action} (h : Tracks acts s) :
    release s.fdWatcher = some () := by
  cases hw : s.fdWatcher with
  | none => rfl
  | some w =>
      obtain ⟨-, since, -, hwatches⟩ := h.watches w hw
      exact if_neg hwatches.phase.destroy

theorem Tracks.stop_iff {acts : List Action} (h : Tracks acts s) :
    (step s .stop).isSome ↔ Started acts := by
  constructor
  · intro hsome
    obtain ⟨s', hs'⟩ := Option.isSome_iff_exists.mp hsome
    obtain ⟨halive, hstep⟩ := step_cases hs'
    cases hstep with
    | stop w hw hallowed =>
        obtain ⟨-, since, hsince, hwatches⟩ := h.watches w hw
        have hadded := (disableAllEvent_allowed_iff hwatches.phase).mp hallowed
        exact ⟨h.alive.mp halive, since, hsince, hwatches.started.mp hadded⟩
  · rintro ⟨hdestroy, since, hsince, hrun⟩
    have halive := h.alive.mpr hdestroy
    obtain ⟨w, hw, hwatches⟩ := h.watcher_of_since halive hsince
    have hallowed := (disableAllEvent_allowed_iff hwatches.phase).mpr (hwatches.started.mpr hrun)
    simp [step, halive, perform, stop, hw, hallowed]

theorem Tracks.runFunctor_iff {acts : List Action} (h : Tracks acts s) :
    (step s .runFunctor).isSome ↔
      .destroy ∉ acts ∧ acts.count .runFunctor < acts.count .accept := by
  have hcount := h.pending
  constructor
  · intro hsome
    obtain ⟨s', hs'⟩ := Option.isSome_iff_exists.mp hsome
    obtain ⟨halive, hstep⟩ := step_cases hs'
    cases hstep with
    | runFunctor w hw hpending =>
        refine ⟨h.alive.mp halive, ?_⟩
        omega
  · rintro ⟨hdestroy, hlt⟩
    have halive := h.alive.mpr hdestroy
    have hpending : s.pending ≠ 0 := by omega
    -- a functor is only queued where `Accept` has made a watcher
    cases hw : s.fdWatcher with
    | none =>
        rw [count_accept_eq_zero (h.none hw halive)] at hlt
        exact absurd hlt (Nat.not_lt_zero _)
    | some w =>
        obtain ⟨-, since, -, hwatches⟩ := h.watches w hw
        simp [step, halive, perform, runFunctor, hw, hpending,
          (start_phase hwatches.phase).not_misused]

theorem Tracks.allowed_iff {acts : List Action} (h : Tracks acts s) (a : Action) :
    (step s a).isSome ↔ Allowed acts a := by
  cases a with
  | stop => exact h.stop_iff
  | runFunctor => exact h.runFunctor_iff
  | readable nfd addr =>
      rw [Allowed, ← h.listening_iff]
      have halive (hlistening : s.Listening) : s.alive = true := by
        obtain ⟨w, hw, -⟩ := hlistening
        exact (h.watches w hw).1
      by_cases hlistening : s.Listening
      · simp [step, perform, hlistening, halive hlistening]
      · simp [step, perform, hlistening]
  | setNewConnectionCallBack => simp [step, Allowed, ← h.alive, perform]
  | accept => simp [step, Allowed, ← h.alive, perform, accept, h.release]
  | destroy => simp [step, Allowed, ← h.alive, perform, destroy, h.release]

/-- Every order of calls, functors, connections and the destructor: the acceptor gets to its end
if and only if what has been done before each of them allows it. In particular it takes
connections exactly while a functor has run since the last `Accept` and `Stop` has not been
called since then, whatever functors of earlier `Accept` calls are still queued. -/
theorem run_isSome_iff (acts : List Action) :
    (run step init acts).isSome ↔ ∀ before a, before ++ [a] <+: acts → Allowed before a :=
  isSome_run_iff fun hrun => (run_tracks hrun).allowed_iff

/-- `Stop` before the loop has run the functor of `Accept` is not allowed, and a functor that is
left over does not start the acceptor again after `Stop`. -/
example : ¬ (run step init [.accept, .stop]).isSome ∧
    (run step init [.accept, .accept, .runFunctor, .stop, .runFunctor]).isSome ∧
    ¬ (run step init [.accept, .accept, .runFunctor, .stop, .runFunctor, .readable 7 "peer"]).isSome :=
  by decide

/-! ## The acceptor of a server -/

/-- What the callback is given when it has been set. -/
def Action.accepted : Action → Option (ℤ × String)
  | .readable nfd addr => if nfd = -1 then none else some (nfd, addr)
  | _ => none

theorem step_passed {a : Action} (hcb : s.newConnectionCb = true) (h : step s a = some s') :
    s'.newConnectionCb = true ∧ s'.leaked = s.leaked ∧
      s'.passed = s.passed ++ a.accepted.toList := by
  cases (step_cases h).2 with
  | readable nfd addr hlistening =>
      by_cases hnfd : nfd = -1
      · simp [handleAccept, Action.accepted, hnfd, hcb]
      · simp [handleAccept, Action.accepted, hnfd, hcb]
  | setNewConnectionCallBack => simp [Action.accepted]
  | accept => simp [Action.accepted, hcb]
  | stop w hw hallowed => simp [Action.accepted, hcb]
  | runFunctor w hw hpending => simp [Action.accepted, hcb]
  | destroy => simp [Action.accepted, hcb]

theorem run_passed {t : TCPAcceptor} {acts : List Action} (hcb : s.newConnectionCb = true)
    (h : run step s acts = some t) :
    t.leaked = s.leaked ∧ t.passed = s.passed ++ acts.filterMap Action.accepted := by
  induction acts generalizing s with
  | nil =>
      cases h
      simp
  | cons a acts ih =>
      obtain ⟨s', hs', hrun⟩ := run_cons_eq_some h
      obtain ⟨hcb', hleaked, hpassed⟩ := step_passed hcb hs'
      obtain ⟨hrest, hlist⟩ := ih hcb' hrun
      refine ⟨hrest.trans hleaked, ?_⟩
      rw [hlist, hpassed, List.append_assoc]
      cases ha : a.accepted <;> simp [ha]

/-- `TCPServer::Start` sets the callback before `Accept`: no descriptor gets lost, and the
callback is given every connection once, in the order of arrival. -/
theorem server_passes_all {t : TCPAcceptor} {acts : List Action}
    (h : run step init (.setNewConnectionCallBack :: .accept :: acts) = some t) :
    t.leaked = [] ∧ t.passed = acts.filterMap Action.accepted := by
  obtain ⟨s', hs', hrun⟩ := run_cons_eq_some h
  cases hs'
  exact run_passed rfl hrun

end TCPAcceptor
end TinyGameServer
