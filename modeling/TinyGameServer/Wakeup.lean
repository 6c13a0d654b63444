import TinyGameServer.EventLoop

/-!
# Is a wakeup lost?

The list and the channel are updated in separate steps on both sides, and one drain swallows any
number of bytes. A functor is pushed before its byte is sent, and the socket is drained before the
list is swapped; so whoever leaves a functor in the list still owes a look at it.
-/

namespace TinyGameServer.EventLoop

variable {π φ : Type}

/-- Something will still make the loop look at its list. -/
def Awake (s : EventLoop π φ) : Prop := 0 < s.unread ∨ s.Notifying ∨ s.Updating

def NoLostWakeup (s : EventLoop π φ) : Prop := s.pendingFunctors ≠ [] → s.Awake

variable {room : ℕ} {s s' : EventLoop π φ}

theorem unread_notify_pos (s : EventLoop π φ) : 0 < (s.notify room).unread := by
  rw [notify]
  dsimp only
  split <;> omega

theorem Awake.of_pc (h : s.Awake) (hfunctor : ∀ f rest, s.pc ≠ .functor f true rest)
    (hdraining : s.pc ≠ .draining) (hdrained : s.pc ≠ .drained) (pc : LoopPc φ)
    (executed : List φ) : ({ s with pc, executed } : EventLoop π φ).Awake := by
  rcases h with hunread | (hnotifying | ⟨f, rest, hpc⟩) | (hpc | hpc)
  · exact .inl hunread
  · exact .inr (.inl (.inl hnotifying))
  · exact absurd hpc (hfunctor f rest)
  · exact absurd hpc hdraining
  · exact absurd hpc hdrained

variable [DecidableEq π]

theorem step_noLostWakeup {a : Action π φ} (h : s.NoLostWakeup) (hs' : step room s a = some s') :
    s'.NoLostWakeup := by
  intro hpending
  cases step_cases hs' with
  | push p f => exact .inr (.inl (.inl ⟨p, Function.update_self ..⟩))
  | notify p => exact .inl (unread_notify_pos s)
  | update => exact .inr (.inr (.inl rfl))
  | recv hpc => exact .inr (.inr (.inl hpc))
  | recvEmpty => exact .inr (.inr (.inr rfl))
  | swap => exact absurd rfl hpending
  | post f g rest => exact .inr (.inl (.inr ⟨f, rest, rfl⟩))
  | postNotify => exact .inl (unread_notify_pos s)
  | call f rest hpc =>
      exact (h hpending).of_pc (by simp [hpc]) (by simp [hpc]) (by simp [hpc]) _ s.executed
  | ret f rest hpc => exact (h hpending).of_pc (by simp [hpc]) (by simp [hpc]) (by simp [hpc]) _ _
  | endBatch hpc =>
      exact (h hpending).of_pc (by simp [hpc]) (by simp [hpc]) (by simp [hpc]) _ s.executed

theorem recv_of_pos (hpc : s.pc = .draining) (hunread : 0 < s.unread) :
    step room s .recv = some { s with unread := s.unread - 64 } := by
  simp [step, hpc, hunread]

theorem recv_of_empty (hpc : s.pc = .draining) (hunread : s.unread = 0) :
    step room s .recv = some { s with pc := .drained } := by
  simp [step, hpc, hunread]

theorem run_recv (room : ℕ) (s : EventLoop π φ) (hpc : s.pc = .draining) :
    ∃ k, run (step room) s (List.replicate k .recv) =
      some { s with unread := 0, pc := .drained } := by
  induction hn : s.unread using Nat.strongRecOn generalizing s with
  | ind n ih =>
      subst hn
      by_cases hunread : 0 < s.unread
      · obtain ⟨k, hrun⟩ := ih (s.unread - 64) (by omega) { s with unread := s.unread - 64 } hpc rfl
        refine ⟨k + 1, ?_⟩
        rw [List.replicate_succ, run_cons, recv_of_pos hpc hunread]
        exact hrun
      · have hzero := Nat.eq_zero_of_not_pos hunread
        refine ⟨1, ?_⟩
        rw [List.replicate_one, run_cons, recv_of_empty hpc hzero, ← hzero]
        rfl

theorem run_update (room : ℕ) (s : EventLoop π φ) (hpc : s.pc = .waiting) (hunread : 0 < s.unread) :
    ∃ k, run (step room) s (.update :: List.replicate k .recv ++ [.swap]) =
      some { s with unread := 0, pendingFunctors := [], pc := .batch s.pendingFunctors } := by
  have hupdate : step room s .update = some { s with pc := .draining } := by
    simp [step, hpc, hunread]
  obtain ⟨k, hrecv⟩ := run_recv room { s with pc := .draining } rfl
  refine ⟨k, ?_⟩
  rw [List.cons_append, run_cons, hupdate, Option.bind_some, run_append, hrecv]
  rfl

/-- In every reachable state in which functors are pending: the channel holds a byte, or a send is
still to come, or a swap is. If the loop sleeps and nobody is about to send, then the loop by
itself takes over the whole list. -/
theorem no_lost_wakeup (h : Reachable (step room) init s) (hpending : s.pendingFunctors ≠ []) :
    (0 < s.unread ∨ s.Notifying ∨ s.Updating) ∧
      (s.pc = .waiting → ¬ s.Notifying →
        ∃ k t, run (step room) s (.update :: List.replicate k .recv ++ [.swap]) = some t ∧
          t.pc = .batch s.pendingFunctors) := by
  have hinv : s.NoLostWakeup :=
    h.invariant (fun _ _ _ => step_noLostWakeup) (fun hne => absurd rfl hne)
  have hawake := hinv hpending
  refine ⟨hawake, fun hpc hquiet => ?_⟩
  have hunread : 0 < s.unread := by
    rcases hawake with hunread | hnotifying | (hdraining | hdrained)
    · exact hunread
    · exact absurd hnotifying hquiet
    · rw [hpc] at hdraining
      cases hdraining
    · rw [hpc] at hdrained
      cases hdrained
  obtain ⟨k, hrun⟩ := run_update room s hpc hunread
  exact ⟨k, _, hrun, rfl⟩

/-- The functor 1 posts the functor 2 while a second thread pushes 3. There is room for one byte,
and the send of that thread fails. -/
def crowdedChannel : List (Action Bool ℕ) :=
  [.push true 1, .notify true, .update, .recv, .recv, .swap, .call, .post 2, .push false 3,
    .postNotify, .notify false, .ret, .endBatch]

theorem crowded_channel_wakes :
    ∃ s, run (step 0) init crowdedChannel = some s ∧
      (0 < s.unread ∨ s.Notifying ∨ s.Updating) ∧
      (s.pc = .waiting → ¬ s.Notifying →
        ∃ k t, run (step 0) s (.update :: List.replicate k .recv ++ [.swap]) = some t ∧
          t.pc = .batch s.pendingFunctors) :=
  ⟨_, rfl, no_lost_wakeup ⟨crowdedChannel, rfl⟩ (by decide)⟩

end TinyGameServer.EventLoop
