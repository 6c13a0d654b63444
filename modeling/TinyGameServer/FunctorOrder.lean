import TinyGameServer.EventLoop

/-!
# Do functors run once and in order?

What has been executed, what the loop has taken over and what is pending are three consecutive
pieces of one list, the accepted functors in the order of their critical sections. A push extends
the last piece, the swap moves it to the middle, and functors leave the middle at its front.
-/

namespace TinyGameServer

def LoopPc.taken {φ : Type} : LoopPc φ → List φ
  | waiting | draining | drained => []
  | batch rest => rest
  | functor f _ rest => f :: rest

namespace EventLoop

variable {π φ : Type} [DecidableEq π] {room : ℕ} {s s' : EventLoop π φ}

def InOrder (s : EventLoop π φ) : Prop :=
  s.executed ++ s.pc.taken ++ s.pendingFunctors = s.accepted

omit [DecidableEq π] in
theorem InOrder.push (h : s.InOrder) (f : φ) : (s.push f).InOrder := by
  rw [InOrder, EventLoop.push]
  dsimp only
  rw [← List.append_assoc, h]

omit [DecidableEq π] in
/-- The loop moves on without taking over or finishing a functor. -/
theorem InOrder.of_taken (h : s.InOrder) {pc : LoopPc φ} (htaken : pc.taken = s.pc.taken)
    (unread : ℕ) : ({ s with pc, unread } : EventLoop π φ).InOrder := by
  rw [InOrder] at h ⊢
  rw [htaken]
  exact h

theorem step_inOrder {a : Action π φ} (h : s.InOrder) (hs' : step room s a = some s') :
    s'.InOrder := by
  cases step_cases hs' with
  | push p f => exact h.push f
  | notify p => exact h
  | update hpc => exact h.of_taken (by rw [hpc]; rfl) _
  | recv => exact h
  | recvEmpty hpc => exact h.of_taken (by rw [hpc]; rfl) _
  | swap hpc =>
      rw [InOrder, hpc] at h
      rw [InOrder, ← h]
      simp [LoopPc.taken]
  | call f rest hpc => exact h.of_taken (by rw [hpc]; rfl) _
  | post f g rest hpc => exact (h.push g).of_taken (by rw [EventLoop.push, hpc]; rfl) _
  | postNotify f rest hpc => exact h.of_taken (by rw [hpc]; rfl) _
  | ret f rest hpc =>
      rw [InOrder, hpc] at h
      rw [InOrder, ← h]
      simp [LoopPc.taken]
  | endBatch hpc => exact h.of_taken (by rw [hpc]; rfl) _

/-- In every reachable state no functor has been lost, duplicated or overtaken. -/
theorem functors_in_order (h : Reachable (step room) init s) :
    s.executed ++ s.pc.taken ++ s.pendingFunctors = s.accepted := by
  have hinit : (init : EventLoop π φ).InOrder := rfl
  exact h.invariant (fun _ _ _ => step_inOrder) hinit

/-- The functor 1 has been executed, 2 is in execution and has posted 4, and 3 was pushed while
the batch was running. -/
def interleavedPosts : List (Action Bool ℕ) :=
  [.push true 1, .notify true, .push false 2, .update, .recv, .recv, .swap, .call, .push true 3,
    .ret, .call, .post 4]

theorem interleaved_posts_in_order :
    ∃ s, run (step 0) init interleavedPosts = some s ∧
      s.executed ++ s.pc.taken ++ s.pendingFunctors = s.accepted :=
  ⟨_, rfl, functors_in_order ⟨interleavedPosts, rfl⟩⟩

end EventLoop
end TinyGameServer
