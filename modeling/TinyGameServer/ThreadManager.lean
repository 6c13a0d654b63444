import TinyGameServer.RoundRobin

/-!
# The loops of a server

The loop that the manager was built with, and those of the threads it has started. The counter of
`PickEventLoop` is static, so all managers of a process share it.
-/

namespace TinyGameServer

structure ThreadManager (ι : Type) where
  loop : ι
  threads : List ι

namespace ThreadManager

variable {ι : Type}

def pickEventLoop (m : ThreadManager ι) (i : Int32) : ι × Int32 :=
  let (l, i) := RoundRobin.pick m.threads i
  (l.getD m.loop, i)

/-- With any thread running the manager's own loop is not picked. -/
theorem pickEventLoop_mem {m : ThreadManager ι} (h : m.threads ≠ []) (i : Int32) :
    (m.pickEventLoop i).1 ∈ m.threads := by
  obtain ⟨l, hl, hpick⟩ := RoundRobin.pick_isSome h i
  simp only [pickEventLoop, hpick]
  exact hl

end ThreadManager
end TinyGameServer
