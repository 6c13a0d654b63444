import Mathlib.Data.List.Nodup
import Mathlib.Logic.Function.Basic
import Mathlib.Tactic.SplitIfs
import TinyGameServer.HostPort
import TinyGameServer.LoginQuery
import TinyGameServer.RoundRobin

/-!
# The class RedisManager

Every manager opens its own connections to the server at its own address, and all of them have the
static counter of `PickContext` in common. hiredis takes keys and values as C strings; a server
keeps for each key what was stored last, and nobody else writes to it. A command on a null context
and one on a context that is not allocated are undefined, and so is freeing such a context.
-/

namespace TinyGameServer

inductive RedisAttempt (κ : Type) where
  | null
  /-- `redisConnect` returns a context with an error. -/
  | failed (c : κ)
  | unanswered (c : κ)
  | refused (c : κ)
  | authorized (c : κ)

/-- The context of a round that neither frees nor keeps it. -/
def RedisAttempt.leaked {κ : Type} : RedisAttempt κ → Option κ
  | .unanswered c => some c
  | .refused c => some c
  | _ => none

inductive SetReply where
  | ok
  | error
  /-- The reply is null, whether or not the command got through. -/
  | lost (stored : Bool)

inductive GetReply where
  | answered
  | error
  | lost

def SetReply.stored : SetReply → Bool
  | ok => true
  | error => false
  | lost stored => stored

/-- The address that each manager is constructed with, and the server behind a host and a port. -/
structure RedisHosts (μ σ : Type) where
  addr : μ → List UInt8
  resolve : List UInt8 → Int32 → σ

/-- The server that the manager's calls of `redisConnect` reach. -/
def RedisHosts.server {μ σ : Type} (hosts : RedisHosts μ σ) (m : μ) : Option σ :=
  (HostPort.splitHostPort (hosts.addr m)).map fun hostPort =>
    hosts.resolve (LoginQuery.cStr hostPort.1) hostPort.2

/-- `managers` has `conns_` of the managers there are, and `allocated` the server that a context is
connected to, unless it has been freed. -/
structure Redis (μ κ σ : Type) where
  managers : μ → Option (List κ)
  i : Int32
  allocated : κ → Option σ
  store : σ → List UInt8 → Option (List UInt8)

namespace Redis

open LoginQuery

variable {μ κ σ : Type}

def init : Redis μ κ σ where
  managers := fun _ => none
  i := 0
  allocated := fun _ => none
  store := fun _ _ => none

def pickContext (s : Redis μ κ σ) (m : μ) : Option (Option κ × Int32) :=
  (s.managers m).map fun conns => RoundRobin.pick conns s.i

/-- The server that a command of the manager goes to. -/
def command (s : Redis μ κ σ) (m : μ) : Option (σ × Int32) := do
  let (c, i) ← s.pickContext m
  let server ← s.allocated (← c)
  return (server, i)

def set [DecidableEq σ] (s : Redis μ κ σ) (m : μ) (key value : List UInt8) (reply : SetReply) :
    Option (Redis μ κ σ) := do
  let (server, i) ← s.command m
  let stored := Function.update (s.store server) (cStr key) (some (cStr value))
  return { s with
    i, store := if reply.stored then Function.update s.store server stored else s.store }

def get (s : Redis μ κ σ) (m : μ) : Option (Redis μ κ σ) := do
  let (_, i) ← s.command m
  return { s with i }

/-- What `Get` returns and what its reference argument is afterwards. -/
def getResult (s : Redis μ κ σ) (m : μ) (key value : List UInt8) (reply : GetReply) :
    Option (Bool × List UInt8) := do
  let (server, _) ← s.command m
  match reply with
  | .answered =>
    match s.store server (cStr key) with
    | none => return (true, value)
    | some str => return (true, cStr str)
  | .error => return (false, value)
  | .lost => return (false, value)

variable [DecidableEq κ]

/-- The loop of `Connect`. `redisConnect` returns pointers that are not in use. -/
def connectLoop (server : σ) (allocated : κ → Option σ) (conns : List κ) :
    List (RedisAttempt κ) → Option ((κ → Option σ) × List κ)
  | [] => some (allocated, conns)
  | .null :: rest => connectLoop server allocated conns rest
  | .failed c :: rest =>
    if (allocated c).isSome then none else connectLoop server allocated conns rest
  | .unanswered c :: rest | .refused c :: rest =>
    if (allocated c).isSome then none
    else connectLoop server (Function.update allocated c (some server)) conns rest
  | .authorized c :: rest =>
    if (allocated c).isSome then none
    else connectLoop server (Function.update allocated c (some server)) (conns ++ [c]) rest

def freeAll (allocated : κ → Option σ) : List κ → Option (κ → Option σ)
  | [] => some allocated
  | c :: rest =>
    if (allocated c).isSome then freeAll (Function.update allocated c none) rest else none

variable [DecidableEq μ] (hosts : RedisHosts μ σ)

/-- `Connect` with the results of its rounds and the assertion at its end. -/
def connect (s : Redis μ κ σ) (m : μ) (attempts : List (RedisAttempt κ)) :
    Option (Redis μ κ σ) := do
  let conns ← s.managers m
  let server ← hosts.server m
  let (allocated, conns) ← connectLoop server s.allocated conns attempts
  if conns = [] then none
  else return { s with allocated, managers := Function.update s.managers m (some conns) }

def destroy (s : Redis μ κ σ) (m : μ) : Option (Redis μ κ σ) := do
  let conns ← s.managers m
  let allocated ← freeAll s.allocated conns
  return { s with allocated, managers := Function.update s.managers m none }

inductive Action (μ κ : Type) where
  | construct (m : μ)
  | connect (m : μ) (attempts : List (RedisAttempt κ))
  | set (m : μ) (key value : List UInt8) (reply : SetReply)
  | get (m : μ)
  | destroy (m : μ)

def step [DecidableEq σ] (s : Redis μ κ σ) : Action μ κ → Option (Redis μ κ σ)
  | .construct m =>
    if s.managers m = none then some { s with managers := Function.update s.managers m (some []) }
    else none
  | .connect m attempts => s.connect hosts m attempts
  | .set m key value reply => s.set m key value reply
  | .get m => s.get m
  | .destroy m => s.destroy m

/-! ## The loops -/

omit [DecidableEq μ]

variable {allocated allocated' : κ → Option σ} {conns conns' : List κ}

structure Opens (server : σ) (attempts : List (RedisAttempt κ)) (allocated : κ → Option σ)
    (conns : List κ) (allocated' : κ → Option σ) (conns' kept : List κ) : Prop where
  conns_eq : conns' = conns ++ kept
  kept_nodup : kept.Nodup
  opened : ∀ c, c ∈ kept ∨ c ∈ attempts.filterMap RedisAttempt.leaked →
    allocated' c = some server
  others : ∀ c, c ∉ kept → c ∉ attempts.filterMap RedisAttempt.leaked →
    allocated' c = allocated c
  kept_new : ∀ c ∈ kept, allocated c = none ∧ c ∉ attempts.filterMap RedisAttempt.leaked
  leaked_new : ∀ c ∈ attempts.filterMap RedisAttempt.leaked, allocated c = none

variable {server : σ} {kept : List κ} {attempts : List (RedisAttempt κ)} {c : κ}

theorem update_eq_none_iff (d : κ) :
    Function.update allocated c (some server) d = none ↔ d ≠ c ∧ allocated d = none := by
  by_cases hd : d = c
  · simp [hd]
  · simp [hd]

theorem Opens.leak (h : Opens server attempts (Function.update allocated c (some server)) conns
      allocated' conns' kept)
    (hfresh : allocated c = none) {a : RedisAttempt κ} (ha : a.leaked = some c) :
    Opens server (a :: attempts) allocated conns allocated' conns' kept := by
  have hcons : (a :: attempts).filterMap RedisAttempt.leaked =
      c :: attempts.filterMap RedisAttempt.leaked := List.filterMap_cons_some ha
  have hnew (d : κ) (hd : d ∈ kept) : d ≠ c ∧ allocated d = none :=
    (update_eq_none_iff d).mp (h.kept_new d hd).1
  have hleaked (d : κ) (hd : d ∈ attempts.filterMap RedisAttempt.leaked) :
      d ≠ c ∧ allocated d = none := (update_eq_none_iff d).mp (h.leaked_new d hd)
  refine ⟨h.conns_eq, h.kept_nodup, fun d hd => ?_, fun d hd hd' => ?_, fun d hd => ?_,
    fun d hd => ?_⟩
  · rw [hcons, List.mem_cons] at hd
    by_cases hin : d ∈ kept ∨ d ∈ attempts.filterMap RedisAttempt.leaked
    · exact h.opened d hin
    · obtain ⟨hnot, hnot'⟩ := not_or.mp hin
      rw [h.others d hnot hnot', show d = c by tauto, Function.update_self]
  · rw [hcons, List.mem_cons, not_or] at hd'
    rw [h.others d hd hd'.2, Function.update_of_ne hd'.1]
  · rw [hcons]
    exact ⟨(hnew d hd).2, List.not_mem_cons_of_ne_of_not_mem (hnew d hd).1 (h.kept_new d hd).2⟩
  · rw [hcons] at hd
    rcases List.mem_cons.mp hd with rfl | hd
    · exact hfresh
    · exact (hleaked d hd).2

theorem Opens.keep (h : Opens server attempts (Function.update allocated c (some server))
      (conns ++ [c]) allocated' conns' kept)
    (hfresh : allocated c = none) :
    Opens server (.authorized c :: attempts) allocated conns allocated' conns' (c :: kept) := by
  have hcons : (.authorized c :: attempts).filterMap RedisAttempt.leaked =
      attempts.filterMap RedisAttempt.leaked := List.filterMap_cons_none rfl
  have hnew (d : κ) (hd : d ∈ kept) : d ≠ c ∧ allocated d = none :=
    (update_eq_none_iff d).mp (h.kept_new d hd).1
  have hleaked (d : κ) (hd : d ∈ attempts.filterMap RedisAttempt.leaked) :
      d ≠ c ∧ allocated d = none := (update_eq_none_iff d).mp (h.leaked_new d hd)
  refine ⟨?_, ?_, fun d hd => ?_, fun d hd hd' => ?_, fun d hd => ?_, fun d hd => ?_⟩
  · rw [h.conns_eq, List.append_assoc]
    rfl
  · exact List.nodup_cons.mpr ⟨fun hc => (hnew c hc).1 rfl, h.kept_nodup⟩
  · rw [hcons, List.mem_cons] at hd
    by_cases hin : d ∈ kept ∨ d ∈ attempts.filterMap RedisAttempt.leaked
    · exact h.opened d hin
    · obtain ⟨hnot, hnot'⟩ := not_or.mp hin
      rw [h.others d hnot hnot', show d = c by tauto, Function.update_self]
  · rw [List.mem_cons, not_or] at hd
    rw [hcons] at hd'
    rw [h.others d hd.2 hd', Function.update_of_ne hd.1]
  · rw [hcons]
    rcases List.mem_cons.mp hd with rfl | hd
    · exact ⟨hfresh, fun hd => (hleaked d hd).1 rfl⟩
    · exact ⟨(hnew d hd).2, (h.kept_new d hd).2⟩
  · rw [hcons] at hd
    exact (hleaked d hd).2

theorem Opens.isSome_iff (h : Opens server attempts allocated conns allocated' conns' kept)
    (c : κ) : (allocated' c).isSome ↔
      (allocated c).isSome ∨ c ∈ kept ∨ c ∈ attempts.filterMap RedisAttempt.leaked := by
  by_cases hin : c ∈ kept ∨ c ∈ attempts.filterMap RedisAttempt.leaked
  · rw [h.opened c hin]
    exact iff_of_true rfl (.inr hin)
  · obtain ⟨hnot, hnot'⟩ := not_or.mp hin
    rw [h.others c hnot hnot', or_iff_left hin]

/-- The loop keeps the contexts that are authorized, and all that it opens are new. -/
theorem connectLoop_opens
    (h : connectLoop server allocated conns attempts = some (allocated', conns')) :
    ∃ kept, Opens server attempts allocated conns allocated' conns' kept := by
  induction attempts generalizing allocated conns with
  | nil =>
      cases h
      exact ⟨[], by simp, List.nodup_nil, by simp, by simp, by simp, by simp⟩
  | cons a rest ih =>
      cases a with
      | null =>
          obtain ⟨kept, hopens⟩ := ih h
          exact ⟨kept, hopens.conns_eq, hopens.kept_nodup, hopens.opened, hopens.others,
            hopens.kept_new, hopens.leaked_new⟩
      | failed c =>
          rw [connectLoop] at h
          split_ifs at h with hfresh
          obtain ⟨kept, hopens⟩ := ih h
          exact ⟨kept, hopens.conns_eq, hopens.kept_nodup, hopens.opened, hopens.others,
            hopens.kept_new, hopens.leaked_new⟩
      | unanswered c =>
          rw [connectLoop] at h
          split_ifs at h with hfresh
          obtain ⟨kept, hopens⟩ := ih h
          exact ⟨kept, hopens.leak (Option.not_isSome_iff_eq_none.mp hfresh) rfl⟩
      | refused c =>
          rw [connectLoop] at h
          split_ifs at h with hfresh
          obtain ⟨kept, hopens⟩ := ih h
          exact ⟨kept, hopens.leak (Option.not_isSome_iff_eq_none.mp hfresh) rfl⟩
      | authorized c =>
          rw [connectLoop] at h
          split_ifs at h with hfresh
          obtain ⟨kept, hopens⟩ := ih h
          exact ⟨c :: kept, hopens.keep (Option.not_isSome_iff_eq_none.mp hfresh)⟩

theorem freeAll_spec (hnodup : conns.Nodup) (hall : ∀ c ∈ conns, (allocated c).isSome) :
    ∃ allocated', freeAll allocated conns = some allocated' ∧
      ∀ c, allocated' c = if c ∈ conns then none else allocated c := by
  induction conns generalizing allocated with
  | nil => exact ⟨allocated, rfl, fun c => by simp⟩
  | cons c rest ih =>
      obtain ⟨hnot, hrest⟩ := List.nodup_cons.mp hnodup
      have hstill : ∀ d ∈ rest, (Function.update allocated c none d).isSome := by
        intro d hd
        rw [Function.update_of_ne (ne_of_mem_of_not_mem hd hnot)]
        exact hall d (List.mem_cons_of_mem c hd)
      obtain ⟨allocated', hfree, heq⟩ := ih hrest hstill
      refine ⟨allocated', ?_, fun d => ?_⟩
      · rw [freeAll, if_pos (hall c List.mem_cons_self), hfree]
      · rw [heq]
        by_cases hd : d = c
        · subst hd
          simp
        · simp [hd]

end Redis
end TinyGameServer
