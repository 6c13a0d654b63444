import Mathlib.Data.List.Induction
import TinyGameServer.RedisManager
import TinyGameServer.Transitions

/-!
# What is stored in Redis?

A run of any managers, in any order: each of them has its own connections, which it frees once and
never uses afterwards. Contexts whose `AUTH` fails are never freed. `Get` finds what the last `Set`
of the key that got through to the server of its manager has stored, whichever manager and
connection it was, up to the first NUL of the key and of the value.
-/

namespace TinyGameServer.Redis

open LoginQuery

variable {μ κ σ : Type} {s s' : Redis μ κ σ} {acts : List (Action μ κ)} {m : μ}
  {allocated allocated' : κ → Option σ} {conns conns' : List κ} {new : Option (List κ)}

/-! ## What a run has done -/

inductive ManagerPhase where
  | absent
  | constructed
  | connected
  deriving DecidableEq

variable [DecidableEq μ] in
def Action.phase (m : μ) (p : ManagerPhase) : Action μ κ → ManagerPhase
  | .construct m' => if m' = m then .constructed else p
  | .connect m' _ => if m' = m then .connected else p
  | .destroy m' => if m' = m then .absent else p
  | _ => p

variable [DecidableEq μ] in
def phase (m : μ) (acts : List (Action μ κ)) : ManagerPhase := acts.foldl (Action.phase m) .absent

section

variable [DecidableEq σ] (hosts : RedisHosts μ σ) (server : σ) (key : List UInt8)

def Action.last (value : Option (List UInt8)) : Action μ κ → Option (List UInt8)
  | .set m key' value' reply =>
    if reply.stored ∧ hosts.server m = some server ∧ cStr key' = key then some (cStr value')
    else value
  | _ => value

/-- What the last `Set` of the key that got through to the server has stored. -/
def lastSet (acts : List (Action μ κ)) : Option (List UInt8) :=
  acts.foldl (Action.last hosts server key) none

theorem lastSet_concat (acts : List (Action μ κ)) (a : Action μ κ) :
    lastSet hosts server key (acts ++ [a]) =
      a.last hosts server key (lastSet hosts server key acts) := List.foldl_concat ..

end

def Action.leaked : Action μ κ → List κ
  | .connect _ attempts => attempts.filterMap RedisAttempt.leaked
  | _ => []

def leaked (acts : List (Action μ κ)) : List κ := acts.flatMap Action.leaked

theorem leaked_concat (acts : List (Action μ κ)) (a : Action μ κ) :
    leaked (acts ++ [a]) = leaked acts ++ a.leaked := by
  rw [leaked, leaked, List.flatMap_append, List.flatMap_singleton]

def Kept (s : Redis μ κ σ) (c : κ) : Prop := ∃ m conns, s.managers m = some conns ∧ c ∈ conns

def OtherKept (s : Redis μ κ σ) (m : μ) (c : κ) : Prop :=
  ∃ m' conns, m' ≠ m ∧ s.managers m' = some conns ∧ c ∈ conns

theorem kept_iff (m : μ) (c : κ) :
    s.Kept c ↔ (∃ conns, s.managers m = some conns ∧ c ∈ conns) ∨ s.OtherKept m c := by
  constructor
  · rintro ⟨m', conns, hconns, hc⟩
    by_cases hm : m' = m
    · subst hm
      exact .inl ⟨conns, hconns, hc⟩
    · exact .inr ⟨m', conns, hm, hconns, hc⟩
  · rintro (⟨conns, hconns, hc⟩ | ⟨m', conns, -, hconns, hc⟩)
    · exact ⟨m, conns, hconns, hc⟩
    · exact ⟨m', conns, hconns, hc⟩

variable [DecidableEq μ]

theorem phase_concat (m : μ) (acts : List (Action μ κ)) (a : Action μ κ) :
    phase m (acts ++ [a]) = a.phase m (phase m acts) := List.foldl_concat ..

def replace (s : Redis μ κ σ) (m : μ) (allocated : κ → Option σ) (conns : Option (List κ)) :
    Redis μ κ σ :=
  { s with allocated, managers := Function.update s.managers m conns }

theorem replace_self : (s.replace m allocated new).managers m = new := Function.update_self ..

theorem replace_ne {m' : μ} (h : m' ≠ m) :
    (s.replace m allocated new).managers m' = s.managers m' := Function.update_of_ne h ..

theorem otherKept_replace (c : κ) : (s.replace m allocated new).OtherKept m c ↔ s.OtherKept m c := by
  constructor
  · rintro ⟨m', conns, hne, hconns, hc⟩
    rw [replace_ne hne] at hconns
    exact ⟨m', conns, hne, hconns, hc⟩
  · rintro ⟨m', conns, hne, hconns, hc⟩
    refine ⟨m', conns, hne, ?_, hc⟩
    rw [replace_ne hne]
    exact hconns

theorem kept_replace (c : κ) :
    (s.replace m allocated new).Kept c ↔ (∃ conns, new = some conns ∧ c ∈ conns) ∨ s.OtherKept m c := by
  rw [kept_iff m, otherKept_replace, replace_self]

variable [DecidableEq σ] {hosts : RedisHosts μ σ}

/-! ## One action -/

structure Tracks (hosts : RedisHosts μ σ) (acts : List (Action μ κ)) (s : Redis μ κ σ) : Prop where
  absent : ∀ m, s.managers m = none ↔ phase m acts = .absent
  constructed : ∀ m, s.managers m = some [] ↔ phase m acts = .constructed
  nodup : ∀ m conns, s.managers m = some conns → conns.Nodup
  disjoint : ∀ m m' conns conns' c, s.managers m = some conns → s.managers m' = some conns' →
    c ∈ conns → c ∈ conns' → m = m'
  peer : ∀ m conns c, s.managers m = some conns → c ∈ conns →
    ∃ server, hosts.server m = some server ∧ s.allocated c = some server
  allocated : ∀ c, (s.allocated c).isSome ↔ s.Kept c ∨ c ∈ leaked acts
  leaked : ∀ c, s.Kept c → c ∉ leaked acts
  store : ∀ server key, s.store server key = lastSet hosts server key acts

theorem init_tracks : Tracks hosts [] (init : Redis μ κ σ) where
  absent m := iff_of_true rfl rfl
  constructed m := iff_of_false (by nofun) (by nofun)
  nodup m conns h := by cases h
  disjoint m m' conns conns' c h := by cases h
  peer m conns c h := by cases h
  allocated c := iff_of_false Bool.false_ne_true fun h => by
    rcases h with ⟨m, conns, hconns, -⟩ | hc
    · cases hconns
    · cases hc
  leaked c := by
    rintro ⟨m, conns, h, -⟩
    cases h
  store server key := rfl

theorem Tracks.afterCommand (h : Tracks hosts acts s) {a : Action μ κ}
    (hphase : ∀ m p, a.phase m p = p) (hleaked : a.leaked = []) (i : Int32)
    {store : σ → List UInt8 → Option (List UInt8)}
    (hstore : ∀ server key, store server key = a.last hosts server key (s.store server key)) :
    Tracks hosts (acts ++ [a]) { s with i, store } where
  absent m := by
    rw [phase_concat, hphase]
    exact h.absent m
  constructed m := by
    rw [phase_concat, hphase]
    exact h.constructed m
  nodup := h.nodup
  disjoint := h.disjoint
  peer := h.peer
  allocated c := by
    rw [leaked_concat, hleaked, List.append_nil]
    exact h.allocated c
  leaked c hc := by
    rw [leaked_concat, hleaked, List.append_nil]
    exact h.leaked c hc
  store server key := by
    rw [lastSet_concat, ← h.store]
    exact hstore server key

theorem Tracks.command_server (h : Tracks hosts acts s) {server : σ} {i : Int32}
    (hcommand : s.command m = some (server, i)) : hosts.server m = some server := by
  obtain ⟨⟨c, i'⟩, hpick, hcommand⟩ := Option.bind_eq_some_iff.mp hcommand
  obtain ⟨conns, hm, hpicked⟩ := Option.map_eq_some_iff.mp hpick
  obtain ⟨c', hc, hcommand⟩ := Option.bind_eq_some_iff.mp hcommand
  obtain ⟨server', hserver, heq⟩ := Option.bind_eq_some_iff.mp hcommand
  cases heq
  have hmem : c' ∈ conns := by
    have hfst := RoundRobin.pick_fst conns s.i
    rw [hpicked] at hfst
    exact List.mem_of_getElem? (hfst.symm.trans hc)
  obtain ⟨server', hhost, hpeer⟩ := h.peer m conns c' hm hmem
  rw [hpeer] at hserver
  exact hhost.trans hserver

theorem Tracks.set (h : Tracks hosts acts s) {key value : List UInt8} {reply : SetReply}
    (hs' : s.set m key value reply = some s') :
    Tracks hosts (acts ++ [.set m key value reply]) s' := by
  obtain ⟨⟨server, i⟩, hcommand, hs'⟩ := Option.bind_eq_some_iff.mp hs'
  cases hs'
  have hserver := h.command_server hcommand
  refine h.afterCommand (fun _ _ => rfl) rfl i fun server' k => ?_
  by_cases hstored : reply.stored = true
  · by_cases hsame : server = server'
    · subst hsame
      by_cases hk : cStr key = k
      · subst hk
        simp [Action.last, hstored, hserver]
      · simp [Action.last, hstored, hk, Function.update_of_ne (Ne.symm hk)]
    · simp [Action.last, hstored, hserver, hsame, Function.update_of_ne (Ne.symm hsame)]
  · simp [Action.last, hstored]

theorem Tracks.get (h : Tracks hosts acts s) (hs' : s.get m = some s') :
    Tracks hosts (acts ++ [.get m]) s' := by
  obtain ⟨⟨server, i⟩, -, hs'⟩ := Option.bind_eq_some_iff.mp hs'
  cases hs'
  exact h.afterCommand (fun _ _ => rfl) rfl i fun _ _ => rfl

/-! ## Commands -/

theorem Tracks.connected_iff (h : Tracks hosts acts s) (m : μ) :
    phase m acts = .connected ↔ ∃ conns, s.managers m = some conns ∧ conns ≠ [] := by
  have habsent := h.absent m
  have hconstructed := h.constructed m
  cases hm : s.managers m with
  | none =>
      rw [habsent.mp hm]
      simp
  | some conns =>
      cases conns with
      | nil =>
          rw [hconstructed.mp hm]
          simp
      | cons c conns =>
          have hne : phase m acts ≠ .absent := fun hp => by simp [habsent.mpr hp] at hm
          have hne' : phase m acts ≠ .constructed := fun hp => by simp [hconstructed.mpr hp] at hm
          cases hp : phase m acts with
          | absent => exact absurd hp hne
          | constructed => exact absurd hp hne'
          | connected => simp

/-- A connected manager always has a context to pick, and it is allocated. -/
theorem Tracks.command_iff (h : Tracks hosts acts s) (m : μ) :
    (s.command m).isSome ↔ phase m acts = .connected := by
  rw [h.connected_iff]
  constructor
  · intro hsome
    obtain ⟨p, hp⟩ := Option.isSome_iff_exists.mp hsome
    obtain ⟨⟨c, i⟩, hpick, hp⟩ := Option.bind_eq_some_iff.mp hp
    obtain ⟨conns, hm, hpicked⟩ := Option.map_eq_some_iff.mp hpick
    refine ⟨conns, hm, ?_⟩
    rintro rfl
    cases hpicked
    cases hp
  · rintro ⟨conns, hm, hne⟩
    obtain ⟨c, hc, hpick⟩ := RoundRobin.pick_isSome hne s.i
    obtain ⟨server, -, hpeer⟩ := h.peer m conns c hm hc
    simp [command, pickContext, hm, hpick, hpeer]

omit [DecidableEq μ] in
theorem cStr_lastSet {server : σ} {key str : List UInt8}
    (h : lastSet hosts server key acts = some str) : cStr str = str := by
  induction acts using List.reverseRecOn with
  | nil => cases h
  | append_singleton acts a ih =>
      rw [lastSet_concat] at h
      cases a with
      | set m key' value' reply =>
          rw [Action.last] at h
          split_ifs at h
          · cases h
            exact (cStr_eq_self_iff _).mpr (not_mem_cStr value')
          · exact ih h
      | _ => exact ih h

theorem Tracks.getResult (h : Tracks hosts acts s) (hm : phase m acts = .connected)
    (key value : List UInt8) : ∃ server, hosts.server m = some server ∧
      s.getResult m key value .answered =
        some (true, (lastSet hosts server (cStr key) acts).getD value) := by
  obtain ⟨⟨server, i⟩, hcommand⟩ := Option.isSome_iff_exists.mp ((h.command_iff m).mpr hm)
  refine ⟨server, h.command_server hcommand, ?_⟩
  have hstore := h.store server (cStr key)
  rw [Redis.getResult, hcommand]
  simp only [Option.bind_eq_bind, Option.bind_some, hstore]
  cases hlast : lastSet hosts server (cStr key) acts with
  | none => rfl
  | some str => exact congrArg (fun v => some (true, v)) (cStr_lastSet hlast)

/-! ## Managers come and go -/

theorem Tracks.not_otherKept (h : Tracks hosts acts s) (hconns : s.managers m = some conns) {c : κ}
    (hc : c ∈ conns) : ¬ s.OtherKept m c := by
  rintro ⟨m', conns', hne, hconns', hc'⟩
  exact hne (h.disjoint m' m conns' conns c hconns' hconns hc' hc)

theorem Tracks.replace (h : Tracks hosts acts s) {a : Action μ κ} {q : ManagerPhase}
    (hphase : ∀ m' p, a.phase m' p = if m = m' then q else p) (habsent : new = none ↔ q = .absent)
    (hconstructed : new = some [] ↔ q = .constructed)
    (hlast : ∀ server key v, a.last hosts server key v = v)
    (hnodup : ∀ conns, new = some conns → conns.Nodup)
    (hnew : ∀ conns c, new = some conns → c ∈ conns →
      ¬ s.OtherKept m c ∧ c ∉ Redis.leaked (acts ++ [a]))
    (hpeer : ∀ conns c, new = some conns → c ∈ conns →
      ∃ server, hosts.server m = some server ∧ allocated c = some server)
    (hother : ∀ c, s.OtherKept m c → c ∉ a.leaked ∧ allocated c = s.allocated c)
    (hallocated : ∀ c, (allocated c).isSome ↔
      ((∃ conns, new = some conns ∧ c ∈ conns) ∨ s.OtherKept m c) ∨ c ∈ Redis.leaked (acts ++ [a])) :
    Tracks hosts (acts ++ [a]) (s.replace m allocated new) where
  absent m' := by
    rw [phase_concat, hphase]
    split_ifs with hm
    · subst hm
      rw [replace_self]
      exact habsent
    · rw [replace_ne (Ne.symm hm)]
      exact h.absent m'
  constructed m' := by
    rw [phase_concat, hphase]
    split_ifs with hm
    · subst hm
      rw [replace_self]
      exact hconstructed
    · rw [replace_ne (Ne.symm hm)]
      exact h.constructed m'
  nodup m' conns hconns := by
    by_cases hm : m' = m
    · subst hm
      rw [replace_self] at hconns
      exact hnodup conns hconns
    · rw [replace_ne hm] at hconns
      exact h.nodup m' conns hconns
  disjoint m₁ m₂ conns₁ conns₂ c h₁ h₂ hc₁ hc₂ := by
    by_cases hm₁ : m₁ = m <;> by_cases hm₂ : m₂ = m
    · rw [hm₁, hm₂]
    · rw [hm₁, replace_self] at h₁
      rw [replace_ne hm₂] at h₂
      exact absurd ⟨m₂, conns₂, hm₂, h₂, hc₂⟩ (hnew conns₁ c h₁ hc₁).1
    · rw [hm₂, replace_self] at h₂
      rw [replace_ne hm₁] at h₁
      exact absurd ⟨m₁, conns₁, hm₁, h₁, hc₁⟩ (hnew conns₂ c h₂ hc₂).1
    · rw [replace_ne hm₁] at h₁
      rw [replace_ne hm₂] at h₂
      exact h.disjoint m₁ m₂ conns₁ conns₂ c h₁ h₂ hc₁ hc₂
  peer m' conns c hconns hc := by
    by_cases hm : m' = m
    · subst hm
      rw [replace_self] at hconns
      exact hpeer conns c hconns hc
    · rw [replace_ne hm] at hconns
      obtain ⟨server, hserver, hold⟩ := h.peer m' conns c hconns hc
      exact ⟨server, hserver, (hother c ⟨m', conns, hm, hconns, hc⟩).2.trans hold⟩
  allocated c := by
    rw [kept_replace]
    exact hallocated c
  leaked c hc := by
    rcases (kept_replace c).mp hc with ⟨conns, hconns, hmem⟩ | hother'
    · exact (hnew conns c hconns hmem).2
    · rw [leaked_concat, List.mem_append, not_or]
      exact ⟨h.leaked c ((kept_iff m c).mpr (.inr hother')), (hother c hother').1⟩
  store server key := by
    rw [lastSet_concat, hlast]
    exact h.store server key

theorem Tracks.construct (h : Tracks hosts acts s) (hm : s.managers m = none) :
    Tracks hosts (acts ++ [.construct m]) (s.replace m s.allocated (some [])) := by
  refine h.replace (fun _ _ => rfl) (by simp) (by simp) (fun _ _ _ => rfl) ?_ ?_ ?_ ?_ fun c => ?_
  · rintro conns ⟨⟩
    exact List.nodup_nil
  · rintro conns c ⟨⟩ hc
    cases hc
  · rintro conns c ⟨⟩ hc
    cases hc
  · exact fun c _ => ⟨List.not_mem_nil, rfl⟩
  · rw [h.allocated, kept_iff m, leaked_concat]
    simp [hm, Action.leaked]

variable [DecidableEq κ]

/-- `Connect` adds contexts that nobody has, all of them to the server of the manager. -/
theorem Tracks.opens (h : Tracks hosts acts s) {attempts : List (RedisAttempt κ)} {kept : List κ}
    {server : σ} (hm : s.managers m = some conns) (hserver : hosts.server m = some server)
    (hopens : Opens server attempts s.allocated conns allocated conns' kept) (hne : conns' ≠ []) :
    Tracks hosts (acts ++ [.connect m attempts]) (s.replace m allocated (some conns')) := by
  have hleaked : Redis.leaked (acts ++ [.connect m attempts]) =
      Redis.leaked acts ++ attempts.filterMap RedisAttempt.leaked := leaked_concat ..
  -- what is in use is neither kept nor leaked by this call
  have hfresh {c : κ} (hc : (s.allocated c).isSome) :
      c ∉ kept ∧ c ∉ attempts.filterMap RedisAttempt.leaked := by
    constructor <;> intro hmem
    · rw [(hopens.kept_new c hmem).1] at hc
      cases hc
    · rw [hopens.leaked_new c hmem] at hc
      cases hc
  have hsame {c : κ} (hc : (s.allocated c).isSome) : allocated c = s.allocated c :=
    hopens.others c (hfresh hc).1 (hfresh hc).2
  have hown (c : κ) (hc : c ∈ conns) : (s.allocated c).isSome :=
    (h.allocated c).mpr (.inl ⟨m, conns, hm, hc⟩)
  have hother (c : κ) (hc : s.OtherKept m c) : (s.allocated c).isSome :=
    (h.allocated c).mpr (.inl ((kept_iff m c).mpr (.inr hc)))
  refine h.replace (fun _ _ => rfl) (by simp) (by simp [hne]) (fun _ _ _ => rfl) ?_ ?_ ?_
    (fun c hc => ⟨(hfresh (hother c hc)).2, hsame (hother c hc)⟩) fun c => ?_
  · rintro _ ⟨⟩
    rw [hopens.conns_eq, List.nodup_append]
    refine ⟨h.nodup m conns hm, hopens.kept_nodup, ?_⟩
    rintro c hc _ hkept rfl
    exact (hfresh (hown c hc)).1 hkept
  · rintro _ c ⟨⟩ hc
    rw [hopens.conns_eq, List.mem_append] at hc
    rw [hleaked, List.mem_append, not_or]
    rcases hc with hc | hc
    · exact ⟨h.not_otherKept hm hc, h.leaked c ⟨m, conns, hm, hc⟩, (hfresh (hown c hc)).2⟩
    · obtain ⟨hnew, hnot⟩ := hopens.kept_new c hc
      have hfree : ¬ (s.allocated c).isSome := Option.not_isSome_iff_eq_none.mpr hnew
      exact ⟨fun hc => hfree (hother c hc), fun hc => hfree ((h.allocated c).mpr (.inr hc)), hnot⟩
  · rintro _ c ⟨⟩ hc
    rw [hopens.conns_eq, List.mem_append] at hc
    rcases hc with hc | hc
    · obtain ⟨server', hserver', hpeer⟩ := h.peer m conns c hm hc
      exact ⟨server', hserver', (hsame (hown c hc)).trans hpeer⟩
    · exact ⟨server, hserver, hopens.opened c (.inl hc)⟩
  · have hkept : s.Kept c ↔ c ∈ conns ∨ s.OtherKept m c := by
      rw [kept_iff m, hm]
      simp
    have hnew : (∃ conns, some conns' = some conns ∧ c ∈ conns) ↔ c ∈ conns ∨ c ∈ kept := by
      rw [← List.mem_append, ← hopens.conns_eq]
      simp
    rw [hopens.isSome_iff, h.allocated, hleaked, List.mem_append, hkept, hnew]
    tauto

/-- The destructor frees exactly what the manager has. -/
theorem Tracks.frees (h : Tracks hosts acts s) (hm : s.managers m = some conns)
    (hallocated : ∀ c, allocated c = if c ∈ conns then none else s.allocated c) :
    Tracks hosts (acts ++ [.destroy m]) (s.replace m allocated none) := by
  have hown : ∀ {c}, c ∈ conns → ¬ s.OtherKept m c ∧ c ∉ Redis.leaked acts :=
    fun hc => ⟨h.not_otherKept hm hc, h.leaked _ ⟨m, conns, hm, hc⟩⟩
  have hother : ∀ c, s.OtherKept m c → allocated c = s.allocated c := by
    intro c hc
    rw [hallocated, if_neg fun hmem => (hown hmem).1 hc]
  refine h.replace (fun _ _ => rfl) (by simp) (by simp) (fun _ _ _ => rfl) (by nofun) (by nofun)
    (by nofun) (fun c hc => ⟨List.not_mem_nil, hother c hc⟩) fun c => ?_
  have hkept : s.Kept c ↔ c ∈ conns ∨ s.OtherKept m c := by
    rw [kept_iff m, hm]
    simp
  have hleaked : Redis.leaked (acts ++ [.destroy m]) = Redis.leaked acts := by
    rw [leaked_concat]
    exact List.append_nil _
  have hin := h.allocated c
  have hc := @hown c
  rw [hkept] at hin
  rw [hallocated, hleaked]
  by_cases hmem : c ∈ conns
  · simp [hmem, hc hmem]
  · simpa [hmem] using hin

theorem Tracks.freeAll (h : Tracks hosts acts s) (hm : s.managers m = some conns) :
    ∃ allocated, Redis.freeAll s.allocated conns = some allocated ∧
      ∀ c, allocated c = if c ∈ conns then none else s.allocated c :=
  freeAll_spec (h.nodup m conns hm) fun c hc => (h.allocated c).mpr (.inl ⟨m, conns, hm, hc⟩)

theorem step_tracks {a : Action μ κ} (h : Tracks hosts acts s) (hs' : step hosts s a = some s') :
    Tracks hosts (acts ++ [a]) s' := by
  cases a with
  | construct m =>
      rw [step] at hs'
      split_ifs at hs' with hm
      cases hs'
      exact h.construct hm
  | connect m attempts =>
      obtain ⟨conns, hm, hs'⟩ := Option.bind_eq_some_iff.mp hs'
      obtain ⟨server, hserver, hs'⟩ := Option.bind_eq_some_iff.mp hs'
      obtain ⟨⟨allocated, conns'⟩, hloop, hs'⟩ := Option.bind_eq_some_iff.mp hs'
      dsimp only at hs'
      split_ifs at hs' with hne
      cases hs'
      obtain ⟨kept, hopens⟩ := connectLoop_opens hloop
      exact h.opens hm hserver hopens hne
  | set m key value reply => exact h.set hs'
  | get m => exact h.get hs'
  | destroy m =>
      obtain ⟨conns, hm, hs'⟩ := Option.bind_eq_some_iff.mp hs'
      obtain ⟨allocated, hfree, hs'⟩ := Option.bind_eq_some_iff.mp hs'
      cases hs'
      obtain ⟨allocated', hfree', heq⟩ := h.freeAll hm
      rw [hfree'] at hfree
      cases hfree
      exact h.frees hm heq

/-! ## Every run -/

theorem run_tracks (h : run (step hosts) init acts = some s) : Tracks hosts acts s := by
  induction acts using List.reverseRecOn generalizing s with
  | nil =>
      cases h
      exact init_tracks
  | append_singleton acts a ih =>
      rw [run_append] at h
      obtain ⟨t, ht, hs⟩ := Option.bind_eq_some_iff.mp h
      obtain ⟨s', hs', hnil⟩ := run_cons_eq_some hs
      cases hnil
      exact step_tracks (ih ht) hs'

theorem Tracks.destroy_iff (h : Tracks hosts acts s) (m : μ) :
    (step hosts s (.destroy m)).isSome ↔ phase m acts ≠ .absent := by
  rw [ne_eq, ← h.absent]
  cases hm : s.managers m with
  | none => simp [step, destroy, hm]
  | some conns =>
      obtain ⟨allocated, hfree, -⟩ := h.freeAll hm
      simp [step, destroy, hm, hfree]

/-- What the managers can be relied on for after these actions. -/
structure Reliable (hosts : RedisHosts μ σ) (acts : List (Action μ κ)) (s : Redis μ κ σ) : Prop where
  set_iff : ∀ m key value reply,
    (step hosts s (.set m key value reply)).isSome ↔ phase m acts = .connected
  get_iff : ∀ m, (step hosts s (.get m)).isSome ↔ phase m acts = .connected
  destroy_iff : ∀ m, (step hosts s (.destroy m)).isSome ↔ phase m acts ≠ .absent
  allocated_iff : ∀ c, (s.allocated c).isSome ↔ s.Kept c ∨ c ∈ leaked acts
  getResult : ∀ m key value, phase m acts = .connected → ∃ server, hosts.server m = some server ∧
    s.getResult m key value .answered =
      some (true, (lastSet hosts server (cStr key) acts).getD value)

/-- Over every run of any number of managers: commands and the destructor are defined exactly where
`Connect` and the constructor have been called, what is allocated at any time are the contexts of
the managers and those whose `AUTH` has failed, and `Get` finds what was stored last in the server
of its manager. -/
theorem reliable_after (hosts : RedisHosts μ σ) (acts : List (Action μ κ)) (s : Redis μ κ σ)
    (h : run (step hosts) init acts = some s) : Reliable hosts acts s where
  set_iff m key value reply := by
    rw [← (run_tracks h).command_iff, step, set]
    cases s.command m <;> rfl
  get_iff m := by
    rw [← (run_tracks h).command_iff, step, get]
    cases s.command m <;> rfl
  destroy_iff := (run_tracks h).destroy_iff
  allocated_iff := (run_tracks h).allocated
  getResult m key value hm := (run_tracks h).getResult hm key value

def byPort : RedisHosts (Fin 3) Int32 where
  addr m := bytesOf (if m = 2 then "h:6380" else "h:6379")
  resolve _ port := port

/-- One manager is refused once, another one reads what it has stored, and a third one has another
server. -/
def threeManagers : List (Action (Fin 3) ℕ) :=
  [.construct 0, .connect 0 [.refused 1, .authorized 2], .construct 1,
    .connect 1 [.null, .authorized 3], .construct 2, .connect 2 [.authorized 4],
    .set 0 [107] [7, 0, 8] .ok, .set 2 [107] [9] .ok, .get 1]

/-- The value that is read ends before its NUL, and the refused context stays allocated. -/
example : ((run (step byPort) init (threeManagers ++ [.destroy 0])).map fun s =>
    (s.getResult 1 [107] [] .answered, s.allocated 1, s.allocated 2)) =
      some (some (true, [7]), some 6379, none) := by decide +kernel

theorem three_managers_reliable : ∃ s,
    run (step byPort) init threeManagers = some s ∧ Reliable byPort threeManagers s := by
  have hrun : (run (step byPort) init threeManagers).isSome = true := by decide +kernel
  obtain ⟨s, hs⟩ := Option.isSome_iff_exists.mp hrun
  exact ⟨s, hs, reliable_after byPort threeManagers s hs⟩

end TinyGameServer.Redis
