import Mathlib.Tactic.SplitIfs
import TinyGameServer.ConnectionRelease
import TinyGameServer.ProcessLoops

/-!
# Is a connection disturbed by the others?

Connections on one loop share its queue and its batches, and the functors and handlers of all of
them are run one after the other. As long as no two connections have the same slot, what one
connection sees is a run of the loop that it would have to itself, whatever the others do.
-/

namespace TinyGameServer

/-- Items belong to connections of the loop, and a connection whose start functor waits has nothing
in the batch. -/
structure LoopQueues.Tidy (l : LoopQueues) (placed : ConnSPtr → Prop) : Prop where
  pending : ∀ c ∈ l.pending.map Prod.fst, placed c
  batch : ∀ c ∈ l.batch.map Prod.fst, placed c
  functors : ∀ c ∈ l.functors.map Prod.fst, placed c
  todo : ∀ c ∈ l.todo.map Prod.fst, placed c
  fresh : ∀ c, (itemsOf c l.pending).any ConnFunctor.isStart = true →
    c ∉ l.batch.map Prod.fst ∧ c ∉ l.functors.map Prod.fst

theorem LoopQueues.Tidy.mono {l : LoopQueues} {placed placed' : ConnSPtr → Prop} (h : l.Tidy placed)
    (hplaced : ∀ c, placed c → placed' c) : l.Tidy placed' where
  pending c hc := hplaced c (h.pending c hc)
  batch c hc := hplaced c (h.batch c hc)
  functors c hc := hplaced c (h.functors c hc)
  todo c hc := hplaced c (h.todo c hc)
  fresh := h.fresh

theorem LoopQueues.Tidy.tick {l : LoopQueues} {placed : ConnSPtr → Prop} {c : ConnSPtr}
    {i : Statement} {rest : List (ConnSPtr × Statement)} (h : l.Tidy placed)
    (htodo : l.todo = (c, i) :: rest) (more : List Statement) :
    LoopQueues.Tidy { l with todo := more.map (c, ·) ++ rest } placed := by
  refine ⟨h.pending, h.batch, h.functors, fun d hd => h.todo d ?_, h.fresh⟩
  rw [htodo, List.map_cons, List.mem_cons]
  rw [List.map_append, List.mem_append] at hd
  rcases hd with hnew | hold
  · obtain ⟨_, hmem, rfl⟩ := List.mem_map.mp hnew
    obtain ⟨_, -, rfl⟩ := List.mem_map.mp hmem
    exact .inl rfl
  · exact .inr hold

theorem ConnectionLoop.exec_append {v v' : ConnectionLoop} {i : Statement}
    (h : { v with todo := [] : ConnectionLoop }.exec i = some v') (rest : List Statement) :
    { v with todo := rest : ConnectionLoop }.exec i =
      some { v' with todo := v'.todo ++ rest : ConnectionLoop } := by
  cases i with
  | handleWrite w =>
      obtain ⟨len, conn, hwrite, rfl⟩ := exec_handleWrite h
      by_cases hlen : 0 < len
      · simp [exec, hwrite, hlen]
      · simp [exec, hwrite, hlen]
  | directWrite buf w =>
      obtain ⟨remaining, buf', conn, hwrite, rfl⟩ := exec_directWrite h
      simp [exec, hwrite]
  | queueRest buf remaining =>
      obtain ⟨conn, hqueue, rfl⟩ := exec_queueRest h
      simp [exec, hqueue]
  | handleRead r =>
      rcases r with _ | _ | ⟨x, bytes⟩
      · cases h
        rfl
      · cases h
        rfl
      · cases h
        rfl
  | _ =>
      cases h
      rfl

namespace ConnObject

variable {ι κ : Type} {o : ConnObject ι κ} {c d : ConnSPtr} {registry : Bool} {l : LoopQueues}

theorem view_post (f : ConnFunctor) (hf : f.isStart = false) :
    o.view c registry { l with pending := l.pending ++ [(c, f)] } =
      { o.view c registry l with pending := (o.view c registry l).pending ++ [f] } := by
  simp [view, hf]

theorem view_post_ne (h : d ≠ c) (f : ConnFunctor) :
    o.view c registry { l with pending := l.pending ++ [(d, f)] } = o.view c registry l := by
  simp [view, itemsOf_cons_ne h]

end ConnObject

namespace ProcessLoops

variable {ι κ : Type}

def Placed (s : ProcessLoops ι κ) (loop : ι) (c : ConnSPtr) : Prop :=
  ∃ o, s.objects[c]? = some o ∧ o.loop = loop

structure Consistent (s : ProcessLoops ι κ) : Prop where
  tidy : ∀ loop, (s.loops loop).Tidy (s.Placed loop)
  slots : ∀ {c d : ConnSPtr} {o p : ConnObject ι κ}, s.objects[c]? = some o →
    s.objects[d]? = some p → o.slot = p.slot → c = d

variable {s s' : ProcessLoops ι κ} {c d : ConnSPtr} {o o' : ConnObject ι κ} {loop : ι}
  {l : LoopQueues}

theorem init_consistent : (init : ProcessLoops ι κ).Consistent where
  tidy loop := by constructor <;> simp [init]
  slots h := by cases h

/-! ## Objects -/

theorem view_of_some (ho : s.objects[c]? = some o) :
    s.view c = o.view c (s.registered c o) (s.loops o.loop) := by
  rw [view, ho]

theorem setObject_self (ho : s.objects[c]? = some o) : (s.setObject c o').objects[c]? = some o' :=
  List.getElem?_set_self (List.getElem?_eq_some_iff.mp ho).1

theorem setObject_ne (h : d ≠ c) : (s.setObject d o').objects[c]? = s.objects[c]? :=
  List.getElem?_set_ne h

theorem view_setObject_self (ho : s.objects[c]? = some o) :
    (s.setObject c o').view c = o'.view c (s.registered c o') (s.loops o'.loop) :=
  view_of_some (setObject_self ho)

theorem view_setObject_ne (h : d ≠ c) : (s.setObject d o').view c = s.view c := by
  rw [view, view, setObject_ne h]
  rfl

theorem Placed.setObject (h : s.Placed loop c) (ho : s.objects[d]? = some o)
    (hloop : o'.loop = o.loop) : (s.setObject d o').Placed loop c := by
  obtain ⟨p, hp, rfl⟩ := h
  by_cases hd : d = c
  · subst hd
    rw [ho] at hp
    cases hp
    exact ⟨o', setObject_self ho, hloop⟩
  · exact ⟨p, by rw [setObject_ne hd, hp], rfl⟩

theorem Consistent.setObject (h : s.Consistent) (ho : s.objects[c]? = some o)
    (hloop : o'.loop = o.loop) (hslot : o'.slot = o.slot) : (s.setObject c o').Consistent where
  tidy loop := (h.tidy loop).mono fun _ hplaced => hplaced.setObject ho hloop
  slots := by
    have hold : ∀ {d : ConnSPtr} {p : ConnObject ι κ}, (s.setObject c o').objects[d]? = some p →
        ∃ q, s.objects[d]? = some q ∧ p.slot = q.slot := by
      intro d p hp
      by_cases hd : c = d
      · subst hd
        rw [setObject_self ho] at hp
        cases hp
        exact ⟨o, ho, hslot⟩
      · rw [setObject_ne hd] at hp
        exact ⟨p, hp, rfl⟩
    intro d e p q hp hq hsame
    obtain ⟨p', hp', hslotp⟩ := hold hp
    obtain ⟨q', hq', hslotq⟩ := hold hq
    exact h.slots hp' hq' (hslotp.symm.trans (hsame.trans hslotq))

/-! ## Loops and slots -/

variable [DecidableEq ι]

theorem setLoop_self : (s.setLoop loop l).loops loop = l := Function.update_self ..

theorem setLoop_ne {loop' : ι} (h : loop' ≠ loop) :
    (s.setLoop loop l).loops loop' = s.loops loop' := Function.update_of_ne h ..

theorem Consistent.setLoop (h : s.Consistent) (hl : l.Tidy (s.Placed loop)) :
    (s.setLoop loop l).Consistent where
  tidy loop' := by
    by_cases hne : loop' = loop
    · subst hne
      rw [setLoop_self]
      exact hl
    · rw [setLoop_ne hne]
      exact h.tidy loop'
  slots := h.slots

theorem view_setLoop_self (ho : s.objects[c]? = some o) :
    (s.setLoop o.loop l).view c = o.view c (s.registered c o) l := by
  rw [view_of_some (s := s.setLoop o.loop l) ho, setLoop_self]
  rfl

theorem view_setLoop_same
    (hsame : ∀ o registry, s.objects[c]? = some o → o.loop = loop →
      o.view c registry l = o.view c registry (s.loops loop)) :
    (s.setLoop loop l).view c = s.view c := by
  cases ho : s.objects[c]? with
  | none =>
      have ho' : (s.setLoop loop l).objects[c]? = none := ho
      rw [view, view, ho, ho']
  | some o =>
      by_cases hloop : o.loop = loop
      · subst hloop
        rw [view_setLoop_self ho, view_of_some ho, hsame o _ ho rfl]
      · rw [view_of_some (s := s.setLoop loop l) ho, view_of_some ho, setLoop_ne hloop]
        rfl

theorem view_post_self (ho : s.objects[c]? = some o) {f : ConnFunctor} (hf : f.isStart = false) :
    (s.post o.loop c f).view c = { s.view c with pending := (s.view c).pending ++ [f] } := by
  rw [post, view_setLoop_self ho, ConnObject.view_post f hf, view_of_some ho]

theorem view_post_ne (h : d ≠ c) (f : ConnFunctor) : (s.post loop d f).view c = s.view c :=
  view_setLoop_same fun _ _ _ _ => ConnObject.view_post_ne h f

theorem Consistent.post (h : s.Consistent) (hplaced : s.Placed loop c) {f : ConnFunctor}
    (hf : f.isStart = false) : (s.post loop c f).Consistent := by
  have hl := h.tidy loop
  refine h.setLoop ⟨?_, hl.batch, hl.functors, hl.todo, ?_⟩
  · intro d hd
    rw [List.map_append, List.mem_append] at hd
    rcases hd with hold | hnew
    · exact hl.pending d hold
    · obtain rfl := List.mem_singleton.mp hnew
      exact hplaced
  · intro d hd
    apply hl.fresh
    by_cases hne : c = d
    · subst hne
      simpa [hf] using hd
    · simpa [itemsOf_cons_ne hne] using hd

variable [DecidableEq κ] {slot : κ} {x : Option ConnSPtr}

omit [DecidableEq ι] in
theorem view_setSlot_ne (h : ∀ o, s.objects[c]? = some o → o.slot ≠ slot) :
    (s.setSlot slot x).view c = s.view c := by
  cases ho : s.objects[c]? with
  | none =>
      have ho' : (s.setSlot slot x).objects[c]? = none := ho
      rw [view, view, ho, ho']
  | some o =>
      have hslot : (s.setSlot slot x).connections o.slot = s.connections o.slot :=
        Function.update_of_ne (h o ho) ..
      rw [view_of_some (s := s.setSlot slot x) ho, view_of_some ho, registered, registered, hslot]
      rfl

omit [DecidableEq ι] in
theorem Consistent.setSlot (h : s.Consistent) : (s.setSlot slot x).Consistent := ⟨h.tidy, h.slots⟩

omit [DecidableEq ι] in
theorem Consistent.closeSlot (h : s.Consistent) (i : Statement) :
    (s.closeSlot slot i).Consistent := by
  cases i with
  | closeCb => exact h.setSlot
  | _ => exact h

omit [DecidableEq ι] in
theorem closeSlot_frame (s : ProcessLoops ι κ) (slot : κ) (i : Statement) :
    (s.closeSlot slot i).objects = s.objects ∧ (s.closeSlot slot i).loops = s.loops := by
  cases i <;> exact ⟨rfl, rfl⟩

omit [DecidableEq ι] in
theorem view_closeSlot_ne (h : s.Consistent) (ho : s.objects[d]? = some o) (hd : d ≠ c)
    (i : Statement) : (s.closeSlot o.slot i).view c = s.view c := by
  cases i with
  | closeCb => exact view_setSlot_ne fun p hp hsame => hd (h.slots ho hp hsame.symm)
  | _ => rfl

omit [DecidableEq ι] in
/-- The close callback does to the slot what it does to the registry of the connection alone. -/
theorem registered_closeSlot {i : Statement} {l' : LoopQueues} {v : ConnectionLoop}
    (hexec : { o.view c (s.registered c o) l' with todo := [] : ConnectionLoop }.exec i = some v) :
    (s.closeSlot o.slot i).registered c o = v.registry := by
  cases i with
  | closeCb =>
      cases hexec
      simp [closeSlot, registered, setSlot]
  | handleRead r =>
      have hregistry := (ConnectionLoop.exec_registry hexec fun hi => by cases hi).1
      rw [hregistry]
      rfl
  | _ =>
      have hregistry := (ConnectionLoop.exec_registry hexec fun hi => by cases hi).1
      rw [hregistry]
      rfl

/-! ## One action -/

/-- The action keeps the queues tidy, and the connection takes the steps that it is for it. -/
def Local (c : ConnSPtr) (s : ProcessLoops ι κ) (a : Action ι κ) (s' : ProcessLoops ι κ) : Prop :=
  s'.Consistent ∧ run ConnectionLoop.step (s.view c) (project c s a) = some (s'.view c)

omit [DecidableEq κ] in
theorem local_of_own {a : Action ι κ} {b : ConnectionLoop.Action} (hs' : s'.Consistent)
    (hproject : project c s a = if d = c then [b] else [])
    (hown : ConnectionLoop.step (s.view d) b = some (s'.view d))
    (hother : d ≠ c → s'.view c = s.view c) : Local c s a s' := by
  refine ⟨hs', ?_⟩
  rw [hproject]
  by_cases hd : d = c
  · subst hd
    rw [if_pos rfl, run_cons, hown]
    rfl
  · rw [if_neg hd, hother hd]
    rfl

omit [DecidableEq ι] [DecidableEq κ] in
theorem view_count (ho : s.objects[c]? = some o) : (s.view c).count = s.count c o := by
  rw [view_of_some ho]
  rfl

theorem sendChecked_local (h : s.Consistent) {buf : Buffer}
    (hs' : step s (.sendChecked d buf) = some s') (c : ConnSPtr) :
    Local c s (.sendChecked d buf) s' := by
  obtain ⟨o, ho, hs'⟩ := Option.bind_eq_some_iff.mp hs'
  split_ifs at hs' with hcond
  cases hs'
  refine local_of_own (h.setObject ho rfl rfl) rfl ?_ view_setObject_ne
  rw [view_setObject_self ho, view_of_some ho]
  exact if_pos hcond

theorem sendPosted_local (h : s.Consistent) {i : ℕ}
    (hs' : step s (.sendPosted d i) = some s') (c : ConnSPtr) :
    Local c s (.sendPosted d i) s' := by
  obtain ⟨o, ho, hs'⟩ := Option.bind_eq_some_iff.mp hs'
  obtain ⟨buf, hbuf, hs'⟩ := Option.bind_eq_some_iff.mp hs'
  split_ifs at hs' with hcount
  cases hs'
  obtain ⟨o', hset⟩ : ∃ o', o' = { o with sending := o.sending.eraseIdx i } := ⟨_, rfl⟩
  rw [← hset]
  have hloop : o'.loop = o.loop := by rw [hset]
  have ho' : (s.setObject d o').objects[d]? = some o' := setObject_self ho
  have hconsistent := h.setObject ho hloop (by rw [hset])
  rw [← hloop]
  refine local_of_own (hconsistent.post ⟨o', ho', rfl⟩ rfl) rfl ?_ fun hd => ?_
  · rw [view_post_self ho' rfl, view_setObject_self ho, hloop, hset, view_of_some ho]
    exact Option.map_eq_some_iff.mpr ⟨buf, hbuf, rfl⟩
  · rw [view_post_ne hd, view_setObject_ne hd]

theorem close_local (h : s.Consistent) (hs' : step s (.close d) = some s') (c : ConnSPtr) :
    Local c s (.close d) s' := by
  obtain ⟨o, ho, hs'⟩ := Option.bind_eq_some_iff.mp hs'
  split_ifs at hs' with hcount
  cases hs'
  refine local_of_own (h.post ⟨o, ho, rfl⟩ rfl) rfl ?_ fun hd => view_post_ne hd _
  rw [view_post_self ho rfl]
  exact if_pos ((view_count ho).symm ▸ hcount)

theorem hold_local (h : s.Consistent) (hs' : step s (.hold d) = some s') (c : ConnSPtr) :
    Local c s (.hold d) s' := by
  obtain ⟨o, ho, hs'⟩ := Option.bind_eq_some_iff.mp hs'
  split_ifs at hs' with hcount
  cases hs'
  refine local_of_own (h.setObject ho rfl rfl) rfl ?_ view_setObject_ne
  rw [view_setObject_self ho, view_of_some ho]
  exact if_pos hcount

theorem drop_local (h : s.Consistent) (hs' : step s (.drop d) = some s') (c : ConnSPtr) :
    Local c s (.drop d) s' := by
  obtain ⟨o, ho, hs'⟩ := Option.bind_eq_some_iff.mp hs'
  split_ifs at hs' with husers
  cases hs'
  refine local_of_own (h.setObject ho rfl rfl) rfl ?_ view_setObject_ne
  rw [view_setObject_self ho, view_of_some ho]
  exact if_pos husers

theorem dispatch_local (h : s.Consistent) {which : Interest} {r : ReadResult} {w : WriteResult}
    (hs' : step s (.dispatch d which r w) = some s') (c : ConnSPtr) :
    Local c s (.dispatch d which r w) s' := by
  obtain ⟨o, ho, hs'⟩ := Option.bind_eq_some_iff.mp hs'
  dsimp only at hs'
  split_ifs at hs' with hcond
  cases hs'
  obtain ⟨htodo, hrunning, hcount, hne, hwithin⟩ := hcond
  have hl := h.tidy o.loop
  refine local_of_own (h.setLoop ⟨hl.pending, hl.batch, hl.functors, ?_, hl.fresh⟩) rfl ?_ ?_
  · intro e he
    obtain ⟨_, hmem, rfl⟩ := List.mem_map.mp he
    obtain ⟨_, -, rfl⟩ := List.mem_map.mp hmem
    exact ⟨o, ho, rfl⟩
  · rw [view_setLoop_self ho, view_of_some ho, ConnectionLoop.step, if_pos]
    · simp [ConnObject.view]
    · refine ⟨?_, ?_, hcount, hne, hwithin⟩
      · simp [ConnObject.view, htodo]
      · simp [ConnObject.view, hrunning]
  · intro hd
    apply view_setLoop_same
    intro o' _ _ _
    simp [ConnObject.view, htodo, itemsOf_map_ne hd]

theorem beginBatch_local (h : s.Consistent) (hs' : step s (.beginBatch loop) = some s')
    (c : ConnSPtr) : Local c s (.beginBatch loop) s' := by
  have hl := h.tidy loop
  dsimp only [step] at hs'
  split_ifs at hs' with hcond
  cases hs'
  obtain ⟨htodo, hrunning⟩ := hcond
  refine ⟨h.setLoop ⟨by simp, hl.pending, hl.pending, by simp, by simp⟩, ?_⟩
  rw [project]
  split_ifs with hloop
  · obtain ⟨o, ho, rfl⟩ := Option.map_eq_some_iff.mp hloop
    rw [run_cons, view_setLoop_self ho, view_of_some ho, ConnectionLoop.step, if_pos]
    · simp [ConnObject.view, htodo]
    · simp [ConnObject.view, htodo, hrunning]
  · rw [run_nil, view_setLoop_same]
    intro o _ ho hloop'
    exact absurd (Option.map_eq_some_iff.mpr ⟨o, ho, hloop'⟩) hloop

theorem endBatch_local (h : s.Consistent) (hs' : step s (.endBatch loop) = some s')
    (c : ConnSPtr) : Local c s (.endBatch loop) s' := by
  have hl := h.tidy loop
  dsimp only [step] at hs'
  split_ifs at hs' with hcond
  cases hs'
  obtain ⟨htodo, hrunning, hbatch⟩ := hcond
  refine ⟨h.setLoop ⟨hl.pending, hl.batch, by simp, hl.todo, fun e he => ?_⟩, ?_⟩
  · exact ⟨(hl.fresh e he).1, by simp⟩
  · rw [project]
    split_ifs with hcond
    · obtain ⟨hloop, hview⟩ := hcond
      obtain ⟨o, ho, rfl⟩ := Option.map_eq_some_iff.mp hloop
      rw [view_of_some ho] at hview
      rw [run_cons, view_setLoop_self ho, view_of_some ho, ConnectionLoop.step, if_pos]
      · simp [ConnObject.view, ConnectionLoop.refs]
      · refine ⟨?_, hview, ?_⟩
        · simp [ConnObject.view, htodo]
        · simp [ConnObject.view, hbatch]
    · rw [run_nil, view_setLoop_same]
      rintro o _ ho rfl
      -- the start functor waits, so that the batch that ends has nothing of this connection
      have hview : (s.view c).running = false :=
        eq_false_of_ne_true fun hview => hcond ⟨Option.map_eq_some_iff.mpr ⟨o, ho, rfl⟩, hview⟩
      rw [view_of_some ho] at hview
      have hstart : (itemsOf c (s.loops o.loop).pending).any ConnFunctor.isStart = true := by
        simpa [ConnObject.view, hrunning] using hview
      have hfunctors := itemsOf_eq_nil (hl.fresh c hstart).2
      simp [ConnObject.view, hfunctors, hstart, ConnectionLoop.refs]

omit [DecidableEq ι] [DecidableEq κ] in
/-- A start functor finds its own connection in the slot. -/
theorem target_of_batch (h : s.Consistent) (hviews : ∀ c, (s.view c).Consistent) {f : ConnFunctor}
    {rest : List (ConnSPtr × ConnFunctor)} (hbatch : (s.loops loop).batch = (d, f) :: rest) :
    s.target d f = some d := by
  cases f with
  | start =>
      have hd : d ∈ (s.loops loop).batch.map Prod.fst := by simp [hbatch]
      obtain ⟨o, ho, rfl⟩ := (h.tidy loop).batch d hd
      have hstart : .start ∈ (s.view d).batch ++ (s.view d).pending := by
        rw [view_of_some ho]
        simp [ConnObject.view, hbatch]
      have hregistry := ((hviews d).unstarted hstart).registry
      rw [view_of_some ho] at hregistry
      rw [target, ho]
      exact of_decide_eq_true hregistry
  | _ => rfl

theorem runFunctor_local (h : s.Consistent) (hviews : ∀ c, (s.view c).Consistent) {w : WriteResult}
    (hs' : step s (.runFunctor loop w) = some s') (c : ConnSPtr) :
    Local c s (.runFunctor loop w) s' := by
  have hl := h.tidy loop
  dsimp only [step] at hs'
  split_ifs at hs' with hcond
  obtain ⟨htodo, hrunning⟩ := hcond
  split at hs'
  · cases hs'
  · rename_i d f rest hbatch
    rw [target_of_batch h hviews hbatch] at hs'
    cases hs'
    have hd : d ∈ (s.loops loop).batch.map Prod.fst := by simp [hbatch]
    have hplaced := hl.batch d hd
    have hrest : ∀ e ∈ rest.map Prod.fst, e ∈ (s.loops loop).batch.map Prod.fst := by
      intro e he
      rw [hbatch]
      exact List.mem_cons_of_mem d he
    refine ⟨h.setLoop ⟨hl.pending, fun e he => hl.batch e (hrest e he), hl.functors, ?_, ?_⟩, ?_⟩
    · intro e he
      obtain ⟨_, hmem, rfl⟩ := List.mem_map.mp he
      obtain ⟨_, -, rfl⟩ := List.mem_map.mp hmem
      exact hplaced
    · intro e he
      obtain ⟨hnot, hnot'⟩ := hl.fresh e he
      exact ⟨fun hmem => hnot (hrest e hmem), hnot'⟩
    · rw [project, hbatch, List.head?_cons, Option.map_some]
      by_cases hdc : d = c
      · subst hdc
        obtain ⟨o, ho, rfl⟩ := hplaced
        have hstart : ¬ (itemsOf d (s.loops o.loop).pending).any ConnFunctor.isStart = true :=
          fun hstart => (hl.fresh d hstart).1 hd
        rw [if_pos rfl, run_cons, view_setLoop_self ho, view_of_some ho, ConnectionLoop.step, if_pos]
        · simp [ConnObject.view, hbatch]
        · simp [ConnObject.view, htodo, hrunning, eq_false_of_ne_true hstart]
      · rw [if_neg fun heq => hdc (Option.some.inj heq), run_nil, view_setLoop_same]
        intro o _ _ _
        simp [ConnObject.view, hbatch, htodo, itemsOf_cons_ne hdc, itemsOf_map_ne hdc]

omit [DecidableEq ι] [DecidableEq κ] in
theorem tick_view {i : Statement} {rest : List (ConnSPtr × Statement)} {v : ConnectionLoop}
    (ho : s.objects[c]? = some o) (htodo : (s.loops o.loop).todo = (c, i) :: rest)
    (hexec : { o.view c (s.registered c o) (s.loops o.loop) with todo := [] : ConnectionLoop }.exec i =
      some v) :
    ConnectionLoop.step (s.view c) .tick =
      some { v with todo := v.todo ++ itemsOf c rest : ConnectionLoop } := by
  have hview : (o.view c (s.registered c o) (s.loops o.loop)).todo = i :: itemsOf c rest := by
    simp [ConnObject.view, htodo]
  rw [view_of_some ho, ConnectionLoop.step, hview]
  exact ConnectionLoop.exec_append hexec _

theorem tick_local (h : s.Consistent) (hs' : step s (.tick loop) = some s') (c : ConnSPtr) :
    Local c s (.tick loop) s' := by
  have hl := h.tidy loop
  rw [step] at hs'
  split at hs'
  · cases hs'
  · rename_i d i rest htodo
    obtain ⟨o, ho, hs'⟩ := Option.bind_eq_some_iff.mp hs'
    split_ifs at hs' with hcount
    obtain ⟨v, hexec, hs'⟩ := Option.bind_eq_some_iff.mp hs'
    cases hs'
    have hd : d ∈ (s.loops loop).todo.map Prod.fst := by simp [htodo]
    obtain ⟨p, hp, hloop⟩ := hl.todo d hd
    rw [ho] at hp
    cases hp
    subst hloop
    have hregistered := registered_closeSlot hexec
    have hclose : (s.closeSlot o.slot i).Consistent := h.closeSlot i
    obtain ⟨hobjects, hloops⟩ := closeSlot_frame s o.slot i
    have hview (hdc : d ≠ c) : (s.closeSlot o.slot i).view c = s.view c :=
      view_closeSlot_ne h ho hdc i
    generalize s.closeSlot o.slot i = u at hregistered hclose hobjects hloops hview ⊢
    have hou : u.objects[d]? = some o := by rw [hobjects, ho]
    have h' : (u.setObject d (o.update v)).Consistent := hclose.setObject hou rfl rfl
    have htidy : (s.loops o.loop).Tidy ((u.setObject d (o.update v)).Placed o.loop) := by
      rw [← hloops]
      exact h'.tidy o.loop
    refine ⟨h'.setLoop (htidy.tick htodo v.todo), ?_⟩
    rw [project, htodo, List.head?_cons, Option.map_some]
    by_cases hdc : d = c
    · subst hdc
      rw [if_pos rfl, run_cons, tick_view ho htodo hexec, Option.bind_some, run_nil]
      refine congrArg some ((view_setLoop_self (setObject_self hou)).trans ?_).symm
      have hregistry : (u.setObject d (o.update v)).registered d (o.update v) = v.registry :=
        hregistered
      rw [hregistry]
      obtain ⟨hbatch, hpending, hrunning, hrefs⟩ := ConnectionLoop.exec_frame hexec
      obtain ⟨conn, registry, users, temps, pending, batch, batchRefs, running, todo⟩ := v
      dsimp only at hbatch hpending hrunning hrefs
      subst hbatch hpending hrunning hrefs
      simp [ConnObject.view, ConnObject.update]
    · rw [if_neg fun heq => hdc (Option.some.inj heq), run_nil, view_setLoop_same,
        view_setObject_ne hdc, hview hdc]
      intro o' registry _ _
      change o'.view c registry _ = o'.view c registry (u.loops o.loop)
      rw [hloops]
      simp [ConnObject.view, htodo, itemsOf_cons_ne hdc, itemsOf_map_ne hdc]

omit [DecidableEq ι] [DecidableEq κ] in
theorem view_concat_ne (hc : c ≠ s.objects.length) :
    ({ s with objects := s.objects ++ [o] } : ProcessLoops ι κ).view c = s.view c := by
  have hobjects : (s.objects ++ [o])[c]? = s.objects[c]? := by
    rcases Nat.lt_or_gt_of_ne hc with hlt | hgt
    · exact List.getElem?_append_left hlt
    · rw [List.getElem?_eq_none (by simp; omega), List.getElem?_eq_none (by omega)]
  rw [view, view, hobjects]
  rfl

omit [DecidableEq ι] [DecidableEq κ] in
theorem not_placed_length : ¬ s.Placed loop s.objects.length := by
  rintro ⟨o, ho, -⟩
  rw [List.getElem?_eq_none (Nat.le_refl _)] at ho
  cases ho

omit [DecidableEq ι] [DecidableEq κ] in
theorem Placed.concat (h : s.Placed loop c) :
    ({ s with objects := s.objects ++ [o] } : ProcessLoops ι κ).Placed loop c := by
  obtain ⟨p, hp, hloop⟩ := h
  refine ⟨p, ?_, hloop⟩
  change (s.objects ++ [o])[c]? = some p
  rw [List.getElem?_append_left (List.getElem?_eq_some_iff.mp hp).1, hp]

omit [DecidableEq ι] [DecidableEq κ] in
theorem Consistent.concat (h : s.Consistent) (hslot : o.slot ∉ s.objects.map ConnObject.slot) :
    ({ s with objects := s.objects ++ [o] } : ProcessLoops ι κ).Consistent where
  tidy loop := (h.tidy loop).mono fun _ hc => hc.concat
  slots := by
    have hfresh : ∀ {c : ConnSPtr} {p : ConnObject ι κ}, s.objects[c]? = some p → p.slot ≠ o.slot :=
      fun hp hsame => hslot (hsame ▸ List.mem_map_of_mem (List.mem_of_getElem? hp))
    intro c d p q hp hq hsame
    rcases TCPServer.getElem?_concat_eq_some.mp hp with hold | ⟨rfl, rfl⟩ <;>
      rcases TCPServer.getElem?_concat_eq_some.mp hq with hold' | ⟨rfl, rfl⟩
    · exact h.slots hold hold' hsame
    · exact absurd hsame (hfresh hold)
    · exact absurd hsame.symm (hfresh hold')
    · rfl

theorem handleNewConn_local (h : s.Consistent) (hfresh : s.FreshSlot (.handleNewConn loop slot))
    (hs' : step s (.handleNewConn loop slot) = some s') (c : ConnSPtr) :
    Local c s (.handleNewConn loop slot) s' := by
  have hl := h.tidy loop
  have hnew (queue : List (ConnSPtr × ConnFunctor))
      (hqueue : ∀ c ∈ queue.map Prod.fst, s.Placed loop c) :
      s.objects.length ∉ queue.map Prod.fst :=
    fun hmem => not_placed_length (hqueue _ hmem)
  cases hs'
  obtain ⟨o, ho⟩ : ∃ o : ConnObject ι κ, o = { loop, slot } := ⟨_, rfl⟩
  obtain ⟨t, ht⟩ : ∃ t : ProcessLoops ι κ,
    t = { s with objects := s.objects ++ [o] : ProcessLoops ι κ }.setSlot slot
      (some s.objects.length) := ⟨_, rfl⟩
  rw [← ho, ← ht]
  have hloops : t.loops = s.loops := by rw [ht]; rfl
  have hobject : t.objects[s.objects.length]? = some o := by
    rw [ht]
    exact List.getElem?_concat_length
  have hregistered : t.registered s.objects.length o = true := by
    rw [ht, ho]
    simp [registered, setSlot]
  have hloop : o.loop = loop := by rw [ho]
  have hslot : o.slot = slot := by rw [ho]
  have hold : t.Consistent := by
    rw [ht]
    exact (h.concat (hslot ▸ hfresh)).setSlot
  constructor
  · have hlt := hold.tidy loop
    refine hold.setLoop ⟨?_, hlt.batch, hlt.functors, hlt.todo, ?_⟩
    · intro d hd
      rw [List.map_append, List.mem_append] at hd
      rcases hd with hd | hd
      · exact hlt.pending d hd
      · obtain rfl := List.mem_singleton.mp hd
        exact ⟨o, hobject, hloop⟩
    · intro d hd
      by_cases hne : s.objects.length = d
      · subst hne
        rw [hloops]
        exact ⟨hnew _ hl.batch, hnew _ hl.functors⟩
      · apply hlt.fresh
        simpa [itemsOf_cons_ne hne] using hd
  · by_cases hc : c = s.objects.length
    · subst hc
      have hnone : s.objects[s.objects.length]? = none := List.getElem?_eq_none (Nat.le_refl _)
      have htodo : itemsOf s.objects.length (s.loops loop).todo = [] :=
        itemsOf_eq_nil fun hmem => not_placed_length (hl.todo _ hmem)
      subst hloop
      refine congrArg some (Eq.trans ?_ (view_setLoop_self hobject).symm)
      rw [view, hnone, hregistered, hloops, ho]
      simp [ConnObject.view, ConnectionLoop.init, itemsOf_eq_nil (hnew _ hl.pending),
        itemsOf_eq_nil (hnew _ hl.batch), itemsOf_eq_nil (hnew _ hl.functors), htodo,
        ConnFunctor.isStart, ConnectionLoop.refs]
    · rw [project, run_nil, view_post_ne (Ne.symm hc), ht, view_setSlot_ne, view_concat_ne hc]
      intro p hp hsame
      rcases TCPServer.getElem?_concat_eq_some.mp hp with hp | ⟨hlast, -⟩
      · exact hfresh (hsame ▸ List.mem_map_of_mem (List.mem_of_getElem? hp))
      · exact hc hlast

structure Sound (s : ProcessLoops ι κ) : Prop where
  consistent : s.Consistent
  views : ∀ c, (s.view c).Consistent

omit [DecidableEq ι] [DecidableEq κ] in
theorem init_sound : (init : ProcessLoops ι κ).Sound :=
  ⟨init_consistent, fun _ => ConnectionLoop.init_consistent⟩

theorem step_local (h : s.Sound) {a : Action ι κ} (hfresh : s.FreshSlot a)
    (hs' : step s a = some s') (c : ConnSPtr) : Local c s a s' := by
  cases a with
  | handleNewConn loop slot => exact handleNewConn_local h.consistent hfresh hs' c
  | sendChecked d buf => exact sendChecked_local h.consistent hs' c
  | sendPosted d i => exact sendPosted_local h.consistent hs' c
  | close d => exact close_local h.consistent hs' c
  | hold d => exact hold_local h.consistent hs' c
  | drop d => exact drop_local h.consistent hs' c
  | dispatch d which r w => exact dispatch_local h.consistent hs' c
  | beginBatch loop => exact beginBatch_local h.consistent hs' c
  | runFunctor loop w => exact runFunctor_local h.consistent h.views hs' c
  | endBatch loop => exact endBatch_local h.consistent hs' c
  | tick loop => exact tick_local h.consistent hs' c

theorem step_sound (h : s.Sound) {a : Action ι κ} (hfresh : s.FreshSlot a)
    (hs' : step s a = some s') : s'.Sound where
  consistent := (step_local h hfresh hs' 0).1
  views c := run_invariant (fun _ _ _ => ConnectionLoop.step_consistent) (h.views c)
    (step_local h hfresh hs' c).2

/-! ## Runs -/

def alone (c : ConnSPtr) (s : ProcessLoops ι κ) (acts : List (Action ι κ)) :
    List ConnectionLoop.Action :=
  localActs step (project c) s acts

/-- In every run of a process, with any number of connections that come at any time, each with a
slot of its own, any number of loops and any order of what happens on them: each connection goes
through a run of the loop that has no other connection. -/
theorem seen_alone (acts : List (Action ι κ)) (s : ProcessLoops ι κ)
    (hfresh : Along step FreshSlot init acts) (h : run step init acts = some s) (c : ConnSPtr) :
    run ConnectionLoop.step ConnectionLoop.init (alone c init acts) = some (s.view c) :=
  run_localActs
    (fun _ _ _ hinv ha hs' => ⟨step_sound hinv ha hs', (step_local hinv ha hs' c).2⟩)
    init_sound hfresh h

/-- The steps that the action is for the connection leave its handlers a reference, and are none
after its close. -/
def OrderlyFor (c : ConnSPtr) (s : ProcessLoops ι κ) (a : Action ι κ) : Prop :=
  Along ConnectionLoop.step ConnectionLoop.Orderly (s.view c) (project c s a)

instance (c : ConnSPtr) (s : ProcessLoops ι κ) (a : Action ι κ) : Decidable (s.OrderlyFor c a) :=
  inferInstanceAs (Decidable (Along ..))

/-- Whatever else happens in the process, as long as no slot is used twice: if a connection is left a
reference by its handlers and nothing of it runs after its close, then it has been closed when its
last reference is gone, with one call of its close callback, nothing registered and no access
ahead, and so it stays. -/
theorem released_once (acts later : List (Action ι κ)) (s t : ProcessLoops ι κ) (c : ConnSPtr)
    (hfresh : Along step FreshSlot init (acts ++ later))
    (hguard : Along step (OrderlyFor c) init (acts ++ later)) (hs : run step init acts = some s)
    (hcount : (s.view c).count = 0) (ht : run step s later = some t) :
    (s.view c).Released ∧ (t.view c).Released ∧ ConnectionLoop.Absorbed (s.view c) (t.view c) := by
  have hstep : ∀ (s : ProcessLoops ι κ) a s', s.Sound → s.FreshSlot a → step s a = some s' →
      s'.Sound ∧ run ConnectionLoop.step (s.view c) (project c s a) = some (s'.view c) :=
    fun _ _ _ hinv ha hs' => ⟨step_sound hinv ha hs', (step_local hinv ha hs' c).2⟩
  have hsound : s.Sound :=
    run_invariant_of_along (fun u a u' hu ha hu' => (hstep u a u' hu ha hu').1) init_sound
      hfresh.left hs
  have halone : Along ConnectionLoop.step ConnectionLoop.Orderly ConnectionLoop.init
      (alone c init acts ++ alone c s later) := by
    rw [alone, alone, ← localActs_append hs]
    exact along_localActs (fun u a u' hu ha hu' => hstep u a u' hu ha.1 hu')
      (fun _ _ _ ha => ha.2) init_sound (hfresh.and hguard)
  have hrun := run_localActs hstep init_sound hfresh.left hs
  have hlife := ConnectionLoop.run_lifecycle halone.left hrun
  have hlater := run_localActs hstep hsound (hfresh.right hs) ht
  exact ⟨hlife.released hcount, hlife.released_of_run hcount (halone.right hrun) hlater⟩

/-- Two connections come to one loop, and the first one is closed before it has started. The second
one comes while the batch of the first is running. -/
def closeFirst : List (Action Unit ℕ) :=
  [.handleNewConn () 11, .close 0, .beginBatch (), .handleNewConn () 12, .runFunctor () .error] ++
    List.replicate 3 (.tick ()) ++ [.runFunctor () .error] ++ List.replicate 4 (.tick ()) ++
    [.endBatch ()]

def startSecond : List (Action Unit ℕ) := [.beginBatch (), .runFunctor () .error, .tick ()]

theorem first_is_released :
    ∃ s t, run step init closeFirst = some s ∧ run step s startSecond = some t ∧
      (s.view 0).Released ∧ (t.view 0).Released ∧
      ConnectionLoop.Absorbed (s.view 0) (t.view 0) :=
  ⟨_, _, rfl, rfl, released_once closeFirst startSecond _ _ 0 (by decide) (by decide) rfl rfl rfl⟩

theorem first_seen_alone :
    ∃ s, run step init closeFirst = some s ∧
      run ConnectionLoop.step ConnectionLoop.init (alone 0 init closeFirst) = some (s.view 0) :=
  ⟨_, rfl, seen_alone closeFirst _ (by decide) rfl 0⟩

end ProcessLoops
end TinyGameServer
