import TinyGameServer.StreamFraming

/-!
# Streams whose result does not depend on the segmentation

The handler runs once per chunk and takes at most one frame, so two frames in one chunk and the
same frames in two chunks differ. Over all ways of cutting a stream the result is the same exactly
when the handler acts at most once on it.
-/

namespace TinyGameServer

variable {α ε : Type}

def IsCut (stream : List α) (chunks : List (List α)) : Prop :=
  (∀ chunk ∈ chunks, chunk ≠ []) ∧ chunks.flatten = stream

/-- Any two ways of cutting give the same frames and the same unread bytes. -/
def CutIndependent (handler : List α → Option (Option ε × List α)) (stream : List α) : Prop :=
  ∀ cut₁ cut₂, IsCut stream cut₁ → IsCut stream cut₂ → Agree handler cut₁ cut₂

namespace Framing

variable {handler : List α → Option (Option ε × List α)} {limit : ℕ} (f : Framing handler limit)

/-- The streams on which the handler acts at most once, and on a frame that has arrived whole.
If it acts on the very last byte there is only one moment at which it can act. -/
def ActsOnce (s : List α) : Prop :=
  f.Ready s → f.Defined (s.take (f.need s)) ∧
    (s.length = f.need s ∨ f.size s ≤ f.need s ∧ ¬ f.Ready (s.drop (f.size s)))

theorem need_take {s : List α} {k : ℕ} (hk : f.need s ≤ k) (hks : k ≤ s.length) :
    f.need (s.take k) = f.need s := by
  have hlen : (s.take k).length = k := by
    rw [List.length_take]
    exact Nat.min_eq_left hks
  have h := f.need_append (s.take k) (s.drop k) (by
    rw [hlen]
    exact (f.header_le_need s).trans hk)
  rw [List.take_append_drop] at h
  exact h.symm

theorem ready_take {s : List α} (hs : f.Ready s) : f.Ready (s.take (f.need s)) := by
  rw [Ready, f.need_take le_rfl hs, List.length_take]
  exact le_min le_rfl hs

/-- The first moment at which the handler can act on a prefix of `q ++ r` lies inside `q`. -/
theorem take_need_append {q : List α} (hq : f.Ready q) (r : List α) :
    (q ++ r).take (f.need (q ++ r)) = q.take (f.need q) := by
  rw [f.need_append_of_ready hq r, List.take_append_of_le_length hq]

/-! ## Chunks on which nothing happens -/

theorem foldlM_of_not_ready {s : List α} (hs : ¬ f.Ready s) (hlt : s.length < limit)
    (events : List ε) (chunks : List (List α)) (q : List α) (hcut : q ++ chunks.flatten = s) :
    chunks.foldlM (receive handler) (events, q) = some (events, s) := by
  induction chunks generalizing q with
  | nil =>
      rw [List.flatten_nil, List.append_nil] at hcut
      rw [hcut]
      rfl
  | cons chunk chunks ih =>
      rw [List.flatten_cons, ← List.append_assoc] at hcut
      have hwait : ¬ f.Ready (q ++ chunk) := fun h => hs (hcut ▸ h.append chunks.flatten)
      have hle : (q ++ chunk).length ≤ s.length := by
        rw [← hcut]
        exact (List.prefix_append (q ++ chunk) chunks.flatten).length_le
      have hstep : receive handler (events, q) chunk = some (events, q ++ chunk) := by
        rw [receive, f.handler_wait (q ++ chunk) (hle.trans_lt hlt) (Nat.lt_of_not_le hwait)]
        simp only [Option.map_some, Option.toList_none, List.append_nil]
      rw [List.foldlM_cons, hstep]
      exact ih (q ++ chunk) hcut

/-! ## The one moment at which the handler acts -/

theorem receive_act {q : List α} (hq : f.Ready q) (hlt : q.length < limit)
    (hdefined : f.Defined (q.take (f.need q))) (events : List ε) {p chunk : List α}
    (hp : p ++ chunk = q) :
    receive handler (events, p) chunk =
      some (events ++ [f.event q], q.drop (f.size (q.take (f.need q)))) := by
  have htake := f.ready_take hq
  have hsplit : q.take (f.need q) ++ q.drop (f.need q) = q := List.take_append_drop _ q
  have hdef : f.Defined q := by
    rw [← hsplit]
    exact f.defined_append _ _ htake hdefined
  have hsize : f.size q = f.size (q.take (f.need q)) := by
    conv_lhs => rw [← hsplit]
    exact f.size_append _ _ htake hdefined
  rw [receive, hp, f.handler_act q hlt hq hdef, hsize]
  rfl

theorem event_take {q : List α} (hq : f.Ready q) (hlt : q.length < limit)
    (hdefined : f.Defined (q.take (f.need q)))
    (hsize : f.size (q.take (f.need q)) ≤ f.need q) :
    f.event q = f.event (q.take (f.need q)) := by
  have hlen : (q.take (f.need q)).length = f.need q := by
    rw [List.length_take]
    exact Nat.min_eq_left hq
  have h := f.event_append (q.take (f.need q)) (q.drop (f.need q)) (f.ready_take hq) hdefined
    (by rwa [hlen]) (by rwa [List.take_append_drop])
  rwa [List.take_append_drop] at h

theorem size_take {s : List α} (hs : f.Ready s) (hdefined : f.Defined (s.take (f.need s))) :
    f.size s = f.size (s.take (f.need s)) := by
  conv_lhs => rw [← List.take_append_drop (f.need s) s]
  exact f.size_append _ _ (f.ready_take hs) hdefined

theorem flatten_eq_nil {chunks : List (List α)} (hne : ∀ chunk ∈ chunks, chunk ≠ [])
    (h : chunks.flatten = []) : chunks = [] := by
  cases chunks with
  | nil => rfl
  | cons chunk chunks =>
      rw [List.flatten_cons, List.append_eq_nil_iff] at h
      exact absurd h.1 (hne chunk List.mem_cons_self)

/-- Wherever the stream is cut, the handler acts once and on the same frame. -/
theorem foldlM_of_actsOnce {s : List α} (hs : f.Ready s) (hlt : s.length < limit)
    (hdefined : f.Defined (s.take (f.need s)))
    (honce : s.length = f.need s ∨ f.size s ≤ f.need s ∧ ¬ f.Ready (s.drop (f.size s)))
    (chunks : List (List α)) (hne : ∀ chunk ∈ chunks, chunk ≠ []) (q : List α)
    (hq : ¬ f.Ready q) (hcut : q ++ chunks.flatten = s) :
    chunks.foldlM (receive handler) ([], q) =
      some ([f.event (s.take (f.need s))], s.drop (f.size s)) := by
  induction chunks generalizing q with
  | nil =>
      rw [List.flatten_nil, List.append_nil] at hcut
      exact absurd (hcut ▸ hs) hq
  | cons chunk chunks ih =>
      rw [List.flatten_cons, ← List.append_assoc] at hcut
      have hne' : ∀ c ∈ chunks, c ≠ [] := fun c hc => hne c (List.mem_cons_of_mem chunk hc)
      have hlen : (q ++ chunk).length + chunks.flatten.length = s.length := by
        rw [← List.length_append, hcut]
      by_cases hp : f.Ready (q ++ chunk)
      · have htake : (q ++ chunk).take (f.need (q ++ chunk)) = s.take (f.need s) := by
          rw [← hcut, f.take_need_append hp]
        have hneed : f.need (q ++ chunk) = f.need s := by
          rw [← hcut, f.need_append_of_ready hp]
        have hact := f.receive_act hp (by omega) (by rwa [htake]) [] rfl
        rw [htake, ← f.size_take hs hdefined, List.nil_append] at hact
        rw [List.foldlM_cons, hact]
        change chunks.foldlM (receive handler) _ = _
        rcases honce with hfull | ⟨hsize, hrest⟩
        · -- nothing can follow the chunk that completes the frame
          have hp' : f.need s ≤ (q ++ chunk).length := hneed ▸ hp
          have hnil : chunks = [] :=
            flatten_eq_nil hne' (List.length_eq_zero_iff.mp (by omega))
          subst hnil
          rw [List.flatten_nil, List.append_nil] at hcut
          rw [hcut, ← hfull, List.take_length]
          rfl
        · have hevent : f.event (q ++ chunk) = f.event (s.take (f.need s)) := by
            rw [← htake]
            refine f.event_take hp (by omega) (by rwa [htake]) ?_
            rw [htake, ← f.size_take hs hdefined, hneed]
            exact hsize
          have hle : f.size s ≤ (q ++ chunk).length := hsize.trans (hneed ▸ hp)
          rw [hevent]
          refine f.foldlM_of_not_ready hrest (by rw [List.length_drop]; omega) _ _ _ ?_
          rw [← List.drop_append_of_le_length hle, hcut]
      · have hstep : receive handler ([], q) chunk = some ([], q ++ chunk) := by
          rw [receive, f.handler_wait (q ++ chunk) (by omega) (Nat.lt_of_not_le hp)]
          rfl
        rw [List.foldlM_cons, hstep]
        exact ih hne' (q ++ chunk) hp hcut

/-! ## The streams for which cutting does not matter -/

theorem cutIndependent_of_actsOnce {s : List α} (hlt : s.length < limit) (honce : f.ActsOnce s) :
    CutIndependent handler s := by
  intro cut₁ cut₂ h₁ h₂
  by_cases hs : f.Ready s
  · obtain ⟨hdefined, honce⟩ := honce hs
    exact ⟨_, f.foldlM_of_actsOnce hs hlt hdefined honce cut₁ h₁.1 [] f.not_ready_nil h₁.2,
      f.foldlM_of_actsOnce hs hlt hdefined honce cut₂ h₂.1 [] f.not_ready_nil h₂.2⟩
  · exact ⟨_, f.foldlM_of_not_ready hs hlt [] cut₁ [] h₁.2,
      f.foldlM_of_not_ready hs hlt [] cut₂ [] h₂.2⟩

theorem isCut_whole {s : List α} (hs : s ≠ []) : IsCut s [s] :=
  ⟨fun chunk hc => by rwa [List.mem_singleton.mp hc], by simp⟩

theorem isCut_split {s : List α} {k : ℕ} (hk : 0 < k) (hks : k < s.length) :
    IsCut s [s.take k, s.drop k] := by
  refine ⟨fun chunk hc => ?_, by simp⟩
  rcases List.mem_pair.mp hc with rfl | rfl
  · exact List.ne_nil_of_length_pos (by rw [List.length_take]; omega)
  · exact List.ne_nil_of_length_pos (by rw [List.length_drop]; omega)

theorem receiveAll_whole (s : List α) :
    receiveAll handler [s] = (handler s).map fun r => (r.1.toList, r.2) := by
  simp [receiveAll, receive]

theorem receive_eq_some {events : List ε} {q chunk : List α} {t : Progress α ε}
    (h : receive handler (events, q) chunk = some t) :
    ∃ r, handler (q ++ chunk) = some r ∧ t = (events ++ r.1.toList, r.2) := by
  obtain ⟨r, hr, rfl⟩ := Option.map_eq_some_iff.mp h
  exact ⟨r, hr, rfl⟩

theorem receiveAll_pair {chunk chunk' : List α} {t : Progress α ε}
    (h : receiveAll handler [chunk, chunk'] = some t) :
    ∃ r r', handler chunk = some r ∧ handler (r.2 ++ chunk') = some r' ∧
      t = (r.1.toList ++ r'.1.toList, r'.2) := by
  rw [receiveAll, List.foldlM_cons, Option.bind_eq_bind, Option.bind_eq_some_iff] at h
  obtain ⟨t₁, ht₁, h⟩ := h
  obtain ⟨r, hr, rfl⟩ := receive_eq_some ht₁
  rw [List.foldlM_cons, Option.bind_eq_bind, Option.bind_eq_some_iff] at h
  obtain ⟨t₂, ht₂, h⟩ := h
  obtain ⟨r', hr', rfl⟩ := receive_eq_some ht₂
  cases h
  exact ⟨r, r', hr, hr', rfl⟩

theorem defined_of_handler {q : List α} (hlt : q.length < limit) (hq : f.Ready q)
    {r : Option ε × List α} (h : handler q = some r) :
    f.Defined q ∧ r = (some (f.event q), q.drop (f.size q)) := by
  by_cases hdefined : f.Defined q
  · rw [f.handler_act q hlt hq hdefined] at h
    exact ⟨hdefined, (Option.some.inj h).symm⟩
  · rw [f.handler_stuck q hlt hq hdefined] at h
    cases h

theorem defined_of_receiveAll {s : List α} (hlt : s.length < limit) (hs : f.Ready s)
    {t : Progress α ε} (h : receiveAll handler [s] = some t) :
    f.Defined s ∧ t = ([f.event s], s.drop (f.size s)) := by
  rw [receiveAll_whole] at h
  obtain ⟨r, hr, rfl⟩ := Option.map_eq_some_iff.mp h
  obtain ⟨hdefined, rfl⟩ := f.defined_of_handler hlt hs hr
  exact ⟨hdefined, rfl⟩

/-- If the second chunk adds no event, then the handler cannot act on what the first one has
left and the second one brings. -/
theorem not_ready_of_receiveAll_pair {chunk chunk' : List α} (hchunk : chunk.length < limit)
    (hrest : (chunk.drop (f.size chunk) ++ chunk').length < limit) (hready : f.Ready chunk)
    {e : ε} {q : List α} (h : receiveAll handler [chunk, chunk'] = some ([e], q)) :
    f.Defined chunk ∧ ¬ f.Ready (chunk.drop (f.size chunk) ++ chunk') ∧
      q = chunk.drop (f.size chunk) ++ chunk' := by
  obtain ⟨r, r', hr, hr', hprogress⟩ := receiveAll_pair h
  obtain ⟨hdefined, rfl⟩ := f.defined_of_handler hchunk hready hr
  obtain ⟨hevents, hunread⟩ := Prod.mk.inj hprogress
  have hwait : ¬ f.Ready (chunk.drop (f.size chunk) ++ chunk') := by
    intro hready'
    obtain ⟨-, rfl⟩ := f.defined_of_handler hrest hready' hr'
    have hlength := congrArg List.length hevents
    simp at hlength
  rw [f.handler_wait _ hrest (Nat.lt_of_not_le hwait)] at hr'
  cases hr'
  exact ⟨hdefined, hwait, hunread⟩

/-- Cut right after the moment at which the handler can act, against no cut at all. -/
theorem actsOnce_of_cutIndependent {s : List α} (hlt : s.length < limit)
    (hcut : CutIndependent handler s) : f.ActsOnce s := by
  intro hs
  have hpos : 0 < f.need s := Nat.lt_of_lt_of_le f.header_pos (f.header_le_need s)
  have hs' : f.need s ≤ s.length := hs
  have hne : s ≠ [] := List.ne_nil_of_length_pos (by omega)
  by_cases hfull : s.length = f.need s
  · obtain ⟨t, ht, -⟩ := hcut _ _ (isCut_whole hne) (isCut_whole hne)
    rw [← hfull, List.take_length]
    exact ⟨(f.defined_of_receiveAll hlt hs ht).1, Or.inl rfl⟩
  have hlen : (s.take (f.need s)).length = f.need s := by
    rw [List.length_take]
    exact Nat.min_eq_left hs
  obtain ⟨t, ht, ht'⟩ := hcut _ _ (isCut_whole hne) (isCut_split hpos (by omega))
  obtain ⟨-, rfl⟩ := f.defined_of_receiveAll hlt hs ht
  obtain ⟨hdefined, hwait, hrest⟩ := f.not_ready_of_receiveAll_pair (by omega)
    (by rw [List.length_append, List.length_drop, List.length_drop]; omega) (f.ready_take hs) ht'
  rw [← f.size_take hs hdefined] at hwait hrest
  have hlengths := congrArg List.length hrest
  simp only [List.length_append, List.length_drop, hlen] at hlengths
  refine ⟨hdefined, Or.inr ⟨by omega, ?_⟩⟩
  rwa [hrest]

/-- The result does not depend on the segmentation if and only if the handler acts at most once
on the stream. -/
theorem cutIndependent_iff {s : List α} (hlt : s.length < limit) :
    CutIndependent handler s ↔ f.ActsOnce s :=
  ⟨f.actsOnce_of_cutIndependent hlt, f.cutIndependent_of_actsOnce hlt⟩

end Framing
end TinyGameServer
