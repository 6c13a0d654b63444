import Mathlib.Data.List.Basic
import Mathlib.Order.Lattice

/-!
# Frame handlers that run once per chunk

Chunks of a stream arrive one after the other. Each is appended to the bytes that are still
unread, and the handler then runs once: it may take one frame off the front, or wait, or fail
because it reads past the end. A `Framing` describes such a handler by how many bytes it needs
before it acts and how many it then takes. Runs in which every chunk completes at most one frame
parse the stream, and a stream has one parse only.
-/

namespace TinyGameServer

variable {α ε : Type}

/-- The frames taken so far and the unread bytes. -/
abbrev Progress (α ε : Type) := List ε × List α

def receive (handler : List α → Option (Option ε × List α)) (s : Progress α ε) (chunk : List α) :
    Option (Progress α ε) :=
  (handler (s.2 ++ chunk)).map fun r => (s.1 ++ r.1.toList, r.2)

def receiveAll (handler : List α → Option (Option ε × List α)) (chunks : List (List α)) :
    Option (Progress α ε) :=
  chunks.foldlM (receive handler) ([], [])

/-- Both runs get through, and end with the same frames and the same unread bytes. -/
def Agree (handler : List α → Option (Option ε × List α)) (cut₁ cut₂ : List (List α)) : Prop :=
  ∃ s, receiveAll handler cut₁ = some s ∧ receiveAll handler cut₂ = some s

/-- What the handler needs and takes, on inputs shorter than `limit`. `need` looks at no more
than a header, so it is fixed once the header has arrived; `size` and `event` are fixed once the
handler has acted. -/
structure Framing (handler : List α → Option (Option ε × List α)) (limit : ℕ) where
  header : ℕ
  need : List α → ℕ
  Defined : List α → Prop
  size : List α → ℕ
  event : List α → ε
  header_pos : 0 < header
  header_le_need : ∀ q, header ≤ need q
  need_append : ∀ q r, header ≤ q.length → need (q ++ r) = need q
  defined_append : ∀ q r, need q ≤ q.length → Defined q → Defined (q ++ r)
  size_append : ∀ q r, need q ≤ q.length → Defined q → size (q ++ r) = size q
  event_append : ∀ q r, need q ≤ q.length → Defined q → size q ≤ q.length →
    (q ++ r).length < limit → event (q ++ r) = event q
  handler_wait : ∀ q, q.length < limit → q.length < need q → handler q = some (none, q)
  handler_act : ∀ q, q.length < limit → need q ≤ q.length → Defined q →
    handler q = some (some (event q), q.drop (size q))
  handler_stuck : ∀ q, q.length < limit → need q ≤ q.length → ¬ Defined q → handler q = none

namespace Framing

variable {handler : List α → Option (Option ε × List α)} {limit : ℕ} (f : Framing handler limit)

def Ready (q : List α) : Prop := f.need q ≤ q.length

theorem need_append_of_ready {q : List α} (hq : f.Ready q) (r : List α) :
    f.need (q ++ r) = f.need q :=
  f.need_append q r ((f.header_le_need q).trans hq)

theorem Ready.append {f : Framing handler limit} {q : List α} (hq : f.Ready q) (r : List α) :
    f.Ready (q ++ r) := by
  rw [Ready, f.need_append_of_ready hq r, List.length_append]
  exact Nat.le_add_right_of_le hq

theorem not_ready_nil : ¬ f.Ready [] := fun h =>
  absurd ((f.header_le_need []).trans h) (Nat.not_le_of_lt f.header_pos)

/-! ## Runs in which every frame is taken as soon as it can be -/

/-- At most one frame can be taken, and it has arrived whole. -/
def Single (q : List α) : Prop :=
  q.length < limit ∧
    (f.Ready q → f.Defined q ∧ f.size q ≤ q.length ∧ ¬ f.Ready (q.drop (f.size q)))

/-- Every chunk of the run completes at most one frame. -/
def Steady (s : Progress α ε) : List (List α) → Prop
  | [] => True
  | chunk :: chunks => f.Single (s.2 ++ chunk) ∧
      ∀ s', receive handler s chunk = some s' → Steady s' chunks

/-- The frames of a stream, each taken from the bytes `q` that were there at that moment. -/
inductive Parse : List α → List ε → List α → Prop
  | rest {t : List α} (ht : ¬ f.Ready t) : Parse t [] t
  | frame {q r : List α} {events : List ε} {u : List α} (hq : f.Ready q) (hdefined : f.Defined q)
      (hsize : f.size q ≤ q.length) (hlt : q.length < limit)
      (htail : Parse (q.drop (f.size q) ++ r) events u) : Parse (q ++ r) (f.event q :: events) u

theorem drop_append_unique {f : Framing handler limit} {q q' r r' : List α}
    (h : q ++ r = q' ++ r') (hq : f.Ready q) (hdefined : f.Defined q)
    (hsize : f.size q ≤ q.length) (hlt : q'.length < limit) (hle : q.length ≤ q'.length) :
    f.event q' = f.event q ∧ q'.drop (f.size q') ++ r' = q.drop (f.size q) ++ r := by
  obtain ⟨t, rfl⟩ : q <+: q' :=
    List.prefix_of_prefix_length_le (List.prefix_append q r) (h ▸ List.prefix_append q' r') hle
  have hr : r = t ++ r' := by rwa [List.append_assoc, List.append_cancel_left_eq] at h
  refine ⟨f.event_append q t hq hdefined hsize hlt, ?_⟩
  rw [f.size_append q t hq hdefined, List.drop_append_of_le_length hsize, hr, List.append_assoc]

/-- Frames are prefix-free, so a stream has at most one parse. -/
theorem Parse.unique {f : Framing handler limit} {t : List α} {events events' : List ε}
    {u u' : List α} (h : f.Parse t events u) (h' : f.Parse t events' u') :
    events = events' ∧ u = u' := by
  induction h generalizing events' u' with
  | rest ht =>
      cases h' with
      | rest _ => exact ⟨rfl, rfl⟩
      | frame hq _ _ _ _ => exact absurd (hq.append _) ht
  | @frame q r events u hq hdefined hsize hlt htail ih =>
      generalize ht : q ++ r = t at h'
      cases h' with
      | rest hrest => exact absurd (ht ▸ hq.append r) hrest
      | @frame q' r' events' u' hq' hdefined' hsize' hlt' htail' =>
          have hsame : f.event q' = f.event q ∧
              q'.drop (f.size q') ++ r' = q.drop (f.size q) ++ r := by
            rcases Nat.le_total q.length q'.length with hle | hle
            · exact drop_append_unique ht hq hdefined hsize hlt' hle
            · obtain ⟨hevent, hdrop⟩ := drop_append_unique ht.symm hq' hdefined' hsize' hlt hle
              exact ⟨hevent.symm, hdrop.symm⟩
          obtain ⟨hevents, hu⟩ := ih (hsame.2 ▸ htail')
          exact ⟨by rw [hsame.1, hevents], hu⟩

theorem foldlM_of_steady (chunks : List (List α)) (events : List ε) (q : List α)
    (hq : ¬ f.Ready q) (hsteady : f.Steady (events, q) chunks) :
    ∃ events' u, chunks.foldlM (receive handler) (events, q) = some (events ++ events', u) ∧
      f.Parse (q ++ chunks.flatten) events' u := by
  induction chunks generalizing events q with
  | nil =>
      refine ⟨[], q, by rw [List.append_nil]; rfl, ?_⟩
      rw [List.flatten_nil, List.append_nil]
      exact .rest hq
  | cons chunk chunks ih =>
      obtain ⟨⟨hlt, hframe⟩, hnext⟩ := hsteady
      rw [List.flatten_cons, ← List.append_assoc, List.foldlM_cons]
      by_cases hp : f.Ready (q ++ chunk)
      · obtain ⟨hdefined, hsize, hrest⟩ := hframe hp
        have hstep : receive handler (events, q) chunk =
            some (events ++ [f.event (q ++ chunk)], (q ++ chunk).drop (f.size (q ++ chunk))) := by
          rw [receive, f.handler_act _ hlt hp hdefined]
          rfl
        obtain ⟨events', u, hrun, hparse⟩ := ih _ _ hrest (hnext _ hstep)
        refine ⟨f.event (q ++ chunk) :: events', u, ?_, .frame hp hdefined hsize hlt hparse⟩
        rw [List.append_assoc] at hrun
        rw [hstep]
        exact hrun
      · have hstep : receive handler (events, q) chunk = some (events, q ++ chunk) := by
          rw [receive, f.handler_wait _ hlt (Nat.lt_of_not_le hp)]
          simp only [Option.map_some, Option.toList_none, List.append_nil]
        rw [hstep]
        exact ih events (q ++ chunk) hp (hnext _ hstep)

theorem agree_of_steady {cut₁ cut₂ : List (List α)} (hstream : cut₁.flatten = cut₂.flatten)
    (h₁ : f.Steady ([], []) cut₁) (h₂ : f.Steady ([], []) cut₂) : Agree handler cut₁ cut₂ := by
  obtain ⟨events₁, u₁, hrun₁, hparse₁⟩ := f.foldlM_of_steady cut₁ [] [] f.not_ready_nil h₁
  obtain ⟨events₂, u₂, hrun₂, hparse₂⟩ := f.foldlM_of_steady cut₂ [] [] f.not_ready_nil h₂
  rw [← hstream] at hparse₂
  obtain ⟨rfl, rfl⟩ := hparse₁.unique hparse₂
  exact ⟨_, hrun₁, hrun₂⟩

end Framing
end TinyGameServer
