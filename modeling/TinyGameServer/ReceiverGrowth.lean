import TinyGameServer.ReadEvents

/-!
# How far a receive buffer grows

A reallocation takes place when the spilled bytes of one read event outnumber the allocation, and
one event spills no more than the stack segment holds. So whatever the callback does, a receive
buffer is reallocated at most twice. It is never released before the connection is.
-/

namespace TinyGameServer

namespace Buffer

variable {b b' : Buffer}

/-- The capacity only changes when the spilled bytes outnumber it. -/
theorem readFd_growth (hb : b.Ordered) {bytes : List UInt8}
    (hcap : 2 * b.capacity.toNat + 65536 < 2 ^ 32) (hread : b.Readable bytes.length)
    (hfit : ¬ b.ReadOverflows bytes.length) {n : Int32} (h : b.readFd (.data bytes) = some (n, b')) :
    b'.capacity = b.capacity ∨ ∃ spill, bytes.length = b.room + spill ∧
      2 * b.capacity.toNat - b.readIndex.toNat < spill ∧ spill ≤ 65536 ∧
      b'.capacity.toNat = 2 * b.capacity.toNat + spill := by
  have hlt := hread.lt hcap
  have hrw := hb.read_le_write
  have hwc := hb.write_le_capacity
  by_cases hroom : bytes.length ≤ b.room
  · obtain ⟨b₁, hdirect, -, -, hsame⟩ := readFd_direct hb bytes hlt hroom
    obtain ⟨-, rfl⟩ := Prod.mk.inj (Option.some.inj (hdirect.symm.trans h))
    exact .inl hsame
  · have hlong : b.room < bytes.length := Nat.lt_of_not_le hroom
    have hspill := hread.spill_le
    have hfilled : (b.filled bytes).capacity = b.capacity := rfl
    have hord := (filled_spec hb bytes hlong.le).1
    have hlen : (b.filled bytes).getLength.toNat = b.capacity.toNat - b.readIndex.toNat :=
      hord.toNat_getLength
    obtain ⟨b₁, happend, -, -, hgrown⟩ := append_spec hord (bytes.drop b.room)
      (by rw [hfilled]; omega) ((overflows_filled_iff hb bytes hlong).not.mpr hfit)
    rw [readFd_spill hb bytes hlt hlong, happend, Option.map_some] at h
    obtain ⟨-, rfl⟩ := Prod.mk.inj (Option.some.inj h)
    rw [hfilled, hlen] at hgrown
    refine hgrown.imp id fun hgrown => ⟨(bytes.drop b.room).length, ?_, ?_, hspill, hgrown.2⟩
    · rw [List.length_drop]
      omega
    · omega

end Buffer

namespace Receiver

variable {β : Type} {cb : ReadCallback β} {s s' t : Receiver β} {r : ReadResult}

theorem handleRead_eq_some {readCb : StateT Traced Option β}
    (h : s.handleRead readCb r = some s') :
    ∃ len b, s.buffer.readFd r = some (len, b) ∧
      ((∃ result u, readCb { s.traced with buffer := b } = some (result, u) ∧
        s' = { s with traced := u, returned := s.returned ++ [result] }) ∨
      ∃ closed, s' = { s with traced := { s.traced with buffer := b }, closed }) := by
  obtain ⟨⟨len, b⟩, hreadFd, h⟩ := Option.bind_eq_some_iff.mp h
  refine ⟨len, b, hreadFd, ?_⟩
  dsimp only at h
  split_ifs at h
  · obtain ⟨⟨result, u⟩, hp, h⟩ := Option.bind_eq_some_iff.mp h
    exact .inl ⟨result, u, hp, (Option.some.inj h).symm⟩
  · exact .inr ⟨true, (Option.some.inj h).symm⟩
  · exact .inr ⟨s.closed, (Option.some.inj h).symm⟩

theorem handleRead_of_step {readCb : StateT Traced Option β} (h : s.step readCb r = some s') :
    s.handleRead readCb r = some s' := by
  rw [step] at h
  split_ifs at h
  exact h

/-- A possible event leaves the connection sound, or its callback has strayed. -/
theorem step_sound (h : s.Sound) (hread : s.Readable r) (hs' : s.step cb.onBuffer r = some s') :
    s'.Sound ∨ s'.traced.Strayed := by
  by_cases hfit : s.Fits r
  · cases hqueue : s.inbox.step cb.onQueue r with
    | none => exact .inr (step_strays h hread hfit hqueue hs')
    | some t =>
        obtain ⟨s₁, hs₁, hsound, -⟩ := step_agrees h hread hfit hqueue
        cases hs₁.symm.trans hs'
        exact .inl hsound
  · rw [step_overflows h hread hfit] at hs'
    cases hs'

theorem step_capacity (h : s.Sound) (hread : s.Readable r)
    (hs' : s.step cb.onBuffer r = some s') :
    s'.buffer.capacity = s.buffer.capacity ∨
      ∃ spill, s.buffer.capacity.toNat < spill ∧ spill ≤ 65536 ∧
        s'.buffer.capacity.toNat = 2 * s.buffer.capacity.toNat + spill := by
  have hord : s.buffer.Ordered := h.clean.1
  have hcap := h.capacity
  have hrw := hord.read_le_write
  have hwc := hord.write_le_capacity
  obtain ⟨len, b, hreadFd, hrest⟩ := handleRead_eq_some (handleRead_of_step hs')
  have hkeep : s'.buffer.capacity = b.capacity := by
    rcases hrest with ⟨result, u, hp, rfl⟩ | ⟨closed, rfl⟩
    · exact (cb.onlyReads _ result u hp).1
    · rfl
  rw [hkeep]
  cases r with
  | error =>
      cases hreadFd
      exact .inl rfl
  | data bytes =>
      have hfit : ¬ s.buffer.ReadOverflows bytes.length := by
        intro hover
        rw [Buffer.readFd_overflows hord bytes (by omega) hread hover] at hreadFd
        cases hreadFd
      refine (Buffer.readFd_growth hord (by omega) hread hfit hreadFd).imp id ?_
      rintro ⟨spill, -, hlong, hshort, hgrown⟩
      exact ⟨spill, by omega, hshort, hgrown⟩

/-- The read events of a connection and the number of its reallocations. -/
def countGrowth (readCb : StateT Traced Option β) (s : Receiver β × ℕ) (r : ReadResult) :
    Option (Receiver β × ℕ) :=
  (s.1.step readCb r).map fun t =>
    (t, if t.buffer.capacity = s.1.buffer.capacity then s.2 else s.2 + 1)

/-- What the capacity can be after so many reallocations. -/
def Stage : ℕ → ℕ → Prop
  | 0, capacity => capacity = 8192
  | 1, capacity => 24577 ≤ capacity ∧ capacity ≤ 81920
  | 2, capacity => 73732 ≤ capacity ∧ capacity ≤ 196606
  | _, _ => False

theorem Stage.grow {k capacity spill : ℕ} (h : Stage k capacity) (hlong : capacity < spill)
    (hshort : spill ≤ 65536) : Stage (k + 1) (2 * capacity + spill) := by
  match k, h with
  | 0, h =>
      have hcap : capacity = 8192 := h
      constructor <;> omega
  | 1, h =>
      obtain ⟨hmin, -⟩ := h
      constructor <;> omega
  | 2, h =>
      obtain ⟨hmin, -⟩ := h
      omega

theorem Stage.bounds {k capacity : ℕ} (h : Stage k capacity) : k ≤ 2 ∧ capacity ≤ 196606 := by
  match k, h with
  | 0, h =>
      have hcap : capacity = 8192 := h
      omega
  | 1, h => exact ⟨by omega, h.2.trans (by omega)⟩
  | 2, h => exact ⟨le_rfl, h.2⟩

theorem run_of_countGrowth {events : List ReadResult} {k m : ℕ}
    (h : run (countGrowth cb.onBuffer) (s, k) events = some (t, m)) :
    run (step cb.onBuffer) s events = some t := by
  induction events generalizing s k with
  | nil =>
      cases h
      rfl
  | cons r events ih =>
      obtain ⟨⟨s₁, k₁⟩, hstep, hrun⟩ := run_cons_eq_some h
      obtain ⟨s₂, hs₂, heq⟩ := Option.map_eq_some_iff.mp hstep
      cases heq
      rw [run_cons, hs₂, Option.bind_some]
      exact ih hrun

theorem run_stage (h : s.Sound) {events : List ReadResult} {k m : ℕ}
    (hstage : Stage k s.buffer.capacity.toNat) (hreads : Along (step cb.onBuffer) Readable s events)
    (hrun : run (countGrowth cb.onBuffer) (s, k) events = some (t, m))
    (hclean : t.traced.Clean) : Stage m t.buffer.capacity.toNat := by
  induction events generalizing s k with
  | nil =>
      cases hrun
      exact hstage
  | cons r events ih =>
      obtain ⟨⟨s₁, k₁⟩, hstep, hrun⟩ := run_cons_eq_some hrun
      obtain ⟨s₂, hs₁, heq⟩ := Option.map_eq_some_iff.mp hstep
      cases heq
      rcases step_sound h hreads.1 hs₁ with hsound | hstray
      · refine ih hsound ?_ (hreads.2 s₁ hs₁) hrun
        dsimp only
        rcases step_capacity h hreads.1 hs₁ with hsame | ⟨spill, hlong, hshort, hgrown⟩
        · rw [if_pos hsame, hsame]
          exact hstage
        · rw [if_neg (fun heq => by rw [heq] at hgrown; omega), hgrown]
          exact hstage.grow hlong hshort
      · exact absurd hclean (run_strayed hstray (run_of_countGrowth hrun)).not_clean

/-- For every callback and every run of read events of a new connection without stray reads: the
receive buffer has been reallocated at most twice, and it is smaller than 192 KiB. -/
theorem reallocated_at_most_twice (cb : ReadCallback β) {events : List ReadResult}
    (hreads : Along (step cb.onBuffer) Readable init events) {k : ℕ}
    (hrun : run (countGrowth cb.onBuffer) (init, 0) events = some (s, k))
    (hclean : s.traced.Clean) : k ≤ 2 ∧ s.buffer.capacity.toNat ≤ 196606 := by
  have hstage : Stage 0 (init : Receiver β).buffer.capacity.toNat := by
    change Buffer.INITIAL_SIZE.toNat = 8192
    decide
  exact (run_stage init_sound hstage hreads hrun hclean).bounds

def silent : ReadCallback Unit := ⟨.little, ReadProgram.done ()⟩

theorem run_silent {bytes : List UInt8} (hlen : bytes.length = 24577) :
    Along (step silent.onBuffer) Readable init [.data bytes] ∧
      ∃ s, run (countGrowth silent.onBuffer) (init, 0) [.data bytes] = some (s, 1) ∧
        s.traced.Clean := by
  have hroom : (init : Receiver Unit).buffer.room = 8192 := by decide
  have hread : (init : Receiver Unit).Readable (.data bytes) := by
    rw [Readable, Buffer.Readable, hroom, hlen]
    omega
  have hfit : (init : Receiver Unit).Fits (.data bytes) := by
    rw [Fits, Buffer.ReadOverflows, hroom, hlen]
    decide
  have hqueue : (init : Receiver Unit).inbox.step silent.onQueue (.data bytes) =
      some ⟨bytes, [()], false⟩ := by
    cases bytes with
    | nil => cases hlen
    | cons x bytes => rfl
  obtain ⟨s, hs, hsound, hinbox⟩ := step_agrees init_sound hread hfit hqueue
  have hunread : s.buffer.unread = bytes := congrArg Inbox.unread hinbox
  have hgrown : ¬ s.buffer.capacity = (init : Receiver Unit).buffer.capacity := by
    intro hsame
    have hord : s.buffer.Ordered := hsound.clean.1
    have hfilled := hord.toNat_getLength
    have hwrite := hord.write_le_capacity
    have hcap : (init : Receiver Unit).buffer.capacity.toNat = 8192 := by decide
    rw [← Buffer.length_unread, hunread, hlen] at hfilled
    rw [hsame, hcap] at hwrite
    omega
  refine ⟨⟨hread, fun _ _ => trivial⟩, s, ?_, hsound.clean⟩
  rw [run_cons, countGrowth, hs, Option.map_some, if_neg hgrown]
  rfl

theorem reallocated_once : ∃ s,
    run (countGrowth silent.onBuffer) (init, 0) [.data (List.replicate 24577 1)] = some (s, 1) ∧
      1 ≤ 2 ∧ s.buffer.capacity.toNat ≤ 196606 := by
  have hlen : (List.replicate 24577 (1 : UInt8)).length = 24577 := List.length_replicate
  obtain ⟨hreads, s, hrun, hclean⟩ := run_silent hlen
  exact ⟨s, hrun, reallocated_at_most_twice silent hreads hrun hclean⟩

end Receiver
end TinyGameServer
