import TinyGameServer.OutgoingStream

/-!
# How much can wait to be sent?

What the kernel does not take is kept in `send_buffer_`, which nothing bounds but its overflow
window. Three numbers describe it: the bytes that wait, the capacity, and whether a writable event
has been asked for. They decide exactly when a run of sends and writable events leaves the
allocation. A peer that reads nothing can be sent as many bytes as the buffer was allocated with,
unless one message is larger than that.
-/

namespace TinyGameServer

structure Backlog where
  bytes : ℕ
  capacity : ℕ
  writing : Bool
  deriving DecidableEq

/-- How many of `n` bytes are taken. -/
def WriteResult.count (w : WriteResult) (n : ℕ) : ℕ :=
  match w with
  | error => 0
  | accepted count => min (min count 0x7fffffff) n

namespace Backlog

def empty (capacity : ℕ) : Backlog := ⟨0, capacity, false⟩

/-- The comparison of `grow` is between `length` and all that is not in front of the unread bytes,
so data of a middling length is copied to where there is no room for it. -/
def append (s : Backlog) (n : ℕ) : Option Backlog :=
  if s.bytes + n ≤ s.capacity then some { s with bytes := s.bytes + n }
  else if s.capacity + s.bytes < n then
    some { s with bytes := s.bytes + n, capacity := 2 * s.capacity + n }
  else none

def remainder (s : Backlog) (n : ℕ) (w : WriteResult) : ℕ :=
  if ¬ s.writing ∧ s.bytes = 0 then n - w.count n else n

/-- The writable event goes on while bytes wait, and also if it has found none. -/
def step (s : Backlog) : StreamEvent → Option Backlog
  | .send buf w =>
    (s.append (s.remainder buf.buffer.unread.length w)).map ({ · with writing := true })
  | .writable w => some { s with
      bytes := s.bytes - w.count s.bytes
      writing := s.writing && !(0 < w.count s.bytes && w.count s.bytes = s.bytes) }

/-- No length or index gets as large as an `int`. -/
def Addressable (s : Backlog) (e : StreamEvent) : Prop := 2 * s.capacity + e.sent.length < 2 ^ 31

instance (s : Backlog) (e : StreamEvent) : Decidable (s.Addressable e) :=
  inferInstanceAs (Decidable (_ < _))

end Backlog

theorem WriteResult.length_bytes (w : WriteResult) (data : List UInt8) :
    (w.bytes data).length = w.count data.length := by
  cases w with
  | error => rfl
  | accepted count => exact List.length_take

theorem WriteResult.count_le (w : WriteResult) (n : ℕ) : w.count n ≤ n := by
  cases w with
  | error => exact Nat.zero_le n
  | accepted count => exact Nat.min_le_right _ _

namespace TCPConnection

variable {c c' : TCPConnection}

def backlog (c : TCPConnection) : Backlog where
  bytes := c.sendBuffer.unread.length
  capacity := c.sendBuffer.capacity.toNat
  writing := c.watcher.isWriting

theorem backlog_opened (capacity : UInt32) :
    (opened capacity).backlog = .empty capacity.toNat := by
  have hunread := unread_opened capacity
  have hwriting : (opened capacity).watcher.isWriting = false := rfl
  rw [backlog, hunread, hwriting]
  rfl

/-! ## SendInLoop -/

theorem length_remainder (c : TCPConnection) (data : List UInt8) (w : WriteResult) :
    (c.remainder data w).length = c.backlog.remainder data.length w := by
  have hempty : c.sendBuffer.getLength = 0 ↔ c.backlog.bytes = 0 := by
    rw [← Buffer.unread_eq_nil_iff, ← List.length_eq_zero_iff]
    rfl
  by_cases hfast : ¬ c.watcher.isWriting ∧ c.sendBuffer.getLength = 0
  · have hfast' : ¬ c.backlog.writing ∧ c.backlog.bytes = 0 := ⟨hfast.1, hempty.mp hfast.2⟩
    rw [remainder_fast hfast, Backlog.remainder, if_pos hfast', List.length_drop, w.length_bytes]
  · have hslow : ¬ (¬ c.backlog.writing ∧ c.backlog.bytes = 0) :=
      fun h => hfast ⟨h.1, hempty.mpr h.2⟩
    rw [remainder_slow hfast, Backlog.remainder, if_neg hslow]

theorem backlog_remainder_le (s : Backlog) (n : ℕ) (w : WriteResult) : s.remainder n w ≤ n := by
  rw [Backlog.remainder]
  split
  · exact Nat.sub_le _ _
  · exact Nat.le_refl n

/-- The buffer as an append leaves it, if the copy stays inside. -/
theorem append_exact (h : c.Open) (data : List UInt8)
    (haddress : 2 * c.sendBuffer.capacity.toNat + data.length < 2 ^ 31) :
    (∃ b, c.sendBuffer.append data = some b ∧ b.Ordered ∧ b.capacity.toNat < 2 ^ 31 ∧
      c.backlog.append data.length = some ({ c with sendBuffer := b } : TCPConnection).backlog) ∨
    c.sendBuffer.append data = none ∧ c.backlog.append data.length = none := by
  have hlen : c.sendBuffer.getLength.toNat = c.sendBuffer.unread.length :=
    (Buffer.length_unread _).symm
  have hcap := h.capacity
  by_cases hover : c.sendBuffer.Overflows data.length
  · right
    refine ⟨Buffer.append_overflows h.ordered data (by omega) hover, ?_⟩
    rw [Buffer.Overflows, hlen] at hover
    rw [Backlog.append, if_neg, if_neg]
    · change ¬ c.sendBuffer.capacity.toNat + c.sendBuffer.unread.length < data.length
      omega
    · change ¬ c.sendBuffer.unread.length + data.length ≤ c.sendBuffer.capacity.toNat
      omega
  · left
    obtain ⟨b, happend, hord, hunread, hgrown⟩ :=
      Buffer.append_spec h.ordered data (by omega) hover
    have hlen' : b.unread.length = c.sendBuffer.unread.length + data.length := by
      rw [hunread, List.length_append]
    have hle := hord.getLength_le_capacity
    rw [← Buffer.length_unread, hlen'] at hle
    rw [hlen] at hgrown
    refine ⟨b, happend, hord, ?_, ?_⟩
    · rcases hgrown with heq | ⟨-, heq⟩
      · rwa [heq]
      · omega
    · rcases hgrown with heq | ⟨hlong, heq⟩
      · have hfit : c.backlog.bytes + data.length ≤ c.backlog.capacity := by
          rwa [heq] at hle
        rw [Backlog.append, if_pos hfit]
        simp only [backlog, hlen', heq]
      · have hfull : ¬ c.backlog.bytes + data.length ≤ c.backlog.capacity := by
          change ¬ c.sendBuffer.unread.length + _ ≤ c.sendBuffer.capacity.toNat
          omega
        have hlong' : c.backlog.capacity + c.backlog.bytes < data.length := hlong
        rw [Backlog.append, if_neg hfull, if_pos hlong']
        simp only [backlog, hlen', heq]

theorem backlog_enableWriting :
    c.enableWriting.backlog = { c.backlog with writing := true } := by
  rw [backlog, isWriting_enableWriting, sendBuffer_enableWriting]
  rfl

theorem send_exact (h : c.Open) (buf : OwnBuffer) (w : WriteResult)
    (haddress : c.backlog.Addressable (.send buf w)) :
    (∃ c', c.streamStep (.send buf w) = some c' ∧ c'.Open ∧
      c.backlog.step (.send buf w) = some c'.backlog) ∨
    c.streamStep (.send buf w) = none ∧ c.backlog.step (.send buf w) = none := by
  obtain ⟨remaining, buf', written, hdirect, hbuf', hunread, hremaining, -⟩ :=
    directWrite_spec c buf.ordered w
  have hlen := congrArg List.length hunread
  rw [length_remainder] at hlen
  have hle := backlog_remainder_le c.backlog buf.buffer.unread.length w
  have haddress' : 2 * c.sendBuffer.capacity.toNat + buf'.unread.length < 2 ^ 31 := by
    have htotal : 2 * c.sendBuffer.capacity.toNat + buf.buffer.unread.length < 2 ^ 31 := haddress
    omega
  have hmid : ({ c with written } : TCPConnection).Open :=
    ⟨h.ordered, h.capacity, h.live, h.writing⟩
  have hpos := int32_pos_iff remaining (by omega)
  rw [hremaining] at hpos
  rw [streamStep, sendInLoop_of_directWrite hdirect, Backlog.step, ← hlen]
  by_cases hrest : 0 < remaining
  · rw [queueRest, if_pos hrest, Buffer.appendBuffer_eq_append buf' hbuf']
    rcases append_exact hmid buf'.unread haddress' with
      ⟨b, happend, hord, hcap, hbacklog⟩ | ⟨hnone, hbacklog⟩
    · left
      change c.sendBuffer.append buf'.unread = some b at happend
      change c.backlog.append buf'.unread.length = _ at hbacklog
      rw [happend, hbacklog]
      refine ⟨_, rfl, ⟨?_, ?_, live_enableWriting h.live, fun _ => isWriting_enableWriting⟩, ?_⟩
      · rw [sendBuffer_enableWriting]
        exact hord
      · rw [sendBuffer_enableWriting]
        exact hcap
      · rw [backlog_enableWriting]
        rfl
    · right
      change c.sendBuffer.append buf'.unread = none at hnone
      change c.backlog.append buf'.unread.length = _ at hbacklog
      rw [hnone, hbacklog]
      exact ⟨rfl, rfl⟩
  · left
    have hzero : buf'.unread.length = 0 := by
      rw [hpos] at hrest
      omega
    have hroom : c.backlog.bytes ≤ c.backlog.capacity := by
      change c.sendBuffer.unread.length ≤ _
      rw [Buffer.length_unread]
      exact h.ordered.getLength_le_capacity
    rw [queueRest, if_neg hrest, hzero, Backlog.append, if_pos (by omega)]
    refine ⟨_, rfl, ⟨?_, ?_, live_enableWriting h.live, fun _ => isWriting_enableWriting⟩, ?_⟩
    · rw [sendBuffer_enableWriting]
      exact h.ordered
    · rw [sendBuffer_enableWriting]
      exact h.capacity
    · rw [backlog_enableWriting]
      rfl

/-! ## HandleWrite -/

theorem backlog_stopIfEmpty : c.stopIfEmpty.backlog =
    { c.backlog with writing := c.backlog.writing && c.backlog.bytes != 0 } := by
  rw [stopIfEmpty]
  split
  · next hempty =>
    have hzero : c.backlog.bytes = 0 :=
      List.length_eq_zero_iff.mpr ((Buffer.unread_eq_nil_iff _).mpr hempty)
    have hwriting : c.watcher.disableWriteEvent.isWriting = false := by simp
    rw [hzero, bne_self_eq_false, Bool.and_false]
    rw [backlog, hwriting]
    congr 1
  · next hempty =>
    have hbytes : (c.backlog.bytes != 0) = true := by
      rw [bne_iff_ne]
      exact fun hzero => hempty ((Buffer.unread_eq_nil_iff _).mp (List.length_eq_zero_iff.mp hzero))
    rw [hbytes, Bool.and_true]

theorem backlog_forwardSent (h : c.Open) (count : ℕ) (written : List UInt8) :
    (({ c with written } : TCPConnection).forwardSent
      ((WriteResult.accepted count).len c.sendBuffer.unread)).backlog = { c.backlog with
        bytes := c.backlog.bytes - (WriteResult.accepted count).count c.backlog.bytes } := by
  obtain ⟨-, hunread, hcap⟩ := Buffer.forward_spec h.ordered
    ((WriteResult.accepted count).len c.sendBuffer.unread)
  rw [WriteResult.toNat_len_accepted] at hunread
  have hlen := congrArg List.length hunread
  rw [List.length_drop, WriteResult.length_bytes] at hlen
  have hcap' := congrArg UInt32.toNat hcap
  simp only [backlog, forwardSent, hlen, hcap']

theorem handleWrite_eq (h : c.Open) (w : WriteResult) :
    c.handleWrite w = some (
      let sent := { c with written := c.written ++ w.bytes c.sendBuffer.unread }
      if 0 < w.len c.sendBuffer.unread then
        (sent.forwardSent (w.len c.sendBuffer.unread)).stopIfEmpty
      else sent) := by
  rw [handleWrite, writeOut, h.ordered.load_unread]
  by_cases hlen : 0 < w.len c.sendBuffer.unread
  · rw [if_pos hlen]
    exact if_pos hlen
  · rw [if_neg hlen]
    exact if_neg hlen

theorem writable_exact (h : c.Open) (w : WriteResult) :
    ∃ c', c.streamStep (.writable w) = some c' ∧ c'.Open ∧
      c.backlog.step (.writable w) = some c'.backlog := by
  obtain ⟨c', hwrite, hopen, -⟩ := handleWrite_spec h w
  refine ⟨c', hwrite, hopen, ?_⟩
  have hbytes : (w.bytes c.sendBuffer.unread).length = w.count c.backlog.bytes :=
    w.length_bytes _
  have hle := w.count_le c.backlog.bytes
  rw [handleWrite_eq h] at hwrite
  obtain rfl := Option.some.inj hwrite
  rw [Backlog.step]
  dsimp only
  by_cases hlen : 0 < w.len c.sendBuffer.unread
  · cases w with
    | error => exact absurd hlen (of_decide_eq_false rfl)
    | accepted count =>
        have hlt := (WriteResult.length_bytes_le (.accepted count) c.sendBuffer.unread).2
        have hpos := (int32_pos_iff _ (by rwa [WriteResult.toNat_len_accepted])).mp hlen
        rw [WriteResult.toNat_len_accepted, hbytes] at hpos
        rw [if_pos hlen, backlog_stopIfEmpty, backlog_forwardSent h]
        have hleft : (c.backlog.bytes - (WriteResult.accepted count).count c.backlog.bytes != 0) =
            !decide ((WriteResult.accepted count).count c.backlog.bytes = c.backlog.bytes) := by
          rw [Bool.eq_iff_iff, bne_iff_ne, Bool.not_eq_true', decide_eq_false_iff_not]
          omega
        rw [decide_eq_true hpos, Bool.true_and, hleft]
  · have hzero : w.count c.backlog.bytes = 0 := by
      rw [← hbytes, w.bytes_eq_nil_of_nonpos hlen, List.length_nil]
    rw [if_neg hlen, hzero]
    simp [backlog]

/-! ## Runs -/

theorem streamStep_exact (h : c.Open) {e : StreamEvent} (haddress : c.backlog.Addressable e) :
    (c.streamStep e).map backlog = c.backlog.step e ∧
      ∀ c', c.streamStep e = some c' → c'.Open := by
  have hdefined : (∃ c', c.streamStep e = some c' ∧ c'.Open ∧
      c.backlog.step e = some c'.backlog) ∨ c.streamStep e = none ∧ c.backlog.step e = none := by
    cases e with
    | send buf w => exact send_exact h buf w haddress
    | writable w => exact .inl (writable_exact h w)
  rcases hdefined with ⟨c', hstep, hopen, hbacklog⟩ | ⟨hnone, hbacklog⟩
  · rw [hstep, hbacklog]
    refine ⟨rfl, fun d hd => ?_⟩
    cases hd
    exact hopen
  · rw [hnone, hbacklog]
    exact ⟨rfl, fun d hd => by cases hd⟩

theorem run_exact (h : c.Open) (events : List StreamEvent)
    (haddress : Along Backlog.step Backlog.Addressable c.backlog events) :
    (run streamStep c events).map backlog = run Backlog.step c.backlog events := by
  induction events generalizing c with
  | nil => rfl
  | cons e events ih =>
      obtain ⟨hfirst, hrest⟩ := haddress
      obtain ⟨hstep, hopen⟩ := streamStep_exact h hfirst
      rw [run_cons, run_cons, ← hstep]
      cases hc' : c.streamStep e with
      | none => rfl
      | some c' =>
          rw [hc'] at hstep
          exact ih (hopen c' hc') (hrest c'.backlog hstep.symm)

/-- For every run of sends and writable events: it leaves the allocation exactly where the backlog
does not fit, and the backlog is what waits in the send buffer. -/
theorem backlog_exact (capacity : UInt32) (hcap : capacity.toNat < 2 ^ 31)
    (events : List StreamEvent)
    (haddress : Along Backlog.step Backlog.Addressable (.empty capacity.toNat) events) :
    (run streamStep (opened capacity) events).map backlog =
      run Backlog.step (.empty capacity.toNat) events := by
  rw [← backlog_opened] at haddress ⊢
  exact run_exact (opened_open capacity hcap) events haddress

theorem partial_writes_backlog :
    (run streamStep (opened Buffer.INITIAL_SIZE) partialWrites).map backlog =
      run Backlog.step (.empty Buffer.INITIAL_SIZE.toNat) partialWrites :=
  backlog_exact Buffer.INITIAL_SIZE (by decide) partialWrites (by decide)

end TCPConnection

/-! ## A peer that reads nothing -/

def StreamEvent.Refused : StreamEvent → Prop
  | .send _ w => w = .error ∨ w = .accepted 0
  | .writable w => w = .error ∨ w = .accepted 0

instance (e : StreamEvent) : Decidable e.Refused :=
  match e with
  | .send _ _ => inferInstanceAs (Decidable (_ ∨ _))
  | .writable _ => inferInstanceAs (Decidable (_ ∨ _))

namespace Backlog

variable {s : Backlog}

theorem count_refused {w : WriteResult} (h : w = .error ∨ w = .accepted 0) (n : ℕ) :
    w.count n = 0 := by
  rcases h with rfl | rfl
  · rfl
  · exact Nat.zero_min n

theorem step_refused {e : StreamEvent} (h : e.Refused) (hroom : s.bytes ≤ s.capacity)
    (hsmall : e.sent.length ≤ s.capacity) : ∃ writing, s.step e =
      if s.bytes + e.sent.length ≤ s.capacity then
        some ⟨s.bytes + e.sent.length, s.capacity, writing⟩
      else none := by
  cases e with
  | send buf w =>
      have hrest : s.remainder buf.buffer.unread.length w = buf.buffer.unread.length := by
        rw [remainder, count_refused h, Nat.sub_zero, ite_self]
      refine ⟨true, ?_⟩
      change buf.buffer.unread.length ≤ s.capacity at hsmall
      rw [step, hrest, append, StreamEvent.sent]
      split
      · rfl
      · rw [if_neg (by omega)]
        rfl
  | writable w =>
      refine ⟨s.writing, ?_⟩
      rw [step, count_refused h, StreamEvent.sent, List.length_nil, Nat.add_zero, if_pos hroom]
      simp

theorem run_refused {events : List StreamEvent} (h : ∀ e ∈ events, e.Refused)
    (hroom : s.bytes ≤ s.capacity) (hsmall : ∀ e ∈ events, e.sent.length ≤ s.capacity)
    (hcap : 3 * s.capacity < 2 ^ 31) :
    Along step Addressable s events ∧ ((run step s events).isSome ↔
      s.bytes + (events.flatMap StreamEvent.sent).length ≤ s.capacity) := by
  induction events generalizing s with
  | nil => exact ⟨trivial, iff_of_true rfl hroom⟩
  | cons e events ih =>
      obtain ⟨hfirst, hrest⟩ := List.forall_mem_cons.mp h
      obtain ⟨hfirst', hrest'⟩ := List.forall_mem_cons.mp hsmall
      obtain ⟨writing, hstep⟩ := step_refused hfirst hroom hfirst'
      have haddress : s.Addressable e := by
        rw [Addressable]
        omega
      rw [List.flatMap_cons, List.length_append, ← Nat.add_assoc, run_cons, hstep]
      split
      · next hfit =>
        rw [if_pos hfit] at hstep
        obtain ⟨halong, hdefined⟩ :=
          @ih ⟨s.bytes + e.sent.length, s.capacity, writing⟩ hrest hfit hrest' hcap
        exact ⟨halong.cons haddress hstep, hdefined⟩
      · next hfull =>
        rw [if_neg hfull] at hstep
        refine ⟨⟨haddress, fun s' hs' => ?_⟩, iff_of_false Bool.false_ne_true (by omega)⟩
        rw [hstep] at hs'
        cases hs'

end Backlog

/-- Messages to a peer that reads nothing stay inside the allocation if and only if all of them
together are not larger than the buffer. -/
theorem TCPConnection.refused_iff (capacity : UInt32) (hcap : 3 * capacity.toNat < 2 ^ 31)
    (events : List StreamEvent) (h : ∀ e ∈ events, e.Refused)
    (hsmall : ∀ e ∈ events, e.sent.length ≤ capacity.toNat) :
    (run streamStep (opened capacity) events).isSome ↔
      (events.flatMap StreamEvent.sent).length ≤ capacity.toNat := by
  obtain ⟨haddress, hdefined⟩ := @Backlog.run_refused (.empty capacity.toNat) events h
    (Nat.zero_le _) hsmall hcap
  have hbacklog := run_exact (opened_open capacity (by omega)) events
    (by rwa [backlog_opened])
  rw [backlog_opened] at hbacklog
  rw [← Option.isSome_map, hbacklog, hdefined]
  change 0 + _ ≤ capacity.toNat ↔ _
  rw [Nat.zero_add]

theorem TCPConnection.two_messages_refused :
    (run streamStep (opened 4) [.send threeBytes .error, .writable (.accepted 0),
      .send threeBytes (.accepted 0)]).isSome ↔ 6 ≤ 4 :=
  refused_iff 4 (by decide) [.send threeBytes .error, .writable (.accepted 0),
    .send threeBytes (.accepted 0)] (by decide) (by decide)

end TinyGameServer
