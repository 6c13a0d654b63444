import TinyGameServer.OutgoingStream

/-!
# Is write interest only enabled with something to send?

`HandleWrite` disables it when nothing is left, but `SendInLoop` enables it after every attempt.
A run keeps `send_buffer_` non-empty while the interest is enabled if and only if every
`SendInLoop` finds something in it or queues something.
-/

namespace TinyGameServer.TCPConnection

/-- With write interest, in `ev_type_` or in libevent, there is something to send. -/
def WriteWanted (c : TCPConnection) : Prop :=
  c.watcher.isWriting = true ∨ c.watcher.registered.write = true → c.sendBuffer.getLength ≠ 0

def StepWanted (c : TCPConnection) (e : StreamEvent) : Prop :=
  ∀ c', c.streamStep e = some c' → c'.WriteWanted

/-- Something is queued already, or the direct attempt leaves as much as an `int` can count and
not nothing. -/
def Queues (c : TCPConnection) : StreamEvent → Prop
  | .send buf w => c.sendBuffer.getLength ≠ 0 ∨
      0 < (c.remainder buf.buffer.unread w).length ∧
        (c.remainder buf.buffer.unread w).length < 2 ^ 31
  | .writable _ => True

/-- Between two handlers. -/
structure Settled (c : TCPConnection) : Prop where
  ordered : c.sendBuffer.Ordered
  live : c.watcher.Live
  wanted : c.WriteWanted

variable {c c' : TCPConnection}

theorem writeWanted_iff (h : c.watcher.Live) :
    c.WriteWanted ↔ (c.watcher.isWriting = true → c.sendBuffer.getLength ≠ 0) := by
  have hregistered : c.watcher.registered.write = c.watcher.isWriting := by
    rw [h.registered]
    rfl
  rw [WriteWanted, hregistered, or_self]

theorem opened_settled (capacity : UInt32) : (opened capacity).Settled where
  ordered := Buffer.new_ordered capacity
  live := ⟨rfl, rfl⟩
  wanted h := by rcases h with h | h <;> cases h

/-! ## SendInLoop -/

theorem queueRest_eq_some (hc : c.sendBuffer.Ordered) {buf : Buffer} (hbuf : buf.Ordered)
    {remaining : Int32} (h : c.queueRest buf remaining = some c') :
    c'.watcher = c.watcher ∧ c'.sendBuffer.Ordered ∧
      c'.sendBuffer.unread = c.sendBuffer.unread ++ if 0 < remaining then buf.unread else [] := by
  rw [queueRest] at h
  split_ifs at h with hpos
  · obtain ⟨b, happend, h⟩ := Option.bind_eq_some_iff.mp h
    rw [Buffer.appendBuffer_eq_append buf hbuf] at happend
    obtain ⟨hord, hunread⟩ := Buffer.append_eq_some hc happend
    cases h
    rw [if_pos hpos]
    exact ⟨rfl, hord, hunread⟩
  · cases h
    rw [if_neg hpos, List.append_nil]
    exact ⟨rfl, hc, rfl⟩

def queued (c : TCPConnection) (data : List UInt8) (w : WriteResult) : List UInt8 :=
  if 0 < (c.remainder data w).length ∧ (c.remainder data w).length < 2 ^ 31 then
    c.remainder data w
  else []

theorem sendInLoop_eq_some (hc : c.sendBuffer.Ordered) (hlive : c.watcher.Live)
    {buf buf' : Buffer} (hbuf : buf.Ordered) {w : WriteResult}
    (hs : c.sendInLoop buf w = some (buf', c')) :
    c'.sendBuffer.Ordered ∧ c'.watcher.Live ∧ c'.watcher.isWriting = true ∧
      c'.sendBuffer.unread = c.sendBuffer.unread ++ c.queued buf.unread w := by
  obtain ⟨remaining, buf₁, written, hdirect, hbuf₁, hunread₁, hremaining, -⟩ :=
    directWrite_spec c hbuf w
  rw [sendInLoop_of_directWrite hdirect] at hs
  obtain ⟨cq, hqueue, hs⟩ := Option.map_eq_some_iff.mp hs
  have hmid : ({ c with written } : TCPConnection).sendBuffer.Ordered := hc
  obtain ⟨hwatcher, hord, hunread⟩ := queueRest_eq_some hmid hbuf₁ hqueue
  cases hs
  refine ⟨?_, ?_, isWriting_enableWriting, ?_⟩
  · rw [sendBuffer_enableWriting]
    exact hord
  · apply live_enableWriting
    rw [hwatcher]
    exact hlive
  · rw [sendBuffer_enableWriting, hunread, queued]
    simp only [int32_pos_iff_lt, hremaining, hunread₁]

/-- Only an append can leave the allocation. -/
theorem sendInLoop_defined (c : TCPConnection) {buf : Buffer} (hbuf : buf.Ordered)
    {w : WriteResult} (hnothing : ¬ (0 < (c.remainder buf.unread w).length ∧
      (c.remainder buf.unread w).length < 2 ^ 31)) :
    ∃ buf' c', c.sendInLoop buf w = some (buf', c') := by
  obtain ⟨remaining, buf₁, written, hdirect, -, hunread₁, hremaining, -⟩ :=
    directWrite_spec c hbuf w
  rw [← hunread₁, ← hremaining, ← int32_pos_iff_lt] at hnothing
  have hqueue : ({ c with written } : TCPConnection).queueRest buf₁ remaining =
      some { c with written } := by
    rw [queueRest, if_neg hnothing]
    rfl
  rw [sendInLoop_of_directWrite hdirect, hqueue]
  exact ⟨_, _, rfl⟩

theorem queued_ne_nil_iff (c : TCPConnection) (data : List UInt8) (w : WriteResult) :
    c.queued data w ≠ [] ↔ 0 < (c.remainder data w).length ∧
      (c.remainder data w).length < 2 ^ 31 := by
  rw [queued]
  split_ifs with hsome
  · exact iff_of_true (List.length_pos_iff.mp hsome.1) hsome
  · exact iff_of_false (fun h => h rfl) hsome

theorem send_wanted_iff (h : c.Settled) (buf : OwnBuffer) (w : WriteResult) :
    c.StepWanted (.send buf w) ↔ c.Queues (.send buf w) := by
  rw [Queues, ← queued_ne_nil_iff, ne_eq, ← Buffer.unread_eq_nil_iff]
  constructor
  · intro hwanted
    by_contra hnone
    obtain ⟨hempty, hqueued⟩ := not_or.mp hnone
    rw [queued_ne_nil_iff] at hqueued
    obtain ⟨buf', c', hs⟩ := sendInLoop_defined c buf.ordered hqueued
    obtain ⟨-, -, hwriting, hunread⟩ := sendInLoop_eq_some h.ordered h.live buf.ordered hs
    have hlength := hwanted c' (Option.map_eq_some_iff.mpr ⟨_, hs, rfl⟩) (.inl hwriting)
    rw [ne_eq, ← Buffer.unread_eq_nil_iff, hunread, queued, if_neg hqueued, List.append_nil] at hlength
    exact hlength (not_not.mp hempty)
  · intro hqueues t ht
    obtain ⟨⟨buf', c'⟩, hs, rfl⟩ := Option.map_eq_some_iff.mp ht
    obtain ⟨-, -, -, hunread⟩ := sendInLoop_eq_some h.ordered h.live buf.ordered hs
    intro _ hlength
    rw [← Buffer.unread_eq_nil_iff, hunread, List.append_eq_nil_iff] at hlength
    rcases hqueues with hold | hnew
    · exact hold hlength.1
    · exact hnew hlength.2

/-! ## HandleWrite -/

theorem Settled.stopIfEmpty (hc : c.sendBuffer.Ordered) (hlive : c.watcher.Live) :
    c.stopIfEmpty.Settled := by
  rw [TCPConnection.stopIfEmpty]
  split_ifs with hempty
  · refine ⟨hc, hlive.disableWriteEvent, (writeWanted_iff hlive.disableWriteEvent).mpr ?_⟩
    intro hwriting
    rw [FdWatcher.isWriting_disableWriteEvent] at hwriting
    cases hwriting
  · exact ⟨hc, hlive, fun _ => hempty⟩

theorem handleWrite_settled (h : c.Settled) {w : WriteResult} (hs : c.handleWrite w = some c') :
    c'.Settled := by
  simp only [handleWrite, writeOut, h.ordered.load_unread, Option.bind_eq_bind,
    Option.bind_some, Option.pure_def] at hs
  split_ifs at hs
  · cases hs
    apply Settled.stopIfEmpty
    · exact (Buffer.forward_spec h.ordered _).1
    · exact h.live
  · cases hs
    exact ⟨h.ordered, h.live, h.wanted⟩

/-! ## Runs -/

theorem stepWanted_iff {e : StreamEvent} (h : c.Settled) : c.StepWanted e ↔ c.Queues e := by
  cases e with
  | send buf w => exact send_wanted_iff h buf w
  | writable w => exact iff_of_true (fun _ hs => (handleWrite_settled h hs).wanted) trivial

theorem step_settled {e : StreamEvent} (h : c.Settled) (hqueues : c.Queues e)
    (hs : c.streamStep e = some c') : c'.Settled := by
  have hwanted := (stepWanted_iff h).mpr hqueues c' hs
  cases e with
  | send buf w =>
      obtain ⟨⟨buf', c''⟩, hsend, rfl⟩ := Option.map_eq_some_iff.mp hs
      obtain ⟨hord, hlive, -, -⟩ := sendInLoop_eq_some h.ordered h.live buf.ordered hsend
      exact ⟨hord, hlive, hwanted⟩
  | writable w => exact handleWrite_settled h hs

/-- Over every run of sends and writable events on an open connection, whose send buffer has any
capacity: there is something to send in every state with write interest if and only if every
`SendInLoop` finds or queues something. -/
theorem write_wanted_iff (capacity : UInt32) (events : List StreamEvent) :
    ((opened capacity).WriteWanted ∧ Along streamStep StepWanted (opened capacity) events) ↔
      Along streamStep Queues (opened capacity) events := by
  have hsettled := opened_settled capacity
  rw [and_iff_right hsettled.wanted]
  exact along_iff (fun _ _ => stepWanted_iff) (fun _ _ _ => step_settled) hsettled events

theorem full_write_unwanted : ¬ Along streamStep StepWanted (opened Buffer.INITIAL_SIZE)
    [.send threeBytes (.accepted 3)] := by
  rintro ⟨h, -⟩
  exact h _ rfl (.inl rfl) rfl

end TinyGameServer.TCPConnection
