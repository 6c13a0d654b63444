import TinyGameServer.TCPConnection
import TinyGameServer.Transitions

/-!
# Does the outgoing stream arrive?

The bytes written to `fd_` and the unread bytes of `send_buffer_` are compared with the
concatenation of the buffers sent so far. The direct attempt of `SendInLoop`, the queue behind it
and the drain in `HandleWrite` agree on this stream as long as what has to be queued fits into
`send_buffer_`.
-/

namespace TinyGameServer

/-- A buffer that belongs to one call of `Send`. -/
structure OwnBuffer where
  buffer : Buffer
  ordered : buffer.Ordered

inductive StreamEvent where
  | send (buf : OwnBuffer) (w : WriteResult)
  | writable (w : WriteResult)

namespace TCPConnection

def streamStep (c : TCPConnection) : StreamEvent → Option TCPConnection
  | .send buf w => (c.sendInLoop buf.buffer w).map Prod.snd
  | .writable w => c.handleWrite w

def stream (c : TCPConnection) : List UInt8 := c.written ++ c.sendBuffer.unread

/-- After `Start`, for a send buffer of any capacity. -/
def opened (capacity : UInt32) : TCPConnection :=
  { new with sendBuffer := .new capacity : TCPConnection }.enableReading

def remainder (c : TCPConnection) (data : List UInt8) (w : WriteResult) : List UInt8 :=
  if ¬ c.watcher.isWriting ∧ c.sendBuffer.getLength = 0 then data.drop (w.bytes data).length
  else data

def Fits (c : TCPConnection) : StreamEvent → Prop
  | .send buf w => (c.remainder buf.buffer.unread w).length + c.sendBuffer.getLength.toNat ≤
      c.sendBuffer.capacity.toNat
  | .writable _ => True

/-- Between two handlers. -/
structure Open (c : TCPConnection) : Prop where
  ordered : c.sendBuffer.Ordered
  capacity : c.sendBuffer.capacity.toNat < 2 ^ 31
  live : c.watcher.Live
  writing : c.sendBuffer.unread ≠ [] → c.watcher.isWriting = true

end TCPConnection

namespace StreamEvent

def sent : StreamEvent → List UInt8
  | send buf _ => buf.buffer.unread
  | writable _ => []

end StreamEvent

namespace TCPConnection

variable {c : TCPConnection}

theorem unread_opened (capacity : UInt32) : (opened capacity).sendBuffer.unread = [] :=
  Buffer.unread_new capacity

theorem opened_open (capacity : UInt32) (hcap : capacity.toNat < 2 ^ 31) :
    (opened capacity).Open where
  ordered := Buffer.new_ordered capacity
  capacity := hcap
  live := ⟨rfl, rfl⟩
  writing h := absurd (unread_opened capacity) h

/-! ## SendInLoop -/

theorem remainder_fast {data : List UInt8} {w : WriteResult}
    (hfast : ¬ c.watcher.isWriting ∧ c.sendBuffer.getLength = 0) :
    c.remainder data w = data.drop (w.bytes data).length := if_pos hfast

theorem remainder_slow {data : List UInt8} {w : WriteResult}
    (hslow : ¬ (¬ c.watcher.isWriting ∧ c.sendBuffer.getLength = 0)) :
    c.remainder data w = data := if_neg hslow

theorem toUInt32_sub_accepted (length : UInt32) (count : ℕ) (data : List UInt8)
    (hdata : data.length = length.toNat) :
    ((length.toInt32 - (WriteResult.accepted count).len data).toUInt32).toNat =
      length.toNat - ((WriteResult.accepted count).bytes data).length := by
  have hle := (WriteResult.accepted count).length_bytes_le data
  have hlen := WriteResult.toNat_len_accepted count data
  rw [Int32.toUInt32_sub, UInt32.toUInt32_toInt32, UInt32.toNat_sub_of_le, hlen]
  rw [UInt32.le_iff_toNat_le, hlen]
  omega

theorem directWrite_spec (c : TCPConnection) {buf : Buffer} (hbuf : buf.Ordered)
    (w : WriteResult) :
    ∃ remaining buf' written, c.directWrite buf w = some (remaining, buf', { c with written }) ∧
      buf'.Ordered ∧ buf'.unread = c.remainder buf.unread w ∧
      remaining.toUInt32.toNat = buf'.unread.length ∧
      written ++ c.sendBuffer.unread ++ buf'.unread = c.stream ++ buf.unread := by
  by_cases hfast : ¬ c.watcher.isWriting ∧ c.sendBuffer.getLength = 0
  · have hempty := (Buffer.unread_eq_nil_iff c.sendBuffer).mpr hfast.2
    rw [directWrite, if_pos hfast, hbuf.load_unread, remainder_fast hfast]
    cases w with
    | error =>
        refine ⟨_, _, _, rfl, hbuf, rfl, ?_, ?_⟩
        · rw [Buffer.length_unread]
          rfl
        · rw [stream, WriteResult.bytes, List.append_nil]
    | accepted count =>
        have hlen := WriteResult.toNat_len_accepted count buf.unread
        obtain ⟨hord, hunread, -⟩ := Buffer.forward_spec hbuf
          ((WriteResult.accepted count).len buf.unread)
        rw [hlen] at hunread
        have hnonneg : 0 ≤ (WriteResult.accepted count).len buf.unread := by
          apply int32_nonneg
          rw [hlen]
          exact (WriteResult.length_bytes_le _ _).2
        refine ⟨_, _, _, if_pos hnonneg, hord, hunread, ?_, ?_⟩
        · rw [hunread, List.length_drop, toUInt32_sub_accepted _ _ _ (Buffer.length_unread buf),
            Buffer.length_unread]
        · rw [hunread, stream, hempty, List.append_nil, List.append_nil, List.append_assoc,
            WriteResult.bytes_append_drop]
  · rw [directWrite, if_neg hfast, remainder_slow hfast]
    refine ⟨_, _, c.written, rfl, hbuf, rfl, ?_, rfl⟩
    rw [Buffer.length_unread]
    rfl

theorem queueRest_spec (h : c.Open) {buf : Buffer} (hbuf : buf.Ordered) {remaining : Int32}
    (hremaining : remaining.toUInt32.toNat = buf.unread.length)
    (hfit : buf.unread.length + c.sendBuffer.getLength.toNat ≤ c.sendBuffer.capacity.toNat) :
    ∃ b, c.queueRest buf remaining = some { c with sendBuffer := b } ∧ b.Ordered ∧
      b.unread = c.sendBuffer.unread ++ buf.unread ∧ b.capacity = c.sendBuffer.capacity := by
  have hcap := h.capacity
  have hpos := int32_pos_iff remaining (by omega)
  rw [hremaining] at hpos
  by_cases hrest : 0 < remaining
  · have hlen := h.ordered.getLength_le_capacity
    obtain ⟨b, happend, hb⟩ := Buffer.append_within h.ordered buf.unread (by omega) (by omega)
    rw [queueRest, if_pos hrest, Buffer.appendBuffer_eq_append buf hbuf, happend]
    exact ⟨b, rfl, hb⟩
  · have hnil : buf.unread = [] := by
      rw [hpos] at hrest
      exact List.eq_nil_of_length_eq_zero (by omega)
    rw [queueRest, if_neg hrest, hnil, List.append_nil]
    exact ⟨c.sendBuffer, rfl, h.ordered, rfl, rfl⟩

@[simp] theorem isWriting_enableWriting : c.enableWriting.watcher.isWriting = true := by
  rw [enableWriting]
  split
  · exact c.watcher.isWriting_enableWriteEvent
  · rename_i h
    exact not_not.mp h

theorem live_enableWriting (h : c.watcher.Live) : c.enableWriting.watcher.Live := by
  rw [enableWriting]
  split
  · exact h.enableWriteEvent
  · exact h

theorem sendBuffer_enableWriting : c.enableWriting.sendBuffer = c.sendBuffer := by
  rw [enableWriting]
  split <;> rfl

theorem written_enableWriting : c.enableWriting.written = c.written := by
  rw [enableWriting]
  split <;> rfl

theorem sendInLoop_of_directWrite {buf buf' : Buffer} {w : WriteResult} {remaining : Int32}
    {c' : TCPConnection} (hdirect : c.directWrite buf w = some (remaining, buf', c')) :
    c.sendInLoop buf w =
      (c'.queueRest buf' remaining).map fun c'' => (buf', c''.enableWriting) := by
  simp only [sendInLoop, hdirect, Option.bind_eq_bind, Option.bind_some]
  exact Option.map_eq_bind.symm

theorem sendInLoop_spec (h : c.Open) {buf : Buffer} (hbuf : buf.Ordered) (w : WriteResult)
    (hfit : (c.remainder buf.unread w).length + c.sendBuffer.getLength.toNat ≤
      c.sendBuffer.capacity.toNat) :
    ∃ buf' c', c.sendInLoop buf w = some (buf', c') ∧ c'.Open ∧
      c'.stream = c.stream ++ buf.unread := by
  obtain ⟨remaining, buf', written, hdirect, hbuf', hunread, hremaining, hstream⟩ :=
    directWrite_spec c hbuf w
  rw [← hunread] at hfit
  have hmid : ({ c with written } : TCPConnection).Open :=
    ⟨h.ordered, h.capacity, h.live, h.writing⟩
  obtain ⟨b, hqueue, hb, hb', hcap⟩ := queueRest_spec hmid hbuf' hremaining hfit
  refine ⟨buf', ({ c with written, sendBuffer := b } : TCPConnection).enableWriting, ?_,
    ⟨?_, ?_, live_enableWriting h.live, fun _ => isWriting_enableWriting⟩, ?_⟩
  · rw [sendInLoop_of_directWrite hdirect, hqueue]
    rfl
  · rw [sendBuffer_enableWriting]
    exact hb
  · rw [sendBuffer_enableWriting]
    exact hcap ▸ h.capacity
  · rw [stream, sendBuffer_enableWriting, written_enableWriting]
    rw [hb', ← List.append_assoc, hstream]

/-! ## HandleWrite -/

theorem Open.stopIfEmpty (h : c.Open) :
    c.stopIfEmpty.Open ∧ c.stopIfEmpty.stream = c.stream := by
  rw [TCPConnection.stopIfEmpty]
  split
  · rename_i hempty
    refine ⟨⟨h.ordered, h.capacity, h.live.disableWriteEvent, fun hne => ?_⟩, rfl⟩
    exact absurd ((Buffer.unread_eq_nil_iff _).mpr hempty) hne
  · exact ⟨h, rfl⟩

theorem Open.forwardSent (h : c.Open) (len : Int32) (written : List UInt8) :
    (({ c with written } : TCPConnection).forwardSent len).Open := by
  obtain ⟨hord, hunread, hcap⟩ := Buffer.forward_spec h.ordered len
  refine ⟨hord, hcap ▸ h.capacity, h.live, fun hne => h.writing fun hnil => hne ?_⟩
  change (c.sendBuffer.forward len).unread = []
  rw [hunread, hnil, List.drop_nil]

theorem handleWrite_spec (h : c.Open) (w : WriteResult) :
    ∃ c', c.handleWrite w = some c' ∧ c'.Open ∧ c'.stream = c.stream := by
  rw [handleWrite, writeOut, h.ordered.load_unread]
  by_cases hlen : 0 < w.len c.sendBuffer.unread
  · cases w with
    | error => exact absurd hlen (of_decide_eq_false rfl)
    | accepted count =>
        have hunread := (Buffer.forward_spec h.ordered
          ((WriteResult.accepted count).len c.sendBuffer.unread)).2.1
        rw [WriteResult.toNat_len_accepted] at hunread
        obtain ⟨hopen, hstream⟩ := (h.forwardSent
          ((WriteResult.accepted count).len c.sendBuffer.unread)
          (c.written ++ (WriteResult.accepted count).bytes c.sendBuffer.unread)).stopIfEmpty
        refine ⟨_, if_pos hlen, hopen, ?_⟩
        rw [hstream, stream, stream, forwardSent]
        dsimp only
        rw [hunread, List.append_assoc, WriteResult.bytes_append_drop]
  · refine ⟨_, if_neg hlen, ⟨h.ordered, h.capacity, h.live, h.writing⟩, ?_⟩
    rw [stream, w.bytes_eq_nil_of_nonpos hlen, List.append_nil]
    rfl

/-! ## Runs -/

theorem streamStep_spec (h : c.Open) (e : StreamEvent) (hfit : c.Fits e) :
    ∃ c', c.streamStep e = some c' ∧ c'.Open ∧ c'.stream = c.stream ++ e.sent := by
  cases e with
  | send buf w =>
      obtain ⟨buf', c', hsend, hopen, hstream⟩ := sendInLoop_spec h buf.ordered w hfit
      exact ⟨c', Option.map_eq_some_iff.mpr ⟨_, hsend, rfl⟩, hopen, hstream⟩
  | writable w =>
      obtain ⟨c', hwrite, hopen, hstream⟩ := handleWrite_spec h w
      exact ⟨c', hwrite, hopen, hstream.trans (List.append_nil _).symm⟩

theorem run_spec (h : c.Open) (events : List StreamEvent) (hfits : Along streamStep Fits c events) :
    ∃ c', run streamStep c events = some c' ∧ c'.Open ∧
      c'.stream = c.stream ++ events.flatMap StreamEvent.sent := by
  induction events generalizing c with
  | nil => exact ⟨c, rfl, h, (List.append_nil _).symm⟩
  | cons e events ih =>
      obtain ⟨hfit, hrest⟩ := hfits
      obtain ⟨c', hstep, hopen, hstream⟩ := streamStep_spec h e hfit
      obtain ⟨c'', hrun, hopen', hstream'⟩ := ih hopen (hrest c' hstep)
      refine ⟨c'', ?_, hopen', ?_⟩
      · rw [run_cons, hstep]
        exact hrun
      · rw [hstream', hstream, List.flatMap_cons, List.append_assoc]

/-- Every run of sends and writable events in which what remains to be queued fits: it is defined,
what has been written followed by what is unread is what was sent, and libevent waits for a
writable socket as long as something is unread. -/
theorem outgoing_stream_exact (capacity : UInt32) (hcap : capacity.toNat < 2 ^ 31)
    (events : List StreamEvent) (hfits : Along streamStep Fits (opened capacity) events) :
    ∃ c, run streamStep (opened capacity) events = some c ∧
      c.written ++ c.sendBuffer.unread = events.flatMap StreamEvent.sent ∧
      (c.sendBuffer.getLength ≠ 0 →
        c.watcher.isWriting = true ∧ c.watcher.registered.write = true) := by
  obtain ⟨c, hrun, hopen, hstream⟩ := run_spec (opened_open capacity hcap) events hfits
  have hstart : (opened capacity).stream = [] := unread_opened capacity
  rw [hstart, List.nil_append] at hstream
  refine ⟨c, hrun, hstream, fun hne => ?_⟩
  have hwriting := hopen.writing (mt (Buffer.unread_eq_nil_iff _).mp hne)
  refine ⟨hwriting, ?_⟩
  rw [hopen.live.registered]
  exact hwriting

instance (c : TCPConnection) (e : StreamEvent) : Decidable (c.Fits e) :=
  match e with
  | .send _ _ => inferInstanceAs (Decidable (_ ≤ _))
  | .writable _ => isTrue trivial

def threeBytes : OwnBuffer where
  buffer :=
    { capacity := 8, block := ⟨fun i => UInt8.ofNat (i + 1)⟩, readIndex := 0, writeIndex := 3 }
  ordered := ⟨by decide, by decide⟩

/-- A partial direct write, a queued send, and drains that fail, are partial, and complete. -/
def partialWrites : List StreamEvent :=
  [.send threeBytes (.accepted 2), .send threeBytes .error, .writable .error,
    .writable (.accepted 3), .writable (.accepted 0), .writable (.accepted 5)]

theorem partial_writes_exact :
    ∃ c, run streamStep (opened Buffer.INITIAL_SIZE) partialWrites = some c ∧
      c.written ++ c.sendBuffer.unread = partialWrites.flatMap StreamEvent.sent ∧
      (c.sendBuffer.getLength ≠ 0 →
        c.watcher.isWriting = true ∧ c.watcher.registered.write = true) :=
  outgoing_stream_exact Buffer.INITIAL_SIZE (by decide) partialWrites (by decide)

end TCPConnection
end TinyGameServer
