import TinyGameServer.Exchange
import TinyGameServer.ReceiverGrowth
import TinyGameServer.SendBacklog

/-!
# A window for the echo server

Nothing bounds the buffers of the framework but the peers themselves. A peer that has at most 8192
bytes outstanding, as many as a buffer is allocated with, never makes the echo server leave an
allocation: everything outstanding is in one buffer at worst.
-/

namespace TinyGameServer

namespace TCPConnection

variable {c c' : TCPConnection}

theorem capacity_sendInLoop (h : c.Open) {buf buf' : Buffer} (hbuf : buf.Ordered)
    {w : WriteResult} (hfit : (c.remainder buf.unread w).length + c.sendBuffer.getLength.toNat ≤
      c.sendBuffer.capacity.toNat) (hs : c.sendInLoop buf w = some (buf', c')) :
    c'.sendBuffer.capacity = c.sendBuffer.capacity := by
  obtain ⟨remaining, buf₁, written, hdirect, hbuf₁, hunread, hremaining, -⟩ :=
    directWrite_spec c hbuf w
  rw [← hunread] at hfit
  have hmid : ({ c with written } : TCPConnection).Open :=
    ⟨h.ordered, h.capacity, h.live, h.writing⟩
  obtain ⟨b, hqueue, -, -, hcap⟩ := queueRest_spec hmid hbuf₁ hremaining hfit
  rw [sendInLoop_of_directWrite hdirect, hqueue] at hs
  cases hs
  rw [sendBuffer_enableWriting]
  exact hcap

theorem capacity_handleWrite (h : c.Open) {w : WriteResult} (hs : c.handleWrite w = some c') :
    c'.sendBuffer.capacity = c.sendBuffer.capacity := by
  rw [handleWrite_eq h] at hs
  obtain rfl := Option.some.inj hs
  dsimp only
  split
  · rw [stopIfEmpty]
    split <;> exact (Buffer.forward_spec h.ordered _).2.2
  · rfl

end TCPConnection

namespace Link

variable {β : Type} {cb : ReadCallback β} {l l' : Link β}

theorem capacity_step (h : l.Sound cb) {a : Action} (ha : a.Proper) (hfit : l.Fits a)
    (hs : l.step cb.onBuffer a = some l') :
    l'.tx.sendBuffer.capacity = l.tx.sendBuffer.capacity := by
  cases a with
  | send buf w =>
      obtain ⟨⟨buf', tx⟩, hsend, hs⟩ := Option.bind_eq_some_iff.mp hs
      cases hs
      exact TCPConnection.capacity_sendInLoop h.tx ha hfit hsend
  | writable w =>
      obtain ⟨tx, hwrite, hs⟩ := Option.bind_eq_some_iff.mp hs
      cases hs
      exact TCPConnection.capacity_handleWrite h.tx hwrite
  | readable count =>
      rw [Link.step] at hs
      split at hs
      · obtain ⟨rx, -, hs⟩ := Option.bind_eq_some_iff.mp hs
        cases hs
        rfl
      · cases hs

theorem rx_capacity_step (hrx : l.rx.Sound) {a : Action} (hfit : l.Fits a)
    (hs : l.step cb.onBuffer a = some l') :
    l.rx.buffer.capacity.toNat ≤ l'.rx.buffer.capacity.toNat := by
  cases a with
  | send buf w =>
      obtain ⟨tx, -, hs⟩ := Option.bind_eq_some_iff.mp hs
      cases hs
      exact Nat.le_refl _
  | writable w =>
      obtain ⟨tx, -, hs⟩ := Option.bind_eq_some_iff.mp hs
      cases hs
      exact Nat.le_refl _
  | readable count =>
      rw [Link.step] at hs
      split at hs
      · obtain ⟨rx, hstep, hs⟩ := Option.bind_eq_some_iff.mp hs
        cases hs
        rcases Receiver.step_capacity hrx hfit.1 hstep with heq | ⟨spill, -, -, heq⟩
        · exact (congrArg UInt32.toNat heq).ge
        · change l.rx.buffer.capacity.toNat ≤ rx.buffer.capacity.toNat
          omega
      · cases hs

/-! ### Events that are defined -/

structure Receiving (l : Link β) : Prop where
  sound : l.rx.Sound
  running : l.rx.closed = false

/-- The callback finds the bytes that it reads. -/
def Finds (cb : ReadCallback β) (l : Link β) (count : ℕ) : Prop :=
  (cb.onQueue (l.rx.traced.unread ++ l.wire.take count)).isSome

theorem exists_send (h : l.Sound cb) {buf : Buffer} (hbuf : buf.Ordered) {w : WriteResult}
    (hfit : l.Fits (.send buf w)) : ∃ l', l.step cb.onBuffer (.send buf w) = some l' ∧
      l'.rx = l.rx := by
  obtain ⟨buf', tx, hsend, -, -⟩ := TCPConnection.sendInLoop_spec h.tx hbuf w hfit
  exact ⟨{ l with tx, sent := l.sent ++ buf.unread }, by rw [step, hsend]; rfl, rfl⟩

theorem exists_writable (h : l.Sound cb) (w : WriteResult) :
    ∃ l', l.step cb.onBuffer (.writable w) = some l' ∧ l'.rx = l.rx := by
  obtain ⟨tx, hwrite, -, -⟩ := TCPConnection.handleWrite_spec h.tx w
  exact ⟨{ l with tx }, by rw [step, hwrite]; rfl, rfl⟩

theorem exists_readable (h : l.Receiving) {count : ℕ} (hcount : 0 < count ∧ count ≤ l.wire.length)
    (hfit : l.Fits (.readable count)) (hfinds : l.Finds cb count) :
    ∃ l', l.step cb.onBuffer (.readable count) = some l' ∧ l'.Receiving := by
  obtain ⟨⟨result, unread⟩, hqueue⟩ := Option.isSome_iff_exists.mp hfinds
  have hne : l.wire.take count ≠ [] := by
    rw [← List.length_pos_iff, List.length_take]
    omega
  obtain ⟨rx, hrx, hsound, hinbox⟩ := Receiver.step_agrees h.sound hfit.1 hfit.2
    (Inbox.step_data (s := l.rx.inbox) h.running hne hqueue)
  have hclosed : rx.closed = l.rx.closed := congrArg Inbox.closed hinbox
  refine ⟨{ l with rx, chunks := l.chunks ++ [l.wire.take count] }, ?_, hsound,
    hclosed.trans h.running⟩
  rw [step, if_pos hcount, hrx]
  rfl

/-! ### Room -/

theorem fits_send (buf : Buffer) (w : WriteResult)
    (h : l.backlog.length + buf.unread.length ≤ l.tx.sendBuffer.capacity.toNat) :
    l.Fits (.send buf w) := by
  have hle := TCPConnection.backlog_remainder_le l.tx.backlog buf.unread.length w
  rw [← TCPConnection.length_remainder] at hle
  rw [backlog, Buffer.length_unread] at h
  rw [Fits]
  omega

theorem length_chunk (l : Link β) (count : ℕ) : (l.wire.take count).length ≤ l.wire.length :=
  List.length_take_le' _ _

theorem readable_of_small {s : Receiver β} {bytes : List UInt8} (h : bytes.length ≤ 8192) :
    s.Readable (.data bytes) := by
  rw [Receiver.Readable, Buffer.Readable]
  omega

theorem fits_readable (hrx : l.rx.Sound) (count : ℕ) (hsmall : l.wire.length ≤ 8192)
    (h : l.rx.traced.unread.length + l.wire.length ≤ l.rx.buffer.capacity.toNat) :
    l.Fits (.readable count) := by
  have hchunk := l.length_chunk count
  refine ⟨readable_of_small (by omega), ?_⟩
  have hord : l.rx.buffer.Ordered := hrx.clean.1
  have hread := hord.read_le_write
  have hwrite := hord.write_le_capacity
  have hlen : l.rx.traced.unread.length = l.rx.buffer.unread.length := rfl
  rw [hlen, Buffer.length_unread, hord.toNat_getLength] at h
  rintro ⟨hlong, hshort, -⟩
  rw [Buffer.room] at hlong hshort
  omega

end Link

namespace EchoServer

variable {host : ByteOrder} {γ : Type} {peer : ReadCallback γ}
  {s s' : Exchange (Option Buffer) γ}

/-- A request keeps the window. What the peer reads has room, and its callback finds the bytes that
it reads. -/
def Window (peer : ReadCallback γ) (s : Exchange (Option Buffer) γ) : Exchange.Action → Prop
  | .request buf _ =>
    s.up.sent.length + buf.buffer.unread.length ≤ s.down.received.length + 8192
  | .replyReadable count =>
    s.down.rx.Fits (.data (s.down.wire.take count)) ∧ s.down.Finds peer count
  | _ => True

/-- At most 8192 bytes are outstanding, and every buffer of the framework has room for them. -/
structure Wide (host : ByteOrder) (peer : ReadCallback γ) (s : Exchange (Option Buffer) γ) :
    Prop where
  sound : s.Sound (server host) peer
  outstanding : s.up.sent.length ≤ s.down.received.length + 8192
  up : 8192 ≤ s.up.tx.sendBuffer.capacity.toNat
  down : 8192 ≤ s.down.tx.sendBuffer.capacity.toNat
  rx : 8192 ≤ s.up.rx.buffer.capacity.toNat
  receiving : s.up.Receiving
  peerReceiving : s.down.Receiving

theorem length_sent_eq (h : s.Sound (server host) peer) : ∃ waiting : List Buffer,
    s.pending (server host) = waiting.map some ∧
      s.up.sent.length = s.down.received.length + s.down.wire.length + s.down.backlog.length +
        (waiting.flatMap Buffer.unread).length + s.up.rx.traced.unread.length +
        s.up.wire.length + s.up.backlog.length := by
  obtain ⟨waiting, echoed, hwaiting, hechoed, hsent, -⟩ := sent_eq h
  refine ⟨waiting, hwaiting, ?_⟩
  have hlen := congrArg List.length hsent
  rw [hechoed] at hlen
  simp only [List.length_append] at hlen
  omega

theorem Wide.fits (h : Wide host peer s) {a : Exchange.Action} (hwindow : Window peer s a) :
    s.Fits (server host) a := by
  obtain ⟨waiting, hwaiting, hlen⟩ := length_sent_eq h.sound
  have houtstanding := h.outstanding
  have hup := h.up
  have hdown := h.down
  have hrx := h.rx
  cases a with
  | request buf w =>
      have hroom : s.up.sent.length + buf.buffer.unread.length ≤
          s.down.received.length + 8192 := hwindow
      apply Link.fits_send
      omega
  | requestWritable w => exact trivial
  | requestReadable count =>
      apply Link.fits_readable h.receiving.sound
      · omega
      · omega
  | reply w =>
      rw [Exchange.Fits]
      split
      · next buf rest hpending =>
        cases waiting with
        | nil =>
            rw [hwaiting] at hpending
            cases hpending
        | cons buf' waiting =>
            rw [hwaiting, List.map_cons] at hpending
            cases hpending
            rw [List.flatMap_cons, List.length_append] at hlen
            apply Link.fits_send
            omega
      · exact trivial
  | replyWritable w => exact trivial
  | replyReadable count =>
      have hchunk := s.down.length_chunk count
      exact ⟨Link.readable_of_small (by omega), hwindow.1⟩

theorem finds_up (l : Link (Option Buffer)) (count : ℕ) : l.Finds (readCallback host) count := rfl

theorem Wide.up_step (h : Wide host peer s) (a : Link.Action) (ha : a.Proper) (hfit : s.up.Fits a)
    (hroom : s.up.sent.length + a.sent.length ≤ s.down.received.length + 8192) {up : Link (Option Buffer)}
    (hup : s.up.step (readCallback host).onBuffer a = some up) (hreceiving : up.Receiving) :
    ∃ s', s.stepUp (server host) a = some s' ∧ Wide host peer s' := by
  have hs : s.stepUp (server host) a = some { s with up } := by
    rw [Exchange.stepUp, server, hup]
    rfl
  have hcap := congrArg UInt32.toNat (Link.capacity_step h.sound.up ha hfit hup)
  have hrx := Link.rx_capacity_step h.receiving.sound hfit hup
  refine ⟨_, hs, h.sound.stepUp a ha hfit hs, ?_, ?_, h.down, h.rx.trans hrx, hreceiving,
    h.peerReceiving⟩
  · rw [Link.sent_step hup, List.length_append]
    exact hroom
  · rw [hcap]
    exact h.up

theorem Wide.down_step (h : Wide host peer s) (a : Link.Action) (ha : a.Proper)
    (hfit : s.down.Fits a) {down : Link γ} (hdown : s.down.step peer.onBuffer a = some down)
    (hreceiving : down.Receiving) {executed : ℕ}
    (hsound : ({ s with down, executed } : Exchange (Option Buffer) γ).Sound (server host) peer) :
    Wide host peer { s with down, executed } := by
  have hcap := congrArg UInt32.toNat (Link.capacity_step h.sound.down ha hfit hdown)
  have hreceived := (Link.received_step hdown).length_le
  have houtstanding := h.outstanding
  refine ⟨hsound, ?_, h.up, ?_, h.rx, h.receiving, hreceiving⟩
  · change s.up.sent.length ≤ down.received.length + 8192
    omega
  · rw [hcap]
    exact h.down

/-- Within the window every event that can happen is defined. -/
theorem Wide.step (h : Wide host peer s) {a : Exchange.Action} (hwindow : Window peer s a)
    (hpossible : s.Possible (server host) a) :
    ∃ s', s.step (server host) peer a = some s' ∧ Wide host peer s' := by
  have hfit := h.fits hwindow
  have houtstanding := h.outstanding
  have hsound {s' : Exchange (Option Buffer) γ} (hs : s.step (server host) peer a = some s') :=
    h.sound.step (server_replies host) (prefix_bytes s.up.sent) hfit hs
  cases a with
  | request buf w =>
      obtain ⟨up, hup, hrx⟩ := Link.exists_send h.sound.up buf.ordered hfit
      exact h.up_step (.send buf.buffer w) buf.ordered hfit hwindow hup
        ⟨hrx ▸ h.receiving.sound, hrx ▸ h.receiving.running⟩
  | requestWritable w =>
      obtain ⟨up, hup, hrx⟩ := Link.exists_writable h.sound.up w
      exact h.up_step (.writable w) trivial hfit houtstanding hup
        ⟨hrx ▸ h.receiving.sound, hrx ▸ h.receiving.running⟩
  | requestReadable count =>
      obtain ⟨up, hup, hreceiving⟩ := Link.exists_readable h.receiving hpossible hfit
        (finds_up s.up count)
      exact h.up_step (.readable count) trivial hfit houtstanding hup hreceiving
  | reply w =>
      obtain ⟨waiting, hwaiting, -⟩ := length_sent_eq h.sound
      cases waiting with
      | nil => exact absurd hwaiting hpossible
      | cons buf waiting =>
          rw [List.map_cons] at hwaiting
          rw [Exchange.Fits, hwaiting] at hfit
          have hbuf := h.sound.ordered_of_pending (server_replies host) (prefix_bytes s.up.sent)
            hwaiting
          obtain ⟨down, hdown, hrx⟩ := Link.exists_send h.sound.down hbuf hfit
          have hs : s.step (server host) peer (.reply w) =
              some { s with down, executed := s.executed + 1 } := by
            rw [Exchange.step, hwaiting]
            dsimp only
            rw [Exchange.stepDown, hdown]
            rfl
          exact ⟨_, hs, h.down_step (.send buf w) hbuf hfit hdown
            ⟨hrx ▸ h.peerReceiving.sound, hrx ▸ h.peerReceiving.running⟩ (hsound hs)⟩
  | replyWritable w =>
      obtain ⟨down, hdown, hrx⟩ := Link.exists_writable h.sound.down w
      have hs : s.step (server host) peer (.replyWritable w) = some { s with down } := by
        rw [Exchange.step, Exchange.stepDown, hdown]
        rfl
      exact ⟨_, hs, h.down_step (.writable w) trivial hfit hdown
        ⟨hrx ▸ h.peerReceiving.sound, hrx ▸ h.peerReceiving.running⟩ (hsound hs)⟩
  | replyReadable count =>
      obtain ⟨down, hdown, hreceiving⟩ := Link.exists_readable h.peerReceiving hpossible hfit
        hwindow.2
      have hs : s.step (server host) peer (.replyReadable count) = some { s with down } := by
        rw [Exchange.step, Exchange.stepDown, hdown]
        rfl
      exact ⟨_, hs, h.down_step (.readable count) trivial hfit hdown hreceiving (hsound hs)⟩

instance (peer : ReadCallback γ) (s : Exchange (Option Buffer) γ) (a : Exchange.Action) :
    Decidable (Window peer s a ∧ s.Possible (server host) a) :=
  match a with
  | .request _ _ => inferInstanceAs (Decidable (_ ≤ _ ∧ True))
  | .replyReadable count =>
    inferInstanceAs (Decidable ((s.down.rx.Fits (.data (s.down.wire.take count)) ∧
      (peer.onQueue (s.down.rx.traced.unread ++ s.down.wire.take count)).isSome) ∧
        0 < count ∧ count ≤ s.down.wire.length))
  | .reply _ => inferInstanceAs (Decidable (True ∧ s.pending (server host) ≠ []))
  | .requestReadable count =>
    inferInstanceAs (Decidable (True ∧ 0 < count ∧ count ≤ s.up.wire.length))
  | .requestWritable _ | .replyWritable _ => isTrue ⟨trivial, trivial⟩

end EchoServer
end TinyGameServer
