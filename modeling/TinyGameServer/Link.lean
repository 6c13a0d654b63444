import TinyGameServer.OutgoingStream
import TinyGameServer.ReadEvents

/-!
# One direction of a connection

The sending side writes to its descriptor as much as the kernel takes, the kernel keeps the bytes in
order, and every read event of the receiving side takes some of them from the front. Whatever order
the events of the two sides come in, nothing is lost, doubled or overtaken as long as the buffers
have room.
-/

namespace TinyGameServer

structure Link (β : Type) where
  tx : TCPConnection
  rx : Receiver β
  /-- All bytes that were given to `SendInLoop`. -/
  sent : List UInt8
  /-- What the read events have brought. -/
  chunks : List (List UInt8)

namespace Link

variable {β : Type}

def init : Link β where
  tx := .opened Buffer.INITIAL_SIZE
  rx := .init
  sent := []
  chunks := []

def received (l : Link β) : List UInt8 := l.chunks.flatten

/-- What the kernel has taken and not handed over. -/
def wire (l : Link β) : List UInt8 := l.tx.written.drop l.received.length

def backlog (l : Link β) : List UInt8 := l.tx.sendBuffer.unread

inductive Action where
  | send (buf : Buffer) (w : WriteResult)
  | writable (w : WriteResult)
  | readable (count : ℕ)

/-- At the end of the file `readv` hands over nothing, which is not an event here. -/
def step (readCb : StateT Traced Option β) (l : Link β) : Action → Option (Link β)
  | .send buf w => do
    let (_, tx) ← l.tx.sendInLoop buf w
    return { l with tx, sent := l.sent ++ buf.unread }
  | .writable w => do
    let tx ← l.tx.handleWrite w
    return { l with tx }
  | .readable count =>
    if 0 < count ∧ count ≤ l.wire.length then do
      let rx ← l.rx.step readCb (.data (l.wire.take count))
      return { l with rx, chunks := l.chunks ++ [l.wire.take count] }
    else none

def Action.sent : Action → List UInt8
  | send buf _ => buf.unread
  | _ => []

def Action.Proper : Action → Prop
  | send buf _ => buf.Ordered
  | _ => True

/-- There is room at the side that acts. -/
def Fits (l : Link β) : Action → Prop
  | .send buf w => (l.tx.remainder buf.unread w).length + l.tx.sendBuffer.getLength.toNat ≤
      l.tx.sendBuffer.capacity.toNat
  | .writable _ => True
  | .readable count => l.rx.Readable (.data (l.wire.take count)) ∧
      l.rx.Fits (.data (l.wire.take count))

instance (l : Link β) (a : Action) : Decidable (l.Fits a) :=
  match a with
  | .send _ _ => inferInstanceAs (Decidable (_ ≤ _))
  | .writable _ => isTrue trivial
  | .readable _ => inferInstanceAs (Decidable (_ ∧ _))

structure Sound (cb : ReadCallback β) (l : Link β) : Prop where
  tx : l.tx.Open
  stream : l.tx.stream = l.sent
  received : l.received <+: l.tx.written
  filled : ∀ chunk ∈ l.chunks, chunk ≠ []
  rx : run (Receiver.step cb.onBuffer) .init (l.chunks.map .data) = some l.rx
  reads : Along (Receiver.step cb.onBuffer) Receiver.Readable .init (l.chunks.map .data)
  fits : Along (Receiver.step cb.onBuffer) Receiver.Fits .init (l.chunks.map .data)

end Link

/-! ## What is written stays written -/

namespace TCPConnection

variable {c c' : TCPConnection}

theorem written_directWrite {buf buf' : Buffer} {w : WriteResult} {remaining : Int32}
    (h : c.directWrite buf w = some (remaining, buf', c')) : c.written <+: c'.written := by
  rw [directWrite] at h
  split at h
  · obtain ⟨data, -, h⟩ := Option.bind_eq_some_iff.mp h
    dsimp only at h
    split at h
    · cases h
      exact List.prefix_append _ _
    · cases h
      exact List.prefix_append _ _
  · cases h
    exact List.prefix_refl _

theorem written_queueRest {buf : Buffer} {remaining : Int32}
    (h : c.queueRest buf remaining = some c') : c'.written = c.written := by
  rw [queueRest] at h
  split at h
  · obtain ⟨sendBuffer, -, h⟩ := Option.bind_eq_some_iff.mp h
    cases h
    rfl
  · cases h
    rfl

theorem written_sendInLoop {buf buf' : Buffer} {w : WriteResult}
    (h : c.sendInLoop buf w = some (buf', c')) : c.written <+: c'.written := by
  obtain ⟨⟨remaining, buf₁, c₁⟩, hdirect, h⟩ := Option.bind_eq_some_iff.mp h
  obtain ⟨c₂, hqueue, h⟩ := Option.bind_eq_some_iff.mp h
  cases h
  rw [written_enableWriting, written_queueRest hqueue]
  exact written_directWrite hdirect

theorem written_handleWrite {w : WriteResult} (h : c.handleWrite w = some c') :
    c.written <+: c'.written := by
  obtain ⟨⟨len, c₁⟩, hwrite, h⟩ := Option.bind_eq_some_iff.mp h
  obtain ⟨data, -, hwrite⟩ := Option.bind_eq_some_iff.mp hwrite
  cases hwrite
  dsimp only at h
  split at h
  · cases h
    rw [stopIfEmpty]
    split
    · exact List.prefix_append _ _
    · exact List.prefix_append _ _
  · cases h
    exact List.prefix_append _ _

end TCPConnection

namespace Receiver

theorem returned_step {β : Type} {readCb : StateT Traced Option β} {s s' : Receiver β}
    {r : ReadResult} (h : s.step readCb r = some s') : s.returned <+: s'.returned := by
  rw [step] at h
  split at h
  · cases h
  · obtain ⟨⟨len, b⟩, -, h⟩ := Option.bind_eq_some_iff.mp h
    dsimp only at h
    split at h
    · obtain ⟨⟨result, traced⟩, -, h⟩ := Option.bind_eq_some_iff.mp h
      cases h
      exact List.prefix_append _ _
    · split at h
      · cases h
        exact List.prefix_refl _
      · cases h
        exact List.prefix_refl _

end Receiver

namespace Link

variable {β : Type} {cb : ReadCallback β} {l l' : Link β}

/-! ## Every event keeps the order -/

theorem init_sound : (init : Link β).Sound cb where
  tx := TCPConnection.opened_open _ (by decide)
  stream := by
    have hstart : (TCPConnection.opened Buffer.INITIAL_SIZE).stream = [] :=
      TCPConnection.unread_opened _
    exact hstart
  received := List.nil_prefix
  filled _ h := absurd h List.not_mem_nil
  rx := rfl
  reads := trivial
  fits := trivial

theorem Sound.send (h : l.Sound cb) {buf : Buffer} (hbuf : buf.Ordered) {w : WriteResult}
    (hfit : l.Fits (.send buf w)) (hs : l.step cb.onBuffer (.send buf w) = some l') :
    l'.Sound cb := by
  obtain ⟨⟨buf', tx⟩, hsend, hs⟩ := Option.bind_eq_some_iff.mp hs
  cases hs
  obtain ⟨buf₁, tx₁, hsend₁, hopen, hstream⟩ := TCPConnection.sendInLoop_spec h.tx hbuf w hfit
  rw [hsend] at hsend₁
  cases hsend₁
  exact {
    tx := hopen
    stream := by
      rw [hstream, h.stream]
    received := h.received.trans (TCPConnection.written_sendInLoop hsend)
    filled := h.filled
    rx := h.rx
    reads := h.reads
    fits := h.fits }

theorem Sound.writable (h : l.Sound cb) {w : WriteResult}
    (hs : l.step cb.onBuffer (.writable w) = some l') : l'.Sound cb := by
  obtain ⟨tx, hwrite, hs⟩ := Option.bind_eq_some_iff.mp hs
  cases hs
  obtain ⟨tx₁, hwrite₁, hopen, hstream⟩ := TCPConnection.handleWrite_spec h.tx w
  rw [hwrite] at hwrite₁
  cases hwrite₁
  exact {
    tx := hopen
    stream := hstream.trans h.stream
    received := h.received.trans (TCPConnection.written_handleWrite hwrite)
    filled := h.filled
    rx := h.rx
    reads := h.reads
    fits := h.fits }

theorem Sound.received_append_wire (h : l.Sound cb) : l.received ++ l.wire = l.tx.written :=
  List.prefix_iff_eq_append.mp h.received

theorem Sound.readable (h : l.Sound cb) {count : ℕ} (hfit : l.Fits (.readable count))
    (hs : l.step cb.onBuffer (.readable count) = some l') : l'.Sound cb := by
  rw [step] at hs
  split at hs
  · next hcount =>
    obtain ⟨rx, hrx, hs⟩ := Option.bind_eq_some_iff.mp hs
    cases hs
    refine ⟨h.tx, h.stream, ?_, ?_, ?_, ?_, ?_⟩
    · rw [Link.received, List.flatten_append, List.flatten_singleton]
      change l.received ++ l.wire.take count <+: l.tx.written
      rw [← h.received_append_wire, List.prefix_append_right_inj]
      exact List.take_prefix _ _
    · intro chunk hchunk
      rcases List.mem_append.mp hchunk with hold | hnew
      · exact h.filled chunk hold
      · rw [List.mem_singleton.mp hnew, ← List.length_pos_iff, List.length_take]
        omega
    · rw [List.map_append, run_append, h.rx, Option.bind_some, List.map_singleton, run_cons, hrx]
      rfl
    · rw [List.map_append]
      exact h.reads.concat h.rx hfit.1
    · rw [List.map_append]
      exact h.fits.concat h.rx hfit.2
  · cases hs

theorem Sound.step (h : l.Sound cb) (a : Action) (ha : a.Proper) (hfit : l.Fits a)
    (hs : l.step cb.onBuffer a = some l') : l'.Sound cb := by
  cases a with
  | send buf w => exact h.send ha hfit hs
  | writable w => exact h.writable hs
  | readable count => exact h.readable hfit hs

theorem sent_step {a : Action} (hs : l.step cb.onBuffer a = some l') :
    l'.sent = l.sent ++ a.sent := by
  cases a with
  | send buf w =>
      obtain ⟨tx, -, hs⟩ := Option.bind_eq_some_iff.mp hs
      cases hs
      rfl
  | writable w =>
      obtain ⟨tx, -, hs⟩ := Option.bind_eq_some_iff.mp hs
      cases hs
      exact (List.append_nil _).symm
  | readable count =>
      rw [Link.step] at hs
      split at hs
      · obtain ⟨rx, -, hs⟩ := Option.bind_eq_some_iff.mp hs
        cases hs
        exact (List.append_nil _).symm
      · cases hs

theorem returned_step {a : Action} (hs : l.step cb.onBuffer a = some l') :
    l.rx.returned <+: l'.rx.returned := by
  cases a with
  | send buf w =>
      obtain ⟨tx, -, hs⟩ := Option.bind_eq_some_iff.mp hs
      cases hs
      exact List.prefix_refl _
  | writable w =>
      obtain ⟨tx, -, hs⟩ := Option.bind_eq_some_iff.mp hs
      cases hs
      exact List.prefix_refl _
  | readable count =>
      rw [Link.step] at hs
      split at hs
      · obtain ⟨rx, hrx, hs⟩ := Option.bind_eq_some_iff.mp hs
        cases hs
        exact Receiver.returned_step hrx
      · cases hs

theorem received_step {a : Action} (hs : l.step cb.onBuffer a = some l') :
    l.received <+: l'.received := by
  cases a with
  | send buf w =>
      obtain ⟨tx, -, hs⟩ := Option.bind_eq_some_iff.mp hs
      cases hs
      exact List.prefix_refl _
  | writable w =>
      obtain ⟨tx, -, hs⟩ := Option.bind_eq_some_iff.mp hs
      cases hs
      exact List.prefix_refl _
  | readable count =>
      rw [Link.step] at hs
      split at hs
      · obtain ⟨rx, -, hs⟩ := Option.bind_eq_some_iff.mp hs
        cases hs
        rw [Link.received, Link.received, List.flatten_append]
        exact List.prefix_append _ _
      · cases hs

theorem Sound.sent_eq (h : l.Sound cb) : l.sent = l.received ++ l.wire ++ l.backlog := by
  rw [h.received_append_wire]
  exact h.stream.symm

theorem Sound.received_prefix (h : l.Sound cb) : l.received <+: l.sent := by
  rw [h.sent_eq, List.append_assoc]
  exact List.prefix_append _ _

end Link
end TinyGameServer
