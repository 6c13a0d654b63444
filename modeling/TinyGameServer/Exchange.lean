import TinyGameServer.FrameService
import TinyGameServer.Link

/-!
# Requests and replies over one connection

A peer sends frames to a server, whose callback answers them through `Send`. The functors of `Send`
are executed in order, between any other events of both directions. Everything that the peer has
sent is then at exactly one place of the way to the server and back: what it gets are the replies to
the first frames, in order.
-/

namespace TinyGameServer

structure Exchange (β γ : Type) where
  up : Link β
  down : Link γ
  /-- How many of the buffers that the callback gave to `Send` have been through `SendInLoop`. -/
  executed : ℕ

/-- A read callback and the buffers that it gives to `Send`. -/
structure Server (β : Type) where
  readCb : ReadCallback β
  sends : β → List (Option Buffer)

namespace Exchange

variable {β γ : Type}

def init : Exchange β γ := ⟨.init, .init, 0⟩

inductive Action where
  | request (buf : OwnBuffer) (w : WriteResult)
  | requestWritable (w : WriteResult)
  | requestReadable (count : ℕ)
  | reply (w : WriteResult)
  | replyWritable (w : WriteResult)
  | replyReadable (count : ℕ)

variable (server : Server β) (peer : ReadCallback γ)

def issued (s : Exchange β γ) : List (Option Buffer) := s.up.rx.returned.flatMap server.sends

/-- The functors of `Send` that wait in the event loop. -/
def pending (s : Exchange β γ) : List (Option Buffer) := (s.issued server).drop s.executed

def stepUp (s : Exchange β γ) (a : Link.Action) : Option (Exchange β γ) := do
  let up ← s.up.step server.readCb.onBuffer a
  return { s with up }

def stepDown (s : Exchange β γ) (a : Link.Action) : Option (Exchange β γ) := do
  let down ← s.down.step peer.onBuffer a
  return { s with down }

def step (s : Exchange β γ) : Action → Option (Exchange β γ)
  | .request buf w => s.stepUp server (.send buf.buffer w)
  | .requestWritable w => s.stepUp server (.writable w)
  | .requestReadable count => s.stepUp server (.readable count)
  | .reply w =>
    match s.pending server with
    | some buf :: _ => { s with executed := s.executed + 1 }.stepDown peer (.send buf w)
    | _ => none
  | .replyWritable w => s.stepDown peer (.writable w)
  | .replyReadable count => s.stepDown peer (.readable count)

/-- There is room at the side that acts. -/
def Fits (s : Exchange β γ) : Action → Prop
  | .request buf w => s.up.Fits (.send buf.buffer w)
  | .requestWritable w => s.up.Fits (.writable w)
  | .requestReadable count => s.up.Fits (.readable count)
  | .reply w =>
    match s.pending server with
    | some buf :: _ => s.down.Fits (.send buf w)
    | _ => True
  | .replyWritable w => s.down.Fits (.writable w)
  | .replyReadable count => s.down.Fits (.readable count)

/-- A read event finds bytes, and a functor waits. -/
def Possible (s : Exchange β γ) : Action → Prop
  | .requestReadable count => 0 < count ∧ count ≤ s.up.wire.length
  | .reply _ => s.pending server ≠ []
  | .replyReadable count => 0 < count ∧ count ≤ s.down.wire.length
  | _ => True

instance (s : Exchange β γ) (a : Action) : Decidable (s.Fits server a) :=
  match a with
  | .request buf w => inferInstanceAs (Decidable (s.up.Fits (.send buf.buffer w)))
  | .requestWritable w => inferInstanceAs (Decidable (s.up.Fits (.writable w)))
  | .requestReadable count => inferInstanceAs (Decidable (s.up.Fits (.readable count)))
  | .reply w =>
    match h : s.pending server with
    | some buf :: _ => decidable_of_iff (s.down.Fits (.send buf w)) (by rw [Fits, h])
    | none :: _ => isTrue (by rw [Fits, h]; trivial)
    | [] => isTrue (by rw [Fits, h]; trivial)
  | .replyWritable w => inferInstanceAs (Decidable (s.down.Fits (.writable w)))
  | .replyReadable count => inferInstanceAs (Decidable (s.down.Fits (.readable count)))

end Exchange

/-- The callback takes up to `rate` frames at a time and sends the replies to them. -/
structure Replies {β φ : Type} (rate : ℕ) (server : Server β) (bytes reply : φ → List UInt8)
    (answer : List φ → β) : Prop where
  serves : ServesUpTo rate server.readCb.onQueue bytes answer
  sends : ∀ batch : List φ, batch.length ≤ rate → ∃ bufs : List Buffer,
    server.sends (answer batch) = bufs.map some ∧ (∀ buf ∈ bufs, buf.Ordered) ∧
      bufs.flatMap Buffer.unread = batch.flatMap reply

section Replies

variable {β φ : Type} {rate : ℕ} {server : Server β} {bytes reply : φ → List UInt8}
  {answer : List φ → β}

theorem Replies.batches (h : Replies rate server bytes reply answer) (batches : List (List φ))
    (hrate : ∀ batch ∈ batches, batch.length ≤ rate) : ∃ bufs : List Buffer,
      (batches.map answer).flatMap server.sends = bufs.map some ∧ (∀ buf ∈ bufs, buf.Ordered) ∧
        bufs.flatMap Buffer.unread = batches.flatten.flatMap reply := by
  induction batches with
  | nil => exact ⟨[], rfl, fun _ h => absurd h List.not_mem_nil, rfl⟩
  | cons batch batches ih =>
      obtain ⟨hfirst, hrest⟩ := List.forall_mem_cons.mp hrate
      obtain ⟨bufs, hbufs, hord, hunread⟩ := h.sends batch hfirst
      obtain ⟨bufs', hbufs', hord', hunread'⟩ := ih hrest
      refine ⟨bufs ++ bufs', ?_, ?_, ?_⟩
      · rw [List.map_cons, List.flatMap_cons, hbufs, hbufs', List.map_append]
      · exact List.forall_mem_append.mpr ⟨hord, hord'⟩
      · rw [List.flatMap_append, hunread, hunread', List.flatten_cons, List.flatMap_append]

theorem Link.Sound.served {l : Link β} (hl : l.Sound server.readCb)
    (h : Replies rate server bytes reply answer) (frames : List φ)
    (hsent : l.sent <+: frames.flatMap bytes) {n : ℕ}
    (hn : n = BoundedService.served rate (arrivals (frames.map fun f => (bytes f).length) l.chunks)
      l.chunks.length) :
    l.rx.Sound ∧ l.received = (frames.take n).flatMap bytes ++ l.rx.traced.unread ∧
      ∃ bufs : List Buffer, l.rx.returned.flatMap server.sends = bufs.map some ∧
        (∀ buf ∈ bufs, buf.Ordered) ∧
          bufs.flatMap Buffer.unread = (frames.take n).flatMap reply := by
  obtain ⟨s, batches, hrun, hsound, -, hsplit, hreturned, hbatches, hrate⟩ :=
    Receiver.run_serves h.serves frames l.chunks hl.filled (hl.received_prefix.trans hsent)
      hl.reads hl.fits hn
  rw [hl.rx] at hrun
  cases hrun
  rw [hreturned, ← hbatches]
  rw [← hbatches] at hsplit
  exact ⟨hsound, hsplit, h.batches batches hrate⟩

end Replies

namespace Exchange

variable {β γ φ : Type} {server : Server β} {peer : ReadCallback γ} {s s' : Exchange β γ}
  {rate : ℕ} {bytes reply : φ → List UInt8} {answer : List φ → β} {frames : List φ}

structure Sound (server : Server β) (peer : ReadCallback γ) (s : Exchange β γ) : Prop where
  up : s.up.Sound server.readCb
  down : s.down.Sound peer
  executed : s.executed ≤ (s.issued server).length
  /-- What has been executed is what was sent. -/
  sent : ∃ bufs : List Buffer, (s.issued server).take s.executed = bufs.map some ∧
    bufs.flatMap Buffer.unread = s.down.sent

theorem init_sound : (init : Exchange β γ).Sound server peer where
  up := Link.init_sound
  down := Link.init_sound
  executed := Nat.zero_le _
  sent := ⟨[], rfl, rfl⟩

theorem Sound.stepUp (h : s.Sound server peer) (a : Link.Action) (ha : a.Proper)
    (hfit : s.up.Fits a) (hs : s.stepUp server a = some s') : s'.Sound server peer := by
  obtain ⟨up, hup, hs⟩ := Option.bind_eq_some_iff.mp hs
  cases hs
  obtain ⟨results, hresults⟩ := Link.returned_step hup
  have hissued : ({ s with up } : Exchange β γ).issued server =
      s.issued server ++ results.flatMap server.sends := by
    rw [issued, ← hresults, List.flatMap_append]
    rfl
  refine ⟨h.up.step a ha hfit hup, h.down, ?_, ?_⟩
  · rw [hissued, List.length_append]
    exact h.executed.trans (Nat.le_add_right _ _)
  · rw [hissued, List.take_append_of_le_length h.executed]
    exact h.sent

theorem Sound.stepDown (h : s.Sound server peer) (a : Link.Action) (ha : a.Proper)
    (hquiet : a.sent = []) (hfit : s.down.Fits a) (hs : s.stepDown peer a = some s') :
    s'.Sound server peer := by
  obtain ⟨down, hdown, hs⟩ := Option.bind_eq_some_iff.mp hs
  cases hs
  have hsent := Link.sent_step hdown
  rw [hquiet, List.append_nil] at hsent
  refine ⟨h.up, h.down.step a ha hfit hdown, h.executed, ?_⟩
  rw [hsent]
  exact h.sent

theorem Sound.ordered_of_pending (h : s.Sound server peer)
    (hreplies : Replies rate server bytes reply answer) (hsent : s.up.sent <+: frames.flatMap bytes)
    {buf : Buffer} {rest : List (Option Buffer)} (hpending : s.pending server = some buf :: rest) :
    buf.Ordered := by
  obtain ⟨-, -, bufs, hissued, hord, -⟩ := h.up.served hreplies frames hsent rfl
  have hmem : some buf ∈ s.issued server := by
    apply List.mem_of_mem_drop
    rw [← pending, hpending]
    exact List.mem_cons_self
  rw [issued, hissued] at hmem
  obtain ⟨buf', hbuf', heq⟩ := List.mem_map.mp hmem
  cases heq
  exact hord _ hbuf'

theorem Sound.stepReply (h : s.Sound server peer) (hreplies : Replies rate server bytes reply answer)
    (hsent : s.up.sent <+: frames.flatMap bytes) {w : WriteResult}
    (hfit : s.Fits server (.reply w)) (hs : s.step server peer (.reply w) = some s') :
    s'.Sound server peer := by
  rw [step] at hs
  split at hs
  · next buf rest hpending =>
    obtain ⟨down, hdown, hs⟩ := Option.bind_eq_some_iff.mp hs
    cases hs
    rw [Fits, hpending] at hfit
    have hbuf := h.ordered_of_pending hreplies hsent hpending
    have hlt : s.executed < (s.issued server).length := by
      have hlen := congrArg List.length hpending
      rw [pending, List.length_drop, List.length_cons] at hlen
      omega
    have hnext : (s.issued server)[s.executed] = some buf := by
      have hhead := List.drop_eq_getElem_cons hlt
      rw [← pending, hpending] at hhead
      exact (List.cons.inj hhead).1.symm
    obtain ⟨done, hdone, hbytes⟩ := h.sent
    refine ⟨h.up, h.down.step (.send buf w) hbuf hfit hdown, hlt, done ++ [buf], ?_, ?_⟩
    · change (s.issued server).take (s.executed + 1) = _
      rw [List.take_succ_eq_append_getElem hlt, hdone, hnext, List.map_append]
      rfl
    · rw [Link.sent_step hdown, List.flatMap_append, hbytes, List.flatMap_singleton]
      rfl
  · cases hs

theorem requested_step {a : Action} (hs : s.step server peer a = some s') :
    s.up.sent <+: s'.up.sent := by
  have hup : ∀ b : Link.Action, s.stepUp server b = some s' → s.up.sent <+: s'.up.sent := by
    intro b hs
    obtain ⟨up, hup, hs⟩ := Option.bind_eq_some_iff.mp hs
    cases hs
    rw [Link.sent_step hup]
    exact List.prefix_append _ _
  have hdown : ∀ (t : Exchange β γ) (b : Link.Action), t.up = s.up →
      t.stepDown peer b = some s' → s.up.sent <+: s'.up.sent := by
    intro t b ht hs
    obtain ⟨down, -, hs⟩ := Option.bind_eq_some_iff.mp hs
    cases hs
    exact ht ▸ List.prefix_refl _
  cases a with
  | request buf w => exact hup _ hs
  | requestWritable w => exact hup _ hs
  | requestReadable count => exact hup _ hs
  | reply w =>
      rw [step] at hs
      split at hs
      · exact hdown { s with executed := s.executed + 1 } _ rfl hs
      · cases hs
  | replyWritable w => exact hdown _ _ rfl hs
  | replyReadable count => exact hdown _ _ rfl hs

theorem Sound.step (h : s.Sound server peer) (hreplies : Replies rate server bytes reply answer)
    (hsent : s.up.sent <+: frames.flatMap bytes) {a : Action} (hfit : s.Fits server a)
    (hs : s.step server peer a = some s') : s'.Sound server peer := by
  cases a with
  | request buf w => exact h.stepUp (.send buf.buffer w) buf.ordered hfit hs
  | requestWritable w => exact h.stepUp (.writable w) trivial hfit hs
  | requestReadable count => exact h.stepUp (.readable count) trivial hfit hs
  | reply w => exact h.stepReply hreplies hsent hfit hs
  | replyWritable w => exact h.stepDown (.writable w) trivial rfl hfit hs
  | replyReadable count => exact h.stepDown (.readable count) trivial rfl hfit hs

theorem run_sound (hreplies : Replies rate server bytes reply answer) {actions : List Action}
    (hrun : run (step server peer) init actions = some s)
    (hfits : Along (step server peer) (Fits server) init actions)
    (hsent : s.up.sent <+: frames.flatMap bytes) : s.Sound server peer := by
  -- what has been sent so far is a part of it
  have hinv := @run_invariant_of_along _ _ (Exchange.step server peer)
    (fun s => s.up.sent <+: frames.flatMap bytes → s.Sound server peer) (Fits server)
    (fun s a s' hs hfit hstep hsent' => by
      have hbefore := (requested_step hstep).trans hsent'
      exact (hs hbefore).step hreplies hbefore hfit hstep)
    init s actions (fun _ => init_sound) hfits hrun
  exact hinv hsent

/-- The server has made replies to the first `n` frames. What they are made of is at the peer, in
the kernel, in the send buffer or in the event loop, and the rest of the frames is on its way to the
server. -/
theorem Sound.served (h : s.Sound server peer) (hreplies : Replies rate server bytes reply answer)
    (hsent : s.up.sent <+: frames.flatMap bytes) {n : ℕ}
    (hn : n = BoundedService.served rate
      (arrivals (frames.map fun f => (bytes f).length) s.up.chunks) s.up.chunks.length) :
    s.up.sent = (frames.take n).flatMap bytes ++
        (s.up.rx.traced.unread ++ s.up.wire ++ s.up.backlog) ∧
      ∃ waiting : List Buffer, s.pending server = waiting.map some ∧
        (frames.take n).flatMap reply =
          s.down.received ++ s.down.wire ++ s.down.backlog ++ waiting.flatMap Buffer.unread := by
  obtain ⟨-, hreceived, bufs, hissued, -, hbytes⟩ := h.up.served hreplies frames hsent hn
  obtain ⟨done, hdone, hdown⟩ := h.sent
  refine ⟨?_, bufs.drop s.executed, ?_, ?_⟩
  · rw [h.up.sent_eq, hreceived]
    simp only [List.append_assoc]
  · rw [pending, issued, hissued, List.map_drop]
  · have htaken : bufs.take s.executed = done := by
      rw [issued, hissued, ← List.map_take] at hdone
      exact List.map_injective_iff.mpr (Option.some_injective Buffer) hdone
    rw [← hbytes, ← h.down.sent_eq, ← hdown, ← htaken, ← List.flatMap_append,
      List.take_append_drop]

end Exchange

/-! ## The echo server -/

namespace EchoServer

def server (host : ByteOrder) : Server (Option Buffer) where
  readCb := readCallback host
  sends buf := [buf]

theorem server_replies (host : ByteOrder) : Replies 100 (server host) (fun b : UInt8 => [b])
    (fun b : UInt8 => [b]) fun str => (Buffer.new Buffer.INITIAL_SIZE).appendString str where
  serves := servesUpTo host
  sends str hlen := by
    obtain ⟨buf, hbuf, hord, hunread⟩ := DataServer.foldlM_new [str] (by simp; omega)
    refine ⟨[buf], ?_, fun b hb => List.mem_singleton.mp hb ▸ hord, ?_⟩
    · change [(Buffer.new Buffer.INITIAL_SIZE).appendString str] = _
      rw [Buffer.appendString_eq_append str (by omega)]
      simpa using hbuf
    · simp [hunread]

theorem prefix_bytes (stream : List UInt8) : stream <+: stream.flatMap fun b => [b] := by
  simpa only [List.flatMap_singleton'] using List.prefix_refl stream

theorem sent_eq {host : ByteOrder} {γ : Type} {peer : ReadCallback γ}
    {s : Exchange (Option Buffer) γ} (h : s.Sound (server host) peer) :
    ∃ (waiting : List Buffer) (echoed : List UInt8), s.pending (server host) = waiting.map some ∧
      echoed = s.down.received ++ s.down.wire ++ s.down.backlog ++
        waiting.flatMap Buffer.unread ∧
      s.up.sent = echoed ++ (s.up.rx.traced.unread ++ s.up.wire ++ s.up.backlog) ∧
      ∀ m, m ≤ echoed.length ↔ ∀ j ≤ s.up.chunks.length,
        m ≤ (s.up.chunks.take j).flatten.length + 100 * (s.up.chunks.length - j) := by
  have hsent := prefix_bytes s.up.sent
  obtain ⟨hup, waiting, hwaiting, hdown⟩ := h.served (server_replies host) hsent rfl
  rw [List.flatMap_singleton'] at hup hdown
  have hreceived := h.up.received_prefix.length_le
  refine ⟨waiting, _, hwaiting, hdown, hup, fun m => ?_⟩
  rw [List.length_take_of_le]
  · exact le_served_bytes_iff hreceived m
  · have hall := (le_served_bytes_iff hreceived _).mp le_rfl s.up.chunks.length le_rfl
    rw [List.take_length, Nat.sub_self, Nat.mul_zero, Nat.add_zero] at hall
    exact hall.trans hreceived

/-- In every run without an overflow: the bytes that the peer has got, that wait to be read by it,
that wait to be written, that wait to be sent, that have not been echoed, that wait to be read by
the server and that wait to be written to it are, in this order, what the peer has sent. How far
the echo has got is what a server of 100 bytes for each read event has served. -/
theorem echo_keeps_stream (host : ByteOrder) {γ : Type} (peer : ReadCallback γ)
    {actions : List Exchange.Action} {s : Exchange (Option Buffer) γ}
    (hrun : run (Exchange.step (server host) peer) .init actions = some s)
    (hfits : Along (Exchange.step (server host) peer) (Exchange.Fits (server host)) .init
      actions) :
    ∃ (waiting : List Buffer) (echoed : List UInt8), s.pending (server host) = waiting.map some ∧
      echoed = s.down.received ++ s.down.wire ++ s.down.backlog ++
        waiting.flatMap Buffer.unread ∧
      s.up.sent = echoed ++ (s.up.rx.traced.unread ++ s.up.wire ++ s.up.backlog) ∧
      ∀ m, m ≤ echoed.length ↔ ∀ j ≤ s.up.chunks.length,
        m ≤ (s.up.chunks.take j).flatten.length + 100 * (s.up.chunks.length - j) := by
  exact sent_eq (Exchange.run_sound (server_replies host) hrun hfits (prefix_bytes s.up.sent))

def someEchoes : List Exchange.Action :=
  [.request TCPConnection.threeBytes (.accepted 2), .requestReadable 1, .requestWritable (.accepted 1),
    .reply .error, .requestReadable 2, .replyWritable (.accepted 1), .replyReadable 1]

theorem some_echoes_keep_stream : ∃ s, run (Exchange.step (server .little) (readCallback .little))
      .init someEchoes = some s ∧
    ∃ (waiting : List Buffer) (echoed : List UInt8), s.pending (server .little) = waiting.map some ∧
      echoed = s.down.received ++ s.down.wire ++ s.down.backlog ++
        waiting.flatMap Buffer.unread ∧
      s.up.sent = echoed ++ (s.up.rx.traced.unread ++ s.up.wire ++ s.up.backlog) ∧
      ∀ m, m ≤ echoed.length ↔ ∀ j ≤ s.up.chunks.length,
        m ≤ (s.up.chunks.take j).flatten.length + 100 * (s.up.chunks.length - j) := by
  have hdefined : (run (Exchange.step (server .little) (readCallback .little)) .init
      someEchoes).isSome = true := by decide +kernel
  obtain ⟨s, hs⟩ := Option.isSome_iff_exists.mp hdefined
  exact ⟨s, hs, echo_keeps_stream .little (readCallback .little) hs (by decide +kernel)⟩

end EchoServer
end TinyGameServer
