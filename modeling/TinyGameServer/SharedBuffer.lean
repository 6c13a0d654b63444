import Mathlib.Data.List.Forall2
import TinyGameServer.OutgoingStream

/-!
# One buffer sent to many connections

`Send` queues the shared pointer, so the functors of all connections use one buffer. The direct
attempt of `SendInLoop` takes what it has written out of it, while the queue behind copies and
leaves it alone. Every connection gets the whole content if and only if no functor but the last
one takes anything.
-/

namespace TinyGameServer.TCPConnection

/-- The functors of `Send` on the given connections, with the results of their `write` calls, in
the order in which they run. -/
def sendToAll (buf : Buffer) :
    List (TCPConnection × WriteResult) → Option (Buffer × List TCPConnection)
  | [] => some (buf, [])
  | (c, w) :: rest => do
    let (buf, c) ← c.sendInLoop buf w
    let (buf, cs) ← sendToAll buf rest
    return (buf, c :: cs)

/-- There is room for that many more bytes, and the sum of the lengths does not wrap. -/
structure Room (n : ℕ) (c : TCPConnection) : Prop where
  ordered : c.sendBuffer.Ordered
  fits : c.sendBuffer.getLength.toNat + n ≤ c.sendBuffer.capacity.toNat
  noWrap : c.sendBuffer.capacity.toNat + c.sendBuffer.getLength.toNat < 2 ^ 32

/-- Each connection after the functors has the content behind its former stream. -/
def Delivered (data : List UInt8) (sends : List (TCPConnection × WriteResult))
    (cs : List TCPConnection) : Prop :=
  List.Forall₂ (fun send c => c.stream = send.1.stream ++ data) sends cs

/-- All functors but the last one leave everything in the buffer, and none leaves more than an
`int` can count. -/
def OnlyLastTakes (data : List UInt8) (sends : List (TCPConnection × WriteResult)) : Prop :=
  (∀ send ∈ sends.dropLast, send.1.remainder data send.2 = data) ∧
    ∀ send ∈ sends, (send.1.remainder data send.2).length < 2 ^ 31

variable {c : TCPConnection}

theorem length_remainder_le (c : TCPConnection) (data : List UInt8) (w : WriteResult) :
    (c.remainder data w).length ≤ data.length := by
  rw [remainder]
  split
  · rw [List.length_drop]
    exact Nat.sub_le ..
  · exact le_rfl

/-- What is left is queued if `remaining` is positive as an `int`. -/
theorem queueRest_room {buf : Buffer} (hbuf : buf.Ordered) {remaining : Int32}
    (hremaining : remaining.toUInt32.toNat = buf.unread.length)
    (h : c.Room buf.unread.length) :
    ∃ b, c.queueRest buf remaining = some { c with sendBuffer := b } ∧
      (buf.unread.length < 2 ^ 31 → b.unread = c.sendBuffer.unread ++ buf.unread) ∧
      (2 ^ 31 ≤ buf.unread.length → b.unread = c.sendBuffer.unread) := by
  have hpos := int32_pos_iff_lt remaining
  rw [hremaining] at hpos
  by_cases hrest : 0 < remaining
  · obtain ⟨b, happend, -, hunread, -⟩ := Buffer.append_within h.ordered buf.unread h.noWrap h.fits
    rw [queueRest, if_pos hrest, Buffer.appendBuffer_eq_append buf hbuf, happend]
    refine ⟨b, rfl, fun _ => hunread, fun hlong => ?_⟩
    exact absurd (hpos.mp hrest).2 (Nat.not_lt_of_le hlong)
  · rw [queueRest, if_neg hrest]
    refine ⟨c.sendBuffer, rfl, fun hshort => ?_, fun _ => rfl⟩
    have hnil : buf.unread = [] := by
      apply List.eq_nil_of_length_eq_zero
      rw [hpos] at hrest
      omega
    rw [hnil, List.append_nil]

theorem sendInLoop_room {buf : Buffer} (hbuf : buf.Ordered) (w : WriteResult)
    (h : c.Room buf.unread.length) :
    ∃ buf' c', c.sendInLoop buf w = some (buf', c') ∧ buf'.Ordered ∧
      buf'.unread = c.remainder buf.unread w ∧
      (buf'.unread.length < 2 ^ 31 → c'.stream = c.stream ++ buf.unread) ∧
      (2 ^ 31 ≤ buf'.unread.length → c'.stream ++ buf'.unread = c.stream ++ buf.unread) := by
  obtain ⟨remaining, buf', written, hdirect, hbuf', hunread, hremaining, hstream⟩ :=
    directWrite_spec c hbuf w
  have hle := length_remainder_le c buf.unread w
  rw [← hunread] at hle
  have hroom : ({ c with written } : TCPConnection).Room buf'.unread.length :=
    ⟨h.ordered, Nat.le_trans (Nat.add_le_add_left hle _) h.fits, h.noWrap⟩
  obtain ⟨b, hqueue, hshort, hlong⟩ := queueRest_room hbuf' hremaining hroom
  refine ⟨buf', ({ c with written, sendBuffer := b } : TCPConnection).enableWriting, ?_, hbuf',
    hunread, fun hlt => ?_, fun hge => ?_⟩
  · rw [sendInLoop_of_directWrite hdirect, hqueue]
    rfl
  · rw [stream, sendBuffer_enableWriting, written_enableWriting, hshort hlt, ← List.append_assoc,
      hstream]
  · rw [stream, sendBuffer_enableWriting, written_enableWriting, hlong hge, hstream]

/-- One functor delivers the content if it finds it whole and does not lose what is left. -/
theorem sendInLoop_delivers {buf : Buffer} (hbuf : buf.Ordered) (w : WriteResult)
    (h : c.Room buf.unread.length) {data : List UInt8} (hdata : buf.unread.length ≤ data.length) :
    ∃ buf' c', c.sendInLoop buf w = some (buf', c') ∧ buf'.Ordered ∧
      buf'.unread = c.remainder buf.unread w ∧
      (c'.stream = c.stream ++ data ↔ buf.unread = data ∧ buf'.unread.length < 2 ^ 31) := by
  obtain ⟨buf', c', hsend, hbuf', hunread, hshort, hlong⟩ := sendInLoop_room hbuf w h
  refine ⟨buf', c', hsend, hbuf', hunread, ?_⟩
  constructor
  · intro hstream
    have hlt : buf'.unread.length < 2 ^ 31 := by
      by_contra hge
      have hlength := congrArg List.length (hlong (Nat.le_of_not_lt hge))
      rw [hstream] at hlength
      simp only [List.length_append] at hlength
      omega
    rw [hshort hlt] at hstream
    exact ⟨List.append_cancel_left hstream, hlt⟩
  · rintro ⟨rfl, hlt⟩
    exact hshort hlt

theorem Room.mono {n m : ℕ} (h : c.Room n) (hle : m ≤ n) : c.Room m :=
  ⟨h.ordered, Nat.le_trans (Nat.add_le_add_left hle _) h.fits, h.noWrap⟩

theorem onlyLastTakes_nil (data : List UInt8) : OnlyLastTakes data [] := by
  constructor <;> rintro send ⟨⟩

theorem onlyLastTakes_cons (data : List UInt8) (send : TCPConnection × WriteResult)
    (sends : List (TCPConnection × WriteResult)) :
    OnlyLastTakes data (send :: sends) ↔
      (send.1.remainder data send.2).length < 2 ^ 31 ∧
        (sends = [] ∨ send.1.remainder data send.2 = data ∧ OnlyLastTakes data sends) := by
  cases sends with
  | nil => simp [OnlyLastTakes]
  | cons next sends =>
      simp only [OnlyLastTakes, List.dropLast_cons_cons, List.forall_mem_cons, reduceCtorEq,
        false_or]
      tauto

/-- The induction is over the functors that are still to run, and `data` is the content that the
buffer once had. -/
theorem sendToAll_spec {buf : Buffer} (hbuf : buf.Ordered) {data : List UInt8}
    (hdata : buf.unread.length ≤ data.length) (sends : List (TCPConnection × WriteResult))
    (hroom : ∀ send ∈ sends, send.1.Room data.length) :
    ∃ buf' cs, sendToAll buf sends = some (buf', cs) ∧
      (Delivered data sends cs ↔ sends = [] ∨ buf.unread = data ∧ OnlyLastTakes data sends) := by
  induction sends generalizing buf with
  | nil => exact ⟨buf, [], rfl, iff_of_true .nil (.inl rfl)⟩
  | cons send sends ih =>
      obtain ⟨hfirst, hrest⟩ := List.forall_mem_cons.mp hroom
      obtain ⟨buf', c', hsend, hbuf', hunread, hhead⟩ :=
        sendInLoop_delivers hbuf send.2 (hfirst.mono hdata) hdata
      have hle := length_remainder_le send.1 buf.unread send.2
      rw [← hunread] at hle
      obtain ⟨buf'', cs, hall, htail⟩ := ih hbuf' (hle.trans hdata) hrest
      refine ⟨buf'', c' :: cs, ?_, ?_⟩
      · rw [sendToAll, hsend]
        dsimp only [Option.bind_eq_bind, Option.bind_some]
        rw [hall]
        rfl
      · rw [Delivered, List.forall₂_cons, ← Delivered, hhead, htail, onlyLastTakes_cons, hunread]
        constructor
        · rintro ⟨⟨rfl, hlt⟩, hothers⟩
          exact .inr ⟨rfl, hlt, hothers⟩
        · rintro (hnil | ⟨rfl, hlt, hothers⟩)
          · cases hnil
          · exact ⟨⟨rfl, hlt⟩, hothers⟩

/-- For every content, all connections with room for it and every order of the functors: all of
them run, and every stream is extended by the whole content if and only if no functor but the last
one takes anything out of the buffer. -/
theorem sent_whole_iff {buf : Buffer} (hbuf : buf.Ordered)
    (sends : List (TCPConnection × WriteResult))
    (hroom : ∀ send ∈ sends, send.1.Room buf.unread.length) :
    ∃ buf' cs, sendToAll buf sends = some (buf', cs) ∧
      (Delivered buf.unread sends cs ↔ OnlyLastTakes buf.unread sends) := by
  obtain ⟨buf', cs, hall, hiff⟩ := sendToAll_spec hbuf le_rfl sends hroom
  refine ⟨buf', cs, hall, hiff.trans ?_⟩
  constructor
  · rintro (rfl | ⟨-, honly⟩)
    · exact onlyLastTakes_nil buf.unread
    · exact honly
  · exact fun honly => .inr ⟨rfl, honly⟩

instance (data : List UInt8) (sends : List (TCPConnection × WriteResult)) :
    Decidable (OnlyLastTakes data sends) :=
  inferInstanceAs (Decidable (_ ∧ _))

theorem room_opened : (opened Buffer.INITIAL_SIZE).Room 3 :=
  ⟨⟨by decide, by decide⟩, by decide, by decide⟩

def waitingThenIdle : List (TCPConnection × WriteResult) :=
  [((opened Buffer.INITIAL_SIZE).enableWriting, .accepted 3),
    (opened Buffer.INITIAL_SIZE, .accepted 2)]

theorem waiting_then_idle_whole :
    ∃ buf cs, sendToAll threeBytes.buffer waitingThenIdle = some (buf, cs) ∧
      Delivered threeBytes.buffer.unread waitingThenIdle cs := by
  have hroom : ∀ send ∈ waitingThenIdle, send.1.Room threeBytes.buffer.unread.length := by
    intro send hsend
    rcases List.mem_pair.mp hsend with rfl | rfl
    · exact ⟨room_opened.ordered, room_opened.fits, room_opened.noWrap⟩
    · exact room_opened
  obtain ⟨buf, cs, hall, hiff⟩ := sent_whole_iff threeBytes.ordered waitingThenIdle hroom
  exact ⟨buf, cs, hall, hiff.mpr (by decide)⟩

def bothIdle : List (TCPConnection × WriteResult) :=
  [(opened Buffer.INITIAL_SIZE, .accepted 3), (opened Buffer.INITIAL_SIZE, .accepted 3)]

/-- The first of two idle connections takes everything, and the second one gets nothing. -/
theorem both_idle_not_whole :
    (∀ send ∈ bothIdle, send.1.Room threeBytes.buffer.unread.length) ∧
      ∃ buf cs, sendToAll threeBytes.buffer bothIdle = some (buf, cs) ∧
        ¬ Delivered threeBytes.buffer.unread bothIdle cs := by
  refine ⟨fun send hsend => ?_, _, _, rfl, fun h => ?_⟩
  · rcases List.mem_pair.mp hsend with rfl | rfl <;> exact room_opened
  · rw [Delivered, bothIdle, List.forall₂_cons, List.forall₂_cons] at h
    exact absurd h.2.1 (by decide)

end TinyGameServer.TCPConnection
