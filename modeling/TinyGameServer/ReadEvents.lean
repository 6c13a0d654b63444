import TinyGameServer.DataServer
import TinyGameServer.GateServer
import TinyGameServer.ReadProgram
import TinyGameServer.TCPConnection
import TinyGameServer.Transitions

/-!
# The receiving side of a connection

`HandleRead` reads from the descriptor into `recv_buffer_` and runs the read callback. On the
class `Buffer` a read event can overflow the allocation, and a callback can read bytes that have
not arrived. An `Inbox` is the same side on an ideal byte queue. Between two read events the
connection is described by its inbox, exactly as long as neither of the two happens.
-/

namespace TinyGameServer

/-- A read callback, on the machine that it runs on. -/
structure ReadCallback (β : Type) where
  host : ByteOrder
  program : ReadProgram β

namespace ReadCallback

variable {β : Type} (cb : ReadCallback β)

def onBuffer : StateT Traced Option β := cb.program.runOn (TinyGameServer.onBuffer cb.host)

def onQueue : StateT (List UInt8) Option β := cb.program.runOn (TinyGameServer.onQueue cb.host)

theorem simulates : BufferSimulates cb.onBuffer cb.onQueue :=
  cb.program.simulates (onBuffer_simulated cb.host)

theorem onlyReads : OnlyReads cb.onBuffer := cb.program.onlyReads cb.host

end ReadCallback

section Handlers

open ReadProgram (connBuf runOn_bind runOn_ite runOn_pure)

variable {m : Type → Type} [Monad m] [LawfulMonad m] (ops : ReceiveBuffer m) (host : ByteOrder)

def DataServer.readCallback (selectUser : SelectUser) :
    ReadCallback (BufferStatus × List (Option Buffer)) :=
  ⟨host, messageCb host connBuf selectUser⟩

def GateServer.dbReadCallback : ReadCallback (BufferStatus × Option (Int64 × Int64)) :=
  ⟨host, dbMessageCb connBuf⟩

def GateServer.readCallback (authorized : Bool) (serialId : Int64) :
    ReadCallback (Option BufferStatus × List (Option Buffer)) :=
  ⟨host, messageCb host connBuf authorized serialId⟩

/-- A handler as a program does what the handler does. -/
theorem DataServer.runOn_messageCb (selectUser : SelectUser) :
    (messageCb host connBuf selectUser).runOn ops = messageCb host ops selectUser := by
  simp only [messageCb, switchTag, connBuf, runOn_bind, runOn_ite, runOn_pure, ReadProgram.runOn,
    ReceiveBuffer.perform, bind_pure]

theorem GateServer.runOn_dbMessageCb : (dbMessageCb connBuf).runOn ops = dbMessageCb ops := by
  simp only [dbMessageCb, readLogin, connBuf, runOn_bind, runOn_ite, runOn_pure, ReadProgram.runOn,
    ReceiveBuffer.perform, bind_pure]

theorem GateServer.runOn_messageCb (authorized : Bool) (serialId : Int64) :
    (messageCb host connBuf authorized serialId).runOn ops =
      messageCb host ops authorized serialId := by
  simp only [messageCb, relayLogin, connBuf, runOn_bind, runOn_ite, runOn_pure, ReadProgram.runOn,
    ReceiveBuffer.perform, bind_pure]

theorem DataServer.readCallback_onQueue (selectUser : SelectUser) :
    (readCallback host selectUser).onQueue = messageCb host (onQueue host) selectUser :=
  runOn_messageCb (onQueue host) host selectUser

theorem GateServer.dbReadCallback_onQueue :
    (dbReadCallback host).onQueue = dbMessageCb (onQueue host) := runOn_dbMessageCb (onQueue host)

theorem GateServer.readCallback_onQueue (authorized : Bool) (serialId : Int64) :
    (readCallback host authorized serialId).onQueue =
      messageCb host (onQueue host) authorized serialId :=
  runOn_messageCb (onQueue host) host authorized serialId

end Handlers

structure Receiver (β : Type) where
  /-- `recv_buffer_`, with all reads of the callback so far. -/
  traced : Traced
  returned : List β
  closed : Bool

structure Inbox (β : Type) where
  unread : List UInt8
  returned : List β
  closed : Bool

namespace Inbox

variable {β : Type}

def init : Inbox β := ⟨[], [], false⟩

def receive (readCb : StateT (List UInt8) Option β) (s : Inbox β) :
    ReadResult → Option (Inbox β)
  | .error => some s
  | .data [] => some { s with closed := true }
  | .data (x :: bytes) => do
    let (result, unread) ← readCb (s.unread ++ x :: bytes)
    return { s with unread, returned := s.returned ++ [result] }

def step (readCb : StateT (List UInt8) Option β) (s : Inbox β) (r : ReadResult) :
    Option (Inbox β) :=
  if s.closed then none else s.receive readCb r

end Inbox

namespace Receiver

variable {β : Type}

def init : Receiver β := ⟨.start (.new Buffer.INITIAL_SIZE), [], false⟩

def buffer (s : Receiver β) : Buffer := s.traced.buffer

/-- `HandleRead` with what `readv` hands over. -/
def handleRead (readCb : StateT Traced Option β) (s : Receiver β) (r : ReadResult) :
    Option (Receiver β) := do
  let (len, b) ← s.buffer.readFd r
  let s := { s with traced.buffer := b }
  if 0 < len then
    let (result, traced) ← readCb s.traced
    return { s with traced, returned := s.returned ++ [result] }
  else if len = 0 then return { s with closed := true }
  else return s

/-- `HandleClose` removes the event. -/
def step (readCb : StateT Traced Option β) (s : Receiver β) (r : ReadResult) :
    Option (Receiver β) :=
  if s.closed then none else s.handleRead readCb r

def inbox (s : Receiver β) : Inbox β := ⟨s.traced.unread, s.returned, s.closed⟩

/-- What `readv` can return for the segments it is given. -/
def Readable (s : Receiver β) : ReadResult → Prop
  | .error => True
  | .data bytes => s.buffer.Readable bytes.length

def Fits (s : Receiver β) : ReadResult → Prop
  | .error => True
  | .data bytes => ¬ s.buffer.ReadOverflows bytes.length

instance (s : Receiver β) (r : ReadResult) : Decidable (s.Readable r) :=
  match r with
  | .error => isTrue trivial
  | .data _ => inferInstanceAs (Decidable (_ ∨ _))

instance (s : Receiver β) (r : ReadResult) : Decidable (s.Fits r) :=
  match r with
  | .error => isTrue trivial
  | .data _ => inferInstanceAs (Decidable ¬ (_ ∧ _))

structure Sound (s : Receiver β) : Prop where
  clean : s.traced.Clean
  capacity : s.buffer.capacity.toNat ≤ 3 * 65536

theorem init_sound : (init : Receiver β).Sound where
  clean := Traced.start_clean (Buffer.new_ordered _)
  capacity := by
    change Buffer.INITIAL_SIZE.toNat ≤ _
    decide

theorem inbox_init : (init : Receiver β).inbox = .init := by
  have hunread : (init : Receiver β).traced.unread = [] := Buffer.unread_new _
  rw [inbox, hunread]
  rfl

variable {s s' : Receiver β}

/-! ## One read event -/

theorem len_pos {x : UInt8} {bytes : List UInt8} (h : (x :: bytes).length < 2 ^ 31) :
    0 < Int32.ofNat (x :: bytes).length := by
  have hcount := Buffer.toNat_readv_count _ h
  rw [int32_pos_iff _ (by rw [hcount]; exact h), hcount]
  exact Nat.succ_pos _

theorem handleRead_error (readCb : StateT Traced Option β) (s : Receiver β) :
    s.handleRead readCb .error = some s := rfl

theorem handleRead_overflows (h : s.Sound) {bytes : List UInt8}
    (hread : s.buffer.Readable bytes.length) (hover : s.buffer.ReadOverflows bytes.length)
    (readCb : StateT Traced Option β) : s.handleRead readCb (.data bytes) = none := by
  have hcap := h.capacity
  have hord : s.buffer.Ordered := h.clean.1
  have hnone := Buffer.readFd_overflows hord bytes (by omega) hread hover
  rw [handleRead, hnone]
  rfl

/-- A read that fits extends the unread bytes, and the callback runs unless it is the end of
file. -/
theorem handleRead_fits (h : s.Sound) {bytes : List UInt8}
    (hread : s.buffer.Readable bytes.length) (hfit : ¬ s.buffer.ReadOverflows bytes.length)
    (readCb : StateT Traced Option β) :
    ∃ t : Traced, t.Clean ∧ t.unread = s.traced.unread ++ bytes ∧
      t.buffer.capacity.toNat ≤ 3 * 65536 ∧ s.handleRead readCb (.data bytes) =
        if bytes = [] then some { s with traced := t, closed := true }
        else (readCb t).map fun r =>
          { s with traced := r.2, returned := s.returned ++ [r.1] } := by
  have hcap := h.capacity
  have hlt := hread.lt (by omega)
  have hord : s.buffer.Ordered := h.clean.1
  obtain ⟨b, hreadFd, hord', hunread, hgrown⟩ :=
    Buffer.readFd_spec hord bytes (by omega) hread hfit
  refine ⟨{ s.traced with buffer := b }, ⟨hord', h.clean.2⟩, hunread, ?_, ?_⟩
  · rcases hgrown with heq | hle
    · change b.capacity.toNat ≤ _
      rw [heq]
      exact hcap
    · exact hle
  · rw [handleRead, hreadFd]
    cases bytes with
    | nil => rfl
    | cons x bytes =>
        have hpos := len_pos hlt
        simp only [Option.bind_eq_bind, Option.bind_some, if_pos hpos, reduceCtorEq, if_false]
        rw [Option.map_eq_bind]
        rfl

/-! ## The inbox describes the connection -/

variable {cb : ReadCallback β} {r : ReadResult}

theorem step_agrees (h : s.Sound) (hread : s.Readable r) (hfit : s.Fits r) {t : Inbox β}
    (ht : s.inbox.step cb.onQueue r = some t) :
    ∃ s', s.step cb.onBuffer r = some s' ∧ s'.Sound ∧ s'.inbox = t := by
  rw [Inbox.step] at ht
  rw [step]
  by_cases hclosed : s.closed
  · rw [inbox, if_pos hclosed] at ht
    cases ht
  rw [inbox, if_neg hclosed] at ht
  rw [if_neg hclosed]
  cases r with
  | error =>
      cases ht
      exact ⟨s, handleRead_error cb.onBuffer s, h, rfl⟩
  | data bytes =>
      obtain ⟨u, hclean, hunread, hcap, hrun⟩ := handleRead_fits h hread hfit cb.onBuffer
      cases bytes with
      | nil =>
          cases ht
          refine ⟨{ s with traced := u, closed := true }, hrun, ⟨hclean, hcap⟩, ?_⟩
          rw [inbox, hunread, List.append_nil]
      | cons x bytes =>
          obtain ⟨⟨result, unread⟩, hq, ht⟩ := Option.bind_eq_some_iff.mp ht
          cases ht
          dsimp only at hq
          rw [← hunread] at hq
          obtain ⟨u', hp, hclean', hunread'⟩ := cb.simulates.agrees u result unread hclean hq
          rw [if_neg (List.cons_ne_nil x bytes), hp] at hrun
          refine ⟨_, hrun, ⟨hclean', ?_⟩, ?_⟩
          · change u'.buffer.capacity.toNat ≤ _
            rw [(cb.onlyReads u result u' hp).1]
            exact hcap
          · rw [inbox, hunread']

theorem step_overflows (h : s.Sound) (hread : s.Readable r) (hover : ¬ s.Fits r) :
    s.step cb.onBuffer r = none := by
  rw [step]
  split
  · rfl
  · cases r with
    | error => exact absurd trivial hover
    | data bytes => exact handleRead_overflows h hread (Classical.not_not.mp hover) cb.onBuffer

theorem step_strays (h : s.Sound) (hread : s.Readable r) (hfit : s.Fits r)
    (ht : s.inbox.step cb.onQueue r = none) (hs' : s.step cb.onBuffer r = some s') :
    s'.traced.Strayed := by
  rw [Inbox.step] at ht
  rw [step] at hs'
  split_ifs at hs' with hclosed
  rw [inbox, if_neg hclosed] at ht
  cases r with
  | error => cases ht
  | data bytes =>
      obtain ⟨u, hclean, hunread, -, hrun⟩ := handleRead_fits h hread hfit cb.onBuffer
      cases bytes with
      | nil => cases ht
      | cons x bytes =>
          rw [if_neg (List.cons_ne_nil x bytes), hs'] at hrun
          obtain ⟨⟨result, u'⟩, hp, rfl⟩ := Option.map_eq_some_iff.mp hrun.symm
          have hq : cb.onQueue u.unread = none := by
            rw [hunread]
            cases hq : cb.onQueue (s.traced.unread ++ x :: bytes) with
            | none => rfl
            | some r =>
                rw [Inbox.receive, hq] at ht
                cases ht
          exact cb.simulates.exposes u result u' hclean hq hp

theorem step_strayed (hstray : s.traced.Strayed) (hs' : s.step cb.onBuffer r = some s') :
    s'.traced.Strayed := by
  rw [step] at hs'
  split_ifs at hs' with hclosed
  obtain ⟨⟨len, b⟩, -, hs'⟩ := Option.bind_eq_some_iff.mp hs'
  have hstart : ({ s.traced with buffer := b } : Traced).Strayed := hstray
  dsimp only at hs'
  split_ifs at hs'
  · obtain ⟨⟨result, u⟩, hp, hs'⟩ := Option.bind_eq_some_iff.mp hs'
    cases hs'
    exact cb.simulates.absorbs _ result u hstart hp
  · cases hs'
    exact hstart
  · cases hs'
    exact hstart

theorem run_strayed {events : List ReadResult} (hstray : s.traced.Strayed)
    (h : run (step cb.onBuffer) s events = some s') : s'.traced.Strayed :=
  run_invariant (fun _ _ _ => step_strayed) hstray h

/-! ## Whole runs -/

theorem run_refines (h : s.Sound) (events : List ReadResult)
    (hreads : Along (step cb.onBuffer) Readable s events) (t : Inbox β) :
    (∃ s', run (step cb.onBuffer) s events = some s' ∧ s'.traced.Clean ∧ s'.inbox = t) ↔
      Along (step cb.onBuffer) Fits s events ∧
        run (Inbox.step cb.onQueue) s.inbox events = some t := by
  induction events generalizing s with
  | nil =>
      constructor
      · rintro ⟨s', hs', -, rfl⟩
        cases hs'
        exact ⟨trivial, rfl⟩
      · rintro ⟨-, ht⟩
        cases ht
        exact ⟨s, rfl, h.clean, rfl⟩
  | cons r events ih =>
      obtain ⟨hread, hrest⟩ := hreads
      by_cases hfit : s.Fits r
      · cases hqueue : s.inbox.step cb.onQueue r with
        | none =>
            rw [run_cons, run_cons, hqueue]
            refine iff_of_false ?_ (fun hright => by cases hright.2)
            rintro ⟨s', hs', hclean, -⟩
            obtain ⟨s₁, hs₁, hrun⟩ := Option.bind_eq_some_iff.mp hs'
            have hstray := step_strays h hread hfit hqueue hs₁
            exact (run_strayed hstray hrun).not_clean s'.traced hclean
        | some t₁ =>
            obtain ⟨s₁, hs₁, hsound, rfl⟩ := step_agrees h hread hfit hqueue
            rw [run_cons, run_cons, hqueue, hs₁, Option.bind_some, Option.bind_some,
              ih hsound (hrest s₁ hs₁)]
            refine and_congr_left fun _ => ⟨fun hfits => hfits.cons hfit hs₁, fun hfits => ?_⟩
            exact hfits.2 s₁ hs₁
      · rw [run_cons, step_overflows h hread hfit]
        refine iff_of_false ?_ (fun hright => hfit hright.1.1)
        rintro ⟨s', hs', -⟩
        cases hs'

/-- For every callback and every run of read events: the connection gets through with clean reads
and ends as the inbox `t` exactly if every read event fits and the ideal inbox ends as `t`. -/
theorem receiver_refines_inbox (cb : ReadCallback β) (events : List ReadResult)
    (hreads : Along (step cb.onBuffer) Readable init events) (t : Inbox β) :
    (∃ s, run (step cb.onBuffer) init events = some s ∧ s.traced.Clean ∧ s.inbox = t) ↔
      Along (step cb.onBuffer) Fits init events ∧
        run (Inbox.step cb.onQueue) .init events = some t := by
  rw [← inbox_init]
  exact run_refines init_sound events hreads t

/-- Thirteen zero bytes in two pieces, a failed read in between, and the end of file. -/
def zerosThenEof : List ReadResult :=
  [.data (List.replicate 6 0), .error, .data (List.replicate 7 0), .data []]

theorem zeros_then_eof_refines :
    ∃ s, run (step (DataServer.readCallback .little fun _ _ => -1).onBuffer) init zerosThenEof =
        some s ∧ s.traced.Clean ∧
      s.inbox = ⟨List.replicate 8 0, [(.READ_INCOMPLETE, []), (.READ_TYPE_ERROR, [])], true⟩ :=
  (receiver_refines_inbox (DataServer.readCallback .little fun _ _ => -1) zerosThenEof (by decide)
    _).mpr ⟨by decide, by rfl⟩

end Receiver
end TinyGameServer
