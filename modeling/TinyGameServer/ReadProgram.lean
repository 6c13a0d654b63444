import TinyGameServer.ReceiveBuffer

/-!
# Programs over the read operations of a buffer

A message callback that only reads from `conn->GetBuffer()` is a sequence of operations, each of
which may depend on what the earlier ones have returned. `ReadAll` and `ReadTagLen` are written
with the ones listed here. Such a program runs on the class `Buffer` and on the ideal queue, and
the two runs agree because each operation does. On the class it leaves the allocation as it is.
-/

namespace TinyGameServer

inductive ReadOp where
  | getLength
  | peekTagLen
  | readInt8
  | readInt16
  | readInt32
  | readInt64
  | readString (length : UInt32)
  | forward (num : Int32)
  | clear

abbrev ReadOp.Result : ReadOp → Type
  | getLength => UInt32
  | peekTagLen => Int8 × Int32
  | readInt8 => Int8
  | readInt16 => Int16
  | readInt32 => Int32
  | readInt64 => Int64
  | readString _ => List UInt8
  | forward _ => Unit
  | clear => Unit

def ReceiveBuffer.perform {m : Type → Type} (connBuf : ReceiveBuffer m) :
    (op : ReadOp) → m op.Result
  | .getLength => connBuf.getLength
  | .peekTagLen => connBuf.peekTagLen
  | .readInt8 => connBuf.readInt8
  | .readInt16 => connBuf.readInt16
  | .readInt32 => connBuf.readInt32
  | .readInt64 => connBuf.readInt64
  | .readString length => connBuf.readString length
  | .forward num => connBuf.forward num
  | .clear => connBuf.clear

inductive ReadProgram (α : Type) where
  | done (a : α)
  | call (op : ReadOp) (next : op.Result → ReadProgram α)

namespace ReadProgram

variable {α β : Type}

def bind : ReadProgram α → (α → ReadProgram β) → ReadProgram β
  | done a, k => k a
  | call op next, k => call op fun r => (next r).bind k

instance : Monad ReadProgram where
  pure := done
  bind := bind

/-- The buffer of a program that has still to be run. -/
def connBuf : ReceiveBuffer ReadProgram where
  getLength := call .getLength done
  peekTagLen := call .peekTagLen done
  readInt8 := call .readInt8 done
  readInt16 := call .readInt16 done
  readInt32 := call .readInt32 done
  readInt64 := call .readInt64 done
  readString length := call (.readString length) done
  forward num := call (.forward num) done
  clear := call .clear done

variable {m : Type → Type} [Monad m] (ops : ReceiveBuffer m)

def runOn : ReadProgram α → m α
  | done a => pure a
  | call op next => do
    let r ← ops.perform op
    runOn (next r)

theorem runOn_pure (a : α) : (pure a : ReadProgram α).runOn ops = pure a := rfl

theorem runOn_bind [LawfulMonad m] (p : ReadProgram α) (k : α → ReadProgram β) :
    (p >>= k).runOn ops = p.runOn ops >>= fun a => (k a).runOn ops := by
  induction p with
  | done a => exact (pure_bind a fun a => (k a).runOn ops).symm
  | call op next ih =>
      change (ops.perform op >>= fun r => ((next r) >>= k).runOn ops) = _
      simp only [ih, runOn, bind_assoc]

theorem runOn_ite {c : Prop} [Decidable c] (p p' : ReadProgram α) :
    (if c then p else p').runOn ops = if c then p.runOn ops else p'.runOn ops := by
  split <;> rfl

end ReadProgram

/-! ## On the class and on the queue -/

theorem ReceiveBuffer.Simulated.perform {p : ReceiveBuffer (StateT Traced Option)}
    {q : ReceiveBuffer (StateT (List UInt8) Option)} (h : p.Simulated q) (op : ReadOp) :
    BufferSimulates (p.perform op) (q.perform op) := by
  cases op with
  | getLength => exact h.getLength
  | peekTagLen => exact h.peekTagLen
  | readInt8 => exact h.readInt8
  | readInt16 => exact h.readInt16
  | readInt32 => exact h.readInt32
  | readInt64 => exact h.readInt64
  | readString length => exact h.readString length
  | forward num => exact h.forward num
  | clear => exact h.clear

theorem ReadProgram.simulates {β : Type} {p : ReceiveBuffer (StateT Traced Option)}
    {q : ReceiveBuffer (StateT (List UInt8) Option)} (h : p.Simulated q)
    (program : ReadProgram β) : BufferSimulates (program.runOn p) (program.runOn q) := by
  induction program with
  | done b => exact .pure b
  | call op next ih => exact (h.perform op).bind ih

/-! ## The allocation -/

/-- The allocation stays, and so does the write index unless the buffer is emptied. -/
def OnlyReads {β : Type} (p : StateT Traced Option β) : Prop :=
  ∀ s a s', p s = some (a, s') → s'.buffer.capacity = s.buffer.capacity ∧
    (s'.buffer.writeIndex = s.buffer.writeIndex ∨ s'.buffer.writeIndex = 0)

namespace OnlyReads

variable {α β : Type}

theorem pure (a : α) : OnlyReads (Pure.pure a) := by
  intro s b s' h
  cases h
  exact ⟨rfl, .inl rfl⟩

theorem bind {p : StateT Traced Option α} {k : α → StateT Traced Option β} (h : OnlyReads p)
    (hk : ∀ a, OnlyReads (k a)) : OnlyReads (p >>= k) := by
  intro s b s' hs
  rw [Simulates.bind_apply, Option.bind_eq_some_iff] at hs
  obtain ⟨⟨a, s₁⟩, hp, hs⟩ := hs
  obtain ⟨hcap₁, hwrite₁⟩ := h s a s₁ hp
  obtain ⟨hcap, hwrite⟩ := hk a s₁ b s' hs
  refine ⟨hcap.trans hcap₁, ?_⟩
  rcases hwrite with hwrite | hwrite
  · rwa [hwrite]
  · exact .inr hwrite

theorem traced {count : Buffer → UInt32} {op : Buffer → Option (α × Buffer)}
    (h : ∀ b a b', op b = some (a, b') →
      b'.capacity = b.capacity ∧ b'.writeIndex = b.writeIndex) : OnlyReads (traced count op) := by
  intro s a s' hs
  obtain ⟨b, hop, rfl⟩ := traced_eq_some hs
  obtain ⟨hcap, hwrite⟩ := h s.buffer a b hop
  exact ⟨hcap, .inl hwrite⟩

theorem readField {width : UInt32} {decode : List UInt8 → α} :
    OnlyReads (TinyGameServer.traced (fun _ => width) fun b =>
      (b.readField width).bind fun p => some (decode p.1, p.2)) := by
  refine traced fun b a b' h => ?_
  obtain ⟨⟨bytes, b₁⟩, hread, h⟩ := Option.bind_eq_some_iff.mp h
  obtain ⟨data, -, hread⟩ := Option.bind_eq_some_iff.mp hread
  cases h
  cases hread
  exact ⟨rfl, rfl⟩

theorem perform (host : ByteOrder) (op : ReadOp) : OnlyReads ((onBuffer host).perform op) := by
  cases op with
  | getLength =>
      intro s a s' h
      cases h
      exact ⟨rfl, .inl rfl⟩
  | peekTagLen =>
      change OnlyReads (TinyGameServer.traced (fun _ => 5) fun b => (b.peekTagLen host).map (·, b))
      refine traced fun b a b' h => ?_
      obtain ⟨a, -, h⟩ := Option.map_eq_some_iff.mp h
      cases h
      exact ⟨rfl, rfl⟩
  | readString length =>
      change OnlyReads (TinyGameServer.traced
        (fun b => if b.getLength < length then b.getLength else length) (Buffer.readString · length))
      refine traced fun b a b' h => ?_
      obtain ⟨data, -, h⟩ := Option.bind_eq_some_iff.mp h
      cases h
      exact ⟨rfl, rfl⟩
  | forward num =>
      intro s a s' h
      cases h
      dsimp only
      rw [Buffer.forward]
      split
      · exact ⟨rfl, .inl rfl⟩
      · exact ⟨rfl, .inr rfl⟩
  | clear =>
      intro s a s' h
      cases h
      exact ⟨rfl, .inr rfl⟩
  | _ => exact readField

end OnlyReads

theorem ReadProgram.onlyReads {β : Type} (host : ByteOrder) (program : ReadProgram β) :
    OnlyReads (program.runOn (onBuffer host)) := by
  induction program with
  | done b => exact .pure b
  | call op next ih => exact (OnlyReads.perform host op).bind ih

end TinyGameServer
