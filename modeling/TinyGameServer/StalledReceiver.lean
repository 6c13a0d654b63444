import TinyGameServer.LoginOutcome
import TinyGameServer.ReceiverGrowth
import TinyGameServer.Segmentation

/-!
# Receivers whose callback never consumes anything

Two callbacks leave the receive buffer as it is. The gate does so for every client that is not
authorized. The data server does so on a little-endian machine, since it compares the length
field of a frame with its bytes in reverse order. Such a buffer only fills up. A read event that
does not fit makes room for itself only if it spills more than twice the capacity, which can
happen once.
-/

namespace TinyGameServer

namespace Buffer

variable {b b' : Buffer}

theorem grow_readIndex {length : UInt32} (h : b.grow length = some b') : b'.readIndex = 0 := by
  rw [grow] at h
  split at h
  · obtain ⟨data, -, h⟩ := Option.bind_eq_some_iff.mp h
    obtain ⟨block, -, h⟩ := Option.bind_eq_some_iff.mp h
    cases h
    rfl
  · obtain ⟨data, -, h⟩ := Option.bind_eq_some_iff.mp h
    obtain ⟨block, -, h⟩ := Option.bind_eq_some_iff.mp h
    cases h
    rfl

theorem append_readIndex (hstart : b.readIndex = 0) {data : List UInt8}
    (h : b.append data = some b') : b'.readIndex = 0 := by
  obtain ⟨b₁, hens, h⟩ := Option.bind_eq_some_iff.mp h
  obtain ⟨block, -, h⟩ := Option.bind_eq_some_iff.mp h
  cases h
  change b₁.readIndex = 0
  rw [ensureCapacity] at hens
  split at hens
  · exact grow_readIndex hens
  · cases hens
    exact hstart

theorem readFd_readIndex (hstart : b.readIndex = 0) {r : ReadResult} {n : Int32}
    (h : b.readFd r = some (n, b')) : b'.readIndex = 0 := by
  cases r with
  | error =>
      cases h
      exact hstart
  | data bytes =>
      obtain ⟨block, -, h⟩ := Option.bind_eq_some_iff.mp h
      split at h
      · cases h
        exact hstart
      · obtain ⟨b₁, happend, h⟩ := Option.bind_eq_some_iff.mp h
        cases h
        have hfilled : ({ b with block, writeIndex := b.capacity } : Buffer).readIndex = 0 := hstart
        exact append_readIndex hfilled happend

end Buffer

namespace Receiver

variable {β : Type} {cb : ReadCallback β} {P : β → Prop} {s : Receiver β} {q : List UInt8}

/-- On the prefixes of the stream the callback consumes nothing, and answers as `P` says. -/
def Idle (cb : ReadCallback β) (P : β → Prop) (stream : List UInt8) : Prop :=
  ∀ q, q ≠ [] → q <+: stream → q.length ≤ 3 * 65536 → ∃ a, cb.onQueue q = some (a, q) ∧ P a

/-- The bytes `q` have arrived, and all of them lie unread at the start of the allocation. -/
structure Stalled (P : β → Prop) (s : Receiver β) (q : List UInt8) : Prop where
  sound : s.Sound
  running : s.closed = false
  unread : s.traced.unread = q
  start : s.buffer.readIndex = 0
  answers : ∀ a ∈ s.returned, P a

theorem init_stalled : (init : Receiver β).Stalled P [] where
  sound := init_sound
  running := rfl
  unread := Buffer.unread_new _
  start := rfl
  answers _ ha := absurd ha List.not_mem_nil

theorem toNat_writeIndex_of_start {b : Buffer} (hord : b.Ordered) (hstart : b.readIndex = 0) :
    b.writeIndex.toNat = b.unread.length := by
  rw [Buffer.length_unread, hord.toNat_getLength, hstart]
  rfl

theorem Stalled.writeIndex (h : s.Stalled P q) : s.buffer.writeIndex.toNat = q.length := by
  have hunread : s.buffer.unread = q := h.unread
  rw [← hunread]
  exact toNat_writeIndex_of_start h.sound.clean.1 h.start

theorem Stalled.room (h : s.Stalled P q) :
    s.buffer.room = s.buffer.capacity.toNat - q.length := by
  rw [Buffer.room, h.writeIndex]

theorem Stalled.length_le (h : s.Stalled P q) : q.length ≤ s.buffer.capacity.toNat := by
  rw [← h.writeIndex]
  exact h.sound.clean.1.write_le_capacity

/-- A callback that consumes nothing of some unread bytes leaves them where they are. -/
theorem readIndex_of_idle {u u' : Traced} {a : β} (hclean : u.Clean) (hclean' : u'.Clean)
    (hstart : u.buffer.readIndex = 0) (hne : u.unread ≠ []) (hp : cb.onBuffer u = some (a, u'))
    (hsame : u'.unread = u.unread) : u'.buffer.readIndex = 0 := by
  have hpos := List.length_pos_iff.mpr hne
  have hwrite := toNat_writeIndex_of_start hclean.1 hstart
  have hle := hclean'.1.read_le_write
  have hlen := congrArg List.length hsame
  rw [Traced.unread, Buffer.length_unread, hclean'.1.toNat_getLength] at hlen
  change _ = u.buffer.unread.length at hlen
  change 0 < u.buffer.unread.length at hpos
  rcases (cb.onlyReads u a u' hp).2 with heq | heq
  · rw [heq] at hlen hle
    apply UInt32.toNat_inj.mp
    change _ = 0
    omega
  · rw [heq] at hlen
    change 0 - _ = _ at hlen
    omega

theorem Stalled.fits_iff (h : s.Stalled P q) (chunk : List UInt8) :
    s.Fits (.data chunk) ↔ q.length + chunk.length ≤ s.buffer.capacity.toNat ∨
      3 * s.buffer.capacity.toNat < q.length + chunk.length := by
  have hle := h.length_le
  have hstart : s.buffer.readIndex.toNat = 0 := by rw [h.start]; rfl
  rw [Fits, Buffer.ReadOverflows, h.room, hstart]
  omega

def grown (capacity arrived : ℕ) : ℕ :=
  if arrived ≤ capacity then capacity else capacity + arrived

theorem Stalled.step (h : s.Stalled P q) {chunk : List UInt8} (hne : chunk ≠ [])
    (hread : s.Readable (.data chunk)) (hfit : s.Fits (.data chunk))
    (hidle : ∃ a, cb.onQueue (q ++ chunk) = some (a, q ++ chunk) ∧ P a) :
    ∃ t, s.step cb.onBuffer (.data chunk) = some t ∧ t.Stalled P (q ++ chunk) ∧
      t.buffer.capacity.toNat = grown s.buffer.capacity.toNat (q ++ chunk).length := by
  obtain ⟨a, hqueue, ha⟩ := hidle
  have hord : s.buffer.Ordered := h.sound.clean.1
  have hcap := h.sound.capacity
  have hle := h.length_le
  have hstart : s.buffer.readIndex.toNat = 0 := by rw [h.start]; rfl
  obtain ⟨b, hreadFd, hord', hunread, -⟩ :=
    Buffer.readFd_spec hord chunk (by omega) hread hfit
  have hclean : Traced.Clean { s.traced with buffer := b } := ⟨hord', h.sound.clean.2⟩
  have hbytes : Traced.unread { s.traced with buffer := b } = q ++ chunk := by
    rw [← h.unread]
    exact hunread
  obtain ⟨u, hp, hclean', hunread'⟩ := cb.simulates.agrees { s.traced with buffer := b } a
    (q ++ chunk) hclean (by rw [hbytes]; exact hqueue)
  have hpos : 0 < Int32.ofNat chunk.length := by
    cases chunk with
    | nil => exact absurd rfl hne
    | cons x bytes => exact len_pos (Buffer.Readable.lt hread (by omega))
  have hkeep := (cb.onlyReads _ a u hp).1
  have hcapacity : b.capacity.toNat = grown s.buffer.capacity.toNat (q ++ chunk).length := by
    have hroom := h.room
    rw [grown, List.length_append]
    rcases Buffer.readFd_growth hord (by omega) hread hfit hreadFd with hsame | hgrown
    · rw [hsame, if_pos]
      have hlen := (hord'.getLength_le_capacity)
      rw [← Buffer.length_unread] at hlen
      have hlength := congrArg List.length hbytes
      rw [List.length_append] at hlength
      change b.unread.length = _ at hlength
      rw [hsame] at hlen
      omega
    · obtain ⟨spill, hlength, hlong, -, hgrown⟩ := hgrown
      rw [hgrown, if_neg (by omega)]
      omega
  refine ⟨{ s with traced := u, returned := s.returned ++ [a] }, ?_, ⟨⟨hclean', ?_⟩, h.running,
    hunread', ?_, ?_⟩, ?_⟩
  · rw [Receiver.step, if_neg (by rw [h.running]; exact Bool.false_ne_true), handleRead, hreadFd]
    simp only [Option.bind_eq_bind, Option.bind_some, if_pos hpos, hp]
    rfl
  · change u.buffer.capacity.toNat ≤ _
    rw [hkeep]
    rcases Buffer.readFd_spec hord chunk (by omega) hread hfit with ⟨b₁, hb₁, -, -, hbound⟩
    cases hb₁.symm.trans hreadFd
    rcases hbound with heq | hbound
    · rw [heq]
      exact hcap
    · exact hbound
  · refine readIndex_of_idle hclean hclean' (Buffer.readFd_readIndex h.start hreadFd) ?_ hp
      (hunread'.trans hbytes.symm)
    rw [hbytes]
    exact List.append_ne_nil_of_right_ne_nil q hne
  · intro r hr
    rcases List.mem_append.mp hr with hold | hnew
    · exact h.answers r hold
    · rw [List.mem_singleton.mp hnew]
      exact ha
  · change u.buffer.capacity.toNat = _
    rw [hkeep]
    exact hcapacity

/-! ## Whole streams -/

/-- All chunks fit, or one of them makes room for itself and the others then fit. -/
def Survivable (capacity arrived : ℕ) (chunks : List (List UInt8)) : Prop :=
  arrived + chunks.flatten.length ≤ capacity ∨
    ∃ pre chunk post, chunks = pre ++ chunk :: post ∧
      arrived + pre.flatten.length ≤ capacity ∧
      3 * capacity < arrived + pre.flatten.length + chunk.length ∧ post.flatten.length ≤ capacity

theorem survivable_cons {capacity arrived : ℕ} (hle : arrived ≤ capacity) (chunk : List UInt8)
    (chunks : List (List UInt8)) :
    Survivable capacity arrived (chunk :: chunks) ↔
      (arrived + chunk.length ≤ capacity ∧ Survivable capacity (arrived + chunk.length) chunks) ∨
        (3 * capacity < arrived + chunk.length ∧ chunks.flatten.length ≤ capacity) := by
  constructor
  · rintro (hall | ⟨pre, chunk', post, hsplit, hpre, hlong, hpost⟩)
    · rw [List.flatten_cons, List.length_append] at hall
      exact .inl ⟨by omega, .inl (by omega)⟩
    · cases pre with
      | nil =>
          cases hsplit
          exact .inr ⟨hlong, hpost⟩
      | cons first pre =>
          cases hsplit
          rw [List.flatten_cons, List.length_append] at hpre hlong
          exact .inl ⟨by omega, .inr ⟨pre, chunk', post, rfl, by omega, by omega, hpost⟩⟩
  · rintro (⟨-, hall | ⟨pre, chunk', post, rfl, hpre, hlong, hpost⟩⟩ | ⟨hlong, hrest⟩)
    · left
      rw [List.flatten_cons, List.length_append]
      omega
    · refine .inr ⟨chunk :: pre, chunk', post, rfl, ?_, ?_, hpost⟩
      · rw [List.flatten_cons, List.length_append]
        omega
      · rw [List.flatten_cons, List.length_append]
        omega
    · exact .inr ⟨[], chunk, chunks, rfl, hle, hlong, hrest⟩

structure Incoming (cb : ReadCallback β) (P : β → Prop) (s : Receiver β) (q : List UInt8)
    (chunks : List (List UInt8)) : Prop where
  ne_nil : ∀ chunk ∈ chunks, chunk ≠ []
  readable : Along (Receiver.step cb.onBuffer) Readable s (chunks.map .data)
  idle : Idle cb P (q ++ chunks.flatten)

variable {chunk : List UInt8} {chunks : List (List UInt8)}

theorem Stalled.arrived_le (h : s.Stalled P q) (hin : Incoming cb P s q (chunk :: chunks)) :
    (q ++ chunk).length ≤ s.buffer.capacity.toNat + 65536 := by
  have hread : s.buffer.Readable chunk.length := hin.readable.1
  have hle := h.length_le
  rw [Buffer.Readable, h.room] at hread
  rw [List.length_append]
  omega

theorem Stalled.next (h : s.Stalled P q) (hin : Incoming cb P s q (chunk :: chunks))
    (hsmall : s.buffer.capacity.toNat ≤ 2 * 65536) (hfit : s.Fits (.data chunk)) :
    ∃ t, s.step cb.onBuffer (.data chunk) = some t ∧ t.Stalled P (q ++ chunk) ∧
      t.buffer.capacity.toNat = grown s.buffer.capacity.toNat (q ++ chunk).length ∧
      Incoming cb P t (q ++ chunk) chunks := by
  obtain ⟨hne, hrest⟩ := List.forall_mem_cons.mp hin.ne_nil
  have harrived := h.arrived_le hin
  have hidle := hin.idle
  rw [List.flatten_cons, ← List.append_assoc] at hidle
  obtain ⟨t, ht, hstalled, hcap⟩ := h.step hne hin.readable.1 hfit
    (hidle _ (List.append_ne_nil_of_right_ne_nil q hne) (List.prefix_append _ _) (by omega))
  exact ⟨t, ht, hstalled, hcap, hrest, hin.readable.2 t ht, hidle⟩

theorem Stalled.run_large (h : s.Stalled P q) (hin : Incoming cb P s q chunks)
    (hlarge : 32768 ≤ s.buffer.capacity.toNat) (hsmall : s.buffer.capacity.toNat ≤ 2 * 65536) :
    (q.length + chunks.flatten.length ≤ s.buffer.capacity.toNat ∧
      ∃ t, run (Receiver.step cb.onBuffer) s (chunks.map .data) = some t ∧
        t.Stalled P (q ++ chunks.flatten) ∧ t.buffer.capacity = s.buffer.capacity) ∨
    (s.buffer.capacity.toNat < q.length + chunks.flatten.length ∧
      run (Receiver.step cb.onBuffer) s (chunks.map .data) = none) := by
  induction chunks generalizing s q with
  | nil =>
      refine .inl ⟨h.length_le, s, rfl, ?_, rfl⟩
      rw [List.flatten_nil, List.append_nil]
      exact h
  | cons chunk chunks ih =>
      have harrived := h.arrived_le hin
      rw [List.length_append] at harrived
      have hfits := h.fits_iff chunk
      rw [List.map_cons, run_cons, List.flatten_cons, List.length_append, ← List.append_assoc]
      by_cases hroom : q.length + chunk.length ≤ s.buffer.capacity.toNat
      · obtain ⟨t, ht, hstalled, hcap, hin'⟩ := h.next hin hsmall (hfits.mpr (.inl hroom))
        rw [grown, List.length_append, if_pos hroom] at hcap
        have hsame : t.buffer.capacity = s.buffer.capacity := UInt32.toNat_inj.mp hcap
        have hrun := ih hstalled hin' (by rw [hcap]; exact hlarge) (by rw [hcap]; exact hsmall)
        rw [hsame, List.length_append, Nat.add_assoc] at hrun
        rw [ht, Option.bind_some]
        exact hrun
      · have hnone : s.step cb.onBuffer (.data chunk) = none :=
          step_overflows h.sound hin.readable.1 (hfits.not.mpr (by omega))
        exact .inr ⟨by omega, by rw [hnone]; rfl⟩

theorem Stalled.run_small (h : s.Stalled P q) (hin : Incoming cb P s q chunks)
    (hlarge : 8192 ≤ s.buffer.capacity.toNat) (hsmall : s.buffer.capacity.toNat < 32768) :
    (Survivable s.buffer.capacity.toNat q.length chunks ∧
      ∃ t, run (Receiver.step cb.onBuffer) s (chunks.map .data) = some t ∧
        t.Stalled P (q ++ chunks.flatten) ∧
        t.buffer.capacity.toNat ≤ 2 * s.buffer.capacity.toNat + 65536) ∨
    (¬ Survivable s.buffer.capacity.toNat q.length chunks ∧
      run (Receiver.step cb.onBuffer) s (chunks.map .data) = none) := by
  induction chunks generalizing s q with
  | nil =>
      refine .inl ⟨.inl h.length_le, s, rfl, ?_, by omega⟩
      rw [List.flatten_nil, List.append_nil]
      exact h
  | cons chunk chunks ih =>
      have harrived := h.arrived_le hin
      rw [List.length_append] at harrived
      have hfits := h.fits_iff chunk
      rw [survivable_cons h.length_le, List.map_cons, run_cons, List.flatten_cons,
        ← List.append_assoc]
      by_cases hroom : q.length + chunk.length ≤ s.buffer.capacity.toNat
      · obtain ⟨t, ht, hstalled, hcap, hin'⟩ := h.next hin (by omega) (hfits.mpr (.inl hroom))
        rw [grown, List.length_append, if_pos hroom] at hcap
        have hrun := ih hstalled hin' (by omega) (by omega)
        rw [hcap, List.length_append] at hrun
        have hiff : (q.length + chunk.length ≤ s.buffer.capacity.toNat ∧
            Survivable s.buffer.capacity.toNat (q.length + chunk.length) chunks) ∨
            (3 * s.buffer.capacity.toNat < q.length + chunk.length ∧
              chunks.flatten.length ≤ s.buffer.capacity.toNat) ↔
            Survivable s.buffer.capacity.toNat (q.length + chunk.length) chunks := by
          constructor
          · rintro (⟨-, hrest⟩ | ⟨hlong, -⟩)
            · exact hrest
            · omega
          · exact fun hrest => .inl ⟨hroom, hrest⟩
        rw [hiff, ht, Option.bind_some]
        exact hrun
      · by_cases hlong : 3 * s.buffer.capacity.toNat < q.length + chunk.length
        · obtain ⟨t, ht, hstalled, hcap, hin'⟩ := h.next hin (by omega) (hfits.mpr (.inr hlong))
          rw [grown, List.length_append, if_neg hroom] at hcap
          rw [ht, Option.bind_some]
          rcases hstalled.run_large hin' (by omega) (by omega) with ⟨hfit, u, hu, hdone, hsame⟩ |
            ⟨hover, hnone⟩
          · rw [List.length_append] at hfit
            refine .inl ⟨.inr ⟨hlong, by omega⟩, u, hu, hdone, ?_⟩
            rw [hsame]
            omega
          · rw [List.length_append] at hover
            refine .inr ⟨?_, hnone⟩
            rintro (⟨hroom', -⟩ | ⟨-, hrest⟩)
            · exact hroom hroom'
            · omega
        · have hnone : s.step cb.onBuffer (.data chunk) = none :=
            step_overflows h.sound hin.readable.1 (hfits.not.mpr (by omega))
          refine .inr ⟨?_, by rw [hnone]; rfl⟩
          rintro (⟨hroom', -⟩ | ⟨hlong', -⟩)
          · exact hroom hroom'
          · exact hlong hlong'

/-- For every idle callback and every way in which the stream arrives: the reads stay inside the
allocation exactly if the chunks are survivable. Then nothing has been consumed, no more than
81920 bytes have arrived, and the callback has only answered as it does when it is idle. -/
theorem stalled_run (hidle : Idle cb P chunks.flatten) (hne : ∀ chunk ∈ chunks, chunk ≠ [])
    (hreads : Along (Receiver.step cb.onBuffer) Readable init (chunks.map .data)) :
    (Survivable 8192 0 chunks ↔
      ∃ s, run (Receiver.step cb.onBuffer) init (chunks.map .data) = some s) ∧
    ∀ s, run (Receiver.step cb.onBuffer) init (chunks.map .data) = some s →
      s.traced.unread = chunks.flatten ∧ chunks.flatten.length ≤ 81920 ∧ ∀ a ∈ s.returned, P a := by
  have hcap : (init : Receiver β).buffer.capacity.toNat = 8192 := by
    change Buffer.INITIAL_SIZE.toNat = 8192
    decide
  have hin : Incoming cb P init [] chunks := ⟨hne, hreads, hidle⟩
  have hrun := init_stalled.run_small hin (by omega) (by omega)
  rw [hcap, List.nil_append] at hrun
  rcases hrun with ⟨hsurvives, t, ht, hstalled, hbound⟩ | ⟨hdies, hnone⟩
  · refine ⟨iff_of_true hsurvives ⟨t, ht⟩, fun s hs => ?_⟩
    cases ht.symm.trans hs
    have hle := hstalled.length_le
    exact ⟨hstalled.unread, by omega, hstalled.answers⟩
  · refine ⟨iff_of_false hdies ?_, fun s hs => ?_⟩
    · rintro ⟨s, hs⟩
      rw [hnone] at hs
      cases hs
    · rw [hnone] at hs
      cases hs

end Receiver

/-! ## Clients of the gate -/

theorem peekLen_little_ge (tag : Int8) (len : ℕ) (body rest : List UInt8) :
    2 ^ 24 * (len % 256) ≤ peekLen .little (wireFrame tag len body ++ rest) := by
  rw [peekLen, field_wireFrame]
  simp only [ByteOrder.toBytes, ByteOrder.ofBytes, ByteOrder.leBytes, ByteOrder.ofLeBytes,
    List.reverse_cons, List.reverse_nil, List.nil_append, List.cons_append, UInt8.toNat_ofNat']
  omega

/-- A frame whose length is no multiple of 256 is not complete before 16 MiB have arrived. -/
theorem not_accepts_little {tag : Int8} {len : ℕ} (hlen : len % 256 ≠ 0) {body rest q : List UInt8}
    (hpre : q <+: wireFrame tag len body ++ rest) (hshort : q.length ≤ 3 * 65536) :
    ¬ Accepts .little 13 q := by
  rintro ⟨hmin, hpeek⟩
  obtain ⟨rest', hstream⟩ := hpre
  have hfield : peekLen .little (wireFrame tag len body ++ rest) = peekLen .little q := by
    rw [← hstream, peekLen, peekLen, field_append (by omega)]
  have hge := peekLen_little_ge tag len body rest
  omega

theorem DataServer.idle_little (selectUser : SelectUser) {tag : Int8} {len : ℕ}
    (hlen : len % 256 ≠ 0) (body rest : List UInt8) :
    Receiver.Idle (readCallback .little selectUser) (· = (.READ_INCOMPLETE, []))
      (wireFrame tag len body ++ rest) := by
  intro q _ hpre hshort
  have hqueue := @messageCb_queue .little q selectUser (by omega)
  rw [if_neg (not_accepts_little hlen hpre hshort), ← readCallback_onQueue] at hqueue
  exact ⟨_, hqueue, rfl⟩

theorem GateServer.idle_little {tag : Int8} {len : ℕ} (hlen : len % 256 ≠ 0)
    (body rest : List UInt8) :
    Receiver.Idle (dbReadCallback .little) (· = (.READ_INCOMPLETE, none))
      (wireFrame tag len body ++ rest) := by
  intro q _ hpre hshort
  have hqueue := @dbMessageCb_queue .little q (by omega)
  rw [if_neg (not_accepts_little hlen hpre hshort), ← dbReadCallback_onQueue] at hqueue
  exact ⟨_, hqueue, rfl⟩

/-- On a little-endian machine, whatever follows a first frame whose length is no multiple of 256:
the data server never answers, and the gate takes nothing over from the data server. Neither of
them gets through more than 81920 bytes. -/
theorem deaf_on_little_endian (selectUser : SelectUser) (tag : Int8) (len : ℕ)
    (hlen : len % 256 ≠ 0) (body rest : List UInt8) (chunks : List (List UInt8))
    (hcut : IsCut (wireFrame tag len body ++ rest) chunks) :
    (Along (Receiver.step (DataServer.readCallback .little selectUser).onBuffer)
        Receiver.Readable .init (chunks.map .data) →
      ∀ s, run (Receiver.step (DataServer.readCallback .little selectUser).onBuffer) .init
          (chunks.map .data) = some s →
        chunks.flatten.length ≤ 81920 ∧ ∀ r ∈ s.returned, r = (.READ_INCOMPLETE, [])) ∧
    (Along (Receiver.step (GateServer.dbReadCallback .little).onBuffer)
        Receiver.Readable .init (chunks.map .data) →
      ∀ s, run (Receiver.step (GateServer.dbReadCallback .little).onBuffer) .init
          (chunks.map .data) = some s →
        chunks.flatten.length ≤ 81920 ∧ ∀ r ∈ s.returned, r = (.READ_INCOMPLETE, none)) := by
  obtain ⟨hne, hflatten⟩ := hcut
  constructor
  · intro hreads s hs
    have hidle := @DataServer.idle_little selectUser tag len hlen body rest
    rw [← hflatten] at hidle
    exact ((Receiver.stalled_run hidle hne hreads).2 s hs).2
  · intro hreads s hs
    have hidle := @GateServer.idle_little tag len hlen body rest
    rw [← hflatten] at hidle
    exact ((Receiver.stalled_run hidle hne hreads).2 s hs).2

/-- The frame with which the data server refuses a login, in two pieces. -/
theorem refusal_not_read :
    ∃ s, run (Receiver.step (GateServer.dbReadCallback .little).onBuffer) .init
        ([[120, 0, 0, 0, 12], [0, 0, 0, 0, 0, 0, 0, 7]].map ReadResult.data) = some s ∧
      ∀ r ∈ s.returned, r = (.READ_INCOMPLETE, none) := by
  have hcut : IsCut (wireFrame (ascii 'x') 12 [0, 0, 0, 0, 0, 0, 0, 7] ++ [])
      [[120, 0, 0, 0, 12], [0, 0, 0, 0, 0, 0, 0, 7]] := by
    constructor
    · decide
    · rfl
  have hreads : Along (Receiver.step (GateServer.dbReadCallback .little).onBuffer)
      Receiver.Readable .init ([[120, 0, 0, 0, 12], [0, 0, 0, 0, 0, 0, 0, 7]].map .data) := by
    decide
  obtain ⟨-, hgate⟩ := deaf_on_little_endian (fun _ _ => -1) (ascii 'x') 12 (by decide) _ _ _ hcut
  exact ⟨_, rfl, (hgate hreads _ rfl).2⟩

end TinyGameServer
