import TinyGameServer.BoundedService
import TinyGameServer.LoginPipeline

/-!
# How far the callbacks get

A message callback runs once for each read event and takes one frame at most, so frames that arrive
together are served one event after the other. However a stream is cut, what has been taken of it
is what a server with a bounded rate has served. The echo server takes up to 100 bytes at a time.
-/

namespace TinyGameServer

open BoundedService

/-- Off the front of whole frames, with a part of one behind them, the callback takes up to `rate`
frames. -/
structure ServesUpTo {β φ : Type} (rate : ℕ) (readCb : StateT (List UInt8) Option β)
    (bytes : φ → List UInt8) (answer : List φ → β) : Prop where
  serves : ∀ (frames : List φ) (p : List UInt8), Partial bytes p →
    (frames.flatMap bytes ++ p).length < 2 ^ 32 →
      readCb (frames.flatMap bytes ++ p) =
        some (answer (frames.take rate), (frames.drop rate).flatMap bytes ++ p)

theorem ServesUpTo.of_takesFront {β φ : Type} {readCb : StateT (List UInt8) Option β}
    {bytes : φ → List UInt8} {answers : φ → β} {waiting : β}
    (hfront : ∀ f, TakesFront readCb (bytes f) (answers f) waiting)
    (hnil : readCb [] = some (waiting, [])) :
    ServesUpTo 1 readCb bytes fun frames => (frames.head?.map answers).getD waiting where
  serves frames p hp hlen := by
    cases frames with
    | nil =>
        rcases hp with rfl | ⟨f, hpre, hshort⟩
        · exact hnil
        · exact (hfront f).waits p hpre hshort
    | cons f frames =>
        rw [List.flatMap_cons, List.append_assoc] at hlen ⊢
        exact (hfront f).takes (frames.flatMap bytes ++ p) hlen

/-- How many frames of these sizes are whole after the first `j` chunks. -/
def arrivals (sizes : List ℕ) (chunks : List (List UInt8)) (j : ℕ) : ℕ :=
  complete sizes (chunks.take j).flatten.length

theorem arrivals_append {sizes : List ℕ} {chunks : List (List UInt8)} {j : ℕ}
    (hj : j ≤ chunks.length) (chunk : List UInt8) :
    arrivals sizes (chunks ++ [chunk]) j = arrivals sizes chunks j := by
  rw [arrivals, arrivals, List.take_append_of_le_length hj]

theorem arrivals_length (sizes : List ℕ) (chunks : List (List UInt8)) :
    arrivals sizes chunks chunks.length = complete sizes chunks.flatten.length := by
  rw [arrivals, List.take_length]

theorem le_served_frames_iff {sizes : List ℕ} (hpos : ∀ size ∈ sizes, 0 < size)
    (chunks : List (List UInt8)) (m : ℕ) :
    m ≤ served 1 (arrivals sizes chunks) chunks.length ↔
      ∀ j ≤ chunks.length, m ≤ arrivals sizes chunks j + (chunks.length - j) := by
  have hzero : arrivals sizes chunks 0 = 0 := complete_zero hpos
  rw [le_served_iff hzero]
  simp only [Nat.one_mul]

theorem served_append (rate : ℕ) (sizes : List ℕ) (chunks : List (List UInt8))
    (chunk : List UInt8) :
    served rate (arrivals sizes (chunks ++ [chunk])) (chunks ++ [chunk]).length =
      min (served rate (arrivals sizes chunks) chunks.length + rate)
        (complete sizes (chunks ++ [chunk]).flatten.length) := by
  have hlast := arrivals_length sizes (chunks ++ [chunk])
  rw [List.length_append, List.length_singleton] at hlast ⊢
  rw [served, hlast, served_congr fun j hj => arrivals_append hj chunk]

namespace Receiver

variable {β ε φ : Type} {cb : ReadCallback β} {rate : ℕ} {bytes : φ → List UInt8}
  {answer : List φ → β} {effect : β → List ε} {emitted : φ → List ε}

/-- One read event: of the frames that are whole and not yet taken the callback takes up to
`rate`. -/
theorem step_serves (h : ServesUpTo rate cb.onQueue bytes answer) {s : Receiver β}
    (hs : s.Sound) (hopen : s.closed = false) {chunk : List UInt8} (hne : chunk ≠ [])
    (hread : s.Readable (.data chunk)) (hfit : s.Fits (.data chunk)) {waiting : List φ}
    {p : List UInt8} (hp : Partial bytes p)
    (hunread : s.traced.unread ++ chunk = waiting.flatMap bytes ++ p) :
    ∃ s', s.step cb.onBuffer (.data chunk) = some s' ∧ s'.Sound ∧ s'.closed = false ∧
      s'.traced.unread = (waiting.drop rate).flatMap bytes ++ p ∧
      s'.returned = s.returned ++ [answer (waiting.take rate)] := by
  obtain ⟨t, -, ht, -, -⟩ := handleRead_fits hs hread hfit cb.onBuffer
  have hlt : (waiting.flatMap bytes ++ p).length < 2 ^ 32 := by
    rw [← hunread, ← ht, Traced.unread, Buffer.length_unread]
    exact UInt32.toNat_lt _
  have hcb := h.serves waiting p hp hlt
  rw [← hunread] at hcb
  obtain ⟨s', hs', hsound, hinbox⟩ :=
    step_agrees hs hread hfit (@Inbox.step_data _ _ s.inbox hopen chunk hne _ _ hcb)
  have hunread' := congrArg Inbox.unread hinbox
  have hreturned := congrArg Inbox.returned hinbox
  have hclosed := congrArg Inbox.closed hinbox
  exact ⟨s', hs', hsound, hclosed.trans hopen, hunread', hreturned⟩

/-- After the chunks the frames that a server with this rate has served are taken, in batches of up
to `rate`, and everything behind them is unread. -/
theorem run_serves (h : ServesUpTo rate cb.onQueue bytes answer) (frames : List φ)
    (chunks : List (List UInt8)) (hne : ∀ chunk ∈ chunks, chunk ≠ [])
    (hstream : chunks.flatten <+: frames.flatMap bytes)
    (hreads : Along (step cb.onBuffer) Readable init (chunks.map .data))
    (hfits : Along (step cb.onBuffer) Fits init (chunks.map .data)) {n : ℕ}
    (hn : n = served rate (arrivals (frames.map fun f => (bytes f).length) chunks)
      chunks.length) :
    ∃ (s : Receiver β) (batches : List (List φ)),
      run (step cb.onBuffer) init (chunks.map .data) = some s ∧ s.Sound ∧
      s.closed = false ∧ chunks.flatten = (frames.take n).flatMap bytes ++ s.traced.unread ∧
      s.returned = batches.map answer ∧ batches.flatten = frames.take n ∧
      ∀ batch ∈ batches, batch.length ≤ rate := by
  induction chunks using List.reverseRecOn generalizing n with
  | nil =>
      rw [List.length_nil, served] at hn
      subst hn
      have hunread : (init : Receiver β).traced.unread = [] := Buffer.unread_new _
      refine ⟨init, [], rfl, init_sound, rfl, ?_, rfl, rfl, fun _ hmem => absurd hmem ?_⟩
      · rw [hunread]
        rfl
      · exact List.not_mem_nil
  | append_singleton chunks chunk ih =>
      rw [List.map_append, List.map_singleton] at hreads hfits
      rw [served_append] at hn
      have hbefore : chunks.flatten <+: frames.flatMap bytes := by
        rw [List.flatten_append] at hstream
        exact (List.prefix_append _ _).trans hstream
      obtain ⟨s, batches, hrun, hsound, hopen, hsplit, hreturned, hbatches, hrate⟩ :=
        ih (fun c hc => hne c (List.mem_append_left _ hc)) hbefore hreads.left hfits.left rfl
      obtain ⟨p, hp, hwhole⟩ := exists_partial frames hstream
      generalize hd : served rate (arrivals (frames.map fun f => (bytes f).length) chunks)
        chunks.length = d at hn hsplit hbatches
      generalize ha : complete (frames.map fun f => (bytes f).length)
        (chunks ++ [chunk]).flatten.length = a at hn hwhole
      have hda : d ≤ a := by
        rw [← hd, ← ha, List.flatten_append, List.length_append]
        refine (served_le_arrived rate _ _).trans ?_
        rw [arrivals_length]
        exact complete_mono (Nat.le_add_right _ _) _
      have htaken : (frames.take a).take d = frames.take d := by
        rw [List.take_take, Nat.min_eq_left hda]
      have htake : frames.take n = frames.take d ++ ((frames.take a).drop d).take rate := by
        rw [hn, ← List.take_take, List.take_add, htaken]
      have hwaiting : s.traced.unread ++ chunk = ((frames.take a).drop d).flatMap bytes ++ p := by
        rw [List.flatten_append, hsplit, ← List.take_append_drop d (frames.take a), htaken,
          List.flatMap_append, List.append_assoc, List.append_assoc,
          List.append_cancel_left_eq] at hwhole
        rwa [List.flatten_singleton] at hwhole
      obtain ⟨s', hs', hsound', hopen', hunread', hreturned'⟩ := step_serves h hsound hopen
        (hne chunk (List.mem_append_right _ List.mem_cons_self)) (hreads.of_append hrun)
        (hfits.of_append hrun) hp hwaiting
      refine ⟨s', batches ++ [((frames.take a).drop d).take rate], ?_, hsound', hopen', ?_, ?_, ?_,
        ?_⟩
      · rw [List.map_append, List.map_singleton, run_append, hrun, Option.bind_some, run_cons, hs']
        rfl
      · rw [hwhole, htake, hunread', ← List.append_assoc, ← List.flatMap_append, List.append_assoc,
          List.take_append_drop, ← htaken, List.take_append_drop]
      · rw [hreturned', hreturned, List.map_append, List.map_singleton]
      · rw [List.flatten_append, hbatches, htake, List.flatten_singleton]
      · intro batch hbatch
        rcases List.mem_append.mp hbatch with hold | hnew
        · exact hrate batch hold
        · rw [List.mem_singleton.mp hnew]
          exact List.length_take_le _ _

end Receiver

theorem flatMap_batches {β ε φ : Type} {rate : ℕ} {answer : List φ → β} (effect : β → List ε)
    (emitted : φ → List ε)
    (heffect : ∀ batch, batch.length ≤ rate → effect (answer batch) = batch.flatMap emitted)
    (batches : List (List φ)) (hrate : ∀ batch ∈ batches, batch.length ≤ rate) :
    (batches.map answer).flatMap effect = batches.flatten.flatMap emitted := by
  induction batches with
  | nil => rfl
  | cons batch batches ih =>
      obtain ⟨hfirst, hrest⟩ := List.forall_mem_cons.mp hrate
      rw [List.map_cons, List.flatMap_cons, heffect batch hfirst, ih hrest, List.flatten_cons,
        List.flatMap_append]

/-! ## The data server -/

namespace DataServer

/-- What a login under its serial id is answered with. -/
def replyFrame (selectUser : SelectUser) (login : Int64 × Login) : List UInt8 :=
  if selectUser login.2.name login.2.pass = -1 then errorFrame .big login.1
  else successFrame .big login.1 (selectUser login.2.name login.2.pass)

def relayedBytes (login : Int64 × Login) : List UInt8 := login.2.relayed login.1

def answer (selectUser : SelectUser) (logins : List (Int64 × Login)) :
    BufferStatus × List (Option Buffer) :=
  (logins.head?.map fun login => (.READ_SUCCESS,
    [reply .big login.1 (selectUser login.2.name login.2.pass)])).getD (.READ_INCOMPLETE, [])

theorem emitted_of_batch (selectUser : SelectUser) (batch : List (Int64 × Login))
    (hbatch : batch.length ≤ 1) : (answer selectUser batch).2 = batch.flatMap fun login =>
      [reply .big login.1 (selectUser login.2.name login.2.pass)] := by
  match batch, hbatch with
  | [], _ => rfl
  | [login], _ => rfl
  | _ :: _ :: _, hbatch =>
      simp only [List.length_cons] at hbatch
      omega

theorem servesUpTo (selectUser : SelectUser) :
    ServesUpTo 1 (readCallback .big selectUser).onQueue relayedBytes (answer selectUser) := by
  rw [readCallback_onQueue]
  apply ServesUpTo.of_takesFront
  · exact fun login => login.2.takesFront_relayed login.1 selectUser
  · rw [messageCb_queue selectUser (by decide), if_neg (by decide)]

theorem relayed_sizes_pos (logins : List (Int64 × Login)) :
    ∀ size ∈ logins.map fun login => (relayedBytes login).length, 0 < size := by
  intro size hsize
  obtain ⟨login, -, rfl⟩ := List.mem_map.mp hsize
  rw [relayedBytes, Login.length_relayed]
  omega

/-- On a big-endian machine, however relayed logins are cut: the replies are those to the first
`n` of them, and `n` is the least over all moments of the logins that had arrived whole by then and
the number of read events from there on. -/
theorem replies_are_served (selectUser : SelectUser) (logins : List (Int64 × Login))
    (chunks : List (List UInt8)) (hne : ∀ chunk ∈ chunks, chunk ≠ [])
    (hstream : chunks.flatten <+: logins.flatMap relayedBytes)
    (hreads : Along (Receiver.step (readCallback .big selectUser).onBuffer) Receiver.Readable
      .init (chunks.map .data))
    (hfits : Along (Receiver.step (readCallback .big selectUser).onBuffer) Receiver.Fits .init
      (chunks.map .data)) :
    ∃ s n, run (Receiver.step (readCallback .big selectUser).onBuffer) .init
        (chunks.map .data) = some s ∧ s.traced.Clean ∧
      LoginSystem.wireBytes (s.returned.flatMap Prod.snd) =
        some ((logins.take n).map (replyFrame selectUser)) ∧
      chunks.flatten = (logins.take n).flatMap relayedBytes ++ s.traced.unread ∧
      ∀ m, m ≤ n ↔ ∀ j ≤ chunks.length,
        m ≤ arrivals (logins.map fun login => (relayedBytes login).length) chunks j +
          (chunks.length - j) := by
  obtain ⟨s, batches, hrun, hsound, -, hsplit, hreturned, hbatches, hrate⟩ :=
    Receiver.run_serves (servesUpTo selectUser) logins chunks hne hstream hreads hfits rfl
  refine ⟨s, _, hrun, hsound.clean, ?_, hsplit, fun m => ?_⟩
  · rw [hreturned, flatMap_batches Prod.snd (fun login : Int64 × Login =>
      [reply .big login.1 (selectUser login.2.name login.2.pass)]) (emitted_of_batch selectUser)
      batches hrate, hbatches]
    apply wireBytes_flatMap
    intro login _
    obtain ⟨buf, hbuf, -, hunread⟩ :=
      reply_spec .big login.1 (selectUser login.2.name login.2.pass)
    exact ⟨buf, hbuf, hunread⟩
  · exact le_served_frames_iff (relayed_sizes_pos logins) chunks m

/-- Two logins in one piece and no byte behind them: the second one is not answered. -/
theorem second_login_waits : ∃ s n,
    run (Receiver.step (readCallback .big fun _ _ => 7).onBuffer) .init
      [.data (relayedBytes (5, shortLogin) ++ relayedBytes (6, shortLogin))] = some s ∧
    s.traced.Clean ∧
    LoginSystem.wireBytes (s.returned.flatMap Prod.snd) =
      some (([(5, shortLogin), (6, shortLogin)].take n).map (replyFrame fun _ _ => 7)) ∧
    [relayedBytes (5, shortLogin) ++ relayedBytes (6, shortLogin)].flatten =
      ([(5, shortLogin), (6, shortLogin)].take n).flatMap relayedBytes ++ s.traced.unread ∧
    ∀ m, m ≤ n ↔ ∀ j ≤ 1, m ≤ arrivals ([(5, shortLogin), (6, shortLogin)].map fun login =>
      (relayedBytes login).length)
        [relayedBytes (5, shortLogin) ++ relayedBytes (6, shortLogin)] j + (1 - j) :=
  replies_are_served (fun _ _ => 7) [(5, shortLogin), (6, shortLogin)]
    [relayedBytes (5, shortLogin) ++ relayedBytes (6, shortLogin)] (by decide) (by decide)
    (by decide +kernel) (by decide +kernel)

end DataServer

/-! ## The echo server -/

namespace EchoServer

variable {m : Type → Type} [Monad m]

/-- `message_functor` of the example. It returns the buffer that it sends. -/
def messageFunctor (connBuf : ReceiveBuffer m) : m (Option Buffer) := do
  let str ← connBuf.readString 100
  return (Buffer.new Buffer.INITIAL_SIZE).appendString str

def readCallback (host : ByteOrder) : ReadCallback (Option Buffer) :=
  ⟨host, messageFunctor ReadProgram.connBuf⟩

theorem servesUpTo (host : ByteOrder) : ServesUpTo 100 (readCallback host).onQueue
    (fun b : UInt8 => [b]) fun str => (Buffer.new Buffer.INITIAL_SIZE).appendString str where
  serves bytes p hp _ := by
    have hnil : p = [] := by
      rcases hp with hnil | ⟨b, -, hshort⟩
      · exact hnil
      · rw [List.length_singleton, Nat.lt_one_iff] at hshort
        exact List.eq_nil_of_length_eq_zero hshort
    simp only [hnil, List.append_nil, List.flatMap_singleton']
    rfl

theorem wireBytes_echoes (batches : List (List UInt8))
    (hrate : ∀ batch ∈ batches, batch.length ≤ 100) :
    LoginSystem.wireBytes
      (batches.map fun str => (Buffer.new Buffer.INITIAL_SIZE).appendString str) =
        some batches := by
  induction batches with
  | nil => rfl
  | cons batch batches ih =>
      obtain ⟨hfirst, hrest⟩ := List.forall_mem_cons.mp hrate
      obtain ⟨buf, hbuf, -, hunread⟩ := DataServer.foldlM_new [batch] (by simp; omega)
      have happend : (Buffer.new Buffer.INITIAL_SIZE).appendString batch = some buf := by
        rw [Buffer.appendString_eq_append batch (by omega)]
        simpa using hbuf
      have hmap := ih hrest
      rw [LoginSystem.wireBytes] at hmap ⊢
      rw [List.map_cons, List.mapM_cons, happend, hmap, Option.map_some, hunread]
      simp

theorem arrivals_bytes {stream : List UInt8} {chunks : List (List UInt8)}
    (hstream : chunks.flatten.length ≤ stream.length) (j : ℕ) :
    arrivals (stream.map fun _ => 1) chunks j = (chunks.take j).flatten.length := by
  have hle : (chunks.take j).flatten.length ≤ chunks.flatten.length := by
    rw [← List.take_append_drop j chunks, List.flatten_append, List.length_append,
      List.take_append_drop]
    exact Nat.le_add_right _ _
  rw [arrivals, List.map_const', complete_bytes, Nat.min_eq_right (hle.trans hstream)]

theorem le_served_bytes_iff {stream : List UInt8} {chunks : List (List UInt8)}
    (hstream : chunks.flatten.length ≤ stream.length) (m : ℕ) :
    m ≤ served 100 (arrivals (stream.map fun _ => 1) chunks) chunks.length ↔
      ∀ j ≤ chunks.length,
        m ≤ (chunks.take j).flatten.length + 100 * (chunks.length - j) := by
  have hzero : arrivals (stream.map fun _ => 1) chunks 0 = 0 := by
    rw [arrivals_bytes hstream]
    rfl
  rw [le_served_iff hzero]
  simp only [arrivals_bytes hstream]

/-- However a stream is cut: what has been echoed are its first `n` bytes in pieces of up to 100,
and `n` is the least over all moments of what had arrived by then and 100 bytes for every read
event from there on. -/
theorem echo_is_served (host : ByteOrder) (chunks : List (List UInt8))
    (hne : ∀ chunk ∈ chunks, chunk ≠ [])
    (hreads : Along (Receiver.step (readCallback host).onBuffer) Receiver.Readable .init
      (chunks.map .data))
    (hfits : Along (Receiver.step (readCallback host).onBuffer) Receiver.Fits .init
      (chunks.map .data)) :
    ∃ (s : Receiver (Option Buffer)) (echoed : List (List UInt8)) (n : ℕ),
      run (Receiver.step (readCallback host).onBuffer) .init (chunks.map .data) = some s ∧
      s.traced.Clean ∧ LoginSystem.wireBytes s.returned = some echoed ∧
      (∀ piece ∈ echoed, piece.length ≤ 100) ∧ echoed.flatten = chunks.flatten.take n ∧
      s.traced.unread = chunks.flatten.drop n ∧
      ∀ m, m ≤ n ↔ ∀ j ≤ chunks.length,
        m ≤ (chunks.take j).flatten.length + 100 * (chunks.length - j) := by
  have hstream : chunks.flatten <+: chunks.flatten.flatMap fun b => [b] := by
    simpa only [List.flatMap_singleton'] using List.prefix_refl chunks.flatten
  obtain ⟨s, batches, hrun, hsound, -, hsplit, hreturned, hbatches, hrate⟩ :=
    Receiver.run_serves (servesUpTo host) chunks.flatten chunks hne hstream hreads hfits rfl
  refine ⟨s, batches, _, hrun, hsound.clean, ?_, hrate, hbatches, ?_, fun m => ?_⟩
  · rw [hreturned]
    exact wireBytes_echoes batches hrate
  · rw [List.flatMap_singleton'] at hsplit
    exact (List.append_cancel_left ((List.take_append_drop _ _).trans hsplit)).symm
  · exact le_served_bytes_iff le_rfl m

def twoPieces : List (List UInt8) := [[1, 1], [2]]

theorem two_pieces_are_echoed : ∃ (s : Receiver (Option Buffer)) (echoed : List (List UInt8))
    (n : ℕ), run (Receiver.step (readCallback .little).onBuffer) .init (twoPieces.map .data) =
        some s ∧
    s.traced.Clean ∧ LoginSystem.wireBytes s.returned = some echoed ∧
    (∀ piece ∈ echoed, piece.length ≤ 100) ∧ echoed.flatten = twoPieces.flatten.take n ∧
    s.traced.unread = twoPieces.flatten.drop n ∧
    ∀ m, m ≤ n ↔ ∀ j ≤ twoPieces.length,
      m ≤ (twoPieces.take j).flatten.length + 100 * (twoPieces.length - j) :=
  echo_is_served .little twoPieces (by decide) (by decide) (by decide)

end EchoServer
end TinyGameServer
