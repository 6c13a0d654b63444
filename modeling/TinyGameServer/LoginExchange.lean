import TinyGameServer.Exchange

/-!
# Logins between the gate and the data server

The exchange over `db` on big-endian machines: the gate relays the logins of all its clients, and
the two callbacks take at most one frame for each read event. Whatever comes between the events of
the two machines, the gate takes over the results of the first logins, in the order in which it
relayed them.
-/

namespace TinyGameServer

open BoundedService

namespace DataServer

def server (selectUser : SelectUser) : Server (BufferStatus × List (Option Buffer)) where
  readCb := readCallback .big selectUser
  sends := Prod.snd

theorem server_replies (selectUser : SelectUser) :
    Replies 1 (server selectUser) relayedBytes (replyFrame selectUser) (answer selectUser) where
  serves := servesUpTo selectUser
  sends batch hlen := by
    have hsends := emitted_of_batch selectUser batch hlen
    match batch, hlen with
    | [], _ => exact ⟨[], hsends, fun _ h => absurd h List.not_mem_nil, rfl⟩
    | [login], _ =>
        obtain ⟨buf, hbuf, hord, hunread⟩ :=
          reply_spec .big login.1 (selectUser login.2.name login.2.pass)
        refine ⟨[buf], ?_, fun b hb => List.mem_singleton.mp hb ▸ hord, ?_⟩
        · apply hsends.trans
          rw [List.flatMap_singleton, hbuf]
          rfl
        · rw [List.flatMap_singleton, List.flatMap_singleton, hunread]
          rfl
    | _ :: _ :: _, hlen =>
        simp only [List.length_cons] at hlen
        omega

end DataServer

namespace GateServer

def successBytes (granted : Int64 × Int64) : List UInt8 :=
  DataServer.successFrame .big granted.1 granted.2

def grantAnswer (granted : List (Int64 × Int64)) : BufferStatus × Option (Int64 × Int64) :=
  (granted.head?.map fun g => (.READ_SUCCESS, some g)).getD (.READ_INCOMPLETE, none)

theorem db_servesUpTo : ServesUpTo 1 (dbReadCallback .big).onQueue successBytes grantAnswer := by
  rw [dbReadCallback_onQueue]
  apply ServesUpTo.of_takesFront
  · exact fun granted => takesFront_success granted.1 granted.2
  · rw [dbMessageCb_queue (by decide), if_neg (by decide)]

theorem granted_of_batch (batch : List (Int64 × Int64)) (hbatch : batch.length ≤ 1) :
    (grantAnswer batch).2.toList = batch.flatMap fun g => [g] := by
  match batch, hbatch with
  | [], _ => rfl
  | [granted], _ => rfl
  | _ :: _ :: _, hbatch =>
      simp only [List.length_cons] at hbatch
      omega

end GateServer

namespace LoginExchange

variable {selectUser : SelectUser} {logins : List (Int64 × Login)}

def granted (selectUser : SelectUser) (login : Int64 × Login) : Int64 × Int64 :=
  (login.1, selectUser login.2.name login.2.pass)

theorem replyFrames_of_accepted
    (haccepted : ∀ login ∈ logins, selectUser login.2.name login.2.pass ≠ -1) :
    logins.flatMap (DataServer.replyFrame selectUser) =
      (logins.map (granted selectUser)).flatMap GateServer.successBytes := by
  rw [List.flatMap_map]
  apply List.flatMap_congr
  intro login hlogin
  exact if_neg (haccepted login hlogin)

theorem success_sizes (logins : List (Int64 × Login)) :
    ((logins.map (granted selectUser)).map fun g => (GateServer.successBytes g).length) =
      logins.map fun _ => 21 := by
  rw [List.map_map]
  apply List.map_congr_left
  intro login _
  exact length_successFrame _ _

/-- In every run without an overflow in which all credentials are accepted: the data server has
answered the first `n` relayed logins, the gate has taken over the first `m` of the replies, and
everything else is on its way. Each of the two callbacks has got as far as one frame for each read
event allows. -/
theorem logins_taken_over (selectUser : SelectUser) (logins : List (Int64 × Login))
    (haccepted : ∀ login ∈ logins, selectUser login.2.name login.2.pass ≠ -1)
    {actions : List Exchange.Action}
    {s : Exchange (BufferStatus × List (Option Buffer)) (BufferStatus × Option (Int64 × Int64))}
    (hrun : run (Exchange.step (DataServer.server selectUser) (GateServer.dbReadCallback .big))
      .init actions = some s)
    (hfits : Along (Exchange.step (DataServer.server selectUser) (GateServer.dbReadCallback .big))
      (Exchange.Fits (DataServer.server selectUser)) .init actions)
    (hsent : s.up.sent <+: logins.flatMap DataServer.relayedBytes) :
    ∃ (n m : ℕ) (waiting : List Buffer),
      s.up.sent = (logins.take n).flatMap DataServer.relayedBytes ++
        (s.up.rx.traced.unread ++ s.up.wire ++ s.up.backlog) ∧
      s.pending (DataServer.server selectUser) = waiting.map some ∧
      ((logins.take n).drop m).flatMap (DataServer.replyFrame selectUser) =
        s.down.rx.traced.unread ++ s.down.wire ++ s.down.backlog ++
          waiting.flatMap Buffer.unread ∧
      s.down.rx.returned.filterMap Prod.snd =
        ((logins.take n).take m).map (granted selectUser) ∧
      (∀ k, k ≤ n ↔ ∀ j ≤ s.up.chunks.length, k ≤ arrivals (logins.map fun login =>
        (DataServer.relayedBytes login).length) s.up.chunks j + (s.up.chunks.length - j)) ∧
      ∀ k, k ≤ m ↔ ∀ j ≤ s.down.chunks.length, k ≤ arrivals ((logins.take n).map fun _ => 21)
        s.down.chunks j + (s.down.chunks.length - j) := by
  have hsound := Exchange.run_sound (DataServer.server_replies selectUser) hrun hfits hsent
  obtain ⟨hup, waiting, hwaiting, hdown⟩ :=
    hsound.served (DataServer.server_replies selectUser) hsent rfl
  generalize hn : served 1 (arrivals (logins.map fun login =>
    (DataServer.relayedBytes login).length) s.up.chunks) s.up.chunks.length = n at hup hdown
  have haccepted' : ∀ login ∈ logins.take n, selectUser login.2.name login.2.pass ≠ -1 :=
    fun login hlogin => haccepted login (List.mem_of_mem_take hlogin)
  have hreplies := replyFrames_of_accepted haccepted'
  have hpre : s.down.received <+:
      ((logins.take n).map (granted selectUser)).flatMap GateServer.successBytes := by
    rw [← hreplies, hdown, List.append_assoc, List.append_assoc]
    exact List.prefix_append _ _
  obtain ⟨t, batches, ht, -, -, hsplit, hreturned, hbatches, hrate⟩ :=
    Receiver.run_serves GateServer.db_servesUpTo _ s.down.chunks hsound.down.filled hpre
      hsound.down.reads hsound.down.fits rfl
  rw [hsound.down.rx] at ht
  cases ht
  rw [success_sizes] at hsplit hbatches
  generalize hm : served 1 (arrivals ((logins.take n).map fun _ => 21) s.down.chunks)
    s.down.chunks.length = m at hsplit hbatches
  have htaken : ((logins.take n).take m).flatMap (DataServer.replyFrame selectUser) =
      (((logins.take n).map (granted selectUser)).take m).flatMap GateServer.successBytes := by
    rw [← List.map_take]
    exact replyFrames_of_accepted fun login hlogin =>
      haccepted' login (List.mem_of_mem_take hlogin)
  refine ⟨n, m, waiting, hup, hwaiting, ?_, ?_, fun k => ?_, fun k => ?_⟩
  · rw [Link.received, hsplit, ← htaken] at hdown
    conv_lhs at hdown => rw [← List.take_append_drop m (logins.take n), List.flatMap_append]
    simp only [List.append_assoc] at hdown ⊢
    exact List.append_cancel_left hdown
  · have hemitted := flatMap_batches (fun r : BufferStatus × Option (Int64 × Int64) => r.2.toList)
      (fun g => [g]) GateServer.granted_of_batch batches hrate
    rw [hreturned, List.filterMap_eq_flatMap_toList]
    rw [hemitted, hbatches, List.flatMap_singleton']
    simp only [List.map_take]
  · rw [← hn]
    exact le_served_frames_iff (DataServer.relayed_sizes_pos logins) s.up.chunks k
  · rw [← hm]
    apply le_served_frames_iff
    intro size hsize
    obtain ⟨login, -, rfl⟩ := List.mem_map.mp hsize
    exact Nat.succ_pos 20

def sameTwice : List (Int64 × Login) := [(5, shortLogin), (5, shortLogin)]

def shortRelay : OwnBuffer where
  buffer :=
    { capacity := 64
      block := ⟨fun i => (DataServer.relayedBytes (5, shortLogin)).getD i 0⟩
      readIndex := 0
      writeIndex := 23 }
  ordered := ⟨by decide, by decide⟩

/-- The second login arrives with the first one and waits. The reply arrives in two pieces. -/
def someLogins : List Exchange.Action :=
  [.request shortRelay (.accepted 23), .request shortRelay (.accepted 23),
    .requestWritable (.accepted 23), .requestReadable 46, .reply (.accepted 10), .replyReadable 7,
    .replyWritable (.accepted 11), .replyReadable 14]

theorem some_logins_taken_over :
    ∃ s, run (Exchange.step (DataServer.server fun _ _ => 7) (GateServer.dbReadCallback .big))
      .init someLogins = some s ∧
    ∃ (n m : ℕ) (waiting : List Buffer),
      s.up.sent = (sameTwice.take n).flatMap DataServer.relayedBytes ++
        (s.up.rx.traced.unread ++ s.up.wire ++ s.up.backlog) ∧
      s.pending (DataServer.server fun _ _ => 7) = waiting.map some ∧
      ((sameTwice.take n).drop m).flatMap (DataServer.replyFrame fun _ _ => 7) =
        s.down.rx.traced.unread ++ s.down.wire ++ s.down.backlog ++
          waiting.flatMap Buffer.unread ∧
      s.down.rx.returned.filterMap Prod.snd =
        ((sameTwice.take n).take m).map (granted fun _ _ => 7) ∧
      (∀ k, k ≤ n ↔ ∀ j ≤ s.up.chunks.length, k ≤ arrivals (sameTwice.map fun login =>
        (DataServer.relayedBytes login).length) s.up.chunks j + (s.up.chunks.length - j)) ∧
      ∀ k, k ≤ m ↔ ∀ j ≤ s.down.chunks.length, k ≤ arrivals ((sameTwice.take n).map fun _ => 21)
        s.down.chunks j + (s.down.chunks.length - j) := by
  have hdefined : ((run (Exchange.step (DataServer.server fun _ _ => 7)
      (GateServer.dbReadCallback .big)) .init someLogins).any fun s =>
        decide (s.up.sent <+: sameTwice.flatMap DataServer.relayedBytes)) = true := by
    decide +kernel
  obtain ⟨s, hs, hsent⟩ := (Option.any_eq_true _ _).mp hdefined
  exact ⟨s, hs, logins_taken_over (fun _ _ => 7) sameTwice (by decide) hs (by decide +kernel)
    (of_decide_eq_true hsent)⟩

end LoginExchange
end TinyGameServer
