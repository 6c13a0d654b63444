import TinyGameServer.DataServer
import TinyGameServer.GateServer

/-!
# Do the handlers stay inside the received data?

`StaysInside` is one invocation of a handler on a buffer of arbitrary contents: every byte read
lies in the unread region of its moment, and the indices are in order at the end. By simulation
this is the question whether the run on the ideal queue is defined, which the two database
handlers only are if the fields behind the guard have arrived.
-/

namespace TinyGameServer

def StaysInside {α : Type} (handler : StateT Traced Option α) (b : Buffer) : Prop :=
  ∃ a s, handler (Traced.start b) = some (a, s) ∧ s.Clean

theorem staysInside_iff_isSome {α : Type} {handler : StateT Traced Option α}
    {q : StateT (List UInt8) Option α} (h : BufferSimulates handler q) {b : Buffer}
    (hb : b.Ordered) : StaysInside handler b ↔ (q b.unread).isSome :=
  h.ok_iff_isSome Traced.Strayed.not_clean (Traced.start_clean hb)

theorem Buffer.length_unread_lt (b : Buffer) : b.unread.length < 2 ^ 32 := by
  rw [length_unread]
  exact b.getLength.toNat_lt

variable {host : ByteOrder} {b : Buffer}

theorem DataServer.messageCb_staysInside (hb : b.Ordered) (selectUser : SelectUser) :
    StaysInside (messageCb host (onBuffer host) selectUser) b ↔
      (Accepts host 13 b.unread → tagOf host b.unread = ascii 'l' →
        21 + nameLen b.unread ≤ b.unread.length) := by
  rw [staysInside_iff_isSome (messageCb_simulates (onBuffer_simulated host) selectUser) hb,
    messageCb_queue selectUser b.length_unread_lt]
  by_cases haccept : Accepts host 13 b.unread
  · rw [if_pos haccept]
    have hmin : 13 ≤ b.unread.length := haccept.1
    by_cases htag : tagOf host b.unread = ascii 'l'
    · simp only [haccept, htag, forall_const]
      by_cases hlen : 21 + nameLen b.unread ≤ b.unread.length
      · rw [switchTag_login selectUser hlen htag]
        exact iff_of_true rfl hlen
      · rw [switchTag_short selectUser hmin (by omega) htag]
        exact iff_of_false Bool.false_ne_true hlen
    · rw [switchTag_other selectUser (by omega) htag]
      exact iff_of_true rfl fun _ h => absurd h htag
  · rw [if_neg haccept]
    exact iff_of_true rfl fun h => absurd h haccept

theorem GateServer.dbMessageCb_staysInside (hb : b.Ordered) :
    StaysInside (dbMessageCb (onBuffer host)) b ↔
      (Accepts host 13 b.unread → tagOf host b.unread = ascii 's' → 21 ≤ b.unread.length) := by
  rw [staysInside_iff_isSome (dbMessageCb_simulates (onBuffer_simulated host)) hb,
    dbMessageCb_queue b.length_unread_lt]
  by_cases haccept : Accepts host 13 b.unread
  · rw [if_pos haccept]
    have hmin : 13 ≤ b.unread.length := haccept.1
    by_cases htag : tagOf host b.unread = ascii 's'
    · simp only [haccept, htag, forall_const]
      by_cases hlen : 21 ≤ b.unread.length
      · rw [readLogin_success hlen htag]
        exact iff_of_true rfl hlen
      · rw [readLogin_short hmin (by omega) htag]
        exact iff_of_false Bool.false_ne_true hlen
    · rw [readLogin_other (by omega) htag]
      exact iff_of_true rfl fun _ h => absurd h htag
  · rw [if_neg haccept]
    exact iff_of_true rfl fun h => absurd h haccept

/-- `ReadString` clamps to what is buffered, and nothing is read after it. -/
theorem GateServer.messageCb_staysInside (hb : b.Ordered) (serialId : Int64) :
    StaysInside (messageCb host (onBuffer host) true serialId) b := by
  rw [staysInside_iff_isSome (messageCb_simulates (onBuffer_simulated host) true serialId) hb,
    messageCb_queue b.length_unread_lt]
  by_cases haccept : Accepts host 5 b.unread
  · rw [if_pos haccept]
    have hmin : 5 ≤ b.unread.length := haccept.1
    by_cases htag : tagOf host b.unread = ascii 'l'
    · rw [relayLogin_login hmin htag]
      rfl
    · rw [relayLogin_other (by omega) htag]
      rfl
  · rw [if_neg haccept]
    rfl

/-- The exact contents on which each handler stays inside. The length test compares the whole
buffer with a length in the wrong byte order, and the inner lengths are not tested at all. -/
theorem handlers_stay_inside_iff (host : ByteOrder) (selectUser : SelectUser) (serialId : Int64)
    (b : Buffer) (hb : b.Ordered) :
    (StaysInside (DataServer.messageCb host (onBuffer host) selectUser) b ↔
      (Accepts host 13 b.unread → tagOf host b.unread = ascii 'l' →
        21 + DataServer.nameLen b.unread ≤ b.unread.length)) ∧
    (StaysInside (GateServer.dbMessageCb (onBuffer host)) b ↔
      (Accepts host 13 b.unread → tagOf host b.unread = ascii 's' → 21 ≤ b.unread.length)) ∧
    StaysInside (GateServer.messageCb host (onBuffer host) true serialId) b :=
  ⟨DataServer.messageCb_staysInside hb selectUser, GateServer.dbMessageCb_staysInside hb,
    GateServer.messageCb_staysInside hb serialId⟩

def received (bytes : List UInt8) : Buffer :=
  { capacity := 8192, block := ⟨fun i => bytes[i]?.getD 0⟩, readIndex := 0,
    writeIndex := UInt32.ofNat bytes.length }

/-- The login of `a` with the password `b` as connection 1, a complete frame of 23 bytes. -/
def completeLogin : List UInt8 :=
  [108, 0, 0, 0, 22, 0, 0, 0, 0, 0, 0, 0, 1, 0, 0, 0, 1, 97, 0, 0, 0, 1, 98]

/-- The reply that the user id of connection 1 is 7, a complete frame of 21 bytes. -/
def completeSuccess : List UInt8 :=
  [115, 0, 0, 0, 20, 0, 0, 0, 0, 0, 0, 0, 1, 0, 0, 0, 0, 0, 0, 0, 7]

theorem complete_frames_stay_inside :
    StaysInside (DataServer.messageCb .big (onBuffer .big) fun _ _ => 7) (received completeLogin) ∧
    StaysInside (GateServer.dbMessageCb (onBuffer .big)) (received completeSuccess) ∧
    StaysInside (GateServer.messageCb .big (onBuffer .big) true 1) (received completeLogin) := by
  have hlogin := handlers_stay_inside_iff .big (fun _ _ => 7) 1 (received completeLogin)
    ⟨by decide, by decide⟩
  have hsuccess := handlers_stay_inside_iff .big (fun _ _ => 7) 1 (received completeSuccess)
    ⟨by decide, by decide⟩
  exact ⟨hlogin.1.mpr fun _ _ => by decide, hsuccess.2.1.mpr fun _ _ => by decide, hlogin.2.2⟩

/-- Thirteen bytes with the tag of a login, or of a success reply, and nothing but zeros: the
guard passes, and the next fields are read from behind the received bytes. -/
theorem short_frames_leave_the_data :
    (received (108 :: List.replicate 12 0)).Ordered ∧
    ¬ StaysInside (DataServer.messageCb .little (onBuffer .little) fun _ _ => -1)
      (received (108 :: List.replicate 12 0)) ∧
    (received (115 :: List.replicate 12 0)).Ordered ∧
    ¬ StaysInside (GateServer.dbMessageCb (onBuffer .little))
      (received (115 :: List.replicate 12 0)) := by
  have hlogin : (received (108 :: List.replicate 12 0)).Ordered := ⟨by decide, by decide⟩
  have hsuccess : (received (115 :: List.replicate 12 0)).Ordered := ⟨by decide, by decide⟩
  refine ⟨hlogin, fun h => ?_, hsuccess, fun h => ?_⟩
  · have hlen := (DataServer.messageCb_staysInside hlogin _).mp h (by decide) (by decide)
    exact absurd hlen (by decide)
  · have hlen := (GateServer.dbMessageCb_staysInside hsuccess).mp h (by decide) (by decide)
    exact absurd hlen (by decide)

end TinyGameServer
