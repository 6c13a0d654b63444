import TinyGameServer.HandlerBounds

/-!
# The length of a relayed frame

For the login message of an authorized client the gate adds the size of a serial id to the
client's length, which is signed addition, and sends as much of the value as is buffered. The
sum is right if the client's length counts itself and the value, and the value is all that is
left in the buffer.
-/

namespace TinyGameServer.GateServer

variable {host : ByteOrder}

theorem unread_relayFrame {serialId : Int64} {len : Int32} {value : List UInt8} {buf : Buffer}
    (hvalue : value.length < 2 ^ 32) (h : relayFrame host serialId len value = some buf) :
    buf.unread = Buffer.int8Bytes (ascii 'l') ++ Buffer.int32Bytes host (len + 8) ++
      Buffer.int64Bytes host serialId ++ value := by
  have hnew := Buffer.new_ordered Buffer.INITIAL_SIZE
  simp only [relayFrame, Buffer.appendInt8, Buffer.appendInt32, Buffer.appendInt64,
    Option.bind_eq_bind, Option.bind_eq_some_iff] at h
  obtain ⟨b₁, h₁, b₂, h₂, b₃, h₃, h⟩ := h
  obtain ⟨hord₁, hunread₁⟩ := Buffer.append_eq_some hnew h₁
  obtain ⟨hord₂, hunread₂⟩ := Buffer.append_eq_some hord₁ h₂
  obtain ⟨hord₃, hunread₃⟩ := Buffer.append_eq_some hord₂ h₃
  rw [Buffer.appendString_eq_append value hvalue] at h
  rw [(Buffer.append_eq_some hord₃ h).2, hunread₃, hunread₂, hunread₁, Buffer.unread_new, List.nil_append]

/-- The length field of the relayed frame, and what the frame is long. -/
theorem relayFrame_spec {serialId : Int64} {len : Int32} {value : List UInt8} {buf : Buffer}
    (hvalue : value.length < 2 ^ 32) (h : relayFrame host serialId len value = some buf) :
    netField buf.unread 1 = (len.toUInt32.toNat + 8) % 2 ^ 32 ∧
      buf.unread.length = 13 + value.length := by
  have hunread := unread_relayFrame hvalue h
  have hsum : (len + 8).toUInt32.toNat = (len.toUInt32.toNat + 8) % 2 ^ 32 := by
    rw [Int32.toUInt32_add, UInt32.toNat_add]
    rfl
  constructor
  · have hfield := (len + 8).toUInt32.toNat_lt
    rw [hunread, int32Bytes_eq, List.append_assoc, List.append_assoc,
      netField_append (by rfl) hfield, hsum]
  · rw [hunread]
    simp only [List.length_append, Buffer.int8Bytes, Buffer.int32Bytes, Buffer.int64Bytes,
      ByteOrder.length_toBytes, List.length_singleton]

theorem sent_is_relayFrame {b : Buffer} (hb : b.Ordered) {serialId : Int64}
    {status : Option BufferStatus} {sent : List (Option Buffer)} {s : Traced} {buf : Buffer}
    (hrun : messageCb host (onBuffer host) true serialId (Traced.start b) =
      some ((status, sent), s)) (hsent : some buf ∈ sent) :
    Accepts host 5 b.unread ∧ relayFrame host serialId
      (Buffer.decodeInt32 host ((b.unread.drop 1).take 4))
      ((b.unread.drop 5).take (netField b.unread 1)) = some buf := by
  have hqueue := @messageCb_queue host _ b.length_unread_lt serialId
  have agrees : ∀ {status' sent' t}, messageCb host (onQueue host) true serialId b.unread =
      some ((status', sent'), t) → sent' = sent := by
    intro status' sent' t hq
    obtain ⟨s', hs', -, -⟩ := (messageCb_simulates (onBuffer_simulated host) true serialId).agrees
      (Traced.start b) _ t (Traced.start_clean hb) hq
    cases hs'.symm.trans hrun
    rfl
  by_cases haccept : Accepts host 5 b.unread
  · rw [if_pos haccept] at hqueue
    by_cases htag : tagOf host b.unread = ascii 'l'
    · rw [relayLogin_login haccept.1 htag] at hqueue
      rw [← agrees hqueue, List.mem_singleton] at hsent
      exact ⟨haccept, hsent.symm⟩
    · rw [relayLogin_other (by have := haccept.1; omega) htag] at hqueue
      rw [← agrees hqueue] at hsent
      cases hsent
  · rw [if_neg haccept] at hqueue
    rw [← agrees hqueue] at hsent
    cases hsent

/-- The length field of a frame that the gate sends equals the number of bytes after its tag if
and only if the client's length field equals the number of bytes buffered after the client's
tag. -/
theorem relayed_length_iff (host : ByteOrder) (serialId : Int64) (b : Buffer) (hb : b.Ordered)
    (status : Option BufferStatus) (sent : List (Option Buffer)) (s : Traced) (buf : Buffer)
    (hrun : messageCb host (onBuffer host) true serialId (Traced.start b) =
      some ((status, sent), s)) (hsent : some buf ∈ sent) :
    netField buf.unread 1 = buf.unread.length - 1 ↔
      netField b.unread 1 = b.unread.length - 1 := by
  obtain ⟨haccept, hframe⟩ := sent_is_relayFrame hb hrun hsent
  have hmin : 5 ≤ b.unread.length := haccept.1
  have hlt := b.length_unread_lt
  have hfield : netField b.unread 1 < 2 ^ 32 := ofBytes_field_lt _ _
  have hvalue : ((b.unread.drop 5).take (netField b.unread 1)).length =
      min (netField b.unread 1) (b.unread.length - 5) := by
    rw [List.length_take, List.length_drop]
  obtain ⟨hlen, htotal⟩ := relayFrame_spec (by omega) hframe
  have hbuf := buf.length_unread_lt
  rw [hlen, htotal, hvalue, toNat_decodeInt32 host b.unread 1 (by omega)]
  omega

theorem relayed_length_alone :
    ∃ status sent s buf, messageCb .big (onBuffer .big) true 1
        (Traced.start (received [108, 0, 0, 0, 5, 120])) = some ((status, sent), s) ∧
      some buf ∈ sent ∧ (netField buf.unread 1 = buf.unread.length - 1 ↔
        netField (received [108, 0, 0, 0, 5, 120]).unread 1 =
          (received [108, 0, 0, 0, 5, 120]).unread.length - 1) := by
  have hrun : ∃ status sent s buf, messageCb .big (onBuffer .big) true 1
      (Traced.start (received [108, 0, 0, 0, 5, 120])) = some ((status, sent), s) ∧
      some buf ∈ sent := ⟨_, _, _, _, rfl, List.mem_singleton_self _⟩
  obtain ⟨status, sent, s, buf, hrun, hsent⟩ := hrun
  exact ⟨status, sent, s, buf, hrun, hsent, relayed_length_iff .big 1 _ ⟨by decide, by decide⟩
    status sent s buf hrun hsent⟩

/-- A header of zeros: the frame says 8, and 12 bytes follow its tag. -/
theorem zero_length_relayed :
    ∃ status sent s buf, messageCb .little (onBuffer .little) true 1
        (Traced.start (received [108, 0, 0, 0, 0])) = some ((status, sent), s) ∧
      some buf ∈ sent ∧ netField buf.unread 1 = 8 ∧ buf.unread.length - 1 = 12 :=
  ⟨_, _, _, _, rfl, List.mem_singleton_self _, by decide, by decide⟩

end TinyGameServer.GateServer
