import TinyGameServer.CutIndependence
import TinyGameServer.DataServer
import TinyGameServer.GateServer

/-!
# TCP segmentation

`HandleRead` appends what one read event brings and calls the message callback once. On an ideal
receive buffer both database handlers are framings: they wait until the completeness test passes
and then take one frame. Every invocation that does not answer `READ_INCOMPLETE` has parsed the
bytes it consumed.
-/

namespace TinyGameServer

/-- One run of a callback: the bytes of the frame it has parsed, if any, and what it has sent or
granted. -/
def invocation {β : Type} (handler : StateT (List UInt8) Option (BufferStatus × β))
    (q : List UInt8) : Option (Option (List UInt8 × β) × List UInt8) :=
  (handler q).map fun r =>
    (if r.1.1 = .READ_INCOMPLETE then none else some (q.take (q.length - r.2.length), r.1.2), r.2)

theorem take_consumed (q : List UInt8) (n : ℕ) :
    q.take (q.length - (q.drop n).length) = q.take n := by
  rw [List.length_drop, Nat.sub_sub_eq_min, List.take_eq_take_iff]
  omega

theorem invocation_wait {β : Type} {handler : StateT (List UInt8) Option (BufferStatus × β)}
    {q : List UInt8} {effect : β} (h : handler q = some ((.READ_INCOMPLETE, effect), q)) :
    invocation handler q = some (none, q) := by
  rw [invocation, h]
  rfl

theorem invocation_act {β : Type} {handler : StateT (List UInt8) Option (BufferStatus × β)}
    {q : List UInt8} {status : BufferStatus} {effect : β} {n : ℕ}
    (h : handler q = some ((status, effect), q.drop n)) (hstatus : status ≠ .READ_INCOMPLETE) :
    invocation handler q = some (some (q.take n, effect), q.drop n) := by
  rw [invocation, h, Option.map_some]
  dsimp only
  rw [if_neg hstatus, take_consumed]

/-! ## Fields do not change when more bytes arrive -/

theorem field_append {q r : List UInt8} {off n : ℕ} (h : off + n ≤ q.length) :
    ((q ++ r).drop off).take n = (q.drop off).take n := by
  rw [List.drop_append_of_le_length (by omega),
    List.take_append_of_le_length (by rw [List.length_drop]; omega)]

variable {host : ByteOrder} {q : List UInt8} (r : List UInt8)

theorem tagOf_append (h : 1 ≤ q.length) : tagOf host (q ++ r) = tagOf host q := by
  rw [tagOf, tagOf, List.take_append_of_le_length h]

theorem netField_append_right {off : ℕ} (h : off + 4 ≤ q.length) :
    netField (q ++ r) off = netField q off := by
  rw [netField, netField, field_append h]

/-- The number of bytes at which the completeness test passes. -/
def completeAt (host : ByteOrder) (q : List UInt8) : ℕ := max 13 (peekLen host q + 1)

theorem completeAt_append (h : 13 ≤ q.length) : completeAt host (q ++ r) = completeAt host q := by
  rw [completeAt, completeAt, peekLen, peekLen, field_append (by omega)]

theorem accepts_iff_completeAt (host : ByteOrder) (q : List UInt8) :
    Accepts host 13 q ↔ completeAt host q ≤ q.length := by
  unfold Accepts completeAt
  omega

/-! ## The data server -/

namespace DataServer

/-- The fixed fields of a login have arrived. -/
def FieldsPresent (host : ByteOrder) (q : List UInt8) : Prop :=
  tagOf host q = ascii 'l' → 21 + nameLen q ≤ q.length

instance (host : ByteOrder) (q : List UInt8) : Decidable (FieldsPresent host q) := by
  unfold FieldsPresent
  infer_instance

def frameSize (host : ByteOrder) (q : List UInt8) : ℕ :=
  if tagOf host q = ascii 'l' then 21 + nameLen q + passLen q else 5 + netField q 1

def replies (host : ByteOrder) (selectUser : SelectUser) (q : List UInt8) :
    List (Option Buffer) :=
  if tagOf host q = ascii 'l' then
    [reply host (loginId host q) (selectUser (loginName q) (loginPass q))]
  else []

theorem nameLen_append (h : 17 ≤ q.length) : nameLen (q ++ r) = nameLen q :=
  netField_append_right r h

theorem passLen_append (h : 21 + nameLen q ≤ q.length) : passLen (q ++ r) = passLen q := by
  rw [passLen, nameLen_append r (by omega)]
  exact netField_append_right r (by omega)

theorem frameSize_append (hmin : 13 ≤ q.length) (h : FieldsPresent host q) :
    frameSize host (q ++ r) = frameSize host q := by
  rw [frameSize, frameSize, tagOf_append r (by omega)]
  by_cases htag : tagOf host q = ascii 'l'
  · have hlen := h htag
    rw [if_pos htag, if_pos htag, nameLen_append r (by omega), passLen_append r hlen]
  · rw [if_neg htag, if_neg htag, netField_append_right r (by omega)]

theorem replies_append (selectUser : SelectUser) (hmin : 13 ≤ q.length)
    (h : FieldsPresent host q) (hsize : frameSize host q ≤ q.length) :
    replies host selectUser (q ++ r) = replies host selectUser q := by
  rw [replies, replies, tagOf_append r (by omega)]
  by_cases htag : tagOf host q = ascii 'l'
  · have hlen := h htag
    rw [frameSize, if_pos htag] at hsize
    have hid : loginId host (q ++ r) = loginId host q := by
      rw [loginId, loginId, field_append (by omega)]
    have hname : loginName (q ++ r) = loginName q := by
      rw [loginName, loginName, nameLen_append r (by omega), field_append (by omega)]
    have hpass : loginPass (q ++ r) = loginPass q := by
      rw [loginPass, loginPass, nameLen_append r (by omega), passLen_append r hlen,
        field_append hsize]
    rw [if_pos htag, if_pos htag, hid, hname, hpass]
  · rw [if_neg htag, if_neg htag]

variable (host) (selectUser : SelectUser)

theorem invocation_of_accepts (hlt : q.length < 2 ^ 32) (haccept : Accepts host 13 q)
    (h : FieldsPresent host q) :
    invocation (messageCb host (onQueue host) selectUser) q =
      some (some (q.take (frameSize host q), replies host selectUser q),
        q.drop (frameSize host q)) := by
  have hqueue := @messageCb_queue host q selectUser hlt
  rw [if_pos haccept] at hqueue
  by_cases htag : tagOf host q = ascii 'l'
  · rw [switchTag_login selectUser (h htag) htag] at hqueue
    rw [frameSize, if_pos htag, replies, if_pos htag]
    exact invocation_act hqueue (by decide)
  · have hmin : 13 ≤ q.length := haccept.1
    rw [switchTag_other selectUser (by omega) htag] at hqueue
    rw [frameSize, if_neg htag, replies, if_neg htag]
    exact invocation_act hqueue (by decide)

def framing : Framing (invocation (messageCb host (onQueue host) selectUser)) (2 ^ 32) where
  header := 13
  need := completeAt host
  Defined := FieldsPresent host
  size := frameSize host
  event q := (q.take (frameSize host q), replies host selectUser q)
  header_pos := by decide
  header_le_need q := le_max_left _ _
  need_append q r h := completeAt_append r h
  defined_append q r hready h := by
    have hmin : 13 ≤ q.length := (le_max_left _ _).trans hready
    intro htag
    rw [tagOf_append r (by omega)] at htag
    have hlen := h htag
    rw [nameLen_append r (by omega), List.length_append]
    omega
  size_append q r hready h := frameSize_append r ((le_max_left _ _).trans hready) h
  event_append q r hready h hsize _ := by
    have hmin : 13 ≤ q.length := (le_max_left _ _).trans hready
    rw [frameSize_append r hmin h, replies_append r selectUser hmin h hsize,
      List.take_append_of_le_length hsize]
  handler_wait q hlt hwait := by
    have hqueue := @messageCb_queue host q selectUser hlt
    rw [if_neg (by rw [accepts_iff_completeAt]; omega)] at hqueue
    exact invocation_wait hqueue
  handler_act q hlt hready h :=
    invocation_of_accepts host selectUser hlt ((accepts_iff_completeAt host q).mpr hready) h
  handler_stuck q hlt hready h := by
    have hqueue := @messageCb_queue host q selectUser hlt
    have hmin : 13 ≤ q.length := (le_max_left _ _).trans hready
    obtain ⟨htag, hlen⟩ := Classical.not_imp.mp h
    rw [if_pos ((accepts_iff_completeAt host q).mpr hready),
      switchTag_short selectUser hmin (by omega) htag] at hqueue
    rw [invocation, hqueue, Option.map_none]

end DataServer

/-! ## The connection to the data server -/

namespace GateServer

def FieldsPresent (host : ByteOrder) (q : List UInt8) : Prop :=
  tagOf host q = ascii 's' → 21 ≤ q.length

instance (host : ByteOrder) (q : List UInt8) : Decidable (FieldsPresent host q) := by
  unfold FieldsPresent
  infer_instance

/-- Only of a frame with the tag `s` more than the tag is taken. -/
def frameSize (host : ByteOrder) (q : List UInt8) : ℕ :=
  if tagOf host q = ascii 's' then 21 else 1

def update (host : ByteOrder) (q : List UInt8) : Option (Int64 × Int64) :=
  if tagOf host q = ascii 's' then some (grant host q) else none

theorem update_append (hmin : 13 ≤ q.length) (h : FieldsPresent host q) :
    update host (q ++ r) = update host q := by
  rw [update, update, tagOf_append r (by omega)]
  by_cases htag : tagOf host q = ascii 's'
  · have hlen := h htag
    rw [if_pos htag, if_pos htag, grant, grant, field_append (by omega), field_append (by omega)]
  · rw [if_neg htag, if_neg htag]

variable (host)

theorem invocation_of_accepts (hlt : q.length < 2 ^ 32) (haccept : Accepts host 13 q)
    (h : FieldsPresent host q) :
    invocation (dbMessageCb (onQueue host)) q =
      some (some (q.take (frameSize host q), update host q), q.drop (frameSize host q)) := by
  have hqueue := @dbMessageCb_queue host q hlt
  rw [if_pos haccept] at hqueue
  by_cases htag : tagOf host q = ascii 's'
  · rw [readLogin_success (h htag) htag] at hqueue
    rw [frameSize, if_pos htag, update, if_pos htag]
    exact invocation_act hqueue (by decide)
  · have hmin : 13 ≤ q.length := haccept.1
    rw [readLogin_other (by omega) htag] at hqueue
    rw [frameSize, if_neg htag, update, if_neg htag]
    exact invocation_act hqueue (by decide)

def framing : Framing (invocation (dbMessageCb (onQueue host))) (2 ^ 32) where
  header := 13
  need := completeAt host
  Defined := FieldsPresent host
  size := frameSize host
  event q := (q.take (frameSize host q), update host q)
  header_pos := by decide
  header_le_need q := le_max_left _ _
  need_append q r h := completeAt_append r h
  defined_append q r hready h := by
    have hmin : 13 ≤ q.length := (le_max_left _ _).trans hready
    intro htag
    rw [tagOf_append r (by omega)] at htag
    have hlen := h htag
    rw [List.length_append]
    omega
  size_append q r hready h := by
    have hmin : 13 ≤ q.length := (le_max_left _ _).trans hready
    rw [frameSize, frameSize, tagOf_append r (by omega)]
  event_append q r hready h hsize _ := by
    have hmin : 13 ≤ q.length := (le_max_left _ _).trans hready
    have htag : tagOf host (q ++ r) = tagOf host q := tagOf_append r (by omega)
    rw [update_append r hmin h, frameSize, htag, ← frameSize, List.take_append_of_le_length hsize]
  handler_wait q hlt hwait := by
    have hqueue := @dbMessageCb_queue host q hlt
    rw [if_neg (by rw [accepts_iff_completeAt]; omega)] at hqueue
    exact invocation_wait hqueue
  handler_act q hlt hready h :=
    invocation_of_accepts host hlt ((accepts_iff_completeAt host q).mpr hready) h
  handler_stuck q hlt hready h := by
    have hqueue := @dbMessageCb_queue host q hlt
    have hmin : 13 ≤ q.length := (le_max_left _ _).trans hready
    obtain ⟨htag, hlen⟩ := Classical.not_imp.mp h
    rw [if_pos ((accepts_iff_completeAt host q).mpr hready),
      readLogin_short hmin (by omega) htag] at hqueue
    rw [invocation, hqueue, Option.map_none]

end GateServer

/-! ## Two runs over one stream -/

/-- For both handlers: any two ways of cutting the stream agree if every chunk completes at most
one frame, and that one arrives whole. All ways of cutting a stream agree exactly when the handler
acts at most once on it. -/
theorem segmentation_iff (host : ByteOrder) (selectUser : SelectUser) (stream : List UInt8) :
    (∀ cut₁ cut₂, IsCut stream cut₁ → IsCut stream cut₂ →
      (DataServer.framing host selectUser).Steady ([], []) cut₁ →
      (DataServer.framing host selectUser).Steady ([], []) cut₂ →
      Agree (invocation (DataServer.messageCb host (onQueue host) selectUser)) cut₁ cut₂) ∧
    (∀ cut₁ cut₂, IsCut stream cut₁ → IsCut stream cut₂ →
      (GateServer.framing host).Steady ([], []) cut₁ →
      (GateServer.framing host).Steady ([], []) cut₂ →
      Agree (invocation (GateServer.dbMessageCb (onQueue host))) cut₁ cut₂) ∧
    (stream.length < 2 ^ 32 →
      (CutIndependent (invocation (DataServer.messageCb host (onQueue host) selectUser)) stream ↔
        (DataServer.framing host selectUser).ActsOnce stream) ∧
      (CutIndependent (invocation (GateServer.dbMessageCb (onQueue host))) stream ↔
        (GateServer.framing host).ActsOnce stream)) := by
  refine ⟨?_, ?_, fun hlt => ⟨?_, ?_⟩⟩
  · intro cut₁ cut₂ hcut₁ hcut₂
    exact (DataServer.framing host selectUser).agree_of_steady (hcut₁.2.trans hcut₂.2.symm)
  · intro cut₁ cut₂ hcut₁ hcut₂
    exact (GateServer.framing host).agree_of_steady (hcut₁.2.trans hcut₂.2.symm)
  · exact (DataServer.framing host selectUser).cutIndependent_iff hlt
  · exact (GateServer.framing host).cutIndependent_iff hlt

theorem segmentation_thirteen_zeros :
    CutIndependent
      (invocation (DataServer.messageCb .little (onQueue .little) fun _ _ => -1))
      (List.replicate 13 0) :=
  ((segmentation_iff .little (fun _ _ => -1) (List.replicate 13 0)).2.2 (by decide)).1.mpr
    fun _ => ⟨fun htag => absurd htag (by decide), Or.inl (by decide)⟩

/-- Twenty-six zero bytes hold a second frame, which is only parsed if it does not arrive
together with the first. -/
theorem two_frames_depend_on_segmentation :
    ¬ CutIndependent
      (invocation (DataServer.messageCb .little (onQueue .little) fun _ _ => -1))
      (List.replicate 26 0) ∧
    ¬ CutIndependent (invocation (GateServer.dbMessageCb (onQueue .little)))
      (List.replicate 26 0) := by
  refine ⟨fun h => ?_, fun h => ?_⟩
  · have hready : (DataServer.framing .little fun _ _ => -1).Ready (List.replicate 26 0) := by
      change completeAt .little _ ≤ _
      decide
    obtain ⟨-, hlen | ⟨-, hrest⟩⟩ :=
      (DataServer.framing .little _).actsOnce_of_cutIndependent (by decide) h hready
    · exact absurd hlen (by decide)
    · refine hrest ?_
      change completeAt .little _ ≤ _
      decide
  · have hready : (GateServer.framing .little).Ready (List.replicate 26 0) := by
      change completeAt .little _ ≤ _
      decide
    obtain ⟨-, hlen | ⟨-, hrest⟩⟩ :=
      (GateServer.framing .little).actsOnce_of_cutIndependent (by decide) h hready
    · exact absurd hlen (by decide)
    · refine hrest ?_
      change completeAt .little _ ≤ _
      decide

end TinyGameServer
