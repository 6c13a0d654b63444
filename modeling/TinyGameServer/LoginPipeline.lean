import TinyGameServer.FrameConsumption
import TinyGameServer.LoginOutcome
import TinyGameServer.ReadEvents
import TinyGameServer.Segmentation

/-!
# A login through all three callbacks

An authorized client, the gate, the data server and the gate again, on big-endian machines. Every
hop may cut its frames into any pieces as long as no read event brings parts of two frames. Then
each callback waits for the last piece of a frame and takes exactly that frame, so one accepted
login in is one pair of serial id and user id out.
-/

namespace TinyGameServer

/-- The frames have arrived in pieces, none of which has bytes of two frames. -/
inductive CutAtFrames : List (List UInt8) → List (List UInt8) → Prop
  | nil : CutAtFrames [] []
  | cons {frame : List UInt8} {pieces frames chunks : List (List UInt8)}
      (hcut : IsCut frame pieces) (h : CutAtFrames frames chunks) :
      CutAtFrames (frame :: frames) (pieces ++ chunks)

/-- The callback answers `waiting` on every part of the frame, and takes the whole frame. -/
structure TakesWhole {β : Type} (readCb : StateT (List UInt8) Option β) (frame : List UInt8)
    (answer waiting : β) : Prop where
  waits : ∀ q, q <+: frame → q.length < frame.length → readCb q = some (waiting, q)
  takes : readCb frame = some (answer, [])

/-- The same with more bytes behind the frame, which are left. -/
structure TakesFront {β : Type} (readCb : StateT (List UInt8) Option β) (frame : List UInt8)
    (answer waiting : β) : Prop where
  waits : ∀ q, q <+: frame → q.length < frame.length → readCb q = some (waiting, q)
  takes : ∀ rest, (frame ++ rest).length < 2 ^ 32 → readCb (frame ++ rest) = some (answer, rest)

theorem TakesFront.takesWhole {β : Type} {readCb : StateT (List UInt8) Option β}
    {frame : List UInt8} {answer waiting : β} (h : TakesFront readCb frame answer waiting)
    (hlen : frame.length < 2 ^ 32) : TakesWhole readCb frame answer waiting where
  waits := h.waits
  takes := by
    have htakes := h.takes []
    rw [List.append_nil] at htakes
    exact htakes hlen

namespace Inbox

variable {β ε : Type} {readCb : StateT (List UInt8) Option β} {effect : β → List ε}
  {answer waiting : β} {s : Inbox β}

theorem step_data (hopen : s.closed = false) {chunk : List UInt8} (hne : chunk ≠ []) {a : β}
    {unread : List UInt8} (hcb : readCb (s.unread ++ chunk) = some (a, unread)) :
    s.step readCb (.data chunk) = some { s with unread, returned := s.returned ++ [a] } := by
  rw [step, if_neg (by rw [hopen]; exact Bool.false_ne_true)]
  cases chunk with
  | nil => exact absurd rfl hne
  | cons x bytes =>
      rw [receive, hcb]
      rfl

/-- The pieces that are left of one frame. Only the last one has an effect. -/
theorem run_pieces (hquiet : effect waiting = []) {frame : List UInt8}
    (hwhole : TakesWhole readCb frame answer waiting) (pieces : List (List UInt8))
    (hne : ∀ piece ∈ pieces, piece ≠ []) (hopen : s.closed = false)
    (hcut : s.unread ++ pieces.flatten = frame) (hpieces : pieces ≠ []) :
    ∃ t, run (step readCb) s (pieces.map .data) = some t ∧ t.closed = false ∧ t.unread = [] ∧
      t.returned.flatMap effect = s.returned.flatMap effect ++ effect answer := by
  induction pieces generalizing s with
  | nil => exact absurd rfl hpieces
  | cons piece pieces ih =>
      obtain ⟨hpiece, hrest⟩ := List.forall_mem_cons.mp hne
      rw [List.flatten_cons, ← List.append_assoc] at hcut
      rw [List.map_cons, run_cons]
      cases pieces with
      | nil =>
          rw [List.flatten_nil, List.append_nil] at hcut
          have hcb := hwhole.takes
          rw [← hcut] at hcb
          rw [step_data hopen hpiece hcb]
          refine ⟨_, rfl, hopen, rfl, ?_⟩
          rw [List.flatMap_append, List.flatMap_singleton]
      | cons next pieces =>
          have hnext : next ≠ [] := hrest next List.mem_cons_self
          have hlen := congrArg List.length hcut
          have hpos := List.length_pos_iff.mpr hnext
          simp only [List.length_append, List.flatten_cons] at hlen
          have hcb := hwhole.waits (s.unread ++ piece) ⟨_, hcut⟩ (by
            rw [List.length_append]
            omega)
          obtain ⟨t, ht, hclosed, hunread, heffect⟩ :=
            @ih { s with unread := s.unread ++ piece, returned := s.returned ++ [waiting] }
              hrest hopen hcut (List.cons_ne_nil next pieces)
          rw [step_data hopen hpiece hcb, Option.bind_some]
          refine ⟨t, ht, hclosed, hunread, ?_⟩
          rw [heffect, List.flatMap_append, List.flatMap_singleton, hquiet, List.append_nil]

/-- Whole frames in, the effects of their answers out. -/
theorem run_frames {φ : Type} (hquiet : effect waiting = []) (bytes : φ → List UInt8)
    (answers : φ → β) (frames : List φ)
    (hwhole : ∀ f ∈ frames, TakesWhole readCb (bytes f) (answers f) waiting)
    (hfilled : ∀ f ∈ frames, bytes f ≠ []) {chunks : List (List UInt8)}
    (hcut : CutAtFrames (frames.map bytes) chunks) (hopen : s.closed = false)
    (hunread : s.unread = []) :
    ∃ t, run (step readCb) s (chunks.map .data) = some t ∧ t.unread = [] ∧
      t.returned.flatMap effect =
        s.returned.flatMap effect ++ frames.flatMap fun f => effect (answers f) := by
  induction frames generalizing s chunks with
  | nil =>
      cases hcut
      exact ⟨s, rfl, hunread, (List.append_nil _).symm⟩
  | cons f frames ih =>
      obtain ⟨hfirst, hrest⟩ := List.forall_mem_cons.mp hwhole
      obtain ⟨hfirst', hrest'⟩ := List.forall_mem_cons.mp hfilled
      rw [List.map_cons] at hcut
      cases hcut with
      | @cons _ pieces _ chunks hpieces hcut =>
          have hne : pieces ≠ [] := by
            rintro rfl
            exact hfirst' hpieces.2.symm
          obtain ⟨t, ht, hclosed, hunread', heffect⟩ := run_pieces hquiet hfirst pieces
            hpieces.1 hopen (by rw [hunread, hpieces.2]; rfl) hne
          obtain ⟨u, hu, hdone, heffect'⟩ := ih hrest hrest' hcut hclosed hunread'
          refine ⟨u, ?_, hdone, ?_⟩
          · rw [List.map_append, run_append, ht, Option.bind_some, hu]
          · rw [heffect', heffect, List.flatMap_cons, List.append_assoc]

theorem run_frames_init {φ : Type} (effect : β → List ε) (hquiet : effect waiting = [])
    {bytes : φ → List UInt8} {answers : φ → β} {frames : List φ}
    (hwhole : ∀ f ∈ frames, TakesWhole readCb (bytes f) (answers f) waiting)
    (hfilled : ∀ f ∈ frames, bytes f ≠ []) {chunks : List (List UInt8)}
    (hcut : CutAtFrames (frames.map bytes) chunks) :
    ∃ t, run (step readCb) init (chunks.map .data) = some t ∧ t.unread = [] ∧
      t.returned.flatMap effect = frames.flatMap fun f => effect (answers f) := by
  have hopen : (init : Inbox β).closed = false := rfl
  have hunread : (init : Inbox β).unread = [] := rfl
  exact run_frames hquiet bytes answers frames hwhole hfilled hcut hopen hunread

end Inbox

/-! ## The frames of the three hops -/

/-- Credentials that fit into one fresh buffer with everything around them. -/
structure Login where
  name : List UInt8
  pass : List UInt8
  fits : 21 + name.length + pass.length ≤ 8192

namespace Login

def body (l : Login) : List UInt8 :=
  ByteOrder.big.toBytes 4 l.name.length ++ l.name ++
    (ByteOrder.big.toBytes 4 l.pass.length ++ l.pass)

def request (l : Login) : List UInt8 := LoginSystem.clientLogin l.name l.pass

def relayed (serialId : Int64) (l : Login) : List UInt8 :=
  frame (ascii 'l') (loginBody (Buffer.int64Bytes .big serialId) l.name l.pass)

theorem length_relayed (serialId : Int64) (l : Login) :
    (l.relayed serialId).length = 21 + l.name.length + l.pass.length := by
  have hid : (Buffer.int64Bytes .big serialId).length = 8 := ByteOrder.length_toBytes _ 8 _
  rw [relayed, length_frame, length_loginBody hid]
  omega

end Login

/-- On a big-endian machine the completeness test passes as soon as the frame is there. -/
theorem accepts_big_iff {tag : Int8} {body rest q : List UInt8} (minimum : ℕ)
    (hminimum : 5 ≤ minimum) (hlen : (frame tag body).length < 2 ^ 32)
    (hbody : minimum ≤ (frame tag body).length) (hq : q <+: frame tag body ++ rest) :
    Accepts .big minimum q ↔ (frame tag body).length ≤ q.length := by
  rw [length_frame] at hlen hbody ⊢
  by_cases hhead : 5 ≤ q.length
  · obtain ⟨rest', hrest⟩ := hq
    have hpeek : peekLen .big q = 4 + body.length := by
      have hfield := field_wireFrame tag (4 + body.length) body rest
      rw [← frame, ← hrest, field_append (by omega)] at hfield
      rw [peekLen, hfield, ByteOrder.ofBytes_toBytes _ _ _ (by omega)]
    rw [Accepts, hpeek]
    omega
  · rw [Accepts]
    omega

namespace Login

variable (l : Login) (serialId : Int64)

theorem takesFront_relayed (selectUser : SelectUser) :
    TakesFront (DataServer.messageCb .big (onQueue .big) selectUser) (l.relayed serialId)
      (.READ_SUCCESS, [DataServer.reply .big serialId (selectUser l.name l.pass)])
      (.READ_INCOMPLETE, []) := by
  have hfits := l.fits
  have hid : (Buffer.int64Bytes .big serialId).length = 8 := ByteOrder.length_toBytes _ 8 _
  have hlen := l.length_relayed serialId
  have haccepts : ∀ q rest, q <+: l.relayed serialId ++ rest →
      (Accepts .big 13 q ↔ (l.relayed serialId).length ≤ q.length) := by
    intro q rest hq
    rw [relayed] at hlen hq ⊢
    exact accepts_big_iff 13 (by omega) (by omega) (by omega) hq
  constructor
  · intro q hq hshort
    have hpre := hq.trans (List.prefix_append (l.relayed serialId) [])
    rw [DataServer.messageCb_queue selectUser (by omega),
      if_neg ((haccepts q [] hpre).not.mpr (by omega))]
  · intro rest hlt
    have hlength := @List.length_append _ (l.relayed serialId) rest
    have hname : DataServer.nameLen (l.relayed serialId ++ rest) = l.name.length :=
      nameLen_loginBody hid (by omega)
    have hpass : DataServer.passLen (l.relayed serialId ++ rest) = l.pass.length :=
      passLen_loginBody hid (by omega) (by omega)
    have htag : tagOf .big (l.relayed serialId ++ rest) = ascii 'l' := tagOf_frame .big _ _ rest
    have hdrop : ∀ k, (l.relayed serialId ++ rest).drop (5 + k) =
        (loginBody (Buffer.int64Bytes .big serialId) l.name l.pass ++ rest).drop k :=
      drop_wireFrame (ascii 'l') _ _ rest
    have hloginId : DataServer.loginId .big (l.relayed serialId ++ rest) = serialId := by
      rw [DataServer.loginId, hdrop 0, List.drop_zero, loginBody, List.append_assoc,
        List.take_left' hid, decodeInt64_int64Bytes]
    have hloginName : DataServer.loginName (l.relayed serialId ++ rest) = l.name := by
      rw [DataServer.loginName, hname, hdrop 12]
      simp only [loginBody, List.append_assoc]
      rw [← List.append_assoc,
        List.drop_left' (by rw [List.length_append, hid, ByteOrder.length_toBytes]),
        List.take_left]
    have hloginPass : DataServer.loginPass (l.relayed serialId ++ rest) = l.pass := by
      have hoff : 21 + l.name.length = 5 + (16 + l.name.length) := by omega
      rw [DataServer.loginPass, hname, hpass, hoff, hdrop, loginBody, ← List.append_assoc,
        ← List.append_assoc, ← List.append_assoc, List.append_assoc _ l.pass, List.drop_left' (by
          simp only [List.length_append, hid, ByteOrder.length_toBytes]
          omega), List.take_left]
    have hrest : (l.relayed serialId ++ rest).drop (21 + l.name.length + l.pass.length) = rest :=
      List.drop_left' hlen
    rw [DataServer.messageCb_queue selectUser hlt,
      if_pos ((haccepts _ rest (List.prefix_refl _)).mpr (by omega)),
      DataServer.switchTag_login selectUser (by omega) htag, hloginId, hloginName, hloginPass,
      hname, hpass, hrest]

theorem takesWhole_relayed (selectUser : SelectUser) :
    TakesWhole (DataServer.messageCb .big (onQueue .big) selectUser) (l.relayed serialId)
      (.READ_SUCCESS, [DataServer.reply .big serialId (selectUser l.name l.pass)])
      (.READ_INCOMPLETE, []) := by
  have hfits := l.fits
  refine (l.takesFront_relayed serialId selectUser).takesWhole ?_
  rw [length_relayed]
  omega

end Login

theorem length_successFrame (id uid : Int64) :
    (DataServer.successFrame .big id uid).length = 21 := by
  have hbytes : ∀ x, (Buffer.int64Bytes .big x).length = 8 :=
    fun x => ByteOrder.length_toBytes _ 8 _
  rw [DataServer.successFrame, length_wireFrame, List.length_append, hbytes, hbytes]

theorem takesFront_success (id uid : Int64) :
    TakesFront (GateServer.dbMessageCb (onQueue .big)) (DataServer.successFrame .big id uid)
      (.READ_SUCCESS, some (id, uid)) (.READ_INCOMPLETE, none) := by
  have hbytes : ∀ x, (Buffer.int64Bytes .big x).length = 8 :=
    fun x => ByteOrder.length_toBytes _ 8 _
  have hframe : DataServer.successFrame .big id uid =
      frame (ascii 's') (Buffer.int64Bytes .big id ++ Buffer.int64Bytes .big uid) := by
    rw [frame, List.length_append, hbytes, hbytes]
    rfl
  have hlen := length_successFrame id uid
  have haccepts : ∀ q rest, q <+: DataServer.successFrame .big id uid ++ rest →
      (Accepts .big 13 q ↔ (DataServer.successFrame .big id uid).length ≤ q.length) := by
    intro q rest hq
    rw [hframe] at hlen hq ⊢
    exact accepts_big_iff 13 (by omega) (by omega) (by omega) hq
  constructor
  · intro q hq hshort
    have hpre := hq.trans (List.prefix_append (DataServer.successFrame .big id uid) [])
    rw [GateServer.dbMessageCb_queue (by omega),
      if_neg ((haccepts q [] hpre).not.mpr (by omega))]
  · intro rest hlt
    have hlength := @List.length_append _ (DataServer.successFrame .big id uid) rest
    have htag : tagOf .big (DataServer.successFrame .big id uid ++ rest) = ascii 's' :=
      tagOf_wireFrame .big _ _ _ rest
    have hdrop : ∀ k, (DataServer.successFrame .big id uid ++ rest).drop (5 + k) =
        (Buffer.int64Bytes .big id ++ Buffer.int64Bytes .big uid ++ rest).drop k :=
      drop_wireFrame (ascii 's') _ _ rest
    have hgrant : GateServer.grant .big (DataServer.successFrame .big id uid ++ rest) =
        (id, uid) := by
      rw [GateServer.grant, hdrop 0, hdrop 8, List.drop_zero, List.append_assoc,
        List.take_left' (hbytes id), List.drop_left' (hbytes id), List.take_left' (hbytes uid),
        decodeInt64_int64Bytes, decodeInt64_int64Bytes]
    have hrest : (DataServer.successFrame .big id uid ++ rest).drop 21 = rest :=
      List.drop_left' hlen
    rw [GateServer.dbMessageCb_queue hlt,
      if_pos ((haccepts _ rest (List.prefix_refl _)).mpr (by omega)),
      GateServer.readLogin_success (by omega) htag, hgrant, hrest]

theorem wireBytes_flatMap {φ : Type} {buffer : φ → Option Buffer} {bytes : φ → List UInt8}
    {frames : List φ}
    (h : ∀ f ∈ frames, ∃ buf, buffer f = some buf ∧ buf.unread = bytes f) :
    LoginSystem.wireBytes (frames.flatMap fun f => [buffer f]) = some (frames.map bytes) := by
  induction frames with
  | nil => rfl
  | cons f frames ih =>
      obtain ⟨⟨buf, hbuf, hunread⟩, hrest⟩ := List.forall_mem_cons.mp h
      have hmap := ih hrest
      rw [LoginSystem.wireBytes] at hmap ⊢
      rw [List.flatMap_cons, List.singleton_append, List.mapM_cons, hbuf, hmap, Option.map_some,
        hunread]
      rfl

def shortLogin : Login := ⟨[97], [98], by decide⟩

end TinyGameServer
