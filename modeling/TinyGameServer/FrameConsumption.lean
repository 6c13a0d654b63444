import TinyGameServer.HandlerBounds

/-!
# Does a handler consume exactly one frame?

A frame is a tag, a length that counts itself but not the tag, and a body. `FramePath` lists the
five ways in which the handlers skip one. `Leaves` says that one invocation ends with exactly the
given bytes unread. On a little-endian host the completeness test hardly ever passes, two paths
drop four bytes more than the frame has, and one drops the tag only.
-/

namespace TinyGameServer

def Leaves {α : Type} (handler : StateT Traced Option α) (b : Buffer) (rest : List UInt8) : Prop :=
  ∃ a s, handler (Traced.start b) = some (a, s) ∧ s.buffer.Ordered ∧ s.unread = rest

theorem leaves_iff {α : Type} {handler : StateT Traced Option α}
    {q : StateT (List UInt8) Option α} (h : BufferSimulates handler q) {b : Buffer}
    (hb : b.Ordered) {a : α} {t : List UInt8} (hq : q b.unread = some (a, t))
    (rest : List UInt8) : Leaves handler b rest ↔ t = rest := by
  obtain ⟨s, hs, hclean, rfl⟩ := h.agrees (Traced.start b) a t (Traced.start_clean hb) hq
  constructor
  · rintro ⟨a', s', hs', -, rfl⟩
    obtain ⟨rfl, rfl⟩ := Prod.mk.inj (Option.some.inj (hs.symm.trans hs'))
    rfl
  · intro hrest
    exact ⟨a, s, hs, hclean.1, hrest⟩

/-! ## The five paths -/

/-- The body of a login frame whose inner lengths fill it. -/
def loginBody (id name pass : List UInt8) : List UInt8 :=
  id ++ (ByteOrder.big.toBytes 4 name.length ++ (name ++
    (ByteOrder.big.toBytes 4 pass.length ++ pass)))

inductive FramePath where
  | login (id name pass : List UInt8) (hid : id.length = 8)
  | unknownTag (tag : Int8) (body : List UInt8) (htag : tag ≠ ascii 'l')
  | success (id uid : Int64)
  | failure (id : Int64)
  | relay (body : List UInt8)

namespace FramePath

variable (host : ByteOrder)

def bytes : FramePath → List UInt8
  | login id name pass _ => frame (ascii 'l') (loginBody id name pass)
  | unknownTag tag body _ => frame tag body
  | success id uid => DataServer.successFrame host id uid
  | failure id => DataServer.errorFrame host id
  | relay body => frame (ascii 'l') body

def minimum : FramePath → ℕ
  | relay _ => 5
  | _ => 13

/-- One invocation of the handler that the path belongs to. -/
def LeavesRest (selectUser : SelectUser) (serialId : Int64) (b : Buffer) (rest : List UInt8) :
    FramePath → Prop
  | login .. | unknownTag .. => Leaves (DataServer.messageCb host (onBuffer host) selectUser) b rest
  | success .. | failure .. => Leaves (GateServer.dbMessageCb (onBuffer host)) b rest
  | relay .. => Leaves (GateServer.messageCb host (onBuffer host) true serialId) b rest

/-- Nothing follows the frame on the paths that count the length field twice, and the path that
drops the tag only is not taken. -/
def Aligned (rest : List UInt8) : FramePath → Prop
  | login .. | success .. => True
  | unknownTag .. | relay .. => rest = []
  | failure .. => False

end FramePath

/-! ## What each path leaves on the ideal queue -/

theorem nameLen_loginBody {id name pass rest : List UInt8} (hid : id.length = 8)
    (hname : name.length < 2 ^ 32) :
    DataServer.nameLen (frame (ascii 'l') (loginBody id name pass) ++ rest) = name.length := by
  have hsplit : frame (ascii 'l') (loginBody id name pass) ++ rest =
      wireFrame (ascii 'l') (4 + (loginBody id name pass).length) id ++
        (ByteOrder.big.toBytes 4 name.length ++
          (name ++ (ByteOrder.big.toBytes 4 pass.length ++ pass) ++ rest)) := by
    simp only [frame, wireFrame, loginBody, List.append_assoc]
  rw [DataServer.nameLen, hsplit]
  exact netField_append (by rw [length_wireFrame, hid]) hname

theorem passLen_loginBody {id name pass rest : List UInt8} (hid : id.length = 8)
    (hname : name.length < 2 ^ 32) (hpass : pass.length < 2 ^ 32) :
    DataServer.passLen (frame (ascii 'l') (loginBody id name pass) ++ rest) = pass.length := by
  have hsplit : frame (ascii 'l') (loginBody id name pass) ++ rest =
      wireFrame (ascii 'l') (4 + (loginBody id name pass).length)
        (id ++ (ByteOrder.big.toBytes 4 name.length ++ name)) ++
        (ByteOrder.big.toBytes 4 pass.length ++ (pass ++ rest)) := by
    simp only [frame, wireFrame, loginBody, List.append_assoc]
  rw [DataServer.passLen, nameLen_loginBody hid hname, hsplit]
  refine netField_append ?_ hpass
  simp only [length_wireFrame, List.length_append, ByteOrder.length_toBytes, hid]
  omega

theorem length_loginBody {id name pass : List UInt8} (hid : id.length = 8) :
    (loginBody id name pass).length = 16 + name.length + pass.length := by
  simp only [loginBody, List.length_append, ByteOrder.length_toBytes, hid]
  omega

theorem tagOf_frame (host : ByteOrder) (tag : Int8) (body rest : List UInt8) :
    tagOf host (frame tag body ++ rest) = tag := tagOf_wireFrame host tag _ body rest

theorem netField_frame {tag : Int8} {body rest : List UInt8}
    (hlen : (frame tag body ++ rest).length < 2 ^ 32) :
    netField (frame tag body ++ rest) 1 = 4 + body.length := by
  refine netField_wireFrame tag _ body rest ?_
  rw [List.length_append, length_frame] at hlen
  omega

/-- Dropping the length field's count again after the field itself takes four bytes too many. -/
theorem drop_frame_twice (tag : Int8) (body rest : List UInt8) :
    (frame tag body ++ rest).drop (5 + (4 + body.length)) = rest.drop 4 := by
  rw [frame, drop_wireFrame, Nat.add_comm 4, ← List.drop_drop, List.drop_left]

theorem drop_eq_self_iff (rest : List UInt8) : rest.drop 4 = rest ↔ rest = [] := by
  constructor
  · intro h
    have hlen := congrArg List.length h
    rw [List.length_drop] at hlen
    exact List.length_eq_zero_iff.mp (by omega)
  · rintro rfl
    rfl

/-! ## One invocation on the buffer -/

section Buffer

variable {host : ByteOrder} {b : Buffer} {rest : List UInt8} (selectUser : SelectUser)

/-- An invocation that does not get past the completeness test leaves the frame as well. -/
theorem leaves_frame_iff {α : Type} {handler : StateT Traced Option α}
    {q : StateT (List UInt8) Option α} (h : BufferSimulates handler q) (hb : b.Ordered)
    {bytes : List UInt8} (hfront : b.unread = bytes ++ rest) (hne : bytes ≠ []) {a : α}
    (hq : q b.unread = some (a, b.unread)) : ¬ Leaves handler b rest := by
  rw [leaves_iff h hb hq, hfront, List.append_left_eq_self]
  exact hne

theorem DataServer.login_leaves_iff (hb : b.Ordered) {id name pass : List UInt8}
    (hid : id.length = 8)
    (hfront : b.unread = frame (ascii 'l') (loginBody id name pass) ++ rest) :
    Leaves (messageCb host (onBuffer host) selectUser) b rest ↔ Accepts host 13 b.unread := by
  have hlt := b.length_unread_lt
  have hsim := @messageCb_simulates host _ _ (onBuffer_simulated host) selectUser
  have hqueue := @messageCb_queue host _ selectUser hlt
  by_cases haccept : Accepts host 13 b.unread
  · have hlen : b.unread.length = 5 + (16 + name.length + pass.length) + rest.length := by
      rw [hfront, List.length_append, length_frame, length_loginBody hid]
    have hname : nameLen b.unread = name.length := by
      rw [hfront]
      exact nameLen_loginBody hid (by omega)
    have hpass : passLen b.unread = pass.length := by
      rw [hfront]
      exact passLen_loginBody hid (by omega) (by omega)
    rw [if_pos haccept, switchTag_login selectUser (by omega)
      (by rw [hfront]; exact tagOf_frame host _ _ rest), hname, hpass] at hqueue
    refine iff_of_true ((leaves_iff hsim hb hqueue rest).mpr ?_) haccept
    rw [hfront]
    refine List.drop_left' ?_
    rw [length_frame, length_loginBody hid]
    omega
  · rw [if_neg haccept] at hqueue
    exact iff_of_false (leaves_frame_iff hsim hb hfront (List.cons_ne_nil _ _) hqueue) haccept

theorem DataServer.unknownTag_leaves_iff (hb : b.Ordered) {tag : Int8} {body : List UInt8}
    (htag : tag ≠ ascii 'l') (hfront : b.unread = frame tag body ++ rest) :
    Leaves (messageCb host (onBuffer host) selectUser) b rest ↔
      Accepts host 13 b.unread ∧ rest = [] := by
  have hlt := b.length_unread_lt
  have hsim := @messageCb_simulates host _ _ (onBuffer_simulated host) selectUser
  have hqueue := @messageCb_queue host _ selectUser hlt
  by_cases haccept : Accepts host 13 b.unread
  · have hmin : 13 ≤ b.unread.length := haccept.1
    have hlen : netField b.unread 1 = 4 + body.length := by
      rw [hfront] at hlt ⊢
      exact netField_frame hlt
    rw [if_pos haccept, switchTag_other selectUser (by omega)
      (by rw [hfront, tagOf_frame]; exact htag), hlen] at hqueue
    rw [leaves_iff hsim hb hqueue rest, hfront, drop_frame_twice, drop_eq_self_iff]
    rw [hfront] at haccept
    exact (and_iff_right haccept).symm
  · rw [if_neg haccept] at hqueue
    exact iff_of_false (leaves_frame_iff hsim hb hfront (List.cons_ne_nil _ _) hqueue)
      fun h => haccept h.1

theorem GateServer.success_leaves_iff (hb : b.Ordered) {id uid : Int64}
    (hfront : b.unread = DataServer.successFrame host id uid ++ rest) :
    Leaves (dbMessageCb (onBuffer host)) b rest ↔ Accepts host 13 b.unread := by
  have hsim := dbMessageCb_simulates (onBuffer_simulated host)
  have hqueue := @dbMessageCb_queue host _ b.length_unread_lt
  by_cases haccept : Accepts host 13 b.unread
  · have hframe : (DataServer.successFrame host id uid).length = 21 := by
      simp [DataServer.successFrame, Buffer.int64Bytes]
    have hlen : 21 ≤ b.unread.length := by
      rw [hfront, List.length_append]
      omega
    rw [if_pos haccept, readLogin_success hlen
      (by rw [hfront]; exact tagOf_wireFrame host _ _ _ rest)] at hqueue
    refine iff_of_true ((leaves_iff hsim hb hqueue rest).mpr ?_) haccept
    rw [hfront]
    exact List.drop_left' hframe
  · rw [if_neg haccept] at hqueue
    exact iff_of_false (leaves_frame_iff hsim hb hfront (List.cons_ne_nil _ _) hqueue) haccept

theorem GateServer.failure_not_leaves (hb : b.Ordered) {id : Int64}
    (hfront : b.unread = DataServer.errorFrame host id ++ rest) :
    ¬ Leaves (dbMessageCb (onBuffer host)) b rest := by
  have hsim := dbMessageCb_simulates (onBuffer_simulated host)
  have hqueue := @dbMessageCb_queue host _ b.length_unread_lt
  by_cases haccept : Accepts host 13 b.unread
  · have hframe : (DataServer.errorFrame host id).length = 13 := by
      simp [DataServer.errorFrame, Buffer.int64Bytes]
    have htag : tagOf host b.unread ≠ ascii 's' := by
      rw [hfront, DataServer.errorFrame, tagOf_wireFrame]
      decide
    rw [if_pos haccept, readLogin_other (by have := haccept.1; omega) htag] at hqueue
    rw [leaves_iff hsim hb hqueue rest]
    intro h
    have hlen := congrArg List.length h
    rw [hfront, List.length_drop, List.length_append] at hlen
    omega
  · rw [if_neg haccept] at hqueue
    exact leaves_frame_iff hsim hb hfront (List.cons_ne_nil _ _) hqueue

theorem GateServer.relay_leaves_iff (hb : b.Ordered) (serialId : Int64) {body : List UInt8}
    (hfront : b.unread = frame (ascii 'l') body ++ rest) :
    Leaves (messageCb host (onBuffer host) true serialId) b rest ↔
      Accepts host 5 b.unread ∧ rest = [] := by
  have hlt := b.length_unread_lt
  have hsim := @messageCb_simulates host _ _ (onBuffer_simulated host) true serialId
  have hqueue := @messageCb_queue host _ hlt serialId
  by_cases haccept : Accepts host 5 b.unread
  · have hlen : netField b.unread 1 = 4 + body.length := by
      rw [hfront] at hlt ⊢
      exact netField_frame hlt
    rw [if_pos haccept, relayLogin_login haccept.1
      (by rw [hfront]; exact tagOf_frame host _ _ rest), hlen] at hqueue
    rw [leaves_iff hsim hb hqueue rest, hfront, drop_frame_twice, drop_eq_self_iff]
    rw [hfront] at haccept
    exact (and_iff_right haccept).symm
  · rw [if_neg haccept] at hqueue
    exact iff_of_false (leaves_frame_iff hsim hb hfront (List.cons_ne_nil _ _) hqueue)
      fun h => haccept h.1

/-- One invocation leaves exactly what follows the frame if and only if the completeness test
passes on the whole buffer and the path is an aligned one. -/
theorem frame_consumed_iff (host : ByteOrder) (selectUser : SelectUser) (serialId : Int64)
    (path : FramePath) (b : Buffer) (rest : List UInt8) (hb : b.Ordered)
    (hfront : b.unread = path.bytes host ++ rest) :
    path.LeavesRest host selectUser serialId b rest ↔
      Accepts host path.minimum b.unread ∧ path.Aligned rest := by
  cases path with
  | login id name pass hid =>
      exact (DataServer.login_leaves_iff selectUser hb hid hfront).trans (and_true _).to_iff.symm
  | unknownTag tag body htag => exact DataServer.unknownTag_leaves_iff selectUser hb htag hfront
  | success id uid =>
      exact (GateServer.success_leaves_iff hb hfront).trans (and_true _).to_iff.symm
  | failure id =>
      exact iff_of_false (GateServer.failure_not_leaves hb hfront) fun h => h.2
  | relay body => exact GateServer.relay_leaves_iff hb serialId hfront

/-- A login of `a` with the password `b`, and the first two bytes of the next frame. -/
theorem frame_consumed_login :
    (FramePath.login [0, 0, 0, 0, 0, 0, 0, 1] [97] [98] rfl).LeavesRest .big (fun _ _ => 7) 1
      (received (completeLogin ++ [108, 0])) [108, 0] :=
  (frame_consumed_iff .big (fun _ _ => 7) 1 (.login [0, 0, 0, 0, 0, 0, 0, 1] [97] [98] rfl)
    (received (completeLogin ++ [108, 0])) [108, 0] ⟨by decide, by decide⟩ (by decide)).mpr
    ⟨by decide, trivial⟩

theorem failure_reply_not_consumed :
    (received [120, 0, 0, 0, 12, 0, 0, 0, 0, 0, 0, 0, 7]).Ordered ∧
    (received [120, 0, 0, 0, 12, 0, 0, 0, 0, 0, 0, 0, 7]).unread =
      (FramePath.failure 7).bytes .little ++ [] ∧
    ¬ (FramePath.failure 7).LeavesRest .little (fun _ _ => -1) 1
      (received [120, 0, 0, 0, 12, 0, 0, 0, 0, 0, 0, 0, 7]) [] := by
  have hb : (received [120, 0, 0, 0, 12, 0, 0, 0, 0, 0, 0, 0, 7]).Ordered :=
    ⟨by decide, by decide⟩
  have hfront : (received [120, 0, 0, 0, 12, 0, 0, 0, 0, 0, 0, 0, 7]).unread =
      DataServer.errorFrame .little 7 ++ [] := by decide
  exact ⟨hb, hfront, GateServer.failure_not_leaves hb hfront⟩

end Buffer
end TinyGameServer
