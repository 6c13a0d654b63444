import TinyGameServer.FrameFields

/-!
# Peeking at a frame header and reading it

The completeness test of the handlers peeks at the tag and the length; the parsing afterwards
reads them with `ReadInt8` and `ReadInt32`. Reading takes the length to host order and peeking
does not, so on a little-endian host the two agree exactly on lengths whose four bytes are the
same in both directions.
-/

namespace TinyGameServer.Buffer

variable {host : ByteOrder} {b : Buffer}

def readTagLen (host : ByteOrder) (b : Buffer) : Option ((Int8 × Int32) × Buffer) := do
  let (tag, b) ← b.readInt8 host
  let (len, b) ← b.readInt32 host
  return ((tag, len), b)

theorem readTagLen_spec (host : ByteOrder) (hb : b.Ordered) (hlen : 5 ≤ b.getLength.toNat) :
    ∃ b', b.readTagLen host = some ((decodeInt8 host (b.unread.take 1),
      decodeInt32 host ((b.unread.drop 1).take 4)), b') ∧ b'.unread = b.unread.drop 5 := by
  obtain ⟨b₁, htag, hord₁, hunread₁, -⟩ := readField_spec hb 1 (le_trans (by decide) hlen)
  have hlen₁ : b₁.getLength.toNat = b.getLength.toNat - 1 := by
    rw [← length_unread, hunread₁, List.length_drop, length_unread]
    rfl
  have hfour : (4 : UInt32).toNat ≤ b₁.getLength.toNat := by
    change 4 ≤ b₁.getLength.toNat
    omega
  obtain ⟨b₂, hfield, -, hunread₂, -⟩ := readField_spec hord₁ 4 hfour
  refine ⟨b₂, ?_, ?_⟩
  · rw [hunread₁] at hfield
    simp only [readTagLen, readInt8, readInt32, htag, hfield, Option.bind_eq_bind,
      Option.bind_some, Option.pure_def]
    rfl
  · rw [hunread₂, hunread₁, List.drop_drop]
    rfl

/-- A word that is not taken to host order is right exactly when the order makes no
difference to it. -/
theorem toInt32_ofBytes_eq_decodeInt32_iff (host : ByteOrder) (l : List UInt8)
    (hl : l.length = 4) :
    (UInt32.ofNat (host.ofBytes l)).toInt32 = decodeInt32 host l ↔
      host = .big ∨ l.reverse = l := by
  have hword := toNat_word host l hl
  have hvalue : (UInt32.ofNat (host.ofBytes l)).toInt32 = decodeInt32 host l ↔
      host.ofBytes l = ByteOrder.big.ofBytes l := by
    rw [← toNat_ntohl_ofBytes host l hl, decodeInt32]
    constructor
    · intro h
      have hunsigned := congrArg Int32.toUInt32 h
      rw [UInt32.toUInt32_toInt32, UInt32.toUInt32_toInt32] at hunsigned
      exact hword.symm.trans (congrArg UInt32.toNat hunsigned)
    · intro h
      exact congrArg UInt32.toInt32 (UInt32.toNat_inj.mp (hword.trans h))
  rw [hvalue]
  cases host with
  | little =>
      rw [← ByteOrder.ofBytes_reverse]
      constructor
      · intro h
        exact Or.inr (ByteOrder.ofBytes_inj .little (List.length_reverse) h.symm)
      · intro h
        rw [h.resolve_left (by decide)]
  | big => exact iff_of_true rfl (Or.inl rfl)

/-- Both decoders are defined on every buffer with five unread bytes. They return the same pair
exactly when the host is big-endian or the four length bytes are the same read backwards; so a
header that was appended as `(tag, n)` is peeked as `(tag, n)` exactly when this holds for the
bytes of `n`. -/
theorem peekTagLen_eq_read_iff (host : ByteOrder) (b : Buffer) (hb : b.Ordered)
    (hlen : 5 ≤ b.getLength.toNat) :
    (∃ tag len b', b.readTagLen host = some ((tag, len), b') ∧ b'.unread = b.unread.drop 5 ∧
      (b.peekTagLen host = some (tag, len) ↔
        host = .big ∨ ((b.unread.drop 1).take 4).reverse = (b.unread.drop 1).take 4)) ∧
    ∀ tag n, int8Bytes tag ++ int32Bytes host n <+: b.unread →
      (b.peekTagLen host = some (tag, n) ↔
        host = .big ∨ (int32Bytes host n).reverse = int32Bytes host n) := by
  have hfield : ((b.unread.drop 1).take 4).length = 4 := by
    rw [List.length_take, List.length_drop, length_unread]
    omega
  have hpeek := peekTagLen_spec host hb hlen
  constructor
  · obtain ⟨b', hread, hunread⟩ := readTagLen_spec host hb hlen
    refine ⟨_, _, b', hread, hunread, ?_⟩
    rw [hpeek, ← toInt32_ofBytes_eq_decodeInt32_iff host _ hfield]
    simp only [peekField, Option.some.injEq, Prod.mk.injEq, true_and]
  · rintro tag n ⟨rest, hrest⟩
    have htag : b.unread.take 1 = int8Bytes tag := by
      rw [← hrest]
      rfl
    have hlenBytes : (b.unread.drop 1).take 4 = int32Bytes host n := by
      rw [← hrest, List.append_assoc]
      change (int32Bytes host n ++ rest).take 4 = _
      exact List.take_left' (ByteOrder.length_toBytes _ _ _)
    rw [hpeek, peekField, htag, hlenBytes, decodeInt8_int8Bytes,
      ← toInt32_ofBytes_eq_decodeInt32_iff host _ (hlenBytes ▸ hfield),
      decodeInt32_int32Bytes]
    simp only [Option.some.injEq, Prod.mk.injEq, true_and]

/-- A length that reads the same in both byte orders, behind a byte that has been read. -/
theorem peekTagLen_eq_read_symmetric :
    ∃ b : Buffer, ((new 8).append [9, 108, 1, 2, 2, 1]).map (·.forward 1) = some b ∧
      b.peekTagLen .little = some (108, 16908801) := by
  obtain ⟨a, ha, hord, hunread, -⟩ := append_within (new_ordered 8) [9, 108, 1, 2, 2, 1]
    (by decide) (by decide)
  obtain ⟨hord', hunread', -⟩ := forward_spec hord 1
  have hall : (a.forward 1).unread = int8Bytes 108 ++ int32Bytes .little 16908801 := by
    rw [hunread', hunread]
    decide
  have hlen : 5 ≤ (a.forward 1).getLength.toNat := by
    rw [← length_unread, hall]
    decide
  refine ⟨a.forward 1, by rw [ha, Option.map_some], ?_⟩
  exact ((peekTagLen_eq_read_iff .little (a.forward 1) hord' hlen).2 108 16908801
    (hall ▸ List.prefix_rfl)).mpr (Or.inr (by decide))

/-- The length 1 is read back as 1 and peeked as `2 ^ 24`. -/
theorem length_one_peeked :
    ∃ b : Buffer, ((new 8).appendInt8 108).bind (appendInt32 .little · 1) = some b ∧
      (b.readTagLen .little).map Prod.fst = some (108, 1) ∧
      b.peekTagLen .little = some (108, 16777216) := ⟨_, rfl, rfl, rfl⟩

end TinyGameServer.Buffer
