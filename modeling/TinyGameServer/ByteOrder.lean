import Mathlib.Data.Nat.Notation
import Mathlib.Algebra.Order.Ring.Nat
import Mathlib.Tactic.Ring

/-!
# Byte orders and the memory image of unsigned integers

`o.toBytes w n` is the image of `n` in `w` bytes of memory on a machine of byte order `o`, and
`o.ofBytes` reads such an image back. Network order is `big`. The two maps are inverse to each
other on numbers below `256 ^ w` and on byte lists of length `w`.
-/

namespace TinyGameServer

inductive ByteOrder where
  | little
  | big
  deriving DecidableEq, Repr

namespace ByteOrder

def leBytes : ℕ → ℕ → List UInt8
  | 0, _ => []
  | w + 1, n => UInt8.ofNat n :: leBytes w (n / 256)

def ofLeBytes : List UInt8 → ℕ
  | [] => 0
  | b :: bs => b.toNat + 256 * ofLeBytes bs

def toBytes (o : ByteOrder) (w n : ℕ) : List UInt8 :=
  match o with
  | .little => leBytes w n
  | .big => (leBytes w n).reverse

def ofBytes (o : ByteOrder) (l : List UInt8) : ℕ :=
  match o with
  | .little => ofLeBytes l
  | .big => ofLeBytes l.reverse

theorem length_leBytes (w n : ℕ) : (leBytes w n).length = w := by
  induction w generalizing n with
  | zero => rfl
  | succ w ih => simp only [leBytes, List.length_cons, ih]

theorem ofLeBytes_leBytes (w n : ℕ) (hn : n < 256 ^ w) : ofLeBytes (leBytes w n) = n := by
  induction w generalizing n with
  | zero =>
      have h0 : n = 0 := by simpa using hn
      rw [h0]
      rfl
  | succ w ih =>
      have hq : n / 256 < 256 ^ w := by
        rw [Nat.div_lt_iff_lt_mul (by decide)]
        rwa [pow_succ] at hn
      simp only [leBytes, ofLeBytes, ih _ hq, UInt8.toNat_ofNat']
      omega

theorem ofLeBytes_lt (l : List UInt8) : ofLeBytes l < 256 ^ l.length := by
  induction l with
  | nil => simp [ofLeBytes]
  | cons b bs ih =>
      have hb : b.toNat < 256 := b.toNat_lt
      simp only [ofLeBytes, List.length_cons, pow_succ]
      omega

theorem leBytes_ofLeBytes (l : List UInt8) : leBytes l.length (ofLeBytes l) = l := by
  induction l with
  | nil => rfl
  | cons b bs ih =>
      have hb : b.toNat < 256 := b.toNat_lt
      have hq : (b.toNat + 256 * ofLeBytes bs) / 256 = ofLeBytes bs := by omega
      have hr : UInt8.ofNat (b.toNat + 256 * ofLeBytes bs) = b := by
        apply UInt8.toNat_inj.mp
        rw [UInt8.toNat_ofNat']
        omega
      simp only [ofLeBytes, List.length_cons, leBytes, hq, hr, ih]

theorem leBytes_add_mul (w w' lo hi : ℕ) (hlo : lo < 256 ^ w) :
    leBytes (w + w') (lo + 256 ^ w * hi) = leBytes w lo ++ leBytes w' hi := by
  induction w generalizing lo with
  | zero =>
      have h0 : lo = 0 := by simpa using hlo
      simp [h0, leBytes]
  | succ w ih =>
      have hq : lo / 256 < 256 ^ w := by
        rw [Nat.div_lt_iff_lt_mul (by decide)]
        rwa [pow_succ] at hlo
      have hpow : lo + 256 ^ (w + 1) * hi = lo + 256 * (256 ^ w * hi) := by ring
      have hdiv : (lo + 256 * (256 ^ w * hi)) / 256 = lo / 256 + 256 ^ w * hi := by omega
      have hhead : UInt8.ofNat (lo + 256 * (256 ^ w * hi)) = UInt8.ofNat lo := by
        apply UInt8.toNat_inj.mp
        rw [UInt8.toNat_ofNat', UInt8.toNat_ofNat']
        omega
      rw [hpow, Nat.add_right_comm w 1 w']
      simp only [leBytes, hhead, hdiv, ih _ hq, List.cons_append]

variable (o : ByteOrder)

@[simp] theorem length_toBytes (w n : ℕ) : (o.toBytes w n).length = w := by
  cases o <;> simp [toBytes, length_leBytes]

theorem ofBytes_toBytes (w n : ℕ) (hn : n < 256 ^ w) : o.ofBytes (o.toBytes w n) = n := by
  cases o <;> simp [toBytes, ofBytes, ofLeBytes_leBytes w n hn]

theorem toBytes_ofBytes (l : List UInt8) : o.toBytes l.length (o.ofBytes l) = l := by
  cases o with
  | little => exact leBytes_ofLeBytes l
  | big =>
      have h := leBytes_ofLeBytes l.reverse
      rw [List.length_reverse] at h
      simp only [toBytes, ofBytes, h, List.reverse_reverse]

theorem ofBytes_reverse (l : List UInt8) : little.ofBytes l.reverse = big.ofBytes l := rfl

theorem ofBytes_inj {l l' : List UInt8} (hlen : l.length = l'.length)
    (h : o.ofBytes l = o.ofBytes l') : l = l' := by
  rw [← o.toBytes_ofBytes l, h, hlen, o.toBytes_ofBytes]

theorem toBytes_ofBytes_of_length {l : List UInt8} {w : ℕ} (hl : l.length = w) :
    o.toBytes w (o.ofBytes l) = l := by
  rw [← hl, o.toBytes_ofBytes]

theorem ofBytes_lt (l : List UInt8) : o.ofBytes l < 256 ^ l.length := by
  cases o with
  | little => exact ofLeBytes_lt l
  | big => simpa only [ofBytes, List.length_reverse] using ofLeBytes_lt l.reverse

end ByteOrder

/-! ## Host and network order of machine words -/

/-- The word whose image on the host is the network-order image of `x`. -/
def htonl (host : ByteOrder) (x : UInt32) : UInt32 :=
  UInt32.ofNat (host.ofBytes (ByteOrder.big.toBytes 4 x.toNat))

def ntohl (host : ByteOrder) (x : UInt32) : UInt32 :=
  UInt32.ofNat (ByteOrder.big.ofBytes (host.toBytes 4 x.toNat))

def htons (host : ByteOrder) (x : UInt16) : UInt16 :=
  UInt16.ofNat (host.ofBytes (ByteOrder.big.toBytes 2 x.toNat))

def ntohs (host : ByteOrder) (x : UInt16) : UInt16 :=
  UInt16.ofNat (ByteOrder.big.ofBytes (host.toBytes 2 x.toNat))

theorem toNat_word (o : ByteOrder) (l : List UInt8) (hl : l.length = 4) :
    (UInt32.ofNat (o.ofBytes l)).toNat = o.ofBytes l := by
  have hlt := o.ofBytes_lt l
  rw [hl] at hlt
  rw [UInt32.toNat_ofNat', Nat.mod_eq_of_lt (by omega)]

theorem toNat_halfWord (o : ByteOrder) (l : List UInt8) (hl : l.length = 2) :
    (UInt16.ofNat (o.ofBytes l)).toNat = o.ofBytes l := by
  have hlt := o.ofBytes_lt l
  rw [hl] at hlt
  rw [UInt16.toNat_ofNat', Nat.mod_eq_of_lt (by omega)]

theorem toNat_htonl (host : ByteOrder) (x : UInt32) :
    (htonl host x).toNat = host.ofBytes (ByteOrder.big.toBytes 4 x.toNat) :=
  toNat_word host _ (ByteOrder.length_toBytes _ 4 _)

theorem toBytes_htonl (host : ByteOrder) (x : UInt32) :
    host.toBytes 4 (htonl host x).toNat = ByteOrder.big.toBytes 4 x.toNat := by
  rw [toNat_htonl, host.toBytes_ofBytes_of_length (ByteOrder.length_toBytes _ 4 _)]

theorem toBytes_htons (host : ByteOrder) (x : UInt16) :
    host.toBytes 2 (htons host x).toNat = ByteOrder.big.toBytes 2 x.toNat := by
  have hlen := ByteOrder.big.length_toBytes 2 x.toNat
  rw [htons, toNat_halfWord host _ hlen, host.toBytes_ofBytes_of_length hlen]

theorem htonl_htonl (host : ByteOrder) (x : UInt32) : htonl host (htonl host x) = x := by
  have hx := x.toNat_lt
  have himage := toBytes_htonl host x
  apply UInt32.toNat_inj.mp
  rw [toNat_htonl]
  cases host with
  | little =>
      have hback : ByteOrder.big.toBytes 4 (htonl .little x).toNat =
          ByteOrder.little.toBytes 4 x.toNat := by
        change (ByteOrder.little.toBytes 4 _).reverse = _
        rw [himage]
        exact List.reverse_reverse _
      rw [hback, ByteOrder.ofBytes_toBytes _ _ _ (by omega)]
  | big => rw [himage, ByteOrder.ofBytes_toBytes _ _ _ (by omega)]

/-- A word read from memory and taken to host order is the big-endian value of its bytes. -/
theorem toNat_ntohl_ofBytes (host : ByteOrder) (l : List UInt8) (hl : l.length = 4) :
    (ntohl host (UInt32.ofNat (host.ofBytes l))).toNat = ByteOrder.big.ofBytes l := by
  rw [ntohl, toNat_word host l hl, host.toBytes_ofBytes_of_length hl, toNat_word .big l hl]

theorem toNat_ntohs_ofBytes (host : ByteOrder) (l : List UInt8) (hl : l.length = 2) :
    (ntohs host (UInt16.ofNat (host.ofBytes l))).toNat = ByteOrder.big.ofBytes l := by
  rw [ntohs, toNat_halfWord host l hl, host.toBytes_ofBytes_of_length hl, toNat_halfWord .big l hl]

end TinyGameServer
