import TinyGameServer.ByteOrder
import TinyGameServer.DecimalText

/-!
# Splitting an address

`SplitHostPort` cuts an address at its last colon. The position is narrowed to `int`, where `npos`
becomes -1, and -1 is widened to `npos` again for the comparison. Strings are lists of bytes.
-/

namespace TinyGameServer.HostPort

def colon : UInt8 := 58

def npos : UInt64 := -1

def lastIdxOf? (c : UInt8) : List UInt8 → Option ℕ
  | [] => none
  | b :: s =>
    match lastIdxOf? c s with
    | some i => some (i + 1)
    | none => if b = c then some 0 else none

def rfind (s : List UInt8) (c : UInt8) : UInt64 :=
  match lastIdxOf? c s with
  | some i => UInt64.ofNat i
  | none => npos

def isSpace (c : UInt8) : Bool := c == 32 || (9 ≤ c && c ≤ 13)

def sign : List UInt8 → Bool × List UInt8
  | 43 :: text => (false, text)
  | 45 :: text => (true, text)
  | text => (false, text)

/-- The digits end at the terminating NUL at the latest. A value that `int` has no room for is
undefined. -/
def atoi (text : List UInt8) : Option Int32 :=
  let (negative, text) := sign (text.dropWhile isSpace)
  let magnitude : ℕ := DecimalText.leadingValue (text.map Char.ofUInt8)
  let value : Int := if negative then -magnitude else magnitude
  if -2 ^ 31 ≤ value ∧ value < 2 ^ 31 then some (Int32.ofInt value) else none

/-- The subscript may be the size of the string, which gives its terminating NUL. Anything beyond
and an overflow of `index + 1` are undefined. -/
def splitHostPort (addr : List UInt8) : Option (List UInt8 × Int32) :=
  let index : Int32 := (rfind addr colon).toUInt32.toInt32
  if index.toInt64.toUInt64 = npos then some ([], -1)
  else
    let next := index.toInt + 1
    if 0 ≤ next ∧ next < 2 ^ 31 ∧ next ≤ addr.length then
      (atoi (addr.drop next.toNat)).map fun port => (addr.take index.toInt64.toUInt64.toNat, port)
    else none

/-- `sin_port` in `Listen` and `Connect`, the number of the port narrowed to 16 bits. -/
def sinPort (order : ByteOrder) (addr : List UInt8) : Option UInt16 :=
  (splitHostPort addr).map fun hostPort => htons order hostPort.2.toUInt32.toUInt16

/-- A port in decimal behind any number of zeros. -/
def portText (zeros port : ℕ) : List UInt8 :=
  (List.replicate zeros '0' ++ Nat.toDigits 10 port).map Char.toUInt8

def intText (value : Int) : List UInt8 :=
  if value < 0 then 45 :: portText 0 value.natAbs else portText 0 value.natAbs

/-! ## The last colon -/

theorem lastIdxOf?_of_not_mem {c : UInt8} {s : List UInt8} (h : c ∉ s) : lastIdxOf? c s = none := by
  induction s with
  | nil => rfl
  | cons b s ih =>
      rw [List.mem_cons, not_or] at h
      simp [lastIdxOf?, ih h.2, Ne.symm h.1]

theorem lastIdxOf?_append (host : List UInt8) {c : UInt8} {text : List UInt8} (h : c ∉ text) :
    lastIdxOf? c (host ++ c :: text) = some host.length := by
  induction host with
  | nil => simp [lastIdxOf?, lastIdxOf?_of_not_mem h]
  | cons b host ih => simp [lastIdxOf?, ih]

theorem splitHostPort_of_not_mem {addr : List UInt8} (h : colon ∉ addr) :
    splitHostPort addr = some ([], -1) := by
  rw [splitHostPort, rfind, lastIdxOf?_of_not_mem h]
  rfl

/-- An address that ends in a text without a colon, behind a host of any bytes. -/
theorem splitHostPort_append (host : List UInt8) {text : List UInt8} (htext : colon ∉ text)
    (hlen : host.length + 1 < 2 ^ 31) :
    splitHostPort (host ++ colon :: text) = (atoi text).map (host, ·) := by
  have hindex : (UInt64.ofNat host.length).toUInt32.toInt32 = Int32.ofNat host.length := by
    rw [UInt64.toUInt32_ofNat', UInt32.toInt32_ofNat']
  have hwide : (Int32.ofNat host.length).toInt64.toUInt64.toNat = host.length := by
    have hmax : Int32.maxValue.toInt = 2 ^ 31 - 1 := rfl
    rw [Int32.toInt64_ofNat' (by omega), Int64.toUInt64_ofNat', UInt64.toNat_ofNat_of_lt']
    exact (Nat.lt_of_succ_lt hlen).trans (by decide)
  have hfound : (Int32.ofNat host.length).toInt64.toUInt64 ≠ npos := by
    intro heq
    rw [heq] at hwide
    have hnpos : npos.toNat = 2 ^ 64 - 1 := rfl
    omega
  have hnext : (Int32.ofNat host.length).toInt = host.length :=
    Int32.toInt_ofNat_of_lt (Nat.lt_of_succ_lt hlen)
  have hroom : host.length + 1 ≤ (host ++ colon :: text).length := by
    rw [List.length_append, List.length_cons]
    omega
  have hdrop : (host ++ colon :: text).drop (host.length + 1) = text := by
    rw [← List.drop_drop, List.drop_left]
    rfl
  have hsubscript : ((host.length : Int) + 1).toNat = host.length + 1 := rfl
  simp only [splitHostPort, rfind, lastIdxOf?_append host htext, hindex, if_neg hfound, hnext]
  rw [if_pos (by omega), hsubscript, hdrop, hwide, List.take_left]

/-! ## The digits -/

theorem toNat_toUInt8 {c : Char} (hc : c.isDigit = true) : c.toUInt8.toNat = c.toNat := by
  have hle : c.toNat ≤ 57 := (Char.isDigit_iff_toNat.mp hc).2
  change c.toNat % 256 = c.toNat
  omega

theorem ofUInt8_toUInt8 {c : Char} (hc : c.isDigit = true) : Char.ofUInt8 c.toUInt8 = c := by
  apply Char.toNat_inj.mp
  exact toNat_toUInt8 hc

theorem isDigit_of_mem_digits {zeros port : ℕ} {c : Char}
    (hc : c ∈ List.replicate zeros '0' ++ Nat.toDigits 10 port) : c.isDigit = true := by
  rcases List.mem_append.mp hc with hc | hc
  · rw [List.eq_of_mem_replicate hc]
    rfl
  · exact Nat.isDigit_of_mem_toDigits (by decide) (by decide) hc

theorem bounds_of_mem_portText {zeros port : ℕ} {b : UInt8} (hb : b ∈ portText zeros port) :
    48 ≤ b.toNat ∧ b.toNat ≤ 57 := by
  obtain ⟨c, hc, rfl⟩ := List.mem_map.mp hb
  have hdigit := isDigit_of_mem_digits hc
  rw [toNat_toUInt8 hdigit]
  exact Char.isDigit_iff_toNat.mp hdigit

theorem colon_not_mem_portText (zeros port : ℕ) : colon ∉ portText zeros port := by
  intro h
  have hle := (bounds_of_mem_portText h).2
  exact absurd hle (by decide)

theorem map_portText (zeros port : ℕ) : (portText zeros port).map Char.ofUInt8 =
    List.replicate zeros '0' ++ Nat.toDigits 10 port := by
  rw [portText, List.map_map]
  have hback : ∀ c ∈ List.replicate zeros '0' ++ Nat.toDigits 10 port,
      (Char.ofUInt8 ∘ Char.toUInt8) c = id c :=
    fun c hc => ofUInt8_toUInt8 (isDigit_of_mem_digits hc)
  rw [List.map_congr_left hback, List.map_id]

theorem leadingValue_portText (zeros port : ℕ) :
    DecimalText.leadingValue ((portText zeros port).map Char.ofUInt8) = port := by
  rw [map_portText, DecimalText.leadingValue_of_digits fun c hc => isDigit_of_mem_digits hc,
    Nat.ofDigitChars_append, Nat.ofDigitChars_replicate_zero, Nat.mul_zero,
    Nat.ofDigitChars_ten_toDigits]

theorem sign_portText (zeros port : ℕ) :
    sign ((portText zeros port).dropWhile isSpace) = (false, portText zeros port) := by
  cases htext : portText zeros port with
  | nil => rfl
  | cons b text =>
      obtain ⟨hlow, hhigh⟩ := bounds_of_mem_portText (htext ▸ List.mem_cons_self)
      have hblank : b ≠ 32 := by
        rintro rfl
        exact absurd hlow (by decide)
      have hcontrol : ¬ b ≤ 13 := by
        intro hle
        have hle' : b.toNat ≤ 13 := UInt8.le_iff_toNat_le.mp hle
        omega
      have hspace : isSpace b = false := by simp [isSpace, hblank, hcontrol]
      rw [List.dropWhile_cons_of_neg (by rw [hspace]; exact Bool.false_ne_true), sign]
      · intro rest heq
        cases heq
        exact absurd hlow (by decide)
      · intro rest heq
        cases heq
        exact absurd hlow (by decide)

theorem atoi_portText {zeros port : ℕ} (hport : port < 2 ^ 31) :
    atoi (portText zeros port) = some (Int32.ofNat port) := by
  simp only [atoi, sign_portText, leadingValue_portText, Bool.false_eq_true, if_false]
  rw [if_pos (by omega), Int32.ofInt_eq_ofNat]

/-! ## Joining and splitting -/

theorem splitHostPort_join (host : List UInt8) {zeros port : ℕ} (hport : port ≤ 65535)
    (hlen : (host ++ colon :: portText zeros port).length < 2 ^ 31) :
    splitHostPort (host ++ colon :: portText zeros port) = some (host, Int32.ofNat port) := by
  rw [List.length_append, List.length_cons] at hlen
  rw [splitHostPort_append host (colon_not_mem_portText zeros port) (by omega),
    atoi_portText (by omega)]
  rfl

theorem sinPort_join (order : ByteOrder) (host : List UInt8) {zeros port : ℕ}
    (hport : port ≤ 65535) (hlen : (host ++ colon :: portText zeros port).length < 2 ^ 31) :
    ∃ p, sinPort order (host ++ colon :: portText zeros port) = some p ∧
      order.toBytes 2 p.toNat = ByteOrder.big.toBytes 2 port := by
  have hnarrow : (Int32.ofNat port).toUInt32.toUInt16.toNat = port := by
    rw [Int32.toUInt32_ofNat', UInt32.toUInt16_ofNat', UInt16.toNat_ofNat_of_lt']
    exact Nat.lt_succ_of_le hport
  refine ⟨htons order (Int32.ofNat port).toUInt32.toUInt16, ?_, ?_⟩
  · rw [sinPort, splitHostPort_join host hport hlen]
    rfl
  · rw [toBytes_htons, hnarrow]

/-- Splitting gives back the host, whatever bytes it has, and the port that were joined, and finds
no host and no port where there is no colon. -/
theorem splitHostPort_inverts_join :
    (∀ (host : List UInt8) (zeros port : ℕ), port ≤ 65535 →
      (host ++ colon :: portText zeros port).length < 2 ^ 31 →
      splitHostPort (host ++ colon :: portText zeros port) = some (host, Int32.ofNat port)) ∧
    ∀ addr : List UInt8, colon ∉ addr → splitHostPort addr = some ([], -1) :=
  ⟨fun host _ _ => splitHostPort_join host, fun _ => splitHostPort_of_not_mem⟩

theorem splitHostPort_loopback :
    splitHostPort [58, 58, 49, 58, 48, 56, 48, 56, 48] = some ([58, 58, 49], 8080) :=
  splitHostPort_inverts_join.1 [58, 58, 49] 1 8080 (by decide) (by decide)

end TinyGameServer.HostPort
