import TinyGameServer.DecimalText

/-!
# Serial ids

An id is the local time of the current second, written as one decimal number, times 1000 plus the
number of the call in that second. `localtime` stands for the time zone of the process, and the
years have the four digits that the text has room for.
-/

namespace TinyGameServer

/-- Broken-down time, `mon` counted from zero. -/
structure Tm where
  year : ℕ
  mon : ℕ
  mday : ℕ
  hour : ℕ
  min : ℕ
  sec : ℕ
  year_lt : year < 10000
  mon_lt : mon < 12
  mday_le : mday ≤ 31
  hour_lt : hour < 24
  min_lt : min < 60
  sec_le : sec ≤ 60

namespace Tm

open DecimalText

/-- The format `%Y%m%d%H%M%S`. -/
def strftime (tm : Tm) : List Char :=
  pad 4 tm.year ++ (pad 2 (tm.mon + 1) ++ (pad 2 tm.mday ++ (pad 2 tm.hour ++
    (pad 2 tm.min ++ pad 2 tm.sec))))

/-- The number `YYYYMMDDhhmmss`. -/
def stamp (tm : Tm) : ℕ :=
  ((((tm.year * 100 + (tm.mon + 1)) * 100 + tm.mday) * 100 + tm.hour) * 100 + tm.min) * 100 +
    tm.sec

theorem stamp_lt (tm : Tm) : tm.stamp < 10 ^ 14 := by
  have hyear := tm.year_lt
  have hmon := tm.mon_lt
  have hmday := tm.mday_le
  have hhour := tm.hour_lt
  have hmin := tm.min_lt
  have hsec := tm.sec_le
  unfold stamp
  omega

def fields (tm : Tm) : List ℕ := [tm.year, tm.mon, tm.mday, tm.hour, tm.min, tm.sec]

/-- The order of the calendar: the first field that differs decides. -/
def Earlier (tm tm' : Tm) : Prop := tm.fields < tm'.fields

instance (tm tm' : Tm) : Decidable (tm.Earlier tm') := inferInstanceAs (Decidable (_ < _))

/-- Every field has less than 100 values, so two digits have room for it. -/
theorem Earlier.stamp_lt {tm tm' : Tm} (h : tm.Earlier tm') : tm.stamp < tm'.stamp := by
  have hmon := tm.mon_lt
  have hmday := tm.mday_le
  have hhour := tm.hour_lt
  have hmin := tm.min_lt
  have hsec := tm.sec_le
  simp only [Earlier, fields, List.cons_lt_cons_iff, List.not_lt_nil, and_false, or_false] at h
  unfold stamp
  omega

theorem leadingValue_strftime (tm : Tm) : leadingValue tm.strftime = tm.stamp := by
  have hmon : tm.mon + 1 < 10 ^ 2 := by
    have := tm.mon_lt
    omega
  have hmday : tm.mday < 10 ^ 2 := Nat.lt_of_le_of_lt tm.mday_le (by decide)
  have hhour : tm.hour < 10 ^ 2 := Nat.lt_trans tm.hour_lt (by decide)
  have hmin : tm.min < 10 ^ 2 := Nat.lt_trans tm.min_lt (by decide)
  have hsec : tm.sec < 10 ^ 2 := Nat.lt_of_le_of_lt tm.sec_le (by decide)
  have hdigits : ∀ c ∈ tm.strftime, c.isDigit = true := by
    intro c hc
    simp only [strftime, List.mem_append] at hc
    rcases hc with hc | hc | hc | hc | hc | hc <;> exact isDigit_of_mem_pad hc
  rw [leadingValue_of_digits hdigits, strftime, ofDigitChars_pad_append tm.year_lt,
    ofDigitChars_pad_append hmon, ofDigitChars_pad_append hmday, ofDigitChars_pad_append hhour,
    ofDigitChars_pad_append hmin, ofDigitChars_pad, Nat.mod_eq_of_lt hsec, stamp]
  omega

end Tm

/-- The largest `long long` stands for what is too large. -/
def strtoll (text : List Char) : Int64 :=
  Int64.ofNat (min (DecimalText.leadingValue text) (2 ^ 63 - 1))

theorem strtoll_strftime (tm : Tm) : (strtoll tm.strftime).toInt = tm.stamp := by
  have hlt := tm.stamp_lt
  rw [strtoll, tm.leadingValue_strftime, Int64.toInt_ofNat_of_lt (by omega), Nat.min_eq_left]
  omega

/-- The static variables of `GenerateSerialID`, the time in seconds. -/
structure UID where
  currentTime : ℤ
  serial : Int32

namespace UID

def generateSerialID (localtime : ℤ → Tm) (u : UID) (current : ℤ) : Int64 × UID :=
  let u := if current ≠ u.currentTime then { currentTime := current, serial := 0 } else u
  let ll := strtoll (localtime u.currentTime).strftime
  let u := { u with serial := u.serial + 1 }
  (ll * 1000 + u.serial.toInt64, u)

/-- The number that the next call at this reading has in its second. -/
def nextSerial (u : UID) (current : ℤ) : Int32 :=
  if current = u.currentTime then u.serial + 1 else 1

variable (localtime : ℤ → Tm) (u : UID) (current : ℤ)

theorem generateSerialID_snd :
    (generateSerialID localtime u current).2 = ⟨current, u.nextSerial current⟩ := by
  unfold generateSerialID nextSerial
  by_cases hc : current = u.currentTime
  · simp [hc]
  · simp [hc]

/-- No step of the computation leaves the 64 bits. -/
theorem toInt_generateSerialID :
    (generateSerialID localtime u current).1.toInt =
      1000 * (localtime current).stamp + (u.nextSerial current).toInt := by
  have hid : (generateSerialID localtime u current).1 =
      strtoll (localtime current).strftime * 1000 + (u.nextSerial current).toInt64 := by
    unfold generateSerialID nextSerial
    by_cases hc : current = u.currentTime
    · simp [hc]
    · simp [hc]
  have hstamp := (localtime current).stamp_lt
  have hlow := (u.nextSerial current).le_toInt
  have hhigh := (u.nextSerial current).toInt_lt
  have hmul : (strtoll (localtime current).strftime * 1000).toInt =
      1000 * (localtime current).stamp := by
    have hthousand : (1000 : Int64).toInt = 1000 := rfl
    rw [Int64.toInt_mul, strtoll_strftime, hthousand, Int.bmod_eq_of_le_mul_two]
    · exact Int.mul_comm _ _
    · omega
    · omega
  rw [hid, Int64.toInt_add, hmul, Int32.toInt_toInt64, Int.bmod_eq_of_le_mul_two]
  · omega
  · omega

end UID
end TinyGameServer
