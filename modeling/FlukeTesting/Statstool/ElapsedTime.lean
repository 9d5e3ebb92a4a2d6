import FlukeTesting.Lib.Decimal
import FlukeTesting.Lib.Gregorian
import FlukeTesting.Statstool.Timestamp
import Mathlib.Algebra.Order.Floor.Ring
import Mathlib.Data.Int.GCD
import Mathlib.Data.Rat.Floor
import Mathlib.RingTheory.Coprime.Lemmas
import Mathlib.Tactic.Linarith

/-!
# What a time stamp is taken for

`parse_timestamp` hands the year and the month of a stamp to `mktime` as they are. So `mktime` takes
the month for the next one, 1900 years later, and the days of the stamp for days of that month; and
of the seconds it returns, 32 bits are kept. The distance of two stamps is right if the days of both
are moved equally far and no multiple of 2^32 seconds comes between.
-/

namespace FlukeTesting.Statstool

open Scanf Gregorian

/-- A valid time stamp in the format of the log, with its fraction in millionths of a second. -/
structure Stamp where
  year : ℕ
  month : ℕ
  day : ℕ
  hour : ℕ
  minute : ℕ
  second : ℕ
  micros : ℕ
  year_lt : year < 10 ^ 4
  month_pos : 1 ≤ month
  month_le : month ≤ 12
  day_pos : 1 ≤ day
  day_le : day ≤ monthLength year month
  hour_lt : hour < 24
  minute_lt : minute < 60
  second_lt : second < 60
  micros_lt : micros < 10 ^ 6

namespace Stamp

/-- The stamp as the log has it, in front of the rest of a line: `YYYY-MM-DDThh:mm:ss.ffffff`. -/
def line (t : Stamp) (rest : Text) : Text :=
  decimal 4 t.year ++ '-' :: (decimal 2 t.month ++ '-' :: (decimal 2 t.day ++ 'T' ::
    (decimal 2 t.hour ++ ':' :: (decimal 2 t.minute ++ ':' ::
      (decimal 2 t.second ++ '.' :: (decimal 6 t.micros ++ rest))))))

/-- The whole seconds from the start of the year zero to the stamp. -/
def wholeSeconds (t : Stamp) : ℕ :=
  (((daysTo t.year t.month + (t.day - 1)) * 24 + t.hour) * 60 + t.minute) * 60 + t.second

/-- The seconds from the start of the year zero to the stamp. -/
def seconds (t : Stamp) : ℚ := t.wholeSeconds + t.micros / 10 ^ 6

/-- How many days `mktime` moves the stamp: from the first of its month to the first of the next
month 1900 years later. -/
def shift (t : Stamp) : ℤ :=
  daysTo (t.year + 1900 + t.month / 12) (t.month % 12 + 1) - daysTo t.year t.month

/-- The seconds from the start of 1970 to the moved stamp. -/
def movedSeconds (utcOffset : ℤ) (t : Stamp) : ℤ :=
  t.wholeSeconds + (t.shift - daysTo 1970 1) * 86400 - utcOffset

/-- How many times 2^32 seconds have passed before the moved stamp. -/
def window (utcOffset : ℤ) (t : Stamp) : ℤ := t.movedSeconds utcOffset / 2 ^ 32

/-- Two digits are enough for numbers up to 59. -/
theorem lt_hundred (t : Stamp) :
    t.month < 10 ^ 2 ∧ t.day < 10 ^ 2 ∧ t.hour < 10 ^ 2 ∧ t.minute < 10 ^ 2 ∧
      t.second < 10 ^ 2 := by
  have hmonth := t.month_le
  have hday : t.day ≤ 31 := by
    apply t.day_le.trans
    unfold monthLength
    split
    · split <;> decide
    · split <;> decide
  have hhour := t.hour_lt
  have hminute := t.minute_lt
  have hsecond := t.second_lt
  omega

/-- The fields of the stamp as `sscanf` stores them. -/
def tm (t : Stamp) : Tm := ⟨t.year, t.month, t.day, t.hour, t.minute, t.second + t.micros / 10 ^ 6⟩

/-- `sscanf` reads all fields of a stamp in front of a blank. -/
theorem sscanf_line (t : Stamp) {rest : Text} (hrest : ∀ c ∈ rest.head?, isSpace c = true)
    (locals : Tm) : sscanf timestampFormat (t.line rest) locals = t.tm := by
  obtain ⟨hmonth, hday, hhour, hminute, hsecond⟩ := t.lt_hundred
  have hint {width n : ℕ} (c : Char) (text : Text) (hwidth : 0 < width) (hn : n < 10 ^ width)
      (hc : c.isDigit = false) :
      scanInt (decimal width n ++ c :: text) = some ((n : ℤ), c :: text) :=
    scanInt_decimal n (c :: text) hwidth hn (by simp [hc])
  have hmicros : t.micros < 10 ^ 6 := t.micros_lt
  have hdouble := scanDouble_decimal t.second rest t.micros (by decide : 0 < 2) hsecond hmicros hrest
  simp only [timestampFormat, line, sscanf,
    hint '-' _ (by decide) t.year_lt (by decide), hint '-' _ (by decide) hmonth (by decide),
    hint 'T' _ (by decide) hday (by decide), hint ':' _ (by decide) hhour (by decide),
    hint ':' _ (by decide) hminute (by decide), hdouble, if_true]
  rfl

/-- The table of `mktime` counts the days of the year zero on up to 1970 and from there. -/
theorem daysBefore_eq (year : ℕ) {month : ℕ} (h : month < 12) :
    daysBeforeYear year + daysBeforeMonth year month =
      (daysTo year (month + 1) : ℤ) - daysTo 1970 1 := by
  have hleap : isLeapYear year = decide (IsLeap year) := by
    rw [Bool.eq_iff_iff, decide_eq_true_iff]
    unfold isLeapYear IsLeap
    simp only [Bool.and_eq_true, Bool.or_eq_true, decide_eq_true_iff, bne_iff_ne]
    omega
  have hstart : (daysTo 1970 1 : ℤ) = 719528 := by
    have hyears := daysToYear_eq 1970
    have hmonths : daysToMonth 1970 1 = 0 := rfl
    rw [daysTo, hmonths, Nat.add_zero, hyears]
    decide
  have htable : ∀ m < 12,
      (([0, 31, 59, 90, 120, 151, 181, 212, 243, 273, 304, 334] : List ℕ).getD m 0 : ℤ) =
        ([0, 31, 59, 90, 120, 151, 181, 212, 243, 273, 304, 334] : List ℤ).getD m 0 := by decide
  have hmonth : daysBeforeMonth year month = daysToMonth year (month + 1) := by
    rw [daysToMonth_eq year h, daysBeforeMonth, hleap, Int.natCast_add, htable month h]
    simp
  have hyear : daysBeforeYear year = daysToYear year - 719528 := by
    rw [daysToYear_eq, daysBeforeYear]
    omega
  rw [hstart, daysTo, Int.natCast_add, hmonth, hyear]
  ring

/-- `mktime` computes the seconds of the moved stamp. -/
theorem mktime_tm (t : Stamp) (utcOffset : ℤ) :
    mktime utcOffset t.tm t.second = t.movedSeconds utcOffset := by
  have hmod : ((t.month : ℤ) % 12).toNat = t.month % 12 := by omega
  have hyear : (t.year : ℤ) + 1900 + (t.month : ℤ) / 12 =
      ((t.year + 1900 + t.month / 12 : ℕ) : ℤ) := by push_cast; rfl
  have hdays := daysBefore_eq (t.year + 1900 + t.month / 12)
    (Nat.mod_lt t.month (by decide : 0 < 12))
  have hday := t.day_pos
  simp only [mktime, tm, hmod, hyear, hdays, movedSeconds, wholeSeconds, shift]
  omega

/-- The conversion `(int)seconds` of a stamp gives its whole seconds. -/
theorem truncate_seconds (t : Stamp) : truncate t.tm.seconds = t.second := by
  have hmicros : (t.micros : ℚ) < 10 ^ 6 := by exact_mod_cast t.micros_lt
  have hfraction : (t.micros : ℚ) / 10 ^ 6 < 1 := (div_lt_one (by norm_num)).mpr hmicros
  have hnonneg : (0 : ℚ) ≤ t.micros / 10 ^ 6 := by positivity
  have hfloor : ⌊t.tm.seconds⌋ = (t.second : ℤ) := by
    rw [Int.floor_eq_iff, tm]
    push_cast
    constructor <;> linarith
  rw [truncate, if_pos (by rw [tm]; positivity)]
  exact hfloor

/-- What `parse_timestamp` makes of a stamp: the moved seconds without their upper bits, and the
fraction. -/
theorem parseTimestamp_line (t : Stamp) {rest : Text} (hrest : ∀ c ∈ rest.head?, isSpace c = true)
    (utcOffset : ℤ) (locals : Tm) :
    parseTimestamp utcOffset locals (t.line rest) =
      t.micros / 10 ^ 6 + (t.movedSeconds utcOffset % 2 ^ 32 : ℤ) := by
  unfold parseTimestamp
  dsimp only
  rw [t.sscanf_line hrest, t.truncate_seconds, t.mktime_tm, tm]
  push_cast
  ring

/-- A stamp is not moved by 2^24 days. -/
theorem abs_shift_lt (t : Stamp) : |t.shift| < 2 ^ 24 := by
  have hyear := t.year_lt
  have hlast := t.month_le
  have hbound (year month : ℕ) (hmonth : month < 12) (hle : year ≤ 20000) :
      daysTo year (month + 1) < 2 ^ 24 := by
    have hyears := daysToYear_le year
    have hmonths := daysToMonth_le year hmonth
    unfold daysTo
    omega
  have hmoved := hbound (t.year + 1900 + t.month / 12) (t.month % 12) (Nat.mod_lt _ (by decide))
    (by omega)
  have hown := hbound t.year (t.month - 1) (by omega) (by omega)
  rw [Nat.sub_add_cancel t.month_pos] at hown
  rw [abs_lt, shift]
  omega

end Stamp

/-- Two stamps are moved by the same number of days, into the same window of 2^32 seconds. -/
def Stamp.MovedAlike (utcOffset : ℤ) (t₁ t₂ : Stamp) : Prop :=
  t₁.shift = t₂.shift ∧ t₁.window utcOffset = t₂.window utcOffset

/-- A number of days makes up a multiple of 2^32 seconds only if it is a multiple of 2^25: a day has
2^7 * 675 seconds, and 675 is odd. -/
theorem days_eq_zero {days windows : ℤ} (h : days * 675 = 2 ^ 25 * windows)
    (hlower : -2 ^ 25 < days) (hupper : days < 2 ^ 25) : days = 0 := by
  have hdvd : (2 : ℤ) ^ 25 ∣ days :=
    IsCoprime.dvd_of_dvd_mul_right (Int.isCoprime_iff_gcd_eq_one.mpr (by decide)) ⟨windows, h⟩
  obtain ⟨k, rfl⟩ := hdvd
  omega

/-- The difference of the lower 32 bits is the true one exactly if the stamps are moved alike. -/
theorem movedAlike_iff (utcOffset : ℤ) (t₁ t₂ : Stamp) :
    t₁.MovedAlike utcOffset t₂ ↔
      t₂.movedSeconds utcOffset % 2 ^ 32 - t₁.movedSeconds utcOffset % 2 ^ 32 =
        (t₂.wholeSeconds : ℤ) - t₁.wholeSeconds := by
  have hmoved : t₂.movedSeconds utcOffset - t₁.movedSeconds utcOffset =
      t₂.wholeSeconds - t₁.wholeSeconds + (t₂.shift - t₁.shift) * 86400 := by
    unfold Stamp.movedSeconds
    ring
  have hsplit₁ := Int.mul_ediv_add_emod (t₁.movedSeconds utcOffset) (2 ^ 32)
  have hsplit₂ := Int.mul_ediv_add_emod (t₂.movedSeconds utcOffset) (2 ^ 32)
  constructor
  · rintro ⟨hshift, hwindow⟩
    unfold Stamp.window at hwindow
    rw [hshift, sub_self, zero_mul, add_zero] at hmoved
    rw [hwindow] at hsplit₁
    linarith
  · intro h
    have hdays : (t₂.shift - t₁.shift) * 675 =
        2 ^ 25 * (t₂.window utcOffset - t₁.window utcOffset) := by
      unfold Stamp.window
      linarith
    have h₁ := abs_lt.mp t₁.abs_shift_lt
    have h₂ := abs_lt.mp t₂.abs_shift_lt
    have hzero := days_eq_zero hdays (by linarith) (by linarith)
    rw [hzero, zero_mul] at hdays
    exact ⟨by linarith, by linarith⟩

/-- The parsed times of two lines have the true difference exactly if their stamps are moved
alike. -/
theorem parseTimestamp_sub_eq_iff (utcOffset : ℤ) (t₁ t₂ : Stamp) {rest₁ rest₂ : Text}
    (h₁ : ∀ c ∈ rest₁.head?, isSpace c = true) (h₂ : ∀ c ∈ rest₂.head?, isSpace c = true)
    (locals₁ locals₂ : Tm) :
    parseTimestamp utcOffset locals₂ (t₂.line rest₂) -
        parseTimestamp utcOffset locals₁ (t₁.line rest₁) = t₂.seconds - t₁.seconds ↔
      t₁.MovedAlike utcOffset t₂ := by
  have hwhole (a b c d : ℤ) (x y : ℚ) :
      x + (a : ℚ) - (y + (b : ℚ)) = (c : ℚ) + x - ((d : ℚ) + y) ↔ a - b = c - d := by
    constructor
    · intro h
      have hcast : ((a - b : ℤ) : ℚ) = ((c - d : ℤ) : ℚ) := by
        push_cast
        linarith
      exact_mod_cast hcast
    · intro h
      have hcast : ((a - b : ℤ) : ℚ) = ((c - d : ℤ) : ℚ) := by rw [h]
      push_cast at hcast
      linarith
  rw [t₁.parseTimestamp_line h₁, t₂.parseTimestamp_line h₂, movedAlike_iff]
  exact hwhole _ _ t₂.wholeSeconds t₁.wholeSeconds _ _

/-- The elapsed time between two stamps at the fronts of lines is exact. -/
def ElapsedExact (utcOffset : ℤ) (t₁ t₂ : Stamp) : Prop :=
  ∀ (rest₁ rest₂ : Text) (locals₁ locals₂ : Tm), (∀ c ∈ rest₁.head?, isSpace c = true) →
    (∀ c ∈ rest₂.head?, isSpace c = true) →
    parseTimestamp utcOffset locals₂ (t₂.line rest₂) -
      parseTimestamp utcOffset locals₁ (t₁.line rest₁) = t₂.seconds - t₁.seconds

/-- The elapsed time between two stamps is exact exactly if both are moved alike. -/
theorem elapsedExact_iff (utcOffset : ℤ) (t₁ t₂ : Stamp) :
    ElapsedExact utcOffset t₁ t₂ ↔ t₁.MovedAlike utcOffset t₂ := by
  constructor
  · intro h
    have hnil : ∀ c ∈ ([] : Text).head?, isSpace c = true := by simp
    exact (parseTimestamp_sub_eq_iff utcOffset t₁ t₂ hnil hnil _ _).mp
      (h [] [] ⟨0, 0, 0, 0, 0, 0⟩ ⟨0, 0, 0, 0, 0, 0⟩ hnil hnil)
  · intro h rest₁ rest₂ locals₁ locals₂ h₁ h₂
    exact (parseTimestamp_sub_eq_iff utcOffset t₁ t₂ h₁ h₂ locals₁ locals₂).mpr h

/-- The last second of a January. -/
def endOfJanuary : Stamp :=
  ⟨2012, 1, 31, 23, 59, 59, 0, by decide, by decide, by decide, by decide, by decide, by decide,
    by decide, by decide, by decide⟩

/-- The first second of the February behind it. -/
def startOfFebruary : Stamp :=
  ⟨2012, 2, 1, 0, 0, 0, 0, by decide, by decide, by decide, by decide, by decide, by decide,
    by decide, by decide, by decide⟩

/-- Between these two seconds the parsed time goes back. -/
theorem endOfJanuary_not_exact : endOfJanuary.seconds ≤ startOfFebruary.seconds ∧
    ¬ ElapsedExact 0 endOfJanuary startOfFebruary := by
  have hwhole : (endOfJanuary.wholeSeconds : ℤ) + 1 = startOfFebruary.wholeSeconds := by
    decide +kernel
  have hmoved : startOfFebruary.movedSeconds 0 % 2 ^ 32 <
      endOfJanuary.movedSeconds 0 % 2 ^ 32 := by
    decide +kernel
  constructor
  · have hle : (endOfJanuary.wholeSeconds : ℚ) ≤ startOfFebruary.wholeSeconds := by
      exact_mod_cast (show endOfJanuary.wholeSeconds ≤ startOfFebruary.wholeSeconds by omega)
    have hmicros : (((0 : ℕ) : ℚ) / 10 ^ 6) = 0 := by rw [Nat.cast_zero, zero_div]
    calc endOfJanuary.seconds = endOfJanuary.wholeSeconds + ((0 : ℕ) : ℚ) / 10 ^ 6 := rfl
      _ ≤ startOfFebruary.wholeSeconds + ((0 : ℕ) : ℚ) / 10 ^ 6 := by
        rw [hmicros, add_zero, add_zero]
        exact hle
      _ = startOfFebruary.seconds := rfl
  · intro h
    have hnil : ∀ c ∈ ([] : Text).head?, isSpace c = true := by simp
    have hparse := (parseTimestamp_sub_eq_iff 0 endOfJanuary startOfFebruary hnil hnil _ _).mp
      (h [] [] ⟨0, 0, 0, 0, 0, 0⟩ ⟨0, 0, 0, 0, 0, 0⟩ hnil hnil)
    rw [movedAlike_iff] at hparse
    omega

end FlukeTesting.Statstool
