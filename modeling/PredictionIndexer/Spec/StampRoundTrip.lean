import PredictionIndexer.Finalize.Stamp

/-!
# Stamps read back

The calendar of the source and its inverse undo each other, on every day and on every date of the
Gregorian calendar. So the fields of a stamp name the instant they were written from, as far as
microseconds go, and the stamp and the date partition show one date.

The name must end its stamp with a dash, or end there: what is read is the part before the first
dash.
-/

namespace PredictionIndexer.Finalize

open Fallible

/-! ## The Gregorian calendar -/

def isLeapYear (year : Int) : Bool := year % 4 = 0 && (year % 100 ≠ 0 || year % 400 = 0)

def monthLength (year : Int) (month : Nat) : Nat :=
  if month = 2 then if isLeapYear year then 29 else 28
  else if month = 4 ∨ month = 6 ∨ month = 9 ∨ month = 11 then 30 else 31

/-- A date of the calendar. -/
structure ValidDate (year : Int) (month day : Nat) : Prop where
  month_pos : 1 ≤ month
  month_le : month ≤ 12
  day_pos : 1 ≤ day
  day_le : day ≤ monthLength year month

/-! ## March years -/

/-- The months of a year that starts in March; the last has its leap day. -/
def marchLength (mp : Nat) : Nat :=
  if mp = 1 ∨ mp = 3 ∨ mp = 6 ∨ mp = 8 then 30 else if mp = 11 then 29 else 31

/-- The day of a March year of a day of one of its months. -/
def marchDay (mp day : Nat) : Nat := (153 * mp + 2) / 5 + day - 1

/-- The month and the day of a day of a March year. -/
theorem marchDay_spec : ∀ doy < 366, (5 * doy + 2) / 153 < 12 ∧
    1 ≤ doy - (153 * ((5 * doy + 2) / 153) + 2) / 5 + 1 ∧
    doy - (153 * ((5 * doy + 2) / 153) + 2) / 5 + 1 ≤ marchLength ((5 * doy + 2) / 153) ∧
    marchDay ((5 * doy + 2) / 153) (doy - (153 * ((5 * doy + 2) / 153) + 2) / 5 + 1) = doy ∧
    (doy - (153 * ((5 * doy + 2) / 153) + 2) / 5 + 1 = 29 ∧ (5 * doy + 2) / 153 = 11 ↔
      doy = 365) := by
  decide +kernel

/-- A day of a month is that day of the year. -/
theorem marchDay_inverse : ∀ mp < 12, ∀ day < marchLength mp,
    marchDay mp (day + 1) < 366 ∧ (5 * marchDay mp (day + 1) + 2) / 153 = mp ∧
    marchDay mp (day + 1) - (153 * mp + 2) / 5 = day ∧
    (marchDay mp (day + 1) = 365 ↔ mp = 11 ∧ day = 28) := by
  decide +kernel

/-- A March year has its leap day when the next civil year is a leap year. -/
theorem yearEnd_eq : ∀ year < 400, yearEnd year =
    yearStart year + if (year + 1) % 4 = 0 ∧ ((year + 1) % 100 ≠ 0 ∨ (year + 1) % 400 = 0)
      then 366 else 365 := by
  decide +kernel

/-- The month of a calendar year of a month of a March year. -/
def civilMonth (mp : Nat) : Nat := if mp < 10 then mp + 3 else mp - 9

/-- The year of the calendar in which a month of a March year lies. -/
def civilYear (year : Int) (mp : Nat) : Int := if mp < 10 then year else year + 1

theorem isLeapYear_era (era : Int) (year : Nat) : isLeapYear (era * 400 + year + 1) = true ↔
    (year + 1) % 4 = 0 ∧ ((year + 1) % 100 ≠ 0 ∨ (year + 1) % 400 = 0) := by
  unfold isLeapYear
  simp only [Bool.and_eq_true, Bool.or_eq_true, decide_eq_true_eq]
  omega

/-- The length of a month, by its place in the March year. -/
theorem monthLength_civil {era : Int} {year mp : Nat} (hmp : mp < 12) :
    monthLength (civilYear (era * 400 + year) mp) (civilMonth mp) =
      if mp = 11 then
        if (year + 1) % 4 = 0 ∧ ((year + 1) % 100 ≠ 0 ∨ (year + 1) % 400 = 0) then 29 else 28
      else marchLength mp := by
  have hleap := isLeapYear_era era year
  by_cases h : mp = 11
  · subst h
    have hyear : civilYear (era * 400 + year) 11 = era * 400 + year + 1 := rfl
    rw [hyear, if_pos rfl]
    show (if isLeapYear (era * 400 + year + 1) = true then 29 else 28) = _
    simp only [hleap]
  · rw [if_neg h]
    interval_cases mp <;> first | rfl | exact absurd rfl h

/-! ## The two directions -/

/-- The date of a day, from its place in its era. -/
theorem civilFromDaysI64_eq {days era : Int} {doe year : Nat}
    (hz : days + 719468 = era * 146097 + doe) (hyear : year < 400)
    (hstart : yearStart year ≤ doe) (hend : doe < yearEnd year) :
    civilFromDaysI64 days =
      (civilYear (era * 400 + year) ((5 * (doe - yearStart year) + 2) / 153),
        civilMonth ((5 * (doe - yearStart year) + 2) / 153),
        doe - yearStart year - (153 * ((5 * (doe - yearStart year) + 2) / 153) + 2) / 5 + 1) := by
  have hle := (yearEnd_le year hyear).2.1
  have hera : (if 0 ≤ days + 719468 then days + 719468 else days + 719468 - 146096).tdiv 146097 =
      era := by
    split
    · rw [Int.tdiv_eq_ediv_of_nonneg (by omega)]
      omega
    · have hneg : days + 719468 - 146096 = -(146096 - (days + 719468)) := by ring
      rw [hneg, Int.neg_tdiv, Int.tdiv_eq_ediv_of_nonneg (by omega)]
      omega
  have hdoe : (days + 719468 - era * 146097).toNat = doe := by omega
  have hyoe : (doe - doe / 1460 + doe / 36524 - doe / 146096) / 365 = year :=
    yearDays_div hyear hstart hend
  unfold civilFromDaysI64
  simp only [hera, hdoe, hyoe]
  rw [show 365 * year + year / 4 - year / 100 = yearStart year from rfl]
  set mp := (5 * (doe - yearStart year) + 2) / 153
  have hlen := (yearEnd_le year hyear).2.2
  have hmp : mp < 12 := (marchDay_spec (doe - yearStart year) (by omega)).1
  unfold civilYear civilMonth
  by_cases hspring : mp < 10
  · rw [if_pos hspring, if_pos hspring, if_neg (by omega), Int.add_comm]
  · rw [if_neg hspring, if_neg hspring, if_pos (by omega), Int.add_comm (year : Int)]

/-- The day of a date, from the March year it lies in. -/
theorem daysFromCivil_eq {era : Int} {year mp day : Nat} (hyear : year < 400) (hmp : mp < 12) :
    daysFromCivil (civilYear (era * 400 + year) mp) (civilMonth mp) day =
      era * 146097 + (yearStart year + marchDay mp day : Nat) - 719468 := by
  have hmonth : civilMonth mp ≤ 2 ↔ ¬mp < 10 := by
    unfold civilMonth
    split <;> omega
  have hmarch : (if civilMonth mp ≤ 2 then civilYear (era * 400 + year) mp - 1
      else civilYear (era * 400 + year) mp) = era * 400 + year := by
    unfold civilYear
    by_cases hspring : mp < 10
    · rw [if_pos hspring, if_neg (fun hlate => hmonth.mp hlate hspring)]
    · rw [if_neg hspring, if_pos (hmonth.mpr hspring)]
      omega
  have hera : (if 0 ≤ era * 400 + (year : Int) then era * 400 + (year : Int)
      else era * 400 + (year : Int) - 399).tdiv 400 = era := by
    split
    · rw [Int.tdiv_eq_ediv_of_nonneg (by omega)]
      omega
    · have hneg : era * 400 + (year : Int) - 399 = -(399 - (era * 400 + (year : Int))) := by ring
      rw [hneg, Int.neg_tdiv, Int.tdiv_eq_ediv_of_nonneg (by omega)]
      omega
  have hyoe : (era * 400 + (year : Int) - era * 400).toNat = year := by omega
  have hplace : (if civilMonth mp > 2 then civilMonth mp - 3 else civilMonth mp + 9) = mp := by
    unfold civilMonth
    split <;> split <;> omega
  unfold daysFromCivil
  simp only [hmarch, hera, hyoe, hplace]
  rw [show year * 365 + year / 4 - year / 100 = yearStart year by unfold yearStart; omega]
  rfl

/-- Every day has its place: an era, a year of it and a day of that. -/
theorem exists_place (days : Int) : ∃ (era : Int) (doe year : Nat),
    days + 719468 = era * 146097 + doe ∧ year < 400 ∧ yearStart year ≤ doe ∧
      doe < yearEnd year := by
  have hdoe : ((days + 719468) % 146097).toNat < 146097 := by omega
  obtain ⟨year, hyear, hstart, hend⟩ := exists_year hdoe
  exact ⟨(days + 719468) / 146097, _, year, by omega, hyear, hstart, hend⟩

theorem daysFromCivil_civilFromDaysI64 (days : Int) :
    daysFromCivil (civilFromDaysI64 days).1 (civilFromDaysI64 days).2.1
      (civilFromDaysI64 days).2.2 = days := by
  obtain ⟨era, doe, year, hz, hyear, hstart, hend⟩ := exists_place days
  have hlen := (yearEnd_le year hyear).2.2
  obtain ⟨hmp, -, -, hday, -⟩ := marchDay_spec (doe - yearStart year) (by omega)
  rw [civilFromDaysI64_eq hz hyear hstart hend]
  show daysFromCivil _ _ _ = days
  rw [daysFromCivil_eq hyear hmp, hday]
  omega

/-- What the calendar returns is a date. -/
theorem civilFromDaysI64_valid (days : Int) : ValidDate (civilFromDaysI64 days).1
    (civilFromDaysI64 days).2.1 (civilFromDaysI64 days).2.2 := by
  obtain ⟨era, doe, year, hz, hyear, hstart, hend⟩ := exists_place days
  have hlen := (yearEnd_le year hyear).2.2
  have hend' := yearEnd_eq year hyear
  obtain ⟨hmp, hpos, hle, -, hleap⟩ := marchDay_spec (doe - yearStart year) (by omega)
  rw [civilFromDaysI64_eq hz hyear hstart hend]
  set mp := (5 * (doe - yearStart year) + 2) / 153
  set day := doe - yearStart year - (153 * mp + 2) / 5 + 1
  have hmonth : 1 ≤ civilMonth mp ∧ civilMonth mp ≤ 12 := by
    unfold civilMonth
    split <;> omega
  refine ⟨hmonth.1, hmonth.2, hpos, ?_⟩
  show day ≤ monthLength (civilYear (era * 400 + year) mp) (civilMonth mp)
  rw [monthLength_civil hmp]
  split
  next hlast =>
    have hlast' : marchLength mp = 29 := by rw [hlast]; rfl
    split
    next => omega
    next hcommon =>
      -- a year without a leap day has no day 365
      rw [if_neg hcommon] at hend'
      have hne : ¬(day = 29 ∧ mp = 11) := by
        rw [hleap]
        omega
      omega
  next => exact hle

/-- Every date lies in a March year. -/
theorem exists_march {y : Int} {m d : Nat} (h : ValidDate y m d) :
    ∃ (era : Int) (year mp : Nat), year < 400 ∧ mp < 12 ∧ d ≤ marchLength mp ∧
      y = civilYear (era * 400 + year) mp ∧ m = civilMonth mp := by
  obtain ⟨hpos, hle, -, hday⟩ := h
  obtain ⟨mp, hmp, hm⟩ : ∃ mp < 12, m = civilMonth mp := by
    by_cases hlate : m ≤ 2
    · exact ⟨m + 9, by omega, by rw [civilMonth, if_neg (by omega)]; omega⟩
    · exact ⟨m - 3, by omega, by rw [civilMonth, if_pos (by omega)]; omega⟩
  obtain ⟨y', hy⟩ : ∃ y', y = civilYear y' mp := by
    by_cases hspring : mp < 10
    · exact ⟨y, by rw [civilYear, if_pos hspring]⟩
    · exact ⟨y - 1, by rw [civilYear, if_neg hspring]; omega⟩
  have hsplit : y' = y' / 400 * 400 + ((y' % 400).toNat : Int) := by omega
  refine ⟨y' / 400, (y' % 400).toNat, mp, by omega, hmp, ?_, by rw [← hsplit]; exact hy, hm⟩
  rw [hy, hm, hsplit, monthLength_civil hmp] at hday
  split at hday
  next hlast =>
    subst hlast
    show d ≤ 29
    split at hday <;> omega
  next => exact hday

theorem civilFromDaysI64_daysFromCivil {y : Int} {m d : Nat} (h : ValidDate y m d) :
    civilFromDaysI64 (daysFromCivil y m d) = (y, m, d) := by
  obtain ⟨era, year, mp, hyear, hmp, hle, rfl, rfl⟩ := exists_march h
  have hdpos := h.day_pos
  have hday := h.day_le
  obtain ⟨day, rfl⟩ : ∃ day, d = day + 1 := ⟨d - 1, by omega⟩
  obtain ⟨hdoy, hmonth, hback, hleap⟩ := marchDay_inverse mp hmp day (by omega)
  have hend := yearEnd_eq year hyear
  -- the day lies in its March year: day 365 is there in a leap year only
  have hin : yearStart year + marchDay mp (day + 1) < yearEnd year := by
    rw [monthLength_civil hmp] at hday
    by_cases hlast : marchDay mp (day + 1) = 365
    · obtain ⟨hmp', hday'⟩ := hleap.mp hlast
      rw [if_pos hmp'] at hday
      split at hday
      next hyes =>
        rw [if_pos hyes] at hend
        omega
      next => omega
    · split at hend <;> omega
  rw [daysFromCivil_eq hyear hmp]
  rw [civilFromDaysI64_eq (show _ + 719468 = era * 146097 + _ by omega) hyear
    (Nat.le_add_right _ _) hin]
  rw [Nat.add_sub_cancel_left, hmonth, hback]

/-- On the days of a `u64` of nanoseconds this is the date of the partitions. -/
theorem civilFromDaysI64_natCast (days : Nat) : civilFromDaysI64 days =
    (((civilFromDays days).1 : Int), (civilFromDays days).2.1, (civilFromDays days).2.2) := by
  have hera : (if 0 ≤ (days : Int) + 719468 then (days : Int) + 719468
      else (days : Int) + 719468 - 146096).tdiv 146097 = ((days + 719468) / 146097 : Nat) := by
    rw [if_pos (by omega), Int.tdiv_eq_ediv_of_nonneg (by omega)]
    omega
  have hdoe : ((days : Int) + 719468 - ((days + 719468) / 146097 : Nat) * 146097).toNat =
      days + 719468 - (days + 719468) / 146097 * 146097 := by omega
  unfold civilFromDaysI64 civilFromDays
  simp only [hera, hdoe]
  refine Prod.ext ?_ rfl
  push_cast
  split <;> rfl

/-! ## Fields of a stamp -/

theorem length_zeroPadded {width n : Nat} (hwidth : 0 < width) (h : n < 10 ^ width) :
    (zeroPadded width n).length = width := by
  have hle := (Nat.length_toDigits_le_iff (by decide : 1 < 10) hwidth).mpr h
  simp only [zeroPadded, List.length_append, List.length_replicate]
  omega

theorem isDigit_zeroPadded {width n : Nat} {c : Char} (h : c ∈ zeroPadded width n) :
    c.isDigit = true := by
  rcases List.mem_append.mp h with h | h
  · rw [List.eq_of_mem_replicate h]
    decide
  · exact Nat.isDigit_of_mem_toDigits (by decide) (by decide) h

@[simp] theorem parseField_zeroPadded (width n : Nat) :
    parseField (zeroPadded width n) = some n := by
  have hall : (zeroPadded width n).all Char.isDigit = true :=
    List.all_eq_true.mpr fun c hc => isDigit_zeroPadded hc
  have hne : (zeroPadded width n).isEmpty = false := by
    simp [zeroPadded, Nat.toDigits_ne_nil]
  unfold parseField
  rw [if_pos (by rw [hall, hne]; rfl), zeroPadded, Nat.ofDigitChars_append,
    Nat.ofDigitChars_replicate_zero, Nat.mul_zero, Nat.ofDigitChars_ten_toDigits]

/-- The fields of the stamp of an instant. -/
def fieldsOf (startNs : Nat) : StampFields where
  year := (civilFromDays (startNs / 86400000000000)).1
  month := (civilFromDays (startNs / 86400000000000)).2.1
  day := (civilFromDays (startNs / 86400000000000)).2.2
  hour := startNs % 86400000000000 / 3600000000000
  minute := startNs % 86400000000000 / 60000000000 % 60
  second := startNs % 86400000000000 / 1000000000 % 60
  micros := startNs % 86400000000000 % 1000000000 / 1000

def dateChars (f : StampFields) : List Char :=
  zeroPadded 4 f.year ++ (zeroPadded 2 f.month ++ zeroPadded 2 f.day)

def timeChars (f : StampFields) : List Char :=
  zeroPadded 2 f.hour ++ (zeroPadded 2 f.minute ++ (zeroPadded 2 f.second ++ zeroPadded 6 f.micros))

theorem stampChars_eq (t : Nat) :
    stampChars t = dateChars (fieldsOf t) ++ 'T' :: timeChars (fieldsOf t) := by
  simp [stampChars, dateChars, timeChars, fieldsOf]

/-- The fields have as many digits as the stamp gives them. -/
structure Fits (f : StampFields) : Prop where
  year : f.year < 10 ^ 4
  month : f.month < 10 ^ 2
  day : f.day < 10 ^ 2
  hour : f.hour < 10 ^ 2
  minute : f.minute < 10 ^ 2
  second : f.second < 10 ^ 2
  micros : f.micros < 10 ^ 6

theorem fieldsOf_fits {t : Nat} (ht : t < 2 ^ 64) : Fits (fieldsOf t) := by
  have hdays : t / 86400000000000 < 213504 := by omega
  have hyear := (year_bounds hdays).2
  have hsmall := civilFromDays_small (t / 86400000000000)
  constructor <;> simp only [fieldsOf] <;> omega

theorem length_dateChars {f : StampFields} (h : Fits f) : (dateChars f).length = 8 := by
  simp [dateChars, length_zeroPadded (by decide) h.year, length_zeroPadded (by decide) h.month,
    length_zeroPadded (by decide) h.day]

theorem length_timeChars {f : StampFields} (h : Fits f) : (timeChars f).length = 12 := by
  simp [timeChars, length_zeroPadded (by decide) h.hour, length_zeroPadded (by decide) h.minute,
    length_zeroPadded (by decide) h.second, length_zeroPadded (by decide) h.micros]

theorem isDigit_dateChars {f : StampFields} {c : Char} (h : c ∈ dateChars f) :
    c.isDigit = true := by
  simp only [dateChars, List.mem_append] at h
  rcases h with h | h | h <;> exact isDigit_zeroPadded h

theorem isDigit_timeChars {f : StampFields} {c : Char} (h : c ∈ timeChars f) :
    c.isDigit = true := by
  simp only [timeChars, List.mem_append] at h
  rcases h with h | h | h | h <;> exact isDigit_zeroPadded h

theorem take_zeroPadded {width n : Nat} (hwidth : 0 < width) (h : n < 10 ^ width)
    (rest : List Char) : (zeroPadded width n ++ rest).take width = zeroPadded width n :=
  List.take_left' (length_zeroPadded hwidth h)

theorem drop_zeroPadded {width n : Nat} (hwidth : 0 < width) (h : n < 10 ^ width) (k : Nat)
    (rest : List Char) : (zeroPadded width n ++ rest).drop (width + k) = rest.drop k := by
  rw [← List.drop_drop, List.drop_left' (length_zeroPadded hwidth h)]

theorem stampFields_chars {f : StampFields} (h : Fits f) :
    stampFields (dateChars f) (timeChars f) = some f := by
  have hyear : (dateChars f).take 4 = zeroPadded 4 f.year := take_zeroPadded (by decide) h.year _
  have hmonth : ((dateChars f).drop 4).take 2 = zeroPadded 2 f.month := by
    rw [dateChars, drop_zeroPadded (by decide) h.year 0, List.drop_zero]
    exact take_zeroPadded (by decide) h.month _
  have hday : ((dateChars f).drop 6).take 2 = zeroPadded 2 f.day := by
    rw [dateChars, drop_zeroPadded (by decide) h.year 2, drop_zeroPadded (by decide) h.month 0,
      List.drop_zero]
    exact List.take_of_length_le (length_zeroPadded (by decide) h.day).le
  have hhour : (timeChars f).take 2 = zeroPadded 2 f.hour := take_zeroPadded (by decide) h.hour _
  have hminute : ((timeChars f).drop 2).take 2 = zeroPadded 2 f.minute := by
    rw [timeChars, drop_zeroPadded (by decide) h.hour 0, List.drop_zero]
    exact take_zeroPadded (by decide) h.minute _
  have hsecond : ((timeChars f).drop 4).take 2 = zeroPadded 2 f.second := by
    rw [timeChars, drop_zeroPadded (by decide) h.hour 2, drop_zeroPadded (by decide) h.minute 0,
      List.drop_zero]
    exact take_zeroPadded (by decide) h.second _
  have hmicros : ((timeChars f).drop 6).take 6 = zeroPadded 6 f.micros := by
    rw [timeChars, drop_zeroPadded (by decide) h.hour 4, drop_zeroPadded (by decide) h.minute 2,
      drop_zeroPadded (by decide) h.second 0, List.drop_zero]
    exact List.take_of_length_le (length_zeroPadded (by decide) h.micros).le
  unfold stampFields
  rw [hyear, hmonth, hday, hhour, hminute, hsecond, hmicros]
  simp

/-! ## The instant of a stamp -/

/-- The time of day of an instant, put together again. -/
theorem fieldsOf_time {t : Nat} (hwhole : t % 1000 = 0) :
    ((fieldsOf t).hour * 3600 + (fieldsOf t).minute * 60 + (fieldsOf t).second) * 1000000000 +
      (fieldsOf t).micros * 1000 = t % 86400000000000 := by
  have hw : t % 86400000000000 % 1000 = 0 := by
    rw [Nat.mod_mod_of_dvd t (by decide)]
    exact hwhole
  simp only [fieldsOf]
  generalize t % 86400000000000 = w at hw ⊢
  obtain ⟨s, hs⟩ : ∃ s, s = w / 1000000000 := ⟨_, rfl⟩
  have hhour : w / 3600000000000 = s / 3600 := by rw [hs, Nat.div_div_eq_div_mul]
  have hminute : w / 60000000000 = s / 60 := by rw [hs, Nat.div_div_eq_div_mul]
  have hclock : s / 3600 * 3600 + s / 60 % 60 * 60 + s % 60 = s := by omega
  have hmicros : w % 1000000000 / 1000 * 1000 = w % 1000000000 := by
    apply Nat.div_mul_cancel
    apply Nat.dvd_of_mod_eq_zero
    rw [Nat.mod_mod_of_dvd w (by decide)]
    exact hw
  rw [hhour, hminute, ← hs, hclock, hmicros, hs]
  exact Nat.div_add_mod' w 1000000000

theorem fieldsOf_clock (t : Nat) :
    (fieldsOf t).hour ≤ 23 ∧ (fieldsOf t).minute ≤ 59 ∧ (fieldsOf t).second ≤ 60 := by
  simp only [fieldsOf]
  omega

theorem monthLength_le (y : Int) (m : Nat) : monthLength y m ≤ 31 := by
  unfold monthLength
  split
  · split <;> decide
  · split <;> decide

/-- No part of an instant exceeds it, so none of its products and sums overflows. -/
theorem sum_eq (mode : Arithmetic) {days day clock second micros within t : Nat}
    (hsum : days * day + within = t) (htime : clock * second + micros = within)
    (ht : t < 2 ^ 64) :
    (do
      let base ← mulU64 mode days day
      let seconds ← mulU64 mode clock second
      let sum ← mode.add base seconds
      return some (← mode.add sum micros)) = .ok (some t) := by
  have hbase : mulU64 mode days day = .ok (days * day) := if_pos (by omega)
  have hseconds : mulU64 mode clock second = .ok (clock * second) := if_pos (by omega)
  have hadd : mode.add (days * day) (clock * second) = .ok (days * day + clock * second) :=
    if_pos (by omega)
  have hadd' : mode.add (days * day + clock * second) micros = .ok t := by
    have heq : days * day + clock * second + micros = t := by omega
    unfold Arithmetic.add
    rw [heq, if_pos ht]
  rw [hbase, Except.ok_bind, hseconds, Except.ok_bind, hadd, Except.ok_bind, hadd']
  rfl

theorem instantOf_fieldsOf (mode : Arithmetic) {t : Nat} (ht : t < 2 ^ 64) (hwhole : t % 1000 = 0) :
    instantOf mode (fieldsOf t) = .ok (some t) := by
  obtain ⟨hhour, hminute, hsecond⟩ := fieldsOf_clock t
  have htime := fieldsOf_time hwhole
  have hdate := civilFromDaysI64_valid (t / 86400000000000 : Nat)
  have hback := daysFromCivil_civilFromDaysI64 (t / 86400000000000 : Nat)
  rw [civilFromDaysI64_natCast] at hdate hback
  have hday := hdate.day_le.trans (monthLength_le _ _)
  have hfields : daysFromCivil (fieldsOf t).year (fieldsOf t).month (fieldsOf t).day =
      (t / 86400000000000 : Nat) := hback
  have hrange : ¬((fieldsOf t).month = 0 ∨ (fieldsOf t).month > 12 ∨ (fieldsOf t).day = 0 ∨
      (fieldsOf t).day > 31 ∨ (fieldsOf t).hour > 23 ∨ (fieldsOf t).minute > 59 ∨
      (fieldsOf t).second > 60) := by
    have hmonth : (fieldsOf t).month ≤ 12 := hdate.month_le
    have hmonth' : 1 ≤ (fieldsOf t).month := hdate.month_pos
    have hday' : 1 ≤ (fieldsOf t).day := hdate.day_pos
    have hday'' : (fieldsOf t).day ≤ 31 := hday
    omega
  have hsum : t / 86400000000000 * 86400000000000 + t % 86400000000000 = t :=
    Nat.div_add_mod' t 86400000000000
  unfold instantOf
  rw [if_neg hrange, hfields, if_neg (not_lt.mpr (Int.natCast_nonneg _)), Int.toNat_natCast]
  exact sum_eq mode hsum htime ht

/-! ## Names -/

/-- A name whose part before its first dash is the stamp of an instant reads back as it. -/
theorem windowStartFromFilename_stamp (mode : Arithmetic) {t : Nat} {name : String}
    (ht : t < 2 ^ 64) (hwhole : t % 1000 = 0)
    (hname : name.toList.takeWhile (· ≠ '-') = stampChars t) :
    windowStartFromFilename mode name = .ok (some t) := by
  have hfits := fieldsOf_fits ht
  have hdigit : ∀ c : Char, c.isDigit = true → c ≠ 'T' := by
    rintro c hc rfl
    exact absurd hc (by decide)
  have hdate : ∀ c ∈ dateChars (fieldsOf t), decide (c ≠ 'T') = true :=
    fun c hc => decide_eq_true (hdigit c (isDigit_dateChars hc))
  have htake : (stampChars t).takeWhile (· ≠ 'T') = dateChars (fieldsOf t) := by
    rw [stampChars_eq, List.takeWhile_append_of_pos hdate]
    simp
  have hdrop : (stampChars t).dropWhile (· ≠ 'T') = 'T' :: timeChars (fieldsOf t) := by
    rw [stampChars_eq, List.dropWhile_append_of_pos hdate]
    simp
  have hall : ((stampChars t).all fun c => c.isDigit || c = 'T') = true := by
    rw [List.all_eq_true]
    intro c hc
    rw [stampChars_eq, List.mem_append, List.mem_cons] at hc
    rcases hc with hc | rfl | hc
    · simp [isDigit_dateChars hc]
    · simp
    · simp [isDigit_timeChars hc]
  unfold windowStartFromFilename
  simp only [hname, htake, hdrop]
  rw [if_neg (by rw [length_dateChars hfits, length_timeChars hfits, hall]; decide),
    stampFields_chars hfits]
  exact instantOf_fieldsOf mode ht hwhole

/-- The date partition is the date at the front of the stamp. -/
theorem datePartition_eq_stamp {t : Nat} (ht : t < 2 ^ 64) : (datePartition t).toList =
    (stampChars t).take 4 ++ '-' :: (((stampChars t).drop 4).take 2 ++
      '-' :: ((stampChars t).drop 6).take 2) := by
  have hfits := fieldsOf_fits ht
  have hyear : (stampChars t).take 4 = zeroPadded 4 (fieldsOf t).year := by
    rw [stampChars_eq, dateChars, List.append_assoc]
    exact take_zeroPadded (by decide) hfits.year _
  have hmonth : ((stampChars t).drop 4).take 2 = zeroPadded 2 (fieldsOf t).month := by
    rw [stampChars_eq, dateChars, List.append_assoc, drop_zeroPadded (by decide) hfits.year 0,
      List.drop_zero, List.append_assoc]
    exact take_zeroPadded (by decide) hfits.month _
  have hday : ((stampChars t).drop 6).take 2 = zeroPadded 2 (fieldsOf t).day := by
    rw [stampChars_eq, dateChars, List.append_assoc, drop_zeroPadded (by decide) hfits.year 2,
      List.append_assoc, drop_zeroPadded (by decide) hfits.month 0, List.drop_zero]
    exact take_zeroPadded (by decide) hfits.day _
  rw [hyear, hmonth, hday]
  simp [datePartition, fieldsOf]

/-- Stamps, dates and days agree: a name with the stamp of an instant of whole microseconds reads
    back as the instant, the calendar and its inverse undo each other, and the partition shows the
    date of the stamp. -/
theorem stamp_round_trip (mode : Arithmetic) :
    (∀ t, t < 2 ^ 64 → t % 1000 = 0 → ∀ name : String,
      name.toList.takeWhile (· ≠ '-') = (segmentStamp t).toList →
      windowStartFromFilename mode name = .ok (some t)) ∧
    (∀ days : Int,
      ValidDate (civilFromDaysI64 days).1 (civilFromDaysI64 days).2.1 (civilFromDaysI64 days).2.2 ∧
      daysFromCivil (civilFromDaysI64 days).1 (civilFromDaysI64 days).2.1
        (civilFromDaysI64 days).2.2 = days) ∧
    (∀ (y : Int) (m d : Nat), ValidDate y m d →
      civilFromDaysI64 (daysFromCivil y m d) = (y, m, d)) ∧
    (∀ days : Nat, civilFromDaysI64 days =
      (((civilFromDays days).1 : Int), (civilFromDays days).2.1, (civilFromDays days).2.2)) ∧
    ∀ t, t < 2 ^ 64 → (datePartition t).toList = (segmentStamp t).toList.take 4 ++
      '-' :: (((segmentStamp t).toList.drop 4).take 2 ++
        '-' :: ((segmentStamp t).toList.drop 6).take 2) := by
  have hchars : ∀ t, (segmentStamp t).toList = stampChars t := fun t => by simp [segmentStamp]
  refine ⟨?_, ?_, ?_, civilFromDaysI64_natCast, ?_⟩
  · intro t ht hwhole name hname
    exact windowStartFromFilename_stamp mode ht hwhole (by rw [← hchars]; exact hname)
  · intro days
    exact ⟨civilFromDaysI64_valid days, daysFromCivil_civilFromDaysI64 days⟩
  · intro y m d h
    exact civilFromDaysI64_daysFromCivil h
  · intro t ht
    rw [hchars]
    exact datePartition_eq_stamp ht

/-- The last day of a leap February, in a name as the writer makes it. -/
theorem stamp_round_trip_leap :
    windowStartFromFilename .checked "20240229T233000000000-0-a.ndjson" =
      .ok (some 1709249400000000000) ∧
    civilFromDaysI64 (daysFromCivil 2024 2 29) = (2024, 2, 29) := by
  obtain ⟨hname, -, hdate, -⟩ := stamp_round_trip .checked
  exact ⟨hname 1709249400000000000 (by decide) (by decide) _ (by decide +kernel),
    hdate 2024 2 29 ⟨by decide, by decide, by decide, by decide⟩⟩

/-- A stamp that the name goes on behind without a dash is not read. -/
theorem stamp_without_dash :
    (segmentStamp 0).toList <+: "19700101T000000000000.ndjson".toList ∧
    windowStartFromFilename .checked "19700101T000000000000.ndjson" = .ok none := by
  refine ⟨⟨".ndjson".toList, by decide +kernel⟩, by decide +kernel⟩

end PredictionIndexer.Finalize
