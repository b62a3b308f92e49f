import PredictionIndexer.Finalize.Date
import PredictionIndexer.ForStd.Double

/-!
# Moments

The `datetime` in UTC that `splices/common/segment.py` writes a window's start through and reads it
back with. A start is a number of nanoseconds; on the way it is a double of seconds, and back it is
a double of nanoseconds, so that it reads back is a fact about 53 bits.

## Key results

- `toOrdinal_civilFromDays`: the calendar of the stamp and the one that reads it agree
- `strptime_stamp`: a stamp reads back
- `toNanoseconds_ofNanoseconds`: a window's start survives both doubles
-/

namespace PredictionIndexer.Splices

open Finalize (civilFromDays zeroPadded yearStart yearEnd)

def nanoseconds : Nat := 1000000000

/-- A `datetime` in UTC. -/
structure Moment where
  year : Nat
  month : Nat
  day : Nat
  hour : Nat
  minute : Nat
  second : Nat
  microsecond : Nat
deriving DecidableEq, Repr

namespace Moment

/-- The moment some microseconds after the epoch. -/
def ofMicroseconds (micros : Nat) : Moment :=
  let seconds := micros / 1000000
  let (year, month, day) := civilFromDays (seconds / 86400)
  ⟨year, month, day, seconds % 86400 / 3600, seconds % 3600 / 60, seconds % 60, micros % 1000000⟩

/-- `datetime.fromtimestamp(start_ns / NANOSECONDS, tz=timezone.utc)`: the quotient is a double, and
    its fraction is rounded to a microsecond. -/
def ofNanoseconds (startNs : Nat) : Moment :=
  let timestamp := Double.round (startNs / nanoseconds : ℚ)
  let fraction := Double.halfEven (Double.round ((timestamp - ⌊timestamp⌋) * 1000000))
  ofMicroseconds (⌊timestamp⌋ * 1000000 + fraction).toNat

/-- `strftime('%Y%m%dT%H%M%S%f')`. -/
def stamp (m : Moment) : List Char :=
  zeroPadded 4 m.year ++ (zeroPadded 2 m.month ++ (zeroPadded 2 m.day ++ 'T' ::
    (zeroPadded 2 m.hour ++ (zeroPadded 2 m.minute ++ (zeroPadded 2 m.second ++
      zeroPadded 6 m.microsecond)))))

/-- `strftime('%Y-%m-%d')`. -/
def date (m : Moment) : List Char :=
  zeroPadded 4 m.year ++ '-' :: (zeroPadded 2 m.month ++ '-' :: zeroPadded 2 m.day)

end Moment

/-! ## Reading a stamp -/

/-- A character class for each place of a directive. -/
abbrev Pattern := List (Char → Bool)

def digit (lo hi : Char) (c : Char) : Bool := lo ≤ c && c ≤ hi

def anyDigit : Char → Bool := digit '0' '9'

-- What each directive of `%Y%m%dT%H%M%S%f` may be, in the order the pattern tries them. The digits
-- are ASCII.

def yearPatterns : List Pattern := [[anyDigit, anyDigit, anyDigit, anyDigit]]

def monthPatterns : List Pattern :=
  [[(· = '1'), digit '0' '2'], [(· = '0'), digit '1' '9'], [digit '1' '9']]

def dayPatterns : List Pattern :=
  [[(· = '3'), digit '0' '1'], [digit '1' '2', anyDigit], [(· = '0'), digit '1' '9'],
    [digit '1' '9'], [(· = ' '), digit '1' '9']]

def literalPatterns : List Pattern := [[fun c => c = 'T' || c = 't']]

def hourPatterns : List Pattern :=
  [[(· = '2'), digit '0' '3'], [digit '0' '1', anyDigit], [anyDigit]]

def minutePatterns : List Pattern := [[digit '0' '5', anyDigit], [anyDigit]]

def secondPatterns : List Pattern :=
  [[(· = '6'), digit '0' '1'], [digit '0' '5', anyDigit], [anyDigit]]

def fractionPatterns : List Pattern := (List.range 6).map fun n => List.replicate (6 - n) anyDigit

def directives : List (List Pattern) :=
  [yearPatterns, monthPatterns, dayPatterns, literalPatterns, hourPatterns, minutePatterns,
    secondPatterns, fractionPatterns]

def Pattern.fits : Pattern → List Char → Bool
  | [], _ => true
  | _ :: _, [] => false
  | takes :: pattern, c :: cs => takes c && Pattern.fits pattern cs

/-- Every way to read a text by directives, the preferred one first: what each directive takes, and
    what is left of the text. -/
def readings : List (List Pattern) → List Char → List (List (List Char) × List Char)
  | [], cs => [([], cs)]
  | directive :: rest, cs => (directive.filter (·.fits cs)).flatMap fun pattern =>
      (readings rest (cs.drop pattern.length)).map fun (texts, left) =>
        (cs.take pattern.length :: texts, left)

def number (text : List Char) : Nat := Nat.ofDigitChars 10 (text.filter (· ≠ ' ')) 0

def isLeap (year : Nat) : Bool := year % 4 = 0 && (year % 100 ≠ 0 || year % 400 = 0)

def daysBeforeMonth (year month : Nat) : Nat :=
  [0, 31, 59, 90, 120, 151, 181, 212, 243, 273, 304, 334].getD (month - 1) 0 +
    if 2 < month && isLeap year then 1 else 0

def daysInMonth (year month : Nat) : Nat :=
  if month = 2 && isLeap year then 29
  else [31, 28, 31, 30, 31, 30, 31, 31, 30, 31, 30, 31].getD (month - 1) 0

/-- `toordinal`: the first day of the first year is day one. -/
def toOrdinal (year month day : Nat) : Nat :=
  (year - 1) * 365 + (year - 1) / 4 - (year - 1) / 100 + (year - 1) / 400 +
    daysBeforeMonth year month + day

namespace Moment

/-- A `datetime` that its constructor accepts. -/
def Valid (m : Moment) : Prop :=
  (1 ≤ m.year ∧ m.year ≤ 9999) ∧ (1 ≤ m.month ∧ m.month ≤ 12) ∧
    (1 ≤ m.day ∧ m.day ≤ daysInMonth m.year m.month) ∧ m.hour < 24 ∧ m.minute < 60 ∧ m.second < 60 ∧
    m.microsecond < 1000000

instance (m : Moment) : Decidable m.Valid := by
  unfold Valid
  infer_instance

/-- `datetime.strptime(stamp, '%Y%m%dT%H%M%S%f')`. -/
def strptime (text : List Char) : Option Moment :=
  match (readings directives text).head? with
  | some ([year, month, day, _, hour, minute, second, fraction], []) =>
    let m : Moment := ⟨number year, number month, number day, number hour, number minute,
      number second, number (fraction ++ List.replicate (6 - fraction.length) '0')⟩
    if m.Valid then some m else none
  | _ => none

/-- `timestamp()`: seconds since the epoch, as the double nearest to them. -/
def timestamp (m : Moment) : ℚ :=
  let days : Int := (toOrdinal m.year m.month m.day : Int) - 719163
  let seconds := days * 86400 + m.hour * 3600 + m.minute * 60 + m.second
  Double.round (((seconds * 1000000 + m.microsecond : Int) : ℚ) / 1000000)

end Moment

/-! ## The calendar -/

/-- A day by its era, the year of the era, which starts in March, and the day of that year. -/
theorem exists_civil (days : Nat) : ∃ era year doy mp, year < 400 ∧ 4 ≤ era ∧
    days + 719468 = era * 146097 + (yearStart year + doy) ∧ yearStart year + doy < yearEnd year ∧
    mp = (5 * doy + 2) / 153 ∧ mp < 12 ∧ civilFromDays days =
      (if mp < 10 then era * 400 + year else era * 400 + year + 1,
        if mp < 10 then mp + 3 else mp - 9, doy - (153 * mp + 2) / 5 + 1) := by
  obtain ⟨year, hyear, hstart, hend⟩ :=
    Finalize.exists_year (show (days + 719468) % 146097 < 146097 by omega)
  have hle := Finalize.yearEnd_le year hyear
  have hyoe := Finalize.yearDays_div hyear hstart hend
  unfold Finalize.yearDays at hyoe
  refine ⟨(days + 719468) / 146097, year, (days + 719468) % 146097 - yearStart year, _, hyear,
    by omega, by omega, by omega, rfl, by omega, ?_⟩
  have hdoe : days + 719468 - (days + 719468) / 146097 * 146097 = (days + 719468) % 146097 := by
    omega
  unfold civilFromDays
  simp only [hdoe, hyoe]
  rw [show 365 * year + year / 4 - year / 100 = yearStart year from rfl]
  have hdoy : (days + 719468) % 146097 - yearStart year < 366 := by omega
  generalize (days + 719468) % 146097 - yearStart year = doy at hdoy ⊢
  by_cases hspring : (5 * doy + 2) / 153 < 10
  · simp only [hspring, if_true, if_neg (show ¬(5 * doy + 2) / 153 + 3 ≤ 2 by omega)]
    rw [Nat.add_comm]
  · simp only [hspring, if_false, if_pos (show (5 * doy + 2) / 153 - 9 ≤ 2 by omega)]
    rw [Nat.add_comm year]

theorem daysBeforeMonth_spring : ∀ mp < 10,
    [0, 31, 59, 90, 120, 151, 181, 212, 243, 273, 304, 334].getD (mp + 3 - 1) 0 =
      59 + (153 * mp + 2) / 5 := by
  decide

theorem daysBeforeMonth_winter : ∀ mp < 12, 10 ≤ mp →
    [0, 31, 59, 90, 120, 151, 181, 212, 243, 273, 304, 334].getD (mp - 9 - 1) 0 =
      (153 * mp + 2) / 5 - 306 := by
  decide

theorem isLeap_iff (year : Nat) :
    isLeap year = true ↔ year % 4 = 0 ∧ (year % 100 ≠ 0 ∨ year % 400 = 0) := by
  simp [isLeap]

/-- The date of a day has that day's number. -/
theorem toOrdinal_civilFromDays (days : Nat) :
    toOrdinal (civilFromDays days).1 (civilFromDays days).2.1 (civilFromDays days).2.2 =
      days + 719163 := by
  obtain ⟨era, year, doy, mp, hyear, hera, hz, hend, hmp, hmp12, hcivil⟩ := exists_civil days
  rw [hcivil]
  dsimp only
  unfold toOrdinal daysBeforeMonth
  unfold yearStart at hz
  by_cases hspring : mp < 10
  · -- from March on the leap day lies behind
    simp only [hspring, if_true]
    rw [daysBeforeMonth_spring mp hspring]
    by_cases hleap : isLeap (era * 400 + year) = true
    · rw [if_pos (by simp [hleap])]
      rw [isLeap_iff] at hleap
      omega
    · rw [if_neg (by simp [hleap])]
      rw [isLeap_iff] at hleap
      omega
  · simp only [hspring, if_false]
    rw [daysBeforeMonth_winter mp hmp12 (by omega), if_neg (by simp; omega)]
    omega

theorem daysInMonth_spring : ∀ mp < 10,
    [31, 28, 31, 30, 31, 30, 31, 31, 30, 31, 30, 31].getD (mp + 3 - 1) 0 =
      (153 * (mp + 1) + 2) / 5 - (153 * mp + 2) / 5 := by
  decide

/-- The date of a day is a date of the calendar. -/
theorem civilFromDays_valid (days : Nat) :
    (1 ≤ (civilFromDays days).2.1 ∧ (civilFromDays days).2.1 ≤ 12) ∧
      (1 ≤ (civilFromDays days).2.2 ∧
        (civilFromDays days).2.2 ≤ daysInMonth (civilFromDays days).1 (civilFromDays days).2.1) := by
  obtain ⟨era, year, doy, mp, hyear, hera, hz, hend, hmp, hmp12, hcivil⟩ := exists_civil days
  rw [hcivil]
  dsimp only
  unfold daysInMonth
  by_cases hspring : mp < 10
  · simp only [hspring, if_true]
    rw [if_neg (by simp), daysInMonth_spring mp hspring]
    omega
  · simp only [hspring, if_false]
    obtain rfl | rfl : mp = 10 ∨ mp = 11 := by omega
    · simp
      omega
    · -- the last day of a March year is the leap day
      unfold yearEnd yearStart at hend
      by_cases hleap : isLeap (era * 400 + year + 1) = true
      · simp only [hleap]
        simp
        split at hend <;> omega
      · simp only [hleap]
        rw [isLeap_iff] at hleap
        simp
        split at hend <;> omega

/-! ## A stamp reads back -/

theorem Pattern.fits_append {pattern : Pattern} {text : List Char} (cs : List Char)
    (h : pattern.length ≤ text.length) : pattern.fits (text ++ cs) = pattern.fits text := by
  induction pattern generalizing text with
  | nil => rfl
  | cons takes pattern ih =>
    cases text with
    | nil => simp at h
    | cons c text =>
      show (takes c && Pattern.fits pattern (text ++ cs)) = (takes c && Pattern.fits pattern text)
      rw [ih (by simpa using h)]

/-- The preferred pattern of a directive takes just the text, and no pattern takes more. -/
def Takes (directive : List Pattern) (text : List Char) : Prop :=
  (∀ pattern ∈ directive, pattern.length ≤ text.length) ∧
    (directive.filter (·.fits text)).head?.map List.length = some text.length

instance (directive : List Pattern) (text : List Char) : Decidable (Takes directive text) :=
  inferInstanceAs (Decidable (_ ∧ _))

theorem readings_append {directive : List Pattern} {rest : List (List Pattern)}
    {text cs left : List Char} {texts : List (List Char)} (htakes : Takes directive text)
    (hrest : (readings rest cs).head? = some (texts, left)) :
    (readings (directive :: rest) (text ++ cs)).head? = some (text :: texts, left) := by
  obtain ⟨hlength, hfirst⟩ := htakes
  have hfilter : directive.filter (·.fits (text ++ cs)) = directive.filter (·.fits text) :=
    List.filter_congr fun pattern hmem => Pattern.fits_append cs (hlength pattern hmem)
  obtain ⟨pattern, hhead, hpattern⟩ := Option.map_eq_some_iff.mp hfirst
  obtain ⟨others, hothers⟩ := List.head?_eq_some_iff.mp hhead
  obtain ⟨more, hmore⟩ := List.head?_eq_some_iff.mp hrest
  rw [readings, hfilter, hothers, List.flatMap_cons, hpattern, List.drop_left, hmore]
  simp

theorem yearPatterns_takes {n : Nat} (h : 1000 ≤ n) (h' : n < 10000) :
    Takes yearPatterns (zeroPadded 4 n) := by
  have hdigit : ∀ n < 10, anyDigit (Nat.digitChar n) = true := by decide
  rw [Finalize.zeroPadded_four h h']
  refine ⟨by simp [yearPatterns], ?_⟩
  simp [yearPatterns, Pattern.fits, hdigit (n / 10 / 10 / 10) (by omega),
    hdigit (n / 10 / 10 % 10) (by omega), hdigit (n / 10 % 10) (by omega), hdigit (n % 10) (by omega)]

theorem monthPatterns_takes : ∀ n < 13, 1 ≤ n → Takes monthPatterns (zeroPadded 2 n) := by decide

theorem dayPatterns_takes : ∀ n < 32, 1 ≤ n → Takes dayPatterns (zeroPadded 2 n) := by decide

theorem hourPatterns_takes : ∀ n < 24, Takes hourPatterns (zeroPadded 2 n) := by decide

theorem minutePatterns_takes : ∀ n < 60, Takes minutePatterns (zeroPadded 2 n) := by decide

theorem secondPatterns_takes : ∀ n < 60, Takes secondPatterns (zeroPadded 2 n) := by decide

theorem daysInMonth_le (year : Nat) {month : Nat} (h : 1 ≤ month ∧ month ≤ 12) :
    daysInMonth year month ≤ 31 := by
  have hall : ∀ month < 13, 1 ≤ month →
      [31, 28, 31, 30, 31, 30, 31, 31, 30, 31, 30, 31].getD (month - 1) 0 ≤ 31 := by decide
  unfold daysInMonth
  split
  · decide
  · exact hall month (by omega) h.1

theorem number_two : ∀ n < 100, number (zeroPadded 2 n) = n := by decide +kernel

theorem number_four {n : Nat} (h : 1000 ≤ n) : number (zeroPadded 4 n) = n := by
  have hlength : ¬(Nat.toDigits 10 n).length ≤ 3 := by
    rw [Nat.length_toDigits_le_iff (by decide) (by decide)]
    omega
  have hdigits : ∀ c ∈ Nat.toDigits 10 n, decide (c ≠ ' ') = true := by
    intro c hc
    have hdigit := Nat.isDigit_of_mem_toDigits (by decide) (by decide) hc
    rw [decide_eq_true_eq]
    rintro rfl
    simp at hdigit
  rw [zeroPadded, Nat.sub_eq_zero_of_le (by omega : 4 ≤ (Nat.toDigits 10 n).length), number]
  simp only [List.replicate_zero, List.nil_append]
  rw [List.filter_eq_self.mpr hdigits, Nat.ofDigitChars_toDigits (by decide) (by decide)]

namespace Moment

/-- A whole second of the calendar, with a year of four digits. -/
structure Stampable (m : Moment) : Prop where
  valid : m.Valid
  year : 1000 ≤ m.year
  whole : m.microsecond = 0

/-- A stamp reads back. -/
theorem strptime_stamp {m : Moment} (h : m.Stampable) : strptime m.stamp = some m := by
  obtain ⟨hvalid, hyear, hwhole⟩ := h
  have hreadings : (readings directives m.stamp).head? =
      some ([zeroPadded 4 m.year, zeroPadded 2 m.month, zeroPadded 2 m.day, ['T'],
        zeroPadded 2 m.hour, zeroPadded 2 m.minute, zeroPadded 2 m.second,
        zeroPadded 6 m.microsecond], []) := by
    obtain ⟨hyear', hmonth, hday, hhour, hminute, hsecond, _⟩ := hvalid
    have hday' := hday.2.trans (daysInMonth_le m.year hmonth)
    apply readings_append (yearPatterns_takes hyear (by omega))
    apply readings_append (monthPatterns_takes _ (by omega) hmonth.1)
    apply readings_append (dayPatterns_takes _ (by omega) hday.1)
    refine readings_append (show Takes _ ['T'] by decide) ?_
    apply readings_append (hourPatterns_takes _ hhour)
    apply readings_append (minutePatterns_takes _ hminute)
    apply readings_append (secondPatterns_takes _ hsecond)
    rw [hwhole]
    decide
  have hfraction : number (zeroPadded 6 m.microsecond ++
      List.replicate (6 - (zeroPadded 6 m.microsecond).length) '0') = m.microsecond := by
    rw [hwhole]
    decide
  obtain ⟨_, hmonth, hday, hhour, hminute, hsecond, _⟩ := id hvalid
  have hday' := hday.2.trans (daysInMonth_le m.year hmonth)
  rw [strptime, hreadings]
  simp only [hfraction, number_four hyear, number_two m.month (by omega),
    number_two m.day (by omega), number_two m.hour (by omega), number_two m.minute (by omega),
    number_two m.second (by omega)]
  exact if_pos hvalid

/-- A whole second of a `u64` of nanoseconds has a stamp. -/
theorem stampable_ofMicroseconds {seconds : Nat} (h : seconds < 18446745600) :
    (ofMicroseconds (seconds * 1000000)).Stampable := by
  have hseconds : seconds * 1000000 / 1000000 = seconds := by omega
  obtain ⟨hmonth, hday⟩ := civilFromDays_valid (seconds / 86400)
  have hyear := Finalize.year_bounds (show seconds / 86400 < 213504 by omega)
  unfold ofMicroseconds
  simp only [hseconds]
  refine ⟨⟨⟨?_, ?_⟩, hmonth, hday, ?_, ?_, ?_, ?_⟩, ?_, ?_⟩
  all_goals dsimp only
  all_goals omega

/-- The timestamp of a whole second is that second. -/
theorem timestamp_ofMicroseconds {seconds : Nat} (h : seconds < 2 ^ 53) :
    (ofMicroseconds (seconds * 1000000)).timestamp = seconds := by
  have hseconds : seconds * 1000000 / 1000000 = seconds := by omega
  unfold timestamp ofMicroseconds
  simp only [hseconds, toOrdinal_civilFromDays]
  have hsum : (((seconds / 86400 + 719163 : Nat) : Int) - 719163) * 86400 +
      ((seconds % 86400 / 3600 : Nat) : Int) * 3600 + ((seconds % 3600 / 60 : Nat) : Int) * 60 +
      ((seconds % 60 : Nat) : Int) = seconds := by omega
  have hmicros : seconds * 1000000 % 1000000 = 0 := by omega
  rw [hsum, hmicros]
  have hround := Double.round_eq_self (m := seconds) (k := 0) (by rw [Nat.abs_cast]; exact_mod_cast h)
  have hquotient : (((seconds : Int) * 1000000 + ((0 : Nat) : Int) : Int) : ℚ) / 1000000 =
      ((seconds : Int) : ℚ) * 2 ^ 0 := by
    push_cast
    ring
  rw [hquotient, hround]
  simp

/-- A whole second of nanoseconds is that second's moment. -/
theorem ofNanoseconds_eq {seconds : Nat} (h : seconds < 2 ^ 53) :
    ofNanoseconds (seconds * nanoseconds) = ofMicroseconds (seconds * 1000000) := by
  have hquotient : ((seconds * nanoseconds : Nat) : ℚ) / nanoseconds = ((seconds : Int) : ℚ) * 2 ^ 0 := by
    have hne : (nanoseconds : ℚ) ≠ 0 := by norm_num [nanoseconds]
    push_cast
    field_simp
  have hround := Double.round_eq_self (m := seconds) (k := 0) (by rw [Nat.abs_cast]; exact_mod_cast h)
  unfold ofNanoseconds
  rw [hquotient, hround]
  have hfraction : Double.halfEven (Double.round ((((seconds : Int) : ℚ) * 2 ^ 0 -
      (⌊((seconds : Int) : ℚ) * 2 ^ 0⌋ : ℚ)) * 1000000)) = 0 := by
    simp [Double.round, Double.halfEven]
  dsimp only
  rw [hfraction]
  congr 1
  simp
  omega

/-- `int(moment.timestamp() * NANOSECONDS)`. -/
def toNanoseconds (m : Moment) : Int :=
  Double.truncate (Double.round (m.timestamp * nanoseconds))

/-- A whole second of nanoseconds with at most 53 significant bits: windows of a multiple of eight
    seconds in all 64 bits, and any window before the year 2116. -/
def ReadsBack (startNs : Nat) : Prop :=
  nanoseconds ∣ startNs ∧ (8 * nanoseconds ∣ startNs ∧ startNs < 2 ^ 64 ∨ startNs < 2 ^ 62)

instance (startNs : Nat) : Decidable (ReadsBack startNs) := inferInstanceAs (Decidable (_ ∧ _))

theorem ReadsBack.exists_seconds {startNs : Nat} (h : ReadsBack startNs) :
    ∃ seconds, startNs = seconds * nanoseconds ∧ seconds < 18446745600 := by
  obtain ⟨⟨seconds, rfl⟩, hrange⟩ := h
  refine ⟨seconds, Nat.mul_comm _ _, ?_⟩
  unfold nanoseconds at hrange
  omega

theorem ReadsBack.exists_mantissa {startNs : Nat} (h : ReadsBack startNs) :
    ∃ m k : Nat, startNs = m * 2 ^ k ∧ m < 2 ^ 53 := by
  obtain ⟨⟨seconds, rfl⟩, ⟨hdvd, hrange⟩ | hrange⟩ := h
  · obtain ⟨n, hn⟩ := hdvd
    refine ⟨n * 1953125, 12, ?_, ?_⟩
    · rw [hn]
      unfold nanoseconds
      ring
    · rw [hn] at hrange
      unfold nanoseconds at hrange
      omega
  · refine ⟨seconds * 1953125, 9, ?_, ?_⟩
    · unfold nanoseconds
      ring
    · unfold nanoseconds at hrange
      omega

/-- The start of such a window survives both doubles. -/
theorem toNanoseconds_ofNanoseconds {startNs : Nat} (h : ReadsBack startNs) :
    (ofNanoseconds startNs).toNanoseconds = startNs := by
  obtain ⟨seconds, hstart, hseconds⟩ := h.exists_seconds
  obtain ⟨m, k, hm, hrange⟩ := h.exists_mantissa
  have hround := Double.round_eq_self (m := m) (k := k) (by rw [Nat.abs_cast]; exact_mod_cast hrange)
  have hproduct : (seconds : ℚ) * nanoseconds = ((m : Int) : ℚ) * 2 ^ k := by
    rw [← Nat.cast_mul, ← hstart, hm]
    push_cast
    rfl
  have hcast : ((m : Int) : ℚ) * 2 ^ k = ((startNs : Int) : ℚ) := by
    rw [hm]
    push_cast
    rfl
  rw [hstart, ofNanoseconds_eq (by omega), ← hstart, toNanoseconds,
    timestamp_ofMicroseconds (by omega), hproduct, hround, hcast, Double.truncate_intCast]

theorem strptime_ofNanoseconds {startNs : Nat} (h : ReadsBack startNs) :
    strptime (ofNanoseconds startNs).stamp = some (ofNanoseconds startNs) := by
  obtain ⟨seconds, rfl, hseconds⟩ := h.exists_seconds
  apply strptime_stamp
  rw [ofNanoseconds_eq (by omega)]
  exact stampable_ofMicroseconds hseconds

end Moment

end PredictionIndexer.Splices
