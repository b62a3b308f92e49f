import Mathlib

/-!
# Date partitions

`ingester/crates/finalize/src/window.rs` (`date_partition`, `civil_from_days`): the `YYYY-MM-DD`
of an instant, by the era arithmetic of the source. Dates are compared as text, so what matters
about them is that the text never goes back when the instant does not.

## Key results

- `datePartition_mono`: later instants have dates that sort no earlier
-/

namespace PredictionIndexer.Finalize

/-- Days since 1970-01-01 to a civil date. The days are those of a `u64` of nanoseconds, so the
    source's branch for a negative era is never taken. -/
def civilFromDays (days : Nat) : Nat × Nat × Nat :=
  let z := days + 719468
  let era := z / 146097
  let dayOfEra := z - era * 146097
  let yearOfEra := (dayOfEra - dayOfEra / 1460 + dayOfEra / 36524 - dayOfEra / 146096) / 365
  let year := yearOfEra + era * 400
  let dayOfYear := dayOfEra - (365 * yearOfEra + yearOfEra / 4 - yearOfEra / 100)
  let mp := (5 * dayOfYear + 2) / 153
  let day := dayOfYear - (153 * mp + 2) / 5 + 1
  let month := if mp < 10 then mp + 3 else mp - 9
  (if month ≤ 2 then year + 1 else year, month, day)

/-- `{:0width}` of a number. -/
def zeroPadded (width n : Nat) : List Char :=
  let digits := Nat.toDigits 10 n
  List.replicate (width - digits.length) '0' ++ digits

/-- `date_partition`. -/
def datePartition (startNs : Nat) : String :=
  let (year, month, day) := civilFromDays (startNs / 86400000000000)
  String.ofList (zeroPadded 4 year ++ '-' :: (zeroPadded 2 month ++ '-' :: zeroPadded 2 day))

/-! ## The calendar goes forward -/

/-- The years of an era in days, corrected for its leap years. -/
def yearDays (dayOfEra : Nat) : Nat :=
  dayOfEra - dayOfEra / 1460 + dayOfEra / 36524 - dayOfEra / 146096

/-- The first day of a year of an era; a year starts in March. -/
def yearStart (year : Nat) : Nat := 365 * year + year / 4 - year / 100

/-- The day after the last day of a year of an era; the last year of an era has its leap day. -/
def yearEnd (year : Nat) : Nat := if year = 399 then 146097 else yearStart (year + 1)

theorem yearDays_succ {doe : Nat} (h : doe + 1 < 146097) : yearDays doe ≤ yearDays (doe + 1) := by
  unfold yearDays
  have h1460 : (doe + 1) / 1460 ≤ doe / 1460 + 1 := by omega
  have h36524 : doe / 36524 ≤ (doe + 1) / 36524 := by omega
  have hlast : (doe + 1) / 146096 = 0 ∨ doe = 146095 := by omega
  have hzero : doe / 146096 = 0 := by omega
  rcases hlast with hlast | rfl
  · omega
  · decide

theorem yearDays_mono {doe doe' : Nat} (h : doe ≤ doe') (h' : doe' < 146097) :
    yearDays doe ≤ yearDays doe' := by
  induction doe' with
  | zero => rw [Nat.le_zero.mp h]
  | succ n ih =>
    rcases Nat.le_succ_iff.mp h with h | rfl
    · exact (ih h (by omega)).trans (yearDays_succ h')
    · exact Nat.le_refl _

/-- The year of an era at the two ends of each year. -/
theorem yearDays_ends : ∀ year < 400, yearDays (yearStart year) / 365 = year ∧
    yearDays (yearEnd year - 1) / 365 = year := by
  decide +kernel

theorem yearEnd_le : ∀ year < 400, yearStart year < yearEnd year ∧ yearEnd year ≤ 146097 ∧
    yearEnd year ≤ yearStart year + 366 := by
  decide +kernel

/-- Every day of an era lies in a year of it. -/
theorem exists_year {doe : Nat} (h : doe < 146097) :
    ∃ year < 400, yearStart year ≤ doe ∧ doe < yearEnd year := by
  have hcover : ∀ n ≤ 400, doe < (if n = 400 then 146097 else yearStart n) →
      ∃ year < n, yearStart year ≤ doe ∧ doe < yearEnd year := by
    intro n
    induction n with
    | zero =>
      intro _ h0
      simp [yearStart] at h0
    | succ n ih =>
      intro hn hlt
      by_cases hstart : yearStart n ≤ doe
      · refine ⟨n, by omega, hstart, ?_⟩
        unfold yearEnd
        by_cases h399 : n = 399
        · simpa [h399] using h
        · rw [if_neg (by omega)] at hlt
          rw [if_neg h399]
          exact hlt
      · obtain ⟨year, hyear, hspan⟩ := ih (by omega) (by rw [if_neg (by omega)]; omega)
        exact ⟨year, by omega, hspan⟩
  simpa using hcover 400 (Nat.le_refl _) (by simpa using h)

/-- The year of an era of a day in it. -/
theorem yearDays_div {doe year : Nat} (hyear : year < 400) (hstart : yearStart year ≤ doe)
    (hend : doe < yearEnd year) : yearDays doe / 365 = year := by
  obtain ⟨hfirst, hlast⟩ := yearDays_ends year hyear
  have hle := (yearEnd_le year hyear).2.1
  have h₁ : yearDays (yearStart year) ≤ yearDays doe := yearDays_mono hstart (by omega)
  have h₂ : yearDays doe ≤ yearDays (yearEnd year - 1) := yearDays_mono (by omega) (by omega)
  have h₃ := Nat.div_le_div_right (c := 365) h₁
  have h₄ := Nat.div_le_div_right (c := 365) h₂
  omega

/-- Month and day of a day of a March year, as one number; January and February count on. -/
def monthDay (doy : Nat) : Nat :=
  let mp := (5 * doy + 2) / 153
  (mp + 3) * 100 + (doy - (153 * mp + 2) / 5 + 1) + if mp < 10 then 0 else 10000 - 1200

/-- A date as one number. -/
def dateKey (date : Nat × Nat × Nat) : Nat := date.1 * 10000 + date.2.1 * 100 + date.2.2

theorem monthDay_succ : ∀ doy < 365, monthDay doy < monthDay (doy + 1) := by
  decide +kernel

theorem monthDay_lt : ∀ doy < 366, monthDay doy < 10000 + monthDay 0 := by
  decide +kernel

/-- The month and the day are two digits each. -/
theorem monthDay_parts : ∀ doy < 366, let mp := (5 * doy + 2) / 153
    mp < 12 ∧ doy - (153 * mp + 2) / 5 + 1 < 100 := by
  decide +kernel

theorem civilFromDays_eq (days era doe year : Nat) (hz : days + 719468 = era * 146097 + doe)
    (hyear : year < 400) (hstart : yearStart year ≤ doe) (hend : doe < yearEnd year) :
    dateKey (civilFromDays days) = (era * 400 + year) * 10000 + monthDay (doe - yearStart year) ∧
      (civilFromDays days).2.1 < 100 ∧ (civilFromDays days).2.2 < 100 := by
  have hle := yearEnd_le year hyear
  have hera : (days + 719468) / 146097 = era := by omega
  have hdoe : days + 719468 - era * 146097 = doe := by omega
  have hyoe : (doe - doe / 1460 + doe / 36524 - doe / 146096) / 365 = year :=
    yearDays_div hyear hstart hend
  obtain ⟨hmp, hday⟩ := monthDay_parts (doe - yearStart year) (by omega)
  unfold civilFromDays dateKey monthDay
  simp only [hera, hdoe, hyoe]
  rw [show 365 * year + year / 4 - year / 100 = yearStart year from rfl]
  set doy := doe - yearStart year
  set mp := (5 * doy + 2) / 153
  by_cases hspring : mp < 10
  · simp only [hspring, if_true, if_neg (show ¬mp + 3 ≤ 2 by omega)]
    omega
  · simp only [hspring, if_false, if_pos (show mp - 9 ≤ 2 by omega)]
    omega

/-- The next day has a later date. -/
theorem dateKey_succ (days : Nat) :
    dateKey (civilFromDays days) < dateKey (civilFromDays (days + 1)) := by
  obtain ⟨era, doe, hdoe, hz⟩ : ∃ era doe, doe < 146097 ∧ days + 719468 = era * 146097 + doe :=
    ⟨(days + 719468) / 146097, (days + 719468) % 146097, by omega, by omega⟩
  obtain ⟨year, hyear, hstart, hend⟩ := exists_year hdoe
  have hle := yearEnd_le year hyear
  have hkey := (civilFromDays_eq days era doe year hz hyear hstart hend).1
  have hlt := monthDay_lt (doe - yearStart year) (by omega)
  by_cases hsame : doe + 1 < yearEnd year
  · have hnext := (civilFromDays_eq (days + 1) era (doe + 1) year (by omega) hyear (by omega)
      hsame).1
    have := monthDay_succ (doe - yearStart year) (by omega)
    rw [hkey, hnext, show doe + 1 - yearStart year = doe - yearStart year + 1 by omega]
    omega
  · by_cases hlast : year = 399
    · -- the first day of the next era
      subst hlast
      have hfull : yearEnd 399 = 146097 := rfl
      have hnext := (civilFromDays_eq (days + 1) (era + 1) 0 0 (by omega) (by decide) (by decide)
        (by decide)).1
      rw [hkey, hnext, show 0 - yearStart 0 = 0 from rfl]
      omega
    · have hfull : yearEnd year = yearStart (year + 1) := if_neg hlast
      have hle' := yearEnd_le (year + 1) (by omega)
      have hnext := (civilFromDays_eq (days + 1) era (doe + 1) (year + 1) (by omega) (by omega)
        (by omega) (by omega)).1
      rw [hkey, hnext, show doe + 1 - yearStart (year + 1) = 0 by omega]
      omega

theorem dateKey_mono {days days' : Nat} (h : days ≤ days') :
    dateKey (civilFromDays days) ≤ dateKey (civilFromDays days') :=
  monotone_nat_of_le_succ (f := fun days => dateKey (civilFromDays days))
    (fun days => Nat.le_of_lt (dateKey_succ days)) h

/-! ## Dates as text -/

theorem zeroPadded_two : ∀ n < 100,
    zeroPadded 2 n = [Nat.digitChar (n / 10), Nat.digitChar (n % 10)] := by
  decide +kernel

theorem zeroPadded_four {n : Nat} (h : 1000 ≤ n) (h' : n < 10000) :
    zeroPadded 4 n = [Nat.digitChar (n / 10 / 10 / 10), Nat.digitChar (n / 10 / 10 % 10),
      Nat.digitChar (n / 10 % 10), Nat.digitChar (n % 10)] := by
  have hdigits : Nat.toDigits 10 n = [Nat.digitChar (n / 10 / 10 / 10),
      Nat.digitChar (n / 10 / 10 % 10), Nat.digitChar (n / 10 % 10), Nat.digitChar (n % 10)] := by
    rw [Nat.toDigits_of_base_le (by decide) (by omega : 10 ≤ n),
      Nat.toDigits_of_base_le (by decide) (by omega : 10 ≤ n / 10),
      Nat.toDigits_of_base_le (by decide) (by omega : 10 ≤ n / 10 / 10),
      Nat.toDigits_of_lt_base (by omega : n / 10 / 10 / 10 < 10)]
    rfl
  rw [zeroPadded, hdigits]
  rfl

theorem digitChar_lt {a b : Nat} (ha : a < 10) (hb : b < 10) :
    Nat.digitChar a < Nat.digitChar b ↔ a < b := by
  have hall : ∀ a < 10, ∀ b < 10, Nat.digitChar a < Nat.digitChar b ↔ a < b := by decide
  exact hall a ha b hb

theorem digitChar_inj {a b : Nat} (ha : a < 10) (hb : b < 10) :
    Nat.digitChar a = Nat.digitChar b ↔ a = b := by
  have hall : ∀ a < 10, ∀ b < 10, Nat.digitChar a = Nat.digitChar b ↔ a = b := by decide
  exact hall a ha b hb

/-- The text of a date. -/
def dateText (date : Nat × Nat × Nat) : List Char :=
  zeroPadded 4 date.1 ++ '-' :: (zeroPadded 2 date.2.1 ++ '-' :: zeroPadded 2 date.2.2)

/-- Texts of four-digit years sort as the dates do. -/
theorem dateKey_lt_of_dateText_lt {a b : Nat × Nat × Nat} (ha : 1000 ≤ a.1 ∧ a.1 < 10000)
    (ha' : a.2.1 < 100 ∧ a.2.2 < 100) (hb : 1000 ≤ b.1 ∧ b.1 < 10000)
    (hb' : b.2.1 < 100 ∧ b.2.2 < 100) (h : dateText a < dateText b) : dateKey a < dateKey b := by
  obtain ⟨ya, ma, da⟩ := a
  obtain ⟨yb, mb, db⟩ := b
  dsimp only at ha ha' hb hb'
  unfold dateText at h
  rw [zeroPadded_four ha.1 ha.2, zeroPadded_four hb.1 hb.2, zeroPadded_two _ ha'.1,
    zeroPadded_two _ ha'.2, zeroPadded_two _ hb'.1, zeroPadded_two _ hb'.2] at h
  have hdash : ¬('-' < '-') := by decide
  simp only [List.cons_append, List.nil_append, List.cons_lt_cons_iff, List.lt_irrefl, and_false,
    or_false, hdash, true_and, false_or] at h
  simp (disch := omega) only [digitChar_lt, digitChar_inj] at h
  show ya * 10000 + ma * 100 + da < yb * 10000 + mb * 100 + db
  omega

theorem civilFromDays_small (days : Nat) :
    (civilFromDays days).2.1 < 100 ∧ (civilFromDays days).2.2 < 100 := by
  obtain ⟨year, hyear, hstart, hend⟩ :=
    exists_year (show (days + 719468) % 146097 < 146097 by omega)
  exact (civilFromDays_eq days ((days + 719468) / 146097) _ year (by omega) hyear hstart hend).2

/-- An instant of a `u64` of nanoseconds has a year of four digits. -/
theorem year_bounds {days : Nat} (h : days < 213504) :
    1000 ≤ (civilFromDays days).1 ∧ (civilFromDays days).1 < 10000 := by
  obtain ⟨year, hyear, hstart, hend⟩ :=
    exists_year (show (days + 719468) % 146097 < 146097 by omega)
  obtain ⟨hkey, hmonth, hday⟩ :=
    civilFromDays_eq days ((days + 719468) / 146097) _ year (by omega) hyear hstart hend
  have hle := yearEnd_le year hyear
  have hlt := monthDay_lt ((days + 719468) % 146097 - yearStart year) (by omega)
  rw [show monthDay 0 = 301 from rfl] at hlt
  unfold dateKey at hkey
  omega

/-- Later instants have dates that sort no earlier. -/
theorem datePartition_mono {now later : Nat} (h : now ≤ later) (hlater : later < 2 ^ 64) :
    datePartition now ≤ datePartition later := by
  rw [← String.not_lt]
  intro hlt
  have hdays : now / 86400000000000 ≤ later / 86400000000000 := Nat.div_le_div_right h
  have htext : dateText (civilFromDays (later / 86400000000000)) <
      dateText (civilFromDays (now / 86400000000000)) := by
    rw [String.lt_iff] at hlt
    simpa [datePartition, dateText] using hlt
  have hkey := dateKey_lt_of_dateText_lt (year_bounds (by omega)) (civilFromDays_small _)
    (year_bounds (by omega)) (civilFromDays_small _) htext
  have := dateKey_mono hdays
  omega

end PredictionIndexer.Finalize
