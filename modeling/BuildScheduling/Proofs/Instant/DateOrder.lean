import Mathlib.Tactic.IntervalCases
import BuildScheduling.Proofs.Instant.Calendar

/-!
# The order of dates

Days and dates run together: of two dates of the calendar the earlier one has the smaller day number, so a date is
the date of its day. A day is counted from the March that its year began with (`marchYear`, `dayOfMarchYear`);
years and the days of one year are put in order apart.
-/

namespace BuildScheduling.Date

/-- By year, then by month, then by day. -/
def Earlier (d e : Date) : Prop :=
  d.year < e.year ∨ d.year = e.year ∧ (d.month < e.month ∨ d.month = e.month ∧ d.day < e.day)

theorem eq_or_earlier (d e : Date) : d = e ∨ d.Earlier e ∨ e.Earlier d := by
  obtain ⟨year, month, day⟩ := d
  obtain ⟨year', month', day'⟩ := e
  simp only [Earlier, Date.mk.injEq]
  omega

/-! ## Years that begin in March -/

def marchYear (d : Date) : Int := if d.month ≤ 2 then d.year - 1 else d.year

/-- Days from 1970-01-01 to the first of March. -/
def daysToMarch (year : Int) : Int := 365 * year + year / 4 - year / 100 + year / 400 - 719468

def monthFromMarch (d : Date) : Nat := if d.month > 2 then d.month - 3 else d.month + 9

def dayOfMarchYear (d : Date) : Nat := (153 * d.monthFromMarch + 2) / 5 + d.day - 1

theorem toDays_eq (d : Date) : d.toDays = daysToMarch d.marchYear + d.dayOfMarchYear := by
  simp only [toDays, daysToMarch, marchYear, dayOfMarchYear, monthFromMarch]
  omega

/-- The year before the next March is that long when the February in it is one of a leap year. -/
def marchYearLength (year : Int) : Int := if isLeapYear (year + 1) then 366 else 365

theorem daysToMarch_add_length_le {year year' : Int} (h : year < year') :
    daysToMarch year + marchYearLength year ≤ daysToMarch year' := by
  simp only [marchYearLength, daysToMarch, isLeapYear, Bool.and_eq_true, Bool.or_eq_true, beq_iff_eq, bne_iff_ne]
  split <;> omega

section

variable {d e : Date}

theorem exists?_cases (h : d.exists? = true) :
    1 ≤ d.month ∧ d.month ≤ 12 ∧ 1 ≤ d.day ∧
      ((d.month = 4 ∨ d.month = 6 ∨ d.month = 9 ∨ d.month = 11) ∧ d.day ≤ 30 ∨
        d.month = 2 ∧ (d.day ≤ 28 ∨ isLeapYear d.year = true ∧ d.day ≤ 29) ∨
        d.month ≠ 4 ∧ d.month ≠ 6 ∧ d.month ≠ 9 ∧ d.month ≠ 11 ∧ d.month ≠ 2 ∧ d.day ≤ 31) := by
  obtain ⟨hmonth, hmonth', hday, hlength⟩ := exists?_iff.mp h
  refine ⟨hmonth, hmonth', hday, ?_⟩
  simp only [daysInMonth, beq_iff_eq, Bool.or_eq_true] at hlength
  split at hlength
  · split at hlength <;> simp_all
  · split at hlength <;> omega

theorem dayOfMarchYear_lt (h : d.exists? = true) : d.dayOfMarchYear < marchYearLength d.marchYear := by
  obtain ⟨hmonth, hmonth', hday, hlength⟩ := exists?_cases h
  by_cases hfebruary : d.month = 2
  · have hyear : d.marchYear + 1 = d.year := by simp [marchYear, hfebruary]
    have hlast : d.monthFromMarch = 11 := by simp [monthFromMarch, hfebruary]
    rw [dayOfMarchYear, marchYearLength, hyear, hlast]
    split
    · omega
    · have hshort : d.day ≤ 28 := by simp_all
      omega
  · simp only [dayOfMarchYear, monthFromMarch, marchYearLength]
    split <;> split <;> omega

/-- A month from March on ends before the next one begins. -/
theorem day_le_of_exists? (h : d.exists? = true) :
    (153 * d.monthFromMarch + 2) / 5 + d.day ≤ (153 * (d.monthFromMarch + 1) + 2) / 5 := by
  obtain ⟨hmonth, hmonth', hday, hlength⟩ := exists?_cases h
  simp only [monthFromMarch]
  interval_cases d.month <;> simp <;> omega

theorem dayOfMarchYear_lt_of_earlier (hd : d.exists? = true) (he : e.exists? = true)
    (hyear : d.marchYear = e.marchYear) (h : d.Earlier e) : d.dayOfMarchYear < e.dayOfMarchYear := by
  have hwithin := day_le_of_exists? hd
  obtain ⟨hmonth, hmonth', hday, -⟩ := exists?_iff.mp hd
  obtain ⟨emonth, emonth', eday, -⟩ := exists?_iff.mp he
  have hmonths : d.monthFromMarch < e.monthFromMarch ∨ d.monthFromMarch = e.monthFromMarch ∧ d.day < e.day := by
    simp only [Earlier] at h
    simp only [marchYear] at hyear
    simp only [monthFromMarch]
    split at hyear <;> split at hyear <;> split <;> split <;> omega
  simp only [dayOfMarchYear]
  rcases hmonths with hbefore | ⟨hsame, hdays⟩
  · omega
  · rw [hsame]
    omega

theorem marchYear_le_of_earlier (h : d.Earlier e) : d.marchYear ≤ e.marchYear := by
  simp only [Earlier] at h
  simp only [marchYear]
  split <;> split <;> omega

theorem toDays_lt_of_earlier (hd : d.exists? = true) (he : e.exists? = true) (h : d.Earlier e) :
    d.toDays < e.toDays := by
  rw [toDays_eq, toDays_eq]
  rcases Int.lt_or_eq_of_le (marchYear_le_of_earlier h) with hyear | hyear
  · have hnext := daysToMarch_add_length_le hyear
    have hwithin := dayOfMarchYear_lt hd
    omega
  · have hwithin := dayOfMarchYear_lt_of_earlier hd he hyear h
    rw [hyear]
    omega

theorem eq_of_toDays_eq (hd : d.exists? = true) (he : e.exists? = true) (h : d.toDays = e.toDays) : d = e := by
  rcases eq_or_earlier d e with heq | hearlier | hearlier
  · exact heq
  · exact absurd h (Int.ne_of_lt (toDays_lt_of_earlier hd he hearlier))
  · exact absurd h.symm (Int.ne_of_lt (toDays_lt_of_earlier he hd hearlier))

/-- A date of the calendar is the date of its day. -/
theorem ofDays_toDays (hd : d.exists? = true) : ofDays d.toDays = d :=
  eq_of_toDays_eq (exists?_ofDays _) hd (toDays_ofDays _)

end

theorem year_ofDays_mono {day day' : Int} (h : day ≤ day') : (ofDays day).year ≤ (ofDays day').year := by
  rcases Int.lt_or_le (ofDays day').year (ofDays day).year with hyear | hyear
  · have hlt := toDays_lt_of_earlier (exists?_ofDays day') (exists?_ofDays day) (Or.inl hyear)
    rw [toDays_ofDays, toDays_ofDays] at hlt
    omega
  · exact hyear

end BuildScheduling.Date
