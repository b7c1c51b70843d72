import BuildScheduling.Instant.Calendar

/-!
# Days and dates

A day has one date, which the calendar has, and the date leads back to the day. Within 400 years a day is so many
centuries, cycles of four years, years and days after the first (`EraDay`): a leap day is the last of its cycle, and
the last cycle of a century has none, but for the last century.
-/

namespace BuildScheduling.Date

/-- A day of an era by centuries, cycles, years of the cycle and days of the year. -/
structure EraDay (day century cycle year rest : Int) : Prop where
  eq : day = 36524 * century + 1461 * cycle + 365 * year + rest
  centuries : 0 ≤ century ∧ century ≤ 3
  cycles : 0 ≤ cycle ∧ cycle ≤ 24
  years : 0 ≤ year ∧ year ≤ 3
  days : 0 ≤ rest ∧ rest ≤ 365
  leap : rest = 365 → year = 3 ∧ (cycle = 24 → century = 3)

theorem exists_eraDay {day : Int} (h : 0 ≤ day) (h' : day < 146097) :
    ∃ century cycle year rest, EraDay day century cycle year rest := by
  obtain ⟨c, r, hday, hc, hr, hlast⟩ : ∃ c r : Int, day = 36524 * c + r ∧ (0 ≤ c ∧ c ≤ 3) ∧
      (0 ≤ r ∧ r ≤ 36524) ∧ (r = 36524 → c = 3) := by
    by_cases hlast : day = 146096
    · exact ⟨3, 36524, by omega, by omega, by omega, fun _ => rfl⟩
    · exact ⟨day / 36524, day % 36524, by omega, by omega, by omega, by omega⟩
  obtain ⟨q, s, hr', hq, hs⟩ : ∃ q s : Int, r = 1461 * q + s ∧ (0 ≤ q ∧ q ≤ 24) ∧ 0 ≤ s ∧ s ≤ 1460 :=
    ⟨r / 1461, r % 1461, by omega, by omega, by omega⟩
  by_cases hleap : s = 1460
  · exact ⟨c, q, 3, 365, by omega, hc, hq, by omega, by omega, fun _ => ⟨rfl, by omega⟩⟩
  · exact ⟨c, q, s / 365, s % 365, by omega, hc, hq, by omega, by omega, by omega⟩

namespace EraDay

variable {day century cycle year rest : Int} (h : EraDay day century cycle year rest)

include h

theorem yearOfEra : (day - day / 1460 + day / 36524 - day / 146096) / 365 = 100 * century + 4 * cycle + year := by
  obtain ⟨heq, hcentury, hcycle, hyear, hrest, hleap⟩ := h
  have hcenturies : day / 36524 - day / 146096 = century := by
    by_cases hlast : day = 146096
    · omega
    · have hwithin : 1461 * cycle + 365 * year + rest < 36524 := by omega
      omega
  omega

theorem dayOfYear : day - (365 * (100 * century + 4 * cycle + year) + (100 * century + 4 * cycle + year) / 4 -
    (100 * century + 4 * cycle + year) / 100) = rest := by
  obtain ⟨heq, hcentury, hcycle, hyear, hrest, hleap⟩ := h
  omega

end EraDay

/-- A day of a year that begins in March, by months after March and days after the first. -/
structure MarchDay (rest : Int) (month day : Nat) : Prop where
  month_le : month ≤ 11
  eq : rest = ((153 * month + 2) / 5 + day : Nat)
  within : (153 * month + 2) / 5 + day < (153 * month + 155) / 5

theorem marchDay_of_rest {rest : Int} (h : 0 ≤ rest ∧ rest ≤ 365) :
    MarchDay rest ((5 * rest.toNat + 2) / 153) (rest.toNat - (153 * ((5 * rest.toNat + 2) / 153) + 2) / 5) :=
  ⟨by omega, by omega, by omega⟩

/-- January and February belong to the year that began in March. -/
theorem exists_ofDays_eq (days : Int) :
    ∃ (era dayOfEra century cycle year rest : Int) (month day : Nat),
      days + 719468 = era * 146097 + dayOfEra ∧ EraDay dayOfEra century cycle year rest ∧ MarchDay rest month day ∧
      ofDays days =
        if month < 10 then ⟨100 * century + 4 * cycle + year + era * 400, month + 3, day + 1⟩
        else ⟨100 * century + 4 * cycle + year + era * 400 + 1, month - 9, day + 1⟩ := by
  let era := (days + 719468) / 146097
  obtain ⟨century, cycle, year, rest, h⟩ := @exists_eraDay (days + 719468 - era * 146097) (by omega) (by omega)
  refine ⟨era, _, century, cycle, year, rest, _, _, by omega, h, marchDay_of_rest h.days, ?_⟩
  simp only [ofDays, era, h.yearOfEra, h.dayOfYear]
  have hrest := h.days
  by_cases hmonth : (5 * rest.toNat + 2) / 153 < 10
  · rw [if_pos hmonth, if_pos hmonth, if_neg (by omega), Int.add_zero]
  · rw [if_neg hmonth, if_neg hmonth, if_pos (by omega)]

theorem toDays_ofDays (days : Int) : (ofDays days).toDays = days := by
  obtain ⟨era, dayOfEra, century, cycle, year, rest, month, day, hdays, h, hmarch, hdate⟩ := exists_ofDays_eq days
  obtain ⟨hday, hcentury, hcycle, hyear, hrest, hleap⟩ := h
  obtain ⟨hmonth, heq, hwithin⟩ := hmarch
  rw [hdate]
  have hera : (100 * century + 4 * cycle + year + era * 400) / 400 = era := by omega
  split
  · simp only [toDays, show ¬ month + 3 ≤ 2 by omega, show month + 3 > 2 by omega, if_true, if_false, hera]
    omega
  · simp only [toDays, show month - 9 ≤ 2 by omega, show ¬ month - 9 > 2 by omega, if_true, if_false, hera,
      Int.add_sub_cancel]
    omega

theorem exists?_iff {year : Int} {month day : Nat} :
    (Date.mk year month day).exists? = true ↔ 1 ≤ month ∧ month ≤ 12 ∧ 1 ≤ day ∧ day ≤ daysInMonth year month := by
  simp only [exists?, Bool.and_eq_true, decide_eq_true_eq, and_assoc]

theorem daysInMonth_le (year : Int) (month : Nat) : daysInMonth year month ≤ 31 := by
  unfold daysInMonth
  repeat' split
  all_goals decide

theorem exists?_ofDays (days : Int) : (ofDays days).exists? = true := by
  obtain ⟨era, dayOfEra, century, cycle, year, rest, month, day, -, h, hmarch, hdate⟩ := exists_ofDays_eq days
  obtain ⟨-, hcentury, hcycle, hyear, hrest, hleap⟩ := h
  obtain ⟨hmonth, heq, hwithin⟩ := hmarch
  rw [hdate]
  split
  · have hlength : daysInMonth (100 * century + 4 * cycle + year + era * 400) (month + 3) =
        if month + 3 = 4 ∨ month + 3 = 6 ∨ month + 3 = 9 ∨ month + 3 = 11 then 30 else 31 := by
      simp [daysInMonth, or_assoc]
    rw [exists?_iff, hlength]
    refine ⟨by omega, by omega, by omega, ?_⟩
    split <;> omega
  · -- The last day of February is there when the year that ends with it has a leap day.
    rw [exists?_iff]
    refine ⟨by omega, by omega, by omega, ?_⟩
    by_cases hjanuary : month = 10
    · subst hjanuary
      have hlength : daysInMonth (100 * century + 4 * cycle + year + era * 400 + 1) (10 - 9) = 31 := rfl
      omega
    · obtain rfl : month = 11 := by omega
      have hleapDay : day = 28 → isLeapYear (100 * century + 4 * cycle + year + era * 400 + 1) = true := by
        intro hday
        obtain ⟨rfl, hlast⟩ := hleap (by omega)
        simp only [isLeapYear, Bool.and_eq_true, Bool.or_eq_true, beq_iff_eq, bne_iff_ne]
        omega
      have hlength : daysInMonth (100 * century + 4 * cycle + year + era * 400 + 1) (11 - 9) =
          if isLeapYear (100 * century + 4 * cycle + year + era * 400 + 1) then 29 else 28 := rfl
      rw [hlength]
      split
      · omega
      · have hnot : day ≠ 28 := fun hday => absurd (hleapDay hday) (by assumption)
        omega

end BuildScheduling.Date
