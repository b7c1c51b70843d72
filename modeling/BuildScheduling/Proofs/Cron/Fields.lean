import BuildScheduling.Cron.Grammar

/-!
# The fields of a schedule

Every schedule that a spec stands for has its numbers in ascending order and in the range of their field
(`Schedule.WellFormed`): the readers make no other lists.
-/

namespace BuildScheduling.Cron

/-- Ascending numbers in the range of a field. -/
structure FieldRule.Field (rule : FieldRule) (values : List Nat) : Prop where
  ascending : values.Pairwise (· < ·)
  within : ∀ n ∈ values, rule.least ≤ n ∧ n ≤ rule.greatest

structure Schedule.WellFormed (s : Schedule) : Prop where
  seconds : secondRule.Field s.seconds
  minutes : minuteRule.Field s.minutes
  hours : hourRule.Field s.hours
  daysOfMonth : dayOfMonthRule.Field s.daysOfMonth
  months : monthRule.Field s.months
  daysOfWeek : dayOfWeekRule.Field s.daysOfWeek
  years : yearRule.Field s.years

namespace FieldRule

variable {rule : FieldRule} {values : List Nat}

theorem field_all : rule.Field rule.all :=
  ⟨List.pairwise_lt_range', fun n hn => by
    obtain ⟨hleast, hgreatest⟩ := List.mem_range'_1.mp hn
    omega⟩

theorem field_one {n : Nat} (h : rule.least ≤ n ∧ n ≤ rule.greatest) : rule.Field [n] :=
  ⟨List.pairwise_singleton _ _, fun m hm => by rwa [List.mem_singleton.mp hm]⟩

theorem Field.filter (h : rule.Field values) (p : Nat → Bool) : rule.Field (values.filter p) :=
  ⟨h.ascending.filter p, fun n hn => h.within n (List.mem_filter.mp hn).1⟩

theorem field_of_values? {elements : List Element} (h : rule.values? elements = some values) :
    rule.Field values := by
  rw [values?] at h
  split at h
  · cases h
    exact field_all.filter _
  · cases h

theorem field_of_field? {questionMark : Bool} {cs rest : List Char}
    (h : field? rule questionMark cs = some (values, rest)) : rule.Field values := by
  simp only [field?, Option.pure_def, Option.bind_eq_bind, Option.bind_eq_some_iff, Option.some.injEq,
    Prod.mk.injEq] at h
  obtain ⟨_, -, _, hvalues, rfl, -⟩ := h
  exact field_of_values? hvalues

end FieldRule

namespace Schedule

variable {s : Schedule}

theorem wellFormed_of_longSpec? {cs : List Char} (h : longSpec? cs = some s) : s.WellFormed := by
  simp only [longSpec?, Option.bind_eq_bind, Option.bind_eq_some_iff, Prod.exists] at h
  obtain ⟨seconds, _, hseconds, minutes, _, hminutes, hours, _, hhours, daysOfMonth, _, hdaysOfMonth, months, _,
    hmonths, daysOfWeek, cs, hdaysOfWeek, h⟩ := h
  obtain ⟨years, hyears, rfl⟩ : ∃ years, yearRule.Field years ∧
      (⟨seconds, minutes, hours, daysOfMonth, months, daysOfWeek, years⟩ : Schedule) = s := by
    by_cases hall : cs.isEmpty = true
    · rw [if_pos hall, Option.bind_some, if_pos hall] at h
      exact ⟨_, FieldRule.field_all, Option.some.inj h⟩
    · rw [if_neg hall, Option.bind_eq_some_iff] at h
      obtain ⟨⟨years, rest⟩, hyears, h⟩ := h
      split at h
      · exact ⟨_, FieldRule.field_of_field? hyears, Option.some.inj h⟩
      · cases h
  exact ⟨FieldRule.field_of_field? hseconds, FieldRule.field_of_field? hminutes,
    FieldRule.field_of_field? hhours, FieldRule.field_of_field? hdaysOfMonth, FieldRule.field_of_field? hmonths,
    FieldRule.field_of_field? hdaysOfWeek, hyears⟩

/-- The fields of a schedule on the hour are whole ranges and first numbers of ranges. -/
theorem wellFormed_of_shortSpec? {word : String} (h : shortSpec? word = some s) : s.WellFormed := by
  have hfirst : ∀ rule : FieldRule, rule.least ≤ rule.greatest → rule.Field [rule.least] :=
    fun rule hle => FieldRule.field_one ⟨Nat.le_refl _, hle⟩
  have hsecond := hfirst secondRule (by decide)
  have hminute := hfirst minuteRule (by decide)
  have hhour := hfirst hourRule (by decide)
  have hday := hfirst dayOfMonthRule (by decide)
  have hmonth := hfirst monthRule (by decide)
  have hweekday := hfirst dayOfWeekRule (by decide)
  unfold shortSpec? at h
  split at h <;> cases h <;> constructor <;> first | assumption | exact FieldRule.field_all

theorem wellFormed_of_ofSpec? {spec : String} (h : ofSpec? spec = some s) : s.WellFormed := by
  rw [ofSpec?, Option.orElse_eq_orElse, Option.orElse_eq_or, Option.or_eq_some_iff] at h
  rcases h with h | ⟨-, h⟩
  · exact wellFormed_of_shortSpec? h
  · exact wellFormed_of_longSpec? h

end Schedule

end BuildScheduling.Cron
