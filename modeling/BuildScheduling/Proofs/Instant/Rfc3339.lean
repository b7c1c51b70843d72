import BuildScheduling.Instant.Rfc3339
import BuildScheduling.Proofs.Instant.Calendar
import BuildScheduling.Proofs.Text.Numeral

/-!
# Times as text, read back

The text of an instant is read as that instant, to the nanosecond, when the instant is one that can be kept
(`Representable`): its year is in range, and only a last second of a minute is followed by a leap second. No other
instant comes out of a reading, so no other is read back. Each part of the text has a reader that takes just that
part from the front.
-/

namespace BuildScheduling.Instant

open Text

/-- The nanoseconds of an instant are those of a second, or of a leap second at the end of a minute; its day is in
the range of years. -/
structure Representable (t : Instant) : Prop where
  nanos : t.nanos < 1000000000 ∨ t.nanos < 2000000000 ∧ t.seconds % 60 = 59
  inRange : inYearRange (dayAndSecond t.seconds).1 = true

/-! ## Parts of a time -/

theorem isBlank_of_isDigit {c : Char} (h : c.isDigit = true) : isBlank c = false := by
  rw [isDigit_iff] at h
  simp only [isBlank, Bool.or_eq_false_iff, Bool.and_eq_false_iff, decide_eq_false_iff_not, beq_eq_false_iff_ne]
  omega

theorem skipBlanks_append {ds rest : List Char} {n : Nat} (h : Spells ds n) : skipBlanks (ds ++ rest) = ds ++ rest := by
  refine dropWhile_of_stops ?_
  cases ds with
  | nil => exact absurd rfl h.nonempty
  | cons d ds => exact stops_cons.mpr (isBlank_of_isDigit (h.digits d List.mem_cons_self))

theorem twoDigits?_append {n : Nat} {rest : List Char} (h : n < 100) (hrest : Stops Char.isDigit rest) :
    twoDigits? ((padded 2 n).toList ++ rest) = some (n, rest) := by
  have hspells := spells_padded 2 n
  have hlength : (padded 2 n).toList.length = 2 := length_padded (by decide) h
  simp [twoDigits?, skipBlanks_append hspells, digitsUpTo?_append hspells hlength hrest, hspells.value]

theorem expect?_cons {c : Char} (h : isBlank c = false) (rest : List Char) :
    expect? c (skipBlanks (c :: rest)) = some rest := by
  simp [expect?, skipBlanks, h]

theorem year?_append (year : Int) {rest : List Char} (hrest : Stops Char.isDigit rest) :
    year? ((yearText year).toList ++ rest) = some (year, rest) := by
  have hspells (n : Nat) := spells_padded 4 n
  unfold yearText
  split_ifs with hfour hnegative
  · simp only [Bool.and_eq_true, decide_eq_true_eq] at hfour
    have hlength : (padded 4 year.toNat).toList.length = 4 :=
      length_padded (by decide) (show year.toNat < 10000 by omega)
    have hread := digitsUpTo?_append (hspells year.toNat) hlength hrest
    rw [year?, skipBlanks_append (hspells year.toNat)]
    split
    · next hsign => exact absurd ((hspells _).isDigit_of_append_eq_cons hsign) (by decide)
    · next hsign => exact absurd ((hspells _).isDigit_of_append_eq_cons hsign) (by decide)
    · simp [hread, (hspells year.toNat).value, Int.toNat_of_nonneg hfour.1]
  · have hblank : isBlank '-' = false := by decide
    simp [year?, skipBlanks, hblank, digits?_append (hspells _) hrest, (hspells _).value]
    omega
  · have hblank : isBlank '+' = false := by decide
    simp [year?, skipBlanks, hblank, digits?_append (hspells _) hrest, (hspells _).value]
    omega

def dateText (date : Date) : String :=
  yearText date.year ++ "-" ++ padded 2 date.month ++ "-" ++ padded 2 date.day

/-- A date that the calendar has is read from its text. -/
theorem date?_append {date : Date} {rest : List Char} (h : date.exists? = true) (hrest : Stops Char.isDigit rest) :
    date? ((dateText date).toList ++ rest) = some (date, rest) := by
  have hbounds := h
  rw [Date.exists?_iff] at hbounds
  have hdays := Date.daysInMonth_le date.year date.month
  have hhyphen {cs : List Char} : Stops Char.isDigit ('-' :: cs) := stops_cons.mpr rfl
  have hexpect := expect?_cons (show isBlank '-' = false by decide)
  simp [dateText, date?, year?_append _ hhyphen, hexpect, twoDigits?_append (show date.month < 100 by omega) hhyphen,
    twoDigits?_append (show date.day < 100 by omega) hrest, h]

theorem fraction?_point {width n : Nat} {rest : List Char} (hwidth : 0 < width) (hwidth' : width ≤ 9)
    (h : n < Nat.pow 10 width) (hrest : Stops Char.isDigit rest) :
    fraction? (("." ++ padded width n).toList ++ rest) = some (n * Nat.pow 10 (9 - width), rest) := by
  have hspells := spells_padded width n
  have hlength := length_padded hwidth h
  simp [fraction?, digits?_append hspells hrest, hspells.value, hlength, List.take_of_length_le, hwidth']

theorem fraction?_append {nanos : Nat} {rest : List Char} (h : nanos < 1000000000)
    (hrest : Stops Char.isDigit rest) (hpoint : Stops (· == '.') rest) :
    fraction? ((fractionText nanos).toList ++ rest) = some (nanos, rest) := by
  unfold fractionText
  split_ifs with hzero hmillis hmicros
  · rw [beq_iff_eq] at hzero
    cases rest with
    | nil => simp [fraction?, hzero]
    | cons c rest =>
      have hc : c ≠ '.' := by simpa [stops_cons] using hpoint
      simp [fraction?, hzero, hc]
  · rw [beq_iff_eq] at hmillis
    rw [fraction?_point (by decide) (by decide) (show nanos / 1000000 < 1000 by omega) hrest]
    exact congrArg (fun n => some (n, rest)) (Nat.div_mul_cancel (Nat.dvd_of_mod_eq_zero hmillis))
  · rw [beq_iff_eq] at hmicros
    rw [fraction?_point (by decide) (by decide) (show nanos / 1000 < 1000000 by omega) hrest]
    exact congrArg (fun n => some (n, rest)) (Nat.div_mul_cancel (Nat.dvd_of_mod_eq_zero hmicros))
  · rw [fraction?_point (by decide) (by decide) h hrest]
    exact congrArg (fun n => some (n, rest)) (Nat.mul_one nanos)

theorem stops_fractionText (nanos : Nat) {rest : List Char} (hrest : Stops Char.isDigit rest) :
    Stops Char.isDigit ((fractionText nanos).toList ++ rest) := by
  have hpoint {cs : List Char} : Stops Char.isDigit ('.' :: cs) := stops_cons.mpr rfl
  unfold fractionText
  split_ifs
  · exact hrest
  all_goals simpa using hpoint

def clockText (hour minute second nanos : Nat) : String :=
  padded 2 hour ++ ":" ++ padded 2 minute ++ ":" ++ padded 2 second ++ fractionText nanos

/-- On a clock, a leap second is the sixtieth of its minute. -/
theorem timeOfDay?_append {hour minute second nanos : Nat} {rest : List Char} (hhour : hour < 24)
    (hminute : minute < 60) (hsecond : second ≤ 60) (hnanos : nanos < 1000000000) (hrest : Stops Char.isDigit rest)
    (hpoint : Stops (· == '.') rest) :
    timeOfDay? ((clockText hour minute second nanos).toList ++ rest) =
      some (if second = 60 then (hour * 3600 + minute * 60 + 59, nanos + 1000000000)
        else (hour * 3600 + minute * 60 + second, nanos), rest) := by
  have hexpect := expect?_cons (show isBlank ':' = false by decide)
  have hcolon {cs : List Char} : Stops Char.isDigit (':' :: cs) := stops_cons.mpr rfl
  have htwo := twoDigits?_append (show second < 100 by omega) (stops_fractionText nanos hrest)
  simp [clockText, timeOfDay?, hexpect, twoDigits?_append (show hour < 100 by omega) hcolon,
    twoDigits?_append (show minute < 100 by omega) hcolon, htwo, fraction?_append hnanos hrest hpoint, hhour,
    hminute, hsecond]
  split <;> rfl

/-! ## A whole time -/

/-- A date, a second of the day and the letter of UTC are read as that second. -/
theorem parse?_of_reads {s : String} {date : Date} {clock : List Char} {second nanos : Nat}
    (hs : s.toList = (dateText date).toList ++ 'T' :: clock) (hdate : date.exists? = true)
    (hclock : timeOfDay? clock = some ((second, nanos), ['Z'])) (hsecond : second < 86400)
    (hrange : inYearRange date.toDays = true) :
    parse? s = some ⟨date.toDays * secondsPerDay + second, nanos⟩ := by
  have hday : (dayAndSecond (date.toDays * secondsPerDay + second)).1 = date.toDays := by
    simp only [dayAndSecond, secondsPerDay]
    omega
  have hoffset : offset? (skipBlanks ['Z']) = some (0, []) := rfl
  have hread : date? s.toList = some (date, 'T' :: clock) := by
    rw [hs]
    exact date?_append hdate (stops_cons.mpr rfl)
  simp only [parse?, hread, Option.bind_eq_bind, Option.bind_some, beq_self_eq_true, Bool.true_or, if_true, hclock,
    hoffset, Int.sub_zero, hday, hrange, Bool.and_self, List.all_nil]

theorem toList_text (t : Instant) :
    t.text.toList = (dateText t.date).toList ++
      'T' :: ((clockText ((dayAndSecond t.seconds).2 / 3600) ((dayAndSecond t.seconds).2 / 60 % 60)
        ((dayAndSecond t.seconds).2 % 60 + if 1000000000 ≤ t.nanos then 1 else 0)
        (if 1000000000 ≤ t.nanos then t.nanos - 1000000000 else t.nanos)).toList ++ ['Z']) := by
  simp [text, dateText, clockText, date]

theorem timeOfDay?_of_second {second nanos : Nat} (hsecond : second < 86400)
    (hnanos : nanos < 1000000000 ∨ nanos < 2000000000 ∧ second % 60 = 59) :
    timeOfDay? ((clockText (second / 3600) (second / 60 % 60) (second % 60 + if 1000000000 ≤ nanos then 1 else 0)
      (if 1000000000 ≤ nanos then nanos - 1000000000 else nanos)).toList ++ ['Z']) = some ((second, nanos), ['Z']) := by
  have hrest : Stops Char.isDigit ['Z'] := stops_cons.mpr rfl
  have hpoint : Stops (· == '.') ['Z'] := stops_cons.mpr rfl
  have hhour : second / 3600 < 24 := by omega
  have hminute : second / 60 % 60 < 60 := by omega
  by_cases hleap : 1000000000 ≤ nanos
  · have hlast : second % 60 + 1 = 60 := by omega
    have hpast : nanos - 1000000000 < 1000000000 := by omega
    have hwhole : second / 3600 * 3600 + second / 60 % 60 * 60 + 59 = second := by omega
    rw [if_pos hleap, if_pos hleap, hlast, timeOfDay?_append hhour hminute (Nat.le_refl 60) hpast hrest hpoint,
      if_pos rfl, hwhole, Nat.sub_add_cancel hleap]
  · have hwithin : second % 60 < 60 := by omega
    have hwhole : second / 3600 * 3600 + second / 60 % 60 * 60 + second % 60 = second := by omega
    rw [if_neg hleap, if_neg hleap, Nat.add_zero,
      timeOfDay?_append hhour hminute (Nat.le_of_lt hwithin) (Nat.lt_of_not_le hleap) hrest hpoint,
      if_neg (Nat.ne_of_lt hwithin), hwhole]

/-- Nothing is lost in the text of an instant that can be kept. -/
theorem parse?_text {t : Instant} (h : t.Representable) : parse? t.text = some t := by
  obtain ⟨hbound, hday, hsecond⟩ : (dayAndSecond t.seconds).2 < 86400 ∧
      (dayAndSecond t.seconds).1 * secondsPerDay + (dayAndSecond t.seconds).2 = t.seconds ∧
      ((dayAndSecond t.seconds).2 : Int) % 60 = t.seconds % 60 := by
    simp only [dayAndSecond, secondsPerDay]
    omega
  have hclock := timeOfDay?_of_second hbound (h.nanos.imp_right fun hleap => ⟨hleap.1, by omega⟩)
  have hdays : t.date.toDays = (dayAndSecond t.seconds).1 := Date.toDays_ofDays _
  have hread := parse?_of_reads t.toList_text (Date.exists?_ofDays _) hclock hbound (hdays ▸ h.inRange)
  rwa [hdays, hday] at hread

/-! ## What a reading gives -/

theorem lt_of_fraction? {cs rest : List Char} {nanos : Nat} (h : fraction? cs = some (nanos, rest)) :
    nanos < 1000000000 := by
  unfold fraction? at h
  split at h
  · simp only [Option.map_eq_some_iff, Prod.mk.injEq] at h
    obtain ⟨⟨ds, _⟩, hds, rfl, -⟩ := h
    have hlength := List.length_take_le 9 ds
    have hvalue := digitsValue_lt (fun c hc => isDigit_of_digits? hds c (List.mem_of_mem_take hc) :
      ∀ c ∈ ds.take 9, c.isDigit = true)
    calc digitsValue (ds.take 9) * Nat.pow 10 (9 - (ds.take 9).length)
      _ < Nat.pow 10 (ds.take 9).length * Nat.pow 10 (9 - (ds.take 9).length) :=
        Nat.mul_lt_mul_of_pos_right hvalue (Nat.pow_pos (by decide))
      _ = Nat.pow 10 ((ds.take 9).length + (9 - (ds.take 9).length)) := (Nat.pow_add 10 _ _).symm
      _ = 1000000000 := by rw [Nat.add_sub_cancel' hlength]
  · obtain ⟨rfl, -⟩ : 0 = nanos ∧ _ := by simpa using h
    decide

theorem nanos_of_timeOfDay? {cs rest : List Char} {second nanos : Nat}
    (h : timeOfDay? cs = some ((second, nanos), rest)) :
    nanos < 1000000000 ∨ nanos < 2000000000 ∧ second % 60 = 59 := by
  simp only [timeOfDay?, Option.bind_eq_bind, Option.bind_eq_some_iff] at h
  obtain ⟨⟨hour, cs₁⟩, -, cs₂, -, ⟨minute, cs₃⟩, -, cs₄, -, ⟨sec, cs₅⟩, -, ⟨n, cs₆⟩, hn, h⟩ := h
  have hnanos := lt_of_fraction? hn
  split at h
  · split at h
    · obtain ⟨⟨rfl, rfl⟩, -⟩ := by simpa using h
      omega
    · obtain ⟨⟨rfl, rfl⟩, -⟩ := by simpa using h
      exact .inl hnanos
  · cases h

/-- Offsets are whole minutes. -/
theorem mod_of_signedOffset? {cs rest : List Char} {offset : Int} (h : signedOffset? cs = some (offset, rest)) :
    offset % 60 = 0 := by
  simp only [signedOffset?, Option.bind_eq_bind] at h
  repeat' split at h
  all_goals simp only [Option.bind_some, Option.bind_none, reduceCtorEq] at h
  all_goals repeat' split at h
  all_goals simp only [Option.some.injEq, Prod.mk.injEq, reduceCtorEq] at h
  all_goals
    obtain ⟨rfl, -⟩ := h
    omega

theorem mod_of_offset? {cs rest : List Char} {offset : Int} (h : offset? cs = some (offset, rest)) :
    offset % 60 = 0 := by
  unfold offset? at h
  split at h
  · obtain ⟨rfl, -⟩ : 0 = offset ∧ _ := by simpa using h
    decide
  · obtain ⟨rfl, -⟩ : 0 = offset ∧ _ := by simpa using h
    decide
  · split at h
    · obtain ⟨rfl, -⟩ : 0 = offset ∧ _ := by simpa using h
      decide
    · exact mod_of_signedOffset? h
  · cases h

theorem representable_of_parse? {s : String} {t : Instant} (h : parse? s = some t) : t.Representable := by
  simp only [parse?, Option.bind_eq_bind, Option.bind_eq_some_iff] at h
  obtain ⟨⟨date, cs₁⟩, -, h⟩ := h
  simp only at h
  split at h
  · split at h
    · simp only [Option.bind_some, Option.bind_eq_some_iff] at h
      obtain ⟨⟨⟨second, nanos⟩, cs₂⟩, htime, ⟨offset, cs₃⟩, hoffset, h⟩ := h
      simp only [Option.ite_none_right_eq_some, Bool.and_eq_true, Option.some.injEq] at h
      obtain ⟨⟨-, hrange⟩, rfl⟩ := h
      have hsecond := mod_of_offset? hoffset
      refine ⟨(nanos_of_timeOfDay? htime).imp_right fun hleap => ⟨hleap.1, ?_⟩, hrange⟩
      simp only [secondsPerDay]
      omega
    · cases h
  · cases h

/-- Just the instants that can be kept are read back from their text. -/
theorem parse?_text_iff {t : Instant} : parse? t.text = some t ↔ t.Representable :=
  ⟨representable_of_parse?, parse?_text⟩

end BuildScheduling.Instant
