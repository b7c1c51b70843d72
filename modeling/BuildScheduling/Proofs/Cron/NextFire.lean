import BuildScheduling.Proofs.Cron.Fields
import BuildScheduling.Proofs.Instant.DateOrder

/-!
# The next fire time

`Schedule.next?` goes through hours, minutes and seconds, and through years, months and days, and takes the first
that fits. All of these ascend, so what it takes is the first fire time of all (`earliest_next?`). A search through
a list finds the earliest of what its members lead to when what a member leads to is not after what the next
ones do (`Earliest.findSome?`); each level of the search is one case of that.
-/

namespace BuildScheduling

section

variable {α β γ : Type} {key : β → Int} {P Q : β → Prop} {found : Option β}

/-- What was found is the earliest that meets a condition; nothing was found when nothing meets it. -/
structure Earliest (key : β → Int) (P : β → Prop) (found : Option β) : Prop where
  meets : ∀ b, found = some b → P b
  least : ∀ b, P b → ∃ first, found = some first ∧ key first ≤ key b

namespace Earliest

theorem nothing (h : ∀ b, ¬ P b) : Earliest key P none :=
  ⟨fun _ hb => (Option.some_ne_none _ hb.symm).elim, fun b hb => absurd hb (h b)⟩

theorem only {b : β} (h : P b) (honly : ∀ b', P b' → b' = b) : Earliest key P (some b) :=
  ⟨fun _ hb => Option.some.inj hb ▸ h, fun b' hb' => ⟨b, rfl, by rw [honly b' hb']⟩⟩

theorem congr (h : Earliest key P found) (hPQ : ∀ b, P b ↔ Q b) : Earliest key Q found :=
  ⟨fun b hb => (hPQ b).mp (h.meets b hb), fun b hb => h.least b ((hPQ b).mpr hb)⟩

/-- Skipping what leads to nothing. -/
theorem passing {c : Prop} [Decidable c] (hskip : c → ∀ b, ¬ P b) (h : ¬ c → Earliest key P found) :
    Earliest key P (if c then none else found) := by
  split
  · next hc => exact nothing (hskip hc)
  · next hc => exact h hc

theorem map (key' : γ → Int) {g : β → γ} (h : Earliest key P found)
    (hmono : ∀ b b', key b ≤ key b' → key' (g b) ≤ key' (g b')) :
    Earliest key' (fun c => ∃ b, P b ∧ c = g b) (found.map g) := by
  refine ⟨fun c hc => ?_, ?_⟩
  · obtain ⟨b, hb, rfl⟩ := Option.map_eq_some_iff.mp hc
    exact ⟨b, h.meets b hb, rfl⟩
  · rintro _ ⟨b, hb, rfl⟩
    obtain ⟨first, hfound, hle⟩ := h.least b hb
    exact ⟨g first, by rw [hfound, Option.map_some], hmono _ _ hle⟩

/-- By induction on the list: the head leads to something, which nothing later comes before, or to nothing. -/
theorem findSome? {xs : List α} {f : α → Option β} {P : α → β → Prop}
    (h : ∀ a ∈ xs, Earliest key (P a) (f a))
    (hordered : xs.Pairwise fun a a' => ∀ b b', P a b → P a' b' → key b ≤ key b') :
    Earliest key (fun b => ∃ a ∈ xs, P a b) (xs.findSome? f) := by
  induction xs with
  | nil => exact nothing fun b hb => by simp at hb
  | cons a xs ih =>
    obtain ⟨hhead, htail⟩ := List.forall_mem_cons.mp h
    obtain ⟨hbefore, hordered⟩ := List.pairwise_cons.mp hordered
    have ih := ih htail hordered
    simp only [List.mem_cons, exists_eq_or_imp, List.findSome?_cons]
    cases hfound : f a with
    | none =>
      rw [hfound] at hhead
      have hnone : ∀ b, ¬ P a b := fun b hb => by
        obtain ⟨_, hsome, -⟩ := hhead.least b hb
        cases hsome
      exact ih.congr fun b => by simp [hnone b]
    | some first =>
      rw [hfound] at hhead
      have hmeets : P a first := hhead.meets first rfl
      refine ⟨fun b hb => Or.inl (Option.some.inj hb ▸ hmeets), ?_⟩
      rintro b (hb | ⟨a', ha', hb⟩)
      · exact hhead.least b hb
      · exact ⟨first, rfl, hbefore a' ha' first b hmeets hb⟩

end Earliest

end

theorem Instant.dayAndSecond_spec (seconds : Int) :
    seconds = (dayAndSecond seconds).1 * 86400 + (dayAndSecond seconds).2 ∧ (dayAndSecond seconds).2 < 86400 := by
  simp only [dayAndSecond, secondsPerDay]
  omega

namespace Cron.Schedule

variable {s : Schedule}

/-! ## Within a day -/

theorem coversSecond_iff {second : Nat} :
    s.coversSecond second = true ↔
      second / 3600 ∈ s.hours ∧ second / 60 % 60 ∈ s.minutes ∧ second % 60 ∈ s.seconds := by
  simp only [coversSecond, Bool.and_eq_true, List.contains_iff_mem, and_assoc]

theorem coversSecond_iff_exists (hs : s.WellFormed) {second : Nat} :
    s.coversSecond second = true ↔
      ∃ h ∈ s.hours, ∃ m ∈ s.minutes, ∃ sec ∈ s.seconds, second = h * 3600 + m * 60 + sec := by
  rw [coversSecond_iff]
  constructor
  · rintro ⟨hh, hm, hsec⟩
    exact ⟨_, hh, _, hm, _, hsec, by omega⟩
  · rintro ⟨h, hh, m, hm, sec, hsec, rfl⟩
    have hminute : m ≤ 59 := (hs.minutes.within m hm).2
    have hsecond : sec ≤ 59 := (hs.seconds.within sec hsec).2
    have hhours : (h * 3600 + m * 60 + sec) / 3600 = h := by omega
    have hminutes : (h * 3600 + m * 60 + sec) / 60 % 60 = m := by omega
    have hseconds : (h * 3600 + m * 60 + sec) % 60 = sec := by omega
    rw [hhours, hminutes, hseconds]
    exact ⟨hh, hm, hsec⟩

theorem lt_of_coversSecond (hs : s.WellFormed) {second : Nat} (h : s.coversSecond second = true) :
    second < Instant.secondsPerDay := by
  have hhour : second / 3600 ≤ 23 := (hs.hours.within _ (coversSecond_iff.mp h).1).2
  rw [Instant.secondsPerDay]
  omega

theorem earliest_secondFrom? (hs : s.WellFormed) (start : Nat) :
    Earliest Nat.cast (fun second => s.coversSecond second = true ∧ start ≤ second) (s.secondFrom? start) := by
  have hminutes : ∀ m ∈ s.minutes, m ≤ 59 := fun m hm => (hs.minutes.within m hm).2
  have hseconds : ∀ sec ∈ s.seconds, sec ≤ 59 := fun sec hsec => (hs.seconds.within sec hsec).2
  have hsearch : Earliest Nat.cast
      (fun second => ∃ h ∈ s.hours, ∃ m ∈ s.minutes, ∃ sec ∈ s.seconds,
        second = h * 3600 + m * 60 + sec ∧ start ≤ second) (s.secondFrom? start) := by
    refine .findSome? (fun h _ => .passing ?_ fun _ => .findSome? (fun m hm => .passing ?_ fun _ =>
      .findSome? (fun sec _ => .passing ?_ fun hstart => ?_) ?_) ?_) ?_
    · rintro hskip _ ⟨m, hm, sec, hsec, rfl, hstart⟩
      have hm := hminutes m hm
      have hsec := hseconds sec hsec
      omega
    · rintro hskip _ ⟨sec, hsec, rfl, hstart⟩
      have hsec := hseconds sec hsec
      omega
    · rintro hskip _ ⟨rfl, hstart⟩
      omega
    · exact .only ⟨rfl, Nat.le_of_not_lt hstart⟩ fun _ h => h.1
    · refine hs.seconds.ascending.imp ?_
      rintro sec sec' hlt _ _ ⟨rfl, -⟩ ⟨rfl, -⟩
      omega
    · refine hs.minutes.ascending.imp ?_
      rintro m m' hlt _ _ ⟨sec, hsec, rfl, -⟩ ⟨sec', -, rfl, -⟩
      have hsec := hseconds sec hsec
      omega
    · refine hs.hours.ascending.imp ?_
      rintro h h' hlt _ _ ⟨m, hm, sec, hsec, rfl, -⟩ ⟨m', -, sec', -, rfl, -⟩
      have hm := hminutes m hm
      have hsec := hseconds sec hsec
      omega
  refine hsearch.congr fun second => ?_
  rw [coversSecond_iff_exists hs]
  constructor
  · rintro ⟨h, hh, m, hm, sec, hsec, heq, hstart⟩
    exact ⟨⟨h, hh, m, hm, sec, hsec, heq⟩, hstart⟩
  · rintro ⟨⟨h, hh, m, hm, sec, hsec, heq⟩, hstart⟩
    exact ⟨h, hh, m, hm, sec, hsec, heq, hstart⟩

/-! ## Days -/

/-- A fire time from `start` on that is on a date. -/
structure FiresOn (s : Schedule) (start : Int) (date : Date) (f : Instant) : Prop where
  exists? : date.exists? = true
  weekday : weekday date.toDays ∈ s.daysOfWeek
  second : ∃ second, s.coversSecond second = true ∧ f = Instant.ofDay date.toDays second
  from_start : start ≤ f.seconds

namespace FiresOn

variable {start : Int} {date date' : Date} {f f' : Instant}

theorem seconds_within (hs : s.WellFormed) (h : s.FiresOn start date f) :
    date.toDays * 86400 ≤ f.seconds ∧ f.seconds < (date.toDays + 1) * 86400 := by
  obtain ⟨second, hcovers, rfl⟩ := h.second
  have hlt := lt_of_coversSecond hs hcovers
  simp only [Instant.secondsPerDay, Instant.ofDay] at hlt ⊢
  omega

theorem seconds_le (hs : s.WellFormed) (h : s.FiresOn start date f) (h' : s.FiresOn start date' f')
    (hearlier : date.Earlier date') : f.seconds ≤ f'.seconds := by
  have hdays := Date.toDays_lt_of_earlier h.exists? h'.exists? hearlier
  have hwithin := h.seconds_within hs
  have hwithin' := h'.seconds_within hs
  omega

theorem firstDay_le (hs : s.WellFormed) (h : s.FiresOn start date f) :
    (Instant.dayAndSecond start).1 ≤ date.toDays := by
  have hwithin := h.seconds_within hs
  have hstart := Instant.dayAndSecond_spec start
  have hfrom := h.from_start
  omega

/-- Nothing fires from `start` on on a date before the one that `start` is on. -/
theorem not_earlier (hs : s.WellFormed) (h : s.FiresOn start date f) :
    ¬ date.Earlier (Date.ofDays (Instant.dayAndSecond start).1) := by
  intro hearlier
  have hdays := Date.toDays_lt_of_earlier h.exists? (Date.exists?_ofDays _) hearlier
  rw [Date.toDays_ofDays] at hdays
  have hfirst := h.firstDay_le hs
  omega

end FiresOn

theorem coversDay_iff {day : Int} :
    s.coversDay day = true ↔
      (∃ y ∈ s.years, ((y : Nat) : Int) = (Date.ofDays day).year) ∧ (Date.ofDays day).month ∈ s.months ∧
        (Date.ofDays day).day ∈ s.daysOfMonth ∧ weekday day ∈ s.daysOfWeek := by
  simp only [coversDay, Bool.and_eq_true, List.any_eq_true, beq_iff_eq, List.contains_iff_mem, and_assoc]

theorem firesAt_iff {f : Instant} :
    s.firesAt f = true ↔ f.nanos = 0 ∧ s.coversDay (Instant.dayAndSecond f.seconds).1 = true ∧
      s.coversSecond (Instant.dayAndSecond f.seconds).2 = true := by
  simp only [firesAt, Bool.and_eq_true, beq_iff_eq, and_assoc]

/-- A schedule fires on the dates of its years, months and days. -/
theorem firesAt_iff_exists (hs : s.WellFormed) {start : Int} {f : Instant} :
    s.firesAt f = true ∧ start ≤ f.seconds ↔
      ∃ y ∈ s.years, ∃ m ∈ s.months, ∃ d ∈ s.daysOfMonth, s.FiresOn start ⟨y, m, d⟩ f := by
  constructor
  · rintro ⟨hfires, hstart⟩
    obtain ⟨hnanos, hday, hsecond⟩ := firesAt_iff.mp hfires
    obtain ⟨⟨y, hy, hyear⟩, hm, hd, hweekday⟩ := coversDay_iff.mp hday
    refine ⟨y, hy, _, hm, _, hd, ?_⟩
    rw [hyear]
    refine ⟨Date.exists?_ofDays _, by rwa [Date.toDays_ofDays], ⟨_, hsecond, ?_⟩, hstart⟩
    obtain ⟨seconds, nanos⟩ := f
    obtain ⟨heq, -⟩ := Instant.dayAndSecond_spec seconds
    cases hnanos
    rw [Date.toDays_ofDays, Instant.ofDay, Instant.secondsPerDay]
    exact congrArg (Instant.mk · 0) heq
  · rintro ⟨y, hy, m, hm, d, hd, hfires⟩
    obtain ⟨second, hcovers, rfl⟩ := hfires.second
    have hlt := lt_of_coversSecond hs hcovers
    have hday : Instant.dayAndSecond (Instant.ofDay (Date.mk y m d).toDays second).seconds =
        ((Date.mk y m d).toDays, second) := by
      simp only [Instant.dayAndSecond, Instant.ofDay, Instant.secondsPerDay, Prod.mk.injEq] at hlt ⊢
      omega
    refine ⟨firesAt_iff.mpr ?_, hfires.from_start⟩
    rw [hday]
    refine ⟨rfl, coversDay_iff.mpr ?_, hcovers⟩
    rw [Date.ofDays_toDays hfires.exists?]
    exact ⟨⟨y, hy, rfl⟩, hm, hd, hfires.weekday⟩

/-! ## The first of all -/

/-- One day of the search. On the day of `start` the seconds before it are passed over. -/
theorem earliest_onDay (hs : s.WellFormed) (start : Int) {date : Date} (hdate : date.exists? = true)
    (hday : (Instant.dayAndSecond start).1 ≤ date.toDays) (hweekday : weekday date.toDays ∈ s.daysOfWeek) :
    Earliest Instant.seconds (s.FiresOn start date)
      ((s.secondFrom? (if date.toDays == (Instant.dayAndSecond start).1 then (Instant.dayAndSecond start).2
        else 0)).map (Instant.ofDay date.toDays)) := by
  refine ((earliest_secondFrom? hs _).map Instant.seconds fun b b' hle => ?_).congr fun f => ?_
  · simp only [Instant.ofDay]
    omega
  have hstart : ∀ second, (if date.toDays == (Instant.dayAndSecond start).1 then (Instant.dayAndSecond start).2
      else 0) ≤ second ↔ start ≤ (Instant.ofDay date.toDays second).seconds := by
    intro second
    obtain ⟨heq, hlt⟩ := Instant.dayAndSecond_spec start
    simp only [Instant.ofDay, Instant.secondsPerDay, beq_iff_eq]
    split <;> omega
  constructor
  · rintro ⟨second, ⟨hcovers, hle⟩, rfl⟩
    exact ⟨hdate, hweekday, ⟨second, hcovers, rfl⟩, (hstart second).mp hle⟩
  · intro hfires
    obtain ⟨second, hcovers, rfl⟩ := hfires.second
    exact ⟨second, ⟨hcovers, (hstart second).mpr hfires.from_start⟩, rfl⟩

theorem earliest_from? (hs : s.WellFormed) {start : Int}
    (hyear : 0 ≤ (Date.ofDays (Instant.dayAndSecond start).1).year) :
    Earliest Instant.seconds (fun f => s.firesAt f = true ∧ start ≤ f.seconds) (s.from? start) := by
  have hsearch : Earliest Instant.seconds
      (fun f => ∃ y ∈ s.years, ∃ m ∈ s.months, ∃ d ∈ s.daysOfMonth, s.FiresOn start ⟨y, m, d⟩ f)
      (s.from? start) := by
    rw [from?]
    simp only [if_neg (Int.not_lt.mpr hyear)]
    refine .findSome? (fun y _ => .passing ?_ fun _ => .findSome? (fun m hm => .passing ?_ fun _ =>
      .findSome? (fun d hd => .passing ?_ fun hkept => ?_) ?_) ?_) ?_
    · rintro hskip f ⟨m, -, d, -, hfires⟩
      exact hfires.not_earlier hs (Or.inl hskip)
    · rintro hskip f ⟨d, -, hfires⟩
      simp only [Bool.and_eq_true, beq_iff_eq, decide_eq_true_eq] at hskip
      exact hfires.not_earlier hs (Or.inr ⟨hskip.1, Or.inl hskip.2⟩)
    · intro hskip f hfires
      have hlength := (Date.exists?_iff.mp hfires.exists?).2.2.2
      have hday := hfires.firstDay_le hs
      have hweekday := hfires.weekday
      simp only [Bool.or_eq_true, decide_eq_true_eq, Bool.not_eq_true', ← Bool.not_eq_true,
        List.contains_iff_mem] at hskip
      rcases hskip with (hskip | hskip) | hskip
      · omega
      · omega
      · exact hskip hweekday
    · simp only [Bool.or_eq_true, decide_eq_true_eq, Bool.not_eq_true', ← Bool.not_eq_true, List.contains_iff_mem,
        not_or, not_not] at hkept
      obtain ⟨⟨hlength, hday⟩, hweekday⟩ := hkept
      have hmonth := hs.months.within m hm
      have hdayOfMonth := hs.daysOfMonth.within d hd
      exact earliest_onDay hs start
        (Date.exists?_iff.mpr ⟨hmonth.1, hmonth.2, hdayOfMonth.1, Nat.le_of_not_lt hlength⟩)
        (Int.not_lt.mp hday) hweekday
    · refine hs.daysOfMonth.ascending.imp fun hlt f f' hf hf' => ?_
      exact hf.seconds_le hs hf' (Or.inr ⟨rfl, Or.inr ⟨rfl, hlt⟩⟩)
    · refine hs.months.ascending.imp ?_
      rintro m m' hlt f f' ⟨d, -, hf⟩ ⟨d', -, hf'⟩
      exact hf.seconds_le hs hf' (Or.inr ⟨rfl, Or.inl hlt⟩)
    · refine hs.years.ascending.imp ?_
      rintro y y' hlt f f' ⟨m, -, d, -, hf⟩ ⟨m', -, d', -, hf'⟩
      exact hf.seconds_le hs hf' (Or.inl (Int.ofNat_lt.mpr hlt))
  exact hsearch.congr fun f => (firesAt_iff_exists hs).symm

end Cron.Schedule

end BuildScheduling
