import BuildScheduling.Proofs.Cron.NextFire

/-!
# Windows of time

A window is open at its left end and closed at its right: it has a fire time when one is after the left end and not
after the right. That is asked of a search for the next fire time, and all that is needed of the search is that it finds
the first fire time after an instant (`Cron.Foretells`). The first one decides, so windows can be laid end to end: what
one of them has the whole has, and the other way round. The search through the fields of a schedule does find it, from
every instant that is not before the year 0 (`Schedule.foretells_next?`).
-/

namespace BuildScheduling

namespace Instant

variable {a b c f : Instant}

theorem before_iff : a.before b = true ↔ a.seconds < b.seconds ∨ a.seconds = b.seconds ∧ a.nanos < b.nanos := by
  simp only [before, Bool.or_eq_true, Bool.and_eq_true, decide_eq_true_eq, beq_iff_eq]

theorem upTo_iff : a.upTo b = true ↔ a.seconds < b.seconds ∨ a.seconds = b.seconds ∧ a.nanos ≤ b.nanos := by
  rw [upTo, Bool.not_eq_true', ← Bool.not_eq_true, before_iff]
  omega

theorem before_or_upTo (a b : Instant) : b.before a = true ∨ a.upTo b = true := by
  rw [before_iff, upTo_iff]
  omega

theorem upTo_trans (h : a.upTo b = true) (h' : b.upTo c = true) : a.upTo c = true := by
  rw [upTo_iff] at *
  omega

theorem before_of_upTo_of_before (h : a.upTo b = true) (h' : b.before f = true) : a.before f = true := by
  rw [before_iff, upTo_iff] at *
  omega

theorem seconds_le_of_upTo (h : a.upTo b = true) : a.seconds ≤ b.seconds := by
  rw [upTo_iff] at h
  omega

theorem year_mono (h : a.seconds ≤ b.seconds) : a.date.year ≤ b.date.year :=
  Date.year_ofDays_mono (Int.ediv_le_ediv (by decide) h)

end Instant

namespace Cron

variable {fires : Instant → Bool} {next : Instant → Option Instant} {within : Instant → Prop} {a b c : Instant}

/-- A search answers with the first fire time after an instant, for instants within its reach; and it does not get
out of reach as time goes on. -/
structure Foretells (fires : Instant → Bool) (next : Instant → Option Instant) (within : Instant → Prop) : Prop where
  meets : ∀ {a f}, within a → next a = some f → fires f = true ∧ a.before f = true
  least : ∀ {a f}, within a → fires f = true → a.before f = true →
    ∃ first, next a = some first ∧ first.upTo f = true
  onwards : ∀ {a b}, within a → a.upTo b = true → within b

/-- Whether the fire time that is found after `after` is not later than `latest`: of `Schedule.next?` this is
`Schedule.firesBetween`. -/
def foundBetween (next : Instant → Option Instant) (after latest : Instant) : Bool :=
  (next after).any fun f => f.upTo latest

namespace Foretells

variable (h : Foretells fires next within)

include h

/-- A window with a fire time is one with the first fire time after its left end. -/
theorem foundBetween_iff (ha : within a) :
    foundBetween next a c = true ↔ ∃ f, fires f = true ∧ a.before f = true ∧ f.upTo c = true := by
  rw [foundBetween, Option.any_eq_true]
  constructor
  · rintro ⟨f, hfound, hlast⟩
    obtain ⟨hfires, hafter⟩ := h.meets ha hfound
    exact ⟨f, hfires, hafter, hlast⟩
  · rintro ⟨f, hfires, hafter, hlast⟩
    obtain ⟨first, hfound, hfirst⟩ := h.least ha hfires hafter
    exact ⟨first, hfound, Instant.upTo_trans hfirst hlast⟩

/-- Two windows end to end are one. -/
theorem foundBetween_split (ha : within a) (hab : a.upTo b = true) (hbc : b.upTo c = true) :
    foundBetween next a c = true ↔ foundBetween next a b = true ∨ foundBetween next b c = true := by
  rw [h.foundBetween_iff ha, h.foundBetween_iff ha, h.foundBetween_iff (h.onwards ha hab)]
  constructor
  · rintro ⟨f, hfires, hafter, hlast⟩
    rcases Instant.before_or_upTo f b with hlate | hearly
    · exact Or.inr ⟨f, hfires, hlate, hlast⟩
    · exact Or.inl ⟨f, hfires, hafter, hearly⟩
  · rintro (⟨f, hfires, hafter, hlast⟩ | ⟨f, hfires, hafter, hlast⟩)
    · exact ⟨f, hfires, hafter, Instant.upTo_trans hlast hbc⟩
    · exact ⟨f, hfires, Instant.before_of_upTo_of_before hab hafter, hlast⟩

/-- Any number of windows end to end are one. By induction on the cuts: the first window is split off. -/
theorem foundBetween_chain {cuts : List Instant} (ha : within a)
    (hchain : (a :: cuts).IsChain fun t t' => t.upTo t' = true) :
    a.upTo ((a :: cuts).getLast (List.cons_ne_nil _ _)) = true ∧
      (foundBetween next a ((a :: cuts).getLast (List.cons_ne_nil _ _)) = true ↔
        ∃ window ∈ (a :: cuts).zip cuts, foundBetween next window.1 window.2 = true) := by
  induction cuts generalizing a with
  | nil =>
    refine ⟨Instant.upTo_iff.mpr (Or.inr ⟨rfl, Nat.le_refl _⟩), ?_⟩
    rw [h.foundBetween_iff ha]
    simp only [List.getLast_singleton, List.zip_nil_right, List.not_mem_nil, false_and, exists_false, iff_false,
      Instant.before_iff, Instant.upTo_iff]
    rintro ⟨f, -, hafter, hlast⟩
    omega
  | cons b rest ih =>
    obtain ⟨hab, hrest⟩ := List.isChain_cons_cons.mp hchain
    obtain ⟨hlast, hparts⟩ := ih (h.onwards ha hab) hrest
    rw [List.getLast_cons (List.cons_ne_nil b rest)]
    refine ⟨Instant.upTo_trans hab hlast, ?_⟩
    rw [h.foundBetween_split ha hab hlast, hparts]
    simp only [List.zip_cons_cons, List.mem_cons, exists_eq_or_imp]

end Foretells

namespace Schedule

variable {s : Schedule}

/-- The next fire time is the first of all that are after an instant. -/
theorem earliest_next? (hs : s.WellFormed) (hyear : 0 ≤ a.date.year) :
    Earliest Instant.seconds (fun f => s.firesAt f = true ∧ a.before f = true) (s.next? a) := by
  have hlater : 0 ≤ (Date.ofDays (Instant.dayAndSecond (a.seconds + 1)).1).year :=
    Int.le_trans hyear (Instant.year_mono (a := a) (b := ⟨a.seconds + 1, 0⟩) (Int.le_add_one (Int.le_refl _)))
  refine (earliest_from? hs hlater).congr fun f => and_congr_right fun hfires => ?_
  -- A fire time is at the beginning of its second, so it is after an instant when its second is.
  have hwhole := (firesAt_iff.mp hfires).1
  rw [Instant.before_iff]
  omega

/-- What a schedule finds next can be relied on from the year 0 on. -/
theorem foretells_next? (hs : s.WellFormed) : Foretells s.firesAt s.next? fun a => 0 ≤ a.date.year where
  meets hyear hfound := (earliest_next? hs hyear).meets _ hfound
  least hyear hfires hafter := by
    have hnext := earliest_next? hs hyear
    obtain ⟨first, hfound, hle⟩ := hnext.least _ ⟨hfires, hafter⟩
    have hwhole := (firesAt_iff.mp (hnext.meets first hfound).1).1
    refine ⟨first, hfound, Instant.upTo_iff.mpr ?_⟩
    omega
  onwards hyear hupTo := Int.le_trans hyear (Instant.year_mono (Instant.seconds_le_of_upTo hupTo))

end Schedule

end Cron

end BuildScheduling
