import Mathlib.Algebra.Group.Nat.Defs
import BuildScheduling.Settings

/-!
# The timer tick

A tick is kept in 64 bits of milliseconds, and the longest span has about a thousand times as many. Of such a span only what
is left after as many full laps of 64 bits as go into it is kept (`toNat_timerTick`), and then raised to one millisecond. Spans
of one lap are kept in their order, those of the first lap as they are; across a lap the longer one may become the shortest
tick there is.
-/

namespace BuildScheduling

namespace Duration

/-- Fewer seconds, or as many and no more nanoseconds. -/
instance : LE Duration := ⟨fun a b => a.seconds < b.seconds ∨ a.seconds = b.seconds ∧ a.nanos ≤ b.nanos⟩

instance (a b : Duration) : Decidable (a ≤ b) :=
  inferInstanceAs (Decidable (a.seconds < b.seconds ∨ a.seconds = b.seconds ∧ a.nanos ≤ b.nanos))

/-- How many times the milliseconds of a span fill 64 bits. -/
def laps (d : Duration) : Nat := d.millis / 2 ^ 64

theorem millis_mono {a b : Duration} (h : a ≤ b) : a.millis ≤ b.millis := by
  have hnanos := a.nanos.isLt
  unfold millis
  rcases h with hseconds | ⟨hseconds, hle⟩
  · have hlt := UInt64.lt_iff_toNat_lt.mp hseconds
    omega
  · have heq := congrArg UInt64.toNat hseconds
    have hle : a.nanos.val ≤ b.nanos.val := hle
    omega

theorem laps_eq_zero_iff {d : Duration} : d.laps = 0 ↔ d.millis < 2 ^ 64 :=
  Nat.div_eq_zero_iff_lt (by decide)

theorem thousand_le_millis {d : Duration} (h : 1 ≤ d.seconds) : 1000 ≤ d.millis := by
  have hseconds := UInt64.le_iff_toNat_le.mp h
  have hone : (1 : UInt64).toNat = 1 := rfl
  unfold millis
  omega

end Duration

namespace Settings

theorem toNat_atLeastOne (n : UInt64) : (atLeastOne n).toNat = max n.toNat 1 := by
  have hone : (1 : UInt64).toNat = 1 := rfl
  show (if n ≤ 1 then 1 else n).toNat = max n.toNat 1
  split
  · next h =>
    have hle := UInt64.le_iff_toNat_le.mp h
    omega
  · next h =>
    have hlt := UInt64.lt_iff_toNat_lt.mp (UInt64.not_le.mp h)
    omega

/-- What is kept is no zero, so that it is the tick. -/
theorem timerTick_withTimerTick (s : Settings) (d : Duration) :
    (s.withTimerTick d).timerTick = (s.withTimerTick d).timerTickMillis := by
  apply UInt64.toNat_inj.mp
  show (atLeastOne (atLeastOne (UInt64.ofNat d.millis))).toNat = (atLeastOne (UInt64.ofNat d.millis)).toNat
  rw [toNat_atLeastOne, toNat_atLeastOne]
  omega

theorem toNat_timerTick (s : Settings) (d : Duration) :
    (s.withTimerTick d).timerTick.toNat = max (d.millis % 2 ^ 64) 1 := by
  rw [timerTick_withTimerTick]
  show (atLeastOne (UInt64.ofNat d.millis)).toNat = max (d.millis % 2 ^ 64) 1
  rw [toNat_atLeastOne, UInt64.toNat_ofNat']

/-- The tick that is set is given out as it is kept, and at least a millisecond. It is the span in whole milliseconds when these
fit in 64 bits, and what is left of them after the full laps when they do not. Of two spans with as many full laps, with none
for one, the longer one does not make the shorter tick. A second or more makes a tick of one millisecond exactly when it has
a full lap and at most one millisecond is left. -/
theorem timer_tick_grows_within_lap (s : Settings) :
    (∀ d : Duration, (s.withTimerTick d).timerTick = (s.withTimerTick d).timerTickMillis ∧
      1 ≤ (s.withTimerTick d).timerTickMillis ∧
      (s.withTimerTick d).timerTickMillis.toNat = max (d.millis % 2 ^ 64) 1) ∧
    (∀ d : Duration, d.millis < 2 ^ 64 → (s.withTimerTick d).timerTickMillis.toNat = max d.millis 1) ∧
    (∀ a b : Duration, a ≤ b → a.laps = b.laps → (s.withTimerTick a).timerTick ≤ (s.withTimerTick b).timerTick) ∧
    ∀ d : Duration, 1 ≤ d.seconds →
      ((s.withTimerTick d).timerTick = 1 ↔ d.laps ≠ 0 ∧ d.millis % 2 ^ 64 ≤ 1) := by
  have hone : (1 : UInt64).toNat = 1 := rfl
  have hkept : ∀ d : Duration, (s.withTimerTick d).timerTickMillis.toNat = max (d.millis % 2 ^ 64) 1 := by
    intro d
    rw [← timerTick_withTimerTick, toNat_timerTick]
  refine ⟨fun d => ⟨timerTick_withTimerTick s d, ?_, hkept d⟩, fun d hfits => ?_, fun a b hle hlaps => ?_,
    fun d hsecond => ?_⟩
  · apply UInt64.le_iff_toNat_le.mpr
    rw [hkept]
    omega
  · rw [hkept, Nat.mod_eq_of_lt hfits]
  · apply UInt64.le_iff_toNat_le.mpr
    rw [toNat_timerTick, toNat_timerTick]
    have hmillis := Duration.millis_mono hle
    unfold Duration.laps at hlaps
    omega
  · have hmillis := Duration.thousand_le_millis hsecond
    rw [← UInt64.toNat_inj, toNat_timerTick, ne_eq, Duration.laps_eq_zero_iff]
    omega

/-- The longest span whose milliseconds fit in 64 bits. -/
def longestKept : Duration := .ofParts 18446744073709551 615999999

/-- One nanosecond more. -/
def firstLost : Duration := .ofParts 18446744073709551 616000000

/-- A quarter of a second and the longest span of the first lap are kept, and so in order, while one nanosecond more ticks
every millisecond. -/
theorem longest_tick_kept_and_next_spins :
    let quarter : Duration := .ofParts 0 250000000
    (quarter.millis < 2 ^ 64 ∧ (withTimerTick {} quarter).timerTickMillis.toNat = 250) ∧
    (longestKept.millis < 2 ^ 64 ∧ (withTimerTick {} longestKept).timerTickMillis.toNat = 2 ^ 64 - 1) ∧
    (quarter ≤ longestKept ∧ quarter.laps = longestKept.laps ∧
      (withTimerTick {} quarter).timerTick ≤ (withTimerTick {} longestKept).timerTick) ∧
    1 ≤ firstLost.seconds ∧ firstLost.laps = 1 ∧ (withTimerTick {} firstLost).timerTick = 1 := by
  intro quarter
  obtain ⟨-, hkept, hgrows, hspins⟩ := timer_tick_grows_within_lap {}
  have hquarter : quarter.millis < 2 ^ 64 := by decide
  have hlongest : longestKept.millis < 2 ^ 64 := by decide
  exact ⟨⟨hquarter, (hkept quarter hquarter).trans (by decide)⟩,
    ⟨hlongest, (hkept longestKept hlongest).trans (by decide)⟩,
    ⟨by decide, by decide, hgrows _ _ (by decide) (by decide)⟩,
    by decide, by decide, (hspins firstLost (by decide)).mpr (by decide)⟩

/-- A longer tick becomes the shortest one. -/
theorem longer_span_makes_shortest_tick :
    longestKept ≤ firstLost ∧ 1 ≤ firstLost.seconds ∧
      (withTimerTick {} longestKept).timerTick = 18446744073709551615 ∧
      (withTimerTick {} firstLost).timerTick = 1 ∧
      ¬ (withTimerTick {} longestKept).timerTick ≤ (withTimerTick {} firstLost).timerTick := by
  decide

end Settings

end BuildScheduling
