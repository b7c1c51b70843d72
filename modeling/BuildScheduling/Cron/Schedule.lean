import BuildScheduling.Instant.Basic
import BuildScheduling.Cron.Field

/-!
# Cron schedules

A schedule fires at every whole second, in UTC, whose second, minute, hour, day of month, month, day of week
and year are all among its fields (`Schedule.firesAt`). `Schedule.next?` is the first such second after an
instant. Years before 1970 and after 2100 are in no field.
-/

namespace BuildScheduling.Cron

/-- The numbers at which a schedule fires, each field ascending. -/
structure Schedule where
  seconds : List Nat
  minutes : List Nat
  hours : List Nat
  daysOfMonth : List Nat
  months : List Nat
  daysOfWeek : List Nat
  years : List Nat
  deriving DecidableEq

namespace Schedule

def coversDay (s : Schedule) (day : Int) : Bool :=
  let date := Date.ofDays day
  s.years.any (fun (y : Nat) => (y : Int) == date.year) && s.months.contains date.month
    && s.daysOfMonth.contains date.day && s.daysOfWeek.contains (weekday day)

/-- Whether the schedule fires at a second of every day that it covers. -/
def coversSecond (s : Schedule) (second : Nat) : Bool :=
  s.hours.contains (second / 3600) && s.minutes.contains (second / 60 % 60)
    && s.seconds.contains (second % 60)

def firesAt (s : Schedule) (t : Instant) : Bool :=
  let (day, second) := Instant.dayAndSecond t.seconds
  t.nanos == 0 && s.coversDay day && s.coversSecond second

/-- The first second of a day, from `start` on, at which the schedule fires on days that it covers. -/
def secondFrom? (s : Schedule) (start : Nat) : Option Nat :=
  s.hours.findSome? fun h =>
    if h < start / 3600 then none else
    s.minutes.findSome? fun m =>
      if h * 60 + m < start / 60 then none else
      s.seconds.findSome? fun sec =>
        let second := h * 3600 + m * 60 + sec
        if second < start then none else some second

/-- The first fire time whose second is not before `start`. The years are gone through in order, and in
each the months and days that it has. A start before the year 0 has none. -/
def from? (s : Schedule) (start : Int) : Option Instant :=
  let (firstDay, firstSecond) := Instant.dayAndSecond start
  let first := Date.ofDays firstDay
  if first.year < 0 then none else
  s.years.findSome? fun (y : Nat) =>
    if (y : Int) < first.year then none else
    s.months.findSome? fun m =>
      if (y : Int) == first.year && m < first.month then none else
      s.daysOfMonth.findSome? fun d =>
        let day := Date.toDays ⟨y, m, d⟩
        if daysInMonth y m < d || day < firstDay || !s.daysOfWeek.contains (weekday day) then none
        else (s.secondFrom? (if day == firstDay then firstSecond else 0)).map (Instant.ofDay day)

/-- The first fire time after an instant. A fraction of a second does not count: the search starts one
second on from the second the instant is in. -/
def next? (s : Schedule) (after : Instant) : Option Instant := s.from? (after.seconds + 1)

def upcoming (s : Schedule) : Nat → Instant → List Instant
  | 0, _ => []
  | count + 1, after =>
    match s.next? after with
    | none => []
    | some t => t :: s.upcoming count t

/-- Whether the schedule fires after `after` and not later than `latest`. -/
def firesBetween (s : Schedule) (after latest : Instant) : Bool :=
  (s.next? after).any fun t => t.upTo latest

end Schedule

end BuildScheduling.Cron
