import BuildScheduling.Instant.Calendar

/-!
# Points in time

An instant is a second since 1970-01-01T00:00:00Z and nanoseconds into it. A leap second belongs to the
second before it: its nanoseconds run on from 1 000 000 000. Instants are ordered by second, then by
nanosecond.
-/

namespace BuildScheduling

structure Instant where
  seconds : Int
  nanos : Nat
  deriving DecidableEq

namespace Instant

/-- The later one is the one with the greater second, or with the greater nanosecond in the same second. -/
def before (a b : Instant) : Bool :=
  a.seconds < b.seconds || (a.seconds == b.seconds && a.nanos < b.nanos)

def upTo (a b : Instant) : Bool := !b.before a

def secondsPerDay : Nat := 86400

/-- The day since 1970-01-01 and the second of that day. -/
def dayAndSecond (seconds : Int) : Int × Nat :=
  (seconds / secondsPerDay, (seconds % secondsPerDay).toNat)

def ofDay (day : Int) (second : Nat) : Instant := ⟨day * secondsPerDay + second, 0⟩

def date (t : Instant) : Date := Date.ofDays (dayAndSecond t.seconds).1

def addMinutes (t : Instant) (minutes : Int) : Instant := { t with seconds := t.seconds + minutes * 60 }

end Instant

end BuildScheduling
