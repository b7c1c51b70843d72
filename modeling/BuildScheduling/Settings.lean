import BuildScheduling.Failure

/-!
# Settings

Limits of the scheduler. Values of zero can be written down and read in; `Settings.validate` refuses them,
and the accessors count them as one.
-/

namespace BuildScheduling

structure Duration where
  seconds : UInt64
  nanos : Fin 1000000000
  deriving DecidableEq

/-- A span of so many seconds and nanoseconds; nanoseconds past a second are carried over. -/
def Duration.ofParts (seconds : UInt64) (nanos : Nat) : Duration :=
  ⟨seconds + UInt64.ofNat (nanos / 1000000000), Fin.ofNat 1000000000 nanos⟩

/-- Whole milliseconds of a span. -/
def Duration.millis (d : Duration) : Nat := d.seconds.toNat * 1000 + d.nanos.val / 1000000

structure Settings where
  resolutionTimeoutSecs : UInt64 := 30
  timerTickMillis : UInt64 := 1000
  healthHistoryLimit : UInt64 := 256
  deriving DecidableEq

namespace Settings

/-- Nothing waits for less than one unit. -/
def atLeastOne (n : UInt64) : UInt64 := max n 1

def validate (s : Settings) : Except Failure Unit :=
  if s.resolutionTimeoutSecs == 0 then
    .error (.settings "resolution_timeout_secs must be at least 1")
  else if s.timerTickMillis == 0 then .error (.settings "timer_tick_millis must be at least 1")
  else .ok ()

def withResolutionTimeout (s : Settings) (d : Duration) : Settings :=
  { s with resolutionTimeoutSecs := atLeastOne d.seconds }

/-- The tick is kept in 64 bits of milliseconds; what does not fit is dropped from the top. -/
def withTimerTick (s : Settings) (d : Duration) : Settings :=
  { s with timerTickMillis := atLeastOne (UInt64.ofNat d.millis) }

def withHealthHistoryLimit (s : Settings) (limit : UInt64) : Settings :=
  { s with healthHistoryLimit := limit }

/-- Seconds that an attempt may take. -/
def resolutionTimeout (s : Settings) : UInt64 := atLeastOne s.resolutionTimeoutSecs

/-- Milliseconds between two looks at the timers. -/
def timerTick (s : Settings) : UInt64 := atLeastOne s.timerTickMillis

end Settings

end BuildScheduling
