import BuildScheduling.Instant.Basic
import BuildScheduling.Text.Scan

/-!
# Times as text

Times are written in UTC as RFC 3339 has them, with the fewest of 0, 3, 6 or 9 decimals that are exact.
Reading is more liberal: any offset, blanks between the parts and at the end, one digit where two are usual,
a space for the `T`. `Instant.parse?` says which texts are times; a time out of the range of years that is kept
(`yearRange`) is none.
-/

namespace BuildScheduling.Instant

open Text

/-! ## Writing -/

/-- Years of four digits stand without a sign, all others with one. -/
def yearText (year : Int) : String :=
  if 0 ≤ year && year ≤ 9999 then padded 4 year.toNat
  else if year < 0 then "-" ++ padded 4 (-year).toNat
  else "+" ++ padded 4 year.toNat

/-- Decimals of a second, in groups of three. -/
def fractionText (nanos : Nat) : String :=
  if nanos == 0 then ""
  else if nanos % 1000000 == 0 then "." ++ padded 3 (nanos / 1000000)
  else if nanos % 1000 == 0 then "." ++ padded 6 (nanos / 1000)
  else "." ++ padded 9 nanos

/-- The instant in UTC. A leap second is written as second 60. -/
def text (t : Instant) : String :=
  let (day, second) := dayAndSecond t.seconds
  let date := Date.ofDays day
  let leap := 1000000000 ≤ t.nanos
  yearText date.year ++ "-" ++ padded 2 date.month ++ "-" ++ padded 2 date.day
    ++ "T" ++ padded 2 (second / 3600) ++ ":" ++ padded 2 (second / 60 % 60) ++ ":"
    ++ padded 2 (second % 60 + (if leap then 1 else 0))
    ++ fractionText (if leap then t.nanos - 1000000000 else t.nanos) ++ "Z"

/-! ## Reading -/

def yearRange : Int × Int := (-262143, 262142)

def inYearRange (day : Int) : Bool :=
  Date.toDays ⟨yearRange.1, 1, 1⟩ ≤ day && day ≤ Date.toDays ⟨yearRange.2, 12, 31⟩

def twoDigits? (cs : List Char) : Option (Nat × List Char) := do
  let (ds, rest) ← digitsUpTo? 2 (skipBlanks cs)
  return (digitsValue ds, rest)

/-- A year of up to four digits, or of any length after a sign. -/
def year? (cs : List Char) : Option (Int × List Char) :=
  match skipBlanks cs with
  | '-' :: rest => (digits? rest).map fun (ds, rest) => (-(digitsValue ds : Int), rest)
  | '+' :: rest => (digits? rest).map fun (ds, rest) => ((digitsValue ds : Int), rest)
  | rest => (digitsUpTo? 4 rest).map fun (ds, rest) => ((digitsValue ds : Int), rest)

/-- Year, month and day with hyphens between them; the calendar has to have the date. -/
def date? (cs : List Char) : Option (Date × List Char) := do
  let (year, cs) ← year? cs
  let cs ← expect? '-' (skipBlanks cs)
  let (month, cs) ← twoDigits? cs
  let cs ← expect? '-' (skipBlanks cs)
  let (day, cs) ← twoDigits? cs
  let date : Date := ⟨year, month, day⟩
  if date.exists? then return (date, cs) else none

/-- Decimals after a point, cut to nine. -/
def fraction? (cs : List Char) : Option (Nat × List Char) :=
  match cs with
  | '.' :: rest => (digits? rest).map fun (ds, rest) =>
      let kept := ds.take 9
      (digitsValue kept * Nat.pow 10 (9 - kept.length), rest)
  | _ => some (0, cs)

/-- The second of the day and the nanoseconds of a time of day. -/
def timeOfDay? (cs : List Char) : Option ((Nat × Nat) × List Char) := do
  let (hour, cs) ← twoDigits? cs
  let cs ← expect? ':' (skipBlanks cs)
  let (minute, cs) ← twoDigits? cs
  let cs ← expect? ':' (skipBlanks cs)
  let (second, cs) ← twoDigits? cs
  let (nanos, cs) ← fraction? cs
  if hour < 24 && minute < 60 && second ≤ 60 then
    if second == 60 then return ((hour * 3600 + minute * 60 + 59, nanos + 1000000000), cs)
    else return ((hour * 3600 + minute * 60 + second, nanos), cs)
  else none

/-- Seconds that a clock at this offset is ahead of UTC: less than a day. -/
def signedOffset? (cs : List Char) : Option (Int × List Char) := do
  let (sign, cs) ← match cs with
    | '+' :: rest => some ((1 : Int), rest)
    | '-' :: rest => some ((-1 : Int), rest)
    | '−' :: rest => some ((-1 : Int), rest)
    | _ => none
  match cs with
  | h₁ :: h₂ :: rest =>
    match rest.dropWhile fun c => c == ':' || isBlank c with
    | m₁ :: m₂ :: rest =>
      if [h₁, h₂, m₁, m₂].all Char.isDigit then
        let hours := digitsValue [h₁, h₂]
        let minutes := digitsValue [m₁, m₂]
        if minutes < 60 && hours < 24 then some (sign * (hours * 3600 + minutes * 60 : Nat), rest) else none
      else none
    | _ => none
  | _ => none

/-- `Z`, the letters UTC, or a signed offset. -/
def offset? (cs : List Char) : Option (Int × List Char) :=
  match cs with
  | 'Z' :: rest => some (0, rest)
  | 'z' :: rest => some (0, rest)
  | a :: b :: c :: rest =>
    if [a, b, c].map Char.toLower == ['u', 't', 'c'] then some (0, rest) else signedOffset? cs
  | _ => none

/-- The instant that a text names, if it is a time. -/
def parse? (s : String) : Option Instant := do
  let (date, cs) ← date? s.toList
  let cs ← match cs with
    | c :: rest => if c == 'T' || c == 't' || c == ' ' then some rest else none
    | [] => none
  let ((second, nanos), cs) ← timeOfDay? cs
  let (offset, cs) ← offset? (skipBlanks cs)
  let day := date.toDays
  let seconds := day * secondsPerDay + second - offset
  if cs.all isBlank && inYearRange day && inYearRange (dayAndSecond seconds).1 then some ⟨seconds, nanos⟩
  else none

end BuildScheduling.Instant
