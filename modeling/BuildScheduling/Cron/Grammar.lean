import BuildScheduling.Cron.Schedule
import BuildScheduling.Text.Scan

/-!
# Cron specs

A spec is one of five words after an at sign, or six fields and an optional seventh for the year. Blanks may
stand around numbers, names and fields, and nothing has to stand between fields where the text is clear
without it. A reader takes what it can from the front and gives back the rest; a spec is read when nothing
is left.
-/

namespace BuildScheduling.Cron

open Text

def isSpecBlank (c : Char) : Bool := c == ' ' || c == '\t' || c == '\r' || c == '\n'

def skipSpecBlanks (cs : List Char) : List Char := cs.dropWhile isSpecBlank

/-- A number of 32 bits with blanks around it. -/
def number? (cs : List Char) : Option (Nat × List Char) :=
  match digits? (skipSpecBlanks cs) with
  | none => none
  | some (ds, rest) =>
    let n := digitsValue ds
    if n < UInt32.size then some (n, skipSpecBlanks rest) else none

/-- A word of ASCII letters with blanks around it. -/
def word? (cs : List Char) : Option (String × List Char) :=
  match (skipSpecBlanks cs).span Char.isAlpha with
  | ([], _) => none
  | (letters, rest) => some (String.ofList letters, skipSpecBlanks rest)

def numericBase? (cs : List Char) : Option (Base × List Char) :=
  match number? cs with
  | none => none
  | some (a, '-' :: rest) =>
    match number? rest with
    | some (b, rest) => some (.span a b, rest)
    | none => some (.one a, '-' :: rest)
  | some (a, rest) => some (.one a, rest)

def namedBase? (cs : List Char) : Option (Base × List Char) :=
  match word? cs with
  | some (a, '-' :: rest) => (word? rest).map fun (b, rest) => (.namedSpan a b, rest)
  | _ => none

/-- What may stand before a step. A question mark is read only where the field allows it. -/
def base? (questionMark : Bool) (cs : List Char) : Option (Base × List Char) :=
  match cs with
  | '*' :: rest => some (.every, rest)
  | '?' :: rest => if questionMark then some (.every, rest) else none
  | _ => numericBase? cs <|> namedBase? cs

def element? (questionMark : Bool) (cs : List Char) : Option (Element × List Char) :=
  match base? questionMark cs with
  | some (base, '/' :: rest) =>
    match number? rest with
    | some (step, rest) => some (.stepped base step, rest)
    | none => some (.plain base, '/' :: rest)
  | some (base, rest) => some (.plain base, rest)
  | none => (word? cs).map fun (name, rest) => (.named name, rest)

/-- Elements with commas between them; `fuel` bounds their number. -/
def elements? (questionMark : Bool) : Nat → List Char → Option (List Element × List Char)
  | 0, _ => none
  | fuel + 1, cs =>
    match element? questionMark cs with
    | none => none
    | some (e, ',' :: rest) => (elements? questionMark fuel rest).map fun (es, rest) => (e :: es, rest)
    | some (e, rest) => some ([e], rest)

/-- A field and its values. Question marks are for the two day fields. -/
def field? (rule : FieldRule) (questionMark : Bool) (cs : List Char) : Option (List Nat × List Char) := do
  let cs := skipSpecBlanks cs
  let (elements, rest) ← elements? questionMark cs.length cs
  let values ← rule.values? elements
  return (values, skipSpecBlanks rest)

/-- Six fields, and a seventh if anything is left after them. -/
def longSpec? (cs : List Char) : Option Schedule := do
  let (seconds, cs) ← field? secondRule false cs
  let (minutes, cs) ← field? minuteRule false cs
  let (hours, cs) ← field? hourRule false cs
  let (daysOfMonth, cs) ← field? dayOfMonthRule true cs
  let (months, cs) ← field? monthRule false cs
  let (daysOfWeek, cs) ← field? dayOfWeekRule true cs
  let (years, cs) ← if cs.isEmpty then some (yearRule.all, cs) else field? yearRule false cs
  if cs.isEmpty then some ⟨seconds, minutes, hours, daysOfMonth, months, daysOfWeek, years⟩ else none

/-- The schedules that have a word of their own. All of them fire on the first second of an hour. -/
def shortSpec? (word : String) : Option Schedule :=
  let onTheHour (hours daysOfMonth months daysOfWeek : List Nat) : Schedule :=
    ⟨[0], [0], hours, daysOfMonth, months, daysOfWeek, yearRule.all⟩
  match word with
  | "@yearly" => some (onTheHour [0] [1] [1] dayOfWeekRule.all)
  | "@monthly" => some (onTheHour [0] [1] monthRule.all dayOfWeekRule.all)
  | "@weekly" => some (onTheHour [0] dayOfMonthRule.all monthRule.all [1])
  | "@daily" => some (onTheHour [0] dayOfMonthRule.all monthRule.all dayOfWeekRule.all)
  | "@hourly" => some (onTheHour hourRule.all dayOfMonthRule.all monthRule.all dayOfWeekRule.all)
  | _ => none

/-- The schedule of a spec, white space at its ends aside. -/
def Schedule.ofSpec? (spec : String) : Option Schedule :=
  let cs := trim spec.toList
  shortSpec? (String.ofList cs) <|> longSpec? cs

/-- What is said about a spec that is none. The library that reads specs says in its own words what is wrong with one;
`<cron>` stands in for what it says. -/
def diagnosis (spec : String) : String := "Invalid cron syntax '" ++ spec ++ "': <cron>"

end BuildScheduling.Cron
