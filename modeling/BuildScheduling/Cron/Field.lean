/-!
# Fields of a cron spec

A field is a list of elements, each of which covers some numbers. What an element covers is a predicate
(`Element.covers`), whether it may stand in a field is another (`Element.fits`), and the field's values are
the numbers of its range that some element covers.
-/

namespace BuildScheduling.Cron

/-- The range of a field and the names that stand for numbers in it. -/
structure FieldRule where
  least : Nat
  greatest : Nat
  /-- The number of a name in small letters. -/
  number? : String → Option Nat := fun _ => none

inductive Base where
  | every
  | one (n : Nat)
  | span (first last : Nat)
  | namedSpan (first last : String)
  deriving DecidableEq

inductive Element where
  | plain (base : Base)
  /-- Every so many of the base, counted from its first. -/
  | stepped (base : Base) (step : Nat)
  | named (name : String)
  deriving DecidableEq

namespace FieldRule

def holds (rule : FieldRule) (n : Nat) : Bool := rule.least ≤ n && n ≤ rule.greatest

def ofName? (rule : FieldRule) (name : String) : Option Nat := rule.number? (name.map Char.toLower)

end FieldRule

namespace Base

/-- The first and the last number. Under a step, a single number starts a run to the end of the range. -/
def bounds? (rule : FieldRule) (stepped : Bool) : Base → Option (Nat × Nat)
  | every => some (rule.least, rule.greatest)
  | one n => some (n, if stepped then rule.greatest else n)
  | span first last => some (first, last)
  | namedSpan first last =>
    match rule.ofName? first, rule.ofName? last with
    | some a, some b => some (a, b)
    | _, _ => none

end Base

namespace Element

def progression? (rule : FieldRule) : Element → Option (Nat × Nat × Nat)
  | plain base => (base.bounds? rule false).map fun (a, b) => (a, b, 1)
  | stepped base step => (base.bounds? rule true).map fun (a, b) => (a, b, step)
  | named name => (rule.ofName? name).map fun n => (n, n, 1)

/-- Both ends are in the range and do not descend, and the step is neither zero nor above the range. -/
def fits (rule : FieldRule) (e : Element) : Bool :=
  match e.progression? rule with
  | none => false
  | some (a, b, step) => rule.holds a && rule.holds b && a ≤ b && 1 ≤ step && step ≤ rule.greatest

def covers (rule : FieldRule) (e : Element) (n : Nat) : Bool :=
  match e.progression? rule with
  | none => false
  | some (a, b, step) => a ≤ n && n ≤ b && (n - a) % step == 0

end Element

/-- The numbers of a field in ascending order, if every element may stand in it. -/
def FieldRule.values? (rule : FieldRule) (elements : List Element) : Option (List Nat) :=
  if elements.all (Element.fits rule) then
    some ((List.range' rule.least (rule.greatest + 1 - rule.least)).filter fun n =>
      elements.any fun e => e.covers rule n)
  else none

/-! ## The seven fields -/

def monthNumber? : String → Option Nat
  | "jan" | "january" => some 1
  | "feb" | "february" => some 2
  | "mar" | "march" => some 3
  | "apr" | "april" => some 4
  | "may" => some 5
  | "jun" | "june" => some 6
  | "jul" | "july" => some 7
  | "aug" | "august" => some 8
  | "sep" | "september" => some 9
  | "oct" | "october" => some 10
  | "nov" | "november" => some 11
  | "dec" | "december" => some 12
  | _ => none

def weekdayNumber? : String → Option Nat
  | "sun" | "sunday" => some 1
  | "mon" | "monday" => some 2
  | "tue" | "tues" | "tuesday" => some 3
  | "wed" | "wednesday" => some 4
  | "thu" | "thurs" | "thursday" => some 5
  | "fri" | "friday" => some 6
  | "sat" | "saturday" => some 7
  | _ => none

def secondRule : FieldRule := { least := 0, greatest := 59 }
def minuteRule : FieldRule := { least := 0, greatest := 59 }
def hourRule : FieldRule := { least := 0, greatest := 23 }
def dayOfMonthRule : FieldRule := { least := 1, greatest := 31 }
def monthRule : FieldRule := { least := 1, greatest := 12, number? := monthNumber? }
def dayOfWeekRule : FieldRule := { least := 1, greatest := 7, number? := weekdayNumber? }
def yearRule : FieldRule := { least := 1970, greatest := 2100 }

def FieldRule.all (rule : FieldRule) : List Nat :=
  List.range' rule.least (rule.greatest + 1 - rule.least)

end BuildScheduling.Cron
