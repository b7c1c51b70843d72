import BuildScheduling.Text.Scan

/-!
# Plain scalars as values

How an unquoted scalar reads as a null, a boolean or a number. Whole numbers may be written in base 16, 8 or
2 as well; digits after a leading zero spell no number.
-/

namespace BuildScheduling.Yaml.Scalar

def isNull (s : String) : Bool := ["", "~", "null", "Null", "NULL"].contains s

def bool? (s : String) : Option Bool :=
  if ["true", "True", "TRUE"].contains s then some true
  else if ["false", "False", "FALSE"].contains s then some false
  else none

/-- Digits after a leading zero spell no number. -/
def hasLeadingZero (cs : List Char) : Bool :=
  1 < cs.length && cs.head? == some '0' && cs.all Char.isDigit

/-- A whole number without a sign, in base 10 or, after a mark, in base 16, 8 or 2. -/
def magnitude? (cs : List Char) : Option Nat :=
  match cs with
  | '0' :: 'x' :: rest => Text.inBase? 16 rest
  | '0' :: 'o' :: rest => Text.inBase? 8 rest
  | '0' :: 'b' :: rest => Text.inBase? 2 rest
  | _ => if hasLeadingZero cs then none else Text.inBase? 10 cs

def unsigned? (s : String) : Option Nat :=
  match s.toList with
  | '+' :: rest => magnitude? rest
  | cs => magnitude? cs

/-- A whole number of at most 128 bits. -/
def integer? (s : String) : Option Int :=
  match s.toList with
  | '-' :: rest => (magnitude? rest).bind fun n => if n ≤ Nat.pow 2 127 then some (-(n : Int)) else none
  | _ => (unsigned? s).bind fun n => if n < Nat.pow 2 128 then some (n : Int) else none

/-- The digits before and after the point and the exponent of a decimal number without a sign. -/
def decimalParts? (cs : List Char) : Option (List Char × List Char × Int) := do
  let (whole, rest) := cs.span Char.isDigit
  let (fraction, rest) := match rest with
    | '.' :: rest => rest.span Char.isDigit
    | _ => ([], rest)
  if whole.isEmpty && fraction.isEmpty then none
  else
    match rest with
    | [] => some (whole, fraction, 0)
    | e :: rest =>
      if e != 'e' && e != 'E' then none
      else
        let (sign, ds) := match rest with
          | '-' :: ds => ((-1 : Int), ds)
          | '+' :: ds => (1, ds)
          | ds => (1, ds)
        if ds.isEmpty || !ds.all Char.isDigit then none
        else some (whole, fraction, sign * Text.digitsValue ds)

/-- Whether a decimal number is small enough for a double, that is, below the point half a unit above the
greatest double. -/
def fitsDouble (whole fraction : List Char) (exponent : Int) : Bool :=
  let digits := Text.digitsValue (whole ++ fraction)
  let scale := exponent - fraction.length
  let size : Int := (Nat.toDigits 10 digits).length + scale
  if digits == 0 || size < 300 then true
  else if 320 < size then false
  else if 0 ≤ scale then digits * Nat.pow 10 scale.toNat < Nat.pow 2 1024 - Nat.pow 2 970
  else digits < (Nat.pow 2 1024 - Nat.pow 2 970) * Nat.pow 10 (-scale).toNat

/-- Whether the scalar spells a number that need not be whole, an infinity or no number. One that is too
large for a double does not count, nor do digits after a leading zero. -/
def isDecimal (s : String) : Bool :=
  let cs := s.toList
  let unsigned := match cs with
    | '+' :: rest => rest
    | '-' :: rest => rest
    | _ => cs
  if [".inf", ".Inf", ".INF"].contains (String.ofList unsigned) then true
  else if [".nan", ".NaN", ".NAN"].contains s then true
  else if hasLeadingZero unsigned then false
  else
    match decimalParts? unsigned with
    | some (whole, fraction, exponent) => fitsDouble whole fraction exponent
    | none => false

end BuildScheduling.Yaml.Scalar
