import BuildScheduling.Format.Value

/-!
# Values as JSON

The text of a value and the value of a text. A number with a point or an exponent, one that does not fit 64
bits and a zero with a minus sign are no whole numbers. Of equal keys the last counts.
-/

namespace BuildScheduling.Json

def quote : Char := '\x22'
def backslash : Char := '\x5c'

/-! ## Writing -/

/-- Control characters and the two separators of lines, which are kept out of what is written. -/
def isControl (c : Char) : Bool :=
  let n := c.toNat
  n < 0x20 || (0x7f ≤ n && n < 0xa0) || n == 0x2028 || n == 0x2029

def escaped (c : Char) : List Char :=
  if c == quote || c == backslash then [backslash, c]
  else if isControl c then
    let digit (place : Nat) : Char := Nat.digitChar (c.toNat / place % 16)
    [backslash, 'u', digit 4096, digit 256, digit 16, digit 1]
  else [c]

def quoted (s : String) : List Char := quote :: (s.toList.flatMap escaped ++ [quote])

mutual

/-- The text of a value. A part of a document has none of its own and is written as a null. -/
def text : Value → List Char
  | .null => "null".toList
  | .bool b => (if b then "true" else "false").toList
  | .int n => (toString n).toList
  | .decimal digits => digits.toList
  | .text s => quoted s
  | .list items => '[' :: itemsText false items
  | .record fields => '\x7b' :: fieldsText false fields
  | .mapping _ => "null".toList
  | .node _ => "null".toList

/-- Items up to the closing bracket, with a comma in front of each but the first. -/
def itemsText (comma : Bool) : List Value → List Char
  | [] => [']']
  | v :: vs => (if comma then [','] else []) ++ text v ++ itemsText true vs

/-- Fields up to the closing bracket, with a comma in front of each but the first. -/
def fieldsText (comma : Bool) : List (String × Value) → List Char
  | [] => ['\x7d']
  | (k, v) :: rest => (if comma then [','] else []) ++ quoted k ++ ':' :: text v ++ fieldsText true rest

end

/-! ## Reading -/

def skipSpace (cs : List Char) : List Char :=
  cs.dropWhile fun c => c == ' ' || c == '\t' || c == '\n' || c == '\r'

def unit? (cs : List Char) : Option (Nat × List Char) :=
  if (cs.take 4).length == 4 then (Text.inBase? 16 (cs.take 4)).map fun n => (n, cs.drop 4) else none

/-- The character of a unit, or of a pair of surrogates. -/
def unitChar? (cs : List Char) : Option (Char × List Char) := do
  let (n, rest) ← unit? cs
  if 0xd800 ≤ n && n < 0xdc00 then
    match rest with
    | b :: 'u' :: rest =>
      let (low, rest) ← unit? rest
      if b == backslash && 0xdc00 ≤ low && low < 0xe000 then
        return (Char.ofNat (0x10000 + (n - 0xd800) * 0x400 + (low - 0xdc00)), rest)
      else none
    | _ => none
  else if n.isValidChar then return (Char.ofNat n, rest)
  else none

/-- The character of an escape, from after its backslash. -/
def escape? : List Char → Option (Char × List Char)
  | [] => none
  | c :: rest =>
    if c == quote || c == backslash || c == '/' then some (c, rest)
    else if c == 'b' then some ('\x08', rest)
    else if c == 'f' then some ('\x0c', rest)
    else if c == 'n' then some ('\n', rest)
    else if c == 'r' then some ('\r', rest)
    else if c == 't' then some ('\t', rest)
    else if c == 'u' then unitChar? rest
    else none

/-- The rest of a text, from inside its quotes; `fuel` bounds its length. -/
def textRest? : (fuel : Nat) → (read : List Char) → List Char → Option (String × List Char)
  | 0, _, _ => none
  | _ + 1, _, [] => none
  | fuel + 1, read, c :: rest =>
    if c == quote then some (String.ofList read.reverse, rest)
    else if c == backslash then
      match escape? rest with
      | some (c, rest) => textRest? fuel (c :: read) rest
      | none => none
    else if c.toNat < 0x20 then none
    else textRest? fuel (c :: read) rest

/-- Digits, at least one, behind a text in front of them. -/
def digitsAfter? (front cs : List Char) : Option (List Char × List Char) :=
  (Text.digits? cs).map fun (ds, rest) => (front ++ ds, rest)

def fraction? : List Char → Option (List Char × List Char)
  | '.' :: rest => digitsAfter? ['.'] rest
  | cs => some ([], cs)

def exponent? : List Char → Option (List Char × List Char)
  | [] => some ([], [])
  | e :: rest =>
    if e == 'e' || e == 'E' then
      match rest with
      | '+' :: rest => digitsAfter? ['e', '+'] rest
      | '-' :: rest => digitsAfter? ['e', '-'] rest
      | rest => digitsAfter? ['e'] rest
    else some ([], e :: rest)

def number? (cs : List Char) : Option (Value × List Char) := do
  let (sign, cs) := match cs with
    | '-' :: rest => (['-'], rest)
    | _ => ([], cs)
  let (whole, cs) ← Text.digits? cs
  if whole.head? == some '0' && whole.length != 1 then none
  else
    let (fraction, cs) ← fraction? cs
    let (exponent, cs) ← exponent? cs
    let n : Int := Text.digitsValue whole
    let isWhole := fraction.isEmpty && exponent.isEmpty
    if isWhole && sign.isEmpty && Value.isWord n then return (.int n, cs)
    else if isWhole && !sign.isEmpty && n != 0 && Value.isWord (-n) then return (.int (-n), cs)
    else return (.decimal (String.ofList (sign ++ whole ++ fraction ++ exponent)), cs)

def word? (cs : List Char) : Option (Value × List Char) :=
  let (letters, rest) := cs.span Char.isAlpha
  match String.ofList letters with
  | "null" => some (.null, rest)
  | "true" => some (.bool true, rest)
  | "false" => some (.bool false, rest)
  | _ => none

mutual

/-- A value and what follows it and the space after it. No text in it is as long as `limit`. -/
def value? (limit : Nat) : (fuel : Nat) → List Char → Option (Value × List Char)
  | 0, _ => none
  | fuel + 1, cs =>
    let after (read : Option (Value × List Char)) : Option (Value × List Char) :=
      read.map fun (v, rest) => (v, skipSpace rest)
    match skipSpace cs with
    | [] => none
    | c :: rest =>
      if c == '[' then
        match skipSpace rest with
        | ']' :: rest => after (some (.list [], rest))
        | rest => after (items? limit fuel [] rest)
      else if c == '\x7b' then
        match skipSpace rest with
        | '\x7d' :: rest => after (some (.record [], rest))
        | rest => after (fields? limit fuel [] rest)
      else if c == quote then after ((textRest? limit [] rest).map fun (s, rest) => (.text s, rest))
      else if c.isAlpha then after (word? (c :: rest))
      else after (number? (c :: rest))

/-- One item or more, up to the closing bracket. -/
def items? (limit : Nat) : (fuel : Nat) → (read : List Value) → List Char → Option (Value × List Char)
  | 0, _, _ => none
  | fuel + 1, read, cs =>
    match value? limit fuel cs with
    | some (v, ',' :: rest) => items? limit fuel (v :: read) rest
    | some (v, ']' :: rest) => some (.list (v :: read).reverse, rest)
    | _ => none

/-- One field or more, up to the closing bracket. -/
def fields? (limit : Nat) : (fuel : Nat) → (read : Fields) → List Char → Option (Value × List Char)
  | 0, _, _ => none
  | fuel + 1, read, cs =>
    match skipSpace cs with
    | [] => none
    | c :: rest =>
      match if c == quote then textRest? limit [] rest else none with
      | none => none
      | some (key, rest) =>
        match skipSpace rest with
        | ':' :: rest =>
          let read := read.filter fun f => f.1 != key
          match value? limit fuel rest with
          | some (v, ',' :: rest) => fields? limit fuel ((key, v) :: read) rest
          | some (v, '\x7d' :: rest) => some (.record ((key, v) :: read).reverse, rest)
          | _ => none
        | _ => none

end

def parse? (s : String) : Option Value :=
  let cs := s.toList
  match value? (cs.length + 1) (cs.length + 1) cs with
  | some (v, []) => some v
  | _ => none

end BuildScheduling.Json
