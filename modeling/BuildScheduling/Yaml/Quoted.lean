import BuildScheduling.Yaml.Glyph
import BuildScheduling.Text.Scan

/-!
# Quoted scalars

Between single quotes, a quote is written twice and all else stands for itself. Between double quotes, a
backslash starts an escape. Both may go on over lines.
-/

namespace BuildScheduling.Yaml

def singleQuote : Char := '\x27'
def doubleQuote : Char := '\x22'
def backslash : Char := '\x5c'

def simpleEscape? (c : Char) : Option Char :=
  if c == '0' then some '\x00'
  else if c == 'a' then some '\x07'
  else if c == 'b' then some '\x08'
  else if c == 't' || c == '\t' then some '\t'
  else if c == 'n' then some '\n'
  else if c == 'v' then some '\x0b'
  else if c == 'f' then some '\x0c'
  else if c == 'r' then some '\r'
  else if c == 'e' then some '\x1b'
  else if c == ' ' || c == '/' || c == doubleQuote || c == backslash then some c
  else if c == 'N' then some '\u0085'
  else if c == '_' then some '\u00a0'
  else if c == 'L' then some '\u2028'
  else if c == 'P' then some '\u2029'
  else none

def escapeWidth? (c : Char) : Option Nat :=
  if c == 'x' then some 2 else if c == 'u' then some 4 else if c == 'U' then some 8 else none

/-- The character of so many hexadecimal digits. Surrogates are none. -/
def hexChar? (digits : List Char) : Option Char := do
  let n ← Text.inBase? 16 digits
  if n.isValidChar then some (Char.ofNat n) else none

/-- The characters of an escape, from after its backslash, and what follows it. A line break that is escaped
counts for nothing, nor do the blanks after it; further breaks stay. -/
def escape? : List Glyph → Option (List Char × List Glyph)
  | [] => none
  | g :: rest =>
    if g.isBreak then
      let (gap, rest) := Gap.ofGlyphs {} rest
      some (gap.breaks, rest)
    else
      match escapeWidth? g.char with
      | some width =>
        let digits := rest.take width
        if digits.length == width then
          (hexChar? (digits.map Glyph.char)).map fun c => ([c], rest.drop width)
        else none
      | none => (simpleEscape? g.char).map fun c => ([c], rest)

/-- The rest of a scalar between quotes, from inside it; `fuel` bounds its length. -/
def quotedRest? (quote : Char) : Nat → (read : List Char) → List Glyph → Option (String × List Glyph)
  | 0, _, _ => none
  | _ + 1, _, [] => none
  | fuel + 1, read, g :: rest =>
    if Glyph.atMarker (g :: rest) then none
    else if g.char == quote then
      if quote == singleQuote && (rest.head?.any fun h => h.char == quote) then
        quotedRest? quote fuel (quote :: read) (rest.drop 1)
      else some (String.ofList read.reverse, rest)
    else if g.char == backslash && quote == doubleQuote then
      match escape? rest with
      | some (cs, rest) => quotedRest? quote fuel (cs.reverse ++ read) rest
      | none => none
    else if g.isWhite then
      let (gap, rest) := Gap.ofGlyphs {} (g :: rest)
      quotedRest? quote fuel (gap.text.reverse ++ read) rest
    else quotedRest? quote fuel (g.char :: read) rest

def quoted? (quote : Char) (glyphs : List Glyph) : Option (String × List Glyph) :=
  quotedRest? quote (glyphs.length + 1) [] glyphs

end BuildScheduling.Yaml
