/-!
# Placed characters

A document is read as a list of glyphs: characters that know where they stand. What a token is depends on
its column, and what may be a key on its line and its distance in bytes.
-/

namespace BuildScheduling.Yaml

/-- Line feed, carriage return, next line, line separator and paragraph separator. -/
def isBreak (c : Char) : Bool :=
  c == '\n' || c == '\r' || c == '\u0085' || c == '\u2028' || c == '\u2029'

/-- What a line break counts as inside a scalar: the two separators stay, all others are line feeds. -/
def breakText (c : Char) : Char := if c == '\u2028' || c == '\u2029' then c else '\n'

structure Glyph where
  char : Char
  /-- Bytes in front of the glyph. -/
  offset : Nat
  line : Nat
  column : Nat

namespace Glyph

def isBlank (g : Glyph) : Bool := g.char == ' ' || g.char == '\t'

def isBreak (g : Glyph) : Bool := Yaml.isBreak g.char

def isWhite (g : Glyph) : Bool := g.isBlank || g.isBreak

/-- Characters placed from a given offset, line and column on. A carriage return and the line feed after it
are one break. -/
def place : (offset line column : Nat) → List Char → List Glyph
  | _, _, _, [] => []
  | offset, line, column, '\r' :: '\n' :: rest =>
    ⟨'\n', offset, line, column⟩ :: place (offset + 2) (line + 1) 0 rest
  | offset, line, column, c :: rest =>
    if Yaml.isBreak c then
      ⟨breakText c, offset, line, column⟩ :: place (offset + c.utf8Size) (line + 1) 0 rest
    else ⟨c, offset, line, column⟩ :: place (offset + c.utf8Size) line (column + 1) rest

/-- A blank, a break or the end comes next. -/
def endsWord : List Glyph → Bool
  | [] => true
  | g :: _ => g.isWhite

/-- Three times a character at the start of a line, and nothing more of a word: a marker between documents. -/
def atMarkerOf (c : Char) : List Glyph → Bool
  | g₁ :: g₂ :: g₃ :: rest =>
    g₁.column == 0 && g₁.char == c && g₂.char == c && g₃.char == c && endsWord rest
  | _ => false

def atMarker (glyphs : List Glyph) : Bool := atMarkerOf '-' glyphs || atMarkerOf '.' glyphs

/-- The glyphs from the next token on, after blanks, comments and line breaks, and whether a key may stand
there. Outside brackets a key may stand on every new line, and where one may stand a tab is no blank. -/
def toToken (inFlow : Bool) : (keyAllowed inComment : Bool) → List Glyph → Bool × List Glyph
  | keyAllowed, _, [] => (keyAllowed, [])
  | keyAllowed, inComment, g :: rest =>
    if g.isBreak then toToken inFlow (keyAllowed || !inFlow) false rest
    else if inComment || g.char == ' ' || (g.char == '\t' && (inFlow || !keyAllowed)) then
      toToken inFlow keyAllowed inComment rest
    else if g.char == '#' then toToken inFlow keyAllowed true rest
    else (keyAllowed, g :: rest)

end Glyph

/-- The blanks and breaks between two parts of a scalar. -/
structure Gap where
  /-- Blanks in front of the first break. -/
  blanks : List Char := []
  breaks : List Char := []

namespace Gap

def isEmpty (gap : Gap) : Bool := gap.blanks.isEmpty && gap.breaks.isEmpty

def isBroken (gap : Gap) : Bool := !gap.breaks.isEmpty

/-- Blanks after a break count for nothing. -/
def addBlank (gap : Gap) (c : Char) : Gap :=
  if gap.isBroken then gap else { gap with blanks := gap.blanks ++ [c] }

def addBreak (gap : Gap) (c : Char) : Gap := { gap with breaks := gap.breaks ++ [c] }

/-- What a gap stands for: blanks are kept, one line feed is a blank, and the first of more is dropped. A
separator in front stays. -/
def text (gap : Gap) : List Char :=
  match gap.breaks with
  | [] => gap.blanks
  | ['\n'] => [' ']
  | '\n' :: more => more
  | breaks => breaks

/-- The gap in front and what follows it. -/
def ofGlyphs : Gap → List Glyph → Gap × List Glyph
  | gap, [] => (gap, [])
  | gap, g :: rest =>
    if g.isBreak then ofGlyphs (gap.addBreak g.char) rest
    else if g.isBlank then ofGlyphs (gap.addBlank g.char) rest
    else (gap, g :: rest)

end Gap

end BuildScheduling.Yaml
