import BuildScheduling.Yaml.Glyph

/-!
# Plain scalars

A scalar without quotes ends before a comment, before a colon that ends a word and, inside brackets, before
a comma or a bracket. Outside brackets it goes on over lines that are indented deep enough.
-/

namespace BuildScheduling.Yaml

def isFlowIndicator (c : Char) : Bool :=
  c == ',' || c == '[' || c == ']' || c == '\x7b' || c == '\x7d'

def isIndicator (c : Char) : Bool :=
  isFlowIndicator c || ['-', '?', ':', '#', '&', '*', '!', '|', '>', '\x27', '\x22', '%', '@', '\x60'].contains c

def startsPlain (inFlow : Bool) : List Glyph → Bool
  | [] => false
  | g :: rest =>
    if g.isWhite then false
    else if !isIndicator g.char then true
    else if g.char == '-' then !(rest.head?.any Glyph.isBlank)
    else !inFlow && (g.char == '?' || g.char == ':') && !Glyph.endsWord rest

/-- Whether a plain scalar ends in front of these glyphs, `gap` being what stands between. Text after a break
has to be at the margin or inside it. -/
def endsPlain (inFlow : Bool) (margin : Nat) (gap : Gap) : List Glyph → Bool
  | [] => true
  | g :: rest =>
    (!inFlow && gap.isBroken && g.column < margin) || Glyph.atMarker (g :: rest)
      || (g.char == '#' && !gap.isEmpty) || (g.char == ':' && Glyph.endsWord rest)
      || (inFlow && isFlowIndicator g.char)

/-- A colon before a bracket, a comma or a question mark is refused inside brackets. -/
def isStrayColon (inFlow : Bool) : List Glyph → Bool
  | g :: h :: _ => inFlow && g.char == ':' && (isFlowIndicator h.char || h.char == '?')
  | _ => false

structure PlainScalar where
  text : String
  /-- The scalar is followed by a line break. -/
  endsLine : Bool
  /-- What follows the scalar and the blanks and breaks after it. -/
  rest : List Glyph

/-- The rest of a plain scalar. Blanks and breaks count only in front of more text. A tab does not make up
for missing indentation. -/
def plainRest? (inFlow : Bool) (margin : Nat) : (read : List Char) → Gap → List Glyph → Option PlainScalar
  | read, gap, [] => some ⟨String.ofList read.reverse, gap.isBroken, []⟩
  | read, gap, g :: rest =>
    if g.isBreak then plainRest? inFlow margin read (gap.addBreak g.char) rest
    else if g.isBlank then
      if gap.isBroken && g.char == '\t' && g.column < margin then none
      else plainRest? inFlow margin read (gap.addBlank g.char) rest
    else if endsPlain inFlow margin gap (g :: rest) then
      some ⟨String.ofList read.reverse, gap.isBroken, g :: rest⟩
    else if isStrayColon inFlow (g :: rest) then none
    else plainRest? inFlow margin (g.char :: (gap.text.reverse ++ read)) {} rest

/-- A plain scalar from its first character on, its lines being indented by `margin` at least. -/
def plain? (inFlow : Bool) (margin : Nat) (glyphs : List Glyph) : Option PlainScalar :=
  if startsPlain inFlow glyphs then plainRest? inFlow margin [] {} glyphs else none

end BuildScheduling.Yaml
