import BuildScheduling.Yaml.Token
import BuildScheduling.Yaml.Quoted
import BuildScheduling.Yaml.Plain

/-!
# The tokens of a text

Indentation opens a collection when its first mark or key stands at the margin or inside it, and closes it
when text stands further out. That something is a key is known only at its colon: until then the lexer keeps
in mind what may be one, and puts the tokens in front of it afterwards. A key stands on one line and is not
longer than 1024 bytes.

Anchors, aliases, tags, directives and scalars by indentation are refused.
-/

namespace BuildScheduling.Yaml

/-- Something that may turn out to be a key. -/
structure KeyCandidate where
  /-- It stands where only a key can stand. -/
  required : Bool
  /-- The number of tokens in front of it. -/
  position : Nat
  start : Glyph

/-- Too late for a colon: the candidate began on another line or too far away. -/
def KeyCandidate.isStale (k : KeyCandidate) (here : Glyph) : Bool :=
  k.start.line < here.line || k.start.offset + 1024 < here.offset

structure Lexer where
  tokens : Array Token := #[]
  /-- For each collection that indentation opened, the innermost first, the column inside it. -/
  margins : List Nat := []
  candidate : Option KeyCandidate := none
  /-- The candidates outside the brackets that are open, one for each pair, the innermost first. -/
  outer : List (Option KeyCandidate) := []
  keyAllowed : Bool := true

namespace Lexer

def inFlow (s : Lexer) : Bool := !s.outer.isEmpty

def margin (s : Lexer) : Nat := s.margins.headD 0

def emit (s : Lexer) (t : Token) : Lexer := { s with tokens := s.tokens.push t }

/-! ## Key candidates -/

/-- No key after all, unless only a key can stand there. -/
def dropCandidate? (s : Lexer) : Option Lexer :=
  if s.candidate.any KeyCandidate.required then none else some { s with candidate := none }

/-- Without the candidates that it is too late for. -/
def dropStale? (s : Lexer) (here : Glyph) : Option Lexer :=
  let fresh (k : KeyCandidate) : Bool := !k.isStale here
  if (s.candidate :: s.outer).any fun k => k.any fun k => k.required && !fresh k then none
  else some { s with candidate := s.candidate.filter fresh, outer := s.outer.map (Option.filter fresh) }

def considerKey? (s : Lexer) (here : Glyph) : Option Lexer :=
  if s.keyAllowed then
    s.dropCandidate?.map fun s =>
      { s with candidate := some ⟨!s.inFlow && s.margin == here.column + 1, s.tokens.size, here⟩ }
  else some s

/-! ## Indentation -/

/-- A collection starts in this column, unless it is open already; `position` is where its token belongs. -/
def openAt (s : Lexer) (position column : Nat) (t : Token) : Lexer :=
  if !s.inFlow && s.margin ≤ column then
    { s with margins := (column + 1) :: s.margins, tokens := s.tokens.insertIdxIfInBounds position t }
  else s

/-- Closes the collections whose margin is inside the given one. Indentation means nothing in brackets. -/
def closeTo (s : Lexer) (margin : Nat) : Lexer :=
  if s.inFlow then s
  else
    let ends := (s.margins.takeWhile (margin < ·)).map fun _ => Token.blockEnd
    { s with margins := s.margins.dropWhile (margin < ·), tokens := s.tokens ++ ends }

/-! ## Single tokens -/

def marker? (s : Lexer) (t : Token) : Option Lexer :=
  (s.closeTo 0).dropCandidate?.map fun s => { s with keyAllowed := false }.emit t

def openBracket? (s : Lexer) (here : Glyph) (t : Token) : Option Lexer :=
  (s.considerKey? here).map fun s =>
    { s with outer := s.candidate :: s.outer, candidate := none, keyAllowed := true }.emit t

def closeBracket? (s : Lexer) (t : Token) : Option Lexer :=
  s.dropCandidate?.map fun s =>
    { s with candidate := s.outer.head?.join, outer := s.outer.drop 1, keyAllowed := false }.emit t

def comma? (s : Lexer) : Option Lexer :=
  s.dropCandidate?.map fun s => { s with keyAllowed := true }.emit .flowEntry

/-- Inside brackets a dash is no start of a sequence, which is for the reader of the tokens to refuse. -/
def dash? (s : Lexer) (here : Glyph) : Option Lexer :=
  if !s.inFlow && !s.keyAllowed then none
  else
    (s.openAt s.tokens.size here.column .blockSequenceStart).dropCandidate?.map fun s =>
      { s with keyAllowed := true }.emit .blockEntry

/-- A question mark before a key of any kind. -/
def questionMark? (s : Lexer) (here : Glyph) : Option Lexer :=
  if !s.inFlow && !s.keyAllowed then none
  else
    (s.openAt s.tokens.size here.column .blockMappingStart).dropCandidate?.map fun s =>
      { s with keyAllowed := !s.inFlow }.emit .key

/-- A colon makes the candidate a key. -/
def colon? (s : Lexer) (here : Glyph) : Option Lexer :=
  match s.candidate with
  | some k =>
    let s := { s with tokens := s.tokens.insertIdxIfInBounds k.position .key, candidate := none }
    some ({ s.openAt k.position k.start.column .blockMappingStart with keyAllowed := false }.emit .value)
  | none =>
    if s.inFlow then some ({ s with keyAllowed := false }.emit .value)
    else if s.keyAllowed then
      some ((s.openAt s.tokens.size here.column .blockMappingStart).emit .value)
    else none

def quotedScalar? (s : Lexer) (here : Glyph) (rest : List Glyph) : Option (Lexer × List Glyph) := do
  let s ← s.considerKey? here
  let (text, rest) ← quoted? here.char rest
  return ({ s with keyAllowed := false }.emit (.scalar true text), rest)

/-- A key may follow a plain scalar that is followed by a break. -/
def plainScalar? (s : Lexer) (here : Glyph) (rest : List Glyph) : Option (Lexer × List Glyph) := do
  let s ← s.considerKey? here
  let p ← plain? s.inFlow s.margin (here :: rest)
  return ({ s with keyAllowed := p.endsLine }.emit (.scalar false p.text), p.rest)

def token? (s : Lexer) (here : Glyph) (rest : List Glyph) : Option (Lexer × List Glyph) :=
  let c := here.char
  let before (s? : Option Lexer) : Option (Lexer × List Glyph) := s?.map fun s => (s, rest)
  if Glyph.atMarkerOf '-' (here :: rest) then (s.marker? .documentStart).map fun s => (s, rest.drop 2)
  else if Glyph.atMarkerOf '.' (here :: rest) then (s.marker? .documentEnd).map fun s => (s, rest.drop 2)
  else if c == '[' then before (s.openBracket? here .flowSequenceStart)
  else if c == '\x7b' then before (s.openBracket? here .flowMappingStart)
  else if c == ']' then before (s.closeBracket? .flowSequenceEnd)
  else if c == '\x7d' then before (s.closeBracket? .flowMappingEnd)
  else if c == ',' then before s.comma?
  else if c == '-' && Glyph.endsWord rest then before (s.dash? here)
  else if c == '?' && (s.inFlow || Glyph.endsWord rest) then before (s.questionMark? here)
  else if c == ':' && (s.inFlow || Glyph.endsWord rest) then before (s.colon? here)
  else if c == singleQuote || c == doubleQuote then s.quotedScalar? here rest
  else s.plainScalar? here rest

/-- All tokens up to the end of the text; `fuel` bounds their number. -/
def run? : Nat → Lexer → List Glyph → Option Lexer
  | 0, _, _ => none
  | fuel + 1, s, glyphs =>
    let (keyAllowed, glyphs) := Glyph.toToken s.inFlow s.keyAllowed false glyphs
    let s := { s with keyAllowed }
    match glyphs with
    | [] => (s.closeTo 0).dropCandidate?
    | here :: rest =>
      match s.dropStale? here with
      | none => none
      | some s =>
        match (s.closeTo (here.column + 1)).token? here rest with
        | none => none
        | some (s, rest) => run? fuel s rest

end Lexer

/-- The glyphs after a byte order mark, which takes a column of its own. -/
def withoutMark : List Glyph → List Glyph
  | g :: rest => if g.char == '\ufeff' then rest else g :: rest
  | [] => []

/-- Every token takes a character, so there are not more tokens than characters to look for. -/
def Token.ofText? (text : List Char) : Option (List Token) :=
  let glyphs := withoutMark (Glyph.place 0 0 0 text)
  (Lexer.run? (glyphs.length + 1) {} glyphs).map fun s => s.tokens.toList

end BuildScheduling.Yaml
