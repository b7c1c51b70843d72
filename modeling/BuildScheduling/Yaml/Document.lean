import BuildScheduling.Yaml.Token.Lexer
import BuildScheduling.Yaml.Node.Parser

/-!
# Documents

Reads a text as one document: mappings and sequences, by indentation or in brackets, over quoted and plain
scalars.
-/

namespace BuildScheduling.Yaml

/-- Control characters and the like have no place in a document. -/
def isPrintable (c : Char) : Bool :=
  let n := c.toNat
  n == 0x9 || n == 0xa || n == 0xd || (0x20 ≤ n && n ≤ 0x7e) || n == 0x85 || (0xa0 ≤ n && n ≤ 0xd7ff)
    || (0xe000 ≤ n && n ≤ 0xfffd) || 0x10000 ≤ n

/-- Collections are read down to this depth. -/
def depthLimit : Nat := 128

/-- The node of a text that is one document. -/
def read? (text : String) : Option Node :=
  let cs := text.toList
  if cs.all isPrintable then
    ((Token.ofText? cs).bind Node.ofTokens?).map (Node.limited depthLimit)
  else none

end BuildScheduling.Yaml
