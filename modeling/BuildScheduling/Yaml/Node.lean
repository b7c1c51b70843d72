/-!
# Nodes of a document

What a document holds before anybody asks for particular types: scalars, sequences and mappings. The key of a
mapping is a node of its own. Collections that lie too deep are kept as a mark that is no value: passing one
over is fine, reading it is not.
-/

namespace BuildScheduling.Yaml

inductive Node where
  /-- A scalar as it is spelled, without its quotes. -/
  | scalar (quoted : Bool) (s : String)
  | sequence (items : List Node)
  | mapping (entries : List (Node × Node))
  /-- A collection below the depth down to which documents are read. -/
  | tooDeep
  deriving Inhabited

namespace Node

/-- What stands for a node that is left out. -/
def empty : Node := .scalar false ""

mutual

/-- The node with at most `depth` collections inside one another. -/
def limited (depth : Nat) : Node → Node
  | scalar quoted s => scalar quoted s
  | sequence items => if depth == 0 then tooDeep else sequence (limitedItems (depth - 1) items)
  | mapping entries => if depth == 0 then tooDeep else mapping (limitedEntries (depth - 1) entries)
  | tooDeep => tooDeep

def limitedItems (depth : Nat) : List Node → List Node
  | [] => []
  | item :: items => limited depth item :: limitedItems depth items

def limitedEntries (depth : Nat) : List (Node × Node) → List (Node × Node)
  | [] => []
  | (key, value) :: entries => (limited depth key, limited depth value) :: limitedEntries depth entries

end

end Node

end BuildScheduling.Yaml
