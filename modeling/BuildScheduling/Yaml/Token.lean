/-!
# Tokens of a document

The marks and scalars of a document in order. Where indentation opens or closes a collection, and where a
key begins, there is a token that stands for no text.
-/

namespace BuildScheduling.Yaml

inductive Token where
  | documentStart
  | documentEnd
  | blockSequenceStart
  | blockMappingStart
  /-- The end of what indentation opened last. -/
  | blockEnd
  | flowSequenceStart
  | flowSequenceEnd
  | flowMappingStart
  | flowMappingEnd
  /-- A dash in front of an item. -/
  | blockEntry
  /-- A comma inside brackets. -/
  | flowEntry
  | key
  | value
  | scalar (quoted : Bool) (s : String)
  deriving DecidableEq, Inhabited

end BuildScheduling.Yaml
