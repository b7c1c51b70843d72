import BuildScheduling.Yaml.Node
import BuildScheduling.Yaml.Token

/-!
# The node of a document

Tokens as one node. A node that is left out is an empty scalar. A collection by indentation ends with its own
token; a sequence that is the value of a key may stand in the column of the key, and then ends where no dash
follows. Inside brackets everything is in brackets.
-/

namespace BuildScheduling.Yaml.Node

/-- In front of these an item by indentation is left out. -/
def endsItem (t : Token) : Bool := t == .blockEntry || t == .blockEnd

/-- In front of these a key or a value by indentation is left out. -/
def endsEntry (t : Token) : Bool := t == .key || t == .value || t == .blockEnd

/-- In front of these a value in brackets is left out. -/
def endsFlowEntry (t : Token) : Bool :=
  t == .flowEntry || t == .flowSequenceEnd || t == .flowMappingEnd

mutual

/-- A node and the tokens after it. `block` lets a collection by indentation start, `dashes` lets a sequence
start with its first dash. `fuel` bounds the steps. -/
def ofTokensFront? : (fuel : Nat) → (block dashes : Bool) → List Token → Option (Node × List Token)
  | 0, _, _, _ => none
  | fuel + 1, block, dashes, tokens =>
    match tokens with
    | .scalar quoted s :: rest => some (.scalar quoted s, rest)
    | .flowSequenceStart :: rest => flowItems? fuel [] rest
    | .flowMappingStart :: rest => flowEntries? fuel [] rest
    | .blockSequenceStart :: rest => if block then blockItems? fuel [] rest else none
    | .blockMappingStart :: rest => if block then blockEntries? fuel [] rest else none
    | .blockEntry :: _ => if dashes then dashedItems? fuel [] tokens else none
    | _ => none

/-- A node, or an empty one in front of a token that ends it. -/
def orEmpty? : (fuel : Nat) → (block dashes : Bool) → (ends : Token → Bool) → List Token →
    Option (Node × List Token)
  | 0, _, _, _, _ => none
  | _ + 1, _, _, _, [] => none
  | fuel + 1, block, dashes, ends, t :: rest =>
    if ends t then some (.empty, t :: rest) else ofTokensFront? fuel block dashes (t :: rest)

def blockItems? : (fuel : Nat) → (read : List Node) → List Token → Option (Node × List Token)
  | 0, _, _ => none
  | fuel + 1, read, tokens =>
    match tokens with
    | .blockEntry :: rest => do
      let (item, rest) ← orEmpty? fuel true false endsItem rest
      blockItems? fuel (item :: read) rest
    | .blockEnd :: rest => some (.sequence read.reverse, rest)
    | _ => none

/-- The items of a sequence that stands in the column of its key. -/
def dashedItems? : (fuel : Nat) → (read : List Node) → List Token → Option (Node × List Token)
  | 0, _, _ => none
  | fuel + 1, read, tokens =>
    match tokens with
    | .blockEntry :: rest => do
      let (item, rest) ← orEmpty? fuel true false (fun t => endsItem t || endsEntry t) rest
      dashedItems? fuel (item :: read) rest
    | _ => some (.sequence read.reverse, tokens)

def blockEntries? : (fuel : Nat) → (read : List (Node × Node)) → List Token → Option (Node × List Token)
  | 0, _, _ => none
  | fuel + 1, read, tokens =>
    match tokens with
    | .key :: rest => do
      let (key, rest) ← orEmpty? fuel true true endsEntry rest
      let (value, rest) ← match rest with
        | .value :: rest => orEmpty? fuel true true endsEntry rest
        | _ => some (.empty, rest)
      blockEntries? fuel ((key, value) :: read) rest
    | .blockEnd :: rest => some (.mapping read.reverse, rest)
    | _ => none

/-- The value after a key in brackets: without a colon it is left out. -/
def flowValue? : (fuel : Nat) → List Token → Option (Node × List Token)
  | 0, _ => none
  | fuel + 1, tokens =>
    match tokens with
    | .value :: rest => orEmpty? fuel false false endsFlowEntry rest
    | _ => some (.empty, tokens)

/-- One item of a sequence. An item with a key is a mapping of one entry; a question mark without a key takes
the token after it with it. -/
def flowItem? : (fuel : Nat) → List Token → Option (Node × List Token)
  | 0, _ => none
  | fuel + 1, tokens =>
    match tokens with
    | .key :: rest => do
      let (key, rest) ← match rest with
        | [] => none
        | t :: more =>
          if t == .value || t == .flowEntry || t == .flowSequenceEnd then some (.empty, more)
          else ofTokensFront? fuel false false rest
      let (value, rest) ← flowValue? fuel rest
      some (.mapping [(key, value)], rest)
    | _ => ofTokensFront? fuel false false tokens

def flowItems? : (fuel : Nat) → (read : List Node) → List Token → Option (Node × List Token)
  | 0, _, _ => none
  | fuel + 1, read, tokens =>
    match tokens with
    | .flowSequenceEnd :: rest => some (.sequence read.reverse, rest)
    | _ => do
      let (item, rest) ← flowItem? fuel tokens
      match rest with
      | .flowEntry :: rest => flowItems? fuel (item :: read) rest
      | .flowSequenceEnd :: rest => some (.sequence (item :: read).reverse, rest)
      | _ => none

/-- One entry of a mapping. A node that is no key has an empty value. -/
def flowEntry? : (fuel : Nat) → List Token → Option ((Node × Node) × List Token)
  | 0, _ => none
  | fuel + 1, tokens =>
    match tokens with
    | .key :: rest => do
      let (key, rest) ← orEmpty? fuel false false (fun t => t == .value || endsFlowEntry t) rest
      let (value, rest) ← flowValue? fuel rest
      some ((key, value), rest)
    | _ => do
      let (key, rest) ← ofTokensFront? fuel false false tokens
      some ((key, .empty), rest)

def flowEntries? : (fuel : Nat) → (read : List (Node × Node)) → List Token → Option (Node × List Token)
  | 0, _, _ => none
  | fuel + 1, read, tokens =>
    match tokens with
    | .flowMappingEnd :: rest => some (.mapping read.reverse, rest)
    | _ => do
      let (entry, rest) ← flowEntry? fuel tokens
      match rest with
      | .flowEntry :: rest => flowEntries? fuel (entry :: read) rest
      | .flowMappingEnd :: rest => some (.mapping (entry :: read).reverse, rest)
      | _ => none

end

/-- The node of a document that is the only one. Nothing at all is an empty node. -/
def ofTokens? (tokens : List Token) : Option Node := do
  let fuel := 4 * tokens.length + 4
  let (node, rest) ← match tokens with
    | [] => some (.empty, [])
    | [.documentStart] => some (.empty, [])
    | .documentStart :: rest =>
      orEmpty? fuel true false (fun t => t == .documentStart || t == .documentEnd) rest
    | _ => ofTokensFront? fuel true false tokens
  if rest.all (· == .documentEnd) then some node else none

end BuildScheduling.Yaml.Node
