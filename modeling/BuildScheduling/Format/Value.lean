import BuildScheduling.Yaml.Node
import BuildScheduling.Yaml.Scalar

/-!
# Values of the interchange format

What a configuration, a cause or a report looks like outside: nulls, booleans, numbers, texts, lists and
records. A value may also be a node of a document, whose type is up to its reader: an unquoted `1` is the
number one to a reader that wants a number and the text `1` to one that wants a text.

Where no particular type is asked for, `Value.settle?` decides: a plain scalar is the first of null, boolean,
integer and decimal number that it spells, and text if it spells none; a quoted scalar is always text.
-/

namespace BuildScheduling

inductive Value where
  | null
  | bool (b : Bool)
  /-- A whole number of 64 bits, with a sign or without. -/
  | int (n : Int)
  /-- Any other number, as it is written. -/
  | decimal (digits : String)
  | text (s : String)
  | list (items : List Value)
  /-- Keys may repeat in what was read; no reader takes a key that does. -/
  | record (fields : List (String × Value))
  /-- What a record or a mapping of a document is once the types of its keys are settled. -/
  | mapping (entries : List (Value × Value))
  /-- A part of a document of which nobody has asked a particular type yet. -/
  | node (n : Yaml.Node)
  deriving Inhabited

abbrev Fields := List (String × Value)

namespace Value

/-- The bounds of whole numbers: negative ones of 64 bits with a sign, others of 64 bits without. -/
def isWord (n : Int) : Bool := -(Int64.size / 2 : Nat) ≤ n && n < UInt64.size

/-- The value of a plain scalar. Whole numbers of up to 128 bits that do not fit 64 have none. A zero with a
minus sign is no whole number. -/
def ofPlain? (s : String) : Option Value :=
  if Yaml.Scalar.isNull s then some null
  else match Yaml.Scalar.bool? s with
    | some b => some (bool b)
    | none =>
      match Yaml.Scalar.integer? s with
      | some n =>
        if n == 0 && s.toList.head? == some '-' then some (decimal s)
        else if isWord n then some (int n)
        else none
      | none => some (if Yaml.Scalar.isDecimal s then decimal s else text s)

mutual

/-- The value of a node that nobody asks a particular type of. -/
def ofNode? : Yaml.Node → Option Value
  | .scalar true s => some (text s)
  | .scalar false s => ofPlain? s
  | .sequence items => (ofNodes? items).map list
  | .mapping entries => (ofEntries? entries).map mapping
  | .tooDeep => none

def ofNodes? : List Yaml.Node → Option (List Value)
  | [] => some []
  | n :: ns => do return (← ofNode? n) :: (← ofNodes? ns)

def ofEntries? : List (Yaml.Node × Yaml.Node) → Option (List (Value × Value))
  | [] => some []
  | (k, v) :: rest => do return (← ofNode? k, ← ofNode? v) :: (← ofEntries? rest)

end

mutual

def settle? : Value → Option Value
  | list items => (settleItems? items).map list
  | record fields => (settleFields? fields).map mapping
  | node n => ofNode? n
  | null => some null
  | bool b => some (bool b)
  | int n => some (int n)
  | decimal digits => some (decimal digits)
  | text s => some (text s)
  | mapping entries => some (mapping entries)

def settleItems? : List Value → Option (List Value)
  | [] => some []
  | v :: vs => do return (← settle? v) :: (← settleItems? vs)

def settleFields? : List (String × Value) → Option (List (Value × Value))
  | [] => some []
  | (k, v) :: rest => do return (text k, ← settle? v) :: (← settleFields? rest)

end

def isNull : Value → Bool
  | null => true
  | node (.scalar false s) => Yaml.Scalar.isNull s
  | _ => false

/-- The text that a value stands for where a text is wanted. -/
def text? : Value → Option String
  | text s => some s
  | node (.scalar _ s) => some s
  | _ => none

/-- The items of a list. A value that is left out is an empty list. -/
def items? : Value → Option (List Value)
  | list items => some items
  | node (.sequence items) => some (items.map node)
  | node (.scalar false "") => some []
  | _ => none

/-- The keys of a record or of a mapping, and their values. A value that is left out is a record without any. -/
def entries? : Value → Option (List (Value × Value))
  | record fields => some (fields.map fun (k, v) => (text k, v))
  | mapping entries => some entries
  | node (.mapping entries) => some (entries.map fun (k, v) => (node k, node v))
  | node (.scalar false "") => some []
  | _ => none

end Value

end BuildScheduling
