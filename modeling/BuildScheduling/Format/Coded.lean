import BuildScheduling.Format.Value
import BuildScheduling.Instant.Rfc3339

/-!
# Encoding and decoding

A coded type has a function to values and a partial function back. Decoding converts nothing: a number is
no text and a text is no number, and words are exact. Records are read by key: unknown keys are passed over,
a key that is read must not occur twice. A list may stand for a record whose keys are left out.
-/

namespace BuildScheduling

class Coded (α : Type) where
  encode : α → Value
  /-- Nothing for a value that stands for no member of the type. -/
  decode : Value → Option α

export Coded (encode decode)

instance : Coded String where
  encode := .text
  decode v := v.text?

instance : Coded Bool where
  encode := .bool
  decode
    | .bool b => some b
    | .node (.scalar false s) => Yaml.Scalar.bool? s
    | _ => none

def Value.below? (bound : Nat) : Value → Option Nat
  | .int n => if 0 ≤ n ∧ n < bound then some n.toNat else none
  | .node (.scalar false s) => (Yaml.Scalar.unsigned? s).filter (· < bound)
  | _ => none

instance : Coded UInt64 where
  encode n := .int n.toNat
  decode v := (v.below? UInt64.size).map UInt64.ofNat

instance : Coded UInt32 where
  encode n := .int n.toNat
  decode v := (v.below? UInt32.size).map UInt32.ofNat

instance {α : Type} [Coded α] : Coded (Option α) where
  encode
    | some a => encode a
    | none => .null
  decode v := if v.isNull then some none else (decode v).map some

instance {α : Type} [Coded α] : Coded (List α) where
  encode as := .list (as.map encode)
  decode v := v.items?.bind fun items => items.mapM decode

instance : Coded Instant where
  encode t := .text t.text
  decode v := v.text?.bind Instant.parse?

/-! ## Words -/

/-- The name that a key stands for: its text, or the name at its place among those that are known. A place
beyond them stands for no name. -/
def Value.name? (names : List String) : Value → Option (Option String)
  | .int n => if 0 ≤ n then some names[n.toNat]? else none
  | v => v.text?.map some

class Worded (α : Type) where
  all : List α
  word : α → String

namespace Worded

variable {α : Type} [Worded α]

def ofWord? (s : String) : Option α := all.find? fun a => word a == s

/-- The member of a word, or of a place in the list of all. -/
def ofKey? (key : Value) : Option α :=
  (key.name? ((all : List α).map word)).join.bind ofWord?

end Worded

/-- A word may also stand as the only key of a record, over nothing. -/
instance {α : Type} [Worded α] : Coded α where
  encode a := .text (Worded.word a)
  decode
    | .record [(word, .null)] => Worded.ofWord? word
    | .mapping [(key, .null)] => Worded.ofKey? key
    | .mapping [(key, .mapping [])] => Worded.ofKey? key
    | v => v.text?.bind Worded.ofWord?

/-! ## Records -/

def Value.fields? : Value → Option Fields
  | .record fields => some fields
  | v => v.entries?.bind fun entries => entries.mapM fun (key, v) => key.text?.map fun name => (name, v)

/-- The fields of a record with the given names. A list has the fields in the order of the names, and may end
before the last. -/
def Value.fieldsOf? (names : List String) : Value → Option Fields
  | .record fields => some fields
  | .list items => if items.length ≤ names.length then some (names.zip items) else none
  | v => do
    let fields ← (← v.entries?).mapM fun (key, v) => do return (← key.name? names).map fun name => (name, v)
    return fields.filterMap id

def Value.isKey (name : String) : Value → Bool
  | .text s => s == name
  | _ => false

/-- The kind of a record that names it under a tag, and all else that is in the record. In a list the kind
comes first. -/
def Value.tagged? (tag : String) (v : Value) : Option (String × Value) :=
  match v.items? with
  | some [] => none
  | some (kind :: rest) => do return (← kind.text?, .list (← Value.settleItems? rest))
  | none => do
    let entries ← (← v.entries?).mapM fun (key, v) => do return (← key.settle?, v)
    let (kinds, rest) := entries.partition fun e => e.1.isKey tag
    match kinds with
    | [(_, kind)] =>
      return (← kind.text?, .mapping (← rest.mapM fun (key, v) => do return (key, ← v.settle?)))
    | _ => none

namespace Fields

/-- The fields with the type of every value settled. -/
def settle? (fields : Fields) : Option Fields :=
  fields.mapM fun (name, v) => v.settle?.map fun v => (name, v)

/-- The value at a key, or `absent` without one. -/
def find? {α : Type} (fields : Fields) (key : String) (absent : Option α) (read : Value → Option α) :
    Option α :=
  match fields.filter fun f => f.1 == key with
  | [] => absent
  | [(_, v)] => read v
  | _ => none

variable {α : Type} [Coded α]

def required (fields : Fields) (key : String) : Option α := fields.find? key none decode

def withDefault (fields : Fields) (key : String) (fallback : α) : Option α :=
  fields.find? key (some fallback) decode

def optional (fields : Fields) (key : String) : Option (Option α) := fields.withDefault key none

end Fields

end BuildScheduling
