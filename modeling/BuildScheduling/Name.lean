import BuildScheduling.SortedMap.Lemmas

/-!
# Names of pipelines and stages

A name keeps the spelling it was given and is compared without regard to ASCII case. Equality
(`Name.same`), order (`compare`) and hashing (`Name.hashFeed`) are three definitions over the same
case-folded text, so a map keyed by names, an ordered list of names and a plain comparison have to agree.
-/

namespace BuildScheduling

/-- What a name belongs to. Names of different kinds are never compared. -/
inductive NameKind where
  | pipeline
  | stage
  deriving DecidableEq

structure Name (kind : NameKind) where
  text : String
  deriving DecidableEq

abbrev PipelineName := Name .pipeline
abbrev StageName := Name .stage

/-- ASCII capitals become small letters; every other character stays. -/
def foldCase (s : String) : String := s.map Char.toLower

def utf8Bytes (s : String) : List UInt8 := s.toUTF8.data.toList

namespace Name

variable {kind : NameKind}

/-- The text that decides what a name is equal to. -/
def folded (n : Name kind) : String := foldCase n.text

def same (a b : Name kind) : Bool := a.folded == b.folded

def key (n : Name kind) : List UInt8 := utf8Bytes n.folded

/-- Names are ordered by the bytes of their folded text. -/
instance : Ord (Name kind) := ⟨compareOn key⟩

instance : Std.TransOrd (Name kind) := inferInstanceAs (Std.TransCmp (compareOn key))

/-- What a hash of the name is computed from: the folded bytes and an end mark that is no byte of a text. -/
def hashFeed (n : Name kind) : List UInt8 := n.key ++ [0xff]

theorem utf8Bytes_inj {s t : String} (h : utf8Bytes s = utf8Bytes t) : s = t := by
  have hdata : s.toUTF8.data = t.toUTF8.data := Array.toList_inj.mp h
  exact String.toByteArray_inj.mp (ByteArray.ext hdata)

theorem key_eq_iff {a b : Name kind} : a.key = b.key ↔ a.folded = b.folded :=
  ⟨utf8Bytes_inj, fun h => by simp only [key, h]⟩

theorem same_iff {a b : Name kind} : a.same b = true ↔ a.folded = b.folded := by
  simp [same]

/-- Two spellings are one name when their letters are, but for the case. -/
theorem same_iff_toList {a b : Name kind} :
    a.same b = true ↔ a.text.toList.map Char.toLower = b.text.toList.map Char.toLower := by
  rw [same_iff, ← String.toList_inj, folded, folded, foldCase, foldCase, String.toList_map,
    String.toList_map]

theorem compare_eq_iff {a b : Name kind} : compare a b = .eq ↔ a.folded = b.folded := by
  rw [← key_eq_iff]
  change compare a.key b.key = .eq ↔ _
  exact Std.LawfulEqOrd.compare_eq_iff_eq

theorem same_iff_compare {a b : Name kind} : a.same b = true ↔ compare a b = .eq :=
  same_iff.trans compare_eq_iff.symm

@[simp] theorem same_refl (a : Name kind) : a.same a = true := by simp [same]

theorem same_comm (a b : Name kind) : a.same b = b.same a := by
  simp [same, Bool.beq_comm]

theorem same_trans {a b c : Name kind} (h₁ : a.same b = true) (h₂ : b.same c = true) :
    a.same c = true :=
  same_iff.mpr ((same_iff.mp h₁).trans (same_iff.mp h₂))

theorem same_congr {a b : Name kind} (h : a.same b = true) (c : Name kind) : a.same c = b.same c := by
  rw [same, same_iff.mp h, same]

theorem same_congr_right {a b : Name kind} (h : a.same b = true) (c : Name kind) : c.same a = c.same b := by
  rw [same_comm c, same_comm c, same_congr h]

end Name

/-- The names in order; equal ones keep the order they came in. -/
def Name.sort {kind : NameKind} (names : List (Name kind)) : List (Name kind) :=
  names.mergeSort fun a b => (compare a b).isLE

/-- Values kept per pipeline, in name order, under the first spelling that was used. -/
abbrev NameMap (α : Type) := SortedMap PipelineName α

namespace Name

variable {kind : NameKind} {α : Type} (m : SortedMap (Name kind) α)

/-- A map keyed by names does not tell the spellings of a name apart. -/
theorem get?_of_same {a b : Name kind} (h : a.same b = true) : m.get? a = m.get? b :=
  m.get?_congr (same_iff_compare.mp h)

theorem get?_alter (a b : Name kind) (v : Option α → α) :
    (m.alter a v).get? b = if b.same a then some (v (m.get? a)) else m.get? b := by
  simp only [SortedMap.get?_alter, same_iff_compare]

theorem get?_insert (a b : Name kind) (v : α) :
    (m.insert a v).get? b = if b.same a then some v else m.get? b := get?_alter m a b _

theorem get?_erase (a b : Name kind) : (m.erase a).get? b = if a.same b then none else m.get? b := by
  simp only [SortedMap.get?_erase, same_iff_compare]

end Name

end BuildScheduling
