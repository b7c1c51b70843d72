/-!
# Maps in key order

A map keeps its entries strictly ascending by key, so two maps with the same entries are the same value
and reading one out needs no sorting. Keys that compare equal name one entry: writing to it again replaces
the value and keeps the key as it was first given.
-/

namespace BuildScheduling

variable {κ : Type} {α : Type} [Ord κ]

def Ascending (entries : List (κ × α)) : Prop :=
  entries.Pairwise fun a b => compare a.1 b.1 = .lt

/-- A finite map with its entries in key order. -/
structure SortedMap (κ : Type) (α : Type) [Ord κ] where
  entries : List (κ × α)
  ascending : Ascending entries

namespace SortedMap

theorem ext_entries {m n : SortedMap κ α} (h : m.entries = n.entries) : m = n := by
  cases m; cases n; congr

instance [DecidableEq κ] [DecidableEq α] : DecidableEq (SortedMap κ α) := fun m n =>
  decidable_of_iff (m.entries = n.entries) ⟨ext_entries, fun h => h ▸ rfl⟩

def empty : SortedMap κ α := ⟨[], List.Pairwise.nil⟩

instance : EmptyCollection (SortedMap κ α) := ⟨empty⟩
instance : Inhabited (SortedMap κ α) := ⟨empty⟩

def keys (m : SortedMap κ α) : List κ := m.entries.map Prod.fst

def size (m : SortedMap κ α) : Nat := m.entries.length

def isEmpty (m : SortedMap κ α) : Bool := m.entries.isEmpty

/-- The key as it was first given and the value it has now. -/
def entry? (m : SortedMap κ α) (k : κ) : Option (κ × α) :=
  m.entries.find? fun e => (compare k e.1).isEq

def get? (m : SortedMap κ α) (k : κ) : Option α := (m.entry? k).map Prod.snd

def contains (m : SortedMap κ α) (k : κ) : Bool := (m.entry? k).isSome

/-- Writes `v` at `k`, passing it what is there already. -/
def alterEntries (k : κ) (v : Option α → α) : List (κ × α) → List (κ × α)
  | [] => [(k, v none)]
  | e :: rest =>
    match compare k e.1 with
    | .lt => (k, v none) :: e :: rest
    | .eq => (e.1, v (some e.2)) :: rest
    | .gt => e :: alterEntries k v rest

theorem forall_mem_alterEntries {p : κ → Prop} {k : κ} {v : Option α → α} (hk : p k)
    {entries : List (κ × α)} (h : ∀ e ∈ entries, p e.1) : ∀ e ∈ alterEntries k v entries, p e.1 := by
  induction entries with
  | nil => simpa [alterEntries] using hk
  | cons a rest ih =>
    obtain ⟨ha, hrest⟩ := List.forall_mem_cons.mp h
    simp only [alterEntries]
    split
    · exact List.forall_mem_cons.mpr ⟨hk, h⟩
    · exact List.forall_mem_cons.mpr ⟨ha, hrest⟩
    · exact List.forall_mem_cons.mpr ⟨ha, ih hrest⟩

theorem ascending_alterEntries [Std.TransOrd κ] {k : κ} {v : Option α → α}
    {entries : List (κ × α)} (h : Ascending entries) : Ascending (alterEntries k v entries) := by
  induction entries with
  | nil => exact List.Pairwise.cons (by simp) List.Pairwise.nil
  | cons a rest ih =>
    obtain ⟨ha, hrest⟩ := List.pairwise_cons.mp h
    simp only [alterEntries]
    split
    · next hlt =>
      refine List.Pairwise.cons (List.forall_mem_cons.mpr ⟨hlt, fun e he => ?_⟩) h
      exact Std.TransCmp.lt_trans hlt (ha e he)
    · exact List.Pairwise.cons ha hrest
    · next hgt =>
      exact List.Pairwise.cons
        (forall_mem_alterEntries (p := fun key => compare a.1 key = .lt)
          (Std.OrientedCmp.gt_iff_lt.mp hgt) ha) (ih hrest)

/-- Writes at `k` what `v` makes of the value there. -/
def alter [Std.TransOrd κ] (m : SortedMap κ α) (k : κ) (v : Option α → α) : SortedMap κ α :=
  ⟨alterEntries k v m.entries, ascending_alterEntries m.ascending⟩

def insert [Std.TransOrd κ] (m : SortedMap κ α) (k : κ) (v : α) : SortedMap κ α :=
  m.alter k fun _ => v

/-- Sets the value at `k` unless there is one. -/
def insertNew [Std.TransOrd κ] (m : SortedMap κ α) (k : κ) (v : α) : SortedMap κ α :=
  m.alter k fun old => old.getD v

def filterKeys (m : SortedMap κ α) (p : κ → Bool) : SortedMap κ α :=
  ⟨m.entries.filter fun e => p e.1, m.ascending.filter _⟩

def erase (m : SortedMap κ α) (k : κ) : SortedMap κ α :=
  m.filterKeys fun key => !(compare k key).isEq

/-- The entries of a list, a later one replacing an earlier one at the same key. -/
def ofList [Std.TransOrd κ] (entries : List (κ × α)) : SortedMap κ α :=
  entries.foldl (fun m e => m.insert e.1 e.2) ∅

/-- The entries of a list, the first one at each key. -/
def ofFirsts [Std.TransOrd κ] (entries : List (κ × α)) : SortedMap κ α :=
  entries.foldl (fun m e => m.insertNew e.1 e.2) ∅

end SortedMap

/-- A finite set in order, each member as it was first given. -/
abbrev SortedSet (κ : Type) [Ord κ] := SortedMap κ Unit

def SortedSet.ofList [Std.TransOrd κ] (members : List κ) : SortedSet κ :=
  SortedMap.ofFirsts (members.map fun k => (k, ()))

end BuildScheduling
