/-!
# Searching for a cycle

A depth-first walk along numbered edges that starts at a root and stops at the first path that comes back
to it. The walk is a machine: a stack of frames, each with the edges it has still to look at, and a mark on
every node that was ever entered. A node is entered at most once, so the walk ends: each step enters a new
node, or leaves fewer edges and frames (`Walk.run`).
-/

namespace BuildScheduling.CycleSearch

/-- The edges of every node, each with the number it goes by. -/
abbrev Edges (n : Nat) := Vector (List (Nat × Fin n)) n

/-- How far the walk is with a node it has entered. -/
inductive Mark where
  /-- On the stack. -/
  | visiting
  /-- Left again: all its edges were looked at. -/
  | visited
  deriving DecidableEq

structure Frame (n : Nat) where
  node : Fin n
  /-- The number of the edge that led here from the frame below. -/
  via : Option Nat
  /-- The edges that were not looked at yet. -/
  rest : List (Nat × Fin n)

/-- The stack, innermost frame first, and the marks. -/
structure Walk (n : Nat) where
  frames : List (Frame n)
  marks : Vector (Option Mark) n

/-- A path back to the root: the number of the edge that closes it and the frames it leads through. -/
structure Closing (n : Nat) where
  edge : Nat
  frames : List (Frame n)

namespace Walk

variable {n : Nat}

def start (edges : Edges n) (root : Fin n) : Walk n where
  frames := [⟨root, none, edges[root]⟩]
  marks := (Vector.replicate n none).set root (some .visiting)

def unentered (w : Walk n) : Nat := w.marks.countP Option.isNone

/-- Frames on the stack and edges that they have still to look at. -/
def work (w : Walk n) : Nat := w.frames.length + (w.frames.flatMap Frame.rest).length

theorem unentered_set_le (marks : Vector (Option Mark) n) (v : Fin n) (m : Mark) :
    (marks.set v (some m)).countP Option.isNone ≤ marks.countP Option.isNone := by
  rw [Vector.countP_set]
  simp

theorem unentered_set_lt {marks : Vector (Option Mark) n} {v : Fin n} (m : Mark)
    (h : marks[v] = none) :
    (marks.set v (some m)).countP Option.isNone < marks.countP Option.isNone := by
  have hpos : 0 < marks.countP Option.isNone :=
    Vector.countP_pos_iff.mpr ⟨none, h ▸ Vector.getElem_mem v.isLt, rfl⟩
  have hv : marks[v.val] = none := h
  rw [Vector.countP_set]
  simp only [hv, Option.isNone_none, Option.isNone_some, if_true, Bool.false_eq_true, if_false]
  omega

inductive Step (n : Nat) where
  | walking (next : Walk n)
  | closed (closing : Closing n)
  | exhausted

/-- Looks at the next edge of the innermost frame, or leaves a frame that has none. An edge to a node that
was entered before is passed over, unless it closes on the root: a cycle that does not go through the root
belongs to its own nodes. -/
def step (edges : Edges n) (root : Fin n) (w : Walk n) : Step n :=
  match w.frames with
  | [] => .exhausted
  | ⟨node, _, []⟩ :: below => .walking ⟨below, w.marks.set node (some .visited)⟩
  | ⟨node, via, (edge, next) :: rest⟩ :: below =>
    match w.marks[next] with
    | none =>
      .walking ⟨⟨next, some edge, edges[next]⟩ :: ⟨node, via, rest⟩ :: below,
        w.marks.set next (some .visiting)⟩
    | some .visiting =>
      if next = root then .closed ⟨edge, ⟨node, via, rest⟩ :: below⟩
      else .walking ⟨⟨node, via, rest⟩ :: below, w.marks⟩
    | some .visited => .walking ⟨⟨node, via, rest⟩ :: below, w.marks⟩

/-- A step enters a node, or keeps the nodes that are left and takes away work. -/
theorem lex_of_step {edges : Edges n} {root : Fin n} {w next : Walk n}
    (h : step edges root w = .walking next) :
    next.unentered < w.unentered ∨ next.unentered ≤ w.unentered ∧ next.work < w.work := by
  obtain ⟨frames, marks⟩ := w
  unfold step at h
  split at h
  · simp at h
  · next node via below hw =>
    simp only at hw
    injection h with h
    subst h hw
    refine Or.inr ⟨unentered_set_le marks node .visited, ?_⟩
    simp only [work, List.flatMap_cons, List.length_cons, List.length_append, List.length_nil]
    omega
  · next node via edge v rest below hw =>
    simp only at hw
    subst hw
    split at h
    · next hm =>
      injection h with h
      subst h
      exact Or.inl (unentered_set_lt .visiting hm)
    · split at h
      · simp at h
      · injection h with h
        subst h
        refine Or.inr ⟨Nat.le_refl _, ?_⟩
        simp only [work, List.flatMap_cons, List.length_cons, List.length_append]
        omega
    · injection h with h
      subst h
      refine Or.inr ⟨Nat.le_refl _, ?_⟩
      simp only [work, List.flatMap_cons, List.length_cons, List.length_append]
      omega

/-- Walks on until the root is met again or the stack is empty. -/
def run (edges : Edges n) (root : Fin n) (w : Walk n) : Option (Closing n) :=
  match _h : step edges root w with
  | .exhausted => none
  | .closed closing => some closing
  | .walking next => run edges root next
termination_by (w.unentered, w.work)
decreasing_by
  rw [Prod.lex_def]
  rcases lex_of_step _h with h | ⟨h, h'⟩
  · exact Or.inl h
  · rcases Nat.lt_or_eq_of_le h with h | h
    · exact Or.inl h
    · exact Or.inr ⟨h, h'⟩

end Walk

/-- The first path from the root back to itself, edges taken in their order at every node. -/
def closing? {n : Nat} (edges : Edges n) (root : Fin n) : Option (Closing n) :=
  Walk.run edges root (Walk.start edges root)

namespace Closing

variable {n : Nat}

/-- The nodes of the path: the root, then those that the walk stands on, the innermost first. -/
def path (c : Closing n) (root : Fin n) : List (Fin n) := root :: c.frames.map Frame.node

/-- The number of the edge by which the path leaves the root. A path of one edge leaves by the edge that
closes it. -/
def firstEdge (c : Closing n) : Nat :=
  match c.frames.reverse with
  | _ :: second :: _ => second.via.getD c.edge
  | _ => c.edge

end Closing

end BuildScheduling.CycleSearch
