import Mathlib.Logic.Relation
import BuildScheduling.Graph.CycleSearch

/-!
# The search for a cycle is sound and complete

`closing?_isSome_iff`: the walk from a root meets the root again exactly when the root lies on a cycle.

The argument is an invariant of the walks that the search comes through (`Walk.Inv`): the stack is a simple
path from the root, the nodes on it are those marked as visiting, and an edge that was looked at leads to a
node that was entered before and is not the root. When the stack is empty, every node that was entered has
been left, so the entered nodes are closed under edges and none of their edges leads to the root. When the
walk closes, the stack is the cycle.
-/

namespace BuildScheduling.CycleSearch

variable {n : Nat}

/-- Some edge leads from one node to the other. -/
def Edge (edges : Edges n) (v u : Fin n) : Prop := ∃ i, (i, u) ∈ edges.get v

theorem get_set {α : Type} (marks : Vector α n) (v u : Fin n) (m : α) :
    (marks.set v m v.isLt).get u = if u = v then m else marks.get u := by
  show (marks.set v m)[u] = if u = v then m else marks[u]
  simp only [Fin.getElem_fin, Vector.getElem_set, Fin.ext_iff, eq_comm]

theorem get_replicate {α : Type} (m : α) (v : Fin n) : (Vector.replicate n m).get v = m := by
  show (Vector.replicate n m)[v] = m
  simp

namespace Walk

variable (edges : Edges n) (root : Fin n)

/-! ### The invariant -/

/-- The walks that the search comes through. -/
inductive Reached : Walk n → Prop
  | start : Reached (start edges root)
  | step {w next : Walk n} (h : Reached w) (hstep : step edges root w = .walking next) : Reached next

/-- The frames, the innermost first, are a path from the root: each was entered by an edge of the frame
below, whose number it keeps. -/
def IsPath : List (Frame n) → Prop
  | [] => True
  | [f] => f.node = root ∧ f.via = none
  | f :: g :: below => (∃ i, f.via = some i ∧ (i, f.node) ∈ edges.get g.node) ∧ IsPath (g :: below)

/-- A node that an edge may lead to once it was looked at: one that was entered, and not the root. -/
def Settled (marks : Vector (Option Mark) n) (v : Fin n) : Prop := marks.get v ≠ none ∧ v ≠ root

/-- What holds of every walk that the search comes through. -/
structure Inv (w : Walk n) : Prop where
  path : IsPath edges root w.frames
  simple : (w.frames.map Frame.node).Nodup
  visiting : ∀ v : Fin n, w.marks.get v = some .visiting ↔ v ∈ w.frames.map Frame.node
  entered : w.marks.get root ≠ none
  rest : ∀ f ∈ w.frames, f.rest <:+ edges.get f.node
  passed : ∀ f ∈ w.frames, ∀ e ∈ edges.get f.node, e ∈ f.rest ∨ Settled root w.marks e.2
  left : ∀ v : Fin n, w.marks.get v = some .visited → ∀ e ∈ edges.get v, Settled root w.marks e.2

variable {edges root}

theorem IsPath.tail {f : Frame n} {below : List (Frame n)} (h : IsPath edges root (f :: below)) :
    IsPath edges root below := by
  cases below with
  | nil => trivial
  | cons g below => exact h.2

theorem IsPath.set_rest {node : Fin n} {via : Option Nat} {rest rest' : List (Nat × Fin n)}
    {below : List (Frame n)} (h : IsPath edges root (⟨node, via, rest⟩ :: below)) :
    IsPath edges root (⟨node, via, rest'⟩ :: below) := by
  cases below with
  | nil => exact h
  | cons g below => exact h

theorem IsPath.root_mem {f : Frame n} {below : List (Frame n)}
    (h : IsPath edges root (f :: below)) : root ∈ (f :: below).map Frame.node := by
  induction below generalizing f with
  | nil => simp [h.1]
  | cons g below ih => exact List.mem_cons_of_mem _ (ih h.2)

theorem IsPath.reachable {frames : List (Frame n)} (h : IsPath edges root frames) {f : Frame n}
    (hf : f ∈ frames) : Relation.ReflTransGen (Edge edges) root f.node := by
  induction frames generalizing f with
  | nil => simp at hf
  | cons g below ih =>
    rcases List.mem_cons.mp hf with rfl | hf
    · cases below with
      | nil => rw [h.1]
      | cons g below =>
        obtain ⟨⟨i, -, hi⟩, hbelow⟩ := h
        exact (ih hbelow List.mem_cons_self).tail ⟨i, hi⟩
    · exact ih h.tail hf

theorem Settled.set {marks : Vector (Option Mark) n} {v : Fin n} (h : Settled root marks v)
    (u : Fin n) (m : Mark) : Settled root (marks.set u (some m) u.isLt) v := by
  refine ⟨?_, h.2⟩
  rw [get_set]
  split
  · simp
  · exact h.1

theorem ne_none_set {marks : Vector (Option Mark) n} {v : Fin n} (h : marks.get v ≠ none) (u : Fin n)
    (m : Mark) : (marks.set u (some m) u.isLt).get v ≠ none := by
  rw [get_set]
  split
  · simp
  · exact h

theorem inv_start : Inv edges root (start edges root) where
  path := ⟨rfl, rfl⟩
  simple := by simp [start]
  visiting v := by
    simp only [start, get_set, get_replicate]
    by_cases h : v = root <;> simp [h]
  entered := by simp [start, get_set]
  rest f hf := by
    obtain rfl := List.mem_singleton.mp hf
    exact List.suffix_refl _
  passed f hf e he := by
    obtain rfl := List.mem_singleton.mp hf
    exact Or.inl he
  left v hv := by
    simp only [start, get_set, get_replicate] at hv
    by_cases h : v = root <;> simp [h] at hv

/-! ### One step -/

/-- A frame without edges to look at is left. -/
theorem inv_leave {node : Fin n} {via : Option Nat} {below : List (Frame n)}
    {marks : Vector (Option Mark) n} (h : Inv edges root ⟨⟨node, via, []⟩ :: below, marks⟩) :
    Inv edges root ⟨below, marks.set node (some .visited) node.isLt⟩ := by
  obtain ⟨hnode, hbelow⟩ := List.nodup_cons.mp h.simple
  refine ⟨h.path.tail, hbelow, fun v => ?_, ne_none_set h.entered _ _, fun f hf => ?_, ?_, ?_⟩
  · have hv := h.visiting v
    simp only [List.map_cons, List.mem_cons] at hv
    rw [get_set]
    by_cases hvn : v = node
    · subst hvn
      simpa using hnode
    · rw [if_neg hvn, hv, or_iff_right hvn]
  · exact h.rest f (List.mem_cons_of_mem _ hf)
  · intro f hf e he
    exact (h.passed f (List.mem_cons_of_mem _ hf) e he).imp_right fun hs => hs.set _ _
  · intro v hv e he
    rw [get_set] at hv
    by_cases hvn : v = node
    · -- every edge of the frame was looked at
      subst hvn
      rcases h.passed _ List.mem_cons_self e he with hrest | hs
      · simp at hrest
      · exact hs.set _ _
    · rw [if_neg hvn] at hv
      exact (h.left v hv e he).set _ _

/-- An edge to a settled node is passed over. -/
theorem inv_pass {node next : Fin n} {via : Option Nat} {edge : Nat} {rest : List (Nat × Fin n)}
    {below : List (Frame n)} {marks : Vector (Option Mark) n}
    (h : Inv edges root ⟨⟨node, via, (edge, next) :: rest⟩ :: below, marks⟩)
    (hnext : Settled root marks next) :
    Inv edges root ⟨⟨node, via, rest⟩ :: below, marks⟩ := by
  refine ⟨h.path.set_rest, h.simple, h.visiting, h.entered, ?_, ?_, h.left⟩
  · intro f hf
    rcases List.mem_cons.mp hf with rfl | hf
    · exact (List.suffix_cons _ _).trans (h.rest _ List.mem_cons_self)
    · exact h.rest f (List.mem_cons_of_mem _ hf)
  · intro f hf e he
    rcases List.mem_cons.mp hf with rfl | hf
    · rcases h.passed _ List.mem_cons_self e he with hrest | hs
      · rcases List.mem_cons.mp hrest with rfl | hrest
        · exact Or.inr hnext
        · exact Or.inl hrest
      · exact Or.inr hs
    · exact h.passed f (List.mem_cons_of_mem _ hf) e he

/-- A node that was not entered before is put on the stack. -/
theorem inv_enter {node next : Fin n} {via : Option Nat} {edge : Nat} {rest : List (Nat × Fin n)}
    {below : List (Frame n)} {marks : Vector (Option Mark) n}
    (h : Inv edges root ⟨⟨node, via, (edge, next) :: rest⟩ :: below, marks⟩)
    (hnext : marks.get next = none) :
    Inv edges root ⟨⟨next, some edge, edges.get next⟩ :: ⟨node, via, rest⟩ :: below,
      marks.set next (some .visiting) next.isLt⟩ := by
  have hmem : (edge, next) ∈ edges.get node :=
    (h.rest _ List.mem_cons_self).mem List.mem_cons_self
  have hroot : next ≠ root := by
    rintro rfl
    exact h.entered hnext
  have hfresh : next ∉ node :: below.map Frame.node := by
    intro hin
    have hv := (h.visiting next).mpr hin
    simp only at hv
    rw [hnext] at hv
    simp at hv
  have hsettled : Settled root (marks.set next (some .visiting) next.isLt) next :=
    ⟨by simp [get_set], hroot⟩
  refine ⟨⟨⟨edge, rfl, hmem⟩, h.path.set_rest⟩, List.nodup_cons.mpr ⟨hfresh, h.simple⟩, fun v => ?_,
    ne_none_set h.entered _ _, ?_, ?_, ?_⟩
  · have hv := h.visiting v
    rw [List.map_cons, List.mem_cons] at hv
    rw [get_set, List.map_cons, List.map_cons, List.mem_cons, List.mem_cons, ← hv]
    by_cases hvn : v = next <;> simp [hvn]
  · intro f hf
    rcases List.mem_cons.mp hf with rfl | hf
    · exact List.suffix_refl _
    rcases List.mem_cons.mp hf with rfl | hf
    · exact (List.suffix_cons _ _).trans (h.rest _ List.mem_cons_self)
    · exact h.rest f (List.mem_cons_of_mem _ hf)
  · intro f hf e he
    rcases List.mem_cons.mp hf with rfl | hf
    · exact Or.inl he
    rcases List.mem_cons.mp hf with rfl | hf
    · rcases h.passed _ List.mem_cons_self e he with hrest | hs
      · rcases List.mem_cons.mp hrest with rfl | hrest
        · exact Or.inr hsettled
        · exact Or.inl hrest
      · exact Or.inr (hs.set _ _)
    · exact (h.passed f (List.mem_cons_of_mem _ hf) e he).imp_right fun hs => hs.set _ _
  · intro v hv e he
    rw [get_set] at hv
    by_cases hvn : v = next
    · simp [hvn] at hv
    · rw [if_neg hvn] at hv
      exact (h.left v hv e he).set _ _

/-- What a step does: it leaves a frame, enters a node, or passes over an edge to a settled node. -/
theorem Inv.step_cases {w next : Walk n} (h : Inv edges root w) (hstep : step edges root w = .walking next) :
    (∃ node via below, w.frames = ⟨node, via, []⟩ :: below ∧
      next = ⟨below, w.marks.set node (some .visited) node.isLt⟩) ∨
    (∃ node via edge v rest below, w.frames = ⟨node, via, (edge, v) :: rest⟩ :: below ∧ w.marks.get v = none ∧
      next = ⟨⟨v, some edge, edges.get v⟩ :: ⟨node, via, rest⟩ :: below,
        w.marks.set v (some .visiting) v.isLt⟩) ∨
    ∃ node via edge v rest below, w.frames = ⟨node, via, (edge, v) :: rest⟩ :: below ∧ Settled root w.marks v ∧
      next = ⟨⟨node, via, rest⟩ :: below, w.marks⟩ := by
  obtain ⟨frames, marks⟩ := w
  unfold step at hstep
  split at hstep
  · simp at hstep
  · next node via below hw =>
    simp only at hw hstep
    injection hstep with hstep
    exact Or.inl ⟨node, via, below, hw, hstep.symm⟩
  · next node via edge v rest below hw =>
    simp only at hw hstep
    subst hw
    right
    split at hstep
    · next hm =>
      injection hstep with hstep
      exact Or.inl ⟨node, via, edge, v, rest, below, rfl, hm, hstep.symm⟩
    · next hm =>
      split at hstep
      · simp at hstep
      · next hv =>
        injection hstep with hstep
        have hm : marks.get v = some .visiting := hm
        exact Or.inr ⟨node, via, edge, v, rest, below, rfl, ⟨by simp [hm], hv⟩, hstep.symm⟩
    · next hm =>
      injection hstep with hstep
      have hm : marks.get v = some .visited := hm
      refine Or.inr ⟨node, via, edge, v, rest, below, rfl, ⟨by simp [hm], ?_⟩, hstep.symm⟩
      -- the root is on the stack, so it was not left yet
      rintro rfl
      have hroot := (h.visiting v).mpr h.path.root_mem
      simp only at hroot
      rw [hm] at hroot
      simp at hroot

theorem inv_step {w next : Walk n} (h : Inv edges root w) (hstep : step edges root w = .walking next) :
    Inv edges root next := by
  obtain ⟨frames, marks⟩ := w
  rcases h.step_cases hstep with ⟨node, via, below, rfl, rfl⟩ | ⟨node, via, edge, v, rest, below, rfl, hfresh, rfl⟩ |
    ⟨node, via, edge, v, rest, below, rfl, hsettled, rfl⟩
  · exact inv_leave h
  · exact inv_enter h hfresh
  · exact inv_pass h hsettled

theorem inv_reached {w : Walk n} (h : Reached edges root w) : Inv edges root w := by
  induction h with
  | start => exact inv_start
  | step _ hstep ih => exact inv_step ih hstep

/-! ### The end of the walk -/

/-- The search ends in a walk that it comes through and that has no next one. -/
theorem exists_reached_of_run {w : Walk n} (h : Reached edges root w) :
    ∃ last, Reached edges root last ∧
      (run edges root w = none ∧ step edges root last = .exhausted ∨
        ∃ closing, run edges root w = some closing ∧ step edges root last = .closed closing) := by
  fun_induction run edges root w with
  | case1 w hstep => exact ⟨w, h, Or.inl ⟨rfl, hstep⟩⟩
  | case2 w closing hstep => exact ⟨w, h, Or.inr ⟨closing, rfl, hstep⟩⟩
  | case3 w next hstep ih => exact ih (h.step hstep)

theorem frames_eq_nil_of_exhausted {w : Walk n} (hstep : step edges root w = .exhausted) : w.frames = [] := by
  obtain ⟨frames, marks⟩ := w
  unfold step at hstep
  split at hstep
  · assumption
  · simp at hstep
  · split at hstep
    · simp at hstep
    · split at hstep <;> simp at hstep
    · simp at hstep

/-- When the stack is empty, every node that was entered was left again. -/
theorem Inv.visited_of_exhausted {w : Walk n} (h : Inv edges root w) (hstep : step edges root w = .exhausted)
    {v : Fin n} (hv : w.marks.get v ≠ none) : w.marks.get v = some .visited := by
  cases hm : w.marks.get v with
  | none => exact absurd hm hv
  | some m =>
    cases m with
    | visited => rfl
    | visiting =>
      have hstack := (h.visiting v).mp hm
      simp [frames_eq_nil_of_exhausted hstep] at hstack

/-- When the stack is empty, no path leads back to the root. -/
theorem not_cyclic_of_exhausted {w : Walk n} (h : Inv edges root w)
    (hstep : step edges root w = .exhausted) : ¬ Relation.TransGen (Edge edges) root root := by
  have hclosed : ∀ v, Relation.TransGen (Edge edges) root v → Settled root w.marks v := by
    intro v hv
    induction hv with
    | single he =>
      obtain ⟨i, hi⟩ := he
      exact h.left root (h.visited_of_exhausted hstep h.entered) _ hi
    | tail _ he ih =>
      obtain ⟨i, hi⟩ := he
      exact h.left _ (h.visited_of_exhausted hstep ih.1) _ hi
  exact fun hcycle => (hclosed root hcycle).2 rfl

/-- When the walk closes, the edge that it closes by is the next one of the innermost frame. -/
theorem step_closed_cases {w : Walk n} {c : Closing n} (h : step edges root w = .closed c) :
    ∃ node via rest below, w.frames = ⟨node, via, (c.edge, root) :: rest⟩ :: below ∧
      c.frames = ⟨node, via, rest⟩ :: below := by
  obtain ⟨frames, marks⟩ := w
  unfold step at h
  split at h
  · simp at h
  · simp at h
  · next node via edge v rest below hw =>
    split at h
    · simp at h
    · split at h
      · next hv =>
        subst hv
        injection h with h
        subst h
        exact ⟨node, via, rest, below, hw, rfl⟩
      · simp at h
    · simp at h

/-- When the walk closes, the stack and the closing edge are a cycle. -/
theorem cyclic_of_closed {w : Walk n} {closing : Closing n} (h : Inv edges root w)
    (hstep : step edges root w = .closed closing) : Relation.TransGen (Edge edges) root root := by
  obtain ⟨node, via, rest, below, hframes, -⟩ := step_closed_cases hstep
  have htop : ⟨node, via, (closing.edge, root) :: rest⟩ ∈ w.frames := hframes ▸ List.mem_cons_self
  have hmem : (closing.edge, root) ∈ edges.get node := (h.rest _ htop).mem List.mem_cons_self
  exact Relation.TransGen.tail' (h.path.reachable htop) ⟨closing.edge, hmem⟩

end Walk

/-- The search meets the root again exactly when the root lies on a cycle. -/
theorem closing?_isSome_iff {edges : Edges n} {root : Fin n} :
    (closing? edges root).isSome ↔ Relation.TransGen (Edge edges) root root := by
  have hstart : Walk.Reached edges root (Walk.start edges root) := .start
  obtain ⟨last, hlast, ⟨hrun, hstep⟩ | ⟨closing, hrun, hstep⟩⟩ := Walk.exists_reached_of_run hstart
  · have := Walk.not_cyclic_of_exhausted (Walk.inv_reached hlast) hstep
    simp [closing?, hrun, this]
  · have := Walk.cyclic_of_closed (Walk.inv_reached hlast) hstep
    simp [closing?, hrun, this]

end BuildScheduling.CycleSearch
