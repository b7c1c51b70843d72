import BuildScheduling.Proofs.Graph.CycleErrors

/-!
# The course of a search for a cycle

A search is followed from its first walk on, with the nodes that it puts on the stack and the edges that it looks at
(`Walk.Trail`). Both come from what its steps do to the stack. The edges that were looked at from a node and those that its
frame has left are always its edges in order (`Walk.Logged`), so that a node whose frame was left has had every edge looked at.
With the invariant of the walks (`Walk.Inv`) this is the whole of what holds in front of every step; and since a step enters a
node or takes away work, the search comes to its end on every graph.
-/

namespace BuildScheduling

namespace CycleSearch.Walk

variable {n : Nat} (edges : Edges n) (root : Fin n)

/-! ### What a step does to the stack -/

/-- The edge that the next step looks at, with the node that it leads from: the next one of the innermost frame. -/
def looksAt (w : Walk n) : Option (Fin n × Nat × Fin n) :=
  match w.frames with
  | ⟨node, _, e :: _⟩ :: _ => some (node, e)
  | _ => none

/-- The node that a step puts on the stack, if the stack gets higher. -/
def entered? (w next : Walk n) : Option (Fin n) :=
  if w.frames.length < next.frames.length then next.frames.head?.map Frame.node else none

/-- The walks that the search comes through, each with the nodes that were put on the stack and the edges that were looked at,
in order. -/
inductive Trail : List (Fin n) → List (Fin n × Nat × Fin n) → Walk n → Prop
  | start : Trail [root] [] (start edges root)
  | step {entered : List (Fin n)} {looked : List (Fin n × Nat × Fin n)} {w next : Walk n}
      (h : Trail entered looked w) (hstep : step edges root w = .walking next) :
      Trail (entered ++ (entered? w next).toList) (looked ++ w.looksAt.toList) next

/-- The edges of one node among those that were looked at. -/
def lookedFrom (looked : List (Fin n × Nat × Fin n)) (v : Fin n) : List (Nat × Fin n) :=
  (looked.filter fun l => l.1 = v).map Prod.snd

/-- What the search has done fits what it stands at. -/
structure Logged (entered : List (Fin n)) (looked : List (Fin n × Nat × Fin n)) (w : Walk n) : Prop where
  once : entered.Nodup
  marked : ∀ v, v ∈ entered ↔ w.marks.get v ≠ none
  counted : w.unentered + entered.length = n
  unlooked : ∀ v, w.marks.get v = none → lookedFrom looked v = []
  stack : ∀ f ∈ w.frames, lookedFrom looked f.node ++ f.rest = edges.get f.node
  left : ∀ v, w.marks.get v = some .visited → lookedFrom looked v = edges.get v

variable {edges root} {entered : List (Fin n)} {looked : List (Fin n × Nat × Fin n)} {w next : Walk n}

theorem Trail.reached (h : Trail edges root entered looked w) : Reached edges root w := by
  induction h with
  | start => exact .start
  | step _ hstep ih => exact ih.step hstep

theorem Reached.exists_trail (h : Reached edges root w) : ∃ entered looked, Trail edges root entered looked w := by
  induction h with
  | start => exact ⟨_, _, .start⟩
  | step _ hstep ih =>
    obtain ⟨entered, looked, htrail⟩ := ih
    exact ⟨_, _, htrail.step hstep⟩

theorem lookedFrom_concat (looked : List (Fin n × Nat × Fin n)) (node v : Fin n) (e : Nat × Fin n) :
    lookedFrom (looked ++ [(node, e)]) v = lookedFrom looked v ++ if node = v then [e] else [] := by
  by_cases h : node = v <;> simp [lookedFrom, h]

theorem unentered_set_of_none {marks : Vector (Option Mark) n} {v : Fin n} (m : Mark) (h : marks.get v = none) :
    (marks.set v (some m) v.isLt).countP Option.isNone + 1 = marks.countP Option.isNone := by
  have hpos : 0 < marks.countP Option.isNone :=
    Vector.countP_pos_iff.mpr ⟨none, h ▸ Vector.getElem_mem v.isLt, rfl⟩
  have hv : marks[v.val] = none := h
  rw [Vector.countP_set, hv]
  simp only [Option.isNone_none, Option.isNone_some, if_true, Bool.false_eq_true, if_false]
  omega

theorem unentered_set_of_some {marks : Vector (Option Mark) n} {v : Fin n} {m m' : Mark} (h : marks.get v = some m') :
    (marks.set v (some m) v.isLt).countP Option.isNone = marks.countP Option.isNone := by
  have hv : marks[v.val] = some m' := h
  rw [Vector.countP_set, hv]
  simp

/-! ### The log is kept -/

theorem logged_start : Logged edges [root] [] (start edges root) where
  once := List.nodup_singleton root
  marked v := by
    simp only [start, get_set, get_replicate, List.mem_singleton]
    by_cases h : v = root <;> simp [h]
  counted := by
    have hcount := unentered_set_of_none .visiting (get_replicate none root)
    rw [Vector.countP_replicate] at hcount
    exact hcount
  unlooked _ _ := rfl
  stack f hf := by
    obtain rfl := List.mem_singleton.mp hf
    rfl
  left v hv := by
    simp only [start, get_set, get_replicate] at hv
    by_cases h : v = root <;> simp [h] at hv

/-- A frame that is left has no edges left, so all of them were looked at. -/
theorem logged_leave {node : Fin n} {via : Option Nat} {below : List (Frame n)} {marks : Vector (Option Mark) n}
    (hinv : Inv edges root ⟨⟨node, via, []⟩ :: below, marks⟩)
    (h : Logged edges entered looked ⟨⟨node, via, []⟩ :: below, marks⟩) :
    Logged edges entered looked ⟨below, marks.set node (some .visited) node.isLt⟩ := by
  have hnode : marks.get node = some .visiting := (hinv.visiting node).mpr List.mem_cons_self
  have hgone : ∀ v, (marks.set node (some .visited) node.isLt).get v = none ↔ marks.get v = none := by
    intro v
    rw [get_set]
    by_cases hv : v = node
    · simp [hv, hnode]
    · rw [if_neg hv]
  refine ⟨h.once, fun v => ?_, ?_, fun v hv => h.unlooked v ((hgone v).mp hv), fun f hf => ?_, fun v hv => ?_⟩
  · rw [h.marked v, ne_eq, ne_eq, hgone v]
  · have hcount := unentered_set_of_some (m := .visited) hnode
    exact (congrArg (· + entered.length) hcount).trans h.counted
  · exact h.stack f (List.mem_cons_of_mem _ hf)
  · rw [get_set] at hv
    by_cases hvn : v = node
    · have hall := h.stack _ List.mem_cons_self
      rw [List.append_nil] at hall
      rw [hvn]
      exact hall
    · rw [if_neg hvn] at hv
      exact h.left v hv

/-- The next edge of the innermost frame is looked at. -/
theorem Logged.look {node : Fin n} {via : Option Nat} {e : Nat × Fin n} {rest : List (Nat × Fin n)}
    {below : List (Frame n)} {marks : Vector (Option Mark) n}
    (hinv : Inv edges root ⟨⟨node, via, e :: rest⟩ :: below, marks⟩)
    (h : Logged edges entered looked ⟨⟨node, via, e :: rest⟩ :: below, marks⟩) :
    Logged edges entered (looked ++ [(node, e)]) ⟨⟨node, via, rest⟩ :: below, marks⟩ := by
  have hnode : marks.get node = some .visiting := (hinv.visiting node).mpr List.mem_cons_self
  have hfresh := (List.nodup_cons.mp hinv.simple).1
  have hother : ∀ v, v ≠ node → lookedFrom (looked ++ [(node, e)]) v = lookedFrom looked v := by
    intro v hv
    rw [lookedFrom_concat, if_neg (Ne.symm hv), List.append_nil]
  have hoffStack : ∀ v, marks.get v ≠ some .visiting → lookedFrom (looked ++ [(node, e)]) v = lookedFrom looked v := by
    intro v hv
    apply hother
    rintro rfl
    exact hv hnode
  refine ⟨h.once, h.marked, h.counted, fun v hv => ?_, fun f hf => ?_, fun v hv => ?_⟩
  · have hv : marks.get v = none := hv
    rw [hoffStack v (by simp [hv])]
    exact h.unlooked v hv
  · rcases List.mem_cons.mp hf with rfl | hf
    · have hall := h.stack _ List.mem_cons_self
      rw [lookedFrom_concat, if_pos rfl, List.append_assoc]
      exact hall
    · have hne : f.node ≠ node := by
        intro heq
        have hmem := List.mem_map_of_mem (f := Frame.node) hf
        rw [heq] at hmem
        exact hfresh hmem
      rw [hother _ hne]
      exact h.stack f (List.mem_cons_of_mem _ hf)
  · have hv : marks.get v = some .visited := hv
    rw [hoffStack v (by simp [hv])]
    exact h.left v hv

/-- A node that was not entered before, and from which nothing was looked at, gets a frame with all its edges. -/
theorem Logged.enter {v : Fin n} (edge : Nat) {frames : List (Frame n)} {marks : Vector (Option Mark) n}
    (h : Logged edges entered looked ⟨frames, marks⟩) (hv : marks.get v = none) :
    Logged edges (entered ++ [v]) looked
      ⟨⟨v, some edge, edges.get v⟩ :: frames, marks.set v (some .visiting) v.isLt⟩ := by
  have hnew : v ∉ entered := fun hmem => (h.marked v).mp hmem hv
  have hold : ∀ u, (marks.set v (some .visiting) v.isLt).get u ≠ some .visiting →
      (marks.set v (some .visiting) v.isLt).get u = marks.get u := by
    intro u hu
    rw [get_set] at hu ⊢
    by_cases huv : u = v
    · exact absurd (if_pos huv) hu
    · exact if_neg huv
  refine ⟨?_, fun u => ?_, ?_, fun u hu => ?_, fun f hf => ?_, fun u hu => ?_⟩
  · exact List.nodup_append.mpr ⟨h.once, List.nodup_singleton v, fun u hu u' hu' heq => by
      obtain rfl := List.mem_singleton.mp hu'
      exact hnew (heq ▸ hu)⟩
  · rw [List.mem_append, h.marked u, List.mem_singleton, get_set]
    by_cases huv : u = v <;> simp [huv]
  · have hcount := unentered_set_of_none .visiting hv
    have hcounted : marks.countP Option.isNone + entered.length = n := h.counted
    rw [List.length_append, List.length_singleton]
    show (marks.set v (some .visiting) v.isLt).countP Option.isNone + (entered.length + 1) = n
    omega
  · rw [hold u (by simp [hu])] at hu
    exact h.unlooked u hu
  · rcases List.mem_cons.mp hf with rfl | hf
    · show lookedFrom looked v ++ edges.get v = edges.get v
      rw [h.unlooked v hv, List.nil_append]
    · exact h.stack f hf
  · rw [hold u (by simp [hu])] at hu
    exact h.left u hu

theorem logged_step (hinv : Inv edges root w) (h : Logged edges entered looked w)
    (hstep : step edges root w = .walking next) :
    Logged edges (entered ++ (entered? w next).toList) (looked ++ w.looksAt.toList) next := by
  obtain ⟨frames, marks⟩ := w
  rcases hinv.step_cases hstep with ⟨node, via, below, rfl, rfl⟩ | ⟨node, via, edge, v, rest, below, rfl, hfresh, rfl⟩ |
    ⟨node, via, edge, v, rest, below, rfl, -, rfl⟩
  · have hlower : ¬ below.length + 1 < below.length := by omega
    simpa [entered?, looksAt, hlower] using logged_leave hinv h
  · simpa [entered?, looksAt] using (h.look hinv).enter edge hfresh
  · simpa [entered?, looksAt] using h.look hinv

theorem logged_trail (h : Trail edges root entered looked w) : Logged edges entered looked w := by
  induction h with
  | start => exact logged_start
  | step htrail hstep ih => exact logged_step (inv_reached htrail.reached) ih hstep

/-! ### The end -/

/-- A step leaves fewer nodes to enter, or as many and less work. -/
theorem measure_lt_of_step (h : step edges root w = .walking next) :
    Prod.Lex (· < ·) (· < ·) (next.unentered, next.work) (w.unentered, w.work) := by
  rcases lex_of_step h with hless | ⟨hle, hwork⟩
  · exact .left _ _ hless
  · rcases Nat.lt_or_eq_of_le hle with hless | heq
    · exact .left _ _ hless
    · rw [heq]
      exact .right _ hwork

end CycleSearch.Walk

open CycleSearch CycleSearch.Walk

/-- In front of every step of the search from a root, along the edges that the dependency materials of the pipelines are, the
following holds. The stack is a simple path from the root, and each frame has the number of the material by which the frame
below waits for it. The nodes that are marked as visiting are those on the stack. From a node that is marked as visited every
edge was looked at, in order, and leads to a marked node that is not the root. The nodes with a mark are those that were put
on the stack, each of them once; the others are counted by `unentered`. Frames have left what was not looked at from their
nodes, and with the frames themselves this is counted by `work`. Of these two counts a step makes the first one less, or
keeps it and makes the second one less, and so the search ends: it comes to a step that closes a cycle or has no frame, and
gives that for an answer. -/
theorem search_keeps_stack_and_ends (g : Graph) (root : g.Node) :
    (∀ (v u : g.Node) (i : Nat), (i, u) ∈ g.edges.get v ↔
      ∃ d ∈ (g.pipelines.get v).dependencies, d.materialIndex = i ∧ g.node? d.pipeline = some u) ∧
    (∀ entered looked w, Trail g.edges root entered looked w →
      (IsPath g.edges root w.frames ∧ (w.frames.map Frame.node).Nodup) ∧
      (∀ v, w.marks.get v = some .visiting ↔ v ∈ w.frames.map Frame.node) ∧
      (∀ v, w.marks.get v = some .visited → lookedFrom looked v = g.edges.get v ∧
        ∀ e ∈ g.edges.get v, e.2 ≠ root ∧ (w.marks.get e.2 = some .visiting ∨ w.marks.get e.2 = some .visited)) ∧
      (entered.Nodup ∧ (∀ v, v ∈ entered ↔ w.marks.get v ≠ none) ∧ w.unentered + entered.length = g.size) ∧
      (∀ f ∈ w.frames, lookedFrom looked f.node ++ f.rest = g.edges.get f.node) ∧
      ∀ next, step g.edges root w = .walking next →
        Prod.Lex (· < ·) (· < ·) (next.unentered, next.work) (w.unentered, w.work)) ∧
    ∃ entered looked last, Trail g.edges root entered looked last ∧
      (step g.edges root last = .exhausted ∧ closing? g.edges root = none ∨
        ∃ closing, step g.edges root last = .closed closing ∧ closing? g.edges root = some closing) := by
  refine ⟨fun v u i => Graph.mem_edges_iff, fun entered looked w htrail => ?_, ?_⟩
  · have hinv := inv_reached htrail.reached
    have hlog := logged_trail htrail
    refine ⟨⟨hinv.path, hinv.simple⟩, hinv.visiting, fun v hv => ⟨hlog.left v hv, fun e he => ?_⟩,
      ⟨hlog.once, hlog.marked, hlog.counted⟩, hlog.stack, fun next hstep => measure_lt_of_step hstep⟩
    obtain ⟨hmarked, hroot⟩ := hinv.left v hv e he
    refine ⟨hroot, ?_⟩
    cases hm : w.marks.get e.2 with
    | none => exact absurd hm hmarked
    | some m => cases m <;> simp
  · obtain ⟨last, hreached, hend⟩ := exists_reached_of_run (.start : Reached g.edges root (start g.edges root))
    obtain ⟨entered, looked, htrail⟩ := hreached.exists_trail
    refine ⟨entered, looked, last, htrail, ?_⟩
    rcases hend with ⟨hrun, hstep⟩ | ⟨closing, hrun, hstep⟩
    · exact Or.inl ⟨hstep, hrun⟩
    · exact Or.inr ⟨closing, hstep, hrun⟩

/-- The third pipeline of the knot, which nobody waits for. -/
def behindKnotNode : (Graph.ofPipelines knot).Node := ⟨2, by decide +kernel⟩

/-- The search from behind a cycle leads into the cycle and ends with an empty stack. The edge to the cycle was looked at, and
no node was entered twice. -/
theorem search_behind_knot_ends :
    ∃ entered looked last, Trail (Graph.ofPipelines knot).edges behindKnotNode entered looked last ∧
      last.frames = [] ∧ last.marks.get behindKnotNode = some .visited ∧
      lookedFrom looked behindKnotNode = (Graph.ofPipelines knot).edges.get behindKnotNode ∧
      (Graph.ofPipelines knot).edges.get behindKnotNode ≠ [] ∧ entered.Nodup := by
  obtain ⟨-, hkeeps, entered, looked, last, htrail, hend⟩ :=
    search_keeps_stack_and_ends (Graph.ofPipelines knot) behindKnotNode
  have hnone : closing? (Graph.ofPipelines knot).edges behindKnotNode = none := by
    have hunnamed : ∀ v, ∀ e ∈ (Graph.ofPipelines knot).edges.get v, e.2 ≠ behindKnotNode := by decide +kernel
    apply Option.not_isSome_iff_eq_none.mp
    rw [closing?_isSome_iff]
    intro hcyclic
    obtain ⟨v, -, i, hedge⟩ := Relation.TransGen.tail'_iff.mp hcyclic
    exact hunnamed v _ hedge rfl
  have hstep : step (Graph.ofPipelines knot).edges behindKnotNode last = .exhausted := by
    rcases hend with ⟨hstep, -⟩ | ⟨closing, -, hsome⟩
    · exact hstep
    · cases hnone.symm.trans hsome
  obtain ⟨-, -, hleft, ⟨honce, -, -⟩, -, -⟩ := hkeeps entered looked last htrail
  have hinv := inv_reached htrail.reached
  have hvisited := hinv.visited_of_exhausted hstep hinv.entered
  exact ⟨entered, looked, last, htrail, frames_eq_nil_of_exhausted hstep, hvisited, (hleft _ hvisited).1,
    by decide +kernel, honce⟩

end BuildScheduling
