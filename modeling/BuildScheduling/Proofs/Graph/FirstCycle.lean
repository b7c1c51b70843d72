import BuildScheduling.Proofs.Graph.CycleSearch

/-!
# The search finds the first way back

Where the edges of every node are in order, the path on which the walk closes is the first of all simple ways from the
root back to itself, compared edge by edge from the root on (`closing?_least`), although the walk enters no node twice.

The reason is an invariant (`Walk.Thorough`): from a node that was left, the root can only be met again through the nodes
that stand on the stack, so a simple way that starts along the stack cannot go on through it. This is kept when the stack
gets shorter, because a node is left only after the same holds of all its edges (`Clear.of_left`).
-/

namespace BuildScheduling.CycleSearch

variable {n : Nat} (edges : Edges n) (root : Fin n)

/-- A way from a node to the root: its edges, each with the node that it leads to. -/
inductive WayBack : Fin n → List (Nat × Fin n) → Prop
  | close {v : Fin n} {i : Nat} (h : (i, root) ∈ edges.get v) : WayBack v [(i, root)]
  | step {v u : Fin n} {i : Nat} {rest : List (Nat × Fin n)} (h : (i, u) ∈ edges.get v) (hrest : WayBack u rest) :
      WayBack v ((i, u) :: rest)

/-- Some way leads from a node to the root, and no node before its end is closed. -/
inductive Clear (closed : List (Fin n)) : Fin n → Prop
  | close {v : Fin n} {i : Nat} (hv : v ∉ closed) (h : (i, root) ∈ edges.get v) : Clear closed v
  | step {v u : Fin n} {i : Nat} (hv : v ∉ closed) (h : (i, u) ∈ edges.get v) (hu : Clear closed u) : Clear closed v

/-- An edge to this node does not lead back to the root, unless through a closed node. -/
def Hopeless (closed : List (Fin n)) (v : Fin n) : Prop := v ≠ root ∧ ¬ Clear edges root closed v

/-- A way that meets no closed node before its end. -/
def Avoids (closed : List (Fin n)) (way : List (Nat × Fin n)) : Prop := ∀ e ∈ way, e.2 ∈ closed → e.2 = root

/-- No simple way from a node to the root that avoids closed nodes comes before this one in order of their edges. -/
def Least (closed : List (Fin n)) (v : Fin n) (way : List (Nat × Fin n)) : Prop :=
  ∀ other, WayBack edges root v other → (other.map Prod.snd).Nodup → Avoids root closed other →
    ¬ List.Lex (· < ·) (other.map Prod.fst) (way.map Prod.fst)

variable {edges root}

/-! ### Ways back -/

theorem WayBack.cons_cases {v : Fin n} {way : List (Nat × Fin n)} (h : WayBack edges root v way) :
    ∃ i u rest, way = (i, u) :: rest ∧ (i, u) ∈ edges.get v ∧ (u = root ∨ WayBack edges root u rest) := by
  cases h with
  | close h => exact ⟨_, _, _, rfl, h, Or.inl rfl⟩
  | step h hrest => exact ⟨_, _, _, rfl, h, Or.inr hrest⟩

theorem Clear.not_mem {closed : List (Fin n)} {v : Fin n} (h : Clear edges root closed v) : v ∉ closed := by
  cases h with
  | close hv _ => exact hv
  | step hv _ _ => exact hv

theorem Clear.mono {closed closed' : List (Fin n)} (hclosed : ∀ v ∈ closed', v ∈ closed) {v : Fin n}
    (h : Clear edges root closed v) : Clear edges root closed' v := by
  induction h with
  | close hv h => exact .close (fun hmem => hv (hclosed _ hmem)) h
  | step hv h _ ih => exact .step (fun hmem => hv (hclosed _ hmem)) h ih

theorem Clear.of_wayBack {closed : List (Fin n)} {v : Fin n} {way : List (Nat × Fin n)}
    (h : WayBack edges root v way) (hv : v ∉ closed) (havoids : Avoids root closed way) :
    Clear edges root closed v := by
  induction h with
  | close h => exact .close hv h
  | @step v u i rest h hrest ih =>
    obtain ⟨hu, hrestAvoids⟩ := List.forall_mem_cons.mp havoids
    by_cases hclosed : u ∈ closed
    · obtain rfl : u = root := hu hclosed
      exact .close hv h
    · exact .step hv h (ih hclosed hrestAvoids)

/-- Once all edges of a node are hopeless, to close it makes no difference: a clear way does not lead through it. -/
theorem Clear.of_left {closed : List (Fin n)} {node : Fin n}
    (hleft : ∀ e ∈ edges.get node, Hopeless edges root (node :: closed) e.2) {v : Fin n}
    (h : Clear edges root closed v) : Clear edges root (node :: closed) v := by
  induction h with
  | @close v i hv h =>
    refine .close (fun hmem => ?_) h
    rcases List.mem_cons.mp hmem with rfl | hmem
    · exact (hleft _ h).1 rfl
    · exact hv hmem
  | @step v u i hv h _ ih =>
    refine .step (fun hmem => ?_) h ih
    rcases List.mem_cons.mp hmem with rfl | hmem
    · exact (hleft _ h).2 ih
    · exact hv hmem

theorem not_clear_of_left {closed : List (Fin n)} {node : Fin n}
    (hleft : ∀ e ∈ edges.get node, Hopeless edges root (node :: closed) e.2) : ¬ Clear edges root closed node :=
  fun h => (h.of_left hleft).not_mem List.mem_cons_self

/-! ### The invariant -/

namespace Walk

variable (edges root)

/-- Every edge of a frame is still to be looked at, or it is the one that was taken to the frame above, or it is hopeless
while the stack up to this frame is closed. -/
def Explored : List (Nat × Fin n) → List (Frame n) → Prop
  | _, [] => True
  | taken, f :: below =>
    taken ++ f.rest <:+ edges.get f.node ∧
    (∀ e ∈ edges.get f.node, e ∈ taken ++ f.rest ∨ Hopeless edges root ((f :: below).map Frame.node) e.2) ∧
    Explored (f.via.toList.map fun i => (i, f.node)) below

/-- The walk has missed nothing: see `Explored`, and what was left does not lead to the root past the stack. -/
structure Thorough (w : Walk n) : Prop where
  explored : Explored edges root [] w.frames
  left : ∀ v : Fin n, w.marks.get v = some .visited → ¬ Clear edges root (w.frames.map Frame.node) v

variable {edges root}

theorem thorough_start : Thorough edges root (start edges root) where
  explored := ⟨List.suffix_refl _, fun e he => Or.inl he, trivial⟩
  left v hv := by
    simp only [start, get_set, get_replicate] at hv
    by_cases h : v = root <;> simp [h] at hv

/-- The edge to a frame that is left becomes hopeless. -/
theorem Explored.leave {node : Fin n} {via : Option Nat} {below : List (Frame n)}
    (hpath : IsPath edges root (⟨node, via, []⟩ :: below)) (hsimple : node ∉ below.map Frame.node)
    (hclear : ¬ Clear edges root (below.map Frame.node) node)
    (h : Explored edges root (via.toList.map fun i => (i, node)) below) : Explored edges root [] below := by
  cases below with
  | nil => trivial
  | cons g below =>
    obtain ⟨⟨i, rfl, -⟩, hbelow⟩ := hpath
    obtain ⟨hsuffix, hlooked, hrest⟩ := h
    refine ⟨(List.suffix_cons _ _).trans hsuffix, fun e he => ?_, hrest⟩
    rcases hlooked e he with hmem | hhopeless
    · rcases List.mem_cons.mp hmem with rfl | hmem
      · refine Or.inr ⟨?_, hclear⟩
        rintro rfl
        exact hsimple hbelow.root_mem
      · exact Or.inl hmem
    · exact Or.inr hhopeless

theorem thorough_leave {node : Fin n} {via : Option Nat} {below : List (Frame n)} {marks : Vector (Option Mark) n}
    (hinv : Inv edges root ⟨⟨node, via, []⟩ :: below, marks⟩)
    (h : Thorough edges root ⟨⟨node, via, []⟩ :: below, marks⟩) :
    Thorough edges root ⟨below, marks.set node (some .visited) node.isLt⟩ := by
  obtain ⟨-, hlooked, hbelow⟩ := h.explored
  have hleft : ∀ e ∈ edges.get node, Hopeless edges root (node :: below.map Frame.node) e.2 := fun e he =>
    (hlooked e he).resolve_left (by simp)
  have hclear := not_clear_of_left hleft
  refine ⟨hbelow.leave hinv.path (List.nodup_cons.mp hinv.simple).1 hclear, fun v hv => ?_⟩
  rw [get_set] at hv
  by_cases hvn : v = node
  · exact hvn ▸ hclear
  · rw [if_neg hvn] at hv
    exact fun h' => h.left v hv (h'.of_left hleft)

theorem thorough_pass {node next : Fin n} {via : Option Nat} {edge : Nat} {rest : List (Nat × Fin n)}
    {below : List (Frame n)} {marks : Vector (Option Mark) n}
    (hinv : Inv edges root ⟨⟨node, via, (edge, next) :: rest⟩ :: below, marks⟩)
    (h : Thorough edges root ⟨⟨node, via, (edge, next) :: rest⟩ :: below, marks⟩)
    (hnext : Settled root marks next) : Thorough edges root ⟨⟨node, via, rest⟩ :: below, marks⟩ := by
  have hclear : ¬ Clear edges root (node :: below.map Frame.node) next := by
    cases hmark : marks.get next with
    | none => exact absurd hmark hnext.1
    | some mark =>
      cases mark with
      | visiting => exact fun hclear => hclear.not_mem ((hinv.visiting next).mp hmark)
      | visited => exact h.left next hmark
  obtain ⟨hsuffix, hlooked, hbelow⟩ := h.explored
  refine ⟨⟨(List.suffix_cons _ _).trans hsuffix, fun e he => ?_, hbelow⟩, h.left⟩
  rcases hlooked e he with hmem | hhopeless
  · rcases List.mem_cons.mp hmem with rfl | hmem
    · exact Or.inr ⟨hnext.2, hclear⟩
    · exact Or.inl hmem
  · exact Or.inr hhopeless

theorem thorough_enter {node next : Fin n} {via : Option Nat} {edge : Nat} {rest : List (Nat × Fin n)}
    {below : List (Frame n)} {marks : Vector (Option Mark) n}
    (h : Thorough edges root ⟨⟨node, via, (edge, next) :: rest⟩ :: below, marks⟩) :
    Thorough edges root ⟨⟨next, some edge, edges.get next⟩ :: ⟨node, via, rest⟩ :: below,
      marks.set next (some .visiting) next.isLt⟩ := by
  -- the edge that is taken counts as one that is still looked at
  refine ⟨⟨List.suffix_refl _, fun e he => Or.inl he, h.explored⟩, fun v hv hclear => ?_⟩
  rw [get_set] at hv
  by_cases hvn : v = next
  · simp [hvn] at hv
  · rw [if_neg hvn] at hv
    exact h.left v hv (hclear.mono fun u hu => List.mem_cons_of_mem _ hu)

theorem thorough_step {w next : Walk n} (hinv : Inv edges root w) (h : Thorough edges root w)
    (hstep : step edges root w = .walking next) : Thorough edges root next := by
  obtain ⟨frames, marks⟩ := w
  rcases hinv.step_cases hstep with ⟨node, via, below, rfl, rfl⟩ | ⟨node, via, edge, v, rest, below, rfl, -, rfl⟩ |
    ⟨node, via, edge, v, rest, below, rfl, hsettled, rfl⟩
  · exact thorough_leave hinv h
  · exact thorough_enter h
  · exact thorough_pass hinv h hsettled

theorem thorough_reached {w : Walk n} (h : Reached edges root w) : Thorough edges root w := by
  induction h with
  | start => exact thorough_start
  | step hreached hstep ih => exact thorough_step (inv_reached hreached) ih hstep

end Walk

/-! ### The way along the stack -/

/-- The edges by which the frames of a stack were entered, from the bottom on, and then a way from the top. -/
def climb (frames : List (Frame n)) (way : List (Nat × Fin n)) : List (Nat × Fin n) :=
  (frames.reverse.flatMap fun f => f.via.toList.map fun i => (i, f.node)) ++ way

theorem climb_cons (f : Frame n) (below : List (Frame n)) (way : List (Nat × Fin n)) :
    climb (f :: below) way = climb below ((f.via.toList.map fun i => (i, f.node)) ++ way) := by
  simp [climb]

theorem climb_of_isPath_singleton {f : Frame n} (h : Walk.IsPath edges root [f]) (way : List (Nat × Fin n)) :
    climb [f] way = way := by
  simp [climb, h.2]

theorem wayBack_climb {f : Frame n} {below : List (Frame n)} (hpath : Walk.IsPath edges root (f :: below))
    {way : List (Nat × Fin n)} (hway : WayBack edges root f.node way) :
    WayBack edges root root (climb (f :: below) way) := by
  induction below generalizing f way with
  | nil =>
    rw [climb_of_isPath_singleton hpath]
    exact hpath.1 ▸ hway
  | cons g below ih =>
    obtain ⟨⟨i, hvia, hmem⟩, hbelow⟩ := hpath
    rw [climb_cons, hvia]
    exact ih hbelow (.step hmem hway)

/-- The nodes that the climb leads to are those of the stack above the root. -/
theorem map_snd_climb {f : Frame n} {below : List (Frame n)} (hpath : Walk.IsPath edges root (f :: below))
    (way : List (Nat × Fin n)) :
    root :: (climb (f :: below) way).map Prod.snd =
      ((f :: below).map Frame.node).reverse ++ way.map Prod.snd := by
  induction below generalizing f way with
  | nil => simp [climb_of_isPath_singleton hpath, hpath.1]
  | cons g below ih =>
    obtain ⟨⟨i, hvia, -⟩, hbelow⟩ := hpath
    rw [climb_cons, hvia]
    simpa using ih hbelow ((i, f.node) :: way)

/-- An edge decides against those after it. It was preferred to no edge but hopeless ones, so where a way takes the same
edge, what follows decides. -/
theorem least_cons {closed : List (Fin n)} {v u : Fin n} {i : Nat} {rest way : List (Nat × Fin n)}
    (hsorted : (edges.get v).Pairwise fun e e' => e.1 < e'.1) (hsuffix : (i, u) :: rest <:+ edges.get v)
    (hlooked : ∀ e ∈ edges.get v, e ∈ (i, u) :: rest ∨ Hopeless edges root closed e.2)
    (hway : way = [] ∨ u ≠ root ∧ Least edges root (u :: closed) u way) :
    Least edges root closed v ((i, u) :: way) := by
  intro other hother hsimple havoids
  obtain ⟨j, x, others, rfl, hmem, hback⟩ := hother.cons_cases
  obtain ⟨hx, hothers⟩ := List.forall_mem_cons.mp havoids
  rw [List.map_cons, List.map_cons, List.cons_lex_cons_iff]
  rcases hlooked _ hmem with htaken | ⟨hroot, hclear⟩
  · rcases List.mem_cons.mp htaken with heq | hlater
    · cases heq
      rintro (hlt | ⟨-, hlex⟩)
      · exact Nat.lt_irrefl _ hlt
      rcases hway with rfl | ⟨hu, hleast⟩
      · exact List.not_lex_nil hlex
      · obtain ⟨hfresh, hrest⟩ := List.nodup_cons.mp hsimple
        refine hleast others (hback.resolve_left hu) hrest (fun e he hclosed => ?_) hlex
        rcases List.mem_cons.mp hclosed with heq | hclosed
        · exact absurd (List.mem_map.mpr ⟨e, he, heq⟩) hfresh
        · exact hothers e he hclosed
    · have hlt : i < j := (List.pairwise_cons.mp (hsorted.sublist hsuffix.sublist)).1 _ hlater
      rintro (hgt | ⟨heq, -⟩)
      · exact Nat.lt_asymm hgt hlt
      · exact Nat.ne_of_gt hlt heq
  · exact absurd (Clear.of_wayBack (hback.resolve_left hroot) (fun hclosed => hroot (hx hclosed)) hothers) hclear

theorem least_climb (hsorted : ∀ v : Fin n, (edges.get v).Pairwise fun e e' => e.1 < e'.1) {f : Frame n}
    {below : List (Frame n)} (hpath : Walk.IsPath edges root (f :: below))
    (hsimple : ((f :: below).map Frame.node).Nodup)
    (hexplored : Walk.Explored edges root (f.via.toList.map fun i => (i, f.node)) below)
    {way : List (Nat × Fin n)} (hway : Least edges root ((f :: below).map Frame.node) f.node way) :
    Least edges root [root] root (climb (f :: below) way) := by
  induction below generalizing f way with
  | nil =>
    rw [climb_of_isPath_singleton hpath]
    simpa [hpath.1] using hway
  | cons g below ih =>
    obtain ⟨⟨i, hvia, -⟩, hbelow⟩ := hpath
    obtain ⟨hnode, hnodes⟩ := List.nodup_cons.mp hsimple
    have hroot : f.node ≠ root := fun h => hnode (h ▸ hbelow.root_mem)
    rw [hvia] at hexplored
    obtain ⟨hsuffix, hlooked, hrest⟩ := hexplored
    rw [climb_cons, hvia]
    exact ih hbelow hnodes hrest (least_cons (hsorted g.node) hsuffix hlooked (Or.inr ⟨hroot, hway⟩))

/-! ### The path that is found -/

/-- A stack is entered by an edge at every frame but the bottom one. -/
theorem Walk.IsPath.reverse_cases {f : Frame n} {below : List (Frame n)} (h : Walk.IsPath edges root (f :: below)) :
    ∃ bottom others, (f :: below).reverse = bottom :: others ∧ bottom.via = none ∧ ∀ g ∈ others, g.via ≠ none := by
  induction below generalizing f with
  | nil => exact ⟨f, [], rfl, h.2, by simp⟩
  | cons g below ih =>
    obtain ⟨⟨i, hvia, -⟩, hbelow⟩ := h
    obtain ⟨bottom, others, hreverse, hbottom, hothers⟩ := ih hbelow
    refine ⟨bottom, others ++ [f], by rw [List.reverse_cons, hreverse]; rfl, hbottom, fun g' hg' => ?_⟩
    rcases List.mem_append.mp hg' with hg' | hg'
    · exact hothers g' hg'
    · simp [List.mem_singleton.mp hg', hvia]

/-- The edges of the path from the root back to it. -/
def Closing.steps (c : Closing n) (root : Fin n) : List (Nat × Fin n) := climb c.frames [(c.edge, root)]

variable (edges root) in
/-- What the search returns: a simple path from the root, whose frames are explored, and an edge from its end back to the
root. The edges before that one are hopeless. -/
structure Found (c : Closing n) (f : Frame n) (below : List (Frame n)) : Prop where
  frames : c.frames = f :: below
  path : Walk.IsPath edges root (f :: below)
  simple : ((f :: below).map Frame.node).Nodup
  explored : Walk.Explored edges root (f.via.toList.map fun i => (i, f.node)) below
  closes : (c.edge, root) :: f.rest <:+ edges.get f.node
  looked : ∀ e ∈ edges.get f.node,
    e ∈ (c.edge, root) :: f.rest ∨ Hopeless edges root ((f :: below).map Frame.node) e.2

theorem found_of_closing? {c : Closing n} (h : closing? edges root = some c) :
    ∃ f below, Found edges root c f below := by
  have hstart : Walk.Reached edges root (Walk.start edges root) := .start
  obtain ⟨last, hlast, ⟨hrun, -⟩ | ⟨closing, hrun, hstep⟩⟩ := Walk.exists_reached_of_run hstart
  · rw [closing?, hrun] at h
    cases h
  · rw [closing?, hrun] at h
    cases h
    obtain ⟨node, via, rest, below, hlastFrames, hframes⟩ := Walk.step_closed_cases hstep
    have hinv := Walk.inv_reached hlast
    have hexplored := (Walk.thorough_reached hlast).explored
    rw [hlastFrames] at hexplored
    obtain ⟨hcloses, hlooked, hrest⟩ := hexplored
    refine ⟨⟨node, via, rest⟩, below, hframes, ?_, ?_, hrest, hcloses, hlooked⟩
    · exact Walk.IsPath.set_rest (hlastFrames ▸ hinv.path)
    · simpa [hlastFrames] using hinv.simple

namespace Found

variable {c : Closing n} {f : Frame n} {below : List (Frame n)}

theorem steps_eq (h : Found edges root c f below) : c.steps root = climb (f :: below) [(c.edge, root)] := by
  rw [Closing.steps, h.frames]

theorem wayBack (h : Found edges root c f below) : WayBack edges root root (c.steps root) := by
  rw [h.steps_eq]
  exact wayBack_climb h.path (.close (h.closes.mem List.mem_cons_self))

theorem least (h : Found edges root c f below)
    (hsorted : ∀ v : Fin n, (edges.get v).Pairwise fun e e' => e.1 < e'.1) :
    Least edges root [root] root (c.steps root) := by
  rw [h.steps_eq]
  exact least_climb hsorted h.path h.simple h.explored
    (least_cons (hsorted f.node) h.closes h.looked (Or.inl rfl))

/-- The path leads through the steps, from the last one back to the root. -/
theorem path_eq (h : Found edges root c f below) :
    c.path root = (root :: (c.steps root).map Prod.snd).reverse := by
  rw [h.steps_eq, map_snd_climb h.path, Closing.path, h.frames]
  simp

theorem nodup (h : Found edges root c f below) : ((c.steps root).map Prod.snd).Nodup := by
  have hnodes : (root :: (c.steps root).map Prod.snd).Perm (root :: (f :: below).map Frame.node) := by
    rw [h.steps_eq, map_snd_climb h.path]
    exact List.perm_append_comm.trans (((f :: below).map Frame.node).reverse_perm.cons root)
  exact hnodes.cons_inv.nodup_iff.mpr h.simple

theorem head?_steps (h : Found edges root c f below) :
    (c.steps root).head?.map Prod.fst = some c.firstEdge := by
  obtain ⟨bottom, others, hreverse, hbottom, hothers⟩ := h.path.reverse_cases
  rw [h.steps_eq, climb, Closing.firstEdge, h.frames, hreverse]
  cases others with
  | nil => simp [hbottom]
  | cons second others =>
    obtain ⟨i, hvia⟩ := Option.ne_none_iff_exists'.mp (hothers second List.mem_cons_self)
    simp [hbottom, hvia]

end Found

/-- Where the edges of every node are in order, the search finds the first simple way from the root back to it. -/
theorem closing?_least (hsorted : ∀ v : Fin n, (edges.get v).Pairwise fun e e' => e.1 < e'.1) {c : Closing n}
    (h : closing? edges root = some c) :
    WayBack edges root root (c.steps root) ∧ ((c.steps root).map Prod.snd).Nodup ∧
    ∀ other, WayBack edges root root other → (other.map Prod.snd).Nodup →
      ¬ List.Lex (· < ·) (other.map Prod.fst) ((c.steps root).map Prod.fst) := by
  obtain ⟨f, below, hfound⟩ := found_of_closing? h
  exact ⟨hfound.wayBack, hfound.nodup, fun other hother hsimple =>
    hfound.least hsorted other hother hsimple fun e _ he => List.mem_singleton.mp he⟩

end BuildScheduling.CycleSearch
