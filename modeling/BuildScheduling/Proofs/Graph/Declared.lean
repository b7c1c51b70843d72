import Mathlib.Data.List.FinRange
import BuildScheduling.Graph.Basic
import BuildScheduling.Proofs.Graph.CycleSearch

/-!
# The graph and the declared pipelines

What the graph makes of a list of declarations, said in terms of the declarations themselves: its nodes are
the first declarations, whose names differ (`pipelines_eq_firstDeclarations`). The links that it has collected give
every node the edges to the pipelines that its own materials name (`get_edges`), so it has an edge from one node to
another exactly when a dependency material of the one names the other (`edge_edges_iff`), and a node lies on a cycle
of the search exactly when its pipeline waits for itself over one dependency or more (`isSome_cycleError?_iff`).
-/

namespace BuildScheduling

open Relation (TransGen)

/-! ### Declarations -/

/-- The declarations whose name was not declared before. -/
def firstDeclarations (seen : List PipelineName) : List Pipeline → List Pipeline
  | [] => []
  | p :: rest =>
    if seen.any p.name.same then firstDeclarations seen rest
    else p :: firstDeclarations (p.name :: seen) rest

/-- The declarations whose name was declared before. -/
def repeatedDeclarations (seen : List PipelineName) : List Pipeline → List Pipeline
  | [] => []
  | p :: rest =>
    if seen.any p.name.same then p :: repeatedDeclarations seen rest
    else repeatedDeclarations (p.name :: seen) rest

/-- No two of the pipelines share a name. -/
def Distinct (pipelines : List Pipeline) : Prop :=
  pipelines.Pairwise fun p q => p.name.same q.name = false

instance (pipelines : List Pipeline) : Decidable (Distinct pipelines) :=
  inferInstanceAs (Decidable (List.Pairwise _ _))

/-- One of the pipelines waits for another: one of its dependency materials names it. -/
def WaitsFor (pipelines : List Pipeline) (p q : Pipeline) : Prop :=
  p ∈ pipelines ∧ q ∈ pipelines ∧
    ∃ m ∈ p.materials, ∃ named stage, m.source = .dependency named stage ∧ q.name.same named = true

theorem Distinct.eq_of_same {pipelines : List Pipeline} (h : Distinct pipelines) {p q : Pipeline}
    (hp : p ∈ pipelines) (hq : q ∈ pipelines) (hsame : p.name.same q.name = true) : p = q := by
  induction pipelines with
  | nil => simp at hp
  | cons a rest ih =>
    obtain ⟨ha, hrest⟩ := List.pairwise_cons.mp h
    rcases List.mem_cons.mp hp with rfl | hp' <;> rcases List.mem_cons.mp hq with rfl | hq'
    · rfl
    · simp [ha q hq'] at hsame
    · rw [Name.same_comm] at hsame
      simp [ha p hp'] at hsame
    · exact ih hrest hp' hq'

theorem Distinct.find?_eq_some_iff {pipelines : List Pipeline} (h : Distinct pipelines)
    {name : PipelineName} {p : Pipeline} :
    pipelines.find? (fun p => p.name.same name) = some p ↔ p ∈ pipelines ∧ p.name.same name = true := by
  have hfound : ∀ q, pipelines.find? (fun p => p.name.same name) = some q →
      q ∈ pipelines ∧ q.name.same name = true := fun q hq =>
    ⟨List.mem_of_find?_eq_some hq, List.find?_some (p := fun p : Pipeline => p.name.same name) hq⟩
  refine ⟨hfound p, fun ⟨hp, hname⟩ => ?_⟩
  cases hfind : pipelines.find? fun p => p.name.same name with
  | none => exact absurd hname (List.find?_eq_none.mp hfind p hp)
  | some q =>
    obtain ⟨hq, hqname⟩ := hfound q hfind
    rw [Name.same_comm] at hname
    rw [h.eq_of_same hq hp (Name.same_trans hqname hname)]

theorem any_same_eq_false_iff {seen : List PipelineName} {name : PipelineName} :
    seen.any name.same = false ↔ ∀ n ∈ seen, name.same n = false := by
  simp

theorem not_same_of_mem_firstDeclarations {seen : List PipelineName} {declared : List Pipeline}
    {p : Pipeline} (hp : p ∈ firstDeclarations seen declared) : ∀ n ∈ seen, p.name.same n = false := by
  induction declared generalizing seen with
  | nil => simp [firstDeclarations] at hp
  | cons q rest ih =>
    rw [firstDeclarations] at hp
    split at hp
    · exact ih hp
    · next hq =>
      rcases List.mem_cons.mp hp with rfl | hp
      · exact any_same_eq_false_iff.mp (by simpa using hq)
      · exact fun n hn => ih hp n (List.mem_cons_of_mem _ hn)

theorem distinct_firstDeclarations (seen : List PipelineName) (declared : List Pipeline) :
    Distinct (firstDeclarations seen declared) := by
  induction declared generalizing seen with
  | nil => exact List.Pairwise.nil
  | cons p rest ih =>
    rw [firstDeclarations]
    split
    · exact ih seen
    · refine List.pairwise_cons.mpr ⟨fun q hq => ?_, ih _⟩
      rw [Name.same_comm]
      exact not_same_of_mem_firstDeclarations hq p.name List.mem_cons_self

/-- No declaration is repeated when the names are distinct and not taken already. -/
theorem repeatedDeclarations_eq_nil_iff {seen : List PipelineName} {declared : List Pipeline} :
    repeatedDeclarations seen declared = [] ↔
      (∀ p ∈ declared, ∀ n ∈ seen, p.name.same n = false) ∧ Distinct declared := by
  induction declared generalizing seen with
  | nil => simp [repeatedDeclarations, Distinct]
  | cons p rest ih =>
    rw [repeatedDeclarations, Distinct, List.pairwise_cons, List.forall_mem_cons]
    split
    · next hp =>
      have : ¬ ∀ n ∈ seen, p.name.same n = false := by
        rw [← any_same_eq_false_iff]
        simp [hp]
      simp [this]
    · next hp =>
      have hp := any_same_eq_false_iff.mp (by simpa using hp)
      rw [ih]
      simp only [List.forall_mem_cons]
      constructor
      · rintro ⟨hrest, hdistinct⟩
        refine ⟨⟨hp, fun q hq => (hrest q hq).2⟩, fun q hq => ?_, hdistinct⟩
        rw [Name.same_comm]
        exact (hrest q hq).1
      · rintro ⟨⟨-, hrest⟩, hname, hdistinct⟩
        refine ⟨fun q hq => ⟨?_, hrest q hq⟩, hdistinct⟩
        rw [Name.same_comm]
        exact hname q hq

theorem firstDeclarations_eq_self {seen : List PipelineName} {declared : List Pipeline}
    (h : repeatedDeclarations seen declared = []) : firstDeclarations seen declared = declared := by
  induction declared generalizing seen with
  | nil => rfl
  | cons p rest ih =>
    rw [repeatedDeclarations] at h
    rw [firstDeclarations]
    split at h
    · simp at h
    · next hp => rw [if_neg hp, ih h]

theorem mem_dependencies_iff {p : Pipeline} {d : Dependency} :
    d ∈ p.dependencies ↔
      ∃ m, p.materials[d.materialIndex]? = some m ∧ m.source = .dependency d.pipeline d.stage := by
  obtain ⟨i, named, stage⟩ := d
  simp only [Pipeline.dependencies, List.mem_filterMap, Prod.exists, List.mem_zipIdx_iff_getElem?,
    Option.map_eq_some_iff, Dependency.mk.injEq, Material.dependency?_eq_some_iff]
  constructor
  · rintro ⟨m, j, hj, u, s, hsource, rfl, rfl, rfl⟩
    exact ⟨m, hj, hsource⟩
  · rintro ⟨m, hm, hsource⟩
    exact ⟨m, i, hm, named, stage, hsource, rfl, rfl, rfl⟩

/-- The dependencies of a pipeline are what its dependency materials name. -/
theorem exists_mem_dependencies_iff {p : Pipeline} {named : PipelineName} {stage : StageName} :
    (∃ d ∈ p.dependencies, d.pipeline = named ∧ d.stage = stage) ↔
      ∃ m ∈ p.materials, m.source = .dependency named stage := by
  constructor
  · rintro ⟨d, hd, rfl, rfl⟩
    obtain ⟨m, hm, hsource⟩ := mem_dependencies_iff.mp hd
    exact ⟨m, List.mem_of_getElem? hm, hsource⟩
  · rintro ⟨m, hm, hsource⟩
    obtain ⟨i, hi⟩ := List.mem_iff_getElem?.mp hm
    exact ⟨⟨i, named, stage⟩, mem_dependencies_iff.mpr ⟨m, hi, hsource⟩, rfl, rfl⟩

/-- The dependencies of a pipeline are in the order of its materials. -/
theorem pairwise_dependencies (p : Pipeline) :
    p.dependencies.Pairwise fun d d' => d.materialIndex < d'.materialIndex := by
  have hindexes : p.materials.zipIdx.Pairwise fun a b => a.2 < b.2 := by
    rw [← List.pairwise_map (f := Prod.snd), List.zipIdx_map_snd]
    exact List.pairwise_lt_range'
  refine hindexes.filterMap _ ?_
  rintro ⟨m, i⟩ ⟨m', i'⟩ hlt d hd d' hd'
  obtain ⟨_, -, rfl⟩ := Option.map_eq_some_iff.mp hd
  obtain ⟨_, -, rfl⟩ := Option.map_eq_some_iff.mp hd'
  exact hlt

/-- A list without repetition of which one member alone gives anything gives what this member gives. -/
theorem flatMap_eq_of_forall_ne {α β : Type} {l : List α} (hl : l.Nodup) {a : α} (ha : a ∈ l) {f : α → List β}
    (hf : ∀ b, b ≠ a → f b = []) : l.flatMap f = f a := by
  induction l with
  | nil => exact absurd ha List.not_mem_nil
  | cons b rest ih =>
    obtain ⟨hb, hrest⟩ := List.nodup_cons.mp hl
    rw [List.flatMap_cons]
    rcases List.mem_cons.mp ha with rfl | ha
    · rw [List.flatMap_eq_nil_iff.mpr fun c hc => hf c fun hca => hb (hca ▸ hc), List.append_nil]
    · rw [hf b fun hba => hb (hba ▸ ha), List.nil_append, ih hrest ha]

namespace Graph

/-! ### Nodes -/

/-- Declaring pipelines one after another adds those whose names are new. -/
theorem foldl_declare (g : Graph) {seen : List PipelineName}
    (hseen : ∀ name : PipelineName, g.index.contains name = seen.any name.same) (declared : List Pipeline) :
    (declared.foldl declare g).pipelines = g.pipelines ++ firstDeclarations seen declared ∧
      (declared.foldl declare g).repeated = g.repeated ++ repeatedDeclarations seen declared := by
  induction declared generalizing g seen with
  | nil => simp [firstDeclarations, repeatedDeclarations]
  | cons p rest ih =>
    rw [List.foldl_cons, firstDeclarations, repeatedDeclarations]
    by_cases htaken : seen.any p.name.same = true
    · have hdeclare : g.declare p = { g with repeated := g.repeated ++ [p] } :=
        dif_pos ((hseen p.name).trans htaken)
      rw [if_pos htaken, if_pos htaken, hdeclare]
      obtain ⟨hfirst, hrepeated⟩ := ih { g with repeated := g.repeated ++ [p] } hseen
      exact ⟨hfirst, hrepeated.trans (by simp)⟩
    · have hfree : ¬ g.index.contains p.name = true := by rwa [hseen]
      have hseen' : ∀ name : PipelineName,
          (g.declare p).index.contains name = (p.name :: seen).any name.same := by
        intro name
        rw [declare, dif_neg hfree, List.any_cons, ← hseen, SortedMap.contains_eq_isSome_get?,
          SortedMap.contains_eq_isSome_get?, Name.get?_insert]
        cases name.same p.name <;> rfl
      obtain ⟨hfirst, hrepeated⟩ := ih (g.declare p) hseen'
      rw [if_neg htaken, if_neg htaken, hfirst, hrepeated, declare, dif_neg hfree]
      simp

theorem pipelines_eq_firstDeclarations (declared : List Pipeline) :
    (ofPipelines declared).pipelines = firstDeclarations [] declared :=
  (foldl_declare empty (fun _ => rfl) declared).1

theorem repeated_eq_repeatedDeclarations (declared : List Pipeline) :
    (ofPipelines declared).repeated = repeatedDeclarations [] declared :=
  (foldl_declare empty (fun _ => rfl) declared).2

theorem distinct_pipelines (declared : List Pipeline) : Distinct (ofPipelines declared).pipelines :=
  pipelines_eq_firstDeclarations declared ▸ distinct_firstDeclarations [] declared

variable {g : Graph}

theorem node?_eq_some_iff (hg : Distinct g.pipelines) {name : PipelineName} {v : g.Node} :
    g.node? name = some v ↔ (g.pipelines.get v).name.same name = true := by
  rw [node?_eq_findFinIdx?, List.findFinIdx?_eq_some_iff]
  refine ⟨And.left, fun h => ⟨h, fun u huv hu => ?_⟩⟩
  have hdiffer := List.pairwise_iff_getElem.mp hg u v (by omega) v.isLt huv
  rw [Name.same_comm] at h
  exact Bool.false_ne_true (hdiffer.symm.trans (Name.same_trans hu h))

/-! ### Edges -/

theorem pairwise_edgesOf (g : Graph) (p : Pipeline) : (g.edgesOf p).Pairwise fun e e' => e.1 < e'.1 := by
  refine (pairwise_dependencies p).filterMap _ ?_
  rintro d d' hlt e he e' he'
  obtain ⟨_, -, rfl⟩ := Option.map_eq_some_iff.mp he
  obtain ⟨_, -, rfl⟩ := Option.map_eq_some_iff.mp he'
  exact hlt

theorem mem_linksOf_iff {v : g.Node} {l : Link g.pipelines.length} :
    l ∈ g.linksOf v ↔ l.dependent = v ∧ (l.materialIndex, l.needed) ∈ g.edgesOf (g.pipelines.get v) := by
  obtain ⟨needed, dependent, materialIndex⟩ := l
  simp only [linksOf, List.mem_map, Prod.exists, Link.mk.injEq]
  constructor
  · rintro ⟨_, _, he, rfl, rfl, rfl⟩
    exact ⟨rfl, he⟩
  · rintro ⟨rfl, he⟩
    exact ⟨_, _, he, rfl, rfl, rfl⟩

/-- The links are the edges of all nodes. -/
theorem mem_links_iff {l : Link g.pipelines.length} :
    l ∈ g.links ↔ (l.materialIndex, l.needed) ∈ g.edgesOf (g.pipelines.get l.dependent) := by
  simp only [links, List.mem_flatMap, List.mem_finRange, true_and, mem_linksOf_iff, exists_eq_left']

/-- Picking the links of a node out of all links, and sorting them, gives back the edges of the node. -/
theorem get_edges (g : Graph) (v : g.Node) : g.edges.get v = g.edgesOf (g.pipelines.get v) := by
  have hown : (g.linksOf v).filter (fun l => l.dependent == v) = g.linksOf v :=
    List.filter_eq_self.mpr fun l hl => beq_iff_eq.mpr (mem_linksOf_iff.mp hl).1
  have hothers : ∀ u, u ≠ v → (g.linksOf u).filter (fun l => l.dependent == v) = [] := fun u huv =>
    List.filter_eq_nil_iff.mpr fun l hl hv => huv ((mem_linksOf_iff.mp hl).1.symm.trans (beq_iff_eq.mp hv))
  have hlinks : (g.links.filter fun l => l.dependent == v).map (fun l => (l.materialIndex, l.needed)) =
      g.edgesOf g.pipelines[v] := by
    rw [links, List.filter_flatMap, flatMap_eq_of_forall_ne (List.nodup_finRange _) (List.mem_finRange v) hothers,
      hown, linksOf, List.map_map]
    exact List.map_id' _
  show (Vector.ofFn _)[v] = g.edgesOf g.pipelines[v]
  simp only [Fin.getElem_fin, Vector.getElem_ofFn]
  rw [hlinks]
  exact List.mergeSort_of_pairwise ((g.pairwise_edgesOf _).imp fun hlt => decide_eq_true (Nat.le_of_lt hlt))

/-- The edges are the dependency materials that name a declared pipeline. -/
theorem mem_edges_iff {v u : g.Node} {i : Nat} :
    (i, u) ∈ g.edges.get v ↔
      ∃ d ∈ (g.pipelines.get v).dependencies, d.materialIndex = i ∧ g.node? d.pipeline = some u := by
  simp only [get_edges, edgesOf, List.mem_filterMap, Option.map_eq_some_iff, Prod.mk.injEq]
  constructor
  · rintro ⟨d, hd, w, hw, rfl, rfl⟩
    exact ⟨d, hd, rfl, hw⟩
  · rintro ⟨d, hd, rfl, hu⟩
    exact ⟨d, hd, u, hu, rfl, rfl⟩

theorem edge_edges_iff (hg : Distinct g.pipelines) {v u : g.Node} :
    CycleSearch.Edge g.edges v u ↔ WaitsFor g.pipelines (g.pipelines.get v) (g.pipelines.get u) := by
  simp only [CycleSearch.Edge, mem_edges_iff, node?_eq_some_iff hg]
  constructor
  · rintro ⟨i, d, hd, -, hu⟩
    obtain ⟨m, hm, hsource⟩ := exists_mem_dependencies_iff.mp ⟨d, hd, rfl, rfl⟩
    exact ⟨List.getElem_mem _, List.getElem_mem _, m, hm, d.pipeline, d.stage, hsource, hu⟩
  · rintro ⟨-, -, m, hm, named, stage, hsource, hu⟩
    obtain ⟨d, hd, rfl, -⟩ := exists_mem_dependencies_iff.mpr ⟨m, hm, hsource⟩
    exact ⟨d.materialIndex, d, hd, rfl, hu⟩

theorem transGen_edge_iff (hg : Distinct g.pipelines) {v u : g.Node} :
    TransGen (CycleSearch.Edge g.edges) v u ↔
      TransGen (WaitsFor g.pipelines) (g.pipelines.get v) (g.pipelines.get u) := by
  constructor
  · intro h
    induction h with
    | single he => exact .single ((edge_edges_iff hg).mp he)
    | tail _ he ih => exact ih.tail ((edge_edges_iff hg).mp he)
  · intro h
    -- the chain may end at any pipeline, so that its nodes can be found one after another
    suffices ∀ q, TransGen (WaitsFor g.pipelines) (g.pipelines.get v) q → ∀ u : g.Node,
        g.pipelines.get u = q → TransGen (CycleSearch.Edge g.edges) v u from this _ h u rfl
    intro q h
    induction h with
    | single hw =>
      rintro u rfl
      exact .single ((edge_edges_iff hg).mpr hw)
    | tail _ hw ih =>
      rintro u rfl
      obtain ⟨i, hi, hget⟩ := List.mem_iff_getElem.mp hw.1
      subst hget
      exact (ih ⟨i, hi⟩ rfl).tail ((edge_edges_iff hg).mpr hw)

/-- A node has a cycle error exactly when its pipeline waits for itself. -/
theorem isSome_cycleError?_iff (hg : Distinct g.pipelines) {root : g.Node} :
    (g.cycleError? g.edges root).isSome ↔
      TransGen (WaitsFor g.pipelines) (g.pipelines.get root) (g.pipelines.get root) := by
  rw [cycleError?, Option.isSome_map, CycleSearch.closing?_isSome_iff, transGen_edge_iff hg]

end Graph

end BuildScheduling
