import BuildScheduling.SortedMap.Lemmas
import BuildScheduling.Proofs.Graph.CycleErrors

/-!
# The graph as the declared relation

What can be asked of a graph, said in terms of the configuration that it was made of. The index leads from a name to
the pipeline that it stands for in the configuration (`pipeline?_ofPipelines`). The neighbours of a name on either side
are picked out of the same links, and a link joins two nodes when there is an edge between them (`exists_link_iff`);
what that comes to is one relation on names, `Configuration.Needs`. So a pipeline is among the dependents of another
exactly when that one is among its prerequisites. A second declaration of a name and a reference to nobody contribute
nothing; the spelling of a reference and the stage that it names make no difference.
-/

namespace BuildScheduling

/-- The pipeline that one name stands for has a dependency material that names another, and this one is declared too. -/
def Configuration.Needs (c : Configuration) (name needed : PipelineName) : Prop :=
  ∃ p q, c.pipeline? name = some p ∧ c.pipeline? needed = some q ∧
    ∃ m ∈ p.materials, ∃ named stage, m.source = .dependency named stage ∧ named.same needed = true

/-! ### Names of the nodes -/

/-- A name that is not taken yet stands for the same pipeline without the repeated declarations. -/
theorem find?_firstDeclarations {seen : List PipelineName} {declared : List Pipeline} {name : PipelineName}
    (h : ∀ n ∈ seen, n.same name = false) :
    (firstDeclarations seen declared).find? (fun p => p.name.same name) =
      declared.find? fun p => p.name.same name := by
  induction declared generalizing seen with
  | nil => rfl
  | cons p rest ih =>
    rw [firstDeclarations]
    by_cases hseen : seen.any p.name.same = true
    · obtain ⟨n, hn, hsame⟩ := List.any_eq_true.mp hseen
      have hother : p.name.same name = false := by
        rw [Bool.eq_false_iff]
        intro hp
        rw [Name.same_comm] at hsame
        exact Bool.false_ne_true ((h n hn).symm.trans (Name.same_trans hsame hp))
      rw [if_pos hseen, ih h, List.find?_cons_of_neg (by simp [hother])]
    · rw [if_neg hseen]
      by_cases hp : p.name.same name = true
      · rw [List.find?_cons_of_pos (by exact hp), List.find?_cons_of_pos (by exact hp)]
      · rw [List.find?_cons_of_neg (by exact hp), List.find?_cons_of_neg (by exact hp)]
        exact ih (List.forall_mem_cons.mpr ⟨by simpa using hp, h⟩)

namespace Graph

theorem pipeline?_ofPipelines (c : Configuration) (name : PipelineName) :
    (ofPipelines c.pipelines).pipeline? name = c.pipeline? name := by
  rw [pipeline?_eq_find?, pipelines_eq_firstDeclarations]
  exact find?_firstDeclarations (by simp)

theorem contains_ofPipelines_iff {c : Configuration} {name : PipelineName} :
    (ofPipelines c.pipelines).contains name = true ↔ ∃ p ∈ c.pipelines, p.name.same name = true := by
  rw [contains_eq_isSome_pipeline?, pipeline?_ofPipelines, Configuration.pipeline?, List.find?_isSome]

variable {g : Graph}

/-! ### Neighbours -/

/-- The names of a set are those of the list that it was made of, up to their spelling. -/
theorem exists_same_mem_keys_iff {names : List PipelineName} {name : PipelineName} :
    (∃ n ∈ (SortedSet.ofList names).keys, n.same name = true) ↔ ∃ n ∈ names, n.same name = true := by
  have hcompare : ∀ n : PipelineName, n.same name = true ↔ compare name n = .eq := fun n => by
    rw [Name.same_comm, Name.same_iff_compare]
  simp only [hcompare]
  rw [← SortedMap.contains_iff_exists_key, SortedMap.contains_ofList]

theorem mem_of_mem_keys_ofList {names : List PipelineName} {name : PipelineName}
    (h : name ∈ (SortedSet.ofList names).keys) : name ∈ names := by
  obtain ⟨e, he, rfl⟩ := List.mem_map.mp h
  obtain ⟨n, hn, rfl⟩ := List.mem_map.mp (SortedMap.mem_of_mem_ofFirsts he)
  exact hn

/-- A name is among the neighbours of another one when a link joins their nodes. -/
theorem exists_mem_neighbours_iff {near far : Link g.pipelines.length → g.Node} {name other : PipelineName} :
    (∃ n ∈ g.neighbours near far name, n.same other = true) ↔
      ∃ l ∈ g.links, g.node? name = some (near l) ∧ (g.pipelines.get (far l)).name.same other = true := by
  unfold neighbours
  cases g.node? name with
  | none => simp
  | some v =>
    simp only [exists_same_mem_keys_iff, List.mem_map, List.mem_filter, beq_iff_eq, Option.some.injEq]
    constructor
    · rintro ⟨_, ⟨l, ⟨hl, hnear⟩, rfl⟩, hsame⟩
      exact ⟨l, hl, hnear.symm, hsame⟩
    · rintro ⟨l, hl, rfl, hsame⟩
      exact ⟨_, ⟨l, ⟨hl, rfl⟩, rfl⟩, hsame⟩

/-- Two names that stand for nodes with an edge between them. -/
def Joined (g : Graph) (name needed : PipelineName) : Prop :=
  ∃ v u, g.node? name = some v ∧ g.node? needed = some u ∧ CycleSearch.Edge g.edges v u

/-- A link joins the nodes of two names when there is an edge between them. -/
theorem exists_link_iff {name needed : PipelineName} :
    (∃ l ∈ g.links, g.node? name = some l.dependent ∧ g.node? needed = some l.needed) ↔ g.Joined name needed := by
  simp only [mem_links_iff, ← get_edges]
  constructor
  · rintro ⟨l, hl, hname, hneeded⟩
    exact ⟨_, _, hname, hneeded, _, hl⟩
  · rintro ⟨v, u, hname, hneeded, i, he⟩
    exact ⟨⟨u, v, i⟩, he, hname, hneeded⟩

theorem exists_mem_prerequisites_iff (hg : Distinct g.pipelines) {name needed : PipelineName} :
    (∃ n ∈ g.prerequisites name, n.same needed = true) ↔ g.Joined name needed := by
  rw [prerequisites, exists_mem_neighbours_iff, ← exists_link_iff]
  simp only [node?_eq_some_iff hg]

theorem exists_mem_dependents_iff (hg : Distinct g.pipelines) {name needed : PipelineName} :
    (∃ n ∈ g.dependents needed, n.same name = true) ↔ g.Joined name needed := by
  rw [dependents, exists_mem_neighbours_iff, ← exists_link_iff]
  simp only [node?_eq_some_iff hg, and_comm]

theorem joined_ofPipelines_iff {c : Configuration} {name needed : PipelineName} :
    (ofPipelines c.pipelines).Joined name needed ↔ c.Needs name needed := by
  have hg := distinct_pipelines c.pipelines
  simp only [Configuration.Needs, ← pipeline?_ofPipelines, pipeline?, Option.map_eq_some_iff, Joined,
    edge_edges_iff hg]
  constructor
  · rintro ⟨v, u, hv, hu, -, -, m, hm, named, stage, hsource, hnamed⟩
    refine ⟨_, _, ⟨v, hv, rfl⟩, ⟨u, hu, rfl⟩, m, hm, named, stage, hsource, ?_⟩
    rwa [Name.same_comm, ← Name.same_congr ((node?_eq_some_iff hg).mp hu)]
  · rintro ⟨_, _, ⟨v, hv, rfl⟩, ⟨u, hu, rfl⟩, m, hm, named, stage, hsource, hnamed⟩
    refine ⟨v, u, hv, hu, List.getElem_mem _, List.getElem_mem _, m, hm, named, stage, hsource, ?_⟩
    rwa [Name.same_congr ((node?_eq_some_iff hg).mp hu), Name.same_comm]

/-- Names of nodes, as they were first declared, in name order and each of them once. -/
structure Lists (g : Graph) (names : List PipelineName) : Prop where
  ordered : names.Pairwise fun a b => compare a b = .lt
  declared : ∀ name ∈ names, ∃ p ∈ g.pipelines, p.name = name

theorem lists_neighbours (g : Graph) (near far : Link g.pipelines.length → g.Node) (name : PipelineName) :
    g.Lists (g.neighbours near far name) := by
  unfold neighbours
  cases g.node? name with
  | none => exact ⟨.nil, by simp⟩
  | some v =>
    refine ⟨SortedMap.pairwise_keys _, fun n hn => ?_⟩
    obtain ⟨l, -, rfl⟩ := List.mem_map.mp (mem_of_mem_keys_ofList hn)
    exact ⟨_, List.getElem_mem _, rfl⟩

end Graph

/-- The graph of a configuration represents its declarations. Its pipelines are the first declarations, in order; a
name stands for the same pipeline as in the configuration, and is contained when a declaration goes by it. One name is
among the dependents of another exactly when that one is among its prerequisites, and exactly when the one needs the
other. Both are lists of declared names, in name order and each of them once. -/
theorem graph_represents_declared_relation (c : Configuration) :
    let g := Graph.ofPipelines c.pipelines
    g.pipelines = c.pipelines.eraseDupsBy Pipeline.sameName ∧
    (∀ name, g.pipeline? name = c.pipeline? name ∧
      ((g.pipeline? name).isSome ↔ g.contains name = true) ∧
      (g.contains name = true ↔ ∃ p ∈ c.pipelines, p.name.same name = true)) ∧
    (∀ name needed,
      ((∃ n ∈ g.dependents needed, n.same name = true) ↔ c.Needs name needed) ∧
      ((∃ n ∈ g.prerequisites name, n.same needed = true) ↔ c.Needs name needed)) ∧
    ∀ name, g.Lists (g.dependents name) ∧ g.Lists (g.prerequisites name) := by
  intro g
  have hg := Graph.distinct_pipelines c.pipelines
  refine ⟨Graph.pipelines_eq_eraseDupsBy c.pipelines, fun name => ⟨Graph.pipeline?_ofPipelines c name,
    by rw [Graph.contains_eq_isSome_pipeline?], Graph.contains_ofPipelines_iff⟩, fun name needed => ?_,
    fun name => ⟨g.lists_neighbours _ _ name, g.lists_neighbours _ _ name⟩⟩
  rw [← Graph.joined_ofPipelines_iff]
  exact ⟨Graph.exists_mem_dependents_iff hg, Graph.exists_mem_prerequisites_iff hg⟩

end BuildScheduling
