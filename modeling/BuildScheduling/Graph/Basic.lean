import BuildScheduling.Pipeline
import BuildScheduling.ConfigError
import BuildScheduling.Graph.CycleSearch

/-!
# The dependency graph

The nodes are the pipelines of a configuration, each name under its first declaration, and an index leads from
names to nodes; both grow with the declarations (`Graph.declare`). After that, each dependency material is a link
from the pipeline that it waits for to the pipeline that declares it; one that waits for a pipeline nobody
declares is no link, one that waits for a missing stage is. The neighbours of a pipeline and the edges that the
search for cycles follows are picked out of the links. `Graph.errors` is everything that is wrong with names,
references and cycles.
-/

namespace BuildScheduling

structure Graph where
  /-- The first declaration of every name, in declaration order. -/
  pipelines : List Pipeline
  /-- The declarations of a name that was already taken. -/
  repeated : List Pipeline
  /-- Where the pipeline of a name stands. -/
  index : NameMap Nat
  /-- A name leads, under any spelling, to the first pipeline that has it. -/
  indexed : ∀ name, index.get? name = pipelines.findIdx? fun p => p.name.same name
  deriving DecidableEq

namespace Graph

/-! ## Nodes -/

abbrev Node (g : Graph) := Fin g.pipelines.length

def empty : Graph := ⟨[], [], ∅, fun _ => rfl⟩

theorem lt_length_of_get?_index {g : Graph} {name : PipelineName} {i : Nat} (h : g.index.get? name = some i) :
    i < g.pipelines.length := by
  rw [g.indexed, List.findIdx?_eq_some_iff_getElem] at h
  exact h.1

def node? (g : Graph) (name : PipelineName) : Option g.Node :=
  (g.index.get? name).pmap Fin.mk fun _ => lt_length_of_get?_index

def pipeline? (g : Graph) (name : PipelineName) : Option Pipeline := (g.node? name).map g.pipelines.get

def contains (g : Graph) (name : PipelineName) : Bool := g.index.contains name

def size (g : Graph) : Nat := g.pipelines.length

theorem node?_eq_findFinIdx? (g : Graph) (name : PipelineName) :
    g.node? name = g.pipelines.findFinIdx? fun p => p.name.same name := by
  have hplace : (g.node? name).map Fin.val = (g.pipelines.findFinIdx? fun p => p.name.same name).map Fin.val := by
    rw [node?, Option.map_pmap, Option.pmap_eq_map, Option.map_id', g.indexed, List.findIdx?_eq_map_findFinIdx?_val]
  exact Option.map_inj_right (fun _ _ => Fin.ext) |>.mp hplace

theorem pipeline?_eq_find? (g : Graph) (name : PipelineName) :
    g.pipeline? name = g.pipelines.find? fun p => p.name.same name := by
  rw [pipeline?, node?_eq_findFinIdx?, List.find?_eq_map_findFinIdx?_getElem]
  rfl

theorem contains_eq_isSome_pipeline? (g : Graph) (name : PipelineName) :
    g.contains name = (g.pipeline? name).isSome := by
  rw [contains, SortedMap.contains_eq_isSome_get?, pipeline?, node?, Option.isSome_map, Option.isSome_pmap]

/-! ## Declarations -/

/-- A pipeline after those that are there is found under its name, unless that was taken. -/
theorem findIdx?_concat {pipelines : List Pipeline} {p : Pipeline} {name : PipelineName}
    (hfree : pipelines.findIdx? (fun q => q.name.same p.name) = none) :
    (pipelines ++ [p]).findIdx? (fun q => q.name.same name) =
      if name.same p.name then some pipelines.length else pipelines.findIdx? fun q => q.name.same name := by
  rw [List.findIdx?_append, List.findIdx?_singleton, Name.same_comm p.name]
  by_cases hsame : name.same p.name = true
  · have hnone : pipelines.findIdx? (fun q => q.name.same name) = none := by
      simpa only [Name.same_congr_right hsame] using hfree
    simp [hsame, hnone]
  · simp [hsame]

/-- Adds a pipeline, if its name is not taken. -/
def declare (g : Graph) (p : Pipeline) : Graph :=
  if htaken : g.index.contains p.name then { g with repeated := g.repeated ++ [p] }
  else
    { pipelines := g.pipelines ++ [p]
      repeated := g.repeated
      index := g.index.insert p.name g.pipelines.length
      indexed := fun name => by
        have hfree : g.index.get? p.name = none := by
          simpa [SortedMap.contains_eq_isSome_get?] using htaken
        rw [g.indexed] at hfree
        rw [Name.get?_insert, findIdx?_concat hfree, g.indexed] }

def ofPipelines (declared : List Pipeline) : Graph := declared.foldl declare empty

/-! ## Links -/

/-- The edges from a pipeline to the nodes that it waits for, each with the index of its material. -/
def edgesOf (g : Graph) (p : Pipeline) : List (Nat × g.Node) :=
  p.dependencies.filterMap fun d => (g.node? d.pipeline).map fun v => (d.materialIndex, v)

/-- A node waits for another one, by one of its materials. -/
structure Link (n : Nat) where
  needed : Fin n
  dependent : Fin n
  materialIndex : Nat

def linksOf (g : Graph) (v : g.Node) : List (Link g.pipelines.length) :=
  (g.edgesOf g.pipelines[v]).map fun e => ⟨e.2, v, e.1⟩

/-- The links of all nodes, in declaration order. -/
def links (g : Graph) : List (Link g.pipelines.length) :=
  (List.finRange g.pipelines.length).flatMap g.linksOf

/-- The edges of every node to the nodes that it waits for, in the order of its materials. -/
def edges (g : Graph) : CycleSearch.Edges g.pipelines.length :=
  let links := g.links
  Vector.ofFn fun v =>
    ((links.filter fun l => l.dependent == v).map fun l => (l.materialIndex, l.needed)).mergeSort fun e e' =>
      e.1 ≤ e'.1

/-- The nodes at the far ends of the links that have a node at their near end, by name and in name order. -/
def neighbours (g : Graph) (near far : Link g.pipelines.length → g.Node) (name : PipelineName) :
    List PipelineName :=
  match g.node? name with
  | none => []
  | some v => (SortedSet.ofList ((g.links.filter fun l => near l == v).map fun l => g.pipelines[far l].name)).keys

/-- The pipelines that a pipeline waits for. -/
def prerequisites (g : Graph) (name : PipelineName) : List PipelineName :=
  g.neighbours Link.dependent Link.needed name

/-- The pipelines that wait for a pipeline. -/
def dependents (g : Graph) (name : PipelineName) : List PipelineName :=
  g.neighbours Link.needed Link.dependent name

/-! ## Errors -/

def duplicateErrors (g : Graph) : List ConfigError :=
  g.repeated.map fun p => { pipeline := p.name, kind := .duplicatePipeline }

def referenceError? (g : Graph) (p : Pipeline) (d : Dependency) : Option ConfigError :=
  match g.pipeline? d.pipeline with
  | none =>
    some { pipeline := p.name, materialIndex := some d.materialIndex
           kind := .unknownPipeline d.pipeline }
  | some named =>
    if named.hasStage d.stage then none
    else
      some { pipeline := p.name, materialIndex := some d.materialIndex
             kind := .unknownStage d.pipeline d.stage }

def referenceErrors (g : Graph) : List ConfigError :=
  g.pipelines.flatMap fun p => p.dependencies.filterMap (g.referenceError? p)

/-- The error of a node that waits for itself, over one dependency or more. -/
def cycleError? (g : Graph) (edges : CycleSearch.Edges g.pipelines.length) (root : g.Node) :
    Option ConfigError :=
  (CycleSearch.closing? edges root).map fun closing =>
    { pipeline := g.pipelines[root].name
      materialIndex := some closing.firstEdge
      kind := .circularDependency ((closing.path root).map fun v => g.pipelines[v].name) }

def cycleErrors (g : Graph) : List ConfigError :=
  let edges := g.edges
  (List.finRange g.pipelines.length).filterMap (g.cycleError? edges)

/-- Everything that is wrong: repeated names, then references, then cycles, each in declaration order. -/
def errors (g : Graph) : List ConfigError := g.duplicateErrors ++ g.referenceErrors ++ g.cycleErrors

end Graph

end BuildScheduling
