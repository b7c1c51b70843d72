import Mathlib.Data.List.FinRange
import BuildScheduling.Proofs.Graph.Declared
import BuildScheduling.Samples

/-!
# Which pipelines have a cycle error

The nodes of the graph are the declarations without those whose name was declared before
(`pipelines_eq_eraseDupsBy`). The search runs once from every node, in declaration order, so the cycle errors
belong to the nodes that wait for themselves, one to each and in that order (`cycleErrors_owners`). A pipeline
before or behind a cycle has none, and neither has one that names a pipeline nobody declares.
-/

namespace BuildScheduling

open Relation (TransGen)

/-- One name under two spellings, or under one. -/
def Pipeline.sameName (p q : Pipeline) : Bool := p.name.same q.name

/-! ### First declarations -/

theorem firstDeclarations_eq_eraseDupsBy (seen : List PipelineName) (declared : List Pipeline) :
    firstDeclarations seen declared =
      (declared.filter fun p => !seen.any p.name.same).eraseDupsBy Pipeline.sameName := by
  induction declared generalizing seen with
  | nil => rfl
  | cons p rest ih =>
    rw [firstDeclarations, List.filter_cons]
    by_cases hseen : seen.any p.name.same = true
    · simp only [hseen, if_true, Bool.not_true, Bool.false_eq_true, if_false]
      exact ih seen
    · rw [if_neg hseen, if_pos (by simpa using hseen), List.eraseDupsBy_cons, ih (p.name :: seen),
        List.filter_filter]
      -- to be new after `p` is to be new and not called `p`
      refine congrArg (fun later => p :: List.eraseDupsBy Pipeline.sameName later)
        (List.filter_congr fun q _ => ?_)
      rw [List.any_cons, Pipeline.sameName, Bool.not_or]
      cases q.name.same p.name <;> rfl

namespace Graph

/-- The graph keeps the first declaration of every name, in declaration order. -/
theorem pipelines_eq_eraseDupsBy (declared : List Pipeline) :
    (ofPipelines declared).pipelines = declared.eraseDupsBy Pipeline.sameName := by
  have hall : declared.filter (fun p => !([] : List PipelineName).any p.name.same) = declared :=
    List.filter_eq_self.mpr fun _ _ => rfl
  rw [pipelines_eq_firstDeclarations, firstDeclarations_eq_eraseDupsBy, hall]

/-! ### Errors by kind -/

variable {g : Graph}

theorem isCycle_of_referenceError? {p : Pipeline} {d : Dependency} {e : ConfigError}
    (h : g.referenceError? p d = some e) : e.isCycle = false := by
  unfold referenceError? at h
  split at h
  · cases h
    rfl
  · split at h
    · cases h
    · cases h
      rfl

theorem isCycle_of_cycleError? {edges : CycleSearch.Edges g.pipelines.length} {root : g.Node}
    {e : ConfigError} (h : g.cycleError? edges root = some e) :
    e.isCycle = true ∧ e.pipeline = (g.pipelines.get root).name := by
  obtain ⟨closing, -, rfl⟩ := Option.map_eq_some_iff.mp h
  exact ⟨rfl, rfl⟩

theorem isCycle_of_mem_duplicateErrors {e : ConfigError} (h : e ∈ g.duplicateErrors) : e.isCycle = false := by
  obtain ⟨p, -, rfl⟩ := List.mem_map.mp h
  rfl

theorem isCycle_of_mem_referenceErrors {e : ConfigError} (h : e ∈ g.referenceErrors) : e.isCycle = false := by
  obtain ⟨p, -, hp⟩ := List.mem_flatMap.mp h
  obtain ⟨d, -, hd⟩ := List.mem_filterMap.mp hp
  exact isCycle_of_referenceError? hd

theorem isCycle_of_mem_cycleErrors {e : ConfigError} (h : e ∈ g.cycleErrors) : e.isCycle = true := by
  obtain ⟨root, -, hroot⟩ := List.mem_filterMap.mp h
  exact (isCycle_of_cycleError? hroot).1

/-- Among all errors of a graph, those that name a cycle are what the search found. -/
theorem filter_isCycle_errors (g : Graph) : g.errors.filter ConfigError.isCycle = g.cycleErrors := by
  have hduplicate : g.duplicateErrors.filter ConfigError.isCycle = [] :=
    List.filter_eq_nil_iff.mpr fun e he => by simp [isCycle_of_mem_duplicateErrors he]
  have hreference : g.referenceErrors.filter ConfigError.isCycle = [] :=
    List.filter_eq_nil_iff.mpr fun e he => by simp [isCycle_of_mem_referenceErrors he]
  have hcycle : g.cycleErrors.filter ConfigError.isCycle = g.cycleErrors :=
    List.filter_eq_self.mpr fun e he => isCycle_of_mem_cycleErrors he
  rw [errors, List.filter_append, List.filter_append, hduplicate, hreference, hcycle]
  rfl

/-! ### Owners of cycle errors -/

/-- The error of a node, said in terms of its pipeline. -/
theorem owner_cycleError? (hg : Distinct g.pipelines) (root : g.Node) :
    (g.cycleError? g.edges root).map ConfigError.pipeline =
      open Classical in
      if TransGen (WaitsFor g.pipelines) (g.pipelines.get root) (g.pipelines.get root) then
        some (g.pipelines.get root).name else none := by
  have hcyclic : (g.cycleError? g.edges root).isSome ↔
      TransGen (WaitsFor g.pipelines) (g.pipelines.get root) (g.pipelines.get root) :=
    isSome_cycleError?_iff hg
  cases herror : g.cycleError? g.edges root with
  | none =>
    rw [herror] at hcyclic
    rw [if_neg fun h => Bool.false_ne_true (hcyclic.mpr h)]
    rfl
  | some e =>
    rw [herror] at hcyclic
    rw [if_pos (hcyclic.mp rfl), Option.map_some, (isCycle_of_cycleError? herror).2]

open Classical in
/-- The pipelines that wait for themselves over one dependency or more own one cycle error each, in
declaration order. -/
theorem cycleErrors_owners (hg : Distinct g.pipelines) :
    g.cycleErrors.map ConfigError.pipeline =
      (g.pipelines.filter fun p => TransGen (WaitsFor g.pipelines) p p).map Pipeline.name := by
  have hnodes : ∀ f : Pipeline → Option PipelineName, g.pipelines.filterMap f =
      (List.finRange g.pipelines.length).filterMap fun root => f (g.pipelines.get root) := by
    intro f
    conv_lhs => rw [← List.map_get_finRange g.pipelines, List.filterMap_map]
    rfl
  calc g.cycleErrors.map ConfigError.pipeline
      = (List.finRange g.pipelines.length).filterMap fun root =>
          if TransGen (WaitsFor g.pipelines) (g.pipelines.get root) (g.pipelines.get root) then
            some (g.pipelines.get root).name else none := by
        rw [cycleErrors, List.map_filterMap]
        exact List.filterMap_congr fun root _ => owner_cycleError? hg root
    _ = g.pipelines.filterMap fun p =>
          if TransGen (WaitsFor g.pipelines) p p then some p.name else none := by
        rw [hnodes]
    _ = (g.pipelines.filter fun p => TransGen (WaitsFor g.pipelines) p p).map Pipeline.name := by
        rw [← List.filterMap_eq_filter, List.map_filterMap]
        refine List.filterMap_congr fun p _ => ?_
        by_cases h : TransGen (WaitsFor g.pipelines) p p <;> simp [Option.guard, h]

end Graph

/-! ### Exactness -/

/-- Among pipelines with distinct names, only one goes by the name of one of them. -/
theorem Distinct.countP_same {pipelines : List Pipeline} (h : Distinct pipelines) {p : Pipeline}
    (hp : p ∈ pipelines) (good : Pipeline → Bool) :
    (pipelines.countP fun q => p.name.same q.name && good q) = if good p then 1 else 0 := by
  induction pipelines with
  | nil => cases hp
  | cons a rest ih =>
    obtain ⟨ha, hrest⟩ := List.pairwise_cons.mp h
    rw [List.countP_cons]
    rcases List.mem_cons.mp hp with rfl | hp
    · have hnone : (rest.countP fun q => p.name.same q.name && good q) = 0 := by
        rw [List.countP_eq_zero]
        intro q hq
        simp [ha q hq]
      simp [hnone]
    · have hother : p.name.same a.name = false := by
        rw [Name.same_comm]
        exact ha p hp
      simp [hother, ih hrest hp]

open Classical in
/-- The errors of a list of declarations that name a cycle belong to the first declarations that wait for
themselves over one dependency or more, in declaration order. Each of these owns one such error, and every other
first declaration none. -/
theorem cycle_errors_exact (declared : List Pipeline) :
    let firsts := declared.eraseDupsBy Pipeline.sameName
    let errors := (Graph.ofPipelines declared).errors
    (errors.filter ConfigError.isCycle).map ConfigError.pipeline =
      (firsts.filter fun p => TransGen (WaitsFor firsts) p p).map Pipeline.name ∧
    ∀ p ∈ firsts, (errors.countP fun e => e.isCycle && p.name.same e.pipeline) =
      if TransGen (WaitsFor firsts) p p then 1 else 0 := by
  intro firsts errors
  have hdistinct := Graph.distinct_pipelines declared
  have howners : (errors.filter ConfigError.isCycle).map ConfigError.pipeline =
      (firsts.filter fun p => TransGen (WaitsFor firsts) p p).map Pipeline.name := by
    have hcycle := Graph.cycleErrors_owners hdistinct
    rwa [← Graph.filter_isCycle_errors, Graph.pipelines_eq_eraseDupsBy] at hcycle
  refine ⟨howners, fun p hp => ?_⟩
  rw [Graph.pipelines_eq_eraseDupsBy] at hdistinct
  have hcount := congrArg (List.countP (Name.same p.name)) howners
  rw [List.countP_map, List.countP_filter, List.countP_map, List.countP_filter] at hcount
  simpa [Bool.and_comm] using hcount.trans (hdistinct.countP_same hp _)

def knotted : Pipeline := Samples.simple ⟨"a"⟩ (.dependency ⟨"b"⟩ ⟨"build"⟩)

def knotting : Pipeline := Samples.simple ⟨"b"⟩ (.dependency ⟨"a"⟩ ⟨"build"⟩)

/-- Waits for a pipeline on a cycle, and for one that nobody declares. -/
def behindKnot : Pipeline :=
  Samples.withMaterials ⟨"c"⟩ [.dependency ⟨"a"⟩ ⟨"build"⟩, .dependency ⟨"gone"⟩ ⟨"build"⟩]

/-- Two pipelines that wait for each other, one behind them, and another declaration of the first, that waits
for the one behind. -/
def knot : List Pipeline :=
  [knotted, knotting, behindKnot, Samples.simple ⟨"a"⟩ (.dependency ⟨"c"⟩ ⟨"build"⟩)]

theorem firsts_knot : knot.eraseDupsBy Pipeline.sameName = [knotted, knotting, behindKnot] := by
  decide +kernel

theorem knot_cycle_owned_once_and_none_behind :
    (knotted ∈ knot.eraseDupsBy Pipeline.sameName ∧
      ((Graph.ofPipelines knot).errors.countP fun e => e.isCycle && knotted.name.same e.pipeline) = 1) ∧
    behindKnot ∈ knot.eraseDupsBy Pipeline.sameName ∧
      ((Graph.ofPipelines knot).errors.countP fun e => e.isCycle && behindKnot.name.same e.pipeline) = 0 := by
  have hknotted : knotted ∈ knot.eraseDupsBy Pipeline.sameName := by
    rw [firsts_knot]
    exact List.mem_cons_self
  have hbehind : behindKnot ∈ knot.eraseDupsBy Pipeline.sameName := by
    rw [firsts_knot]
    simp
  have hcycle : TransGen (WaitsFor (knot.eraseDupsBy Pipeline.sameName)) knotted knotted := by
    rw [firsts_knot]
    have hthere : WaitsFor [knotted, knotting, behindKnot] knotted knotting :=
      ⟨by simp, by simp, _, List.mem_singleton_self _, _, _, rfl, Name.same_refl _⟩
    have hback : WaitsFor [knotted, knotting, behindKnot] knotting knotted :=
      ⟨by simp, by simp, _, List.mem_singleton_self _, _, _, rfl, Name.same_refl _⟩
    exact .tail (.single hthere) hback
  have hend : ¬ TransGen (WaitsFor (knot.eraseDupsBy Pipeline.sameName)) behindKnot behindKnot := by
    rw [firsts_knot]
    intro hcyclic
    have hunnamed : ∀ q ∈ [knotted, knotting, behindKnot], ∀ d ∈ q.dependencies,
        behindKnot.name.same d.pipeline = false := by decide +kernel
    -- what waits for the one behind would name it
    obtain ⟨q, -, hq, -, m, hm, named, stage, hsource, hsame⟩ := Relation.TransGen.tail'_iff.mp hcyclic
    obtain ⟨d, hd, rfl, -⟩ := exists_mem_dependencies_iff.mpr ⟨m, hm, hsource⟩
    rw [hunnamed q hq d hd] at hsame
    cases hsame
  have hcount := (cycle_errors_exact knot).2
  exact ⟨⟨hknotted, (hcount knotted hknotted).trans (if_pos hcycle)⟩,
    hbehind, (hcount behindKnot hbehind).trans (if_neg hend)⟩

end BuildScheduling
