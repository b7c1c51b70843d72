import Mathlib.Data.List.Chain
import BuildScheduling.Proofs.Graph.CycleErrors
import BuildScheduling.Proofs.Graph.FirstCycle

/-!
# Which cycle an error names

A pipeline that waits for itself may do so along many cycles. The error names the first simple one in declaration order:
from the pipeline on, the indexes of the materials that the cycle goes by are lexicographically the least
(`first_cycle_reported`). The walk of the search has this on nodes (`CycleSearch.closing?_least`), because the edges of a
node are in the order of their materials (`pairwise_edges`); here ways of nodes are read as ways of pipelines
(`wayBack_iff_leadsBack`).
-/

namespace BuildScheduling

open Relation (TransGen)
open CycleSearch (WayBack)

/-! ### Cycles of declarations -/

/-- The material of a pipeline with this index names another of the pipelines. -/
def WaitsAt (pipelines : List Pipeline) (p : Pipeline) (i : Nat) (q : Pipeline) : Prop :=
  p ∈ pipelines ∧ q ∈ pipelines ∧
    ∃ m named stage, p.materials[i]? = some m ∧ m.source = .dependency named stage ∧ q.name.same named = true

/-- A way from a pipeline to the root: the indexes of the materials that it goes by, each with the pipeline that is named
there. -/
inductive LeadsBack (pipelines : List Pipeline) (root : Pipeline) : Pipeline → List (Nat × Pipeline) → Prop
  | close {p : Pipeline} {i : Nat} (h : WaitsAt pipelines p i root) : LeadsBack pipelines root p [(i, root)]
  | step {p q : Pipeline} {i : Nat} {rest : List (Nat × Pipeline)} (h : WaitsAt pipelines p i q)
      (hrest : LeadsBack pipelines root q rest) : LeadsBack pipelines root p ((i, q) :: rest)

/-- A way from the root back to it that comes to no pipeline twice. The last one that it comes to is the root. -/
structure SimpleCycle (pipelines : List Pipeline) (root : Pipeline) (steps : List (Nat × Pipeline)) : Prop where
  back : LeadsBack pipelines root root steps
  simple : Distinct (steps.map Prod.snd)

variable {pipelines : List Pipeline}

theorem WaitsAt.waitsFor {p q : Pipeline} {i : Nat} (h : WaitsAt pipelines p i q) : WaitsFor pipelines p q := by
  obtain ⟨hp, hq, m, named, stage, hm, hsource, hsame⟩ := h
  exact ⟨hp, hq, m, List.mem_of_getElem? hm, named, stage, hsource, hsame⟩

theorem LeadsBack.waitsAt {root p q : Pipeline} {i : Nat} {rest : List (Nat × Pipeline)}
    (h : LeadsBack pipelines root p ((i, q) :: rest)) : WaitsAt pipelines p i q := by
  cases h with
  | close h => exact h
  | step h _ => exact h

/-- Each pipeline on the way waits for the next one. -/
theorem LeadsBack.isChain {root p : Pipeline} {steps : List (Nat × Pipeline)}
    (h : LeadsBack pipelines root p steps) : (p :: steps.map Prod.snd).IsChain (WaitsFor pipelines) := by
  induction h with
  | close h => exact List.isChain_pair.mpr h.waitsFor
  | step h _ ih => exact List.isChain_cons_cons.mpr ⟨h.waitsFor, ih⟩

namespace Graph

variable {g : Graph}

/-! ### Ways on nodes -/

theorem mem_edges_iff_waitsAt (hg : Distinct g.pipelines) {v u : g.Node} {i : Nat} :
    (i, u) ∈ g.edges.get v ↔ WaitsAt g.pipelines (g.pipelines.get v) i (g.pipelines.get u) := by
  simp only [mem_edges_iff, node?_eq_some_iff hg, mem_dependencies_iff]
  constructor
  · rintro ⟨d, ⟨m, hm, hsource⟩, rfl, hu⟩
    exact ⟨List.getElem_mem _, List.getElem_mem _, m, d.pipeline, d.stage, hm, hsource, hu⟩
  · rintro ⟨-, -, m, named, stage, hm, hsource, hu⟩
    exact ⟨⟨i, named, stage⟩, ⟨m, hm, hsource⟩, rfl, hu⟩

/-- The edges of a node are in the order of their materials. -/
theorem pairwise_edges (g : Graph) (v : g.Node) : (g.edges.get v).Pairwise fun e e' => e.1 < e'.1 := by
  rw [get_edges]
  exact g.pairwise_edgesOf _

/-- What a way of nodes is in terms of their pipelines. -/
def steps (way : List (Nat × g.Node)) : List (Nat × Pipeline) := way.map fun e => (e.1, g.pipelines.get e.2)

@[simp] theorem map_fst_steps (way : List (Nat × g.Node)) : (steps way).map Prod.fst = way.map Prod.fst := by
  simp [steps]

@[simp] theorem map_snd_steps (way : List (Nat × g.Node)) :
    (steps way).map Prod.snd = (way.map Prod.snd).map g.pipelines.get := by
  simp [steps]

theorem leadsBack_of_wayBack (hg : Distinct g.pipelines) {root v : g.Node} {way : List (Nat × g.Node)}
    (h : WayBack g.edges root v way) :
    LeadsBack g.pipelines (g.pipelines.get root) (g.pipelines.get v) (steps way) := by
  induction h with
  | close h => exact .close ((mem_edges_iff_waitsAt hg).mp h)
  | step h _ ih => exact .step ((mem_edges_iff_waitsAt hg).mp h) ih

theorem exists_wayBack_of_leadsBack (hg : Distinct g.pipelines) {root v : g.Node} {others : List (Nat × Pipeline)}
    (h : LeadsBack g.pipelines (g.pipelines.get root) (g.pipelines.get v) others) :
    ∃ way, others = steps way ∧ WayBack g.edges root v way := by
  generalize hp : g.pipelines.get v = p at h
  induction h generalizing v with
  | @close p i h => exact ⟨[(i, root)], rfl, .close ((mem_edges_iff_waitsAt hg).mpr (hp ▸ h))⟩
  | @step p q i rest h _ ih =>
    obtain ⟨k, hk, rfl⟩ := List.mem_iff_getElem.mp h.2.1
    obtain ⟨way, rfl, hway⟩ := ih (v := ⟨k, hk⟩) rfl
    exact ⟨(i, ⟨k, hk⟩) :: way, rfl, .step ((mem_edges_iff_waitsAt hg).mpr (hp ▸ h)) hway⟩

theorem eq_of_same (hg : Distinct g.pipelines) {v u : g.Node}
    (h : (g.pipelines.get v).name.same (g.pipelines.get u).name = true) : v = u :=
  Option.some.inj (((node?_eq_some_iff hg).mpr h).symm.trans ((node?_eq_some_iff hg).mpr (Name.same_refl _)))

theorem distinct_map_get_iff (hg : Distinct g.pipelines) {nodes : List g.Node} :
    Distinct (nodes.map g.pipelines.get) ↔ nodes.Nodup := by
  rw [Distinct, List.pairwise_map]
  refine List.Pairwise.iff fun {v u} => ⟨?_, fun h => ?_⟩
  · rintro h rfl
    simp at h
  · exact Bool.eq_false_iff.mpr fun hsame => h (eq_of_same hg hsame)

/-! ### The error of a node -/

/-- Among the cycle errors, those on the pipeline of a node are what the search from there found. -/
theorem filter_cycleErrors (hg : Distinct g.pipelines) (root : g.Node) :
    (g.cycleErrors.filter fun e => (g.pipelines.get root).name.same e.pipeline) =
      (g.cycleError? g.edges root).toList := by
  have howner : ∀ v : g.Node, ((g.cycleError? g.edges v).filter fun e =>
      (g.pipelines.get root).name.same e.pipeline) = if v = root then g.cycleError? g.edges v else none := by
    intro v
    cases herror : g.cycleError? g.edges v with
    | none => simp
    | some e =>
      rw [Option.filter_some, (isCycle_of_cycleError? herror).2]
      by_cases hv : v = root
      · simp [hv]
      · rw [if_neg hv, if_neg fun hsame => hv (eq_of_same hg hsame).symm]
  calc (g.cycleErrors.filter fun e => (g.pipelines.get root).name.same e.pipeline)
      = (List.finRange g.pipelines.length).filterMap fun v =>
          if v = root then g.cycleError? g.edges v else none := by
        rw [cycleErrors, List.filter_filterMap]
        exact List.filterMap_congr fun v _ => howner v
    _ = ((List.finRange g.pipelines.length).filter fun v => v = root).filterMap (g.cycleError? g.edges) := by
        rw [List.filterMap_filter]
        simp
    _ = (g.cycleError? g.edges root).toList := by
        rw [List.filter_eq, List.count_eq_one_of_mem (List.nodup_finRange _) (List.mem_finRange root)]
        cases herror : g.cycleError? g.edges root <;> simp [herror]

/-- The error of a node that waits for itself: the steps of its cycle, and what is made of them. -/
theorem exists_cycleError (hg : Distinct g.pipelines) (root : g.Node)
    (hroot : TransGen (WaitsFor g.pipelines) (g.pipelines.get root) (g.pipelines.get root)) :
    ∃ i q rest,
      SimpleCycle g.pipelines (g.pipelines.get root) ((i, q) :: rest) ∧
      (∀ other, SimpleCycle g.pipelines (g.pipelines.get root) other →
        ¬ List.Lex (· < ·) (other.map Prod.fst) (i :: rest.map Prod.fst)) ∧
      g.cycleError? g.edges root = some
        { pipeline := (g.pipelines.get root).name
          materialIndex := some i
          kind := .circularDependency
            ((g.pipelines.get root :: q :: rest.map Prod.snd).reverse.map Pipeline.name) } := by
  obtain ⟨e, he⟩ := Option.isSome_iff_exists.mp ((isSome_cycleError?_iff hg).mpr hroot)
  obtain ⟨c, hc, rfl⟩ := Option.map_eq_some_iff.mp he
  obtain ⟨f, below, hfound⟩ := CycleSearch.found_of_closing? hc
  have hfirst := hfound.head?_steps
  have hpath := hfound.path_eq
  obtain ⟨hback, hsimple, hleast⟩ := CycleSearch.closing?_least (pairwise_edges g) hc
  generalize hway : c.steps root = way at *
  cases way with
  | nil => simp at hfirst
  | cons first rest =>
    obtain ⟨i, v⟩ := first
    obtain rfl : i = c.firstEdge := by simpa using hfirst
    refine ⟨c.firstEdge, g.pipelines.get v, steps rest, ⟨leadsBack_of_wayBack hg hback, ?_⟩, ?_, ?_⟩
    · have hnodes := (distinct_map_get_iff hg).mpr hsimple
      rwa [← map_snd_steps] at hnodes
    · rintro other ⟨hother, hdistinct⟩
      obtain ⟨way, rfl, hway⟩ := exists_wayBack_of_leadsBack hg hother
      rw [map_snd_steps, distinct_map_get_iff hg] at hdistinct
      simpa using hleast way hway hdistinct
    · rw [he, hpath]
      simp [List.map_reverse]

end Graph

/-- A pipeline that waits for itself over one dependency or more owns one cycle error, which names the first simple cycle
through it in declaration order: along no other one the indexes of the materials, from the pipeline on, are
lexicographically less. The error has the first of these indexes. Its path leads from the pipeline back to itself
against the dependencies, so that each name on it is that of a pipeline which the next one waits for. -/
theorem first_cycle_reported (declared : List Pipeline) (root : Pipeline)
    (hroot : TransGen (WaitsFor (declared.eraseDupsBy Pipeline.sameName)) root root) :
    let firsts := declared.eraseDupsBy Pipeline.sameName
    ∃ i q rest,
      let path := (root :: q :: rest.map Prod.snd).reverse
      SimpleCycle firsts root ((i, q) :: rest) ∧
      (∀ other, SimpleCycle firsts root other →
        ¬ List.Lex (· < ·) (other.map Prod.fst) (i :: rest.map Prod.fst)) ∧
      ((Graph.ofPipelines declared).errors.filter fun e => e.isCycle && root.name.same e.pipeline) =
        [{ pipeline := root.name
           materialIndex := some i
           kind := .circularDependency (path.map Pipeline.name) }] ∧
      path.IsChain fun p q => WaitsFor firsts q p := by
  intro firsts
  have hg := Graph.distinct_pipelines declared
  have hfirsts : (Graph.ofPipelines declared).pipelines = firsts := Graph.pipelines_eq_eraseDupsBy declared
  generalize Graph.ofPipelines declared = g at hg hfirsts
  change TransGen (WaitsFor firsts) root root at hroot
  rw [← hfirsts] at hroot ⊢
  have hmem : root ∈ g.pipelines := by
    obtain ⟨q, hq, -⟩ := Relation.TransGen.head'_iff.mp hroot
    exact hq.1
  obtain ⟨k, hk, rfl⟩ := List.mem_iff_getElem.mp hmem
  obtain ⟨i, q, rest, hcycle, hleast, herror⟩ := Graph.exists_cycleError hg ⟨k, hk⟩ hroot
  refine ⟨i, q, rest, hcycle, hleast, ?_, List.isChain_reverse.mpr hcycle.back.isChain⟩
  rw [← List.filter_filter, List.filter_comm, Graph.filter_isCycle_errors]
  have howned := Graph.filter_cycleErrors hg ⟨k, hk⟩
  rw [herror] at howned
  exact howned

def tangledHead : Pipeline :=
  Samples.withMaterials ⟨"a"⟩ [Samples.git "app", .dependency ⟨"b"⟩ ⟨"build"⟩, .dependency ⟨"c"⟩ ⟨"build"⟩]

def tangledSide : Pipeline :=
  Samples.withMaterials ⟨"b"⟩ [.dependency ⟨"d"⟩ ⟨"build"⟩, .dependency ⟨"c"⟩ ⟨"build"⟩]

def tangledTail : Pipeline := Samples.simple ⟨"c"⟩ (.dependency ⟨"a"⟩ ⟨"build"⟩)

/-- Two cycles lead through `a`, one by its second material and one by its third. Behind the second, the first material
of `b` leads into another cycle and not back. -/
def tangle : List Pipeline :=
  [tangledHead, tangledSide, tangledTail, Samples.simple ⟨"d"⟩ (.dependency ⟨"b"⟩ ⟨"build"⟩)]

theorem firsts_tangle : tangle.eraseDupsBy Pipeline.sameName = tangle := by
  decide +kernel

/-- The error names the cycle by the second material, although the search comes to a cycle of `b` and `d` before. -/
theorem tangle_names_cycle_by_second_material :
    TransGen (WaitsFor (tangle.eraseDupsBy Pipeline.sameName)) tangledHead tangledHead ∧
    ∃ rest, SimpleCycle (tangle.eraseDupsBy Pipeline.sameName) tangledHead ((1, tangledSide) :: rest) ∧
      ((Graph.ofPipelines tangle).errors.filter fun e => e.isCycle && tangledHead.name.same e.pipeline) =
        [{ pipeline := ⟨"a"⟩
           materialIndex := some 1
           kind := .circularDependency
            ((tangledHead :: tangledSide :: rest.map Prod.snd).reverse.map Pipeline.name) }] := by
  have hside : WaitsAt tangle tangledHead 1 tangledSide :=
    ⟨by simp [tangle], by simp [tangle], _, _, _, rfl, rfl, Name.same_refl _⟩
  have htail : WaitsAt tangle tangledSide 1 tangledTail :=
    ⟨by simp [tangle], by simp [tangle], _, _, _, rfl, rfl, Name.same_refl _⟩
  have hhead : WaitsAt tangle tangledTail 0 tangledHead :=
    ⟨by simp [tangle], by simp [tangle], _, _, _, rfl, rfl, Name.same_refl _⟩
  have hcycle : SimpleCycle tangle tangledHead [(1, tangledSide), (1, tangledTail), (0, tangledHead)] :=
    ⟨.step hside (.step htail (.close hhead)), by rw [Distinct]; decide +kernel⟩
  have hcyclic : TransGen (WaitsFor (tangle.eraseDupsBy Pipeline.sameName)) tangledHead tangledHead := by
    rw [firsts_tangle]
    exact .head hside.waitsFor (.head htail.waitsFor (.single hhead.waitsFor))
  obtain ⟨i, q, rest, hfirst, hleast, herrors, -⟩ := first_cycle_reported tangle tangledHead hcyclic
  rw [firsts_tangle] at hfirst hleast hcyclic ⊢
  obtain ⟨-, hq, m, named, stage, hm, hsource, hsame⟩ := hfirst.back.waitsAt
  obtain rfl : i = 1 := by
    have hle : ¬ 1 < i := fun hlt => hleast _ hcycle (.rel hlt)
    have hdependency : i ≠ 0 := by
      rintro rfl
      cases hm
      cases hsource
    omega
  cases hm
  cases hsource
  have hdistinct : Distinct tangle := by
    rw [← firsts_tangle, ← Graph.pipelines_eq_eraseDupsBy]
    exact Graph.distinct_pipelines tangle
  obtain rfl : q = tangledSide := hdistinct.eq_of_same hq hside.2.1 hsame
  exact ⟨hcyclic, rest, hfirst, herrors⟩

end BuildScheduling
