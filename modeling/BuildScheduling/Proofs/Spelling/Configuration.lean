import BuildScheduling.Proofs.Snapshot.FanIn
import Mathlib.Data.List.Forall2

/-!
# Another spelling of a configuration

Two configurations that differ only in how their dependencies spell the pipelines and stages they wait for
(`Configuration.RespeltAs`). Wherever such a name goes into something else it is folded first, or compared without its
case: so materials keep their fingerprints and dependencies lead to the same nodes, and what is made of the nodes and
edges, such as the cycles, is the same as it stands. Only an error about a name that is not there repeats the name as it
was spelled (`ConfigErrorKind.RespeltAs`).
-/

namespace BuildScheduling

/-! ### Respelling -/

/-- The same thing, but the names of a dependency may have other capitals. -/
inductive MaterialSource.RespeltAs : MaterialSource → MaterialSource → Prop
  | scm (type : ScmType) (url : String) (branch : Option String) :
      RespeltAs (.scm type url branch) (.scm type url branch)
  | dependency {pipeline pipeline' : PipelineName} {stage stage' : StageName}
      (hpipeline : pipeline.same pipeline' = true) (hstage : stage.same stage' = true) :
      RespeltAs (.dependency pipeline stage) (.dependency pipeline' stage')

inductive Material.RespeltAs : Material → Material → Prop
  | intro {source source' : MaterialSource} (hsource : source.RespeltAs source') (autoUpdate : Bool)
      (destination name : Option String) :
      RespeltAs ⟨source, autoUpdate, destination, name⟩ ⟨source', autoUpdate, destination, name⟩

inductive Pipeline.RespeltAs : Pipeline → Pipeline → Prop
  | intro {materials materials' : List Material} (hmaterials : List.Forall₂ Material.RespeltAs materials materials')
      (name : PipelineName) (stages : List Stage) (origin : ConfigOrigin) (lockBehavior : LockBehavior)
      (timer : Option Timer) :
      RespeltAs ⟨name, materials, stages, origin, lockBehavior, timer⟩
        ⟨name, materials', stages, origin, lockBehavior, timer⟩

inductive ConfigRepo.RespeltAs : ConfigRepo → ConfigRepo → Prop
  | intro (id : String) {material material' : Material} (hmaterial : material.RespeltAs material') :
      RespeltAs ⟨id, material⟩ ⟨id, material'⟩

structure Configuration.RespeltAs (c c' : Configuration) : Prop where
  pipelines : List.Forall₂ Pipeline.RespeltAs c.pipelines c'.pipelines
  configRepos : List.Forall₂ ConfigRepo.RespeltAs c.configRepos c'.configRepos

/-! ### Two lists side by side -/

section

variable {α β γ : Type} {R : α → β → Prop} {l : List α} {l' : List β}

theorem map_eq_of_forall₂ (h : List.Forall₂ R l l') {f : α → γ} {g : β → γ} (hfg : ∀ a b, R a b → f a = g b) :
    l.map f = l'.map g := by
  induction h with
  | nil => rfl
  | cons hab _ ih => rw [List.map_cons, List.map_cons, hfg _ _ hab, ih]

theorem any_of_forall₂ (h : List.Forall₂ R l l') {f : α → Bool} {g : β → Bool} (hfg : ∀ a b, R a b → f a = g b) :
    l.any f = l'.any g := by
  have hmap := congrArg (fun tests => List.any tests id) (map_eq_of_forall₂ h hfg)
  simpa [List.any_map] using hmap

theorem find?_of_forall₂ (h : List.Forall₂ R l l') {f : α → Bool} {g : β → Bool} (hfg : ∀ a b, R a b → f a = g b) :
    Option.Rel R (l.find? f) (l'.find? g) := by
  induction h with
  | nil => exact .none
  | @cons a b rest rest' hab _ ih =>
    rw [List.find?_cons, List.find?_cons, hfg a b hab]
    cases g b with
    | true => exact .some hab
    | false => exact ih

theorem filter_of_forall₂ (h : List.Forall₂ R l l') {f : α → Bool} {g : β → Bool} (hfg : ∀ a b, R a b → f a = g b) :
    List.Forall₂ R (l.filter f) (l'.filter g) :=
  List.rel_filter (fun a b hab => iff_of_eq (congrArg (· = true) (hfg a b hab))) h

theorem filterMap_eq_of_forall₂ (h : List.Forall₂ R l l') {f : α → Option γ} {g : β → Option γ}
    (hfg : ∀ a b, R a b → f a = g b) : l.filterMap f = l'.filterMap g := by
  induction h with
  | nil => rfl
  | cons hab _ ih => rw [List.filterMap_cons, List.filterMap_cons, hfg _ _ hab, ih]

theorem cases_of_rel {a : Option α} {b : Option β} (h : Option.Rel R a b) :
    a = none ∧ b = none ∨ ∃ x y, a = some x ∧ b = some y ∧ R x y := by
  cases h with
  | none => exact Or.inl ⟨rfl, rfl⟩
  | some hxy => exact Or.inr ⟨_, _, rfl, rfl, hxy⟩

theorem isSome_of_rel {a : Option α} {b : Option β} (h : Option.Rel R a b) : a.isSome = b.isSome := by
  cases h <;> rfl

theorem map_of_rel {δ : Type} {S : γ → δ → Prop} {a : Option α} {b : Option β} (h : Option.Rel R a b) {f : α → γ}
    {g : β → δ} (hfg : ∀ a b, R a b → S (f a) (g b)) : Option.Rel S (a.map f) (b.map g) := by
  cases h with
  | none => exact .none
  | some hab => exact .some (hfg _ _ hab)

theorem map_eq_of_rel {a : Option α} {b : Option β} (h : Option.Rel R a b) {f : α → γ} {g : β → γ}
    (hfg : ∀ a b, R a b → f a = g b) : a.map f = b.map g := by
  cases h with
  | none => rfl
  | some hab => exact congrArg some (hfg _ _ hab)

theorem zipIdx_of_forall₂ (h : List.Forall₂ R l l') (start : Nat) :
    List.Forall₂ (fun a b => R a.1 b.1 ∧ a.2 = b.2) (l.zipIdx start) (l'.zipIdx start) := by
  induction h generalizing start with
  | nil => exact .nil
  | cons hab _ ih => exact .cons ⟨hab, rfl⟩ (ih (start + 1))

end

/-! ### Materials and pipelines -/

theorem MaterialSource.RespeltAs.sameIdentity {a b : MaterialSource} (h : a.RespeltAs b) : a.sameIdentity b = true := by
  cases h with
  | scm type url branch => simp [MaterialSource.sameIdentity]
  | dependency hpipeline hstage => exact Bool.and_eq_true_iff.mpr ⟨hpipeline, hstage⟩

theorem MaterialSource.RespeltAs.refl (a : MaterialSource) : a.RespeltAs a := by
  cases a with
  | scm type url branch => exact .scm type url branch
  | dependency pipeline stage => exact .dependency pipeline.same_refl stage.same_refl

namespace Material

variable {m m' : Material}

theorem RespeltAs.refl (m : Material) : m.RespeltAs m := .intro (.refl m.source) _ _ _

theorem RespeltAs.fingerprint (h : m.RespeltAs m') : m.fingerprint = m'.fingerprint := by
  cases h with
  | intro hsource => exact fingerprint_eq_of_sameIdentity hsource.sameIdentity

theorem RespeltAs.checkoutFingerprint (h : m.RespeltAs m') : m.checkoutFingerprint = m'.checkoutFingerprint := by
  have hdestination : m.destination = m'.destination := by cases h; rfl
  rw [Material.checkoutFingerprint, Material.checkoutFingerprint, checkoutSource, checkoutSource, h.fingerprint,
    hdestination]

/-- A repository has no names to respell. -/
theorem RespeltAs.eq_of_not_dependency (h : m.RespeltAs m') (hm : m.dependency? = none) : m = m' := by
  obtain ⟨hsource, autoUpdate, destination, name⟩ := h
  cases hsource with
  | scm type url branch => rfl
  | dependency hpipeline hstage => cases hm

/-- Both are dependencies on one stage of one pipeline, or neither is a dependency. -/
theorem RespeltAs.dependency? (h : m.RespeltAs m') :
    Option.Rel (fun a b => a.1.same b.1 = true ∧ a.2.same b.2 = true) m.dependency? m'.dependency? := by
  obtain ⟨hsource, autoUpdate, destination, name⟩ := h
  cases hsource with
  | scm type url branch => exact .none
  | dependency hpipeline hstage => exact .some ⟨hpipeline, hstage⟩

theorem RespeltAs.autoUpdate (h : m.RespeltAs m') : m.autoUpdate = m'.autoUpdate := by cases h; rfl

theorem RespeltAs.waits (h : m.RespeltAs m') : m.waits = m'.waits := by
  obtain ⟨hsource, autoUpdate, destination, name⟩ := h
  cases hsource <;> rfl

/-- What messages call it. -/
theorem RespeltAs.displayName (h : m.RespeltAs m') : foldCase m.displayName = foldCase m'.displayName := by
  obtain ⟨hsource, autoUpdate, destination, _ | name⟩ := h
  · cases hsource with
    | scm type url branch => rfl
    | dependency hpipeline hstage =>
      have happend : ∀ s t : String, foldCase (s ++ t) = foldCase s ++ foldCase t := fun s t => by
        rw [← String.toList_inj]
        simp [foldCase, String.toList_map]
      simp only [Material.displayName, happend]
      rw [show foldCase _ = _ from Name.same_iff.mp hpipeline, show foldCase _ = _ from Name.same_iff.mp hstage]
      rfl
  · rfl

end Material

namespace Pipeline

variable {p p' : Pipeline}

theorem RespeltAs.refl (p : Pipeline) : p.RespeltAs p :=
  .intro (List.forall₂_same.mpr fun m _ => .refl m) _ _ _ _ _

theorem RespeltAs.materials (h : p.RespeltAs p') : List.Forall₂ Material.RespeltAs p.materials p'.materials := by
  cases h; assumption

theorem RespeltAs.name (h : p.RespeltAs p') : p.name = p'.name := by cases h; rfl

theorem RespeltAs.timer (h : p.RespeltAs p') : p.timer = p'.timer := by cases h; rfl

theorem RespeltAs.origin (h : p.RespeltAs p') : p.origin = p'.origin := by cases h; rfl

theorem RespeltAs.isLocked (h : p.RespeltAs p') : p.isLocked = p'.isLocked := by cases h; rfl

theorem RespeltAs.hasStage (h : p.RespeltAs p') : p.hasStage = p'.hasStage := by cases h; rfl

theorem RespeltAs.schedule? (h : p.RespeltAs p') : p.schedule? = p'.schedule? := by cases h; rfl

theorem RespeltAs.map_fingerprint (h : p.RespeltAs p') :
    p.materials.map Material.fingerprint = p'.materials.map Material.fingerprint :=
  map_eq_of_forall₂ h.materials fun _ _ hm => hm.fingerprint

end Pipeline

/-- A dependency under another spelling, on the same place in the list of materials. -/
structure Dependency.RespeltAs (d d' : Dependency) : Prop where
  materialIndex : d.materialIndex = d'.materialIndex
  pipeline : d.pipeline.same d'.pipeline = true
  stage : d.stage.same d'.stage = true

theorem Pipeline.RespeltAs.dependencies {p p' : Pipeline} (h : p.RespeltAs p') :
    List.Forall₂ Dependency.RespeltAs p.dependencies p'.dependencies := by
  refine List.rel_filterMap ?_ (zipIdx_of_forall₂ h.materials 0)
  rintro ⟨m, i⟩ ⟨m', _⟩ ⟨hm, rfl⟩
  exact map_of_rel hm.dependency? fun _ _ hnamed => ⟨rfl, hnamed.1, hnamed.2⟩

/-! ### Graphs -/

structure Graph.RespeltAs (g g' : Graph) : Prop where
  pipelines : List.Forall₂ Pipeline.RespeltAs g.pipelines g'.pipelines
  repeated : List.Forall₂ Pipeline.RespeltAs g.repeated g'.repeated

theorem firstDeclarations_respelt {declared declared' : List Pipeline}
    (h : List.Forall₂ Pipeline.RespeltAs declared declared') (seen : List PipelineName) :
    List.Forall₂ Pipeline.RespeltAs (firstDeclarations seen declared) (firstDeclarations seen declared') := by
  induction h generalizing seen with
  | nil => exact .nil
  | @cons p p' rest rest' hp _ ih =>
    rw [firstDeclarations, firstDeclarations, ← hp.name]
    split
    · exact ih seen
    · exact .cons hp (ih _)

theorem repeatedDeclarations_respelt {declared declared' : List Pipeline}
    (h : List.Forall₂ Pipeline.RespeltAs declared declared') (seen : List PipelineName) :
    List.Forall₂ Pipeline.RespeltAs (repeatedDeclarations seen declared) (repeatedDeclarations seen declared') := by
  induction h generalizing seen with
  | nil => exact .nil
  | @cons p p' rest rest' hp _ ih =>
    rw [repeatedDeclarations, repeatedDeclarations, ← hp.name]
    split
    · exact .cons hp (ih seen)
    · exact ih _

theorem Configuration.RespeltAs.graph {c c' : Configuration} (h : c.RespeltAs c') :
    (Graph.ofPipelines c.pipelines).RespeltAs (Graph.ofPipelines c'.pipelines) := by
  constructor
  · rw [Graph.pipelines_eq_firstDeclarations, Graph.pipelines_eq_firstDeclarations]
    exact firstDeclarations_respelt h.pipelines []
  · rw [Graph.repeated_eq_repeatedDeclarations, Graph.repeated_eq_repeatedDeclarations]
    exact repeatedDeclarations_respelt h.pipelines []

/-! ### Errors -/

/-- The same error, but it may repeat the name of a dependency in another spelling. -/
inductive ConfigErrorKind.RespeltAs : ConfigErrorKind → ConfigErrorKind → Prop
  | circularDependency (path : List PipelineName) : RespeltAs (.circularDependency path) (.circularDependency path)
  | unknownPipeline {named named' : PipelineName} (hnamed : named.same named' = true) :
      RespeltAs (.unknownPipeline named) (.unknownPipeline named')
  | unknownStage {named named' : PipelineName} {stage stage' : StageName} (hnamed : named.same named' = true)
      (hstage : stage.same stage' = true) : RespeltAs (.unknownStage named stage) (.unknownStage named' stage')
  | duplicatePipeline : RespeltAs .duplicatePipeline .duplicatePipeline
  | invalidTimer (spec reason : String) : RespeltAs (.invalidTimer spec reason) (.invalidTimer spec reason)

inductive ConfigError.RespeltAs : ConfigError → ConfigError → Prop
  | intro (pipeline : PipelineName) (materialIndex : Option Nat) {kind kind' : ConfigErrorKind}
      (hkind : kind.RespeltAs kind') : RespeltAs ⟨pipeline, materialIndex, kind⟩ ⟨pipeline, materialIndex, kind'⟩

theorem ConfigError.RespeltAs.refl (e : ConfigError) : e.RespeltAs e := by
  obtain ⟨pipeline, materialIndex, kind⟩ := e
  refine .intro pipeline materialIndex ?_
  cases kind with
  | circularDependency path => exact .circularDependency path
  | unknownPipeline named => exact .unknownPipeline named.same_refl
  | unknownStage named stage => exact .unknownStage named.same_refl stage.same_refl
  | duplicatePipeline => exact .duplicatePipeline
  | invalidTimer spec reason => exact .invalidTimer spec reason

namespace Graph

variable {g g' : Graph} {p p' : Pipeline}

theorem RespeltAs.map_name (h : g.RespeltAs g') : g.pipelines.map Pipeline.name = g'.pipelines.map Pipeline.name :=
  map_eq_of_forall₂ h.pipelines fun _ _ hp => hp.name

theorem RespeltAs.pipeline? (h : g.RespeltAs g') {a b : PipelineName} (hsame : a.same b = true) :
    Option.Rel Pipeline.RespeltAs (g.pipeline? a) (g'.pipeline? b) := by
  rw [Graph.pipeline?_eq_find?, Graph.pipeline?_eq_find?]
  refine find?_of_forall₂ h.pipelines fun q q' hq => ?_
  rw [← hq.name]
  exact Name.same_congr_right hsame q.name

/-- Nodes on the same place have the same pipeline. -/
theorem RespeltAs.get (h : g.RespeltAs g') {v : g.Node} {v' : g'.Node} (hv : v.val = v'.val) :
    (g.pipelines.get v).RespeltAs (g'.pipelines.get v') := by
  obtain ⟨i, hi⟩ := v
  obtain ⟨i', hi'⟩ := v'
  obtain rfl : i = i' := hv
  exact (List.forall₂_iff_get.mp h.pipelines).2 i hi hi'

/-- The names of two spellings lead to the node on the same place. -/
theorem RespeltAs.node? (h : g.RespeltAs g') {a b : PipelineName} (hsame : a.same b = true) :
    (g.node? a).map Fin.val = (g'.node? b).map Fin.val := by
  have hindex : ∀ (g : Graph) (name : PipelineName), (g.node? name).map Fin.val =
      (g.pipelines.map Pipeline.name).findIdx? fun declared => declared.same name := by
    intro g name
    rw [Graph.node?_eq_findFinIdx?, ← List.findIdx?_eq_map_findFinIdx?_val, List.findIdx?_map]
    rfl
  rw [hindex, hindex, h.map_name]
  exact congrArg (fun test => List.findIdx? test _) (funext fun declared => Name.same_congr_right hsame declared)

/-- Edges to nodes on the same places, numbered alike. -/
def SameEdges {n n' : Nat} : List (Nat × Fin n) → List (Nat × Fin n') → Prop :=
  List.Forall₂ fun e e' => e.1 = e'.1 ∧ e.2.val = e'.2.val

theorem RespeltAs.edgesOf (h : g.RespeltAs g') (hp : p.RespeltAs p') : SameEdges (g.edgesOf p) (g'.edgesOf p') := by
  refine List.rel_filterMap (fun d d' hd => ?_) hp.dependencies
  have hnode := h.node? hd.pipeline
  revert hnode
  cases g.node? d.pipeline <;> cases g'.node? d'.pipeline <;> intro hnode
  · exact .none
  · cases hnode
  · cases hnode
  · exact .some ⟨hd.materialIndex, Option.some.inj hnode⟩

/-- The errors of the nodes on cycles: all that they are made of is the edges and the names of the nodes. -/
def cycleErrorsOf {n : Nat} (edges : CycleSearch.Edges n) (name : Fin n → PipelineName) : List ConfigError :=
  (List.finRange n).filterMap fun root =>
    (CycleSearch.closing? edges root).map fun closing =>
      { pipeline := name root
        materialIndex := some closing.firstEdge
        kind := .circularDependency ((closing.path root).map name) }

theorem cycleErrorsOf_congr {n n' : Nat} (hn : n = n') {edges : CycleSearch.Edges n} {edges' : CycleSearch.Edges n'}
    (name : Fin n → PipelineName) (name' : Fin n' → PipelineName)
    (hedges : ∀ v : Fin n, SameEdges (edges.get v) (edges'.get (v.cast hn))) (hname : ∀ v, name v = name' (v.cast hn)) :
    cycleErrorsOf edges name = cycleErrorsOf edges' name' := by
  subst hn
  obtain rfl : name = name' := funext hname
  obtain rfl : edges = edges' := Vector.ext fun i hi => by
    have hsame : SameEdges edges[i] edges'[i] := hedges ⟨i, hi⟩
    rw [← List.forall₂_eq_eq_eq]
    exact hsame.imp fun e e' he => Prod.ext he.1 (Fin.ext he.2)
  rfl

theorem RespeltAs.cycleErrors (h : g.RespeltAs g') : g.cycleErrors = g'.cycleErrors := by
  -- of the pipelines, the search sees the edges and the errors the names
  refine cycleErrorsOf_congr h.pipelines.length_eq (fun v => g.pipelines[v].name) (fun v => g'.pipelines[v].name)
    (fun v => ?_) fun v => (h.get rfl).name
  rw [get_edges, get_edges]
  exact h.edgesOf (h.get rfl)

theorem RespeltAs.referenceErrors (h : g.RespeltAs g') :
    List.Forall₂ ConfigError.RespeltAs g.referenceErrors g'.referenceErrors := by
  refine List.rel_flatMap h.pipelines fun p p' hp => List.rel_filterMap (fun d d' hd => ?_) hp.dependencies
  rw [referenceError?, referenceError?, ← hp.name, ← hd.materialIndex]
  obtain ⟨hnone, hnone'⟩ | ⟨named, named', hfound, hfound', hnamed⟩ := cases_of_rel (h.pipeline? hd.pipeline)
  · rw [hnone, hnone']
    exact .some (.intro _ _ (.unknownPipeline hd.pipeline))
  · have hstage : named.hasStage d.stage = named'.hasStage d'.stage := by
      rw [hnamed.hasStage, Pipeline.hasStage, Pipeline.hasStage]
      exact congrArg (List.any _) (funext fun stage => Name.same_congr_right hd.stage stage.name)
    rw [hfound, hfound']
    dsimp only
    rw [hstage]
    split
    · exact .none
    · exact .some (.intro _ _ (.unknownStage hd.pipeline hd.stage))

theorem RespeltAs.duplicateErrors (h : g.RespeltAs g') : g.duplicateErrors = g'.duplicateErrors :=
  map_eq_of_forall₂ h.repeated fun p p' hp => by rw [hp.name]

theorem RespeltAs.errors (h : g.RespeltAs g') : List.Forall₂ ConfigError.RespeltAs g.errors g'.errors := by
  rw [Graph.errors, Graph.errors, h.duplicateErrors, h.cycleErrors]
  have hrefl : ∀ errors : List ConfigError, List.Forall₂ ConfigError.RespeltAs errors errors :=
    fun errors => List.forall₂_same.mpr fun e _ => .refl e
  exact List.rel_append (List.rel_append (hrefl _) h.referenceErrors) (hrefl _)

/-- Links between nodes on the same places, numbered alike. -/
structure Link.SameAs {n n' : Nat} (l : Link n) (l' : Link n') : Prop where
  needed : l.needed.val = l'.needed.val
  dependent : l.dependent.val = l'.dependent.val
  materialIndex : l.materialIndex = l'.materialIndex

theorem forall₂_finRange {n n' : Nat} (h : n = n') :
    List.Forall₂ (fun (v : Fin n) (v' : Fin n') => v.val = v'.val) (List.finRange n) (List.finRange n') := by
  subst h
  exact List.forall₂_same.mpr fun v _ => rfl

theorem RespeltAs.links (h : g.RespeltAs g') : List.Forall₂ Link.SameAs g.links g'.links := by
  refine List.rel_flatMap (forall₂_finRange h.pipelines.length_eq) fun v v' hv => ?_
  exact List.rel_map (fun e e' he => ⟨he.2, hv, he.1⟩) (h.edgesOf (h.get hv))

/-- A name has the same neighbours, as long as the ends of the links are on the same places. -/
theorem RespeltAs.neighbours_eq (h : g.RespeltAs g') {near far : Link g.pipelines.length → g.Node}
    {near' far' : Link g'.pipelines.length → g'.Node}
    (hnear : ∀ l l', Link.SameAs l l' → (near l).val = (near' l').val)
    (hfar : ∀ l l', Link.SameAs l l' → (far l).val = (far' l').val) (name : PipelineName) :
    g.neighbours near far name = g'.neighbours near' far' name := by
  have hnode := h.node? name.same_refl
  unfold neighbours
  revert hnode
  cases g.node? name <;> cases g'.node? name <;> intro hnode
  · rfl
  · cases hnode
  · cases hnode
  · next v v' =>
    have hv : v.val = v'.val := Option.some.inj hnode
    have hlinks := filter_of_forall₂ h.links (f := fun l => near l == v) (g := fun l => near' l == v')
      fun l l' hl => by rw [Bool.eq_iff_iff, beq_iff_eq, beq_iff_eq, Fin.ext_iff, Fin.ext_iff, hnear l l' hl, hv]
    exact congrArg (fun names => (SortedSet.ofList names).keys)
      (map_eq_of_forall₂ hlinks fun l l' hl => (h.get (hfar l l' hl)).name)

/-- The pipelines that a name waits for, and those that wait for it. -/
theorem RespeltAs.neighbours (h : g.RespeltAs g') (name : PipelineName) :
    g.prerequisites name = g'.prerequisites name ∧ g.dependents name = g'.dependents name :=
  ⟨h.neighbours_eq (fun _ _ hl => hl.dependent) (fun _ _ hl => hl.needed) name,
    h.neighbours_eq (fun _ _ hl => hl.needed) (fun _ _ hl => hl.dependent) name⟩

end Graph

/-! ### Snapshots -/

structure Snapshot.RespeltAs (s s' : Snapshot) : Prop where
  version : s.version = s'.version
  graph : s.graph.RespeltAs s'.graph
  pollable : s.pollable.contains = s'.pollable.contains
  postCommit : s.postCommit = s'.postCommit
  timers : s.timers = s'.timers

namespace Configuration

variable {c c' : Configuration}

theorem RespeltAs.declaredMaterials (h : c.RespeltAs c') :
    List.Forall₂ Material.RespeltAs c.declaredMaterials c'.declaredMaterials :=
  List.rel_append (List.rel_flatMap h.pipelines fun _ _ hp => hp.materials)
    (List.rel_map (fun r r' hr => by cases hr; assumption) h.configRepos)

theorem RespeltAs.pollable (h : c.RespeltAs c') : c.pollable.contains = c'.pollable.contains := by
  funext f
  have hpolled := filter_of_forall₂ h.declaredMaterials fun _ _ hm => hm.autoUpdate
  rw [SortedMap.contains_eq_isSome_get?, SortedMap.contains_eq_isSome_get?, Configuration.pollable,
    Configuration.pollable, get?_collect, get?_collect]
  exact isSome_of_rel (find?_of_forall₂ hpolled fun _ _ hm => by rw [hm.fingerprint])

/-- Only repositories wait for notifications, and these are the same. -/
theorem RespeltAs.postCommit (h : c.RespeltAs c') : c.postCommit = c'.postCommit := by
  have hwaiting := filter_of_forall₂ h.declaredMaterials fun _ _ hm => hm.waits
  -- side by side, and each on the left no dependency
  refine congrArg MaterialSet.collect ?_
  rw [← List.forall₂_eq_eq_eq]
  refine ((List.forall₂_and_left _ _).mpr ⟨fun m hm => ?_, hwaiting⟩).imp fun m m' hboth =>
    hboth.2.eq_of_not_dependency hboth.1
  have hrepository := (Material.waits_iff.mp (List.mem_filter.mp hm).2).2
  simpa [Material.isDependency] using hrepository

theorem timersOf_respelt {pipelines pipelines' : List Pipeline}
    (h : List.Forall₂ Pipeline.RespeltAs pipelines pipelines') :
    Snapshot.timerErrors pipelines = Snapshot.timerErrors pipelines' ∧
      Snapshot.timersOf pipelines = Snapshot.timersOf pipelines' := by
  refine ⟨filterMap_eq_of_forall₂ h fun p p' hp => by rw [hp.schedule?], congrArg SortedMap.ofList ?_⟩
  exact filterMap_eq_of_forall₂ h fun p p' hp => by rw [hp.schedule?, hp.name]

theorem RespeltAs.errors (h : c.RespeltAs c') :
    List.Forall₂ ConfigError.RespeltAs (Snapshot.errors c) (Snapshot.errors c') := by
  rw [Snapshot.errors, Snapshot.errors, (timersOf_respelt h.graph.pipelines).1]
  exact List.rel_append h.graph.errors (List.forall₂_same.mpr fun e _ => .refl e)

/-- Both are accepted, or both are refused for the same reasons. -/
theorem RespeltAs.build (h : c.RespeltAs c') (version : Nat) :
    (∃ s s', Snapshot.build c version = .ok s ∧ Snapshot.build c' version = .ok s' ∧ s.RespeltAs s') ∨
      ∃ errors errors', Snapshot.build c version = .error errors ∧ Snapshot.build c' version = .error errors' ∧
        List.Forall₂ ConfigError.RespeltAs errors errors' := by
  have herrors := h.errors
  rw [Snapshot.build, Snapshot.build]
  revert herrors
  cases Snapshot.errors c <;> cases Snapshot.errors c' <;> rintro (_ | ⟨he, hrest⟩)
  · exact Or.inl ⟨_, _, rfl, rfl, rfl, h.graph, h.pollable, h.postCommit, (timersOf_respelt h.graph.pipelines).2⟩
  · exact Or.inr ⟨_, _, rfl, rfl, .cons he hrest⟩

theorem RespeltAs.isOk_build (h : c.RespeltAs c') (version : Nat) :
    (Snapshot.build c version).isOk = (Snapshot.build c' version).isOk := by
  obtain ⟨s, s', hbuild, hbuild', -⟩ | ⟨errors, errors', hbuild, hbuild', -⟩ := h.build version
  · rw [hbuild, hbuild']
    rfl
  · rw [hbuild, hbuild']
    rfl

/-- Nothing in how two configurations are read tells them apart: their materials have the same fingerprints, their
nodes the same names and edges, they are both accepted or both refused, and then for the same errors. -/
structure ReadAlike (c c' : Configuration) : Prop where
  fingerprints : c.declaredMaterials.map Material.fingerprint = c'.declaredMaterials.map Material.fingerprint
  checkouts :
    c.declaredMaterials.map Material.checkoutFingerprint = c'.declaredMaterials.map Material.checkoutFingerprint
  nodes : (Graph.ofPipelines c.pipelines).pipelines.map Pipeline.name =
    (Graph.ofPipelines c'.pipelines).pipelines.map Pipeline.name
  edges : List.Forall₂
    (fun p p' =>
      Graph.SameEdges ((Graph.ofPipelines c.pipelines).edgesOf p) ((Graph.ofPipelines c'.pipelines).edgesOf p'))
    (Graph.ofPipelines c.pipelines).pipelines (Graph.ofPipelines c'.pipelines).pipelines
  neighbours : ∀ name,
    (Graph.ofPipelines c.pipelines).prerequisites name = (Graph.ofPipelines c'.pipelines).prerequisites name ∧
      (Graph.ofPipelines c.pipelines).dependents name = (Graph.ofPipelines c'.pipelines).dependents name
  verdict : ∀ version, (Snapshot.build c version).isOk = (Snapshot.build c' version).isOk
  errors : List.Forall₂ ConfigError.RespeltAs (Snapshot.errors c) (Snapshot.errors c')

theorem RespeltAs.readAlike (h : c.RespeltAs c') : c.ReadAlike c' where
  fingerprints := map_eq_of_forall₂ h.declaredMaterials fun _ _ hm => hm.fingerprint
  checkouts := map_eq_of_forall₂ h.declaredMaterials fun _ _ hm => hm.checkoutFingerprint
  nodes := h.graph.map_name
  edges := h.graph.pipelines.imp fun _ _ hp => h.graph.edgesOf hp
  neighbours := h.graph.neighbours
  verdict := h.isOk_build
  errors := h.errors

end Configuration

end BuildScheduling
