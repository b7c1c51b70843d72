import BuildScheduling.Snapshot
import BuildScheduling.Proofs.Graph.Neighbours

/-!
# Which errors a configuration has, cycles apart

A configuration is refused with all that is wrong with it, in one order: names that were declared before, references of
the first declarations, cycles, timers of the first declarations. `Configuration.redeclared`, `Configuration.badReference?`
and `Pipeline.badTimer?` say what is wrong with a declaration, a reference and a timer from the configuration alone, and
`reference_and_timer_errors_exact` lists the errors in these terms. Each belongs to the pipeline that is at fault, and
none to the pipelines that wait for it.
-/

namespace BuildScheduling

namespace Configuration

/-- The declarations of a name that was declared before them, in any spelling. -/
def redeclared (c : Configuration) : List Pipeline :=
  c.pipelines.zipIdx.filterMap fun (p, i) => if (c.pipelines.take i).any p.sameName then some p else none

/-- The declarations that count. -/
def firsts (c : Configuration) : List Pipeline := c.pipelines.eraseDupsBy Pipeline.sameName

/-- What is wrong with the reference that a material makes. -/
inductive BadReference (c : Configuration) (m : Material) : ConfigErrorKind → Prop
  | unknownPipeline {named : PipelineName} {stage : StageName} (hsource : m.source = .dependency named stage)
      (hnobody : ∀ p ∈ c.pipelines, p.name.same named = false) : BadReference c m (.unknownPipeline named)
  | unknownStage {named : PipelineName} {stage : StageName} {p : Pipeline} (hsource : m.source = .dependency named stage)
      (hp : c.pipeline? named = some p) (hnone : ∀ s ∈ p.stages, s.name.same stage = false) :
      BadReference c m (.unknownStage named stage)

def badReference? (c : Configuration) (m : Material) : Option ConfigErrorKind :=
  match m.source with
  | .scm .. => none
  | .dependency named stage =>
    match c.pipeline? named with
    | none => some (.unknownPipeline named)
    | some p => if p.stages.any (fun s => s.name.same stage) then none else some (.unknownStage named stage)

theorem badReference?_eq_some_iff {c : Configuration} {m : Material} {kind : ConfigErrorKind} :
    c.badReference? m = some kind ↔ c.BadReference m kind := by
  constructor
  · intro h
    unfold badReference? at h
    cases hsource : m.source with
    | scm type url branch => simp [hsource] at h
    | dependency named stage =>
      rw [hsource] at h
      dsimp only at h
      cases hp : c.pipeline? named with
      | none =>
        simp only [hp, Option.some.injEq] at h
        subst h
        exact .unknownPipeline hsource (by simpa using List.find?_eq_none.mp hp)
      | some p =>
        simp only [hp, Option.ite_none_left_eq_some, Option.some.injEq] at h
        obtain ⟨hnone, rfl⟩ := h
        exact .unknownStage hsource hp (by simpa using hnone)
  · intro h
    cases h with
    | @unknownPipeline named _ hsource hnobody =>
      have hp : c.pipeline? named = none := List.find?_eq_none.mpr fun p hp => by simp [hnobody p hp]
      simp [badReference?, hsource, hp]
    | unknownStage hsource hp hnone => simpa [badReference?, hsource, hp] using hnone

def redeclarationErrors (c : Configuration) : List ConfigError :=
  c.redeclared.map fun p => { pipeline := p.name, kind := .duplicatePipeline }

/-- The errors of the references, on the pipelines that make them. -/
def badReferenceErrors (c : Configuration) : List ConfigError :=
  c.firsts.flatMap fun p => p.materials.zipIdx.filterMap fun (m, i) =>
    (c.badReference? m).map fun kind => { pipeline := p.name, materialIndex := some i, kind }

end Configuration

/-- What is wrong with the timer of a pipeline. -/
def Pipeline.badTimer? (p : Pipeline) : Option ConfigErrorKind :=
  p.timer.bind fun timer =>
    if (Cron.Schedule.ofSpec? timer.spec).isSome then none
    else some (.invalidTimer timer.spec (Cron.diagnosis timer.spec))

def Configuration.badTimerErrors (c : Configuration) : List ConfigError :=
  c.firsts.filterMap fun p => p.badTimer?.map fun kind => { pipeline := p.name, kind }

/-- What a configuration is refused with. -/
def Snapshot.complaints : Except (List ConfigError) Snapshot → List ConfigError
  | .ok _ => []
  | .error errors => errors

/-! ### One kind after the other -/

theorem repeatedDeclarations_eq {seen : List PipelineName} {declared : List Pipeline} :
    repeatedDeclarations seen declared = declared.zipIdx.filterMap fun (p, i) =>
      if seen.any p.name.same || (declared.take i).any p.sameName then some p else none := by
  induction declared generalizing seen with
  | nil => rfl
  | cons p rest ih =>
    have hlater : ∀ names : List PipelineName,
        (∀ q : Pipeline, names.any q.name.same = (seen.any q.name.same || q.sameName p)) →
        repeatedDeclarations names rest = (rest.zipIdx 1).filterMap fun (q, i) =>
          if seen.any q.name.same || ((p :: rest).take i).any q.sameName then some q else none := by
      intro names hnames
      rw [ih, List.zipIdx_succ, List.filterMap_map]
      refine List.filterMap_congr fun ⟨q, i⟩ _ => ?_
      simp only [hnames, Function.comp_apply, List.take_succ_cons, List.any_cons, Bool.or_assoc]
      rfl
    rw [repeatedDeclarations, List.zipIdx_cons, List.filterMap_cons]
    by_cases hp : seen.any p.name.same = true
    · -- a later namesake of `p` is one of what was seen before
      rw [if_pos hp, hlater seen fun q => ?_]
      · simp [hp]
      · rw [Bool.eq_iff_iff, Bool.or_eq_true]
        refine ⟨Or.inl, fun h => h.elim id fun hsame => ?_⟩
        obtain ⟨n, hn, hpn⟩ := List.any_eq_true.mp hp
        exact List.any_eq_true.mpr ⟨n, hn, Name.same_trans hsame hpn⟩
    · rw [if_neg hp, hlater (p.name :: seen) fun q => ?_]
      · simp [hp]
      · rw [List.any_cons, Bool.or_comm, Pipeline.sameName]

namespace Graph

variable (c : Configuration)

theorem duplicateErrors_ofPipelines : (ofPipelines c.pipelines).duplicateErrors = c.redeclarationErrors := by
  rw [duplicateErrors, repeated_eq_repeatedDeclarations, repeatedDeclarations_eq, Configuration.redeclarationErrors,
    Configuration.redeclared]
  simp

theorem pipelines_ofPipelines_eq_firsts : (ofPipelines c.pipelines).pipelines = c.firsts :=
  pipelines_eq_eraseDupsBy c.pipelines

/-- A reference is at fault in the graph as it is in the configuration. -/
theorem filterMap_referenceError? (p : Pipeline) :
    p.dependencies.filterMap ((ofPipelines c.pipelines).referenceError? p) =
      p.materials.zipIdx.filterMap fun (m, i) =>
        (c.badReference? m).map fun kind => { pipeline := p.name, materialIndex := some i, kind } := by
  rw [Pipeline.dependencies, List.filterMap_filterMap]
  refine List.filterMap_congr fun indexed _ => ?_
  obtain ⟨m, i⟩ := indexed
  dsimp only
  cases hsource : m.source with
  | scm type url branch => simp [Material.dependency?, Configuration.badReference?, hsource]
  | dependency named stage =>
    rw [Material.dependency?_eq_some_iff.mpr hsource]
    simp only [Option.map_some, Option.bind_some, referenceError?, pipeline?_ofPipelines, Pipeline.hasStage,
      Configuration.badReference?, hsource]
    cases c.pipeline? named with
    | none => rfl
    | some q =>
      by_cases hstage : (q.stages.any fun s => s.name.same stage) = true
      · simp only [hstage, if_true, Option.map_none]
      · simp only [hstage, Bool.false_eq_true, if_false, Option.map_some]

theorem referenceErrors_ofPipelines : (ofPipelines c.pipelines).referenceErrors = c.badReferenceErrors := by
  simp only [referenceErrors, filterMap_referenceError?, pipelines_ofPipelines_eq_firsts,
    Configuration.badReferenceErrors]

end Graph

namespace Snapshot

theorem timerErrors_eq (pipelines : List Pipeline) :
    timerErrors pipelines =
      pipelines.filterMap fun p => p.badTimer?.map fun kind => { pipeline := p.name, kind } := by
  refine List.filterMap_congr fun p _ => ?_
  unfold Pipeline.schedule? Pipeline.badTimer?
  cases p.timer with
  | none => rfl
  | some timer => cases hspec : Cron.Schedule.ofSpec? timer.spec <;> simp [hspec]

theorem complaints_build (c : Configuration) (version : Nat) : complaints (build c version) = errors c := by
  unfold build
  split
  · next herrors => rw [herrors]; rfl
  · rfl

/-- All errors of a configuration, in their order. -/
theorem errors_eq (c : Configuration) :
    errors c = c.redeclarationErrors ++ c.badReferenceErrors ++ (Graph.ofPipelines c.pipelines).cycleErrors ++
      c.badTimerErrors := by
  rw [errors, Graph.errors, Graph.duplicateErrors_ofPipelines, Graph.referenceErrors_ofPipelines, timerErrors_eq,
    Graph.pipelines_ofPipelines_eq_firsts]
  rfl

end Snapshot

namespace Configuration

variable {c : Configuration} {e : ConfigError}

theorem isCycle_of_mem_badTimerErrors (h : e ∈ c.badTimerErrors) : e.isCycle = false := by
  obtain ⟨p, -, hp⟩ := List.mem_filterMap.mp h
  obtain ⟨kind, hkind, rfl⟩ := Option.map_eq_some_iff.mp hp
  obtain ⟨timer, -, htimer⟩ := Option.bind_eq_some_iff.mp hkind
  obtain ⟨-, rfl⟩ : _ ∧ _ = kind := by simpa using htimer
  rfl

/-- Errors that name a cycle stand together, before the timers. -/
theorem filter_isCycle_errors (c : Configuration) :
    (Snapshot.errors c).filter ConfigError.isCycle = (Graph.ofPipelines c.pipelines).cycleErrors ∧
    (Snapshot.errors c).filter (fun e => !e.isCycle) =
      c.redeclarationErrors ++ c.badReferenceErrors ++ c.badTimerErrors := by
  have hredeclared : ∀ e ∈ c.redeclarationErrors, e.isCycle = false := fun e he => by
    rw [← Graph.duplicateErrors_ofPipelines] at he
    exact Graph.isCycle_of_mem_duplicateErrors he
  have hreference : ∀ e ∈ c.badReferenceErrors, e.isCycle = false := fun e he => by
    rw [← Graph.referenceErrors_ofPipelines] at he
    exact Graph.isCycle_of_mem_referenceErrors he
  have hcycle : ∀ e ∈ (Graph.ofPipelines c.pipelines).cycleErrors, e.isCycle = true :=
    fun e he => Graph.isCycle_of_mem_cycleErrors he
  have htimer : ∀ e ∈ c.badTimerErrors, e.isCycle = false := fun e he => isCycle_of_mem_badTimerErrors he
  have hnone : ∀ errors : List ConfigError, (∀ e ∈ errors, e.isCycle = false) →
      errors.filter ConfigError.isCycle = [] ∧ errors.filter (fun e => !e.isCycle) = errors := fun errors h =>
    ⟨List.filter_eq_nil_iff.mpr fun e he => by simp [h e he], List.filter_eq_self.mpr fun e he => by simp [h e he]⟩
  have hall : (Graph.ofPipelines c.pipelines).cycleErrors.filter ConfigError.isCycle =
        (Graph.ofPipelines c.pipelines).cycleErrors ∧
      (Graph.ofPipelines c.pipelines).cycleErrors.filter (fun e => !e.isCycle) = [] :=
    ⟨List.filter_eq_self.mpr hcycle, List.filter_eq_nil_iff.mpr fun e he => by simp [hcycle e he]⟩
  simp [Snapshot.errors_eq, hnone _ hredeclared, hnone _ hreference, hnone _ htimer, hall]

/-! ### Owners -/

theorem distinct_firsts (c : Configuration) : Distinct c.firsts :=
  Graph.pipelines_ofPipelines_eq_firsts c ▸ Graph.distinct_pipelines c.pipelines

/-- An error of a reference belongs to a pipeline that has a material with this reference. -/
theorem exists_of_mem_badReferenceErrors (h : e ∈ c.badReferenceErrors) :
    ∃ p ∈ c.firsts, e.pipeline = p.name ∧ ∃ m ∈ p.materials, c.badReference? m = some e.kind := by
  obtain ⟨p, hp, he⟩ := List.mem_flatMap.mp h
  obtain ⟨⟨m, i⟩, hm, hmap⟩ := List.mem_filterMap.mp he
  obtain ⟨kind, hkind, rfl⟩ := Option.map_eq_some_iff.mp hmap
  exact ⟨p, hp, rfl, m, List.fst_mem_of_mem_zipIdx hm, hkind⟩

theorem exists_of_mem_badTimerErrors (h : e ∈ c.badTimerErrors) :
    ∃ p ∈ c.firsts, e.pipeline = p.name ∧ p.badTimer? = some e.kind := by
  obtain ⟨p, hp, he⟩ := List.mem_filterMap.mp h
  obtain ⟨kind, hkind, rfl⟩ := Option.map_eq_some_iff.mp he
  exact ⟨p, hp, rfl, hkind⟩

/-- A pipeline whose name is declared once, whose references are good and whose timer can be read has no error, a cycle
apart, whatever is wrong with the pipelines that it waits for. -/
theorem not_same_of_faultless {p : Pipeline} (hp : p ∈ c.firsts)
    (hreferences : ∀ m ∈ p.materials, c.badReference? m = none)
    (htimer : p.badTimer? = none) (hname : ∀ q ∈ c.redeclared, q.name.same p.name = false)
    (he : e ∈ c.redeclarationErrors ++ c.badReferenceErrors ++ c.badTimerErrors) :
    e.pipeline.same p.name = false := by
  rcases List.mem_append.mp he with he | he
  · rcases List.mem_append.mp he with he | he
    · obtain ⟨q, hq, rfl⟩ := List.mem_map.mp he
      exact hname q hq
    · obtain ⟨q, hq, howner, m, hm, hkind⟩ := exists_of_mem_badReferenceErrors he
      rw [howner, Bool.eq_false_iff]
      intro hsame
      obtain rfl := c.distinct_firsts.eq_of_same hq hp hsame
      rw [hreferences m hm] at hkind
      cases hkind
  · obtain ⟨q, hq, howner, hkind⟩ := exists_of_mem_badTimerErrors he
    rw [howner, Bool.eq_false_iff]
    intro hsame
    obtain rfl := c.distinct_firsts.eq_of_same hq hp hsame
    rw [htimer] at hkind
    cases hkind

end Configuration

/-- What a configuration is refused with. First come the names that were declared before, in declaration order. Then,
pipeline by pipeline and material by material, the references to a pipeline that nobody declares or a stage that the
first pipeline of the name does not have, each on the pipeline that makes it and with the index of the material. Then
come the cycles, and then the timers that cannot be read. A pipeline that is not at fault itself has no error but that
of a cycle. -/
theorem reference_and_timer_errors_exact (c : Configuration) (version : Nat) :
    let errors := Snapshot.complaints (Snapshot.build c version)
    errors = c.redeclarationErrors ++ c.badReferenceErrors ++ errors.filter ConfigError.isCycle ++ c.badTimerErrors ∧
    errors.filter (fun e => !e.isCycle) = c.redeclarationErrors ++ c.badReferenceErrors ++ c.badTimerErrors ∧
    (∀ m kind, c.badReference? m = some kind ↔ c.BadReference m kind) ∧
    ∀ p ∈ c.firsts, (∀ m ∈ p.materials, c.badReference? m = none) → p.badTimer? = none →
      (∀ q ∈ c.redeclared, q.name.same p.name = false) →
      ∀ e ∈ errors, e.isCycle = false → e.pipeline.same p.name = false := by
  intro errors
  have herrors : errors = Snapshot.errors c := Snapshot.complaints_build c version
  obtain ⟨hcycles, hothers⟩ := c.filter_isCycle_errors
  rw [herrors]
  refine ⟨?_, hothers, fun m kind => Configuration.badReference?_eq_some_iff,
    fun p hp hreferences htimer hname e he hcycle => ?_⟩
  · rw [hcycles]
    exact Snapshot.errors_eq c
  · have he : e ∈ (Snapshot.errors c).filter fun e => !e.isCycle := List.mem_filter.mpr ⟨he, by simp [hcycle]⟩
    rw [hothers] at he
    exact Configuration.not_same_of_faultless hp hreferences htimer hname he

/-! A pipeline with a reference to nobody, and one that waits for it. -/

def stranded : Pipeline :=
  Samples.withMaterials ⟨"app"⟩ [Samples.git "src", .dependency ⟨"gone"⟩ ⟨"build"⟩, .dependency ⟨"lib"⟩ ⟨"deploy"⟩]

def waiting : Pipeline := Samples.simple ⟨"docs"⟩ (.dependency ⟨"app"⟩ ⟨"build"⟩)

/-- The name of the second pipeline is declared again, with a bad reference and a timer that cannot be read. -/
def faulty : Configuration where
  pipelines := [stranded, Samples.simple ⟨"lib"⟩ (Samples.git "lib"),
    { Samples.simple ⟨"lib"⟩ (.dependency ⟨"gone"⟩ ⟨"build"⟩) with timer := some { spec := "daily" } }, waiting]

/-- Three things are wrong, and the pipeline that waits for the faulty one is not told of them. -/
theorem docs_not_told_of_faults :
    waiting ∈ faulty.firsts ∧
    ((Snapshot.complaints (Snapshot.build faulty 1)).filter fun e => !e.isCycle) =
      [{ pipeline := ⟨"lib"⟩, kind := .duplicatePipeline },
        { pipeline := ⟨"app"⟩, materialIndex := some 1, kind := .unknownPipeline ⟨"gone"⟩ },
        { pipeline := ⟨"app"⟩, materialIndex := some 2, kind := .unknownStage ⟨"lib"⟩ ⟨"deploy"⟩ }] ∧
    ∀ e ∈ Snapshot.complaints (Snapshot.build faulty 1), e.isCycle = false → e.pipeline.same waiting.name = false := by
  have hfirst : waiting ∈ faulty.firsts := by decide +kernel
  have hreferences : ∀ m ∈ waiting.materials, faulty.badReference? m = none := by decide +kernel
  have hname : ∀ q ∈ faulty.redeclared, q.name.same waiting.name = false := by decide +kernel
  obtain ⟨-, herrors, -, hfaultless⟩ := reference_and_timer_errors_exact faulty 1
  refine ⟨hfirst, herrors.trans ?_, hfaultless waiting hfirst hreferences rfl hname⟩
  decide +kernel

end BuildScheduling
