import BuildScheduling.Proofs.Health.Notes
import BuildScheduling.Proofs.Snapshot.Acceptance
import BuildScheduling.Proofs.Latest.Climbing
import BuildScheduling.Samples

/-!
# The latest revision of a dependency never moves backwards

One dependency material is watched over a run in which anything may happen: reports of any runs in any order,
attempts on any pipelines, with or without a revision of the material asked for by name, failures, and
configurations. As long as every accepted configuration declares the material, the revisions of it that are
returned, one deed after another, do not step back, and neither does the latest known one
(`latest_never_moves_back`). A configuration without the material makes the engine forget it, so what came
before such a configuration bounds nothing.

A deed either asks for revisions in one attempt, which `Attempt.Climbs` is about, or leaves alone what is
known, or reads a configuration (`rises_next`); a run is one deed after another (`rises_run`).
-/

namespace BuildScheduling

variable {σ χ : Type} {collab : Collaborators σ} {env : Environment σ χ} {Good : σ → Prop} {m : Material}

/-! ### What is watched -/

/-- The configurations that are read. -/
def Happening.configurations : Happening χ → List Configuration
  | .request (.reload c) => [c]
  | .request (.follow configurations) => configurations
  | _ => []

/-- The materials that something which happens brings up. -/
def Happening.materials : Happening χ → List Material
  | .request (.latest m) => [m]
  | h => h.configurations.flatMap fun c => c.pipelines.flatMap Pipeline.materials

/-- The worlds that come about by questions and by the changes that happen. -/
inductive Environment.Arises (env : Environment σ χ) (happenings : List (Happening χ)) (world : σ) :
    σ → Prop
  | start : Arises env happenings world world
  | latestRevisions (material : Fingerprint) (w : σ) (h : Arises env happenings world w) :
      Arises env happenings world (env.collab.latestRevisions material w).2
  | pollNow (material : Material) (w : σ) (h : Arises env happenings world w) :
      Arises env happenings world (env.collab.pollNow material w).2
  | changedSinceLastBuild (pipeline : PipelineName) (material : Fingerprint) (w : σ)
      (h : Arises env happenings world w) :
      Arises env happenings world (env.collab.changedSinceLastBuild pipeline material w).2
  | stageRuns (pipeline : PipelineName) (stage : StageName) (w : σ) (h : Arises env happenings world w) :
      Arises env happenings world (env.collab.stageRuns pipeline stage w).2
  | hasUnfinishedInstance (pipeline : PipelineName) (w : σ) (h : Arises env happenings world w) :
      Arises env happenings world (env.collab.hasUnfinishedInstance pipeline w).2
  | changed (change : χ) (hchange : Happening.world change ∈ happenings) (w : σ)
      (h : Arises env happenings world w) : Arises env happenings world (env.change w change)

theorem Environment.keeps_arises (env : Environment σ χ) (happenings : List (Happening χ)) (world : σ) :
    env.collab.Keeps (env.Arises happenings world) where
  latestRevisions := .latestRevisions
  pollNow := .pollNow
  changedSinceLastBuild := .changedSinceLastBuild
  stageRuns := .stageRuns
  hasUnfinishedInstance := .hasUnfinishedInstance

/-- Some pipeline builds from a material. -/
def Configuration.Declares (c : Configuration) (m : Material) : Prop :=
  ∃ p ∈ c.pipelines, ∃ other ∈ p.materials, other.fingerprint = m.fingerprint

/-- Brings up no material that shares the fingerprint without pointing at the same thing, and leads from good
worlds to good ones. -/
structure Happening.Harmless (env : Environment σ χ) (Good : σ → Prop) (m : Material) (h : Happening χ) :
    Prop where
  materials : ∀ other ∈ h.materials, m.Unshared other
  change : ∀ change, h = .world change → ∀ w, Good w → Good (env.change w change)

/-- Every configuration in which nothing is wrong declares a material. -/
def Happening.KeepsDeclared (m : Material) (h : Happening χ) : Prop :=
  ∀ c ∈ h.configurations, Snapshot.errors c = [] → c.Declares m

/-- The revisions of a material that a deed returned, without those that were asked for by name. -/
def Deed.returned (env : Environment σ χ) (m : Material) (d : Deed σ χ) : List Revision :=
  match d.happening, d.answer env with
  | .request (.latest other), .revision (.ok revision) =>
    if other.fingerprint = m.fingerprint then revision.toList else []
  | .request (.attempt _ event), .outcome (.ok (.succeeded cause)) =>
    Attempt.unpegged m event.overrides cause.materialRevisions
  | .request (.resolve _ overrides), .resolution (.ok (.complete revisions)) =>
    Attempt.unpegged m overrides revisions
  | _, _ => []

namespace Session

/-! ### Progress -/

theorem progress_report (s : Session σ) (r : HealthReport) :
    (s.report collab r).progress = s.progress := by
  unfold report
  split <;> rfl

theorem progress_clearHealth (s : Session σ) (scope : HealthScope) :
    (s.clearHealth collab scope).progress = s.progress := by
  unfold clearHealth
  split <;> rfl

theorem progress_reports (collab : Collaborators σ) (s : Session σ) (errors : List ConfigError) :
    (errors.foldl (fun s e =>
      s.report collab { scope := .configuration, level := .error, message := e.text }) s).progress =
      s.progress := by
  rw [reports_eq]
  rfl

theorem progress_attempt (s : Session σ) (p : Pipeline) (event : TriggerEvent) :
    (s.attempt collab p event).2.progress =
      { ((s.decision collab p event).on s.progress).2 with elapsed := 0 } := by
  rw [attempt_eq, perform_eq]
  rcases (s.decision collab p event).on s.progress with ⟨_ | cause | rejection, last⟩
  · exact progress_report _ _
  · simp only [conclude]
    split
    · rfl
    · exact progress_clearHealth _ _
  · exact progress_report _ _

/-- An attempt on a name comes to a decision, or it makes no progress. -/
theorem progress_schedule (collab : Collaborators σ) (s : Session σ) (name : PipelineName)
    (event : TriggerEvent) :
    (∃ p ∈ s.engine.snapshot.pipelines, (s.schedule collab name event).2.progress =
        { ((s.decision collab p event).on s.progress).2 with elapsed := 0 } ∧
      ∀ cause, (s.schedule collab name event).1 = .ok (.succeeded cause) →
        ((s.decision collab p event).on s.progress).1 = .ok (.succeeded cause)) ∨
    (s.schedule collab name event).2.progress = s.progress ∧
      ∀ cause, (s.schedule collab name event).1 ≠ .ok (.succeeded cause) := by
  unfold schedule
  cases hp : s.engine.snapshot.pipeline? name with
  | none => exact Or.inr ⟨rfl, by simp⟩
  | some p =>
    simp only
    split
    · exact Or.inr ⟨rfl, by simp⟩
    · split
      · exact Or.inr ⟨rfl, by simp⟩
      · split
        · exact Or.inr ⟨progress_report _ _, by simp⟩
        · refine Or.inl ⟨p, mem_of_pipeline? hp, progress_attempt (s.lock name) p event, fun cause h => ?_⟩
          obtain ⟨last, hdecision, -⟩ := attempt_ok_iff.mp h
          rw [← lock_decision s name]
          exact congrArg Prod.fst hdecision

theorem progress_publish (s : Session σ) (snapshot : Snapshot) :
    (s.publish collab snapshot).progress =
      { world := s.world, known := s.engine.known.filterKeys snapshot.materialFingerprints.contains } := by
  rw [publish, progress_clearHealth]
  rfl

theorem contains_materialFingerprints_of_build {c : Configuration} {version : Nat} {snapshot : Snapshot}
    (hbuild : Snapshot.build c version = .ok snapshot) :
    snapshot.materialFingerprints.contains m.fingerprint = true ↔ c.Declares m := by
  rw [Snapshot.contains_materialFingerprints, Snapshot.pipelines_of_build hbuild]
  rfl

/-- A configuration that is accepted makes the engine forget what it does not declare. -/
theorem progress_reload (collab : Collaborators σ) (s : Session σ) (c : Configuration) (m : Material) :
    (s.reload collab c).2.progress.world = s.world ∧
      ((s.reload collab c).2.progress.known.get? m.fingerprint = s.engine.known.get? m.fingerprint ∨
        (s.reload collab c).2.progress.known.get? m.fingerprint = none ∧ Snapshot.errors c = [] ∧
          ¬ c.Declares m) := by
  unfold reload
  cases hbuild : Snapshot.build c (s.engine.snapshot.version + 1) with
  | error errors =>
    simp only
    rw [progress_reports]
    exact ⟨rfl, Or.inl rfl⟩
  | ok snapshot =>
    simp only
    rw [progress_publish]
    refine ⟨rfl, ?_⟩
    rw [SortedMap.get?_filterKeys _ fun a b hab => SortedMap.contains_congr _ hab]
    by_cases hdeclared : c.Declares m
    · left
      rw [if_pos ((contains_materialFingerprints_of_build hbuild).mpr hdeclared)]
    · right
      refine ⟨?_, (Snapshot.build_eq_ok_iff.mp hbuild).1, hdeclared⟩
      rw [if_neg fun h => hdeclared ((contains_materialFingerprints_of_build hbuild).mp h)]

/-! ### Single deeds -/

/-- A session in which a material is watched: its progress is fit, and no declared material shares the
fingerprint unless it points at the same thing. -/
structure Watches (Good : σ → Prop) (m : Material) (s : Session σ) : Prop where
  fit : Attempt.Fit Good m s.progress
  unshared : ∀ p ∈ s.engine.snapshot.pipelines, ∀ other ∈ p.materials, m.Unshared other

/-- A deed that stays fit and whose returned revisions do not step back. -/
def RisesTo (env : Environment σ χ) (Good : σ → Prop) (m : Material) (s : Session σ) (h : Happening χ) :
    Prop :=
  Attempt.Fit Good m (s.next env h).2.progress ∧
    s.engine.known.Rises m (s.next env h).2.engine.known (Deed.returned env m ⟨s, h⟩)

theorem Watches.risesTo_of_eq {s : Session σ} {h : Happening χ} (hs : s.Watches Good m)
    (hprogress : (s.next env h).2.progress = s.progress)
    (hreturned : Deed.returned env m ⟨s, h⟩ = []) : s.RisesTo env Good m h := by
  have hknown : (s.next env h).2.engine.known = s.engine.known := congrArg Progress.known hprogress
  rw [RisesTo, hprogress, hknown, hreturned]
  exact ⟨hs.fit, .of_eq hs.fit.proper rfl⟩

section

variable (hwatch : env.collab.Watchable Good m)

include hwatch

theorem Watches.risesTo_attempt {s : Session σ} (hs : s.Watches Good m) (name : PipelineName)
    (event : TriggerEvent) : s.RisesTo env Good m (.request (.attempt name event)) := by
  rcases progress_schedule env.collab s name event with ⟨p, hp, hprogress, hcause⟩ | ⟨hprogress, hnone⟩
  · obtain ⟨returned, hfit, hrises, hpost⟩ :=
      Attempt.climbs_decide hwatch (hs.unshared p hp) s.engine.debounce event s.progress hs.fit
    have hknown : (s.schedule env.collab name event).2.engine.known =
        ((s.decision env.collab p event).on s.progress).2.known := congrArg Progress.known hprogress
    show Attempt.Fit Good m (s.schedule env.collab name event).2.progress ∧
      s.engine.known.Rises m (s.schedule env.collab name event).2.engine.known _
    rw [hprogress, hknown]
    refine ⟨⟨hfit.world, hfit.proper⟩, ?_⟩
    simp only [Deed.returned, Deed.answer, next, request]
    cases hanswer : (s.schedule env.collab name event).1 with
    | error failure => exact hrises.sublist (List.nil_sublist _)
    | ok outcome =>
      cases outcome with
      | rejected rejection => exact hrises.sublist (List.nil_sublist _)
      | succeeded cause =>
        have hreturned := hpost _ (hcause cause hanswer) cause rfl
        rw [hreturned] at hrises
        exact hrises
  · refine hs.risesTo_of_eq hprogress ?_
    simp only [Deed.returned, Deed.answer, next, request]
    cases hanswer : (s.schedule env.collab name event).1 with
    | error failure => rfl
    | ok outcome =>
      cases outcome with
      | rejected rejection => rfl
      | succeeded cause => exact absurd hanswer (hnone cause)

theorem Watches.risesTo_latest {s : Session σ} (hs : s.Watches Good m) {other : Material}
    (hother : m.Unshared other) : s.RisesTo env Good m (.request (.latest other)) := by
  have hclimbs : Attempt.Climbs Good m (Attempt.latest env.collab none s.engine.snapshot other) _ :=
    Attempt.climbs_latest hwatch hother
  obtain ⟨returned, hfit, hrises, hpost⟩ := hclimbs s.progress hs.fit
  refine ⟨⟨hfit.world, hfit.proper⟩, ?_⟩
  simp only [Deed.returned, Deed.answer, next, request, latest, perform_eq]
  cases hanswer : ((Attempt.latest env.collab none s.engine.snapshot other).on s.progress).1 with
  | error interruption => exact hrises.sublist (List.nil_sublist _)
  | ok revision =>
    have hreturned := hpost revision hanswer
    rw [hreturned] at hrises
    exact hrises

theorem Watches.risesTo_resolve {s : Session σ} (hs : s.Watches Good m) (name : PipelineName)
    (overrides : Overrides) : s.RisesTo env Good m (.request (.resolve name overrides)) := by
  cases hp : s.engine.snapshot.pipeline? name with
  | none =>
    apply hs.risesTo_of_eq
    · simp [next, request, resolve, hp]
    · simp [Deed.returned, Deed.answer, next, request, resolve, hp]
  | some p =>
    have hclimbs : Attempt.Climbs Good m (Attempt.resolve env.collab none s.engine.snapshot p overrides) _ :=
      Attempt.climbs_resolve hwatch (hs.unshared p (mem_of_pipeline? hp)) overrides
    obtain ⟨returned, hfit, hrises, hpost⟩ := hclimbs s.progress hs.fit
    simp only [RisesTo, Deed.returned, Deed.answer, next, request, resolve, hp, perform_eq]
    refine ⟨⟨hfit.world, hfit.proper⟩, ?_⟩
    cases hanswer : ((Attempt.resolve env.collab none s.engine.snapshot p overrides).on s.progress).1 with
    | error interruption => exact hrises.sublist (List.nil_sublist _)
    | ok resolution =>
      cases resolution with
      | incomplete missing => exact hrises.sublist (List.nil_sublist _)
      | complete revisions =>
        have hreturned := hpost _ hanswer revisions rfl
        rw [hreturned] at hrises
        exact hrises

theorem Watches.risesTo_or_reload {s : Session σ} {h : Happening χ} (hsingle : h.Single)
    (hharmless : h.Harmless env Good m) (hs : s.Watches Good m) :
    s.RisesTo env Good m h ∨ ∃ c, h = .request (.reload c) := by
  cases h with
  | world change =>
    have hworld := hharmless.change change rfl s.world hs.fit.world
    exact Or.inl ⟨⟨hworld, hs.fit.proper⟩, .of_eq hs.fit.proper rfl⟩
  | consume consumption => cases consumption <;> exact Or.inl (hs.risesTo_of_eq rfl rfl)
  | request request =>
    cases request with
    | attempt name event => exact Or.inl (hs.risesTo_attempt hwatch name event)
    | latest other =>
      have hother : m.Unshared other := hharmless.materials other (List.mem_singleton_self other)
      exact Or.inl (hs.risesTo_latest hwatch hother)
    | resolve name overrides => exact Or.inl (hs.risesTo_resolve hwatch name overrides)
    | reload c => exact Or.inr ⟨c, rfl⟩
    | postCommit url => exact hsingle.elim
    | tick after latest => exact hsingle.elim
    | follow configurations => exact hsingle.elim
    | due _ _ | snapshot | settings | latestKnown _ => exact Or.inl (hs.risesTo_of_eq rfl rfl)

end

theorem unshared_next {s : Session σ} {h : Happening χ} (hsingle : h.Single)
    (hmaterials : ∀ other ∈ h.materials, m.Unshared other) (hs : s.Watches Good m) :
    ∀ p ∈ (s.next env h).2.engine.snapshot.pipelines, ∀ other ∈ p.materials, m.Unshared other := by
  rcases (effect_next env s hsingle).snapshot_cases with hkept | ⟨c, rfl, hbuild⟩
  · rw [hkept]
    exact hs.unshared
  · rw [Snapshot.pipelines_of_build hbuild]
    intro p hp other hother
    apply hmaterials
    simp only [Happening.materials, Happening.configurations, List.mem_flatMap, List.mem_singleton,
      exists_eq_left]
    exact ⟨p, hp, hother⟩

section

variable (hwatch : env.collab.Watchable Good m)

include hwatch

theorem Watches.next {s : Session σ} {h : Happening χ} (hsingle : h.Single)
    (hharmless : h.Harmless env Good m) (hs : s.Watches Good m) : (s.next env h).2.Watches Good m := by
  refine ⟨?_, unshared_next hsingle hharmless.materials hs⟩
  rcases hs.risesTo_or_reload hwatch hsingle hharmless with hrises | ⟨c, rfl⟩
  · exact hrises.1
  · obtain ⟨hworld, hknown⟩ := s.progress_reload env.collab c m
    refine ⟨?_, fun r hr => ?_⟩
    · show Good (s.reload env.collab c).2.progress.world
      rw [hworld]
      exact hs.fit.world
    · change (s.reload env.collab c).2.progress.known.get? m.fingerprint = some r at hr
      rcases hknown with hkept | ⟨hgone, -⟩
      · rw [hkept] at hr
        exact hs.fit.proper r hr
      · rw [hgone] at hr
        cases hr

/-- A single deed that reads no configuration without the material lets nothing step back. -/
theorem Watches.risesTo_next {s : Session σ} {h : Happening χ} (hsingle : h.Single)
    (hharmless : h.Harmless env Good m) (hdeclared : h.KeepsDeclared m) (hs : s.Watches Good m) :
    s.RisesTo env Good m h := by
  rcases hs.risesTo_or_reload hwatch hsingle hharmless with hrises | ⟨c, rfl⟩
  · exact hrises
  · refine ⟨(hs.next hwatch hsingle hharmless).fit, ?_⟩
    rcases (s.progress_reload env.collab c m).2 with hkept | ⟨-, herrors, hundeclared⟩
    · exact .of_eq hs.fit.proper hkept
    · exact absurd (hdeclared c (List.mem_singleton_self c) herrors) hundeclared

end

/-! ### Runs -/

theorem harmless_of_mem_parts {s : Session σ} {h part : Happening χ} (hpart : part ∈ s.parts h)
    (hharmless : h.Harmless env Good m) : part.Harmless env Good m := by
  rcases mem_parts_cases hpart with ⟨name, event, rfl⟩ | ⟨configurations, rfl, c, hc, rfl⟩ | ⟨rfl, -⟩
  · exact ⟨fun _ h => absurd h List.not_mem_nil, fun _ h => by cases h⟩
  · refine ⟨fun other hother => hharmless.materials other ?_, fun _ h => by cases h⟩
    simp only [Happening.materials, Happening.configurations, List.mem_flatMap, List.mem_singleton,
      exists_eq_left] at hother ⊢
    exact ⟨c, hc, hother⟩
  · exact hharmless

theorem keepsDeclared_of_mem_parts {s : Session σ} {h part : Happening χ} (hpart : part ∈ s.parts h)
    (hdeclared : h.KeepsDeclared m) : part.KeepsDeclared m := by
  rcases mem_parts_cases hpart with ⟨name, event, rfl⟩ | ⟨configurations, rfl, c, hc, rfl⟩ | ⟨rfl, -⟩
  · exact fun _ h => absurd h List.not_mem_nil
  · intro c' hc'
    rw [List.mem_singleton.mp hc']
    exact hdeclared c hc
  · exact hdeclared

section

variable (hwatch : env.collab.Watchable Good m) {happenings : List (Happening χ)}
  (hharmless : ∀ h ∈ happenings, h.Harmless env Good m)

include hwatch hharmless

theorem Watches.watches_run {s : Session σ} (hs : s.Watches Good m) :
    (∀ d ∈ s.history env happenings, d.before.Watches Good m) ∧
      (s.run env happenings).Watches Good m := by
  have hatoms : ∀ part ∈ s.atoms env happenings, part.Single ∧ part.Harmless env Good m := by
    intro part hpart
    obtain ⟨_, h, hh, hmem⟩ := exists_mem_parts_of_mem_atoms hpart
    exact ⟨single_of_mem_parts hmem, harmless_of_mem_parts hmem (hharmless h hh)⟩
  have hstep : ∀ (s : Session σ) (h : Happening χ), h.Single ∧ h.Harmless env Good m →
      s.Watches Good m → (s.next env h).2.Watches Good m := fun _ _ hok hs => hs.next hwatch hok.1 hok.2
  rw [history, ← run_atoms s happenings]
  exact invariant_deeds hstep hs hatoms

variable (hdeclared : ∀ h ∈ happenings, h.KeepsDeclared m)

include hdeclared

theorem Watches.rises_of_mem_history {s : Session σ} (hs : s.Watches Good m) {d : Deed σ χ}
    (hd : d ∈ s.history env happenings) :
    d.before.engine.known.Rises m (d.after env).engine.known (d.returned env m) := by
  obtain ⟨_, h, hh, hmem⟩ := exists_mem_parts_of_mem_atoms (mem_of_mem_deeds hd)
  have hbefore := (hs.watches_run hwatch hharmless).1 d hd
  exact (hbefore.risesTo_next hwatch (single_of_mem_history hd)
    (harmless_of_mem_parts hmem (hharmless h hh)) (keepsDeclared_of_mem_parts hmem (hdeclared h hh))).2

end

/-- Where no deed lets anything step back, neither does the run. -/
theorem rises_deeds {s : Session σ} {atoms : List (Happening χ)}
    (hend : (s.run env atoms).engine.known.Proper m)
    (hdeeds : ∀ d ∈ s.deeds env atoms,
      d.before.engine.known.Rises m (d.after env).engine.known (d.returned env m)) :
    s.engine.known.Rises m (s.run env atoms).engine.known
      ((s.deeds env atoms).flatMap (Deed.returned env m)) := by
  induction atoms generalizing s with
  | nil => exact .of_eq hend rfl
  | cons h rest ih =>
    obtain ⟨hfirst, hrest⟩ := List.forall_mem_cons.mp hdeeds
    exact hfirst.trans (ih hend hrest)

/-- A dependency material, after any start of a run: as long as every accepted configuration declares it, its
revisions do not step back, from the one that is known first over all that are returned to the one that is
known last. No deed lowers the one that is known.

The runs that are listed for a stage carry its names in every world that arises, and no material that the run
brings up shares the fingerprint without pointing at the same thing. -/
theorem latest_never_moves_back (env : Environment σ χ) (settings : Settings) (world : σ) (m : Material)
    (hdependency : ∃ pipeline stage, m.source = .dependency pipeline stage)
    (before happenings : List (Happening χ))
    (hnames : ∀ w, env.Arises (before ++ happenings) world w → env.collab.NamesRuns w)
    (hunshared : ∀ h ∈ before ++ happenings, ∀ other ∈ h.materials, m.Unshared other)
    (hdeclared : ∀ h ∈ happenings, h.KeepsDeclared m) :
    let s := (start settings world).run env before
    ((s.engine.known.get? m.fingerprint).toList ++
      (s.history env happenings).flatMap (Deed.returned env m) ++
      ((s.run env happenings).engine.known.get? m.fingerprint).toList).Pairwise Revision.NotNewer ∧
    ∀ d ∈ s.history env happenings, ∀ r, d.before.engine.known.get? m.fingerprint = some r →
      ∃ r', (d.after env).engine.known.get? m.fingerprint = some r' ∧ r.NotNewer r' := by
  intro s
  have hwatch : env.collab.Watchable (env.Arises (before ++ happenings) world) m :=
    ⟨env.keeps_arises _ _, hnames, hdependency⟩
  have hharmless : ∀ h ∈ before ++ happenings, h.Harmless env (env.Arises (before ++ happenings) world) m :=
    fun h hh => ⟨hunshared h hh, fun change hchange w hw => .changed change (hchange ▸ hh) w hw⟩
  have hbefore := fun h hh => hharmless h (List.mem_append_left happenings hh)
  have hafter := fun h hh => hharmless h (List.mem_append_right before hh)
  have hstart : (start settings world).Watches (env.Arises (before ++ happenings) world) m :=
    ⟨⟨.start, fun r hr => by cases hr⟩, fun p hp => absurd hp List.not_mem_nil⟩
  have hs : s.Watches (env.Arises (before ++ happenings) world) m :=
    (hstart.watches_run hwatch hbefore).2
  have hrises := fun d hd => hs.rises_of_mem_history (d := d) hwatch hafter hdeclared hd
  have hend := (hs.watches_run hwatch hafter).2.fit.proper
  refine ⟨?_, fun d hd r hr => (hrises d hd).notNewer hr⟩
  rw [← run_atoms s happenings] at hend ⊢
  exact (rises_deeds hend hrises).ordered

end Session

/-! ### Histories in memory -/

namespace InMemory

/-- Runs are listed under their own names. -/
def Named (w : InMemory) : Prop := ∀ (pipeline : PipelineName) (stage : StageName),
  ∀ run ∈ w.stageHistory pipeline stage, run.pipeline.same pipeline = true ∧ run.stage.same stage = true

theorem Named.record {w : InMemory} (hw : w.Named) (run : StageRun) : (w.record run).Named := by
  intro pipeline stage listed hlisted
  rw [stageHistory_record] at hlisted
  split at hlisted
  · next hsame =>
    obtain ⟨hp, hs⟩ := hsame
    rw [Name.same_comm] at hp hs
    rcases List.mem_append.mp hlisted with hold | hnew
    · obtain ⟨hpipeline, hstage⟩ := hw _ _ listed hold
      exact ⟨Name.same_trans hpipeline hp, Name.same_trans hstage hs⟩
    · rw [List.mem_singleton.mp hnew]
      exact ⟨hp, hs⟩
  · exact hw pipeline stage listed hlisted

theorem Named.setRuns {w : InMemory} (hw : w.Named) {pipeline : PipelineName} {stage : StageName}
    {runs : List StageRun}
    (hruns : ∀ run ∈ runs, run.pipeline.same pipeline = true ∧ run.stage.same stage = true) :
    (w.setRuns pipeline stage runs).Named := by
  intro p s listed hlisted
  rw [stageHistory_setRuns] at hlisted
  split at hlisted
  · next hsame =>
    obtain ⟨hp, hs⟩ := hsame
    rw [Name.same_comm] at hp hs
    obtain ⟨hpipeline, hstage⟩ := hruns listed hlisted
    exact ⟨Name.same_trans hpipeline hp, Name.same_trans hstage hs⟩
  · exact hw p s listed hlisted

/-- What is recorded, and what is set under the right names, is listed under its own names. -/
theorem namesRuns_of_arises {happenings : List Operation} {world w : InMemory} (hworld : world.Named)
    (hset : ∀ pipeline stage runs, Happening.world (.setRuns pipeline stage runs) ∈ happenings →
      ∀ run ∈ runs, run.pipeline.same pipeline = true ∧ run.stage.same stage = true)
    (hw : Environment.inMemory.Arises happenings world w) :
    Environment.inMemory.collab.NamesRuns w := by
  have hnamed : w.Named := by
    induction hw with
    | start => exact hworld
    | latestRevisions _ _ _ ih => exact ih
    | pollNow _ w _ ih =>
      show (if w.failure.isSome then w else { w with polls := w.polls + 1 }).Named
      split <;> exact ih
    | changedSinceLastBuild _ _ _ _ ih => exact ih
    | stageRuns _ _ _ _ ih => exact ih
    | hasUnfinishedInstance _ _ _ ih => exact ih
    | changed change hchange w _ ih =>
      cases change with
      | record run => exact ih.record run
      | setRuns pipeline stage runs => exact ih.setRuns (hset pipeline stage runs hchange)
      | _ => exact ih
  intro pipeline stage runs hanswer
  change (w.served .history .resolution (w.stageHistory pipeline stage)).answer = .ok runs at hanswer
  unfold served at hanswer
  split at hanswer
  · cases hanswer
  · cases hanswer
    exact hnamed pipeline stage

end InMemory

/-- The history of `app` is reported with its second run, then without it, and in between a configuration is
read that spells the names otherwise. -/
def laggingHistory : List Operation :=
  [.world (.record (Samples.passed ⟨"app"⟩ 2 ⟨"build"⟩)),
    .request (.latest (.dependency ⟨"app"⟩ ⟨"build"⟩)),
    .request (.reload ⟨[Samples.withMaterials ⟨"app"⟩ [],
      Samples.simple ⟨"deploy"⟩ (.dependency ⟨"APP"⟩ ⟨"Build"⟩)], []⟩),
    .world (.setRuns ⟨"App"⟩ ⟨"build"⟩ [Samples.passed ⟨"app"⟩ 1 ⟨"build"⟩]),
    .request (.latest (.dependency ⟨"app"⟩ ⟨"build"⟩))]

theorem latest_of_app_never_moves_back :
    (((Session.start {} {}).history .inMemory laggingHistory).flatMap
      (Deed.returned .inMemory (.dependency ⟨"app"⟩ ⟨"build"⟩))).Pairwise Revision.NotNewer := by
  have happ : (⟨"app"⟩ : PipelineName).same ⟨"App"⟩ = true := by simp [Name.same_iff_toList]
  have hidentity : (MaterialSource.dependency ⟨"APP"⟩ ⟨"Build"⟩).sameIdentity
      (.dependency ⟨"app"⟩ ⟨"build"⟩) = true := by
    simp [MaterialSource.sameIdentity, Name.same_iff_toList]
  have hnames : ∀ w, Environment.inMemory.Arises ([] ++ laggingHistory) {} w →
      Environment.inMemory.collab.NamesRuns w := by
    refine fun w => InMemory.namesRuns_of_arises (fun _ _ run hrun => absurd hrun List.not_mem_nil) ?_
    intro pipeline stage runs hset run hrun
    simp only [laggingHistory, List.nil_append, List.mem_cons, reduceCtorEq, Happening.world.injEq,
      WorldChange.setRuns.injEq, false_or, List.not_mem_nil, or_false] at hset
    obtain ⟨rfl, rfl, rfl⟩ := hset
    rw [List.mem_singleton.mp hrun]
    exact ⟨happ, Name.same_refl _⟩
  have hunshared : ∀ h ∈ [] ++ laggingHistory, ∀ other ∈ h.materials,
      Material.Unshared (.dependency ⟨"app"⟩ ⟨"build"⟩) other := by
    intro h hh other hother _
    simp only [laggingHistory, List.nil_append, List.mem_cons, List.not_mem_nil, or_false] at hh
    rcases hh with rfl | rfl | rfl | rfl | rfl
    · cases hother
    · rw [List.mem_singleton.mp hother]
      simp [Material.dependency, MaterialSource.sameIdentity]
    · rw [show other = .dependency ⟨"APP"⟩ ⟨"Build"⟩ by
        simpa [Happening.materials, Happening.configurations, Samples.simple, Samples.withMaterials]
          using hother]
      exact hidentity
    · cases hother
    · rw [List.mem_singleton.mp hother]
      simp [Material.dependency, MaterialSource.sameIdentity]
  have hdeclared : ∀ h ∈ laggingHistory, h.KeepsDeclared (.dependency ⟨"app"⟩ ⟨"build"⟩) := by
    intro h hh c hc _
    simp only [laggingHistory, List.mem_cons, List.not_mem_nil, or_false] at hh
    rcases hh with rfl | rfl | rfl | rfl | rfl
    · cases hc
    · cases hc
    · rw [List.mem_singleton.mp hc]
      refine ⟨_, List.mem_cons_of_mem _ List.mem_cons_self, _, List.mem_cons_self, ?_⟩
      exact Material.fingerprint_eq_of_sameIdentity hidentity
    · cases hc
    · cases hc
  have h := (Session.latest_never_moves_back .inMemory {} {} (.dependency ⟨"app"⟩ ⟨"build"⟩)
    ⟨_, _, rfl⟩ [] laggingHistory hnames hunshared hdeclared).1
  exact h.sublist ((List.sublist_append_right _ _).trans (List.sublist_append_left _ _))

end BuildScheduling
