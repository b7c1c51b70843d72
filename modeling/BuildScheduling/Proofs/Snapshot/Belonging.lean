import BuildScheduling.Proofs.Latest.Heard
import BuildScheduling.Proofs.Snapshot.Reload

/-!
# What is kept belongs to the snapshot

The engine keeps something of each pipeline and of each material: what its timer fired with, a lock, the latest
known revision. Nothing of it is left over when a pipeline or a material is gone (`kept_state_belongs`). Three
things keep it so. A timer remembers a pipeline only in an attempt on it, which looks it up first. A lock is taken
right after that look, so an attempt on a name that is not declared leaves no trace at all, while one that fails
later leaves its lock (`contains_locks_after`). And an attempt hears only of the materials of its pipeline
(`exists_declared_of_mem_reports`), so that nothing else becomes known. A configuration that is accepted drops
the rest.
-/

namespace BuildScheduling

variable {σ χ : Type} {collab : Collaborators σ} {env : Environment σ χ}

namespace Deed

/-- An attempt on a pipeline, under any spelling, that is declared. -/
def Locks (d : Deed σ χ) (name : PipelineName) : Prop :=
  (∃ spelling event, d.happening = .request (.attempt spelling event) ∧ spelling.same name = true) ∧
    d.before.engine.snapshot.declares name = true

end Deed

/-- Among some deeds there is an attempt on a pipeline that was declared, and no configuration without the pipeline
was accepted since. -/
def LockedSince (env : Environment σ χ) (deeds : List (Deed σ χ)) (name : PipelineName) : Prop :=
  ∃ before d since, deeds = before ++ d :: since ∧ d.Locks name ∧ ∀ e ∈ since, ¬ e.Drops env name

theorem lockedSince_concat {deeds : List (Deed σ χ)} {e : Deed σ χ} {name : PipelineName} :
    LockedSince env (deeds ++ [e]) name ↔ e.Locks name ∨ ¬ e.Drops env name ∧ LockedSince env deeds name :=
  exists_split_concat

namespace Attempt

variable {limit : Option Nat} {snapshot : Snapshot} {p : Pipeline} {overrides : Overrides} {m : Material}
  {report : Report}

theorem mem_of_mem_reportsOn {materials : List Material} {progress : Progress σ}
    (h : (m, report) ∈ reportsOn collab limit snapshot p overrides materials progress) : m ∈ materials := by
  induction materials generalizing progress with
  | nil => exact absurd h List.not_mem_nil
  | cons other rest ih =>
    rw [reportsOn] at h
    rcases hask : (ask limit (collab.reportOn snapshot other)).on progress with ⟨_ | asked, mid⟩
    · rw [hask] at h
      exact absurd h List.not_mem_nil
    · rw [hask] at h
      rcases List.mem_cons.mp h with hfirst | hlater
      · cases hfirst
        exact List.mem_cons_self
      · rcases hsettle : (settle collab limit p overrides other asked).on mid with ⟨_ | _, next⟩
        · rw [hsettle] at hlater
          exact absurd hlater List.not_mem_nil
        · rw [hsettle] at hlater
          exact List.mem_cons_of_mem _ (ih hlater)

theorem mem_materials_of_mem_resolveReports {progress : Progress σ}
    (h : (m, report) ∈ resolveReports collab limit snapshot p overrides progress) : m ∈ p.materials := by
  unfold resolveReports at h
  split at h
  · exact absurd h List.not_mem_nil
  · exact mem_of_mem_reportsOn h

theorem mem_materials_of_mem_reports {progress : Progress σ}
    (h : (m, report) ∈ reports collab limit snapshot p overrides progress) : m ∈ p.materials := by
  unfold reports at h
  split at h
  · exact mem_materials_of_mem_resolveReports h
  · exact absurd h List.not_mem_nil

end Attempt

namespace Session

/-! ### Locks -/

theorem locks_report (s : Session σ) (r : HealthReport) : (s.report collab r).engine.locks = s.engine.locks := by
  unfold report
  split <;> rfl

theorem locks_clearHealth (s : Session σ) (scope : HealthScope) :
    (s.clearHealth collab scope).engine.locks = s.engine.locks := by
  unfold clearHealth
  split <;> rfl

theorem locks_attempt (collab : Collaborators σ) (s : Session σ) (p : Pipeline) (event : TriggerEvent) :
    (s.attempt collab p event).2.engine.locks = s.engine.locks := by
  rw [attempt_eq, perform_eq]
  rcases (s.decision collab p event).on s.progress with ⟨_ | cause | rejection, last⟩
  · exact locks_report _ _
  · simp only [conclude]
    split
    · rfl
    · exact locks_clearHealth _ _
  · exact locks_report _ _

/-- An attempt on a declared pipeline takes its lock, whatever comes of it. -/
theorem locks_schedule_of_declared {s : Session σ} {name : PipelineName} {p : Pipeline}
    (hp : s.engine.snapshot.pipeline? name = some p) (event : TriggerEvent) :
    (s.schedule collab name event).2.engine.locks = s.engine.locks.insertNew name () := by
  rw [schedule_of_declared collab hp]
  split
  · rfl
  · split
    · rfl
    · split
      · exact locks_report _ _
      · exact locks_attempt collab (s.lock name) p event

/-- An attempt on a name that is not declared does nothing. -/
theorem schedule_of_undeclared (collab : Collaborators σ) {s : Session σ} {name : PipelineName}
    (hname : s.engine.snapshot.declares name = false) (event : TriggerEvent) :
    s.schedule collab name event = (.error (.pipelineNotFound name), s) := by
  have hnone : s.engine.snapshot.pipeline? name = none := by
    rwa [Snapshot.declares_eq_isSome_pipeline?, Option.isSome_eq_false_iff, Option.isNone_iff_eq_none] at hname
  rw [schedule, hnone]

/-! ### One deed -/

/-- Anything but an attempt or a configuration leaves the locks alone. -/
theorem locks_next_of_other (s : Session σ) {h : Happening χ} (hsingle : h.Single)
    (hattempt : ∀ spelling event, h ≠ .request (.attempt spelling event))
    (hreload : ∀ c, h ≠ .request (.reload c)) : (s.next env h).2.engine.locks = s.engine.locks := by
  cases h with
  | world change => rfl
  | consume consumption => cases consumption <;> rfl
  | request request =>
    cases request with
    | attempt name event => exact absurd rfl (hattempt name event)
    | reload c => exact absurd rfl (hreload c)
    | resolve name overrides =>
      simp only [next, Session.request, resolve]
      split <;> rfl
    | postCommit url => exact hsingle.elim
    | tick after latest => exact hsingle.elim
    | follow configurations => exact hsingle.elim
    | latest _ | due _ _ | snapshot | settings | latestKnown _ => rfl

theorem reload_of_ok {s : Session σ} {c : Configuration} {snapshot : Snapshot}
    (h : (s.reload collab c).1 = .ok snapshot) : (s.reload collab c).2 = s.publish collab snapshot := by
  unfold reload at h ⊢
  cases hbuild : Snapshot.build c (s.engine.snapshot.version + 1) with
  | ok published =>
    rw [hbuild] at h
    cases h
    rfl
  | error errors =>
    rw [hbuild] at h
    cases h

/-- A configuration that is refused leaves everything but the health log. -/
theorem reload_of_error {s : Session σ} {c : Configuration} {failure : Failure}
    (h : (s.reload collab c).1 = .error failure) : ∃ log, (s.reload collab c).2 = s.withLog log := by
  unfold reload at h ⊢
  cases hbuild : Snapshot.build c (s.engine.snapshot.version + 1) with
  | ok snapshot =>
    rw [hbuild] at h
    cases h
  | error errors => exact ⟨_, reports_eq collab s errors⟩

/-- An attempt leaves a pipeline with a lock if it is one on this pipeline while it is declared, or if there was one
before. -/
theorem contains_locks_schedule (collab : Collaborators σ) (s : Session σ) (spelling name : PipelineName)
    (event : TriggerEvent) :
    (s.schedule collab spelling event).2.engine.locks.contains name = true ↔
      (spelling.same name = true ∧ s.engine.snapshot.declares name = true) ∨
        s.engine.locks.contains name = true := by
  cases hp : s.engine.snapshot.pipeline? spelling with
  | none =>
    have hundeclared : s.engine.snapshot.declares spelling = false := by
      rw [Snapshot.declares_eq_isSome_pipeline?, hp]
      rfl
    rw [schedule_of_undeclared collab hundeclared event]
    constructor
    · exact Or.inr
    · rintro (⟨hsame, hdeclared⟩ | hkept)
      · rw [← Snapshot.declares_congr _ hsame, hundeclared] at hdeclared
        cases hdeclared
      · exact hkept
  | some p =>
    have hdeclared : s.engine.snapshot.declares spelling = true := by
      rw [Snapshot.declares_eq_isSome_pipeline?, hp]
      rfl
    rw [locks_schedule_of_declared hp event, SortedMap.insertNew, SortedMap.contains_alter, ← Name.same_iff_compare,
      Name.same_comm]
    constructor
    · rintro (hsame | hkept)
      · exact Or.inl ⟨hsame, by rwa [← Snapshot.declares_congr _ hsame]⟩
      · exact Or.inr hkept
    · exact Or.imp_left And.left

theorem contains_locks_reload_of_ok {s : Session σ} {c : Configuration} {snapshot : Snapshot}
    (h : (s.reload collab c).1 = .ok snapshot) (name : PipelineName) :
    (s.reload collab c).2.engine.locks.contains name = true ↔
      snapshot.declares name = true ∧ s.engine.locks.contains name = true := by
  rw [reload_of_ok h, publish_eq]
  exact SortedMap.contains_filterKeys _
    (fun a b hab => snapshot.declares_congr (Name.same_iff_compare.mpr hab)) name

theorem drops_reload_iff {s : Session σ} {c : Configuration} {name : PipelineName} :
    Deed.Drops env ⟨s, .request (.reload c)⟩ name ↔
      ∃ snapshot, (s.reload env.collab c).1 = .ok snapshot ∧ snapshot.declares name = false := by
  constructor
  · rintro ⟨_, snapshot, hhappening, hanswer, hgone⟩
    cases hhappening
    exact ⟨snapshot, Answer.reloaded.inj hanswer, hgone⟩
  · rintro ⟨snapshot, hanswer, hgone⟩
    exact ⟨c, snapshot, rfl, congrArg Answer.reloaded hanswer, hgone⟩

theorem not_drops {s : Session σ} {h : Happening χ} (hreload : ∀ c, h ≠ .request (.reload c))
    (name : PipelineName) : ¬ Deed.Drops env ⟨s, h⟩ name := by
  rintro ⟨c, _, hhappening, -⟩
  exact hreload c hhappening

theorem not_locks {s : Session σ} {h : Happening χ}
    (hattempt : ∀ spelling event, h ≠ .request (.attempt spelling event)) (name : PipelineName) :
    ¬ Deed.Locks ⟨s, h⟩ name := by
  rintro ⟨⟨spelling, event, hhappening, -⟩, -⟩
  exact hattempt spelling event hhappening

/-- A pipeline has a lock after a deed if the deed is an attempt on it while it is declared, or if it had one
before and stays. -/
theorem contains_locks_after (env : Environment σ χ) (s : Session σ) {h : Happening χ} (hsingle : h.Single)
    (name : PipelineName) :
    (s.next env h).2.engine.locks.contains name = true ↔
      Deed.Locks ⟨s, h⟩ name ∨ ¬ Deed.Drops env ⟨s, h⟩ name ∧ s.engine.locks.contains name = true := by
  by_cases hattempt : ∃ spelling event, h = .request (.attempt spelling event)
  · obtain ⟨spelling, event, rfl⟩ := hattempt
    have hlocks : Deed.Locks (χ := χ) ⟨s, .request (.attempt spelling event)⟩ name ↔
        spelling.same name = true ∧ s.engine.snapshot.declares name = true := by
      constructor
      · rintro ⟨⟨_, _, hhappening, hsame⟩, hdeclared⟩
        cases hhappening
        exact ⟨hsame, hdeclared⟩
      · rintro ⟨hsame, hdeclared⟩
        exact ⟨⟨spelling, event, rfl, hsame⟩, hdeclared⟩
    rw [hlocks, and_iff_right (not_drops (by simp) name)]
    exact contains_locks_schedule env.collab s spelling name event
  rw [or_iff_right (not_locks (fun spelling event hh => hattempt ⟨spelling, event, hh⟩) name)]
  by_cases hreload : ∃ c, h = .request (.reload c)
  · obtain ⟨c, rfl⟩ := hreload
    show (s.reload env.collab c).2.engine.locks.contains name = true ↔ _
    rw [drops_reload_iff]
    cases hanswer : (s.reload env.collab c).1 with
    | ok snapshot => simp [contains_locks_reload_of_ok hanswer]
    | error failure =>
      obtain ⟨log, hlog⟩ := reload_of_error hanswer
      have hkept : (s.reload env.collab c).2.engine.locks = s.engine.locks := by
        rw [hlog]
        rfl
      simp [hkept]
  · rw [and_iff_right (not_drops (fun c hh => hreload ⟨c, hh⟩) name), locks_next_of_other s hsingle
      (fun spelling event hh => hattempt ⟨spelling, event, hh⟩) fun c hh => hreload ⟨c, hh⟩]

/-- Only declared pipelines have a lock. -/
def LocksDeclared (s : Session σ) : Prop :=
  ∀ name, s.engine.locks.contains name = true → s.engine.snapshot.declares name = true

theorem locksDeclared_next (env : Environment σ χ) (s : Session σ) (h : Happening χ) (hsingle : h.Single)
    (hs : s.LocksDeclared) : (s.next env h).2.LocksDeclared := by
  intro name hlocked
  rw [contains_locks_after env s hsingle] at hlocked
  have hbefore : s.engine.snapshot.declares name = true := by
    rcases hlocked with hlocks | ⟨-, hkept⟩
    · exact hlocks.2
    · exact hs name hkept
  rcases (effect_next env s hsingle).snapshot_cases with hsnapshot | ⟨c, rfl, hbuild⟩
  · rwa [hsnapshot]
  · rcases hlocked with ⟨⟨_, _, hhappening, -⟩, -⟩ | ⟨hstays, -⟩
    · cases hhappening
    · by_contra hgone
      have hanswer : (s.reload env.collab c).1 = .ok (s.next env (.request (.reload c))).2.engine.snapshot := by
        rw [reload_of_build hbuild]
      exact hstays (drops_reload_iff.mpr ⟨_, hanswer, Bool.eq_false_iff.mpr hgone⟩)

/-! ### What becomes known -/

/-- Everything known is of a material that some declared pipeline builds from. -/
def KnowsDeclared (s : Session σ) : Prop :=
  ∀ material, s.engine.known.get? material ≠ none →
    s.engine.snapshot.materialFingerprints.contains material = true

/-- What is heard of a material comes from a report on it that nobody looked through for a wanted revision. -/
theorem exists_report_of_heard {overrides : Overrides} {material : Fingerprint}
    {reports : List (Material × Report)} (h : heard overrides material reports ≠ []) :
    ∃ m report, (m, report) ∈ reports ∧ m.fingerprint = material ∧ overrides.wanted? m = none := by
  obtain ⟨revisions, hrevisions⟩ := List.exists_mem_of_ne_nil _ h
  obtain ⟨⟨m, report⟩, hmem, -⟩ := List.mem_map.mp (List.mem_filter.mp hrevisions).1
  obtain ⟨hreport, hm⟩ := List.mem_filter.mp hmem
  obtain ⟨hmaterial, hunpegged⟩ := Bool.and_eq_true_iff.mp hm
  exact ⟨m, report, hreport, eq_of_beq hmaterial, Option.isNone_iff_eq_none.mp hunpegged⟩

/-- The reports of a deed are on materials of a declared pipeline, but for a look at the latest revision of some
material. -/
theorem exists_declared_of_mem_reports {d : Deed σ χ} (hlatest : ∀ m, d.happening ≠ .request (.latest m))
    {m : Material} {report : Report} (hmem : (m, report) ∈ d.reports env) :
    d.before.engine.snapshot.materialFingerprints.contains m.fingerprint = true := by
  rw [Snapshot.contains_materialFingerprints]
  unfold Deed.reports at hmem
  split at hmem
  · next name event _ =>
    unfold attemptReports at hmem
    rcases d.before.deciding?_cases env.collab name event with ⟨p, hdeciding, hp, -⟩ | ⟨hnone, -⟩
    · rw [hdeciding] at hmem
      exact ⟨p, mem_of_pipeline? hp, m, Attempt.mem_materials_of_mem_reports hmem, rfl⟩
    · rw [hnone] at hmem
      exact absurd hmem List.not_mem_nil
  · next other hother => exact absurd hother (hlatest other)
  · next name overrides _ =>
    cases hp : d.before.engine.snapshot.pipeline? name with
    | none =>
      rw [hp] at hmem
      exact absurd hmem List.not_mem_nil
    | some p =>
      rw [hp] at hmem
      exact ⟨p, mem_of_pipeline? hp, m, Attempt.mem_materials_of_mem_resolveReports hmem, rfl⟩
  · exact absurd hmem List.not_mem_nil

theorem knowsDeclared_next (env : Environment σ χ) (s : Session σ) (h : Happening χ)
    (hh : h.Single ∧ ∀ m, h ≠ .request (.latest m)) (hs : s.KnowsDeclared) : (s.next env h).2.KnowsDeclared := by
  obtain ⟨hsingle, hlatest⟩ := hh
  intro material hknown
  by_cases hreload : ∃ c, h = .request (.reload c)
  · obtain ⟨c, rfl⟩ := hreload
    change (s.reload env.collab c).2.engine.known.get? material ≠ none at hknown
    show (s.reload env.collab c).2.engine.snapshot.materialFingerprints.contains material = true
    cases hanswer : (s.reload env.collab c).1 with
    | ok snapshot =>
      rw [reload_of_ok hanswer, publish_eq] at hknown ⊢
      dsimp only at hknown ⊢
      rw [SortedMap.get?_filterKeys _ fun a b hab => SortedMap.contains_congr _ hab] at hknown
      by_contra hgone
      exact hknown (if_neg hgone)
    | error failure =>
      obtain ⟨log, hlog⟩ := reload_of_error hanswer
      rw [hlog] at hknown ⊢
      exact hs material hknown
  have hsnapshot : (s.next env h).2.engine.snapshot = s.engine.snapshot := by
    rcases (effect_next env s hsingle).snapshot_cases with hkept | ⟨c, hc, -⟩
    · exact hkept
    · exact absurd ⟨c, hc⟩ hreload
  rw [get?_known_next env s hsingle fun c hc => hreload ⟨c, hc⟩] at hknown
  rw [hsnapshot]
  by_cases hheard : Deed.heard env material ⟨s, h⟩ = []
  · rw [hheard] at hknown
    exact hs material hknown
  · obtain ⟨m, report, hmem, rfl, -⟩ := exists_report_of_heard hheard
    exact exists_declared_of_mem_reports hlatest hmem

/-! ### Runs -/

/-- The pipelines with a lock are those that were attempted while they were declared, and not dropped since. -/
theorem contains_locks_run (env : Environment σ χ) (settings : Settings) (world : σ)
    {atoms : List (Happening χ)} (hatoms : ∀ h ∈ atoms, h.Single) (name : PipelineName) :
    ((start settings world).run env atoms).engine.locks.contains name = true ↔
      LockedSince env ((start settings world).deeds env atoms) name := by
  -- From the last thing that happened back to the first, as for the memory of the timers.
  induction atoms using List.reverseRecOn with
  | nil =>
    constructor
    · intro h
      cases h
    · rintro ⟨before, d, since, hsplit, -⟩
      simp [deeds] at hsplit
  | append_singleton first h ih =>
    have hfirst : ∀ h ∈ first, h.Single := fun a ha => hatoms a (List.mem_append_left _ ha)
    rw [deeds_append, run_append, run_cons, run_nil, contains_locks_after env _ (hatoms h (by simp)), ih hfirst]
    exact lockedSince_concat.symm

theorem not_latest_of_mem_atoms {s : Session σ} {happenings : List (Happening χ)}
    (hlatest : ∀ h ∈ happenings, ∀ m, h ≠ .request (.latest m)) {part : Happening χ}
    (hpart : part ∈ s.atoms env happenings) (m : Material) : part ≠ .request (.latest m) := by
  obtain ⟨_, h, hh, hmem⟩ := exists_mem_parts_of_mem_atoms hpart
  rcases mem_parts_cases hmem with ⟨name, event, rfl⟩ | ⟨_, -, c, -, rfl⟩ | ⟨rfl, -⟩
  · simp
  · simp
  · exact hlatest part hh m

/-- After any run, what is kept of pipelines and materials belongs to the snapshot in effect:

* the timers remember declared pipelines only;
* everything known is of a material that a declared pipeline builds from, unless somebody asked for the latest
  revision of a material by itself;
* the pipelines with a lock are the declared ones that some attempt was made on while they were declared, with no
  configuration accepted since that lacks them, and there is one lock for a name in whatever case;
* an attempt on a name that is not declared fails and changes nothing. -/
theorem kept_state_belongs (env : Environment σ χ) (settings : Settings) (world : σ)
    (happenings : List (Happening χ)) :
    let s := (start settings world).run env happenings
    (∀ name ∈ s.engine.debounce.keys, s.engine.snapshot.declares name = true) ∧
    ((∀ h ∈ happenings, ∀ m, h ≠ .request (.latest m)) →
      ∀ material ∈ s.engine.known.keys,
        ∃ p ∈ s.engine.snapshot.pipelines, ∃ m ∈ p.materials, m.fingerprint = material) ∧
    (∀ name, s.engine.locks.contains name = true ↔
      s.engine.snapshot.declares name = true ∧
        LockedSince env ((start settings world).history env happenings) name) ∧
    s.engine.locks.keys.Pairwise (fun a b => ¬ a.same b = true) ∧
    ∀ name event, s.engine.snapshot.declares name = false →
      s.schedule env.collab name event = (.error (.pipelineNotFound name), s) := by
  intro s
  have hsingle : ∀ h ∈ (start settings world).atoms env happenings, h.Single := fun h hh => single_of_mem_atoms hh
  have hremembers : s.RemembersDeclared :=
    (invariant_run (remembersDeclared_next env) (fun _ hsome => absurd rfl hsome) happenings).2
  have hlocked : s.LocksDeclared :=
    (invariant_run (locksDeclared_next env) (fun _ hlock => by cases hlock) happenings).2
  refine ⟨fun name hname => ?_, fun hlatest material hmaterial => ?_, fun name => ?_, ?_, fun name event hname => ?_⟩
  · exact hremembers name (SortedMap.get?_ne_none_of_mem_keys hname)
  · have hknows : s.KnowsDeclared := by
      show ((start settings world).run env happenings).KnowsDeclared
      rw [← run_atoms]
      exact (invariant_deeds (knowsDeclared_next env) (fun _ hsome => absurd rfl hsome)
        fun h hh => ⟨hsingle h hh, not_latest_of_mem_atoms hlatest hh⟩).2
    rw [← Snapshot.contains_materialFingerprints]
    exact hknows material (SortedMap.get?_ne_none_of_mem_keys hmaterial)
  · have hrun := contains_locks_run env settings world hsingle name
    rw [run_atoms] at hrun
    constructor
    · intro hname
      exact ⟨hlocked name hname, hrun.mp hname⟩
    · rintro ⟨-, hsince⟩
      exact hrun.mpr hsince
  · refine s.engine.locks.pairwise_keys.imp fun hlt hsame => ?_
    rw [Name.same_iff_compare] at hsame
    rw [hsame] at hlt
    cases hlt
  · exact schedule_of_undeclared env.collab hname event

theorem run_nightly : (start {} {}).run .inMemory (nightlyDeeds.map Deed.happening) = nightlyFired := by
  rw [nightlyDeeds, List.map_cons, List.map_cons, List.map_cons, List.map_nil, run_cons, reload_nightly, run_cons,
    run_cons, run_nil, nightlyFired, nightlyReported]

theorem history_nightlyDeeds : (start {} {}).history .inMemory (nightlyDeeds.map Deed.happening) = nightlyDeeds := by
  simp only [nightlyDeeds, List.map_cons, List.map_nil, List.cons_append, List.nil_append, history, atoms, parts,
    deeds, reload_nightly]
  rfl

set_option maxRecDepth 100000 in
/-- After its timer fired, the nightly build is all that a timer remembers, the stage that it waits for is all that
is known, and it has a lock. Nothing comes of an attempt on a pipeline that is not there. -/
theorem nightly_kept_alone :
    nightlyFired.engine.debounce.keys = [⟨"nightly"⟩] ∧
    nightlyFired.engine.snapshot.declares ⟨"nightly"⟩ = true ∧
    (∃ material, nightlyFired.engine.known.keys = [material] ∧
      ∃ p ∈ nightlyFired.engine.snapshot.pipelines, ∃ m ∈ p.materials, m.fingerprint = material) ∧
    nightlyFired.engine.locks.contains ⟨"NIGHTLY"⟩ = true ∧
    nightlyFired.schedule InMemory.collaborators ⟨"deploy"⟩ .auto =
      (.error (.pipelineNotFound ⟨"deploy"⟩), nightlyFired) := by
  have hkept : nightlyFired.engine.debounce.keys = [⟨"nightly"⟩] ∧
      nightlyFired.engine.known.keys = [(Material.dependency ⟨"app"⟩ ⟨"build"⟩).fingerprint] ∧
      nightlyFired.engine.snapshot.declares ⟨"deploy"⟩ = false ∧
      nightlyReported.engine.snapshot.declares ⟨"nightly"⟩ = true := by decide +kernel
  obtain ⟨htimers, hknown, hdeploy, hdeclared⟩ := hkept
  have hname : (⟨"nightly"⟩ : PipelineName).same ⟨"NIGHTLY"⟩ = true := by simp [Name.same_iff_toList]
  have hlatest : ∀ h ∈ nightlyDeeds.map Deed.happening, ∀ m, h ≠ .request (.latest m) := by
    intro h hh m
    simp only [nightlyDeeds, List.map_cons, List.map_nil, List.mem_cons, List.not_mem_nil, or_false] at hh
    rcases hh with rfl | rfl | rfl <;> simp
  have hbelongs := kept_state_belongs .inMemory {} {} (nightlyDeeds.map Deed.happening)
  rw [run_nightly, history_nightlyDeeds] at hbelongs
  obtain ⟨hremembered, hknows, hlocks, -, hundeclared⟩ := hbelongs
  have hnightly := hremembered ⟨"nightly"⟩ (by rw [htimers]; exact List.mem_singleton_self _)
  have hsince : LockedSince .inMemory nightlyDeeds ⟨"NIGHTLY"⟩ := by
    rw [Snapshot.declares_congr _ hname] at hdeclared
    exact ⟨nightlyDeeds.take 2, _, [], rfl, ⟨⟨⟨"nightly"⟩, .timer, rfl, hname⟩, hdeclared⟩, by simp⟩
  refine ⟨htimers, hnightly, ⟨_, hknown, ?_⟩, (hlocks _).mpr ⟨?_, hsince⟩, hundeclared _ .auto hdeploy⟩
  · exact hknows hlatest _ (by rw [hknown]; exact List.mem_singleton_self _)
  · rwa [← Snapshot.declares_congr _ hname]

end Session

end BuildScheduling
