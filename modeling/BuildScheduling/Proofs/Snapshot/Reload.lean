import BuildScheduling.Proofs.Debounce.TimerLaw
import BuildScheduling.Proofs.Health.Notes

/-!
# A configuration is read all or nothing

A configuration with an error is refused, and but for the health log nothing has happened then: the health log
has the errors, in order, and whatever comes later is answered as if the configuration had never been read
(`Session.ReloadRefused`). Any other configuration is accepted: the snapshot gets the next version, what belongs
to pipelines and materials that are still declared is kept, and the rest is dropped (`Session.ReloadAccepted`).
So the version counts the accepted configurations (`version_deeds`).

The two are told apart before anything is written, and the health log is never read, so the refusal follows from
`history_withLog`. That an accepted configuration drops all that the timers remember of pipelines without a
declaration rests on `RemembersDeclared`, since only what was declared before is looked at.
-/

namespace BuildScheduling

variable {σ χ : Type} {collab : Collaborators σ} {env : Environment σ χ}

namespace Configuration

/-- Some pipeline has a name, in whatever case. -/
def declares (c : Configuration) (name : PipelineName) : Bool := c.pipelines.any fun p => p.name.same name

/-- Some pipeline builds from a material with a fingerprint. -/
def buildsFrom (c : Configuration) (material : Fingerprint) : Bool :=
  c.pipelines.any fun p => p.materials.any fun m => m.fingerprint == material

end Configuration

namespace Snapshot

variable {c : Configuration} {version : Nat} {s : Snapshot}

theorem build_of_errors (h : errors c ≠ []) (version : Nat) : build c version = .error (errors c) := by
  unfold build
  split
  · next hnone => exact absurd hnone h
  · rfl

theorem version_of_build (h : build c version = .ok s) : s.version = version := by
  obtain ⟨-, rfl⟩ := build_eq_ok_iff.mp h
  rfl

theorem declares_of_build (h : build c version = .ok s) : s.declares = c.declares := by
  funext name
  rw [Bool.eq_iff_iff, declares_iff, pipelines_of_build h, Configuration.declares, List.any_eq_true]

theorem materialFingerprints_of_build (h : build c version = .ok s) :
    s.materialFingerprints.contains = c.buildsFrom := by
  funext material
  rw [Bool.eq_iff_iff, contains_materialFingerprints, pipelines_of_build h]
  simp [Configuration.buildsFrom]

end Snapshot

/-- A configuration was read, and accepted. -/
def Deed.accepts (env : Environment σ χ) (d : Deed σ χ) : Bool :=
  match d.answer env with
  | .reloaded (.ok _) => true
  | _ => false

namespace Session

/-! ### Refused configurations -/

/-- A configuration is refused. The settings, the snapshot, the queue, what the timers remember, the locks, the
latest known revisions and the world are as before. The health log has one report for each error after those it
had, as many of the last as it has room for; a health sink that takes no reports leaves it as it was. And
everything that happens later leaves the same, but for the log, and is answered the same as without the
configuration, unless somebody asks for the log. -/
structure ReloadRefused (env : Environment σ χ) (s : Session σ) (c : Configuration) : Prop where
  answer : (s.reload env.collab c).1 = .error (.configuration (Snapshot.errors c))
  kept : (s.reload env.collab c).2 = s.withLog (s.reload env.collab c).2.engine.health
  limit : (s.reload env.collab c).2.engine.health.limit = s.engine.health.limit
  reported : env.collab.reportOutage s.world = none →
    (s.reload env.collab c).2.engine.health.reports =
      (s.engine.health.reports ++ (Snapshot.errors c).map ConfigError.report).rtake s.engine.health.limit
  unreported : env.collab.reportOutage s.world ≠ none →
    (s.reload env.collab c).2.engine.health = s.engine.health
  forgotten : ∀ later : List (Happening χ),
    (∃ log, (s.reload env.collab c).2.run env later = (s.run env later).withLog log) ∧
    List.Forall₂ (AnsweredAlike env) (s.history env later) ((s.reload env.collab c).2.history env later)

/-- A refusal does nothing but report the errors. -/
theorem reload_of_errors (collab : Collaborators σ) (s : Session σ) {c : Configuration}
    (h : Snapshot.errors c ≠ []) :
    s.reload collab c = (.error (.configuration (Snapshot.errors c)),
      s.withLog (s.engine.health.noted
        ((Snapshot.errors c).map fun e => reportNote collab s.world e.report))) := by
  rw [reload, Snapshot.build_of_errors h, ← reports_eq]

theorem reloadRefused_of_errors (env : Environment σ χ) {s : Session σ} (hs : s.engine.health.Bounded)
    {c : Configuration} (h : Snapshot.errors c ≠ []) : s.ReloadRefused env c := by
  have hreload := reload_of_errors env.collab s h
  have hlog : (s.reload env.collab c).2.engine.health = s.engine.health.noted
      ((Snapshot.errors c).map fun e => reportNote env.collab s.world e.report) := by rw [hreload]; rfl
  refine ⟨by rw [hreload], by rw [hreload]; rfl, by rw [hlog, HealthLog.limit_noted], fun hsink => ?_,
    fun hsink => ?_, fun later => ?_⟩
  · have hnotes : (Snapshot.errors c).map (fun e => reportNote env.collab s.world e.report) =
        ((Snapshot.errors c).map ConfigError.report).map .report := by
      rw [List.map_map]
      exact List.map_congr_left fun e _ => by simp [reportNote, hsink]
    rw [hlog, hnotes, hs.reports_reported]
  · have hnotes : (Snapshot.errors c).map (fun e => reportNote env.collab s.world e.report) =
        (Snapshot.errors c).map fun _ => .nothing :=
      List.map_congr_left fun e _ => if_pos (Option.isSome_iff_ne_none.mpr hsink)
    rw [hlog, hnotes, HealthLog.noted_nothing]
  · obtain ⟨notes, hnotes⟩ := history_withLog env s later
    rw [hreload]
    exact ⟨⟨_, (hnotes _).1⟩, (hnotes _).2⟩

/-! ### Accepted configurations -/

/-- A configuration is accepted. Its pipelines are in effect, under the next version. The settings, the queue
and the world are as before; what the timers remember, the locks and the latest known revisions are those from
before that belong to a pipeline or a material of the configuration, and no others. The health log has no
reports on configurations any more, unless the health sink does not clear them. -/
structure ReloadAccepted (collab : Collaborators σ) (s : Session σ) (c : Configuration) : Prop where
  answer : (s.reload collab c).1 = .ok (s.reload collab c).2.engine.snapshot
  version : (s.reload collab c).2.engine.snapshot.version = s.engine.snapshot.version + 1
  pipelines : (s.reload collab c).2.engine.snapshot.pipelines = c.pipelines
  settings : (s.reload collab c).2.engine.settings = s.engine.settings
  queue : (s.reload collab c).2.engine.queue = s.engine.queue
  debounce : (s.reload collab c).2.engine.debounce = s.engine.debounce.filterKeys c.declares
  locks : (s.reload collab c).2.engine.locks = s.engine.locks.filterKeys c.declares
  known : (s.reload collab c).2.engine.known = s.engine.known.filterKeys c.buildsFrom
  world : (s.reload collab c).2.world = s.world
  limit : (s.reload collab c).2.engine.health.limit = s.engine.health.limit
  cleared : collab.clearOutage s.world = none → (s.reload collab c).2.engine.health.reports =
    s.engine.health.reports.filter fun r => decide (r.scope ≠ .configuration)
  uncleared : collab.clearOutage s.world ≠ none → (s.reload collab c).2.engine.health = s.engine.health

/-- What a snapshot that is put in effect leaves, the health log apart. -/
theorem publish_eq (collab : Collaborators σ) (s : Session σ) (snapshot : Snapshot) :
    s.publish collab snapshot =
      { engine :=
          { s.engine with
            snapshot := snapshot
            debounce := s.engine.debounce.filterKeys fun name =>
              !s.engine.snapshot.pipelineNames.contains name || snapshot.declares name
            locks := s.engine.locks.filterKeys snapshot.declares
            known := s.engine.known.filterKeys snapshot.materialFingerprints.contains
            health := (clearNote collab s.world .configuration).on s.engine.health }
        world := s.world } := by
  rw [publish, clearHealth_eq (w := s.world) (s.withEngine _) rfl]
  rfl

/-- Nothing else is remembered of pipelines than what is declared before or after. -/
theorem RemembersDeclared.filterKeys_debounce {s : Session σ} (hs : s.RemembersDeclared) (snapshot : Snapshot) :
    s.engine.debounce.filterKeys (fun name =>
      !s.engine.snapshot.pipelineNames.contains name || snapshot.declares name) =
    s.engine.debounce.filterKeys snapshot.declares := by
  refine SortedMap.filterKeys_congr fun e he => ?_
  have hsome : s.engine.debounce.get? e.1 ≠ none :=
    SortedMap.get?_ne_none_of_mem_keys (List.mem_map_of_mem he)
  rw [Snapshot.contains_pipelineNames, hs e.1 hsome]
  rfl

theorem same_configuration (scope : HealthScope) :
    scope.same .configuration = decide (scope = .configuration) := by
  cases scope <;> rfl

theorem reloadAccepted_of_no_errors (collab : Collaborators σ) {s : Session σ} (hs : s.RemembersDeclared)
    {c : Configuration} (h : Snapshot.errors c = []) : s.ReloadAccepted collab c := by
  obtain ⟨snapshot, hbuild⟩ : ∃ snapshot, Snapshot.build c (s.engine.snapshot.version + 1) = .ok snapshot :=
    ⟨_, Snapshot.build_eq_ok_iff.mpr ⟨h, rfl⟩⟩
  have hreload : s.reload collab c = (.ok snapshot, s.publish collab snapshot) := reload_of_build hbuild
  have hdeclares := Snapshot.declares_of_build hbuild
  have hfingerprints := Snapshot.materialFingerprints_of_build hbuild
  rw [publish_eq, hs.filterKeys_debounce, hdeclares, hfingerprints] at hreload
  constructor
  case version => rw [hreload]; exact Snapshot.version_of_build hbuild
  case pipelines => rw [hreload]; exact Snapshot.pipelines_of_build hbuild
  case limit =>
    rw [hreload]
    exact HealthLog.limit_noted s.engine.health [clearNote collab s.world .configuration]
  case cleared =>
    intro hsink
    have hnote : clearNote collab s.world .configuration = .clear .configuration := by simp [clearNote, hsink]
    rw [hreload, hnote]
    simp [HealthNote.on, HealthLog.clear, same_configuration]
  case uncleared =>
    intro hsink
    have hnote : clearNote collab s.world .configuration = .nothing :=
      if_pos (Option.isSome_iff_ne_none.mpr hsink)
    rw [hreload, hnote]
    rfl
  all_goals rw [hreload]

/-! ### Versions -/

theorem accepts_reload {s : Session σ} {c : Configuration} {answer : Except Failure Snapshot}
    (h : (s.reload env.collab c).1 = answer) :
    Deed.accepts env ⟨s, .request (.reload c)⟩ = answer.isOk := by
  have hanswer : Deed.answer env ⟨s, .request (.reload c)⟩ = .reloaded answer := congrArg Answer.reloaded h
  rw [Deed.accepts, hanswer]
  cases answer <;> rfl

theorem not_accepts {s : Session σ} {h : Happening χ} (hreload : ∀ c, h ≠ .request (.reload c)) :
    Deed.accepts env ⟨s, h⟩ = false := by
  cases h with
  | world _ => rfl
  | consume consumption => cases consumption <;> rfl
  | request request =>
    cases request with
    | reload c => exact absurd rfl (hreload c)
    | _ => rfl

theorem version_next (env : Environment σ χ) (s : Session σ) {h : Happening χ} (hsingle : h.Single) :
    (s.next env h).2.engine.snapshot.version =
      s.engine.snapshot.version + (Deed.accepts env ⟨s, h⟩).toNat := by
  have heffect := effect_next env s hsingle
  generalize (s.next env h).2 = s' at heffect
  cases heffect with
  | queued name event p cause _ hp hfree hanswer hqueued => rw [hqueued.snapshot, not_accepts (by simp)]; rfl
  | unanswered name event _ hanswer hquiet => rw [hquiet.snapshot, not_accepts (by simp)]; rfl
  | published c snapshot _ hbuild hanswer hpublished =>
    rw [hpublished.snapshot, accepts_reload hanswer, Snapshot.version_of_build hbuild]
    rfl
  | refused c errors _ hanswer hquiet => rw [hquiet.snapshot, accepts_reload hanswer]; rfl
  | finished name => rw [not_accepts (by simp)]; rfl
  | cleared => rw [not_accepts (by simp)]; rfl
  | idle _ _ hattempt hreload hquiet => rw [hquiet.snapshot, not_accepts hreload]; rfl

/-- The version counts the accepted configurations. -/
theorem version_deeds (env : Environment σ χ) (s : Session σ) {happenings : List (Happening χ)}
    (hsingle : ∀ h ∈ happenings, h.Single) :
    (s.run env happenings).engine.snapshot.version =
      s.engine.snapshot.version + (s.deeds env happenings).countP (Deed.accepts env) := by
  induction happenings generalizing s with
  | nil => rfl
  | cons h rest ih =>
    obtain ⟨hh, hrest⟩ := List.forall_mem_cons.mp hsingle
    rw [run_cons, ih _ hrest, version_next env s hh, deeds, List.countP_cons]
    cases Deed.accepts env ⟨s, h⟩ with
    | true => simp only [Bool.toNat_true, if_true]; omega
    | false => simp

/-- In whatever session a run ends, a configuration with an error is refused and leaves nothing but its reports,
and any other one is accepted and replaces the snapshot, with all that belongs to pipelines and materials that
are gone; and the version is the number of configurations that were accepted. -/
theorem reload_all_or_nothing (env : Environment σ χ) (settings : Settings) (world : σ)
    (happenings : List (Happening χ)) :
    let s := (start settings world).run env happenings
    (∀ c, Snapshot.errors c ≠ [] → s.ReloadRefused env c) ∧
    (∀ c, Snapshot.errors c = [] → s.ReloadAccepted env.collab c) ∧
    s.engine.snapshot.version =
      ((start settings world).history env happenings).countP (Deed.accepts env) := by
  intro s
  have hbounded : s.engine.health.Bounded := bounded_run env settings world happenings
  have hremembers : s.RemembersDeclared :=
    (invariant_run (remembersDeclared_next env) (fun _ hsome => absurd rfl hsome) happenings).2
  refine ⟨fun c => reloadRefused_of_errors env hbounded, fun c => reloadAccepted_of_no_errors env.collab hremembers,
    ?_⟩
  have hversion := version_deeds env (start settings world)
    fun h (hh : h ∈ (start settings world).atoms env happenings) => single_of_mem_atoms hh
  rw [run_atoms] at hversion
  exact hversion.trans (Nat.zero_add _)

/-- The nightly build without the pipeline that it waits for. -/
def nightlyAlone : Configuration := { pipelines := [nightly] }

theorem errors_nightlyAlone : Snapshot.errors nightlyAlone ≠ [] := by
  rw [Ne, Snapshot.errors_eq_nil_iff]
  intro hsound
  obtain ⟨q, hq, hsame, -⟩ := hsound.closed nightly (List.mem_singleton_self _) _ (List.mem_singleton_self _)
    ⟨"app"⟩ ⟨"build"⟩ rfl
  obtain rfl := List.mem_singleton.mp hq
  simp [nightly, Samples.timed, Samples.simple, Samples.withMaterials, Name.same_iff_toList] at hsame

/-- After its configuration was read, the nightly build stays when it is read again, and also when it is read
without what it waits for. -/
theorem nightly_refused_alone_and_accepted_again :
    let s := (start {} {}).run .inMemory [.request (.reload nightlyConfiguration)]
    s.engine.snapshot = .ofConfiguration nightlyConfiguration 1 ∧ s.ReloadRefused .inMemory nightlyAlone ∧
      s.ReloadAccepted InMemory.collaborators nightlyConfiguration := by
  intro s
  have hread : s = nightlyRead := reload_nightly
  have hsound := Snapshot.errors_eq_nil_iff.mpr sound_nightly
  obtain ⟨hrefused, haccepted, -⟩ := reload_all_or_nothing .inMemory {} {} [.request (.reload nightlyConfiguration)]
  exact ⟨by rw [hread]; rfl, hrefused nightlyAlone errors_nightlyAlone, haccepted nightlyConfiguration hsound⟩

end Session

end BuildScheduling
