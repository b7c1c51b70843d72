import BuildScheduling.Proofs.Debounce.TimerLaw
import BuildScheduling.Proofs.Latest.Backing
import BuildScheduling.Proofs.Queue.ForcedCause

/-!
# Where queued causes come from

What is known after any part of a run is backed by the reports that were made in it (`backed_deeds`), so the
revisions of a cause can be traced back to reports: to those of the attempt that came up with it, or to earlier
ones of the run (`queued_causes_whole_and_reported`).
-/

namespace BuildScheduling

variable {σ χ : Type} {collab : Collaborators σ} {env : Environment σ χ}

/-! ### What is known is backed -/

namespace Session

theorem backed_reload {s : Session σ} {c : Configuration} {past : List (Material × Report)}
    (h : s.engine.known.Backed past) : (s.reload collab c).2.engine.known.Backed past := by
  unfold reload
  cases Snapshot.build c (s.engine.snapshot.version + 1) with
  | error errors =>
    have hknown := congrArg Progress.known (progress_reports collab s errors)
    dsimp only
    rwa [show Engine.known _ = s.engine.known from hknown]
  | ok snapshot =>
    have hknown : (s.publish collab snapshot).engine.known =
        s.engine.known.filterKeys snapshot.materialFingerprints.contains :=
      congrArg Progress.known (progress_publish s snapshot)
    intro material r hr
    dsimp only at hr
    rw [hknown, SortedMap.get?_filterKeys _ fun a b hab => SortedMap.contains_congr _ hab] at hr
    split at hr
    · exact h material r hr
    · cases hr

/-- What is known after a single deed is backed by the reports before it and its own. -/
theorem backed_next {s : Session σ} {h : Happening χ} (hsingle : h.Single)
    {past : List (Material × Report)} (hs : s.engine.known.Backed past) :
    (s.next env h).2.engine.known.Backed (past ++ Deed.reports env ⟨s, h⟩) := by
  by_cases hreload : ∃ c, h = .request (.reload c)
  · obtain ⟨c, rfl⟩ := hreload
    exact (backed_reload hs).mono (List.subset_append_left _ _)
  · exact hs.of_recalled h.overrides (get?_known_next env s hsingle (not_exists.mp hreload))

/-- What is known after any part of a run is backed by the reports that were made in it. -/
theorem backed_deeds (env : Environment σ χ) (s : Session σ) {past : List (Material × Report)}
    (hs : s.engine.known.Backed past) {happenings : List (Happening χ)}
    (hsingle : ∀ h ∈ happenings, h.Single) :
    (s.run env happenings).engine.known.Backed
      (past ++ (s.deeds env happenings).flatMap (Deed.reports env)) := by
  induction happenings generalizing s past with
  | nil => exact hs.mono (List.subset_append_left _ _)
  | cons h rest ih =>
    obtain ⟨hh, hrest⟩ := List.forall_mem_cons.mp hsingle
    rw [run_cons, deeds, List.flatMap_cons, ← List.append_assoc]
    exact ih _ (backed_next hh hs) hrest

end Session

/-! ### The revisions of a cause -/

/-- A revision of a cause can be traced back to reports: to the one on its material, if it was asked for by
name; else it is the newest of one of the reports so far. For a dependency it is a run that was reported and
has passed, as long as only dependencies with its fingerprint were reported. -/
structure Accounted (overrides : Overrides) (reported : List (Material × Report)) (m : Material)
    (report : Report) (r : MaterialRevision) : Prop where
  material : r.material = m
  pegged : ∀ wanted, overrides.wanted? m = some wanted →
    report.named? wanted = some r.revision ∧ report.Lists r.revision
  unpegged : overrides.wanted? m = none → NewestIn reported m.fingerprint r.revision
  dependency : m.isDependency = true →
    (∀ e ∈ reported, e.1.fingerprint = m.fingerprint → e.1.isDependency = true) →
    ∃ run, r.revision = .ofRun run ∧ run.isPassed = true ∧ ∃ other listed,
      (other, .runs listed) ∈ reported ∧ other.fingerprint = m.fingerprint ∧ run ∈ listed

/-- The revisions that a report on a dependency lists are runs that have passed. -/
theorem exists_run_of_lists {reported : List (Material × Report)} {m : Material} {report : Report}
    {revision : Revision} (hruns : Attempt.DependenciesAsRuns reported) (hmem : (m, report) ∈ reported)
    (hm : m.isDependency = true) (hlists : report.Lists revision) :
    ∃ run, revision = .ofRun run ∧ run.isPassed = true ∧ ∃ other listed,
      (other, .runs listed) ∈ reported ∧ other.fingerprint = m.fingerprint ∧ run ∈ listed := by
  obtain ⟨listed, rfl⟩ := hruns m report hmem hm
  obtain ⟨run, hrun, hpassed, rfl⟩ := hlists
  exact ⟨run, rfl, hpassed, m, listed, hmem, rfl, hrun⟩

theorem lists_of_head? {report : Report} {revision : Revision}
    (h : report.revisions.head? = some revision) : report.Lists revision :=
  Report.mem_revisions_iff.mp (List.mem_of_mem_head? h)

namespace Attempt

variable {limit : Option Nat} {snapshot : Snapshot} {p : Pipeline}

theorem accounted_of_mapM {overrides : Overrides} {past : List (Material × Report)}
    {materials : List Material} {progress last : Progress σ}
    {answers : List (Material × Option MaterialRevision)} {revisions : List MaterialRevision}
    (hbacked : progress.known.Backed past) (hpast : DependenciesAsRuns past)
    (hmap : (materials.mapM (resolveMaterial collab limit snapshot p overrides)).on progress =
      (.ok answers, last)) (hcomplete : answers.map Prod.snd = revisions.map some) {k : Nat} {m : Material}
    {report : Report} {r : MaterialRevision}
    (hreport : (reportsOn collab limit snapshot p overrides materials progress)[k]? = some (m, report))
    (hr : revisions[k]? = some r) :
    Accounted overrides
      (past ++ (reportsOn collab limit snapshot p overrides materials progress).take (k + 1)) m report r := by
  obtain ⟨answer, hanswer, hsnd⟩ : ∃ answer, answers[k]? = some answer ∧ answer.2 = some r := by
    have hsome : (answers.map Prod.snd)[k]? = some (some r) := by rw [hcomplete, List.getElem?_map, hr]; rfl
    simpa using hsome
  have hsettled : Settled overrides (m, report) answer := by
    obtain ⟨hk, hreport⟩ := List.getElem?_eq_some_iff.mp hreport
    obtain ⟨hk', hanswer⟩ := List.getElem?_eq_some_iff.mp hanswer
    rw [← hreport, ← hanswer]
    exact (forall₂_settled hmap).2.get hk hk'
  have hunpegged : overrides.wanted? m = none → NewestIn _ m.fingerprint r.revision := fun hwanted =>
    hsettled.material ▸ newest_reportsOn hbacked hmap hanswer hsnd (hsettled.material ▸ hwanted)
  have hpegged : ∀ wanted, overrides.wanted? m = some wanted → report.named? wanted = some r.revision := by
    intro wanted hwanted
    obtain ⟨r', hr', hnamed⟩ := hsettled.pegged wanted hwanted
    rw [hsnd, Option.some.injEq] at hr'
    rwa [hr']
  generalize hreported : past ++ (reportsOn collab limit snapshot p overrides materials progress).take (k + 1)
    = reported at hunpegged ⊢
  have hmem : (m, report) ∈ reported := by
    rw [← hreported]
    refine List.mem_append_right _ (List.mem_of_getElem? (i := k) ?_)
    rwa [List.getElem?_take, if_pos (Nat.lt_succ_self k)]
  have hruns : DependenciesAsRuns reported := by
    rw [← hreported]
    intro other report' hmem' hother
    rcases List.mem_append.mp hmem' with hmem' | hmem'
    · exact hpast other report' hmem' hother
    · exact dependenciesAsRuns_reportsOn materials progress other report' (List.mem_of_mem_take hmem') hother
  refine ⟨hsettled.revision r hsnd, fun wanted hwanted => ?_, hunpegged, fun hm hkinds => ?_⟩
  · exact ⟨hpegged wanted hwanted, Report.lists_of_named? (hpegged wanted hwanted)⟩
  · cases hwanted : overrides.wanted? m with
    | some wanted =>
      exact exists_run_of_lists hruns hmem hm (Report.lists_of_named? (hpegged wanted hwanted))
    | none =>
      obtain ⟨other, report', hmem', hother, hhead⟩ := hunpegged hwanted
      have hdependency := hkinds (other, report') hmem' hother
      obtain ⟨run, hrun, hpassed, another, listed, hlisted, hanother, hin⟩ :=
        exists_run_of_lists hruns hmem' hdependency (lists_of_head? hhead)
      exact ⟨run, hrun, hpassed, another, listed, hlisted, hanother.trans hother, hin⟩

/-- The cause that an attempt comes up with has a revision for every material, each accounted for. -/
theorem accounted_of_decide {debounce : TimerDebounce} {event : TriggerEvent}
    {past : List (Material × Report)} {progress : Progress σ} {cause : BuildCause}
    (hbacked : progress.known.Backed past) (hpast : DependenciesAsRuns past)
    (h : ((decide collab limit snapshot debounce p event).on progress).1 = .ok (.succeeded cause)) :
    cause.materialRevisions.map MaterialRevision.material = p.materials ∧
    (reports collab limit snapshot p event.overrides progress).map Prod.fst = p.materials ∧
    ∀ (k : Nat) (m : Material) (report : Report) (r : MaterialRevision),
      (reports collab limit snapshot p event.overrides progress)[k]? = some (m, report) →
      cause.materialRevisions[k]? = some r →
      Accounted event.overrides
        (past ++ (reports collab limit snapshot p event.overrides progress).take (k + 1)) m report r := by
  rcases decide_ok h with hcause | ⟨_, hcause⟩ | ⟨revisions, ⟨mid, last, hheld, hresolve⟩, hcause⟩
  · cases hcause
  · cases hcause
  rw [materialRevisions_of_decideRevisions hcause.symm]
  have hmid := known_isHeld collab limit p progress
  rw [hheld] at hmid
  have hbacked' : mid.known.Backed past := by rwa [show mid.known = progress.known from hmid]
  obtain ⟨hkey, answers, hmap, hcomplete⟩ := answers_of_resolve hresolve
  have hreports : reports collab limit snapshot p event.overrides progress =
      reportsOn collab limit snapshot p event.overrides p.materials mid := by
    simp [reports, hheld, resolveReports, hkey]
  rw [hreports]
  refine ⟨map_material_of_resolve hresolve, (forall₂_settled hmap).1, fun k m report r hreport hr => ?_⟩
  exact accounted_of_mapM hbacked' hpast hmap hcomplete hreport hr

theorem dependenciesAsRuns_resolveReports (overrides : Overrides) (progress : Progress σ) :
    DependenciesAsRuns (resolveReports collab limit snapshot p overrides progress) := by
  unfold resolveReports
  split
  · exact fun _ _ hmem => absurd hmem List.not_mem_nil
  · exact dependenciesAsRuns_reportsOn _ _

end Attempt

theorem Deed.dependenciesAsRuns_reports (env : Environment σ χ) (d : Deed σ χ) :
    Attempt.DependenciesAsRuns (d.reports env) := by
  have hnil : Attempt.DependenciesAsRuns [] := fun _ _ hmem => absurd hmem List.not_mem_nil
  unfold Deed.reports
  split
  · unfold Session.attemptReports
    split
    · unfold Attempt.reports
      split
      · exact Attempt.dependenciesAsRuns_resolveReports _ _
      · exact hnil
    · exact hnil
  · next m _ =>
    unfold Session.latestReports
    split
    · next report _ hask =>
      have hanswer := (Attempt.on_ask none (env.collab.reportOn d.before.engine.snapshot m)
        d.before.progress).2.2 report (by rw [hask])
      intro other report' hmem hother
      cases List.mem_singleton.mp hmem
      exact Attempt.exists_runs_of_reportOn hanswer hother
    · exact hnil
  · split
    · exact Attempt.dependenciesAsRuns_resolveReports _ _
    · exact hnil
  · exact hnil

/-! ### Queued causes -/

/-- A deed is an attempt that ended with a cause. -/
def Deed.Queues (env : Environment σ χ) (name : PipelineName) (event : TriggerEvent) (cause : BuildCause)
    (d : Deed σ χ) : Prop :=
  d.happening = .request (.attempt name event) ∧ d.answer env = .outcome (.ok (.succeeded cause))

namespace Session

/-- A cause that waits after a single thing was there before, or that thing was an attempt that queued it,
under some spelling of the name. -/
theorem pending_next {s : Session σ} {h : Happening χ} (hsingle : h.Single) {name : PipelineName}
    {cause : BuildCause} (hpending : (s.next env h).2.engine.queue.pending name = some cause) :
    s.engine.queue.pending name = some cause ∨
      ∃ spelling event, spelling.same name = true ∧ Deed.Queues env spelling event cause ⟨s, h⟩ := by
  have heffect := effect_next env s hsingle
  generalize (s.next env h).2 = s' at heffect hpending
  cases heffect with
  | queued other event p another _ hp hfree hanswer hqueued =>
    rw [hqueued.pending] at hpending
    split at hpending
    · next hsame =>
      cases hpending
      rw [Name.same_comm] at hsame
      have hother := same_of_pipeline? hp
      rw [Name.same_comm] at hother
      exact Or.inr ⟨other, event, Name.same_trans hother hsame, rfl, congrArg Answer.outcome hanswer⟩
    · exact Or.inl hpending
  | unanswered other event _ hanswer hquiet => exact Or.inl (hquiet.queue ▸ hpending)
  | published c snapshot _ hbuild hanswer hpublished => exact Or.inl (hpublished.queue ▸ hpending)
  | refused c errors _ hanswer hquiet => exact Or.inl (hquiet.queue ▸ hpending)
  | finished other =>
    change ScheduleQueue.pending (s.engine.queue.erase other) name = some cause at hpending
    rw [ScheduleQueue.pending_erase] at hpending
    split at hpending
    · cases hpending
    · exact Or.inl hpending
  | cleared => cases hpending
  | idle _ _ hattempt hreload hquiet => exact Or.inl (hquiet.queue ▸ hpending)

theorem pending_deeds {s : Session σ} {happenings : List (Happening χ)}
    (hsingle : ∀ h ∈ happenings, h.Single) {name : PipelineName} {cause : BuildCause}
    (hpending : (s.run env happenings).engine.queue.pending name = some cause) :
    s.engine.queue.pending name = some cause ∨
      ∃ d ∈ s.deeds env happenings, ∃ spelling event, spelling.same name = true ∧
        d.Queues env spelling event cause := by
  induction happenings generalizing s with
  | nil => exact Or.inl hpending
  | cons first rest ih =>
    obtain ⟨hfirst, hrest⟩ := List.forall_mem_cons.mp hsingle
    rcases ih hrest hpending with hmid | ⟨d, hd, hqueues⟩
    · exact (pending_next hfirst hmid).imp_right fun hqueues => ⟨_, List.mem_cons_self, hqueues⟩
    · exact Or.inr ⟨d, List.mem_cons_of_mem _ hd, hqueues⟩

/-- What an attempt queues waits under its name, and is accounted for. -/
theorem accounted_of_schedule {s : Session σ} {name : PipelineName} {event : TriggerEvent}
    {cause : BuildCause} {past : List (Material × Report)} (hbacked : s.engine.known.Backed past)
    (hpast : Attempt.DependenciesAsRuns past)
    (h : (s.schedule collab name event).1 = .ok (.succeeded cause)) :
    ∃ p, s.engine.snapshot.pipeline? name = some p ∧
      (s.schedule collab name event).2.engine.queue.pending name = some cause ∧
      cause.materialRevisions.map MaterialRevision.material = p.materials ∧
      (s.attemptReports collab name event).map Prod.fst = p.materials ∧
      ∀ (k : Nat) (m : Material) (report : Report) (r : MaterialRevision),
        (s.attemptReports collab name event)[k]? = some (m, report) →
        cause.materialRevisions[k]? = some r →
        Accounted event.overrides (past ++ (s.attemptReports collab name event).take (k + 1)) m report r := by
  rcases s.deciding?_cases collab name event with ⟨p, hdeciding, hp, hschedule⟩ | ⟨-, -, hnone⟩
  · refine ⟨p, hp, ?_, ?_⟩
    · obtain ⟨p', hp', -, hqueued⟩ := queued_of_succeeded h
      exact hqueued.pending_of_same (same_of_pipeline? hp')
    · rw [hschedule] at h
      obtain ⟨last, hdecision, -⟩ := attempt_ok_iff.mp h
      rw [lock_decision] at hdecision
      rw [attemptReports, hdeciding]
      exact Attempt.accounted_of_decide hbacked hpast (congrArg Prod.fst hdecision)
  · exact absurd h (hnone cause)

/-- Whatever happens after the start, a cause that waits was queued by an attempt. And the cause that an
attempt queues has one revision for each material of the pipeline, as the snapshot in effect declares them and
in that order, each of them accounted for by the reports of this attempt and those before it. -/
theorem queued_causes_whole_and_reported (env : Environment σ χ) (settings : Settings) (world : σ)
    (happenings : List (Happening χ)) :
    (∀ name cause,
      ((start settings world).run env happenings).engine.queue.pending name = some cause →
      ∃ d ∈ (start settings world).history env happenings, ∃ spelling event, spelling.same name = true ∧
        d.Queues env spelling event cause) ∧
    ∀ (earlier : List (Deed σ χ)) (d : Deed σ χ) (later : List (Deed σ χ)),
      (start settings world).history env happenings = earlier ++ d :: later →
      ∀ name event cause, d.Queues env name event cause →
      ∃ p, d.before.engine.snapshot.pipeline? name = some p ∧
        (d.after env).engine.queue.pending name = some cause ∧
        cause.materialRevisions.map MaterialRevision.material = p.materials ∧
        (d.reports env).map Prod.fst = p.materials ∧
        ∀ (k : Nat) (m : Material) (report : Report) (r : MaterialRevision),
          (d.reports env)[k]? = some (m, report) → cause.materialRevisions[k]? = some r →
          Accounted event.overrides
            (earlier.flatMap (Deed.reports env) ++ (d.reports env).take (k + 1)) m report r := by
  constructor
  · intro name cause hpending
    rw [← run_atoms] at hpending
    rcases pending_deeds (fun h hh => single_of_mem_atoms hh) hpending with hstart | hqueued
    · cases hstart
    · exact hqueued
  · rintro earlier ⟨before, happening⟩ later hsplit name event cause ⟨hhappening, hanswer⟩
    cases hhappening
    obtain ⟨first, rest, hatoms, rfl, rfl, -⟩ := deeds_eq_append_cons hsplit
    have hsingle : ∀ h ∈ first, h.Single := fun h hh =>
      single_of_mem_atoms (hatoms ▸ List.mem_append_left _ hh)
    have hbacked := backed_deeds env (start settings world) (LatestKnown.backed_empty []) hsingle
    have hpast : Attempt.DependenciesAsRuns
        (((start settings world).deeds env first).flatMap (Deed.reports env)) := by
      intro m report hmem hm
      obtain ⟨d, -, hmem⟩ := List.mem_flatMap.mp hmem
      exact d.dependenciesAsRuns_reports env m report hmem hm
    exact accounted_of_schedule hbacked hpast (Answer.outcome.inj hanswer)

set_option maxRecDepth 100000 in
/-- The timer of the nightly build queues a cause with the run of `app` that was reported to it. -/
theorem nightly_cause_accounted :
    let fires : Deed InMemory WorldChange := ⟨nightlyReported, .request (.attempt ⟨"nightly"⟩ .timer)⟩
    fires.Queues .inMemory ⟨"nightly"⟩ .timer (.ofTimer nightlyRevisions) ∧
    (fires.after .inMemory).engine.queue.pending ⟨"nightly"⟩ = some (.ofTimer nightlyRevisions) ∧
    (fires.reports .inMemory).map Prod.fst = nightly.materials ∧
    ∀ (k : Nat) (m : Material) (report : Report) (r : MaterialRevision),
      (fires.reports .inMemory)[k]? = some (m, report) → nightlyRevisions[k]? = some r →
      Accounted ∅ ((fires.reports .inMemory).take (k + 1)) m report r := by
  intro fires
  have hfired : (nightlyReported.schedule Environment.inMemory.collab ⟨"nightly"⟩ .timer).1 =
      .ok (.succeeded (.ofTimer nightlyRevisions)) := by decide +kernel
  have hqueues : fires.Queues .inMemory ⟨"nightly"⟩ .timer (.ofTimer nightlyRevisions) :=
    ⟨rfl, congrArg Answer.outcome hfired⟩
  have hnightly : nightlyReported.engine.snapshot.pipeline? ⟨"nightly"⟩ = some nightly := by decide +kernel
  obtain ⟨p, hp, hpending, -, hmaterials, haccounted⟩ :=
    (queued_causes_whole_and_reported .inMemory {} {} _).2 (nightlyDeeds.take 2) fires _ history_nightly
      ⟨"nightly"⟩ .timer _ hqueues
  obtain rfl : nightly = p := Option.some.inj (hnightly.symm.trans hp)
  exact ⟨hqueues, hpending, hmaterials, haccounted⟩

end Session

end BuildScheduling
