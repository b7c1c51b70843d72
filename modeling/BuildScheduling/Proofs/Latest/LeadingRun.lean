import BuildScheduling.Proofs.Latest.Lagging
import BuildScheduling.Proofs.Resolution.HistoryOrder

/-!
# The latest run of a stage

A dependency is built from the run that leads its history (`StageRun.Leads`): one that has passed and that no passed
run comes after; of several with the same counters the one that was reported first. Sorting keeps runs with the same
counters in their order, so the head of the sorted history is the first of them (`first_of_newestFirst`, one run after
another), and runs that have not passed are left out before (`leads_of_newestFirst`). What was known before has a say
only when the report has lost it (`newest?_of_listed`). When no two passed runs have the same counters, the run that
leads is the same in whatever order they come (`Leads.eq_of_perm`).
-/

namespace BuildScheduling

namespace StageRun

/-- The run with the highest counters among the passed runs of a history, the first one that was reported with
these counters. -/
structure Leads (run : StageRun) (runs : List StageRun) : Prop where
  passed : run.isPassed = true
  highest : ∀ other ∈ runs, other.isPassed = true → other.NotAfter run
  first : ∃ before after, runs = before ++ run :: after ∧
    ∀ other ∈ before, other.isPassed = true → ¬ run.NotAfter other

variable {runs : List StageRun}

theorem Leads.mem {run : StageRun} (h : run.Leads runs) : run ∈ runs := by
  obtain ⟨before, after, rfl, -⟩ := h.first
  exact List.mem_append_right _ List.mem_cons_self

/-- The head of the sorted history stands in front of all other runs with its counters. -/
theorem first_of_newestFirst {head : StageRun} {rest : List StageRun} (h : newestFirst runs = head :: rest) :
    ∃ before after, runs = before ++ head :: after ∧ ∀ other ∈ before, ¬ head.NotAfter other := by
  induction runs generalizing head rest with
  | nil => simp [newestFirst] at h
  | cons run runs ih =>
    obtain ⟨front, back, hcons, hrest, hfront⟩ := newestFirst_cons run runs
    rw [h] at hcons
    cases front with
    | nil =>
      obtain ⟨rfl, -⟩ := List.cons.inj hcons
      exact ⟨[], runs, rfl, by simp⟩
    | cons first front =>
      -- The head is the head without this run, and comes after this run.
      obtain ⟨rfl, -⟩ := List.cons.inj hcons
      obtain ⟨before, after, rfl, hbefore⟩ := ih hrest
      exact ⟨run :: before, after, rfl, List.forall_mem_cons.mpr ⟨hfront head List.mem_cons_self, hbefore⟩⟩

theorem leads_of_newestFirst {head : StageRun} {rest : List StageRun}
    (h : newestFirst (runs.filter isPassed) = head :: rest) : head.Leads runs := by
  obtain ⟨before, after, hsplit, hbefore⟩ := first_of_newestFirst h
  obtain ⟨front, back, hruns, hfront, hback⟩ := List.filter_eq_append_iff.mp hsplit
  obtain ⟨gap, tail, rfl, hgap, hpassed, -⟩ := List.filter_eq_cons_iff.mp hback
  refine ⟨hpassed, fun other hother hother' => ?_, front ++ gap, tail, by simp [hruns], fun other hother hother' => ?_⟩
  · exact notAfter_head_newestFirst h (List.mem_filter.mpr ⟨hother, hother'⟩)
  · rcases List.mem_append.mp hother with hmem | hmem
    · exact hbefore other (hfront ▸ List.mem_filter.mpr ⟨hmem, hother'⟩)
    · exact absurd hother' (hgap other hmem)

/-- No two runs lead a history: the one that is reported later would have to come after the other. -/
theorem Leads.unique {run run' : StageRun} (h : run.Leads runs) (h' : run'.Leads runs) : run = run' := by
  obtain ⟨before, after, hruns, hbefore⟩ := h.first
  obtain ⟨before', after', hruns', hbefore'⟩ := h'.first
  have hnot : run' ∉ before := fun hmem => hbefore run' hmem h'.passed (h'.highest run h.mem h.passed)
  have hnot' : run ∉ before' := fun hmem => hbefore' run hmem h.passed (h.highest run' h'.mem h'.passed)
  rcases List.append_eq_append_iff.mp (hruns.symm.trans hruns') with ⟨gap, hgap, htail⟩ | ⟨gap, hgap, htail⟩
  · cases gap with
    | nil => exact (List.cons.inj htail).1
    | cons first gap =>
      obtain ⟨rfl, -⟩ := List.cons.inj htail
      exact absurd (by simp [hgap]) hnot'
  · cases gap with
    | nil => exact (List.cons.inj htail).1.symm
    | cons first gap =>
      obtain ⟨rfl, -⟩ := List.cons.inj htail
      exact absurd (by simp [hgap]) hnot

/-- The same run leads in every order when no two passed runs have the same counters. -/
theorem Leads.eq_of_perm {run run' : StageRun} {runs' : List StageRun} (h : run.Leads runs) (h' : run'.Leads runs')
    (hperm : runs'.Perm runs)
    (hapart : ((runs.filter isPassed).map fun r => (r.counter, r.stageCounter)).Nodup) : run = run' := by
  have hmem : run ∈ runs' := hperm.mem_iff.mpr h.mem
  have hmem' : run' ∈ runs := hperm.mem_iff.mp h'.mem
  obtain ⟨hcounter, hstage⟩ := (h'.highest run hmem h.passed).counters_eq (h.highest run' hmem' h'.passed)
  refine List.inj_on_of_nodup_map hapart (List.mem_filter.mpr ⟨h.mem, h.passed⟩)
    (List.mem_filter.mpr ⟨hmem', h'.passed⟩) ?_
  rw [hcounter, hstage]

end StageRun

namespace Report

/-- The first revision of a history is that of the run that leads, and there is none when no run has passed. -/
theorem head?_revisions_runs (runs : List StageRun) :
    (Report.runs runs).revisions.head? = none ∧ (∀ run ∈ runs, run.isPassed = false) ∨
      ∃ run, (Report.runs runs).revisions.head? = some (.ofRun run) ∧ run.Leads runs := by
  rw [revisions]
  cases hsorted : newestFirst (runs.filter StageRun.isPassed) with
  | nil =>
    have hempty : (Report.runs runs).isEmpty = true :=
      revisions_eq_nil_iff.mp (by rw [revisions, hsorted, List.map_nil])
    rw [isEmpty, Bool.not_eq_true', List.any_eq_false] at hempty
    exact Or.inl ⟨rfl, fun run hrun => by simpa using hempty run hrun⟩
  | cons head rest => exact Or.inr ⟨head, rfl, StageRun.leads_of_newestFirst hsorted⟩

theorem head?_revisions_of_perm {runs runs' : List StageRun} (hperm : runs'.Perm runs)
    (hapart : ((runs.filter StageRun.isPassed).map fun r => (r.counter, r.stageCounter)).Nodup) :
    (Report.runs runs').revisions.head? = (Report.runs runs).revisions.head? := by
  rcases head?_revisions_runs runs with ⟨hnone, hfailed⟩ | ⟨run, hrun, hleads⟩ <;>
    rcases head?_revisions_runs runs' with ⟨hnone', hfailed'⟩ | ⟨run', hrun', hleads'⟩
  · rw [hnone, hnone']
  · exact absurd hleads'.passed (by simp [hfailed run' (hperm.mem_iff.mp hleads'.mem)])
  · exact absurd hleads.passed (by simp [hfailed' run (hperm.mem_iff.mpr hleads.mem)])
  · rw [hrun, hrun', hleads.eq_of_perm hleads' hperm hapart]

end Report

/-- What is known gives way to a report that lists it. -/
theorem LatestKnown.newest?_of_listed {known : LatestKnown} {material : Fingerprint} {revisions : List Revision}
    (h : ∀ r, known.get? material = some r → ∃ listed ∈ revisions, listed.identifier = r.identifier) :
    known.newest? material revisions = revisions.head? := by
  unfold LatestKnown.newest?
  cases revisions with
  | nil => rfl
  | cons head rest =>
    cases hknown : known.get? material with
    | none => rfl
    | some r => exact congrArg some (remembered_of_listed (h r hknown))

namespace Attempt

variable {σ : Type} {collab : Collaborators σ} {limit : Option Nat} {snapshot : Snapshot} {m : Material}
  {pipeline : PipelineName} {stage : StageName} {progress mid : Progress σ}

/-- Once the report on a material is there, its latest revision is settled. -/
theorem on_latest_of_report {report : Report}
    (hask : (ask limit (collab.reportOn snapshot m)).on progress = (.ok report, mid)) :
    (latest collab limit snapshot m).on progress =
      (.ok (progress.known.newest? m.fingerprint report.revisions),
        { mid with known := progress.known.learn m.fingerprint report.revisions }) := by
  have hknown := (on_ask limit (collab.reportOn snapshot m) progress).1
  rw [hask] at hknown
  rw [latest_eq, on_bind, hask, ← hknown]
  rfl

/-- A history that comes in is the report on the material, and so is any history in its place. -/
theorem on_ask_reportOn (snapshot : Snapshot) {runs : List StageRun}
    (hsource : m.source = .dependency pipeline stage)
    (hask : (ask limit (collab.stageRuns pipeline stage)).on progress = (.ok runs, mid)) :
    (ask limit (collab.reportOn snapshot m)).on progress = (.ok (.runs runs), mid) ∧
      ∀ history, (ask limit ((collab.withHistory pipeline stage history).reportOn snapshot m)).on progress =
        (.ok (.runs history), mid) := by
  have hreport : collab.reportOn snapshot m = (collab.stageRuns pipeline stage).map .runs := by
    rw [Collaborators.reportOn, Material.dependency?_eq_some_iff.mpr hsource]
  refine ⟨by rw [hreport, ask_map, on_map, hask], fun history => ?_⟩
  rw [reportOn_withHistory_of_source hsource (Name.same_refl _) (Name.same_refl _), ask_map, on_map, hask]

/-- Whatever the results and the order of the runs in the history of a stage, the latest revision of a dependency on
it is found as soon as the history comes in, if nothing was known of the material before or if what was known is still
in the history among the passed runs. There is none when no run has passed. Otherwise it is that of the run that leads
the history, which is known from then on. When the counters of the passed runs are all different, every order of the
history has the same answer. -/
theorem latest_run_leads_history (collab : Collaborators σ) (limit : Option Nat) (snapshot : Snapshot)
    (hsource : m.source = .dependency pipeline stage) {runs : List StageRun}
    (hcame : ((ask limit (collab.stageRuns pipeline stage)).on progress).1 = .ok runs)
    (hlisted : ∀ known, progress.known.get? m.fingerprint = some known →
      ∃ run ∈ runs, run.isPassed = true ∧ run.identifier = known.identifier) :
    (((latest collab limit snapshot m).on progress).1 = .ok none ↔ ∀ run ∈ runs, run.isPassed = false) ∧
    ((∃ run ∈ runs, run.isPassed = true) →
      ∃ run last, run.Leads runs ∧ (latest collab limit snapshot m).on progress = (.ok (some (.ofRun run)), last) ∧
        last.known.get? m.fingerprint = some (.ofRun run)) ∧
    (((runs.filter StageRun.isPassed).map fun r => (r.counter, r.stageCounter)).Nodup →
      ∀ runs', runs'.Perm runs →
        ((latest (collab.withHistory pipeline stage runs') limit snapshot m).on progress).1 =
          ((latest collab limit snapshot m).on progress).1) := by
  rcases hask : (ask limit (collab.stageRuns pipeline stage)).on progress with ⟨_ | answer, mid⟩
  · simp [hask] at hcame
  obtain rfl : answer = runs := by simpa [hask] using hcame
  obtain ⟨hreport, hreport'⟩ := on_ask_reportOn snapshot hsource hask
  have hnewest : ∀ history, history.Perm answer →
      progress.known.newest? m.fingerprint (Report.runs history).revisions =
        (Report.runs history).revisions.head? := by
    refine fun history hperm => LatestKnown.newest?_of_listed fun known hknown => ?_
    obtain ⟨run, hrun, hpassed, hidentifier⟩ := hlisted known hknown
    exact ⟨.ofRun run, Report.mem_revisions_iff.mpr ⟨run, hperm.mem_iff.mpr hrun, hpassed, rfl⟩, hidentifier⟩
  have hlatest := on_latest_of_report hreport
  rw [hnewest answer (.refl _)] at hlatest
  refine ⟨?_, ?_, fun hapart runs' hperm => ?_⟩
  · rw [hlatest]
    rcases Report.head?_revisions_runs answer with ⟨hnone, hfailed⟩ | ⟨run, hrun, hleads⟩
    · simpa [hnone] using hfailed
    · have hpassed : ¬ ∀ run ∈ answer, run.isPassed = false := fun hfailed =>
        absurd hleads.passed (by simp [hfailed run hleads.mem])
      simp [hrun, hpassed]
  · rintro ⟨passed, hmem, hpassed⟩
    rcases Report.head?_revisions_runs answer with ⟨-, hfailed⟩ | ⟨run, hrun, hleads⟩
    · exact absurd hpassed (by simp [hfailed passed hmem])
    · refine ⟨run, _, hleads, by rw [hlatest, hrun], ?_⟩
      rw [LatestKnown.get?_learn, if_pos rfl, hnewest answer (.refl _), hrun]
      rfl
  · rw [on_latest_of_report (hreport' runs'), hlatest, hnewest runs' hperm,
      Report.head?_revisions_of_perm hperm hapart]

end Attempt

namespace Session

/-! A stage ran a second time in the same run of its pipeline, a later run failed, and a still later one goes on. The
first run is known. -/

def mixedRuns : List StageRun :=
  [Samples.failed ⟨"lib"⟩ 9 ⟨"up"⟩, firstRun, Samples.running ⟨"lib"⟩ 12 ⟨"up"⟩, secondRun]

/-- Reported with the counters of the second run. -/
def repeatedRun : StageRun := { secondRun with label := "again" }

def knowingFirst (runs : List StageRun) : Progress InMemory where
  world := InMemory.setRuns {} ⟨"lib"⟩ ⟨"up"⟩ runs
  known := (∅ : LatestKnown).insert onLibrary.fingerprint (.ofRun firstRun)

theorem stageRuns_knowingFirst (runs : List StageRun) :
    ((Attempt.ask none (InMemory.collaborators.stageRuns ⟨"lib"⟩ ⟨"up"⟩)).on (knowingFirst runs)).1 = .ok runs := by
  have hhistory : (knowingFirst runs).world.stageHistory ⟨"lib"⟩ ⟨"up"⟩ = runs := by
    rw [knowingFirst, InMemory.stageHistory_setRuns, if_pos ⟨Name.same_refl _, Name.same_refl _⟩]
  rw [Attempt.on_ask_eq, if_neg (by simp)]
  exact congrArg Except.ok hhistory

theorem listed_of_knowingFirst {runs : List StageRun} (hfirst : firstRun ∈ runs) (known : Revision)
    (h : (knowingFirst runs).known.get? onLibrary.fingerprint = some known) :
    ∃ run ∈ runs, run.isPassed = true ∧ run.identifier = known.identifier := by
  rw [knowingFirst, SortedMap.get?_insert, if_pos (Fingerprint.compare_eq_iff.mpr rfl), Option.some.injEq] at h
  exact ⟨firstRun, hfirst, by decide, by rw [← h]; rfl⟩

theorem second_run_leads : secondRun.Leads (mixedRuns ++ [repeatedRun]) ∧ secondRun.Leads mixedRuns := by
  have hnotAfter : ∀ other ∈ mixedRuns ++ [repeatedRun], other.isPassed = true → other.NotAfter secondRun := by
    simp only [← StageRun.not_newerThan_iff]
    decide +kernel
  have hbefore : ∀ other ∈ mixedRuns.take 3, other.isPassed = true → ¬ secondRun.NotAfter other := by
    simp only [← StageRun.not_newerThan_iff]
    decide +kernel
  exact ⟨⟨by decide, hnotAfter, mixedRuns.take 3, [repeatedRun], rfl, hbefore⟩,
    ⟨by decide, fun other hother => hnotAfter other (List.mem_append_left _ hother), mixedRuns.take 3, [], rfl, hbefore⟩⟩

/-- The second run is the latest one, also before another run with its counters, and in every order of the runs. When
the first run is lost too, there is none. -/
theorem second_run_is_latest :
    ((Attempt.latest InMemory.collaborators none .empty onLibrary).on (knowingFirst (mixedRuns ++ [repeatedRun]))).1 =
      .ok (some (.ofRun secondRun)) ∧
    (∀ runs', runs'.Perm mixedRuns →
      ((Attempt.latest (InMemory.collaborators.withHistory ⟨"lib"⟩ ⟨"up"⟩ runs') none .empty onLibrary).on
        (knowingFirst mixedRuns)).1 = .ok (some (.ofRun secondRun))) ∧
    ((Attempt.latest InMemory.collaborators none .empty onLibrary).on
      { knowingFirst (mixedRuns.take 1) with known := ∅ }).1 = .ok none := by
  have hlatest := fun runs (hfirst : firstRun ∈ runs) =>
    Attempt.latest_run_leads_history InMemory.collaborators none .empty (m := onLibrary) rfl
      (stageRuns_knowingFirst runs) (listed_of_knowingFirst hfirst)
  obtain ⟨-, hrepeated, -⟩ := hlatest (mixedRuns ++ [repeatedRun]) (by decide +kernel)
  obtain ⟨-, hmixed, horders⟩ := hlatest mixedRuns (by decide +kernel)
  have hlost : ((Attempt.ask none (InMemory.collaborators.stageRuns ⟨"lib"⟩ ⟨"up"⟩)).on
      { knowingFirst (mixedRuns.take 1) with known := ∅ }).1 = .ok (mixedRuns.take 1) :=
    stageRuns_knowingFirst (mixedRuns.take 1)
  obtain ⟨hnone, -, -⟩ := Attempt.latest_run_leads_history InMemory.collaborators none .empty (m := onLibrary) rfl hlost
    fun known hknown => by cases hknown
  have hpassed : ∃ run ∈ mixedRuns, run.isPassed = true := ⟨secondRun, by decide +kernel, by decide⟩
  refine ⟨?_, fun runs' hperm => ?_, hnone.mpr (by decide +kernel)⟩
  · obtain ⟨run, last, hrun, hanswer, -⟩ := hrepeated ⟨secondRun, by decide +kernel, by decide⟩
    rw [hanswer, hrun.unique second_run_leads.1]
  · obtain ⟨run, last, hrun, hanswer, -⟩ := hmixed hpassed
    rw [horders (by decide +kernel) runs' hperm, hanswer, hrun.unique second_run_leads.2]

end Session

end BuildScheduling
