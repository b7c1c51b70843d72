import Mathlib.Data.List.Forall2
import BuildScheduling.Proofs.Engine.Attempt

/-!
# Reports

What an attempt learns of a material from one question (`Report`), and what it makes of the answer. To resolve
a material is to ask for its report and to settle on a revision (`resolveMaterial_eq`): one that goes by the
wanted name, or the latest known one after the report. `Attempt.reports` lists the reports that are made in
the course of an attempt, in order; when the attempt gets through, there is one for every material, and one
answer for every report (`forall₂_settled`).
-/

namespace BuildScheduling

/-- A run that is found when a text is asked for: it has passed, and the text is its identifier or its label. -/
def StageRun.GoesBy (r : StageRun) (wanted : String) : Prop :=
  r.isPassed = true ∧ (r.identifier = wanted ∨ r.label = wanted)

/-- What the collaborators answer when they are asked for the revisions of a material. -/
inductive Report where
  | checkIns (listed : List Revision)
  | runs (listed : List StageRun)

namespace Report

/-- The revisions that can be built from, newest first: every check-in, and the runs that have passed. -/
def revisions : Report → List Revision
  | .checkIns listed => listed
  | .runs listed => (newestFirst (listed.filter StageRun.isPassed)).map Revision.ofRun

/-- The first of these, as they were reported, that goes by a text: a check-in by its identifier, a run by its
identifier or its label. -/
def named? (wanted : String) : Report → Option Revision
  | .checkIns listed => listed.find? fun r => r.identifier == wanted
  | .runs listed =>
    ((listed.filter StageRun.isPassed).find? fun r => r.identifier == wanted || r.label == wanted).map
      Revision.ofRun

/-- Nothing to build from: no check-in, or no run that has passed. -/
def isEmpty : Report → Bool
  | .checkIns listed => listed.isEmpty
  | .runs listed => !listed.any StageRun.isPassed

/-- A revision that can be built from is in the report. -/
def Lists (revision : Revision) : Report → Prop
  | .checkIns listed => revision ∈ listed
  | .runs listed => ∃ run ∈ listed, run.isPassed = true ∧ revision = .ofRun run

/-- One that goes by a text is. -/
def ListsNamed (wanted : String) : Report → Prop
  | .checkIns listed => ∃ r ∈ listed, r.identifier = wanted
  | .runs listed => ∃ run ∈ listed, run.isPassed = true ∧ (run.identifier = wanted ∨ run.label = wanted)

theorem mem_revisions_iff {report : Report} {revision : Revision} :
    revision ∈ report.revisions ↔ report.Lists revision := by
  cases report with
  | checkIns listed => exact Iff.rfl
  | runs listed =>
    simp only [revisions, Lists, newestFirst, List.mem_map, List.mem_mergeSort, List.mem_filter, and_assoc,
      eq_comm (a := revision)]

theorem revisions_eq_nil_iff {report : Report} : report.revisions = [] ↔ report.isEmpty = true := by
  cases report with
  | checkIns listed => exact List.isEmpty_iff.symm
  | runs listed =>
    rw [revisions, List.map_eq_nil_iff, ← List.length_eq_zero_iff, newestFirst, List.length_mergeSort,
      List.length_eq_zero_iff, List.filter_eq_nil_iff, isEmpty, Bool.not_eq_true', List.any_eq_false]

theorem goesBy_of_named? {listed : List StageRun} {wanted : String} {revision : Revision}
    (h : (Report.runs listed).named? wanted = some revision) :
    ∃ run ∈ listed, run.GoesBy wanted ∧ revision = .ofRun run := by
  obtain ⟨run, hrun, rfl⟩ := Option.map_eq_some_iff.mp h
  obtain ⟨hmem, hpassed⟩ := List.mem_filter.mp (List.mem_of_find?_eq_some hrun)
  exact ⟨run, hmem, ⟨hpassed, by simpa using List.find?_some hrun⟩, rfl⟩

theorem lists_of_named? {report : Report} {wanted : String} {revision : Revision}
    (h : report.named? wanted = some revision) : report.Lists revision := by
  cases report with
  | checkIns listed => exact List.mem_of_find?_eq_some h
  | runs listed =>
    obtain ⟨run, hmem, hgoes, hrevision⟩ := goesBy_of_named? h
    exact ⟨run, hmem, hgoes.1, hrevision⟩

theorem named?_eq_none_iff {report : Report} {wanted : String} :
    report.named? wanted = none ↔ ¬ report.ListsNamed wanted := by
  cases report with
  | checkIns listed => simp [named?, ListsNamed]
  | runs listed => simp [named?, ListsNamed]

end Report

/-! ### Questions -/

def Reply.map {α β : Type} (f : α → β) (r : Reply α) : Reply β := ⟨r.took, r.answer.map f⟩

def Call.map {σ α β : Type} (f : α → β) (call : Call σ α) : Call σ β :=
  fun world => ((call world).1.map f, (call world).2)

theorem Call.map_map {σ α β γ : Type} (f : α → β) (g : β → γ) (call : Call σ α) :
    (call.map f).map g = call.map (g ∘ f) := by
  funext world
  simp only [Call.map, Reply.map]
  cases (call world).1.answer <;> rfl

/-- The question for the revisions of a material. -/
def Collaborators.reportOn {σ : Type} (collab : Collaborators σ) (snapshot : Snapshot) (m : Material) :
    Call σ Report :=
  match m.dependency? with
  | some (pipeline, stage) => Call.map .runs (collab.stageRuns pipeline stage)
  | none =>
    Call.map .checkIns <|
      if snapshot.pollable.contains m.fingerprint then collab.latestRevisions m.fingerprint
      else collab.pollNow m

namespace LatestKnown

/-- The latest known revision of a material after a report of revisions. -/
def newest? (known : LatestKnown) (material : Fingerprint) (revisions : List Revision) : Option Revision :=
  revisions.head?.map fun head => remembered (known.get? material) head revisions

/-- What is known after it. -/
def learn (known : LatestKnown) (material : Fingerprint) (revisions : List Revision) : LatestKnown :=
  match known.newest? material revisions with
  | some revision => known.insert material revision
  | none => known

end LatestKnown

namespace Attempt

variable {σ α β : Type}

theorem ext_on {x y : Attempt σ α} (h : ∀ progress, x.on progress = y.on progress) : x = y := funext h

theorem on_map (f : α → β) (x : Attempt σ α) (progress : Progress σ) :
    (f <$> x).on progress =
      match x.on progress with
      | (.ok a, mid) => (.ok (f a), mid)
      | (.error interruption, mid) => (.error interruption, mid) := by
  rw [map_eq_pure_bind, on_bind]
  rfl

/-- An answer that comes in time is taken; one that would come too late stops the attempt. -/
theorem on_ask_eq (limit : Option Nat) (call : Call σ α) (progress : Progress σ) :
    (ask limit call).on progress =
      if limit.any fun limit => limit < progress.elapsed + (call progress.world).1.took then
        (.error .timedOut, progress)
      else
        ((call progress.world).1.answer.mapError .failed,
          { progress with
            world := (call progress.world).2
            elapsed := progress.elapsed + (call progress.world).1.took }) := by
  rw [ask, on_bind]
  simp only [on_get]
  split
  · rfl
  · rw [on_bind]
    simp only [on_set]
    cases (call progress.world).1.answer <;> rfl

theorem ask_map (limit : Option Nat) (f : α → β) (call : Call σ α) :
    ask limit (call.map f) = f <$> ask limit call := by
  refine ext_on fun progress => ?_
  rcases hcall : call progress.world with ⟨⟨took, answer⟩, world⟩
  have hmap : call.map f progress.world = (⟨took, answer.map f⟩, world) := by
    rw [Call.map, hcall]
    rfl
  rw [on_map, on_ask_eq, on_ask_eq, hmap, hcall]
  split
  · rfl
  · cases answer <;> rfl

/-! ### From a report to a revision -/

variable (collab : Collaborators σ) (limit : Option Nat) (snapshot : Snapshot)

/-- The latest known revision of a material, brought up to date with a report of revisions. -/
def update (m : Material) (revisions : List Revision) : Attempt σ (Option Revision) := do
  let progress ← get
  set { progress with known := progress.known.learn m.fingerprint revisions }
  return progress.known.newest? m.fingerprint revisions

/-- The answer for a material after the report on it. -/
def settle (p : Pipeline) (overrides : Overrides) (m : Material) (report : Report) :
    Attempt σ (Material × Option MaterialRevision) :=
  match overrides.wanted? m with
  | some wanted =>
    match report.named? wanted with
    | some revision => answerFor collab limit p m revision
    | none => fail (.revisionNotFound m.fingerprint wanted)
  | none => update m report.revisions >>= answerFor collab limit p m

@[simp] theorem on_update (m : Material) (revisions : List Revision) (progress : Progress σ) :
    (update m revisions).on progress =
      (.ok (progress.known.newest? m.fingerprint revisions),
        { progress with known := progress.known.learn m.fingerprint revisions }) := rfl

variable {collab limit snapshot}

theorem repositoryHistory_eq (m : Material) :
    repositoryHistory collab limit snapshot m =
      ask limit (if snapshot.pollable.contains m.fingerprint then collab.latestRevisions m.fingerprint
        else collab.pollNow m) := by
  unfold repositoryHistory
  split <;> rfl

theorem latest_eq (m : Material) :
    latest collab limit snapshot m =
      ask limit (collab.reportOn snapshot m) >>= fun report => update m report.revisions := by
  unfold latest reported Collaborators.reportOn
  cases m.dependency? with
  | none =>
    simp only [repositoryHistory_eq, ask_map, bind_map_left, Report.revisions]
    refine bind_congr fun revisions => ?_
    cases revisions <;> rfl
  | some named =>
    simp only [passedRuns, ask_map, bind_map_left, bind_assoc, pure_bind, Report.revisions]
    refine bind_congr fun runs => ?_
    generalize (newestFirst (runs.filter StageRun.isPassed)).map Revision.ofRun = revisions
    cases revisions <;> rfl

theorem findRevision_eq (m : Material) (wanted : String) :
    findRevision collab limit snapshot m wanted =
      ask limit (collab.reportOn snapshot m) >>= fun report =>
        match report.named? wanted with
        | some revision => return revision
        | none => fail (.revisionNotFound m.fingerprint wanted) := by
  unfold findRevision Collaborators.reportOn
  cases m.dependency? with
  | none =>
    simp only [repositoryHistory_eq, ask_map, bind_map_left]
    exact bind_congr fun revisions => rfl
  | some named =>
    simp only [passedRuns, ask_map, bind_map_left, bind_assoc, pure_bind]
    exact bind_congr fun runs => rfl

/-- To resolve a material is to ask for the report on it and to settle on a revision. -/
theorem resolveMaterial_eq (p : Pipeline) (overrides : Overrides) (m : Material) :
    resolveMaterial collab limit snapshot p overrides m =
      ask limit (collab.reportOn snapshot m) >>= settle collab limit p overrides m := by
  unfold resolveMaterial settle
  cases overrides.wanted? m with
  | none =>
    simp only [latest_eq, bind_assoc]
  | some wanted =>
    simp only [findRevision_eq, map_eq_pure_bind, bind_assoc]
    refine bind_congr fun report => ?_
    cases report.named? wanted <;> rfl

theorem resolve_of_unknownKey {p : Pipeline} {overrides : Overrides} {key : String}
    (h : overrides.unknownKey? p = some key) :
    resolve collab limit snapshot p overrides = fail (.materialNotFound p.name key) := by
  refine ext_on fun progress => ?_
  simp [resolve, h, on_bind]

theorem resolve_of_known {p : Pipeline} {overrides : Overrides} (h : overrides.unknownKey? p = none) :
    resolve collab limit snapshot p overrides =
      p.materials.mapM (resolveMaterial collab limit snapshot p overrides) >>= fun answers =>
        return gather answers := by
  simp [resolve, h]

/-! ### All reports of an attempt -/

variable (collab limit snapshot)

/-- The reports that are made while materials are resolved one after another. When the attempt breaks off
there are no more. -/
def reportsOn (p : Pipeline) (overrides : Overrides) :
    List Material → Progress σ → List (Material × Report)
  | [], _ => []
  | m :: rest, progress =>
    match (ask limit (collab.reportOn snapshot m)).on progress with
    | (.error _, _) => []
    | (.ok report, mid) =>
      (m, report) ::
        match (settle collab limit p overrides m report).on mid with
        | (.error _, _) => []
        | (.ok _, last) => reportsOn p overrides rest last

/-- The reports that are made while a pipeline is resolved: none when a key names no material of it. -/
def resolveReports (p : Pipeline) (overrides : Overrides) (progress : Progress σ) :
    List (Material × Report) :=
  match overrides.unknownKey? p with
  | some _ => []
  | none => reportsOn collab limit snapshot p overrides p.materials progress

/-- The reports that are made in the course of a whole attempt: none when the pipeline is held back. -/
def reports (p : Pipeline) (overrides : Overrides) (progress : Progress σ) : List (Material × Report) :=
  match (isHeld collab limit p).on progress with
  | (.ok false, mid) => resolveReports collab limit snapshot p overrides mid
  | _ => []

/-- An answer for a material fits the report on it: the revision is the one that goes by the wanted name, or
there is one as soon as the report lists any. -/
structure Settled (overrides : Overrides) (asked : Material × Report)
    (answer : Material × Option MaterialRevision) : Prop where
  material : answer.1 = asked.1
  revision : ∀ r, answer.2 = some r → r.material = asked.1
  pegged : ∀ wanted, overrides.wanted? asked.1 = some wanted →
    ∃ r, answer.2 = some r ∧ asked.2.named? wanted = some r.revision
  unpegged : overrides.wanted? asked.1 = none → (answer.2 = none ↔ asked.2.isEmpty = true)

variable {collab limit snapshot}

theorem on_answerFor_some {p : Pipeline} {m : Material} {revision : Revision}
    {answer : Material × Option MaterialRevision} {progress last : Progress σ}
    (h : (answerFor collab limit p m (some revision)).on progress = (.ok answer, last)) :
    last.known = progress.known ∧ ∃ changed, answer = (m, some ⟨m, revision, changed⟩) := by
  have hknown := (on_ask limit (collab.changedSinceLastBuild p.name m.fingerprint) progress).1
  rw [answerFor, on_bind] at h
  rcases hask : (ask limit (collab.changedSinceLastBuild p.name m.fingerprint)).on progress with
    ⟨_ | changed, mid⟩
  · simp [hask] at h
  · simp only [hask, on_pure, Prod.mk.injEq, Except.ok.injEq] at h
    obtain ⟨rfl, rfl⟩ := h
    rw [hask] at hknown
    exact ⟨hknown, changed, rfl⟩

/-- Where an answer comes from. -/
theorem settle_cases {p : Pipeline} {overrides : Overrides} {m : Material} {report : Report}
    {answer : Material × Option MaterialRevision} {progress last : Progress σ}
    (h : (settle collab limit p overrides m report).on progress = (.ok answer, last)) :
    (∃ wanted revision changed, overrides.wanted? m = some wanted ∧ report.named? wanted = some revision ∧
      answer = (m, some ⟨m, revision, changed⟩) ∧ last.known = progress.known) ∨
    (overrides.wanted? m = none ∧ report.revisions = [] ∧ answer = (m, none) ∧
      last.known = progress.known) ∨
    ∃ revision changed, overrides.wanted? m = none ∧
      progress.known.newest? m.fingerprint report.revisions = some revision ∧
      answer = (m, some ⟨m, revision, changed⟩) ∧
      last.known = progress.known.insert m.fingerprint revision := by
  unfold settle at h
  cases hwanted : overrides.wanted? m with
  | some wanted =>
    simp only [hwanted] at h
    cases hnamed : report.named? wanted with
    | none => simp [hnamed] at h
    | some revision =>
      simp only [hnamed] at h
      obtain ⟨hknown, changed, rfl⟩ := on_answerFor_some h
      exact Or.inl ⟨wanted, revision, changed, rfl, hnamed, rfl, hknown⟩
  | none =>
    simp only [hwanted, on_bind, on_update] at h
    right
    cases hnewest : progress.known.newest? m.fingerprint report.revisions with
    | none =>
      rw [hnewest] at h
      simp only [answerFor, on_pure, Prod.mk.injEq, Except.ok.injEq] at h
      obtain ⟨rfl, rfl⟩ := h
      have hnil : report.revisions = [] := by simpa [LatestKnown.newest?] using hnewest
      exact Or.inl ⟨rfl, hnil, rfl, by simp [LatestKnown.learn, hnewest]⟩
    | some revision =>
      rw [hnewest] at h
      obtain ⟨hknown, changed, rfl⟩ := on_answerFor_some h
      exact Or.inr ⟨revision, changed, rfl, rfl, rfl, by simpa [LatestKnown.learn, hnewest] using hknown⟩

theorem settled_of_settle {p : Pipeline} {overrides : Overrides} {m : Material} {report : Report}
    {answer : Material × Option MaterialRevision} {progress last : Progress σ}
    (h : (settle collab limit p overrides m report).on progress = (.ok answer, last)) :
    Settled overrides (m, report) answer := by
  rcases settle_cases h with ⟨wanted, revision, changed, hwanted, hnamed, rfl, -⟩ |
    ⟨hwanted, hnil, rfl, -⟩ | ⟨revision, changed, hwanted, hnewest, rfl, -⟩
  · refine ⟨rfl, by simp, fun other hother => ?_, fun hnone => by simp [hwanted] at hnone⟩
    rw [hwanted, Option.some.injEq] at hother
    exact ⟨_, rfl, hother ▸ hnamed⟩
  · refine ⟨rfl, by simp, fun other hother => by simp [hwanted] at hother, fun _ => ?_⟩
    simp [Report.revisions_eq_nil_iff.mp hnil]
  · have hnonempty : ¬ report.isEmpty = true := by
      intro hempty
      simp [LatestKnown.newest?, Report.revisions_eq_nil_iff.mpr hempty] at hnewest
    exact ⟨rfl, by simp, fun other hother => by simp [hwanted] at hother, fun _ => by simp [hnonempty]⟩

/-- The first of several materials that are all resolved: there is a report on it, and an answer. -/
theorem mapM_cons_ok {p : Pipeline} {overrides : Overrides} {m : Material} {rest : List Material}
    {progress last : Progress σ} {answers : List (Material × Option MaterialRevision)}
    (h : ((m :: rest).mapM (resolveMaterial collab limit snapshot p overrides)).on progress =
      (.ok answers, last)) :
    ∃ report mid first next others,
      (ask limit (collab.reportOn snapshot m)).on progress = (.ok report, mid) ∧
      (settle collab limit p overrides m report).on mid = (.ok first, next) ∧
      (rest.mapM (resolveMaterial collab limit snapshot p overrides)).on next = (.ok others, last) ∧
      answers = first :: others ∧
      reportsOn collab limit snapshot p overrides (m :: rest) progress =
        (m, report) :: reportsOn collab limit snapshot p overrides rest next := by
  rw [List.mapM_cons, resolveMaterial_eq, bind_assoc, on_bind] at h
  rcases hask : (ask limit (collab.reportOn snapshot m)).on progress with ⟨_ | report, mid⟩
  · simp [hask] at h
  simp only [hask, on_bind] at h
  rcases hsettle : (settle collab limit p overrides m report).on mid with ⟨_ | first, next⟩
  · simp [hsettle] at h
  simp only [hsettle] at h
  rcases hrest : (rest.mapM (resolveMaterial collab limit snapshot p overrides)).on next with
    ⟨_ | others, last'⟩
  · simp [hrest] at h
  simp only [hrest, on_pure, Prod.mk.injEq, Except.ok.injEq] at h
  obtain ⟨rfl, rfl⟩ := h
  exact ⟨report, mid, first, next, others, rfl, hsettle, hrest, rfl, by simp [reportsOn, hask, hsettle]⟩

/-- When all materials are resolved, there is a report on each and an answer for each report, in order. -/
theorem forall₂_settled {p : Pipeline} {overrides : Overrides} {materials : List Material}
    {progress last : Progress σ} {answers : List (Material × Option MaterialRevision)}
    (h : (materials.mapM (resolveMaterial collab limit snapshot p overrides)).on progress =
      (.ok answers, last)) :
    (reportsOn collab limit snapshot p overrides materials progress).map Prod.fst = materials ∧
      List.Forall₂ (Settled overrides)
        (reportsOn collab limit snapshot p overrides materials progress) answers := by
  induction materials generalizing progress answers with
  | nil =>
    simp only [List.mapM_nil, on_pure, Prod.mk.injEq, Except.ok.injEq] at h
    rw [← h.1]
    exact ⟨rfl, .nil⟩
  | cons m rest ih =>
    obtain ⟨report, mid, first, next, others, -, hsettle, hrest, rfl, hreports⟩ := mapM_cons_ok h
    obtain ⟨hmaterials, hsettled⟩ := ih hrest
    rw [hreports]
    exact ⟨by rw [List.map_cons, hmaterials], .cons (settled_of_settle hsettle) hsettled⟩

/-- A resolution is complete when every answer has a revision. -/
theorem map_snd_of_gather {answers : List (Material × Option MaterialRevision)}
    {revisions : List MaterialRevision} (h : gather answers = .complete revisions) :
    answers.map Prod.snd = revisions.map some := by
  unfold gather at h
  split at h
  · next hnone =>
    cases h
    rw [List.filterMap_eq_nil_iff] at hnone
    induction answers with
    | nil => rfl
    | cons answer rest ih =>
      obtain ⟨hanswer, hrest⟩ := List.forall_mem_cons.mp hnone
      rcases answer with ⟨m, _ | r⟩
      · simp at hanswer
      · simpa using ih hrest
  · cases h

theorem map_material_of_settled {overrides : Overrides} {reports : List (Material × Report)}
    {answers : List (Material × Option MaterialRevision)} {revisions : List MaterialRevision}
    (hsettled : List.Forall₂ (Settled overrides) reports answers)
    (hcomplete : answers.map Prod.snd = revisions.map some) :
    revisions.map MaterialRevision.material = reports.map Prod.fst := by
  induction hsettled generalizing revisions with
  | nil =>
    rw [List.map_nil, eq_comm, List.map_eq_nil_iff] at hcomplete
    rw [hcomplete]
    rfl
  | cons hanswer _ ih =>
    cases revisions with
    | nil => simp at hcomplete
    | cons r revisions =>
      rw [List.map_cons, List.map_cons, List.cons.injEq] at hcomplete
      rw [List.map_cons, List.map_cons, ih hcomplete.2, hanswer.revision r hcomplete.1]

/-- Behind a complete resolution there is an answer with a revision for every material. -/
theorem answers_of_resolve {p : Pipeline} {overrides : Overrides} {progress last : Progress σ}
    {revisions : List MaterialRevision}
    (h : (resolve collab limit snapshot p overrides).on progress = (.ok (.complete revisions), last)) :
    overrides.unknownKey? p = none ∧ ∃ answers,
      (p.materials.mapM (resolveMaterial collab limit snapshot p overrides)).on progress =
        (.ok answers, last) ∧
      answers.map Prod.snd = revisions.map some := by
  cases hkey : overrides.unknownKey? p with
  | some key =>
    rw [resolve_of_unknownKey hkey] at h
    cases h
  | none =>
    rw [resolve_of_known hkey, on_bind] at h
    rcases hmap : (p.materials.mapM (resolveMaterial collab limit snapshot p overrides)).on progress with
      ⟨_ | answers, last'⟩
    · simp [hmap] at h
    simp only [hmap, on_pure, Prod.mk.injEq, Except.ok.injEq] at h
    exact ⟨rfl, answers, by rw [h.2], map_snd_of_gather h.1⟩

/-- A complete resolution has one revision for every material, in declaration order. -/
theorem map_material_of_resolve {p : Pipeline} {overrides : Overrides} {progress last : Progress σ}
    {revisions : List MaterialRevision}
    (h : (resolve collab limit snapshot p overrides).on progress = (.ok (.complete revisions), last)) :
    revisions.map MaterialRevision.material = p.materials := by
  obtain ⟨-, answers, hmap, hcomplete⟩ := answers_of_resolve h
  obtain ⟨hmaterials, hsettled⟩ := forall₂_settled hmap
  rw [map_material_of_settled hsettled hcomplete, hmaterials]

end Attempt

end BuildScheduling
