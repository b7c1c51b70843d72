import Mathlib.Data.List.Nodup
import BuildScheduling.Proofs.Latest.RunOrder
import BuildScheduling.Proofs.Resolution.Pegging

/-!
# The order in which a history comes

The runs of a stage are reported in any order. The latest run is the one with the highest counters, in whatever order the
runs come (`newestFirst_eq_of_perm`). A run that is asked for is the first one that goes by the text, so there the order
shows as soon as two runs go by it. An identifier tells the counters, so two different runs go by one text only where it
is the label of one of them (`goesBy_once_iff_labelTells`).

`Collaborators.withHistory` puts one history of a stage in the place of another, for any collaborators: what an attempt
does is the same for all orders of a history as long as the labels that are asked for tell the run.
-/

namespace BuildScheduling

/-! ### Histories -/

/-- Runs of a stage with different counters. -/
structure HistoryOf (pipeline : PipelineName) (stage : StageName) (runs : List StageRun) : Prop where
  carried : ∀ r ∈ runs, r.pipeline.same pipeline = true ∧ r.stage.same stage = true
  apart : (runs.map fun r => (r.counter, r.stageCounter)).Nodup

/-- A passed run that has this label is the only run that goes by it. -/
def LabelTells (runs : List StageRun) (wanted : String) : Prop :=
  ∀ r ∈ runs, r.isPassed = true → r.label = wanted → ∀ r' ∈ runs, r'.GoesBy wanted → r' = r

namespace HistoryOf

variable {pipeline : PipelineName} {stage : StageName} {runs : List StageRun}

theorem eq_of_counters_eq (h : HistoryOf pipeline stage runs) {a b : StageRun} (ha : a ∈ runs) (hb : b ∈ runs)
    (hcounter : a.counter = b.counter) (hstage : a.stageCounter = b.stageCounter) : a = b :=
  List.inj_on_of_nodup_map h.apart ha hb (by rw [hcounter, hstage])

theorem eq_of_identifier_eq (h : HistoryOf pipeline stage runs) {a b : StageRun} (ha : a ∈ runs) (hb : b ∈ runs)
    (hidentifier : a.identifier = b.identifier) : a = b := by
  obtain ⟨hpipeline, hstage⟩ := h.carried a ha
  obtain ⟨hpipeline', hstage'⟩ := h.carried b hb
  rw [Name.same_comm] at hpipeline' hstage'
  obtain ⟨hcounter, hstageCounter⟩ := StageRun.counters_eq_of_identifier_eq (Name.same_trans hpipeline hpipeline')
    (Name.same_trans hstage hstage') hidentifier
  exact h.eq_of_counters_eq ha hb hcounter hstageCounter

theorem goesBy_once_iff_labelTells (h : HistoryOf pipeline stage runs) {wanted : String} :
    (∀ r ∈ runs, ∀ r' ∈ runs, r.GoesBy wanted → r'.GoesBy wanted → r = r') ↔ LabelTells runs wanted := by
  constructor
  · intro honce r hr hpassed hlabel r' hr' hgoes
    exact honce r' hr' r hr hgoes ⟨hpassed, Or.inr hlabel⟩
  · rintro htells r hr r' hr' ⟨hpassed, hidentifier | hlabel⟩ ⟨hpassed', hidentifier' | hlabel'⟩
    · exact h.eq_of_identifier_eq hr hr' (hidentifier.trans hidentifier'.symm)
    · exact htells r' hr' hpassed' hlabel' r hr ⟨hpassed, Or.inl hidentifier⟩
    · exact (htells r hr hpassed hlabel r' hr' ⟨hpassed', Or.inl hidentifier'⟩).symm
    · exact (htells r hr hpassed hlabel r' hr' ⟨hpassed', Or.inr hlabel'⟩).symm

/-- Runs with different counters have one order by their counters. -/
theorem newestFirst_eq_of_perm (h : HistoryOf pipeline stage runs) {runs' : List StageRun} (hperm : runs'.Perm runs)
    (keep : StageRun → Bool) : newestFirst (runs'.filter keep) = newestFirst (runs.filter keep) := by
  have hmem : ∀ {r}, r ∈ newestFirst (runs.filter keep) → r ∈ runs := fun hr =>
    (List.mem_filter.mp (List.mem_mergeSort.mp hr)).1
  have hsame : (newestFirst (runs'.filter keep)).Perm (newestFirst (runs.filter keep)) :=
    ((List.mergeSort_perm _ _).trans (hperm.filter keep)).trans (List.mergeSort_perm _ _).symm
  refine hsame.eq_of_pairwise (fun a b ha hb hab hba => ?_) (StageRun.pairwise_newestFirst _)
    (StageRun.pairwise_newestFirst _)
  obtain ⟨hcounter, hstage⟩ := hab.counters_eq hba
  exact h.eq_of_counters_eq (hmem (hsame.mem_iff.mp ha)) (hmem hb) hcounter.symm hstage.symm

end HistoryOf

/-! ### Lookups -/

namespace Report

variable {runs : List StageRun} {wanted : String}

theorem named?_cons_of_goesBy {r : StageRun} (h : r.GoesBy wanted) :
    (Report.runs (r :: runs)).named? wanted = some (.ofRun r) := by
  obtain ⟨hpassed, hgoes⟩ := h
  rw [named?, List.filter_cons_of_pos hpassed, List.find?_cons_of_pos (by simpa using hgoes), Option.map_some]

theorem named?_eq_some_iff_of_once (honce : ∀ r ∈ runs, ∀ r' ∈ runs, r.GoesBy wanted → r'.GoesBy wanted → r = r')
    {revision : Revision} :
    (Report.runs runs).named? wanted = some revision ↔ ∃ r ∈ runs, r.GoesBy wanted ∧ revision = .ofRun r := by
  refine ⟨goesBy_of_named?, ?_⟩
  rintro ⟨r, hr, hgoes, rfl⟩
  cases hnamed : (Report.runs runs).named? wanted with
  | none => exact absurd ⟨r, hr, hgoes⟩ (named?_eq_none_iff.mp hnamed)
  | some revision =>
    obtain ⟨r', hr', hgoes', rfl⟩ := goesBy_of_named? hnamed
    rw [honce r hr r' hr' hgoes hgoes']

/-- A lookup has one result for all orders of the runs exactly when no two runs go by the text. -/
theorem named?_same_in_every_order_iff :
    (∀ runs', runs'.Perm runs → (Report.runs runs').named? wanted = (Report.runs runs).named? wanted) ↔
      ∀ r ∈ runs, ∀ r' ∈ runs, r.GoesBy wanted → r'.GoesBy wanted → r = r' := by
  constructor
  · intro hsame r hr r' hr' hgoes hgoes'
    have hfirst : ∀ a ∈ runs, a.GoesBy wanted → (Report.runs runs).named? wanted = some (.ofRun a) :=
      fun a ha hgoes => (hsame _ (List.perm_cons_erase ha).symm).symm.trans (named?_cons_of_goesBy hgoes)
    have hsame := (hfirst r hr hgoes).symm.trans (hfirst r' hr' hgoes')
    simpa [Revision.ofRun] using congrArg (Option.map Revision.details) hsame
  · intro honce runs' hperm
    have honce' : ∀ r ∈ runs', ∀ r' ∈ runs', r.GoesBy wanted → r'.GoesBy wanted → r = r' :=
      fun r hr r' hr' => honce r (hperm.mem_iff.mp hr) r' (hperm.mem_iff.mp hr')
    refine Option.ext fun revision => ?_
    rw [named?_eq_some_iff_of_once honce', named?_eq_some_iff_of_once honce]
    simp only [hperm.mem_iff]

end Report

/-! ### One history in the place of another -/

/-- The same collaborators with this history of a stage: whenever they answer what runs it has, they answer these. -/
def Collaborators.withHistory {σ : Type} (collab : Collaborators σ) (pipeline : PipelineName) (stage : StageName)
    (runs : List StageRun) : Collaborators σ :=
  { collab with
    stageRuns := fun named namedStage =>
      if named.same pipeline && namedStage.same stage then
        (collab.stageRuns named namedStage).map fun _ => runs
      else collab.stageRuns named namedStage }

/-- The material waits for this stage, under any spelling of its names. -/
def Material.WaitsOn (m : Material) (pipeline : PipelineName) (stage : StageName) : Prop :=
  ∃ named namedStage, m.source = .dependency named namedStage ∧ named.same pipeline = true ∧
    namedStage.same stage = true

namespace Attempt

variable {σ : Type} {collab : Collaborators σ} {limit : Option Nat} {snapshot : Snapshot} {pipeline : PipelineName}
  {stage : StageName} {runs runs' : List StageRun} {m : Material} {p : Pipeline} {overrides : Overrides}

theorem reportOn_withHistory_of_source {named : PipelineName} {namedStage : StageName}
    (hsource : m.source = .dependency named namedStage) (hnamed : named.same pipeline = true)
    (hstage : namedStage.same stage = true) :
    (collab.withHistory pipeline stage runs).reportOn snapshot m =
      (collab.stageRuns named namedStage).map fun _ => .runs runs := by
  simp only [Collaborators.reportOn, Collaborators.withHistory, Material.dependency?, hsource, hnamed, hstage,
    Bool.and_true, if_true, Call.map_map]
  rfl

theorem reportOn_withHistory_of_not (h : ¬ m.WaitsOn pipeline stage) :
    (collab.withHistory pipeline stage runs).reportOn snapshot m = collab.reportOn snapshot m := by
  unfold Collaborators.reportOn
  cases hm : m.dependency? with
  | none => rfl
  | some named =>
    have hother : ¬ (named.1.same pipeline && named.2.same stage) = true := fun hsame => by
      obtain ⟨hnamed, hstage⟩ := Bool.and_eq_true_iff.mp hsame
      exact h ⟨named.1, named.2, Material.dependency?_eq_some_iff.mp hm, hnamed, hstage⟩
    simp only [Collaborators.withHistory, if_neg hother]

/-- A lookup in a history that is answered has one result for all orders of the runs exactly when the label tells the
run. -/
theorem findRevision_same_in_every_order_iff (hruns : HistoryOf pipeline stage runs) (hwaits : m.WaitsOn pipeline stage)
    {progress : Progress σ} {report : Report}
    (hanswer : ((ask limit (collab.reportOn snapshot m)).on progress).1 = .ok report) (wanted : String) :
    (∀ runs', runs'.Perm runs →
      (findRevision (collab.withHistory pipeline stage runs') limit snapshot m wanted).on progress =
        (findRevision (collab.withHistory pipeline stage runs) limit snapshot m wanted).on progress) ↔
      LabelTells runs wanted := by
  obtain ⟨named, namedStage, hsource, hnamed, hstage⟩ := hwaits
  have hreport : collab.reportOn snapshot m = (collab.stageRuns named namedStage).map .runs := by
    rw [Collaborators.reportOn, Material.dependency?_eq_some_iff.mpr hsource]
  rw [hreport, ask_map, on_map] at hanswer
  rcases hask : (ask limit (collab.stageRuns named namedStage)).on progress with ⟨_ | answer, mid⟩
  · simp [hask] at hanswer
  have hfind : ∀ history,
      (findRevision (collab.withHistory pipeline stage history) limit snapshot m wanted).on progress =
        (((Report.runs history).named? wanted).elim (.error (.failed (.revisionNotFound m.fingerprint wanted))) .ok,
          mid) := fun history => by
    rw [findRevision_eq, reportOn_withHistory_of_source hsource hnamed hstage, ask_map, bind_map_left, on_bind, hask]
    dsimp only
    cases (Report.runs history).named? wanted <;> rfl
  rw [← hruns.goesBy_once_iff_labelTells, ← Report.named?_same_in_every_order_iff]
  simp only [hfind, Prod.mk.injEq, and_true]
  refine forall₂_congr fun runs' _ => ⟨fun h => ?_, fun h => by rw [h]⟩
  -- what was found can be told from the answer
  cases hfound' : (Report.runs runs').named? wanted <;> cases hfound : (Report.runs runs).named? wanted <;>
    simp_all

theorem settle_of_perm (hruns : HistoryOf pipeline stage runs) (hperm : runs'.Perm runs)
    (htells : ∀ wanted, overrides.AsksFor m wanted → LabelTells runs wanted) :
    settle collab limit p overrides m (.runs runs') = settle collab limit p overrides m (.runs runs) := by
  unfold settle
  cases hwanted : overrides.wanted? m with
  | none =>
    dsimp only [Report.revisions]
    rw [hruns.newestFirst_eq_of_perm hperm]
  | some wanted =>
    have hlabel := htells wanted (Overrides.wanted?_eq_some_iff.mp hwanted)
    dsimp only
    rw [Report.named?_same_in_every_order_iff.mpr (hruns.goesBy_once_iff_labelTells.mpr hlabel) runs' hperm]

theorem resolveMaterial_of_perm (hruns : HistoryOf pipeline stage runs) (hperm : runs'.Perm runs)
    (htells : m.WaitsOn pipeline stage → ∀ wanted, overrides.AsksFor m wanted → LabelTells runs wanted) :
    resolveMaterial (collab.withHistory pipeline stage runs') limit snapshot p overrides m =
      resolveMaterial (collab.withHistory pipeline stage runs) limit snapshot p overrides m := by
  have hsettle : ∀ history, settle (collab.withHistory pipeline stage history) limit p overrides m =
      settle collab limit p overrides m := fun _ => rfl
  rw [resolveMaterial_eq, resolveMaterial_eq, hsettle, hsettle]
  by_cases hwaits : m.WaitsOn pipeline stage
  · obtain ⟨named, namedStage, hsource, hnamed, hstage⟩ := hwaits
    simp only [reportOn_withHistory_of_source hsource hnamed hstage, ask_map, bind_map_left,
      settle_of_perm hruns hperm (htells ⟨named, namedStage, hsource, hnamed, hstage⟩)]
  · rw [reportOn_withHistory_of_not hwaits, reportOn_withHistory_of_not hwaits]

theorem mapM_of_perm (hruns : HistoryOf pipeline stage runs) (hperm : runs'.Perm runs) {materials : List Material}
    (htells : ∀ m ∈ materials, m.WaitsOn pipeline stage → ∀ wanted, overrides.AsksFor m wanted →
      LabelTells runs wanted) :
    materials.mapM (resolveMaterial (collab.withHistory pipeline stage runs') limit snapshot p overrides) =
      materials.mapM (resolveMaterial (collab.withHistory pipeline stage runs) limit snapshot p overrides) := by
  induction materials with
  | nil => rw [List.mapM_nil, List.mapM_nil]
  | cons m rest ih =>
    obtain ⟨hm, hrest⟩ := List.forall_mem_cons.mp htells
    rw [List.mapM_cons, List.mapM_cons, resolveMaterial_of_perm hruns hperm hm, ih hrest]

theorem decide_of_perm (hruns : HistoryOf pipeline stage runs) (hperm : runs'.Perm runs) (debounce : TimerDebounce)
    {event : TriggerEvent}
    (htells : ∀ m ∈ p.materials, m.WaitsOn pipeline stage → ∀ wanted, event.overrides.AsksFor m wanted →
      LabelTells runs wanted) :
    decide (collab.withHistory pipeline stage runs') limit snapshot debounce p event =
      decide (collab.withHistory pipeline stage runs) limit snapshot debounce p event := by
  have hresolve : resolve (collab.withHistory pipeline stage runs') limit snapshot p event.overrides =
      resolve (collab.withHistory pipeline stage runs) limit snapshot p event.overrides := by
    unfold resolve
    rw [mapM_of_perm hruns hperm htells]
  unfold decide
  rw [hresolve]
  rfl

end Attempt

namespace Session

variable {σ : Type}

theorem schedule_of_perm (collab : Collaborators σ) (s : Session σ) {pipeline : PipelineName} {stage : StageName}
    {runs runs' : List StageRun} (hruns : HistoryOf pipeline stage runs) (hperm : runs'.Perm runs) (name : PipelineName)
    (event : TriggerEvent)
    (htells : ∀ p, s.engine.snapshot.pipeline? name = some p → ∀ m ∈ p.materials, m.WaitsOn pipeline stage →
      ∀ wanted, event.overrides.AsksFor m wanted → LabelTells runs wanted) :
    s.schedule (collab.withHistory pipeline stage runs') name event =
      s.schedule (collab.withHistory pipeline stage runs) name event := by
  cases hp : s.engine.snapshot.pipeline? name with
  | none => simp only [schedule, hp]
  | some p =>
    have hdecision : (s.lock name).decision (collab.withHistory pipeline stage runs') p event =
        (s.lock name).decision (collab.withHistory pipeline stage runs) p event :=
      Attempt.decide_of_perm hruns hperm _ (htells p hp)
    rw [schedule_of_declared _ hp, schedule_of_declared _ hp, attempt_eq, attempt_eq, hdecision]
    rfl

/-- The runs of a stage with different counters can be reported in any order, except that a label may stand for several
runs. An attempt has the same answer and the same session after it for all orders of the history, as long as each text
that is asked for of a material which waits for this stage tells the run where it is a label. And a single lookup in a
history that is answered, which finds the run or fails, does the same for all orders exactly then. -/
theorem history_order_shows_only_in_shared_labels (collab : Collaborators σ) {pipeline : PipelineName}
    {stage : StageName} {runs : List StageRun} (hruns : HistoryOf pipeline stage runs) :
    (∀ (s : Session σ) (name : PipelineName) (event : TriggerEvent),
      (∀ p, s.engine.snapshot.pipeline? name = some p → ∀ m ∈ p.materials, m.WaitsOn pipeline stage →
        ∀ wanted, event.overrides.AsksFor m wanted → LabelTells runs wanted) →
      ∀ runs', runs'.Perm runs →
        s.schedule (collab.withHistory pipeline stage runs') name event =
          s.schedule (collab.withHistory pipeline stage runs) name event) ∧
    ∀ (limit : Option Nat) (snapshot : Snapshot) (progress : Progress σ) (m : Material) (report : Report)
      (wanted : String), m.WaitsOn pipeline stage →
      ((Attempt.ask limit (collab.reportOn snapshot m)).on progress).1 = .ok report →
      ((∀ runs', runs'.Perm runs →
        (Attempt.findRevision (collab.withHistory pipeline stage runs') limit snapshot m wanted).on progress =
          (Attempt.findRevision (collab.withHistory pipeline stage runs) limit snapshot m wanted).on progress) ↔
        LabelTells runs wanted) :=
  ⟨fun s name event htells _ hperm => s.schedule_of_perm collab hruns hperm name event htells,
    fun _ _ _ _ _ wanted hwaits hanswer => Attempt.findRevision_same_in_every_order_iff hruns hwaits hanswer wanted⟩

/-! A stage that ran twice in one run of its pipeline, so that both runs have one label. -/

def firstRun : StageRun := Samples.passed ⟨"lib"⟩ 5 ⟨"up"⟩

def secondRun : StageRun := Samples.rerun ⟨"lib"⟩ 5 ⟨"up"⟩ 2

def onLibrary : Material := .dependency ⟨"lib"⟩ ⟨"up"⟩

def library : List Pipeline :=
  [{ name := ⟨"lib"⟩, materials := [Samples.git "lib"], stages := [⟨⟨"up"⟩⟩] }, Samples.simple ⟨"app"⟩ onLibrary]

def libraryConfiguration : Configuration := { pipelines := library }

/-- The configuration was read, and the stage has a history. -/
def libraryReady (runs : List StageRun) : Session InMemory :=
  reading {} libraryConfiguration [.world (.setRuns ⟨"lib"⟩ ⟨"up"⟩ runs)]

theorem libraryReady_eq (runs : List StageRun) : libraryReady runs =
    (published {} libraryConfiguration).run .inMemory [.world (.setRuns ⟨"lib"⟩ ⟨"up"⟩ runs)] :=
  reading_eq (by decide +kernel) {} _

def asking (wanted : String) : TriggerEvent := .manual "dev" (.ofList [(onLibrary.fingerprint.text, wanted)])

theorem historyOf_library : HistoryOf ⟨"lib"⟩ ⟨"up"⟩ [firstRun, secondRun] :=
  ⟨by decide +kernel, by decide +kernel⟩

theorem eq_of_asked {wanted other : String} {m : Material} (h : (asking wanted).overrides.AsksFor m other) :
    other = wanted := by
  have hget : ∀ key, (asking wanted).overrides.get? key = some other → other = wanted := fun key hkey => by
    change ((∅ : Overrides).insert onLibrary.fingerprint.text wanted).get? key = some other at hkey
    rw [SortedMap.get?_insert, SortedMap.get?_empty] at hkey
    split at hkey
    · exact (Option.some.inj hkey).symm
    · cases hkey
  rcases h with h | ⟨-, h⟩ <;> exact hget _ h

set_option maxRecDepth 100000 in
/-- Asked for by its identifier the second run is found in any order, and asked for by its label it is not. -/
theorem second_run_found_by_identifier :
    HistoryOf ⟨"lib"⟩ ⟨"up"⟩ [firstRun, secondRun] ∧
    (∀ runs', runs'.Perm [firstRun, secondRun] →
      ((libraryReady []).schedule (InMemory.collaborators.withHistory ⟨"lib"⟩ ⟨"up"⟩ runs') ⟨"app"⟩
        (asking "lib/5/up/2")).1 = .ok (.succeeded (.ofUser [⟨onLibrary, .ofRun secondRun, true⟩] "dev"))) ∧
    ¬ ∀ runs', runs'.Perm [firstRun, secondRun] →
      (Attempt.findRevision (InMemory.collaborators.withHistory ⟨"lib"⟩ ⟨"up"⟩ runs') none
          (libraryReady []).engine.snapshot onLibrary "5").on (libraryReady []).progress =
        (Attempt.findRevision (InMemory.collaborators.withHistory ⟨"lib"⟩ ⟨"up"⟩ [firstRun, secondRun]) none
          (libraryReady []).engine.snapshot onLibrary "5").on (libraryReady []).progress := by
  obtain ⟨hattempt, hlookup⟩ := history_order_shows_only_in_shared_labels InMemory.collaborators historyOf_library
  have hlabels : ∀ r ∈ [firstRun, secondRun], r.label = "5" := by decide +kernel
  rw [libraryReady_eq]
  refine ⟨historyOf_library, fun runs' hperm => ?_, fun hsame => ?_⟩
  · rw [hattempt _ ⟨"app"⟩ (asking "lib/5/up/2") (fun _ _ _ _ _ wanted hwanted => ?_) runs' hperm]
    · decide +kernel
    · intro r hr _ hlabel
      rw [hlabels r hr, eq_of_asked hwanted] at hlabel
      exact absurd hlabel (by decide)
  · have htells := (hlookup none _ _ onLibrary (.runs (InMemory.stageHistory _ ⟨"lib"⟩ ⟨"up"⟩)) "5"
      ⟨⟨"lib"⟩, ⟨"up"⟩, rfl, Name.same_refl _, Name.same_refl _⟩ rfl).mp hsame
    have hone := htells firstRun (by simp) (by decide +kernel) (by decide +kernel) secondRun (by simp)
      ⟨by decide +kernel, Or.inr (by decide +kernel)⟩
    exact absurd hone (by decide +kernel)

set_option maxRecDepth 100000 in
theorem label_names_whichever_run_comes_first :
    HistoryOf ⟨"lib"⟩ ⟨"up"⟩ [firstRun, secondRun] ∧ [secondRun, firstRun].Perm [firstRun, secondRun] ∧
    ((libraryReady [firstRun, secondRun]).schedule InMemory.collaborators ⟨"app"⟩ (asking "5")).1 =
      .ok (.succeeded (.ofUser [⟨onLibrary, .ofRun firstRun, true⟩] "dev")) ∧
    ((libraryReady [secondRun, firstRun]).schedule InMemory.collaborators ⟨"app"⟩ (asking "5")).1 =
      .ok (.succeeded (.ofUser [⟨onLibrary, .ofRun secondRun, true⟩] "dev")) := by
  rw [libraryReady_eq, libraryReady_eq]
  exact ⟨historyOf_library, .swap _ _ _, by decide +kernel, by decide +kernel⟩

end Session

end BuildScheduling
