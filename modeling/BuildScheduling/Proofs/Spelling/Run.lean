import BuildScheduling.Proofs.Spelling.Session

/-!
# Runs under other spellings

The same happens twice, under other spellings of the names in the requests and of the names in the dependencies of the
configurations (`Happening.RespeltAs`). What decides an attempt is then the same at all times but for spellings
(`respelt_run`), so every pipeline resolves to the same revisions in both runs, and every attempt comes to the same
outcome.
-/

namespace BuildScheduling

variable {σ χ : Type} {env : Environment σ χ}

/-- The same happens, but a name in it may be spelled in another way. -/
inductive Happening.RespeltAs : Happening χ → Happening χ → Prop
  | same (h : Happening χ) : RespeltAs h h
  | attempt {pipeline pipeline' : PipelineName} (hsame : pipeline.same pipeline' = true) (event : TriggerEvent) :
      RespeltAs (.request (.attempt pipeline event)) (.request (.attempt pipeline' event))
  | reload {c c' : Configuration} (hc : c.RespeltAs c') : RespeltAs (.request (.reload c)) (.request (.reload c'))
  | follow {configurations configurations' : List Configuration}
      (hall : List.Forall₂ Configuration.RespeltAs configurations configurations') :
      RespeltAs (.request (.follow configurations)) (.request (.follow configurations'))
  | latest {m m' : Material} (hm : m.RespeltAs m') : RespeltAs (.request (.latest m)) (.request (.latest m'))
  | resolve {pipeline pipeline' : PipelineName} (hsame : pipeline.same pipeline' = true) (overrides : Overrides) :
      RespeltAs (.request (.resolve pipeline overrides)) (.request (.resolve pipeline' overrides))
  | finish {pipeline pipeline' : PipelineName} (hsame : pipeline.same pipeline' = true) :
      RespeltAs (.consume (.finish pipeline)) (.consume (.finish pipeline'))

namespace Session

variable {s s' : Session σ}

theorem RespeltAs.finish (h : s.RespeltAs s') {pipeline pipeline' : PipelineName}
    (hsame : pipeline.same pipeline' = true) :
    (s.consume (.finish pipeline)).2.RespeltAs (s'.consume (.finish pipeline')).2 := by
  refine ⟨h.settings, h.snapshot, fun name => ?_, h.debounce, h.known, h.world⟩
  show Option.Rel _ (ScheduleQueue.pending (s.engine.queue.erase pipeline) name)
    (ScheduleQueue.pending (s'.engine.queue.erase pipeline') name)
  rw [ScheduleQueue.pending_erase, ScheduleQueue.pending_erase, Name.same_congr hsame]
  split
  · exact .none
  · exact h.queue name

theorem RespeltAs.consume (h : s.RespeltAs s') (consumption : Consumption) :
    (s.consume consumption).2.RespeltAs (s'.consume consumption).2 := by
  cases consumption with
  | finish pipeline => exact h.finish pipeline.same_refl
  | clearQueue => exact ⟨h.settings, h.snapshot, fun _ => .none, h.debounce, h.known, h.world⟩
  | report r => exact ⟨h.settings, h.snapshot, h.queue, h.debounce, h.known, h.world⟩
  | clearHealth scope => exact ⟨h.settings, h.snapshot, h.queue, h.debounce, h.known, h.world⟩
  | queued pipeline => exact h
  | healthFor scope => exact h
  | status => exact h

theorem RespeltAs.request {collab : Collaborators σ} (hfolds : collab.FoldsNames) (h : s.RespeltAs s')
    (request : Request) : (s.request collab request).2.RespeltAs (s'.request collab request).2 := by
  cases request with
  | attempt pipeline event => exact (h.schedule hfolds pipeline event).2
  | postCommit url =>
    show (s.scheduleAll collab .auto (notified s.engine.snapshot url)).2.RespeltAs _
    rw [h.snapshot.notified]
    exact h.scheduleAll hfolds .auto _
  | tick after latest =>
    show (s.scheduleAll collab .timer (s.engine.snapshot.due after latest)).2.RespeltAs _
    rw [h.snapshot.due]
    exact h.scheduleAll hfolds .timer _
  | reload c => exact h.reload (.refl c)
  | follow configurations => exact h.follow (List.forall₂_same.mpr fun c _ => .refl c)
  | resolve pipeline overrides => exact (h.resolve hfolds pipeline overrides).2
  | latest m => exact h.latest hfolds (.refl m)
  | due after latest => exact h
  | snapshot => exact h
  | settings => exact h
  | latestKnown material => exact h

theorem respelt_next (hfolds : env.collab.FoldsNames) (h : s.RespeltAs s') {happening happening' : Happening χ}
    (hrespelt : happening.RespeltAs happening') : (s.next env happening).2.RespeltAs (s'.next env happening').2 := by
  cases hrespelt with
  | attempt hsame event => exact h.schedule_of_same hfolds hsame event
  | reload hc => exact h.reload hc
  | follow hall => exact h.follow hall
  | latest hm => exact h.latest hfolds hm
  | resolve hsame overrides => exact h.resolve_of_same hfolds hsame overrides
  | finish hsame => exact h.finish hsame
  | same happening =>
    cases happening with
    | request request => exact h.request hfolds request
    | consume consumption => exact h.consume consumption
    | world change =>
      exact ⟨h.settings, h.snapshot, h.queue, h.debounce, h.known, congrArg (env.change · change) h.world⟩

theorem respelt_run (hfolds : env.collab.FoldsNames) (h : s.RespeltAs s') {happenings happenings' : List (Happening χ)}
    (hrespelt : List.Forall₂ Happening.RespeltAs happenings happenings') :
    (s.run env happenings).RespeltAs (s'.run env happenings') := by
  induction hrespelt generalizing s s' with
  | nil => exact h
  | cons hfirst _ ih =>
    rw [run_cons, run_cons]
    exact ih (respelt_next hfolds h hfirst)

theorem respelt_start (settings : Settings) (world : σ) : (start settings world).RespeltAs (start settings world) :=
  ⟨rfl, .refl _, fun _ => .none, rfl, rfl, rfl⟩

end Session

/-- The histories in memory are kept in maps that find a name under every spelling. -/
theorem InMemory.foldsNames : InMemory.collaborators.FoldsNames := by
  intro pipeline pipeline' stage stage' hpipeline hstage
  funext w
  exact congrArg (fun runs => (w.served .history .resolution runs, w)) (w.stageHistory_congr hpipeline hstage)

namespace Session

/-- However names are spelled, scheduling is the same.

* An attempt on a declared pipeline under another spelling of its name comes to the same outcome or error and leaves the
  same queue, memory of the timers, latest known revisions and health log; the two sessions differ in the lock at most,
  which is kept under the spelling that was used first.
* A configuration in which the dependencies spell pipelines and stages in another way is read alike.
* Where the same happens twice, under other spellings of names in requests and configurations, and the histories of
  stages are found under every spelling, every pipeline resolves to the same revisions in both runs, or fails in the
  same way, and every attempt comes to the same outcome. The histories in memory are found so. -/
theorem spelling_never_matters (env : Environment σ χ) :
    (∀ (s : Session σ) (name name' : PipelineName) (event : TriggerEvent), s.engine.snapshot.declares name = true →
      name.same name' = true →
      let first := s.schedule env.collab name event
      let second := s.schedule env.collab name' event
      second.1 = first.1 ∧ second.2.engine.queue = first.2.engine.queue ∧
      second.2.engine.debounce = first.2.engine.debounce ∧ second.2.engine.known = first.2.engine.known ∧
      second.2.engine.health = first.2.engine.health ∧
      second.2 = first.2.withLocks (s.engine.locks.insertNew name' ())) ∧
    (∀ c c' : Configuration, c.RespeltAs c' → c.ReadAlike c') ∧
    (env.collab.FoldsNames → ∀ (settings : Settings) (world : σ) (happenings happenings' : List (Happening χ)),
      List.Forall₂ Happening.RespeltAs happenings happenings' →
      let s := (start settings world).run env happenings
      let s' := (start settings world).run env happenings'
      s.RespeltAs s' ∧ ∀ name,
        (∀ overrides, AnswersAlike Resolution.RespeltAs (s.resolve env.collab name overrides).1
          (s'.resolve env.collab name overrides).1) ∧
        ∀ event, AnswersAlike Outcome.RespeltAs (s.schedule env.collab name event).1
          (s'.schedule env.collab name event).1) ∧
    InMemory.collaborators.FoldsNames := by
  refine ⟨fun s name name' event hdeclared hsame => ?_, fun c c' hc => hc.readAlike,
    fun hfolds settings world happenings happenings' hrespelt => ?_, InMemory.foldsNames⟩
  · intro first second
    have hsecond : second = (first.1, first.2.withLocks (s.engine.locks.insertNew name' ())) :=
      schedule_of_same hdeclared hsame event
    rw [hsecond]
    exact ⟨rfl, rfl, rfl, rfl, rfl, rfl⟩
  · have hrun := respelt_run hfolds (respelt_start settings world) hrespelt
    exact ⟨hrun, fun name => ⟨fun overrides => (hrun.resolve hfolds name overrides).1, fun event =>
      (hrun.schedule hfolds name event).1⟩⟩

/-- The nightly build, which spells the pipeline and the stage that it waits for in capitals. -/
def nightlyInCapitals : Configuration :=
  { pipelines := [Samples.withMaterials ⟨"app"⟩ [], Samples.timed ⟨"nightly"⟩ (.dependency ⟨"APP"⟩ ⟨"BUILD"⟩) true] }

theorem nightly_respelt : nightlyConfiguration.RespeltAs nightlyInCapitals := by
  have hpipeline : (⟨"app"⟩ : PipelineName).same ⟨"APP"⟩ = true := by simp [Name.same_iff_toList]
  have hstage : (⟨"build"⟩ : StageName).same ⟨"BUILD"⟩ = true := by simp [Name.same_iff_toList]
  have hnightly : nightly.RespeltAs (Samples.timed ⟨"nightly"⟩ (.dependency ⟨"APP"⟩ ⟨"BUILD"⟩) true) :=
    .intro (.cons (.intro (.dependency hpipeline hstage) _ _ _) .nil) _ _ _ _ _
  exact ⟨.cons (.refl _) (.cons hnightly .nil), .nil⟩

/-- What happens to the nightly build, in capitals. -/
def nightlyHappensInCapitals : List Operation :=
  [.request (.reload nightlyInCapitals), .world (.record (Samples.passed ⟨"app"⟩ 1 ⟨"build"⟩)),
    .request (.attempt ⟨"NIGHTLY"⟩ .timer)]

set_option maxRecDepth 100000 in
/-- The timer fires under either spelling of the nightly build, and after it fired in capitals the build still resolves
to the run of `app`, in whatever way that is spelled. -/
theorem nightly_resolves_in_capitals :
    nightlyReported.engine.snapshot.declares ⟨"nightly"⟩ = true ∧
    (⟨"nightly"⟩ : PipelineName).same ⟨"NIGHTLY"⟩ = true ∧
    (nightlyReported.schedule InMemory.collaborators ⟨"NIGHTLY"⟩ .timer).1 =
      .ok (.succeeded (.ofTimer nightlyRevisions)) ∧
    nightlyConfiguration.RespeltAs nightlyInCapitals ∧ (Snapshot.build nightlyInCapitals 1).isOk = true ∧
    List.Forall₂ Happening.RespeltAs (nightlyDeeds.map Deed.happening) nightlyHappensInCapitals ∧
    ∃ revisions,
      (((start {} {}).run .inMemory nightlyHappensInCapitals).resolve InMemory.collaborators ⟨"nightly"⟩ ∅).1 =
        .ok (.complete revisions) ∧
      revisions.map MaterialRevision.revision = nightlyRevisions.map MaterialRevision.revision := by
  have hcapitals : (⟨"nightly"⟩ : PipelineName).same ⟨"NIGHTLY"⟩ = true := by simp [Name.same_iff_toList]
  have hdeclared : nightlyReported.engine.snapshot.declares ⟨"nightly"⟩ = true := by decide +kernel
  have hfired : (nightlyReported.schedule InMemory.collaborators ⟨"nightly"⟩ .timer).1 =
      .ok (.succeeded (.ofTimer nightlyRevisions)) := by decide +kernel
  have hresolved : (nightlyFired.resolve InMemory.collaborators ⟨"nightly"⟩ ∅).1 =
      .ok (.complete nightlyRevisions) := by decide +kernel
  have hbuilt : (Snapshot.build nightlyConfiguration 1).isOk = true := by
    rw [Snapshot.build_of_sound sound_nightly 1]
    rfl
  have hhappenings : List.Forall₂ Happening.RespeltAs (nightlyDeeds.map Deed.happening) nightlyHappensInCapitals :=
    .cons (.reload nightly_respelt) (.cons (.same _) (.cons (.attempt hcapitals .timer) .nil))
  obtain ⟨hattempts, hconfigurations, hruns, hfolds⟩ := spelling_never_matters .inMemory
  obtain ⟨-, hresolves⟩ := hruns hfolds {} {} _ _ hhappenings
  rw [run_nightly] at hresolves
  refine ⟨hdeclared, hcapitals, ?_, nightly_respelt, ?_, hhappenings, ?_⟩
  · exact (hattempts nightlyReported _ _ .timer hdeclared hcapitals).1.trans hfired
  · exact ((hconfigurations _ _ nightly_respelt).verdict 1).symm.trans hbuilt
  · exact ((hresolves ⟨"nightly"⟩).1 ∅).complete hresolved

end Session

end BuildScheduling
