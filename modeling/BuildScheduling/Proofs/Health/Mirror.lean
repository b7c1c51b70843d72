import BuildScheduling.Proofs.Health.Complaint
import BuildScheduling.Proofs.Snapshot.Reload

/-!
# The health log mirrors the run

As long as the log has room, what it holds of a scope is what was reported of it since it was last cleared
(`reportsFor_run`). Of a pipeline that is a report for each attempt since the last successful one that came to no
cause, other than for want of a pipeline, a timer or a queue (`Session.complaint?`). Of the configuration it is the
errors of all configurations refused since the last accepted one.
-/

namespace BuildScheduling

variable {σ χ : Type} {collab : Collaborators σ} {env : Environment σ χ}

/-! ### Logs with room -/

namespace HealthLog

variable {log : HealthLog}

theorem reportsFor_clear (log : HealthLog) (cleared scope : HealthScope) :
    (log.clear cleared).reportsFor scope = if cleared.same scope then [] else log.reportsFor scope := by
  rw [reportsFor, clear, List.filter_filter]
  split
  · next hsame =>
    refine List.filter_eq_nil_iff.mpr fun r _ hboth => ?_
    obtain ⟨hscope, hkept⟩ := (Bool.and_eq_true_iff).mp hboth
    rw [HealthScope.same_comm] at hsame
    rw [HealthScope.same_trans hscope hsame] at hkept
    cases hkept
  · next hdiffer =>
    refine List.filter_congr fun r _ => ?_
    rw [Bool.and_eq_left_iff_imp, Bool.not_eq_true', ← Bool.not_eq_true]
    intro hscope hcleared
    rw [HealthScope.same_comm] at hcleared
    exact hdiffer (HealthScope.same_trans hcleared hscope)

/-- Of reports that all have one scope those that count for another one are all or none. -/
theorem filter_scope {reports : List HealthReport} {written scope : HealthScope}
    (h : ∀ r ∈ reports, r.scope.same scope = written.same scope) :
    reports.filter (fun r => r.scope.same scope) = if written.same scope then reports else [] := by
  rw [List.filter_congr h]
  cases written.same scope <;> simp

/-- A log that is not full after reports has dropped none. -/
theorem Bounded.reportsFor_reported (h : log.Bounded) (reported : List HealthReport)
    (hroom : (log.noted (reported.map .report)).HasRoom) (scope : HealthScope) :
    (log.noted (reported.map .report)).reportsFor scope =
      log.reportsFor scope ++ reported.filter fun r => r.scope.same scope := by
  have hreports := h.reports_reported reported
  have hall : (log.reports ++ reported).length - log.limit = 0 := by
    rw [HasRoom, limit_noted, hreports, List.rtake, List.length_drop] at hroom
    omega
  rw [reportsFor, hreports, List.rtake, hall, List.drop_zero, List.filter_append]
  rfl

end HealthLog

namespace Session

/-- A cleared scope has no reports left, if the health sink clears scopes. -/
theorem reportsFor_clearNote (collab : Collaborators σ) (w : σ) (log : HealthLog) (cleared scope : HealthScope) :
    ((clearNote collab w cleared).on log).reportsFor scope =
      if cleared.same scope && (collab.clearOutage w).isNone then [] else log.reportsFor scope := by
  unfold clearNote
  cases collab.clearOutage w with
  | some message => simp [HealthNote.on]
  | none => simp [HealthNote.on, HealthLog.reportsFor_clear]

/-- What a configuration leaves in the log: it clears the reports on configurations, or its errors. -/
theorem health_reload (collab : Collaborators σ) (s : Session σ) (c : Configuration) :
    let after := (s.reload collab c).2
    (∃ snapshot, (s.reload collab c).1 = .ok snapshot ∧
      after.engine.health = (clearNote collab after.world .configuration).on s.engine.health) ∨
    (∃ errors, (s.reload collab c).1 = .error (.configuration errors) ∧
      after.engine.health = s.engine.health.noted
        ((errors.map ConfigError.report).map (reportNote collab after.world))) := by
  cases hbuild : Snapshot.build c (s.engine.snapshot.version + 1) with
  | ok snapshot =>
    rw [reload_of_build hbuild, publish_eq]
    exact Or.inl ⟨snapshot, rfl, rfl⟩
  | error errors =>
    rw [reload, hbuild]
    dsimp only
    rw [reports_eq]
    exact Or.inr ⟨errors, rfl, by rw [List.map_map]; rfl⟩

end Session

/-! ### Deeds -/

/-- Somebody else writes to the health log. -/
def Happening.WritesHealth : Happening χ → Prop
  | .consume (.report _) => True
  | .consume (.clearHealth _) => True
  | _ => False

namespace Deed

/-- An attempt on a pipeline, in whatever case its name is given, succeeds. -/
def succeeds (env : Environment σ χ) (name : PipelineName) (d : Deed σ χ) : Bool :=
  match d.happening with
  | .request (.attempt attempted event) =>
    attempted.same name && (d.before.schedule env.collab attempted event).1.toOption.any Outcome.isSucceeded
  | _ => false

theorem succeeds_eq_false {name : PipelineName} {d : Deed σ χ}
    (h : ∀ attempted event, d.happening ≠ .request (.attempt attempted event)) : d.succeeds env name = false := by
  unfold succeeds
  split
  · next attempted event hattempt => exact absurd hattempt (h attempted event)
  · rfl

/-- An attempt on a pipeline succeeds and the reports on the pipeline are cleared. -/
def absolves (env : Environment σ χ) (name : PipelineName) (d : Deed σ χ) : Bool :=
  d.succeeds env name && (env.collab.clearOutage (d.after env).world).isNone

/-- A configuration is accepted and the reports on configurations are cleared. -/
def pardons (env : Environment σ χ) (d : Deed σ χ) : Bool :=
  d.accepts env && (env.collab.clearOutage (d.after env).world).isNone

/-- What is reported of a configuration: the errors that it is refused for. -/
def refusals (env : Environment σ χ) (d : Deed σ χ) : List HealthReport :=
  match d.answer env with
  | .reloaded (.error (.configuration errors)) =>
    Session.taken env.collab (d.after env).world (errors.map ConfigError.report)
  | _ => []

/-- A deed clears a scope, or its reports are those from before and those that the deed makes. -/
def Adds (env : Environment σ χ) (d : Deed σ χ) (scope : HealthScope) (clears : Bool) (made : List HealthReport) :
    Prop :=
  d.before.engine.health.Bounded → (d.after env).engine.health.HasRoom →
    (d.after env).engine.health.reportsFor scope =
      if clears then [] else d.before.engine.health.reportsFor scope ++ made

variable {d : Deed σ χ}

theorem adds_of_clear {cleared : HealthScope} (h : (d.after env).engine.health =
      (Session.clearNote env.collab (d.after env).world cleared).on d.before.engine.health) (scope : HealthScope) :
    d.Adds env scope (cleared.same scope && (env.collab.clearOutage (d.after env).world).isNone) [] := by
  intro _ _
  rw [h, Session.reportsFor_clearNote, List.append_nil]

theorem adds_of_reports {reports : List HealthReport} (h : (d.after env).engine.health =
      d.before.engine.health.noted (reports.map (Session.reportNote env.collab (d.after env).world)))
    (scope : HealthScope) :
    d.Adds env scope false
      ((Session.taken env.collab (d.after env).world reports).filter fun r => r.scope.same scope) := by
  intro hbounded hroom
  rw [Session.noted_reportNote] at h
  rw [h] at hroom ⊢
  exact hbounded.reportsFor_reported _ hroom scope

theorem adds_nothing (h : (d.after env).engine.health = d.before.engine.health) (scope : HealthScope) :
    d.Adds env scope false [] := by
  intro _ _
  rw [h]
  exact (List.append_nil _).symm

/-- Nothing but attempts and configurations is written about. -/
theorem health_idle (hsingle : d.happening.Single) (hothers : ¬ d.happening.WritesHealth)
    (hattempt : ∀ name event, d.happening ≠ .request (.attempt name event))
    (hreload : ∀ c, d.happening ≠ .request (.reload c)) :
    (d.after env).engine.health = d.before.engine.health := by
  obtain ⟨s, h⟩ := d
  cases h with
  | world change => rfl
  | consume consumption =>
    cases consumption with
    | report _ | clearHealth _ => exact absurd trivial hothers
    | _ => rfl
  | request request =>
    cases request with
    | attempt name event => exact absurd rfl (hattempt name event)
    | reload c => exact absurd rfl (hreload c)
    | postCommit _ | tick _ _ | follow _ => exact hsingle.elim
    | resolve name overrides =>
      show (s.resolve env.collab name overrides).2.engine.health = _
      unfold Session.resolve
      split <;> rfl
    | _ => rfl

/-- An attempt writes about the pipeline that has the name. -/
theorem adds_attempt (env : Environment σ χ) (s : Session σ) (attempted : PipelineName) (event : TriggerEvent)
    (scope : HealthScope) :
    let d : Deed σ χ := ⟨s, .request (.attempt attempted event)⟩
    d.Adds env scope
      ((HealthScope.pipeline attempted).same scope &&
        (s.schedule env.collab attempted event).1.toOption.any Outcome.isSucceeded &&
        (env.collab.clearOutage (d.after env).world).isNone)
      (if (HealthScope.pipeline attempted).same scope then
        Session.taken env.collab (d.after env).world (s.complaint? env.collab attempted event).toList else []) := by
  intro d
  have hscope : ∀ {p}, s.engine.snapshot.pipeline? attempted = some p →
      (HealthScope.pipeline p.name).same scope = (HealthScope.pipeline attempted).same scope :=
    fun hp => HealthScope.same_congr (Session.same_of_pipeline? hp) scope
  rcases Session.health_schedule env.collab s attempted event with ⟨p, cause, hp, hanswer, hhealth⟩ | ⟨hnone, hhealth⟩
  · have hquiet : s.complaint? env.collab attempted event = none := by rw [Session.complaint?, hanswer]
    have hclear := adds_of_clear (d := d) hhealth scope
    rw [hscope hp] at hclear
    simpa [hanswer, hquiet, Session.taken, Except.toOption, Outcome.isSucceeded] using hclear
  · have hunanswered : (s.schedule env.collab attempted event).1.toOption.any Outcome.isSucceeded = false := by
      rcases hanswer : (s.schedule env.collab attempted event).1 with failure | cause | rejection
      · rfl
      · exact absurd hanswer (hnone cause)
      · rfl
    have hreports := adds_of_reports (d := d) hhealth scope
    have hcomplaint : ∀ r ∈ Session.taken env.collab (d.after env).world
        (s.complaint? env.collab attempted event).toList,
        r.scope.same scope = (HealthScope.pipeline attempted).same scope := by
      intro r hr
      obtain ⟨p, hp, hwritten⟩ := Session.scope_of_complaint? (Option.mem_toList.mp (Session.mem_of_mem_taken hr))
      rw [hwritten, hscope hp]
    rw [HealthLog.filter_scope hcomplaint] at hreports
    rwa [hunanswered, Bool.and_false, Bool.false_and]

/-- A configuration writes about configurations. -/
theorem adds_reload (env : Environment σ χ) (s : Session σ) (c : Configuration) (scope : HealthScope) :
    let d : Deed σ χ := ⟨s, .request (.reload c)⟩
    d.Adds env scope (d.pardons env && HealthScope.configuration.same scope)
      (if HealthScope.configuration.same scope then d.refusals env else []) := by
  intro d
  unfold pardons accepts refusals
  rcases Session.health_reload env.collab s c with ⟨snapshot, hanswer, hhealth⟩ | ⟨errors, hanswer, hhealth⟩
  · have hreloaded : d.answer env = .reloaded (.ok snapshot) := congrArg Answer.reloaded hanswer
    have hclear := adds_of_clear (d := d) hhealth scope
    rw [hreloaded]
    simpa [Bool.and_comm] using hclear
  · have hreloaded : d.answer env = .reloaded (.error (.configuration errors)) := congrArg Answer.reloaded hanswer
    have hreports := adds_of_reports (d := d) hhealth scope
    have herrors : ∀ r ∈ Session.taken env.collab (d.after env).world (errors.map ConfigError.report),
        r.scope.same scope = HealthScope.configuration.same scope := by
      intro r hr
      obtain ⟨e, -, rfl⟩ := List.mem_map.mp (Session.mem_of_mem_taken hr)
      rfl
    rw [HealthLog.filter_scope herrors] at hreports
    rwa [hreloaded]

/-- What is reported of a pipeline grows by the complaints of attempts on it, and starts over with a success. -/
theorem adds_pipeline (hsingle : d.happening.Single) (hothers : ¬ d.happening.WritesHealth) (name : PipelineName) :
    d.Adds env (.pipeline name) (d.absolves env name) (d.complaints env name) := by
  obtain ⟨s, h⟩ := d
  by_cases hattempt : ∃ attempted event, h = .request (.attempt attempted event)
  · obtain ⟨attempted, event, rfl⟩ := hattempt
    exact adds_attempt env s attempted event (.pipeline name)
  have hother : ∀ attempted event, h ≠ .request (.attempt attempted event) :=
    fun attempted event ha => hattempt ⟨attempted, event, ha⟩
  rw [absolves, succeeds_eq_false hother, Bool.false_and, complaints_eq_nil hother]
  by_cases hreload : ∃ c, h = .request (.reload c)
  · obtain ⟨c, rfl⟩ := hreload
    have hadds := adds_reload env s c (.pipeline name)
    simpa [HealthScope.same] using hadds
  · exact adds_nothing (health_idle hsingle hothers hother fun c hc => hreload ⟨c, hc⟩) _

theorem adds_configuration (hsingle : d.happening.Single) (hothers : ¬ d.happening.WritesHealth) :
    d.Adds env .configuration (d.pardons env) (d.refusals env) := by
  obtain ⟨s, h⟩ := d
  by_cases hreload : ∃ c, h = .request (.reload c)
  · obtain ⟨c, rfl⟩ := hreload
    have hadds := adds_reload env s c .configuration
    simpa [HealthScope.same] using hadds
  have hpardons : pardons env ⟨s, h⟩ = false := by
    rw [pardons, Session.not_accepts fun c hc => hreload ⟨c, hc⟩, Bool.false_and]
  have hrefusals : refusals env ⟨s, h⟩ = [] := by
    cases h with
    | world _ => rfl
    | consume consumption => cases consumption <;> rfl
    | request request =>
      cases request with
      | reload c => exact absurd ⟨c, rfl⟩ hreload
      | _ => rfl
  rw [hpardons, hrefusals]
  by_cases hattempt : ∃ name event, h = .request (.attempt name event)
  · obtain ⟨name, event, rfl⟩ := hattempt
    have hadds := adds_attempt env s name event .configuration
    simpa [HealthScope.same] using hadds
  · exact adds_nothing (health_idle hsingle hothers (fun name event ha => hattempt ⟨name, event, ha⟩)
      fun c hc => hreload ⟨c, hc⟩) _

end Deed

/-! ### Runs -/

namespace Session

/-- What is added to the reports of a scope by single deeds is, after the last that cleared it, what there is. -/
theorem reportsFor_run {scope : HealthScope} {clears : Deed σ χ → Bool} {made : Deed σ χ → List HealthReport}
    (hadds : ∀ d : Deed σ χ, d.happening.Single → ¬ d.happening.WritesHealth →
      d.Adds env scope (clears d) (made d))
    {s : Session σ} (hbounded : s.engine.health.Bounded) (hnone : s.engine.health.reportsFor scope = [])
    {happenings : List (Happening χ)} (hsingle : ∀ h ∈ happenings, h.Single)
    (hothers : ∀ h ∈ happenings, ¬ h.WritesHealth)
    (hroom : ∀ d ∈ s.deeds env happenings, (d.after env).engine.health.HasRoom) :
    (s.run env happenings).engine.health.reportsFor scope =
      ((s.deeds env happenings).rtakeWhile fun d => !clears d).flatMap made := by
  induction happenings using List.reverseRecOn with
  | nil => exact hnone
  | append_singleton happenings h ih =>
    let last : Deed σ χ := ⟨s.run env happenings, h⟩
    have hdeeds : s.deeds env (happenings ++ [h]) = s.deeds env happenings ++ [last] := deeds_append s happenings [h]
    simp only [hdeeds, List.forall_mem_append, List.forall_mem_singleton] at hsingle hothers hroom
    have hbefore := ih hsingle.1 hothers.1 hroom.1
    have hlast := hadds last hsingle.2 hothers.2 (bounded_run_of_bounded env hbounded happenings) hroom.2
    have hafter : s.run env (happenings ++ [h]) = last.after env := run_append s happenings [h]
    rw [hafter, hdeeds, List.rtakeWhile_concat, hlast]
    cases clears last with
    | true => rfl
    | false =>
      show (s.run env happenings).engine.health.reportsFor scope ++ made last = _
      rw [hbefore]
      simp

/-- What a run consists of writes to the log from outside only if something in the run does. -/
theorem not_writesHealth_of_mem_atoms {s : Session σ} {happenings : List (Happening χ)}
    (hothers : ∀ h ∈ happenings, ¬ h.WritesHealth) {part : Happening χ} (hpart : part ∈ s.atoms env happenings) :
    ¬ part.WritesHealth := by
  obtain ⟨s', h, hh, hpart⟩ := exists_mem_parts_of_mem_atoms hpart
  rcases mem_parts_cases hpart with ⟨_, _, rfl⟩ | ⟨_, -, _, -, rfl⟩ | ⟨rfl, -⟩
  · exact id
  · exact id
  · exact hothers part hh

/-- While only the engine writes to its health log and the log has room, it mirrors the run. Of each pipeline it has,
in order, what the attempts since the last successful one complained of: why an attempt was rejected, or why its
decision broke off; an attempt on no pipeline, or for a timer that the pipeline does not have, complains of nothing. Of
the configuration it has the errors of all configurations refused since the last accepted one. What the health sink
takes no report of is not there, and what it does not clear stays. -/
theorem health_mirrors_run (env : Environment σ χ) (settings : Settings) (world : σ)
    (happenings : List (Happening χ)) (hothers : ∀ h ∈ happenings, ¬ h.WritesHealth)
    (hroom : ∀ d ∈ (start settings world).history env happenings, (d.after env).engine.health.HasRoom) :
    let history := (start settings world).history env happenings
    let log := ((start settings world).run env happenings).engine.health
    (∀ name, log.reportsFor (.pipeline name) =
      (history.rtakeWhile fun d => !d.absolves env name).flatMap (Deed.complaints env name)) ∧
    log.reportsFor .configuration = (history.rtakeWhile fun d => !d.pardons env).flatMap (Deed.refusals env) ∧
    ∀ d ∈ history, ∀ attempted event, d.happening = .request (.attempt attempted event) →
      (∀ p, d.before.engine.snapshot.pipeline? attempted = some p → event.kind = .timer ∧ p.timer = none) →
      ∀ name, d.complaints env name = [] := by
  intro history log
  have hsingle : ∀ h ∈ (start settings world).atoms env happenings, h.Single := fun h hh => single_of_mem_atoms hh
  have hengine : ∀ h ∈ (start settings world).atoms env happenings, ¬ h.WritesHealth :=
    fun h hh => not_writesHealth_of_mem_atoms hothers hh
  have hlog : log = ((start settings world).run env ((start settings world).atoms env happenings)).engine.health := by
    rw [run_atoms]
  have hbounded : (start settings world).engine.health.Bounded := HealthLog.bounded_new _
  rw [hlog]
  refine ⟨fun name => ?_, ?_, fun d _ attempted event hattempt hundecided name => ?_⟩
  · exact reportsFor_run (fun d hd hown => Deed.adds_pipeline hd hown name) hbounded rfl hsingle hengine hroom
  · exact reportsFor_run (fun d hd hown => Deed.adds_configuration hd hown) hbounded rfl hsingle hengine hroom
  · have hquiet : d.before.complaint? env.collab attempted event = none := complaint?_eq_none hundecided
    simp [Deed.complaints, hattempt, hquiet, taken]

/-! A pipeline without materials, which is only asked whether an instance of it is running. -/

def lockedPipelines : List Pipeline :=
  [{ Samples.withMaterials ⟨"app"⟩ [] with lockBehavior := .lockOnFailure }]

def lockedConfiguration : Configuration := { pipelines := lockedPipelines }

/-- The configuration was read. -/
def lockedRead : Session InMemory := published {} lockedConfiguration

theorem next_locked :
    ((start {} {}).next .inMemory (.request (.reload lockedConfiguration))).2 = lockedRead :=
  next_reload (Configuration.Orderly.sound (by decide)) {}

/-- The configuration is read and then something happens. -/
def lockedRun (later : List Operation) : List Operation := .request (.reload lockedConfiguration) :: later

theorem run_lockedRun (later : List Operation) :
    (start {} {}).run .inMemory (lockedRun later) = lockedRead.run .inMemory later := by
  rw [lockedRun, run_cons, next_locked]

theorem history_lockedRun (later : List Operation) :
    (start {} {}).history .inMemory (lockedRun later) =
      ⟨start {} {}, .request (.reload lockedConfiguration)⟩ :: lockedRead.history .inMemory later := by
  rw [← next_locked]
  rfl

theorem hasRoom_lockedRun {later : List Operation}
    (h : ∀ d ∈ lockedRead.history .inMemory later, (d.after .inMemory).engine.health.HasRoom) :
    ∀ d ∈ (start {} {}).history .inMemory (lockedRun later), (d.after .inMemory).engine.health.HasRoom := by
  have hread : Deed.after .inMemory ⟨start {} {}, .request (.reload lockedConfiguration)⟩ = lockedRead := next_locked
  rw [history_lockedRun, List.forall_mem_cons, hread]
  exact ⟨by decide, h⟩

/-- An instance is running, then it is not, and then a revision is asked for of a material that is not there. There
is no other pipeline. -/
def setbacks : List Operation :=
  [.world (.running ⟨"app"⟩ true), .request (.attempt ⟨"app"⟩ .auto), .world (.running ⟨"app"⟩ false),
    .request (.attempt ⟨"app"⟩ .auto), .request (.attempt ⟨"app"⟩ (.manual "dev" (.ofList [("none", "r2")]))),
    .request (.attempt ⟨"lib"⟩ .auto)]

set_option maxRecDepth 100000 in
/-- Only the last attempt on the pipeline is complained of, since the one before it succeeded. -/
theorem success_forgets_earlier_complaints :
    (∀ h ∈ lockedRun setbacks, ¬ h.WritesHealth) ∧
    ((start {} {}).run .inMemory (lockedRun setbacks)).engine.health.reportsFor (.pipeline ⟨"app"⟩) =
      [failureReport ⟨"app"⟩ (.materialNotFound ⟨"app"⟩ "none")] := by
  have hothers : ∀ h ∈ lockedRun setbacks, ¬ h.WritesHealth := by
    simp [lockedRun, setbacks, Happening.WritesHealth]
  have hmirror := health_mirrors_run .inMemory {} {} (lockedRun setbacks) hothers
    (hasRoom_lockedRun (by decide +kernel))
  refine ⟨hothers, ?_⟩
  rw [hmirror.1, history_lockedRun]
  decide +kernel

/-- Whether an instance is running cannot be found out, and then it can, but no reports are cleared. -/
def blackout : List Operation :=
  [.world (.outage .instances (some "tracker down")), .request (.attempt ⟨"app"⟩ .auto)]

def unclearedSuccess : List Operation :=
  blackout ++ [.world (.outage .instances none), .world (.outage .clear (some "sink down")),
    .request (.attempt ⟨"app"⟩ .auto)]

/-- An attempt does not find out whether its pipeline is held back. -/
def failsAtLock (d : Deed InMemory WorldChange) : Bool :=
  match d.happening with
  | .request (.attempt name event) =>
    (d.before.deciding? InMemory.collaborators name event).any fun p =>
      !((Attempt.isHeld InMemory.collaborators
        (some (d.before.engine.settings.resolutionTimeout.toNat * 1000)) p).on d.before.progress).1.isOk
  | _ => false

/-- The engine alone writes to a log that has room, and yet the log holds something else than what the attempts on a
pipeline since its last success complained of, those apart that did not find out whether it is held back. -/
def ExceedsFailedResolutions (later : List Operation) : Prop :=
  let history := (start {} {}).history .inMemory (lockedRun later)
  (∀ h ∈ lockedRun later, ¬ h.WritesHealth) ∧ (∀ d ∈ history, (d.after .inMemory).engine.health.HasRoom) ∧
  ((start {} {}).run .inMemory (lockedRun later)).engine.health.reportsFor (.pipeline ⟨"app"⟩) ≠
    ((history.rtakeWhile fun d => !d.succeeds .inMemory ⟨"app"⟩).filter fun d => !failsAtLock d).flatMap
      (Deed.complaints .inMemory ⟨"app"⟩)

set_option maxRecDepth 100000 in
/-- So it is both without a success and with one that is not followed by a clearing. -/
theorem log_exceeds_failed_resolutions :
    ExceedsFailedResolutions blackout ∧ ExceedsFailedResolutions unclearedSuccess := by
  have hlog : ∀ later ∈ [blackout, unclearedSuccess],
      (lockedRead.run .inMemory later).engine.health.reportsFor (.pipeline ⟨"app"⟩) =
        [failureReport ⟨"app"⟩ (.internal "tracker down")] := by decide +kernel
  have hroom : ∀ later ∈ [blackout, unclearedSuccess],
      ∀ d ∈ lockedRead.history .inMemory later, (d.after .inMemory).engine.health.HasRoom := by decide +kernel
  have hclaimed : ∀ later ∈ [blackout, unclearedSuccess],
      (((⟨start {} {}, .request (.reload lockedConfiguration)⟩ :: lockedRead.history .inMemory later).rtakeWhile
        fun d => !d.succeeds .inMemory ⟨"app"⟩).filter fun d => !failsAtLock d).flatMap
          (Deed.complaints .inMemory ⟨"app"⟩) = [] := by decide +kernel
  have hall : ∀ later ∈ [blackout, unclearedSuccess], ExceedsFailedResolutions later := by
    intro later hlater
    have hothers : ∀ h ∈ lockedRun later, ¬ h.WritesHealth := by
      rcases List.mem_pair.mp hlater with rfl | rfl <;>
        simp [lockedRun, blackout, unclearedSuccess, Happening.WritesHealth]
    refine ⟨hothers, hasRoom_lockedRun (hroom later hlater), ?_⟩
    rw [run_lockedRun, hlog later hlater, history_lockedRun, hclaimed later hlater]
    simp
  exact ⟨hall blackout List.mem_cons_self, hall unclearedSuccess (List.mem_cons_of_mem _ List.mem_cons_self)⟩

end Session

end BuildScheduling
