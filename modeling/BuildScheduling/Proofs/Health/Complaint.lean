import BuildScheduling.Proofs.Engine.Reports
import BuildScheduling.Proofs.Health.Notes

/-!
# What an attempt complains of

An attempt that comes to no cause complains of it in the health log, other than for want of a pipeline, a timer or a
queue (`Session.complaint?`). One that comes to a cause clears its pipeline there. That is all that an attempt leaves in
the log (`health_schedule`). The complaint does not depend on the log, so if an attempt makes one and the same report in
every log, that report is its complaint (`taken_complaint_of_report`).
-/

namespace BuildScheduling

variable {σ χ : Type} {collab : Collaborators σ}

namespace Session

/-- Of some reports those that the health sink takes. -/
def taken (collab : Collaborators σ) (w : σ) (reports : List HealthReport) : List HealthReport :=
  if (collab.reportOutage w).isSome then [] else reports

theorem noted_reportNote (collab : Collaborators σ) (w : σ) (log : HealthLog) (reports : List HealthReport) :
    log.noted (reports.map (reportNote collab w)) = log.noted ((taken collab w reports).map .report) := by
  unfold taken reportNote
  split
  · exact log.noted_nothing reports
  · rfl

theorem mem_of_mem_taken {w : σ} {reports : List HealthReport} {r : HealthReport}
    (h : r ∈ taken collab w reports) : r ∈ reports := by
  unfold taken at h
  split at h
  · simp at h
  · exact h

/-- The decision of an attempt breaks off: the answer to some question did not come, or not in time. -/
def breaksOff (collab : Collaborators σ) (s : Session σ) (event : TriggerEvent) (p : Pipeline) : Bool :=
  !((s.decision collab p event).on s.progress).1.isOk

/-- What an attempt without a cause complains of: that it was rejected, or that its decision broke off. -/
def complaint? (collab : Collaborators σ) (s : Session σ) (name : PipelineName) (event : TriggerEvent) :
    Option HealthReport :=
  match (s.schedule collab name event).1 with
  | .ok (.succeeded _) => none
  | .ok (.rejected rejection) => (s.engine.snapshot.pipeline? name).map fun p => rejectionReport p.name rejection
  | .error failure =>
    ((s.deciding? collab name event).filter (s.breaksOff collab event)).map fun p => failureReport p.name failure

/-- A decided attempt that has no cause complains, unless the queue took no cause. -/
theorem health_attempt (collab : Collaborators σ) (s : Session σ) (p : Pipeline) (event : TriggerEvent) :
    let after := (s.attempt collab p event).2
    (∃ cause, (s.attempt collab p event).1 = .ok (.succeeded cause) ∧
      after.engine.health = (clearNote collab after.world (.pipeline p.name)).on s.engine.health) ∨
    (∃ rejection, (s.attempt collab p event).1 = .ok (.rejected rejection) ∧
      after.engine.health = (reportNote collab after.world (rejectionReport p.name rejection)).on s.engine.health) ∨
    (∃ failure, (s.attempt collab p event).1 = .error failure ∧ s.breaksOff collab event p = true ∧
      after.engine.health = (reportNote collab after.world (failureReport p.name failure)).on s.engine.health) ∨
    (∃ failure, (s.attempt collab p event).1 = .error failure ∧ s.breaksOff collab event p = false ∧
      after.engine.health = s.engine.health) := by
  dsimp only
  unfold breaksOff
  rw [attempt_eq, perform_eq]
  rcases (s.decision collab p event).on s.progress with ⟨interruption | cause | rejection, last⟩
  · refine Or.inr (Or.inr (Or.inl ⟨_, rfl, rfl, ?_⟩))
    simp only [reportFailure]
    rw [report_eq _ rfl]
    rfl
  · dsimp only [conclude]
    cases collab.enqueueOutage last.world with
    | some message => exact Or.inr (Or.inr (Or.inr ⟨_, rfl, rfl, rfl⟩))
    | none =>
      refine Or.inl ⟨cause, rfl, ?_⟩
      simp only [accept]
      rw [clearHealth_eq _ rfl]
      rfl
  · refine Or.inr (Or.inl ⟨rejection, rfl, ?_⟩)
    simp only [conclude, reportRejection]
    rw [report_eq _ rfl]
    rfl

/-- An attempt that stops before its decision leaves its complaint, which can only be that a forced cause waits. -/
theorem health_undecided (collab : Collaborators σ) (s : Session σ) (name : PipelineName) (event : TriggerEvent)
    (hundecided : s.deciding? collab name event = none) :
    (s.schedule collab name event).2.engine.health = s.engine.health.noted
      ((s.complaint? collab name event).toList.map
        (reportNote collab (s.schedule collab name event).2.world)) := by
  unfold complaint?
  rw [hundecided]
  cases hp : s.engine.snapshot.pipeline? name with
  | none => simp only [schedule, hp]; rfl
  | some p =>
    rw [schedule_of_declared collab hp]
    split
    · rfl
    next htimer =>
    split
    · rfl
    next hqueue =>
    split
    · simp only [reportRejection]
      rw [report_eq _ rfl]
      rfl
    · next hfree =>
      -- Nothing else stops an attempt before its decision.
      have hdeciding : s.deciding? collab name event = some p := by
        have htimed : event.kind = .timer → ¬ p.timer = none := by simpa using htimer
        simpa [deciding?, hp, Option.filter, hqueue, hfree] using htimed
      rw [hdeciding] at hundecided
      cases hundecided

/-- What an attempt leaves in the log: it clears its pipeline, or it has no cause and leaves its complaint. -/
theorem health_schedule (collab : Collaborators σ) (s : Session σ) (name : PipelineName) (event : TriggerEvent) :
    let after := (s.schedule collab name event).2
    (∃ p cause, s.engine.snapshot.pipeline? name = some p ∧
      (s.schedule collab name event).1 = .ok (.succeeded cause) ∧
      after.engine.health = (clearNote collab after.world (.pipeline p.name)).on s.engine.health) ∨
    (∀ cause, (s.schedule collab name event).1 ≠ .ok (.succeeded cause)) ∧
      after.engine.health = s.engine.health.noted
        ((s.complaint? collab name event).toList.map (reportNote collab after.world)) := by
  intro after
  unfold complaint?
  rcases deciding?_cases collab s name event with ⟨p, hdeciding, hp, hattempt⟩ | ⟨hundecided, -, hnone⟩
  · have hafter : after = ((s.lock name).attempt collab p event).2 := congrArg Prod.snd hattempt
    have hbreaks : (s.lock name).breaksOff collab event p = s.breaksOff collab event p := rfl
    rw [hafter, hattempt, hdeciding, hp]
    rcases health_attempt collab (s.lock name) p event with ⟨cause, hanswer, hhealth⟩ |
      ⟨rejection, hanswer, hhealth⟩ | ⟨failure, hanswer, hbroken, hhealth⟩ | ⟨failure, hanswer, hwhole, hhealth⟩
    · exact Or.inl ⟨p, cause, rfl, hanswer, hhealth⟩
    · rw [hanswer]
      exact Or.inr ⟨by simp, hhealth⟩
    · rw [hbreaks] at hbroken
      rw [hanswer]
      simp only [Option.filter_some, hbroken, if_true]
      exact Or.inr ⟨by simp, hhealth⟩
    · rw [hbreaks] at hwhole
      rw [hanswer]
      simp only [Option.filter_some, hwhole, Bool.false_eq_true, if_false]
      exact Or.inr ⟨by simp, hhealth⟩
  · exact Or.inr ⟨hnone, health_undecided collab s name event hundecided⟩

/-- A complaint is about the pipeline that was attempted. -/
theorem scope_of_complaint? {s : Session σ} {name : PipelineName} {event : TriggerEvent} {r : HealthReport}
    (h : s.complaint? collab name event = some r) :
    ∃ p, s.engine.snapshot.pipeline? name = some p ∧ r.scope = .pipeline p.name := by
  unfold complaint? at h
  split at h
  · cases h
  · obtain ⟨p, hp, rfl⟩ := Option.map_eq_some_iff.mp h
    exact ⟨p, hp, rfl⟩
  · obtain ⟨p, hp, rfl⟩ := Option.map_eq_some_iff.mp h
    obtain ⟨hdeciding, -⟩ := Option.filter_eq_some_iff.mp hp
    exact ⟨p, (Option.filter_eq_some_iff.mp hdeciding).1, rfl⟩

/-- An attempt on no pipeline complains of nothing, and neither does that of a timer on a pipeline without one. -/
theorem complaint?_eq_none {s : Session σ} {name : PipelineName} {event : TriggerEvent}
    (h : ∀ p, s.engine.snapshot.pipeline? name = some p → event.kind = .timer ∧ p.timer = none) :
    s.complaint? collab name event = none := by
  have hundecided : s.deciding? collab name event = none := by
    rw [deciding?, Option.filter_eq_none_iff]
    intro p hp
    obtain ⟨hkind, htimer⟩ := h p hp
    simp [hkind, htimer]
  obtain ⟨failure, hfailed⟩ : ∃ failure, (s.schedule collab name event).1 = .error failure := by
    cases hp : s.engine.snapshot.pipeline? name with
    | none => exact ⟨.pipelineNotFound name, by simp only [schedule, hp]⟩
    | some p =>
      obtain ⟨hkind, htimer⟩ := h p hp
      refine ⟨.noTimer p.name, ?_⟩
      rw [schedule_of_declared collab hp, if_pos ⟨hkind, by rw [htimer]; rfl⟩]
  rw [complaint?, hfailed, hundecided]
  rfl

/-- The answer to an attempt and what it does to the world do not depend on the log. -/
theorem schedule_withLog (collab : Collaborators σ) (s : Session σ) (log : HealthLog) (name : PipelineName)
    (event : TriggerEvent) :
    ((s.withLog log).schedule collab name event).1 = (s.schedule collab name event).1 ∧
      ((s.withLog log).schedule collab name event).2.world = (s.schedule collab name event).2.world := by
  obtain ⟨notes, hnotes⟩ := unread_schedule collab name event s
  have hschedule : (s.withLog log).schedule collab name event =
      ((s.schedule collab name event).1, (s.schedule collab name event).2.withLog (log.noted notes)) := hnotes log
  rw [hschedule]
  exact ⟨rfl, rfl⟩

theorem complaint?_withLog (s : Session σ) (log : HealthLog) (name : PipelineName) (event : TriggerEvent) :
    (s.withLog log).complaint? collab name event = s.complaint? collab name event := by
  unfold complaint?
  rw [(schedule_withLog collab s log name event).1]
  rfl

/-- An attempt that makes a report in every log complains of just that, and the health sink takes it. -/
theorem taken_complaint_of_report {s : Session σ} {name : PipelineName} {event : TriggerEvent} {r : HealthReport}
    (h : ∀ log, ((s.withLog log).schedule collab name event).2.engine.health = log.report r) :
    taken collab (s.schedule collab name event).2.world (s.complaint? collab name event).toList = [r] := by
  -- In an empty log a report is all there is, and a scope that is cleared leaves nothing.
  let empty : HealthLog := .new 1
  rcases health_schedule collab (s.withLog empty) name event with ⟨p, -, -, -, hhealth⟩ | ⟨-, hhealth⟩
  · rw [h empty] at hhealth
    unfold clearNote at hhealth
    split at hhealth <;> cases congrArg HealthLog.reports hhealth
  · rw [h empty, noted_reportNote, complaint?_withLog, (schedule_withLog collab s empty name event).2] at hhealth
    have hreports := congrArg HealthLog.reports hhealth
    unfold taken at hreports ⊢
    split at hreports
    · cases hreports
    · next htakes =>
      rw [if_neg htakes]
      cases hcomplaint : s.complaint? collab name event with
      | none =>
        rw [hcomplaint] at hreports
        cases hreports
      | some complaint =>
        rw [hcomplaint] at hreports
        exact hreports.symm

end Session

namespace Deed

/-- What is reported of a pipeline: the complaint of an attempt on it. -/
def complaints (env : Environment σ χ) (name : PipelineName) (d : Deed σ χ) : List HealthReport :=
  match d.happening with
  | .request (.attempt attempted event) =>
    if attempted.same name then
      Session.taken env.collab (d.after env).world (d.before.complaint? env.collab attempted event).toList
    else []
  | _ => []

theorem complaints_eq_nil {env : Environment σ χ} {name : PipelineName} {d : Deed σ χ}
    (h : ∀ attempted event, d.happening ≠ .request (.attempt attempted event)) : d.complaints env name = [] := by
  unfold complaints
  split
  · next attempted event hattempt => exact absurd hattempt (h attempted event)
  · rfl

end Deed

end BuildScheduling
