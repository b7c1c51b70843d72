import BuildScheduling.Proofs.Latest.Monotone
import BuildScheduling.Proofs.Resolution.Report

/-!
# The reports of a deed

Every deed makes reports (`Deed.reports`): an attempt, a look at the revisions that an attempt would get, and a look at
the latest revision of a material. An attempt makes none before it has come to ask the collaborators about its
pipeline (`Session.deciding?`).
-/

namespace BuildScheduling

variable {σ χ : Type} {collab : Collaborators σ} {env : Environment σ χ}

namespace Session

/-- The pipeline that an attempt asks the collaborators about. There is none when the name is not declared,
when a timer asks for a pipeline without one, when the queue cannot be looked into and when a forced cause
waits. -/
def deciding? (collab : Collaborators σ) (s : Session σ) (name : PipelineName) (event : TriggerEvent) :
    Option Pipeline :=
  (s.engine.snapshot.pipeline? name).filter fun p =>
    decide ((event.kind = .timer → p.timer ≠ none) ∧ collab.pendingOutage s.world = none ∧
      ¬ s.ForcedPending p.name)

/-- An attempt asks the collaborators about a pipeline, or it makes no progress and has no cause. -/
theorem deciding?_cases (collab : Collaborators σ) (s : Session σ) (name : PipelineName)
    (event : TriggerEvent) :
    (∃ p, s.deciding? collab name event = some p ∧ s.engine.snapshot.pipeline? name = some p ∧
      s.schedule collab name event = (s.lock name).attempt collab p event) ∨
    (s.deciding? collab name event = none ∧ (s.schedule collab name event).2.progress = s.progress ∧
      ∀ cause, (s.schedule collab name event).1 ≠ .ok (.succeeded cause)) := by
  unfold deciding?
  cases hp : s.engine.snapshot.pipeline? name with
  | none => exact Or.inr ⟨rfl, by simp [schedule, hp], by simp [schedule, hp]⟩
  | some p =>
    have hschedule := schedule_of_declared collab hp event
    by_cases htimer : event.kind = .timer ∧ p.timer.isNone = true
    · rw [if_pos htimer] at hschedule
      have huntimed : event.kind = .timer ∧ p.timer = none := by simpa using htimer
      exact Or.inr ⟨by simp [Option.filter, huntimed], by rw [hschedule]; rfl, by simp [hschedule]⟩
    have htimed : event.kind = .timer → p.timer ≠ none := by simpa using htimer
    rw [if_neg htimer] at hschedule
    cases hqueue : collab.pendingOutage s.world with
    | some message =>
      rw [hqueue] at hschedule
      exact Or.inr ⟨by simp [Option.filter], by rw [hschedule]; rfl, by simp [hschedule]⟩
    | none =>
      rw [hqueue] at hschedule
      by_cases hforced : s.ForcedPending p.name
      · rw [show s.schedule collab name event = _ from hschedule.trans (if_pos hforced)]
        exact Or.inr ⟨by simp [Option.filter, hforced], progress_report _ _, by simp⟩
      · exact Or.inl ⟨p, by simpa [Option.filter, hforced] using htimed, rfl, hschedule.trans (if_neg hforced)⟩

/-- The reports that are made in the course of an attempt. -/
def attemptReports (collab : Collaborators σ) (s : Session σ) (name : PipelineName) (event : TriggerEvent) :
    List (Material × Report) :=
  match s.deciding? collab name event with
  | some p => Attempt.reports collab (some (s.engine.settings.resolutionTimeout.toNat * 1000))
      s.engine.snapshot p event.overrides s.progress
  | none => []

/-- The report that is made when a material is asked for its latest revision. -/
def latestReports (collab : Collaborators σ) (s : Session σ) (m : Material) : List (Material × Report) :=
  match (Attempt.ask none (collab.reportOn s.engine.snapshot m)).on s.progress with
  | (.ok report, _) => [(m, report)]
  | (.error _, _) => []

end Session

/-- The reports that are made in the course of a deed, in order. -/
def Deed.reports (env : Environment σ χ) (d : Deed σ χ) : List (Material × Report) :=
  match d.happening with
  | .request (.attempt name event) => d.before.attemptReports env.collab name event
  | .request (.latest m) => d.before.latestReports env.collab m
  | .request (.resolve name overrides) =>
    match d.before.engine.snapshot.pipeline? name with
    | some p =>
      Attempt.resolveReports env.collab none d.before.engine.snapshot p overrides d.before.progress
    | none => []
  | _ => []

end BuildScheduling
