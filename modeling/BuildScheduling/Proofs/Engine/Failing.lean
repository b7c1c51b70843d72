import BuildScheduling.Proofs.Engine.Answer
import BuildScheduling.Proofs.Resolution.Report

/-!
# What an attempt fails with

An attempt fails with what a collaborator answered, with a revision or a material that is asked for and not there,
by running out of time, or because of the queue. So once its pipeline is found, with a timer if a timer asks for it,
it does not fail for want of either (`gives_of_schedule`), unless a collaborator answers so.
-/

namespace BuildScheduling

/-- Says that a pipeline is not there, or that it has no timer. -/
def Failure.Missing : Failure → Prop
  | pipelineNotFound _ | noTimer _ => True
  | _ => False

/-- Some question is answered with a failure, in some world. -/
inductive Collaborators.Gives {σ : Type} (collab : Collaborators σ) (failure : Failure) : Prop
  | latestRevisions (material : Fingerprint) (w : σ)
      (h : (collab.latestRevisions material w).1.answer = .error failure)
  | pollNow (m : Material) (w : σ) (h : (collab.pollNow m w).1.answer = .error failure)
  | changedSinceLastBuild (pipeline : PipelineName) (material : Fingerprint) (w : σ)
      (h : (collab.changedSinceLastBuild pipeline material w).1.answer = .error failure)
  | stageRuns (pipeline : PipelineName) (stage : StageName) (w : σ)
      (h : (collab.stageRuns pipeline stage w).1.answer = .error failure)
  | hasUnfinishedInstance (pipeline : PipelineName) (w : σ)
      (h : (collab.hasUnfinishedInstance pipeline w).1.answer = .error failure)

theorem Call.answer_of_map {σ α β : Type} {f : α → β} {call : Call σ α} {w : σ} {failure : Failure}
    (h : (call.map f w).1.answer = .error failure) : (call w).1.answer = .error failure := by
  simp only [Call.map, Reply.map] at h
  cases hanswer : (call w).1.answer <;> rw [hanswer] at h <;> cases h
  rfl

theorem Collaborators.gives_of_reportOn {σ : Type} {collab : Collaborators σ} {snapshot : Snapshot} {m : Material}
    {w : σ} {failure : Failure} (h : (collab.reportOn snapshot m w).1.answer = .error failure) :
    collab.Gives failure := by
  cases hdependency : m.dependency? with
  | some named =>
    rw [reportOn, hdependency] at h
    exact .stageRuns _ _ w (Call.answer_of_map h)
  | none =>
    rw [reportOn, hdependency] at h
    have hanswer := Call.answer_of_map h
    split at hanswer
    · exact .latestRevisions _ w hanswer
    · exact .pollNow _ w hanswer

/-- Collaborators in memory know nothing of pipelines and timers. -/
theorem InMemory.not_gives_missing {failure : Failure} (h : collaborators.Gives failure) : ¬ failure.Missing := by
  have hpolled : ∀ {α : Type} {w : InMemory} {a : α}, (w.polled a).answer = .error failure → ¬ failure.Missing := by
    intro α w a hanswer
    unfold polled at hanswer
    split at hanswer <;> cases hanswer
    exact fun hmissing => hmissing
  have hserved : ∀ {α : Type} {w : InMemory} {call : OutageCall} (reason : String → Failure) {a : α},
      (∀ message, ¬ (reason message).Missing) → (w.served call reason a).answer = .error failure →
      ¬ failure.Missing := by
    intro α w call reason a hreason hanswer
    unfold served at hanswer
    split at hanswer <;> cases hanswer
    exact hreason _
  cases h with
  | latestRevisions material w h => exact hpolled h
  | pollNow m w h => exact hpolled h
  | changedSinceLastBuild pipeline material w h => exact hpolled h
  | stageRuns pipeline stage w h => exact hserved .resolution (fun _ hmissing => hmissing) h
  | hasUnfinishedInstance pipeline w h => exact hserved .internal (fun _ hmissing => hmissing) h

namespace Attempt

variable {σ α β : Type} {P : Failure → Prop}

/-- All failures that a computation can end with meet a condition. -/
def FailsOnly (P : Failure → Prop) (x : Attempt σ α) : Prop :=
  ∀ progress failure, (x.on progress).1 = .error (.failed failure) → P failure

theorem failsOnly_pure (a : α) : FailsOnly P (pure a : Attempt σ α) := by
  intro progress failure h
  cases h

theorem failsOnly_fail {failure : Failure} (h : P failure) : FailsOnly P (fail failure : Attempt σ α) := by
  intro progress other hother
  cases hother
  exact h

theorem FailsOnly.bind {x : Attempt σ α} {f : α → Attempt σ β} (hx : FailsOnly P x)
    (hf : ∀ a, FailsOnly P (f a)) : FailsOnly P (x >>= f) := by
  intro progress failure h
  rw [on_bind] at h
  rcases hanswer : x.on progress with ⟨interruption | a, mid⟩ <;> rw [hanswer] at h
  · cases h
    exact hx progress failure (congrArg Prod.fst hanswer)
  · exact hf a mid failure h

theorem FailsOnly.mapM {f : α → Attempt σ β} (hf : ∀ a, FailsOnly P (f a)) (items : List α) :
    FailsOnly P (items.mapM f) := by
  induction items with
  | nil => exact failsOnly_pure []
  | cons a rest ih =>
    rw [List.mapM_cons]
    exact (hf a).bind fun _ => ih.bind fun _ => failsOnly_pure _

theorem failsOnly_ask (limit : Option Nat) {call : Call σ α}
    (hcall : ∀ w failure, (call w).1.answer = .error failure → P failure) : FailsOnly P (ask limit call) := by
  intro progress failure h
  rw [on_ask_eq] at h
  split at h
  · cases h
  · refine hcall progress.world failure ?_
    cases hanswer : (call progress.world).1.answer <;> rw [hanswer] at h <;> cases h
    rfl

section

variable {collab : Collaborators σ} (limit : Option Nat) (snapshot : Snapshot)
  (hgiven : ∀ failure, collab.Gives failure → P failure)
  (hrevision : ∀ material revision, P (.revisionNotFound material revision))
  (hmaterial : ∀ pipeline material, P (.materialNotFound pipeline material))

include hgiven

theorem failsOnly_answerFor (p : Pipeline) (m : Material) (revision : Option Revision) :
    FailsOnly P (answerFor collab limit p m revision) := by
  cases revision with
  | none => exact failsOnly_pure _
  | some revision =>
    exact (failsOnly_ask limit fun w failure h => hgiven failure (.changedSinceLastBuild _ _ w h)).bind fun _ =>
      failsOnly_pure _

include hrevision

theorem failsOnly_resolveMaterial (p : Pipeline) (overrides : Overrides) (m : Material) :
    FailsOnly P (resolveMaterial collab limit snapshot p overrides m) := by
  rw [resolveMaterial_eq]
  refine (failsOnly_ask limit fun w failure h => hgiven failure (Collaborators.gives_of_reportOn h)).bind
    fun report => ?_
  unfold settle
  split
  · split
    · exact failsOnly_answerFor limit hgiven p m _
    · exact failsOnly_fail (hrevision _ _)
  · exact FailsOnly.bind (fun _ _ h => nomatch h) fun _ => failsOnly_answerFor limit hgiven p m _

include hmaterial

theorem failsOnly_decide (debounce : TimerDebounce) (p : Pipeline) (event : TriggerEvent) :
    FailsOnly P (decide collab limit snapshot debounce p event) := by
  have hheld : FailsOnly P (isHeld collab limit p) := by
    unfold isHeld
    split
    · exact failsOnly_ask limit fun w failure h => hgiven failure (.hasUnfinishedInstance _ w h)
    · exact failsOnly_pure false
  have hresolve : FailsOnly P (resolve collab limit snapshot p event.overrides) := by
    cases hkey : event.overrides.unknownKey? p with
    | some key =>
      rw [resolve_of_unknownKey hkey]
      exact failsOnly_fail (hmaterial _ _)
    | none =>
      rw [resolve_of_known hkey]
      exact (FailsOnly.mapM (failsOnly_resolveMaterial limit snapshot hgiven hrevision p _) _).bind fun answers =>
        failsOnly_pure _
  refine hheld.bind fun held => ?_
  split
  · exact failsOnly_pure _
  · refine hresolve.bind fun resolution => ?_
    cases resolution <;> exact failsOnly_pure _

end

end Attempt

namespace Session

variable {σ : Type} {collab : Collaborators σ} {s : Session σ}

theorem gives_of_attempt {p : Pipeline} {event : TriggerEvent} {failure : Failure}
    (h : (s.attempt collab p event).1 = .error failure) (hmissing : failure.Missing) : collab.Gives failure := by
  have hdecision := Attempt.failsOnly_decide (P := fun failure => failure.Missing → collab.Gives failure)
    (some (s.engine.settings.resolutionTimeout.toNat * 1000)) s.engine.snapshot (fun _ hgiven _ => hgiven)
    (fun _ _ hnot => hnot.elim) (fun _ _ hnot => hnot.elim) s.engine.debounce p event s.progress
  rw [attempt_eq, perform_eq] at h
  rcases hanswer : (s.decision collab p event).on s.progress with ⟨interruption | outcome, last⟩
  · simp only [hanswer] at h
    obtain rfl := Except.error.inj h
    cases interruption with
    | failed failure => exact hdecision failure (congrArg Prod.fst hanswer) hmissing
    | timedOut => exact hmissing.elim
  · simp only [hanswer, conclude] at h
    split at h
    · cases h
    · split at h <;> cases h
      exact hmissing.elim

/-- An attempt on a pipeline that is found, with a timer if a timer asks for it, does not say that either is
missing, unless a collaborator does. -/
theorem gives_of_schedule {name : PipelineName} {event : TriggerEvent} {p : Pipeline} {failure : Failure}
    (hp : s.engine.snapshot.pipeline? name = some p) (htimer : event.kind = .timer → p.timer ≠ none)
    (h : (s.schedule collab name event).1 = .error failure) (hmissing : failure.Missing) : collab.Gives failure := by
  rw [schedule_of_declared collab hp, if_neg (not_untimed htimer)] at h
  split at h
  · cases h
    exact hmissing.elim
  · split at h
    · cases h
    · exact gives_of_attempt h hmissing

end Session

end BuildScheduling
