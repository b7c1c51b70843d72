import BuildScheduling.Proofs.Engine.Attempt
import BuildScheduling.Proofs.Engine.Effect

/-!
# What an attempt on a name answers

`schedule` in terms of the decision that it performs: `schedule_ok` says where an outcome comes from, and
`schedule_rejected_iff` what rejects an attempt that finds its revisions.
-/

namespace BuildScheduling

instance decidableEqExcept {ε α : Type} [DecidableEq ε] [DecidableEq α] : DecidableEq (Except ε α)
  | .error e, .error e' => decidable_of_iff (e = e') (by simp)
  | .ok a, .ok a' => decidable_of_iff (a = a') (by simp)
  | .error _, .ok _ => isFalse (by simp)
  | .ok _, .error _ => isFalse (by simp)

namespace Session

variable {σ : Type} {collab : Collaborators σ}

/-- The progress that an attempt starts from. -/
def progress (s : Session σ) : Progress σ := { world := s.world, known := s.engine.known }

theorem perform_eq {α : Type} (s : Session σ) (x : Attempt σ α) :
    s.perform x = ((x.on s.progress).1,
      { engine := { s.engine with known := (x.on s.progress).2.known }
        world := (x.on s.progress).2.world }) := rfl

/-- The session with a lock for a pipeline. -/
def lock (s : Session σ) (name : PipelineName) : Session σ :=
  s.withEngine fun e => { e with locks := e.locks.insertNew name () }

theorem same_of_pipeline? {s : Snapshot} {name : PipelineName} {p : Pipeline}
    (h : s.pipeline? name = some p) : p.name.same name = true := by
  rw [s.pipeline?_eq_find?] at h
  exact List.find?_some (p := fun p : Pipeline => p.name.same name) h

theorem mem_of_pipeline? {s : Snapshot} {name : PipelineName} {p : Pipeline}
    (h : s.pipeline? name = some p) : p ∈ s.pipelines := by
  rw [s.pipeline?_eq_find?] at h
  exact List.mem_of_find?_eq_some h

theorem forcedPending_congr (s : Session σ) {a b : PipelineName} (h : a.same b = true) :
    s.ForcedPending a ↔ s.ForcedPending b := by
  rw [ForcedPending, ForcedPending, ScheduleQueue.pending_congr _ h]

/-! ### Attempts that get to their decision -/

theorem not_untimed {event : TriggerEvent} {p : Pipeline} (htimer : event.kind = .timer → p.timer ≠ none) :
    ¬ (event.kind = .timer ∧ p.timer.isNone = true) := by
  intro ⟨hkind, hnone⟩
  exact htimer hkind (Option.isNone_iff_eq_none.mp hnone)

/-- An attempt on a declared pipeline, step by step. -/
theorem schedule_of_declared (collab : Collaborators σ) {s : Session σ} {name : PipelineName} {p : Pipeline}
    (hp : s.engine.snapshot.pipeline? name = some p) (event : TriggerEvent) :
    s.schedule collab name event =
      if event.kind = .timer ∧ p.timer.isNone then (.error (.noTimer p.name), s.lock name)
      else
        match collab.pendingOutage s.world with
        | some message => (.error (.queue message), s.lock name)
        | none =>
          if s.ForcedPending p.name then
            (.ok (.rejected .alreadyScheduled),
              (s.lock name).reportRejection collab p.name .alreadyScheduled)
          else (s.lock name).attempt collab p event := by
  simp only [schedule, hp]
  rfl

/-- An attempt on a declared pipeline, with a timer if a timer asks for it, is decided when the queue can be
looked into and no forced cause waits. -/
theorem schedule_eq_attempt {s : Session σ} {name : PipelineName} {event : TriggerEvent} {p : Pipeline}
    (hp : s.engine.snapshot.pipeline? name = some p) (htimer : event.kind = .timer → p.timer ≠ none)
    (hqueue : collab.pendingOutage s.world = none) (hfree : ¬ s.ForcedPending p.name) :
    s.schedule collab name event = (s.lock name).attempt collab p event := by
  simp only [schedule_of_declared collab hp, if_neg (not_untimed htimer), hqueue, if_neg hfree]

/-- The lock is no part of what an attempt is decided by. -/
theorem lock_decision (s : Session σ) (name : PipelineName) (p : Pipeline) (event : TriggerEvent) :
    ((s.lock name).decision collab p event).on (s.lock name).progress =
      (s.decision collab p event).on s.progress := rfl

/-- An attempt answers with its decision, unless it broke off or the queue takes no cause. -/
theorem attempt_ok_iff {s : Session σ} {p : Pipeline} {event : TriggerEvent} {outcome : Outcome} :
    (s.attempt collab p event).1 = .ok outcome ↔
      ∃ last, (s.decision collab p event).on s.progress = (.ok outcome, last) ∧
        (outcome.isSucceeded = true → collab.enqueueOutage last.world = none) := by
  rw [attempt_eq, perform_eq]
  rcases (s.decision collab p event).on s.progress with ⟨_ | cause | rejection, last⟩
  · simp
  · cases hqueue : collab.enqueueOutage last.world with
    | none =>
      simp only [conclude, hqueue]
      constructor
      · rintro ⟨⟩
        exact ⟨last, rfl, fun _ => hqueue⟩
      · rintro ⟨_, ⟨⟩, -⟩
        rfl
    | some message =>
      simp only [conclude, hqueue, reduceCtorEq, false_iff, not_exists, not_and]
      rintro _ ⟨⟩ h
      simp [hqueue, Outcome.isSucceeded] at h
  · simp only [conclude]
    constructor
    · rintro ⟨⟩
      exact ⟨last, rfl, by simp [Outcome.isSucceeded]⟩
    · rintro ⟨_, ⟨⟩, -⟩
      rfl

/-- Where an outcome comes from: the attempt got past its timer and the queue, and a forced cause waited or the
decision was made. -/
theorem schedule_ok_cases {s : Session σ} {name : PipelineName} {event : TriggerEvent} {outcome : Outcome}
    (h : (s.schedule collab name event).1 = .ok outcome) :
    ∃ p, s.engine.snapshot.pipeline? name = some p ∧ (event.kind = .timer → p.timer ≠ none) ∧
      collab.pendingOutage s.world = none ∧
      (s.ForcedPending p.name ∧ outcome = .rejected .alreadyScheduled ∨
        ¬ s.ForcedPending p.name ∧ ((s.decision collab p event).on s.progress).1 = .ok outcome) := by
  cases hp : s.engine.snapshot.pipeline? name with
  | none =>
    simp only [schedule, hp] at h
    cases h
  | some p =>
    rw [schedule_of_declared collab hp] at h
    split at h
    · cases h
    next htimer =>
    have htimed : event.kind = .timer → p.timer ≠ none := fun hkind hnone =>
      htimer ⟨hkind, Option.isNone_iff_eq_none.mpr hnone⟩
    split at h
    · cases h
    next hqueue =>
    refine ⟨p, rfl, htimed, hqueue, ?_⟩
    split at h
    · next hforced =>
      cases h
      exact Or.inl ⟨hforced, rfl⟩
    · next hfree =>
      obtain ⟨last, hdecision, -⟩ := attempt_ok_iff.mp h
      rw [lock_decision] at hdecision
      exact Or.inr ⟨hfree, congrArg Prod.fst hdecision⟩

/-- An outcome is that of a waiting forced cause, or that of the decision. -/
theorem schedule_ok {s : Session σ} {name : PipelineName} {event : TriggerEvent} {outcome : Outcome}
    (h : (s.schedule collab name event).1 = .ok outcome) :
    ∃ p, s.engine.snapshot.pipeline? name = some p ∧
      (outcome = .rejected .alreadyScheduled ∨
        ((s.decision collab p event).on s.progress).1 = .ok outcome) := by
  obtain ⟨p, hp, -, -, hcause⟩ := schedule_ok_cases h
  exact ⟨p, hp, hcause.imp And.right And.right⟩

/-- An outcome other than that of a waiting forced cause is the decision of an attempt that got to it. -/
theorem schedule_ok_decided {s : Session σ} {name : PipelineName} {event : TriggerEvent} {outcome : Outcome}
    (h : (s.schedule collab name event).1 = .ok outcome) (hother : outcome ≠ .rejected .alreadyScheduled) :
    ∃ p, s.engine.snapshot.pipeline? name = some p ∧ (event.kind = .timer → p.timer ≠ none) ∧
      collab.pendingOutage s.world = none ∧ ¬ s.ForcedPending p.name ∧
      ((s.decision collab p event).on s.progress).1 = .ok outcome := by
  obtain ⟨p, hp, htimed, hqueue, ⟨-, hforced⟩ | ⟨hfree, hdecision⟩⟩ := schedule_ok_cases h
  · exact absurd hforced hother
  · exact ⟨p, hp, htimed, hqueue, hfree, hdecision⟩

/-- The cause of an attempt says what triggered it. -/
theorem trigger_of_succeeded {s : Session σ} {name : PipelineName} {event : TriggerEvent} {cause : BuildCause}
    (h : (s.schedule collab name event).1 = .ok (.succeeded cause)) : cause.trigger = event.kind := by
  obtain ⟨p, -, -, -, -, hdecision⟩ := schedule_ok_decided h (by simp)
  rcases Attempt.decide_ok hdecision with hcause | ⟨_, hcause⟩ | ⟨revisions, -, hcause⟩
  · cases hcause
  · cases hcause
  · exact (cause_of_decideRevisions hcause.symm).2

/-- What rejects an attempt that finds its revisions is what the event makes of them. -/
theorem schedule_rejected_iff {s : Session σ} {name : PipelineName} {event : TriggerEvent} {p : Pipeline}
    {revisions : List MaterialRevision} {rejection : Rejection}
    (hp : s.engine.snapshot.pipeline? name = some p) (htimer : event.kind = .timer → p.timer ≠ none)
    (hqueue : collab.pendingOutage s.world = none) (hfree : ¬ s.ForcedPending p.name)
    (hresolves : Attempt.Resolves collab (some (s.engine.settings.resolutionTimeout.toNat * 1000))
      s.engine.snapshot p event.overrides s.progress revisions) :
    (s.schedule collab name event).1 = .ok (.rejected rejection) ↔
      decideRevisions s.engine.debounce p event revisions = .rejected rejection := by
  have hdecision : ((s.decision collab p event).on s.progress).1 =
      .ok (decideRevisions s.engine.debounce p event revisions) := Attempt.decide_of_resolves hresolves
  rw [schedule_eq_attempt hp htimer hqueue hfree, attempt_ok_iff, lock_decision]
  constructor
  · rintro ⟨last, hanswer, -⟩
    rw [hanswer, Except.ok.injEq] at hdecision
    exact hdecision.symm
  · intro h
    refine ⟨((s.decision collab p event).on s.progress).2, ?_, by simp [Outcome.isSucceeded]⟩
    rw [← h, ← hdecision]

end Session

end BuildScheduling
