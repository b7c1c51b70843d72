import BuildScheduling.Proofs.Engine.History

/-!
# What a single deed does

`effect_next` says once, case by case, what a single thing that happens does to the snapshot, the queue and
the memory of the timers; every law about these three is a case analysis over `Session.Effect`. Only an
attempt that ends with a cause, an accepted configuration and a consumer of the queue change any of them.
-/

namespace BuildScheduling.Session

variable {σ χ : Type} {collab : Collaborators σ} {env : Environment σ χ}

/-! ### Changes -/

/-- Nothing but the health log, the locks, the latest known revisions and the world differs. -/
structure Quiet (s s' : Session σ) : Prop where
  snapshot : s'.engine.snapshot = s.engine.snapshot
  queue : s'.engine.queue = s.engine.queue
  debounce : s'.engine.debounce = s.engine.debounce

/-- A cause waits for a pipeline, and a timer remembers what it fired with. -/
structure Queued (s s' : Session σ) (p : Pipeline) (kind : TriggerKind) (cause : BuildCause) : Prop where
  snapshot : s'.engine.snapshot = s.engine.snapshot
  queue : s'.engine.queue = s.engine.queue.enqueue p.name cause
  debounce : s'.engine.debounce =
    if kind = .timer then s.engine.debounce.record p.name cause else s.engine.debounce

/-- Another snapshot is in effect, and the timers have forgotten the pipelines that are gone. -/
structure Published (s s' : Session σ) (published : Snapshot) : Prop where
  snapshot : s'.engine.snapshot = published
  queue : s'.engine.queue = s.engine.queue
  debounce : s'.engine.debounce = s.engine.debounce.filterKeys fun name =>
    !s.engine.snapshot.pipelineNames.contains name || published.declares name

/-- A cause waits for the pipeline that was asked for by a user. -/
def ForcedPending (s : Session σ) (name : PipelineName) : Prop :=
  (s.engine.queue.pending name).any BuildCause.isForced = true

instance (s : Session σ) (name : PipelineName) : Decidable (s.ForcedPending name) :=
  inferInstanceAs (Decidable (_ = true))

theorem Quiet.refl (s : Session σ) : Quiet s s := ⟨rfl, rfl, rfl⟩

theorem Quiet.trans {s t u : Session σ} (h : Quiet s t) (h' : Quiet t u) : Quiet s u :=
  ⟨h'.snapshot.trans h.snapshot, h'.queue.trans h.queue, h'.debounce.trans h.debounce⟩

theorem quiet_report (s : Session σ) (r : HealthReport) : Quiet s (s.report collab r) := by
  unfold report
  split
  · exact .refl s
  · exact ⟨rfl, rfl, rfl⟩

theorem quiet_clearHealth (s : Session σ) (scope : HealthScope) :
    Quiet s (s.clearHealth collab scope) := by
  unfold clearHealth
  split
  · exact .refl s
  · exact ⟨rfl, rfl, rfl⟩

theorem quiet_perform {α : Type} (s : Session σ) (attempt : Attempt σ α) :
    Quiet s (s.perform attempt).2 := ⟨rfl, rfl, rfl⟩

theorem quiet_reports (s : Session σ) (errors : List ConfigError) :
    Quiet s (errors.foldl (fun s e =>
      s.report collab { scope := .configuration, level := .error, message := e.text }) s) := by
  induction errors generalizing s with
  | nil => exact .refl s
  | cons e rest ih => exact (quiet_report s _).trans (ih _)

theorem Queued.of_quiet {s t u : Session σ} {p : Pipeline} {kind : TriggerKind} {cause : BuildCause}
    (h : Quiet s t) (h' : Queued t u p kind cause) : Queued s u p kind cause := by
  refine ⟨h'.snapshot.trans h.snapshot, ?_, ?_⟩
  · rw [h'.queue, h.queue]
  · rw [h'.debounce, h.debounce]

/-- The cause waits under every spelling of the pipeline's name, and under no other name. -/
theorem Queued.pending {s s' : Session σ} {p : Pipeline} {kind : TriggerKind} {cause : BuildCause}
    (h : Queued s s' p kind cause) (name : PipelineName) :
    s'.engine.queue.pending name =
      if name.same p.name then some cause else s.engine.queue.pending name := by
  rw [h.queue, ScheduleQueue.pending_enqueue]

theorem Queued.pending_of_same {s s' : Session σ} {p : Pipeline} {kind : TriggerKind} {cause : BuildCause}
    {name : PipelineName} (h : Queued s s' p kind cause) (hsame : p.name.same name = true) :
    s'.engine.queue.pending name = some cause := by
  rw [Name.same_comm] at hsame
  rw [h.pending, if_pos hsame]

theorem Queued.get?_debounce {s s' : Session σ} {p : Pipeline} {kind : TriggerKind} {cause : BuildCause}
    (h : Queued s s' p kind cause) (name : PipelineName) :
    s'.engine.debounce.get? name =
      if kind = .timer ∧ name.same p.name = true then some (revisionSet cause.materialRevisions)
      else s.engine.debounce.get? name := by
  rw [h.debounce]
  by_cases hkind : kind = .timer
  · rw [if_pos hkind, TimerDebounce.get?_record]
    simp [hkind]
  · rw [if_neg hkind, if_neg fun hboth => hkind hboth.1]

/-! ### Attempts -/

theorem queued_accept (s : Session σ) (p : Pipeline) (kind : TriggerKind) (cause : BuildCause) :
    Queued s (s.accept collab p.name kind cause) p kind cause := by
  let recorded := s.withEngine fun e =>
    { e with
      queue := e.queue.enqueue p.name cause
      debounce := if kind = .timer then e.debounce.record p.name cause else e.debounce }
  have hclear : Quiet recorded (s.accept collab p.name kind cause) :=
    quiet_clearHealth recorded (.pipeline p.name)
  exact ⟨hclear.snapshot, hclear.queue, hclear.debounce⟩

/-- What an attempt on a pipeline asks the collaborators. -/
def decision (collab : Collaborators σ) (s : Session σ) (p : Pipeline) (event : TriggerEvent) :
    Attempt σ Outcome :=
  .decide collab (some (s.engine.settings.resolutionTimeout.toNat * 1000)) s.engine.snapshot
    s.engine.debounce p event

theorem attempt_eq (s : Session σ) (p : Pipeline) (event : TriggerEvent) :
    s.attempt collab p event =
      match (s.perform (s.decision collab p event)).1 with
      | .ok outcome => (s.perform (s.decision collab p event)).2.conclude collab p event.kind outcome
      | .error interruption =>
        let failure := failureOf s.engine.settings.resolutionTimeout.toNat interruption
        (.error failure, (s.perform (s.decision collab p event)).2.reportFailure collab p.name failure) :=
  rfl

/-- An attempt ends with a cause and queues it, or it ends without one and is quiet. -/
theorem attempt_cases (collab : Collaborators σ) (s : Session σ) (p : Pipeline) (event : TriggerEvent) :
    (∃ cause, (s.attempt collab p event).1 = .ok (.succeeded cause) ∧
      Queued s (s.attempt collab p event).2 p event.kind cause) ∨
    (∀ cause, (s.attempt collab p event).1 ≠ .ok (.succeeded cause)) ∧
      Quiet s (s.attempt collab p event).2 := by
  have hquiet := quiet_perform s (s.decision collab p event)
  rw [attempt_eq]
  generalize (s.perform (s.decision collab p event)).2 = t at hquiet ⊢
  cases (s.perform (s.decision collab p event)).1 with
  | error interruption => exact Or.inr ⟨by simp, hquiet.trans (quiet_report _ _)⟩
  | ok outcome =>
    cases outcome with
    | rejected rejection => exact Or.inr ⟨by simp [conclude], hquiet.trans (quiet_report _ _)⟩
    | succeeded cause =>
      simp only [conclude]
      split
      · exact Or.inr ⟨by simp, hquiet⟩
      · exact Or.inl ⟨cause, rfl, .of_quiet hquiet (queued_accept t p event.kind cause)⟩

/-- The same for an attempt on any name: only one on a declared pipeline that no forced cause waits for can
end with a cause. -/
theorem schedule_cases (collab : Collaborators σ) (s : Session σ) (name : PipelineName)
    (event : TriggerEvent) :
    (∃ p cause, s.engine.snapshot.pipeline? name = some p ∧ ¬ s.ForcedPending p.name ∧
      (s.schedule collab name event).1 = .ok (.succeeded cause) ∧
      Queued s (s.schedule collab name event).2 p event.kind cause) ∨
    (∀ cause, (s.schedule collab name event).1 ≠ .ok (.succeeded cause)) ∧
      Quiet s (s.schedule collab name event).2 := by
  unfold schedule
  cases hp : s.engine.snapshot.pipeline? name with
  | none => exact Or.inr ⟨by simp, .refl s⟩
  | some p =>
    simp only
    generalize hlocked : s.withEngine _ = locked
    have hquiet : Quiet s locked := by
      subst hlocked
      exact ⟨rfl, rfl, rfl⟩
    split
    · exact Or.inr ⟨by simp, hquiet⟩
    · split
      · exact Or.inr ⟨by simp, hquiet⟩
      · split
        · exact Or.inr ⟨by simp, hquiet.trans (quiet_report _ _)⟩
        · next hfree =>
          rcases locked.attempt_cases collab p event with ⟨cause, hanswer, hqueued⟩ | h
          · refine Or.inl ⟨p, cause, rfl, ?_, hanswer, .of_quiet hquiet hqueued⟩
            rwa [ForcedPending, ← hquiet.queue]
          · exact Or.inr ⟨h.1, hquiet.trans h.2⟩

/-- An attempt that ends with a cause queues it for the declared pipeline, that no forced cause waits for. -/
theorem queued_of_succeeded {s : Session σ} {name : PipelineName} {event : TriggerEvent} {cause : BuildCause}
    (h : (s.schedule collab name event).1 = .ok (.succeeded cause)) :
    ∃ p, s.engine.snapshot.pipeline? name = some p ∧ ¬ s.ForcedPending p.name ∧
      Queued s (s.schedule collab name event).2 p event.kind cause := by
  rcases s.schedule_cases collab name event with ⟨p, another, hp, hfree, hanswer, hqueued⟩ | ⟨hnone, -⟩
  · rw [h] at hanswer
    cases hanswer
    exact ⟨p, hp, hfree, hqueued⟩
  · exact absurd h (hnone cause)

/-! ### Configurations -/

theorem published_publish (s : Session σ) (snapshot : Snapshot) :
    Published s (s.publish collab snapshot) snapshot := by
  unfold publish
  have hclear : ∀ t : Session σ, Quiet t (t.clearHealth collab .configuration) :=
    fun t => quiet_clearHealth t .configuration
  exact ⟨(hclear _).snapshot, (hclear _).queue, (hclear _).debounce⟩

theorem reload_of_build {s : Session σ} {c : Configuration} {snapshot : Snapshot}
    (h : Snapshot.build c (s.engine.snapshot.version + 1) = .ok snapshot) :
    s.reload collab c = (.ok snapshot, s.publish collab snapshot) := by
  rw [reload, h]

/-- A configuration that can be built is published; any other is refused, quietly. -/
theorem reload_cases (collab : Collaborators σ) (s : Session σ) (c : Configuration) :
    (∃ snapshot, Snapshot.build c (s.engine.snapshot.version + 1) = .ok snapshot ∧
      (s.reload collab c).1 = .ok snapshot ∧ Published s (s.reload collab c).2 snapshot) ∨
    ∃ errors, Snapshot.build c (s.engine.snapshot.version + 1) = .error errors ∧
      (s.reload collab c).1 = .error (.configuration errors) ∧ Quiet s (s.reload collab c).2 := by
  unfold reload
  cases hbuild : Snapshot.build c (s.engine.snapshot.version + 1) with
  | ok snapshot => exact Or.inl ⟨snapshot, rfl, rfl, published_publish s snapshot⟩
  | error errors => exact Or.inr ⟨errors, rfl, rfl, quiet_reports s errors⟩

/-! ### All deeds -/

/-- What a single thing that happens does. -/
inductive Effect (env : Environment σ χ) (s : Session σ) : Happening χ → Session σ → Prop
  | queued (name : PipelineName) (event : TriggerEvent) (p : Pipeline) (cause : BuildCause)
      (s' : Session σ) (hp : s.engine.snapshot.pipeline? name = some p)
      (hfree : ¬ s.ForcedPending p.name)
      (hanswer : (s.schedule env.collab name event).1 = .ok (.succeeded cause))
      (hqueued : Queued s s' p event.kind cause) : Effect env s (.request (.attempt name event)) s'
  | unanswered (name : PipelineName) (event : TriggerEvent) (s' : Session σ)
      (hanswer : ∀ cause, (s.schedule env.collab name event).1 ≠ .ok (.succeeded cause))
      (hquiet : Quiet s s') : Effect env s (.request (.attempt name event)) s'
  | published (c : Configuration) (snapshot : Snapshot) (s' : Session σ)
      (hbuild : Snapshot.build c (s.engine.snapshot.version + 1) = .ok snapshot)
      (hanswer : (s.reload env.collab c).1 = .ok snapshot)
      (hpublished : Published s s' snapshot) : Effect env s (.request (.reload c)) s'
  | refused (c : Configuration) (errors : List ConfigError) (s' : Session σ)
      (hanswer : (s.reload env.collab c).1 = .error (.configuration errors))
      (hquiet : Quiet s s') : Effect env s (.request (.reload c)) s'
  | finished (name : PipelineName) : Effect env s (.consume (.finish name))
      (s.withEngine fun e => { e with queue := e.queue.erase name })
  | cleared : Effect env s (.consume .clearQueue) (s.withEngine fun e => { e with queue := ∅ })
  | idle (h : Happening χ) (s' : Session σ)
      (hattempt : ∀ name event, h ≠ .request (.attempt name event))
      (hreload : ∀ c, h ≠ .request (.reload c)) (hquiet : Quiet s s') : Effect env s h s'

/-- Only a configuration that can be built replaces the snapshot in effect. -/
theorem Effect.snapshot_cases {s s' : Session σ} {h : Happening χ} (heffect : Effect env s h s') :
    s'.engine.snapshot = s.engine.snapshot ∨
      ∃ c, h = .request (.reload c) ∧
        Snapshot.build c (s.engine.snapshot.version + 1) = .ok s'.engine.snapshot := by
  cases heffect with
  | queued name event p cause _ hp hfree hanswer hqueued => exact Or.inl hqueued.snapshot
  | unanswered name event _ hanswer hquiet => exact Or.inl hquiet.snapshot
  | published c snapshot _ hbuild hanswer hpublished =>
    rw [← hpublished.snapshot] at hbuild
    exact Or.inr ⟨c, rfl, hbuild⟩
  | refused c errors _ hanswer hquiet => exact Or.inl hquiet.snapshot
  | finished name => exact Or.inl rfl
  | cleared => exact Or.inl rfl
  | idle _ _ hattempt hreload hquiet => exact Or.inl hquiet.snapshot

theorem effect_next (env : Environment σ χ) (s : Session σ) {h : Happening χ} (hsingle : h.Single) :
    Effect env s h (s.next env h).2 := by
  cases h with
  | world change => exact .idle _ _ (by simp) (by simp) ⟨rfl, rfl, rfl⟩
  | consume consumption =>
    cases consumption with
    | finish name => exact .finished name
    | clearQueue => exact .cleared
    | report r => exact .idle _ _ (by simp) (by simp) ⟨rfl, rfl, rfl⟩
    | clearHealth scope => exact .idle _ _ (by simp) (by simp) ⟨rfl, rfl, rfl⟩
    | queued _ | healthFor _ | status => exact .idle _ _ (by simp) (by simp) (.refl s)
  | request request =>
    cases request with
    | attempt name event =>
      rcases s.schedule_cases env.collab name event with
        ⟨p, cause, hp, hfree, hanswer, hqueued⟩ | ⟨hanswer, hquiet⟩
      · exact .queued name event p cause _ hp hfree hanswer hqueued
      · exact .unanswered name event _ hanswer hquiet
    | reload c =>
      rcases s.reload_cases env.collab c with
        ⟨snapshot, hbuild, hanswer, hpublished⟩ | ⟨errors, hbuild, hanswer, hquiet⟩
      · exact .published c snapshot _ hbuild hanswer hpublished
      · exact .refused c errors _ hanswer hquiet
    | postCommit url => exact hsingle.elim
    | tick after latest => exact hsingle.elim
    | follow configurations => exact hsingle.elim
    | latest m =>
      exact .idle _ _ (by simp) (by simp)
        (quiet_perform s (.latest env.collab none s.engine.snapshot m))
    | resolve name overrides =>
      refine .idle _ _ (by simp) (by simp) ?_
      simp only [next, Session.request, resolve]
      split
      · exact .refl s
      · exact quiet_perform s _
    | due _ _ | snapshot | settings | latestKnown _ =>
      exact .idle _ _ (by simp) (by simp) (.refl s)

end BuildScheduling.Session
