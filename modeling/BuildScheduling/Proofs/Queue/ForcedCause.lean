import BuildScheduling.Proofs.Engine.Answer
import BuildScheduling.Proofs.Snapshot.Reading

/-!
# A forced cause keeps its place

A cause that a user asked for waits until a consumer takes it: no attempt replaces it, and a configuration
does not touch the queue. Every attempt looks for it under the declared name of the pipeline, and names are
compared without their case, so the spelling of the attempt does not matter.

The step is `pending_next`: an attempt queues a cause only for a pipeline that no forced cause waits for, so
the cause of another pipeline it is. Meanwhile the attempts on the pipeline are turned away before they ask
anybody anything (`TurnedAway`).
-/

namespace BuildScheduling

variable {σ χ : Type} {collab : Collaborators σ} {env : Environment σ χ}

/-- Takes the cause that waits for a pipeline out of the queue. -/
def Happening.Takes (name : PipelineName) : Happening χ → Prop
  | .consume (.finish pipeline) => pipeline.same name = true
  | .consume .clearQueue => True
  | _ => False

/-- A part that takes a cause is all that happens. -/
theorem Happening.takes_of_mem_parts {s : Session σ} {name : PipelineName} {h part : Happening χ}
    (hpart : part ∈ s.parts h) (htakes : part.Takes name) : h.Takes name := by
  rcases Session.mem_parts_cases hpart with ⟨_, _, rfl⟩ | ⟨_, rfl, _, -, rfl⟩ | ⟨rfl, -⟩
  · exact htakes.elim
  · exact htakes.elim
  · exact htakes

namespace Session

/-- A cause waits for a pipeline, under every spelling of its name. -/
def Holds (s : Session σ) (name : PipelineName) (cause : BuildCause) : Prop :=
  ∀ spelling : PipelineName, spelling.same name = true → s.engine.queue.pending spelling = some cause

theorem holds_iff {s : Session σ} {name : PipelineName} {cause : BuildCause} :
    s.Holds name cause ↔ s.engine.queue.pending name = some cause := by
  constructor
  · exact fun h => h name (Name.same_refl name)
  · intro h spelling hsame
    rw [ScheduleQueue.pending_congr _ hsame, h]

theorem Holds.forcedPending {s : Session σ} {name spelling : PipelineName} {cause : BuildCause}
    (h : s.Holds name cause) (hforced : cause.isForced = true) (hsame : spelling.same name = true) :
    s.ForcedPending spelling := by
  rw [ForcedPending, h spelling hsame]
  exact hforced

/-! ### Attempts that are turned away -/

/-- An attempt that comes to nothing because a forced cause waits: it is answered at once, it leaves the
queue, the memory of the timers, the latest known revisions and the world as they are, and the collaborators
are not asked, since others would make no difference. Only a queue that cannot be looked into, or a health
sink that takes no report, shows. -/
structure TurnedAway (collab : Collaborators σ) (s : Session σ) (name : PipelineName)
    (event : TriggerEvent) : Prop where
  undeclared : s.engine.snapshot.pipeline? name = none →
    (s.schedule collab name event).1 = .error (.pipelineNotFound name)
  untimed : ∀ p, s.engine.snapshot.pipeline? name = some p → event.kind = .timer → p.timer = none →
    (s.schedule collab name event).1 = .error (.noTimer p.name)
  scheduled : ∀ p, s.engine.snapshot.pipeline? name = some p →
    (event.kind = .timer → p.timer ≠ none) →
    (s.schedule collab name event).1 =
      match collab.pendingOutage s.world with
      | none => .ok (.rejected .alreadyScheduled)
      | some message => .error (.queue message)
  quiet : Quiet s (s.schedule collab name event).2
  known : (s.schedule collab name event).2.engine.known = s.engine.known
  world : (s.schedule collab name event).2.world = s.world
  unasked : ∀ other : Collaborators σ, other.pendingOutage = collab.pendingOutage →
    other.reportOutage = collab.reportOutage →
    s.schedule other name event = s.schedule collab name event

/-- All that an attempt does while a forced cause waits. -/
theorem schedule_of_forcedPending (collab : Collaborators σ) {s : Session σ} {name : PipelineName}
    (event : TriggerEvent) (hforced : s.ForcedPending name) :
    s.schedule collab name event =
      match s.engine.snapshot.pipeline? name with
      | none => (.error (.pipelineNotFound name), s)
      | some p =>
        if event.kind = .timer ∧ p.timer.isNone then (.error (.noTimer p.name), s.lock name)
        else
          match collab.pendingOutage s.world with
          | some message => (.error (.queue message), s.lock name)
          | none =>
            (.ok (.rejected .alreadyScheduled),
              (s.lock name).reportRejection collab p.name .alreadyScheduled) := by
  cases hp : s.engine.snapshot.pipeline? name with
  | none => simp only [schedule, hp]
  | some p =>
    have hpending : s.ForcedPending p.name := (forcedPending_congr s (same_of_pipeline? hp)).mpr hforced
    have hschedule := schedule_of_declared collab hp event
    simp only [if_pos hpending] at hschedule
    exact hschedule

theorem report_cases (collab : Collaborators σ) (s : Session σ) (r : HealthReport) :
    s.report collab r = s ∨
      s.report collab r = s.withEngine fun e => { e with health := e.health.report r } := by
  unfold report
  split
  · exact Or.inl rfl
  · exact Or.inr rfl

/-- An attempt that is turned away leaves at most a lock and a report. -/
theorem frame_of_forcedPending (collab : Collaborators σ) {s : Session σ} {name : PipelineName}
    (event : TriggerEvent) (hforced : s.ForcedPending name) :
    Quiet s (s.schedule collab name event).2 ∧
      (s.schedule collab name event).2.engine.known = s.engine.known ∧
      (s.schedule collab name event).2.world = s.world := by
  have hlock : Quiet s (s.lock name) ∧ (s.lock name).engine.known = s.engine.known ∧
      (s.lock name).world = s.world := ⟨⟨rfl, rfl, rfl⟩, rfl, rfl⟩
  rw [schedule_of_forcedPending collab event hforced]
  split
  · exact ⟨.refl s, rfl, rfl⟩
  · split
    · exact hlock
    · split
      · exact hlock
      · rw [reportRejection]
        rcases report_cases collab (s.lock name) _ with h | h
        · rw [h]
          exact hlock
        · rw [h]
          exact ⟨⟨rfl, rfl, rfl⟩, rfl, rfl⟩

theorem turnedAway_of_forcedPending {s : Session σ} {name : PipelineName} (event : TriggerEvent)
    (hforced : s.ForcedPending name) : TurnedAway collab s name event := by
  have hschedule := fun collab : Collaborators σ => schedule_of_forcedPending collab event hforced
  obtain ⟨hquiet, hknown, hworld⟩ := frame_of_forcedPending collab event hforced
  refine ⟨fun hp => ?_, fun p hp htimer hnone => ?_, fun p hp htimer => ?_, hquiet, hknown, hworld,
    fun other hpending hreport => ?_⟩
  · simp [hschedule, hp]
  · simp [hschedule, hp, htimer, hnone]
  · rw [hschedule]
    simp only [hp, if_neg (not_untimed htimer)]
    cases collab.pendingOutage s.world <;> rfl
  · rw [hschedule, hschedule]
    simp only [hpending, reportRejection, report, hreport]

/-! ### Runs -/

/-- A single thing that does not take the forced cause of a pipeline leaves it waiting. -/
theorem holds_next {s : Session σ} {name : PipelineName} {cause : BuildCause} {h : Happening χ}
    (hsingle : h.Single) (huntaken : ¬ h.Takes name) (hforced : cause.isForced = true)
    (hs : s.Holds name cause) : (s.next env h).2.Holds name cause := by
  have heffect := effect_next env s hsingle
  generalize (s.next env h).2 = s' at heffect
  rw [holds_iff]
  have hpending := holds_iff.mp hs
  cases heffect with
  | queued other event p another _ hp hfree hanswer hqueued =>
    have hdiffer : ¬ name.same p.name = true := by
      intro hsame
      rw [Name.same_comm] at hsame
      exact hfree (hs.forcedPending hforced hsame)
    rw [hqueued.pending, if_neg hdiffer, hpending]
  | unanswered other event _ hanswer hquiet => rw [hquiet.queue, hpending]
  | published c snapshot _ hbuild hanswer hpublished => rw [hpublished.queue, hpending]
  | refused c errors _ hanswer hquiet => rw [hquiet.queue, hpending]
  | finished other =>
    have hdiffer : ¬ other.same name = true := huntaken
    show ScheduleQueue.pending (s.engine.queue.erase other) name = some cause
    rw [ScheduleQueue.pending_erase, if_neg hdiffer, hpending]
  | cleared => exact absurd trivial huntaken
  | idle _ _ hattempt hreload hquiet => rw [hquiet.queue, hpending]

/-- A forced cause waits until it is taken, and meanwhile every attempt on its pipeline is turned away. -/
theorem holds_run (env : Environment σ χ) {s : Session σ} {name : PipelineName} {cause : BuildCause}
    {happenings : List (Happening χ)} (huntaken : ∀ h ∈ happenings, ¬ h.Takes name)
    (hforced : cause.isForced = true) (hs : s.Holds name cause) :
    (∀ d ∈ s.history env happenings, d.before.Holds name cause) ∧
      (s.run env happenings).Holds name cause := by
  have hatoms : ∀ part ∈ s.atoms env happenings, part.Single ∧ ¬ part.Takes name := by
    intro part hpart
    refine ⟨single_of_mem_atoms hpart, fun htakes => ?_⟩
    obtain ⟨s', h, hh, hmem⟩ := exists_mem_parts_of_mem_atoms hpart
    exact huntaken h hh (Happening.takes_of_mem_parts hmem htakes)
  have hstep : ∀ (s : Session σ) (h : Happening χ), (h.Single ∧ ¬ h.Takes name) →
      s.Holds name cause → (s.next env h).2.Holds name cause :=
    fun _ _ hok hs => holds_next hok.1 hok.2 hforced hs
  rw [history, ← run_atoms s happenings]
  exact invariant_deeds hstep hs hatoms

/-- A manual attempt that succeeds queues a forced cause. -/
theorem holds_of_manual {s : Session σ} {name : PipelineName} {user : String} {overrides : Overrides}
    {cause : BuildCause}
    (h : (s.schedule collab name (.manual user overrides)).1 = .ok (.succeeded cause)) :
    cause.isForced = true ∧ (s.schedule collab name (.manual user overrides)).2.Holds name cause := by
  constructor
  · obtain ⟨p, -, hcause | hdecision⟩ := schedule_ok h
    · cases hcause
    · rcases Attempt.decide_ok hdecision with hcause | ⟨_, hcause⟩ | ⟨revisions, -, hcause⟩
      · cases hcause
      · cases hcause
      · cases hcause
        rfl
  · obtain ⟨p, hp, -, hqueued⟩ := queued_of_succeeded h
    exact holds_iff.mpr (hqueued.pending_of_same (same_of_pipeline? hp))

/-- Once a manual attempt on a pipeline has succeeded, its cause is a forced one and waits before every deed
of whatever comes after, and at the end, as long as nobody takes it; and every attempt on the pipeline is
turned away. -/
theorem forced_cause_waits_until_taken (env : Environment σ χ) (s : Session σ) (name : PipelineName)
    (user : String) (overrides : Overrides) (cause : BuildCause) (happenings : List (Happening χ))
    (hmanual : (s.schedule env.collab name (.manual user overrides)).1 = .ok (.succeeded cause))
    (huntaken : ∀ h ∈ happenings, ¬ h.Takes name) :
    let forced := (s.schedule env.collab name (.manual user overrides)).2
    cause.isForced = true ∧
    (∀ d ∈ forced.history env happenings, d.before.Holds name cause ∧
      ∀ spelling event, d.happening = .request (.attempt spelling event) → spelling.same name = true →
        TurnedAway env.collab d.before spelling event) ∧
    (forced.run env happenings).Holds name cause := by
  intro forced
  obtain ⟨hforced, hholds⟩ := holds_of_manual hmanual
  obtain ⟨hdeeds, hend⟩ := holds_run env huntaken hforced hholds
  refine ⟨hforced, fun d hd => ⟨hdeeds d hd, fun spelling event _ hsame => ?_⟩, hend⟩
  exact turnedAway_of_forcedPending event ((hdeeds d hd).forcedPending hforced hsame)

def appConfiguration : Configuration := { pipelines := [Samples.simple ⟨"app"⟩ (Samples.git "app")] }

def firstCheckIn : List Operation := [.world (.checkIn (Samples.git "app") (Samples.checkIn "r1" 0))]

/-- The pipeline `app` is in effect, and its repository has a check-in. -/
def checkedIn : Session InMemory := reading {} appConfiguration firstCheckIn

theorem checkedIn_eq : checkedIn = (published {} appConfiguration).run .inMemory firstCheckIn :=
  reading_eq (by decide +kernel) {} _

def checkedInCause : BuildCause := .ofUser [⟨Samples.git "app", Samples.checkIn "r1" 0, true⟩] "alice"

/-- Attempts of other kinds and spellings, configurations without and with `app`, and a consumer of another
pipeline. -/
def busyAroundApp : List Operation :=
  [.request (.attempt ⟨"APP"⟩ .auto), .request (.reload {}), .request (.attempt ⟨"app"⟩ .timer),
    .consume (.finish ⟨"lib"⟩), .request (.reload ⟨[Samples.simple ⟨"App"⟩ (Samples.git "lib")], []⟩),
    .request (.attempt ⟨"aPP"⟩ (.manual "bob" ∅))]

set_option maxRecDepth 100000 in
theorem forced_cause_of_app_waits :
    (checkedIn.schedule Environment.inMemory.collab ⟨"app"⟩ (.manual "alice" ∅)).1 =
      .ok (.succeeded checkedInCause) ∧
    ((checkedIn.schedule Environment.inMemory.collab ⟨"app"⟩ (.manual "alice" ∅)).2.run .inMemory
      busyAroundApp).Holds ⟨"app"⟩ checkedInCause := by
  have hmanual : (checkedIn.schedule Environment.inMemory.collab ⟨"app"⟩ (.manual "alice" ∅)).1 =
      .ok (.succeeded checkedInCause) := by
    rw [checkedIn_eq]
    decide +kernel
  have hlib : ¬ (⟨"lib"⟩ : PipelineName).same ⟨"app"⟩ = true := by simp [Name.same_iff_toList]
  have huntaken : ∀ h ∈ busyAroundApp, ¬ h.Takes ⟨"app"⟩ := by
    simpa [busyAroundApp, Happening.Takes] using hlib
  exact ⟨hmanual, (forced_cause_waits_until_taken .inMemory checkedIn ⟨"app"⟩ "alice" ∅ checkedInCause
    busyAroundApp hmanual huntaken).2.2⟩

end Session

end BuildScheduling
