import BuildScheduling.Decision
import BuildScheduling.Queue
import BuildScheduling.Settings

/-!
# The scheduling engine

The engine holds the snapshot in effect, the queue, the health log, what the timers remember, the pipelines
it has a lock for and the latest known revisions. A session is an engine and the world it asks. Each
operation is a function from a session to its answer and the session after it.

A forced cause that waits wins over every attempt; any other waiting cause gives way to the next one. A
configuration with an error changes nothing but the health log.
-/

namespace BuildScheduling

structure Engine where
  settings : Settings
  snapshot : Snapshot
  queue : ScheduleQueue
  health : HealthLog
  debounce : TimerDebounce
  /-- The pipelines that were attempted and are still declared. -/
  locks : SortedSet PipelineName
  known : LatestKnown

/-- An engine and the world that its collaborators answer from. -/
structure Session (σ : Type) where
  engine : Engine
  world : σ

def Engine.fresh (settings : Settings) : Engine where
  settings := settings
  snapshot := .empty
  queue := ∅
  health := .new settings.healthHistoryLimit.toNat
  debounce := ∅
  locks := ∅
  known := ∅

namespace Session

variable {σ : Type} (collab : Collaborators σ)

def withEngine (s : Session σ) (f : Engine → Engine) : Session σ := { s with engine := f s.engine }

/-! ## Health -/

/-- Reports, if the health sink takes reports. -/
def report (s : Session σ) (r : HealthReport) : Session σ :=
  if (collab.reportOutage s.world).isSome then s
  else s.withEngine fun e => { e with health := e.health.report r }

/-- Clears a scope, if the health sink clears scopes. -/
def clearHealth (s : Session σ) (scope : HealthScope) : Session σ :=
  if (collab.clearOutage s.world).isSome then s
  else s.withEngine fun e => { e with health := e.health.clear scope }

def reportRejection (s : Session σ) (pipeline : PipelineName) (rejection : Rejection) : Session σ :=
  s.report collab
    { scope := .pipeline pipeline
      level := rejection.level
      message := "Unable to schedule pipeline '" ++ pipeline.text ++ "'"
      detail := some rejection.text }

def reportFailure (s : Session σ) (pipeline : PipelineName) (failure : Failure) : Session σ :=
  s.report collab
    { scope := .pipeline pipeline
      level := .error
      message := "Failed to schedule pipeline '" ++ pipeline.text ++ "'"
      detail := some failure.message }

/-! ## Resolving -/

/-- Runs a computation on the world and the latest known revisions. -/
def perform {α : Type} (s : Session σ) (attempt : Attempt σ α) : Except Interruption α × Session σ :=
  let (answer, progress) := attempt.run.run { world := s.world, known := s.engine.known }
  (answer, { engine := { s.engine with known := progress.known }, world := progress.world })

def failureOf (timeoutSecs : Nat) : Interruption → Failure
  | .failed failure => failure
  | .timedOut => .resolution ("timed out after " ++ toString timeoutSecs ++ "s resolving materials")

/-! ## Attempts -/

/-- What a successful attempt does: its cause waits in the queue, a timer remembers it, and the pipeline's
reports are cleared. -/
def accept (s : Session σ) (pipeline : PipelineName) (kind : TriggerKind) (cause : BuildCause) :
    Session σ :=
  let s := s.withEngine fun e =>
    { e with
      queue := e.queue.enqueue pipeline cause
      debounce := if kind = .timer then e.debounce.record pipeline cause else e.debounce }
  s.clearHealth collab (.pipeline pipeline)

def conclude (s : Session σ) (p : Pipeline) (kind : TriggerKind) (outcome : Outcome) :
    Except Failure Outcome × Session σ :=
  match outcome with
  | .rejected rejection => (.ok outcome, s.reportRejection collab p.name rejection)
  | .succeeded cause =>
    match collab.enqueueOutage s.world with
    | some message => (.error (.queue message), s)
    | none => (.ok outcome, s.accept collab p.name kind cause)

/-- An attempt on a declared pipeline that no forced cause waits for. -/
def attempt (s : Session σ) (p : Pipeline) (event : TriggerEvent) : Except Failure Outcome × Session σ :=
  let timeoutSecs := s.engine.settings.resolutionTimeout.toNat
  let (answer, s) :=
    s.perform (.decide collab (some (timeoutSecs * 1000)) s.engine.snapshot s.engine.debounce p event)
  match answer with
  | .ok outcome => s.conclude collab p event.kind outcome
  | .error interruption =>
    let failure := failureOf timeoutSecs interruption
    (.error failure, s.reportFailure collab p.name failure)

/-- An attempt on a pipeline. An unknown name changes nothing. -/
def schedule (s : Session σ) (pipeline : PipelineName) (event : TriggerEvent) :
    Except Failure Outcome × Session σ :=
  match s.engine.snapshot.pipeline? pipeline with
  | none => (.error (.pipelineNotFound pipeline), s)
  | some p =>
    let s := s.withEngine fun e => { e with locks := e.locks.insertNew pipeline () }
    if event.kind = .timer ∧ p.timer.isNone then (.error (.noTimer p.name), s)
    else
      match collab.pendingOutage s.world with
      | some message => (.error (.queue message), s)
      | none =>
        if (s.engine.queue.pending p.name).any BuildCause.isForced then
          (.ok (.rejected .alreadyScheduled), s.reportRejection collab p.name .alreadyScheduled)
        else s.attempt collab p event

def scheduleAll (s : Session σ) (event : TriggerEvent) :
    List PipelineName → List (PipelineName × Except Failure Outcome) × Session σ
  | [] => ([], s)
  | pipeline :: rest =>
    let (outcome, s) := s.schedule collab pipeline event
    let (outcomes, s) := s.scheduleAll event rest
    ((pipeline, outcome) :: outcomes, s)

/-- The pipelines that build from a repository at a location which waits for notifications. -/
def notified (snapshot : Snapshot) (url : String) : List PipelineName :=
  let fingerprints := (snapshot.postCommit.withUrl url).map Material.fingerprint
  (snapshot.pipelines.filter fun p =>
    p.materials.any fun m => fingerprints.contains m.fingerprint).map Pipeline.name

/-- A commit at a location: an attempt on every pipeline that it concerns, those that fail left out of the
answer. -/
def postCommit (s : Session σ) (url : String) : List (PipelineName × Outcome) × Session σ :=
  let (outcomes, s) := s.scheduleAll collab .auto (notified s.engine.snapshot url)
  (outcomes.filterMap fun (pipeline, outcome) => outcome.toOption.map fun o => (pipeline, o), s)

/-- Attempts on the pipelines whose timer is due; the answer names those that got a cause. -/
def tick (s : Session σ) (after latest : Instant) : List PipelineName × Session σ :=
  let (outcomes, s) := s.scheduleAll collab .timer (s.engine.snapshot.due after latest)
  ((outcomes.filter fun o => o.2.toOption.any Outcome.isSucceeded).map Prod.fst, s)

/-! ## Configuration -/

/-- Puts a snapshot in effect. What belongs to pipelines and materials that are gone is dropped. -/
def publish (s : Session σ) (snapshot : Snapshot) : Session σ :=
  let s := s.withEngine fun e =>
    { e with
      snapshot := snapshot
      debounce := e.debounce.filterKeys fun name =>
        !e.snapshot.pipelineNames.contains name || snapshot.declares name
      locks := e.locks.filterKeys snapshot.declares
      known := e.known.filterKeys snapshot.materialFingerprints.contains }
  s.clearHealth collab .configuration

/-- Reads a configuration. One with errors leaves the snapshot in effect, and each error is reported. -/
def reload (s : Session σ) (c : Configuration) : Except Failure Snapshot × Session σ :=
  match Snapshot.build c (s.engine.snapshot.version + 1) with
  | .ok snapshot => (.ok snapshot, s.publish collab snapshot)
  | .error errors =>
    (.error (.configuration errors),
      errors.foldl (fun s e =>
        s.report collab { scope := .configuration, level := .error, message := e.text }) s)

def follow (s : Session σ) : List Configuration → List Nat × Session σ
  | [] => ([], s)
  | c :: rest =>
    let s := (s.reload collab c).2
    let (versions, after) := s.follow rest
    (s.engine.snapshot.version :: versions, after)

/-! ## Questions -/

/-- The latest known revision of a material, after asking for it. There is no limit of time. -/
def latest (s : Session σ) (m : Material) : Except Failure (Option Revision) × Session σ :=
  let (answer, s) := s.perform (.latest collab none s.engine.snapshot m)
  (answer.mapError (failureOf 0), s)

/-- The revisions that an attempt on a pipeline would get. There is no limit of time. -/
def resolve (s : Session σ) (pipeline : PipelineName) (overrides : Overrides) :
    Except Failure Resolution × Session σ :=
  match s.engine.snapshot.pipeline? pipeline with
  | none => (.error (.pipelineNotFound pipeline), s)
  | some p =>
    let (answer, s) := s.perform (.resolve collab none s.engine.snapshot p overrides)
    (answer.mapError (failureOf 0), s)

end Session

end BuildScheduling
