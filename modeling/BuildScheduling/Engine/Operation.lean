import BuildScheduling.Engine.Basic
import BuildScheduling.Collaborators.InMemory

/-!
# Runs of the engine

Everything that can happen to an engine, as data: what is asked of the engine, what a consumer does to the
queue and the health log, and what changes in the world. `Session.next` is the session after one of these; a
run is a list of them (`Session.run`). The collaborators and the changes of their world are those of any
environment. An operation is what can happen over collaborators in memory (`Session.step`).
-/

namespace BuildScheduling

inductive Request where
  | attempt (pipeline : PipelineName) (event : TriggerEvent)
  | postCommit (url : String)
  | tick (after latest : Instant)
  | due (after latest : Instant)
  | reload (configuration : Configuration)
  | follow (configurations : List Configuration)
  | snapshot
  | settings
  | resolve (pipeline : PipelineName) (overrides : Overrides)
  | latest (material : Material)
  | latestKnown (material : Fingerprint)

inductive WorldChange where
  | checkIn (material : Material) (revision : Revision)
  | setHistory (material : Material) (revisions : List Revision)
  | setChanged (pipeline : PipelineName) (material : Material) (changed : Bool)
  | fail (message : String)
  | recover
  | slow (millis : Nat)
  | record (run : StageRun)
  | setRuns (pipeline : PipelineName) (stage : StageName) (runs : List StageRun)
  | running (pipeline : PipelineName) (running : Bool)
  | outage (call : OutageCall) (message : Option String)

/-- What can be done to the queue and the health log from outside. -/
inductive Consumption where
  | queued (pipeline : PipelineName)
  | finish (pipeline : PipelineName)
  | clearQueue
  | report (report : HealthReport)
  | clearHealth (scope : HealthScope)
  | healthFor (scope : HealthScope)
  | status

/-- What can happen to a session whose world changes in the ways of `χ`. -/
inductive Happening (χ : Type) where
  | request (request : Request)
  | world (change : χ)
  | consume (consumption : Consumption)

/-- What can happen over collaborators in memory. -/
abbrev Operation := Happening WorldChange

/-- Collaborators, and how their world changes by itself. -/
structure Environment (σ χ : Type) where
  collab : Collaborators σ
  change : σ → χ → σ

inductive Answer where
  | done
  | outcome (outcome : Except Failure Outcome)
  | outcomes (outcomes : List (PipelineName × Outcome))
  | pipelines (names : List PipelineName)
  | reloaded (snapshot : Except Failure Snapshot)
  | versions (versions : List Nat)
  | snapshot (snapshot : Snapshot)
  | settings (settings : Settings)
  | resolution (resolution : Except Failure Resolution)
  | revision (revision : Except Failure (Option Revision))
  | cause (cause : Option BuildCause)
  | reports (reports : List HealthReport)
  | status (status : HealthStatus)

def InMemory.apply (w : InMemory) : WorldChange → InMemory
  | .checkIn material revision => w.checkIn material revision
  | .setHistory material revisions => w.setHistory material revisions
  | .setChanged pipeline material changed => w.setChanged pipeline material changed
  | .fail message => { w with failure := some message }
  | .recover => { w with failure := none }
  | .slow millis => { w with delay := millis }
  | .record run => w.record run
  | .setRuns pipeline stage runs => w.setRuns pipeline stage runs
  | .running pipeline running => w.setRunning pipeline running
  | .outage call message => w.setOutage call message

def Environment.inMemory : Environment InMemory WorldChange := ⟨InMemory.collaborators, InMemory.apply⟩

namespace Session

variable {σ χ : Type} (collab : Collaborators σ) (env : Environment σ χ)

def request (s : Session σ) : Request → Answer × Session σ
  | .attempt pipeline event =>
    let (outcome, s) := s.schedule collab pipeline event
    (.outcome outcome, s)
  | .postCommit url =>
    let (outcomes, s) := s.postCommit collab url
    (.outcomes outcomes, s)
  | .tick after latest =>
    let (names, s) := s.tick collab after latest
    (.pipelines names, s)
  | .due after latest => (.pipelines (s.engine.snapshot.due after latest), s)
  | .reload configuration =>
    let (snapshot, s) := s.reload collab configuration
    (.reloaded snapshot, s)
  | .follow configurations =>
    let (versions, s) := s.follow collab configurations
    (.versions versions, s)
  | .snapshot => (.snapshot s.engine.snapshot, s)
  | .settings => (.settings s.engine.settings, s)
  | .resolve pipeline overrides =>
    let (resolution, s) := s.resolve collab pipeline overrides
    (.resolution resolution, s)
  | .latest material =>
    let (revision, s) := s.latest collab material
    (.revision revision, s)
  | .latestKnown material => (.revision (.ok (s.engine.known.get? material)), s)

def consume (s : Session σ) : Consumption → Answer × Session σ
  | .queued pipeline => (.cause (s.engine.queue.pending pipeline), s)
  | .finish pipeline =>
    let (cause, queue) := s.engine.queue.finish pipeline
    (.cause cause, s.withEngine fun e => { e with queue := queue })
  | .clearQueue => (.done, s.withEngine fun e => { e with queue := ∅ })
  | .report report => (.done, s.withEngine fun e => { e with health := e.health.report report })
  | .clearHealth scope => (.done, s.withEngine fun e => { e with health := e.health.clear scope })
  | .healthFor scope => (.reports (s.engine.health.reportsFor scope), s)
  | .status => (.status s.engine.health.status, s)

/-- The answer to what happens, and the session after it. -/
def next (s : Session σ) : Happening χ → Answer × Session σ
  | .request request => s.request env.collab request
  | .world change => (.done, { s with world := env.change s.world change })
  | .consume consumption => s.consume consumption

def start (settings : Settings) (world : σ) : Session σ := ⟨.fresh settings, world⟩

def run (s : Session σ) (happenings : List (Happening χ)) : Session σ :=
  happenings.foldl (fun s h => (s.next env h).2) s

def step (s : Session InMemory) (operation : Operation) : Answer × Session InMemory :=
  s.next .inMemory operation

/-- A fresh engine over a world in which nothing has happened. -/
def fresh (settings : Settings) : Session InMemory := start settings {}

end Session

end BuildScheduling
