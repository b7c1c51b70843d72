import BuildScheduling.Collaborators.Basic
import BuildScheduling.Pipeline
import BuildScheduling.SortedMap.Lemmas

/-!
# Collaborators in memory

A world that holds what its collaborators answer: histories by fingerprint and by stage, the materials that
count as unchanged, the pipelines with a running instance, and what is out of order or slow at present.
Asking changes nothing in it but the count of polls on demand.
-/

namespace BuildScheduling

inductive OutageCall where
  | enqueue
  | pending
  | report
  | clear
  | instances
  | history
  deriving DecidableEq

abbrev Outages := OutageCall → Option String

structure InMemory where
  /-- Check-ins of a repository, newest first. -/
  revisions : FingerprintMap (List Revision) := ∅
  /-- Pipelines and materials that have not moved since the last build; all others have. -/
  unchanged : List (PipelineName × Fingerprint) := []
  /-- Why every call to the poller fails. -/
  failure : Option String := none
  /-- Milliseconds that every call to the poller takes. -/
  delay : Nat := 0
  polls : Nat := 0
  /-- Runs by pipeline and stage, in the order in which they were recorded. -/
  runs : SortedMap PipelineName (SortedMap StageName (List StageRun)) := ∅
  running : SortedSet PipelineName := ∅
  outages : Outages := fun _ => none

namespace InMemory

/-! ## What it answers -/

def history (w : InMemory) (material : Fingerprint) : List Revision := (w.revisions.get? material).getD []

def stageHistory (w : InMemory) (pipeline : PipelineName) (stage : StageName) : List StageRun :=
  (((w.runs.get? pipeline).getD ∅).get? stage).getD []

def isChanged (w : InMemory) (pipeline : PipelineName) (material : Fingerprint) : Bool :=
  !w.unchanged.any fun u => u.1.same pipeline && u.2 == material

/-- An answer of the poller: it comes after the delay, unless the poller fails. -/
def polled {α : Type} (w : InMemory) (answer : α) : Reply α where
  took := w.delay
  answer := match w.failure with
    | some message => .error (.resolution message)
    | none => .ok answer

/-- An answer that an outage of a call may replace. -/
def served {α : Type} (w : InMemory) (call : OutageCall) (failure : String → Failure) (answer : α) :
    Reply α where
  answer := match w.outages call with
    | some message => .error (failure message)
    | none => .ok answer

def collaborators : Collaborators InMemory where
  latestRevisions material w := (w.polled (w.history material), w)
  pollNow material w :=
    (w.polled (w.history material.fingerprint),
      if w.failure.isSome then w else { w with polls := w.polls + 1 })
  changedSinceLastBuild pipeline material w := (w.polled (w.isChanged pipeline material), w)
  stageRuns pipeline stage w := (w.served .history .resolution (w.stageHistory pipeline stage), w)
  hasUnfinishedInstance pipeline w := (w.served .instances .internal (w.running.contains pipeline), w)
  pendingOutage w := w.outages .pending
  enqueueOutage w := w.outages .enqueue
  reportOutage w := w.outages .report
  clearOutage w := w.outages .clear

/-! ## What can be done to it -/

def checkIn (w : InMemory) (material : Material) (revision : Revision) : InMemory :=
  { w with revisions := w.revisions.alter material.fingerprint fun old => revision :: old.getD [] }

def setHistory (w : InMemory) (material : Material) (revisions : List Revision) : InMemory :=
  { w with revisions := w.revisions.insert material.fingerprint revisions }

def setChanged (w : InMemory) (pipeline : PipelineName) (material : Material) (changed : Bool) : InMemory :=
  let rest := w.unchanged.filter fun u => !(u.1.same pipeline && u.2 == material.fingerprint)
  { w with unchanged := if changed then rest else (pipeline, material.fingerprint) :: rest }

def record (w : InMemory) (run : StageRun) : InMemory :=
  { w with runs := w.runs.alter run.pipeline fun old =>
      (old.getD ∅).alter run.stage fun old => old.getD [] ++ [run] }

theorem stageHistory_record (w : InMemory) (run : StageRun) (p : PipelineName) (s : StageName) :
    (w.record run).stageHistory p s =
      if p.same run.pipeline = true ∧ s.same run.stage = true then
        w.stageHistory run.pipeline run.stage ++ [run]
      else w.stageHistory p s := by
  simp only [stageHistory, record, Name.get?_alter]
  by_cases hp : p.same run.pipeline = true
  · simp only [hp, if_true, Option.getD_some, Name.get?_alter]
    rw [Name.get?_of_same w.runs hp]
    by_cases hs : s.same run.stage = true <;> simp [hs]
  · simp [hp]

def setRuns (w : InMemory) (pipeline : PipelineName) (stage : StageName) (runs : List StageRun) :
    InMemory :=
  { w with runs := w.runs.alter pipeline fun old => (old.getD ∅).insert stage runs }

theorem stageHistory_setRuns (w : InMemory) (pipeline : PipelineName) (stage : StageName)
    (runs : List StageRun) (p : PipelineName) (s : StageName) :
    (w.setRuns pipeline stage runs).stageHistory p s =
      if p.same pipeline = true ∧ s.same stage = true then runs else w.stageHistory p s := by
  simp only [stageHistory, setRuns, Name.get?_alter]
  by_cases hp : p.same pipeline = true
  · simp only [hp, if_true, Option.getD_some, Name.get?_insert]
    rw [Name.get?_of_same w.runs hp]
    by_cases hs : s.same stage = true <;> simp [hs]
  · simp [hp]

def setRunning (w : InMemory) (pipeline : PipelineName) (running : Bool) : InMemory :=
  { w with running := if running then w.running.insertNew pipeline () else w.running.erase pipeline }

def setOutage (w : InMemory) (call : OutageCall) (message : Option String) : InMemory :=
  { w with outages := fun c => if c = call then message else w.outages c }

end InMemory

end BuildScheduling
