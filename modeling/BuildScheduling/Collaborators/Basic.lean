import BuildScheduling.Failure
import BuildScheduling.Revision

/-!
# Collaborators

What the scheduler asks of the world: a poller of repositories, the history of stages, a tracker of
running instances, and a queue and a health sink that may be out of order. The world is a state of any type;
a call answers after some time and may change it.
-/

namespace BuildScheduling

/-- An answer and the milliseconds it takes. -/
structure Reply (α : Type) where
  took : Nat := 0
  answer : Except Failure α

/-- A question to a world. -/
abbrev Call (σ α : Type) := σ → Reply α × σ

structure Collaborators (σ : Type) where
  /-- The revisions of a polled repository, newest first. -/
  latestRevisions : Fingerprint → Call σ (List Revision)
  /-- The revisions of a repository that is polled only on demand, newest first. -/
  pollNow : Material → Call σ (List Revision)
  /-- Whether a material has moved since the pipeline last built. -/
  changedSinceLastBuild : PipelineName → Fingerprint → Call σ Bool
  /-- The runs of a stage, in any order. -/
  stageRuns : PipelineName → StageName → Call σ (List StageRun)
  hasUnfinishedInstance : PipelineName → Call σ Bool
  /-- Why the queue cannot be looked into, while it cannot. -/
  pendingOutage : σ → Option String
  /-- Why the queue takes no cause. -/
  enqueueOutage : σ → Option String
  /-- Why the health sink takes no report. -/
  reportOutage : σ → Option String
  /-- Why the health sink clears no scope. -/
  clearOutage : σ → Option String

end BuildScheduling
