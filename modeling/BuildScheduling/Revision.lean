import BuildScheduling.Material
import BuildScheduling.Instant.Basic

/-!
# Revisions

A revision of a repository is a check-in; a revision of a dependency is a run of the stage that it names. Within
one kind, revisions are ordered: check-ins by time, runs by pipeline counter and then stage counter.
Between kinds there is no order.
-/

namespace BuildScheduling

structure Modification where
  revision : String
  author : Option String := none
  comment : Option String := none
  modifiedAt : Instant
  changedFiles : List String := []
  deriving DecidableEq

inductive StageResult where
  | passed
  | failed
  | cancelled
  | unknown
  deriving DecidableEq

structure StageRun where
  pipeline : PipelineName
  counter : UInt64
  label : String
  stage : StageName
  stageCounter : UInt32
  result : StageResult
  /-- Absent while the run goes on. -/
  completedAt : Option Instant := none
  deriving DecidableEq

inductive RevisionDetails where
  | scm (modification : Modification)
  | dependency (run : StageRun)
  deriving DecidableEq

structure Revision where
  identifier : String
  details : RevisionDetails
  deriving DecidableEq

namespace StageRun

/-- Only complete and passed runs feed other pipelines. -/
def isPassed (r : StageRun) : Bool := r.completedAt.isSome && r.result == .passed

/-- Pipeline, counter, stage and stage counter, with slashes between them. -/
def identifier (r : StageRun) : String :=
  r.pipeline.text ++ "/" ++ toString r.counter.toNat ++ "/" ++ r.stage.text ++ "/"
    ++ toString r.stageCounter.toNat

/-- A later run of the pipeline, or a later run of the stage in the same run of the pipeline. -/
def newerThan (a b : StageRun) : Bool :=
  b.counter < a.counter || (a.counter == b.counter && b.stageCounter < a.stageCounter)

/-- Equal in every field, names compared as names. -/
def same (a b : StageRun) : Bool :=
  a.pipeline.same b.pipeline && a.stage.same b.stage
    && { a with pipeline := b.pipeline, stage := b.stage } == b

end StageRun

namespace Revision

def ofModification (m : Modification) : Revision := ⟨m.revision, .scm m⟩

def ofRun (r : StageRun) : Revision := ⟨r.identifier, .dependency r⟩

def newerThan (a b : Revision) : Bool :=
  match a.details, b.details with
  | .scm a, .scm b => b.modifiedAt.before a.modifiedAt
  | .dependency a, .dependency b => a.newerThan b
  | _, _ => false

/-- Equal in every field, names compared as names. -/
def same (a b : Revision) : Bool :=
  a.identifier == b.identifier &&
    match a.details, b.details with
    | .scm a, .scm b => a == b
    | .dependency a, .dependency b => a.same b
    | _, _ => false

end Revision

structure MaterialRevision where
  material : Material
  revision : Revision
  /-- Whether the revision differs from the one the pipeline last built. -/
  changed : Bool
  deriving DecidableEq

namespace MaterialRevision

def id (r : MaterialRevision) : String := r.revision.identifier

end MaterialRevision

end BuildScheduling
