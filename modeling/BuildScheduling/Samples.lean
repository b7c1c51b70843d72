import BuildScheduling.Pipeline
import BuildScheduling.Revision
import BuildScheduling.Instant.Rfc3339

/-!
# Sample values

Materials, pipelines, check-ins and stage runs with little in them, for trying the scheduler out.
-/

namespace BuildScheduling.Samples

/-! ## Materials -/

def git (name : String) : Material :=
  (Material.git ("https://git.example.com/" ++ name ++ ".git")).withName name

def manualOnlyGit (name : String) : Material := (git name).withAutoUpdate false

def dependency (pipeline : PipelineName) (stage : StageName) : Material := .dependency pipeline stage

/-! ## Pipelines -/

def withMaterials (name : PipelineName) (materials : List Material) : Pipeline :=
  { name, materials, stages := [⟨⟨"build"⟩⟩] }

def simple (name : PipelineName) (material : Material) : Pipeline := withMaterials name [material]

def locked (name : PipelineName) (material : Material) : Pipeline :=
  { simple name material with lockBehavior := .lockOnFailure }

/-- A pipeline whose timer fires every evening at ten. -/
def timed (name : PipelineName) (material : Material) (onlyOnChanges : Bool) : Pipeline :=
  { simple name material with timer := some { spec := "0 0 22 * * *", onlyOnChanges } }

/-- A pipeline that is defined in its own material, read at a revision. -/
def fromConfigRepo (name : PipelineName) (repo : Material) (revision : String) : Pipeline :=
  { simple name repo with origin := .remote repo.fingerprint revision }

/-! ## Revisions -/

/-- Nine in the morning of the first day of 2024. -/
def baseTime : Instant := .ofDay (Date.toDays ⟨2024, 1, 1⟩) (9 * 3600)

def checkIn (revision : String) (minutes : Int) : Revision :=
  .ofModification
    { revision
      author := some "dev"
      comment := some ("Commit " ++ revision)
      modifiedAt := baseTime.addMinutes minutes
      changedFiles := ["src/main.rs"] }

/-- The run that has its counter for a label, and was completed as many minutes after the base time. The
counter of minutes is one of 64 bits with a sign. -/
def stageRun (pipeline : PipelineName) (counter : UInt64) (stage : StageName) (result : StageResult) :
    StageRun :=
  { pipeline, counter, stage, result
    label := toString counter.toNat
    stageCounter := 1
    completedAt := some (baseTime.addMinutes counter.toInt64.toInt) }

def passed (pipeline : PipelineName) (counter : UInt64) (stage : StageName) : StageRun :=
  stageRun pipeline counter stage .passed

/-- A passed run of a stage that ran before in the same run of its pipeline. -/
def rerun (pipeline : PipelineName) (counter : UInt64) (stage : StageName) (stageCounter : UInt32) :
    StageRun :=
  { passed pipeline counter stage with stageCounter }

def failed (pipeline : PipelineName) (counter : UInt64) (stage : StageName) : StageRun :=
  stageRun pipeline counter stage .failed

def running (pipeline : PipelineName) (counter : UInt64) (stage : StageName) : StageRun :=
  { stageRun pipeline counter stage .unknown with completedAt := none }

end BuildScheduling.Samples
