import BuildScheduling.Material

/-!
# Pipelines and configurations

A pipeline lists its materials and stages in the order in which they are declared. A configuration lists
pipelines, whose names may clash: the first declaration of a name is the one that counts.
-/

namespace BuildScheduling

structure Stage where
  name : StageName
  deriving DecidableEq

/-- When a running instance keeps the next one from being scheduled. -/
inductive LockBehavior where
  | none
  | lockOnFailure
  | unlockWhenFinished
  deriving DecidableEq

inductive ConfigOrigin where
  | local
  /-- Read from the material of this fingerprint, at this revision. -/
  | remote (material : Fingerprint) (revision : String)
  deriving DecidableEq

structure Timer where
  spec : String
  /-- Skip a firing whose revisions were already built by the last one. -/
  onlyOnChanges : Bool := false
  deriving DecidableEq

structure Pipeline where
  name : PipelineName
  materials : List Material
  stages : List Stage
  origin : ConfigOrigin := .local
  lockBehavior : LockBehavior := .none
  timer : Option Timer := none
  deriving DecidableEq

structure ConfigRepo where
  id : String
  material : Material
  deriving DecidableEq

structure Configuration where
  pipelines : List Pipeline := []
  configRepos : List ConfigRepo := []
  deriving DecidableEq

/-- A dependency material together with its index among all materials of its pipeline. -/
structure Dependency where
  materialIndex : Nat
  pipeline : PipelineName
  stage : StageName
  deriving DecidableEq

namespace Pipeline

def hasStage (p : Pipeline) (stage : StageName) : Bool := p.stages.any fun s => s.name.same stage

def isLocked (p : Pipeline) : Bool := p.lockBehavior != .none

def dependencies (p : Pipeline) : List Dependency :=
  p.materials.zipIdx.filterMap fun (m, i) => m.dependency?.map fun (pipeline, stage) => ⟨i, pipeline, stage⟩

/-- The material that the definition comes from, if it is one of the pipeline's own, and the revision it
was read at. -/
def ownOrigin? (p : Pipeline) : Option (Fingerprint × String) :=
  match p.origin with
  | .local => .none
  | .remote material revision =>
    if p.materials.any fun m => m.fingerprint == material then some (material, revision) else .none

end Pipeline

namespace Configuration

/-- The pipeline that a name stands for: the first one declared under it. -/
def pipeline? (c : Configuration) (name : PipelineName) : Option Pipeline :=
  c.pipelines.find? fun p => p.name.same name

/-- Every declaration of a material: those of the pipelines in order, then those of the config
repositories. -/
def declaredMaterials (c : Configuration) : List Material :=
  c.pipelines.flatMap Pipeline.materials ++ c.configRepos.map ConfigRepo.material

end Configuration

end BuildScheduling
