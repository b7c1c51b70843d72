import BuildScheduling.Name
import BuildScheduling.Fingerprint

/-!
# Materials

What a pipeline builds from: a repository, or a stage of another pipeline. A material's fingerprint names
the thing it points at; where it is checked out, how it is called and whether it is polled do not matter to
it. The checkout fingerprint adds the destination, so one repository used twice in a pipeline counts twice.
-/

namespace BuildScheduling

inductive ScmType where
  | git
  | hg
  | svn
  | p4
  | tfs
  deriving DecidableEq

namespace ScmType

/-- The word that stands for the kind in a fingerprint's source. -/
def sourceTag : ScmType → String
  | git => "GitMaterial"
  | hg => "HgMaterial"
  | svn => "SvnMaterial"
  | p4 => "P4Material"
  | tfs => "TfsMaterial"

end ScmType

inductive MaterialSource where
  | scm (type : ScmType) (url : String) (branch : Option String)
  | dependency (pipeline : PipelineName) (stage : StageName)
  deriving DecidableEq

structure Material where
  source : MaterialSource
  /-- Whether the material is polled without being asked to. -/
  autoUpdate : Bool := true
  destination : Option String := none
  name : Option String := none
  deriving DecidableEq

namespace MaterialSource

/-- The text a fingerprint is taken of. An absent branch counts as an empty one; the names of a dependency
count without their case. -/
def fingerprintSource : MaterialSource → String
  | scm type url branch =>
    "type=" ++ type.sourceTag ++ "<|>url=" ++ url ++ "<|>branch=" ++ branch.getD ""
  | dependency pipeline stage =>
    "type=DependencyMaterial<|>pipelineName=" ++ pipeline.folded ++ "<|>stageName=" ++ stage.folded

def sameIdentity : MaterialSource → MaterialSource → Bool
  | scm t u b, scm t' u' b' => t == t' && u == u' && b.getD "" == b'.getD ""
  | dependency p s, dependency p' s' => p.same p' && s.same s'
  | _, _ => false

theorem fingerprintSource_eq_of_sameIdentity {a b : MaterialSource} (h : a.sameIdentity b = true) :
    a.fingerprintSource = b.fingerprintSource := by
  cases a with
  | scm type url branch =>
    cases b with
    | scm type' url' branch' =>
      obtain ⟨hrest, hbranch⟩ := Bool.and_eq_true_iff.mp h
      obtain ⟨htype, hurl⟩ := Bool.and_eq_true_iff.mp hrest
      rw [eq_of_beq htype, eq_of_beq hurl]
      exact congrArg (fun text => "type=" ++ type'.sourceTag ++ "<|>url=" ++ url' ++ "<|>branch=" ++ text)
        (eq_of_beq hbranch)
    | dependency pipeline' stage' => exact absurd h Bool.false_ne_true
  | dependency pipeline stage =>
    cases b with
    | scm type' url' branch' => exact absurd h Bool.false_ne_true
    | dependency pipeline' stage' =>
      obtain ⟨hpipeline, hstage⟩ := Bool.and_eq_true_iff.mp h
      change "type=DependencyMaterial<|>pipelineName=" ++ pipeline.folded ++ "<|>stageName=" ++ stage.folded =
        "type=DependencyMaterial<|>pipelineName=" ++ pipeline'.folded ++ "<|>stageName=" ++ stage'.folded
      rw [Name.same_iff.mp hpipeline, Name.same_iff.mp hstage]

end MaterialSource

namespace Material

def git (url : String) : Material := { source := .scm .git url none }

def scm (type : ScmType) (url : String) : Material := { source := .scm type url none }

def dependency (pipeline : PipelineName) (stage : StageName) : Material :=
  { source := .dependency pipeline stage }

/-- A branch is for repositories; a dependency stays as it is. -/
def withBranch (m : Material) (branch : String) : Material :=
  match m.source with
  | .scm type url _ => { m with source := .scm type url (some branch) }
  | .dependency _ _ => m

def withDestination (m : Material) (destination : String) : Material :=
  { m with destination := some destination }

def withName (m : Material) (name : String) : Material := { m with name := some name }

def withAutoUpdate (m : Material) (autoUpdate : Bool) : Material := { m with autoUpdate }

/-- The pipeline and stage that a dependency waits for. -/
def dependency? (m : Material) : Option (PipelineName × StageName) :=
  match m.source with
  | .dependency pipeline stage => some (pipeline, stage)
  | .scm .. => none

theorem dependency?_eq_some_iff {m : Material} {pipeline : PipelineName} {stage : StageName} :
    m.dependency? = some (pipeline, stage) ↔ m.source = .dependency pipeline stage := by
  unfold dependency?
  split <;> simp_all

def url? (m : Material) : Option String :=
  match m.source with
  | .scm _ url _ => some url
  | .dependency .. => none

def isDependency (m : Material) : Bool := m.dependency?.isSome

/-- Names what the material points at, across the whole configuration. -/
def fingerprint (m : Material) : Fingerprint := .ofSource m.source.fingerprintSource

theorem fingerprint_eq_of_sameIdentity {m m' : Material} (h : m.source.sameIdentity m'.source = true) :
    m.fingerprint = m'.fingerprint := by
  rw [fingerprint, fingerprint, MaterialSource.fingerprintSource_eq_of_sameIdentity h]

/-- The text a checkout fingerprint is taken of. -/
def checkoutSource (m : Material) : String :=
  m.fingerprint.text ++ "<|>dest=" ++ m.destination.getD ""

/-- Names the material among those of one pipeline: what it points at and where it is checked out. -/
def checkoutFingerprint (m : Material) : Fingerprint := .ofSource m.checkoutSource

def displayName (m : Material) : String :=
  match m.name, m.source with
  | some name, _ => name
  | none, .scm _ url _ => url
  | none, .dependency pipeline stage => pipeline.text ++ " [" ++ stage.text ++ "]"

end Material

end BuildScheduling
