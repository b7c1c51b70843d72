import BuildScheduling.Snapshot
import BuildScheduling.Collaborators.Basic

/-!
# Resolving materials

One attempt asks the collaborators for a revision of every material of a pipeline. It works on the world and
on the latest known revisions, both of which keep what was done to them when the attempt breaks off, and it
breaks off at the first failing answer or when its time is up.

The latest known revision of a material never moves backwards: a report that no longer holds it and whose
newest revision is older comes from a source that lags behind and is passed over (`remembered`).
-/

namespace BuildScheduling

/-- The newest revision ever reported of each material. -/
abbrev LatestKnown := FingerprintMap Revision

structure Progress (σ : Type) where
  world : σ
  known : LatestKnown
  /-- Milliseconds that the answers took. -/
  elapsed : Nat := 0

inductive Interruption where
  | failed (failure : Failure)
  | timedOut
  deriving DecidableEq

/-- A computation that may break off and keeps its progress if it does. -/
abbrev Attempt (σ : Type) := ExceptT Interruption (StateM (Progress σ))

/-- The revisions that a user asks for, by checkout fingerprint or plain fingerprint. -/
abbrev Overrides := SortedMap String String

inductive Resolution where
  /-- A revision for every material, in declaration order. -/
  | complete (revisions : List MaterialRevision)
  /-- The materials that have no revision, as messages call them. -/
  | incomplete (missing : List String)
  deriving DecidableEq

/-- Runs by descending counters; runs with the same counters stay in the order in which they came. -/
def newestFirst (runs : List StageRun) : List StageRun := runs.mergeSort fun a b => !b.newerThan a

/-- The latest known revision after a report whose newest revision is `head`. -/
def remembered (known : Option Revision) (head : Revision) (reported : List Revision) : Revision :=
  match known with
  | none => head
  | some known =>
    if !reported.any (fun r => r.identifier == known.identifier) && known.newerThan head then known
    else head

/-- The revision that a user asks for of a material: the key that names the checkout counts before the one
that names the material. -/
def Overrides.wanted? (overrides : Overrides) (m : Material) : Option String :=
  overrides.get? m.checkoutFingerprint.text <|> overrides.get? m.fingerprint.text

/-- A key that names no material of the pipeline. -/
def Overrides.unknownKey? (overrides : Overrides) (p : Pipeline) : Option String :=
  overrides.keys.find? fun key =>
    !p.materials.any fun m => m.checkoutFingerprint.text == key || m.fingerprint.text == key

namespace Attempt

variable {σ : Type} (collab : Collaborators σ) (limit : Option Nat) (snapshot : Snapshot)

def fail {α : Type} (failure : Failure) : Attempt σ α := throw (.failed failure)

/-- Asks the world. When the answer would come after the limit, the attempt is stopped while it waits, and
the call has done nothing. -/
def ask {α : Type} (call : Call σ α) : Attempt σ α := do
  let progress ← get
  let (reply, world) := call progress.world
  let elapsed := progress.elapsed + reply.took
  if limit.any fun limit => limit < elapsed then
    throw .timedOut
  else
    set { progress with world, elapsed }
    match reply.answer with
    | .ok answer => return answer
    | .error failure => fail failure

/-- The runs of a stage that feed other pipelines. -/
def passedRuns (pipeline : PipelineName) (stage : StageName) : Attempt σ (List StageRun) := do
  let runs ← ask limit (collab.stageRuns pipeline stage)
  return runs.filter StageRun.isPassed

/-- The revisions of a repository, newest first. One that is not polled is polled now. -/
def repositoryHistory (m : Material) : Attempt σ (List Revision) :=
  if snapshot.pollable.contains m.fingerprint then ask limit (collab.latestRevisions m.fingerprint)
  else ask limit (collab.pollNow m)

def reported (m : Material) : Attempt σ (List Revision) :=
  match m.dependency? with
  | some (pipeline, stage) => do
    let runs ← passedRuns collab limit pipeline stage
    return (newestFirst runs).map Revision.ofRun
  | none => repositoryHistory collab limit snapshot m

/-- The latest known revision of a material after it was asked for its revisions. -/
def latest (m : Material) : Attempt σ (Option Revision) := do
  let reported ← reported collab limit snapshot m
  match reported with
  | [] => return none
  | head :: _ =>
    let progress ← get
    let revision := remembered (progress.known.get? m.fingerprint) head reported
    set { progress with known := progress.known.insert m.fingerprint revision }
    return some revision

/-- A revision that was asked for, from the history as it is now; the latest known revision has no part in
it. A run goes by its identifier or its label. -/
def findRevision (m : Material) (wanted : String) : Attempt σ Revision := do
  let found ← match m.dependency? with
    | some (pipeline, stage) => do
      let runs ← passedRuns collab limit pipeline stage
      pure ((runs.find? fun r => r.identifier == wanted || r.label == wanted).map Revision.ofRun)
    | none => do
      let revisions ← repositoryHistory collab limit snapshot m
      pure (revisions.find? fun r => r.identifier == wanted)
  match found with
  | some revision => return revision
  | none => fail (.revisionNotFound m.fingerprint wanted)

/-- The answer for a material, once its revision is there or it is clear that it has none. -/
def answerFor (p : Pipeline) (m : Material) :
    Option Revision → Attempt σ (Material × Option MaterialRevision)
  | none => return (m, none)
  | some revision => do
    let changed ← ask limit (collab.changedSinceLastBuild p.name m.fingerprint)
    return (m, some ⟨m, revision, changed⟩)

def resolveMaterial (p : Pipeline) (overrides : Overrides) (m : Material) :
    Attempt σ (Material × Option MaterialRevision) := do
  let revision ← match overrides.wanted? m with
    | some wanted => some <$> findRevision collab limit snapshot m wanted
    | none => latest collab limit snapshot m
  answerFor collab limit p m revision

/-- The resolution that the answers for all materials make together. -/
def gather (answers : List (Material × Option MaterialRevision)) : Resolution :=
  match answers.filterMap fun a => if a.2.isNone then some a.1.displayName else none with
  | [] => .complete (answers.filterMap Prod.snd)
  | missing => .incomplete missing

def resolve (p : Pipeline) (overrides : Overrides) : Attempt σ Resolution := do
  if let some key := overrides.unknownKey? p then
    fail (.materialNotFound p.name key)
  let answers ← p.materials.mapM (resolveMaterial collab limit snapshot p overrides)
  return gather answers

end Attempt

end BuildScheduling
