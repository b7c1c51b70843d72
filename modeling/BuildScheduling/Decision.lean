import BuildScheduling.Resolution
import BuildScheduling.Debounce
import BuildScheduling.Health

/-!
# Deciding an attempt

An attempt on a pipeline ends with a build cause or with the reason why there is none. The questions come in
a fixed order: is the pipeline locked, has every material a revision, has a timer seen these revisions
before, and was the definition read at the revision that would be built.
-/

namespace BuildScheduling

inductive Rejection where
  | locked
  | noModifications (missing : List String)
  /-- The definition was read at one revision of a material of the pipeline, and another is to be built. -/
  | configMaterialMismatch (material : Fingerprint) (expected actual : String)
  | noNewMaterials
  | alreadyScheduled
  deriving DecidableEq

namespace Rejection

def text : Rejection → String
  | locked => "Pipeline is locked while an instance is running"
  | noModifications missing => "No modifications found for material(s): " ++ ", ".intercalate missing
  | configMaterialMismatch material expected actual =>
    "Configuration was parsed at revision '" ++ expected ++ "' of material '" ++ material.text
      ++ "' but the latest revision is '" ++ actual ++ "'"
  | noNewMaterials => "Previously run with the latest material(s)"
  | alreadyScheduled => "A build cause is already scheduled"

/-- Waiting is normal; missing or contradictory revisions are not. -/
def level : Rejection → HealthLevel
  | noModifications _ | configMaterialMismatch .. => .warning
  | locked | noNewMaterials | alreadyScheduled => .info

end Rejection

inductive Outcome where
  | succeeded (cause : BuildCause)
  | rejected (rejection : Rejection)
  deriving DecidableEq

def Outcome.isSucceeded : Outcome → Bool
  | succeeded _ => true
  | rejected _ => false

inductive TriggerEvent where
  | auto
  | manual (user : String) (revisions : Overrides)
  | timer
  deriving DecidableEq

def TriggerEvent.kind : TriggerEvent → TriggerKind
  | auto => .auto
  | manual .. => .manual
  | timer => .timer

/-- A cause, unless the pipeline's definition was read at another revision than the cause would build; then
the first such revision is named. -/
def consistent (p : Pipeline) (cause : BuildCause) : Outcome :=
  match p.origin with
  | .remote material expected =>
    if cause.fitsOrigin p then .succeeded cause
    else
      let other := cause.materialRevisions.find? fun r =>
        r.material.fingerprint == material && r.id != expected
      .rejected (.configMaterialMismatch material expected ((other.map MaterialRevision.id).getD ""))
  | .local => .succeeded cause

/-- What an event makes of a complete list of revisions. -/
def decideRevisions (debounce : TimerDebounce) (p : Pipeline) (event : TriggerEvent)
    (revisions : List MaterialRevision) : Outcome :=
  match event with
  | .auto => consistent p (.ofChanges revisions)
  | .manual user _ => .succeeded (.ofUser revisions user)
  | .timer =>
    if p.timer.any Timer.onlyOnChanges && debounce.hasRunWith p.name revisions then
      .rejected .noNewMaterials
    else consistent p (.ofTimer revisions)

def TriggerEvent.overrides : TriggerEvent → Overrides
  | manual _ revisions => revisions
  | auto | timer => ∅

namespace Attempt

variable {σ : Type} (collab : Collaborators σ) (limit : Option Nat) (snapshot : Snapshot)

def isHeld (p : Pipeline) : Attempt σ Bool :=
  if p.isLocked then ask limit (collab.hasUnfinishedInstance p.name) else return false

def decide (debounce : TimerDebounce) (p : Pipeline) (event : TriggerEvent) : Attempt σ Outcome := do
  let held ← isHeld collab limit p
  if held then
    return .rejected .locked
  else
    match ← resolve collab limit snapshot p event.overrides with
    | .incomplete missing => return .rejected (.noModifications missing)
    | .complete revisions => return decideRevisions debounce p event revisions

end Attempt

end BuildScheduling
