import BuildScheduling.Pipeline
import BuildScheduling.Revision

/-!
# Build causes

Why a pipeline is to run and with what: one revision for each of its materials, in declaration order.
-/

namespace BuildScheduling

inductive TriggerKind where
  | auto
  | manual
  | timer
  deriving DecidableEq

structure BuildCause where
  materialRevisions : List MaterialRevision
  trigger : TriggerKind
  message : String
  approver : String
  deriving DecidableEq

namespace BuildCause

def ofChanges (revisions : List MaterialRevision) : BuildCause :=
  ⟨revisions, .auto, "modification detected", "changes"⟩

def ofUser (revisions : List MaterialRevision) (user : String) : BuildCause :=
  ⟨revisions, .manual, "Forced by " ++ user, user⟩

def ofTimer (revisions : List MaterialRevision) : BuildCause := ⟨revisions, .timer, "timer", "timer"⟩

def isForced (c : BuildCause) : Bool := c.trigger == .manual

def revisionIds (c : BuildCause) : List String := c.materialRevisions.map MaterialRevision.id

def hasChanges (c : BuildCause) : Bool := c.materialRevisions.any MaterialRevision.changed

/-- A pipeline that is defined in one of its own materials is built from that material only at the
revision its definition was read at. -/
def fitsOrigin (c : BuildCause) (p : Pipeline) : Bool :=
  match p.ownOrigin? with
  | none => true
  | some (material, revision) =>
    c.materialRevisions.all fun r => r.material.fingerprint != material || r.id == revision

end BuildCause

end BuildScheduling
