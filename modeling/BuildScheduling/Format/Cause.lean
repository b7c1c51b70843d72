import BuildScheduling.Format.Configuration
import BuildScheduling.BuildCause

/-!
# The format of revisions and causes

The details of a revision are one flat record: a check-in or a stage run beside its `kind`.
-/

namespace BuildScheduling

instance : Worded StageResult where
  all := [.passed, .failed, .cancelled, .unknown]
  word
    | .passed => "passed"
    | .failed => "failed"
    | .cancelled => "cancelled"
    | .unknown => "unknown"

instance : Worded TriggerKind where
  all := [.auto, .manual, .timer]
  word
    | .auto => "auto"
    | .manual => "manual"
    | .timer => "timer"

/-! ## Revisions -/

def Modification.fields (m : Modification) : Fields :=
  [("revision", encode m.revision), ("author", encode m.author), ("comment", encode m.comment),
    ("modified_at", encode m.modifiedAt), ("changed_files", encode m.changedFiles)]

def Modification.decode? (v : Value) : Option Modification := do
  let fields ← v.fieldsOf? ["revision", "author", "comment", "modified_at", "changed_files"]
  return {
    revision := ← fields.required "revision"
    author := ← fields.optional "author"
    comment := ← fields.optional "comment"
    modifiedAt := ← fields.required "modified_at"
    changedFiles := ← fields.withDefault "changed_files" [] }

def StageRun.fields (r : StageRun) : Fields :=
  [("pipeline", encode r.pipeline), ("counter", encode r.counter), ("label", encode r.label),
    ("stage", encode r.stage), ("stage_counter", encode r.stageCounter), ("result", encode r.result),
    ("completed_at", encode r.completedAt)]

def StageRun.decode? (v : Value) : Option StageRun := do
  let fields ← v.fieldsOf?
    ["pipeline", "counter", "label", "stage", "stage_counter", "result", "completed_at"]
  return {
    pipeline := ← fields.required "pipeline"
    counter := ← fields.required "counter"
    label := ← fields.required "label"
    stage := ← fields.required "stage"
    stageCounter := ← fields.required "stage_counter"
    result := ← fields.required "result"
    completedAt := ← fields.optional "completed_at" }

instance : Coded Modification where
  encode m := .record m.fields
  decode := Modification.decode?

instance : Coded StageRun where
  encode r := .record r.fields
  decode := StageRun.decode?

instance : Coded RevisionDetails where
  encode
    | .scm modification => .record (("kind", .text "scm") :: modification.fields)
    | .dependency run => .record (("kind", .text "dependency") :: run.fields)
  decode v := do
    let (kind, rest) ← v.tagged? "kind"
    match kind with
    | "scm" => return .scm (← Modification.decode? rest)
    | "dependency" => return .dependency (← StageRun.decode? rest)
    | _ => none

instance : Coded Revision where
  encode r := .record [("identifier", encode r.identifier), ("details", encode r.details)]
  decode v := do
    let fields ← v.fieldsOf? ["identifier", "details"]
    return { identifier := ← fields.required "identifier", details := ← fields.required "details" }

/-! ## Causes -/

instance : Coded MaterialRevision where
  encode r := .record
    [("material", encode r.material), ("revision", encode r.revision), ("changed", encode r.changed)]
  decode v := do
    let fields ← v.fieldsOf? ["material", "revision", "changed"]
    return {
      material := ← fields.required "material"
      revision := ← fields.required "revision"
      changed := ← fields.required "changed" }

instance : Coded BuildCause where
  encode c := .record
    [("material_revisions", encode c.materialRevisions), ("trigger", encode c.trigger),
      ("message", encode c.message), ("approver", encode c.approver)]
  decode v := do
    let fields ← v.fieldsOf? ["material_revisions", "trigger", "message", "approver"]
    return {
      materialRevisions := ← fields.required "material_revisions"
      trigger := ← fields.required "trigger"
      message := ← fields.required "message"
      approver := ← fields.required "approver" }

end BuildScheduling
