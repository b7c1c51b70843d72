import BuildScheduling.Format.Configuration
import BuildScheduling.Health

/-!
# The format of health entries
-/

namespace BuildScheduling

instance : Worded HealthLevel where
  all := [.info, .warning, .error]
  word
    | .info => "info"
    | .warning => "warning"
    | .error => "error"

inductive HealthScope.Kind where
  | configuration
  | pipeline

instance : Worded HealthScope.Kind where
  all := [.configuration, .pipeline]
  word
    | .configuration => "configuration"
    | .pipeline => "pipeline"

/-- The scope of a kind with a name: the configuration has none. -/
def HealthScope.ofName? (kind : Kind) (name : Value) : Option HealthScope :=
  match kind with
  | .configuration => if name.isNull then some .configuration else none
  | .pipeline => (decode name).map .pipeline

instance : Coded HealthScope where
  encode
    | .configuration => .record [("type", encode HealthScope.Kind.configuration)]
    | .pipeline name => .record [("type", encode HealthScope.Kind.pipeline), ("name", encode name)]
  decode
    | .list [kind, name] => do HealthScope.ofName? (← decode kind) name
    | .record fields => do
      HealthScope.ofName? (← Fields.required fields "type") (← Fields.find? fields "name" (some .null) some)
    | _ => none

instance : Coded HealthEntry where
  encode e := .record
    [("scope", encode e.scope), ("level", encode e.level), ("message", encode e.message),
      ("detail", encode e.detail), ("recorded_at", encode e.recordedAt)]
  decode v := do
    let fields ← v.fieldsOf? ["scope", "level", "message", "detail", "recorded_at"]
    return {
      scope := ← fields.required "scope"
      level := ← fields.required "level"
      message := ← fields.required "message"
      detail := ← fields.optional "detail"
      recordedAt := ← fields.required "recorded_at" }

end BuildScheduling
