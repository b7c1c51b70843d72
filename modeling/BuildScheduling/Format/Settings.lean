import BuildScheduling.Format.Configuration
import BuildScheduling.Settings
import BuildScheduling.Yaml.Document

/-!
# The format of settings, and documents

Settings and configurations are read from documents as well. A settings file has to be there, to be text, to
be settings and to hold no value that is refused, in this order.
-/

namespace BuildScheduling

instance : Coded Settings where
  encode s := .record
    [("resolution_timeout_secs", encode s.resolutionTimeoutSecs),
      ("timer_tick_millis", encode s.timerTickMillis),
      ("health_history_limit", encode s.healthHistoryLimit)]
  decode v := do
    let fields ← v.fieldsOf?
      ["resolution_timeout_secs", "timer_tick_millis", "health_history_limit"]
    let defaults : Settings := {}
    return {
      resolutionTimeoutSecs := ← fields.withDefault "resolution_timeout_secs" defaults.resolutionTimeoutSecs
      timerTickMillis := ← fields.withDefault "timer_tick_millis" defaults.timerTickMillis
      healthHistoryLimit := ← fields.withDefault "health_history_limit" defaults.healthHistoryLimit }

/-- The configuration that a document holds. -/
def Configuration.ofDocument? (text : String) : Option Configuration := (Yaml.read? text).bind fun n => decode (.node n)

/-- The settings of a file, given its content if it is there. What exactly is wrong with a file that cannot
be read is left open. -/
def Settings.ofFile (content : Option ByteArray) : Except Failure Settings :=
  match content.bind String.fromUTF8? with
  | none => .error (.io "")
  | some text =>
    match (Yaml.read? text).bind fun n => decode (.node n) with
    | none => .error (.serialization "")
    | some (settings : Settings) =>
      match settings.validate with
      | .ok () => .ok settings
      | .error failure => .error failure

end BuildScheduling
