import BuildScheduling.ConfigError
import BuildScheduling.Fingerprint

/-!
# Failures

Why a request to the scheduler could not be answered. A rejected attempt is an answer, not a failure.
-/

namespace BuildScheduling

inductive Failure where
  | configuration (errors : List ConfigError)
  | pipelineNotFound (pipeline : PipelineName)
  | noTimer (pipeline : PipelineName)
  /-- A revision was asked for of a material that the pipeline does not have. -/
  | materialNotFound (pipeline : PipelineName) (material : String)
  | revisionNotFound (material : Fingerprint) (revision : String)
  | settings (reason : String)
  | resolution (reason : String)
  | queue (reason : String)
  | health (reason : String)
  | io (reason : String)
  | serialization (reason : String)
  | internal (reason : String)
  deriving DecidableEq

namespace Failure

def message : Failure → String
  | configuration errors =>
    "Configuration rejected with " ++ toString errors.length ++ " error(s): "
      ++ "; ".intercalate (errors.map ConfigError.text)
  | pipelineNotFound pipeline => "Pipeline not found: " ++ pipeline.text
  | noTimer pipeline => "Pipeline '" ++ pipeline.text ++ "' has no timer configured"
  | materialNotFound pipeline material =>
    "Material with fingerprint '" ++ material ++ "' not found in pipeline '" ++ pipeline.text ++ "'"
  | revisionNotFound material revision =>
    "Unable to find revision '" ++ revision ++ "' for material '" ++ material.text ++ "'"
  | settings reason => "Invalid scheduler settings: " ++ reason
  | resolution reason => "Revision resolution failed: " ++ reason
  | queue reason => "Schedule queue error: " ++ reason
  | health reason => "Health sink error: " ++ reason
  | io reason => "IO error: " ++ reason
  | serialization reason => "Serialization error: " ++ reason
  | internal reason => "Internal error: " ++ reason

end Failure

end BuildScheduling
