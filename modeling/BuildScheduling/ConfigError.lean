import BuildScheduling.Name

/-!
# Configuration errors

What is wrong with a configuration. Each error belongs to the pipeline that has to be mended, and to one of
its materials where one is at fault.
-/

namespace BuildScheduling

inductive ConfigErrorKind where
  /-- Names along a cycle of dependencies, the first one again at the end. -/
  | circularDependency (path : List PipelineName)
  | unknownPipeline (named : PipelineName)
  | unknownStage (named : PipelineName) (stage : StageName)
  | duplicatePipeline
  | invalidTimer (spec : String) (reason : String)
  deriving DecidableEq

structure ConfigError where
  pipeline : PipelineName
  /-- Index among all materials of the pipeline. -/
  materialIndex : Option Nat := none
  kind : ConfigErrorKind
  deriving DecidableEq

namespace ConfigError

def isCycle (e : ConfigError) : Bool :=
  match e.kind with
  | .circularDependency _ => true
  | _ => false

def text (e : ConfigError) : String :=
  match e.kind with
  | .circularDependency path => "Circular dependency: " ++ " <- ".intercalate (path.map Name.text)
  | .unknownPipeline named =>
    "Pipeline '" ++ named.text ++ "' does not exist. It is used from pipeline '"
      ++ e.pipeline.text ++ "'."
  | .unknownStage named stage =>
    "Stage with name '" ++ stage.text ++ "' does not exist on pipeline '" ++ named.text
      ++ "', it is being referred to from pipeline '" ++ e.pipeline.text ++ "'."
  | .duplicatePipeline =>
    "You have defined multiple pipelines called '" ++ e.pipeline.text
      ++ "'. Pipeline names must be unique."
  | .invalidTimer spec reason =>
    "Invalid cron syntax '" ++ spec ++ "' for timer of pipeline '" ++ e.pipeline.text ++ "': " ++ reason

end ConfigError

end BuildScheduling
