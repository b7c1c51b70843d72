import BuildScheduling.Name
import BuildScheduling.Instant.Basic

/-!
# Health

Reports about the configuration or about one pipeline, in a log of bounded length: when it is full, the
oldest report makes room for the next. Clearing a scope removes its reports wherever they stand.
-/

namespace BuildScheduling

inductive HealthScope where
  | configuration
  | pipeline (name : PipelineName)
  deriving DecidableEq

namespace HealthScope

def same : HealthScope → HealthScope → Bool
  | configuration, configuration => true
  | pipeline a, pipeline b => a.same b
  | _, _ => false

theorem same_comm (a b : HealthScope) : a.same b = b.same a := by
  cases a with
  | configuration => cases b <;> rfl
  | pipeline a =>
    cases b with
    | configuration => rfl
    | pipeline b => exact Name.same_comm a b

theorem same_trans {a b c : HealthScope} (h : a.same b = true) (h' : b.same c = true) : a.same c = true := by
  cases a <;> cases b <;> cases c <;> simp_all [same]
  exact Name.same_trans h h'

theorem same_congr {a b : PipelineName} (h : a.same b = true) (scope : HealthScope) :
    (pipeline a).same scope = (pipeline b).same scope := by
  cases scope with
  | configuration => rfl
  | pipeline name => exact Name.same_congr h name

def text : HealthScope → String
  | configuration => "configuration"
  | pipeline name => "pipeline '" ++ name.text ++ "'"

end HealthScope

inductive HealthLevel where
  | info
  | warning
  | error
  deriving DecidableEq

structure HealthReport where
  scope : HealthScope
  level : HealthLevel
  message : String
  detail : Option String := none
  deriving DecidableEq

structure HealthEntry extends HealthReport where
  recordedAt : Instant
  deriving DecidableEq

inductive HealthStatus where
  | healthy
  | degraded (reason : String)
  | unhealthy (reason : String)
  deriving DecidableEq

namespace HealthStatus

def reason? : HealthStatus → Option String
  | healthy => none
  | degraded reason => some reason
  | unhealthy reason => some reason

def isHealthy : HealthStatus → Bool
  | healthy => true
  | _ => false

def isOperational : HealthStatus → Bool
  | unhealthy _ => false
  | _ => true

end HealthStatus

/-- Reports, the oldest first. -/
structure HealthLog where
  limit : Nat
  reports : List HealthReport
  deriving DecidableEq

namespace HealthLog

/-- A log that keeps at least one report. -/
def new (limit : Nat) : HealthLog := ⟨max limit 1, []⟩

def report (log : HealthLog) (r : HealthReport) : HealthLog :=
  let kept := if log.limit ≤ log.reports.length then log.reports.drop 1 else log.reports
  { log with reports := kept ++ [r] }

def clear (log : HealthLog) (scope : HealthScope) : HealthLog :=
  { log with reports := log.reports.filter fun r => !r.scope.same scope }

def reportsFor (log : HealthLog) (scope : HealthScope) : List HealthReport :=
  log.reports.filter fun r => r.scope.same scope

def count (log : HealthLog) (level : HealthLevel) : Nat :=
  log.reports.countP fun r => r.level == level

def status (log : HealthLog) : HealthStatus :=
  let errors := log.count .error
  let warnings := log.count .warning
  if 0 < errors then .unhealthy (toString errors ++ " error(s) recorded")
  else if 0 < warnings then .degraded (toString warnings ++ " warning(s) recorded")
  else .healthy

end HealthLog

end BuildScheduling
