import BuildScheduling.BuildCause

/-!
# The schedule queue

Causes that wait to be built, at most one for each pipeline name.
-/

namespace BuildScheduling

/-- The cause that waits for each pipeline. -/
abbrev ScheduleQueue := NameMap BuildCause

namespace ScheduleQueue

/-- Puts a cause in the place of the one that waits for the pipeline, if there is one. -/
def enqueue (q : ScheduleQueue) (pipeline : PipelineName) (cause : BuildCause) : ScheduleQueue :=
  q.insert pipeline cause

def pending (q : ScheduleQueue) (pipeline : PipelineName) : Option BuildCause := q.get? pipeline

def finish (q : ScheduleQueue) (pipeline : PipelineName) : Option BuildCause × ScheduleQueue :=
  (q.pending pipeline, q.erase pipeline)

theorem pending_congr (q : ScheduleQueue) {a b : PipelineName} (h : a.same b = true) :
    q.pending a = q.pending b := Name.get?_of_same q h

theorem pending_enqueue (q : ScheduleQueue) (a b : PipelineName) (cause : BuildCause) :
    (q.enqueue a cause).pending b = if b.same a then some cause else q.pending b :=
  Name.get?_insert q a b cause

theorem pending_erase (q : ScheduleQueue) (a b : PipelineName) :
    pending (q.erase a) b = if a.same b then none else q.pending b := Name.get?_erase q a b

def toBeScheduled (q : ScheduleQueue) : List (PipelineName × BuildCause) := q.entries

end ScheduleQueue

end BuildScheduling
