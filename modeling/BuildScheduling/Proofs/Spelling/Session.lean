import BuildScheduling.Proofs.Snapshot.Belonging
import BuildScheduling.Proofs.Spelling.Resolution
import BuildScheduling.Proofs.Steady.InMemory

/-!
# Attempts under another spelling

Two attempts on a declared pipeline under two spellings of its name find the same pipeline and go on with the name it
was declared under; all that is left of the spelling is the lock, which is kept under the first one that was used
(`schedule_of_same`). No attempt looks at the locks.

Two sessions may also differ in how the dependencies of the snapshot in effect are spelled, and so in how the causes
that wait name their materials (`Session.RespeltAs`). As the worlds, the latest known revisions and the memory of the
timers are the same, an attempt in the one goes like an attempt in the other, and whatever the engine does leaves two
such sessions again. The health log and the locks are left out: they are written and not read.
-/

namespace BuildScheduling

variable {σ : Type} {collab : Collaborators σ}

theorem Snapshot.pipeline?_of_same (s : Snapshot) {a b : PipelineName} (h : a.same b = true) :
    s.pipeline? a = s.pipeline? b := by
  rw [s.pipeline?_eq_find?, s.pipeline?_eq_find?]
  exact congrArg (List.find? · s.pipelines) (funext fun p => Name.same_congr_right h p.name)

namespace Session

/-! ### Attempts under two spellings -/

/-- The session with other locks. -/
def withLocks (s : Session σ) (locks : SortedSet PipelineName) : Session σ :=
  s.withEngine fun e => { e with locks := locks }

theorem report_withLocks (s : Session σ) (locks : SortedSet PipelineName) (r : HealthReport) :
    (s.withLocks locks).report collab r = (s.report collab r).withLocks locks := by
  rw [report_eq (w := s.world) (s.withLocks locks) rfl, report_eq s rfl]
  rfl

theorem clearHealth_withLocks (s : Session σ) (locks : SortedSet PipelineName) (scope : HealthScope) :
    (s.withLocks locks).clearHealth collab scope = (s.clearHealth collab scope).withLocks locks := by
  rw [clearHealth_eq (w := s.world) (s.withLocks locks) rfl, clearHealth_eq s rfl]
  rfl

theorem accept_withLocks (s : Session σ) (locks : SortedSet PipelineName) (name : PipelineName) (kind : TriggerKind)
    (cause : BuildCause) :
    (s.withLocks locks).accept collab name kind cause = (s.accept collab name kind cause).withLocks locks :=
  clearHealth_withLocks (s.withEngine fun e =>
    { e with
      queue := e.queue.enqueue name cause
      debounce := if kind = .timer then e.debounce.record name cause else e.debounce }) locks (.pipeline name)

theorem conclude_withLocks (s : Session σ) (locks : SortedSet PipelineName) (p : Pipeline) (kind : TriggerKind)
    (outcome : Outcome) :
    (s.withLocks locks).conclude collab p kind outcome =
      ((s.conclude collab p kind outcome).1, (s.conclude collab p kind outcome).2.withLocks locks) := by
  cases outcome with
  | rejected rejection => exact congrArg (Prod.mk _) (report_withLocks s locks _)
  | succeeded cause =>
    rw [conclude, conclude, show (s.withLocks locks).world = s.world from rfl]
    split
    · rfl
    · exact congrArg (Prod.mk _) (accept_withLocks s locks p.name kind cause)

/-- No attempt looks at the locks. -/
theorem attempt_withLocks (s : Session σ) (locks : SortedSet PipelineName) (p : Pipeline) (event : TriggerEvent) :
    (s.withLocks locks).attempt collab p event =
      ((s.attempt collab p event).1, (s.attempt collab p event).2.withLocks locks) := by
  rw [attempt_eq, attempt_eq]
  have hperform : (s.withLocks locks).perform ((s.withLocks locks).decision collab p event) =
      ((s.perform (s.decision collab p event)).1, (s.perform (s.decision collab p event)).2.withLocks locks) := rfl
  rw [hperform]
  cases (s.perform (s.decision collab p event)).1 with
  | ok outcome => exact conclude_withLocks _ locks p event.kind outcome
  | error interruption => exact congrArg (Prod.mk _) (report_withLocks _ locks _)

/-- An attempt under another spelling of a declared name, and the same attempt but for the lock. -/
theorem schedule_of_same {s : Session σ} {name name' : PipelineName}
    (hdeclared : s.engine.snapshot.declares name = true) (hsame : name.same name' = true) (event : TriggerEvent) :
    s.schedule collab name' event =
      ((s.schedule collab name event).1,
        (s.schedule collab name event).2.withLocks (s.engine.locks.insertNew name' ())) := by
  rw [Snapshot.declares_eq_isSome_pipeline?] at hdeclared
  obtain ⟨p, hp⟩ := Option.isSome_iff_exists.mp hdeclared
  have hp' : s.engine.snapshot.pipeline? name' = some p :=
    (s.engine.snapshot.pipeline?_of_same hsame).symm.trans hp
  rw [schedule_of_declared collab hp, schedule_of_declared collab hp',
    show s.lock name' = (s.lock name).withLocks (s.engine.locks.insertNew name' ()) from rfl]
  split
  · rfl
  · split
    · rfl
    · split
      · exact congrArg (Prod.mk _) (report_withLocks _ _ _)
      · exact attempt_withLocks _ _ _ _

end Session

/-! ### Side by side -/

theorem Graph.RespeltAs.refl (g : Graph) : g.RespeltAs g :=
  ⟨List.forall₂_same.mpr fun p _ => .refl p, List.forall₂_same.mpr fun p _ => .refl p⟩

theorem Configuration.RespeltAs.refl (c : Configuration) : c.RespeltAs c :=
  ⟨List.forall₂_same.mpr fun p _ => .refl p, List.forall₂_same.mpr fun r _ => .intro r.id (.refl r.material)⟩

theorem Snapshot.RespeltAs.refl (s : Snapshot) : s.RespeltAs s := ⟨rfl, .refl s.graph, rfl, rfl, rfl⟩

namespace Snapshot

variable {s s' : Snapshot}

theorem RespeltAs.declares (h : s.RespeltAs s') : s.declares = s'.declares :=
  funext fun name => by
    rw [s.declares_eq_isSome_pipeline?, s'.declares_eq_isSome_pipeline?]
    exact isSome_of_rel (h.graph.pipeline? name.same_refl)

/-- A name is declared in both snapshots or in neither. -/
theorem RespeltAs.pipeline?_cases (h : s.RespeltAs s') (name : PipelineName) :
    s.pipeline? name = none ∧ s'.pipeline? name = none ∨
      ∃ p p', s.pipeline? name = some p ∧ s'.pipeline? name = some p' ∧ p.RespeltAs p' :=
  cases_of_rel (h.graph.pipeline? name.same_refl)

theorem RespeltAs.contains_pipelineNames (h : s.RespeltAs s') : s.pipelineNames.contains = s'.pipelineNames.contains :=
  funext fun name => by rw [Snapshot.contains_pipelineNames, Snapshot.contains_pipelineNames, h.declares]

theorem RespeltAs.materialFingerprints (h : s.RespeltAs s') : s.materialFingerprints = s'.materialFingerprints := by
  refine congrArg SortedSet.ofList ?_
  rw [List.flatMap_def, List.flatMap_def]
  exact congrArg List.flatten (map_eq_of_forall₂ h.graph.pipelines fun _ _ hp => hp.map_fingerprint)

theorem RespeltAs.due (h : s.RespeltAs s') (after latest : Instant) : s.due after latest = s'.due after latest := by
  rw [Snapshot.due, Snapshot.due, h.timers]

theorem RespeltAs.notified (h : s.RespeltAs s') (url : String) :
    Session.notified s url = Session.notified s' url := by
  rw [Session.notified, Session.notified, h.postCommit]
  refine map_eq_of_forall₂ (filter_of_forall₂ h.graph.pipelines fun p p' hp => ?_) fun _ _ hp => hp.name
  exact any_of_forall₂ hp.materials fun _ _ hm => by rw [hm.fingerprint]

end Snapshot

namespace Session

/-- The same world, and nothing but spellings differs in what decides an attempt. -/
structure RespeltAs (s s' : Session σ) : Prop where
  settings : s.engine.settings = s'.engine.settings
  snapshot : s.engine.snapshot.RespeltAs s'.engine.snapshot
  queue : ∀ name, Option.Rel BuildCause.RespeltAs (s.engine.queue.pending name) (s'.engine.queue.pending name)
  debounce : s.engine.debounce = s'.engine.debounce
  known : s.engine.known = s'.engine.known
  world : s.world = s'.world

variable {s s' : Session σ}

theorem RespeltAs.withLocks (h : s.RespeltAs s') (locks : SortedSet PipelineName) : s.RespeltAs (s'.withLocks locks) :=
  ⟨h.settings, h.snapshot, h.queue, h.debounce, h.known, h.world⟩

/-- What is reported does not matter. -/
theorem RespeltAs.report (h : s.RespeltAs s') (r r' : HealthReport) :
    (s.report collab r).RespeltAs (s'.report collab r') := by
  rw [report_eq s rfl, report_eq s' rfl]
  exact ⟨h.settings, h.snapshot, h.queue, h.debounce, h.known, h.world⟩

theorem RespeltAs.clearHealth (h : s.RespeltAs s') (scope : HealthScope) :
    (s.clearHealth collab scope).RespeltAs (s'.clearHealth collab scope) := by
  rw [clearHealth_eq s rfl, clearHealth_eq s' rfl]
  exact ⟨h.settings, h.snapshot, h.queue, h.debounce, h.known, h.world⟩

theorem RespeltAs.perform {α β : Type} {R : α → β → Prop} {x : Attempt σ α} {y : Attempt σ β} (h : s.RespeltAs s')
    (hxy : Attempt.Matches R x y) :
    AnswersAlike R (s.perform x).1 (s'.perform y).1 ∧ (s.perform x).2.RespeltAs (s'.perform y).2 := by
  have hprogress : s.progress = s'.progress := by rw [progress, progress, h.world, h.known]
  obtain ⟨hanswer, hlast⟩ := hxy s.progress
  rw [perform_eq, perform_eq, ← hprogress]
  exact ⟨hanswer, h.settings, h.snapshot, h.queue, h.debounce, congrArg Progress.known hlast,
    congrArg Progress.world hlast⟩

theorem pending_respelt {q q' : ScheduleQueue}
    (hq : ∀ name, Option.Rel BuildCause.RespeltAs (q.pending name) (q'.pending name)) {cause cause' : BuildCause}
    (hcause : cause.RespeltAs cause') (pipeline name : PipelineName) :
    Option.Rel BuildCause.RespeltAs ((q.enqueue pipeline cause).pending name)
      ((q'.enqueue pipeline cause').pending name) := by
  rw [ScheduleQueue.pending_enqueue, ScheduleQueue.pending_enqueue]
  split
  · exact .some hcause
  · exact hq name

theorem RespeltAs.accept (h : s.RespeltAs s') (pipeline : PipelineName) (kind : TriggerKind) {cause cause' : BuildCause}
    (hcause : cause.RespeltAs cause') :
    (s.accept collab pipeline kind cause).RespeltAs (s'.accept collab pipeline kind cause') := by
  have hrecorded : s.engine.debounce.record pipeline cause = s'.engine.debounce.record pipeline cause' := by
    rw [h.debounce, TimerDebounce.record, TimerDebounce.record]
    cases hcause with
    | intro hrevisions => rw [revisionSet_respelt hrevisions]
  have hwaits : RespeltAs
      (s.withEngine fun e =>
        { e with
          queue := e.queue.enqueue pipeline cause
          debounce := if kind = .timer then e.debounce.record pipeline cause else e.debounce })
      (s'.withEngine fun e =>
        { e with
          queue := e.queue.enqueue pipeline cause'
          debounce := if kind = .timer then e.debounce.record pipeline cause' else e.debounce }) := by
    refine ⟨h.settings, h.snapshot, pending_respelt h.queue hcause pipeline, ?_, h.known, h.world⟩
    dsimp only [withEngine]
    rw [hrecorded, h.debounce]
  exact hwaits.clearHealth (.pipeline pipeline)

theorem RespeltAs.conclude (h : s.RespeltAs s') {p p' : Pipeline} (hp : p.RespeltAs p') (kind : TriggerKind)
    {outcome outcome' : Outcome} (houtcome : outcome.RespeltAs outcome') :
    AnswersAlike Outcome.RespeltAs (s.conclude collab p kind outcome).1 (s'.conclude collab p' kind outcome').1 ∧
      (s.conclude collab p kind outcome).2.RespeltAs (s'.conclude collab p' kind outcome').2 := by
  cases houtcome with
  | noModifications hmissing => exact ⟨.ok (.noModifications hmissing), h.report _ _⟩
  | rejected rejection => exact ⟨.ok (.rejected rejection), h.report _ _⟩
  | succeeded hcause =>
    rw [Session.conclude, Session.conclude, ← h.world, ← hp.name]
    split
    · exact ⟨.error _, h⟩
    · exact ⟨.ok (.succeeded hcause), h.accept p.name kind hcause⟩

/-- A forced cause waits in both queues or in neither. -/
theorem RespeltAs.forcedPending_iff (h : s.RespeltAs s') (name : PipelineName) :
    s.ForcedPending name ↔ s'.ForcedPending name := by
  have hforced : (s.engine.queue.pending name).any BuildCause.isForced =
      (s'.engine.queue.pending name).any BuildCause.isForced := by
    obtain ⟨hnone, hnone'⟩ | ⟨cause, cause', hcause, hcause', hrespelt⟩ := cases_of_rel (h.queue name)
    · rw [hnone, hnone']
    · rw [hcause, hcause']
      cases hrespelt
      rfl
  rw [ForcedPending, ForcedPending, hforced]

section

variable (hfolds : collab.FoldsNames)

include hfolds

theorem RespeltAs.attempt (h : s.RespeltAs s') {p p' : Pipeline} (hp : p.RespeltAs p') (event : TriggerEvent) :
    AnswersAlike Outcome.RespeltAs (s.attempt collab p event).1 (s'.attempt collab p' event).1 ∧
      (s.attempt collab p event).2.RespeltAs (s'.attempt collab p' event).2 := by
  have hdecision : Attempt.Matches Outcome.RespeltAs (s.decision collab p event) (s'.decision collab p' event) := by
    rw [decision, decision, ← h.settings, ← h.debounce]
    exact Attempt.decide_respelt hfolds h.snapshot hp s.engine.debounce event
  obtain ⟨hanswer, hperformed⟩ := h.perform hdecision
  rw [attempt_eq, attempt_eq, ← h.settings]
  revert hanswer hperformed
  generalize s.perform (s.decision collab p event) = performed
  generalize s'.perform (s'.decision collab p' event) = performed'
  obtain ⟨answer, t⟩ := performed
  obtain ⟨answer', t'⟩ := performed'
  -- both break off, or both come to outcomes to conclude
  rintro (⟨interruption⟩ | houtcome) hperformed
  · exact ⟨.error _, hperformed.report _ _⟩
  · exact hperformed.conclude hp event.kind houtcome

theorem RespeltAs.schedule (h : s.RespeltAs s') (name : PipelineName) (event : TriggerEvent) :
    AnswersAlike Outcome.RespeltAs (s.schedule collab name event).1 (s'.schedule collab name event).1 ∧
      (s.schedule collab name event).2.RespeltAs (s'.schedule collab name event).2 := by
  obtain ⟨hp, hp'⟩ | ⟨p, p', hp, hp', hpipeline⟩ := h.snapshot.pipeline?_cases name
  · rw [Session.schedule, Session.schedule, hp, hp']
    exact ⟨.error _, h⟩
  · have hlock : (s.lock name).RespeltAs (s'.lock name) :=
      ⟨h.settings, h.snapshot, h.queue, h.debounce, h.known, h.world⟩
    rw [schedule_of_declared collab hp, schedule_of_declared collab hp', ← h.world, ← hpipeline.timer, ← hpipeline.name]
    split
    · exact ⟨.error _, hlock⟩
    · split
      · exact ⟨.error _, hlock⟩
      · by_cases hforced : s.ForcedPending p.name
        · rw [if_pos hforced, if_pos ((h.forcedPending_iff p.name).mp hforced)]
          exact ⟨.ok (.rejected _), hlock.report _ _⟩
        · rw [if_neg hforced, if_neg (mt (h.forcedPending_iff p.name).mpr hforced)]
          exact hlock.attempt hfolds hpipeline event

/-- A name may be spelled in another way too. -/
theorem RespeltAs.schedule_of_same (h : s.RespeltAs s') {name name' : PipelineName} (hsame : name.same name' = true)
    (event : TriggerEvent) : (s.schedule collab name event).2.RespeltAs (s'.schedule collab name' event).2 := by
  by_cases hdeclared : s'.engine.snapshot.declares name = true
  · rw [Session.schedule_of_same hdeclared hsame]
    exact (h.schedule hfolds name event).2.withLocks _
  · have hundeclared := Bool.eq_false_of_not_eq_true hdeclared
    have hundeclared' := hundeclared
    rw [s'.engine.snapshot.declares_congr hsame] at hundeclared'
    rw [← h.snapshot.declares] at hundeclared
    rw [schedule_of_undeclared collab hundeclared, schedule_of_undeclared collab hundeclared']
    exact h

theorem RespeltAs.scheduleAll (h : s.RespeltAs s') (event : TriggerEvent) (names : List PipelineName) :
    (s.scheduleAll collab event names).2.RespeltAs (s'.scheduleAll collab event names).2 := by
  induction names generalizing s s' with
  | nil => exact h
  | cons name rest ih => exact ih (h.schedule hfolds name event).2

end

/-! ### What else can happen -/

theorem RespeltAs.publish (h : s.RespeltAs s') {snapshot snapshot' : Snapshot}
    (hsnapshot : snapshot.RespeltAs snapshot') : (s.publish collab snapshot).RespeltAs (s'.publish collab snapshot') := by
  rw [publish_eq, publish_eq]
  refine ⟨h.settings, hsnapshot, h.queue, ?_, ?_, h.world⟩
  · dsimp only
    rw [h.snapshot.contains_pipelineNames, hsnapshot.declares, h.debounce]
  · dsimp only
    rw [hsnapshot.materialFingerprints, h.known]

theorem RespeltAs.reload (h : s.RespeltAs s') {c c' : Configuration} (hc : c.RespeltAs c') :
    (s.reload collab c).2.RespeltAs (s'.reload collab c').2 := by
  rw [Session.reload, Session.reload, ← h.snapshot.version]
  obtain ⟨built, built', hbuild, hbuild', hsnapshot⟩ | ⟨errors, errors', hbuild, hbuild', -⟩ :=
    hc.build (s.engine.snapshot.version + 1)
  · rw [hbuild, hbuild']
    exact h.publish hsnapshot
  · rw [hbuild, hbuild']
    dsimp only
    rw [reports_eq, reports_eq]
    exact ⟨h.settings, h.snapshot, h.queue, h.debounce, h.known, h.world⟩

theorem RespeltAs.follow (h : s.RespeltAs s') {configurations configurations' : List Configuration}
    (hall : List.Forall₂ Configuration.RespeltAs configurations configurations') :
    (s.follow collab configurations).2.RespeltAs (s'.follow collab configurations').2 := by
  induction hall generalizing s s' with
  | nil => exact h
  | cons hc _ ih => exact ih (h.reload hc)

section

variable (hfolds : collab.FoldsNames)

include hfolds

theorem RespeltAs.latest (h : s.RespeltAs s') {m m' : Material} (hm : m.RespeltAs m') :
    (s.latest collab m).2.RespeltAs (s'.latest collab m').2 := by
  have hlatest : Attempt.Matches Eq (Attempt.latest collab none s.engine.snapshot m)
      (Attempt.latest collab none s'.engine.snapshot m') := by
    rw [Attempt.latest_eq, Attempt.latest_eq, Collaborators.reportOn_respelt hfolds h.snapshot hm]
    simp only [Attempt.update_respelt hm]
    exact Attempt.matches_self _
  exact (h.perform hlatest).2

theorem RespeltAs.resolve (h : s.RespeltAs s') (name : PipelineName) (overrides : Overrides) :
    AnswersAlike Resolution.RespeltAs (s.resolve collab name overrides).1 (s'.resolve collab name overrides).1 ∧
      (s.resolve collab name overrides).2.RespeltAs (s'.resolve collab name overrides).2 := by
  obtain ⟨hp, hp'⟩ | ⟨p, p', hp, hp', hpipeline⟩ := h.snapshot.pipeline?_cases name
  · rw [Session.resolve, Session.resolve, hp, hp']
    exact ⟨.error _, h⟩
  · have hresolve : Attempt.Matches Resolution.RespeltAs
        (Attempt.resolve collab none s.engine.snapshot p overrides)
        (Attempt.resolve collab none s'.engine.snapshot p' overrides) :=
      Attempt.resolve_respelt hfolds h.snapshot hpipeline overrides
    obtain ⟨hanswer, hafter⟩ := h.perform hresolve
    rw [Session.resolve, Session.resolve, hp, hp']
    exact ⟨hanswer.mapError _, hafter⟩

/-- It leaves the same under another spelling of the name, but an error repeats the spelling. -/
theorem RespeltAs.resolve_of_same (h : s.RespeltAs s') {name name' : PipelineName} (hsame : name.same name' = true)
    (overrides : Overrides) :
    (s.resolve collab name overrides).2.RespeltAs (s'.resolve collab name' overrides).2 := by
  have hresolve : (s'.resolve collab name' overrides).2 = (s'.resolve collab name overrides).2 := by
    rw [Session.resolve, Session.resolve, s'.engine.snapshot.pipeline?_of_same hsame]
    split <;> rfl
  rw [hresolve]
  exact (h.resolve hfolds name overrides).2

end

end Session

end BuildScheduling
