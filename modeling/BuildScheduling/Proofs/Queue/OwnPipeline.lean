import BuildScheduling.Proofs.Queue.ForcedCause

/-!
# An attempt touches its own pipeline only

Of the causes that wait and of what the timers remember, an attempt that succeeds changes what belongs to its
pipeline, and an attempt that does not succeed changes nothing, wherever it breaks off
(`attempt_touches_own_pipeline`). It writes nothing of the two before it has its cause: `attempt_cases` says so
of all exits at once, and what is resolved on the way goes to the latest known revisions only.

So one attempt after another, as a tick or a notification makes them, touches just the pipelines for which one
of them succeeds (`untouched_scheduleAll`).
-/

namespace BuildScheduling.Session

variable {σ : Type} {collab : Collaborators σ} {s s' t u : Session σ} {name other : PipelineName}

/-- The same cause waits for a pipeline, or none as before, and its timer remembers the same. -/
structure Untouched (s s' : Session σ) (name : PipelineName) : Prop where
  pending : s'.engine.queue.pending name = s.engine.queue.pending name
  debounce : s'.engine.debounce.get? name = s.engine.debounce.get? name

theorem Untouched.refl (s : Session σ) (name : PipelineName) : Untouched s s name := ⟨rfl, rfl⟩

theorem Untouched.trans (h : Untouched s t name) (h' : Untouched t u name) : Untouched s u name :=
  ⟨h'.pending.trans h.pending, h'.debounce.trans h.debounce⟩

theorem Quiet.untouched (h : Quiet s s') (name : PipelineName) : Untouched s s' name :=
  ⟨by rw [h.queue], by rw [h.debounce]⟩

theorem Queued.untouched {p : Pipeline} {kind : TriggerKind} {cause : BuildCause}
    (h : Queued s s' p kind cause) (hother : ¬ other.same p.name = true) : Untouched s s' other where
  pending := by rw [h.pending, if_neg hother]
  debounce := by rw [h.get?_debounce, if_neg fun hown => hother hown.2]

/-- A success is the only way to touch a pipeline, and it touches no other one. -/
theorem untouched_schedule {event : TriggerEvent}
    (h : ∀ cause, (s.schedule collab name event).1 = .ok (.succeeded cause) → ¬ other.same name = true) :
    Untouched s (s.schedule collab name event).2 other := by
  rcases s.schedule_cases collab name event with ⟨p, cause, hp, -, hanswer, hqueued⟩ | ⟨-, hquiet⟩
  · exact hqueued.untouched fun hsame => h cause hanswer (Name.same_trans hsame (same_of_pipeline? hp))
  · exact hquiet.untouched other

/-- Attempts one after another leave a pipeline alone that none of them succeeds for. -/
theorem untouched_scheduleAll {event : TriggerEvent} {names : List PipelineName}
    (h : ∀ e ∈ (s.scheduleAll collab event names).1, ∀ cause, e.2 = .ok (.succeeded cause) →
      ¬ other.same e.1 = true) : Untouched s (s.scheduleAll collab event names).2 other := by
  induction names generalizing s with
  | nil => exact .refl s other
  | cons name rest ih =>
    obtain ⟨hfirst, hrest⟩ := List.forall_mem_cons.mp h
    exact (untouched_schedule hfirst).trans (ih hrest)

/-- An attempt leaves the snapshot as it is. One that does not succeed leaves the queue and the memory of the
timers as they are too, whatever it is that stops it. One that succeeds is on a declared pipeline that no
forced cause waits for: its cause waits from then on, whatever waited before, a timer remembers the revisions of
the cause, no other event makes a timer remember anything, and all other pipelines are untouched. -/
theorem attempt_touches_own_pipeline (collab : Collaborators σ) (s : Session σ) (name : PipelineName)
    (event : TriggerEvent) :
    let after := s.schedule collab name event
    after.2.engine.snapshot = s.engine.snapshot ∧
    ((∀ cause, after.1 ≠ .ok (.succeeded cause)) →
      after.2.engine.queue = s.engine.queue ∧ after.2.engine.debounce = s.engine.debounce) ∧
    ∀ cause, after.1 = .ok (.succeeded cause) →
      s.engine.snapshot.declares name = true ∧ ¬ s.ForcedPending name ∧
      after.2.engine.queue.pending name = some cause ∧
      (event.kind = .timer →
        after.2.engine.debounce.get? name = some (revisionSet cause.materialRevisions)) ∧
      (event.kind ≠ .timer → after.2.engine.debounce = s.engine.debounce) ∧
      ∀ other : PipelineName, ¬ other.same name = true → Untouched s after.2 other := by
  intro after
  rcases s.schedule_cases collab name event with ⟨p, cause, hp, hfree, hanswer, hqueued⟩ | ⟨hnone, hquiet⟩
  · have hsame := same_of_pipeline? hp
    have hname : name.same p.name = true := by rwa [Name.same_comm]
    refine ⟨hqueued.snapshot, fun hnone => absurd hanswer (hnone cause), fun another hanother => ?_⟩
    obtain rfl : cause = another := by
      rw [show after.1 = .ok (.succeeded cause) from hanswer] at hanother
      cases hanother
      rfl
    refine ⟨Snapshot.declares_iff.mpr ⟨p, mem_of_pipeline? hp, hsame⟩,
      fun hforced => hfree ((forcedPending_congr s hsame).mpr hforced), hqueued.pending_of_same hsame, fun hkind => ?_,
      fun hkind => ?_, fun other hother => ?_⟩
    · rw [hqueued.get?_debounce, if_pos ⟨hkind, hname⟩]
    · rw [hqueued.debounce, if_neg hkind]
    · exact hqueued.untouched fun hown => hother (Name.same_trans hown hsame)
  · exact ⟨hquiet.snapshot, fun _ => ⟨hquiet.queue, hquiet.debounce⟩,
      fun cause hanswer => absurd hanswer (hnone cause)⟩

def laterRevisions : List MaterialRevision := [⟨Samples.git "app", Samples.checkIn "r2" 5, true⟩]

def eveningConfiguration : Configuration :=
  { pipelines := [Samples.timed ⟨"app"⟩ (Samples.git "app") true, Samples.simple ⟨"lib"⟩ (Samples.git "app")] }

/-- A change waits for `app` and for `lib` when there is another check-in. There may be a reason why the repository
cannot be reached then. -/
def dayOfChanges (failure : Option String) : List Operation :=
  [.world (.checkIn (Samples.git "app") (Samples.checkIn "r1" 0)), .request (.attempt ⟨"app"⟩ .auto),
    .request (.attempt ⟨"lib"⟩ .auto), .world (.checkIn (Samples.git "app") (Samples.checkIn "r2" 5))] ++
    failure.toList.map fun message => .world (.fail message)

/-- The timer of `app` is due after such a day. -/
def evening (failure : Option String) : Session InMemory := reading {} eveningConfiguration (dayOfChanges failure)

theorem evening_eq (failure : Option String) :
    evening failure = (published {} eveningConfiguration).run .inMemory (dayOfChanges failure) :=
  reading_eq (by decide +kernel) {} _

set_option maxRecDepth 100000 in
/-- The cause of a timer replaces what waited for its pipeline, and nothing else. If the repository cannot be
reached, what waited before still waits, and the timer remembers nothing. -/
theorem timer_of_app_replaces_change_unless_unreachable :
    ((evening none).schedule InMemory.collaborators ⟨"app"⟩ .timer).1 =
      .ok (.succeeded (.ofTimer laterRevisions)) ∧
    ((evening none).schedule InMemory.collaborators ⟨"app"⟩ .timer).2.engine.queue.pending ⟨"app"⟩ =
      some (.ofTimer laterRevisions) ∧
    ((evening none).schedule InMemory.collaborators ⟨"app"⟩ .timer).2.engine.debounce.get? ⟨"app"⟩ =
      some (revisionSet laterRevisions) ∧
    Untouched (evening none) ((evening none).schedule InMemory.collaborators ⟨"app"⟩ .timer).2 ⟨"lib"⟩ ∧
    ((evening "offline").schedule InMemory.collaborators ⟨"app"⟩ .timer).1 =
      .error (.resolution "offline") ∧
    ((evening "offline").schedule InMemory.collaborators ⟨"app"⟩ .timer).2.engine.queue =
      (evening "offline").engine.queue ∧
    ((evening "offline").schedule InMemory.collaborators ⟨"app"⟩ .timer).2.engine.debounce = ∅ := by
  have hfires : ((evening none).schedule InMemory.collaborators ⟨"app"⟩ .timer).1 =
      .ok (.succeeded (.ofTimer laterRevisions)) := by
    rw [evening_eq]
    decide +kernel
  obtain ⟨hfails, hforgotten⟩ : ((evening "offline").schedule InMemory.collaborators ⟨"app"⟩ .timer).1 =
      .error (.resolution "offline") ∧ (evening "offline").engine.debounce = ∅ := by
    rw [evening_eq]
    decide +kernel
  have hunanswered : ∀ cause, ((evening "offline").schedule InMemory.collaborators ⟨"app"⟩ .timer).1 ≠
      .ok (.succeeded cause) := by
    intro cause hcause
    rw [hfails] at hcause
    cases hcause
  have hlib : ¬ (⟨"lib"⟩ : PipelineName).same ⟨"app"⟩ = true := by simp [Name.same_iff_toList]
  obtain ⟨-, -, hpending, hremembers, -, hothers⟩ :=
    (attempt_touches_own_pipeline InMemory.collaborators (evening none) ⟨"app"⟩ .timer).2.2 _ hfires
  obtain ⟨hqueue, hdebounce⟩ :=
    (attempt_touches_own_pipeline InMemory.collaborators (evening "offline") ⟨"app"⟩ .timer).2.1 hunanswered
  exact ⟨hfires, hpending, hremembers rfl, hothers _ hlib, hfails, hqueue, hdebounce.trans hforgotten⟩

end BuildScheduling.Session
