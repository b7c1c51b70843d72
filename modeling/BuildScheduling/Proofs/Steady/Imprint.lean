import BuildScheduling.Proofs.Health.Notes
import BuildScheduling.Proofs.Queue.ForcedCause
import BuildScheduling.Proofs.Steady.Attempt

/-!
# The imprint of an attempt

On a steady world an attempt on a name answers the same and leaves the same behind in all sessions that are
alike to it (`Session.Alike`): with the same settings and snapshot, the same answer to whether a forced cause
waits for the name and what its timer fired with last, and the same latest revisions to be seen. What it
answers and leaves behind is its imprint (`exists_imprint`). Imprints on different names can be made in any
order (`write_comm`), and do not disturb what the other attempt goes by (`Alike.mark`).
-/

namespace BuildScheduling

/-! ### Optional entries -/

namespace SortedMap

variable {κ α : Type} [Ord κ] [Std.TransOrd κ]

/-- Writes an entry, if there is one. -/
def insert? (m : SortedMap κ α) : Option (κ × α) → SortedMap κ α
  | some e => m.insert e.1 e.2
  | none => m

theorem insert?_comm (m : SortedMap κ α) {first second : Option (κ × α)}
    (h : ∀ e ∈ first, ∀ e' ∈ second, compare e.1 e'.1 ≠ .eq) :
    (m.insert? first).insert? second = (m.insert? second).insert? first := by
  cases first with
  | none => rfl
  | some e =>
    cases second with
    | none => rfl
    | some e' => exact m.alter_comm (h e rfl e' rfl) _ _

theorem insert?_again (m : SortedMap κ α) (entry : Option (κ × α)) :
    (m.insert? entry).insert? entry = m.insert? entry := by
  cases entry with
  | none => rfl
  | some e => exact m.insert_insert_self e.1 e.2

theorem get?_insert?_of_ne (m : SortedMap κ α) {entry : Option (κ × α)} {j : κ}
    (h : ∀ e ∈ entry, compare j e.1 ≠ .eq) : (m.insert? entry).get? j = m.get? j := by
  cases entry with
  | none => rfl
  | some e => rw [insert?, get?_insert, if_neg (h e rfl)]

end SortedMap

/-! ### Imprints -/

/-- What an attempt answers and leaves behind. -/
structure Imprint where
  answer : Except Failure Outcome
  locked : Option (PipelineName × Unit) := none
  /-- The materials that it looks at. -/
  touched : List Fingerprint := []
  queued : Option (PipelineName × BuildCause) := none
  /-- What a timer fired with. -/
  fired : Option (PipelineName × FingerprintMap String) := none
  note : HealthNote := .nothing

namespace Imprint

variable (offers : Fingerprint → List Revision)

/-- The engine with all that an attempt leaves outside the health log. -/
def write (i : Imprint) (e : Engine) : Engine :=
  { e with
    queue := e.queue.insert? i.queued
    debounce := e.debounce.insert? i.fired
    locks := e.locks.insert? i.locked
    known := e.known.refresh offers i.touched }

/-- The engine with all that an attempt leaves. -/
def mark (i : Imprint) (e : Engine) : Engine :=
  { i.write offers e with health := i.note.on e.health }

/-- All that is written concerns one name. -/
structure On (i : Imprint) (name : PipelineName) : Prop where
  locked : ∀ e ∈ i.locked, e.1.same name = true
  queued : ∀ e ∈ i.queued, e.1.same name = true
  fired : ∀ e ∈ i.fired, e.1.same name = true
  note : ∀ scope ∈ i.note.scope?, scope.same (.pipeline name) = true

variable {offers} {i j : Imprint} {a b : PipelineName}

/-- An attempt that queues nothing at most locks its name, looks at materials and leaves a note. -/
theorem on_locked (name : PipelineName) (answer : Except Failure Outcome) (touched : List Fingerprint)
    {note : HealthNote} (hnote : ∀ scope ∈ note.scope?, scope.same (.pipeline name) = true) :
    On { answer, locked := some (name, ()), touched, note } name :=
  ⟨by simp [Name.same_refl], by simp, by simp, hnote⟩

theorem compare_ne_of_same {k l : PipelineName} (hk : k.same a = true) (hl : l.same b = true)
    (hab : ¬ a.same b = true) : compare k l ≠ .eq := by
  intro h
  rw [← Name.same_iff_compare] at h
  rw [Name.same_comm] at hk
  exact hab (Name.same_trans (Name.same_trans hk h) hl)

theorem write_comm (hi : i.On a) (hj : j.On b) (hab : ¬ a.same b = true) (e : Engine) :
    j.write offers (i.write offers e) = i.write offers (j.write offers e) := by
  have hqueue := SortedMap.insert?_comm e.queue fun k hk l hl =>
    compare_ne_of_same (hi.queued k hk) (hj.queued l hl) hab
  have hdebounce := SortedMap.insert?_comm e.debounce fun k hk l hl =>
    compare_ne_of_same (hi.fired k hk) (hj.fired l hl) hab
  have hlocks := SortedMap.insert?_comm e.locks fun k hk l hl =>
    compare_ne_of_same (hi.locked k hk) (hj.locked l hl) hab
  have hknown : (e.known.refresh offers i.touched).refresh offers j.touched =
      (e.known.refresh offers j.touched).refresh offers i.touched := LatestKnown.refresh_comm _ _ _
  simp only [write, hqueue, hdebounce, hlocks, hknown]

theorem write_again (i : Imprint) (e : Engine) :
    i.write offers (i.write offers e) = i.write offers e := by
  simp only [write, SortedMap.insert?_again, LatestKnown.refresh_again]

end Imprint

/-! ### Sessions that are alike -/

namespace Session

variable {σ : Type} {collab : Collaborators σ} {offers : Fingerprint → List Revision} {Good : σ → Prop}

/-- What an attempt on a name goes by is the same in two sessions, the world apart. -/
structure Alike (offers : Fingerprint → List Revision) (name : PipelineName) (s t : Session σ) : Prop where
  settings : t.engine.settings = s.engine.settings
  snapshot : t.engine.snapshot = s.engine.snapshot
  forced : t.ForcedPending name ↔ s.ForcedPending name
  debounce : t.engine.debounce.get? name = s.engine.debounce.get? name
  seen : t.engine.known.seen offers = s.engine.known.seen offers

theorem Alike.refl (name : PipelineName) (s : Session σ) : Alike offers name s s :=
  ⟨rfl, rfl, Iff.rfl, rfl, rfl⟩

/-- Another health log makes no difference. -/
theorem Alike.withLog {name : PipelineName} {s t : Session σ} (h : Alike offers name s t) (log : HealthLog) :
    Alike offers name s (t.withLog log) :=
  ⟨h.settings, h.snapshot, h.forced, h.debounce, h.seen⟩

/-- The imprint of an attempt on another name makes no difference. -/
theorem Alike.mark {name other : PipelineName} {s t : Session σ} (h : Alike offers name s t) {i : Imprint}
    (hi : i.On other) (hdiffer : ¬ other.same name = true) (w : σ) :
    Alike offers name s ⟨i.mark offers t.engine, w⟩ := by
  have hne : ∀ k : PipelineName, k.same other = true → compare name k ≠ .eq := fun k hk =>
    Imprint.compare_ne_of_same (Name.same_refl name) hk (by rwa [Name.same_comm])
  have hpending : ScheduleQueue.pending (t.engine.queue.insert? i.queued) name =
      t.engine.queue.pending name :=
    SortedMap.get?_insert?_of_ne t.engine.queue fun e he => hne e.1 (hi.queued e he)
  have hdebounce := SortedMap.get?_insert?_of_ne t.engine.debounce fun e he => hne e.1 (hi.fired e he)
  refine ⟨h.settings, h.snapshot, ?_, hdebounce.trans h.debounce,
    (LatestKnown.seen_refresh t.engine.known i.touched).trans h.seen⟩
  rw [← h.forced]
  show (ScheduleQueue.pending (t.engine.queue.insert? i.queued) name).any BuildCause.isForced = true ↔ _
  rw [hpending]
  rfl

/-! ### What an attempt leaves -/

/-- The decision depends on what the timers remember only through the pipeline's own entry. -/
theorem decision_congr {s t : Session σ} {p : Pipeline} (event : TriggerEvent)
    (hsettings : t.engine.settings = s.engine.settings) (hsnapshot : t.engine.snapshot = s.engine.snapshot)
    (hdebounce : t.engine.debounce.get? p.name = s.engine.debounce.get? p.name) :
    t.decision collab p event = s.decision collab p event := by
  have hrevisions : ∀ revisions, decideRevisions t.engine.debounce p event revisions =
      decideRevisions s.engine.debounce p event revisions := by
    intro revisions
    cases event with
    | auto => rfl
    | manual user overrides => rfl
    | timer =>
      have hrun : t.engine.debounce.hasRunWith p.name revisions =
          s.engine.debounce.hasRunWith p.name revisions := by
        rw [TimerDebounce.hasRunWith, hdebounce, TimerDebounce.hasRunWith]
      rw [decideRevisions, hrun, decideRevisions]
  unfold decision Attempt.decide
  simp only [hsettings, hsnapshot, hrevisions]

theorem on_reportNote {name pipeline : PipelineName} (h : pipeline.same name = true) (w : σ)
    {r : HealthReport} (hr : r.scope = .pipeline pipeline) :
    ∀ scope ∈ (reportNote collab w r).scope?, scope.same (.pipeline name) = true := by
  unfold reportNote
  split
  · simp [HealthNote.scope?]
  · simpa [HealthNote.scope?, hr, HealthScope.same] using h

theorem on_clearNote {name pipeline : PipelineName} (h : pipeline.same name = true) (w : σ) :
    ∀ scope ∈ (clearNote collab w (.pipeline pipeline)).scope?, scope.same (.pipeline name) = true := by
  unfold clearNote
  split
  · simp [HealthNote.scope?]
  · simpa [HealthNote.scope?, HealthScope.same] using h

/-- The imprint of an attempt that is decided, from the decision and the materials that were looked at. -/
def decisionImprint (collab : Collaborators σ) (w : σ) (timeoutSecs : Nat) (name pipeline : PipelineName)
    (kind : TriggerKind) (touched : List Fingerprint) : Except Interruption Outcome → Imprint
  | .error interruption =>
    { answer := .error (failureOf timeoutSecs interruption)
      locked := some (name, ())
      touched := touched
      note := reportNote collab w (failureReport pipeline (failureOf timeoutSecs interruption)) }
  | .ok (.rejected rejection) =>
    { answer := .ok (.rejected rejection)
      locked := some (name, ())
      touched := touched
      note := reportNote collab w (rejectionReport pipeline rejection) }
  | .ok (.succeeded cause) =>
    match collab.enqueueOutage w with
    | some message => { answer := .error (.queue message), locked := some (name, ()), touched := touched }
    | none =>
      { answer := .ok (.succeeded cause)
        locked := some (name, ())
        touched := touched
        queued := some (pipeline, cause)
        fired := if kind = .timer then some (pipeline, revisionSet cause.materialRevisions) else none
        note := clearNote collab w (.pipeline pipeline) }

theorem on_decisionImprint {name pipeline : PipelineName} (h : pipeline.same name = true) (w : σ)
    (timeoutSecs : Nat) (kind : TriggerKind) (touched : List Fingerprint)
    (answer : Except Interruption Outcome) :
    (decisionImprint collab w timeoutSecs name pipeline kind touched answer).On name := by
  unfold decisionImprint
  split
  · exact Imprint.on_locked name _ touched (on_reportNote h w rfl)
  · exact Imprint.on_locked name _ touched (on_reportNote h w rfl)
  · split
    · exact Imprint.on_locked name _ touched (by simp [HealthNote.scope?])
    · refine ⟨by simp [Name.same_refl], by simpa using h, ?_, on_clearNote h w⟩
      split
      · simpa using h
      · simp

/-- What an attempt does with its decision. -/
theorem attempt_eq_mark {t : Session σ} {name : PipelineName} {p : Pipeline} {event : TriggerEvent}
    {answer : Except Interruption Outcome} {touched : List Fingerprint} {w w' : σ}
    (hperform : (t.lock name).perform ((t.lock name).decision collab p event) =
      (answer, ⟨{ (t.lock name).engine with known := t.engine.known.refresh offers touched }, w'⟩))
    (henqueue : collab.enqueueOutage w' = collab.enqueueOutage w)
    (hreport : collab.reportOutage w' = collab.reportOutage w)
    (hclear : collab.clearOutage w' = collab.clearOutage w) :
    let i := decisionImprint collab w t.engine.settings.resolutionTimeout.toNat name p.name event.kind touched
      answer
    (t.lock name).attempt collab p event = (i.answer, ⟨i.mark offers t.engine, w'⟩) := by
  rw [attempt_eq, hperform]
  rcases answer with interruption | cause | rejection
  · dsimp only
    rw [reportFailure, report_eq _ hreport]
    rfl
  · simp only [conclude, decisionImprint, henqueue]
    cases collab.enqueueOutage w with
    | some message => rfl
    | none =>
      simp only [accept]
      rw [clearHealth_eq _ hclear]
      by_cases hkind : event.kind = .timer
      · simp only [Imprint.mark, Imprint.write, hkind, if_true]
        rfl
      · simp only [Imprint.mark, Imprint.write, hkind, if_false]
        rfl
  · simp only [conclude]
    rw [reportRejection, report_eq _ hreport]
    rfl

section

variable {s : Session σ} (hsteady : collab.Steady s.engine.snapshot offers Good) (hs : Good s.world)
  {name : PipelineName}

include hsteady hs

theorem exists_imprint_attempt {p : Pipeline} (hp : s.engine.snapshot.pipeline? name = some p)
    (event : TriggerEvent) :
    ∃ i : Imprint, i.On name ∧ ∀ t : Session σ, Alike offers name s t → Good t.world → ∃ w, Good w ∧
      (t.lock name).attempt collab p event = (i.answer, ⟨i.mark offers t.engine, w⟩) := by
  have hsame := same_of_pipeline? hp
  obtain ⟨answer, touched, elapsed, hon⟩ := Attempt.repeatable_decide
    (some (s.engine.settings.resolutionTimeout.toNat * 1000)) hsteady (mem_of_pipeline? hp)
    s.engine.debounce event 0 (s.engine.known.seen offers)
  refine ⟨decisionImprint collab s.world s.engine.settings.resolutionTimeout.toNat name p.name event.kind
    touched answer, on_decisionImprint hsame _ _ _ _ _, fun t halike hgood => ?_⟩
  obtain ⟨w, hw, hanswer⟩ := hon t.world t.engine.known hgood halike.seen
  have hentry : t.engine.debounce.get? p.name = s.engine.debounce.get? p.name := by
    rw [Name.get?_of_same _ hsame, halike.debounce, Name.get?_of_same _ hsame]
  have hdecision : (t.lock name).decision collab p event = s.decision collab p event :=
    decision_congr event halike.settings halike.snapshot hentry
  have hdecided : (s.decision collab p event).on (t.lock name).progress =
      (answer, ⟨w, t.engine.known.refresh offers touched, elapsed⟩) := hanswer
  refine ⟨w, hw, ?_⟩
  rw [← halike.settings]
  exact attempt_eq_mark (by rw [hdecision, perform_eq, hdecided]) (hsteady.enqueueOutage _ _ hs hw)
    (hsteady.reportOutage _ _ hs hw) (hsteady.clearOutage _ _ hs hw)

/-- An attempt on any name makes an imprint on this name: the same in all sessions that are alike and in good
worlds. -/
theorem exists_imprint (name : PipelineName) (event : TriggerEvent) :
    ∃ i : Imprint, i.On name ∧ ∀ t : Session σ, Alike offers name s t → Good t.world → ∃ w, Good w ∧
      t.schedule collab name event = (i.answer, ⟨i.mark offers t.engine, w⟩) := by
  have hquiet : ∀ scope ∈ HealthNote.scope? .nothing, scope.same (.pipeline name) = true := by
    simp [HealthNote.scope?]
  cases hp : s.engine.snapshot.pipeline? name with
  | none =>
    refine ⟨{ answer := .error (.pipelineNotFound name) }, ⟨by simp, by simp, by simp, hquiet⟩,
      fun t halike hgood => ⟨t.world, hgood, ?_⟩⟩
    rw [schedule, halike.snapshot, hp]
    rfl
  | some p =>
    have hsame := same_of_pipeline? hp
    by_cases htimer : event.kind = .timer ∧ p.timer = none
    · refine ⟨{ answer := .error (.noTimer p.name), locked := some (name, ()) },
        Imprint.on_locked name _ [] hquiet, fun t halike hgood => ⟨t.world, hgood, ?_⟩⟩
      rw [schedule, halike.snapshot, hp]
      simp only [htimer, Option.isNone_none, and_self, if_true]
      rfl
    have htimed : event.kind = .timer → p.timer ≠ none := fun hkind hnone => htimer ⟨hkind, hnone⟩
    cases hqueue : collab.pendingOutage s.world with
    | some message =>
      refine ⟨{ answer := .error (.queue message), locked := some (name, ()) },
        Imprint.on_locked name _ [] hquiet, fun t halike hgood => ⟨t.world, hgood, ?_⟩⟩
      have hqueue' : collab.pendingOutage t.world = some message := by
        rw [hsteady.pendingOutage _ _ hs hgood, hqueue]
      have hp' : t.engine.snapshot.pipeline? name = some p := halike.snapshot ▸ hp
      rw [schedule_of_declared collab hp', if_neg (not_untimed htimed), hqueue']
      rfl
    | none =>
      have hqueue' : ∀ t : Session σ, Good t.world → collab.pendingOutage t.world = none := fun t hgood => by
        rw [hsteady.pendingOutage _ _ hs hgood, hqueue]
      by_cases hforced : s.ForcedPending name
      · refine ⟨{ answer := .ok (.rejected .alreadyScheduled), locked := some (name, ()), note :=
            reportNote collab s.world (rejectionReport p.name .alreadyScheduled) },
          Imprint.on_locked name _ [] (on_reportNote hsame _ rfl), fun t halike hgood =>
            ⟨t.world, hgood, ?_⟩⟩
        rw [schedule_of_forcedPending collab event (halike.forced.mpr hforced), halike.snapshot, hp]
        simp only [if_neg (not_untimed htimed), hqueue' t hgood]
        rw [reportRejection, report_eq (t.lock name) (hsteady.reportOutage s.world t.world hs hgood)]
        rfl
      · obtain ⟨i, hi, himprint⟩ := exists_imprint_attempt hsteady hs hp event
        refine ⟨i, hi, fun t halike hgood => ?_⟩
        obtain ⟨w, hw, hattempt⟩ := himprint t halike hgood
        refine ⟨w, hw, ?_⟩
        rw [schedule_eq_attempt (halike.snapshot ▸ hp) htimed (hqueue' t hgood), hattempt]
        rwa [forcedPending_congr t hsame, halike.forced]

end

end Session

end BuildScheduling
