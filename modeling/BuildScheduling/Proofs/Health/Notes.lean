import Mathlib.Data.List.DropRight
import Mathlib.Data.List.Forall2
import BuildScheduling.Proofs.Engine.Answer

/-!
# The health log is written and not read

What the engine does with its health log is to leave notes in it: reports, and scopes that it clears. Which
notes these are does not depend on the log, and nothing else does either (`Session.Unread`). So with another
log in the place of its own the engine makes the same notes, does the same to everything else, and answers the
same, except to those who ask for the log (`history_withLog`).

A log holds the last of its reports, as many as it has room for (`reports_reported`). That rests on the bound
of its length, which notes do not exceed, and notes are all that ever happens to a log (`bounded_run`).
-/

namespace BuildScheduling

variable {σ χ α : Type} {collab : Collaborators σ} {env : Environment σ χ}

/-- What a list keeps of itself and another one after it is what it keeps of all together. -/
theorem rtake_rtake_append {β : Type} (l rest : List β) (n : Nat) :
    (l.rtake n ++ rest).rtake n = (l ++ rest).rtake n := by
  have hdrop : l.rtake n ++ rest = (l ++ rest).drop (l.length - n) := by
    rw [List.rtake, List.drop_append_of_le_length (Nat.sub_le _ _)]
  have hlength : (l.rtake n ++ rest).length = (l.length - (l.length - n)) + rest.length := by
    rw [List.length_append, List.rtake, List.length_drop]
  rw [List.rtake, hlength, hdrop, List.drop_drop, List.rtake, List.length_append]
  congr 1
  omega

/-! ### Notes -/

/-- What is done to a health log. -/
inductive HealthNote where
  | nothing
  | report (r : HealthReport)
  | clear (scope : HealthScope)

namespace HealthNote

def on : HealthNote → HealthLog → HealthLog
  | nothing, log => log
  | report r, log => log.report r
  | clear scope, log => log.clear scope

def scope? : HealthNote → Option HealthScope
  | nothing => none
  | report r => some r.scope
  | clear scope => some scope

end HealthNote

namespace HealthLog

/-- Notes one after another. -/
def noted (log : HealthLog) (notes : List HealthNote) : HealthLog :=
  notes.foldl (fun log note => note.on log) log

theorem noted_append (log : HealthLog) (first second : List HealthNote) :
    log.noted (first ++ second) = (log.noted first).noted second :=
  List.foldl_append

theorem limit_noted (log : HealthLog) (notes : List HealthNote) : (log.noted notes).limit = log.limit := by
  induction notes generalizing log with
  | nil => rfl
  | cons note rest ih =>
    have hon : (note.on log).limit = log.limit := by cases note <;> rfl
    exact (ih (note.on log)).trans hon

theorem noted_nothing {β : Type} (log : HealthLog) (l : List β) :
    log.noted (l.map fun _ => .nothing) = log := by
  induction l with
  | nil => rfl
  | cons _ rest ih => exact ih

/-- The next report drops none. -/
def HasRoom (log : HealthLog) : Prop := log.reports.length < log.limit

instance (log : HealthLog) : Decidable log.HasRoom := inferInstanceAs (Decidable (_ < _))

/-- A log that keeps at least one report, and holds no more than it keeps. -/
structure Bounded (log : HealthLog) : Prop where
  positive : 0 < log.limit
  fits : log.reports.length ≤ log.limit

theorem bounded_new (limit : Nat) : (new limit).Bounded :=
  ⟨Nat.lt_of_lt_of_le Nat.one_pos (Nat.le_max_right limit 1), Nat.zero_le _⟩

theorem limit_report (log : HealthLog) (r : HealthReport) : (log.report r).limit = log.limit := rfl

theorem Bounded.reports_report {log : HealthLog} (h : log.Bounded) (r : HealthReport) :
    (log.report r).reports = (log.reports ++ [r]).rtake log.limit := by
  obtain ⟨hpositive, hfits⟩ := h
  rw [List.rtake, List.length_append, List.length_singleton]
  unfold report
  by_cases hfull : log.limit ≤ log.reports.length
  · have hone : log.reports.length + 1 - log.limit = 1 := by omega
    rw [if_pos hfull, hone, List.drop_append_of_le_length (by omega)]
  · have hzero : log.reports.length + 1 - log.limit = 0 := by omega
    rw [if_neg hfull, hzero, List.drop_zero]

theorem Bounded.report {log : HealthLog} (h : log.Bounded) (r : HealthReport) : (log.report r).Bounded := by
  refine ⟨h.positive, ?_⟩
  rw [h.reports_report, limit_report, List.rtake, List.length_drop]
  omega

theorem Bounded.on {log : HealthLog} (h : log.Bounded) (note : HealthNote) : (note.on log).Bounded := by
  cases note with
  | nothing => exact h
  | report r => exact h.report r
  | clear scope => exact ⟨h.positive, (List.length_filter_le _ _).trans h.fits⟩

theorem Bounded.noted {log : HealthLog} (h : log.Bounded) (notes : List HealthNote) :
    (log.noted notes).Bounded := by
  induction notes generalizing log with
  | nil => exact h
  | cons note rest ih => exact ih (h.on note)

/-- Of all that it held and that was reported to it, a log holds the last. -/
theorem Bounded.reports_reported {log : HealthLog} (h : log.Bounded) (reported : List HealthReport) :
    (log.noted (reported.map .report)).reports = (log.reports ++ reported).rtake log.limit := by
  induction reported generalizing log with
  | nil =>
    have hall : log.reports.length - log.limit = 0 := Nat.sub_eq_zero_of_le h.fits
    rw [List.append_nil, List.rtake, hall]
    rfl
  | cons r rest ih =>
    calc (log.noted ((r :: rest).map .report)).reports
        = ((log.report r).reports ++ rest).rtake log.limit := ih (h.report r)
      _ = ((log.reports ++ [r]).rtake log.limit ++ rest).rtake log.limit := by rw [h.reports_report]
      _ = (log.reports ++ r :: rest).rtake log.limit := by
        rw [rtake_rtake_append, List.append_assoc, List.singleton_append]

end HealthLog

/-- What the health log has of an error of a configuration. -/
def ConfigError.report (e : ConfigError) : HealthReport where
  scope := .configuration
  level := .error
  message := e.text

/-- Asks for what stands in the health log. -/
def Happening.AsksForHealth : Happening χ → Prop
  | .consume (.healthFor _) => True
  | .consume .status => True
  | _ => False

namespace Session

def rejectionReport (pipeline : PipelineName) (rejection : Rejection) : HealthReport where
  scope := .pipeline pipeline
  level := rejection.level
  message := "Unable to schedule pipeline '" ++ pipeline.text ++ "'"
  detail := some rejection.text

def failureReport (pipeline : PipelineName) (failure : Failure) : HealthReport where
  scope := .pipeline pipeline
  level := .error
  message := "Failed to schedule pipeline '" ++ pipeline.text ++ "'"
  detail := some failure.message

/-- What a report leaves while the health sink is as in a world. -/
def reportNote (collab : Collaborators σ) (w : σ) (r : HealthReport) : HealthNote :=
  if (collab.reportOutage w).isSome then .nothing else .report r

def clearNote (collab : Collaborators σ) (w : σ) (scope : HealthScope) : HealthNote :=
  if (collab.clearOutage w).isSome then .nothing else .clear scope

theorem report_eq (s : Session σ) {w : σ} (hw : collab.reportOutage s.world = collab.reportOutage w)
    (r : HealthReport) :
    s.report collab r = s.withEngine fun e => { e with health := (reportNote collab w r).on e.health } := by
  unfold report reportNote
  rw [hw]
  split <;> rfl

theorem clearHealth_eq (s : Session σ) {w : σ} (hw : collab.clearOutage s.world = collab.clearOutage w)
    (scope : HealthScope) :
    s.clearHealth collab scope =
      s.withEngine fun e => { e with health := (clearNote collab w scope).on e.health } := by
  unfold clearHealth clearNote
  rw [hw]
  split <;> rfl

/-! ### Another log -/

/-- The session with another health log. -/
def withLog (s : Session σ) (log : HealthLog) : Session σ := s.withEngine fun e => { e with health := log }

theorem withLog_self (s : Session σ) : s.withLog s.engine.health = s := rfl

/-- What is done to a session does not depend on its health log, and leaves some notes in whatever log there
is. -/
def Unread (f : Session σ → α × Session σ) (s : Session σ) : Prop :=
  ∃ notes : List HealthNote, ∀ log : HealthLog,
    f (s.withLog log) = ((f s).1, (f s).2.withLog (log.noted notes))

variable {f g : Session σ → α × Session σ} {s : Session σ}

/-- It is enough to know what is done to the session with whatever log. -/
theorem Unread.of_eq (hg : Unread g s) (h : ∀ log, f (s.withLog log) = g (s.withLog log)) : Unread f s := by
  obtain ⟨notes, hnotes⟩ := hg
  have hself : f s = g s := h s.engine.health
  refine ⟨notes, fun log => ?_⟩
  rw [h, hnotes, hself]

/-- Changes of other parts of the session may go before. -/
theorem Unread.after (change : Session σ → Session σ) (hf : Unread f (change s))
    (hchange : ∀ log, change (s.withLog log) = (change s).withLog log) :
    Unread (fun s => f (change s)) s := by
  obtain ⟨notes, hnotes⟩ := hf
  refine ⟨notes, fun log => ?_⟩
  show f (change (s.withLog log)) = _
  rw [hchange, hnotes]

theorem Unread.map {β : Type} (hf : Unread f s) (answer : α → β) :
    Unread (fun s => (answer (f s).1, (f s).2)) s := by
  obtain ⟨notes, hnotes⟩ := hf
  refine ⟨notes, fun log => ?_⟩
  show (answer (f (s.withLog log)).1, (f (s.withLog log)).2) = _
  rw [hnotes]

theorem unread_answer (answer : α) (s : Session σ) : Unread (fun s => (answer, s)) s := ⟨[], fun _ => rfl⟩

theorem unread_report (collab : Collaborators σ) (answer : α) (r : HealthReport) (s : Session σ) :
    Unread (fun s => (answer, s.report collab r)) s := by
  refine ⟨[reportNote collab s.world r], fun log => Prod.ext rfl ?_⟩
  show (s.withLog log).report collab r = (s.report collab r).withLog _
  rw [report_eq (w := s.world) (s.withLog log) rfl, report_eq s rfl]
  rfl

theorem unread_clearHealth (collab : Collaborators σ) (answer : α) (scope : HealthScope) (s : Session σ) :
    Unread (fun s => (answer, s.clearHealth collab scope)) s := by
  refine ⟨[clearNote collab s.world scope], fun log => Prod.ext rfl ?_⟩
  show (s.withLog log).clearHealth collab scope = (s.clearHealth collab scope).withLog _
  rw [clearHealth_eq (w := s.world) (s.withLog log) rfl, clearHealth_eq s rfl]
  rfl

theorem unread_perform (x : Attempt σ α) (s : Session σ) : Unread (fun s => s.perform x) s :=
  ⟨[], fun _ => rfl⟩

/-! ### What the engine does -/

theorem unread_conclude (collab : Collaborators σ) (p : Pipeline) (kind : TriggerKind) (outcome : Outcome)
    (s : Session σ) : Unread (fun s => s.conclude collab p kind outcome) s := by
  cases outcome with
  | rejected rejection => exact unread_report collab _ _ s
  | succeeded cause =>
    have hworld : ∀ log, (s.withLog log).world = s.world := fun _ => rfl
    cases hqueue : collab.enqueueOutage s.world with
    | some message =>
      refine (unread_answer (.error (.queue message)) s).of_eq fun log => ?_
      simp only [conclude, hworld, hqueue]
    | none =>
      have haccept : Unread (fun s => ((.ok (.succeeded cause) : Except Failure Outcome),
          s.accept collab p.name kind cause)) s :=
        (unread_clearHealth collab _ (.pipeline p.name) _).after _ fun _ => rfl
      refine haccept.of_eq fun log => ?_
      simp only [conclude, hworld, hqueue]

theorem unread_attempt (collab : Collaborators σ) (p : Pipeline) (event : TriggerEvent) (s : Session σ) :
    Unread (fun s => s.attempt collab p event) s := by
  let asked (t : Session σ) : Session σ := (t.perform (s.decision collab p event)).2
  -- what is asked does not depend on the log, and neither does the answer
  have hsame : ∀ log, ((s.withLog log).perform ((s.withLog log).decision collab p event)).1 =
      (s.perform (s.decision collab p event)).1 := fun _ => rfl
  cases hanswer : (s.perform (s.decision collab p event)).1 with
  | ok outcome =>
    have hconclude := unread_conclude collab p event.kind outcome (asked s)
    refine (hconclude.after asked fun _ => rfl).of_eq fun log => ?_
    rw [attempt_eq, hsame, hanswer]
    rfl
  | error interruption =>
    let failure := failureOf s.engine.settings.resolutionTimeout.toNat interruption
    have hreport : Unread (fun t => ((.error failure : Except Failure Outcome),
        t.reportFailure collab p.name failure)) (asked s) := unread_report collab _ _ (asked s)
    refine (hreport.after asked fun _ => rfl).of_eq fun log => ?_
    rw [attempt_eq, hsame, hanswer]
    rfl

theorem unread_schedule (collab : Collaborators σ) (name : PipelineName) (event : TriggerEvent)
    (s : Session σ) : Unread (fun s => s.schedule collab name event) s := by
  cases hp : s.engine.snapshot.pipeline? name with
  | none =>
    refine (unread_answer (.error (.pipelineNotFound name)) s).of_eq fun log => ?_
    have hp' : (s.withLog log).engine.snapshot.pipeline? name = none := hp
    simp only [schedule, hp']
  | some p =>
    let locked (t : Session σ) : Session σ := t.lock name
    have hlocked : ∀ log, locked (s.withLog log) = (locked s).withLog log := fun _ => rfl
    have hschedule : ∀ log, (s.withLog log).schedule collab name event = _ := fun log =>
      schedule_of_declared collab (s := s.withLog log) hp event
    by_cases htimer : event.kind = .timer ∧ p.timer.isNone = true
    · have hanswer := unread_answer (.error (.noTimer p.name) : Except Failure Outcome) (locked s)
      refine (hanswer.after locked hlocked).of_eq fun log => ?_
      rw [hschedule, if_pos htimer]
    have hworld : ∀ log, (s.withLog log).world = s.world := fun _ => rfl
    cases hqueue : collab.pendingOutage s.world with
    | some message =>
      have hanswer := unread_answer (.error (.queue message) : Except Failure Outcome) (locked s)
      refine (hanswer.after locked hlocked).of_eq fun log => ?_
      rw [hschedule, if_neg htimer, hworld, hqueue]
    | none =>
      by_cases hforced : s.ForcedPending p.name
      · have hrejected : Unread (fun t => ((.ok (.rejected .alreadyScheduled) : Except Failure Outcome),
            t.reportRejection collab p.name .alreadyScheduled)) (locked s) :=
          unread_report collab _ _ (locked s)
        refine (hrejected.after locked hlocked).of_eq fun log => ?_
        rw [hschedule, if_neg htimer, hworld, hqueue]
        exact if_pos hforced
      · have hattempt := unread_attempt collab p event (locked s)
        refine (hattempt.after locked hlocked).of_eq fun log => ?_
        rw [hschedule, if_neg htimer, hworld, hqueue]
        exact if_neg hforced

theorem unread_publish (collab : Collaborators σ) (answer : α) (snapshot : Snapshot) (s : Session σ) :
    Unread (fun s => (answer, s.publish collab snapshot)) s :=
  (unread_clearHealth collab answer .configuration _).after _ fun _ => rfl

/-- Errors are reported one after another, as far as the health sink takes reports. -/
theorem reports_eq (collab : Collaborators σ) (s : Session σ) (errors : List ConfigError) :
    errors.foldl (fun s e =>
        s.report collab { scope := .configuration, level := .error, message := e.text }) s =
      s.withLog (s.engine.health.noted (errors.map fun e => reportNote collab s.world e.report)) := by
  induction errors generalizing s with
  | nil => rfl
  | cons e rest ih =>
    rw [List.foldl_cons, ih, report_eq s rfl]
    rfl

theorem unread_reload (collab : Collaborators σ) (c : Configuration) (s : Session σ) :
    Unread (fun s => s.reload collab c) s := by
  have hbuild : ∀ log, Snapshot.build c ((s.withLog log).engine.snapshot.version + 1) =
      Snapshot.build c (s.engine.snapshot.version + 1) := fun _ => rfl
  cases hbuilt : Snapshot.build c (s.engine.snapshot.version + 1) with
  | ok snapshot =>
    refine (unread_publish collab (.ok snapshot : Except Failure Snapshot) snapshot s).of_eq fun log => ?_
    rw [reload, hbuild, hbuilt]
  | error errors =>
    have hreports : Unread (fun s => ((.error (.configuration errors) : Except Failure Snapshot),
        errors.foldl (fun s e =>
          s.report collab { scope := .configuration, level := .error, message := e.text }) s)) s := by
      refine ⟨errors.map fun e => reportNote collab s.world e.report, fun log => Prod.ext rfl ?_⟩
      simp only [reports_eq]
      rfl
    refine hreports.of_eq fun log => ?_
    rw [reload, hbuild, hbuilt]

theorem unread_resolve (collab : Collaborators σ) (name : PipelineName) (overrides : Overrides)
    (s : Session σ) : Unread (fun s => s.resolve collab name overrides) s := by
  have hsnapshot : ∀ log, (s.withLog log).engine.snapshot = s.engine.snapshot := fun _ => rfl
  cases hp : s.engine.snapshot.pipeline? name with
  | none =>
    refine (unread_answer (.error (.pipelineNotFound name) : Except Failure Resolution) s).of_eq fun log => ?_
    simp only [resolve, hsnapshot, hp]
  | some p =>
    have hperform := unread_perform (.resolve collab none s.engine.snapshot p overrides) s
    refine (hperform.map (Except.mapError (failureOf 0))).of_eq fun log => ?_
    simp only [resolve, hsnapshot, hp]

/-- A single thing that happens leaves the same in every log, and who does not ask for the log is answered the
same. -/
theorem unread_next (env : Environment σ χ) (s : Session σ) {h : Happening χ} (hsingle : h.Single)
    (hask : ¬ h.AsksForHealth) : Unread (fun s => s.next env h) s := by
  cases h with
  | world change => exact ⟨[], fun _ => rfl⟩
  | consume consumption =>
    cases consumption with
    | queued _ | finish _ | clearQueue => exact ⟨[], fun _ => rfl⟩
    | report r => exact ⟨[.report r], fun _ => rfl⟩
    | clearHealth scope => exact ⟨[.clear scope], fun _ => rfl⟩
    | healthFor _ | status => exact absurd trivial hask
  | request request =>
    cases request with
    | attempt name event => exact (unread_schedule env.collab name event s).map Answer.outcome
    | reload c => exact (unread_reload env.collab c s).map Answer.reloaded
    | latest m => exact ⟨[], fun _ => rfl⟩
    | resolve name overrides =>
      exact (unread_resolve env.collab name overrides s).map Answer.resolution
    | postCommit url => exact hsingle.elim
    | tick after latest => exact hsingle.elim
    | follow configurations => exact hsingle.elim
    | due _ _ | snapshot | settings | latestKnown _ => exact ⟨[], fun _ => rfl⟩

theorem next_of_asksForHealth {h : Happening χ} (hask : h.AsksForHealth) (s : Session σ) :
    (s.next env h).2 = s := by
  unfold Happening.AsksForHealth at hask
  split at hask
  · rfl
  · rfl
  · exact hask.elim

/-! ### Runs -/

/-- The same thing happens, and it is answered the same, unless somebody asks for the health log. -/
def AnsweredAlike (env : Environment σ χ) (d d' : Deed σ χ) : Prop :=
  d'.happening = d.happening ∧ (¬ d.happening.AsksForHealth → d'.answer env = d.answer env)

theorem next_withLog (env : Environment σ χ) (s : Session σ) {h : Happening χ} (hsingle : h.Single) :
    ∃ notes : List HealthNote, ∀ log : HealthLog,
      ((s.withLog log).next env h).2 = (s.next env h).2.withLog (log.noted notes) ∧
      AnsweredAlike env ⟨s, h⟩ ⟨s.withLog log, h⟩ := by
  by_cases hask : h.AsksForHealth
  · refine ⟨[], fun log => ⟨?_, rfl, fun hunasked => absurd hask hunasked⟩⟩
    rw [next_of_asksForHealth hask, next_of_asksForHealth hask]
    rfl
  · obtain ⟨notes, hnotes⟩ := unread_next env s hsingle hask
    refine ⟨notes, fun log => ?_⟩
    have hnext : (s.withLog log).next env h =
        ((s.next env h).1, (s.next env h).2.withLog (log.noted notes)) := hnotes log
    refine ⟨by rw [hnext], rfl, fun _ => ?_⟩
    show ((s.withLog log).next env h).1 = (s.next env h).1
    rw [hnext]

theorem deeds_withLog (env : Environment σ χ) (s : Session σ) {happenings : List (Happening χ)}
    (hsingle : ∀ h ∈ happenings, h.Single) :
    ∃ notes : List HealthNote, ∀ log : HealthLog,
      (s.withLog log).run env happenings = (s.run env happenings).withLog (log.noted notes) ∧
      List.Forall₂ (AnsweredAlike env) (s.deeds env happenings) ((s.withLog log).deeds env happenings) := by
  induction happenings generalizing s with
  | nil => exact ⟨[], fun log => ⟨rfl, .nil⟩⟩
  | cons h rest ih =>
    obtain ⟨hh, hrest⟩ := List.forall_mem_cons.mp hsingle
    obtain ⟨first, hfirst⟩ := next_withLog env s hh
    obtain ⟨later, hlater⟩ := ih (s.next env h).2 hrest
    refine ⟨first ++ later, fun log => ?_⟩
    obtain ⟨hnext, halike⟩ := hfirst log
    obtain ⟨hrun, hdeeds⟩ := hlater (log.noted first)
    rw [run_cons, run_cons, deeds, deeds, hnext, hrun, HealthLog.noted_append]
    exact ⟨rfl, .cons halike hdeeds⟩

theorem parts_withLog (s : Session σ) (log : HealthLog) (h : Happening χ) :
    (s.withLog log).parts h = s.parts h := rfl

theorem atoms_withLog (env : Environment σ χ) (s : Session σ) (log : HealthLog)
    (happenings : List (Happening χ)) : (s.withLog log).atoms env happenings = s.atoms env happenings := by
  induction happenings generalizing s log with
  | nil => rfl
  | cons h rest ih =>
    obtain ⟨notes, hnotes⟩ := deeds_withLog env s fun part (hpart : part ∈ s.parts h) =>
      single_of_mem_parts hpart
    have hnext : ((s.withLog log).next env h).2 = (s.next env h).2.withLog (log.noted notes) := by
      rw [← run_parts, parts_withLog, (hnotes log).1, run_parts]
    rw [atoms, atoms, parts_withLog, hnext, ih]

/-- With another health log, everything that happens in a run leaves the same in it and the same everywhere
else, and is answered the same. -/
theorem history_withLog (env : Environment σ χ) (s : Session σ) (happenings : List (Happening χ)) :
    ∃ notes : List HealthNote, ∀ log : HealthLog,
      (s.withLog log).run env happenings = (s.run env happenings).withLog (log.noted notes) ∧
      List.Forall₂ (AnsweredAlike env) (s.history env happenings)
        ((s.withLog log).history env happenings) := by
  obtain ⟨notes, hnotes⟩ := deeds_withLog env s fun part (hpart : part ∈ s.atoms env happenings) =>
    single_of_mem_atoms hpart
  refine ⟨notes, fun log => ?_⟩
  rw [history, history, atoms_withLog, ← run_atoms (s.withLog log), ← run_atoms s, atoms_withLog]
  exact hnotes log

/-- No run makes a log outgrow its limit. -/
theorem bounded_run_of_bounded (env : Environment σ χ) {s : Session σ} (hs : s.engine.health.Bounded)
    (happenings : List (Happening χ)) : (s.run env happenings).engine.health.Bounded := by
  obtain ⟨notes, hnotes⟩ := history_withLog env s happenings
  have hrun := (hnotes s.engine.health).1
  rw [withLog_self] at hrun
  rw [hrun]
  exact hs.noted notes

/-- The log of an engine never outgrows its limit. -/
theorem bounded_run (env : Environment σ χ) (settings : Settings) (world : σ)
    (happenings : List (Happening χ)) :
    ((start settings world).run env happenings).engine.health.Bounded :=
  bounded_run_of_bounded env (HealthLog.bounded_new _) happenings

end Session

end BuildScheduling
