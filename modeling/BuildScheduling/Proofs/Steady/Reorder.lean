import Mathlib.Data.List.Pairwise
import BuildScheduling.Proofs.Engine.History
import BuildScheduling.Proofs.Health.Complaint
import BuildScheduling.Proofs.Snapshot.Reading
import BuildScheduling.Proofs.Steady.Imprint
import BuildScheduling.Proofs.Steady.InMemory

/-!
# Attempts in another order, and attempts made again

On collaborators in memory that hold still, attempts on different pipelines commute (`attempts_commute`): in
whatever order they are made, each answers what it would answer alone, and the engine after them is the same
outside the health log. The log has the same reports, as long as nobody reports to a full log; that drops the
oldest report, and which one that is depends on the order (`full_log_tells_order`).

An attempt without a user's request or a timer can be made again at once, with the same answer and without a
trace outside the health log (`auto_attempt_again`).
-/

namespace BuildScheduling

variable {σ χ : Type}

/-- An attempt whose complaint drops the oldest report. -/
def Deed.Overflows (env : Environment σ χ) (d : Deed σ χ) : Prop :=
  ¬ d.before.engine.health.HasRoom ∧ ∃ name, d.complaints env name ≠ []

namespace HealthNote

def report? : HealthNote → Option HealthReport
  | report r => some r
  | nothing | clear _ => none

def clears : HealthNote → HealthReport → Bool
  | clear scope, r => r.scope.same scope
  | nothing, _ | report _, _ => false

theorem reports_on {log : HealthLog} {note : HealthNote} (hroom : ∀ r, note = .report r → log.HasRoom) :
    (note.on log).reports = log.reports.filter (fun r => !note.clears r) ++ note.report?.toList := by
  cases note with
  | nothing => simp [on, clears, report?]
  | report r =>
    have hnot : ¬ log.limit ≤ log.reports.length := Nat.not_le.mpr (hroom r rfl)
    simp [on, clears, report?, HealthLog.report, hnot]
  | clear scope => simp [on, clears, report?, HealthLog.clear]

end HealthNote

/-- A report on one pipeline is not cleared by an attempt on another. -/
theorem Imprint.clears_eq_false {i j : Imprint} {a b : PipelineName} (hi : i.On a) (hj : j.On b)
    (hab : ¬ a.same b = true) {r : HealthReport} (hr : i.note.report? = some r) :
    j.note.clears r = false := by
  have hscope : r.scope.same (.pipeline a) = true := by
    cases hnote : i.note with
    | report r' =>
      rw [hnote, HealthNote.report?, Option.some.injEq] at hr
      exact hi.note r.scope (by simp [hnote, HealthNote.scope?, hr])
    | nothing | clear _ => simp [hnote, HealthNote.report?] at hr
  cases hnote : j.note with
  | nothing | report _ => rfl
  | clear scope =>
    have hother := hj.note scope (by simp [hnote, HealthNote.scope?])
    rw [HealthNote.clears, ← Bool.not_eq_true]
    intro hsame
    rw [HealthScope.same_comm] at hscope
    exact hab (HealthScope.same_trans (HealthScope.same_trans hscope hsame) hother)

/-! ### Several attempts -/

/-- Attempts, as things that happen. -/
def attemptsOf (attempts : List (PipelineName × TriggerEvent)) : List (Happening χ) :=
  attempts.map fun a => .request (.attempt a.1 a.2)

namespace Session

variable {env : Environment σ χ} {offers : Fingerprint → List Revision} {Good : σ → Prop} {s : Session σ}
  {imprint : PipelineName × TriggerEvent → Imprint}

/-- Each attempt makes its imprint on all sessions that are alike to one of them. -/
structure MakesImprints (env : Environment σ χ) (offers : Fingerprint → List Revision) (Good : σ → Prop)
    (s : Session σ) (imprint : PipelineName × TriggerEvent → Imprint) : Prop where
  on : ∀ a, (imprint a).On a.1
  schedule : ∀ a (t : Session σ), Alike offers a.1 s t → Good t.world → ∃ w, Good w ∧
    t.schedule env.collab a.1 a.2 = ((imprint a).answer, ⟨(imprint a).mark offers t.engine, w⟩)

theorem exists_makesImprints (env : Environment σ χ)
    (hsteady : env.collab.Steady s.engine.snapshot offers Good) (hs : Good s.world) :
    ∃ imprint, MakesImprints env offers Good s imprint := by
  choose imprint hon hschedule using fun a : PipelineName × TriggerEvent =>
    exists_imprint hsteady hs a.1 a.2
  exact ⟨imprint, hon, hschedule⟩

section

variable (himprint : MakesImprints env offers Good s imprint)

include himprint

/-- The first of several attempts on different names answers and leaves what is in its imprint, and the others
find all that they go by as it was. -/
theorem exists_next_attempt {a : PipelineName × TriggerEvent} {rest : List (PipelineName × TriggerEvent)}
    (ha : ∀ b ∈ rest, ¬ a.1.same b.1 = true) {t : Session σ} (hgood : Good t.world)
    (halike : ∀ b ∈ a :: rest, Alike offers b.1 s t) :
    ∃ w, Good w ∧ t.next env (.request (.attempt a.1 a.2)) =
        (.outcome (imprint a).answer, ⟨(imprint a).mark offers t.engine, w⟩) ∧
      ∀ b ∈ rest, Alike offers b.1 s ⟨(imprint a).mark offers t.engine, w⟩ := by
  obtain ⟨w, hw, hschedule⟩ := himprint.schedule a t (halike a List.mem_cons_self) hgood
  refine ⟨w, hw, by simp only [next, request, hschedule], fun b hb => ?_⟩
  exact (halike b (List.mem_cons_of_mem a hb)).mark (himprint.on a) (ha b hb) w

/-- What each of several attempts on different names answers, and what they leave together. -/
theorem run_attempts {attempts : List (PipelineName × TriggerEvent)}
    (hdiffer : attempts.Pairwise fun a b => ¬ a.1.same b.1 = true) {t : Session σ} (hgood : Good t.world)
    (halike : ∀ a ∈ attempts, Alike offers a.1 s t) :
    (t.deeds env (attemptsOf attempts)).map (Deed.answer env) =
        attempts.map (fun a => .outcome (imprint a).answer) ∧
      (t.run env (attemptsOf attempts)).engine =
        attempts.foldl (fun e a => (imprint a).mark offers e) t.engine := by
  induction attempts generalizing t with
  | nil => exact ⟨rfl, rfl⟩
  | cons a rest ih =>
    obtain ⟨ha, hrest⟩ := List.pairwise_cons.mp hdiffer
    obtain ⟨w, hw, hnext, halike'⟩ := exists_next_attempt himprint ha hgood halike
    obtain ⟨hanswers, hengine⟩ := ih hrest hw halike'
    simp only [attemptsOf, List.map_cons, deeds, run_cons, Deed.answer, hnext, List.foldl_cons]
    exact ⟨congrArg _ hanswers, hengine⟩

/-- An attempt whose imprint is a report complains of it. -/
theorem complaints_of_report {a : PipelineName × TriggerEvent} {t : Session σ} (hgood : Good t.world)
    (halike : Alike offers a.1 s t) {r : HealthReport} (hr : (imprint a).note = .report r) :
    Deed.complaints env a.1 ⟨t, .request (.attempt a.1 a.2)⟩ = [r] := by
  have hevery : ∀ log, ((t.withLog log).schedule env.collab a.1 a.2).2.engine.health = log.report r := fun log => by
    obtain ⟨w, -, hschedule⟩ := himprint.schedule a (t.withLog log) (halike.withLog log) hgood
    rw [hschedule, Imprint.mark, hr]
    rfl
  exact (if_pos (Name.same_refl _)).trans (taken_complaint_of_report hevery)

/-- As long as nobody reports to a full log, the reports that nobody clears stay, and the new ones follow. -/
theorem reports_run_attempts {attempts : List (PipelineName × TriggerEvent)}
    (hdiffer : attempts.Pairwise fun a b => ¬ a.1.same b.1 = true) {t : Session σ} (hgood : Good t.world)
    (halike : ∀ a ∈ attempts, Alike offers a.1 s t)
    (hroom : ∀ d ∈ t.deeds env (attemptsOf attempts), ¬ d.Overflows env) :
    (t.run env (attemptsOf attempts)).engine.health.reports =
      (t.engine.health.reports.filter fun r => attempts.all fun a => !(imprint a).note.clears r) ++
        attempts.filterMap fun a => (imprint a).note.report? := by
  induction attempts generalizing t with
  | nil => simp [attemptsOf]
  | cons a rest ih =>
    obtain ⟨ha, hrest⟩ := List.pairwise_cons.mp hdiffer
    obtain ⟨w, hw, hnext, halike'⟩ := exists_next_attempt himprint ha hgood halike
    simp only [attemptsOf, List.map_cons, deeds, hnext] at hroom
    obtain ⟨hfirst, hroom'⟩ := List.forall_mem_cons.mp hroom
    have hreports := ih hrest hw halike' hroom'
    have hmark : ((imprint a).mark offers t.engine).health.reports = _ := HealthNote.reports_on fun r hr => by
      by_contra hfull
      refine hfirst ⟨hfull, a.1, ?_⟩
      rw [complaints_of_report himprint hgood (halike a List.mem_cons_self) hr]
      exact List.cons_ne_nil r []
    -- No later attempt clears what this one reports.
    have hstays : (imprint a).note.report?.toList.filter
        (fun r => rest.all fun b => !(imprint b).note.clears r) = (imprint a).note.report?.toList := by
      rw [List.filter_eq_self]
      intro r hr
      rw [Option.mem_toList] at hr
      rw [List.all_eq_true]
      intro b hb
      rw [Imprint.clears_eq_false (himprint.on a) (himprint.on b) (ha b hb) hr]
      rfl
    simp only [attemptsOf, List.map_cons, run_cons, hnext]
    rw [attemptsOf] at hreports
    rw [hreports, hmark, List.filter_append, List.filter_filter, hstays, List.append_assoc]
    simp only [List.all_cons, Bool.and_comm]
    cases hnote : (imprint a).note.report? with
    | none => simp [hnote]
    | some r => simp [hnote]

end

theorem foldl_mark (attempts : List (PipelineName × TriggerEvent)) (e : Engine) :
    attempts.foldl (fun e a => (imprint a).mark offers e) e =
      { attempts.foldl (fun e a => (imprint a).write offers e) e with
        health := attempts.foldl (fun log a => (imprint a).note.on log) e.health } := by
  -- What is written does not depend on the health log.
  have hwrite : ∀ (l : List (PipelineName × TriggerEvent)) (e : Engine) (log : HealthLog),
      l.foldl (fun e a => (imprint a).write offers e) { e with health := log } =
        { l.foldl (fun e a => (imprint a).write offers e) e with health := log } := by
    intro l
    induction l with
    | nil => exact fun _ _ => rfl
    | cons a rest ih => exact fun e log => ih ((imprint a).write offers e) log
  induction attempts generalizing e with
  | nil => rfl
  | cons a rest ih =>
    rw [List.foldl_cons, ih, Imprint.mark, hwrite]
    rfl

/-- Together, attempts on different names write the same in any order. -/
theorem foldl_write_perm (himprint : MakesImprints env offers Good s imprint)
    {attempts order : List (PipelineName × TriggerEvent)}
    (hdiffer : attempts.Pairwise fun a b => ¬ a.1.same b.1 = true) (hperm : order.Perm attempts)
    (e : Engine) :
    order.foldl (fun e a => (imprint a).write offers e) e =
      attempts.foldl (fun e a => (imprint a).write offers e) e := by
  have hsymm : Std.Symm fun a b : PipelineName × TriggerEvent => ¬ a.1.same b.1 = true :=
    ⟨fun a b h => by rwa [Name.same_comm]⟩
  refine hperm.foldl_eq' (fun a ha b hb e => ?_) e
  by_cases hab : a = b
  · rw [hab]
  · exact Imprint.write_comm (himprint.on a) (himprint.on b)
      (hdiffer.forall (hperm.subset ha) (hperm.subset hb) hab) e

/-- What can be said of attempts on different names in any order. -/
theorem attempts_commute_of_steady (hsteady : env.collab.Steady s.engine.snapshot offers Good)
    (hs : Good s.world) {attempts order : List (PipelineName × TriggerEvent)}
    (hdiffer : attempts.Pairwise fun a b => ¬ a.1.same b.1 = true) (hperm : order.Perm attempts) :
    (∀ l ∈ [attempts, order], (s.deeds env (attemptsOf l)).map (Deed.answer env) =
      l.map fun a => Deed.answer env ⟨s, .request (.attempt a.1 a.2)⟩) ∧
    { (s.run env (attemptsOf order)).engine with
        health := (s.run env (attemptsOf attempts)).engine.health } =
      (s.run env (attemptsOf attempts)).engine ∧
    ((∀ l ∈ [attempts, order], ∀ d ∈ s.deeds env (attemptsOf l), ¬ d.Overflows env) →
      (s.run env (attemptsOf order)).engine.health.reports.Perm
        (s.run env (attemptsOf attempts)).engine.health.reports) := by
  obtain ⟨imprint, himprint⟩ := exists_makesImprints env hsteady hs
  have halike : ∀ l : List (PipelineName × TriggerEvent), ∀ a ∈ l, Alike offers a.1 s s :=
    fun _ a _ => .refl a.1 s
  have hdiffer' : order.Pairwise fun a b => ¬ a.1.same b.1 = true :=
    (hperm.pairwise_iff fun h => by rwa [Name.same_comm]).mpr hdiffer
  obtain ⟨hanswers, hengine⟩ := run_attempts himprint hdiffer hs (halike attempts)
  obtain ⟨hanswers', hengine'⟩ := run_attempts himprint hdiffer' hs (halike order)
  have halone : ∀ a, Deed.answer env ⟨s, .request (.attempt a.1 a.2)⟩ = .outcome (imprint a).answer := by
    intro a
    obtain ⟨w, -, hschedule⟩ := himprint.schedule a s (.refl a.1 s) hs
    simp only [Deed.answer, next, request, hschedule]
  refine ⟨?_, ?_, fun hroom => ?_⟩
  · simp only [List.forall_mem_cons, halone]
    exact ⟨hanswers, hanswers', fun l hl => absurd hl List.not_mem_nil⟩
  · rw [hengine, hengine', foldl_mark, foldl_mark, foldl_write_perm himprint hdiffer hperm]
  · simp only [List.forall_mem_cons] at hroom
    rw [reports_run_attempts himprint hdiffer hs (halike attempts) hroom.1,
      reports_run_attempts himprint hdiffer' hs (halike order) hroom.2.1]
    simp only [hperm.all_eq]
    exact (hperm.filterMap _).append_left _

/-! ### An attempt made again -/

/-- A cause that nobody asked for is not forced. -/
theorem not_isForced_of_auto {collab : Collaborators σ} {name : PipelineName} {cause : BuildCause}
    (h : (s.schedule collab name .auto).1 = .ok (.succeeded cause)) : cause.isForced = false := by
  rw [BuildCause.isForced, trigger_of_succeeded h]
  rfl

/-- What an attempt goes by is the same after it, unless a user or a timer asks for it. -/
theorem alike_after_auto {collab : Collaborators σ} {name : PipelineName} {i : Imprint} {w : σ}
    (h : s.schedule collab name .auto = (i.answer, ⟨i.mark offers s.engine, w⟩)) :
    Alike offers name s (s.schedule collab name .auto).2 := by
  have hseen : (s.schedule collab name .auto).2.engine.known.seen offers = s.engine.known.seen offers := by
    rw [h]
    exact LatestKnown.seen_refresh s.engine.known i.touched
  have hsettings : (s.schedule collab name .auto).2.engine.settings = s.engine.settings := by rw [h]; rfl
  rcases s.schedule_cases collab name .auto with ⟨p, cause, hp, hfree, hanswer, hqueued⟩ | ⟨-, hquiet⟩
  · refine ⟨hsettings, hqueued.snapshot, ?_, by rw [hqueued.debounce]; rfl, hseen⟩
    have hsame := same_of_pipeline? hp
    rw [forcedPending_congr s hsame] at hfree
    have hunforced := not_isForced_of_auto hanswer
    refine iff_of_false ?_ hfree
    rw [ForcedPending, hqueued.pending_of_same hsame, Option.any_some, hunforced]
    exact Bool.false_ne_true
  · refine ⟨hsettings, hquiet.snapshot, ?_, by rw [hquiet.debounce], hseen⟩
    rw [ForcedPending, hquiet.queue, ForcedPending]

theorem auto_attempt_again_of_steady {collab : Collaborators σ}
    (hsteady : collab.Steady s.engine.snapshot offers Good) (hs : Good s.world) (name : PipelineName) :
    let first := s.schedule collab name .auto
    let again := first.2.schedule collab name .auto
    again.1 = first.1 ∧
      { again.2.engine with health := first.2.engine.health } = first.2.engine := by
  obtain ⟨i, -, himprint⟩ := exists_imprint hsteady hs name .auto
  obtain ⟨w, hw, hfirst⟩ := himprint s (.refl name s) hs
  have halike := alike_after_auto hfirst
  obtain ⟨w', -, hagain⟩ := himprint (s.schedule collab name .auto).2 halike (by rw [hfirst]; exact hw)
  dsimp only
  rw [hagain, hfirst]
  refine ⟨rfl, ?_⟩
  have hwrite : i.write offers (i.mark offers s.engine) =
      { i.write offers (i.write offers s.engine) with health := i.note.on s.engine.health } := rfl
  rw [Imprint.mark, hwrite, Imprint.write_again]
  rfl

/-! ### Over collaborators in memory -/

/-- Attempts on different pipelines commute over collaborators in memory: each answers what it would answer
alone, the engines after two orders are equal outside the health log, and the log has the same reports, unless
one was made to a full log. -/
theorem attempts_commute (s : Session InMemory) (hunshared : s.engine.snapshot.Unshared)
    (attempts order : List (PipelineName × TriggerEvent))
    (hdiffer : attempts.Pairwise fun a b => ¬ a.1.same b.1 = true) (hperm : order.Perm attempts) :
    (∀ l ∈ [attempts, order], (s.deeds .inMemory (attemptsOf l)).map (Deed.answer .inMemory) =
      l.map fun a => Deed.answer .inMemory ⟨s, .request (.attempt a.1 a.2)⟩) ∧
    { (s.run .inMemory (attemptsOf order)).engine with
        health := (s.run .inMemory (attemptsOf attempts)).engine.health } =
      (s.run .inMemory (attemptsOf attempts)).engine ∧
    ((∀ l ∈ [attempts, order], ∀ d ∈ s.deeds .inMemory (attemptsOf l), ¬ d.Overflows .inMemory) →
      (s.run .inMemory (attemptsOf order)).engine.health.reports.Perm
        (s.run .inMemory (attemptsOf attempts)).engine.health.reports) :=
  attempts_commute_of_steady (InMemory.steady s.world hunshared) ⟨s.world.polls, rfl⟩ hdiffer hperm

/-! Two pipelines that build from one repository. -/

def twins : List Pipeline :=
  [Samples.simple ⟨"app"⟩ (Samples.git "src"), Samples.simple ⟨"lib"⟩ (Samples.git "src")]

def twinsConfiguration : Configuration := { pipelines := twins }

/-- The configuration was read. -/
def twinsRead (settings : Settings) : Session InMemory := published settings twinsConfiguration

theorem not_same_twins : ¬ (⟨"app"⟩ : PipelineName).same ⟨"lib"⟩ = true := by
  simp [Name.same_iff_toList]

theorem unshared_twins : (Snapshot.ofConfiguration twinsConfiguration 1).Unshared := by decide +kernel

theorem reload_twins (settings : Settings) :
    (fresh settings).run .inMemory [.request (.reload twinsConfiguration)] = twinsRead settings :=
  reading_eq (by decide +kernel) settings []

def twinAttempts : List (PipelineName × TriggerEvent) :=
  [(⟨"app"⟩, .auto), (⟨"lib"⟩, .manual "alice" ∅)]

set_option maxRecDepth 100000 in
/-- Without a check-in both attempts are rejected in either order, and both reports are kept. -/
theorem twins_attempted_in_both_orders :
    (twinsRead {}).engine.snapshot.Unshared ∧
    (twinAttempts.Pairwise fun a b => ¬ a.1.same b.1 = true) ∧ twinAttempts.reverse.Perm twinAttempts ∧
    (∀ d ∈ (twinsRead {}).deeds .inMemory (attemptsOf twinAttempts.reverse),
      d.answer .inMemory = .outcome (.ok (.rejected (.noModifications ["src"])))) ∧
    ((twinsRead {}).run .inMemory (attemptsOf twinAttempts.reverse)).engine.health.reports.Perm
      ((twinsRead {}).run .inMemory (attemptsOf twinAttempts)).engine.health.reports := by
  have hdiffer : twinAttempts.Pairwise fun a b => ¬ a.1.same b.1 = true :=
    List.pairwise_pair.mpr not_same_twins
  have hroom : ∀ l ∈ [twinAttempts, twinAttempts.reverse],
      ∀ d ∈ (twinsRead {}).deeds .inMemory (attemptsOf l), d.before.engine.health.HasRoom := by
    decide +kernel
  have hrejected : ∀ a ∈ twinAttempts, ((twinsRead {}).schedule InMemory.collaborators a.1 a.2).1 =
      .ok (.rejected (.noModifications ["src"])) := by decide +kernel
  obtain ⟨hanswers, -, hreports⟩ := attempts_commute (twinsRead {}) unshared_twins twinAttempts
    twinAttempts.reverse hdiffer (List.reverse_perm _)
  refine ⟨unshared_twins, hdiffer, List.reverse_perm _, fun d hd => ?_,
    hreports fun l hl d hd hoverflows => hoverflows.1 (hroom l hl d hd)⟩
  have hanswer := List.mem_map_of_mem (f := Deed.answer .inMemory) hd
  rw [hanswers _ (by simp), List.mem_map] at hanswer
  obtain ⟨a, ha, hanswer⟩ := hanswer
  rw [← hanswer]
  exact congrArg Answer.outcome (hrejected a (List.mem_reverse.mp ha))

/-- A log that keeps one report. -/
def oneReport : Settings := { healthHistoryLimit := 1 }

set_option maxRecDepth 100000 in
/-- In a log of one report, the same attempts leave the report of the last one. -/
theorem full_log_tells_order :
    let s := (fresh oneReport).run .inMemory [.request (.reload twinsConfiguration)]
    s.engine.snapshot.Unshared ∧ (twinAttempts.Pairwise fun a b => ¬ a.1.same b.1 = true) ∧
    twinAttempts.reverse.Perm twinAttempts ∧
    ¬ (s.run .inMemory (attemptsOf twinAttempts.reverse)).engine.health.reports.Perm
      (s.run .inMemory (attemptsOf twinAttempts)).engine.health.reports := by
  rw [reload_twins]
  refine ⟨unshared_twins, List.pairwise_pair.mpr not_same_twins, List.reverse_perm _, ?_⟩
  decide +kernel

/-- An attempt without a user's request or a timer can be made again at once over collaborators in memory: it
answers the same, and leaves the engine outside the health log as it is. -/
theorem auto_attempt_again (s : Session InMemory) (hunshared : s.engine.snapshot.Unshared)
    (name : PipelineName) :
    let first := s.schedule InMemory.collaborators name .auto
    let again := first.2.schedule InMemory.collaborators name .auto
    again.1 = first.1 ∧
      { again.2.engine with health := first.2.engine.health } = first.2.engine :=
  auto_attempt_again_of_steady (InMemory.steady s.world hunshared) ⟨s.world.polls, rfl⟩ name

/-- The repository of the twins has a check-in. -/
def twinsReady : Session InMemory :=
  ((twinsRead {}).next .inMemory (.world (.checkIn (Samples.git "src") (Samples.checkIn "r1" 0)))).2

set_option maxRecDepth 100000 in
theorem app_attempted_again :
    let first := twinsReady.schedule InMemory.collaborators ⟨"app"⟩ .auto
    let again := first.2.schedule InMemory.collaborators ⟨"app"⟩ .auto
    twinsReady.engine.snapshot.Unshared ∧
      first.1 = .ok (.succeeded (.ofChanges [⟨Samples.git "src", Samples.checkIn "r1" 0, true⟩])) ∧
      again.1 = first.1 ∧ again.2.engine.queue = first.2.engine.queue := by
  have hsucceeded : (twinsReady.schedule InMemory.collaborators ⟨"app"⟩ .auto).1 =
      .ok (.succeeded (.ofChanges [⟨Samples.git "src", Samples.checkIn "r1" 0, true⟩])) := by
    decide +kernel
  obtain ⟨hanswer, hengine⟩ := auto_attempt_again twinsReady unshared_twins ⟨"app"⟩
  have hqueue := congrArg Engine.queue hengine
  exact ⟨unshared_twins, hsucceeded, hanswer, hqueue⟩

end Session

end BuildScheduling
