import BuildScheduling.Proofs.Engine.Failing
import BuildScheduling.Proofs.Queue.OwnPipeline
import BuildScheduling.Proofs.Queue.Provenance
import BuildScheduling.Proofs.Snapshot.Due
import BuildScheduling.Proofs.Snapshot.Notification

/-!
# What a tick does

A tick attempts the due pipelines one after another. Three tables have to agree for that to go well: the timers of
the snapshot, its pipelines, and the timer of each pipeline. They do, since the snapshot in effect is always one that
was built (`build_history`) and no attempt replaces it; so each attempt finds the pipeline that was due, and its
timer. An attempt touches its own pipeline only, and no due pipeline is another spelling of another one, so what one
attempt queues the later ones leave alone (`pending_scheduleAll`).
-/

namespace BuildScheduling.Session

variable {σ χ : Type} {env : Environment σ χ} {collab : Collaborators σ} {s : Session σ}

/-! ### Attempts one after another -/

theorem map_happening_deeds (s : Session σ) (happenings : List (Happening χ)) :
    (s.deeds env happenings).map Deed.happening = happenings := by
  induction happenings generalizing s with
  | nil => rfl
  | cons h rest ih => rw [deeds, List.map_cons, ih]

theorem map_fst_scheduleAll (collab : Collaborators σ) (s : Session σ) (event : TriggerEvent)
    (names : List PipelineName) :
    (s.scheduleAll collab event names).1.map Prod.fst = names := by
  induction names generalizing s with
  | nil => rfl
  | cons name rest ih => exact congrArg (name :: ·) (ih _)

/-- The answers are those of the attempts as deeds. -/
theorem mem_scheduleAll_iff {event : TriggerEvent} {names : List PipelineName} {name : PipelineName}
    {answer : Except Failure Outcome} :
    (name, answer) ∈ (s.scheduleAll env.collab event names).1 ↔
      ∃ d ∈ s.deeds env (names.map fun name => .request (.attempt name event)),
        d.happening = .request (.attempt name event) ∧ d.answer env = .outcome answer := by
  induction names generalizing s with
  | nil => simp [scheduleAll, deeds]
  | cons first rest ih =>
    have hfirst : Deed.answer env ⟨s, .request (.attempt first event)⟩ =
        .outcome (s.schedule env.collab first event).1 := rfl
    show (name, answer) ∈ (first, (s.schedule env.collab first event).1) ::
      ((s.schedule env.collab first event).2.scheduleAll env.collab event rest).1 ↔ _
    rw [List.mem_cons, ih, List.map_cons, deeds]
    simp only [List.mem_cons, exists_eq_or_imp, hfirst, Prod.mk.injEq, Happening.request.injEq,
      Request.attempt.injEq, Answer.outcome.injEq, and_true, eq_comm]
    exact Iff.rfl

/-- What an attempt queued still waits after later attempts on other pipelines. -/
theorem pending_scheduleAll {event : TriggerEvent} {names : List PipelineName} {name : PipelineName}
    {cause : BuildCause} (hdistinct : names.Pairwise fun a b => ¬ a.same b = true)
    (h : (name, .ok (.succeeded cause)) ∈ (s.scheduleAll collab event names).1) :
    (s.scheduleAll collab event names).2.engine.queue.pending name = some cause := by
  induction names generalizing s with
  | nil => exact absurd h List.not_mem_nil
  | cons first rest ih =>
    obtain ⟨hothers, hrest⟩ := List.pairwise_cons.mp hdistinct
    rcases List.mem_cons.mp h with hhead | htail
    · obtain ⟨rfl, hanswer⟩ := Prod.mk.inj hhead
      obtain ⟨p, hp, -, hqueued⟩ := queued_of_succeeded hanswer.symm
      have hlater : Untouched (s.schedule collab name event).2
          ((s.schedule collab name event).2.scheduleAll collab event rest).2 name := by
        refine untouched_scheduleAll fun e he _ _ => hothers e.1 ?_
        rw [← map_fst_scheduleAll collab (s.schedule collab name event).2 event rest]
        exact List.mem_map_of_mem he
      exact hlater.pending.trans (hqueued.pending_of_same (same_of_pipeline? hp))
    · exact ih hrest htail

/-! ### Ticks -/

variable {after latest : Instant}

theorem mem_tick_iff {name : PipelineName} :
    name ∈ (s.tick collab after latest).1 ↔
      ∃ cause, (name, .ok (.succeeded cause)) ∈
        (s.scheduleAll collab .timer (s.engine.snapshot.due after latest)).1 := by
  rw [tick, List.mem_map]
  constructor
  · rintro ⟨⟨_, answer⟩, he, rfl⟩
    obtain ⟨hmem, hsucceeded⟩ := List.mem_filter.mp he
    rcases answer with _ | cause | _
    · cases hsucceeded
    · exact ⟨cause, hmem⟩
    · cases hsucceeded
  · rintro ⟨cause, hmem⟩
    exact ⟨_, List.mem_filter.mpr ⟨hmem, rfl⟩, rfl⟩

theorem tick_sublist (s : Session σ) (after latest : Instant) :
    ((s.tick collab after latest).1).Sublist (s.engine.snapshot.due after latest) := by
  rw [← map_fst_scheduleAll collab s .timer (s.engine.snapshot.due after latest)]
  exact List.filter_sublist.map Prod.fst

/-- A tick touches the pipelines that it returns. -/
theorem untouched_tick {name : PipelineName}
    (h : ∀ other ∈ (s.tick collab after latest).1, ¬ name.same other = true) :
    Untouched s (s.tick collab after latest).2 name :=
  untouched_scheduleAll fun e he cause hcause => h e.1 (mem_tick_iff.mpr ⟨cause, hcause ▸ he⟩)

/-- The pipeline that is due is the one that its attempt finds. -/
theorem exists_due_of_build {c : Configuration} {version : Nat}
    (hbuild : Snapshot.build c version = .ok s.engine.snapshot) {d : Deed σ χ}
    (hd : d ∈ s.deeds env ((s.engine.snapshot.due after latest).map fun name => .request (.attempt name .timer))) :
    ∃ p ∈ s.engine.snapshot.pipelines, p.FiresBetween after latest ∧
      d.happening = .request (.attempt p.name .timer) ∧ d.before.engine.snapshot.pipeline? p.name = some p := by
  obtain ⟨hsnapshot, name, hname, hhappening⟩ := snapshot_of_mem_deeds hd
  obtain ⟨p, hp, rfl, hfires⟩ := (Snapshot.mem_due_iff_of_build hbuild).mp hname
  refine ⟨p, hp, hfires, hhappening, ?_⟩
  rw [hsnapshot]
  exact (Snapshot.sound_of_build hbuild).pipeline?_eq_some_iff.mpr ⟨hp, Name.same_refl _⟩

/-- An attempt on a pipeline that is due says that a pipeline or a timer is missing only if a collaborator does. -/
theorem gives_of_due {c : Configuration} {version : Nat} (hbuild : Snapshot.build c version = .ok s.engine.snapshot)
    {d : Deed σ χ}
    (hd : d ∈ s.deeds env ((s.engine.snapshot.due after latest).map fun name => .request (.attempt name .timer)))
    {failure : Failure} (hanswer : d.answer env = .outcome (.error failure)) (hmissing : failure.Missing) :
    env.collab.Gives failure := by
  obtain ⟨p, -, ⟨timer, _, htimer, -⟩, hhappening, hfound⟩ := exists_due_of_build hbuild hd
  rw [Deed.answer, hhappening] at hanswer
  exact gives_of_schedule hfound (fun _ => by simp [htimer]) (Answer.outcome.inj hanswer) hmissing

/-- After any run, a tick makes one attempt on each due pipeline, in name order, and leaves what these attempts leave
one after another. Every attempt finds the declared pipeline whose timer fires, so none says that a pipeline or a timer
is missing, unless a collaborator does. The tick returns, in name order, the due pipelines whose attempt ended with a
cause, and each of these causes is one of a timer and waits for its pipeline when the tick is over. A due pipeline that
is not returned, and a pipeline that is not due, is left untouched. Over collaborators in memory, however their world
changes, no attempt of a tick says that a pipeline or a timer is missing. -/
theorem tick_attempts_each_due_once :
    (∀ {σ χ : Type} (env : Environment σ χ) (settings : Settings) (world : σ) (happenings : List (Happening χ))
      (after latest : Instant),
      let s := (start settings world).run env happenings
      let due := s.engine.snapshot.due after latest
      let attempts : List (Happening χ) := due.map fun name => .request (.attempt name .timer)
      let returned := (s.tick env.collab after latest).1
      let ended := (s.tick env.collab after latest).2
      due.Pairwise (fun a b => compare a b = .lt) ∧
      (s.deeds env attempts).map Deed.happening = attempts ∧ ended = s.run env attempts ∧
      (∀ d ∈ s.deeds env attempts, ∃ p ∈ s.engine.snapshot.pipelines, p.FiresBetween after latest ∧
        d.happening = .request (.attempt p.name .timer) ∧ d.before.engine.snapshot.pipeline? p.name = some p ∧
        ∀ failure, d.answer env = .outcome (.error failure) → failure.Missing → env.collab.Gives failure) ∧
      returned.Sublist due ∧
      (∀ name, name ∈ returned ↔ ∃ d ∈ s.deeds env attempts, ∃ cause, d.Queues env name .timer cause) ∧
      (∀ d ∈ s.deeds env attempts, ∀ name cause, d.Queues env name .timer cause →
        cause.trigger = .timer ∧ ended.engine.queue.pending name = some cause) ∧
      (∀ name ∈ due, name ∉ returned → Untouched s ended name) ∧
      ∀ name, (∀ other ∈ due, ¬ name.same other = true) → Untouched s ended name) ∧
    ∀ {χ : Type} (change : InMemory → χ → InMemory) (settings : Settings) (world : InMemory)
      (happenings : List (Happening χ)) (after latest : Instant),
      let env : Environment InMemory χ := ⟨InMemory.collaborators, change⟩
      let s := (start settings world).run env happenings
      ∀ d ∈ s.deeds env ((s.engine.snapshot.due after latest).map fun name => .request (.attempt name .timer)),
        ∀ failure, d.answer env = .outcome (.error failure) → ¬ failure.Missing := by
  constructor
  · intro σ χ env settings world happenings after latest s due attempts returned ended
    have hbuild := build_history env settings world happenings
    refine ⟨s.engine.snapshot.pairwise_due after latest, map_happening_deeds s attempts,
      (run_map_attempt s due .timer).symm, fun d hd => ?_, tick_sublist s after latest, fun name => ?_,
      fun d hd name cause hqueues => ?_, fun name hdue hleft => ?_, fun name hother => ?_⟩
    · obtain ⟨p, hp, hfires, hhappening, hfound⟩ := exists_due_of_build hbuild hd
      exact ⟨p, hp, hfires, hhappening, hfound, fun failure => gives_of_due hbuild hd⟩
    · rw [mem_tick_iff]
      constructor
      · rintro ⟨cause, hmem⟩
        obtain ⟨d, hd, hqueues⟩ := mem_scheduleAll_iff.mp hmem
        exact ⟨d, hd, cause, hqueues⟩
      · rintro ⟨d, hd, cause, hqueues⟩
        exact ⟨cause, mem_scheduleAll_iff.mpr ⟨d, hd, hqueues⟩⟩
    · obtain ⟨hhappening, hanswer⟩ := hqueues
      refine ⟨?_, pending_scheduleAll (Snapshot.pairwise_due_not_same _ after latest)
        (mem_scheduleAll_iff.mpr ⟨d, hd, hhappening, hanswer⟩)⟩
      rw [Deed.answer, hhappening] at hanswer
      exact trigger_of_succeeded (Answer.outcome.inj hanswer)
    · refine untouched_tick fun other hreturned hsame => hleft ?_
      rwa [Snapshot.eq_of_mem_due hdue ((tick_sublist s after latest).subset hreturned) hsame]
    · exact untouched_tick fun other hreturned => hother other ((tick_sublist s after latest).subset hreturned)
  · intro χ change settings world happenings after latest env s d hd failure hanswer hmissing
    have hbuild := build_history env settings world happenings
    exact InMemory.not_gives_missing (gives_of_due hbuild hd hanswer hmissing) hmissing

/-! ### The nightly build at ten -/

/-- The queue takes no cause. -/
def nightlyFull : Session InMemory :=
  (nightlyReported.next .inMemory (.world (.outage .enqueue (some "full")))).2

theorem run_nightlyReported :
    (start {} {}).run .inMemory ((nightlyDeeds.take 2).map Deed.happening) = nightlyReported := by
  show ((start {} {}).next .inMemory (.request (.reload nightlyConfiguration))).2.run .inMemory _ = _
  rw [reload_nightly]
  rfl

def fillsQueue : List Operation :=
  (nightlyDeeds.take 2).map Deed.happening ++ [.world (.outage .enqueue (some "full"))]

theorem run_fillsQueue : (start {} {}).run .inMemory fillsQueue = nightlyFull := by
  rw [fillsQueue, run_append, run_nightlyReported]
  rfl

set_option maxRecDepth 100000 in
/-- At ten the nightly build is returned, its cause waits, and `app`, which has no timer, is left alone. While the queue
is full the nightly build is not returned and left alone too, and the attempt does not fail for want of a timer. -/
theorem nightly_returned_unless_queue_full :
    let ticked := nightlyReported.tick InMemory.collaborators Snapshot.beforeTen Snapshot.atTen
    let refused := nightlyFull.tick InMemory.collaborators Snapshot.beforeTen Snapshot.atTen
    ticked.1 = [⟨"nightly"⟩] ∧
    ticked.2.engine.queue.pending ⟨"nightly"⟩ = some (.ofTimer nightlyRevisions) ∧
    Untouched nightlyReported ticked.2 ⟨"app"⟩ ∧
    refused.1 = [] ∧ Untouched nightlyFull refused.2 ⟨"nightly"⟩ ∧
    ∀ failure, Deed.answer .inMemory ⟨nightlyFull, .request (.attempt ⟨"nightly"⟩ .timer)⟩ =
      .outcome (.error failure) → ¬ failure.Missing := by
  intro ticked refused
  have hdue : nightlyReported.engine.snapshot.due Snapshot.beforeTen Snapshot.atTen = [⟨"nightly"⟩] := by
    decide +kernel
  have hdue' : nightlyFull.engine.snapshot.due Snapshot.beforeTen Snapshot.atTen = [⟨"nightly"⟩] := hdue
  have hfired : (nightlyReported.schedule InMemory.collaborators ⟨"nightly"⟩ .timer).1 =
      .ok (.succeeded (.ofTimer nightlyRevisions)) := by decide +kernel
  have hfailed : (nightlyFull.schedule InMemory.collaborators ⟨"nightly"⟩ .timer).1 = .error (.queue "full") := by
    decide +kernel
  have happ : ¬ (⟨"app"⟩ : PipelineName).same ⟨"nightly"⟩ = true := by simp [Name.same_iff_toList]
  obtain ⟨hticks, hfinds⟩ := tick_attempts_each_due_once
  have hticked := hticks .inMemory {} {} ((nightlyDeeds.take 2).map Deed.happening) Snapshot.beforeTen Snapshot.atTen
  have hrefused := hticks .inMemory {} {} fillsQueue Snapshot.beforeTen Snapshot.atTen
  have hinMemory : (⟨InMemory.collaborators, InMemory.apply⟩ : Environment InMemory WorldChange) = .inMemory := rfl
  have hfound := hfinds InMemory.apply {} {} fillsQueue Snapshot.beforeTen Snapshot.atTen
  simp only [run_nightlyReported, hdue, List.map_cons, List.map_nil, deeds] at hticked
  simp only [hinMemory, run_fillsQueue, hdue', List.map_cons, List.map_nil, deeds] at hrefused hfound
  obtain ⟨-, -, -, -, hsublist, hreturned, hpending, -, huntouched⟩ := hticked
  obtain ⟨-, -, -, -, hsublist', hreturned', -, hleft, -⟩ := hrefused
  have hqueues : Deed.Queues .inMemory ⟨"nightly"⟩ .timer (.ofTimer nightlyRevisions)
      ⟨nightlyReported, .request (.attempt ⟨"nightly"⟩ .timer)⟩ := ⟨rfl, congrArg Answer.outcome hfired⟩
  have hmem : ⟨"nightly"⟩ ∈ ticked.1 := (hreturned _).mpr ⟨_, List.mem_singleton_self _, _, hqueues⟩
  have hnone : ⟨"nightly"⟩ ∉ refused.1 := by
    intro hmem'
    obtain ⟨d, hd, cause, -, hanswer⟩ := (hreturned' _).mp hmem'
    rw [List.mem_singleton.mp hd] at hanswer
    cases hfailed.symm.trans (Answer.outcome.inj hanswer)
  refine ⟨hsublist.eq_of_length_le (List.length_pos_of_mem hmem),
    (hpending _ (List.mem_singleton_self _) _ _ hqueues).2,
    huntouched _ fun other hother => by rwa [List.mem_singleton.mp hother], ?_,
    hleft _ (List.mem_singleton_self _) hnone, hfound _ (List.mem_singleton_self _)⟩
  rcases List.sublist_cons_iff.mp hsublist' with hnil | ⟨rest, hrest, -⟩
  · exact List.sublist_nil.mp hnil
  · exact absurd List.mem_cons_self (hrest ▸ hnone)

end BuildScheduling.Session
