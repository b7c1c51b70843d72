import BuildScheduling.Proofs.Engine.Answer
import BuildScheduling.Proofs.Snapshot.Reading

/-!
# What the timers remember

The memory of the timers is a function of the history: a pipeline is remembered with the revisions that its
timer fired with last, if no configuration without the pipeline was accepted since (`get?_debounce_run`).
The step is `debounce_after`. That it forgets rests on an invariant: what is remembered is declared, since
a configuration is compared with the one before it to find the pipelines that are gone.

So a timer that fires on changes only is rejected exactly when its candidate is what it fired with last
(`timer_rejected_iff_fired_with_same`), and nothing else in the history matters.
-/

namespace BuildScheduling

variable {σ χ : Type} {collab : Collaborators σ} (env : Environment σ χ)

/-! ### Deeds that matter to a timer -/

namespace Deed

/-- A timer attempt on a pipeline, under any spelling, that ended with a cause. -/
def FiredWith (d : Deed σ χ) (name : PipelineName) (cause : BuildCause) : Prop :=
  ∃ spelling, d.happening = .request (.attempt spelling .timer) ∧ spelling.same name = true ∧
    d.answer env = .outcome (.ok (.succeeded cause))

/-- A configuration without a pipeline was accepted. -/
def Drops (d : Deed σ χ) (name : PipelineName) : Prop :=
  ∃ c snapshot, d.happening = .request (.reload c) ∧ d.answer env = .reloaded (.ok snapshot) ∧
    snapshot.declares name = false

/-- The timer of a pipeline did not fire, and the pipeline stayed. -/
def Passes (d : Deed σ χ) (name : PipelineName) : Prop :=
  (∀ cause, ¬ d.FiredWith env name cause) ∧ ¬ d.Drops env name

variable {env}

theorem FiredWith.unique {d : Deed σ χ} {name : PipelineName} {cause cause' : BuildCause}
    (h : d.FiredWith env name cause) (h' : d.FiredWith env name cause') : cause = cause' := by
  obtain ⟨_, -, -, hanswer⟩ := h
  obtain ⟨_, -, -, hanswer'⟩ := h'
  rw [hanswer] at hanswer'
  cases hanswer'
  rfl

theorem FiredWith.not_drops {d : Deed σ χ} {name : PipelineName} {cause : BuildCause}
    (h : d.FiredWith env name cause) : ¬ d.Drops env name := by
  rintro ⟨_, _, hreload, -⟩
  obtain ⟨_, hattempt, -⟩ := h
  rw [hreload] at hattempt
  cases hattempt

end Deed

/-- The last deed of a list that mattered to a pipeline's timer is that it fired with a cause. -/
def LastFiredWith (deeds : List (Deed σ χ)) (name : PipelineName) (cause : BuildCause) : Prop :=
  ∃ before d since, deeds = before ++ d :: since ∧ d.FiredWith env name cause ∧
    ∀ e ∈ since, e.Passes env name

theorem lastFiredWith_concat {deeds : List (Deed σ χ)} {e : Deed σ χ} {name : PipelineName}
    {cause : BuildCause} :
    LastFiredWith env (deeds ++ [e]) name cause ↔
      e.FiredWith env name cause ∨ e.Passes env name ∧ LastFiredWith env deeds name cause :=
  exists_split_concat

namespace Session

/-! ### One deed -/

/-- Only declared pipelines are remembered. -/
def RemembersDeclared (s : Session σ) : Prop :=
  ∀ name, s.engine.debounce.get? name ≠ none → s.engine.snapshot.declares name = true

theorem declares_of_pipeline? {s : Snapshot} {name : PipelineName} {p : Pipeline}
    (h : s.pipeline? name = some p) : s.declares p.name = true :=
  Snapshot.declares_iff.mpr ⟨p, mem_of_pipeline? h, Name.same_refl p.name⟩

theorem Published.get?_debounce {s s' : Session σ} {snapshot : Snapshot} (h : Published s s' snapshot)
    (hs : s.RemembersDeclared) (name : PipelineName) :
    s'.engine.debounce.get? name =
      if snapshot.declares name then s.engine.debounce.get? name else none := by
  rw [h.debounce, SortedMap.get?_filterKeys _ fun a b hab => by
    rw [SortedMap.contains_congr _ hab, snapshot.declares_congr (Name.same_iff_compare.mpr hab)]]
  rw [Snapshot.contains_pipelineNames]
  cases hnew : snapshot.declares name with
  | true => simp
  | false =>
    cases hold : s.engine.snapshot.declares name with
    | true => simp
    | false =>
      have hnone : s.engine.debounce.get? name = none := by
        by_contra hsome
        rw [hs name hsome] at hold
        exact absurd hold (by simp)
      simp [hnone]

theorem remembersDeclared_next (s : Session σ) (h : Happening χ) (hsingle : h.Single)
    (hs : s.RemembersDeclared) : (s.next env h).2.RemembersDeclared := by
  have heffect := effect_next env s hsingle
  generalize (s.next env h).2 = s' at heffect
  have of_quiet : ∀ {s' : Session σ}, Quiet s s' → s'.RemembersDeclared := by
    intro s' hquiet name hsome
    rw [hquiet.debounce] at hsome
    rw [hquiet.snapshot]
    exact hs name hsome
  cases heffect with
  | queued spelling event p cause _ hp hfree hanswer hqueued =>
    intro name hsome
    rw [hqueued.get?_debounce] at hsome
    rw [hqueued.snapshot]
    split at hsome
    · next hfired => rw [Snapshot.declares_congr _ hfired.2, declares_of_pipeline? hp]
    · exact hs name hsome
  | published c snapshot _ hbuild hanswer hpublished =>
    intro name hsome
    rw [hpublished.get?_debounce hs] at hsome
    rw [hpublished.snapshot]
    by_contra hgone
    exact hsome (if_neg hgone)
  | unanswered spelling event _ hanswer hquiet => exact of_quiet hquiet
  | refused c errors _ hanswer hquiet => exact of_quiet hquiet
  | finished name => exact hs
  | cleared => exact hs
  | idle _ _ hattempt hreload hquiet => exact of_quiet hquiet

/-- An attempt with another name, by another trigger or without a cause passes. -/
theorem passes_attempt {s : Session σ} {spelling name : PipelineName} {event : TriggerEvent}
    (h : ∀ cause, event = .timer → spelling.same name = true →
      (s.schedule env.collab spelling event).1 ≠ .ok (.succeeded cause)) :
    Deed.Passes env ⟨s, .request (.attempt spelling event)⟩ name := by
  constructor
  · rintro cause ⟨_, hhappening, hsame, hanswer⟩
    cases hhappening
    exact h cause rfl hsame (Answer.outcome.inj hanswer)
  · rintro ⟨_, _, hhappening, -⟩
    cases hhappening

/-- A configuration that is refused, or that declares the pipeline, passes. -/
theorem passes_reload {s : Session σ} {name : PipelineName} {c : Configuration}
    (h : ∀ snapshot, (s.reload env.collab c).1 = .ok snapshot → snapshot.declares name = true) :
    Deed.Passes env ⟨s, .request (.reload c)⟩ name := by
  constructor
  · rintro cause ⟨_, hhappening, -⟩
    cases hhappening
  · rintro ⟨_, snapshot, hhappening, hanswer, hgone⟩
    cases hhappening
    rw [h snapshot (Answer.reloaded.inj hanswer)] at hgone
    cases hgone

theorem passes_other {s : Session σ} {name : PipelineName} {h : Happening χ}
    (hattempt : ∀ spelling event, h ≠ .request (.attempt spelling event))
    (hreload : ∀ c, h ≠ .request (.reload c)) : Deed.Passes env ⟨s, h⟩ name :=
  ⟨fun _ ⟨spelling, hhappening, _⟩ => hattempt spelling .timer hhappening,
    fun ⟨c, _, hhappening, _⟩ => hreload c hhappening⟩

/-- What is remembered of a pipeline after a single deed. -/
theorem debounce_after {d : Deed σ χ} (hsingle : d.happening.Single) (hd : d.before.RemembersDeclared)
    (name : PipelineName) :
    (∃ cause, d.FiredWith env name cause ∧
      (d.after env).engine.debounce.get? name = some (revisionSet cause.materialRevisions)) ∨
    (d.Drops env name ∧ (d.after env).engine.debounce.get? name = none) ∨
    (d.Passes env name ∧
      (d.after env).engine.debounce.get? name = d.before.engine.debounce.get? name) := by
  obtain ⟨s, h⟩ := d
  have heffect := effect_next env s hsingle
  simp only [Deed.after]
  generalize (s.next env h).2 = s' at heffect
  cases heffect with
  | queued spelling event p cause _ hp hfree hanswer hqueued =>
    have hspelling := same_of_pipeline? hp
    rw [hqueued.get?_debounce]
    by_cases hfired : event.kind = .timer ∧ name.same p.name = true
    · obtain ⟨hkind, hname⟩ := hfired
      have hevent : event = .timer := by
        cases event <;> first | rfl | cases hkind
      subst hevent
      have hsame : spelling.same name = true := by
        rw [Name.same_comm]
        exact Name.same_trans hname hspelling
      refine Or.inl ⟨cause, ⟨spelling, rfl, hsame, congrArg Answer.outcome hanswer⟩, ?_⟩
      rw [if_pos ⟨rfl, hname⟩]
    · refine Or.inr (Or.inr ⟨passes_attempt env fun _ hevent hsame => ?_, if_neg hfired⟩)
      subst hevent
      rw [Name.same_comm] at hsame hspelling
      exact absurd ⟨rfl, Name.same_trans hsame hspelling⟩ hfired
  | unanswered spelling event _ hanswer hquiet =>
    rw [hquiet.debounce]
    exact Or.inr (Or.inr ⟨passes_attempt env fun cause _ _ => hanswer cause, rfl⟩)
  | published c snapshot _ hbuild hanswer hpublished =>
    rw [hpublished.get?_debounce hd]
    cases hdeclared : snapshot.declares name with
    | false =>
      exact Or.inr (Or.inl ⟨⟨c, snapshot, rfl, congrArg Answer.reloaded hanswer, hdeclared⟩, by simp⟩)
    | true =>
      refine Or.inr (Or.inr ⟨passes_reload env fun other hother => ?_, by simp⟩)
      rw [hanswer] at hother
      cases hother
      exact hdeclared
  | refused c errors _ hanswer hquiet =>
    rw [hquiet.debounce]
    refine Or.inr (Or.inr ⟨passes_reload env fun other hother => ?_, rfl⟩)
    rw [hanswer] at hother
    cases hother
  | finished _ => exact Or.inr (Or.inr ⟨passes_other env (by simp) (by simp), rfl⟩)
  | cleared => exact Or.inr (Or.inr ⟨passes_other env (by simp) (by simp), rfl⟩)
  | idle _ _ hattempt hreload hquiet =>
    rw [hquiet.debounce]
    exact Or.inr (Or.inr ⟨passes_other env hattempt hreload, rfl⟩)

/-! ### Runs -/

/-- What is remembered of a pipeline is what its timer fired with last. -/
theorem get?_debounce_run (settings : Settings) (world : σ) {atoms : List (Happening χ)}
    (hatoms : ∀ h ∈ atoms, h.Single) (name : PipelineName) (built : FingerprintMap String) :
    ((start settings world).run env atoms).engine.debounce.get? name = some built ↔
      ∃ cause, LastFiredWith env ((start settings world).deeds env atoms) name cause ∧
        revisionSet cause.materialRevisions = built := by
  -- From the last thing that happened back to the first, the way a reader looks for the last firing.
  induction atoms using List.reverseRecOn with
  | nil =>
    constructor
    · intro h
      cases h
    · rintro ⟨cause, ⟨before, d, since, hsplit, -⟩, -⟩
      simp [deeds] at hsplit
  | append_singleton first h ih =>
    have hfirst : ∀ h ∈ first, h.Single := fun a ha => hatoms a (List.mem_append_left _ ha)
    have hremembers : ((start settings world).run env first).RemembersDeclared :=
      (invariant_deeds (remembersDeclared_next env) (fun _ hsome => absurd rfl hsome) hfirst).2
    specialize ih hfirst
    rw [deeds_append, run_append]
    generalize (start settings world).run env first = s at hremembers ih ⊢
    show (Deed.after env ⟨s, h⟩).engine.debounce.get? name = _ ↔
      ∃ cause, LastFiredWith env (_ ++ [⟨s, h⟩]) name cause ∧ _
    simp only [lastFiredWith_concat]
    rcases debounce_after env (d := ⟨s, h⟩) (hatoms h (by simp)) hremembers name with
      ⟨cause, hfired, hset⟩ | ⟨hdrops, hset⟩ | ⟨hpasses, hset⟩
    · rw [hset, Option.some.injEq]
      constructor
      · exact fun hbuilt => ⟨cause, Or.inl hfired, hbuilt⟩
      · rintro ⟨other, hother | ⟨hpasses, -⟩, hbuilt⟩
        · rwa [hfired.unique hother]
        · exact absurd hfired (hpasses.1 cause)
    · rw [hset]
      constructor
      · intro hnone
        cases hnone
      · rintro ⟨other, hother | ⟨hpasses, -⟩, -⟩
        · exact absurd hdrops hother.not_drops
        · exact absurd hdrops hpasses.2
    · rw [hset, ih]
      constructor
      · rintro ⟨other, hlast, hbuilt⟩
        exact ⟨other, Or.inr ⟨hpasses, hlast⟩, hbuilt⟩
      · rintro ⟨other, hother | ⟨-, hlast⟩, hbuilt⟩
        · exact absurd hother (hpasses.1 other)
        · exact ⟨other, hlast, hbuilt⟩

/-! ### The law -/

/-- A timer that fires on changes only, and that gets past the queue and the lock and finds its revisions, is
rejected for want of changes exactly when these revisions are those that it fired with last, no configuration
without the pipeline having been accepted since. Any other timer is never rejected so. A deed that is neither
such a firing nor such a configuration leaves what is remembered of the pipeline as it is. -/
theorem timer_rejected_iff_fired_with_same (env : Environment σ χ) (settings : Settings) (world : σ)
    (happenings : List (Happening χ)) (earlier later : List (Deed σ χ)) (d : Deed σ χ)
    (hhistory : (start settings world).history env happenings = earlier ++ d :: later)
    (name : PipelineName) (hattempt : d.happening = .request (.attempt name .timer))
    (p : Pipeline) (hp : d.before.engine.snapshot.pipeline? name = some p)
    (timer : Timer) (htimer : p.timer = some timer) :
    (timer.onlyOnChanges = true → env.collab.pendingOutage d.before.world = none →
      ¬ d.before.ForcedPending name → ∀ revisions,
      Attempt.Resolves env.collab (some (d.before.engine.settings.resolutionTimeout.toNat * 1000))
        d.before.engine.snapshot p ∅ d.before.progress revisions →
      (d.answer env = .outcome (.ok (.rejected .noNewMaterials)) ↔
        ∃ cause, LastFiredWith env earlier name cause ∧
          revisionSet cause.materialRevisions = revisionSet revisions)) ∧
    (timer.onlyOnChanges = false → d.answer env ≠ .outcome (.ok (.rejected .noNewMaterials))) ∧
    (∀ e ∈ (start settings world).history env happenings, e.Passes env name →
      (e.after env).engine.debounce.get? name = e.before.engine.debounce.get? name) := by
  have hsame : p.name.same name = true := same_of_pipeline? hp
  have hanswer : ∀ rejection, d.answer env = .outcome (.ok (.rejected rejection)) ↔
      (d.before.schedule env.collab name .timer).1 = .ok (.rejected rejection) := by
    intro rejection
    rw [Deed.answer, hattempt]
    exact ⟨Answer.outcome.inj, congrArg Answer.outcome⟩
  refine ⟨fun hchanges hqueue hfree revisions hresolves => ?_, fun hchanges => ?_, fun e he hpasses => ?_⟩
  · obtain ⟨first, rest, hatoms, rfl, hbefore, -⟩ := deeds_eq_append_cons hhistory
    have hsingle : ∀ h ∈ first, h.Single := by
      intro h hh
      have hmem : h ∈ (start settings world).atoms env happenings := by
        rw [hatoms]
        exact List.mem_append_left _ hh
      exact single_of_mem_atoms hmem
    have htimed : TriggerEvent.timer.kind = .timer → p.timer ≠ none := by simp [htimer]
    rw [← forcedPending_congr _ hsame] at hfree
    rw [hanswer, schedule_rejected_iff hp htimed hqueue hfree hresolves,
      decideRevisions_eq_noNewMaterials_iff, SortedMap.get?_congr _ (Name.same_iff_compare.mp hsame),
      hbefore, get?_debounce_run env settings world hsingle]
    simp [htimer, hchanges]
  · rw [Ne, hanswer]
    intro hrejected
    obtain ⟨p', hp', hforced | hdecision⟩ := schedule_ok hrejected
    · cases hforced
    · rw [hp] at hp'
      cases hp'
      rcases Attempt.decide_ok hdecision with h | ⟨_, h⟩ | ⟨revisions, -, h⟩
      · cases h
      · cases h
      · have hwanted := (decideRevisions_eq_noNewMaterials_iff.mp h.symm).2.1
        rw [htimer, Option.any_some, hchanges] at hwanted
        cases hwanted
  · have hremembers : e.before.RemembersDeclared :=
      (invariant_run (remembersDeclared_next env) (fun _ hsome => absurd rfl hsome) happenings).1 e he
    rcases debounce_after env (single_of_mem_history he) hremembers name with
      ⟨cause, hfired, -⟩ | ⟨hdrops, -⟩ | ⟨-, hkept⟩
    · exact absurd hfired (hpasses.1 cause)
    · exact absurd hdrops hpasses.2
    · exact hkept

/-! ### A nightly build -/

/-- Waits for `app`, and fires on changes only. -/
def nightly : Pipeline := Samples.timed ⟨"nightly"⟩ (.dependency ⟨"app"⟩ ⟨"build"⟩) true

def nightlyConfiguration : Configuration := { pipelines := [Samples.withMaterials ⟨"app"⟩ [], nightly] }

/-- The configuration was read. -/
def nightlyRead : Session InMemory := published {} nightlyConfiguration

theorem sound_nightly : nightlyConfiguration.Sound :=
  Configuration.Orderly.sound (by decide +kernel)

theorem reload_nightly :
    ((start {} {}).next .inMemory (.request (.reload nightlyConfiguration))).2 = nightlyRead :=
  next_reload sound_nightly {}

/-- The first run of `app` has passed. -/
def nightlyReported : Session InMemory :=
  (nightlyRead.next .inMemory (.world (.record (Samples.passed ⟨"app"⟩ 1 ⟨"build"⟩)))).2

def nightlyFired : Session InMemory :=
  (nightlyReported.next .inMemory (.request (.attempt ⟨"nightly"⟩ .timer))).2

def nightlyRevisions : List MaterialRevision :=
  [⟨.dependency ⟨"app"⟩ ⟨"build"⟩, .ofRun (Samples.passed ⟨"app"⟩ 1 ⟨"build"⟩), true⟩]

def nightlyDeeds : List (Deed InMemory WorldChange) :=
  [⟨start {} {}, .request (.reload nightlyConfiguration)⟩,
    ⟨nightlyRead, .world (.record (Samples.passed ⟨"app"⟩ 1 ⟨"build"⟩))⟩,
    ⟨nightlyReported, .request (.attempt ⟨"nightly"⟩ .timer)⟩]

theorem history_nightly :
    (start {} {}).history .inMemory
        (nightlyDeeds.map Deed.happening ++ [.request (.attempt ⟨"nightly"⟩ .timer)]) =
      nightlyDeeds ++ [⟨nightlyFired, .request (.attempt ⟨"nightly"⟩ .timer)⟩] := by
  simp only [nightlyDeeds, List.map_cons, List.map_nil, List.cons_append, List.nil_append, history, atoms,
    parts, deeds, reload_nightly]
  rfl

set_option maxRecDepth 100000 in
/-- The timer fires once, and is rejected when it asks again. -/
theorem nightly_rejected_after_firing :
    (start {} {}).history .inMemory
        (nightlyDeeds.map Deed.happening ++ [.request (.attempt ⟨"nightly"⟩ .timer)]) =
      nightlyDeeds ++ [⟨nightlyFired, .request (.attempt ⟨"nightly"⟩ .timer)⟩] ∧
    Deed.answer .inMemory ⟨nightlyFired, .request (.attempt ⟨"nightly"⟩ .timer)⟩ =
      .outcome (.ok (.rejected .noNewMaterials)) := by
  have hstate : nightlyFired.engine.snapshot.pipeline? ⟨"nightly"⟩ = some nightly ∧
      Environment.inMemory.collab.pendingOutage nightlyFired.world = none ∧
      ¬ nightlyFired.ForcedPending ⟨"nightly"⟩ := by decide +kernel
  have hresolve : ((Attempt.resolve Environment.inMemory.collab
      (some (nightlyFired.engine.settings.resolutionTimeout.toNat * 1000)) nightlyFired.engine.snapshot
      nightly ∅).on nightlyFired.progress).1 = .ok (.complete nightlyRevisions) := by decide +kernel
  have hfired : (nightlyReported.schedule Environment.inMemory.collab ⟨"nightly"⟩ .timer).1 =
      .ok (.succeeded (.ofTimer nightlyRevisions)) := by decide +kernel
  obtain ⟨hp, hqueue, hfree⟩ := hstate
  refine ⟨history_nightly, ?_⟩
  refine ((timer_rejected_iff_fired_with_same .inMemory {} {} _ nightlyDeeds [] _ history_nightly
    ⟨"nightly"⟩ rfl nightly hp ⟨"0 0 22 * * *", true⟩ rfl).1 rfl hqueue hfree nightlyRevisions
      ⟨nightlyFired.progress, _, rfl, Prod.ext hresolve rfl⟩).mpr ?_
  refine ⟨.ofTimer nightlyRevisions, ⟨nightlyDeeds.take 2,
    ⟨nightlyReported, .request (.attempt ⟨"nightly"⟩ .timer)⟩, [], rfl, ?_, by simp⟩, rfl⟩
  exact ⟨⟨"nightly"⟩, rfl, Name.same_refl _, congrArg Answer.outcome hfired⟩

end Session

end BuildScheduling
