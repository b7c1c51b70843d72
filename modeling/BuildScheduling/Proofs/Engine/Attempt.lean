import BuildScheduling.Engine.Basic

/-!
# What an attempt answers

An attempt run from some progress (`Attempt.on`): an answer or an interruption, and the progress that it
leaves. `decide_ok` says where an outcome can come from: the pipeline is held back, a material has no
revision, or the outcome is what the event makes of a complete list of revisions (`Resolves`).
-/

namespace BuildScheduling

/-- No question leads out of the good worlds. -/
structure Collaborators.Keeps {σ : Type} (collab : Collaborators σ) (Good : σ → Prop) : Prop where
  latestRevisions : ∀ material w, Good w → Good (collab.latestRevisions material w).2
  pollNow : ∀ material w, Good w → Good (collab.pollNow material w).2
  changedSinceLastBuild : ∀ pipeline material w, Good w →
    Good (collab.changedSinceLastBuild pipeline material w).2
  stageRuns : ∀ pipeline stage w, Good w → Good (collab.stageRuns pipeline stage w).2
  hasUnfinishedInstance : ∀ pipeline w, Good w → Good (collab.hasUnfinishedInstance pipeline w).2

/-! ### What an event makes of its revisions -/

/-- A cause is taken as it is, unless its pipeline was read at another revision. -/
theorem consistent_cases (p : Pipeline) (cause : BuildCause) :
    consistent p cause = .succeeded cause ∨
      ∃ material expected actual,
        consistent p cause = .rejected (.configMaterialMismatch material expected actual) := by
  unfold consistent
  split
  · split
    · exact Or.inl rfl
    · exact Or.inr ⟨_, _, _, rfl⟩
  · exact Or.inl rfl

theorem eq_of_consistent {p : Pipeline} {cause accepted : BuildCause} (h : consistent p cause = .succeeded accepted) :
    cause = accepted := by
  rcases consistent_cases p cause with hcause | ⟨_, _, _, hmismatch⟩
  · rw [hcause] at h
    exact Outcome.succeeded.inj h
  · rw [hmismatch] at h
    cases h

/-- A cause has all the revisions that it was made from, and says what triggered it. -/
theorem cause_of_decideRevisions {debounce : TimerDebounce} {p : Pipeline} {event : TriggerEvent}
    {revisions : List MaterialRevision} {cause : BuildCause}
    (h : decideRevisions debounce p event revisions = .succeeded cause) :
    cause.materialRevisions = revisions ∧ cause.trigger = event.kind := by
  cases event with
  | auto =>
    rw [← eq_of_consistent h]
    exact ⟨rfl, rfl⟩
  | manual user overrides =>
    cases h
    exact ⟨rfl, rfl⟩
  | timer =>
    rw [decideRevisions] at h
    split at h
    · cases h
    · rw [← eq_of_consistent h]
      exact ⟨rfl, rfl⟩

theorem materialRevisions_of_decideRevisions {debounce : TimerDebounce} {p : Pipeline}
    {event : TriggerEvent} {revisions : List MaterialRevision} {cause : BuildCause}
    (h : decideRevisions debounce p event revisions = .succeeded cause) :
    cause.materialRevisions = revisions := (cause_of_decideRevisions h).1

/-- Only a timer that fires on changes only is rejected for want of changes. -/
theorem decideRevisions_eq_noNewMaterials_iff {debounce : TimerDebounce} {p : Pipeline}
    {event : TriggerEvent} {revisions : List MaterialRevision} :
    decideRevisions debounce p event revisions = .rejected .noNewMaterials ↔
      event = .timer ∧ p.timer.any Timer.onlyOnChanges = true ∧
        debounce.get? p.name = some (revisionSet revisions) := by
  have hconsistent : ∀ cause, consistent p cause ≠ .rejected .noNewMaterials := by
    intro cause
    rcases consistent_cases p cause with h | ⟨_, _, _, h⟩
    · simp [h]
    · simp [h]
  cases event with
  | auto => simp [decideRevisions, hconsistent]
  | manual user overrides => simp [decideRevisions]
  | timer =>
    simp only [decideRevisions, Bool.and_eq_true, TimerDebounce.hasRunWith_iff, true_and]
    split
    · next h => simpa using h
    · next h => simpa [hconsistent] using h

namespace Attempt

variable {σ α β : Type}

/-- The answer of a computation that is run from some progress, and the progress after it. -/
def on (x : Attempt σ α) (progress : Progress σ) : Except Interruption α × Progress σ :=
  x.run.run progress

@[simp] theorem on_pure (a : α) (progress : Progress σ) :
    (pure a : Attempt σ α).on progress = (.ok a, progress) := rfl

@[simp] theorem on_fail (failure : Failure) (progress : Progress σ) :
    (fail failure : Attempt σ α).on progress = (.error (.failed failure), progress) := rfl

@[simp] theorem on_get (progress : Progress σ) :
    (get : Attempt σ (Progress σ)).on progress = (.ok progress, progress) := rfl

@[simp] theorem on_set (progress other : Progress σ) :
    (set other : Attempt σ PUnit).on progress = (.ok ⟨⟩, other) := rfl

@[simp] theorem on_throw (i : Interruption) (progress : Progress σ) :
    (throw i : Attempt σ α).on progress = (.error i, progress) := rfl

theorem on_bind (x : Attempt σ α) (f : α → Attempt σ β) (progress : Progress σ) :
    (x >>= f).on progress =
      match x.on progress with
      | (.ok a, mid) => (f a).on mid
      | (.error interruption, mid) => (.error interruption, mid) := by
  show (ExceptT.bind x f).run.run progress = _
  rw [on]
  simp only [ExceptT.bind, ExceptT.run_mk, StateT.run_bind]
  show ExceptT.bindCont f (x.run.run progress).1 (x.run.run progress).2 = _
  rcases x.run.run progress with ⟨_ | a, mid⟩ <;> rfl

variable {collab : Collaborators σ} {limit : Option Nat} {snapshot : Snapshot}

/-- An attempt on a pipeline gets past the lock and finds a revision for every material. -/
def Resolves (collab : Collaborators σ) (limit : Option Nat) (snapshot : Snapshot) (p : Pipeline)
    (overrides : Overrides) (progress : Progress σ) (revisions : List MaterialRevision) : Prop :=
  ∃ mid last, (isHeld collab limit p).on progress = (.ok false, mid) ∧
    (resolve collab limit snapshot p overrides).on mid = (.ok (.complete revisions), last)

theorem decide_of_resolves {debounce : TimerDebounce} {p : Pipeline} {event : TriggerEvent}
    {progress : Progress σ} {revisions : List MaterialRevision}
    (h : Resolves collab limit snapshot p event.overrides progress revisions) :
    ((decide collab limit snapshot debounce p event).on progress).1 =
      .ok (decideRevisions debounce p event revisions) := by
  obtain ⟨mid, last, hheld, hresolve⟩ := h
  simp [decide, on_bind, hheld, hresolve]

/-- Where an outcome comes from. -/
theorem decide_ok {debounce : TimerDebounce} {p : Pipeline} {event : TriggerEvent}
    {progress : Progress σ} {outcome : Outcome}
    (h : ((decide collab limit snapshot debounce p event).on progress).1 = .ok outcome) :
    outcome = .rejected .locked ∨ (∃ missing, outcome = .rejected (.noModifications missing)) ∨
      ∃ revisions, Resolves collab limit snapshot p event.overrides progress revisions ∧
        outcome = decideRevisions debounce p event revisions := by
  rw [decide, on_bind] at h
  rcases hheld : (isHeld collab limit p).on progress with ⟨_ | held, mid⟩
  · simp [hheld] at h
  · cases held with
    | true =>
      simp only [hheld, if_true, on_pure, Except.ok.injEq] at h
      exact Or.inl h.symm
    | false =>
      simp only [hheld, Bool.false_eq_true, if_false, on_bind] at h
      rcases hresolve : (resolve collab limit snapshot p event.overrides).on mid with ⟨_ | answer, last⟩
      · simp [hresolve] at h
      · cases answer with
        | incomplete missing =>
          simp only [hresolve, on_pure, Except.ok.injEq] at h
          exact Or.inr (Or.inl ⟨missing, h.symm⟩)
        | complete revisions =>
          simp only [hresolve, on_pure, Except.ok.injEq] at h
          exact Or.inr (Or.inr ⟨revisions, ⟨mid, last, hheld, hresolve⟩, h.symm⟩)

/-! ### Questions -/

/-- A question leaves alone what is known, and its answer is that of the world. -/
theorem on_ask (limit : Option Nat) (call : Call σ α) (progress : Progress σ) :
    ((ask limit call).on progress).2.known = progress.known ∧
      (((ask limit call).on progress).2.world = progress.world ∨
        ((ask limit call).on progress).2.world = (call progress.world).2) ∧
      ∀ a, ((ask limit call).on progress).1 = .ok a → (call progress.world).1.answer = .ok a := by
  rw [ask, on_bind]
  simp only [on_get]
  split
  · simp
  · rw [on_bind]
    simp only [on_set]
    split
    · next answer hanswer => simp [hanswer]
    · simp

/-- Leaves alone what is known, and leads from good worlds to good ones. -/
def Asks (Good : σ → Prop) (x : Attempt σ α) : Prop := ∀ progress : Progress σ, Good progress.world →
  Good (x.on progress).2.world ∧ (x.on progress).2.known = progress.known

variable {Good : σ → Prop}

theorem asks_ask (limit : Option Nat) {call : Call σ α} (hcall : ∀ w, Good w → Good (call w).2) :
    Asks Good (ask limit call) := by
  intro progress hgood
  obtain ⟨hknown, hworld, -⟩ := on_ask limit call progress
  refine ⟨?_, hknown⟩
  rcases hworld with hworld | hworld
  · rwa [hworld]
  · rw [hworld]
    exact hcall _ hgood

theorem asks_pure (a : α) : Asks Good (pure a : Attempt σ α) := fun _ hgood => ⟨hgood, rfl⟩

theorem asks_fail (failure : Failure) : Asks Good (fail failure : Attempt σ α) :=
  fun _ hgood => ⟨hgood, rfl⟩

theorem Asks.bind {x : Attempt σ α} {f : α → Attempt σ β} (hx : Asks Good x)
    (hf : ∀ a, Asks Good (f a)) : Asks Good (x >>= f) := by
  intro progress hgood
  obtain ⟨hmid, hknown⟩ := hx progress hgood
  rw [on_bind]
  rcases hanswer : x.on progress with ⟨_ | a, mid⟩
  · rw [hanswer] at hmid hknown
    exact ⟨hmid, hknown⟩
  · rw [hanswer] at hmid hknown
    obtain ⟨hlast, hkept⟩ := hf a mid hmid
    exact ⟨hlast, hkept.trans hknown⟩

variable (limit snapshot) (hkeeps : collab.Keeps Good)

include hkeeps

theorem asks_isHeld (p : Pipeline) : Asks Good (isHeld collab limit p) := by
  unfold isHeld
  split
  · exact asks_ask limit (hkeeps.hasUnfinishedInstance p.name)
  · exact asks_pure false

theorem asks_passedRuns (pipeline : PipelineName) (stage : StageName) :
    Asks Good (passedRuns collab limit pipeline stage) :=
  (asks_ask limit (hkeeps.stageRuns pipeline stage)).bind fun _ => asks_pure _

theorem asks_repositoryHistory (m : Material) : Asks Good (repositoryHistory collab limit snapshot m) := by
  unfold repositoryHistory
  split
  · exact asks_ask limit (hkeeps.latestRevisions m.fingerprint)
  · exact asks_ask limit (hkeeps.pollNow m)

theorem asks_reported (m : Material) : Asks Good (reported collab limit snapshot m) := by
  unfold reported
  split
  · exact (asks_passedRuns limit hkeeps _ _).bind fun _ => asks_pure _
  · exact asks_repositoryHistory limit snapshot hkeeps m

theorem asks_findRevision (m : Material) (wanted : String) :
    Asks Good (findRevision collab limit snapshot m wanted) := by
  unfold findRevision
  split
  · refine (asks_passedRuns limit hkeeps _ _).bind fun _ => (asks_pure _).bind fun found => ?_
    cases found with
    | none => exact asks_fail _
    | some revision => exact asks_pure revision
  · refine (asks_repositoryHistory limit snapshot hkeeps m).bind fun _ => (asks_pure _).bind fun found => ?_
    cases found with
    | none => exact asks_fail _
    | some revision => exact asks_pure revision

end Attempt

end BuildScheduling
