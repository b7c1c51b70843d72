import BuildScheduling.Proofs.Engine.Attempt
import BuildScheduling.Proofs.Latest.RunOrder

/-!
# The latest known revision in the course of an attempt

One dependency material is watched while an attempt asks for revisions of whatever it needs. The revisions
of it that are returned on the way, between the one that was known before and the one that is known after,
never step back (`Rises`). Each part of an attempt is described by the revisions that it returns
(`Attempt.Climbs`), and a sequence returns those of its parts (`Climbs.bind`), broken off or not.

This takes a port that lists, for a stage, only runs of this stage, and materials that do not share a
fingerprint with the one that is watched unless they point at the same thing.
-/

namespace BuildScheduling

/-- The runs that are listed for a stage in a world carry its names. -/
def Collaborators.NamesRuns {σ : Type} (collab : Collaborators σ) (world : σ) : Prop :=
  ∀ pipeline stage runs, (collab.stageRuns pipeline stage world).1.answer = .ok runs →
    ∀ run ∈ runs, run.pipeline.same pipeline = true ∧ run.stage.same stage = true

/-- What it takes to watch a dependency: no question leads out of the good worlds, and in these the listed
runs carry the names of their stage. -/
structure Collaborators.Watchable {σ : Type} (collab : Collaborators σ) (Good : σ → Prop) (m : Material) :
    Prop where
  keeps : collab.Keeps Good
  names : ∀ world, Good world → collab.NamesRuns world
  dependency : ∃ pipeline stage, m.source = .dependency pipeline stage

/-- A material with the fingerprint of another points at the same thing. -/
def Material.Unshared (m other : Material) : Prop :=
  other.fingerprint = m.fingerprint → other.source.sameIdentity m.source = true

instance (m other : Material) : Decidable (m.Unshared other) := inferInstanceAs (Decidable (_ → _))

namespace LatestKnown

variable (m : Material)

/-- What is known of the material is a run of its stage. -/
def Proper (known : LatestKnown) : Prop := ∀ r, known.get? m.fingerprint = some r → r.RunOf m

/-- From what is known first, over the returned revisions, to what is known last, the revisions of the
material do not step back; and what is known or returned stays known. -/
structure Rises (known known' : LatestKnown) (returned : List Revision) : Prop where
  ordered : ((known.get? m.fingerprint).toList ++ returned ++
    (known'.get? m.fingerprint).toList).Pairwise Revision.NotNewer
  kept : (known.get? m.fingerprint).toList ++ returned ≠ [] → known'.get? m.fingerprint ≠ none

variable {m}

theorem Rises.of_eq {known known' : LatestKnown} (h : known.Proper m)
    (heq : known'.get? m.fingerprint = known.get? m.fingerprint) : known.Rises m known' [] := by
  constructor
  · rw [heq]
    cases hr : known.get? m.fingerprint with
    | none => simp
    | some r => simpa using (h r hr).notNewer_self
  · rw [heq]
    cases known.get? m.fingerprint <;> simp

theorem Rises.trans {known mid known' : LatestKnown} {first second : List Revision}
    (h : known.Rises m mid first) (h' : mid.Rises m known' second) :
    known.Rises m known' (first ++ second) := by
  have hfirst := List.pairwise_append.mp h.ordered
  have hsecond := List.pairwise_append.mp (List.append_assoc .. ▸ h'.ordered)
  constructor
  · have hshape : (known.get? m.fingerprint).toList ++ (first ++ second) ++
        (known'.get? m.fingerprint).toList = (known.get? m.fingerprint).toList ++ first ++
        (second ++ (known'.get? m.fingerprint).toList) := by simp
    rw [hshape, List.pairwise_append]
    refine ⟨hfirst.1, hsecond.2.1, fun a ha b hb => ?_⟩
    -- What is known in the middle lies between the two.
    cases hmid : mid.get? m.fingerprint with
    | none => exact absurd hmid (h.kept (List.ne_nil_of_mem ha))
    | some r =>
      have hr : r ∈ (mid.get? m.fingerprint).toList := by simp [hmid]
      exact (hfirst.2.2 a ha r hr).trans (hsecond.2.2 r hr b hb)
  · intro hne
    cases hmid : mid.get? m.fingerprint with
    | some r =>
      apply h'.kept
      simp [hmid]
    | none =>
      apply h'.kept
      intro hnil
      obtain ⟨-, rfl⟩ := List.append_eq_nil_iff.mp hnil
      rw [List.append_nil] at hne
      exact h.kept hne hmid

theorem Rises.sublist {known known' : LatestKnown} {returned some' : List Revision}
    (h : known.Rises m known' returned) (hsub : some'.Sublist returned) : known.Rises m known' some' := by
  constructor
  · exact h.ordered.sublist (((List.Sublist.refl _).append hsub).append (List.Sublist.refl _))
  · intro hne
    apply h.kept
    intro hnil
    rw [List.append_eq_nil_iff] at hnil
    obtain ⟨hknown, rfl⟩ := hnil
    rw [hknown, List.eq_nil_of_sublist_nil hsub] at hne
    exact hne rfl

theorem Rises.notNewer {known known' : LatestKnown} {returned : List Revision} {r : Revision}
    (h : known.Rises m known' returned) (hr : known.get? m.fingerprint = some r) :
    ∃ r', known'.get? m.fingerprint = some r' ∧ r.NotNewer r' := by
  obtain ⟨r', hr'⟩ := Option.ne_none_iff_exists'.mp (h.kept (by simp [hr]))
  refine ⟨r', hr', ?_⟩
  have hordered := (List.pairwise_append.mp h.ordered).2.2
  exact hordered r (by simp [hr]) r' (by simp [hr'])

theorem Rises.of_insert {known : LatestKnown} {r : Revision} (hr : r.RunOf m)
    (hknown : ∀ old, known.get? m.fingerprint = some old → old.NotNewer r) :
    known.Rises m (known.insert m.fingerprint r) [r] := by
  have hget : (known.insert m.fingerprint r).get? m.fingerprint = some r := by
    rw [SortedMap.get?_insert, if_pos (Fingerprint.compare_eq_iff.mpr rfl)]
  constructor
  · rw [hget]
    cases hold : known.get? m.fingerprint with
    | none => simpa using hr.notNewer_self
    | some old => simpa using ⟨hknown old hold, hr.notNewer_self⟩
  · simp [hget]

end LatestKnown

namespace Attempt

variable {σ α β : Type} {Good : σ → Prop} {m : Material}

/-! ### Parts of an attempt -/

/-- The progress of an attempt in a good world, with a run of its stage known of the material, if any. -/
structure Fit (Good : σ → Prop) (m : Material) (progress : Progress σ) : Prop where
  world : Good progress.world
  proper : progress.known.Proper m

theorem Fit.of_known_eq {progress last : Progress σ} (h : Fit Good m progress) (hworld : Good last.world)
    (hknown : last.known = progress.known) :
    Fit Good m last ∧ progress.known.Rises m last.known [] := by
  constructor
  · refine ⟨hworld, ?_⟩
    rw [hknown]
    exact h.proper
  · exact .of_eq h.proper (by rw [hknown])

/-- In the course of `x`, broken off or not, the revisions that are returned do not step back; `post` tells
them from the answer. -/
def Climbs (Good : σ → Prop) (m : Material) (x : Attempt σ α) (post : α → List Revision → Prop) : Prop :=
  ∀ progress : Progress σ, Fit Good m progress → ∃ returned,
    Fit Good m (x.on progress).2 ∧ progress.known.Rises m (x.on progress).2.known returned ∧
      ∀ a, (x.on progress).1 = .ok a → post a returned

theorem Asks.climbs {x : Attempt σ α} (hx : Asks Good x) :
    Climbs Good m x fun _ returned => returned = [] := by
  intro progress hfit
  obtain ⟨hworld, hknown⟩ := hx progress hfit.world
  obtain ⟨hlast, hrises⟩ := hfit.of_known_eq hworld hknown
  exact ⟨[], hlast, hrises, fun _ _ => rfl⟩

theorem Climbs.pure {a : α} {post : α → List Revision → Prop} (h : post a []) :
    Climbs Good m (pure a : Attempt σ α) post := by
  intro progress hfit
  refine ⟨[], hfit, .of_eq hfit.proper rfl, fun b hb => ?_⟩
  cases hb
  exact h

theorem Climbs.fail {failure : Failure} {post : α → List Revision → Prop} :
    Climbs Good m (fail failure : Attempt σ α) post := by
  intro progress hfit
  refine ⟨[], hfit, .of_eq hfit.proper rfl, fun b hb => ?_⟩
  cases hb

theorem Climbs.bind {x : Attempt σ α} {f : α → Attempt σ β} {post : α → List Revision → Prop}
    {post' : β → List Revision → Prop} (hx : Climbs Good m x post)
    (hf : ∀ a first, post a first → Climbs Good m (f a) fun b second => post' b (first ++ second)) :
    Climbs Good m (x >>= f) post' := by
  intro progress hfit
  obtain ⟨first, hmid, hrises, hpost⟩ := hx progress hfit
  rw [on_bind]
  rcases hanswer : x.on progress with ⟨_ | a, mid⟩
  · rw [hanswer] at hmid hrises
    exact ⟨first, hmid, hrises, fun _ h => by cases h⟩
  · rw [hanswer] at hmid hrises hpost
    obtain ⟨second, hlast, hrises', hpost'⟩ := hf a first (hpost a rfl) mid hmid
    exact ⟨first ++ second, hlast, hrises.trans hrises', hpost'⟩

/-- The parts of a list return what they return one after another. -/
theorem Climbs.mapM {f : α → Attempt σ β} {R : β → List Revision} {items : List α}
    (hf : ∀ a ∈ items, Climbs Good m (f a) fun b returned => returned = R b) :
    Climbs Good m (items.mapM f) fun bs returned => returned = bs.flatMap R := by
  induction items with
  | nil => exact .pure rfl
  | cons a rest ih =>
    obtain ⟨ha, hrest⟩ := List.forall_mem_cons.mp hf
    rw [List.mapM_cons]
    refine ha.bind fun b first hfirst => (ih hrest).bind fun bs second hsecond => .pure ?_
    rw [hfirst, hsecond, List.flatMap_cons, List.append_nil]

/-! ### Asking for the latest revision -/

variable {collab : Collaborators σ} {limit : Option Nat} {snapshot : Snapshot}

/-- What is reported of a dependency: runs of its stage, newest first. -/
theorem reported_dependency {other : Material} {pipeline : PipelineName} {stage : StageName}
    {progress : Progress σ} {revisions : List Revision} (hnames : collab.NamesRuns progress.world)
    (hsource : other.source = .dependency pipeline stage)
    (h : ((reported collab limit snapshot other).on progress).1 = .ok revisions) :
    ∃ runs, revisions = (newestFirst runs).map Revision.ofRun ∧
      ∀ run ∈ runs, run.pipeline.same pipeline = true ∧ run.stage.same stage = true := by
  unfold reported at h
  rw [Material.dependency?_eq_some_iff.mpr hsource] at h
  simp only [passedRuns, on_bind] at h
  have hask := (on_ask limit (collab.stageRuns pipeline stage) progress).2.2
  rcases hanswer : (ask limit (collab.stageRuns pipeline stage)).on progress with ⟨_ | runs, mid⟩
  · simp [hanswer] at h
  · simp only [hanswer, on_pure, Except.ok.injEq] at h
    rw [hanswer] at hask
    refine ⟨runs.filter StageRun.isPassed, h.symm, fun run hrun => ?_⟩
    exact hnames pipeline stage runs (hask runs rfl) run (List.mem_filter.mp hrun).1

theorem on_latest (other : Material) (progress : Progress σ) :
    (latest collab limit snapshot other).on progress =
      match (reported collab limit snapshot other).on progress with
      | (.error interruption, mid) => (.error interruption, mid)
      | (.ok [], mid) => (.ok none, mid)
      | (.ok (head :: rest), mid) =>
        let revision := remembered (mid.known.get? other.fingerprint) head (head :: rest)
        (.ok (some revision), { mid with known := mid.known.insert other.fingerprint revision }) := by
  rw [latest, on_bind]
  rcases (reported collab limit snapshot other).on progress with ⟨_ | _ | ⟨head, rest⟩, mid⟩
  · rfl
  · rfl
  · rfl

/-- A material that shares the fingerprint of a dependency waits for the same stage. -/
theorem dependency_of_unshared {other : Material} {pipeline : PipelineName} {stage : StageName}
    (hsource : m.source = .dependency pipeline stage) (hother : m.Unshared other)
    (hsame : other.fingerprint = m.fingerprint) :
    ∃ pipeline' stage', other.source = .dependency pipeline' stage' ∧
      pipeline'.same pipeline = true ∧ stage'.same stage = true := by
  have hidentity := hother hsame
  rw [hsource] at hidentity
  cases hshape : other.source with
  | scm type url branch =>
    rw [hshape] at hidentity
    cases hidentity
  | dependency pipeline' stage' =>
    rw [hshape] at hidentity
    exact ⟨pipeline', stage', rfl, Bool.and_eq_true_iff.mp hidentity⟩

/-- The latest known revision after a report for the watched stage. -/
theorem remembered_of_reported {progress : Progress σ} (hnames : collab.NamesRuns progress.world)
    {pipeline : PipelineName} {stage : StageName} (hsource : m.source = .dependency pipeline stage)
    {other : Material} (hother : m.Unshared other) (hsame : other.fingerprint = m.fingerprint)
    {head : Revision} {rest : List Revision} {known : Option Revision}
    (hknown : ∀ r, known = some r → r.RunOf m)
    (h : ((reported collab limit snapshot other).on progress).1 = .ok (head :: rest)) :
    (remembered known head (head :: rest)).RunOf m ∧
      ∀ r, known = some r → r.NotNewer (remembered known head (head :: rest)) := by
  obtain ⟨pipeline', stage', hsource', hpipeline, hstage⟩ := dependency_of_unshared hsource hother hsame
  obtain ⟨runs, hruns, hnamed⟩ := reported_dependency hnames hsource' h
  obtain ⟨headRun, restRuns, hnewest, rfl, rfl⟩ := List.map_eq_cons_iff.mp hruns.symm
  have hreported : ∀ r ∈ Revision.ofRun headRun :: restRuns.map Revision.ofRun,
      ∃ run ∈ runs, r = Revision.ofRun run := by
    intro r hr
    rw [hruns] at hr
    obtain ⟨run, hrun, rfl⟩ := List.mem_map.mp hr
    exact ⟨run, List.mem_mergeSort.mp hrun, rfl⟩
  apply remembered_not_older hknown
  · intro r hr
    obtain ⟨run, hrun, rfl⟩ := hreported r hr
    obtain ⟨hp, hs⟩ := hnamed run hrun
    exact ⟨run, rfl, pipeline, stage, hsource, Name.same_trans hp hpipeline, Name.same_trans hs hstage⟩
  · exact List.mem_cons_self
  · intro r hr
    obtain ⟨run, hrun, rfl⟩ := hreported r hr
    exact ⟨run, headRun, rfl, rfl, StageRun.notAfter_head_newestFirst hnewest hrun⟩

/-- Asking for the latest revision of a material that shares no fingerprint with the watched one, unless it
points at the same thing. -/
theorem climbs_latest (hwatch : collab.Watchable Good m) {other : Material} (hother : m.Unshared other) :
    Climbs Good m (latest collab limit snapshot other) fun answer returned =>
      returned = if other.fingerprint = m.fingerprint then answer.toList else [] := by
  intro progress hfit
  obtain ⟨pipeline, stage, hsource⟩ := hwatch.dependency
  obtain ⟨hworld, hknown⟩ := asks_reported limit snapshot hwatch.keeps other progress hfit.world
  rw [on_latest]
  rcases hreported : (reported collab limit snapshot other).on progress with ⟨_ | _ | ⟨head, rest⟩, mid⟩
  · rw [hreported] at hworld hknown
    obtain ⟨hlast, hrises⟩ := hfit.of_known_eq hworld hknown
    exact ⟨[], hlast, hrises, by simp⟩
  · rw [hreported] at hworld hknown
    obtain ⟨hlast, hrises⟩ := hfit.of_known_eq hworld hknown
    exact ⟨[], hlast, hrises, by simp⟩
  · rw [hreported] at hworld hknown
    simp only at hworld hknown ⊢
    rw [hknown]
    by_cases hsame : other.fingerprint = m.fingerprint
    · have hanswer : ((reported collab limit snapshot other).on progress).1 = .ok (head :: rest) := by
        rw [hreported]
      obtain ⟨hrun, hlater⟩ := remembered_of_reported (hwatch.names _ hfit.world) hsource hother hsame
        hfit.proper hanswer
      rw [hsame]
      simp only [if_true]
      refine ⟨_, ⟨hworld, fun r hr => ?_⟩, .of_insert hrun hlater, fun a ha => ?_⟩
      · rw [SortedMap.get?_insert, if_pos (Fingerprint.compare_eq_iff.mpr rfl)] at hr
        cases hr
        exact hrun
      · cases ha
        rfl
    · have hget : ∀ r, (progress.known.insert other.fingerprint r).get? m.fingerprint =
          progress.known.get? m.fingerprint := by
        intro r
        rw [SortedMap.get?_insert, if_neg fun h => hsame (Fingerprint.compare_eq_iff.mp h).symm]
      refine ⟨[], ⟨hworld, fun r hr => ?_⟩, .of_eq hfit.proper (hget _), by simp [hsame]⟩
      rw [hget] at hr
      exact hfit.proper r hr

/-! ### Whole attempts -/

/-- The revisions of the watched material, without those that were asked for by name. -/
def unpegged (m : Material) (overrides : Overrides) (revisions : List MaterialRevision) : List Revision :=
  (revisions.filter fun r =>
    r.material.fingerprint == m.fingerprint && (overrides.wanted? r.material).isNone).map
      MaterialRevision.revision

theorem climbs_answerFor (limit : Option Nat) (hwatch : collab.Watchable Good m) (p : Pipeline)
    (overrides : Overrides) (other : Material) (revision : Option Revision) :
    Climbs Good m (answerFor collab limit p other revision) fun answer rest =>
      (if other.fingerprint == m.fingerprint && (overrides.wanted? other).isNone
        then revision.toList else []) ++ rest = unpegged m overrides answer.2.toList := by
  cases revision with
  | none => exact .pure (by simp [unpegged])
  | some revision =>
    have hask := asks_ask limit (hwatch.keeps.changedSinceLastBuild p.name other.fingerprint)
    refine hask.climbs.bind fun changed rest hrest => .pure ?_
    rw [hrest]
    by_cases hreturned : (other.fingerprint == m.fingerprint && (overrides.wanted? other).isNone) = true
    · simp [unpegged, hreturned]
    · simp [unpegged, hreturned]

theorem climbs_resolveMaterial (hwatch : collab.Watchable Good m) (p : Pipeline) (overrides : Overrides)
    {other : Material} (hother : m.Unshared other) :
    Climbs Good m (resolveMaterial collab limit snapshot p overrides other) fun answer returned =>
      returned = unpegged m overrides answer.2.toList := by
  have hanswer := climbs_answerFor limit hwatch p overrides other
  unfold resolveMaterial
  cases hwanted : overrides.wanted? other with
  | some wanted =>
    simp only [hwanted, Option.isNone_some, Bool.and_false, Bool.false_eq_true, if_false] at hanswer
    have hfind := asks_findRevision limit snapshot hwatch.keeps other wanted
    show Climbs Good m (some <$> findRevision collab limit snapshot other wanted >>=
      answerFor collab limit p other) _
    rw [map_eq_pure_bind]
    refine (hfind.bind fun _ => asks_pure _).climbs.bind fun revision returned hreturned => ?_
    rw [hreturned]
    exact hanswer revision
  | none =>
    simp only [hwanted, Option.isNone_none, Bool.and_true, beq_iff_eq] at hanswer
    refine (climbs_latest hwatch hother).bind fun revision returned hreturned => ?_
    rw [hreturned]
    exact hanswer revision

theorem unpegged_append (overrides : Overrides) (first second : List MaterialRevision) :
    unpegged m overrides (first ++ second) = unpegged m overrides first ++ unpegged m overrides second := by
  rw [unpegged, List.filter_append, List.map_append]
  rfl

theorem flatMap_unpegged (overrides : Overrides) (answers : List (Material × Option MaterialRevision)) :
    (answers.flatMap fun answer => unpegged m overrides answer.2.toList) =
      unpegged m overrides (answers.filterMap Prod.snd) := by
  induction answers with
  | nil => rfl
  | cons answer rest ih =>
    rcases answer with ⟨other, _ | revision⟩
    · rw [List.flatMap_cons, ih]
      rfl
    · rw [List.flatMap_cons, ih]
      exact (unpegged_append overrides [revision] (rest.filterMap Prod.snd)).symm

theorem climbs_resolve (hwatch : collab.Watchable Good m) {p : Pipeline}
    (hmaterials : ∀ other ∈ p.materials, m.Unshared other) (overrides : Overrides) :
    Climbs Good m (resolve collab limit snapshot p overrides) fun resolution returned =>
      ∀ revisions, resolution = .complete revisions → returned = unpegged m overrides revisions := by
  have hanswers : Climbs Good m (p.materials.mapM (resolveMaterial collab limit snapshot p overrides) >>=
      fun answers => pure (gather answers)) fun resolution returned =>
      ∀ revisions, resolution = .complete revisions → returned = unpegged m overrides revisions := by
    refine (Climbs.mapM fun other hother =>
      climbs_resolveMaterial hwatch p overrides (hmaterials other hother)).bind
        fun answers returned hreturned => .pure fun revisions hcomplete => ?_
    rw [List.append_nil, hreturned, flatMap_unpegged]
    unfold gather at hcomplete
    split at hcomplete
    · cases hcomplete
      rfl
    · cases hcomplete
  unfold resolve
  split
  · next key hkey =>
    have hfail : Climbs Good m (fail (.materialNotFound p.name key) : Attempt σ PUnit)
        fun _ _ => False := .fail
    exact hfail.bind fun _ _ h => h.elim
  · exact hanswers

theorem climbs_decide (hwatch : collab.Watchable Good m) {p : Pipeline}
    (hmaterials : ∀ other ∈ p.materials, m.Unshared other) (debounce : TimerDebounce)
    (event : TriggerEvent) :
    Climbs Good m (decide collab limit snapshot debounce p event) fun outcome returned =>
      ∀ cause, outcome = .succeeded cause →
        returned = unpegged m event.overrides cause.materialRevisions := by
  unfold decide
  refine (asks_isHeld limit hwatch.keeps p).climbs.bind fun held first hfirst => ?_
  rw [hfirst]
  split
  · exact .pure fun cause hcause => by cases hcause
  · refine (climbs_resolve hwatch hmaterials event.overrides).bind
      fun resolution returned hreturned => ?_
    cases resolution with
    | incomplete missing => exact .pure fun cause hcause => by cases hcause
    | complete revisions =>
      refine .pure fun cause hcause => ?_
      rw [materialRevisions_of_decideRevisions hcause, List.nil_append, List.append_nil]
      exact hreturned revisions rfl

end Attempt

end BuildScheduling
