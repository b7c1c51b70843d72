import BuildScheduling.Proofs.Graph.BuildOrder
import BuildScheduling.Proofs.Engine.Effect

/-!
# Which configurations are accepted

A configuration is accepted exactly when it is sound (`errors_eq_nil_iff`): its names are distinct, its
dependencies are declared, no pipeline waits for itself, and its timers can be read. Each condition is the
absence of one kind of error. Since a snapshot is only ever replaced by one that was built, the snapshot in
effect in a run is sound at all times.
-/

namespace BuildScheduling

open Relation (TransGen)

/-- A configuration that can be scheduled from. -/
structure Configuration.Sound (c : Configuration) : Prop where
  distinct : Distinct c.pipelines
  closed : Closed c.pipelines
  acyclic : Acyclic c.pipelines
  timers : ∀ p ∈ c.pipelines, ∀ timer, p.timer = some timer →
    ∃ schedule, Cron.Schedule.ofSpec? timer.spec = some schedule

/-- A snapshot whose names are distinct, whose dependencies are declared, and in which no chain of waiting
pipelines comes back or goes on for ever. -/
structure Snapshot.Sound (s : Snapshot) : Prop where
  distinct : Distinct s.pipelines
  closed : Closed s.pipelines
  acyclic : Acyclic s.pipelines
  ends : ¬ ∃ chain : Nat → Pipeline, ∀ n, WaitsFor s.pipelines (chain n) (chain (n + 1))

namespace Graph

/-! ### Errors of the graph -/

variable {g : Graph}

theorem referenceError?_eq_none_iff (hg : Distinct g.pipelines) {p : Pipeline} {d : Dependency} :
    g.referenceError? p d = none ↔
      ∃ q ∈ g.pipelines, q.name.same d.pipeline = true ∧ ∃ s ∈ q.stages, s.name.same d.stage = true := by
  have hstage : ∀ q : Pipeline,
      q.hasStage d.stage = true ↔ ∃ s ∈ q.stages, s.name.same d.stage = true := fun q => by
    rw [Pipeline.hasStage, List.any_eq_true]
  unfold referenceError?
  rw [pipeline?_eq_find?]
  cases hnamed : g.pipelines.find? fun p => p.name.same d.pipeline with
  | none =>
    simp only [reduceCtorEq, false_iff, not_exists, not_and]
    intro q hq hname
    exact absurd hname (List.find?_eq_none.mp hnamed q hq)
  | some named =>
    have hfound := (hg.find?_eq_some_iff).mp hnamed
    simp only [ite_eq_left_iff, reduceCtorEq, imp_false, not_not, hstage]
    constructor
    · exact fun h => ⟨named, hfound.1, hfound.2, h⟩
    · rintro ⟨q, hq, hname, h⟩
      rw [Name.same_comm] at hname
      rwa [hg.eq_of_same hfound.1 hq (Name.same_trans hfound.2 hname)]

theorem referenceErrors_eq_nil_iff (hg : Distinct g.pipelines) :
    g.referenceErrors = [] ↔ Closed g.pipelines := by
  simp only [referenceErrors, List.flatMap_eq_nil_iff, List.filterMap_eq_nil_iff,
    referenceError?_eq_none_iff hg]
  constructor
  · intro h p hp m hm named stage hsource
    obtain ⟨d, hd, rfl, rfl⟩ := exists_mem_dependencies_iff.mpr ⟨m, hm, hsource⟩
    exact h p hp d hd
  · intro h p hp d hd
    obtain ⟨m, hm, hsource⟩ := exists_mem_dependencies_iff.mp ⟨d, hd, rfl, rfl⟩
    exact h p hp m hm d.pipeline d.stage hsource

theorem cycleErrors_eq_nil_iff (hg : Distinct g.pipelines) :
    g.cycleErrors = [] ↔ Acyclic g.pipelines := by
  have hnode : ∀ v : g.Node, g.cycleError? g.edges v = none ↔
      ¬ TransGen (WaitsFor g.pipelines) (g.pipelines.get v) (g.pipelines.get v) := fun v => by
    rw [← isSome_cycleError?_iff hg, Bool.not_eq_true, Option.isSome_eq_false_iff, Option.isNone_iff_eq_none]
  simp only [cycleErrors, List.filterMap_eq_nil_iff, List.mem_finRange, forall_const, hnode]
  constructor
  · intro h p hcycle
    obtain ⟨q, hwaits, -⟩ := Relation.TransGen.head'_iff.mp hcycle
    obtain ⟨i, hi, rfl⟩ := List.mem_iff_getElem.mp hwaits.1
    exact h ⟨i, hi⟩ hcycle
  · exact fun h v => h (g.pipelines.get v)

theorem duplicateErrors_eq_nil_iff {declared : List Pipeline} :
    (ofPipelines declared).duplicateErrors = [] ↔ Distinct declared := by
  rw [duplicateErrors, List.map_eq_nil_iff, repeated_eq_repeatedDeclarations]
  exact repeatedDeclarations_eq_nil_iff.trans (by simp)

theorem pipelines_ofPipelines {declared : List Pipeline} (h : Distinct declared) :
    (ofPipelines declared).pipelines = declared := by
  rw [pipelines_eq_firstDeclarations]
  exact firstDeclarations_eq_self (repeatedDeclarations_eq_nil_iff.mpr ⟨by simp, h⟩)

end Graph

namespace Snapshot

/-! ### Accepted configurations -/

theorem timerErrors_eq_nil_iff {pipelines : List Pipeline} :
    timerErrors pipelines = [] ↔ ∀ p ∈ pipelines, ∀ timer, p.timer = some timer →
      ∃ schedule, Cron.Schedule.ofSpec? timer.spec = some schedule := by
  rw [timerErrors, List.filterMap_eq_nil_iff]
  refine forall₂_congr fun p _ => ?_
  unfold Pipeline.schedule?
  cases p.timer with
  | none => simp
  | some timer => cases hspec : Cron.Schedule.ofSpec? timer.spec <;> simp [hspec]

/-- Nothing is wrong with a configuration exactly when it is sound. -/
theorem errors_eq_nil_iff {c : Configuration} : errors c = [] ↔ c.Sound := by
  simp only [errors, Graph.errors, List.append_eq_nil_iff, Graph.duplicateErrors_eq_nil_iff,
    Graph.referenceErrors_eq_nil_iff (Graph.distinct_pipelines _),
    Graph.cycleErrors_eq_nil_iff (Graph.distinct_pipelines _), timerErrors_eq_nil_iff]
  constructor
  · rintro ⟨⟨⟨hdistinct, hclosed⟩, hacyclic⟩, htimers⟩
    rw [Graph.pipelines_ofPipelines hdistinct] at hclosed hacyclic htimers
    exact ⟨hdistinct, hclosed, hacyclic, htimers⟩
  · rintro ⟨hdistinct, hclosed, hacyclic, htimers⟩
    rw [Graph.pipelines_ofPipelines hdistinct]
    exact ⟨⟨⟨hdistinct, hclosed⟩, hacyclic⟩, htimers⟩

theorem build_eq_ok_iff {c : Configuration} {version : Nat} {s : Snapshot} :
    build c version = .ok s ↔ errors c = [] ∧ s = ofConfiguration c version := by
  unfold build
  split
  · next herrors => simp [herrors, eq_comm]
  · next herrors =>
    simp only [reduceCtorEq, false_iff, not_and]
    exact fun h => absurd h herrors

theorem build_of_sound {c : Configuration} (h : c.Sound) (version : Nat) :
    build c version = .ok (ofConfiguration c version) :=
  build_eq_ok_iff.mpr ⟨errors_eq_nil_iff.mpr h, rfl⟩

theorem pipelines_ofConfiguration {c : Configuration} (h : Distinct c.pipelines) (version : Nat) :
    (ofConfiguration c version).pipelines = c.pipelines := Graph.pipelines_ofPipelines h

theorem pipelines_of_build {c : Configuration} {version : Nat} {s : Snapshot}
    (h : build c version = .ok s) : s.pipelines = c.pipelines := by
  obtain ⟨herrors, rfl⟩ := build_eq_ok_iff.mp h
  exact pipelines_ofConfiguration (errors_eq_nil_iff.mp herrors).distinct version

theorem sound_of_build {c : Configuration} {version : Nat} {s : Snapshot}
    (h : build c version = .ok s) : s.Sound := by
  have hc := errors_eq_nil_iff.mp (build_eq_ok_iff.mp h).1
  have hpipelines := pipelines_of_build h
  refine ⟨?_, ?_, ?_, ?_⟩ <;> rw [hpipelines]
  · exact hc.distinct
  · exact hc.closed
  · exact hc.acyclic
  · exact hc.acyclic.no_infinite_chain

theorem Sound.pipeline?_eq_some_iff {s : Snapshot} (h : s.Sound) {name : PipelineName} {p : Pipeline} :
    s.pipeline? name = some p ↔ p ∈ s.pipelines ∧ p.name.same name = true := by
  rw [pipeline?_eq_find?]
  exact h.distinct.find?_eq_some_iff

theorem sound_empty : empty.Sound := by
  have hnone : ∀ p q, ¬ WaitsFor empty.pipelines p q := fun p q h => List.not_mem_nil h.1
  refine ⟨List.Pairwise.nil, fun p hp => absurd hp List.not_mem_nil, ?_, ?_⟩
  · intro p hcycle
    obtain ⟨q, hwaits, -⟩ := Relation.TransGen.head'_iff.mp hcycle
    exact hnone p q hwaits
  · rintro ⟨chain, hchain⟩
    exact hnone _ _ (hchain 0)

end Snapshot

/-! ### Runs -/

variable {σ χ : Type} {env : Environment σ χ}

theorem Session.sound_next (s : Session σ) (h : Happening χ) (hsingle : h.Single)
    (hs : s.engine.snapshot.Sound) : (s.next env h).2.engine.snapshot.Sound := by
  rcases (Session.effect_next env s hsingle).snapshot_cases with hkept | ⟨c, -, hbuild⟩
  · rwa [hkept]
  · exact Snapshot.sound_of_build hbuild

/-- A configuration is accepted, under any version, exactly when it is sound. It is sound exactly when its
names are distinct, its pipelines have a build order, and its timers can be read. The snapshot in effect is
sound before every deed of a run and at its end. -/
theorem build_ok_iff_sound_and_snapshot_in_effect_sound :
    (∀ (c : Configuration) (version : Nat), (∃ s, Snapshot.build c version = .ok s) ↔ c.Sound) ∧
    (∀ c : Configuration, c.Sound ↔
      Distinct c.pipelines ∧
      (∃ order : List Pipeline, order.Perm c.pipelines ∧ InBuildOrder order) ∧
      ∀ p ∈ c.pipelines, ∀ timer, p.timer = some timer →
        ∃ schedule, Cron.Schedule.ofSpec? timer.spec = some schedule) ∧
    ∀ {σ χ : Type} (env : Environment σ χ) (settings : Settings) (world : σ)
      (happenings : List (Happening χ)),
      (∀ d ∈ (Session.start settings world).history env happenings, d.before.engine.snapshot.Sound) ∧
      ((Session.start settings world).run env happenings).engine.snapshot.Sound := by
  refine ⟨fun c version => ?_, fun c => ?_, fun env settings world happenings => ?_⟩
  · rw [← Snapshot.errors_eq_nil_iff]
    constructor
    · rintro ⟨s, hs⟩
      exact (Snapshot.build_eq_ok_iff.mp hs).1
    · intro herrors
      exact ⟨_, Snapshot.build_eq_ok_iff.mpr ⟨herrors, rfl⟩⟩
  · constructor
    · rintro ⟨hdistinct, hclosed, hacyclic, htimers⟩
      exact ⟨hdistinct, (closed_and_acyclic_iff hdistinct).mp ⟨hclosed, hacyclic⟩, htimers⟩
    · rintro ⟨hdistinct, horder, htimers⟩
      obtain ⟨hclosed, hacyclic⟩ := (closed_and_acyclic_iff hdistinct).mpr horder
      exact ⟨hdistinct, hclosed, hacyclic, htimers⟩
  · exact Session.invariant_run Session.sound_next Snapshot.sound_empty happenings

end BuildScheduling
