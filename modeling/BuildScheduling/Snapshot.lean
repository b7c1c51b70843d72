import BuildScheduling.Graph.Basic
import BuildScheduling.FanIn
import BuildScheduling.Cron.Grammar
import BuildScheduling.SortedMap.Lemmas

/-!
# Snapshots

A snapshot is a configuration in which nothing is wrong, made ready for scheduling: its graph, its two sets
of materials and the parsed timers. `Snapshot.build` gives one or every error that stands in its way.
-/

namespace BuildScheduling

structure Snapshot where
  /-- How many configurations were accepted so far. It grows by one at a time, so it is not bounded to a word. -/
  version : Nat
  graph : Graph
  pollable : MaterialSet
  postCommit : MaterialSet
  /-- The schedule of every pipeline that has a timer. -/
  timers : NameMap Cron.Schedule
  deriving DecidableEq

/-- The schedule of a pipeline's timer, or what is wrong with it; nothing without a timer. -/
def Pipeline.schedule? (p : Pipeline) : Option (Except ConfigError Cron.Schedule) :=
  p.timer.map fun timer =>
    match Cron.Schedule.ofSpec? timer.spec with
    | some schedule => .ok schedule
    | none => .error { pipeline := p.name, kind := .invalidTimer timer.spec (Cron.diagnosis timer.spec) }

namespace Snapshot

def empty : Snapshot := ⟨0, .empty, ∅, ∅, ∅⟩

def timerErrors (pipelines : List Pipeline) : List ConfigError :=
  pipelines.filterMap fun p =>
    match p.schedule? with
    | some (.error e) => some e
    | _ => none

def timersOf (pipelines : List Pipeline) : NameMap Cron.Schedule :=
  .ofList (pipelines.filterMap fun p =>
    match p.schedule? with
    | some (.ok schedule) => some (p.name, schedule)
    | _ => none)

def errors (c : Configuration) : List ConfigError :=
  let graph := Graph.ofPipelines c.pipelines
  graph.errors ++ timerErrors graph.pipelines

/-- What is made of a configuration in which nothing is wrong. -/
def ofConfiguration (c : Configuration) (version : Nat) : Snapshot :=
  let graph := Graph.ofPipelines c.pipelines
  ⟨version, graph, c.pollable, c.postCommit, timersOf graph.pipelines⟩

def build (c : Configuration) (version : Nat) : Except (List ConfigError) Snapshot :=
  match errors c with
  | [] => .ok (ofConfiguration c version)
  | errors => .error errors

def pipeline? (s : Snapshot) (name : PipelineName) : Option Pipeline := s.graph.pipeline? name

def declares (s : Snapshot) (name : PipelineName) : Bool := s.graph.contains name

def pipelines (s : Snapshot) : List Pipeline := s.graph.pipelines

def pipelineNames (s : Snapshot) : SortedSet PipelineName :=
  .ofList (s.pipelines.map Pipeline.name)

/-- The fingerprints of everything that some pipeline builds from. -/
def materialFingerprints (s : Snapshot) : SortedSet Fingerprint :=
  .ofList (s.pipelines.flatMap fun p => p.materials.map Material.fingerprint)

theorem pipeline?_eq_find? (s : Snapshot) (name : PipelineName) :
    s.pipeline? name = s.pipelines.find? fun p => p.name.same name := s.graph.pipeline?_eq_find? name

theorem declares_eq_isSome_pipeline? (s : Snapshot) (name : PipelineName) :
    s.declares name = (s.pipeline? name).isSome := s.graph.contains_eq_isSome_pipeline? name

theorem declares_iff {s : Snapshot} {name : PipelineName} :
    s.declares name = true ↔ ∃ p ∈ s.pipelines, p.name.same name = true := by
  rw [declares_eq_isSome_pipeline?, pipeline?_eq_find?, List.find?_isSome]

theorem declares_congr (s : Snapshot) {a b : PipelineName} (h : a.same b = true) :
    s.declares a = s.declares b := by
  rw [Bool.eq_iff_iff, declares_iff, declares_iff]
  constructor
  · rintro ⟨p, hp, hsame⟩
    exact ⟨p, hp, Name.same_trans hsame h⟩
  · rintro ⟨p, hp, hsame⟩
    rw [Name.same_comm] at h
    exact ⟨p, hp, Name.same_trans hsame h⟩

theorem contains_pipelineNames (s : Snapshot) (name : PipelineName) :
    s.pipelineNames.contains name = s.declares name := by
  rw [Bool.eq_iff_iff, declares_iff, pipelineNames, SortedMap.contains_ofList]
  simp only [List.mem_map, ← Name.same_iff_compare, Name.same_comm name]
  constructor
  · rintro ⟨_, ⟨p, hp, rfl⟩, hsame⟩
    exact ⟨p, hp, hsame⟩
  · rintro ⟨p, hp, hsame⟩
    exact ⟨_, ⟨p, hp, rfl⟩, hsame⟩

theorem contains_materialFingerprints (s : Snapshot) (f : Fingerprint) :
    s.materialFingerprints.contains f = true ↔ ∃ p ∈ s.pipelines, ∃ m ∈ p.materials, m.fingerprint = f := by
  rw [materialFingerprints, SortedMap.contains_ofList]
  simp only [List.mem_flatMap, List.mem_map, Fingerprint.compare_eq_iff]
  constructor
  · rintro ⟨_, ⟨p, hp, m, hm, rfl⟩, rfl⟩
    exact ⟨p, hp, m, hm, rfl⟩
  · rintro ⟨p, hp, m, hm, rfl⟩
    exact ⟨_, ⟨p, hp, m, hm, rfl⟩, rfl⟩

/-- The pipelines whose timer fires after `after` and not later than `latest`, in name order. -/
def due (s : Snapshot) (after latest : Instant) : List PipelineName :=
  (s.timers.entries.filter fun e => e.2.firesBetween after latest).map Prod.fst

end Snapshot

end BuildScheduling
