import Mathlib.Data.List.Forall2
import BuildScheduling.Proofs.Resolution.Report
import BuildScheduling.Proofs.Snapshot.Notification

/-!
# What fan-in keeps

Of all declarations of a configuration those that qualify are collected by fingerprint, the first of each
(`CollectsFirst`). Both sets of a configuration are such a collection: of the materials with auto-update on, and of
the repositories with auto-update off. So which fingerprints they have does not depend on the order of the
declarations (`Reordered`), a repository that is built from is in one of them or in both, and it is polled on demand
just when all its declarations have auto-update off.
-/

namespace BuildScheduling

theorem Fingerprint.compare_eq_lt_iff {a b : Fingerprint} : compare a b = .lt ↔ a.text < b.text :=
  compareOfLessAndEq_eq_lt

/-- A repository that some declaration leaves to notifications. -/
def Material.waits (m : Material) : Bool := !m.autoUpdate && !m.isDependency

theorem Material.waits_iff {m : Material} : m.waits = true ↔ m.autoUpdate = false ∧ m.isDependency = false := by
  rw [waits, Bool.and_eq_true, Bool.not_eq_true', Bool.not_eq_true']

namespace Configuration

/-- A set holds the declarations of a configuration that qualify: one for each fingerprint, under this fingerprint,
and the first of those that have it. They stand in the order of their fingerprints. -/
structure CollectsFirst (c : Configuration) (qualifies : Material → Bool) (set : MaterialSet) : Prop where
  contains : ∀ f, set.contains f = true ↔ ∃ m ∈ c.declaredMaterials, m.fingerprint = f ∧ qualifies m = true
  first : ∀ f, set.get? f = c.declaredMaterials.find? fun m => qualifies m && m.fingerprint == f
  entries : ∀ e ∈ set.entries, e.2.fingerprint = e.1 ∧ set.get? e.1 = some e.2
  ascending : set.fingerprints.Pairwise fun a b => a.text < b.text

/-- The declarations of another configuration in another order: of the pipelines, of the materials of each of them,
and of the config repositories. -/
structure Reordered (c c' : Configuration) : Prop where
  pipelines : ∃ order, c.pipelines.Perm order ∧
    List.Forall₂ (fun p p' => p.materials.Perm p'.materials) order c'.pipelines
  configRepos : c.configRepos.Perm c'.configRepos

variable {c c' : Configuration} {qualifies : Material → Bool} {set set' : MaterialSet}

theorem get?_collect (materials : List Material) (f : Fingerprint) :
    (MaterialSet.collect materials).get? f = materials.find? fun m => m.fingerprint == f := by
  have hkey : ∀ m : Material, (compare f m.fingerprint).isEq = (m.fingerprint == f) := by
    intro m
    rw [Bool.eq_iff_iff, Ordering.isEq_iff_eq_eq, Fingerprint.compare_eq_iff, beq_iff_eq, eq_comm]
  rw [MaterialSet.collect, SortedMap.get?_ofFirsts, List.find?_map, Option.map_map]
  simp only [Function.comp_def, hkey, Option.map_id']

theorem collectsFirst_collect (c : Configuration) (qualifies : Material → Bool) :
    c.CollectsFirst qualifies (.collect (c.declaredMaterials.filter qualifies)) := by
  have hfirst : ∀ f, (MaterialSet.collect (c.declaredMaterials.filter qualifies)).get? f =
      c.declaredMaterials.find? fun m => qualifies m && m.fingerprint == f := by
    intro f
    rw [get?_collect, List.find?_filter]
    simp only [Bool.decide_and, Bool.decide_eq_true]
  constructor
  case first => exact hfirst
  case contains =>
    intro f
    rw [SortedMap.contains_eq_isSome_get?, hfirst, List.find?_isSome]
    simp only [Bool.and_eq_true, beq_iff_eq, and_comm]
  case entries =>
    intro e he
    exact ⟨(MaterialSet.mem_of_mem_collect he).2, SortedMap.get?_of_mem he⟩
  case ascending =>
    exact (SortedMap.pairwise_keys _).imp Fingerprint.compare_eq_lt_iff.mp

theorem Reordered.declaredMaterials_perm (h : c.Reordered c') :
    c.declaredMaterials.Perm c'.declaredMaterials := by
  obtain ⟨⟨order, hpipelines, hmaterials⟩, hrepos⟩ := h
  refine List.Perm.append ((hpipelines.flatMap_right _).trans ?_) (hrepos.map _)
  clear hpipelines
  generalize c'.pipelines = pipelines at hmaterials
  induction hmaterials with
  | nil => exact .nil
  | cons hp _ ih =>
    rw [List.flatMap_cons, List.flatMap_cons]
    exact hp.append ih

/-- The order of the declarations does not matter to which fingerprints are collected. -/
theorem CollectsFirst.contains_eq (h : c.CollectsFirst qualifies set) (h' : c'.CollectsFirst qualifies set')
    (horder : c.Reordered c') : set'.contains = set.contains := by
  funext f
  rw [Bool.eq_iff_iff, h.contains, h'.contains]
  simp only [horder.declaredMaterials_perm.mem_iff]

theorem collectsFirst_pollable (c : Configuration) : c.CollectsFirst Material.autoUpdate c.pollable :=
  c.collectsFirst_collect Material.autoUpdate

theorem collectsFirst_postCommit (c : Configuration) : c.CollectsFirst Material.waits c.postCommit :=
  c.collectsFirst_collect Material.waits

end Configuration

/-! ### Where a repository is looked for -/

namespace Snapshot

/-- The revisions of a material are learned from one question, whoever the collaborators are and whatever limit of
time there is. -/
def LearnsFrom (s : Snapshot) (m : Material) (question : ∀ {σ : Type}, Collaborators σ → Call σ (List Revision)) :
    Prop :=
  ∀ (σ : Type) (collab : Collaborators σ) (limit : Option Nat),
    Attempt.repositoryHistory collab limit s m = Attempt.ask limit (question collab)

def PollsOnDemand (s : Snapshot) (m : Material) : Prop := s.LearnsFrom m fun collab => collab.pollNow m

def LooksUp (s : Snapshot) (m : Material) : Prop := s.LearnsFrom m fun collab => collab.latestRevisions m.fingerprint

variable {s : Snapshot} {m : Material}

/-- A poll on demand is counted, and a look at the list of a polled repository is not. -/
theorem not_looksUp_and_pollsOnDemand : ¬ (s.LooksUp m ∧ s.PollsOnDemand m) := by
  rintro ⟨hlooks, hpolls⟩
  have hsame := (hlooks _ InMemory.collaborators none).symm.trans (hpolls _ InMemory.collaborators none)
  have hcounted := congrArg (fun x => (x.on { world := {}, known := ∅ }).2.world.polls) hsame
  simp [Attempt.on_ask_eq, InMemory.collaborators] at hcounted

theorem pollsOnDemand_iff : s.PollsOnDemand m ↔ s.pollable.contains m.fingerprint = false := by
  constructor
  · intro hpolls
    rw [← Bool.not_eq_true]
    intro hpolled
    exact not_looksUp_and_pollsOnDemand ⟨fun _ _ _ => if_pos hpolled, hpolls⟩
  · intro hunpolled σ collab limit
    simp only [Attempt.repositoryHistory, hunpolled, Bool.false_eq_true, if_false]

theorem looksUp_iff : s.LooksUp m ↔ s.pollable.contains m.fingerprint = true := by
  constructor
  · intro hlooks
    rw [← Bool.not_eq_false]
    intro hunpolled
    exact not_looksUp_and_pollsOnDemand ⟨hlooks, pollsOnDemand_iff.mpr hunpolled⟩
  · exact fun hpolled _ _ _ => if_pos hpolled

variable {c : Configuration} {version : Nat}

theorem sets_of_build (h : build c version = .ok s) : s.pollable = c.pollable ∧ s.postCommit = c.postCommit := by
  obtain ⟨-, rfl⟩ := build_eq_ok_iff.mp h
  exact ⟨rfl, rfl⟩

theorem contains_pollable_or_postCommit (h : build c version = .ok s) (hm : m ∈ c.declaredMaterials)
    (hsource : m.isDependency = false) :
    s.pollable.contains m.fingerprint = true ∨ s.postCommit.contains m.fingerprint = true := by
  obtain ⟨hpollable, hpostCommit⟩ := sets_of_build h
  rw [hpollable, hpostCommit, c.collectsFirst_pollable.contains, c.collectsFirst_postCommit.contains]
  cases hauto : m.autoUpdate with
  | true => exact Or.inl ⟨m, hm, rfl, hauto⟩
  | false => exact Or.inr ⟨m, hm, rfl, Material.waits_iff.mpr ⟨hauto, hsource⟩⟩

theorem looksUp_iff_of_build (h : build c version = .ok s) (m : Material) :
    s.LooksUp m ↔ ∃ d ∈ c.declaredMaterials, d.fingerprint = m.fingerprint ∧ d.autoUpdate = true := by
  rw [looksUp_iff, (sets_of_build h).1, c.collectsFirst_pollable.contains]

theorem pollsOnDemand_iff_of_build (h : build c version = .ok s) (m : Material) :
    s.PollsOnDemand m ↔ ∀ d ∈ c.declaredMaterials, d.fingerprint = m.fingerprint → d.autoUpdate = false := by
  rw [pollsOnDemand_iff, ← Bool.not_eq_true, ← looksUp_iff, looksUp_iff_of_build h]
  simp only [not_exists, not_and, Bool.not_eq_true]

end Snapshot

/-! ### The snapshot in effect -/

namespace Session

variable {σ χ : Type}

theorem configurationAfter_reload {c : Configuration} {snapshot : Snapshot} (env : Environment σ χ)
    (settings : Settings) (world : σ) (h : Snapshot.build c 1 = .ok snapshot) :
    configurationAfter env ((start settings world).history env [.request (.reload c)]) = c := by
  have hanswer : ((start settings world).reload env.collab c).1 = .ok snapshot :=
    congrArg Prod.fst (reload_of_build h)
  have haccepted : Deed.accepted? env ⟨start settings world, .request (.reload c)⟩ = some c :=
    if_pos (accepts_reload hanswer)
  show configurationAfter env ([] ++ [_]) = c
  rw [configurationAfter_concat, haccepted]
  rfl

/-- Every configuration is fanned in by fingerprint: what is polled are the fingerprints with some declaration that
has auto-update on, what waits for notifications are those of repositories with some declaration that has it off, the
first such declaration stands for each, and in whatever order the declarations stand it is the same fingerprints. And
after any run each repository that some pipeline builds from is in one of the two sets. It is polled on demand when
every declaration of it in the configuration in effect has auto-update off, and only then; otherwise its revisions are
looked up in what is polled anyway. -/
theorem fan_in_exact_and_polls_on_demand (env : Environment σ χ) (settings : Settings) (world : σ)
    (happenings : List (Happening χ)) :
    (∀ c : Configuration,
      c.CollectsFirst Material.autoUpdate c.pollable ∧ c.CollectsFirst Material.waits c.postCommit ∧
      ∀ c', c.Reordered c' →
        c'.pollable.contains = c.pollable.contains ∧ c'.postCommit.contains = c.postCommit.contains) ∧
    let s := ((start settings world).run env happenings).engine.snapshot
    let c := configurationAfter env ((start settings world).history env happenings)
    Snapshot.build c s.version = .ok s ∧ s.pollable = c.pollable ∧ s.postCommit = c.postCommit ∧
    ∀ p ∈ s.pipelines, ∀ m ∈ p.materials, m.isDependency = false →
      (s.pollable.contains m.fingerprint = true ∨ s.postCommit.contains m.fingerprint = true) ∧
      (s.PollsOnDemand m ↔ ∀ d ∈ c.declaredMaterials, d.fingerprint = m.fingerprint → d.autoUpdate = false) ∧
      (s.LooksUp m ↔ ∃ d ∈ c.declaredMaterials, d.fingerprint = m.fingerprint ∧ d.autoUpdate = true) := by
  constructor
  · intro c
    refine ⟨c.collectsFirst_pollable, c.collectsFirst_postCommit, fun c' horder => ⟨?_, ?_⟩⟩
    · exact c.collectsFirst_pollable.contains_eq c'.collectsFirst_pollable horder
    · exact c.collectsFirst_postCommit.contains_eq c'.collectsFirst_postCommit horder
  · intro s c
    have hbuild : Snapshot.build c s.version = .ok s := build_history env settings world happenings
    obtain ⟨hpollable, hpostCommit⟩ := Snapshot.sets_of_build hbuild
    refine ⟨hbuild, hpollable, hpostCommit, fun p hp m hm hsource => ?_⟩
    rw [Snapshot.pipelines_of_build hbuild] at hp
    exact ⟨Snapshot.contains_pollable_or_postCommit hbuild (Configuration.mem_declaredMaterials hp hm) hsource,
      Snapshot.pollsOnDemand_iff_of_build hbuild m, Snapshot.looksUp_iff_of_build hbuild m⟩

/-! A repository that one of two pipelines leaves to notifications, and one that its only pipeline does. -/

def mixed : List Pipeline :=
  [Samples.simple ⟨"app"⟩ (Samples.manualOnlyGit "src"), Samples.simple ⟨"lib"⟩ (Samples.git "src"),
    Samples.simple ⟨"docs"⟩ (Samples.manualOnlyGit "docs")]

def mixedConfiguration : Configuration := { pipelines := mixed }

theorem sound_mixed : mixedConfiguration.Sound := Configuration.Orderly.sound (by decide +kernel)

/-- `src` is polled for `lib`, so its revisions are looked up for `app` too, and a commit to it is still announced
for `app`. `docs` is polled on demand. -/
theorem src_looked_up_and_docs_polled_on_demand :
    let s := ((start {} {}).run .inMemory [.request (.reload mixedConfiguration)]).engine.snapshot
    let src := Samples.manualOnlyGit "src"
    let docs := Samples.manualOnlyGit "docs"
    (s.pollable.contains src.fingerprint = true ∧ s.postCommit.contains src.fingerprint = true ∧ s.LooksUp src) ∧
    s.pollable.contains docs.fingerprint = false ∧ s.postCommit.contains docs.fingerprint = true ∧
      s.PollsOnDemand docs := by
  intro s src docs
  have hsnapshot : ((start {} {}).run .inMemory [.request (.reload mixedConfiguration)]).engine.snapshot =
      .ofConfiguration mixedConfiguration 1 := congrArg (fun r => r.engine.snapshot) (next_reload sound_mixed {})
  have hpipelines : (Snapshot.ofConfiguration mixedConfiguration 1).pipelines = mixed :=
    Snapshot.pipelines_ofConfiguration sound_mixed.distinct 1
  have hconfiguration : configurationAfter .inMemory
      ((start {} {}).history .inMemory [.request (.reload mixedConfiguration)]) = mixedConfiguration :=
    configurationAfter_reload .inMemory {} {} (Snapshot.build_of_sound sound_mixed 1)
  have hafter := (fan_in_exact_and_polls_on_demand .inMemory {} {} [.request (.reload mixedConfiguration)]).2
  simp only [hsnapshot, hconfiguration, hpipelines] at hafter
  obtain ⟨-, -, hpostCommit, hlearned⟩ := hafter
  have happ := hlearned (Samples.simple ⟨"app"⟩ src) (.head _) src (.head _) rfl
  have hdocs := hlearned (Samples.simple ⟨"docs"⟩ docs) (.tail _ (.tail _ (.head _))) docs (.head _) rfl
  have hlib : ∃ d ∈ mixedConfiguration.declaredMaterials, d.fingerprint = src.fingerprint ∧ d.autoUpdate = true :=
    ⟨Samples.git "src", .tail _ (.head _), rfl, rfl⟩
  have hdiffer : (Samples.git "src").fingerprint ≠ docs.fingerprint := by decide +kernel
  have honly : ∀ d ∈ mixedConfiguration.declaredMaterials, d.fingerprint = docs.fingerprint → d.autoUpdate = false := by
    intro d hd hshared
    rcases hd with _ | ⟨_, _ | ⟨_, _ | ⟨_, ⟨⟩⟩⟩⟩
    · rfl
    · exact absurd hshared hdiffer
    · rfl
  rw [show s = .ofConfiguration mixedConfiguration 1 from hsnapshot]
  have hlooked := happ.2.2.mpr hlib
  have hpolled := hdocs.2.1.mpr honly
  have hwaits := mixedConfiguration.collectsFirst_postCommit.contains
  refine ⟨⟨Snapshot.looksUp_iff.mp hlooked, ?_, hlooked⟩, Snapshot.pollsOnDemand_iff.mp hpolled, ?_, hpolled⟩
  · rw [hpostCommit, hwaits]
    exact ⟨src, .head _, rfl, rfl⟩
  · rw [hpostCommit, hwaits]
    exact ⟨docs, .tail _ (.tail _ (.head _)), rfl, rfl⟩

end Session

end BuildScheduling
