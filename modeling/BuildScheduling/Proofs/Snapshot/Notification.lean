import BuildScheduling.Proofs.Latest.Climbing
import BuildScheduling.Proofs.Snapshot.Reload

/-!
# Whom a commit concerns

A notification names a location. The pipelines that it reaches are found in two steps: the repositories at the
location that wait for notifications, one for each fingerprint, and then the pipelines that build from a material
with one of these fingerprints. As long as only materials that point at the same thing share a fingerprint, it does
not matter which declaration stands for the others in the first step (`mem_fingerprints_withUrl_iff`), and the two
steps come to what a reader of the configuration expects (`Configuration.notifies`): a pipeline is reached when it
builds from a repository at the location that some declaration, be it in another pipeline or in a config
repository, leaves to notifications.

What a notification does is then one attempt after another (`postCommit_eq`), and so is what it answers.
-/

namespace BuildScheduling

/-! ### Repositories at a location -/

theorem Material.url?_eq_of_sameIdentity {m m' : Material} (h : m.source.sameIdentity m'.source = true) :
    m.url? = m'.url? := by
  unfold Material.url?
  cases hm : m.source with
  | scm type url branch =>
    cases hm' : m'.source with
    | scm type' url' branch' =>
      rw [hm, hm'] at h
      simp only [MaterialSource.sameIdentity, Bool.and_eq_true, beq_iff_eq] at h
      rw [h.1.2]
    | dependency pipeline stage => simp [hm, hm', MaterialSource.sameIdentity] at h
  | dependency pipeline stage =>
    cases hm' : m'.source with
    | scm type' url' branch' => simp [hm, hm', MaterialSource.sameIdentity] at h
    | dependency pipeline' stage' => rfl

theorem Material.isDependency_eq_false_of_url? {m : Material} {url : String} (h : m.url? = some url) :
    m.isDependency = false := by
  unfold Material.url? at h
  unfold Material.isDependency Material.dependency?
  cases hm : m.source with
  | scm type location branch => rfl
  | dependency pipeline stage =>
    rw [hm] at h
    cases h

namespace MaterialSet

theorem mem_of_mem_collect {materials : List Material} {e : Fingerprint × Material}
    (h : e ∈ (collect materials).entries) : e.2 ∈ materials ∧ e.2.fingerprint = e.1 := by
  obtain ⟨m, hm, rfl⟩ := List.mem_map.mp (SortedMap.mem_of_mem_ofFirsts h)
  exact ⟨hm, rfl⟩

theorem exists_mem_collect {materials : List Material} {m : Material} (h : m ∈ materials) :
    ∃ e ∈ (collect materials).entries, e.1 = m.fingerprint := by
  obtain ⟨e, he, hcompare⟩ := SortedMap.exists_mem_ofFirsts (List.mem_map_of_mem (f := fun m => (m.fingerprint, m)) h)
  exact ⟨e, he, (Fingerprint.compare_eq_iff.mp hcompare).symm⟩

end MaterialSet

namespace Configuration

/-- Declared materials with one fingerprint point at the same thing. -/
def Unshared (c : Configuration) : Prop :=
  ∀ m ∈ c.declaredMaterials, ∀ m' ∈ c.declaredMaterials, m.Unshared m'

instance (c : Configuration) : Decidable c.Unshared := inferInstanceAs (Decidable (∀ m ∈ c.declaredMaterials, _))

/-- A pipeline builds from a repository at a location that some declaration leaves to notifications. -/
def notifies (c : Configuration) (url : String) (p : Pipeline) : Bool :=
  p.materials.any fun m =>
    m.url? == some url && c.declaredMaterials.any fun d => d.source.sameIdentity m.source && !d.autoUpdate

variable {c : Configuration}

theorem mem_declaredMaterials {p : Pipeline} (hp : p ∈ c.pipelines) {m : Material} (hm : m ∈ p.materials) :
    m ∈ c.declaredMaterials :=
  List.mem_append_left _ (List.mem_flatMap.mpr ⟨p, hp, hm⟩)

/-- The fingerprints at a location that wait for notifications: those of the declarations there that have
auto-update off. -/
theorem mem_fingerprints_withUrl_iff (hunshared : c.Unshared) {url : String} {material : Fingerprint} :
    material ∈ (c.postCommit.withUrl url).map Material.fingerprint ↔
      ∃ d ∈ c.declaredMaterials, d.autoUpdate = false ∧ d.url? = some url ∧ d.fingerprint = material := by
  simp only [MaterialSet.withUrl, List.mem_map, List.mem_filter, beq_iff_eq]
  constructor
  · rintro ⟨m, ⟨⟨e, he, rfl⟩, hurl⟩, rfl⟩
    obtain ⟨hmem, -⟩ := MaterialSet.mem_of_mem_collect he
    obtain ⟨hdeclared, hwaits⟩ := List.mem_filter.mp hmem
    rw [Bool.and_eq_true, Bool.not_eq_true'] at hwaits
    exact ⟨e.2, hdeclared, hwaits.1, hurl, rfl⟩
  · rintro ⟨d, hdeclared, hauto, hurl, rfl⟩
    have hwaits : d ∈ c.declaredMaterials.filter fun m => !m.autoUpdate && !m.isDependency :=
      List.mem_filter.mpr ⟨hdeclared, by simp [hauto, Material.isDependency_eq_false_of_url? hurl]⟩
    obtain ⟨e, he, hkey⟩ := MaterialSet.exists_mem_collect hwaits
    obtain ⟨hmem, hfingerprint⟩ := MaterialSet.mem_of_mem_collect he
    rw [hkey] at hfingerprint
    have hsame := hunshared d hdeclared e.2 (List.mem_of_mem_filter hmem) hfingerprint
    exact ⟨e.2, ⟨⟨e, he, rfl⟩, (Material.url?_eq_of_sameIdentity hsame).trans hurl⟩, hfingerprint⟩

/-- The two steps of a notification find the pipelines that the configuration says. -/
theorem notifies_eq (hunshared : c.Unshared) (url : String) {p : Pipeline} (hp : p ∈ c.pipelines) :
    (p.materials.any fun m =>
      ((c.postCommit.withUrl url).map Material.fingerprint).contains m.fingerprint) = c.notifies url p := by
  rw [Bool.eq_iff_iff, notifies, List.any_eq_true, List.any_eq_true]
  refine exists_congr fun m => and_congr_right fun hm => ?_
  rw [List.contains_iff_mem, mem_fingerprints_withUrl_iff hunshared, Bool.and_eq_true, beq_iff_eq, List.any_eq_true]
  constructor
  · rintro ⟨d, hdeclared, hauto, hurl, hfingerprint⟩
    have hsame := hunshared m (mem_declaredMaterials hp hm) d hdeclared hfingerprint
    refine ⟨(Material.url?_eq_of_sameIdentity hsame).symm.trans hurl, d, hdeclared, ?_⟩
    rw [hsame, hauto]
    rfl
  · rintro ⟨hurl, d, hdeclared, hwaits⟩
    rw [Bool.and_eq_true, Bool.not_eq_true'] at hwaits
    obtain ⟨hsame, hauto⟩ := hwaits
    exact ⟨d, hdeclared, hauto, (Material.url?_eq_of_sameIdentity hsame).trans hurl,
      Material.fingerprint_eq_of_sameIdentity hsame⟩

end Configuration

/-! ### The configuration in effect -/

variable {σ χ : Type} {env : Environment σ χ}

/-- The configuration that a deed puts in effect, if it does. -/
def Deed.accepted? (env : Environment σ χ) (d : Deed σ χ) : Option Configuration :=
  match d.happening with
  | .request (.reload c) => if d.accepts env then some c else none
  | _ => none

/-- The configuration in effect after some deeds: the one that was accepted last. -/
def configurationAfter (env : Environment σ χ) (deeds : List (Deed σ χ)) : Configuration :=
  ((deeds.filterMap (Deed.accepted? env)).getLast?).getD {}

theorem configurationAfter_concat (deeds : List (Deed σ χ)) (d : Deed σ χ) :
    configurationAfter env (deeds ++ [d]) = (d.accepted? env).getD (configurationAfter env deeds) := by
  unfold configurationAfter
  cases h : d.accepted? env <;> simp [h]

namespace Session

theorem build_empty : Snapshot.build {} 0 = .ok Snapshot.empty := by
  have hsound : Configuration.Sound {} := Configuration.Orderly.sound (by decide)
  exact Snapshot.build_of_sound hsound 0

/-- The snapshot after a deed is built from the configuration that the deed accepts, or else from the one before. -/
theorem build_next {s : Session σ} {h : Happening χ} (hsingle : h.Single) {c : Configuration}
    (hs : Snapshot.build c s.engine.snapshot.version = .ok s.engine.snapshot) :
    Snapshot.build ((Deed.accepted? env ⟨s, h⟩).getD c) (s.next env h).2.engine.snapshot.version =
      .ok (s.next env h).2.engine.snapshot := by
  have heffect := effect_next env s hsingle
  generalize (s.next env h).2 = s' at heffect
  have hother : (∀ c, h ≠ .request (.reload c)) → Deed.accepted? env ⟨s, h⟩ = none := by
    intro hreload
    unfold Deed.accepted?
    split
    · next c hc => exact absurd hc (hreload c)
    · rfl
  cases heffect with
  | published c' snapshot _ hbuild hanswer hpublished =>
    have haccepted : Deed.accepted? env ⟨s, .request (.reload c')⟩ = some c' := if_pos (accepts_reload hanswer)
    rw [haccepted, hpublished.snapshot, Snapshot.version_of_build hbuild]
    exact hbuild
  | refused c' errors _ hanswer hquiet =>
    have hrefused : Deed.accepted? env ⟨s, .request (.reload c')⟩ = none := by
      have haccepts : Deed.accepts env ⟨s, .request (.reload c')⟩ = false := accepts_reload hanswer
      simp [Deed.accepted?, haccepts]
    rw [hrefused, hquiet.snapshot]
    exact hs
  | queued name event p cause _ hp hfree hanswer hqueued =>
    rw [hother (by simp), hqueued.snapshot]
    exact hs
  | unanswered name event _ hanswer hquiet =>
    rw [hother (by simp), hquiet.snapshot]
    exact hs
  | finished name =>
    rw [hother (by simp)]
    exact hs
  | cleared =>
    rw [hother (by simp)]
    exact hs
  | idle _ _ hattempt hreload hquiet =>
    rw [hother hreload, hquiet.snapshot]
    exact hs

/-- The snapshot in effect is built from the configuration that was accepted last. -/
theorem build_configurationAfter (env : Environment σ χ) (settings : Settings) (world : σ)
    {atoms : List (Happening χ)} (hatoms : ∀ h ∈ atoms, h.Single) :
    let s := (start settings world).run env atoms
    Snapshot.build (configurationAfter env ((start settings world).deeds env atoms)) s.engine.snapshot.version =
      .ok s.engine.snapshot := by
  induction atoms using List.reverseRecOn with
  | nil => exact build_empty
  | append_singleton first h ih =>
    have hfirst := ih fun a ha => hatoms a (List.mem_append_left _ ha)
    dsimp only
    rw [deeds_append, run_append, deeds, deeds, configurationAfter_concat]
    exact build_next (hatoms h (by simp)) hfirst

/-- So it is after any run. -/
theorem build_history (env : Environment σ χ) (settings : Settings) (world : σ)
    (happenings : List (Happening χ)) :
    let s := ((start settings world).run env happenings).engine.snapshot
    Snapshot.build (configurationAfter env ((start settings world).history env happenings)) s.version = .ok s := by
  have hatoms := build_configurationAfter env settings world
    fun h (hh : h ∈ (start settings world).atoms env happenings) => single_of_mem_atoms hh
  dsimp only at hatoms ⊢
  rwa [run_atoms] at hatoms

/-! ### Attempts one after another -/

/-- What an attempt that did not fail came to. -/
def outcome? (env : Environment σ χ) (d : Deed σ χ) : Option (PipelineName × Outcome) :=
  match d.happening, d.answer env with
  | .request (.attempt name _), .outcome (.ok outcome) => some (name, outcome)
  | _, _ => none

theorem filterMap_scheduleAll (s : Session σ) (event : TriggerEvent) (names : List PipelineName) :
    ((s.scheduleAll env.collab event names).1.filterMap fun e => e.2.toOption.map fun o => (e.1, o)) =
      (s.deeds env (names.map fun name => .request (.attempt name event))).filterMap (outcome? env) := by
  induction names generalizing s with
  | nil => rfl
  | cons name rest ih =>
    have hfirst : outcome? env ⟨s, .request (.attempt name event)⟩ =
        (s.schedule env.collab name event).1.toOption.map fun o => (name, o) := by
      simp only [outcome?, Deed.answer, next, request]
      cases (s.schedule env.collab name event).1 <;> rfl
    have hrest := ih (s.schedule env.collab name event).2
    rw [List.map_cons, deeds, List.filterMap_cons, hfirst]
    show List.filterMap _ ((name, (s.schedule env.collab name event).1) ::
      ((s.schedule env.collab name event).2.scheduleAll env.collab event rest).1) = _
    rw [List.filterMap_cons, hrest]
    rfl

/-- A notification is one attempt after another, and answers with those that did not fail. -/
theorem postCommit_eq (env : Environment σ χ) (s : Session σ) (url : String) :
    let attempts : List (Happening χ) :=
      (notified s.engine.snapshot url).map fun name => .request (.attempt name .auto)
    s.postCommit env.collab url = ((s.deeds env attempts).filterMap (outcome? env), s.run env attempts) := by
  intro attempts
  rw [run_map_attempt, ← filterMap_scheduleAll]
  rfl

/-- The pipelines that a notification reaches are those that the configuration says, in declaration order. -/
theorem notified_of_build {c : Configuration} {version : Nat} {snapshot : Snapshot}
    (hbuild : Snapshot.build c version = .ok snapshot) (hunshared : c.Unshared) (url : String) :
    notified snapshot url = (snapshot.pipelines.filter (c.notifies url)).map Pipeline.name := by
  have hpipelines := Snapshot.pipelines_of_build hbuild
  have hwaiting : snapshot.postCommit = c.postCommit := by
    obtain ⟨-, rfl⟩ := Snapshot.build_eq_ok_iff.mp hbuild
    rfl
  unfold notified
  rw [hwaiting, hpipelines]
  refine congrArg (List.map Pipeline.name) (List.filter_congr fun p hp => ?_)
  exact c.notifies_eq hunshared url hp

theorem notifies_eq_false {c : Configuration} {url : String}
    (h : ∀ d ∈ c.declaredMaterials, d.url? = some url → d.autoUpdate = true) (p : Pipeline) :
    c.notifies url p = false := by
  rw [Configuration.notifies, List.any_eq_false]
  intro m hm hwaits
  rw [Bool.and_eq_true, beq_iff_eq, List.any_eq_true] at hwaits
  obtain ⟨hurl, d, hdeclared, hd⟩ := hwaits
  rw [Bool.and_eq_true, Bool.not_eq_true'] at hd
  rw [h d hdeclared ((Material.url?_eq_of_sameIdentity hd.1).trans hurl)] at hd
  cases hd.2

/-! ### Notifications after a run -/

/-- An attempt leaves the snapshot, so each of several attempts finds the pipelines of the first. -/
theorem snapshot_of_mem_deeds {s : Session σ} {names : List PipelineName} {event : TriggerEvent} {d : Deed σ χ}
    (hd : d ∈ s.deeds env (names.map fun name => .request (.attempt name event))) :
    d.before.engine.snapshot = s.engine.snapshot ∧ ∃ name ∈ names, d.happening = .request (.attempt name event) := by
  have hstep : ∀ (t : Session σ) (h : Happening χ), (∃ name, h = .request (.attempt name event)) →
      t.engine.snapshot = s.engine.snapshot → (t.next env h).2.engine.snapshot = s.engine.snapshot := by
    rintro t _ ⟨name, rfl⟩ ht
    rcases (effect_next env t (h := .request (.attempt name event)) trivial).snapshot_cases with hkept | ⟨c, hc, -⟩
    · exact hkept.trans ht
    · cases hc
  have hattempts : ∀ h ∈ names.map fun name => (.request (.attempt name event) : Happening χ),
      ∃ name, h = .request (.attempt name event) := by
    intro h hh
    obtain ⟨name, -, rfl⟩ := List.mem_map.mp hh
    exact ⟨name, rfl⟩
  obtain ⟨name, hname, hh⟩ := List.mem_map.mp (mem_of_mem_deeds hd)
  exact ⟨(invariant_deeds hstep rfl hattempts).1 d hd, name, hname, hh.symm⟩

/-- After any run, a commit at a location is an attempt on each pipeline that builds from a repository there which
the configuration in effect leaves to notifications, as long as its declared materials with one fingerprint point at
the same thing. The snapshot in effect is built from this configuration. The pipelines are attempted in declaration
order, each of them once, and are found under their names in every attempt. The answer has what the attempts came
to that did not fail, and what they leave is what the notification leaves. When the configuration leaves nothing at
the location to notifications, nothing is attempted. -/
theorem post_commit_reaches_notified (env : Environment σ χ) (settings : Settings) (world : σ)
    (happenings : List (Happening χ)) (url : String) :
    let s := (start settings world).run env happenings
    let c := configurationAfter env ((start settings world).history env happenings)
    let reached := s.engine.snapshot.pipelines.filter (c.notifies url)
    let attempts : List (Happening χ) := reached.map fun p => .request (.attempt p.name .auto)
    Snapshot.build c s.engine.snapshot.version = .ok s.engine.snapshot ∧
    (c.Unshared →
      s.postCommit env.collab url = ((s.deeds env attempts).filterMap (outcome? env), s.run env attempts) ∧
      Distinct reached ∧
      (∀ d ∈ s.deeds env attempts, ∃ p ∈ reached, d.happening = .request (.attempt p.name .auto) ∧
        d.before.engine.snapshot.pipeline? p.name = some p) ∧
      ((∀ d ∈ c.declaredMaterials, d.url? = some url → d.autoUpdate = true) →
        s.postCommit env.collab url = ([], s))) := by
  intro s c reached attempts
  have hbuild : Snapshot.build c s.engine.snapshot.version = .ok s.engine.snapshot :=
    build_history env settings world happenings
  refine ⟨hbuild, fun hunshared => ?_⟩
  have hsound : s.engine.snapshot.Sound := Snapshot.sound_of_build hbuild
  have hnotified : notified s.engine.snapshot url = reached.map Pipeline.name :=
    notified_of_build hbuild hunshared url
  have hattempts : attempts = (reached.map Pipeline.name).map fun name => .request (.attempt name .auto) := by
    rw [List.map_map]
    rfl
  have hpost : s.postCommit env.collab url = ((s.deeds env attempts).filterMap (outcome? env), s.run env attempts) := by
    rw [hattempts, ← hnotified]
    exact postCommit_eq env s url
  refine ⟨hpost, hsound.distinct.sublist List.filter_sublist, fun d hd => ?_, fun hpolled => ?_⟩
  · rw [hattempts] at hd
    obtain ⟨hsnapshot, name, hname, hhappening⟩ := snapshot_of_mem_deeds hd
    obtain ⟨p, hp, rfl⟩ := List.mem_map.mp hname
    refine ⟨p, hp, hhappening, ?_⟩
    rw [hsnapshot]
    exact hsound.pipeline?_eq_some_iff.mpr ⟨List.mem_of_mem_filter hp, Name.same_refl _⟩
  · have hnone : attempts = [] := by
      have hreached : reached = [] := List.filter_eq_nil_iff.mpr fun p _ => by simp [notifies_eq_false hpolled p]
      rw [hattempts, hreached]
      rfl
    rw [hpost, hnone]
    rfl

/-! A repository that one pipeline leaves to notifications and another one does not, with a branch of its own for
the documentation. -/

def branched : List Pipeline :=
  [Samples.simple ⟨"app"⟩ (Samples.manualOnlyGit "src"), Samples.simple ⟨"lib"⟩ (Samples.git "src"),
    Samples.simple ⟨"docs"⟩ ((Samples.git "src").withBranch "docs")]

def branchedConfiguration : Configuration := { pipelines := branched }

/-- The configuration was read. -/
def branchedRead : Session InMemory := published {} branchedConfiguration

theorem sound_branched : branchedConfiguration.Sound := Configuration.Orderly.sound (by decide +kernel)

theorem reload_branched : (start {} {}).reload InMemory.collaborators branchedConfiguration =
    (.ok (.ofConfiguration branchedConfiguration 1), branchedRead) := reload_fresh sound_branched {}

theorem configurationAfter_branched :
    configurationAfter .inMemory ((start {} {}).history .inMemory [.request (.reload branchedConfiguration)]) =
      branchedConfiguration := by
  have hanswer : ((start {} {}).reload Environment.inMemory.collab branchedConfiguration).1 =
      .ok (.ofConfiguration branchedConfiguration 1) :=
    congrArg Prod.fst reload_branched
  have haccepts : Deed.accepts .inMemory ⟨start {} {}, .request (.reload branchedConfiguration)⟩ = true :=
    accepts_reload hanswer
  have haccepted : Deed.accepted? .inMemory ⟨start {} {}, .request (.reload branchedConfiguration)⟩ =
      some branchedConfiguration := if_pos haccepts
  show configurationAfter .inMemory ([] ++ [_]) = _
  rw [configurationAfter_concat, haccepted]
  rfl

theorem unshared_branched : branchedConfiguration.Unshared := by decide +kernel

set_option maxRecDepth 100000 in
/-- A commit to the repository reaches `app` and `lib`, and not `docs`, which builds from another branch of it; a
commit elsewhere does nothing. -/
theorem src_commit_reaches_app_and_lib :
    let src := "https://git.example.com/src.git"
    let rejected : Outcome := .rejected (.noModifications ["src"])
    branchedConfiguration.Unshared ∧
    branchedRead.postCommit InMemory.collaborators src =
      ([(⟨"app"⟩, rejected), (⟨"lib"⟩, rejected)],
        branchedRead.run .inMemory [.request (.attempt ⟨"app"⟩ .auto), .request (.attempt ⟨"lib"⟩ .auto)]) ∧
    branchedRead.postCommit InMemory.collaborators "https://git.example.com/lib.git" = ([], branchedRead) := by
  intro src rejected
  have hrun : (start {} {}).run .inMemory [.request (.reload branchedConfiguration)] = branchedRead :=
    congrArg Prod.snd reload_branched
  have hreach := fun url =>
    (post_commit_reaches_notified .inMemory {} {} [.request (.reload branchedConfiguration)] url).2
  simp only [hrun, configurationAfter_branched] at hreach
  have hpipelines : branchedRead.engine.snapshot.pipelines = branched :=
    Snapshot.pipelines_ofConfiguration sound_branched.distinct 1
  have hreached : branched.filter (branchedConfiguration.notifies src) = branched.take 2 := by decide +kernel
  have houtcomes : (branchedRead.deeds .inMemory ((branched.take 2).map fun p =>
      .request (.attempt p.name .auto))).filterMap (outcome? .inMemory) =
        [(⟨"app"⟩, rejected), (⟨"lib"⟩, rejected)] := by decide +kernel
  have helsewhere : ∀ d ∈ branchedConfiguration.declaredMaterials,
      d.url? = some "https://git.example.com/lib.git" → d.autoUpdate = true := by decide +kernel
  refine ⟨unshared_branched, ?_, (hreach _ unshared_branched).2.2.2 helsewhere⟩
  have hsrc := (hreach src unshared_branched).1
  rw [hpipelines, hreached, houtcomes] at hsrc
  exact hsrc

end Session

end BuildScheduling
