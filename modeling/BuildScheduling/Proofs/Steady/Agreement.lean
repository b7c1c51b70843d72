import BuildScheduling.Proofs.Resolution.Pegging

/-!
# One revision for one material

A pipeline may build from the same thing more than once, into different destinations and under different names. Its
latest known revision is looked up anew for each of them, against what the looks before have left. While the world
holds still this makes no difference: whatever an attempt does on the way, a look at any material shows what it
showed at the start (`Repeatable.seen_eq`). So a revision that no override asks for is what a look before the whole
resolution shows of its fingerprint (`revision_of_resolve`), and materials that share a fingerprint share the revision.
-/

namespace BuildScheduling

/-- Materials that no override asks for have the same revision when they have the same fingerprint or point at the
same thing. -/
def Agree (overrides : Overrides) (revisions : List MaterialRevision) : Prop :=
  ∀ r ∈ revisions, ∀ r' ∈ revisions,
    overrides.wanted? r.material = none → overrides.wanted? r'.material = none →
    r.material.fingerprint = r'.material.fingerprint ∨
      r.material.source.sameIdentity r'.material.source = true →
    r.revision = r'.revision

namespace Attempt

variable {σ α : Type} {Good : σ → Prop} {offers : Fingerprint → List Revision} {collab : Collaborators σ}
  {limit : Option Nat} {snapshot : Snapshot} {p : Pipeline} {overrides : Overrides}

/-- What a computation does in a good world leaves alone what looks show. -/
theorem Repeatable.seen_eq {x : Attempt σ α} (hx : Repeatable Good offers x) {progress : Progress σ}
    (hgood : Good progress.world) :
    Good (x.on progress).2.world ∧
      LatestKnown.seen offers (x.on progress).2.known = LatestKnown.seen offers progress.known := by
  obtain ⟨answer, touched, elapsed, hon⟩ := hx progress.elapsed (LatestKnown.seen offers progress.known)
  obtain ⟨world, hworld, hanswer⟩ := hon progress.world progress.known hgood rfl
  rw [hanswer]
  exact ⟨hworld, LatestKnown.seen_refresh progress.known touched⟩

variable (hsteady : collab.Steady snapshot offers Good) (hp : p ∈ snapshot.pipelines)

include hsteady hp

/-- The answer for a material that no override asks for has what a look shows before. -/
theorem revision_of_settle {m : Material} (hm : m ∈ p.materials) {report : Report} {progress mid last : Progress σ}
    {answer : Material × Option MaterialRevision} (hgood : Good progress.world)
    (hask : (ask limit (collab.reportOn snapshot m)).on progress = (.ok report, mid))
    (hsettle : (settle collab limit p overrides m report).on mid = (.ok answer, last)) {r : MaterialRevision}
    (hr : answer.2 = some r) (hunasked : overrides.wanted? r.material = none) :
    LatestKnown.seen offers progress.known r.material.fingerprint = some r.revision := by
  obtain ⟨hknown, -, hanswer⟩ := on_ask limit (collab.reportOn snapshot m) progress
  rw [hask] at hknown hanswer
  have hoffered := hsteady.offered p hp m hm progress.world report hgood (hanswer report rfl)
  rcases settle_cases hsettle with ⟨wanted, revision, changed, hwanted, -, rfl, -⟩ | ⟨-, -, rfl, -⟩ |
    ⟨revision, changed, -, hnewest, rfl, -⟩
  · obtain rfl := Option.some.inj hr
    rw [hwanted] at hunasked
    cases hunasked
  · cases hr
  · obtain rfl := Option.some.inj hr
    rw [← hknown, LatestKnown.seen, ← hoffered]
    exact hnewest

/-- The same for all materials that are resolved one after another. -/
theorem revision_of_mapM {materials : List Material} (hmaterials : ∀ m ∈ materials, m ∈ p.materials)
    {progress last : Progress σ} {answers : List (Material × Option MaterialRevision)} (hgood : Good progress.world)
    (h : (materials.mapM (resolveMaterial collab limit snapshot p overrides)).on progress = (.ok answers, last)) :
    ∀ answer ∈ answers, ∀ r, answer.2 = some r → overrides.wanted? r.material = none →
      LatestKnown.seen offers progress.known r.material.fingerprint = some r.revision := by
  induction materials generalizing progress answers with
  | nil =>
    simp only [List.mapM_nil, on_pure, Prod.mk.injEq, Except.ok.injEq] at h
    simp [← h.1]
  | cons m rest ih =>
    obtain ⟨hm, hrest⟩ := List.forall_mem_cons.mp hmaterials
    obtain ⟨report, mid, first, next, others, hask, hsettle, hothers, rfl, -⟩ := mapM_cons_ok h
    have hasked : Repeatable Good offers (ask limit (collab.reportOn snapshot m)) :=
      repeatable_ask limit (hsteady.report p hp m hm)
    have hmid := hasked.seen_eq hgood
    have hanswer := (on_ask limit (collab.reportOn snapshot m) progress).2.2
    rw [hask] at hmid hanswer
    have hsettled : Repeatable Good offers (settle collab limit p overrides m report) :=
      repeatable_settle limit overrides (hsteady.changed p hp m hm)
        (hsteady.offered p hp m hm progress.world report hgood (hanswer report rfl))
    have hnext := hsettled.seen_eq hmid.1
    rw [hsettle] at hnext
    refine List.forall_mem_cons.mpr ⟨fun r hr hunasked => ?_, fun answer hmem r hr hunasked => ?_⟩
    · exact revision_of_settle hsteady hp hm hgood hask hsettle hr hunasked
    · rw [← hmid.2, ← hnext.2]
      exact ih hrest hnext.1 hothers answer hmem r hr hunasked

theorem revision_of_resolve {progress last : Progress σ} {revisions : List MaterialRevision}
    (hgood : Good progress.world)
    (h : (resolve collab limit snapshot p overrides).on progress = (.ok (.complete revisions), last)) :
    ∀ r ∈ revisions, overrides.wanted? r.material = none →
      LatestKnown.seen offers progress.known r.material.fingerprint = some r.revision := by
  obtain ⟨-, answers, hmap, hcomplete⟩ := answers_of_resolve h
  intro r hr hunasked
  obtain ⟨answer, hanswer, hrevision⟩ := List.mem_map.mp (hcomplete ▸ List.mem_map_of_mem hr)
  exact revision_of_mapM hsteady hp (fun m hm => hm) hgood hmap answer hanswer r hrevision hunasked

theorem agree_of_resolve {progress last : Progress σ} {revisions : List MaterialRevision} (hgood : Good progress.world)
    (h : (resolve collab limit snapshot p overrides).on progress = (.ok (.complete revisions), last)) :
    Agree overrides revisions := by
  intro r hr r' hr' hunasked hunasked' hsame
  have hfingerprint : r.material.fingerprint = r'.material.fingerprint :=
    hsame.elim id Material.fingerprint_eq_of_sameIdentity
  have hseen := revision_of_resolve hsteady hp hgood h r hr hunasked
  rw [hfingerprint, revision_of_resolve hsteady hp hgood h r' hr' hunasked', Option.some.injEq] at hseen
  exact hseen.symm

end Attempt

namespace Session

/-- While nothing is done to collaborators in memory, materials of a pipeline that share a fingerprint agree, as long
as in the snapshot only materials that point at the same thing share one. Whatever was known before, whatever the
overrides and the limit of time, in every complete resolution of the pipeline, which has a revision for each of its
materials, two materials that no override asks for have the same revision if they have the same fingerprint or name
the same stage under any spelling. So they have in the cause of every attempt. -/
theorem shared_fingerprints_agree (s : Session InMemory) (hunshared : s.engine.snapshot.Unshared) {name : PipelineName}
    {p : Pipeline} (hp : s.engine.snapshot.pipeline? name = some p) :
    (∀ (limit : Option Nat) (overrides : Overrides) (progress : Progress InMemory) (revisions : List MaterialRevision),
      ((Attempt.resolve InMemory.collaborators limit s.engine.snapshot p overrides).on progress).1 =
        .ok (.complete revisions) →
      revisions.map MaterialRevision.material = p.materials ∧ Agree overrides revisions) ∧
    ∀ (event : TriggerEvent) (cause : BuildCause),
      (s.schedule InMemory.collaborators name event).1 = .ok (.succeeded cause) →
      cause.materialRevisions.map MaterialRevision.material = p.materials ∧
        Agree event.overrides cause.materialRevisions := by
  have hresolution : ∀ (limit : Option Nat) (overrides : Overrides) (progress : Progress InMemory)
      (revisions : List MaterialRevision),
      ((Attempt.resolve InMemory.collaborators limit s.engine.snapshot p overrides).on progress).1 =
        .ok (.complete revisions) →
      revisions.map MaterialRevision.material = p.materials ∧ Agree overrides revisions := by
    intro limit overrides progress revisions h
    rcases hon : (Attempt.resolve InMemory.collaborators limit s.engine.snapshot p overrides).on progress with
      ⟨answer, last⟩
    rw [hon] at h
    obtain rfl : answer = .ok (.complete revisions) := h
    exact ⟨Attempt.map_material_of_resolve hon,
      Attempt.agree_of_resolve (InMemory.steady progress.world hunshared) (mem_of_pipeline? hp)
        ⟨progress.world.polls, rfl⟩ hon⟩
  refine ⟨hresolution, fun event cause h => ?_⟩
  obtain ⟨q, hq, -, -, -, hdecision⟩ := schedule_ok_decided h (by simp)
  obtain rfl : p = q := Option.some.inj (hp.symm.trans hq)
  rcases Attempt.decide_ok hdecision with hcause | ⟨_, hcause⟩ | ⟨revisions, ⟨mid, last, -, hresolve⟩, hcause⟩
  · cases hcause
  · cases hcause
  · rw [materialRevisions_of_decideRevisions hcause.symm]
    exact hresolution _ _ mid revisions (congrArg Prod.fst hresolve)

/-! A pipeline that checks one repository out three times, the last time only on notifications. The repository showed a
later check-in once, which its history has lost. -/

def sharedRepository : Material := .git "src"

def threefold : Pipeline :=
  Samples.withMaterials ⟨"app"⟩
    [sharedRepository.withDestination "new", sharedRepository.withDestination "old",
      sharedRepository.withAutoUpdate false]

def threefoldConfiguration : Configuration := { pipelines := [threefold] }

/-- The repository is looked at while it lists a check-in that it does not list any more afterwards. -/
def losesLater : List Operation :=
  [.world (.setHistory sharedRepository [Samples.checkIn "r9" 30, Samples.checkIn "r1" 0]),
    .request (.latest sharedRepository),
    .world (.setHistory sharedRepository [Samples.checkIn "r2" 5, Samples.checkIn "r1" 0])]

def laterLost : Session InMemory := reading {} threefoldConfiguration losesLater

theorem laterLost_eq : laterLost = (published {} threefoldConfiguration).run .inMemory losesLater :=
  reading_eq (by decide +kernel) {} _

set_option maxRecDepth 100000 in
/-- The second checkout is pegged to the oldest check-in. The two around it agree on the one that was lost. -/
theorem later_check_in_agreed_on :
    let overrides : Overrides := .ofList [((sharedRepository.withDestination "old").checkoutFingerprint.text, "r1")]
    let cause : BuildCause := .ofUser
      [⟨sharedRepository.withDestination "new", Samples.checkIn "r9" 30, true⟩,
        ⟨sharedRepository.withDestination "old", Samples.checkIn "r1" 0, true⟩,
        ⟨sharedRepository.withAutoUpdate false, Samples.checkIn "r9" 30, true⟩] "dev"
    laterLost.engine.snapshot.Unshared ∧
    (laterLost.schedule InMemory.collaborators ⟨"app"⟩ (.manual "dev" overrides)).1 = .ok (.succeeded cause) ∧
    Agree overrides cause.materialRevisions := by
  intro overrides cause
  obtain ⟨hunshared, hp, hsucceeded⟩ : laterLost.engine.snapshot.Unshared ∧
      laterLost.engine.snapshot.pipeline? ⟨"app"⟩ = some threefold ∧
      (laterLost.schedule InMemory.collaborators ⟨"app"⟩ (.manual "dev" overrides)).1 = .ok (.succeeded cause) := by
    rw [laterLost_eq]
    decide +kernel
  exact ⟨hunshared, hsucceeded, ((shared_fingerprints_agree laterLost hunshared hp).2 _ cause hsucceeded).2⟩

end Session

end BuildScheduling
