import BuildScheduling.Proofs.Decision.Order
import BuildScheduling.Proofs.Snapshot.Belonging
import BuildScheduling.Proofs.Steady.InMemory

/-!
# Overrides peg what they name

A pipeline is resolved twice on a steady world, with and without overrides. As no look at a material changes what
any look shows, the two go side by side (`Attempt.Alongside`): whenever the first gets on, so does the second, and
the revisions that nobody asked for by name are the same (`Attempt.Pegs`). The ones that were asked for are found in
the history as it is. A material that is not looked at except for a wanted revision is known as before.
-/

namespace BuildScheduling

namespace Overrides

/-- A text is asked for of a material: under its checkout fingerprint or, if there is nothing under that, under its
fingerprint. -/
def AsksFor (overrides : Overrides) (m : Material) (wanted : String) : Prop :=
  overrides.get? m.checkoutFingerprint.text = some wanted ∨
    overrides.get? m.checkoutFingerprint.text = none ∧ overrides.get? m.fingerprint.text = some wanted

variable {overrides : Overrides} {m : Material}

theorem wanted?_eq_some_iff {wanted : String} : overrides.wanted? m = some wanted ↔ overrides.AsksFor m wanted := by
  unfold wanted? AsksFor
  cases overrides.get? m.checkoutFingerprint.text <;> simp

theorem wanted?_eq_none_iff : overrides.wanted? m = none ↔ ∀ wanted, ¬ overrides.AsksFor m wanted := by
  simp only [Option.eq_none_iff_forall_ne_some, ne_eq, wanted?_eq_some_iff]

end Overrides

namespace Attempt

variable {σ α : Type} {Good : σ → Prop} {offers : Fingerprint → List Revision} {collab : Collaborators σ}
  {limit : Option Nat} {snapshot : Snapshot} {p : Pipeline} {overrides : Overrides}

/-! ### Side by side -/

/-- Two computations have got to good worlds, and every look shows the same to both. -/
structure Alongside (Good : σ → Prop) (offers : Fingerprint → List Revision) (progress progress' : Progress σ) :
    Prop where
  good : Good progress.world
  good' : Good progress'.world
  seen : progress'.known.seen offers = progress.known.seen offers

variable {progress progress' : Progress σ}

/-- What was answered in time is answered again, without a limit. -/
theorem ask_alongside {call : Call σ α} (hcall : call.Steady Good) (h : Alongside Good offers progress progress')
    {a : α} {mid : Progress σ} (hask : (ask limit call).on progress = (.ok a, mid)) :
    ∃ mid', (ask none call).on progress' = (.ok a, mid') ∧ Alongside Good offers mid mid' ∧
      mid.known = progress.known ∧ mid'.known = progress'.known := by
  obtain ⟨reply, hreply⟩ := hcall
  rw [on_ask_eq, (hreply _ h.good).1] at hask
  split at hask
  · cases hask
  obtain ⟨hanswer, rfl⟩ := Prod.mk.inj hask
  let mid' : Progress σ :=
    { progress' with world := (call progress'.world).2, elapsed := progress'.elapsed + reply.took }
  refine ⟨mid', ?_, ⟨(hreply _ h.good).2, (hreply _ h.good').2, h.seen⟩, rfl, rfl⟩
  rw [on_ask_eq, (hreply _ h.good').1, hanswer]
  rfl

/-- An answer with any revision, and the same with another one. -/
theorem answerFor_alongside {m : Material} (hchanged : (collab.changedSinceLastBuild p.name m.fingerprint).Steady Good)
    (h : Alongside Good offers progress progress') {revision : Revision} {last : Progress σ}
    {answer : Material × Option MaterialRevision}
    (hanswer : (answerFor collab limit p m (some revision)).on progress = (.ok answer, last)) (other : Revision) :
    ∃ changed last', answer = (m, some ⟨m, revision, changed⟩) ∧
      (answerFor collab none p m (some other)).on progress' = (.ok (m, some ⟨m, other, changed⟩), last') ∧
      Alongside Good offers last last' := by
  rw [answerFor, on_bind] at hanswer
  rcases hask : (ask limit (collab.changedSinceLastBuild p.name m.fingerprint)).on progress with ⟨_ | changed, mid⟩
  · simp [hask] at hanswer
  simp only [hask, on_pure, Prod.mk.injEq, Except.ok.injEq] at hanswer
  obtain ⟨rfl, rfl⟩ := hanswer
  obtain ⟨mid', hask', hmid, -, -⟩ := ask_alongside hchanged h hask
  exact ⟨changed, mid', rfl, by rw [answerFor, on_bind, hask']; rfl, hmid⟩

/-- A revision of a material, next to the one that is found without overrides: it is the same, unless another is
asked for, and then it is found by the wanted name. -/
structure Pegs (overrides : Overrides) (Found : Material → String → Revision → Prop) (free r : MaterialRevision) :
    Prop where
  material : free.material = r.material
  unasked : (∀ wanted, ¬ overrides.AsksFor r.material wanted) → r = free
  asked : ∀ wanted, overrides.AsksFor r.material wanted → Found r.material wanted r.revision

theorem Pegs.mono {Found Found' : Material → String → Revision → Prop}
    (hfound : ∀ m wanted revision, Found m wanted revision → Found' m wanted revision) {free r : MaterialRevision}
    (h : Pegs overrides Found free r) : Pegs overrides Found' free r :=
  ⟨h.material, h.unasked, fun wanted hasked => hfound _ _ _ (h.asked wanted hasked)⟩

/-- In some good world the report on a material lists a revision under a name. -/
def Reported (collab : Collaborators σ) (snapshot : Snapshot) (Good : σ → Prop) (m : Material) (wanted : String)
    (revision : Revision) : Prop :=
  ∃ w report, Good w ∧ (collab.reportOn snapshot m w).1.answer = .ok report ∧ report.named? wanted = some revision

variable {Found : Material → String → Revision → Prop}

section

variable {m : Material} {report : Report} {first : Material × Option MaterialRevision} {last : Progress σ}
  {r : MaterialRevision} (hchanged : (collab.changedSinceLastBuild p.name m.fingerprint).Steady Good)
  (hoffered : report.revisions = offers m.fingerprint)
  (h : Alongside Good offers progress progress')
  (hsettle : (settle collab limit p overrides m report).on progress = (.ok first, last)) (hr : first.2 = some r)

include hchanged hoffered h hsettle hr

/-- A material with a wanted revision is not looked at. Without overrides it is, and as the report is not empty, the
look shows some revision. -/
theorem settle_alongside_asked {wanted : String} (hwanted : overrides.wanted? m = some wanted)
    (hfound : ∀ revision, report.named? wanted = some revision → Found m wanted revision) :
    ∃ free last', (settle collab none p ∅ m report).on progress' = (.ok (m, some free), last') ∧
      Alongside Good offers last last' ∧ Pegs overrides Found free r := by
  simp only [settle, hwanted] at hsettle
  cases hnamed : report.named? wanted with
  | none => simp [hnamed] at hsettle
  | some revision =>
    simp only [hnamed] at hsettle
    obtain ⟨other, hother⟩ : ∃ other, progress'.known.newest? m.fingerprint report.revisions = some other := by
      have hlisted := Report.mem_revisions_iff.mpr (Report.lists_of_named? hnamed)
      rw [← Option.isSome_iff_exists, LatestKnown.newest?, Option.isSome_map, List.isSome_head?]
      exact List.ne_nil_of_mem hlisted
    have halong : Alongside Good offers progress
        { progress' with known := progress'.known.learn m.fingerprint report.revisions } :=
      ⟨h.good, h.good', by rw [hoffered, LatestKnown.seen_learn, h.seen]⟩
    obtain ⟨changed, last', rfl, hanswer, hlast⟩ := answerFor_alongside hchanged halong hsettle other
    obtain rfl : ⟨m, revision, changed⟩ = r := Option.some.inj hr
    have hfree : (settle collab none p ∅ m report).on progress' =
        (answerFor collab none p m (some other)).on
          { progress' with known := progress'.known.learn m.fingerprint report.revisions } := by
      show (update m report.revisions >>= answerFor collab none p m).on progress' = _
      rw [on_bind, on_update, hother]
    refine ⟨⟨m, other, changed⟩, last', hfree.trans hanswer, hlast, rfl, fun hunasked => ?_, fun wanted' hasked => ?_⟩
    · exact absurd (Overrides.wanted?_eq_some_iff.mp hwanted) (hunasked wanted)
    · rw [← Overrides.wanted?_eq_some_iff, hwanted, Option.some.injEq] at hasked
      exact hasked ▸ hfound revision hnamed

/-- A material without a wanted revision is looked at, with the same result as without any overrides. -/
theorem settle_alongside_unasked (hwanted : overrides.wanted? m = none) :
    ∃ free last', (settle collab none p ∅ m report).on progress' = (.ok (m, some free), last') ∧
      Alongside Good offers last last' ∧ Pegs overrides Found free r := by
  simp only [settle, hwanted, on_bind, on_update] at hsettle
  have hsame : progress'.known.newest? m.fingerprint report.revisions =
      progress.known.newest? m.fingerprint report.revisions := by
    rw [hoffered]
    exact congrFun h.seen m.fingerprint
  cases hnewest : progress.known.newest? m.fingerprint report.revisions with
  | none =>
    simp only [hnewest, answerFor, on_pure, Prod.mk.injEq, Except.ok.injEq] at hsettle
    rw [← hsettle.1] at hr
    cases hr
  | some revision =>
    rw [hnewest] at hsettle
    have halong : Alongside Good offers
        { progress with known := progress.known.learn m.fingerprint report.revisions }
        { progress' with known := progress'.known.learn m.fingerprint report.revisions } :=
      ⟨h.good, h.good', by rw [hoffered, LatestKnown.seen_learn, LatestKnown.seen_learn, h.seen]⟩
    obtain ⟨changed, last', rfl, hanswer, hlast⟩ := answerFor_alongside hchanged halong hsettle revision
    obtain rfl : ⟨m, revision, changed⟩ = r := Option.some.inj hr
    have hfree : (settle collab none p ∅ m report).on progress' =
        (answerFor collab none p m (some revision)).on
          { progress' with known := progress'.known.learn m.fingerprint report.revisions } := by
      show (update m report.revisions >>= answerFor collab none p m).on progress' = _
      rw [on_bind, on_update, hsame, hnewest]
    refine ⟨⟨m, revision, changed⟩, last', hfree.trans hanswer, hlast, rfl, fun _ => rfl, fun wanted hasked => ?_⟩
    exact absurd hasked (Overrides.wanted?_eq_none_iff.mp hwanted wanted)

end

/-- Materials that all get a revision with overrides all get one without them. -/
theorem mapM_alongside (hsteady : collab.Steady snapshot offers Good) (hp : p ∈ snapshot.pipelines)
    {materials : List Material} (hmaterials : ∀ m ∈ materials, m ∈ p.materials)
    (h : Alongside Good offers progress progress') {answers : List (Material × Option MaterialRevision)}
    {last : Progress σ} {revisions : List MaterialRevision}
    (hmap : (materials.mapM (resolveMaterial collab limit snapshot p overrides)).on progress = (.ok answers, last))
    (hcomplete : answers.map Prod.snd = revisions.map some) :
    ∃ answers' free last',
      (materials.mapM (resolveMaterial collab none snapshot p ∅)).on progress' = (.ok answers', last') ∧
      answers'.map Prod.snd = free.map some ∧
      List.Forall₂ (Pegs overrides (Reported collab snapshot Good)) free revisions := by
  induction materials generalizing progress progress' answers revisions with
  | nil =>
    cases hmap
    obtain rfl : revisions = [] := by simpa using hcomplete.symm
    exact ⟨[], [], progress', rfl, rfl, .nil⟩
  | cons m rest ih =>
    obtain ⟨hm, hrest⟩ := List.forall_mem_cons.mp hmaterials
    obtain ⟨report, mid, first, next, others, hask, hsettle, hothersMap, rfl, -⟩ := mapM_cons_ok hmap
    obtain ⟨r, revisions, rfl, hfirst, hothers⟩ :
        ∃ r tail, revisions = r :: tail ∧ first.2 = some r ∧ others.map Prod.snd = tail.map some := by
      cases revisions with
      | nil => simp at hcomplete
      | cons r tail => exact ⟨r, tail, rfl, List.cons.inj hcomplete⟩
    have hanswered := (on_ask limit (collab.reportOn snapshot m) progress).2.2 report (by rw [hask])
    have hoffered := hsteady.offered p hp m hm progress.world report h.good hanswered
    obtain ⟨mid', hask', hmid, -⟩ := ask_alongside (hsteady.report p hp m hm) h hask
    obtain ⟨free, next', hsettle', hnext, hpegs⟩ : ∃ free next',
        (settle collab none p ∅ m report).on mid' = (.ok (m, some free), next') ∧ Alongside Good offers next next' ∧
        Pegs overrides (Reported collab snapshot Good) free r := by
      cases hwanted : overrides.wanted? m with
      | some wanted =>
        exact settle_alongside_asked (hsteady.changed p hp m hm) hoffered hmid hsettle hfirst hwanted
          fun revision hnamed => ⟨progress.world, report, h.good, hanswered, hnamed⟩
      | none => exact settle_alongside_unasked (hsteady.changed p hp m hm) hoffered hmid hsettle hfirst hwanted
    obtain ⟨answers', frees, last', hmap', hfrees, hall⟩ := ih hrest hnext hothersMap hothers
    refine ⟨(m, some free) :: answers', free :: frees, last', ?_, by simp [hfrees], .cons hpegs hall⟩
    simp [List.mapM_cons, resolveMaterial_eq, on_bind, on_map, hask', hsettle', hmap']

theorem gather_eq_complete {answers : List (Material × Option MaterialRevision)}
    {revisions : List MaterialRevision} (h : answers.map Prod.snd = revisions.map some) :
    gather answers = .complete revisions := by
  have hall : ∀ answer ∈ answers, ∃ r, answer.2 = some r := by
    intro answer hanswer
    have hmem := List.mem_map_of_mem (f := Prod.snd) hanswer
    rw [h, List.mem_map] at hmem
    obtain ⟨r, -, hr⟩ := hmem
    exact ⟨r, hr.symm⟩
  have hmissing : (answers.filterMap fun a => if a.2.isNone then some a.1.displayName else none) = [] := by
    rw [List.filterMap_eq_nil_iff]
    intro answer hanswer
    obtain ⟨r, hr⟩ := hall answer hanswer
    simp [hr]
  have hrevisions : answers.filterMap Prod.snd = revisions := by
    have hid : (answers.map Prod.snd).filterMap id = answers.filterMap Prod.snd := by rw [List.filterMap_map]; rfl
    rw [← hid, h]
    simp
  rw [gather, hmissing, hrevisions]

/-- A pipeline that is resolved with overrides is resolved without them. -/
theorem resolve_alongside (hsteady : collab.Steady snapshot offers Good) (hp : p ∈ snapshot.pipelines)
    (h : Alongside Good offers progress progress') {revisions : List MaterialRevision} {last : Progress σ}
    (hresolve : (resolve collab limit snapshot p overrides).on progress = (.ok (.complete revisions), last)) :
    ∃ free, ((resolve collab none snapshot p ∅).on progress').1 = .ok (.complete free) ∧
      List.Forall₂ (Pegs overrides (Reported collab snapshot Good)) free revisions := by
  obtain ⟨-, answers, hmap, hcomplete⟩ := answers_of_resolve hresolve
  obtain ⟨answers', free, last', hmap', hfree, hpegs⟩ := mapM_alongside hsteady hp (fun m hm => hm) h hmap hcomplete
  have hkeys : Overrides.unknownKey? ∅ p = none := rfl
  refine ⟨free, ?_, hpegs⟩
  rw [resolve_of_known hkeys, on_bind, hmap']
  exact congrArg Except.ok (gather_eq_complete hfree)

/-- An attempt that gets past the lock has only asked whether its pipeline is held back. -/
theorem isHeld_alongside (hsteady : collab.Steady snapshot offers Good) (hp : p ∈ snapshot.pipelines)
    (hgood : Good progress.world) {held : Bool} {mid : Progress σ}
    (hheld : (isHeld collab limit p).on progress = (.ok held, mid)) : Alongside Good offers mid progress := by
  unfold isHeld at hheld
  split at hheld
  · have hself : Alongside Good offers progress progress := ⟨hgood, hgood, rfl⟩
    obtain ⟨_, -, hmid, hknown, -⟩ := ask_alongside (hsteady.unfinished p hp) hself hheld
    exact ⟨hmid.good, hgood, by rw [hknown]⟩
  · cases hheld
    exact ⟨hgood, hgood, rfl⟩

end Attempt

namespace InMemory

/-- The history of a material has a revision that goes by a text: a check-in with this identifier, or a passed run
with this identifier or label. -/
def Lists (w : InMemory) (m : Material) (wanted : String) (revision : Revision) : Prop :=
  match m.dependency? with
  | some (pipeline, stage) =>
    ∃ run ∈ w.stageHistory pipeline stage, run.isPassed = true ∧ (run.identifier = wanted ∨ run.label = wanted) ∧
      revision = .ofRun run
  | none => revision ∈ w.history m.fingerprint ∧ revision.identifier = wanted

theorem lists_of_reported {w : InMemory} {s : Snapshot} {m : Material} {wanted : String} {revision : Revision}
    (h : Attempt.Reported collaborators s w.Still m wanted revision) : w.Lists m wanted revision := by
  obtain ⟨_, report, ⟨polls, rfl⟩, hanswer, hnamed⟩ := h
  rw [eq_reportOf_of_reportOn hanswer] at hnamed
  unfold reportOf at hnamed
  unfold Lists
  cases hdependency : m.dependency? with
  | none =>
    simp only [hdependency, Report.named?] at hnamed
    exact ⟨List.mem_of_find?_eq_some hnamed, by simpa using List.find?_some hnamed⟩
  | some named =>
    rw [hdependency] at hnamed
    obtain ⟨run, hmem, ⟨hpassed, hgoes⟩, hrevision⟩ := Report.goesBy_of_named? hnamed
    exact ⟨run, hmem, hpassed, hgoes, hrevision⟩

end InMemory

namespace Session

variable {σ : Type} {collab : Collaborators σ} {s : Session σ} {name : PipelineName} {event : TriggerEvent}

/-- Behind a cause there is a resolution without overrides that it is next to. -/
theorem pegs_of_schedule {offers : Fingerprint → List Revision} {Good : σ → Prop}
    (hsteady : collab.Steady s.engine.snapshot offers Good) (hgood : Good s.world) {cause : BuildCause}
    (h : (s.schedule collab name event).1 = .ok (.succeeded cause)) :
    ∃ p free, s.engine.snapshot.pipeline? name = some p ∧ (s.resolve collab name ∅).1 = .ok (.complete free) ∧
      cause.materialRevisions.map MaterialRevision.material = p.materials ∧
      List.Forall₂ (Attempt.Pegs event.overrides (Attempt.Reported collab s.engine.snapshot Good)) free
        cause.materialRevisions := by
  obtain ⟨p, hp, -, -, -, hdecision⟩ := schedule_ok_decided h (by simp)
  rcases Attempt.decide_ok hdecision with hcause | ⟨_, hcause⟩ | ⟨revisions, ⟨mid, last, hheld, hresolve⟩, hcause⟩
  · cases hcause
  · cases hcause
  have hmem := mem_of_pipeline? hp
  have halong := Attempt.isHeld_alongside hsteady hmem (show Good s.progress.world from hgood) hheld
  obtain ⟨free, hfree, hpegs⟩ := Attempt.resolve_alongside hsteady hmem halong hresolve
  rw [materialRevisions_of_decideRevisions hcause.symm]
  refine ⟨p, free, hp, ?_, Attempt.map_material_of_resolve hresolve, hpegs⟩
  simp only [resolve, hp, perform_eq, hfree]
  rfl

/-- What is known of a material changes only when the material is looked at without a wanted revision. -/
theorem exists_unasked_of_known_changed {material : Fingerprint}
    (h : (s.schedule collab name event).2.engine.known.get? material ≠ s.engine.known.get? material) :
    ∃ p, s.engine.snapshot.pipeline? name = some p ∧
      ∃ m ∈ p.materials, m.fingerprint = material ∧ ∀ wanted, ¬ event.overrides.AsksFor m wanted := by
  rw [get?_known_schedule, attemptReports] at h
  rcases s.deciding?_cases collab name event with ⟨p, hdeciding, hp, -⟩ | ⟨hnone, -⟩
  · rw [hdeciding] at h
    have hheard : heard event.overrides material
        (Attempt.reports collab (some (s.engine.settings.resolutionTimeout.toNat * 1000)) s.engine.snapshot p
          event.overrides s.progress) ≠ [] := by
      intro hempty
      rw [hempty] at h
      exact h rfl
    obtain ⟨m, report, hmem, hm, hunasked⟩ := exists_report_of_heard hheard
    exact ⟨p, hp, m, Attempt.mem_materials_of_mem_reports hmem, hm, Overrides.wanted?_eq_none_iff.mp hunasked⟩
  · rw [hnone] at h
    exact absurd rfl h

/-- An attempt with a key that names no material makes no report, and has no cause. -/
theorem unknown_key_fails {key : String} (hkey : key ∈ event.overrides.keys)
    (hunknown : ∀ p, s.engine.snapshot.pipeline? name = some p → ¬ p.HasMaterial key) :
    (∀ cause, (s.schedule collab name event).1 ≠ .ok (.succeeded cause)) ∧
      (s.schedule collab name event).2.engine.known = s.engine.known := by
  have hkeys : ∀ p, s.engine.snapshot.pipeline? name = some p → event.overrides.unknownKey? p ≠ none :=
    fun p hp hnone => hunknown p hp (Overrides.unknownKey?_eq_none_iff.mp hnone key hkey)
  constructor
  · intro cause hsucceeded
    obtain ⟨p, hp, -, -, -, hdecision⟩ := schedule_ok_decided hsucceeded (by simp)
    rcases Attempt.decide_ok hdecision with hcause | ⟨_, hcause⟩ | ⟨revisions, ⟨mid, last, -, hresolve⟩, -⟩
    · cases hcause
    · cases hcause
    · exact hkeys p hp (Attempt.answers_of_resolve hresolve).1
  · refine SortedMap.ext_get? fun material => ?_
    rw [get?_known_schedule, attemptReports]
    rcases s.deciding?_cases collab name event with ⟨p, hdeciding, hp, -⟩ | ⟨hnone, -⟩
    · obtain ⟨unknown, hunknown⟩ := Option.ne_none_iff_exists'.mp (hkeys p hp)
      rw [hdeciding]
      simp only [Attempt.reports, Attempt.resolveReports, hunknown]
      split <;> rfl
    · rw [hnone]
      rfl

/-- Overrides peg what they name, over collaborators in memory. Behind the cause of a manual attempt stands the
resolution without overrides in the same session, with a revision of each material too. A material that is named, by
its checkout fingerprint or else by its fingerprint, has a revision from its history as it is that goes by the wanted
text; any other material has the same revision as without overrides. The attempt changes what is known of a material
only if it looks at one with this fingerprint that is not named. And with a key that names no material it has no
cause, and changes nothing that is known. -/
theorem overrides_peg_what_they_name (s : Session InMemory) (name : PipelineName) (user : String)
    (overrides : Overrides) :
    let attempt := s.schedule InMemory.collaborators name (.manual user overrides)
    (s.engine.snapshot.Unshared → ∀ cause, attempt.1 = .ok (.succeeded cause) →
      ∃ p free, s.engine.snapshot.pipeline? name = some p ∧
        (s.resolve InMemory.collaborators name ∅).1 = .ok (.complete free) ∧
        cause.materialRevisions.map MaterialRevision.material = p.materials ∧
        List.Forall₂ (Attempt.Pegs overrides s.world.Lists) free cause.materialRevisions) ∧
    (∀ material, attempt.2.engine.known.get? material ≠ s.engine.known.get? material →
      ∃ p, s.engine.snapshot.pipeline? name = some p ∧
        ∃ m ∈ p.materials, m.fingerprint = material ∧ ∀ wanted, ¬ overrides.AsksFor m wanted) ∧
    ∀ key ∈ overrides.keys, (∀ p, s.engine.snapshot.pipeline? name = some p → ¬ p.HasMaterial key) →
      (∀ cause, attempt.1 ≠ .ok (.succeeded cause)) ∧ attempt.2.engine.known = s.engine.known := by
  refine ⟨fun hunshared cause hsucceeded => ?_, fun material => exists_unasked_of_known_changed,
    fun key hkey => unknown_key_fails hkey⟩
  obtain ⟨p, free, hp, hfree, hmaterials, hpegs⟩ :=
    pegs_of_schedule (InMemory.steady s.world hunshared) ⟨s.world.polls, rfl⟩ hsucceeded
  exact ⟨p, free, hp, hfree, hmaterials, hpegs.imp fun _ _ => .mono fun _ _ _ => InMemory.lists_of_reported⟩

/-! A pipeline that checks one repository out twice. -/

def oldCheckout : Material := (Samples.git "src").withDestination "old"

def newCheckout : Material := (Samples.git "src").withDestination "new"

def checkouts : List Pipeline := [Samples.withMaterials ⟨"app"⟩ [oldCheckout, newCheckout]]

def checkoutsConfiguration : Configuration := { pipelines := checkouts }

/-- There are two check-ins after the configuration was read. -/
def twoCheckIns : List Operation :=
  [.world (.checkIn (Samples.git "src") (Samples.checkIn "r1" 0)),
    .world (.checkIn (Samples.git "src") (Samples.checkIn "r2" 1))]

def checkoutsReady : Session InMemory := reading {} checkoutsConfiguration twoCheckIns

theorem checkoutsReady_eq : checkoutsReady = (published {} checkoutsConfiguration).run .inMemory twoCheckIns :=
  reading_eq (by decide +kernel) {} _

set_option maxRecDepth 100000 in
/-- The first checkout is pegged to the older check-in, and the second one gets the latest. -/
theorem old_checkout_pegged :
    let overrides : Overrides := .ofList [(oldCheckout.checkoutFingerprint.text, "r1")]
    let cause : BuildCause := .ofUser
      [⟨oldCheckout, Samples.checkIn "r1" 0, true⟩, ⟨newCheckout, Samples.checkIn "r2" 1, true⟩] "dev"
    checkoutsReady.engine.snapshot.Unshared ∧
    (checkoutsReady.schedule InMemory.collaborators ⟨"app"⟩ (.manual "dev" overrides)).1 = .ok (.succeeded cause) ∧
    ∃ free, (checkoutsReady.resolve InMemory.collaborators ⟨"app"⟩ ∅).1 = .ok (.complete free) ∧
      List.Forall₂ (Attempt.Pegs overrides checkoutsReady.world.Lists) free cause.materialRevisions := by
  intro overrides cause
  obtain ⟨hunshared, hsucceeded⟩ : checkoutsReady.engine.snapshot.Unshared ∧
      (checkoutsReady.schedule InMemory.collaborators ⟨"app"⟩ (.manual "dev" overrides)).1 = .ok (.succeeded cause) := by
    rw [checkoutsReady_eq]
    decide +kernel
  obtain ⟨_, free, -, hfree, -, hpegs⟩ :=
    (overrides_peg_what_they_name checkoutsReady ⟨"app"⟩ "dev" overrides).1 hunshared cause hsucceeded
  exact ⟨hunshared, hsucceeded, free, hfree, hpegs⟩

end Session

end BuildScheduling
