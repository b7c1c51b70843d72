import BuildScheduling.Proofs.Decision.Order

/-!
# Built as it was read

A definition that was read from one of the pipeline's own materials is built only at the revision of this
material at which it was read, unless a user asks for the build. Three places of the decision have to agree on
that: the question whether the definition comes from a material of the pipeline, the comparison of all revisions
of this material, and the search for the one that is named in the answer. They agree because a resolution has a
revision of just the pipeline's materials (`decideRevisions_eq_mismatch_iff`).

So an attempt is rejected for a revision exactly when it gets as far as the comparison (`Session.Compares`) and
some revision is another one; the first of these is named (`rejected_for_first_other_revision`).
-/

namespace BuildScheduling

variable {σ : Type}

/-! ### The first other revision -/

/-- The first revision of a material in a list that is not the expected one. -/
def FirstOther (material : Fingerprint) (expected : String) (revisions : List MaterialRevision)
    (other : MaterialRevision) : Prop :=
  ∃ before after, revisions = before ++ other :: after ∧
    (∀ r ∈ before, r.material.fingerprint = material → r.id = expected) ∧
    other.material.fingerprint = material ∧ other.id ≠ expected

theorem find?_other_eq_some_iff {material : Fingerprint} {expected : String}
    {revisions : List MaterialRevision} {other : MaterialRevision} :
    revisions.find? (fun r => r.material.fingerprint == material && r.id != expected) = some other ↔
      FirstOther material expected revisions other := by
  rw [List.find?_eq_some_iff_append, FirstOther]
  constructor
  · rintro ⟨hother, before, after, hsplit, hbefore⟩
    refine ⟨before, after, hsplit, fun r hr hmaterial => ?_, by simpa using hother⟩
    simpa [hmaterial] using hbefore r hr
  · rintro ⟨before, after, hsplit, hbefore, hother⟩
    refine ⟨by simpa using hother, before, after, hsplit, fun r hr => ?_⟩
    simpa [or_iff_not_imp_left] using hbefore r hr

theorem FirstOther.mem {material : Fingerprint} {expected : String} {revisions : List MaterialRevision}
    {other : MaterialRevision} (h : FirstOther material expected revisions other) : other ∈ revisions := by
  obtain ⟨before, after, rfl, -⟩ := h
  simp

theorem FirstOther.material {material : Fingerprint} {expected : String} {revisions : List MaterialRevision}
    {other : MaterialRevision} (h : FirstOther material expected revisions other) :
    other.material.fingerprint = material := by
  obtain ⟨_, _, -, -, hmaterial, -⟩ := h
  exact hmaterial

/-- There is a first one as soon as there is one. -/
theorem exists_firstOther_iff {material : Fingerprint} {expected : String}
    {revisions : List MaterialRevision} :
    (∃ other, FirstOther material expected revisions other) ↔
      ∃ r ∈ revisions, r.material.fingerprint = material ∧ r.id ≠ expected := by
  simp only [← find?_other_eq_some_iff, ← Option.isSome_iff_exists, List.find?_isSome, Bool.and_eq_true,
    beq_iff_eq, bne_iff_ne]

theorem readAtOther_iff {p : Pipeline} {material : Fingerprint} {expected : String}
    {revisions : List MaterialRevision} {other : MaterialRevision} :
    p.ReadAtOther revisions material expected other ↔
      p.origin = .remote material expected ∧ FirstOther material expected revisions other := by
  rw [Pipeline.ReadAtOther, find?_other_eq_some_iff]

/-! ### Decisions -/

/-- A timer has fired with these revisions before. -/
def TimerDebounce.Repeats (debounce : TimerDebounce) (p : Pipeline) (event : TriggerEvent)
    (revisions : List MaterialRevision) : Prop :=
  event.kind = .timer ∧ p.timer.any Timer.onlyOnChanges = true ∧
    debounce.get? p.name = some (revisionSet revisions)

/-- Revisions of just the pipeline's materials are turned down for one of them exactly when they are compared
with what the definition was read at, and this is the first other one. -/
theorem decideRevisions_eq_mismatch_iff {debounce : TimerDebounce} {p : Pipeline} {event : TriggerEvent}
    {revisions : List MaterialRevision}
    (hmaterials : revisions.map MaterialRevision.material = p.materials) {material : Fingerprint}
    {expected actual : String} :
    decideRevisions debounce p event revisions =
        .rejected (.configMaterialMismatch material expected actual) ↔
      event.kind ≠ .manual ∧ ¬ debounce.Repeats p event revisions ∧ p.origin = .remote material expected ∧
        ∃ other, FirstOther material expected revisions other ∧ actual = other.id := by
  have hread : (∃ other, p.ReadAtOther revisions material expected other ∧ actual = other.id) ↔
      p.origin = .remote material expected ∧
        ∃ other, FirstOther material expected revisions other ∧ actual = other.id := by
    simp only [readAtOther_iff, and_assoc, exists_and_left]
  rw [← hread]
  rcases decideRevisions_in_order debounce p event hmaterials with
    ⟨hrepeats, hanswer⟩ | ⟨hnew, ⟨⟨hkind, -⟩, material', expected', other, hother, hanswer⟩ |
      ⟨hnone, ⟨-, hanswer⟩ | ⟨hfalse, -⟩⟩⟩
  · rw [hanswer]
    exact iff_of_false (by simp) fun h => h.2.1 hrepeats
  · rw [hanswer]
    constructor
    · intro h
      cases h
      exact ⟨hkind, hnew, other, hother, rfl⟩
    · rintro ⟨-, -, other', hother', rfl⟩
      -- the origin says which material and which revision, and the first other one is found once
      obtain ⟨horigin, hfind⟩ := hother
      obtain ⟨horigin', hfind'⟩ := hother'
      rw [horigin] at horigin'
      cases horigin'
      rw [hfind] at hfind'
      cases hfind'
      rfl
  · rw [hanswer]
    refine iff_of_false (by simp) ?_
    rintro ⟨hkind, -, other, hother, -⟩
    exact hnone ⟨hkind, material, expected, other, hother⟩
  · exact absurd trivial hfalse

/-- Revisions that become a cause without a user's request hold no other one. -/
theorem not_firstOther_of_succeeded {debounce : TimerDebounce} {p : Pipeline} {event : TriggerEvent}
    {revisions : List MaterialRevision} {cause : BuildCause}
    (hmaterials : revisions.map MaterialRevision.material = p.materials) (hkind : event.kind ≠ .manual)
    (h : decideRevisions debounce p event revisions = .succeeded cause) {material : Fingerprint}
    {expected : String} (horigin : p.origin = .remote material expected) (other : MaterialRevision) :
    ¬ FirstOther material expected revisions other := by
  intro hother
  rcases decideRevisions_in_order debounce p event hmaterials with
    ⟨-, hanswer⟩ | ⟨-, ⟨-, _, _, _, -, hanswer⟩ | ⟨hnone, -⟩⟩
  · rw [h] at hanswer
    cases hanswer
  · rw [h] at hanswer
    cases hanswer
  · exact hnone ⟨hkind, material, expected, other, readAtOther_iff.mpr ⟨horigin, hother⟩⟩

/-! ### Attempts -/

namespace Session

variable {collab : Collaborators σ}

/-- An attempt without a user's request gets as far as comparing its revisions with what the definition was
read at: nothing turns it down before, and it has a revision of every material. -/
structure Compares (collab : Collaborators σ) (s : Session σ) (name : PipelineName) (event : TriggerEvent)
    (p : Pipeline) (revisions : List MaterialRevision) : Prop where
  declared : s.engine.snapshot.pipeline? name = some p
  unasked : event.kind ≠ .manual
  timed : event.kind = .timer → p.timer ≠ none
  queue : collab.pendingOutage s.world = none
  free : ¬ s.ForcedPending name
  resolves : Attempt.Resolves collab (some (s.engine.settings.resolutionTimeout.toNat * 1000))
    s.engine.snapshot p event.overrides s.progress revisions
  new : ¬ s.engine.debounce.Repeats p event revisions

/-- The revisions stand in the order in which the pipeline declares its materials. -/
theorem Compares.map_material {s : Session σ} {name : PipelineName} {event : TriggerEvent} {p : Pipeline}
    {revisions : List MaterialRevision} (h : s.Compares collab name event p revisions) :
    revisions.map MaterialRevision.material = p.materials := by
  obtain ⟨mid, last, -, hresolve⟩ := h.resolves
  exact Attempt.map_material_of_resolve hresolve

/-- An attempt that compares its revisions is rejected for one of them exactly when it is the first other
one. -/
theorem Compares.mismatch_iff {s : Session σ} {name : PipelineName} {event : TriggerEvent} {p : Pipeline}
    {revisions : List MaterialRevision} (h : s.Compares collab name event p revisions)
    {material : Fingerprint} {expected actual : String} :
    (s.schedule collab name event).1 =
        .ok (.rejected (.configMaterialMismatch material expected actual)) ↔
      p.origin = .remote material expected ∧
        ∃ other, FirstOther material expected revisions other ∧ actual = other.id := by
  have hfree : ¬ s.ForcedPending p.name :=
    (forcedPending_congr s (same_of_pipeline? h.declared)).not.mpr h.free
  rw [schedule_rejected_iff h.declared h.timed h.queue hfree h.resolves,
    decideRevisions_eq_mismatch_iff h.map_material]
  simp only [ne_eq, h.unasked, not_false_eq_true, h.new, true_and]

/-- A rejection for a revision comes from an attempt that compares. -/
theorem compares_of_mismatch {s : Session σ} {name : PipelineName} {event : TriggerEvent}
    {material : Fingerprint} {expected actual : String}
    (h : (s.schedule collab name event).1 =
      .ok (.rejected (.configMaterialMismatch material expected actual))) :
    ∃ p revisions, s.Compares collab name event p revisions := by
  obtain ⟨p, hp, htimed, hqueue, hfree, hdecision⟩ := schedule_ok_decided h (by simp)
  rcases Attempt.decide_ok hdecision with hcause | ⟨_, hcause⟩ | ⟨revisions, hresolves, hcause⟩
  · cases hcause
  · cases hcause
  obtain ⟨mid, last, -, hresolve⟩ := id hresolves
  obtain ⟨hkind, hnew, -⟩ :=
    (decideRevisions_eq_mismatch_iff (Attempt.map_material_of_resolve hresolve)).mp hcause.symm
  rw [forcedPending_congr s (same_of_pipeline? hp)] at hfree
  exact ⟨p, revisions, hp, hkind, htimed, hqueue, hfree, hresolves, hnew⟩

/-- A cause that nobody asked for has no other revision of the material that the definition comes from. -/
theorem built_as_read_of_succeeded {s : Session σ} {name : PipelineName} {event : TriggerEvent}
    {cause : BuildCause} (hkind : event.kind ≠ .manual)
    (h : (s.schedule collab name event).1 = .ok (.succeeded cause)) :
    ∃ p, s.engine.snapshot.pipeline? name = some p ∧
      ∀ material expected, p.origin = .remote material expected →
        ∀ r ∈ cause.materialRevisions, r.material.fingerprint = material → r.id = expected := by
  obtain ⟨p, hp, -, -, -, hdecision⟩ := schedule_ok_decided h (by simp)
  refine ⟨p, hp, fun material expected horigin r hr hmaterial => ?_⟩
  rcases Attempt.decide_ok hdecision with hcause | ⟨_, hcause⟩ | ⟨revisions, ⟨_, _, -, hresolve⟩, hcause⟩
  · cases hcause
  · cases hcause
  rw [materialRevisions_of_decideRevisions hcause.symm] at hr
  by_contra hid
  obtain ⟨other, hother⟩ := exists_firstOther_iff.mpr ⟨r, hr, hmaterial, hid⟩
  exact not_firstOther_of_succeeded (Attempt.map_material_of_resolve hresolve) hkind hcause.symm horigin
    other hother

/-- Without a user's request, a pipeline is built only at the revision of its material at which its definition
was read. An attempt that compares is rejected exactly when some revision of this material is another one, and
the answer has the revision that was expected and the first other one. No other attempt is rejected for that:
not one that a user asked for, and not one on a pipeline whose definition comes from none of its materials. -/
theorem rejected_for_first_other_revision (collab : Collaborators σ) (s : Session σ) (name : PipelineName)
    (event : TriggerEvent) :
    let after := s.schedule collab name event
    (event.kind ≠ .manual → ∀ cause, after.1 = .ok (.succeeded cause) →
      after.2.engine.queue.pending name = some cause ∧
      ∃ p, s.engine.snapshot.pipeline? name = some p ∧
        ∀ material expected, p.origin = .remote material expected →
          ∀ r ∈ cause.materialRevisions, r.material.fingerprint = material → r.id = expected) ∧
    (∀ p revisions, s.Compares collab name event p revisions →
      revisions.map MaterialRevision.material = p.materials ∧
      (∀ material expected actual,
        after.1 = .ok (.rejected (.configMaterialMismatch material expected actual)) ↔
          p.origin = .remote material expected ∧
            ∃ other, FirstOther material expected revisions other ∧ actual = other.id) ∧
      ((∃ material expected actual,
        after.1 = .ok (.rejected (.configMaterialMismatch material expected actual))) ↔
          ∃ material expected, p.origin = .remote material expected ∧
            ∃ r ∈ revisions, r.material.fingerprint = material ∧ r.id ≠ expected)) ∧
    ∀ material expected actual,
      after.1 = .ok (.rejected (.configMaterialMismatch material expected actual)) →
        event.kind ≠ .manual ∧
        ∃ p revisions, s.Compares collab name event p revisions ∧ p.origin = .remote material expected ∧
          ∃ m ∈ p.materials, m.fingerprint = material := by
  intro after
  refine ⟨fun hkind cause hcause => ⟨?_, built_as_read_of_succeeded hkind hcause⟩,
    fun p revisions hcompares => ⟨hcompares.map_material, fun material expected actual => ?_, ?_⟩,
    fun material expected actual hanswer => ?_⟩
  · obtain ⟨p, hp, -, hqueued⟩ := queued_of_succeeded hcause
    exact hqueued.pending_of_same (same_of_pipeline? hp)
  · exact hcompares.mismatch_iff
  · constructor
    · rintro ⟨material, expected, actual, hanswer⟩
      obtain ⟨horigin, other, hother, -⟩ := hcompares.mismatch_iff.mp hanswer
      exact ⟨material, expected, horigin, exists_firstOther_iff.mp ⟨other, hother⟩⟩
    · rintro ⟨material, expected, horigin, hdiffers⟩
      obtain ⟨other, hother⟩ := exists_firstOther_iff.mpr hdiffers
      exact ⟨material, expected, other.id, hcompares.mismatch_iff.mpr ⟨horigin, other, hother, rfl⟩⟩
  · obtain ⟨p, revisions, hcompares⟩ := compares_of_mismatch hanswer
    obtain ⟨horigin, other, hother, -⟩ := hcompares.mismatch_iff.mp hanswer
    refine ⟨hcompares.unasked, p, revisions, hcompares, horigin, other.material, ?_, hother.material⟩
    rw [← hcompares.map_material]
    exact List.mem_map_of_mem hother.mem

/-- The definition of `app` was read from its repository at a revision. -/
def readConfiguration (revision : String) : Configuration :=
  { pipelines := [Samples.fromConfigRepo ⟨"app"⟩ (Samples.git "app") revision] }

def lastCheckIn : List Operation := [.world (.checkIn (Samples.git "app") (Samples.checkIn "r2" 0))]

/-- The last check-in in the repository is `r2`. -/
def readAt (revision : String) : Session InMemory := reading {} (readConfiguration revision) lastCheckIn

theorem readAt_eq {revision : String} (h : revision ∈ ["r1", "r2"]) :
    readAt revision = (published {} (readConfiguration revision)).run .inMemory lastCheckIn := by
  have horderly : ∀ revision ∈ ["r1", "r2"], (readConfiguration revision).Orderly := by decide +kernel
  exact reading_eq (horderly revision h) {} _

def lastRevisions : List MaterialRevision := [⟨Samples.git "app", Samples.checkIn "r2" 0, true⟩]

set_option maxRecDepth 100000 in
/-- A change of `app` is rejected while its definition is the one of an earlier check-in, and built once the
definition was read again. -/
theorem app_rejected_until_read_again :
    (((readAt "r1").schedule InMemory.collaborators ⟨"app"⟩ .auto).1 =
        .ok (.rejected (.configMaterialMismatch (Samples.git "app").fingerprint "r1" "r2")) ∧
      ∃ p revisions, (readAt "r1").Compares InMemory.collaborators ⟨"app"⟩ .auto p revisions ∧
        p.origin = .remote (Samples.git "app").fingerprint "r1" ∧
        revisions.map MaterialRevision.material = p.materials ∧
        ∃ other, FirstOther (Samples.git "app").fingerprint "r1" revisions other ∧ other.id = "r2") ∧
    ((readAt "r2").schedule InMemory.collaborators ⟨"app"⟩ .auto).1 =
      .ok (.succeeded (.ofChanges lastRevisions)) ∧
    ((readAt "r2").schedule InMemory.collaborators ⟨"app"⟩ .auto).2.engine.queue.pending ⟨"app"⟩ =
      some (.ofChanges lastRevisions) ∧
    ∀ r ∈ lastRevisions, r.id = "r2" := by
  have hrejected : ((readAt "r1").schedule InMemory.collaborators ⟨"app"⟩ .auto).1 =
      .ok (.rejected (.configMaterialMismatch (Samples.git "app").fingerprint "r1" "r2")) := by
    rw [readAt_eq (by simp)]
    decide +kernel
  have hbuilt : ((readAt "r2").schedule InMemory.collaborators ⟨"app"⟩ .auto).1 =
      .ok (.succeeded (.ofChanges lastRevisions)) := by
    rw [readAt_eq (by simp)]
    decide +kernel
  obtain ⟨-, hcompared, hcompares⟩ :=
    rejected_for_first_other_revision InMemory.collaborators (readAt "r1") ⟨"app"⟩ .auto
  obtain ⟨-, p, revisions, hp, -, -⟩ := hcompares _ _ _ hrejected
  obtain ⟨hmaterials, hmismatch, -⟩ := hcompared p revisions hp
  obtain ⟨horigin, other, hother, hid⟩ := (hmismatch _ _ _).mp hrejected
  obtain ⟨hpending, q, hq, hread⟩ :=
    (rejected_for_first_other_revision InMemory.collaborators (readAt "r2") ⟨"app"⟩ .auto).1 (by decide) _ hbuilt
  rw [readAt_eq (by simp)] at hq
  obtain rfl := List.mem_singleton.mp (mem_of_pipeline? hq)
  refine ⟨⟨hrejected, p, revisions, hp, horigin, hmaterials, other, hother, hid.symm⟩, hbuilt, hpending,
    fun r hr => hread _ _ rfl r hr ?_⟩
  rw [List.mem_singleton.mp hr]

end Session

end BuildScheduling
