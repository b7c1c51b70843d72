import BuildScheduling.Collaborators.InMemory
import BuildScheduling.Proofs.Latest.Climbing
import BuildScheduling.Proofs.Steady.Attempt

/-!
# Collaborators in memory hold still

While nothing is done to them, collaborators in memory answer every question the same, and only polls are
counted (`InMemory.steady`). What they report of a material goes by its fingerprint, for the materials of a
snapshot in which only materials that point at the same thing share one.
-/

namespace BuildScheduling

/-- Materials of the snapshot with one fingerprint point at the same thing. -/
def Snapshot.Unshared (s : Snapshot) : Prop :=
  ∀ p ∈ s.pipelines, ∀ q ∈ s.pipelines, ∀ m ∈ p.materials, ∀ m' ∈ q.materials, m.Unshared m'

instance (s : Snapshot) : Decidable s.Unshared := inferInstanceAs (Decidable (∀ p ∈ s.pipelines, _))

namespace InMemory

/-- The same contents; polls on demand may have been counted. -/
def Still (w w' : InMemory) : Prop := ∃ polls, w' = { w with polls := polls }

/-- What is there to build from of a material, newest first. -/
def revisionsOf (w : InMemory) (m : Material) : List Revision :=
  match m.dependency? with
  | some (pipeline, stage) =>
    (newestFirst ((w.stageHistory pipeline stage).filter StageRun.isPassed)).map Revision.ofRun
  | none => w.history m.fingerprint

/-- The same by fingerprint, for the materials of a snapshot. -/
def offers (w : InMemory) (s : Snapshot) (material : Fingerprint) : List Revision :=
  match (s.pipelines.flatMap Pipeline.materials).find? fun m => m.fingerprint == material with
  | some m => w.revisionsOf m
  | none => []

theorem stageHistory_congr (w : InMemory) {p p' : PipelineName} {s s' : StageName}
    (hp : p.same p' = true) (hs : s.same s' = true) : w.stageHistory p s = w.stageHistory p' s' := by
  rw [stageHistory, stageHistory, Name.get?_of_same w.runs hp, Name.get?_of_same _ hs]

theorem revisionsOf_congr (w : InMemory) {m m' : Material}
    (h : m.source.sameIdentity m'.source = true) : w.revisionsOf m = w.revisionsOf m' := by
  have hfingerprint := Material.fingerprint_eq_of_sameIdentity h
  unfold revisionsOf Material.dependency?
  cases hm : m.source with
  | scm type url branch =>
    cases hm' : m'.source with
    | scm type' url' branch' => rw [hfingerprint]
    | dependency p' s' => simp [MaterialSource.sameIdentity, hm, hm'] at h
  | dependency p s =>
    cases hm' : m'.source with
    | scm type' url' branch' => simp [MaterialSource.sameIdentity, hm, hm'] at h
    | dependency p' s' =>
      rw [hm, hm', MaterialSource.sameIdentity, Bool.and_eq_true] at h
      dsimp only
      rw [stageHistory_congr w h.1 h.2]

theorem offers_eq (w : InMemory) {s : Snapshot} (hunshared : s.Unshared) {p : Pipeline}
    (hp : p ∈ s.pipelines) {m : Material} (hm : m ∈ p.materials) :
    w.offers s m.fingerprint = w.revisionsOf m := by
  unfold offers
  cases hfind : (s.pipelines.flatMap Pipeline.materials).find? fun m' => m'.fingerprint == m.fingerprint with
  | none =>
    have hnone := List.find?_eq_none.mp hfind m (List.mem_flatMap.mpr ⟨p, hp, hm⟩)
    simp at hnone
  | some m' =>
    obtain ⟨q, hq, hm'⟩ := List.mem_flatMap.mp (List.mem_of_find?_eq_some hfind)
    have hsame : m'.fingerprint = m.fingerprint := by
      simpa using List.find?_some (p := fun m' : Material => m'.fingerprint == m.fingerprint) hfind
    exact w.revisionsOf_congr (hunshared p hp q hq m hm m' hm' hsame)

/-- The report on a material, when there is one. -/
def reportOf (w : InMemory) (m : Material) : Report :=
  match m.dependency? with
  | some (pipeline, stage) => .runs (w.stageHistory pipeline stage)
  | none => .checkIns (w.history m.fingerprint)

theorem eq_reportOf_of_reportOn {w : InMemory} {s : Snapshot} {m : Material} {report : Report}
    (h : (collaborators.reportOn s m w).1.answer = .ok report) : report = w.reportOf m := by
  have hmap : ∀ {α : Type} {f : α → Report} {call : Call InMemory α},
      (call.map f w).1.answer = .ok report → ∃ a, (call w).1.answer = .ok a ∧ f a = report := by
    intro α f call h
    change (call w).1.answer.map f = .ok report at h
    cases hanswer : (call w).1.answer with
    | error failure =>
      rw [hanswer] at h
      cases h
    | ok a =>
      rw [hanswer] at h
      cases h
      exact ⟨a, rfl, rfl⟩
  have hpolled : ∀ {revisions : List Revision},
      (w.polled (w.history m.fingerprint)).answer = .ok revisions → revisions = w.history m.fingerprint := by
    intro revisions h
    unfold polled at h
    split at h
    · cases h
    · cases h
      rfl
  unfold reportOf
  cases hnamed : m.dependency? with
  | some named =>
    rw [Collaborators.reportOn, hnamed] at h
    obtain ⟨runs, hruns, rfl⟩ := hmap h
    change (w.served .history .resolution (w.stageHistory named.1 named.2)).answer = .ok runs at hruns
    unfold served at hruns
    split at hruns
    · cases hruns
    · cases hruns
      rfl
  | none =>
    rw [Collaborators.reportOn, hnamed] at h
    obtain ⟨revisions, hrevisions, rfl⟩ := hmap h
    split at hrevisions
    · rw [hpolled hrevisions]
    · rw [hpolled hrevisions]

theorem revisions_reportOf (w : InMemory) (m : Material) : (w.reportOf m).revisions = w.revisionsOf m := by
  unfold reportOf revisionsOf
  split <;> rfl

theorem steady_map {α β : Type} {Good : InMemory → Prop} (f : α → β) {call : Call InMemory α}
    (h : call.Steady Good) : (call.map f).Steady Good := by
  obtain ⟨reply, hreply⟩ := h
  exact ⟨reply.map f, fun w hw => ⟨by rw [Call.map, (hreply w hw).1], (hreply w hw).2⟩⟩

/-- While nothing is done to them, collaborators in memory are steady. -/
theorem steady (w : InMemory) {s : Snapshot} (hunshared : s.Unshared) :
    collaborators.Steady s (w.offers s) w.Still where
  unfinished p _ := ⟨w.served .instances .internal (w.running.contains p.name),
    fun _ ⟨polls, h⟩ => h ▸ ⟨rfl, polls, rfl⟩⟩
  changed p _ m _ := ⟨w.polled (w.isChanged p.name m.fingerprint), fun _ ⟨polls, h⟩ => h ▸ ⟨rfl, polls, rfl⟩⟩
  report p _ m _ := by
    unfold Collaborators.reportOn
    split
    · next pipeline stage _ =>
      exact steady_map _ ⟨w.served .history .resolution (w.stageHistory pipeline stage),
        fun _ ⟨polls, h⟩ => h ▸ ⟨rfl, polls, rfl⟩⟩
    · refine steady_map _ ⟨w.polled (w.history m.fingerprint), fun _ ⟨polls, h⟩ => ?_⟩
      subst h
      split
      · exact ⟨rfl, polls, rfl⟩
      · refine ⟨rfl, ?_⟩
        simp only [collaborators]
        split
        · exact ⟨polls, rfl⟩
        · exact ⟨polls + 1, rfl⟩
  offered p hp m hm _ report := by
    rintro ⟨polls, rfl⟩ hanswer
    rw [w.offers_eq hunshared hp hm, eq_reportOf_of_reportOn hanswer]
    exact revisions_reportOf w m
  pendingOutage _ _ := fun ⟨_, h⟩ ⟨_, h'⟩ => by rw [h, h']; rfl
  enqueueOutage _ _ := fun ⟨_, h⟩ ⟨_, h'⟩ => by rw [h, h']; rfl
  reportOutage _ _ := fun ⟨_, h⟩ ⟨_, h'⟩ => by rw [h, h']; rfl
  clearOutage _ _ := fun ⟨_, h⟩ ⟨_, h'⟩ => by rw [h, h']; rfl

end InMemory

end BuildScheduling
