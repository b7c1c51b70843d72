import BuildScheduling.Proofs.Latest.Heard

/-!
# What backs the latest known revisions

Nothing is known that was not reported: each latest known revision is the newest of some report on a material
with its fingerprint (`LatestKnown.Backed`). What hears further reports keeps this, when they are added to those
that were made before (`Backed.of_recalled`); and each revision that an attempt comes up with without being asked for
it by name is the newest of one of these reports (`newest_reportsOn`).
-/

namespace BuildScheduling

/-- Some report on a material with a fingerprint has a revision as its newest. -/
def NewestIn (reports : List (Material × Report)) (material : Fingerprint) (r : Revision) : Prop :=
  ∃ m report, (m, report) ∈ reports ∧ m.fingerprint = material ∧ report.revisions.head? = some r

theorem NewestIn.mono {reports reports' : List (Material × Report)} (hsub : reports ⊆ reports')
    {material : Fingerprint} {r : Revision} (h : NewestIn reports material r) :
    NewestIn reports' material r := by
  obtain ⟨m, report, hmem, hm, hhead⟩ := h
  exact ⟨m, report, hsub hmem, hm, hhead⟩

namespace LatestKnown

/-- Every known revision is the newest of some report on its material. -/
def Backed (known : LatestKnown) (reports : List (Material × Report)) : Prop :=
  ∀ material r, known.get? material = some r → NewestIn reports material r

theorem Backed.mono {known : LatestKnown} {reports reports' : List (Material × Report)}
    (h : known.Backed reports) (hsub : reports ⊆ reports') : known.Backed reports' :=
  fun material r hr => (h material r hr).mono hsub

theorem backed_empty (reports : List (Material × Report)) : Backed ∅ reports := by
  intro material r hr
  cases hr

theorem remembered_cases (known : Option Revision) (head : Revision) (reported : List Revision) :
    remembered known head reported = head ∨ known = some (remembered known head reported) := by
  unfold remembered
  cases known with
  | none => exact Or.inl rfl
  | some known =>
    dsimp only
    split
    · exact Or.inr rfl
    · exact Or.inl rfl

/-- After reports, the latest known revision is the newest of one of them or was known before. -/
theorem recalled_cases {known : Option Revision} {reports : List (List Revision)} {r : Revision}
    (h : recalled known reports = some r) :
    known = some r ∨ ∃ revisions ∈ reports, revisions.head? = some r := by
  induction reports generalizing known with
  | nil => exact Or.inl h
  | cons report rest ih =>
    rcases ih h with hheard | ⟨revisions, hrevisions, hhead⟩
    · cases report with
      | nil => exact Or.inl hheard
      | cons head others =>
        rcases remembered_cases known head (head :: others) with hnew | hkept
        · exact Or.inr ⟨head :: others, List.mem_cons_self, hnew ▸ hheard⟩
        · exact Or.inl (hkept.trans hheard)
    · exact Or.inr ⟨revisions, List.mem_cons_of_mem _ hrevisions, hhead⟩

/-- After a report, the latest known revision is the newest of the report or was known before. -/
theorem newest?_cases {known : LatestKnown} {material : Fingerprint} {revisions : List Revision}
    {r : Revision} (h : known.newest? material revisions = some r) :
    revisions.head? = some r ∨ known.get? material = some r := by
  obtain ⟨head, hhead, rfl⟩ := Option.map_eq_some_iff.mp h
  rcases remembered_cases (known.get? material) head revisions with hnew | hkept
  · rw [hnew]
    exact Or.inl hhead
  · exact Or.inr hkept

theorem Backed.newest {known : LatestKnown} {reports : List (Material × Report)} (h : known.Backed reports)
    {m : Material} {report : Report} {r : Revision}
    (hr : known.newest? m.fingerprint report.revisions = some r) :
    NewestIn (reports ++ [(m, report)]) m.fingerprint r := by
  rcases newest?_cases hr with hhead | hknown
  · exact ⟨m, report, by simp, rfl, hhead⟩
  · exact (h _ r hknown).mono (List.subset_append_left _ _)

/-- What is heard is the list of a report with the fingerprint. -/
theorem newestIn_of_mem_heard {overrides : Overrides} {reports : List (Material × Report)}
    {material : Fingerprint} {revisions : List Revision} {r : Revision}
    (h : revisions ∈ heard overrides material reports) (hhead : revisions.head? = some r) :
    NewestIn reports material r := by
  obtain ⟨⟨m, report⟩, hmem, rfl⟩ := List.mem_map.mp (List.mem_filter.mp h).1
  obtain ⟨hmem, hpicked⟩ := List.mem_filter.mp hmem
  exact ⟨m, report, hmem, eq_of_beq (Bool.and_eq_true_iff.mp hpicked).1, hhead⟩

/-- Bringing what is known up to date with what is heard in some reports keeps it backed, by these reports as
well. -/
theorem Backed.of_recalled {known known' : LatestKnown} {past reports : List (Material × Report)}
    (h : known.Backed past) (overrides : Overrides) (hknown : ∀ material, known'.get? material =
      recalled (known.get? material) (heard overrides material reports)) :
    known'.Backed (past ++ reports) := by
  intro material r hr
  rw [hknown] at hr
  rcases recalled_cases hr with hkept | ⟨revisions, hrevisions, hhead⟩
  · exact (h material r hkept).mono (List.subset_append_left _ _)
  · exact (newestIn_of_mem_heard hrevisions hhead).mono (List.subset_append_right _ _)

end LatestKnown

namespace Attempt

variable {σ : Type} {collab : Collaborators σ} {limit : Option Nat} {snapshot : Snapshot}
  {p : Pipeline} {overrides : Overrides}

theorem backed_settle (collab : Collaborators σ) (limit : Option Nat) (p : Pipeline) (overrides : Overrides)
    {past : List (Material × Report)} {progress : Progress σ} (h : progress.known.Backed past) (m : Material)
    (report : Report) :
    ((settle collab limit p overrides m report).on progress).2.known.Backed (past ++ [(m, report)]) :=
  h.of_recalled overrides (get?_known_settle m report progress)

/-- A revision that was not asked for by name is the newest of a report that was made so far. -/
theorem newest_reportsOn {past : List (Material × Report)} {materials : List Material}
    {progress last : Progress σ} {answers : List (Material × Option MaterialRevision)}
    (h : progress.known.Backed past)
    (hmap : (materials.mapM (resolveMaterial collab limit snapshot p overrides)).on progress =
      (.ok answers, last)) {k : Nat} {answer : Material × Option MaterialRevision} {r : MaterialRevision}
    (hanswer : answers[k]? = some answer) (hr : answer.2 = some r)
    (hwanted : overrides.wanted? answer.1 = none) :
    NewestIn (past ++ (reportsOn collab limit snapshot p overrides materials progress).take (k + 1))
      answer.1.fingerprint r.revision := by
  induction materials generalizing past progress answers k with
  | nil =>
    cases hmap
    simp at hanswer
  | cons m rest ih =>
    obtain ⟨report, mid, first, next, others, hask, hsettle, hrest, rfl, hreports⟩ := mapM_cons_ok hmap
    have hmid := known_ask limit (collab.reportOn snapshot m) progress
    rw [hask] at hmid
    have hbacked : mid.known.Backed past := by rwa [show mid.known = progress.known from hmid]
    have hnext := backed_settle collab limit p overrides hbacked m report
    rw [hsettle] at hnext
    rw [hreports]
    cases k with
    | zero =>
      obtain rfl : first = answer := by simpa using hanswer
      rcases settle_cases hsettle with ⟨wanted, _, _, hpegged, -, rfl, -⟩ | ⟨-, -, rfl, -⟩ |
        ⟨revision, changed, -, hnewest, rfl, -⟩
      · simp [hpegged] at hwanted
      · cases hr
      · cases hr
        exact hbacked.newest hnewest
    | succ k => simpa using ih hnext hrest (by simpa using hanswer)

/-! ### Reports of a kind -/

theorem exists_runs_of_reportOn {m : Material} {world : σ} {report : Report}
    (h : (collab.reportOn snapshot m world).1.answer = .ok report) (hm : m.isDependency = true) :
    ∃ listed, report = .runs listed := by
  obtain ⟨named, hnamed⟩ := Option.isSome_iff_exists.mp hm
  simp only [Collaborators.reportOn, hnamed, Call.map, Reply.map] at h
  cases hanswer : (collab.stageRuns named.1 named.2 world).1.answer with
  | error failure =>
    rw [hanswer] at h
    cases h
  | ok runs =>
    rw [hanswer] at h
    cases h
    exact ⟨runs, rfl⟩

/-- The reports on dependencies are lists of runs. -/
def DependenciesAsRuns (reports : List (Material × Report)) : Prop :=
  ∀ m report, (m, report) ∈ reports → m.isDependency = true → ∃ listed, report = .runs listed

theorem dependenciesAsRuns_reportsOn (materials : List Material) (progress : Progress σ) :
    DependenciesAsRuns (reportsOn collab limit snapshot p overrides materials progress) := by
  induction materials generalizing progress with
  | nil => exact fun _ _ hmem => absurd hmem List.not_mem_nil
  | cons m rest ih =>
    rw [reportsOn]
    rcases hask : (ask limit (collab.reportOn snapshot m)).on progress with ⟨_ | report, mid⟩
    · exact fun _ _ hmem => absurd hmem List.not_mem_nil
    have hreport := (on_ask limit (collab.reportOn snapshot m) progress).2.2 report (by rw [hask])
    intro other listed hmem hother
    rcases List.mem_cons.mp hmem with heq | hmem
    · cases heq
      exact exists_runs_of_reportOn hreport hother
    · rcases hsettle : (settle collab limit p overrides m report).on mid with ⟨_ | _, next⟩
      · simp [hsettle] at hmem
      · rw [hsettle] at hmem
        exact ih next other listed hmem hother

end Attempt

end BuildScheduling
