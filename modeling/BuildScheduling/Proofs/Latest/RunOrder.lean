import BuildScheduling.Proofs.Latest.Identifier
import BuildScheduling.Resolution

/-!
# The order of the runs of a stage

Runs are ordered by pipeline counter and then stage counter. Among the runs of one stage an identifier
tells the counters (`counters_eq_of_identifier_eq`). This is why `remembered` never steps back: the head of
the report comes after every run of the report, and if the latest known run is among them, under its
identifier, then after that one too.
-/

namespace BuildScheduling

/-! ### Counters -/

namespace StageRun

/-- The first run is not the later one. -/
def NotAfter (a b : StageRun) : Prop :=
  a.counter < b.counter ∨ a.counter = b.counter ∧ a.stageCounter ≤ b.stageCounter

theorem NotAfter.refl (a : StageRun) : a.NotAfter a := Or.inr ⟨rfl, UInt32.le_refl _⟩

theorem NotAfter.trans {a b c : StageRun} (h : a.NotAfter b) (h' : b.NotAfter c) : a.NotAfter c := by
  simp only [NotAfter, UInt64.lt_iff_toNat_lt, UInt32.le_iff_toNat_le, ← UInt64.toNat_inj] at *
  omega

theorem not_newerThan_iff {a b : StageRun} : a.newerThan b = false ↔ a.NotAfter b := by
  simp only [newerThan, NotAfter, Bool.or_eq_false_iff, Bool.and_eq_false_imp, decide_eq_false_iff_not,
    beq_iff_eq, UInt64.lt_iff_toNat_lt, UInt32.lt_iff_toNat_lt, UInt32.le_iff_toNat_le, ← UInt64.toNat_inj]
  omega

theorem NotAfter.total (a b : StageRun) : a.NotAfter b ∨ b.NotAfter a := by
  simp only [NotAfter, UInt64.lt_iff_toNat_lt, UInt32.le_iff_toNat_le, ← UInt64.toNat_inj]
  omega

theorem NotAfter.counters_eq {a b : StageRun} (h : a.NotAfter b) (h' : b.NotAfter a) :
    a.counter = b.counter ∧ a.stageCounter = b.stageCounter := by
  simp only [NotAfter, UInt64.lt_iff_toNat_lt, UInt32.le_iff_toNat_le, ← UInt64.toNat_inj, ← UInt32.toNat_inj] at *
  omega

theorem not_newerThan_trans (a b c : StageRun) (h : (!b.newerThan a) = true) (h' : (!c.newerThan b) = true) :
    (!c.newerThan a) = true := by
  simp only [Bool.not_eq_true', not_newerThan_iff] at *
  exact h'.trans h

theorem not_newerThan_total (a b : StageRun) : (!b.newerThan a || !a.newerThan b) = true := by
  simp only [Bool.or_eq_true, Bool.not_eq_true', not_newerThan_iff]
  exact NotAfter.total b a

theorem pairwise_newestFirst (runs : List StageRun) : (newestFirst runs).Pairwise fun a b => b.NotAfter a := by
  have hsorted : (newestFirst runs).Pairwise fun a b => (!b.newerThan a) = true :=
    List.pairwise_mergeSort not_newerThan_trans not_newerThan_total runs
  simpa only [Bool.not_eq_true', not_newerThan_iff] using hsorted

/-- Sorting puts a run in front of the runs behind it, unless their counters are higher. -/
theorem newestFirst_cons (run : StageRun) (runs : List StageRun) :
    ∃ before after, newestFirst (run :: runs) = before ++ run :: after ∧ newestFirst runs = before ++ after ∧
      ∀ other ∈ before, ¬ other.NotAfter run := by
  obtain ⟨before, after, hcons, hrest, hbefore⟩ :=
    List.mergeSort_cons not_newerThan_trans not_newerThan_total run runs
  refine ⟨before, after, hcons, hrest, fun other hother hnot => ?_⟩
  simpa [not_newerThan_iff.mpr hnot] using hbefore other hother

theorem notAfter_head_newestFirst {runs rest : List StageRun} {head run : StageRun}
    (h : newestFirst runs = head :: rest) (hrun : run ∈ runs) : run.NotAfter head := by
  have hsorted := pairwise_newestFirst runs
  have hmem : run ∈ newestFirst runs := List.mem_mergeSort.mpr hrun
  rw [h] at hsorted hmem
  rcases List.mem_cons.mp hmem with rfl | hrest
  · exact NotAfter.refl run
  · exact (List.pairwise_cons.mp hsorted).1 run hrest

end StageRun

/-! ### Revisions -/

namespace Revision

/-- A run of the stage that a dependency material waits for. -/
def RunOf (m : Material) (r : Revision) : Prop :=
  ∃ run, r = .ofRun run ∧ ∃ pipeline stage, m.source = .dependency pipeline stage ∧
    run.pipeline.same pipeline = true ∧ run.stage.same stage = true

/-- Two runs, the second no older than the first in its counters. -/
def NotNewer (a b : Revision) : Prop :=
  ∃ run run', a.details = .dependency run ∧ b.details = .dependency run' ∧ run.NotAfter run'

theorem NotNewer.trans {a b c : Revision} (h : a.NotNewer b) (h' : b.NotNewer c) : a.NotNewer c := by
  obtain ⟨x, y, hx, hy, hxy⟩ := h
  obtain ⟨y', z, hy', hz, hyz⟩ := h'
  rw [hy] at hy'
  cases hy'
  exact ⟨x, z, hx, hz, hxy.trans hyz⟩

theorem RunOf.notNewer_self {m : Material} {r : Revision} (h : r.RunOf m) : r.NotNewer r := by
  obtain ⟨run, rfl, -⟩ := h
  exact ⟨run, run, rfl, rfl, StageRun.NotAfter.refl run⟩

theorem RunOf.notNewer_of_identifier_eq {m : Material} {a b : Revision} (ha : a.RunOf m) (hb : b.RunOf m)
    (h : a.identifier = b.identifier) : a.NotNewer b := by
  obtain ⟨x, rfl, p, s, hsource, hp, hs⟩ := ha
  obtain ⟨y, rfl, p', s', hsource', hp', hs'⟩ := hb
  rw [hsource] at hsource'
  cases hsource'
  rw [Name.same_comm] at hp' hs'
  obtain ⟨hcounter, hstage⟩ := StageRun.counters_eq_of_identifier_eq (Name.same_trans hp hp')
    (Name.same_trans hs hs') h
  exact ⟨x, y, rfl, rfl, Or.inr ⟨hcounter, by rw [hstage]; exact UInt32.le_refl _⟩⟩

theorem RunOf.notNewer_of_not_newerThan {m : Material} {a b : Revision} (ha : a.RunOf m) (hb : b.RunOf m)
    (h : a.newerThan b = false) : a.NotNewer b := by
  obtain ⟨x, rfl, -⟩ := ha
  obtain ⟨y, rfl, -⟩ := hb
  exact ⟨x, y, rfl, rfl, StageRun.not_newerThan_iff.mp h⟩

end Revision

/-- After a report of runs of the stage, its newest first, what is remembered is a run of the stage and no
older than what was known. -/
theorem remembered_not_older {m : Material} {known : Option Revision} {head : Revision}
    {reported : List Revision} (hknown : ∀ r, known = some r → r.RunOf m)
    (hreported : ∀ r ∈ reported, r.RunOf m) (hhead : head ∈ reported)
    (hnewest : ∀ r ∈ reported, r.NotNewer head) :
    (remembered known head reported).RunOf m ∧
      ∀ r, known = some r → r.NotNewer (remembered known head reported) := by
  cases known with
  | none => exact ⟨hreported head hhead, by simp⟩
  | some r =>
    have hr := hknown r rfl
    simp only [remembered, Option.some.injEq, forall_eq']
    split
    · exact ⟨hr, hr.notNewer_self⟩
    · next hkeep =>
      refine ⟨hreported head hhead, ?_⟩
      rw [Bool.and_eq_true, not_and, Bool.not_eq_true, Bool.not_eq_true'] at hkeep
      cases hany : reported.any fun r' => r'.identifier == r.identifier with
      | false => exact hr.notNewer_of_not_newerThan (hreported head hhead) (hkeep hany)
      | true =>
        obtain ⟨r', hr', hidentifier⟩ := List.any_eq_true.mp hany
        exact (hr.notNewer_of_identifier_eq (hreported r' hr') (beq_iff_eq.mp hidentifier).symm).trans
          (hnewest r' hr')

end BuildScheduling
