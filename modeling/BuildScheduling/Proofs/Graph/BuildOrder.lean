import Mathlib.Data.Finset.Card
import BuildScheduling.Proofs.Graph.Declared

/-!
# Build orders

Pipelines whose dependencies are all declared can be put into an order in which every dependency material
names an earlier pipeline exactly when none of them waits for itself (`closed_and_acyclic_iff`). One
direction sorts the pipelines by the number of pipelines that they wait for over any number of dependencies
(`reach`); in the other, a chain of waiting pipelines only goes down in the order. The same number shows that
no chain of waiting pipelines goes on for ever.
-/

namespace BuildScheduling

open Relation (TransGen)

/-- Every dependency material names one of the pipelines, and a stage that it has. -/
def Closed (pipelines : List Pipeline) : Prop :=
  ∀ p ∈ pipelines, ∀ m ∈ p.materials, ∀ named stage, m.source = .dependency named stage →
    ∃ q ∈ pipelines, q.name.same named = true ∧ ∃ s ∈ q.stages, s.name.same stage = true

/-- No pipeline waits for itself, over one dependency or more. -/
def Acyclic (pipelines : List Pipeline) : Prop :=
  ∀ p, ¬ TransGen (WaitsFor pipelines) p p

/-- Every dependency material names an earlier pipeline, and a stage that it has. -/
def InBuildOrder (order : List Pipeline) : Prop :=
  ∀ (i : Nat) (hi : i < order.length), ∀ m ∈ order[i].materials, ∀ named stage,
    m.source = .dependency named stage →
      ∃ (j : Nat) (hj : j < i), order[j].name.same named = true ∧
        ∃ s ∈ order[j].stages, s.name.same stage = true

theorem inBuildOrder_iff {order : List Pipeline} :
    InBuildOrder order ↔ ∀ i : Fin order.length, ∀ m ∈ (order.get i).materials, ∀ d ∈ m.dependency?,
      ∃ q ∈ order.take i, q.name.same d.1 = true ∧ ∃ s ∈ q.stages, s.name.same d.2 = true := by
  constructor
  · rintro h i m hm ⟨named, stage⟩ hd
    obtain ⟨j, hj, hnamed, hstage⟩ := h i i.isLt m hm named stage (Material.dependency?_eq_some_iff.mp hd)
    exact ⟨_, List.mem_take_iff_getElem.mpr ⟨j, by omega, rfl⟩, hnamed, hstage⟩
  · intro h i hi m hm named stage hsource
    obtain ⟨q, hq, hnamed, hstage⟩ := h ⟨i, hi⟩ m hm (named, stage) (Material.dependency?_eq_some_iff.mpr hsource)
    obtain ⟨j, hj, rfl⟩ := List.mem_take_iff_getElem.mp hq
    exact ⟨j, (Nat.lt_min.mp hj).1, hnamed, hstage⟩

instance (order : List Pipeline) : Decidable (InBuildOrder order) := decidable_of_iff _ inBuildOrder_iff.symm

variable {pipelines : List Pipeline}

/-! ### How much a pipeline waits for -/

open Classical in
/-- The number of pipelines that a pipeline waits for, over one dependency or more. -/
noncomputable def reach (pipelines : List Pipeline) (p : Pipeline) : Nat :=
  (pipelines.toFinset.filter fun q => TransGen (WaitsFor pipelines) p q).card

theorem reach_lt (h : Acyclic pipelines) {p q : Pipeline} (hwaits : WaitsFor pipelines p q) :
    reach pipelines q < reach pipelines p := by
  classical
  unfold reach
  apply Finset.card_lt_card
  rw [Finset.ssubset_iff_of_subset]
  · refine ⟨q, ?_, ?_⟩
    · simp only [Finset.mem_filter, List.mem_toFinset]
      exact ⟨hwaits.2.1, .single hwaits⟩
    · simp only [Finset.mem_filter, not_and]
      exact fun _ => h q
  · intro r hr
    simp only [Finset.mem_filter] at hr ⊢
    exact ⟨hr.1, .head hwaits hr.2⟩

theorem Acyclic.no_infinite_chain (h : Acyclic pipelines) :
    ¬ ∃ chain : Nat → Pipeline, ∀ n, WaitsFor pipelines (chain n) (chain (n + 1)) := by
  rintro ⟨chain, hchain⟩
  have hdown : ∀ n, reach pipelines (chain n) + n ≤ reach pipelines (chain 0) := by
    intro n
    induction n with
    | zero => exact Nat.le_refl _
    | succ n ih =>
      have := reach_lt h (hchain n)
      omega
  have := hdown (reach pipelines (chain 0) + 1)
  omega

/-! ### Sorting -/

/-- The pipelines by how much they wait for. -/
noncomputable def byReach (pipelines : List Pipeline) : List Pipeline :=
  pipelines.mergeSort fun p q => reach pipelines p ≤ reach pipelines q

theorem byReach_sorted {i j : Nat} (hij : i ≤ j) (hj : j < (byReach pipelines).length) :
    reach pipelines (byReach pipelines)[i] ≤ reach pipelines (byReach pipelines)[j] := by
  have hsorted : (byReach pipelines).Pairwise fun p q => reach pipelines p ≤ reach pipelines q := by
    have hpairs : (byReach pipelines).Pairwise fun p q =>
        decide (reach pipelines p ≤ reach pipelines q) = true := by
      apply List.pairwise_mergeSort
      · intro p q r hpq hqr
        rw [decide_eq_true_eq] at hpq hqr ⊢
        exact Nat.le_trans hpq hqr
      · intro p q
        rw [Bool.or_eq_true, decide_eq_true_eq, decide_eq_true_eq]
        exact Nat.le_total _ _
    exact hpairs.imp of_decide_eq_true
  rcases Nat.eq_or_lt_of_le hij with rfl | hlt
  · exact Nat.le_refl _
  · exact List.pairwise_iff_getElem.mp hsorted i j (by omega) hj hlt

theorem inBuildOrder_byReach (hclosed : Closed pipelines) (hacyclic : Acyclic pipelines) :
    InBuildOrder (byReach pipelines) := by
  have hperm : (byReach pipelines).Perm pipelines := List.mergeSort_perm _ _
  intro i hi m hm named stage hsource
  have hp := hperm.mem_iff.mp (List.getElem_mem hi)
  obtain ⟨q, hq, hname, hstage⟩ := hclosed _ hp m hm named stage hsource
  obtain ⟨j, hj, rfl⟩ := List.mem_iff_getElem.mp (hperm.mem_iff.mpr hq)
  have hlt := reach_lt hacyclic ⟨hp, hq, m, hm, named, stage, hsource, hname⟩
  refine ⟨j, ?_, hname, hstage⟩
  by_contra hle
  have := byReach_sorted (Nat.le_of_not_lt hle) hj
  omega

/-! ### Going down in an order -/

variable {order : List Pipeline}

theorem closed_of_inBuildOrder (hperm : order.Perm pipelines) (horder : InBuildOrder order) :
    Closed pipelines := by
  intro p hp m hm named stage hsource
  obtain ⟨i, hi, rfl⟩ := List.mem_iff_getElem.mp (hperm.mem_iff.mpr hp)
  obtain ⟨j, hj, hname, hstage⟩ := horder i hi m hm named stage hsource
  exact ⟨order[j], hperm.mem_iff.mp (List.getElem_mem _), hname, hstage⟩

/-- What a pipeline waits for, over one dependency or more, stands earlier. -/
theorem earlier_of_transGen (hdistinct : Distinct pipelines) (hperm : order.Perm pipelines)
    (horder : InBuildOrder order) {p q : Pipeline} (h : TransGen (WaitsFor pipelines) p q) :
    ∀ (i : Nat) (hi : i < order.length), order[i] = p → ∃ (j : Nat) (hj : j < i), order[j] = q := by
  have hstep : ∀ {p q : Pipeline}, WaitsFor pipelines p q → ∀ (i : Nat) (hi : i < order.length),
      order[i] = p → ∃ (j : Nat) (hj : j < i), order[j] = q := by
    rintro p q ⟨-, hq, m, hm, named, stage, hsource, hname⟩ i hi rfl
    obtain ⟨j, hj, hname', -⟩ := horder i hi m hm named stage hsource
    rw [Name.same_comm] at hname
    exact ⟨j, hj, hdistinct.eq_of_same (hperm.mem_iff.mp (List.getElem_mem _)) hq
      (Name.same_trans hname' hname)⟩
  induction h with
  | single hwaits => exact hstep hwaits
  | tail _ hwaits ih =>
    intro i hi hget
    obtain ⟨j, hj, hmid⟩ := ih i hi hget
    obtain ⟨k, hk, hlast⟩ := hstep hwaits j (by omega) hmid
    exact ⟨k, by omega, hlast⟩

theorem acyclic_of_inBuildOrder (hdistinct : Distinct pipelines) (hperm : order.Perm pipelines)
    (horder : InBuildOrder order) : Acyclic pipelines := by
  intro p hcycle
  -- a pipeline on a cycle would stand before every place at which it stands
  have hnone : ∀ (i : Nat) (hi : i < order.length), order[i] ≠ p := by
    intro i
    induction i using Nat.strongRecOn with
    | ind i ih =>
      intro hi hget
      obtain ⟨j, hj, hgetj⟩ := earlier_of_transGen hdistinct hperm horder hcycle i hi hget
      exact ih j hj (by omega) hgetj
  have hp : p ∈ pipelines := by
    obtain ⟨q, hwaits, -⟩ := Relation.TransGen.head'_iff.mp hcycle
    exact hwaits.1
  obtain ⟨i, hi, hget⟩ := List.mem_iff_getElem.mp (hperm.mem_iff.mpr hp)
  exact hnone i hi hget

/-- Pipelines of distinct names have all their dependencies declared and none that waits for itself exactly
when some order of them is a build order. -/
theorem closed_and_acyclic_iff (hdistinct : Distinct pipelines) :
    Closed pipelines ∧ Acyclic pipelines ↔
      ∃ order : List Pipeline, order.Perm pipelines ∧ InBuildOrder order := by
  constructor
  · rintro ⟨hclosed, hacyclic⟩
    exact ⟨byReach pipelines, List.mergeSort_perm _ _, inBuildOrder_byReach hclosed hacyclic⟩
  · rintro ⟨order, hperm, horder⟩
    exact ⟨closed_of_inBuildOrder hperm horder, acyclic_of_inBuildOrder hdistinct hperm horder⟩

end BuildScheduling
