import BuildScheduling.Proofs.Text.Mark
import BuildScheduling.Samples

/-!
# Identifiers of runs

An identifier is the names and the counters of a run with slashes between them. The names may hold slashes and digits, so the
text alone does not tell where a name ends. Among the runs of one stage it does (`parts_eq_of_identifier_eq`): a name is as
long in every spelling, and a counter has no slash. There an identifier stands for one spelling and one pair of counters, and
a run that is known can be looked for among those that are reported by its identifier.
-/

namespace BuildScheduling

namespace StageRun

theorem length_text_of_same {kind : NameKind} {a b : Name kind} (h : a.same b = true) :
    a.text.toList.length = b.text.toList.length := by
  have hletters := congrArg List.length (Name.same_iff_toList.mp h)
  rwa [List.length_map, List.length_map] at hletters

theorem name_eq_of_toList_eq {kind : NameKind} {a b : Name kind} (h : a.text.toList = b.text.toList) : a = b :=
  congrArg Name.mk (String.toList_inj.mp h)

theorem slash_not_mem_toDigits (n : Nat) : '/' ∉ Nat.toDigits 10 n := by
  intro hmem
  have hdigit := Nat.isDigit_of_mem_toDigits (by omega) (by omega) hmem
  simp [Char.isDigit] at hdigit

theorem toDigits_inj {m n : Nat} (h : Nat.toDigits 10 m = Nat.toDigits 10 n) : m = n := by
  rw [← Nat.ofDigitChars_ten_toDigits (n := m), h, Nat.ofDigitChars_ten_toDigits]

theorem toList_identifier (r : StageRun) :
    r.identifier.toList = r.pipeline.text.toList ++ '/' :: (Nat.toDigits 10 r.counter.toNat ++
      '/' :: (r.stage.text.toList ++ '/' :: Nat.toDigits 10 r.stageCounter.toNat)) := by
  simp [identifier, Nat.toString_eq_repr, Nat.toList_repr]

/-- The parts are read off from the left: a name by its length, a counter up to the next slash. -/
theorem parts_eq_of_identifier_eq {a b : StageRun} (hpipeline : a.pipeline.same b.pipeline = true)
    (hstage : a.stage.same b.stage = true) (h : a.identifier = b.identifier) :
    a.pipeline = b.pipeline ∧ a.stage = b.stage ∧ a.counter = b.counter ∧ a.stageCounter = b.stageCounter := by
  have hlist := congrArg String.toList h
  rw [toList_identifier, toList_identifier] at hlist
  obtain ⟨hpipeline, hrest⟩ := List.append_inj hlist (length_text_of_same hpipeline)
  obtain ⟨hcounter, hrest⟩ := Text.append_mark_inj (slash_not_mem_toDigits _) (slash_not_mem_toDigits _)
    (List.cons.inj hrest).2
  obtain ⟨hstage, hrest⟩ := List.append_inj hrest (length_text_of_same hstage)
  exact ⟨name_eq_of_toList_eq hpipeline, name_eq_of_toList_eq hstage, UInt64.toNat_inj.mp (toDigits_inj hcounter),
    UInt32.toNat_inj.mp (toDigits_inj (List.cons.inj hrest).2)⟩

theorem counters_eq_of_identifier_eq {a b : StageRun} (hpipeline : a.pipeline.same b.pipeline = true)
    (hstage : a.stage.same b.stage = true) (h : a.identifier = b.identifier) :
    a.counter = b.counter ∧ a.stageCounter = b.stageCounter :=
  (parts_eq_of_identifier_eq hpipeline hstage h).2.2

/-- Two runs of one stage have one identifier exactly when both names are spelled alike and both counters are equal. -/
theorem identifier_eq_iff_parts_eq {a b : StageRun} (hpipeline : a.pipeline.same b.pipeline = true)
    (hstage : a.stage.same b.stage = true) :
    a.identifier = b.identifier ↔
      a.pipeline = b.pipeline ∧ a.stage = b.stage ∧ a.counter = b.counter ∧ a.stageCounter = b.stageCounter := by
  constructor
  · exact parts_eq_of_identifier_eq hpipeline hstage
  · rintro ⟨hpipeline, hstage, hcounter, hstageCounter⟩
    rw [identifier, identifier, hpipeline, hstage, hcounter, hstageCounter]

/-- Names that hold what an identifier is made of. -/
def slashed : StageRun :=
  { pipeline := ⟨"app/1"⟩, counter := 2, label := "2", stage := ⟨"3/up"⟩, stageCounter := 4, result := .passed }

def shouted : StageRun := { slashed with pipeline := ⟨"APP/1"⟩ }

def slashedLater : StageRun := { slashed with counter := 21 }

def slashedFailed : StageRun := { slashed with label := "two", result := .failed }

/-- Another spelling and another counter make another identifier, another label and result do not. -/
theorem slashed_identified_by_spelling_and_counters :
    (slashed.pipeline.same shouted.pipeline = true ∧ slashed.stage.same shouted.stage = true ∧
      slashed.identifier ≠ shouted.identifier) ∧
    (slashed.pipeline.same slashedLater.pipeline = true ∧ slashed.stage.same slashedLater.stage = true ∧
      slashed.identifier ≠ slashedLater.identifier) ∧
    slashed.pipeline.same slashedFailed.pipeline = true ∧ slashed.stage.same slashedFailed.stage = true ∧
      slashed.identifier = slashedFailed.identifier := by
  have hpipeline : slashed.pipeline.same shouted.pipeline = true := Name.same_iff_toList.mpr (by decide)
  have hself : slashed.pipeline.same slashed.pipeline = true := Name.same_refl _
  have hstage : slashed.stage.same slashed.stage = true := Name.same_refl _
  refine ⟨⟨hpipeline, hstage, fun h => ?_⟩, ⟨hself, hstage, fun h => ?_⟩, hself, hstage, ?_⟩
  · have hparts := (identifier_eq_iff_parts_eq hpipeline hstage).mp h
    exact absurd hparts.1 (by decide)
  · have hparts := (identifier_eq_iff_parts_eq (b := slashedLater) hself hstage).mp h
    exact absurd hparts.2.2.1 (by decide)
  · exact (identifier_eq_iff_parts_eq (b := slashedFailed) hself hstage).mpr ⟨rfl, rfl, rfl, rfl⟩

/-- Runs of different stages may share an identifier. -/
example : (Samples.rerun ⟨"a"⟩ 1 ⟨"b/2/c"⟩ 3).identifier = (Samples.rerun ⟨"a/1/b"⟩ 2 ⟨"c"⟩ 3).identifier := by
  decide +kernel

end StageRun

end BuildScheduling
