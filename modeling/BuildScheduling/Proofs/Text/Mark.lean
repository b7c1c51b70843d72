/-!
# Texts with a mark

A text that is cut at a mark in two ways is cut at one place, or it holds the mark twice (`append_mark_cases`). A mark of one
character that neither front part holds is therefore met at one place (`append_mark_inj`).
-/

namespace BuildScheduling.Text

variable {α : Type} {c : α} {rest before before' after after' : List α}

/-- A mark whose first character does not come again in it does not overlap itself. -/
theorem mark_append_cases {gap : List α} (hc : c ∉ rest)
    (h : c :: (rest ++ after) = gap ++ c :: (rest ++ after')) :
    gap = [] ∧ after = after' ∨
      ∃ between, gap = c :: (rest ++ between) ∧ after = between ++ c :: (rest ++ after') := by
  cases gap with
  | nil =>
    have htail : rest ++ after = rest ++ after' := (List.cons.inj h).2
    exact Or.inl ⟨rfl, List.append_cancel_left htail⟩
  | cons a gap =>
    obtain ⟨rfl, htail⟩ := List.cons.inj h
    rcases List.append_eq_append_iff.mp htail with ⟨between, rfl, hafter⟩ | ⟨tail, hrest, htail⟩
    · exact Or.inr ⟨between, rfl, hafter⟩
    · -- What is left of the mark would have to begin as the mark does.
      cases tail with
      | nil => exact Or.inr ⟨[], by simp [hrest], by simpa using htail.symm⟩
      | cons b tail =>
        obtain ⟨rfl, -⟩ := List.cons.inj htail
        have hmem : c ∈ rest := by simp [hrest]
        exact absurd hmem hc

/-- A text that is cut at a mark in two ways: at the same place, or the mark is there twice. -/
theorem append_mark_cases (hc : c ∉ rest)
    (h : before ++ c :: (rest ++ after) = before' ++ c :: (rest ++ after')) :
    before = before' ∧ after = after' ∨
    (∃ between, before' = before ++ c :: (rest ++ between) ∧ after = between ++ c :: (rest ++ after')) ∨
    ∃ between, before = before' ++ c :: (rest ++ between) ∧ after' = between ++ c :: (rest ++ after) := by
  rcases List.append_eq_append_iff.mp h with ⟨gap, hbefore, hmark⟩ | ⟨gap, hbefore, hmark⟩
  · rcases mark_append_cases hc hmark with ⟨rfl, hafter⟩ | ⟨between, rfl, hafter⟩
    · exact Or.inl ⟨by simpa using hbefore.symm, hafter⟩
    · exact Or.inr (Or.inl ⟨between, hbefore, hafter⟩)
  · rcases mark_append_cases hc hmark with ⟨rfl, hafter⟩ | ⟨between, rfl, hafter⟩
    · exact Or.inl ⟨by simpa using hbefore, hafter.symm⟩
    · exact Or.inr (Or.inr ⟨between, hbefore, hafter⟩)

/-- What stands before the first mark of a text, and what stands after it. -/
theorem append_mark_inj (hbefore : c ∉ before) (hbefore' : c ∉ before')
    (h : before ++ c :: after = before' ++ c :: after') : before = before' ∧ after = after' := by
  rcases append_mark_cases (List.not_mem_nil : c ∉ []) h with hsame | ⟨between, rfl, -⟩ | ⟨between, rfl, -⟩
  · exact hsame
  · exact absurd (by simp) hbefore'
  · exact absurd (by simp) hbefore

end BuildScheduling.Text
