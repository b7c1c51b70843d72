import BuildScheduling.Proofs.Health.Notes

/-!
# The health log is a window

Beside a log stands the list that a log without bound would hold: a report goes to its end, and clearing a scope takes
the reports of the scope out of it wherever they stand (`allNoted`). The log drops reports at its front, whatever their
scope, and the list does not, so the two are not the same for long. But what a note does at the end of the list it does
at the end of the log, and what a scope loses in the one it loses in the other; so the log is always the end of the list
(`HealthLog.Window`), and it is the whole list as long as the list has fitted into it (`reports_noted_of_fits`).
-/

namespace BuildScheduling

/-! ### Without bound -/

/-- What a note makes of a list of reports that has no bound. -/
def HealthNote.onAll : HealthNote → List HealthReport → List HealthReport
  | nothing, all => all
  | report r, all => all ++ [r]
  | clear scope, all => all.filter fun r => !r.scope.same scope

/-- The reports of a list, and of notes after it, that were not cleared. -/
def allNoted (all : List HealthReport) (notes : List HealthNote) : List HealthReport :=
  notes.foldl (fun all note => note.onAll all) all

namespace HealthLog

variable {log : HealthLog} {all : List HealthReport}

/-! ### One note -/

/-- A report drops the oldest one of a full log, and none of a log with room. -/
theorem Bounded.report_cases (h : log.Bounded) (r : HealthReport) :
    log.reports.length < log.limit ∧ (log.report r).reports = log.reports ++ [r] ∨
      ∃ oldest rest, log.reports = oldest :: rest ∧ log.reports.length = log.limit ∧
        (log.report r).reports = rest ++ [r] := by
  obtain ⟨hpositive, hfits⟩ := h
  unfold HealthLog.report
  by_cases hfull : log.limit ≤ log.reports.length
  · obtain ⟨oldest, rest, hreports⟩ := List.exists_cons_of_length_pos (hpositive.trans_le hfull)
    refine Or.inr ⟨oldest, rest, hreports, Nat.le_antisymm hfits hfull, ?_⟩
    dsimp only
    rw [if_pos hfull, hreports]
    rfl
  · exact Or.inl ⟨Nat.lt_of_not_le hfull, by simp only [if_neg hfull]⟩

/-- The log is in order and holds the end of a list. -/
structure Window (log : HealthLog) (all : List HealthReport) : Prop where
  bounded : log.Bounded
  suffix : log.reports <:+ all

theorem Window.on (h : log.Window all) (note : HealthNote) : (note.on log).Window (note.onAll all) := by
  refine ⟨h.bounded.on note, ?_⟩
  cases note with
  | nothing => exact h.suffix
  | clear scope => exact h.suffix.filter _
  | report r =>
    obtain ⟨before, rfl⟩ := h.suffix
    have hboth : log.reports ++ [r] <:+ (before ++ log.reports) ++ [r] := ⟨before, (List.append_assoc ..).symm⟩
    show (log.report r).reports <:+ _
    rw [h.bounded.reports_report]
    exact (List.drop_suffix _ _).trans hboth

/-- A note makes the same of a log as of the list of its reports, if this still fits. -/
theorem Bounded.reports_on_of_fits (h : log.Bounded) {note : HealthNote}
    (hfits : (note.onAll log.reports).length ≤ log.limit) : (note.on log).reports = note.onAll log.reports := by
  cases note with
  | nothing => rfl
  | clear scope => rfl
  | report r =>
    obtain ⟨-, hreport⟩ | ⟨_, _, -, hfull, -⟩ := h.report_cases r
    · exact hreport
    · have hlength : (HealthNote.onAll (.report r) log.reports).length = log.reports.length + 1 := by
        simp [HealthNote.onAll]
      omega

/-! ### All notes -/

theorem Window.noted (h : log.Window all) (notes : List HealthNote) :
    (log.noted notes).Window (allNoted all notes) := by
  induction notes generalizing log all with
  | nil => exact h
  | cons note rest ih => exact ih (h.on note)

/-- As long as everything has fitted into the log, it has lost nothing. -/
theorem Bounded.reports_noted_of_fits (h : log.Bounded) {notes : List HealthNote}
    (hfits : ∀ earlier, earlier <+: notes → (allNoted log.reports earlier).length ≤ log.limit) :
    (log.noted notes).reports = allNoted log.reports notes := by
  induction notes generalizing log with
  | nil => rfl
  | cons note rest ih =>
    have hfirst : (note.on log).reports = note.onAll log.reports :=
      h.reports_on_of_fits (hfits [note] (by simp))
    have hlimit : (note.on log).limit = log.limit := log.limit_noted [note]
    show ((note.on log).noted rest).reports = allNoted (note.onAll log.reports) rest
    rw [← hfirst]
    refine ih (h.on note) fun earlier hearlier => ?_
    rw [hfirst, hlimit]
    exact hfits (note :: earlier) ((List.prefix_cons_inj note).mpr hearlier)

/-- A log that reports and clearings come to one after another, beside the list of a log without bound. The log is
always the end of this list, in order, and so are the reports of each scope that of those in the list; there are never
more of them than the limit, or one if the limit is nothing. A report drops at most one other, the oldest, and that only
when the log is full. And as long as the list was never longer than the limit, the log is the list. -/
theorem log_is_end_of_unbounded_log (limit : Nat) (notes : List HealthNote) :
    let log := (new limit).noted notes
    let all := allNoted [] notes
    log.reports <:+ all ∧
    (∀ scope, log.reportsFor scope <:+ all.filter fun r => r.scope.same scope) ∧
    log.reports.length ≤ max limit 1 ∧
    (∀ r, log.reports.length < max limit 1 ∧ (log.report r).reports = log.reports ++ [r] ∨
      ∃ oldest rest, log.reports = oldest :: rest ∧ log.reports.length = max limit 1 ∧
        (log.report r).reports = rest ++ [r]) ∧
    ((∀ earlier, earlier <+: notes → (allNoted [] earlier).length ≤ max limit 1) → log.reports = all) := by
  intro log all
  have hwindow : log.Window all := Window.noted ⟨bounded_new limit, List.suffix_rfl⟩ notes
  have hlimit : log.limit = max limit 1 := limit_noted _ notes
  rw [← hlimit]
  exact ⟨hwindow.suffix, fun scope => hwindow.suffix.filter _, hwindow.bounded.fits, hwindow.bounded.report_cases,
    fun hfits => (bounded_new limit).reports_noted_of_fits fun earlier hearlier =>
      (hfits earlier hearlier).trans_eq hlimit⟩

/-! A configuration is refused, a pipeline is held back, the next configuration is accepted. -/

def refused : HealthReport := { scope := .configuration, level := .error, message := "refused" }

def heldBack : HealthReport := { scope := .pipeline ⟨"app"⟩, level := .info, message := "held" }

def inTurn : List HealthNote := [.report refused, .report heldBack, .clear .configuration, .report heldBack]

/-- There are never more than two reports at a time, so a log for two loses none of them, and one for a single report
has the last one. -/
theorem log_for_two_loses_none :
    (∀ earlier, earlier <+: inTurn → (allNoted [] earlier).length ≤ max 2 1) ∧
    ((new 2).noted inTurn).reports = [heldBack, heldBack] ∧ ((new 0).noted inTurn).reports = [heldBack] := by
  have hfits : ∀ earlier, earlier <+: inTurn → (allNoted [] earlier).length ≤ max 2 1 := by
    have hshort : ∀ n ≤ inTurn.length, (allNoted [] (inTurn.take n)).length ≤ max 2 1 := by decide
    intro earlier hearlier
    rw [List.prefix_iff_eq_take.mp hearlier]
    exact hshort _ hearlier.length_le
  obtain ⟨-, -, -, -, hwhole⟩ := log_is_end_of_unbounded_log 2 inTurn
  exact ⟨hfits, (hwhole hfits).trans rfl, rfl⟩

end HealthLog

end BuildScheduling
