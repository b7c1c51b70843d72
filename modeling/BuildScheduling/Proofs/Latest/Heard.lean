import BuildScheduling.Proofs.Engine.Reports
import BuildScheduling.Proofs.Steady.Refresh

/-!
# What is heard of a material

The latest known revision of a material depends on nothing but what was heard of it (`heard`): the revisions that
the reports with its fingerprint list, report after report, without the reports that list none, and without those
that were only looked through for a revision that a user asks for by name. Whatever a deed does, broken off or
not, the latest known revision after it is the one from before, brought up to date with what the deed heard
(`get?_known_next`); and the revisions that it returns, if it returns any, are those that were latest known after
each report (`returned_eq_recallings`). Only a configuration without the material does something else.
-/

namespace BuildScheduling

/-- The latest known revision of a material after a report that lists some revisions of it. -/
def hear (known : Option Revision) : List Revision → Option Revision
  | [] => known
  | head :: rest => some (remembered known head (head :: rest))

/-- The latest known revision after reports, one after another. -/
def recalled (known : Option Revision) (reports : List (List Revision)) : Option Revision :=
  reports.foldl hear known

/-- The latest known revisions after each report. -/
def recallings (known : Option Revision) : List (List Revision) → List Revision
  | [] => []
  | report :: rest => (hear known report).toList ++ recallings (hear known report) rest

/-- What is heard of a material from reports. -/
def heard (overrides : Overrides) (material : Fingerprint) (reports : List (Material × Report)) :
    List (List Revision) :=
  ((reports.filter fun e => e.1.fingerprint == material && (overrides.wanted? e.1).isNone).map
    fun e => e.2.revisions).filter fun revisions => !revisions.isEmpty

theorem recalled_append (known : Option Revision) (first second : List (List Revision)) :
    recalled known (first ++ second) = recalled (recalled known first) second := List.foldl_append

theorem recallings_append (known : Option Revision) (first second : List (List Revision)) :
    recallings known (first ++ second) = recallings known first ++ recallings (recalled known first) second := by
  induction first generalizing known with
  | nil => rfl
  | cons report rest ih =>
    rw [List.cons_append, recallings, recallings, ih, List.append_assoc]
    rfl

/-- Each of them is the latest known revision after the reports up to its own. -/
theorem getElem?_recallings {known : Option Revision} {reports : List (List Revision)} (h : [] ∉ reports)
    (k : Nat) : (recallings known reports)[k]? =
      if k < reports.length then recalled known (reports.take (k + 1)) else none := by
  induction reports generalizing known k with
  | nil => rfl
  | cons report rest ih =>
    obtain ⟨hreport, hrest⟩ := List.ne_and_not_mem_of_not_mem_cons h
    obtain ⟨newest, hnewest⟩ : ∃ newest, hear known report = some newest := by
      cases report with
      | nil => exact absurd rfl hreport
      | cons head others => exact ⟨_, rfl⟩
    rw [recallings, hnewest, Option.toList_some, List.singleton_append]
    cases k with
    | zero => simp [recalled, hnewest]
    | succ k => simp [ih hrest, recalled, hnewest]

theorem length_recallings {known : Option Revision} {reports : List (List Revision)} (h : [] ∉ reports) :
    (recallings known reports).length = reports.length := by
  induction reports generalizing known with
  | nil => rfl
  | cons report rest ih =>
    obtain ⟨hreport, hrest⟩ := List.ne_and_not_mem_of_not_mem_cons h
    cases report with
    | nil => exact absurd rfl hreport
    | cons head others => simp [recallings, hear, ih hrest]

theorem nil_not_mem_heard (overrides : Overrides) (material : Fingerprint) (reports : List (Material × Report)) :
    [] ∉ heard overrides material reports := by
  intro hmem
  have hempty := (List.mem_filter.mp hmem).2
  simp at hempty

theorem heard_append (overrides : Overrides) (material : Fingerprint) (first second : List (Material × Report)) :
    heard overrides material (first ++ second) =
      heard overrides material first ++ heard overrides material second := by
  simp only [heard, List.filter_append, List.map_append]

/-- A report with another fingerprint is not heard, and neither is one that a user wants a revision from. -/
theorem heard_of_passed_over {overrides : Overrides} {material : Fingerprint} {m : Material} {report : Report}
    (h : m.fingerprint = material → overrides.wanted? m ≠ none) :
    heard overrides material [(m, report)] = [] := by
  have hskip : (m.fingerprint == material && (overrides.wanted? m).isNone) = false := by
    rw [Bool.and_eq_false_imp]
    intro hm
    rw [Option.isNone_eq_false_iff, Option.isSome_iff_ne_none]
    exact h (eq_of_beq hm)
  simp [heard, hskip]

theorem heard_of_unpegged {overrides : Overrides} {m : Material} {report : Report}
    (h : overrides.wanted? m = none) :
    heard overrides m.fingerprint [(m, report)] = [report.revisions].filter fun revisions => !revisions.isEmpty := by
  simp [heard, h]

theorem recalled_heard (known : Option Revision) {overrides : Overrides} {m : Material} {report : Report}
    (h : overrides.wanted? m = none) :
    recalled known (heard overrides m.fingerprint [(m, report)]) = hear known report.revisions := by
  rw [heard_of_unpegged h]
  cases report.revisions <;> rfl

theorem recallings_heard (known : Option Revision) {overrides : Overrides} {m : Material} {report : Report}
    {head : Revision} {rest : List Revision} (h : overrides.wanted? m = none)
    (hrevisions : report.revisions = head :: rest) :
    recallings known (heard overrides m.fingerprint [(m, report)]) = [remembered known head (head :: rest)] := by
  rw [heard_of_unpegged h, hrevisions]
  rfl

namespace LatestKnown

/-- After a report, its material is recalled, and other materials are known as before. -/
theorem get?_learn_eq_hear (known : LatestKnown) (material other : Fingerprint) (revisions : List Revision) :
    (known.learn material revisions).get? other =
      if other = material then hear (known.get? material) revisions else known.get? other := by
  rw [get?_learn]
  cases revisions <;> rfl

end LatestKnown

/-! ### Attempts -/

namespace Attempt

variable {σ α : Type} {collab : Collaborators σ} {limit : Option Nat} {snapshot : Snapshot} {p : Pipeline}
  {overrides : Overrides}

theorem known_ask (limit : Option Nat) (call : Call σ α) (progress : Progress σ) :
    ((ask limit call).on progress).2.known = progress.known := (on_ask limit call progress).1

theorem known_answerFor (m : Material) (revision : Option Revision) (progress : Progress σ) :
    ((answerFor collab limit p m revision).on progress).2.known = progress.known := by
  cases revision with
  | none => rfl
  | some revision =>
    have hknown := known_ask limit (collab.changedSinceLastBuild p.name m.fingerprint) progress
    rw [answerFor, on_bind]
    rcases hon : (ask limit (collab.changedSinceLastBuild p.name m.fingerprint)).on progress with
      ⟨_ | changed, mid⟩
    · rwa [hon] at hknown
    · rwa [hon] at hknown

theorem known_isHeld (collab : Collaborators σ) (limit : Option Nat) (p : Pipeline) (progress : Progress σ) :
    ((isHeld collab limit p).on progress).2.known = progress.known := by
  unfold isHeld
  split
  · exact known_ask limit _ progress
  · rfl

theorem get?_known_settle (m : Material) (report : Report) (progress : Progress σ) (material : Fingerprint) :
    ((settle collab limit p overrides m report).on progress).2.known.get? material =
      recalled (progress.known.get? material) (heard overrides material [(m, report)]) := by
  unfold settle
  cases hwanted : overrides.wanted? m with
  | some wanted =>
    rw [heard_of_passed_over fun _ => by simp [hwanted]]
    dsimp only
    cases report.named? wanted with
    | none => rfl
    | some revision =>
      rw [known_answerFor]
      rfl
  | none =>
    simp only [on_bind, on_update, known_answerFor]
    rw [LatestKnown.get?_learn_eq_hear]
    split
    · next h =>
      subst h
      exact (recalled_heard _ hwanted).symm
    · next h =>
      rw [heard_of_passed_over fun hm => absurd hm.symm h]
      rfl

/-- What is known of a material while materials are resolved is recalled over what is heard, broken off or
not. -/
theorem get?_known_mapM (materials : List Material) (progress : Progress σ) (material : Fingerprint) :
    ((materials.mapM (resolveMaterial collab limit snapshot p overrides)).on progress).2.known.get? material =
      recalled (progress.known.get? material)
        (heard overrides material (reportsOn collab limit snapshot p overrides materials progress)) := by
  induction materials generalizing progress with
  | nil => rfl
  | cons m rest ih =>
    have hmid := known_ask limit (collab.reportOn snapshot m) progress
    rw [List.mapM_cons, resolveMaterial_eq, bind_assoc, on_bind, reportsOn]
    rcases hask : (ask limit (collab.reportOn snapshot m)).on progress with ⟨_ | report, mid⟩
    · rw [hask] at hmid
      dsimp only at hmid ⊢
      rw [hmid]
      rfl
    rw [hask] at hmid
    have hnext : ((settle collab limit p overrides m report).on mid).2.known.get? material =
        recalled (mid.known.get? material) (heard overrides material [(m, report)]) :=
      get?_known_settle m report mid material
    rw [show mid.known = progress.known from hmid] at hnext
    simp only [on_bind]
    rcases hsettle : (settle collab limit p overrides m report).on mid with ⟨_ | answer, next⟩
    · rwa [hsettle] at hnext
    rw [hsettle] at hnext
    have hlast := ih next
    rw [hnext, ← recalled_append, ← heard_append] at hlast
    dsimp only
    rcases hrest : (rest.mapM (resolveMaterial collab limit snapshot p overrides)).on next with
      ⟨_ | answers, last⟩
    · rwa [hrest] at hlast
    · rwa [hrest] at hlast

theorem get?_known_resolve (progress : Progress σ) (material : Fingerprint) :
    ((resolve collab limit snapshot p overrides).on progress).2.known.get? material =
      recalled (progress.known.get? material)
        (heard overrides material (resolveReports collab limit snapshot p overrides progress)) := by
  unfold resolveReports
  cases hkey : overrides.unknownKey? p with
  | some key =>
    rw [resolve_of_unknownKey hkey]
    rfl
  | none =>
    have hmap : ((p.materials.mapM (resolveMaterial collab limit snapshot p overrides)).on
        progress).2.known.get? material = _ := get?_known_mapM p.materials progress material
    rw [resolve_of_known hkey, on_bind]
    rcases hon : (p.materials.mapM (resolveMaterial collab limit snapshot p overrides)).on progress with
      ⟨_ | answers, last⟩
    · rwa [hon] at hmap
    · rwa [hon] at hmap

theorem get?_known_decide (debounce : TimerDebounce) (event : TriggerEvent) (progress : Progress σ)
    (material : Fingerprint) :
    ((decide collab limit snapshot debounce p event).on progress).2.known.get? material =
      recalled (progress.known.get? material)
        (heard event.overrides material (reports collab limit snapshot p event.overrides progress)) := by
  have hheld := known_isHeld collab limit p progress
  rw [decide, on_bind]
  unfold reports
  rcases hon : (isHeld collab limit p).on progress with ⟨_ | _ | _, mid⟩
  · rw [hon] at hheld
    rw [← show mid.known = progress.known from hheld]
    rfl
  · rw [hon] at hheld
    have hresolve : ((resolve collab limit snapshot p event.overrides).on mid).2.known.get? material = _ :=
      get?_known_resolve mid material
    rw [show mid.known = progress.known from hheld] at hresolve
    simp only [Bool.false_eq_true, if_false, on_bind]
    rcases hon' : (resolve collab limit snapshot p event.overrides).on mid with
      ⟨_ | missing | revisions, last⟩
    all_goals rwa [hon'] at hresolve
  · rw [hon] at hheld
    rw [← show mid.known = progress.known from hheld]
    rfl

/-- A revision that is settled on is the one that the report brings up, unless a user asked for it by name. -/
theorem unpegged_settled {m other : Material} {report : Report} {r : MaterialRevision}
    {progress last : Progress σ} {answer : Material × Option MaterialRevision}
    (h : (settle collab limit p overrides other report).on progress = (.ok answer, last))
    (hr : answer.2 = some r) :
    unpegged m overrides [r] =
      recallings (progress.known.get? m.fingerprint) (heard overrides m.fingerprint [(other, report)]) := by
  rcases settle_cases h with ⟨wanted, revision, changed, hwanted, -, rfl, -⟩ | ⟨-, -, rfl, -⟩ |
    ⟨revision, changed, hwanted, hnewest, rfl, -⟩
  · cases hr
    rw [heard_of_passed_over fun _ => by simp [hwanted]]
    simp [unpegged, hwanted, recallings]
  · cases hr
  · cases hr
    by_cases hsame : other.fingerprint = m.fingerprint
    · obtain ⟨head, hhead, hremembered⟩ := Option.map_eq_some_iff.mp hnewest
      obtain ⟨rest, hrevisions⟩ := List.head?_eq_some_iff.mp hhead
      rw [← hsame, recallings_heard _ hwanted hrevisions, ← hrevisions, hremembered]
      simp [unpegged, hsame, hwanted]
    · rw [heard_of_passed_over fun h => absurd h hsame]
      simp [unpegged, hsame, recallings]

/-- When every material gets a revision, those that nobody asked for by name are the ones that were latest known
after each report. -/
theorem unpegged_eq_recallings {m : Material} {materials : List Material} {progress last : Progress σ}
    {answers : List (Material × Option MaterialRevision)} {revisions : List MaterialRevision}
    (hmap : (materials.mapM (resolveMaterial collab limit snapshot p overrides)).on progress =
      (.ok answers, last)) (hcomplete : answers.map Prod.snd = revisions.map some) :
    unpegged m overrides revisions =
      recallings (progress.known.get? m.fingerprint)
        (heard overrides m.fingerprint (reportsOn collab limit snapshot p overrides materials progress)) := by
  induction materials generalizing progress answers revisions with
  | nil =>
    cases hmap
    obtain rfl : revisions = [] := by simpa using hcomplete.symm
    rfl
  | cons other rest ih =>
    obtain ⟨report, mid, first, next, others, hask, hsettle, hrest, rfl, hreports⟩ := mapM_cons_ok hmap
    cases revisions with
    | nil => simp at hcomplete
    | cons r revisions =>
      obtain ⟨hfirst, hothers⟩ := List.cons.inj hcomplete
      have hmid := known_ask limit (collab.reportOn snapshot other) progress
      rw [hask] at hmid
      have hnext : ((settle collab limit p overrides other report).on mid).2.known.get? m.fingerprint = _ :=
        get?_known_settle other report mid m.fingerprint
      rw [hsettle, show mid.known = progress.known from hmid] at hnext
      have hone : unpegged m overrides [r] = recallings (progress.known.get? m.fingerprint)
          (heard overrides m.fingerprint [(other, report)]) := by
        rw [← show mid.known = progress.known from hmid]
        exact unpegged_settled hsettle hfirst
      rw [hreports, ← List.singleton_append (l := revisions), unpegged_append, ih hrest hothers, hone,
        ← List.singleton_append (l := reportsOn ..), heard_append, recallings_append, ← hnext]

theorem unpegged_of_resolve {m : Material} {progress last : Progress σ} {revisions : List MaterialRevision}
    (h : (resolve collab limit snapshot p overrides).on progress = (.ok (.complete revisions), last)) :
    unpegged m overrides revisions =
      recallings (progress.known.get? m.fingerprint)
        (heard overrides m.fingerprint (resolveReports collab limit snapshot p overrides progress)) := by
  obtain ⟨hkey, answers, hmap, hcomplete⟩ := answers_of_resolve h
  rw [resolveReports, hkey]
  exact unpegged_eq_recallings hmap hcomplete

/-- The same for the cause that an attempt comes up with. -/
theorem unpegged_of_decide {m : Material} {debounce : TimerDebounce} {event : TriggerEvent}
    {progress : Progress σ} {cause : BuildCause}
    (h : ((decide collab limit snapshot debounce p event).on progress).1 = .ok (.succeeded cause)) :
    unpegged m event.overrides cause.materialRevisions =
      recallings (progress.known.get? m.fingerprint)
        (heard event.overrides m.fingerprint (reports collab limit snapshot p event.overrides progress)) := by
  rcases decide_ok h with hcause | ⟨_, hcause⟩ | ⟨revisions, ⟨mid, last, hheld, hresolve⟩, hcause⟩
  · cases hcause
  · cases hcause
  have hmid := known_isHeld collab limit p progress
  rw [hheld] at hmid
  have hreports : reports collab limit snapshot p event.overrides progress =
      resolveReports collab limit snapshot p event.overrides mid := by
    simp [reports, hheld]
  rw [materialRevisions_of_decideRevisions hcause.symm, hreports, ← show mid.known = progress.known from hmid]
  exact unpegged_of_resolve hresolve

end Attempt

/-! ### Deeds -/

variable {σ χ : Type} {env : Environment σ χ}

/-- The revisions that a user asks for by name when something happens. -/
def Happening.overrides : Happening χ → Overrides
  | .request (.attempt _ event) => event.overrides
  | .request (.resolve _ overrides) => overrides
  | _ => ∅

/-- What a deed hears of a material. -/
def Deed.heard (env : Environment σ χ) (material : Fingerprint) (d : Deed σ χ) : List (List Revision) :=
  BuildScheduling.heard d.happening.overrides material (d.reports env)

namespace Session

theorem get?_known_schedule (collab : Collaborators σ) (s : Session σ) (name : PipelineName)
    (event : TriggerEvent) (material : Fingerprint) :
    (s.schedule collab name event).2.engine.known.get? material =
      recalled (s.engine.known.get? material)
        (heard event.overrides material (s.attemptReports collab name event)) := by
  unfold attemptReports
  rcases s.deciding?_cases collab name event with ⟨p, hdeciding, -, hschedule⟩ | ⟨hnone, hprogress, -⟩
  · have hknown : ((s.lock name).attempt collab p event).2.engine.known = _ :=
      congrArg Progress.known (progress_attempt (s.lock name) p event)
    rw [hdeciding, hschedule, hknown]
    exact Attempt.get?_known_decide _ event s.progress material
  · have hknown := congrArg Progress.known hprogress
    change (s.schedule collab name event).2.engine.known = s.engine.known at hknown
    rw [hnone, hknown]
    rfl

theorem unpegged_of_schedule {collab : Collaborators σ} {s : Session σ} {name : PipelineName}
    {event : TriggerEvent} {m : Material} {cause : BuildCause}
    (h : (s.schedule collab name event).1 = .ok (.succeeded cause)) :
    Attempt.unpegged m event.overrides cause.materialRevisions =
      recallings (s.engine.known.get? m.fingerprint)
        (heard event.overrides m.fingerprint (s.attemptReports collab name event)) := by
  rcases s.deciding?_cases collab name event with ⟨p, hdeciding, -, hschedule⟩ | ⟨-, -, hnone⟩
  · rw [hschedule] at h
    obtain ⟨last, hdecision, -⟩ := attempt_ok_iff.mp h
    rw [lock_decision] at hdecision
    rw [attemptReports, hdeciding]
    exact Attempt.unpegged_of_decide (congrArg Prod.fst hdecision)
  · exact absurd h (hnone cause)

theorem get?_known_latest (collab : Collaborators σ) (s : Session σ) (m : Material) (material : Fingerprint) :
    (s.latest collab m).2.engine.known.get? material =
      recalled (s.engine.known.get? material) (heard ∅ material (s.latestReports collab m)) := by
  have hknown := Attempt.known_ask none (collab.reportOn s.engine.snapshot m) s.progress
  have hlatest : (s.latest collab m).2.engine.known =
      ((Attempt.latest collab none s.engine.snapshot m).on s.progress).2.known := rfl
  rw [hlatest, Attempt.latest_eq, Attempt.on_bind]
  unfold latestReports
  rcases hon : (Attempt.ask none (collab.reportOn s.engine.snapshot m)).on s.progress with ⟨_ | report, mid⟩
  · rw [hon] at hknown
    rw [← show mid.known = s.engine.known from hknown]
    rfl
  · rw [hon] at hknown
    simp only [Attempt.on_update]
    rw [LatestKnown.get?_learn_eq_hear, show mid.known = s.engine.known from hknown]
    split
    · next h =>
      subst h
      exact (recalled_heard _ rfl).symm
    · next h =>
      rw [heard_of_passed_over fun hm => absurd hm.symm h]
      rfl

/-- What is known of a material after a single deed other than a configuration is recalled over what the deed
hears. -/
theorem get?_known_next (env : Environment σ χ) (s : Session σ) {h : Happening χ} (hsingle : h.Single)
    (hreload : ∀ c, h ≠ .request (.reload c)) (material : Fingerprint) :
    (s.next env h).2.engine.known.get? material =
      recalled (s.engine.known.get? material) (Deed.heard env material ⟨s, h⟩) := by
  cases h with
  | world change => rfl
  | consume consumption => cases consumption <;> rfl
  | request request =>
    cases request with
    | attempt name event => exact get?_known_schedule env.collab s name event material
    | latest m => exact get?_known_latest env.collab s m material
    | resolve name overrides =>
      simp only [next, Session.request, resolve, Deed.heard, Deed.reports]
      cases hp : s.engine.snapshot.pipeline? name with
      | none => rfl
      | some p => exact Attempt.get?_known_resolve s.progress material
    | reload c => exact absurd rfl (hreload c)
    | postCommit url => exact hsingle.elim
    | tick after latest => exact hsingle.elim
    | follow configurations => exact hsingle.elim
    | due _ _ | snapshot | settings | latestKnown _ => rfl

/-- A change of the world hears nothing. -/
theorem heard_world (s : Session σ) (change : χ) (material : Fingerprint) :
    Deed.heard env material ⟨s, .world change⟩ = [] := rfl

/-- A look at the latest revision of a material returns what was latest known after the report on it. -/
theorem returned_latest (env : Environment σ χ) (s : Session σ) (m other : Material) :
    Deed.returned env m ⟨s, .request (.latest other)⟩ =
      recallings (s.engine.known.get? m.fingerprint)
        (Deed.heard env m.fingerprint ⟨s, .request (.latest other)⟩) := by
  have hknown := Attempt.known_ask none (env.collab.reportOn s.engine.snapshot other) s.progress
  simp only [Deed.returned, Deed.answer, Deed.heard, Deed.reports, Happening.overrides, next, request, latest,
    latestReports, perform_eq, Attempt.latest_eq, Attempt.on_bind]
  rcases hon : (Attempt.ask none (env.collab.reportOn s.engine.snapshot other)).on s.progress with
    ⟨_ | report, mid⟩
  · rfl
  · rw [hon] at hknown
    rw [← show mid.known = s.engine.known from hknown]
    simp only [Attempt.on_update, Except.mapError]
    by_cases hsame : other.fingerprint = m.fingerprint
    · rw [if_pos hsame, ← hsame]
      cases hrevisions : report.revisions with
      | nil =>
        rw [heard_of_unpegged rfl, hrevisions]
        rfl
      | cons head rest =>
        rw [recallings_heard _ rfl hrevisions]
        rfl
    · rw [if_neg hsame, heard_of_passed_over fun h => absurd h hsame]
      rfl

/-- The revisions that a deed returns, if it returns any, were latest known one after another. -/
theorem returned_eq_recallings (env : Environment σ χ) (m : Material) {d : Deed σ χ} :
    d.returned env m = recallings (d.before.engine.known.get? m.fingerprint) (d.heard env m.fingerprint) ∨
      d.returned env m = [] ∧ ∀ other, d.happening ≠ .request (.latest other) := by
  obtain ⟨s, h⟩ := d
  cases h with
  | world change => exact Or.inr ⟨rfl, by simp⟩
  | consume consumption => cases consumption <;> exact Or.inr ⟨rfl, by simp⟩
  | request request =>
    cases request with
    | latest other => exact Or.inl (returned_latest env s m other)
    | attempt name event =>
      simp only [Deed.returned, Deed.answer, Deed.heard, Deed.reports, Happening.overrides, next, Session.request]
      cases hanswer : (s.schedule env.collab name event).1 with
      | error failure => exact Or.inr ⟨rfl, by simp⟩
      | ok outcome =>
        cases outcome with
        | rejected rejection => exact Or.inr ⟨rfl, by simp⟩
        | succeeded cause => exact Or.inl (unpegged_of_schedule hanswer)
    | resolve name overrides =>
      simp only [Deed.returned, Deed.answer, Deed.heard, Deed.reports, Happening.overrides, next, Session.request,
        resolve]
      cases hp : s.engine.snapshot.pipeline? name with
      | none => exact Or.inr ⟨rfl, by simp⟩
      | some p =>
        simp only [perform_eq]
        rcases hon : (Attempt.resolve env.collab none s.engine.snapshot p overrides).on s.progress with
          ⟨_ | revisions | missing, last⟩
        · exact Or.inr ⟨rfl, by simp⟩
        · exact Or.inl (Attempt.unpegged_of_resolve hon)
        · exact Or.inr ⟨rfl, by simp⟩
    | _ => exact Or.inr ⟨rfl, by simp⟩

end Session

end BuildScheduling
