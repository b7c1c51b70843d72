import BuildScheduling.Proofs.Queue.ForcedCause
import BuildScheduling.Proofs.Resolution.Report

/-!
# The order of decision

Many reasons can speak against an attempt at once. `answered_in_order` lists them, from a missing timer to a
definition that was read at another revision, and says that the first one that applies is the answer, and that
an attempt that none applies to gets its cause. It takes collaborators that answer every question
(`Collaborators.Answers`) in time.

What is asked about materials is in the reports of the attempt. It goes through them in declaration order and
breaks off at the first revision that was asked for and is not listed, so that such a material counts before
those that have no revision at all, wherever these stand; and when it does not break off there is a report on
every material.
-/

namespace BuildScheduling

/-! ### Conditions in order -/

/-- Of a list of conditions, each with what it calls for, one holds, and what the first of these calls for
holds too. -/
def FirstThatApplies : List (Prop × Prop) → Prop
  | [] => False
  | (condition, called) :: rest => condition ∧ called ∨ ¬ condition ∧ FirstThatApplies rest

namespace FirstThatApplies

variable {condition called : Prop} {rest : List (Prop × Prop)}

theorem here (h : condition) (h' : called) : FirstThatApplies ((condition, called) :: rest) :=
  Or.inl ⟨h, h'⟩

theorem later (h : ¬ condition) (h' : FirstThatApplies rest) :
    FirstThatApplies ((condition, called) :: rest) :=
  Or.inr ⟨h, h'⟩

/-- It is enough to look further when the condition does not hold. -/
theorem cons (h : condition → called) (h' : ¬ condition → FirstThatApplies rest) :
    FirstThatApplies ((condition, called) :: rest) := by
  by_cases hcondition : condition
  · exact here hcondition (h hcondition)
  · exact later hcondition (h' hcondition)

end FirstThatApplies

/-! ### What speaks against an attempt -/

variable {σ : Type}

/-- A text that names a material of the pipeline, by its checkout fingerprint or by its fingerprint. -/
def Pipeline.HasMaterial (p : Pipeline) (key : String) : Prop :=
  ∃ m ∈ p.materials, m.checkoutFingerprint.text = key ∨ m.fingerprint.text = key

namespace Overrides

/-- A revision is asked for of a material, and the report on the material does not list it. -/
def Unmatched (overrides : Overrides) (m : Material) (report : Report) (wanted : String) : Prop :=
  overrides.wanted? m = some wanted ∧ ¬ report.ListsNamed wanted

/-- The materials that no revision is asked for of and that have none, as messages call them. -/
def missing (overrides : Overrides) (reports : List (Material × Report)) : List String :=
  (reports.filter fun (m, report) => (overrides.wanted? m).isNone && report.isEmpty).map
    fun (m, _) => m.displayName

theorem unknownKey?_eq_none_iff {overrides : Overrides} {p : Pipeline} :
    overrides.unknownKey? p = none ↔ ∀ key ∈ overrides.keys, p.HasMaterial key := by
  simp [unknownKey?, Pipeline.HasMaterial, or_iff_not_imp_left]

theorem not_hasMaterial_of_unknownKey? {overrides : Overrides} {p : Pipeline} {key : String}
    (h : overrides.unknownKey? p = some key) : key ∈ overrides.keys ∧ ¬ p.HasMaterial key := by
  refine ⟨List.mem_of_find?_eq_some h, ?_⟩
  simpa [Pipeline.HasMaterial] using List.find?_some h

end Overrides

/-- The cause that an event makes of revisions. -/
def TriggerEvent.cause (event : TriggerEvent) (revisions : List MaterialRevision) : BuildCause :=
  match event with
  | .auto => .ofChanges revisions
  | .manual user _ => .ofUser revisions user
  | .timer => .ofTimer revisions

/-- The definition was read at one revision of a material, and another is to be built. -/
def Pipeline.ReadAtOther (p : Pipeline) (revisions : List MaterialRevision) (material : Fingerprint)
    (expected : String) (other : MaterialRevision) : Prop :=
  p.origin = .remote material expected ∧
    revisions.find? (fun r => r.material.fingerprint == material && r.id != expected) = some other

/-- What speaks against a complete list of revisions, and what is answered then. -/
def revisionReasons (debounce : TimerDebounce) (p : Pipeline) (event : TriggerEvent)
    (revisions : List MaterialRevision) (outcome : Outcome) : List (Prop × Prop) :=
  [(event.kind = .timer ∧ p.timer.any Timer.onlyOnChanges = true ∧
      debounce.get? p.name = some (revisionSet revisions),
    outcome = .rejected .noNewMaterials),
  (event.kind ≠ .manual ∧ ∃ material expected other, p.ReadAtOther revisions material expected other,
    ∃ material expected other, p.ReadAtOther revisions material expected other ∧
      outcome = .rejected (.configMaterialMismatch material expected other.id)),
  (True, outcome = .succeeded (event.cause revisions))]

theorem consistent_eq_of_readAtOther {p : Pipeline} {cause : BuildCause} {material : Fingerprint}
    {expected : String} {other : MaterialRevision}
    (hmaterials : cause.materialRevisions.map MaterialRevision.material = p.materials)
    (h : p.ReadAtOther cause.materialRevisions material expected other) :
    consistent p cause = .rejected (.configMaterialMismatch material expected other.id) := by
  obtain ⟨horigin, hfind⟩ := h
  have hother := List.find?_some hfind
  rw [Bool.and_eq_true, beq_iff_eq, bne_iff_ne] at hother
  have hmem := List.mem_of_find?_eq_some hfind
  have hown : p.ownOrigin? = some (material, expected) := by
    have hdeclared : p.materials.any (fun m => m.fingerprint == material) = true := by
      rw [← hmaterials, List.any_map, List.any_eq_true]
      exact ⟨other, hmem, by simpa using hother.1⟩
    simp [Pipeline.ownOrigin?, horigin, hdeclared]
  have hfits : cause.fitsOrigin p = false := by
    rw [BuildCause.fitsOrigin, hown, List.all_eq_false]
    exact ⟨other, hmem, by simpa using hother⟩
  simp [consistent, horigin, hfits, hfind]

theorem consistent_eq_of_not_readAtOther {p : Pipeline} {cause : BuildCause}
    (h : ¬ ∃ material expected other, p.ReadAtOther cause.materialRevisions material expected other) :
    consistent p cause = .succeeded cause := by
  cases horigin : p.origin with
  | «local» => simp [consistent, horigin]
  | remote material expected =>
    have hnone : cause.materialRevisions.find?
        (fun r => r.material.fingerprint == material && r.id != expected) = none := by
      rw [← Option.not_isSome_iff_eq_none, Option.isSome_iff_exists]
      exact fun ⟨other, hother⟩ => h ⟨material, expected, other, horigin, hother⟩
    have hfits : cause.fitsOrigin p = true := by
      simp only [BuildCause.fitsOrigin, Pipeline.ownOrigin?, horigin]
      by_cases hown : p.materials.any (fun m => m.fingerprint == material) = true
      · rw [List.find?_eq_none] at hnone
        simp only [hown, if_true, List.all_eq_true]
        intro r hr
        simpa [or_iff_not_imp_left] using hnone r hr
      · simp [hown]
    simp [consistent, horigin, hfits]

theorem decideRevisions_in_order (debounce : TimerDebounce) (p : Pipeline) (event : TriggerEvent)
    {revisions : List MaterialRevision}
    (hmaterials : revisions.map MaterialRevision.material = p.materials) :
    FirstThatApplies (revisionReasons debounce p event revisions
      (decideRevisions debounce p event revisions)) := by
  -- A timer and a change are taken only at the revision that the definition was read at.
  have hconsistent : ∀ cause : BuildCause, cause.materialRevisions = revisions → event.kind ≠ .manual →
      event.cause revisions = cause → FirstThatApplies (revisionReasons debounce p event revisions
        (consistent p cause)).tail := by
    intro cause hcause hkind hevent
    refine .cons (fun ⟨_, material, expected, other, hread⟩ => ?_) fun hnone => .here trivial ?_
    · exact ⟨material, expected, other, hread,
        consistent_eq_of_readAtOther (hcause ▸ hmaterials) (hcause ▸ hread)⟩
    · rw [hevent]
      exact consistent_eq_of_not_readAtOther fun hread => hnone ⟨hkind, hcause ▸ hread⟩
  cases event with
  | auto => exact .later (by simp [TriggerEvent.kind]) (hconsistent _ rfl (by simp [TriggerEvent.kind]) rfl)
  | manual user overrides =>
    exact .later (by simp [TriggerEvent.kind]) (.later (by simp [TriggerEvent.kind]) (.here trivial rfl))
  | timer =>
    refine .cons (fun h => decideRevisions_eq_noNewMaterials_iff.mpr ⟨rfl, h.2⟩) fun h => ?_
    have hnew : decideRevisions debounce p .timer revisions = consistent p (.ofTimer revisions) := by
      rw [decideRevisions, if_neg]
      rw [Bool.and_eq_true, TimerDebounce.hasRunWith_iff]
      exact fun hrun => h ⟨rfl, hrun⟩
    rw [hnew]
    exact hconsistent _ rfl (by simp [TriggerEvent.kind]) rfl

/-! ### Collaborators that answer -/

/-- In the good worlds a question is answered, and leads to a good world. -/
def Call.Answered {α : Type} (Good : σ → Prop) (call : Call σ α) : Prop :=
  ∀ w, Good w → (∃ a, (call w).1.answer = .ok a) ∧ Good (call w).2

/-- In the good worlds nothing that an attempt on a pipeline asks is refused. -/
structure Collaborators.Answers (collab : Collaborators σ) (snapshot : Snapshot) (p : Pipeline)
    (Good : σ → Prop) : Prop where
  unfinished : (collab.hasUnfinishedInstance p.name).Answered Good
  report : ∀ m ∈ p.materials, (collab.reportOn snapshot m).Answered Good
  changed : ∀ m ∈ p.materials, (collab.changedSinceLastBuild p.name m.fingerprint).Answered Good
  pending : ∀ w, Good w → collab.pendingOutage w = none
  enqueue : ∀ w, Good w → collab.enqueueOutage w = none

namespace Attempt

variable {α β : Type} {collab : Collaborators σ} {limit : Option Nat} {snapshot : Snapshot}
  {p : Pipeline} {overrides : Overrides} {Good : σ → Prop}

/-- From some progress, a computation comes to its end in a good world, or it breaks off for one of the given
reasons. -/
def Ends (Good : σ → Prop) (x : Attempt σ α) (progress : Progress σ) (reason : Interruption → Prop) : Prop :=
  match x.on progress with
  | (.ok _, last) => Good last.world
  | (.error interruption, _) => reason interruption

theorem Ends.mono {x : Attempt σ α} {progress : Progress σ} {reason reason' : Interruption → Prop}
    (hx : Ends Good x progress reason) (h : ∀ interruption, reason interruption → reason' interruption) :
    Ends Good x progress reason' := by
  unfold Ends at hx ⊢
  rcases hon : x.on progress with ⟨interruption | a, last⟩
  · rw [hon] at hx
    exact h interruption hx
  · rw [hon] at hx
    exact hx

theorem Ends.bind {x : Attempt σ α} {f : α → Attempt σ β} {progress : Progress σ}
    {reason : Interruption → Prop} (hx : Ends Good x progress reason)
    (hf : ∀ a mid, x.on progress = (.ok a, mid) → Good mid.world → Ends Good (f a) mid reason) :
    Ends Good (x >>= f) progress reason := by
  unfold Ends at hx ⊢
  rw [on_bind]
  rcases hon : x.on progress with ⟨interruption | a, mid⟩
  · rw [hon] at hx
    exact hx
  · rw [hon] at hx
    exact hf a mid hon hx

/-- A question that is answered breaks off only for want of time. -/
theorem ends_ask {call : Call σ α} (hcall : call.Answered Good) {progress : Progress σ}
    (hgood : Good progress.world) :
    Ends Good (ask limit call) progress fun interruption => interruption = .timedOut := by
  obtain ⟨⟨a, ha⟩, hnext⟩ := hcall progress.world hgood
  have hon := on_ask_eq limit call progress
  rw [ha] at hon
  unfold Ends
  split at hon
  · rw [hon]
  · rw [hon]
    exact hnext

theorem ends_answerFor {m : Material} (revision : Option Revision)
    (hchanged : (collab.changedSinceLastBuild p.name m.fingerprint).Answered Good)
    {progress : Progress σ} (hgood : Good progress.world) :
    Ends Good (answerFor collab limit p m revision) progress fun interruption =>
      interruption = .timedOut := by
  cases revision with
  | none => exact hgood
  | some revision => exact (ends_ask hchanged hgood).bind fun _ _ _ hmid => hmid

theorem ends_settle {m : Material} {report : Report}
    (hchanged : (collab.changedSinceLastBuild p.name m.fingerprint).Answered Good)
    {progress : Progress σ} (hgood : Good progress.world) :
    Ends Good (settle collab limit p overrides m report) progress fun interruption =>
      interruption = .timedOut ∨ ∃ wanted, overrides.Unmatched m report wanted ∧
        interruption = .failed (.revisionNotFound m.fingerprint wanted) := by
  unfold settle
  cases hwanted : overrides.wanted? m with
  | none =>
    have hupdate : Ends Good (update m report.revisions) progress fun interruption =>
        interruption = .timedOut := hgood
    exact (hupdate.bind fun revision mid _ hmid => ends_answerFor revision hchanged hmid).mono
      fun _ => Or.inl
  | some wanted =>
    dsimp only
    cases hnamed : report.named? wanted with
    | none => exact Or.inr ⟨wanted, ⟨hwanted, Report.named?_eq_none_iff.mp hnamed⟩, rfl⟩
    | some revision => exact (ends_answerFor (some revision) hchanged hgood).mono fun _ => Or.inl

/-- Materials are resolved one after another up to a revision that is asked for and not listed. -/
theorem ends_mapM (limit : Option Nat) (overrides : Overrides) {materials : List Material}
    (hreport : ∀ m ∈ materials, (collab.reportOn snapshot m).Answered Good)
    (hchanged : ∀ m ∈ materials, (collab.changedSinceLastBuild p.name m.fingerprint).Answered Good)
    {progress : Progress σ} (hgood : Good progress.world) :
    Ends Good (materials.mapM (resolveMaterial collab limit snapshot p overrides)) progress
      fun interruption => interruption = .timedOut ∨ ∃ m report wanted,
        (m, report) ∈ reportsOn collab limit snapshot p overrides materials progress ∧
          overrides.Unmatched m report wanted ∧
          interruption = .failed (.revisionNotFound m.fingerprint wanted) := by
  induction materials generalizing progress with
  | nil => exact hgood
  | cons m rest ih =>
    obtain ⟨hm, hrest⟩ := List.forall_mem_cons.mp hreport
    obtain ⟨hm', hrest'⟩ := List.forall_mem_cons.mp hchanged
    rw [List.mapM_cons, resolveMaterial_eq, bind_assoc, reportsOn]
    refine ((ends_ask hm hgood).mono fun _ => Or.inl).bind fun report mid hask hmid => ?_
    rw [hask]
    refine ((ends_settle hm' hmid).mono fun _ => ?_).bind fun answer next hsettle hnext => ?_
    · refine Or.imp_right ?_
      rintro ⟨wanted, hunmatched, hfailed⟩
      exact ⟨m, report, wanted, List.mem_cons_self, hunmatched, hfailed⟩
    · simp only [hsettle]
      refine ((ih hrest hrest' hnext).mono fun _ => Or.imp_right ?_).bind fun _ _ _ hlast => hlast
      rintro ⟨other, report', wanted, hmem, hunmatched, hfailed⟩
      exact ⟨other, report', wanted, List.mem_cons_of_mem _ hmem, hunmatched, hfailed⟩

/-! ### Decisions -/

theorem not_unmatched {reports : List (Material × Report)}
    {answers : List (Material × Option MaterialRevision)}
    (h : List.Forall₂ (Settled overrides) reports answers) {m : Material} {report : Report}
    (hmem : (m, report) ∈ reports) (wanted : String) : ¬ overrides.Unmatched m report wanted := by
  induction h with
  | nil => exact absurd hmem List.not_mem_nil
  | cons hanswer _ ih =>
    rcases List.mem_cons.mp hmem with rfl | hrest
    · rintro ⟨hwanted, hunlisted⟩
      obtain ⟨r, -, hnamed⟩ := hanswer.pegged wanted hwanted
      rw [Report.named?_eq_none_iff.mpr hunlisted] at hnamed
      cases hnamed
    · exact ih hrest

/-- The materials without a revision are those whose report lists nothing to build from. -/
theorem missing_of_settled {reports : List (Material × Report)}
    {answers : List (Material × Option MaterialRevision)}
    (h : List.Forall₂ (Settled overrides) reports answers) :
    answers.filterMap (fun a => if a.2.isNone then some a.1.displayName else none) =
      overrides.missing reports := by
  induction h with
  | nil => rfl
  | @cons asked answer reports answers hanswer _ ih =>
    have hnone : answer.2.isNone =
        ((overrides.wanted? asked.1).isNone && asked.2.isEmpty) := by
      cases hwanted : overrides.wanted? asked.1 with
      | some wanted =>
        obtain ⟨r, hr, -⟩ := hanswer.pegged wanted hwanted
        simp [hr]
      | none =>
        rw [Bool.eq_iff_iff]
        simpa using hanswer.unpegged hwanted
    simp only [Overrides.missing, List.filterMap_cons, List.filter_cons, ← hnone, hanswer.material]
    cases answer.2 with
    | none => simpa [Overrides.missing] using ih
    | some r => simpa [Overrides.missing] using ih

theorem gather_of_settled {reports : List (Material × Report)}
    {answers : List (Material × Option MaterialRevision)}
    (h : List.Forall₂ (Settled overrides) reports answers) :
    gather answers =
      match overrides.missing reports with
      | [] => .complete (answers.filterMap Prod.snd)
      | missing => .incomplete missing := by
  unfold gather
  cases hmissing : overrides.missing reports <;> rw [missing_of_settled h, hmissing]

theorem isHeld_ok {held : Bool} {progress mid : Progress σ}
    (h : (isHeld collab limit p).on progress = (.ok held, mid)) :
    held = true ↔ p.lockBehavior ≠ .none ∧
      (collab.hasUnfinishedInstance p.name progress.world).1.answer = .ok true := by
  have hlocked : p.isLocked = true ↔ p.lockBehavior ≠ .none := bne_iff_ne
  unfold isHeld at h
  split at h
  · next hp =>
    have hanswer := (on_ask limit (collab.hasUnfinishedInstance p.name) progress).2.2 held (by rw [h])
    simp [hlocked.mp hp, hanswer]
  · next hp =>
    cases h
    simpa using fun hbehavior => absurd (hlocked.mpr hbehavior) hp

theorem ends_isHeld (limit : Option Nat) (hunfinished : (collab.hasUnfinishedInstance p.name).Answered Good)
    {progress : Progress σ} (hgood : Good progress.world) :
    Ends Good (isHeld collab limit p) progress fun interruption => interruption = .timedOut := by
  unfold isHeld
  split
  · exact ends_ask hunfinished hgood
  · exact hgood

/-- What speaks against an attempt that has a report on every material, and what is answered then. -/
def reportReasons (collab : Collaborators σ) (limit : Option Nat) (snapshot : Snapshot)
    (debounce : TimerDebounce) (p : Pipeline) (event : TriggerEvent) (progress : Progress σ)
    (reports : List (Material × Report)) (answer : Except Failure Outcome) : List (Prop × Prop) :=
  let missing := event.overrides.missing reports
  [(missing ≠ [],
    reports.map Prod.fst = p.materials ∧ answer = .ok (.rejected (.noModifications missing))),
  (True,
    reports.map Prod.fst = p.materials ∧ ∃ revisions outcome,
      Resolves collab limit snapshot p event.overrides progress revisions ∧
      revisions.map MaterialRevision.material = p.materials ∧ answer = .ok outcome ∧
      FirstThatApplies (revisionReasons debounce p event revisions outcome))]

/-- What speaks against an attempt once it asks the collaborators, and what is answered then. -/
def reasons (collab : Collaborators σ) (limit : Option Nat) (snapshot : Snapshot)
    (debounce : TimerDebounce) (p : Pipeline) (event : TriggerEvent) (progress : Progress σ)
    (answer : Except Failure Outcome) : List (Prop × Prop) :=
  let reports := reports collab limit snapshot p event.overrides progress
  (p.lockBehavior ≠ .none ∧ (collab.hasUnfinishedInstance p.name progress.world).1.answer = .ok true,
    answer = .ok (.rejected .locked)) ::
  (∃ key ∈ event.overrides.keys, ¬ p.HasMaterial key,
    ∃ key ∈ event.overrides.keys, ¬ p.HasMaterial key ∧ answer = .error (.materialNotFound p.name key)) ::
  (∃ m report wanted, (m, report) ∈ reports ∧ event.overrides.Unmatched m report wanted,
    ∃ m report wanted, (m, report) ∈ reports ∧ event.overrides.Unmatched m report wanted ∧
      answer = .error (.revisionNotFound m.fingerprint wanted)) ::
  reportReasons collab limit snapshot debounce p event progress reports answer

theorem decide_of_not_held {debounce : TimerDebounce} {event : TriggerEvent} {progress mid : Progress σ}
    (h : (isHeld collab limit p).on progress = (.ok false, mid)) :
    (decide collab limit snapshot debounce p event).on progress =
      match (resolve collab limit snapshot p event.overrides).on mid with
      | (.ok (.incomplete missing), last) => (.ok (.rejected (.noModifications missing)), last)
      | (.ok (.complete revisions), last) => (.ok (decideRevisions debounce p event revisions), last)
      | (.error interruption, last) => (.error interruption, last) := by
  simp only [decide, on_bind, h, Bool.false_eq_true, if_false]
  rcases (resolve collab limit snapshot p event.overrides).on mid with ⟨_ | missing | revisions, last⟩ <;> rfl

/-- When no material stops the attempt, the revisions decide. -/
theorem mapM_in_order {debounce : TimerDebounce} {event : TriggerEvent} {progress mid last : Progress σ}
    {answers : List (Material × Option MaterialRevision)} (timeoutSecs : Nat)
    (hheld : (isHeld collab limit p).on progress = (.ok false, mid))
    (hkey : event.overrides.unknownKey? p = none)
    (hmap : (p.materials.mapM (resolveMaterial collab limit snapshot p event.overrides)).on mid =
      (.ok answers, last)) :
    FirstThatApplies (reportReasons collab limit snapshot debounce p event progress
      (reportsOn collab limit snapshot p event.overrides p.materials mid)
      (((decide collab limit snapshot debounce p event).on progress).1.mapError
        (Session.failureOf timeoutSecs))) := by
  obtain ⟨hmaterials, hsettled⟩ := forall₂_settled hmap
  have hgather := gather_of_settled hsettled
  have hresolve : (resolve collab limit snapshot p event.overrides).on mid =
      (.ok (gather answers), last) := by
    rw [resolve_of_known hkey, on_bind, hmap]
    rfl
  rw [decide_of_not_held hheld, hresolve]
  unfold reportReasons
  cases hmissing : event.overrides.missing
      (reportsOn collab limit snapshot p event.overrides p.materials mid) with
  | cons name names =>
    rw [hmissing] at hgather
    rw [hgather]
    exact .here (List.cons_ne_nil name names) ⟨hmaterials, rfl⟩
  | nil =>
    rw [hmissing] at hgather
    have hrevisions := map_material_of_settled hsettled (map_snd_of_gather hgather)
    rw [hmaterials] at hrevisions
    rw [hgather] at hresolve ⊢
    exact .later (fun h => h rfl) (.here trivial ⟨hmaterials, _, _, ⟨mid, last, hheld, hresolve⟩,
      hrevisions, rfl, decideRevisions_in_order debounce p event hrevisions⟩)

theorem decide_in_order (hanswers : collab.Answers snapshot p Good) {debounce : TimerDebounce}
    {event : TriggerEvent} {progress : Progress σ} (hgood : Good progress.world) (timeoutSecs : Nat)
    (htime : ((decide collab limit snapshot debounce p event).on progress).1 ≠ .error .timedOut) :
    FirstThatApplies (reasons collab limit snapshot debounce p event progress
      (((decide collab limit snapshot debounce p event).on progress).1.mapError
        (Session.failureOf timeoutSecs))) := by
  have hunfinished := ends_isHeld limit hanswers.unfinished hgood
  rcases hheld : (isHeld collab limit p).on progress with ⟨interruption | _ | _, mid⟩
  · rw [Ends, hheld] at hunfinished
    subst hunfinished
    simp [decide, on_bind, hheld] at htime
  · rw [Ends, hheld] at hunfinished
    refine .later (fun h => Bool.false_ne_true ((isHeld_ok hheld).mpr h)) ?_
    rw [reports, hheld]
    dsimp only
    unfold resolveReports
    cases hkey : event.overrides.unknownKey? p with
    | some key =>
      obtain ⟨hmem, hunknown⟩ := Overrides.not_hasMaterial_of_unknownKey? hkey
      rw [decide_of_not_held hheld, resolve_of_unknownKey hkey]
      exact .here ⟨key, hmem, hunknown⟩ ⟨key, hmem, hunknown, rfl⟩
    | none =>
      have hknown := Overrides.unknownKey?_eq_none_iff.mp hkey
      have hkeys : ¬ ∃ key ∈ event.overrides.keys, ¬ p.HasMaterial key := by
        rintro ⟨key, hmem, hunknown⟩
        exact hunknown (hknown key hmem)
      refine .later hkeys ?_
      have hmapM := ends_mapM limit event.overrides hanswers.report hanswers.changed hunfinished
      rcases hmap : (p.materials.mapM (resolveMaterial collab limit snapshot p event.overrides)).on mid with
        ⟨interruption | answers, last⟩
      · rw [decide_of_not_held hheld, resolve_of_known hkey, on_bind, hmap] at htime ⊢
        rw [Ends, hmap] at hmapM
        rcases hmapM with rfl | ⟨m, report, wanted, hmem, hunmatched, rfl⟩
        · exact absurd rfl htime
        · exact .here ⟨m, report, wanted, hmem, hunmatched⟩
            ⟨m, report, wanted, hmem, hunmatched, rfl⟩
      · refine .later ?_ (mapM_in_order timeoutSecs hheld hkey hmap)
        rintro ⟨m, report, wanted, hmem, hunmatched⟩
        exact not_unmatched (forall₂_settled hmap).2 hmem wanted hunmatched
  · exact .here ((isHeld_ok hheld).mp rfl) (by simp [decide, on_bind, hheld]; rfl)

theorem ends_decide (hanswers : collab.Answers snapshot p Good) (debounce : TimerDebounce)
    (event : TriggerEvent) {progress : Progress σ} (hgood : Good progress.world) :
    Ends Good (decide collab limit snapshot debounce p event) progress fun _ => True := by
  have hunfinished := ends_isHeld limit hanswers.unfinished hgood
  refine (hunfinished.mono fun _ _ => trivial).bind fun held mid _ hmid => ?_
  split
  · exact hmid
  · have hresolve : Ends Good (resolve collab limit snapshot p event.overrides) mid fun _ => True := by
      cases hkey : event.overrides.unknownKey? p with
      | some key =>
        rw [resolve_of_unknownKey hkey]
        trivial
      | none =>
        rw [resolve_of_known hkey]
        have hmapM := ends_mapM limit event.overrides hanswers.report hanswers.changed hmid
        exact (hmapM.mono fun _ _ => trivial).bind fun _ _ _ hlast => hlast
    refine hresolve.bind fun resolution last _ hlast => ?_
    cases resolution <;> exact hlast

end Attempt

namespace Session

variable {collab : Collaborators σ} {p : Pipeline} {event : TriggerEvent} {Good : σ → Prop}

/-- What speaks against an attempt on a pipeline, and what is answered then. -/
def reasons (collab : Collaborators σ) (s : Session σ) (p : Pipeline) (event : TriggerEvent)
    (answer : Except Failure Outcome) : List (Prop × Prop) :=
  (event.kind = .timer ∧ p.timer = none, answer = .error (.noTimer p.name)) ::
  (s.ForcedPending p.name, answer = .ok (.rejected .alreadyScheduled)) ::
  Attempt.reasons collab (some (s.engine.settings.resolutionTimeout.toNat * 1000)) s.engine.snapshot
    s.engine.debounce p event s.progress answer

/-- An attempt answers with its decision when the queue takes causes. -/
theorem attempt_answer {s : Session σ} (hanswers : collab.Answers s.engine.snapshot p Good)
    (hgood : Good s.world) :
    (s.attempt collab p event).1 = ((s.decision collab p event).on s.progress).1.mapError
      (failureOf s.engine.settings.resolutionTimeout.toNat) := by
  have hends : Attempt.Ends Good (s.decision collab p event) s.progress fun _ => True :=
    Attempt.ends_decide hanswers s.engine.debounce event hgood
  rw [attempt_eq, perform_eq]
  rcases hon : (s.decision collab p event).on s.progress with ⟨interruption | cause | rejection, last⟩
  · rfl
  · rw [Attempt.Ends, hon] at hends
    simp [conclude, hanswers.enqueue _ hends, Except.mapError]
  · rfl

/-- The answer to an attempt on a declared pipeline is what the first reason that applies calls for. The
collaborators answer, and in time. -/
theorem answered_in_order (collab : Collaborators σ) (Good : σ → Prop) (s : Session σ)
    (name : PipelineName) (event : TriggerEvent) (p : Pipeline)
    (hp : s.engine.snapshot.pipeline? name = some p)
    (hanswers : collab.Answers s.engine.snapshot p Good) (hgood : Good s.world)
    (htime : ((s.decision collab p event).on s.progress).1 ≠ .error .timedOut) :
    FirstThatApplies (s.reasons collab p event (s.schedule collab name event).1) := by
  have hqueue := hanswers.pending s.world hgood
  refine .cons (fun ⟨hkind, hnone⟩ => by simp [schedule, hp, hkind, hnone]) fun htimer => ?_
  have htimed : event.kind = .timer → p.timer ≠ none := fun hkind hnone => htimer ⟨hkind, hnone⟩
  refine .cons (fun hforced => ?_) fun hfree => ?_
  · rw [forcedPending_congr s (same_of_pipeline? hp)] at hforced
    rw [(turnedAway_of_forcedPending event hforced).scheduled p hp htimed, hqueue]
  · rw [schedule_eq_attempt hp htimed hqueue hfree, attempt_answer (s := s.lock name) hanswers hgood]
    exact Attempt.decide_in_order hanswers hgood _ htime

end Session

/-! ### Collaborators in memory -/

namespace InMemory

/-- Nothing that an attempt asks is out of order. -/
structure InOrder (w : InMemory) : Prop where
  failure : w.failure = none
  outages : ∀ call, w.outages call = none

theorem answers_inOrder (snapshot : Snapshot) (p : Pipeline) :
    collaborators.Answers snapshot p InOrder := by
  have hpolled : ∀ {α : Type} (answer : InMemory → α),
      Call.Answered InOrder fun w => (w.polled (answer w), w) := by
    intro α answer w hw
    exact ⟨⟨answer w, by simp [polled, hw.failure]⟩, hw⟩
  have hserved : ∀ {α : Type} (call : OutageCall) (failure : String → Failure) (answer : InMemory → α),
      Call.Answered InOrder fun w => (w.served call failure (answer w), w) := by
    intro α call failure answer w hw
    exact ⟨⟨answer w, by simp [served, hw.outages]⟩, hw⟩
  refine ⟨hserved _ _ _, fun m _ => ?_, fun m _ => hpolled _, fun w hw => hw.outages _,
    fun w hw => hw.outages _⟩
  have hmap : ∀ {α β : Type} (f : α → β) {call : Call InMemory α}, call.Answered InOrder →
      (call.map f).Answered InOrder := by
    intro α β f call hcall w hw
    obtain ⟨⟨a, ha⟩, hnext⟩ := hcall w hw
    exact ⟨⟨f a, by rw [Call.map, Reply.map, ha]; rfl⟩, hnext⟩
  unfold Collaborators.reportOn
  split
  · exact hmap _ (hserved _ _ _)
  · refine hmap _ ?_
    split
    · exact hpolled _
    · intro w hw
      refine ⟨⟨w.history m.fingerprint, by simp [collaborators, polled, hw.failure]⟩, ?_⟩
      simp only [collaborators, hw.failure, Option.isSome_none, Bool.false_eq_true, if_false]
      exact ⟨rfl, hw.outages⟩

end InMemory

namespace Session

def askedOfApp : Overrides := SortedMap.ofList [((Material.git "app").fingerprint.text, "r9")]

/-- Builds from a repository without a check-in, and from another one. -/
def halfEmpty : Pipeline := Samples.withMaterials ⟨"app"⟩ [.git "lib", .git "app"]

def halfEmptyConfiguration : Configuration := { pipelines := [halfEmpty] }

def otherCheckIn : List Operation := [.world (.checkIn (.git "app") (Samples.checkIn "r1" 0))]

def halfCheckedIn : Session InMemory := reading {} halfEmptyConfiguration otherCheckIn

theorem halfCheckedIn_eq : halfCheckedIn = (published {} halfEmptyConfiguration).run .inMemory otherCheckIn :=
  reading_eq (by decide +kernel) {} _

set_option maxRecDepth 100000 in
/-- A material without a revision counts after one whose wanted revision is not listed. -/
theorem unlisted_revision_answered_first :
    (halfCheckedIn.schedule InMemory.collaborators ⟨"app"⟩ (.manual "alice" askedOfApp)).1 =
      .error (.revisionNotFound (Material.git "app").fingerprint "r9") ∧
    FirstThatApplies (halfCheckedIn.reasons InMemory.collaborators halfEmpty (.manual "alice" askedOfApp)
      (.error (.revisionNotFound (Material.git "app").fingerprint "r9"))) := by
  obtain ⟨hp, hdecision, hfree⟩ : halfCheckedIn.engine.snapshot.pipeline? ⟨"app"⟩ = some halfEmpty ∧
      ((halfCheckedIn.decision InMemory.collaborators halfEmpty (.manual "alice" askedOfApp)).on
        halfCheckedIn.progress).1 = .error (.failed (.revisionNotFound (Material.git "app").fingerprint "r9")) ∧
      ¬ halfCheckedIn.ForcedPending halfEmpty.name := by
    rw [halfCheckedIn_eq]
    decide +kernel
  have hinOrder : halfCheckedIn.world.InOrder := by
    rw [halfCheckedIn_eq]
    exact ⟨rfl, fun _ => rfl⟩
  have hanswers := InMemory.answers_inOrder halfCheckedIn.engine.snapshot halfEmpty
  have hanswer : (halfCheckedIn.schedule InMemory.collaborators ⟨"app"⟩ (.manual "alice" askedOfApp)).1 =
      .error (.revisionNotFound (Material.git "app").fingerprint "r9") := by
    rw [schedule_eq_attempt hp (fun hkind => by cases hkind) (hanswers.pending _ hinOrder) hfree,
      attempt_answer (s := halfCheckedIn.lock ⟨"app"⟩) hanswers hinOrder, lock_decision, hdecision]
    rfl
  refine ⟨hanswer, hanswer ▸ ?_⟩
  exact answered_in_order InMemory.collaborators InMemory.InOrder halfCheckedIn ⟨"app"⟩
    (.manual "alice" askedOfApp) halfEmpty hp hanswers hinOrder (by simp [hdecision])

end Session

end BuildScheduling
