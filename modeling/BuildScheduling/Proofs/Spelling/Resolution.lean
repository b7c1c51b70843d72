import BuildScheduling.Proofs.Engine.Attempt
import BuildScheduling.Proofs.Spelling.Configuration

/-!
# Resolving under another spelling

The materials of a respelt pipeline are resolved as those of the pipeline: the collaborators are asked the same
questions in the same order (`Collaborators.reportOn_respelt`), so the answers come from the same worlds, and what is
known of a material is kept under its fingerprint. Two computations go side by side (`Attempt.Matches`): they leave the
same progress, break off alike, and their answers differ in spelling only. That carries over from one material to a list
of them and to the whole decision.

The history of a stage is kept outside, and it has to be found under every spelling of its names
(`Collaborators.FoldsNames`). The collaborators in memory keep it in maps with names for keys, so for them it is.
-/

namespace BuildScheduling

/-- The history of a stage is the same under every spelling of its names. -/
def Collaborators.FoldsNames {σ : Type} (collab : Collaborators σ) : Prop :=
  ∀ (pipeline pipeline' : PipelineName) (stage stage' : StageName), pipeline.same pipeline' = true →
    stage.same stage' = true → collab.stageRuns pipeline stage = collab.stageRuns pipeline' stage'

/-! ### What is answered -/

/-- Either both fail in the same way, or both succeed with something related. -/
inductive AnswersAlike {ε α β : Type} (R : α → β → Prop) : Except ε α → Except ε β → Prop
  | error (e : ε) : AnswersAlike R (.error e) (.error e)
  | ok {a : α} {b : β} (h : R a b) : AnswersAlike R (.ok a) (.ok b)

theorem AnswersAlike.mapError {ε ε' α β : Type} {R : α → β → Prop} {x : Except ε α} {y : Except ε β}
    (h : AnswersAlike R x y) (f : ε → ε') : AnswersAlike R (x.mapError f) (y.mapError f) := by
  cases h with
  | error e => exact .error (f e)
  | ok h => exact .ok h

inductive MaterialRevision.RespeltAs : MaterialRevision → MaterialRevision → Prop
  | intro {material material' : Material} (hmaterial : material.RespeltAs material') (revision : Revision)
      (changed : Bool) : RespeltAs ⟨material, revision, changed⟩ ⟨material', revision, changed⟩

/-- The same revisions for the same materials, or none for the same materials. -/
inductive Resolution.RespeltAs : Resolution → Resolution → Prop
  | complete {revisions revisions' : List MaterialRevision}
      (h : List.Forall₂ MaterialRevision.RespeltAs revisions revisions') :
      RespeltAs (.complete revisions) (.complete revisions')
  | incomplete {missing missing' : List String} (h : missing.map foldCase = missing'.map foldCase) :
      RespeltAs (.incomplete missing) (.incomplete missing')

theorem AnswersAlike.complete {ε : Type} {x y : Except ε Resolution} (h : AnswersAlike Resolution.RespeltAs x y)
    {revisions : List MaterialRevision} (hx : x = .ok (.complete revisions)) :
    ∃ revisions', y = .ok (.complete revisions') ∧
      revisions'.map MaterialRevision.revision = revisions.map MaterialRevision.revision := by
  subst hx
  cases h with
  | ok hresolution =>
    cases hresolution with
    | @complete _ revisions' hrevisions =>
      exact ⟨revisions', rfl, (map_eq_of_forall₂ hrevisions fun r r' hr => by cases hr; rfl).symm⟩

inductive BuildCause.RespeltAs : BuildCause → BuildCause → Prop
  | intro {revisions revisions' : List MaterialRevision}
      (hrevisions : List.Forall₂ MaterialRevision.RespeltAs revisions revisions') (trigger : TriggerKind)
      (message approver : String) :
      RespeltAs ⟨revisions, trigger, message, approver⟩ ⟨revisions', trigger, message, approver⟩

inductive Outcome.RespeltAs : Outcome → Outcome → Prop
  | succeeded {cause cause' : BuildCause} (h : cause.RespeltAs cause') :
      RespeltAs (.succeeded cause) (.succeeded cause')
  | noModifications {missing missing' : List String} (h : missing.map foldCase = missing'.map foldCase) :
      RespeltAs (.rejected (.noModifications missing)) (.rejected (.noModifications missing'))
  | rejected (rejection : Rejection) : RespeltAs (.rejected rejection) (.rejected rejection)

theorem Pipeline.RespeltAs.ownOrigin? {p p' : Pipeline} (h : p.RespeltAs p') : p.ownOrigin? = p'.ownOrigin? := by
  have hown : ∀ material : Fingerprint,
      (p.materials.any fun m => m.fingerprint == material) = p'.materials.any fun m => m.fingerprint == material :=
    fun material => any_of_forall₂ h.materials fun _ _ hm => by rw [hm.fingerprint]
  rw [Pipeline.ownOrigin?, Pipeline.ownOrigin?, ← h.origin]
  cases p.origin with
  | «local» => rfl
  | remote material revision => simp only [hown]

section

variable {revisions revisions' : List MaterialRevision}
  (h : List.Forall₂ MaterialRevision.RespeltAs revisions revisions')

include h

theorem revisionSet_respelt : revisionSet revisions = revisionSet revisions' := by
  refine congrArg SortedMap.ofList (map_eq_of_forall₂ h fun r r' hr => ?_)
  obtain ⟨hmaterial, revision, changed⟩ := hr
  exact congrArg (·, revision.identifier) hmaterial.checkoutFingerprint

variable {p p' : Pipeline} (hp : p.RespeltAs p')

include hp

theorem fitsOrigin_respelt (trigger : TriggerKind) (message approver : String) :
    (⟨revisions, trigger, message, approver⟩ : BuildCause).fitsOrigin p =
      (⟨revisions', trigger, message, approver⟩ : BuildCause).fitsOrigin p' := by
  rw [BuildCause.fitsOrigin, BuildCause.fitsOrigin, hp.ownOrigin?]
  cases p'.ownOrigin? with
  | none => rfl
  | some own =>
    refine List.all_eq_not_any_not.trans (Eq.trans (congrArg (!·) ?_) List.all_eq_not_any_not.symm)
    refine any_of_forall₂ h fun r r' hr => ?_
    obtain ⟨hmaterial, revision, changed⟩ := hr
    rw [hmaterial.fingerprint]
    rfl

/-- The revision that a pipeline was read at is held against the same revisions. -/
theorem consistent_respelt (trigger : TriggerKind) (message approver : String) :
    (consistent p ⟨revisions, trigger, message, approver⟩).RespeltAs
      (consistent p' ⟨revisions', trigger, message, approver⟩) := by
  rw [consistent, consistent, ← hp.origin]
  cases p.origin with
  | «local» => exact .succeeded (.intro h trigger message approver)
  | remote material expected =>
    dsimp only
    rw [← fitsOrigin_respelt h hp]
    split
    · exact .succeeded (.intro h trigger message approver)
    · have hactual : (revisions.find? fun r => r.material.fingerprint == material && r.id != expected).map
          MaterialRevision.id =
            (revisions'.find? fun r => r.material.fingerprint == material && r.id != expected).map
              MaterialRevision.id := by
        refine map_eq_of_rel (find?_of_forall₂ h fun r r' hr => ?_) fun r r' hr => ?_
        · obtain ⟨hmaterial, revision, changed⟩ := hr
          rw [hmaterial.fingerprint]
          rfl
        · cases hr
          rfl
      rw [hactual]
      exact .rejected _

theorem decideRevisions_respelt (debounce : TimerDebounce) (event : TriggerEvent) :
    (decideRevisions debounce p event revisions).RespeltAs (decideRevisions debounce p' event revisions') := by
  cases event with
  | auto => exact consistent_respelt h hp .auto _ _
  | manual user overrides => exact .succeeded (.intro h .manual _ _)
  | timer =>
    rw [decideRevisions, decideRevisions, TimerDebounce.hasRunWith, TimerDebounce.hasRunWith, revisionSet_respelt h,
      hp.timer, hp.name]
    split
    · exact .rejected _
    · exact consistent_respelt h hp .timer _ _

end

namespace Attempt

variable {σ α β γ δ : Type} {R : α → β → Prop} {S : γ → δ → Prop}

/-- Two computations leave the same progress, and break off alike or have related answers. -/
def Matches (R : α → β → Prop) (x : Attempt σ α) (y : Attempt σ β) : Prop :=
  ∀ progress, AnswersAlike R (x.on progress).1 (y.on progress).1 ∧ (x.on progress).2 = (y.on progress).2

theorem matches_pure {a : α} {b : β} (h : R a b) : Matches R (pure a : Attempt σ α) (pure b) :=
  fun _ => ⟨.ok h, rfl⟩

theorem matches_self (x : Attempt σ α) : Matches Eq x x := by
  refine fun progress => ⟨?_, rfl⟩
  cases (x.on progress).1 with
  | error interruption => exact .error interruption
  | ok a => exact .ok rfl

theorem Matches.bind {x : Attempt σ α} {y : Attempt σ β} {f : α → Attempt σ γ} {g : β → Attempt σ δ}
    (hxy : Matches R x y) (hfg : ∀ a b, R a b → Matches S (f a) (g b)) : Matches S (x >>= f) (y >>= g) := by
  intro progress
  obtain ⟨hanswer, hmid⟩ := hxy progress
  rw [on_bind, on_bind]
  revert hanswer hmid
  rcases x.on progress with ⟨a, mid⟩
  rcases y.on progress with ⟨b, mid'⟩
  rintro (⟨interruption⟩ | hab) rfl
  · exact ⟨.error interruption, rfl⟩
  · exact hfg _ _ hab mid

theorem Matches.mapM {f : α → Attempt σ γ} {g : β → Attempt σ δ} (hfg : ∀ a b, R a b → Matches S (f a) (g b))
    {l : List α} {l' : List β} (h : List.Forall₂ R l l') : Matches (List.Forall₂ S) (l.mapM f) (l'.mapM g) := by
  induction h with
  | nil => exact matches_pure .nil
  | cons hab _ ih =>
    rw [List.mapM_cons, List.mapM_cons]
    exact (hfg _ _ hab).bind fun c d hcd => ih.bind fun cs ds hrest => matches_pure (.cons hcd hrest)

end Attempt

/-! ### One material -/

section

variable {σ : Type} {collab : Collaborators σ} (hfolds : collab.FoldsNames) {limit : Option Nat}
  {snapshot snapshot' : Snapshot} (hsnapshot : snapshot.RespeltAs snapshot') {m m' : Material} (hm : m.RespeltAs m')
  {p p' : Pipeline} (hp : p.RespeltAs p') (overrides : Overrides)

include hm in
theorem Overrides.wanted?_respelt : overrides.wanted? m = overrides.wanted? m' := by
  rw [wanted?, wanted?, hm.checkoutFingerprint, hm.fingerprint]

include hp in
theorem Overrides.unknownKey?_respelt : overrides.unknownKey? p = overrides.unknownKey? p' := by
  rw [unknownKey?, unknownKey?]
  refine congrArg (List.find? · _) (funext fun key => congrArg (!·) ?_)
  exact any_of_forall₂ hp.materials fun _ _ hm => by rw [hm.checkoutFingerprint, hm.fingerprint]

include hfolds hsnapshot hm in
/-- The same question is asked for a material. -/
theorem Collaborators.reportOn_respelt : collab.reportOn snapshot m = collab.reportOn snapshot' m' := by
  obtain ⟨hnone, -⟩ | ⟨named, named', hnamed, hnamed', hpipeline, hstage⟩ := cases_of_rel hm.dependency?
  · obtain rfl := hm.eq_of_not_dependency hnone
    rw [reportOn, reportOn, hnone, hsnapshot.pollable]
  · rw [reportOn, reportOn, hnamed, hnamed']
    exact congrArg (Call.map Report.runs) (hfolds _ _ _ _ hpipeline hstage)

namespace Attempt

/-- The answers for one material. -/
def AnswerRespelt (a a' : Material × Option MaterialRevision) : Prop :=
  a.1.RespeltAs a'.1 ∧ Option.Rel MaterialRevision.RespeltAs a.2 a'.2

include hm hp in
theorem answerFor_respelt (revision : Option Revision) :
    Matches AnswerRespelt (answerFor collab limit p m revision) (answerFor collab limit p' m' revision) := by
  cases revision with
  | none => exact matches_pure ⟨hm, .none⟩
  | some revision =>
    rw [answerFor, answerFor, hp.name, hm.fingerprint]
    refine (matches_self _).bind fun changed _ hchanged => ?_
    cases hchanged
    exact matches_pure ⟨hm, .some (.intro hm revision changed)⟩

include hm in
/-- What is known of a material is kept under its fingerprint. -/
theorem update_respelt (revisions : List Revision) :
    (update m revisions : Attempt σ (Option Revision)) = update m' revisions := by
  rw [update, update, hm.fingerprint]

include hm hp in
theorem settle_respelt (report : Report) :
    Matches AnswerRespelt (settle collab limit p overrides m report) (settle collab limit p' overrides m' report) := by
  rw [settle, settle, overrides.wanted?_respelt hm, hm.fingerprint]
  cases overrides.wanted? m' with
  | some wanted =>
    dsimp only
    cases report.named? wanted with
    | some revision => exact answerFor_respelt hm hp revision
    | none => exact fun progress => ⟨.error _, rfl⟩
  | none =>
    dsimp only
    rw [update_respelt hm]
    refine (matches_self _).bind fun revision _ hrevision => ?_
    cases hrevision
    exact answerFor_respelt hm hp revision

include hfolds hsnapshot hp in
theorem resolveMaterial_respelt (hm : m.RespeltAs m') :
    Matches AnswerRespelt (resolveMaterial collab limit snapshot p overrides m)
      (resolveMaterial collab limit snapshot' p' overrides m') := by
  rw [resolveMaterial_eq, resolveMaterial_eq, Collaborators.reportOn_respelt hfolds hsnapshot hm]
  refine (matches_self _).bind fun report _ hreport => ?_
  cases hreport
  exact settle_respelt hm hp overrides report

theorem gather_respelt {answers answers' : List (Material × Option MaterialRevision)}
    (h : List.Forall₂ AnswerRespelt answers answers') : (gather answers).RespeltAs (gather answers') := by
  have hrevisions :
      List.Forall₂ MaterialRevision.RespeltAs (answers.filterMap Prod.snd) (answers'.filterMap Prod.snd) :=
    List.rel_filterMap (fun _ _ ha => ha.2) h
  have hmissing : (answers.filterMap fun a => if a.2.isNone then some a.1.displayName else none).map foldCase =
      (answers'.filterMap fun a => if a.2.isNone then some a.1.displayName else none).map foldCase := by
    rw [List.map_filterMap, List.map_filterMap]
    refine filterMap_eq_of_forall₂ h fun a a' ha => ?_
    obtain ⟨hmaterial, hrevision⟩ := ha
    obtain ⟨hnone, hnone'⟩ | ⟨revision, revision', hsome, hsome', -⟩ := cases_of_rel hrevision
    · rw [hnone, hnone']
      exact congrArg some hmaterial.displayName
    · rw [hsome, hsome']
      rfl
  rw [gather, gather]
  revert hmissing
  generalize (answers.filterMap fun a => if a.2.isNone then some a.1.displayName else none) = missing
  generalize (answers'.filterMap fun a => if a.2.isNone then some a.1.displayName else none) = missing'
  cases missing <;> cases missing' <;> intro hmissing
  · exact .complete hrevisions
  · cases hmissing
  · cases hmissing
  · exact .incomplete hmissing

include hfolds hsnapshot hp in
theorem resolve_respelt :
    Matches Resolution.RespeltAs (resolve collab limit snapshot p overrides)
      (resolve collab limit snapshot' p' overrides) := by
  cases hkey : overrides.unknownKey? p with
  | some key =>
    rw [resolve_of_unknownKey hkey, resolve_of_unknownKey ((overrides.unknownKey?_respelt hp).symm.trans hkey), hp.name]
    exact fun progress => ⟨.error _, rfl⟩
  | none =>
    rw [resolve_of_known hkey, resolve_of_known ((overrides.unknownKey?_respelt hp).symm.trans hkey)]
    have hall : Matches (List.Forall₂ AnswerRespelt)
        (p.materials.mapM (resolveMaterial collab limit snapshot p overrides))
        (p'.materials.mapM (resolveMaterial collab limit snapshot' p' overrides)) :=
      .mapM (fun m m' hm => resolveMaterial_respelt hfolds hsnapshot hp overrides hm) hp.materials
    exact hall.bind fun answers answers' hanswers => matches_pure (gather_respelt hanswers)

include hfolds hsnapshot hp in
theorem decide_respelt (debounce : TimerDebounce) (event : TriggerEvent) :
    Matches Outcome.RespeltAs (decide collab limit snapshot debounce p event)
      (decide collab limit snapshot' debounce p' event) := by
  have hheld : isHeld collab limit p = isHeld collab limit p' := by rw [isHeld, isHeld, hp.isLocked, hp.name]
  rw [decide, decide, hheld]
  refine (matches_self _).bind fun held _ hsame => ?_
  cases hsame
  cases held with
  | true => exact matches_pure (.rejected _)
  | false =>
    refine (resolve_respelt hfolds hsnapshot hp event.overrides).bind fun resolution resolution' hresolution => ?_
    cases hresolution with
    | complete hrevisions => exact matches_pure (decideRevisions_respelt hrevisions hp debounce event)
    | incomplete hmissing => exact matches_pure (.noModifications hmissing)

end Attempt

end

end BuildScheduling
