import BuildScheduling.Proofs.Engine.History
import BuildScheduling.Samples
import Mathlib.Data.List.Forall2
import Mathlib.Data.List.Induction

/-!
# When two lists of revisions are the same run

The timers remember a map, and the causes and candidates they compare are lists. A list may mention a checkout more than
once, and only its last mention shows in the map. So two lists are the same run when they mention the same checkouts and
their last mentions of each give the same revision (`revisionSet_eq_iff`).

All else may be told in another way: the flags, the details of the revisions, how a material is called and whether it is
polled. The order may be another one too where a list does not mention a checkout with two revisions, and for no other list
may it be any (`revisionSet_perm_iff`): of two revisions of a checkout either one can be put last.

What is remembered of a pipeline is the last cause that was recorded for it, if the pipeline was not forgotten since
(`TimerDebounce.get?_after_iff`).
-/

namespace BuildScheduling

/-- The last entry of a list that a condition holds of. -/
def IsLast {α : Type} (p : α → Prop) (l : List α) (a : α) : Prop :=
  ∃ before since, l = before ++ a :: since ∧ p a ∧ ∀ b ∈ since, ¬ p b

theorem IsLast.mem {α : Type} {p : α → Prop} {l : List α} {a : α} (h : IsLast p l a) : a ∈ l := by
  obtain ⟨before, since, rfl, -⟩ := h
  exact List.mem_append_right _ List.mem_cons_self

theorem isLast_concat {α : Type} {p : α → Prop} {l : List α} {a b : α} :
    IsLast p (l ++ [b]) a ↔ (a = b ∧ p b) ∨ ¬ p b ∧ IsLast p l a := by
  have hsplit : ∀ l, IsLast p l a ↔
      ∃ before d since, l = before ++ d :: since ∧ (a = d ∧ p d) ∧ ∀ b ∈ since, ¬ p b := by
    intro l
    constructor
    · rintro ⟨before, since, hl, ha, hsince⟩
      exact ⟨before, a, since, hl, ⟨rfl, ha⟩, hsince⟩
    · rintro ⟨before, _, since, hl, ⟨rfl, ha⟩, hsince⟩
      exact ⟨before, since, hl, ha, hsince⟩
  rw [hsplit, hsplit, exists_split_concat]

/-! ### The last mention of a checkout -/

def Mentions (revisions : List MaterialRevision) (checkout : Fingerprint) : Prop :=
  ∃ r ∈ revisions, r.material.checkoutFingerprint = checkout

/-- The last entry of a list for a checkout. -/
abbrev LastFor (revisions : List MaterialRevision) (checkout : Fingerprint) (r : MaterialRevision) : Prop :=
  IsLast (fun r => r.material.checkoutFingerprint = checkout) revisions r

variable {revisions revisions' : List MaterialRevision} {checkout : Fingerprint} {r : MaterialRevision}

theorem LastFor.checkoutFingerprint_eq (h : LastFor revisions checkout r) :
    r.material.checkoutFingerprint = checkout := by
  obtain ⟨-, -, -, hcheckout, -⟩ := h
  exact hcheckout

theorem mentions_concat {last : MaterialRevision} :
    Mentions (revisions ++ [last]) checkout ↔
      last.material.checkoutFingerprint = checkout ∨ Mentions revisions checkout := by
  simp [Mentions, or_and_right, exists_or, or_comm]

/-- What is mentioned is mentioned for a last time. -/
theorem exists_lastFor_iff : (∃ r, LastFor revisions checkout r) ↔ Mentions revisions checkout := by
  induction revisions using List.reverseRecOn with
  | nil => simp [IsLast, Mentions]
  | append_singleton first last ih =>
    rw [mentions_concat, ← ih]
    by_cases hlast : last.material.checkoutFingerprint = checkout <;> simp [isLast_concat, hlast]

/-! ### The map of a list -/

theorem revisionSet_concat (revisions : List MaterialRevision) (last : MaterialRevision) :
    revisionSet (revisions ++ [last]) = (revisionSet revisions).insert last.material.checkoutFingerprint last.id := by
  rw [revisionSet, List.map_append]
  exact SortedMap.ofList_concat _ _

/-- The map holds the revision of the last mention. -/
theorem get?_revisionSet_eq_some_iff {id : String} :
    (revisionSet revisions).get? checkout = some id ↔ ∃ r, LastFor revisions checkout r ∧ r.id = id := by
  -- from the last entry back to the first, the way a reader looks for the last mention
  induction revisions using List.reverseRecOn with
  | nil => simp [IsLast, revisionSet, SortedMap.ofList]
  | append_singleton first last ih =>
    rw [revisionSet_concat, SortedMap.get?_insert]
    by_cases hlast : last.material.checkoutFingerprint = checkout
    · rw [if_pos (Fingerprint.compare_eq_iff.mpr hlast.symm)]
      simp [isLast_concat, hlast]
    · rw [if_neg (fun h => hlast (Fingerprint.compare_eq_iff.mp h).symm), ih]
      simp [isLast_concat, hlast]

theorem LastFor.get?_eq (h : LastFor revisions checkout r) : (revisionSet revisions).get? checkout = some r.id :=
  get?_revisionSet_eq_some_iff.mpr ⟨r, h, rfl⟩

theorem isSome_get?_revisionSet : ((revisionSet revisions).get? checkout).isSome = true ↔ Mentions revisions checkout := by
  rw [← exists_lastFor_iff, Option.isSome_iff_exists]
  constructor
  · rintro ⟨id, hid⟩
    obtain ⟨r, hr, -⟩ := get?_revisionSet_eq_some_iff.mp hid
    exact ⟨r, hr⟩
  · rintro ⟨r, hr⟩
    exact ⟨r.id, hr.get?_eq⟩

/-- Two lists mention the same checkouts, and each for the last time with the same revision. -/
structure SameRevisions (revisions revisions' : List MaterialRevision) : Prop where
  checkouts : ∀ checkout, Mentions revisions checkout ↔ Mentions revisions' checkout
  ids : ∀ checkout r r', LastFor revisions checkout r → LastFor revisions' checkout r' → r.id = r'.id

theorem SameRevisions.symm (h : SameRevisions revisions revisions') : SameRevisions revisions' revisions :=
  ⟨fun checkout => (h.checkouts checkout).symm, fun checkout r r' hr hr' => (h.ids checkout r' r hr' hr).symm⟩

theorem SameRevisions.get?_eq_some {id : String} (h : SameRevisions revisions revisions')
    (hid : (revisionSet revisions).get? checkout = some id) : (revisionSet revisions').get? checkout = some id := by
  obtain ⟨r, hr, rfl⟩ := get?_revisionSet_eq_some_iff.mp hid
  obtain ⟨r', hr'⟩ := exists_lastFor_iff.mpr ((h.checkouts checkout).mp (exists_lastFor_iff.mp ⟨r, hr⟩))
  rw [hr'.get?_eq, h.ids checkout r r' hr hr']

/-- Two lists have one map exactly when they mention the same checkouts, and each for the last time with the same
revision. -/
theorem revisionSet_eq_iff : revisionSet revisions = revisionSet revisions' ↔ SameRevisions revisions revisions' := by
  constructor
  · intro h
    refine ⟨fun checkout => ?_, fun checkout r r' hr hr' => ?_⟩
    · rw [← isSome_get?_revisionSet, ← isSome_get?_revisionSet, h]
    · have hid := hr.get?_eq
      rw [h, hr'.get?_eq] at hid
      exact (Option.some.inj hid).symm
  · intro h
    refine SortedMap.ext_get? fun checkout => Option.ext fun id => ?_
    exact ⟨h.get?_eq_some, h.symm.get?_eq_some⟩

/-- An entry counts for nothing if its checkout is mentioned again. -/
theorem sameRevisions_cons_of_mentions (h : Mentions revisions r.material.checkoutFingerprint) :
    SameRevisions (r :: revisions) revisions := by
  refine ⟨fun checkout => ⟨?_, ?_⟩, fun checkout last last' hlast hlast' => ?_⟩
  · rintro ⟨other, hother, rfl⟩
    rcases List.mem_cons.mp hother with rfl | hother
    · exact h
    · exact ⟨other, hother, rfl⟩
  · rintro ⟨other, hother, hcheckout⟩
    exact ⟨other, List.mem_cons_of_mem r hother, hcheckout⟩
  · obtain ⟨before, since, hsplit, hcheckout, hsince⟩ := hlast
    cases before with
    | nil =>
      -- the entry itself would be the last mention
      obtain ⟨rfl, rfl⟩ := List.cons.inj hsplit
      obtain ⟨other, hother, hmentioned⟩ := h
      exact absurd (hmentioned.trans hcheckout) (hsince other hother)
    | cons _ before =>
      obtain ⟨-, rfl⟩ := List.cons.inj hsplit
      have hlast : LastFor (before ++ last :: since) checkout last := ⟨before, since, rfl, hcheckout, hsince⟩
      exact Option.some.inj (hlast.get?_eq.symm.trans hlast'.get?_eq)

/-! ### Another order -/

/-- No checkout is mentioned with two revisions. -/
def OneRevisionEach (revisions : List MaterialRevision) : Prop :=
  ∀ r ∈ revisions, ∀ r' ∈ revisions, r.material.checkoutFingerprint = r'.material.checkoutFingerprint → r.id = r'.id

/-- The order does not matter for exactly those lists that mention no checkout with two revisions. -/
theorem revisionSet_perm_iff :
    (∀ order, revisions.Perm order → revisionSet revisions = revisionSet order) ↔ OneRevisionEach revisions := by
  constructor
  · intro h r hr r' hr' hsame
    -- each of the two can be the last entry
    have hlast : ∀ r ∈ revisions,
        (revisionSet revisions).get? r.material.checkoutFingerprint = some r.id := by
      intro r hr
      have hperm : revisions.Perm (revisions.erase r ++ [r]) :=
        (List.perm_cons_erase hr).trans (List.perm_append_singleton r _).symm
      have hput : LastFor (revisions.erase r ++ [r]) r.material.checkoutFingerprint r :=
        isLast_concat.mpr (Or.inl ⟨rfl, rfl⟩)
      rw [h _ hperm, hput.get?_eq]
    have hid := hlast r hr
    rw [hsame, hlast r' hr'] at hid
    exact (Option.some.inj hid).symm
  · intro hone order hperm
    refine revisionSet_eq_iff.mpr ⟨fun checkout => ?_, fun checkout r r' hr hr' => ?_⟩
    · simp only [Mentions, hperm.mem_iff]
    · have hsame := hr.checkoutFingerprint_eq.trans hr'.checkoutFingerprint_eq.symm
      exact hone r hr.mem r' (hperm.mem_iff.mpr hr'.mem) hsame

/-! ### Telling it in another way -/

/-- The same revision of the same checkout. The flag and the details of the revision may differ, and so may the name of the
material and whether it is polled. -/
structure MaterialRevision.RetoldAs (r r' : MaterialRevision) : Prop where
  source : r.material.source = r'.material.source
  destination : r.material.destination = r'.material.destination
  id : r.id = r'.id

theorem MaterialRevision.RetoldAs.checkoutFingerprint {r r' : MaterialRevision} (h : r.RetoldAs r') :
    r.material.checkoutFingerprint = r'.material.checkoutFingerprint := by
  simp only [Material.checkoutFingerprint, Material.checkoutSource, Material.fingerprint, h.source, h.destination]

/-- A list of revisions is told in another way: entry by entry, in another order where no checkout has two revisions, or
one after the other. -/
inductive Retold : List MaterialRevision → List MaterialRevision → Prop
  | entries {revisions revisions' : List MaterialRevision}
      (h : List.Forall₂ MaterialRevision.RetoldAs revisions revisions') : Retold revisions revisions'
  | order {revisions revisions' : List MaterialRevision} (h : revisions.Perm revisions')
      (hone : OneRevisionEach revisions) : Retold revisions revisions'
  | trans {revisions between revisions' : List MaterialRevision} (h : Retold revisions between)
      (h' : Retold between revisions') : Retold revisions revisions'

theorem Retold.revisionSet_eq (h : Retold revisions revisions') : revisionSet revisions = revisionSet revisions' := by
  induction h with
  | entries h =>
    refine congrArg SortedMap.ofList ?_
    rw [← List.forall₂_eq_eq_eq, List.forall₂_map_left_iff, List.forall₂_map_right_iff]
    exact h.imp fun r r' hr => Prod.ext hr.checkoutFingerprint hr.id
  | order h hone => exact revisionSet_perm_iff.mpr hone _ h
  | trans _ _ ih ih' => exact ih.trans ih'

/-! ### The memory after what is done to it -/

/-- What is done to the memory of the timers. -/
inductive DebounceOperation where
  | record (pipeline : PipelineName) (cause : BuildCause)
  | forget (pipeline : PipelineName)

namespace DebounceOperation

def pipeline : DebounceOperation → PipelineName
  | record pipeline _ => pipeline
  | forget pipeline => pipeline

/-- The memory after an operation. -/
def on (d : TimerDebounce) : DebounceOperation → TimerDebounce
  | record pipeline cause => d.record pipeline cause
  | forget pipeline => d.forget pipeline

/-- The same operation. A cause may tell its revisions in another way, and all else of it may differ. -/
inductive RetoldAs : DebounceOperation → DebounceOperation → Prop
  | record (pipeline : PipelineName) {cause cause' : BuildCause}
      (h : Retold cause.materialRevisions cause'.materialRevisions) :
      RetoldAs (record pipeline cause) (record pipeline cause')
  | forget (pipeline : PipelineName) : RetoldAs (forget pipeline) (forget pipeline)

end DebounceOperation

/-- The last thing done to a pipeline, under any spelling of its name, is that a cause was recorded. -/
def RecordedLast (operations : List DebounceOperation) (name : PipelineName) (cause : BuildCause) : Prop :=
  ∃ spelling, IsLast (fun op => op.pipeline.same name = true) operations (.record spelling cause)

namespace TimerDebounce

/-- The memory after operations, one after another. -/
def after (d : TimerDebounce) (operations : List DebounceOperation) : TimerDebounce :=
  operations.foldl DebounceOperation.on d

theorem after_concat (d : TimerDebounce) (operations : List DebounceOperation) (op : DebounceOperation) :
    d.after (operations ++ [op]) = op.on (d.after operations) := by
  rw [after, List.foldl_append]
  rfl

/-- What is remembered of a pipeline is the cause that was recorded last. -/
theorem get?_after_iff {operations : List DebounceOperation} {name : PipelineName} {built : FingerprintMap String} :
    (after ∅ operations).get? name = some built ↔
      ∃ cause, RecordedLast operations name cause ∧ revisionSet cause.materialRevisions = built := by
  induction operations using List.reverseRecOn with
  | nil => simp [after, RecordedLast, IsLast]
  | append_singleton first op ih =>
    rw [after_concat]
    generalize after ∅ first = d at ih
    cases op with
    | record pipeline cause =>
      rw [DebounceOperation.on, get?_record, Name.same_comm]
      by_cases hsame : pipeline.same name = true <;>
        simp [RecordedLast, isLast_concat, DebounceOperation.pipeline, hsame, ih]
    | forget pipeline =>
      rw [DebounceOperation.on, get?_forget]
      by_cases hsame : pipeline.same name = true <;>
        simp [RecordedLast, isLast_concat, DebounceOperation.pipeline, hsame, ih]

theorem after_retold {operations operations' : List DebounceOperation}
    (h : List.Forall₂ DebounceOperation.RetoldAs operations operations') (d : TimerDebounce) :
    d.after operations' = d.after operations := by
  induction h generalizing d with
  | nil => rfl
  | @cons op op' rest rest' hop _ ih =>
    have hon : op'.on d = op.on d := by
      cases hop with
      | record pipeline h => rw [DebounceOperation.on, DebounceOperation.on, record, record, ← h.revisionSet_eq]
      | forget pipeline => rfl
    rw [after, List.foldl_cons, hon]
    exact ih (op.on d)

/-- Whatever was recorded and forgotten before, a candidate is what the last timer run of a pipeline was built from exactly
if the cause that was recorded last and the candidate mention the same checkouts, each for the last time with the same
revision; and if no cause was, it is not. Telling the candidate or any of the causes in another way does not change this. A
cause that was just recorded is recognised whatever the order of its revisions exactly if it mentions no checkout with
two. -/
theorem recognised_iff_last_mentions_agree (operations : List DebounceOperation) (name : PipelineName)
    (candidate : List MaterialRevision) :
    (∀ cause, RecordedLast operations name cause →
      ((after ∅ operations).hasRunWith name candidate = true ↔ SameRevisions cause.materialRevisions candidate)) ∧
    ((∀ cause, ¬ RecordedLast operations name cause) → (after ∅ operations).hasRunWith name candidate = false) ∧
    (∀ operations' candidate', List.Forall₂ DebounceOperation.RetoldAs operations operations' →
      Retold candidate candidate' →
      (after ∅ operations').hasRunWith name candidate' = (after ∅ operations).hasRunWith name candidate) ∧
    ∀ cause, (∀ order, cause.materialRevisions.Perm order →
        (after ∅ (operations ++ [.record name cause])).hasRunWith name order = true) ↔
      OneRevisionEach cause.materialRevisions := by
  refine ⟨fun cause hlast => ?_, fun hnone => ?_, fun operations' candidate' hoperations hcandidate => ?_,
    fun cause => ?_⟩
  · rw [hasRunWith_iff, get?_after_iff.mpr ⟨cause, hlast, rfl⟩, Option.some.injEq, revisionSet_eq_iff]
  · rw [← Bool.not_eq_true, hasRunWith_iff]
    intro hbuilt
    obtain ⟨cause, hlast, -⟩ := get?_after_iff.mp hbuilt
    exact hnone cause hlast
  · rw [hasRunWith, hasRunWith, after_retold hoperations, ← hcandidate.revisionSet_eq]
  · rw [← revisionSet_perm_iff]
    simp only [after_concat, DebounceOperation.on, hasRunWith_iff, get?_record, Name.same_refl, if_true,
      Option.some.injEq]

/-! One repository listed at two revisions. -/

def docs : Material := .git "docs"

def src : Material := .git "src"

def listedOnce : List MaterialRevision :=
  [⟨docs, Samples.checkIn "d1" 2, true⟩, ⟨src, Samples.checkIn "r2" 3, true⟩]

/-- An earlier revision of `src` is listed as well. -/
def listedTwice : List MaterialRevision := ⟨src, Samples.checkIn "r1" 1, true⟩ :: listedOnce

/-- In the other order, and `src` with another flag, another name and another time, and not polled. -/
def listedAnew : List MaterialRevision :=
  [⟨{ src with autoUpdate := false, name := some "sources" }, Samples.checkIn "r2" 9, false⟩,
    ⟨docs, Samples.checkIn "d1" 2, true⟩]

/-- `app` is recorded under another spelling, and then another pipeline is recorded and forgotten. -/
def recorded (cause : BuildCause) : List DebounceOperation :=
  [.record ⟨"APP"⟩ cause, .record ⟨"lib"⟩ (.ofTimer []), .forget ⟨"lib"⟩]

/-- The cause of a user, with other flags. -/
def retoldCause : BuildCause := .ofUser (listedTwice.map fun r => { r with changed := false }) "dev"

theorem sameRevisions_listed : SameRevisions listedTwice listedOnce :=
  sameRevisions_cons_of_mentions ⟨⟨src, Samples.checkIn "r2" 3, true⟩, List.mem_cons_of_mem _ List.mem_cons_self, rfl⟩

theorem retold_listed : Retold listedOnce listedAnew := by
  have hdiffer : docs.checkoutFingerprint ≠ src.checkoutFingerprint := by decide +kernel
  have hone : OneRevisionEach listedOnce := by
    intro r hr r' hr' hsame
    rcases List.mem_pair.mp hr with rfl | rfl <;> rcases List.mem_pair.mp hr' with rfl | rfl
    · rfl
    · exact absurd hsame hdiffer
    · exact absurd hsame.symm hdiffer
    · rfl
  exact .trans (.order (.swap _ _ []) hone) (.entries (.cons ⟨rfl, rfl, rfl⟩ (.cons ⟨rfl, rfl, rfl⟩ .nil)))

theorem retold_recorded :
    List.Forall₂ DebounceOperation.RetoldAs (recorded (.ofTimer listedTwice)) (recorded retoldCause) := by
  have hentries : Retold listedTwice retoldCause.materialRevisions :=
    .entries (List.forall₂_map_right_iff.mpr (List.forall₂_same.mpr fun _ _ => ⟨rfl, rfl, rfl⟩))
  exact .cons (.record _ hentries) (.cons (.record _ (.entries .nil)) (.cons (.forget _) .nil))

theorem not_recordedLast_lib (cause other : BuildCause) : ¬ RecordedLast (recorded cause) ⟨"lib"⟩ other := by
  rintro ⟨spelling, hlast⟩
  have hforgotten : recorded cause = [.record ⟨"APP"⟩ cause, .record ⟨"lib"⟩ (.ofTimer [])] ++ [.forget ⟨"lib"⟩] := rfl
  rw [hforgotten, isLast_concat] at hlast
  rcases hlast with ⟨hrecord, -⟩ | ⟨hdiffer, -⟩
  · cases hrecord
  · exact hdiffer (Name.same_refl _)

/-- The second revision of `src` counts, and the list is known again however it and the cause are told. In some other order
the list itself is not. And nothing is known of `lib`, which was forgotten. -/
theorem app_known_by_second_revision :
    List.Forall₂ DebounceOperation.RetoldAs (recorded (.ofTimer listedTwice)) (recorded retoldCause) ∧
    Retold listedOnce listedAnew ∧ (after ∅ (recorded retoldCause)).hasRunWith ⟨"app"⟩ listedAnew = true ∧
    (after ∅ (recorded retoldCause)).hasRunWith ⟨"lib"⟩ [] = false ∧
    ∃ order, listedTwice.Perm order ∧
      (after ∅ (recorded retoldCause ++ [.record ⟨"app"⟩ (.ofTimer listedTwice)])).hasRunWith ⟨"app"⟩ order ≠ true := by
  obtain ⟨hagree, -, hretold, -⟩ :=
    recognised_iff_last_mentions_agree (recorded (.ofTimer listedTwice)) ⟨"app"⟩ listedOnce
  obtain ⟨-, -, -, horders⟩ := recognised_iff_last_mentions_agree (recorded retoldCause) ⟨"app"⟩ listedOnce
  have hspelling : (⟨"APP"⟩ : PipelineName).same ⟨"app"⟩ = true := Name.same_iff_toList.mpr (by simp)
  have hother : (⟨"lib"⟩ : PipelineName).same ⟨"app"⟩ = false := by
    simp [← Bool.not_eq_true, Name.same_iff_toList]
  have hlast : RecordedLast (recorded (.ofTimer listedTwice)) ⟨"app"⟩ (.ofTimer listedTwice) :=
    ⟨⟨"APP"⟩, [], _, rfl, hspelling, by simp [DebounceOperation.pipeline, hother]⟩
  have htwo : ¬ OneRevisionEach listedTwice := by
    intro hone
    have hsecond : ⟨src, Samples.checkIn "r2" 3, true⟩ ∈ listedTwice := by simp [listedTwice, listedOnce]
    have hids : "r1" = "r2" := hone _ List.mem_cons_self _ hsecond rfl
    exact absurd hids (by decide)
  refine ⟨retold_recorded, retold_listed, ?_, ?_, ?_⟩
  · rw [hretold _ _ retold_recorded retold_listed]
    exact (hagree _ hlast).mpr sameRevisions_listed
  · exact (recognised_iff_last_mentions_agree (recorded retoldCause) ⟨"lib"⟩ []).2.1 (not_recordedLast_lib retoldCause)
  · by_contra hknown
    refine htwo ((horders (.ofTimer listedTwice)).mp fun order hperm => ?_)
    by_contra hunknown
    exact hknown ⟨order, hperm, hunknown⟩

end TimerDebounce

end BuildScheduling
