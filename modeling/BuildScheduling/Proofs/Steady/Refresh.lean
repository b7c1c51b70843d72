import BuildScheduling.Proofs.Resolution.Report

/-!
# Looking again

When the report on a material stays the same, looking a second time shows what the first look showed
(`remembered_again`). So the effect of any looks on the latest known revisions depends only on which
materials were looked at, neither on the order nor on how often (`refresh_congr`), and what a look at some
material shows is the same before and after all of them (`seen_refresh`).
-/

namespace BuildScheduling

theorem remembered_again (known : Option Revision) (head : Revision) (reported : List Revision) :
    remembered (some (remembered known head reported)) head reported = remembered known head reported := by
  have hhead : remembered (some head) head reported = head := by
    simp [remembered]
  cases known with
  | none => exact hhead
  | some r =>
    by_cases hkept : (!reported.any (fun r' => r'.identifier == r.identifier) && r.newerThan head) = true
    · have hr : remembered (some r) head reported = r := by simp only [remembered, hkept, if_true]
      rw [hr, hr]
    · have hr : remembered (some r) head reported = head := by
        simp only [remembered, if_neg hkept]
      rw [hr, hhead]

namespace LatestKnown

/-- What a look at each material shows, when these revisions are reported. -/
def seen (offers : Fingerprint → List Revision) (known : LatestKnown) (material : Fingerprint) :
    Option Revision :=
  known.newest? material (offers material)

/-- What is known after a look at some materials, one after another. -/
def refresh (offers : Fingerprint → List Revision) (known : LatestKnown) (touched : List Fingerprint) :
    LatestKnown :=
  touched.foldl (fun known material => known.learn material (offers material)) known

variable {offers : Fingerprint → List Revision}

theorem get?_learn (known : LatestKnown) (material other : Fingerprint) (revisions : List Revision) :
    (known.learn material revisions).get? other =
      if other = material then known.newest? material revisions <|> known.get? material
      else known.get? other := by
  unfold LatestKnown.learn
  cases known.newest? material revisions with
  | none =>
    dsimp only
    split
    · next h =>
      rw [h]
      rfl
    · rfl
  | some r =>
    rw [SortedMap.get?_insert]
    simp only [Fingerprint.compare_eq_iff]
    rfl

/-- A look leaves alone what any look shows. -/
theorem seen_learn (known : LatestKnown) (material : Fingerprint) :
    (known.learn material (offers material)).seen offers = known.seen offers := by
  funext other
  unfold seen LatestKnown.newest?
  rw [get?_learn]
  split
  · next h =>
    subst h
    unfold LatestKnown.newest?
    cases (offers other).head? with
    | none => rfl
    | some head => exact congrArg some (remembered_again _ head (offers other))
  · rfl

theorem seen_refresh (known : LatestKnown) (touched : List Fingerprint) :
    (known.refresh offers touched).seen offers = known.seen offers := by
  induction touched generalizing known with
  | nil => rfl
  | cons material rest ih => exact (ih _).trans (seen_learn known material)

theorem refresh_append (known : LatestKnown) (first second : List Fingerprint) :
    known.refresh offers (first ++ second) = (known.refresh offers first).refresh offers second :=
  List.foldl_append

/-- After a look at some materials, each of them is known as the look showed it, if it showed anything. -/
theorem get?_refresh (known : LatestKnown) (touched : List Fingerprint) (material : Fingerprint) :
    (known.refresh offers touched).get? material =
      if material ∈ touched then known.seen offers material <|> known.get? material
      else known.get? material := by
  induction touched generalizing known with
  | nil => simp [refresh]
  | cons first rest ih =>
    have hstep : known.refresh offers (first :: rest) =
        (known.learn first (offers first)).refresh offers rest := rfl
    rw [hstep, ih, seen_learn, get?_learn]
    by_cases hfirst : material = first
    · subst hfirst
      simp only [List.mem_cons_self, if_true]
      split
      · show (_ <|> known.seen offers material <|> _) = _
        cases known.seen offers material <;> rfl
      · rfl
    · simp [hfirst]

/-- The order of the looks, and how often each was made, leave no trace. -/
theorem refresh_congr (known : LatestKnown) {touched touched' : List Fingerprint}
    (h : ∀ material, material ∈ touched ↔ material ∈ touched') :
    known.refresh offers touched = known.refresh offers touched' := by
  refine SortedMap.ext_get? fun material => ?_
  simp only [get?_refresh, h]

theorem refresh_comm (known : LatestKnown) (first second : List Fingerprint) :
    (known.refresh offers first).refresh offers second =
      (known.refresh offers second).refresh offers first := by
  rw [← refresh_append, ← refresh_append]
  exact known.refresh_congr fun material => by simp [or_comm]

theorem refresh_again (known : LatestKnown) (touched : List Fingerprint) :
    (known.refresh offers touched).refresh offers touched = known.refresh offers touched := by
  rw [← refresh_append]
  exact known.refresh_congr fun material => by simp

end LatestKnown

end BuildScheduling
