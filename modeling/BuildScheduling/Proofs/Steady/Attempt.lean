import BuildScheduling.Proofs.Steady.Refresh

/-!
# Attempts on a steady world

While the world holds still, every question gets the same answer whenever it is asked
(`Collaborators.Steady`). Then what an attempt answers, how long it takes and which materials it looks at
depend on the latest known revisions only through what a look at each material shows (`Attempt.Repeatable`).
As looks leave this alone, other attempts in between make no difference to it.
-/

namespace BuildScheduling

variable {σ α β : Type}

/-- In the good worlds a question gets one reply, and leads to a good world. -/
def Call.Steady (Good : σ → Prop) (call : Call σ α) : Prop :=
  ∃ reply, ∀ w, Good w → (call w).1 = reply ∧ Good (call w).2

/-- In the good worlds everything that is asked about the pipelines of a snapshot gets one reply, and the
reports offer the same revisions for all materials with a fingerprint. -/
structure Collaborators.Steady (collab : Collaborators σ) (snapshot : Snapshot)
    (offers : Fingerprint → List Revision) (Good : σ → Prop) : Prop where
  unfinished : ∀ p ∈ snapshot.pipelines, (collab.hasUnfinishedInstance p.name).Steady Good
  report : ∀ p ∈ snapshot.pipelines, ∀ m ∈ p.materials, (collab.reportOn snapshot m).Steady Good
  changed : ∀ p ∈ snapshot.pipelines, ∀ m ∈ p.materials,
    (collab.changedSinceLastBuild p.name m.fingerprint).Steady Good
  offered : ∀ p ∈ snapshot.pipelines, ∀ m ∈ p.materials, ∀ w report, Good w →
    (collab.reportOn snapshot m w).1.answer = .ok report → report.revisions = offers m.fingerprint
  pendingOutage : ∀ w w', Good w → Good w' → collab.pendingOutage w' = collab.pendingOutage w
  enqueueOutage : ∀ w w', Good w → Good w' → collab.enqueueOutage w' = collab.enqueueOutage w
  reportOutage : ∀ w w', Good w → Good w' → collab.reportOutage w' = collab.reportOutage w
  clearOutage : ∀ w w', Good w → Good w' → collab.clearOutage w' = collab.clearOutage w

namespace Attempt

variable (Good : σ → Prop) (offers : Fingerprint → List Revision)

/-- In the good worlds what a computation does is told by the time that has passed and what looks show: it
answers, looks at some materials and takes time. -/
def Repeatable (x : Attempt σ α) : Prop :=
  ∀ (elapsed : Nat) (view : Fingerprint → Option Revision),
    ∃ (answer : Except Interruption α) (touched : List Fingerprint) (elapsed' : Nat),
      ∀ w known, Good w → LatestKnown.seen offers known = view →
        ∃ w', Good w' ∧ x.on ⟨w, known, elapsed⟩ = (answer, ⟨w', known.refresh offers touched, elapsed'⟩)

/-- In some good world a computation answers with a value. -/
def Yields (x : Attempt σ α) (a : α) : Prop :=
  ∃ progress : Progress σ, Good progress.world ∧ (x.on progress).1 = .ok a

variable {Good offers}

theorem repeatable_pure (a : α) : Repeatable Good offers (pure a : Attempt σ α) :=
  fun elapsed _ => ⟨.ok a, [], elapsed, fun w _ hw _ => ⟨w, hw, rfl⟩⟩

theorem repeatable_fail (failure : Failure) : Repeatable Good offers (fail failure : Attempt σ α) :=
  fun elapsed _ => ⟨.error (.failed failure), [], elapsed, fun w _ hw _ => ⟨w, hw, rfl⟩⟩

theorem Repeatable.bind {x : Attempt σ α} {f : α → Attempt σ β} (hx : Repeatable Good offers x)
    (hf : ∀ a, Yields Good x a → Repeatable Good offers (f a)) : Repeatable Good offers (x >>= f) := by
  intro elapsed view
  obtain ⟨answer, touched, mid, hon⟩ := hx elapsed view
  cases answer with
  | error interruption =>
    refine ⟨.error interruption, touched, mid, fun w known hw hview => ?_⟩
    obtain ⟨w', hw', hanswer⟩ := hon w known hw hview
    exact ⟨w', hw', by rw [on_bind, hanswer]⟩
  | ok a =>
    by_cases hsome : ∃ w known, Good w ∧ LatestKnown.seen offers known = view
    · obtain ⟨w, known, hw, hview⟩ := hsome
      obtain ⟨_, -, hanswer⟩ := hon w known hw hview
      obtain ⟨answer, touched', last, hon'⟩ := hf a ⟨_, hw, congrArg Prod.fst hanswer⟩ mid view
      refine ⟨answer, touched ++ touched', last, fun w known hw hview => ?_⟩
      obtain ⟨w', hw', hanswer⟩ := hon w known hw hview
      -- What looks show is the same after the looks of the first part.
      obtain ⟨w'', hw'', hanswer'⟩ := hon' w' (known.refresh offers touched) hw'
        ((LatestKnown.seen_refresh known touched).trans hview)
      exact ⟨w'', hw'', by rw [on_bind, hanswer, LatestKnown.refresh_append]; exact hanswer'⟩
    · exact ⟨.error .timedOut, [], mid, fun w known hw hview => absurd ⟨w, known, hw, hview⟩ hsome⟩

theorem Repeatable.mapM {f : α → Attempt σ β} {items : List α}
    (hf : ∀ a ∈ items, Repeatable Good offers (f a)) : Repeatable Good offers (items.mapM f) := by
  induction items with
  | nil => exact repeatable_pure []
  | cons a rest ih =>
    obtain ⟨ha, hrest⟩ := List.forall_mem_cons.mp hf
    rw [List.mapM_cons]
    exact ha.bind fun b _ => (ih hrest).bind fun bs _ => repeatable_pure (b :: bs)

/-! ### Questions and looks -/

theorem repeatable_ask (limit : Option Nat) {call : Call σ α} (hcall : call.Steady Good) :
    Repeatable Good offers (ask limit call) := by
  obtain ⟨reply, hreply⟩ := hcall
  intro elapsed view
  by_cases hlate : limit.any (fun limit => limit < elapsed + reply.took) = true
  · refine ⟨.error .timedOut, [], elapsed, fun w known hw _ => ⟨w, hw, ?_⟩⟩
    rw [on_ask_eq, (hreply w hw).1]
    exact if_pos hlate
  · refine ⟨reply.answer.mapError .failed, [], elapsed + reply.took, fun w known hw _ =>
      ⟨(call w).2, (hreply w hw).2, ?_⟩⟩
    rw [on_ask_eq, (hreply w hw).1]
    exact if_neg hlate

theorem answer_of_yields_ask {limit : Option Nat} {call : Call σ α} {a : α}
    (h : Yields Good (ask limit call) a) : ∃ w, Good w ∧ (call w).1.answer = .ok a := by
  obtain ⟨progress, hgood, hanswer⟩ := h
  exact ⟨progress.world, hgood, (on_ask limit call progress).2.2 a hanswer⟩

theorem repeatable_update {m : Material} {revisions : List Revision}
    (hoffered : revisions = offers m.fingerprint) :
    Repeatable Good offers (update m revisions : Attempt σ (Option Revision)) := by
  intro elapsed view
  refine ⟨.ok (view m.fingerprint), [m.fingerprint], elapsed, fun w known hw hview => ⟨w, hw, ?_⟩⟩
  rw [on_update, hoffered, ← hview]
  rfl

/-! ### Whole attempts -/

variable {collab : Collaborators σ} (limit : Option Nat) {snapshot : Snapshot} {p : Pipeline}

theorem repeatable_answerFor {m : Material} (revision : Option Revision)
    (hchanged : (collab.changedSinceLastBuild p.name m.fingerprint).Steady Good) :
    Repeatable Good offers (answerFor collab limit p m revision) := by
  cases revision with
  | none => exact repeatable_pure _
  | some revision => exact (repeatable_ask limit hchanged).bind fun _ _ => repeatable_pure _

theorem repeatable_settle (overrides : Overrides) {m : Material} {report : Report}
    (hchanged : (collab.changedSinceLastBuild p.name m.fingerprint).Steady Good)
    (hoffered : report.revisions = offers m.fingerprint) :
    Repeatable Good offers (settle collab limit p overrides m report) := by
  unfold settle
  cases overrides.wanted? m with
  | none =>
    exact (repeatable_update hoffered).bind fun revision _ => repeatable_answerFor limit revision hchanged
  | some wanted =>
    dsimp only
    cases report.named? wanted with
    | none => exact repeatable_fail _
    | some revision => exact repeatable_answerFor limit _ hchanged

variable (hsteady : collab.Steady snapshot offers Good) (hp : p ∈ snapshot.pipelines)

include hsteady hp

theorem repeatable_resolve (overrides : Overrides) :
    Repeatable Good offers (resolve collab limit snapshot p overrides) := by
  cases hkey : overrides.unknownKey? p with
  | some key =>
    rw [resolve_of_unknownKey hkey]
    exact repeatable_fail _
  | none =>
    rw [resolve_of_known hkey]
    refine (Repeatable.mapM fun m hm => ?_).bind fun answers _ => repeatable_pure (gather answers)
    rw [resolveMaterial_eq]
    refine (repeatable_ask limit (hsteady.report p hp m hm)).bind fun report hreport => ?_
    obtain ⟨w, hw, hanswer⟩ := answer_of_yields_ask hreport
    exact repeatable_settle limit overrides (hsteady.changed p hp m hm)
      (hsteady.offered p hp m hm w report hw hanswer)

theorem repeatable_decide (debounce : TimerDebounce) (event : TriggerEvent) :
    Repeatable Good offers (decide collab limit snapshot debounce p event) := by
  have hheld : Repeatable Good offers (isHeld collab limit p) := by
    unfold isHeld
    split
    · exact repeatable_ask limit (hsteady.unfinished p hp)
    · exact repeatable_pure false
  refine hheld.bind fun held _ => ?_
  split
  · exact repeatable_pure _
  · refine (repeatable_resolve limit hsteady hp event.overrides).bind fun resolution _ => ?_
    cases resolution <;> exact repeatable_pure _

end Attempt

end BuildScheduling
