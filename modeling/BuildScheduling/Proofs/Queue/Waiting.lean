import BuildScheduling.Proofs.Engine.History
import Mathlib.Data.List.Induction

/-!
# The queue is a map on names

The queue beside the list of all that was done to it. Which cause waits for a pipeline is read off the end of this list:
the last one that was put in under any spelling of its name, if nothing touched the name since (`pending_after_iff`).
The spelling that the cause is listed under is read off it too, but from further back: a cause that replaces another
stands where the other one stood, so the spelling is that of the cause that found the place empty
(`spelling?_after_iff`).

For a single name the queue is a place for one cause. So what was put in for the name is, in order, what left the place
since and what is still there (`waiting_append_putIn`): a cause leaves once, and it is handed out then, or
replaced by the next one for the name, or cleared away.
-/

namespace BuildScheduling

/-- What the engine and the consumer of the causes do to a queue. -/
inductive QueueOperation where
  | enqueue (pipeline : PipelineName) (cause : BuildCause)
  | finish (pipeline : PipelineName)
  | clear

namespace QueueOperation

/-- The queue after an operation. -/
def on (q : ScheduleQueue) : QueueOperation → ScheduleQueue
  | enqueue pipeline cause => q.enqueue pipeline cause
  | finish pipeline => (q.finish pipeline).2
  | clear => ∅

/-- What an operation answers with: nothing, unless it is a finish. -/
def answer (q : ScheduleQueue) : QueueOperation → Option BuildCause
  | finish pipeline => (q.finish pipeline).1
  | _ => none

def isFinish : QueueOperation → Bool
  | finish _ => true
  | _ => false

/-- The cause that an operation puts in for a pipeline, under any spelling. -/
def puts? (name : PipelineName) : QueueOperation → Option BuildCause
  | enqueue pipeline cause => if pipeline.same name then some cause else none
  | _ => none

/-- An operation leaves no cause waiting for a pipeline. -/
def removes (name : PipelineName) : QueueOperation → Bool
  | enqueue _ _ => false
  | finish pipeline => pipeline.same name
  | clear => true

/-- The place of a pipeline is given another cause, or none. -/
def touches (name : PipelineName) (op : QueueOperation) : Bool := (op.puts? name).isSome || op.removes name

theorem puts?_eq_some_iff {name : PipelineName} {op : QueueOperation} {cause : BuildCause} :
    op.puts? name = some cause ↔ ∃ spelling, op = enqueue spelling cause ∧ spelling.same name = true := by
  cases op with
  | enqueue pipeline other => by_cases hsame : pipeline.same name = true <;> simp [puts?, hsame]
  | finish pipeline => simp [puts?]
  | clear => simp [puts?]

end QueueOperation

namespace ScheduleQueue

/-- The queue after operations, one after another. -/
def after (q : ScheduleQueue) (operations : List QueueOperation) : ScheduleQueue :=
  operations.foldl (fun q op => op.on q) q

theorem after_concat (q : ScheduleQueue) (operations : List QueueOperation) (op : QueueOperation) :
    q.after (operations ++ [op]) = op.on (q.after operations) := by
  rw [after, List.foldl_append]
  rfl

/-! ### The cause that waits -/

theorem pending_on (q : ScheduleQueue) (op : QueueOperation) (name : PipelineName) :
    (op.on q).pending name = if op.touches name then op.puts? name else q.pending name := by
  cases op with
  | enqueue pipeline cause =>
    rw [QueueOperation.on, pending_enqueue, Name.same_comm]
    by_cases hsame : pipeline.same name = true <;>
      simp [QueueOperation.touches, QueueOperation.puts?, QueueOperation.removes, hsame]
  | finish pipeline =>
    rw [QueueOperation.on, finish, pending_erase]
    by_cases hsame : pipeline.same name = true <;>
      simp [QueueOperation.touches, QueueOperation.puts?, QueueOperation.removes, hsame]
  | clear => rfl

/-- The last cause that was put in for a pipeline waits, unless it was taken out or replaced since. -/
theorem pending_after_iff {operations : List QueueOperation} {name : PipelineName} {cause : BuildCause} :
    (after ∅ operations).pending name = some cause ↔
      ∃ before op since, operations = before ++ op :: since ∧ op.puts? name = some cause ∧
        ∀ other ∈ since, other.touches name = false := by
  induction operations using List.reverseRecOn with
  | nil => simp [after, pending]
  | append_singleton operations op ih =>
    rw [after_concat, pending_on, exists_split_concat, ← ih]
    cases hputs : op.puts? name with
    | some other => simp [QueueOperation.touches, hputs]
    | none => cases hremoves : op.removes name <;> simp [QueueOperation.touches, hputs, hremoves]

/-! ### The spelling it waits under -/

/-- The spelling that the cause of a pipeline is listed under. -/
def spelling? (q : ScheduleQueue) (name : PipelineName) : Option PipelineName := (q.entry? name).map Prod.fst

theorem spelling?_congr (q : ScheduleQueue) {a b : PipelineName} (h : a.same b = true) :
    q.spelling? a = q.spelling? b := by
  simp only [spelling?, SortedMap.entry?, Std.TransCmp.congr_left (Name.same_iff_compare.mp h)]

/-- A pipeline is listed under no spelling when no cause waits for it. -/
theorem spelling?_eq_none_iff {q : ScheduleQueue} {name : PipelineName} :
    q.spelling? name = none ↔ q.pending name = none := by
  simp [spelling?, pending, SortedMap.get?]

/-- A cause that replaces another is listed where that one was. -/
theorem spelling?_enqueue (q : ScheduleQueue) (pipeline name : PipelineName) (cause : BuildCause) :
    spelling? (q.enqueue pipeline cause) name =
      if name.same pipeline then some ((q.spelling? pipeline).getD pipeline) else q.spelling? name := by
  simp only [spelling?, SortedMap.entry?, enqueue, SortedMap.insert, SortedMap.alter,
    SortedMap.find?_alterEntries name q.ascending, Name.same_iff_compare]
  split
  · cases q.entries.find? fun e => (compare pipeline e.1).isEq <;> rfl
  · rfl

theorem spelling?_erase (q : ScheduleQueue) (pipeline name : PipelineName) :
    spelling? (q.erase pipeline) name = if pipeline.same name then none else q.spelling? name := by
  have hcongr : ∀ a b : PipelineName, compare a b = .eq →
      (!(compare pipeline a).isEq) = !(compare pipeline b).isEq := fun a b h => by rw [Std.TransCmp.congr_right h]
  rw [spelling?, SortedMap.entry?, SortedMap.erase, SortedMap.filterKeys, SortedMap.find?_filter_of_congr hcongr]
  by_cases hsame : compare pipeline name = .eq <;> simp [hsame, Name.same_iff_compare, spelling?, SortedMap.entry?]

/-- A cause was put in for a pipeline under a spelling when none waited for it, and one has waited for it ever since. -/
def ListedSince (operations : List QueueOperation) (key : PipelineName) : Prop :=
  ∃ before op since, operations = before ++ op :: since ∧
    ((∃ cause, op = .enqueue key cause) ∧ (after ∅ before).pending key = none) ∧
    ∀ other ∈ since, other.removes key = false

theorem listedSince_concat {operations : List QueueOperation} {op : QueueOperation} {key : PipelineName} :
    ListedSince (operations ++ [op]) key ↔
      ((∃ cause, op = .enqueue key cause) ∧ (after ∅ operations).pending key = none) ∨
        op.removes key = false ∧ ListedSince operations key :=
  exists_split_concat

theorem spelling?_after_iff {operations : List QueueOperation} {key : PipelineName} :
    (after ∅ operations).spelling? key = some key ↔ ListedSince operations key := by
  induction operations using List.reverseRecOn with
  | nil => simp [after, ListedSince, spelling?, SortedMap.entry?, show (∅ : ScheduleQueue).entries = [] from rfl]
  | append_singleton operations op ih =>
    rw [after_concat, listedSince_concat, ← ih]
    generalize after ∅ operations = q
    cases op with
    | enqueue pipeline cause =>
      rw [QueueOperation.on, spelling?_enqueue]
      by_cases hsame : key.same pipeline = true
      · rw [if_pos hsame, ← q.spelling?_congr hsame]
        -- the place is taken, or the spelling is that of the cause put in
        cases hspelling : q.spelling? key with
        | some spelling =>
          have htaken : q.pending key ≠ none := fun h => by simp [spelling?_eq_none_iff.mpr h] at hspelling
          simp [htaken, QueueOperation.removes]
        | none => simp [spelling?_eq_none_iff.mp hspelling]
      · have hdiffer : pipeline ≠ key := by
          rintro rfl
          exact hsame (Name.same_refl pipeline)
        simp [hsame, hdiffer, QueueOperation.removes]
    | finish pipeline =>
      rw [QueueOperation.on, finish, spelling?_erase]
      by_cases hsame : pipeline.same key = true <;> simp [hsame, QueueOperation.removes]
    | clear => simp [QueueOperation.on, QueueOperation.removes, spelling?, SortedMap.entry?,
        show (∅ : ScheduleQueue).entries = [] from rfl]

/-- What is listed is the cause that waits, and the spelling it waits under. -/
theorem mem_toBeScheduled_iff {q : ScheduleQueue} {key : PipelineName} {cause : BuildCause} :
    (key, cause) ∈ q.toBeScheduled ↔ q.pending key = some cause ∧ q.spelling? key = some key := by
  constructor
  · intro hmem
    have hfind : q.entry? key = some (key, cause) := SortedMap.find?_of_mem q.ascending hmem
    simp [pending, SortedMap.get?, spelling?, hfind]
  · rintro ⟨hpending, hspelling⟩
    obtain ⟨e, hfind, rfl⟩ := Option.map_eq_some_iff.mp hpending
    simp only [spelling?, hfind, Option.map_some, Option.some.injEq] at hspelling
    subst hspelling
    exact List.mem_of_find?_eq_some hfind

/-- A cause that waits is listed under some spelling. -/
theorem pending_iff_exists_key {q : ScheduleQueue} {name : PipelineName} {cause : BuildCause} :
    q.pending name = some cause ↔ ∃ key, key.same name = true ∧ (key, cause) ∈ q.toBeScheduled := by
  constructor
  · intro hpending
    obtain ⟨e, hfind, rfl⟩ := Option.map_eq_some_iff.mp hpending
    have hsame : compare name e.1 = .eq := by
      simpa using List.find?_some (p := fun e : PipelineName × BuildCause => (compare name e.1).isEq) hfind
    refine ⟨e.1, ?_, List.mem_of_find?_eq_some hfind⟩
    rw [Name.same_comm]
    exact Name.same_iff_compare.mpr hsame
  · rintro ⟨key, hsame, hmem⟩
    rw [← q.pending_congr hsame]
    exact (mem_toBeScheduled_iff.mp hmem).1

theorem pairwise_toBeScheduled (q : ScheduleQueue) :
    q.toBeScheduled.Pairwise fun a b => ¬ a.1.same b.1 = true :=
  q.ascending.imp fun {a b} hlt hsame => by rw [Name.same_iff_compare.mp hsame] at hlt; cases hlt

theorem toBeScheduled_finish (q : ScheduleQueue) (name : PipelineName) :
    (q.finish name).2.toBeScheduled = q.toBeScheduled.filter fun e => !name.same e.1 := by
  refine List.filter_congr fun e _ => congrArg (!·) ?_
  rw [Bool.eq_iff_iff, Name.same_iff_compare, Ordering.isEq_iff_eq_eq]

theorem nodup_map_folded {names : List PipelineName} (h : names.Pairwise fun a b => ¬ a.same b = true) :
    (names.map Name.folded).Nodup :=
  List.pairwise_map.mpr (h.imp fun hdiffer hfolded => hdiffer (Name.same_iff.mpr hfolded))

/-- As many entries as there are names, however they are spelled, that a cause waits for. -/
theorem size_eq_length (q : ScheduleQueue) {names : List PipelineName}
    (hdistinct : names.Pairwise fun a b => ¬ a.same b = true)
    (hnames : ∀ name, q.pending name ≠ none ↔ ∃ other ∈ names, other.same name = true) : q.size = names.length := by
  have hkeys : (q.keys.map Name.folded).Nodup := nodup_map_folded (List.pairwise_map.mpr q.pairwise_toBeScheduled)
  have hperm : (q.keys.map Name.folded).Perm (names.map Name.folded) := by
    refine (List.perm_ext_iff_of_nodup hkeys (nodup_map_folded hdistinct)).mpr fun folded => ?_
    simp only [List.mem_map]
    constructor
    · rintro ⟨key, hkey, rfl⟩
      obtain ⟨other, hother, hsame⟩ := (hnames key).mp (SortedMap.get?_ne_none_of_mem_keys hkey)
      exact ⟨other, hother, Name.same_iff.mp hsame⟩
    · rintro ⟨other, hother, rfl⟩
      obtain ⟨cause, hpending⟩ := Option.ne_none_iff_exists'.mp ((hnames other).mpr ⟨other, hother, other.same_refl⟩)
      obtain ⟨key, hsame, hmem⟩ := pending_iff_exists_key.mp hpending
      exact ⟨key, List.mem_map.mpr ⟨_, hmem, rfl⟩, Name.same_iff.mp hsame⟩
  simpa [SortedMap.size, SortedMap.keys] using hperm.length_eq

/-! ### In and out -/

/-- The causes that operations put in for a pipeline, in order. -/
def putIn (name : PipelineName) (operations : List QueueOperation) : List BuildCause :=
  operations.filterMap (QueueOperation.puts? name)

/-- The causes of a pipeline that operations on a queue moved out of their place, in order, each with the operation that
did so: it was handed out by a finish, replaced by the cause that was put in, or cleared away. -/
def takenOut (name : PipelineName) (q : ScheduleQueue) : List QueueOperation → List (QueueOperation × BuildCause)
  | [] => []
  | op :: rest =>
    (if op.touches name then (q.pending name).toList.map fun cause => (op, cause) else []) ++
      takenOut name (op.on q) rest

/-- The causes that were the answer when a pipeline was finished, in order. -/
def handedOut (name : PipelineName) (q : ScheduleQueue) : List QueueOperation → List BuildCause
  | [] => []
  | op :: rest =>
    (if op.touches name then (op.answer q).toList else []) ++ handedOut name (op.on q) rest

/-- What waited and what is put in goes out again, in the same order, or waits. -/
theorem waiting_append_putIn (q : ScheduleQueue) (name : PipelineName) (operations : List QueueOperation) :
    (q.pending name).toList ++ putIn name operations =
      (takenOut name q operations).map Prod.snd ++ ((q.after operations).pending name).toList := by
  induction operations generalizing q with
  | nil => simp [putIn, takenOut, after]
  | cons op rest ih =>
    have hputs : putIn name (op :: rest) = (op.puts? name).toList ++ putIn name rest := by
      rw [putIn, putIn, List.filterMap_cons]
      cases op.puts? name <;> rfl
    have hrest := ih (op.on q)
    rw [pending_on] at hrest
    rw [takenOut, hputs, show q.after (op :: rest) = (op.on q).after rest from rfl, List.map_append, List.append_assoc,
      ← hrest]
    cases htouches : op.touches name with
    | true => simp [Function.comp_def]
    | false =>
      have hnone : op.puts? name = none := by simpa using (Bool.or_eq_false_iff.mp htouches).1
      simp [hnone]

theorem answer_of_touches (q : ScheduleQueue) {op : QueueOperation} {name : PipelineName}
    (h : op.touches name = true) : op.answer q = if op.isFinish then q.pending name else none := by
  cases op with
  | enqueue pipeline cause => rfl
  | clear => rfl
  | finish pipeline => exact q.pending_congr h

/-- What is handed out is what a finish takes out. -/
theorem handedOut_eq_takenOut (q : ScheduleQueue) (name : PipelineName) (operations : List QueueOperation) :
    handedOut name q operations =
      ((takenOut name q operations).filter fun e => e.1.isFinish).map Prod.snd := by
  induction operations generalizing q with
  | nil => rfl
  | cons op rest ih =>
    rw [handedOut, takenOut, ih, List.filter_append, List.map_append]
    congr 1
    by_cases htouches : op.touches name = true
    · rw [if_pos htouches, if_pos htouches, answer_of_touches q htouches]
      cases q.pending name <;> cases hfinish : op.isFinish <;> simp [hfinish]
    · rw [if_neg htouches, if_neg htouches]
      rfl

/-- A queue after any operations, beside the list of them. The cause that waits for a pipeline is the last one put in
under any spelling of its name, if nothing touched the name since. Finishing a pipeline answers with the cause that
waits, and takes that out and nothing else. Each name that a cause waits for is listed once, under the spelling that was
used when the name was last absent, and there are as many entries as such names. And what was put in for a name is, in
order, what was taken out of its place, each cause once, by a finish that answered with it, by a later cause for the
name, or by clearing, and then what waits. -/
theorem queue_is_map_on_names (operations : List QueueOperation) :
    let q : ScheduleQueue := after ∅ operations
    (∀ name cause, q.pending name = some cause ↔ ∃ before spelling since,
      operations = before ++ .enqueue spelling cause :: since ∧ spelling.same name = true ∧
      ∀ op ∈ since, op.touches name = false) ∧
    (∀ name, (q.finish name).1 = q.pending name ∧
      (q.finish name).2.toBeScheduled = (q.toBeScheduled.filter fun e => !name.same e.1) ∧
      ∀ other, (q.finish name).2.pending other = if name.same other then none else q.pending other) ∧
    (q.toBeScheduled.Pairwise fun a b => ¬ a.1.same b.1 = true) ∧
    (∀ name cause, q.pending name = some cause ↔
      ∃ key, key.same name = true ∧ (key, cause) ∈ q.toBeScheduled) ∧
    (∀ key cause, (key, cause) ∈ q.toBeScheduled ↔ q.pending key = some cause ∧ ListedSince operations key) ∧
    (∀ names : List PipelineName, (names.Pairwise fun a b => ¬ a.same b = true) →
      (∀ name, q.pending name ≠ none ↔ ∃ other ∈ names, other.same name = true) → q.size = names.length) ∧
    ∀ name, putIn name operations = (takenOut name ∅ operations).map Prod.snd ++ (q.pending name).toList ∧
      handedOut name ∅ operations =
        ((takenOut name ∅ operations).filter fun e => e.1.isFinish).map Prod.snd := by
  intro q
  refine ⟨fun name cause => ?_, fun name => ⟨rfl, q.toBeScheduled_finish name, q.pending_erase name⟩,
    q.pairwise_toBeScheduled, fun name cause => pending_iff_exists_key, fun key cause => ?_,
    fun names hdistinct hnames => q.size_eq_length hdistinct hnames,
    fun name => ⟨waiting_append_putIn ∅ name operations, handedOut_eq_takenOut ∅ name operations⟩⟩
  · rw [pending_after_iff]
    constructor
    · rintro ⟨before, op, since, hsplit, hputs, hsince⟩
      obtain ⟨spelling, rfl, hsame⟩ := QueueOperation.puts?_eq_some_iff.mp hputs
      exact ⟨before, spelling, since, hsplit, hsame, hsince⟩
    · rintro ⟨before, spelling, since, hsplit, hsame, hsince⟩
      exact ⟨before, _, since, hsplit, QueueOperation.puts?_eq_some_iff.mpr ⟨spelling, rfl, hsame⟩, hsince⟩
  · rw [mem_toBeScheduled_iff, spelling?_after_iff]

/-- Two causes for `app` under two spellings, and one for `lib` that is taken out again. -/
def appTwice : List QueueOperation :=
  [.enqueue ⟨"APP"⟩ (.ofChanges []), .enqueue ⟨"lib"⟩ (.ofChanges []), .enqueue ⟨"app"⟩ (.ofTimer []), .finish ⟨"Lib"⟩]

set_option maxRecDepth 100000 in
theorem toBeScheduled_appTwice : (after ∅ appTwice).toBeScheduled = [(⟨"APP"⟩, .ofTimer [])] := by decide +kernel

/-- The second cause waits, under the spelling of the first one, and nothing else does. -/
theorem app_waits_once_as_spelled_first :
    (after ∅ appTwice).size = 1 ∧ (after ∅ appTwice).pending ⟨"app"⟩ = some (.ofTimer []) ∧
    ListedSince appTwice ⟨"APP"⟩ := by
  obtain ⟨-, -, -, hwaits, hlisted, hsize, -⟩ := queue_is_map_on_names appTwice
  have hupper : (⟨"APP"⟩ : PipelineName).same ⟨"app"⟩ = true := Name.same_iff_toList.mpr (by simp)
  have hmem : (⟨"APP"⟩, .ofTimer []) ∈ (after ∅ appTwice).toBeScheduled := by simp [toBeScheduled_appTwice]
  refine ⟨hsize [⟨"APP"⟩] (List.pairwise_singleton _ _) fun name => ?_, (hwaits _ _).mpr ⟨_, hupper, hmem⟩,
    ((hlisted _ _).mp hmem).2⟩
  simp [Option.ne_none_iff_exists', hwaits, toBeScheduled_appTwice]

end ScheduleQueue

end BuildScheduling
