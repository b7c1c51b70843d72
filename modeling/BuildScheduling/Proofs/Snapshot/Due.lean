import Mathlib.Data.List.Pairwise
import BuildScheduling.Proofs.Cron.Windows
import BuildScheduling.Proofs.Debounce.TimerLaw

/-!
# Which timers are due

The timers of a snapshot are those of the pipelines it declares, each under the name of its pipeline
(`mem_timers_of_build`): no timer is lost, since no two of these names are the same, and each of their specs could
be read. A pipeline is due in a window when its timer fires in it, so what is due in windows end to end is what is
due in all of them together. The due pipelines come in name order, in whatever order the timers are gone through.
-/

namespace BuildScheduling

/-- Whether the pipeline has a timer that fires after `after` and not later than `latest`. -/
def Pipeline.FiresBetween (p : Pipeline) (after latest : Instant) : Prop :=
  ∃ timer schedule, p.timer = some timer ∧ Cron.Schedule.ofSpec? timer.spec = some schedule ∧
    schedule.firesBetween after latest = true

namespace Name

variable {kind : NameKind}

theorem compare_eq_of_isLE {a b : Name kind} (hab : (compare a b).isLE = true) (hba : (compare b a).isLE = true) :
    compare a b = .eq := by
  cases hcompare : compare a b with
  | lt => simp [Std.OrientedCmp.gt_iff_lt.mpr hcompare] at hba
  | eq => rfl
  | gt => simp [hcompare] at hab

theorem pairwise_sort (names : List (Name kind)) : (Name.sort names).Pairwise fun a b => (compare a b).isLE := by
  refine List.pairwise_mergeSort (fun _ _ _ => Std.TransCmp.isLE_trans) (fun a b => ?_) names
  cases hcompare : compare a b with
  | lt => rfl
  | eq => rfl
  | gt => simp [Std.OrientedCmp.gt_iff_lt.mp hcompare]

end Name

namespace Snapshot

theorem schedule?_eq_ok_iff {p : Pipeline} {schedule : Cron.Schedule} :
    p.schedule? = some (.ok schedule) ↔
      ∃ timer, p.timer = some timer ∧ Cron.Schedule.ofSpec? timer.spec = some schedule := by
  unfold Pipeline.schedule?
  cases p.timer with
  | none => simp
  | some timer => cases hspec : Cron.Schedule.ofSpec? timer.spec <;> simp [hspec]

/-- The timer of a pipeline as a snapshot keeps it. -/
def timerEntry? (p : Pipeline) : Option (PipelineName × Cron.Schedule) :=
  match p.schedule? with
  | some (.ok schedule) => some (p.name, schedule)
  | _ => none

theorem timersOf_eq (pipelines : List Pipeline) : timersOf pipelines = .ofList (pipelines.filterMap timerEntry?) :=
  rfl

theorem timerEntry?_eq_some_iff {p : Pipeline} {e : PipelineName × Cron.Schedule} :
    timerEntry? p = some e ↔ p.name = e.1 ∧
      ∃ timer, p.timer = some timer ∧ Cron.Schedule.ofSpec? timer.spec = some e.2 := by
  rw [← schedule?_eq_ok_iff, timerEntry?]
  split
  · next hschedule => simp [hschedule, Prod.ext_iff]
  · next hnone => simpa using fun _ => hnone e.2

theorem mem_timersOf_iff {pipelines : List Pipeline} (hdistinct : Distinct pipelines)
    {e : PipelineName × Cron.Schedule} :
    e ∈ (timersOf pipelines).entries ↔ ∃ p ∈ pipelines, p.name = e.1 ∧
      ∃ timer, p.timer = some timer ∧ Cron.Schedule.ofSpec? timer.spec = some e.2 := by
  have hkeys : (pipelines.filterMap timerEntry?).Pairwise fun a b => compare b.1 a.1 ≠ .eq := by
    refine List.pairwise_filterMap.mpr (hdistinct.imp fun hne a ha b hb => ?_)
    rw [← (timerEntry?_eq_some_iff.mp ha).1, ← (timerEntry?_eq_some_iff.mp hb).1, Ne, ← Name.same_iff_compare,
      Name.same_comm, hne]
    exact Bool.false_ne_true
  rw [timersOf_eq, (SortedMap.perm_ofList hkeys).mem_iff, List.mem_filterMap]
  simp only [timerEntry?_eq_some_iff]

section

variable {c : Configuration} {version : Nat} {s : Snapshot} {after latest : Instant}

/-- A snapshot has the timers of the pipelines it declares, under their names. -/
theorem mem_timers_of_build (h : build c version = .ok s) {e : PipelineName × Cron.Schedule} :
    e ∈ s.timers.entries ↔ ∃ p ∈ s.pipelines, p.name = e.1 ∧
      ∃ timer, p.timer = some timer ∧ Cron.Schedule.ofSpec? timer.spec = some e.2 := by
  obtain ⟨-, rfl⟩ := build_eq_ok_iff.mp h
  exact mem_timersOf_iff (Graph.distinct_pipelines _)

theorem mem_due_iff {name : PipelineName} :
    name ∈ s.due after latest ↔
      ∃ schedule, (name, schedule) ∈ s.timers.entries ∧ schedule.firesBetween after latest = true := by
  rw [due, List.mem_map]
  constructor
  · rintro ⟨⟨_, schedule⟩, he, rfl⟩
    exact ⟨schedule, List.mem_filter.mp he⟩
  · rintro ⟨schedule, he, hfires⟩
    exact ⟨(name, schedule), List.mem_filter.mpr ⟨he, hfires⟩, rfl⟩

/-- The due pipelines are the declared ones whose timer fires. -/
theorem mem_due_iff_of_build (h : build c version = .ok s) {name : PipelineName} :
    name ∈ s.due after latest ↔ ∃ p ∈ s.pipelines, p.name = name ∧ p.FiresBetween after latest := by
  simp only [mem_due_iff, mem_timers_of_build h]
  constructor
  · rintro ⟨schedule, ⟨p, hp, hname, timer, htimer, hspec⟩, hfires⟩
    exact ⟨p, hp, hname, timer, schedule, htimer, hspec, hfires⟩
  · rintro ⟨p, hp, hname, timer, schedule, htimer, hspec, hfires⟩
    exact ⟨schedule, ⟨p, hp, hname, timer, htimer, hspec⟩, hfires⟩

theorem pairwise_due (s : Snapshot) (after latest : Instant) :
    (s.due after latest).Pairwise fun a b => compare a b = .lt :=
  List.pairwise_map.mpr (s.timers.ascending.filter _)

/-- No due pipeline is another spelling of another one. -/
theorem pairwise_due_not_same (s : Snapshot) (after latest : Instant) :
    (s.due after latest).Pairwise fun a b => ¬ a.same b = true :=
  (s.pairwise_due after latest).imp fun hlt hsame => by simp [Name.same_iff_compare.mp hsame] at hlt

theorem eq_of_mem_due {a b : PipelineName} (ha : a ∈ s.due after latest) (hb : b ∈ s.due after latest)
    (hsame : a.same b = true) : a = b := by
  have hsymm : Std.Symm fun a b : PipelineName => ¬ a.same b = true := ⟨fun a b h => Name.same_comm a b ▸ h⟩
  by_contra hne
  exact (s.pairwise_due_not_same after latest).forall ha hb hne hsame

/-- Sorting the due pipelines gives the same from any order of the timers: their names are all different. -/
theorem sort_due_of_perm {entries : List (PipelineName × Cron.Schedule)} (h : entries.Perm s.timers.entries) :
    Name.sort ((entries.filter fun e => e.2.firesBetween after latest).map Prod.fst) = s.due after latest := by
  have hsame : (Name.sort ((entries.filter fun e => e.2.firesBetween after latest).map Prod.fst)).Perm
      (s.due after latest) := (List.mergeSort_perm _ _).trans ((h.filter _).map _)
  refine hsame.eq_of_pairwise (fun a b ha hb hab hba => ?_) (Name.pairwise_sort _)
    ((s.pairwise_due after latest).imp fun hlt => by simp [hlt])
  exact eq_of_mem_due (hsame.mem_iff.mp ha) hb (Name.same_iff_compare.mpr (Name.compare_eq_of_isLE hab hba))

/-- What is due in windows end to end is due in one of them. -/
theorem mem_due_chain (h : build c version = .ok s) {cuts : List Instant} (hyear : 0 ≤ after.date.year)
    (hchain : (after :: cuts).IsChain fun t t' => t.upTo t' = true) {name : PipelineName} :
    name ∈ s.due after ((after :: cuts).getLast (List.cons_ne_nil _ _)) ↔
      ∃ window ∈ (after :: cuts).zip cuts, name ∈ s.due window.1 window.2 := by
  have hsplit : ∀ {schedule}, (name, schedule) ∈ s.timers.entries →
      (schedule.firesBetween after ((after :: cuts).getLast (List.cons_ne_nil _ _)) = true ↔
        ∃ window ∈ (after :: cuts).zip cuts, schedule.firesBetween window.1 window.2 = true) := by
    intro schedule he
    obtain ⟨_, -, -, timer, -, hspec⟩ := (mem_timers_of_build h).mp he
    have hforetells := Cron.Schedule.foretells_next? (Cron.Schedule.wellFormed_of_ofSpec? hspec)
    exact (hforetells.foundBetween_chain hyear hchain).2
  simp only [mem_due_iff]
  constructor
  · rintro ⟨schedule, he, hfires⟩
    obtain ⟨window, hwindow, hfires⟩ := (hsplit he).mp hfires
    exact ⟨window, hwindow, schedule, he, hfires⟩
  · rintro ⟨window, hwindow, schedule, he, hfires⟩
    exact ⟨schedule, he, (hsplit he).mpr ⟨window, hwindow, hfires⟩⟩

end

/-- A schedule fires in a window when one of its fire times is after the left end and not after the right, and
a window cut in two has what its parts have. Windows laid end to end therefore lose no timer of a snapshot:
a pipeline is due in the whole exactly when it is due in a part. The due pipelines of any window are the declared
ones whose timer fires in it, strictly ascending by name, from whatever order of the timers. -/
theorem timer_windows_tile :
    (∀ (spec : String) (schedule : Cron.Schedule), Cron.Schedule.ofSpec? spec = some schedule →
      ∀ after latest : Instant, 0 ≤ after.date.year →
        (schedule.firesBetween after latest = true ↔
          ∃ f, schedule.firesAt f = true ∧ after.before f = true ∧ f.upTo latest = true) ∧
        ∀ between, after.upTo between = true → between.upTo latest = true →
          (schedule.firesBetween after latest = true ↔
            schedule.firesBetween after between = true ∨ schedule.firesBetween between latest = true)) ∧
    ∀ (c : Configuration) (version : Nat) (s : Snapshot), build c version = .ok s →
      (∀ (after : Instant) (cuts : List Instant), 0 ≤ after.date.year →
        (after :: cuts).IsChain (fun t t' => t.upTo t' = true) → ∀ name,
          (name ∈ s.due after ((after :: cuts).getLast (List.cons_ne_nil _ _)) ↔
            ∃ window ∈ (after :: cuts).zip cuts, name ∈ s.due window.1 window.2)) ∧
      ∀ after latest : Instant,
        (s.due after latest).Pairwise (fun a b => compare a b = .lt) ∧
        (∀ name, name ∈ s.due after latest ↔
          ∃ p ∈ s.pipelines, p.name = name ∧ p.FiresBetween after latest) ∧
        ∀ entries : List (PipelineName × Cron.Schedule), entries.Perm s.timers.entries →
          Name.sort ((entries.filter fun e => e.2.firesBetween after latest).map Prod.fst) =
            s.due after latest := by
  refine ⟨fun spec schedule hspec after latest hyear => ?_, fun c version s hbuild => ⟨?_, ?_⟩⟩
  · have hforetells := Cron.Schedule.foretells_next? (Cron.Schedule.wellFormed_of_ofSpec? hspec)
    exact ⟨hforetells.foundBetween_iff hyear, fun between hafter hlatest =>
      hforetells.foundBetween_split hyear hafter hlatest⟩
  · exact fun after cuts hyear hchain name => mem_due_chain hbuild hyear hchain
  · exact fun after latest =>
      ⟨s.pairwise_due after latest, fun name => mem_due_iff_of_build hbuild, fun _ => sort_due_of_perm⟩

/-- Ten in the evening of 2024-05-01. -/
def atTen : Instant := ⟨1714600800, 0⟩

def beforeTen : Instant := atTen.addMinutes (-1)
def halfPastTen : Instant := atTen.addMinutes 30

set_option maxRecDepth 100000 in
/-- A timer that fires at ten is due up to ten, and not from ten on. -/
theorem nightly_due_up_to_ten :
    ∃ schedule, Cron.Schedule.ofSpec? "0 0 22 * * *" = some schedule ∧
      (∃ f, schedule.firesAt f = true ∧ beforeTen.before f = true ∧ f.upTo halfPastTen = true) ∧
      (⟨"nightly"⟩ : PipelineName) ∈ Session.nightlyRead.engine.snapshot.due beforeTen halfPastTen ∧
      (⟨"nightly"⟩ : PipelineName) ∉ Session.nightlyRead.engine.snapshot.due atTen halfPastTen := by
  have hspec : (Cron.Schedule.ofSpec? "0 0 22 * * *").isSome = true := by decide +kernel
  have hdue : (⟨"nightly"⟩ : PipelineName) ∈ Session.nightlyRead.engine.snapshot.due beforeTen atTen := by
    decide +kernel
  have hlate : (⟨"nightly"⟩ : PipelineName) ∉ Session.nightlyRead.engine.snapshot.due atTen halfPastTen := by
    decide +kernel
  have hfires : ((Cron.Schedule.ofSpec? "0 0 22 * * *").any fun schedule =>
      schedule.firesBetween beforeTen atTen) = true := by decide +kernel
  obtain ⟨schedule, hschedule⟩ := Option.isSome_iff_exists.mp hspec
  rw [hschedule] at hfires
  obtain ⟨hbetween, hsplit⟩ := timer_windows_tile.1 _ schedule hschedule beforeTen halfPastTen (by decide)
  have hwhole := (hsplit atTen (by decide) (by decide)).mpr (Or.inl hfires)
  have hparts := (timer_windows_tile.2 _ 1 _ (Snapshot.build_of_sound Session.sound_nightly 1)).1 beforeTen
    [atTen, halfPastTen] (by decide) (by simp only [List.isChain_cons_cons]; decide) ⟨"nightly"⟩
  exact ⟨schedule, hschedule, hbetween.mp hwhole, hparts.mpr ⟨_, List.mem_cons_self, hdue⟩, hlate⟩

end Snapshot

end BuildScheduling
