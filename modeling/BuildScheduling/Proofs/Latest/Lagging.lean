import BuildScheduling.Proofs.Latest.Heard
import BuildScheduling.Samples

/-!
# Sources that lag behind

A source reports the history of a material, newest first, and may lag behind: it then reports an older part of the
history than it could (`Lags`). Only one revision is kept of all that was reported, and a new report is compared
with this one alone: does the report list it, and if not, which is newer? That is enough
(`lagging_reports_passed_over`): the revision that is kept, and each one that is returned, is the newest that
headed any report so far. The invariant is where the kept revision stands in the history (`Tracks`): no head of a
report so far stands before it. The next report is a part of the same history, so either it goes back at least as
far, and lists the kept revision, or it is shorter, and all that it lists is older.

A source that never loses what was returned last is taken at its word instead: its newest revision is returned,
whatever the times of the check-ins say (`StillListed`).
-/

namespace BuildScheduling

/-- Newest first, and no two under one identifier. -/
def InOrder (history : List Revision) : Prop :=
  history.Pairwise fun a b => a.identifier ≠ b.identifier ∧ a.newerThan b = true

/-- Each report is the oldest part of what a history has grown to by then. -/
def Lags (reports : List (List Revision)) : Prop :=
  ∃ truth : Nat → List Revision, (∀ i, truth i <:+ truth (i + 1)) ∧ (∀ i, InOrder (truth i)) ∧
    ∀ (i : Nat) (report : List Revision), reports[i]? = some report → report <:+ truth i

/-- The newest of the revisions that stand first in reports. -/
structure NewestHead (reports : List (List Revision)) (r : Revision) : Prop where
  head : ∃ report ∈ reports, report.head? = some r
  newest : ∀ report ∈ reports, ∀ head, report.head? = some head → head = r ∨ r.newerThan head = true

/-- Each report lists, by its identifier, what was latest known when it was made. -/
def StillListed (known : Option Revision) (reports : List (List Revision)) : Prop :=
  ∀ (i : Nat) (report : List Revision), reports[i]? = some report →
    ∀ r, recalled known (reports.take i) = some r → ∃ listed ∈ report, listed.identifier = r.identifier

/-! ### One report -/

theorem remembered_of_listed {known head : Revision} {reported : List Revision}
    (h : ∃ listed ∈ reported, listed.identifier = known.identifier) :
    remembered (some known) head reported = head := by
  obtain ⟨listed, hlisted, hidentifier⟩ := h
  have hany : reported.any (fun r => r.identifier == known.identifier) = true :=
    List.any_eq_true.mpr ⟨listed, hlisted, beq_iff_eq.mpr hidentifier⟩
  simp [remembered, hany]

theorem remembered_of_newer {known head : Revision} {reported : List Revision}
    (hlost : ∀ listed ∈ reported, listed.identifier ≠ known.identifier) (hnewer : known.newerThan head = true) :
    remembered (some known) head reported = known := by
  have hany : reported.any (fun r => r.identifier == known.identifier) = false :=
    List.any_eq_false.mpr fun listed hlisted => by simpa using hlost listed hlisted
  simp [remembered, hany, hnewer]

/-- A revision heads some report, and no head of a report stands before it in the history. -/
structure Tracks (truth : List Revision) (reports : List (List Revision)) (known : Revision) : Prop where
  head : ∃ report ∈ reports, report.head? = some known
  newest : ∃ older, known :: older <:+ truth ∧
    ∀ report ∈ reports, ∀ head, report.head? = some head → head ∈ known :: older

namespace Tracks

variable {truth truth' : List Revision} {reports : List (List Revision)} {known : Revision}

theorem mono (h : Tracks truth reports known) (hgrows : truth <:+ truth') : Tracks truth' reports known := by
  obtain ⟨older, hsuffix, hheads⟩ := h.newest
  exact ⟨h.head, older, hsuffix.trans hgrows, hheads⟩

theorem newestHead (h : Tracks truth reports known) (htruth : InOrder truth) : NewestHead reports known := by
  obtain ⟨older, hsuffix, hheads⟩ := h.newest
  have horder : InOrder (known :: older) := htruth.sublist hsuffix.sublist
  refine ⟨h.head, fun report hreport head hhead => ?_⟩
  rcases List.mem_cons.mp (hheads report hreport head hhead) with hsame | holder
  · exact Or.inl hsame
  · exact Or.inr ((List.pairwise_cons.mp horder).1 head holder).2

/-- The first report. -/
theorem first {head : Revision} {rest : List Revision} (hreport : head :: rest <:+ truth) :
    Tracks truth [head :: rest] head := by
  refine ⟨⟨_, List.mem_singleton_self _, rfl⟩, rest, hreport, fun report hmem newest hnewest => ?_⟩
  rw [List.mem_singleton.mp hmem] at hnewest
  cases hnewest
  exact List.mem_cons_self

/-- One more report, of another part of the same history. -/
theorem hear (h : Tracks truth reports known) (htruth : InOrder truth) {head : Revision}
    {rest : List Revision} (hreport : head :: rest <:+ truth) :
    Tracks truth (reports ++ [head :: rest]) (remembered (some known) head (head :: rest)) := by
  obtain ⟨older, hsuffix, hheads⟩ := h.newest
  obtain ⟨hold, hhold, hknown⟩ := h.head
  have hboth : ∀ (heads : List Revision), head ∈ heads →
      (∀ report ∈ reports, ∀ first, report.head? = some first → first ∈ heads) →
      ∀ report ∈ reports ++ [head :: rest], ∀ first, report.head? = some first → first ∈ heads := by
    intro heads hhead hreports report hmem first hfirst
    rcases List.mem_append.mp hmem with hmem | hmem
    · exact hreports report hmem first hfirst
    · rw [List.mem_singleton.mp hmem] at hfirst
      cases hfirst
      exact hhead
  rcases List.suffix_or_suffix_of_suffix hsuffix hreport with hlists | hshorter
  · -- The report goes back far enough to list what is known.
    have hlisted : known ∈ head :: rest := hlists.subset List.mem_cons_self
    rw [remembered_of_listed ⟨known, hlisted, rfl⟩]
    refine ⟨⟨head :: rest, by simp, rfl⟩, rest, hreport, hboth _ List.mem_cons_self ?_⟩
    intro report hmem first hfirst
    exact hlists.subset (hheads report hmem first hfirst)
  · rcases List.suffix_cons_iff.mp hshorter with hsame | holder
    · -- It is headed by what is known.
      obtain ⟨rfl, rfl⟩ := List.cons.inj hsame
      rw [remembered_of_listed ⟨head, List.mem_cons_self, rfl⟩]
      exact ⟨⟨head :: rest, by simp, rfl⟩, rest, hreport, hboth _ List.mem_cons_self hheads⟩
    · have horder : InOrder (known :: older) := htruth.sublist hsuffix.sublist
      have habove := (List.pairwise_cons.mp horder).1
      have hhead : head ∈ older := holder.subset List.mem_cons_self
      have hlost : ∀ listed ∈ head :: rest, listed.identifier ≠ known.identifier := by
        intro listed hlisted
        exact (habove listed (holder.subset hlisted)).1.symm
      rw [remembered_of_newer hlost (habove head hhead).2]
      refine ⟨⟨hold, List.mem_append_left _ hhold, hknown⟩, older, hsuffix, ?_⟩
      exact hboth _ (List.mem_cons_of_mem _ hhead) hheads

end Tracks

/-! ### All reports -/

/-- What holds of each of several reports, by its place, holds of the first ones. -/
theorem forall_getElem?_of_append {P : Nat → List Revision → Prop} {first second : List (List Revision)}
    (h : ∀ (i : Nat) (report : List Revision), (first ++ second)[i]? = some report → P i report)
    (i : Nat) (report : List Revision) (hi : first[i]? = some report) : P i report := by
  obtain ⟨hlt, -⟩ := List.getElem?_eq_some_iff.mp hi
  exact h i report (by rwa [List.getElem?_append_left hlt])

theorem Lags.of_prefix {first reports : List (List Revision)} (h : Lags reports) (hfirst : first <+: reports) :
    Lags first := by
  obtain ⟨second, rfl⟩ := hfirst
  obtain ⟨truth, hgrows, horder, hreports⟩ := h
  exact ⟨truth, hgrows, horder, forall_getElem?_of_append hreports⟩

/-- What is known after lagging reports is the newest that headed any of them. -/
theorem newestHead_of_lags {reports : List (List Revision)} (hlags : Lags reports) (hlist : [] ∉ reports)
    (hsome : reports ≠ []) : ∃ r, recalled none reports = some r ∧ NewestHead reports r := by
  obtain ⟨truth, hgrows, horder, hreports⟩ := hlags
  suffices htracks : ∃ r, recalled none reports = some r ∧ Tracks (truth reports.length) reports r by
    obtain ⟨r, hr, htracks⟩ := htracks
    exact ⟨r, hr, htracks.newestHead (horder _)⟩
  induction reports using List.reverseRecOn with
  | nil => exact absurd rfl hsome
  | append_singleton reports report ih =>
    have hreport : report <:+ truth reports.length := hreports _ report (by simp)
    rw [recalled_append, List.length_append]
    cases report with
    | nil => exact absurd (by simp) hlist
    | cons head rest =>
      rcases List.eq_nil_or_concat reports with rfl | hnonempty
      · exact ⟨head, rfl, (Tracks.first hreport).mono (hgrows _)⟩
      · have hne : reports ≠ [] := by
          obtain ⟨others, last, rfl⟩ := hnonempty
          simp
        have hearlier : [] ∉ reports := fun hmem => hlist (List.mem_append_left _ hmem)
        obtain ⟨r, hr, htracks⟩ := ih hearlier hne (forall_getElem?_of_append hreports)
        refine ⟨_, ?_, (htracks.hear (horder _) hreport).mono (hgrows _)⟩
        rw [hr]
        rfl

/-- A report that lists what is known is taken at its word. -/
theorem hear_of_listed {known : Option Revision} {report : List Revision} (hlist : report ≠ [])
    (h : ∀ r, known = some r → ∃ listed ∈ report, listed.identifier = r.identifier) :
    hear known report = report.head? := by
  cases report with
  | nil => exact absurd rfl hlist
  | cons head rest =>
    cases known with
    | none => rfl
    | some r => exact congrArg some (remembered_of_listed (h r rfl))

theorem StillListed.of_prefix {known : Option Revision} {first reports : List (List Revision)}
    (h : StillListed known reports) (hfirst : first <+: reports) : StillListed known first := by
  obtain ⟨second, rfl⟩ := hfirst
  intro i report hi r hr
  obtain ⟨hlt, -⟩ := List.getElem?_eq_some_iff.mp hi
  refine h i report (by rwa [List.getElem?_append_left hlt]) r ?_
  rwa [List.take_append_of_le_length hlt.le]

theorem StillListed.recalled_concat {known : Option Revision} {reports : List (List Revision)}
    {report : List Revision} (h : StillListed known (reports ++ [report])) (hlist : report ≠ []) :
    recalled known (reports ++ [report]) = report.head? := by
  have hlast := h reports.length report (by simp)
  rw [List.take_left] at hlast
  rw [recalled_append]
  exact hear_of_listed hlist hlast

namespace Session

variable {σ χ : Type} {env : Environment σ χ} {m : Material}

/-! ### Runs -/

/-- As long as every accepted configuration declares a material, what is known of it after a run is recalled over
what the run hears. -/
theorem get?_known_deeds {s : Session σ} {happenings : List (Happening χ)}
    (hsingle : ∀ h ∈ happenings, h.Single) (hdeclared : ∀ h ∈ happenings, h.KeepsDeclared m) :
    (s.run env happenings).engine.known.get? m.fingerprint =
      recalled (s.engine.known.get? m.fingerprint)
        ((s.deeds env happenings).flatMap (Deed.heard env m.fingerprint)) := by
  induction happenings generalizing s with
  | nil => rfl
  | cons h rest ih =>
    obtain ⟨hh, hrest⟩ := List.forall_mem_cons.mp hsingle
    obtain ⟨hkeeps, hdeclared⟩ := List.forall_mem_cons.mp hdeclared
    have hnext : (s.next env h).2.engine.known.get? m.fingerprint =
        recalled (s.engine.known.get? m.fingerprint) (Deed.heard env m.fingerprint ⟨s, h⟩) := by
      by_cases hreload : ∃ c, h = .request (.reload c)
      · obtain ⟨c, rfl⟩ := hreload
        rcases (s.progress_reload env.collab c m).2 with hkept | ⟨-, herrors, hundeclared⟩
        · exact hkept
        · exact absurd (hkeeps c (List.mem_singleton_self c) herrors) hundeclared
      · exact get?_known_next env s hh (fun c hc => hreload ⟨c, hc⟩) m.fingerprint
    rw [run_cons, ih hrest hdeclared, hnext, ← recalled_append]
    rfl

/-- What is known before a deed of a run and after it, and what the deed returns, when its material stays
declared. -/
theorem recalled_at_deed {s : Session σ} {happenings : List (Happening χ)}
    (hdeclared : ∀ h ∈ happenings, h.KeepsDeclared m) {earlier later : List (Deed σ χ)} {d : Deed σ χ}
    (hhistory : s.history env happenings = earlier ++ d :: later) :
    d.before.engine.known.get? m.fingerprint =
        recalled (s.engine.known.get? m.fingerprint) (earlier.flatMap (Deed.heard env m.fingerprint)) ∧
      (d.after env).engine.known.get? m.fingerprint =
        recalled (s.engine.known.get? m.fingerprint)
          (earlier.flatMap (Deed.heard env m.fingerprint) ++ d.heard env m.fingerprint) := by
  obtain ⟨first, rest, hatoms, rfl, hbefore, -⟩ := deeds_eq_append_cons hhistory
  have hok : ∀ h ∈ first ++ [d.happening], h.Single ∧ h.KeepsDeclared m := by
    intro h hh
    have hmem : h ∈ s.atoms env happenings := by
      rw [hatoms, ← List.singleton_append, ← List.append_assoc]
      exact List.mem_append_left _ hh
    obtain ⟨_, whole, hwhole, hpart⟩ := exists_mem_parts_of_mem_atoms hmem
    exact ⟨single_of_mem_parts hpart, keepsDeclared_of_mem_parts hpart (hdeclared whole hwhole)⟩
  have hfirst : ∀ h ∈ first, h.Single ∧ h.KeepsDeclared m := fun h hh => hok h (List.mem_append_left _ hh)
  have hafter : d.after env = s.run env (first ++ [d.happening]) := by
    rw [run_append, ← hbefore]
    rfl
  constructor
  · rw [hbefore]
    exact get?_known_deeds (fun h hh => (hfirst h hh).1) fun h hh => (hfirst h hh).2
  · rw [hafter, get?_known_deeds (fun h hh => (hok h hh).1) fun h hh => (hok h hh).2, deeds_append,
      List.flatMap_append, ← hbefore]
    simp [deeds]

theorem nil_not_mem_flatMap_heard (env : Environment σ χ) (material : Fingerprint) (deeds : List (Deed σ χ)) :
    [] ∉ deeds.flatMap (Deed.heard env material) := by
  intro hmem
  obtain ⟨d, -, hd⟩ := List.mem_flatMap.mp hmem
  exact nil_not_mem_heard _ _ _ hd

/-- A returned revision is the one that was latest known after a report that the deed heard. -/
theorem returned_getElem? {known : Option Revision} {d : Deed σ χ} {past : List (List Revision)}
    (hbefore : d.before.engine.known.get? m.fingerprint = recalled known past) {k : Nat} {r : Revision}
    (hr : (d.returned env m)[k]? = some r) :
    k < (d.heard env m.fingerprint).length ∧
      recalled known (past ++ (d.heard env m.fingerprint).take (k + 1)) = some r := by
  rcases returned_eq_recallings env m (d := d) with hreturned | ⟨hnone, -⟩
  · have hlist : [] ∉ d.heard env m.fingerprint := nil_not_mem_heard _ _ _
    rw [hreturned, getElem?_recallings hlist, hbefore] at hr
    split at hr
    · next hk =>
      rw [recalled_append]
      exact ⟨hk, hr⟩
    · cases hr
  · rw [hnone] at hr
    cases hr

/-- Over any run in which every accepted configuration declares a material: whatever is returned of the material,
and whatever is known of it after a deed,

* is the newest revision that headed any of the reports so far, if nothing was known at the start and each report
  is the oldest part of what one history has grown to, and
* is the newest revision of the last report, if each report lists the identifier of what was known when it was
  made, whatever the times of the check-ins.

A look at the latest revision returns one as soon as the report on it lists any. -/
theorem lagging_reports_passed_over (env : Environment σ χ) (settings : Settings) (world : σ) (m : Material)
    (before happenings : List (Happening χ)) (hdeclared : ∀ h ∈ happenings, h.KeepsDeclared m) :
    let s := (start settings world).run env before
    let reports := (s.history env happenings).flatMap (Deed.heard env m.fingerprint)
    ∀ (earlier : List (Deed σ χ)) (d : Deed σ χ) (later : List (Deed σ χ)),
      s.history env happenings = earlier ++ d :: later →
      let past := earlier.flatMap (Deed.heard env m.fingerprint)
      let now := d.heard env m.fingerprint
      (s.engine.known.get? m.fingerprint = none → Lags reports →
        (∀ (k : Nat) (r : Revision), (d.returned env m)[k]? = some r →
          NewestHead (past ++ now.take (k + 1)) r) ∧
        (past ++ now ≠ [] →
          ∃ r, (d.after env).engine.known.get? m.fingerprint = some r ∧ NewestHead (past ++ now) r)) ∧
      (StillListed (s.engine.known.get? m.fingerprint) reports →
        (∀ (k : Nat) (r : Revision), (d.returned env m)[k]? = some r →
          ∃ report, now[k]? = some report ∧ report.head? = some r) ∧
        ∀ (reports : List (List Revision)) (report : List Revision), past ++ now = reports ++ [report] →
          (d.after env).engine.known.get? m.fingerprint = report.head?) ∧
      ∀ other, d.happening = .request (.latest other) → (d.returned env m).length = now.length := by
  intro s reports earlier d later hhistory past now
  obtain ⟨hbefore, hafter⟩ := recalled_at_deed hdeclared hhistory
  have hpast : past ++ now <+: reports := by
    refine ⟨later.flatMap (Deed.heard env m.fingerprint), ?_⟩
    show _ = (s.history env happenings).flatMap _
    rw [hhistory, List.flatMap_append, List.flatMap_cons, List.append_assoc]
  have hpart : ∀ k, past ++ now.take k <+: reports := fun k =>
    ((List.prefix_append_right_inj past).mpr (List.take_prefix k now)).trans hpast
  have hlist : ∀ {part}, part <+: reports → [] ∉ part := fun hpart hmem =>
    nil_not_mem_flatMap_heard env m.fingerprint _ (hpart.subset hmem)
  refine ⟨fun hnone hlags => ⟨fun k r hr => ?_, fun hsome => ?_⟩,
    fun hlisted => ⟨fun k r hr => ?_, fun others report hreport => ?_⟩, fun other hother => ?_⟩
  · obtain ⟨hk, hrecalled⟩ := returned_getElem? hbefore hr
    rw [hnone] at hrecalled
    have hsome : past ++ now.take (k + 1) ≠ [] := by
      intro hnil
      rw [hnil] at hrecalled
      cases hrecalled
    obtain ⟨r', hr', hnewest⟩ :=
      newestHead_of_lags (hlags.of_prefix (hpart (k + 1))) (hlist (hpart (k + 1))) hsome
    obtain rfl : r' = r := Option.some.inj (hr'.symm.trans hrecalled)
    exact hnewest
  · rw [hafter, hnone]
    exact newestHead_of_lags (hlags.of_prefix hpast) (hlist hpast) hsome
  · obtain ⟨hk, hrecalled⟩ := returned_getElem? hbefore hr
    have htake : past ++ now.take (k + 1) = past ++ now.take k ++ [now[k]] := by
      rw [List.take_succ_eq_append_getElem hk, List.append_assoc]
    have hlast := hlisted.of_prefix (hpart (k + 1))
    have hnonempty := hlist (hpart (k + 1))
    rw [htake] at hlast hnonempty hrecalled
    rw [hlast.recalled_concat fun hnil => hnonempty (by simp [hnil])] at hrecalled
    exact ⟨now[k], List.getElem?_eq_getElem hk, hrecalled⟩
  · have hlast := hlisted.of_prefix hpast
    have hnonempty := hlist hpast
    rw [hreport] at hlast hnonempty
    rw [hafter]
    show recalled _ (past ++ now) = _
    rw [hreport]
    exact hlast.recalled_concat fun hnil => hnonempty (by simp [hnil])
  · rcases returned_eq_recallings env m (d := d) with hreturned | ⟨-, hnone⟩
    · rw [hreturned]
      exact length_recallings (nil_not_mem_heard _ _ _)
    · exact absurd hother (hnone other)

/-! ### Two looks -/

/-- A look at a repository hears its history. -/
theorem heard_look {s : Session InMemory} {m : Material} (hm : m.dependency? = none)
    (hfailure : s.world.failure = none) (hhistory : s.world.history m.fingerprint ≠ []) :
    Deed.heard .inMemory m.fingerprint ⟨s, .request (.latest m)⟩ = [s.world.history m.fingerprint] := by
  have hanswer : (InMemory.collaborators.reportOn s.engine.snapshot m s.world).1.answer =
      .ok (.checkIns (s.world.history m.fingerprint)) := by
    simp only [Collaborators.reportOn, hm, Call.map, Reply.map]
    split <;> simp [InMemory.collaborators, InMemory.polled, hfailure, Except.map]
  have hreports : s.latestReports InMemory.collaborators m = [(m, .checkIns (s.world.history m.fingerprint))] := by
    have hask := Attempt.on_ask_eq none (InMemory.collaborators.reportOn s.engine.snapshot m) s.progress
    rw [Option.any_none, if_neg Bool.false_ne_true, show s.progress.world = s.world from rfl, hanswer] at hask
    rw [latestReports, hask]
    rfl
  show heard ∅ m.fingerprint (s.latestReports InMemory.collaborators m) = _
  rw [hreports, heard_of_unpegged rfl]
  simp [Report.revisions, hhistory]

theorem history_setHistory (w : InMemory) (m : Material) (revisions : List Revision) :
    (w.setHistory m revisions).history m.fingerprint = revisions := by
  rw [InMemory.history, InMemory.setHistory, SortedMap.get?_insert, if_pos Std.ReflCmp.compare_self]
  rfl

/-- A source has one history when it is looked at first, and another one when it is looked at again. -/
def twoLooks (m : Material) (first second : List Revision) : List Operation :=
  [.world (.setHistory m first), .request (.latest m), .world (.setHistory m second), .request (.latest m)]

def firstLook (m : Material) (first : List Revision) : Deed InMemory WorldChange :=
  ⟨⟨.fresh {}, InMemory.setHistory {} m first⟩, .request (.latest m)⟩

def secondLook (m : Material) (first second : List Revision) : Deed InMemory WorldChange :=
  ⟨⟨((firstLook m first).after .inMemory).engine, ((firstLook m first).after .inMemory).world.setHistory m second⟩,
    .request (.latest m)⟩

/-- What happens up to the second look. -/
def untilSecondLook (m : Material) (first second : List Revision) : List (Deed InMemory WorldChange) :=
  [⟨start {} {}, .world (.setHistory m first)⟩, firstLook m first,
    ⟨(firstLook m first).after .inMemory, .world (.setHistory m second)⟩]

theorem history_twoLooks (m : Material) (first second : List Revision) :
    (start {} {}).history .inMemory (twoLooks m first second) =
      untilSecondLook m first second ++ [secondLook m first second] := rfl

theorem heard_firstLook {m : Material} {first : List Revision} (hm : m.dependency? = none) (hfirst : first ≠ []) :
    (firstLook m first).heard .inMemory m.fingerprint = [first] := by
  have hhistory := history_setHistory {} m first
  have hlook := heard_look (s := (firstLook m first).before) hm rfl (hhistory.trans_ne hfirst)
  exact hlook.trans (congrArg (fun listed => [listed]) hhistory)

/-- A look leaves the poller as well as it was. -/
theorem failure_latest (s : Session InMemory) {m : Material} (hm : m.dependency? = none) :
    (s.latest InMemory.collaborators m).2.world.failure = s.world.failure := by
  have hcall : (InMemory.collaborators.reportOn s.engine.snapshot m s.world).2.failure = s.world.failure := by
    simp only [Collaborators.reportOn, hm, Call.map, InMemory.collaborators]
    split
    · rfl
    · dsimp only
      split <;> rfl
  have hworld := (Attempt.on_ask none (InMemory.collaborators.reportOn s.engine.snapshot m) s.progress).2.1
  have hasked : ((Attempt.ask none (InMemory.collaborators.reportOn s.engine.snapshot m)).on
      s.progress).2.world.failure = s.world.failure := by
    rcases hworld with hkept | hcalled
    · exact congrArg InMemory.failure hkept
    · exact (congrArg InMemory.failure hcalled).trans hcall
  show ((Attempt.latest InMemory.collaborators none s.engine.snapshot m).on s.progress).2.world.failure = _
  rw [Attempt.latest_eq, Attempt.on_bind]
  rcases hon : (Attempt.ask none (InMemory.collaborators.reportOn s.engine.snapshot m)).on s.progress with
    ⟨_ | report, mid⟩
  · rwa [hon] at hasked
  · rwa [hon] at hasked

theorem heard_secondLook {m : Material} {first second : List Revision} (hm : m.dependency? = none)
    (hsecond : second ≠ []) : (secondLook m first second).heard .inMemory m.fingerprint = [second] := by
  have hhistory := history_setHistory ((firstLook m first).after .inMemory).world m second
  have hlook := heard_look (s := (secondLook m first second).before) hm
    (failure_latest (firstLook m first).before hm) (hhistory.trans_ne hsecond)
  exact hlook.trans (congrArg (fun listed => [listed]) hhistory)

theorem heard_untilSecondLook {m : Material} {first second : List Revision} (hm : m.dependency? = none)
    (hfirst : first ≠ []) :
    (untilSecondLook m first second).flatMap (Deed.heard .inMemory m.fingerprint) = [first] := by
  simp [untilSecondLook, heard_world, heard_firstLook hm hfirst]

theorem lags_without_second :
    Lags [[Samples.checkIn "r2" 2, Samples.checkIn "r1" 1], [Samples.checkIn "r1" 1]] := by
  refine ⟨fun _ => [Samples.checkIn "r2" 2, Samples.checkIn "r1" 1], fun _ => List.suffix_rfl, fun _ => ?_,
    fun i report hi => ?_⟩
  · simp only [InOrder]
    decide +kernel
  · rcases i with _ | _ | i
    · cases hi
      exact List.suffix_rfl
    · cases hi
      exact List.suffix_cons _ _
    · cases hi

theorem stillListed_backdated :
    StillListed none [[Samples.checkIn "r1" 5], [Samples.checkIn "r2" 3, Samples.checkIn "r1" 5]] := by
  intro i report hi r hr
  rcases i with _ | _ | i
  · cases hr
  · cases hi
    cases hr
    exact ⟨Samples.checkIn "r1" 5, by simp, rfl⟩
  · cases hi

theorem keepsDeclared_twoLooks (m : Material) (first second : List Revision) :
    ∀ h ∈ twoLooks m first second, h.KeepsDeclared m := by
  intro h hh c hc
  simp only [twoLooks, List.mem_cons, List.not_mem_nil, or_false] at hh
  rcases hh with rfl | rfl | rfl | rfl <;> exact absurd hc List.not_mem_nil

/-- A report without the second check-in is passed over, and one with an older time is taken at its word. -/
theorem lagging_passed_over_and_backdated_taken :
    (∃ r, (secondLook (Samples.git "app") [Samples.checkIn "r2" 2, Samples.checkIn "r1" 1]
        [Samples.checkIn "r1" 1]).returned .inMemory (Samples.git "app") = [r] ∧
      NewestHead [[Samples.checkIn "r2" 2, Samples.checkIn "r1" 1], [Samples.checkIn "r1" 1]] r) ∧
    (secondLook (Samples.git "app") [Samples.checkIn "r1" 5]
        [Samples.checkIn "r2" 3, Samples.checkIn "r1" 5]).returned .inMemory (Samples.git "app") =
      [Samples.checkIn "r2" 3] := by
  have hm : (Samples.git "app").dependency? = none := rfl
  constructor
  · obtain ⟨hlags, -, hlength⟩ := lagging_reports_passed_over .inMemory {} {} (Samples.git "app") []
      (twoLooks (Samples.git "app") [Samples.checkIn "r2" 2, Samples.checkIn "r1" 1] [Samples.checkIn "r1" 1])
      (keepsDeclared_twoLooks _ _ _) _ _ [] (history_twoLooks _ _ _)
    rw [run_nil, history_twoLooks, List.flatMap_append, List.flatMap_singleton,
      heard_untilSecondLook hm (List.cons_ne_nil _ _), heard_secondLook hm (List.cons_ne_nil _ _)] at hlags
    rw [heard_secondLook hm (List.cons_ne_nil _ _)] at hlength
    obtain ⟨r, hr⟩ := List.length_eq_one_iff.mp (hlength _ rfl)
    exact ⟨r, hr, (hlags rfl lags_without_second).1 0 r (by rw [hr]; rfl)⟩
  · obtain ⟨-, hlisted, hlength⟩ := lagging_reports_passed_over .inMemory {} {} (Samples.git "app") []
      (twoLooks (Samples.git "app") [Samples.checkIn "r1" 5] [Samples.checkIn "r2" 3, Samples.checkIn "r1" 5])
      (keepsDeclared_twoLooks _ _ _) _ _ [] (history_twoLooks _ _ _)
    rw [run_nil, history_twoLooks, List.flatMap_append, List.flatMap_singleton,
      heard_untilSecondLook hm (List.cons_ne_nil _ _), heard_secondLook hm (List.cons_ne_nil _ _)] at hlisted
    rw [heard_secondLook hm (List.cons_ne_nil _ _)] at hlength
    obtain ⟨r, hr⟩ := List.length_eq_one_iff.mp (hlength _ rfl)
    obtain ⟨report, hreport, hhead⟩ := (hlisted stillListed_backdated).1 0 r (by rw [hr]; rfl)
    cases hreport
    cases hhead
    exact hr

end Session

end BuildScheduling
