import BuildScheduling.Engine.Operation

/-!
# The history of a run

A run taken apart into single deeds: a notification or a tick is one attempt after another, and a list of
configurations one reload after another (`Session.parts`). A deed is one such part and the session in which
it happens. The history of a run (`Session.history`) lists its deeds in order, and its last deed leaves the
session that the run leaves (`run_atoms`). So a property of whole runs is a property of what single deeds do:
`invariant_run` for sessions, `deeds_eq_append_cons` for looking back from one deed on those before it.
-/

namespace BuildScheduling

variable {σ χ : Type} (env : Environment σ χ)

/-- Neither a notification, nor a tick, nor a list of configurations. -/
def Happening.Single : Happening χ → Prop
  | .request (.postCommit _) => False
  | .request (.tick _ _) => False
  | .request (.follow _) => False
  | _ => True

/-- One thing that happens, and the session in which it does. -/
structure Deed (σ χ : Type) where
  before : Session σ
  happening : Happening χ

def Deed.answer (d : Deed σ χ) : Answer := (d.before.next env d.happening).1

def Deed.after (d : Deed σ χ) : Session σ := (d.before.next env d.happening).2

/-- Looking back over a list for the last element of one kind that only elements of another kind follow: the list
is taken apart from its end. What comes before the element may decide its kind. -/
theorem exists_split_concat {α : Type} {P : List α → α → Prop} {Q : α → Prop} {l : List α} {a : α} :
    (∃ before d since, l ++ [a] = before ++ d :: since ∧ P before d ∧ ∀ e ∈ since, Q e) ↔
      P l a ∨ Q a ∧ ∃ before d since, l = before ++ d :: since ∧ P before d ∧ ∀ e ∈ since, Q e := by
  constructor
  · rintro ⟨before, d, since, hsplit, hd, hsince⟩
    rcases List.eq_nil_or_concat since with rfl | ⟨since, last, rfl⟩
    · obtain ⟨rfl, hlast⟩ := List.append_inj' hsplit rfl
      obtain rfl := List.singleton_inj.mp hlast
      exact Or.inl hd
    · rw [List.concat_eq_append, ← List.cons_append, ← List.append_assoc] at hsplit
      rw [List.concat_eq_append] at hsince
      obtain ⟨hl, hlast⟩ := List.append_inj' hsplit rfl
      obtain rfl := List.singleton_inj.mp hlast
      refine Or.inr ⟨hsince a (by simp), before, d, since, hl, hd, fun e he => ?_⟩
      exact hsince e (List.mem_append_left _ he)
  · rintro (hlast | ⟨hlast, before, d, since, rfl, hd, hsince⟩)
    · exact ⟨l, a, [], rfl, hlast, by simp⟩
    · refine ⟨before, d, since ++ [a], by simp, hd, fun e he => ?_⟩
      rcases List.mem_append.mp he with he | he
      · exact hsince e he
      · rwa [List.mem_singleton.mp he]

namespace Session

/-- The single things that something which happens in a session consists of. -/
def parts (s : Session σ) : Happening χ → List (Happening χ)
  | .request (.postCommit url) =>
    (notified s.engine.snapshot url).map fun name => .request (.attempt name .auto)
  | .request (.tick after latest) =>
    (s.engine.snapshot.due after latest).map fun name => .request (.attempt name .timer)
  | .request (.follow configurations) => configurations.map fun c => .request (.reload c)
  | h => [h]

/-- The single things that happen in a run. -/
def atoms (s : Session σ) : List (Happening χ) → List (Happening χ)
  | [] => []
  | h :: rest => s.parts h ++ (s.next env h).2.atoms rest

/-- The deeds of things that happen one after another. -/
def deeds (s : Session σ) : List (Happening χ) → List (Deed σ χ)
  | [] => []
  | h :: rest => ⟨s, h⟩ :: (s.next env h).2.deeds rest

/-- Every single deed of a run, in order. -/
def history (s : Session σ) (happenings : List (Happening χ)) : List (Deed σ χ) :=
  s.deeds env (s.atoms env happenings)

variable {env}

@[simp] theorem run_nil (s : Session σ) : s.run env [] = s := rfl

@[simp] theorem run_cons (s : Session σ) (h : Happening χ) (rest : List (Happening χ)) :
    s.run env (h :: rest) = (s.next env h).2.run env rest := rfl

theorem run_append (s : Session σ) (first second : List (Happening χ)) :
    s.run env (first ++ second) = (s.run env first).run env second := by
  rw [run, List.foldl_append]
  rfl

/-! ### Parts -/

theorem run_map_attempt (s : Session σ) (names : List PipelineName) (event : TriggerEvent) :
    s.run env (names.map fun name => .request (.attempt name event)) =
      (s.scheduleAll env.collab event names).2 := by
  induction names generalizing s with
  | nil => rfl
  | cons name rest ih =>
    rw [List.map_cons, run_cons, ih]
    rfl

theorem run_map_reload (s : Session σ) (configurations : List Configuration) :
    s.run env (configurations.map fun c => .request (.reload c)) =
      (s.follow env.collab configurations).2 := by
  induction configurations generalizing s with
  | nil => rfl
  | cons c rest ih =>
    rw [List.map_cons, run_cons, ih]
    rfl

theorem run_parts (s : Session σ) (h : Happening χ) : s.run env (s.parts h) = (s.next env h).2 := by
  unfold parts
  split
  · exact run_map_attempt s _ .auto
  · exact run_map_attempt s _ .timer
  · exact run_map_reload s _
  · rfl

/-- A part is an attempt, a configuration out of a list, or all that happens. -/
theorem mem_parts_cases {s : Session σ} {h part : Happening χ} (hpart : part ∈ s.parts h) :
    (∃ name event, part = .request (.attempt name event)) ∨
    (∃ configurations, h = .request (.follow configurations) ∧
      ∃ c ∈ configurations, part = .request (.reload c)) ∨
    part = h ∧ part.Single := by
  unfold parts at hpart
  split at hpart
  · obtain ⟨name, -, rfl⟩ := List.mem_map.mp hpart
    exact Or.inl ⟨name, .auto, rfl⟩
  · obtain ⟨name, -, rfl⟩ := List.mem_map.mp hpart
    exact Or.inl ⟨name, .timer, rfl⟩
  · next configurations =>
    obtain ⟨c, hc, rfl⟩ := List.mem_map.mp hpart
    exact Or.inr (Or.inl ⟨configurations, rfl, c, hc, rfl⟩)
  · next hcommit htick hfollow =>
    obtain rfl := List.mem_singleton.mp hpart
    refine Or.inr (Or.inr ⟨rfl, ?_⟩)
    unfold Happening.Single
    split
    · next url => exact hcommit url rfl
    · next after latest => exact htick after latest rfl
    · next configurations => exact hfollow configurations rfl
    · trivial

theorem single_of_mem_parts {s : Session σ} {h part : Happening χ} (hpart : part ∈ s.parts h) :
    part.Single := by
  rcases mem_parts_cases hpart with ⟨_, _, rfl⟩ | ⟨_, rfl, _, -, rfl⟩ | ⟨-, hsingle⟩
  · trivial
  · trivial
  · exact hsingle

theorem run_atoms (s : Session σ) (happenings : List (Happening χ)) :
    s.run env (s.atoms env happenings) = s.run env happenings := by
  induction happenings generalizing s with
  | nil => rfl
  | cons h rest ih => rw [atoms, run_append, run_parts, ih, run_cons]

/-- Each single thing of a run is part of one of the things that happen in it. -/
theorem exists_mem_parts_of_mem_atoms {s : Session σ} {happenings : List (Happening χ)}
    {part : Happening χ} (hpart : part ∈ s.atoms env happenings) :
    ∃ s' : Session σ, ∃ h ∈ happenings, part ∈ s'.parts h := by
  induction happenings generalizing s with
  | nil => simp [atoms] at hpart
  | cons h rest ih =>
    rw [atoms, List.mem_append] at hpart
    rcases hpart with hpart | hpart
    · exact ⟨s, h, List.mem_cons_self, hpart⟩
    · obtain ⟨s', h', hh', hpart⟩ := ih hpart
      exact ⟨s', h', List.mem_cons_of_mem _ hh', hpart⟩

theorem single_of_mem_atoms {s : Session σ} {happenings : List (Happening χ)} {part : Happening χ}
    (hpart : part ∈ s.atoms env happenings) : part.Single := by
  obtain ⟨_, _, _, hpart⟩ := exists_mem_parts_of_mem_atoms hpart
  exact single_of_mem_parts hpart

/-! ### Deeds -/

theorem deeds_append (s : Session σ) (first second : List (Happening χ)) :
    s.deeds env (first ++ second) = s.deeds env first ++ (s.run env first).deeds env second := by
  induction first generalizing s with
  | nil => rfl
  | cons h rest ih => rw [List.cons_append, deeds, deeds, ih, List.cons_append, run_cons]

/-- A deed in a list of deeds comes after the run of those before it. -/
theorem deeds_eq_append_cons {s : Session σ} {happenings : List (Happening χ)} {d : Deed σ χ}
    {earlier later : List (Deed σ χ)} (h : s.deeds env happenings = earlier ++ d :: later) :
    ∃ first rest, happenings = first ++ d.happening :: rest ∧ earlier = s.deeds env first ∧
      d.before = s.run env first ∧ later = (d.after env).deeds env rest := by
  induction happenings generalizing s earlier with
  | nil => simp [deeds] at h
  | cons a rest ih =>
    rw [deeds] at h
    cases earlier with
    | nil =>
      obtain ⟨rfl, rfl⟩ := List.cons.inj h
      exact ⟨[], rest, rfl, rfl, rfl, rfl⟩
    | cons e earlier =>
      obtain ⟨rfl, htail⟩ := List.cons.inj h
      obtain ⟨first, rest, rfl, hearlier, hbefore, hlater⟩ := ih htail
      exact ⟨a :: first, rest, rfl, by rw [deeds, hearlier], hbefore, hlater⟩

theorem mem_of_mem_deeds {s : Session σ} {happenings : List (Happening χ)} {d : Deed σ χ}
    (hd : d ∈ s.deeds env happenings) : d.happening ∈ happenings := by
  obtain ⟨earlier, later, hsplit⟩ := List.append_of_mem hd
  obtain ⟨first, rest, rfl, -⟩ := deeds_eq_append_cons hsplit
  exact List.mem_append_right _ List.mem_cons_self

theorem single_of_mem_history {s : Session σ} {happenings : List (Happening χ)} {d : Deed σ χ}
    (hd : d ∈ s.history env happenings) : d.happening.Single :=
  single_of_mem_atoms (mem_of_mem_deeds hd)

/-- What single things that meet `ok` keep holds before every deed and at the end. -/
theorem invariant_deeds {I : Session σ → Prop} {ok : Happening χ → Prop}
    (hstep : ∀ (s : Session σ) (h : Happening χ), ok h → I s → I (s.next env h).2)
    {s : Session σ} (hs : I s) {happenings : List (Happening χ)} (hok : ∀ h ∈ happenings, ok h) :
    (∀ d ∈ s.deeds env happenings, I d.before) ∧ I (s.run env happenings) := by
  induction happenings generalizing s with
  | nil => exact ⟨by simp [deeds], hs⟩
  | cons h rest ih =>
    obtain ⟨hh, hrest⟩ := List.forall_mem_cons.mp hok
    obtain ⟨hdeeds, hend⟩ := ih (hstep s h hh hs) hrest
    exact ⟨List.forall_mem_cons.mpr ⟨hs, hdeeds⟩, hend⟩

/-- What single things keep holds before every deed of a run and at its end. -/
theorem invariant_run {I : Session σ → Prop}
    (hstep : ∀ (s : Session σ) (h : Happening χ), h.Single → I s → I (s.next env h).2)
    {s : Session σ} (hs : I s) (happenings : List (Happening χ)) :
    (∀ d ∈ s.history env happenings, I d.before) ∧ I (s.run env happenings) := by
  rw [history, ← run_atoms s happenings]
  exact invariant_deeds hstep hs fun h hh => single_of_mem_atoms hh

end Session

end BuildScheduling
