import BuildScheduling.Proofs.Snapshot.Acceptance
import BuildScheduling.Samples

/-!
# Reading a sample configuration

Sample sessions start out by reading a configuration (`Session.reading`). Whether one is accepted is found out by
looking at it: its pipelines stand in a build order already (`Configuration.Orderly`), so it is sound without a search
for cycles. What happens afterwards can be run from the session in which the configuration is in effect (`reading_eq`).
-/

namespace BuildScheduling

/-- A configuration whose pipelines have names of their own, stand in a build order, and have timers that can be
read. -/
def Configuration.Orderly (c : Configuration) : Prop :=
  Distinct c.pipelines ∧ InBuildOrder c.pipelines ∧
    ∀ p ∈ c.pipelines, ∀ timer ∈ p.timer, (Cron.Schedule.ofSpec? timer.spec).isSome = true

instance (c : Configuration) : Decidable c.Orderly := inferInstanceAs (Decidable (_ ∧ _ ∧ _))

theorem Configuration.Orderly.sound {c : Configuration} (h : c.Orderly) : c.Sound := by
  obtain ⟨hdistinct, horder, htimers⟩ := h
  obtain ⟨hclosed, hacyclic⟩ := (closed_and_acyclic_iff hdistinct).mpr ⟨_, .refl _, horder⟩
  exact ⟨hdistinct, hclosed, hacyclic, fun p hp timer htimer => Option.isSome_iff_exists.mp (htimers p hp timer htimer)⟩

namespace Session

/-- A fresh engine reads a configuration, and then something happens. -/
def reading (settings : Settings) (c : Configuration) (later : List Operation) : Session InMemory :=
  (fresh settings).run .inMemory (.request (.reload c) :: later)

/-- A fresh engine in which a configuration is in effect. -/
def published (settings : Settings) (c : Configuration) : Session InMemory :=
  (fresh settings).publish InMemory.collaborators (.ofConfiguration c 1)

variable {c : Configuration}

theorem reload_fresh (h : c.Sound) (settings : Settings) :
    (fresh settings).reload InMemory.collaborators c = (.ok (.ofConfiguration c 1), published settings c) :=
  reload_of_build (Snapshot.build_of_sound h 1)

theorem next_reload (h : c.Sound) (settings : Settings) :
    ((fresh settings).next .inMemory (.request (.reload c))).2 = published settings c :=
  congrArg Prod.snd (reload_fresh h settings)

theorem reading_eq (h : c.Orderly) (settings : Settings) (later : List Operation) :
    reading settings c later = (published settings c).run .inMemory later := by
  rw [reading, run_cons, next_reload h.sound]

end Session

end BuildScheduling
