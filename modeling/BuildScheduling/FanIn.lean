import BuildScheduling.Pipeline

/-!
# Fan-in of materials

Materials that are declared in several places are one material to poll. The declarations that qualify are
collected by fingerprint, and the first of them stands for all.
-/

namespace BuildScheduling

/-- One material for each fingerprint, in fingerprint order. -/
abbrev MaterialSet := FingerprintMap Material

namespace MaterialSet

def collect (materials : List Material) : MaterialSet :=
  .ofFirsts (materials.map fun m => (m.fingerprint, m))

def fingerprints (s : MaterialSet) : List Fingerprint := s.keys

def withUrl (s : MaterialSet) (url : String) : List Material :=
  (s.entries.map Prod.snd).filter fun m => m.url? == some url

end MaterialSet

/-- Materials that are polled: some declaration of them has auto-update on. -/
def Configuration.pollable (c : Configuration) : MaterialSet :=
  .collect (c.declaredMaterials.filter Material.autoUpdate)

/-- Repositories that wait for a notification of a commit: some declaration of them has auto-update off. -/
def Configuration.postCommit (c : Configuration) : MaterialSet :=
  .collect (c.declaredMaterials.filter fun m => !m.autoUpdate && !m.isDependency)

end BuildScheduling
