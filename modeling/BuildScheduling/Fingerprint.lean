import BuildScheduling.SortedMap
import BuildScheduling.Digest.Sha256

/-!
# Fingerprints

A fingerprint is the digest of a text that spells out what it identifies. Fingerprints are compared and
ordered as text.
-/

namespace BuildScheduling

structure Fingerprint where
  text : String
  deriving DecidableEq

namespace Fingerprint

def ofSource (source : String) : Fingerprint := ⟨Sha256.hexDigest source⟩

instance : Ord Fingerprint := ⟨compareOn text⟩

instance : Std.TransOrd Fingerprint := inferInstanceAs (Std.TransCmp (compareOn text))

theorem compare_eq_iff {a b : Fingerprint} : compare a b = .eq ↔ a = b := by
  change compare a.text b.text = .eq ↔ _
  rw [Std.LawfulEqOrd.compare_eq_iff_eq]
  exact ⟨fun h => by cases a; cases b; simp_all, fun h => h ▸ rfl⟩

instance : Std.LawfulEqOrd Fingerprint := ⟨fun h => compare_eq_iff.mp h⟩

end Fingerprint

/-- Values kept per fingerprint, in fingerprint order. -/
abbrev FingerprintMap (α : Type) := SortedMap Fingerprint α

end BuildScheduling
