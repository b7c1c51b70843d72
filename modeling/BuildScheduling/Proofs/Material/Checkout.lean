import BuildScheduling.Proofs.Material.Identity
import BuildScheduling.Resolution
import Mathlib.Data.List.Nodup

/-!
# What a checkout fingerprint tells of a material

The text behind a checkout fingerprint is another fingerprint, a mark and the destination. The destination may hold the
mark as well, but the text can be cut in one place only, since the fingerprint at its front always has sixty-four
characters (`checkoutSource_eq_iff`). And it is never the text behind a plain fingerprint: it begins with a hexadecimal
digit, and those begin with a `t` (`checkoutSource_ne_fingerprintSource`).

So, as far as the digest keeps these texts apart, an override that names a checkout is for the materials with this
repository at this destination and no others, and one that names a material is for the material at every destination.
-/

namespace BuildScheduling

namespace Sha256

/-- The digest keeps some texts apart. -/
def Separates (texts : List String) : Prop := ∀ s ∈ texts, ∀ t ∈ texts, hexDigest s = hexDigest t → s = t

theorem separates_of_nodup {texts distinct : List String} (h : (distinct.map hexDigest).Nodup)
    (hsub : texts ⊆ distinct) : Separates texts :=
  fun _ hs _ ht => List.inj_on_of_nodup_map h (hsub hs) (hsub ht)

theorem hexDigit_ne_of_le {n : UInt32} (h : n ≤ 15) : hexDigit n ≠ 't' := by
  have hdigits : ∀ k : Fin 16, hexDigit (UInt32.ofNat k) ≠ 't' := by decide
  have hlt : n.toNat < 16 := Nat.lt_succ_of_le (UInt32.le_iff_toNat_le.mp h)
  simpa using hdigits ⟨n.toNat, hlt⟩

/-- A digest begins with a hexadecimal digit. -/
theorem first_hexDigest_ne (s : String) : (hexDigest s).toList[0]? ≠ some 't' := by
  intro h
  rw [hexDigest, Digest.hex, String.toList_ofList] at h
  refine hexDigit_ne_of_le (n := ((digest s.toUTF8.data.toList).a >>> 28) &&& 15) ?_ (Option.some.inj h)
  rw [UInt32.le_iff_toNat_le, UInt32.toNat_and]
  exact Nat.and_le_right

end Sha256

/-- One revision is asked for. -/
def Overrides.only (key wanted : String) : Overrides := .ofList [(key, wanted)]

namespace Material

/-- The texts that the two fingerprints of a material are digests of. -/
def digested (m : Material) : List String := [m.source.fingerprintSource, m.checkoutSource]

variable {m m' : Material}

theorem toList_checkoutSource (m : Material) :
    m.checkoutSource.toList = m.fingerprint.text.toList ++ ("<|>dest=".toList ++ (m.destination.getD "").toList) := by
  rw [checkoutSource, String.toList_append, String.toList_append, List.append_assoc]

theorem length_toList_fingerprint (m : Material) : m.fingerprint.text.toList.length = 64 := by
  rw [String.length_toList]
  exact Sha256.length_hexDigest _

theorem checkoutSource_eq_iff :
    m.checkoutSource = m'.checkoutSource ↔
      m.fingerprint = m'.fingerprint ∧ m.destination.getD "" = m'.destination.getD "" := by
  rw [← String.toList_inj, toList_checkoutSource, toList_checkoutSource]
  constructor
  · intro h
    have hlength : m.fingerprint.text.toList.length = m'.fingerprint.text.toList.length := by
      rw [length_toList_fingerprint, length_toList_fingerprint]
    obtain ⟨hfront, hrest⟩ := List.append_inj h hlength
    have htext : m.fingerprint.text = m'.fingerprint.text := String.toList_inj.mp hfront
    exact ⟨congrArg Fingerprint.mk htext, String.toList_inj.mp (List.append_cancel_left hrest)⟩
  · rintro ⟨hfingerprint, hdestination⟩
    rw [hfingerprint, hdestination]

theorem first_fingerprintSource (source : MaterialSource) : source.fingerprintSource.toList[0]? = some 't' := by
  cases source with
  | scm type url branch => rw [MaterialSource.toList_fingerprintSource_scm]; rfl
  | dependency pipeline stage => rw [MaterialSource.toList_fingerprintSource_dependency]; rfl

/-- No text is behind fingerprints of both kinds. -/
theorem checkoutSource_ne_fingerprintSource (m : Material) (source : MaterialSource) :
    m.checkoutSource ≠ source.fingerprintSource := by
  intro h
  have hfirst : m.checkoutSource.toList[0]? = m.fingerprint.text.toList[0]? := by
    rw [toList_checkoutSource]
    exact List.getElem?_append_left (by rw [length_toList_fingerprint]; decide)
  refine Sha256.first_hexDigest_ne m.source.fingerprintSource (hfirst.symm.trans ?_)
  rw [h, first_fingerprintSource]

/-! ### Where the digest keeps the texts apart -/

section

variable {texts : List String} (hdigest : Sha256.Separates texts) (hm : m.digested ⊆ texts) (hm' : m'.digested ⊆ texts)

include hdigest hm hm'

theorem checkoutFingerprint_eq_iff :
    m.checkoutFingerprint = m'.checkoutFingerprint ↔
      m.fingerprint = m'.fingerprint ∧ m.destination.getD "" = m'.destination.getD "" := by
  rw [← checkoutSource_eq_iff]
  constructor
  · intro h
    exact hdigest _ (hm (by simp [digested])) _ (hm' (by simp [digested])) (congrArg Fingerprint.text h)
  · intro h
    rw [checkoutFingerprint, checkoutFingerprint, h]

theorem checkoutFingerprint_ne_fingerprint : m.checkoutFingerprint ≠ m'.fingerprint := by
  intro h
  exact checkoutSource_ne_fingerprintSource m m'.source
    (hdigest _ (hm (by simp [digested])) _ (hm' (by simp [digested])) (congrArg Fingerprint.text h))

end

theorem wanted?_only (key wanted : String) (m : Material) :
    (Overrides.only key wanted).wanted? m =
      if m.checkoutFingerprint.text = key ∨ m.fingerprint.text = key then some wanted else none := by
  have hget : ∀ text : String, (Overrides.only key wanted).get? text = if text = key then some wanted else none :=
    fun text => by simp [Overrides.only, SortedMap.ofList, SortedMap.get?_insert]
  rw [Overrides.wanted?, hget, hget]
  by_cases hcheckout : m.checkoutFingerprint.text = key <;> simp [hcheckout]

/-- Among materials for whose texts the digest does not collide, two have one checkout fingerprint exactly when they have
one fingerprint and one destination, where none is the same as an empty one. No checkout fingerprint of one is a
fingerprint of another. So a key that names a checkout asks for a revision of the materials checked out there, and one
that names a material asks for it at every destination; and no key names some of them in the one way and some in the
other. -/
theorem checkouts_told_apart (materials : List Material)
    (hdigest : Sha256.Separates (materials.flatMap digested)) :
    (∀ m ∈ materials, ∀ m' ∈ materials,
      (m.checkoutFingerprint = m'.checkoutFingerprint ↔
        m.fingerprint = m'.fingerprint ∧ m.destination.getD "" = m'.destination.getD "") ∧
      m.checkoutFingerprint ≠ m'.fingerprint ∧
      ∀ wanted : String,
        (Overrides.only m.checkoutFingerprint.text wanted).wanted? m' =
          (if m.fingerprint = m'.fingerprint ∧ m.destination.getD "" = m'.destination.getD "" then some wanted
            else none) ∧
        (Overrides.only m.fingerprint.text wanted).wanted? m' =
          if m.fingerprint = m'.fingerprint then some wanted else none) ∧
    ∀ key : String, (∀ m ∈ materials, m.checkoutFingerprint.text ≠ key) ∨ ∀ m ∈ materials, m.fingerprint.text ≠ key := by
  have hdigested : ∀ m ∈ materials, m.digested ⊆ materials.flatMap digested := fun m hm text htext =>
    List.mem_flatMap.mpr ⟨m, hm, htext⟩
  have hkinds : ∀ m ∈ materials, ∀ m' ∈ materials, m.checkoutFingerprint.text ≠ m'.fingerprint.text :=
    fun m hm m' hm' h =>
      checkoutFingerprint_ne_fingerprint hdigest (hdigested m hm) (hdigested m' hm') (congrArg Fingerprint.mk h)
  constructor
  · intro m hm m' hm'
    have hiff := checkoutFingerprint_eq_iff hdigest (hdigested m hm) (hdigested m' hm')
    refine ⟨hiff, fun h => hkinds m hm m' hm' (congrArg Fingerprint.text h), fun wanted => ⟨?_, ?_⟩⟩
    · have hnamed : m'.checkoutFingerprint.text = m.checkoutFingerprint.text ∨
          m'.fingerprint.text = m.checkoutFingerprint.text ↔ m.checkoutFingerprint = m'.checkoutFingerprint := by
        rw [or_iff_left (hkinds m hm m' hm').symm]
        exact ⟨fun h => congrArg Fingerprint.mk h.symm, fun h => congrArg Fingerprint.text h.symm⟩
      simp only [wanted?_only, hnamed, hiff]
    · have hnamed : m'.checkoutFingerprint.text = m.fingerprint.text ∨
          m'.fingerprint.text = m.fingerprint.text ↔ m.fingerprint = m'.fingerprint := by
        rw [or_iff_right (hkinds m' hm' m hm)]
        exact ⟨fun h => congrArg Fingerprint.mk h.symm, fun h => congrArg Fingerprint.text h.symm⟩
      simp only [wanted?_only, hnamed]
  · intro key
    by_cases hkey : ∃ m ∈ materials, m.checkoutFingerprint.text = key
    · obtain ⟨m, hm, rfl⟩ := hkey
      exact Or.inr fun m' hm' => (hkinds m hm m' hm').symm
    · exact Or.inl fun m hm h => hkey ⟨m, hm, h⟩

/-! One repository checked out three times. -/

def inPlace : Material := Material.git "src"

def atEmpty : Material := inPlace.withDestination ""

/-- The destination holds the mark that stands before it. -/
def atMark : Material := inPlace.withDestination "lib<|>dest=lib"

set_option maxRecDepth 100000 in
/-- No destination and an empty one are the same, and what is asked for there is not asked for elsewhere. -/
theorem marked_destination_pegged_alone :
    Sha256.Separates ([inPlace, atEmpty, atMark].flatMap digested) ∧
    inPlace.checkoutFingerprint = atEmpty.checkoutFingerprint ∧
    let overrides : Overrides := .only atMark.checkoutFingerprint.text "r1"
    overrides.wanted? atMark = some "r1" ∧ overrides.wanted? inPlace = none := by
  have hdistinct : ([inPlace.source.fingerprintSource, inPlace.checkoutSource, atMark.checkoutSource].map
      Sha256.hexDigest).Nodup := by decide +kernel
  have hthree : ∀ plain first second : String,
      [plain, first, plain, first, plain, second] ⊆ [plain, first, second] := by simp
  have hdigest : Sha256.Separates ([inPlace, atEmpty, atMark].flatMap digested) :=
    Sha256.separates_of_nodup hdistinct (hthree _ _ _)
  obtain ⟨hpairs, -⟩ := checkouts_told_apart [inPlace, atEmpty, atMark] hdigest
  have hdestinations : inPlace.destination.getD "" ≠ atMark.destination.getD "" := by decide
  refine ⟨hdigest, ?_, ?_, ?_⟩
  · exact (hpairs inPlace (by simp) atEmpty (by simp)).1.mpr ⟨rfl, rfl⟩
  · simpa using ((hpairs atMark (by simp) atMark (by simp)).2.2 "r1").1
  · simpa [hdestinations.symm] using ((hpairs atMark (by simp) inPlace (by simp)).2.2 "r1").1

end Material

end BuildScheduling
