import BuildScheduling.Material
import BuildScheduling.Proofs.Text.Mark

/-!
# What a fingerprint tells of a material

A fingerprint is the digest of a text that spells the material out, so, as far as the digest keeps texts apart,
two materials have one fingerprint exactly when they are spelled out alike. For dependencies that is: when they
name the same stage of the same pipeline. Their names have no capitals left in them and the mark between them
has one, so the mark cannot be mistaken.

For repositories it is less than that. Nothing keeps a location or a branch from holding the mark that stands
between the two, and then the text can be cut in more than one place (`Text.append_mark_cases`). Two repositories of
one kind are spelled out alike when they are the same, and also when one of the two locations goes on over such a
mark into what is the branch of the other (`MaterialSource.Shifted`); and in no other case
(`fingerprint_eq_iff_same_or_shifted`). As long as no location holds the mark, fingerprints tell materials apart.
-/

namespace BuildScheduling

namespace MaterialSource

/-- The second location is the first one, a branch mark and some text, and the first branch is that text, a branch
mark and the second branch. -/
def Shifted : MaterialSource → MaterialSource → Prop
  | scm type url branch, scm type' url' branch' =>
    type = type' ∧ ∃ between : String, url' = url ++ "<|>branch=" ++ between ∧
      branch.getD "" = between ++ "<|>branch=" ++ branch'.getD ""
  | _, _ => False

/-! ### Kinds -/

theorem toList_fingerprintSource_scm (type : ScmType) (url : String) (branch : Option String) :
    (scm type url branch).fingerprintSource.toList =
      "type=".toList ++ (type.sourceTag.toList ++ ("<|>url=".toList ++
        (url.toList ++ ("<|>branch=".toList ++ (branch.getD "").toList)))) := by
  show ("type=" ++ type.sourceTag ++ "<|>url=" ++ url ++ "<|>branch=" ++ branch.getD "").toList = _
  simp only [String.toList_append, List.append_assoc]

theorem toList_fingerprintSource_dependency (pipeline : PipelineName) (stage : StageName) :
    (dependency pipeline stage).fingerprintSource.toList =
      "type=DependencyMaterial<|>pipelineName=".toList ++
        (pipeline.folded.toList ++ ("<|>stageName=".toList ++ stage.folded.toList)) := by
  show ("type=DependencyMaterial<|>pipelineName=" ++ pipeline.folded ++ "<|>stageName=" ++ stage.folded).toList = _
  simp only [String.toList_append, List.append_assoc]

/-- No two words for a kind begin with the same letter. -/
theorem type_eq_of_append_eq {type type' : ScmType} {more more' : List Char}
    (h : type.sourceTag.toList ++ more = type'.sourceTag.toList ++ more') : type = type' := by
  have hfirst := congrArg List.head? h
  cases type <;> cases type' <;> first | rfl | simp [ScmType.sourceTag] at hfirst

theorem scm_ne_dependency (type : ScmType) (url : String) (branch : Option String) (pipeline : PipelineName)
    (stage : StageName) :
    (scm type url branch).fingerprintSource ≠ (dependency pipeline stage).fingerprintSource := by
  intro h
  have hletter := congrArg (fun text : String => text.toList[5]?) h
  simp only [toList_fingerprintSource_scm, toList_fingerprintSource_dependency] at hletter
  cases type <;> simp [ScmType.sourceTag] at hletter

/-! ### Repositories -/

theorem toList_append_branchMark (first second : String) :
    (first ++ "<|>branch=" ++ second).toList = first.toList ++ ("<|>branch=".toList ++ second.toList) := by
  simp only [String.toList_append, List.append_assoc]

theorem shifted_of_toList {type : ScmType} {url url' : String} {branch branch' : Option String}
    {between : List Char} (hurl : url'.toList = url.toList ++ ("<|>branch=".toList ++ between))
    (hbranch : (branch.getD "").toList = between ++ ("<|>branch=".toList ++ (branch'.getD "").toList)) :
    (scm type url branch).Shifted (scm type url' branch') := by
  obtain ⟨text, rfl⟩ : ∃ text : String, between = text.toList :=
    ⟨String.ofList between, String.toList_ofList.symm⟩
  refine ⟨rfl, text, ?_, ?_⟩
  · rw [← String.toList_inj, toList_append_branchMark, hurl]
  · rw [← String.toList_inj, toList_append_branchMark, hbranch]

theorem fingerprintSource_scm_eq_iff {type : ScmType} {url url' : String} {branch branch' : Option String} :
    (scm type url branch).fingerprintSource = (scm type url' branch').fingerprintSource ↔
      url = url' ∧ branch.getD "" = branch'.getD "" ∨
      (scm type url branch).Shifted (scm type url' branch') ∨
      (scm type url' branch').Shifted (scm type url branch) := by
  rw [← String.toList_inj, toList_fingerprintSource_scm, toList_fingerprintSource_scm,
    List.append_cancel_left_eq, List.append_cancel_left_eq, List.append_cancel_left_eq]
  constructor
  · intro h
    have hmark : '<' ∉ "|>branch=".toList := by simp
    rcases Text.append_mark_cases hmark h with ⟨hurl, hbranch⟩ | ⟨between, hurl, hbranch⟩ | ⟨between, hurl, hbranch⟩
    · exact Or.inl ⟨String.toList_inj.mp hurl, String.toList_inj.mp hbranch⟩
    · exact Or.inr (Or.inl (shifted_of_toList hurl hbranch))
    · exact Or.inr (Or.inr (shifted_of_toList hurl hbranch))
  · rintro (⟨rfl, hbranch⟩ | ⟨-, between, rfl, hbranch⟩ | ⟨-, between, rfl, hbranch⟩)
    · rw [hbranch]
    · rw [hbranch, toList_append_branchMark, toList_append_branchMark, List.append_assoc, List.append_assoc]
    · rw [hbranch, toList_append_branchMark, toList_append_branchMark, List.append_assoc, List.append_assoc]

/-! ### Dependencies -/

theorem toLower_ne_capital (c : Char) : c.toLower ≠ 'N' := by
  unfold Char.toLower
  split
  · next hcapital =>
    intro hc
    have hsmall := congrArg (fun c : Char => c.val.toNat) hc
    have hlow := UInt32.le_iff_toNat_le.mp hcapital.1
    have hhigh := UInt32.le_iff_toNat_le.mp hcapital.2
    simp [UInt32.toNat_add] at hsmall hlow hhigh
    omega
  · next hother =>
    rintro rfl
    simp at hother

theorem capital_not_mem_folded {kind : NameKind} (n : Name kind) : 'N' ∉ n.folded.toList := by
  rw [Name.folded, foldCase, String.toList_map, List.mem_map]
  rintro ⟨c, -, hc⟩
  exact toLower_ne_capital c hc

theorem fingerprintSource_dependency_eq_iff {pipeline pipeline' : PipelineName} {stage stage' : StageName} :
    (dependency pipeline stage).fingerprintSource = (dependency pipeline' stage').fingerprintSource ↔
      pipeline.same pipeline' = true ∧ stage.same stage' = true := by
  rw [← String.toList_inj, toList_fingerprintSource_dependency, toList_fingerprintSource_dependency,
    List.append_cancel_left_eq, Name.same_iff, Name.same_iff]
  constructor
  · intro h
    have hmark : '<' ∉ "|>stageName=".toList := by simp
    -- A name that held the mark would have a capital in it.
    have hcapital : ∀ (n : PipelineName) (before between : List Char),
        n.folded.toList ≠ before ++ '<' :: ("|>stageName=".toList ++ between) := by
      intro n before between hn
      have hmem : 'N' ∈ n.folded.toList := by simp [hn]
      exact capital_not_mem_folded n hmem
    rcases Text.append_mark_cases hmark h with ⟨hpipeline, hstage⟩ | ⟨between, hpipeline, -⟩ | ⟨between, hpipeline, -⟩
    · exact ⟨String.toList_inj.mp hpipeline, String.toList_inj.mp hstage⟩
    · exact absurd hpipeline (hcapital pipeline' _ between)
    · exact absurd hpipeline (hcapital pipeline _ between)
  · rintro ⟨hpipeline, hstage⟩
    rw [hpipeline, hstage]

/-! ### All materials -/

/-- Two sources are spelled out alike when they point at the same thing, and when they are repositories whose
locations and branches are cut differently out of one text. -/
theorem fingerprintSource_eq_iff {a b : MaterialSource} :
    a.fingerprintSource = b.fingerprintSource ↔
      a.sameIdentity b = true ∨ a.Shifted b ∨ b.Shifted a := by
  cases a with
  | scm type url branch =>
    cases b with
    | scm type' url' branch' =>
      by_cases htype : type = type'
      · subst htype
        rw [fingerprintSource_scm_eq_iff]
        simp [sameIdentity]
      · refine iff_of_false (fun h => ?_) ?_
        · rw [← String.toList_inj, toList_fingerprintSource_scm, toList_fingerprintSource_scm,
            List.append_cancel_left_eq] at h
          exact htype (type_eq_of_append_eq h)
        · rintro (h | ⟨h, -⟩ | ⟨h, -⟩)
          · simp [sameIdentity, htype] at h
          · exact htype h
          · exact htype h.symm
    | dependency pipeline stage =>
      exact iff_of_false (scm_ne_dependency type url branch pipeline stage) (by simp [sameIdentity, Shifted])
  | dependency pipeline stage =>
    cases b with
    | scm type url branch =>
      exact iff_of_false (scm_ne_dependency type url branch pipeline stage).symm (by simp [sameIdentity, Shifted])
    | dependency pipeline' stage' =>
      rw [fingerprintSource_dependency_eq_iff]
      simp [sameIdentity, Shifted]

/-- A repository whose location holds no branch mark is not the longer one of two that are shifted. -/
theorem not_shifted_of_unmarked {a b : MaterialSource}
    (h : ∀ type url branch, b = scm type url branch → ¬ "<|>branch=".toList <:+: url.toList) : ¬ a.Shifted b := by
  intro hshifted
  cases a with
  | scm type url branch =>
    cases b with
    | scm type' url' branch' =>
      obtain ⟨-, between, hurl, -⟩ := hshifted
      refine h type' url' branch' rfl ⟨url.toList, between.toList, ?_⟩
      rw [hurl, toList_append_branchMark, List.append_assoc]
    | dependency pipeline stage => exact hshifted
  | dependency pipeline stage => exact hshifted

end MaterialSource

namespace Material

/-- The location of a material, if it has one, holds no branch mark. -/
def Unmarked (m : Material) : Prop := ∀ url, m.url? = some url → ¬ "<|>branch=".toList <:+: url.toList

theorem Unmarked.not_shifted {m : Material} (h : m.Unmarked) (other : MaterialSource) :
    ¬ other.Shifted m.source := by
  apply MaterialSource.not_shifted_of_unmarked
  intro type url branch hsource
  exact h url (by rw [url?, hsource])

/-- Where the digest keeps the texts of two materials apart, they have one fingerprint exactly when they point at
the same thing or are repositories that are cut differently out of one text; their destinations, names and polling
do not matter. When neither location holds a branch mark, the second does not occur. -/
theorem fingerprint_eq_iff_same_or_shifted (m m' : Material)
    (hdigest : Sha256.hexDigest m.source.fingerprintSource = Sha256.hexDigest m'.source.fingerprintSource →
      m.source.fingerprintSource = m'.source.fingerprintSource) :
    (m.fingerprint = m'.fingerprint ↔
      m.source.sameIdentity m'.source = true ∨ m.source.Shifted m'.source ∨ m'.source.Shifted m.source) ∧
    (m.Unmarked → m'.Unmarked →
      (m.fingerprint = m'.fingerprint ↔ m.source.sameIdentity m'.source = true)) := by
  have hspelled : m.fingerprint = m'.fingerprint ↔
      m.source.sameIdentity m'.source = true ∨ m.source.Shifted m'.source ∨ m'.source.Shifted m.source := by
    rw [← MaterialSource.fingerprintSource_eq_iff]
    constructor
    · intro h
      have htext : Sha256.hexDigest m.source.fingerprintSource = Sha256.hexDigest m'.source.fingerprintSource :=
        congrArg Fingerprint.text h
      exact hdigest htext
    · intro h
      rw [fingerprint, fingerprint, h]
  refine ⟨hspelled, fun hm hm' => ?_⟩
  rw [hspelled]
  constructor
  · rintro (h | h | h)
    · exact h
    · exact absurd h (hm'.not_shifted m.source)
    · exact absurd h (hm.not_shifted m'.source)
  · exact Or.inl

/-- The branch of one goes on where the location of the other one stops, over a branch mark. -/
def longBranch : Material := (Material.git "https://git.example.com/src").withBranch "release<|>branch=next"

def longLocation : Material := (Material.git "https://git.example.com/src<|>branch=release").withBranch "next"

theorem longBranch_shifted : longBranch.source.Shifted longLocation.source := by
  refine ⟨rfl, "release", ?_, ?_⟩
  · decide +kernel
  · decide +kernel

/-- Two repositories at different locations that are one material to everything that goes by fingerprints. -/
theorem longBranch_and_longLocation_share_fingerprint :
    longBranch.url? ≠ longLocation.url? ∧ longBranch.source.sameIdentity longLocation.source = false ∧
      longBranch.fingerprint = longLocation.fingerprint := by
  have htext : longBranch.source.fingerprintSource = longLocation.source.fingerprintSource :=
    MaterialSource.fingerprintSource_eq_iff.mpr (Or.inr (Or.inl longBranch_shifted))
  refine ⟨by decide +kernel, by decide +kernel, ?_⟩
  rw [fingerprint, fingerprint, htext]

def mainBranch : Material := (Material.git "https://git.example.com/src").withBranch "main"

theorem unmarked_withBranch (branch : String) :
    ((Material.git "https://git.example.com/src").withBranch branch).Unmarked := by
  intro url hurl
  obtain rfl : "https://git.example.com/src" = url := Option.some.inj hurl
  simp only [String.toList]
  decide +kernel

/-- Two branches of one repository have two fingerprints, and a shifted pair has one. -/
theorem branches_told_apart_and_shifted_not :
    mainBranch.fingerprint ≠ longBranch.fingerprint ∧ longBranch.fingerprint = longLocation.fingerprint := by
  have hdiffer : Sha256.hexDigest mainBranch.source.fingerprintSource ≠
      Sha256.hexDigest longBranch.source.fingerprintSource := by decide +kernel
  obtain ⟨-, hbranches⟩ := fingerprint_eq_iff_same_or_shifted mainBranch longBranch fun h => absurd h hdiffer
  have hother : mainBranch.source.sameIdentity longBranch.source = false := by decide +kernel
  have htext : longBranch.source.fingerprintSource = longLocation.source.fingerprintSource :=
    MaterialSource.fingerprintSource_eq_iff.mpr (Or.inr (Or.inl longBranch_shifted))
  obtain ⟨hlocations, -⟩ := fingerprint_eq_iff_same_or_shifted longBranch longLocation fun _ => htext
  constructor
  · intro h
    have hsame := (hbranches (unmarked_withBranch "main") (unmarked_withBranch "release<|>branch=next")).mp h
    exact Bool.false_ne_true (hother.symm.trans hsame)
  · exact hlocations.mpr (Or.inr (Or.inl longBranch_shifted))

end Material

end BuildScheduling
