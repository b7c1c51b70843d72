import BuildScheduling.Proofs.Text.Mark
import BuildScheduling.Proofs.Text.Utf8

/-!
# Equality, order and hash of names agree

All three look at the bytes of a name with ASCII capitals folded (`Name.foldedBytes`): names are equal when these are the same,
ordered as these are lexicographically, and hashed from these and an end mark. The mark is no byte of any text, so no name's
feed of a hash goes on where another one's ends, and two feeds one after the other can be cut in one place only
(`Name.hashFeed_append_inj`).
-/

namespace BuildScheduling

namespace Name

variable {kind : NameKind} {a b c : Name kind}

/-- The bytes of the text as it was given, ASCII capitals folded. -/
def foldedBytes (n : Name kind) : List UInt8 := (utf8Bytes n.text).map foldByte

theorem key_eq_foldedBytes (n : Name kind) : n.key = n.foldedBytes := utf8Bytes_foldCase n.text

theorem same_iff_foldedBytes : a.same b = true ↔ a.foldedBytes = b.foldedBytes := by
  rw [same_iff, ← key_eq_iff, key_eq_foldedBytes, key_eq_foldedBytes]

/-! ### Order -/

/-- Bytes are compared lexicographically. -/
theorem compare_bytes_eq_lt_iff {s t : List UInt8} : compare s t = .lt ↔ s < t := by
  induction s generalizing t with
  | nil => cases t <;> simp
  | cons x s ih =>
    cases t with
    | nil => simp
    | cons y t =>
      rw [List.compare_cons_cons, Ordering.then_eq_lt, List.cons_lt_cons_iff, ← ih, Std.compare_eq_lt,
        Std.LawfulEqOrd.compare_eq_iff_eq]

theorem compare_eq_compare_foldedBytes (a b : Name kind) : compare a b = compare a.foldedBytes b.foldedBytes := by
  rw [← key_eq_foldedBytes, ← key_eq_foldedBytes]
  rfl

theorem isLE_total (a b : Name kind) : (compare a b).isLE = true ∨ (compare b a).isLE = true := by
  by_cases h : (compare a b).isLE = true
  · exact Or.inl h
  · exact Or.inr (Ordering.isLE_of_eq_lt (Std.OrientedCmp.lt_of_not_isLE h))

/-! ### Hash -/

theorem end_not_mem_key (n : Name kind) : 0xff ∉ n.key := end_not_mem_utf8Bytes n.folded

theorem hashFeed_eq_of_same (h : a.same b = true) : a.hashFeed = b.hashFeed := by
  rw [hashFeed, hashFeed, key_eq_iff.mpr (same_iff.mp h)]

/-- The end mark tells where the feed of a name ends, whatever is fed after it. -/
theorem hashFeed_append_inj {more more' : List UInt8} (h : a.hashFeed ++ more = b.hashFeed ++ more') :
    a.same b = true ∧ more = more' := by
  rw [hashFeed, hashFeed, List.append_assoc, List.append_assoc] at h
  obtain ⟨hkey, hmore⟩ := Text.append_mark_inj (end_not_mem_key a) (end_not_mem_key b) h
  exact ⟨same_iff.mpr (key_eq_iff.mp hkey), hmore⟩

theorem hashFeed_eq_iff : a.hashFeed = b.hashFeed ↔ a.same b = true := by
  constructor
  · intro h
    exact (hashFeed_append_inj (congrArg (· ++ []) h)).1
  · exact hashFeed_eq_of_same

theorem hashFeed_eq_of_isPrefix (h : a.hashFeed <+: b.hashFeed) : a.hashFeed = b.hashFeed := by
  obtain ⟨more, hmore⟩ := h
  rw [← List.append_nil b.hashFeed] at hmore
  exact hashFeed_eq_of_same (hashFeed_append_inj hmore).1

theorem hashFeed_append_eq_iff {kind' : NameKind} {d e : Name kind'} :
    a.hashFeed ++ d.hashFeed = b.hashFeed ++ e.hashFeed ↔ a.same b = true ∧ d.same e = true := by
  constructor
  · intro h
    obtain ⟨hsame, hrest⟩ := hashFeed_append_inj h
    exact ⟨hsame, hashFeed_eq_iff.mp hrest⟩
  · rintro ⟨hsame, hsame'⟩
    rw [hashFeed_eq_of_same hsame, hashFeed_eq_of_same hsame']

/-! ### All three -/

/-- Names are equal when their folded bytes are, when they compare as equal, and when they feed a hash with the same bytes.
They are compared as their folded bytes are, lexicographically: a total order, antisymmetric up to equality. No feed of a hash
is the front of a longer one, so that a name and one of another kind, one after the other, feed what two others feed only if
both are equal to these. -/
theorem equality_order_and_hash_agree (a b c : Name kind) :
    ((a.same b = true ↔ a.foldedBytes = b.foldedBytes) ∧ (a.same b = true ↔ compare a b = .eq) ∧
      (a.same b = true ↔ a.hashFeed = b.hashFeed)) ∧
    (compare a b = compare a.foldedBytes b.foldedBytes ∧ (compare a b = .lt ↔ a.foldedBytes < b.foldedBytes) ∧
      compare b a = (compare a b).swap) ∧
    (((compare a b).isLE = true ∨ (compare b a).isLE = true) ∧
      ((compare a b).isLE = true → (compare b a).isLE = true → a.same b = true) ∧
      ((compare a b).isLE = true → (compare b c).isLE = true → (compare a c).isLE = true)) ∧
    (a.hashFeed <+: b.hashFeed → a.hashFeed = b.hashFeed) ∧
    ∀ {kind' : NameKind} (d e : Name kind'),
      a.hashFeed ++ d.hashFeed = b.hashFeed ++ e.hashFeed ↔ a.same b = true ∧ d.same e = true := by
  refine ⟨⟨same_iff_foldedBytes, same_iff_compare, hashFeed_eq_iff.symm⟩,
    ⟨compare_eq_compare_foldedBytes a b, ?_, Std.OrientedCmp.eq_swap⟩,
    ⟨isLE_total a b, fun hle hge => same_iff_compare.mpr (Std.OrientedCmp.isLE_antisymm hle hge),
      Std.TransCmp.isLE_trans⟩,
    hashFeed_eq_of_isPrefix, fun d e => hashFeed_append_eq_iff⟩
  rw [compare_eq_compare_foldedBytes]
  exact compare_bytes_eq_lt_iff

/-- A name in small letters, the same one in capitals, and one that begins with a letter of two bytes, which has no case. -/
theorem capital_folded_and_umlaut_not :
    let small : PipelineName := ⟨"up1"⟩
    let capital : PipelineName := ⟨"UP1"⟩
    let umlaut : PipelineName := ⟨"Äpp"⟩
    ((compare small capital).isLE = true ∧ (compare capital small).isLE = true ∧ small.same capital = true) ∧
    ((compare small capital).isLE = true ∧ (compare capital umlaut).isLE = true ∧ (compare small umlaut).isLE = true) ∧
    (small.hashFeed <+: capital.hashFeed ∧ small.hashFeed = capital.hashFeed) ∧
    umlaut.same ⟨"ÄPP"⟩ = true ∧ umlaut.same ⟨"äpp"⟩ = false := by
  intro small capital umlaut
  have hle : (compare small capital).isLE = true := by decide +kernel
  have hge : (compare capital small).isLE = true := by decide +kernel
  have hnext : (compare capital umlaut).isLE = true := by decide +kernel
  have hfront : small.hashFeed <+: capital.hashFeed := by decide +kernel
  have hfolded : umlaut.same ⟨"ÄPP"⟩ = true := same_iff_toList.mpr (by decide)
  have hkept : umlaut.same ⟨"äpp"⟩ = false := by
    apply Bool.eq_false_iff.mpr
    intro h
    exact absurd (same_iff_toList.mp h) (by decide)
  obtain ⟨-, -, ⟨-, hantisymm, htrans⟩, hfeed, -⟩ := equality_order_and_hash_agree small capital umlaut
  exact ⟨⟨hle, hge, hantisymm hle hge⟩, ⟨hle, hnext, htrans hle hnext⟩, ⟨hfront, hfeed hfront⟩, hfolded, hkept⟩

end Name

end BuildScheduling
