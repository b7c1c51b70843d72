import BuildScheduling.SortedMap

/-!
# Looking things up in a map

`get?` is the view of a map: every operation is described by what can be looked up after it. Keys that
compare equal are one key to it.
-/

namespace BuildScheduling.SortedMap

variable {κ : Type} {α : Type} [Ord κ]

@[simp] theorem get?_empty (j : κ) : (∅ : SortedMap κ α).get? j = none := rfl

theorem contains_eq_isSome_get? (m : SortedMap κ α) (k : κ) : m.contains k = (m.get? k).isSome := by
  simp [contains, get?]

theorem get?_congr [Std.TransOrd κ] (m : SortedMap κ α) {j k : κ} (h : compare j k = .eq) :
    m.get? j = m.get? k := by
  simp only [get?, entry?, Std.TransCmp.congr_left h]

/-! ## Writing -/

/-- A key below all keys of a list has no entry in it. -/
theorem find?_eq_none_of_lt {k : κ} {entries : List (κ × α)}
    (h : ∀ e ∈ entries, compare k e.1 = .lt) :
    entries.find? (fun e => (compare k e.1).isEq) = none :=
  List.find?_eq_none.mpr fun e he => by simp [h e he]

/-- What stands at a key after writing there: the key as it was first given, and the new value. -/
def written (k : κ) (v : Option α → α) : Option (κ × α) → κ × α
  | none => (k, v none)
  | some e => (e.1, v (some e.2))

omit [Ord κ] in
theorem written_snd (k : κ) (v : Option α → α) (e : Option (κ × α)) :
    (written k v e).2 = v (e.map Prod.snd) := by
  cases e <;> rfl

theorem find?_alterEntries [Std.TransOrd κ] {k : κ} {v : Option α → α} (j : κ)
    {entries : List (κ × α)} (h : Ascending entries) :
    (alterEntries k v entries).find? (fun e => (compare j e.1).isEq) =
      if compare j k = .eq then some (written k v (entries.find? fun e => (compare k e.1).isEq))
      else entries.find? fun e => (compare j e.1).isEq := by
  induction entries with
  | nil => by_cases hj : compare j k = .eq <;> simp [alterEntries, written, hj]
  | cons a rest ih =>
    obtain ⟨ha, hrest⟩ := List.pairwise_cons.mp h
    have ih := ih hrest
    rw [alterEntries]
    cases hk : compare k a.1 with
    | lt =>
      rw [find?_eq_none_of_lt (List.forall_mem_cons.mpr
        ⟨hk, fun e he => Std.TransCmp.lt_trans hk (ha e he)⟩)]
      by_cases hj : compare j k = .eq <;> simp [List.find?_cons, written, hj]
    | eq =>
      have hcongr : compare j a.1 = compare j k := (Std.TransCmp.congr_right hk).symm
      by_cases hj : compare j k = .eq <;> simp [hcongr, written, hk, hj]
    | gt =>
      by_cases hja : compare j a.1 = .eq
      · have hjk : compare j k ≠ .eq := by
          intro hjk
          rw [Std.TransCmp.congr_left hjk, hk] at hja
          simp at hja
        simp [hja, hjk]
      · simp [hja, hk, ih]

theorem get?_alter [Std.TransOrd κ] (m : SortedMap κ α) (k j : κ) (v : Option α → α) :
    (m.alter k v).get? j = if compare j k = .eq then some (v (m.get? k)) else m.get? j := by
  simp only [get?, entry?, alter, find?_alterEntries j m.ascending]
  split
  · rw [Option.map_some, written_snd]
  · rfl

theorem get?_insert [Std.TransOrd κ] (m : SortedMap κ α) (k j : κ) (v : α) :
    (m.insert k v).get? j = if compare j k = .eq then some v else m.get? j :=
  m.get?_alter k j _

/-! ## Members of a list -/

theorem contains_congr [Std.TransOrd κ] (m : SortedMap κ α) {j k : κ} (h : compare j k = .eq) :
    m.contains j = m.contains k := by
  rw [contains_eq_isSome_get?, contains_eq_isSome_get?, get?_congr m h]

/-- The keys of a map are keys of it. -/
theorem contains_of_mem [Std.TransOrd κ] {m : SortedMap κ α} {e : κ × α} (he : e ∈ m.entries) :
    m.contains e.1 = true :=
  List.find?_isSome.mpr ⟨e, he, by simp⟩

theorem contains_iff_exists_key {m : SortedMap κ α} {k : κ} :
    m.contains k = true ↔ ∃ key ∈ m.keys, compare k key = .eq := by
  simp only [contains, entry?, List.find?_isSome, keys, List.mem_map, Ordering.isEq_iff_eq_eq]
  constructor
  · rintro ⟨e, he, hcompare⟩
    exact ⟨e.1, ⟨e, he, rfl⟩, hcompare⟩
  · rintro ⟨_, ⟨e, he, rfl⟩, hcompare⟩
    exact ⟨e, he, hcompare⟩

theorem contains_of_mem_keys [Std.TransOrd κ] {m : SortedMap κ α} {k : κ} (hk : k ∈ m.keys) :
    m.contains k = true := by
  obtain ⟨e, he, rfl⟩ := List.mem_map.mp hk
  exact contains_of_mem he

theorem get?_ne_none_of_mem_keys [Std.TransOrd κ] {m : SortedMap κ α} {k : κ} (hk : k ∈ m.keys) :
    m.get? k ≠ none := by
  have hcontains := contains_of_mem_keys hk
  rw [contains_eq_isSome_get?] at hcontains
  exact Option.isSome_iff_ne_none.mp hcontains

/-- No key of a map compares equal to another. -/
theorem pairwise_keys (m : SortedMap κ α) : m.keys.Pairwise fun a b => compare a b = .lt :=
  List.pairwise_map.mpr m.ascending

theorem contains_alter [Std.TransOrd κ] (m : SortedMap κ α) (k j : κ) (v : Option α → α) :
    (m.alter k v).contains j = true ↔ compare j k = .eq ∨ m.contains j = true := by
  rw [contains_eq_isSome_get?, contains_eq_isSome_get?, get?_alter]
  by_cases h : compare j k = .eq <;> simp [h]

/-- The first value at a key is the one that stays. -/
theorem get?_foldl_insertNew [Std.TransOrd κ] (entries : List (κ × α)) (m : SortedMap κ α) (j : κ) :
    (entries.foldl (fun m e => m.insertNew e.1 e.2) m).get? j =
      (m.get? j <|> (entries.find? fun e => (compare j e.1).isEq).map Prod.snd) := by
  induction entries generalizing m with
  | nil => simp
  | cons e rest ih =>
    rw [List.foldl_cons, ih, insertNew, get?_alter]
    by_cases hj : compare j e.1 = .eq
    · rw [if_pos hj, ← m.get?_congr hj]
      cases m.get? j <;> simp [hj]
    · simp [hj]

theorem contains_foldl_insertNew [Std.TransOrd κ] (entries : List (κ × α)) (m : SortedMap κ α) (j : κ) :
    (entries.foldl (fun m e => m.insertNew e.1 e.2) m).contains j = true ↔
      m.contains j = true ∨ ∃ e ∈ entries, compare j e.1 = .eq := by
  rw [contains_eq_isSome_get?, contains_eq_isSome_get?, get?_foldl_insertNew]
  cases m.get? j <;> simp

/-- Writing where nothing stands adds one entry, and writing elsewhere adds none. -/
theorem mem_alterEntries_getD {k : κ} {v : α} {e : κ × α} {entries : List (κ × α)}
    (h : e ∈ alterEntries k (fun old => old.getD v) entries) : e = (k, v) ∨ e ∈ entries := by
  induction entries with
  | nil => exact Or.inl (List.mem_singleton.mp h)
  | cons a rest ih =>
    rw [alterEntries] at h
    split at h
    · exact List.mem_cons.mp h
    · exact Or.inr h
    · rcases List.mem_cons.mp h with rfl | hrest
      · exact Or.inr List.mem_cons_self
      · exact (ih hrest).imp_right (List.mem_cons_of_mem a)

theorem mem_foldl_insertNew [Std.TransOrd κ] {entries : List (κ × α)} {m : SortedMap κ α} {e : κ × α}
    (h : e ∈ (entries.foldl (fun m e => m.insertNew e.1 e.2) m).entries) : e ∈ m.entries ∨ e ∈ entries := by
  induction entries generalizing m with
  | nil => exact Or.inl h
  | cons a rest ih =>
    rcases ih h with hm | hrest
    · rcases mem_alterEntries_getD hm with rfl | hm
      · exact Or.inr List.mem_cons_self
      · exact Or.inl hm
    · exact Or.inr (List.mem_cons_of_mem a hrest)

/-- Every entry comes from the list. -/
theorem mem_of_mem_ofFirsts [Std.TransOrd κ] {entries : List (κ × α)} {e : κ × α}
    (h : e ∈ (ofFirsts entries).entries) : e ∈ entries :=
  (mem_foldl_insertNew h).resolve_left List.not_mem_nil

/-- Every key of the list has an entry. -/
theorem exists_mem_ofFirsts [Std.TransOrd κ] {entries : List (κ × α)} {e : κ × α} (h : e ∈ entries) :
    ∃ e' ∈ (ofFirsts entries).entries, compare e.1 e'.1 = .eq := by
  have hcontains : (ofFirsts entries).contains e.1 = true :=
    (contains_foldl_insertNew entries ∅ e.1).mpr (Or.inr ⟨e, h, Std.ReflCmp.compare_self⟩)
  obtain ⟨e', he', hcompare⟩ := List.find?_isSome.mp hcontains
  exact ⟨e', he', by simpa using hcompare⟩

theorem get?_ofFirsts [Std.TransOrd κ] (entries : List (κ × α)) (j : κ) :
    (ofFirsts entries).get? j = (entries.find? fun e => (compare j e.1).isEq).map Prod.snd := by
  rw [ofFirsts, get?_foldl_insertNew, get?_empty]
  rfl

theorem find?_of_mem [Std.TransOrd κ] {entries : List (κ × α)} (h : Ascending entries) {e : κ × α}
    (he : e ∈ entries) : entries.find? (fun e' => (compare e.1 e'.1).isEq) = some e := by
  induction entries with
  | nil => exact absurd he List.not_mem_nil
  | cons a rest ih =>
    obtain ⟨ha, hrest⟩ := List.pairwise_cons.mp h
    rcases List.mem_cons.mp he with rfl | he
    · simp
    · have hgt : compare e.1 a.1 = .gt := Std.OrientedCmp.gt_iff_lt.mpr (ha e he)
      simp [hgt, ih hrest he]

/-- An entry is what can be looked up at its key. -/
theorem get?_of_mem [Std.TransOrd κ] {m : SortedMap κ α} {e : κ × α} (he : e ∈ m.entries) :
    m.get? e.1 = some e.2 := by
  rw [get?, entry?, find?_of_mem m.ascending he, Option.map_some]

/-- The members of a set are those of the list, up to keys that compare equal. -/
theorem contains_ofList [Std.TransOrd κ] (members : List κ) (j : κ) :
    (SortedSet.ofList members).contains j = true ↔ ∃ k ∈ members, compare j k = .eq := by
  rw [SortedSet.ofList, ofFirsts, contains_foldl_insertNew]
  simp [contains_eq_isSome_get?]

/-- Writing where nothing stands adds one entry. -/
theorem perm_alterEntries {k : κ} {v : Option α → α} {entries : List (κ × α)}
    (h : ∀ e ∈ entries, compare k e.1 ≠ .eq) : (alterEntries k v entries).Perm ((k, v none) :: entries) := by
  induction entries with
  | nil => exact .refl _
  | cons a rest ih =>
    obtain ⟨ha, hrest⟩ := List.forall_mem_cons.mp h
    rw [alterEntries]
    split
    · exact .refl _
    · next heq => exact absurd heq ha
    · exact ((ih hrest).cons a).trans (.swap _ _ rest)

theorem perm_foldl_insert [Std.TransOrd κ] {entries : List (κ × α)} {m : SortedMap κ α}
    (hdistinct : entries.Pairwise fun a b => compare b.1 a.1 ≠ .eq)
    (hnew : ∀ e ∈ entries, ∀ e' ∈ m.entries, compare e.1 e'.1 ≠ .eq) :
    (entries.foldl (fun m e => m.insert e.1 e.2) m).entries.Perm (entries ++ m.entries) := by
  induction entries generalizing m with
  | nil => exact .refl _
  | cons a rest ih =>
    obtain ⟨ha, hrest⟩ := List.pairwise_cons.mp hdistinct
    obtain ⟨hanew, hrestnew⟩ := List.forall_mem_cons.mp hnew
    have hadded : (m.insert a.1 a.2).entries.Perm (a :: m.entries) := perm_alterEntries hanew
    have hnew' : ∀ e ∈ rest, ∀ e' ∈ (m.insert a.1 a.2).entries, compare e.1 e'.1 ≠ .eq := by
      intro e he e' he'
      rcases List.mem_cons.mp (hadded.mem_iff.mp he') with rfl | he'
      · exact ha e he
      · exact hrestnew e he e' he'
    exact ((ih hrest hnew').trans (hadded.append_left rest)).trans List.perm_middle

theorem ofList_concat [Std.TransOrd κ] (entries : List (κ × α)) (e : κ × α) :
    ofList (entries ++ [e]) = (ofList entries).insert e.1 e.2 := by
  rw [ofList, List.foldl_append]
  rfl

/-- A list whose keys are all different is what is in the map made of it. -/
theorem perm_ofList [Std.TransOrd κ] {entries : List (κ × α)}
    (hdistinct : entries.Pairwise fun a b => compare b.1 a.1 ≠ .eq) : (ofList entries).entries.Perm entries :=
  (perm_foldl_insert hdistinct fun _ _ _ h => absurd h List.not_mem_nil).trans (by
    rw [show (∅ : SortedMap κ α).entries = [] from rfl, List.append_nil])

/-! ## Leaving out -/

theorem find?_filter_of_congr {p : κ → Bool} (hp : ∀ a b, compare a b = .eq → p a = p b) (j : κ)
    (entries : List (κ × α)) :
    (entries.filter fun e => p e.1).find? (fun e => (compare j e.1).isEq) =
      if p j then entries.find? (fun e => (compare j e.1).isEq) else none := by
  induction entries with
  | nil => simp
  | cons a rest ih =>
    by_cases hja : compare j a.1 = .eq
    · have hpa := hp j a.1 hja
      by_cases hj : p j = true
      · simp [← hpa, hj, hja]
      · simp [← hpa, hj, ih]
    · by_cases hpa : p a.1 = true <;> simp [hpa, hja, ih]

/-- A test that does not tell equal keys apart filters what can be looked up. -/
theorem get?_filterKeys (m : SortedMap κ α) {p : κ → Bool}
    (hp : ∀ a b, compare a b = .eq → p a = p b) (j : κ) :
    (m.filterKeys p).get? j = if p j then m.get? j else none := by
  rw [get?, entry?, filterKeys, find?_filter_of_congr hp]
  split <;> rfl

theorem contains_filterKeys (m : SortedMap κ α) {p : κ → Bool}
    (hp : ∀ a b, compare a b = .eq → p a = p b) (j : κ) :
    (m.filterKeys p).contains j = true ↔ p j = true ∧ m.contains j = true := by
  rw [contains_eq_isSome_get?, contains_eq_isSome_get?, get?_filterKeys m hp]
  by_cases hj : p j = true <;> simp [hj]

/-- Tests that agree on the keys of a map leave the same of it. -/
theorem filterKeys_congr {m : SortedMap κ α} {p q : κ → Bool} (h : ∀ e ∈ m.entries, p e.1 = q e.1) :
    m.filterKeys p = m.filterKeys q :=
  ext_entries (List.filter_congr h)

theorem get?_erase [Std.TransOrd κ] (m : SortedMap κ α) (k j : κ) :
    (m.erase k).get? j = if compare k j = .eq then none else m.get? j := by
  rw [erase, get?_filterKeys m fun a b h => by rw [Std.TransCmp.congr_right h]]
  by_cases h : compare k j = .eq <;> simp [h]

/-! ## The same map -/

theorem eq_of_find?_eq [Std.TransOrd κ] {entries others : List (κ × α)} (h : Ascending entries)
    (h' : Ascending others)
    (hfind : ∀ j, entries.find? (fun e => (compare j e.1).isEq) =
      others.find? fun e => (compare j e.1).isEq) : entries = others := by
  induction entries generalizing others with
  | nil =>
    cases others with
    | nil => rfl
    | cons b others => simpa using hfind b.1
  | cons a entries ih =>
    cases others with
    | nil => simpa using hfind a.1
    | cons b others =>
      obtain ⟨ha, hentries⟩ := List.pairwise_cons.mp h
      obtain ⟨hb, hothers⟩ := List.pairwise_cons.mp h'
      have hab : compare a.1 b.1 = .eq := by
        cases hcompare : compare a.1 b.1 with
        | eq => rfl
        | lt =>
          have hnone := find?_eq_none_of_lt (List.forall_mem_cons.mpr
            ⟨hcompare, fun e he => Std.TransCmp.lt_trans hcompare (hb e he)⟩)
          simp [← hfind a.1] at hnone
        | gt =>
          have hlt := Std.OrientedCmp.gt_iff_lt.mp hcompare
          have hnone := find?_eq_none_of_lt (List.forall_mem_cons.mpr
            ⟨hlt, fun e he => Std.TransCmp.lt_trans hlt (ha e he)⟩)
          simp [hfind b.1] at hnone
      have hhead : a = b := by simpa [hab] using hfind a.1
      subst hhead
      refine congrArg (a :: ·) (ih hentries hothers fun j => ?_)
      by_cases hj : compare j a.1 = .eq
      · have hbelow : ∀ rest : List (κ × α), (∀ e ∈ rest, compare a.1 e.1 = .lt) →
            rest.find? (fun e => (compare j e.1).isEq) = none := fun rest hrest =>
          find?_eq_none_of_lt fun e he => by rw [Std.TransCmp.congr_left hj]; exact hrest e he
        rw [hbelow entries ha, hbelow others hb]
      · simpa [hj] using hfind j

/-- Where keys that compare equal are equal, a map is what can be looked up in it. -/
theorem ext_get? [Std.TransOrd κ] [Std.LawfulEqOrd κ] {m n : SortedMap κ α}
    (h : ∀ j, m.get? j = n.get? j) : m = n := by
  have hfind : ∀ (m : SortedMap κ α) (j : κ),
      m.entries.find? (fun e => (compare j e.1).isEq) = (m.get? j).map fun v => (j, v) := by
    intro m j
    simp only [get?, entry?]
    cases hfound : m.entries.find? fun e => (compare j e.1).isEq with
    | none => rfl
    | some e =>
      have hkey : compare j e.1 = .eq := by
        simpa using List.find?_some (p := fun e : κ × α => (compare j e.1).isEq) hfound
      rw [Std.LawfulEqOrd.compare_eq_iff_eq.mp hkey]
      rfl
  exact ext_entries (eq_of_find?_eq m.ascending n.ascending fun j => by rw [hfind, hfind, h])

/-- Writing at two keys, in either order. -/
theorem alter_comm [Std.TransOrd κ] (m : SortedMap κ α) {k l : κ} (hkl : compare k l ≠ .eq)
    (v u : Option α → α) : (m.alter k v).alter l u = (m.alter l u).alter k v := by
  have hlk : compare l k ≠ .eq := fun h => hkl (Std.OrientedCmp.eq_symm h)
  refine ext_entries (eq_of_find?_eq (ascending_alterEntries (ascending_alterEntries m.ascending))
    (ascending_alterEntries (ascending_alterEntries m.ascending)) fun j => ?_)
  simp only [alter, find?_alterEntries _ (ascending_alterEntries m.ascending),
    find?_alterEntries _ m.ascending, if_neg hkl, if_neg hlk]
  by_cases hj : compare j k = .eq
  · have hjl : compare j l ≠ .eq := fun h => hkl (Std.TransCmp.eq_trans (Std.OrientedCmp.eq_symm hj) h)
    simp [hj, hjl]
  · simp [hj]

/-- Writing what stands there already after it was written once. -/
theorem alter_alter_self [Std.TransOrd κ] (m : SortedMap κ α) (k : κ) {v : Option α → α}
    (hv : ∀ old, v (some (v old)) = v old) : (m.alter k v).alter k v = m.alter k v := by
  refine ext_entries (eq_of_find?_eq (ascending_alterEntries (ascending_alterEntries m.ascending))
    (ascending_alterEntries m.ascending) fun j => ?_)
  simp only [alter, find?_alterEntries _ (ascending_alterEntries m.ascending),
    find?_alterEntries _ m.ascending, Std.ReflCmp.compare_self, if_true]
  split
  · cases m.entries.find? fun e => (compare k e.1).isEq <;> simp [written, hv]
  · rfl

theorem insert_insert_self [Std.TransOrd κ] (m : SortedMap κ α) (k : κ) (v : α) :
    (m.insert k v).insert k v = m.insert k v := m.alter_alter_self k fun _ => rfl

end BuildScheduling.SortedMap
