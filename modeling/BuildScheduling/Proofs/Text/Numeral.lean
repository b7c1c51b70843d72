import Mathlib.Data.List.Induction
import Mathlib.Data.List.TakeDrop
import BuildScheduling.Text.Scan

/-!
# Numerals

Digits that were written are read again. A reader of digits takes as many as there are, so what follows must not
begin with one (`Stops`).
-/

namespace BuildScheduling.Text

/-- A text does not go on with a character of a kind. -/
def Stops (kind : Char → Bool) (cs : List Char) : Prop := ∀ c ∈ cs.head?, kind c = false

theorem stops_cons {kind : Char → Bool} {c : Char} {cs : List Char} : Stops kind (c :: cs) ↔ kind c = false := by
  simp [Stops]

theorem span_append {kind : Char → Bool} {front rest : List Char} (hfront : ∀ c ∈ front, kind c = true)
    (hrest : Stops kind rest) : (front ++ rest).span kind = (front, rest) := by
  rw [List.span_eq_takeWhile_dropWhile, List.takeWhile_append_of_pos hfront, List.dropWhile_append_of_pos hfront]
  cases rest with
  | nil => simp
  | cons c rest => simp [stops_cons.mp hrest]

theorem dropWhile_of_stops {kind : Char → Bool} {cs : List Char} (h : Stops kind cs) : cs.dropWhile kind = cs := by
  cases cs with
  | nil => rfl
  | cons c cs => simp [stops_cons.mp h]

theorem isDigit_iff {c : Char} : c.isDigit = true ↔ 48 ≤ c.toNat ∧ c.toNat ≤ 57 := by
  simp [Char.isDigit, UInt32.le_iff_toNat_le]

/-- Digits, at least one, with a value. -/
structure Spells (ds : List Char) (n : Nat) : Prop where
  digits : ∀ c ∈ ds, c.isDigit = true
  nonempty : ds ≠ []
  value : digitsValue ds = n

theorem Spells.isDigit_of_append_eq_cons {ds rest cs : List Char} {n : Nat} {c : Char} (h : Spells ds n)
    (heq : ds ++ rest = c :: cs) : c.isDigit = true := by
  cases ds with
  | nil => exact absurd rfl h.nonempty
  | cons d ds =>
    obtain ⟨rfl, -⟩ := List.cons.inj heq
    exact h.digits d List.mem_cons_self

theorem digitsValue_eq (ds : List Char) : digitsValue ds = Nat.ofDigitChars 10 ds 0 :=
  Nat.ofDigitChars_eq_foldl.symm

theorem digitsValue_lt {ds : List Char} (h : ∀ c ∈ ds, c.isDigit = true) : digitsValue ds < Nat.pow 10 ds.length := by
  induction ds using List.reverseRecOn with
  | nil => decide
  | append_singleton ds d ih =>
    have hd := isDigit_iff.mp (h d (by simp))
    have hvalue : digitsValue (ds ++ [d]) = 10 * digitsValue ds + (d.toNat - 48) := by
      simp [digitsValue]
    have hrest := ih fun c hc => h c (by simp [hc])
    have hpow : Nat.pow 10 (ds ++ [d]).length = Nat.pow 10 ds.length * 10 := by
      rw [List.length_append]
      rfl
    omega

theorem spells_toDigits (n : Nat) : Spells (Nat.toDigits 10 n) n where
  digits c hc := Nat.isDigit_of_mem_toDigits (by decide) (by decide) hc
  nonempty := Nat.toDigits_ne_nil
  value := by rw [digitsValue_eq, Nat.ofDigitChars_ten_toDigits]

/-- A numeral has no zero in front. -/
theorem length_of_head?_toDigits {n : Nat} (h : (Nat.toDigits 10 n).head? = some '0') :
    (Nat.toDigits 10 n).length = 1 := by
  obtain ⟨digits, -, value⟩ := spells_toDigits n
  generalize hds : Nat.toDigits 10 n = ds at h digits value
  obtain ⟨ds, rfl⟩ := List.head?_eq_some_iff.mp h
  cases ds with
  | nil => rfl
  | cons d ds =>
    have hrest : digitsValue (d :: ds) = n := by
      rw [← value]
      rfl
    have hlt := digitsValue_lt fun c hc => digits c (List.mem_cons_of_mem '0' hc)
    have hlength := (Nat.length_toDigits_le_iff (by decide) (Nat.succ_pos ds.length)).mpr (hrest ▸ hlt)
    rw [hds, List.length_cons, List.length_cons] at hlength
    omega

theorem toList_padded (width n : Nat) :
    (padded width n).toList = List.replicate (width - (Nat.toDigits 10 n).length) '0' ++ Nat.toDigits 10 n :=
  String.toList_ofList

theorem spells_padded (width n : Nat) : Spells (padded width n).toList n where
  digits c hc := by
    rw [toList_padded, List.mem_append] at hc
    rcases hc with hzero | hdigit
    · rw [List.eq_of_mem_replicate hzero]
      rfl
    · exact (spells_toDigits n).digits c hdigit
  nonempty := by
    rw [toList_padded]
    exact List.append_ne_nil_of_right_ne_nil _ Nat.toDigits_ne_nil
  value := by
    rw [toList_padded, digitsValue_eq, Nat.ofDigitChars_append, Nat.ofDigitChars_replicate_zero, Nat.mul_zero,
      Nat.ofDigitChars_ten_toDigits]

theorem length_padded {width n : Nat} (hwidth : 0 < width) (h : n < Nat.pow 10 width) :
    (padded width n).toList.length = width := by
  have hlength := (Nat.length_toDigits_le_iff (by decide : 1 < 10) hwidth).mpr h
  rw [toList_padded, List.length_append, List.length_replicate]
  omega

variable {ds rest : List Char} {n : Nat}

theorem digits?_append (h : Spells ds n) (hrest : Stops Char.isDigit rest) :
    digits? (ds ++ rest) = some (ds, rest) := by
  rw [digits?, span_append h.digits hrest]
  cases ds with
  | nil => exact absurd rfl h.nonempty
  | cons d ds => rfl

theorem isDigit_of_digits? {cs : List Char} (h : digits? cs = some (ds, rest)) : ∀ c ∈ ds, c.isDigit = true := by
  intro c hc
  rw [digits?, List.span_eq_takeWhile_dropWhile] at h
  split at h
  · cases h
  · next heq =>
    obtain ⟨hds, -⟩ := Prod.mk.inj heq
    obtain ⟨rfl, -⟩ := Prod.mk.inj (Option.some.inj h)
    rw [← hds] at hc
    exact List.all_eq_true.mp List.all_takeWhile c hc

theorem digitsUpTo?_append {limit : Nat} (h : Spells ds n) (hlength : ds.length = limit)
    (hrest : Stops Char.isDigit rest) : digitsUpTo? limit (ds ++ rest) = some (ds, rest) := by
  rw [digitsUpTo?, digits?_append h hrest, ← hlength]
  simp

end BuildScheduling.Text
