import BuildScheduling.Format.Json
import BuildScheduling.Proofs.Text.Numeral

/-!
# What is written as JSON is read again

A value is plain when it holds only what encoders make: counters, texts, lists and records whose keys do not repeat.
The text of a plain value is read as that value. Each reader takes just what was written for it from the front of a
text, provided that what follows closes a value (`Closes`); the fuel that a reader needs is no more than the length of
what it takes.
-/

namespace BuildScheduling

open Text (Stops stops_cons span_append dropWhile_of_stops)

namespace Value

/-- What encoders make. No key of a record repeats, and no whole number is negative. -/
inductive Plain : Value → Prop where
  | null : Plain .null
  | bool (b : Bool) : Plain (.bool b)
  | int {n : Nat} (h : n < UInt64.size) : Plain (.int n)
  | text (s : String) : Plain (.text s)
  | list {items : List Value} (h : ∀ v ∈ items, Plain v) : Plain (.list items)
  | record {fields : Fields} (hkeys : (fields.map Prod.fst).Nodup) (h : ∀ f ∈ fields, Plain f.2) :
    Plain (.record fields)

end Value

namespace Json

/-! ## Texts -/

theorem digitValue?_digitChar {d : Nat} (h : d < 16) : Text.digitValue? (Nat.digitChar d) = some d := by
  have hall : ∀ d : Fin 16, Text.digitValue? (Nat.digitChar d) = some d.val := by decide
  exact hall ⟨d, h⟩

/-- A unit as four digits of sixteen. -/
def unitText (n : Nat) : List Char :=
  [Nat.digitChar (n / 4096 % 16), Nat.digitChar (n / 256 % 16), Nat.digitChar (n / 16 % 16), Nat.digitChar (n / 1 % 16)]

theorem unit?_append {n : Nat} (h : n < 65536) (rest : List Char) : unit? (unitText n ++ rest) = some (n, rest) := by
  have hdigit (place : Nat) : Text.digitValue? (Nat.digitChar (n / place % 16)) = some (n / place % 16) :=
    digitValue?_digitChar (Nat.mod_lt _ (by decide))
  have hbound (place : Nat) : n / place % 16 < 16 := Nat.mod_lt _ (by decide)
  have hvalue : 16 * (16 * (16 * (n / 4096 % 16) + n / 256 % 16) + n / 16 % 16) + n / 1 % 16 = n := by omega
  have hread : Text.inBase? 16 (unitText n) = some n := by
    simp only [unitText, Text.inBase?, List.isEmpty_cons, Bool.false_eq_true, if_false, List.foldl_cons,
      List.foldl_nil, Option.bind_eq_bind, Option.bind_some, hdigit, hbound, if_true, Nat.mul_zero, Nat.zero_add,
      hvalue]
  have hfront : (unitText n ++ rest).take 4 = unitText n := rfl
  rw [unit?, hfront, hread]
  rfl

theorem isControl_lt {c : Char} (h : isControl c = true) : c.toNat < 0x3000 := by
  simp only [isControl, Bool.or_eq_true, Bool.and_eq_true, decide_eq_true_eq, beq_iff_eq] at h
  omega

/-- No control character is one of a pair of surrogates. -/
theorem unitChar?_append {c : Char} (h : isControl c = true) (rest : List Char) :
    unitChar? (unitText c.toNat ++ rest) = some (c, rest) := by
  have hlt := isControl_lt h
  have hsurrogate : ¬ (0xd800 ≤ c.toNat ∧ c.toNat < 0xdc00) := by omega
  have hvalid : c.toNat.isValidChar := .inl (by omega)
  simp [unitChar?, unit?_append (show c.toNat < 65536 by omega), hsurrogate, hvalid]

/-- Each character of a text is read back, whether it is escaped or not. -/
theorem textRest?_escaped (c : Char) (fuel : Nat) (read rest : List Char) :
    textRest? (fuel + 1) read (escaped c ++ rest) = textRest? fuel (c :: read) rest := by
  have hquote : (backslash == quote) = false := by decide
  by_cases hself : (c == quote || c == backslash) = true
  · have hescape : escape? (c :: rest) = some (c, rest) := by
      simp [escape?, hself]
    simp [escaped, hself, textRest?, hquote, hescape]
  · by_cases hcontrol : isControl c = true
    · have hescape : escape? ('u' :: (unitText c.toNat ++ rest)) = some (c, rest) := by
        rw [← unitChar?_append hcontrol rest]
        rfl
      have hescaped : escaped c = backslash :: 'u' :: unitText c.toNat := by
        simp only [escaped, hself, hcontrol, if_true]
        rfl
      simp [hescaped, textRest?, hquote, hescape]
    · have hprintable : ¬ c.toNat < 0x20 := by
        intro hlt
        simp [isControl, hlt] at hcontrol
      obtain ⟨hquote, hbackslash⟩ : (c == quote) = false ∧ (c == backslash) = false := by simpa using hself
      simp [escaped, hcontrol, textRest?, hquote, hbackslash, hprintable]

/-- What is written between the quotes of a text is read back. -/
theorem textRest?_append {cs : List Char} {fuel : Nat} (h : cs.length < fuel) (read rest : List Char) :
    textRest? fuel read (cs.flatMap escaped ++ quote :: rest) = some (String.ofList (read.reverse ++ cs), rest) := by
  induction cs generalizing fuel read with
  | nil =>
    cases fuel with
    | zero => cases h
    | succ fuel => simp [textRest?]
  | cons c cs ih =>
    cases fuel with
    | zero => cases h
    | succ fuel =>
      rw [List.flatMap_cons, List.append_assoc, textRest?_escaped, ih (Nat.lt_of_succ_lt_succ h)]
      simp

theorem length_le_flatMap_escaped (cs : List Char) : cs.length ≤ (cs.flatMap escaped).length := by
  induction cs with
  | nil => exact Nat.le_refl _
  | cons c cs ih =>
    have hpos : 0 < (escaped c).length := by
      unfold escaped
      split_ifs <;> simp
    rw [List.flatMap_cons, List.length_append, List.length_cons]
    omega

theorem textRest?_quoted {s : String} {limit : Nat} (h : (quoted s).length ≤ limit) (rest : List Char) :
    textRest? limit [] (s.toList.flatMap escaped ++ quote :: rest) = some (s, rest) := by
  have hlength := length_le_flatMap_escaped s.toList
  simp only [quoted, List.length_cons, List.length_append, List.length_nil] at h
  rw [textRest?_append (by omega), List.reverse_nil, List.nil_append, String.ofList_toList]

/-! ## What follows a value -/

/-- Nothing, or a mark that ends a value. -/
def Closes (cs : List Char) : Prop := ∀ c ∈ cs.head?, c = ',' ∨ c = ']' ∨ c = '\x7d'

theorem closes_nil : Closes [] := by simp [Closes]

theorem closes_cons {c : Char} {cs : List Char} : Closes (c :: cs) ↔ c = ',' ∨ c = ']' ∨ c = '\x7d' := by
  simp [Closes]

theorem Closes.stops {kind : Char → Bool} {cs : List Char} (h : Closes cs) (hcomma : kind ',' = false)
    (hbracket : kind ']' = false) (hbrace : kind '\x7d' = false) : Stops kind cs := by
  intro c hc
  rcases h c hc with rfl | rfl | rfl <;> assumption

theorem Closes.skipSpace {cs : List Char} (h : Closes cs) : skipSpace cs = cs :=
  dropWhile_of_stops (h.stops rfl rfl rfl)

/-! ## Numbers and words -/

theorem number?_append {n : Nat} (h : n < UInt64.size) {rest : List Char} (hrest : Closes rest) :
    number? ((toString (n : Int)).toList ++ rest) = some (.int n, rest) := by
  have htext : (toString (n : Int)).toList = Nat.toDigits 10 n := Nat.toList_repr
  have hspells := Text.spells_toDigits n
  have hread := Text.digits?_append hspells (hrest.stops rfl rfl rfl)
  have hzero : ¬ ((Nat.toDigits 10 n).head? = some '0' ∧ (Nat.toDigits 10 n).length ≠ 1) := fun hzero =>
    hzero.2 (Text.length_of_head?_toDigits hzero.1)
  have hword : Value.isWord n = true := by
    have hword : -(Int64.size / 2 : Nat) ≤ (n : Int) ∧ (n : Int) < UInt64.size := by omega
    simpa only [Value.isWord, Bool.and_eq_true, decide_eq_true_eq] using hword
  have hend : fraction? rest = some ([], rest) ∧ exponent? rest = some ([], rest) := by
    cases rest with
    | nil => exact ⟨rfl, rfl⟩
    | cons c cs => rcases closes_cons.mp hrest with rfl | rfl | rfl <;> exact ⟨rfl, rfl⟩
  rw [htext]
  unfold number?
  split
  next sign cs hsign =>
  split at hsign
  · next hminus => exact absurd (hspells.isDigit_of_append_eq_cons hminus) (by decide)
  · obtain ⟨rfl, rfl⟩ := Prod.mk.inj hsign
    simp [hread, hzero, hend, hword, hspells.value]

theorem word?_null {rest : List Char} (hrest : Closes rest) : word? ("null".toList ++ rest) = some (.null, rest) := by
  have hspan : ("null".toList ++ rest).span Char.isAlpha = ("null".toList, rest) :=
    span_append (by simp) (hrest.stops rfl rfl rfl)
  simp only [word?, hspan]
  rfl

theorem word?_bool (b : Bool) {rest : List Char} (hrest : Closes rest) :
    word? ((if b then "true" else "false").toList ++ rest) = some (.bool b, rest) := by
  have hspan : ((if b then "true" else "false").toList ++ rest).span Char.isAlpha =
      ((if b then "true" else "false").toList, rest) :=
    span_append (by cases b <;> simp) (hrest.stops rfl rfl rfl)
  simp only [word?, hspan]
  cases b <;> rfl

/-! ## Values -/

/-- What is written for a value is read as that value, whatever closes it. -/
def Reads (v : Value) : Prop :=
  ∀ ⦃limit fuel : Nat⦄ ⦃rest : List Char⦄, (text v).length ≤ limit → (text v).length ≤ fuel → Closes rest →
    value? limit fuel (text v ++ rest) = some (v, rest)

theorem exists_int_text (n : Nat) : ∃ d ds, text (.int n) = d :: ds ∧ d.isDigit = true := by
  have hspells := Text.spells_toDigits n
  obtain ⟨d, ds, hds⟩ := List.exists_cons_of_ne_nil hspells.nonempty
  exact ⟨d, ds, Nat.toList_repr.trans hds, hspells.digits d (hds ▸ List.mem_cons_self)⟩

/-- No value begins with a space, or with a mark that closes a list. -/
theorem exists_text_cons {v : Value} (h : v.Plain) :
    ∃ c cs, text v = c :: cs ∧ (∀ rest, skipSpace (c :: rest) = c :: rest) ∧ c ≠ ']' := by
  have hskip {c : Char} (hc : (c == ' ' || c == '\t' || c == '\n' || c == '\r') = false) (rest : List Char) :
      skipSpace (c :: rest) = c :: rest := dropWhile_of_stops (stops_cons.mpr hc)
  cases h with
  | null => exact ⟨'n', _, rfl, hskip rfl, by decide⟩
  | bool b => cases b <;> exact ⟨_, _, rfl, hskip rfl, by decide⟩
  | @int n h =>
    obtain ⟨d, ds, htext, hdigit⟩ := exists_int_text n
    refine ⟨d, ds, htext, hskip ?_, ?_⟩
    · simp only [Bool.or_eq_false_iff, beq_eq_false_iff_ne]
      refine ⟨⟨⟨?_, ?_⟩, ?_⟩, ?_⟩ <;> rintro rfl <;> cases hdigit
    · rintro rfl
      cases hdigit
  | text s => exact ⟨quote, _, rfl, hskip rfl, by decide⟩
  | list h => exact ⟨'[', _, rfl, hskip rfl, by decide⟩
  | record hkeys h => exact ⟨'\x7b', _, rfl, hskip rfl, by decide⟩

/-- One item or more, read up to the bracket, behind those that were read. -/
theorem items?_append {limit fuel : Nat} {v : Value} {vs : List Value} (hv : ∀ w ∈ v :: vs, Reads w)
    (hlimit : (text v ++ itemsText true vs).length ≤ limit) (hfuel : (text v ++ itemsText true vs).length ≤ fuel)
    (read : List Value) (rest : List Char) :
    items? limit fuel read (text v ++ itemsText true vs ++ rest) = some (.list (read.reverse ++ v :: vs), rest) := by
  induction vs generalizing fuel v read with
  | nil =>
    simp only [itemsText, List.length_append, List.length_singleton] at hlimit hfuel
    obtain ⟨fuel, rfl⟩ := Nat.exists_eq_succ_of_ne_zero (show fuel ≠ 0 by omega)
    have hread := hv v List.mem_cons_self (show (text v).length ≤ limit by omega) (show (text v).length ≤ fuel by omega)
      (closes_cons.mpr (.inr (.inl rfl)) : Closes (']' :: rest))
    simp [items?, itemsText, hread]
  | cons w vs ih =>
    simp only [itemsText, if_true, List.length_append, List.length_cons, List.length_nil] at hlimit hfuel
    obtain ⟨fuel, rfl⟩ := Nat.exists_eq_succ_of_ne_zero (show fuel ≠ 0 by omega)
    have hread := hv v List.mem_cons_self (show (text v).length ≤ limit by omega) (show (text v).length ≤ fuel by omega)
      (closes_cons.mpr (.inl rfl) : Closes (',' :: (text w ++ itemsText true vs ++ rest)))
    have hrest := @ih fuel w (fun u hu => hv u (List.mem_cons_of_mem v hu))
      (by rw [List.length_append]; omega) (by rw [List.length_append]; omega) (v :: read)
    simp only [List.append_assoc] at hread hrest
    simp [items?, itemsText, hread, hrest]

section

variable {limit fuel : Nat} {key : String} {v : Value} {read : Fields} {cs rest : List Char}

theorem skipSpace_quote (rest : List Char) : skipSpace (quote :: rest) = quote :: rest := rfl

theorem skipSpace_colon (rest : List Char) : skipSpace (':' :: rest) = ':' :: rest := rfl

theorem filter_of_ne (hnew : ∀ f ∈ read, f.1 ≠ key) : read.filter (fun f => f.1 != key) = read :=
  List.filter_eq_self.mpr fun f hf => bne_iff_ne.mpr (hnew f hf)

/-- A field whose key no field before has, and then another. -/
theorem fields?_comma (hlimit : (quoted key).length ≤ limit) (hnew : ∀ f ∈ read, f.1 ≠ key)
    (hread : value? limit fuel cs = some (v, ',' :: rest)) :
    fields? limit (fuel + 1) read (quoted key ++ ':' :: cs) = fields? limit fuel ((key, v) :: read) rest := by
  rw [quoted, List.cons_append, List.append_assoc, List.singleton_append]
  simp only [fields?, skipSpace_quote, beq_self_eq_true, if_true, textRest?_quoted hlimit, skipSpace_colon,
    filter_of_ne hnew, hread]

/-- The last field, whose key no field before has. -/
theorem fields?_brace (hlimit : (quoted key).length ≤ limit) (hnew : ∀ f ∈ read, f.1 ≠ key)
    (hread : value? limit fuel cs = some (v, '\x7d' :: rest)) :
    fields? limit (fuel + 1) read (quoted key ++ ':' :: cs) = some (.record ((key, v) :: read).reverse, rest) := by
  rw [quoted, List.cons_append, List.append_assoc, List.singleton_append]
  simp only [fields?, skipSpace_quote, beq_self_eq_true, if_true, textRest?_quoted hlimit, skipSpace_colon,
    filter_of_ne hnew, hread]

end

theorem ne_of_nodup_keys {read fs : Fields} {f : String × Value}
    (hkeys : ((read.reverse ++ f :: fs).map Prod.fst).Nodup) : ∀ g ∈ read, g.1 ≠ f.1 := by
  intro g hg
  rw [List.map_append, List.nodup_append] at hkeys
  exact hkeys.2.2 g.1 (List.mem_map_of_mem (List.mem_reverse.mpr hg)) f.1 List.mem_cons_self

/-- One field or more, read up to the bracket. As no key repeats, none that was read is dropped for a later one. -/
theorem fields?_append {limit fuel : Nat} {f : String × Value} {fs : Fields} (hf : ∀ g ∈ f :: fs, Reads g.2)
    (hlimit : (quoted f.1 ++ ':' :: text f.2 ++ fieldsText true fs).length ≤ limit)
    (hfuel : (quoted f.1 ++ ':' :: text f.2 ++ fieldsText true fs).length ≤ fuel) (read : Fields)
    (hkeys : ((read.reverse ++ f :: fs).map Prod.fst).Nodup) (rest : List Char) :
    fields? limit fuel read (quoted f.1 ++ ':' :: text f.2 ++ fieldsText true fs ++ rest) =
      some (.record (read.reverse ++ f :: fs), rest) := by
  induction fs generalizing fuel f read with
  | nil =>
    simp only [fieldsText, List.length_append, List.length_cons, List.length_nil] at hlimit hfuel
    obtain ⟨fuel, rfl⟩ := Nat.exists_eq_succ_of_ne_zero (show fuel ≠ 0 by omega)
    have hread := hf f List.mem_cons_self (show (text f.2).length ≤ limit by omega)
      (show (text f.2).length ≤ fuel by omega) (closes_cons.mpr (.inr (.inr rfl)) : Closes ('\x7d' :: rest))
    simp only [fieldsText, List.append_assoc, List.cons_append, List.nil_append]
    rw [fields?_brace (by omega) (ne_of_nodup_keys hkeys) hread, List.reverse_cons]
  | cons g fs ih =>
    simp only [fieldsText, if_true, List.length_append, List.length_cons, List.length_nil] at hlimit hfuel
    obtain ⟨fuel, rfl⟩ := Nat.exists_eq_succ_of_ne_zero (show fuel ≠ 0 by omega)
    have hread := hf f List.mem_cons_self (show (text f.2).length ≤ limit by omega)
      (show (text f.2).length ≤ fuel by omega)
      (closes_cons.mpr (.inl rfl) : Closes (',' :: (quoted g.1 ++ ':' :: text g.2 ++ fieldsText true fs ++ rest)))
    have hrest := @ih fuel g (fun h hh => hf h (List.mem_cons_of_mem f hh))
      (by simp only [List.length_append, List.length_cons]; omega)
      (by simp only [List.length_append, List.length_cons]; omega) (f :: read) (by simpa using hkeys)
    simp only [fieldsText, List.append_assoc, List.cons_append, List.nil_append, if_true] at hread hrest ⊢
    rw [fields?_comma (by omega) (ne_of_nodup_keys hkeys) hread, hrest]
    simp

/-! ### One reader for each first character -/

section

variable {limit fuel : Nat} {c : Char} {cs rest : List Char} {v : Value}

/-- What begins with no mark is a word or a number. -/
theorem value?_of_kind {kind : Char → Bool} (hc : kind c = true)
    (hmarks : ∀ d ∈ [' ', '\t', '\n', '\r', '[', '\x7b', quote], kind d = false)
    (hread : (if c.isAlpha then word? (c :: cs) else number? (c :: cs)) = some (v, rest)) (hrest : Closes rest) :
    value? limit (fuel + 1) (c :: cs) = some (v, rest) := by
  have hne : ∀ d ∈ [' ', '\t', '\n', '\r', '[', '\x7b', quote], (c == d) = false := fun d hd =>
    beq_false_of_ne fun heq => Bool.false_ne_true ((hmarks d hd).symm.trans (heq ▸ hc))
  simp only [List.forall_mem_cons] at hne
  obtain ⟨hspace, htab, hline, hreturn, hbracket, hbrace, hquote, -⟩ := hne
  have hskip : skipSpace (c :: cs) = c :: cs := by
    refine dropWhile_of_stops (stops_cons.mpr ?_)
    rw [hspace, htab, hline, hreturn]
    rfl
  simp only [value?, hskip, hbracket, hbrace, hquote, Bool.false_eq_true, if_false]
  split at hread
  · next halpha => rw [if_pos halpha, hread, Option.map_some, hrest.skipSpace]
  · next halpha => rw [if_neg halpha, hread, Option.map_some, hrest.skipSpace]

theorem value?_of_word (hc : c.isAlpha = true) (hread : word? (c :: cs) = some (v, rest)) (hrest : Closes rest) :
    value? limit (fuel + 1) (c :: cs) = some (v, rest) :=
  value?_of_kind hc (by simp [quote]) (by rw [if_pos hc, hread]) hrest

theorem value?_of_number (hc : c.isDigit = true) (hread : number? (c :: cs) = some (v, rest)) (hrest : Closes rest) :
    value? limit (fuel + 1) (c :: cs) = some (v, rest) := by
  have hbounds : c.val.toNat ≤ 57 := (Text.isDigit_iff.mp hc).2
  have hbefore {d : UInt32} (hd : 57 < d.toNat) : ¬ d ≤ c.val := fun hle => by
    rw [UInt32.le_iff_toNat_le] at hle
    omega
  have hupper : c.isUpper = false := decide_eq_false fun h => hbefore (by decide) h.1
  have hlower : c.isLower = false := Bool.and_eq_false_imp.mpr fun h =>
    absurd (of_decide_eq_true h) (hbefore (by decide))
  have halpha : ¬ c.isAlpha = true := ne_true_of_eq_false (Bool.or_eq_false_iff.mpr ⟨hupper, hlower⟩)
  exact value?_of_kind hc (by simp [quote]) (by rw [if_neg halpha, hread]) hrest

theorem value?_of_text {s : String} (hlimit : (quoted s).length ≤ limit) (hrest : Closes rest) :
    value? limit (fuel + 1) (quoted s ++ rest) = some (.text s, rest) := by
  rw [quoted, List.cons_append, List.append_assoc, List.singleton_append]
  simp only [value?, skipSpace_quote, textRest?_quoted hlimit, Option.map_some, hrest.skipSpace]
  rfl

theorem value?_of_items (hskip : skipSpace (c :: cs) = c :: cs) (hc : c ≠ ']')
    (hread : items? limit fuel [] (c :: cs) = some (v, rest)) (hrest : Closes rest) :
    value? limit (fuel + 1) ('[' :: c :: cs) = some (v, rest) := by
  have hbracket (rest : List Char) : skipSpace ('[' :: rest) = '[' :: rest := rfl
  simp only [value?, hbracket, beq_self_eq_true, if_true, hskip]
  split
  · next heq => exact absurd (List.cons.inj heq).1 hc
  · rw [hread, Option.map_some, hrest.skipSpace]

theorem value?_of_fields (hread : fields? limit fuel [] (quote :: cs) = some (v, rest)) (hrest : Closes rest) :
    value? limit (fuel + 1) ('\x7b' :: quote :: cs) = some (v, rest) := by
  have hbrace (rest : List Char) : skipSpace ('\x7b' :: rest) = '\x7b' :: rest := rfl
  have hne : ('\x7b' == '[') = false := rfl
  simp only [value?, hbrace, hne, beq_self_eq_true, if_true, skipSpace_quote, Bool.false_eq_true, if_false]
  change (fields? limit fuel [] (quote :: cs)).map _ = _
  rw [hread, Option.map_some, hrest.skipSpace]

end

/-- Every value has a text, so a reader that has fuel for it has some. -/
theorem exists_fuel {v : Value} (h : v.Plain) {fuel : Nat} (hfuel : (text v).length ≤ fuel) : ∃ n, fuel = n + 1 := by
  obtain ⟨c, cs, htext, -⟩ := exists_text_cons h
  refine Nat.exists_eq_succ_of_ne_zero ?_
  rintro rfl
  rw [htext] at hfuel
  cases hfuel

theorem reads_of_plain {v : Value} (h : v.Plain) : Reads v := by
  -- A reader passes on one less than its fuel; the bracket in front of items and fields pays for that.
  induction h with
  | null =>
    intro limit fuel rest hlimit hfuel hrest
    obtain ⟨fuel, rfl⟩ := exists_fuel .null hfuel
    exact value?_of_word rfl (word?_null hrest) hrest
  | bool b =>
    intro limit fuel rest hlimit hfuel hrest
    have hbool := word?_bool b hrest
    obtain ⟨fuel, rfl⟩ := exists_fuel (.bool b) hfuel
    cases b <;> exact value?_of_word rfl hbool hrest
  | @int n h =>
    intro limit fuel rest hlimit hfuel hrest
    obtain ⟨fuel, rfl⟩ := exists_fuel (.int h) hfuel
    obtain ⟨d, ds, htext, hdigit⟩ := exists_int_text n
    have hnumber : number? (text (.int n) ++ rest) = some (.int n, rest) := number?_append h hrest
    rw [htext] at hnumber ⊢
    exact value?_of_number hdigit hnumber hrest
  | text s =>
    intro limit fuel rest hlimit hfuel hrest
    obtain ⟨fuel, rfl⟩ := exists_fuel (.text s) hfuel
    exact value?_of_text hlimit hrest
  | @list items h ih =>
    intro limit fuel rest hlimit hfuel hrest
    obtain ⟨fuel, rfl⟩ := exists_fuel (.list h) hfuel
    cases items with
    | nil =>
      change (some (Value.list [], skipSpace rest)) = _
      rw [hrest.skipSpace]
    | cons v vs =>
      obtain ⟨c, cs, htext, hskip, hc⟩ := exists_text_cons (h v List.mem_cons_self)
      simp only [text, itemsText, Bool.false_eq_true, if_false, List.nil_append, List.length_cons] at hlimit hfuel
      have hread := items?_append ih (Nat.le_of_succ_le hlimit) (Nat.le_of_succ_le_succ hfuel) [] rest
      simp only [text, itemsText, Bool.false_eq_true, if_false, List.nil_append, htext, List.cons_append,
        List.reverse_nil] at hread ⊢
      exact value?_of_items (hskip _) hc hread hrest
  | @record fields hkeys h ih =>
    intro limit fuel rest hlimit hfuel hrest
    obtain ⟨fuel, rfl⟩ := exists_fuel (.record hkeys h) hfuel
    cases fields with
    | nil =>
      change (some (Value.record [], skipSpace rest)) = _
      rw [hrest.skipSpace]
    | cons f fs =>
      simp only [text, fieldsText, Bool.false_eq_true, if_false, List.nil_append, List.length_cons] at hlimit hfuel
      have hread := fields?_append ih (Nat.le_of_succ_le hlimit) (Nat.le_of_succ_le_succ hfuel) [] hkeys rest
      simp only [text, fieldsText, Bool.false_eq_true, if_false, List.nil_append, quoted, List.cons_append,
        List.reverse_nil] at hread ⊢
      exact value?_of_fields hread hrest

/-- A plain value is read back from its text. -/
theorem parse?_text_of_plain {v : Value} (h : v.Plain) : parse? (String.ofList (text v)) = some v := by
  have hread := reads_of_plain h (Nat.le_succ _) (Nat.le_succ _) closes_nil
  simp only [List.append_nil] at hread
  simp only [parse?, String.toList_ofList, hread]

end Json

end BuildScheduling
