import BuildScheduling.Name

/-!
# The bytes of a text

A character up to 127 is one byte, every other one is several, each between 128 and 247. So a text may be folded character by
character or byte by byte (`utf8Bytes_foldCase`), and 255 is no byte of a text (`end_not_mem_utf8Bytes`).
-/

namespace BuildScheduling

/-- The byte of an ASCII capital becomes that of the small letter; every other byte stays. -/
def foldByte (b : UInt8) : UInt8 := if 65 ≤ b ∧ b ≤ 90 then b + 32 else b

theorem utf8Bytes_eq (s : String) : utf8Bytes s = s.toList.flatMap String.utf8EncodeChar := by
  rw [utf8Bytes, String.toUTF8_eq_toByteArray, ← String.utf8Encode_toList, List.utf8Encode, List.data_toByteArray]

/-! ### One character -/

theorem bytes_of_not_ascii {c : Char} (h : 127 < c.val.toNat) {b : UInt8} (hb : b ∈ String.utf8EncodeChar c) :
    128 ≤ b.toNat ∧ b.toNat < 248 := by
  have hascii : ¬ c.val.toNat ≤ 127 := by omega
  simp only [String.utf8EncodeChar, if_neg hascii] at hb
  split at hb
  · simp only [List.mem_cons, List.not_mem_nil, or_false] at hb
    rcases hb with rfl | rfl <;> rw [UInt8.toNat_ofNat'] <;> omega
  · split at hb
    · simp only [List.mem_cons, List.not_mem_nil, or_false] at hb
      rcases hb with rfl | rfl | rfl <;> rw [UInt8.toNat_ofNat'] <;> omega
    · simp only [List.mem_cons, List.not_mem_nil, or_false] at hb
      rcases hb with rfl | rfl | rfl | rfl <;> rw [UInt8.toNat_ofNat'] <;> omega

theorem toLower_of_not_ascii {c : Char} (h : 127 < c.val.toNat) : c.toLower = c := by
  have hcapital : ¬ (c.val ≥ 'A'.val ∧ c.val ≤ 'Z'.val) := by
    rintro ⟨-, hle⟩
    have hlast : c.val.toNat ≤ 90 := UInt32.le_iff_toNat_le.mp hle
    omega
  unfold Char.toLower
  exact dif_neg hcapital

theorem foldByte_of_not_ascii {b : UInt8} (h : 128 ≤ b.toNat) : foldByte b = b := by
  apply if_neg
  rintro ⟨-, hle⟩
  have hlast : b.toNat ≤ 90 := UInt8.le_iff_toNat_le.mp hle
  omega

theorem utf8EncodeChar_toLower (c : Char) :
    String.utf8EncodeChar c.toLower = (String.utf8EncodeChar c).map foldByte := by
  by_cases hascii : 127 < c.val.toNat
  · have hstay : (String.utf8EncodeChar c).map foldByte = (String.utf8EncodeChar c).map id :=
      List.map_congr_left fun b hb => foldByte_of_not_ascii (bytes_of_not_ascii hascii hb).1
    rw [toLower_of_not_ascii hascii, hstay, List.map_id]
  · have hall : ∀ n : Fin 128, String.utf8EncodeChar (Char.ofNat n).toLower =
        (String.utf8EncodeChar (Char.ofNat n)).map foldByte := by decide
    have hlt : c.toNat < 128 := by
      have hval : c.toNat = c.val.toNat := rfl
      omega
    have hc := hall ⟨c.toNat, hlt⟩
    rwa [Char.ofNat_toNat] at hc

theorem end_not_mem_utf8EncodeChar (c : Char) : 0xff ∉ String.utf8EncodeChar c := by
  have hend : (0xff : UInt8).toNat = 255 := rfl
  intro hmem
  by_cases hascii : 127 < c.val.toNat
  · have hlt := (bytes_of_not_ascii hascii hmem).2
    omega
  · have hle : c.val.toNat ≤ 127 := by omega
    rw [String.utf8EncodeChar, if_pos hle, List.mem_singleton] at hmem
    have hbyte := congrArg UInt8.toNat hmem
    rw [UInt8.toNat_ofNat'] at hbyte
    omega

/-! ### Texts -/

theorem utf8Bytes_foldCase (s : String) : utf8Bytes (foldCase s) = (utf8Bytes s).map foldByte := by
  rw [utf8Bytes_eq, utf8Bytes_eq, foldCase, String.toList_map, List.flatMap_map, List.map_flatMap]
  congr 1
  funext c
  exact utf8EncodeChar_toLower c

theorem end_not_mem_utf8Bytes (s : String) : 0xff ∉ utf8Bytes s := by
  rw [utf8Bytes_eq, List.mem_flatMap]
  rintro ⟨c, -, hc⟩
  exact end_not_mem_utf8EncodeChar c hc

end BuildScheduling
