import Onecli.Api.Evaluator
import Onecli.Gateway.Evaluate
import Onecli.Graphql.KeyCount
import Onecli.Parity.Matchers
import Onecli.Graphql.Encoding

/-!
# The two ports of the GraphQL classifier

The API scans UTF-16 code units where the gateway scans characters. Everything the scanner
knows is written in one unit that is no surrogate, so the code units answer for their
characters, and the two ports classify every document alike. The gateway counts the keys of a
body over its bytes, whose marks are single bytes.
-/

namespace Onecli.Parity

open CodeUnits Utf16 Graphql
open Api (JsString unit)
open Gateway (Str byteUnit)

/-! ## Documents -/

theorem chars_isNameStart_iff (c : Char) : Gateway.chars.isNameStart c = true ↔
    c.toNat = 95 ∨ (97 ≤ c.toNat ∧ c.toNat ≤ 122) ∨ (65 ≤ c.toNat ∧ c.toNat ≤ 90) := by
  have hunderscore : c = '_' ↔ c.toNat = 95 := ⟨fun h => h ▸ rfl, fun h => Char.toNat_inj.mp h⟩
  simp only [Gateway.chars, isAlpha_iff, Bool.or_eq_true, beq_iff_eq, hunderscore]
  omega

theorem chars_isNamePart_iff (c : Char) : Gateway.chars.isNamePart c = true ↔
    Gateway.chars.isNameStart c = true ∨ (48 ≤ c.toNat ∧ c.toNat ≤ 57) := by
  have hdigit : c.isDigit = true ↔ 48 ≤ c.toNat ∧ c.toNat ≤ 57 := by
    simp only [Char.isDigit, Bool.and_eq_true, decide_eq_true_eq, ge_iff_le, UInt32.le_iff_toNat_le]
    exact Iff.rfl
  simp only [Gateway.chars, Char.isAlphanum, Bool.or_eq_true, hdigit, or_assoc]

theorem units_isNameStart_iff (u : UInt16) : Api.units.isNameStart u = true ↔
    u.toNat = 95 ∨ (97 ≤ u.toNat ∧ u.toNat ≤ 122) ∨ (65 ≤ u.toNat ∧ u.toNat ≤ 90) := by
  simp only [Api.units, Api.isStart, Bool.or_eq_true, beq_iff_eq, Bool.and_eq_true,
    decide_eq_true_eq, UInt16.le_iff_toNat_le, ← UInt16.toNat_inj, or_assoc]
  exact Iff.rfl

theorem units_isNamePart_iff (u : UInt16) : Api.units.isNamePart u = true ↔
    Api.units.isNameStart u = true ∨ (48 ≤ u.toNat ∧ u.toNat ≤ 57) := by
  simp only [Api.units, Api.isPart, Bool.or_eq_true, Bool.and_eq_true, decide_eq_true_eq, UInt16.le_iff_toNat_le]
  exact Iff.rfl

theorem utf16_spells : Spells utf16Char Api.units.unit (Significant Gateway.chars) where
  block_ne_nil := utf16Char_selfDelimiting.block_ne_nil
  delimiter d hd := by
    refine isDelimiter_utf16 d ?_
    rcases hd with hd | hd
    · revert d
      decide
    · rw [chars_isNamePart_iff, chars_isNameStart_iff] at hd
      omega

/-- UTF-16 encodes characters. -/
theorem utf16_encodes : Encodes Gateway.chars Api.units utf16Char where
  unit_self _ := rfl
  spells := utf16_spells
  nameStart c u hu := by
    have hunit := toNat_of_mem_utf16Char hu
    rw [Bool.eq_iff_iff, chars_isNameStart_iff, units_isNameStart_iff]
    omega
  namePart c u hu := by
    have hunit := toNat_of_mem_utf16Char hu
    rw [Bool.eq_iff_iff, chars_isNamePart_iff, chars_isNameStart_iff, units_isNamePart_iff, units_isNameStart_iff]
    omega
  part_of_start c hc := (chars_isNamePart_iff c).mpr (.inl hc)
  keyword := by decide

/-- Both ports give every document the same kind. -/
theorem classifyGraphqlDocument_parity (document : Str) :
    Api.classifyGraphqlDocument (utf16 document) = Gateway.classifyGraphqlDocument document :=
  utf16_encodes.classifyDocument_encode document

/-! ## Bodies -/

theorem isDelimiter_utf8 {d : Char} (hd : d.toNat < 128) :
    IsDelimiter String.utf8EncodeChar d (byteUnit d) where
  block_eq := by
    have hval : d.val.toNat ≤ 0x7f := Nat.le_of_lt_succ hd
    unfold String.utf8EncodeChar byteUnit
    simp only [if_pos hval]
    rfl
  not_mem_other c hne hmem := by
    have hunit : (byteUnit d).toNat = d.toNat := by
      unfold byteUnit
      exact Nat.mod_eq_of_lt (by omega)
    refine hne (Char.toNat_inj.mp ?_)
    change c.val.toNat = d.toNat
    rw [Gateway.toNat_of_mem_utf8EncodeChar hmem (by omega), hunit]

/-- UTF-8 spells the keys. -/
theorem utf8_spells_keys : Spells String.utf8EncodeChar byteUnit (· ∈ keySignificant) where
  block_ne_nil c := by
    rw [← List.length_pos_iff, String.length_utf8EncodeChar]
    exact c.utf8Size_pos
  delimiter d hd := by
    have hascii : ∀ d ∈ keySignificant, d.toNat < 128 := by decide
    exact isDelimiter_utf8 (hascii d hd)

end Onecli.Parity
