import Onecli.Foundation.Utf16

/-!
# JavaScript strings

A JavaScript string is a list of UTF-16 code units, well formed or not. Its methods compare
and cut code units; a text of scalar values enters through `Utf16.utf16`.
-/

namespace Onecli.Api

/-- A JavaScript string. -/
abbrev JsString := List UInt16

/-- The code unit of an ASCII character. -/
def unit (c : Char) : UInt16 := c.toNat.toUInt16

/-- `asciiLower` of one code unit. -/
def asciiLowerUnit (u : UInt16) : UInt16 := if 65 ≤ u ∧ u ≤ 90 then u + 32 else u

/-- `asciiLower`. -/
def asciiLower (s : JsString) : JsString := s.map asciiLowerUnit

/-- `String.prototype.includes` of a string. -/
def includesStr (s needle : JsString) : Bool := decide (needle <:+: s)

/-- The letters that are lowered. -/
theorem toNat_asciiLowerUnit (u : UInt16) :
    (asciiLowerUnit u).toNat = if 65 ≤ u.toNat ∧ u.toNat ≤ 90 then u.toNat + 32 else u.toNat := by
  have hcond : (65 ≤ u ∧ u ≤ 90) ↔ 65 ≤ u.toNat ∧ u.toNat ≤ 90 := by
    exact Iff.rfl
  unfold asciiLowerUnit
  by_cases h : 65 ≤ u ∧ u ≤ 90
  · have hrange := hcond.mp h
    rw [if_pos h, if_pos hrange]
    refine Nat.mod_eq_of_lt ?_
    change u.toNat + 32 < 2 ^ 16
    omega
  · rw [if_neg h, if_neg fun hrange => h (hcond.mpr hrange)]

@[simp] theorem asciiLower_length (s : JsString) : (asciiLower s).length = s.length := by
  simp [asciiLower]

@[simp] theorem asciiLower_append (s t : JsString) :
    asciiLower (s ++ t) = asciiLower s ++ asciiLower t := by
  simp [asciiLower]

@[simp] theorem asciiLower_asciiLower (s : JsString) : asciiLower (asciiLower s) = asciiLower s := by
  simp only [asciiLower, List.map_map, List.map_inj_left, Function.comp_apply]
  intro u _
  rw [← UInt16.toNat_inj, toNat_asciiLowerUnit, toNat_asciiLowerUnit]
  split_ifs <;> omega

end Onecli.Api
