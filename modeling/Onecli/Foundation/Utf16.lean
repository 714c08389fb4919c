import Onecli.Foundation.CodeUnits

/-!
# UTF-16

A Unicode scalar value below `0x10000` is one code unit; every other is a high surrogate
followed by a low one. Scalar values are never surrogates, so the first and the last unit of
a character tell how far it reaches, and an ASCII unit stands for nothing but itself.
-/

namespace Utf16

open CodeUnits List

/-- The code units of one scalar value. -/
def utf16Char (c : Char) : List UInt16 :=
  if c.toNat < 0x10000 then [c.toNat.toUInt16]
  else [(0xD800 + (c.toNat - 0x10000) / 0x400).toUInt16, (0xDC00 + (c.toNat - 0x10000) % 0x400).toUInt16]

/-- Strings are compared unit by unit. -/
instance lawfulBEqUnits : LawfulBEq (List UInt16) := inferInstance

/-- The code units of a text. -/
def utf16 (s : List Char) : List UInt16 := encode utf16Char s

/-- The code units of a string literal. -/
def js (s : String) : List UInt16 := utf16 s.toList

@[simp] theorem utf16_nil : utf16 [] = [] := rfl

@[simp] theorem utf16_cons (c : Char) (s : List Char) : utf16 (c :: s) = utf16Char c ++ utf16 s := rfl

@[simp] theorem utf16_append (s t : List Char) : utf16 (s ++ t) = utf16 s ++ utf16 t := encode_append utf16Char s t

/-- A character is no surrogate. -/
theorem char_toNat_range (c : Char) :
    c.toNat < 0xD800 ∨ (0xDFFF < c.toNat ∧ c.toNat < 0x110000) := by
  have h := c.valid
  simpa [UInt32.isValidChar, Nat.isValidChar] using h

/-- A code unit is below `0x10000`, so writing a number below that keeps it. -/
theorem toNat_toUInt16 {n : ℕ} (h : n < 0x10000) : n.toUInt16.toNat = n := by
  simpa using Nat.mod_eq_of_lt h

/-- A character of one unit. -/
theorem utf16Char_of_lt {c : Char} (h : c.toNat < 0x10000) : utf16Char c = [c.toNat.toUInt16] := by
  rw [utf16Char, if_pos h]

/-- A character of two units. -/
theorem utf16Char_of_ge {c : Char} (h : ¬ c.toNat < 0x10000) :
    ∃ hi lo : UInt16, utf16Char c = [hi, lo] ∧ hi.toNat = 0xD800 + (c.toNat - 0x10000) / 0x400 ∧
      lo.toNat = 0xDC00 + (c.toNat - 0x10000) % 0x400 := by
  have hrange := char_toNat_range c
  refine ⟨_, _, by rw [utf16Char, if_neg h], toNat_toUInt16 (by omega), toNat_toUInt16 (by omega)⟩

/-- A character takes one unit, or two that no character takes alone. -/
theorem utf16Char_cases (c : Char) : (∃ u : UInt16, utf16Char c = [u] ∧ u.toNat = c.toNat) ∨
    0x10000 ≤ c.toNat ∧ ∃ hi lo : UInt16, utf16Char c = [hi, lo] ∧
      hi.toNat = 0xD800 + (c.toNat - 0x10000) / 0x400 ∧ lo.toNat = 0xDC00 + (c.toNat - 0x10000) % 0x400 := by
  by_cases h : c.toNat < 0x10000
  · exact .inl ⟨_, utf16Char_of_lt h, toNat_toUInt16 h⟩
  · exact .inr ⟨not_lt.mp h, utf16Char_of_ge h⟩

/-- A character is told by its first or its last units. -/
theorem utf16Char_selfDelimiting : SelfDelimiting utf16Char where
  block_ne_nil c := by
    unfold utf16Char
    split <;> simp
  read_first c d rest rest' h := by
    have hc := char_toNat_range c
    have hd := char_toNat_range d
    obtain ⟨u, hblock, hu⟩ | ⟨hge, hi, lo, hblock, hhi, hlo⟩ := utf16Char_cases c <;>
    obtain ⟨u', hblock', hu'⟩ | ⟨hge', hi', lo', hblock', hhi', hlo'⟩ := utf16Char_cases d <;>
    rw [hblock, hblock'] at h <;>
    simp only [cons_append, nil_append, List.cons.injEq, ← UInt16.toNat_inj] at h <;>
    exact Char.toNat_inj.mp (by omega)
  read_last c d rest rest' h := by
    have hc := char_toNat_range c
    have hd := char_toNat_range d
    obtain ⟨u, hblock, hu⟩ | ⟨hge, hi, lo, hblock, hhi, hlo⟩ := utf16Char_cases c <;>
    obtain ⟨u', hblock', hu'⟩ | ⟨hge', hi', lo', hblock', hhi', hlo'⟩ := utf16Char_cases d <;>
    have hunits := congrArg reverse h <;>
    rw [hblock, hblock'] at hunits <;>
    simp only [reverse_append, reverse_cons, reverse_nil, cons_append, nil_append, List.cons.injEq,
      ← UInt16.toNat_inj] at hunits <;>
    exact Char.toNat_inj.mp (by omega)

/-- A unit outside the surrogates is its character. -/
theorem mem_utf16Char_iff {c : Char} {u : UInt16} (hu : u.toNat < 0xD800 ∨ 0xDFFF < u.toNat) :
    u ∈ utf16Char c ↔ c.toNat = u.toNat := by
  have hrange := char_toNat_range c
  have hmax := u.toNat_lt
  by_cases hc : c.toNat < 0x10000
  · rw [utf16Char_of_lt hc, mem_singleton, ← UInt16.toNat_inj, toNat_toUInt16 hc, eq_comm]
  · obtain ⟨hi, lo, hblock, hhi, hlo⟩ := utf16Char_of_ge hc
    rw [hblock, mem_cons, mem_singleton, ← UInt16.toNat_inj, ← UInt16.toNat_inj]
    omega

theorem toNat_of_mem_utf16Char {c : Char} {u : UInt16} (hu : u ∈ utf16Char c) :
    u.toNat = c.toNat ∨ (0x10000 ≤ c.toNat ∧ 0xD800 ≤ u.toNat) := by
  by_cases hc : c.toNat < 0x10000
  · rw [utf16Char_of_lt hc, mem_singleton] at hu
    exact .inl (hu ▸ toNat_toUInt16 hc)
  · obtain ⟨hi, lo, hblock, hhi, hlo⟩ := utf16Char_of_ge hc
    rw [hblock, mem_cons, mem_singleton] at hu
    rcases hu with rfl | rfl <;> omega

/-- A character of one unit delimits. -/
theorem isDelimiter_utf16 (d : Char) (hd : d.toNat < 0x10000) :
    IsDelimiter utf16Char d d.toNat.toUInt16 where
  block_eq := utf16Char_of_lt hd
  not_mem_other c hc hmem := by
    have hrange := char_toNat_range d
    have hunit := toNat_toUInt16 hd
    rw [mem_utf16Char_iff (by omega), hunit] at hmem
    exact hc (Char.toNat_inj.mp hmem)

theorem utf16Char_synchronizing : Synchronizing utf16Char := by
  intro c d u us hblock v hv hfirst
  have hrange := char_toNat_range d
  have hlow : 0xDC00 ≤ v.toNat ∧ v.toNat ≤ 0xDFFF := by
    by_cases hc : c.toNat < 0x10000
    · rw [utf16Char_of_lt hc, List.cons.injEq] at hblock
      rw [← hblock.2] at hv
      cases hv
    · obtain ⟨hi, lo, hpair, -, hlo⟩ := utf16Char_of_ge hc
      rw [hpair, List.cons.injEq] at hblock
      rw [← hblock.2, mem_singleton] at hv
      rw [hv]
      omega
  by_cases hd : d.toNat < 0x10000
  · rw [utf16Char_of_lt hd, List.head?_cons, Option.some.injEq] at hfirst
    rw [← hfirst, toNat_toUInt16 hd] at hlow
    omega
  · obtain ⟨hi, lo, hpair, hhi, -⟩ := utf16Char_of_ge hd
    rw [hpair, List.head?_cons, Option.some.injEq] at hfirst
    rw [← hfirst] at hlow
    omega

/-- Texts of equal units are equal. -/
theorem utf16_injective : Function.Injective utf16 := encode_injective utf16Char_selfDelimiting

/-- Every character has a unit. -/
theorem utf16Char_length_pos (c : Char) : 0 < (utf16Char c).length :=
  length_pos_iff.mpr (utf16Char_selfDelimiting.block_ne_nil c)

end Utf16
