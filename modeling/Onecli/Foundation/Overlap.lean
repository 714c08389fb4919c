import Mathlib.Data.Set.Insert
import Mathlib.Tactic.Tauto

/-!
# Overlaps of scopes

A scope is a set of entries, and an entry may lie inside another one. Targets are at entries.
A root entry holds everything, but as long as a scope has another entry its roots are left out
of what it admits. The overlap of two scopes keeps the entries of either that lie inside the
other. What it admits is admitted by both scopes unless one of them mixes roots with narrower
entries, and composing three scopes does not depend on the order exactly when they meet.
-/

namespace Overlap

open Set

variable {E T : Type*}

/-- Entries with their inclusion, their roots and the targets at them. -/
structure Places (E T : Type*) where
  Inside : E → E → Prop
  Root : E → Prop
  At : T → E → Prop
  inside_trans {x y z : E} : Inside x y → Inside y z → Inside x z
  inside_root {x y : E} : Root y → Inside x y
  root_of_inside {x y : E} : Root x → Inside x y → Root y
  inside_self {x y : E} : Inside x y → Inside y y
  at_of_inside {t : T} {x y : E} : At t x → Inside x y → At t y
  inside_of_at {t : T} {x : E} : At t x → Inside x x
  exists_target {y : E} : ¬ Root y → Inside y y → ∃ t, ∀ x, At t x ↔ Inside y x

namespace Places

variable (P : Places E T)

/-- The entries inside some entry of a scope. -/
def reach (A : Set E) : Set E := {z | ∃ x ∈ A, P.Inside z x}

/-- The overlap of two scopes. -/
def overlap (A B : Set E) : Set E := {z | (z ∈ A ∧ z ∈ P.reach B) ∨ (z ∈ B ∧ z ∈ P.reach A)}

/-- A scope names a root. -/
def HasRoot (A : Set E) : Prop := ∃ x ∈ A, P.Root x

/-- A scope names an entry other than a root. -/
def HasNarrow (A : Set E) : Prop := ∃ x ∈ A, ¬ P.Root x

/-- The targets that a scope admits: those at its narrow entries, or all if it only has roots. -/
def admitted (A : Set E) : Set T := {t | (∃ x ∈ A, ¬ P.Root x ∧ P.At t x) ∨ (P.HasRoot A ∧ ¬ P.HasNarrow A)}

/-- One of two entries is inside the other. -/
def Nested (x y : E) : Prop := P.Inside x y ∨ P.Inside y x

/-- The narrow entries of the second scope are inside narrow entries of the first. -/
def NarrowlyCovers (A B : Set E) : Prop := ∀ y ∈ B, ¬ P.Root y → P.Inside y y → ∃ x ∈ A, ¬ P.Root x ∧ P.Inside y x

/-- An entry of the third scope that both others hold is held by their overlap. -/
def Meet (A B C : Set E) : Prop := ∀ z ∈ C, P.Inside z z → z ∈ P.reach A → z ∈ P.reach B → z ∈ P.reach (P.overlap A B)

variable {P} {A B C : Set E} {t : T} {z : E}

/-- Overlap does not depend on the order. -/
theorem overlap_comm (A B : Set E) : P.overlap A B = P.overlap B A := ext fun _ => or_comm

theorem reach_of_inside {x : E} (h : P.Inside z x) (hx : x ∈ P.reach A) : z ∈ P.reach A := by
  obtain ⟨y, hy, hxy⟩ := hx
  exact ⟨y, hy, P.inside_trans h hxy⟩

/-- What the overlap reaches. -/
theorem mem_reach_overlap_iff :
    z ∈ P.reach (P.overlap A B) ↔ ∃ x ∈ A, ∃ y ∈ B, P.Inside z x ∧ P.Inside z y ∧ P.Nested x y := by
  constructor
  · rintro ⟨w, ⟨hw, v, hv, hwv⟩ | ⟨hw, v, hv, hwv⟩, hzw⟩
    · exact ⟨w, hw, v, hv, hzw, P.inside_trans hzw hwv, .inl hwv⟩
    · exact ⟨v, hv, w, hw, P.inside_trans hzw hwv, hzw, .inr hwv⟩
  · rintro ⟨x, hx, y, hy, hzx, hzy, hxy | hyx⟩
    · exact ⟨x, .inl ⟨hx, y, hy, hxy⟩, hzx⟩
    · exact ⟨y, .inr ⟨hy, x, hx, hyx⟩, hzy⟩

theorem reach_overlap_subset : P.reach (P.overlap A B) ⊆ P.reach A ∩ P.reach B := by
  intro z hz
  obtain ⟨x, hx, y, hy, hzx, hzy, -⟩ := mem_reach_overlap_iff.mp hz
  exact ⟨⟨x, hx, hzx⟩, ⟨y, hy, hzy⟩⟩

/-- A root reaches everything. -/
theorem mem_reach_of_hasRoot (h : P.HasRoot A) (z : E) : z ∈ P.reach A := by
  obtain ⟨x, hx, hroot⟩ := h
  exact ⟨x, hx, P.inside_root hroot⟩

theorem hasRoot_of_mem_reach (hz : P.Root z) (h : z ∈ P.reach A) : P.HasRoot A := by
  obtain ⟨x, hx, hzx⟩ := h
  exact ⟨x, hx, P.root_of_inside hz hzx⟩

/-- An overlap has a root where both have. -/
theorem hasRoot_overlap_iff : P.HasRoot (P.overlap A B) ↔ P.HasRoot A ∧ P.HasRoot B := by
  constructor
  · rintro ⟨z, ⟨hz, hreach⟩ | ⟨hz, hreach⟩, hroot⟩
    · exact ⟨⟨z, hz, hroot⟩, hasRoot_of_mem_reach hroot hreach⟩
    · exact ⟨hasRoot_of_mem_reach hroot hreach, ⟨z, hz, hroot⟩⟩
  · rintro ⟨⟨x, hx, hroot⟩, hB⟩
    exact ⟨x, .inl ⟨hx, mem_reach_of_hasRoot hB x⟩, hroot⟩

/-- Rooted sets overlap in their union. -/
theorem overlap_of_hasRoot (hA : P.HasRoot A) (hB : P.HasRoot B) : P.overlap A B = A ∪ B := by
  ext z
  constructor
  · rintro (⟨hz, -⟩ | ⟨hz, -⟩)
    · exact .inl hz
    · exact .inr hz
  · rintro (hz | hz)
    · exact .inl ⟨hz, mem_reach_of_hasRoot hB z⟩
    · exact .inr ⟨hz, mem_reach_of_hasRoot hA z⟩

theorem mem_admitted_of_not_hasRoot (h : ¬ P.HasRoot A) : t ∈ P.admitted A ↔ ∃ x ∈ A, P.At t x := by
  constructor
  · rintro (⟨x, hx, -, ht⟩ | ⟨hroot, -⟩)
    · exact ⟨x, hx, ht⟩
    · exact absurd hroot h
  · rintro ⟨x, hx, ht⟩
    exact .inl ⟨x, hx, fun hroot => h ⟨x, hx, hroot⟩, ht⟩

theorem admitted_congr (hA : ¬ P.HasRoot A) (hB : ¬ P.HasRoot B)
    (h : ∀ z, P.Inside z z → (z ∈ P.reach A ↔ z ∈ P.reach B)) : P.admitted A = P.admitted B := by
  ext t
  rw [mem_admitted_of_not_hasRoot hA, mem_admitted_of_not_hasRoot hB]
  constructor
  · rintro ⟨x, hx, ht⟩
    have hself := P.inside_of_at ht
    obtain ⟨y, hy, hxy⟩ := (h x hself).mp ⟨x, hx, hself⟩
    exact ⟨y, hy, P.at_of_inside ht hxy⟩
  · rintro ⟨x, hx, ht⟩
    have hself := P.inside_of_at ht
    obtain ⟨y, hy, hxy⟩ := (h x hself).mpr ⟨x, hx, hself⟩
    exact ⟨y, hy, P.at_of_inside ht hxy⟩

section Sound

/-- What the overlap admits, the first scope does, unless it mixes roots with narrower entries
that miss an entry of the second. -/
theorem admitted_overlap_subset (h : P.HasRoot A → P.HasNarrow A → P.NarrowlyCovers A B) :
    P.admitted (P.overlap A B) ⊆ P.admitted A := by
  rintro t (⟨z, hz, hnarrow, ht⟩ | ⟨hroot, hall⟩)
  · rcases hz with ⟨hz, -⟩ | ⟨hz, x, hx, hzx⟩
    · exact .inl ⟨z, hz, hnarrow, ht⟩
    · by_cases hxroot : P.Root x
      · by_cases hA : P.HasNarrow A
        · obtain ⟨y, hy, hynarrow, hzy⟩ := h ⟨x, hx, hxroot⟩ hA z hz hnarrow (P.inside_of_at ht)
          exact .inl ⟨y, hy, hynarrow, P.at_of_inside ht hzy⟩
        · exact .inr ⟨⟨x, hx, hxroot⟩, hA⟩
      · exact .inl ⟨x, hx, hxroot, P.at_of_inside ht hzx⟩
  · obtain ⟨hA, hB⟩ := hasRoot_overlap_iff.mp hroot
    refine .inr ⟨hA, ?_⟩
    rintro ⟨x, hx, hxnarrow⟩
    apply hall
    rw [overlap_of_hasRoot hA hB]
    exact ⟨x, .inl hx, hxnarrow⟩

/-- A scope with a root admits through the overlap every narrow entry of the other one, so it
has to cover them by its own narrow entries, if it has any. -/
theorem narrowlyCovers_of_admitted_overlap
    (h : P.admitted (P.overlap A B) ⊆ P.admitted A) (hroot : P.HasRoot A) (hnarrow : P.HasNarrow A) :
    P.NarrowlyCovers A B := by
  intro y hy hynarrow hself
  obtain ⟨t, ht⟩ := P.exists_target hynarrow hself
  have hmem : t ∈ P.admitted (P.overlap A B) :=
    .inl ⟨y, .inr ⟨hy, mem_reach_of_hasRoot hroot y⟩, hynarrow, (ht y).mpr hself⟩
  rcases h hmem with ⟨x, hx, hxnarrow, htx⟩ | ⟨-, hall⟩
  · exact ⟨x, hx, hxnarrow, (ht x).mp htx⟩
  · exact absurd hnarrow hall

/-- Where places nest, what both policies admit their overlap admits. -/
theorem subset_admitted_overlap (hnested : ∀ t x y, P.At t x → P.At t y → P.Nested x y) :
    P.admitted A ∩ P.admitted B ⊆ P.admitted (P.overlap A B) := by
  rintro t ⟨⟨x, hx, hxnarrow, htx⟩ | ⟨hA, hAroots⟩, ⟨y, hy, hynarrow, hty⟩ | ⟨hB, hBroots⟩⟩
  · rcases hnested t x y htx hty with hxy | hyx
    · exact .inl ⟨x, .inl ⟨hx, y, hy, hxy⟩, hxnarrow, htx⟩
    · exact .inl ⟨y, .inr ⟨hy, x, hx, hyx⟩, hynarrow, hty⟩
  · exact .inl ⟨x, .inl ⟨hx, mem_reach_of_hasRoot hB x⟩, hxnarrow, htx⟩
  · exact .inl ⟨y, .inr ⟨hy, mem_reach_of_hasRoot hA y⟩, hynarrow, hty⟩
  · refine .inr ⟨hasRoot_overlap_iff.mpr ⟨hA, hB⟩, ?_⟩
    rw [overlap_of_hasRoot hA hB]
    rintro ⟨z, hz | hz, hznarrow⟩
    · exact hAroots ⟨z, hz, hznarrow⟩
    · exact hBroots ⟨z, hz, hznarrow⟩

end Sound

section Associative

/-- The entries of a scope that two others hold as well. -/
def held (P : Places E T) (A B C : Set E) : Set E := {z | z ∈ A ∧ z ∈ P.reach B ∧ z ∈ P.reach C}

theorem held_comm (A B C : Set E) : P.held A B C = P.held A C B := by
  ext z
  exact and_congr_right fun _ => and_comm

/-- When the overlap of the first two holds what both hold of the third, the overlap of all
three reaches what some scope names and the others hold. -/
theorem reach_overlap_overlap (h : P.Meet A B C) :
    z ∈ P.reach (P.overlap (P.overlap A B) C) ↔ z ∈ P.reach (P.held A B C ∪ P.held B A C ∪ P.held C A B) := by
  constructor
  · rintro ⟨x, (⟨⟨hx, hxB⟩ | ⟨hx, hxA⟩, hxC⟩ | ⟨hx, hxAB⟩), hzx⟩
    · exact ⟨x, .inl (.inl ⟨hx, hxB, hxC⟩), hzx⟩
    · exact ⟨x, .inl (.inr ⟨hx, hxA, hxC⟩), hzx⟩
    · obtain ⟨hxA, hxB⟩ := reach_overlap_subset hxAB
      exact ⟨x, .inr ⟨hx, hxA, hxB⟩, hzx⟩
  · rintro ⟨x, ((⟨hx, hxB, hxC⟩ | ⟨hx, hxA, hxC⟩) | ⟨hx, hxA, hxB⟩), hzx⟩
    · exact ⟨x, .inl ⟨.inl ⟨hx, hxB⟩, hxC⟩, hzx⟩
    · exact ⟨x, .inl ⟨.inr ⟨hx, hxA⟩, hxC⟩, hzx⟩
    · exact ⟨x, .inr ⟨hx, h x hx (P.inside_self hzx) hxA hxB⟩, hzx⟩

theorem admitted_overlap_assoc (hAB : P.Meet A B C) (hBC : P.Meet B C A) :
    P.admitted (P.overlap (P.overlap A B) C) = P.admitted (P.overlap A (P.overlap B C)) := by
  by_cases hroots : P.HasRoot A ∧ P.HasRoot B ∧ P.HasRoot C
  · obtain ⟨hA, hB, hC⟩ := hroots
    rw [overlap_of_hasRoot (hasRoot_overlap_iff.mpr ⟨hA, hB⟩) hC,
      overlap_of_hasRoot hA (hasRoot_overlap_iff.mpr ⟨hB, hC⟩), overlap_of_hasRoot hA hB,
      overlap_of_hasRoot hB hC, union_assoc]
  · have hleft : ¬ P.HasRoot (P.overlap (P.overlap A B) C) := by
      rw [hasRoot_overlap_iff, hasRoot_overlap_iff, and_assoc]
      exact hroots
    have hright : ¬ P.HasRoot (P.overlap (P.overlap B C) A) := by
      rw [hasRoot_overlap_iff, hasRoot_overlap_iff, and_comm]
      exact hroots
    rw [overlap_comm A (P.overlap B C)]
    refine admitted_congr hleft hright fun z _ => ?_
    rw [reach_overlap_overlap hAB, reach_overlap_overlap hBC]
    rw [union_assoc, union_comm (P.held A B C), held_comm B A C, held_comm C A B]

/-- What composing the last two first admits beyond the other order shows where the first two
do not meet. -/
theorem meet_of_admitted_overlap
    (h : P.admitted (P.overlap A (P.overlap B C)) ⊆ P.admitted (P.overlap (P.overlap A B) C)) :
    P.Meet A B C := by
  intro z hz hself hA hB
  by_cases hroot : P.Root z
  · have hAB := hasRoot_overlap_iff.mpr ⟨hasRoot_of_mem_reach hroot hA, hasRoot_of_mem_reach hroot hB⟩
    exact mem_reach_of_hasRoot hAB z
  · obtain ⟨t, ht⟩ := P.exists_target hroot hself
    have hmem : t ∈ P.admitted (P.overlap A (P.overlap B C)) :=
      .inl ⟨z, .inr ⟨.inr ⟨hz, hB⟩, hA⟩, hroot, (ht z).mpr hself⟩
    rcases h hmem with ⟨w, hw, -, htw⟩ | ⟨hroots, -⟩
    · have hzw := (ht w).mp htw
      rcases hw with ⟨hw, -⟩ | ⟨-, hw⟩
      · exact ⟨w, hw, hzw⟩
      · exact reach_of_inside hzw hw
    · exact mem_reach_of_hasRoot (hasRoot_overlap_iff.mp hroots).1 z

/-- Overlap is associative exactly where the scopes meet. -/
theorem admitted_overlap_assoc_iff :
    P.admitted (P.overlap (P.overlap A B) C) = P.admitted (P.overlap A (P.overlap B C)) ↔
      P.Meet A B C ∧ P.Meet B C A := by
  constructor
  · intro h
    refine ⟨meet_of_admitted_overlap (subset_of_eq h.symm), ?_⟩
    have hBC : P.Meet C B A := by
      apply meet_of_admitted_overlap
      rw [overlap_comm C (P.overlap B A), overlap_comm (P.overlap C B) A, overlap_comm C B, overlap_comm B A]
      exact subset_of_eq h
    intro z hz hself hB hC
    rw [overlap_comm B C]
    exact hBC z hz hself hC hB
  · rintro ⟨hAB, hBC⟩
    exact admitted_overlap_assoc hAB hBC

end Associative

end Places

end Overlap
