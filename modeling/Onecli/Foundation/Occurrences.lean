import Mathlib.Data.List.Infix

/-!
# Occurrences in joined lists

Where a list occurs in two lists joined, it occurs in one of them or straddles the joint. A separator as long as the
list itself, of an element that neither begins nor ends it, keeps it from straddling.
-/

namespace Occurrences

open List

variable {A : Type}

theorem getLast?_of_infix_concat {v l : List A} {x : A} (h : v <:+: l ++ [x]) (hnot : ¬ v <:+: l) :
    v.getLast? = some x := by
  have hlast {part : List A} (hpart : part ≠ []) (hsub : part ⊆ [x]) : part.getLast? = some x := by
    rw [List.getLast?_eq_some_getLast hpart, mem_singleton.mp (hsub (getLast_mem hpart))]
  cases infix_append_iff.mp h with
  | inl hleft => exact absurd hleft hnot
  | inr h =>
    cases h with
    | inl hright =>
      refine hlast (fun hnil => ?_) hright.subset
      rw [hnil] at hnot
      exact hnot nil_infix
    | inr hstraddle =>
      obtain ⟨front, back, rfl, hfront, hback⟩ := hstraddle
      by_cases hnil : back = []
      · rw [hnil, append_nil] at hnot
        exact absurd hfront.isInfix hnot
      · rw [List.getLast?_append_of_ne_nil _ hnil]
        exact hlast hnil hback.subset

theorem infix_of_separated {v l r : List A} {y : A} (hne : v ≠ []) (hhead : v.head? ≠ some y) (hlast : v.getLast? ≠ some y)
    (h : v <:+: l ++ (List.replicate v.length y ++ r)) : v <:+: l ∨ v <:+: r := by
  have hnotin {part : List A} (hpart : part ≠ []) (hsub : part ⊆ List.replicate v.length y) :
      part.head? = some y ∧ part.getLast? = some y := by
    obtain ⟨x, hx⟩ := exists_mem_of_ne_nil part hpart
    constructor
    · rw [List.head?_eq_some_head hpart, eq_of_mem_replicate (hsub (head_mem hpart))]
    · rw [List.getLast?_eq_some_getLast hpart, eq_of_mem_replicate (hsub (getLast_mem hpart))]
  cases infix_append_iff.mp h with
  | inl hleft => exact Or.inl hleft
  | inr h =>
    cases h with
    | inl hright =>
      cases infix_append_iff.mp hright with
      | inl hsep => exact absurd (hnotin hne hsep.subset).1 hhead
      | inr h =>
        cases h with
        | inl hright => exact Or.inr hright
        | inr hstraddle =>
          obtain ⟨front, back, rfl, hfront, hback⟩ := hstraddle
          by_cases hnil : front = []
          · rw [hnil]
            exact Or.inr hback.isInfix
          · refine absurd ?_ hhead
            rw [List.head?_append_of_ne_nil _ hnil]
            exact (hnotin hnil hfront.subset).1
    | inr hstraddle =>
      obtain ⟨front, back, rfl, hfront, hback⟩ := hstraddle
      by_cases hnil : back = []
      · rw [hnil, append_nil]
        exact Or.inl hfront.isInfix
      · refine absurd ?_ hlast
        have hshort : back <+: List.replicate (front ++ back).length y := by
          refine prefix_of_prefix_length_le hback (prefix_append _ r) ?_
          rw [length_replicate, length_append]
          exact Nat.le_add_left _ _
        rw [List.getLast?_append_of_ne_nil _ hnil]
        exact (hnotin hnil hshort.subset).2

theorem infix_of_flatMap_separated {v tail : List A} {y : A} (hne : v ≠ []) (hhead : v.head? ≠ some y)
    (hlast : v.getLast? ≠ some y) {blocks : List (List A)}
    (h : v <:+: (blocks.flatMap fun block => block ++ List.replicate v.length y) ++ tail) :
    (∃ block ∈ blocks, v <:+: block) ∨ v <:+: tail := by
  induction blocks with
  | nil => exact Or.inr h
  | cons block blocks ih =>
    rw [flatMap_cons, append_assoc, append_assoc] at h
    cases infix_of_separated hne hhead hlast h with
    | inl hblock => exact Or.inl ⟨block, mem_cons_self, hblock⟩
    | inr hrest =>
      cases ih hrest with
      | inl hlater =>
        obtain ⟨other, hother, hin⟩ := hlater
        exact Or.inl ⟨other, mem_cons_of_mem block hother, hin⟩
      | inr htail => exact Or.inr htail

theorem exists_longest {p : List A → Prop} {values : List (List A)} (h : ∃ v ∈ values, p v) :
    ∃ v ∈ values, p v ∧ ∀ w ∈ values, p w → w.length ≤ v.length := by
  induction values with
  | nil =>
    obtain ⟨v, hv, -⟩ := h
    cases hv
  | cons first values ih =>
    by_cases hrest : ∃ v ∈ values, p v
    · obtain ⟨v, hv, hpv, hlongest⟩ := ih hrest
      by_cases hlonger : p first ∧ v.length < first.length
      · refine ⟨first, mem_cons_self, hlonger.1, fun w hw hpw => ?_⟩
        cases mem_cons.mp hw with
        | inl heq => rw [heq]
        | inr hw => exact Nat.le_trans (hlongest w hw hpw) (Nat.le_of_lt hlonger.2)
      · refine ⟨v, mem_cons_of_mem first hv, hpv, fun w hw hpw => ?_⟩
        cases mem_cons.mp hw with
        | inl heq =>
          rw [heq] at hpw ⊢
          exact Nat.le_of_not_lt fun hlt => hlonger ⟨hpw, hlt⟩
        | inr hw => exact hlongest w hw hpw
    · obtain ⟨v, hv, hpv⟩ := h
      cases mem_cons.mp hv with
      | inr hv => exact absurd ⟨v, hv, hpv⟩ hrest
      | inl heq =>
        subst heq
        refine ⟨v, mem_cons_self, hpv, fun w hw hpw => ?_⟩
        cases mem_cons.mp hw with
        | inl heq => rw [heq]
        | inr hw => exact absurd ⟨w, hw, hpw⟩ hrest

end Occurrences
