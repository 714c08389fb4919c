import Mathlib.Data.List.Basic

/-!
# Lists in which nothing comes too early

An entry of a list may need others before it. A list is ordered, over what is known beforehand, when every entry comes
after all that it needs. Such lists are cut and joined: what a stream delivers is read from the front, a lost end is
cut off, and later entries are added at the back.

Keys that increase along a list give the other direction: what lies up to a bound is a front of it.
-/

namespace Causal

open List

variable {α : Type*} {needs needs' : α → α → Prop} {known known' : α → Prop}

/-- Every entry of a list comes after what it needs and is not known beforehand. -/
def Ordered (needs : α → α → Prop) (known : α → Prop) : List α → Prop
  | [] => True
  | a :: rest => (∀ b, needs a b → known b) ∧ Ordered needs (fun b => known b ∨ b = a) rest

/-- An order with fewer needs. -/
theorem Ordered.imp {l : List α} (hl : Ordered needs known l)
    (h : ∀ a ∈ l, ∀ b, needs' a b → needs a b ∧ (known b → known' b)) : Ordered needs' known' l := by
  induction l generalizing known known' with
  | nil => trivial
  | cons a rest ih =>
    refine ⟨fun b hb => (h a mem_cons_self b hb).2 (hl.1 b (h a mem_cons_self b hb).1), ?_⟩
    refine ih hl.2 fun c hc b hb => ?_
    obtain ⟨hneeds, hknown⟩ := h c (mem_cons_of_mem a hc) b hb
    exact ⟨hneeds, Or.imp_left hknown⟩

theorem ordered_of_free {l : List α} (h : ∀ a ∈ l, ∀ b, ¬ needs a b) : Ordered needs known l := by
  induction l generalizing known with
  | nil => trivial
  | cons a rest ih => exact ⟨fun b hb => absurd hb (h a mem_cons_self b), ih fun c hc => h c (mem_cons_of_mem a hc)⟩

theorem ordered_append_iff (front back : List α) : Ordered needs known (front ++ back) ↔
    Ordered needs known front ∧ Ordered needs (fun b => known b ∨ b ∈ front) back := by
  induction front generalizing known with
  | nil =>
    refine ⟨fun h => ⟨trivial, h.imp fun a _ b hb => ⟨hb, Or.inl⟩⟩, fun h => h.2.imp fun a _ b hb => ⟨hb, ?_⟩⟩
    exact fun hknown => hknown.resolve_right not_mem_nil
  | cons c front ih =>
    rw [cons_append, Ordered, Ordered, ih, and_assoc]
    refine and_congr_right fun _ => and_congr_right fun _ => ?_
    have hmem (b : α) : (known b ∨ b = c) ∨ b ∈ front ↔ known b ∨ b ∈ c :: front := by
      rw [or_assoc, mem_cons]
    exact ⟨fun h => h.imp fun a _ b hb => ⟨hb, (hmem b).mp⟩, fun h => h.imp fun a _ b hb => ⟨hb, (hmem b).mpr⟩⟩

theorem Ordered.take {l : List α} (hl : Ordered needs known l) (n : ℕ) : Ordered needs known (l.take n) := by
  rw [← take_append_drop n l] at hl
  exact ((ordered_append_iff _ _).mp hl).1

theorem Ordered.tail {a : α} {rest : List α} (hl : Ordered needs known (a :: rest))
    (ha : ∀ b ∈ rest, needs b a → known a) : Ordered needs known rest := by
  refine hl.2.imp fun b hb c hc => ⟨hc, fun hknown => ?_⟩
  rcases hknown with hknown | rfl
  · exact hknown
  · exact ha b hb hc

section Keys

variable {key : α → ℕ}

theorem eq_of_key_eq {l : List α} (hl : l.Pairwise fun a b => key a < key b) {a b : α} (ha : a ∈ l) (hb : b ∈ l)
    (heq : key a = key b) : a = b := by
  induction l with
  | nil => cases ha
  | cons c rest ih =>
    obtain ⟨hc, hrest⟩ := pairwise_cons.mp hl
    rcases mem_cons.mp ha with hac | harest <;> rcases mem_cons.mp hb with hbc | hbrest
    · rw [hac, hbc]
    · have := hc b hbrest
      rw [hac] at heq
      omega
    · have := hc a harest
      rw [hbc] at heq
      omega
    · exact ih hrest harest hbrest

theorem filter_le_isPrefix {l : List α} (hl : l.Pairwise fun a b => key a < key b) (bound : ℕ) :
    l.filter (fun a => key a ≤ bound) <+: l := by
  induction l with
  | nil => exact nil_prefix
  | cons a rest ih =>
    obtain ⟨ha, hrest⟩ := pairwise_cons.mp hl
    by_cases hle : key a ≤ bound
    · rw [filter_cons_of_pos (p := fun b => decide (key b ≤ bound)) (decide_eq_true hle)]
      exact prefix_cons_inj a |>.mpr (ih hrest)
    · have hnone : rest.filter (fun a => key a ≤ bound) = [] := by
        refine filter_eq_nil_iff.mpr fun b hb hkey => ?_
        have := ha b hb
        have := of_decide_eq_true hkey
        omega
      rw [filter_cons_of_neg (p := fun b => decide (key b ≤ bound)) (by simpa using hle), hnone]
      exact nil_prefix

/-- Up to the key of an entry there is what lies up to a lower bound, and the entry, where none that counts lies
between. -/
theorem filter_le_key {l : List α} (hl : l.Pairwise fun a b => key a < key b) {a : α} (ha : a ∈ l) {bound : ℕ}
    (hbound : bound < key a) {counts : α → Bool}
    (hnone : ∀ b ∈ l, bound < key b → key b < key a → counts b = false) :
    (l.filter fun b => key b ≤ key a).filter counts =
      (l.filter fun b => key b ≤ bound).filter counts ++ [a].filter counts := by
  obtain ⟨front, back, rfl⟩ := append_of_mem ha
  obtain ⟨-, hback, hfront⟩ := pairwise_append.mp hl
  obtain ⟨habove, -⟩ := pairwise_cons.mp hback
  have hcut (n : ℕ) (hn : n ≤ key a) : back.filter (fun b => key b ≤ n) = [] := by
    refine filter_eq_nil_iff.mpr fun b hb hkey => ?_
    have := habove b hb
    have := of_decide_eq_true hkey
    omega
  have hsame : (front.filter fun b => key b ≤ key a).filter counts =
      (front.filter fun b => key b ≤ bound).filter counts := by
    rw [filter_filter, filter_filter]
    refine filter_congr fun b hb => ?_
    have hlt : key b < key a := hfront b hb a mem_cons_self
    by_cases hle : key b ≤ bound
    · rw [decide_eq_true (Nat.le_of_lt hlt), decide_eq_true hle]
    · rw [hnone b (mem_append_left _ hb) (by omega) hlt, Bool.false_and, Bool.false_and]
  have hlast : (a :: back).filter (fun b => key b ≤ key a) = [a] := by
    rw [filter_cons_of_pos (p := fun b => decide (key b ≤ key a)) (decide_eq_true (Nat.le_refl _)),
      hcut _ (Nat.le_refl _)]
  have hrest : (a :: back).filter (fun b => key b ≤ bound) = [] := by
    rw [filter_cons_of_neg (p := fun b => decide (key b ≤ bound)) (by simpa using hbound),
      hcut _ (Nat.le_of_lt hbound)]
  rw [filter_append, filter_append, filter_append, hlast, hrest, append_nil, hsame]

end Keys

end Causal
