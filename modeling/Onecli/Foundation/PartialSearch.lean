import Mathlib.Data.List.Sort

/-!
# Searches whose test may abort

A test `p : A → Option Bool` answers `none` when its evaluation aborts. Searching a list
from the left stops at the first element that answers `true`; an abort met before that
aborts the whole search. The results below say exactly which elements have to answer what,
also after a stable sort, so a caller never unfolds the search itself.
-/

namespace PartialSearch

open List Option

variable {A B : Type}

/-- The search reaches `x` first: everything before it answers `false` and `x` answers `true`. -/
def FirstHit (p : A → Option Bool) (l : List A) (x : A) : Prop :=
  ∃ before after, l = before ++ x :: after ∧ (∀ y ∈ before, p y = some false) ∧ p x = some true

/-- Every element answers `false`, so the search runs to the end. -/
def NoHit (p : A → Option Bool) (l : List A) : Prop := ∀ x ∈ l, p x = some false

variable {p : A → Option Bool}

theorem FirstHit.mem {l : List A} {x : A} (h : FirstHit p l x) : x ∈ l := by
  obtain ⟨before, after, rfl, -, -⟩ := h
  simp

@[simp] theorem not_firstHit_nil (p : A → Option Bool) (x : A) : ¬ FirstHit p [] x := by
  rintro ⟨before, after, hl, -⟩
  simp at hl

theorem firstHit_cons (p : A → Option Bool) (a : A) (l : List A) (x : A) :
    FirstHit p (a :: l) x ↔ (p a = some true ∧ x = a) ∨ (p a = some false ∧ FirstHit p l x) := by
  constructor
  · rintro ⟨before, after, hl, hbefore, hx⟩
    cases before with
    | nil =>
      cases hl
      exact .inl ⟨hx, rfl⟩
    | cons b before =>
      cases hl
      exact .inr ⟨hbefore a mem_cons_self, before, after, rfl, fun y hy => hbefore y (mem_cons_of_mem _ hy), hx⟩
  · rintro (⟨ha, rfl⟩ | ⟨ha, before, after, rfl, hbefore, hx⟩)
    · exact ⟨[], l, rfl, by simp, ha⟩
    · refine ⟨a :: before, after, rfl, ?_, hx⟩
      intro y hy
      rcases mem_cons.mp hy with rfl | hy
      · exact ha
      · exact hbefore y hy

theorem firstHit_append (p : A → Option Bool) (l m : List A) (x : A) :
    FirstHit p (l ++ m) x ↔ FirstHit p l x ∨ (NoHit p l ∧ FirstHit p m x) := by
  induction l with
  | nil => simp [NoHit]
  | cons a l ih =>
    rw [cons_append, firstHit_cons, firstHit_cons]
    simp only [NoHit, forall_mem_cons]
    tauto

theorem firstHit_or_noHit {l : List A} (h : ∀ x ∈ l, p x ≠ none) : (∃ x, FirstHit p l x) ∨ NoHit p l := by
  induction l with
  | nil => exact .inr (by simp [NoHit])
  | cons a l ih =>
    have htail := ih fun x hx => h x (mem_cons_of_mem _ hx)
    match ha : p a with
    | none => exact absurd ha (h a mem_cons_self)
    | some true => exact .inl ⟨a, (firstHit_cons p a l a).mpr (.inl ⟨ha, rfl⟩)⟩
    | some false =>
      rcases htail with ⟨x, hx⟩ | hno
      · exact .inl ⟨x, (firstHit_cons p a l x).mpr (.inr ⟨ha, hx⟩)⟩
      · exact .inr (by simpa [NoHit, ha] using hno)

section Search

/-- `findM?` returns `x` exactly when the search reaches `x` first. -/
theorem findM?_eq_some_some_iff (p : A → Option Bool) (l : List A) (x : A) :
    l.findM? p = some (some x) ↔ FirstHit p l x := by
  induction l with
  | nil => simp [List.findM?]
  | cons a l ih =>
    rw [firstHit_cons, ← ih]
    match ha : p a with
    | none => simp [List.findM?, ha]
    | some true => simp [List.findM?, ha, eq_comm]
    | some false => simp [List.findM?, ha]

/-- `findM?` returns without a result exactly when every element answers `false`. -/
theorem findM?_eq_some_none_iff (p : A → Option Bool) (l : List A) :
    l.findM? p = some none ↔ NoHit p l := by
  induction l with
  | nil => simp [List.findM?, NoHit]
  | cons a l ih =>
    match ha : p a with
    | none => simp [List.findM?, NoHit, ha]
    | some true => simp [List.findM?, NoHit, ha]
    | some false => simpa [List.findM?, NoHit, ha] using ih

variable {l : List A}

/-- `findM?` depends only on the answers given by the elements of the list. -/
theorem findM?_congr {p q : A → Option Bool} (h : ∀ x ∈ l, p x = q x) : l.findM? p = l.findM? q := by
  induction l with
  | nil => rfl
  | cons a l ih =>
    rw [List.findM?, List.findM?, h a mem_cons_self, ih fun x hx => h x (mem_cons_of_mem _ hx)]

/-- `anyM` answers `false` exactly when every element answers `false`. -/
theorem anyM_eq_false_iff (p : A → Option Bool) (l : List A) :
    l.anyM p = some false ↔ NoHit p l := by
  induction l with
  | nil => simp [List.anyM, NoHit]
  | cons a l ih =>
    match ha : p a with
    | none => simp [List.anyM, NoHit, ha]
    | some true => simp [List.anyM, NoHit, ha]
    | some false => simpa [List.anyM, NoHit, ha] using ih

/-- `anyM` depends only on the answers given by the elements of the list. -/
theorem anyM_congr {p q : A → Option Bool} (h : ∀ x ∈ l, p x = q x) : l.anyM p = l.anyM q := by
  induction l with
  | nil => rfl
  | cons a l ih =>
    rw [List.anyM, List.anyM, h a mem_cons_self, ih fun x hx => h x (mem_cons_of_mem _ hx)]

theorem any_congr {p q : A → Bool} (h : ∀ x ∈ l, p x = q x) : l.any p = l.any q := by
  induction l with
  | nil => rfl
  | cons a l ih => rw [any_cons, any_cons, h a mem_cons_self, ih fun x hx => h x (mem_cons_of_mem _ hx)]

theorem find?_ne_of_shadowed {p : A → Bool} {before after : List A} {a : A} (hnot : a ∉ before)
    (h : p a = true → ∃ b ∈ before, p b = true) : (before ++ a :: after).find? p ≠ some a := by
  intro hfind
  obtain ⟨b, hb, hanswer⟩ := h (List.find?_some hfind)
  have hfirst : (before.find? p).isSome := List.find?_isSome.mpr ⟨b, hb, hanswer⟩
  rw [List.find?_append, or_of_isSome hfirst] at hfind
  exact hnot (List.mem_of_find?_eq_some hfind)

theorem find?_of_shadowed {p : A → Bool} {before after : List A} {a : A}
    (h : p a = true → ∃ b ∈ before, p b = true) :
    (before ++ a :: after).find? p = (before ++ after).find? p := by
  rw [List.find?_append, List.find?_append, List.find?_cons]
  cases ha : p a with
  | false => rfl
  | true =>
    obtain ⟨b, hb, hanswer⟩ := h ha
    have hfirst : (before.find? p).isSome := List.find?_isSome.mpr ⟨b, hb, hanswer⟩
    rw [or_of_isSome hfirst, or_of_isSome hfirst]

end Search

section Sorting

variable (r : A → A → Prop)

/-- `x` is the hit that comes first in the order `r`, elements equal in `r` keeping their
place in the list: everything that comes before `x` so ordered answers `false`. -/
def LeastHit (p : A → Option Bool) (l : List A) (x : A) : Prop :=
  ∃ before after, l = before ++ x :: after ∧ p x = some true ∧
    (∀ y ∈ before, r y x → p y = some false) ∧ ∀ y ∈ after, ¬ r x y → p y = some false

theorem leastHit_cons (p : A → Option Bool) (a : A) (l : List A) (x : A) :
    LeastHit r p (a :: l) x ↔
      (x = a ∧ p a = some true ∧ ∀ y ∈ l, ¬ r a y → p y = some false) ∨
        (LeastHit r p l x ∧ (r a x → p a = some false)) := by
  constructor
  · rintro ⟨before, after, hl, hx, hbefore, hafter⟩
    cases before with
    | nil =>
      cases hl
      exact .inl ⟨rfl, hx, hafter⟩
    | cons b before =>
      cases hl
      exact .inr ⟨⟨before, after, rfl, hx, fun y hy => hbefore y (mem_cons_of_mem _ hy),
        hafter⟩, hbefore a mem_cons_self⟩
  · rintro (⟨rfl, hx, hafter⟩ | ⟨⟨before, after, rfl, hx, hbefore, hafter⟩, ha⟩)
    · exact ⟨[], l, rfl, hx, by simp, hafter⟩
    · refine ⟨a :: before, after, rfl, hx, ?_, hafter⟩
      intro y hy hr
      rcases mem_cons.mp hy with rfl | hy
      · exact ha hr
      · exact hbefore y hy hr

/-- In a sorted list, exactly the elements not above `a` come before the place of `a`. -/
theorem mem_takeWhile_of_sorted [DecidableRel r] [IsTrans A r] {a : A} {s : List A} (hs : s.Pairwise r) (y : A) :
    y ∈ s.takeWhile (fun b => ¬ r a b) ↔ y ∈ s ∧ ¬ r a y := by
  induction s with
  | nil => simp
  | cons b s ih =>
    have hb := pairwise_cons.mp hs
    by_cases hab : r a b
    · simp only [hab, not_true_eq_false, decide_false, Bool.false_eq_true, not_false_eq_true,
        takeWhile_cons_of_neg, not_mem_nil, mem_cons, false_iff, not_and, not_not]
      rintro (rfl | hy)
      · exact hab
      · exact IsTrans.trans _ _ _ hab (hb.1 y hy)
    · simp only [hab, not_false_eq_true, decide_true, takeWhile_cons_of_pos, mem_cons, ih hb.2]
      constructor
      · rintro (rfl | h)
        · exact ⟨.inl rfl, hab⟩
        · exact ⟨.inr h.1, h.2⟩
      · rintro ⟨rfl | hy, h⟩
        · exact .inl rfl
        · exact .inr ⟨hy, h⟩

/-- In a sorted list, the elements above `a` come from its place on. -/
theorem rel_of_mem_dropWhile [DecidableRel r] [IsTrans A r] {a : A} {s : List A}
    (hs : s.Pairwise r) {y : A} (hy : y ∈ s.dropWhile (fun b => ¬ r a b)) : r a y := by
  induction s with
  | nil => simp at hy
  | cons b s ih =>
    have hb := pairwise_cons.mp hs
    by_cases hab : r a b
    · rw [dropWhile_cons_of_neg (by simpa using hab)] at hy
      rcases mem_cons.mp hy with rfl | hy
      · exact hab
      · exact IsTrans.trans _ _ _ hab (hb.1 y hy)
    · rw [dropWhile_cons_of_pos (by simpa using hab)] at hy
      exact ih hb.2 hy

theorem firstHit_insertionSort [DecidableRel r] [Std.Total r] [IsTrans A r]
    (p : A → Option Bool) (l : List A) (x : A) :
    FirstHit p (l.insertionSort r) x ↔ LeastHit r p l x := by
  induction l with
  | nil => simp [LeastHit]
  | cons a l ih =>
    have hsorted := pairwise_insertionSort r l
    have hlow (y : A) : y ∈ (l.insertionSort r).takeWhile (fun b => ¬ r a b) ↔ y ∈ l ∧ ¬ r a y := by
      rw [mem_takeWhile_of_sorted r hsorted, mem_insertionSort]
    have hnone : NoHit p ((l.insertionSort r).takeWhile fun b => ¬ r a b) ↔ ∀ y ∈ l, ¬ r a y → p y = some false := by
      simp only [NoHit, hlow, and_imp]
    have hsplit := firstHit_append p ((l.insertionSort r).takeWhile fun b => ¬ r a b)
      ((l.insertionSort r).dropWhile fun b => ¬ r a b) x
    rw [takeWhile_append_dropWhile, ih] at hsplit
    rw [leastHit_cons, insertionSort_cons_eq_take_drop, firstHit_append, firstHit_cons, hnone]
    constructor
    · rintro (hlowHit | ⟨hbelow, ⟨ha, rfl⟩ | ⟨ha, hhigh⟩⟩)
      · exact .inr ⟨hsplit.mpr (.inl hlowHit), fun hax => absurd hax ((hlow x).mp hlowHit.mem).2⟩
      · exact .inl ⟨rfl, ha, hbelow⟩
      · exact .inr ⟨hsplit.mpr (.inr ⟨hnone.mpr hbelow, hhigh⟩), fun _ => ha⟩
    · rintro (⟨rfl, ha, hbelow⟩ | ⟨hleast, ha⟩)
      · exact .inr ⟨hbelow, .inl ⟨ha, rfl⟩⟩
      · rcases hsplit.mp hleast with hlowHit | ⟨hbelow, hhigh⟩
        · exact .inl hlowHit
        · exact .inr ⟨hnone.mp hbelow, .inr ⟨ha (rel_of_mem_dropWhile r hsorted hhigh.mem), hhigh⟩⟩

theorem noHit_insertionSort [DecidableRel r] (p : A → Option Bool) (l : List A) :
    NoHit p (l.insertionSort r) ↔ NoHit p l := by
  simp only [NoHit, mem_insertionSort]

end Sorting

end PartialSearch
