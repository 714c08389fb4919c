import Mathlib.Data.List.Count
import Mathlib.Data.List.Sublists

/-!
# Common subsequences by a table and a walk

The longest common subsequence of two lists by its table of lengths, and the walk through the
table that says which elements of either list are kept. Whatever the table holds, the kept
elements of the two lists are the same.
-/

namespace CommonSubsequence

open List

variable {A : Type*}

/-- The elements whose flag is `keep`. -/
def flagged (keep : Bool) : List Bool → List A → List A
  | flag :: flags, x :: xs => if flag = keep then x :: flagged keep flags xs else flagged keep flags xs
  | _, _ => []

/-- Flagged entries keep their order. -/
theorem flagged_sublist (keep : Bool) (flags : List Bool) (xs : List A) :
    (flagged keep flags xs).Sublist xs := by
  induction flags generalizing xs with
  | nil => exact nil_sublist xs
  | cons flag flags ih =>
    cases xs with
    | nil => exact nil_sublist []
    | cons x xs =>
      rw [flagged]
      split
      · exact (ih xs).cons_cons x
      · exact (ih xs).cons x

theorem flagged_replicate (keep : Bool) (xs : List A) :
    flagged keep (replicate xs.length (!keep)) xs = [] := by
  induction xs with
  | nil => rfl
  | cons x xs ih => rw [length_cons, replicate_succ, flagged, if_neg (by simp), ih]

variable {flags : List Bool}

theorem count_flagged [BEq A] {xs : List A} (hlen : flags.length = xs.length) (x : A) :
    (flagged true flags xs).count x + (flagged false flags xs).count x = xs.count x := by
  induction flags generalizing xs with
  | nil =>
    rw [length_eq_zero_iff.mp hlen.symm]
    rfl
  | cons flag flags ih =>
    obtain _ | ⟨y, xs⟩ := xs
    · cases hlen
    · have hrest := ih (Nat.succ.inj hlen)
      cases flag <;> simp only [flagged, Bool.true_eq_false, Bool.false_eq_true, if_true, if_false,
        count_cons] <;> omega

/-! ## Where a flagged element goes -/

/-- How many of the first flags are set: the place of the next flagged element. -/
def rank (flags : List Bool) (j : ℕ) : ℕ := (flags.take j).count true

/-- A flagged entry counts. -/
theorem rank_succ {j : ℕ} (h : flags[j]? = some true) : rank flags (j + 1) = rank flags j + 1 := by
  rw [rank, take_add_one, h]
  simp [rank]

theorem rank_mono (flags : List Bool) {i j : ℕ} (h : i ≤ j) : rank flags i ≤ rank flags j :=
  (take_sublist_take_left h).count_le true

theorem rank_lt {i j : ℕ} (hi : flags[i]? = some true) (h : i < j) : rank flags i < rank flags j := by
  have hle := rank_mono flags (Nat.succ_le_of_lt h)
  rw [rank_succ hi] at hle
  omega

theorem rank_of_all {j : ℕ} (h : ∀ i < j, flags[i]? = some true) : rank flags j = j := by
  induction j with
  | zero => rfl
  | succ j ih => rw [rank_succ (h j (Nat.lt_succ_self j)), ih fun i hi => h i (Nat.lt_succ_of_lt hi)]

theorem getElem?_flagged {xs : List A} {j : ℕ} (h : flags[j]? = some true) :
    (flagged true flags xs)[rank flags j]? = xs[j]? := by
  induction flags generalizing xs j with
  | nil => cases h
  | cons flag flags ih =>
    cases xs with
    | nil => cases flag <;> simp [flagged]
    | cons x xs =>
      cases j with
      | zero =>
        obtain rfl : flag = true := Option.some.inj h
        rfl
      | succ j =>
        have hrest : (flagged true flags xs)[rank flags j]? = xs[j]? := ih h
        cases flag with
        | true | false => simpa [flagged, rank] using hrest

/-! ## The table and the walk -/

variable [DecidableEq A]

/-- One row of the table from the row below it. -/
def tableRow (x : A) : List ℕ → List A → List ℕ
  | _, [] => [0]
  | below, y :: ys =>
    let row := tableRow x below.tail ys
    (if x = y then below.tail.headD 0 + 1 else max (below.headD 0) (row.headD 0)) :: row

/-- The table of lengths: its entry at `i`, `j` is of the lists from these places on. -/
def table (xs ys : List A) : List (List ℕ) :=
  xs.foldr (fun x rows => tableRow x (rows.headD []) ys :: rows) [replicate (ys.length + 1) 0]

/-- An entry of the table. -/
def entry (lengths : List (List ℕ)) (i j : ℕ) : ℕ := (lengths.getD i []).getD j 0

/-- The walk from a place on: which elements of the two lists are kept. -/
def walk (lengths : List (List ℕ)) : ℕ → ℕ → List A → List A → List Bool × List Bool
  | i, j, x :: xs, y :: ys =>
    if x = y then
      let kept := walk lengths (i + 1) (j + 1) xs ys
      (true :: kept.1, true :: kept.2)
    else if entry lengths (i + 1) j ≤ entry lengths i (j + 1) then
      let kept := walk lengths i (j + 1) (x :: xs) ys
      (kept.1, false :: kept.2)
    else
      let kept := walk lengths (i + 1) j xs (y :: ys)
      (false :: kept.1, kept.2)
  | _, _, xs, ys => (replicate xs.length false, replicate ys.length false)
termination_by _ _ xs ys => xs.length + ys.length

section

variable (lengths : List (List ℕ))
include lengths

theorem length_walk (i j : ℕ) (xs ys : List A) : (walk lengths i j xs ys).1.length = xs.length ∧
    (walk lengths i j xs ys).2.length = ys.length := by
  fun_induction walk lengths i j xs ys with
  | case1 i j xs y ys kept ih => exact ⟨congrArg (· + 1) ih.1, congrArg (· + 1) ih.2⟩
  | case2 i j x xs y ys hne hle kept ih => exact ⟨ih.1, congrArg (· + 1) ih.2⟩
  | case3 i j x xs y ys hne hlt kept ih => exact ⟨congrArg (· + 1) ih.1, ih.2⟩
  | case4 i j xs ys hempty => exact ⟨length_replicate, length_replicate⟩

theorem flagged_walk (i j : ℕ) (xs ys : List A) : flagged true (walk lengths i j xs ys).1 xs = flagged true
    (walk lengths i j xs ys).2 ys := by
  fun_induction walk lengths i j xs ys with
  | case1 i j xs y ys kept ih => exact congrArg (y :: ·) ih
  | case2 _ _ _ _ _ _ _ _ _ ih | case3 _ _ _ _ _ _ _ _ _ ih => exact ih
  | case4 i j xs ys hempty => exact (flagged_replicate true xs).trans (flagged_replicate true ys).symm

theorem kept_sublist (i j : ℕ) (xs ys : List A) : (flagged true (walk lengths i j xs ys).2 ys).Sublist xs :=
  flagged_walk lengths i j xs ys ▸ flagged_sublist true _ xs

theorem walk_self (i j : ℕ) (xs : List A) : walk lengths i j xs xs =
    (replicate xs.length true, replicate xs.length true) := by
  induction xs generalizing i j with
  | nil => rw [walk]; rfl; simp
  | cons x xs ih => rw [walk, if_pos rfl, ih]; rfl

end

end CommonSubsequence
