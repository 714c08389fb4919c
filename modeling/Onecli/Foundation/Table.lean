import Mathlib.Data.List.Nodup
import Onecli.Foundation.Updates
import Mathlib.Algebra.BigOperators.Group.List.Basic
import Mathlib.Algebra.GroupWithZero.Nat

/-!
# Finite maps

A hash map as the list of its entries, with distinct keys. Two maps are the same when they
look up the same; the order of the entries is only the order in which they are walked. The
weight of a map is what its entries cost together.
-/

/-- A finite map. -/
structure Table (K V : Type) where
  entries : List (K × V)
  distinct : (entries.map Prod.fst).Nodup

namespace Table

open Function (update update_apply update_of_ne update_self)
open List

variable {K V : Type} [DecidableEq K]

/-- The map without entries. -/
def empty : Table K V := ⟨[], List.nodup_nil⟩

/-- The value at a key. -/
def lookup (t : Table K V) (k : K) : Option V := t.entries.lookup k

/-- The map without a key. -/
def erase (t : Table K V) (k : K) : Table K V where
  entries := t.entries.filter fun entry => entry.1 ≠ k
  distinct := t.distinct.sublist (List.Sublist.map _ List.filter_sublist)

theorem not_mem_keys_filter (entries : List (K × V)) (k : K) :
    k ∉ (entries.filter fun entry => entry.1 ≠ k).map Prod.fst := by
  simp

/-- The map with a key set to a value. -/
def insert (t : Table K V) (k : K) (v : V) : Table K V where
  entries := (k, v) :: (t.erase k).entries
  distinct := List.nodup_cons.mpr ⟨not_mem_keys_filter t.entries k, (t.erase k).distinct⟩

/-- What the entries cost together. -/
def weight (cost : K → V → ℕ) (t : Table K V) : ℕ := (t.entries.map fun entry => cost entry.1 entry.2).sum

theorem entries_lookup_cons (x y : K) (v : V) (entries : List (K × V)) :
    ((y, v) :: entries).lookup x = if x = y then some v else entries.lookup x := by
  by_cases hx : x = y
  · rw [if_pos hx, hx, lookup_cons_self]
  · have hkey : (x == y) = false := beq_false_of_ne hx
    rw [if_neg hx, lookup_cons, hkey]

theorem lookup_erase (t : Table K V) (k : K) : (t.erase k).lookup = update t.lookup k none := by
  funext x
  have hfilter (entries : List (K × V)) : (entries.filter fun entry => entry.1 ≠ k).lookup x =
      if x = k then none else entries.lookup x := by
    induction entries with
    | nil => simp
    | cons entry entries ih =>
      obtain ⟨y, v⟩ := entry
      by_cases hy : y = k
      · rw [filter_cons_of_neg (by simp [hy]), ih, entries_lookup_cons, hy]
        split_ifs <;> rfl
      · rw [filter_cons_of_pos (by simp [hy]), entries_lookup_cons, entries_lookup_cons, ih]
        by_cases hx : x = y
        · rw [if_pos hx, if_pos hx, if_neg (hx ▸ hy)]
        · rw [if_neg hx, if_neg hx]
  rw [update_apply]
  exact hfilter t.entries

/-- An insert changes one entry. -/
theorem lookup_insert (t : Table K V) (k : K) (v : V) :
    (t.insert k v).lookup = update t.lookup k (some v) := by
  funext x
  change ((k, v) :: (t.erase k).entries).lookup x = _
  rw [entries_lookup_cons, update_apply]
  by_cases hx : x = k
  · rw [if_pos hx, if_pos hx]
  · rw [if_neg hx, if_neg hx]
    change (t.erase k).lookup x = t.lookup x
    rw [lookup_erase, update_of_ne hx]

theorem weight_erase (cost : K → V → ℕ) (t : Table K V) (k : K) :
    t.weight cost = (t.erase k).weight cost + ((t.lookup k).map (cost k)).getD 0 := by
  have hfilter (entries : List (K × V)) (hdistinct : (entries.map Prod.fst).Nodup) :
      (entries.map fun entry => cost entry.1 entry.2).sum =
        ((entries.filter fun entry => entry.1 ≠ k).map fun entry => cost entry.1 entry.2).sum +
          ((entries.lookup k).map (cost k)).getD 0 := by
    induction entries with
    | nil => rfl
    | cons entry entries ih =>
      obtain ⟨y, v⟩ := entry
      obtain ⟨hnew, hrest⟩ := nodup_cons.mp hdistinct
      rw [entries_lookup_cons, map_cons, sum_cons]
      by_cases hy : y = k
      · have habsent : ∀ entry ∈ entries, decide (entry.1 ≠ k) = true := by
          intro entry hentry
          refine decide_eq_true fun hsame => hnew ?_
          rw [hy, ← hsame]
          exact mem_map.mpr ⟨entry, hentry, rfl⟩
        rw [filter_cons_of_neg (by simp [hy]), filter_eq_self.mpr habsent, if_pos hy.symm,
          Option.map_some, Option.getD_some, hy, Nat.add_comm]
      · rw [filter_cons_of_pos (by simp [hy]), map_cons, sum_cons, ih hrest, if_neg (Ne.symm hy), Nat.add_assoc]
  exact hfilter t.entries t.distinct

theorem weight_insert (cost : K → V → ℕ) (t : Table K V) (k : K) (v : V) :
    (t.insert k v).weight cost = cost k v + (t.erase k).weight cost := rfl

theorem foldl_update_entries (value : K → Option V → V → V) (t : Table K V) (m : K → Option V) :
    t.entries.foldl
        (fun (m : K → Option V) entry =>
          update m entry.1 (some (value entry.1 (m entry.1) entry.2))) m =
      fun k => match t.lookup k with
        | none => m k
        | some v => some (value k (m k) v) := by
  obtain ⟨entries, hdistinct⟩ := t
  unfold lookup
  induction entries generalizing m with
  | nil => rfl
  | cons entry entries ih =>
    obtain ⟨x, v⟩ := entry
    obtain ⟨hnew, hrest⟩ := nodup_cons.mp hdistinct
    have habsent : entries.lookup x = none := by
      refine lookup_eq_none_iff.mpr fun entry hentry => ?_
      refine bne_iff_ne.mpr fun hsame => hnew ?_
      exact mem_map.mpr ⟨entry, hentry, hsame.symm⟩
    rw [foldl_cons, ih _ hrest]
    funext k
    rw [entries_lookup_cons]
    by_cases hk : k = x
    · rw [if_pos hk, hk, habsent]
      exact update_self _ _ _
    · rw [if_neg hk, update_of_ne hk]

end Table
