import Mathlib.Data.Nat.Basic
import Mathlib.Logic.Function.Basic

/-!
# Caches whose entries expire

An entry is kept at least as long as it was asked to be, and may be dropped at any time after.
A counter is created by its first increment, which alone sets how long it is kept. The number
of increments that a counter has answered is then bounded by its value, up to the time that
every increment before it asked for.
-/

namespace TtlCache

variable {K V : Type} [DecidableEq K]

/-- A value, and the time until which it is kept. -/
structure Entry (V : Type) where
  value : V
  keptUntil : ℕ

/-- What is stored under each key. -/
abbrev Cache (K V : Type) := K → Option (Entry V)

/-- A value set for some time. -/
def put (c : Cache K V) (now ttl : ℕ) (key : K) (value : V) : Cache K V :=
  Function.update c key (some ⟨value, now + ttl⟩)

/-- An entry is dropped, where it need not be kept any longer. -/
def evict (c : Cache K V) (now : ℕ) (key : K) : Option (Cache K V) :=
  match c key with
  | some entry => if entry.keptUntil ≤ now then some (Function.update c key none) else none
  | none => none

/-- The counter after one increment. -/
def increment (now ttl : ℕ) : Option (Entry ℕ) → Entry ℕ
  | some entry => { entry with value := entry.value + 1 }
  | none => ⟨1, now + ttl⟩

/-- A counter is incremented; a missing one is created. -/
def incr (c : Cache K ℕ) (now ttl : ℕ) (key : K) : Cache K ℕ :=
  Function.update c key (some (increment now ttl (c key)))

/-- Up to the deadline, the counter under a key has counted `n` increments. -/
def Counted (c : Cache K ℕ) (now deadline : ℕ) (key : K) (n : ℕ) : Prop :=
  now < deadline → match c key with
    | some entry => n ≤ entry.value ∧ deadline ≤ entry.keptUntil
    | none => n = 0

variable {c c' : Cache K ℕ} {now deadline n : ℕ} {key : K}

omit [DecidableEq K] in
theorem Counted.later (h : Counted c now deadline key n) {later : ℕ} (hle : now ≤ later) :
    Counted c later deadline key n := fun hlt => h (Nat.lt_of_le_of_lt hle hlt)

theorem Counted.evict (h : Counted c now deadline key n) {dropped : K}
    (hevict : evict c now dropped = some c') : Counted c' now deadline key n := by
  unfold TtlCache.evict at hevict
  cases hentry : c dropped with
  | none => simp [hentry] at hevict
  | some =>
    simp only [hentry] at hevict
    split_ifs at hevict with hkept
    cases hevict
    intro hlt
    have hcount := h hlt
    by_cases hkey : key = dropped
    · subst hkey
      rw [hentry] at hcount
      omega
    · rw [Function.update_of_ne hkey]
      exact hcount

theorem Counted.incr {ttl m : ℕ} (h : Counted c now deadline key n) (hkept : deadline ≤ now + ttl)
    (hle : m ≤ n + 1) : Counted (incr c now ttl key) now deadline key m := by
  intro hlt
  have hcount := h hlt
  unfold TtlCache.incr
  rw [Function.update_self]
  cases hentry : c key with
  | none =>
    rw [hentry] at hcount
    subst hcount
    exact ⟨hle, hkept⟩
  | some =>
    rw [hentry] at hcount
    exact ⟨Nat.le_trans hle (Nat.succ_le_succ hcount.1), hcount.2⟩

omit [DecidableEq K] in
theorem Counted.lt_increment {ttl : ℕ} (h : Counted c now deadline key n) (hlt : now < deadline) :
    n < (increment now ttl (c key)).value := by
  have hcount := h hlt
  cases hentry : c key with
  | none =>
    rw [hentry] at hcount
    subst hcount
    exact Nat.one_pos
  | some =>
    rw [hentry] at hcount
    exact Nat.lt_succ_of_le hcount.1

theorem Counted.incr_of_ne {ttl : ℕ} {other : K} (h : Counted c now deadline key n) (hne : key ≠ other) :
    Counted (TtlCache.incr c now ttl other) now deadline key n := by
  intro hlt
  have hcount := h hlt
  unfold TtlCache.incr
  rw [Function.update_of_ne hne]
  exact hcount

end TtlCache
