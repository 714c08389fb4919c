import Onecli.Foundation.Runs
import Mathlib.Algebra.Order.Ring.Int

/-!
# What a budget has spent

`ee/src/budget/spend.rs` on one budget period. A spend is added to a counter in the cache and to a
durable row; the counter is read, and rebuilt from the row when it is missing. It goes missing at any
time. Spends are nano-dollars in an `i64`, which both stores refuse to exceed.
-/

namespace Onecli.Budget

/-- The largest `i64`. -/
def maxNanos : ℕ := 2 ^ 63 - 1

/-- The two stores of one period, and what the completed calls have added. -/
structure State where
  /-- The counter in the cache. -/
  counter : Option ℕ
  /-- `spent_nanos`; no row counts as zero. -/
  row : ℕ
  added : ℕ
  deriving DecidableEq

/-- The period begins. -/
def State.init : State := ⟨none, 0, 0⟩

/-- `read_spent_nanos`: the counter, or the row that it is set to when it is missing. -/
def readSpentNanos (s : State) : ℕ × State :=
  match s.counter with
  | some counter => (counter, s)
  | none => (s.row, { s with counter := some s.row })

/-- `is_over_budget`. -/
def isOverBudget (s : State) (limitNanos : ℤ) : Bool := limitNanos ≤ (readSpentNanos s).1

/-- `add_spend`: `incrby` creates a missing counter, and the row is upserted after it. The counter can
expire in between. -/
def addSpend (s : State) (nanos : ℤ) (expires : Bool) : Option State :=
  if nanos ≤ 0 then some s
  else
    let counter := s.counter.getD 0 + nanos.toNat
    let row := s.row + nanos.toNat
    if counter ≤ maxNanos ∧ row ≤ maxNanos then
      some ⟨if expires then none else some counter, row, s.added + nanos.toNat⟩
    else none

/-- A completed call, or the counter going missing. -/
inductive Event where
  | read
  | add (nanos : ℤ) (expires : Bool)
  | expire

/-- One step; a store that refuses is one that does not work. -/
def step (s : State) : Event → Option State
  | .read => some (readSpentNanos s).2
  | .add nanos expires => addSpend s nanos expires
  | .expire => some { s with counter := none }

/-- The next check is over every limit that the spends added so far have reached. -/
def Enforced (s : State) : Prop := ∀ limitNanos : ℤ, limitNanos ≤ s.added → isOverBudget s limitNanos = true

/-- A spend recreates a missing counter while the row already carries some. -/
def Forgets (s : State) : Event → Prop
  | .add nanos expires => 0 < nanos ∧ expires = false ∧ s.counter = none ∧ 0 < s.row
  | _ => False

section Steps

variable {s s' : State}

theorem enforced_iff : Enforced s ↔ s.added ≤ (readSpentNanos s).1 := by
  unfold Enforced isOverBudget
  simp only [decide_eq_true_eq]
  constructor
  · intro h
    exact_mod_cast h s.added (le_refl _)
  · intro h limitNanos hreached
    exact hreached.trans (by exact_mod_cast h)

theorem addSpend_eq_some {nanos : ℤ} {expires : Bool} (h : addSpend s nanos expires = some s')
    (hpositive : 0 < nanos) :
    s' = ⟨if expires then none else some (s.counter.getD 0 + nanos.toNat), s.row + nanos.toNat,
      s.added + nanos.toNat⟩ := by
  unfold addSpend at h
  rw [if_neg (not_le.mpr hpositive)] at h
  dsimp only at h
  split at h
  · exact (Option.some.inj h).symm
  · cases h

/-- The row carries every spend, and the counter is the row's when it is there. -/
structure Kept (s : State) : Prop where
  row : s.row = s.added
  counter : ∀ counter ∈ s.counter, counter = s.row

/-- Nothing is spent at first. -/
theorem kept_init : Kept .init := ⟨rfl, nofun⟩

/-- A kept counter enforces the limit. -/
theorem Kept.enforced (h : Kept s) : Enforced s := by
  rw [enforced_iff, ← h.row]
  unfold readSpentNanos
  cases hcounter : s.counter with
  | none => exact le_refl _
  | some counter => exact (h.counter counter hcounter).ge

/-- A step that forgets nothing keeps the counter. -/
theorem Kept.step {e : Event} (h : Kept s) (hremembers : ¬ Forgets s e) (hstep : step s e = some s') :
    Kept s' := by
  cases e with
  | read =>
    cases hstep
    unfold readSpentNanos
    cases hcounter : s.counter with
    | none => exact ⟨h.row, fun counter hread => (Option.some.inj hread).symm⟩
    | some => exact h
  | expire =>
    cases hstep
    exact ⟨h.row, nofun⟩
  | add nanos expires =>
    by_cases hpositive : 0 < nanos
    · obtain rfl := addSpend_eq_some hstep hpositive
      refine ⟨congrArg (· + nanos.toNat) h.row, fun counter hcounter => ?_⟩
      cases expires with
      | true => cases hcounter
      | false =>
        cases hcounter
        refine congrArg (· + nanos.toNat) ?_
        cases hbefore : s.counter with
        | some before => exact h.counter before hbefore
        | none =>
          -- a recreated counter starts at zero, which is the row's only while nothing is spent
          by_contra hspent
          exact hremembers ⟨hpositive, rfl, hbefore, Nat.pos_of_ne_zero (Ne.symm hspent)⟩
    · rw [Budget.step, addSpend, if_pos (not_lt.mp hpositive)] at hstep
      exact Option.some.inj hstep ▸ h

/-- A forgotten amount is not enforced. -/
theorem Kept.not_enforced {e : Event} (h : Kept s) (hforgets : Forgets s e)
    (hstep : Budget.step s e = some s') : ¬ Enforced s' := by
  cases e with
  | read | expire => exact hforgets.elim
  | add nanos =>
    obtain ⟨hpositive, rfl, hcounter, hspent⟩ := hforgets
    obtain rfl := addSpend_eq_some hstep hpositive
    rw [enforced_iff, hcounter]
    have hrow := h.row
    change ¬ s.added + nanos.toNat ≤ 0 + nanos.toNat
    omega

end Steps

/-- A run is enforced in every state that it passes through exactly when no spend of it recreates the
counter while the row carries some. -/
theorem run_enforced_iff {es : List Event} {t : State} (hrun : Runs.run step .init es = some t) :
    Runs.Throughout step Enforced .init es ↔ Runs.Meets step (fun s e => ¬ Forgets s e) .init es := by
  refine Runs.throughout_iff_meets step (fun _ => Kept.enforced) (fun _ _ _ => Kept.step) ?_ kept_init hrun
  intro s e s' hkept hforgets
  exact hkept.not_enforced (not_not.mp hforgets)

/-- A run that expires only before it is read. -/
theorem run_enforced_iff_rebuilt :
    Runs.Throughout step Enforced .init [.add 100 false, .expire, .read, .add 1 false] ↔
      Runs.Meets step (fun s e => ¬ Forgets s e) .init [.add 100 false, .expire, .read, .add 1 false] :=
  run_enforced_iff (t := ⟨some 101, 101, 101⟩) (by decide)

/-- Of a spend of 100 a flush and a spend of 1 leave 1 to be read. -/
theorem not_enforced_after_flush :
    ∃ s, Runs.run step .init [.add 100 false, .expire, .add 1 false] = some s ∧ ¬ Enforced s ∧
      s.added = 101 ∧ isOverBudget s 100 = false := by
  refine ⟨⟨some 1, 101, 101⟩, by decide, fun henforced => ?_, rfl, by decide⟩
  exact absurd (henforced 100 (by decide)) (by decide)

end Onecli.Budget
