import Onecli.Foundation.Runs
import Mathlib.Data.Nat.Notation

/-!
# Calls on a shared state

Any number of calls work on one shared state, statement by statement. A statement is atomic: it changes
the state and the point at which its call stands. A run picks a call and the choices of its next
statement, so that the calls interleave in every order. A call is known by its number and stands at
the same point until it goes on, whatever the others do.
-/

namespace Calls

open Function (update update_eq_self update_of_ne update_self)

variable {D P C : Type*}

/-- The shared state, and where each call stands. -/
structure World (D P : Type*) where
  db : D
  calls : ℕ → P

/-- What one statement does: with its choices, on the state, at its point. -/
abbrev Exec (D P C : Type*) := C → D → P → Option (D × P)

variable (exec : Exec D P C)

/-- One statement of one call. -/
def step (w : World D P) (e : ℕ × C) : Option (World D P) :=
  (exec e.2 w.db (w.calls e.1)).map fun next => ⟨next.1, update w.calls e.1 next.2⟩

/-- A step is a statement of one call. -/
theorem step_eq_some_iff (w w' : World D P) (e : ℕ × C) :
    step exec w e = some w' ↔
      ∃ db point, exec e.2 w.db (w.calls e.1) = some (db, point) ∧ w' = ⟨db, update w.calls e.1 point⟩ := by
  rw [step, Option.map_eq_some_iff]
  constructor
  · rintro ⟨⟨db, point⟩, hexec, rfl⟩
    exact ⟨db, point, hexec, rfl⟩
  · rintro ⟨db, point, hexec, rfl⟩
    exact ⟨(db, point), hexec, rfl⟩

/-- A step is a statement of its call, and leaves the others where they stand. -/
theorem exec_of_step {w w' : World D P} {e : ℕ × C} (h : step exec w e = some w') :
    exec e.2 w.db (w.calls e.1) = some (w'.db, w'.calls e.1) ∧ ∀ j ≠ e.1, w'.calls j = w.calls j := by
  obtain ⟨db, point, hexec, rfl⟩ := (step_eq_some_iff exec w w' e).mp h
  have hself : update w.calls e.1 point e.1 = point := update_self ..
  exact ⟨hexec.trans (congrArg (fun q => some (db, q)) hself.symm), fun j hj => update_of_ne hj _ _⟩

variable {w t : World D P} {es : List (ℕ × C)} {I : D → Prop} {K : D → P → Prop} {cond : World D P → ℕ × C → Prop}

/-- A call without a step stays where it stands. -/
theorem run_calls_eq (hrun : Runs.run (step exec) w es = some t) {j : ℕ} (hj : ∀ e ∈ es, e.1 ≠ j) :
    t.calls j = w.calls j := by
  induction es generalizing w with
  | nil => rw [Option.some.inj hrun]
  | cons e es ih =>
    obtain ⟨w', hstep, hrest⟩ := (Runs.run_cons_eq_some_iff (step exec) w t e es).mp hrun
    obtain ⟨db, point, -, rfl⟩ := (step_eq_some_iff exec w w' e).mp hstep
    rw [ih hrest fun f hf => hj f (List.mem_cons_of_mem e hf)]
    exact update_of_ne (Ne.symm (hj e List.mem_cons_self)) _ _

/-- No call stands at a point of a kind. -/
def Free (w : World D P) (kind : P → Bool) : Prop := ∀ j, kind (w.calls j) = false

/-- None of the first calls stands at a point of a kind. -/
def FreeBelow (n : ℕ) (w : World D P) (kind : P → Bool) : Prop := ∀ j < n, kind (w.calls j) = false

instance (n : ℕ) (w : World D P) (kind : P → Bool) : Decidable (FreeBelow n w kind) := by
  unfold FreeBelow
  infer_instance

/-- Where the calls of a run are below a number and the others are idle, a condition on all calls is one on those
below. -/
theorem meets_of_below {f : ((P → Bool) → Prop) → C → D → P → Prop} {i : P} {n : ℕ}
    (hmono : ∀ below free : (P → Bool) → Prop, (∀ kind, kind i = false → below kind → free kind) →
      ∀ c t p, f below c t p → f free c t p)
    (hlt : ∀ e ∈ es, e.1 < n) (hidle : ∀ j, n ≤ j → w.calls j = i)
    (hmeets : Runs.Meets (step exec) (fun w e => f (FreeBelow n w) e.2 w.db (w.calls e.1)) w es) :
    Runs.Meets (step exec) (fun w e => f (Free w) e.2 w.db (w.calls e.1)) w es := by
  induction es generalizing w with
  | nil => trivial
  | cons e es ih =>
    refine ⟨hmono _ _ (fun kind hkind hbelow j => ?_) _ _ _ hmeets.1, fun w' hstep => ?_⟩
    · by_cases hj : j < n
      · exact hbelow j hj
      · rw [hidle j (Nat.le_of_not_lt hj)]
        exact hkind
    · refine ih (fun e' he' => hlt e' (List.mem_cons_of_mem e he')) (fun j hj => ?_) (hmeets.2 w' hstep)
      rw [(exec_of_step exec hstep).2 j (Nat.ne_of_gt (Nat.lt_of_lt_of_le (hlt e List.mem_cons_self) hj))]
      exact hidle j hj

/-- What holds of the state, and what each call knows of it. -/
structure Holds (I : D → Prop) (K : D → P → Prop) (w : World D P) : Prop where
  db : I w.db
  calls : ∀ i, K w.db (w.calls i)

/-- Where every statement that meets a condition keeps what holds of the state, leaves its call with
what it knows there, and takes from no other call what that one knows, a run of such statements
keeps all of it. -/
theorem run_holds_of_meets
    (hexec : ∀ w e db point, cond w e → Holds I K w → exec e.2 w.db (w.calls e.1) = some (db, point) → I db ∧ K db point ∧ ∀ j ≠ e.1, K db (w.calls j))
    (hw : Holds I K w) (hmeets : Runs.Meets (step exec) cond w es) (hrun : Runs.run (step exec) w es = some t) :
    Holds I K t := by
  refine Runs.run_invariant_of_meets (step exec) ?_ hw hmeets hrun
  intro s e s' hs hcond hstep
  obtain ⟨db, point, hstatement, rfl⟩ := (step_eq_some_iff exec s s' e).mp hstep
  obtain ⟨hdb, hpoint, hothers⟩ := hexec s e db point hcond hs hstatement
  refine ⟨hdb, fun j => ?_⟩
  change K db (update s.calls e.1 point j)
  by_cases hj : j = e.1
  · rw [hj, update_self]
    exact hpoint
  · rw [update_of_ne hj]
    exact hothers j hj

/-- What holds of the state, what each call knows of it, and what tells two calls apart. -/
structure HoldsApart (I : D → Prop) (K : D → P → Prop) (A : P → P → Prop) (w : World D P) : Prop
    extends Holds I K w where
  apart : ∀ i j, i ≠ j → A (w.calls i) (w.calls j)

/-- A statement that keeps what holds of the state, leaves its call with what it knows there and apart from the
others, and takes from no other call what that one knows. -/
theorem HoldsApart.step {A : P → P → Prop} (hsymm : ∀ p q, A p q → A q p) {w w' : World D P} {e : ℕ × C}
    (hw : HoldsApart I K A w) (hstep : Calls.step exec w e = some w')
    (hexec : ∀ db point, exec e.2 w.db (w.calls e.1) = some (db, point) → I db ∧ K db point ∧ ∀ j ≠ e.1, K db (w.calls j) ∧ A point (w.calls j)) :
    HoldsApart I K A w' := by
  obtain ⟨db, point, hstatement, rfl⟩ := (step_eq_some_iff exec w w' e).mp hstep
  obtain ⟨hdb, hpoint, hothers⟩ := hexec db point hstatement
  have hat (j : ℕ) (hj : j ≠ e.1) : update w.calls e.1 point j = w.calls j := update_of_ne hj ..
  have hself : update w.calls e.1 point e.1 = point := update_self ..
  refine ⟨⟨hdb, fun j => ?_⟩, fun i j hij => ?_⟩
  · change K db (update w.calls e.1 point j)
    by_cases hj : j = e.1
    · rw [hj, hself]
      exact hpoint
    · rw [hat j hj]
      exact (hothers j hj).1
  · change A (update w.calls e.1 point i) (update w.calls e.1 point j)
    by_cases hi : i = e.1
    · have hj : j ≠ e.1 := fun h => hij (hi.trans h.symm)
      rw [hi, hself, hat j hj]
      exact (hothers j hj).2
    · rw [hat i hi]
      by_cases hj : j = e.1
      · rw [hj, hself]
        exact hsymm _ _ (hothers i hi).2
      · rw [hat j hj]
        exact hw.apart i j hij

/-- Statements that keep calls apart, along a run. -/
theorem run_holdsApart_of_meets {A : P → P → Prop} (hsymm : ∀ p q, A p q → A q p)
    (hexec : ∀ w e db point, cond w e → HoldsApart I K A w → exec e.2 w.db (w.calls e.1) = some (db, point) → I db ∧ K db point ∧ ∀ j ≠ e.1, K db (w.calls j) ∧ A point (w.calls j))
    (hw : HoldsApart I K A w) (hmeets : Runs.Meets (step exec) cond w es) (hrun : Runs.run (step exec) w es = some t) :
    HoldsApart I K A t :=
  Runs.run_invariant_of_meets (step exec)
    (fun s e _ hs hcond hstep => hs.step exec hsymm hstep fun db point => hexec s e db point hcond hs) hw hmeets hrun

/-- One call may be at work on the state, the others are idle; what holds depends on where it stands. -/
def Sole (idle : P) (K : D → P → Prop) (w : World D P) : Prop := ∃ i, (∀ j ≠ i, w.calls j = idle) ∧ K w.db (w.calls i)

/-- The rule for calls that take turns: a statement of an idle call that stays idle keeps what holds at
every point, and another is of the call at work, or starts while all are idle. -/
theorem run_sole_of_meets {idle : P}
    (hexec : ∀ w e db point, cond w e → exec e.2 w.db (w.calls e.1) = some (db, point) → (w.calls e.1 = idle ∧ point = idle ∧ ∀ q, K w.db q → K db q) ∨ ((w.calls e.1 = idle → ∀ j, w.calls j = idle) ∧ (K w.db (w.calls e.1) → K db point)))
    (hw : Sole idle K w) (hmeets : Runs.Meets (step exec) cond w es) (hrun : Runs.run (step exec) w es = some t) :
    Sole idle K t := by
  refine Runs.run_invariant_of_meets (step exec) ?_ hw hmeets hrun
  intro s e s' hs hcond hstep
  obtain ⟨db, point, hstatement, rfl⟩ := (step_eq_some_iff exec s s' e).mp hstep
  obtain ⟨i, hothers, hK⟩ := hs
  have hat (j : ℕ) (hj : j ≠ e.1) : update s.calls e.1 point j = s.calls j := update_of_ne hj ..
  have hself : update s.calls e.1 point e.1 = point := update_self ..
  rcases hexec s e db point hcond hstatement with ⟨hidle, hpoint, hkeeps⟩ | ⟨hstarts, hgoes⟩
  · -- the call at work stays where it is
    have hsame : update s.calls e.1 point = s.calls := by
      rw [hpoint, ← hidle, update_eq_self]
    refine ⟨i, ?_, ?_⟩
    · exact fun j hj => (congrFun hsame j).trans (hothers j hj)
    · rw [hsame]
      exact hkeeps _ hK
  · have hrest : ∀ j ≠ e.1, s.calls j = idle := by
      by_cases hi : e.1 = i
      · rw [hi]
        exact hothers
      · exact fun j _ => hstarts (hothers e.1 hi) j
    have hworks : K s.db (s.calls e.1) := by
      by_cases hi : e.1 = i
      · rw [hi]
        exact hK
      · rw [hothers e.1 hi, ← hstarts (hothers e.1 hi) i]
        exact hK
    refine ⟨e.1, fun j hj => (hat j hj).trans (hrest j hj), ?_⟩
    change K db (update s.calls e.1 point e.1)
    rw [hself]
    exact hgoes hworks

end Calls
