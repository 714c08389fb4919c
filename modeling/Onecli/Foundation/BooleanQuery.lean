import Mathlib.Algebra.Ring.Int.Defs

/-!
# Boolean queries over tokens

A query language whose tokens are brackets, the operators `not`, `and` and `or`, and operands. A term is any run of
tokens without brackets and binary operators. `not` takes the next factor, while `and` and `or` stand between any two
formulas: a list of tokens has every reading that some precedence of the two gives it. What is proved of all readings
does not depend on how a server groups them.
-/

namespace BooleanQuery

open List

/-- What a token stands for. -/
inductive Mark where
  | opening
  | closing
  | negation
  | conjunction
  | disjunction
  | operand
  deriving DecidableEq

/-- How a token changes the depth of brackets. -/
def Mark.nesting : Mark → ℤ
  | .opening => 1
  | .closing => -1
  | _ => 0

/-- A boolean formula over terms. -/
inductive Formula (T : Type) where
  | term (t : T)
  | not (f : Formula T)
  | and (f g : Formula T)
  | or (f g : Formula T)

/-- Whether a formula holds where the terms hold that `valuation` says. -/
def Formula.holds {T : Type} (valuation : T → Prop) : Formula T → Prop
  | .term t => valuation t
  | .not f => ¬ f.holds valuation
  | .and f g => f.holds valuation ∧ g.holds valuation
  | .or f g => f.holds valuation ∨ g.holds valuation

/-- A factor is what `not` takes; formulas join factors. -/
inductive Level where
  | factor
  | formula

section Readings

variable {T : Type} (mark : T → Mark)

/-- The formula is a reading of the tokens. -/
inductive Reads : Level → List T → Formula (List T) → Prop
  | term (ts : List T) (hne : ts ≠ []) (h : ∀ t ∈ ts, mark t = .operand ∨ mark t = .negation) :
      Reads .factor ts (.term ts)
  | group (o c : T) (ts : List T) (f : Formula (List T)) (ho : mark o = .opening) (hc : mark c = .closing)
      (h : Reads .formula ts f) : Reads .factor (o :: ts ++ [c]) f
  | negation (n : T) (ts : List T) (f : Formula (List T)) (hn : mark n = .negation) (h : Reads .factor ts f) :
      Reads .factor (n :: ts) (.not f)
  | factor (ts : List T) (f : Formula (List T)) (h : Reads .factor ts f) : Reads .formula ts f
  | conjunction (k : T) (l r : List T) (f g : Formula (List T)) (hk : mark k = .conjunction)
      (hl : Reads .formula l f) (hr : Reads .formula r g) : Reads .formula (l ++ k :: r) (.and f g)
  | disjunction (k : T) (l r : List T) (f g : Formula (List T)) (hk : mark k = .disjunction)
      (hl : Reads .formula l f) (hr : Reads .formula r g) : Reads .formula (l ++ k :: r) (.or f g)

/-- The depth of brackets after the tokens. -/
def nesting (ts : List T) : ℤ := (ts.map fun t => (mark t).nesting).sum

/-- From depth `depth` on no binary operator stands outside brackets. -/
def Inside : ℤ → List T → Prop
  | _, [] => True
  | depth, t :: rest =>
    (depth = 0 → mark t ≠ .conjunction ∧ mark t ≠ .disjunction) ∧ Inside (depth + (mark t).nesting) rest

end Readings

section Properties

variable {T : Type} {mark : T → Mark}

@[simp] theorem nesting_nil : nesting mark [] = 0 := rfl

@[simp] theorem nesting_cons (t : T) (ts : List T) : nesting mark (t :: ts) = (mark t).nesting + nesting mark ts := rfl

@[simp] theorem nesting_append (l r : List T) : nesting mark (l ++ r) = nesting mark l + nesting mark r := by
  induction l with
  | nil => rw [nil_append, nesting_nil, zero_add]
  | cons t l ih => rw [cons_append, nesting_cons, nesting_cons, ih, add_assoc]

variable {ts : List T} {f : Formula (List T)}

theorem nesting_term (h : ∀ t ∈ ts, mark t = .operand ∨ mark t = .negation) : nesting mark ts = 0 := by
  induction ts with
  | nil => rfl
  | cons t ts ih =>
    obtain ⟨ht, hts⟩ := forall_mem_cons.mp h
    rw [nesting_cons, ih hts]
    cases ht with
    | inl ht | inr ht => rw [ht]; rfl

/-- What is read is balanced. -/
theorem Reads.nesting {level : Level} (h : Reads mark level ts f) : nesting mark ts = 0 := by
  induction h with
  | term ts _ h => exact nesting_term h
  | group o c ts f ho hc _ ih =>
    rw [cons_append, nesting_cons, nesting_append, nesting_cons, nesting_nil, ih, ho, hc]
    rfl
  | negation n ts f hn _ ih => rw [nesting_cons, ih, hn]; rfl
  | factor ts f _ ih => exact ih
  | conjunction k l r f g hk _ _ ihl ihr | disjunction k l r f g hk _ _ ihl ihr => rw [nesting_append, nesting_cons, ihl, ihr, hk]; rfl

theorem Inside.append {l r : List T} {depth : ℤ} (hl : Inside mark depth l)
    (hr : Inside mark (depth + BooleanQuery.nesting mark l) r) : Inside mark depth (l ++ r) := by
  induction l generalizing depth with
  | nil => rwa [nesting_nil, add_zero] at hr
  | cons t l ih =>
    refine ⟨hl.1, ih hl.2 ?_⟩
    rwa [nesting_cons, ← add_assoc] at hr

theorem Inside.cons {t : T} {depth : ℤ} (hdepth : 0 < depth) (h : Inside mark (depth + (mark t).nesting) ts) :
    Inside mark depth (t :: ts) :=
  ⟨fun hzero => absurd hzero (Int.ne_of_gt hdepth), h⟩

theorem inside_term (h : ∀ t ∈ ts, mark t = .operand ∨ mark t = .negation) (depth : ℤ) : Inside mark depth ts := by
  induction ts generalizing depth with
  | nil => trivial
  | cons t ts ih =>
    obtain ⟨ht, hts⟩ := forall_mem_cons.mp h
    refine ⟨fun _ => ?_, ih hts _⟩
    cases ht with
    | inl ht | inr ht => rw [ht]; exact ⟨by decide, by decide⟩

theorem Reads.inside_of_pos {level : Level} (h : Reads mark level ts f) {depth : ℤ} (hdepth : 0 < depth) :
    Inside mark depth ts := by
  induction h generalizing depth with
  | term ts _ h => exact inside_term h depth
  | group o c ts f ho hc hts ih =>
    refine .cons hdepth ?_
    rw [ho]
    have hopened : 0 < depth + Mark.opening.nesting := Int.add_pos hdepth Int.one_pos
    refine (ih hopened).append (.cons ?_ trivial)
    rwa [hts.nesting, add_zero]
  | negation n ts f hn _ ih =>
    refine .cons hdepth (ih ?_)
    rw [hn]
    exact Int.add_pos_of_pos_of_nonneg hdepth (Int.le_refl 0)
  | factor ts f _ ih => exact ih hdepth
  | conjunction k l r f g hk hl _ ihl ihr | disjunction k l r f g hk hl _ ihl ihr =>
    refine (ihl hdepth).append (.cons ?_ (ihr ?_))
    · rwa [hl.nesting, add_zero]
    · rw [hl.nesting, hk, add_zero]
      exact Int.add_pos_of_pos_of_nonneg hdepth (Int.le_refl 0)

theorem Reads.inside (h : Reads mark .factor ts f) : Inside mark 0 ts := by
  generalize hlevel : Level.factor = level at h
  induction h with
  | term ts _ h => exact inside_term h 0
  | group o c ts f ho hc hts =>
    refine ⟨fun _ => by rw [ho]; exact ⟨by decide, by decide⟩, ?_⟩
    rw [ho]
    refine (hts.inside_of_pos (by decide)).append (Inside.cons ?_ trivial)
    rw [hts.nesting]
    decide
  | negation n ts f hn _ ih =>
    refine ⟨fun _ => by rw [hn]; exact ⟨by decide, by decide⟩, ?_⟩
    rw [hn]
    exact ih hlevel
  | _ => cases hlevel

/-- An operand is a factor of its own. -/
theorem Reads.eq_term {t : T} (h : Reads mark .factor (t :: ts) f) (ht : mark t = .operand) : f = .term (t :: ts) := by
  cases h with
  | term => rfl
  | group _ _ _ _ ho | negation _ _ _ ho =>
    rw [ho] at ht
    cases ht

end Properties

end BooleanQuery
