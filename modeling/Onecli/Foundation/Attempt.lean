import Mathlib.Data.List.Basic

/-!
# Programs that keep what they wrote

A program reads and writes a state and may throw. What it wrote before it throws stays written. An account of such a
program says which writes it attempts, when a write is refused, and what an accepted write gives; a program follows its
account when it carries out the writes in order up to the first that is refused.
-/

/-- A program over a state that may throw, and keeps what it wrote when it does. -/
abbrev Attempt (S E : Type) := ExceptT E (StateM S)

namespace Attempt

variable {S E α β : Type}

/-- What a program answers, and the state it leaves. -/
def outcome (m : Attempt S E α) (s : S) : Except E α × S := m s

/-- A result that no state decides. -/
def ofExcept (r : Except E α) : Attempt S E α := fun s => (r, s)

theorem outcome_set (s s' : S) : outcome (set s' : Attempt S E PUnit) s = (.ok ⟨⟩, s') := rfl

theorem outcome_modify (f : S → S) (s : S) : outcome (modify f : Attempt S E PUnit) s = (.ok ⟨⟩, f s) := rfl

variable {m : Attempt S E α} {s s' : S}

/-- A bind after an answer. -/
theorem outcome_bind_ok {f : α → Attempt S E β} {a : α} (h : m.outcome s = (.ok a, s')) :
    outcome (m >>= f) s = (f a).outcome s' := by
  change (let r := m s; ExceptT.bindCont f r.1 r.2) = f a s'
  rw [show m s = (.ok a, s') from h]
  rfl

/-- A bind after an error. -/
theorem outcome_bind_error {f : α → Attempt S E β} {e : E} (h : m.outcome s = (.error e, s')) :
    outcome (m >>= f) s = (.error e, s') := by
  change (let r := m s; ExceptT.bindCont f r.1 r.2) = (.error e, s')
  rw [show m s = (.error e, s') from h]
  rfl

theorem outcome_tryCatch_ok {handler : E → Attempt S E α} {a : α} (h : m.outcome s = (.ok a, s')) :
    outcome (tryCatch m handler) s = (.ok a, s') := by
  change (fun r : Except E α × S => (match r.1 with
    | .ok a => pure (.ok a)
    | .error e => handler e : StateM S (Except E α)) r.2) (m s) = _
  rw [show m s = (.ok a, s') from h]
  rfl

theorem outcome_tryCatch_error {handler : E → Attempt S E α} {e : E} (h : m.outcome s = (.error e, s')) :
    outcome (tryCatch m handler) s = (handler e).outcome s' := by
  change (fun r : Except E α × S => (match r.1 with
    | .ok a => pure (.ok a)
    | .error e => handler e : StateM S (Except E α)) r.2) (m s) = _
  rw [show m s = (.error e, s') from h]
  rfl

/-- A read passes the state on. -/
theorem outcome_get_bind (f : S → Attempt S E β) (s : S) : outcome (get >>= f) s = (f s).outcome s := rfl

theorem outcome_ofExcept_bind (a : α) (f : α → Attempt S E β) (s : S) :
    outcome (ofExcept (.ok a) >>= f) s = (f a).outcome s := rfl

end Attempt

/-- An account of writes: when a write is refused, and what an accepted one gives. -/
structure Account (P W E : Type) where
  verdict : P → W → Option E
  give : P → W → P

namespace Account

variable {P W E : Type} (A : Account P W E)

/-- The writes before the first that is refused, and its refusal. -/
def upTo : P → List W → List W × Option E
  | _, [] => ([], none)
  | p, w :: ws =>
    match A.verdict p w with
    | some e => ([], some e)
    | none => (w :: (upTo (A.give p w) ws).1, (upTo (A.give p w) ws).2)

/-- What the writes before the first refused one give together. -/
def after (p : P) (ws : List W) : P := (A.upTo p ws).1.foldl A.give p

variable {p : P} {V : Type}

/-- A refused write ends the account. -/
theorem upTo_refused {w : W} {e : E} (h : A.verdict p w = some e) (ws : List W) :
    A.upTo p (w :: ws) = ([], some e) := by
  rw [upTo, h]

/-- An accepted write goes on. -/
theorem upTo_accepted {w : W} (h : A.verdict p w = none) (ws : List W) :
    A.upTo p (w :: ws) = (w :: (A.upTo (A.give p w) ws).1, (A.upTo (A.give p w) ws).2) := by
  rw [upTo, h]

theorem upTo_singleton (p : P) (w : W) : (A.upTo p [w]).2 = A.verdict p w := by
  cases h : A.verdict p w with
  | some => rw [A.upTo_refused h]
  | none =>
    rw [A.upTo_accepted h]
    rfl

@[simp] theorem after_nil (p : P) : A.after p [] = p := rfl

/-- After a refused write nothing is given. -/
theorem after_refused {w : W} {e : E} (h : A.verdict p w = some e) (ws : List W) : A.after p (w :: ws) = p := by
  rw [after, A.upTo_refused h]
  rfl

/-- After an accepted write the rest is given. -/
theorem after_accepted {w : W} (h : A.verdict p w = none) (ws : List W) :
    A.after p (w :: ws) = A.after (A.give p w) ws := by
  rw [after, A.upTo_accepted h]
  rfl

theorem upTo_append {ws : List W} (h : (A.upTo p ws).2 = none) (ws' : List W) :
    (A.upTo p (ws ++ ws')).2 = (A.upTo (A.after p ws) ws').2 ∧ A.after p (ws ++ ws') = A.after (A.after p ws) ws' := by
  induction ws generalizing p with
  | nil => exact ⟨rfl, rfl⟩
  | cons w ws ih =>
    cases hw : A.verdict p w with
    | some =>
      rw [A.upTo_refused hw] at h
      cases h
    | none =>
      rw [A.upTo_accepted hw] at h
      rw [List.cons_append, A.upTo_accepted hw, A.after_accepted hw, A.after_accepted hw]
      exact ih h

theorem upTo_append_refused {ws : List W} {e : E} (h : (A.upTo p ws).2 = some e) (ws' : List W) :
    (A.upTo p (ws ++ ws')).2 = some e ∧ A.after p (ws ++ ws') = A.after p ws := by
  induction ws generalizing p with
  | nil => cases h
  | cons w ws ih =>
    cases hw : A.verdict p w with
    | some =>
      rw [A.upTo_refused hw] at h
      rw [List.cons_append, A.upTo_refused hw, A.after_refused hw, A.after_refused hw]
      exact ⟨h, rfl⟩
    | none =>
      rw [A.upTo_accepted hw] at h
      rw [List.cons_append, A.upTo_accepted hw, A.after_accepted hw, A.after_accepted hw]
      exact ih h

theorem foldl_given {U V : Type} (get : P → V) {given : W → Option U} {change : V → U → V}
    (h : ∀ p w, get (A.give p w) = ((given w).map (change (get p))).getD (get p)) (p : P) (ws : List W) :
    get (ws.foldl A.give p) = (ws.filterMap given).foldl change (get p) := by
  induction ws generalizing p with
  | nil => rfl
  | cons w ws ih =>
    rw [List.foldl_cons, ih, h, List.filterMap_cons]
    cases given w with
    | none => rfl
    | some => rfl

theorem foldl_kept (get : P → V) (h : ∀ p w, get (A.give p w) = get p) (p : P) (ws : List W) :
    get (ws.foldl A.give p) = get p := by
  induction ws generalizing p with
  | nil => rfl
  | cons w ws ih => rw [List.foldl_cons, ih, h]

theorem foldl_last (get : P → V) {given : W → Option V} (h : ∀ p w, get (A.give p w) = (given w).getD (get p)) (p : P)
    (ws : List W) : get (ws.foldl A.give p) = ((ws.filterMap given).getLast?).getD (get p) := by
  induction ws generalizing p with
  | nil => rfl
  | cons w ws ih =>
    rw [List.foldl_cons, ih, h, List.filterMap_cons]
    cases given w with
    | none => rfl
    | some =>
      rw [List.getLast?_cons]
      rfl

omit A in
theorem getD_eq_iff {given : Option V} {value : V} : given.getD value = value ↔ ∀ set ∈ given, set = value := by
  cases given <;> simp

theorem foldl_get (get : P → V) {give : V → W → V} (h : ∀ p w, get (A.give p w) = give (get p) w) (p : P)
    (ws : List W) : get (ws.foldl A.give p) = ws.foldl give (get p) := by
  induction ws generalizing p with
  | nil => rfl
  | cons w ws ih => rw [List.foldl_cons, List.foldl_cons, ih, h]

end Account

namespace Attempt

variable {S P W E α β : Type} {A : Account P W E} {I : S → P → Prop}

/-- A program follows its account: it throws the first refusal and leaves what the writes before it give. -/
def Follows (A : Account P W E) (I : S → P → Prop) (p : P) (m : Attempt S E α) (post : α → P → Prop) (ws : List W) :
    Prop :=
  ∀ s, I s p → match (A.upTo p ws).2 with
    | some e => ∃ s', m.outcome s = (.error e, s') ∧ I s' (A.after p ws)
    | none => ∃ a s', m.outcome s = (.ok a, s') ∧ I s' (A.after p ws) ∧ post a (A.after p ws)

namespace Follows

variable {p : P} {m : Attempt S E α} {f : α → Attempt S E β} {post : α → P → Prop} {post' : β → P → Prop}

/-- An answer writes nothing. -/
theorem answer {a : α} (h : post a p) : Follows A I p (pure a) post [] := fun s hs => ⟨a, s, rfl, hs, h⟩

/-- A refusal is of the first write. -/
theorem refuse {w : W} {e : E} (h : A.verdict p w = some e) : Follows A I p (throw e : Attempt S E α) post [w] := by
  intro s hs
  rw [A.upTo_refused h, A.after_refused h]
  exact ⟨s, rfl, hs⟩

/-- A write is refused or given. -/
theorem write {w : W} (h : ∀ s, I s p → (∃ e, A.verdict p w = some e ∧ m.outcome s = (.error e, s)) ∨
    A.verdict p w = none ∧ ∃ a s', m.outcome s = (.ok a, s') ∧ I s' (A.give p w) ∧ post a (A.give p w)) :
    Follows A I p m post [w] := by
  intro s hs
  obtain ⟨e, hw, hout⟩ | ⟨hw, hout⟩ := h s hs
  · rw [A.upTo_refused hw, A.after_refused hw]
    exact ⟨s, hout, hs⟩
  · rw [A.upTo_accepted hw, A.after_accepted hw]
    exact hout

/-- One program after another. -/
theorem bind {u v : List W} (hm : Follows A I p m post u)
    (hf : ∀ a, post a (A.after p u) → Follows A I (A.after p u) (f a) post' v) :
    Follows A I p (m >>= f) post' (u ++ v) := by
  intro s hs
  have hfirst := hm s hs
  cases hw : (A.upTo p u).2 with
  | some =>
    rw [hw] at hfirst
    obtain ⟨s', hout, hs'⟩ := hfirst
    obtain ⟨hrefused, hafter⟩ := A.upTo_append_refused hw v
    rw [hrefused, hafter]
    exact ⟨s', outcome_bind_error hout, hs'⟩
  | none =>
    rw [hw] at hfirst
    obtain ⟨a, s', hout, hs', ha⟩ := hfirst
    obtain ⟨hrest, hafter⟩ := A.upTo_append hw v
    rw [hrest, hafter, outcome_bind_ok hout]
    exact hf a ha s' hs'

theorem tail {ws : List W} (Refusal : E → Prop) (hm : Follows A I p m post ws)
    (hkeeps : ∀ a s, ((f a).outcome s).2 = s)
    (hreads : ∀ a s e, ((f a).outcome s).1 = .error e → ¬ Refusal e) {s : S} (hs : I s p) :
    I ((m >>= f).outcome s).2 (A.after p ws) ∧
      ((∃ e, ((m >>= f).outcome s).1 = .error e ∧ Refusal e) ↔ ∃ e, (A.upTo p ws).2 = some e ∧ Refusal e) := by
  have hfirst := hm s hs
  cases hw : (A.upTo p ws).2 with
  | some e =>
    rw [hw] at hfirst
    obtain ⟨s', hout, hs'⟩ := hfirst
    rw [outcome_bind_error hout]
    refine ⟨hs', ?_, ?_⟩
    · rintro ⟨e', he, hrefusal⟩
      exact ⟨e, rfl, Except.error.inj he ▸ hrefusal⟩
    · rintro ⟨e', he, hrefusal⟩
      exact ⟨e', congrArg Except.error (Option.some.inj he), hrefusal⟩
  | none =>
    rw [hw] at hfirst
    obtain ⟨a, s', hout, hs', -⟩ := hfirst
    rw [outcome_bind_ok hout, hkeeps a s']
    refine ⟨hs', ?_, ?_⟩
    · rintro ⟨e, he, hrefusal⟩
      exact absurd hrefusal (hreads a s' e he)
    · rintro ⟨e, he, -⟩
      cases he

theorem foldlM {ι : Type} {round : α → ι → Attempt S E α} {writes : ι → List W}
    (hround : ∀ p a x, post a p → Follows A I p (round a x) post (writes x)) (xs : List ι) {a : α} (ha : post a p) :
    Follows A I p (xs.foldlM round a) post (xs.flatMap writes) := by
  induction xs generalizing p a with
  | nil => exact answer ha
  | cons x xs ih =>
    exact (hround p a x ha).bind fun _ hpost => ih hpost

theorem forM {ι : Type} {round : ι → Attempt S E PUnit} {writes : ι → List W}
    (hround : ∀ p x, Follows A I p (round x) (fun _ _ => True) (writes x)) (xs : List ι) :
    Follows A I p (xs.forM round) (fun _ _ => True) (xs.flatMap writes) := by
  induction xs generalizing p with
  | nil => exact answer trivial
  | cons x xs ih =>
    exact (hround p x).bind fun _ _ => ih

end Follows

end Attempt
