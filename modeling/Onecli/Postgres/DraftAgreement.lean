import Onecli.Postgres.Messages

/-!
# A unit's draft and the names it becomes

A unit is judged over a `Draft`, an overlay on the names with the names it deallocated marked,
and sent as a log of changes that `Names` replays. Both come to the same statements and the same
unnamed portal, so what the unit's last message saw is what the first message of the next one
sees; and the budget that `Draft::prepare` checks holds of the names, unless the server's answers
bring statements back.
-/

namespace Onecli.Postgres

open List Option

/-- An operation of a unit on its draft. -/
inductive DraftOp where
  | prepare (name : List UInt8) (prepared : Prepared) (via : Via)
  | deallocate (name : List UInt8) (via : Via)
  | deallocateAll
  | closePortal
  | bind (portal statement : List UInt8)

/-- What an operation makes of a draft. A statement past the budget is refused, and the draft
stays. -/
def Draft.op (draft : Draft) : DraftOp → Draft
  | .prepare name prepared via =>
    match draft.prepare name prepared via with
    | .ok draft' => draft'
    | .error _ => draft
  | .deallocate name via => draft.deallocate name via
  | .deallocateAll => draft.deallocateAll
  | .closePortal => draft.closePortal
  | .bind portal statement => (draft.bind portal statement).1

/-- The operations of a unit one after the other. -/
def Draft.ops (draft : Draft) (ops : List DraftOp) : Draft := ops.foldl Draft.op draft

/-- A step of a session: a unit is sent, or a message of the server is observed. -/
inductive NamesStep where
  | unit (ops : List DraftOp)
  | answer (tag : UInt8) (body : List UInt8)

/-- What a step does to the names. -/
def Names.step (names : Names) : NamesStep → Option Names
  | .unit ops => names.send ((Draft.new names).ops ops).finish
  | .answer tag body => names.observe tag body

/-- Taking the change back sets a statement. -/
def Before.Restores : Before → Prop
  | .statement _ prepared => prepared.isSome
  | .statements all => all.entries ≠ []
  | .nothing => False

/-- Settling the change merges two statements. -/
def Before.Merges : Before → Prop
  | .statement _ _ => True
  | .statements all => all.entries ≠ []
  | .nothing => False

/-- A message of the server restores or merges a statement. -/
def Names.BringsBack (names : Names) (tag : UInt8) : Prop :=
  (tag = byte 'E' ∧ ∃ u ∈ names.unconfirmed, u.before.Restores) ∨
    (tag = byte 'Z' ∧ ∃ u ∈ names.unconfirmed, u.before.Merges)

/-- No message of the session restores or merges a statement. -/
def NoneBroughtBack (steps : List NamesStep) : Prop :=
  ∀ earlier tag body later, steps = earlier ++ .answer tag body :: later →
    ∀ names, earlier.foldlM Names.step .default = some names → ¬ names.BringsBack tag

/-- The bytes that a change may add. -/
def Change.added : Change → ℕ
  | .prepare name prepared => prepared.cost name
  | _ => 0

section Overlay

/-- A draft is the overlay that its changes make, and stays in the budget when its names do. -/
structure Draft.Mirrors (draft : Draft) (names : Names) : Prop where
  same : draft.names = names
  current : draft.current = draft.changes.foldl (fun m change => change.1.effect m) names.statements.lookup
  added : draft.addedBytes = (draft.changes.map fun change => change.1.added).sum
  budget : names.statementBytes + draft.addedBytes ≤ max maxPreparedBytes names.statementBytes

/-- A new draft mirrors its names. -/
theorem Draft.Mirrors.new (names : Names) : (Draft.new names).Mirrors names := ⟨rfl, rfl, rfl, le_max_right _ _⟩

variable {names : Names} {draft : Draft}

theorem Draft.Mirrors.changed {draft draft' : Draft} (h : draft.Mirrors names)
    (change : Change × Via) (hnames : draft'.names = draft.names)
    (hchanges : draft'.changes = draft.changes ++ [change])
    (hcur : draft'.current = change.1.effect draft.current)
    (hadded : draft'.addedBytes = draft.addedBytes + change.1.added)
    (hbudget : names.statementBytes + draft'.addedBytes ≤ max maxPreparedBytes names.statementBytes) :
    draft'.Mirrors names := by
  refine ⟨hnames.trans h.same, ?_, ?_, hbudget⟩
  · rw [hcur, h.current, hchanges, foldl_append]
    rfl
  · rw [hadded, h.added, hchanges, map_append, sum_append]
    rfl

theorem Draft.Mirrors.bound (h : draft.Mirrors names) (portal statement : List UInt8) :
    (draft.bind portal statement).1.Mirrors names := by
  unfold Draft.bind
  by_cases hportal : portal = []
  · rw [if_pos hportal]
    exact ⟨h.same, h.current, h.added, h.budget⟩
  · rw [if_neg hportal]
    split
    · exact h
    · exact h

theorem Draft.Mirrors.op (h : draft.Mirrors names) (op : DraftOp) :
    (draft.op op).Mirrors names := by
  cases op with
  | prepare name prepared via =>
    change Draft.Mirrors (match draft.prepare name prepared via with
      | .ok draft' => draft'
      | .error _ => draft) names
    unfold Draft.prepare
    by_cases hspent : maxPreparedBytes <
        draft.names.statementBytes + draft.addedBytes + prepared.cost (key name)
    · simp only [if_pos hspent]
      exact h
    · simp only [if_neg hspent]
      rw [h.same] at hspent
      have hbudget : names.statementBytes + (draft.addedBytes + prepared.cost (key name)) ≤
          max maxPreparedBytes names.statementBytes := by omega
      have hcur := draft.current_insert (key name) (some prepared)
      exact h.changed (.prepare (key name) prepared, via) rfl rfl hcur rfl hbudget
  | deallocate name via =>
    have hcur := draft.current_insert (key name) none
    exact h.changed (.deallocate (key name), via) rfl rfl hcur rfl h.budget
  | deallocateAll => exact h.changed (.deallocateAll, .sql) rfl rfl rfl rfl h.budget
  | closePortal => exact h.changed (.closePortal, .message) rfl rfl rfl rfl h.budget
  | bind portal statement => exact h.bound portal statement

/-- Operations keep the mirror. -/
theorem Draft.Mirrors.ops (h : draft.Mirrors names) (ops : List DraftOp) :
    (draft.ops ops).Mirrors names := by
  induction ops generalizing draft with
  | nil => exact h
  | cons op ops ih => exact ih (h.op op)

end Overlay

section Replayed

variable {names names' : Names}

/-- Taking a name frees its bytes. -/
theorem take_bytes_le {name : Key} {before : Option Prepared}
    (htake : names.take name = some (names', before)) :
    names'.statementBytes ≤ names.statementBytes := by
  unfold Names.take at htake
  cases htaken : names.statements.lookup name with
  | none =>
    rw [htaken] at htake
    cases htake
    exact le_rfl
  | some taken =>
    rw [htaken] at htake
    by_cases hless : names.statementBytes < taken.cost name
    · simp only [if_pos hless] at htake
      cases htake
    · simp only [if_neg hless] at htake
      cases htake
      exact Nat.sub_le _ _

theorem put_bytes_le {name : Key} {prepared : Prepared} {before : Option Prepared}
    (hput : names.put name prepared = some (names', before)) :
    names'.statementBytes ≤ names.statementBytes + prepared.cost name := by
  obtain ⟨taken, htake, hdone⟩ := bind_eq_some_iff.mp hput
  cases hdone
  exact take_bytes_le htake

theorem apply_bytes_le {change : Change} {before : Before}
    (happly : names.apply change = some (names', before)) :
    names'.statementBytes ≤ names.statementBytes + change.added := by
  cases change with
  | prepare =>
    obtain ⟨put, hput, hdone⟩ := bind_eq_some_iff.mp happly
    cases hdone
    exact put_bytes_le hput
  | deallocate =>
    obtain ⟨taken, htake, hdone⟩ := bind_eq_some_iff.mp happly
    cases hdone
    exact take_bytes_le htake
  | deallocateAll =>
    cases happly
    exact Nat.zero_le _
  | closePortal =>
    cases happly
    exact le_rfl

theorem foldlM_sendChange_statements {names : Names} (hbal : names.Balanced)
    (changes : List (Change × Via)) :
    ∃ names', changes.foldlM Names.sendChange names = some names' ∧
      names'.statements.lookup = changes.foldl (fun m change => change.1.effect m) names.statements.lookup ∧
      names'.unnamedPortal = names.unnamedPortal ∧
      names'.statementBytes ≤
        names.statementBytes + (changes.map fun change => change.1.added).sum := by
  induction changes generalizing names with
  | nil => exact ⟨names, rfl, rfl, rfl, le_rfl⟩
  | cons change changes ih =>
    obtain ⟨applied, before, happly, hholds, hrest, _⟩ := apply_spec ⟨rfl, hbal⟩ change.1
    have hbytes := apply_bytes_le happly
    let waiting : Names := { applied with unconfirmed := applied.unconfirmed ++ [⟨change.1, change.2, before⟩] }
    have hwait : waiting.Balanced := hholds.balanced
    obtain ⟨names', hfold, hlookup, hportal, hle⟩ := ih hwait
    have hfirst : names.sendChange change = some waiting := by
      unfold Names.sendChange
      rw [happly]
      rfl
    refine ⟨names', ?_, ?_, hportal.trans hrest.unnamedPortal, ?_⟩
    · rw [foldlM_cons, hfirst]
      exact hfold
    · rw [hlookup]
      exact congrArg (fun m => changes.foldl _ m) hholds.lookup
    · change names'.statementBytes ≤ applied.statementBytes + _ at hle
      rw [map_cons, sum_cons]
      omega

/-- A finished draft becomes the names. -/
theorem send_finish_spec {names : Names} (hbal : names.Balanced) {draft : Draft}
    (h : draft.Mirrors names) :
    ∃ names', names.send draft.finish = some names' ∧ names'.view = draft.view ∧
      names'.statementBytes ≤ max maxPreparedBytes names.statementBytes := by
  let bound : Names := { names with unnamedPortal := draft.unnamedPortal.getD names.unnamedPortal }
  have hbound : bound.Balanced := hbal
  obtain ⟨names', hfold, hlookup, hportal, hle⟩ := foldlM_sendChange_statements hbound draft.changes
  have hview : names'.view = draft.view := by
    unfold Names.view Draft.view
    rw [hlookup, hportal, h.current, h.same]
  have hbudget : names'.statementBytes ≤ max maxPreparedBytes names.statementBytes := by
    have hwithin := h.budget
    rw [h.added] at hwithin
    exact hle.trans hwithin
  exact ⟨names', hfold, hview, hbudget⟩

/-- A new draft shows its names. -/
theorem Draft.new_view (names : Names) : (Draft.new names).view = names.view := rfl

/-- A draft finds what it shows. -/
theorem Draft.statement_eq (draft : Draft) (name : List UInt8) :
    draft.statement name = draft.view.statement name := rfl

/-- A draft judges by what it shows. -/
theorem Draft.execute_eq (draft : Draft) (portal : List UInt8) :
    draft.execute portal = draft.view.verdict (.execute portal) := by
  unfold Draft.execute
  rw [View.verdict_execute]
  by_cases hportal : portal = []
  · simp only [if_pos hportal]
    change _ = ((draft.unnamedPortal.getD draft.names.unnamedPortal).map draft.view.runs).getD _
    cases draft.unnamedPortal.getD draft.names.unnamedPortal with
    | none => rfl
    | some prepared => exact draft.runs_eq prepared
  · simp only [if_neg hportal]

end Replayed

section Answered

variable {names names' : Names}

theorem foldlM_takeBack_bytes_le {us : List Unconfirmed} (hus : ∀ u ∈ us, ¬ u.before.Restores)
    (hfold : us.foldlM Names.takeBack names = some names') :
    names'.statementBytes ≤ names.statementBytes := by
  induction us generalizing names with
  | nil =>
    cases hfold
    exact le_rfl
  | cons u us ih =>
    obtain ⟨first, hfirst, hrest⟩ := bind_eq_some_iff.mp hfold
    apply (ih (fun u hu => hus u (mem_cons_of_mem _ hu)) hrest).trans
    have hnone := hus u mem_cons_self
    unfold Names.takeBack at hfirst
    cases hbefore : u.before with
    | statement name prepared =>
      rw [hbefore] at hfirst hnone
      cases prepared with
      | none =>
        obtain ⟨taken, htake, hdone⟩ := map_eq_some_iff.mp hfirst
        cases hdone
        exact take_bytes_le htake
      | some => exact absurd rfl hnone
    | statements all =>
      rw [hbefore] at hfirst hnone
      have hempty : all.entries = [] := not_not.mp hnone
      simp only [hempty] at hfirst
      cases hfirst
      exact le_rfl
    | nothing =>
      rw [hbefore] at hfirst
      cases hfirst
      exact le_rfl

theorem foldlM_settleChange_bytes_le {us : List Unconfirmed} (hus : ∀ u ∈ us, ¬ u.before.Merges)
    (hfold : us.foldlM Names.settleChange names = some names') :
    names'.statementBytes ≤ names.statementBytes := by
  induction us generalizing names with
  | nil =>
    cases hfold
    exact le_rfl
  | cons u us ih =>
    obtain ⟨first, hfirst, hrest⟩ := bind_eq_some_iff.mp hfold
    apply (ih (fun u hu => hus u (mem_cons_of_mem _ hu)) hrest).trans
    have hnone := hus u mem_cons_self
    unfold Names.settleChange at hfirst
    cases hbefore : u.before with
    | statement =>
      rw [hbefore] at hnone
      exact absurd trivial hnone
    | statements all =>
      rw [hbefore] at hfirst hnone
      have hempty : all.entries = [] := not_not.mp hnone
      simp only [hempty] at hfirst
      cases hfirst
      exact le_rfl
    | nothing =>
      rw [hbefore] at hfirst
      cases hfirst
      exact le_rfl

theorem observe_bytes_le {tag : UInt8} {body : List UInt8}
    (hobs : names.observe tag body = some names') (hnone : ¬ names.BringsBack tag) :
    names'.statementBytes ≤ names.statementBytes := by
  by_cases herror : tag = byte 'E'
  · have hus : ∀ u ∈ names.unconfirmed.reverse, ¬ u.before.Restores := fun u hu hrestores =>
      hnone (.inl ⟨herror, u, mem_reverse.mp hu, hrestores⟩)
    subst herror
    have hle := foldlM_takeBack_bytes_le hus hobs
    exact hle
  by_cases hready : tag = byte 'Z'
  · have hus : ∀ u ∈ names.unconfirmed, ¬ u.before.Merges := fun u hu hmerges =>
      hnone (.inr ⟨hready, u, hu, hmerges⟩)
    subst hready
    obtain ⟨settled, hsettled, hdone⟩ := bind_eq_some_iff.mp hobs
    have hle := foldlM_settleChange_bytes_le hus hsettled
    cases hdone
    split
    · exact hle
    · exact hle
  · rw [observe_of_answer tag body herror hready] at hobs
    cases hobs
    split <;> exact le_rfl

end Answered

section Sessions

/-- A step of a session never fails, keeps the byte count right, and keeps the budget unless it
brings statements back. -/
theorem step_spec {names : Names} (hbal : names.Balanced) (step : NamesStep) :
    ∃ names', names.step step = some names' ∧ names'.Balanced ∧
      ((∀ tag body, step = .answer tag body → ¬ names.BringsBack tag) →
        names'.statementBytes ≤ max maxPreparedBytes names.statementBytes) := by
  cases step with
  | unit ops =>
    have hmirrors := (Draft.Mirrors.new names).ops ops
    obtain ⟨names', hsend, hbalanced', _⟩ := send_spec hbal ((Draft.new names).ops ops).finish
    obtain ⟨sent, hsent, _, hbudget⟩ := send_finish_spec hbal hmirrors
    obtain rfl : sent = names' := some.inj (hsent.symm.trans hsend)
    exact ⟨sent, hsend, hbalanced', fun _ => hbudget⟩
  | answer tag body =>
    obtain ⟨names', hobs, hbalanced', _⟩ := observe_spec hbal tag body
    refine ⟨names', hobs, hbalanced', fun hnone => ?_⟩
    exact (observe_bytes_le hobs (hnone tag body rfl)).trans (le_max_right _ _)

/-- A session never fails, its byte count is right, and it stays in the budget unless the server's
answers bring statements back. -/
theorem steps_spec (steps : List NamesStep) :
    ∃ names, steps.foldlM Names.step .default = some names ∧ names.Balanced ∧
      (NoneBroughtBack steps → names.statementBytes ≤ maxPreparedBytes) := by
  induction steps using List.reverseRecOn with
  | nil => exact ⟨.default, rfl, rfl, fun _ => Nat.zero_le _⟩
  | append_singleton steps step ih =>
    obtain ⟨names, hrun, hbal, hbudget⟩ := ih
    obtain ⟨names', hstep, hbalanced', hbudget'⟩ := step_spec hbal step
    refine ⟨names', ?_, hbalanced', fun hnone => ?_⟩
    · rw [foldlM_append, hrun]
      exact (bind_some _ _).trans ((foldlM_cons).trans (by rw [hstep]; rfl))
    · have hearlier : NoneBroughtBack steps := by
        intro earlier tag body later hsplit
        apply hnone earlier tag body (later ++ [step])
        rw [hsplit, append_assoc, cons_append]
      have hnow : ∀ tag body, step = .answer tag body → ¬ names.BringsBack tag := by
        intro tag body hanswer
        apply hnone steps tag body [] _ names hrun
        rw [hanswer]
      exact (hbudget' hnow).trans (max_le le_rfl (hbudget hearlier))

/-- In every session the names after a unit show what its draft showed at the end, for every name
and every portal; and the tracked statements stay in the budget as long as no answer of the
server restores or merges one. -/
theorem draft_agrees (steps : List NamesStep) :
    ∃ names, steps.foldlM Names.step .default = some names ∧
      (∀ ops, ∃ names', names.send ((Draft.new names).ops ops).finish = some names' ∧
        (∀ name, (Draft.new names').statement name = ((Draft.new names).ops ops).statement name) ∧
        ∀ portal, (Draft.new names').execute portal = ((Draft.new names).ops ops).execute portal) ∧
      (NoneBroughtBack steps → names.statementBytes ≤ maxPreparedBytes) := by
  obtain ⟨names, hrun, hbalanced, hbudget⟩ := steps_spec steps
  refine ⟨names, hrun, fun ops => ?_, hbudget⟩
  obtain ⟨names', hsend, hview, _⟩ := send_finish_spec hbalanced ((Draft.Mirrors.new names).ops ops)
  refine ⟨names', hsend, fun name => ?_, fun portal => ?_⟩
  · rw [Draft.statement_eq, Draft.statement_eq, Draft.new_view, hview]
  · rw [Draft.execute_eq, Draft.execute_eq, Draft.new_view, hview]

/-- A statement is prepared, closed and prepared again in one unit, all within the budget. -/
theorem draft_agrees_prepared_again : ∃ names,
    [NamesStep.unit [.prepare (bytes "s") (.unseen (bytes "s")) .message, .deallocate (bytes "s") .message,
      .prepare (bytes "s") (.unseen (bytes "t")) .message]].foldlM Names.step .default = some names ∧
    names.statementBytes ≤ maxPreparedBytes := by
  obtain ⟨names, hrun, _, hbudget⟩ := draft_agrees
    [.unit [.prepare (bytes "s") (.unseen (bytes "s")) .message, .deallocate (bytes "s") .message,
      .prepare (bytes "s") (.unseen (bytes "t")) .message]]
  refine ⟨names, hrun, hbudget ?_⟩
  intro earlier tag body later hsplit
  have hmem : NamesStep.answer tag body ∈ earlier ++ .answer tag body :: later :=
    List.mem_append_right _ List.mem_cons_self
  rw [← hsplit] at hmem
  cases List.mem_singleton.mp hmem

end Sessions

end Onecli.Postgres
