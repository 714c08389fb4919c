import Onecli.Foundation.Runs
import Onecli.Postgres.Unit

/-!
# The bookkeeping of the tracked statements

What the operations of `Names` do to the map of statements, and that the byte count follows
it. Every change sent records enough to be taken back, so an error returns the map to what
the confirmed changes alone made of it.
-/

namespace Onecli.Postgres

open Function (update update_eq_self update_eq_self_iff update_idem update_self)
open List Option Bool

/-- The statements that a set of names stands for. -/
abbrev Statements := Key → Option Prepared

/-- What a change makes of the statements. -/
def Change.effect (change : Change) (m : Statements) : Statements :=
  match change with
  | .prepare name prepared => update m name (some prepared)
  | .deallocate name => update m name none
  | .deallocateAll => fun _ => none
  | .closePortal => m

/-- What taking a change back makes of the statements. -/
def Before.restore (before : Before) (m : Statements) : Statements :=
  match before with
  | .statement name prepared => update m name prepared
  | .statements all => fun k => (all.lookup k).or (m k)
  | .nothing => m

/-- The stricter of the two statements that a name may stand for. -/
def merged (name : Key) (after before : Option Prepared) : Prepared :=
  let after := after.getD (.unseen name)
  let before := before.getD (.unseen name)
  ⟨after.classified.combine before.classified, after.audit, after.executes.or before.executes⟩

/-- What the end of the batch makes of the statements for one change without an answer. -/
def Before.settle (before : Before) (m : Statements) : Statements :=
  match before with
  | .statement name prepared => update m name (some (merged name (m name) prepared))
  | .statements all => fun k =>
    match all.lookup k with
    | none => m k
    | some prepared => some (merged k (m k) (some prepared))
  | .nothing => m

/-- The names stand for these statements, and the byte count is what they cost. -/
structure Holds (names : Names) (m : Statements) : Prop where
  lookup : names.statements.lookup = m
  balanced : names.statementBytes = names.statements.weight Prepared.cost

/-- Nothing but the statements and their byte count is different. -/
structure SameRest (names names' : Names) : Prop where
  unconfirmed : names'.unconfirmed = names.unconfirmed
  unnamedPortal : names'.unnamedPortal = names.unnamedPortal

theorem SameRest.refl (names : Names) : SameRest names names := ⟨rfl, rfl⟩

theorem SameRest.trans {a b c : Names} (hab : SameRest a b) (hbc : SameRest b c) : SameRest a c :=
  ⟨hbc.unconfirmed.trans hab.unconfirmed, hbc.unnamedPortal.trans hab.unnamedPortal⟩

section Operations

variable {names : Names} {m : Statements}

theorem take_spec_of_spare (names : Names) (spare : ℕ) (hlookup : names.statements.lookup = m)
    (hbytes : names.statementBytes = names.statements.weight Prepared.cost + spare) (name : Key) :
    ∃ names', names.take name = some (names', m name) ∧ names'.statements.lookup = update m name none ∧
      names'.statementBytes = (names'.statements.erase name).weight Prepared.cost + spare ∧
      SameRest names names' := by
  have hweight := Table.weight_erase Prepared.cost names.statements name
  unfold Names.take
  rw [← hlookup]
  cases htaken : names.statements.lookup name with
  | none =>
    rw [htaken, map_none, getD_none, Nat.add_zero] at hweight
    refine ⟨names, rfl, ?_, ?_, .refl names⟩
    · exact (update_eq_self_iff.mpr htaken.symm).symm
    · rw [hbytes, hweight]
  | some taken =>
    rw [htaken, map_some, getD_some] at hweight
    have herase : ((names.statements.erase name).erase name).weight Prepared.cost =
        (names.statements.erase name).weight Prepared.cost := by
      have hagain := Table.weight_erase Prepared.cost (names.statements.erase name) name
      rw [Table.lookup_erase, update_self, map_none] at hagain
      exact hagain.symm
    refine ⟨_, if_neg (by omega), Table.lookup_erase _ _, ?_, ⟨rfl, rfl⟩⟩
    change names.statementBytes - taken.cost name = _
    rw [herase]
    omega

/-- What `take` does. -/
theorem take_spec (h : Holds names m) (name : Key) :
    ∃ names', names.take name = some (names', m name) ∧
      Holds names' (update m name none) ∧ SameRest names names' := by
  obtain ⟨names', htake, hlookup, hbytes, hrest⟩ := take_spec_of_spare names 0 h.lookup h.balanced name
  refine ⟨names', htake, ⟨hlookup, ?_⟩, hrest⟩
  have hweight := Table.weight_erase Prepared.cost names'.statements name
  rw [hlookup, update_self, map_none, getD_none] at hweight
  omega

/-- `put` sets the statement of a name and hands out the one before. -/
theorem put_spec (h : Holds names m) (name : Key) (prepared : Prepared) :
    ∃ names', names.put name prepared = some (names', m name) ∧
      Holds names' (update m name (some prepared)) ∧ SameRest names names' := by
  let charged : Names := { names with statementBytes := names.statementBytes + prepared.cost name }
  have hcharged : charged.statementBytes = charged.statements.weight Prepared.cost + prepared.cost name :=
    congrArg (· + prepared.cost name) h.balanced
  obtain ⟨names', htake, hlookup, hbytes, hrest⟩ :=
    take_spec_of_spare charged (prepared.cost name) h.lookup hcharged name
  refine ⟨{ names' with statements := names'.statements.insert name prepared }, ?_, ⟨?_, ?_⟩,
    ⟨hrest.unconfirmed, hrest.unnamedPortal⟩⟩
  · rw [Names.put]
    rw [htake]
    rfl
  · rw [Table.lookup_insert, hlookup, update_idem]
  · rw [hbytes, Table.weight_insert, Nat.add_comm]

/-- What `apply` does. -/
theorem apply_spec (h : Holds names m) (change : Change) :
    ∃ names' before, names.apply change = some (names', before) ∧
      Holds names' (change.effect m) ∧ SameRest names names' ∧ before.restore (change.effect m) = m := by
  cases change with
  | prepare name prepared =>
    obtain ⟨names', hput, hholds, hrest⟩ := put_spec h name prepared
    refine ⟨names', .statement name (m name), ?_, hholds, hrest, ?_⟩
    · rw [Names.apply, hput]
      rfl
    · exact (update_idem _ _ _).trans (update_eq_self name m)
  | deallocate name =>
    obtain ⟨names', htake, hholds, hrest⟩ := take_spec h name
    refine ⟨names', .statement name (m name), ?_, hholds, hrest, ?_⟩
    · rw [Names.apply, htake]
      rfl
    · exact (update_idem _ _ _).trans (update_eq_self name m)
  | deallocateAll =>
    refine ⟨_, _, rfl, ⟨rfl, rfl⟩, ⟨rfl, rfl⟩, ?_⟩
    funext k
    exact (or_none).trans (congrFun h.lookup k)
  | closePortal => exact ⟨names, .nothing, rfl, h, .refl names, rfl⟩

/-- Changes one after another. -/
theorem foldlM_spec {A : Type} {f : Names → A → Option Names} {g : Statements → A → Statements}
    (hstep : ∀ names m a, Holds names m →
      ∃ names', f names a = some names' ∧ Holds names' (g m a) ∧ SameRest names names')
    (h : Holds names m) (as : List A) :
    ∃ names', as.foldlM f names = some names' ∧ Holds names' (as.foldl g m) ∧ SameRest names names' := by
  induction as generalizing names m with
  | nil => exact ⟨names, rfl, h, .refl names⟩
  | cons a as ih =>
    obtain ⟨first, hfirst, hholds, hrest⟩ := hstep names m a h
    obtain ⟨names', hfold, hholds', hrest'⟩ := ih hholds
    refine ⟨names', ?_, hholds', hrest.trans hrest'⟩
    rw [foldlM_cons, hfirst]
    exact hfold

end Operations

section Answers

variable {names : Names} {m : Statements}

/-- What `takeBack` does. -/
theorem takeBack_spec (h : Holds names m) (unconfirmed : Unconfirmed) :
    ∃ names', names.takeBack unconfirmed = some names' ∧
      Holds names' (unconfirmed.before.restore m) ∧ SameRest names names' := by
  unfold Names.takeBack
  match unconfirmed.before with
  | .statement name (some prepared) =>
    obtain ⟨names', hput, hholds, hrest⟩ := put_spec h name prepared
    exact ⟨names', congrArg (Option.map Prod.fst) hput, hholds, hrest⟩
  | .statement name none =>
    obtain ⟨names', htake, hholds, hrest⟩ := take_spec h name
    exact ⟨names', congrArg (Option.map Prod.fst) htake, hholds, hrest⟩
  | .statements all =>
    have hput (names : Names) (m : Statements) (entry : Key × Prepared) (h : Holds names m) :
        ∃ names', (names.put entry.1 entry.2).map Prod.fst = some names' ∧
          Holds names' (update m entry.1 (some entry.2)) ∧ SameRest names names' := by
      obtain ⟨names', hput, hholds, hrest⟩ := put_spec h entry.1 entry.2
      exact ⟨names', congrArg (Option.map Prod.fst) hput, hholds, hrest⟩
    obtain ⟨names', hfold, hholds, hrest⟩ := foldlM_spec hput h all.entries
    refine ⟨names', hfold, ?_, hrest⟩
    have hrestore : Before.restore (.statements all) m =
        all.entries.foldl
          (fun (m : Statements) entry => update m entry.1 (some entry.2)) m := by
      rw [Table.foldl_update_entries (fun _ _ prepared => prepared) all m]
      funext k
      change (all.lookup k).or (m k) = _
      cases all.lookup k <;> rfl
    rw [hrestore]
    exact hholds
  | .nothing => exact ⟨names, rfl, h, .refl names⟩

theorem uncertain_spec (h : Holds names m) (name : Key) (before : Option Prepared) :
    ∃ names', names.uncertain name before = some names' ∧
      Holds names' (update m name (some (merged name (m name) before))) ∧ SameRest names names' := by
  obtain ⟨taken, htake, hholds, hrest⟩ := take_spec h name
  obtain ⟨names', hput, hholds', hrest'⟩ := put_spec hholds name (merged name (m name) before)
  refine ⟨names', ?_, ?_, hrest.trans hrest'⟩
  · unfold Names.uncertain
    rw [htake]
    change Option.bind (taken.put name (merged name (m name) before)) _ = _
    rw [hput]
    rfl
  · rw [update_idem] at hholds'
    exact hholds'

theorem settleChange_spec (h : Holds names m) (unconfirmed : Unconfirmed) :
    ∃ names', names.settleChange unconfirmed = some names' ∧
      Holds names' (unconfirmed.before.settle m) ∧ SameRest names names' := by
  unfold Names.settleChange
  match unconfirmed.before with
  | .statement name before => exact uncertain_spec h name before
  | .statements all =>
    obtain ⟨names', hfold, hholds, hrest⟩ := foldlM_spec
      (fun names m (entry : Key × Prepared) h => uncertain_spec h entry.1 (some entry.2))
      h all.entries
    refine ⟨names', hfold, ?_, hrest⟩
    have hsettle : Before.settle (.statements all) m = all.entries.foldl
        (fun (m : Statements) entry =>
          update m entry.1 (some (merged entry.1 (m entry.1) (some entry.2)))) m := by
      rw [Table.foldl_update_entries (fun k after prepared => merged k after (some prepared)) all m]
      funext k
      change (match all.lookup k with
        | none => m k
        | some prepared => some (merged k (m k) (some prepared))) = _
      cases all.lookup k <;> rfl
    rw [hsettle]
    exact hholds
  | .nothing => exact ⟨names, rfl, h, .refl names⟩

end Answers

section Undo

/-- The changes lead from one map of statements to another, and each records what takes it
back. -/
def Traced (m₀ : Statements) : List Unconfirmed → Statements → Prop
  | [], m => m = m₀
  | u :: us, m => u.before.restore (u.change.effect m₀) = m₀ ∧ Traced (u.change.effect m₀) us m

theorem Traced.append {m₀ m : Statements} {us : List Unconfirmed} {u : Unconfirmed}
    (h : Traced m₀ us m) (hu : u.before.restore (u.change.effect m) = m) :
    Traced m₀ (us ++ [u]) (u.change.effect m) := by
  induction us generalizing m₀ with
  | nil =>
    obtain rfl : m = m₀ := h
    exact ⟨hu, rfl⟩
  | cons first us ih => exact ⟨h.1, ih h.2⟩

/-- Undoing what is unconfirmed restores the statements. -/
theorem Traced.restore {m₀ m : Statements} {us : List Unconfirmed} (h : Traced m₀ us m) :
    us.reverse.foldl (fun m u => u.before.restore m) m = m₀ := by
  rw [foldl_reverse]
  induction us generalizing m₀ with
  | nil => exact h
  | cons u us ih =>
    rw [foldr_cons, ih h.2]
    exact h.1

end Undo

section Calls

/-- A call on the names: a unit sent, or a message from the server. -/
inductive Call where
  | send (sent : Sent)
  | observe (tag : UInt8) (body : List UInt8)

/-- What a call does to the names. -/
def Names.call (names : Names) : Call → Option Names
  | .send sent => names.send sent
  | .observe tag body => names.observe tag body

/-- The changes of a session: the ones that the server confirmed, and the ones sent since
that it has answered neither way. -/
structure Ledger where
  confirmed : List Change
  unanswered : List (Change × Via)

/-- What a call does to the ledger. The server answers the changes in the order sent; an
error answers all of them. -/
def Ledger.call (ledger : Ledger) : Call → Ledger
  | .send sent => { ledger with unanswered := ledger.unanswered ++ sent.changes }
  | .observe tag body =>
    if tag = byte 'E' ∨ tag = byte 'Z' then { ledger with unanswered := [] }
    else match ledger.unanswered with
      | [] => ledger
      | (change, via) :: rest =>
        if change.confirmedBy via tag (Names.commandTag tag body) then
          ⟨ledger.confirmed ++ [change], rest⟩
        else ledger

/-- The ledger after the calls of a session. -/
def ledger (calls : List Call) : Ledger := calls.foldl Ledger.call ⟨[], []⟩

/-- No `ReadyForQuery` arrives while a change is unanswered. -/
def ReadyAnswered (calls : List Call) : Prop :=
  ∀ before body after, calls = before ++ .observe (byte 'Z') body :: after → (ledger before).unanswered = []

/-- The statements that the confirmed changes alone make. -/
def Ledger.statements (ledger : Ledger) : Statements :=
  ledger.confirmed.foldl (fun m change => change.effect m) fun _ => none

/-- The names follow a ledger. -/
structure Follows (names : Names) (ledger : Ledger) : Prop where
  unanswered : names.unconfirmed.map (fun u => (u.change, u.via)) = ledger.unanswered
  traced : Traced ledger.statements names.unconfirmed names.statements.lookup

/-- The byte count is what the tracked statements cost. -/
def Names.Balanced (names : Names) : Prop := names.statementBytes = names.statements.weight Prepared.cost

variable {names : Names}

/-- What `sendChange` does. -/
theorem sendChange_spec (hbalanced : names.Balanced) (change : Change × Via) :
    ∃ names', names.sendChange change = some names' ∧ names'.Balanced ∧
      ∀ ledger, Follows names ledger →
        Follows names' { ledger with unanswered := ledger.unanswered ++ [change] } := by
  obtain ⟨applied, before, happly, hholds, hrest, hback⟩ := apply_spec ⟨rfl, hbalanced⟩ change.1
  refine ⟨{ applied with unconfirmed := applied.unconfirmed ++ [⟨change.1, change.2, before⟩] },
    ?_, hholds.balanced, fun ledger hfol => ⟨?_, ?_⟩⟩
  · unfold Names.sendChange
    rw [happly]
    rfl
  · rw [hrest.unconfirmed, map_append, hfol.unanswered]
    rfl
  · rw [hrest.unconfirmed, hholds.lookup]
    exact hfol.traced.append hback

theorem foldlM_sendChange_spec (hbalanced : names.Balanced) (changes : List (Change × Via)) :
    ∃ names', changes.foldlM Names.sendChange names = some names' ∧ names'.Balanced ∧
      ∀ ledger, Follows names ledger → Follows names' { ledger with unanswered := ledger.unanswered ++ changes } := by
  induction changes generalizing names with
  | nil =>
    refine ⟨names, rfl, hbalanced, fun ledger hfol => ?_⟩
    rw [append_nil]
    exact hfol
  | cons change changes ih =>
    obtain ⟨first, hfirst, hbalanced, hfol⟩ := sendChange_spec hbalanced change
    obtain ⟨names', hfold, hbalanced', hfollows'⟩ := ih hbalanced
    refine ⟨names', ?_, hbalanced', fun ledger h => ?_⟩
    · rw [foldlM_cons, hfirst]
      exact hfold
    · have hnext := hfollows' _ (hfol ledger h)
      rw [append_assoc] at hnext
      exact hnext

theorem send_spec (hbalanced : names.Balanced) (sent : Sent) :
    ∃ names', names.send sent = some names' ∧ names'.Balanced ∧
      ∀ ledger, Follows names ledger → Follows names' (ledger.call (.send sent)) := by
  let bound : Names := { names with unnamedPortal := sent.unnamedPortal.getD names.unnamedPortal }
  have hbound : bound.Balanced := hbalanced
  obtain ⟨names', hfold, hbalanced', hfol⟩ := foldlM_sendChange_spec hbound sent.changes
  exact ⟨names', hfold, hbalanced', fun ledger h => hfol ledger ⟨h.unanswered, h.traced⟩⟩

/-- The replies that confirm a change. -/
theorem Change.tag_of_confirmedBy {change : Change} {via : Via} {tag : UInt8} {command : List UInt8}
    (h : change.confirmedBy via tag command = true) :
    tag = byte '1' ∨ tag = byte '3' ∨ tag = byte 'C' := by
  cases via with
  | message =>
    cases change with
    | prepare => exact .inl (beq_iff_eq.mp h)
    | deallocateAll => exact absurd h Bool.false_ne_true
    | _ => exact .inr (.inl (beq_iff_eq.mp h))
  | sql => exact .inr (.inr (beq_iff_eq.mp (and_eq_true_iff.mp h).1))

/-- A message that is neither an error nor the end of the batch confirms the oldest change or
nothing. -/
theorem observe_of_answer (tag : UInt8) (body : List UInt8) (herror : tag ≠ byte 'E')
    (hready : tag ≠ byte 'Z') :
    names.observe tag body = some (if names.confirms tag body then
      { names with unconfirmed := names.unconfirmed.tail } else names) := by
  unfold Names.observe
  by_cases hanswer : tag = byte '1' ∨ tag = byte '3' ∨ tag = byte 'C'
  · rw [if_pos hanswer]
    exact (apply_ite some _ _ _).symm
  · have hnothing : names.confirms tag body = false := by
      unfold Names.confirms
      cases names.unconfirmed.head? with
      | none => rfl
      | some =>
        refine eq_false_iff.mpr fun h => hanswer ?_
        exact Change.tag_of_confirmedBy h
    rw [if_neg hanswer, if_neg herror, if_neg hready, hnothing]
    rfl

section

variable (hbalanced : names.Balanced)
include hbalanced

/-- An error undoes what is unconfirmed. -/
theorem observe_error_spec (body : List UInt8) : ∃ names', names.observe (byte 'E') body = some names' ∧
    names'.Balanced ∧ names'.unconfirmed = [] ∧ names'.unnamedPortal = names.unnamedPortal ∧ names'.statements.lookup
    = names.unconfirmed.reverse.foldl (fun m u => u.before.restore m) names.statements.lookup := by
  let emptied : Names := { names with unconfirmed := [] }
  have hemptied : Holds emptied names.statements.lookup := ⟨rfl, hbalanced⟩
  obtain ⟨names', hfold, hholds, hrest⟩ :=
    foldlM_spec (fun _ _ u h => takeBack_spec h u) hemptied names.unconfirmed.reverse
  exact ⟨names', hfold, hholds.balanced, hrest.unconfirmed, hrest.unnamedPortal, hholds.lookup⟩

/-- What `settle` does. -/
theorem settle_spec (idle : Bool) : ∃ names', names.settle idle = some names' ∧ names'.Balanced ∧ names'.unconfirmed =
    [] ∧ names'.unnamedPortal = (if idle then none else names.unnamedPortal) ∧ names'.statements.lookup =
    names.unconfirmed.foldl (fun m u => u.before.settle m) names.statements.lookup := by
  let emptied : Names := { names with unconfirmed := [] }
  have hemptied : Holds emptied names.statements.lookup := ⟨rfl, hbalanced⟩
  obtain ⟨settled, hfold, hholds, hrest⟩ :=
    foldlM_spec (fun _ _ u h => settleChange_spec h u) hemptied names.unconfirmed
  have hsettle : names.settle idle = some (if idle then { settled with unnamedPortal := none } else settled) := by
    unfold Names.settle
    rw [hfold]
    rfl
  cases idle with
  | false => exact ⟨settled, hsettle, hholds.balanced, hrest.unconfirmed, hrest.unnamedPortal, hholds.lookup⟩
  | true => exact ⟨_, hsettle, hholds.balanced, hrest.unconfirmed, rfl, hholds.lookup⟩

theorem observe_spec (tag : UInt8) (body : List UInt8) : ∃ names', names.observe tag body = some names' ∧
    names'.Balanced ∧ ∀ ledger, (tag = byte 'Z' → ledger.unanswered = []) → Follows names ledger → Follows names'
    (ledger.call (.observe tag body)) := by
  by_cases herror : tag = byte 'E'
  · subst herror
    obtain ⟨names', hobs, hbalanced', hnone, _, hlookup⟩ := observe_error_spec hbalanced body
    refine ⟨names', hobs, hbalanced', fun ledger _ hfol => ⟨?_, ?_⟩⟩
    · rw [hnone]
      rfl
    · rw [hnone, hlookup, hfol.traced.restore]
      rfl
  by_cases hready : tag = byte 'Z'
  · subst hready
    obtain ⟨names', hsettle, hbalanced', hnone, _, hlookup⟩ := settle_spec hbalanced (body.head? == some (byte 'I'))
    refine ⟨names', hsettle, hbalanced', fun ledger hquiet hfol => ⟨?_, ?_⟩⟩
    · rw [hnone]
      rfl
    · have hunconf : names.unconfirmed = [] := map_eq_nil_iff.mp (hfol.unanswered.trans (hquiet rfl))
      have htraced := hfol.traced
      rw [hunconf] at htraced hlookup
      rw [hnone, hlookup]
      exact htraced
  · refine ⟨_, observe_of_answer tag body herror hready, ?_, fun ledger _ hfol => ?_⟩
    · split <;> exact hbalanced
    · have hcall : ledger.call (.observe tag body) = match ledger.unanswered with
          | [] => ledger
          | (change, via) :: rest =>
            if change.confirmedBy via tag (Names.commandTag tag body) then
              ⟨ledger.confirmed ++ [change], rest⟩
            else ledger := if_neg (not_or.mpr ⟨herror, hready⟩)
      rw [hcall, ← hfol.unanswered]
      unfold Names.confirms
      cases hnames : names.unconfirmed with
      | nil => exact hfol
      | cons u us =>
        have htraced := hfol.traced
        rw [hnames] at htraced
        change Follows (if u.change.confirmedBy u.via tag (Names.commandTag tag body) = true then
            { names with unconfirmed := us } else names)
          (if u.change.confirmedBy u.via tag (Names.commandTag tag body) = true then
            ⟨ledger.confirmed ++ [u.change], us.map fun u => (u.change, u.via)⟩ else ledger)
        by_cases hconfirmed : u.change.confirmedBy u.via tag (Names.commandTag tag body) = true
        · rw [if_pos hconfirmed, if_pos hconfirmed]
          refine ⟨rfl, ?_⟩
          unfold Ledger.statements
          rw [foldl_append]
          exact htraced.2
        · rw [if_neg hconfirmed, if_neg hconfirmed]
          exact hfol

/-- What a call does to the ledger. -/
theorem call_spec (call : Call) : ∃ names', names.call call = some names' ∧ names'.Balanced ∧ ∀ ledger,
    (∀ body, call = .observe (byte 'Z') body → ledger.unanswered = []) → Follows names ledger → Follows names'
    (ledger.call call) := by
  cases call with
  | send sent =>
    obtain ⟨names', hsend, hbalanced', hfol⟩ := send_spec hbalanced sent
    exact ⟨names', hsend, hbalanced', fun ledger _ h => hfol ledger h⟩
  | observe tag body =>
    obtain ⟨names', hobs, hbalanced', hfol⟩ := observe_spec hbalanced tag body
    refine ⟨names', hobs, hbalanced', fun ledger hquiet h => hfol ledger ?_ h⟩
    exact fun hready => hquiet body (congrArg (Call.observe · body) hready)

end

/-- The calls of a session never fail; the byte count stays right, and the names stay with
the ledger. -/
theorem calls_spec (calls : List Call) :
    ∃ names, calls.foldlM Names.call .default = some names ∧ names.Balanced ∧
      (ReadyAnswered calls → Follows names (ledger calls)) := by
  induction calls using List.reverseRecOn with
  | nil => exact ⟨.default, rfl, rfl, fun _ => ⟨rfl, rfl⟩⟩
  | append_singleton calls call ih =>
    obtain ⟨names, hrun, hbalanced, hfol⟩ := ih
    obtain ⟨names', hcall, hbalanced', hfollows'⟩ := call_spec hbalanced call
    refine ⟨names', ?_, hbalanced', fun hready => ?_⟩
    · rw [foldlM_append, hrun]
      exact (bind_some _ _).trans ((foldlM_cons).trans (by rw [hcall]; rfl))
    · have hbefore : ReadyAnswered calls := by
        intro before body after hsplit
        refine hready before body (after ++ [call]) ?_
        rw [hsplit, append_assoc, cons_append]
      have hnow : ∀ body, call = .observe (byte 'Z') body → (ledger calls).unanswered = [] :=
        fun body hz => hready calls body [] (by rw [hz])
      have hledger : ledger (calls ++ [call]) = (ledger calls).call call := by
        unfold ledger
        rw [foldl_append]
        rfl
      rw [hledger]
      exact hfollows' _ hnow (hfol hbefore)

/-- In every session the byte count of the tracked statements is what they cost and never
underflows; and where no batch ended with a change unanswered, an error leaves exactly what
the confirmed changes made. -/
theorem names_bookkeeping (calls : List Call) :
    ∃ names, calls.foldlM Names.call .default = some names ∧
      names.statementBytes = names.statements.weight Prepared.cost ∧
      (ReadyAnswered calls → ∀ body,
        ∃ names', names.observe (byte 'E') body = some names' ∧
          names'.statements.lookup = (ledger calls).statements) := by
  obtain ⟨names, hrun, hbalanced, hfollows⟩ := calls_spec calls
  refine ⟨names, hrun, hbalanced, fun hready body => ?_⟩
  obtain ⟨names', hobserve, _, _, _, hlookup⟩ := observe_error_spec hbalanced body
  exact ⟨names', hobserve, hlookup.trans (hfollows hready).traced.restore⟩

/-- A statement is prepared, confirmed and deallocated; the error that answers the
deallocation brings it back. -/
theorem names_bookkeeping_deallocate : ∃ names,
    [Call.send ⟨[(.prepare (bytes "s") (.unseen (bytes "s")), .message), (.deallocate (bytes "s"), .message)], none⟩,
      .observe (byte '1') []].foldlM Names.call .default = some names ∧
    ∃ names', names.observe (byte 'E') [] = some names' ∧
      names'.statements.lookup = update (fun _ => none) (bytes "s") (some (.unseen (bytes "s"))) := by
  obtain ⟨names, hrun, _, herror⟩ := names_bookkeeping
    [.send ⟨[(.prepare (bytes "s") (.unseen (bytes "s")), .message), (.deallocate (bytes "s"), .message)], none⟩,
      .observe (byte '1') []]
  have hready : ReadyAnswered [.send ⟨[(.prepare (bytes "s") (.unseen (bytes "s")), .message),
        (.deallocate (bytes "s"), .message)], none⟩, .observe (byte '1') []] := by
    intro before body after hsplit
    have hmem : .observe (byte 'Z') body ∈ before ++ .observe (byte 'Z') body :: after :=
      List.mem_append_right _ List.mem_cons_self
    rw [← hsplit] at hmem
    rcases List.mem_cons.mp hmem with hsend | hlast
    · cases hsend
    · have htag := (Call.observe.inj (List.mem_singleton.mp hlast)).1
      exact absurd htag (by decide)
  obtain ⟨names', hobserve, hlookup⟩ := herror hready []
  exact ⟨names, hrun, names', hobserve, hlookup⟩

end Calls

end Onecli.Postgres
