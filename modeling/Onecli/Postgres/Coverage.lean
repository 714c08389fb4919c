import Onecli.Postgres.Messages

/-!
# Judging at least as strictly

When the statements that the gateway tracks stand for those that the server holds: each is
classified at least as strictly, and runs the same statement by name where the server's runs one.
Then running a statement of the server's does nothing that the gateway did not judge. Changes keep
the two together, and so does the end of a batch that leaves changes unanswered, where no such
change makes a name run another statement by name.
-/

namespace Onecli.Postgres

open Function (update update_of_ne update_self)
open List Option

/-- One statement stands for another: it is judged at least as strictly and runs what that one
runs by name. -/
def Covered (server gateway : Prepared) : Prop :=
  server.classified.rank ≤ gateway.classified.rank ∧ (server.executes = none ∨ gateway.executes = server.executes)

/-- The statement that a name stands for. -/
def Statements.at (m : Statements) (name : Key) : Prepared := (m name).getD (.unseen name)

/-- The statements that the gateway tracks stand for those of the server. -/
def Covers (m s : Statements) : Prop :=
  ∀ name prepared, s name = some prepared → Covered prepared (Statements.at m name)

/-- Running a statement of the server's runs another: itself, or what one that it runs by name
runs. -/
inductive Reaches (s : Statements) : Prepared → Prepared → Prop where
  | refl (prepared : Prepared) : Reaches s prepared prepared
  | executes {prepared next last : Prepared} {name : Key} (hname : prepared.executes = some name)
    (hnext : s (key name) = some next) (hlast : Reaches s next last) : Reaches s prepared last

section Running

theorem Covered.refl (prepared : Prepared) : Covered prepared prepared := ⟨le_rfl, .inr rfl⟩

theorem View.rank_le_follow (v : View) (depth : ℕ) (classified : Classified) (next : Option Key) :
    classified.rank ≤ (v.follow depth classified next).rank := by
  induction depth generalizing classified next with
  | zero =>
    cases next with
    | none => exact le_rfl
    | some => exact classified.rank_le_combine_left _
  | succ depth ih =>
    cases next with
    | none => exact le_rfl
    | some => exact (classified.rank_le_combine_left _).trans (ih _ _)

/-- What a statement of the server's reaches was judged, as long as the chain was followed to its
end. -/
theorem Reaches.rank_le_follow {v : View} {s : Statements} (hcovers : Covers v.statements s)
    {prepared last : Prepared} (h : Reaches s prepared last) {gateway : Prepared}
    (hcov : Covered prepared gateway) (depth : ℕ) (classified : Classified)
    (hclass : gateway.classified.rank ≤ classified.rank)
    (hrefused : ¬ (v.follow depth classified gateway.executes).Refused) :
    last.classified.rank ≤ (v.follow depth classified gateway.executes).rank := by
  induction h generalizing gateway depth classified with
  | refl => exact (hcov.1.trans hclass).trans (v.rank_le_follow depth classified _)
  | @executes prepared next last name hname hnext _ ih =>
    have hsame : gateway.executes = some name := by
      rcases hcov.2 with hnone | hsame
      · rw [hname] at hnone
        cases hnone
      · exact hsame.trans hname
    rw [hsame] at hrefused ⊢
    have hcoverednext : Covered next (v.statement name) := hcovers _ _ hnext
    cases depth with
    | zero =>
      -- a chain longer than what is followed is refused
      exact absurd (classified.rank_le_combine_right (.forbidden reasonUncheckable)) hrefused
    | succ depth => exact ih hcoverednext depth _ (classified.rank_le_combine_right _) hrefused

theorem Reaches.rank_le_runs {v : View} {s : Statements} (hcovers : Covers v.statements s)
    {prepared last gateway : Prepared} (h : Reaches s prepared last)
    (hcov : Covered prepared gateway) (hrefused : ¬ (v.runs gateway).Refused) :
    last.classified.rank ≤ (v.runs gateway).rank :=
  h.rank_le_follow hcovers hcov _ _ le_rfl hrefused

end Running

section Changes

theorem Covers.effect {m s : Statements} (h : Covers m s) (change : Change) :
    Covers (change.effect m) (change.effect s) := by
  intro k prepared hk
  cases change with
  | prepare name new =>
    change update s name (some new) k = some prepared at hk
    obtain ⟨rfl, hnew⟩ | ⟨hname, hk⟩ := update_cases hk
    · obtain rfl := some.inj hnew
      change Covered new ((update m k (some new) k).getD (.unseen k))
      rw [update_self]
      exact .refl new
    · change Covered prepared ((update m name (some new) k).getD (.unseen k))
      rw [update_of_ne hname]
      exact h k prepared hk
  | deallocate name =>
    change update s name none k = some prepared at hk
    obtain ⟨-, hk⟩ | ⟨hname, hk⟩ := update_cases hk
    · cases hk
    · change Covered prepared ((update m name none k).getD (.unseen k))
      rw [update_of_ne hname]
      exact h k prepared hk
  | deallocateAll => cases hk
  | closePortal => exact h k prepared hk

/-- What a change that is sent recorded about a name: the statement before it, where the change
is one of that name. -/
def Before.recorded (before : Before) (name : Key) : Option (Option Prepared) :=
  match before with
  | .statement changed prepared => if changed = name then some prepared else none
  | .statements all => (all.lookup name).map some
  | .nothing => none

variable {before : Before} {m : Statements} {name : Key} {prepared : Option Prepared}
  {server : Prepared}

theorem Before.restore_of_not_recorded (h : before.recorded name = none) :
    before.restore m name = m name := by
  cases before with
  | statement changed prepared =>
    exact update_of_ne (fun hsame => nomatch (if_pos hsame.symm).symm.trans h) _ _
  | statements all =>
    change (all.lookup name).or (m name) = m name
    rw [map_eq_none_iff.mp h]
    rfl
  | nothing => rfl

theorem Before.restore_of_recorded (h : before.recorded name = some prepared) :
    before.restore m name = prepared := by
  cases before with
  | statement changed recorded =>
    change (if changed = name then some recorded else none) = some prepared at h
    obtain ⟨rfl, hsome⟩ := ite_none_right_eq_some.mp h
    cases hsome
    exact update_self _ _ _
  | statements all =>
    obtain ⟨found, hfound, rfl⟩ := map_eq_some_iff.mp h
    change (all.lookup name).or (m name) = some found
    rw [hfound]
    rfl
  | nothing => cases h

/-- The statements from before a `DISCARD ALL` are merged into those after it. -/
theorem Before.settle_statements (all : Table Key Prepared) (m : Statements) (name : Key) :
    (Before.statements all).settle m name = (all.lookup name).elim (m name) fun prepared =>
      some (merged name (m name) (some prepared)) := by
  unfold Before.settle
  cases hname : all.lookup name with
  | none => simp only [hname, elim_none]
  | some => simp only [hname, elim_some]

theorem Before.settle_of_not_recorded (h : before.recorded name = none) :
    before.settle m name = m name := by
  cases before with
  | statement changed prepared =>
    exact update_of_ne (fun hsame => nomatch (if_pos hsame.symm).symm.trans h) _ _
  | statements =>
    rw [settle_statements, map_eq_none_iff.mp h]
    rfl
  | nothing => rfl

theorem Before.settle_of_recorded (h : before.recorded name = some prepared) :
    before.settle m name = some (merged name (m name) prepared) := by
  cases before with
  | statement changed recorded =>
    change (if changed = name then some recorded else none) = some prepared at h
    obtain ⟨rfl, hsome⟩ := ite_none_right_eq_some.mp h
    cases hsome
    exact update_self _ _ _
  | statements =>
    obtain ⟨found, hfound, rfl⟩ := map_eq_some_iff.mp h
    rw [settle_statements, hfound]
    rfl
  | nothing => cases h

theorem merged_executes (name : Key) (after before : Option Prepared) :
    (merged name after before).executes =
      (after.getD (.unseen name)).executes.or (before.getD (.unseen name)).executes := rfl

theorem Covered.merged_after {after : Option Prepared} (before : Option Prepared)
    (h : Covered server (after.getD (.unseen name))) :
    Covered server (merged name after before) := by
  refine ⟨h.1.trans (Classified.rank_le_combine_left _ _), ?_⟩
  rcases h.2 with hnone | hsame
  · exact .inl hnone
  · cases hexecutes : server.executes with
    | none => exact .inl rfl
    | some =>
      rw [hexecutes] at hsame
      refine .inr ?_
      rw [merged_executes, hsame]
      rfl

/-- The merged statement stands for what the older one did, where the newer one does not run
another statement by name instead. -/
theorem Covered.merged_before (after : Option Prepared) {before : Option Prepared}
    (h : Covered server (before.getD (.unseen name)))
    (hafter : server.executes = none ∨ (after.getD (.unseen name)).executes = none ∨ (after.getD (.unseen name)).executes = server.executes) :
    Covered server (merged name after before) := by
  refine ⟨h.1.trans (Classified.rank_le_combine_right _ _), ?_⟩
  rcases h.2 with hnone | hsame
  · exact .inl hnone
  · rcases hafter with hnone | hnone | hafter
    · exact .inl hnone
    · refine .inr ?_
      rw [merged_executes, hnone]
      exact hsame
    · cases hexecutes : server.executes with
      | none => exact .inl rfl
      | some =>
        rw [hexecutes] at hafter
        refine .inr ?_
        rw [merged_executes, hafter]
        rfl

theorem Before.at_settle_of_not_recorded (h : before.recorded name = none) :
    Statements.at (before.settle m) name = Statements.at m name :=
  congrArg (Option.getD · _) (settle_of_not_recorded h)

theorem Before.at_settle_of_recorded (h : before.recorded name = some prepared) :
    Statements.at (before.settle m) name = merged name (m name) prepared := by
  unfold Statements.at
  rw [settle_of_recorded h]
  rfl

/-- The end of a batch that made none of its unanswered changes: a statement that the server still
holds is stood for, where the newest version sent for its name does not run another by name. -/
theorem Traced.covered_settle {m₀ m : Statements} {us : List Unconfirmed} (h : Traced m₀ us m)
    (hcov : Covered server (Statements.at m₀ name)) :
    ∀ x : Statements, (Covered server (Statements.at m name) → Covered server (Statements.at x name)) →
      (server.executes = none ∨ (Statements.at x name).executes = none ∨
        (Statements.at x name).executes = server.executes) →
      Covered server (Statements.at (us.foldl (fun m u => u.before.settle m) x) name) := by
  have hkept (x : Statements) (us : List Unconfirmed) (hx : Covered server (Statements.at x name)) :
      Covered server (Statements.at (us.foldl (fun m u => u.before.settle m) x) name) := by
    induction us generalizing x with
    | nil => exact hx
    | cons u us ih =>
      refine ih (u.before.settle x) ?_
      cases hrec : u.before.recorded name with
      | none =>
        rw [Before.at_settle_of_not_recorded hrec]
        exact hx
      | some before =>
        rw [Before.at_settle_of_recorded hrec]
        exact hx.merged_after before
  induction us generalizing m₀ with
  | nil =>
    obtain rfl : m = m₀ := h
    exact fun x hx _ => hx hcov
  | cons u us ih =>
    intro x hx hexecutes
    cases hrec : u.before.recorded name with
    | none =>
      have hsame : u.change.effect m₀ name = m₀ name := by
        rw [← Before.restore_of_not_recorded hrec (m := u.change.effect m₀)]
        exact congrFun h.1 name
      have hsettle := Before.at_settle_of_not_recorded hrec (m := x)
      refine ih h.2 ?_ (u.before.settle x) ?_ ?_
      · unfold Statements.at
        rw [hsame]
        exact hcov
      · rw [hsettle]
        exact hx
      · rw [hsettle]
        exact hexecutes
    | some before =>
      have hbefore : m₀ name = before := (congrFun h.1 name).symm.trans (Before.restore_of_recorded hrec)
      refine hkept _ us ?_
      rw [Before.at_settle_of_recorded hrec]
      unfold Statements.at at hcov
      rw [hbefore] at hcov
      exact Covered.merged_before (x name) hcov hexecutes

theorem foldlM_sendChange_traced {names : Names} (hbal : names.Balanced)
    (changes : List (Change × Via)) :
    ∃ names' us, changes.foldlM Names.sendChange names = some names' ∧ names'.Balanced ∧
      names'.unconfirmed = names.unconfirmed ++ us ∧ us.map (fun u => (u.change, u.via)) = changes ∧
      names'.unnamedPortal = names.unnamedPortal ∧
      names'.statements.lookup = changes.foldl (fun m c => c.1.effect m) names.statements.lookup ∧
      ∀ m₀ pending, Traced m₀ pending names.statements.lookup →
        Traced m₀ (pending ++ us) names'.statements.lookup := by
  induction changes generalizing names with
  | nil =>
    refine ⟨names, [], rfl, hbal, (append_nil _).symm, rfl, rfl, rfl, ?_⟩
    intro m₀ pending h
    rw [append_nil]
    exact h
  | cons change changes ih =>
    obtain ⟨applied, before, happly, hholds, hrest, hback⟩ := apply_spec (Holds.mk rfl hbal) change.1
    let u : Unconfirmed := ⟨change.1, change.2, before⟩
    have hfirst : names.sendChange change = some { applied with unconfirmed := applied.unconfirmed ++ [u] } := by
      unfold Names.sendChange
      rw [happly]
      rfl
    have hbalanced' : Names.Balanced { applied with unconfirmed := applied.unconfirmed ++ [u] } := hholds.balanced
    obtain ⟨names', us, hfold, hbalanced'', hunconf, hchanges, hportal, hlookup, htraced⟩ := ih hbalanced'
    refine ⟨names', u :: us, ?_, hbalanced'', ?_, ?_, hportal.trans hrest.unnamedPortal, ?_, ?_⟩
    · rw [foldlM_cons, hfirst]
      exact hfold
    · rw [hunconf]
      rw [hrest.unconfirmed, append_assoc]
      rfl
    · rw [map_cons, hchanges]
    · rw [hlookup]
      exact congrArg (List.foldl _ · _) hholds.lookup
    · intro m₀ pending h
      have hnext := htraced m₀ (pending ++ [u]) (by
        rw [hholds.lookup]
        exact h.append (u := u) hback)
      rw [append_assoc] at hnext
      exact hnext

end Changes

end Onecli.Postgres
