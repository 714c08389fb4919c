import Onecli.Agents.Settlements

/-!
# Every automation run settles once

What every run of the calls keeps of the settlements, where no statement closes a run that nobody is to settle and a
refusal finds its turn open: a run is settled once, after it has ended, and its automation counts the failures in
the order of the settlements, where two settlements of one automation do not read and write across each other.
-/

namespace Onecli.Agents.Turns

open Function (update update_of_ne update_self)
open List Option Bool Runs

section Worlds

/-- What holds of the settlements while every run that closes leaves one to make. -/
structure Tally (w : Calls.World Db Point) : Prop where
  due : ∀ j, (w.calls j).Due w.db
  nodup : ∀ j, (w.calls j).owes.Nodup
  /-- No two calls have the same settlement to make. -/
  apart : ∀ i j k, w.db.IsRun i → i ∈ (w.calls j).owes → i ∈ (w.calls k).owes → j = k
  owed : ∀ i j, w.db.IsRun i → i ∈ (w.calls j).owes → settlements w.db.log i = 0
  once : ∀ i, w.db.IsRun i → settlements w.db.log i ≤ 1
  known : ∀ i, settlements w.db.log i ≠ 0 → i < w.db.turns.length
  settled : ∀ (i : ℕ) (t : Turn), w.db.turns[i]? = some t →
    (w.db.conversations t.conversationId).automated = true → settlements w.db.log i ≠ 0 → t.status.terminal = true
  accounted : ∀ (i : ℕ) (t : Turn), w.db.turns[i]? = some t →
    (w.db.conversations t.conversationId).automated = true → t.status.terminal = true →
      settlements w.db.log i = 1 ∨ ∃ j, i ∈ (w.calls j).owes

variable {windows : Windows} {now : ℕ} {choice : Choice} {point point' : Point} {db db' : Db}

variable {turnId : ℕ} {i : ℕ}

/-- Who owes a settlement has an end. -/
theorem ends_of_owes (hdue : point.Due db) (howes : turnId ∈ point.owes) :
    ∃ conversation outcome, db.Ends turnId conversation outcome := by
  have hafter {after : After} (hdue : after.Due db) (howes : turnId ∈ after.owes) :
      ∃ conversation outcome, db.Ends turnId conversation outcome := by
    cases after with
    | settle conversation target outcome =>
      obtain rfl := mem_singleton.mp howes
      exact ⟨conversation, outcome, hdue⟩
    | _ => cases howes
  cases point with
  | sweepQueued target conversation =>
    obtain rfl := mem_singleton.mp howes
    exact ⟨conversation, .aborted, hdue⟩
  | promoteFlagged conversation after | promoteFind conversation after | promote target after => exact hafter hdue howes
  | settle conversation target outcome =>
    rcases mem_cons.mp howes with rfl | hrest
    · exact ⟨conversation, outcome, hdue.1⟩
    · obtain ⟨conversation, hends⟩ := hdue.2 turnId hrest
      exact ⟨conversation, .failed, hends⟩
  | bookRun conversation =>
    obtain ⟨conversation, hends⟩ := hdue turnId howes
    exact ⟨conversation, .failed, hends⟩
  | bookRefusal target message =>
    rw [Point.owes] at howes
    split at howes
    · obtain rfl := mem_singleton.mp howes
      exact ⟨message.conversation, .failed, hdue⟩
    · cases howes
  | _ => cases howes

theorem terminal_of_owes (hdue : point.Due db) (howes : turnId ∈ point.owes) {t : Turn}
    (hrow : db.turns[turnId]? = some t) (hautomated : (db.conversations t.conversationId).automated = true) :
    t.status.terminal = true := by
  obtain ⟨conversation, outcome, t', hrow', rfl, hstatus⟩ := ends_of_owes hdue howes
  cases hrow.symm.trans hrow'
  rw [hstatus hautomated]
  exact terminal_status outcome

theorem open_of_settling (hleaves : LeavesDue windows now choice point db) {t : Turn} (hrow : db.turns[i]? = some t)
    (hautomated : (db.conversations t.conversationId).automated = true)
    (hcloses : closes windows now db choice point i t = true) (hsettling : settling choice point i = true) :
    t.status.terminal = false := by
  have hactive (h : t.status.active = true) : t.status.terminal = false := by
    revert h
    cases t.status <;> decide
  cases choice with
  | proceed =>
    cases point with
    | abortQueued =>
      rw [beq_iff_eq.mp (and_eq_true_iff.mp hcloses).2]
      rfl
    | refuse turnId message =>
      obtain rfl := beq_iff_eq.mp (and_eq_true_iff.mp hsettling).1
      exact hleaves.refusal i message t rfl hrow hautomated
    | _ => exact absurd hsettling Bool.false_ne_true
  | finishTurn => exact hactive (active_of_finishes (and_eq_true_iff.mp hcloses).1 hrow hsettling)
  | reclaimStaleTurns => exact hactive (and_eq_true_iff.mp hcloses).1
  | failStalledTurns =>
    rw [beq_iff_eq.mp (and_eq_true_iff.mp hcloses).1]
    rfl
  | _ => exact absurd hsettling Bool.false_ne_true

theorem closes_of_ends (h : exec windows (now, choice) db point = some (db', point')) {t t' : Turn}
    (hgoes : Becomes windows now choice point db i t t') (hopen : t.status.terminal = false)
    (hended : t'.status.terminal = true) : closes windows now db choice point i t = true := by
  cases hgoes with
  | moves _ hmoves => exact hmoves.ends hopen hended
  | promoted => cases hended
  | refused message hpoint =>
    subst hpoint
    rcases exec_cases h with ⟨answer, rfl, -⟩ | ⟨hidle, -⟩
    · exact beq_self_eq_true i
    · cases hidle

/-- An old turn that is a run was one. -/
theorem isRun_of_old (hchanges : Changes windows now choice point db db')
    (hconvs : db'.conversations = db.conversations) (hold : i < db.turns.length) (hrun : db'.IsRun i) :
    db.IsRun i := by
  obtain ⟨t', hrow', hautomated⟩ := hrun
  obtain ⟨t'', hrow'', hgoes⟩ := hchanges.get (List.getElem?_eq_getElem hold)
  cases hrow'.symm.trans hrow''
  refine ⟨db.turns[i], List.getElem?_eq_getElem hold, ?_⟩
  rw [hgoes.kept.1, hconvs] at hautomated
  exact hautomated

section

variable (h : exec windows (now, choice) db point = some (db', point'))
include h

theorem ended_cases {t' : Turn} (hrow' : db'.turns[i]? = some t')
    (hautomated : (db'.conversations t'.conversationId).automated = true) (hended : t'.status.terminal = true) : ∃ t,
    db.turns[i]? = some t ∧ (db.conversations t.conversationId).automated = true ∧
    (t.status.terminal = true ∨ (t.status.terminal = false ∧ closes windows now db choice point i t = true)) := by
  rw [exec_conversations h] at hautomated
  rcases (exec_changes h).back hrow' with ⟨t, hrow, hgoes⟩ | ⟨message, target, -, -, rfl⟩ | ⟨message, door, -, -, -, rfl⟩
  · refine ⟨t, hrow, hgoes.kept.1 ▸ hautomated, ?_⟩
    by_cases hterm : t.status.terminal = true
    · exact .inl hterm
    · have hopen := (not_eq_true _).mp hterm
      exact .inr ⟨hopen, closes_of_ends h hgoes hopen hended⟩
  · cases hended
  · cases hended

/-- A statement leaves due what it owes. -/
theorem exec_due (hleaves : LeavesDue windows now choice point db) (hdue : point.Due db) : point'.Due db' := by
  have hchanges := exec_changes h
  have hconvs := exec_conversations h
  rcases exec_cases h with ⟨answer, rfl, hproceed⟩ | ⟨rfl, hbegin⟩
  · exact proceed_due hproceed hchanges hleaves hconvs hdue
  · exact begin_due hbegin

theorem exec_dues (hdue : point.Due db) : Dues windows now choice point point' db db' := by
  rcases exec_cases h with ⟨answer, rfl, hproceed⟩ | ⟨rfl, hbegin⟩
  · refine proceed_dues hproceed fun turnId message hpoint => ?_
    subst hpoint
    obtain ⟨t, hrow, -⟩ := hdue
    exact ⟨t, hrow⟩
  · exact begin_dues hbegin

end

theorem length_le (hchanges : Changes windows now choice point db db') (hold : i < db.turns.length) :
    i < db'.turns.length := by
  obtain ⟨t', hrow', -⟩ := hchanges.get (List.getElem?_eq_getElem hold)
  exact (List.getElem?_eq_some_iff.mp hrow').1

variable {w : Calls.World Db Point} {n : ℕ}

section

variable (htally : Tally w)
include htally

section

variable (hchanges : Changes windows now choice point w.db db') (hconvs : db'.conversations = w.db.conversations)
include hchanges hconvs

theorem Tally.keeps_settled (hleaves : LeavesDue windows now choice point w.db) {t' : Turn}
    (hrow' : db'.turns[i]? = some t') (hautomated : (db'.conversations t'.conversationId).automated = true)
    (hsettled : settlements w.db.log i ≠ 0) : t'.status.terminal = true := by
  obtain ⟨t, hrow⟩ : ∃ t, w.db.turns[i]? = some t := ⟨_, List.getElem?_eq_getElem (htally.known i hsettled)⟩
  obtain ⟨t'', hrow'', hgoes⟩ := hchanges.get hrow
  cases hrow'.symm.trans hrow''
  have hrun : (w.db.conversations t.conversationId).automated = true := by
    rw [← hgoes.kept.1, ← hconvs]
    exact hautomated
  have hterm := htally.settled i t hrow hrun hsettled
  rw [hgoes.ended hleaves hrow hrun hterm]
  exact hterm

theorem Tally.run_of_owes {i j : ℕ} (hrun : db'.IsRun i) (howes : i ∈ (w.calls j).owes) : w.db.IsRun i := by
  obtain ⟨conversation, outcome, t, hrow, -⟩ := ends_of_owes (htally.due j) howes
  exact isRun_of_old hchanges hconvs (List.getElem?_eq_some_iff.mp hrow).1 hrun

end

section

variable (h : exec windows (now, choice) w.db (w.calls n) = some (db', point'))
include h

theorem Tally.keeps (hleaves : LeavesDue windows now choice (w.calls n) w.db)
    (hdue : ∀ j, (update w.calls n point' j).Due db') (howes : point'.owes = (w.calls n).owes)
    (hlog : ∀ i, settlements db'.log i = settlements w.db.log i)
    (hcloses : ∀ (i : ℕ) (t : Turn), w.db.turns[i]? = some t → closes windows now w.db choice (w.calls n) i t = true →
    settling choice (w.calls n) i = false) : Tally ⟨db', update w.calls n point'⟩ := by
  have hchanges := exec_changes h
  have hconvs := exec_conversations h
  have hsame (j : ℕ) : (update w.calls n point' j).owes = (w.calls j).owes := update_keeps Point.owes howes j
  refine ⟨hdue, fun j => ?_, fun i j k hrun hj hk => ?_, fun i j hrun hj => ?_, fun i hrun => ?_, fun i hsettled => ?_,
    fun i t' hrow' hautomated hsettled => ?_, fun i t' hrow' hautomated hended => ?_⟩
  · rw [hsame]
    exact htally.nodup j
  · rw [hsame] at hj hk
    exact htally.apart i j k (htally.run_of_owes hchanges hconvs hrun hj) hj hk
  · rw [hsame] at hj
    rw [hlog]
    exact htally.owed i j (htally.run_of_owes hchanges hconvs hrun hj) hj
  · rw [hlog]
    by_cases hzero : settlements w.db.log i = 0
    · omega
    · exact htally.once i (isRun_of_old hchanges hconvs (htally.known i hzero) hrun)
  · rw [hlog] at hsettled
    exact length_le hchanges (htally.known i hsettled)
  · rw [hlog] at hsettled
    exact htally.keeps_settled hchanges hconvs hleaves hrow' hautomated hsettled
  · obtain ⟨t, hrow, hautomated, hterm | ⟨-, hclosed⟩⟩ := ended_cases h hrow' hautomated hended
    · rw [hlog]
      refine (htally.accounted i t hrow hautomated hterm).imp_right ?_
      rintro ⟨j, hj⟩
      refine ⟨j, ?_⟩
      rw [hsame]
      exact hj
    · have hsettling := hleaves.closing i t hrow hautomated hclosed
      rw [hcloses i t hrow hclosed] at hsettling
      cases hsettling

theorem Tally.settles (hdue : ∀ j, (update w.calls n point' j).Due db')
    (howes : (w.calls n).owes = turnId :: point'.owes) (hturns : db'.turns = w.db.turns)
    (hlog : ∀ i, settlements db'.log i = settlements w.db.log i + if i = turnId then 1 else 0) : Tally
    ⟨db', update w.calls n point'⟩ := by
  have hconvs := exec_conversations h
  have howed : turnId ∈ (w.calls n).owes := by
    rw [howes]
    exact mem_cons_self
  have hnodup : turnId ∉ point'.owes ∧ point'.owes.Nodup := by
    have hall := htally.nodup n
    rw [howes] at hall
    exact nodup_cons.mp hall
  have hfewer {i j : ℕ} (hj : i ∈ (update w.calls n point' j).owes) : i ∈ (w.calls j).owes := by
    obtain ⟨rfl, hmem⟩ | ⟨-, hmem⟩ := update_holds (i ∈ Point.owes ·) hj
    · exact howes ▸ mem_cons_of_mem turnId hmem
    · exact hmem
  have hrunOf {i : ℕ} (hrun : db'.IsRun i) : w.db.IsRun i := by
    obtain ⟨t, hrow, hautomated⟩ := hrun
    rw [hturns] at hrow
    rw [hconvs] at hautomated
    exact ⟨t, hrow, hautomated⟩
  have hother {i j : ℕ} (hrun : w.db.IsRun i) (hj : i ∈ (update w.calls n point' j).owes) : i ≠ turnId := by
    rintro rfl
    by_cases heq : j = n
    · rw [heq, update_self] at hj
      exact hnodup.1 hj
    · exact heq (htally.apart i j n hrun (hfewer hj) howed)
  have hterm {t : Turn} (hrow : w.db.turns[turnId]? = some t)
      (hautomated : (w.db.conversations t.conversationId).automated = true) : t.status.terminal = true :=
    terminal_of_owes (htally.due n) howed hrow hautomated
  refine ⟨hdue, fun j => ?_, fun i j k hrun hj hk => ?_, fun i j hrun hj => ?_, fun i hrun => ?_, fun i hsettled => ?_,
    fun i t hrow hautomated hsettled => ?_, fun i t hrow hautomated hended => ?_⟩
  · by_cases heq : j = n
    · rw [heq]
      change (update w.calls n point' n).owes.Nodup
      rw [update_self]
      exact hnodup.2
    · change (update w.calls n point' j).owes.Nodup
      rw [update_of_ne heq]
      exact htally.nodup j
  · exact htally.apart i j k (hrunOf hrun) (hfewer hj) (hfewer hk)
  · have hold := htally.owed i j (hrunOf hrun) (hfewer hj)
    rw [hlog, hold, if_neg (hother (hrunOf hrun) hj)]
  · rw [hlog]
    by_cases heq : i = turnId
    · have hnone := htally.owed turnId n (heq ▸ hrunOf hrun) howed
      rw [if_pos heq, heq]
      omega
    · rw [if_neg heq]
      exact htally.once i (hrunOf hrun)
  · rw [hturns]
    by_cases heq : i = turnId
    · obtain ⟨conversation, outcome, t, hrow, -⟩ := ends_of_owes (htally.due n) howed
      rw [heq]
      exact (List.getElem?_eq_some_iff.mp hrow).1
    · rw [hlog, if_neg heq] at hsettled
      exact htally.known i hsettled
  · rw [hturns] at hrow
    rw [hconvs] at hautomated
    by_cases heq : i = turnId
    · subst heq
      exact hterm hrow hautomated
    · rw [hlog, if_neg heq] at hsettled
      exact htally.settled i t hrow hautomated hsettled
  · rw [hturns] at hrow
    rw [hconvs] at hautomated
    have hrun : w.db.IsRun i := ⟨t, hrow, hautomated⟩
    by_cases heq : i = turnId
    · subst heq
      refine .inl ?_
      rw [hlog, if_pos rfl, htally.owed i n hrun howed]
    · rw [hlog, if_neg heq]
      refine (htally.accounted i t hrow hautomated hended).imp_right ?_
      rintro ⟨j, hj⟩
      refine ⟨j, ?_⟩
      change i ∈ (update w.calls n point' j).owes
      by_cases hn : j = n
      · rw [hn, howes] at hj
        rw [hn, update_self]
        exact (mem_cons.mp hj).resolve_left heq
      · rwa [update_of_ne hn]

theorem Tally.closes (hleaves : LeavesDue windows now choice (w.calls n) w.db)
    (hdue : ∀ j, (update w.calls n point' j).Due db') (hnone : (w.calls n).owes = []) (hnodup : point'.owes.Nodup)
    (hlog : ∀ i, settlements db'.log i = settlements w.db.log i)
    (howes : ∀ i, i ∈ point'.owes ↔ ∃ t, w.db.turns[i]? = some t ∧ Turns.closes windows now w.db choice (w.calls n) i
    t = true ∧ settling choice (w.calls n) i = true) : Tally ⟨db', update w.calls n point'⟩ := by
  have hchanges := exec_changes h
  have hconvs := exec_conversations h
  have hcases {i j : ℕ} (hj : i ∈ (update w.calls n point' j).owes) :
      (j = n ∧ i ∈ point'.owes) ∨ (j ≠ n ∧ i ∈ (w.calls j).owes) := by
    exact update_holds (i ∈ Point.owes ·) hj
  -- a run that the statement closes was open
  have hopen {i : ℕ} (hi : i ∈ point'.owes) (hrun : w.db.IsRun i) :
      ∃ t, w.db.turns[i]? = some t ∧ (w.db.conversations t.conversationId).automated = true ∧
        t.status.terminal = false := by
    obtain ⟨t, hrow, hclosed, hsettling⟩ := (howes i).mp hi
    obtain ⟨t', hrow', hautomated⟩ := hrun
    cases hrow.symm.trans hrow'
    exact ⟨t, hrow, hautomated, open_of_settling hleaves hrow hautomated hclosed hsettling⟩
  have hrunOf {i : ℕ} (hrun : db'.IsRun i) (hi : i ∈ point'.owes) : w.db.IsRun i := by
    obtain ⟨t, hrow, -⟩ := (howes i).mp hi
    exact isRun_of_old hchanges hconvs (List.getElem?_eq_some_iff.mp hrow).1 hrun
  have hfresh {i k : ℕ} (hrun : w.db.IsRun i) (hi : i ∈ point'.owes) (hk : i ∈ (w.calls k).owes) : False := by
    obtain ⟨t, hrow, hautomated, hstatus⟩ := hopen hi hrun
    rw [terminal_of_owes (htally.due k) hk hrow hautomated] at hstatus
    cases hstatus
  refine ⟨hdue, fun j => ?_, fun i j k hrun hj hk => ?_, fun i j hrun hj => ?_, fun i hrun => ?_, fun i hsettled => ?_,
    fun i t' hrow' hautomated hsettled => ?_, fun i t' hrow' hautomated hended => ?_⟩
  · change (update w.calls n point' j).owes.Nodup
    by_cases heq : j = n
    · rw [heq, update_self]
      exact hnodup
    · rw [update_of_ne heq]
      exact htally.nodup j
  · rcases hcases hj with ⟨hjn, hi⟩ | ⟨-, hold⟩
    · rcases hcases hk with ⟨hkn, -⟩ | ⟨-, hold⟩
      · exact hjn.trans hkn.symm
      · exact (hfresh (hrunOf hrun hi) hi hold).elim
    · have hrunBefore := htally.run_of_owes hchanges hconvs hrun hold
      rcases hcases hk with ⟨-, hi⟩ | ⟨-, hold'⟩
      · exact (hfresh hrunBefore hi hold).elim
      · exact htally.apart i j k hrunBefore hold hold'
  · rw [hlog]
    rcases hcases hj with ⟨-, hi⟩ | ⟨-, hold⟩
    · obtain ⟨t, hrow, hautomated, hstatus⟩ := hopen hi (hrunOf hrun hi)
      by_contra hsettled
      rw [htally.settled i t hrow hautomated hsettled] at hstatus
      cases hstatus
    · exact htally.owed i j (htally.run_of_owes hchanges hconvs hrun hold) hold
  · rw [hlog]
    by_cases hzero : settlements w.db.log i = 0
    · omega
    · exact htally.once i (isRun_of_old hchanges hconvs (htally.known i hzero) hrun)
  · rw [hlog] at hsettled
    exact length_le hchanges (htally.known i hsettled)
  · rw [hlog] at hsettled
    exact htally.keeps_settled hchanges hconvs hleaves hrow' hautomated hsettled
  · rw [hlog]
    obtain ⟨t, hrow, hautomated, hterm | ⟨-, hclosed⟩⟩ := ended_cases h hrow' hautomated hended
    · refine (htally.accounted i t hrow hautomated hterm).imp_right ?_
      rintro ⟨j, hj⟩
      refine ⟨j, ?_⟩
      change i ∈ (update w.calls n point' j).owes
      by_cases heq : j = n
      · rw [heq, hnone] at hj
        cases hj
      · rwa [update_of_ne heq]
    · refine .inr ⟨n, ?_⟩
      change i ∈ (update w.calls n point' n).owes
      rw [update_self]
      exact (howes i).mpr ⟨t, hrow, hclosed, hleaves.closing i t hrow hautomated hclosed⟩

/-- A statement keeps the tally of runs. -/
theorem Tally.step (hleaves : LeavesDue windows now choice (w.calls n) w.db) : Tally ⟨db', update w.calls n point'⟩ := by
  have hchanges := exec_changes h
  have hconvs := exec_conversations h
  have hdue (j : ℕ) : (update w.calls n point' j).Due db' := by
    by_cases hj : j = n
    · rw [hj, update_self]
      exact exec_due h hleaves (htally.due n)
    · rw [update_of_ne hj]
      exact hchanges.due hleaves hconvs (htally.due j)
  cases exec_dues h (htally.due n) with
  | keeps howes hlog hcloses => exact htally.keeps h hleaves hdue howes hlog hcloses
  | settles turnId howes hturns hlog => exact htally.settles h hdue howes hturns hlog
  | closes hnone hnodup hlog howes => exact htally.closes h hleaves hdue hnone hnodup hlog howes

end

end

end Worlds

section Streaks

/-- How a run of the conversation ended that an event settles. -/
def Db.settledIn (db : Db) (conversation : ℕ) (event : Event) : Option TurnStatus :=
  (event.settlesTurn.bind (db.turns[·]?)).bind fun t =>
    if t.conversationId = conversation then some t.status else none

/-- The failed runs since the last that was done; a stopped one counts for neither. -/
def Db.streak (db : Db) (conversation : ℕ) : List Event → ℕ
  | [] => 0
  | event :: log =>
    match db.settledIn conversation event with
    | some .done => 0
    | some .failed => db.streak conversation log + 1
    | _ => db.streak conversation log

/-- The streak has reached the threshold at some settlement. -/
def Db.tripped (db : Db) (conversation : ℕ) : List Event → Bool
  | [] => false
  | event :: log =>
    decide (failureDisableThreshold ≤ db.streak conversation (event :: log)) || db.tripped conversation log

/-- An automation counts its streak, and was turned off when that reached the threshold. -/
def Db.Counts (db : Db) (conversation : ℕ) (log : List Event) (row : Automation) : Prop :=
  row.consecutiveFailures = db.streak conversation log ∧ row.enabled = !db.tripped conversation log

/-- The outcome that a call has read a streak for, and the streak, when that outcome counts. -/
def Point.booksRun : Point → ℕ → Option (TurnOutcome × ℕ)
  | .bookRun conversation _ outcome priorFailures _, other =>
    if conversation = other ∧ outcome ≠ .aborted then some (outcome, priorFailures) else none
  | _, _ => none

variable {windows : Windows} {now : ℕ} {choice : Choice} {point point' : Point} {db db' : Db} {conversation : ℕ}
  {log : List Event} {event : Event} {row row' : Automation}

theorem tripped_of_le (h : failureDisableThreshold ≤ db.streak conversation log) : db.tripped conversation log = true := by
  cases log with
  | nil =>
    have hle : failureDisableThreshold ≤ 0 := h
    exact absurd hle (by decide)
  | cons =>
    rw [Db.tripped, decide_eq_true h]
    rfl

theorem streak_congr (h : ∀ event ∈ log, db'.settledIn conversation event = db.settledIn conversation event) :
    db'.streak conversation log = db.streak conversation log ∧
      db'.tripped conversation log = db.tripped conversation log := by
  induction log with
  | nil => exact ⟨rfl, rfl⟩
  | cons event log ih =>
    obtain ⟨hstreak, htripped⟩ := ih fun other hmem => h other (mem_cons_of_mem event hmem)
    have hcons : db'.streak conversation (event :: log) = db.streak conversation (event :: log) := by
      rw [Db.streak, Db.streak, h event mem_cons_self, hstreak]
    refine ⟨hcons, ?_⟩
    rw [Db.tripped, Db.tripped, hcons, htripped]

theorem counts_skip (hevent : db.settledIn conversation event = none ∨ db.settledIn conversation event = some .aborted)
    (hcounts : db.Counts conversation log row) : db.Counts conversation (event :: log) row := by
  obtain ⟨hfailures, henabled⟩ := hcounts
  have hstreak : db.streak conversation (event :: log) = db.streak conversation log := by
    rw [Db.streak]
    rcases hevent with h | h <;> rw [h]
  refine ⟨hfailures.trans hstreak.symm, ?_⟩
  rw [henabled, Db.tripped, hstreak]
  by_cases hle : failureDisableThreshold ≤ db.streak conversation log
  · rw [tripped_of_le hle, Bool.or_true]
  · rw [decide_eq_false hle, Bool.false_or]

theorem counts_append {new : List Event} (hnew : ∀ event ∈ new, event.settlesTurn = none)
    (hcounts : db.Counts conversation log row) : db.Counts conversation (new ++ log) row := by
  induction new with
  | nil => exact hcounts
  | cons event new ih =>
    refine counts_skip (.inl ?_) (ih fun other hmem => hnew other (mem_cons_of_mem event hmem))
    rw [Db.settledIn, hnew event mem_cons_self]
    rfl

variable {outcome : TurnOutcome}

theorem counts_book (source : TurnSource) (hne : outcome ≠ .aborted)
    (hevent : db.settledIn conversation event = some outcome.status) (hcounts : db.Counts conversation log row) :
    db.Counts conversation (event :: log) (row.book source outcome row.consecutiveFailures) := by
  obtain ⟨hfailures, henabled⟩ := hcounts
  cases outcome with
  | done =>
    have hstreak : db.streak conversation (event :: log) = 0 := by
      rw [Db.streak, hevent]
      rfl
    refine ⟨hstreak.symm, ?_⟩
    rw [Db.tripped, hstreak]
    exact henabled
  | failed =>
    have hstreak : db.streak conversation (event :: log) = db.streak conversation log + 1 := by
      rw [Db.streak, hevent]
      rfl
    refine ⟨(congrArg (· + 1) hfailures).trans hstreak.symm, ?_⟩
    rw [Db.tripped, hstreak, ← hfailures]
    change (row.enabled && decide (row.consecutiveFailures + 1 < failureDisableThreshold)) = _
    rw [henabled]
    by_cases hle : failureDisableThreshold ≤ row.consecutiveFailures + 1
    · rw [decide_eq_true hle, decide_eq_false (Nat.not_lt.mpr hle), Bool.and_false]
      rfl
    · rw [decide_eq_false hle, decide_eq_true (Nat.not_le.mp hle), Bool.and_true, Bool.false_or]
  | aborted => exact absurd rfl hne

theorem counts_of_eq (hfailures : row'.consecutiveFailures = row.consecutiveFailures)
    (henabled : row'.enabled = row.enabled) (hcounts : db.Counts conversation log row) :
    db.Counts conversation log row' :=
  ⟨hfailures.trans hcounts.1, henabled.trans hcounts.2⟩

/-- What a statement does to the counts of the automations. -/
inductive Books (point point' : Point) (db db' : Db) : Prop
  /-- It settles nothing and writes no count. -/
  | keeps (new : List Event) (hautomations : db'.automations = db.automations)
      (hold : ∀ c, point.booksRun c = none) (hnew : ∀ c, point'.booksRun c = none) (hlog : db'.log = new ++ db.log)
      (hsettles : ∀ event ∈ new, event.settlesTurn = none)
  /-- It settles a run, and reads the count that it will be booked on. -/
  | reads (conversation turnId : ℕ) (outcome : TurnOutcome) (event : Event)
      (hpoint : (∃ rest, point = .settle conversation turnId outcome rest) ∨
        ∃ message, point = .bookRefusal turnId message ∧ message.books = true ∧ message.conversation = conversation ∧
          outcome = .failed)
      (hevent : event.settlesTurn = some turnId) (hturns : db'.turns = db.turns) (hlog : db'.log = event :: db.log)
      (hautomations : db'.automations = db.automations)
      (hnew : ∀ row, (db.conversations conversation).automated = true → db.automations conversation = some row →
        outcome ≠ .aborted → point'.booksRun conversation = some (outcome, row.consecutiveFailures))
      (hskip : outcome = .aborted → ∀ c, point'.booksRun c = none) (hother : ∀ c ≠ conversation, point'.booksRun c = none)
  /-- It books a run on the count that was read. -/
  | writes (conversation turnId : ℕ) (outcome : TurnOutcome) (priorFailures : ℕ) (rest : List ℕ)
      (hpoint : point = .bookRun conversation turnId outcome priorFailures rest)
      (hdb : db' = db.bookRun conversation outcome priorFailures) (hnew : ∀ c, point'.booksRun c = none)
  /-- It books a refusal on the count that the door has read. -/
  | refuses (turnId : ℕ) (message : Message) (failures : ℕ) (hpoint : point = .bookRefusal turnId message)
      (hprior : message.priorFailures = some failures)
      (hdb : db' = (db.bookRun message.conversation .failed failures).note [.booked turnId])
      (hnew : ∀ c, point'.booksRun c = none)

theorem booksRun_next (promoted : Bool) (after : After) (c : ℕ) : (after.next promoted).booksRun c = none := by
  cases after with
  | send => cases promoted <;> rfl
  | _ => rfl

theorem booksRun_settleSweptTurns (db : Db) (turnIds : List ℕ) (c : ℕ) :
    (settleSweptTurns db turnIds).booksRun c = none := by
  cases turnIds <;> rfl

theorem booksRun_afterStrand (event : RunnerEvent) (c : ℕ) : event.afterStrand.booksRun c = none := by
  rw [RunnerEvent.afterStrand]
  split
  · split <;> rfl
  · rfl

theorem booksRun_abortArm (turnId attempt : ℕ) (row : Option Turn) (c : ℕ) :
    (abortArm turnId attempt row).booksRun c = none := by
  cases row with
  | none => rfl
  | some t =>
    rw [abortArm]
    cases t.status <;> rfl

theorem books_keeps (hautos : db'.automations = db.automations) (hold : ∀ c, point.booksRun c = none)
    (hnew : ∀ c, point'.booksRun c = none) (hlog : db'.log = db.log) : Books point point' db db' :=
  .keeps [] hautos hold hnew hlog nofun

theorem books_note (event : Event) (hevent : event.settlesTurn = none) (hautos : db'.automations = db.automations)
    (hold : ∀ c, point.booksRun c = none) (hnew : ∀ c, point'.booksRun c = none)
    (hlog : db'.log = event :: db.log) : Books point point' db db' := by
  refine .keeps [event] hautos hold hnew hlog fun other hmem => ?_
  rw [mem_singleton.mp hmem]
  exact hevent

theorem proceed_books {answer : Answer} (h : proceed now answer db point = some (db', point')) :
    Books point point' db db' := by
  cases point with
  | idle => cases h
  | abort turnId attempt =>
    cases h
    refine books_keeps rfl (fun _ => rfl) (fun c => ?_) rfl
    split
    · exact booksRun_abortArm turnId attempt _ c
    · rfl
  | abortJoining turnId attempt | abortQueued turnId conversation attempt =>
    simp only [proceed, Option.some.injEq] at h
    split at h <;> cases h <;> exact books_keeps rfl (fun _ => rfl) (fun _ => rfl) rfl
  | flag turnId =>
    cases h
    exact books_note (.flagged turnId) rfl rfl (fun _ => rfl) (fun _ => rfl) rfl
  | flagDelivered turnId =>
    cases h
    exact books_note (.stopped turnId) rfl rfl (fun _ => rfl) (fun _ => rfl) rfl
  | promoteFind conversation after =>
    simp only [proceed] at h
    split at h
    · cases h
      exact books_keeps rfl (fun _ => rfl) (booksRun_next false after) rfl
    · split at h <;> cases h
      exact books_keeps rfl (fun _ => rfl) (fun _ => rfl) rfl
  | promote turnId after =>
    simp only [proceed, Option.some.injEq] at h
    split at h <;> cases h
    · exact books_note (.promoted turnId) rfl rfl (fun _ => rfl) (booksRun_next true after) rfl
    · exact books_keeps rfl (fun _ => rfl) (booksRun_next false after) rfl
  | send =>
    cases h
    refine books_keeps rfl (fun _ => rfl) (fun c => ?_) rfl
    split
    · rfl
    · split <;> rfl
  | sendPromoted message attempt | count message target | stillActive conversation target
  | blocker turnId message | waitedOut reporter =>
    cases h
    refine books_keeps rfl (fun _ => rfl) (fun c => ?_) rfl
    split <;> rfl
  | createTurn message door =>
    simp only [proceed, Option.some.injEq] at h
    split at h <;> cases h
    · cases door <;> exact books_keeps rfl (fun _ => rfl) (fun _ => rfl) rfl
    · exact books_keeps rfl (fun _ => rfl) (fun _ => rfl) rfl
  | bookRefusal turnId message =>
    simp only [proceed, Option.some.injEq] at h
    split at h
    · rename_i failures hprior
      cases h
      exact .refuses turnId message failures rfl hprior rfl fun _ => rfl
    · split at h <;> cases h
      · rename_i hcron
        have hbooks : message.books = true := by
          rw [Message.books, hcron]
          exact Bool.or_true _
        refine .reads message.conversation turnId .failed (.booked turnId)
          (.inr ⟨message, rfl, hbooks, rfl, rfl⟩) rfl rfl rfl rfl (fun row _ hrow _ => ?_) (by simp) fun c hc => ?_
        · rw [hrow]
          exact if_pos ⟨rfl, by simp⟩
        · split
          · exact if_neg fun h => hc h.1.symm
          · rfl
      · exact books_keeps rfl (fun _ => rfl) (fun _ => rfl) rfl
  | strand event =>
    cases h
    refine books_keeps rfl (fun _ => rfl) (fun c => ?_) rfl
    split
    · rfl
    · exact booksRun_afterStrand event c
  | wake event =>
    cases h
    refine books_keeps ?_ (fun _ => rfl) (booksRun_afterStrand event) ?_ <;> split <;> rfl
  | settle conversation turnId outcome rest =>
    cases h
    refine .reads conversation turnId outcome (.settled turnId) (.inl ⟨rest, rfl⟩) rfl rfl rfl rfl
      (fun row hautomated hrow hne => ?_) (fun habort c => ?_) fun c hc => ?_
    · rw [hrow, filter_some, if_pos hautomated]
      exact if_pos ⟨rfl, hne⟩
    · split
      · exact if_neg fun h => h.2 habort
      · exact booksRun_settleSweptTurns db rest c
    · split
      · exact if_neg fun h => hc h.1.symm
      · exact booksRun_settleSweptTurns db rest c
  | bookRun conversation turnId outcome prior rest =>
    cases h
    exact .writes conversation turnId outcome prior rest rfl rfl (booksRun_settleSweptTurns db rest)
  | _ =>
    cases h
    exact books_keeps rfl (fun _ => rfl) (fun _ => rfl) rfl

theorem begin_books (h : begin windows now db choice = some (db', point')) : Books .idle point' db db' := by
  cases choice with
  | proceed => cases h
  | receiveWebhook =>
    simp only [begin] at h
    split at h <;> cases h <;> exact books_keeps rfl (fun _ => rfl) (fun _ => rfl) rfl
  | finishTurn report =>
    have hpair := some.inj h
    rcases finishTurn_cases now report with ⟨-, change, -, h⟩ | ⟨-, h⟩ | ⟨-, h⟩ <;> cases h.symm.trans hpair
    · exact books_keeps rfl (fun _ => rfl) (fun _ => rfl) rfl
    · rw [closeTurn]
      refine books_keeps ?_ (fun _ => rfl) (fun _ => rfl) ?_ <;> split <;> rfl
    · exact books_keeps rfl (fun _ => rfl) (fun _ => rfl) rfl
  | applyTurnEvents =>
    cases h
    rw [applyTurnEvents]
    refine books_keeps ?_ (fun _ => rfl) (fun _ => rfl) ?_ <;> split <;> rfl
  | applyTurnProgress =>
    cases h
    rw [applyTurnProgress]
    refine books_keeps ?_ (fun _ => rfl) (fun _ => rfl) ?_ <;> split <;> rfl
  | applyRunnerEvent =>
    simp only [begin, Option.some.injEq] at h
    split at h <;> cases h
    · refine books_keeps rfl (fun _ => rfl) (fun c => ?_) rfl
      split <;> rfl
    · exact books_keeps rfl (fun _ => rfl) (fun _ => rfl) rfl
  | requestSandboxRespawn =>
    cases h
    simp only [requestSandboxRespawn]
    refine books_keeps ?_ (fun _ => rfl) (fun _ => rfl) ?_ <;> split <;> rfl
  | parkUnstartableClaim =>
    cases h
    simp only [parkUnstartableClaim]
    refine books_keeps ?_ (fun _ => rfl) (fun _ => rfl) ?_ <;> split <;> rfl
  | claimDueWork =>
    cases h
    refine .keeps _ rfl (fun _ => rfl) (fun _ => rfl) (append_assoc _ _ _).symm fun event hmem => ?_
    rcases mem_append.mp hmem with hhanded | hsteer
    · obtain ⟨_, -, rfl⟩ := List.mem_map.mp hhanded
      rfl
    · obtain ⟨_, -, rfl⟩ := List.mem_map.mp hsteer
      rfl
  | reclaimStaleTurns | failStalledTurns =>
    cases h
    exact books_keeps rfl (fun _ => rfl) (booksRun_settleSweptTurns db _) rfl
  | _ =>
    cases h
    exact books_keeps rfl (fun _ => rfl) (fun _ => rfl) rfl

theorem exec_books (h : exec windows (now, choice) db point = some (db', point')) : Books point point' db db' := by
  rcases exec_cases h with ⟨answer, rfl, hproceed⟩ | ⟨rfl, hbegin⟩
  · exact proceed_books hproceed
  · exact begin_books hbegin

/-- A statement reads a count only while no other call is about to write it. -/
structure BooksApart (w : Calls.World Db Point) (point : Point) : Prop where
  settle : ∀ conversation turnId outcome rest, point = .settle conversation turnId outcome rest →
    (w.db.conversations conversation).automated = true → outcome ≠ .aborted →
      ∀ j, (w.calls j).booksRun conversation = none
  /-- A refusal is booked while the count is what its door has read. -/
  refusal : ∀ (turnId : ℕ) (message : Message), point = .bookRefusal turnId message → message.books = true →
    (w.db.conversations message.conversation).automated = true →
      (∀ j, (w.calls j).booksRun message.conversation = none) ∧
        ∀ failures row, message.priorFailures = some failures → w.db.automations message.conversation = some row →
          row.consecutiveFailures = failures

/-- The automation of a conversation counts its runs, or will when the call that read the count has written it. -/
structure Counted (w : Calls.World Db Point) (conversation : ℕ) : Prop where
  one : ∀ j k, (w.calls j).booksRun conversation ≠ none → (w.calls k).booksRun conversation ≠ none → j = k
  counts : ∀ row, w.db.automations conversation = some row → (∀ j, (w.calls j).booksRun conversation = none) →
    w.db.Counts conversation w.db.log row
  pending : ∀ row j outcome priorFailures, w.db.automations conversation = some row →
    (w.calls j).booksRun conversation = some (outcome, priorFailures) →
      w.db.Counts conversation w.db.log
        (row.book (w.db.conversations conversation).source outcome priorFailures)

variable {w : Calls.World Db Point} {n : ℕ}

section

variable (htally : Tally w) (hchanges : Changes windows now choice point w.db db') (hleaves : LeavesDue windows now choice point w.db) (hautomated : (w.db.conversations conversation).automated = true)
include htally hchanges hleaves hautomated

theorem Tally.settledIn_eq {event : Event} (hmem : event ∈ w.db.log) : db'.settledIn conversation event =
    w.db.settledIn conversation event := by
  cases hturn : event.settlesTurn with
  | none =>
    rw [Db.settledIn, Db.settledIn, hturn]
    rfl
  | some i =>
    have hsettled : settlements w.db.log i ≠ 0 := by
      refine Nat.ne_of_gt (countP_pos_iff.mpr ⟨event, hmem, ?_⟩)
      rw [hturn]
      exact beq_self_eq_true _
    obtain ⟨t, hrow⟩ : ∃ t, w.db.turns[i]? = some t := ⟨_, List.getElem?_eq_getElem (htally.known i hsettled)⟩
    obtain ⟨t', hrow', hgoes⟩ := hchanges.get hrow
    rw [Db.settledIn, Db.settledIn, hturn, bind_some, bind_some, hrow, hrow', bind_some, bind_some, hgoes.kept.1]
    by_cases hsame : t.conversationId = conversation
    · rw [if_pos hsame, if_pos hsame]
      have hrun : (w.db.conversations t.conversationId).automated = true := hsame ▸ hautomated
      rw [hgoes.ended hleaves hrow hrun (htally.settled i t hrow hrun hsettled)]
    · rw [if_neg hsame, if_neg hsame]

theorem Tally.counts_eq (row : Automation) (hcounts : w.db.Counts conversation w.db.log row) : db'.Counts conversation
    w.db.log row := by
  obtain ⟨hstreak, htripped⟩ := streak_congr fun event hmem => htally.settledIn_eq hchanges hleaves hautomated hmem
  exact ⟨hcounts.1.trans hstreak.symm, hcounts.2.trans (congrArg _ htripped.symm)⟩

end

/-- A statement whose call books nothing, before and after, and that leaves the row, when what is new in the log
counts for neither. -/
theorem Counted.skip (hcnt : Counted w conversation) (hconvs : db'.conversations = w.db.conversations)
    (hcongr : ∀ row, w.db.Counts conversation w.db.log row → db'.Counts conversation db'.log row)
    (hautos : db'.automations conversation = w.db.automations conversation)
    (hold : (w.calls n).booksRun conversation = none) (hnew : point'.booksRun conversation = none) :
    Counted ⟨db', update w.calls n point'⟩ conversation := by
  have hsame (j : ℕ) : (update w.calls n point' j).booksRun conversation = (w.calls j).booksRun conversation := by
    by_cases hj : j = n
    · rw [hj, update_self, hold, hnew]
    · rw [update_of_ne hj]
  refine ⟨fun j k hj hk => ?_, fun row hrow hnone => ?_, fun row j outcome prior hrow hj => ?_⟩
  · rw [hsame] at hj hk
    exact hcnt.one j k hj hk
  · rw [hautos] at hrow
    exact hcongr row (hcnt.counts row hrow fun j => (hsame j).symm.trans (hnone j))
  · rw [hautos] at hrow
    rw [hsame] at hj
    refine hcongr _ ?_
    have hpend := hcnt.pending row j outcome prior hrow hj
    rw [← hconvs] at hpend
    exact hpend

theorem settledIn_of_ends {turnId c : ℕ} (hends : db.Ends turnId c outcome) (hturns : db'.turns = db.turns)
    (hautomated : (db.conversations conversation).automated = true) (hevent : event.settlesTurn = some turnId) :
    db'.settledIn conversation event = if c = conversation then some outcome.status else none := by
  obtain ⟨t, hrow, rfl, hstatus⟩ := hends
  rw [Db.settledIn, hevent, hturns, bind_some, hrow, bind_some]
  by_cases hsame : t.conversationId = conversation
  · rw [if_pos hsame, if_pos hsame, hstatus (hsame ▸ hautomated)]
  · rw [if_neg hsame, if_neg hsame]

theorem booksRun_update (hnone : ∀ j, (w.calls j).booksRun conversation = none) {j : ℕ}
    (hj : (update w.calls n point' j).booksRun conversation ≠ none) : j = n := by
  by_contra hne
  rw [update_of_ne hne] at hj
  exact hj (hnone j)

theorem Counted.reads (hnone : ∀ j, (w.calls j).booksRun conversation = none) (hne : outcome ≠ .aborted)
    (hautos : db'.automations = w.db.automations) (hcnt : Counted w conversation)
    (hcounts : ∀ row, w.db.Counts conversation w.db.log row → db'.Counts conversation w.db.log row)
    (hlog : db'.log = event :: w.db.log) (hevent : db'.settledIn conversation event = some outcome.status)
    (hnew : ∀ row, w.db.automations conversation = some row → point'.booksRun conversation = some (outcome, row.consecutiveFailures)) :
    Counted ⟨db', update w.calls n point'⟩ conversation := by
  refine ⟨fun j k hj hk => ?_, fun row hrow hidle => ?_, fun row j other prior hrow hj => ?_⟩
  · exact (booksRun_update hnone hj).trans (booksRun_update hnone hk).symm
  · rw [hautos] at hrow
    have hself := hidle n
    change (update w.calls n point' n).booksRun conversation = none at hself
    rw [update_self, hnew row hrow] at hself
    cases hself
  · rw [hautos] at hrow
    change (update w.calls n point' j).booksRun conversation = _ at hj
    have hn : j = n := booksRun_update hnone (by rw [hj]; exact nofun)
    rw [hn, update_self, hnew row hrow] at hj
    cases hj
    rw [hlog]
    exact counts_book _ hne hevent (hcounts row (hcnt.counts row hrow hnone))

theorem book_aborted (source : TurnSource) (prior : ℕ) (row : Automation) :
    (row.book source .aborted prior).consecutiveFailures = row.consecutiveFailures ∧
      (row.book source .aborted prior).enabled = row.enabled := by
  rw [Automation.book]
  split <;> exact ⟨rfl, rfl⟩

theorem book_eq_of_eq (source : TurnSource) (outcome : TurnOutcome) (prior : ℕ)
    (hfailures : row'.consecutiveFailures = row.consecutiveFailures) (henabled : row'.enabled = row.enabled) :
    (row'.book source outcome prior).consecutiveFailures = (row.book source outcome prior).consecutiveFailures ∧
      (row'.book source outcome prior).enabled = (row.book source outcome prior).enabled := by
  cases outcome with
  | done => exact ⟨rfl, henabled⟩
  | failed =>
    refine ⟨rfl, ?_⟩
    change (row'.enabled && _) = (row.enabled && _)
    rw [henabled]
  | aborted =>
    obtain ⟨hfailures', henabled'⟩ := book_aborted source prior row'
    obtain ⟨hfailures'', henabled''⟩ := book_aborted source prior row
    exact ⟨hfailures'.trans (hfailures.trans hfailures''.symm), henabled'.trans (henabled.trans henabled''.symm)⟩

theorem Counted.writes (hcnt : Counted w conversation) {turnId prior : ℕ} {rest : List ℕ}
    (hpoint : w.calls n = .bookRun conversation turnId outcome prior rest)
    (hdb : db' = w.db.bookRun conversation outcome prior) (hnew : point'.booksRun conversation = none)
    (hcounts : ∀ row, w.db.Counts conversation w.db.log row → db'.Counts conversation w.db.log row) :
    Counted ⟨db', update w.calls n point'⟩ conversation := by
  have hrows {row' : Automation} (hrow' : db'.automations conversation = some row') :
      ∃ row, w.db.automations conversation = some row ∧
        row' = row.book (w.db.conversations conversation).source outcome prior := by
    rw [hdb] at hrow'
    change update w.db.automations conversation _ conversation = some row' at hrow'
    rw [update_self] at hrow'
    obtain ⟨row, hrow, hbook⟩ := map_eq_some_iff.mp hrow'
    exact ⟨row, hrow, hbook.symm⟩
  have hlog : db'.log = w.db.log := by
    rw [hdb]
    rfl
  have hsource : db'.conversations = w.db.conversations := by
    rw [hdb]
    rfl
  have hold : (w.calls n).booksRun conversation =
      if conversation = conversation ∧ outcome ≠ .aborted then some (outcome, prior) else none := by
    rw [hpoint]
    rfl
  by_cases hne : outcome = .aborted
  · -- a stop leaves what the others have read
    rw [if_neg fun h => h.2 hne] at hold
    have hsame (j : ℕ) :
        (update w.calls n point' j).booksRun conversation = (w.calls j).booksRun conversation :=
      update_keeps (Point.booksRun · conversation) (hnew.trans hold.symm) j
    refine ⟨fun j k hj hk => ?_, fun row' hrow' hidle => ?_, fun row' j other prior hrow' hj => ?_⟩
    · rw [hsame] at hj hk
      exact hcnt.one j k hj hk
    · obtain ⟨row, hrow, rfl⟩ := hrows hrow'
      have hcount := hcnt.counts row hrow fun j => (hsame j).symm.trans (hidle j)
      obtain ⟨hfailures, henabled⟩ := book_aborted (w.db.conversations conversation).source prior row
      rw [hlog, hne]
      exact counts_of_eq hfailures henabled (hcounts row hcount)
    · obtain ⟨row, hrow, rfl⟩ := hrows hrow'
      rw [hsame] at hj
      have hpend := hcnt.pending row j other prior hrow hj
      obtain ⟨hfailures, henabled⟩ := book_aborted (w.db.conversations conversation).source prior row
      obtain ⟨hfailures', henabled'⟩ := book_eq_of_eq (w.db.conversations conversation).source other prior hfailures henabled
      rw [hlog, hne]
      rw [hsource]
      exact counts_of_eq hfailures' henabled' (hcounts _ hpend)
  · rw [if_pos ⟨rfl, hne⟩] at hold
    have hnone (j : ℕ) : (update w.calls n point' j).booksRun conversation = none := by
      by_cases hj : j = n
      · rw [hj, update_self, hnew]
      · rw [update_of_ne hj]
        by_contra hsome
        exact hj (hcnt.one j n hsome (by rw [hold]; simp))
    refine ⟨fun j k hj _ => absurd (hnone j) hj, fun row' hrow' _ => ?_, fun row' j other prior _ hj => ?_⟩
    · obtain ⟨row, hrow, rfl⟩ := hrows hrow'
      rw [hlog]
      exact hcounts _ (hcnt.pending row n outcome prior hrow hold)
    · rw [hnone j] at hj
      cases hj

/-- A statement keeps the runs counted. -/
theorem Counted.step (hcnt : Counted w conversation) (htally : Tally w)
    (hautomated : (w.db.conversations conversation).automated = true)
    (h : exec windows (now, choice) w.db (w.calls n) = some (db', point'))
    (hleaves : LeavesDue windows now choice (w.calls n) w.db) (hapart : BooksApart w (w.calls n)) :
    Counted ⟨db', update w.calls n point'⟩ conversation := by
  have hchanges := exec_changes h
  have hconvs := exec_conversations h
  have hcounts := htally.counts_eq hchanges hleaves hautomated
  have hdue := htally.due n
  cases exec_books h with
  | keeps new hautos hold hnew hlog hsettles =>
    refine hcnt.skip hconvs (fun row hrow => ?_) (congrFun hautos _) (hold _) (hnew _)
    rw [hlog]
    exact counts_append hsettles (hcounts row hrow)
  | reads c turnId outcome event hpoint hevent hturns hlog hautos hnew hskip hother =>
    have hold : (w.calls n).booksRun conversation = none := by
      rcases hpoint with ⟨rest, hpoint⟩ | ⟨message, hpoint, -⟩ <;> rw [hpoint] <;> rfl
    have hends : w.db.Ends turnId c outcome := by
      rcases hpoint with ⟨rest, hpoint⟩ | ⟨message, hpoint, -, rfl, rfl⟩ <;> rw [hpoint] at hdue
      · exact hdue.1
      · exact hdue
    have hsettledIn := settledIn_of_ends hends hturns hautomated hevent
    have hskips (hnone : db'.settledIn conversation event = none ∨ db'.settledIn conversation event = some .aborted)
        (hnew : point'.booksRun conversation = none) : Counted ⟨db', update w.calls n point'⟩ conversation := by
      refine hcnt.skip hconvs (fun row hrow => ?_) (congrFun hautos _) hold hnew
      rw [hlog]
      exact counts_skip hnone (hcounts row hrow)
    by_cases hsame : c = conversation
    · rw [if_pos hsame] at hsettledIn
      by_cases hne : outcome = .aborted
      · exact hskips (.inr (hsettledIn.trans (congrArg _ (congrArg _ hne)))) (hskip hne conversation)
      · subst hsame
        have hnone : ∀ j, (w.calls j).booksRun c = none := by
          rcases hpoint with ⟨rest, hpoint⟩ | ⟨message, hpoint, hbooks, rfl, -⟩
          · exact hapart.settle c turnId outcome rest hpoint hautomated hne
          · exact (hapart.refusal turnId message hpoint hbooks hautomated).1
        exact hcnt.reads hnone hne hautos hcounts hlog hsettledIn
          fun row hrow => hnew row hautomated hrow hne
    · rw [if_neg hsame] at hsettledIn
      exact hskips (.inl hsettledIn) (hother conversation (Ne.symm hsame))
  | writes c turnId outcome prior rest hpoint hdb hnew =>
    by_cases hsame : c = conversation
    · subst hsame
      exact hcnt.writes hpoint hdb (hnew c) hcounts
    · have hold : (w.calls n).booksRun conversation = none := by
        rw [hpoint]
        exact if_neg fun h => hsame h.1
      have hautos : db'.automations conversation = w.db.automations conversation := by
        rw [hdb]
        exact update_of_ne (Ne.symm hsame) ..
      refine hcnt.skip hconvs (fun row hrow => ?_) hautos hold (hnew conversation)
      rw [hdb]
      rw [hdb] at hcounts
      exact hcounts row hrow
  | refuses turnId message failures hpoint hprior hdb hnew =>
    have hold (c : ℕ) : (w.calls n).booksRun c = none := by
      rw [hpoint]
      rfl
    rw [hpoint] at hdue
    have hlog : db'.log = .booked turnId :: w.db.log := by
      rw [hdb]
      rfl
    have hturns : db'.turns = w.db.turns := by
      rw [hdb]
      rfl
    have hsettledIn : db'.settledIn conversation (.booked turnId) = _ := settledIn_of_ends hdue hturns hautomated rfl
    by_cases hsame : message.conversation = conversation
    · subst hsame
      rw [if_pos rfl] at hsettledIn
      have hbooks : message.books = true := by
        rw [Message.books, hprior]
        rfl
      obtain ⟨hnone, hcur⟩ := hapart.refusal turnId message hpoint hbooks hautomated
      have hidle (j : ℕ) : (update w.calls n point' j).booksRun message.conversation = none := by
        by_cases hj : j = n
        · rw [hj, update_self, hnew]
        · rw [update_of_ne hj]
          exact hnone j
      refine ⟨fun j k hj _ => absurd (hidle j) hj, fun row' hrow' _ => ?_, fun row' j other prior _ hj => ?_⟩
      · rw [hdb] at hrow'
        change update w.db.automations message.conversation _ message.conversation = some row' at hrow'
        rw [update_self] at hrow'
        obtain ⟨row, hrow, rfl⟩ := map_eq_some_iff.mp hrow'
        rw [hlog, ← hcur failures row hprior hrow]
        exact counts_book _ (by simp) hsettledIn (hcounts row (hcnt.counts row hrow hnone))
      · rw [hidle j] at hj
        cases hj
    · rw [if_neg hsame] at hsettledIn
      have hautos : db'.automations conversation = w.db.automations conversation := by
        rw [hdb]
        exact update_of_ne (Ne.symm hsame) ..
      refine hcnt.skip hconvs (fun row hrow => ?_) hautos (hold conversation) (hnew conversation)
      rw [hlog]
      exact counts_skip (.inl hsettledIn) (hcounts row hrow)

end Streaks

section Runs

/-- Every run is settled once, after it has ended, by the time that no call has it to settle; and where no call is
about to write a count, every automation counts its failed runs in a row and is off when they reached the threshold. -/
structure RunsSettled (w : Calls.World Db Point) : Prop where
  once : ∀ i, w.db.IsRun i → settlements w.db.log i ≤ 1
  ended : ∀ (i : ℕ) (t : Turn), w.db.turns[i]? = some t →
    (w.db.conversations t.conversationId).automated = true → settlements w.db.log i ≠ 0 → t.status.terminal = true
  settled : ∀ (i : ℕ) (t : Turn), w.db.turns[i]? = some t →
    (w.db.conversations t.conversationId).automated = true → t.status.terminal = true →
      (∀ j, i ∉ (w.calls j).owes) → settlements w.db.log i = 1
  streak : ∀ conversation row, (w.db.conversations conversation).automated = true →
    w.db.automations conversation = some row → (∀ j, (w.calls j).booksRun conversation = none) →
      w.db.Counts conversation w.db.log row

/-- A statement leaves every run that it closes to be settled, and reads no count that another call writes. -/
structure SettlesRuns (windows : Windows) (w : Calls.World Db Point) (e : ℕ × ℕ × Choice) : Prop where
  leaves : LeavesDue windows e.2.1 e.2.2 (w.calls e.1) w.db
  apart : BooksApart w (w.calls e.1)

/-- A run of the calls from empty tables whose steps all leave their runs to be settled, and do not settle across
each other: every automation run settles once, and the automations count their streaks. -/
theorem run_settles (windows : Windows) (w : Calls.World Db Point) (es : List (ℕ × ℕ × Choice))
    (hturns : w.db.turns = []) (hlog : w.db.log = []) (hrest : ∀ i, w.calls i = .idle)
    (hfresh : ∀ conversation row, w.db.automations conversation = some row →
      row.consecutiveFailures = 0 ∧ row.enabled = true)
    (hmeets : Runs.Meets (Calls.step (exec windows)) (SettlesRuns windows) w es) :
    Runs.Throughout (Calls.step (exec windows)) RunsSettled w es := by
  have hnone {i : ℕ} {t : Turn} : w.db.turns[i]? ≠ some t := by
    rw [hturns]
    exact nofun
  have hzero (i : ℕ) : settlements w.db.log i = 0 := by
    rw [hlog]
    rfl
  have hstart : Tally w ∧ ∀ c, (w.db.conversations c).automated = true → Counted w c := by
    refine ⟨⟨fun j => ?_, fun j => ?_, ?_, ?_, ?_, ?_, ?_, ?_⟩, fun c _ => ⟨fun j k hj => ?_, fun row hrow _ => ?_, ?_⟩⟩
    · rw [hrest j]
      trivial
    · rw [hrest j]
      exact List.nodup_nil
    · rintro i j k ⟨t, hrow, -⟩
      exact absurd hrow hnone
    · rintro i j ⟨t, hrow, -⟩
      exact absurd hrow hnone
    · rintro i ⟨t, hrow, -⟩
      exact absurd hrow hnone
    · exact fun i hsettled => absurd (hzero i) hsettled
    · exact fun i t hrow => absurd hrow hnone
    · exact fun i t hrow => absurd hrow hnone
    · rw [hrest j] at hj
      exact absurd rfl hj
    · rw [hlog]
      exact hfresh c row hrow
    · intro row j outcome priorFailures _ hj
      rw [hrest j] at hj
      cases hj
  have hthroughout : Runs.Throughout (Calls.step (exec windows))
      (fun v => Tally v ∧ ∀ c, (v.db.conversations c).automated = true → Counted v c) w es := by
    refine throughout_of_meets _ (fun v e v' hv hcond hstep => ?_) hstart hmeets
    obtain ⟨db, point, hexec, rfl⟩ := (Calls.step_eq_some_iff (exec windows) v v' e).mp hstep
    refine ⟨hv.1.step hexec hcond.leaves, fun c hautomated => ?_⟩
    rw [exec_conversations hexec] at hautomated
    exact (hv.2 c hautomated).step hv.1 hautomated hexec hcond.leaves hcond.apart
  intro front back t hsplit hfront
  obtain ⟨htally, hcounted⟩ := hthroughout front back t hsplit hfront
  refine ⟨htally.once, htally.settled, fun i u hrow hautomated hended hnone => ?_, fun c row hautomated hrow hidle => ?_⟩
  · refine (htally.accounted i u hrow hautomated hended).resolve_right ?_
    rintro ⟨j, hj⟩
    exact hnone j hj
  · exact (hcounted c hautomated).counts row hrow hidle

/-- The conversation of a schedule, whose sandbox is up. -/
def scheduled : Db where
  conversations _ := ⟨0, .cron⟩
  sandboxes _ := ⟨7, .running, none, none, true, true⟩
  automations _ := some ⟨none, 0, true⟩
  turns := []
  log := []

/-- A run of the schedule is created and handed over. -/
def scheduledRun : List (ℕ × ℕ × Choice) :=
  [(0, 1, .createTurn ⟨0, .cron, false, none⟩), (0, 1, .proceed ⟨0, false⟩), (0, 2, .proceed ⟨0, false⟩),
    (0, 3, .claimDueWork ⟨7, none, [], [], [0]⟩)]

/-- The run fails. -/
def failedRun : List (ℕ × ℕ × Choice) :=
  [(0, 4, .finishTurn ⟨⟨7, 0⟩, 0, 0, .failed, false, []⟩), (0, 4, .proceed ⟨0, false⟩), (0, 4, .proceed ⟨0, false⟩),
    (0, 5, .proceed ⟨0, false⟩), (0, 5, .proceed ⟨0, false⟩)]

variable {windows : Windows} {w : Calls.World Db Point}

/-- A closing statement settles its runs. -/
theorem settlesRuns_of_closing {e : ℕ × ℕ × Choice} (point : Point) (hpoint : w.calls e.1 = point)
    (hclosing : ∀ (i : ℕ) (t : Turn), w.db.turns[i]? = some t → closes windows e.2.1 w.db e.2.2 point i t = true → settling e.2.2 point i = true)
    (hrefuse : ∀ turnId message, point ≠ .refuse turnId message)
    (hsettle : ∀ conversation turnId outcome rest, point ≠ .settle conversation turnId outcome rest)
    (hbook : ∀ turnId message, point ≠ .bookRefusal turnId message) : SettlesRuns windows w e := by
  subst hpoint
  refine ⟨⟨fun i t hrow _ => hclosing i t hrow, fun turnId message t h => absurd h (hrefuse turnId message)⟩, ?_, ?_⟩
  · exact fun conversation turnId outcome rest h => absurd h (hsettle conversation turnId outcome rest)
  · exact fun turnId message h => absurd h (hbook turnId message)

/-- A finished turn settles its run. -/
theorem settlesRuns_finishTurn {n now : ℕ} {report : FinishTurnInput} (hpoint : w.calls n = .idle)
    (hstatus : report.status ≠ .aborted) : SettlesRuns windows w (n, now, .finishTurn report) := by
  refine settlesRuns_of_closing .idle hpoint (fun i t _ hclosing => ?_) nofun nofun nofun
  simp only [closes, and_eq_true, or_eq_true, beq_iff_eq] at hclosing
  obtain ⟨-, hself | ⟨⟨⟨habort, -⟩, -⟩, -⟩⟩ := hclosing
  · exact beq_iff_eq.mpr hself
  · exact absurd habort hstatus

/-- A promotion settles its runs where no turn is joining. -/
theorem settlesRuns_promoteFlagged {n now conversation : ℕ} {after : After} {answer : Answer}
    (hpoint : w.calls n = .promoteFlagged conversation after) (hparked : w.db.turns.all (·.status != .joining) = true) :
    SettlesRuns windows w (n, now, .proceed answer) := by
  refine settlesRuns_of_closing _ hpoint (fun i t hrow hclosing => ?_) nofun nofun nofun
  simp only [closes, and_eq_true, beq_iff_eq] at hclosing
  have hother := List.all_eq_true.mp hparked t (mem_of_getElem? hrow)
  rw [hclosing.1.2] at hother
  cases hother

/-- A settlement books its run once. -/
theorem settlesRuns_settle {n now conversation turnId : ℕ} {outcome : TurnOutcome} {rest : List ℕ} {answer : Answer}
    (hpoint : w.calls n = .settle conversation turnId outcome rest)
    (hidle : ∀ j, (w.calls j).booksRun conversation = none) : SettlesRuns windows w (n, now, .proceed answer) := by
  refine ⟨⟨fun i t _ _ hclosing => ?_, fun turnId' message t h => ?_⟩, fun c i outcome' rest' h => ?_,
    fun i message h => ?_⟩
  · rw [hpoint] at hclosing
    cases hclosing
  · rw [hpoint] at h
    cases h
  · rw [hpoint] at h
    cases h
    exact fun _ _ => hidle
  · rw [hpoint] at h
    cases h

/-- A run that fails on its sandbox is settled, and counted. -/
theorem run_settles_failed : Runs.Throughout (Calls.step (exec ⟨60, 3600, 600⟩)) RunsSettled (atRest scheduled)
    (scheduledRun ++ failedRun) := by
  refine run_settles _ _ _ rfl rfl (fun _ => rfl) (fun conversation row hrow => ?_) ?_
  · cases hrow
    exact ⟨rfl, rfl⟩
  have hnone {a b : Bool} (h : false = true) : a = b := absurd h Bool.false_ne_true
  refine meets_cons_of_eq _ rfl (settlesRuns_of_closing .idle rfl (fun _ _ _ h => hnone h) nofun nofun nofun) ?_
  refine meets_cons_of_eq _ rfl (settlesRuns_of_closing (.createTurn ⟨0, .cron, false, none⟩ .create) rfl
    (fun _ _ _ h => hnone h) nofun nofun nofun) ?_
  refine meets_cons_of_eq _ rfl (settlesRuns_of_closing (.blocker 0 ⟨0, .cron, false, none⟩) rfl
    (fun _ _ _ h => hnone h) nofun nofun nofun) ?_
  refine meets_cons_of_eq _ rfl (settlesRuns_of_closing .idle rfl (fun _ _ _ h => hnone h) nofun nofun nofun) ?_
  refine meets_cons_of_eq _ rfl (settlesRuns_finishTurn rfl nofun) ?_
  refine meets_cons_of_eq _ rfl (settlesRuns_promoteFlagged rfl rfl) ?_
  refine meets_cons_of_eq _ rfl (settlesRuns_of_closing (.promoteFind 0 (.settle 0 0 .failed)) rfl
    (fun _ _ _ h => hnone h) nofun nofun nofun) ?_
  refine meets_cons_of_eq _ rfl (settlesRuns_settle rfl (fun j => match j with
    | 0 => rfl
    | _ + 1 => rfl)) ?_
  exact meets_cons_of_eq _ rfl (settlesRuns_of_closing (.bookRun 0 0 .failed 0 []) rfl
    (fun _ _ _ h => hnone h) nofun nofun nofun) trivial

/-- A run that is failed by a restart of its agent is settled by nobody. -/
theorem not_settled_when_restarted : ¬ ∀ (windows : Windows) (w : Calls.World Db Point) (es : List (ℕ × ℕ × Choice)),
    w.db.turns = [] → w.db.log = [] → (∀ i, w.calls i = .idle) →
      (∀ conversation row, w.db.automations conversation = some row →
        row.consecutiveFailures = 0 ∧ row.enabled = true) →
      Runs.Throughout (Calls.step (exec windows)) RunsSettled w es := by
  intro hall
  have hfresh : ∀ conversation row, scheduled.automations conversation = some row →
      row.consecutiveFailures = 0 ∧ row.enabled = true := by
    intro conversation row hrow
    cases hrow
    exact ⟨rfl, rfl⟩
  have hsettled := (hall ⟨60, 3600, 600⟩ (atRest scheduled) (scheduledRun ++ [(1, 4, .requestAgentRestart 0)]) rfl rfl
    (fun _ => rfl) hfresh _ [] _ (List.append_nil _).symm rfl).settled 0 _ rfl rfl rfl
  have hone := hsettled fun j => match j with
    | 0 => List.not_mem_nil
    | 1 => List.not_mem_nil
    | _ + 2 => List.not_mem_nil
  cases hone

end Runs

end Onecli.Agents.Turns
