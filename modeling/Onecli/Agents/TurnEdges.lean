import Onecli.Agents.Turns
import Mathlib.Data.Option.Basic

/-!
# The life of a turn

A row moves along the edges of its life: it is handed over, starts and ends, a follow-up is read, parked or
promoted, and a sandbox death puts a turn back in the queue behind a fence that no statement opens again.
Every statement but three moves the rows it takes so; a promotion and the two inserts ask the index first.
-/

namespace Onecli.Agents.Turns

open List Option

section Tables

variable {db : Db}

/-- A row after an update. -/
theorem get_update (change : ℕ → Turn → Turn) (i : ℕ) :
    (db.update change).turns[i]? = db.turns[i]?.map (change i) := List.getElem?_mapIdx

/-- A test of a row. -/
theorem at_iff {turnId : ℕ} {test : Turn → Bool} :
    db.at turnId test = true ↔ ∃ t, db.turns[turnId]? = some t ∧ test t = true := by
  rw [Db.at, Option.any_eq_true]

/-- A test of the row that is named. -/
theorem test_of_at {turnId i : ℕ} {test : Turn → Bool} {t : Turn} (hat : db.at turnId test = true)
    (hrow : db.turns[i]? = some t) (hid : (i == turnId) = true) : test t = true := by
  obtain ⟨t', hrow', htest⟩ := at_iff.mp hat
  obtain rfl := beq_iff_eq.mp hid
  cases hrow.symm.trans hrow'
  exact htest

theorem at_or (turnId : ℕ) (test test' : Turn → Bool) :
    (db.at turnId fun t => test t || test' t) = (db.at turnId test || db.at turnId test') := by
  rw [Db.at, Db.at, Db.at]
  cases db.turns[turnId]? <;> rfl

theorem not_occupied {conversation i : ℕ} {t : Turn} (h : db.occupied conversation = false)
    (hrow : db.turns[i]? = some t) (hsame : t.conversationId = conversation) : t.status.active = false := by
  have hno := List.any_eq_false.mp h t (mem_of_getElem? hrow)
  simpa [hsame] using hno

end Tables

section Moves

/-- The changes of status, but for a promotion. -/
def Edge (s s' : TurnStatus) : Bool :=
  s == s' || (s.active && s'.terminal) || (s == .queued && s' == .dispatched) || (s == .dispatched && s' == .running) ||
    (s.inFlight && s' == .queued) || (s == .joining && (s' == .joined || s' == .failed || s' == .aborted))

/-- How a row moves, where a statement may put it back in the queue and may close it. -/
structure Moves (again closes : Prop) (t t' : Turn) : Prop where
  conversation : t'.conversationId = t.conversationId
  target : t'.followUpOfTurnId = t.followUpOfTurnId
  created : t'.createdAt = t.createdAt
  edge : Edge t.status t'.status
  /-- A recovered turn stays recovered. -/
  fence : t.retriedAt.isSome → t'.retriedAt.isSome
  recovery : t.status.inFlight → t'.status = .queued → again ∧ t.retriedAt = none ∧ t'.retriedAt.isSome
  ends : t.status.terminal = false → t'.status.terminal → closes
  /-- A follow-up that was asked to stop stays so while it is parked. -/
  flag : t'.status = .joining → t.abortRequested → t'.abortRequested
  delivered : t.steerDeliveredAt.isSome → t'.steerDeliveredAt.isSome

variable {again closes : Prop} {t t' t'' : Turn} {now : ℕ}

/-- A turn that keeps its status. -/
theorem moves_of_status (again closes : Prop) (hconv : t'.conversationId = t.conversationId)
    (htarget : t'.followUpOfTurnId = t.followUpOfTurnId) (hcreated : t'.createdAt = t.createdAt)
    (hstatus : t'.status = t.status) (hretried : t'.retriedAt = t.retriedAt)
    (hflag : t.status = .joining → t.abortRequested → t'.abortRequested)
    (hdeliv : t.steerDeliveredAt.isSome → t'.steerDeliveredAt.isSome) : Moves again closes t t' where
  conversation := hconv
  target := htarget
  created := hcreated
  edge := by
    rw [hstatus, Edge, beq_self_eq_true]
    rfl
  fence h := by rwa [hretried]
  recovery hflight hqueued := by
    rw [hstatus] at hqueued
    rw [hqueued] at hflight
    cases hflight
  ends hopen hterm := by
    rw [hstatus, hopen] at hterm
    cases hterm
  flag hjoin := hflag (hstatus ▸ hjoin)
  delivered := hdeliv

theorem moves_refl (again closes : Prop) (t : Turn) : Moves again closes t t :=
  moves_of_status again closes rfl rfl rfl rfl rfl (fun _ h => h) (fun h => h)

/-- A turn moves along an edge. -/
theorem moves_of_edge (hconv : t'.conversationId = t.conversationId)
    (htarget : t'.followUpOfTurnId = t.followUpOfTurnId) (hcreated : t'.createdAt = t.createdAt)
    (hedge : Edge t.status t'.status) (hretried : t'.retriedAt = t.retriedAt)
    (hdeliv : t'.steerDeliveredAt = t.steerDeliveredAt) (hqueued : t'.status ≠ .queued)
    (hjoin : t'.status ≠ .joining) (hcloses : t'.status.terminal → closes) : Moves again closes t t' where
  conversation := hconv
  target := htarget
  created := hcreated
  edge := hedge
  fence h := by rwa [hretried]
  recovery _ h := absurd h hqueued
  ends _ := hcloses
  flag h := absurd h hjoin
  delivered h := by rwa [hdeliv]

/-- An outcome is an end. -/
theorem outcome_status_ne (outcome : TurnOutcome) : outcome.status ≠ .queued ∧ outcome.status ≠ .joining := by
  cases outcome <;> exact ⟨by decide, by decide⟩

/-- A close ends an active turn. -/
theorem moves_close (again : Prop) (hcloses : closes) (hactive : t.status.active) (now : ℕ) (outcome : TurnOutcome) :
    Moves again closes t (t.close now outcome) := by
  have hedge : Edge t.status outcome.status := by
    have hterm : outcome.status.terminal := by cases outcome <;> rfl
    rw [Edge, hactive, hterm]
    simp
  exact moves_of_edge rfl rfl rfl hedge rfl rfl (outcome_status_ne outcome).1 (outcome_status_ne outcome).2
    fun _ => hcloses

/-- A close ends a parked turn. -/
theorem moves_close_parked (again : Prop) (hcloses : closes) (hjoin : t.status = .joining) (now : ℕ)
    {outcome : TurnOutcome} (hne : outcome ≠ .done) : Moves again closes t (t.close now outcome) := by
  have hedge : Edge t.status outcome.status := by
    rw [hjoin]
    cases outcome with
    | done => exact absurd rfl hne
    | failed => rfl
    | aborted => rfl
  exact moves_of_edge rfl rfl rfl hedge rfl rfl (outcome_status_ne outcome).1 (outcome_status_ne outcome).2
    fun _ => hcloses

theorem active_of_inFlight {status : TurnStatus} (h : status.inFlight) : status.active := by
  cases status <;> first | rfl | cases h

theorem moves_reviveColdTurn (hagain : t.revivable → again) (now : ℕ) : Moves again closes t (reviveColdTurn now t) := by
  rw [reviveColdTurn]
  split
  · rename_i hrevivable
    have hrow := hrevivable
    simp only [Turn.revivable, Bool.and_eq_true, beq_iff_eq, isNone_iff_eq_none] at hrow
    obtain ⟨⟨hdisp, -⟩, hretried⟩ := hrow
    have hedge : Edge t.status .queued := by
      rw [hdisp]
      rfl
    exact ⟨rfl, rfl, rfl, hedge, fun _ => rfl, fun _ _ => ⟨hagain hrevivable, hretried, rfl⟩, fun _ => nofun, nofun,
      fun h => h⟩
  · exact moves_refl again closes t

theorem moves_resumeInterruptedTurn (hagain : t.resumable → again) (now : ℕ) :
    Moves again closes t (resumeInterruptedTurn now t) := by
  rw [resumeInterruptedTurn]
  split
  · rename_i hresumable
    have hrow := hresumable
    simp only [Turn.resumable, Bool.and_eq_true, isNone_iff_eq_none] at hrow
    obtain ⟨⟨⟨⟨hflight, -⟩, hretried⟩, -⟩, -⟩ := hrow
    have hedge : Edge t.status .queued := by
      rw [Edge, hflight]
      simp
    exact ⟨rfl, rfl, rfl, hedge, fun _ => rfl, fun _ _ => ⟨hagain hresumable, hretried, rfl⟩, fun _ => nofun, nofun,
      fun h => h⟩
  · exact moves_refl again closes t

theorem moves_failStrandedTurn (hcloses : t.status.inFlight → closes) (now : ℕ) :
    Moves again closes t (failStrandedTurn now t) := by
  rw [failStrandedTurn]
  split
  · rename_i hflight
    exact moves_close again (hcloses hflight) (active_of_inFlight hflight) now .failed
  · exact moves_refl again closes t

/-- A row that a death puts back in the queue. -/
def Turn.recoverable (homeReadOnly : Bool) (turn : Turn) : Bool := !homeReadOnly && (turn.revivable || turn.resumable)

/-- A row that a death closes. -/
def Turn.lost (homeReadOnly : Bool) (turn : Turn) : Bool := turn.status.inFlight && !turn.recoverable homeReadOnly

theorem strand_cases (now : ℕ) (homeReadOnly : Bool) (t : Turn) :
    (homeReadOnly = false ∧ t.revivable = true ∧ strand now homeReadOnly t = reviveColdTurn now t) ∨
      (homeReadOnly = false ∧ t.resumable = true ∧ strand now homeReadOnly t = resumeInterruptedTurn now t) ∨
      (t.recoverable homeReadOnly = false ∧ strand now homeReadOnly t = failStrandedTurn now t) := by
  rw [strand, Turn.recoverable]
  cases homeReadOnly with
  | true => exact .inr (.inr ⟨rfl, rfl⟩)
  | false =>
    have hqueued (turn : Turn) (h : turn.status = .queued) :
        failStrandedTurn now (resumeInterruptedTurn now turn) = turn := by
      have hresume : resumeInterruptedTurn now turn = turn := by
        rw [resumeInterruptedTurn]
        simp [Turn.resumable, h, TurnStatus.inFlight]
      rw [hresume, failStrandedTurn]
      simp [h, TurnStatus.inFlight]
    by_cases hrevive : t.revivable = true
    · refine .inl ⟨rfl, hrevive, hqueued _ ?_⟩
      rw [reviveColdTurn, if_pos hrevive]
    · have hcold : reviveColdTurn now t = t := by rw [reviveColdTurn, if_neg hrevive]
      refine .inr ?_
      rw [hcold]
      by_cases hresume : t.resumable = true
      · refine .inl ⟨rfl, hresume, ?_⟩
        change failStrandedTurn now (resumeInterruptedTurn now t) = _
        rw [failStrandedTurn, if_neg]
        rw [resumeInterruptedTurn, if_pos hresume]
        exact Bool.false_ne_true
      · refine .inr ⟨?_, ?_⟩
        · rw [(Bool.not_eq_true _).mp hrevive, (Bool.not_eq_true _).mp hresume]
          rfl
        · change failStrandedTurn now (resumeInterruptedTurn now t) = _
          rw [resumeInterruptedTurn, if_neg hresume]

theorem moves_strand (homeReadOnly : Bool) (hagain : t.recoverable homeReadOnly → again)
    (hcloses : t.lost homeReadOnly → closes) (now : ℕ) : Moves again closes t (strand now homeReadOnly t) := by
  rw [Turn.recoverable] at hagain
  rcases strand_cases now homeReadOnly t with ⟨hlive, hrevivable, h⟩ | ⟨hlive, hresumable, h⟩ | ⟨hnone, h⟩
  · rw [h]
    refine moves_reviveColdTurn (fun _ => hagain ?_) now
    rw [hlive, hrevivable]
    rfl
  · rw [h]
    refine moves_resumeInterruptedTurn (fun _ => hagain ?_) now
    rw [hlive, hresumable, Bool.or_true]
    rfl
  · rw [h]
    refine moves_failStrandedTurn (fun hflight => hcloses ?_) now
    rw [Turn.lost, hflight, hnone]
    rfl

theorem Moves.active (h : Moves again closes t t') (hactive : t'.status.active) : t.status.active := by
  have hedge := h.edge
  revert hedge hactive
  generalize t.status = s
  generalize t'.status = s'
  cases s <;> cases s' <;> decide

/-- A turn that is joining was joining. -/
theorem Moves.joining (h : Moves again closes t t') (hjoin : t'.status = .joining) : t.status = .joining := by
  have hedge := h.edge
  rw [hjoin] at hedge
  revert hedge
  generalize t.status = s
  cases s <;> decide

/-- Moves one after another. -/
theorem Moves.trans (h : Moves again closes t t') (h' : Moves again closes t' t'')
    (hone : t'.status = t.status ∨ t''.status = t'.status) : Moves again closes t t'' where
  conversation := h'.conversation.trans h.conversation
  target := h'.target.trans h.target
  created := h'.created.trans h.created
  edge := by
    rcases hone with hstatus | hstatus
    · exact hstatus ▸ h'.edge
    · exact hstatus ▸ h.edge
  fence hretried := h'.fence (h.fence hretried)
  recovery hflight hqueued := by
    rcases hone with hstatus | hstatus
    · obtain ⟨hagain, hnone, hsome⟩ := h'.recovery (hstatus ▸ hflight) hqueued
      refine ⟨hagain, ?_, hsome⟩
      by_contra hretried
      have hkept := h.fence (isSome_iff_ne_none.mpr hretried)
      rw [hnone] at hkept
      cases hkept
    · obtain ⟨hagain, hnone, hsome⟩ := h.recovery hflight (hstatus ▸ hqueued)
      exact ⟨hagain, hnone, h'.fence hsome⟩
  ends hopen hterm := by
    rcases hone with hstatus | hstatus
    · exact h'.ends (hstatus ▸ hopen) hterm
    · exact h.ends hopen (hstatus ▸ hterm)
  flag hjoin hflag := h'.flag hjoin (h.flag (h'.joining hjoin) hflag)
  delivered hdeliv := h'.delivered (h.delivered hdeliv)

end Moves

section Maps

/-- Each row of a table becomes one that it is related to. -/
def Db.Maps (R : ℕ → Turn → Turn → Prop) (db db' : Db) : Prop := ∀ i, Option.Rel (R i) db.turns[i]? db'.turns[i]?

variable {R R' : ℕ → Turn → Turn → Prop} {db db' db'' : Db}

theorem Db.Maps.get (h : db.Maps R db') {i : ℕ} {t : Turn} (hrow : db.turns[i]? = some t) :
    ∃ t', db'.turns[i]? = some t' ∧ R i t t' := by
  have hrel := h i
  rw [hrow] at hrel
  generalize hrow' : db'.turns[i]? = row at hrel
  cases hrel with
  | some hR => exact ⟨_, rfl, hR⟩

/-- A row after the map has one before. -/
theorem Db.Maps.back (h : db.Maps R db') {i : ℕ} {t' : Turn} (hrow : db'.turns[i]? = some t') :
    ∃ t, db.turns[i]? = some t ∧ R i t t' := by
  have hrel := h i
  rw [hrow] at hrel
  generalize hrow' : db.turns[i]? = row at hrel
  cases hrel with
  | some hR => exact ⟨_, rfl, hR⟩

theorem maps_of_turns_eq (hrefl : ∀ i t, R i t t) (hturns : db'.turns = db.turns) : db.Maps R db' := by
  intro i
  rw [hturns]
  cases db.turns[i]? with
  | none => exact Option.Rel.none
  | some t => exact Option.Rel.some (hrefl i t)

/-- An update maps the rows. -/
theorem Db.Maps.update {change : ℕ → Turn → Turn}
    (h : ∀ i t, db.turns[i]? = some t → R i t (change i t)) : db.Maps R (db.update change) := by
  intro i
  rw [get_update]
  cases hrow : db.turns[i]? with
  | none => exact Option.Rel.none
  | some t => exact Option.Rel.some (h i t hrow)

/-- An update after a map. -/
theorem Db.Maps.then_update (hmaps : db.Maps R db') {change : ℕ → Turn → Turn}
    (h : ∀ i t t', db.turns[i]? = some t → db'.turns[i]? = some t' → R i t t' → R' i t (change i t')) :
    db.Maps R' (db'.update change) := by
  intro i
  rw [get_update]
  cases hrow' : db'.turns[i]? with
  | none =>
    have hrel := hmaps i
    rw [hrow'] at hrel
    generalize db.turns[i]? = row at hrel
    cases hrel
    exact Option.Rel.none
  | some t' =>
    obtain ⟨t, hrow, hR⟩ := hmaps.back hrow'
    rw [hrow]
    exact Option.Rel.some (h i t t' hrow hrow' hR)

theorem Db.Maps.imp (h : db.Maps R db') (himp : ∀ i t t', db.turns[i]? = some t → R i t t' → R' i t t') :
    db.Maps R' db' := by
  intro i
  cases hrow : db.turns[i]? with
  | none =>
    have hrel := h i
    rw [hrow] at hrel
    generalize db'.turns[i]? = row at hrel
    cases hrel
    exact Option.Rel.none
  | some t =>
    obtain ⟨t', hrow', hR⟩ := h.get hrow
    rw [hrow']
    exact Option.Rel.some (himp i t t' hrow hR)

end Maps

section Statements

/-- `requestSandboxRespawn` takes the sandbox down. -/
def Db.respawns (db : Db) (agentId : ℕ) : Bool :=
  (db.sandboxes agentId).status == .starting || (db.sandboxes agentId).status == .running

/-- `finishTurn` puts its turn back in the queue. -/
def Db.requeues (db : Db) (report : FinishTurnInput) : Bool :=
  db.reported report.reporter report.conversationId report.turnId && report.recovers &&
    db.at report.turnId fun t => t.revivable || t.resumable

/-- `finishTurn` closes its turn. -/
def Db.finishes (db : Db) (report : FinishTurnInput) : Bool :=
  db.reported report.reporter report.conversationId report.turnId && !db.requeues report &&
    db.at report.turnId report.closes

/-- The rows that a statement puts back in the queue. -/
def recovers (db : Db) : Choice → Point → ℕ → Turn → Bool
  | .proceed _, .strand event, _, t => db.hosts event.reporter t && t.recoverable event.homeReadOnly
  | .finishTurn report, _, i, _ => i == report.turnId && db.requeues report
  | .requestSandboxRespawn agentId, _, _, t => db.respawns agentId && db.agentOf t == agentId && t.recoverable false
  | _, _, _, _ => false

/-- The rows that a statement closes. -/
def closes (windows : Windows) (now : ℕ) (db : Db) : Choice → Point → ℕ → Turn → Bool
  | .proceed _, .abortJoining turnId _, i, t => i == turnId && t.status == .joining
  | .proceed _, .abortQueued turnId _ _, i, t => i == turnId && t.status == .queued
  | .proceed _, .sweepQueued _ conversation, _, t => t.conversationId == conversation && t.status == .joining
  | .proceed _, .sweepUndelivered turnId conversation, _, t =>
    t.conversationId == conversation && t.status == .joining &&
      !(t.followUpOfTurnId == some turnId && t.steerDeliveredAt.isSome)
  | .proceed _, .promoteFlagged conversation _, _, t =>
    t.conversationId == conversation && t.status == .joining && t.abortRequested
  | .proceed _, .refuse turnId _, i, _ => i == turnId
  | .proceed _, .strand event, _, t => db.hosts event.reporter t && t.lost event.homeReadOnly
  | .proceed _, .park reporter, _, t => db.hosts reporter t && (t.status == .queued || t.status == .joining)
  | .finishTurn report, _, i, t =>
    db.finishes report && (i == report.turnId || (report.status == .aborted &&
      t.conversationId == report.conversationId && t.status == .joining &&
      !(report.joined.contains i && t.joins report.conversationId report.turnId)))
  | .requestSandboxRespawn agentId, _, _, t => db.respawns agentId && db.agentOf t == agentId && t.lost false
  | .requestAgentRestart agentId, _, _, t => db.agentOf t == agentId && t.status.inFlight
  | .parkUnstartableClaim reporter, _, _, t =>
    (db.sandboxes reporter.sandboxId).runnerId == reporter.runnerId &&
      (db.sandboxes reporter.sandboxId).status == .starting && db.agentOf t == reporter.sandboxId &&
      (t.status.active || t.status == .joining)
  | .reclaimStaleTurns, _, _, t => t.pastCeiling windows now
  | .failStalledTurns, _, _, t => t.stalled windows now
  | .expireWedgedFollowUps, _, _, t =>
    t.status == .joining && t.createdAt + windows.turnCeiling < now && !db.occupied t.conversationId
  | _, _, _, _ => false

/-- What a statement does to the rows. -/
inductive Changes (windows : Windows) (now : ℕ) (choice : Choice) (point : Point) (db db' : Db) : Prop
  | moves (h : db.Maps (fun i t t' =>
      Moves (recovers db choice point i t = true) (closes windows now db choice point i t = true) t t') db')
  | promotes (turnId : ℕ) (after : After) (t : Turn) (hpoint : point = .promote turnId after)
      (hrow : db.turns[turnId]? = some t) (hjoining : t.status = .joining) (hfree : db.occupied t.conversationId = false)
      (h : db'.turns[turnId]? = some { t with status := .queued, promotedAt := some now, updatedAt := now })
      (hothers : ∀ i ≠ turnId, db'.turns[i]? = db.turns[i]?)
  | refuses (turnId : ℕ) (message : Message) (hpoint : point = .refuse turnId message)
      (h : db'.turns = (db.update fun i t => if i == turnId then t.close now .failed else t).turns)
  | parks (message : Message) (target : ℕ) (hpoint : point = .createFollowUp message target)
      (h : db'.turns = db.turns ++ [message.row now .joining (some target)])
  | queues (message : Message) (door : Door) (hpoint : point = .createTurn message door)
      (hfree : db.occupied message.conversation = false)
      (h : db'.turns = db.turns ++ [message.row now .queued none])

variable {windows : Windows} {now : ℕ} {db db' : Db} {again closed : Prop} {t t' : Turn}

/-- A move under a condition. -/
theorem moves_ite {b : Bool} (h : b = true → Moves again closed t t') :
    Moves again closed t (if b = true then t' else t) := by
  cases b with
  | true => exact h rfl
  | false => exact moves_refl again closed t

variable {choice : Choice} {point point' : Point} {A C : ℕ → Turn → Prop} {point' : Point}

/-- Rows that stay have changed nothing. -/
theorem changes_of_turns_eq {point : Point} (hturns : db'.turns = db.turns) :
    Changes windows now choice point db db' :=
  .moves (maps_of_turns_eq (fun _ t => moves_refl _ _ t) hturns)

theorem changes_close_parked {point : Point} {test : ℕ → Turn → Bool} {outcome : TurnOutcome} (hne : outcome ≠ .done)
    (hparked : ∀ i t, test i t = true → t.status = .joining)
    (hcloses : ∀ i t, test i t = true → closes windows now db choice point i t = true) :
    Changes windows now choice point db (db.update fun i t => if test i t = true then t.close now outcome else t) := by
  refine .moves (.update fun i t _ => moves_ite fun htest => ?_)
  exact moves_close_parked _ (hcloses i t htest) (hparked i t htest) now hne

theorem changes_promote (choice : Choice) {turnId : ℕ} (after : After) {events : List Event}
    (h : (db.at turnId fun t => t.status == .joining && !db.occupied t.conversationId) = true) :
    Changes windows now choice (.promote turnId after) db ((db.update fun i t =>
      if i == turnId then { t with status := .queued, promotedAt := some now, updatedAt := now } else t).note events) := by
  obtain ⟨t, hrow, hadmits⟩ := at_iff.mp h
  simp only [Bool.and_eq_true, beq_iff_eq, Bool.not_eq_true'] at hadmits
  obtain ⟨hjoin, hfree⟩ := hadmits
  refine .promotes turnId after t rfl hrow hjoin hfree ?_ fun i hi => ?_
  · change (db.update _).turns[turnId]? = _
    rw [get_update, hrow, map_some, if_pos (beq_self_eq_true turnId)]
  · change (db.update _).turns[i]? = _
    have hother (t : Turn) : (if i == turnId then
        { t with status := .queued, promotedAt := some now, updatedAt := now } else t) = t :=
      if_neg fun heq => hi (beq_iff_eq.mp heq)
    rw [get_update, funext hother]
    exact Option.map_id' ..

theorem proceed_changes {answer : Answer} (h : proceed now answer db point = some (db', point')) :
    Changes windows now (.proceed answer) point db db' := by
  cases point with
  | idle => cases h
  | abortJoining =>
    simp only [proceed, Option.some.injEq] at h
    split at h <;> cases h
    · rename_i hat
      refine .moves (.update fun i t hrow => moves_ite fun hid => ?_)
      have hjoin := test_of_at hat hrow hid
      exact moves_close_parked _ (Bool.and_eq_true_iff.mpr ⟨hid, hjoin⟩) (beq_iff_eq.mp hjoin) now nofun
    · exact changes_of_turns_eq rfl
  | abortQueued =>
    simp only [proceed, Option.some.injEq] at h
    split at h <;> cases h
    · rename_i hat
      refine .moves (.update fun i t hrow => moves_ite fun hid => ?_)
      have hqueued := test_of_at hat hrow hid
      refine moves_close _ (Bool.and_eq_true_iff.mpr ⟨hid, hqueued⟩) ?_ now .aborted
      rw [beq_iff_eq.mp hqueued]
      rfl
    · exact changes_of_turns_eq rfl
  | sweepQueued =>
    cases h
    refine changes_close_parked nofun (fun i t htest => ?_) fun i t htest => htest
    exact beq_iff_eq.mp (Bool.and_eq_true_iff.mp htest).2
  | flag turnId conversation | flagDelivered turnId conversation =>
    cases h
    refine .moves (.update fun i t _ => moves_ite fun _ => ?_)
    exact moves_of_status _ _ rfl rfl rfl rfl rfl (fun _ _ => rfl) (fun h => h)
  | sweepUndelivered turnId conversation | promoteFlagged conversation after =>
    cases h
    refine changes_close_parked nofun (fun i t htest => ?_) fun i t htest => htest
    exact beq_iff_eq.mp (Bool.and_eq_true_iff.mp (Bool.and_eq_true_iff.mp htest).1).2
  | promoteFind =>
    simp only [proceed] at h
    split at h
    · cases h
      exact changes_of_turns_eq rfl
    · split at h <;> cases h
      exact changes_of_turns_eq rfl
  | promote turnId after =>
    simp only [proceed, Option.some.injEq] at h
    split at h <;> cases h
    · rename_i hadmits
      exact changes_promote _ after hadmits
    · exact changes_of_turns_eq rfl
  | createFollowUp message target =>
    cases h
    exact .parks message target rfl rfl
  | createTurn message door =>
    simp only [proceed, Option.some.injEq] at h
    split at h <;> cases h
    · exact changes_of_turns_eq rfl
    · rename_i hfree
      exact .queues message door rfl ((Bool.not_eq_true _).mp hfree) rfl
  | refuse turnId message =>
    cases h
    exact .refuses turnId message rfl rfl
  | bookRefusal =>
    simp only [proceed, Option.some.injEq] at h
    split at h
    · cases h
      exact changes_of_turns_eq rfl
    · split at h <;> cases h <;> exact changes_of_turns_eq rfl
  | strand event =>
    cases h
    refine .moves (.update fun i t _ => moves_ite fun hhosts => ?_)
    refine moves_strand event.homeReadOnly (fun hrow => ?_) (fun hrow => ?_) now
    · exact Bool.and_eq_true_iff.mpr ⟨hhosts, hrow⟩
    · exact Bool.and_eq_true_iff.mpr ⟨hhosts, hrow⟩
  | wake =>
    cases h
    refine changes_of_turns_eq ?_
    split <;> rfl
  | park =>
    cases h
    refine .moves (.update fun i t _ => moves_ite fun htest => ?_)
    rcases Bool.or_eq_true_iff.mp (Bool.and_eq_true_iff.mp htest).2 with hqueued | hjoin
    · refine moves_close _ htest ?_ now .failed
      rw [beq_iff_eq.mp hqueued]
      rfl
    · exact moves_close_parked _ htest (beq_iff_eq.mp hjoin) now nofun
  | _ =>
    cases h
    exact changes_of_turns_eq rfl

theorem claimDueWork_moves (poll : Poll) :
    db.Maps (fun i t t' => Moves (A i t) (C i t) t t') (claimDueWork windows now poll db) := by
  have haborts : db.Maps (fun i t t' => Moves (A i t) (C i t) t t' ∧ t'.status = t.status)
      (claimAborts now poll db) := by
    refine .update fun i t _ => ?_
    split
    · rename_i hdue
      refine ⟨moves_of_status _ _ rfl rfl rfl rfl rfl (fun hjoin => ?_) (fun h => h), rfl⟩
      simp [Turn.abortDue, hjoin, TurnStatus.inFlight] at hdue
    · exact ⟨moves_refl _ _ t, rfl⟩
  have hsteers : db.Maps (fun i t t' => Moves (A i t) (C i t) t t' ∧ t'.status = t.status)
      (claimSteers now poll (claimAborts now poll db)) := by
    refine haborts.then_update fun i t t' _ _ ⟨hmoves, hstatus⟩ => ?_
    split
    · exact ⟨hmoves.trans (moves_of_status _ _ rfl rfl rfl rfl rfl (fun _ h => h) (fun _ => rfl)) (.inl hstatus),
        hstatus⟩
    · exact ⟨hmoves, hstatus⟩
  refine hsteers.then_update fun i t t' _ hrow ⟨hmoves, hstatus⟩ => ?_
  refine hmoves.trans (moves_ite fun hhanded => ?_) (.inl hstatus)
  have hdue := (mem_filter.mp (contains_iff_mem.mp hhanded)).2
  have htest := test_of_at hdue hrow (beq_self_eq_true i)
  simp only [Bool.and_eq_true, Db.turnDue, Bool.or_eq_true, beq_iff_eq] at htest
  obtain ⟨⟨-, hqueued | ⟨hdisp, -⟩⟩, -⟩ := htest
  · refine moves_of_edge rfl rfl rfl ?_ rfl rfl nofun nofun nofun
    rw [hqueued]
    rfl
  · refine moves_of_edge rfl rfl rfl ?_ rfl rfl nofun nofun nofun
    rw [hdisp]
    rfl

/-- `settleJoinedFollowUps`, after a statement that left the parked rows alone. -/
theorem Db.Maps.settleJoinedFollowUps (now conversation target : ℕ) (followUpIds : List ℕ)
    (h : db.Maps (fun i t t' => Moves (A i t) (C i t) t t' ∧ (t'.status = .joining → t' = t)) db') :
    db.Maps (fun i t t' => Moves (A i t) (C i t) t t' ∧
      (t'.status = .joining → t' = t ∧ (followUpIds.contains i && t.joins conversation target) = false))
      (settleJoinedFollowUps now conversation target followUpIds db') := by
  refine h.then_update fun i t t' _ _ ⟨hmoves, hparked⟩ => ?_
  split
  · rename_i hjoins
    have hrow := (Bool.and_eq_true_iff.mp hjoins).2
    simp only [Turn.joins, Bool.and_eq_true, beq_iff_eq] at hrow
    have hjoin : t'.status = .joining := hrow.1.2
    refine ⟨hmoves.trans ?_ (.inl (hjoin.trans (hmoves.joining hjoin).symm)), nofun⟩
    refine moves_of_edge rfl rfl rfl ?_ rfl rfl nofun nofun nofun
    rw [hjoin]
    rfl
  · rename_i hnot
    refine ⟨hmoves, fun hjoin => ?_⟩
    obtain rfl := hparked hjoin
    exact ⟨rfl, (Bool.not_eq_true _).mp hnot⟩

theorem applyTurnEvents_moves (reporter : ReporterIdentity) (conversation turnId : ℕ) (started : Bool)
    (joined : List ℕ) : db.Maps (fun i t t' => Moves (A i t) (C i t) t t')
      (applyTurnEvents now reporter conversation turnId started joined db) := by
  rw [applyTurnEvents]
  split
  · have hstarts : db.Maps (fun i t t' => Moves (A i t) (C i t) t t' ∧ (t'.status = .joining → t' = t))
        (db.update fun i t =>
          if i == turnId && started && t.status == .dispatched then
            { t with status := .running, startedAt := t.startedAt.or (some now), updatedAt := now }
          else t) := by
      refine .update fun i t _ => ?_
      split
      · rename_i htest
        have hdisp := beq_iff_eq.mp (Bool.and_eq_true_iff.mp htest).2
        refine ⟨moves_of_edge rfl rfl rfl ?_ rfl rfl nofun nofun nofun, nofun⟩
        rw [hdisp]
        rfl
      · exact ⟨moves_refl _ _ t, fun _ => rfl⟩
    exact (hstarts.settleJoinedFollowUps now conversation turnId joined).imp fun _ _ _ _ h => h.1
  · exact maps_of_turns_eq (fun _ t => moves_refl _ _ t) rfl

/-- A report finishes an active turn. -/
theorem active_of_finishes {report : FinishTurnInput} (hfin : db.finishes report = true) {i : ℕ}
    (hrow : db.turns[i]? = some t) (hid : (i == report.turnId) = true) : t.status.active := by
  have htest := test_of_at (Bool.and_eq_true_iff.mp hfin).2 hrow hid
  rw [FinishTurnInput.closes] at htest
  split at htest
  · exact active_of_inFlight htest
  · exact htest

theorem closeTurn_moves {report : FinishTurnInput} (hfin : db.finishes report = true) (point : Point) :
    Changes windows now (.finishTurn report) point db (closeTurn now report db) := by
  have hcloses (i : ℕ) (t : Turn) : closes windows now db (.finishTurn report) point i t = true ↔
      i = report.turnId ∨ report.status = .aborted ∧ t.conversationId = report.conversationId ∧ t.status = .joining ∧
        (report.joined.contains i && t.joins report.conversationId report.turnId) = false := by
    simp only [closes, hfin, Bool.true_and, Bool.or_eq_true, Bool.and_eq_true, beq_iff_eq, Bool.not_eq_true',
      and_assoc]
  have hown : db.Maps (fun i t t' => Moves (recovers db (.finishTurn report) point i t = true)
      (closes windows now db (.finishTurn report) point i t = true) t t' ∧ (t'.status = .joining → t' = t))
      (db.update fun i t => if i == report.turnId then t.close now report.status else t) := by
    refine .update fun i t hrow => ?_
    split
    · rename_i hid
      have hactive := active_of_finishes hfin hrow hid
      refine ⟨moves_close _ ((hcloses i t).mpr (.inl (beq_iff_eq.mp hid))) hactive now report.status, fun h => ?_⟩
      exact absurd h (outcome_status_ne report.status).2
    · exact ⟨moves_refl _ _ t, fun _ => rfl⟩
  have hjoined := hown.settleJoinedFollowUps now report.conversationId report.turnId report.joined
  refine .moves ?_
  rw [closeTurn]
  split
  · rename_i habort
    refine hjoined.then_update fun i t t' _ _ ⟨hmoves, hparked⟩ => ?_
    split
    · rename_i htest
      have hjoin := beq_iff_eq.mp (Bool.and_eq_true_iff.mp htest).2
      obtain ⟨rfl, hnot⟩ := hparked hjoin
      have hsame := beq_iff_eq.mp (Bool.and_eq_true_iff.mp htest).1
      exact moves_close_parked _ ((hcloses i t').mpr (.inr ⟨habort, hsame, hjoin, hnot⟩)) hjoin now nofun
    · exact hmoves
  · exact hjoined.imp fun _ _ _ _ h => h.1

/-- What `finishTurn` does: it puts its turn back, or closes it, or leaves all as it is. -/
theorem finishTurn_cases (now : ℕ) (report : FinishTurnInput) :
    (db.requeues report = true ∧ ∃ change : ℕ → Turn → Turn, (change = reviveColdTurn ∨ change = resumeInterruptedTurn) ∧
      finishTurn now report db = (db.update fun i t => if i == report.turnId then change now t else t, .idle)) ∨
    (db.finishes report = true ∧ finishTurn now report db = (closeTurn now report db,
      .promoteFlagged report.conversationId (.settle report.conversationId report.turnId report.status))) ∨
    (db.finishes report = false ∧ finishTurn now report db = (db, .idle)) := by
  have hrequeues : db.requeues report = (db.reported report.reporter report.conversationId report.turnId &&
      report.recovers && (db.at report.turnId Turn.revivable || db.at report.turnId Turn.resumable)) :=
    congrArg _ (at_or ..)
  rw [Db.finishes, hrequeues, finishTurn]
  by_cases hown : db.reported report.reporter report.conversationId report.turnId = true
  · rw [hown]
    by_cases hrecovers : report.recovers = true
    · rw [hrecovers]
      by_cases hrevive : db.at report.turnId Turn.revivable = true
      · rw [hrevive]
        exact .inl ⟨rfl, reviveColdTurn, .inl rfl, rfl⟩
      · rw [(Bool.not_eq_true _).mp hrevive]
        by_cases hresume : db.at report.turnId Turn.resumable = true
        · rw [hresume]
          exact .inl ⟨rfl, resumeInterruptedTurn, .inr rfl, rfl⟩
        · rw [(Bool.not_eq_true _).mp hresume]
          by_cases hcloses : db.at report.turnId report.closes = true
          · rw [hcloses]
            exact .inr (.inl ⟨rfl, rfl⟩)
          · rw [(Bool.not_eq_true _).mp hcloses]
            exact .inr (.inr ⟨rfl, rfl⟩)
    · rw [(Bool.not_eq_true _).mp hrecovers]
      by_cases hcloses : db.at report.turnId report.closes = true
      · rw [hcloses]
        exact .inr (.inl ⟨rfl, rfl⟩)
      · rw [(Bool.not_eq_true _).mp hcloses]
        exact .inr (.inr ⟨rfl, rfl⟩)
  · rw [(Bool.not_eq_true _).mp hown]
    exact .inr (.inr ⟨rfl, rfl⟩)

theorem finishTurn_changes (report : FinishTurnInput) (point : Point) :
    Changes windows now (.finishTurn report) point db (finishTurn now report db).1 := by
  rcases finishTurn_cases now report with ⟨hrequeues, change, hchange, h⟩ | ⟨hfin, h⟩ | ⟨-, h⟩
  · rw [h]
    refine .moves (.update fun i t _ => moves_ite fun hid => ?_)
    have hagain : recovers db (.finishTurn report) point i t = true := Bool.and_eq_true_iff.mpr ⟨hid, hrequeues⟩
    rcases hchange with rfl | rfl
    · exact moves_reviveColdTurn (fun _ => hagain) now
    · exact moves_resumeInterruptedTurn (fun _ => hagain) now
  · rw [h]
    exact closeTurn_moves hfin point
  · rw [h]
    exact changes_of_turns_eq rfl

theorem requestSandboxRespawn_changes (agentId : ℕ) (point : Point) :
    Changes windows now (.requestSandboxRespawn agentId) point db (requestSandboxRespawn now agentId db) := by
  simp only [requestSandboxRespawn]
  split
  · rename_i hup
    have hrespawns : db.respawns agentId = true := by simpa only [Db.respawns, Bool.or_eq_true, beq_iff_eq] using hup
    refine .moves (.update fun i t _ => moves_ite fun hagent => ?_)
    have hreached : (db.respawns agentId && db.agentOf t == agentId) = true :=
      Bool.and_eq_true_iff.mpr ⟨hrespawns, hagent⟩
    refine moves_strand false (fun hrow => ?_) (fun hrow => ?_) now
    · exact Bool.and_eq_true_iff.mpr ⟨hreached, hrow⟩
    · exact Bool.and_eq_true_iff.mpr ⟨hreached, hrow⟩
  · exact changes_of_turns_eq rfl

theorem parkUnstartableClaim_changes (reporter : ReporterIdentity) (point : Point) :
    Changes windows now (.parkUnstartableClaim reporter) point db (parkUnstartableClaim now reporter db) := by
  simp only [parkUnstartableClaim]
  split
  · rename_i hstarting
    refine .moves (.update fun i t _ => moves_ite fun htest => ?_)
    obtain ⟨hagent, hopen⟩ := Bool.and_eq_true_iff.mp htest
    have hcloses : closes windows now db (.parkUnstartableClaim reporter) point i t = true := by
      simp only [closes, Bool.and_eq_true, beq_iff_eq]
      exact ⟨⟨hstarting, beq_iff_eq.mp hagent⟩, hopen⟩
    rcases Bool.or_eq_true_iff.mp hopen with hactive | hjoin
    · exact moves_close _ hcloses hactive now .failed
    · exact moves_close_parked _ hcloses (beq_iff_eq.mp hjoin) now nofun
  · exact changes_of_turns_eq rfl

theorem begin_changes (h : begin windows now db choice = some (db', point')) :
    Changes windows now choice .idle db db' := by
  cases choice with
  | proceed => cases h
  | receiveWebhook =>
    simp only [begin] at h
    split at h <;> cases h <;> exact changes_of_turns_eq rfl
  | finishTurn report =>
    have hdb := congrArg Prod.fst (some.inj h)
    change (finishTurn now report db).1 = db' at hdb
    rw [← hdb]
    exact finishTurn_changes report .idle
  | applyTurnEvents reporter conversation turnId started joined =>
    cases h
    exact .moves (applyTurnEvents_moves reporter conversation turnId started joined)
  | applyTurnProgress =>
    cases h
    rw [applyTurnProgress]
    split
    · refine .moves (.update fun i t _ => moves_ite fun _ => ?_)
      exact moves_of_status _ _ rfl rfl rfl rfl rfl (fun _ h => h) (fun h => h)
    · exact changes_of_turns_eq rfl
  | applyRunnerEvent =>
    simp only [begin, Option.some.injEq] at h
    split at h <;> cases h <;> exact changes_of_turns_eq rfl
  | requestSandboxRespawn agentId =>
    cases h
    exact requestSandboxRespawn_changes agentId .idle
  | requestAgentRestart =>
    cases h
    refine .moves (.update fun i t _ => moves_ite fun hagent => ?_)
    exact moves_failStrandedTurn (fun hflight => Bool.and_eq_true_iff.mpr ⟨hagent, hflight⟩) now
  | parkUnstartableClaim reporter =>
    cases h
    exact parkUnstartableClaim_changes reporter .idle
  | claimDueWork poll =>
    cases h
    exact .moves (claimDueWork_moves poll)
  | reclaimStaleTurns =>
    cases h
    refine .moves (.update fun i t _ => moves_ite fun hpast => ?_)
    have hclose := moves_close (recovers db .reclaimStaleTurns .idle i t = true) hpast
      (Bool.and_eq_true_iff.mp hpast).1 now .failed
    exact hclose.trans (moves_of_status _ _ rfl rfl rfl rfl rfl nofun (fun h => h)) (.inr rfl)
  | failStalledTurns =>
    cases h
    refine .moves (.update fun i t _ => moves_ite fun hstalled => ?_)
    have hactive : t.status.active := by
      rw [beq_iff_eq.mp (Bool.and_eq_true_iff.mp hstalled).1]
      rfl
    have hclose := moves_close (recovers db .failStalledTurns .idle i t = true) hstalled hactive now .failed
    exact hclose.trans (moves_of_status _ _ rfl rfl rfl rfl rfl nofun (fun h => h)) (.inr rfl)
  | expireWedgedFollowUps =>
    cases h
    refine changes_close_parked nofun (fun i t htest => ?_) fun i t htest => htest
    exact beq_iff_eq.mp (Bool.and_eq_true_iff.mp (Bool.and_eq_true_iff.mp htest).1).1
  | _ =>
    cases h
    exact changes_of_turns_eq rfl

/-- A statement begins a call, or goes on. -/
theorem exec_cases (h : exec windows (now, choice) db point = some (db', point')) :
    (∃ answer, choice = .proceed answer ∧ proceed now answer db point = some (db', point')) ∨
      (point = .idle ∧ begin windows now db choice = some (db', point')) := by
  cases choice with
  | proceed answer => exact .inl ⟨answer, rfl, h⟩
  | _ =>
    cases point with
    | idle => exact .inr ⟨rfl, h⟩
    | _ => cases h

/-- A statement changes rows as it says. -/
theorem exec_changes (h : exec windows (now, choice) db point = some (db', point')) :
    Changes windows now choice point db db' := by
  rcases exec_cases h with ⟨answer, rfl, hproceed⟩ | ⟨rfl, hbegin⟩
  · exact proceed_changes hproceed
  · exact begin_changes hbegin

/-- What becomes of a row in a statement. -/
inductive Becomes (windows : Windows) (now : ℕ) (choice : Choice) (point : Point) (db : Db) (i : ℕ) (t : Turn) :
    Turn → Prop
  | moves (t' : Turn) (h : Moves (recovers db choice point i t = true) (closes windows now db choice point i t = true)
      t t') : Becomes windows now choice point db i t t'
  | promoted (after : After) (hpoint : point = .promote i after) (hjoining : t.status = .joining)
      (hfree : db.occupied t.conversationId = false) :
      Becomes windows now choice point db i t { t with status := .queued, promotedAt := some now, updatedAt := now }
  | refused (message : Message) (hpoint : point = .refuse i message) :
      Becomes windows now choice point db i t (t.close now .failed)

theorem becomes_refl (windows : Windows) (now : ℕ) (choice : Choice) (point : Point) (db : Db) (i : ℕ) (t : Turn) :
    Becomes windows now choice point db i t t := .moves t (moves_refl _ _ t)

variable {choice : Choice} {point : Point} {i : ℕ}

/-- What became of a row. -/
theorem Changes.get (h : Changes windows now choice point db db') (hrow : db.turns[i]? = some t) :
    ∃ t', db'.turns[i]? = some t' ∧ Becomes windows now choice point db i t t' := by
  have hold : i < db.turns.length := (List.getElem?_eq_some_iff.mp hrow).1
  have hkept (message : Message) (status : TurnStatus) (target : Option ℕ)
      (h : db'.turns = db.turns ++ [message.row now status target]) : db'.turns[i]? = some t := by
    rw [h, List.getElem?_append_left hold]
    exact hrow
  cases h with
  | moves h =>
    obtain ⟨t', hrow', hmoves⟩ := h.get hrow
    exact ⟨t', hrow', .moves t' hmoves⟩
  | promotes turnId after u hpoint hrow' hjoin hfree h hothers =>
    by_cases hi : i = turnId
    · subst hi
      cases hrow.symm.trans hrow'
      exact ⟨_, h, .promoted after hpoint hjoin hfree⟩
    · exact ⟨t, (hothers i hi).trans hrow, becomes_refl ..⟩
  | refuses turnId message hpoint h =>
    rw [h, get_update, hrow]
    refine ⟨_, rfl, ?_⟩
    split
    · rename_i hid
      obtain rfl := beq_iff_eq.mp hid
      exact .refused message hpoint
    · exact becomes_refl ..
  | parks message target hpoint h => exact ⟨t, hkept message .joining (some target) h, becomes_refl ..⟩
  | queues message door hpoint hfree h => exact ⟨t, hkept message .queued none h, becomes_refl ..⟩

theorem new_of_append {row : Turn} (h : db'.turns = db.turns ++ [row]) (hrow : db'.turns[i]? = some t') :
    db.turns[i]? = some t' ∨ (i = db.turns.length ∧ t' = row) := by
  rw [h] at hrow
  by_cases hold : i < db.turns.length
  · rw [List.getElem?_append_left hold] at hrow
    exact .inl hrow
  · rw [List.getElem?_append_right (Nat.le_of_not_lt hold)] at hrow
    obtain ⟨hlast, hnew⟩ := List.getElem?_eq_some_iff.mp hrow
    have hlength : i - db.turns.length < 1 := hlast
    obtain rfl : i = db.turns.length := by omega
    simp only [Nat.sub_self, getElem_cons_zero] at hnew
    exact .inr ⟨rfl, hnew.symm⟩

/-- A row was there, or is created. -/
theorem Changes.back (h : Changes windows now choice point db db') (hrow : db'.turns[i]? = some t') :
    (∃ t, db.turns[i]? = some t ∧ Becomes windows now choice point db i t t') ∨
      (∃ (message : Message) (target : ℕ), i = db.turns.length ∧ point = .createFollowUp message target ∧
        t' = message.row now .joining (some target)) ∨
      (∃ (message : Message) (door : Door), i = db.turns.length ∧ point = .createTurn message door ∧
        db.occupied message.conversation = false ∧ t' = message.row now .queued none) := by
  cases h with
  | parks message target hpoint h =>
    rcases new_of_append h hrow with hold | ⟨hi, hnew⟩
    · exact .inl ⟨t', hold, becomes_refl ..⟩
    · exact .inr (.inl ⟨message, target, hi, hpoint, hnew⟩)
  | queues message door hpoint hfree h =>
    rcases new_of_append h hrow with hold | ⟨hi, hnew⟩
    · exact .inl ⟨t', hold, becomes_refl ..⟩
    · exact .inr (.inr ⟨message, door, hi, hpoint, hfree, hnew⟩)
  | moves h =>
    obtain ⟨t, hold, hmoves⟩ := h.back hrow
    exact .inl ⟨t, hold, .moves t' hmoves⟩
  | promotes turnId after t hpoint hold hjoin hfree h hothers =>
    by_cases hi : i = turnId
    · subst hi
      cases h.symm.trans hrow
      exact .inl ⟨t, hold, .promoted after hpoint hjoin hfree⟩
    · exact .inl ⟨t', (hothers i hi).symm.trans hrow, becomes_refl ..⟩
  | refuses turnId message hpoint h =>
    rw [h, get_update] at hrow
    obtain ⟨t, hold, hnew⟩ := map_eq_some_iff.mp hrow
    refine .inl ⟨t, hold, ?_⟩
    rw [← hnew]
    split
    · rename_i hid
      obtain rfl := beq_iff_eq.mp hid
      exact .refused message hpoint
    · exact becomes_refl ..

/-- What a turn keeps. -/
theorem Becomes.kept (h : Becomes windows now choice point db i t t') :
    t'.conversationId = t.conversationId ∧ t'.followUpOfTurnId = t.followUpOfTurnId ∧ t'.createdAt = t.createdAt ∧
      (t.steerDeliveredAt.isSome → t'.steerDeliveredAt.isSome) ∧ (t.retriedAt.isSome → t'.retriedAt.isSome) := by
  cases h with
  | moves _ h => exact ⟨h.conversation, h.target, h.created, h.delivered, h.fence⟩
  | _ => exact ⟨rfl, rfl, rfl, fun h => h, fun h => h⟩

/-- What a statement notes. -/
inductive Notes (windows : Windows) (now : ℕ) (choice : Choice) (point : Point) (db db' : Db) : Prop
  | silent (h : db'.log = db.log)
  | claims (poll : Poll) (hchoice : choice = .claimDueWork poll) (h : db' = claimDueWork windows now poll db)
  | flags (turnId conversation : ℕ) (hpoint : point = .flag turnId conversation)
      (h : db'.log = .flagged turnId :: db.log)
  | stops (turnId conversation : ℕ) (hpoint : point = .flagDelivered turnId conversation)
      (hrows : db'.turns = (db.update fun _ t =>
        if t.joins conversation turnId then { t with abortRequested := true, updatedAt := now } else t).turns)
      (h : db'.log = .stopped turnId :: db.log)
  | promotes (turnId : ℕ) (after : After) (hpoint : point = .promote turnId after)
      (hat : (db.at turnId fun t => t.status == .joining && !db.occupied t.conversationId) = true)
      (h : db'.log = .promoted turnId :: db.log)
  | settles (conversation turnId : ℕ) (outcome : TurnOutcome) (rest : List ℕ)
      (hpoint : point = .settle conversation turnId outcome rest) (h : db'.log = .settled turnId :: db.log)
  | books (turnId : ℕ) (message : Message) (hpoint : point = .bookRefusal turnId message)
      (h : db'.log = .booked turnId :: db.log)

theorem proceed_notes {answer : Answer} (h : proceed now answer db point = some (db', point')) :
    db'.conversations = db.conversations ∧ Notes windows now choice point db db' := by
  cases point with
  | idle => cases h
  | abortJoining turnId attempt | abortQueued turnId conversation attempt | createTurn message door =>
    simp only [proceed, Option.some.injEq] at h
    split at h <;> cases h <;> exact ⟨rfl, .silent rfl⟩
  | flag turnId conversation =>
    cases h
    exact ⟨rfl, .flags turnId conversation rfl rfl⟩
  | flagDelivered turnId conversation =>
    cases h
    exact ⟨rfl, .stops turnId conversation rfl rfl rfl⟩
  | promoteFind =>
    simp only [proceed] at h
    split at h
    · cases h
      exact ⟨rfl, .silent rfl⟩
    · split at h <;> cases h
      exact ⟨rfl, .silent rfl⟩
  | promote turnId after =>
    simp only [proceed, Option.some.injEq] at h
    split at h <;> cases h
    · rename_i hat
      exact ⟨rfl, .promotes turnId after rfl hat rfl⟩
    · exact ⟨rfl, .silent rfl⟩
  | bookRefusal turnId message =>
    simp only [proceed, Option.some.injEq] at h
    split at h
    · cases h
      exact ⟨rfl, .books turnId message rfl rfl⟩
    · split at h <;> cases h
      · exact ⟨rfl, .books turnId message rfl rfl⟩
      · exact ⟨rfl, .silent rfl⟩
  | wake =>
    cases h
    refine ⟨?_, .silent ?_⟩ <;> split <;> rfl
  | settle conversation turnId outcome rest =>
    cases h
    exact ⟨rfl, .settles conversation turnId outcome rest rfl rfl⟩
  | _ =>
    cases h
    exact ⟨rfl, .silent rfl⟩

theorem begin_notes (h : begin windows now db choice = some (db', point')) :
    db'.conversations = db.conversations ∧ Notes windows now choice .idle db db' := by
  cases choice with
  | proceed => cases h
  | receiveWebhook =>
    simp only [begin] at h
    split at h <;> cases h <;> exact ⟨rfl, .silent rfl⟩
  | finishTurn report =>
    have hdb := congrArg Prod.fst (some.inj h)
    change (finishTurn now report db).1 = db' at hdb
    rw [← hdb]
    rcases finishTurn_cases now report with ⟨-, change, -, h⟩ | ⟨-, h⟩ | ⟨-, h⟩
    · rw [h]
      exact ⟨rfl, .silent rfl⟩
    · rw [h, closeTurn]
      refine ⟨?_, .silent ?_⟩ <;> split <;> rfl
    · rw [h]
      exact ⟨rfl, .silent rfl⟩
  | applyTurnEvents =>
    cases h
    rw [applyTurnEvents]
    refine ⟨?_, .silent ?_⟩ <;> split <;> rfl
  | applyTurnProgress =>
    cases h
    rw [applyTurnProgress]
    refine ⟨?_, .silent ?_⟩ <;> split <;> rfl
  | applyRunnerEvent =>
    simp only [begin, Option.some.injEq] at h
    split at h <;> cases h <;> exact ⟨rfl, .silent rfl⟩
  | requestSandboxRespawn =>
    cases h
    simp only [requestSandboxRespawn]
    refine ⟨?_, .silent ?_⟩ <;> split <;> rfl
  | parkUnstartableClaim =>
    cases h
    simp only [parkUnstartableClaim]
    refine ⟨?_, .silent ?_⟩ <;> split <;> rfl
  | claimDueWork poll =>
    cases h
    exact ⟨rfl, .claims poll rfl rfl⟩
  | _ =>
    cases h
    exact ⟨rfl, .silent rfl⟩

section

variable (h : exec windows (now, choice) db point = some (db', point'))
include h

theorem exec_conversations_notes : db'.conversations = db.conversations ∧ Notes windows now choice point db db' := by
  rcases exec_cases h with ⟨answer, rfl, hproceed⟩ | ⟨rfl, hbegin⟩
  · exact proceed_notes hproceed
  · exact begin_notes hbegin

theorem exec_notes : Notes windows now choice point db db' := (exec_conversations_notes h).2

/-- Statements of turns leave the conversations. -/
theorem exec_conversations : db'.conversations = db.conversations := (exec_conversations_notes h).1

end

end Statements

end Onecli.Agents.Turns
