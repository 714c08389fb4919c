import Onecli.Agents.Settlements

/-!
# What a statement makes of a message

A message is a row, so what can become of it is read off the statements: a poll alone hands a follow-up to a run,
a report of that run alone says that it was taken in, a report alone says that a turn is done, and what is aborted
was stopped. Everything that is promised over whole runs is derived from these.
-/

namespace Onecli.Agents.Turns

open List Option Bool

section Fates

/-- The statements that carry a Stop out. -/
def stopping : Choice → Point → Bool
  | .proceed _, .abortJoining .. | .proceed _, .abortQueued .. | .proceed _, .sweepQueued .. => true
  | .proceed _, .sweepUndelivered .. | .proceed _, .promoteFlagged .. => true
  | .finishTurn report, _ => report.status == .aborted
  | _, _ => false

/-- The report of a run on the follow-ups that it took in, with its conversation and its turn. -/
def Choice.takesIn : Choice → Option (ℕ × ℕ × List ℕ)
  | .applyTurnEvents _ conversation turnId _ joined => some (conversation, turnId, joined)
  | .finishTurn report => some (report.conversationId, report.turnId, report.joined)
  | _ => none

/-- What a statement makes of a row. -/
structure Fate (choice : Choice) (point : Point) (db : Db) (i : ℕ) (t t' : Turn) : Prop where
  handed : t'.status.inFlight → t.status.inFlight ∨ ∃ poll, choice = .claimDueWork poll
  delivered : t'.steerDeliveredAt.isSome → t.steerDeliveredAt.isSome ∨
    ∃ poll, choice = .claimDueWork poll ∧ i ∈ db.steers poll
  done : t'.status = .done → t.status = .done ∨
    ∃ report, choice = .finishTurn report ∧ db.finishes report = true ∧ i = report.turnId
  joined : t'.status = .joined → t.status = .joined ∨ ∃ conversation target joined,
    choice.takesIn = some (conversation, target, joined) ∧ i ∈ joined ∧ t.joins conversation target = true
  aborted : t'.status = .aborted → t.status = .aborted ∨ stopping choice point = true
  flagged : t'.status = .joining → t'.abortRequested = true → t.abortRequested = true ∨
    (∃ conversation, point = .flag i conversation) ∨
      ∃ turnId conversation, point = .flagDelivered turnId conversation ∧ t.joins conversation turnId = true

variable {windows : Windows} {now : ℕ} {choice : Choice} {point point' : Point} {db db' : Db} {i : ℕ} {t t' : Turn}

theorem fate_of_status_eq (hstatus : t'.status = t.status) (hflag : t'.abortRequested = true → t.abortRequested = true)
    (hdeliv : t'.steerDeliveredAt = t.steerDeliveredAt) : Fate choice point db i t t' where
  handed h := Or.inl (hstatus ▸ h)
  delivered h := Or.inl (hdeliv ▸ h)
  done h := Or.inl (hstatus ▸ h)
  joined h := Or.inl (hstatus ▸ h)
  aborted h := Or.inl (hstatus ▸ h)
  flagged _ h := Or.inl (hflag h)

theorem fate_refl (choice : Choice) (point : Point) (db : Db) (i : ℕ) (t : Turn) : Fate choice point db i t t :=
  fate_of_status_eq rfl (fun h => h) rfl

/-- A turn that is queued or failed. -/
theorem fate_of_open (hstatus : (t'.status == .queued || t'.status == .failed) = true)
    (hdeliv : t'.steerDeliveredAt = t.steerDeliveredAt) : Fate choice point db i t t' := by
  have hne {status : TurnStatus} (hclosed : (status == .queued || status == .failed) = false) : t'.status ≠ status := by
    intro h
    rw [h, hclosed] at hstatus
    cases hstatus
  have hflight : t'.status.inFlight = false := by
    revert hstatus
    generalize t'.status = s
    cases s <;> decide
  exact ⟨fun h => absurd h (eq_false_iff.mp hflight), fun h => .inl (hdeliv ▸ h), fun h => absurd h (hne rfl),
    fun h => absurd h (hne rfl), fun h => absurd h (hne rfl), fun h => absurd h (hne rfl)⟩

theorem fate_of_stopping (now : ℕ) (h : stopping choice point = true) :
    Fate choice point db i t (t.close now .aborted) :=
  ⟨nofun, fun h => .inl h, nofun, nofun, fun _ => .inr h, nofun⟩

/-- A fate under a condition. -/
theorem fate_ite {b : Bool} (h : b = true → Fate choice point db i t t') :
    Fate choice point db i t (if b = true then t' else t) := by
  cases b with
  | true => exact h rfl
  | false => exact fate_refl ..

/-- Rows that stay. -/
theorem fate_of_turns_eq (hrow : db.turns[i]? = some t) (hrow' : db'.turns[i]? = some t')
    (hturns : db'.turns = db.turns) : Fate choice point db i t t' := by
  rw [hturns] at hrow'
  cases hrow.symm.trans hrow'
  exact fate_refl ..

variable {change : ℕ → Turn → Turn} {joined : List ℕ}

theorem fate_of_update (hrow : db.turns[i]? = some t) (hrow' : (db.update change).turns[i]? = some t')
    (h : Fate choice point db i t (change i t)) : Fate choice point db i t t' := by
  rw [get_update, hrow] at hrow'
  exact some.inj hrow' ▸ h

theorem fate_of_insert {row : Turn} (hrow : db.turns[i]? = some t) (hrow' : (db.insert row).turns[i]? = some t') :
    Fate choice point db i t t' := by
  have hold : i < db.turns.length := (List.getElem?_eq_some_iff.mp hrow).1
  rw [Db.insert, List.getElem?_append_left hold] at hrow'
  cases hrow.symm.trans hrow'
  exact fate_refl ..

theorem fate_strand (now : ℕ) (homeReadOnly : Bool) : Fate choice point db i t (strand now homeReadOnly t) := by
  have hfails : Fate choice point db i t (failStrandedTurn now t) := by
    exact fate_ite fun _ => fate_of_open rfl rfl
  rcases strand_cases now homeReadOnly t with ⟨-, hrevivable, h⟩ | ⟨-, hresumable, h⟩ | ⟨-, h⟩
  · rw [h, reviveColdTurn, if_pos hrevivable]
    exact fate_of_open rfl rfl
  · rw [h, resumeInterruptedTurn, if_pos hresumable]
    exact fate_of_open rfl rfl
  · rw [h]
    exact hfails

theorem proceed_fate {answer : Answer} (h : proceed now answer db point = some (db', point'))
    (hrow : db.turns[i]? = some t) (hrow' : db'.turns[i]? = some t') : Fate (.proceed answer) point db i t t' := by
  cases point with
  | idle => cases h
  | abortJoining turnId attempt | abortQueued turnId conv attempt =>
    simp only [proceed, Option.some.injEq] at h
    split at h <;> cases h
    · exact fate_of_update hrow hrow' (fate_ite fun _ => fate_of_stopping now rfl)
    · exact fate_of_turns_eq hrow hrow' rfl
  | sweepQueued turnId conv | sweepUndelivered turnId conv | promoteFlagged conv after =>
    cases h
    exact fate_of_update hrow hrow' (fate_ite fun _ => fate_of_stopping now rfl)
  | flag turnId conv =>
    cases h
    refine fate_of_update hrow hrow' (fate_ite fun hid => ?_)
    obtain rfl := beq_iff_eq.mp hid
    exact ⟨fun h => .inl h, fun h => .inl h, fun h => .inl h, fun h => .inl h, fun h => .inl h,
      fun _ _ => .inr (.inl ⟨conv, rfl⟩)⟩
  | flagDelivered turnId conv =>
    cases h
    refine fate_of_update hrow hrow' (fate_ite fun hjoins => ?_)
    exact ⟨fun h => .inl h, fun h => .inl h, fun h => .inl h, fun h => .inl h, fun h => .inl h,
      fun _ _ => .inr (.inr ⟨turnId, conv, rfl, hjoins⟩)⟩
  | promoteFind =>
    simp only [proceed] at h
    split at h
    · cases h
      exact fate_of_turns_eq hrow hrow' rfl
    · split at h <;> cases h
      exact fate_of_turns_eq hrow hrow' rfl
  | promote =>
    simp only [proceed, Option.some.injEq] at h
    split at h <;> cases h
    · exact fate_of_update hrow hrow' (fate_ite fun _ => fate_of_open rfl rfl)
    · exact fate_of_turns_eq hrow hrow' rfl
  | createFollowUp =>
    cases h
    exact fate_of_insert hrow hrow'
  | createTurn =>
    simp only [proceed, Option.some.injEq] at h
    split at h <;> cases h
    · exact fate_of_turns_eq hrow hrow' rfl
    · exact fate_of_insert hrow hrow'
  | refuse turnId message | park reporter =>
    cases h
    exact fate_of_update hrow hrow' (fate_ite fun _ => fate_of_open rfl rfl)
  | bookRefusal =>
    simp only [proceed, Option.some.injEq] at h
    split at h
    · cases h
      exact fate_of_turns_eq hrow hrow' rfl
    · split at h <;> cases h <;> exact fate_of_turns_eq hrow hrow' rfl
  | strand event =>
    cases h
    exact fate_of_update hrow hrow' (fate_ite fun _ => fate_strand now event.homeReadOnly)
  | wake =>
    cases h
    refine fate_of_turns_eq hrow hrow' ?_
    split <;> rfl
  | _ =>
    cases h
    exact fate_of_turns_eq hrow hrow' rfl

/-- A test that a change keeps. -/
theorem at_update {test test' : Turn → Bool} (turnId : ℕ) (h : ∀ t, test' (change turnId t) = test t) :
    (db.update change).at turnId test' = db.at turnId test := by
  rw [Db.at, Db.at, get_update]
  cases db.turns[turnId]? with
  | none => rfl
  | some t => exact h t

theorem any_update {test test' : Turn → Bool} (h : ∀ i t, test' (change i t) = test t) :
    (db.update change).turns.any test' = db.turns.any test := by
  have hany (db : Db) (test : Turn → Bool) : db.turns.any test = true ↔ ∃ i, db.at i test = true := by
    simp only [List.any_eq_true, mem_iff_getElem?, at_iff]
    constructor
    · rintro ⟨t, ⟨i, hrow⟩, htest⟩
      exact ⟨i, t, hrow, htest⟩
    · rintro ⟨i, t, hrow, htest⟩
      exact ⟨t, ⟨i, hrow⟩, htest⟩
  rw [Bool.eq_iff_iff, hany, hany]
  exact exists_congr fun i => by rw [at_update i (h i)]

/-- A claim of aborts steers the same. -/
theorem steers_claimAborts (now : ℕ) (poll : Poll) : (claimAborts now poll db).steers poll = db.steers poll := by
  refine filter_congr fun i _ => ?_
  refine at_update i fun f => ?_
  -- only the flag and the stamp of a row may change
  have hany (f : Turn) : (claimAborts now poll db).turns.any (·.blocks f) = db.turns.any (·.blocks f) := by
    refine any_update fun j older => ?_
    split <;> rfl
  have htarget (target : ℕ) : (claimAborts now poll db).at target (·.status.inFlight) =
      db.at target (·.status.inFlight) := by
    refine at_update target fun t => ?_
    split <;> rfl
  have hdue (f : Turn) : (claimAborts now poll db).steerDue f = db.steerDue f := by
    rw [Db.steerDue, hany f, funext htarget]
    rfl
  change ((claimAborts now poll db).steerDue _ && _) = _
  rw [hdue]
  split <;> rfl

theorem claimDueWork_fate {poll : Poll} (hrow : db.turns[i]? = some t)
    (hrow' : (claimDueWork windows now poll db).turns[i]? = some t') : Fate (.claimDueWork poll) point db i t t' := by
  have haborts : ∃ u, (claimAborts now poll db).turns[i]? = some u ∧ u.status = t.status ∧
      u.steerDeliveredAt = t.steerDeliveredAt ∧ (u.abortRequested = true → t.abortRequested = true) := by
    refine ⟨_, (get_update _ i).trans (congrArg (Option.map _) hrow), ?_⟩
    dsimp only
    split
    · exact ⟨rfl, rfl, nofun⟩
    · exact ⟨rfl, rfl, fun h => h⟩
  obtain ⟨u, hu, hstatus, hdeliv, hflag⟩ := haborts
  have hsteers : ∃ v, (claimSteers now poll (claimAborts now poll db)).turns[i]? = some v ∧ v.status = t.status ∧
      (v.steerDeliveredAt.isSome → t.steerDeliveredAt.isSome ∨ i ∈ db.steers poll) ∧
      (v.abortRequested = true → t.abortRequested = true) := by
    refine ⟨_, (get_update _ i).trans (congrArg (Option.map _) hu), ?_⟩
    split
    · rename_i hsteer
      rw [steers_claimAborts] at hsteer
      exact ⟨hstatus, fun _ => Or.inr (contains_iff_mem.mp hsteer), hflag⟩
    · exact ⟨hstatus, fun h => Or.inl (hdeliv ▸ h), hflag⟩
  obtain ⟨v, hv, hstatus, hdeliv, hflag⟩ := hsteers
  have hhanded : (claimDueWork windows now poll db).turns[i]? = _ :=
    (get_update _ i).trans (congrArg (Option.map _) hv)
  rw [hhanded] at hrow'
  cases hrow'
  have hdelivers : v.steerDeliveredAt.isSome → t.steerDeliveredAt.isSome ∨
      ∃ poll', Choice.claimDueWork poll = .claimDueWork poll' ∧ i ∈ db.steers poll' :=
    fun h => (hdeliv h).imp_right fun hmem => ⟨poll, rfl, hmem⟩
  split
  · exact ⟨fun _ => .inr ⟨poll, rfl⟩, hdelivers, nofun, nofun, nofun, nofun⟩
  · exact ⟨fun h => .inl (hstatus ▸ h), hdelivers, fun h => .inl (hstatus ▸ h), fun h => .inl (hstatus ▸ h), fun h => .inl (hstatus ▸ h),
      fun _ h => .inl (hflag h)⟩

theorem applyTurnEvents_fate {reporter : ReporterIdentity} {conv turnId : ℕ} {started : Bool}
    (hrow : db.turns[i]? = some t)
    (hrow' : (applyTurnEvents now reporter conv turnId started joined db).turns[i]? = some t') :
    Fate (.applyTurnEvents reporter conv turnId started joined) point db i t t' := by
  rw [applyTurnEvents] at hrow'
  split at hrow'
  · rw [settleJoinedFollowUps, get_update, get_update, hrow, map_some, map_some] at hrow'
    cases hrow'
    split
    · -- the turn itself starts, and is no follow-up that waits
      rename_i htest
      have hdisp := beq_iff_eq.mp (and_eq_true_iff.mp htest).2
      rw [if_neg]
      · exact ⟨fun _ => .inl (hdisp ▸ rfl), fun h => .inl h, (by rintro ⟨⟩), (by rintro ⟨⟩), (by rintro ⟨⟩), (by rintro ⟨⟩)⟩
      · simp [Turn.joins]
    · refine fate_ite fun hjoins => ?_
      obtain ⟨hmem, hjoins⟩ := and_eq_true_iff.mp hjoins
      exact ⟨(by rintro ⟨⟩), fun h => .inl h, (by rintro ⟨⟩),
        fun _ => .inr ⟨conv, turnId, joined, rfl, contains_iff_mem.mp hmem, hjoins⟩, (by rintro ⟨⟩), (by rintro ⟨⟩)⟩
  · exact fate_of_turns_eq hrow hrow' rfl

theorem closeTurn_fate {report : FinishTurnInput} (hfin : db.finishes report = true) (hrow : db.turns[i]? = some t)
    (hrow' : (closeTurn now report db).turns[i]? = some t') : Fate (.finishTurn report) point db i t t' := by
  have hsettled : ∃ u, (settleJoinedFollowUps now report.conversationId report.turnId report.joined
      (db.update fun i t => if i == report.turnId then t.close now report.status else t)).turns[i]? = some u ∧
      Fate (.finishTurn report) point db i t u := by
    rw [settleJoinedFollowUps, get_update, get_update, hrow, map_some, map_some]
    refine ⟨_, rfl, ?_⟩
    split
    · rename_i hid
      have hown : i = report.turnId := beq_iff_eq.mp hid
      rw [if_neg]
      · have hclosed : report.status.status.inFlight = false := by
          cases report.status <;> rfl
        refine ⟨fun h => absurd h (eq_false_iff.mp hclosed), fun h => .inl h,
          fun _ => .inr ⟨report, rfl, hfin, hown⟩, fun h => ?_, fun h => ?_, fun h => ?_⟩
        · cases hstatus : report.status <;> rw [Turn.close, hstatus] at h <;> cases h
        · refine .inr (beq_iff_eq.mpr ?_)
          cases hstatus : report.status <;> rw [Turn.close, hstatus] at h <;> first | rfl | cases h
        · exact absurd h (outcome_status_ne report.status).2
      · cases hstatus : report.status <;> simp [Turn.joins, Turn.close, TurnOutcome.status]
    · refine fate_ite fun hjoins => ?_
      obtain ⟨hmem, hjoins⟩ := and_eq_true_iff.mp hjoins
      exact ⟨(by rintro ⟨⟩), fun h => .inl h, (by rintro ⟨⟩),
        fun _ => .inr ⟨report.conversationId, report.turnId, report.joined, rfl, contains_iff_mem.mp hmem, hjoins⟩,
        (by rintro ⟨⟩), (by rintro ⟨⟩)⟩
  obtain ⟨u, hu, hfate⟩ := hsettled
  rw [closeTurn] at hrow'
  split at hrow'
  · rename_i habort
    rw [get_update, hu, map_some] at hrow'
    cases hrow'
    split
    · exact ⟨(by rintro ⟨⟩), hfate.delivered, (by rintro ⟨⟩), (by rintro ⟨⟩), fun _ => .inr (beq_iff_eq.mpr habort), (by rintro ⟨⟩)⟩
    · exact hfate
  · cases hu.symm.trans hrow'
    exact hfate

theorem begin_fate (h : begin windows now db choice = some (db', point')) (hrow : db.turns[i]? = some t)
    (hrow' : db'.turns[i]? = some t') : Fate choice .idle db i t t' := by
  cases choice with
  | proceed => cases h
  | receiveWebhook =>
    simp only [begin] at h
    split at h <;> cases h <;> exact fate_of_turns_eq hrow hrow' rfl
  | finishTurn report =>
    have hdb := congrArg Prod.fst (some.inj h)
    change (finishTurn now report db).1 = db' at hdb
    rw [← hdb] at hrow'
    rcases finishTurn_cases now report with ⟨-, change, hchange, h⟩ | ⟨hfin, h⟩ | ⟨-, h⟩ <;> rw [h] at hrow'
    · refine fate_of_update hrow hrow' (fate_ite fun _ => ?_)
      rcases hchange with rfl | rfl
      · exact fate_ite fun _ => fate_of_open rfl rfl
      · exact fate_ite fun _ => fate_of_open rfl rfl
    · exact closeTurn_fate hfin hrow hrow'
    · exact fate_of_turns_eq hrow hrow' rfl
  | applyTurnEvents =>
    cases h
    exact applyTurnEvents_fate hrow hrow'
  | applyTurnProgress =>
    cases h
    rw [applyTurnProgress] at hrow'
    split at hrow'
    · exact fate_of_update hrow hrow' (fate_ite fun _ => fate_of_status_eq rfl (fun h => h) rfl)
    · exact fate_of_turns_eq hrow hrow' rfl
  | applyRunnerEvent =>
    simp only [begin, Option.some.injEq] at h
    split at h <;> cases h <;> exact fate_of_turns_eq hrow hrow' rfl
  | requestSandboxRespawn =>
    cases h
    simp only [requestSandboxRespawn] at hrow'
    split at hrow'
    · exact fate_of_update hrow hrow' (fate_ite fun _ => fate_strand now false)
    · exact fate_of_turns_eq hrow hrow' rfl
  | requestAgentRestart =>
    cases h
    refine fate_of_update hrow hrow' (fate_ite fun _ => ?_)
    exact fate_ite fun _ => fate_of_open rfl rfl
  | parkUnstartableClaim =>
    cases h
    simp only [parkUnstartableClaim] at hrow'
    split at hrow'
    · exact fate_of_update hrow hrow' (fate_ite fun _ => fate_of_open rfl rfl)
    · exact fate_of_turns_eq hrow hrow' rfl
  | claimDueWork =>
    cases h
    exact claimDueWork_fate hrow hrow'
  | reclaimStaleTurns | failStalledTurns | expireWedgedFollowUps =>
    cases h
    exact fate_of_update hrow hrow' (fate_ite fun _ => fate_of_open rfl rfl)
  | _ =>
    cases h
    exact fate_of_turns_eq hrow hrow' rfl

/-- Every statement gives each turn its fate. -/
theorem exec_fate (h : exec windows (now, choice) db point = some (db', point')) (hrow : db.turns[i]? = some t)
    (hrow' : db'.turns[i]? = some t') : Fate choice point db i t t' := by
  rcases exec_cases h with ⟨answer, rfl, hproceed⟩ | ⟨rfl, hbegin⟩
  · exact proceed_fate hproceed hrow hrow'
  · exact begin_fate hbegin hrow hrow'

/-- A follow-up that `settleJoinedFollowUps` takes waits no longer. -/
theorem settleJoinedFollowUps_row {conv target : ℕ} {k : ℕ} {f : Turn} (hrow : db.turns[k]? = some f)
    (hmem : k ∈ joined) (hjoins : f.joins conv target = true) :
    (settleJoinedFollowUps now conv target joined db).turns[k]? =
      some { f with status := .joined, updatedAt := now } := by
  rw [settleJoinedFollowUps, get_update, hrow, map_some]
  rw [contains_iff_mem.mpr hmem, hjoins]
  rfl

theorem exec_takesIn (h : exec windows (now, choice) db point = some (db', point')) {conv target : ℕ}
    (hchoice : choice.takesIn = some (conv, target, joined)) (hrow : db.turns[i]? = some t)
    (hrow' : db'.turns[i]? = some t') (hwaits : t.status ≠ .joined) (htaken : t'.status = .joined) {k : ℕ} {f : Turn}
    (hfollowUp : db.turns[k]? = some f) (hmem : k ∈ joined) (hjoins : f.joins conv target = true) :
    ∃ f', db'.turns[k]? = some f' ∧ f'.status = .joined := by
  have hjoin : f.status = .joining := by
    simp only [Turn.joins, and_eq_true, beq_iff_eq] at hjoins
    exact hjoins.1.2
  have hquiet : db'.turns ≠ db.turns := by
    intro hturns
    rw [hturns] at hrow'
    cases hrow.symm.trans hrow'
    exact hwaits htaken
  rcases exec_cases h with ⟨answer, rfl, -⟩ | ⟨rfl, hbegin⟩
  · cases hchoice
  cases choice with
  | applyTurnEvents =>
    cases hchoice
    cases hbegin
    rw [applyTurnEvents] at hquiet ⊢
    split
    · refine ⟨_, settleJoinedFollowUps_row ?_ hmem hjoins, rfl⟩
      rw [get_update, hfollowUp, map_some, if_neg]
      rw [hjoin, and_eq_true]
      exact fun h => by cases h.2
    · rename_i hforeign
      rw [if_neg hforeign] at hquiet
      exact absurd rfl hquiet
  | finishTurn report =>
    cases hchoice
    have hdb := congrArg Prod.fst (some.inj hbegin)
    change (finishTurn now report db).1 = db' at hdb
    rw [← hdb] at hrow' hquiet ⊢
    rcases finishTurn_cases now report with ⟨-, change, hchange, h⟩ | ⟨hfin, h⟩ | ⟨-, h⟩ <;> rw [h] at hrow' hquiet ⊢
    · -- a turn that goes back in the queue is not taken in
      have hopen : t'.status = .queued ∨ t' = t := by
        rw [get_update, hrow, map_some] at hrow'
        cases hrow'
        split
        · rcases hchange with rfl | rfl
          · rw [reviveColdTurn]
            split
            · exact .inl rfl
            · exact .inr rfl
          · rw [resumeInterruptedTurn]
            split
            · exact .inl rfl
            · exact .inr rfl
        · exact .inr rfl
      rcases hopen with hqueued | rfl
      · cases hqueued.symm.trans htaken
      · exact absurd htaken hwaits
    · have hother : ¬ (k == report.turnId) = true := by
        intro hid
        have hactive := active_of_finishes hfin hfollowUp hid
        rw [hjoin] at hactive
        cases hactive
      have hclosed : (db.update fun i t => if i == report.turnId then t.close now report.status else t).turns[k]? =
          some f := by
        rw [get_update, hfollowUp, map_some, if_neg hother]
      have hsettled : (settleJoinedFollowUps now report.conversationId report.turnId report.joined
          (db.update fun i t => if i == report.turnId then t.close now report.status else t)).turns[k]? =
            some { f with status := .joined, updatedAt := now } :=
        settleJoinedFollowUps_row hclosed hmem hjoins
      refine ⟨{ f with status := .joined, updatedAt := now }, ?_, rfl⟩
      rw [closeTurn]
      split
      · rw [get_update, hsettled, map_some, if_neg]
        rw [and_eq_true]
        exact fun h => by cases h.2
      · exact hsettled
    · exact absurd rfl hquiet
  | _ => cases hchoice

end Fates

section Points

/-- The turn that `abortTurn` is at work on. -/
def Point.stops : Point → Option ℕ
  | .abort turnId _ | .abortJoining turnId _ | .abortQueued turnId _ _ | .sweepQueued turnId _ => some turnId
  | .flag turnId _ | .sweepUndelivered turnId _ | .flagDelivered turnId _ => some turnId
  | _ => none

/-- The conversation that `abortTurn` has read. -/
def Point.stopsIn : Point → Option ℕ
  | .abortQueued _ conversation _ | .sweepQueued _ conversation | .flag _ conversation => some conversation
  | .sweepUndelivered _ conversation | .flagDelivered _ conversation => some conversation
  | _ => none

/-- How a statement leads to the next: a promotion has just been found to be the oldest, and `abortTurn` goes on with
the turn that it was asked for, in the conversation that it read. -/
structure Leads (choice : Choice) (point point' : Point) (db db' : Db) : Prop where
  promote : ∀ turnId after, point' = .promote turnId after →
    db' = db ∧ ∃ conversation, db.isOldestParked conversation turnId = true
  stops : ∀ turnId, point'.stops = some turnId → point.stops = some turnId ∨ choice = .abortTurn turnId
  stopsIn : ∀ turnId conversation, point'.stops = some turnId → point'.stopsIn = some conversation →
    (point.stops = some turnId ∧ point.stopsIn = some conversation) ∨ db.Sits turnId conversation

/-- A point that neither promotes nor stops. -/
def Point.quiet : Point → Bool
  | .promote .. => false
  | point => point.stops.isNone

variable {windows : Windows} {now : ℕ} {choice : Choice} {point point' : Point} {db db' : Db}

/-- A quiet point may come after any. -/
theorem leads_of_quiet (h : point'.quiet = true) : Leads choice point point' db db' := by
  have hnone : point'.stops = none := by
    cases point' <;> first | rfl | cases h
  refine ⟨fun turnId after hpoint => ?_, fun turnId hstops => ?_, fun turnId conv hstops => ?_⟩
  · rw [hpoint] at h
    cases h
  · rw [hnone] at hstops
    cases hstops
  · rw [hnone] at hstops
    cases hstops

theorem leads_of_stops (hstops : point'.stops = point.stops)
    (hsame : point'.stopsIn = none ∨ point'.stopsIn = point.stopsIn) (hpoint : ∀ turnId after, point' ≠ .promote turnId after) :
    Leads choice point point' db db' := by
  refine ⟨fun turnId after h => absurd h (hpoint turnId after), fun turnId h => .inl (hstops ▸ h), ?_⟩
  intro turnId conv h hin
  rcases hsame with hnone | hsame
  · rw [hnone] at hin
    cases hin
  · exact .inl ⟨hstops ▸ h, hsame ▸ hin⟩

theorem quiet_next (promoted : Bool) (after : After) : (after.next promoted).quiet = true := by
  cases after with
  | send => cases promoted <;> rfl
  | _ => rfl

theorem quiet_settleSweptTurns (db : Db) (turnIds : List ℕ) : (settleSweptTurns db turnIds).quiet = true := by
  cases turnIds <;> rfl

theorem quiet_afterStrand (event : RunnerEvent) : event.afterStrand.quiet = true := by
  rw [RunnerEvent.afterStrand]
  split
  · split <;> rfl
  · rfl

theorem leads_abortArm (turnId attempt : ℕ) :
    Leads choice (.abort turnId attempt) (abortArm turnId attempt db.turns[turnId]?) db db' := by
  cases hrow : db.turns[turnId]? with
  | none => exact leads_of_quiet rfl
  | some t =>
    have hturn : db.Sits turnId t.conversationId := ⟨t, hrow, rfl⟩
    have hreads (point' : Point) (hstops : point'.stops = some turnId) (hin : point'.stopsIn = some t.conversationId)
        (hpoint : ∀ target after, point' ≠ .promote target after) : Leads choice (.abort turnId attempt) point' db db' := by
      refine ⟨fun target after h => absurd h (hpoint target after), fun target h => .inl (hstops.symm.trans h), ?_⟩
      intro target conv h hconv
      cases hstops.symm.trans h
      cases hin.symm.trans hconv
      exact .inr hturn
    rw [abortArm]
    cases t.status with
    | joining => exact leads_of_stops rfl (.inl rfl) (by simp)
    | queued | dispatched | running => exact hreads _ rfl rfl (by simp)
    | _ => exact leads_of_quiet rfl

theorem proceed_leads {answer : Answer} (h : proceed now answer db point = some (db', point')) :
    Leads choice point point' db db' := by
  cases point with
  | idle => cases h
  | abort turnId attempt =>
    cases h
    split
    · exact leads_abortArm turnId attempt
    · exact leads_of_quiet rfl
  | abortJoining =>
    simp only [proceed, Option.some.injEq] at h
    split at h <;> cases h
    · exact leads_of_quiet rfl
    · exact leads_of_stops rfl (.inl rfl) (by simp)
  | abortQueued =>
    simp only [proceed, Option.some.injEq] at h
    split at h <;> cases h
    · exact leads_of_stops rfl (.inr rfl) (by simp)
    · exact leads_of_stops rfl (.inl rfl) (by simp)
  | flag turnId conv | sweepUndelivered turnId conv =>
    cases h
    exact leads_of_stops rfl (.inr rfl) (by simp)
  | promoteFind conv after =>
    simp only [proceed] at h
    split at h
    · cases h
      exact leads_of_quiet (quiet_next false after)
    · split at h <;> cases h
      rename_i holdest
      refine ⟨fun turnId after hpoint => ?_, by simp [Point.stops], by simp [Point.stops]⟩
      obtain ⟨rfl, -⟩ := Point.promote.inj hpoint
      exact ⟨rfl, conv, holdest⟩
  | promote turnId after =>
    simp only [proceed, Option.some.injEq] at h
    split at h <;> cases h <;> exact leads_of_quiet (quiet_next _ after)
  | send =>
    cases h
    split
    · exact leads_of_quiet rfl
    · split <;> exact leads_of_quiet rfl
  | sendPromoted message attempt | count message target | stillActive conv target
  | blocker turnId message | waitedOut reporter =>
    cases h
    split <;> exact leads_of_quiet rfl
  | createTurn message door =>
    simp only [proceed, Option.some.injEq] at h
    split at h <;> cases h
    · cases door <;> exact leads_of_quiet rfl
    · exact leads_of_quiet rfl
  | bookRefusal =>
    simp only [proceed, Option.some.injEq] at h
    split at h
    · cases h
      exact leads_of_quiet rfl
    · split at h <;> cases h
      · split <;> exact leads_of_quiet rfl
      · exact leads_of_quiet rfl
  | strand event =>
    cases h
    split
    · exact leads_of_quiet rfl
    · exact leads_of_quiet (quiet_afterStrand event)
  | wake event =>
    cases h
    exact leads_of_quiet (quiet_afterStrand event)
  | settle conv turnId outcome rest =>
    cases h
    split
    · exact leads_of_quiet rfl
    · exact leads_of_quiet (quiet_settleSweptTurns _ rest)
  | bookRun conv turnId outcome prior rest =>
    cases h
    exact leads_of_quiet (quiet_settleSweptTurns _ rest)
  | _ =>
    cases h
    exact leads_of_quiet rfl

theorem begin_leads (h : begin windows now db choice = some (db', point')) : Leads choice .idle point' db db' := by
  cases choice with
  | proceed => cases h
  | abortTurn =>
    cases h
    refine ⟨nofun, fun target hstops => .inr ?_, nofun⟩
    rw [some.inj hstops]
  | receiveWebhook =>
    simp only [begin] at h
    split at h <;> cases h <;> exact leads_of_quiet rfl
  | finishTurn report =>
    have hpoint := congrArg Prod.snd (some.inj h)
    change (finishTurn now report db).2 = point' at hpoint
    rw [← hpoint]
    rcases finishTurn_cases now report with ⟨-, change, -, h⟩ | ⟨-, h⟩ | ⟨-, h⟩ <;> rw [h] <;> exact leads_of_quiet rfl
  | applyRunnerEvent =>
    simp only [begin, Option.some.injEq] at h
    split at h <;> cases h
    · split <;> exact leads_of_quiet rfl
    · exact leads_of_quiet rfl
  | reclaimStaleTurns | failStalledTurns =>
    cases h
    exact leads_of_quiet (quiet_settleSweptTurns _ _)
  | _ =>
    cases h
    exact leads_of_quiet rfl

theorem exec_leads (h : exec windows (now, choice) db point = some (db', point')) :
    Leads choice point point' db db' := by
  rcases exec_cases h with ⟨answer, rfl, hproceed⟩ | ⟨rfl, hbegin⟩
  · exact proceed_leads hproceed
  · exact begin_leads hbegin

end Points

section Logs

/-- What a statement notes of the messages. -/
structure Noted (choice : Choice) (point : Point) (db : Db) (new : List Event) : Prop where
  steered : ∀ followUpId target, .steered followUpId target ∈ new → ∃ poll, choice = .claimDueWork poll ∧
    followUpId ∈ db.steers poll ∧ ∃ f, db.turns[followUpId]? = some f ∧ f.followUpOfTurnId = some target
  handed : ∀ turnId, .handed turnId ∈ new → ∃ t, db.turns[turnId]? = some t ∧ t.status.active = true
  flagged : ∀ turnId, .flagged turnId ∈ new → ∃ conversation, point = .flag turnId conversation

variable {windows : Windows} {now : ℕ} {choice : Choice} {point point' : Point} {db db' : Db}

variable {poll : Poll}

/-- What a poll steers. -/
theorem steers_row {followUp : ℕ} (h : followUp ∈ db.steers poll) :
    ∃ f target, db.turns[followUp]? = some f ∧ f.followUpOfTurnId = some target ∧ f.status = .joining ∧
      f.steerDeliveredAt = none ∧ db.turns.any (·.blocks f) = false := by
  obtain ⟨-, hat⟩ := mem_filter.mp h
  obtain ⟨f, hrow, hdue⟩ := at_iff.mp hat
  simp only [Db.steerDue, and_eq_true, beq_iff_eq, Bool.not_eq_true', isNone_iff_eq_none] at hdue
  obtain ⟨⟨⟨⟨⟨⟨⟨-, hjoin⟩, hundelivered⟩, htargeted⟩, -⟩, -⟩, hfree⟩, -⟩ := hdue
  obtain ⟨target, htarget, -⟩ := (Option.any_eq_true _ _).mp htargeted
  exact ⟨f, target, hrow, htarget, hjoin, hundelivered, hfree⟩

theorem steeredTo_claimAborts {followUp target : ℕ} {f : Turn} (hrow : db.turns[followUp]? = some f)
    (htarget : f.followUpOfTurnId = some target) :
    (claimAborts now poll db).steeredTo followUp = .steered followUp target := by
  rw [Db.steeredTo, claimAborts, get_update, hrow, map_some, bind_some]
  split <;> rw [htarget] <;> rfl

theorem steered_after {followUp turnId : ℕ}
    (h : .steered followUp turnId ∈ ((claimAborts now poll db).steers poll).map (claimAborts now poll db).steeredTo) :
    ∃ f, (claimDueWork windows now poll db).turns[followUp]? = some f ∧ f.followUpOfTurnId = some turnId ∧
      f.steerDeliveredAt.isSome := by
  obtain ⟨i, hsteers, hevent⟩ := List.mem_map.mp h
  obtain ⟨f, target, hrow, htarget, -⟩ := steers_row hsteers
  rw [Db.steeredTo, hrow, bind_some, htarget] at hevent
  obtain ⟨rfl, rfl⟩ := Event.steered.inj hevent
  have hsteer : (claimSteers now poll (claimAborts now poll db)).turns[i]? =
      some { f with steerDeliveredAt := some now, updatedAt := now } := by
    refine (get_update _ i).trans ?_
    rw [hrow, map_some, if_pos (contains_iff_mem.mpr hsteers)]
  have hhanded : (claimDueWork windows now poll db).turns[i]? = _ :=
    (get_update _ i).trans (congrArg (Option.map _) hsteer)
  refine ⟨_, hhanded, ?_⟩
  split <;> exact ⟨htarget, rfl⟩

/-- What a claim logs. -/
theorem claim_log (h : exec windows (now, .claimDueWork poll) db point = some (db', point')) :
    ∃ handed steered, db'.log = handed ++ (steered ++ db.log) ∧
      (∀ event ∈ steered, ∃ followUp turnId, event = .steered followUp turnId ∧
        ∃ f, db'.turns[followUp]? = some f ∧ f.followUpOfTurnId = some turnId ∧ f.steerDeliveredAt.isSome) ∧
      ∀ i f target, i ∈ db.steers poll → db.turns[i]? = some f → f.followUpOfTurnId = some target →
        .steered i target ∈ steered := by
  rcases exec_cases h with ⟨answer, hchoice, -⟩ | ⟨-, hbegin⟩
  · cases hchoice
  cases hbegin
  refine ⟨_, _, rfl, fun event hmem => ?_, fun i f target hsteers hrow htarget => ?_⟩
  · obtain ⟨i, -, rfl⟩ := List.mem_map.mp hmem
    exact ⟨i, _, rfl, steered_after hmem⟩
  · refine List.mem_map.mpr ⟨i, ?_, steeredTo_claimAborts hrow htarget⟩
    rw [steers_claimAborts]
    exact hsteers

theorem handed_row {turnId : ℕ}
    (h : turnId ∈ (claimSteers now poll (claimAborts now poll db)).handed windows now poll) :
    ∃ t, db.turns[turnId]? = some t ∧ t.status.active = true := by
  obtain ⟨-, hat⟩ := mem_filter.mp h
  have hactive : (claimSteers now poll (claimAborts now poll db)).at turnId (·.status.active) = true := by
    obtain ⟨t, hrow, hdue⟩ := at_iff.mp hat
    refine at_iff.mpr ⟨t, hrow, ?_⟩
    simp only [Db.turnDue, and_eq_true, or_eq_true, beq_iff_eq] at hdue
    rcases hdue.1.2 with hqueued | ⟨hdisp, -⟩
    · rw [hqueued]
      rfl
    · rw [hdisp]
      rfl
  have hsteers : (claimSteers now poll (claimAborts now poll db)).at turnId (·.status.active) =
      (claimAborts now poll db).at turnId (·.status.active) := by
    refine at_update turnId fun t => ?_
    split <;> rfl
  have haborts : (claimAborts now poll db).at turnId (·.status.active) = db.at turnId (·.status.active) := by
    refine at_update turnId fun t => ?_
    split <;> rfl
  rw [hsteers, haborts] at hactive
  exact at_iff.mp hactive

theorem handed_of_claim (h : exec windows (now, .claimDueWork poll) db point = some (db', point')) {i : ℕ} {t t' : Turn}
    (hrow : db.turns[i]? = some t) (hrow' : db'.turns[i]? = some t') (hbefore : t.status.inFlight = false)
    (hafter : t'.status.inFlight = true) : .handed i ∈ db'.log := by
  rcases exec_cases h with ⟨answer, hchoice, -⟩ | ⟨-, hbegin⟩
  · cases hchoice
  cases hbegin
  have hsteer : ∃ v, (claimSteers now poll (claimAborts now poll db)).turns[i]? = some v ∧ v.status = t.status := by
    have habort : ∃ u, (claimAborts now poll db).turns[i]? = some u ∧ u.status = t.status := by
      refine ⟨_, (get_update _ i).trans (congrArg (Option.map _) hrow), ?_⟩
      dsimp only
      split <;> rfl
    obtain ⟨u, hu, hstatus⟩ := habort
    refine ⟨_, (get_update _ i).trans (congrArg (Option.map _) hu), ?_⟩
    split <;> exact hstatus
  obtain ⟨v, hv, hstatus⟩ := hsteer
  have hhanded : (claimDueWork windows now poll db).turns[i]? = _ :=
    (get_update _ i).trans (congrArg (Option.map _) hv)
  cases hhanded.symm.trans hrow'
  split at hafter
  · rename_i hin
    exact mem_append_left _ (List.mem_map_of_mem (contains_iff_mem.mp hin))
  · rw [hstatus, hbefore] at hafter
    cases hafter

/-- A statement logs as it says. -/
theorem exec_noted (h : exec windows (now, choice) db point = some (db', point')) :
    ∃ new, db'.log = new ++ db.log ∧ Noted choice point db new := by
  cases exec_notes h with
  | silent h => exact ⟨[], h, nofun, nofun, nofun⟩
  | claims poll hchoice h =>
    subst h hchoice
    refine ⟨_, (append_assoc _ _ _).symm, ?_⟩
    refine ⟨fun followUp target hmem => ?_, fun turnId hmem => ?_, fun turnId hmem => ?_⟩ <;>
      rcases mem_append.mp hmem with hhanded | hsteer
    · obtain ⟨i, -, hevent⟩ := List.mem_map.mp hhanded
      cases hevent
    · obtain ⟨i, hsteers, hevent⟩ := List.mem_map.mp hsteer
      rw [steers_claimAborts] at hsteers
      obtain ⟨f, target', hrow, htarget, -⟩ := steers_row hsteers
      rw [steeredTo_claimAborts hrow htarget] at hevent
      cases hevent
      exact ⟨poll, rfl, hsteers, f, hrow, htarget⟩
    · obtain ⟨i, hi, hevent⟩ := List.mem_map.mp hhanded
      cases hevent
      exact handed_row hi
    · obtain ⟨i, -, hevent⟩ := List.mem_map.mp hsteer
      cases hevent
    · obtain ⟨i, -, hevent⟩ := List.mem_map.mp hhanded
      cases hevent
    · obtain ⟨i, -, hevent⟩ := List.mem_map.mp hsteer
      cases hevent
  | flags turnId conv hpoint h =>
    refine ⟨[.flagged turnId], h, nofun, nofun, fun target hmem => ?_⟩
    cases mem_singleton.mp hmem
    exact ⟨conv, hpoint⟩
  | stops turnId conv hpoint hrows h => exact ⟨[.stopped turnId], h, nofun, nofun, nofun⟩
  | promotes turnId after hpoint hat h => exact ⟨[.promoted turnId], h, nofun, nofun, nofun⟩
  | settles conv turnId outcome rest hpoint h => exact ⟨[.settled turnId], h, nofun, nofun, nofun⟩
  | books turnId message hpoint h => exact ⟨[.booked turnId], h, nofun, nofun, nofun⟩

end Logs

end Onecli.Agents.Turns
