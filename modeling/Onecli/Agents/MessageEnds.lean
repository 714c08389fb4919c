import Onecli.Agents.MessageOrder
import Mathlib.Data.Finset.Card

/-!
# Every message has one end

A message ends as a turn of its own, in the one run that took it in, by a Stop, or as a failure, and stays so; while
it waits it can still be run. A Stop is a call of `abortTurn` for a turn of the conversation, whether the person
stops the run or takes the message back. What a run has taken in, and how it ended, is known by its reports.
-/

namespace Onecli.Agents.Turns

open Function (update update_of_ne update_self)
open List Option Bool Runs Nat

section Ends

/-- A Stop was asked for, for a turn of a conversation. -/
def StopAsked (front : List (ℕ × ℕ × Choice)) (db : Db) (conversation : ℕ) : Prop :=
  ∃ e ∈ front, ∃ turnId, e.2.2 = .abortTurn turnId ∧ db.Sits turnId conversation

/-- How the messages have ended. -/
structure Ended (front : List (ℕ × ℕ × Choice)) (db : Db) : Prop where
  ran : ∀ (i : ℕ) (t : Turn), db.turns[i]? = some t → t.status = .done → .handed i ∈ db.log
  joined : ∀ (i : ℕ) (t : Turn), db.turns[i]? = some t → t.status = .joined → .handed i ∉ db.log ∧
    ∃ target, t.followUpOfTurnId = some target ∧ .steered i target ∈ db.log ∧
      ∀ other, .steered i other ∈ db.log → other = target
  aborted : ∀ (i : ℕ) (t : Turn), db.turns[i]? = some t → t.status = .aborted → StopAsked front db t.conversationId

/-- A run that was handed over ends, and is said to be aborted when it was asked to stop. -/
def EndsHonestly (choice : Choice) (db : Db) : Prop :=
  ∀ report, choice = .finishTurn report → db.finishes report = true →
    .handed report.turnId ∈ db.log ∧ (report.status = .aborted → .flagged report.turnId ∈ db.log)

/-- A statement keeps the ends of the messages. -/
structure KeepsMessages (w : Calls.World Db Point) (e : ℕ × ℕ × Choice) : Prop where
  order : KeepsOrder e.2.2 w.db
  report : EndsHonestly e.2.2 w.db
  refusal : RefusesQueued w.db (w.calls e.1) = true

/-- What holds while the ends are kept. -/
structure Tracked (front : List (ℕ × ℕ × Choice)) (w : Calls.World Db Point) : Prop where
  line : InLine w
  one : OneActive w.db
  handed : ∀ i, .handed i ∈ w.db.log → ∃ t, w.db.turns[i]? = some t ∧ t.status ≠ .joining ∧ t.status ≠ .joined
  flight : ∀ (i : ℕ) (t : Turn), w.db.turns[i]? = some t → t.status.inFlight = true → .handed i ∈ w.db.log
  ran : ∀ (i : ℕ) (t : Turn), w.db.turns[i]? = some t → t.status = .done → .handed i ∈ w.db.log
  delivered : ∀ (i : ℕ) (t : Turn), w.db.turns[i]? = some t → t.status = .joined → t.steerDeliveredAt.isSome
  stopped : ∀ (i : ℕ) (t : Turn), w.db.turns[i]? = some t → t.status = .aborted →
    StopAsked front w.db t.conversationId
  waiting : ∀ (i : ℕ) (t : Turn), w.db.turns[i]? = some t → t.status = .joining → t.abortRequested = true →
    StopAsked front w.db t.conversationId
  flagged : ∀ i, .flagged i ∈ w.db.log → ∃ e ∈ front, e.2.2 = .abortTurn i
  calls : ∀ n turnId, (w.calls n).stops = some turnId → (∃ e ∈ front, e.2.2 = .abortTurn turnId) ∧
    ∀ conversation, (w.calls n).stopsIn = some conversation → w.db.Sits turnId conversation
  /-- All calls but finitely many are idle. -/
  idle : ∃ bound, ∀ n ≥ bound, w.calls n = .idle

variable {front : List (ℕ × ℕ × Choice)} {windows : Windows} {e : ℕ × ℕ × Choice} {point' : Point} {db' : Db}
  {w : Calls.World Db Point} {i : ℕ} {t t' : Turn}

theorem StopAsked.mono {windows : Windows} {now : ℕ} {choice : Choice} {point : Point} {db : Db} {conv : ℕ}
    (h : StopAsked front db conv) (hchanges : Changes windows now choice point db db') (e : ℕ × ℕ × Choice) :
    StopAsked (front ++ [e]) db' conv := by
  obtain ⟨f, hmem, turnId, hstop, hsits⟩ := h
  exact ⟨f, mem_append_left _ hmem, turnId, hstop, hchanges.sits hsits⟩

theorem Becomes.handed {now : ℕ} {choice : Choice} {point : Point} {db : Db}
    (h : Becomes windows now choice point db i t t') (hwaits : t.status ≠ .joining) (hjoined : t.status ≠ .joined) :
    t'.status ≠ .joining ∧ t'.status ≠ .joined := by
  cases h with
  | moves _ hmoves =>
    have hedge := hmoves.edge
    revert hedge hwaits hjoined
    generalize t.status = s
    generalize t'.status = s'
    cases s <;> cases s' <;> decide
  | promoted after hpoint hjoin => exact absurd hjoin hwaits
  | refused => exact ⟨nofun, nofun⟩

theorem Tracked.keeps_handed (htracked : Tracked front w)
    (h : exec windows e.2 w.db (w.calls e.1) = some (db', point')) (hhanded : .handed i ∈ db'.log) :
    ∃ t', db'.turns[i]? = some t' ∧ t'.status ≠ .joining ∧ t'.status ≠ .joined := by
  obtain ⟨new, hlog, hnoted⟩ := exec_noted h
  have hbefore : ∃ t, w.db.turns[i]? = some t ∧ t.status ≠ .joining ∧ t.status ≠ .joined := by
    rw [hlog] at hhanded
    rcases mem_append.mp hhanded with hnew | hold
    · obtain ⟨t, hrow, hactive⟩ := hnoted.handed i hnew
      refine ⟨t, hrow, ?_, ?_⟩ <;> intro hstatus <;> rw [hstatus] at hactive <;> cases hactive
    · exact htracked.handed i hold
  obtain ⟨t, hrow, hwaits, hjoined⟩ := hbefore
  obtain ⟨t', hrow', hgoes⟩ := (exec_changes h).get hrow
  exact ⟨t', hrow', hgoes.handed hwaits hjoined⟩

/-- A row was there, or is new. -/
theorem back_cases (h : exec windows e.2 w.db (w.calls e.1) = some (db', point')) (hrow' : db'.turns[i]? = some t') :
    (∃ t, w.db.turns[i]? = some t ∧ Becomes windows e.2.1 e.2.2 (w.calls e.1) w.db i t t' ∧
        Fate e.2.2 (w.calls e.1) w.db i t t') ∨
      ((t'.status = .joining ∨ t'.status = .queued) ∧ t'.abortRequested = false) := by
  rcases (exec_changes h).back hrow' with ⟨t, hrow, hgoes⟩ | ⟨message, target, -, -, rfl⟩ | ⟨message, door, -, -, -, rfl⟩
  · exact .inl ⟨t, hrow, hgoes, exec_fate h hrow hrow'⟩
  · exact .inr ⟨.inl rfl, rfl⟩
  · exact .inr ⟨.inr rfl, rfl⟩

section

variable (htracked : Tracked front w)
include htracked

theorem Tracked.keeps_flight (h : exec windows e.2 w.db (w.calls e.1) = some (db', point'))
    (hrow' : db'.turns[i]? = some t') (hflight : t'.status.inFlight = true) : .handed i ∈ db'.log := by
  obtain ⟨new, hlog, -⟩ := exec_noted h
  rcases back_cases h hrow' with ⟨t, hrow, -, hfate⟩ | ⟨hnew | hnew, -⟩
  · by_cases hbefore : t.status.inFlight = true
    · rw [hlog]
      exact mem_append_right _ (htracked.flight i t hrow hbefore)
    · obtain ⟨poll, hchoice⟩ := (hfate.handed hflight).resolve_left hbefore
      obtain ⟨n, now, choice⟩ := e
      subst hchoice
      exact handed_of_claim h hrow hrow' ((not_eq_true _).mp hbefore) hflight
  · rw [hnew] at hflight
    cases hflight
  · rw [hnew] at hflight
    cases hflight

theorem Tracked.keeps_ran (hkeeps : KeepsMessages w e) (h : exec windows e.2 w.db (w.calls e.1) = some (db', point'))
    (hrow' : db'.turns[i]? = some t') (hdone : t'.status = .done) : .handed i ∈ db'.log := by
  obtain ⟨new, hlog, -⟩ := exec_noted h
  rw [hlog]
  refine mem_append_right _ ?_
  rcases back_cases h hrow' with ⟨t, hrow, -, hfate⟩ | ⟨hnew | hnew, -⟩
  · rcases hfate.done hdone with hold | ⟨report, hchoice, hfin, rfl⟩
    · exact htracked.ran i t hrow hold
    · exact (hkeeps.report report hchoice hfin).1
  · cases hnew.symm.trans hdone
  · cases hnew.symm.trans hdone

theorem Tracked.keeps_joined (h : exec windows e.2 w.db (w.calls e.1) = some (db', point'))
    (hrow' : db'.turns[i]? = some t') (hjoined : t'.status = .joined) : t'.steerDeliveredAt.isSome := by
  rcases back_cases h hrow' with ⟨t, hrow, hgoes, hfate⟩ | ⟨hnew | hnew, -⟩
  · refine hgoes.kept.2.2.2.1 ?_
    rcases hfate.joined hjoined with hold | ⟨conv, target, joined, -, -, hjoins⟩
    · exact htracked.delivered i t hrow hold
    · exact (and_eq_true_iff.mp hjoins).2
  · cases hnew.symm.trans hjoined
  · cases hnew.symm.trans hjoined

theorem Tracked.asked {turnId conv : ℕ} (hstops : (w.calls e.1).stops = some turnId)
    (hsits : w.db.Sits turnId conv) : StopAsked front w.db conv := by
  obtain ⟨⟨f, hmem, hstop⟩, -⟩ := htracked.calls e.1 turnId hstops
  exact ⟨f, hmem, turnId, hstop, hsits⟩

section

variable (hkeeps : KeepsMessages w e) (h : exec windows e.2 w.db (w.calls e.1) = some (db', point'))
include hkeeps h

theorem Tracked.stops (hrow : w.db.turns[i]? = some t)
    (hcloses : closes windows e.2.1 w.db e.2.2 (w.calls e.1) i t = true)
    (hstopping : stopping e.2.2 (w.calls e.1) = true) : StopAsked front w.db t.conversationId := by
  have hown {turnId : ℕ} (hid : (i == turnId) = true) (hstops : (w.calls e.1).stops = some turnId) :
      StopAsked front w.db t.conversationId := by
    obtain rfl := beq_iff_eq.mp hid
    exact htracked.asked hstops ⟨t, hrow, rfl⟩
  have hswept {turnId conv : ℕ} (hconv : (t.conversationId == conv) = true)
      (hstops : (w.calls e.1).stops = some turnId) (hin : (w.calls e.1).stopsIn = some conv) :
      StopAsked front w.db t.conversationId := by
    obtain rfl := beq_iff_eq.mp hconv
    exact htracked.asked hstops ((htracked.calls e.1 turnId hstops).2 _ hin)
  rcases exec_cases h with ⟨answer, hchoice, -⟩ | ⟨hidle, hbegin⟩
  · rw [hchoice] at hcloses hstopping
    cases hpoint : w.calls e.1 with
    | abortJoining turnId attempt | abortQueued turnId conv attempt =>
      rw [hpoint] at hcloses
      exact hown (and_eq_true_iff.mp hcloses).1 (by rw [hpoint]; rfl)
    | sweepQueued =>
      rw [hpoint] at hcloses
      exact hswept (and_eq_true_iff.mp hcloses).1 (by rw [hpoint]; rfl) (by rw [hpoint]; rfl)
    | sweepUndelivered =>
      rw [hpoint] at hcloses
      have htest := (and_eq_true_iff.mp hcloses).1
      exact hswept (and_eq_true_iff.mp htest).1 (by rw [hpoint]; rfl) (by rw [hpoint]; rfl)
    | promoteFlagged =>
      rw [hpoint] at hcloses
      obtain ⟨htest, hflag⟩ := and_eq_true_iff.mp hcloses
      exact htracked.waiting i t hrow (beq_iff_eq.mp (and_eq_true_iff.mp htest).2) hflag
    | _ =>
      rw [hpoint] at hstopping
      cases hstopping
  · cases hchoice : e.2.2 with
    | finishTurn report =>
      rw [hchoice] at hcloses hstopping
      have habort : report.status = .aborted := beq_iff_eq.mp hstopping
      obtain ⟨hfin, hwhich⟩ := and_eq_true_iff.mp hcloses
      obtain ⟨f, hmem, hstop⟩ := htracked.flagged _ ((hkeeps.report report hchoice hfin).2 habort)
      have hreported : w.db.Sits report.turnId report.conversationId := by
        have hreported := (and_eq_true_iff.mp (and_eq_true_iff.mp hfin).1).1
        obtain ⟨turn, hturn, htest⟩ := at_iff.mp hreported
        exact ⟨turn, hturn, beq_iff_eq.mp (and_eq_true_iff.mp htest).1⟩
      rcases or_eq_true_iff.mp hwhich with hid | hwaits
      · obtain rfl := beq_iff_eq.mp hid
        exact ⟨f, hmem, _, hstop, t, hrow, rfl⟩
      · simp only [and_eq_true, beq_iff_eq] at hwaits
        obtain ⟨⟨⟨-, hconv⟩, -⟩, -⟩ := hwaits
        rw [hconv]
        exact ⟨f, hmem, _, hstop, hreported⟩
    | _ =>
      rw [hchoice] at hstopping
      rw [hidle] at hstopping
      cases hstopping

theorem Tracked.keeps_stopped (hrow' : db'.turns[i]? = some t') (habort : t'.status = .aborted) : StopAsked
    (front ++ [e]) db' t'.conversationId := by
  rcases back_cases h hrow' with ⟨t, hrow, hgoes, hfate⟩ | ⟨hnew | hnew, -⟩
  · rw [hgoes.kept.1]
    refine .mono ?_ (exec_changes h) e
    by_cases hbefore : t.status = .aborted
    · exact htracked.stopped i t hrow hbefore
    · have hstopping := (hfate.aborted habort).resolve_left hbefore
      cases hgoes with
      | moves _ hmoves =>
        have hopen : t.status.terminal = false := by
          have hedge := hmoves.edge
          rw [habort] at hedge
          revert hedge hbefore
          generalize t.status = s
          cases s <;> decide
        exact htracked.stops hkeeps h hrow (hmoves.ends hopen (habort ▸ rfl)) hstopping
      | promoted | refused => cases habort
  · cases hnew.symm.trans habort
  · cases hnew.symm.trans habort

end

section

variable (h : exec windows e.2 w.db (w.calls e.1) = some (db', point'))
include h

theorem Tracked.keeps_waiting (hrow' : db'.turns[i]? = some t') (hwaits : t'.status = .joining)
    (hflag : t'.abortRequested = true) : StopAsked (front ++ [e]) db' t'.conversationId := by
  rcases back_cases h hrow' with ⟨t, hrow, hgoes, hfate⟩ | ⟨-, hnew⟩
  · rw [hgoes.kept.1]
    refine .mono ?_ (exec_changes h) e
    rcases hfate.flagged hwaits hflag with hold | ⟨conv, hpoint⟩ | ⟨turnId, conv, hpoint, hjoins⟩
    · exact htracked.waiting i t hrow (hgoes.joining hwaits) hold
    · exact htracked.asked (by rw [hpoint]; rfl) ⟨t, hrow, rfl⟩
    · have hstops : (w.calls e.1).stops = some turnId := by rw [hpoint]; rfl
      have hconv : t.conversationId = conv := by
        simp only [Turn.joins, and_eq_true, beq_iff_eq] at hjoins
        exact hjoins.1.1.1
      rw [hconv]
      exact htracked.asked hstops ((htracked.calls e.1 turnId hstops).2 conv (by rw [hpoint]; rfl))
  · rw [hnew] at hflag
    cases hflag

theorem Tracked.keeps_flagged (hflagged : .flagged i ∈ db'.log) : ∃ f ∈ front ++ [e], f.2.2 = .abortTurn i := by
  obtain ⟨new, hlog, hnoted⟩ := exec_noted h
  rw [hlog] at hflagged
  have hasked : ∃ f ∈ front, f.2.2 = .abortTurn i := by
    rcases mem_append.mp hflagged with hnew | hold
    · obtain ⟨conv, hpoint⟩ := hnoted.flagged i hnew
      exact (htracked.calls e.1 i (by rw [hpoint]; rfl)).1
    · exact htracked.flagged i hold
  obtain ⟨f, hmem, hstop⟩ := hasked
  exact ⟨f, mem_append_left _ hmem, hstop⟩

/-- A call of `abortTurn` goes on with the turn that it was asked for. -/
theorem Tracked.keeps_calls {n turnId : ℕ} (hstops : (update w.calls e.1 point' n).stops = some turnId) :
    (∃ f ∈ front ++ [e], f.2.2 = .abortTurn turnId) ∧ ∀ conv, (update w.calls e.1 point' n).stopsIn = some
    conv → db'.Sits turnId conv := by
  have hold {m : ℕ} (hstops : (w.calls m).stops = some turnId) :
      (∃ f ∈ front ++ [e], f.2.2 = .abortTurn turnId) ∧ ∀ conv,
        (w.calls m).stopsIn = some conv → db'.Sits turnId conv := by
    obtain ⟨⟨f, hmem, hstop⟩, hin⟩ := htracked.calls m turnId hstops
    exact ⟨⟨f, mem_append_left _ hmem, hstop⟩, fun conv h' => (exec_changes h).sits (hin conv h')⟩
  by_cases hn : n = e.1
  · rw [hn, update_self] at hstops ⊢
    have hleads := exec_leads h
    refine ⟨?_, fun conv hconv => ?_⟩
    · rcases hleads.stops turnId hstops with hbefore | hstart
      · exact (hold hbefore).1
      · exact ⟨e, mem_append_right _ mem_cons_self, hstart⟩
    · rcases hleads.stopsIn turnId conv hstops hconv with ⟨hbefore, hin⟩ | hreads
      · exact (hold hbefore).2 conv hin
      · exact (exec_changes h).sits hreads
  · rw [update_of_ne hn] at hstops ⊢
    exact hold hstops

end

/-- A statement keeps the messages tracked. -/
theorem Tracked.step (hkeeps : KeepsMessages w e) (h : exec windows e.2 w.db (w.calls e.1) = some (db', point')) :
    Tracked (front ++ [e]) ⟨db', update w.calls e.1 point'⟩ where
  line := htracked.line.step hkeeps.order h
  one := (exec_changes h).oneActive htracked.one
  handed _ hhanded := htracked.keeps_handed h hhanded
  flight _ _ hrow hflight := htracked.keeps_flight h hrow hflight
  ran _ _ hrow hdone := htracked.keeps_ran hkeeps h hrow hdone
  delivered _ _ hrow hjoined := htracked.keeps_joined h hrow hjoined
  stopped _ _ hrow habort := htracked.keeps_stopped hkeeps h hrow habort
  waiting _ _ hrow hwaits hflag := htracked.keeps_waiting h hrow hwaits hflag
  flagged _ hflagged := htracked.keeps_flagged h hflagged
  calls _ _ hstops := htracked.keeps_calls h hstops
  idle := by
    obtain ⟨bound, hbound⟩ := htracked.idle
    refine ⟨max bound (e.1 + 1), fun n hn => ?_⟩
    have hne : n ≠ e.1 := by omega
    exact (update_of_ne hne ..).trans (hbound n (by omega))

/-- What is tracked has its end. -/
theorem Tracked.ended : Ended front w.db where
  ran := htracked.ran
  joined i t hrow hjoined := by
    refine ⟨fun hhanded => ?_, ?_⟩
    · obtain ⟨u, hrow', -, hne⟩ := htracked.handed i hhanded
      cases hrow.symm.trans hrow'
      exact hne hjoined
    · obtain ⟨target, htarget, hsteer⟩ := htracked.line.delivered i t hrow (htracked.delivered i t hrow hjoined)
      refine ⟨target, htarget, hsteer, fun other hother => ?_⟩
      obtain ⟨f, hrow', htarget', -⟩ := htracked.line.steered i other hother
      cases hrow.symm.trans hrow'
      exact some.inj (htarget'.symm.trans htarget)
  aborted := htracked.stopped

end

end Ends

section Progress

/-- A run goes on from one state to another, and its steps keep the ends of the messages. -/
def Reaches (windows : Windows) (w v : Calls.World Db Point) : Prop :=
  ∃ more, Runs.Meets (Calls.step (exec windows)) KeepsMessages w more ∧
    run (Calls.step (exec windows)) w more = some v

variable {front : List (ℕ × ℕ × Choice)} {windows : Windows} {u v w : Calls.World Db Point} {n i j : ℕ} {t t' : Turn}

/-- Later states are reached. -/
theorem Reaches.trans (h : Reaches windows w v) (h' : Reaches windows v u) : Reaches windows w u := by
  obtain ⟨more, hmeets, hrun⟩ := h
  obtain ⟨rest, hmeets', hrun'⟩ := h'
  refine ⟨more ++ rest, ?_, ?_⟩
  · induction more generalizing w with
    | nil =>
      cases hrun
      exact hmeets'
    | cons e more ih =>
      obtain ⟨s, hstep, hrest⟩ := (run_cons_eq_some_iff _ w v e more).mp hrun
      exact meets_cons_of_eq _ hstep hmeets.1 (ih (hmeets.2 s hstep) hrest)
  · rw [run_append, hrun]
    exact hrun'

/-- A step that keeps messages reaches its result. -/
theorem reaches_step {e : ℕ × ℕ × Choice} (hkeeps : KeepsMessages w e) {db : Db} {point : Point}
    (hexec : exec windows e.2 w.db (w.calls e.1) = some (db, point)) :
    Reaches windows w ⟨db, update w.calls e.1 point⟩ := by
  have hstep := (Calls.step_eq_some_iff (exec windows) w ⟨db, update w.calls e.1 point⟩ e).mpr
    ⟨db, point, hexec, rfl⟩
  exact ⟨[e], meets_cons_of_eq _ hstep hkeeps trivial, (run_cons_eq_some_iff _ w _ e []).mpr ⟨_, hstep, rfl⟩⟩

theorem Tracked.reaches (htracked : Tracked front w) (h : Reaches windows w v) : ∃ later, Tracked later v := by
  obtain ⟨more, hmeets, hrun⟩ := h
  refine ⟨front ++ more, history_of_meets _ (fun front s e s' hs hkeeps hstep => ?_) htracked hmeets hrun⟩
  obtain ⟨db, point, hexec, rfl⟩ := (Calls.step_eq_some_iff (exec windows) s s' e).mp hstep
  exact hs.step hkeeps hexec

/-- A quiet statement keeps the messages. -/
theorem keepsMessages_of_quiet {now : ℕ} {choice : Choice} (htakesIn : choice.takesIn = none)
    (hclaim : ∀ poll, choice ≠ .claimDueWork poll) (hrefuse : RefusesQueued w.db (w.calls n) = true) :
    KeepsMessages w (n, now, choice) where
  order := by
    refine ⟨fun conv target joined h => ?_, fun poll h => absurd h (hclaim poll)⟩
    rw [htakesIn] at h
    cases h
  report report h _ := by
    change choice = .finishTurn report at h
    rw [h] at htakesIn
    cases htakesIn
  refusal := hrefuse

/-- A sandbox that is up. -/
def upSandbox : Sandbox := ⟨0, .running, none, none, false, false⟩

/-- The report of the sandbox that a turn is done. -/
def doneReport (agentId conversation turnId : ℕ) : FinishTurnInput := ⟨⟨0, agentId⟩, conversation, turnId, .done, false, []⟩

theorem reaches_done (windows : Windows) (hidle : w.calls n = .idle) (hrow : w.db.turns[i]? = some t) (hactive : t.status.active = true)
    (hup : w.db.sandboxes (w.db.agentOf t) = upSandbox) (hhanded : .handed i ∈ w.db.log) :
    ∃ v, Reaches windows w v ∧ (∃ t', v.db.turns[i]? = some t' ∧ t'.status = .done) ∧
      ∀ j ≠ i, v.db.turns[j]? = w.db.turns[j]? := by
  let report := doneReport (w.db.agentOf t) t.conversationId i
  have hreported : w.db.reported report.reporter report.conversationId report.turnId = true := by
    refine at_iff.mpr ⟨t, hrow, ?_⟩
    simp only [Db.hosts, report, doneReport, and_eq_true, beq_iff_eq]
    exact ⟨trivial, trivial, congrArg Sandbox.runnerId hup⟩
  have hfinish : finishTurn 0 report w.db = (closeTurn 0 report w.db,
      .promoteFlagged report.conversationId (.settle report.conversationId report.turnId report.status)) := by
    have hcloses : w.db.at report.turnId report.closes = true := at_iff.mpr ⟨t, hrow, hactive⟩
    have hrecovers : report.recovers = false := rfl
    rw [finishTurn, hreported, hcloses]
    rfl
  have hkeeps : KeepsMessages w (n, 0, .finishTurn report) := by
    refine ⟨⟨fun conv target joined h => ?_, fun poll h => by cases h⟩, fun report' h _ => ?_, ?_⟩
    · obtain rfl : [] = joined := congrArg (fun r => r.2.2) (some.inj h)
      simp
    · cases h
      exact ⟨hhanded, by rintro ⟨⟩⟩
    · rw [hidle]
      rfl
  have hexec : exec windows (0, .finishTurn report) w.db (w.calls n) = some (closeTurn 0 report w.db,
      .promoteFlagged report.conversationId (.settle report.conversationId report.turnId report.status)) := by
    rw [hidle]
    exact congrArg some hfinish
  refine ⟨_, reaches_step hkeeps hexec, ?_⟩
  have hrows (k : ℕ) : (closeTurn 0 report w.db).turns[k]? =
      w.db.turns[k]?.map fun t => if k == i then t.close 0 .done else t := by
    change (settleJoinedFollowUps 0 report.conversationId report.turnId [] _).turns[k]? = _
    rw [settleJoinedFollowUps, get_update, get_update, Option.map_map]
    rfl
  refine ⟨⟨t.close 0 .done, ?_, rfl⟩, fun j hj => ?_⟩
  · rw [hrows, hrow, map_some, if_pos (beq_self_eq_true i)]
  · have hother (t : Turn) : (if j == i then t.close 0 .done else t) = t := if_neg fun h => hj (beq_iff_eq.mp h)
    rw [hrows, funext hother]
    exact Option.map_id' ..

theorem reaches_handed (windows : Windows) (hidle : w.calls n = .idle) (hrow : w.db.turns[i]? = some t) (hqueued : t.status = .queued)
    (hup : w.db.sandboxes (w.db.agentOf t) = upSandbox) :
    ∃ v, Reaches windows w v ∧ v.calls n = .idle ∧ (∃ t', v.db.turns[i]? = some t' ∧ t'.status.active = true ∧
      v.db.sandboxes (v.db.agentOf t') = upSandbox) ∧ .handed i ∈ v.db.log ∧
      ∀ j ≠ i, v.db.turns[j]? = w.db.turns[j]? := by
  let poll : Poll := ⟨0, none, [], [], [i]⟩
  have hkeeps : KeepsMessages w (n, 0, .claimDueWork poll) := by
    refine ⟨⟨(fun _ _ _ h => by cases h), fun poll' h j hsteers => ?_⟩, (fun _ h => by cases h), ?_⟩
    · cases h
      cases hsteers
    · rw [hidle]
      rfl
  have hexec : exec windows (0, .claimDueWork poll) w.db (w.calls n) = some (claimDueWork windows 0 poll w.db, .idle) := by
    rw [hidle]
    rfl
  have hbefore (k : ℕ) : (claimSteers 0 poll (claimAborts 0 poll w.db)).turns[k]? = w.db.turns[k]? := by
    refine (get_update _ k).trans ?_
    rw [claimAborts, get_update, Option.map_map]
    exact Option.map_id' ..
  have hin : i ∈ (claimSteers 0 poll (claimAborts 0 poll w.db)).handed windows 0 poll := by
    refine mem_filter.mpr ⟨mem_cons_self, at_iff.mpr ⟨t, (hbefore i).trans hrow, ?_⟩⟩
    have hdue : w.db.turnDue windows 0 t = true := by
      simp only [Db.turnDue, hup, hqueued]
      rfl
    have hreaches : w.db.reaches poll t = true := by
      simp only [Db.reaches, hup]
      rfl
    exact and_eq_true_iff.mpr ⟨hdue, hreaches⟩
  have hrows (k : ℕ) : (claimDueWork windows 0 poll w.db).turns[k]? = w.db.turns[k]?.map fun t =>
      if ((claimSteers 0 poll (claimAborts 0 poll w.db)).handed windows 0 poll).contains k then
        { t with status := .dispatched, updatedAt := 0 }
      else t := (get_update _ k).trans (congrArg _ (hbefore k))
  refine ⟨_, reaches_step hkeeps hexec, update_self .., ⟨{ t with status := .dispatched, updatedAt := 0 }, ?_, rfl,
    hup⟩, ?_, fun j hj => ?_⟩
  · rw [hrows, hrow, map_some, if_pos (contains_iff_mem.mpr hin)]
  · exact mem_append_left _ (List.mem_map_of_mem hin)
  · have hother : ((claimSteers 0 poll (claimAborts 0 poll w.db)).handed windows 0 poll).contains j = false := by
      refine (not_eq_true _).mp fun hmem => hj ?_
      exact mem_singleton.mp (mem_filter.mp (contains_iff_mem.mp hmem)).1
    rw [hrows, hother]
    exact Option.map_id' ..

theorem Tracked.reaches_done_of_active (windows : Windows) (htracked : Tracked front w) (hrow : w.db.turns[i]? = some t)
    (hactive : t.status.active = true) :
    ∃ v, Reaches windows w v ∧ (∃ t', v.db.turns[i]? = some t' ∧ t'.status = .done) ∧
      ∀ j ≠ i, v.db.turns[j]? = w.db.turns[j]? := by
  obtain ⟨n, hbound⟩ := htracked.idle
  have hidle : w.calls n = .idle := hbound n (le_refl n)
  have hkeeps : KeepsMessages w (n, 0, .sandbox (w.db.agentOf t) upSandbox) := by
    refine keepsMessages_of_quiet rfl nofun ?_
    rw [hidle]
    rfl
  let up : Calls.World Db Point :=
    ⟨{ w.db with sandboxes := update w.db.sandboxes (w.db.agentOf t) upSandbox }, update w.calls n .idle⟩
  have hstart : Reaches windows w up := by
    refine reaches_step hkeeps ?_
    rw [hidle]
    rfl
  have hrest : up.calls n = .idle := update_self ..
  have hrow' : up.db.turns[i]? = some t := hrow
  have hup : up.db.sandboxes (up.db.agentOf t) = upSandbox := update_self ..
  by_cases hqueued : t.status = .queued
  · obtain ⟨v, hreaches, hidle', ⟨t', hnow, hactive', hup'⟩, hhanded, hothers⟩ :=
      reaches_handed windows hrest hrow' hqueued hup
    obtain ⟨u, hreaches', hdone, hothers'⟩ := reaches_done windows hidle' hnow hactive' hup' hhanded
    exact ⟨u, (hstart.trans hreaches).trans hreaches', hdone, fun j hj => (hothers' j hj).trans (hothers j hj)⟩
  · have hflight : t.status.inFlight = true := by
      revert hactive hqueued
      generalize t.status = s
      cases s <;> decide
    obtain ⟨v, hreaches, hdone, hothers⟩ :=
      reaches_done windows hrest hrow' hactive hup (htracked.flight i t hrow hflight)
    exact ⟨v, hstart.trans hreaches, hdone, hothers⟩

/-- A message waits in a conversation. -/
def Db.waits (db : Db) (conversation turnId : ℕ) : Bool :=
  db.at turnId fun t => t.conversationId == conversation && t.status == .joining

/-- The messages that wait in a conversation. -/
def Db.line (db : Db) (conversation : ℕ) : Finset ℕ :=
  (Finset.range db.turns.length).filter fun turnId => db.waits conversation turnId = true

theorem mem_line {db : Db} {conv turnId : ℕ} :
    turnId ∈ db.line conv ↔ db.waits conv turnId = true := by
  rw [Db.line, Finset.mem_filter, Finset.mem_range, and_iff_right_iff_imp]
  intro hwaits
  obtain ⟨t, hrow, -⟩ := at_iff.mp hwaits
  exact (List.getElem?_eq_some_iff.mp hrow).1

theorem exists_oldest {l : List Turn} (hne : l ≠ []) : ∃ f ∈ l, ∀ g ∈ l, f.createdAt ≤ g.createdAt := by
  induction l with
  | nil => exact absurd rfl hne
  | cons head tail ih =>
    by_cases htail : tail = []
    · subst htail
      exact ⟨head, mem_cons_self, fun g hg => (mem_singleton.mp hg) ▸ le_refl _⟩
    · obtain ⟨f, hf, hleast⟩ := ih htail
      by_cases hle : head.createdAt ≤ f.createdAt
      · refine ⟨head, mem_cons_self, fun g hg => ?_⟩
        rcases mem_cons.mp hg with rfl | hg
        · exact le_refl _
        · exact hle.trans (hleast g hg)
      · refine ⟨f, mem_cons_of_mem _ hf, fun g hg => ?_⟩
        rcases mem_cons.mp hg with rfl | hg
        · omega
        · exact hleast g hg

theorem exists_isOldestParked {db : Db} {conv : ℕ} (hrow : db.turns[i]? = some t)
    (hconv : t.conversationId = conv) (hjoin : t.status = .joining) :
    (db.parked conv).isEmpty = false ∧ ∃ o, db.isOldestParked conv o = true := by
  have hparked : t ∈ db.parked conv := by
    refine mem_filter.mpr ⟨mem_of_getElem? hrow, ?_⟩
    rw [hconv, hjoin, beq_self_eq_true]
    rfl
  have hne : db.parked conv ≠ [] := ne_nil_of_mem hparked
  refine ⟨isEmpty_eq_false_iff.mpr hne, ?_⟩
  obtain ⟨f, hf, hleast⟩ := exists_oldest hne
  obtain ⟨hmem, htest⟩ := mem_filter.mp hf
  obtain ⟨o, hlength, ho⟩ := mem_iff_getElem.mp hmem
  refine ⟨o, at_iff.mpr ⟨f, List.getElem?_eq_some_iff.mpr ⟨hlength, ho⟩, ?_⟩⟩
  rw [and_eq_true]
  exact ⟨htest, List.all_eq_true.mpr fun g hg => decide_eq_true (hleast g hg)⟩

theorem reaches_proceed (windows : Windows) {point point' : Point} {db : Db} (answer : Answer) (hpoint : w.calls n = point)
    (hrefuse : RefusesQueued w.db point = true) (h : proceed 0 answer w.db point = some (db, point')) :
    Reaches windows w ⟨db, update w.calls n point'⟩ := by
  subst hpoint
  exact reaches_step (e := (n, 0, .proceed answer)) (keepsMessages_of_quiet rfl nofun hrefuse) h

theorem Tracked.reaches_promoted (windows : Windows) (htracked : Tracked front w) (hrow : w.db.turns[i]? = some t)
    (hjoin : t.status = .joining) (hfree : w.db.occupied t.conversationId = false) :
    ∃ v, Reaches windows w v ∧ ((t.abortRequested = true ∧ ∃ t', v.db.turns[i]? = some t' ∧ t'.status = .aborted) ∨
      ((∃ t', v.db.turns[i]? = some t' ∧ t'.conversationId = t.conversationId ∧ (t'.status.active = true ∨ t' = t)) ∧
        v.db.line t.conversationId ⊂ w.db.line t.conversationId)) := by
  obtain ⟨n, hbound⟩ := htracked.idle
  have hidle : w.calls n = .idle := hbound n (le_refl n)
  let conv := t.conversationId
  let flagged (t : Turn) : Turn :=
    if t.conversationId == conv && t.status == .joining && t.abortRequested then t.close 0 .aborted else t
  let asked : Calls.World Db Point := ⟨w.db, update w.calls n (.promoteFlagged conv .return)⟩
  let swept : Calls.World Db Point := ⟨w.db.update fun _ => flagged, update asked.calls n (.promoteFind conv .return)⟩
  have hasked : Reaches windows w asked := by
    refine reaches_step (e := (n, 0, .promoteParkedFollowUps conv)) (keepsMessages_of_quiet rfl nofun ?_) ?_
    · rw [hidle]
      rfl
    · rw [hidle]
      rfl
  have hswept : Reaches windows w swept := hasked.trans (reaches_proceed windows ⟨0, false⟩ (update_self ..) rfl rfl)
  have hrow' : swept.db.turns[i]? = some (flagged t) := by rw [get_update, hrow, map_some]
  by_cases hflag : t.abortRequested = true
  · refine ⟨swept, hswept, .inl ⟨hflag, flagged t, hrow', ?_⟩⟩
    have htest : (t.conversationId == conv && t.status == .joining && t.abortRequested) = true := by
      rw [beq_self_eq_true, hjoin, hflag]
      rfl
    change (if _ then _ else _ : Turn).status = _
    rw [if_pos htest]
    rfl
  · -- the flagged ones are gone, and this one may be the oldest of the others
    have hkept : flagged t = t := by
      refine if_neg fun htest => hflag ?_
      exact (and_eq_true_iff.mp htest).2
    rw [hkept] at hrow'
    obtain ⟨hne, o, holdest⟩ := exists_isOldestParked hrow' rfl hjoin
    let found : Calls.World Db Point := ⟨swept.db, update swept.calls n (.promote o .return)⟩
    have hfound : Reaches windows w found := by
      refine hswept.trans (reaches_proceed windows ⟨o, false⟩ (update_self ..) rfl ?_)
      rw [proceed, if_neg (eq_false_iff.mp hne), if_pos holdest]
    have hadmits : (swept.db.at o fun t => t.status == .joining && !swept.db.occupied t.conversationId) = true := by
      obtain ⟨f, hf, htest⟩ := at_iff.mp holdest
      simp only [and_eq_true, beq_iff_eq] at htest
      obtain ⟨⟨hconv, hwaits⟩, -⟩ := htest
      have hfree' : swept.db.occupied conv = false := by
        refine (any_update fun _ t => ?_).trans hfree
        change ((if _ then _ else _ : Turn).conversationId == conv && (if _ then _ else _ : Turn).status.active) = _
        split
        · rename_i htest
          have hjoin := beq_iff_eq.mp (and_eq_true_iff.mp (and_eq_true_iff.mp htest).1).2
          rw [hjoin]
          exact (Bool.and_false _).trans (Bool.and_false _).symm
        · rfl
      refine at_iff.mpr ⟨f, hf, ?_⟩
      rw [hwaits, hconv, hfree']
      rfl
    let promoted : Calls.World Db Point := ⟨(swept.db.update fun i t =>
      if i == o then { t with status := .queued, promotedAt := some 0, updatedAt := 0 } else t).note [.promoted o],
        update found.calls n .idle⟩
    have hpromoted : Reaches windows w promoted := by
      refine hfound.trans (reaches_proceed windows ⟨0, false⟩ (update_self ..) rfl ?_)
      rw [proceed, if_pos hadmits]
      rfl
    have hrows (k : ℕ) : promoted.db.turns[k]? = swept.db.turns[k]?.map fun t =>
        if k == o then { t with status := .queued, promotedAt := some 0, updatedAt := 0 } else t := get_update _ k
    refine ⟨promoted, hpromoted, .inr ⟨⟨_, (hrows i).trans (congrArg (Option.map _) hrow'), ?_⟩, ?_⟩⟩
    · split
      · exact ⟨rfl, .inl rfl⟩
      · exact ⟨rfl, .inr rfl⟩
    · have hwaits {k : ℕ} (h : promoted.db.waits conv k = true) :
          k ≠ o ∧ w.db.waits conv k = true := by
        obtain ⟨f, hf, htest⟩ := at_iff.mp h
        rw [hrows, get_update, Option.map_map] at hf
        obtain ⟨g, hg, rfl⟩ := map_eq_some_iff.mp hf
        split at htest
        · cases (and_eq_true_iff.mp htest).2
        · rename_i hother
          refine ⟨fun h => hother (beq_iff_eq.mpr h), at_iff.mpr ⟨g, hg, ?_⟩⟩
          change ((if _ then _ else _ : Turn).conversationId == conv &&
            (if _ then _ else _ : Turn).status == .joining) = true at htest
          split at htest
          · cases (and_eq_true_iff.mp htest).2
          · exact htest
      have hoin : w.db.waits conv o = true := by
        obtain ⟨f, hf, htest⟩ := at_iff.mp holdest
        have htest' := (and_eq_true_iff.mp htest).1
        rw [get_update] at hf
        obtain ⟨g, hg, rfl⟩ := map_eq_some_iff.mp hf
        refine at_iff.mpr ⟨g, hg, ?_⟩
        change ((if _ then _ else _ : Turn).conversationId == conv &&
          (if _ then _ else _ : Turn).status == .joining) = true at htest'
        split at htest'
        · cases (and_eq_true_iff.mp htest').2
        · exact htest'
      refine Finset.ssubset_iff_of_subset (fun k hk => ?_) |>.mpr ⟨o, mem_line.mpr hoin, fun hk => ?_⟩
      · exact mem_line.mpr (hwaits (mem_line.mp hk)).2
      · exact (hwaits (mem_line.mp hk)).1 rfl

theorem Tracked.reaches_end_of_joining (windows : Windows) (htracked : Tracked front w)
    (hrow : w.db.turns[i]? = some t) (hjoin : t.status = .joining) {size : ℕ}
    (hsize : (w.db.line t.conversationId).card ≤ size) :
    ∃ v, Reaches windows w v ∧ ∃ t', v.db.turns[i]? = some t' ∧
      (t'.status = .done ∨ (t.abortRequested = true ∧ t'.status = .aborted)) := by
  induction size generalizing front w t with
  | zero =>
    have hwaits : w.db.waits t.conversationId i = true := by
      refine at_iff.mpr ⟨t, hrow, ?_⟩
      rw [hjoin, beq_self_eq_true]
      rfl
    have hempty := Finset.card_eq_zero.mp (le_zero.mp hsize)
    have hmem := mem_line.mpr hwaits
    rw [hempty] at hmem
    cases hmem
  | succ size ih =>
    -- the turn at work is done first
    have hfrees : ∃ v, Reaches windows w v ∧ v.db.turns[i]? = some t ∧ v.db.occupied t.conversationId = false ∧
        v.db.line t.conversationId ⊆ w.db.line t.conversationId := by
      by_cases hoccupied : w.db.occupied t.conversationId = true
      · obtain ⟨a, ha, htest⟩ := List.any_eq_true.mp hoccupied
        obtain ⟨hconv, hactive⟩ := and_eq_true_iff.mp htest
        obtain ⟨k, hlength, hk⟩ := mem_iff_getElem.mp ha
        have hak : w.db.turns[k]? = some a := List.getElem?_eq_some_iff.mpr ⟨hlength, hk⟩
        obtain ⟨v, hreaches, ⟨a', ha', hdone⟩, hothers⟩ := htracked.reaches_done_of_active windows hak hactive
        have hne : i ≠ k := by
          rintro rfl
          cases hrow.symm.trans hak
          rw [hjoin] at hactive
          cases hactive
        refine ⟨v, hreaches, (hothers i hne).trans hrow, ?_, fun m hm => ?_⟩
        · refine (not_eq_true _).mp fun hagain => ?_
          obtain ⟨b, hb, htest'⟩ := List.any_eq_true.mp hagain
          obtain ⟨hconversation', hactive'⟩ := and_eq_true_iff.mp htest'
          obtain ⟨m, hlength', hm⟩ := mem_iff_getElem.mp hb
          have hbm : v.db.turns[m]? = some b := List.getElem?_eq_some_iff.mpr ⟨hlength', hm⟩
          by_cases hmk : m = k
          · subst hmk
            cases ha'.symm.trans hbm
            rw [hdone] at hactive'
            cases hactive'
          · rw [hothers m hmk] at hbm
            have hsame := (beq_iff_eq.mp hconversation').trans (beq_iff_eq.mp hconv).symm
            exact hmk (htracked.one m k b a hbm hak hsame hactive' hactive)
        · obtain ⟨f, hf, hwaits⟩ := at_iff.mp (mem_line.mp hm)
          by_cases hmk : m = k
          · subst hmk
            cases ha'.symm.trans hf
            have hstatus := beq_iff_eq.mp (and_eq_true_iff.mp hwaits).2
            cases hdone.symm.trans hstatus
          · rw [hothers m hmk] at hf
            exact mem_line.mpr (at_iff.mpr ⟨f, hf, hwaits⟩)
      · exact ⟨w, ⟨[], trivial, rfl⟩, hrow, (not_eq_true _).mp hoccupied, fun _ h => h⟩
    obtain ⟨v, hreaches, hrow', hfree, hline⟩ := hfrees
    obtain ⟨later, htracked'⟩ := htracked.reaches hreaches
    obtain ⟨u, hpromotes, ⟨hflag, t', hnow, habort⟩ | ⟨⟨t', hnow, hconv, hactive | rfl⟩, hshorter⟩⟩ :=
      htracked'.reaches_promoted windows hrow' hjoin hfree
    · exact ⟨u, hreaches.trans hpromotes, t', hnow, .inr ⟨hflag, habort⟩⟩
    · obtain ⟨last, htracked''⟩ := htracked'.reaches hpromotes
      obtain ⟨x, hdone, ⟨t'', hthen, hstatus⟩, -⟩ := htracked''.reaches_done_of_active windows hnow hactive
      exact ⟨x, (hreaches.trans hpromotes).trans hdone, t'', hthen, .inl hstatus⟩
    · obtain ⟨last, htracked''⟩ := htracked'.reaches hpromotes
      have hsmaller : (u.db.line t'.conversationId).card ≤ size := by
        have hlt := Finset.card_lt_card (hshorter.trans_subset hline)
        omega
      obtain ⟨x, hends, hlast⟩ := ih htracked'' hnow hjoin hsmaller
      exact ⟨x, (hreaches.trans hpromotes).trans hends, hlast⟩

/-- A message that has not ended can still be run, or ends by the Stop that was asked for. -/
def CanEnd (windows : Windows) (w : Calls.World Db Point) : Prop :=
  ∀ (i : ℕ) (t : Turn), w.db.turns[i]? = some t → (t.status.terminal || t.status == .joined) = false →
    ∃ v, Reaches windows w v ∧ ∃ t', v.db.turns[i]? = some t' ∧
      (t'.status = .done ∨ (t.abortRequested = true ∧ t'.status = .aborted))

/-- A tracked message can end. -/
theorem Tracked.canEnd (windows : Windows) (htracked : Tracked front w) : CanEnd windows w := by
  intro i t hrow hopen
  by_cases hjoin : t.status = .joining
  · exact htracked.reaches_end_of_joining windows hrow hjoin (le_refl _)
  · have hactive : t.status.active = true := by
      revert hopen hjoin
      generalize t.status = s
      cases s <;> decide
    obtain ⟨v, hreaches, ⟨t', hnow, hdone⟩, -⟩ := htracked.reaches_done_of_active windows hrow hactive
    exact ⟨v, hreaches, t', hnow, .inl hdone⟩

end Progress

section Runs

/-- What is promised of the messages, after the steps so far. -/
structure Messages (windows : Windows) (front : List (ℕ × ℕ × Choice)) (w : Calls.World Db Point) : Prop where
  ordered : Ordered w.db
  ended : Ended front w.db
  canEnd : CanEnd windows w

/-- A statement hands a follow-up to a run. -/
def Steers (followUpId : ℕ) (w w' : Calls.World Db Point) : Prop :=
  ∃ target new, w'.db.log = new ++ w.db.log ∧ .steered followUpId target ∈ new

/-- How a message ended is kept. -/
def EndsStay (w w' : Calls.World Db Point) : Prop :=
  ∀ (i : ℕ) (t : Turn), w.db.turns[i]? = some t → (t.status.terminal || t.status == .joined) = true →
    ∃ t', w'.db.turns[i]? = some t' ∧ t'.status = t.status

/-- Ends stay where messages are kept. -/
theorem endsStay_of_keeps {windows : Windows} {w w' : Calls.World Db Point} {e : ℕ × ℕ × Choice}
    (hkeeps : KeepsMessages w e) (hstep : Calls.step (exec windows) w e = some w') : EndsStay w w' := by
  intro i t hrow hended
  obtain ⟨t', hrow', hgoes⟩ := (step_changes windows hstep).get hrow
  refine ⟨t', hrow', ?_⟩
  have hlife := hgoes.life hrow hkeeps.refusal
  revert hlife hended
  generalize t.status = s
  generalize t'.status = s'
  cases s <;> cases s' <;> decide

/-- A follow-up is steered once. -/
theorem steers_fence {windows : Windows} {w w' : Calls.World Db Point} {e : ℕ × ℕ × Choice}
    (hline' : InLine w') (hstep : Calls.step (exec windows) w e = some w') (followUp : ℕ) :
    (Steers followUp w w' → (¬ w.db.at followUp (·.steerDeliveredAt.isSome) = true) ∧
        w'.db.at followUp (·.steerDeliveredAt.isSome) = true) ∧
      (w.db.at followUp (·.steerDeliveredAt.isSome) = true →
        w'.db.at followUp (·.steerDeliveredAt.isSome) = true) := by
  have hchanges := step_changes windows hstep
  obtain ⟨db, point, hexec, rfl⟩ := (Calls.step_eq_some_iff (exec windows) w w' e).mp hstep
  constructor
  · rintro ⟨target, new, hlog, hmem⟩
    obtain ⟨new', hlog', hnoted⟩ := exec_noted hexec
    obtain rfl := append_cancel_right (hlog.symm.trans hlog')
    obtain ⟨poll, -, hsteers, -⟩ := hnoted.steered followUp target hmem
    obtain ⟨f, -, hrow, -, -, hundelivered, -⟩ := steers_row hsteers
    constructor
    · intro hat
      obtain ⟨g, hrow', hdeliv⟩ := at_iff.mp hat
      cases hrow.symm.trans hrow'
      rw [hundelivered] at hdeliv
      cases hdeliv
    · have hsteer : .steered followUp target ∈ db.log := by
        rw [hlog]
        exact mem_append_left _ hmem
      obtain ⟨g, hrow', -, hdeliv⟩ := hline'.steered followUp target hsteer
      exact at_iff.mpr ⟨g, hrow', hdeliv⟩
  · intro hat
    obtain ⟨f, hrow, hdeliv⟩ := at_iff.mp hat
    obtain ⟨f', hrow', hgoes⟩ := hchanges.get hrow
    exact at_iff.mpr ⟨f', hrow', hgoes.kept.2.2.2.1 hdeliv⟩

/-- Without turns nothing is tracked. -/
theorem tracked_start {w : Calls.World Db Point} (hturns : w.db.turns = []) (hlog : w.db.log = [])
    (hrest : ∀ i, w.calls i = .idle) : Tracked [] w := by
  have hnone {i : ℕ} {t : Turn} : w.db.turns[i]? ≠ some t := by
    rw [hturns]
    exact nofun
  have hempty {event : Event} : event ∉ w.db.log := by
    rw [hlog]
    exact not_mem_nil
  have hline : InLine w := by
    refine ⟨?_, fun i f hrow => absurd hrow hnone, fun i target h => absurd h hempty, ?_, ?_⟩
    · exact fun i j older newer h => absurd h.first hnone
    · exact fun i j older newer h => absurd h.first hnone
    · intro n j after hpoint
      rw [hrest n] at hpoint
      cases hpoint
  refine ⟨hline, fun i j t u hrow => absurd hrow hnone, fun i h => absurd h hempty, fun i t hrow => absurd hrow hnone,
    fun i t hrow => absurd hrow hnone, fun i t hrow => absurd hrow hnone, fun i t hrow => absurd hrow hnone,
    fun i t hrow => absurd hrow hnone, fun i h => absurd h hempty, fun n turnId hstops => ?_, 0, fun n _ => hrest n⟩
  rw [hrest n] at hstops
  cases hstops

/-- A run of the calls from empty tables, whose runs take follow-ups in as they were handed them, whose claims hand
none to a turn past what an earlier run of it holds, and whose refusals find their turns queued: no message is lost,
has two ends or overtakes an older one. -/
theorem run_messages (windows : Windows) (w : Calls.World Db Point) (es : List (ℕ × ℕ × Choice))
    (hturns : w.db.turns = []) (hlog : w.db.log = []) (hrest : ∀ i, w.calls i = .idle)
    (hmeets : Runs.Meets (Calls.step (exec windows)) KeepsMessages w es) :
    (∀ front back v, es = front ++ back → run (Calls.step (exec windows)) w front = some v →
        Messages windows front v) ∧
      (∀ followUpId, Runs.AtMostOnce (Calls.step (exec windows)) (Steers followUpId) w es) ∧
      Runs.Along (Calls.step (exec windows)) EndsStay w es := by
  have hstart : Tracked [] w := tracked_start hturns hlog hrest
  have hline : ∀ v e v', InLine v → KeepsMessages v e → Calls.step (exec windows) v e = some v' → InLine v' := by
    intro v e v' hv hkeeps hstep
    obtain ⟨db, point, hexec, rfl⟩ := (Calls.step_eq_some_iff (exec windows) v v' e).mp hstep
    exact hv.step hkeeps.order hexec
  refine ⟨fun front back v hsplit hfront => ?_, fun followUpId => ?_, ?_⟩
  · subst hsplit
    have htracked : Tracked front v := by
      refine history_of_meets (I := Tracked) _ (fun front s e s' hs hkeeps hstep => ?_) hstart
        (Runs.Meets.front _ hmeets) hfront
      obtain ⟨db, point, hexec, rfl⟩ := (Calls.step_eq_some_iff (exec windows) s s' e).mp hstep
      exact hs.step hkeeps hexec
    exact ⟨htracked.line.ordered, htracked.ended, htracked.canEnd windows⟩
  · refine atMostOnce_of_fence _ (F := fun v => v.db.at followUpId (·.steerDeliveredAt.isSome) = true) ?_
    refine steps_of_meets _ (fun v e v' hv hkeeps hstep => ?_) hstart.line hmeets
    have hv' := hline v e v' hv hkeeps hstep
    exact ⟨hv', steers_fence hv' hstep followUpId⟩
  · have hkept : Runs.Steps (Calls.step (exec windows)) EndsStay w es := by
      refine steps_of_meets _ (fun v e v' _ hkeeps hstep => ⟨trivial, ?_⟩) trivial hmeets
      exact endsStay_of_keeps hkeeps hstep
    refine hkept.along _ (fun v i t hrow _ => ⟨t, hrow, rfl⟩) ?_
    intro u v x huv hvx i t hrow hended
    obtain ⟨t', hrow', hstatus⟩ := huv i t hrow hended
    obtain ⟨t'', hrow'', hstatus'⟩ := hvx i t' hrow' (hstatus ▸ hended)
    exact ⟨t'', hrow'', hstatus'.trans hstatus⟩

/-- A turn is sent, handed over and started; a message follows, and is handed to its run. -/
def followed : List (ℕ × ℕ × Choice) :=
  let message : Message := ⟨0, .person, false, none⟩
  let next : Choice := .proceed ⟨0, false⟩
  [(0, 1, .createTurn message), (0, 1, next), (0, 2, next), (1, 3, .claimDueWork ⟨7, none, [], [], [0]⟩),
    (1, 4, .applyTurnEvents ⟨7, 0⟩ 0 0 true []), (2, 5, .sendConversationMessage message), (2, 5, next), (2, 5, next),
    (2, 6, next), (2, 6, next), (1, 7, .claimDueWork ⟨7, none, [], [1], []⟩)]

/-- The run takes it in, and is done. -/
def takenIn : List (ℕ × ℕ × Choice) :=
  [(1, 8, .applyTurnEvents ⟨7, 0⟩ 0 0 false [1]), (1, 9, .finishTurn ⟨⟨7, 0⟩, 0, 0, .done, false, [1]⟩)]

/-- A claim keeps the messages while none is steered. -/
theorem keepsMessages_claim {w : Calls.World Db Point} {n now : ℕ} {poll : Poll} (hidle : w.calls n = .idle)
    (hlog : w.db.log.any (· matches .steered ..) = false) : KeepsMessages w (n, now, .claimDueWork poll) := by
  refine ⟨⟨(fun _ _ _ h => by cases h), fun _ _ j _ i older newer target _ _ _ hsteer => ?_⟩, (fun _ h => by cases h), ?_⟩
  · have hany : w.db.log.any (· matches .steered ..) = true := List.any_eq_true.mpr ⟨.steered i target, hsteer, rfl⟩
    rw [hlog] at hany
    cases hany
  · rw [hidle]
    rfl

/-- All that was steered is taken in. -/
theorem takesInOrder_of_all {choice : Choice} {db : Db} {conv target : ℕ} {joined : List ℕ}
    (hchoice : choice.takesIn = some (conv, target, joined))
    (hall : ∀ j ∈ joined, ∀ i, .steered i target ∈ db.log → i ∈ joined) : TakesInOrder choice db := by
  intro conversation' target' joined' h j hj i hheld _
  rw [hchoice] at h
  obtain ⟨rfl, rfl, rfl⟩ : conv = conversation' ∧ target = target' ∧ joined = joined' := by
    simpa only [Option.some.injEq, Prod.mk.injEq] using h
  exact hall j hj i hheld.steered

/-- A message that is sent to a run at work is taken in by it. -/
theorem run_messages_taken_in :
    (∀ front back v, followed ++ takenIn = front ++ back →
        run (Calls.step (exec ⟨60, 3600, 600⟩)) (atRest oneConversation) front = some v →
          Messages ⟨60, 3600, 600⟩ front v) ∧
      (∀ followUpId, Runs.AtMostOnce (Calls.step (exec ⟨60, 3600, 600⟩)) (Steers followUpId) (atRest oneConversation)
        (followed ++ takenIn)) ∧
      Runs.Along (Calls.step (exec ⟨60, 3600, 600⟩)) EndsStay (atRest oneConversation) (followed ++ takenIn) := by
  refine run_messages _ _ _ rfl rfl (fun _ => rfl) ?_
  iterate 3 refine meets_cons_of_eq _ rfl (keepsMessages_of_quiet rfl nofun rfl) ?_
  refine meets_cons_of_eq _ rfl (keepsMessages_claim rfl rfl) ?_
  refine meets_cons_of_eq _ rfl ?_ ?_
  · exact ⟨⟨takesInOrder_of_all rfl nofun, nofun⟩, nofun, rfl⟩
  iterate 5 refine meets_cons_of_eq _ rfl (keepsMessages_of_quiet rfl nofun rfl) ?_
  refine meets_cons_of_eq _ rfl (keepsMessages_claim rfl rfl) ?_
  have hone {i : ℕ} (h : .steered i 0 ∈ [Event.steered 1 0, .handed 0]) : i ∈ [1] := by
    rcases List.mem_cons.mp h with heq | h
    · obtain ⟨rfl, -⟩ := Event.steered.inj heq
      exact List.mem_cons_self
    · cases List.mem_singleton.mp h
  refine meets_cons_of_eq _ rfl ?_ ?_
  · exact ⟨⟨takesInOrder_of_all rfl fun _ _ i h => hone h, nofun⟩, nofun, rfl⟩
  refine meets_cons_of_eq _ rfl ?_ trivial
  refine ⟨⟨takesInOrder_of_all rfl fun _ _ i h => hone h, nofun⟩, fun report h _ => ?_, rfl⟩
  cases h
  exact ⟨List.mem_cons_of_mem _ List.mem_cons_self, nofun⟩

/-- The sandbox dies and its turn is resumed on another; a second message is handed to the new run, and taken in. -/
def overtaken : List (ℕ × ℕ × Choice) :=
  let message : Message := ⟨0, .person, false, none⟩
  let next : Choice := .proceed ⟨0, false⟩
  [(3, 8, .applyRunnerEvent ⟨⟨7, 0⟩, .stopped, false, none, true⟩), (3, 8, next), (3, 8, next),
    (4, 9, .sandbox 0 ⟨7, .running, none, none, true, true⟩), (1, 10, .claimDueWork ⟨7, none, [], [], [0]⟩),
    (1, 11, .applyTurnEvents ⟨7, 0⟩ 0 0 true []), (2, 12, .sendConversationMessage message), (2, 12, next),
    (2, 12, next), (2, 13, next), (2, 13, next), (1, 14, .claimDueWork ⟨7, none, [], [2], []⟩),
    (1, 15, .applyTurnEvents ⟨7, 0⟩ 0 0 false [2])]

/-- The message that was sent first waits outside the run, and is overtaken. -/
theorem not_ordered_when_resumed : ¬ ∀ (windows : Windows) (w : Calls.World Db Point) (es : List (ℕ × ℕ × Choice)),
    w.db.turns = [] → w.db.log = [] → (∀ i, w.calls i = .idle) →
      Runs.Meets (Calls.step (exec windows)) (fun v e => TakesInOrder e.2.2 v.db ∧ EndsHonestly e.2.2 v.db ∧
        RefusesQueued v.db (v.calls e.1) = true) w es →
        Runs.Throughout (Calls.step (exec windows)) (fun v => Ordered v.db) w es := by
  intro hall
  have hordered := hall ⟨60, 3600, 600⟩ (atRest oneConversation) (followed ++ overtaken) rfl rfl (fun _ => rfl) ?_
    (followed ++ overtaken) [] _ (List.append_nil _).symm rfl
  · have hstill := hordered 1 2 _ _ ⟨Nat.one_lt_two, rfl, rfl, rfl, by decide⟩ rfl rfl
    cases hstill
  · have hquiet {v : Calls.World Db Point} {n now : ℕ} {choice : Choice} (h : choice.takesIn = none)
        (hrefuse : RefusesQueued v.db (v.calls n) = true) :
        TakesInOrder choice v.db ∧ EndsHonestly choice v.db ∧ RefusesQueued v.db (v.calls (n, now, choice).1) = true := by
      refine ⟨fun conversation target joined h' => ?_, fun report h' => ?_, hrefuse⟩
      · rw [h] at h'
        cases h'
      · rw [h'] at h
        cases h
    iterate 4 refine meets_cons_of_eq _ rfl (hquiet rfl rfl) ?_
    refine meets_cons_of_eq _ rfl ⟨takesInOrder_of_all rfl nofun, nofun, rfl⟩ ?_
    iterate 11 refine meets_cons_of_eq _ rfl (hquiet rfl rfl) ?_
    refine meets_cons_of_eq _ rfl ⟨takesInOrder_of_all rfl nofun, nofun, rfl⟩ ?_
    iterate 6 refine meets_cons_of_eq _ rfl (hquiet rfl rfl) ?_
    refine meets_cons_of_eq _ rfl ⟨?_, nofun, rfl⟩ trivial
    -- the run at hand was handed the second message alone
    intro conversation target joined h j hj i hheld _
    obtain rfl : [2] = joined := congrArg (fun r => r.2.2) (Option.some.inj h)
    obtain rfl := List.mem_singleton.mp hj
    obtain rfl : 0 = target := congrArg (fun r => r.2.1) (Option.some.inj h)
    change HeldBefore [.steered 2 0, .handed 0, .steered 1 0, .handed 0] 0 i 2 at hheld
    simp [heldBefore_cons, inHand] at hheld
    obtain ⟨later, earlier, hlog, -⟩ := hheld
    cases later <;> cases hlog

end Runs

end Onecli.Agents.Turns
