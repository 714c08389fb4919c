import Onecli.Agents.TurnEdges
import Mathlib.Data.List.Nodup

/-!
# One recovery, and terminal stays terminal

What every run keeps of the rows, in every order of the statements: the index holds, a status leaves along an
edge of its life, a turn is put back in the queue once, and one that has ended stays as it ended. A row that its
message's door refuses must still be queued there: the refusal asks for nothing when it writes.
-/

namespace Onecli.Agents.Turns

section Statements

/-- The index `turns_one_active_per_conversation`. -/
def OneActive (db : Db) : Prop :=
  ∀ (i j : ℕ) (t u : Turn), db.turns[i]? = some t → db.turns[j]? = some u → t.conversationId = u.conversationId →
    t.status.active → u.status.active → i = j

/-- The changes of status. -/
def Life (s s' : TurnStatus) : Bool := Edge s s' || (s == .joining && s' == .queued)

/-- The refusal of a turn finds it as it was created. -/
def RefusesQueued (db : Db) : Point → Bool
  | .refuse turnId _ => db.at turnId (·.status == .queued)
  | _ => true

variable {windows : Windows} {now : ℕ} {choice : Choice} {point : Point} {db db' : Db}

/-- A row that is active after a statement was so before, or is the one that the statement lets into a free
conversation. -/
theorem Changes.active (h : Changes windows now choice point db db') :
    ∃ entered, ∀ (i : ℕ) (t' : Turn), db'.turns[i]? = some t' → t'.status.active →
      (∃ t, db.turns[i]? = some t ∧ t.conversationId = t'.conversationId ∧ t.status.active) ∨
        (i = entered ∧ db.occupied t'.conversationId = false) := by
  have hcases {i : ℕ} {t' : Turn} (hrow : db'.turns[i]? = some t') (hactive : t'.status.active) :
      (∃ t, db.turns[i]? = some t ∧ t.conversationId = t'.conversationId ∧ t.status.active) ∨
        (((∃ after, point = .promote i after) ∨ (i = db.turns.length ∧ ∃ message door, point = .createTurn message door)) ∧
          db.occupied t'.conversationId = false) := by
    rcases h.back hrow with ⟨t, hold, hgoes⟩ | ⟨message, target, -, -, rfl⟩ | ⟨message, door, hi, hpoint, hfree, rfl⟩
    · cases hgoes with
      | moves _ hmoves => exact Or.inl ⟨t, hold, hmoves.conversation.symm, hmoves.active hactive⟩
      | promoted after hpoint hjoin hfree => exact Or.inr ⟨Or.inl ⟨after, hpoint⟩, hfree⟩
      | refused => cases hactive
    · cases hactive
    · exact Or.inr ⟨Or.inr ⟨hi, message, door, hpoint⟩, hfree⟩
  -- the point says which row it is
  by_cases hpromotes : ∃ turnId after, point = .promote turnId after
  · obtain ⟨turnId, after, rfl⟩ := hpromotes
    refine ⟨turnId, fun i t' hrow hactive => (hcases hrow hactive).imp_right ?_⟩
    rintro ⟨⟨after', hpoint⟩ | ⟨-, message, door, hpoint⟩, hfree⟩
    · exact ⟨(Point.promote.inj hpoint).1.symm, hfree⟩
    · cases hpoint
  · refine ⟨db.turns.length, fun i t' hrow hactive => (hcases hrow hactive).imp_right ?_⟩
    rintro ⟨⟨after, hpoint⟩ | ⟨hi, -⟩, hfree⟩
    · exact absurd ⟨i, after, hpoint⟩ hpromotes
    · exact ⟨hi, hfree⟩

/-- A statement keeps one turn active. -/
theorem Changes.oneActive (h : Changes windows now choice point db db') (hone : OneActive db) : OneActive db' := by
  obtain ⟨entered, hactive⟩ := h.active
  intro i j t u hi hj hsame ht hu
  rcases hactive i t hi ht with ⟨t', hi', hconv, ht'⟩ | ⟨rfl, hfree⟩
  · rcases hactive j u hj hu with ⟨u', hj', hconversation', hu'⟩ | ⟨rfl, hfree⟩
    · exact hone i j t' u' hi' hj' (by rw [hconv, hconversation', hsame]) ht' hu'
    · have hnone := not_occupied hfree hi' (by rw [hconv, hsame])
      rw [hnone] at ht'
      cases ht'
  · rcases hactive j u hj hu with ⟨u', hj', hconversation', hu'⟩ | ⟨rfl, -⟩
    · have hnone := not_occupied hfree hj' (by rw [hconversation', hsame])
      rw [hnone] at hu'
      cases hu'
    · rfl

/-- A statement moves a turn along its life. -/
theorem Becomes.life {i : ℕ} {t t' : Turn} (h : Becomes windows now choice point db i t t')
    (hrow : db.turns[i]? = some t) (hqueued : RefusesQueued db point = true) : Life t.status t'.status := by
  cases h with
  | moves _ hmoves =>
    rw [Life, hmoves.edge]
    rfl
  | promoted after hpoint hjoin =>
    rw [hjoin]
    rfl
  | refused message hpoint =>
    subst hpoint
    have hstatus : (t.status == .queued) = true := test_of_at hqueued hrow (beq_self_eq_true i)
    rw [beq_iff_eq.mp hstatus]
    rfl

/-- A terminal turn stays as it is. -/
theorem eq_of_life_of_terminal {s s' : TurnStatus} (h : Life s s') (hterm : s.terminal) : s' = s := by
  revert h hterm
  cases s <;> cases s' <;> decide

end Statements

section Runs

/-- No call is at work on the tables. -/
def atRest (db : Db) : Calls.World Db Point := ⟨db, fun _ => .idle⟩

/-- A statement puts a turn that was handed over back in the queue. -/
def PutBack (turnId : ℕ) (w w' : Calls.World Db Point) : Prop :=
  ∃ t t', w.db.turns[turnId]? = some t ∧ w'.db.turns[turnId]? = some t' ∧ t.status.inFlight ∧ t'.status = .queued

/-- The status of every row is kept, when it says how a turn ended. -/
def EndsKept (w w' : Calls.World Db Point) : Prop :=
  ∀ (turnId : ℕ) (t : Turn), w.db.turns[turnId]? = some t → t.status.terminal →
    ∃ t', w'.db.turns[turnId]? = some t' ∧ t'.status = t.status

/-- The status of every row changes along an edge. -/
def ChangesAlong (edge : TurnStatus → TurnStatus → Bool) (w w' : Calls.World Db Point) : Prop :=
  ∀ (turnId : ℕ) (t : Turn), w.db.turns[turnId]? = some t →
    ∃ t', w'.db.turns[turnId]? = some t' ∧ edge t.status t'.status

/-- A row that was recovered. -/
def Recovered (turnId : ℕ) (w : Calls.World Db Point) : Prop := ∃ t, w.db.turns[turnId]? = some t ∧ t.retriedAt.isSome

variable (windows : Windows)

/-- A step changes rows as its statement says. -/
theorem step_changes {w w' : Calls.World Db Point} {e : ℕ × ℕ × Choice}
    (hstep : Calls.step (exec windows) w e = some w') :
    Changes windows e.2.1 e.2.2 (w.calls e.1) w.db w'.db := by
  obtain ⟨db, point, hexec, rfl⟩ := (Calls.step_eq_some_iff (exec windows) w w' e).mp hstep
  exact exec_changes hexec

/-- A turn is put back once. -/
theorem Changes.fence {windows : Windows} {now : ℕ} {choice : Choice} {point : Point} {w w' : Calls.World Db Point}
    (h : Changes windows now choice point w.db w'.db) (turnId : ℕ) :
    (PutBack turnId w w' → ¬ Recovered turnId w ∧ Recovered turnId w') ∧ (Recovered turnId w → Recovered turnId w') := by
  constructor
  · rintro ⟨t, t', hrow, hrow', hflight, hqueued⟩
    obtain ⟨u, hu, hgoes⟩ := h.get hrow
    cases hrow'.symm.trans hu
    cases hgoes with
    | moves _ hmoves =>
      obtain ⟨-, hnone, hsome⟩ := hmoves.recovery hflight hqueued
      refine ⟨?_, t', hrow', hsome⟩
      rintro ⟨u, hu, hretried⟩
      cases hrow.symm.trans hu
      rw [hnone] at hretried
      cases hretried
    | promoted after hpoint hjoin =>
      rw [hjoin] at hflight
      cases hflight
    | refused => cases hqueued
  · rintro ⟨t, hrow, hretried⟩
    obtain ⟨t', hrow', hgoes⟩ := h.get hrow
    exact ⟨t', hrow', hgoes.kept.2.2.2.2 hretried⟩

/-- Over every run whose refusals find their turns still queued: a turn is put back in the queue at most once, one
that has ended keeps its status, a status changes along an edge of its life, and no conversation has two active
turns. -/
theorem run_lives (windows : Windows) (w : Calls.World Db Point) (es : List (ℕ × ℕ × Choice))
    (hone : OneActive w.db)
    (hmeets : Runs.Meets (Calls.step (exec windows))
      (fun v e => RefusesQueued v.db (v.calls e.1) = true) w es) :
    (∀ turnId, Runs.AtMostOnce (Calls.step (exec windows)) (PutBack turnId) w es) ∧
      Runs.Along (Calls.step (exec windows)) EndsKept w es ∧
      Runs.Steps (Calls.step (exec windows)) (ChangesAlong Life) w es ∧
      Runs.Throughout (Calls.step (exec windows)) (fun v => OneActive v.db) w es := by
  have hlives : Runs.Steps (Calls.step (exec windows)) (ChangesAlong Life) w es := by
    refine Runs.steps_of_meets _ (fun v e v' _ hqueued hstep => ⟨trivial, ?_⟩) trivial hmeets
    intro turnId t hrow
    obtain ⟨t', hrow', hbecomes⟩ := (step_changes windows hstep).get hrow
    exact ⟨t', hrow', hbecomes.life hrow hqueued⟩
  refine ⟨fun turnId => ?_, ?_, hlives, ?_⟩
  · refine Runs.atMostOnce_of_fence _ (F := Recovered turnId) ?_
    refine Runs.steps_of_meets _ (fun v e v' _ hqueued hstep => ⟨trivial, ?_⟩) trivial hmeets
    exact (step_changes windows hstep).fence turnId
  · have hkept : Runs.Steps (Calls.step (exec windows)) EndsKept w es := by
      intro front e back u v hsplit hrun hstep turnId t hrow hterminal
      obtain ⟨t', hrow', hlife⟩ := hlives front e back u v hsplit hrun hstep turnId t hrow
      exact ⟨t', hrow', eq_of_life_of_terminal hlife hterminal⟩
    refine hkept.along _ (fun v turnId t hrow _ => ⟨t, hrow, rfl⟩) ?_
    intro u v x huv hvx turnId t hrow hterminal
    obtain ⟨t', hrow', hstatus⟩ := huv turnId t hrow hterminal
    obtain ⟨t'', hrow'', hstatus'⟩ := hvx turnId t' hrow' (hstatus ▸ hterminal)
    exact ⟨t'', hrow'', hstatus'.trans hstatus⟩
  · refine Runs.throughout_of_meets _ ?_ hone hmeets
    exact fun v e v' hv hqueued hstep => (step_changes windows hstep).oneActive hv

/-- One conversation, whose sandbox is up. -/
def oneConversation : Db where
  conversations _ := ⟨0, .person⟩
  sandboxes _ := ⟨7, .running, none, none, true, true⟩
  automations _ := none
  turns := []
  log := []

/-- A turn is sent, handed over and started; its harness dies, and the same report arrives again. -/
def resumedOnce : List (ℕ × ℕ × Choice) :=
  let message : Message := ⟨0, .person, false, none⟩
  let poll : Poll := ⟨7, none, [], [], [0]⟩
  let death : FinishTurnInput := ⟨⟨7, 0⟩, 0, 0, .failed, true, []⟩
  let next : Choice := .proceed ⟨0, false⟩
  [(0, 1, .createTurn message), (0, 1, next), (0, 2, next), (1, 3, .claimDueWork poll),
    (1, 4, .applyTurnEvents ⟨7, 0⟩ 0 0 true []), (1, 5, .finishTurn death), (1, 6, .finishTurn death)]

/-- The turn is put back by the first of the two reports alone. -/
theorem run_lives_resumed_once :
    (∀ turnId, Runs.AtMostOnce (Calls.step (exec ⟨60, 3600, 600⟩)) (PutBack turnId) (atRest oneConversation) resumedOnce) ∧
      Runs.Along (Calls.step (exec ⟨60, 3600, 600⟩)) EndsKept (atRest oneConversation) resumedOnce ∧
      Runs.Steps (Calls.step (exec ⟨60, 3600, 600⟩)) (ChangesAlong Life) (atRest oneConversation) resumedOnce ∧
      Runs.Throughout (Calls.step (exec ⟨60, 3600, 600⟩)) (fun v => OneActive v.db) (atRest oneConversation)
        resumedOnce :=
  run_lives ⟨60, 3600, 600⟩ (atRest oneConversation) resumedOnce (fun _ _ _ _ h => by cases h) (by decide +kernel)

example : ((Runs.run (Calls.step (exec ⟨60, 3600, 600⟩)) (atRest oneConversation) resumedOnce).map fun w =>
    w.db.turns.map fun t => (t.status, t.retriedAt)) = some [(.queued, some 5)] := by decide +kernel

/-- The edges of a turn's life, without the ways that it can end before it has started. -/
def StraightLife (s s' : TurnStatus) : Bool :=
  s == s' || (s == .queued && s' == .dispatched) || (s == .dispatched && s' == .running) ||
    (s == .running && s'.terminal) || (s.inFlight && s' == .queued)

/-- A turn that is stopped while it is queued ends there. -/
theorem not_straight_when_stopped : ¬ ∀ (windows : Windows) (w : Calls.World Db Point) (es : List (ℕ × ℕ × Choice)),
    OneActive w.db →
      (∀ turnId, Runs.AtMostOnce (Calls.step (exec windows)) (PutBack turnId) w es) ∧
        Runs.Along (Calls.step (exec windows)) EndsKept w es ∧
        Runs.Steps (Calls.step (exec windows)) (ChangesAlong StraightLife) w es ∧
        Runs.Throughout (Calls.step (exec windows)) (fun v => OneActive v.db) w es := by
  intro hall
  let message : Message := ⟨0, .person, false, none⟩
  let next : Choice := .proceed ⟨0, false⟩
  let front : List (ℕ × ℕ × Choice) :=
    [(0, 1, .createTurn message), (0, 1, next), (0, 2, next), (1, 3, .abortTurn 0), (1, 3, next)]
  obtain ⟨-, -, hsteps, -⟩ := hall ⟨60, 3600, 600⟩ (atRest oneConversation) (front ++ [(1, 4, next)])
    fun _ _ _ _ h => by cases h
  obtain ⟨t', hrow, hedge⟩ := hsteps front (1, 4, next) [] _ _ rfl rfl rfl 0 _ rfl
  cases hrow
  cases hedge

end Runs

/-! ## The settlements that calls have to make

A run of a schedule or of a webhook is a turn in its conversation. A statement that closes one leaves its call with
the settlement to make, and the call makes it at a later statement; a refusal at the door is booked by the door.
Every statement keeps the settlements of its call, makes one, or closes turns that it has to settle.
-/

open List Option Bool

section Dues

/-- A turn of a schedule's or a webhook's conversation. -/
def Db.IsRun (db : Db) (turnId : ℕ) : Prop :=
  ∃ t, db.turns[turnId]? = some t ∧ (db.conversations t.conversationId).automated = true

/-- The turn that an event settles: by `settleAutomationRun`, or by the door that refused it. -/
def Event.settlesTurn : Event → Option ℕ
  | .settled turnId | .booked turnId => some turnId
  | _ => none

/-- How often a turn was settled. -/
def settlements (log : List Event) (turnId : ℕ) : ℕ := log.countP fun event => event.settlesTurn == some turnId

/-- The door books the refusals of this message. -/
def Message.books (message : Message) : Bool := message.priorFailures.isSome || message.source == .cron

/-- The settlement that waits for a promotion. -/
def After.owes : After → List ℕ
  | .settle _ turnId _ => [turnId]
  | _ => []

/-- The turns that a call has still to settle. -/
def Point.owes : Point → List ℕ
  | .sweepQueued turnId _ => [turnId]
  | .promoteFlagged _ after | .promoteFind _ after | .promote _ after => after.owes
  | .settle _ turnId _ rest => turnId :: rest
  | .bookRun _ _ _ _ rest => rest
  | .bookRefusal turnId message => if message.books then [turnId] else []
  | _ => []

/-- The closings that leave a settlement to make. -/
def settling : Choice → Point → ℕ → Bool
  | .proceed _, .abortQueued turnId _ _, i => i == turnId
  | .proceed _, .refuse turnId message, i => i == turnId && message.books
  | .finishTurn report, _, i => i == report.turnId
  | .reclaimStaleTurns, _, _ | .failStalledTurns, _, _ => true
  | _, _, _ => false

/-- A run closes only where its settlement is made, and a refusal finds it open. -/
structure LeavesDue (windows : Windows) (now : ℕ) (choice : Choice) (point : Point) (db : Db) : Prop where
  closing : ∀ (i : ℕ) (t : Turn), db.turns[i]? = some t → (db.conversations t.conversationId).automated = true →
    closes windows now db choice point i t = true → settling choice point i = true
  refusal : ∀ (turnId : ℕ) (message : Message) (t : Turn), point = .refuse turnId message →
    db.turns[turnId]? = some t → (db.conversations t.conversationId).automated = true → t.status.terminal = false

/-- What a statement does to the settlements that its call has to make. -/
inductive Dues (windows : Windows) (now : ℕ) (choice : Choice) (point point' : Point) (db db' : Db) : Prop
  /-- It closes no turn that is to be settled, and settles none. -/
  | keeps (howes : point'.owes = point.owes)
      (hlog : ∀ i, settlements db'.log i = settlements db.log i)
      (hcloses : ∀ (i : ℕ) (t : Turn), db.turns[i]? = some t → closes windows now db choice point i t = true →
        settling choice point i = false)
  /-- It settles a turn. -/
  | settles (turnId : ℕ) (howes : point.owes = turnId :: point'.owes) (hturns : db'.turns = db.turns)
      (hlog : ∀ i, settlements db'.log i = settlements db.log i + if i = turnId then 1 else 0)
  /-- It closes turns that are to be settled. -/
  | closes (hnone : point.owes = []) (hnodup : point'.owes.Nodup)
      (hlog : ∀ i, settlements db'.log i = settlements db.log i)
      (howes : ∀ i, i ∈ point'.owes ↔
        ∃ t, db.turns[i]? = some t ∧ closes windows now db choice point i t = true ∧ settling choice point i = true)

variable {windows : Windows} {now : ℕ} {choice : Choice} {point point' : Point} {db db' : Db}

theorem settlements_cons (event : Event) (log : List Event) (turnId : ℕ) :
    settlements (event :: log) turnId = settlements log turnId + if event.settlesTurn = some turnId then 1 else 0 := by
  rw [settlements, countP_cons]
  exact congrArg _ (if_congr beq_iff_eq rfl rfl)

theorem settlements_cons_of_none {event : Event} (h : event.settlesTurn = none) (log : List Event) (turnId : ℕ) :
    settlements (event :: log) turnId = settlements log turnId := by
  rw [settlements_cons, h, if_neg nofun, Nat.add_zero]

theorem settlements_append_of_none {new : List Event} (h : ∀ event ∈ new, event.settlesTurn = none)
    (log : List Event) (turnId : ℕ) : settlements (new ++ log) turnId = settlements log turnId := by
  induction new with
  | nil => rfl
  | cons event new ih =>
    rw [cons_append, settlements_cons_of_none (h event mem_cons_self)]
    exact ih fun other hmem => h other (mem_cons_of_mem event hmem)

theorem owes_next (promoted : Bool) (after : After) : (after.next promoted).owes = after.owes := by
  cases after with
  | send => cases promoted <;> rfl
  | _ => rfl

theorem owes_settleSweptTurns (db : Db) (turnIds : List ℕ) : (settleSweptTurns db turnIds).owes = turnIds := by
  cases turnIds <;> rfl

theorem owes_afterStrand (event : RunnerEvent) : event.afterStrand.owes = [] := by
  rw [RunnerEvent.afterStrand]
  split
  · split <;> rfl
  · rfl

theorem owes_abortArm (turnId attempt : ℕ) (row : Option Turn) : (abortArm turnId attempt row).owes = [] := by
  cases row with
  | none => rfl
  | some t =>
    rw [abortArm]
    cases t.status <;> rfl

theorem dues_keeps (howes : point'.owes = point.owes) (hlog : db'.log = db.log)
    (hcloses : ∀ i t, closes windows now db choice point i t = true → settling choice point i = false) :
    Dues windows now choice point point' db db' :=
  .keeps howes (fun i => congrArg (settlements · i) hlog) fun i t _ => hcloses i t

theorem dues_rests (howes : point'.owes = point.owes) (hlog : ∀ i, settlements db'.log i = settlements db.log i)
    (hcloses : ∀ i t, closes windows now db choice point i t = false) :
    Dues windows now choice point point' db db' :=
  .keeps howes hlog fun i t _ h => absurd h (eq_false_iff.mp (hcloses i t))

theorem dues_settles (event : Event) {turnId : ℕ} (howes : point.owes = turnId :: point'.owes)
    (hturns : db'.turns = db.turns) (hlog : db'.log = event :: db.log) (hevent : event.settlesTurn = some turnId) :
    Dues windows now choice point point' db db' := by
  refine .settles turnId howes hturns fun i => ?_
  rw [hlog, settlements_cons, hevent]
  exact congrArg _ (if_congr (by rw [Option.some.injEq]; exact eq_comm) rfl rfl)

theorem proceed_dues {answer : Answer} (h : proceed now answer db point = some (db', point'))
    (hrefuse : ∀ turnId message, point = .refuse turnId message → ∃ t, db.turns[turnId]? = some t) :
    Dues windows now (.proceed answer) point point' db db' := by
  cases point with
  | idle => cases h
  | abort turnId attempt =>
    cases h
    refine dues_rests ?_ (fun _ => rfl) fun _ _ => rfl
    split
    · exact owes_abortArm turnId attempt _
    · rfl
  | abortJoining =>
    simp only [proceed, Option.some.injEq] at h
    split at h <;> cases h <;> exact dues_keeps rfl rfl fun _ _ _ => rfl
  | abortQueued turnId =>
    simp only [proceed, Option.some.injEq] at h
    split at h <;> cases h
    · rename_i hat
      refine .closes rfl (nodup_singleton turnId) (fun _ => rfl) fun i => ?_
      rw [Point.owes, mem_singleton]
      constructor
      · rintro rfl
        obtain ⟨t, hrow, hqueued⟩ := at_iff.mp hat
        exact ⟨t, hrow, and_eq_true_iff.mpr ⟨beq_self_eq_true i, hqueued⟩, beq_self_eq_true i⟩
      · rintro ⟨t, -, -, hid⟩
        exact beq_iff_eq.mp hid
    · rename_i hnot
      refine .keeps rfl (fun _ => rfl) fun i t hrow hcloses => ?_
      obtain ⟨hid, hqueued⟩ := and_eq_true_iff.mp hcloses
      obtain rfl := beq_iff_eq.mp hid
      exact absurd (at_iff.mpr ⟨t, hrow, hqueued⟩) hnot
  | flag turnId conversation | flagDelivered turnId conversation =>
    cases h
    refine dues_rests rfl (fun i => ?_) fun _ _ => rfl
    exact settlements_cons_of_none rfl db.log i
  | promoteFind conversation after =>
    simp only [proceed] at h
    split at h
    · cases h
      exact dues_rests (owes_next false after) (fun _ => rfl) fun _ _ => rfl
    · split at h <;> cases h
      exact dues_rests rfl (fun _ => rfl) fun _ _ => rfl
  | promote turnId after =>
    simp only [proceed, Option.some.injEq] at h
    split at h <;> cases h
    · refine dues_rests (owes_next true after) (fun i => ?_) fun _ _ => rfl
      exact settlements_cons_of_none rfl db.log i
    · exact dues_rests (owes_next false after) (fun _ => rfl) fun _ _ => rfl
  | send =>
    cases h
    refine dues_rests ?_ (fun _ => rfl) fun _ _ => rfl
    split
    · rfl
    · split <;> rfl
  | sendPromoted message attempt | count message target | stillActive conversation target
  | blocker turnId message | waitedOut reporter =>
    cases h
    refine dues_rests ?_ (fun _ => rfl) fun _ _ => rfl
    split <;> rfl
  | createTurn message door =>
    simp only [proceed, Option.some.injEq] at h
    split at h <;> cases h
    · cases door <;> exact dues_rests rfl (fun _ => rfl) fun _ _ => rfl
    · exact dues_rests rfl (fun _ => rfl) fun _ _ => rfl
  | refuse turnId message =>
    cases h
    have hnodup : (Point.bookRefusal turnId message).owes.Nodup := by
      rw [Point.owes]
      split
      · exact nodup_singleton turnId
      · exact nodup_nil
    refine .closes rfl hnodup (fun _ => rfl) fun i => ?_
    rw [Point.owes]
    constructor
    · intro howed
      split at howed
      · rename_i hbooks
        obtain rfl := mem_singleton.mp howed
        obtain ⟨t, hrow⟩ := hrefuse i message rfl
        exact ⟨t, hrow, beq_self_eq_true i, and_eq_true_iff.mpr ⟨beq_self_eq_true i, hbooks⟩⟩
      · cases howed
    · rintro ⟨t, -, -, hsettling⟩
      obtain ⟨hid, hbooks⟩ := and_eq_true_iff.mp hsettling
      rw [if_pos hbooks]
      exact mem_singleton.mpr (beq_iff_eq.mp hid)
  | bookRefusal turnId message =>
    simp only [proceed, Option.some.injEq] at h
    have hbooked (hbooks : message.books = true) : (Point.bookRefusal turnId message).owes = [turnId] := if_pos hbooks
    split at h
    · rename_i failures hprior
      cases h
      refine dues_settles (.booked turnId) (hbooked ?_) rfl rfl rfl
      rw [Message.books, hprior]
      rfl
    · rename_i hprior
      split at h <;> cases h
      · rename_i hcron
        refine dues_settles (.booked turnId) ?_ rfl rfl rfl
        rw [hbooked]
        · split <;> rfl
        · rw [Message.books, hcron]
          exact Bool.or_true _
      · rename_i hcron
        refine dues_rests (Eq.symm (if_neg ?_)) (fun _ => rfl) fun _ _ => rfl
        rw [Message.books, hprior, beq_eq_false_iff_ne.mpr hcron]
        exact Bool.false_ne_true
  | strand event =>
    cases h
    refine dues_keeps ?_ rfl fun _ _ _ => rfl
    split
    · rfl
    · exact owes_afterStrand event
  | wake event =>
    cases h
    refine dues_keeps (owes_afterStrand event) ?_ fun _ _ h => absurd h Bool.false_ne_true
    split <;> rfl
  | settle conversation turnId outcome rest =>
    cases h
    refine dues_settles (.settled turnId) (congrArg (turnId :: ·) ?_) rfl rfl rfl
    split
    · rfl
    · exact (owes_settleSweptTurns db rest).symm
  | bookRun conversation turnId outcome prior rest =>
    cases h
    exact dues_rests (owes_settleSweptTurns db rest) (fun _ => rfl) fun _ _ => rfl
  | _ =>
    cases h
    exact dues_keeps rfl rfl fun _ _ _ => rfl

theorem dues_sweep {due : Turn → Bool} (hlog : db'.log = db.log)
    (hcloses : ∀ i t, closes windows now db choice point i t = due t) (hsettling : ∀ i, settling choice point i = true)
    (hnone : point.owes = []) : Dues windows now choice point (settleSweptTurns db (db.swept due)) db db' := by
  refine .closes hnone ?_ (fun i => congrArg (settlements · i) hlog) fun i => ?_
  · rw [owes_settleSweptTurns]
    exact nodup_range.filter _
  · rw [owes_settleSweptTurns, Db.swept, mem_filter, mem_range]
    constructor
    · rintro ⟨-, hat⟩
      obtain ⟨t, hrow, hdue⟩ := at_iff.mp hat
      exact ⟨t, hrow, (hcloses i t).trans hdue, hsettling i⟩
    · rintro ⟨t, hrow, hclosed, -⟩
      exact ⟨(List.getElem?_eq_some_iff.mp hrow).1, at_iff.mpr ⟨t, hrow, (hcloses i t).symm.trans hclosed⟩⟩

theorem begin_dues (h : begin windows now db choice = some (db', point')) :
    Dues windows now choice .idle point' db db' := by
  cases choice with
  | proceed => cases h
  | receiveWebhook =>
    simp only [begin] at h
    split at h <;> cases h <;> exact dues_rests rfl (fun _ => rfl) fun _ _ => rfl
  | finishTurn report =>
    have hpair := some.inj h
    have hcloses (i : ℕ) (t : Turn) : closes windows now db (.finishTurn report) .idle i t = true →
        db.finishes report = true := fun hclosed => (and_eq_true_iff.mp hclosed).1
    rcases finishTurn_cases now report with ⟨hrequeues, change, -, h⟩ | ⟨hfin, h⟩ | ⟨hstays, h⟩
    · cases h.symm.trans hpair
      refine dues_keeps rfl rfl fun i t hclosed => ?_
      have hfin := hcloses i t hclosed
      rw [Db.finishes, hrequeues, Bool.not_true, Bool.and_false] at hfin
      cases hfin
    · cases h.symm.trans hpair
      have hlog : (closeTurn now report db).log = db.log := by
        rw [closeTurn]
        split <;> rfl
      refine .closes rfl (nodup_singleton report.turnId) (fun i => congrArg (settlements · i) hlog) fun i => ?_
      refine mem_singleton.trans ?_
      constructor
      · rintro rfl
        obtain ⟨t, hrow, -⟩ := at_iff.mp (and_eq_true_iff.mp hfin).2
        refine ⟨t, hrow, and_eq_true_iff.mpr ⟨hfin, ?_⟩, beq_self_eq_true _⟩
        rw [beq_self_eq_true]
        rfl
      · rintro ⟨t, -, -, hid⟩
        exact beq_iff_eq.mp hid
    · cases h.symm.trans hpair
      refine dues_keeps rfl rfl fun i t hclosed => ?_
      rw [hcloses i t hclosed] at hstays
      cases hstays
  | applyTurnEvents =>
    cases h
    rw [applyTurnEvents]
    refine dues_keeps rfl ?_ fun _ _ h => absurd h Bool.false_ne_true
    split <;> rfl
  | applyTurnProgress =>
    cases h
    rw [applyTurnProgress]
    refine dues_keeps rfl ?_ fun _ _ h => absurd h Bool.false_ne_true
    split <;> rfl
  | applyRunnerEvent =>
    simp only [begin, Option.some.injEq] at h
    split at h <;> cases h
    · refine dues_rests ?_ (fun _ => rfl) fun _ _ => rfl
      split <;> rfl
    · exact dues_rests rfl (fun _ => rfl) fun _ _ => rfl
  | requestSandboxRespawn =>
    cases h
    simp only [requestSandboxRespawn]
    refine dues_keeps rfl ?_ fun _ _ _ => rfl
    split <;> rfl
  | parkUnstartableClaim =>
    cases h
    simp only [parkUnstartableClaim]
    refine dues_keeps rfl ?_ fun _ _ _ => rfl
    split <;> rfl
  | claimDueWork =>
    cases h
    refine dues_rests rfl (fun i => ?_) fun _ _ => rfl
    refine (settlements_append_of_none (fun event hmem => ?_) _ i).trans
      (settlements_append_of_none (fun event hmem => ?_) db.log i)
    · obtain ⟨_, -, rfl⟩ := List.mem_map.mp hmem
      rfl
    · obtain ⟨_, -, rfl⟩ := List.mem_map.mp hmem
      rfl
  | reclaimStaleTurns | failStalledTurns =>
    cases h
    exact dues_sweep rfl (fun _ _ => rfl) (fun _ => rfl) rfl
  | _ =>
    cases h
    exact dues_keeps rfl rfl fun _ _ _ => rfl

end Dues

section Rows

/-- A turn is in a conversation. -/
def Db.Sits (db : Db) (turnId conversation : ℕ) : Prop :=
  ∃ t, db.turns[turnId]? = some t ∧ t.conversationId = conversation

/-- A turn is in a conversation, and a run has ended there as it is to be settled. -/
def Db.Ends (db : Db) (turnId conversation : ℕ) (outcome : TurnOutcome) : Prop :=
  ∃ t, db.turns[turnId]? = some t ∧ t.conversationId = conversation ∧
    ((db.conversations conversation).automated = true → t.status = outcome.status)

/-- What waits for a promotion is due. -/
def After.Due (db : Db) : After → Prop
  | .settle conversation turnId outcome => db.Ends turnId conversation outcome
  | _ => True

/-- What a call has to settle is due as it will settle it. -/
def Point.Due (db : Db) : Point → Prop
  | .abortQueued turnId conversation _ => db.Sits turnId conversation
  | .blocker turnId message | .refuse turnId message => db.Sits turnId message.conversation
  | .sweepQueued turnId conversation => db.Ends turnId conversation .aborted
  | .promoteFlagged _ after | .promoteFind _ after | .promote _ after => after.Due db
  | .bookRefusal turnId message => db.Ends turnId message.conversation .failed
  | .settle conversation turnId outcome rest =>
    db.Ends turnId conversation outcome ∧ ∀ i ∈ rest, ∃ conversation, db.Ends i conversation .failed
  | .bookRun _ _ _ _ rest => ∀ i ∈ rest, ∃ conversation, db.Ends i conversation .failed
  | _ => True

variable {windows : Windows} {now : ℕ} {choice : Choice} {point point' : Point} {db db' : Db}

variable {turnId conversation : ℕ}

/-- A turn sits where it sat. -/
theorem Changes.sits (h : Changes windows now choice point db db') (hsits : db.Sits turnId conversation) :
    db'.Sits turnId conversation := by
  obtain ⟨t, hrow, hconv⟩ := hsits
  obtain ⟨t', hrow', hgoes⟩ := h.get hrow
  exact ⟨t', hrow', hgoes.kept.1.trans hconv⟩

theorem terminal_status (outcome : TurnOutcome) : outcome.status.terminal = true := by
  cases outcome <;> rfl

/-- An ended turn of an automation stays. -/
theorem Becomes.ended {i : ℕ} {t t' : Turn} (h : Becomes windows now choice point db i t t')
    (hleaves : LeavesDue windows now choice point db) (hrow : db.turns[i]? = some t)
    (hauto : (db.conversations t.conversationId).automated = true) (hterm : t.status.terminal = true) :
    t'.status = t.status := by
  cases h with
  | moves _ hmoves =>
    have hedge := hmoves.edge
    revert hedge hterm
    generalize t.status = s
    generalize t'.status = s'
    cases s <;> cases s' <;> decide
  | promoted after hpoint hjoin =>
    rw [hjoin] at hterm
    cases hterm
  | refused message hpoint =>
    rw [hleaves.refusal i message t hpoint hrow hauto] at hterm
    cases hterm

section

variable (h : Changes windows now choice point db db') (hleaves : LeavesDue windows now choice point db) (hconvs : db'.conversations = db.conversations)
include h hleaves hconvs

/-- An end stays. -/
theorem Changes.ends {outcome : TurnOutcome} (hends : db.Ends turnId conversation outcome) : db'.Ends turnId
    conversation outcome := by
  obtain ⟨t, hrow, rfl, hstatus⟩ := hends
  obtain ⟨t', hrow', hgoes⟩ := h.get hrow
  refine ⟨t', hrow', hgoes.kept.1, fun hauto => ?_⟩
  rw [hconvs] at hauto
  have hended := hstatus hauto
  refine (hgoes.ended hleaves hrow hauto ?_).trans hended
  rw [hended]
  exact terminal_status outcome

theorem Changes.after_due {after : After} (hdue : after.Due db) : after.Due db' := by
  cases after with
  | settle => exact h.ends hleaves hconvs hdue
  | _ => trivial

theorem Changes.due {other : Point} (hdue : other.Due db) : other.Due db' := by
  have hrest {rest : List ℕ} (hrest : ∀ i ∈ rest, ∃ conversation, db.Ends i conversation .failed) :
      ∀ i ∈ rest, ∃ conversation, db'.Ends i conversation .failed := by
    intro i hi
    obtain ⟨conversation, hends⟩ := hrest i hi
    exact ⟨conversation, h.ends hleaves hconvs hends⟩
  cases other with
  | abortQueued turnId conversation attempt | blocker turnId message | refuse turnId message => exact h.sits hdue
  | sweepQueued turnId conversation | bookRefusal turnId message => exact h.ends hleaves hconvs hdue
  | promoteFlagged conversation after | promoteFind conversation after | promote turnId after => exact h.after_due hleaves hconvs hdue
  | settle => exact ⟨h.ends hleaves hconvs hdue.1, hrest hdue.2⟩
  | bookRun => exact hrest hdue
  | _ => trivial

end

theorem due_next {promoted : Bool} {after : After} (hdue : after.Due db) : (after.next promoted).Due db := by
  cases after with
  | settle => exact ⟨hdue, nofun⟩
  | send => cases promoted <;> trivial
  | _ => trivial

theorem due_settleSweptTurns {turnIds : List ℕ}
    (hdue : ∀ i ∈ turnIds, ∃ t, db.turns[i]? = some t ∧ db'.Ends i t.conversationId .failed) :
    (settleSweptTurns db turnIds).Due db' := by
  cases turnIds with
  | nil => trivial
  | cons turnId =>
    obtain ⟨t, hrow, hends⟩ := hdue turnId mem_cons_self
    refine ⟨?_, fun i hi => ?_⟩
    · rw [hrow]
      exact hends
    · obtain ⟨t, -, hends⟩ := hdue i (mem_cons_of_mem turnId hi)
      exact ⟨t.conversationId, hends⟩

theorem due_rest {turnIds : List ℕ} (hturns : db'.turns = db.turns) (hconvs : db'.conversations = db.conversations)
    (hdue : ∀ i ∈ turnIds, ∃ conversation, db.Ends i conversation .failed) : (settleSweptTurns db turnIds).Due db' := by
  refine due_settleSweptTurns fun i hi => ?_
  obtain ⟨conversation, t, hrow, rfl, hstatus⟩ := hdue i hi
  refine ⟨t, hrow, t, ?_, rfl, ?_⟩
  · rw [hturns]
    exact hrow
  · rw [hconvs]
    exact hstatus

theorem due_afterStrand (event : RunnerEvent) : event.afterStrand.Due db := by
  rw [RunnerEvent.afterStrand]
  split
  · split <;> trivial
  · trivial

theorem due_abortArm (turnId attempt : ℕ) : (abortArm turnId attempt db.turns[turnId]?).Due db := by
  cases hrow : db.turns[turnId]? with
  | none => trivial
  | some t =>
    have hsits : db.Sits turnId t.conversationId := ⟨t, hrow, rfl⟩
    rw [abortArm]
    cases t.status <;> trivial

theorem ends_close {outcome : TurnOutcome} (hsits : db.Sits turnId conversation) :
    (db.update fun i t => if i == turnId then t.close now outcome else t).Ends turnId conversation outcome := by
  obtain ⟨t, hrow, hconv⟩ := hsits
  refine ⟨t.close now outcome, ?_, hconv, fun _ => rfl⟩
  rw [get_update, hrow, map_some, if_pos (beq_self_eq_true turnId)]

theorem proceed_due {answer : Answer} (h : proceed now answer db point = some (db', point'))
    (hchanges : Changes windows now (.proceed answer) point db db')
    (hleaves : LeavesDue windows now (.proceed answer) point db)
    (hconvs : db'.conversations = db.conversations) (hdue : point.Due db) : point'.Due db' := by
  cases point with
  | idle => cases h
  | abort turnId attempt =>
    cases h
    split
    · exact due_abortArm turnId attempt
    · trivial
  | abortJoining =>
    simp only [proceed, Option.some.injEq] at h
    split at h <;> cases h <;> trivial
  | abortQueued =>
    simp only [proceed, Option.some.injEq] at h
    split at h <;> cases h
    · exact ends_close hdue
    · trivial
  | sweepQueued =>
    cases h
    exact ⟨hchanges.ends hleaves hconvs hdue, fun i hi => absurd hi not_mem_nil⟩
  | promoteFlagged =>
    cases h
    exact hchanges.after_due hleaves hconvs hdue
  | promoteFind =>
    simp only [proceed] at h
    split at h
    · cases h
      exact due_next hdue
    · split at h <;> cases h
      exact hdue
  | promote turnId after =>
    have hafter : after.Due db' := hchanges.after_due hleaves hconvs hdue
    simp only [proceed, Option.some.injEq] at h
    split at h <;> cases h <;> exact due_next hafter
  | send =>
    cases h
    split
    · trivial
    · split <;> trivial
  | sendPromoted message attempt | count message target | stillActive conversation target | waitedOut reporter =>
    cases h
    split <;> trivial
  | createTurn message door =>
    simp only [proceed, Option.some.injEq] at h
    split at h <;> cases h
    · cases door <;> trivial
    · exact ⟨message.row now .queued none, List.getElem?_concat_length, rfl⟩
  | blocker =>
    cases h
    split
    · exact hdue
    · trivial
  | refuse =>
    cases h
    exact ends_close hdue
  | bookRefusal =>
    simp only [proceed, Option.some.injEq] at h
    split at h
    · cases h
      trivial
    · split at h <;> cases h
      · split
        · exact fun i hi => absurd hi not_mem_nil
        · trivial
      · trivial
  | strand event =>
    cases h
    split
    · trivial
    · exact due_afterStrand event
  | wake event =>
    cases h
    exact due_afterStrand event
  | settle =>
    cases h
    split
    · exact hdue.2
    · exact due_rest rfl rfl hdue.2
  | bookRun =>
    cases h
    exact due_rest rfl rfl hdue
  | _ =>
    cases h
    trivial

theorem due_sweep {due : Turn → Bool} {change : Turn → Turn}
    (hchange : ∀ t, due t = true → (change t).status = .failed ∧ (change t).conversationId = t.conversationId) :
    (settleSweptTurns db (db.swept due)).Due (db.update fun _ t => if due t = true then change t else t) := by
  refine due_settleSweptTurns fun i hi => ?_
  obtain ⟨t, hrow, hdue⟩ := at_iff.mp (mem_filter.mp hi).2
  refine ⟨t, hrow, change t, ?_, (hchange t hdue).2, fun _ => (hchange t hdue).1⟩
  rw [get_update, hrow, map_some, if_pos hdue]

theorem closeTurn_get {report : FinishTurnInput} {t : Turn} (hrow : db.turns[report.turnId]? = some t) :
    (closeTurn now report db).turns[report.turnId]? = some (t.close now report.status) := by
  have hclosed : (db.update fun i t => if i == report.turnId then t.close now report.status else t).turns[report.turnId]? =
      some (t.close now report.status) := by
    rw [get_update, hrow, map_some, if_pos (beq_self_eq_true _)]
  have hparked : ¬ (t.close now report.status).status = .joining := (outcome_status_ne report.status).2
  have hjoined : (settleJoinedFollowUps now report.conversationId report.turnId report.joined
      (db.update fun i t => if i == report.turnId then t.close now report.status else t)).turns[report.turnId]? =
        some (t.close now report.status) := by
    rw [settleJoinedFollowUps, get_update, hclosed, map_some, if_neg]
    intro hjoins
    have hrow := (and_eq_true_iff.mp hjoins).2
    simp only [Turn.joins, and_eq_true, beq_iff_eq] at hrow
    exact hparked hrow.1.2
  rw [closeTurn]
  split
  · rw [get_update, hjoined, map_some, if_neg]
    intro hsweeps
    exact hparked (beq_iff_eq.mp (and_eq_true_iff.mp hsweeps).2)
  · exact hjoined

theorem begin_due (h : begin windows now db choice = some (db', point')) : point'.Due db' := by
  cases choice with
  | proceed => cases h
  | receiveWebhook =>
    simp only [begin] at h
    split at h <;> cases h <;> trivial
  | finishTurn report =>
    have hpair := some.inj h
    rcases finishTurn_cases now report with ⟨-, change, -, h⟩ | ⟨hfin, h⟩ | ⟨-, h⟩
    · cases h.symm.trans hpair
      trivial
    · cases h.symm.trans hpair
      have hreported := (and_eq_true_iff.mp (and_eq_true_iff.mp hfin).1).1
      obtain ⟨t, hrow, hown⟩ := at_iff.mp hreported
      exact ⟨t.close now report.status, closeTurn_get hrow, beq_iff_eq.mp (and_eq_true_iff.mp hown).1, fun _ => rfl⟩
    · cases h.symm.trans hpair
      trivial
  | applyRunnerEvent =>
    simp only [begin, Option.some.injEq] at h
    split at h <;> cases h
    · split <;> trivial
    · trivial
  | reclaimStaleTurns | failStalledTurns =>
    cases h
    exact due_sweep fun _ _ => ⟨rfl, rfl⟩
  | _ =>
    cases h
    trivial

end Rows

end Onecli.Agents.Turns
