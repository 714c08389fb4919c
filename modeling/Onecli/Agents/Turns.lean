import Onecli.Agents.Types
import Onecli.Foundation.Calls

/-!
# Turns and their follow-ups

The turn rows of `turn-service.ts`, `follow-up-service.ts`, `due-work.ts` and `sandbox-service.ts`, and every
statement over them. A statement or a transaction is atomic; a service call is a sequence of them, and the calls
interleave. A row is known by its place in the table. What other services do to a sandbox, whether a key is
usable and which due rows a claim locks are choices of the environment. Texts, usage and sessions decide nothing
about a turn's life, and a record that is born done has none.
-/

namespace Onecli.Agents.Turns

section Rows

/-- A row of `conversations`. -/
structure Conversation where
  agentId : ℕ
  source : TurnSource

/-- The sandbox of an agent, with the capabilities of its runner. -/
structure Sandbox where
  runnerId : ℕ
  status : SandboxStatus
  stopRequestedAt : Option ℕ
  channelReplicaId : Option ℕ
  steerMessages : Bool
  steerAttachments : Bool

/-- A row of `turns`. -/
structure Turn where
  conversationId : ℕ
  status : TurnStatus
  source : TurnSource
  hasAttachments : Bool
  abortRequested : Bool
  followUpOfTurnId : Option ℕ
  steerDeliveredAt : Option ℕ
  startedAt : Option ℕ
  retriedAt : Option ℕ
  promotedAt : Option ℕ
  lastProgressAt : Option ℕ
  createdAt : ℕ
  updatedAt : ℕ

/-- The schedule or webhook that a conversation's runs belong to. -/
structure Automation where
  lastOutcome : Option TurnOutcome
  consecutiveFailures : ℕ
  enabled : Bool

/-- What happens to turns that their rows do not keep; no statement reads it. -/
inductive Event where
  /-- A claim hands a turn to a sandbox. -/
  | handed (turnId : ℕ)
  /-- A claim hands a follow-up to a run. -/
  | steered (followUpId turnId : ℕ)
  | promoted (followUpId : ℕ)
  /-- `abortTurn` sets the flag of a turn in flight. -/
  | flagged (turnId : ℕ)
  /-- `abortTurn` returns for a turn in flight. -/
  | stopped (turnId : ℕ)
  /-- `settleAutomationRun` is applied. -/
  | settled (turnId : ℕ)
  /-- A refusal at the door is booked. -/
  | booked (turnId : ℕ)

/-- The tables, and the events, the latest first. -/
structure Db where
  conversations : ℕ → Conversation
  sandboxes : ℕ → Sandbox
  automations : ℕ → Option Automation
  turns : List Turn
  log : List Event

/-- The windows of the sweeps, in seconds. -/
structure Windows where
  staleDispatch : ℕ
  turnCeiling : ℕ
  turnStall : ℕ

/-- The runner and the sandbox that are authenticated as a report's sender; a sandbox is known by its agent. -/
structure ReporterIdentity where
  runnerId : ℕ
  sandboxId : ℕ

end Rows

section Tables

/-- `updateMany`: what becomes of each row. -/
def Db.update (db : Db) (change : ℕ → Turn → Turn) : Db := { db with turns := db.turns.mapIdx change }

/-- A new row. -/
def Db.insert (db : Db) (turn : Turn) : Db := { db with turns := db.turns ++ [turn] }

/-- Something happens. -/
def Db.note (db : Db) (events : List Event) : Db := { db with log := events ++ db.log }

/-- The agent of a turn's conversation. -/
def Db.agentOf (db : Db) (turn : Turn) : ℕ := (db.conversations turn.conversationId).agentId

/-- `turnBelongsToReporter`, and the other fences by sandbox and runner. -/
def Db.hosts (db : Db) (reporter : ReporterIdentity) (turn : Turn) : Bool :=
  db.agentOf turn == reporter.sandboxId && (db.sandboxes reporter.sandboxId).runnerId == reporter.runnerId

/-- A row of the table that passes a test. -/
def Db.at (db : Db) (turnId : ℕ) (test : Turn → Bool) : Bool := db.turns[turnId]?.any test

/-- `turns_one_active_per_conversation` refuses another active row. -/
def Db.occupied (db : Db) (conversation : ℕ) : Bool :=
  db.turns.any fun t => t.conversationId == conversation && t.status.active

/-- `activeTurnOf`. -/
def Db.activeTurnOf (db : Db) (conversation : ℕ) : Option ℕ :=
  db.turns.findIdx? fun t => t.conversationId == conversation && t.status.active

/-- The parked follow-ups of a conversation. -/
def Db.parked (db : Db) (conversation : ℕ) : List Turn :=
  db.turns.filter fun t => t.conversationId == conversation && t.status == .joining

/-- A parked follow-up that none is older than. -/
def Db.isOldestParked (db : Db) (conversation turnId : ℕ) : Bool :=
  db.at turnId fun t => t.conversationId == conversation && t.status == .joining &&
    (db.parked conversation).all fun f => t.createdAt ≤ f.createdAt

/-- A row that is closed. -/
def Turn.close (now : ℕ) (outcome : TurnOutcome) (turn : Turn) : Turn :=
  { turn with status := outcome.status, updatedAt := now }

/-- The clock that the sweeps measure from. -/
def Turn.waitedSince (turn : Turn) : ℕ := (turn.retriedAt.or turn.promotedAt).getD turn.createdAt

end Tables

section Recovery

/-- `reviveColdTurns`, the rows that it takes. -/
def Turn.revivable (turn : Turn) : Bool :=
  turn.status == .dispatched && turn.startedAt.isNone && turn.retriedAt.isNone

/-- `reviveColdTurns`, of one row that its fence admits. -/
def reviveColdTurn (now : ℕ) (turn : Turn) : Turn :=
  if turn.revivable then { turn with status := .queued, retriedAt := some now, updatedAt := now } else turn

/-- `resumeInterruptedTurns`, the rows that it takes. -/
def Turn.resumable (turn : Turn) : Bool :=
  turn.status.inFlight && turn.startedAt.isSome && turn.retriedAt.isNone && !turn.abortRequested &&
    turn.source != .platformJob

/-- `resumeInterruptedTurns`, of one row that its fence admits. -/
def resumeInterruptedTurn (now : ℕ) (turn : Turn) : Turn :=
  if turn.resumable then
    { turn with status := .queued, retriedAt := some now, lastProgressAt := none, updatedAt := now }
  else turn

/-- `failStrandedTurns`, of one row that its fence admits; the causes differ in their words. -/
def failStrandedTurn (now : ℕ) (turn : Turn) : Turn := if turn.status.inFlight then turn.close now .failed else turn

/-- The three arms of a sandbox death, of one row that its fence admits. -/
def strand (now : ℕ) (homeReadOnly : Bool) (turn : Turn) : Turn :=
  if homeReadOnly then failStrandedTurn now turn
  else failStrandedTurn now (resumeInterruptedTurn now (reviveColdTurn now turn))

/-- Why a start failed, as far as its handler tells. -/
inductive StartFailure where
  | imageUnavailable
  | other

/-- A status report of a runner; whether it is about the container at hand is not modelled. -/
structure RunnerEvent where
  reporter : ReporterIdentity
  status : SandboxStatus
  homeReadOnly : Bool
  reasonCode : Option StartFailure
  observed : Bool

/-- A report that can still be true of a sandbox. -/
def RunnerEvent.applies (event : RunnerEvent) (sandbox : Sandbox) : Bool :=
  event.observed && sandbox.runnerId == event.reporter.runnerId &&
    match event.status with
    | .stopped => sandbox.status == .running || sandbox.status == .stopping
    | .starting | .failed => sandbox.status != .running
    | _ => true

/-- The status of a sandbox is written. -/
def Db.setSandbox (db : Db) (agentId : ℕ) (status : SandboxStatus) : Db :=
  { db with sandboxes := Function.update db.sandboxes agentId { db.sandboxes agentId with status } }

/-- `applyRunnerEvent`, the transaction over the turns of a sandbox that went down. -/
def strandTurns (now : ℕ) (event : RunnerEvent) (db : Db) : Db :=
  db.update fun _ t => if db.hosts event.reporter t then strand now event.homeReadOnly t else t

/-- Some turn of the sandbox is recovered. -/
def Db.recovers (db : Db) (event : RunnerEvent) : Bool :=
  !event.homeReadOnly && db.turns.any fun t => db.hosts event.reporter t && (t.revivable || t.resumable)

/-- `requestSandboxRespawn`. -/
def requestSandboxRespawn (now agentId : ℕ) (db : Db) : Db :=
  let sandbox := db.sandboxes agentId
  if sandbox.status = .starting ∨ sandbox.status = .running then
    (db.setSandbox agentId .unprovisioned).update fun _ t =>
      if db.agentOf t == agentId then strand now false t else t
  else db

/-- `requestAgentRestart`. -/
def requestAgentRestart (now agentId : ℕ) (db : Db) : Db :=
  let sandbox := db.sandboxes agentId
  let stopped :=
    if sandbox.status = .starting ∨ sandbox.status = .running ∨ sandbox.status = .stopping then
      { sandbox with stopRequestedAt := some now }
    else sandbox
  { db with sandboxes := Function.update db.sandboxes agentId stopped }.update fun _ t =>
    if db.agentOf t == agentId then failStrandedTurn now t else t

end Recovery

section Parks

/-- `START_FAILURE_PATIENCE_SECONDS`. -/
def startFailurePatienceSeconds : ℕ := 150

/-- A queued turn of the sandbox has waited out the patience. -/
def Db.waitedOut (db : Db) (now : ℕ) (reporter : ReporterIdentity) : Bool :=
  db.turns.any fun t =>
    db.hosts reporter t && t.status == .queued && t.waitedSince + startFailurePatienceSeconds < now

/-- `applyStartFailureReason`, the park. -/
def parkWaiting (now : ℕ) (reporter : ReporterIdentity) (db : Db) : Db :=
  db.update fun _ t =>
    if db.hosts reporter t && (t.status == .queued || t.status == .joining) then t.close now .failed else t

/-- `parkUnstartableClaim`. -/
def parkUnstartableClaim (now : ℕ) (reporter : ReporterIdentity) (db : Db) : Db :=
  let sandbox := db.sandboxes reporter.sandboxId
  if sandbox.runnerId = reporter.runnerId ∧ sandbox.status = .starting then
    (db.setSandbox reporter.sandboxId .failed).update fun _ t =>
      if db.agentOf t == reporter.sandboxId && (t.status.active || t.status == .joining) then t.close now .failed
      else t
  else db

/-- `reclaimStaleTurns`, the rows that it fails; one that never started has half an hour at most. -/
def Turn.pastCeiling (windows : Windows) (now : ℕ) (turn : Turn) : Bool :=
  turn.status.active &&
    turn.waitedSince + (if turn.startedAt.isNone then min windows.turnCeiling 1800 else windows.turnCeiling) < now

/-- `failStalledTurns`, the rows that it fails. -/
def Turn.stalled (windows : Windows) (now : ℕ) (turn : Turn) : Bool :=
  turn.status == .running && turn.lastProgressAt.any (· + windows.turnStall < now)

/-- The rows that a sweep takes. -/
def Db.swept (db : Db) (due : Turn → Bool) : List ℕ := (List.range db.turns.length).filter fun i => db.at i due

/-- `reclaimStaleTurns`. -/
def reclaimStaleTurns (windows : Windows) (now : ℕ) (db : Db) : Db :=
  db.update fun _ t =>
    if t.pastCeiling windows now then { t.close now .failed with abortRequested := t.startedAt.isSome } else t

/-- `failStalledTurns`. -/
def failStalledTurns (windows : Windows) (now : ℕ) (db : Db) : Db :=
  db.update fun _ t => if t.stalled windows now then { t.close now .failed with abortRequested := true } else t

/-- `expireWedgedFollowUps`. -/
def expireWedgedFollowUps (windows : Windows) (now : ℕ) (db : Db) : Db :=
  db.update fun _ t =>
    if t.status == .joining && t.createdAt + windows.turnCeiling < now && !db.occupied t.conversationId then
      t.close now .failed
    else t

end Parks

section Claims

/-- A poll of a runner, with the due rows that its arms lock. -/
structure Poll where
  runnerId : ℕ
  replicaId : Option ℕ
  aborts : List ℕ
  steers : List ℕ
  turns : List ℕ

/-- The runner of the poll has the turn's sandbox, and its replica the channel. -/
def Db.reaches (db : Db) (poll : Poll) (turn : Turn) : Bool :=
  let sandbox := db.sandboxes (db.agentOf turn)
  sandbox.runnerId == poll.runnerId && poll.replicaId.all fun replica => sandbox.channelReplicaId == some replica

/-- The abort arm, the rows that it takes. -/
def Turn.abortDue (turn : Turn) : Bool := turn.abortRequested && (turn.status.inFlight || turn.status == .failed)

/-- The abort arm. -/
def claimAborts (now : ℕ) (poll : Poll) (db : Db) : Db :=
  db.update fun i t =>
    if poll.aborts.contains i && t.abortDue && db.reaches poll t then
      { t with abortRequested := false, updatedAt := now }
    else t

/-- An older sibling that a follow-up may not overtake. -/
def Turn.blocks (older followUp : Turn) : Bool :=
  older.conversationId == followUp.conversationId && older.status == .joining &&
    older.createdAt < followUp.createdAt &&
    (older.steerDeliveredAt.isNone || older.followUpOfTurnId != followUp.followUpOfTurnId)

/-- The steer arm, the rows that it takes. -/
def Db.steerDue (db : Db) (followUp : Turn) : Bool :=
  let sandbox := db.sandboxes (db.agentOf followUp)
  sandbox.status == .running && followUp.status == .joining && followUp.steerDeliveredAt.isNone &&
    followUp.followUpOfTurnId.any (fun target => db.at target (·.status.inFlight)) && sandbox.steerMessages &&
    (sandbox.steerAttachments || !followUp.hasAttachments) && !db.turns.any (·.blocks followUp)

/-- The follow-ups that a poll hands over. -/
def Db.steers (db : Db) (poll : Poll) : List ℕ :=
  poll.steers.filter fun i => db.at i fun f => db.steerDue f && db.reaches poll f

/-- The run that a follow-up is handed to. -/
def Db.steeredTo (db : Db) (followUpId : ℕ) : Event :=
  .steered followUpId ((db.turns[followUpId]?.bind (·.followUpOfTurnId)).getD 0)

/-- The steer arm. -/
def claimSteers (now : ℕ) (poll : Poll) (db : Db) : Db :=
  (db.update fun i t =>
    if (db.steers poll).contains i then { t with steerDeliveredAt := some now, updatedAt := now } else t).note
    ((db.steers poll).map db.steeredTo)

/-- The turn arm, the rows that it takes. -/
def Db.turnDue (windows : Windows) (now : ℕ) (db : Db) (turn : Turn) : Bool :=
  let sandbox := db.sandboxes (db.agentOf turn)
  sandbox.status == .running && sandbox.stopRequestedAt.isNone &&
    (turn.status == .queued || (turn.status == .dispatched && turn.updatedAt + windows.staleDispatch < now))

/-- The turns that a poll hands over. -/
def Db.handed (windows : Windows) (now : ℕ) (db : Db) (poll : Poll) : List ℕ :=
  poll.turns.filter fun i => db.at i fun t => db.turnDue windows now t && db.reaches poll t

/-- The turn arm. -/
def claimTurns (windows : Windows) (now : ℕ) (poll : Poll) (db : Db) : Db :=
  (db.update fun i t =>
    if (db.handed windows now poll).contains i then { t with status := .dispatched, updatedAt := now } else t).note
    ((db.handed windows now poll).map .handed)

/-- `claimDueWork`, the arms over turns: one transaction. -/
def claimDueWork (windows : Windows) (now : ℕ) (poll : Poll) (db : Db) : Db :=
  claimTurns windows now poll (claimSteers now poll (claimAborts now poll db))

end Claims

section Reports

/-- `settleJoinedFollowUps`, the rows that it takes. -/
def Turn.joins (conversation target : ℕ) (turn : Turn) : Bool :=
  turn.conversationId == conversation && turn.followUpOfTurnId == some target && turn.status == .joining &&
    turn.steerDeliveredAt.isSome

/-- `settleJoinedFollowUps`. -/
def settleJoinedFollowUps (now conversation target : ℕ) (followUpIds : List ℕ) (db : Db) : Db :=
  db.update fun i t =>
    if followUpIds.contains i && t.joins conversation target then { t with status := .joined, updatedAt := now }
    else t

/-- A report names a turn of its sender in its conversation. -/
def Db.reported (db : Db) (reporter : ReporterIdentity) (conversation turnId : ℕ) : Bool :=
  db.at turnId fun t => t.conversationId == conversation && db.hosts reporter t

/-- `applyTurnEvents`: a batch that may say that the turn started and which follow-ups its run took in. -/
def applyTurnEvents (now : ℕ) (reporter : ReporterIdentity) (conversation turnId : ℕ) (started : Bool)
    (joined : List ℕ) (db : Db) : Db :=
  if db.reported reporter conversation turnId then
    settleJoinedFollowUps now conversation turnId joined (db.update fun i t =>
      if i == turnId && started && t.status == .dispatched then
        { t with status := .running, startedAt := t.startedAt.or (some now), updatedAt := now }
      else t)
  else db

/-- `applyTurnProgress`. -/
def applyTurnProgress (now : ℕ) (reporter : ReporterIdentity) (conversation turnId : ℕ) (db : Db) : Db :=
  if db.reported reporter conversation turnId then
    db.update fun i t =>
      if i == turnId && t.status == .running then { t with lastProgressAt := some now, updatedAt := now } else t
  else db

/-- `FinishTurnInput`. -/
structure FinishTurnInput where
  reporter : ReporterIdentity
  conversationId : ℕ
  turnId : ℕ
  status : TurnOutcome
  /-- The error code says that the harness or its channel died. -/
  death : Bool
  /-- The follow-ups that the run took in. -/
  joined : List ℕ

/-- A report that re-queues its turn when that is possible. -/
def FinishTurnInput.recovers (report : FinishTurnInput) : Bool := report.status == .failed && report.death

/-- `finishTurn`, the row that it closes; a failed report about a queued turn is stale. -/
def FinishTurnInput.closes (report : FinishTurnInput) (turn : Turn) : Bool :=
  if report.status = .failed then turn.status.inFlight else turn.status.active

/-- `finishTurn`, the close. -/
def closeTurn (now : ℕ) (report : FinishTurnInput) (db : Db) : Db :=
  let db := settleJoinedFollowUps now report.conversationId report.turnId report.joined
    (db.update fun i t => if i == report.turnId then t.close now report.status else t)
  if report.status = .aborted then
    db.update fun _ t =>
      if t.conversationId == report.conversationId && t.status == .joining then t.close now .aborted else t
  else db

end Reports

section Doors

/-- A message at a door. -/
structure Message where
  conversation : ℕ
  source : TurnSource
  hasAttachments : Bool
  /-- What a webhook's door read of its failures before it sent the event. -/
  priorFailures : Option ℕ

/-- A row that a message starts as. -/
def Message.row (now : ℕ) (message : Message) (status : TurnStatus) (target : Option ℕ) : Turn where
  conversationId := message.conversation
  status := status
  source := message.source
  hasAttachments := message.hasAttachments
  abortRequested := false
  followUpOfTurnId := target
  steerDeliveredAt := none
  startedAt := none
  retriedAt := none
  promotedAt := none
  lastProgressAt := none
  createdAt := now
  updatedAt := now

/-- `SEND_ATTEMPTS`. -/
def sendAttempts : ℕ := 3

/-- `MAX_JOINING_FOLLOW_UPS`. -/
def maxJoiningFollowUps : ℕ := 10

/-- `CRON_FAILURE_DISABLE_THRESHOLD` and `WEBHOOK_FAILURE_DISABLE_THRESHOLD`. -/
def failureDisableThreshold : ℕ := 5

/-- `webhookRunOutcome`, and the bookkeeping of a schedule; a stop is noted on a schedule alone. -/
def Automation.book (source : TurnSource) (outcome : TurnOutcome) (priorFailures : ℕ) (row : Automation) :
    Automation :=
  match outcome with
  | .done => { row with lastOutcome := some .done, consecutiveFailures := 0 }
  | .failed =>
    { lastOutcome := some .failed
      consecutiveFailures := priorFailures + 1
      enabled := row.enabled && decide (priorFailures + 1 < failureDisableThreshold) }
  | .aborted => if source = .cron then { row with lastOutcome := some .aborted } else row

/-- The row of a conversation's automation is written. -/
def Db.bookRun (db : Db) (conversation : ℕ) (outcome : TurnOutcome) (priorFailures : ℕ) : Db :=
  let source := (db.conversations conversation).source
  let booked := (db.automations conversation).map (Automation.book source outcome priorFailures)
  { db with automations := Function.update db.automations conversation booked }

/-- The conversation is one of a schedule's or a webhook's runs. -/
def Conversation.automated (conversation : Conversation) : Bool :=
  conversation.source == .cron || conversation.source == .webhook

end Doors

section Calls

/-- What goes on after a promotion. -/
inductive After where
  | return
  | settle (conversation turnId : ℕ) (outcome : TurnOutcome)
  | send (message : Message) (attempt : ℕ)

/-- The door that a turn is created at: by itself, or in the loop of `sendConversationMessage`. -/
inductive Door where
  | create
  | send (attempt : ℕ)

/-- The next statement of a call. -/
inductive Point where
  | idle
  -- `abortTurn`
  | abort (turnId attempt : ℕ)
  | abortJoining (turnId attempt : ℕ)
  | abortQueued (turnId conversation attempt : ℕ)
  | sweepQueued (turnId conversation : ℕ)
  | flag (turnId conversation : ℕ)
  | sweepUndelivered (turnId conversation : ℕ)
  | flagDelivered (turnId conversation : ℕ)
  -- `promoteOldestParkedFollowUp`
  | promoteFlagged (conversation : ℕ) (after : After)
  | promoteFind (conversation : ℕ) (after : After)
  | promote (turnId : ℕ) (after : After)
  -- `sendConversationMessage` and `createTurn`
  | send (message : Message) (attempt : ℕ)
  | sendPromoted (message : Message) (attempt : ℕ)
  | count (message : Message) (target : ℕ)
  | createFollowUp (message : Message) (target : ℕ)
  | stillActive (conversation target : ℕ)
  | createTurn (message : Message) (door : Door)
  | blocker (turnId : ℕ) (message : Message)
  | refuse (turnId : ℕ) (message : Message)
  | bookRefusal (turnId : ℕ) (message : Message)
  -- `applyRunnerEvent`
  | strand (event : RunnerEvent)
  | wake (event : RunnerEvent)
  | waitedOut (reporter : ReporterIdentity)
  | park (reporter : ReporterIdentity)
  -- `settleAutomationRun`, and the rest of a sweep
  | settle (conversation turnId : ℕ) (outcome : TurnOutcome) (rest : List ℕ)
  | bookRun (conversation turnId : ℕ) (outcome : TurnOutcome) (priorFailures : ℕ) (rest : List ℕ)

/-- Where a call goes on after a promotion. -/
def After.next (promoted : Bool) : After → Point
  | .return => .idle
  | .settle conversation turnId outcome => .settle conversation turnId outcome []
  | .send message attempt => if promoted then .sendPromoted message attempt else .createTurn message (.send attempt)

/-- What a report does after the strand: `applyStartFailureReason`, for a failed start. -/
def RunnerEvent.afterStrand (event : RunnerEvent) : Point :=
  if event.status = .failed then
    match event.reasonCode with
    | none => .idle
    | some .imageUnavailable => .park event.reporter
    | some .other => .waitedOut event.reporter
  else .idle

/-- `settleSweptTurns`. -/
def settleSweptTurns (db : Db) : List ℕ → Point
  | [] => .idle
  | turnId :: rest => .settle ((db.turns[turnId]?.map (·.conversationId)).getD 0) turnId .failed rest

/-- The arm of `abortTurn` for the row that it read. -/
def abortArm (turnId attempt : ℕ) : Option Turn → Point
  | none => .idle
  | some turn =>
    match turn.status with
    | .joining => .abortJoining turnId attempt
    | .queued => .abortQueued turnId turn.conversationId attempt
    | .dispatched | .running => .flag turnId turn.conversationId
    | _ => .idle

/-- What the environment answers a statement. -/
structure Answer where
  /-- The row that is read as the oldest. -/
  oldest : ℕ
  /-- The agent has no usable model key. -/
  blocked : Bool

/-- The next statement of a call. -/
def proceed (now : ℕ) (answer : Answer) (db : Db) : Point → Option (Db × Point)
  | .idle => none
  | .abort turnId attempt => some (db, if attempt < 2 then abortArm turnId attempt db.turns[turnId]? else .idle)
  | .abortJoining turnId attempt =>
    some (if db.at turnId (·.status == .joining) then
        (db.update fun i t => if i == turnId then t.close now .aborted else t, .idle)
      else (db, .abort turnId (attempt + 1)))
  | .abortQueued turnId conversation attempt =>
    some (if db.at turnId (·.status == .queued) then
        (db.update fun i t => if i == turnId then t.close now .aborted else t, .sweepQueued turnId conversation)
      else (db, .abort turnId (attempt + 1)))
  | .sweepQueued turnId conversation =>
    some (db.update fun _ t =>
        if t.conversationId == conversation && t.status == .joining then t.close now .aborted else t,
      .settle conversation turnId .aborted [])
  | .flag turnId conversation =>
    some ((db.update fun i t =>
        if i == turnId then { t with abortRequested := true, updatedAt := now } else t).note [.flagged turnId],
      .sweepUndelivered turnId conversation)
  | .sweepUndelivered turnId conversation =>
    some (db.update fun _ t =>
        if t.conversationId == conversation && t.status == .joining &&
            !(t.followUpOfTurnId == some turnId && t.steerDeliveredAt.isSome) then
          t.close now .aborted
        else t, .flagDelivered turnId conversation)
  | .flagDelivered turnId conversation =>
    some ((db.update fun _ t =>
        if t.joins conversation turnId then { t with abortRequested := true, updatedAt := now } else t).note
          [.stopped turnId], .idle)
  | .promoteFlagged conversation after =>
    some (db.update fun _ t =>
        if t.conversationId == conversation && t.status == .joining && t.abortRequested then t.close now .aborted
        else t, .promoteFind conversation after)
  | .promoteFind conversation after =>
    if (db.parked conversation).isEmpty then some (db, after.next false)
    else if db.isOldestParked conversation answer.oldest then some (db, .promote answer.oldest after)
    else none
  | .promote turnId after =>
    some (if db.at turnId fun t => t.status == .joining && !db.occupied t.conversationId then
        ((db.update fun i t =>
          if i == turnId then { t with status := .queued, promotedAt := some now, updatedAt := now } else t).note
            [.promoted turnId], after.next true)
      else (db, after.next false))
  | .send message attempt =>
    some (db, if sendAttempts ≤ attempt then .idle
      else
        match db.activeTurnOf message.conversation with
        | some target => .count message target
        | none => .promoteFlagged message.conversation (.send message attempt))
  | .sendPromoted message attempt =>
    some (db, match db.activeTurnOf message.conversation with
      | some target => .count message target
      | none => .send message (attempt + 1))
  | .count message target =>
    some (db,
      if maxJoiningFollowUps ≤ (db.parked message.conversation).length then .idle else .createFollowUp message target)
  | .createFollowUp message target =>
    some (db.insert (message.row now .joining (some target)), .stillActive message.conversation target)
  | .stillActive conversation target =>
    some (db, if db.at target (·.status.active) then .idle else .promoteFlagged conversation .return)
  | .createTurn message door =>
    some (if db.occupied message.conversation then
        (db, match door with
          | .create => .idle
          | .send attempt => .send message (attempt + 1))
      else (db.insert (message.row now .queued none), .blocker db.turns.length message))
  | .blocker turnId message => some (db, if answer.blocked then .refuse turnId message else .idle)
  | .refuse turnId message =>
    some (db.update fun i t => if i == turnId then t.close now .failed else t, .bookRefusal turnId message)
  -- `bookCreateTimeFailure`, or the webhook's door with the failures that it read before
  | .bookRefusal turnId message =>
    some (match message.priorFailures with
      | some failures => ((db.bookRun message.conversation .failed failures).note [.booked turnId], .idle)
      | none =>
        if message.source = .cron then
          (db.note [.booked turnId], match db.automations message.conversation with
            | some row => .bookRun message.conversation turnId .failed row.consecutiveFailures []
            | none => .idle)
        else (db, .idle))
  | .strand event => some (strandTurns now event db, if db.recovers event then .wake event else event.afterStrand)
  | .wake event =>
    let status := (db.sandboxes event.reporter.sandboxId).status
    some (if status = .stopped ∨ status = .failed then db.setSandbox event.reporter.sandboxId .unprovisioned else db,
      event.afterStrand)
  | .waitedOut reporter => some (db, if db.waitedOut now reporter then .park reporter else .idle)
  | .park reporter => some (parkWaiting now reporter db, .idle)
  | .settle conversation turnId outcome rest =>
    some (db.note [.settled turnId],
      match (db.automations conversation).filter fun _ => (db.conversations conversation).automated with
      | some row => .bookRun conversation turnId outcome row.consecutiveFailures rest
      | none => settleSweptTurns db rest)
  | .bookRun conversation _ outcome priorFailures rest =>
    some (db.bookRun conversation outcome priorFailures, settleSweptTurns db rest)

/-- A call that starts, or goes on. -/
inductive Choice where
  | proceed (answer : Answer)
  | abortTurn (turnId : ℕ)
  | sendConversationMessage (message : Message)
  | createTurn (message : Message)
  | receiveWebhook (message : Message)
  | promoteParkedFollowUps (conversation : ℕ)
  | finishTurn (report : FinishTurnInput)
  | applyTurnEvents (reporter : ReporterIdentity) (conversation turnId : ℕ) (started : Bool) (joined : List ℕ)
  | applyTurnProgress (reporter : ReporterIdentity) (conversation turnId : ℕ)
  | applyRunnerEvent (event : RunnerEvent)
  | requestSandboxRespawn (agentId : ℕ)
  | requestAgentRestart (agentId : ℕ)
  | parkUnstartableClaim (reporter : ReporterIdentity)
  | claimDueWork (poll : Poll)
  | reclaimStaleTurns
  | failStalledTurns
  | expireWedgedFollowUps
  /-- Another service writes a sandbox row. -/
  | sandbox (agentId : ℕ) (row : Sandbox)

/-- `finishTurn`, its transaction. -/
def finishTurn (now : ℕ) (report : FinishTurnInput) (db : Db) : Db × Point :=
  let own := db.reported report.reporter report.conversationId report.turnId
  let recover (change : ℕ → Turn → Turn) : Db := db.update fun i t => if i == report.turnId then change now t else t
  if own && report.recovers && db.at report.turnId Turn.revivable then (recover reviveColdTurn, .idle)
  else if own && report.recovers && db.at report.turnId Turn.resumable then (recover resumeInterruptedTurn, .idle)
  else if own && db.at report.turnId report.closes then
    (closeTurn now report db,
      .promoteFlagged report.conversationId (.settle report.conversationId report.turnId report.status))
  else (db, .idle)

/-- The first statement of a call. -/
def begin (windows : Windows) (now : ℕ) (db : Db) : Choice → Option (Db × Point)
  | .proceed _ => none
  | .abortTurn turnId => some (db, .abort turnId 0)
  | .sendConversationMessage message => some (db, .send { message with priorFailures := none } 0)
  | .createTurn message => some (db, .createTurn { message with priorFailures := none } .create)
  | .receiveWebhook message =>
    match (db.automations message.conversation).filter (·.enabled) with
    | some row => some (db, .send { message with priorFailures := some row.consecutiveFailures } 0)
    | none => some (db, .idle)
  | .promoteParkedFollowUps conversation => some (db, .promoteFlagged conversation .return)
  | .finishTurn report => some (finishTurn now report db)
  | .applyTurnEvents reporter conversation turnId started joined =>
    some (applyTurnEvents now reporter conversation turnId started joined db, .idle)
  | .applyTurnProgress reporter conversation turnId =>
    some (applyTurnProgress now reporter conversation turnId db, .idle)
  | .applyRunnerEvent event =>
    some (if event.applies (db.sandboxes event.reporter.sandboxId) then
        (db.setSandbox event.reporter.sandboxId event.status,
          if event.status = .stopped ∨ event.status = .failed then .strand event else .idle)
      else (db, .idle))
  | .requestSandboxRespawn agentId => some (requestSandboxRespawn now agentId db, .idle)
  | .requestAgentRestart agentId => some (requestAgentRestart now agentId db, .idle)
  | .parkUnstartableClaim reporter => some (parkUnstartableClaim now reporter db, .idle)
  | .claimDueWork poll => some (claimDueWork windows now poll db, .idle)
  | .reclaimStaleTurns =>
    some (reclaimStaleTurns windows now db, settleSweptTurns db (db.swept (Turn.pastCeiling windows now)))
  | .failStalledTurns =>
    some (failStalledTurns windows now db, settleSweptTurns db (db.swept (Turn.stalled windows now)))
  | .expireWedgedFollowUps => some (expireWedgedFollowUps windows now db, .idle)
  | .sandbox agentId row => some ({ db with sandboxes := Function.update db.sandboxes agentId row }, .idle)

/-- One statement, at a time of the clock. -/
def exec (windows : Windows) : Calls.Exec Db Point (ℕ × Choice)
  | (now, .proceed answer), db, point => proceed now answer db point
  | (now, choice), db, .idle => begin windows now db choice
  | _, _, _ => none

end Calls

end Onecli.Agents.Turns
