import Mathlib.Data.Nat.Notation

/-!
# Rows of the hosted agents

The enumerations of the tables that the agent services work on. Times and ids are numbers.
-/

namespace Onecli.Agents

/-- `Sandbox.status`. -/
inductive SandboxStatus where
  | unprovisioned
  | starting
  | running
  | stopping
  | stopped
  | failed
  deriving DecidableEq

/-- `Sandbox.stopReason`. -/
inductive StopReason where
  | idle
  | restart
  | evict

/-- `SandboxProcess.status`. -/
inductive ProcessStatus where
  | running
  | exited
  | stopped
  | lost
  | parked
  deriving DecidableEq

/-- `TERMINAL_PROCESS`. -/
def ProcessStatus.terminal (status : ProcessStatus) : Bool := status ≠ .running

/-- `ProcessWatch.status`. -/
inductive WatchStatus where
  | armed
  | triggered
  | expired
  | canceled
  | fired
  deriving DecidableEq

/-- `TERMINAL_WATCH`. -/
def WatchStatus.terminal : WatchStatus → Bool
  | .armed | .triggered => false
  | .expired | .canceled | .fired => true

/-- `ProcessWatch.trigger`. -/
inductive WatchTrigger where
  | exited
  | matched
  | silent
  | lost
  | parked
  deriving DecidableEq

/-- `TurnStatus`. -/
inductive TurnStatus where
  | queued
  | dispatched
  | running
  | done
  | failed
  | aborted
  | joining
  | joined
  deriving DecidableEq

/-- `ACTIVE_TURN_STATUSES`. -/
def TurnStatus.active : TurnStatus → Bool
  | .queued | .dispatched | .running => true
  | _ => false

/-- Handed to a sandbox and still open. -/
def TurnStatus.inFlight : TurnStatus → Bool
  | .dispatched | .running => true
  | _ => false

/-- How a turn ends. -/
inductive TurnOutcome where
  | done
  | failed
  | aborted
  deriving DecidableEq

/-- The status of a turn that has ended. -/
def TurnOutcome.status : TurnOutcome → TurnStatus
  | .done => .done
  | .failed => .failed
  | .aborted => .aborted

/-- A status that says how a turn ended. -/
def TurnStatus.terminal : TurnStatus → Bool
  | .done | .failed | .aborted => true
  | _ => false

/-- The sources that the turn services tell apart. -/
inductive TurnSource where
  | person
  | cron
  | webhook
  | platformJob
  deriving DecidableEq

end Onecli.Agents
