import Onecli.Foundation.Calls
import Mathlib.Data.List.Basic

/-!
# The fires of a schedule

`cron-fire-service.ts`, the claim of `due-work.ts` and the edits of `agent-cron-service.ts` on one
schedule. A poller claims the due row by moving its next fire time to a lease, and goes on with what it
read there; before it creates the turn it moves the time once more, if the time is still its lease. The
time zone's calendar and its jitter are choices of the environment, and so is what creating a turn answers.
-/

namespace Onecli.Agents.Crons

/-- `CRON_DISABLED_REASONS`. -/
inductive DisabledReason where
  | authorization
  | failures
  | completed
  deriving DecidableEq

/-- `CRON_OUTCOMES`. -/
inductive CronOutcome where
  | ok
  | failed
  | stopped
  | skippedBusy

/-- A row of `agent_crons`, and the number of the occurrence that its next fire is. -/
structure Cron where
  name : String
  prompt : String
  schedule : String
  timezone : String
  enabled : Bool
  disabledReason : Option DisabledReason
  nextFireAt : ℕ
  consecutiveFailures : ℕ
  lastOutcome : Option CronOutcome
  createdByUserId : Option ℕ
  occurrence : ℕ

/-- `CRON_LEASE_SECONDS`, in milliseconds. -/
def cronLease : ℕ := 300000

/-- `CRON_FAILURE_DISABLE_THRESHOLD`. -/
def cronFailureDisableThreshold : ℕ := 5

/-- The schedule is off, and not because its last occurrence has fired. -/
def Cron.Paused (cron : Cron) : Prop := cron.enabled = false ∧ cron.disabledReason ≠ some .completed

/-- A turn that a fire created, with the row as it stood then. -/
structure Turn where
  cron : Cron
  row : Option Cron

/-- The row and the turns that were created for it. -/
structure Db where
  cron : Option Cron
  fired : List Turn

/-- A claimed schedule, as `claimDueCrons` returned it. -/
structure Claim where
  lease : ℕ
  cron : Cron

/-- `CronUpdate`; a check and its words are no part of a fire. -/
structure CronUpdate where
  name : Option String
  prompt : Option String
  schedule : Option String
  timezone : Option String
  enabled : Option Bool

/-- The next statement of a fire or of an edit. -/
inductive Point where
  | idle
  | authorize (claim : Claim)
  | disable
  | advance (claim : Claim)
  | conversation (claim : Claim)
  | create (claim : Claim)
  | busy
  | bookRead
  | bookWrite (failures : ℕ)
  | read (update : CronUpdate)
  /-- `existing` is the row that the edit read. -/
  | write (update : CronUpdate) (existing : Cron)

/-- What `createTurn` answers to a fire. -/
inductive Created where
  | queued
  /-- Born failed at door 1. -/
  | failed
  | conflict
  | error

/-- How a run ends, with the failures that its settlement counted. -/
inductive RunEnd where
  | done
  | failed (failures : ℕ)
  | aborted

/-- What a call does next. -/
inductive Choice where
  | claim (now : ℕ)
  | edit (update : CronUpdate)
  | delete
  | runNow (now : ℕ)
  /-- A run settles. -/
  | settle (runEnd : RunEnd)
  | proceed (allowed : Bool) (next : Option ℕ) (created : Created)
  | crash

/-- `claimDueCrons`, of this row. -/
def claimCron (now : ℕ) (cron : Cron) : Option Cron :=
  if cron.enabled ∧ cron.nextFireAt ≤ now then some { cron with nextFireAt := now + cronLease } else none

/-- `disableCron`. -/
def disableCron (reason : DisabledReason) (cron : Cron) : Cron :=
  { cron with enabled := false, disabledReason := some reason }

/-- `advanceClaimedCron`: the next occurrence is another one. -/
def advanceClaimedCron (next : ℕ) (cron : Cron) : Cron :=
  { cron with nextFireAt := next, occurrence := cron.occurrence + 1 }

/-- `completeClaimedCron`: there is no next occurrence. -/
def completeClaimedCron (cron : Cron) : Cron :=
  { cron with enabled := false, disabledReason := some .completed, occurrence := cron.occurrence + 1 }

/-- What a failed run writes, from the failures that it counted. -/
def bookFailure (failures : ℕ) (cron : Cron) : Cron :=
  let cron := { cron with lastOutcome := some .failed, consecutiveFailures := failures }
  if cronFailureDisableThreshold ≤ failures then disableCron .failures cron else cron

/-- What `settleAutomationRun` writes for a run. -/
def settleCron (cron : Cron) : RunEnd → Cron
  | .done => { cron with lastOutcome := some .ok, consecutiveFailures := 0 }
  | .failed failures => bookFailure failures cron
  | .aborted => { cron with lastOutcome := some .stopped }

/-- `runCronNow`. -/
def runCronNow (now : ℕ) (cron : Cron) : Cron :=
  if cron.enabled ∨ cron.disabledReason = some .completed then
    { cron with nextFireAt := now, enabled := true, disabledReason := none, occurrence := cron.occurrence + 1 }
  else cron

/-- The schedule changes, against the row that the edit read. -/
def CronUpdate.scheduleChanged (update : CronUpdate) (existing : Cron) : Prop :=
  update.schedule.getD existing.schedule ≠ existing.schedule ∨
    update.timezone.getD existing.timezone ≠ existing.timezone

/-- The schedule is turned on again, against the row that the edit read. -/
def CronUpdate.reEnabled (update : CronUpdate) (existing : Cron) : Prop :=
  update.enabled = some true ∧ existing.enabled = false

instance (update : CronUpdate) (existing : Cron) : Decidable (update.scheduleChanged existing) := by
  unfold CronUpdate.scheduleChanged
  infer_instance

instance (update : CronUpdate) (existing : Cron) : Decidable (update.reEnabled existing) := by
  unfold CronUpdate.reEnabled
  infer_instance

/-- The fields that an edit states. -/
def editedCron (update : CronUpdate) (cron : Cron) : Cron :=
  { cron with
    name := update.name.getD cron.name
    prompt := update.prompt.getD cron.prompt
    schedule := update.schedule.getD cron.schedule
    timezone := update.timezone.getD cron.timezone
    enabled := update.enabled.getD cron.enabled }

/-- `applyCronUpdate`, its write; a schedule that never fires is refused. -/
def applyCronUpdate (update : CronUpdate) (existing : Cron) (next : Option ℕ) (cron : Cron) : Option Cron :=
  if update.scheduleChanged existing ∨ update.reEnabled existing then
    next.map fun next =>
      let cron := { editedCron update cron with nextFireAt := next, occurrence := cron.occurrence + 1 }
      if update.reEnabled existing then { cron with disabledReason := none, consecutiveFailures := 0 } else cron
  else some (editedCron update cron)

/-- The next statement of `fireOne` or of `applyCronUpdate`. -/
def proceed (allowed : Bool) (next : Option ℕ) (created : Created) (db : Db) : Point → Option (Db × Point)
  | .idle => none
  | .authorize claim => some (db, if claim.cron.createdByUserId = none ∨ allowed then .advance claim else .disable)
  | .disable => some ({ db with cron := db.cron.map (disableCron .authorization) }, .idle)
  | .advance claim =>
    match db.cron with
    | none => some (db, .idle)
    | some cron =>
      if cron.nextFireAt = claim.lease then
        some ({ db with cron := some (next.elim (completeClaimedCron cron) fun next => advanceClaimedCron next cron) },
          .conversation claim)
      -- edited mid-claim
      else some (db, .idle)
  | .conversation claim => some (db, .create claim)
  | .create claim =>
    match created with
    | .queued => some ({ db with fired := ⟨claim.cron, db.cron⟩ :: db.fired }, .idle)
    | .failed => some ({ db with fired := ⟨claim.cron, db.cron⟩ :: db.fired }, .bookRead)
    | .conflict => some (db, .busy)
    | .error => some (db, .idle)
  | .busy => some ({ db with cron := db.cron.map fun cron => { cron with lastOutcome := some .skippedBusy } }, .idle)
  | .bookRead =>
    match db.cron with
    | none => some (db, .idle)
    | some cron => some (db, .bookWrite (cron.consecutiveFailures + 1))
  | .bookWrite failures => some ({ db with cron := db.cron.map (bookFailure failures) }, .idle)
  | .read update =>
    match db.cron with
    | none => some (db, .idle)
    | some cron => some (db, .write update cron)
  | .write update existing =>
    match db.cron with
    | none => some (db, .idle)
    | some cron => some ({ db with cron := (applyCronUpdate update existing next cron).or (some cron) }, .idle)

/-- One statement. -/
def exec : Calls.Exec Db Point Choice
  | .claim now, db, .idle =>
    (db.cron.bind (claimCron now)).map fun cron =>
      ({ db with cron := some cron }, .authorize ⟨cron.nextFireAt, cron⟩)
  | .edit update, db, .idle => some (db, .read update)
  | .delete, db, .idle => some ({ db with cron := none }, .idle)
  | .runNow now, db, .idle => some ({ db with cron := db.cron.map (runCronNow now) }, .idle)
  | .settle runEnd, db, .idle => some ({ db with cron := db.cron.map fun cron => settleCron cron runEnd }, .idle)
  | .proceed allowed next created, db, point => proceed allowed next created db point
  | .crash, db, _ => some (db, .idle)
  | _, _, _ => none

/-! ## Once and never stale

A poller that holds a claim goes on with what it read when it claimed. The compare with the lease stops it
after an edit that moves the next fire time, and lets it pass after one that does not: an edit of the
prompt, a pause, an auto-disable. Nothing stops it between the compare and the turn.
-/

open List Option Nat Runs

/-- The claim that a fire holds before its compare. -/
def Point.waiting : Point → Option Claim
  | .authorize claim | .advance claim => some claim
  | _ => none

/-- The claim that a fire goes on with after its compare. -/
def Point.committed : Point → Option Claim
  | .conversation claim | .create claim => some claim
  | _ => none

/-- The row is the schedule that was claimed, and is not paused. -/
structure Agrees (row cron : Cron) : Prop where
  prompt : row.prompt = cron.prompt
  schedule : row.schedule = cron.schedule
  timezone : row.timezone = cron.timezone
  running : ¬ row.Paused

/-- A turn carries the prompt of its row as it stood when the turn was created, for the schedule that it
stated, and the row was not paused. -/
def Turn.Fresh (turn : Turn) : Prop := ∃ row ∈ turn.row, Agrees row turn.cron

/-- Each occurrence has one turn at most, and each turn is fresh. -/
structure Fires (db : Db) : Prop where
  once : (db.fired.map fun turn => turn.cron.occurrence).Nodup
  fresh : ∀ turn ∈ db.fired, turn.Fresh

section Condition

variable (w : Calls.World Db Point)

/-- No other poller holds a lease that is this time. -/
def LeaseFree (i time : ℕ) : Prop := ∀ j ≠ i, ∀ claim ∈ (w.calls j).waiting, claim.lease ≠ time

/-- No fire is between its compare and its turn. -/
def NoneCommitted : Prop := ∀ j, (w.calls j).committed = none

/-- No fire holds the lease that the row has. -/
def NoneLive : Prop := ∀ j, ∀ claim ∈ (w.calls j).waiting, ∀ cron ∈ w.db.cron, cron.nextFireAt ≠ claim.lease

/-- An edit changes what is fired, or pauses it. -/
def Replaces (update : CronUpdate) : Prop :=
  ∃ cron ∈ w.db.cron, ¬ ((editedCron update cron).prompt = cron.prompt ∧
    (editedCron update cron).schedule = cron.schedule ∧ (editedCron update cron).timezone = cron.timezone ∧
    ((editedCron update cron).Paused → cron.Paused))

/-- An edit that replaces something, a pause or an auto-disable, finds no fire that holds the row's lease,
unless it moves the next fire time, and none past its compare; and no time that the row is set to is the
lease of another poller. -/
def Undisturbed (i : ℕ) : Choice → Point → Prop
  | .claim now, _ => LeaseFree w i (now + cronLease)
  | .runNow now, _ => LeaseFree w i now
  | .delete, _ => NoneCommitted w
  | .settle (.failed failures), _ => cronFailureDisableThreshold ≤ failures → NoneCommitted w ∧ NoneLive w
  | .proceed .., .bookWrite failures => cronFailureDisableThreshold ≤ failures → NoneCommitted w ∧ NoneLive w
  | .proceed .., .disable => NoneCommitted w ∧ NoneLive w
  | .proceed _ next _, .advance _ => ∀ time ∈ next, LeaseFree w i time
  | .proceed _ next _, .write update existing =>
    if update.scheduleChanged existing ∨ update.reEnabled existing then
      ∀ time ∈ next, LeaseFree w i time ∧ (Replaces w update → NoneCommitted w)
    else Replaces w update → NoneCommitted w ∧ NoneLive w
  | _, _ => True

end Condition

/-- The turns so far are of occurrences that the row is past. -/
structure Past (db : Db) : Prop extends Fires db where
  past : ∀ turn ∈ db.fired, ∀ cron ∈ db.cron, turn.cron.occurrence < cron.occurrence

/-- What a fire knows: its claim is still good while the row has its lease, and it is the only one for its
occurrence once it is past its compare. -/
structure Knows (db : Db) (point : Point) : Prop where
  waiting : ∀ claim ∈ point.waiting, ∀ cron ∈ db.cron, cron.nextFireAt = claim.lease →
    Agrees cron claim.cron ∧ cron.occurrence = claim.cron.occurrence
  committed : ∀ claim ∈ point.committed, (∀ turn ∈ db.fired, turn.cron.occurrence ≠ claim.cron.occurrence) ∧
    ∃ cron ∈ db.cron, Agrees cron claim.cron ∧ claim.cron.occurrence < cron.occurrence

/-- Two fires have two leases, and two occurrences past their compares. -/
structure Apart (p q : Point) : Prop where
  waiting : ∀ claim ∈ p.waiting, ∀ claim' ∈ q.waiting, claim.lease ≠ claim'.lease
  committed : ∀ claim ∈ p.committed, ∀ claim' ∈ q.committed, claim.cron.occurrence ≠ claim'.cron.occurrence

/-- Apart calls, the other way. -/
theorem Apart.symm {p q : Point} (h : Apart p q) : Apart q p :=
  ⟨fun claim hclaim claim' hclaim' heq => h.waiting claim' hclaim' claim hclaim heq.symm,
    fun claim hclaim claim' hclaim' heq => h.committed claim' hclaim' claim hclaim heq.symm⟩

/-- What holds of a world: the turns are past, and each fire knows its claim and is apart from the others. -/
abbrev Inv (w : Calls.World Db Point) : Prop := Calls.HoldsApart Past Knows Apart w

/-- What one statement leaves to be shown of its world. -/
def After (w : Calls.World Db Point) (i : ℕ) (db : Db) (point : Point) : Prop :=
  Past db ∧ Knows db point ∧ ∀ j ≠ i, Knows db (w.calls j) ∧ Apart point (w.calls j)

/-- A call goes on with no claim but those it held. -/
structure Carries (point point' : Point) : Prop where
  waiting : ∀ claim ∈ point'.waiting, claim ∈ point.waiting
  committed : ∀ claim ∈ point'.committed, claim ∈ point.committed

/-- A point without a claim carries nothing. -/
theorem carries_of_none {point point' : Point} (hwait : point'.waiting = none)
    (hcomm : point'.committed = none) : Carries point point' := by
  constructor
  · rintro claim hclaim
    cases hwait.symm.trans hclaim
  · rintro claim hclaim
    cases hcomm.symm.trans hclaim

variable {db : Db}

theorem Carries.knows {point point' : Point} (h : Carries point point') (hknows : Knows db point) :
    Knows db point' :=
  ⟨fun claim hclaim => hknows.waiting claim (h.waiting claim hclaim),
    fun claim hclaim => hknows.committed claim (h.committed claim hclaim)⟩

/-- What is carried stays apart. -/
theorem Carries.apart {point point' other : Point} (h : Carries point point') (hapart : Apart point other) :
    Apart point' other :=
  ⟨fun claim hclaim => hapart.waiting claim (h.waiting claim hclaim),
    fun claim hclaim => hapart.committed claim (h.committed claim hclaim)⟩

/-- A point without a claim knows nothing. -/
theorem knows_of_none {point : Point} (hwait : point.waiting = none) (hcomm : point.committed = none) :
    Knows db point := by
  constructor
  · rintro claim hclaim
    cases hwait.symm.trans hclaim
  · rintro claim hclaim
    cases hcomm.symm.trans hclaim

/-- A written row leaves a call with what it knows, where the row's lease becomes no lease of the call, and
what the call goes on with is left alone. -/
theorem Knows.write {point : Point} (h : Knows db point) {cron cron' : Cron} (hcron : db.cron = some cron)
    (hocc : cron.occurrence ≤ cron'.occurrence)
    (hwait : ∀ claim ∈ point.waiting, cron'.nextFireAt = claim.lease → cron.nextFireAt = claim.lease ∧ cron'.occurrence = cron.occurrence ∧ (Agrees cron claim.cron → Agrees cron' claim.cron))
    (hcomm : ∀ claim ∈ point.committed, Agrees cron claim.cron → Agrees cron' claim.cron) :
    Knows { db with cron := some cron' } point := by
  refine ⟨?_, fun claim hclaim => ?_⟩
  · rintro claim hclaim _ ⟨⟩ hlease
    obtain ⟨hlease, hsame, hagrees⟩ := hwait claim hclaim hlease
    obtain ⟨hrow, hnumber⟩ := h.waiting claim hclaim cron hcron hlease
    exact ⟨hagrees hrow, hsame.trans hnumber⟩
  · obtain ⟨hfired, row, hrow, hagrees, hlt⟩ := h.committed claim hclaim
    cases hcron.symm.trans hrow
    exact ⟨hfired, cron', rfl, hcomm claim hclaim hagrees, Nat.lt_of_lt_of_le hlt hocc⟩

theorem Past.write (h : Past db) {cron cron' : Cron} (hcron : db.cron = some cron)
    (hocc : cron.occurrence ≤ cron'.occurrence) : Past { db with cron := some cron' } := by
  refine ⟨⟨h.once, h.fresh⟩, ?_⟩
  rintro turn hturn _ ⟨⟩
  exact Nat.lt_of_lt_of_le (h.past turn hturn cron hcron) hocc

section Statements

variable {w : Calls.World Db Point} {i : ℕ}

variable {point : Point} {cron cron' : Cron}

section

variable (h : Inv w)
include h

/-- A read changes nothing. -/
theorem Inv.read (hcarries : Carries (w.calls i) point) : After w i w.db point :=
  ⟨h.db, hcarries.knows (h.calls i), fun j hj => ⟨h.calls j, hcarries.apart (h.apart i j (Ne.symm hj))⟩⟩

section

variable (hwait : point.waiting = none) (hcomm : point.committed = none) (hcron : w.db.cron = some cron)
include hwait hcomm hcron

/-- A write of a claim. -/
theorem Inv.write (hocc : cron.occurrence ≤ cron'.occurrence)
    (hlive : ∀ j ≠ i, ∀ claim ∈ (w.calls j).waiting, cron'.nextFireAt = claim.lease → cron.nextFireAt = claim.lease ∧ cron'.occurrence = cron.occurrence ∧ (Agrees cron claim.cron → Agrees cron' claim.cron))
    (hagrees : ∀ j ≠ i, ∀ claim ∈ (w.calls j).committed, Agrees cron claim.cron → Agrees cron' claim.cron) :
    After w i { w.db with cron := some cron' } point := by
  have hcarries : Carries (w.calls i) point := carries_of_none hwait hcomm
  refine ⟨h.db.write hcron hocc, knows_of_none hwait hcomm, fun j hj => ⟨?_, ?_⟩⟩
  · exact (h.calls j).write hcron hocc (hlive j hj) (hagrees j hj)
  · exact hcarries.apart (h.apart i j (Ne.symm hj))

/-- A note on the row. -/
theorem Inv.note (hocc : cron'.occurrence = cron.occurrence) (hnext : cron'.nextFireAt = cron.nextFireAt)
    (hagrees : ∀ claim, Agrees cron claim → Agrees cron' claim) :
    After w i { w.db with cron := some cron' } point := by
  refine h.write hwait hcomm hcron (Nat.le_of_eq hocc.symm) ?_ fun _ _ claim _ => hagrees claim.cron
  exact fun j _ claim _ hlease => ⟨hnext ▸ hlease, hocc, hagrees claim.cron⟩

end

/-- A write while no claim is live. -/
theorem Inv.writeFree (hnone : NoneCommitted w) (hlive : NoneLive w) (hwait : point.waiting = none)
    (hcomm : point.committed = none) (hcron : w.db.cron = some cron)
    (hocc : cron.occurrence ≤ cron'.occurrence) (hnext : cron'.nextFireAt = cron.nextFireAt) :
    After w i { w.db with cron := some cron' } point := by
  refine h.write hwait hcomm hcron hocc ?_ ?_
  · intro j _ claim hclaim hlease
    exact absurd (hnext ▸ hlease) (hlive j claim hclaim cron hcron)
  · intro j _ claim hclaim
    cases (hnone j).symm.trans hclaim

/-- A move of the next fire. -/
theorem Inv.move (hwait : point.waiting = none) (hcomm : point.committed = none)
    (hcron : w.db.cron = some cron) (hocc : cron.occurrence ≤ cron'.occurrence)
    (hfree : LeaseFree w i cron'.nextFireAt)
    (hagrees : ∀ j ≠ i, ∀ claim ∈ (w.calls j).committed, Agrees cron claim.cron → Agrees cron' claim.cron) :
    After w i { w.db with cron := some cron' } point := by
  refine h.write hwait hcomm hcron hocc ?_ hagrees
  intro j hj claim hclaim hlease
  exact absurd hlease.symm (hfree j hj claim hclaim)

theorem Inv.delete (hnone : NoneCommitted w) : After w i { w.db with cron := none } .idle := by
  refine ⟨⟨⟨h.db.once, h.db.fresh⟩, ?_⟩, knows_of_none rfl rfl, fun j hj => ⟨⟨?_, ?_⟩, ?_⟩⟩
  · rintro _ _ _ ⟨⟩
  · rintro _ _ _ ⟨⟩
  · rintro claim hclaim
    cases (hnone j).symm.trans hclaim
  · exact (carries_of_none rfl rfl).apart (h.apart i j (Ne.symm hj))

theorem Inv.claim {now : ℕ} (hcron : w.db.cron = some cron) (hclaim : claimCron now cron = some cron')
    (hfree : LeaseFree w i (now + cronLease)) :
    After w i { w.db with cron := some cron' } (.authorize ⟨cron'.nextFireAt, cron'⟩) := by
  simp only [claimCron, ite_none_right_eq_some, Option.some.injEq] at hclaim
  obtain ⟨⟨henabled, -⟩, rfl⟩ := hclaim
  have hruns (row : Cron) (hrow : row.enabled = cron.enabled) : ¬ row.Paused := by
    rintro ⟨hoff, -⟩
    rw [hrow, henabled] at hoff
    cases hoff
  have hmoved : After w i { w.db with cron := some { cron with nextFireAt := now + cronLease } } .idle := by
    refine h.move rfl rfl hcron (Nat.le_refl _) hfree ?_
    intro j _ claim _ hagrees
    exact ⟨hagrees.prompt, hagrees.schedule, hagrees.timezone, hruns _ rfl⟩
  obtain ⟨hpast, -, hothers⟩ := hmoved
  refine ⟨hpast, ⟨?_, ?_⟩, fun j hj => ⟨(hothers j hj).1, ?_, ?_⟩⟩
  · rintro _ ⟨⟩ _ ⟨⟩ -
    exact ⟨⟨rfl, rfl, rfl, hruns _ rfl⟩, rfl⟩
  · rintro _ ⟨⟩
  · rintro _ ⟨⟩ claim hclaim hlease
    exact hfree j hj claim hclaim hlease.symm
  · rintro _ ⟨⟩

theorem Inv.compare {claim : Claim} (hwaits : claim ∈ (w.calls i).waiting) (hcron : w.db.cron = some cron)
    (hlease : cron.nextFireAt = claim.lease) (hocc : cron'.occurrence = cron.occurrence + 1)
    (hnext : cron'.nextFireAt = cron.nextFireAt ∨ LeaseFree w i cron'.nextFireAt)
    (hagrees : ∀ claim, Agrees cron claim → Agrees cron' claim) :
    After w i { w.db with cron := some cron' } (.conversation claim) := by
  obtain ⟨hrow, hnumber⟩ := (h.calls i).waiting claim hwaits cron hcron hlease
  have hlater : cron.occurrence < cron'.occurrence := hocc ▸ lt_succ_self _
  have hmoved : After w i { w.db with cron := some cron' } .idle := by
    refine h.write rfl rfl hcron (Nat.le_of_lt hlater) ?_ fun j _ claim _ => hagrees claim.cron
    -- the time that the row has now is no lease of another fire
    intro j hj other hother hheld
    rcases hnext with hsame | hfree
    · have heq : claim.lease = other.lease := by rw [← hlease, ← hsame, hheld]
      exact absurd heq ((h.apart i j (Ne.symm hj)).waiting claim hwaits other hother)
    · exact absurd hheld.symm (hfree j hj other hother)
  obtain ⟨hpast, -, hothers⟩ := hmoved
  refine ⟨hpast, ⟨?_, ?_⟩, fun j hj => ⟨(hothers j hj).1, ?_, ?_⟩⟩
  · rintro _ ⟨⟩
  · rintro _ ⟨⟩
    refine ⟨fun turn hturn => ?_, cron', rfl, hagrees claim.cron hrow, hnumber ▸ hlater⟩
    exact hnumber ▸ Nat.ne_of_lt (h.db.past turn hturn cron hcron)
  · rintro _ ⟨⟩
  · rintro _ ⟨⟩ other hother
    obtain ⟨-, row, hsame, -, hlt⟩ := (h.calls j).committed other hother
    cases hcron.symm.trans hsame
    exact hnumber ▸ (Nat.ne_of_lt hlt).symm

theorem Inv.create {claim : Claim} (hholds : claim ∈ (w.calls i).committed) (hwait : point.waiting = none)
    (hcomm : point.committed = none) :
    After w i { w.db with fired := ⟨claim.cron, w.db.cron⟩ :: w.db.fired } point := by
  obtain ⟨hnew, cron, hcron, hagrees, hlt⟩ := (h.calls i).committed claim hholds
  refine ⟨⟨⟨?_, ?_⟩, ?_⟩, knows_of_none hwait hcomm, fun j hj => ⟨⟨(h.calls j).waiting, ?_⟩, ?_⟩⟩
  · refine nodup_cons.mpr ⟨?_, h.db.once⟩
    rintro hmem
    obtain ⟨turn, hturn, hsame⟩ := List.mem_map.mp hmem
    exact hnew turn hturn hsame
  · intro turn hturn
    rcases mem_cons.mp hturn with rfl | hturn
    · exact ⟨cron, hcron, hagrees⟩
    · exact h.db.fresh turn hturn
  · intro turn hturn row hrow
    rcases mem_cons.mp hturn with rfl | hturn
    · cases hcron.symm.trans hrow
      exact hlt
    · exact h.db.past turn hturn row hrow
  · intro other hother
    obtain ⟨hfired, hrow⟩ := (h.calls j).committed other hother
    refine ⟨fun turn hturn => ?_, hrow⟩
    rcases mem_cons.mp hturn with rfl | hturn
    · exact (h.apart i j (Ne.symm hj)).committed claim hholds other hother
    · exact hfired turn hturn
  · exact (carries_of_none hwait hcomm).apart (h.apart i j (Ne.symm hj))

/-- A fire of a cron that is gone. -/
theorem Inv.missing (hwait : point.waiting = none) (hcomm : point.committed = none)
    (hcron : w.db.cron = none) : After w i { w.db with cron := none } point := by
  have hcarries : Carries (w.calls i) point := carries_of_none hwait hcomm
  have hread := h.read hcarries
  have hsame : { w.db with cron := none } = w.db := by rw [← hcron]
  rw [hsame]
  exact hread

theorem Inv.bookFailure {failures : ℕ} (hwait : point.waiting = none) (hcomm : point.committed = none)
    (hfree : cronFailureDisableThreshold ≤ failures → NoneCommitted w ∧ NoneLive w) :
    After w i { w.db with cron := w.db.cron.map (bookFailure failures) } point := by
  cases hcron : w.db.cron with
  | none => exact h.missing hwait hcomm hcron
  | some cron =>
    by_cases hdisable : cronFailureDisableThreshold ≤ failures
    · have hcron' : Crons.bookFailure failures cron = disableCron .failures
          { cron with lastOutcome := some .failed, consecutiveFailures := failures } := if_pos hdisable
      rw [map_some, hcron']
      exact h.writeFree (hfree hdisable).1 (hfree hdisable).2 hwait hcomm hcron (Nat.le_refl _) rfl
    · have hcron' : Crons.bookFailure failures cron =
          { cron with lastOutcome := some .failed, consecutiveFailures := failures } := if_neg hdisable
      rw [map_some, hcron']
      refine h.note hwait hcomm hcron rfl rfl fun claim hagrees => ?_
      exact ⟨hagrees.prompt, hagrees.schedule, hagrees.timezone, hagrees.running⟩

theorem Inv.disable (hfree : NoneCommitted w ∧ NoneLive w) (reason : DisabledReason) :
    After w i { w.db with cron := w.db.cron.map (disableCron reason) } .idle := by
  cases hcron : w.db.cron with
  | none => exact h.missing rfl rfl hcron
  | some => exact h.writeFree hfree.1 hfree.2 rfl rfl hcron (Nat.le_refl _) rfl

theorem Inv.settle {runEnd : RunEnd} (hfree : ∀ failures, runEnd = .failed failures → cronFailureDisableThreshold ≤
    failures → NoneCommitted w ∧ NoneLive w) :
    After w i { w.db with cron := w.db.cron.map fun cron => settleCron cron runEnd } .idle := by
  cases runEnd with
  | failed failures => exact h.bookFailure rfl rfl (hfree failures rfl)
  | _ =>
    cases hcron : w.db.cron with
    | none => exact h.missing rfl rfl hcron
    | some =>
      refine h.note rfl rfl hcron rfl rfl fun claim hagrees => ?_
      exact ⟨hagrees.prompt, hagrees.schedule, hagrees.timezone, hagrees.running⟩

theorem Inv.runNow {now : ℕ} (hfree : LeaseFree w i now) :
    After w i { w.db with cron := w.db.cron.map (runCronNow now) } .idle := by
  cases hcron : w.db.cron with
  | none => exact h.missing rfl rfl hcron
  | some cron =>
    by_cases hon : cron.enabled ∨ cron.disabledReason = some .completed
    · have hcron' : runCronNow now cron = { cron with
          nextFireAt := now, enabled := true, disabledReason := none, occurrence := cron.occurrence + 1 } := if_pos hon
      rw [map_some, hcron']
      refine h.move rfl rfl hcron (le_succ _) hfree fun j _ claim _ hagrees => ?_
      refine ⟨hagrees.prompt, hagrees.schedule, hagrees.timezone, ?_⟩
      rintro ⟨⟨⟩, -⟩
    · have hcron' : runCronNow now cron = cron := if_neg hon
      rw [map_some, hcron']
      exact h.note rfl rfl hcron rfl rfl fun claim hagrees => hagrees

end

theorem agrees_editedCron {update : CronUpdate} {cron : Cron} (hcron : w.db.cron = some cron)
    (hreplaces : ¬ Replaces w update) {claim : Cron} (hagrees : Agrees cron claim) :
    Agrees (editedCron update cron) claim := by
  obtain ⟨hprompt, hschedule, htimezone, hpaused⟩ :=
    Classical.byContradiction fun hnot => hreplaces ⟨cron, hcron, hnot⟩
  exact ⟨hprompt.trans hagrees.prompt, hschedule.trans hagrees.schedule, htimezone.trans hagrees.timezone,
    fun h => hagrees.running (hpaused h)⟩

theorem Inv.edit (h : Inv w) {update : CronUpdate} {existing cron : Cron} {next : Option ℕ}
    (hcond : if update.scheduleChanged existing ∨ update.reEnabled existing then
        ∀ time ∈ next, LeaseFree w i time ∧ (Replaces w update → NoneCommitted w)
      else Replaces w update → NoneCommitted w ∧ NoneLive w) (hcron : w.db.cron = some cron) :
    After w i { w.db with cron := (applyCronUpdate update existing next cron).or (some cron) } .idle := by
  rw [applyCronUpdate]
  by_cases hmoves : update.scheduleChanged existing ∨ update.reEnabled existing
  · rw [if_pos hmoves] at hcond ⊢
    cases next with
    | none => exact h.note rfl rfl hcron rfl rfl fun claim hagrees => hagrees
    | some time =>
      obtain ⟨hfree, hnone⟩ := hcond time rfl
      have hedited {j : ℕ} {claim : Claim} (hclaim : claim ∈ (w.calls j).committed)
          (hagrees : Agrees cron claim.cron) : Agrees (editedCron update cron) claim.cron := by
        refine agrees_editedCron hcron (fun hreplaces => ?_) hagrees
        cases (hnone hreplaces j).symm.trans hclaim
      simp only [map_some, some_or]
      by_cases hon : update.reEnabled existing
      · rw [if_pos hon]
        refine h.move rfl rfl hcron (le_succ _) hfree fun j _ claim hclaim hagrees => ?_
        have hrow := hedited hclaim hagrees
        refine ⟨hrow.prompt, hrow.schedule, hrow.timezone, ?_⟩
        rintro ⟨hoff, -⟩
        change update.enabled.getD cron.enabled = false at hoff
        rw [hon.1] at hoff
        cases hoff
      · rw [if_neg hon]
        refine h.move rfl rfl hcron (le_succ _) hfree fun j _ claim hclaim hagrees => ?_
        have hrow := hedited hclaim hagrees
        exact ⟨hrow.prompt, hrow.schedule, hrow.timezone, hrow.running⟩
  · rw [if_neg hmoves] at hcond ⊢
    by_cases hreplaces : Replaces w update
    · obtain ⟨hnone, hlive⟩ := hcond hreplaces
      exact h.writeFree hnone hlive rfl rfl hcron (Nat.le_refl _) rfl
    · exact h.note rfl rfl hcron rfl rfl fun claim hagrees => agrees_editedCron hcron hreplaces hagrees

theorem proceed_after (h : Inv w) {point point' : Point} (hpoint : w.calls i = point) {allowed : Bool}
    {next : Option ℕ} {created : Created} {db : Db}
    (hcond : Undisturbed w i (.proceed allowed next created) point)
    (hexec : proceed allowed next created w.db point = some (db, point')) : After w i db point' := by
  have hread {q : Point} (hcarries : Carries point q) : After w i w.db q := h.read (hpoint ▸ hcarries)
  have hidle : After w i w.db .idle := hread (carries_of_none rfl rfl)
  cases point with
  | idle => cases hexec
  | authorize =>
    cases hexec
    refine hread ?_
    split
    · exact ⟨fun _ hmem => hmem, fun _ hmem => hmem⟩
    · exact carries_of_none rfl rfl
  | disable =>
    cases hexec
    exact h.disable hcond .authorization
  | advance claim =>
    simp only [proceed] at hexec
    split at hexec
    · cases hexec
      exact hidle
    · rename_i cron hcron
      split at hexec
      · rename_i hlease
        cases hexec
        have hwaits : claim ∈ (w.calls i).waiting := by
          rw [hpoint]
          rfl
        cases next with
        | none =>
          refine h.compare hwaits hcron hlease rfl (.inl rfl) fun other hagrees => ?_
          refine ⟨hagrees.prompt, hagrees.schedule, hagrees.timezone, ?_⟩
          exact fun hpaused => hpaused.2 rfl
        | some time =>
          refine h.compare hwaits hcron hlease rfl (.inr (hcond time rfl)) fun other hagrees => ?_
          exact ⟨hagrees.prompt, hagrees.schedule, hagrees.timezone, hagrees.running⟩
      · cases hexec
        exact hidle
  | conversation =>
    cases hexec
    exact hread ⟨fun _ hmem => hmem, fun _ hmem => hmem⟩
  | create claim =>
    have hholds : claim ∈ (w.calls i).committed := by
      rw [hpoint]
      rfl
    cases created with
    | conflict =>
      cases hexec
      exact hread (carries_of_none rfl rfl)
    | error =>
      cases hexec
      exact hidle
    | _ =>
      cases hexec
      exact h.create hholds rfl rfl
  | busy =>
    cases hexec
    cases hcron : w.db.cron with
    | none => exact h.missing rfl rfl hcron
    | some =>
      refine h.note rfl rfl hcron rfl rfl fun claim hagrees => ?_
      exact ⟨hagrees.prompt, hagrees.schedule, hagrees.timezone, hagrees.running⟩
  | bookWrite =>
    cases hexec
    exact h.bookFailure rfl rfl hcond
  | write =>
    simp only [proceed] at hexec
    split at hexec
    · cases hexec
      exact hidle
    · rename_i cron hcron
      cases hexec
      exact h.edit hcond hcron
  | _ =>
    simp only [proceed] at hexec
    split at hexec
    · cases hexec
      exact hidle
    · cases hexec
      exact hread (carries_of_none rfl rfl)

/-- What a statement leaves of the fires. -/
theorem exec_after (h : Inv w) {point point' : Point} (hpoint : w.calls i = point) {choice : Choice} {db : Db}
    (hcond : Undisturbed w i choice point) (hexec : exec choice w.db point = some (db, point')) :
    After w i db point' := by
  cases choice with
  | proceed => exact proceed_after h hpoint hcond hexec
  | crash =>
    cases hexec
    exact h.read (carries_of_none rfl rfl)
  | claim =>
    cases point with
    | idle =>
      obtain ⟨cron', hclaim, hresult⟩ := map_eq_some_iff.mp hexec
      obtain ⟨cron, hcron, hclaim⟩ := bind_eq_some_iff.mp hclaim
      cases hresult
      exact h.claim hcron hclaim hcond
    | _ => cases hexec
  | edit =>
    cases point with
    | idle =>
      cases hexec
      exact h.read (carries_of_none rfl rfl)
    | _ => cases hexec
  | delete =>
    cases point with
    | idle =>
      cases hexec
      exact h.delete hcond
    | _ => cases hexec
  | runNow =>
    cases point with
    | idle =>
      cases hexec
      exact h.runNow hcond
    | _ => cases hexec
  | settle =>
    cases point with
    | idle =>
      cases hexec
      refine h.settle ?_
      rintro failures rfl
      exact hcond
    | _ => cases hexec

end Statements

/-- A schedule on which no poller and no edit is at work. -/
def idle (cron : Cron) : Calls.World Db Point := ⟨⟨some cron, []⟩, fun _ => .idle⟩

/-- Nothing has fired. -/
theorem inv_idle (cron : Cron) : Inv (idle cron) := by
  refine ⟨⟨⟨⟨nodup_nil, ?_⟩, ?_⟩, fun _ => knows_of_none rfl rfl⟩, fun _ _ _ => ⟨?_, ?_⟩⟩
  · rintro turn ⟨⟩
  · rintro turn ⟨⟩
  · rintro claim ⟨⟩
  · rintro claim ⟨⟩

/-- In a run whose edits disturb no fire, each occurrence of a schedule has one turn at most, and each turn
carries the prompt and is for the schedule that the row stated when it was created, unpaused. -/
theorem run_fires (cron : Cron) (t : Calls.World Db Point) (es : List (ℕ × Choice))
    (hrun : run (Calls.step exec) (idle cron) es = some t)
    (hmeets : Runs.Meets (Calls.step exec) (fun w e => Undisturbed w e.1 e.2 (w.calls e.1)) (idle cron) es) :
    Fires t.db :=
  (Calls.run_holdsApart_of_meets (K := Knows) (A := Apart) exec (fun _ _ h => h.symm)
    (fun _ _ _ _ hcond h hexec => exec_after h rfl hcond hexec) (inv_idle cron) hmeets hrun).db.toFires

/-- A schedule that is due at 1000. -/
def daily : Cron := ⟨"report", "Report the sales", "0 9 * * *", "UTC", true, none, 1000, 0, none, none, 0⟩

/-- An edit of the prompt. -/
def reword : CronUpdate := ⟨none, some "Report the refunds", none, none, none⟩

/-- What a fire does from its claim to its compare. -/
def toCompare : List (ℕ × Choice) := [(0, .proceed true none .queued), (0, .proceed true (some 90000000) .queued)]

/-- What a fire does from its compare to its turn. -/
def toTurn : List (ℕ × Choice) := [(0, .proceed true none .queued), (0, .proceed true none .queued)]

/-- A fire, and an edit of the prompt after its turn. -/
def fireThenEdit : List (ℕ × Choice) :=
  (0, .claim 2000) :: toCompare ++ toTurn ++ [(1, .edit reword), (1, .proceed true none .queued), (1, .proceed true none .queued)]

/-- The turn of the fire carries the prompt that the row had. -/
theorem run_fires_daily :
    ∃ t, run (Calls.step exec) (idle daily) fireThenEdit = some t ∧ Fires t.db := by
  refine ⟨_, rfl, run_fires daily _ fireThenEdit rfl ?_⟩
  have hfirst : LeaseFree (idle daily) 0 302000 := by
    rintro j - claim ⟨⟩
  refine meets_cons_of_eq _ rfl hfirst ?_
  refine meets_cons_of_eq _ rfl trivial ?_
  refine meets_cons_of_eq _ rfl ?_ ?_
  · rintro time - j hj claim hclaim
    cases j with
    | zero => exact absurd rfl hj
    | succ => cases hclaim
  iterate 4 refine meets_cons_of_eq _ rfl trivial ?_
  refine meets_cons_of_eq _ rfl ?_ trivial
  intro _
  refine ⟨fun j => ?_, fun j claim hclaim => ?_⟩
  · match j with
    | 0 => rfl
    | 1 => rfl
    | j + 2 => rfl
  · match j with
    | 0 => cases hclaim
    | 1 => cases hclaim
    | j + 2 => cases hclaim

/-- An edit of the prompt between the claim and the compare leaves the turn with the prompt that it
replaced. -/
theorem not_fires_when_reworded : ¬ ∀ (cron : Cron) (t : Calls.World Db Point) (es : List (ℕ × Choice)),
    run (Calls.step exec) (idle cron) es = some t → Fires t.db := by
  intro hall
  have hfires := hall daily _ ((0, .claim 2000) :: (1, .edit reword) :: (1, .proceed true none .queued) ::
    (1, .proceed true none .queued) :: toCompare ++ toTurn) rfl
  obtain ⟨row, hrow, hagrees⟩ := hfires.fresh _ List.mem_cons_self
  cases hrow
  exact absurd hagrees.prompt (by decide)

end Onecli.Agents.Crons
