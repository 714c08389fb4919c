import Onecli.Runner.ChannelOwnership
import Onecli.Foundation.Calls

/-!
# The lifecycle of the sandboxes, and the ledger of their runs

The tables `sandboxes` and `sandbox_runtime_intervals` with their writers: `applyRunnerEvent` and
`requestSandboxRespawn` of `sandbox-service.ts`, the lifecycle claims of `due-work.ts` and
`runner-channel-service.ts`, the wakes, the deletion of an agent, and the sweep of `runtime-ledger.ts`. A
transaction is one statement. A report is handled in up to three of them and a sweep in three, so that other
writers come in between; a report is delivered any number of times, at any time after it was made.

Which turns are due, live or recovered is not modelled: a claim's work, and whether a recovered turn asks for a
fresh boot, are choices.
-/

namespace Onecli.Sandboxes

open Onecli.Agents Onecli.Runner

/-- A row of `sandboxes`. The last two are not columns and no statement reads them: how many starts of the sandbox
were claimed, and whether a sweep has passed since the row says that its container is running. -/
structure Sandbox extends Channel.Sandbox where
  homeRef : Option ℕ
  lastActiveAt : Option ℕ
  listeningPorts : List ℕ
  desktopViewable : Option Bool
  stopRequestedAt : Option ℕ
  stopReason : Option StopReason
  wakeReason : Option String
  homeAppliedGeneration : ℕ
  homeSyncClaimedAt : Option ℕ
  held : Bool
  updatedAt : ℕ
  starts : ℕ
  swept : Bool

/-- `IntervalEndReason`. -/
inductive IntervalEndReason where
  | idle
  | evict
  | restart
  | respawn
  | stopped
  | failed
  | deleted
  | lost
  deriving DecidableEq

/-- A row of `sandbox_runtime_intervals`. -/
structure Interval where
  sandboxId : ℕ
  containerRef : ℕ
  startedAt : ℕ
  endedAt : Option ℕ
  endReason : Option IntervalEndReason
  deriving DecidableEq

/-- The clock and the tables, the ledger with its newest row last. The primary key of the sandboxes and the unique
container of the runs are kept by the database. -/
structure Tables where
  now : ℕ
  sandboxes : List Sandbox
  intervals : List Interval
  ids : (sandboxes.map (·.id)).Nodup
  refs : (intervals.map Interval.containerRef).Nodup

/-! ## Writing to the tables -/

/-- A row after a write: it keeps its key, and what a sweep has seen of it while it says that the same container
is running. -/
def Sandbox.written (before after : Sandbox) : Sandbox :=
  { after with
    id := before.id
    swept := before.swept && before.status = .running && after.status = .running &&
      before.containerRef = after.containerRef }

/-- An update of the rows that a condition selects. -/
def Tables.execute (t : Tables) (selects : Sandbox → Bool) (data : Sandbox → Sandbox) : Tables :=
  { t with
    sandboxes := t.sandboxes.map fun row => if selects row then row.written (data row) else row
    ids := by
      have hid : ((·.id) : Sandbox → ℕ) ∘ (fun row => if selects row then row.written (data row) else row) =
          (·.id) := by
        funext row
        change (if selects row then row.written (data row) else row).id = row.id
        split <;> rfl
      rw [List.map_map, hid]
      exact t.ids }

/-- An update by the client, which also stamps the rows. -/
def Tables.updateMany (t : Tables) (selects : Sandbox → Bool) (data : Sandbox → Sandbox) : Tables :=
  t.execute selects fun row => { data row with updatedAt := t.now }

/-- How many rows a condition selects. -/
def Tables.count (t : Tables) (selects : Sandbox → Bool) : ℕ := t.sandboxes.countP selects

/-- An update of the ledger that leaves the container of every row. -/
def Tables.mapIntervals (t : Tables) (change : Interval → Interval)
    (href : ∀ interval, (change interval).containerRef = interval.containerRef) : Tables :=
  { t with
    intervals := t.intervals.map change
    refs := by
      rw [List.map_map, show Interval.containerRef ∘ change = Interval.containerRef from funext href]
      exact t.refs }

/-- An insert that does nothing where the container has a row. -/
def Tables.insertInterval (t : Tables) (interval : Interval) : Tables :=
  if hnew : interval.containerRef ∈ t.intervals.map Interval.containerRef then t
  else { t with
    intervals := t.intervals ++ [interval]
    refs := by
      rw [List.map_append, List.nodup_append]
      refine ⟨t.refs, List.nodup_singleton _, fun ref href other hother heq => hnew ?_⟩
      rw [← List.mem_singleton.mp hother, ← heq]
      exact href }

/-- A run that is over as of a time, but not before it began. -/
def Interval.close (interval : Interval) (at_ : ℕ) (reason : IntervalEndReason) : Interval :=
  { interval with endedAt := some (max interval.startedAt at_), endReason := some reason }

/-! ## `runtime-ledger.ts` -/

/-- `closeRuntimeInterval`. -/
def closeRuntimeInterval (t : Tables) (sandboxId : ℕ) (reason : IntervalEndReason) : Tables :=
  t.mapIntervals
    (fun interval =>
      if interval.sandboxId = sandboxId ∧ interval.endedAt = none then interval.close t.now reason else interval)
    fun interval => by split <;> rfl

/-- `openRuntimeInterval`. -/
def openRuntimeInterval (t : Tables) (sandboxId containerRef : ℕ) : Tables :=
  let closed := t.mapIntervals
    (fun interval =>
      if interval.sandboxId = sandboxId ∧ interval.endedAt = none ∧ interval.containerRef ≠ containerRef then
        interval.close t.now .lost
      else interval)
    fun interval => by split <;> rfl
  if sandboxId ∈ t.sandboxes.map (·.id) then
    closed.insertInterval ⟨sandboxId, containerRef, t.now, none, none⟩
  else closed

/-- A status of a sandbox that is up. -/
def isUp : SandboxStatus → Bool
  | .starting | .running | .stopping => true
  | .unprovisioned | .stopped | .failed => false

/-- The first statement of `sweepRuntimeLedger`: a run whose sandbox is not up ended with its last status. -/
def closeOrphans (t : Tables) : Tables :=
  t.mapIntervals
    (fun interval =>
      match t.sandboxes.find? fun row => row.id = interval.sandboxId with
      | some row =>
          if interval.endedAt = none ∧ isUp row.status = false then interval.close row.updatedAt .lost else interval
      | none => interval)
    fun interval => by
      split
      · split <;> rfl
      · rfl

/-- The second statement: a run whose sandbox is gone. -/
def closeAbandoned (t : Tables) : Tables :=
  t.mapIntervals
    (fun interval =>
      if interval.endedAt = none ∧ interval.sandboxId ∉ t.sandboxes.map (·.id) then interval.close t.now .deleted
      else interval)
    fun interval => by split <;> rfl

/-- The run that a running sandbox has and the ledger lacks. -/
def unrecorded (t : Tables) (row : Sandbox) : Option Interval :=
  if row.status = .running ∧
      ¬ t.intervals.any fun interval => interval.sandboxId = row.id ∧ interval.endedAt = none then
    row.containerRef.map fun containerRef => ⟨row.id, containerRef, row.updatedAt, none, none⟩
  else none

/-- The third statement: a running sandbox without an open run gets one. -/
def openUnrecorded (t : Tables) : Tables :=
  let opened := (t.sandboxes.filterMap (unrecorded t)).foldl Tables.insertInterval t
  { opened with
    sandboxes := t.sandboxes.map fun row => { row with swept := true }
    ids := by
      rw [List.map_map]
      exact t.ids }

/-! ## The runner's reports -/

/-- The statuses of a `sandbox.status` report. -/
inductive ReportedStatus where
  | starting
  | running
  | stopped
  | failed
  deriving DecidableEq

/-- The status that a report sets. -/
def ReportedStatus.toStatus : ReportedStatus → SandboxStatus
  | .starting => .starting
  | .running => .running
  | .stopped => .stopped
  | .failed => .failed

/-- A `sandbox.status` report, without what only the log reads. -/
structure StatusReport where
  status : ReportedStatus
  containerRef : Option ℕ
  homeRef : Option ℕ
  observedContainerRef : Option ℕ
  reasonCode : Option String
  deriving DecidableEq

/-- `SandboxLifecycleEvent`. -/
inductive LifecycleEvent where
  | homeSynced (generation : ℕ)
  | ready
  | status (report : StatusReport)
  deriving DecidableEq

/-- A report as a copy of a runner delivers it. How many starts had been claimed when the container that it is
about was created is not sent. -/
structure Delivery where
  runnerId : ℕ
  replicaId : Option ℕ
  sandboxId : ℕ
  event : LifecycleEvent
  about : ℕ
  deriving DecidableEq

/-- The row of the sandbox under the reporting runner, not held by an extension. -/
def Delivery.names (d : Delivery) (row : Sandbox) : Bool :=
  row.id = d.sandboxId ∧ row.runnerId = d.runnerId ∧ row.held = false

/-- Where `home.synced` is applied. -/
def syncSelects (d : Delivery) (generation : ℕ) (row : Sandbox) : Bool :=
  row.id = d.sandboxId ∧ row.runnerId = d.runnerId ∧ row.homeAppliedGeneration < generation ∧
    row.homeSyncClaimedAt ≠ none

/-- Where `supervisor.ready` is applied: from several copies, only that of the one which is recorded. -/
def readyFence (d : Delivery) (row : Sandbox) : Bool :=
  d.names row && d.replicaId.all fun replicaId => row.channelReplicaId = some replicaId

/-- `reporterFence`. -/
def reporterFence (d : Delivery) (r : StatusReport) (row : Sandbox) : Bool :=
  r.observedContainerRef ≠ none ∨ d.replicaId.all fun replicaId => row.ownerReplicaId = some replicaId

/-- The fences of a status: its reporter's, and that of the container it was observed of. -/
def statusFence (d : Delivery) (r : StatusReport) (row : Sandbox) : Bool :=
  d.names row && reporterFence d r row &&
    r.observedContainerRef.all fun observed => row.containerRef = some observed

/-- Where a status can still be true. -/
def statusGuard (status : ReportedStatus) (row : Sandbox) : Bool :=
  match status with
  | .stopped => row.status = .running ∨ row.status = .stopping
  | .starting | .failed => row.status ≠ .running
  | .running => true

/-- The row with the refs of a report. -/
def withRefs (r : StatusReport) (row : Sandbox) : Sandbox :=
  { row with
    containerRef := r.containerRef.or row.containerRef
    homeRef := r.homeRef.or row.homeRef }

/-- The row with a reported status. -/
def withStatus (status : ReportedStatus) (now : ℕ) (row : Sandbox) : Sandbox :=
  { row with
    status := status.toStatus
    lastActiveAt := if status = .running then some now else row.lastActiveAt
    listeningPorts := if status = .running then row.listeningPorts else []
    desktopViewable := if status = .running then row.desktopViewable else none }

/-- `intervalEndReasonFor`. -/
def intervalEndReasonFor (t : Tables) (sandboxId : ℕ) (status : ReportedStatus) : IntervalEndReason :=
  if status = .failed then .failed
  else match (t.sandboxes.find? fun row => row.id = sandboxId).bind (·.stopReason) with
    | some .restart => .restart
    | some .idle => .idle
    | some .evict => .evict
    | none => .stopped

/-- `home.synced`. -/
def applySynced (t : Tables) (d : Delivery) (generation : ℕ) : Tables :=
  t.updateMany (syncSelects d generation) fun row =>
    { row with homeAppliedGeneration := generation, homeSyncClaimedAt := none }

/-- `supervisor.ready`. -/
def applyReady (t : Tables) (d : Delivery) : Tables :=
  t.updateMany (readyFence d) fun row =>
    { row with status := .running, lastActiveAt := some t.now, wakeReason := none }

/-- The first transaction of a status report: its refs, and the run of the container it names. -/
def applyRefs (t : Tables) (d : Delivery) (r : StatusReport) : Tables :=
  let selects := fun row => d.names row && reporterFence d r row
  let updated := t.updateMany selects (withRefs r)
  match r.containerRef with
  | some containerRef => if t.count selects > 0 then openRuntimeInterval updated d.sandboxId containerRef else updated
  | none => if r.homeRef = none then t else updated

/-- The rows that a status report changes. -/
def statusSelects (d : Delivery) (r : StatusReport) (row : Sandbox) : Bool :=
  statusFence d r row && statusGuard r.status row

/-- The second transaction: the status, and the end of the run. -/
def applyStatus (t : Tables) (d : Delivery) (r : StatusReport) : Tables :=
  let updated := t.updateMany (statusSelects d r) (withStatus r.status t.now)
  if t.count (statusSelects d r) > 0 ∧ (r.status = .stopped ∨ r.status = .failed) then
    closeRuntimeInterval updated d.sandboxId (intervalEndReasonFor updated d.sandboxId r.status)
  else updated

/-- A sandbox that went down with turns to recover is due for a fresh boot. -/
def wakeDown (t : Tables) (d : Delivery) : Tables :=
  t.updateMany
    (fun row => row.id = d.sandboxId ∧ row.runnerId = d.runnerId ∧ (row.status = .stopped ∨ row.status = .failed))
    fun row => { row with status := .unprovisioned }

/-- A stop of a read-only home recovers no turn. -/
def homeReadOnly (r : StatusReport) : Bool := r.status = .stopped ∧ r.reasonCode = some "home_read_only"

/-! ## The other writers -/

/-- The candidates of the start arm, of which those with a reason to start are due. -/
def startable (staleBefore retryBefore : ℕ) (owed : Bool) (row : Sandbox) : Bool :=
  match row.status with
  | .unprovisioned => true
  | .starting | .stopping => row.updatedAt < staleBefore
  | .stopped => owed
  | .failed => row.updatedAt < retryBefore && owed
  | .running => false

/-- The copies that are live, and those that have retired. -/
structure Fleet where
  live : List ℕ
  retired : List ℕ
  deriving DecidableEq

/-- `lifecycleFreeFor`. -/
def lifecycleFreeFor (replicaId : Option ℕ) (fleet : Fleet) (row : Sandbox) : Bool :=
  replicaId.all fun replicaId =>
    row.ownerReplicaId.all (fun owner => owner = replicaId || owner ∉ fleet.live) && replicaId ∉ fleet.retired

/-- `takeOwnership`. -/
def takeOwnership (replicaId : Option ℕ) (row : Sandbox) : Sandbox :=
  { row with ownerReplicaId := replicaId.or row.ownerReplicaId }

/-- A transaction of another writer. -/
inductive Write where
  | tick (later : ℕ)
  | createSandbox (id runnerId : ℕ)
  | claimStart (id runnerId : ℕ) (replicaId : Option ℕ) (fleet : Fleet) (staleBefore retryBefore : ℕ) (owed : Bool)
  | claimStop (id runnerId : ℕ) (replicaId : Option ℕ) (fleet : Fleet) (evict : Bool)
  | claimStrayStop (id runnerId replicaId containerRef : ℕ) (fleet : Fleet)
  | recordSpawn (id runnerId replicaId containerRef tokenHash : ℕ)
  | claimChannel (id runnerId replicaId : ℕ) (claim : Channel.Claim)
  | releaseChannel (id runnerId replicaId connectionId : ℕ)
  | registerReplica (dead : List ℕ)
  | releaseClaim (id runnerId : ℕ)
  | parkUnstartableClaim (id runnerId : ℕ)
  | respawn (id : ℕ)
  | restart (id : ℕ)
  | wake (id : ℕ) (reason : Option String) (fromFailed : Bool)
  | anchor (id runnerId containerRef : ℕ)
  | engage (id : ℕ)
  | bumpHome (id : ℕ)
  | claimHomeSync (id : ℕ)
  | hold (id : ℕ) (held : Bool)
  | deleteAgent (id : ℕ)
  deriving DecidableEq

/-- `requestSandboxRespawn`. -/
def requestSandboxRespawn (t : Tables) (id : ℕ) : Tables :=
  let selects : Sandbox → Bool := fun row => row.id = id ∧ (row.status = .starting ∨ row.status = .running)
  let updated := t.updateMany selects fun row => { row with status := .unprovisioned }
  if t.count selects = 0 then updated else closeRuntimeInterval updated id .respawn

/-- `deleteAgent`; the sandbox goes with its agent. -/
def deleteAgent (t : Tables) (id : ℕ) : Tables :=
  let closed := if id ∈ t.sandboxes.map (·.id) then closeRuntimeInterval t id .deleted else t
  { closed with
    sandboxes := t.sandboxes.filter fun row => row.id ≠ id
    ids := t.ids.sublist (List.Sublist.map _ List.filter_sublist) }

/-- A sandbox as it is created with its agent. -/
def createSandbox (t : Tables) (id runnerId : ℕ) : Option Tables :=
  if hnew : id ∈ t.sandboxes.map (·.id) then none
  else some { t with
    sandboxes := ⟨⟨id, runnerId, .unprovisioned, none, none, none, none, none, none⟩, none, none, [], none, none,
      none, none, 0, none, false, t.now, 0, false⟩ :: t.sandboxes
    ids := List.nodup_cons.mpr ⟨hnew, t.ids⟩ }

/-- The start arm of `collectDueWork` for one sandbox. -/
def claimStart (t : Tables) (id runnerId : ℕ) (replicaId : Option ℕ) (fleet : Fleet)
    (staleBefore retryBefore : ℕ) (owed : Bool) : Tables :=
  t.updateMany
    (fun row => row.id = id && row.runnerId = runnerId && lifecycleFreeFor replicaId fleet row &&
      startable staleBefore retryBefore owed row)
    fun row => { row with
      toSandbox := Channel.startClaim replicaId row.toSandbox
      homeAppliedGeneration := 0
      homeSyncClaimedAt := none
      stopRequestedAt := none
      stopReason := none
      starts := row.starts + 1 }

/-- The stop arm and the ceiling's, for one sandbox. -/
def claimStop (t : Tables) (id runnerId : ℕ) (replicaId : Option ℕ) (fleet : Fleet) (evict : Bool) : Tables :=
  t.updateMany
    (fun row => row.id = id && row.runnerId = runnerId && lifecycleFreeFor replicaId fleet row &&
      row.status = .running)
    fun row => takeOwnership replicaId { row with
      status := .stopping
      stopReason := some (if evict then .evict else if row.stopRequestedAt = none then .idle else .restart) }

/-- `claimStrayStop`. -/
def claimStrayStop (t : Tables) (id runnerId replicaId containerRef : ℕ) (fleet : Fleet) : Tables :=
  t.updateMany
    (fun row => row.id = id && row.runnerId = runnerId && row.containerRef = some containerRef &&
      (row.status = .stopped || row.status = .failed) && lifecycleFreeFor (some replicaId) fleet row)
    fun row => { row with status := .stopping, ownerReplicaId := some replicaId }

/-- A write of the channel, which stamps no row. -/
def writeChannel (t : Tables) (id : ℕ) (change : Channel.Sandbox → Channel.Sandbox) : Tables :=
  t.execute (fun row => row.id = id) fun row => { row with toSandbox := change row.toSandbox }

/-- Each writer's transaction. -/
def write (t : Tables) : Write → Option Tables
  | .tick later => some { t with now := t.now + later }
  | .createSandbox id runnerId => createSandbox t id runnerId
  | .claimStart id runnerId replicaId fleet staleBefore retryBefore owed =>
      some (claimStart t id runnerId replicaId fleet staleBefore retryBefore owed)
  | .claimStop id runnerId replicaId fleet evict => some (claimStop t id runnerId replicaId fleet evict)
  | .claimStrayStop id runnerId replicaId containerRef fleet =>
      some (claimStrayStop t id runnerId replicaId containerRef fleet)
  | .recordSpawn id runnerId replicaId containerRef tokenHash =>
      some (writeChannel t id fun row =>
        (Channel.recordSpawn runnerId replicaId id containerRef tokenHash t.now row).getD row)
  | .claimChannel id runnerId replicaId claim =>
      some (writeChannel t id fun row => (Channel.claimChannel runnerId replicaId claim row).getD row)
  | .releaseChannel id runnerId replicaId connectionId =>
      some (writeChannel t id (Channel.releaseChannel runnerId replicaId connectionId t.now))
  | .registerReplica dead =>
      some (t.execute (fun _ => true) fun row => { row with toSandbox := Channel.forget dead row.toSandbox })
  | .releaseClaim id runnerId =>
      some (t.updateMany (fun row => row.id = id && row.runnerId = runnerId && row.status = .starting)
        fun row => { row with status := .unprovisioned })
  | .parkUnstartableClaim id runnerId =>
      some (t.updateMany (fun row => row.id = id && row.runnerId = runnerId && row.status = .starting)
        fun row => { row with status := .failed })
  | .respawn id => some (requestSandboxRespawn t id)
  | .restart id =>
      some (t.updateMany
        (fun row => row.id = id && (row.status = .starting || row.status = .running || row.status = .stopping))
        fun row => { row with stopRequestedAt := some t.now })
  | .wake id reason fromFailed =>
      some (t.updateMany (fun row => row.id = id && (row.status = .stopped || (fromFailed && row.status = .failed)))
        fun row => { row with status := .unprovisioned, wakeReason := reason })
  | .anchor id runnerId containerRef =>
      some (t.updateMany (fun row => row.id = id && row.runnerId = runnerId && row.containerRef = none)
        fun row => { row with containerRef := some containerRef })
  | .engage id =>
      some (t.updateMany (fun row => row.id = id && row.status = .running)
        fun row => { row with lastActiveAt := some t.now })
  | .bumpHome id => some (t.updateMany (fun row => row.id = id) fun row => row)
  | .claimHomeSync id =>
      some (t.execute (fun row => row.id = id && row.status = .running)
        fun row => { row with homeSyncClaimedAt := some t.now })
  | .hold id held => some (t.execute (fun row => row.id = id) fun row => { row with held := held })
  | .deleteAgent id => some (deleteAgent t id)

/-! ## The handlers, statement by statement -/

/-- Where a handler stands. -/
inductive Point where
  | idle
  | refs (d : Delivery) (r : StatusReport)
  | status (d : Delivery) (r : StatusReport)
  | wake (d : Delivery)
  | abandoned
  | unrecorded
  deriving DecidableEq

/-- What comes to an idle handler, and how one goes on: whether the sandbox that went down has turns to
recover. -/
inductive Choice where
  | deliver (d : Delivery)
  | sweep
  | write (other : Write)
  | proceed (recovers : Bool)
  deriving DecidableEq

/-- Whether a report changed a row to a sandbox that is down. -/
def wentDown (t : Tables) (d : Delivery) (r : StatusReport) : Bool :=
  t.count (statusSelects d r) > 0 ∧ (r.status = .stopped ∨ r.status = .failed) ∧ homeReadOnly r = false

/-- One transaction of a handler: `applyRunnerEvent`, `sweepRuntimeLedger`, or another writer. -/
def exec : Choice → Tables → Point → Option (Tables × Point)
  | .deliver d, t, .idle =>
      match d.event with
      | .homeSynced generation => some (applySynced t d generation, .idle)
      | .ready => some (applyReady t d, .idle)
      | .status r => some (t, .refs d r)
  | .sweep, t, .idle => some (closeOrphans t, .abandoned)
  | .write other, t, .idle => (write t other).map fun t' => (t', .idle)
  | .proceed _, t, .refs d r => some (applyRefs t d r, .status d r)
  | .proceed recovers, t, .status d r =>
      some (applyStatus t d r, if recovers && wentDown t d r then .wake d else .idle)
  | .proceed _, t, .wake d => some (wakeDown t d, .idle)
  | .proceed _, t, .abandoned => some (closeAbandoned t, .unrecorded)
  | .proceed _, t, .unrecorded => some (openUnrecorded t, .idle)
  | _, _, _ => none

/-- The tables, and the handlers at work on them. -/
abbrev World := Calls.World Tables Point

/-- One transaction of one handler. -/
abbrev step : World → ℕ × Choice → Option World := Calls.step exec

/-- Empty tables and idle handlers. -/
def World.empty : World := ⟨⟨0, [], [], List.nodup_nil, List.nodup_nil⟩, fun _ => .idle⟩

end Onecli.Sandboxes
