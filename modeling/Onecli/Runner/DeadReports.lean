import Mathlib.Data.Finset.Basic
import Onecli.Foundation.Calls

/-!
# The verdicts of the reconciler

`reconcile-classify.ts`: the verdict on one container by the channel facts of the control plane, and the sandboxes that
have vanished. The verdict on a container that does not run and that nothing holds or awaits is `dead`; one that runs is
left alone while its channel is held, awaited or starting, or may still come back.
-/

namespace Onecli.Runner.Reconcile

/-- `ReconcileVerdict`. -/
inductive ReconcileVerdict where
  | leave
  | bootCrash
  | channelless
  | stray
  | dead

/-- A channel state of the wire, an open string. -/
inductive ChannelState where
  | held
  | awaiting
  | starting
  | dropped
  | lost
  | none
  | other (name : ℕ)
  deriving DecidableEq

/-- A status of the wire, an open string. -/
inductive Status where
  | running
  | stopped
  | failed
  | other (name : ℕ)
  deriving DecidableEq

/-- The phase of a container, an open string. -/
inductive Phase where
  | failed
  | succeeded
  | other (name : ℕ)
  deriving DecidableEq

/-- `RunnerSandboxChannel`. -/
structure RunnerSandboxChannel where
  containerRef : Option ℕ
  channel : ChannelState
  since : Option ℤ
  deriving DecidableEq

/-- `SandboxSnapshot`. -/
structure SandboxSnapshot where
  sandboxId : ℕ
  containerRef : ℕ
  running : Bool
  phase : Option Phase
  resumable : Bool
  deriving DecidableEq

/-- `ReconcileGraces`. -/
structure ReconcileGraces where
  bootDialInMs : ℤ
  droppedMs : ℤ
  inheritedMs : ℤ

/-- `ClassifyInput`. -/
structure ClassifyInput where
  snapshot : SandboxSnapshot
  believed : Option Status
  channel : Option RunnerSandboxChannel
  now : ℤ
  reconcilerSince : ℤ
  sessions : Bool
  graces : ReconcileGraces

/-- `terminal`. -/
def terminal : Option Phase → Bool
  | .none | some .failed | some .succeeded => true
  | some (.other _) => false

/-- `reconnecting`. -/
def reconnecting (state : ChannelState) (since : Option ℤ) (input : ClassifyInput) : Bool :=
  if !input.sessions || !input.snapshot.resumable then false
  else if state = .dropped then since.any fun at' => input.now - at' < input.graces.droppedMs
  else input.now - max (if state = .lost then since.getD 0 else 0) input.reconcilerSince < input.graces.inheritedMs

/-- The channel state that the facts give. -/
def stateOf (channel : Option RunnerSandboxChannel) : ChannelState := (channel.map (·.channel)).getD .none

/-- The moment that the facts give. -/
def sinceOf (channel : Option RunnerSandboxChannel) : Option ℤ := channel.bind (·.since)

/-- The facts name another container. -/
def namesOther (channel : Option RunnerSandboxChannel) (containerRef : ℕ) : Bool :=
  (channel.bind (·.containerRef)).any fun named => named ≠ containerRef

/-- `classifySandbox`. -/
def classifySandbox (input : ClassifyInput) : ReconcileVerdict :=
  if namesOther input.channel input.snapshot.containerRef then .leave
  else if input.snapshot.running then
    if stateOf input.channel = .held ∨ stateOf input.channel = .awaiting ∨ stateOf input.channel = .starting then .leave
    else if reconnecting (stateOf input.channel) (sinceOf input.channel) input then .leave
    else if input.believed = some .stopped ∨ input.believed = some .failed then .stray else .channelless
  else if stateOf input.channel = .awaiting then
    if (sinceOf input.channel).any (fun since =>
        terminal input.snapshot.phase && decide (input.graces.bootDialInMs < input.now - since)) then .bootCrash
    else .leave
  else if stateOf input.channel = .held ∨ stateOf input.channel = .starting then .leave else .dead

/-- The channel of a sandbox is held, awaited or starting. -/
def Owned (channel : Option RunnerSandboxChannel) : Prop :=
  stateOf channel = .held ∨ stateOf channel = .awaiting ∨ stateOf channel = .starting

instance (channel : Option RunnerSandboxChannel) : Decidable (Owned channel) := by
  unfold Owned
  infer_instance

theorem classifySandbox_dead {input : ClassifyInput} (hruns : input.snapshot.running = false)
    (howned : ¬ Owned input.channel) (hnames : namesOther input.channel input.snapshot.containerRef = false) :
    classifySandbox input = .dead := by
  unfold classifySandbox
  rw [if_neg (by rw [hnames]; exact Bool.false_ne_true), if_neg (by rw [hruns]; exact Bool.false_ne_true),
    if_neg fun h => howned (Or.inr (Or.inl h)), if_neg fun h => howned (h.elim Or.inl fun h => Or.inr (Or.inr h))]

theorem classifySandbox_leave {input : ClassifyInput} (hruns : input.snapshot.running)
    (hreached : Owned input.channel ∨ reconnecting (stateOf input.channel) (sinceOf input.channel) input) :
    classifySandbox input = .leave := by
  unfold classifySandbox
  by_cases hnames : namesOther input.channel input.snapshot.containerRef
  · rw [if_pos hnames]
  · rw [if_neg hnames, if_pos hruns]
    by_cases howned : Owned input.channel
    · exact if_pos howned
    · rw [if_pos (hreached.resolve_left howned)]
      exact ite_self _

/-- `Object.entries(statuses)` that the vanished-pod arm looks at: believed running, and not present. -/
def missingOf (statuses : List (ℕ × Status)) (present : Finset ℕ) : List ℕ :=
  (statuses.filter fun entry => entry.2 = .running ∧ entry.1 ∉ present).map (·.1)

/-- `report` of `vanishedSandboxes`. -/
def vanishedReport (statuses : List (ℕ × Status)) (present previous : Finset ℕ) : List ℕ :=
  (missingOf statuses present).filter (· ∈ previous)

/-- `missing` of `vanishedSandboxes`. -/
def vanishedMissing (statuses : List (ℕ × Status)) (present previous : Finset ℕ) : Finset ℕ :=
  ((missingOf statuses present).filter (· ∉ previous)).toFinset

/-! ## The reports of the reconciler

The reconcile pass of `runner.ts`, the looks at closed sockets and the stray stops, on what one copy keeps in memory.
What the control plane and the backend answer, what the clock shows, which sockets there are and how a post ends are
choices; so are the starts and stops, of which only those that have not reported are kept. The commands of a sandbox go
on in any order, which allows more than its chain does.

The containers of which a report was accepted, and what the last pass saw missing, are kept beside; no statement reads
them.
-/

/-- A start or a stop that has not reported: it is queued, or executes. -/
structure Work where
  sandboxId : ℕ
  isStart : Bool
  executing : Bool
  deriving DecidableEq

/-- A closed socket that is looked at. -/
structure Closed where
  sandboxId : ℕ
  containerRef : ℕ
  looks : ℕ

/-- `RunnerSandboxesResponse`. -/
structure Assigned where
  sandboxIds : List ℕ
  statuses : List (ℕ × Status)
  channels : List (ℕ × RunnerSandboxChannel)
  deriving DecidableEq

/-- A status report that names a container, `failed` of a boot crash or `stopped`. -/
structure Report where
  sandboxId : ℕ
  stopped : Bool
  observedContainerRef : Option ℕ
  deriving DecidableEq

/-- What a copy keeps in memory. -/
structure Memory where
  lifecycle : List Work
  connections : List ℕ
  closedPending : List Closed
  sweeping : Bool
  reportedDead : Finset ℕ
  strayStopped : Finset ℕ
  strays : List (ℕ × ℕ)
  missingWhileRunning : Finset ℕ
  reconcilerSince : Option ℤ
  reconcileInFlight : Bool
  accepted : Finset ℕ
  seenMissing : Finset ℕ

/-- A reconcile pass: what it has read, the containers that it still looks at, and what it will report. -/
structure Pass where
  assigned : Assigned
  snapshots : List SandboxSnapshot
  since : ℤ
  rest : List SandboxSnapshot
  reports : List Report
  deriving DecidableEq

/-- Where a call stands: at the statement that is next, or at its end. -/
inductive Point where
  | idle
  | isReconciler
  | listAssigned
  | listSandboxes (assigned : Assigned) (since : ℤ)
  | judge (pass : Pass)
  | reap (pass : Pass)
  | removeQuietly (pass : Pass) (snapshot : SandboxSnapshot)
  | claimStrayStop (pass : Pass) (snapshot : SandboxSnapshot)
  | listHomes (pass : Pass)
  | postPass (pass : Pass)
  | look
  | postLook (reports : List Report)
  | stopStray (sandboxId containerRef : ℕ)
  | postStray (sandboxId containerRef : ℕ)
  | done
  deriving DecidableEq

/-- What a step chooses: a pass begins, a socket opens or closes, a command is claimed, begins or has reported, a stray
stop begins; or a call goes on at a moment, is answered, refused or thrown at, or its post ends. -/
inductive Choice where
  | pass
  | opens (sandboxId : ℕ)
  | closes (sandboxId containerRef : ℕ)
  | gone (sandboxId : ℕ)
  | queues (sandboxId : ℕ) (isStart : Bool)
  | begins (sandboxId : ℕ) (isStart : Bool)
  | settles (sandboxId : ℕ) (isStart : Bool)
  | stray
  | go (now : ℤ)
  | assigned (assigned : Assigned) (now : ℤ)
  | lists (snapshots : List SandboxSnapshot)
  | refuses
  | throws
  | accepts
  | fails (accepted : ℕ)
  deriving DecidableEq

/-- What the runner is configured with. -/
structure Config where
  sessions : Bool
  graces : ReconcileGraces

/-- `CLOSED_CHANNEL_LOOKS`. -/
def CLOSED_CHANNEL_LOOKS : ℕ := 5

namespace Assigned

/-- `assigned.statuses?.[sandboxId]`. -/
def status (assigned : Assigned) (sandboxId : ℕ) : Option Status := assigned.statuses.lookup sandboxId

/-- `assigned.channels?.[sandboxId]`. -/
def channel (assigned : Assigned) (sandboxId : ℕ) : Option RunnerSandboxChannel := assigned.channels.lookup sandboxId

end Assigned

namespace Memory

/-- `lifecycleInFlight.has`. -/
def inFlight (t : Memory) (sandboxId : ℕ) : Bool := t.lifecycle.any fun work => work.sandboxId = sandboxId

/-- `busy`: a start is queued or executes, or a stop is queued. -/
def busy (t : Memory) (sandboxId : ℕ) : Bool :=
  t.lifecycle.any fun work => work.sandboxId = sandboxId && (work.isStart || !work.executing)

/-- A container is marked as reported. -/
def mark (t : Memory) (containerRef : ℕ) : Memory := { t with reportedDead := insert containerRef t.reportedDead }

/-- A stray is marked. -/
def markStray (t : Memory) (containerRef : ℕ) : Memory :=
  { t with strayStopped := insert containerRef t.strayStopped }

/-- A stray is to be tried again. -/
def unmarkStray (t : Memory) (containerRef : ℕ) : Memory :=
  { t with strayStopped := t.strayStopped.erase containerRef }

/-- The stop of a stray is enqueued. -/
def enqueueStray (t : Memory) (sandboxId containerRef : ℕ) : Memory :=
  { t with strays := t.strays ++ [(sandboxId, containerRef)] }

/-- The control plane has accepted reports. -/
def accept (t : Memory) (reports : List Report) : Memory :=
  { t with accepted := t.accepted ∪ (reports.filterMap (·.observedContainerRef)).toFinset }

/-- `closedStillOpen`. -/
def closedStillOpen (t : Memory) (closed : Closed) : Bool :=
  decide (closed.containerRef ∉ t.reportedDead) && !t.inFlight closed.sandboxId &&
    decide (closed.sandboxId ∉ t.connections)

/-- `standDown`. -/
def standDown (t : Memory) : Memory :=
  { t with reconcilerSince := none, missingWhileRunning := ∅, reconcileInFlight := false, seenMissing := ∅ }

/-- The verdict of a pass on a container. -/
def classify (config : Config) (pass : Pass) (snapshot : SandboxSnapshot) (now : ℤ) : ClassifyInput :=
  ⟨snapshot, pass.assigned.status snapshot.sandboxId, pass.assigned.channel snapshot.sandboxId, now, pass.since,
    config.sessions, config.graces⟩

/-- `present`: the sandboxes with a container, and those with lifecycle work. -/
def present (t : Memory) (pass : Pass) : Finset ℕ :=
  (pass.snapshots.map (·.sandboxId)).toFinset ∪
    ((pass.assigned.statuses.map (·.1)).filter fun sandboxId => t.busy sandboxId).toFinset

/-- What a pass sees missing: believed running, with no container and no lifecycle work. -/
def seesMissing (t : Memory) (pass : Pass) : Finset ℕ :=
  (missingOf pass.assigned.statuses (pass.snapshots.map (·.sandboxId)).toFinset).toFinset.filter fun sandboxId =>
    ¬ t.inFlight sandboxId

/-- The sandboxes that the vanished-pod arm reports. -/
def vanished (t : Memory) (pass : Pass) : List ℕ :=
  vanishedReport pass.assigned.statuses (t.present pass) t.missingWhileRunning

/-- The vanished-pod arm leaves its memory for the next pass. -/
def vanish (t : Memory) (pass : Pass) : Memory :=
  { t with
    missingWhileRunning := vanishedMissing pass.assigned.statuses (t.present pass) t.missingWhileRunning
    seenMissing := t.seesMissing pass }

/-- A pass is cut short before its vanished-pod arm. -/
def cut (t : Memory) (pass : Pass) : Memory :=
  { t with reconcileInFlight := false, seenMissing := t.seesMissing pass }

/-- A pass ends before it has listed the containers: it has seen nothing. -/
def blind (t : Memory) : Memory := { t with reconcileInFlight := false, seenMissing := ∅ }

/-- A pass is over. -/
def finish (t : Memory) : Memory := { t with reconcileInFlight := false }

/-- This copy is the reconciler from the first pass on in which it is. -/
def reconciles (t : Memory) (now : ℤ) : Memory := { t with reconcilerSince := some (t.reconcilerSince.getD now) }

/-- `closedPending.set`. -/
def setPending (pending : List Closed) (closed : Closed) : List Closed :=
  if pending.any fun other => other.sandboxId = closed.sandboxId then
    pending.map fun other => if other.sandboxId = closed.sandboxId then closed else other
  else pending ++ [closed]

/-- A socket closes. -/
def closes (t : Memory) (sandboxId containerRef : ℕ) : Memory :=
  { t with
    connections := t.connections.erase sandboxId
    closedPending := setPending t.closedPending ⟨sandboxId, containerRef, 0⟩
    sweeping := true }

/-- The sweep of closed sockets is over. -/
def swept (t : Memory) : Memory := { t with sweeping := false, closedPending := [] }

end Memory

open Memory

/-- A stopped report that names the container of a snapshot. -/
def stoppedReport (snapshot : SandboxSnapshot) : Report := ⟨snapshot.sandboxId, true, some snapshot.containerRef⟩

/-- A failed report that names the container of a snapshot. -/
def failedReport (snapshot : SandboxSnapshot) : Report := ⟨snapshot.sandboxId, false, some snapshot.containerRef⟩

/-- What is left of a pass after the first container. -/
def Pass.next (pass : Pass) : Pass := { pass with rest := pass.rest.tail }

/-- A pass has something to report. -/
def Pass.push (pass : Pass) (report : Report) : Pass := { pass with reports := pass.reports ++ [report] }

/-- A pass owes a report of a container that does not run, whose sandbox is believed running with no channel and no
lifecycle work. -/
def Pass.Owes (t : Memory) (pass : Pass) (snapshot : SandboxSnapshot) : Prop :=
  snapshot.running = false ∧ pass.assigned.status snapshot.sandboxId = some .running ∧
    ¬ Owned (pass.assigned.channel snapshot.sandboxId) ∧ t.inFlight snapshot.sandboxId = false

instance (t : Memory) (pass : Pass) (snapshot : SandboxSnapshot) : Decidable (pass.Owes t snapshot) := by
  unfold Pass.Owes
  infer_instance

/-- `actOn`, up to what it awaits. -/
def actOn (config : Config) (t : Memory) (pass : Pass) (snapshot : SandboxSnapshot) (now : ℤ) : Memory × Point :=
  match classifySandbox (classify config pass snapshot now) with
  | .leave => (t, .judge pass.next)
  | .stray =>
    if snapshot.containerRef ∈ t.strayStopped then (t, .judge pass.next)
    else (t.markStray snapshot.containerRef, .claimStrayStop pass.next snapshot)
  | .bootCrash =>
    if snapshot.containerRef ∈ t.reportedDead then (t, .judge (pass.next))
    else (t.mark snapshot.containerRef, .removeQuietly pass.next snapshot)
  | .channelless | .dead =>
    if snapshot.containerRef ∈ t.reportedDead then (t, .judge (pass.next))
    else (t.mark snapshot.containerRef, .judge (pass.next.push (stoppedReport snapshot)))

/-- The reports of the vanished-pod arm. -/
def vanishedReports (t : Memory) (pass : Pass) : List Report :=
  (t.vanished pass).map fun sandboxId =>
    ⟨sandboxId, true, (pass.assigned.channel sandboxId).bind (·.containerRef)⟩

/-- A pass looks at the next container, or has looked at all of them: the vanished-pod arm. -/
def judge (config : Config) (t : Memory) (pass : Pass) (now : ℤ) : Memory × Point :=
  match pass.rest with
  | snapshot :: _ =>
    if snapshot.sandboxId ∈ pass.assigned.sandboxIds then
      if t.busy snapshot.sandboxId then (t, .judge pass.next) else actOn config t pass snapshot now
    else (t, .reap pass.next)
  | [] => (t.vanish pass, .listHomes { pass with reports := pass.reports ++ vanishedReports t pass })

/-- `lookAtClosed`, on the sockets in turn: what stays pending, what is marked, and the reports. -/
def lookAtClosed (t : Memory) (snapshots : List SandboxSnapshot) : List Closed → Memory × List Closed × List Report
  | [] => (t, [], [])
  | closed :: rest =>
    if !t.closedStillOpen closed then lookAtClosed t snapshots rest
    else if snapshots.any (fun s => s.sandboxId = closed.sandboxId && s.containerRef ≠ closed.containerRef) then
      lookAtClosed t snapshots rest
    else if snapshots.any (fun s => s.sandboxId = closed.sandboxId && s.running) then
      if closed.looks + 1 < CLOSED_CHANNEL_LOOKS then
        ((lookAtClosed t snapshots rest).1,
          { closed with looks := closed.looks + 1 } :: (lookAtClosed t snapshots rest).2.1,
          (lookAtClosed t snapshots rest).2.2)
      else lookAtClosed t snapshots rest
    else
      ((lookAtClosed (t.mark closed.containerRef) snapshots rest).1,
        (lookAtClosed (t.mark closed.containerRef) snapshots rest).2.1,
        ⟨closed.sandboxId, true, some closed.containerRef⟩ ::
          (lookAtClosed (t.mark closed.containerRef) snapshots rest).2.2)

/-- The sockets that are still looked at after a look. -/
def looked (t : Memory) (snapshots : List SandboxSnapshot) : Memory :=
  { (lookAtClosed t snapshots t.closedPending).1 with
    closedPending := (lookAtClosed t snapshots t.closedPending).2.1 }

/-- The sweep looks again, or is over. -/
def sweepOn (t : Memory) : Memory × Point := if t.closedPending = [] then (t.swept, .done) else (t, .look)

/-- A statement of a call. -/
def exec (config : Config) : Calls.Exec Memory Point Choice
  -- the sockets and the commands
  | .opens id, t, p => some ({ t with connections := id :: t.connections }, p)
  | .gone id, t, p => some ({ t with connections := t.connections.erase id }, p)
  | .queues id isStart, t, p =>
    if ⟨id, isStart, false⟩ ∈ t.lifecycle then some (t, p)
    else some ({ t with lifecycle := t.lifecycle ++ [⟨id, isStart, false⟩] }, p)
  | .begins id isStart, t, p =>
    if ⟨id, isStart, false⟩ ∈ t.lifecycle then
      some ({ t with lifecycle := ⟨id, isStart, true⟩ :: t.lifecycle.erase ⟨id, isStart, false⟩ }, p)
    else none
  | .settles id isStart, t, p =>
    if ⟨id, isStart, true⟩ ∈ t.lifecycle then
      some ({ t with lifecycle := t.lifecycle.erase ⟨id, isStart, true⟩ }, p)
    else none
  -- a pass
  | .pass, t, .idle =>
    if t.reconcileInFlight then some (t, .done) else some ({ t with reconcileInFlight := true }, .isReconciler)
  | .go _, t, .isReconciler => some (t, .listAssigned)
  | .refuses, t, .isReconciler => some (t.standDown, .done)
  | .throws, t, .isReconciler => some (t.blind, .done)
  | .assigned assigned now, t, .listAssigned =>
    some (t.reconciles now, .listSandboxes assigned (t.reconcilerSince.getD now))
  | .refuses, t, .listAssigned => some (t.standDown, .done)
  | .throws, t, .listAssigned => some (t.blind, .done)
  | .lists snapshots, t, .listSandboxes assigned since =>
    some (t, .judge ⟨assigned, snapshots, since, snapshots, []⟩)
  | .throws, t, .listSandboxes _ _ => some (t.blind, .done)
  | .go now, t, .judge pass => some (judge config t pass now)
  | .go _, t, .reap pass => some (t, .judge pass)
  | .go _, t, .removeQuietly pass snapshot => some (t, .judge (pass.push (failedReport snapshot)))
  | .go _, t, .claimStrayStop pass snapshot =>
    some (t.enqueueStray snapshot.sandboxId snapshot.containerRef, .judge pass)
  | .refuses, t, .claimStrayStop pass snapshot => some (t.unmarkStray snapshot.containerRef, .judge pass)
  | .throws, t, .claimStrayStop pass _ => some (t.cut pass, .done)
  | .go _, t, .listHomes pass => some (t, .postPass pass)
  | .throws, t, .listHomes _ => some (t.finish, .done)
  | .accepts, t, .postPass pass => some ((t.accept pass.reports).finish, .done)
  | .fails accepted, t, .postPass pass => some ((t.accept (pass.reports.take accepted)).finish, .done)
  -- the looks at closed sockets
  | .closes id containerRef, t, .idle =>
    if t.sweeping then some (t.closes id containerRef, .done) else some (t.closes id containerRef, .look)
  | .lists snapshots, t, .look => some (looked t snapshots, .postLook (lookAtClosed t snapshots t.closedPending).2.2)
  | .throws, t, .look => some (t.swept, .done)
  | .accepts, t, .postLook reports => some (sweepOn (t.accept reports))
  | .fails accepted, t, .postLook reports => some (sweepOn (t.accept (reports.take accepted)))
  -- the stray stops
  | .stray, t, .idle =>
    match t.strays with
    | (id, containerRef) :: rest => some ({ t with strays := rest }, .stopStray id containerRef)
    | [] => none
  | .go _, t, .stopStray id containerRef => some (t, .postStray id containerRef)
  | .throws, t, .stopStray _ containerRef => some (t.unmarkStray containerRef, .done)
  | .accepts, t, .postStray id containerRef => some (t.accept [⟨id, true, some containerRef⟩], .done)
  | .fails _, t, .postStray _ _ => some (t, .done)
  | _, _, _ => none

/-- The reports that a call has collected. -/
def Point.reports : Point → List Report
  | .judge pass | .reap pass | .removeQuietly pass _ | .claimStrayStop pass _ | .listHomes pass | .postPass pass =>
    pass.reports
  | .postLook reports => reports
  | _ => []

/-- A stopped report that names a container is among some. -/
def Names (reports : List Report) (containerRef : ℕ) : Prop :=
  ∃ r ∈ reports, r.stopped ∧ r.observedContainerRef = some containerRef

instance (reports : List Report) (containerRef : ℕ) : Decidable (Names reports containerRef) := by
  unfold Names
  infer_instance

/-- The pass that a call is, once it has listed the containers. -/
def Point.pass : Point → Option Pass
  | .judge pass | .reap pass | .removeQuietly pass _ | .claimStrayStop pass _ | .listHomes pass | .postPass pass =>
    some pass
  | _ => none

/-- The containers that a call has a report of under way. -/
def Point.underWay : Point → List ℕ
  | .removeQuietly pass snapshot => snapshot.containerRef :: pass.reports.filterMap (·.observedContainerRef)
  | p => p.reports.filterMap (·.observedContainerRef)

/-- A pass that ends has posted its reports, or has listed running containers only. -/
def Settled (p p' : Point) : Prop :=
  ∀ pass ∈ p.pass, p' = .done → p = .postPass pass ∨ ∀ snapshot ∈ pass.snapshots, snapshot.running = true

instance (p p' : Point) : Decidable (Settled p p') := by
  unfold Settled
  infer_instance

/-- What a stopped report of a pass rests on: it names the container that the pass looks at, which does not run, or whose
channel neither is owned nor may come back; or the sandbox is missing, and was missing in the pass before. -/
def Pass.Grounds (config : Config) (t : Memory) (pass : Pass) (now : ℤ) (r : Report) : Prop :=
  match pass.rest with
  | snapshot :: _ =>
    r.sandboxId = snapshot.sandboxId ∧ r.observedContainerRef = some snapshot.containerRef ∧
      (snapshot.running → ¬ Owned (pass.assigned.channel snapshot.sandboxId) ∧
        reconnecting (stateOf (pass.assigned.channel snapshot.sandboxId))
          (sinceOf (pass.assigned.channel snapshot.sandboxId)) (classify config pass snapshot now) = false)
  | [] => r.sandboxId ∈ t.seenMissing ∧ r.sandboxId ∈ t.seesMissing pass

instance (config : Config) (t : Memory) (pass : Pass) (now : ℤ) (r : Report) :
    Decidable (pass.Grounds config t now r) := by
  unfold Pass.Grounds
  cases pass.rest
  · infer_instance
  · infer_instance

/-- What a stopped report rests on, where a statement collects it: a look finds no container of the sandbox that runs,
and a pass has its own grounds. -/
def Grounded (config : Config) (c : Choice) (t : Memory) (p : Point) (r : Report) : Prop :=
  match c, p with
  | .lists snapshots, .look => ∀ snapshot ∈ snapshots, snapshot.sandboxId = r.sandboxId → snapshot.running = false
  | .go now, .judge pass => pass.Grounds config t now r
  | _, _ => False

instance (config : Config) (c : Choice) (t : Memory) (p : Point) (r : Report) : Decidable (Grounded config c t p r) := by
  unfold Grounded
  split
  all_goals infer_instance

/-- No stop executes of a sandbox that is missing, unless other work makes it busy. -/
def Memory.NoStopExecutes (t : Memory) (pass : Pass) : Prop :=
  ∀ id ∈ missingOf pass.assigned.statuses (pass.snapshots.map (·.sandboxId)).toFinset, t.inFlight id → t.busy id

instance (t : Memory) (pass : Pass) : Decidable (t.NoStopExecutes pass) := by
  unfold Memory.NoStopExecutes
  infer_instance

/-- The reports that a post loses name no container, but such as the control plane has accepted a report of. -/
def Lost (t : Memory) (reports : List Report) : Prop :=
  ∀ r ∈ reports, ∀ ref ∈ r.observedContainerRef, ref ∈ t.accepted

instance (t : Memory) (reports : List Report) : Decidable (Lost t reports) := by
  unfold Lost
  infer_instance

/-- What a statement meets: where a pass comes to the end, no stop executes of a sandbox that is missing; a post that
fails loses nothing; a pass is cut short only when it has listed running containers and has nothing to report; and
nothing is remembered as missing when a pass is cut short before its vanished-pod arm. -/
def Cond (c : Choice) (t : Memory) (p : Point) : Prop :=
  match c, p with
  | .go _, .judge pass => pass.rest = [] → t.NoStopExecutes pass
  | .fails accepted, .postPass pass => Lost t (pass.reports.drop accepted)
  | .fails accepted, .postLook reports => Lost t (reports.drop accepted)
  | .throws, .claimStrayStop pass _ =>
    (∀ snapshot ∈ pass.snapshots, snapshot.running = true) ∧ pass.reports = [] ∧ t.missingWhileRunning = ∅
  | .throws, .listHomes pass => (∀ snapshot ∈ pass.snapshots, snapshot.running = true) ∧ pass.reports = []
  | .throws, .isReconciler | .throws, .listAssigned | .throws, .listSandboxes _ _ => t.missingWhileRunning = ∅
  | _, _ => True

instance (c : Choice) (t : Memory) (p : Point) : Decidable (Cond c t p) := by
  unfold Cond
  split
  all_goals infer_instance

/-- The memory of a copy and the calls on it. -/
abbrev World := Calls.World Memory Point

/-- A call goes on. -/
abbrev step (config : Config) : World → ℕ × Choice → Option World := Calls.step (exec config)

/-- A step ends a pass only by its post, and collects a stopped report only where it rests on something. -/
def Faithful (config : Config) (w : World) (e : ℕ × Choice) (w' : World) : Prop :=
  Settled (w.calls e.1) (w'.calls e.1) ∧
    ∀ r ∈ (w'.calls e.1).reports, r.stopped → r ∈ (w.calls e.1).reports ∨ Grounded config e.2 w.db (w.calls e.1) r

instance (config : Config) (w : World) (e : ℕ × Choice) (w' : World) : Decidable (Faithful config w e w') := by
  unfold Faithful
  infer_instance

/-- Where a pass comes to a container that it owes a report, the sandbox is assigned, the facts are of that container,
and no call has a report of it under way. -/
def Clear (free : (Point → Bool) → Prop) (c : Choice) (t : Memory) (p : Point) : Prop :=
  match c, p with
  | .go _, .judge pass => ∀ snapshot ∈ pass.rest.head?, pass.Owes t snapshot →
      snapshot.sandboxId ∈ pass.assigned.sandboxIds ∧
        namesOther (pass.assigned.channel snapshot.sandboxId) snapshot.containerRef = false ∧
        free fun p => snapshot.containerRef ∈ p.underWay
  | _, _ => True

instance (free : (Point → Bool) → Prop) [DecidablePred free] (c : Choice) (t : Memory) (p : Point) :
    Decidable (Clear free c t p) := by
  unfold Clear
  split
  all_goals infer_instance

/-- The condition of the step of a world. -/
def CondAt (w : World) (e : ℕ × Choice) : Prop :=
  Cond e.2 w.db (w.calls e.1) ∧ Clear (Calls.Free w) e.2 w.db (w.calls e.1)

/-- A copy that has begun. -/
def initial : World := ⟨⟨[], [], [], false, ∅, ∅, [], ∅, none, false, ∅, ∅⟩, fun _ => .idle⟩

/-- A pass of a run has come to a container that it has listed; where it owed a report of it then, a stopped report of
the pass names it, or the control plane has accepted a report of it. -/
def Answered (config : Config) (es : List (ℕ × Choice)) (w : World) (i : ℕ) (pass : Pass) (snapshot : SandboxSnapshot) :
    Prop :=
  ∃ front now back u before, es = front ++ (i, .go now) :: back ∧ Runs.run (step config) initial front = some u ∧
    u.calls i = .judge before ∧ before.rest.head? = some snapshot ∧ before.assigned = pass.assigned ∧
    (before.Owes u.db snapshot → snapshot.containerRef ∈ w.db.accepted ∨ Names pass.reports snapshot.containerRef)

/-- A pass that is about to post answers for every container that it has listed. -/
def PostsWhatItOwes (config : Config) (es : List (ℕ × Choice)) (w : World) : Prop :=
  ∀ i pass, w.calls i = .postPass pass → ∀ snapshot ∈ pass.snapshots, Answered config es w i pass snapshot

/-- In a run, every pass posts what it owes, and every step is faithful. -/
def Reported (config : Config) (es : List (ℕ × Choice)) : Prop :=
  (∀ front back w, es = front ++ back → Runs.run (step config) initial front = some w →
    PostsWhatItOwes config front w) ∧ Runs.Each (step config) (Faithful config) initial es

end Onecli.Runner.Reconcile
