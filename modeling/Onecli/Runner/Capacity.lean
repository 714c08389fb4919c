import Mathlib.Data.Finset.Card
import Onecli.Foundation.Calls

/-!
# The capacity of a runner copy

The capacity check of `runner.ts` with what surrounds it: the starts and stops on the chains of their sandboxes, the
stray stops, and the arms of the reconciler that take a sandbox out of `admittedNew`. A listing shows the containers of
one moment, and its answer is read later. What the backend and the control plane answer are choices, and a container
may come up, exit or be removed at any time. What is reported is left out.

Which containers a start brings up that passed the check, which starts that passed it are under way, and how the last
command of a sandbox ended are kept beside; no statement reads them.
-/

namespace Onecli.Runner.Capacity

open Function (update)

/-- What a container does: it was created, it comes up, it runs, or it has exited. -/
inductive ContainerState where
  | created
  | booting
  | running
  | exited
  deriving DecidableEq

/-- A container, and whether the start that created it passed the check. -/
structure Container where
  sandboxId : ℕ
  containerRef : ℕ
  state : ContainerState
  admitted : Bool

/-- `SandboxSnapshot`: a container as a listing shows it. -/
structure SandboxSnapshot where
  sandboxId : ℕ
  containerRef : ℕ
  running : Bool

/-- How the last command of a sandbox ended, where its container is not to run. -/
inductive Ending where
  | refused
  | failed
  | stoodDown
  | stopped
  | nothingToStop
  deriving DecidableEq

/-- The containers of the backend, and what the copy keeps in memory. -/
structure Copy where
  containers : List Container
  refs : ℕ
  queuedStarts : ℕ → Option ℕ
  queuedStops : ℕ → Option (Option ℕ)
  executingStartHash : ℕ → Option ℕ
  chains : ℕ → List ℕ
  tickets : ℕ
  inUse : ℕ
  admittedNew : Finset ℕ
  underway : Finset ℕ
  ended : ℕ → Option Ending

/-- A start that goes on: its place in the chain, and the container that it replaces. -/
structure Start where
  sandboxId : ℕ
  ticket : ℕ
  existing : Option ℕ

/-- Where a call stands: at the statement that is next, or at its end. -/
inductive Point where
  | idle
  | queuedStart (sandboxId ticket : ℕ)
  | acquire (sandboxId ticket : ℕ)
  | list (sandboxId ticket : ℕ)
  | check (sandboxId ticket : ℕ) (snapshots : List SandboxSnapshot)
  | provisionHome (start : Start)
  | stopExisting (start : Start) (containerRef : ℕ)
  | removeExisting (start : Start) (containerRef : ℕ)
  | wakeHome (start : Start)
  | create (start : Start)
  | recordSpawn (start : Start) (containerRef : ℕ)
  | quietStop (start : Start) (containerRef : ℕ) (rethrow : Bool)
  | quietRemove (start : Start) (containerRef : ℕ) (rethrow : Bool)
  | standDown (start : Start)
  | startContainer (start : Start) (containerRef : ℕ)
  | started (start : Start)
  | catching (start : Start)
  | settleStart (sandboxId ticket : ℕ)
  | queuedStop (sandboxId ticket : ℕ)
  | queuedStray (sandboxId ticket containerRef : ℕ)
  | listStop (sandboxId ticket : ℕ) (containerRef : Option ℕ)
  | stopContainer (sandboxId ticket containerRef : ℕ)
  | release (sandboxId ticket : ℕ)
  | parkHome (sandboxId ticket : ℕ)
  | settleStop (sandboxId ticket : ℕ)
  | crashStop (sandboxId containerRef : ℕ)
  | crashRemove (sandboxId containerRef : ℕ)
  | crashRelease (sandboxId : ℕ)
  | reapStop (sandboxId containerRef : ℕ)
  | reapRemove (sandboxId containerRef : ℕ)
  | reapRelease (sandboxId : ℕ)
  | done

/-- What a step chooses: a command is claimed, an arm of the reconciler takes a sandbox, a container changes by itself,
or a call goes on: it is answered, refused or thrown at, or leaves a container in a state, told or not. -/
inductive Choice where
  | start (sandboxId payloadHash : ℕ)
  | stop (sandboxId : ℕ) (containerRef : Option ℕ)
  | stray (sandboxId containerRef : ℕ)
  | crash (sandboxId containerRef : ℕ)
  | reap (sandboxId containerRef : ℕ)
  | vanish (sandboxId : ℕ)
  | boots (sandboxId : ℕ)
  | exits (sandboxId : ℕ)
  | removed (sandboxId : ℕ)
  | go
  | refuses
  | throws
  | leaves (state : ContainerState)
  | lost (state : ContainerState)

namespace Copy

/-- `listSandboxes`. -/
def listSandboxes (t : Copy) : List SandboxSnapshot :=
  t.containers.map fun c => ⟨c.sandboxId, c.containerRef, c.state = .running⟩

/-- A container of a sandbox comes up. -/
def boots (t : Copy) (sandboxId : ℕ) : Copy :=
  { t with
    containers := t.containers.map fun c =>
      if c.sandboxId = sandboxId ∧ c.state = .booting then { c with state := .running } else c }

/-- A container of a sandbox exits. -/
def exits (t : Copy) (sandboxId : ℕ) : Copy :=
  { t with containers := t.containers.map fun c => if c.sandboxId = sandboxId then { c with state := .exited } else c }

/-- The containers of a sandbox are removed by somebody else. -/
def removed (t : Copy) (sandboxId : ℕ) : Copy :=
  { t with containers := t.containers.filter fun c => c.sandboxId ≠ sandboxId }

/-- `stopSandbox` of the backend. -/
def stopSandbox (t : Copy) (containerRef : ℕ) : Copy :=
  { t with
    containers := t.containers.map fun c => if c.containerRef = containerRef then { c with state := .exited } else c }

/-- `removeSandbox` of the backend. -/
def removeSandbox (t : Copy) (containerRef : ℕ) : Copy :=
  { t with containers := t.containers.filter fun c => c.containerRef ≠ containerRef }

/-- `createSandbox` of the backend. -/
def createSandbox (t : Copy) (start : Start) (state : ContainerState) : Copy :=
  { t with
    containers := t.containers ++ [⟨start.sandboxId, t.refs, state, start.existing.isNone⟩]
    refs := t.refs + 1 }

/-- `startSandbox` of the backend. -/
def startSandbox (t : Copy) (start : Start) (containerRef : ℕ) (state : ContainerState) : Copy :=
  { t with
    containers := t.containers.map fun c =>
      if c.sandboxId = start.sandboxId ∧ c.containerRef = containerRef then
        { c with state, admitted := start.existing.isNone }
      else c }

/-- A sandbox has a container. -/
def hasContainer (t : Copy) (sandboxId : ℕ) : Bool := t.containers.any fun c => c.sandboxId = sandboxId

/-- A start of a sandbox is queued or executes. -/
def marked (t : Copy) (sandboxId : ℕ) : Bool :=
  (t.queuedStarts sandboxId).isSome || (t.executingStartHash sandboxId).isSome

/-- `busy` of the reconciler. -/
def busy (t : Copy) (sandboxId : ℕ) : Bool := t.marked sandboxId || (t.queuedStops sandboxId).isSome

/-- A task is appended to the chain of a sandbox. -/
def enqueue (t : Copy) (sandboxId : ℕ) : Copy :=
  { t with
    chains := update t.chains sandboxId (t.chains sandboxId ++ [t.tickets])
    tickets := t.tickets + 1 }

/-- The first task of a chain has settled. -/
def dequeue (t : Copy) (sandboxId : ℕ) : Copy :=
  { t with chains := update t.chains sandboxId (t.chains sandboxId).tail }

/-- A queued start is set, or takes the newest payload. -/
def queueStart (t : Copy) (sandboxId payloadHash : ℕ) : Copy :=
  { t with queuedStarts := update t.queuedStarts sandboxId (some payloadHash) }

/-- A queued stop is set, or takes the newest item. -/
def queueStop (t : Copy) (sandboxId : ℕ) (containerRef : Option ℕ) : Copy :=
  { t with queuedStops := update t.queuedStops sandboxId (some containerRef) }

/-- A start begins: it is no longer queued, and executes. -/
def beginStart (t : Copy) (sandboxId : ℕ) : Copy :=
  { t with
    queuedStarts := update t.queuedStarts sandboxId none
    executingStartHash := update t.executingStartHash sandboxId (some ((t.queuedStarts sandboxId).getD 0)) }

/-- A stop begins. -/
def beginStop (t : Copy) (sandboxId : ℕ) : Copy := { t with queuedStops := update t.queuedStops sandboxId none }

/-- A slot of the semaphore is taken. -/
def acquire (t : Copy) : Copy := { t with inUse := t.inUse + 1 }

/-- A start has reported: its slot is released, and it executes no longer. -/
def settleStart (t : Copy) (sandboxId : ℕ) : Copy :=
  { t with
    inUse := t.inUse - 1
    executingStartHash := update t.executingStartHash sandboxId none
    chains := update t.chains sandboxId (t.chains sandboxId).tail }

/-- A listing shows a container of a sandbox that does not run. -/
def listedIdle (snapshots : List SandboxSnapshot) (sandboxId : ℕ) : Bool :=
  (snapshots.find? fun s => s.sandboxId = sandboxId).any fun seen => !seen.running

/-- What the check leaves in `admittedNew`: the sandboxes that are queued or execute, and those that are listed but do
not run. -/
def kept (t : Copy) (snapshots : List SandboxSnapshot) : Finset ℕ :=
  t.admittedNew.filter fun id => t.marked id || listedIdle snapshots id

/-- `live`, of the listing. -/
def live (snapshots : List SandboxSnapshot) : List SandboxSnapshot := snapshots.filter fun s => s.running

/-- The check finds room for one more. -/
def hasRoom (maxSandboxes : ℕ) (t : Copy) (snapshots : List SandboxSnapshot) : Prop :=
  (live snapshots).length + (t.kept snapshots).card < maxSandboxes

instance (maxSandboxes : ℕ) (t : Copy) (snapshots : List SandboxSnapshot) :
    Decidable (hasRoom maxSandboxes t snapshots) := by
  unfold hasRoom
  infer_instance

/-- A start passes the check. -/
def passCheck (t : Copy) (snapshots : List SandboxSnapshot) (sandboxId : ℕ) : Copy :=
  { t with
    admittedNew := insert sandboxId (t.kept snapshots)
    underway := insert sandboxId t.underway
    ended := update t.ended sandboxId none }

/-- A start is refused at capacity. -/
def refuse (t : Copy) (snapshots : List SandboxSnapshot) (sandboxId : ℕ) : Copy :=
  { t with
    admittedNew := t.kept snapshots
    ended := update t.ended sandboxId (some .refused) }

/-- A start that replaces a container goes on. -/
def replace (t : Copy) (sandboxId : ℕ) : Copy := { t with ended := update t.ended sandboxId none }

/-- A start ends, and leaves what it admitted. -/
def finish (t : Copy) (sandboxId : ℕ) (ending : Option Ending) : Copy :=
  { t with
    underway := t.underway.erase sandboxId
    ended := update t.ended sandboxId ending }

/-- A start fails. -/
def fail (t : Copy) (sandboxId : ℕ) : Copy :=
  { t with
    admittedNew := t.admittedNew.erase sandboxId
    underway := t.underway.erase sandboxId
    ended := update t.ended sandboxId (some .failed) }

/-- A stop releases the slot of its sandbox. -/
def release (t : Copy) (sandboxId : ℕ) : Copy :=
  { t with
    admittedNew := t.admittedNew.erase sandboxId
    ended := update t.ended sandboxId (some .stopped) }

/-- A stop finds nothing to stop. -/
def nothingToStop (t : Copy) (sandboxId : ℕ) : Copy :=
  { t with ended := update t.ended sandboxId (some .nothingToStop) }

/-- The reconciler drops a sandbox. -/
def drop (t : Copy) (sandboxId : ℕ) : Copy := { t with admittedNew := t.admittedNew.erase sandboxId }

end Copy

open Copy

/-- A statement of a call. -/
def exec (maxSandboxes lifecycleConcurrency : ℕ) : Calls.Exec Copy Point Choice
  | .boots id, t, p => some (t.boots id, p)
  | .exits id, t, p => some (t.exits id, p)
  | .removed id, t, p => some (t.removed id, p)
  -- a start, up to its check
  | .start id payloadHash, t, .idle =>
    if (t.queuedStarts id).isSome then some (t.queueStart id payloadHash, .done)
    else if t.executingStartHash id = some payloadHash then some (t, .done)
    else some ((t.queueStart id payloadHash).enqueue id, .queuedStart id t.tickets)
  | .go, t, .queuedStart id ticket =>
    if (t.chains id).head? = some ticket then some (t.beginStart id, .acquire id ticket) else none
  | .go, t, .acquire id ticket => if t.inUse < lifecycleConcurrency then some (t.acquire, .list id ticket) else none
  | .go, t, .list id ticket => some (t, .check id ticket t.listSandboxes)
  | .throws, t, .list id ticket => some (t.fail id, .settleStart id ticket)
  | .go, t, .check id ticket snapshots =>
    match snapshots.find? fun s => s.sandboxId = id with
    | some existing => some (t.replace id, .provisionHome ⟨id, ticket, some existing.containerRef⟩)
    | none =>
      if hasRoom maxSandboxes t snapshots then some (t.passCheck snapshots id, .provisionHome ⟨id, ticket, none⟩)
      else some (t.refuse snapshots id, .settleStart id ticket)
  -- a start, after its check
  | .go, t, .provisionHome start =>
    match start.existing with
    | some containerRef => some (t, .stopExisting start containerRef)
    | none => some (t, .wakeHome start)
  | .throws, t, .provisionHome start => some (t, .catching start)
  | .go, t, .stopExisting start containerRef => some (t.stopSandbox containerRef, .removeExisting start containerRef)
  | .throws, t, .stopExisting start _ => some (t, .catching start)
  | .go, t, .removeExisting start containerRef => some (t.removeSandbox containerRef, .wakeHome start)
  | .throws, t, .removeExisting start _ => some (t, .catching start)
  | .go, t, .wakeHome start => some (t, .create start)
  | .throws, t, .wakeHome start => some (t, .catching start)
  | .leaves state, t, .create start =>
    if t.hasContainer start.sandboxId then none else some (t.createSandbox start state, .recordSpawn start t.refs)
  | .lost state, t, .create start =>
    if t.hasContainer start.sandboxId then none else some (t.createSandbox start state, .catching start)
  | .throws, t, .create start => some (t, .catching start)
  | .go, t, .recordSpawn start containerRef => some (t, .startContainer start containerRef)
  | .refuses, t, .recordSpawn start containerRef => some (t, .quietStop start containerRef false)
  | .throws, t, .recordSpawn start containerRef => some (t, .quietStop start containerRef true)
  | .go, t, .quietStop start containerRef rethrow =>
    some (t.stopSandbox containerRef, .quietRemove start containerRef rethrow)
  | .throws, t, .quietStop start _ rethrow => some (t, if rethrow then .catching start else .standDown start)
  | .go, t, .quietRemove start containerRef rethrow =>
    some (t.removeSandbox containerRef, if rethrow then .catching start else .standDown start)
  | .throws, t, .quietRemove start _ rethrow => some (t, if rethrow then .catching start else .standDown start)
  | .go, t, .standDown start =>
    some (t.finish start.sandboxId (some .stoodDown), .settleStart start.sandboxId start.ticket)
  | .leaves state, t, .startContainer start containerRef =>
    some (t.startSandbox start containerRef state, .started start)
  | .lost state, t, .startContainer start containerRef =>
    some (t.startSandbox start containerRef state, .catching start)
  | .throws, t, .startContainer start _ => some (t, .catching start)
  | .go, t, .started start => some (t.finish start.sandboxId none, .settleStart start.sandboxId start.ticket)
  | .go, t, .catching start => some (t.fail start.sandboxId, .settleStart start.sandboxId start.ticket)
  | .go, t, .settleStart id _ => some (t.settleStart id, .done)
  -- a stop, and a stray stop
  | .stop id containerRef, t, .idle =>
    if (t.queuedStops id).isSome then some (t.queueStop id containerRef, .done)
    else some ((t.queueStop id containerRef).enqueue id, .queuedStop id t.tickets)
  | .go, t, .queuedStop id ticket =>
    if (t.chains id).head? = some ticket then some (t.beginStop id, .listStop id ticket ((t.queuedStops id).getD none))
    else none
  | .go, t, .listStop id ticket containerRef =>
    match ((t.listSandboxes.find? fun s => s.sandboxId = id).map (·.containerRef)).or containerRef with
    | some containerRef => some (t, .stopContainer id ticket containerRef)
    | none => some (t.nothingToStop id, .settleStop id ticket)
  | .throws, t, .listStop id ticket _ => some (t, .settleStop id ticket)
  | .stray id containerRef, t, .idle => some (t.enqueue id, .queuedStray id t.tickets containerRef)
  | .go, t, .queuedStray id ticket containerRef =>
    if (t.chains id).head? = some ticket then some (t, .stopContainer id ticket containerRef) else none
  | .go, t, .stopContainer id ticket containerRef => some (t.stopSandbox containerRef, .release id ticket)
  | .throws, t, .stopContainer id ticket _ => some (t, .settleStop id ticket)
  | .go, t, .release id ticket => some (t.release id, .parkHome id ticket)
  | .go, t, .parkHome id ticket => some (t, .settleStop id ticket)
  | .go, t, .settleStop id _ => some (t.dequeue id, .done)
  -- the arms of the reconciler
  | .crash id containerRef, t, .idle => if t.busy id then none else some (t, .crashStop id containerRef)
  | .go, t, .crashStop id containerRef => some (t.stopSandbox containerRef, .crashRemove id containerRef)
  | .throws, t, .crashStop id _ => some (t, .crashRelease id)
  | .go, t, .crashRemove id containerRef => some (t.removeSandbox containerRef, .crashRelease id)
  | .throws, t, .crashRemove id _ => some (t, .crashRelease id)
  | .go, t, .crashRelease id => some (t.drop id, .done)
  | .reap id containerRef, t, .idle => some (t, .reapStop id containerRef)
  | .go, t, .reapStop id containerRef => some (t.stopSandbox containerRef, .reapRemove id containerRef)
  | .throws, t, .reapStop _ _ => some (t, .done)
  | .go, t, .reapRemove id containerRef => some (t.removeSandbox containerRef, .reapRelease id)
  | .throws, t, .reapRemove _ _ => some (t, .done)
  | .go, t, .reapRelease id => some (t.drop id, .done)
  | .vanish id, t, .idle => if t.busy id then none else some (t.drop id, .done)
  | _, _, _ => none

/-- The copy and the calls on it. -/
abbrev World := Calls.World Copy Point

/-- A call goes on. -/
abbrev step (maxSandboxes lifecycleConcurrency : ℕ) : World → ℕ × Choice → Option World :=
  Calls.step (exec maxSandboxes lifecycleConcurrency)

/-- A copy that has begun, beside containers that are there already. -/
def initial (containers : List (ℕ × ContainerState)) : World :=
  ⟨{ containers := containers.zipIdx.map fun c => ⟨c.1.1, c.2, c.1.2, false⟩
     refs := containers.length
     queuedStarts := fun _ => none
     queuedStops := fun _ => none
     executingStartHash := fun _ => none
     chains := fun _ => []
     tickets := 0
     inUse := 0
     admittedNew := ∅
     underway := ∅
     ended := fun _ => none }, fun _ => .idle⟩

namespace Copy

/-- A container that a start brings up which passed the check. -/
def comesUp (t : Copy) (sandboxId : ℕ) : Bool :=
  t.containers.any fun c => c.sandboxId = sandboxId && (c.state = .booting && c.admitted)

/-- A container of a sandbox runs. -/
def runs (t : Copy) (sandboxId : ℕ) : Bool := t.containers.any fun c => c.sandboxId = sandboxId && c.state = .running

/-- The sandboxes that hold capacity: a container of theirs runs, or a start that passed the check can still bring one
up. -/
def holding (t : Copy) : Finset ℕ :=
  t.underway ∪ ((t.containers.map (·.sandboxId)).toFinset.filter fun id => t.runs id || t.comesUp id)

/-- A sandbox whose start failed or stood down, or that was stopped, and that holds no running container. -/
def isOver (t : Copy) (sandboxId : ℕ) : Bool := (t.ended sandboxId).isSome && !t.runs sandboxId

/-- What the check counts, but for the sandboxes that are over. -/
def countedWithout (t : Copy) (snapshots : List SandboxSnapshot) : ℕ :=
  ((live snapshots).filter fun s => !t.isOver s.sandboxId).length +
    ((t.kept snapshots).filter fun id => ¬ t.isOver id).card

end Copy

/-- The check is right about a start of a sandbox without a container: where it passes, fewer other sandboxes than the
maximum hold capacity, and where it refuses, it does so without the sandboxes that are over. -/
def Right (maxSandboxes : ℕ) (c : Choice) (t : Copy) (p : Point) : Prop :=
  match c, p with
  | .go, .check id _ snapshots =>
    (snapshots.find? fun s => s.sandboxId = id) = none →
      (hasRoom maxSandboxes t snapshots → (t.holding.erase id).card < maxSandboxes) ∧
        (¬ hasRoom maxSandboxes t snapshots → maxSandboxes ≤ t.countedWithout snapshots)
  | _, _ => True

instance (maxSandboxes : ℕ) (c : Choice) (t : Copy) (p : Point) : Decidable (Right maxSandboxes c t p) := by
  unfold Right
  cases c <;> cases p <;> infer_instance

/-- What the check passes is what holds capacity: every other container that runs now ran in the listing or is of a
sandbox that is still admitted. -/
def Seen (t : Copy) (snapshots : List SandboxSnapshot) (sandboxId : ℕ) : Prop :=
  ∀ c ∈ t.containers, c.state = .running → c.sandboxId ≠ sandboxId →
    (∃ s ∈ snapshots, s.running ∧ s.sandboxId = c.sandboxId) ∨ c.sandboxId ∈ t.kept snapshots

instance (t : Copy) (snapshots : List SandboxSnapshot) (sandboxId : ℕ) : Decidable (Seen t snapshots sandboxId) := by
  unfold Seen
  infer_instance

/-- What the check refuses for is not over: no sandbox that is over ran in the listing, and none that kept its
admission, for it stood down, was refused or had nothing to stop, is queued, executes or is listed. -/
def Forgotten (t : Copy) (snapshots : List SandboxSnapshot) : Prop :=
  (∀ s ∈ snapshots, s.running → ¬ t.isOver s.sandboxId) ∧
    ∀ id ∈ t.admittedNew, t.isOver id → t.ended id ≠ some .failed → t.ended id ≠ some .stopped →
      ¬ t.marked id ∧ ∀ s ∈ snapshots, s.sandboxId ≠ id

instance (t : Copy) (snapshots : List SandboxSnapshot) : Decidable (Forgotten t snapshots) := by
  unfold Forgotten
  infer_instance

/-- Where a sandbox is taken out of `admittedNew`, by the prune of a check, a start that fails, a stop or the
reconciler, no container of it comes up, and by the reconciler no start of it is under way; and the check counts what it
should. -/
def Current (maxSandboxes : ℕ) (c : Choice) (t : Copy) (p : Point) : Prop :=
  match c, p with
  | .go, .check id _ snapshots =>
    (snapshots.find? fun s => s.sandboxId = id) = none →
      (∀ gone ∈ t.admittedNew, gone ∉ t.kept snapshots → ¬ t.comesUp gone) ∧
        if hasRoom maxSandboxes t snapshots then Seen t snapshots id else Forgotten t snapshots
  | .throws, .list id _ => ¬ t.comesUp id
  | .go, .catching start => ¬ t.comesUp start.sandboxId
  | .go, .release id _ => ¬ t.comesUp id
  | .go, .crashRelease id | .go, .reapRelease id | .vanish id, .idle => ¬ t.comesUp id ∧ id ∉ t.underway
  | _, _ => True

instance (maxSandboxes : ℕ) (c : Choice) (t : Copy) (p : Point) : Decidable (Current maxSandboxes c t p) := by
  unfold Current
  cases c <;> cases p <;> infer_instance

/-- A step meets it. -/
def StepCurrent (maxSandboxes : ℕ) (w : World) (e : ℕ × Choice) : Prop := Current maxSandboxes e.2 w.db (w.calls e.1)

instance (maxSandboxes : ℕ) (w : World) (e : ℕ × Choice) : Decidable (StepCurrent maxSandboxes w e) :=
  inferInstanceAs (Decidable (Current maxSandboxes e.2 w.db (w.calls e.1)))

/-- The check of a step is right. -/
def StepRight (maxSandboxes : ℕ) (w : World) (e : ℕ × Choice) (_ : World) : Prop :=
  Right maxSandboxes e.2 w.db (w.calls e.1)

/-! ## The chains of a runner copy

The chain of a sandbox lets one command at a time go on. Where a command stands in its chain is read off the point of its
call, and what a statement does to the chains is one of seven moves, each of which keeps what every call knows.
-/

open Function (update update_apply update_of_ne update_self)
open List Option

/-- How far a command has come: it waits in its chain, it is a start that has not passed the check or has ended, it is a
start that passed the check, or it is a stop. -/
inductive Stage where
  | queued
  | begun
  | admitted
  | stopping
  deriving DecidableEq

/-- A command in the chain of its sandbox. -/
structure Place where
  sandboxId : ℕ
  ticket : ℕ
  stage : Stage

/-- A start that replaces no container passed the check. -/
def Start.stage (start : Start) : Stage := if start.existing = none then .admitted else .begun

/-- Where a start stands. -/
def Start.place (start : Start) : Place := ⟨start.sandboxId, start.ticket, start.stage⟩

/-- The command of a call. -/
def Point.place : Point → Option Place
  | .queuedStart id ticket | .queuedStop id ticket | .queuedStray id ticket _ => some ⟨id, ticket, .queued⟩
  | .acquire id ticket | .list id ticket | .check id ticket _ | .settleStart id ticket => some ⟨id, ticket, .begun⟩
  | .provisionHome start | .stopExisting start _ | .removeExisting start _ | .wakeHome start | .create start
  | .recordSpawn start _ | .quietStop start _ _ | .quietRemove start _ _ | .standDown start | .startContainer start _
  | .started start | .catching start => some start.place
  | .listStop id ticket _ | .stopContainer id ticket _ | .release id ticket | .parkHome id ticket
  | .settleStop id ticket => some ⟨id, ticket, .stopping⟩
  | _ => none

/-- What is known by a place: while a command waits it is in the chain, and when it goes on it is the first of it. -/
def Place.Holds (t : Copy) (x : Place) : Prop :=
  match x.stage with
  | .queued => x.ticket ∈ t.chains x.sandboxId ∧
      ((t.chains x.sandboxId).head? = some x.ticket → t.executingStartHash x.sandboxId = none)
  | .begun => (t.chains x.sandboxId).head? = some x.ticket ∧ t.executingStartHash x.sandboxId ≠ none ∧
      x.sandboxId ∉ t.underway
  | .admitted => (t.chains x.sandboxId).head? = some x.ticket ∧ x.sandboxId ∈ t.underway
  | .stopping => (t.chains x.sandboxId).head? = some x.ticket ∧ t.executingStartHash x.sandboxId = none

/-- What a call knows by its place. -/
def Knows (t : Copy) (p : Point) : Prop := ∀ x, p.place = some x → x.Holds t

/-- Two calls are two commands. -/
def Apart (p q : Point) : Prop := ∀ x y, p.place = some x → q.place = some y → x.ticket ≠ y.ticket

/-- What the chains keep: a start that passed the check executes, nothing executes beside an empty chain, and every task
has been enqueued. -/
structure Chained (t : Copy) : Prop where
  executes : ∀ id ∈ t.underway, t.executingStartHash id ≠ none
  empty : ∀ id, t.chains id = [] → t.executingStartHash id = none
  enqueued : ∀ id, ∀ ticket ∈ t.chains id, ticket < t.tickets

variable {t t' : Copy} {p p' q : Point} {c : Choice} {x y : Place} {id ticket : ℕ}

/-- A place past the queue is at the head of its chain. -/
theorem Place.Holds.head (h : x.Holds t) (hstage : x.stage ≠ .queued) :
    (t.chains x.sandboxId).head? = some x.ticket := by
  obtain ⟨id, ticket, stage⟩ := x
  cases stage with
  | queued => exact absurd rfl hstage
  | begun | admitted | stopping => exact h.1

/-- A place is in its chain. -/
theorem Place.Holds.mem (h : x.Holds t) : x.ticket ∈ t.chains x.sandboxId := by
  by_cases hstage : x.stage = .queued
  · obtain ⟨id, ticket, stage⟩ := x
    obtain rfl : stage = .queued := hstage
    exact h.1
  · exact List.mem_of_head? (h.head hstage)

theorem Place.Holds.waits (h : y.Holds t) (hid : y.sandboxId = id) (hhead : (t.chains id).head? = some ticket)
    (hne : ticket ≠ y.ticket) : y.stage = .queued := by
  by_contra hstage
  have hfirst := h.head hstage
  rw [hid, hhead] at hfirst
  exact hne (some.inj hfirst)

theorem Place.Holds.congr (h : y.Holds t) (hchains : t'.chains y.sandboxId = t.chains y.sandboxId)
    (hexe : t'.executingStartHash y.sandboxId = t.executingStartHash y.sandboxId)
    (hway : y.sandboxId ∈ t'.underway ↔ y.sandboxId ∈ t.underway) : y.Holds t' := by
  unfold Place.Holds at h ⊢
  rw [hchains, hexe, hway]
  exact h

theorem Place.Holds.behind (h : y.Holds t) (hid : y.sandboxId = id) (hhead : (t.chains id).head? = some ticket)
    (hne : ticket ≠ y.ticket) (hchains : t'.chains id = t.chains id) : y.Holds t' := by
  have hstage := h.waits hid hhead hne
  have hmem := h.mem
  unfold Place.Holds
  rw [hstage, hid, hchains]
  rw [hid] at hmem
  refine ⟨hmem, fun hfirst => ?_⟩
  rw [hhead] at hfirst
  exact absurd (some.inj hfirst) hne

/-- What a statement does to the chains. -/
inductive Moves (t : Copy) (p : Point) (t' : Copy) (p' : Point) : Prop where
  | stays (hp : p'.place = p.place ∨ p'.place = none) (hchains : t'.chains = t.chains)
    (htickets : t'.tickets = t.tickets) (hexecuting : t'.executingStartHash = t.executingStartHash)
    (hunderway : t'.underway = t.underway)
  | enqueues (id : ℕ) (hp : p.place = none) (hp' : p'.place = some ⟨id, t.tickets, .queued⟩)
    (hchains : t'.chains = update t.chains id (t.chains id ++ [t.tickets]))
    (htickets : t'.tickets = t.tickets + 1) (hexecuting : t'.executingStartHash = t.executingStartHash)
    (hunderway : t'.underway = t.underway)
  | starts (id ticket payloadHash : ℕ) (hp : p.place = some ⟨id, ticket, .queued⟩)
    (hhead : (t.chains id).head? = some ticket) (hp' : p'.place = some ⟨id, ticket, .begun⟩)
    (hchains : t'.chains = t.chains) (htickets : t'.tickets = t.tickets)
    (hexecuting : t'.executingStartHash = update t.executingStartHash id (some payloadHash))
    (hunderway : t'.underway = t.underway)
  | stops (id ticket : ℕ) (hp : p.place = some ⟨id, ticket, .queued⟩)
    (hhead : (t.chains id).head? = some ticket) (hp' : p'.place = some ⟨id, ticket, .stopping⟩)
    (hchains : t'.chains = t.chains) (htickets : t'.tickets = t.tickets)
    (hexecuting : t'.executingStartHash = t.executingStartHash) (hunderway : t'.underway = t.underway)
  | passes (id ticket : ℕ) (hp : p.place = some ⟨id, ticket, .begun⟩)
    (hp' : p'.place = some ⟨id, ticket, .admitted⟩) (hchains : t'.chains = t.chains)
    (htickets : t'.tickets = t.tickets) (hexecuting : t'.executingStartHash = t.executingStartHash)
    (hunderway : t'.underway = insert id t.underway)
  | ends (id ticket : ℕ) (stage : Stage) (hp : p.place = some ⟨id, ticket, stage⟩)
    (hstage : stage = .begun ∨ stage = .admitted) (hp' : p'.place = some ⟨id, ticket, .begun⟩)
    (hchains : t'.chains = t.chains) (htickets : t'.tickets = t.tickets)
    (hexecuting : t'.executingStartHash = t.executingStartHash) (hunderway : t'.underway = t.underway.erase id)
  | settles (id ticket : ℕ) (stage : Stage) (hp : p.place = some ⟨id, ticket, stage⟩)
    (hstage : stage = .begun ∨ stage = .stopping) (hp' : p'.place = none)
    (hchains : t'.chains = update t.chains id (t.chains id).tail) (htickets : t'.tickets = t.tickets)
    (hothers : ∀ other ≠ id, t'.executingStartHash other = t.executingStartHash other)
    (hself : t.executingStartHash id = none ∨ stage = .begun → t'.executingStartHash id = none)
    (hunderway : t'.underway = t.underway)

namespace Moves

theorem executes_of_stage (h : Chained t) (hx : x.Holds t) (hstage : x.stage = .begun ∨ x.stage = .admitted) :
    t.executingStartHash x.sandboxId ≠ none := by
  obtain ⟨id, ticket, stage⟩ := x
  rcases hstage with hstage | hstage
  · obtain rfl : stage = .begun := hstage
    exact hx.2.1
  · obtain rfl : stage = .admitted := hstage
    exact h.executes id hx.2

theorem not_underway_of_stage (h : Chained t) (hx : x.Holds t) (hstage : x.stage = .begun ∨ x.stage = .stopping) :
    x.sandboxId ∉ t.underway := by
  obtain ⟨id, ticket, stage⟩ := x
  rcases hstage with hstage | hstage
  · obtain rfl : stage = .begun := hstage
    exact hx.2.2
  · obtain rfl : stage = .stopping := hstage
    exact fun hunder => h.executes id hunder hx.2

section

variable (hmoves : Moves t p t' p')
include hmoves

theorem chained (h : Chained t) (hp : Knows t p) : Chained t' := by
  cases hmoves with
  | stays hplace hchains htick hexe hway
  | stops id ticket hplace hhead hplace' hchains htick hexe hway =>
    exact ⟨hexe ▸ hway ▸ h.executes, hexe ▸ hchains ▸ h.empty, hchains ▸ htick ▸ h.enqueued⟩
  | enqueues id hnone hplace hchains htick hexe hway =>
    refine ⟨hexe ▸ hway ▸ h.executes, fun other hempty => ?_, fun other ticket hmem => ?_⟩
    · rw [hexe]
      rw [hchains, update_apply] at hempty
      split at hempty
      · exact absurd hempty (append_ne_nil_of_right_ne_nil _ (cons_ne_nil _ _))
      · exact h.empty other hempty
    · rw [htick]
      rw [hchains, update_apply] at hmem
      split at hmem
      · rcases mem_append.mp hmem with hold | hnew
        · exact Nat.lt_succ_of_lt (h.enqueued id ticket hold)
        · exact (mem_singleton.mp hnew).symm ▸ Nat.lt_succ_self _
      · exact Nat.lt_succ_of_lt (h.enqueued other ticket hmem)
  | starts id ticket hash hplace hhead hplace' hchains htick hexe hway =>
    refine ⟨fun other hunder => ?_, fun other hempty => ?_, hchains ▸ htick ▸ h.enqueued⟩
    · rw [hexe, update_apply]
      split
      · exact some_ne_none _
      · exact h.executes other (hway ▸ hunder)
    · rw [hchains] at hempty
      rw [hexe, update_apply]
      split
      · rename_i hother
        rw [hother] at hempty
        rw [hempty] at hhead
        cases hhead
      · exact h.empty other hempty
  | passes id ticket hplace hplace' hchains htick hexe hway =>
    refine ⟨fun other hunder => ?_, hexe ▸ hchains ▸ h.empty, hchains ▸ htick ▸ h.enqueued⟩
    rw [hexe]
    rcases Finset.mem_insert.mp (hway ▸ hunder) with rfl | hold
    · exact executes_of_stage h (hp _ hplace) (Or.inl rfl)
    · exact h.executes other hold
  | ends id ticket stage hplace hstage hplace' hchains htick hexe hway =>
    refine ⟨fun other hunder => ?_, hexe ▸ hchains ▸ h.empty, hchains ▸ htick ▸ h.enqueued⟩
    rw [hexe]
    exact h.executes other (Finset.mem_of_mem_erase (hway ▸ hunder))
  | settles id ticket stage hplace hstage hplace' hchains htick hothers hself hway =>
    have hnot := not_underway_of_stage h (hp _ hplace) hstage
    have hnone : t'.executingStartHash id = none := by
      apply hself
      rcases hstage with rfl | rfl
      · exact Or.inr rfl
      · exact Or.inl (hp _ hplace).2
    refine ⟨fun other hunder => ?_, fun other hempty => ?_, fun other k hmem => ?_⟩
    · rw [hway] at hunder
      have hne : other ≠ id := fun heq => hnot (heq ▸ hunder)
      rw [hothers other hne]
      exact h.executes other hunder
    · by_cases hother : other = id
      · rw [hother, hnone]
      · rw [hchains, update_of_ne hother] at hempty
        rw [hothers other hother]
        exact h.empty other hempty
    · rw [htick]
      rw [hchains, update_apply] at hmem
      split at hmem
      · exact h.enqueued id k (mem_of_mem_tail hmem)
      · exact h.enqueued other k hmem

theorem knows (h : Chained t) (hp : Knows t p) : Knows t' p' := by
  intro x hx
  cases hmoves with
  | stays hplace hchains htick hexe hway =>
    rcases hplace with hsame | hnone
    · exact (hp x (hsame ▸ hx)).congr (by rw [hchains]) (by rw [hexe]) (by rw [hway])
    · rw [hnone] at hx
      cases hx
  | enqueues id hnone hplace hchains htick hexe =>
    cases hx.symm.trans hplace
    change t.tickets ∈ t'.chains id ∧ ((t'.chains id).head? = some t.tickets → t'.executingStartHash id = none)
    rw [hchains, hexe, update_self]
    refine ⟨mem_append_right _ mem_cons_self, fun hhead => ?_⟩
    cases hchain : t.chains id with
    | nil => exact h.empty id hchain
    | cons first =>
      rw [hchain] at hhead
      have hfirst : first = t.tickets := some.inj hhead
      have hlt := h.enqueued id first (hchain ▸ mem_cons_self)
      omega
  | starts id ticket hash hplace hhead hplace' hchains htick hexe hway =>
    cases hx.symm.trans hplace'
    have hnone : t.executingStartHash id = none := (hp _ hplace).2 hhead
    refine ⟨?_, ?_, ?_⟩
    · rw [hchains]
      exact hhead
    · rw [hexe]
      rw [update_self]
      exact some_ne_none _
    · rw [hway]
      exact fun hunder => h.executes id hunder hnone
  | stops id ticket hplace hhead hplace' hchains htick hexe =>
    cases hx.symm.trans hplace'
    refine ⟨?_, ?_⟩
    · rw [hchains]
      exact hhead
    · rw [hexe]
      exact (hp _ hplace).2 hhead
  | passes id ticket hplace hplace' hchains htick hexe hway =>
    cases hx.symm.trans hplace'
    refine ⟨?_, ?_⟩
    · rw [hchains]
      exact (hp _ hplace).1
    · rw [hway]
      exact Finset.mem_insert_self id _
  | ends id ticket stage hplace hstage hplace' hchains htick hexe hway =>
    cases hx.symm.trans hplace'
    have hholds := hp _ hplace
    refine ⟨?_, ?_, ?_⟩
    · rw [hchains]
      refine hholds.head ?_
      rcases hstage with rfl | rfl <;> exact Stage.noConfusion
    · have hexecutes := executes_of_stage h hholds hstage
      rw [hexe]
      exact hexecutes
    · rw [hway]
      exact Finset.notMem_erase id _
  | settles id ticket stage hplace hstage hplace' =>
    rw [hplace'] at hx
    cases hx

theorem ticket_eq {x : Place} (hx : p'.place = some x) : (∃ y, p.place = some y ∧ y.ticket = x.ticket) ∨ x.ticket =
    t.tickets := by
  cases hmoves with
  | stays hplace =>
    rcases hplace with hsame | hnone
    · exact Or.inl ⟨x, hsame ▸ hx, rfl⟩
    · rw [hnone] at hx
      cases hx
  | enqueues id hnone hplace =>
    cases hx.symm.trans hplace
    exact Or.inr rfl
  | starts id ticket hash hplace hhead hplace' hchains htick hexe hway
  | stops id ticket hplace hhead hplace' hchains htick hexe hway
  | passes id ticket hplace hplace' hchains htick hexe hway
  | ends id ticket stage hplace hstage hplace' =>
    cases hx.symm.trans hplace'
    exact Or.inl ⟨_, hplace, rfl⟩
  | settles id ticket stage hplace hstage hplace' =>
    rw [hplace'] at hx
    cases hx

theorem apart (h : Chained t) (hq : Knows t q) (hapart : Apart p q) : Apart p' q := by
  intro x y hx hy
  rcases hmoves.ticket_eq hx with ⟨z, hz, hticket⟩ | hnew
  · exact hticket ▸ hapart z y hz hy
  · have hlt := h.enqueued y.sandboxId y.ticket (hq y hy).mem
    omega

theorem others (hp : Knows t p) (hq : Knows t q) (hapart : Apart p q) : Knows t' q := by
  intro y hy
  have hholds := hq y hy
  cases hmoves with
  | stays hplace hchains htick hexe hway
  | stops id ticket hplace hhead hplace' hchains htick hexe hway =>
    exact hholds.congr (by rw [hchains]) (by rw [hexe]) (by rw [hway])
  | enqueues id hnone hplace hchains htick hexe hway =>
    by_cases hid : y.sandboxId = id
    · -- behind what is in the chain, the new task changes nothing
      have hmem := hholds.mem
      rw [hid] at hmem
      obtain ⟨first, rest, hchain⟩ := exists_cons_of_ne_nil (ne_nil_of_mem hmem)
      have hhead : (t'.chains y.sandboxId).head? = (t.chains y.sandboxId).head? := by
        rw [hid, hchains, update_self, hchain]
        rfl
      have hmem' : y.ticket ∈ t'.chains y.sandboxId := by
        rw [hid, hchains, update_self]
        exact mem_append_left _ hmem
      obtain ⟨sandboxId, ticket, stage⟩ := y
      unfold Place.Holds at hholds ⊢
      rw [hhead, hexe, hway]
      cases stage with
      | queued => exact ⟨hmem', hholds.2⟩
      | _ => exact hholds
    · exact hholds.congr (by rw [hchains, update_of_ne hid]) (by rw [hexe]) (by rw [hway])
  | starts id ticket hash hplace hhead hplace' hchains htick hexe hway =>
    by_cases hid : y.sandboxId = id
    · exact hholds.behind hid hhead (hapart _ y hplace hy) (by rw [hchains])
    · exact hholds.congr (by rw [hchains]) (by rw [hexe, update_of_ne hid]) (by rw [hway])
  | passes id ticket hplace hplace' hchains htick hexe hway =>
    by_cases hid : y.sandboxId = id
    · exact hholds.behind hid (hp _ hplace).1 (hapart _ y hplace hy) (by rw [hchains])
    · exact hholds.congr (by rw [hchains]) (by rw [hexe])
        (by rw [hway, Finset.mem_insert, or_iff_right hid])
  | ends id ticket stage hplace hstage hplace' hchains htick hexe hway =>
    by_cases hid : y.sandboxId = id
    · refine hholds.behind hid ((hp _ hplace).head ?_) (hapart _ y hplace hy) (by rw [hchains])
      rcases hstage with rfl | rfl <;> exact Stage.noConfusion
    · exact hholds.congr (by rw [hchains]) (by rw [hexe])
        (by rw [hway, Finset.mem_erase, and_iff_right hid])
  | settles id ticket stage hplace hstage hplace' hchains htick hothers hself hway =>
    by_cases hid : y.sandboxId = id
    · -- the first of the chain is gone, and the next one finds nothing that executes
      have hhead : (t.chains id).head? = some ticket := by
        refine (hp _ hplace).head ?_
        rcases hstage with rfl | rfl <;> exact Stage.noConfusion
      have hne : ticket ≠ y.ticket := hapart _ y hplace hy
      have hnone : t'.executingStartHash id = none := by
        apply hself
        rcases hstage with rfl | rfl
        · exact Or.inr rfl
        · exact Or.inl (hp _ hplace).2
      have hmem := hholds.mem
      rw [hid] at hmem
      obtain ⟨first, rest, hchain⟩ := exists_cons_of_ne_nil (ne_nil_of_mem hmem)
      rw [hchain] at hhead hmem
      obtain rfl : first = ticket := some.inj hhead
      have hstage' := hholds.waits hid (by rw [hchain]; rfl) hne
      unfold Place.Holds
      rw [hstage', hid, hchains, update_self, hchain]
      refine ⟨?_, fun _ => hnone⟩
      exact (mem_cons.mp hmem).resolve_left (Ne.symm hne)
    · exact hholds.congr (by rw [hchains, update_of_ne hid]) (hothers _ hid) (by rw [hway])

end

end Moves

end Onecli.Runner.Capacity
