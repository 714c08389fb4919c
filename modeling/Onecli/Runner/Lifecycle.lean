import Mathlib.Data.List.Basic
import Onecli.Foundation.Updates

/-!
# The lifecycle executor of the runner

`enqueueWork` of `runner.ts` with the keyed chains and the semaphore of `executor.ts`. Every work item that the copy
claims becomes a task of its sandbox's chain: a task begins when the one before it in the chain has settled. Starts
also take a slot of the semaphore. A start or a stop that is claimed while one of its kind is queued takes over that
one's place in the chain, and a start that is like the one executing is dropped. While a start is under way a timer
enqueues `starting` reports.

A step of the model is what one turn of the event loop does: an item is claimed, a task begins, a call to the backend
or a report is answered, a timer fires. What a payload is and how it is hashed is a parameter.
-/

namespace Onecli.Runner.Lifecycle

open Function (update)

variable {P H : Type}

/-- `RunnerWorkItem`, as far as the executor looks at it. -/
inductive RunnerWorkItem (P : Type) where
  | start (sandboxId : ℕ) (payload : P)
  | stop (sandboxId : ℕ) (containerRef : Option ℕ)
  | other (sandboxId : ℕ)

/-- A start or a stop. -/
inductive Command (P : Type) where
  | start (payload : P)
  | stop (containerRef : Option ℕ)
  deriving DecidableEq

/-- What a task does; a start or a stop reads it from its slot when it begins. -/
inductive Work (P : Type) where
  | lifecycle (command : Command P)
  | other

/-- Where a task is: in its chain, waiting for a slot of the semaphore, in the backend, with its report under way, or
done. -/
inductive Phase where
  | queued
  | acquiring
  | starting
  | stopping
  | executing
  | reporting
  | settled
  deriving DecidableEq

/-- A task of a chain, with the task whose promise it waits for. -/
structure Task (P : Type) where
  sandboxId : ℕ
  previous : Option ℕ
  work : Work P
  phase : Phase

/-- A report that is enqueued: the heartbeat of a start, or what a task has settled with. -/
inductive Report where
  | starting (sandboxId : ℕ)
  | settlement (task : ℕ)

/-- What is kept for the record: a command that was claimed, and one that was given to the backend. -/
inductive Entry (P : Type) where
  | claimed (sandboxId : ℕ) (command : Command P)
  | ran (sandboxId : ℕ) (command : Command P)

/-- The executor of one copy. The tasks are numbered as they are enqueued; `queuedStarts` and `queuedStops` hold the
task whose slot it is. The newest entry of the history comes first. -/
structure World (P H : Type) where
  tasks : ℕ → Task P
  enqueued : ℕ
  chains : ℕ → Option ℕ
  queuedStarts : ℕ → Option ℕ
  queuedStops : ℕ → Option ℕ
  executingStartHash : ℕ → Option H
  startHeartbeats : ℕ → Bool
  lifecycleInFlight : ℕ → ℕ
  inUse : ℕ
  waiters : List ℕ
  reports : List Report
  history : List (Entry P)

/-- A task goes on to a phase. -/
def setPhase (tasks : ℕ → Task P) (n : ℕ) (phase : Phase) : ℕ → Task P :=
  update tasks n { tasks n with phase := phase }

/-- The slot of a queued task takes a newer command. -/
def setWork (tasks : ℕ → Task P) (n : ℕ) (work : Work P) : ℕ → Task P := update tasks n { tasks n with work := work }

namespace World

/-- `KeyedChains.enqueue`. -/
def enqueue (w : World P H) (sandboxId : ℕ) (work : Work P) : World P H :=
  { w with
    tasks := update w.tasks w.enqueued ⟨sandboxId, w.chains sandboxId, work, .queued⟩
    chains := update w.chains sandboxId (some w.enqueued)
    enqueued := w.enqueued + 1 }

/-- The promise that a task waits for has settled. -/
def turn (w : World P H) (n : ℕ) : Bool := (w.tasks n).previous.all fun m => (w.tasks m).phase = .settled

/-- `beginLifecycle`. -/
def beginLifecycle (w : World P H) (sandboxId : ℕ) : World P H :=
  { w with
    lifecycleInFlight := update w.lifecycleInFlight sandboxId (w.lifecycleInFlight sandboxId + 1) }

/-- `endLifecycle`. -/
def endLifecycle (w : World P H) (sandboxId : ℕ) : World P H :=
  { w with
    lifecycleInFlight := update w.lifecycleInFlight sandboxId (w.lifecycleInFlight sandboxId - 1) }

/-- `beginStartHeartbeat`. -/
def beginStartHeartbeat (w : World P H) (sandboxId : ℕ) : World P H :=
  { w with startHeartbeats := update w.startHeartbeats sandboxId true }

/-- `stopStartHeartbeat`, unless a start is queued whose timer it now is. -/
def stopStartHeartbeat (w : World P H) (sandboxId : ℕ) : World P H :=
  if (w.queuedStarts sandboxId).isSome then w
  else { w with startHeartbeats := update w.startHeartbeats sandboxId false }

/-- `enqueueReport` of what a task has settled with; an empty list of events makes none. -/
def enqueueReport (w : World P H) (n : ℕ) (silent : Bool) : World P H :=
  if silent then w else { w with reports := w.reports ++ [.settlement n] }

section Hash

variable [DecidableEq H] (payloadHash : P → H)

/-- `enqueueWork`. -/
def enqueueWork (w : World P H) : RunnerWorkItem P → World P H
  | .start sandboxId payload =>
    match w.queuedStarts sandboxId with
    | some slot => { w with tasks := setWork w.tasks slot (.lifecycle (.start payload)) }
    | none =>
      if w.executingStartHash sandboxId = some (payloadHash payload) then w
      else
        enqueue
          (beginStartHeartbeat
            (beginLifecycle
              { w with queuedStarts := update w.queuedStarts sandboxId (some w.enqueued) } sandboxId)
            sandboxId)
          sandboxId (.lifecycle (.start payload))
  | .stop sandboxId containerRef =>
    match w.queuedStops sandboxId with
    | some slot => { w with tasks := setWork w.tasks slot (.lifecycle (.stop containerRef)) }
    | none =>
      enqueue
        (beginLifecycle { w with queuedStops := update w.queuedStops sandboxId (some w.enqueued) } sandboxId)
        sandboxId (.lifecycle (.stop containerRef))
  | .other sandboxId => w.enqueue sandboxId .other

/-- The command of an item, for the record. -/
def record (w : World P H) : RunnerWorkItem P → World P H
  | .start sandboxId payload => { w with history := .claimed sandboxId (.start payload) :: w.history }
  | .stop sandboxId containerRef => { w with history := .claimed sandboxId (.stop containerRef) :: w.history }
  | .other _ => w

/-- A start holds a slot of the semaphore, and the backend is called. -/
def grant (w : World P H) (n : ℕ) : World P H :=
  { w with
    tasks := setPhase w.tasks n .starting
    inUse := w.inUse + 1
    history :=
      match (w.tasks n).work with
      | .lifecycle command => .ran (w.tasks n).sandboxId command :: w.history
      | .other => w.history }

/-- `acquire`. -/
def acquire (w : World P H) (lifecycleConcurrency n : ℕ) : World P H :=
  if w.inUse < lifecycleConcurrency then w.grant n
  else { w with tasks := setPhase w.tasks n .acquiring, waiters := w.waiters ++ [n] }

/-- The release function of a slot, which wakes the first waiter. -/
def release (w : World P H) : World P H :=
  match w.waiters with
  | [] => { w with inUse := w.inUse - 1 }
  | n :: rest => grant { w with inUse := w.inUse - 1, waiters := rest } n

/-- A task begins. -/
def begin (w : World P H) (lifecycleConcurrency n : ℕ) : World P H :=
  let id := (w.tasks n).sandboxId
  match (w.tasks n).work with
  | .lifecycle (.start payload) =>
    acquire
      { w with
        queuedStarts := update w.queuedStarts id none
        executingStartHash := update w.executingStartHash id (some (payloadHash payload)) }
      lifecycleConcurrency n
  | .lifecycle (.stop containerRef) =>
    { w with
      tasks := setPhase w.tasks n .stopping
      queuedStops := update w.queuedStops id none
      history := .ran id (.stop containerRef) :: w.history }
  | .other => { w with tasks := setPhase w.tasks n .executing }

end Hash

/-- The `finally` of a start. -/
def finishStart (w : World P H) (n : ℕ) : World P H :=
  let id := (w.tasks n).sandboxId
  let w := release { w with tasks := setPhase w.tasks n .settled }
  stopStartHeartbeat
    (endLifecycle { w with executingStartHash := update w.executingStartHash id none } id) id

/-- The `finally` of a stop. -/
def finishStop (w : World P H) (n : ℕ) : World P H :=
  endLifecycle { w with tasks := setPhase w.tasks n .settled } (w.tasks n).sandboxId

/-- A task is done. -/
def finish (w : World P H) (n : ℕ) : World P H :=
  match (w.tasks n).work with
  | .lifecycle (.start _) => w.finishStart n
  | .lifecycle (.stop _) => w.finishStop n
  | .other => { w with tasks := setPhase w.tasks n .settled }

/-- The backend has answered a task, which enqueues its report; a start gives its timer up first. -/
def answered (w : World P H) (n : ℕ) (silent : Bool) : World P H :=
  let w' :=
    match (w.tasks n).work with
    | .lifecycle (.start _) => w.stopStartHeartbeat (w.tasks n).sandboxId
    | _ => w
  enqueueReport { w' with tasks := setPhase w.tasks n .reporting } n silent

/-- A copy that has claimed nothing yet. -/
def idle : World P H where
  tasks := fun _ => ⟨0, none, .other, .queued⟩
  enqueued := 0
  chains := fun _ => none
  queuedStarts := fun _ => none
  queuedStops := fun _ => none
  executingStartHash := fun _ => none
  startHeartbeats := fun _ => false
  lifecycleInFlight := fun _ => 0
  inUse := 0
  waiters := []
  reports := []
  history := []

end World

/-- What can happen to the executor: an item is claimed; a task begins, is answered by the backend, fails, or has its
report posted; a settled chain is swept from the map; the timer of a sandbox fires; the copy shuts down. -/
inductive Event (P : Type) where
  | claim (item : RunnerWorkItem P)
  | begin (n : ℕ)
  | answered (n : ℕ) (silent : Bool)
  | failed (n : ℕ)
  | posted (n : ℕ)
  | swept (n : ℕ)
  | beat (sandboxId : ℕ)
  | shutdown

/-- The backend works on a task. -/
def Phase.busy : Phase → Bool
  | .starting | .stopping | .executing => true
  | _ => false

/-- The steps of the executor. -/
def step [DecidableEq H] (payloadHash : P → H) (lifecycleConcurrency : ℕ) (w : World P H) :
    Event P → Option (World P H)
  | .claim item => some ((w.enqueueWork payloadHash item).record item)
  | .begin n =>
    if n < w.enqueued ∧ (w.tasks n).phase = .queued ∧ w.turn n then
      some (w.begin payloadHash lifecycleConcurrency n)
    else none
  | .answered n silent => if n < w.enqueued ∧ (w.tasks n).phase.busy then some (w.answered n silent) else none
  | .failed n => if n < w.enqueued ∧ (w.tasks n).phase.busy then some (w.finish n) else none
  | .posted n => if n < w.enqueued ∧ (w.tasks n).phase = .reporting then some (w.finish n) else none
  | .swept n =>
    if n < w.enqueued ∧ (w.tasks n).phase = .settled ∧ w.chains (w.tasks n).sandboxId = some n then
      some { w with chains := update w.chains (w.tasks n).sandboxId none }
    else none
  | .beat sandboxId =>
    if w.startHeartbeats sandboxId then some { w with reports := w.reports ++ [.starting sandboxId] } else none
  | .shutdown => some { w with startHeartbeats := fun _ => false }

/-- The last command claimed for a sandbox. -/
def lastClaimed (sandboxId : ℕ) (history : List (Entry P)) : Option (Command P) :=
  history.findSome? fun
    | .claimed id command => if id = sandboxId then some command else none
    | .ran _ _ => none

/-- The last command of a sandbox that the backend was given. -/
def lastRan (sandboxId : ℕ) (history : List (Entry P)) : Option (Command P) :=
  history.findSome? fun
    | .ran id command => if id = sandboxId then some command else none
    | .claimed _ _ => none

/-- A command does what another asks for: it is of its kind, and a start has a payload of the same hash. -/
def Command.Answers (payloadHash : P → H) : Command P → Command P → Prop
  | .start ran, .start asked => payloadHash ran = payloadHash asked
  | .stop _, .stop _ => True
  | _, _ => False

/-- Every stop claimed for a sandbox has run since. -/
def StopsRan (sandboxId : ℕ) (history : List (Entry P)) : Prop :=
  ∀ later earlier containerRef, history = later ++ .claimed sandboxId (.stop containerRef) :: earlier →
    ∃ containerRef', .ran sandboxId (.stop containerRef') ∈ later

namespace World

/-- Tasks of one sandbox do not overlap. -/
def OneAtATime (w : World P H) : Prop :=
  ∀ m < w.enqueued, ∀ n < w.enqueued, (w.tasks m).sandboxId = (w.tasks n).sandboxId →
    (w.tasks m).phase ≠ .queued → (w.tasks m).phase ≠ .settled →
      (w.tasks n).phase ≠ .queued → (w.tasks n).phase ≠ .settled → m = n

/-- No more starts are in the backend than the semaphore allows. -/
def Limited (lifecycleConcurrency : ℕ) (w : World P H) : Prop :=
  ((List.range w.enqueued).filter fun n => (w.tasks n).phase = .starting).length ≤ lifecycleConcurrency

/-- Once the chain of a sandbox is empty, the last command given to the backend does what the last one claimed asks
for, and the stops claimed have run. -/
def LastWins (payloadHash : P → H) (w : World P H) : Prop :=
  ∀ sandboxId, (∀ n < w.enqueued, (w.tasks n).sandboxId = sandboxId → (w.tasks n).phase = .settled) →
    ∀ command, lastClaimed sandboxId w.history = some command →
      (∃ ran, lastRan sandboxId w.history = some ran ∧ ran.Answers payloadHash command) ∧ StopsRan sandboxId w.history

/-- A start of a sandbox is queued, or executes and has not enqueued its report. -/
def StartUnderWay (w : World P H) (sandboxId : ℕ) : Prop :=
  ∃ n < w.enqueued, (w.tasks n).sandboxId = sandboxId ∧ (∃ payload, (w.tasks n).work = .lifecycle (.start payload)) ∧
    ((w.tasks n).phase = .queued ∨ (w.tasks n).phase = .acquiring ∨ (w.tasks n).phase = .starting)

end World

/-- A `starting` report is enqueued only while a start has not settled. -/
def HeartbeatStep (u : World P H) (_ : Event P) (v : World P H) : Prop :=
  ∀ sandboxId, v.reports = u.reports ++ [.starting sandboxId] → u.StartUnderWay sandboxId

/-- A claimed start finds no queued stop that it would get ahead of, and a claimed stop no queued start. -/
def InTurn [DecidableEq H] (payloadHash : P → H) (w : World P H) : Event P → Prop
  | .claim (.start sandboxId payload) =>
    (∀ slot ∈ w.queuedStarts sandboxId, ∀ stop ∈ w.queuedStops sandboxId, stop < slot) ∧
      (w.queuedStarts sandboxId = none → w.executingStartHash sandboxId = some (payloadHash payload) →
        w.queuedStops sandboxId = none)
  | .claim (.stop sandboxId _) => ∀ slot ∈ w.queuedStops sandboxId, ∀ start ∈ w.queuedStarts sandboxId, start < slot
  | _ => True

end Onecli.Runner.Lifecycle
