import Onecli.Api.Evaluator
import Onecli.Foundation.Calls

/-!
# Action approvals

The doors of `action-approval-service.ts` on the rows of `action_approvals`. Every statement is atomic, and a door goes
on from what it read before. The clock stands still between two ticks, so that rows may be created at the same time.

The registry of actions and `cleanLabel` are parameters. The cards, the notices, the audit and the standing answers of
a decision are written by others and not read here; `settleApproval` is the mark that it ran. What moved a row from
pending, and what the handlers were called with, is kept beside the rows; no statement reads it.
-/

namespace Onecli.Channels

open Api (JsString)

/-- `ActionApprovalStatus`. -/
inductive ActionApprovalStatus where
  | pending
  | approved
  | executed
  | failed
  | rejected
  | expired
  deriving DecidableEq

/-- The moves of a status. -/
def ActionApprovalStatus.Moves : ActionApprovalStatus → ActionApprovalStatus → Prop
  | .pending, .approved | .pending, .executed | .pending, .rejected | .pending, .expired => True
  | .approved, .executed | .approved, .failed => True
  | _, _ => False

/-- `ActionDecision`. -/
inductive ActionDecision where
  | approve
  | reject
  deriving DecidableEq

/-- `APPROVAL_MAX_AGE_MS`. -/
def APPROVAL_MAX_AGE_MS : ℕ := 24 * 60 * 60 * 1000

/-- `MAX_REASON_CHARS`. -/
def MAX_REASON_CHARS : ℕ := 500

/-- How many rows `expireStaleActionApprovals` takes. -/
def STALE_TAKE : ℕ := 20

namespace ActionApproval

/-- `RegisteredAction`, as far as the doors read it. -/
structure RegisteredAction (Payload : Type) where
  decidedBy : Option (Payload → Option ℕ)
  approvable : Option (Payload → Option JsString)
  choices : Option (Payload → List JsString)
  requiresSecretValue : Bool
  supersedeKey : Option (Payload → Option JsString)
  noteMaxChars : Option ℕ

/-- What the doors are given. -/
structure Service (Payload : Type) where
  handlers : JsString → Option (RegisteredAction Payload)
  cleanLabel : JsString → ℕ → JsString

/-- What is written of a request once, when it is created. -/
structure Ask (Payload : Type) where
  id : ℕ
  agentId : ℕ
  action : JsString
  payload : Payload
  expiresAt : ℕ
  createdAt : ℕ

/-- What moved a row from pending. -/
inductive Fate where
  | decided
  | expired
  | resolved
  | superseded
  | withdrawn
  deriving DecidableEq

/-- A row of `action_approvals`. -/
structure Row (Payload : Type) where
  ask : Ask Payload
  status : ActionApprovalStatus
  reason : Option JsString
  decidedByUserId : Option ℕ
  fate : Option Fate

/-- The request was neither decided nor expired nor ended by another flow. -/
def Row.left {Payload : Type} (row : Row Payload) : Bool := row.status = .pending || row.fate = some .superseded

/-- What a handler is called with: the frozen row and the context of the decision. -/
structure Invocation (Payload : Type) where
  id : ℕ
  action : JsString
  payload : Payload
  decidedByUserId : ℕ
  choice : Option JsString
  secretValue : Option JsString

/-- The rows, the clock and the users; and the handlers called and the approvals settled so far. -/
structure Tables (Payload : Type) where
  rows : ℕ → Option (Row Payload)
  minted : ℕ
  now : ℕ
  users : List ℕ
  invoked : List (Invocation Payload)
  settled : List ℕ

/-- `ActionDecisionResult`, and what the other doors answer. -/
inductive Outcome where
  | unprocessable
  | requested (id : ℕ)
  | decided (status : ActionApprovalStatus)
  | alreadySettled
  | refused (message : JsString)
  | ended (count : ℕ)

/-- What `requestActionApproval` is called with. -/
structure RequestInput (Payload : Type) where
  agentId : ℕ
  action : JsString
  payload : Payload
  expiresInMs : Option ℕ

/-- What `decideActionApproval` is called with. -/
structure DecideInput where
  approvalId : ℕ
  decision : ActionDecision
  deciderUserId : ℕ
  reason : Option JsString
  choice : Option JsString
  secretValue : Option JsString

/-- Which door ends rows that are pending: `expireActionApprovals`, `resolveActionApprovals`, and
`supersedeActionApprovals` for `supersedeOlderSameKey` of a row or for another flow. -/
inductive Ending (Payload : Type) where
  | expired
  | resolved (note : JsString)
  | superseded (by_ : Ask Payload)
  | withdrawn

/-- Where a call stands: at the statement that is next, or at its end. -/
inductive Point (Payload : Type) where
  | idle
  | create (input : RequestInput Payload)
  | findOlder (ask : Ask Payload) (outcome : Outcome)
  | findStale
  | findPending (ending : Ending Payload) (ids : List ℕ) (outcome : Option Outcome)
  | flip (ending : Ending Payload) (id : ℕ) (ids : List ℕ) (count : ℕ) (outcome : Option Outcome)
  | settle (ending : Ending Payload) (id : ℕ) (ids : List ℕ) (count : ℕ) (outcome : Option Outcome)
  | findApproval (input : DecideInput)
  | compareExpiry (input : DecideInput) (ask : Ask Payload)
  | park (ask : Ask Payload)
  | settleParked (ask : Ask Payload)
  | findDecider (input : DecideInput) (ask : Ask Payload)
  | decide (input : DecideInput) (ask : Ask Payload)
  | handle (input : DecideInput) (ask : Ask Payload)
  | handling (noteMaxChars : ℕ) (ask : Ask Payload)
  | update (ask : Ask Payload) (status : ActionApprovalStatus) (detail : Option JsString)
  | settleDecided (ask : Ask Payload) (status : ActionApprovalStatus)
  | returned (outcome : Outcome)

/-- What a step chooses: a door is called, a call goes on, or a handler returns or throws. -/
inductive Choice (Payload : Type) where
  | request (input : RequestInput Payload)
  | decide (input : DecideInput)
  | sweep
  | expire (ids : List ℕ)
  | resolve (ids : List ℕ) (note : JsString)
  | supersede (ids : List ℕ)
  | go
  | executes (note : Option JsString)
  | throws (err : JsString)
  | tick

variable {Payload : Type}

namespace Tables

/-- A row is pending. -/
def isPending (t : Tables Payload) (id : ℕ) : Bool := (t.rows id).any fun row => row.status = .pending

/-- `db.actionApproval.create`. -/
def create (t : Tables Payload) (ask : Ask Payload) : Tables Payload :=
  { t with rows := Function.update t.rows t.minted (some ⟨ask, .pending, none, none, none⟩), minted := t.minted + 1 }

/-- An update of a row. -/
def modify (t : Tables Payload) (id : ℕ) (change : Row Payload → Row Payload) : Tables Payload :=
  { t with rows := Function.update t.rows id ((t.rows id).map change) }

/-- A handler is called. -/
def invoke (t : Tables Payload) (invocation : Invocation Payload) : Tables Payload :=
  { t with invoked := invocation :: t.invoked }

/-- `settleApproval` ran. -/
def settle (t : Tables Payload) (id : ℕ) : Tables Payload := { t with settled := id :: t.settled }

/-- Time passes. -/
def tick (t : Tables Payload) : Tables Payload := { t with now := t.now + 1 }

/-- The pending rows of a list of ids. -/
def pendingOf (t : Tables Payload) (ids : List ℕ) : List ℕ :=
  (List.range t.minted).filter fun id => id ∈ ids && t.isPending id

/-- The pending rows past their deadline, the oldest first. -/
def stale (t : Tables Payload) : List ℕ :=
  ((List.range t.minted).filter fun id =>
    (t.rows id).any fun row => row.status = .pending && row.ask.expiresAt < t.now).take STALE_TAKE

end Tables

/-- A string that is there and not empty. -/
def truthy (value : Option JsString) : Bool := value.any (· ≠ [])

/-- `supersedeKey` of a request. -/
def Service.keyOf (service : Service Payload) (ask : Ask Payload) : Option JsString :=
  ((service.handlers ask.action).bind (·.supersedeKey)).bind fun keyOf => keyOf ask.payload

/-- Two requests are of one agent, action and key. -/
def Service.SameKey (service : Service Payload) (ask other : Ask Payload) : Prop :=
  ask.agentId = other.agentId ∧ ask.action = other.action ∧ service.keyOf ask = service.keyOf other ∧
    service.keyOf ask ≠ none

instance (service : Service Payload) (ask other : Ask Payload) : Decidable (service.SameKey ask other) := by
  unfold Service.SameKey
  infer_instance

/-- The rows that `supersedeOlderSameKey` finds for a request. -/
def Service.older (service : Service Payload) (t : Tables Payload) (ask : Ask Payload) : List ℕ :=
  (List.range t.minted).filter fun id => (t.rows id).any fun row =>
    row.status = .pending && (id ≠ ask.id && (row.ask.createdAt ≤ ask.createdAt && service.SameKey row.ask ask))

/-- The end of a door that ends rows. -/
def finish (count : ℕ) (outcome : Option Outcome) : Point Payload := .returned (outcome.getD (.ended count))

/-- A door that ends rows starts with their ids. -/
def endAll (ending : Ending Payload) (ids : List ℕ) (outcome : Option Outcome) : Point Payload :=
  if ids = [] then finish 0 outcome else .findPending ending ids outcome

/-- A door that ends rows goes on to the next. -/
def endNext (ending : Ending Payload) (ids : List ℕ) (count : ℕ) (outcome : Option Outcome) : Point Payload :=
  match ids with
  | [] => finish count outcome
  | id :: ids => .flip ending id ids count outcome

/-- What a door that ends rows writes. -/
def Ending.change (service : Service Payload) : Ending Payload → Row Payload → Row Payload
  | .expired, row => { row with status := .expired, fate := some .expired }
  | .resolved note, row =>
    { row with status := .executed, reason := some (service.cleanLabel note MAX_REASON_CHARS), fate := some .resolved }
  | .superseded _, row =>
    { row with status := .expired, reason := some (Utf16.js "Replaced by a newer request."), fate := some .superseded }
  | .withdrawn, row =>
    { row with status := .expired, reason := some (Utf16.js "Replaced by a newer request."), fate := some .withdrawn }

/-- `supersedeOlderSameKey`, up to its first statement. -/
def Service.supersedeOlderSameKey (service : Service Payload) (ask : Ask Payload) (outcome : Outcome) : Point Payload :=
  if service.keyOf ask = none then .returned outcome else .findOlder ask outcome

/-- What `decideActionApproval` refuses on the row that it read. -/
def Service.refusal (service : Service Payload) (input : DecideInput) (ask : Ask Payload) : Option JsString :=
  let registered := service.handlers ask.action
  if (registered.bind (·.decidedBy)).any fun decidedBy => decidedBy ask.payload ≠ some input.deciderUserId then
    some (Utf16.js "Only the person whose Slack account the agent would use can decide this.")
  else if input.decision = .reject then none
  else
    match (registered.bind (·.approvable)).bind fun approvable => approvable ask.payload with
    | some message => some message
    | none =>
      if (registered.bind (·.choices)).any fun choices =>
          !truthy input.choice || !input.choice.any fun choice => choice ∈ choices ask.payload then
        some (Utf16.js "Pick one of the options.")
      else if registered.any (·.requiresSecretValue) && !truthy input.secretValue then
        some (Utf16.js "This request needs a key that only you can enter. Review it in the OneCLI chat.")
      else none

/-- What the flip of a decision writes. -/
def Service.decide (service : Service Payload) (input : DecideInput) (row : Row Payload) : Row Payload :=
  let reason := input.reason.map fun reason => service.cleanLabel reason MAX_REASON_CHARS
  { row with
    status := match input.decision with
      | .approve => .approved
      | .reject => .rejected
    reason := if input.decision = .reject ∧ truthy reason then reason else row.reason
    decidedByUserId := some input.deciderUserId
    fate := some .decided }

/-- What the handler of an approved request is called with. -/
def invocation (registered : RegisteredAction Payload) (input : DecideInput) (ask : Ask Payload) : Invocation Payload where
  id := ask.id
  action := ask.action
  payload := ask.payload
  decidedByUserId := input.deciderUserId
  choice := if registered.choices.isSome then input.choice else none
  secretValue := if registered.requiresSecretValue then input.secretValue else none

/-- The outcome line of a handler that returned. -/
def Service.detail (service : Service Payload) (noteMaxChars : ℕ) (note : Option JsString) : Option JsString :=
  if truthy note then note.map fun text => service.cleanLabel text noteMaxChars else none

/-- What is written after the handler. -/
def outcomeOf (status : ActionApprovalStatus) (detail : Option JsString) (row : Row Payload) : Row Payload :=
  { row with status := status, reason := if truthy detail then detail else row.reason }

/-- A statement of a door. -/
def exec (service : Service Payload) : Calls.Exec (Tables Payload) (Point Payload) (Choice Payload)
  | .tick, t, p => some (t.tick, p)
  | .request input, t, .idle =>
    some (t, if (service.handlers input.action).isSome then .create input else .returned .unprocessable)
  | .go, t, .create input =>
    let ask : Ask Payload :=
      ⟨t.minted, input.agentId, input.action, input.payload, t.now + input.expiresInMs.getD APPROVAL_MAX_AGE_MS, t.now⟩
    some (t.create ask, service.supersedeOlderSameKey ask (.requested ask.id))
  | .go, t, .findOlder ask outcome => some (t, endAll (.superseded ask) (service.older t ask) (some outcome))
  | .sweep, t, .idle => some (t, .findStale)
  | .go, t, .findStale => some (t, endAll .expired t.stale none)
  | .expire ids, t, .idle => some (t, endAll .expired ids none)
  | .resolve ids note, t, .idle => some (t, endAll (.resolved note) ids none)
  | .supersede ids, t, .idle => some (t, endAll .withdrawn ids none)
  | .go, t, .findPending ending ids outcome => some (t, endNext ending (t.pendingOf ids) 0 outcome)
  | .go, t, .flip ending id ids count outcome =>
    if t.isPending id then some (t.modify id (ending.change service), .settle ending id ids (count + 1) outcome)
    else some (t, endNext ending ids count outcome)
  | .go, t, .settle ending id ids count outcome => some (t.settle id, endNext ending ids count outcome)
  | .decide input, t, .idle => some (t, .findApproval input)
  | .go, t, .findApproval input =>
    match t.rows input.approvalId with
    | none => some (t, .returned (.refused (Utf16.js "This request no longer exists.")))
    | some row =>
      if row.status ≠ .pending then some (t, .returned .alreadySettled)
      else
        match service.refusal input row.ask with
        | some message => some (t, .returned (.refused message))
        | none => some (t, .compareExpiry input row.ask)
  | .go, t, .compareExpiry input ask => some (t, if ask.expiresAt < t.now then .park ask else .findDecider input ask)
  | .go, t, .park ask =>
    if t.isPending ask.id then some (t.modify ask.id (Ending.change service .expired), .settleParked ask)
    else some (t, .returned (.refused (Utf16.js "This request expired. The agent can ask again.")))
  | .go, t, .settleParked ask =>
    some (t.settle ask.id, .returned (.refused (Utf16.js "This request expired. The agent can ask again.")))
  | .go, t, .findDecider input ask =>
    some (t, if input.deciderUserId ∈ t.users then .decide input ask
      else .returned (.refused (Utf16.js "Unknown decider.")))
  | .go, t, .decide input ask =>
    if t.isPending ask.id then
      some (t.modify ask.id (service.decide input), match input.decision with
        | .approve => .handle input ask
        | .reject => .settleDecided ask .rejected)
    else some (t, .returned .alreadySettled)
  | .go, t, .handle input ask =>
    match service.handlers ask.action with
    | none => some (t, .update ask .failed (some (Utf16.js "no handler registered for \"" ++ ask.action ++ Utf16.js "\"")))
    | some registered =>
      some (t.invoke (invocation registered input ask), .handling (registered.noteMaxChars.getD MAX_REASON_CHARS) ask)
  | .executes note, t, .handling noteMaxChars ask =>
    some (t, .update ask .executed (service.detail noteMaxChars note))
  | .throws err, t, .handling _ ask => some (t, .update ask .failed (some (service.cleanLabel err MAX_REASON_CHARS)))
  | .go, t, .update ask status detail => some (t.modify ask.id (outcomeOf status detail), .settleDecided ask status)
  | .go, t, .settleDecided ask status => some (t.settle ask.id, service.supersedeOlderSameKey ask (.decided status))
  | _, _, _ => none

/-- The tables and the calls of the doors. -/
abbrev World (Payload : Type) := Calls.World (Tables Payload) (Point Payload)

/-- A call goes on. -/
abbrev step (service : Service Payload) : World Payload → ℕ × Choice Payload → Option (World Payload) :=
  Calls.step (exec service)

/-- No request was made and no door called. -/
def initial (users : List ℕ) (now : ℕ) : World Payload := ⟨⟨fun _ => none, 0, now, users, [], []⟩, fun _ => .idle⟩

/-- The action admits the decision that a handler is called on: its personal decider made it, it can be approved, the
choice is one that it offers, and it has the value that it requires. -/
structure Service.Admits (service : Service Payload) (call : Invocation Payload) : Prop where
  registered : (service.handlers call.action).isSome
  decider : ∀ registered ∈ service.handlers call.action, ∀ decidedBy ∈ registered.decidedBy,
    decidedBy call.payload = some call.decidedByUserId
  approvable : ∀ registered ∈ service.handlers call.action, ∀ approvable ∈ registered.approvable,
    approvable call.payload = none
  choice : ∀ registered ∈ service.handlers call.action, ∀ choices ∈ registered.choices,
    ∃ choice ∈ choices call.payload, call.choice = some choice
  secretValue : ∀ registered ∈ service.handlers call.action, registered.requiresSecretValue = true →
    truthy call.secretValue = true

namespace Tables

/-- A handler is called once for an approval, with the payload of its row and for a decision that the action admits,
which moved the row from pending and approved it. -/
def ExecutesOnce (service : Service Payload) (t : Tables Payload) : Prop :=
  (t.invoked.map (·.id)).Nodup ∧ ∀ call ∈ t.invoked, service.Admits call ∧ ∃ row, t.rows call.id = some row ∧
    row.ask.action = call.action ∧ row.ask.payload = call.payload ∧ row.fate = some .decided ∧
    row.decidedByUserId = some call.decidedByUserId ∧
    (row.status = .approved ∨ row.status = .executed ∨ row.status = .failed)

/-- An approval is settled once. -/
def SettlesOnce (t : Tables Payload) : Prop := t.settled.Nodup

/-- Every row goes on with what was written once and with a status that may follow, and a row that is new is pending. -/
structure Follows (t t' : Tables Payload) : Prop where
  row : ∀ id row, t.rows id = some row → ∃ row', t'.rows id = some row' ∧ row'.ask = row.ask ∧
    (row'.status = row.status ∨ row.status.Moves row'.status)
  fresh : ∀ id row', t.rows id = none → t'.rows id = some row' → row'.status = .pending

/-- Where nobody decided, expired or resolved a request of a key, the newest of them is pending. -/
def NewestPending (service : Service Payload) (t : Tables Payload) : Prop :=
  ∀ id row, t.rows id = some row → service.keyOf row.ask ≠ none →
    (∀ other r, t.rows other = some r → service.SameKey r.ask row.ask → r.left = true) →
      ∃ newest n, t.rows newest = some n ∧ service.SameKey n.ask row.ask ∧ n.status = .pending ∧
        ∀ other r, t.rows other = some r → service.SameKey r.ask row.ask → r.ask.createdAt ≤ n.ask.createdAt

end Tables

/-- Beside a row that is superseded, its key has a pending request that is as new, or one that was decided, expired or
resolved. -/
def Service.spared (service : Service Payload) (t : Tables Payload) (id : ℕ) (row : Row Payload) : Bool :=
  (List.range t.minted).any fun other => other ≠ id && (t.rows other).any fun r =>
    service.SameKey r.ask row.ask && (r.status = .pending && row.ask.createdAt ≤ r.ask.createdAt || !r.left)

/-- Where a statement supersedes a pending row for a request, that request is newer, or the key is spared. -/
def Service.Spares (service : Service Payload) (c : Choice Payload) (t : Tables Payload) (p : Point Payload) : Prop :=
  match c, p with
  | .go, .flip (.superseded ask) id _ _ _ => ∀ row ∈ t.rows id, row.status = .pending →
      row.ask.createdAt < ask.createdAt ∨ service.spared t id row = true
  | _, _ => True

instance (service : Service Payload) (c : Choice Payload) (t : Tables Payload) (p : Point Payload) :
    Decidable (service.Spares c t p) := by
  unfold Service.Spares
  cases c <;> cases p <;> try infer_instance
  rename_i ending _ _ _ _
  cases ending <;> infer_instance

/-- A step spares the keys. -/
def SupersedesOlder (service : Service Payload) (w : World Payload) (e : ℕ × Choice Payload) : Prop :=
  service.Spares e.2 w.db (w.calls e.1)

instance (service : Service Payload) (w : World Payload) (e : ℕ × Choice Payload) :
    Decidable (SupersedesOlder service w e) :=
  inferInstanceAs (Decidable (service.Spares e.2 w.db (w.calls e.1)))

end ActionApproval

end Onecli.Channels
