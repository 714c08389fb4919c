import Onecli.Api.Text
import Onecli.Foundation.Runs
import Onecli.Json
import Mathlib.Data.List.Sort

/-!
# The live transcript of a conversation

`streamTranscript` of `routes/transcript-stream.ts`, beside `applyTurnEvents`, `materializeBornDoneTurn` and
`readTranscriptEvents` of `turn-service.ts`. A transaction is one step, since the row of the conversation is locked
from its numbering to its commit. What it commits is published after it, and the bus delivers a published batch any
number of times, in any order, or not at all. The stream runs from one `await` to the next; whatever else happens may
happen in between. The stream of the SSE library is a parameter.
-/

namespace Onecli.Transcript

open Api (JsString)

/-- The kinds of `AgentEvent`. -/
inductive EventType where
  | turnStarted
  | toolStarted
  | toolFinished
  | approvalPending
  | turnDone
  | error
  | text
  | notice
  | textDelta
  | thinkingDelta
  | messageJoined
  | messageSentNow

/-- `DURABILITY`. -/
def DURABILITY : EventType → Bool
  | .turnStarted | .toolStarted | .toolFinished | .approvalPending | .turnDone | .error | .text | .notice => true
  | .textDelta | .thinkingDelta | .messageJoined | .messageSentNow => false

/-- `AgentEvent`: its kind and its other fields. -/
structure AgentEvent where
  type : EventType
  fields : List (JsString × Json JsString)

/-- `PublishedEvent`. -/
structure PublishedEvent where
  seq : ℕ
  turnId : JsString
  type : EventType
  event : AgentEvent

/-- A row of `turn_events`. -/
structure TurnEvent where
  seq : ℕ
  turnId : JsString
  type : EventType
  payload : AgentEvent

/-- The row of an event, and what a frame says of it. -/
def PublishedEvent.row (e : PublishedEvent) : TurnEvent := ⟨e.seq, e.turnId, e.type, e.event⟩

/-- The rows of the conversation: its counter and its durable events. -/
structure Tables where
  lastSeq : ℕ
  turnEvents : List TurnEvent

/-- The events of a transaction with their numbers. -/
def numbered (firstSeq : ℕ) (turnId : JsString) (events : List AgentEvent) : List PublishedEvent :=
  events.mapIdx fun index event => ⟨firstSeq + index, turnId, event.type, event⟩

namespace Tables

/-- The transaction of `applyTurnEvents`, for a reporter that hosts the turn, and what it publishes. The events are as
`storable` left them. -/
def applyTurnEvents (t : Tables) (turnId : JsString) (clean : List AgentEvent) : Tables × List PublishedEvent :=
  let lastSeq := t.lastSeq + clean.length
  let firstSeq := lastSeq - clean.length + 1
  let published := numbered firstSeq turnId clean
  let durable := published.filter fun entry => DURABILITY entry.event.type
  (⟨lastSeq, t.turnEvents ++ durable.map PublishedEvent.row⟩, published)

/-- The transaction of `materializeBornDoneTurn`, and what it publishes. -/
def materializeBornDoneTurn (t : Tables) (turnId : JsString) (events : List AgentEvent) :
    Tables × List PublishedEvent :=
  let count := events.length + 1
  let lastSeq := t.lastSeq + count
  let firstSeq := lastSeq - count + 1
  let published := numbered firstSeq turnId (events ++ [⟨.turnDone, []⟩])
  (⟨lastSeq, t.turnEvents ++ published.map PublishedEvent.row⟩, published)

end Tables

/-- `TranscriptPage`. -/
structure TranscriptPage where
  events : List TurnEvent
  nextSince : ℕ
  hasMore : Bool

/-- `readTranscriptEvents`, without the upper bound that the stream never passes. -/
def Tables.readTranscriptEvents (t : Tables) (since limit : Option ℕ) : TranscriptPage :=
  let limit := min (limit.getD 200) 500
  let found := t.turnEvents.filter fun row => since.all (· < row.seq)
  let events := (found.insertionSort fun a b => a.seq ≤ b.seq).take (limit + 1)
  let hasMore := decide (limit < events.length)
  let page := if hasMore then events.take limit else events
  ⟨page, ((page.getLast?.map TurnEvent.seq).or since).getD 0, hasMore⟩

/-- `HISTORY_PAGE_SIZE`. -/
def HISTORY_PAGE_SIZE : ℕ := 500

/-- `HISTORY_PAGE_LIMIT`. -/
def HISTORY_PAGE_LIMIT : ℕ := 100

/-- `MAX_PENDING_EVENTS`. -/
def MAX_PENDING_EVENTS : ℕ := 1000

/-- What the stream writes: a `transcript` event, the `caught-up` event, or the keep-alive comment. -/
inductive Chunk where
  | transcript (event : TurnEvent)
  | caughtUp (seq : ℕ)
  | keepAlive

/-- The event that a chunk brings. -/
def Chunk.event? : Chunk → Option TurnEvent
  | .transcript event => some event
  | _ => none

/-- The stream of the SSE library. A write answers what has become of the stream, and whether it ended before its
deadline. -/
structure StreamingApi (Sse Outcome : Type) where
  opened : Sse
  aborted : Sse → Bool
  emitted : Sse → List Chunk
  write : Sse → Chunk → Outcome → Sse × Bool
  abort : Sse → Sse

/-- What the stream relies on. A write never throws: on an aborted stream it does nothing, and one that ends before its
deadline, on a stream that nobody has aborted, has emitted its chunk. -/
structure StreamingApi.Lawful {Sse Outcome : Type} (api : StreamingApi Sse Outcome) : Prop where
  aborted_opened : api.aborted api.opened = false
  emitted_opened : api.emitted api.opened = []
  aborted_abort : ∀ sse, api.aborted (api.abort sse) = true
  emitted_abort : ∀ sse, api.emitted (api.abort sse) = api.emitted sse
  write_aborted : ∀ sse chunk outcome, api.aborted sse = true →
    api.aborted (api.write sse chunk outcome).1 = true ∧ api.emitted (api.write sse chunk outcome).1 = api.emitted sse
  write_emits : ∀ sse chunk outcome, api.emitted (api.write sse chunk outcome).1 = api.emitted sse ∨
    api.emitted (api.write sse chunk outcome).1 = api.emitted sse ++ [chunk]
  write_ended : ∀ sse chunk outcome, (api.write sse chunk outcome).2 = true →
    api.aborted (api.write sse chunk outcome).1 = false →
    api.emitted (api.write sse chunk outcome).1 = api.emitted sse ++ [chunk]

/-- The two callers of `replayHistory`: the startup, and the live drain at an event with a hole below it. -/
inductive Caller where
  | startup
  | repair (event : PublishedEvent) (woken : Bool)

/-- What the stream awaits. -/
inductive Point where
  | idle
  | ready
  | readHistory (caller : Caller) (page : ℕ) (cursor : Option ℕ)
  | writeHistory (caller : Caller) (page : ℕ) (history : TranscriptPage) (rest : List TurnEvent)
  | caughtUp
  | firstKeepAlive
  | waitForPublish
  | writeLive (event : PublishedEvent) (woken : Bool)
  | heartbeat
  | ended

/-- One connection of `streamTranscript`. -/
structure Stream (Sse : Type) where
  since : Option ℕ
  pending : List PublishedEvent
  lastSeq : ℕ
  overflowed : Bool
  subscribed : Bool
  sse : Sse
  point : Point

namespace Stream

variable {Sse Outcome : Type} (api : StreamingApi Sse Outcome)

/-- `stream.abort`, which releases the subscription. -/
def abort (s : Stream Sse) : Stream Sse := { s with sse := api.abort s.sse, subscribed := false }

/-- `writeOrCut`. -/
def writeOrCut (s : Stream Sse) (chunk : Chunk) (outcome : Outcome) : Stream Sse :=
  let written : Stream Sse := { s with sse := (api.write s.sse chunk outcome).1 }
  if (api.write s.sse chunk outcome).2 then written else abort api written

/-- The listener of the subscription. -/
def listener (s : Stream Sse) (events : List PublishedEvent) : Stream Sse :=
  if MAX_PENDING_EVENTS < s.pending.length + events.length then { s with overflowed := true, pending := [] }
  else { s with pending := s.pending ++ events }

/-- The stream ends, and releases its subscription. -/
def finish (s : Stream Sse) : Stream Sse := { s with subscribed := false, point := .ended }

/-- The test of the live loop. -/
def again (s : Stream Sse) : Stream Sse := if api.aborted s.sse then finish s else { s with point := .waitForPublish }

/-- The end of a round of the live loop. -/
def endRound (s : Stream Sse) (woken : Bool) : Stream Sse :=
  if !woken && !api.aborted s.sse then { s with point := .heartbeat } else again api s

/-- The drain of the pending events. -/
def drain (s : Stream Sse) (woken : Bool) : List PublishedEvent → Stream Sse
  | [] => endRound api { s with pending := [] } woken
  | event :: pending =>
    if event.seq ≤ s.lastSeq then drain s woken pending
    else if s.lastSeq + 1 < event.seq then
      { s with pending := pending, point := .readHistory (.repair event woken) 0 (some s.lastSeq) }
    else { s with pending := pending, lastSeq := event.seq, point := .writeLive event woken }

/-- What the callers do after `replayHistory`. -/
def replayed (s : Stream Sse) : Caller → Stream Sse
  | .startup => { s with point := .caughtUp }
  | .repair event woken =>
    -- the repair may have replayed the event itself
    if event.seq ≤ s.lastSeq then drain api s woken s.pending
    else { s with lastSeq := event.seq, point := .writeLive event woken }

/-- The end of a page of `replayHistory`. -/
def endPage (s : Stream Sse) (caller : Caller) (page : ℕ) (history : TranscriptPage) : Stream Sse :=
  let read : Stream Sse := { s with lastSeq := max s.lastSeq history.nextSince }
  if history.hasMore && !api.aborted s.sse && decide (page + 1 < HISTORY_PAGE_LIMIT) then
    { read with point := .readHistory caller (page + 1) (some history.nextSince) }
  else replayed api read caller

/-- A page of `replayHistory` goes on with what is left of it. -/
def writePage (s : Stream Sse) (caller : Caller) (page : ℕ) (history : TranscriptPage) : List TurnEvent → Stream Sse
  | [] => endPage api s caller page history
  | event :: rest => { s with point := .writeHistory caller page history (event :: rest) }

/-- The connection is made, its subscription is active, or a page of history has been read. -/
def goOn (s : Stream Sse) (t : Tables) : Option (Stream Sse) :=
  match s.point with
  | .idle => some { s with subscribed := true, point := .ready }
  | .ready => some { s with point := .readHistory .startup 0 s.since }
  | .readHistory caller page cursor =>
    let history := t.readTranscriptEvents cursor (some HISTORY_PAGE_SIZE)
    some (writePage api s caller page history history.events)
  | _ => none

/-- A write of the stream ends. -/
def endWrite (s : Stream Sse) (outcome : Outcome) : Option (Stream Sse) :=
  match s.point with
  | .writeHistory caller page history (event :: rest) =>
    let s := writeOrCut api s (.transcript event) outcome
    some (if api.aborted s.sse then replayed api s caller else writePage api s caller page history rest)
  | .caughtUp => some { writeOrCut api s (.caughtUp s.lastSeq) outcome with point := .firstKeepAlive }
  | .firstKeepAlive => some (again api (writeOrCut api s .keepAlive outcome))
  | .writeLive event woken =>
    let s := writeOrCut api s (.transcript event.row) outcome
    some (if s.overflowed || api.aborted s.sse then endRound api s woken else drain api s woken s.pending)
  | .heartbeat => some (again api (writeOrCut api s .keepAlive outcome))
  | _ => none

/-- `waitForPublish` resolves: by a publish, an overflow or an abort, or with the heartbeat. -/
def wake (s : Stream Sse) (woken : Bool) : Option (Stream Sse) :=
  match s.point with
  | .waitForPublish =>
    if woken && s.pending.isEmpty && !s.overflowed && !api.aborted s.sse then none
    else some (if s.overflowed then finish s else drain api s woken s.pending)
  | _ => none

/-- The subscription or a read of history fails. -/
def fail (s : Stream Sse) : Option (Stream Sse) :=
  match s.point with
  | .ready | .readHistory _ _ _ => some (finish s)
  | _ => none

end Stream

/-- The conversation, the batches that are to be published and those that the bus carries, and the connection. -/
structure World (Sse : Type) where
  tables : Tables
  committed : List (List PublishedEvent)
  published : List (List PublishedEvent)
  stream : Stream Sse

/-- What happens next. -/
inductive Choice (Outcome : Type) where
  | applyTurnEvents (turnId : JsString) (clean : List AgentEvent)
  | materializeBornDoneTurn (turnId : JsString) (events : List AgentEvent)
  | publish (i : ℕ)
  | deliver (i : ℕ)
  | goOn
  | endWrite (outcome : Outcome)
  | wake (woken : Bool)
  | fail
  | leave

namespace World

variable {Sse Outcome : Type} (api : StreamingApi Sse Outcome)

/-- A conversation without events, and a connection that resumes from a cursor. -/
def initial (since : Option ℕ) : World Sse := ⟨⟨0, []⟩, [], [], ⟨since, [], 0, false, false, api.opened, .idle⟩⟩

/-- A transaction commits. -/
def commit (w : World Sse) (change : Tables × List PublishedEvent) : World Sse :=
  { w with tables := change.1, committed := change.2 :: w.committed }

/-- A step of the conversation, the bus or the connection. -/
def step (w : World Sse) : Choice Outcome → Option (World Sse)
  | .applyTurnEvents turnId clean =>
    if clean = [] then none else some (w.commit (w.tables.applyTurnEvents turnId clean))
  | .materializeBornDoneTurn turnId events => some (w.commit (w.tables.materializeBornDoneTurn turnId events))
  | .publish i =>
    w.committed[i]?.map fun batch => { w with committed := w.committed.eraseIdx i, published := batch :: w.published }
  | .deliver i =>
    if w.stream.subscribed then w.published[i]?.map fun batch => { w with stream := w.stream.listener batch } else none
  | .goOn => (w.stream.goOn api w.tables).map fun stream => { w with stream }
  | .endWrite outcome => (w.stream.endWrite api outcome).map fun stream => { w with stream }
  | .wake woken => (w.stream.wake api woken).map fun stream => { w with stream }
  | .fail => w.stream.fail.map fun stream => { w with stream }
  | .leave => some { w with stream := w.stream.abort api }

/-- The transcript frames that the connection has emitted. -/
def transcript (w : World Sse) : List TurnEvent := (api.emitted w.stream.sse).filterMap Chunk.event?

/-- The last page that a replay reads finds no more of the backlog after it. -/
def Fits (w : World Sse) : Prop :=
  match w.stream.point with
  | .readHistory _ page cursor => page + 1 = HISTORY_PAGE_LIMIT →
    (w.tables.readTranscriptEvents cursor (some HISTORY_PAGE_SIZE)).hasMore = false
  | _ => True

instance (w : World Sse) : Decidable w.Fits := by
  unfold Fits
  split <;> infer_instance

end World

end Onecli.Transcript
