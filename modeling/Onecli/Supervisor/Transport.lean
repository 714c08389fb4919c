import Mathlib.Data.List.Infix

/-!
# The resumable control channel

The WebSocket transport of the supervisor (`transport/ws.ts`) and the runner's end of it (`ws/server.ts`), with the
sockets between them. Once the runner has handed a session over, every frame carries a number, stays in the
supervisor's buffer until the runner acknowledges it, and is written again where a new socket needs it; the runner
applies a number above its cursor and acknowledges the cursor. A socket keeps what was written to it in order, until it
is lost: then any end of what was on its way is gone, and so is what is written from there on, which neither side need
learn. One supervisor and one copy of the runner, from the supervisor's first dial on; the copy has a keyring.

The messages are known by their kind and their text. The wire schema of the runner is a parameter.
-/

namespace Onecli.Supervisor

open Function (update)

/-- `SupervisorMessage`: its kind, and what `JSON.stringify` makes of it. -/
structure SupervisorMessage where
  kind : String
  json : String
  deriving DecidableEq

/-- The beat of the liveness watchdog. -/
def heartbeat : SupervisorMessage := ⟨"heartbeat", "\x7b\"kind\":\"heartbeat\"\x7d"⟩

/-- A frame of the channel: a message, numbered where a session is held. -/
structure Frame where
  seq : Option ℕ
  message : SupervisorMessage
  deriving DecidableEq

/-- The text that is written for a frame. -/
def Frame.raw (f : Frame) : String :=
  match f.seq with
  | none => f.message.json
  | some seq => "\x7b\"seq\":" ++ toString seq ++ ",\"message\":" ++ f.message.json ++ "\x7d"

/-- The text that the watchdog knows a beat by. -/
def beatText : String := "\"kind\":\"heartbeat\""

/-- `raw.includes` of that text. -/
def Frame.saysBeat (f : Frame) : Bool := beatText.toList <:+: f.raw.toList

/-- The kinds that are not kept for a channel that is down. -/
def SupervisorMessage.fleeting (m : SupervisorMessage) : Bool :=
  m.kind = "progress" || m.kind = "heartbeat" || decide ("port.".toList <+: m.kind.toList)

/-- The work items that the transport itself reads, the one that ends it, and the others. -/
inductive WorkItem where
  | session (credential : String) (ack : ℕ)
  | ack (seq : ℕ)
  | shutdown
  | other (kind : String)

/-- `WebSocket.readyState`, as the supervisor reads it. -/
inductive ReadyState where
  | connecting
  | open
  | closing
  | closed
  deriving DecidableEq

/-- A socket: its state at the supervisor, whether the runner has taken it, whether the supervisor has read the
hand-off on it, whether what is written to it is lost, and what is on its way up and down. -/
structure Socket where
  readyState : ReadyState
  attached : Bool
  handed : Bool
  lost : Bool
  up : List Frame
  down : List WorkItem

/-- A socket that is being dialled. -/
def Socket.dialled : Socket := ⟨.connecting, false, false, false, [], []⟩

/-- `ws.send` at the supervisor. -/
def Socket.write (s : Socket) (frames : List Frame) : Socket := if s.lost then s else { s with up := s.up ++ frames }

/-- `ws.send` at the runner. -/
def Socket.answer (s : Socket) (item : WorkItem) : Socket := if s.lost then s else { s with down := s.down ++ [item] }

/-- `MAX_OUTBOUND_MESSAGES`. -/
@[irreducible] def maxOutboundMessages : ℕ := 2000

/-- `SESSION_RESUME_BUDGET.maxAttempts`. -/
def defaultMaxAttempts : ℕ := 60

/-- `CHANNEL_LIVENESS.timeoutMs`. -/
def livenessTimeoutMs : ℕ := 75000

/-- The variables of `createWsTransport`; `socket` names the current one. -/
structure Transport where
  session : Option String
  nextSeq : ℕ
  socket : Option ℕ
  closed : Bool
  attempts : ℕ
  outbound : List Frame
  sentUpTo : ℕ
  lastAckAt : ℕ
  livenessTimer : Bool
  reconnectTimer : Bool

/-- The transport, the sockets dialled so far, the runner's live one with its cursor and what its `onMessage` got,
and for the record: the messages passed to `send` while a session was held, the frames numbered, and the frames that
the watchdog threw away. -/
structure World where
  transport : Transport
  sockets : ℕ → Socket
  dialled : ℕ
  live : Option ℕ
  cursor : ℕ
  received : List Frame
  sent : List SupervisorMessage
  frames : List Frame
  thrown : List Frame

namespace World

/-- The current socket, where it is open. -/
def openSocket (w : World) : Option ℕ := w.transport.socket.filter fun i => (w.sockets i).readyState = .open

/-- The loop of `flush` over the buffer: the frames written, and the write cursor after it. -/
def writes : ℕ → List Frame → List Frame × ℕ
  | sentUpTo, [] => ([], sentUpTo)
  | sentUpTo, f :: rest =>
    match f.seq with
    | none => (f :: (writes sentUpTo rest).1, (writes sentUpTo rest).2)
    | some seq => if sentUpTo < seq then (f :: (writes seq rest).1, (writes seq rest).2) else writes sentUpTo rest

/-- `flush`. -/
def flush (w : World) : World :=
  match w.openSocket with
  | none => w
  | some i =>
    match w.transport.session with
    | none =>
      { w with
        transport := { w.transport with outbound := [] }
        sockets := update w.sockets i ((w.sockets i).write w.transport.outbound) }
    | some _ =>
      let written := writes w.transport.sentUpTo w.transport.outbound
      { w with
        transport := { w.transport with
          outbound := w.transport.outbound.filter (·.seq.isSome)
          sentUpTo := written.2 }
        sockets := update w.sockets i ((w.sockets i).write written.1) }

end World

namespace Transport

/-- `acknowledge`. -/
def acknowledge (t : Transport) (ack now : ℕ) : Transport :=
  { t with lastAckAt := now, outbound := t.outbound.dropWhile fun f => f.seq.any (· ≤ ack) }

/-- `stopLiveness`. -/
def stopLiveness (t : Transport) : Transport := { t with livenessTimer := false }

/-- `startLiveness`. -/
def startLiveness (t : Transport) (now : ℕ) : Transport := { t with lastAckAt := now, livenessTimer := true }

/-- `scheduleReconnect`. -/
def scheduleReconnect (t : Transport) : Transport :=
  if t.closed || t.reconnectTimer then t
  else if defaultMaxAttempts ≤ t.attempts then { t with closed := true }
  else { t with reconnectTimer := true }

/-- A message put in the buffer, without the oldest that no longer fit. -/
def push (t : Transport) (f : Frame) : Transport :=
  { t with outbound := (t.outbound ++ [f]).drop (t.outbound.length + 1 - maxOutboundMessages) }

end Transport

namespace World

/-- `connect`. -/
def connect (w : World) : World :=
  if w.transport.closed then w
  else
    { w with
      transport := { w.transport with attempts := w.transport.attempts + 1, socket := some w.dialled }
      sockets := update w.sockets w.dialled .dialled
      dialled := w.dialled + 1 }

/-- `transportSend`. -/
def transportSend (w : World) (m : SupervisorMessage) : World :=
  if m.fleeting && w.openSocket.isNone then w
  else
    match w.transport.session with
    | none => flush { w with transport := w.transport.push ⟨none, m⟩ }
    | some _ =>
      let f : Frame := ⟨some (w.transport.nextSeq + 1), m⟩
      flush { w with
        transport := { w.transport with nextSeq := w.transport.nextSeq + 1 }.push f
        frames := w.frames ++ [f] }

/-- `send`, as the supervisor calls it. -/
def send (w : World) (m : SupervisorMessage) : World :=
  { transportSend w m with sent := if w.transport.session.isSome then w.sent ++ [m] else w.sent }

/-- No ack came for too long. -/
def silent (w : World) (now : ℕ) : Bool :=
  !w.transport.closed && w.openSocket.isSome && decide (livenessTimeoutMs < now - w.transport.lastAckAt)

/-- The watchdog gives its socket up: the beats in the buffer go, and the supervisor dials again. -/
def giveUp (w : World) (i : ℕ) : World :=
  { w with
    transport := { w.transport.stopLiveness with
      outbound := w.transport.outbound.filter (! ·.saysBeat)
      socket := none }.scheduleReconnect
    sockets := update w.sockets i { w.sockets i with readyState := .closing }
    thrown := w.thrown ++ w.transport.outbound.filter (·.saysBeat) }

/-- The watchdog's timer. -/
def tick (w : World) (now : ℕ) : World :=
  match w.openSocket with
  | none => w
  | some i =>
    if w.transport.closed then w
    else if livenessTimeoutMs < now - w.transport.lastAckAt then w.giveUp i
    else w.transportSend heartbeat

/-- The `open` event of a socket. -/
def onOpen (w : World) (i now : ℕ) : World :=
  let w := { w with sockets := update w.sockets i { w.sockets i with readyState := .open } }
  if w.transport.socket = some i then
    let w := { w with transport := { w.transport with attempts := 0 } }
    if w.transport.session.isNone then w.flush
    else { w with transport := w.transport.startLiveness now }
  else w

/-- The hand-off of a session on the current socket. -/
def onSession (w : World) (i : ℕ) (credential : String) (ack now : ℕ) : World :=
  let held := { w.transport with session := some credential }.acknowledge ack now
  let positioned := { held with sentUpTo := ack }
  flush { w with
    transport := if w.transport.session.isSome then positioned else positioned.startLiveness now
    sockets := update w.sockets i { w.sockets i with handed := true } }

/-- The `message` event of a socket, with the item it brings. -/
def onItem (w : World) (i : ℕ) (item : WorkItem) (now : ℕ) : World :=
  if w.transport.socket = some i then
    match item with
    | .session credential ack => w.onSession i credential ack now
    | .ack seq => { w with transport := w.transport.acknowledge seq now }
    | .shutdown => { w with transport := { w.transport with closed := true }.stopLiveness }
    | .other _ => w
  else w

/-- The `error` event of a socket. -/
def onError (w : World) (i : ℕ) : World :=
  if w.transport.socket = some i then { w with transport := w.transport.stopLiveness.scheduleReconnect } else w

/-- The `close` event of a socket. -/
def onClose (w : World) (i : ℕ) : World :=
  let w := { w with sockets := update w.sockets i { w.sockets i with readyState := .closed } }
  if w.transport.socket = some i then
    if w.transport.closed then { w with transport := w.transport.stopLiveness }
    else { w with transport := w.transport.stopLiveness.scheduleReconnect }
  else w

/-- `close`, as the supervisor calls it. -/
def close (w : World) : World :=
  { w with
    transport := { w.transport.stopLiveness with closed := true, reconnectTimer := false }
    sockets := fun i =>
      if w.transport.socket = some i ∧ (w.sockets i).readyState ≠ .closed then
        { w.sockets i with readyState := .closing }
      else w.sockets i }

/-- `attach`, with `handOffSession`: the newest socket is the live one, and the cursor goes down on it. -/
def attach (w : World) (credential : String) (i : ℕ) : World :=
  { w with
    live := some i
    sockets := update w.sockets i
      ({ w.sockets i with attached := true }.answer (.session credential w.cursor)) }

/-- `onFrame`: what the schema refuses is dropped without an answer. -/
def onFrame (w : World) (schema : SupervisorMessage → Bool) (i : ℕ) (f : Frame) : World :=
  if schema f.message then
    match f.seq with
    | none => { w with received := w.received ++ [f] }
    | some seq =>
      if w.cursor < seq then
        { w with
          cursor := seq
          received := w.received ++ [f]
          sockets := update w.sockets i ((w.sockets i).answer (.ack seq)) }
      else { w with sockets := update w.sockets i ((w.sockets i).answer (.ack w.cursor)) }
  else w

/-- A socket is lost: of what was on its way only the first frames and items still arrive. -/
def lose (w : World) (i ups downs : ℕ) : World :=
  { w with
    sockets := update w.sockets i
      { w.sockets i with lost := true, up := (w.sockets i).up.take ups, down := (w.sockets i).down.take downs } }

/-- The supervisor as it starts, dialling. -/
def boot : World :=
  connect
    { transport := ⟨none, 0, none, false, 0, [], 0, 0, false, false⟩
      sockets := fun _ => .dialled
      dialled := 0
      live := none
      cursor := 0
      received := []
      sent := []
      frames := []
      thrown := [] }

end World

/-- What can happen to a channel. -/
inductive Event where
  | reconnect
  | attach (i : ℕ)
  | opened (i now : ℕ)
  | read (i now : ℕ)
  | failed (i : ℕ)
  | closed (i : ℕ)
  | tick (now : ℕ)
  | send (m : SupervisorMessage)
  | close
  | receive (i : ℕ)
  | push (kind : Option String)
  | lose (i ups downs : ℕ)

/-- The steps of the channel: the reconnect timer, the events of a socket at the supervisor, its watchdog, what the
supervisor sends, and at the runner an upgrade, a frame and an item of work; a socket may be lost at any time. An upgrade
is answered by the runner before the supervisor sees the socket open. -/
def step (schema : SupervisorMessage → Bool) (credential : String) (w : World) : Event → Option World
  | .reconnect =>
    if w.transport.reconnectTimer then
      some (World.connect { w with transport := { w.transport with reconnectTimer := false } })
    else none
  | .attach i => if i < w.dialled ∧ ¬ (w.sockets i).attached then some (w.attach credential i) else none
  | .opened i now =>
    if (w.sockets i).readyState = .connecting ∧ (w.sockets i).attached then some (w.onOpen i now) else none
  | .read i now =>
    match (w.sockets i).down with
    | [] => none
    | item :: rest =>
      if (w.sockets i).readyState = .open then
        some (World.onItem { w with sockets := update w.sockets i { w.sockets i with down := rest } } i item now)
      else none
  | .failed i => some (w.onError i)
  | .closed i => if (w.sockets i).readyState ≠ .closed then some (w.onClose i) else none
  | .tick now => if w.transport.livenessTimer then some (w.tick now) else none
  | .send m => some (w.send m)
  | .close => some w.close
  | .receive i =>
    match (w.sockets i).up with
    | [] => none
    | f :: rest =>
      if (w.sockets i).attached then
        some (World.onFrame { w with sockets := update w.sockets i { w.sockets i with up := rest } } schema i f)
      else none
  | .push kind =>
    w.live.map fun i =>
      { w with sockets := update w.sockets i ((w.sockets i).answer (kind.elim .shutdown .other)) }
  | .lose i ups downs => some (w.lose i ups downs)

/-- The kinds whose order the channel is judged by. -/
def SupervisorMessage.lasting (m : SupervisorMessage) : Bool := !m.fleeting

namespace World

/-- The lasting messages that the runner's `onMessage` got since the session was held, in order. -/
def delivered (w : World) : List SupervisorMessage :=
  ((w.received.filter (·.seq.isSome)).map Frame.message).filter SupervisorMessage.lasting

/-- The runner got the first of the lasting messages sent, each once and in order. -/
def InOrder (w : World) : Prop := w.delivered <+: w.sent.filter SupervisorMessage.lasting

/-- A numbered frame is in the buffer, or the runner has applied it, or it is a beat that the watchdog threw away. -/
def Kept (w : World) : Prop :=
  ∀ f ∈ w.frames, f ∈ w.transport.outbound ∨ f ∈ w.received ∨ f ∈ w.thrown ∧ f.message.kind = "heartbeat"

/-- The current socket is open and a session is held, but the hand-off on this socket is still to come. -/
def awaiting (w : World) : Bool :=
  w.transport.session.isSome &&
    w.openSocket.any fun i => !(w.sockets i).handed && !(w.sockets i).lost

/-- The runner has applied what the transport wrote to earlier sockets. -/
def caughtUp (w : World) : Bool :=
  w.transport.outbound.all fun f => f.seq.all (w.transport.sentUpTo < ·) || f ∈ w.received

end World

/-- A message that the runner's schema takes is sent with room in the buffer, and not ahead of the hand-off while a
frame written to an earlier socket is not applied. -/
def Sendable (schema : SupervisorMessage → Bool) (w : World) (m : SupervisorMessage) : Prop :=
  schema m ∧ w.transport.outbound.length < maxOutboundMessages ∧ (w.awaiting → w.caughtUp)

/-- A step of the supervisor finds the channel in order: what it sends may be sent, and the watchdog throws away
nothing but beats that the runner does not have. -/
def Orderly (schema : SupervisorMessage → Bool) (w : World) : Event → Prop
  | .send m => Sendable schema w m
  | .tick now =>
    if w.silent now then
      ∀ f ∈ w.transport.outbound, f.saysBeat → f.message.kind = "heartbeat" ∨ f ∈ w.received
    else Sendable schema w heartbeat
  | _ => True

instance (schema : SupervisorMessage → Bool) (w : World) (m : SupervisorMessage) : Decidable (Sendable schema w m) :=
  inferInstanceAs (Decidable (_ ∧ _))

instance (schema : SupervisorMessage → Bool) (w : World) (e : Event) : Decidable (Orderly schema w e) := by
  unfold Orderly
  split <;> infer_instance

end Onecli.Supervisor
