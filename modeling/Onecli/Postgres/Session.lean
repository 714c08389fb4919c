import Onecli.Foundation.Runs
import Onecli.Postgres.Unit

/-!
# One agent session

`Session` of `dbproxy-postgres/src/session.rs`. A step is one thing the session waits for: a
frame from either side, the classifier, the grants, the gate's verdict, a timer, or a stream
that fails. The log row that `Admitted::finish` records is left out.
-/

namespace Onecli.Postgres.Session

open Gateway (Str)

/-- `TxStatus`. -/
inductive TxStatus where
  | idle
  | inTransaction
  | failed

/-- `TxStatus::from_byte`. -/
def TxStatus.fromByte (b : UInt8) : Option TxStatus :=
  if b = byte 'I' then some .idle
  else if b = byte 'T' then some .inTransaction
  else if b = byte 'E' then some .failed
  else none

/-- `RefusalKind`. -/
inductive RefusalKind where
  | denied
  | rateLimited
  | notApproved
  | unavailable
  | invalid

/-- The `sqlstate` of a refusal. -/
def RefusalKind.sqlstate : RefusalKind → Str
  | .invalid => "42601".toList
  | .rateLimited => "53400".toList
  | .unavailable => "57P03".toList
  | .denied => "42501".toList
  | .notApproved => "42501".toList

/-- What the client is sent. -/
inductive Reply where
  | relayed (frame : Frame)
  | error (severity sqlstate message : Str)
  | ready (status : TxStatus)

/-- What the session waits for. -/
inductive Phase where
  /-- A frame from either side, while a unit is read. -/
  | reading (unit : UnitBuffer)
  /-- `judge` waits for the parse pool. -/
  | classifying (frames : List Frame)
  | refreshing (unit : Judged)
  /-- `gate.judge`. -/
  | judging (unit : Judged)
  /-- `relay_until_ready`, with the frames held back. -/
  | relaying (batch : List Frame)
  /-- `relay_copy_in`. -/
  | copying
  /-- `discard_until_sync`. -/
  | discarding
  | closed

/-- A session. -/
structure State where
  phase : Phase
  names : Names
  status : TxStatus
  /-- The client's frames written to the server. -/
  toServer : List Frame
  toClient : List Reply

/-- A session at its start. -/
def State.init : State := ⟨.reading .empty, .default, .idle, [], []⟩

/-- What a session waits for happens. -/
inductive Event where
  | client (frame : Frame)
  | clientEof
  /-- A frame from the server, and whether another one is read already. -/
  | server (frame : Frame) (hasFrame : Bool)
  | serverEof
  | idle
  | shutdown
  | classified (analyze : ℕ → Str → Analysis)
  | refreshed
  | unavailable
  | revoked (message : Str)
  | run
  | refuse (kind : RefusalKind) (message : Str)
  | streamFails

/-- The message of `LoginError::Unavailable`. -/
def unavailableMessage : Str := "the OneCLI gateway could not check this login right now; retry shortly".toList

namespace State

/-- The session ends. -/
def close (s : State) : State := { s with phase := .closed }

/-- The client is sent replies. -/
def reply (s : State) (replies : List Reply) : State := { s with toClient := s.toClient ++ replies }

/-- The server is sent frames of the client. -/
def send (s : State) (frames : List Frame) : State := { s with toServer := s.toServer ++ frames }

/-- `say_goodbye`; the server gets a `Terminate` of the gateway's own. -/
def sayGoodbye (s : State) (sqlstate message : String) : State :=
  (s.reply [.error "FATAL".toList sqlstate.toList message.toList]).close

/-- `refuse`, up to the wait for the client's `Sync`. -/
def refuse (s : State) (synced : Bool) (sqlstate message : Str) : State :=
  let error := Reply.error "ERROR".toList sqlstate message
  if synced then { s.reply [error, .ready s.status] with phase := .reading .empty }
  else { s.reply [error] with phase := .discarding }

/-- A frame of the client while a unit is read. -/
def readUnit (s : State) (unit : UnitBuffer) (frame : Frame) : State :=
  match unit.push frame with
  | none => s.close
  | some (unit, false) => { s with phase := .reading unit }
  | some (unit, true) =>
    if frame.Is 'X' then (s.send unit.frames).close
    else { s with phase := .classifying unit.frames }

/-- `run_unit` after the verdict `Run`; `none` where the bookkeeping panics. -/
def runUnit (s : State) (unit : Judged) : Option State := do
  let names ← s.names.send unit.sent
  return { s.send unit.frames with
    names := names
    phase := if unit.synced then .relaying [] else .reading .empty }

/-- A frame of the server in `relay_until_ready`. -/
def relay (s : State) (batch : List Frame) (frame : Frame) (hasFrame : Bool) : State :=
  let relayed := (batch ++ [frame]).map Reply.relayed
  if frame.Is 'G' then { s.reply relayed with phase := .copying }
  else if frame.Is 'Z' then
    match frame.body.head?.bind TxStatus.fromByte with
    | none => s.close
    | some status => { s.reply relayed with status := status, phase := .reading .empty }
  else if 256 ≤ (batch ++ [frame]).length ∨ hasFrame = false then
    { s.reply relayed with phase := .relaying [] }
  else { s with phase := .relaying (batch ++ [frame]) }

/-- A frame of the client in `relay_copy_in`. -/
def copy (s : State) (frame : Frame) : State :=
  if frame.Is 'c' ∨ frame.Is 'f' then { s.send [frame] with phase := .relaying [] }
  else if frame.Is 'd' ∨ frame.Is 'H' ∨ frame.Is 'S' then s.send [frame]
  else s.close

end State

/-- One step; `none` where the session does not wait for that, or panics. -/
def step (s : State) (event : Event) : Option State :=
  match s.phase, event with
  | .reading unit, .client frame => some (s.readUnit unit frame)
  | .reading _, .server frame _ =>
    (s.names.observe frame.tag frame.body).map fun names =>
      { s.reply [.relayed frame] with names := names }
  | .reading unit, .idle =>
    if unit.frames = [] then
      some (s.sayGoodbye "57P05" "the session was idle for too long and OneCLI closed it")
    else none
  | .reading unit, .shutdown =>
    if unit.frames = [] then
      some (s.sayGoodbye "57P01" "the OneCLI gateway is restarting; reconnect")
    else none
  | .classifying frames, .classified analyze => some { s with phase := .refreshing (judge analyze frames s.names) }
  | .refreshing unit, .refreshed => some { s with phase := .judging unit }
  | .refreshing unit, .unavailable => some (s.refuse unit.synced "57P03".toList unavailableMessage)
  | .refreshing _, .revoked message => some (s.reply [.error "FATAL".toList "28000".toList message]).close
  | .judging unit, .run => s.runUnit unit
  | .judging unit, .refuse kind message => some (s.refuse unit.synced kind.sqlstate message)
  | .relaying batch, .server frame hasFrame =>
    (s.names.observe frame.tag frame.body).map fun names =>
      { s with names := names }.relay batch frame hasFrame
  | .copying, .client frame => some (s.copy frame)
  | .discarding, .client frame =>
    if frame.Is 'S' then some { s.reply [.ready s.status] with phase := .reading .empty }
    else some s
  | .reading _, .clientEof => some s.close
  | .copying, .clientEof => some s.close
  | .discarding, .clientEof => some s.close
  | .reading _, .serverEof => some s.close
  | .relaying _, .serverEof => some s.close
  | .closed, _ => none
  | _, .streamFails => some s.close
  | _, _ => none

end Onecli.Postgres.Session
