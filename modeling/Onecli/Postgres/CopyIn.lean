import Onecli.Postgres.Session

/-!
# Who speaks during a `COPY`

The session between its client and its server, with the frames on their way. The server runs what
it reads in order; a `COPY ... FROM STDIN` makes it read data, and a `Sync` that it comes to then is
ignored. `relay_until_ready` reads only the server until its `ReadyForQuery`, and hands the client
the word for one `COPY` up to its `CopyDone` or `CopyFail`. A unit that starts a `COPY` by an
`Execute` was sent with its `Sync`, so the server ignores that one, and the `Sync` that the client
sends after its data stays unread: the session waits for an answer to it.
-/

namespace Onecli.Postgres.CopyIn

open Gateway (Str)
open Session (Phase State Event Reply)
open List Option Runs

/-- What the server does with the next frame that it reads. -/
inductive Mode where
  | ready
  /-- It runs a simple query, and reads nothing. -/
  | query
  /-- It reads the data of a `COPY`, started by a simple query or by an `Execute`. -/
  | copyIn (simple : Bool)
  /-- After an error in the extended protocol it skips to a `Sync`. -/
  | skipping
  deriving DecidableEq

/-- A frame on its way to the server. -/
structure Sending where
  frame : Frame
  /-- It was sent with a unit, not as part of a `COPY`. -/
  ofUnit : Bool
  deriving DecidableEq

/-- The database server. -/
structure Server where
  mode : Mode
  inbox : List Sending
  outbox : List Frame

/-- A message that neither ends a batch nor starts a `COPY`. -/
def plain (frame : Frame) : Bool := !decide (frame.Is 'Z' ∨ frame.Is 'G')

/-- How the server takes a frame. -/
inductive Reaction where
  | answered (answers : List Frame)
  | failed (answers : List Frame) (body : List UInt8)
  | copies (answers : List Frame) (body : List UInt8)
  /-- `ReadyForQuery`. -/
  | readied (status : UInt8)

/-- After an error: a simple query ends, and the extended protocol skips to a `Sync`. -/
def Mode.afterError (simple : Bool) : Mode := if simple then .query else .skipping

/-- The frame of an error. -/
def errorFrame (body : List UInt8) : Frame := ⟨byte 'E', body⟩

/-- The mode after a frame, and what the server answers; `none` where it does not react so. -/
def Mode.read (mode : Mode) (frame : Frame) (reaction : Reaction) : Option (Mode × List Frame) :=
  match mode, reaction with
  | .query, _ => none
  | .ready, .readied status => if frame.Is 'S' then some (.ready, [⟨byte 'Z', [status]⟩]) else none
  | .ready, .answered answers =>
    if frame.Is 'S' ∨ ¬ answers.all plain then none
    else if frame.Is 'Q' then if answers = [] then some (.query, []) else none
    else some (.ready, answers)
  | .ready, .failed answers body =>
    if frame.Is 'S' ∨ frame.Is 'Q' ∨ ¬ answers.all plain then none
    else some (.skipping, answers ++ [errorFrame body])
  | .ready, .copies answers body =>
    if frame.Is 'E' ∧ answers.all plain then some (.copyIn false, answers ++ [⟨byte 'G', body⟩])
    else none
  | .copyIn simple, .answered answers =>
    if frame.Is 'd' ∨ frame.Is 'H' ∨ frame.Is 'S' then
      if answers = [] then some (.copyIn simple, []) else none
    else if frame.Is 'c' ∧ answers.all plain then some (if simple then .query else .ready, answers)
    else none
  | .copyIn simple, .failed answers body =>
    if frame.Is 'H' ∨ frame.Is 'S' ∨ ¬ answers.all plain then none
    else some (.afterError simple, answers ++ [errorFrame body])
  | .skipping, .readied status => if frame.Is 'S' then some (.ready, [⟨byte 'Z', [status]⟩]) else none
  | .skipping, .answered answers => if frame.Is 'S' ∨ answers ≠ [] then none else some (.skipping, [])
  | _, _ => none

/-- What the server does. -/
inductive ServerMove where
  /-- It reads a frame. -/
  | read (reaction : Reaction)
  /-- A result of the running query, a notice, or any other message that it may send at any time. -/
  | say (frame : Frame)
  /-- The running query starts a `COPY ... FROM STDIN`. -/
  | copies (body : List UInt8)
  /-- The running query ends. -/
  | finishes (status : UInt8)
  /-- A `COPY` fails between two frames. -/
  | fails (body : List UInt8)

/-- One move of the server. -/
def Server.move (server : Server) : ServerMove → Option Server
  | .read reaction =>
    match server.inbox with
    | [] => none
    | sending :: inbox => (server.mode.read sending.frame reaction).map fun (mode, answers) =>
      ⟨mode, inbox, server.outbox ++ answers⟩
  | .say frame => if plain frame then some { server with outbox := server.outbox ++ [frame] } else none
  | .copies body =>
    if server.mode = .query then
      some { server with mode := .copyIn true, outbox := server.outbox ++ [⟨byte 'G', body⟩] }
    else none
  | .finishes status =>
    if server.mode = .query then
      some { server with mode := .ready, outbox := server.outbox ++ [⟨byte 'Z', [status]⟩] }
    else none
  | .fails body =>
    match server.mode with
    | .copyIn simple =>
      some { server with
        mode := .afterError simple
        outbox := server.outbox ++ [errorFrame body] }
    | _ => none

/-- The session between its client and its server. -/
structure System where
  session : State
  server : Server
  /-- The frames that the client sent and the session has not read. -/
  unread : List Frame
  /-- How many `CopyDone` and `CopyFail` the client has sent. -/
  ended : ℕ

/-- A system at its start. -/
def System.init : System := ⟨.init, ⟨.ready, [], []⟩, [], 0⟩

/-- What happens next. -/
inductive Move where
  | client (frame : Frame)
  | session (event : Event)
  | server (move : ServerMove)

/-- The first of some frames, taken off them. -/
def takeFirst (frame : Frame) (frames : List Frame) : Option (List Frame) :=
  match frames with
  | [] => none
  | first :: rest => if first = frame then some rest else none

/-- A frame that carries or ends the data of a `COPY`. -/
def isCopy (frame : Frame) : Prop := frame.Is 'd' ∨ frame.Is 'c' ∨ frame.Is 'f'

instance (frame : Frame) : Decidable (isCopy frame) :=
  inferInstanceAs (Decidable (frame.Is 'd' ∨ frame.Is 'c' ∨ frame.Is 'f'))

/-- The client was asked for the data of this many `COPY`s. -/
def asked (replies : List Reply) : ℕ :=
  (replies.filter fun
    | .relayed frame => decide (frame.Is 'G')
    | _ => false).length

/-- The verdict `Run` is given to units that are not refused outright. -/
def mayHappen (phase : Phase) : Event → Bool
  | .run =>
    match phase with
    | .judging unit => !decide unit.classified.Refused
    | _ => true
  | _ => true

/-- The frames that the client has yet to be read of, after an event of the session. -/
def unreadAfter (unread : List Frame) : Event → Option (List Frame)
  | .client frame => takeFirst frame unread
  | _ => some unread

/-- The answers that are yet to be read of the server, after an event of the session. -/
def outboxAfter (outbox : List Frame) : Event → Option (List Frame)
  | .server frame hasFrame => (takeFirst frame outbox).filter fun rest => !hasFrame || !rest.isEmpty
  | _ => some outbox

/-- The event sends a unit. -/
def sendsUnit : Event → Bool
  | .run => true
  | _ => false

/-- One event of the session. What it writes is on its way to the server. -/
def System.event (s : System) (event : Event) : Option System := do
  if mayHappen s.session.phase event then
    let unread ← unreadAfter s.unread event
    let outbox ← outboxAfter s.server.outbox event
    let session ← Session.step s.session event
    let written := session.toServer.drop s.session.toServer.length
    return { s with
      session := session
      server := ⟨s.server.mode, s.server.inbox ++ written.map (⟨·, sendsUnit event⟩), outbox⟩
      unread := unread }
  else none

/-- One step. The client sends data only for a `COPY` that it was asked for and has not ended. -/
def System.step (s : System) : Move → Option System
  | .client frame =>
    if isCopy frame ∧ asked s.session.toClient ≤ s.ended then none
    else some { s with
      unread := s.unread ++ [frame]
      ended := if frame.Is 'c' ∨ frame.Is 'f' then s.ended + 1 else s.ended }
  | .session event => s.event event
  | .server move => (s.server.move move).map fun server => { s with server := server }

/-- The session reads only the server. -/
def readsServer : Phase → Prop
  | .relaying _ => True
  | _ => False

instance (phase : Phase) : Decidable (readsServer phase) := by
  unfold readsServer
  cases phase <;> infer_instance

/-- The server has nothing left to answer and waits for a frame. -/
def Server.Waits (server : Server) : Prop := server.mode ≠ .query ∧ server.inbox = [] ∧ server.outbox = []

/-- The session reads only the server, and the server waits for a frame that the client has
sent. -/
def System.Wedged (s : System) : Prop := readsServer s.session.phase ∧ s.server.Waits ∧ s.unread ≠ []

/-- A frame that asks for `ReadyForQuery` gets none: a `Sync` in a `COPY`, or a simple query in
the `COPY` of an `Execute` or after an error in the extended protocol. -/
def Mode.Ignores (mode : Mode) (frame : Frame) : Prop :=
  match mode with
  | .copyIn simple => frame.Is 'S' ∨ (simple = false ∧ frame.Is 'Q')
  | .skipping => frame.Is 'Q'
  | _ => False

instance (mode : Mode) (frame : Frame) : Decidable (mode.Ignores frame) := by
  unfold Mode.Ignores
  cases mode <;> infer_instance

/-- The server reads a frame of a unit that asks for `ReadyForQuery`, and gives none. -/
def Server.Swallows (server : Server) : ServerMove → Prop
  | .read _ =>
    match server.inbox with
    | [] => False
    | sending :: _ => sending.ofUnit = true ∧ server.mode.Ignores sending.frame
  | _ => False

/-- The server swallows what asks for `ReadyForQuery`. -/
def System.Swallows (s : System) : Move → Prop
  | .server act => s.server.Swallows act
  | _ => False

instance (s : System) (move : Move) : Decidable (s.Swallows move) := by
  unfold System.Swallows Server.Swallows
  cases move with
  | server act =>
    cases act with
    | read => dsimp only; split <;> infer_instance
    | _ => infer_instance
  | _ => infer_instance

/-- The session neither waits for the server, nor reads a `COPY`, nor has a unit judged. -/
def Rests : Phase → Prop
  | .refreshing _ => False
  | .judging _ => False
  | .relaying _ => False
  | .copying => False
  | _ => True

/-- How a step of the session comes to wait for the server, to read a `COPY` or to judge. -/
inductive Turns (s : State) (e : Event) (s' : State) : Prop
  | rests (h : Rests s'.phase)
  | judges {analyze : ℕ → Str → Analysis} {frames : List Frame}
      (hphase : s'.phase = .refreshing (judge analyze frames s.names))
  | refreshes {unit : Judged} (hbefore : s.phase = .refreshing unit) (hphase : s'.phase = .judging unit)
  | runs {unit : Judged} (hbefore : s.phase = .judging unit) (he : e = .run)
      (hsynced : unit.synced = true) (hphase : s'.phase = .relaying [])
      (hwritten : s'.toServer = s.toServer ++ unit.frames)
  | relays {batch batch' : List Frame} {frame : Frame} {hasFrame : Bool}
      (hbefore : s.phase = .relaying batch) (he : e = .server frame hasFrame) (hcopy : ¬ frame.Is 'G')
      (hready : ¬ frame.Is 'Z') (hphase : s'.phase = .relaying batch')
  | opens {batch : List Frame} {frame : Frame} {hasFrame : Bool}
      (hbefore : s.phase = .relaying batch) (he : e = .server frame hasFrame) (hcopy : frame.Is 'G')
      (hphase : s'.phase = .copying)
  | copies {frame : Frame} (hbefore : s.phase = .copying) (he : e = .client frame)
      (hphase : s'.phase = .copying)
  | ends {frame : Frame} (hbefore : s.phase = .copying) (he : e = .client frame)
      (hends : frame.Is 'c' ∨ frame.Is 'f') (hphase : s'.phase = .relaying [])
      (hwritten : s'.toServer = s.toServer ++ [frame])

section Session

variable {s s' : State} {e : Event}

theorem turns_readUnit (unit : UnitBuffer) (frame : Frame) : Turns s e (s.readUnit unit frame) := by
  unfold State.readUnit
  split
  · exact .rests trivial
  · exact .rests trivial
  · split <;> exact .rests trivial

theorem turns_refuse (synced : Bool) (sqlstate message : Str) :
    Turns s e (s.refuse synced sqlstate message) := by
  cases synced with
  | true | false => exact .rests trivial

variable {frame : Frame}

theorem turns_relay {batch : List Frame} {hasFrame : Bool} (names : Names) (hphase : s.phase = .relaying batch)
    (he : e = .server frame hasFrame) : Turns s e ({ s with names := names }.relay batch frame hasFrame) := by
  unfold State.relay
  by_cases hcopy : frame.Is 'G'
  · simp only [if_pos hcopy]
    exact .opens hphase he hcopy rfl
  simp only [if_neg hcopy]
  by_cases hready : frame.Is 'Z'
  · simp only [if_pos hready]
    split <;> exact .rests trivial
  simp only [if_neg hready]
  split <;> exact .relays hphase he hcopy hready rfl

theorem turns_copy (hphase : s.phase = .copying) (he : e = .client frame) : Turns s e (s.copy frame) := by
  unfold State.copy
  split
  · next hends => exact .ends hphase he hends rfl rfl
  · split
    · exact .copies hphase he hphase
    · exact .rests trivial

theorem step_turns (hstep : Session.step s e = some s') : Turns s e s' := by
  unfold Session.step at hstep
  split at hstep
  · next unit frame hphase =>
    cases hstep
    exact turns_readUnit unit frame
  · next unit frame hasFrame hphase =>
    obtain ⟨names, -, rfl⟩ := map_eq_some_iff.mp hstep
    have hrests : Rests s.phase := hphase ▸ trivial
    exact .rests hrests
  · obtain ⟨-, hstep⟩ := ite_none_right_eq_some.mp hstep
    cases hstep
    exact .rests trivial
  · obtain ⟨-, hstep⟩ := ite_none_right_eq_some.mp hstep
    cases hstep
    exact .rests trivial
  · next frames analyze hphase =>
    cases hstep
    exact .judges rfl
  · next unit hphase =>
    cases hstep
    exact .refreshes hphase rfl
  · cases hstep
    exact turns_refuse _ _ _
  · cases hstep
    exact .rests trivial
  · next unit hphase =>
    obtain ⟨names, -, hrun⟩ := bind_eq_some_iff.mp hstep
    cases hrun
    cases hsynced : unit.synced with
    | true => exact .runs hphase rfl hsynced rfl rfl
    | false => exact .rests trivial
  · cases hstep
    exact turns_refuse _ _ _
  · next batch frame hasFrame hphase =>
    obtain ⟨names, -, rfl⟩ := map_eq_some_iff.mp hstep
    exact turns_relay names hphase rfl
  · next frame hphase =>
    cases hstep
    exact turns_copy hphase rfl
  · next frame hphase =>
    split at hstep
    · cases hstep
      exact .rests trivial
    · cases hstep
      exact .rests (hphase ▸ trivial)
  · cases hstep
    exact .rests trivial
  · cases hstep
    exact .rests trivial
  · cases hstep
    exact .rests trivial
  · cases hstep
    exact .rests trivial
  · cases hstep
    exact .rests trivial
  · cases hstep
  · cases hstep
    exact .rests trivial
  · cases hstep

/-- A frame that `ReadyForQuery` answers. -/
def AsksReady (frame : Frame) : Prop := frame.Is 'S' ∨ frame.Is 'Q'

theorem judgeMessage_synced (analyze : Str → Analysis) (alone : Bool) (j : Judging) (hnot : ¬ AsksReady frame) :
    (judgeMessage analyze alone j frame).1.synced = j.synced := by
  have hQ : ¬ frame.Is 'Q' := fun h => hnot (.inr h)
  have hS : ¬ frame.Is 'S' := fun h => hnot (.inl h)
  unfold judgeMessage
  simp only [if_neg hQ, if_neg hS]
  repeat' split
  all_goals rfl

theorem judge_synced {analyze : ℕ → Str → Analysis} {frames : List Frame} {names : Names}
    (h : (judge analyze frames names).synced = true) :
    ∃ frame ∈ (judge analyze frames names).frames, AsksReady frame := by
  by_contra hnone
  have hfold (alone : Bool) (later : List (Frame × ℕ)) (hlater : ∀ frame ∈ later, frame.1 ∈ frames)
      (j : Judging) : (later.foldl (judgeStep analyze alone) j).synced = j.synced := by
    induction later generalizing j with
    | nil => rfl
    | cons frame later ih =>
      obtain ⟨hframe, hrest⟩ := forall_mem_cons.mp hlater
      rw [foldl_cons, ih hrest]
      exact judgeMessage_synced _ alone j fun hasks => hnone ⟨frame.1, hframe, hasks⟩
  have hsynced := hfold (frames.length == 1) frames.zipIdx
    (fun frame hframe => fst_mem_of_mem_zipIdx hframe) ⟨.new names, .housekeeping, [], false⟩
  exact Bool.false_ne_true (hsynced.symm.trans h)

end Session

section Serving

variable {server server' : Server} {act : ServerMove} {s s' : System}

/-- `ReadyForQuery` is on its way, or the server comes to it with what it has read or is to read. -/
def Server.Due (server : Server) : Prop :=
  (∃ frame ∈ server.outbox, frame.Is 'Z') ∨ server.mode = .query ∨
    ∃ sending ∈ server.inbox, sending.ofUnit = true ∧ AsksReady sending.frame

/-- The server reads the data of a simple query, and the session is to learn of that or has been
through it. -/
def Server.Fed (server : Server) : Prop :=
  server.mode = .copyIn true ∧ ((∃ frame ∈ server.outbox, frame.Is 'G') ∨
    ∃ sending ∈ server.inbox, sending.frame.Is 'c' ∨ sending.frame.Is 'f')

variable {frame : Frame} {reaction : Reaction}

theorem not_is_of_is {c c' : Char} (h : frame.Is c) (hne : byte c ≠ byte c') :
    ¬ frame.Is c' :=
  fun h' => hne (h.symm.trans h')

/-- A frame that asks for `ReadyForQuery` gets it, or starts the query that ends with it. -/
theorem Mode.read_asksReady {mode mode' : Mode} {answers : List Frame}
    (hread : mode.read frame reaction = some (mode', answers)) (hasks : AsksReady frame)
    (hignores : ¬ mode.Ignores frame) : (∃ answer ∈ answers, answer.Is 'Z') ∨ mode' = .query := by
  have hS {P : Prop} (hno : ¬ AsksReady frame) : P := absurd hasks hno
  unfold Mode.read at hread
  split at hread
  · cases hread
  · split at hread
    · cases hread
      exact .inl ⟨_, mem_singleton_self _, rfl⟩
    · cases hread
  · next replies =>
    by_cases hsync : frame.Is 'S' ∨ ¬ replies.all plain
    · rw [if_pos hsync] at hread
      cases hread
    · rw [if_neg hsync] at hread
      have hQ : frame.Is 'Q' := hasks.resolve_left fun h => hsync (.inl h)
      rw [if_pos hQ] at hread
      split at hread
      · cases hread
        exact .inr rfl
      · cases hread
  · next replies body =>
    have hrefused : frame.Is 'S' ∨ frame.Is 'Q' ∨ ¬ replies.all plain := hasks.elim .inl fun h => .inr (.inl h)
    rw [if_pos hrefused] at hread
    cases hread
  · next replies body =>
    split at hread
    · next hexecute =>
      refine hS fun h => ?_
      cases h with
      | inl h | inr h => exact not_is_of_is hexecute.1 (by decide) h
    · cases hread
  · next simple replies =>
    have hQ : frame.Is 'Q' := hasks.resolve_left fun h => hignores (.inl h)
    have hdata : ¬ (frame.Is 'd' ∨ frame.Is 'H' ∨ frame.Is 'S') := fun h => by
      rcases h with h | h | h <;> exact not_is_of_is hQ (by decide) h
    have hdone : ¬ (frame.Is 'c' ∧ replies.all plain) := fun h => not_is_of_is hQ (by decide) h.1
    rw [if_neg hdata, if_neg hdone] at hread
    cases hread
  · next simple replies body =>
    have hQ : frame.Is 'Q' := hasks.resolve_left fun h => hignores (.inl h)
    have hsimple : simple = true := by
      cases simple with
      | true => rfl
      | false => exact absurd (.inr ⟨rfl, hQ⟩) hignores
    split at hread
    · cases hread
    · cases hread
      rw [hsimple]
      exact .inr rfl
  · split at hread
    · cases hread
      exact .inl ⟨_, mem_singleton_self _, rfl⟩
    · cases hread
  · next replies =>
    have hsync : frame.Is 'S' := hasks.resolve_right hignores
    rw [if_pos (.inl hsync)] at hread
    cases hread
  · cases hread

theorem Mode.read_copyIn {mode' : Mode} {answers : List Frame}
    (hread : (Mode.copyIn true).read frame reaction = some (mode', answers)) :
    mode' = .query ∨ (mode' = .copyIn true ∧ ¬ (frame.Is 'c' ∨ frame.Is 'f')) := by
  unfold Mode.read at hread
  cases reaction with
  | readied | copies => cases hread
  | failed =>
    dsimp only at hread
    split at hread
    · cases hread
    · cases hread
      exact .inl rfl
  | answered =>
    dsimp only at hread
    split at hread
    · next hdata =>
      split at hread
      · cases hread
        refine .inr ⟨rfl, fun h => ?_⟩
        rcases h with h | h <;> (rcases hdata with h' | h' | h' <;> exact not_is_of_is h (by decide) h')
      · cases hread
    · split at hread
      · cases hread
        exact .inl rfl
      · cases hread

theorem Server.move_read (hmove : server.move (.read reaction) = some server') :
    ∃ sending inbox answers, server.inbox = sending :: inbox ∧
      server.mode.read sending.frame reaction = some (server'.mode, answers) ∧
      server'.inbox = inbox ∧ server'.outbox = server.outbox ++ answers := by
  unfold Server.move at hmove
  cases hinbox : server.inbox with
  | nil =>
    rw [hinbox] at hmove
    cases hmove
  | cons sending inbox =>
    rw [hinbox] at hmove
    obtain ⟨read, hread, rfl⟩ := map_eq_some_iff.mp hmove
    exact ⟨sending, inbox, read.2, rfl, hread, rfl, rfl⟩

theorem Server.move_fails {body : List UInt8} (hmove : server.move (.fails body) = some server') :
    ∃ simple, server.mode = .copyIn simple ∧
      server' = { server with
        mode := .afterError simple
        outbox := server.outbox ++ [errorFrame body] } := by
  unfold Server.move at hmove
  cases hmode : server.mode with
  | copyIn simple =>
    rw [hmode] at hmove
    cases hmove
    exact ⟨simple, rfl, rfl⟩
  | _ =>
    rw [hmode] at hmove
    cases hmove

/-- The server comes to its `ReadyForQuery`, or starts the `COPY` of a simple query on its way
there. -/
theorem Server.Due.move (h : server.Due) (hswallows : ¬ server.Swallows act)
    (hmove : server.move act = some server') : server'.Due ∨ server'.Fed := by
  cases act with
  | read =>
    obtain ⟨sending, inbox, answers, hinbox, hread, hinbox', houtbox'⟩ := Server.move_read hmove
    rcases h with ⟨frame, hframe, hz⟩ | hquery | ⟨asking, hasking, hunit, hasks⟩
    · refine .inl (.inl ⟨frame, ?_, hz⟩)
      rw [houtbox']
      exact mem_append_left _ hframe
    · rw [hquery] at hread
      cases hread
    · rw [hinbox] at hasking
      rcases mem_cons.mp hasking with rfl | hlater
      · have hignores : ¬ server.mode.Ignores asking.frame := by
          intro hignores
          apply hswallows
          simp only [Server.Swallows, hinbox]
          exact ⟨hunit, hignores⟩
        rcases Mode.read_asksReady hread hasks hignores with ⟨answer, hanswer, hz⟩ | hquery
        · refine .inl (.inl ⟨answer, ?_, hz⟩)
          rw [houtbox']
          exact mem_append_right _ hanswer
        · exact .inl (.inr (.inl hquery))
      · refine .inl (.inr (.inr ⟨asking, ?_, hunit, hasks⟩))
        rw [hinbox']
        exact hlater
  | say =>
    obtain ⟨-, hdone⟩ := ite_none_right_eq_some.mp hmove
    cases hdone
    rcases h with ⟨first, hfirst, hz⟩ | hlater
    · exact .inl (.inl ⟨first, mem_append_left _ hfirst, hz⟩)
    · exact .inl (.inr hlater)
  | copies =>
    obtain ⟨-, hdone⟩ := ite_none_right_eq_some.mp hmove
    cases hdone
    exact .inr ⟨rfl, .inl ⟨_, mem_append_right _ (mem_singleton_self _), rfl⟩⟩
  | finishes =>
    obtain ⟨-, hdone⟩ := ite_none_right_eq_some.mp hmove
    cases hdone
    exact .inl (.inl ⟨_, mem_append_right _ (mem_singleton_self _), rfl⟩)
  | fails =>
    obtain ⟨simple, hmode, rfl⟩ := Server.move_fails hmove
    rcases h with ⟨first, hfirst, hz⟩ | hquery | hlater
    · exact .inl (.inl ⟨first, mem_append_left _ hfirst, hz⟩)
    · cases hquery.symm.trans hmode
    · exact .inl (.inr (.inr hlater))

/-- The server stays in the data of a simple query, with what the session is to learn or has been
through, or goes on with the query. -/
theorem Server.move_copyIn (hmode : server.mode = .copyIn true)
    (hmove : server.move act = some server') :
    server'.mode = .query ∨ (server'.mode = .copyIn true ∧ (server.Fed → server'.Fed)) := by
  cases act with
  | read =>
    obtain ⟨sending, inbox, answers, hinbox, hread, hinbox', houtbox'⟩ := Server.move_read hmove
    rw [hmode] at hread
    rcases Mode.read_copyIn hread with hquery | ⟨hstays, hends⟩
    · exact .inl hquery
    · refine .inr ⟨hstays, fun hfed => ⟨hstays, ?_⟩⟩
      rcases hfed.2 with ⟨frame, hframe, hg⟩ | ⟨ending, hending, hcf⟩
      · refine .inl ⟨frame, ?_, hg⟩
        rw [houtbox']
        exact mem_append_left _ hframe
      · refine .inr ⟨ending, ?_, hcf⟩
        rw [hinbox] at hending
        rw [hinbox']
        rcases mem_cons.mp hending with rfl | hlater
        · exact absurd hcf hends
        · exact hlater
  | say =>
    obtain ⟨-, hdone⟩ := ite_none_right_eq_some.mp hmove
    cases hdone
    refine .inr ⟨hmode, fun hfed => ⟨hmode, ?_⟩⟩
    rcases hfed.2 with ⟨first, hfirst, hg⟩ | hending
    · exact .inl ⟨first, mem_append_left _ hfirst, hg⟩
    · exact .inr hending
  | fails =>
    obtain ⟨simple, hsimple, rfl⟩ := Server.move_fails hmove
    cases hmode.symm.trans hsimple
    exact .inl rfl
  | _ =>
    obtain ⟨hquery, -⟩ := ite_none_right_eq_some.mp hmove
    cases hmode.symm.trans hquery

theorem Server.Due.after (h : server.Due) {outbox : List Frame} (written : List Sending)
    (houtbox : ∀ frame ∈ server.outbox, frame.Is 'Z' → frame ∈ outbox) :
    Server.Due ⟨server.mode, server.inbox ++ written, outbox⟩ := by
  rcases h with ⟨frame, hframe, hz⟩ | hquery | ⟨sending, hsending, hasks⟩
  · exact .inl ⟨frame, houtbox frame hframe hz, hz⟩
  · exact .inr (.inl hquery)
  · exact .inr (.inr ⟨sending, mem_append_left _ hsending, hasks⟩)

/-- The session still is to learn of the `COPY`, or has been through it. -/
theorem Server.Fed.after (h : server.Fed) {outbox : List Frame} (written : List Sending)
    (houtbox : ∀ frame ∈ server.outbox, frame.Is 'G' → frame ∈ outbox) :
    Server.Fed ⟨server.mode, server.inbox ++ written, outbox⟩ := by
  refine ⟨h.1, ?_⟩
  rcases h.2 with ⟨frame, hframe, hg⟩ | ⟨sending, hsending, hends⟩
  · exact .inl ⟨frame, houtbox frame hframe hg, hg⟩
  · exact .inr ⟨sending, mem_append_left _ hsending, hends⟩

end Serving

section Runs

variable {s s' : System} {e : Event}

/-- What always holds of a system whose server swallows no frame that asks for `ReadyForQuery`. -/
structure Inv (s : System) : Prop where
  judged : ∀ unit, s.session.phase = .refreshing unit ∨ s.session.phase = .judging unit →
    unit.synced = true → ∃ frame ∈ unit.frames, AsksReady frame
  relaying : ∀ batch, s.session.phase = .relaying batch → s.server.Due ∨ s.server.Fed
  copying : s.session.phase = .copying → s.server.Due ∨ s.server.mode = .copyIn true

/-- A session that waits for its server is owed an answer, or reads the data of a `COPY`. -/
theorem Inv.not_wedged (h : Inv s) : ¬ s.Wedged := by
  intro hwedged
  obtain ⟨hreads, ⟨hmode, hinbox, houtbox⟩, -⟩ := hwedged
  have hnothing {B : Type} {xs : List B} {x : B} (hxs : xs = []) (hx : x ∈ xs) : False := by
    rw [hxs] at hx
    exact not_mem_nil hx
  cases hphase : s.session.phase with
  | relaying batch =>
    rcases h.relaying batch hphase with (⟨frame, hframe, -⟩ | hquery | ⟨sending, hsending, -⟩) | hfed
    · exact hnothing houtbox hframe
    · exact hmode hquery
    · exact hnothing hinbox hsending
    · rcases hfed.2 with ⟨frame, hframe, -⟩ | ⟨sending, hsending, -⟩
      · exact hnothing houtbox hframe
      · exact hnothing hinbox hsending
  | _ =>
    rw [hphase] at hreads
    exact hreads

theorem outboxAfter_server {outbox outbox' : List Frame} {frame : Frame} {hasFrame : Bool}
    (h : outboxAfter outbox (.server frame hasFrame) = some outbox') : outbox = frame :: outbox' := by
  obtain ⟨htake, -⟩ := filter_eq_some_iff.mp h
  cases outbox with
  | nil => cases htake
  | cons =>
    obtain ⟨hfirst, hrest⟩ := ite_none_right_eq_some.mp htake
    cases hrest
    rw [hfirst]

theorem System.event_spec (h : s.event e = some s') :
    ∃ outbox, outboxAfter s.server.outbox e = some outbox ∧ Session.step s.session e = some s'.session ∧
      s'.server = ⟨s.server.mode, s.server.inbox ++
        (s'.session.toServer.drop s.session.toServer.length).map (⟨·, sendsUnit e⟩), outbox⟩ := by
  obtain ⟨-, hstep⟩ := ite_none_right_eq_some.mp h
  obtain ⟨unread, -, hstep⟩ := bind_eq_some_iff.mp hstep
  obtain ⟨outbox, houtbox, hstep⟩ := bind_eq_some_iff.mp hstep
  obtain ⟨session, hsess, hdone⟩ := bind_eq_some_iff.mp hstep
  cases hdone
  exact ⟨outbox, houtbox, hsess, rfl⟩

theorem Inv.of_relaying {batch : List Frame} (hphase : s.session.phase = .relaying batch)
    (h : s.server.Due ∨ s.server.Fed) : Inv s where
  judged := fun unit hunit => by
    rcases hunit with hunit | hunit <;> cases hphase.symm.trans hunit
  relaying := fun _ _ => h
  copying := fun hcopying => by cases hphase.symm.trans hcopying

theorem Inv.of_copying (hphase : s.session.phase = .copying)
    (h : s.server.Due ∨ s.server.mode = .copyIn true) : Inv s where
  judged := fun unit hunit => by
    rcases hunit with hunit | hunit <;> cases hphase.symm.trans hunit
  relaying := fun batch hrelaying => by cases hphase.symm.trans hrelaying
  copying := fun _ => h

theorem Inv.of_judging {unit : Judged}
    (hphase : s.session.phase = .refreshing unit ∨ s.session.phase = .judging unit)
    (h : unit.synced = true → ∃ frame ∈ unit.frames, AsksReady frame) : Inv s := by
  refine ⟨fun unit' hunit => ?_, fun batch hrelaying => ?_, fun hcopying => ?_⟩
  · have hsame : unit' = unit := by
      rcases hphase with hphase | hphase
      · rcases hunit with hunit | hunit
        · exact Phase.refreshing.inj (hunit.symm.trans hphase)
        · cases hphase.symm.trans hunit
      · rcases hunit with hunit | hunit
        · cases hphase.symm.trans hunit
        · exact Phase.judging.inj (hunit.symm.trans hphase)
    rw [hsame]
    exact h
  · rcases hphase with hphase | hphase <;> cases hphase.symm.trans hrelaying
  · rcases hphase with hphase | hphase <;> cases hphase.symm.trans hcopying

theorem Inv.of_rests (h : Rests s.session.phase) : Inv s := by
  refine ⟨fun unit hunit => ?_, fun batch hrelaying => ?_, fun hcopying => ?_⟩
  · rcases hunit with hunit | hunit
    · rw [hunit] at h
      exact h.elim
    · rw [hunit] at h
      exact h.elim
  · rw [hrelaying] at h
    exact h.elim
  · rw [hcopying] at h
    exact h.elim

theorem Inv.event (h : Inv s) (hstep : s.event e = some s') : Inv s' := by
  obtain ⟨outbox, houtbox, hsess, hserver⟩ := System.event_spec hstep
  cases step_turns hsess with
  | rests hrests => exact .of_rests hrests
  | judges hphase => exact .of_judging (.inl hphase) judge_synced
  | refreshes hbefore hphase => exact .of_judging (.inr hphase) (h.judged _ (.inl hbefore))
  | @runs unit hbefore he hsynced hphase hwritten =>
    subst he
    cases houtbox
    obtain ⟨frame, hframe, hasks⟩ := h.judged unit (.inr hbefore) hsynced
    refine .of_relaying hphase (.inl (.inr (.inr ⟨⟨frame, true⟩, ?_, rfl, hasks⟩)))
    rw [hserver, hwritten, drop_left]
    exact mem_append_right _ (List.mem_map_of_mem hframe)
  | relays hbefore he hcopy hready hphase =>
    subst he
    have hbox := outboxAfter_server houtbox
    have hkeeps {c : Char} (frame : Frame) (hframe : frame ∈ s.server.outbox) (hc : frame.Is c)
        (hother : c = 'Z' ∨ c = 'G') : frame ∈ outbox := by
      rw [hbox] at hframe
      rcases mem_cons.mp hframe with rfl | hlater
      · rcases hother with rfl | rfl
        · exact absurd hc hready
        · exact absurd hc hcopy
      · exact hlater
    apply Inv.of_relaying hphase
    rw [hserver]
    rcases h.relaying _ hbefore with hdue | hfed
    · exact .inl (hdue.after _ fun frame hframe hz => hkeeps frame hframe hz (.inl rfl))
    · exact .inr (hfed.after _ fun frame hframe hg => hkeeps frame hframe hg (.inr rfl))
  | opens hbefore he hcopy hphase =>
    subst he
    have hbox := outboxAfter_server houtbox
    apply Inv.of_copying hphase
    rw [hserver]
    rcases h.relaying _ hbefore with hdue | hfed
    · refine .inl (hdue.after _ fun frame hframe hz => ?_)
      rw [hbox] at hframe
      rcases mem_cons.mp hframe with rfl | hlater
      · exact absurd hz (not_is_of_is hcopy (by decide))
      · exact hlater
    · exact .inr hfed.1
  | copies hbefore he hphase =>
    subst he
    cases houtbox
    apply Inv.of_copying hphase
    rw [hserver]
    exact (h.copying hbefore).imp (fun hdue => hdue.after _ fun _ hframe _ => hframe) id
  | @ends frame hbefore he hends hphase hwritten =>
    subst he
    cases houtbox
    apply Inv.of_relaying hphase
    rw [hserver]
    rcases h.copying hbefore with hdue | hmode
    · exact .inl (hdue.after _ fun _ hframe _ => hframe)
    · refine .inr ⟨hmode, .inr ⟨⟨frame, false⟩, ?_, hends⟩⟩
      rw [hwritten, drop_left]
      exact mem_append_right _ (mem_singleton_self _)

/-- A move that swallows no message keeps the copy in step. -/
theorem Inv.step (h : Inv s) {move : Move} (hswallows : ¬ s.Swallows move)
    (hstep : s.step move = some s') : Inv s' := by
  cases move with
  | client =>
    obtain ⟨-, hdone⟩ := ite_none_left_eq_some.mp hstep
    cases hdone
    exact ⟨h.judged, h.relaying, h.copying⟩
  | session => exact h.event hstep
  | server act =>
    obtain ⟨server, hmove, rfl⟩ := map_eq_some_iff.mp hstep
    have hkept : ¬ s.server.Swallows act := hswallows
    refine ⟨h.judged, fun batch hphase => ?_, fun hphase => ?_⟩
    · rcases h.relaying batch hphase with hdue | hfed
      · exact hdue.move hkept hmove
      · rcases Server.move_copyIn hfed.1 hmove with hquery | ⟨-, hstays⟩
        · exact .inl (.inr (.inl hquery))
        · exact .inr (hstays hfed)
    · rcases h.copying hphase with hdue | hmode
      · exact (hdue.move hkept hmove).imp id fun hfed => hfed.1
      · rcases Server.move_copyIn hmode hmove with hquery | ⟨hstays, -⟩
        · exact .inl (.inr (.inl hquery))
        · exact .inr hstays

/-- No copy is open. -/
theorem inv_init : Inv .init := .of_rests trivial

/-- In a run in which the server swallows no `Sync` and no simple query of a unit, the session is
never left to read only a server that waits for its client. -/
theorem never_wedges {moves : List Move}
    (hswallows : Runs.Meets System.step (fun s move => ¬ s.Swallows move) .init moves)
    (hrun : run System.step .init moves = some s) : ¬ s.Wedged :=
  (run_invariant_of_meets System.step (fun _ _ _ h hkept hstep => h.step hkept hstep)
    inv_init hswallows hrun).not_wedged

end Runs

section Examples

/-- The client asks for a `COPY` by an `Execute`, and the server takes its data. -/
def executeCopy : List Move :=
  let parse : Frame := ⟨byte 'P', 0 :: bytes "COPY t FROM STDIN" ++ [0, 0, 0]⟩
  let bind : Frame := ⟨byte 'B', [0, 0, 0, 0, 0, 0, 0, 0]⟩
  let execute : Frame := ⟨byte 'E', [0, 0, 0, 0, 0]⟩
  let sync : Frame := ⟨byte 'S', []⟩
  let row : Frame := ⟨byte 'd', bytes "1"⟩
  let done : Frame := ⟨byte 'c', []⟩
  [.client parse, .client bind, .client execute, .client sync, .session (.client parse),
    .session (.client bind), .session (.client execute), .session (.client sync),
    .session (.classified fun _ sql => ⟨.judged .write, sql, []⟩), .session .refreshed, .session .run,
    .server (.read (.answered [⟨byte '1', []⟩])), .server (.read (.answered [⟨byte '2', []⟩])),
    .server (.read (.copies [] [0, 0, 0])), .session (.server ⟨byte '1', []⟩ true),
    .session (.server ⟨byte '2', []⟩ true), .session (.server ⟨byte 'G', [0, 0, 0]⟩ false),
    .server (.read (.answered [])), .client row, .client done, .client sync, .session (.client row),
    .session (.client done), .server (.read (.answered [])), .server (.read (.answered [⟨byte 'C', bytes "COPY 1"⟩])),
    .session (.server ⟨byte 'C', bytes "COPY 1"⟩ false)]

/-- The server has ignored the `Sync` of the unit, and the client's own stays unread. -/
theorem not_never_wedges :
    ¬ ∀ moves s, run System.step .init moves = some s → ¬ s.Wedged := by
  intro hall
  have hrun : (run System.step .init executeCopy).map (fun s =>
      (decide (readsServer s.session.phase), s.server.mode, s.server.inbox, s.server.outbox, s.unread)) =
      some (true, .ready, [], [], [⟨byte 'S', []⟩]) := by decide +kernel
  obtain ⟨s, hs, hstate⟩ := Option.map_eq_some_iff.mp hrun
  obtain ⟨hreads, hstate⟩ := Prod.mk.inj hstate
  obtain ⟨hmode, hstate⟩ := Prod.mk.inj hstate
  obtain ⟨hinbox, hstate⟩ := Prod.mk.inj hstate
  obtain ⟨houtbox, hunread⟩ := Prod.mk.inj hstate
  refine hall executeCopy s hs ⟨of_decide_eq_true hreads, ⟨?_, hinbox, houtbox⟩, ?_⟩
  · rw [hmode]
    decide
  · rw [hunread]
    decide

/-- The client asks for a `COPY` by a simple query, and the server takes its data. -/
def queryCopy : List Move :=
  let query : Frame := ⟨byte 'Q', bytes "COPY t FROM STDIN" ++ [0]⟩
  let row : Frame := ⟨byte 'd', bytes "1"⟩
  let done : Frame := ⟨byte 'c', []⟩
  [.client query, .session (.client query),
    .session (.classified fun _ sql => ⟨.judged .write, sql, []⟩), .session .refreshed, .session .run,
    .server (.read (.answered [])), .server (.copies [0, 0, 0]),
    .session (.server ⟨byte 'G', [0, 0, 0]⟩ false), .client row, .client done, .session (.client row),
    .session (.client done), .client query, .server (.read (.answered []))]

/-- The session waits for the server to read the end of the data, and the client has gone on. -/
theorem never_wedges_queryCopy :
    ∃ s, run System.step .init queryCopy = some s ∧ s.unread ≠ [] ∧ ¬ s.Wedged := by
  have hunread : (run System.step .init queryCopy).map (fun s => s.unread.length) = some 1 := by
    decide +kernel
  obtain ⟨s, hs, hlength⟩ := Option.map_eq_some_iff.mp hunread
  have hswallows : Runs.Meets System.step (fun s move => ¬ s.Swallows move) .init queryCopy := by
    decide +kernel
  refine ⟨s, hs, fun hnone => ?_, never_wedges hswallows hs⟩
  rw [hnone] at hlength
  cases hlength

end Examples

end Onecli.Postgres.CopyIn
