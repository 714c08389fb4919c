import Onecli.Postgres.Coverage

/-!
# The tracked statements and the server

The gateway of a session and its database server, with the messages and the answers in flight
between them. The server runs the messages in order and confirms each change; after an error it
skips up to the next `Sync`, or the rest of a simple query. The gateway waits for `ReadyForQuery`
after a unit that asks for it, and judges no other unit before.

An error takes back the statements that it kept the server from preparing, but not the unnamed
portal; and a name with changes that were never answered keeps only one of the statements that it
may run by name. Where neither matters, everything the server runs was judged at least as strictly.
-/

namespace Onecli.Postgres.Tracking

open Function (update)
open Gateway (Str)
open List Option Bool Runs

/-- A message of the server that confirms no change, and is neither an error nor the end of the
batch. -/
def neutral (answer : Frame) : Bool :=
  !(answer.Is '1' || answer.Is '3' || answer.Is 'E' || answer.Is 'Z') &&
    !(answer.Is 'C' && [bytes "PREPARE", bytes "DEALLOCATE", bytes "DEALLOCATE ALL",
      bytes "DISCARD ALL"].contains (Names.commandTag answer.tag answer.body))

/-- The server answers a change with its confirmation, and anything else with a message that
confirms nothing, if at all. -/
def answeredBy (message : Message) (answer : Option Frame) : Bool :=
  match message.change, answer with
  | some (change, via), some answer => change.confirmedBy via answer.tag (Names.commandTag answer.tag answer.body)
  | some _, none => false
  | none, some answer => neutral answer
  | none, none => true

/-- What the server skips after an error. -/
inductive Skipping where
  | untilSync
  | restOfQuery
  deriving DecidableEq

/-- The message up to which the server skips. -/
def Skipping.endsAt : Skipping → Message → Bool
  | .untilSync, message => decide (message = .sync)
  | .restOfQuery, message => decide (message = .queryEnd)

/-- The database server of a session. -/
structure Server where
  statements : Statements
  /-- The statement that each portal was bound to. -/
  portals : Key → Option Prepared
  skipping : Option Skipping

namespace Server

/-- What the server runs for a message. A portal of a statement that runs no other runs only what
its `Bind` was judged for, and is charged to that. -/
def starts (server : Server) : Message → Option Prepared
  | .bind _ statement => server.statements (key statement)
  | .execute portal => (server.portals (key portal)).filter fun prepared => prepared.executes.isSome
  | .executeName name => server.statements (key name)
  | _ => none

/-- The server runs a message; `none` where that can only fail. -/
def perform (server : Server) : Message → Option Server
  | .bind portal statement => (server.statements (key statement)).map fun prepared =>
    { server with portals := update server.portals (key portal) (some prepared) }
  | .execute portal => if (server.portals (key portal)).isSome then some server else none
  | .executeName name => if (server.statements (key name)).isSome then some server else none
  | .closePortal name => some { server with portals := update server.portals (key name) none }
  | message => some { server with
    statements := (message.change.elim id fun c => c.1.effect) server.statements }

end Server

/-- The gateway and the server, and what is in flight between them. -/
structure World where
  names : Names
  /-- The unit sent last asks for `ReadyForQuery`, which has not arrived. -/
  waiting : Bool
  /-- The messages that the server has not come to, with the verdict of their unit. -/
  queue : List (Message × Classified)
  /-- The answers that the gateway has not read. -/
  answers : List Frame
  server : Server
  /-- The server has skipped a `Bind` of the unnamed portal in this batch. -/
  missedBind : Bool

/-- A session at its start. -/
def World.init : World := ⟨.default, false, [], [], ⟨fun _ => none, fun _ => none, none⟩, false⟩

/-- The frames are collected to one unit. -/
def collects (unit : UnitBuffer) : List Frame → Bool
  | [] => false
  | frame :: frames =>
    match unit.push frame with
    | none => false
    | some (_, true) => frames.isEmpty
    | some (unit, false) => collects unit frames

/-- What happens next. -/
inductive Event where
  /-- A unit is judged, and sent when it is admitted. -/
  | unit (analyze : ℕ → Str → Analysis) (frames : List Frame) (admitted : Bool)
  /-- The server runs its next message. -/
  | run (answer : Option Frame)
  /-- The server's next message fails. -/
  | fail (body : List UInt8)
  /-- The server skips its next message. -/
  | skip
  /-- The server comes to the end of the batch. -/
  | ready (status : UInt8)
  /-- The server says something that confirms nothing. -/
  | chatter (answer : Frame)
  /-- A portal ends, as with its transaction. -/
  | portalEnds (name : Key)
  /-- The gateway reads the server's next answer. -/
  | observe

namespace World

/-- A unit is judged; a refused one leaves everything as it was. -/
def unit (w : World) (analyze : ℕ → Str → Analysis) (frames : List Frame) (admitted : Bool) :
    Option World :=
  if w.waiting = true ∨ collects .empty frames = false then none
  else if admitted = false then some w
  else
    let unit := judge analyze frames w.names
    if unit.classified.Refused then none
    else (w.names.send unit.sent).map fun names => { w with
      names := names
      waiting := unit.synced
      queue := w.queue ++ (Message.ofFrames analyze frames).map (·, unit.classified) }

/-- The server runs a message. -/
def run (w : World) (answer : Option Frame) : Option World :=
  match w.queue, w.server.skipping with
  | (message, _) :: rest, none =>
    if message.isEnd = true ∨ answeredBy message answer = false then none
    else (w.server.perform message).map fun server =>
      { w with server := server, queue := rest, answers := w.answers ++ answer.toList }
  | _, _ => none

/-- A message fails. -/
def fail (w : World) (body : List UInt8) : Option World :=
  match w.queue, w.server.skipping with
  | (message, _) :: _, none =>
    let skipping := if message.inQuery then Skipping.restOfQuery else .untilSync
    some { w with
      server := { w.server with skipping := some skipping }
      answers := w.answers ++ [⟨byte 'E', body⟩] }
  | _, _ => none

/-- The server skips a message. -/
def skip (w : World) : Option World :=
  match w.queue, w.server.skipping with
  | (message, _) :: rest, some skipping =>
    if skipping.endsAt message then none
    else some { w with queue := rest, missedBind := w.missedBind || message.bindsUnnamed }
  | _, _ => none

/-- The batch ends; a transaction that ends with it takes its portals along. -/
def ready (w : World) (status : UInt8) : Option World :=
  match w.queue with
  | (message, _) :: rest =>
    if message.isEnd && w.server.skipping.all fun skipping => skipping.endsAt message then
      some { w with
        queue := rest
        answers := w.answers ++ [⟨byte 'Z', [status]⟩]
        server := { w.server with
          portals := if status = byte 'I' then fun _ => none else w.server.portals
          skipping := none }
        missedBind := false }
    else none
  | [] => none

/-- The gateway reads an answer. -/
def observe (w : World) : Option World :=
  match w.answers with
  | [] => none
  | answer :: rest => (w.names.observe answer.tag answer.body).map fun names =>
    { w with names := names, answers := rest, waiting := w.waiting && !decide (answer.Is 'Z') }

/-- One step. -/
def step (w : World) : Event → Option World
  | .unit analyze frames admitted => w.unit analyze frames admitted
  | .run answer => w.run answer
  | .fail body => w.fail body
  | .skip => w.skip
  | .ready status => w.ready status
  | .chatter answer => if neutral answer then some { w with answers := w.answers ++ [answer] } else none
  | .portalEnds name => some { w with
    server := { w.server with portals := update w.server.portals name none } }
  | .observe => w.observe

/-- Whatever the server comes to run next was judged at least as strictly. -/
def Sound (w : World) : Prop :=
  ∀ message judged rest, w.queue = (message, judged) :: rest → w.server.skipping = none →
    ∀ prepared last, w.server.starts message = some prepared →
      Reaches w.server.statements prepared last → last.classified.rank ≤ judged.rank

/-- A step at which nothing that the gateway does not take back matters. A batch that leaves its
transaction open does not miss a `Bind` of the unnamed portal while that portal runs a statement
by name; and no change without an answer makes a name run another statement by name than the one
that the server holds runs. -/
def Undisturbed (w : World) : Event → Prop
  | .ready status => w.missedBind = true → status = byte 'I' ∨
    ∀ prepared, w.server.portals [] = some prepared → prepared.executes = none
  | .observe => ∀ answer rest, w.answers = answer :: rest → answer.Is 'Z' →
    ∀ name prepared, w.server.statements name = some prepared → prepared.executes = none ∨
      (Statements.at w.names.statements.lookup name).executes = none ∨
      (Statements.at w.names.statements.lookup name).executes = prepared.executes
  | _ => True

end World

section Answers

/-- What answers in flight will do: confirm some changes, and then fail or not, and end the batch
or not. -/
inductive Flight : List Frame → List Unconfirmed → Bool → Option UInt8 → Prop where
  | done : Flight [] [] false none
  | ready (status : UInt8) {rest : List Frame} (hrest : ∀ answer ∈ rest, neutral answer = true) :
    Flight (⟨byte 'Z', [status]⟩ :: rest) [] false (some status)
  | neutral {answer : Frame} {rest : List Frame} {made : List Unconfirmed} {failed : Bool}
    {fin : Option UInt8} (hneutral : neutral answer = true) (hrest : Flight rest made failed fin) :
    Flight (answer :: rest) made failed fin
  | confirms {u : Unconfirmed} {answer : Frame} {rest : List Frame} {made : List Unconfirmed}
    {failed : Bool} {fin : Option UInt8}
    (hconfirms : u.change.confirmedBy u.via answer.tag (Names.commandTag answer.tag answer.body) = true)
    (hrest : Flight rest made failed fin) : Flight (answer :: rest) (u :: made) failed fin
  | error (body : List UInt8) {rest : List Frame} {fin : Option UInt8}
    (hrest : Flight rest [] false fin) : Flight (⟨byte 'E', body⟩ :: rest) [] true fin

variable {answers : List Frame} {made : List Unconfirmed} {failed : Bool} {fin : Option UInt8}

theorem Flight.of_neutral (h : ∀ answer ∈ answers, Tracking.neutral answer = true) :
    Flight answers [] false none := by
  induction answers with
  | nil => exact .done
  | cons answer answers ih =>
    have hfirst := h answer mem_cons_self
    exact .neutral hfirst (ih fun other hother => h other (mem_cons_of_mem answer hother))

variable {answer : Frame}

section

variable (h : Flight answers made failed fin)
include h

theorem Flight.append_neutral (hneutral : Tracking.neutral answer = true) : Flight (answers ++ [answer]) made failed
    fin := by
  induction h with
  | done => exact .neutral hneutral .done
  | ready status hrest =>
    refine .ready status fun other hother => ?_
    rcases mem_append.mp hother with hold | hnew
    · exact hrest other hold
    · rw [mem_singleton.mp hnew]
      exact hneutral
  | neutral hfirst _ ih => exact .neutral hfirst ih
  | confirms hfirst _ ih => exact .confirms hfirst ih
  | error body _ ih => exact .error body ih

theorem Flight.append_confirms (hfailed : failed = false) (hfin : fin = none) {u : Unconfirmed}
    (hconfirms : u.change.confirmedBy u.via answer.tag (Names.commandTag answer.tag answer.body) = true) : Flight
    (answers ++ [answer]) (made ++ [u]) failed fin := by
  induction h with
  | done => exact .confirms hconfirms .done
  | ready => cases hfin
  | neutral hfirst _ ih => exact .neutral hfirst (ih hfailed hfin)
  | confirms hfirst _ ih => exact .confirms hfirst (ih hfailed hfin)
  | error => cases hfailed

theorem Flight.append_error (hfailed : failed = false) (hfin : fin = none) (body : List UInt8) : Flight
    (answers ++ [⟨byte 'E', body⟩]) made true none := by
  induction h with
  | done => exact .error body .done
  | ready => cases hfin
  | neutral hfirst _ ih => exact .neutral hfirst (ih hfailed hfin)
  | confirms hfirst _ ih => exact .confirms hfirst (ih hfailed hfin)
  | error => cases hfailed

theorem Flight.append_ready (hfin : fin = none) (status : UInt8) : Flight (answers ++ [⟨byte 'Z', [status]⟩]) made
    failed (some status) := by
  induction h with
  | done => exact .ready status nofun
  | ready => cases hfin
  | neutral hfirst _ ih => exact .neutral hfirst (ih hfin)
  | confirms hfirst _ ih => exact .confirms hfirst (ih hfin)
  | error body _ ih => exact .error body (ih hfin)

end

theorem not_neutral_of_confirmedBy {change : Change} {via : Via}
    (h : change.confirmedBy via answer.tag (Names.commandTag answer.tag answer.body) = true) :
    neutral answer = false := by
  unfold neutral
  cases via with
  | message =>
    rcases Change.tag_of_confirmedBy h with htag | htag | htag
    · simp [Frame.Is, htag]
    · simp [Frame.Is, htag]
    · cases change with
      | prepare =>
        rw [show answer.tag = byte '1' from beq_iff_eq.mp h] at htag
        exact absurd htag (by decide)
      | deallocateAll => cases h
      | _ =>
        rw [show answer.tag = byte '3' from beq_iff_eq.mp h] at htag
        exact absurd htag (by decide)
  | sql =>
    obtain ⟨htag, hcommand⟩ := and_eq_true_iff.mp h
    have hC : answer.Is 'C' := beq_iff_eq.mp htag
    cases change with
    | deallocateAll => rcases or_eq_true_iff.mp hcommand with hall | hall <;> simp [hC, beq_iff_eq.mp hall]
    | closePortal => cases hcommand
    | _ => simp [hC, beq_iff_eq.mp hcommand]

theorem tag_of_neutral (h : neutral answer = true) : answer.tag ≠ byte 'E' ∧ answer.tag ≠ byte 'Z' := by
  unfold neutral Frame.Is at h
  constructor
  · intro htag
    simp [htag] at h
  · intro htag
    simp [htag] at h

theorem observe_of_neutral (names : Names) (h : neutral answer = true) :
    names.observe answer.tag answer.body = some names := by
  obtain ⟨herror, hready⟩ := tag_of_neutral h
  have hnothing : names.confirms answer.tag answer.body = false := by
    unfold Names.confirms
    cases names.unconfirmed.head? with
    | none => rfl
    | some =>
      refine eq_false_iff.mpr fun hconfirms => ?_
      have hnot : neutral answer = false := not_neutral_of_confirmedBy hconfirms
      rw [h] at hnot
      cases hnot
  rw [observe_of_answer _ _ herror hready, hnothing]
  rfl

end Answers

section Invariant

/-- The gateway's unnamed portal stands for the server's, when that runs a statement by name. -/
def PortalCovered (gateway server : Option Prepared) : Prop :=
  ∀ prepared, server = some prepared → prepared.executes ≠ none →
    ∃ tracked, gateway = some tracked ∧ Covered prepared tracked

/-- Only the last message ends the batch. -/
def EndsLast (queue : List (Message × Classified)) : Prop :=
  ∀ before message after, queue = before ++ message :: after → message.1.isEnd = true → after = []

/-- The server has run everything of the batch so far. The changes without an answer in flight are
those of the messages in the queue, and each of these was judged by the view that the ones before
it leave. -/
structure Clean (w : World) (pending : List Unconfirmed) (failed : Bool) (m : Statements) : Prop where
  skipping : w.server.skipping = none
  failed : failed = false
  missedBind : w.missedBind = false
  changes : pending.map (fun u => (u.change, u.via)) = w.queue.filterMap fun entry => entry.1.change
  replays : ∃ portal, Replays ⟨m, portal⟩ w.queue w.names.view ∧ PortalCovered portal (w.server.portals [])

/-- The batch has failed, and the changes without an answer in flight are never made. -/
structure Broken (w : World) (made : List Unconfirmed) (failed : Bool) (fin : Option UInt8) : Prop where
  skipping : w.server.skipping ≠ none ∨ fin ≠ none
  failed : failed = true ∨ made = []
  portal : w.missedBind = true ∨ (∃ entry ∈ w.queue, entry.1.bindsUnnamed = true) ∨
    PortalCovered w.names.unnamedPortal (w.server.portals [])

/-- Where the gateway and the server are in the batch: what the answers in flight will confirm,
and what the statements are without the changes that they will not. -/
structure Stage (w : World) (made pending : List Unconfirmed) (failed : Bool) (fin : Option UInt8)
    (m : Statements) : Prop where
  unconfirmed : w.names.unconfirmed = made ++ pending
  flight : Flight w.answers made failed fin
  traced : Traced m pending w.names.statements.lookup
  covers : Covers m w.server.statements
  finished : ∀ status, fin = some status → w.queue = [] ∧ w.server.skipping = none ∧
    w.waiting = true ∧ w.missedBind = false ∧ (status = byte 'I' → w.server.portals [] = none)
  progress : Clean w pending failed m ∨ Broken w made failed fin

/-- What always holds of a session. -/
structure Inv (w : World) : Prop where
  balanced : w.names.Balanced
  named : ∀ name prepared, name ≠ [] → w.server.portals name = some prepared → prepared.executes = none
  endsLast : EndsLast w.queue
  reading : w.waiting = false → ∀ entry ∈ w.queue, entry.1.isEnd = false
  stage : ∃ made pending failed fin m, Stage w made pending failed fin m

/-- No portal needs no cover. -/
theorem PortalCovered.none (gateway : Option Prepared) : PortalCovered gateway none := fun _ hnone => by cases hnone

theorem PortalCovered.of_executes_none {server : Option Prepared} (gateway : Option Prepared)
    (h : ∀ prepared, server = some prepared → prepared.executes = .none) :
    PortalCovered gateway server :=
  fun prepared hserver hexecutes => absurd (h prepared hserver) hexecutes

theorem EndsLast.tail {entry : Message × Classified} {queue : List (Message × Classified)}
    (h : EndsLast (entry :: queue)) : EndsLast queue := by
  intro before message after hqueue
  exact h (entry :: before) message after (congrArg (entry :: ·) hqueue)

/-- A stage that is open has no end yet. -/
theorem Stage.fin_eq_none {w : World} {made pending : List Unconfirmed} {failed : Bool}
    {fin : Option UInt8} {m : Statements} (h : Stage w made pending failed fin m)
    (hopen : w.waiting = false ∨ w.queue ≠ [] ∨ w.server.skipping ≠ none) : fin = none := by
  cases hfin : fin with
  | none => rfl
  | some status =>
    obtain ⟨hqueue, hskipping, hwait, _, _⟩ := h.finished status hfin
    rcases hopen with hreading | hsome | hsome
    · rw [hwait] at hreading
      cases hreading
    · exact absurd hqueue hsome
    · exact absurd hskipping hsome

/-- A stage with a queue is clean. -/
theorem Stage.clean {w : World} {made pending : List Unconfirmed} {failed : Bool}
    {fin : Option UInt8} {m : Statements} (h : Stage w made pending failed fin m)
    (hqueue : w.queue ≠ []) (hskipping : w.server.skipping = none) : Clean w pending failed m := by
  rcases h.progress with hclean | hbroken
  · exact hclean
  · rcases hbroken.skipping with hsome | hsome
    · exact absurd hskipping hsome
    · exact absurd (h.fin_eq_none (.inr (.inl hqueue))) hsome

end Invariant

theorem portals_update_eq_some {portals : Key → Option Prepared} {k name : Key}
    {new : Option Prepared} {prepared : Prepared}
    (h : update portals name new k = some prepared) :
    (k = name ∧ new = some prepared) ∨ portals k = some prepared := by
  exact (update_cases h).imp_right And.right

theorem portals_of_update_none {portals : Key → Option Prepared} {k name : Key} {prepared : Prepared}
    (h : update portals name none k = some prepared) : portals k = some prepared := by
  rcases portals_update_eq_some h with ⟨_, hnone⟩ | hbefore
  · cases hnone
  · exact hbefore

section Steps

variable {w w' : World}

/-- The bookkeeping is sound. -/
theorem Inv.sound (h : Inv w) : w.Sound := by
  intro message judged rest hqueue hskipping prepared last hstarts hreaches
  obtain ⟨made, pending, failed, fin, m, hstage⟩ := h.stage
  have hclean := hstage.clean (by rw [hqueue]; exact cons_ne_nil _ _) hskipping
  obtain ⟨portal, hreplays, hportal⟩ := hclean.replays
  rw [hqueue] at hreplays
  obtain ⟨hverd, hrefused, _⟩ := hreplays
  have hruns {gateway : Prepared} (hcov : Covered prepared gateway)
      (hjudged : (View.runs ⟨m, portal⟩ gateway).rank ≤ judged.rank) :
      last.classified.rank ≤ judged.rank := by
    have hnot : ¬ (View.runs ⟨m, portal⟩ gateway).Refused := fun hyes => hrefused (hyes.trans hjudged)
    exact (hreaches.rank_le_runs (v := ⟨m, portal⟩) hstage.covers hcov hnot).trans hjudged
  cases message with
  | bind =>
    refine hruns (hstage.covers _ _ hstarts) ?_
    rw [View.verdict_bind] at hverd
    split at hverd
    · exact absurd hverd hrefused
    · exact hverd
  | execute name =>
    obtain ⟨hbound, hlate⟩ := filter_eq_some_iff.mp hstarts
    have hexecutes : prepared.executes ≠ none := isSome_iff_ne_none.mp hlate
    by_cases hname : name = []
    · subst hname
      obtain ⟨tracked, rfl, hcov⟩ := hportal prepared hbound hexecutes
      refine hruns hcov ?_
      exact hverd
    · have hkey : key name ≠ [] := by
        cases name with
        | nil => exact absurd rfl hname
        | cons => exact cons_ne_nil _ _
      exact absurd (h.named _ prepared hkey hbound) hexecutes
  | executeName => exact hruns (hstage.covers _ _ hstarts) hverd
  | _ => cases hstarts

theorem Inv.portalEnds (h : Inv w) (name : Key) :
    Inv { w with server := { w.server with
      portals := update w.server.portals name none } } := by
  have hportal {gateway : Option Prepared} (hcov : PortalCovered gateway (w.server.portals [])) :
      PortalCovered gateway (update w.server.portals name none []) :=
    fun prepared hserver => hcov prepared (portals_of_update_none hserver)
  obtain ⟨made, pending, failed, fin, m, hstage⟩ := h.stage
  refine ⟨h.balanced, fun k prepared hk hbound => h.named k prepared hk (portals_of_update_none hbound),
    h.endsLast, h.reading, made, pending, failed, fin, m, hstage.unconfirmed, hstage.flight,
    hstage.traced, hstage.covers, fun status hfin => ?_, ?_⟩
  · obtain ⟨hqueue, hskipping, hwait, hmissed, hidle⟩ := hstage.finished status hfin
    refine ⟨hqueue, hskipping, hwait, hmissed, fun hstatus => ?_⟩
    refine eq_none_iff_forall_ne_some.mpr fun prepared hbound => ?_
    have hnone := hidle hstatus
    rw [portals_of_update_none hbound] at hnone
    cases hnone
  · rcases hstage.progress with hclean | hbroken
    · obtain ⟨portal, hreplays, hcov⟩ := hclean.replays
      exact .inl ⟨hclean.skipping, hclean.failed, hclean.missedBind, hclean.changes, portal, hreplays, hportal hcov⟩
    · exact .inr ⟨hbroken.skipping, hbroken.failed, hbroken.portal.imp_right (.imp_right hportal)⟩

theorem Inv.chatter (h : Inv w) {answer : Frame} (hneutral : neutral answer = true) :
    Inv { w with answers := w.answers ++ [answer] } := by
  obtain ⟨made, pending, failed, fin, m, hstage⟩ := h.stage
  refine ⟨h.balanced, h.named, h.endsLast, h.reading, made, pending, failed, fin, m,
    hstage.unconfirmed, hstage.flight.append_neutral hneutral, hstage.traced, hstage.covers, hstage.finished, ?_⟩
  rcases hstage.progress with hclean | hbroken
  · exact .inl ⟨hclean.skipping, hclean.failed, hclean.missedBind, hclean.changes, hclean.replays⟩
  · exact .inr ⟨hbroken.skipping, hbroken.failed, hbroken.portal⟩

theorem Inv.fail (h : Inv w) {body : List UInt8} (hstep : w.fail body = some w') : Inv w' := by
  unfold World.fail at hstep
  split at hstep
  · next message judged rest hqueue hskipping =>
    cases hstep
    obtain ⟨made, pending, failed, fin, m, hstage⟩ := h.stage
    have hsome : w.queue ≠ [] := by
      rw [hqueue]
      exact cons_ne_nil _ _
    have hclean := hstage.clean hsome hskipping
    have hfin := hstage.fin_eq_none (.inr (.inl hsome))
    refine ⟨h.balanced, h.named, h.endsLast, h.reading, made, pending, true, none, m,
      hstage.unconfirmed, hstage.flight.append_error hclean.failed hfin body, hstage.traced,
      hstage.covers, fun status hnone => (by cases hnone), .inr ⟨.inl (some_ne_none _), .inl rfl, .inr ?_⟩⟩
    obtain ⟨portal, hreplays, hcov⟩ := hclean.replays
    by_cases hbinds : ∃ entry ∈ w.queue, entry.1.bindsUnnamed = true
    · exact .inl hbinds
    · refine .inr ?_
      have hportal : w.names.unnamedPortal = portal := hreplays.portal_eq fun entry hentry =>
        eq_false_iff.mpr fun hbind => hbinds ⟨entry, hentry, hbind⟩
      rw [hportal]
      exact hcov
  · cases hstep

theorem Inv.skip (h : Inv w) (hstep : w.skip = some w') : Inv w' := by
  unfold World.skip at hstep
  split at hstep
  · next message judged rest skipping hqueue hskipping =>
    split at hstep
    · cases hstep
    cases hstep
    obtain ⟨made, pending, failed, fin, m, hstage⟩ := h.stage
    have hfin := hstage.fin_eq_none (.inr (.inr (by rw [hskipping]; exact some_ne_none _)))
    have hends := h.endsLast
    have hreading := h.reading
    rw [hqueue] at hends hreading
    refine ⟨h.balanced, h.named, hends.tail,
      fun hwait entry hentry => hreading hwait entry (mem_cons_of_mem _ hentry), made,
      pending, failed, fin, m, hstage.unconfirmed, hstage.flight, hstage.traced, hstage.covers,
      fun status hsome => (by cases hfin.symm.trans hsome), .inr ?_⟩
    rcases hstage.progress with hclean | hbroken
    · cases hclean.skipping.symm.trans hskipping
    refine ⟨hbroken.skipping, hbroken.failed, ?_⟩
    rcases hbroken.portal with hmissed | ⟨entry, hentry, hbinds⟩ | hcov
    · refine .inl ?_
      rw [hmissed]
      rfl
    · rw [hqueue] at hentry
      rcases mem_cons.mp hentry with rfl | hentry
      · refine .inl ?_
        rw [show message.bindsUnnamed = true from hbinds, Bool.or_true]
      · exact .inr (.inl ⟨entry, hentry, hbinds⟩)
    · exact .inr (.inr hcov)
  · cases hstep

variable {message : Message} {judged : Classified} {status : UInt8}

theorem Clean.ready {pending : List Unconfirmed} {failed : Bool} {m : Statements} (h : Clean w pending failed m)
    (hqueue : w.queue = [(message, judged)]) (hisEnd : message.isEnd = true) :
    pending = [] ∧ ∃ portal, Replays ⟨m, portal⟩ [] w.names.view ∧ PortalCovered portal (w.server.portals []) := by
  have hsame : message.change = none ∧ ∀ v : View, v.perform message = v := by
    cases message with
    | sync | queryEnd => exact ⟨rfl, fun _ => rfl⟩
    | _ => cases hisEnd
  obtain ⟨hchange, hperform⟩ := hsame
  have hchanges := h.changes
  obtain ⟨portal, hreplays, hcov⟩ := h.replays
  rw [hqueue] at hchanges hreplays
  have hnone := hchanges.trans (filterMap_cons_none hchange)
  have hdone := hreplays.2.2
  rw [hperform] at hdone
  exact ⟨map_eq_nil_iff.mp hnone, portal, hdone, hcov⟩

theorem portals_of_ready {portals : Key → Option Prepared} {k : Key} {prepared : Prepared}
    (h : (if status = byte 'I' then fun _ => none else portals) k = some prepared) : portals k = some prepared := by
  split at h
  · cases h
  · exact h

theorem Broken.ready {made : List Unconfirmed} {failed : Bool} {fin : Option UInt8} (h : Broken w made failed fin)
    (hcalm : w.Undisturbed (.ready status)) (hqueue : w.queue = [(message, judged)])
    (hisEnd : message.isEnd = true) :
    PortalCovered w.names.unnamedPortal
      ((if status = byte 'I' then fun _ => none else w.server.portals : Key → Option Prepared) []) := by
  rcases h.portal with hmissed | ⟨entry, hentry, hbinds⟩ | hcov
  · rcases hcalm hmissed with hidle | hnone
    · rw [if_pos hidle]
      exact .none _
    · exact .of_executes_none _ fun prepared hbound => hnone prepared (portals_of_ready hbound)
  · rw [hqueue] at hentry
    obtain rfl := mem_singleton.mp hentry
    cases message with
    | bind => cases hisEnd
    | _ => cases hbinds
  · exact fun prepared hbound => hcov prepared (portals_of_ready hbound)

theorem Inv.ready (h : Inv w) (hcalm : w.Undisturbed (.ready status)) (hstep : w.ready status = some w') :
    Inv w' := by
  unfold World.ready at hstep
  split at hstep
  · next message judged rest hqueue =>
    split at hstep
    · next hend =>
      cases hstep
      obtain ⟨hisEnd, _⟩ := and_eq_true_iff.mp hend
      have hrest : rest = [] := h.endsLast [] (message, judged) rest hqueue hisEnd
      subst hrest
      have hwait : w.waiting = true := by
        by_contra hreading
        have hnot := h.reading (eq_false_iff.mpr hreading) (message, judged)
          (hqueue ▸ mem_cons_self)
        rw [hisEnd] at hnot
        cases hnot
      obtain ⟨made, pending, failed, fin, m, hstage⟩ := h.stage
      have hfin := hstage.fin_eq_none (.inr (.inl (by rw [hqueue]; exact cons_ne_nil _ _)))
      refine ⟨h.balanced, fun k prepared hk hbound => h.named k prepared hk (portals_of_ready hbound),
        fun before entry after hnil => ?_, fun hreading => ?_, made, pending, failed, some status, m,
        hstage.unconfirmed, hstage.flight.append_ready hfin status, hstage.traced, hstage.covers,
        fun status' hstatus => ⟨rfl, rfl, hwait, rfl, fun hidle => ?_⟩, ?_⟩
      · exact absurd (congrArg List.length hnil) (by simp)
      · cases hwait.symm.trans hreading
      · cases hstatus
        exact congrFun (if_pos hidle) []
      · rcases hstage.progress with hclean | hbroken
        · obtain ⟨rfl, portal, hreplays, hcov⟩ := hclean.ready hqueue hisEnd
          exact .inl ⟨rfl, hclean.failed, rfl, rfl, portal, hreplays,
            fun prepared hbound => hcov prepared (portals_of_ready hbound)⟩
        · exact .inr ⟨.inr (some_ne_none _), hbroken.failed, .inr (.inr (hbroken.ready hcalm hqueue hisEnd))⟩
    · cases hstep
  · cases hstep

/-- What the server makes of a message that it runs, next to what the gateway makes of its view. -/
structure Performs (server server' : Server) (v : View) (message : Message) : Prop where
  skipping : server'.skipping = server.skipping
  covers : Covers (v.perform message).statements server'.statements
  named : ∀ name prepared, name ≠ [] → server'.portals name = some prepared → prepared.executes = none
  portal : PortalCovered (v.perform message).portal (server'.portals [])

theorem Server.perform_spec {server server' : Server} {v : View} (hcovers : Covers v.statements server.statements)
    (hnamed : ∀ name prepared, name ≠ [] → server.portals name = some prepared → prepared.executes = none)
    (hportal : PortalCovered v.portal (server.portals [])) (hverd : (v.verdict message).rank ≤ judged.rank)
    (hrefused : ¬ judged.Refused) (hperform : server.perform message = some server') :
    Performs server server' v message := by
  have hkept (h : server' = server) (hsame : v.perform message = v) :
      Performs server server' v message := by
    subst h
    refine ⟨rfl, ?_, hnamed, ?_⟩
    · rw [hsame]
      exact hcovers
    · rw [hsame]
      exact hportal
  cases message with
  | bind portal statement =>
    obtain ⟨prepared, hprepared, rfl⟩ := map_eq_some_iff.mp hperform
    have hcov : Covered prepared (v.statement statement) := hcovers _ _ hprepared
    by_cases hname : portal = []
    · subst hname
      refine ⟨rfl, ?_, fun name bound hne hbound => ?_, fun bound hbound hlate => ?_⟩
      · exact hcovers
      · rcases portals_update_eq_some hbound with ⟨hsame, _⟩ | hbefore
        · exact absurd hsame hne
        · exact hnamed name bound hne hbefore
      · change update server.portals [] (some prepared) [] = some bound at hbound
        cases hbound
        have hsame : (v.statement statement).executes = prepared.executes := hcov.2.resolve_left hlate
        refine ⟨v.statement statement, ?_, hcov⟩
        refine if_pos ?_
        rw [hsame]
        exact isSome_iff_ne_none.mpr hlate
    · have hearly : prepared.executes = none := by
        rcases hcov.2 with hnone | hsame
        · exact hnone
        · by_contra hlate
          rw [View.verdict_bind, if_pos ⟨hname, isSome_iff_ne_none.mpr (hsame ▸ hlate)⟩]
            at hverd
          exact hrefused hverd
      refine ⟨rfl, ?_, fun name bound hne hbound => ?_, fun bound hbound hlate => ?_⟩
      · rw [v.perform_bind_statements]
        exact hcovers
      · rcases portals_update_eq_some hbound with ⟨_, hnew⟩ | hbefore
        · cases hnew
          exact hearly
        · exact hnamed name bound hne hbefore
      · rw [View.perform_bind, if_neg hname]
        rcases portals_update_eq_some hbound with ⟨_, hnew⟩ | hbefore
        · cases hnew
          exact absurd hearly hlate
        · exact hportal bound hbefore hlate
  | execute portal =>
    change (if (server.portals (key portal)).isSome = true then some server else none) = _ at hperform
    split at hperform
    · exact hkept (some.inj hperform).symm rfl
    · cases hperform
  | executeName name =>
    change (if (server.statements (key name)).isSome = true then some server else none) = _ at hperform
    split at hperform
    · exact hkept (some.inj hperform).symm rfl
    · cases hperform
  | closePortal =>
    cases hperform
    exact ⟨rfl, hcovers, fun k prepared hne hbound => hnamed k prepared hne (portals_of_update_none hbound),
      fun prepared hbound => hportal prepared (portals_of_update_none hbound)⟩
  | prepare name prepared =>
    cases hperform
    exact ⟨rfl, hcovers.effect (.prepare (key name) prepared), hnamed, hportal⟩
  | deallocate name =>
    cases hperform
    exact ⟨rfl, hcovers.effect (.deallocate (key name)), hnamed, hportal⟩
  | deallocateAll =>
    cases hperform
    exact ⟨rfl, hcovers.effect .deallocateAll, hnamed, hportal⟩
  | _ => exact hkept (some.inj hperform).symm rfl

theorem perform_statements (v : View) (message : Message) :
    (v.perform message).statements = (message.change.elim id fun c => c.1.effect) v.statements := by
  cases message with
  | bind portal statement => exact v.perform_bind_statements portal statement
  | _ => rfl

section Run

variable {message : Message} {judged : Classified} {rest : List (Message × Classified)}
  {answer : Option Frame} {server : Server} {made pending : List Unconfirmed} {failed : Bool}
  {fin : Option UInt8} {m : Statements} {portal : Option Prepared}

section

variable (h : Stage w made pending failed fin m) (hqueue : w.queue = (message, judged) :: rest) (hskipping : w.server.skipping = none) (hreplays : Replays (View.perform ⟨m, portal⟩ message) rest w.names.view) (hspec : Performs w.server server ⟨m, portal⟩ message) (hanswered : answeredBy message answer = true)
include h hqueue hskipping hreplays hspec hanswered

theorem Stage.run_unchanged (hchange : message.change = none) :
    Stage { w with server := server, queue := rest, answers := w.answers ++ answer.toList }
      made pending failed fin m := by
  have hsome : w.queue ≠ [] := hqueue ▸ cons_ne_nil _ _
  have hclean := h.clean hsome hskipping
  have hfin := h.fin_eq_none (.inr (.inl hsome))
  have hstatements := perform_statements ⟨m, portal⟩ message
  rw [hchange] at hstatements
  have hview : View.perform ⟨m, portal⟩ message =
      ⟨m, (View.perform ⟨m, portal⟩ message).portal⟩ := congrArg (View.mk · _) hstatements
  rw [hview] at hreplays
  have hcovers := hspec.covers
  rw [hstatements] at hcovers
  have hchanges := hclean.changes
  rw [hqueue] at hchanges
  have hflight : Flight (w.answers ++ answer.toList) made failed fin := by
    unfold answeredBy at hanswered
    rw [hchange] at hanswered
    cases answer with
    | none =>
      rw [toList_none, append_nil]
      exact h.flight
    | some => exact h.flight.append_neutral hanswered
  exact ⟨h.unconfirmed, hflight, h.traced, hcovers, fun status hstatus => (by cases hfin.symm.trans hstatus),
    .inl ⟨hspec.skipping.trans hskipping, hclean.failed, hclean.missedBind,
      hchanges.trans (filterMap_cons_none hchange), _, hreplays, hspec.portal⟩⟩

theorem Stage.run_changed {change : Change × Via} (hchange : message.change = some change) :
    ∃ u pending', Stage { w with
      server := server, queue := rest, answers := w.answers ++ answer.toList }
      (made ++ [u]) pending' failed fin (u.change.effect m) := by
  have hsome : w.queue ≠ [] := hqueue ▸ cons_ne_nil _ _
  have hclean := h.clean hsome hskipping
  have hfin := h.fin_eq_none (.inr (.inl hsome))
  obtain ⟨change, via⟩ := change
  have hstatements := perform_statements ⟨m, portal⟩ message
  rw [hchange] at hstatements
  have hchanges := hclean.changes
  rw [hqueue] at hchanges
  have hnext := hchanges.trans (filterMap_cons_some hchange)
  cases pending with
  | nil => cases hnext
  | cons u pending =>
    obtain ⟨hu, hpend⟩ := List.cons.inj hnext
    cases hu
    have hview : View.perform ⟨m, portal⟩ message = ⟨u.change.effect m, (View.perform ⟨m, portal⟩ message).portal⟩ :=
      congrArg (View.mk · _) hstatements
    rw [hview] at hreplays
    have hcovers := hspec.covers
    rw [hstatements] at hcovers
    have hunconf : w.names.unconfirmed = (made ++ [u]) ++ pending := by
      rw [append_assoc]
      exact h.unconfirmed
    have hflight : Flight (w.answers ++ answer.toList) (made ++ [u]) failed fin := by
      unfold answeredBy at hanswered
      rw [hchange] at hanswered
      cases answer with
      | none => cases hanswered
      | some => exact h.flight.append_confirms hclean.failed hfin hanswered
    exact ⟨u, pending, hunconf, hflight, h.traced.2, hcovers,
      fun status hstatus => (by cases hfin.symm.trans hstatus),
      .inl ⟨hspec.skipping.trans hskipping, hclean.failed, hclean.missedBind, hpend, _, hreplays, hspec.portal⟩⟩

end

end Run

/-- A run of the server keeps the bookkeeping. -/
theorem Inv.run (h : Inv w) {answer : Option Frame} (hstep : w.run answer = some w') : Inv w' := by
  unfold World.run at hstep
  split at hstep
  · next message judged rest hqueue hskipping =>
    split at hstep
    · cases hstep
    next hguard =>
    have hanswered : answeredBy message answer = true := not_eq_false _ ▸ (not_or.mp hguard).2
    obtain ⟨server, hperform, rfl⟩ := map_eq_some_iff.mp hstep
    obtain ⟨made, pending, failed, fin, m, hstage⟩ := h.stage
    have hclean := hstage.clean (hqueue ▸ cons_ne_nil _ _) hskipping
    obtain ⟨portal, hreplays, hcov⟩ := hclean.replays
    have hends := h.endsLast
    have hreading := h.reading
    rw [hqueue] at hreplays hends hreading
    obtain ⟨hverd, hrefused, hrest⟩ := hreplays
    have hspec := Server.perform_spec (v := ⟨m, portal⟩) hstage.covers h.named hcov hverd hrefused
      hperform
    refine ⟨h.balanced, hspec.named, hends.tail,
      fun hwait entry hentry => hreading hwait entry (mem_cons_of_mem _ hentry), ?_⟩
    cases hchange : message.change with
    | none =>
      exact ⟨made, pending, failed, fin, m, hstage.run_unchanged hqueue hskipping hrest hspec hanswered hchange⟩
    | some =>
      obtain ⟨u, pending, hnext⟩ := hstage.run_changed hqueue hskipping hrest hspec hanswered hchange
      exact ⟨made ++ [u], pending, failed, fin, _, hnext⟩
  · cases hstep

variable {frames : List Frame}

theorem collects_split {unit : UnitBuffer} (h : collects unit frames = true) :
    ∃ init last, frames = init ++ [last] ∧ ∀ frame ∈ init, ¬ frame.Is 'S' := by
  induction frames generalizing unit with
  | nil => cases h
  | cons frame frames ih =>
    unfold collects at h
    split at h
    · cases h
    · rw [List.isEmpty_iff.mp h]
      exact ⟨[], frame, rfl, nofun⟩
    · next next hpush =>
      obtain ⟨init, last, hsplit, hinit⟩ := ih h
      refine ⟨frame :: init, last, congrArg (frame :: ·) hsplit, fun other hother => ?_⟩
      rcases mem_cons.mp hother with rfl | hother
      · intro hS
        have hcompletes : completes (unit.frames ++ [other]) other = true := by
          unfold completes
          have htags : ¬ (other.Is 'Q' ∨ other.Is 'X' ∨ other.Is 'F') := by
            unfold Frame.Is at hS ⊢
            rw [hS]
            decide
          rw [if_neg htags]
          exact decide_eq_true (.inl hS)
        unfold UnitBuffer.push at hpush
        simp only [hcompletes] at hpush
        split at hpush <;> cases hpush
      · exact hinit other hother

theorem EndsLast.of_split {body ending : List (Message × Classified)}
    (hbody : ∀ entry ∈ body, entry.1.isEnd = false) (hending : ending.length ≤ 1) :
    EndsLast (body ++ ending) := by
  intro before message after hsplit hend
  rcases append_eq_append_iff.mp hsplit with ⟨between, _, hlast⟩ | ⟨between, hfirst, hlast⟩
  · rw [hlast, length_append, length_cons] at hending
    exact length_eq_zero_iff.mp (by omega)
  · cases between with
    | nil =>
      have hlength : (message :: after).length = ending.length := congrArg List.length hlast
      rw [length_cons] at hlength
      exact length_eq_zero_iff.mp (by omega)
    | cons =>
      have hmessage := (List.cons.inj hlast).1
      have hnot := hbody message (by
        rw [hfirst, hmessage]
        exact mem_append_right _ mem_cons_self)
      rw [hend] at hnot
      cases hnot

theorem Broken.append {made : List Unconfirmed} {failed : Bool} {fin : Option UInt8}
    (h : Broken w made failed fin) {sent : Names} {view : View}
    {messages : List (Message × Classified)} (hreplays : Replays w.names.view messages view)
    (hview : sent.view = view) :
    w.missedBind = true ∨ (∃ entry ∈ w.queue ++ messages, entry.1.bindsUnnamed = true) ∨
      PortalCovered sent.unnamedPortal (w.server.portals []) := by
  rcases h.portal with hmissed | ⟨entry, hentry, hbinds⟩ | hcov
  · exact .inl hmissed
  · exact .inr (.inl ⟨entry, mem_append_left _ hentry, hbinds⟩)
  by_cases hbinds : ∃ entry ∈ messages, entry.1.bindsUnnamed = true
  · obtain ⟨entry, hentry, hbind⟩ := hbinds
    exact .inr (.inl ⟨entry, mem_append_right _ hentry, hbind⟩)
  · have hsame : view.portal = w.names.unnamedPortal := hreplays.portal_eq fun entry hentry =>
      eq_false_iff.mpr fun hbind => hbinds ⟨entry, hentry, hbind⟩
    have hportal : sent.unnamedPortal = w.names.unnamedPortal := by
      rw [← hsame, ← hview]
      rfl
    rw [hportal]
    exact .inr (.inr hcov)

/-- What a unit leaves to be done once it is sent. -/
structure Sends (w : World) (sent : Names) (us : List Unconfirmed)
    (messages : List (Message × Classified)) : Prop where
  balanced : sent.Balanced
  unconfirmed : sent.unconfirmed = w.names.unconfirmed ++ us
  changes : us.map (fun u => (u.change, u.via)) = messages.filterMap fun entry => entry.1.change
  traced : ∀ m pending, Traced m pending w.names.statements.lookup → Traced m (pending ++ us) sent.statements.lookup
  /-- The names after the unit are the view that its messages lead to. -/
  replays : Replays w.names.view messages sent.view

theorem Names.Balanced.sends (h : w.names.Balanced) {analyze : ℕ → Str → Analysis}
    (hrefused : ¬ (judge analyze frames w.names).classified.Refused) {sent : Names}
    (hsend : w.names.send (judge analyze frames w.names).sent = some sent) :
    ∃ us, Sends w sent us ((Message.ofFrames analyze frames).map
      (·, (judge analyze frames w.names).classified)) := by
  obtain ⟨hchanges, _, view, hreplays, hviewPortal⟩ := judge_spec analyze frames w.names hrefused
  have hbound : Names.Balanced { w.names with
      unnamedPortal := (judge analyze frames w.names).sent.unnamedPortal.getD w.names.unnamedPortal } :=
    h
  obtain ⟨names, us, hfold, hbal, hunconf, husChanges, hportal, hlookup, htraced⟩ :=
    foldlM_sendChange_traced hbound (judge analyze frames w.names).sent.changes
  obtain rfl : names = sent := some.inj (hfold.symm.trans hsend)
  have hfilter : (((Message.ofFrames analyze frames).map
      (·, (judge analyze frames w.names).classified)).filterMap fun entry => entry.1.change) =
      (judge analyze frames w.names).sent.changes := by
    rw [hchanges, filterMap_map]
    rfl
  have hview : names.view = view := by
    have hstatements : names.statements.lookup = view.statements := by
      rw [hlookup, hreplays.statements_eq, hfilter]
      rfl
    unfold Names.view
    rw [hstatements, hportal]
    exact congrArg (View.mk view.statements) hviewPortal.symm
  exact ⟨us, hbal, hunconf, husChanges.trans hfilter.symm, htraced, hview ▸ hreplays⟩

theorem Inv.unit (h : Inv w) {analyze : ℕ → Str → Analysis} {admitted : Bool}
    (hstep : w.unit analyze frames admitted = some w') : Inv w' := by
  unfold World.unit at hstep
  split at hstep
  · cases hstep
  next hguard =>
  split at hstep
  · cases hstep
    exact h
  dsimp only at hstep
  split at hstep
  · cases hstep
  next hrefused =>
  obtain ⟨hreading, hcollects⟩ := not_or.mp hguard
  have hwait : w.waiting = false := eq_false_iff.mpr hreading
  obtain ⟨sent, hsend, rfl⟩ := map_eq_some_iff.mp hstep
  obtain ⟨us, hsends⟩ := Names.Balanced.sends h.balanced hrefused hsend
  obtain ⟨_, hsynced, _⟩ := judge_spec analyze frames w.names hrefused
  have hready : ∀ entry ∈ w.queue, entry.1.isEnd = false := h.reading hwait
  obtain ⟨init, last, hsplit, hinit⟩ := collects_split (not_eq_false _ ▸ hcollects)
  obtain ⟨body, ending, hmessages, hbody, hending⟩ := judge_messages_split analyze w.names hinit
    (hsplit ▸ hrefused)
  rw [← hsplit] at hmessages
  obtain ⟨made, pending, failed, fin, m, hstage⟩ := h.stage
  have hfin := hstage.fin_eq_none (.inl hwait)
  refine ⟨hsends.balanced, h.named, ?_, fun hnot entry hentry => ?_, made, pending ++ us, failed, fin,
    m, ?_, hstage.flight, hsends.traced m pending hstage.traced, hstage.covers,
    fun status hstatus => (by cases hfin.symm.trans hstatus), ?_⟩
  · rw [hmessages, map_append, ← append_assoc]
    refine .of_split (fun entry hentry => ?_) ((length_map _).trans_le hending)
    rcases mem_append.mp hentry with hold | hnew
    · exact hready entry hold
    · obtain ⟨message, hmessage, rfl⟩ := List.mem_map.mp hnew
      exact hbody message hmessage
  · have hnone : (Message.ofFrames analyze frames).any Message.isEnd = false := hsynced.symm.trans hnot
    rcases mem_append.mp hentry with hold | hnew
    · exact hready entry hold
    · obtain ⟨message, hmessage, rfl⟩ := List.mem_map.mp hnew
      exact eq_false_iff.mpr fun hend =>
        absurd hnone (eq_false_iff.not.mpr (not_not.mpr (List.any_eq_true.mpr ⟨_, hmessage, hend⟩)))
  · rw [hsends.unconfirmed, hstage.unconfirmed, append_assoc]
  · rcases hstage.progress with hclean | hbroken
    · obtain ⟨portal, hqueue, hcov⟩ := hclean.replays
      refine .inl ⟨hclean.skipping, hclean.failed, hclean.missedBind, ?_, portal, hqueue.append hsends.replays, hcov⟩
      rw [map_append, hclean.changes, hsends.changes, filterMap_append]
    · exact .inr ⟨hbroken.skipping, hbroken.failed, hbroken.append hsends.replays rfl⟩

theorem covers_settle {m s x : Statements} {pending : List Unconfirmed} (htraced : Traced m pending x)
    (hcovers : Covers m s) (hexecutes : ∀ name prepared, s name = some prepared →
      prepared.executes = none ∨ (Statements.at x name).executes = none ∨
        (Statements.at x name).executes = prepared.executes) :
    Covers (pending.foldl (fun m u => u.before.settle m) x) s :=
  fun name prepared hprepared => htraced.covered_settle (hcovers name prepared hprepared) x id
    (hexecutes name prepared hprepared)

/-- With nothing left to run and no `Bind` of the unnamed portal missed, the gateway's stands for
the server's. -/
theorem Stage.portalCovered {made pending : List Unconfirmed} {failed : Bool} {fin : Option UInt8}
    {m : Statements} (h : Stage w made pending failed fin m) (hqueue : w.queue = [])
    (hmissed : w.missedBind = false) :
    PortalCovered w.names.unnamedPortal (w.server.portals []) := by
  rcases h.progress with hclean | hbroken
  · obtain ⟨portal, hreplays, hcov⟩ := hclean.replays
    rw [hqueue] at hreplays
    have hsame : w.names.unnamedPortal = portal := congrArg View.portal hreplays
    rw [hsame]
    exact hcov
  · rcases hbroken.portal with hsome | ⟨entry, hentry, _⟩ | hcov
    · rw [hmissed] at hsome
      cases hsome
    · rw [hqueue] at hentry
      cases hentry
    · exact hcov

theorem tag_of_confirms {change : Change} {via : Via} {answer : Frame}
    (h : change.confirmedBy via answer.tag (Names.commandTag answer.tag answer.body) = true) :
    answer.tag ≠ byte 'E' ∧ answer.tag ≠ byte 'Z' := by
  rcases Change.tag_of_confirmedBy h with htag | htag | htag
  · rw [htag]
    decide
  · rw [htag]
    decide
  · rw [htag]
    decide

theorem Inv.observe (h : Inv w) (hcalm : w.Undisturbed .observe)
    (hstep : w.observe = some w') : Inv w' := by
  unfold World.observe at hstep
  split at hstep
  · cases hstep
  next answer rest hanswers =>
  obtain ⟨names, hobs, rfl⟩ := map_eq_some_iff.mp hstep
  obtain ⟨made, pending, failed, fin, m, hstage⟩ := h.stage
  have hflight := hstage.flight
  have hunconf := hstage.unconfirmed
  have hprogress := hstage.progress
  rw [hanswers] at hflight
  -- an answer that does not end the batch leaves the gateway waiting for that
  have hwait (htag : ¬ answer.Is 'Z') : (w.waiting && !decide (answer.Is 'Z')) = w.waiting := by
    rw [decide_eq_false htag]
    exact Bool.and_true _
  cases hflight with
  | neutral hneutral hrest =>
    obtain rfl : w.names = names := some.inj ((observe_of_neutral w.names hneutral).symm.trans hobs)
    have hkept := hwait (tag_of_neutral hneutral).2
    refine ⟨h.balanced, h.named, h.endsLast, fun hnot => h.reading (hkept ▸ hnot), made, pending,
      failed, fin, m, hunconf, hrest, hstage.traced, hstage.covers, fun status hfin => ?_, ?_⟩
    · obtain ⟨hqueue, hskipping, hwait, hrest⟩ := hstage.finished status hfin
      exact ⟨hqueue, hskipping, hkept.trans hwait, hrest⟩
    · rcases hprogress with hclean | hbroken
      · exact .inl ⟨hclean.skipping, hclean.failed, hclean.missedBind, hclean.changes, hclean.replays⟩
      · exact .inr ⟨hbroken.skipping, hbroken.failed, hbroken.portal⟩
  | @confirms u _ _ made _ _ hconfirms hrest =>
    have hplain := tag_of_confirms hconfirms
    have hpops : w.names.confirms answer.tag answer.body = true := by
      unfold Names.confirms
      rw [hunconf]
      exact hconfirms
    rw [observe_of_answer _ _ hplain.1 hplain.2, hpops] at hobs
    cases hobs
    have hkept := hwait hplain.2
    refine ⟨h.balanced, h.named, h.endsLast, fun hnot => h.reading (hkept ▸ hnot), made, pending,
      failed, fin, m, congrArg List.tail hunconf, hrest, hstage.traced, hstage.covers, fun status hfin => ?_, ?_⟩
    · obtain ⟨hqueue, hskipping, hwait, hrest⟩ := hstage.finished status hfin
      exact ⟨hqueue, hskipping, hkept.trans hwait, hrest⟩
    · rcases hprogress with hclean | hbroken
      · exact .inl ⟨hclean.skipping, hclean.failed, hclean.missedBind, hclean.changes, hclean.replays⟩
      · refine .inr ⟨hbroken.skipping, ?_, hbroken.portal⟩
        exact hbroken.failed.imp_right fun hnil => absurd hnil (cons_ne_nil _ _)
  | error body hrest =>
    obtain ⟨names', hspec, hbal, hnone, hportal, hlookup⟩ := observe_error_spec h.balanced body
    obtain rfl : names' = names := some.inj (hspec.symm.trans hobs)
    have hrestored : names'.statements.lookup = m := by
      rw [hlookup, hunconf]
      exact hstage.traced.restore
    have hkept := hwait (by change byte 'E' ≠ byte 'Z'; decide)
    rcases hprogress with hclean | hbroken
    · cases hclean.failed
    refine ⟨hbal, h.named, h.endsLast, fun hnot => h.reading (hkept ▸ hnot), [], [], false, fin, m,
      hnone, hrest, hrestored, hstage.covers, fun status hfin => ?_, .inr ⟨hbroken.skipping, .inr rfl, ?_⟩⟩
    · obtain ⟨hqueue, hskipping, hwait, hrest⟩ := hstage.finished status hfin
      exact ⟨hqueue, hskipping, hkept.trans hwait, hrest⟩
    · rw [hportal]
      exact hbroken.portal
  | ready status hrest =>
    obtain ⟨hqueue, hskipping, _, hmissed, hidle⟩ := hstage.finished status rfl
    obtain ⟨names', hspec, hbal, hnone, hportal, hlookup⟩ := settle_spec h.balanced (some status == some (byte 'I'))
    obtain rfl : names' = names := some.inj (hspec.symm.trans hobs)
    have hcovers : Covers names'.statements.lookup w.server.statements := by
      rw [hlookup, hunconf]
      exact covers_settle hstage.traced hstage.covers fun name prepared hprepared =>
        hcalm _ rest hanswers rfl name prepared hprepared
    have hcov := hstage.portalCovered hqueue hmissed
    refine ⟨hbal, h.named, h.endsLast, fun _ entry hentry => ?_, [], [], false, none,
      names'.statements.lookup, hnone, .of_neutral hrest, rfl, hcovers,
      fun status hfin => (by cases hfin), .inl ⟨hskipping, rfl, hmissed, ?_, names'.unnamedPortal, ?_, ?_⟩⟩
    · rw [hqueue] at hentry
      cases hentry
    · rw [hqueue]
      rfl
    · rw [hqueue]
      rfl
    · rw [hportal]
      by_cases hstatus : status = byte 'I'
      · rw [hidle hstatus]
        exact .none _
      · rw [if_neg fun h => hstatus (some.inj (beq_iff_eq.mp h))]
        exact hcov

/-- An undisturbed event keeps the bookkeeping. -/
theorem Inv.step (h : Inv w) (event : Event) (hcalm : w.Undisturbed event)
    (hstep : w.step event = some w') : Inv w' := by
  cases event with
  | unit => exact h.unit hstep
  | run => exact h.run hstep
  | fail => exact h.fail hstep
  | skip => exact h.skip hstep
  | ready => exact h.ready hcalm hstep
  | chatter answer =>
    change (if neutral answer = true then some { w with answers := w.answers ++ [answer] } else none) =
      some w' at hstep
    by_cases hneutral : neutral answer = true
    · rw [if_pos hneutral] at hstep
      cases hstep
      exact h.chatter hneutral
    · rw [if_neg hneutral] at hstep
      cases hstep
  | portalEnds name =>
    cases hstep
    exact h.portalEnds name
  | observe => exact h.observe hcalm hstep

/-- Nothing is tracked at first. -/
theorem inv_init : Inv .init := by
  refine ⟨rfl, nofun, fun before message after hnil => ?_, nofun, [], [], false, none, fun _ => none, rfl, .done,
    rfl, nofun, nofun, .inl ⟨rfl, rfl, rfl, rfl, none, rfl, .none none⟩⟩
  exact absurd (congrArg List.length hnil) (by simp [World.init])

end Steps

/-- In every session in which nothing that the gateway does not take back matters, the server runs
nothing but what was judged at least as strictly, in whatever order the units, the answers and the
server's work come. -/
theorem tracking_sound {events : List Event} {w : World}
    (hundisturbed : Runs.Meets World.step World.Undisturbed .init events)
    (hrun : run World.step .init events = some w) : w.Sound :=
  (run_invariant_of_meets World.step (fun _ event _ h hmeets hstep => h.step event hmeets hstep)
    inv_init hundisturbed hrun).sound

section Examples

/-- A classifier for the statements below. -/
def exampleAnalyze (_ : ℕ) (sql : Str) : Analysis :=
  if sql = "EXECUTE n".toList then ⟨.judged .read, sql, [.execute "n".toList]⟩
  else if sql = "EXECUTE m".toList then ⟨.judged .read, sql, [.execute "m".toList]⟩
  else if sql = "DELETE FROM t".toList then ⟨.judged .write, sql, []⟩
  else if sql = "SELECT x FROM t".toList then ⟨.judged .read, sql, []⟩
  else ⟨.housekeeping, sql, []⟩

/-- `Parse`, without parameter types. -/
def parseFrame (name sql : String) : Frame := ⟨byte 'P', bytes name ++ 0 :: bytes sql ++ [0, 0, 0]⟩

/-- `Bind`, without parameters. -/
def bindFrame (portal statement : String) : Frame :=
  ⟨byte 'B', bytes portal ++ 0 :: bytes statement ++ [0, 0, 0, 0, 0, 0, 0]⟩

/-- `Execute`, without a row limit. -/
def executeFrame (portal : String) : Frame := ⟨byte 'E', bytes portal ++ [0, 0, 0, 0, 0]⟩

/-- `CommandComplete`. -/
def commandComplete (command : String) : Frame := ⟨byte 'C', bytes command ++ [0]⟩

/-- A unit is sent that the server runs without an error, with these answers. -/
def completed (frames answers : List Frame) (status : Char) : List Event :=
  .unit exampleAnalyze frames true :: answers.map (fun answer => .run (some answer)) ++
    .ready (byte status) :: List.replicate (answers.length + 1) .observe

/-- A statement that deletes is prepared and bound. -/
def boundEvents : List Event :=
  [.unit exampleAnalyze [parseFrame "n" "DELETE FROM t", bindFrame "" "n", ⟨byte 'S', []⟩] true,
    .run (some ⟨byte '1', []⟩)]

/-- The server comes to the `Bind`, which was judged a write. -/
theorem tracking_sound_bound : ∃ w, run World.step .init boundEvents = some w ∧
    w.queue.head? = some (.bind [] (bytes "n"), .judged .write) ∧ w.Sound := by
  have hrun : (run World.step .init boundEvents).map (fun w => w.queue.head?) =
      some (some (.bind [] (bytes "n"), .judged .write)) := by decide +kernel
  obtain ⟨w, hw, hqueue⟩ := Option.map_eq_some_iff.mp hrun
  have hundisturbed : Runs.Meets World.step World.Undisturbed .init boundEvents :=
    And.intro trivial fun _ _ => And.intro trivial fun _ _ => trivial
  exact ⟨w, hw, hqueue, tracking_sound hundisturbed hw⟩

/-- In a transaction the unnamed portal runs a statement by name that deletes. A batch after a
savepoint fails before its `Bind` of the unnamed portal, and the transaction goes on from the
savepoint. -/
def missedBindEvents : List Event :=
  [.unit exampleAnalyze [⟨byte 'Q', bytes "BEGIN" ++ [0]⟩] true, .ready (byte 'T'), .observe] ++
  completed [parseFrame "n" "DELETE FROM t", parseFrame "s" "EXECUTE n", bindFrame "" "s",
      parseFrame "v" "SAVEPOINT a", bindFrame "p" "v", executeFrame "p", ⟨byte 'S', []⟩]
    [⟨byte '1', []⟩, ⟨byte '1', []⟩, ⟨byte '2', []⟩, ⟨byte '1', []⟩, ⟨byte '2', []⟩,
      commandComplete "SAVEPOINT"] 'T' ++
  [.unit exampleAnalyze [parseFrame "x" "SELECT x FROM t", bindFrame "" "x", ⟨byte 'S', []⟩] true,
    .fail [], .skip, .skip, .ready (byte 'E'), .observe, .observe] ++
  [.unit exampleAnalyze [parseFrame "r" "ROLLBACK TO a", bindFrame "q" "r", executeFrame "q",
      executeFrame "", ⟨byte 'S', []⟩] true,
    .run (some ⟨byte '1', []⟩), .run (some ⟨byte '2', []⟩), .run (some (commandComplete "ROLLBACK"))]

/-- The `Execute` of the unnamed portal was judged to run nothing, and deletes. -/
theorem missedBind_unsound :
    ∃ w, run World.step .init missedBindEvents = some w ∧ ¬ w.Sound ∧
      (∃ rest, w.queue = (.execute [], .housekeeping) :: rest) ∧
      ∃ prepared, w.server.portals [] = some prepared ∧ prepared.executes = some (bytes "n") := by
  have hrun : (run World.step .init missedBindEvents).map (fun w =>
      (w.queue.head?, w.server.skipping, w.server.portals [], w.server.statements (bytes "n"))) =
      some (some (.execute [], .housekeeping), none, some ⟨.judged .read, "EXECUTE n".toList, some (bytes "n")⟩,
        some ⟨.judged .write, "DELETE FROM t".toList, none⟩) := by decide +kernel
  obtain ⟨w, hw, hstate⟩ := Option.map_eq_some_iff.mp hrun
  obtain ⟨hhead, hstate⟩ := Prod.mk.inj hstate
  obtain ⟨hskipping, hstate⟩ := Prod.mk.inj hstate
  obtain ⟨hportal, hstatement⟩ := Prod.mk.inj hstate
  obtain ⟨rest, hqueue⟩ := List.head?_eq_some_iff.mp hhead
  refine ⟨w, hw, fun hsound => ?_, ⟨rest, hqueue⟩, _, hportal, rfl⟩
  have hstarts : w.server.starts (.execute []) = some ⟨.judged .read, "EXECUTE n".toList, some (bytes "n")⟩ := by
    change (w.server.portals []).filter _ = _
    rw [hportal]
    rfl
  have hreaches : Reaches w.server.statements ⟨.judged .read, "EXECUTE n".toList, some (bytes "n")⟩
      ⟨.judged .write, "DELETE FROM t".toList, none⟩ := .executes rfl hstatement (.refl _)
  exact absurd (hsound _ _ rest hqueue hskipping _ _ hstarts hreaches) (by decide)

end Examples

end Onecli.Postgres.Tracking
