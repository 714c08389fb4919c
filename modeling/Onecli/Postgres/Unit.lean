import Onecli.Gateway.Text
import Onecli.Foundation.Table

/-!
# What a database statement does

`dbproxy/src/statement.rs`: the class that a statement is judged by, and the verdict for
several parts of one unit. The verdicts are ordered by strictness, and combining two of them
takes the stricter.
-/

namespace Onecli.Postgres

open Gateway (Str)

/-- `StatementClass`, from least to most powerful. -/
inductive StatementClass where
  | read
  | write
  | schema
  deriving DecidableEq

/-- The order that `StatementClass` derives. -/
def StatementClass.rank : StatementClass → ℕ
  | .read => 0
  | .write => 1
  | .schema => 2

/-- `Classified`. -/
inductive Classified where
  | housekeeping
  | judged (c : StatementClass)
  | forbidden (reason : Str)
  | unparseable (error : Str)
  deriving DecidableEq

/-- `Ord::max` of two classes. -/
def StatementClass.max (a b : StatementClass) : StatementClass := if b.rank < a.rank then a else b

/-- `Classified::combine`. -/
def Classified.combine (a b : Classified) : Classified :=
  match a, b with
  | .unparseable error, _ => .unparseable error
  | _, .unparseable error => .unparseable error
  | .forbidden reason, _ => .forbidden reason
  | _, .forbidden reason => .forbidden reason
  | .housekeeping, other => other
  | other, .housekeeping => other
  | .judged a, .judged b => .judged (a.max b)

/-- Strictness, in the order that `combine` takes the larger of. -/
def Classified.rank : Classified → ℕ
  | .housekeeping => 0
  | .judged c => 1 + c.rank
  | .forbidden _ => 4
  | .unparseable _ => 5

/-- A verdict that is refused whatever the policy says. -/
def Classified.Refused (c : Classified) : Prop := 4 ≤ c.rank

instance (c : Classified) : Decidable c.Refused := inferInstanceAs (Decidable (4 ≤ c.rank))

theorem StatementClass.rank_le (c : StatementClass) : c.rank ≤ 2 := by
  cases c <;> decide

theorem StatementClass.rank_max (a b : StatementClass) : (a.max b).rank = Nat.max a.rank b.rank := by
  unfold StatementClass.max
  split
  · next h => exact (Nat.max_eq_left (Nat.le_of_lt h)).symm
  · next h => exact (Nat.max_eq_right (Nat.le_of_not_lt h)).symm

/-- The stricter classification wins. -/
theorem Classified.rank_combine (a b : Classified) : (a.combine b).rank = Nat.max a.rank b.rank := by
  cases a with
  | housekeeping => cases b <;> simp [combine, rank]
  | judged c =>
    have hc := c.rank_le
    cases b with
    | housekeeping => simp [combine, rank]
    | judged => simp [combine, rank, StatementClass.rank_max, Nat.add_max_add_left]
    | _ => simp only [combine, rank]; exact (Nat.max_eq_right (by omega)).symm
  | _ =>
    cases b with
    | judged d =>
      have hd := d.rank_le
      simp only [combine, rank]
      exact (Nat.max_eq_left (by omega)).symm
    | _ => rfl

theorem Classified.rank_le_combine_left (a b : Classified) : a.rank ≤ (a.combine b).rank := by
  rw [rank_combine]
  exact Nat.le_max_left _ _

theorem Classified.rank_le_combine_right (a b : Classified) : b.rank ≤ (a.combine b).rank := by
  rw [rank_combine]
  exact Nat.le_max_right _ _

/-! ## The prepared statements that the gateway tracks

`dbproxy-postgres/src/names.rs`. `Names` follows the server's statements: a change is applied
as it is sent, and taken back or made uncertain by the server's answers. `Draft` holds the
changes of one unit while it is judged. The running byte count is a `usize`; a subtraction
that would take it below zero panics, which is `none` here.
-/

open Gateway (Str byteLen fromUtf8Lossy)

/-- `MAX_IDENTIFIER_BYTES`. -/
def maxIdentifierBytes : ℕ := 63

/-- `MAX_PREPARED_BYTES`. -/
def maxPreparedBytes : ℕ := 2 * 1024 * 1024

/-- `ENTRY_BYTES`. -/
def entryBytes : ℕ := 64

/-- `MAX_EXECUTE_DEPTH`. -/
def maxExecuteDepth : ℕ := 8

/-- `Key`: a name as the server keys its prepared statements and portals. -/
abbrev Key := List UInt8

/-- `key`: the first 63 bytes of a name. -/
def key (name : List UInt8) : Key := name.take maxIdentifierBytes

/-- `Prepared`. -/
structure Prepared where
  classified : Classified
  audit : Str
  executes : Option Key
  deriving DecidableEq

/-- `Prepared::unseen`: what was prepared out of view runs as at least a write. -/
def Prepared.unseen (name : List UInt8) : Prepared := ⟨.judged .write, "EXECUTE ".toList ++ fromUtf8Lossy name, none⟩

/-- `Prepared::cost`. -/
def Prepared.cost (name : Key) (prepared : Prepared) : ℕ :=
  entryBytes + name.length + byteLen prepared.audit + (prepared.executes.map List.length).getD 0

/-- `Via`. -/
inductive Via where
  | message
  | sql
  deriving DecidableEq

/-- `Change`. -/
inductive Change where
  | prepare (name : Key) (prepared : Prepared)
  | deallocate (name : Key)
  | deallocateAll
  | closePortal

/-- The byte of an ASCII character. -/
def byte (c : Char) : UInt8 := c.toNat.toUInt8

/-- The bytes of an ASCII literal. -/
def bytes (s : String) : List UInt8 := s.toList.map byte

/-- `Change::confirmed_by`. -/
def Change.confirmedBy (change : Change) (via : Via) (tag : UInt8) (command : List UInt8) : Bool :=
  match via with
  | .message =>
    match change with
    | .prepare _ _ => tag == byte '1'
    | .deallocate _ => tag == byte '3'
    | .closePortal => tag == byte '3'
    | .deallocateAll => false
  | .sql =>
    tag == byte 'C' &&
      match change with
      | .prepare _ _ => command == bytes "PREPARE"
      | .deallocate _ => command == bytes "DEALLOCATE"
      | .deallocateAll => command == bytes "DEALLOCATE ALL" || command == bytes "DISCARD ALL"
      | .closePortal => false

/-- `Before`: what a change replaced. -/
inductive Before where
  | statement (name : Key) (prepared : Option Prepared)
  | statements (all : Table Key Prepared)
  | nothing

/-- `Unconfirmed`. -/
structure Unconfirmed where
  change : Change
  via : Via
  before : Before

/-- `Names`. -/
structure Names where
  statements : Table Key Prepared
  statementBytes : ℕ
  unnamedPortal : Option Prepared
  unconfirmed : List Unconfirmed

/-- `Names::default`. -/
def Names.default : Names := ⟨.empty, 0, none, []⟩

/-- `Sent`: a unit's changes, ready to apply as it is sent. -/
structure Sent where
  changes : List (Change × Via)
  unnamedPortal : Option (Option Prepared)

namespace Names

/-- `Names::take`. -/
def take (names : Names) (name : Key) : Option (Names × Option Prepared) :=
  match names.statements.lookup name with
  | none => some (names, none)
  | some taken =>
    if names.statementBytes < taken.cost name then none
    else some ({ names with
      statements := names.statements.erase name
      statementBytes := names.statementBytes - taken.cost name }, some taken)

/-- `Names::put`. -/
def put (names : Names) (name : Key) (prepared : Prepared) : Option (Names × Option Prepared) := do
  let (names, before) ←
    take { names with statementBytes := names.statementBytes + prepared.cost name } name
  return ({ names with statements := names.statements.insert name prepared }, before)

/-- One change of a unit, applied as it is sent. -/
def apply (names : Names) (change : Change) : Option (Names × Before) :=
  match change with
  | .prepare name prepared => do
    let (names, before) ← names.put name prepared
    return (names, .statement name before)
  | .deallocate name => do
    let (names, before) ← names.take name
    return (names, .statement name before)
  | .deallocateAll => some ({ names with statementBytes := 0, statements := .empty }, .statements names.statements)
  | .closePortal => some (names, .nothing)

/-- One round of the loop of `Names::send`. -/
def sendChange (names : Names) (change : Change × Via) : Option Names := do
  let (names, before) ← names.apply change.1
  return { names with unconfirmed := names.unconfirmed ++ [⟨change.1, change.2, before⟩] }

/-- `Names::send`. -/
def send (names : Names) (sent : Sent) : Option Names :=
  sent.changes.foldlM sendChange
    { names with unnamedPortal := sent.unnamedPortal.getD names.unnamedPortal }

/-- What an error does to one unconfirmed change: it is taken back. -/
def takeBack (names : Names) (unconfirmed : Unconfirmed) : Option Names :=
  match unconfirmed.before with
  | .statement name (some prepared) => (names.put name prepared).map Prod.fst
  | .statement name none => (names.take name).map Prod.fst
  | .statements all => all.entries.foldlM (fun names (name, prepared) => (names.put name prepared).map Prod.fst) names
  | .nothing => some names

/-- `Names::uncertain`. -/
def uncertain (names : Names) (name : Key) (before : Option Prepared) : Option Names := do
  let (names, after) ← names.take name
  let after := after.getD (.unseen name)
  let before := before.getD (.unseen name)
  let (names, _) ← names.put name
    ⟨after.classified.combine before.classified, after.audit, after.executes.or before.executes⟩
  return names

/-- What the end of the batch does to one unconfirmed change: its name becomes uncertain. -/
def settleChange (names : Names) (unconfirmed : Unconfirmed) : Option Names :=
  match unconfirmed.before with
  | .statement name before => names.uncertain name before
  | .statements all => all.entries.foldlM (fun names (name, before) => names.uncertain name (some before)) names
  | .nothing => some names

/-- `Names::settle`. -/
def settle (names : Names) (idle : Bool) : Option Names := do
  let names ← names.unconfirmed.foldlM settleChange { names with unconfirmed := [] }
  return if idle then { names with unnamedPortal := none } else names

/-- The command tag of a `CommandComplete`; other messages have none. -/
def commandTag (tag : UInt8) (body : List UInt8) : List UInt8 := if tag = byte 'C' then body.takeWhile (· ≠ 0) else []

/-- The oldest unconfirmed change is the one that a message confirms. -/
def confirms (names : Names) (tag : UInt8) (body : List UInt8) : Bool :=
  names.unconfirmed.head?.any fun u => u.change.confirmedBy u.via tag (commandTag tag body)

/-- `Names::observe`. -/
def observe (names : Names) (tag : UInt8) (body : List UInt8) : Option Names :=
  if tag = byte '1' ∨ tag = byte '3' ∨ tag = byte 'C' then
    if names.confirms tag body then some { names with unconfirmed := names.unconfirmed.tail }
    else some names
  else if tag = byte 'E' then
    -- newest first
    names.unconfirmed.reverse.foldlM takeBack { names with unconfirmed := [] }
  else if tag = byte 'Z' then names.settle (body.head? == some (byte 'I'))
  else some names

end Names

/-! ## The changes of one unit -/

/-- `reason::UNCHECKABLE`. -/
def reasonUncheckable : Str := "OneCLI could not check it".toList

/-- `reason::TOO_MANY_PREPARED`. -/
def reasonTooManyPrepared : Str :=
  ("this session already holds as many prepared statements as " ++ "OneCLI tracks; deallocate some first").toList

/-- `reason::NAMED_PORTAL_EXECUTE`. -/
def reasonNamedPortalExecute : Str :=
  ("it binds a statement that runs another prepared " ++
    "statement by name to a named portal, which OneCLI cannot follow; bind it to the unnamed " ++ "portal").toList

/-- `Draft`. -/
structure Draft where
  names : Names
  /-- `none`: deallocated in this unit. -/
  statements : Table Key (Option Prepared)
  allDeallocated : Bool
  unnamedPortal : Option (Option Prepared)
  addedBytes : ℕ
  changes : List (Change × Via)

namespace Draft

/-- `Draft::new`. -/
def new (names : Names) : Draft := ⟨names, .empty, false, none, 0, []⟩

/-- The statement at a key at this point of the unit, when there is one. -/
def current (draft : Draft) (name : Key) : Option Prepared :=
  match draft.statements.lookup name with
  | some current => current
  | none => if draft.allDeallocated then none else draft.names.statements.lookup name

/-- `Draft::statement`. -/
def statement (draft : Draft) (name : List UInt8) : Prepared := (draft.current (key name)).getD (.unseen (key name))

/-- The loop of `Draft::runs`, with the statements that are still followed. -/
def follow (draft : Draft) : ℕ → Classified → Option Key → Classified
  | _, classified, none => classified
  | 0, classified, some _ => classified.combine (.forbidden reasonUncheckable)
  | depth + 1, classified, some name =>
    let executed := draft.statement name
    draft.follow depth (classified.combine executed.classified) executed.executes

/-- `Draft::runs`. -/
def runs (draft : Draft) (prepared : Prepared) : Classified :=
  draft.follow maxExecuteDepth prepared.classified prepared.executes

/-- `Draft::runs_statement`. -/
def runsStatement (draft : Draft) (name : List UInt8) : Classified := draft.runs (draft.statement name)

/-- `Draft::bind`. -/
def bind (draft : Draft) (portal statement : List UInt8) : Draft × Classified × Str :=
  let prepared := draft.statement statement
  let classified := draft.runs prepared
  let lateBound := prepared.executes.isSome
  if portal = [] then
    ({ draft with unnamedPortal := some (if lateBound then some prepared else none) }, classified, prepared.audit)
  else if lateBound then (draft, .forbidden reasonNamedPortalExecute, prepared.audit)
  else (draft, classified, prepared.audit)

/-- `Draft::execute`. -/
def execute (draft : Draft) (portal : List UInt8) : Classified :=
  let bound := draft.unnamedPortal.getD draft.names.unnamedPortal
  match if portal = [] then bound else none with
  | some prepared => draft.runs prepared
  | none => .housekeeping

/-- `Draft::prepare`. -/
def prepare (draft : Draft) (name : List UInt8) (prepared : Prepared) (via : Via) :
    Except Str Draft :=
  let name := key name
  let cost := prepared.cost name
  if maxPreparedBytes < draft.names.statementBytes + draft.addedBytes + cost then
    .error reasonTooManyPrepared
  else .ok { draft with
    addedBytes := draft.addedBytes + cost
    statements := draft.statements.insert name (some prepared)
    changes := draft.changes ++ [(.prepare name prepared, via)] }

/-- `Draft::deallocate`. -/
def deallocate (draft : Draft) (name : List UInt8) (via : Via) : Draft :=
  { draft with
    statements := draft.statements.insert (key name) none
    changes := draft.changes ++ [(.deallocate (key name), via)] }

/-- `Draft::deallocate_all`. -/
def deallocateAll (draft : Draft) : Draft :=
  { draft with
    statements := .empty
    allDeallocated := true
    changes := draft.changes ++ [(.deallocateAll, .sql)] }

/-- `Draft::close_portal`. -/
def closePortal (draft : Draft) : Draft := { draft with changes := draft.changes ++ [(.closePortal, .message)] }

/-- `Draft::finish`. -/
def finish (draft : Draft) : Sent := ⟨draft.changes, draft.unnamedPortal⟩

end Draft

/-! ## Judging one unit

`UnitBuffer` and `judge` of `dbproxy-postgres/src/session.rs`, with the message bodies they read
(`wire.rs`). A unit is a simple query, a lone `Terminate` or `FunctionCall`, or the
extended-protocol messages up to a `Sync` or `Flush`. The SQL classifier is a parameter, given
the number of the message in its unit: the parse pool may refuse any one text.
-/

open Gateway (Str asBytes byteLen fromUtf8Lossy)

/-- `Frame`. -/
structure Frame where
  tag : UInt8
  body : List UInt8
  deriving DecidableEq

/-- `Frame::as_bytes().len()`: the tag, the length and the body. -/
def Frame.size (frame : Frame) : ℕ := 5 + frame.body.length

/-- The frame has the tag of an ASCII letter. -/
def Frame.Is (frame : Frame) (c : Char) : Prop := frame.tag = byte c

instance (frame : Frame) (c : Char) : Decidable (frame.Is c) := inferInstanceAs (Decidable (_ = _))

/-- `MAX_UNIT_MESSAGES`. -/
def maxUnitMessages : ℕ := 10000

/-- `MAX_UNIT_BYTES`. -/
def maxUnitBytes : ℕ := 2 * (16 * 1024 * 1024)

/-- `classify::MAX_AUDIT_CHARS`. -/
def maxAuditChars : ℕ := 4000

/-- `reason::FUNCTION_CALL`. -/
def reasonFunctionCall : Str :=
  ("it uses the protocol's direct function call, which OneCLI " ++
    "cannot check; call the function from a SELECT instead").toList

/-- `UnitBuffer`. -/
structure UnitBuffer where
  frames : List Frame
  bytes : ℕ

/-- `UnitBuffer::default`. -/
def UnitBuffer.empty : UnitBuffer := ⟨[], 0⟩

/-- The last message of the frames completes their unit. -/
def completes (frames : List Frame) (frame : Frame) : Bool :=
  if frame.Is 'Q' ∨ frame.Is 'X' ∨ frame.Is 'F' then frames.length == 1
  else decide (frame.Is 'S' ∨ frame.Is 'H')

/-- `UnitBuffer::push`; `none` where the unit is too large. -/
def UnitBuffer.push (unit : UnitBuffer) (frame : Frame) : Option (UnitBuffer × Bool) :=
  let frames := unit.frames ++ [frame]
  let bytes := unit.bytes + frame.size
  if maxUnitMessages < frames.length ∨ maxUnitBytes < bytes then none
  else some (⟨frames, bytes⟩, completes frames frame)

/-- `Effect`. -/
inductive Effect where
  | prepare (name : Str) (runs : Classified) (audit : Str)
  | execute (name : Str)
  | deallocate (name : Str)
  | deallocateAll

/-- `Analysis`. -/
structure Analysis where
  classified : Classified
  audit : Str
  effects : List Effect

/-- `Reader::name`: the bytes up to a NUL, and what follows it. -/
def readName (body : List UInt8) : Option (List UInt8 × List UInt8) :=
  if 0 ∈ body then some (body.takeWhile (· ≠ 0), (body.dropWhile (· ≠ 0)).tail) else none

/-- `String::from_utf8`: the text that decoding loses nothing of. -/
def fromUtf8 (bytes : List UInt8) : Option Str :=
  if asBytes (fromUtf8Lossy bytes) = bytes then some (fromUtf8Lossy bytes) else none

/-- `Reader::cstr`. -/
def readCstr (body : List UInt8) : Option (Str × List UInt8) := do
  let (name, rest) ← readName body
  let text ← fromUtf8 name
  return (text, rest)

/-- `cstr`. -/
def cstr (frame : Frame) : Option Str := (readCstr frame.body).map Prod.fst

/-- `name_message`. -/
def nameMessage (frame : Frame) : Option (List UInt8) := (readName frame.body).map Prod.fst

/-- `parse_message`. -/
def parseMessage (frame : Frame) : Option (List UInt8 × Str) := do
  let (name, rest) ← readName frame.body
  let (sql, _) ← readCstr rest
  return (name, sql)

/-- `bind_message`. -/
def bindMessage (frame : Frame) : Option (List UInt8 × List UInt8) := do
  let (portal, rest) ← readName frame.body
  let (statement, _) ← readName rest
  return (portal, statement)

/-- `close_message`. -/
def closeMessage (frame : Frame) : Option (UInt8 × List UInt8) :=
  match frame.body with
  | [] => none
  | kind :: rest => (readName rest).map fun (name, _) => (kind, name)

/-- `add_audit`. -/
def addAudit (audit more : Str) : Str :=
  if more.isEmpty || decide (maxAuditChars * 4 < byteLen audit) then audit
  else (if audit.isEmpty then [] else audit ++ "; ".toList) ++ more

/-- The effects of a statement that the protocol prepares: at most one `EXECUTE`. -/
def parseEffects (classified : Classified) (effects : List Effect) : Classified × Option Key :=
  effects.foldl (fun (classified, executes) effect =>
    match effect, executes with
    | .execute name, none => (classified, some (key (asBytes name)))
    | _, executes => (classified.combine (.forbidden reasonUncheckable), executes))
    (classified, none)

/-- `parse`. -/
def parse (name : List UInt8) (analysis : Analysis) (draft : Draft) : Draft × Classified :=
  let (classified, executes) := parseEffects analysis.classified analysis.effects
  let verdict := if classified.Refused then classified else .housekeeping
  match draft.prepare name ⟨classified, analysis.audit, executes⟩ .message with
  | .ok draft => (draft, verdict)
  | .error why => (draft, .forbidden why)

/-- One round of the loop of `sql_effects`. -/
def sqlEffect (draft : Draft) : Effect → Draft × Classified
  | .prepare name runs audit =>
    match draft.prepare (asBytes name) ⟨runs, audit, none⟩ .sql with
    | .ok draft => (draft, .housekeeping)
    | .error why => (draft, .forbidden why)
  | .execute name => (draft, draft.runsStatement (asBytes name))
  | .deallocate name => (draft.deallocate (asBytes name) .sql, .housekeeping)
  | .deallocateAll => (draft.deallocateAll, .housekeeping)

/-- `sql_effects`. -/
def sqlEffects (analysis : Analysis) (draft : Draft) : Draft × Classified :=
  analysis.effects.foldl (fun (draft, verdict) effect =>
    let (draft, effectVerdict) := sqlEffect draft effect
    (draft, verdict.combine effectVerdict)) (draft, analysis.classified)

/-- What the loop of `judge` has made of the messages so far. -/
structure Judging where
  draft : Draft
  classified : Classified
  audit : Str
  synced : Bool

/-- The verdict for one message of a unit. -/
def judgeMessage (analyze : Str → Analysis) (alone : Bool) (j : Judging) (frame : Frame) :
    Judging × Classified :=
  let uncheckable := Classified.forbidden reasonUncheckable
  if frame.Is 'Q' then
    if alone then
      match cstr frame with
      | some sql =>
        let analysis := analyze sql
        let (draft, verdict) := sqlEffects analysis j.draft
        ({ j with draft := draft, audit := addAudit j.audit analysis.audit, synced := true }, verdict)
      | none => (j, uncheckable)
    else (j, uncheckable)
  else if frame.Is 'P' then
    match parseMessage frame with
    | some (name, sql) =>
      let (draft, verdict) := parse name (analyze sql) j.draft
      ({ j with draft := draft }, verdict)
    | none => (j, uncheckable)
  else if frame.Is 'B' then
    match bindMessage frame with
    | some (portal, statement) =>
      let (draft, verdict, audit) := j.draft.bind portal statement
      ({ j with draft := draft, audit := addAudit j.audit audit }, verdict)
    | none => (j, uncheckable)
  else if frame.Is 'E' then
    match nameMessage frame with
    | some portal => (j, j.draft.execute portal)
    | none => (j, uncheckable)
  else if frame.Is 'C' then
    match closeMessage frame with
    | some (kind, name) =>
      if kind = byte 'S' then ({ j with draft := j.draft.deallocate name .message }, .housekeeping)
      else if kind = byte 'P' then ({ j with draft := j.draft.closePortal }, .housekeeping)
      else (j, uncheckable)
    | none => (j, uncheckable)
  else if frame.Is 'S' then ({ j with synced := true }, .housekeeping)
  else if frame.Is 'D' ∨ frame.Is 'H' then (j, .housekeeping)
  else if frame.Is 'F' then (j, .forbidden reasonFunctionCall)
  else (j, uncheckable)

/-- One round of the loop of `judge`. -/
def judgeStep (analyze : ℕ → Str → Analysis) (alone : Bool) (j : Judging) (frame : Frame × ℕ) :
    Judging :=
  let (j, verdict) := judgeMessage (analyze frame.2) alone j frame.1
  { j with classified := j.classified.combine verdict }

/-- `Judged`. -/
structure Judged where
  frames : List Frame
  classified : Classified
  audit : Str
  sent : Sent
  synced : Bool

/-- `judge`. -/
def judge (analyze : ℕ → Str → Analysis) (frames : List Frame) (names : Names) : Judged :=
  let j := frames.zipIdx.foldl (judgeStep analyze (frames.length == 1))
    ⟨.new names, .housekeeping, [], false⟩
  ⟨frames, j.classified, j.audit, j.draft.finish, j.synced⟩

end Onecli.Postgres
