import Onecli.Agents.Types
import Onecli.Foundation.Calls
import Mathlib.Data.List.Basic

/-!
# The mirror of the background processes

`applyProcessState` of `sandbox-process-service.ts` and the sweeps of `due-work.ts` over the process and
watch rows. A frame's handler reads a row in one statement and writes it by its id in a later one, so
that sweeps, fires and other handlers work on the row in between. What a row holds besides is written
once and read by none of these.
-/

namespace Onecli.Agents.Processes

/-- A sandbox and the ref that its supervisor chose for a process. -/
abbrev ProcessKey := ℕ × ℕ

/-- A process and the ref of a watch on it. -/
abbrev WatchKey := ProcessKey × ℕ

/-- The columns of a sandbox row that a frame or the lost sweep reads. -/
structure Sandbox where
  runnerId : ℕ
  status : SandboxStatus
  containerRef : Option ℕ
  stopReason : Option StopReason

/-- A row of `sandbox_processes`. -/
structure Process where
  containerRef : ℕ
  name : Option String
  status : ProcessStatus
  exitCode : Option Int
  signal : Option String
  tail : Option String
  lastOutputAt : Option ℕ
  cpuBusy : Bool
  endedAt : Option ℕ

/-- A row of `process_watches`. -/
structure Watch where
  status : WatchStatus
  trigger : Option WatchTrigger
  excerpt : Option String
  expiresAt : ℕ
  triggeredAt : Option ℕ
  firedAt : Option ℕ

/-- A watch in a frame; the wire has no fired one. -/
structure WatchFrame where
  ref : ℕ
  status : WatchStatus
  onWire : status ≠ .fired
  trigger : Option WatchTrigger
  excerpt : Option String
  expiresAt : ℕ
  triggeredAt : Option ℕ

/-- `ProcessState`; the wire has no lost or parked process. -/
structure ProcessState where
  ref : ℕ
  name : Option String
  status : ProcessStatus
  onWire : status ≠ .lost ∧ status ≠ .parked
  exitCode : Option Int
  signal : Option String
  tail : Option String
  lastOutputAt : Option ℕ
  cpuBusy : Option Bool
  endedAt : Option ℕ
  watches : List WatchFrame

/-- `ProcessStateEvent`, with the runner that is authenticated as its sender. -/
structure ProcessStateEvent where
  runnerId : ℕ
  sandboxId : ℕ
  containerRef : ℕ
  process : ProcessState

/-- The tables, and the processes whose end a frame recorded, which no statement reads. -/
structure Db where
  sandboxes : ℕ → Option Sandbox
  processes : ProcessKey → Option Process
  watches : WatchKey → Option Watch
  recorded : List ProcessKey

/-- A process row is set. -/
def Db.setProcess (db : Db) (key : ProcessKey) (process : Process) : Db :=
  { db with processes := Function.update db.processes key (some process) }

/-- A watch row is set. -/
def Db.setWatch (db : Db) (key : WatchKey) (watch : Watch) : Db :=
  { db with watches := Function.update db.watches key (some watch) }

/-- A frame records the end of a process, when it carries one. -/
def Db.record (db : Db) (key : ProcessKey) (status : ProcessStatus) : Db :=
  if status.terminal then { db with recorded := key :: db.recorded } else db

/-- The next statement of a frame's handler. -/
inductive Handler where
  | idle
  | sandbox (event : ProcessStateEvent)
  | anchor (event : ProcessStateEvent)
  | find (event : ProcessStateEvent)
  | create (event : ProcessStateEvent)
  | refind (event : ProcessStateEvent)
  /-- The row was read with a status that is not terminal. -/
  | update (event : ProcessStateEvent)
  | watches (process : ProcessKey) (rest : List WatchFrame)
  | createWatch (process : ProcessKey) (watch : WatchFrame) (rest : List WatchFrame)
  /-- The row was read armed. -/
  | updateWatch (process : ProcessKey) (watch : WatchFrame) (rest : List WatchFrame)

/-- The key of a frame's process. -/
def ProcessStateEvent.key (event : ProcessStateEvent) : ProcessKey := (event.sandboxId, event.process.ref)

/-- `upsertWatches` from here on. -/
def upsertWatches (process : ProcessKey) (rest : List WatchFrame) : Handler :=
  match rest with
  | [] => .idle
  | rest => .watches process rest

/-- A read row goes on to its update, or is frozen. -/
def updateProcess (event : ProcessStateEvent) (current : ProcessStatus) : Handler :=
  if current.terminal then upsertWatches event.key event.process.watches else .update event

/-- The row that a first frame creates. -/
def createdProcess (event : ProcessStateEvent) : Process where
  containerRef := event.containerRef
  name := event.process.name
  status := event.process.status
  exitCode := event.process.exitCode
  signal := event.process.signal
  tail := event.process.tail
  lastOutputAt := event.process.lastOutputAt
  cpuBusy := event.process.cpuBusy.getD false
  endedAt := event.process.endedAt

/-- The row that a later frame leaves: a running one refreshes it, another ends it. -/
def updatedProcess (now : ℕ) (frame : ProcessState) (row : Process) : Process :=
  let row := { row with
    tail := frame.tail.or row.tail
    lastOutputAt := frame.lastOutputAt.or row.lastOutputAt
    cpuBusy := frame.cpuBusy.getD row.cpuBusy }
  if frame.status = .running then { row with name := frame.name.or row.name }
  else
    { row with
      status := frame.status
      exitCode := frame.exitCode.or row.exitCode
      signal := frame.signal.or row.signal
      endedAt := some (frame.endedAt.getD now) }

/-- The row that a watch's first frame creates. -/
def createdWatch (watch : WatchFrame) : Watch :=
  ⟨watch.status, watch.trigger, watch.excerpt, watch.expiresAt, watch.triggeredAt, none⟩

/-- The row that a frame of an armed watch leaves. -/
def updatedWatch (watch : WatchFrame) (row : Watch) : Watch :=
  { row with
    status := watch.status
    trigger := watch.trigger.or row.trigger
    excerpt := watch.excerpt.or row.excerpt
    triggeredAt := watch.triggeredAt.or row.triggeredAt }

/-- `applyProcessState`, its next statement. -/
def applyProcessState (now : ℕ) (db : Db) : Handler → Option (Db × Handler)
  | .idle => none
  | .sandbox event =>
    match db.sandboxes event.sandboxId with
    | none => some (db, .idle)
    | some sandbox =>
      if sandbox.runnerId ≠ event.runnerId then some (db, .idle)
      else
        match sandbox.containerRef with
        | none => some (db, .anchor event)
        | some containerRef => some (db, if containerRef = event.containerRef then .find event else .idle)
  | .anchor event =>
    let heal (sandbox : Sandbox) : Sandbox :=
      if sandbox.runnerId = event.runnerId ∧ sandbox.containerRef = none then
        { sandbox with containerRef := some event.containerRef }
      else sandbox
    some ({ db with
      sandboxes := Function.update db.sandboxes event.sandboxId ((db.sandboxes event.sandboxId).map heal) },
      .find event)
  | .find event =>
    match db.processes event.key with
    | none => some (db, .create event)
    | some row => some (db, updateProcess event row.status)
  | .create event =>
    match db.processes event.key with
    -- a concurrent create won the unique
    | some _ => some (db, .refind event)
    | none =>
      some ((db.setProcess event.key (createdProcess event)).record event.key event.process.status,
        upsertWatches event.key event.process.watches)
  | .refind event =>
    match db.processes event.key with
    | none => some (db, .idle)
    | some row => some (db, updateProcess event row.status)
  | .update event =>
    match db.processes event.key with
    | none => some (db, .idle)
    | some row =>
      some ((db.setProcess event.key (updatedProcess now event.process row)).record event.key
        event.process.status, upsertWatches event.key event.process.watches)
  | .watches _ [] => some (db, .idle)
  | .watches process (watch :: rest) =>
    match db.watches (process, watch.ref) with
    | none => some (db, .createWatch process watch rest)
    | some row =>
      if row.status = .armed ∧ watch.status ≠ .armed then some (db, .updateWatch process watch rest)
      else some (db, upsertWatches process rest)
  | .createWatch process watch rest =>
    match db.watches (process, watch.ref) with
    | some _ => some (db, upsertWatches process rest)
    | none => some (db.setWatch (process, watch.ref) (createdWatch watch), upsertWatches process rest)
  | .updateWatch process watch rest =>
    match db.watches (process, watch.ref) with
    | none => some (db, .idle)
    | some row => some (db.setWatch (process, watch.ref) (updatedWatch watch row), upsertWatches process rest)

/-- The lost sweep ends a process, or leaves it. -/
def lostProcess (now : ℕ) (sandbox : Sandbox) (process : Process) : Process :=
  if process.status = .running ∧
      (sandbox.status ∈ [.stopped, .failed, .stopping] ∨
        (sandbox.containerRef ≠ none ∧ sandbox.containerRef ≠ some process.containerRef)) then
    { process with
      status :=
        if sandbox.stopReason ≠ none ∧ sandbox.status ∈ [.stopped, .stopping] ∧
            sandbox.containerRef = some process.containerRef then .parked
        else .lost
      endedAt := some now }
  else process

/-- `sweepLostProcesses`. -/
def sweepLostProcesses (now : ℕ) (db : Db) : Db :=
  { db with processes := fun key =>
      match db.sandboxes key.1 with
      | none => db.processes key
      | some sandbox => (db.processes key).map (lostProcess now sandbox) }

/-- The coherence sweep triggers a watch on an ended process. -/
def coherentWatch (now : ℕ) (process : Process) (watch : Watch) : Watch :=
  if watch.status = .armed ∧ process.status.terminal then
    { watch with
      status := .triggered
      trigger :=
        match process.status with
        | .lost => some .lost
        | .parked => some .parked
        | _ => some .exited
      triggeredAt := some now }
  else watch

/-- `sweepWatchCoherence`. -/
def sweepWatchCoherence (now : ℕ) (db : Db) : Db :=
  { db with watches := fun key =>
      match db.processes key.1 with
      | none => db.watches key
      | some process => (db.watches key).map (coherentWatch now process) }

/-- `sweepExpiredWatches`. -/
def sweepExpiredWatches (now : ℕ) (db : Db) : Db :=
  { db with watches := fun key => (db.watches key).map fun watch =>
      if watch.status = .armed ∧ watch.expiresAt < now then { watch with status := .expired } else watch }

/-- A triggered watch gets its end at the fire pass. -/
def settleTriggered (keys : List WatchKey) (settle : Watch → Watch) (db : Db) : Db :=
  { db with watches := fun key => (db.watches key).map fun watch =>
      if key ∈ keys ∧ watch.status = .triggered then settle watch else watch }

/-- `markFired`, of one watch or of a bucket. -/
def markFired (keys : List WatchKey) (now : ℕ) : Db → Db :=
  settleTriggered keys fun watch => { watch with status := .fired, firedAt := some now }

/-- `cancelWatch`. -/
def cancelWatch (key : WatchKey) : Db → Db := settleTriggered [key] fun watch => { watch with status := .canceled }

/-- What a call does next: a frame arrives or its handler goes on or dies, or one statement of a sweep
or of the fire pass runs, or a sandbox row is written by other services. -/
inductive Choice where
  | deliver (event : ProcessStateEvent)
  | proceed (now : ℕ)
  | crash
  | lost (now : ℕ)
  | coherence (now : ℕ)
  | expired (now : ℕ)
  | fire (keys : List WatchKey) (now : ℕ)
  | cancel (key : WatchKey)
  | sandbox (id : ℕ) (row : Option Sandbox)

/-- One statement. -/
def exec : Calls.Exec Db Handler Choice
  | .deliver event, db, .idle => some (db, .sandbox event)
  | .deliver _, _, _ => none
  | .proceed now, db, point => applyProcessState now db point
  | .crash, db, _ => some (db, .idle)
  | .lost now, db, point => some (sweepLostProcesses now db, point)
  | .coherence now, db, point => some (sweepWatchCoherence now db, point)
  | .expired now, db, point => some (sweepExpiredWatches now db, point)
  | .fire keys now, db, point => some (markFired keys now db, point)
  | .cancel key, db, point => some (cancelWatch key db, point)
  | .sandbox id row, db, point => some ({ db with sandboxes := Function.update db.sandboxes id row }, point)

/-! ## Ends of processes and watches

An ended row keeps its status through the sweeps and the fires, which name the status that they
end in their own statement. A frame's handler looks at the status in one statement and writes in a
later one: the ends are final in a run, and each process ends from one frame at most, exactly when no
handler writes an end over a row that ended after it was read.
-/

open Option

open Function (update update_of_ne update_self)

section Kept

variable {K R S : Type*} {status : R → S} {terminal : S → Bool} {rows rows' rows'' : K → Option R}

/-- Every row that has ended stays, with its status. -/
def Kept (status : R → S) (terminal : S → Bool) (rows rows' : K → Option R) : Prop :=
  ∀ key row, rows key = some row → terminal (status row) → ∃ row', rows' key = some row' ∧ status row' = status row

theorem kept_refl : Kept status terminal rows rows := fun _ row hrow _ => ⟨row, hrow, rfl⟩

theorem Kept.trans (h : Kept status terminal rows rows') (h' : Kept status terminal rows' rows'') :
    Kept status terminal rows rows'' := by
  intro key row hrow hend
  obtain ⟨row', hrow', hstatus⟩ := h key row hrow hend
  rw [← hstatus] at hend ⊢
  exact h' key row' hrow' hend

theorem kept_of_map {change : K → R → R} (hrows : ∀ key, rows' key = (rows key).map (change key))
    (hend : ∀ key row, terminal (status row) → status (change key row) = status row) :
    Kept status terminal rows rows' := by
  intro key row hrow hterm
  refine ⟨change key row, ?_, hend key row hterm⟩
  rw [hrows, hrow, map_some]

variable [DecidableEq K] {key : K} {row new : R}

/-- A new row takes no end away. -/
theorem kept_of_create (hnone : rows key = none) :
    Kept status terminal rows (update rows key (some new)) := by
  intro other row hrow _
  have hne : other ≠ key := by
    rintro rfl
    cases hnone.symm.trans hrow
  exact ⟨row, (update_of_ne hne ..).trans hrow, rfl⟩

/-- An update keeps the ends exactly where it keeps that of its row. -/
theorem kept_update_iff (hrow : rows key = some row) :
    Kept status terminal rows (update rows key (some new)) ↔ (terminal (status row) → status new = status row) := by
  constructor
  · intro hkept hend
    obtain ⟨row', hrow', hstatus⟩ := hkept key row hrow hend
    rw [update_self] at hrow'
    exact some.inj hrow' ▸ hstatus
  · intro hsame other old hold hend
    by_cases hother : other = key
    · subst hother
      cases hrow.symm.trans hold
      exact ⟨new, update_self .., hsame hend⟩
    · exact ⟨old, (update_of_ne hother ..).trans hold, rfl⟩

end Kept

/-- The frames that a row has its end from: the sweep's ends have none. -/
def framesOf : Option Process → ℕ
  | none => 0
  | some row => if row.status = .exited ∨ row.status = .stopped then 1 else 0

/-- As many frames recorded an end of a process as its row has its end from. -/
def Db.Counted (db : Db) : Prop := ∀ key, db.recorded.count key = framesOf (db.processes key)

/-- What has ended stays as it ended, and no process has ended from two frames. -/
structure Final (db db' : Db) : Prop where
  processes : Kept Process.status ProcessStatus.terminal db.processes db'.processes
  watches : Kept Watch.status WatchStatus.terminal db.watches db'.watches
  recorded : ∀ key, db'.recorded.count key ≤ 1

/-- A handler is about to write an end over a row that ended since the handler read it. -/
def Overtaken (db : Db) : Choice → Handler → Prop
  | .proceed _, .update event => event.process.status.terminal ∧ ∃ row ∈ db.processes event.key, row.status.terminal
  | .proceed _, .updateWatch process watch _ =>
    ∃ row ∈ db.watches (process, watch.ref), row.status.terminal ∧ row.status ≠ watch.status
  | _, _ => False

instance (db : Db) (choice : Choice) (point : Handler) : Decidable (Overtaken db choice point) := by
  unfold Overtaken
  split <;> infer_instance

/-- A row has its end from one frame at most. -/
theorem framesOf_le (row : Option Process) : framesOf row ≤ 1 := by
  cases row with
  | none => exact Nat.zero_le 1
  | some =>
    rw [framesOf]
    split
    · exact Nat.le_refl 1
    · exact Nat.zero_le 1

theorem Db.Counted.le {db : Db} (h : db.Counted) (key : ProcessKey) : db.recorded.count key ≤ 1 :=
  h key ▸ framesOf_le _

variable {db db' : Db}

theorem final_of_kept (hcnt : db'.Counted)
    (hprocesses : Kept Process.status ProcessStatus.terminal db.processes db'.processes)
    (hwatches : Kept Watch.status WatchStatus.terminal db.watches db'.watches) : Final db db' :=
  ⟨hprocesses, hwatches, hcnt.le⟩

theorem final_of_eq (hcnt : db.Counted) (hprocesses : db'.processes = db.processes)
    (hwatches : db'.watches = db.watches) (hrec : db'.recorded = db.recorded) : Final db db' ∧ db'.Counted := by
  have hcounted' : db'.Counted := by
    intro key
    rw [hprocesses, hrec]
    exact hcnt key
  exact ⟨final_of_kept hcounted' (hprocesses ▸ kept_refl) (hwatches ▸ kept_refl), hcounted'⟩

theorem final_of_processes (hcnt : db.Counted) (change : ProcessKey → Process → Process)
    (hwatches : db'.watches = db.watches) (hrec : db'.recorded = db.recorded)
    (hprocesses : ∀ key, db'.processes key = (db.processes key).map (change key))
    (hend : ∀ key row, row.status.terminal → (change key row).status = row.status)
    (hframes : ∀ key row, framesOf (some (change key row)) = framesOf (some row)) : Final db db' ∧ db'.Counted := by
  have hcounted' : db'.Counted := by
    intro key
    rw [hrec, hcnt key, hprocesses]
    cases db.processes key with
    | none => rfl
    | some row => exact (hframes key row).symm
  exact ⟨final_of_kept hcounted' (kept_of_map hprocesses hend) (hwatches ▸ kept_refl), hcounted'⟩

theorem final_of_watches (hcnt : db.Counted) (change : WatchKey → Watch → Watch)
    (hprocesses : db'.processes = db.processes) (hrec : db'.recorded = db.recorded)
    (hwatches : ∀ key, db'.watches key = (db.watches key).map (change key))
    (hend : ∀ key row, row.status.terminal → (change key row).status = row.status) : Final db db' ∧ db'.Counted := by
  have hcounted' : db'.Counted := by
    intro key
    rw [hprocesses, hrec]
    exact hcnt key
  exact ⟨final_of_kept hcounted' (hprocesses ▸ kept_refl) (kept_of_map hwatches hend), hcounted'⟩

section Sweeps

variable (now : ℕ) {db : Db}

/-- The lost sweep leaves what has ended. -/
theorem lostProcess_of_terminal (sandbox : Sandbox) {row : Process} (hend : row.status.terminal) :
    lostProcess now sandbox row = row := by
  rw [lostProcess, if_neg]
  exact fun h => absurd h.1 (of_decide_eq_true hend)

theorem framesOf_lostProcess (sandbox : Sandbox) (row : Process) :
    framesOf (some (lostProcess now sandbox row)) = framesOf (some row) := by
  by_cases hend : row.status.terminal
  · rw [lostProcess_of_terminal now sandbox hend]
  · have hruns : row.status = .running := by simpa [ProcessStatus.terminal] using hend
    rw [lostProcess]
    split
    · simp only [framesOf, hruns]
      split <;> rfl
    · rfl

theorem sweepLostProcesses_final (hcnt : db.Counted) :
    Final db (sweepLostProcesses now db) ∧ (sweepLostProcesses now db).Counted := by
  let change (key : ProcessKey) (row : Process) : Process :=
    (db.sandboxes key.1).elim row fun sandbox => lostProcess now sandbox row
  refine final_of_processes hcnt change rfl rfl ?_ ?_ ?_
  · intro key
    simp only [sweepLostProcesses, change]
    cases db.sandboxes key.1 with
    | none => exact (map_id' ..).symm
    | some => rfl
  · intro key row hend
    simp only [change]
    cases db.sandboxes key.1 with
    | none => rfl
    | some sandbox => exact congrArg _ (lostProcess_of_terminal now sandbox hend)
  · intro key row
    simp only [change]
    cases db.sandboxes key.1 with
    | none => rfl
    | some sandbox => exact framesOf_lostProcess now sandbox row

theorem ne_armed_of_terminal {status : WatchStatus} (hend : status.terminal) : status ≠ .armed := by
  rintro rfl
  cases hend

theorem sweepWatchCoherence_final (hcnt : db.Counted) :
    Final db (sweepWatchCoherence now db) ∧ (sweepWatchCoherence now db).Counted := by
  let change (key : WatchKey) (row : Watch) : Watch :=
    (db.processes key.1).elim row fun process => coherentWatch now process row
  refine final_of_watches hcnt change rfl rfl ?_ ?_
  · intro key
    simp only [sweepWatchCoherence, change]
    cases db.processes key.1 with
    | none => exact (map_id' ..).symm
    | some => rfl
  · intro key row hend
    simp only [change]
    cases db.processes key.1 with
    | none => rfl
    | some process =>
      change (coherentWatch now process row).status = row.status
      rw [coherentWatch, if_neg]
      exact fun h => ne_armed_of_terminal hend h.1

theorem sweepExpiredWatches_final (hcnt : db.Counted) :
    Final db (sweepExpiredWatches now db) ∧ (sweepExpiredWatches now db).Counted := by
  let change (_ : WatchKey) (row : Watch) : Watch :=
    if row.status = .armed ∧ row.expiresAt < now then { row with status := .expired } else row
  refine final_of_watches hcnt change rfl rfl (fun _ => rfl) ?_
  intro key row hend
  have hne : ¬ (row.status = .armed ∧ row.expiresAt < now) := fun h => ne_armed_of_terminal hend h.1
  simp only [change, if_neg hne]

theorem settleTriggered_final (keys : List WatchKey) (settle : Watch → Watch) (hcnt : db.Counted) :
    Final db (settleTriggered keys settle db) ∧ (settleTriggered keys settle db).Counted := by
  let change (key : WatchKey) (row : Watch) : Watch :=
    if key ∈ keys ∧ row.status = .triggered then settle row else row
  refine final_of_watches hcnt change rfl rfl (fun _ => rfl) ?_
  intro key row hend
  have hne : ¬ (key ∈ keys ∧ row.status = .triggered) := by
    rintro ⟨-, htriggered⟩
    rw [htriggered] at hend
    cases hend
  simp only [change, if_neg hne]

end Sweeps

section Writes

variable {db : Db}

theorem count_record (key other : ProcessKey) (status : ProcessStatus) :
    (db.record key status).recorded.count other =
      db.recorded.count other + if other = key ∧ status.terminal then 1 else 0 := by
  rw [Db.record]
  by_cases hend : status.terminal
  · rw [if_pos hend, List.count_cons]
    by_cases hkey : other = key
    · rw [if_pos (beq_iff_eq.mpr hkey.symm), if_pos ⟨hkey, hend⟩]
    · rw [if_neg (fun h => hkey (beq_iff_eq.mp h).symm), if_neg (fun h => hkey h.1)]
  · rw [if_neg hend, if_neg (fun h => hend h.2)]
    rfl

variable {row : Process}

theorem framesOf_of_wire (hwire : row.status ≠ .lost ∧ row.status ≠ .parked) :
    framesOf (some row) = if row.status.terminal then 1 else 0 := by
  rw [framesOf]
  cases hstatus : row.status with
  | running | exited | stopped => rfl
  | lost => exact absurd hstatus hwire.1
  | parked => exact absurd hstatus hwire.2

theorem processes_record (key : ProcessKey) (row : Process) (status : ProcessStatus) :
    ((db.setProcess key row).record key status).processes = update db.processes key (some row) := by
  rw [Db.record]
  split <;> rfl

theorem watches_record (key : ProcessKey) (row : Process) (status : ProcessStatus) :
    ((db.setProcess key row).record key status).watches = db.watches := by
  rw [Db.record]
  split <;> rfl

theorem counted_record {key : ProcessKey} {status : ProcessStatus} (hcnt : db.Counted)
    (hrow : framesOf (some row) = framesOf (db.processes key) + if status.terminal then 1 else 0) :
    ((db.setProcess key row).record key status).Counted := by
  intro other
  rw [count_record, processes_record]
  by_cases hother : other = key
  · subst hother
    rw [update_self, hrow, ← hcnt other]
    simp only [true_and]
    rfl
  · rw [update_of_ne hother, ← hcnt other, if_neg (fun h => hother h.1)]
    rfl

theorem create_final {event : ProcessStateEvent} (hcnt : db.Counted)
    (hnone : db.processes event.key = none) {db' : Db}
    (hdb : db' = (db.setProcess event.key (createdProcess event)).record event.key event.process.status) :
    Final db db' ∧ db'.Counted := by
  subst hdb
  have hframes : framesOf (some (createdProcess event)) =
      framesOf (db.processes event.key) + if event.process.status.terminal then 1 else 0 := by
    have hwire : (createdProcess event).status ≠ .lost ∧ (createdProcess event).status ≠ .parked :=
      event.process.onWire
    rw [hnone, framesOf_of_wire hwire]
    exact (Nat.zero_add _).symm
  have hcounted' := counted_record hcnt hframes
  refine ⟨final_of_kept hcounted' ?_ ?_, hcounted'⟩
  · rw [processes_record]
    exact kept_of_create hnone
  · rw [watches_record]
    exact kept_refl

theorem updatedProcess_status (now : ℕ) (frame : ProcessState) (row : Process) :
    (updatedProcess now frame row).status = if frame.status.terminal then frame.status else row.status := by
  rw [updatedProcess, ProcessStatus.terminal]
  by_cases hruns : frame.status = .running
  · rw [if_pos hruns, if_neg (by simp [hruns])]
  · rw [if_neg hruns, if_pos (decide_eq_true hruns)]

theorem framesOf_congr {row row' : Process} (h : row'.status = row.status) :
    framesOf (some row') = framesOf (some row) := by
  rw [framesOf, framesOf, h]

theorem update_final_iff (now : ℕ) {event : ProcessStateEvent} (hcnt : db.Counted)
    (hrow : db.processes event.key = some row) {db' : Db}
    (hdb : db' = (db.setProcess event.key (updatedProcess now event.process row)).record event.key event.process.status) :
    (¬ (event.process.status.terminal ∧ row.status.terminal) ↔ Final db db') ∧
      (¬ (event.process.status.terminal ∧ row.status.terminal) → db'.Counted) := by
  have hprocesses : db'.processes = update db.processes event.key (some (updatedProcess now event.process row)) := by
    rw [hdb, processes_record]
  have hcounted' (hnot : ¬ (event.process.status.terminal ∧ row.status.terminal)) : db'.Counted := by
    subst hdb
    refine counted_record hcnt ?_
    rw [hrow]
    by_cases hend : event.process.status.terminal
    · have hruns : row.status = .running := by
        simpa [ProcessStatus.terminal] using fun h => hnot ⟨hend, h⟩
      have hstatus : (updatedProcess now event.process row).status = event.process.status := by
        rw [updatedProcess_status, if_pos hend]
      have hold : framesOf (some row) = 0 := by
        rw [framesOf, hruns]
        rfl
      rw [framesOf_of_wire (hstatus ▸ event.process.onWire), hstatus, hold, Nat.zero_add]
    · rw [if_neg hend]
      exact framesOf_congr (by rw [updatedProcess_status, if_neg hend])
  refine ⟨⟨fun hnot => final_of_kept (hcounted' hnot) ?_ ?_, ?_⟩, hcounted'⟩
  · rw [hprocesses, kept_update_iff hrow]
    intro hend
    rw [updatedProcess_status, if_neg fun h => hnot ⟨h, hend⟩]
  · rw [hdb, watches_record]
    exact kept_refl
  · rintro hfinal ⟨hframe, hend⟩
    have hsame : (updatedProcess now event.process row).status = row.status := by
      have hkept := hfinal.processes
      rw [hprocesses, kept_update_iff hrow] at hkept
      exact hkept hend
    rw [updatedProcess_status, if_pos hframe] at hsame
    -- the row has its end from a frame already, and this one is the second
    have hone : db.recorded.count event.key = 1 := by
      rw [hcnt, hrow, framesOf_of_wire (hsame ▸ event.process.onWire), if_pos hend]
    have htwo := hfinal.recorded event.key
    rw [hdb, count_record, if_pos ⟨rfl, hframe⟩] at htwo
    change db.recorded.count event.key + 1 ≤ 1 at htwo
    omega

theorem setWatch_final_iff {key : WatchKey} {row : Watch} (new : Watch) (hcnt : db.Counted)
    (hrow : db.watches key = some row) :
    ((row.status.terminal → new.status = row.status) ↔ Final db (db.setWatch key new)) ∧
      (db.setWatch key new).Counted := by
  have hwatches : (db.setWatch key new).watches = update db.watches key (some new) := rfl
  refine ⟨⟨fun hsame => final_of_kept hcnt kept_refl ?_, fun hfinal => ?_⟩, hcnt⟩
  · rw [hwatches, kept_update_iff hrow]
    exact hsame
  · have hkept := hfinal.watches
    rw [hwatches, kept_update_iff hrow] at hkept
    exact hkept

end Writes

theorem applyProcessState_final {now : ℕ} {db db' : Db} {point point' : Handler} (hcnt : db.Counted)
    (hupdate : ∀ event, point ≠ .update event) (hwatch : ∀ process watch rest, point ≠ .updateWatch process watch rest)
    (hexec : applyProcessState now db point = some (db', point')) : Final db db' ∧ db'.Counted := by
  have hread : Final db db ∧ db.Counted := final_of_eq hcnt rfl rfl rfl
  cases point with
  | idle => cases hexec
  | sandbox =>
    simp only [applyProcessState] at hexec
    split at hexec
    · cases hexec
      exact hread
    · split at hexec
      · cases hexec
        exact hread
      · split at hexec
        · cases hexec
          exact hread
        · cases hexec
          exact hread
  | anchor =>
    cases hexec
    exact final_of_eq hcnt rfl rfl rfl
  | create =>
    simp only [applyProcessState] at hexec
    split at hexec
    · cases hexec
      exact hread
    · rename_i hnone
      cases hexec
      exact create_final hcnt hnone rfl
  | update event => exact absurd rfl (hupdate event)
  | watches process rest =>
    cases rest with
    | nil =>
      cases hexec
      exact hread
    | cons =>
      simp only [applyProcessState] at hexec
      split at hexec
      · cases hexec
        exact hread
      · split at hexec
        · cases hexec
          exact hread
        · cases hexec
          exact hread
  | createWatch =>
    simp only [applyProcessState] at hexec
    split at hexec
    · cases hexec
      exact hread
    · rename_i hnone
      cases hexec
      exact ⟨final_of_kept hcnt kept_refl (kept_of_create hnone), hcnt⟩
  | updateWatch process watch rest => exact absurd rfl (hwatch process watch rest)
  | _ =>
    simp only [applyProcessState] at hexec
    split at hexec
    · cases hexec
      exact hread
    · cases hexec
      exact hread

/-- A statement is final exactly where it overtakes none. -/
theorem exec_final_iff {db db' : Db} {choice : Choice} {point point' : Handler} (hcnt : db.Counted)
    (hexec : exec choice db point = some (db', point')) :
    (¬ Overtaken db choice point ↔ Final db db') ∧ (¬ Overtaken db choice point → db'.Counted) := by
  have hclear (hnot : ¬ Overtaken db choice point) (hfinal : Final db db' ∧ db'.Counted) :
      (¬ Overtaken db choice point ↔ Final db db') ∧ (¬ Overtaken db choice point → db'.Counted) :=
    ⟨iff_of_true hnot hfinal.1, fun _ => hfinal.2⟩
  have hread : Final db db ∧ db.Counted := final_of_eq hcnt rfl rfl rfl
  cases choice with
  | deliver =>
    cases point with
    | idle =>
      cases hexec
      exact hclear id hread
    | _ => cases hexec
  | crash =>
    cases hexec
    exact hclear (by simp [Overtaken]) hread
  | lost now =>
    cases hexec
    exact hclear (by simp [Overtaken]) (sweepLostProcesses_final now hcnt)
  | coherence now =>
    cases hexec
    exact hclear (by simp [Overtaken]) (sweepWatchCoherence_final now hcnt)
  | expired now =>
    cases hexec
    exact hclear (by simp [Overtaken]) (sweepExpiredWatches_final now hcnt)
  | fire keys =>
    cases hexec
    exact hclear (by simp [Overtaken]) (settleTriggered_final keys _ hcnt)
  | cancel key =>
    cases hexec
    exact hclear (by simp [Overtaken]) (settleTriggered_final [key] _ hcnt)
  | sandbox =>
    cases hexec
    exact hclear (by simp [Overtaken]) (final_of_eq hcnt rfl rfl rfl)
  | proceed now =>
    change applyProcessState now db point = some (db', point') at hexec
    cases point with
    | update event =>
      simp only [applyProcessState] at hexec
      split at hexec
      · rename_i hnone
        cases hexec
        exact hclear (by simp [Overtaken, hnone]) hread
      · rename_i row hrow
        cases hexec
        have hovertaken : Overtaken db (.proceed now) (.update event) ↔
            (event.process.status.terminal ∧ row.status.terminal) := by simp [Overtaken, hrow]
        rw [hovertaken]
        exact update_final_iff now hcnt hrow rfl
    | updateWatch process watch rest =>
      simp only [applyProcessState] at hexec
      split at hexec
      · rename_i hnone
        cases hexec
        exact hclear (by simp [Overtaken, hnone]) hread
      · rename_i row hrow
        cases hexec
        have hovertaken : ¬ Overtaken db (.proceed now) (.updateWatch process watch rest) ↔
            (row.status.terminal → (updatedWatch watch row).status = row.status) := by
          simp only [Overtaken, hrow, mem_some_iff, exists_eq_left', not_and, Decidable.not_not]
          exact ⟨fun h hend => (h hend).symm, fun h hend => (h hend).symm⟩
        rw [hovertaken]
        have hwrite := setWatch_final_iff (updatedWatch watch row) hcnt hrow
        exact ⟨hwrite.1, fun _ => hwrite.2⟩
    | _ => exact hclear id (applyProcessState_final hcnt (by simp) (by simp) hexec)

/-- Ends that are final stay so. -/
theorem Final.trans {db db' db'' : Db} (h : Final db db') (h' : Final db' db'') : Final db db'' :=
  ⟨h.processes.trans h'.processes, h.watches.trans h'.watches, h'.recorded⟩

/-- The ends are final along a run, and each process ends from one frame at most, exactly when no
handler writes an end over a row that ended after it was read. -/
theorem run_final_iff (w t : Calls.World Db Handler) (es : List (ℕ × Choice)) (hcounted : w.db.Counted)
    (hrun : Runs.run (Calls.step exec) w es = some t) :
    Runs.Along (Calls.step exec) (fun u v => Final u.db v.db) w es ↔
      Runs.Meets (Calls.step exec) (fun u e => ¬ Overtaken u.db e.2 (u.calls e.1)) w es := by
  refine Runs.along_iff_meets (I := fun u => u.db.Counted) (Calls.step exec) ?_ ?_ ?_ ?_ hcounted hrun
  · exact fun u hu => (final_of_eq hu rfl rfl rfl).1
  · exact fun u v x huv hvx => huv.trans hvx
  · intro u e u' hu hnot hstep
    obtain ⟨db, point, hexec, rfl⟩ := (Calls.step_eq_some_iff exec u u' e).mp hstep
    exact (exec_final_iff hu hexec).2 hnot
  · intro u e u' hu hstep
    obtain ⟨db, point, hexec, rfl⟩ := (Calls.step_eq_some_iff exec u u' e).mp hstep
    exact (exec_final_iff hu hexec).1

section Stopped

/-- A frame of process 1 of sandbox 0, without watches. -/
def frame (status : ProcessStatus) (hwire : status ≠ .lost ∧ status ≠ .parked) : ProcessStateEvent where
  runnerId := 7
  sandboxId := 0
  containerRef := 3
  process := ⟨1, some "build", status, hwire, none, none, none, none, none, none, []⟩

/-- Sandbox 0 runs, and nothing runs in it yet. -/
def fresh : Calls.World Db Handler where
  db := ⟨fun id => if id = 0 then some ⟨7, .running, some 3, none⟩ else none, fun _ => none, fun _ => none, []⟩
  calls := fun _ => .idle

/-- The process is seen running, and a second handler has read its row when its exit arrives. -/
def exiting : List (ℕ × Choice) :=
  [(0, .deliver (frame .running (by decide))), (0, .proceed 10), (0, .proceed 11), (0, .proceed 12),
    (1, .deliver (frame .exited (by decide))), (1, .proceed 20), (1, .proceed 21)]

/-- The sandbox stops and the lost sweep ends the process. -/
def swept : List (ℕ × Choice) := [(2, .sandbox 0 (some ⟨7, .stopped, some 3, none⟩)), (2, .lost 30)]

/-- The handler of the exit ends the process, and the sweep and a second exit find it ended. -/
theorem run_final_iff_exited :
    Runs.Along (Calls.step exec) (fun u v => Final u.db v.db) fresh
      (exiting ++ (1, .proceed 22) :: swept ++
        [(3, .deliver (frame .exited (by decide))), (3, .proceed 40), (3, .proceed 41)]) :=
  (run_final_iff fresh _ _ (fun _ => rfl) rfl).mpr (by decide +kernel)

/-- The sweep ends the process as lost between the handler's read and its write, which makes it
exited. -/
theorem not_final_when_swept :
    ¬ ∀ (w t : Calls.World Db Handler) (es : List (ℕ × Choice)), w.db.Counted → (∀ i, w.calls i = .idle) →
      Runs.run (Calls.step exec) w es = some t → Runs.Along (Calls.step exec) (fun u v => Final u.db v.db) w es := by
  intro hall
  have halong := hall fresh _ (exiting ++ (swept ++ [(1, .proceed 31)])) (fun _ => rfl) (fun _ => rfl) rfl
  have hfinal := halong (exiting ++ swept) [(1, .proceed 31)] [] _ _ rfl rfl rfl
  obtain ⟨row, hrow, hstatus⟩ := hfinal.processes (0, 1) _ rfl rfl
  cases hrow
  cases hstatus

end Stopped

/-! ## Handlers that are left alone -/

/-- A handler has read a row and has not written it yet. -/
def Handler.writing : Handler → Bool
  | .update _ | .updateWatch .. => true
  | _ => false

/-- While a handler has read a row and has not written it yet, it goes on, or dies, before anything else is done. -/
def Undisturbed (w : Calls.World Db Handler) (e : ℕ × Choice) : Prop :=
  ∀ i, (w.calls i).writing → e.1 = i ∧ ((∃ now, e.2 = .proceed now) ∨ e.2 = .crash)

/-- The row that a handler is about to write has not ended. -/
def Unended (db : Db) : Handler → Prop
  | .update event => ∀ row ∈ db.processes event.key, row.status.terminal = false
  | .updateWatch process watch _ => ∀ row ∈ db.watches (process, watch.ref), row.status.terminal = false
  | _ => True

/-- A handler that writes nothing next needs nothing. -/
theorem unended_of_not_writing {db : Db} {point : Handler} (h : point.writing = false) : Unended db point := by
  cases point with
  | update => cases h
  | updateWatch => cases h
  | _ => trivial

/-- The watches are read before they are written. -/
theorem unended_upsertWatches (db : Db) (process : ProcessKey) (rest : List WatchFrame) :
    Unended db (upsertWatches process rest) := by
  cases rest <;> trivial

/-- A write over a row that has not ended overtakes none. -/
theorem not_overtaken_of_unended {db : Db} {point : Handler} (h : Unended db point) (choice : Choice) :
    ¬ Overtaken db choice point := by
  unfold Overtaken
  split
  · rintro ⟨-, row, hrow, hend⟩
    exact absurd hend (ne_true_of_eq_false (h row hrow))
  · rintro ⟨row, hrow, hend, -⟩
    exact absurd hend (ne_true_of_eq_false (h row hrow))
  · exact id

/-- A handler comes to a write from a read in the same state, of a row that has not ended. -/
theorem unended_applyProcessState {now : ℕ} {db db' : Db} {point point' : Handler}
    (hexec : applyProcessState now db point = some (db', point')) : Unended db' point' := by
  have hread {event : ProcessStateEvent} {row : Process} (hrow : db.processes event.key = some row) :
      Unended db (updateProcess event row.status) := by
    unfold updateProcess
    split
    · exact unended_upsertWatches db _ _
    · rename_i hend
      intro other hother
      cases hrow.symm.trans hother
      exact eq_false_of_ne_true hend
  cases point with
  | idle => cases hexec
  | anchor =>
    cases hexec
    trivial
  | find event =>
    simp only [applyProcessState] at hexec
    split at hexec
    · cases hexec
      trivial
    · rename_i row hrow
      cases hexec
      exact hread hrow
  | refind event =>
    simp only [applyProcessState] at hexec
    split at hexec
    · cases hexec
      trivial
    · rename_i row hrow
      cases hexec
      exact hread hrow
  | sandbox =>
    simp only [applyProcessState] at hexec
    -- the handler has read the sandbox alone
    repeat' split at hexec
    all_goals
      cases hexec
      trivial
  | watches process rest =>
    cases rest with
    | nil =>
      cases hexec
      trivial
    | cons watch rest =>
      simp only [applyProcessState] at hexec
      split at hexec
      · cases hexec
        trivial
      · rename_i row hrow
        split at hexec
        · rename_i harmed
          cases hexec
          intro other hother
          cases hrow.symm.trans hother
          rw [harmed.1]
          rfl
        · cases hexec
          exact unended_upsertWatches db _ _
  | _ =>
    simp only [applyProcessState] at hexec
    split at hexec <;> cases hexec <;> first | trivial | exact unended_upsertWatches _ _ _

/-- The same of any statement, where a handler about to write goes on or dies. -/
theorem unended_exec {db db' : Db} {choice : Choice} {point point' : Handler} {p : Prop}
    (hin : point.writing → p ∧ ((∃ now, choice = .proceed now) ∨ choice = .crash))
    (hexec : exec choice db point = some (db', point')) : Unended db' point' := by
  have hstays (hpoint : point' = point) (hother : (∀ now, choice ≠ .proceed now) ∧ choice ≠ .crash) :
      Unended db' point' := by
    refine unended_of_not_writing (eq_false_of_ne_true fun hwrites => ?_)
    rcases (hin (hpoint ▸ hwrites)).2 with ⟨now, hnow⟩ | hcrash
    · exact hother.1 now hnow
    · exact hother.2 hcrash
  cases choice with
  | proceed now => exact unended_applyProcessState hexec
  | deliver =>
    cases point with
    | idle =>
      cases hexec
      trivial
    | _ => cases hexec
  | crash =>
    cases hexec
    trivial
  | _ =>
    cases hexec
    exact hstays rfl (by simp)

/-- The ends are final in every run in which no handler is disturbed between its read and its write. -/
theorem final_of_undisturbed {w : Calls.World Db Handler} {es : List (ℕ × Choice)} (hcounted : w.db.Counted)
    (hidle : ∀ i, w.calls i = .idle) (halone : Runs.Meets (Calls.step exec) Undisturbed w es) :
    Runs.Along (Calls.step exec) (fun u v => Final u.db v.db) w es := by
  have hstart (i : ℕ) : Unended w.db (w.calls i) := by
    rw [hidle i]
    trivial
  refine Runs.along_of_meets (I := fun u => u.db.Counted ∧ ∀ i, Unended u.db (u.calls i)) (Calls.step exec) ?_ ?_ ?_
    ⟨hcounted, hstart⟩ halone
  · exact fun u hu => (final_of_eq hu.1 rfl rfl rfl).1
  · exact fun u v x huv hvx => huv.trans hvx
  · intro u e u' hu hin hstep
    obtain ⟨hexec, hothers⟩ := Calls.exec_of_step exec hstep
    have hclear := not_overtaken_of_unended (hu.2 e.1) e.2
    have hfinal := exec_final_iff hu.1 hexec
    refine ⟨⟨hfinal.2 hclear, fun j => ?_⟩, hfinal.1.mp hclear⟩
    by_cases hj : j = e.1
    · subst hj
      exact unended_exec (hin e.1) hexec
    · rw [hothers j hj]
      refine unended_of_not_writing (eq_false_of_ne_true fun hwrites => hj (hin j hwrites).1.symm)

end Onecli.Agents.Processes
