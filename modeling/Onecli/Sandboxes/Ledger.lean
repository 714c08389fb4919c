import Onecli.Sandboxes.Lifecycle
import Mathlib.Order.Nat

/-!
# Which reports can be out of date

A report should move no row that belongs to a newer container than its own, and wake no sandbox that is down.
The fences of `applyRunnerEvent` know the copies and, of an observation, the container that the row names; they
tell a report of an earlier start from one of this start only where the copy or the container differs, and a
ready report is applied whatever the row says. The reports that do harm are those that pass the fences while the
row is starting or running for a newer container, or is down.
-/

namespace Onecli.Sandboxes

open Onecli.Agents Option Prod List Runs

/-- The report that a transaction is part of. -/
def reportOf : Choice → Point → Option Delivery
  | .deliver d, .idle => some d
  | .proceed _, .refs d _ => some d
  | .proceed _, .status d _ => some d
  | .proceed _, .wake d => some d
  | _, _ => none

/-- A report about an earlier container leaves a row that is starting or running, and a sandbox that is down does
not come to run by a report. -/
structure Fenced (d : Delivery) (row : Sandbox) (after : SandboxStatus) : Prop where
  newer : d.about < row.starts → row.status = .starting ∨ row.status = .running → after = row.status
  down : row.status = .stopped ∨ row.status = .failed → after ≠ .running

/-- Every transaction of a report is fenced in the row of its sandbox. -/
def FencedStep (w : World) (e : ℕ × Choice) (w' : World) : Prop :=
  ∀ d, reportOf e.2 (w.calls e.1) = some d → ∀ row ∈ w.db.sandboxes, ∀ row' ∈ w'.db.sandboxes,
    row.id = d.sandboxId → row'.id = row.id → Fenced d row row'.status

/-- Where a reported status does no harm: a ready or running one at a row that is not down and, about an earlier
container, not starting; a stop or a failure about an earlier container at a row that is not running, or not
starting. -/
def InTime (d : Delivery) (row : Sandbox) : ReportedStatus → Prop
  | .starting => True
  | .running => row.status ≠ .stopped ∧ row.status ≠ .failed ∧ (d.about < row.starts → row.status ≠ .starting)
  | .stopped => d.about < row.starts → row.status ≠ .running
  | .failed => d.about < row.starts → row.status ≠ .starting

/-- Every report that passes its fence comes in time. -/
def Timely (w : World) (e : ℕ × Choice) : Prop :=
  match e.2, w.calls e.1 with
  | .deliver d, .idle =>
      d.event = .ready → ∀ row ∈ w.db.sandboxes, row.id = d.sandboxId → readyFence d row = true →
        InTime d row .running
  | .proceed _, .status d r =>
      ∀ row ∈ w.db.sandboxes, row.id = d.sandboxId → statusFence d r row = true → InTime d row r.status
  | _, _ => True

instance (d : Delivery) (row : Sandbox) (status : ReportedStatus) : Decidable (InTime d row status) := by
  unfold InTime
  split <;> infer_instance

instance (w : World) (e : ℕ × Choice) : Decidable (Timely w e) := by
  unfold Timely
  split <;> infer_instance

/-! ## What a write does to a row -/

/-- A sandbox has one row. -/
theorem Tables.row_eq (t : Tables) {row other : Sandbox} (hrow : row ∈ t.sandboxes) (hother : other ∈ t.sandboxes)
    (hid : row.id = other.id) : row = other :=
  inj_on_of_nodup_map t.ids hrow hother hid

variable {row row' : Sandbox} {d : Delivery}

section

variable (t : Tables)
include t

theorem Tables.execute_row {selects : Sandbox → Bool} {data : Sandbox → Sandbox} (hrow : row ∈ t.sandboxes)
    (hrow' : row' ∈ (t.execute selects data).sandboxes) (hid : row'.id = row.id) : row' = if selects row then
    row.written (data row) else row := by
  obtain ⟨other, hother, rfl⟩ := mem_map.mp hrow'
  have hkey : (if selects other then other.written (data other) else other).id = other.id := by
    split <;> rfl
  rw [t.row_eq hother hrow (hkey.symm.trans hid)]

/-- The status after an update. -/
theorem Tables.execute_status {selects : Sandbox → Bool} {data : Sandbox → Sandbox} (hrow : row ∈ t.sandboxes)
    (hrow' : row' ∈ (t.execute selects data).sandboxes) (hid : row'.id = row.id) : row'.status = if selects row then
    (data row).status else row.status := by
  rw [t.execute_row hrow hrow' hid]
  split <;> rfl

@[simp] theorem Tables.mapIntervals_sandboxes (change : Interval → Interval)
    (href : ∀ interval, (change interval).containerRef = interval.containerRef) :
    (t.mapIntervals change href).sandboxes = t.sandboxes := rfl

@[simp] theorem Tables.insertInterval_sandboxes (interval : Interval) : (t.insertInterval interval).sandboxes =
    t.sandboxes := by
  unfold insertInterval
  split <;> rfl

@[simp] theorem openRuntimeInterval_sandboxes (sandboxId ref : ℕ) :
    (openRuntimeInterval t sandboxId ref).sandboxes = t.sandboxes := by
  unfold openRuntimeInterval
  split
  · rw [Tables.insertInterval_sandboxes, Tables.mapIntervals_sandboxes]
  · rfl

theorem applyRefs_sandboxes (d : Delivery) (r : StatusReport) : (applyRefs t d r).sandboxes = t.sandboxes ∨
    (applyRefs t d r).sandboxes =
    (t.updateMany (fun row => d.names row && reporterFence d r row) (withRefs r)).sandboxes := by
  unfold applyRefs
  dsimp only
  split
  · refine .inr ?_
    split
    · exact openRuntimeInterval_sandboxes _ _ _
    · rfl
  · split
    · exact .inl rfl
    · exact .inr rfl

theorem applyStatus_sandboxes (d : Delivery) (r : StatusReport) : (applyStatus t d r).sandboxes =
    (t.updateMany (statusSelects d r) (withStatus r.status t.now)).sandboxes := by
  unfold applyStatus
  split <;> rfl

end

/-! ## What a report does to a status -/

/-- A row that stays is fenced. -/
theorem Fenced.of_eq {row : Sandbox} {after : SandboxStatus} (heq : after = row.status) :
    Fenced d row after where
  newer := fun _ _ => heq
  down := by
    rintro (hdown | hdown) hruns <;> cases heq.symm.trans hruns |>.symm.trans hdown

theorem Fenced.of_down {row : Sandbox} (hdown : row.status = .stopped ∨ row.status = .failed) :
    Fenced d row .unprovisioned where
  newer := by
    rintro - (hup | hup) <;> (rcases hdown with hdown | hdown <;> cases hup.symm.trans hdown)
  down := fun _ h => by cases h

/-- A report of running is fenced exactly where it comes in time. -/
theorem fenced_running_iff (d : Delivery) (row : Sandbox) : Fenced d row .running ↔ InTime d row .running := by
  constructor
  · intro hfenced
    refine ⟨fun hdown => hfenced.down (.inl hdown) rfl, fun hdown => hfenced.down (.inr hdown) rfl, ?_⟩
    intro hnewer hstarting
    cases (hfenced.newer hnewer (.inl hstarting)).trans hstarting
  · rintro ⟨hstop, hfailed, hstarting⟩
    refine ⟨fun hnewer hup => ?_, fun hdown _ => hdown.elim hstop hfailed⟩
    rcases hup with hup | hup
    · exact absurd hup (hstarting hnewer)
    · exact hup.symm

/-- A status is fenced exactly where it comes in time. -/
theorem fenced_status_iff (d : Delivery) (r : StatusReport) (row : Sandbox) :
    Fenced d row (if statusSelects d r row then r.status.toStatus else row.status) ↔
      (statusFence d r row = true → InTime d row r.status) := by
  unfold statusSelects
  cases hfence : statusFence d r row with
  | false => exact iff_of_true (Fenced.of_eq rfl) fun h => by cases h
  | true =>
    rw [Bool.true_and, imp_iff_right rfl]
    cases hstatus : r.status with
    | running => exact fenced_running_iff d row
    | starting =>
      refine iff_of_true ?_ trivial
      unfold statusGuard
      by_cases hruns : row.status = .running
      · rw [if_neg (by simp [hruns])]
        exact .of_eq rfl
      · rw [if_pos (by simp [hruns])]
        refine ⟨fun _ hup => ?_, fun _ h => by cases h⟩
        exact (hup.resolve_right hruns).symm
    | stopped =>
      unfold statusGuard InTime
      by_cases happlies : row.status = .running ∨ row.status = .stopping
      · rw [if_pos (decide_eq_true happlies)]
        constructor
        · intro hfenced hnewer hruns
          cases (hfenced.newer hnewer (.inr hruns)).trans hruns
        · intro hintime
          refine ⟨fun hnewer hup => ?_, fun _ h => by cases h⟩
          rcases hup with hup | hup
          · rcases happlies with happlies | happlies <;> cases hup.symm.trans happlies
          · exact absurd hup (hintime hnewer)
      · rw [if_neg (by simpa using happlies)]
        exact iff_of_true (.of_eq rfl) fun _ hruns => happlies (.inl hruns)
    | failed =>
      unfold statusGuard InTime
      by_cases hruns : row.status = .running
      · rw [if_neg (by simp [hruns])]
        refine iff_of_true (.of_eq rfl) fun _ hstarting => ?_
        cases hruns.symm.trans hstarting
      · rw [if_pos (by simp [hruns])]
        constructor
        · intro hfenced hnewer hstarting
          cases (hfenced.newer hnewer (.inl hstarting)).trans hstarting
        · intro hintime
          refine ⟨fun hnewer hup => ?_, fun _ h => by cases h⟩
          exact absurd (hup.resolve_right hruns) (hintime hnewer)

@[simp] theorem Tables.execute_ids (t : Tables) (selects : Sandbox → Bool) (data : Sandbox → Sandbox) :
    (t.execute selects data).sandboxes.map (·.id) = t.sandboxes.map (·.id) := by
  change (t.sandboxes.map _).map _ = _
  rw [List.map_map]
  congr 1
  funext row
  change (if selects row then row.written (data row) else row).id = row.id
  split <;> rfl

theorem forall_fenced_iff {t t' : Tables} (after : Sandbox → SandboxStatus)
    (hids : t'.sandboxes.map (·.id) = t.sandboxes.map (·.id))
    (hafter : ∀ row ∈ t.sandboxes, ∀ row' ∈ t'.sandboxes, row'.id = row.id → row'.status = after row) :
    (∀ row ∈ t.sandboxes, ∀ row' ∈ t'.sandboxes, row.id = d.sandboxId → row'.id = row.id → Fenced d row row'.status) ↔
      ∀ row ∈ t.sandboxes, row.id = d.sandboxId → Fenced d row (after row) := by
  constructor
  · intro hfenced row hrow hid
    have hkey : row.id ∈ t'.sandboxes.map (·.id) := hids ▸ mem_map_of_mem hrow
    obtain ⟨row', hrow', hsame⟩ := mem_map.mp hkey
    rw [← hafter row hrow row' hrow' hsame]
    exact hfenced row hrow row' hrow' hid hsame
  · intro hfenced row hrow row' hrow' hid hsame
    rw [hafter row hrow row' hrow' hsame]
    exact hfenced row hrow hid

/-- The same of `supervisor.ready` at every row. -/
theorem applyReady_fenced_iff (t : Tables) (d : Delivery) :
    (∀ row ∈ t.sandboxes, ∀ row' ∈ (applyReady t d).sandboxes, row.id = d.sandboxId → row'.id = row.id →
        Fenced d row row'.status) ↔
      ∀ row ∈ t.sandboxes, row.id = d.sandboxId → readyFence d row = true → InTime d row .running := by
  refine (forall_fenced_iff (fun row => if readyFence d row then .running else row.status)
    (t.execute_ids _ _) fun row hrow row' hrow' hid => t.execute_status hrow hrow' hid).trans ?_
  refine forall_congr' fun row => forall_congr' fun _ => forall_congr' fun _ => ?_
  cases readyFence d row with
  | false => exact iff_of_true (Fenced.of_eq rfl) fun h => by cases h
  | true =>
    rw [imp_iff_right rfl]
    exact fenced_running_iff d row

/-- The same of a status at every row. -/
theorem applyStatus_fenced_iff (t : Tables) (d : Delivery) (r : StatusReport) :
    (∀ row ∈ t.sandboxes, ∀ row' ∈ (applyStatus t d r).sandboxes, row.id = d.sandboxId → row'.id = row.id →
        Fenced d row row'.status) ↔
      ∀ row ∈ t.sandboxes, row.id = d.sandboxId → statusFence d r row = true → InTime d row r.status := by
  rw [applyStatus_sandboxes]
  refine (forall_fenced_iff (fun row => if statusSelects d r row then r.status.toStatus else row.status)
    (t.execute_ids _ _) fun row hrow row' hrow' hid => t.execute_status hrow hrow' hid).trans ?_
  exact forall_congr' fun row => forall_congr' fun _ => forall_congr' fun _ => fenced_status_iff d r row

theorem fenced_of_status {t t' : Tables}
    (hstays : ∀ row ∈ t.sandboxes, ∀ row' ∈ t'.sandboxes, row'.id = row.id → row'.status = row.status) :
    ∀ row ∈ t.sandboxes, ∀ row' ∈ t'.sandboxes, row.id = d.sandboxId → row'.id = row.id → Fenced d row row'.status :=
  fun row hrow row' hrow' _ hid => .of_eq (hstays row hrow row' hrow' hid)

theorem applyRefs_status (t : Tables) (d : Delivery) (r : StatusReport) (hrow : row ∈ t.sandboxes)
    (hrow' : row' ∈ (applyRefs t d r).sandboxes) (hid : row'.id = row.id) : row'.status = row.status := by
  rcases applyRefs_sandboxes t d r with hsame | hwritten
  · rw [hsame] at hrow'
    rw [t.row_eq hrow' hrow hid]
  · rw [hwritten] at hrow'
    refine (t.execute_status hrow hrow' hid).trans ?_
    split <;> rfl

/-- A wake returns no sandbox to running. -/
theorem wakeDown_fenced (t : Tables) (d : Delivery) :
    ∀ row ∈ t.sandboxes, ∀ row' ∈ (wakeDown t d).sandboxes, row.id = d.sandboxId → row'.id = row.id →
      Fenced d row row'.status := by
  intro row hrow row' hrow' _ hid
  rw [t.execute_status hrow hrow' hid]
  split
  · next hsels => exact .of_down (of_decide_eq_true hsels).2.2
  · exact .of_eq rfl

theorem forall_reportOf_iff {P : Delivery → Prop} {reported : Option Delivery} (d : Delivery)
    (hreported : reported = some d) : (∀ d', reported = some d' → P d') ↔ P d := by
  constructor
  · exact fun h => h d hreported
  · intro h d' hd'
    rw [← some.inj (hreported.symm.trans hd')]
    exact h

/-- A transaction is fenced exactly where its report comes in time. -/
theorem timely_iff_fencedStep {w w' : World} {e : ℕ × Choice} (hstep : step w e = some w') :
    Timely w e ↔ FencedStep w e w' := by
  obtain ⟨i, choice⟩ := e
  obtain ⟨t', point, hexec, rfl⟩ := (Calls.step_eq_some_iff exec w w' (i, choice)).mp hstep
  unfold Timely FencedStep
  cases hpoint : w.calls i <;> cases choice <;> rw [hpoint] at hexec <;> try (cases hexec; done)
  case idle.deliver d =>
    refine Iff.trans ?_ (forall_reportOf_iff d rfl).symm
    cases hevent : d.event with
    | homeSynced =>
      rw [exec, hevent] at hexec
      obtain ⟨rfl, -⟩ := mk.inj (some.inj hexec)
      refine iff_of_true (fun h => by cases hevent.symm.trans h) (fenced_of_status fun row hrow row' hrow' hid => ?_)
      refine (w.db.execute_status hrow hrow' hid).trans ?_
      split <;> rfl
    | ready =>
      rw [exec, hevent] at hexec
      obtain ⟨rfl, -⟩ := mk.inj (some.inj hexec)
      exact (imp_iff_right hevent).trans (applyReady_fenced_iff w.db d).symm
    | status =>
      rw [exec, hevent] at hexec
      obtain ⟨rfl, -⟩ := mk.inj (some.inj hexec)
      refine iff_of_true (fun h => by cases hevent.symm.trans h) (fenced_of_status fun row hrow row' hrow' hid => ?_)
      rw [w.db.row_eq hrow' hrow hid]
  case refs.proceed d r recovers =>
    obtain ⟨rfl, -⟩ := mk.inj (some.inj hexec)
    refine Iff.trans ?_ (forall_reportOf_iff d rfl).symm
    refine iff_of_true trivial ?_
    exact fenced_of_status fun row hrow row' hrow' hid => applyRefs_status w.db d r hrow hrow' hid
  case status.proceed d r recovers =>
    obtain ⟨rfl, -⟩ := mk.inj (some.inj hexec)
    refine Iff.trans ?_ (forall_reportOf_iff d rfl).symm
    exact (applyStatus_fenced_iff w.db d r).symm
  case wake.proceed d recovers =>
    obtain ⟨rfl, -⟩ := mk.inj (some.inj hexec)
    refine Iff.trans ?_ (forall_reportOf_iff d rfl).symm
    refine iff_of_true trivial ?_
    exact wakeDown_fenced w.db d
  all_goals exact iff_of_true trivial fun d h => by cases h

/-- In a run of reports, starts, stops and sweeps in any order, every report is fenced exactly where each one that
passes its fence comes in time. -/
theorem run_fenced {w t : World} {es : List (ℕ × Choice)} (hrun : run step w es = some t) :
    Runs.Each step FencedStep w es ↔ Runs.Meets step Timely w es :=
  each_iff_meets step (fun _ _ _ hstep => timely_iff_fencedStep hstep) hrun

/-- A sandbox is created, started on the only copy, which reports its container, and its supervisor is ready. -/
def boot : List (ℕ × Choice) :=
  [(0, .write (.createSandbox 7 1)), (0, .write (.claimStart 7 1 (some 1) ⟨[1], []⟩ 0 0 false)),
    (0, .write (.recordSpawn 7 1 1 100 55)), (0, .write (.claimChannel 7 1 1 ⟨0, 5, .token 55⟩)),
    (0, .deliver ⟨1, some 1, 7, .status ⟨.starting, some 100, some 9, none, none⟩, 1⟩), (0, .proceed false),
    (0, .proceed false), (0, .deliver ⟨1, some 1, 7, .ready, 1⟩)]

/-- The reports of a boot are fenced. -/
theorem run_fenced_boot : Runs.Each step FencedStep World.empty boot :=
  (run_fenced (some_get (by decide : (run step .empty boot).isSome)).symm).mpr (by decide)

/-- The sandbox is stopped, and the ready report is delivered again. -/
def lateReady : List (ℕ × Choice) :=
  boot ++ [(0, .write (.claimStop 7 1 (some 1) ⟨[1], []⟩ false)),
    (0, .deliver ⟨1, some 1, 7, .status ⟨.stopped, none, none, none, none⟩, 1⟩), (0, .proceed false),
    (0, .proceed false), (0, .deliver ⟨1, some 1, 7, .ready, 1⟩)]

/-- A start fails, a second one is claimed, and the failure is delivered again. -/
def lateFailure : List (ℕ × Choice) :=
  let failed : Choice := .deliver ⟨1, some 1, 7, .status ⟨.failed, none, none, none, some "start_failed"⟩, 1⟩
  [(0, .write (.createSandbox 7 1)), (0, .write (.claimStart 7 1 (some 1) ⟨[1], []⟩ 0 0 false)), (0, failed),
    (0, .proceed false), (0, .proceed false),
    (0, .write (.claimStart 7 1 (some 1) ⟨[1], []⟩ 0 100 true)), (0, failed), (0, .proceed false),
    (0, .proceed false)]

/-- A ready report that comes late returns a stopped sandbox to running, and a failure of the first start that
comes late fails the second. -/
theorem not_fenced_when_late :
    ¬ Runs.Each step FencedStep World.empty lateReady ∧ ¬ Runs.Each step FencedStep World.empty lateFailure := by
  have hiff {es : List (ℕ × Choice)} (hsome : (run step .empty es).isSome) :
      Runs.Each step FencedStep .empty es ↔ Runs.Meets step Timely .empty es :=
    each_iff_meets step (fun _ _ _ hstep => timely_iff_fencedStep hstep) (some_get hsome).symm
  constructor
  · rw [hiff (by decide)]
    decide
  · rw [hiff (by decide)]
    decide

/-! ## Reports in time -/

/-- A sandbox that stopped or failed. -/
def Sandbox.Down (row : Sandbox) : Prop := row.status = .stopped ∨ row.status = .failed

/-- The starts whose end a transaction reports, or whose claim it parks. -/
def ends (w : World) (e : ℕ × Choice) : List (ℕ × ℕ) :=
  match e.2, w.calls e.1 with
  | .proceed _, .status d r => if r.status = .stopped ∨ r.status = .failed then [(d.sandboxId, d.about)] else []
  | .write (.parkUnstartableClaim id _), .idle =>
      (w.db.sandboxes.filter fun row => row.id = id).map fun row => (id, row.starts)
  | _, _ => []

/-- Every report is about the start that was claimed last, and none that its sandbox is ready or running comes
after the end of that start. -/
def Prompt (ended : List (ℕ × ℕ)) (w : World) (e : ℕ × Choice) : Prop :=
  match e.2, w.calls e.1 with
  | .deliver d, .idle => d.event = .ready → ∀ row ∈ w.db.sandboxes, row.id = d.sandboxId →
      d.about = row.starts ∧ (d.sandboxId, d.about) ∉ ended
  | .proceed _, .status d r => ∀ row ∈ w.db.sandboxes, row.id = d.sandboxId →
      d.about = row.starts ∧ (r.status = .running → (d.sandboxId, d.about) ∉ ended)
  | _, _ => True

instance (ended : List (ℕ × ℕ)) (w : World) (e : ℕ × Choice) : Decidable (Prompt ended w e) := by
  unfold Prompt
  split <;> infer_instance

/-- Of every sandbox that is down, the end of the last start came. -/
def Ended (ended : List (ℕ × ℕ)) (t : Tables) : Prop := ∀ row ∈ t.sandboxes, row.Down → (row.id, row.starts) ∈ ended

/-- The rows that are down were down at the same start. -/
def DownFrom (t t' : Tables) : Prop :=
  ∀ row' ∈ t'.sandboxes, row'.Down → ∃ row ∈ t.sandboxes, row.id = row'.id ∧ row.starts = row'.starts ∧ row.Down

section

variable {t t' : Tables} {ended : List (ℕ × ℕ)}

/-- Rows that stay. -/
theorem DownFrom.of_eq (h : t'.sandboxes = t.sandboxes) : DownFrom t t' :=
  fun row' hrow' hdown => ⟨row', h ▸ hrow', rfl, rfl, hdown⟩

/-- An update that takes no sandbox down. -/
theorem downFrom_execute (t : Tables) {selects : Sandbox → Bool} {data : Sandbox → Sandbox}
    (hdata : ∀ row, selects row = true → (data row).Down → row.Down ∧ (data row).starts = row.starts) :
    DownFrom t (t.execute selects data) := by
  intro row' hrow' hdown
  obtain ⟨row, hrow, rfl⟩ := mem_map.mp hrow'
  refine ⟨row, hrow, ?_⟩
  split at hdown
  · next hsel =>
    obtain ⟨hbefore, hstarts⟩ := hdata row hsel hdown
    rw [if_pos hsel]
    exact ⟨rfl, hstarts.symm, hbefore⟩
  · next hsel =>
    rw [if_neg hsel]
    exact ⟨rfl, rfl, hdown⟩

/-- An update that leaves the status and the starts. -/
theorem downFrom_of_status (t : Tables) (selects : Sandbox → Bool) {data : Sandbox → Sandbox}
    (hstatus : ∀ row, (data row).status = row.status) (hstarts : ∀ row, (data row).starts = row.starts) :
    DownFrom t (t.execute selects data) :=
  downFrom_execute t fun row _ hdown => ⟨by rwa [Sandbox.Down, hstatus] at hdown, hstarts row⟩

/-- An update to a status of a sandbox that is not down. -/
theorem downFrom_of_up (t : Tables) (selects : Sandbox → Bool) {data : Sandbox → Sandbox}
    (hup : ∀ row, ¬ (data row).Down) : DownFrom t (t.execute selects data) :=
  downFrom_execute t fun row _ hdown => absurd hdown (hup row)

/-- No other writer than the park of a claim takes a sandbox down. -/
theorem downFrom_write {other : Write} (hpark : ∀ id runnerId, other ≠ .parkUnstartableClaim id runnerId)
    (h : write t other = some t') : DownFrom t t' := by
  cases other with
  | tick => exact some.inj h ▸ .of_eq rfl
  | createSandbox id runnerId =>
    simp only [write, createSandbox] at h
    split at h
    · cases h
    · cases h
      intro row' hrow' hdown
      rcases mem_cons.mp hrow' with rfl | hrow'
      · rcases hdown with hdown | hdown <;> cases hdown
      · exact ⟨row', hrow', rfl, rfl, hdown⟩
  | recordSpawn =>
    refine some.inj h ▸ downFrom_of_status t _ (fun row => ?_) fun _ => rfl
    dsimp only [Runner.Channel.recordSpawn]
    split <;> rfl
  | claimChannel =>
    refine some.inj h ▸ downFrom_of_status t _ (fun row => ?_) fun _ => rfl
    dsimp only [Runner.Channel.claimChannel]
    split <;> rfl
  | releaseChannel =>
    refine some.inj h ▸ downFrom_of_status t _ (fun row => ?_) fun _ => rfl
    dsimp only [Runner.Channel.releaseChannel]
    split <;> rfl
  | parkUnstartableClaim id runnerId => exact absurd rfl (hpark id runnerId)
  | claimStart | claimStop | claimStrayStop | releaseClaim | wake =>
    exact some.inj h ▸ downFrom_of_up t _ fun _ => (by rintro (hdown | hdown) <;> cases hdown)
  | respawn id =>
    refine some.inj h ▸ fun row' hrow' hdown => ?_
    unfold requestSandboxRespawn at hrow'
    dsimp only at hrow'
    have hrows : row' ∈ (t.updateMany (fun row => row.id = id ∧ (row.status = .starting ∨ row.status = .running))
        fun row => { row with status := .unprovisioned }).sandboxes := by
      split at hrow' <;> exact hrow'
    exact downFrom_of_up t _ (fun _ => (by rintro (hdown | hdown) <;> cases hdown)) row' hrows hdown
  | deleteAgent id =>
    exact some.inj h ▸ fun row' hrow' hdown => ⟨row', (mem_filter.mp hrow').1, rfl, rfl, hdown⟩
  | _ => exact some.inj h ▸ downFrom_of_status t _ (fun _ => rfl) fun _ => rfl

/-- Where no sandbox goes down, the ends stay accounted for. -/
theorem Ended.of_downFrom (h : Ended ended t) (hfrom : DownFrom t t') (new : List (ℕ × ℕ)) : Ended (new ++ ended) t' := by
  intro row' hrow' hdown
  obtain ⟨row, hrow, hid, hstarts, hbefore⟩ := hfrom row' hrow' hdown
  rw [← hid, ← hstarts]
  exact mem_append_right _ (h row hrow hbefore)

end

/-- A transaction that comes in time finds what `Timely` asks of the rows. -/
theorem timely_of_prompt {ended : List (ℕ × ℕ)} {w : World} {e : ℕ × Choice} (h : Ended ended w.db)
    (hprompt : Prompt ended w e) : Timely w e := by
  have hrunning {d : Delivery} {row : Sandbox} (hrow : row ∈ w.db.sandboxes) (hid : row.id = d.sandboxId)
      (habout : d.about = row.starts) (hnot : (d.sandboxId, d.about) ∉ ended) : InTime d row .running := by
    rw [← hid, habout] at hnot
    refine ⟨fun hdown => hnot (h row hrow (.inl hdown)), fun hdown => hnot (h row hrow (.inr hdown)), fun hlate => ?_⟩
    exact absurd habout (Nat.ne_of_lt hlate)
  unfold Prompt at hprompt
  unfold Timely
  split at hprompt
  · intro hevent row hrow hid _
    obtain ⟨habout, hnot⟩ := hprompt hevent row hrow hid
    exact hrunning hrow hid habout hnot
  · next d r _ _ =>
    intro row hrow hid _
    obtain ⟨habout, hnot⟩ := hprompt row hrow hid
    cases hstatus : r.status with
    | starting => trivial
    | running => exact hrunning hrow hid habout (hnot hstatus)
    | stopped => exact fun hlate => absurd habout (Nat.ne_of_lt hlate)
    | failed => exact fun hlate => absurd habout (Nat.ne_of_lt hlate)
  · trivial

/-- A status takes a sandbox down only at the start that it is about. -/
theorem ended_applyStatus {t : Tables} {ended : List (ℕ × ℕ)} {d : Delivery} {r : StatusReport} (h : Ended ended t)
    (habout : ∀ row ∈ t.sandboxes, row.id = d.sandboxId → d.about = row.starts) :
    Ended ((if r.status = .stopped ∨ r.status = .failed then [(d.sandboxId, d.about)] else []) ++ ended)
      (applyStatus t d r) := by
  intro row' hrow' hdown
  rw [applyStatus_sandboxes] at hrow'
  obtain ⟨row, hrow, rfl⟩ := mem_map.mp hrow'
  by_cases hsel : statusSelects d r row = true
  · rw [if_pos hsel] at hdown ⊢
    have hnames := (Bool.and_eq_true_iff.mp (Bool.and_eq_true_iff.mp (Bool.and_eq_true_iff.mp hsel).1).1).1
    have hid : row.id = d.sandboxId := (of_decide_eq_true hnames : _ ∧ _ ∧ _).1
    have hstatus : r.status = .stopped ∨ r.status = .failed := by
      change r.status.toStatus = .stopped ∨ r.status.toStatus = .failed at hdown
      revert hdown
      cases r.status <;> decide
    rw [if_pos hstatus]
    change (row.id, row.starts) ∈ _
    rw [hid, ← habout row hrow hid]
    exact mem_cons_self
  · rw [if_neg hsel] at hdown ⊢
    exact mem_append_right _ (h row hrow hdown)

/-- Every transaction that comes in time keeps the account of the ends. -/
theorem Ended.step {ended : List (ℕ × ℕ)} {w w' : World} {e : ℕ × Choice} (h : Ended ended w.db)
    (hprompt : Prompt ended w e) (hstep : Sandboxes.step w e = some w') : Ended (ends w e ++ ended) w'.db := by
  obtain ⟨i, choice⟩ := e
  obtain ⟨t', point, hexec, rfl⟩ := (Calls.step_eq_some_iff exec w w' (i, choice)).mp hstep
  unfold Prompt at hprompt
  change Ended _ t'
  cases hpoint : w.calls i <;> cases choice <;> rw [hpoint] at hexec <;> try (cases hexec; done)
  case idle.write other =>
    obtain ⟨written, hwritten, heq⟩ := map_eq_some_iff.mp hexec
    obtain ⟨rfl, -⟩ := mk.inj heq
    by_cases hpark : ∃ id runnerId, other = .parkUnstartableClaim id runnerId
    · obtain ⟨id, runnerId, rfl⟩ := hpark
      cases hwritten
      intro row' hrow' hdown
      obtain ⟨row, hrow, rfl⟩ := mem_map.mp hrow'
      split at hdown
      · next hsel =>
        rw [if_pos hsel]
        have hid : row.id = id := of_decide_eq_true (Bool.and_eq_true_iff.mp (Bool.and_eq_true_iff.mp hsel).1).1
        refine mem_append_left _ ?_
        simp only [ends, hpoint]
        exact mem_map.mpr ⟨row, mem_filter.mpr ⟨hrow, by simpa using hid⟩, by rw [← hid]; rfl⟩
      · next hsel =>
        rw [if_neg hsel]
        exact mem_append_right _ (h row hrow hdown)
    · exact h.of_downFrom (downFrom_write (fun id runnerId heq => hpark ⟨id, runnerId, heq⟩) hwritten) _
  case status.proceed d r recovers =>
    obtain ⟨rfl, -⟩ := mk.inj (some.inj hexec)
    have hends : ends w (i, .proceed recovers) =
        if r.status = .stopped ∨ r.status = .failed then [(d.sandboxId, d.about)] else [] := by
      simp only [ends, hpoint]
    rw [hends]
    rw [hpoint] at hprompt
    exact ended_applyStatus h fun row hrow hid => (hprompt row hrow hid).1
  all_goals refine h.of_downFrom ?_ _
  case idle.deliver d =>
    cases hevent : d.event <;> rw [exec, hevent] at hexec <;> obtain ⟨rfl, -⟩ := mk.inj (some.inj hexec)
    · exact downFrom_of_status _ _ (fun _ => rfl) fun _ => rfl
    · exact downFrom_of_up _ _ fun _ => (by rintro (hdown | hdown) <;> cases hdown)
    · exact .of_eq rfl
  all_goals obtain ⟨rfl, -⟩ := mk.inj (some.inj hexec)
  case idle.sweep => exact .of_eq rfl
  case abandoned.proceed => exact .of_eq rfl
  case refs.proceed d r recovers =>
    rcases applyRefs_sandboxes w.db d r with hsame | hwritten
    · exact .of_eq hsame
    · intro row' hrow' hdown
      rw [hwritten] at hrow'
      refine downFrom_of_status w.db _ ?_ ?_ row' hrow' hdown
      · exact fun _ => rfl
      · exact fun _ => rfl
  case wake.proceed => exact downFrom_of_up _ _ fun _ => (by rintro (hdown | hdown) <;> cases hdown)
  case unrecorded.proceed =>
    intro row' hrow' hdown
    obtain ⟨row, hrow, rfl⟩ := mem_map.mp hrow'
    exact ⟨row, hrow, rfl, rfl, hdown⟩

/-- Every report is fenced in a run in which none comes late: each is about the start that was claimed last, and
none that the sandbox is ready or running comes after the end of that start. -/
theorem fenced_of_prompt {es : List (ℕ × Choice)}
    (hprompt : Runs.Logged step (fun ended w e => ends w e ++ ended) Prompt [] .empty es) :
    Runs.Each step FencedStep .empty es := by
  have hmeets : Runs.Meets step Timely .empty es :=
    meets_of_logged step (I := fun ended w => Ended ended w.db) (fun _ _ _ h hin => timely_of_prompt h hin)
      (fun _ _ _ _ h hin hstep => h.step hin hstep) (fun row hrow => (by cases hrow)) hprompt
  exact each_of_meets step (I := fun _ => True)
    (fun w e w' _ htimely hstep => ⟨trivial, (timely_iff_fencedStep hstep).mp htimely⟩) trivial hmeets

/-- The reports of a boot come in time. -/
example : Runs.Logged step (fun ended w e => ends w e ++ ended) Prompt [] .empty boot := by decide +kernel

/-! ## The runs of a sandbox follow one another

The rows of the ledger in the order in which they were inserted. Where a later row is of the same sandbox, the
earlier one had ended by the time at which the later one starts. A run that is inserted starts now, after what was
open was closed, or at the last stamp of the sandbox row, which is no earlier than any end: every transaction that
closes a run of a sandbox stamps its row.
-/

open Bool

/-- One run had ended when another of the same sandbox starts. -/
def Precedes (i j : Interval) : Prop :=
  i.sandboxId = j.sandboxId → ∃ ended, i.endedAt = some ended ∧ ended ≤ j.startedAt

/-- A run began by a time, and if it is over ended by then. -/
def Interval.By (i : Interval) (time : ℕ) : Prop :=
  i.startedAt ≤ time ∧ ∀ ended, i.endedAt = some ended → ended ≤ time

/-- What every transaction keeps of the ledger. -/
structure Ledger (t : Tables) : Prop where
  apart : t.intervals.Pairwise Precedes
  stamped : ∀ row ∈ t.sandboxes, row.updatedAt ≤ t.now
  past : ∀ i ∈ t.intervals, i.By t.now
  rows : ∀ i ∈ t.intervals, ∀ row ∈ t.sandboxes, row.id = i.sandboxId → i.By row.updatedAt

/-- The rows of one state are stamped now, or as rows of the same key were. -/
def StampedFrom (t t' : Tables) : Prop :=
  ∀ row' ∈ t'.sandboxes, row'.updatedAt = t.now ∨
    ∃ row ∈ t.sandboxes, row.id = row'.id ∧ row.updatedAt = row'.updatedAt

/-- A run is left as it is, or it was open and is closed as of a time that its sandbox is stamped with. -/
def ClosedBy (t' : Tables) (i i' : Interval) : Prop :=
  i' = i ∨ ∃ at_ reason, i.endedAt = none ∧ i' = i.close at_ reason ∧ at_ ≤ t'.now ∧
    ∀ row' ∈ t'.sandboxes, row'.id = i.sandboxId → at_ ≤ row'.updatedAt

theorem Interval.By.mono {i : Interval} {time later : ℕ} (h : i.By time) (hle : time ≤ later) : i.By later :=
  ⟨h.1.trans hle, fun ended hended => (h.2 ended hended).trans hle⟩

theorem Interval.By.close {i : Interval} {time at_ : ℕ} (h : i.By time) (hle : at_ ≤ time)
    (reason : IntervalEndReason) : (i.close at_ reason).By time := by
  refine ⟨h.1, fun ended hended => ?_⟩
  rw [← some.inj hended]
  exact max_le h.1 hle

variable {t t' : Tables} {t : Tables} {selects : Sandbox → Bool} {id : ℕ}

/-- What every transaction owes the ledger. -/
theorem Ledger.of_change (hl : Ledger t) (change : Interval → Interval) (hnow : t'.now = t.now)
    (hintervals : t'.intervals = t.intervals.map change) (hrows : StampedFrom t t')
    (hchange : ∀ i ∈ t.intervals, ClosedBy t' i (change i)) : Ledger t' where
  apart := by
    rw [hintervals]
    refine pairwise_map.mpr (hl.apart.imp_of_mem fun {i j} hi hj hprec => ?_)
    have hstart : (change j).startedAt = j.startedAt ∧ (change j).sandboxId = j.sandboxId := by
      rcases hchange j hj with heq | ⟨_, _, -, heq, -⟩ <;> rw [heq] <;> exact ⟨rfl, rfl⟩
    intro hsame
    rcases hchange i hi with heq | ⟨_, _, hopen, heq, -⟩
    · rw [heq, hstart.1]
      rw [heq, hstart.2] at hsame
      exact hprec hsame
    · rw [heq, hstart.2] at hsame
      obtain ⟨ended, hended, -⟩ := hprec hsame
      cases hopen.symm.trans hended
  stamped := by
    intro row' hrow'
    rw [hnow]
    rcases hrows row' hrow' with hstamp | ⟨row, hrow, -, hstamp⟩
    · exact hstamp.le
    · exact hstamp ▸ hl.stamped row hrow
  past := by
    rw [hintervals]
    intro i' hi'
    obtain ⟨i, hi, rfl⟩ := List.mem_map.mp hi'
    rw [hnow]
    rcases hchange i hi with heq | ⟨at_, reason, -, heq, hle, -⟩
    · rw [heq]
      exact hl.past i hi
    · rw [heq]
      exact (hl.past i hi).close (hnow ▸ hle) reason
  rows := by
    rw [hintervals]
    intro i' hi' row' hrow' hid
    obtain ⟨i, hi, rfl⟩ := List.mem_map.mp hi'
    have hid : row'.id = i.sandboxId := by
      rcases hchange i hi with heq | ⟨_, _, -, heq, -⟩ <;> rw [heq] at hid <;> exact hid
    have hby : i.By row'.updatedAt := by
      rcases hrows row' hrow' with hstamp | ⟨row, hrow, hkey, hstamp⟩
      · exact hstamp ▸ hl.past i hi
      · exact hstamp ▸ hl.rows i hi row hrow (hkey.trans hid)
    rcases hchange i hi with heq | ⟨at_, reason, -, heq, -, hle⟩
    · rw [heq]
      exact hby
    · rw [heq]
      exact hby.close (hle row' hrow' hid) reason

/-- The ledger rests on the runs and stamps alone. -/
theorem Ledger.of_rows (hl : Ledger t) (hnow : t'.now = t.now) (hintervals : t'.intervals = t.intervals)
    (hrows : StampedFrom t t') : Ledger t' :=
  hl.of_change id hnow (hintervals.trans (List.map_id _).symm) hrows fun _ _ => .inl rfl

theorem Ledger.insert (hl : Ledger t) (x : Interval) (hopen : x.endedAt = none)
    (hafter : x.containerRef ∉ t.intervals.map Interval.containerRef → ∀ i ∈ t.intervals, Precedes i x)
    (hnow : x.startedAt ≤ t.now) (hrow : ∀ row ∈ t.sandboxes, row.id = x.sandboxId → x.startedAt ≤ row.updatedAt) :
    Ledger (t.insertInterval x) := by
  unfold Tables.insertInterval
  split
  · exact hl
  · next hnew =>
    have hby {time : ℕ} (hle : x.startedAt ≤ time) : x.By time :=
      ⟨hle, fun ended hended => by cases hopen.symm.trans hended⟩
    constructor
    case apart =>
      refine pairwise_append.mpr ⟨hl.apart, pairwise_singleton _ _, fun i hi j hj => ?_⟩
      rw [mem_singleton.mp hj]
      exact hafter hnew i hi
    case stamped => exact hl.stamped
    case past =>
      intro i hi
      rcases mem_append.mp hi with hi | hi
      · exact hl.past i hi
      · rw [mem_singleton.mp hi]
        exact hby hnow
    case rows =>
      intro i hi row hmem hid
      rcases mem_append.mp hi with hi | hi
      · exact hl.rows i hi row hmem hid
      · rw [mem_singleton.mp hi] at hid ⊢
        exact hby (hrow row hmem hid)

/-! ## The transactions -/

/-- An update stamps its rows. -/
theorem stampedFrom_updateMany (t : Tables) (selects : Sandbox → Bool) (data : Sandbox → Sandbox) :
    StampedFrom t (t.updateMany selects data) := by
  intro row' hrow'
  obtain ⟨row, hrow, rfl⟩ := List.mem_map.mp hrow'
  split
  · exact .inl rfl
  · exact .inr ⟨row, hrow, rfl, rfl⟩

theorem stampedFrom_execute (t : Tables) (selects : Sandbox → Bool) {data : Sandbox → Sandbox}
    (hdata : ∀ row, (data row).updatedAt = row.updatedAt) : StampedFrom t (t.execute selects data) := by
  intro row' hrow'
  obtain ⟨row, hrow, rfl⟩ := List.mem_map.mp hrow'
  split
  · exact .inr ⟨row, hrow, rfl, (hdata row).symm⟩
  · exact .inr ⟨row, hrow, rfl, rfl⟩

/-- An update of rows keeps the ledger. -/
theorem Ledger.updateMany (hl : Ledger t) (selects : Sandbox → Bool) (data : Sandbox → Sandbox) :
    Ledger (t.updateMany selects data) :=
  hl.of_rows rfl rfl (stampedFrom_updateMany t selects data)

theorem Ledger.execute (hl : Ledger t) (selects : Sandbox → Bool) {data : Sandbox → Sandbox}
    (hdata : ∀ row, (data row).updatedAt = row.updatedAt) : Ledger (t.execute selects data) :=
  hl.of_rows rfl rfl (stampedFrom_execute t selects hdata)

theorem updatedAt_of_count (data : Sandbox → Sandbox) (hsels : ∀ row, selects row = true → row.id = id)
    (hcount : 0 < t.count selects) {row' : Sandbox} (hrow' : row' ∈ (t.updateMany selects data).sandboxes)
    (hid : row'.id = id) : row'.updatedAt = t.now := by
  obtain ⟨row, hrow, hsel⟩ := countP_pos_iff.mp hcount
  rw [t.execute_row hrow hrow' (hid.trans (hsels row hsel).symm), if_pos hsel]
  rfl

section

variable (hl : Ledger t) (data : Sandbox → Sandbox) (hsels : ∀ row, selects row = true → row.id = id) (hcount : 0 < t.count selects)
include hl data hsels hcount

theorem Ledger.close_of_count (reason : IntervalEndReason) : Ledger
    (closeRuntimeInterval (t.updateMany selects data) id reason) := by
  refine hl.of_change _ rfl rfl (stampedFrom_updateMany t selects data) fun i _ => ?_
  split
  · next hopen =>
    refine .inr ⟨t.now, reason, hopen.2, rfl, le_rfl, fun row' hrow' hid => ?_⟩
    exact (updatedAt_of_count data hsels hcount hrow' (hid.trans hopen.1)).ge
  · exact .inl rfl

theorem Ledger.open_of_count (ref : ℕ) : Ledger
    (openRuntimeInterval (t.updateMany selects data) id ref) := by
  have hstamp : ∀ row' ∈ (t.updateMany selects data).sandboxes, row'.id = id → row'.updatedAt = t.now :=
    fun row' hrow' hid => updatedAt_of_count data hsels hcount hrow' hid
  let closed := (t.updateMany selects data).mapIntervals
    (fun i => if i.sandboxId = id ∧ i.endedAt = none ∧ i.containerRef ≠ ref then i.close t.now .lost else i)
    fun i => by split <;> rfl
  have hclosed : Ledger closed := by
    refine hl.of_change _ rfl rfl (stampedFrom_updateMany t selects data) fun i _ => ?_
    split
    · next hopen =>
      refine .inr ⟨t.now, .lost, hopen.2.1, rfl, le_rfl, fun row' hrow' hid => ?_⟩
      exact (hstamp row' hrow' (hid.trans hopen.1)).ge
    · exact .inl rfl
  unfold openRuntimeInterval
  split
  · refine hclosed.insert ⟨id, ref, t.now, none, none⟩ rfl (fun hnew i hi hsame => ?_) le_rfl
      fun row' hrow' hid => (hstamp row' hrow' hid).ge
    -- a run of the sandbox that is still open would be of this container
    cases hended : i.endedAt with
    | some ended => exact ⟨ended, rfl, (hclosed.past i hi).2 ended hended⟩
    | none =>
      obtain ⟨before, hbefore, rfl⟩ := List.mem_map.mp hi
      split at hended
      · cases hended
      · next hkept =>
        rw [if_neg hkept] at hsame
        refine absurd ⟨hsame, hended, fun href => hnew ?_⟩ hkept
        rw [← href]
        refine List.mem_map.mpr ⟨before, List.mem_map.mpr ⟨before, hbefore, if_neg hkept⟩, rfl⟩
  · exact hclosed

end

theorem Tables.find?_eq_some {row : Sandbox} (hfind : (t.sandboxes.find? fun row => row.id = id) = some row) :
    row ∈ t.sandboxes ∧ row.id = id :=
  ⟨List.mem_of_find?_eq_some hfind, by simpa using List.find?_some hfind⟩

theorem Ledger.closeOrphans (hl : Ledger t) : Ledger (closeOrphans t) := by
  refine hl.of_change _ rfl rfl (fun row' hrow' => .inr ⟨row', hrow', rfl, rfl⟩) fun i _ => ?_
  split
  · next row hfind =>
    obtain ⟨hrow, hkey⟩ := Tables.find?_eq_some hfind
    split
    · next horphan =>
      refine .inr ⟨row.updatedAt, .lost, horphan.1, rfl, hl.stamped row hrow, fun row' hrow' hid => ?_⟩
      exact (congrArg Sandbox.updatedAt (t.row_eq hrow' hrow (hid.trans hkey.symm))).ge
    · exact .inl rfl
  · exact .inl rfl

theorem Ledger.closeAbandoned (hl : Ledger t) : Ledger (closeAbandoned t) := by
  refine hl.of_change _ rfl rfl (fun row' hrow' => .inr ⟨row', hrow', rfl, rfl⟩) fun i _ => ?_
  split
  · next hgone =>
    refine .inr ⟨t.now, .deleted, hgone.1, rfl, le_rfl, fun row' hrow' hid => absurd ?_ hgone.2⟩
    rw [← hid]
    exact List.mem_map_of_mem hrow'
  · exact .inl rfl

/-- What `openUnrecorded` inserts. -/
theorem unrecorded_eq_some {row : Sandbox} {x : Interval} (h : unrecorded t row = some x) :
    row.status = .running ∧ (∀ i ∈ t.intervals, i.sandboxId = row.id → i.endedAt ≠ none) ∧
      ∃ ref, row.containerRef = some ref ∧ x = ⟨row.id, ref, row.updatedAt, none, none⟩ := by
  unfold unrecorded at h
  split at h
  · next hmiss =>
    obtain ⟨ref, href, rfl⟩ := map_eq_some_iff.mp h
    refine ⟨hmiss.1, fun i hi hsame hopen => hmiss.2 ?_, ref, href, rfl⟩
    exact List.any_eq_true.mpr ⟨i, hi, decide_eq_true ⟨hsame, hopen⟩⟩
  · cases h

theorem Ledger.foldl_insert (hl : Ledger t) (xs : List Interval) (hdistinct : (xs.map Interval.sandboxId).Nodup)
    (hafter : ∀ x ∈ xs, x.endedAt = none ∧ (∀ i ∈ t.intervals, Precedes i x) ∧ x.startedAt ≤ t.now ∧ ∀ row ∈ t.sandboxes, row.id = x.sandboxId → x.startedAt ≤ row.updatedAt) :
    Ledger (xs.foldl Tables.insertInterval t) := by
  induction xs generalizing t with
  | nil => exact hl
  | cons x xs ih =>
    obtain ⟨hnew, hdistinct⟩ := nodup_cons.mp hdistinct
    obtain ⟨hopen, hprec, hnow, hrow⟩ := hafter x mem_cons_self
    refine ih (hl.insert x hopen (fun _ => hprec) hnow hrow) hdistinct fun y hy => ?_
    obtain ⟨hopen', hprecedes', hnow', hrow'⟩ := hafter y (mem_cons_of_mem _ hy)
    refine ⟨hopen', fun i hi => ?_, ?_, ?_⟩
    · unfold Tables.insertInterval at hi
      split at hi
      · exact hprecedes' i hi
      · rcases mem_append.mp hi with hi | hi
        · exact hprecedes' i hi
        · rw [mem_singleton.mp hi]
          intro hsame
          refine absurd ?_ hnew
          rw [hsame]
          exact List.mem_map_of_mem hy
    · unfold Tables.insertInterval
      split <;> exact hnow'
    · rw [Tables.insertInterval_sandboxes]
      exact hrow'

theorem nodup_unrecorded (t : Tables) (rows : List Sandbox) (hids : (rows.map (·.id)).Nodup) :
    ((rows.filterMap (unrecorded t)).map Interval.sandboxId).Nodup := by
  have hsub : List.Sublist ((rows.filterMap (unrecorded t)).map Interval.sandboxId) (rows.map (·.id)) := by
    induction rows with
    | nil => exact List.Sublist.refl _
    | cons row rows ih =>
      have ih := ih (nodup_cons.mp hids).2
      cases hrow : unrecorded t row with
      | none =>
        rw [filterMap_cons_none hrow]
        exact ih.cons _
      | some =>
        obtain ⟨-, -, ref, -, rfl⟩ := unrecorded_eq_some hrow
        rw [filterMap_cons_some hrow]
        exact ih.cons_cons _
  exact hids.sublist hsub

section

variable (hl : Ledger t)
include hl

theorem Ledger.openUnrecorded : Ledger (openUnrecorded t) := by
  have hopened : Ledger ((t.sandboxes.filterMap (unrecorded t)).foldl .insertInterval t) := by
    refine hl.foldl_insert _ (nodup_unrecorded t t.sandboxes t.ids) fun x hx => ?_
    obtain ⟨row, hrow, hx⟩ := mem_filterMap.mp hx
    obtain ⟨-, hmiss, ref, -, rfl⟩ := unrecorded_eq_some hx
    refine ⟨rfl, fun i hi hsame => ?_, hl.stamped row hrow, fun row' hrow' hid => ?_⟩
    · cases hended : i.endedAt with
      | none => exact absurd hended (hmiss i hi hsame)
      | some ended => exact ⟨ended, rfl, (hl.rows i hi row hrow hsame.symm).2 ended hended⟩
    · exact (congrArg Sandbox.updatedAt (t.row_eq hrow' hrow hid)).ge
  have hrows : ((t.sandboxes.filterMap (unrecorded t)).foldl .insertInterval t).sandboxes = t.sandboxes := by
    have hfold (xs : List Interval) (t : Tables) : (xs.foldl .insertInterval t).sandboxes = t.sandboxes := by
      induction xs generalizing t with
      | nil => rfl
      | cons x xs ih => exact (ih _).trans (Tables.insertInterval_sandboxes t x)
    exact hfold _ t
  refine hopened.of_rows rfl rfl fun row' hrow' => .inr ?_
  obtain ⟨row, hrow, rfl⟩ := List.mem_map.mp hrow'
  exact ⟨row, hrows.symm ▸ hrow, rfl, rfl⟩

theorem Ledger.applyRefs (d : Delivery) (r : StatusReport) : Ledger (applyRefs t d r) := by
  have hsels : ∀ row, (d.names row && reporterFence d r row) = true → row.id = d.sandboxId :=
    fun row h => (of_decide_eq_true (and_eq_true_iff.mp h).1 : _ ∧ _ ∧ _).1
  unfold Sandboxes.applyRefs
  dsimp only
  split
  · next ref _ =>
    split
    · next hcount => exact hl.open_of_count _ hsels hcount ref
    · exact hl.updateMany _ _
  · split
    · exact hl
    · exact hl.updateMany _ _

omit hl in
theorem id_of_statusSelects {d : Delivery} {r : StatusReport} (row : Sandbox) (h : statusSelects d r row = true) :
    row.id = d.sandboxId := by
  have hfence := (and_eq_true_iff.mp h).1
  have hnames := (and_eq_true_iff.mp (and_eq_true_iff.mp hfence).1).1
  exact (of_decide_eq_true hnames : _ ∧ _ ∧ _).1

theorem Ledger.applyStatus (d : Delivery) (r : StatusReport) : Ledger (applyStatus t d r) := by
  unfold Sandboxes.applyStatus
  split
  · next hcloses => exact hl.close_of_count _ id_of_statusSelects hcloses.1 _
  · exact hl.updateMany _ _

theorem Ledger.respawn (id : ℕ) : Ledger (requestSandboxRespawn t id) := by
  unfold requestSandboxRespawn
  dsimp only
  split
  · exact hl.updateMany _ _
  · next hcount =>
    exact hl.close_of_count _ (fun row h => (of_decide_eq_true h : _ ∧ _).1) (Nat.pos_of_ne_zero hcount) _

theorem Ledger.deleteAgent (id : ℕ) : Ledger (deleteAgent t id) := by
  have hrows (t' : Tables) (h : t'.sandboxes = t.sandboxes.filter fun row => row.id ≠ id) : StampedFrom t t' := by
    intro row' hrow'
    rw [h] at hrow'
    exact .inr ⟨row', (mem_filter.mp hrow').1, rfl, rfl⟩
  unfold Sandboxes.deleteAgent
  split
  · refine hl.of_change _ rfl rfl (hrows _ rfl) fun i _ => ?_
    split
    · next hopen =>
      refine .inr ⟨t.now, .deleted, hopen.2, rfl, le_rfl, fun row' hrow' hid => ?_⟩
      exact absurd (hid.trans hopen.1) (of_decide_eq_true (mem_filter.mp hrow').2)
    · exact .inl rfl
  · exact hl.of_rows rfl rfl (hrows _ rfl)

theorem Ledger.createSandbox {id runnerId : ℕ} (h : createSandbox t id runnerId = some t') : Ledger t' := by
  unfold Sandboxes.createSandbox at h
  split at h
  · cases h
  · cases h
    refine hl.of_rows rfl rfl fun row' hrow' => ?_
    rcases mem_cons.mp hrow' with rfl | hrow'
    · exact .inl rfl
    · exact .inr ⟨row', hrow', rfl, rfl⟩

theorem Ledger.tick (later : ℕ) : Ledger { t with now := t.now + later } where
  __ := hl
  stamped := fun row hrow => (hl.stamped row hrow).trans (Nat.le_add_right _ _)
  past := fun i hi => (hl.past i hi).mono (Nat.le_add_right _ _)

theorem Ledger.write {other : Write} (h : write t other = some t') : Ledger t' := by
  cases other with
  | tick later => exact some.inj h ▸ hl.tick later
  | createSandbox => exact hl.createSandbox h
  | recordSpawn | claimChannel | releaseChannel | registerReplica | claimHomeSync | hold =>
    exact some.inj h ▸ hl.execute _ fun _ => rfl
  | claimStart | claimStop | claimStrayStop | releaseClaim | parkUnstartableClaim | restart | wake | anchor
    | engage | bumpHome =>
    exact some.inj h ▸ hl.updateMany _ _
  | respawn id => exact some.inj h ▸ hl.respawn id
  | deleteAgent id => exact some.inj h ▸ hl.deleteAgent id

theorem Ledger.exec {choice : Choice} {point point' : Point} (h : exec choice t point = some (t', point')) : Ledger t' := by
  cases point <;> cases choice <;> try (cases h; done)
  case idle.deliver d =>
    cases hevent : d.event <;> rw [Sandboxes.exec, hevent] at h <;> obtain ⟨rfl, -⟩ := Prod.mk.inj (some.inj h)
    · exact hl.updateMany _ _
    · exact hl.updateMany _ _
    · exact hl
  case idle.sweep =>
    obtain ⟨rfl, -⟩ := Prod.mk.inj (some.inj h)
    exact hl.closeOrphans
  case idle.write other =>
    obtain ⟨written, hwritten, heq⟩ := map_eq_some_iff.mp h
    obtain ⟨rfl, -⟩ := Prod.mk.inj heq
    exact hl.write hwritten
  all_goals obtain ⟨rfl, -⟩ := Prod.mk.inj (some.inj h)
  case refs.proceed d r recovers => exact hl.applyRefs d r
  case status.proceed d r recovers => exact hl.applyStatus d r
  case wake.proceed => exact hl.updateMany _ _
  case abandoned.proceed => exact hl.closeAbandoned
  case unrecorded.proceed => exact hl.openUnrecorded

end

theorem ledger_empty : Ledger World.empty.db where
  apart := List.Pairwise.nil
  stamped := fun _ h => by cases h
  past := fun _ h => by cases h
  rows := fun _ h => by cases h

/-- In every run, of any reports, claims, respawns, deletions and sweeps, the runs of each sandbox follow one
another. -/
theorem throughout_ledger (es : List (ℕ × Choice)) :
    Runs.Throughout step (fun w => Ledger w.db) World.empty es := by
  refine Runs.throughout_of_meets step ?_ ledger_empty (Runs.meets_true step .empty es)
  intro w e w' hw _ hstep
  obtain ⟨t', point, hexec, rfl⟩ := (Calls.step_eq_some_iff exec w w' e).mp hstep
  exact hw.exec hexec

end Onecli.Sandboxes
