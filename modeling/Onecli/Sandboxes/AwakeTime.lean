import Onecli.Sandboxes.Ledger

/-!
# Awake time is counted once

Each sandbox has one open run at most, its runs do not overlap, and each container has one, in every run of the
system. That the run of a running container is open, once a sweep has passed, is what the reports can break: a
container has one row of the ledger for good, so that a run which a late report has closed is not opened again, and
a run that stays open after its container is gone keeps the sweep from opening the next one.
-/

namespace Onecli.Sandboxes

open Onecli.Runner List Option Bool

/-- A container's run is open. -/
def OpenRun (t : Tables) (containerRef : ℕ) : Prop :=
  ∃ i ∈ t.intervals, i.containerRef = containerRef ∧ i.endedAt = none

/-- The ledger has no run of a container, and none of its sandbox is open. -/
def Missing (t : Tables) (sandboxId containerRef : ℕ) : Prop :=
  containerRef ∉ t.intervals.map Interval.containerRef ∧ ∀ i ∈ t.intervals, i.sandboxId = sandboxId → i.endedAt ≠ none

/-- No run of a container is over, and none of another container of its sandbox is open. -/
def Recordable (t : Tables) (sandboxId containerRef : ℕ) : Prop :=
  ∀ i ∈ t.intervals, (i.containerRef = containerRef → i.endedAt = none) ∧
    (i.sandboxId = sandboxId → i.endedAt = none → i.containerRef = containerRef)

instance (t : Tables) (sandboxId containerRef : ℕ) : Decidable (Recordable t sandboxId containerRef) := by
  unfold Recordable
  infer_instance

/-- Runs are counted once, and those of the running containers are counted. -/
structure AwakeOnce (t : Tables) : Prop where
  openOnce : ∀ i ∈ t.intervals, ∀ j ∈ t.intervals, i.sandboxId = j.sandboxId → i.endedAt = none →
    j.endedAt = none → i = j
  apart : ∀ i ∈ t.intervals, ∀ j ∈ t.intervals, i.sandboxId = j.sandboxId → i ≠ j →
    (∃ ended, i.endedAt = some ended ∧ ended ≤ j.startedAt) ∨ ∃ ended, j.endedAt = some ended ∧ ended ≤ i.startedAt
  containers : ∀ i ∈ t.intervals, ∀ j ∈ t.intervals, i.containerRef = j.containerRef → i = j
  counted : ∀ row ∈ t.sandboxes, row.status = .running → row.swept = true → ∀ containerRef ∈ row.containerRef,
    ∃ i ∈ t.intervals, i.sandboxId = row.id ∧ i.containerRef = containerRef ∧ i.endedAt = none

variable (home : ℕ → ℕ)

/-- A step names each container for the sandbox that it was created for. A report or a process state that leaves a
row running leaves it with a container whose run is not over; where the row was not running with it before, no
other container of the sandbox has an open run. -/
def Accountable (w : World) (e : ℕ × Choice) : Prop :=
  match e.2, w.calls e.1 with
  | .write (.recordSpawn id _ _ containerRef _), .idle => home containerRef = id
  | .write (.anchor id _ containerRef), .idle =>
      home containerRef = id ∧ ∀ row ∈ w.db.sandboxes, row.id = id → row.containerRef = none →
        row.status = .running → Recordable w.db row.id containerRef
  | .deliver d, .idle =>
      d.event = .ready → ∀ row ∈ w.db.sandboxes, readyFence d row = true → ∀ containerRef ∈ row.containerRef,
        Recordable w.db row.id containerRef
  | .proceed _, .refs d r =>
      ∀ containerRef ∈ r.containerRef, home containerRef = d.sandboxId ∧
        ∀ row ∈ w.db.sandboxes, d.names row = true → reporterFence d r row = true → row.status = .running →
          ∀ i ∈ w.db.intervals, i.containerRef = containerRef → i.endedAt = none
  | .proceed _, .status d r =>
      r.status = .running → ∀ row ∈ w.db.sandboxes, statusFence d r row = true →
        ∀ containerRef ∈ row.containerRef, Recordable w.db row.id containerRef
  | _, _ => True

instance (w : World) (e : ℕ × Choice) : Decidable (Accountable home w e) := by
  cases e with
  | mk i choice =>
    unfold Accountable
    generalize w.calls i = point
    cases choice with
    | write made => cases made <;> cases point <;> infer_instance
    | _ => cases point <;> infer_instance

/-- The container of a running row has an open run, or it waits for the sweep. -/
def Accounted (t : Tables) (row : Sandbox) : Prop :=
  row.status = .running → ∀ containerRef, row.containerRef = some containerRef →
    OpenRun t containerRef ∨ (row.swept = false ∧ Missing t row.id containerRef)

/-- What the steps that meet the condition keep. -/
structure Accounts (t : Tables) : Prop where
  rows : ∀ row ∈ t.sandboxes, ∀ containerRef, row.containerRef = some containerRef → home containerRef = row.id
  runs : ∀ i ∈ t.intervals, home i.containerRef = i.sandboxId
  accounted : ∀ row ∈ t.sandboxes, Accounted t row

variable {home}

/-! ## Changing the rows -/

variable {t : Tables} {selects : Sandbox → Bool} {data : Sandbox → Sandbox} {t t' : Tables} {row : Sandbox}
  {d : Delivery}

theorem Recordable.cases {sandboxId ref : ℕ} (h : Recordable t sandboxId ref) :
    OpenRun t ref ∨ Missing t sandboxId ref := by
  by_cases hknown : ref ∈ t.intervals.map Interval.containerRef
  · obtain ⟨i, hi, href⟩ := List.mem_map.mp hknown
    exact .inl ⟨i, hi, href, (h i hi).1 href⟩
  · refine .inr ⟨hknown, fun i hi hid hopen => hknown ?_⟩
    rw [← (h i hi).2 hid hopen]
    exact List.mem_map_of_mem hi

/-- An update that names containers for their sandboxes, and leaves a row running where it was running with the
same container, or where its container can be recorded. -/
theorem Accounts.execute (ha : Accounts home t)
    (hrefs : ∀ row ∈ t.sandboxes, selects row = true → ∀ ref, (data row).containerRef = some ref → row.containerRef = some ref ∨ home ref = row.id)
    (hruns : ∀ row ∈ t.sandboxes, selects row = true → (data row).status = .running → (row.status = .running ∧ (data row).containerRef = row.containerRef) ∨ ∀ ref, (data row).containerRef = some ref → Recordable t row.id ref) :
    Accounts home (t.execute selects data) where
  rows := by
    intro row' hrow' ref href
    obtain ⟨row, hrow, rfl⟩ := List.mem_map.mp hrow'
    cases hsels : selects row with
    | false =>
      rw [hsels] at href
      exact ha.rows row hrow ref href
    | true =>
      rw [hsels] at href
      rcases hrefs row hrow hsels ref href with hsame | hhome
      · exact ha.rows row hrow ref hsame
      · exact hhome
  runs := ha.runs
  accounted := by
    intro row' hrow'
    obtain ⟨row, hrow, rfl⟩ := List.mem_map.mp hrow'
    cases hsels : selects row with
    | false => exact ha.accounted row hrow
    | true =>
      intro hrunning ref href
      by_cases hsame : row.status = .running ∧ (data row).containerRef = row.containerRef
      · have hswept : (row.written (data row)).swept = row.swept := by
          have hafter : (data row).status = .running := hrunning
          change (row.swept && decide (row.status = .running) && decide ((data row).status = .running) &&
            decide (row.containerRef = (data row).containerRef)) = row.swept
          rw [hsame.1, hafter, hsame.2]
          simp
        rcases ha.accounted row hrow hsame.1 ref (hsame.2.symm.trans href) with hopen | ⟨hwaits, hmiss⟩
        · exact .inl hopen
        · exact .inr ⟨hswept.trans hwaits, hmiss⟩
      · have hswept : (row.written (data row)).swept = false := by
          change (row.swept && decide (row.status = .running) && decide ((data row).status = .running) &&
            decide (row.containerRef = (data row).containerRef)) = false
          by_cases hrow : row.status = .running
          · have hne : ¬ row.containerRef = (data row).containerRef := fun heq => hsame ⟨hrow, heq.symm⟩
            rw [decide_eq_false hne, Bool.and_false]
          · rw [decide_eq_false hrow, Bool.and_false, Bool.false_and, Bool.false_and]
        have hrecordable := (hruns row hrow hsels hrunning).resolve_left hsame ref href
        exact hrecordable.cases.imp_right fun hmiss => ⟨hswept, hmiss⟩

/-- An update that starts nothing keeps the accounts. -/
theorem Accounts.execute_of_quiet (ha : Accounts home t) (hrefs : ∀ row, (data row).containerRef = row.containerRef)
    (hruns : ∀ row, selects row = true → (data row).status = .running → row.status = .running) :
    Accounts home (t.execute selects data) :=
  ha.execute (fun row _ _ _ href => .inl ((hrefs row).symm.trans href))
    fun row _ hsels hrunning => .inl ⟨hruns row hsels hrunning, hrefs row⟩

/-! ## Changing the ledger -/

/-- A run is left as it is, or closed. -/
def LeftOrClosed (i i' : Interval) : Prop := i' = i ∨ ∃ at_ reason, i' = i.close at_ reason

theorem Accounts.accounted_of_close (ha : Accounts home t) {change : Interval → Interval}
    (hintervals : t'.intervals = t.intervals.map change) (hchange : ∀ i, LeftOrClosed i (change i))
    (hrow : row ∈ t.sandboxes)
    (hruns : row.status = .running → ∀ i ∈ t.intervals, i.sandboxId = row.id → change i = i) : Accounted t' row := by
  intro hrunning ref href
  rcases ha.accounted row hrow hrunning ref href with ⟨i, hi, hiref, hopen⟩ | ⟨hwaits, hnew, hnone⟩
  · have hbox : i.sandboxId = row.id := by
      rw [← ha.runs i hi, hiref]
      exact ha.rows row hrow ref href
    refine .inl ⟨i, ?_, hiref, hopen⟩
    rw [hintervals]
    exact List.mem_map.mpr ⟨i, hi, hruns hrunning i hi hbox⟩
  · refine .inr ⟨hwaits, ?_, ?_⟩
    · rw [hintervals]
      intro hknown
      obtain ⟨i', hi', hiref⟩ := List.mem_map.mp hknown
      obtain ⟨i, hi, rfl⟩ := List.mem_map.mp hi'
      refine hnew (List.mem_map.mpr ⟨i, hi, ?_⟩)
      rcases hchange i with heq | ⟨_, _, heq⟩ <;> rw [heq] at hiref <;> exact hiref
    · rw [hintervals]
      intro i' hi' hid
      obtain ⟨i, hi, rfl⟩ := List.mem_map.mp hi'
      rcases hchange i with heq | ⟨_, _, heq⟩
      · rw [heq] at hid ⊢
        exact hnone i hi hid
      · rw [heq]
        exact some_ne_none _

theorem Accounts.runs_of_close (ha : Accounts home t) {change : Interval → Interval}
    (hintervals : t'.intervals = t.intervals.map change) (hchange : ∀ i, LeftOrClosed i (change i)) :
    ∀ i ∈ t'.intervals, home i.containerRef = i.sandboxId := by
  rw [hintervals]
  intro i' hi'
  obtain ⟨i, hi, rfl⟩ := List.mem_map.mp hi'
  rcases hchange i with heq | ⟨_, _, heq⟩ <;> rw [heq] <;> exact ha.runs i hi

/-- Closing runs keeps the accounts. -/
theorem Accounts.close (ha : Accounts home t) (change : Interval → Interval)
    (hintervals : t'.intervals = t.intervals.map change) (hchange : ∀ i, LeftOrClosed i (change i))
    (hrows : ∀ row ∈ t'.sandboxes, row ∈ t.sandboxes)
    (hruns : ∀ row ∈ t'.sandboxes, row.status = .running → ∀ i ∈ t.intervals, i.sandboxId = row.id → change i = i) :
    Accounts home t' where
  rows := fun row hrow => ha.rows row (hrows row hrow)
  runs := ha.runs_of_close hintervals hchange
  accounted := fun row hrow => ha.accounted_of_close hintervals hchange (hrows row hrow) (hruns row hrow)

theorem Accounted.insert (hacct : Accounted t row) {x : Interval} (hhome : home x.containerRef = x.sandboxId)
    (hrefs : ∀ ref, row.containerRef = some ref → home ref = row.id)
    (hother : row.id ≠ x.sandboxId) : Accounted (t.insertInterval x) row := by
  unfold Tables.insertInterval
  split
  · exact hacct
  · intro hrunning ref href
    rcases hacct hrunning ref href with ⟨i, hi, hiopen⟩ | ⟨hwaits, hnew, hnone⟩
    · exact .inl ⟨i, mem_append_left _ hi, hiopen⟩
    · refine .inr ⟨hwaits, fun hknown => ?_, fun i hi hbox => ?_⟩
      · rw [map_append, mem_append] at hknown
        rcases hknown with hknown | hknown
        · exact hnew hknown
        · have hsame : ref = x.containerRef := mem_singleton.mp hknown
          exact hother ((hrefs ref href).symm.trans (hsame ▸ hhome))
      · rcases mem_append.mp hi with hi | hi
        · exact hnone i hi hbox
        · rw [mem_singleton.mp hi] at hbox
          exact absurd hbox.symm hother

theorem mem_refs_insert (t : Tables) (x : Interval) {ref : ℕ}
    (h : ref ∈ t.intervals.map Interval.containerRef ∨ ref = x.containerRef) :
    ref ∈ (t.insertInterval x).intervals.map Interval.containerRef := by
  unfold Tables.insertInterval
  split
  · next hknown => exact h.elim id fun heq => heq ▸ hknown
  · rw [map_append, mem_append, map_singleton, mem_singleton]
    exact h

theorem OpenRun.insert {ref : ℕ} (h : OpenRun t ref) (x : Interval) :
    OpenRun (t.insertInterval x) ref := by
  unfold Tables.insertInterval
  split
  · exact h
  · obtain ⟨i, hi, hopen⟩ := h
    exact ⟨i, mem_append_left _ hi, hopen⟩

theorem runs_of_insert (hruns : ∀ i ∈ t.intervals, home i.containerRef = i.sandboxId) {x : Interval}
    (hhome : home x.containerRef = x.sandboxId) :
    ∀ i ∈ (t.insertInterval x).intervals, home i.containerRef = i.sandboxId := by
  unfold Tables.insertInterval
  split
  · exact hruns
  · intro i hi
    rcases mem_append.mp hi with hi | hi
    · exact hruns i hi
    · rw [mem_singleton.mp hi]
      exact hhome

theorem Accounts.insert (ha : Accounts home t) (x : Interval) (hopen : x.endedAt = none)
    (hhome : home x.containerRef = x.sandboxId)
    (hrow : ∀ row ∈ t.sandboxes, row.id = x.sandboxId → row.containerRef = some x.containerRef) :
    Accounts home (t.insertInterval x) where
  rows := by
    rw [Tables.insertInterval_sandboxes]
    exact ha.rows
  runs := runs_of_insert ha.runs hhome
  accounted := by
    rw [Tables.insertInterval_sandboxes]
    intro row hmem
    by_cases hid : row.id = x.sandboxId
    · intro hrunning ref href
      have hsame : ref = x.containerRef := some.inj (href.symm.trans (hrow row hmem hid))
      rcases ha.accounted row hmem hrunning ref href with hrun | ⟨-, hnew, -⟩
      · exact .inl (hrun.insert x)
      · unfold Tables.insertInterval
        rw [dif_neg (hsame ▸ hnew)]
        exact .inl ⟨x, mem_append_right _ (mem_singleton_self x), hsame.symm, hopen⟩
    · exact (ha.accounted row hmem).insert hhome (ha.rows row hmem) hid

/-! ## The transactions -/

theorem Accounts.applyReady (ha : Accounts home t)
    (hrecordable : ∀ row ∈ t.sandboxes, readyFence d row = true → ∀ ref ∈ row.containerRef, Recordable t row.id ref) :
    Accounts home (applyReady t d) :=
  ha.execute (fun _ _ _ _ href => .inl href) fun row hrow hsels _ =>
    .inr fun ref href => hrecordable row hrow hsels ref href

theorem selects_of_count {id : ℕ} (hsels : ∀ row, selects row = true → row.id = id) (hcount : 0 < t.count selects)
    (hrow : row ∈ t.sandboxes) (hid : row.id = id) : selects row = true := by
  obtain ⟨other, hother, hsel⟩ := countP_pos_iff.mp hcount
  rw [t.row_eq hrow hother (hid.trans (hsels other hsel).symm)]
  exact hsel

section

variable (ha : Accounts home t)
include ha

theorem Accounts.openNamed {id ref : ℕ} (hsels : ∀ row, selects row = true → row.id = id)
    (hcount : 0 < t.count selects) (hhome : home ref = id)
    (hdata : ∀ row, (data row).status = row.status ∧ (data row).containerRef = some ref)
    (hnotOver : ∀ row ∈ t.sandboxes, selects row = true → row.status = .running → ∀ i ∈ t.intervals, i.containerRef = ref → i.endedAt = none) :
    Accounts home (openRuntimeInterval (t.updateMany selects data) id ref) := by
  let change : Interval → Interval := fun i =>
    if i.sandboxId = id ∧ i.endedAt = none ∧ i.containerRef ≠ ref then i.close t.now .lost else i
  have hchange : ∀ i, LeftOrClosed i (change i) := by
    intro i
    unfold change
    split
    · exact .inr ⟨_, _, rfl⟩
    · exact .inl rfl
  let closed := (t.updateMany selects data).mapIntervals change fun i => by
    rcases hchange i with heq | ⟨_, _, heq⟩ <;> rw [heq]
    rfl
  let x : Interval := ⟨id, ref, t.now, none, none⟩
  have hfinal : openRuntimeInterval (t.updateMany selects data) id ref = closed.insertInterval x := by
    obtain ⟨row, hrow, hsel⟩ := countP_pos_iff.mp hcount
    refine if_pos ?_
    rw [← hsels row hsel]
    exact (t.execute_ids selects _).symm ▸ List.mem_map_of_mem hrow
  rw [hfinal]
  refine ⟨?_, runs_of_insert (ha.runs_of_close rfl hchange) hhome, ?_⟩
  · rw [Tables.insertInterval_sandboxes]
    intro row' hrow' containerRef' href
    obtain ⟨row, hrow, rfl⟩ := List.mem_map.mp hrow'
    cases hsel : selects row with
    | false =>
      rw [hsel] at href
      exact ha.rows row hrow containerRef' href
    | true =>
      rw [hsel] at href
      have hsame : ref = containerRef' := some.inj ((hdata row).2.symm.trans href)
      exact (hsame ▸ hhome).trans (hsels row hsel).symm
  · rw [Tables.insertInterval_sandboxes]
    intro row' hrow'
    obtain ⟨row, hrow, rfl⟩ := List.mem_map.mp hrow'
    cases hsel : selects row with
    | false =>
      have hother : row.id ≠ id := fun hid =>
        absurd (selects_of_count hsels hcount hrow hid) (by rw [hsel]; exact Bool.false_ne_true)
      have hclosed : Accounted closed row := by
        refine ha.accounted_of_close rfl hchange hrow fun _ i _ hbox => if_neg fun hopen => ?_
        exact hother (hbox.symm.trans hopen.1)
      exact hclosed.insert hhome (ha.rows row hrow) hother
    | true =>
      intro hrunning containerRef' href
      have hsame : ref = containerRef' := some.inj ((hdata row).2.symm.trans href)
      subst hsame
      by_cases hknown : ref ∈ t.intervals.map Interval.containerRef
      · obtain ⟨i, hi, hiref⟩ := List.mem_map.mp hknown
        have hopen := hnotOver row hrow hsel ((hdata row).1.symm.trans hrunning) i hi hiref
        have hrun : OpenRun closed ref :=
          ⟨i, List.mem_map.mpr ⟨i, hi, if_neg fun hcloses => hcloses.2.2 hiref⟩, hiref, hopen⟩
        exact .inl (hrun.insert x)
      · have hnew : x.containerRef ∉ closed.intervals.map Interval.containerRef := by
          intro hmem
          obtain ⟨i', hi', hiref⟩ := List.mem_map.mp hmem
          obtain ⟨i, hi, rfl⟩ := List.mem_map.mp hi'
          refine hknown (List.mem_map.mpr ⟨i, hi, ?_⟩)
          rcases hchange i with heq | ⟨_, _, heq⟩ <;> rw [heq] at hiref <;> exact hiref
        unfold Tables.insertInterval
        rw [dif_neg hnew]
        exact .inl ⟨x, mem_append_right _ (mem_singleton_self x), rfl, rfl⟩

/-- The refs of a report that names a container of its sandbox, whose run is not over where the row is
running. -/
theorem Accounts.applyRefs {r : StatusReport}
    (hmeets : ∀ ref ∈ r.containerRef, home ref = d.sandboxId ∧ ∀ row ∈ t.sandboxes, d.names row = true → reporterFence d r row = true → row.status = .running → ∀ i ∈ t.intervals, i.containerRef = ref → i.endedAt = none) :
    Accounts home (applyRefs t d r) := by
  let selects : Sandbox → Bool := fun row => d.names row && reporterFence d r row
  have hsels : ∀ row, selects row = true → row.id = d.sandboxId :=
    fun row h => (of_decide_eq_true (and_eq_true_iff.mp h).1 : _ ∧ _ ∧ _).1
  unfold Sandboxes.applyRefs
  dsimp only
  split
  · next ref href =>
    obtain ⟨hhome, hnotOver⟩ := hmeets ref href
    split
    · next hcount =>
      refine ha.openNamed hsels hcount hhome (fun row => ⟨rfl, ?_⟩) fun row hrow hsel => ?_
      · change r.containerRef.or row.containerRef = _
        rw [href, some_or]
      · obtain ⟨hnames, hfence⟩ := and_eq_true_iff.mp hsel
        exact hnotOver row hrow hnames hfence
    · next hcount =>
      have hnone : ∀ row ∈ t.sandboxes, selects row ≠ true := fun row hrow hsel =>
        hcount (countP_pos_iff.mpr ⟨row, hrow, hsel⟩)
      exact ha.execute (fun row hrow hsel => absurd hsel (hnone row hrow))
        fun row hrow hsel => absurd hsel (hnone row hrow)
  · next href =>
    split
    · exact ha
    · refine ha.execute_of_quiet (fun row => ?_) fun _ _ hrunning => hrunning
      change r.containerRef.or row.containerRef = _
      rw [href, none_or]

theorem Accounts.close_of_count (data : Sandbox → Sandbox) {id : ℕ}
    (hsels : ∀ row, selects row = true → row.id = id) (hcount : 0 < t.count selects)
    (hrefs : ∀ row, (data row).containerRef = row.containerRef) (hdown : ∀ row, (data row).status ≠ .running)
    (reason : IntervalEndReason) : Accounts home (closeRuntimeInterval (t.updateMany selects data) id reason) := by
  have hupdated : Accounts home (t.updateMany selects data) :=
    ha.execute_of_quiet hrefs fun row _ hrunning => absurd hrunning (hdown row)
  refine hupdated.close _ rfl (fun i => ?_) (fun row hrow => hrow) fun row' hrow' hrunning i _ hbox => ?_
  · split
    · exact .inr ⟨_, _, rfl⟩
    · exact .inl rfl
  · refine if_neg fun hopen => ?_
    obtain ⟨row, hrow, rfl⟩ := List.mem_map.mp hrow'
    cases hsel : selects row with
    | false =>
      rw [hsel] at hbox
      have hid : row.id = id := hbox.symm.trans hopen.1
      exact absurd (selects_of_count hsels hcount hrow hid) (by rw [hsel]; exact Bool.false_ne_true)
    | true =>
      rw [hsel] at hrunning
      exact hdown row hrunning

theorem Accounts.applyStatus {r : StatusReport}
    (hrecordable : r.status = .running → ∀ row ∈ t.sandboxes, statusFence d r row = true → ∀ ref ∈ row.containerRef, Recordable t row.id ref) :
    Accounts home (applyStatus t d r) := by
  unfold Sandboxes.applyStatus
  split
  · next hcloses =>
    refine ha.close_of_count (withStatus r.status t.now) id_of_statusSelects hcloses.1 (fun _ => rfl) (fun row hrunning => ?_) _
    rcases hcloses.2 with hstatus | hstatus <;> rw [hstatus] at hrunning <;> cases hrunning
  · refine ha.execute (fun _ _ _ _ href => .inl href) fun row hrow hsel hrunning => .inr ?_
    have hstatus : r.status = .running := by
      cases hr : r.status <;> rw [hr] at hrunning <;> first | rfl | cases hrunning
    exact fun ref href =>
      hrecordable hstatus row hrow (and_eq_true_iff.mp hsel).1 ref href

theorem Accounts.closeOrphans : Accounts home (closeOrphans t) := by
  refine ha.close _ rfl (fun i => ?_) (fun row hrow => hrow) fun row hrow hrunning i _ hbox => ?_
  · split
    · split
      · exact .inr ⟨_, _, rfl⟩
      · exact .inl rfl
    · exact .inl rfl
  · split
    · next found hfind =>
      obtain ⟨hfound, hkey⟩ := Tables.find?_eq_some hfind
      rw [t.row_eq hfound hrow (hkey.trans hbox), hrunning]
      exact if_neg fun h => by cases h.2
    · rfl

theorem Accounts.closeAbandoned : Accounts home (closeAbandoned t) := by
  refine ha.close _ rfl (fun i => ?_) (fun row hrow => hrow) fun row hrow _ i _ hbox => ?_
  · split
    · exact .inr ⟨_, _, rfl⟩
    · exact .inl rfl
  · refine if_neg fun hgone => hgone.2 ?_
    rw [hbox]
    exact List.mem_map_of_mem hrow

theorem Accounts.foldl_insert (xs : List Interval)
    (hxs : ∀ x ∈ xs, x.endedAt = none ∧ home x.containerRef = x.sandboxId ∧ ∀ row ∈ t.sandboxes, row.id = x.sandboxId → row.containerRef = some x.containerRef) :
    Accounts home (xs.foldl Tables.insertInterval t) ∧ (xs.foldl Tables.insertInterval t).sandboxes = t.sandboxes ∧ ∀
    ref, ref ∈ t.intervals.map Interval.containerRef ∨ ref ∈ xs.map Interval.containerRef →
    ref ∈ (xs.foldl Tables.insertInterval t).intervals.map Interval.containerRef := by
  induction xs generalizing t with
  | nil => exact ⟨ha, rfl, fun _ h => h.elim id fun h => by cases h⟩
  | cons x xs ih =>
    obtain ⟨hopen, hhome, hrow⟩ := hxs x mem_cons_self
    have hsandboxes := Tables.insertInterval_sandboxes t x
    obtain ⟨haccounts, hsame, hknown⟩ := ih (ha.insert x hopen hhome hrow)
      (fun y hy => hsandboxes.symm ▸ hxs y (mem_cons_of_mem _ hy))
    refine ⟨haccounts, hsame.trans hsandboxes, fun ref href => hknown ref ?_⟩
    rcases href with href | href
    · exact .inl (mem_refs_insert t x (.inl href))
    · rcases mem_cons.mp href with href | href
      · exact .inl (mem_refs_insert t x (.inr href))
      · exact .inr href

theorem Accounts.openUnrecorded : Accounts home (openUnrecorded t) := by
  obtain ⟨hopened, hsame, hknown⟩ := ha.foldl_insert (t.sandboxes.filterMap (unrecorded t)) fun x hx => by
    obtain ⟨row, hrow, hx⟩ := mem_filterMap.mp hx
    obtain ⟨-, -, ref, href, rfl⟩ := unrecorded_eq_some hx
    refine ⟨rfl, ha.rows row hrow ref href, fun row' hrow' hid => ?_⟩
    rw [t.row_eq hrow' hrow hid]
    exact href
  refine ⟨fun row' hrow' ref href => ?_, hopened.runs, fun row' hrow' hrunning ref href => ?_⟩
  · obtain ⟨row, hrow, rfl⟩ := List.mem_map.mp hrow'
    exact ha.rows row hrow ref href
  · obtain ⟨row, hrow, rfl⟩ := List.mem_map.mp hrow'
    refine .inl ?_
    rcases hopened.accounted row (hsame.symm ▸ hrow) hrunning ref href with hrun | ⟨-, hnew, hnone⟩
    · exact hrun
    · refine absurd (hknown ref ?_) hnew
      -- it was missing before, so that it is one of those inserted
      rcases ha.accounted row hrow hrunning ref href with ⟨i, hi, hiref, -⟩ | ⟨-, -, hclosed⟩
      · exact .inl (hiref ▸ List.mem_map_of_mem hi)
      · have hx : unrecorded t row = some ⟨row.id, ref, row.updatedAt, none, none⟩ := by
          unfold unrecorded
          rw [if_pos ?_, href, map_some]
          refine ⟨hrunning, fun hany => ?_⟩
          obtain ⟨i, hi, hits⟩ := List.any_eq_true.mp hany
          have hits := of_decide_eq_true hits
          exact hclosed i hi hits.1 hits.2
        exact .inr (List.mem_map.mpr ⟨_, mem_filterMap.mpr ⟨row, hrow, hx⟩, rfl⟩)

theorem Accounts.respawn (id : ℕ) : Accounts home (requestSandboxRespawn t id) := by
  unfold requestSandboxRespawn
  dsimp only
  split
  · exact ha.execute_of_quiet (fun _ => rfl) fun _ _ h => by cases h
  · next hcount =>
    apply ha.close_of_count
    · exact fun row h => (of_decide_eq_true h : _ ∧ _).1
    · exact Nat.pos_of_ne_zero hcount
    · exact fun _ => rfl
    · exact fun _ hrunning => by cases hrunning

theorem Accounts.deleteAgent (id : ℕ) : Accounts home (deleteAgent t id) := by
  unfold Sandboxes.deleteAgent
  split
  · refine ha.close _ rfl (fun i => ?_) (fun row hrow => (mem_filter.mp hrow).1)
      fun row hrow _ i _ hbox => if_neg fun hopen => ?_
    · split
      · exact .inr ⟨_, _, rfl⟩
      · exact .inl rfl
    · exact of_decide_eq_true (mem_filter.mp hrow).2 (hbox.symm.trans hopen.1)
  · exact ⟨fun row hrow => ha.rows row (mem_filter.mp hrow).1, ha.runs,
      fun row hrow => ha.accounted row (mem_filter.mp hrow).1⟩

theorem Accounts.recordSpawn {id runnerId replicaId ref : ℕ} (hash : ℕ) (hhome : home ref = id)
    : Accounts home (writeChannel t id fun row =>
    (Channel.recordSpawn runnerId replicaId id ref hash t.now row).getD row) := by
  have hcases (row : Channel.Sandbox) :
      (Channel.recordSpawn runnerId replicaId id ref hash t.now row).getD row = row ∨
        (((Channel.recordSpawn runnerId replicaId id ref hash t.now row).getD row).containerRef = some ref ∧
          ((Channel.recordSpawn runnerId replicaId id ref hash t.now row).getD row).status = .starting) := by
    unfold Channel.recordSpawn
    split
    · next hstarting => exact .inr ⟨rfl, hstarting.2.2.2⟩
    · exact .inl rfl
  refine ha.execute (fun row _ hsels containerRef' href => ?_) fun row _ _ hrunning => .inl ?_
  · rcases hcases row.toSandbox with hsame | ⟨hrec, -⟩
    · exact Or.inl ((congrArg Channel.Sandbox.containerRef hsame).symm.trans href)
    · cases hrec.symm.trans href
      exact .inr (hhome.trans (of_decide_eq_true hsels).symm)
  · rcases hcases row.toSandbox with hsame | ⟨-, hstarting⟩
    · exact ⟨(congrArg Channel.Sandbox.status hsame).symm.trans hrunning, congrArg Channel.Sandbox.containerRef hsame⟩
    · cases hstarting.symm.trans hrunning

end

theorem claimChannel_same (runnerId replicaId : ℕ) (claim : Channel.Claim) (row : Channel.Sandbox) :
    ((Channel.claimChannel runnerId replicaId claim row).getD row).containerRef = row.containerRef ∧
      ((Channel.claimChannel runnerId replicaId claim row).getD row).status = row.status := by
  unfold Channel.claimChannel
  split <;> exact ⟨rfl, rfl⟩

theorem releaseChannel_same (runnerId replicaId connId now : ℕ) (row : Channel.Sandbox) :
    (Channel.releaseChannel runnerId replicaId connId now row).containerRef = row.containerRef ∧
      (Channel.releaseChannel runnerId replicaId connId now row).status = row.status := by
  unfold Channel.releaseChannel
  split <;> exact ⟨rfl, rfl⟩

theorem Accounts.write {w : World} (ha : Accounts home w.db) {i : ℕ} {other : Write}
    (hidle : w.calls i = .idle) (hmeets : Accountable home w (i, .write other)) {t' : Tables}
    (h : write w.db other = some t') : Accounts home t' := by
  unfold Accountable at hmeets
  rw [hidle] at hmeets
  cases other with
  | tick => exact some.inj h ▸ ⟨ha.rows, ha.runs, ha.accounted⟩
  | createSandbox id runnerId =>
    change createSandbox w.db id runnerId = some t' at h
    unfold createSandbox at h
    split at h
    · cases h
    · cases h
      refine ⟨fun row hrow ref href => ?_, ha.runs, fun row hrow => ?_⟩
      · rcases mem_cons.mp hrow with rfl | hrow
        · cases href
        · exact ha.rows row hrow ref href
      · rcases mem_cons.mp hrow with rfl | hrow
        · exact fun hrunning => by cases hrunning
        · exact ha.accounted row hrow
  | recordSpawn id runnerId replicaId ref hash => exact some.inj h ▸ ha.recordSpawn hash hmeets
  | claimChannel id runnerId replicaId claim =>
    refine some.inj h ▸ ha.execute_of_quiet (fun row => ?_) fun row _ hrunning => ?_
    · exact (claimChannel_same runnerId replicaId claim row.toSandbox).1
    · exact (claimChannel_same runnerId replicaId claim row.toSandbox).2.symm.trans hrunning
  | releaseChannel id runnerId replicaId connId =>
    refine some.inj h ▸ ha.execute_of_quiet (fun row => ?_) fun row _ hrunning => ?_
    · exact (releaseChannel_same runnerId replicaId connId w.db.now row.toSandbox).1
    · exact (releaseChannel_same runnerId replicaId connId w.db.now row.toSandbox).2.symm.trans hrunning
  | registerReplica | restart | engage | bumpHome | claimHomeSync | hold =>
    exact some.inj h ▸ ha.execute_of_quiet (fun _ => rfl) fun _ _ hrunning => hrunning
  | claimStart | claimStop | claimStrayStop | releaseClaim | parkUnstartableClaim | wake =>
    exact some.inj h ▸ ha.execute_of_quiet (fun _ => rfl) fun _ _ hrunning => by cases hrunning
  | respawn id => exact some.inj h ▸ ha.respawn id
  | anchor id runnerId =>
    obtain ⟨hhome, hrecordable⟩ := hmeets
    have hsel (row : Sandbox)
        (h : (row.id = id && row.runnerId = runnerId && row.containerRef = none : Bool) = true) :
        row.id = id ∧ row.containerRef = none := by
      obtain ⟨hkey, hnone⟩ := and_eq_true_iff.mp h
      exact ⟨of_decide_eq_true (and_eq_true_iff.mp hkey).1, of_decide_eq_true hnone⟩
    refine some.inj h ▸ ha.execute (fun row _ hsels containerRef' href => ?_)
      fun row hrow hsels hrunning => .inr fun containerRef' href => ?_
    · cases href
      exact .inr (hhome.trans (hsel row hsels).1.symm)
    · cases href
      obtain ⟨hid, hnone⟩ := hsel row hsels
      exact hrecordable row hrow hid hnone hrunning
  | deleteAgent id => exact some.inj h ▸ ha.deleteAgent id

/-- Every transaction that meets the condition keeps the accounts. -/
theorem Accounts.step {w w' : World} (ha : Accounts home w.db) {e : ℕ × Choice} (hmeets : Accountable home w e)
    (hstep : step w e = some w') : Accounts home w'.db := by
  obtain ⟨i, choice⟩ := e
  obtain ⟨t', point, hexec, rfl⟩ := (Calls.step_eq_some_iff exec w w' (i, choice)).mp hstep
  cases hpoint : w.calls i <;> cases choice <;> rw [hpoint] at hexec <;> try (cases hexec; done)
  case idle.write other =>
    obtain ⟨written, hwritten, heq⟩ := map_eq_some_iff.mp hexec
    obtain ⟨rfl, -⟩ := Prod.mk.inj heq
    exact ha.write hpoint hmeets hwritten
  case idle.deliver d =>
    unfold Accountable at hmeets
    rw [hpoint] at hmeets
    cases hevent : d.event <;> rw [exec, hevent] at hexec <;> obtain ⟨rfl, -⟩ := Prod.mk.inj (some.inj hexec)
    · exact ha.execute_of_quiet (fun _ => rfl) fun _ _ hrunning => hrunning
    · exact ha.applyReady (hmeets hevent)
    · exact ha
  all_goals
    obtain ⟨rfl, -⟩ := Prod.mk.inj (some.inj hexec)
    unfold Accountable at hmeets
    rw [hpoint] at hmeets
  case idle.sweep => exact ha.closeOrphans
  case refs.proceed d r recovers => exact ha.applyRefs hmeets
  case status.proceed d r recovers => exact ha.applyStatus hmeets
  case wake.proceed => exact ha.execute_of_quiet (fun _ => rfl) fun _ _ h => by cases h
  case abandoned.proceed => exact ha.closeAbandoned
  case unrecorded.proceed => exact ha.openUnrecorded

/-! ## Every run -/

/-- Kept accounts count no time twice. -/
theorem Accounts.awakeOnce (ha : Accounts home t) (hl : Ledger t) : AwakeOnce t := by
  have hrelated : ∀ i ∈ t.intervals, ∀ j ∈ t.intervals, i ≠ j → Precedes i j ∨ Precedes j i := by
    intro i hi j hj hne
    obtain ⟨m, hm, rfl⟩ := getElem_of_mem hi
    obtain ⟨n, hn, rfl⟩ := getElem_of_mem hj
    have hpairs := pairwise_iff_getElem.mp hl.apart
    rcases Nat.lt_trichotomy m n with hlt | rfl | hlt
    · exact .inl (hpairs m n hm hn hlt)
    · exact absurd rfl hne
    · exact .inr (hpairs n m hn hm hlt)
  constructor
  case openOnce =>
    intro i hi j hj hsame hopen hopen'
    by_contra hne
    rcases hrelated i hi j hj hne with hprec | hprec
    · obtain ⟨ended, hended, -⟩ := hprec hsame
      cases hopen.symm.trans hended
    · obtain ⟨ended, hended, -⟩ := hprec hsame.symm
      cases hopen'.symm.trans hended
  case apart =>
    intro i hi j hj hsame hne
    exact (hrelated i hi j hj hne).imp (fun h => h hsame) fun h => h hsame.symm
  case containers => exact fun i hi j hj href => inj_on_of_nodup_map t.refs hi hj href
  case counted =>
    intro row hrow hrunning hswept ref href
    rcases ha.accounted row hrow hrunning ref href with ⟨i, hi, hiref, hopen⟩ | ⟨hwaits, -⟩
    · refine ⟨i, hi, ?_, hiref, hopen⟩
      rw [← ha.runs i hi, hiref]
      exact ha.rows row hrow ref href
    · cases hswept.symm.trans hwaits

/-- Empty tables have nothing to account for. -/
theorem accounts_empty : Accounts home World.empty.db where
  rows := fun _ h => by cases h
  runs := fun _ h => by cases h
  accounted := fun _ h => by cases h

/-- In every run whose steps are all accountable, awake time is counted once throughout. -/
theorem run_awake (home : ℕ → ℕ) {es : List (ℕ × Choice)} (hmeets : Runs.Meets step (Accountable home) World.empty es) :
    Runs.Throughout step (fun w => AwakeOnce w.db) World.empty es := by
  have haccounts : Runs.Throughout step (fun w => Accounts home w.db) .empty es := by
    exact Runs.throughout_of_meets step (fun w e w' ha hcond hstep => ha.step hcond hstep) accounts_empty hmeets
  intro front back w hsplit hfront
  exact (haccounts front back w hsplit hfront).awakeOnce (throughout_ledger es front back w hsplit hfront)

/-- A sweep of its three statements. -/
def sweep : List (ℕ × Choice) := [(1, .sweep), (1, .proceed false), (1, .proceed false)]

/-- A sandbox that boots, and a sweep. -/
theorem run_awake_boot : Runs.Throughout step (fun w => AwakeOnce w.db) World.empty (boot ++ sweep) :=
  run_awake (fun _ => 7) (by decide)

/-- The starting report of the only copy, and its two transactions. -/
def startingReport (containerRef about : ℕ) : List (ℕ × Choice) :=
  [(0, .deliver ⟨1, some 1, 7, .status ⟨.starting, some containerRef, some 9, none, none⟩, about⟩),
    (0, .proceed false), (0, .proceed false)]

/-- The sandbox is stopped and boots again in a second container. The report of the first start is delivered
again, then that of the second, and a sweep passes. -/
def lateRefs : List (ℕ × Choice) :=
  boot ++ [(0, .write (.tick 10)), (0, .write (.claimStop 7 1 (some 1) ⟨[1], []⟩ false)),
    (0, .deliver ⟨1, some 1, 7, .status ⟨.stopped, none, none, none, none⟩, 1⟩), (0, .proceed false),
    (0, .proceed false), (0, .write (.claimStart 7 1 (some 1) ⟨[1], []⟩ 0 0 true)),
    (0, .write (.recordSpawn 7 1 1 101 56)), (0, .write (.claimChannel 7 1 1 ⟨1, 12, .token 56⟩))] ++
    startingReport 101 2 ++ [(0, .deliver ⟨1, some 1, 7, .ready, 2⟩), (0, .write (.tick 10))] ++
    startingReport 100 1 ++ startingReport 101 2 ++ sweep

/-- A report that names the first container late closes the run of the second, and nothing opens it again. -/
theorem not_counted_when_late :
    ¬ Runs.Throughout step (fun w => AwakeOnce w.db) World.empty lateRefs := by
  intro hthroughout
  have hrun := (Option.some_get (by decide : (Runs.run step .empty lateRefs).isSome)).symm
  have hawake := hthroughout lateRefs [] _ (List.append_nil _).symm hrun
  have huncounted : ∃ row ∈ ((Runs.run step .empty lateRefs).get (by decide)).db.sandboxes,
      row.status = .running ∧ row.swept = true ∧ row.containerRef = some 101 ∧
        ∀ i ∈ ((Runs.run step .empty lateRefs).get (by decide)).db.intervals,
          i.containerRef = 101 → i.endedAt ≠ none := by
    decide
  obtain ⟨row, hrow, hrunning, hswept, href, hclosed⟩ := huncounted
  obtain ⟨i, hi, -, hiref, hopen⟩ := hawake.counted row hrow hrunning hswept 101 href
  exact hclosed i hi hiref hopen

end Onecli.Sandboxes
