import Onecli.Foundation.Runs
import Onecli.Runner.Executor

/-!
# The last lifecycle command

The chains run the tasks of a sandbox one at a time and in the order they were enqueued, the semaphore bounds the
starts, and the timer of a start does not outlive it. The order of the tasks is the order of the commands as long as no
claimed command takes over a place in the chain that is before a command of the other kind.
-/

namespace Onecli.Runner.Lifecycle

open Function (update update_of_ne update_self)
open List Option Nat Runs

variable {P H : Type}

/-- What the executor keeps. -/
structure Kept (payloadHash : P → H) (lifecycleConcurrency : ℕ) (w : World P H) : Prop where
  order : InOrder w.tasks w.chains w.enqueued
  starts : Slotted .start w.tasks w.enqueued w.queuedStarts
  stops : Slotted .stop w.tasks w.enqueued w.queuedStops
  fits : ∀ n < w.enqueued, (w.tasks n).phase.Fits (w.tasks n).work.kind
  permits : Permits lifecycleConcurrency w.tasks w.enqueued w.inUse w.waiters
  executing : Executing payloadHash w.tasks w.enqueued w.executingStartHash
  underWay : ∀ id, w.startHeartbeats id = true → w.StartUnderWay id
  ran : Ran w.tasks w.enqueued w.history
  stopsRan : ∀ id, w.queuedStops id = none → StopsRan id w.history

namespace Kept

variable {payloadHash : P → H} {lifecycleConcurrency n : ℕ} {w : World P H}

/-- An idle executor holds nothing. -/
theorem idle : Kept payloadHash lifecycleConcurrency (World.idle : World P H) where
  order := by constructor <;> simp [World.idle]
  starts := by simp [Slotted, World.idle]
  stops := by simp [Slotted, World.idle]
  fits := by simp [World.idle]
  permits := ⟨by simp [World.idle], by simp [World.idle], ⟨∅, by simp [World.idle]⟩, zero_le _⟩
  executing := by simp [Executing, World.idle]
  underWay := by simp [World.idle]
  ran := by simp [Ran, World.idle]
  stopsRan := by
    intro id _ later earlier ref hsplit
    cases later <;> cases hsplit

variable (h : Kept payloadHash lifecycleConcurrency w) (hn : n < w.enqueued)

section Phases

include h

/-- Phases go on fitting their kind. -/
theorem fits_setPhase {phase : Phase} (hphase : phase.Fits (w.tasks n).work.kind) : ∀ k < w.enqueued,
    (setPhase w.tasks n phase k).phase.Fits (setPhase w.tasks n phase k).work.kind := by
  intro k hk
  rw [setPhase_work]
  by_cases heq : k = n
  · rw [heq, setPhase_phase_self]
    exact hphase
  · rw [setPhase_phase_of_ne w.tasks n phase heq]
    exact h.fits k hk

include hn

theorem beginStart (hqueued : (w.tasks n).phase = .queued)
    (hturn : ∀ p, (w.tasks n).previous = some p → (w.tasks p).phase = .settled) {payload : P}
    (hwork : (w.tasks n).work = .lifecycle (.start payload)) : Kept payloadHash lifecycleConcurrency
      { w with
        tasks := setPhase w.tasks n .acquiring
        queuedStarts := update w.queuedStarts (w.tasks n).sandboxId none
        executingStartHash := update w.executingStartHash (w.tasks n).sandboxId (some (payloadHash payload)) } where
  order := h.order.setPhase (by rw [hqueued]; decide) (h.order.settled_of_turn hn hturn)
  starts := h.starts.setPhase_self (by decide) hn hqueued (by rw [hwork, kind_start])
  stops := h.stops.setPhase_of_not (by decide) (Or.inr (by rw [hwork, kind_start]; decide))
  fits := h.fits_setPhase (by rw [hwork]; rfl)
  permits := h.permits.setPhase (by rw [hqueued]; decide) (by simp [Task.Holds, hqueued])
  executing := h.executing.begin hn hwork
  underWay := fun id hid => (h.underWay id hid).setPhase rfl rfl fun _ _ => Or.inr (Or.inl rfl)
  ran := h.ran.setPhase fun _ => by simp [Phase.Given, hqueued]
  stopsRan := h.stopsRan

theorem park (hphase : (w.tasks n).phase = .acquiring) (hnot : n ∉ w.waiters) :
    Kept payloadHash lifecycleConcurrency { w with waiters := w.waiters ++ [n] } :=
  { h with permits := h.permits.park hn hphase hnot }

theorem grant (hphase : (w.tasks n).phase = .acquiring) (hnot : n ∉ w.waiters)
    (hfree : w.inUse < lifecycleConcurrency) : Kept payloadHash lifecycleConcurrency (w.grant n) := by
  have hkind : (w.tasks n).work.kind = .start := by
    have hfits := h.fits n hn
    rw [hphase] at hfits
    exact hfits
  obtain ⟨payload, hwork⟩ := (kind_eq_start_iff _).mp hkind
  have hlive : (w.tasks n).phase ≠ .settled := by
    rw [hphase]
    decide
  have hbegun : (w.tasks n).phase ≠ .queued := by
    rw [hphase]
    decide
  rw [World.grant, hwork]
  exact
    { order := h.order.setPhase hlive (h.order.begun n hn hbegun)
      starts := h.starts.setPhase_of_not (by decide) (.inl hbegun)
      stops := h.stops.setPhase_of_not (by decide) (.inl hbegun)
      fits := h.fits_setPhase hkind
      permits := h.permits.grant hn hphase hnot hfree
      executing := h.executing.setPhase fun _ _ => .inr (.inl rfl)
      underWay := fun id hid => (h.underWay id hid).setPhase rfl rfl fun _ _ => .inr (.inr rfl)
      ran := h.ran.give h.order hn hlive ⟨by decide, by decide⟩ hwork
      stopsRan := fun id hid => (h.stopsRan id hid).cons fun _ => by simp }

section

variable (hqueued : (w.tasks n).phase = .queued) (hturn : ∀ p, (w.tasks n).previous = some p → (w.tasks p).phase = .settled)
include hqueued hturn

theorem beginStop {ref : Option ℕ} (hwork : (w.tasks n).work = .lifecycle (.stop ref)) : Kept
    payloadHash lifecycleConcurrency
      { w with
        tasks := setPhase w.tasks n .stopping
        queuedStops := update w.queuedStops (w.tasks n).sandboxId none
        history := .ran (w.tasks n).sandboxId (.stop ref) :: w.history } where
  order := h.order.setPhase (by rw [hqueued]; decide) (h.order.settled_of_turn hn hturn)
  starts := h.starts.setPhase_of_not (by decide) (Or.inr (by rw [hwork, kind_stop]; decide))
  stops := h.stops.setPhase_self (by decide) hn hqueued (by rw [hwork, kind_stop])
  fits := h.fits_setPhase (by rw [hwork]; rfl)
  permits := h.permits.setPhase (by rw [hqueued]; decide) (by simp [Task.Holds, hqueued])
  executing := h.executing.setPhase fun _ hkind => by rw [hwork, kind_stop] at hkind; cases hkind
  underWay := fun id hid =>
    (h.underWay id hid).setPhase rfl rfl fun _ hkind => by rw [hwork, kind_stop] at hkind; cases hkind
  ran := h.ran.give h.order hn (by rw [hqueued]; decide) ⟨by decide, by decide⟩ hwork
  stopsRan := by
    intro id hid
    by_cases heq : id = (w.tasks n).sandboxId
    · rw [heq]
      exact stopsRan_ran _ _ _
    · refine (h.stopsRan id ?_).cons fun _ => by simp
      rwa [← update_of_ne heq none w.queuedStops]

theorem beginOther (hwork : (w.tasks n).work = .other) :
    Kept payloadHash lifecycleConcurrency { w with tasks := setPhase w.tasks n .executing } where
  order := h.order.setPhase (by rw [hqueued]; decide) (h.order.settled_of_turn hn hturn)
  starts := h.starts.setPhase_of_not (by decide) (Or.inr (by rw [hwork, kind_other]; decide))
  stops := h.stops.setPhase_of_not (by decide) (Or.inr (by rw [hwork, kind_other]; decide))
  fits := h.fits_setPhase (by rw [hwork]; rfl)
  permits := h.permits.setPhase (by rw [hqueued]; decide) (by simp [Task.Holds, hqueued])
  executing := h.executing.setPhase fun _ hkind => by rw [hwork, kind_other] at hkind; cases hkind
  underWay := fun id hid =>
    (h.underWay id hid).setPhase rfl rfl fun _ hkind => by rw [hwork, kind_other] at hkind; cases hkind
  ran := h.ran.setPhase fun hkind => by rw [hwork, kind_other] at hkind; exact absurd rfl hkind
  stopsRan := h.stopsRan

end

/-- A task goes on, and the books are kept. -/
theorem goOn {phase : Phase} {lifecycleInFlight : ℕ → ℕ} {reports : List Report} {inUse : ℕ}
    {executingStartHash : ℕ → Option H} {startHeartbeats : ℕ → Bool} (hgiven : (w.tasks n).phase.Given)
    (hlive : (w.tasks n).phase ≠ .settled) (hphase : phase = .reporting ∨ phase = .settled)
    (hpermits : Permits lifecycleConcurrency (setPhase w.tasks n phase) w.enqueued inUse w.waiters)
    (hexe : Executing payloadHash (setPhase w.tasks n phase) w.enqueued executingStartHash)
    (hbeats : ∀ id, startHeartbeats id = true → w.startHeartbeats id = true ∧
    ((w.tasks n).sandboxId = id → (w.tasks n).work.kind = .start → w.queuedStarts id ≠ none)) : Kept payloadHash
    lifecycleConcurrency
      { w with
        tasks := setPhase w.tasks n phase
        lifecycleInFlight := lifecycleInFlight
        reports := reports
        inUse := inUse
        executingStartHash := executingStartHash
        startHeartbeats := startHeartbeats } := by
  have hqueue : phase ≠ .queued := by
    rintro rfl
    simp at hphase
  have hstarts := h.starts.setPhase_of_not hqueue (.inl hgiven.1)
  refine
    { order := h.order.setPhase hlive (h.order.begun n hn hgiven.1)
      starts := hstarts
      stops := h.stops.setPhase_of_not hqueue (.inl hgiven.1)
      fits := h.fits_setPhase ?_
      permits := hpermits
      executing := hexe
      underWay := ?_
      ran := h.ran.setPhase fun _ => iff_of_true ⟨hqueue, ?_⟩ hgiven
      stopsRan := h.stopsRan }
  · rcases hphase with rfl | rfl <;> trivial
  · intro id hid
    obtain ⟨hbeat, hslot⟩ := hbeats id hid
    by_cases hstart : (w.tasks n).sandboxId = id ∧ (w.tasks n).work.kind = .start
    · obtain ⟨slot, hslot⟩ := Option.ne_none_iff_exists'.mp (hslot hstart.1 hstart.2)
      exact World.startUnderWay_of_slot hstarts hslot
    · refine (h.underWay id hbeat).setPhase rfl rfl fun hbox hkind => ?_
      exact absurd ⟨hbox, hkind⟩ hstart
  · rintro rfl
    simp at hphase

end Phases

section Operations

/-- A busy task was given its work. -/
theorem given_of_busy {phase : Phase} (hphase : phase.busy ∨ phase = .reporting) :
    phase.Given ∧ phase ≠ .settled := by
  cases phase <;> simp_all [Phase.busy, Phase.Given]

include h hn in
theorem holds_iff (hphase : (w.tasks n).phase.busy ∨ (w.tasks n).phase = .reporting) : (w.tasks n).Holds ↔
    (w.tasks n).work.kind = .start := by
  have hfits := h.fits n hn
  rw [Task.Holds]
  cases hcase : (w.tasks n).phase <;> rw [hcase] at hfits hphase <;> simp_all [Phase.Fits, Phase.busy]

include h hn in
theorem permits_setPhase (hphase : (w.tasks n).phase.busy ∨ (w.tasks n).phase = .reporting) {p : Phase}
    (hholds : (setPhase w.tasks n p n).Holds ↔ (w.tasks n).work.kind = .start) : Permits lifecycleConcurrency
    (setPhase w.tasks n p) w.enqueued w.inUse w.waiters :=
  h.permits.setPhase (given_of_busy hphase).1.2 (hholds.trans (h.holds_iff hn hphase).symm)

theorem stopStartHeartbeat_eq (w : World P H) (id : ℕ) :
    w.stopStartHeartbeat id = { w with startHeartbeats := (w.stopStartHeartbeat id).startHeartbeats } := by
  rw [World.stopStartHeartbeat]
  split <;> rfl

theorem beats_of_stopStartHeartbeat {id sandboxId : ℕ}
    (hid : (w.stopStartHeartbeat sandboxId).startHeartbeats id = true) :
    w.startHeartbeats id = true ∧ (sandboxId = id → w.queuedStarts id ≠ none) := by
  rw [World.stopStartHeartbeat] at hid
  split at hid
  · rename_i hqueued
    refine ⟨hid, ?_⟩
    rintro rfl
    exact isSome_iff_ne_none.mp hqueued
  · dsimp only at hid
    obtain ⟨-, hid⟩ | ⟨heq, hid⟩ := update_cases hid
    · cases hid
    · exact ⟨hid, fun hsame => absurd hsame.symm heq⟩

theorem acquire {w' : World P H} (h : Kept payloadHash lifecycleConcurrency
      { w' with tasks := setPhase w'.tasks n .acquiring }) (hn : n < w'.enqueued) (hnot : n ∉ w'.waiters) :
    Kept payloadHash lifecycleConcurrency (w'.acquire lifecycleConcurrency n) := by
  have hphase := setPhase_phase_self w'.tasks n .acquiring
  rw [World.acquire]
  split
  · rename_i hfree
    have hgrant := h.grant hn hphase hnot hfree
    rw [World.grant] at hgrant ⊢
    rw [setPhase_setPhase, setPhase_sandboxId, setPhase_work] at hgrant
    exact hgrant
  · exact h.park hn hphase hnot

include h hn in
theorem begin (hqueued : (w.tasks n).phase = .queued) (hturn : w.turn n = true) : Kept payloadHash
    lifecycleConcurrency (w.begin payloadHash lifecycleConcurrency n) := by
  have hprevious (p : ℕ) (hp : (w.tasks n).previous = some p) : (w.tasks p).phase = .settled := by
    rw [World.turn, hp] at hturn
    exact of_decide_eq_true hturn
  rw [World.begin]
  split
  · rename_i payload hwork
    refine acquire (h.beginStart hn hqueued hprevious hwork) hn fun hmem => ?_
    have hwaits := (h.permits.waiting n hmem).2
    rw [hqueued] at hwaits
    cases hwaits
  · rename_i ref hwork
    exact h.beginStop hn hqueued hprevious hwork
  · rename_i hwork
    exact h.beginOther hn hqueued hprevious hwork

include h hn in
theorem answered (hbusy : (w.tasks n).phase.busy = true) (silent : Bool) : Kept payloadHash lifecycleConcurrency
    (w.answered n silent) := by
  obtain ⟨hgiven, hlive⟩ := given_of_busy (.inl hbusy)
  have hpermits := h.permits_setPhase hn (.inl hbusy) (p := .reporting) (by simp [Task.Holds])
  have hexe := h.executing.setPhase (n := n) (p := .reporting) fun _ _ => .inr (.inr rfl)
  rw [World.answered, World.enqueueReport]
  have hkeep (beats : ℕ → Bool) (reports : List Report) (hbeats : ∀ id, beats id = true →
      w.startHeartbeats id = true ∧
        ((w.tasks n).sandboxId = id → (w.tasks n).work.kind = .start → w.queuedStarts id ≠ none)) :
      Kept payloadHash lifecycleConcurrency
        { w with tasks := setPhase w.tasks n .reporting, startHeartbeats := beats, reports := reports } :=
    h.goOn hn hgiven hlive (.inl rfl) hpermits hexe hbeats
  cases hwork : (w.tasks n).work with
  | lifecycle command =>
    cases command with
    | start =>
      rw [stopStartHeartbeat_eq]
      have hbeats (id : ℕ) (hid : (w.stopStartHeartbeat (w.tasks n).sandboxId).startHeartbeats id = true) :=
        beats_of_stopStartHeartbeat hid
      split <;> exact hkeep _ _ fun id hid => (hbeats id hid).imp_right fun hslot hbox _ => hslot hbox
    | stop => split <;> exact hkeep _ _ fun id hid => ⟨hid, fun _ hkind => by rw [hwork] at hkind; cases hkind⟩
  | other => split <;> exact hkeep _ _ fun id hid => ⟨hid, fun _ hkind => by rw [hwork] at hkind; cases hkind⟩

/-- The world in which a start has settled and nothing waits for its slot. -/
def startSettled (w : World P H) (n : ℕ) : World P H :=
  let id := (w.tasks n).sandboxId
  { w with
    tasks := setPhase w.tasks n .settled
    inUse := w.inUse - 1
    executingStartHash := update w.executingStartHash id none
    lifecycleInFlight := update w.lifecycleInFlight id (w.lifecycleInFlight id - 1)
    startHeartbeats := (w.stopStartHeartbeat id).startHeartbeats }

theorem finishStart_eq (w : World P H) (n : ℕ) :
    w.finishStart n = match w.waiters with
      | [] => startSettled w n
      | k :: rest => World.grant { startSettled w n with waiters := rest } k := by
  cases hwaiters : w.waiters with
  | nil =>
    simp only [World.finishStart, World.release, hwaiters, World.endLifecycle, World.stopStartHeartbeat, startSettled]
    split <;> simp_all
  | cons =>
    simp only [World.finishStart, World.release, hwaiters, World.endLifecycle, World.stopStartHeartbeat, startSettled,
      World.grant]
    split <;> simp_all

include h hn in
theorem finishStart (hphase : (w.tasks n).phase.busy ∨ (w.tasks n).phase = .reporting)
    (hkind : (w.tasks n).work.kind = .start) : Kept payloadHash lifecycleConcurrency (w.finishStart n) := by
  obtain ⟨hgiven, hlive⟩ := given_of_busy hphase
  obtain ⟨hpermits, hfree⟩ := h.permits.settle hn ((h.holds_iff hn hphase).mpr hkind)
  have hsettled : Kept payloadHash lifecycleConcurrency (startSettled w n) := by
    refine h.goOn hn hgiven hlive (.inr rfl) hpermits h.executing.settle fun id hid => ?_
    exact (beats_of_stopStartHeartbeat hid).imp_right fun hslot hbox _ => hslot hbox
  rw [finishStart_eq]
  cases hwaiters : w.waiters with
  | nil => exact hsettled
  | cons k rest =>
    have hline := hsettled.permits
    rw [show (startSettled w n).waiters = k :: rest from hwaiters] at hline
    obtain ⟨hrest, hk, hacquiring, hnot⟩ := hline.tail
    have hpopped : Kept payloadHash lifecycleConcurrency { startSettled w n with waiters := rest } :=
      { hsettled with permits := hrest }
    exact hpopped.grant hk hacquiring hnot hfree

include h hn in
theorem finish (hphase : (w.tasks n).phase.busy ∨ (w.tasks n).phase = .reporting) : Kept payloadHash
    lifecycleConcurrency (w.finish n) := by
  obtain ⟨hgiven, hlive⟩ := given_of_busy hphase
  have hkeep (lifecycleInFlight : ℕ → ℕ) (hkind : (w.tasks n).work.kind ≠ .start) :
      Kept payloadHash lifecycleConcurrency
        { w with tasks := setPhase w.tasks n .settled, lifecycleInFlight := lifecycleInFlight } := by
    have hpermits := h.permits_setPhase hn hphase (p := .settled) (by simp [Task.Holds, hkind])
    have hexe := h.executing.setPhase (n := n) (p := .settled) fun _ hstart => absurd hstart hkind
    exact h.goOn hn hgiven hlive (.inr rfl) hpermits hexe fun id hid => ⟨hid, fun _ hstart =>
      absurd hstart hkind⟩
  rw [World.finish]
  split
  · rename_i payload hwork
    exact h.finishStart hn hphase (by rw [hwork, kind_start])
  · rename_i ref hwork
    exact hkeep _ (by rw [hwork, kind_stop]; decide)
  · rename_i hwork
    exact hkeep w.lifecycleInFlight (by rw [hwork, kind_other]; decide)

end Operations

section Claims

include h

theorem supersede (hqueued : (w.tasks n).phase = .queued) {work : Work P} (hkind : work.kind = (w.tasks n).work.kind)
    :
    Kept payloadHash lifecycleConcurrency { w with tasks := setWork w.tasks n work } where
  order := h.order.setWork
  starts := h.starts.setWork hkind
  stops := h.stops.setWork hkind
  fits := by
    intro k hk
    rw [setWork_phase, setWork_kind w.tasks n hkind]
    exact h.fits k hk
  permits := by
    refine h.permits.congr (fun k hk => ?_) fun k => ?_
    · rw [setWork_phase]
      exact h.permits.waiting k hk
    · rw [Task.Holds, Task.Holds, setWork_phase, setWork_kind w.tasks n hkind]
  executing := h.executing.setWork hqueued
  underWay := fun id hid => (h.underWay id hid).setWork rfl rfl hkind
  ran := h.ran.setWork hqueued hkind
  stopsRan := h.stopsRan

/-- A queued task fits. -/
theorem fits_enqueue {task : Task P} (hqueued : task.phase = .queued) : ∀ k < w.enqueued + 1,
    (update w.tasks w.enqueued task k).phase.Fits (update w.tasks w.enqueued task k).work.kind := by
  intro k hk
  rcases lt_or_eq_of_le (le_of_lt_succ hk) with hk | rfl
  · rw [update_of_ne (Nat.ne_of_lt hk)]
    exact h.fits k hk
  · rw [update_self, hqueued]
    trivial

theorem enqueueStart {id : ℕ} (hempty : w.queuedStarts id = none) (payload : P) : Kept payloadHash
    lifecycleConcurrency (World.enqueue (World.beginStartHeartbeat (World.beginLifecycle
            { w with queuedStarts := update w.queuedStarts id (some w.enqueued) } id)
          id)
        id (.lifecycle (.start payload))) := by
  have hstarts := h.starts.enqueue (t := ⟨id, w.chains id, .lifecycle (.start payload), .queued⟩) rfl rfl hempty
  exact
    { order := h.order.enqueue id _
      starts := hstarts
      stops := h.stops.enqueue_of_ne (show Kind.start ≠ .stop by decide)
      fits := h.fits_enqueue rfl
      permits := h.permits.enqueue rfl
      executing := h.executing.enqueue
      underWay := by
        intro id' hid
        by_cases heq : id' = id
        · rw [heq]
          refine World.startUnderWay_of_slot (n := w.enqueued) hstarts ?_
          exact update_self id (some w.enqueued) w.queuedStarts
        · refine (h.underWay id' ?_).enqueue rfl rfl
          rw [← hid]
          exact (update_of_ne heq true w.startHeartbeats).symm
      ran := h.ran.enqueue rfl
      stopsRan := h.stopsRan }

theorem enqueueStop {id : ℕ} (hempty : w.queuedStops id = none) (ref : Option ℕ) : Kept payloadHash
    lifecycleConcurrency (World.enqueue
        (World.beginLifecycle { w with queuedStops := update w.queuedStops id (some w.enqueued) } id)
        id (.lifecycle (.stop ref))) where
  order := h.order.enqueue id _
  starts := h.starts.enqueue_of_ne (show Kind.stop ≠ .start by decide)
  stops := h.stops.enqueue (t := ⟨id, w.chains id, .lifecycle (.stop ref), .queued⟩) rfl rfl hempty
  fits := h.fits_enqueue rfl
  permits := h.permits.enqueue rfl
  executing := h.executing.enqueue
  underWay := fun id hid => (h.underWay id hid).enqueue rfl rfl
  ran := h.ran.enqueue rfl
  stopsRan := by
    intro id' hid
    by_cases heq : id' = id
    · rw [heq] at hid
      simp [World.enqueue, World.beginLifecycle] at hid
    · refine h.stopsRan id' ?_
      rw [← hid]
      exact (update_of_ne heq (some w.enqueued) w.queuedStops).symm

theorem enqueueOther (id : ℕ) : Kept payloadHash lifecycleConcurrency (w.enqueue id .other) where
  order := h.order.enqueue id _
  starts := h.starts.enqueue_of_ne (show Kind.other ≠ .start by decide)
  stops := h.stops.enqueue_of_ne (show Kind.other ≠ .stop by decide)
  fits := h.fits_enqueue rfl
  permits := h.permits.enqueue rfl
  executing := h.executing.enqueue
  underWay := fun id hid => (h.underWay id hid).enqueue rfl rfl
  ran := h.ran.enqueue rfl
  stopsRan := h.stopsRan

theorem enqueueWork [DecidableEq H] (item : RunnerWorkItem P) : Kept payloadHash lifecycleConcurrency
    (w.enqueueWork payloadHash item) := by
  cases item with
  | start id payload =>
    rw [World.enqueueWork]
    split
    · rename_i slot hslot
      obtain ⟨-, -, hqueued, hkind⟩ := (h.starts id slot).mp hslot
      exact h.supersede hqueued (by rw [hkind, kind_start])
    · rename_i hempty
      split
      · exact h
      · exact h.enqueueStart hempty payload
  | stop id ref =>
    rw [World.enqueueWork]
    split
    · rename_i slot hslot
      obtain ⟨-, -, hqueued, hkind⟩ := (h.stops id slot).mp hslot
      exact h.supersede hqueued (by rw [hkind, kind_stop])
    · rename_i hempty
      exact h.enqueueStop hempty ref
  | other id => exact h.enqueueOther id

omit h in
theorem enqueueWork_stop [DecidableEq H] (w : World P H) (id : ℕ) (ref : Option ℕ) :
    (w.enqueueWork payloadHash (.stop id ref)).queuedStops id ≠ none := by
  rw [World.enqueueWork]
  split
  · rename_i slot hslot
    exact Option.ne_none_iff_exists'.mpr ⟨slot, hslot⟩
  · simp [World.enqueue, World.beginLifecycle]

theorem record {item : RunnerWorkItem P}
    (hstop : ∀ id ref, item = .stop id ref → w.queuedStops id ≠ none) : Kept payloadHash
    lifecycleConcurrency (w.record item) := by
  have hran {id : ℕ} {command : Command P} : Ran w.tasks w.enqueued (.claimed id command :: w.history) :=
    h.ran.congr (fun _ => rfl) (fun _ => rfl) (fun _ _ _ => Iff.rfl) (fun _ _ _ => rfl) fun _ => rfl
  cases item with
  | start => exact { h with ran := hran, stopsRan := fun id' hid => (h.stopsRan id' hid).cons fun _ => by simp }
  | stop id ref =>
    refine { h with ran := hran, stopsRan := fun id' hid => (h.stopsRan id' hid).cons fun _ heq => ?_ }
    obtain ⟨rfl, -⟩ := Entry.claimed.inj heq
    exact hstop _ ref rfl hid
  | other => exact h

end Claims

/-- Every event keeps the executor's books. -/
theorem step [DecidableEq H] {u v : World P H} (h : Kept payloadHash lifecycleConcurrency u) {e : Event P}
    (hstep : step payloadHash lifecycleConcurrency u e = some v) : Kept payloadHash lifecycleConcurrency v := by
  cases e with
  | claim item =>
    cases hstep
    refine (h.enqueueWork item).record ?_
    rintro id ref rfl
    exact enqueueWork_stop u id ref
  | begin =>
    obtain ⟨⟨hn, hqueued, hturn⟩, hv⟩ := ite_none_right_eq_some.mp hstep
    cases hv
    exact h.begin hn hqueued hturn
  | answered n silent =>
    obtain ⟨⟨hn, hbusy⟩, hv⟩ := ite_none_right_eq_some.mp hstep
    cases hv
    exact h.answered hn hbusy silent
  | failed =>
    obtain ⟨⟨hn, hbusy⟩, hv⟩ := ite_none_right_eq_some.mp hstep
    cases hv
    exact h.finish hn (.inl hbusy)
  | posted =>
    obtain ⟨⟨hn, hreporting⟩, hv⟩ := ite_none_right_eq_some.mp hstep
    cases hv
    exact h.finish hn (.inr hreporting)
  | swept =>
    obtain ⟨⟨hn, hsettled, hchain⟩, hv⟩ := ite_none_right_eq_some.mp hstep
    cases hv
    exact { h with order := h.order.sweep hn hsettled hchain }
  | beat =>
    obtain ⟨-, hv⟩ := ite_none_right_eq_some.mp hstep
    cases hv
    exact { h with }
  | shutdown =>
    cases hstep
    exact { h with underWay := fun id hid => by cases hid }

end Kept

section Steady

/-- The tasks do what they did, and nothing is claimed. -/
structure Steady (u v : World P H) : Prop where
  enqueued : v.enqueued = u.enqueued
  sandboxId : ∀ k, (v.tasks k).sandboxId = (u.tasks k).sandboxId
  work : ∀ k, (v.tasks k).work = (u.tasks k).work
  lastClaimed : ∀ id, lastClaimed id v.history = lastClaimed id u.history
  reports : v.reports = u.reports ∨ ∃ n, v.reports = u.reports ++ [.settlement n]

variable {payloadHash : P → H} {lifecycleConcurrency : ℕ}

variable {u w : World P H}

theorem grant_steady (h : Steady u w) (n : ℕ) : Steady u (w.grant n) := by
  refine ⟨h.enqueued, fun k => ?_, fun k => ?_, fun id => ?_, h.reports⟩
  · exact (setPhase_sandboxId w.tasks n .starting k).trans (h.sandboxId k)
  · exact (setPhase_work w.tasks n .starting k).trans (h.work k)
  · rw [← h.lastClaimed id, World.grant]
    cases (w.tasks n).work with
    | lifecycle command => exact lastClaimed_ran id (w.tasks n).sandboxId command w.history
    | other => rfl

theorem acquire_steady (h : Steady u w) (n : ℕ) : Steady u (w.acquire lifecycleConcurrency n) := by
  rw [World.acquire]
  split
  · exact grant_steady h n
  · refine ⟨h.enqueued, fun k => ?_, fun k => ?_, h.lastClaimed, h.reports⟩
    · exact (setPhase_sandboxId w.tasks n .acquiring k).trans (h.sandboxId k)
    · exact (setPhase_work w.tasks n .acquiring k).trans (h.work k)

/-- A phase and a report are steady. -/
theorem steady_setPhase {n : ℕ} {phase : Phase} (htasks : w.tasks = setPhase u.tasks n phase)
    (henqueued : w.enqueued = u.enqueued) (hclaimed : ∀ id, lastClaimed id w.history = lastClaimed id u.history)
    (hreports : w.reports = u.reports ∨ ∃ n, w.reports = u.reports ++ [.settlement n]) : Steady u w := by
  refine ⟨henqueued, fun k => ?_, fun k => ?_, hclaimed, hreports⟩
  · rw [htasks, setPhase_sandboxId]
  · rw [htasks, setPhase_work]

theorem begin_steady (w : World P H) (n : ℕ) : Steady w (w.begin payloadHash lifecycleConcurrency n) := by
  rw [World.begin]
  split
  · have hfreed (slots : ℕ → Option ℕ) (hashes : ℕ → Option H) :
        Steady w { w with queuedStarts := slots, executingStartHash := hashes } :=
      ⟨rfl, fun _ => rfl, fun _ => rfl, fun _ => rfl, .inl rfl⟩
    exact acquire_steady (hfreed _ _) n
  · exact steady_setPhase rfl rfl (fun id => lastClaimed_ran id _ _ _) (.inl rfl)
  · exact steady_setPhase rfl rfl (fun _ => rfl) (.inl rfl)

theorem answered_steady (w : World P H) (n : ℕ) (silent : Bool) : Steady w (w.answered n silent) := by
  rw [World.answered, World.enqueueReport]
  have hkeep (w' : World P H) (htasks : w'.tasks = setPhase w.tasks n .reporting) (henqueued : w'.enqueued = w.enqueued)
      (hhistory : w'.history = w.history) (hreports : w'.reports = w.reports ∨ ∃ n, w'.reports = w.reports ++
        [.settlement n]) : Steady w w' :=
    steady_setPhase htasks henqueued (fun id => by rw [hhistory]) hreports
  cases (w.tasks n).work with
  | lifecycle command =>
    cases command with
    | start =>
      rw [Kept.stopStartHeartbeat_eq]
      split
      · exact hkeep _ rfl rfl rfl (.inl rfl)
      · exact hkeep _ rfl rfl rfl (.inr ⟨n, rfl⟩)
    | stop =>
      split
      · exact hkeep _ rfl rfl rfl (.inl rfl)
      · exact hkeep _ rfl rfl rfl (.inr ⟨n, rfl⟩)
  | other =>
    split
    · exact hkeep _ rfl rfl rfl (.inl rfl)
    · exact hkeep _ rfl rfl rfl (.inr ⟨n, rfl⟩)

theorem finish_steady (w : World P H) (n : ℕ) : Steady w (w.finish n) := by
  rw [World.finish]
  split
  · have hsettled : Steady w (Kept.startSettled w n) := steady_setPhase rfl rfl (fun _ => rfl) (Or.inl rfl)
    rw [Kept.finishStart_eq]
    cases w.waiters with
    | nil => exact hsettled
    | cons k rest =>
      have hpopped : Steady w { Kept.startSettled w n with waiters := rest } := { hsettled with }
      exact grant_steady hpopped k
  · exact steady_setPhase rfl rfl (fun _ => rfl) (.inl rfl)
  · exact steady_setPhase rfl rfl (fun _ => rfl) (.inl rfl)

theorem enqueueWork_reports [DecidableEq H] (w : World P H) (item : RunnerWorkItem P) :
    ((w.enqueueWork payloadHash item).record item).reports = w.reports := by
  cases item with
  | start =>
    simp only [World.record, World.enqueueWork]
    split
    · rfl
    · split <;> rfl
  | stop =>
    simp only [World.record, World.enqueueWork]
    split <;> rfl
  | other => rfl

/-- What each event does to the executor. -/
theorem step_cases [DecidableEq H] {u v : World P H} {e : Event P}
    (hstep : step payloadHash lifecycleConcurrency u e = some v) :
    (∃ item, e = .claim item ∧ v = (u.enqueueWork payloadHash item).record item) ∨
      (∃ id, u.startHeartbeats id = true ∧ v = { u with reports := u.reports ++ [.starting id] }) ∨ Steady u v := by
  cases e with
  | claim item => exact .inl ⟨item, rfl, (some.inj hstep).symm⟩
  | begin n =>
    obtain rfl := some.inj (ite_none_right_eq_some.mp hstep).2
    exact .inr (.inr (begin_steady u n))
  | answered n silent =>
    obtain rfl := some.inj (ite_none_right_eq_some.mp hstep).2
    exact .inr (.inr (answered_steady u n silent))
  | failed n | posted n =>
    obtain rfl := some.inj (ite_none_right_eq_some.mp hstep).2
    exact .inr (.inr (finish_steady u n))
  | swept =>
    obtain rfl := some.inj (ite_none_right_eq_some.mp hstep).2
    exact .inr (.inr ⟨rfl, fun _ => rfl, fun _ => rfl, fun _ => rfl, .inl rfl⟩)
  | beat id =>
    obtain ⟨hbeats, hv⟩ := ite_none_right_eq_some.mp hstep
    exact .inr (.inl ⟨id, hbeats, (some.inj hv).symm⟩)
  | shutdown =>
    cases hstep
    exact .inr (.inr ⟨rfl, fun _ => rfl, fun _ => rfl, fun _ => rfl, .inl rfl⟩)

end Steady

namespace Latest

variable {payloadHash : P → H} {tasks tasks' : ℕ → Task P} {enqueued enqueued' id n : ℕ} {history : List (Entry P)}

/-- A steady step keeps the last command. -/
theorem steady {u v : World P H} (h : Latest payloadHash u.tasks u.enqueued u.history) (hsteady : Steady u v) :
    Latest payloadHash v.tasks v.enqueued v.history := by
  intro id command hclaimed
  rw [hsteady.lastClaimed] at hclaimed
  simp only [hsteady.enqueued, hsteady.sandboxId, hsteady.work]
  exact h id command hclaimed

variable {command : Command P}

section

variable (h : Latest payloadHash tasks enqueued history)
include h

/-- A claim becomes the latest of its sandbox. -/
theorem claim
    (hmine : ∃ n < enqueued', (tasks' n).sandboxId = id ∧ (∃ own, (tasks' n).work = .lifecycle own ∧ own.Answers payloadHash command) ∧ ∀ m < enqueued', n < m → (tasks' m).sandboxId = id → (tasks' m).work.kind = .other)
    (hold : ∀ k < enqueued, (tasks k).sandboxId ≠ id → k < enqueued' ∧ tasks' k = tasks k)
    (hnew : ∀ k < enqueued', (tasks' k).sandboxId ≠ id → k < enqueued ∧ tasks' k = tasks k) : Latest payloadHash
    tasks' enqueued' (.claimed id command :: history) := by
  intro id' command' hclaimed
  rw [lastClaimed_claimed] at hclaimed
  by_cases heq : id = id'
  · rw [if_pos heq] at hclaimed
    cases hclaimed
    rw [← heq]
    exact hmine
  · rw [if_neg heq] at hclaimed
    obtain ⟨n, hn, hbox, hown, hlater⟩ := h id' command' hclaimed
    have hother (k : ℕ) (hk : (tasks k).sandboxId = id') : (tasks k).sandboxId ≠ id :=
      fun h' => heq (h'.symm.trans hk)
    obtain ⟨hn', hsame⟩ := hold n hn (hother n hbox)
    refine ⟨n, hn', by rw [hsame, hbox], by rwa [hsame], fun m hm hlt hm' => ?_⟩
    obtain ⟨hm'', hsame'⟩ := hnew m hm (fun h' => heq (h'.symm.trans hm'))
    rw [hsame'] at hm' ⊢
    exact hlater m hm'' hlt hm'

theorem supersede (hn : n < enqueued) (hbox : (tasks n).sandboxId = id)
    (hanswers : command.Answers payloadHash command)
    (hlast : ∀ m < enqueued, n < m → (tasks m).sandboxId = (tasks n).sandboxId → (tasks m).work.kind = .other) :
    Latest payloadHash (setWork tasks n (.lifecycle command)) enqueued (.claimed id command :: history) := by
  have hsame (k : ℕ) (hk : k ≠ n) : setWork tasks n (.lifecycle command) k = tasks k := update_of_ne hk _ _
  refine h.claim ⟨n, hn, by rw [setWork_sandboxId, hbox], ⟨command, setWork_work_self tasks n _, hanswers⟩, ?_⟩ ?_ ?_
  · intro m hm hlt hm'
    rw [hsame m (ne_of_gt hlt)] at hm' ⊢
    exact hlast m hm hlt (hm'.trans hbox.symm)
  · intro k hk hk'
    refine ⟨hk, hsame k ?_⟩
    rintro rfl
    exact hk' hbox
  · intro k hk hk'
    refine ⟨hk, hsame k ?_⟩
    rintro rfl
    rw [setWork_sandboxId] at hk'
    exact hk' hbox

theorem enqueue {previous : Option ℕ} (hanswers : command.Answers payloadHash command) : Latest payloadHash
    (update tasks enqueued ⟨id, previous, .lifecycle command, .queued⟩) (enqueued + 1)
    (.claimed id command :: history) := by
  refine h.claim ⟨enqueued, lt_succ_self enqueued, ?_, ⟨command, ?_, hanswers⟩, ?_⟩ ?_ ?_
  · rw [update_self]
  · rw [update_self]
  · omega
  · intro k hk _
    exact ⟨Nat.lt_succ_of_lt hk, update_of_ne (Nat.ne_of_lt hk) _ _⟩
  · intro k hk hk'
    rcases lt_or_eq_of_le (le_of_lt_succ hk) with hk | rfl
    · exact ⟨hk, update_of_ne (Nat.ne_of_lt hk) _ _⟩
    · rw [update_self] at hk'
      exact absurd rfl hk'

theorem enqueueOther {task : Task P} (hkind : task.work.kind = .other) : Latest payloadHash
    (update tasks enqueued task) (enqueued + 1) history := by
  intro id command hclaimed
  obtain ⟨n, hn, hbox, hown, hlater⟩ := h id command hclaimed
  refine ⟨n, lt_succ_of_lt hn, ?_, ?_, fun m hm hlt hm' => ?_⟩
  · rwa [update_of_ne (Nat.ne_of_lt hn)]
  · rwa [update_of_ne (Nat.ne_of_lt hn)]
  · rcases lt_or_eq_of_le (le_of_lt_succ hm) with hm | rfl
    · rw [update_of_ne (Nat.ne_of_lt hm)] at hm' ⊢
      exact hlater m hm hlt hm'
    · rw [update_self]
      exact hkind

end

end Latest

variable {payloadHash : P → H} {w : World P H} {lifecycleConcurrency : ℕ}

theorem Kept.other_of_lt {lifecycleConcurrency n : ℕ} (h : Kept payloadHash lifecycleConcurrency w)
    (hlive : (w.tasks n).phase ≠ .settled) (hstarts : ∀ m, w.queuedStarts (w.tasks n).sandboxId = some m → m ≤ n)
    (hstops : ∀ m, w.queuedStops (w.tasks n).sandboxId = some m → m ≤ n) :
    ∀ m < w.enqueued, n < m → (w.tasks m).sandboxId = (w.tasks n).sandboxId → (w.tasks m).work.kind = .other := by
  intro m hm hlt hbox
  have hqueued := h.order.queued_of_lt hlive hm hlt hbox.symm
  cases hkind : (w.tasks m).work.kind with
  | start =>
    have := hstarts m ((h.starts _ m).mpr ⟨hm, hbox, hqueued, hkind⟩)
    omega
  | stop =>
    have := hstops m ((h.stops _ m).mpr ⟨hm, hbox, hqueued, hkind⟩)
    omega
  | other => rfl

/-- A command that comes in its turn becomes the latest. -/
theorem Latest.enqueueWork [DecidableEq H] (h : Latest payloadHash w.tasks w.enqueued w.history)
    (hkept : Kept payloadHash lifecycleConcurrency w) {item : RunnerWorkItem P}
    (hturn : InTurn payloadHash w (.claim item)) :
    Latest payloadHash ((w.enqueueWork payloadHash item).record item).tasks
      ((w.enqueueWork payloadHash item).record item).enqueued
      ((w.enqueueWork payloadHash item).record item).history := by
  cases item with
  | start id =>
    obtain ⟨hbefore, habsorbed⟩ := hturn
    simp only [World.record, World.enqueueWork]
    split
    · rename_i slot hslot
      obtain ⟨hn, hbox, hqueued, -⟩ := (hkept.starts id slot).mp hslot
      refine h.supersede hn hbox rfl (hkept.other_of_lt (by rw [hqueued]; decide) ?_ ?_)
      · intro m hm
        rw [hbox, hslot] at hm
        exact le_of_eq (some.inj hm).symm
      · intro m hm
        rw [hbox] at hm
        exact le_of_lt (hbefore slot hslot m hm)
    · rename_i hempty
      split
      · rename_i hhash
        obtain ⟨n, hn, hbox, hactive, own, hwork, hsame⟩ := hkept.executing id _ hhash
        have hlive : (w.tasks n).phase ≠ .settled := by
          intro hsettled
          rw [hsettled] at hactive
          simp [Phase.Active] at hactive
        have hlast := hkept.other_of_lt hlive (by rw [hbox, hempty]; simp)
          (by rw [hbox, habsorbed hempty hhash]; simp)
        rw [hbox] at hlast
        exact h.claim ⟨n, hn, hbox, ⟨.start own, hwork, hsame⟩, hlast⟩ (fun k hk _ => ⟨hk, rfl⟩)
          fun k hk _ => ⟨hk, rfl⟩
      · exact h.enqueue rfl
  | stop id =>
    simp only [World.record, World.enqueueWork]
    split
    · rename_i slot hslot
      obtain ⟨hn, hbox, hqueued, -⟩ := (hkept.stops id slot).mp hslot
      refine h.supersede hn hbox trivial (hkept.other_of_lt (by rw [hqueued]; decide) ?_ ?_)
      · intro m hm
        rw [hbox] at hm
        exact le_of_lt (hturn slot hslot m hm)
      · intro m hm
        rw [hbox, hslot] at hm
        exact le_of_eq (some.inj hm).symm
    · exact h.enqueue trivial
  | other => exact h.enqueueOther rfl

/-- Of what was enqueued last, the state is the last. -/
theorem Kept.lastWins (h : Kept payloadHash lifecycleConcurrency w)
    (hlatest : Latest payloadHash w.tasks w.enqueued w.history) : w.LastWins payloadHash := by
  intro id hsettled command hclaimed
  obtain ⟨n, hn, hbox, ⟨own, hwork, hanswers⟩, hlater⟩ := hlatest id command hclaimed
  refine ⟨⟨own, ?_, hanswers⟩, h.stopsRan id ?_⟩
  · rw [← hbox]
    refine h.ran n hn own hwork ?_ fun m hm hlt hsame hkind => ?_
    · rw [hsettled n hn hbox]
      exact ⟨by decide, by decide⟩
    · exact absurd (hlater m hm hlt (hsame.trans hbox)) hkind
  · rw [eq_none_iff_forall_ne_some]
    intro slot hslot
    obtain ⟨hlt, hid, hqueued, -⟩ := (h.stops id slot).mp hslot
    rw [hsettled slot hlt hid] at hqueued
    cases hqueued

theorem Kept.heartbeatStep [DecidableEq H] {u v : World P H} (h : Kept payloadHash lifecycleConcurrency u) {e : Event P}
    (hstep : Lifecycle.step payloadHash lifecycleConcurrency u e = some v) : HeartbeatStep u e v := by
  intro id hreports
  rcases step_cases hstep with ⟨item, -, rfl⟩ | ⟨sandboxId, hbeats, rfl⟩ | hsteady
  · rw [enqueueWork_reports] at hreports
    simp at hreports
  · have hlast := append_cancel_left hreports
    simp only [List.cons.injEq, Report.starting.injEq, and_true] at hlast
    exact h.underWay id (hlast ▸ hbeats)
  · rcases hsteady.reports with hsame | ⟨n, hsettlement⟩
    · rw [hsame] at hreports
      simp at hreports
    · rw [hsettlement] at hreports
      simp at hreports

section Runs

variable [DecidableEq H] (payloadHash : P → H) (lifecycleConcurrency : ℕ)

/-- Whatever is claimed and however it is timed, tasks of one sandbox do not overlap, the starts are bounded, and no
heartbeat is enqueued once no start is under way. -/
theorem run_bounded (es : List (Event P)) :
    Runs.Throughout (step payloadHash lifecycleConcurrency)
        (fun w => w.OneAtATime ∧ w.Limited lifecycleConcurrency) World.idle es ∧
      Runs.Each (step payloadHash lifecycleConcurrency) HeartbeatStep World.idle es := by
  have hmeets := meets_true (step payloadHash lifecycleConcurrency) .idle es
  constructor
  · intro front back w hsplit hrun
    have hkept := throughout_of_meets (step payloadHash lifecycleConcurrency)
      (I := Kept payloadHash lifecycleConcurrency) (fun u e v hu _ hstep => hu.step hstep) .idle hmeets
    have hw := hkept front back w hsplit hrun
    exact ⟨hw.order.oneAtATime, hw.permits.limited⟩
  · exact each_of_meets (step payloadHash lifecycleConcurrency) (I := Kept payloadHash lifecycleConcurrency)
      (fun u e v hu _ hstep => ⟨hu.step hstep, hu.heartbeatStep hstep⟩) .idle hmeets

/-- Where every claimed command comes in turn, the last one claimed for a sandbox is the last one that the backend is
given. -/
theorem last_command_wins (es : List (Event P))
    (hmeets : Runs.Meets (step payloadHash lifecycleConcurrency) (InTurn payloadHash) World.idle es) :
    Runs.Throughout (step payloadHash lifecycleConcurrency)
        (fun w => w.OneAtATime ∧ w.Limited lifecycleConcurrency ∧ w.LastWins payloadHash) World.idle es ∧
      Runs.Each (step payloadHash lifecycleConcurrency) HeartbeatStep World.idle es := by
  obtain ⟨hbounded, heach⟩ := run_bounded payloadHash lifecycleConcurrency es
  refine ⟨fun front back w hsplit hrun => ?_, heach⟩
  obtain ⟨hone, hlimited⟩ := hbounded front back w hsplit hrun
  have hboth := throughout_of_meets (step payloadHash lifecycleConcurrency)
    (I := fun w => Kept payloadHash lifecycleConcurrency w ∧ Latest payloadHash w.tasks w.enqueued w.history)
    (fun u e v hu hturn hstep => by
      refine ⟨hu.1.step hstep, ?_⟩
      rcases step_cases hstep with ⟨item, rfl, rfl⟩ | ⟨id, -, rfl⟩ | hsteady
      · exact hu.2.enqueueWork hu.1 hturn
      · exact hu.2
      · exact hu.2.steady hsteady)
    ⟨Kept.idle, fun id command hclaimed => by cases hclaimed⟩ hmeets
  obtain ⟨hkept, hlatest⟩ := hboth front back w hsplit hrun
  exact ⟨hone, hlimited, hkept.lastWins hlatest⟩

end Runs

instance [DecidableEq H] (payloadHash : P → H) (w : World P H) (e : Event P) : Decidable (InTurn payloadHash w e) := by
  cases e with
  | claim item => cases item <;> (unfold InTurn; infer_instance)
  | _ => exact .isTrue trivial

/-- A sandbox is started, stopped and started again with a newer payload. -/
def restarted : List (Event ℕ) :=
  [.claim (.start 0 5), .begin 0, .claim (.stop 0 none), .answered 0 false, .posted 0, .begin 1, .claim (.start 0 6),
    .answered 1 false, .posted 1, .begin 2, .answered 2 false, .posted 2]

/-- The second start of a sandbox that is started again is the last command given to the backend. -/
theorem last_command_wins_restarted :
    ∃ w, run (step id 1) World.idle restarted = some w ∧ World.LastWins (H := ℕ) id w := by
  obtain ⟨w, hw⟩ := Option.isSome_iff_exists.mp
    (show (run (step (H := ℕ) id 1) .idle restarted).isSome by decide +kernel)
  have hall := (last_command_wins (H := ℕ) id 1 restarted (by decide +kernel)).1
  exact ⟨w, hw, (hall restarted [] w (List.append_nil _).symm hw).2.2⟩

/-- A sandbox is stopped while its start executes, and started again with the same payload. -/
def startedAgain : List (Event ℕ) :=
  [.claim (.start 0 5), .begin 0, .claim (.stop 0 none), .claim (.start 0 5), .answered 0 false, .posted 0, .begin 1,
    .answered 1 false, .posted 1]

/-- The start that was claimed last is dropped for its twin, and the stop claimed before it runs last. -/
theorem stop_runs_last :
    ¬ Runs.Throughout (step id 1) (fun w => World.LastWins (H := ℕ) id w) World.idle startedAgain := by
  intro hall
  obtain ⟨w, hw⟩ := Option.isSome_iff_exists.mp
    (show (run (step (H := ℕ) id 1) .idle startedAgain).isSome by decide +kernel)
  have hend : (run (step (H := ℕ) id 1) .idle startedAgain).all (fun w : World ℕ ℕ => decide
      (w.enqueued = 2 ∧ (∀ n : ℕ, n < 2 → (w.tasks n).phase = .settled) ∧
        lastClaimed 0 w.history = some (.start 5) ∧ lastRan 0 w.history = some (.stop none))) = true := by
    decide +kernel
  rw [hw, Option.all_some, decide_eq_true_eq] at hend
  obtain ⟨henqueued, hsettled, hclaimed, hran⟩ := hend
  obtain ⟨⟨ran, hlast, hanswers⟩, -⟩ := hall startedAgain [] w (List.append_nil _).symm hw 0
    (fun n hn _ => hsettled n (henqueued ▸ hn)) (.start 5) hclaimed
  cases hran.symm.trans hlast
  exact hanswers

end Onecli.Runner.Lifecycle
