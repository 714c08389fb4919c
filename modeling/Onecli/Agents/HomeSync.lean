import Onecli.Agents.Types
import Onecli.Foundation.Runs

/-!
# The sync of a home

The generations of one sandbox's home: the bumps of `home-sync-service.ts`, the sync arm and the start
arm of `claimDueWork`, and the reports that `applyRunnerEvent` applies. A claimed sync is composed and
sent down to the container, which materializes it and answers with the generation; that answer may
arrive at any later time, more than once or never. Whoever answers, the row takes an answer that is
ahead of it while a claim is open.
-/

namespace Onecli.Agents.HomeSync

open List Option Nat

/-- The columns of a sandbox row that say how far its home is. -/
structure Row where
  status : SandboxStatus
  homeDesiredGeneration : ℕ
  homeAppliedGeneration : ℕ
  homeSyncClaimedAt : Option ℕ

/-- `HOME_SYNC_RETRY_SECONDS`. -/
def homeSyncRetrySeconds : ℕ := 60

/-- A composed sync: the generation of its claim, and the one whose home it carries. -/
structure SyncItem where
  generation : ℕ
  content : ℕ
  deriving DecidableEq

/-- `home.synced`, with the container that sent it, which the event does not name. -/
structure Synced where
  container : ℕ
  generation : ℕ
  deriving DecidableEq

/-- A container and the latest generation whose home it materialized. -/
structure Container where
  id : ℕ
  home : ℕ

/-- The row and the container that runs for it, with the claims, syncs and answers on their way. -/
structure State where
  row : Row
  container : Option Container
  /-- The containers that were ever booted. -/
  booted : ℕ
  /-- The start claims that no container was booted for. -/
  orders : ℕ
  claimed : List ℕ
  items : List SyncItem
  sent : List Synced

/-- A new sandbox. -/
def created : State := ⟨⟨.unprovisioned, 1, 0, none⟩, none, 0, 0, [], [], []⟩

/-- The bump of the desired generation. -/
def bumpHome (row : Row) : Row := { row with homeDesiredGeneration := row.homeDesiredGeneration + 1 }

/-- The sync arm of `claimDueWork`. -/
def claimSync (now : ℕ) (row : Row) : Option Row :=
  if row.status = .running ∧ row.homeAppliedGeneration < row.homeDesiredGeneration ∧
      ∀ claimedAt ∈ row.homeSyncClaimedAt, claimedAt + homeSyncRetrySeconds < now then
    some { row with homeSyncClaimedAt := some now }
  else none

/-- The start arm of `claimDueWork`, when the sandbox is due to start. -/
def claimStart (row : Row) : Option Row :=
  if row.status = .running then none
  else some { row with status := .starting, homeAppliedGeneration := 0, homeSyncClaimedAt := none }

/-- The stop arm of `claimDueWork`, when the sandbox is due to stop. -/
def claimStop (row : Row) : Option Row :=
  if row.status = .running then some { row with status := .stopping } else none

/-- The row takes an answer for this generation. -/
def Row.Takes (row : Row) (generation : ℕ) : Prop :=
  row.homeAppliedGeneration < generation ∧ row.homeSyncClaimedAt ≠ none

instance (row : Row) (generation : ℕ) : Decidable (row.Takes generation) := by
  unfold Row.Takes
  infer_instance

/-- `applyRunnerEvent` of `home.synced`. -/
def applySynced (generation : ℕ) (row : Row) : Row :=
  if row.Takes generation then { row with homeAppliedGeneration := generation, homeSyncClaimedAt := none }
  else row

/-- The guard of a reported status. -/
def reportApplies (row : Row) : SandboxStatus → Bool
  | .stopped => row.status = .running ∨ row.status = .stopping
  | .starting | .failed => row.status ≠ .running
  | _ => true

/-- `applyRunnerEvent` of `sandbox.status`; a report whose guard fails matches no row. -/
def applyStatus (status : SandboxStatus) (row : Row) : Row :=
  if reportApplies row status then { row with status } else row

/-- What happens next. -/
inductive Event where
  | bump
  | claim (now : ℕ)
  | compose (generation : ℕ)
  | materialize (item : SyncItem)
  | synced (answer : Synced)
  | start
  | boot
  | die
  | report (status : SandboxStatus)
  | ready
  | stop
  /-- A respawn, a warm-up or the recovery of a stranded turn. -/
  | unprovision

/-- One step. -/
def step (s : State) : Event → Option State
  | .bump => some { s with row := bumpHome s.row }
  | .claim now => (claimSync now s.row).map fun row =>
      { s with row, claimed := row.homeDesiredGeneration :: s.claimed }
  | .compose generation =>
    -- composed from what holds when it is composed, under the generation of the claim
    if generation ∈ s.claimed then
      some { s with items := ⟨generation, s.row.homeDesiredGeneration⟩ :: s.items }
    else none
  | .materialize item =>
    if item ∈ s.items then s.container.map fun container =>
      { s with
        container := some { container with home := max container.home item.content }
        sent := ⟨container.id, item.generation⟩ :: s.sent }
    else none
  | .synced answer => if answer ∈ s.sent then some { s with row := applySynced answer.generation s.row } else none
  | .start => (claimStart s.row).map fun row => { s with row, orders := s.orders + 1 }
  | .boot =>
    if s.orders = 0 then none
    else some { s with container := some ⟨s.booted, 0⟩, booted := s.booted + 1, orders := s.orders - 1 }
  | .die => some { s with container := none }
  | .report status => some { s with row := applyStatus status s.row }
  | .ready => some { s with row := { s.row with status := .running } }
  | .stop => (claimStop s.row).map fun row => { s with row }
  | .unprovision => some { s with row := { s.row with status := .unprovisioned } }

/-- A claim of the sync arm takes the row once its window has passed. -/
def SyncDue (row : Row) : Prop :=
  ∀ now, row.status = .running →
    (∀ claimedAt ∈ row.homeSyncClaimedAt, claimedAt + homeSyncRetrySeconds < now) → (claimSync now row).isSome

/-- The container has materialized a home of the generation that the row says is applied, and one that
is behind the desired generation has a sync due. -/
def Truthful (s : State) : Prop :=
  ∀ container ∈ s.container, s.row.homeAppliedGeneration ≤ container.home ∧
    (container.home < s.row.homeDesiredGeneration → SyncDue s.row)

/-- An answer that the row takes is one of the container that runs, or of a generation that it has
materialized too, and a container boots while no generation is applied. -/
def Current (s : State) : Event → Prop
  | .synced answer => s.row.Takes answer.generation →
      ∀ container ∈ s.container, container.id = answer.container ∨ answer.generation ≤ container.home
  | .boot => s.row.homeAppliedGeneration = 0
  | _ => True

instance (s : State) (e : Event) : Decidable (Current s e) := by
  unfold Current
  split <;> infer_instance

/-- What is on its way comes from containers that were booted and claims that were made, and the
container is ahead of what the row says is applied. -/
structure Inv (s : State) : Prop where
  applied : ∀ container ∈ s.container, s.row.homeAppliedGeneration ≤ container.home
  claimed : ∀ generation ∈ s.claimed, generation ≤ s.row.homeDesiredGeneration
  items : ∀ item ∈ s.items, item.generation ≤ item.content
  container : ∀ container ∈ s.container, container.id < s.booted
  booted : ∀ answer ∈ s.sent, answer.container < s.booted
  sent : ∀ answer ∈ s.sent, ∀ container ∈ s.container, container.id = answer.container →
    answer.generation ≤ container.home

/-- A sandbox that is behind has a sync due. -/
theorem syncDue_of_lt {row : Row} (h : row.homeAppliedGeneration < row.homeDesiredGeneration) : SyncDue row := by
  intro now hruns hwindow
  rw [claimSync, if_pos ⟨hruns, h, hwindow⟩]
  rfl

variable {s : State}

/-- What is invariant makes the row truthful. -/
theorem Inv.truthful (h : Inv s) : Truthful s :=
  fun container hcont =>
    ⟨h.applied container hcont, fun hbehind =>
      syncDue_of_lt (Nat.lt_of_le_of_lt (h.applied container hcont) hbehind)⟩

/-- A new sandbox. -/
theorem inv_created : Inv created :=
  ⟨by simp [created], by simp [created], by simp [created], by simp [created], by simp [created], by simp [created]⟩

/-- A step that changes the row alone keeps the invariant, when the applied generation stays covered
and the desired one does not fall. -/
theorem Inv.row (h : Inv s) {row : Row}
    (happlied : ∀ container ∈ s.container, row.homeAppliedGeneration ≤ container.home)
    (hdesired : s.row.homeDesiredGeneration ≤ row.homeDesiredGeneration) : Inv { s with row } :=
  ⟨happlied, fun generation hmem => Nat.le_trans (h.claimed generation hmem) hdesired, h.items, h.container, h.booted,
    h.sent⟩

theorem applyStatus_eq (status : SandboxStatus) (row : Row) :
    ∃ status', applyStatus status row = { row with status := status' } := by
  rw [applyStatus]
  split
  · exact ⟨status, rfl⟩
  · exact ⟨row.status, rfl⟩

/-- A sync is composed from no older home than it claims. -/
theorem Inv.compose (h : Inv s) {generation : ℕ} (hclaimed : generation ∈ s.claimed) :
    Inv { s with items := ⟨generation, s.row.homeDesiredGeneration⟩ :: s.items } := by
  refine ⟨h.applied, h.claimed, fun item hitem => ?_, h.container, h.booted, h.sent⟩
  rcases mem_cons.mp hitem with rfl | hitem
  · exact h.claimed generation hclaimed
  · exact h.items item hitem

/-- A container that materializes is ahead. -/
theorem Inv.materialize (h : Inv s) {item : SyncItem} (hitem : item ∈ s.items) {container : Container}
    (hcont : s.container = some container) :
    Inv { s with
      container := some { container with home := max container.home item.content }
      sent := ⟨container.id, item.generation⟩ :: s.sent } := by
  have hahead : container.home ≤ max container.home item.content := Nat.le_max_left ..
  refine ⟨?_, h.claimed, h.items, ?_, ?_, ?_⟩
  · rintro _ ⟨⟩
    exact Nat.le_trans (h.applied container hcont) hahead
  · rintro _ ⟨⟩
    exact h.container container hcont
  · intro answer hanswer
    rcases mem_cons.mp hanswer with rfl | hanswer
    · exact h.container container hcont
    · exact h.booted answer hanswer
  · rintro answer hanswer _ ⟨⟩ hid
    rcases mem_cons.mp hanswer with rfl | hanswer
    · exact Nat.le_trans (h.items item hitem) (Nat.le_max_right ..)
    · exact Nat.le_trans (h.sent answer hanswer container hcont hid) hahead

/-- A container boots with nothing applied. -/
theorem Inv.boot (h : Inv s) (happlied : s.row.homeAppliedGeneration = 0) (orders : ℕ) :
    Inv { s with container := some ⟨s.booted, 0⟩, booted := s.booted + 1, orders } := by
  refine ⟨?_, h.claimed, h.items, ?_, fun answer hanswer => lt_succ_of_lt (h.booted answer hanswer), ?_⟩
  · rintro _ ⟨⟩
    exact Nat.le_of_eq happlied
  · rintro _ ⟨⟩
    exact lt_succ_self s.booted
  · rintro answer hanswer _ ⟨⟩ hid
    exact absurd (h.booted answer hanswer) (by rw [← hid]; exact Nat.lt_irrefl s.booted)

/-- A current answer is true of the container. -/
theorem Inv.synced (h : Inv s) {answer : Synced} (hanswer : answer ∈ s.sent) (hcur : Current s (.synced answer)) :
    Inv { s with row := applySynced answer.generation s.row } := by
  by_cases htakes : s.row.Takes answer.generation
  · rw [applySynced, if_pos htakes]
    refine h.row (fun container hcont => ?_) (Nat.le_refl _)
    rcases hcur htakes container hcont with hid | hcov
    · exact h.sent answer hanswer container hcont hid
    · exact hcov
  · rw [applySynced, if_neg htakes]
    exact h

/-- Every current event keeps the invariant. -/
theorem step_inv (s : State) (e : Event) (s' : State) (h : Inv s) (hcur : Current s e)
    (hstep : step s e = some s') : Inv s' := by
  cases e with
  | bump =>
    cases hstep
    exact h.row h.applied (le_succ _)
  | claim =>
    obtain ⟨row, hclaim, rfl⟩ := map_eq_some_iff.mp hstep
    simp only [claimSync, ite_none_right_eq_some, Option.some.injEq] at hclaim
    obtain ⟨-, rfl⟩ := hclaim
    refine ⟨h.applied, fun generation hmem => ?_, h.items, h.container, h.booted, h.sent⟩
    rcases mem_cons.mp hmem with rfl | hmem
    · exact Nat.le_refl _
    · exact h.claimed generation hmem
  | compose =>
    simp only [step, ite_none_right_eq_some, Option.some.injEq] at hstep
    obtain ⟨hclaimed, rfl⟩ := hstep
    exact h.compose hclaimed
  | materialize =>
    simp only [step, ite_none_right_eq_some, map_eq_some_iff] at hstep
    obtain ⟨hitem, container, hcont, rfl⟩ := hstep
    exact h.materialize hitem hcont
  | synced =>
    simp only [step, ite_none_right_eq_some, Option.some.injEq] at hstep
    obtain ⟨hanswer, rfl⟩ := hstep
    exact h.synced hanswer hcur
  | start =>
    obtain ⟨row, hclaim, rfl⟩ := map_eq_some_iff.mp hstep
    simp only [claimStart, ite_none_left_eq_some, Option.some.injEq] at hclaim
    obtain ⟨-, rfl⟩ := hclaim
    exact ⟨fun container _ => zero_le container.home, h.claimed, h.items, h.container, h.booted, h.sent⟩
  | boot =>
    simp only [step, ite_none_left_eq_some, Option.some.injEq] at hstep
    obtain ⟨-, rfl⟩ := hstep
    exact h.boot hcur (s.orders - 1)
  | die =>
    cases hstep
    refine ⟨?_, h.claimed, h.items, ?_, h.booted, ?_⟩
    · rintro _ ⟨⟩
    · rintro _ ⟨⟩
    · rintro _ _ _ ⟨⟩
  | report status =>
    cases hstep
    obtain ⟨status', hrow⟩ := applyStatus_eq status s.row
    rw [hrow]
    exact h.row h.applied (Nat.le_refl _)
  | stop =>
    obtain ⟨row, hclaim, rfl⟩ := map_eq_some_iff.mp hstep
    simp only [claimStop, ite_none_right_eq_some, Option.some.injEq] at hclaim
    obtain ⟨-, rfl⟩ := hclaim
    exact h.row h.applied (Nat.le_refl _)
  | _ =>
    cases hstep
    exact h.row h.applied (Nat.le_refl _)

/-- An event that is not current makes the row untrue. -/
theorem not_truthful_of_not_current (s : State) (e : Event) (s' : State) (hcur : ¬ Current s e)
    (hstep : step s e = some s') : ¬ Truthful s' := by
  intro htruthful
  cases e with
  | synced =>
    simp only [step, ite_none_right_eq_some, Option.some.injEq] at hstep
    obtain ⟨-, rfl⟩ := hstep
    refine hcur fun htakes container hcont => .inr ?_
    have happlied := (htruthful container hcont).1
    rwa [applySynced, if_pos htakes] at happlied
  | boot =>
    simp only [step, ite_none_left_eq_some, Option.some.injEq] at hstep
    obtain ⟨-, rfl⟩ := hstep
    exact hcur (le_zero.mp (htruthful _ rfl).1)
  | _ => exact hcur trivial

/-- The row says of the running container what is true of it, throughout a run, exactly when every
answer that it takes is of the container that runs, or is covered by it, and every container boots
while no generation is applied. -/
theorem run_truthful_iff (es : List Event) (t : State) (hrun : Runs.run step created es = some t) :
    Runs.Throughout step Truthful created es ↔ Runs.Meets step Current created es :=
  Runs.throughout_iff_meets step (fun _ h => h.truthful) step_inv
    (fun s e s' _ => not_truthful_of_not_current s e s') inv_created hrun

/-- A boot, and a first sync that its container materializes. -/
def firstSync (now : ℕ) (item : SyncItem) : List Event :=
  [.start, .boot, .ready, .claim now, .compose item.generation, .materialize item]

/-- Two boots, each with a sync that is answered by its own container. -/
theorem run_truthful_iff_restarted :
    Runs.Throughout step Truthful created
      (firstSync 100 ⟨1, 1⟩ ++ [.synced ⟨0, 1⟩, .die, .report .stopped] ++ firstSync 200 ⟨1, 1⟩ ++
        [.synced ⟨1, 1⟩, .synced ⟨0, 1⟩]) :=
  (run_truthful_iff _ _ rfl).mpr (by decide +kernel)

/-- The first container's answer arrives after the second one's sync is claimed. -/
theorem not_truthful_after_late_answer :
    ¬ ∀ (es : List Event) (t : State), Runs.run step created es = some t →
      Runs.Throughout step Truthful created es := by
  intro hall
  have hend := hall (firstSync 100 ⟨1, 1⟩ ++ [.die, .report .stopped, .start, .boot, .ready, .claim 200,
    .synced ⟨0, 1⟩]) _ rfl _ [] _ (List.append_nil _).symm rfl
  exact absurd (hend ⟨1, 0⟩ rfl).1 (by decide)

/-! ## Answers in time -/

/-- How many containers were booted, and whether an answer came since the last start claim. -/
structure Schedule where
  boots : ℕ
  answered : Bool

/-- The schedule after one more event. -/
def Schedule.next (l : Schedule) : Event → Schedule
  | .start => { l with answered := false }
  | .synced _ => { l with answered := true }
  | .boot => { l with boots := l.boots + 1 }
  | _ => l

/-- No answer comes after the next container booted, and none between a start claim and its boot. -/
def Prompt (l : Schedule) : Event → Prop
  | .synced answer => answer.container + 1 = l.boots
  | .boot => l.answered = false
  | _ => True

instance (l : Schedule) (e : Event) : Decidable (Prompt l e) := by
  unfold Prompt
  split <;> infer_instance

/-- The container that runs is the one that was booted last, and without an answer no generation is applied. -/
structure Follows (l : Schedule) (s : State) : Prop extends Inv s where
  boots : s.booted = l.boots
  latest : ∀ container ∈ s.container, container.id + 1 = s.booted
  unanswered : l.answered = false → s.row.homeAppliedGeneration = 0

variable {l : Schedule}

/-- An event that comes in time finds what `Current` asks of the row. -/
theorem Follows.current (h : Follows l s) {e : Event} (hprompt : Prompt l e) : Current s e := by
  cases e with
  | synced answer =>
    intro _ container hcont
    have hlast : container.id + 1 = answer.container + 1 :=
      (h.latest container hcont).trans (h.boots.trans hprompt.symm)
    exact .inl (Nat.add_right_cancel hlast)
  | boot => exact h.unanswered hprompt
  | _ => trivial

/-- Every event that comes in time keeps the row behind its schedule. -/
theorem Follows.step (h : Follows l s) {e : Event} (hprompt : Prompt l e) {s' : State}
    (hstep : HomeSync.step s e = some s') : Follows (l.next e) s' := by
  have hinv := step_inv s e s' h.toInv (h.current hprompt) hstep
  cases e with
  | claim =>
    obtain ⟨row, hclaim, rfl⟩ := map_eq_some_iff.mp hstep
    simp only [claimSync, ite_none_right_eq_some, Option.some.injEq] at hclaim
    obtain ⟨-, rfl⟩ := hclaim
    exact ⟨hinv, h.boots, h.latest, h.unanswered⟩
  | compose =>
    simp only [HomeSync.step, ite_none_right_eq_some, Option.some.injEq] at hstep
    obtain ⟨-, rfl⟩ := hstep
    exact ⟨hinv, h.boots, h.latest, h.unanswered⟩
  | materialize =>
    simp only [HomeSync.step, ite_none_right_eq_some, map_eq_some_iff] at hstep
    obtain ⟨-, container, hcont, rfl⟩ := hstep
    refine ⟨hinv, h.boots, ?_, h.unanswered⟩
    rintro _ ⟨⟩
    exact h.latest container hcont
  | synced =>
    simp only [HomeSync.step, ite_none_right_eq_some, Option.some.injEq] at hstep
    obtain ⟨-, rfl⟩ := hstep
    exact ⟨hinv, h.boots, h.latest, fun hnot => by cases hnot⟩
  | start =>
    obtain ⟨row, hclaim, rfl⟩ := map_eq_some_iff.mp hstep
    simp only [claimStart, ite_none_left_eq_some, Option.some.injEq] at hclaim
    obtain ⟨-, rfl⟩ := hclaim
    exact ⟨hinv, h.boots, h.latest, fun _ => rfl⟩
  | boot =>
    simp only [HomeSync.step, ite_none_left_eq_some, Option.some.injEq] at hstep
    obtain ⟨-, rfl⟩ := hstep
    refine ⟨hinv, congrArg (· + 1) h.boots, ?_, h.unanswered⟩
    rintro _ ⟨⟩
    rfl
  | die =>
    cases hstep
    exact ⟨hinv, h.boots, fun container hcont => (by cases hcont), h.unanswered⟩
  | report status =>
    cases hstep
    obtain ⟨status', hrow⟩ := applyStatus_eq status s.row
    refine ⟨hinv, h.boots, h.latest, fun hnot => ?_⟩
    change (applyStatus status s.row).homeAppliedGeneration = 0
    rw [hrow]
    exact h.unanswered hnot
  | stop =>
    obtain ⟨row, hclaim, rfl⟩ := map_eq_some_iff.mp hstep
    simp only [claimStop, ite_none_right_eq_some, Option.some.injEq] at hclaim
    obtain ⟨-, rfl⟩ := hclaim
    exact ⟨hinv, h.boots, h.latest, h.unanswered⟩
  | _ =>
    cases hstep
    exact ⟨hinv, h.boots, h.latest, h.unanswered⟩

/-- The row is truthful throughout every run in which no answer outlives its container's time: each comes before
the next boot, and none between a start claim and its boot. -/
theorem truthful_of_prompt {es : List Event}
    (hprompt : Runs.Logged step (fun l _ e => l.next e) (fun l _ e => Prompt l e) ⟨0, false⟩ created es) :
    Runs.Throughout step Truthful created es := by
  have hstart : Follows ⟨0, false⟩ created := ⟨inv_created, rfl, fun container hcont => (by cases hcont), fun _ => rfl⟩
  have hmeets : Runs.Meets step Current created es :=
    Runs.meets_of_logged step (fun _ _ _ hfollows hin => hfollows.current hin)
      (fun _ _ _ _ hfollows hin hstep => hfollows.step hin hstep) hstart hprompt
  have hinv := Runs.throughout_of_meets step step_inv inv_created hmeets
  exact fun front back t hsplit hfront => (hinv front back t hsplit hfront).truthful

/-- Two boots whose answers come in time. -/
example : Runs.Logged step (fun l _ e => l.next e) (fun l _ e => Prompt l e) ⟨0, false⟩ created
    (firstSync 100 ⟨1, 1⟩ ++ [.synced ⟨0, 1⟩, .die, .report .stopped] ++ firstSync 200 ⟨1, 1⟩ ++ [.synced ⟨1, 1⟩]) := by
  decide +kernel

end Onecli.Agents.HomeSync
