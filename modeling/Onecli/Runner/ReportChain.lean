import Onecli.Foundation.Runs
import Mathlib.Algebra.Order.Group.Multiset

/-!
# The report chain

`report-chain.ts`: the runner posts its reports one at a time, in the order they came. A turn's end whose post provably
never applied sleeps and joins the chain again. The head of the chain is in flight. How its post settles and when a
sleep ends are choices.
-/

namespace Onecli.Runner.ReportChain

open Multiset

/-- `MAX_QUEUED_REPORTS`. -/
def MAX_QUEUED_REPORTS : ℕ := 200

/-- `TERMINAL_RESERVE`. -/
def TERMINAL_RESERVE : ℕ := 64

/-- `MAX_PENDING_RESENDS`. -/
def MAX_PENDING_RESENDS : ℕ := 64

/-- `MAX_PENDING_RESENDS_PER_SANDBOX`. -/
def MAX_PENDING_RESENDS_PER_SANDBOX : ℕ := 8

/-- `MAX_RESENDS`. -/
def MAX_RESENDS : ℕ := 64

/-- `DEATH_CODES`. -/
def DEATH_CODES : List String := ["agent_start_failed", "agent_restarted"]

/-- `RunnerEvent`, by its sandbox and, of a `turn.finished`, the error code, with its place among the reports taken. -/
structure RunnerEvent where
  sandboxId : String
  turnFinished : Option (Option String)
  place : ℕ
  deriving DecidableEq

/-- `isResendable`. -/
def isResendable (event : RunnerEvent) : Bool :=
  event.turnFinished.any fun errorCode => !errorCode.any DEATH_CODES.contains

/-- The chain and the re-sends that sleep, each with its attempt, the number of reports taken and the places of the events
applied. The counts of `pendingResends` are those of a multiset. -/
structure Chain where
  queued : List (RunnerEvent × Option ℕ)
  sleeping : Multiset (RunnerEvent × ℕ)
  pendingResends : Multiset String
  totalPendingResends : ℕ
  taken : ℕ
  applied : List ℕ

/-- How a post settles: with an error that `isProvablyUnapplied`, or in another way, where the event may be applied. -/
inductive Outcome where
  | unapplied
  | ended (applied : Bool)

namespace Chain

/-- `createReportChain`. -/
def empty : Chain := ⟨[], 0, 0, 0, 0, []⟩

/-- The `cap` of `report`. -/
def cap (event : RunnerEvent) : ℕ :=
  if event.turnFinished.isSome then MAX_QUEUED_REPORTS + TERMINAL_RESERVE else MAX_QUEUED_REPORTS

/-- `report`. -/
def report (w : Chain) (event : RunnerEvent) : Chain :=
  if cap event ≤ w.queued.length then w
  else { w with queued := w.queued ++ [({ event with place := w.taken }, none)], taken := w.taken + 1 }

/-- `holdResend`, and the `resend` begins. -/
def holdResend (w : Chain) (event : RunnerEvent) : Chain :=
  if MAX_PENDING_RESENDS ≤ w.totalPendingResends ∨
      MAX_PENDING_RESENDS_PER_SANDBOX ≤ w.pendingResends.count event.sandboxId then w
  else { w with
    pendingResends := event.sandboxId ::ₘ w.pendingResends
    totalPendingResends := w.totalPendingResends + 1
    sleeping := (event, 0) ::ₘ w.sleeping }

/-- `releaseResend`. -/
def releaseResend (w : Chain) (sandboxId : String) : Chain :=
  { w with
    pendingResends := w.pendingResends.erase sandboxId
    totalPendingResends := w.totalPendingResends - 1 }

/-- The place of an event is noted if it was applied. -/
def note (w : Chain) (event : RunnerEvent) (applied : Bool) : Chain :=
  if applied then { w with applied := event.place :: w.applied } else w

/-- The post of an event settles: `failed`, or the loop of `resend`. -/
def settle (w : Chain) (event : RunnerEvent) : Option ℕ → Outcome → Chain
  | none, .unapplied => if isResendable event then w.holdResend event else w
  | some attempt, .unapplied =>
    if attempt + 1 < MAX_RESENDS then { w with sleeping := (event, attempt + 1) ::ₘ w.sleeping }
    else w.releaseResend event.sandboxId
  | none, .ended applied => w.note event applied
  | some _, .ended applied => (w.note event applied).releaseResend event.sandboxId

end Chain

/-- A report comes, the post in flight settles, or a sleep ends. -/
inductive Event where
  | report (event : RunnerEvent)
  | settle (outcome : Outcome)
  | wake (event : RunnerEvent) (attempt : ℕ)

/-- A step of the chain. -/
def step (w : Chain) : Event → Option Chain
  | .report event => some (w.report event)
  | .settle outcome =>
    match w.queued with
    | [] => none
    | (event, attempt) :: queued => some ({ w with queued := queued }.settle event attempt outcome)
  | .wake event attempt =>
    if (event, attempt) ∈ w.sleeping then
      some { w with sleeping := w.sleeping.erase (event, attempt), queued := w.queued ++ [(event, some attempt)] }
    else none

/-- What is being re-sent. -/
def resends (queued : List (RunnerEvent × Option ℕ)) (sleeping : Multiset (RunnerEvent × ℕ)) : Multiset RunnerEvent :=
  ↑((queued.filter (·.2.isSome)).map Prod.fst) + sleeping.map Prod.fst

/-- What is re-sent are turns' ends, as many as the counts say and within their caps. -/
structure Counts (again : Multiset RunnerEvent) (pending : Multiset String) (total : ℕ) : Prop where
  resendable : ∀ event ∈ again, isResendable event
  sandboxes : pending = again.map (·.sandboxId)
  card : total = again.card
  perSandbox : ∀ sandboxId, pending.count sandboxId ≤ MAX_PENDING_RESENDS_PER_SANDBOX
  all : total ≤ MAX_PENDING_RESENDS

/-- The reports yet to be posted are the last ones, in order, and no event before them is at two places. -/
def Ordered (seen : Multiset ℕ) (queued : List (RunnerEvent × Option ℕ)) (taken : ℕ) : Prop :=
  seen.Nodup ∧ ∃ next waiting, taken = next + waiting ∧ waiting ≤ MAX_QUEUED_REPORTS + TERMINAL_RESERVE ∧
    (queued.filter (·.2.isNone)).map (·.1.place) = List.range' next waiting ∧ ∀ place ∈ seen, place < next

/-- The places of what is re-sent or was applied. -/
def places (again : Multiset RunnerEvent) (applied : List ℕ) : Multiset ℕ := again.map (·.place) + ↑applied

/-- The counts are right and the chain is in order. -/
structure Sound (w : Chain) : Prop where
  counts : Counts (resends w.queued w.sleeping) w.pendingResends w.totalPendingResends
  ordered : Ordered (places (resends w.queued w.sleeping) w.applied) w.queued w.taken

section Steps

variable {w w' : Chain} {event : RunnerEvent} {again : Multiset RunnerEvent} {total : ℕ} {pending : Multiset String}
  {queued : List (RunnerEvent × Option ℕ)} {attempt : Option ℕ}

theorem Counts.hold (h : Counts again pending total) (hresendable : isResendable event)
    (hfree : ¬ (MAX_PENDING_RESENDS ≤ total ∨ MAX_PENDING_RESENDS_PER_SANDBOX ≤ pending.count event.sandboxId)) :
    Counts (event ::ₘ again) (event.sandboxId ::ₘ pending) (total + 1) := by
  refine ⟨forall_mem_cons.mpr ⟨hresendable, h.resendable⟩, by simp [h.sandboxes], by simp [h.card], fun id => ?_, by omega⟩
  have hper := h.perSandbox id
  rw [count_cons]
  split_ifs with hsame
  · subst hsame
    omega
  · exact hper

theorem Counts.release (h : Counts (event ::ₘ again) pending total) :
    Counts again (pending.erase event.sandboxId) (total - 1) := by
  obtain ⟨hresendable, rfl, rfl, hper, hall⟩ := h
  exact ⟨(forall_mem_cons.mp hresendable).2, by simp, by simp, fun id => (count_le_of_le id (erase_le _ _)).trans (hper id),
    (Nat.sub_le _ _).trans hall⟩

theorem Sound.report (h : Sound w) (event : RunnerEvent) : Sound (w.report event) := by
  unfold Chain.report
  split
  · exact h
  · obtain ⟨honce, next, waiting, htaken, -, hposts, hbefore⟩ := h.ordered
    have hcap : Chain.cap event ≤ MAX_QUEUED_REPORTS + TERMINAL_RESERVE := by
      unfold Chain.cap
      split <;> decide
    have hwaiting := congrArg List.length hposts
    rw [List.length_map, List.length_range'] at hwaiting
    have hlength := hwaiting ▸ List.length_filter_le _ w.queued
    have hsame : resends (w.queued ++ [({ event with place := w.taken }, none)]) w.sleeping =
        resends w.queued w.sleeping := by simp [resends]
    refine ⟨hsame ▸ h.counts, hsame ▸ honce, next, waiting + 1, congrArg (· + 1) htaken, by omega, ?_, hsame ▸ hbefore⟩
    simp [hposts, htaken, List.range'_concat]

theorem Sound.wake (h : Sound w) {attempt : ℕ} (hmem : (event, attempt) ∈ w.sleeping) :
    Sound { w with sleeping := w.sleeping.erase (event, attempt), queued := w.queued ++ [(event, some attempt)] } := by
  obtain ⟨honce, next, waiting, htaken, hroom, hposts, hbefore⟩ := h.ordered
  have hsame : resends (w.queued ++ [(event, some attempt)]) (w.sleeping.erase (event, attempt)) =
      resends w.queued w.sleeping := by
    conv_rhs => rw [← cons_erase hmem]
    simp [resends, ← coe_add, add_assoc]
  exact ⟨hsame ▸ h.counts, hsame ▸ honce, next, waiting, htaken, hroom, by simp [hposts], hsame ▸ hbefore⟩

/-- The head of the chain leaves it: its event was posted, and is at one place still. -/
theorem Sound.pop (h : Sound w) (hqueued : w.queued = (event, attempt) :: queued) :
    Counts (if attempt.isSome then event ::ₘ resends queued w.sleeping else resends queued w.sleeping) w.pendingResends
        w.totalPendingResends ∧
      Ordered (event.place ::ₘ places (resends queued w.sleeping) w.applied) queued w.taken := by
  obtain ⟨hcounts, honce, next, waiting, htaken, hroom, hposts, hbefore⟩ := h
  rw [hqueued] at hcounts hposts hbefore honce
  cases attempt with
  | none =>
    obtain ⟨hnext, hpos, hposts⟩ := List.range'_eq_cons_iff.mp hposts.symm
    change next = event.place at hnext
    refine ⟨hcounts, nodup_cons.mpr ⟨fun hmem => (hbefore _ hmem).ne hnext.symm, honce⟩, next + 1, waiting - 1, by omega,
      by omega, hnext ▸ hposts, forall_mem_cons.mpr ⟨by omega, fun place hmem => ?_⟩⟩
    exact (hbefore place hmem).trans next.lt_succ_self
  | some attempt =>
    have hcons : resends ((event, some attempt) :: queued) w.sleeping = event ::ₘ resends queued w.sleeping := by
      simp [resends, ← cons_coe]
    rw [hcons] at hcounts hbefore honce
    rw [places, map_cons, cons_add] at hbefore honce
    exact ⟨hcounts, honce, next, waiting, htaken, hroom, hposts, hbefore⟩

theorem Sound.settle (h : Sound w) (hqueued : w.queued = (event, attempt) :: queued) (outcome : Outcome) :
    Sound ({ w with queued := queued }.settle event attempt outcome) := by
  obtain ⟨hcounts, hordered⟩ := h.pop hqueued
  have ⟨honce, next, waiting, htaken, hroom, hposts, hbefore⟩ := hordered
  have hdrop : Ordered (places (resends queued w.sleeping) w.applied) queued w.taken :=
    ⟨(nodup_cons.mp honce).2, next, waiting, htaken, hroom, hposts, (forall_mem_cons.mp hbefore).2⟩
  have hsleep (attempt : ℕ) : resends queued ((event, attempt) ::ₘ w.sleeping) = event ::ₘ resends queued w.sleeping := by
    simp [resends]
  have hkeep (attempt : ℕ) :
      Ordered (places (resends queued ((event, attempt) ::ₘ w.sleeping)) w.applied) queued w.taken := by
    rw [hsleep, places, map_cons, cons_add]
    exact hordered
  have happly : Ordered (places (resends queued w.sleeping) (event.place :: w.applied)) queued w.taken := by
    rw [places, ← cons_coe, add_cons]
    exact hordered
  unfold Chain.settle Chain.holdResend
  split
  · split_ifs with hresendable hfull
    · exact ⟨hcounts, hdrop⟩
    · exact ⟨hsleep 0 ▸ hcounts.hold hresendable hfull, hkeep 0⟩
    · exact ⟨hcounts, hdrop⟩
  · split
    · exact ⟨hsleep _ ▸ hcounts, hkeep _⟩
    · exact ⟨hcounts.release, hdrop⟩
  · rename_i applied
    cases applied <;> exact ⟨hcounts, ‹_›⟩
  · rename_i applied
    cases applied <;> exact ⟨hcounts.release, ‹_›⟩

/-- Every post keeps the chains. -/
theorem Sound.step {e : Event} (h : Sound w) (hstep : step w e = some w') : Sound w' := by
  cases e with
  | report event => exact Option.some.inj hstep ▸ h.report event
  | settle outcome =>
    simp only [ReportChain.step] at hstep
    split at hstep
    · cases hstep
    · exact Option.some.inj hstep ▸ h.settle ‹_› outcome
  | wake event attempt =>
    simp only [ReportChain.step] at hstep
    split at hstep
    · exact Option.some.inj hstep ▸ h.wake ‹_›
    · cases hstep

/-- Before any post the chains are empty. -/
theorem sound_empty : Sound .empty :=
  ⟨⟨nofun, rfl, rfl, fun _ => Nat.zero_le _, Nat.zero_le _⟩, nodup_zero, 0, 0, rfl, Nat.zero_le _, rfl, nofun⟩

end Steps

/-- However posts settle and sleeps end, no event is applied twice, and none before an earlier report was posted. What is
re-sent are turns' ends, as many as the counts say, and neither they nor the chain are more than the caps allow. -/
theorem run_orderly (es : List Event) :
    Runs.Throughout step (fun w =>
      (w.applied.Nodup ∧ ∀ place ∈ w.applied, ∀ send ∈ w.queued, send.2 = none → place < send.1.place) ∧
        Counts (resends w.queued w.sleeping) w.pendingResends w.totalPendingResends ∧
        w.queued.length ≤ MAX_QUEUED_REPORTS + TERMINAL_RESERVE + MAX_PENDING_RESENDS) .empty es := by
  intro front back w hsplit hrun
  obtain ⟨hcounts, honce, next, waiting, -, hroom, hposts, hbefore⟩ :=
    Runs.throughout_of_meets step (fun _ _ _ h _ hstep => h.step hstep) sound_empty (Runs.meets_true step _ es) front back w
      hsplit hrun
  refine ⟨⟨coe_nodup.mp (nodup_of_le (le_add_left _ _) honce), fun place hplace send hsend hfirst => ?_⟩, hcounts, ?_⟩
  · have hmem : send.1.place ∈ List.range' next waiting := by
      rw [← hposts]
      exact List.mem_map_of_mem (List.mem_filter.mpr ⟨hsend, hfirst ▸ rfl⟩)
    exact (hbefore place (mem_add.mpr (.inr hplace))).trans_le (List.mem_range'_1.mp hmem).1
  · have hall := hcounts.card ▸ hcounts.all
    rw [resends, card_add, coe_card, List.length_map] at hall
    have hwaiting := congrArg List.length hposts
    rw [List.length_map, List.length_range'] at hwaiting
    have hlength := List.length_eq_length_filter_add (l := w.queued) (·.2.isSome)
    simp only [Option.not_isSome] at hlength
    omega

example : (Runs.run step .empty [.report ⟨"a", some none, 0⟩, .settle .unapplied, .wake ⟨"a", some none, 0⟩ 0,
    .settle (.ended true)]).map Chain.applied = some [0] := by decide

end Onecli.Runner.ReportChain
