import Onecli.Approval.Hold
import Onecli.Foundation.Runs

/-!
# One approval in the in-memory store

`InMemoryApprovalStore` of `approval/src/lib.rs` under `hold`, any number of `submit_outcome`
calls, the wait's timeout, the gateway's shutdown, an agent that disconnects, and the cleanup
task. The maps are keyed by approval id; the state holds the entries of one id. A step is one
operation on a map or on the decision channel, so that the parties interleave between them.
-/

namespace Onecli.Approval.InMemory

open Function (update update_of_ne update_self)
open Option

/-- The next operation of `remove`. -/
inductive Removal where
  | pending
  | decisions
  deriving DecidableEq

/-- Where `hold` stands. -/
inductive Hold where
  | start
  | prepared
  | waiting
  | removing (waited : Waited) (next : Removal)
  | ended (outcome : HoldOutcome)
  /-- The future is dropped; the guard's task removes the approval. -/
  | dropped (next : Option Removal)
  deriving DecidableEq

/-- Where a call of `submit_outcome` stands. -/
inductive Submit where
  | idle
  | called (outcome : DecisionOutcome)
  | signalling (outcome : DecisionOutcome)
  | unlisting (outcome : DecisionOutcome)
  | returned (outcome : DecisionOutcome) (accepted : Bool)
  deriving DecidableEq

/-- The entries of one approval, its decision channel, and the parties. -/
structure State where
  /-- `expires_at` of the entry in `pending`. -/
  pending : Option ℕ
  /-- The sender is in `decisions`. -/
  decisions : Bool
  /-- The value of the watch channel. -/
  value : Option DecisionOutcome
  /-- The sender is not dropped. -/
  sender : Bool
  hold : Hold
  submits : ℕ → Submit
  /-- The next operation of `cleanup_expired` on this approval, when its scan found it. -/
  cleanup : Option Removal

/-- Before `hold` is called. -/
def State.init : State := ⟨none, false, none, false, .start, fun _ => .idle, none⟩

/-- A step of one of the parties. -/
inductive Event where
  | prepareWait
  | store (expiresAt : ℕ)
  /-- The waiter is polled and finds a decision. -/
  | decided
  /-- The waiter is polled and finds the sender dropped. -/
  | closed
  | timeout
  | shutdown
  | disconnect
  /-- The next operation of `remove`, called by `hold` or by the guard. -/
  | remove
  | call (i : ℕ) (outcome : DecisionOutcome)
  /-- `decisions.remove`. -/
  | take (i : ℕ)
  /-- `tx.send`. -/
  | signal (i : ℕ)
  /-- `pending.remove`; the sender is dropped on the return. -/
  | unlist (i : ℕ)
  /-- `cleanup_expired` looks for expired approvals. -/
  | scan (now : ℕ)
  /-- The next operation of `cleanup_expired`. -/
  | evict

/-- `hold` has its receiver. -/
def Hold.Listening (hold : Hold) : Prop := hold = .prepared ∨ hold = .waiting

instance (hold : Hold) : Decidable hold.Listening := inferInstanceAs (Decidable (_ ∨ _))

/-- The entry of `pending` goes. -/
def State.removePending (s : State) : State := { s with pending := none }

/-- The entry of `decisions` goes, and its sender with it. -/
def State.removeDecisions (s : State) : State := { s with decisions := false, sender := s.sender && !s.decisions }

/-- A call of `submit_outcome` goes on. -/
def State.setSubmit (s : State) (i : ℕ) (submit : Submit) : State := { s with submits := update s.submits i submit }

/-- The next operation of `remove`. -/
def stepRemove (s : State) : Option State :=
  match s.hold with
  | .removing waited .pending => some { s.removePending with hold := .removing waited .decisions }
  | .removing waited .decisions => some { s.removeDecisions with hold := .ended (answer waited) }
  | .dropped (some .pending) => some { s.removePending with hold := .dropped (some .decisions) }
  | .dropped (some .decisions) => some { s.removeDecisions with hold := .dropped none }
  | _ => none

/-- A call takes the sender, or finds none and returns `false`. -/
def stepTake (s : State) (i : ℕ) : Option State :=
  match s.submits i with
  | .called outcome =>
    if s.decisions then some { s.setSubmit i (.signalling outcome) with decisions := false }
    else some (s.setSubmit i (.returned outcome false))
  | _ => none

/-- A call signals the decision; without a receiver the value stays. -/
def stepSignal (s : State) (i : ℕ) : Option State :=
  match s.submits i with
  | .signalling outcome =>
    some { s.setSubmit i (.unlisting outcome) with
      value := if s.hold.Listening then some outcome else s.value }
  | _ => none

/-- A call removes the approval and returns `true`. -/
def stepUnlist (s : State) (i : ℕ) : Option State :=
  match s.submits i with
  | .unlisting outcome => some { (s.setSubmit i (.returned outcome true)).removePending with sender := false }
  | _ => none

/-- The next operation of `cleanup_expired`. -/
def stepEvict (s : State) : Option State :=
  match s.cleanup with
  | some .decisions => some { s.removeDecisions with cleanup := some .pending }
  | some .pending => some { s.removePending with cleanup := none }
  | none => none

/-- One step. The deadline is looked at only when the decision is not there. -/
def step (s : State) : Event → Option State
  | .prepareWait =>
    if s.hold = .start then
      some { s with decisions := true, value := none, sender := true, hold := .prepared }
    else none
  | .store expiresAt =>
    if s.hold = .prepared then some { s with pending := some expiresAt, hold := .waiting }
    else none
  | .decided =>
    match s.hold, s.value with
    | .waiting, some outcome => some { s with hold := .removing (.read (some outcome)) .pending }
    | _, _ => none
  | .closed =>
    if s.hold = .waiting ∧ s.value = none ∧ s.sender = false then
      some { s with hold := .removing (.read none) .pending }
    else none
  | .timeout =>
    if s.hold = .waiting ∧ s.value = none then
      some { s with hold := .removing (.read none) .pending }
    else none
  | .shutdown => if s.hold = .waiting then some { s with hold := .removing .shutdown .pending } else none
  | .disconnect => if s.hold = .waiting then some { s with hold := .dropped (some .pending) } else none
  | .remove => stepRemove s
  | .call i outcome => if s.submits i = .idle then some (s.setSubmit i (.called outcome)) else none
  | .take i => stepTake s i
  | .signal i => stepSignal s i
  | .unlist i => stepUnlist s i
  | .scan now =>
    if s.cleanup = none then
      some { s with cleanup := if s.pending.any (· ≤ now) then some .decisions else none }
    else none
  | .evict => stepEvict s

/-- The decision of a call that took the sender, and so returns `true`. -/
def Submit.accepted : Submit → Option DecisionOutcome
  | .idle => none
  | .called _ => none
  | .signalling outcome => some outcome
  | .unlisting outcome => some outcome
  | .returned outcome accepted => if accepted then some outcome else none

/-- The decision of a call that has signalled it. -/
def Submit.signalled : Submit → Option DecisionOutcome
  | .signalling _ => none
  | submit => submit.accepted

/-- The answer that `hold` gives or will give, once its wait has ended. -/
def Hold.answered : Hold → Option HoldOutcome
  | .removing waited _ => some (answer waited)
  | .ended outcome => some outcome
  | _ => none

/-- What is signalled was accepted. -/
theorem Submit.accepted_of_signalled {submit : Submit} {outcome : DecisionOutcome}
    (h : submit.signalled = some outcome) : submit.accepted = some outcome := by
  cases submit with
  | signalling => cases h
  | _ => exact h

theorem Hold.answered_of_listening {hold : Hold} (h : hold.Listening) : hold.answered = none := by
  rcases h with rfl | rfl
  · rfl
  · rfl

/-- What is always so: the sender goes to at most one call, and what the waiter reads is what
that call signalled. -/
structure Inv (s : State) : Prop where
  unopened : s.hold = .start → s.decisions = false ∧ ∀ i, (s.submits i).accepted = none
  untaken : s.decisions = true → ∀ i, (s.submits i).accepted = none
  held : s.decisions = true → s.sender = true
  unique : ∀ i j, (s.submits i).accepted ≠ none → (s.submits j).accepted ≠ none → i = j
  sender : ∀ i, (s.submits i).accepted ≠ none → (s.submits i).signalled = none → s.sender = true
  value : ∀ outcome, s.value = some outcome → ∃ i, (s.submits i).signalled = some outcome
  signalled : s.hold.Listening → ∀ i outcome, (s.submits i).signalled = some outcome → s.value = some outcome
  answered : ∀ approvedBy, s.hold.answered = some (.approved approvedBy) → ∃ i, (s.submits i).accepted ≠ none

/-- Every accepted decision is the answer that `hold` gives, once it has one. -/
def Delivered (s : State) : Prop :=
  ∀ i outcome result, (s.submits i).accepted = some outcome → s.hold.answered = some result →
    result = answer (.read (some outcome))

section Steps

variable {s s' : State}

/-- A step that takes, signals and reads nothing. -/
structure Quiet (s s' : State) : Prop where
  accepted : ∀ i, (s'.submits i).accepted = (s.submits i).accepted
  signalled : ∀ i, (s'.submits i).signalled = (s.submits i).signalled
  value : s'.value = s.value
  decisions : s'.decisions = true → s.decisions = true
  sender : s.decisions = false ∨ s'.decisions = true → s'.sender = s.sender
  start : s'.hold = .start → s.hold = .start
  listening : s'.hold.Listening → s.hold.Listening
  answered : s'.hold.answered = s.hold.answered

theorem Inv.quiet (h : Inv s) (hquiet : Quiet s s') : Inv s' where
  unopened := by
    intro hstart
    obtain ⟨hdecisions, hnone⟩ := h.unopened (hquiet.start hstart)
    refine ⟨?_, fun i => (hquiet.accepted i).trans (hnone i)⟩
    cases hd : s'.decisions with
    | false => rfl
    | true => exact absurd (hquiet.decisions hd) (by rw [hdecisions]; decide)
  untaken := fun hd i => (hquiet.accepted i).trans (h.untaken (hquiet.decisions hd) i)
  held := fun hd => (hquiet.sender (.inr hd)).trans (h.held (hquiet.decisions hd))
  unique := by
    intro i j hi hj
    rw [hquiet.accepted] at hi hj
    exact h.unique i j hi hj
  sender := by
    intro i hi hsignalled
    rw [hquiet.accepted] at hi
    rw [hquiet.signalled] at hsignalled
    cases hd : s.decisions with
    | false => exact (hquiet.sender (.inl hd)).trans (h.sender i hi hsignalled)
    | true => exact absurd (h.untaken hd i) hi
  value := by
    intro outcome hvalue
    obtain ⟨i, hi⟩ := h.value outcome (hquiet.value ▸ hvalue)
    exact ⟨i, (hquiet.signalled i).trans hi⟩
  signalled := by
    intro hlisten i outcome hi
    rw [hquiet.signalled] at hi
    exact hquiet.value.trans (h.signalled (hquiet.listening hlisten) i outcome hi)
  answered := by
    intro approvedBy hanswer
    obtain ⟨i, hi⟩ := h.answered approvedBy (hquiet.answered ▸ hanswer)
    exact ⟨i, (hquiet.accepted i).symm ▸ hi⟩

theorem Delivered.quiet (h : Delivered s) (hquiet : Quiet s s') : Delivered s' := by
  intro i outcome result hi hresult
  rw [hquiet.accepted] at hi
  rw [hquiet.answered] at hresult
  exact h i outcome result hi hresult

theorem Inv.ended (h : Inv s) {waited : Waited}
    (hread : ∀ outcome, waited = .read (some outcome) → s.value = some outcome) :
    Inv { s with hold := .removing waited .pending } where
  __ := h
  unopened := fun hstart => by cases hstart
  signalled := by
    intro hlisten
    rcases hlisten with hprepared | hwait
    · cases hprepared
    · cases hwait
  answered := by
    intro approvedBy hanswer
    obtain ⟨outcome, hwaited⟩ := answer_eq_approved (some.inj hanswer)
    obtain ⟨i, hi⟩ := h.value outcome (hread outcome hwaited)
    refine ⟨i, ?_⟩
    rw [Submit.accepted_of_signalled hi]
    exact some_ne_none _

variable {outcome : DecisionOutcome} {i : ℕ}

theorem Delivered.decided (hinv : Inv s) (hvalue : s.value = some outcome) :
    Delivered { s with hold := .removing (.read (some outcome)) .pending } := by
  intro j outcome' result hj hresult
  obtain ⟨i, hi⟩ := hinv.value outcome hvalue
  have haccepted := Submit.accepted_of_signalled hi
  have hsame : j = i := by
    refine hinv.unique j i ?_ ?_
    · exact hj ▸ some_ne_none _
    · exact haccepted ▸ some_ne_none _
  cases hj.symm.trans (hsame ▸ haccepted)
  exact (some.inj hresult).symm

/-- Without an accepted decision nothing is due. -/
theorem Delivered.of_untaken (h : ∀ i, (s.submits i).accepted = none) : Delivered s := by
  intro i outcome result hi
  exact absurd ((h i).symm.trans hi) (some_ne_none outcome).symm

/-- What a step can do, beside the quiet ones. -/
inductive Move (s : State) : Event → State → Prop where
  | quiet {e : Event} {s' : State} : Quiet s s' → Move s e s'
  | opened : s.hold = .start → Move s .prepareWait
      { s with decisions := true, value := none, sender := true, hold := .prepared }
  | decided (outcome : DecisionOutcome) : s.hold = .waiting → s.value = some outcome →
      Move s .decided { s with hold := .removing (.read (some outcome)) .pending }
  | closed : s.hold = .waiting → s.value = none → s.sender = false →
      Move s .closed { s with hold := .removing (.read none) .pending }
  | timeout : s.hold = .waiting → s.value = none → Move s .timeout { s with hold := .removing (.read none) .pending }
  | shutdown : s.hold = .waiting → Move s .shutdown { s with hold := .removing .shutdown .pending }
  | taken (i : ℕ) (outcome : DecisionOutcome) : s.submits i = .called outcome → s.decisions = true →
      Move s (.take i) { s.setSubmit i (.signalling outcome) with decisions := false }
  | signalled (i : ℕ) (outcome : DecisionOutcome) : s.submits i = .signalling outcome →
      Move s (.signal i) { s.setSubmit i (.unlisting outcome) with
        value := if s.hold.Listening then some outcome else s.value }
  | unlisted (i : ℕ) (outcome : DecisionOutcome) : s.submits i = .unlisting outcome →
      Move s (.unlist i)
        { (s.setSubmit i (.returned outcome true)).removePending with sender := false }

theorem Quiet.setSubmit {submit : Submit} (haccepted : submit.accepted = (s.submits i).accepted)
    (hsignalled : submit.signalled = (s.submits i).signalled) : Quiet s (s.setSubmit i submit) where
  accepted := update_keeps Submit.accepted haccepted
  signalled := update_keeps Submit.signalled hsignalled
  value := rfl
  decisions := id
  sender := fun _ => rfl
  start := id
  listening := id
  answered := rfl

/-- The entry of `decisions` goes; the hold is where it was or further. -/
theorem Quiet.removeDecisions {hold : Hold} {cleanup : Option Removal} {pending : Option ℕ}
    (hstart : hold = .start → s.hold = .start) (hlisten : hold.Listening → s.hold.Listening)
    (hanswered : hold.answered = s.hold.answered) :
    Quiet s { s.removeDecisions with hold := hold, cleanup := cleanup, pending := pending } where
  accepted := fun _ => rfl
  signalled := fun _ => rfl
  value := rfl
  decisions := nofun
  sender := by
    intro hd
    change (s.sender && !s.decisions) = s.sender
    rcases hd with hd | hd
    · rw [hd, Bool.not_false, Bool.and_true]
    · cases hd
  start := hstart
  listening := hlisten
  answered := hanswered

/-- Only `pending`, the cleanup, or the place of the hold change. -/
theorem Quiet.pending {hold : Hold} {cleanup : Option Removal} {pending : Option ℕ}
    (hstart : hold = .start → s.hold = .start) (hlisten : hold.Listening → s.hold.Listening)
    (hanswered : hold.answered = s.hold.answered) :
    Quiet s { s with hold := hold, cleanup := cleanup, pending := pending } where
  accepted := fun _ => rfl
  signalled := fun _ => rfl
  value := rfl
  decisions := id
  sender := fun _ => rfl
  start := hstart
  listening := hlisten
  answered := hanswered

theorem quiet_of_stepRemove (h : stepRemove s = some s') : Quiet s s' := by
  unfold stepRemove at h
  split at h
  · next waited hhold =>
    cases h
    exact .pending (fun hs => by cases hs) (fun hl => by rcases hl with hl | hl <;> cases hl)
      (by rw [hhold]; rfl)
  · next waited hhold =>
    cases h
    exact .removeDecisions (fun hs => by cases hs) (fun hl => by rcases hl with hl | hl <;> cases hl)
      (by rw [hhold]; rfl)
  · next hhold =>
    cases h
    exact .pending (fun hs => by cases hs) (fun hl => by rcases hl with hl | hl <;> cases hl)
      (by rw [hhold]; rfl)
  · next hhold =>
    cases h
    exact .removeDecisions (fun hs => by cases hs) (fun hl => by rcases hl with hl | hl <;> cases hl)
      (by rw [hhold]; rfl)
  · cases h

theorem quiet_of_stepEvict (h : stepEvict s = some s') : Quiet s s' := by
  unfold stepEvict at h
  split at h
  · cases h
    exact .removeDecisions id id rfl
  · cases h
    exact .pending id id rfl
  · cases h

theorem move_of_step {e : Event} (h : step s e = some s') : Move s e s' := by
  cases e with
  | prepareWait =>
    obtain ⟨hstart, h⟩ := ite_none_right_eq_some.mp h
    cases h
    exact .opened hstart
  | store =>
    obtain ⟨hprepared, h⟩ := ite_none_right_eq_some.mp h
    cases h
    exact .quiet (.pending (fun hs => by cases hs) (fun _ => .inl hprepared) (by rw [hprepared]; rfl))
  | decided =>
    unfold step at h
    dsimp only at h
    split at h
    · next outcome hwait hvalue =>
      cases h
      exact .decided outcome hwait hvalue
    · cases h
  | closed =>
    obtain ⟨⟨hwait, hvalue, hsender⟩, h⟩ := ite_none_right_eq_some.mp h
    cases h
    exact .closed hwait hvalue hsender
  | timeout =>
    obtain ⟨⟨hwait, hvalue⟩, h⟩ := ite_none_right_eq_some.mp h
    cases h
    exact .timeout hwait hvalue
  | shutdown =>
    obtain ⟨hwait, h⟩ := ite_none_right_eq_some.mp h
    cases h
    exact .shutdown hwait
  | disconnect =>
    obtain ⟨hwait, h⟩ := ite_none_right_eq_some.mp h
    cases h
    exact .quiet (.pending (fun hs => by cases hs) (fun _ => .inr hwait) (by rw [hwait]; rfl))
  | remove => exact .quiet (quiet_of_stepRemove h)
  | call =>
    obtain ⟨hidle, h⟩ := ite_none_right_eq_some.mp h
    cases h
    exact .quiet (.setSubmit (by rw [hidle]; rfl) (by rw [hidle]; rfl))
  | take i =>
    unfold step stepTake at h
    dsimp only at h
    split at h
    · next outcome hcalled =>
      split at h
      · next hdecisions =>
        cases h
        exact .taken i outcome hcalled hdecisions
      · cases h
        exact .quiet (.setSubmit (by rw [hcalled]; rfl) (by rw [hcalled]; rfl))
    · cases h
  | signal i =>
    unfold step stepSignal at h
    dsimp only at h
    split at h
    · next outcome hsignalling =>
      cases h
      exact .signalled i outcome hsignalling
    · cases h
  | unlist i =>
    unfold step stepUnlist at h
    dsimp only at h
    split at h
    · next outcome hunlisting =>
      cases h
      exact .unlisted i outcome hunlisting
    · cases h
  | scan =>
    obtain ⟨-, h⟩ := ite_none_right_eq_some.mp h
    cases h
    exact .quiet (.pending id id rfl)
  | evict => exact .quiet (quiet_of_stepEvict h)

theorem Inv.taken (h : Inv s) (hcalled : s.submits i = .called outcome)
    (hdecisions : s.decisions = true) :
    Inv { s.setSubmit i (.signalling outcome) with decisions := false } := by
  have hnone := h.untaken hdecisions
  have hother (j : ℕ) (hj : j ≠ i) :
      (update s.submits i (.signalling outcome) j).accepted = none := by
    rw [update_of_ne hj]
    exact hnone j
  have hsignalled (j : ℕ) :
      (update s.submits i (.signalling outcome) j).signalled = (s.submits j).signalled :=
    update_keeps Submit.signalled (by rw [hcalled]; rfl) j
  have honly (j : ℕ) (hj : (update s.submits i (.signalling outcome) j).accepted ≠ none) :
      j = i := by
    by_contra hne
    exact hj (hother j hne)
  exact {
    unopened := by
      intro hstart
      exact absurd hdecisions (by rw [(h.unopened hstart).1]; decide)
    untaken := nofun
    held := nofun
    unique := fun j k hj hk => (honly j hj).trans (honly k hk).symm
    sender := fun _ _ _ => h.held hdecisions
    value := by
      intro outcome' hvalue
      obtain ⟨j, hj⟩ := h.value outcome' hvalue
      exact ⟨j, (hsignalled j).trans hj⟩
    signalled := fun hlisten j outcome' hj =>
      h.signalled hlisten j outcome' ((hsignalled j).symm.trans hj)
    answered := by
      intro approvedBy hanswer
      obtain ⟨j, hj⟩ := h.answered approvedBy hanswer
      exact absurd (hnone j) hj }

theorem Inv.signalling (h : Inv s) (hsignalling : s.submits i = .signalling outcome) :
    Inv { s.setSubmit i (.unlisting outcome) with
      value := if s.hold.Listening then some outcome else s.value } := by
  have haccepted (j : ℕ) :
      (update s.submits i (.unlisting outcome) j).accepted = (s.submits j).accepted :=
    update_keeps Submit.accepted (by rw [hsignalling]; rfl) j
  have hself : (update s.submits i (.unlisting outcome) i).signalled = some outcome := by
    rw [update_self]
    rfl
  have htaken : (s.submits i).accepted ≠ none := by
    rw [hsignalling]
    exact some_ne_none outcome
  have honly (j : ℕ) {o : DecisionOutcome} (hj : (s.submits j).signalled = some o) : False := by
    have hsame : j = i := by
      refine h.unique j i ?_ htaken
      rw [Submit.accepted_of_signalled hj]
      exact some_ne_none o
    rw [hsame, hsignalling] at hj
    cases hj
  exact {
    unopened := by
      intro hstart
      exact absurd ((h.unopened hstart).2 i) htaken
    untaken := fun hd => absurd (h.untaken hd i) htaken
    held := h.held
    unique := by
      intro j k hj hk
      change (update s.submits i (.unlisting outcome) j).accepted ≠ none at hj
      change (update s.submits i (.unlisting outcome) k).accepted ≠ none at hk
      rw [haccepted] at hj hk
      exact h.unique j k hj hk
    sender := by
      intro j hj hnone
      change (update s.submits i (.unlisting outcome) j).accepted ≠ none at hj
      rw [haccepted] at hj
      have hsame := h.unique j i hj htaken
      rw [hsame] at hnone
      exact absurd (hnone.symm.trans hself) (some_ne_none outcome).symm
    value := by
      intro outcome' hvalue
      split at hvalue
      · exact ⟨i, hself.trans hvalue⟩
      · obtain ⟨j, hj⟩ := h.value outcome' hvalue
        exact (honly j hj).elim
    signalled := by
      intro hlisten j outcome' hj
      change s.hold.Listening at hlisten
      rw [if_pos hlisten]
      by_cases hsame : j = i
      · rw [hsame] at hj
        exact hself.symm.trans hj
      · change (update s.submits i (.unlisting outcome) j).signalled = some outcome' at hj
        rw [update_of_ne hsame] at hj
        exact (honly j hj).elim
    answered := by
      intro approvedBy hanswer
      obtain ⟨j, hj⟩ := h.answered approvedBy hanswer
      exact ⟨j, (haccepted j).symm ▸ hj⟩ }

theorem Inv.unlisting (h : Inv s) (hunlisting : s.submits i = .unlisting outcome) :
    Inv { (s.setSubmit i (.returned outcome true)).removePending with sender := false } := by
  have haccepted (j : ℕ) :
      (update s.submits i (.returned outcome true) j).accepted = (s.submits j).accepted :=
    update_keeps Submit.accepted (by rw [hunlisting]; rfl) j
  have hsignalled (j : ℕ) :
      (update s.submits i (.returned outcome true) j).signalled = (s.submits j).signalled :=
    update_keeps Submit.signalled (by rw [hunlisting]; rfl) j
  have htaken : (s.submits i).accepted ≠ none := by
    rw [hunlisting]
    exact some_ne_none outcome
  exact {
    unopened := by
      intro hstart
      exact absurd ((h.unopened hstart).2 i) htaken
    untaken := fun hd => absurd (h.untaken hd i) htaken
    held := fun hd => absurd (h.untaken hd i) htaken
    unique := by
      intro j k hj hk
      change (update s.submits i (.returned outcome true) j).accepted ≠ none at hj
      change (update s.submits i (.returned outcome true) k).accepted ≠ none at hk
      rw [haccepted] at hj hk
      exact h.unique j k hj hk
    sender := by
      intro j hj hnone
      change (update s.submits i (.returned outcome true) j).accepted ≠ none at hj
      change (update s.submits i (.returned outcome true) j).signalled = none at hnone
      rw [haccepted] at hj
      rw [hsignalled, h.unique j i hj htaken, hunlisting] at hnone
      cases hnone
    value := by
      intro outcome' hvalue
      obtain ⟨j, hj⟩ := h.value outcome' hvalue
      exact ⟨j, (hsignalled j).trans hj⟩
    signalled := fun hlisten j outcome' hj =>
      h.signalled hlisten j outcome' ((hsignalled j).symm.trans hj)
    answered := by
      intro approvedBy hanswer
      obtain ⟨j, hj⟩ := h.answered approvedBy hanswer
      exact ⟨j, (haccepted j).symm ▸ hj⟩ }

theorem Inv.opened (h : Inv s) (hstart : s.hold = .start) :
    Inv { s with decisions := true, value := none, sender := true, hold := .prepared } := by
  have hnone := (h.unopened hstart).2
  exact {
    unopened := fun hs => by cases hs
    untaken := fun _ => hnone
    held := fun _ => rfl
    unique := fun i _ hi _ => absurd (hnone i) hi
    sender := fun i hi _ => absurd (hnone i) hi
    value := fun _ hvalue => by cases hvalue
    signalled := by
      intro _ i outcome hi
      have haccepted := Submit.accepted_of_signalled hi
      exact absurd ((hnone i).symm.trans haccepted) (some_ne_none outcome).symm
    answered := fun _ hanswer => by cases hanswer }

/-- Every step keeps the store's books. -/
theorem Inv.step (h : Inv s) {e : Event} (hstep : step s e = some s') : Inv s' := by
  cases move_of_step hstep with
  | quiet hquiet => exact h.quiet hquiet
  | opened hstart => exact h.opened hstart
  | decided outcome _ hvalue =>
    refine h.ended fun outcome' hread => ?_
    cases hread
    exact hvalue
  | closed _ _ _ | timeout _ _ | shutdown _ => exact h.ended fun _ hread => by cases hread
  | taken i outcome hcalled hdecisions => exact h.taken hcalled hdecisions
  | signalled i outcome hsignalling => exact h.signalling hsignalling
  | unlisted i outcome hunlisting => exact h.unlisting hunlisting

/-- The wait is not cut short behind a call that took the sender, and no call takes the
sender once the wait is over. -/
def InTime (s : State) : Event → Prop
  | .timeout => ∀ i, (s.submits i).accepted = none
  | .shutdown => ∀ i, (s.submits i).accepted = none
  | .take _ => s.decisions = true → s.hold.Listening
  | _ => True

/-- A decision in time is delivered. -/
theorem Delivered.step (h : Delivered s) (hinv : Inv s) {e : Event} (hintime : InTime s e)
    (hstep : InMemory.step s e = some s') : Delivered s' := by
  cases move_of_step hstep with
  | quiet hquiet => exact h.quiet hquiet
  | opened hstart => exact .of_untaken (hinv.unopened hstart).2
  | decided outcome _ hvalue => exact .decided hinv hvalue
  | closed hwait hvalue hsender =>
    refine .of_untaken fun i => ?_
    by_contra haccepted
    cases hsignalled : (s.submits i).signalled with
    | none => exact absurd (hinv.sender i haccepted hsignalled) (by rw [hsender]; decide)
    | some outcome =>
      have hread := hinv.signalled (.inr hwait) i outcome hsignalled
      exact absurd (hvalue.symm.trans hread) (some_ne_none outcome).symm
  | timeout _ _ | shutdown _ => exact .of_untaken hintime
  | taken i outcome hcalled hdecisions =>
    intro j outcome' result _ hresult
    have hnone := Hold.answered_of_listening (hintime hdecisions)
    exact absurd (hnone.symm.trans hresult) (some_ne_none result).symm
  | signalled i outcome hsignalling =>
    intro j outcome' result hj hresult
    refine h j outcome' result ?_ hresult
    exact (update_keeps Submit.accepted (by rw [hsignalling]; rfl) j).symm.trans hj
  | unlisted i outcome hunlisting =>
    intro j outcome' result hj hresult
    refine h j outcome' result ?_ hresult
    exact (update_keeps Submit.accepted (by rw [hunlisting]; rfl) j).symm.trans hj

end Steps

/-- The empty store. -/
theorem inv_init : Inv .init where
  unopened := fun _ => ⟨rfl, fun _ => rfl⟩
  untaken := nofun
  held := nofun
  unique := fun _ _ hi _ => absurd rfl hi
  sender := fun _ hi _ => absurd rfl hi
  value := fun _ hvalue => by cases hvalue
  signalled := fun hlisten => by rcases hlisten with hl | hl <;> cases hl
  answered := fun _ hanswer => by cases hanswer

/-- In every run at most one call returns `true`, and an approved hold has a call behind it
that took the sender. In a run whose steps are all in time, a hold that ends gives exactly the
decision that a call returned `true` for. -/
theorem accepted_decision {es : List Event} {s : State} (hrun : Runs.run step .init es = some s) :
    (∀ i j o o', s.submits i = .returned o true → s.submits j = .returned o' true → i = j) ∧
    ((∀ i, (s.submits i).accepted = none) → ∀ approvedBy, s.hold ≠ .ended (.approved approvedBy)) ∧
    (Runs.Meets step InTime .init es → ∀ i o result, s.submits i = .returned o true →
      s.hold = .ended result → result = answer (.read (some o))) := by
  have hinv : Inv s := Runs.run_invariant step (fun _ _ _ h hstep => h.step hstep) inv_init hrun
  refine ⟨?_, ?_, ?_⟩
  · intro i j o o' hi hj
    refine hinv.unique i j ?_ ?_
    · rw [hi]
      exact Option.some_ne_none o
    · rw [hj]
      exact Option.some_ne_none o'
  · intro hnone approvedBy hended
    obtain ⟨i, hi⟩ := hinv.answered approvedBy (by rw [hended]; rfl)
    exact hi (hnone i)
  · intro hmeets i o result hi hended
    have hboth : Inv s ∧ Delivered s := by
      refine Runs.run_invariant_of_meets step (I := fun s => Inv s ∧ Delivered s) ?_
        ⟨inv_init, .of_untaken fun _ => rfl⟩ hmeets hrun
      exact fun s e s' h hintime hstep => ⟨h.1.step hstep, h.2.step h.1 hintime hstep⟩
    exact hboth.2 i o result (by rw [hi]; rfl) (by rw [hended]; rfl)

/-- An approval without a name to it. -/
def plainApproval : DecisionOutcome := ⟨.approve, none, none⟩

/-- A call takes the sender while the hold waits: the hold is approved. -/
theorem accepted_decision_approved : ∃ s, Runs.run step .init
      [.prepareWait, .store 180, .call 0 plainApproval, .take 0, .signal 0, .decided, .unlist 0,
        .remove, .remove] = some s ∧ s.hold = .ended (answer (.read (some plainApproval))) := by
  refine ⟨_, rfl, ?_⟩
  have hmeets : Runs.Meets step InTime .init
      [.prepareWait, .store 180, .call 0 plainApproval, .take 0, .signal 0, .decided, .unlist 0,
        .remove, .remove] := by
    iterate 3 refine Runs.meets_cons_of_eq step rfl trivial ?_
    refine Runs.meets_cons_of_eq step rfl (fun _ => .inr rfl) ?_
    iterate 4 refine Runs.meets_cons_of_eq step rfl trivial ?_
    exact Runs.meets_cons_of_eq step rfl trivial trivial
  exact congrArg Hold.ended
    ((accepted_decision rfl).2.2 hmeets 0 plainApproval _ rfl rfl)

/-- A call takes the sender between the end of the wait and the removal: the reviewer is told
that the approval is delivered, and the request is refused as expired. -/
theorem accepted_decision_expired : ∃ s, Runs.run step .init
      [.prepareWait, .store 180, .call 0 plainApproval, .timeout, .take 0, .signal 0, .unlist 0,
        .remove, .remove] = some s ∧
    s.submits 0 = .returned plainApproval true ∧ s.hold = .ended (.rejected .expired none) :=
  ⟨_, rfl, rfl, rfl⟩

end Onecli.Approval.InMemory
