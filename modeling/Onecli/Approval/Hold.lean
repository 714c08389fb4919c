import Onecli.Gateway.Text

/-!
# How a held request ends

`approval/src/lib.rs` and `approval/src/hold.rs`: a reviewer's decision, the end of the wait
for it, and the answer that `hold` makes of that end. Both stores share them.
-/

namespace Onecli.Approval

open Gateway (Str)

/-- `ApprovalDecision`. -/
inductive ApprovalDecision where
  | approve
  | deny
  deriving DecidableEq

/-- `DenyReason`. -/
inductive DenyReason where
  | superseded
  deriving DecidableEq

/-- `DecisionOutcome`. -/
structure DecisionOutcome where
  decision : ApprovalDecision
  approvedBy : Option Str
  reason : Option DenyReason
  deriving DecidableEq

/-- `DecisionWaitError`. -/
inductive DecisionWaitError where
  | connection
  | invalidDecision
  | receive
  deriving DecidableEq

/-- `Rejection`. -/
inductive Rejection where
  | declined
  | expired
  | superseded
  deriving DecidableEq

/-- `HoldOutcome`. -/
inductive HoldOutcome where
  | approved (approvedBy : Option Str)
  | rejected (rejection : Rejection) (decidedBy : Option Str)
  | storeUnavailable
  | waitFailed (error : DecisionWaitError)
  | shuttingDown
  deriving DecidableEq

/-- `waited` of `hold`: what ended the wait. -/
inductive Waited where
  | shutdown
  | failed (error : DecisionWaitError)
  | read (outcome : Option DecisionOutcome)
  deriving DecidableEq

/-- The answer at the end of `hold`. -/
def answer : Waited → HoldOutcome
  | .shutdown => .shuttingDown
  | .failed error => .waitFailed error
  | .read (some o) =>
    if o.decision = .approve then .approved o.approvedBy
    else .rejected (match o.reason with
      | some .superseded => .superseded
      | none => .declined) o.approvedBy
  | .read none => .rejected .expired none

theorem answer_eq_approved {waited : Waited} {approvedBy : Option Str}
    (h : answer waited = .approved approvedBy) : ∃ o, waited = .read (some o) := by
  cases waited with
  | shutdown => cases h
  | failed => cases h
  | read outcome =>
    cases outcome with
    | none => cases h
    | some o => exact ⟨o, rfl⟩

end Onecli.Approval
