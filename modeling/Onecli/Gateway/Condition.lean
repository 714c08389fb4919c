import Onecli.Json
import Onecli.Gateway.Matchers

/-!
# Conditions and requests

`policy/src/condition_match.rs`: a rule's conditions are a JSON array of body matchers; an
object there is the resource scope of a connection and carries no condition. A value not
found in a truncated body is unknown, and the polarity of the rule decides: a restrictive
rule takes it as found, a permissive one as missing. `policy/src/lib.rs`: `matches_request`,
the matcher that the policy engine calls for every network pattern and every catalog tool. The
path matcher runs first, so the matcher panics exactly where the path matcher does.
-/

namespace Onecli.Gateway

/-- `ConditionBody`: the request body as condition matching sees it. -/
inductive ConditionBody where
  | none
  | full (bytes : List UInt8)
  | truncated (bytes : List UInt8)

/-- `ConditionBody::bytes`. -/
def ConditionBody.bytes : ConditionBody → Option (List UInt8)
  | .none => Option.none
  | .full bytes => some bytes
  | .truncated bytes => some bytes

/-- `ConditionBody::is_truncated`. -/
def ConditionBody.isTruncated : ConditionBody → Bool
  | .truncated _ => true
  | _ => false

/-- `PolicyAction`. -/
inductive PolicyAction where
  | block
  | rateLimit (ruleId : Str) (maxRequests windowSecs : ℕ)
  | manualApproval (ruleId : Str)
  | allow
  deriving DecidableEq

/-- `RawCondition`; the parsed condition keeps the value folded. -/
structure ParsedCondition where
  target : Str
  operator : Str
  valueLower : Str

/-- One condition as serde reads it: an object with the three texts, or an array of them. -/
def rawCondition : Json Str → Option ParsedCondition
  | .arr [.str target, .str operator, .str value] => some ⟨target, operator, toAsciiLowercase value⟩
  | .obj members => do
    let target ← ((Json.obj members).get "target".toList).bind Json.asStr
    let operator ← ((Json.obj members).get "operator".toList).bind Json.asStr
    let value ← ((Json.obj members).get "value".toList).bind Json.asStr
    return ⟨target, operator, toAsciiLowercase value⟩
  | _ => none

/-- `parse_conditions`: `none` for a scope object, a malformed list and an empty one. -/
def parseConditions (raw : Json Str) : Option (List ParsedCondition) :=
  match raw with
  | .arr items =>
    match items.mapM rawCondition with
    | none => none
    | some conditions => if conditions.isEmpty then none else some conditions
  | _ => none

/-- `contains_value`. -/
def containsValue (bytes : List UInt8) (valueLower : Str) : Bool :=
  containsStr (toAsciiLowercase (fromUtf8Lossy bytes)) valueLower

/-- `condition_matches`. -/
def conditionMatches (condition : ParsedCondition) (body : ConditionBody) (restrictive : Bool) : Bool :=
  if condition.target = "body".toList ∧ condition.operator = "contains".toList then
    match body with
    | .none => false
    | .full bytes => containsValue bytes condition.valueLower
    | .truncated bytes => containsValue bytes condition.valueLower || restrictive
  else true

/-- `condition_match::matches`, of a rule's conditions and action. -/
def conditionsMatch (conditionsRaw : Option (Json Str)) (action : PolicyAction) (body : ConditionBody) :
    Bool :=
  match conditionsRaw.bind parseConditions with
  | none => true
  | some conditions => conditions.all (conditionMatches · body (action ≠ .allow))

theorem conditionsMatch_of_parse_none {conditionsRaw : Option (Json Str)}
    (h : conditionsRaw.bind parseConditions = none) (action : PolicyAction) (body : ConditionBody) :
    conditionsMatch conditionsRaw action body = true := by
  rw [conditionsMatch, h]

/-- A restrictive rule matches whatever is cut. -/
theorem conditionsMatch_truncated_restrictive (conditionsRaw : Option (Json Str))
    {action : PolicyAction} (haction : action ≠ .allow) (bytes : List UInt8) :
    conditionsMatch conditionsRaw action (.truncated bytes) = true := by
  rw [conditionsMatch]
  cases conditionsRaw.bind parseConditions with
  | none => rfl
  | some =>
    refine List.all_eq_true.mpr fun condition _ => ?_
    rw [conditionMatches]
    split
    · simp [haction]
    · rfl

/-! ## The request matcher -/

open CodeUnits

/-- `PolicyRule`; its name is not read by the matcher. -/
structure PolicyRule where
  pathPattern : Str
  method : Option Str
  action : PolicyAction
  conditionsRaw : Option (Json Str)

/-- The two pack services of Git over HTTPS. -/
def packServices : List Str := ["git-receive-pack".toList, "git-upload-pack".toList]

/-- `is_git_discovery`: `/info/refs?service=<service>`. -/
def isGitDiscovery (path service : Str) : Bool :=
  let (base, query) := (splitOnce '?' path).getD (path, [])
  ("/info/refs".toList).isSuffixOf base &&
    (query.splitOn '&').any fun p => p == "service=".toList ++ service

/-- A rule on the endpoint of a pack service also covers its discovery request. -/
def gitBridge (rule : PolicyRule) (method path : Str) : Bool :=
  eqIgnoreAsciiCase method "GET".toList &&
    packServices.any fun service =>
      ('/' :: service).isSuffixOf rule.pathPattern && isGitDiscovery path service

/-- `matches_request`. -/
def matchesRequest (rule : PolicyRule) (method path : Str) (body : ConditionBody) : Option Bool := do
  let onPath ← pathMatches path rule.pathPattern
  let conditionsHold := conditionsMatch rule.conditionsRaw rule.action body
  let direct := onPath && rule.method.all (eqIgnoreAsciiCase · method) && conditionsHold
  if direct then return true
  if gitBridge rule method path then return conditionsHold
  return false

/-- The path and the method of a rule cover the request, directly or as a discovery. -/
def endpointCovers (rule : PolicyRule) (method path : Str) : Bool :=
  (pathMatchesAnswer path rule.pathPattern && rule.method.all (eqIgnoreAsciiCase · method)) ||
    gitBridge rule method path

/-- The matcher panics exactly with the path pattern, and else joins two answers that do not
depend on each other: the endpoint, and the conditions on the body. -/
theorem matchesRequest_eq (rule : PolicyRule) (method path : Str) (body : ConditionBody) :
    matchesRequest rule method path body =
      if EndsInAscii rule.pathPattern then
        some (endpointCovers rule method path && conditionsMatch rule.conditionsRaw rule.action body)
      else none := by
  unfold matchesRequest
  rw [pathMatches_eq]
  by_cases hascii : EndsInAscii rule.pathPattern
  · simp only [hascii, ↓reduceIte, Option.bind_eq_bind, Option.bind_some, endpointCovers]
    cases conditionsMatch rule.conditionsRaw rule.action body <;> cases gitBridge rule method path <;>
      cases pathMatchesAnswer path rule.pathPattern <;> cases rule.method.all (eqIgnoreAsciiCase · method) <;> rfl
  · simp only [hascii, ↓reduceIte]
    rfl

theorem matchesRequest_congr {rule : PolicyRule} {body body' : ConditionBody}
    (h : conditionsMatch rule.conditionsRaw rule.action body =
      conditionsMatch rule.conditionsRaw rule.action body') (method path : Str) :
    matchesRequest rule method path body = matchesRequest rule method path body' := by
  rw [matchesRequest_eq, matchesRequest_eq, h]

end Onecli.Gateway
