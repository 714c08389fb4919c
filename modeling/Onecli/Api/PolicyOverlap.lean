import Onecli.Api.Evaluator

/-!
# Overlap warnings

`lib/policy-overlap.ts`: which rules of one level can never take effect, read off the rules as
the API answers them. The engine reads the same rows through `policy-simulate/sim-rule.ts`,
once their connections and secrets are resolved. A row of a connection target stores a method
filter that the answered rule does not carry.
-/

namespace Onecli.Api

open Gateway (Scope Action RateWindow)
open Utf16

/-! ## Stored rules -/

/-- A `PolicyRuleTarget` row, by its kind. -/
inductive TargetRow where
  | app (appProvider : JsString) (appTools : List JsString) (appConnectionScope : Option JsString)
  | connection (appConnectionId : JsString) (appTools : List JsString) (method : Option JsString)
  | secret (secretId secretScope : Option JsString)
  | network (hostPattern : JsString) (pathPattern method : Option JsString)

/-- A `PolicyRuleV2` row of one level, with its identities and targets. -/
structure PolicyRuleRow where
  id : JsString
  logicalId : JsString
  scope : Scope
  priority : ℕ
  enabled : Bool
  isDefault : Bool
  name : JsString
  action : Action
  requireApproval : Bool
  rateLimit : Option ℕ
  rateLimitWindow : Option JsString
  identities : List (NewIdentity JsString)
  targets : List TargetRow
  conditions : Json JsString

/-- One condition, when its target, operator and value are strings. -/
def parseCondition (c : Json JsString) : Option (OldCondition JsString) := do
  let target ← (c.get (js "target")).bind Json.asStr
  let operator ← (c.get (js "operator")).bind Json.asStr
  let value ← (c.get (js "value")).bind Json.asStr
  return ⟨target, operator, value⟩

/-- The all-or-nothing reading of stored conditions. -/
def decodeConditions (conditions : Json JsString) : Option (List (OldCondition JsString)) :=
  match conditions with
  | .arr items => items.mapM parseCondition
  | _ => none

/-- `SecretHostSet`. -/
structure SecretHostSet where
  byId : JsString → Option JsString
  workspaceHosts : List JsString
  orgHosts : List JsString

/-- What connections and secrets resolve to. -/
structure Resolution where
  secretHosts : SecretHostSet
  connectionProviders : JsString → Option JsString

/-- `secretTargetHosts`. -/
def secretTargetHosts (secretHosts : SecretHostSet) (secretId secretScope : Option JsString) :
    List JsString :=
  match secretId.filter (!·.isEmpty) with
  | some id => (secretHosts.byId id).toList
  | none =>
    if secretScope = some (js "workspace") then secretHosts.workspaceHosts
    else if secretScope = some (js "organization") then secretHosts.orgHosts
    else []

/-- `appConnectionScope` as the engine reads it. -/
def decodeScope (scope : Option JsString) : Option Scope :=
  if scope = some (js "organization") then some .organization
  else if scope = some (js "workspace") then some .workspace
  else none

/-- `decodeTarget`. -/
def decodeTarget (res : Resolution) : TargetRow → NewTarget JsString
  | .app appProvider appTools appConnectionScope =>
    if appProvider.isEmpty then .connection [] none [] none
    else .app appProvider appTools (decodeScope appConnectionScope)
  | .connection appConnectionId appTools method =>
    match if appConnectionId.isEmpty then none else res.connectionProviders appConnectionId with
    | some provider => .connection appConnectionId (some provider) appTools (method.filter (!·.isEmpty))
    | none => .connection appConnectionId none [] none
  | .secret secretId secretScope => .secret (secretTargetHosts res.secretHosts secretId secretScope)
  | .network hostPattern pathPattern method => .network hostPattern pathPattern method

/-- The window of a stored rate limit. -/
def decodeWindow (window : Option JsString) : Option RateWindow :=
  if window = some (js "minute") then some .minute
  else if window = some (js "hour") then some .hour
  else if window = some (js "day") then some .day
  else none

/-- `toSimRule`: a row as the engine reads it. -/
def toSimRule (res : Resolution) (row : PolicyRuleRow) : NewRule JsString where
  id := row.id
  logicalId := row.logicalId
  name := row.name
  scope := row.scope
  priority := row.priority
  isDefault := row.isDefault
  identities := row.identities
  targets := row.targets.map (decodeTarget res)
  action := row.action
  requireApproval := row.requireApproval
  rateLimit := row.rateLimit
  rateLimitWindow := decodeWindow row.rateLimitWindow
  conditions := decodeConditions row.conditions

/-- The rules that the first-match walk of the level reads: enabled rows alone are loaded, and
the Default Rule is put aside. -/
def levelRules (res : Resolution) (rows : List PolicyRuleRow) : List (NewRule JsString) :=
  ((rows.filter (·.enabled)).map (toSimRule res)).filter fun rule => !rule.isDefault

/-! ## Answered rules -/

/-- `OverlapTarget`. -/
inductive OverlapTarget where
  | app (provider : JsString) (tools : List JsString) (connectionScope : Option JsString)
  | connection (connectionId : JsString) (tools : List JsString)
  | secret (secretId secretScope : Option JsString)
  | network (hostPattern : JsString) (pathPattern method : Option JsString)

/-- `OverlapRule`. -/
structure OverlapRule where
  logicalId : JsString
  isDefault : Bool
  enabled : Bool
  priority : ℕ
  name : JsString
  action : Action
  requireApproval : Bool
  rateLimit : Option ℕ
  rateLimitWindow : Option JsString
  identities : List (NewIdentity JsString)
  targets : List OverlapTarget
  conditions : Json JsString

/-- `toTargetDto`: the method filter of a connection is not answered. -/
def toTargetDto : TargetRow → OverlapTarget
  | .app appProvider appTools appConnectionScope => .app appProvider appTools appConnectionScope
  | .connection appConnectionId appTools _ => .connection appConnectionId appTools
  | .secret secretId secretScope => .secret secretId secretScope
  | .network hostPattern pathPattern method => .network hostPattern pathPattern method

/-- `toRuleDto`, with what the analysis reads of it. -/
def toRuleDto (row : PolicyRuleRow) : OverlapRule where
  logicalId := row.logicalId
  isDefault := row.isDefault
  enabled := row.enabled
  priority := row.priority
  name := row.name
  action := row.action
  requireApproval := row.requireApproval
  rateLimit := row.rateLimit
  rateLimitWindow := row.rateLimitWindow
  identities := row.identities
  targets := row.targets.map toTargetDto
  conditions := row.conditions

/-! ## Signatures -/

/-- `xs.sort().join(separator)`: the default sort compares code units. -/
def sortJoin (separator : JsString) (xs : List JsString) : JsString :=
  separator.intercalate (xs.insertionSort (· ≤ ·))

/-- The key `type:id` of an identity. -/
def identityKey : NewIdentity JsString → JsString
  | .agent id => js "agent:" ++ id
  | .user id => js "user:" ++ id
  | .group id => js "group:" ++ id

/-- `identitySig`. -/
def identitySig (r : OverlapRule) : JsString := sortJoin (js ",") (r.identities.map identityKey)

/-- `targetEntry`. -/
def targetEntry : OverlapTarget → JsString
  | .app provider tools connectionScope =>
    js "app|" ++ provider ++ js "|" ++ sortJoin (js "+") tools ++ js "|" ++ connectionScope.getD []
  | .connection connectionId tools => js "connection|" ++ connectionId ++ js "|" ++ sortJoin (js "+") tools
  | .secret secretId secretScope => js "secret|" ++ secretId.getD [] ++ js "|" ++ secretScope.getD []
  | .network hostPattern pathPattern method =>
    js "network|" ++ hostPattern ++ js "|" ++ pathPattern.getD [] ++ js "|" ++ method.getD []

/-- `targetSig`. -/
def targetSig (r : OverlapRule) : JsString := sortJoin (js ",") (r.targets.map targetEntry)

/-- The entry `target|operator|value` of a condition. -/
def conditionEntry (c : OldCondition JsString) : JsString := c.target ++ js "|" ++ c.operator ++ js "|" ++ c.value

/-- `conditionSet`; conditions that do not decode are no conditions. -/
def conditionSet (conditions : Json JsString) : List JsString :=
  (((decodeConditions conditions).getD []).map conditionEntry).eraseDups

/-- `conditionSig`. -/
def conditionSig (r : OverlapRule) : JsString := sortJoin (js ",") (conditionSet r.conditions)

/-- `matchSig`. -/
def matchSig (r : OverlapRule) : JsString := identitySig r ++ js "\n" ++ targetSig r ++ js "\n" ++ conditionSig r

/-- `verdictSig`. -/
def verdictSig (r : OverlapRule) : JsString :=
  (if r.action = .allow then js "allow" else js "block") ++ js "|" ++
    (if r.requireApproval then js "true" else js "false") ++ js "|" ++
    (r.rateLimit.map fun n => js (toString n)).getD [] ++ js "|" ++ r.rateLimitWindow.getD []

/-! ## Covers -/

/-- `conditionsCover`. -/
def conditionsCover (r1 r2 : OverlapRule) : Bool :=
  (conditionSet r1.conditions).all (conditionSet r2.conditions).contains

/-- `identitiesCover`. -/
def identitiesCover (r1 r2 : OverlapRule) : Bool :=
  if r1.identities.length = 0 then true
  else if r2.identities.length = 0 then false
  else r2.identities.all fun i => (r1.identities.map identityKey).contains (identityKey i)

/-- `hasInjectionEffect`. -/
def hasInjectionEffect (r : OverlapRule) : Bool :=
  r.action == .allow && r.targets.any fun
    | .connection .. | .secret .. => true
    | .app _ _ connectionScope => connectionScope.isSome
    | .network .. => false

/-- `ignoresConditions`. -/
def ignoresConditions : OverlapTarget → Bool
  | .app _ tools _ => tools.length == 0
  | .secret .. | .connection .. => true
  | .network .. => false

/-- `isUniversal`. -/
def isUniversal : OverlapTarget → Bool
  | .network hostPattern pathPattern method =>
    hostPattern == js "*" && (pathPattern == none || pathPattern == some (js "*")) && method == none
  | _ => false

/-- `hostCover`. -/
def hostCover (pattern1 pattern2 : JsString) : Bool :=
  if pattern1 = js "*" then true
  else if asciiLower pattern1 = asciiLower pattern2 then true
  else !pattern2.contains (unit '*') && hostMatches pattern2 pattern1

/-- `isGitPackPattern`, over `GIT_PACK_SUFFIXES`. -/
def isGitPackPattern (p : JsString) : Bool := [js "/git-receive-pack", js "/git-upload-pack"].any (·.isSuffixOf p)

/-- `methodEq`. -/
def methodEq (m1 : JsString) (m2 : Option JsString) : Bool := m2.any fun m2 => asciiLower m1 == asciiLower m2

/-- `t1.method === null || methodEq(t1.method, t2.method)`. -/
def methodCover (m1 m2 : Option JsString) : Bool := m1.all (methodEq · m2)

/-- A path pattern that takes every path: absent or `*`. -/
def anyPath (p : Option JsString) : Bool := p == none || p == some (js "*")

/-- `networkCover`. -/
def networkCover (host1 : JsString) (p1 m1 : Option JsString) (host2 : JsString)
    (p2 m2 : Option JsString) : Bool :=
  if !hostCover host1 host2 then false
  -- a pattern on a Git pack service also takes its discovery request, whatever its method
  else if p2.any isGitPackPattern then (anyPath p1 && m1 == none) || (p1 == p2 && methodCover m1 m2)
  else if !(anyPath p1 || p2.any fun pattern2 => p1.any fun pattern1 =>
      pattern1 == pattern2 || (!pattern2.contains (unit '*') && !isGitPackPattern pattern1 &&
        pathMatches pattern2 pattern1)) then false
  else methodCover m1 m2

/-- `targetCover`. -/
def targetCover (t1 t2 : OverlapTarget) : Bool :=
  if isUniversal t1 then true
  else match t1, t2 with
  | .network host1 p1 m1, .network host2 p2 m2 => networkCover host1 p1 m1 host2 p2 m2
  | .app provider1 tools1 _, .app provider2 tools2 _ =>
    provider1 == provider2 && (tools1.length == 0 ||
      (decide (0 < tools2.length) && tools2.all tools1.contains))
  | _, _ => false

/-- `ruleCovers`; every kind of target is live. -/
def ruleCovers (r1 r2 : OverlapRule) : Bool :=
  if !identitiesCover r1 r2 then false
  else if !conditionsCover r1 r2 then false
  else if r2.targets.length = 0 then false
  else if r2.targets.any ignoresConditions && decide (0 < (conditionSet r1.conditions).length) then
    false
  else r2.targets.all fun t2 => r1.targets.any fun t1 => targetCover t1 t2

/-! ## The analysis -/

/-- The kind of an `OverlapWarning`. -/
inductive OverlapKind where
  | duplicate
  | conflict
  | shadowed
  deriving DecidableEq

/-- `OverlapWarning`. -/
structure OverlapWarning where
  logicalId : JsString
  kind : OverlapKind
  byLogicalId : JsString
  byName : JsString
  deriving DecidableEq

/-- The warning that `r` never takes effect because of `head`. -/
def OverlapWarning.about (r : OverlapRule) (kind : OverlapKind) (head : OverlapRule) : OverlapWarning :=
  ⟨r.logicalId, kind, head.logicalId, head.name⟩

/-- `ordered`: the live rules by priority. -/
def orderedRules (rules : List OverlapRule) : List OverlapRule :=
  (rules.filter fun r => r.enabled && !r.isDefault).insertionSort fun a b => a.priority ≤ b.priority

/-- The first loop: the first rule of each signature, and the warnings so far. -/
structure Twins where
  firstBySig : List OverlapRule
  warnings : List OverlapWarning

/-- One round of the first loop. -/
def Twins.visit (s : Twins) (r : OverlapRule) : Twins :=
  match s.firstBySig.find? fun head => matchSig head == matchSig r with
  | none => { s with firstBySig := s.firstBySig ++ [r] }
  | some head =>
    let kind := if verdictSig head = verdictSig r then .duplicate else .conflict
    -- an allow that keeps injecting behind a block is not reported
    if kind = .conflict ∧ head.action ≠ r.action ∧ hasInjectionEffect r = true then s
    else { s with warnings := s.warnings ++ [.about r kind head] }

/-- The second loop: the rules walked, and the warnings so far. -/
structure Shadows where
  earlier : List OverlapRule
  warnings : List OverlapWarning

/-- One round of the second loop; `warned` holds the rules of the warnings. -/
def Shadows.visit (s : Shadows) (r2 : OverlapRule) : Shadows :=
  { earlier := s.earlier ++ [r2]
    warnings :=
      if s.warnings.any (·.logicalId == r2.logicalId) || hasInjectionEffect r2 then s.warnings
      else match s.earlier.find? (ruleCovers · r2) with
        | none => s.warnings
        | some r1 => s.warnings ++ [.about r2 .shadowed r1] }

/-- `findPolicyOverlaps`. -/
def findPolicyOverlaps (rules : List OverlapRule) : List OverlapWarning :=
  let ordered := orderedRules rules
  let twins := ordered.foldl Twins.visit ⟨[], []⟩
  (ordered.foldl Shadows.visit ⟨[], twins.warnings⟩).warnings

end Onecli.Api
