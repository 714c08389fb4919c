import Onecli.Gateway.Condition

/-!
# Policy rules and requests

The shapes of `policy-engine/src/types.rs` that the evaluator walks, and the strictness rank.
-/

namespace Onecli.Gateway

/-- `Scope`. -/
inductive Scope where
  | organization
  | workspace
  deriving DecidableEq

/-- `Action`. -/
inductive Action where
  | allow
  | block
  deriving DecidableEq

/-- `RateWindow`. -/
inductive RateWindow where
  | minute
  | hour
  | day
  deriving DecidableEq

/-- `PolicyRequest`. -/
structure PolicyRequest where
  host : Str
  path : Str
  method : Str
  agentId : Str
  userIds : List Str
  groupIds : List Str
  hasInjections : Bool
  isLlmHost : Bool
  winningConnectionId : Option Str

/-- `enforce_deny`: only credentialed traffic to other than LLM hosts can be denied by default. -/
def PolicyRequest.enforceDeny (request : PolicyRequest) : Bool := request.hasInjections && !request.isLlmHost

/-- `Identity`. -/
inductive Identity where
  | agent (id : Str)
  | user (id : Str)
  | group (id : Str)
  | unresolved

/-- `MethodFilter`. -/
inductive MethodFilter where
  | any
  | only (methods : List Str)
  | except (methods : List Str)

/-- `MethodFilter::parse`. -/
def MethodFilter.parse (raw : Option Str) : MethodFilter :=
  let raw := trim (raw.getD [])
  let (isExcept, list) :=
    match raw with
    | '!' :: rest => (true, rest)
    | _ => (false, raw)
  let methods := ((list.splitOn ',').map fun m => toAsciiUppercase (trim m)).filter (!·.isEmpty)
  if methods.isEmpty then .any
  else if isExcept then .except methods
  else .only methods

/-- `MethodFilter::allows`. -/
def MethodFilter.allows (filter : MethodFilter) (method : Str) : Bool :=
  match filter with
  | .any => true
  | .only ms => ms.any (eqIgnoreAsciiCase · method)
  | .except ms => !ms.any (eqIgnoreAsciiCase · method)

/-- `Target`. -/
inductive Target where
  | network (hostPattern : Str) (pathPattern method : Option Str)
  | app (provider : Str) (tools : List Str)
  | connection (id provider : Str) (tools : List Str) (methods : MethodFilter)
  | secret (hostPatterns : List Str)
  | unresolved

/-- `NewRule`. -/
structure NewRule where
  id : Str
  logicalId : Str
  name : Str
  scope : Scope
  priority : ℕ
  isDefault : Bool
  identities : List Identity
  targets : List Target
  action : Action
  requireApproval : Bool
  rateLimit : Option ℕ
  rateLimitWindow : Option RateWindow
  conditions : Option (Json Str)

/-- `strictness_rank`: block 0, approval 1, rate limit 2, plain allow 3. -/
def strictnessRank (rule : NewRule) : ℕ :=
  if rule.action = .block then 0
  else if rule.requireApproval then 1
  else if rule.rateLimit.isSome then 2
  else 3

/-- Ranks are at most three. -/
theorem strictnessRank_le (rule : NewRule) : strictnessRank rule ≤ 3 := by
  unfold strictnessRank
  split_ifs <;> omega

theorem strictnessRank_eq_zero_iff (rule : NewRule) : strictnessRank rule = 0 ↔ rule.action = .block := by
  unfold strictnessRank
  split_ifs with hblock <;> simp [hblock]

/-! ## Decoding the stored rules

`policy-engine/src/assemble.rs` over the rows of `db/src/lib.rs`. A target row says by its
kind which of its columns count; a connection and a secret are resolved through the maps that
were loaded with the rules, and what does not resolve never matches.
-/

/-- `PolicyIdentityRow`. -/
structure PolicyIdentityRow where
  agentId : Option Str
  userId : Option Str
  groupId : Option Str

/-- `PolicyTargetRow`. -/
structure PolicyTargetRow where
  kind : Str
  appProvider : Option Str
  appTools : List Str
  appConnectionScope : Option Str
  appConnectionId : Option Str
  secretId : Option Str
  secretScope : Option Str
  hostPattern : Option Str
  pathPattern : Option Str
  method : Option Str

/-- The CHECK `policy_rule_targets_kind_shape` of the table the rows come from. -/
def KindShape (r : PolicyTargetRow) : Prop :=
  (r.kind = "app".toList ∧ r.appProvider ≠ none ∧ r.appConnectionId = none ∧ r.secretId = none ∧
      r.secretScope = none ∧ r.hostPattern = none) ∨
    (r.kind = "connection".toList ∧ r.appConnectionId ≠ none ∧ r.appProvider = none ∧
      r.appConnectionScope = none ∧ r.secretId = none ∧ r.secretScope = none ∧ r.hostPattern = none) ∨
    (r.kind = "secret".toList ∧ (r.secretId.isSome ^^ r.secretScope.isSome) = true ∧
      r.appProvider = none ∧ r.appConnectionId = none ∧ r.appConnectionScope = none ∧ r.hostPattern = none) ∨
    (r.kind = "network".toList ∧ r.hostPattern ≠ none ∧ r.appProvider = none ∧
      r.appConnectionId = none ∧ r.appConnectionScope = none ∧ r.secretId = none ∧ r.secretScope = none)

/-- `PolicyRuleV2Row`. -/
structure PolicyRuleV2Row where
  id : Str
  logicalId : Str
  name : Str
  source : Str
  priority : ℤ
  isDefault : Bool
  action : Str
  rateLimit : Option ℤ
  rateLimitWindow : Option Str
  requireApproval : Bool
  conditions : Option (Json Str)
  identities : List PolicyIdentityRow
  targets : List PolicyTargetRow

/-- `SecretHosts`. -/
structure SecretHosts where
  byId : List (Str × List Str)
  workspaceHosts : List Str
  orgHosts : List Str

/-- `ConnectionProviders`. -/
structure ConnectionProviders where
  byId : List (Str × Str)

/-- `PrincipalSet`. -/
structure PrincipalSet where
  userIds : List Str
  groupIds : List Str

/-- `PolicyV2Rules`. -/
structure PolicyV2Rules where
  org : List PolicyRuleV2Row
  workspace : List PolicyRuleV2Row
  secretHosts : SecretHosts
  connectionProviders : ConnectionProviders
  principals : PrincipalSet

/-- `decode_identities`, of one row. -/
def decodeIdentity (r : PolicyIdentityRow) : Identity :=
  match r.agentId, r.userId, r.groupId with
  | some id, _, _ => .agent id
  | none, some id, _ => .user id
  | none, none, some id => .group id
  | none, none, none => .unresolved

/-- `secret_target_hosts`. -/
def secretTargetHosts (r : PolicyTargetRow) (secretHosts : SecretHosts) : List Str :=
  match r.secretId, r.secretScope with
  | some id, _ => (secretHosts.byId.lookup id).getD []
  | none, some scope =>
    if scope = "workspace".toList then secretHosts.workspaceHosts
    else if scope = "organization".toList then secretHosts.orgHosts
    else []
  | none, none => []

/-- The provider of a connection row, through the loaded map. -/
def connectionProvider (r : PolicyTargetRow) (providers : ConnectionProviders) : Option Str :=
  r.appConnectionId.bind fun id => providers.byId.lookup id

/-- `decode_targets`, of one row. -/
def decodeTarget (secretHosts : SecretHosts) (providers : ConnectionProviders) (r : PolicyTargetRow) :
    Target :=
  if r.kind = "network".toList then .network (r.hostPattern.getD []) r.pathPattern r.method
  else if r.kind = "app".toList then
    match r.appProvider with
    | some provider => .app provider r.appTools
    | none => .unresolved
  else if r.kind = "connection".toList then
    match r.appConnectionId, connectionProvider r providers with
    | some id, some provider => .connection id provider r.appTools (MethodFilter.parse r.method)
    | _, _ => .unresolved
  else if r.kind = "secret".toList then .secret (secretTargetHosts r secretHosts)
  else .unresolved

/-- `rate_window`. -/
def rateWindow (name : Option Str) : Option RateWindow :=
  if name = some "minute".toList then some .minute
  else if name = some "hour".toList then some .hour
  else if name = some "day".toList then some .day
  else none

/-- `decode_row`; a priority below zero counts as zero and a rate limit has to be positive. -/
def decodeRow (scope : Scope) (secretHosts : SecretHosts) (providers : ConnectionProviders)
    (row : PolicyRuleV2Row) : NewRule where
  id := row.id
  logicalId := row.logicalId
  name := row.name
  scope := scope
  priority := row.priority.toNat
  isDefault := row.isDefault
  identities := row.identities.map decodeIdentity
  targets := row.targets.map (decodeTarget secretHosts providers)
  action := if row.action = "block".toList then .block else .allow
  requireApproval := row.requireApproval
  rateLimit := (row.rateLimit.map Int.toNat).filter (0 < ·)
  rateLimitWindow := rateWindow row.rateLimitWindow
  conditions := row.conditions

/-- The rows that the block and allow engine sees. -/
def enforcedRows (rows : List PolicyRuleV2Row) : List PolicyRuleV2Row := rows.filter (·.source ≠ "equipment".toList)

/-- `assemble_v2`. -/
def assembleV2 (orgRows workspaceRows : List PolicyRuleV2Row) (secretHosts : SecretHosts)
    (providers : ConnectionProviders) : List NewRule :=
  (enforcedRows orgRows).map (decodeRow .organization secretHosts providers) ++
    (enforcedRows workspaceRows).map (decodeRow .workspace secretHosts providers)

/-- The assembled rules of a loaded rule set. -/
def PolicyV2Rules.rules (v2 : PolicyV2Rules) : List NewRule :=
  assembleV2 v2.org v2.workspace v2.secretHosts v2.connectionProviders

/-- A rule is decoded from a row. -/
theorem exists_row_of_mem_rules {v2 : PolicyV2Rules} {rule : NewRule} (h : rule ∈ v2.rules) :
    ∃ scope, ∃ row ∈ v2.org ++ v2.workspace, row.source ≠ "equipment".toList ∧
      rule = decodeRow scope v2.secretHosts v2.connectionProviders row := by
  have hmem {rows : List PolicyRuleV2Row} {row : PolicyRuleV2Row} (hrow : row ∈ enforcedRows rows) :
      row ∈ rows ∧ row.source ≠ "equipment".toList := by
    rw [enforcedRows, List.mem_filter, decide_eq_true_eq] at hrow
    exact hrow
  rw [PolicyV2Rules.rules, assembleV2, List.mem_append, List.mem_map, List.mem_map] at h
  rcases h with ⟨row, hrow, rfl⟩ | ⟨row, hrow, rfl⟩
  · exact ⟨.organization, row, List.mem_append_left _ (hmem hrow).1, (hmem hrow).2, rfl⟩
  · exact ⟨.workspace, row, List.mem_append_right _ (hmem hrow).1, (hmem hrow).2, rfl⟩

end Onecli.Gateway
