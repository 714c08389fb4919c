import Mathlib.Data.List.Dedup
import Onecli.Json

/-!
# Edits of a rule

`getPolicyRule` and `updatePolicyRule` of `policy-service.ts` on one stored draft rule: a row is read into targets and
identities, and what is sent back is deduplicated and written into fresh rows. `connectionTarget` of
`grants-service.ts` writes a column that the reading does not carry. Whom and what a rule may name, the paid plan
and the publish are `Checks`.
-/

namespace Onecli.Api.RuleEdits

open List Option

/-- What is thrown. -/
inductive Failure where
  | service (code message : String)
  | error (message : String)

inductive TargetKind where
  | app | connection | secret | network
  deriving DecidableEq

inductive Action where
  | allow | block
  deriving DecidableEq

/-- A row of `policy_rule_identities`. -/
structure IdentityRow where
  agentId : Option String := none
  userId : Option String := none
  groupId : Option String := none

/-- A row of `policy_rule_targets`. -/
structure TargetRow where
  kind : TargetKind
  appProvider : Option String := none
  appTools : List String := []
  appConnectionScope : Option String := none
  appConnectionId : Option String := none
  secretId : Option String := none
  secretScope : Option String := none
  hostPattern : Option String := none
  pathPattern : Option String := none
  method : Option String := none
  deriving DecidableEq

/-- `PolicyIdentityInput`. -/
inductive IdentityInput where
  | agent (id : String)
  | user (id : String)
  | group (id : String)

/-- `PolicyTargetInput`, also `PolicyTargetDto`: a missing field is read as null. -/
inductive TargetInput where
  | app (provider : String) (tools : List String) (connectionScope : Option String)
  | connection (connectionId : String) (tools : List String)
  | secret (secretId secretScope : Option String)
  | network (hostPattern : String) (pathPattern method : Option String)

/-- The columns of `policy_rules_v2` that an edit may write. -/
structure RuleColumns where
  name : String
  description : Option String
  enabled : Bool
  action : Action
  rateLimit : Option ℕ
  rateLimitWindow : Option String
  requireApproval : Bool
  conditions : Json String

/-- A stored rule. -/
structure RuleRow extends RuleColumns where
  identities : List IdentityRow
  targets : List TargetRow

/-- `PolicyRuleDto`. -/
structure RuleDto extends RuleColumns where
  identities : List IdentityInput
  targets : List TargetInput

/-- `UpdatePolicyRuleInput`: `none` is `undefined`. -/
structure UpdateInput where
  name : Option String := none
  description : Option (Option String) := none
  enabled : Option Bool := none
  action : Option Action := none
  rateLimit : Option (Option ℕ) := none
  rateLimitWindow : Option (Option String) := none
  requireApproval : Option Bool := none
  conditions : Option (Json String) := none
  identities : Option (List IdentityInput) := none
  targets : Option (List TargetInput) := none

/-! ## Reading and writing -/

/-- A string that JavaScript takes for true. -/
def truthy (value : Option String) : Option String := value.filter (· ≠ "")

/-- The two levels of a scope column. -/
def isLevel (scope : String) : Bool := scope == "organization" || scope == "workspace"

/-- `toIdentityDto`. -/
def toIdentityDto (row : IdentityRow) : Except Failure IdentityInput :=
  match truthy row.agentId, truthy row.userId, truthy row.groupId with
  | some id, _, _ => .ok (.agent id)
  | none, some id, _ => .ok (.user id)
  | none, none, some id => .ok (.group id)
  | none, none, none => .error (.error "policy identity row names no principal")

/-- `toTargetDto`. -/
def toTargetDto (row : TargetRow) : Except Failure TargetInput :=
  match row.kind with
  | .app =>
    match truthy row.appProvider with
    | none => .error (.error "app target missing provider")
    | some provider => .ok (.app provider row.appTools (row.appConnectionScope.filter isLevel))
  | .connection =>
    match truthy row.appConnectionId with
    | none => .error (.error "connection target missing id")
    | some connectionId => .ok (.connection connectionId row.appTools)
  | .secret =>
    match row.secretScope.filter isLevel with
    | some secretScope => .ok (.secret none (some secretScope))
    | none =>
      match truthy row.secretId with
      | none => .error (.error "secret target missing id or scope")
      | some secretId => .ok (.secret (some secretId) none)
  | .network =>
    match truthy row.hostPattern with
    | none => .error (.error "network target missing host")
    | some hostPattern => .ok (.network hostPattern row.pathPattern row.method)

/-- `toRuleDto`, which `getPolicyRule` answers. -/
def toRuleDto (row : RuleRow) : Except Failure RuleDto := do
  let identities ← row.identities.mapM toIdentityDto
  let targets ← row.targets.mapM toTargetDto
  return { row.toRuleColumns with identities, targets }

/-- `identityCreate`. -/
def identityCreate : IdentityInput → IdentityRow
  | .agent id => { agentId := some id }
  | .user id => { userId := some id }
  | .group id => { groupId := some id }

/-- `targetCreate`. -/
def targetCreate : TargetInput → TargetRow
  | .app provider tools connectionScope =>
    { kind := .app, appProvider := some provider, appTools := tools, appConnectionScope := connectionScope }
  | .connection connectionId tools => { kind := .connection, appConnectionId := some connectionId, appTools := tools }
  | .secret (some secretId) _ => { kind := .secret, secretId := some secretId }
  | .secret none secretScope => { kind := .secret, secretScope }
  | .network hostPattern pathPattern method =>
    { kind := .network, hostPattern := some hostPattern, pathPattern, method }

/-- `connectionTarget` of a grant. -/
def connectionTarget (connectionId : String) (tools : List String) (method : Option String) : TargetRow :=
  { kind := .connection, appConnectionId := some connectionId, appTools := tools, method := truthy method }

/-- A filter that keeps the first item of each key, and every item without one. -/
def dedupe {α κ : Type} [DecidableEq κ] (key : α → Option κ) (seen : List κ) : List α → List α
  | [] => []
  | item :: items =>
    match key item with
    | none => item :: dedupe key seen items
    | some k => if k ∈ seen then dedupe key seen items else item :: dedupe key (k :: seen) items

/-- `dedupeIdentities`. -/
def dedupeIdentities : List IdentityInput → List IdentityInput :=
  dedupe (fun
    | .agent id => some s!"agent:{id}"
    | .user id => some s!"user:{id}"
    | .group id => some s!"group:{id}") []

/-- The key of a target that references a connection or a secret. -/
def targetKey : TargetInput → Option (String ⊕ String)
  | .connection connectionId _ => some (.inl connectionId)
  | .secret (some secretId) _ => some (.inr secretId)
  | _ => none

/-- `dedupeTargets`. -/
def dedupeTargets : List TargetInput → List TargetInput := dedupe targetKey []

/-- `gatedActions`, of what the input enables. -/
def gatedActions (input : UpdateInput) : List String :=
  (if input.requireApproval = some true then ["manual_approval"] else []) ++
  (if input.rateLimit.join.isSome then ["rate_limit"] else []) ++
  (if (input.identities.getD []).any (fun | .agent _ => false | _ => true) then ["identity_directory"] else []) ++
  (if (input.identities.getD []).any (fun | .group _ => true | _ => false) then ["identity_directory_group"] else [])

/-- The other checks of an update, and the transaction with its publish. -/
structure Checks where
  assertIdentitiesValid : List IdentityInput → Except Failure Unit
  assertTargetsValid : List TargetInput → Except Failure Unit
  validateTargets : List TargetInput → Except Failure Unit
  assertSessionPolicyValid : List TargetInput → Json String → Action → Except Failure Unit
  assertAllowed : List String → Except Failure Unit
  commit : RuleRow → Except Failure Unit

variable (checks : Checks) (row : RuleRow) (input : UpdateInput)

/-- The checks of `updatePolicyRule`, in their order. -/
def Checks.assertUpdate : Except Failure Unit := do
  let nextAction := input.action.getD row.action
  let nextRateLimit := input.rateLimit.getD row.rateLimit
  let nextWindow := input.rateLimitWindow.getD row.rateLimitWindow
  if nextAction = .block ∧ (nextRateLimit.isSome ∨ nextWindow.isSome ∨ input.requireApproval.getD row.requireApproval) then
    throw (.service "UNPROCESSABLE" "rate-limit and approval modifiers require action = allow")
  if nextRateLimit.isNone ≠ nextWindow.isNone then
    throw (.service "UNPROCESSABLE" "rateLimit and rateLimitWindow must be provided together")
  if let some identities := input.identities then checks.assertIdentitiesValid identities
  if let some targets := input.targets then
    if targets.isEmpty then throw (.service "UNPROCESSABLE" "A rule must name at least one target.")
    checks.assertTargetsValid targets
    checks.validateTargets targets
  if input.conditions.isSome ∨ input.targets.isSome ∨ input.action.isSome then
    let mergedTargets := input.targets.getD (row.targets.filterMap fun target =>
      if target.kind = .connection then target.appConnectionId.map (.connection · []) else none)
    checks.assertSessionPolicyValid mergedTargets (input.conditions.getD row.conditions) nextAction
  checks.assertAllowed (gatedActions input)

/-- The row that an update writes. -/
def updatedRow : RuleRow where
  name := input.name.getD row.name
  description := input.description.getD row.description
  enabled := input.enabled.getD row.enabled
  action := input.action.getD row.action
  rateLimit := input.rateLimit.getD row.rateLimit
  rateLimitWindow := input.rateLimitWindow.getD row.rateLimitWindow
  requireApproval := input.requireApproval.getD row.requireApproval
  conditions := input.conditions.getD row.conditions
  identities := (input.identities.map fun items => (dedupeIdentities items).map identityCreate).getD row.identities
  targets := (input.targets.map fun items => (dedupeTargets items).map targetCreate).getD row.targets

/-- `updatePolicyRule` on the stored draft row. -/
def Checks.updatePolicyRule : Except Failure RuleRow := do
  checks.assertUpdate row input
  checks.commit (updatedRow row input)
  return updatedRow row input

/-- The row that is stored after the call. -/
def Checks.stored : RuleRow := (checks.updatePolicyRule row input).toOption.getD row

/-- The columns that the gateway decides by. -/
def RuleRow.decides :=
  (row.action, row.rateLimit, row.rateLimitWindow, row.requireApproval, row.conditions, row.identities, row.targets)

/-- The parts of an answered rule that are sent back. -/
def RuleDto.resend (dto : RuleDto) (identities targets : Bool) : UpdateInput where
  identities := if identities then some dto.identities else none
  targets := if targets then some dto.targets else none

/-! ## The shape of the table -/

/-- One principal. -/
def IdentityRow.Shaped (row : IdentityRow) : Prop :=
  ∃ id, row = { agentId := some id } ∨ row = { userId := some id } ∨ row = { groupId := some id }

/-- The columns that are set are those of the kind; a grant's connection row also stores a method filter. -/
inductive TargetRow.Shaped : TargetRow → Prop
  | app (provider : String) (tools : List String) {scope : Option String} (hscope : ∀ s ∈ scope, isLevel s) :
    Shaped { kind := .app, appProvider := some provider, appTools := tools, appConnectionScope := scope }
  | connection (connectionId : String) (tools : List String) (method : Option String) :
    Shaped { kind := .connection, appConnectionId := some connectionId, appTools := tools, method }
  | secret (secretId : String) : Shaped { kind := .secret, secretId := some secretId }
  | secrets {scope : String} (hscope : isLevel scope) : Shaped { kind := .secret, secretScope := some scope }
  | network (host : String) (pathPattern method : Option String) :
    Shaped { kind := .network, hostPattern := some host, pathPattern, method }

/-- A rule binds each principal, and references each connection and each secret, at most once. -/
structure RuleRow.Shaped (row : RuleRow) : Prop where
  identities : ∀ identity ∈ row.identities, identity.Shaped
  principals : row.identities.Nodup
  targets : ∀ target ∈ row.targets, target.Shaped
  references : row.targets.Pairwise fun a b =>
    (∀ id ∈ a.appConnectionId, b.appConnectionId ≠ some id) ∧ ∀ id ∈ a.secretId, b.secretId ≠ some id

/-- The row as it is read: the method filter of a connection is not. -/
def TargetRow.read (row : TargetRow) : TargetRow :=
  if row.kind = .connection then { row with method := none } else row

variable {checks row input} {dto : RuleDto}

theorem truthy_eq_some {value : Option String} {s : String} (h : truthy value = some s) : value = some s :=
  (filter_eq_some_iff.1 h).1

theorem shaped_connectionTarget (connId : String) (tools : List String) (method : Option String) :
    (connectionTarget connId tools method).Shaped := .connection connId tools (truthy method)

theorem identityCreate_of_toIdentityDto {row : IdentityRow} {identity : IdentityInput} (hshape : row.Shaped)
    (h : toIdentityDto row = .ok identity) : identityCreate identity = row := by
  obtain ⟨id, rfl | rfl | rfl⟩ := hshape <;> unfold toIdentityDto at h <;> split at h <;> cases h <;> rename_i hid <;>
    cases truthy_eq_some hid <;> rfl

theorem targetCreate_of_toTargetDto {row : TargetRow} {target : TargetInput} (hshape : row.Shaped)
    (h : toTargetDto row = .ok target) : targetCreate target = row.read := by
  cases hshape with
  | @app provider tools scope hscope =>
    simp only [toTargetDto] at h
    split at h <;> cases h
    rename_i hprov
    cases truthy_eq_some hprov
    cases scope with
    | none => rfl
    | some => simp [targetCreate, hscope, TargetRow.read]
  | secrets hscope =>
    simp only [toTargetDto, filter_some, hscope, if_true] at h
    cases h
    rfl
  | _ =>
    simp only [toTargetDto, filter_none] at h
    split at h <;> cases h
    rename_i hid
    cases truthy_eq_some hid
    rfl

theorem map_of_mapM {α β : Type} {toDto : α → Except Failure β} {create : β → α} {read : α → α} {rows : List α}
    (hcreate : ∀ row ∈ rows, ∀ item, toDto row = .ok item → create item = read row) {items : List β}
    (h : rows.mapM toDto = .ok items) : items.map create = rows.map read := by
  induction rows generalizing items with
  | nil =>
    cases h
    rfl
  | cons row rows ih =>
    rw [mapM_cons] at h
    cases hrow : toDto row with
    | error => rw [hrow] at h; cases h
    | ok item =>
      cases hrest : rows.mapM toDto with
      | error => rw [hrow, hrest] at h; cases h
      | ok =>
        rw [hrow, hrest] at h
        cases h
        rw [map_cons, map_cons, hcreate row mem_cons_self item hrow,
          ih (fun row hrow => hcreate row (mem_cons_of_mem _ hrow)) hrest]

theorem dedupe_eq_self {α κ : Type} [DecidableEq κ] {key : α → Option κ} {seen : List κ} {items : List α}
    (hpairs : items.Pairwise fun a b => ∀ k ∈ key a, key b ≠ some k)
    (hseen : ∀ item ∈ items, ∀ k ∈ key item, k ∉ seen) : dedupe key seen items = items := by
  induction items generalizing seen with
  | nil => rfl
  | cons item items ih =>
    rw [pairwise_cons] at hpairs
    unfold dedupe
    cases hkey : key item with
    | none => exact congrArg _ (ih hpairs.2 fun other hother => hseen other (mem_cons_of_mem _ hother))
    | some k =>
      dsimp only
      rw [if_neg (hseen item mem_cons_self k hkey)]
      refine congrArg _ (ih hpairs.2 fun other hother k' hk' => not_mem_cons_of_ne_of_not_mem ?_ ?_)
      · rintro rfl
        exact hpairs.1 other hother k' hkey hk'
      · exact hseen other (mem_cons_of_mem _ hother) k' hk'

/-- Identities that are read and sent again are written as they were. -/
theorem identities_written (hshape : row.Shaped) {items : List IdentityInput}
    (h : row.identities.mapM toIdentityDto = .ok items) : (dedupeIdentities items).map identityCreate = row.identities := by
  have hrows : items.map identityCreate = row.identities.map id := map_of_mapM
    (fun identity hmem _ hdto => identityCreate_of_toIdentityDto (hshape.identities identity hmem) hdto) h
  rw [List.map_id] at hrows
  have hnodup : items.Nodup := .of_map identityCreate (hrows ▸ hshape.principals)
  rw [dedupeIdentities, dedupe_eq_self, hrows]
  · refine hnodup.imp fun {a b} hne k hk hk' => hne ?_
    cases a <;> cases b <;> cases hk <;> simp_all [toString, String.ext_iff]
  · exact fun _ _ _ _ => not_mem_nil

/-- Targets that are read and sent again are written as they were. -/
theorem targets_written (hshape : row.Shaped) {items : List TargetInput}
    (h : row.targets.mapM toTargetDto = .ok items) :
    (dedupeTargets items).map targetCreate = row.targets.map TargetRow.read := by
  have hrows := map_of_mapM (fun target hmem _ => targetCreate_of_toTargetDto (hshape.targets target hmem)) h
  have hreferences := hshape.references
  have hread (target : TargetRow) : target.read.appConnectionId = target.appConnectionId ∧
      target.read.secretId = target.secretId := by
    unfold TargetRow.read
    split <;> exact ⟨rfl, rfl⟩
  rw [dedupeTargets, dedupe_eq_self, hrows]
  · have hmap : (items.map targetCreate).Pairwise fun a b =>
        (∀ id ∈ a.appConnectionId, b.appConnectionId ≠ some id) ∧ ∀ id ∈ a.secretId, b.secretId ≠ some id := by
      rw [hrows, pairwise_map]
      simpa only [hread] using hreferences
    rw [pairwise_map] at hmap
    refine hmap.imp fun {a b} hne k hk hk' => ?_
    unfold targetKey at hk hk'
    split at hk <;> cases hk <;> split at hk' <;> cases hk'
    · exact hne.1 _ rfl rfl
    · exact hne.2 _ rfl rfl
  · exact fun _ _ _ _ => not_mem_nil

theorem read_eq_self_iff {target : TargetRow} :
    target.read = target ↔ (target.kind = .connection → target.method = none) := by
  obtain ⟨kind, _⟩ := target
  unfold TargetRow.read
  split <;> simp_all [eq_comm]

/-- The request passes the checks and its transaction commits. -/
def Checks.Accepts (checks : Checks) (row : RuleRow) (input : UpdateInput) : Prop :=
  checks.assertUpdate row input = .ok () ∧ checks.commit (updatedRow row input) = .ok ()

/-- An accepted edit is stored. -/
theorem Checks.stored_of_accepts (h : checks.Accepts row input) : checks.stored row input = updatedRow row input := by
  simp only [stored, updatePolicyRule, h.1, h.2, bind, Except.bind, pure, Except.pure, Except.toOption, getD_some]

/-- A refused edit leaves the row. -/
theorem Checks.stored_of_not_accepts (h : ¬ checks.Accepts row input) : checks.stored row input = row := by
  unfold stored updatePolicyRule
  cases hcheck : checks.assertUpdate row input with
  | error => rfl
  | ok =>
    cases hcommit : checks.commit (updatedRow row input) with
    | error => simp only [bind, Except.bind, Except.toOption, getD_none]
    | ok => exact absurd ⟨hcheck, hcommit⟩ h

/-- Sending parts of an answered rule back keeps what the gateway decides by, exactly where the targets are not sent,
the request is refused, or no connection target stores a method filter. -/
theorem stored_resend_iff (checks : Checks) (hshape : row.Shaped) (hdto : toRuleDto row = .ok dto)
    (identities targets : Bool) :
    (checks.stored row (dto.resend identities targets)).decides = row.decides ↔
      targets = false ∨ ¬ checks.Accepts row (dto.resend identities targets) ∨
        ∀ target ∈ row.targets, target.kind = .connection → target.method = none := by
  by_cases haccepts : checks.Accepts row (dto.resend identities targets)
  case neg => simp [Checks.stored_of_not_accepts haccepts, haccepts]
  rw [Checks.stored_of_accepts haccepts]
  unfold toRuleDto at hdto
  cases hi : row.identities.mapM toIdentityDto with
  | error => rw [hi] at hdto; cases hdto
  | ok identityItems =>
    cases ht : row.targets.mapM toTargetDto with
    | error => rw [hi, ht] at hdto; cases hdto
    | ok targetItems =>
      rw [hi, ht] at hdto
      cases hdto
      have hidentities : (updatedRow row (RuleDto.resend ⟨row.toRuleColumns, identityItems, targetItems⟩
          identities targets)).identities = row.identities := by
        cases identities
        · rfl
        · exact identities_written hshape hi
      have hmap : row.targets.map TargetRow.read = row.targets ↔
          ∀ target ∈ row.targets, target.kind = .connection → target.method = none := by
        simpa [read_eq_self_iff] using List.map_inj_left (f := TargetRow.read) (g := id) (l := row.targets)
      cases targets with
      | false => simpa [RuleRow.decides, updatedRow, RuleDto.resend] using hidentities
      | true =>
        have htargets := targets_written hshape ht
        simp_all [RuleRow.decides, updatedRow, RuleDto.resend]

/-- A grant's row for the reads of a connection. -/
def grantRow : RuleRow where
  name := "Grant: Bot · GitHub"
  description := none
  enabled := true
  action := .allow
  rateLimit := none
  rateLimitWindow := none
  requireApproval := false
  conditions := .null
  identities := [{ agentId := some "a1" }]
  targets := [connectionTarget "c1" [] (some "GET,HEAD")]

/-- The grant's row as it is answered. -/
def grantDto : RuleDto := ⟨grantRow.toRuleColumns, [.agent "a1"], [.connection "c1" []]⟩

/-- Checks that pass everything. -/
def passAll : Checks := ⟨fun _ => .ok (), fun _ => .ok (), fun _ => .ok (), fun _ _ _ => .ok (), fun _ => .ok (), fun _ => .ok ()⟩

/-- The row of a grant has the shape of one. -/
theorem grantRow_shaped : grantRow.Shaped where
  identities := forall_mem_singleton.2 ⟨_, .inl rfl⟩
  principals := nodup_singleton _
  targets := forall_mem_singleton.2 (shaped_connectionTarget _ _ _)
  references := pairwise_singleton _ _

/-- The identities of a grant's row are sent back without harm. -/
theorem stored_resend_iff_grant : (passAll.stored grantRow (grantDto.resend true false)).decides = grantRow.decides :=
  (stored_resend_iff passAll grantRow_shaped rfl true false).2 (.inl rfl)

/-- The targets of a grant's row sent back lose the method filter. -/
theorem stored_resend_widens : ¬ ∀ (checks : Checks) (row : RuleRow) (dto : RuleDto), row.Shaped → toRuleDto row = .ok dto →
    ∀ identities targets : Bool, identities || targets →
      (checks.stored row (dto.resend identities targets)).decides = row.decides := by
  intro h
  have hwide := congrArg (·.2.2.2.2.2.2) (h passAll grantRow grantDto grantRow_shaped rfl false true rfl)
  exact absurd hwide (by decide)

end Onecli.Api.RuleEdits
