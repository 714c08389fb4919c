import Mathlib.Data.List.Sort

/-!
# The draft of a policy scope and its published generations

The writers of `policy-service.ts` and `grants-service.ts` on the rules of one scope. Every writer holds the lock of the
scope for its transaction and publishes the draft at its end as a generation of its own; a principal that is deleted is
forgotten in the draft and in the generations in place. Only `updatePolicyRule` looks at a rule before its transaction:
what it merges its input with and checks is what it read then.

The checks of what a rule names and of the plan, which look at other tables, can refuse a write; that is a write that is
never made.
-/

namespace Onecli.Publish

/-- `PUBLISHED_GENERATION_RETENTION`. -/
def PUBLISHED_GENERATION_RETENTION : ℕ := 10

/-- The action of a rule. -/
inductive Action where
  | allow
  | block
  deriving DecidableEq

/-- `rateLimitWindowSchema`. -/
inductive RateLimitWindow where
  | minute
  | hour
  | day

/-- The origin of a rule. -/
inductive Source where
  | custom
  | default
  | grant
  deriving DecidableEq

/-- `conditions`: behavioral ones are an array, a session policy is an object. -/
inductive Conditions where
  | behavioral (conditions : List String)
  | session (policy : String)

/-- `isSessionPolicy`. -/
def isSessionPolicy : Option Conditions → Bool
  | some (.session _) => true
  | _ => false

/-- A row of `policy_rule_identities`. -/
inductive Identity where
  | agent (id : ℕ)
  | user (id : ℕ)
  | group (id : ℕ)
  deriving DecidableEq

/-- A row of `policy_rule_targets`. -/
inductive Target where
  | app (provider : String) (tools : List String) (connectionScope : Option String)
  | connection (connectionId : ℕ) (tools : List String) (method : Option String)
  | secret (secretId : Option ℕ) (secretScope : Option String)
  | network (hostPattern : String) (pathPattern method : Option String)
  deriving DecidableEq

/-- A target names a connection. -/
def Target.isConnection : Target → Bool
  | .connection _ _ _ => true
  | _ => false

/-- What a rule says, and what a generation copies of it. -/
structure Rule where
  logicalId : ℕ
  priority : ℕ
  isDefault : Bool
  source : Source
  enabled : Bool
  name : String
  description : Option String
  action : Action
  rateLimit : Option ℕ
  rateLimitWindow : Option RateLimitWindow
  requireApproval : Bool
  conditions : Option Conditions
  identities : List Identity
  targets : List Target

/-- A row of the draft. -/
structure Row where
  id : ℕ
  rule : Rule

/-- A row of a published generation. -/
structure Snapshot where
  generation : ℕ
  rule : Rule

/-- `assertSessionPolicyValid`, as far as it looks at the rule. -/
def sessionPolicyValid (targets : List Target) (conditions : Option Conditions) (action : Action) : Bool :=
  !isSessionPolicy conditions || action = .allow && targets.any Target.isConnection

/-- Drop the entries whose key has been seen; an entry without a key stays. -/
def dedupe {α κ : Type} [DecidableEq κ] (key : α → Option κ) : List κ → List α → List α
  | _, [] => []
  | seen, a :: rest =>
    match key a with
    | none => a :: dedupe key seen rest
    | some k => if k ∈ seen then dedupe key seen rest else a :: dedupe key (k :: seen) rest

/-- `dedupeIdentities`. -/
def dedupeIdentities (identities : List Identity) : List Identity := dedupe some [] identities

/-- `dedupeTargets`: connections and specific secrets are known by their ids. -/
def dedupeTargets (targets : List Target) : List Target :=
  dedupe
    (fun
      | .connection connectionId _ _ => some (true, connectionId)
      | .secret (some secretId) _ => some (false, secretId)
      | _ => none)
    [] targets

/-- `CreatePolicyRuleInput`. -/
structure CreatePolicyRuleInput where
  name : String
  description : Option String
  enabled : Option Bool
  action : Action
  rateLimit : Option ℕ
  rateLimitWindow : Option RateLimitWindow
  requireApproval : Option Bool
  conditions : Option Conditions
  identities : Option (List Identity)
  targets : Option (List Target)

/-- The refinements of `createPolicyRuleSchema`: `modifiersRequireAllow`, `rateLimitPaired` and
`sessionPolicyNeedsConnection`. -/
def createPolicyRuleSchema (input : CreatePolicyRuleInput) : Bool :=
  (input.action ≠ .block ∨
      input.rateLimit = none ∧ input.rateLimitWindow = none ∧ input.requireApproval.getD false = false) ∧
    input.rateLimit.isSome = input.rateLimitWindow.isSome ∧
      (!isSessionPolicy input.conditions || (input.targets.getD []).any Target.isConnection)

/-- `UpdatePolicyRuleInput`: a field that is left out stays as it is, and a nullable one can be cleared. -/
structure UpdatePolicyRuleInput where
  name : Option String
  description : Option (Option String)
  enabled : Option Bool
  action : Option Action
  rateLimit : Option (Option ℕ)
  rateLimitWindow : Option (Option RateLimitWindow)
  requireApproval : Option Bool
  conditions : Option (Option Conditions)
  identities : Option (List Identity)
  targets : Option (List Target)

namespace UpdatePolicyRuleInput

/-- The checks of `updatePolicyRule` on its input and the rule that it read. -/
def check (input : UpdatePolicyRuleInput) (existing : Rule) : Bool :=
  let nextAction := input.action.getD existing.action
  let nextRateLimit := input.rateLimit.getD existing.rateLimit
  let nextWindow := input.rateLimitWindow.getD existing.rateLimitWindow
  let nextApproval := input.requireApproval.getD existing.requireApproval
  let mergedConditions := input.conditions.getD existing.conditions
  let mergedTargets := input.targets.getD (existing.targets.filter Target.isConnection)
  ¬(nextAction = .block ∧ (nextRateLimit.isSome ∨ nextWindow.isSome ∨ nextApproval)) ∧
    nextRateLimit.isSome = nextWindow.isSome ∧ input.targets ≠ some [] ∧
      (input.conditions.isSome ∨ input.targets.isSome ∨ input.action.isSome →
        sessionPolicyValid mergedTargets mergedConditions nextAction)

/-- What the transaction of `updatePolicyRule` writes. -/
def apply (input : UpdatePolicyRuleInput) (rule : Rule) : Rule :=
  { rule with
    name := input.name.getD rule.name
    description := input.description.getD rule.description
    enabled := input.enabled.getD rule.enabled
    action := input.action.getD rule.action
    rateLimit := input.rateLimit.getD rule.rateLimit
    rateLimitWindow := input.rateLimitWindow.getD rule.rateLimitWindow
    requireApproval := input.requireApproval.getD rule.requireApproval
    conditions := input.conditions.getD rule.conditions
    identities := (input.identities.map dedupeIdentities).getD rule.identities
    targets := (input.targets.map dedupeTargets).getD rule.targets }

end UpdatePolicyRuleInput

/-- `UnlistedChoice`: what a row of a grant's stack says. -/
inductive Choice where
  | allow
  | ask
  | never
  deriving DecidableEq

/-- `GrantCreate`: a compiled rule with its target. A row that blocks carries no conditions. -/
inductive GrantCreate where
  | connection (name : String) (choice : Choice) (tools : List String) (method : Option String)
      (conditions : Option Conditions) (connectionId agentId : ℕ)
  | secret (name : String) (secretId agentId : ℕ)

/-- The rule of a grant. -/
def GrantCreate.rule (logicalId priority : ℕ) : GrantCreate → Rule
  | .connection name choice tools method conditions connectionId agentId =>
    { logicalId := logicalId
      priority := priority
      isDefault := false
      source := .grant
      enabled := true
      name := name
      description := none
      action := if choice = .never then .block else .allow
      rateLimit := none
      rateLimitWindow := none
      requireApproval := choice = .ask
      conditions := if choice = .never then none else conditions
      identities := [.agent agentId]
      targets := [.connection connectionId tools method] }
  | .secret name secretId agentId =>
    { logicalId := logicalId
      priority := priority
      isDefault := false
      source := .grant
      enabled := true
      name := name
      description := none
      action := .allow
      rateLimit := none
      rateLimitWindow := none
      requireApproval := false
      conditions := none
      identities := [.agent agentId]
      targets := [.secret (some secretId) none] }

/-- What the rows of one agent's grant are known by. -/
structure GrantWhere where
  agentId : ℕ
  resource : ℕ ⊕ ℕ

/-- A rule is of a grant: on the left a connection, on the right a secret. -/
def GrantWhere.selects (where' : GrantWhere) (rule : Rule) : Bool :=
  rule.source = .grant && rule.identities.contains (.agent where'.agentId) &&
    rule.targets.any fun
      | .connection connectionId _ _ => where'.resource = .inl connectionId
      | .secret secretId _ => secretId.any fun secretId => where'.resource = .inr secretId
      | _ => false

/-- What is left of a rule when a principal is forgotten: a rule that names it alone goes, and so does, with an agent, a
grant that names none; another rule loses the identity. -/
def Rule.forget (principal : Identity) (rule : Rule) : Option Rule :=
  if rule.identities ≠ [] ∧ rule.identities.all (· = principal) then none
  else
    match principal with
    | .agent _ =>
      if rule.source = .grant ∧ rule.identities = [] then none
      else some { rule with identities := rule.identities.filter (· ≠ principal) }
    | _ => some { rule with identities := rule.identities.filter (· ≠ principal) }

/-- The rules of a scope, and the updates that have read a rule and checked their input. The ids are given out in
turn. -/
structure World where
  draft : List Row
  published : List Snapshot
  created : ℕ
  updates : ℕ → Option (ℕ × UpdatePolicyRuleInput)

namespace World

/-- The highest published generation. -/
def generation (w : World) : ℕ := (w.published.map (·.generation)).foldr max 0

/-- What the gateway reads: the rules of the highest generation. -/
def live (w : World) : List Rule := (w.published.filter fun s => s.generation = w.generation).map (·.rule)

/-- `_max.priority ?? 0` of the rules that are not the default. -/
def tail (w : World) : ℕ := ((w.draft.filter fun row => !row.rule.isDefault).map (·.rule.priority)).foldr max 0

/-- A row is added to the draft. -/
def insert (w : World) (rule : ℕ → Rule) : World :=
  { w with draft := w.draft ++ [⟨w.created, rule w.created⟩], created := w.created + 1 }

/-- `ensureDefault`. -/
def ensureDefault (w : World) : World :=
  if w.draft.any (·.rule.isDefault) then w
  else
    w.insert fun logicalId =>
      { logicalId := logicalId
        priority := 0
        isDefault := true
        source := .default
        enabled := true
        name := "Default Rule"
        description := none
        action := .allow
        rateLimit := none
        rateLimitWindow := none
        requireApproval := false
        conditions := none
        identities := []
        targets := [] }

/-- The order in which the draft is read: by priority, then by id. -/
def before (a b : Row) : Bool := a.rule.priority < b.rule.priority ∨ a.rule.priority = b.rule.priority ∧ a.id ≤ b.id

/-- `snapshotDraftRules`. -/
def snapshotDraftRules (w : World) (draftRules : List Row) : World :=
  let generation := w.generation + 1
  let published := w.published ++ draftRules.map fun row => ⟨generation, row.rule⟩
  { w with
    published :=
      if PUBLISHED_GENERATION_RETENTION < generation then
        published.filter fun s => ¬ s.generation ≤ generation - PUBLISHED_GENERATION_RETENTION
      else published }

/-- `publishDraftInTx`. -/
def publishDraftInTx (w : World) : World :=
  w.ensureDefault.snapshotDraftRules (w.ensureDefault.draft.insertionSort (before · ·))

/-- The transaction of `createPolicyRule`. -/
def createPolicyRule (w : World) (input : CreatePolicyRuleInput) : World :=
  publishDraftInTx <|
    w.insert fun logicalId =>
      { logicalId := logicalId
        priority := w.tail + 1
        isDefault := false
        source := .custom
        enabled := input.enabled.getD true
        name := input.name
        description := input.description
        action := input.action
        rateLimit := input.rateLimit
        rateLimitWindow := input.rateLimitWindow
        requireApproval := input.requireApproval.getD false
        conditions := input.conditions
        identities := dedupeIdentities (input.identities.getD [])
        targets := dedupeTargets (input.targets.getD []) }

/-- The rows of an id are written over. -/
def modify (w : World) (id : ℕ) (f : Rule → Rule) : World :=
  { w with draft := w.draft.map fun row => if row.id = id then { row with rule := f row.rule } else row }

/-- The transaction of `updatePolicyRule`, which fails when the row is gone. -/
def updatePolicyRule (w : World) (id : ℕ) (input : UpdatePolicyRuleInput) : World :=
  if w.draft.any fun row => row.id = id then publishDraftInTx (w.modify id input.apply) else w

/-- `deletePolicyRule`. -/
def deletePolicyRule (w : World) (id : ℕ) : World :=
  if w.draft.any fun row => row.id = id && !row.rule.isDefault then
    publishDraftInTx { w with draft := w.draft.filter fun row => ¬(row.id = id ∧ row.rule.isDefault = false) }
  else w

/-- The ids name every rule but the default once. -/
def namesEveryRuleOnce (w : World) (orderedIds : List ℕ) : Bool :=
  orderedIds.Nodup ∧ (∀ row ∈ w.draft, row.rule.isDefault = false → row.id ∈ orderedIds) ∧
    ∀ id ∈ orderedIds, ∃ row ∈ w.draft, row.rule.isDefault = false ∧ row.id = id

/-- `reorderPolicyRules`. -/
def reorderPolicyRules (w : World) (orderedIds : List ℕ) : World :=
  if w.namesEveryRuleOnce orderedIds then
    publishDraftInTx
      { w with
        draft := w.draft.map fun row =>
          if row.id ∈ orderedIds then
            { row with rule := { row.rule with priority := orderedIds.idxOf row.id + 1 } }
          else row }
  else w

/-- `setPolicyDefaultAction`. -/
def setPolicyDefaultAction (w : World) (action : Action) : World :=
  publishDraftInTx
    { w.ensureDefault with
      draft := w.ensureDefault.draft.map fun row =>
        if row.rule.isDefault then { row with rule := { row.rule with action := action } } else row }

/-- The loop of `appendGrantRules`. -/
def appendRules (w : World) : ℕ → List GrantCreate → World
  | _, [] => w
  | priority, create :: rest =>
    appendRules (w.insert fun logicalId => create.rule logicalId priority) (priority + 1) rest

/-- `appendGrantRules`. -/
def appendGrantRules (w : World) (creates : List GrantCreate) : World := w.appendRules (w.tail + 1) creates

/-- `replaceAndPublish`. -/
def replaceAndPublish (w : World) (deleteWhere : GrantWhere) (creates : List GrantCreate) : World :=
  publishDraftInTx <|
    appendGrantRules { w with draft := w.draft.filter fun row => !deleteWhere.selects row.rule } creates

/-- The transaction of `attachDefaultConnectionGrant`. -/
def attachDefaultConnectionGrant (w : World) (where' : GrantWhere) (creates : List GrantCreate) : World :=
  if w.draft.any fun row => where'.selects row.rule then w else publishDraftInTx (w.appendGrantRules creates)

/-- `dropPrincipalFromPolicyInTx`, and the cascade of the principal's row to the identities. -/
def dropPrincipalFromPolicyInTx (w : World) (principal : Identity) : World :=
  { w with
    draft := w.draft.filterMap fun row => (row.rule.forget principal).map fun rule => { row with rule := rule }
    published := w.published.filterMap fun s => (s.rule.forget principal).map fun rule => { s with rule := rule } }

/-- The rule that `updatePolicyRule` reads. -/
def find (w : World) (id : ℕ) : Option Row := w.draft.find? fun row => row.id = id && !row.rule.isDefault

/-- A scope without a rule. -/
def empty : World where
  draft := []
  published := []
  created := 0
  updates := fun _ => none

end World

/-- What can happen to the rules of a scope. An update reads its rule in one step and writes it in another. -/
inductive Event where
  | create (input : CreatePolicyRuleInput)
  | read (i id : ℕ) (input : UpdatePolicyRuleInput)
  | update (i : ℕ)
  | delete (id : ℕ)
  | reorder (orderedIds : List ℕ)
  | setDefault (action : Action)
  | replace (deleteWhere : GrantWhere) (creates : List GrantCreate)
  | attach (where' : GrantWhere) (creates : List GrantCreate)
  | drop (principal : Identity)
  | publish

/-- The steps of the service. A creation is one that its schema accepts. -/
def step (w : World) : Event → Option World
  | .create input =>
    if createPolicyRuleSchema input then
      if input.targets.getD [] = [] ∨
          ¬ sessionPolicyValid (input.targets.getD []) input.conditions input.action then some w
      else some (w.createPolicyRule input)
    else none
  | .read i id input =>
    match w.find id with
    | some row =>
      if input.check row.rule then some { w with updates := Function.update w.updates i (some (id, input)) } else some w
    | none => some w
  | .update i =>
    match w.updates i with
    | some (id, input) => some { w.updatePolicyRule id input with updates := Function.update w.updates i none }
    | none => none
  | .delete id => some (w.deletePolicyRule id)
  | .reorder orderedIds => some (w.reorderPolicyRules orderedIds)
  | .setDefault action => some (w.setPolicyDefaultAction action)
  | .replace deleteWhere creates => some (w.replaceAndPublish deleteWhere creates)
  | .attach where' creates => some (w.attachDefaultConnectionGrant where' creates)
  | .drop principal => some (w.dropPrincipalFromPolicyInTx principal)
  | .publish => some w.publishDraftInTx

/-- A rule has no rate limit and no approval on a block, a rate limit exactly when it has a window, and a session policy
only on an allow with a connection. -/
def Rule.Valid (rule : Rule) : Prop :=
  (rule.action = .block → rule.rateLimit = none ∧ rule.requireApproval = false) ∧
    rule.rateLimit.isSome = rule.rateLimitWindow.isSome ∧
      (isSessionPolicy rule.conditions = true → rule.action = .allow ∧ rule.targets.any Target.isConnection = true)

namespace World

/-- Once anything was published, what is live is the draft, rule by rule. -/
def InSync (w : World) : Prop :=
  w.published ≠ [] → w.live.Perm (w.draft.map (·.rule)) ∧ (w.draft.map (·.rule.logicalId)).Nodup

/-- The priorities of the rules but the default are distinct, and there is at most one default. -/
def Arranged (w : World) : Prop :=
  ((w.draft.filter fun row => !row.rule.isDefault).map (·.rule.priority)).Nodup ∧
    (w.draft.filter (·.rule.isDefault)).length ≤ 1

/-- Every rule is valid. -/
def AllValid (w : World) : Prop := ∀ row ∈ w.draft, row.rule.Valid

end World

/-- No field that an update sets conflicts with one that it leaves as the rule has it when the update is written. -/
def UpdatePolicyRuleInput.Agrees (input : UpdatePolicyRuleInput) (rule : Rule) : Prop :=
  (input.action = some .block →
      (input.rateLimit = none → rule.rateLimit = none) ∧
        (input.requireApproval = none → rule.requireApproval = false)) ∧
    (input.action = none → rule.action = .block → input.rateLimit.join = none ∧ input.requireApproval ≠ some true) ∧
    (∀ rateLimit ∈ input.rateLimit, input.rateLimitWindow = none → rateLimit.isSome = rule.rateLimitWindow.isSome) ∧
    (∀ window ∈ input.rateLimitWindow, input.rateLimit = none → rule.rateLimit.isSome = window.isSome) ∧
    (input.conditions = none → isSessionPolicy rule.conditions = true →
      input.action ≠ some .block ∧ ∀ targets ∈ input.targets, targets.any Target.isConnection = true) ∧
    (∀ conditions ∈ input.conditions, isSessionPolicy conditions = true →
      (input.action = none → rule.action = .allow) ∧
        (input.targets = none → rule.targets.any Target.isConnection = true))

instance (input : UpdatePolicyRuleInput) (rule : Rule) : Decidable (input.Agrees rule) := by
  unfold UpdatePolicyRuleInput.Agrees
  infer_instance

/-- An update is written over a rule that it agrees with. -/
def Agrees (w : World) : Event → Prop
  | .update i => ∀ update ∈ w.updates i, ∀ row ∈ w.draft, row.id = update.1 → update.2.Agrees row.rule
  | _ => True

instance (w : World) (e : Event) : Decidable (Agrees w e) := by
  cases e <;> (unfold Agrees; infer_instance)

end Onecli.Publish
