import Onecli.Gateway.Graphql
import Onecli.Gateway.Registry
import Onecli.Foundation.PartialSearch
import Onecli.Gateway.Assemble
import Mathlib.Data.Prod.Lex

/-!
# App targets

`policy-engine/src/catalog.rs`: an app target is expanded by the tool catalog to hosts, paths
and methods, and its hosts are widened by the injection registry. The catalog and the
registry are tables of the source and, with the JSON parser, parameters of the model: an
`Env`. A tool tagged with a GraphQL operation also asks the body classifier.
-/

namespace Onecli.Gateway

/-- `CatalogTool`. -/
structure CatalogTool where
  hosts : List Str
  paths : List Str
  methods : List Str
  graphqlOps : Option Str

/-- A provider's tools by id. -/
abbrev ProviderTools := List (Str × CatalogTool)

/-- What the engine reads apart from rules and requests. -/
structure Env where
  catalog : List (Str × ProviderTools)
  registry : List AppProvider
  fromSlice : List UInt8 → Option (Json Str)

/-- An environment without apps. -/
def Env.empty : Env := ⟨[], [], fun _ => none⟩

/-- `same_host_set`. -/
def sameHostSet (a b : List Str) : Bool := a.length == b.length && a.all b.contains

/-- `single_host_family`. -/
def singleHostFamily (tools : ProviderTools) : Bool :=
  match tools with
  | [] => false
  | (_, first) :: rest => rest.all fun (_, tool) => sameHostSet first.hosts tool.hosts

/-- The request reaches the app through a mirror host of its injection surface. -/
def hostViaMirror (env : Env) (provider : Str) (providerTools : ProviderTools) (host path : Str) : Bool :=
  providerMatchesPathScoped env.registry provider host path ||
    (singleHostFamily providerTools && providerMatchesHostAndPath env.registry provider host path)

/-- The request host is one of the tool's own. -/
def CatalogTool.onHost (tool : CatalogTool) (host : Str) : Bool := tool.hosts.any (hostMatches host)

/-- `app_target_could_match_host`. -/
def appTargetCouldMatchHost (env : Env) (provider : Str) (tools : List Str) (host path : Str) : Bool :=
  match env.catalog.lookup provider with
  | none => false
  | some providerTools =>
    if tools.isEmpty then false
    else hostViaMirror env provider providerTools host path ||
      tools.any fun toolId => (providerTools.lookup toolId).any (·.onHost host)

/-- `any_graphql_discriminated_for_host`. -/
def anyGraphqlDiscriminatedForHost (env : Env) (provider : Str) (tools : List Str) (host path : Str) :
    Bool :=
  match env.catalog.lookup provider with
  | none => false
  | some providerTools =>
    (tools.any fun toolId => (providerTools.lookup toolId).any (·.graphqlOps.isSome)) &&
      appTargetCouldMatchHost env provider tools host path

/-- The operation kind that the request counts as. -/
def classified (env : Env) (path : Str) (body : ConditionBody) : Graphql.OpKind :=
  if path.contains '?' || body.isTruncated then .mutation
  else classifyGraphqlBody env.fromSlice body.bytes

/-- A tagged tool accepts the operation kind of its tag only. -/
def CatalogTool.acceptsOp (tool : CatalogTool) (env : Env) (path : Str) (body : ConditionBody) : Bool :=
  tool.graphqlOps.all fun ops => (classified env path body).asCatalogStr == ops

/-- The method list of a tool, where no methods mean any. -/
def CatalogTool.variants (tool : CatalogTool) : List (Option Str) :=
  if tool.methods.isEmpty then [none] else tool.methods.map some

/-- One tool of a tool-scoped target against the request. -/
def toolMatches (env : Env) (tool : CatalogTool) (viaMirror : Bool) (host method path : Str)
    (body : ConditionBody) (conditions : Option (Json Str)) (polarity : PolicyAction) : Option Bool :=
  if !tool.onHost host && !viaMirror then some false
  else if !tool.acceptsOp env path body then some false
  else tool.paths.anyM fun pathPattern => tool.variants.anyM fun variant =>
    matchesRequest ⟨pathPattern, variant, polarity, conditions⟩ method path body

/-- `app_target_matches`. -/
def appTargetMatches (env : Env) (provider : Str) (tools : List Str) (host method path : Str)
    (body : ConditionBody) (conditions : Option (Json Str)) (polarity : PolicyAction) : Option Bool :=
  match env.catalog.lookup provider with
  | none => some false
  | some providerTools =>
    if tools.isEmpty then
      some (providerTools.any (fun (_, tool) => tool.onHost host) ||
        providerMatchesHostAndPath env.registry provider host path)
    else
      let viaMirror := hostViaMirror env provider providerTools host path
      tools.anyM fun toolId =>
        match providerTools.lookup toolId with
        | none => some false
        | some tool => toolMatches env tool viaMirror host method path body conditions polarity

section BodyUse

open PartialSearch

variable {env : Env} {host method path : Str} {body body' : ConditionBody}
  {conditions : Option (Json Str)} {polarity : PolicyAction}

theorem toolMatches_congr {tool : CatalogTool}
    (hop : tool.acceptsOp env path body = tool.acceptsOp env path body')
    (hconds : conditionsMatch conditions polarity body = conditionsMatch conditions polarity body')
    (viaMirror : Bool) :
    toolMatches env tool viaMirror host method path body conditions polarity =
      toolMatches env tool viaMirror host method path body' conditions polarity := by
  unfold toolMatches
  rw [hop]
  refine if_congr Iff.rfl rfl (if_congr Iff.rfl rfl ?_)
  refine anyM_congr fun pathPattern _ => anyM_congr fun variant _ => ?_
  exact matchesRequest_congr hconds method path

theorem CatalogTool.acceptsOp_of_untagged {tool : CatalogTool} (h : tool.graphqlOps = none)
    (env : Env) (path : Str) (body : ConditionBody) : tool.acceptsOp env path body = true := by
  rw [acceptsOp, h]
  rfl

variable {provider : Str} {tools : List Str}

theorem appTargetMatches_scoped {providerTools : ProviderTools}
    (hprovider : env.catalog.lookup provider = some providerTools) (hne : tools ≠ []) :
    appTargetMatches env provider tools host method path body conditions polarity =
      tools.anyM fun toolId =>
        match providerTools.lookup toolId with
        | none => some false
        | some tool => toolMatches env tool (hostViaMirror env provider providerTools host path) host
            method path body conditions polarity := by
  have hscoped : tools.isEmpty = false := by simpa using hne
  rw [appTargetMatches, hprovider]
  simp only [hscoped, Bool.false_eq_true, ↓reduceIte]

theorem appTargetMatches_congr
    (hops : ∀ providerTools, env.catalog.lookup provider = some providerTools → ∀ toolId ∈ tools, ∀ tool, providerTools.lookup toolId = some tool → tool.acceptsOp env path body = tool.acceptsOp env path body')
    (hconds : tools ≠ [] → conditionsMatch conditions polarity body = conditionsMatch conditions polarity body') :
    appTargetMatches env provider tools host method path body conditions polarity =
      appTargetMatches env provider tools host method path body' conditions polarity := by
  cases hprovider : env.catalog.lookup provider with
  | none => simp only [appTargetMatches, hprovider]
  | some providerTools =>
    by_cases hne : tools = []
    · subst hne
      rfl
    · rw [appTargetMatches_scoped hprovider hne, appTargetMatches_scoped hprovider hne]
      refine anyM_congr fun toolId htool => ?_
      cases hlookup : providerTools.lookup toolId with
      | none => rfl
      | some tool =>
        exact toolMatches_congr (hops providerTools hprovider toolId htool tool hlookup)
          (hconds hne) _

theorem appTargetMatches_of_host_missed (hne : tools ≠ [])
    (h : appTargetCouldMatchHost env provider tools host path = false) :
    appTargetMatches env provider tools host method path body conditions polarity = some false := by
  have hscoped : tools.isEmpty = false := by simpa using hne
  cases hprovider : env.catalog.lookup provider with
  | none => simp only [appTargetMatches, hprovider]
  | some providerTools =>
    rw [appTargetMatches_scoped hprovider hne]
    simp only [appTargetCouldMatchHost, hprovider, hscoped, Bool.false_eq_true, ↓reduceIte,
      Bool.or_eq_false_iff, List.any_eq_false] at h
    refine (anyM_eq_false_iff _ _).mpr fun toolId htool => ?_
    cases hlookup : providerTools.lookup toolId with
    | none => rfl
    | some tool =>
      have hmissed : tool.onHost host = false := by
        simpa [hlookup] using h.2 toolId htool
      simp [toolMatches, hmissed, h.1]

end BodyUse

/-! ## The first-match policy engine

`policy-engine/src/evaluate.rs`. A rule matches when one of its identities and one of its
targets does. Each level is searched in the order of priority and id, the two matches are
combined by strictness, and the Default Rules decide when no explicit match survives. Only
the path matcher can panic, and a panic met on the way is the answer of the whole evaluation.
-/

/-- `identity_matches`. -/
def identityMatches (rule : NewRule) (request : PolicyRequest) : Bool :=
  rule.identities.isEmpty || rule.identities.any fun
    | .agent id => id == request.agentId
    | .user id => request.userIds.contains id
    | .group id => request.groupIds.contains id
    | .unresolved => false

/-- `pseudo_rule`. -/
def pseudoRule (pathPattern method : Option Str) (conditions : Option (Json Str))
    (action : PolicyAction) : PolicyRule :=
  ⟨pathPattern.getD "*".toList, method, action, conditions⟩

/-- `polarity_of`. -/
def polarityOf (rule : NewRule) : PolicyAction := if strictnessRank rule < 3 then .block else .allow

/-- `target_matches`. -/
def targetMatches (env : Env) (target : Target) (rule : NewRule) (request : PolicyRequest)
    (body : ConditionBody) : Option Bool :=
  match target with
  | .network hostPattern pathPattern method =>
    if !hostMatches request.host hostPattern then some false
    else matchesRequest (pseudoRule pathPattern method rule.conditions (polarityOf rule))
      request.method request.path body
  | .app provider tools =>
    appTargetMatches env provider tools request.host request.method request.path body
      rule.conditions (polarityOf rule)
  | .connection id provider tools methods =>
    if request.winningConnectionId == some id && (!tools.isEmpty || methods.allows request.method) then
      appTargetMatches env provider tools request.host request.method request.path body
        rule.conditions (polarityOf rule)
    else some false
  | .secret hostPatterns => some (hostPatterns.any (hostMatches request.host))
  | .unresolved => some false

/-- `rule_matches`. -/
def ruleMatches (env : Env) (request : PolicyRequest) (body : ConditionBody) (rule : NewRule) :
    Option Bool :=
  if identityMatches rule request && !rule.targets.isEmpty then
    rule.targets.anyM fun t => targetMatches env t rule request body
  else some false

/-- The key that rules are sorted by: priority, then id. -/
def ruleKey (rule : NewRule) : ℕ ×ₗ Str := toLex (rule.priority, rule.id)

/-- The order of the rules within a level. -/
def RuleLe (a b : NewRule) : Prop := ruleKey a ≤ ruleKey b

instance : DecidableRel RuleLe := fun a b => inferInstanceAs (Decidable (ruleKey a ≤ ruleKey b))

instance : Std.Total RuleLe := ⟨fun a b => le_total (ruleKey a) (ruleKey b)⟩

instance : IsTrans NewRule RuleLe := ⟨fun _ _ _ => le_trans⟩

/-- `first_match`: the first matching rule in priority order. -/
def firstMatch (env : Env) (rules : List NewRule) (request : PolicyRequest) (body : ConditionBody) :
    Option (Option NewRule) :=
  (rules.insertionSort RuleLe).findM? (ruleMatches env request body)

/-- `Outcome`. -/
inductive Outcome where
  | rule (rule : NewRule)
  | denyDefault (rule : Option NewRule)
  | allow

/-- The explicit rules of one level. -/
def explicitRules (rules : List NewRule) (scope : Scope) : List NewRule :=
  rules.filter fun r => !r.isDefault && r.scope == scope

/-- The Default Rule of one level. -/
def defaultRule (rules : List NewRule) (scope : Scope) : Option NewRule :=
  rules.find? fun r => r.isDefault && r.scope == scope

/-- A Default Rule blocks when it says so and the request can be denied by default. -/
def defaultBlocks (default : Option NewRule) (request : PolicyRequest) : Bool :=
  default.any fun d => d.action == .block && request.enforceDeny

/-- The two level matches combined by strictness, before the defaults decide. -/
def bestMatch (orgMatch workspaceMatch : Option NewRule) (orgDefaultBlocks workspaceDefaultBlocks : Bool) :
    Option NewRule :=
  match orgMatch, workspaceMatch with
  | some o, some p => some (if strictnessRank p < strictnessRank o then p else o)
  | some o, none => if o.action = .allow ∧ workspaceDefaultBlocks then none else some o
  | none, some p => if p.action = .allow ∧ orgDefaultBlocks then none else some p
  | none, none => none

/-- The outcome of two level matches. -/
def combine (rules : List NewRule) (request : PolicyRequest) (orgMatch workspaceMatch : Option NewRule) :
    Outcome :=
  let orgDefault := defaultRule rules .organization
  let workspaceDefault := defaultRule rules .workspace
  let orgDefaultBlocks := defaultBlocks orgDefault request
  let workspaceDefaultBlocks := defaultBlocks workspaceDefault request
  match bestMatch orgMatch workspaceMatch orgDefaultBlocks workspaceDefaultBlocks with
  | some m => .rule m
  | none =>
    if orgDefaultBlocks then .denyDefault orgDefault
    else if workspaceDefaultBlocks then .denyDefault workspaceDefault
    else .allow

/-- `evaluate_outcome`. -/
def evaluateOutcome (env : Env) (rules : List NewRule) (request : PolicyRequest) (body : ConditionBody) :
    Option Outcome := do
  let orgMatch ← firstMatch env (explicitRules rules .organization) request body
  let workspaceMatch ← firstMatch env (explicitRules rules .workspace) request body
  return combine rules request orgMatch workspaceMatch

section Specification

open PartialSearch

variable (env : Env) (rules : List NewRule) (request : PolicyRequest) (body : ConditionBody)

/-- The first match is the least that matches. -/
theorem firstMatch_eq_some_iff (r : NewRule) :
    firstMatch env rules request body = some (some r) ↔ LeastHit RuleLe (ruleMatches env request body) rules r := by
  rw [firstMatch, findM?_eq_some_some_iff, firstHit_insertionSort]

/-- No match where no rule matches. -/
theorem firstMatch_eq_none_iff :
    firstMatch env rules request body = some none ↔ NoHit (ruleMatches env request body) rules := by
  rw [firstMatch, findM?_eq_some_none_iff, noHit_insertionSort]

/-- The outcome is of the first match on each level. -/
theorem evaluateOutcome_eq_some_iff (out : Outcome) :
    evaluateOutcome env rules request body = some out ↔
      ∃ orgMatch workspaceMatch, firstMatch env (explicitRules rules .organization) request body = some orgMatch ∧
        firstMatch env (explicitRules rules .workspace) request body = some workspaceMatch ∧
        combine rules request orgMatch workspaceMatch = out := by
  simp only [evaluateOutcome, Option.bind_eq_bind, Option.bind_eq_some_iff, Option.pure_def, Option.some.injEq]
  constructor
  · rintro ⟨o, ho, p, hp, hout⟩
    exact ⟨o, p, ho, hp, hout⟩
  · rintro ⟨o, p, ho, hp, hout⟩
    exact ⟨o, ho, p, hp, hout⟩

/-- Where every rule answers, the first match does. -/
theorem exists_firstMatch (h : ∀ rule ∈ rules, ruleMatches env request body rule ≠ none) :
    ∃ found, firstMatch env rules request body = some found := by
  rcases firstHit_or_noHit (l := rules.insertionSort RuleLe)
    (fun rule hrule => h rule ((List.mem_insertionSort RuleLe).mp hrule)) with ⟨r, hr⟩ | hnone
  · exact ⟨some r, (findM?_eq_some_some_iff _ _ r).mpr hr⟩
  · exact ⟨none, (findM?_eq_some_none_iff _ _).mpr hnone⟩

end Specification

end Onecli.Gateway
