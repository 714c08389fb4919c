import Onecli.Api.EndpointMatch
import Onecli.Graphql.Scanner
import Mathlib.Data.List.Sort

/-!
# The API's app targets

`translate/app-catalog.ts` and the catalog shapes of `app-permissions/types.ts`. A tool fans
out to its hosts, its paths and its methods. `policy-translation/graphql.ts`: the twin of the
gateway's GraphQL classifier over UTF-16 code units. The registry of definitions is a table of
the source; it is a parameter here, like `JSON.parse` and the Unicode `toUpperCase`.
-/

namespace Onecli.Api

open Graphql Utf16

/-! ## The GraphQL classifier -/

/-- `isStart` of `readName`. -/
def isStart (ch : UInt16) : Bool :=
  ch == unit '_' || (unit 'a' ≤ ch && ch ≤ unit 'z') || (unit 'A' ≤ ch && ch ≤ unit 'Z')

/-- `isPart` of `readName`. -/
def isPart (ch : UInt16) : Bool := isStart ch || (unit '0' ≤ ch && ch ≤ unit '9')

/-- The scanner's alphabet over a JavaScript string. -/
def units : Alphabet UInt16 where
  unit := unit
  isNameStart := isStart
  isNamePart := isPart

/-- `classifyGraphqlDocument`. -/
def classifyGraphqlDocument (document : JsString) : OpKind := classifyDocument units document

/-- `classifyGraphqlBody`: `"query"` only for a provably pure query document. -/
def classifyGraphqlBody (parse : JsString → Option (Json JsString)) (body : Option JsString) :
    OpKind :=
  match body with
  | none => .mutation
  | some body =>
    if body.length = 0 then .mutation
    else
      match parse body with
      | none => .mutation
      | some parsed =>
        match (parsed.get (js "query")).bind Json.asStr with
        | none => .mutation
        | some document =>
          if countTopLevelLiteralQueryKeys unit body ≠ 1 then .mutation
          else classifyGraphqlDocument document

/-! ## The catalog -/

/-- `AppTool`, without its display texts. -/
structure AppTool (S : Type) where
  id : S
  hostPattern : S
  hostAliasPatterns : Option (List S)
  pathPattern : S
  aliasPatterns : Option (List S)
  method : Option S
  methods : Option (List S)
  graphqlOps : Option OpKind

/-- `AppToolGroup`; no matcher reads its category. -/
structure AppToolGroup (S : Type) where
  tools : List (AppTool S)
  wildcard : Option (AppTool S)

/-- `AppPermissionDefinition`, with what matching reads of it. -/
structure AppPermissionDefinition (S : Type) where
  provider : S
  groups : List (AppToolGroup S)

/-- `allGroupTools`. -/
def allGroupTools {S : Type} (group : AppToolGroup S) : List (AppTool S) := group.wildcard.toList ++ group.tools

/-- The tools of a definition in the order of its groups. -/
def AppPermissionDefinition.allTools {S : Type} (definition : AppPermissionDefinition S) :
    List (AppTool S) := definition.groups.flatMap allGroupTools

/-- `hostPatternsOf`. -/
def hostPatternsOf {S : Type} (tool : AppTool S) : List S := tool.hostPattern :: tool.hostAliasPatterns.getD []

/-- The paths of a tool: its own and its aliases. -/
def AppTool.paths {S : Type} (tool : AppTool S) : List S := tool.pathPattern :: tool.aliasPatterns.getD []

/-- `allRuleVariants`: the paths times the methods, where no method means any. -/
def allRuleVariants {S : Type} (tool : AppTool S) : List (S × Option S) :=
  let methods : List (Option S) :=
    match tool.methods with
    | some methods => methods.map some
    | none => [tool.method]
  tool.paths.flatMap fun p => methods.map fun m => (p, m)

/-- What the evaluator reads apart from rules and requests. -/
structure Env where
  permissionRegistry : List (AppPermissionDefinition JsString)
  parse : JsString → Option (Json JsString)
  toUpperCase : JsString → JsString

/-- `getAppPermissionDefinition`. -/
def getAppPermissionDefinition (env : Env) (provider : JsString) :
    Option (AppPermissionDefinition JsString) :=
  env.permissionRegistry.find? (·.provider == provider)

/-- `getAppTool`. -/
def getAppTool (env : Env) (provider toolId : JsString) : Option (AppTool JsString) :=
  match getAppPermissionDefinition env provider with
  | none => none
  | some definition => definition.allTools.find? (·.id == toolId)

/-- The operation kind that the request counts as. -/
def classified (env : Env) (request : PolicyRequest JsString) : OpKind :=
  if request.path.contains (unit '?') then .mutation
  else classifyGraphqlBody env.parse request.body

/-- One tool of a tool-scoped target against the request. -/
def toolMatches (env : Env) (request : PolicyRequest JsString)
    (conditions : Option (List (OldCondition JsString))) (tool : AppTool JsString) : Bool :=
  if !(hostPatternsOf tool).any (hostMatches request.host) then false
  else if !tool.graphqlOps.all (fun ops => classified env request == ops) then false
  else (allRuleVariants tool).any fun (pathPattern, method) =>
    endpointMatches request ⟨pathPattern, method, conditions⟩

/-- `appTargetMatches`. -/
def appTargetMatches (env : Env) (request : PolicyRequest JsString) (provider : JsString)
    (toolIds : List JsString) (conditions : Option (List (OldCondition JsString))) : Bool :=
  toolIds.any fun toolId =>
    match getAppTool env provider toolId with
    | none => false
    | some tool => toolMatches env request conditions tool

/-- `providerHostMatches`: the whole app, by host alone. -/
def providerHostMatches (env : Env) (host provider : JsString) : Bool :=
  match getAppPermissionDefinition env provider with
  | none => false
  | some definition => definition.groups.any fun group =>
    (allGroupTools group).any fun tool => (hostPatternsOf tool).any (hostMatches host)

theorem providerHostMatches_eq (env : Env) (host provider : JsString) :
    providerHostMatches env host provider =
      (getAppPermissionDefinition env provider).any fun definition =>
        definition.allTools.any fun tool => (hostPatternsOf tool).any (hostMatches host) := by
  rw [providerHostMatches]
  cases getAppPermissionDefinition env provider with
  | none => rfl
  | some => exact List.any_flatMap.symm

/-! ## The API's policy engine

`policy-translation/evaluator.ts`, the port of the gateway's `evaluate.rs`. The rules of a
level are sorted by priority alone: the loader has put rules of one priority in the order of
their ids, and the sort is stable.
-/

/-- A code unit that `String.prototype.trim` removes. -/
def isTrimmed (u : UInt16) : Bool :=
  let v := u.toNat
  (0x9 ≤ v && v ≤ 0xD) || v == 0x20 || v == 0xA0 || v == 0x1680 || (0x2000 ≤ v && v ≤ 0x200A) ||
    v == 0x2028 || v == 0x2029 || v == 0x202F || v == 0x205F || v == 0x3000 || v == 0xFEFF

/-- `String.prototype.trim`. -/
def trim (s : JsString) : JsString := (s.dropWhile isTrimmed).rdropWhile isTrimmed

/-- `identityMatches`. -/
def identityMatches (rule : NewRule JsString) (request : PolicyRequest JsString) : Bool :=
  rule.identities.length == 0 || rule.identities.any fun
    | .agent id => id == request.agentId
    | .user id => request.userIds.contains id
    | .group id => request.groupIds.contains id

/-- `methodAllows`: the mirror of the gateway's `MethodFilter`. -/
def methodAllows (env : Env) (raw : Option JsString) (method : JsString) : Bool :=
  let trimmed := trim (raw.getD [])
  let except := (Utf16.js "!").isPrefixOf trimmed
  let listed := (((if except then trimmed.drop 1 else trimmed).splitOn (unit ',')).map fun m =>
    env.toUpperCase (trim m)).filter fun m => decide (0 < m.length)
  if listed.length = 0 then true
  else listed.contains (env.toUpperCase method) != except

/-- `targetMatches`. -/
def targetMatches (env : Env) (target : NewTarget JsString) (rule : NewRule JsString)
    (request : PolicyRequest JsString) : Bool :=
  match target with
  | .network hostPattern pathPattern method =>
    hostMatches request.host hostPattern &&
      endpointMatches request ⟨pathPattern.getD (Utf16.js "*"), method, rule.conditions⟩
  | .app provider tools _ =>
    if tools.length = 0 then providerHostMatches env request.host provider
    else appTargetMatches env request provider tools rule.conditions
  | .connection connectionId provider tools method =>
    match provider with
    | none => false
    | some provider =>
      if request.winningConnectionId ≠ some connectionId then false
      else if tools.length = 0 then
        if !methodAllows env method request.method then false
        else providerHostMatches env request.host provider
      else appTargetMatches env request provider tools rule.conditions
  | .secret hostPatterns => hostPatterns.any (hostMatches request.host)

/-- `ruleMatches`. -/
def ruleMatches (env : Env) (request : PolicyRequest JsString) (rule : NewRule JsString) : Bool :=
  identityMatches rule request && decide (0 < rule.targets.length) &&
    rule.targets.any fun t => targetMatches env t rule request

/-- `firstMatch`: the first matching rule in priority order. -/
def firstMatch (env : Env) (rules : List (NewRule JsString)) (request : PolicyRequest JsString) :
    Option (NewRule JsString) :=
  (rules.insertionSort fun a b => a.priority ≤ b.priority).find? (ruleMatches env request)

end Onecli.Api
