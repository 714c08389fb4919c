import Onecli.Gateway.Assemble
import Onecli.Api.Text

/-!
# The API's policy rules and requests

The shapes of `policy-translation/types.ts` that the evaluator reads, over a type of texts.
The enumerations are those of the gateway.
-/

namespace Onecli.Api

open Gateway (Scope Action RateWindow)

/-- `OldCondition`; the matcher does not read its key. -/
structure OldCondition (S : Type) where
  target : S
  operator : S
  value : S
  deriving DecidableEq

/-- `PolicyRequest`; absent user and group lists are empty ones. -/
structure PolicyRequest (S : Type) where
  host : S
  path : S
  method : S
  body : Option S
  agentId : S
  userIds : List S
  groupIds : List S
  winningConnectionId : Option S

/-- `NewIdentity`. -/
inductive NewIdentity (S : Type) where
  | agent (id : S)
  | user (id : S)
  | group (id : S)
  deriving DecidableEq

/-- `NewTarget`; a connection without a provider is an unresolved one. -/
inductive NewTarget (S : Type) where
  | network (hostPattern : S) (pathPattern method : Option S)
  | app (provider : S) (tools : List S) (connectionScope : Option Scope)
  | connection (connectionId : S) (provider : Option S) (tools : List S) (method : Option S)
  | secret (hostPatterns : List S)
  deriving DecidableEq

/-- `NewRule`, with the row ids that ride beside it, so that a rule names its row. -/
structure NewRule (S : Type) where
  id : S
  logicalId : S
  name : S
  scope : Scope
  priority : ℕ
  isDefault : Bool
  identities : List (NewIdentity S)
  targets : List (NewTarget S)
  action : Action
  requireApproval : Bool
  rateLimit : Option ℕ
  rateLimitWindow : Option RateWindow
  conditions : Option (List (OldCondition S))
  deriving DecidableEq

/-! ## The API's matchers

`lib/path-match.ts`, the TypeScript ports of `path_matches` and `host_matches`: lengths,
indices and slices count UTF-16 code units. `policy-translation/endpoint-match.ts`: path,
method and conditions of one endpoint, and the bridge from a Git pack service to its discovery
request. The host is matched by the caller.
-/

open Utf16

/-! ## Paths and hosts -/

/-- `requestPath.split("?")[0]`. -/
def withoutQuery (path : JsString) : JsString := path.takeWhile (· ≠ unit '?')

/-- `hasMidPathWildcard`: a `*` anywhere but in the last position. -/
def hasMidPathWildcard (pattern : JsString) : Bool :=
  decide (1 < pattern.length) && pattern.dropLast.contains (unit '*')

/-- `segmentMatches`: a `*` inside a segment stands for any text between its neighbours. -/
def segmentMatches (segment pattern : JsString) : Bool :=
  match pattern.idxOf? (unit '*') with
  | none => segment == pattern
  | some pos =>
    let front := pattern.take pos
    let back := pattern.drop (pos + 1)
    front.isPrefixOf segment && back.isSuffixOf segment &&
      decide (front.length + back.length ≤ segment.length)

/-- `segmentWildcardMatches`. -/
def segmentWildcardMatches (path pattern : JsString) : Bool :=
  let pathSegs := path.splitOn (unit '/')
  let patSegs := pattern.splitOn (unit '/')
  -- a pattern ending in `/` also accepts the same path without its trailing slash
  let pathSegs :=
    if 1 < patSegs.length && patSegs.getLast? == some [] && pathSegs.getLast? != some [] &&
        pathSegs.length + 1 == patSegs.length then pathSegs ++ [[]]
    else pathSegs
  let trailingWild := patSegs.getLast? == some (js "*")
  let fixedPats := if trailingWild then patSegs.dropLast else patSegs
  if trailingWild then
    if pathSegs.length < fixedPats.length + 1 then false
    else (fixedPats.zip pathSegs).all fun (pat, seg) => segmentMatches seg pat
  else if pathSegs.length ≠ patSegs.length then false
  else (fixedPats.zip pathSegs).all fun (pat, seg) => segmentMatches seg pat

/-- `pathMatches`: the five pattern forms, tried in order. -/
def pathMatches (requestPath pattern : JsString) : Bool :=
  let path := withoutQuery requestPath
  if pattern = js "*" then true
  else if hasMidPathWildcard pattern then segmentWildcardMatches path pattern
  else if (js "/*").isSuffixOf pattern then
    let front := pattern.take (pattern.length - 2)
    path == front || (front.isPrefixOf path && path[front.length]? == some (unit '/'))
  else if (js "*").isSuffixOf pattern then
    (pattern.take (pattern.length - 1)).isPrefixOf path
  else path == pattern

/-- `labelMatches`: one host label against one pattern label. -/
def labelMatches (hostLabel patternLabel : JsString) : Bool :=
  if hostLabel.length = 0 then false
  else match patternLabel.idxOf? (unit '*') with
    | none => asciiLower hostLabel == asciiLower patternLabel
    | some star =>
      let front := patternLabel.take star
      let back := patternLabel.drop (star + 1)
      -- a second `*` in the same label is refused
      if back.contains (unit '*') then false
      else decide (front.length + back.length < hostLabel.length) &&
        asciiLower (hostLabel.take front.length) == asciiLower front &&
        asciiLower (hostLabel.drop (hostLabel.length - back.length)) == asciiLower back

/-- `multiWildcardMatches`: label counts have to agree, then every pair of labels. -/
def multiWildcardMatches (requestHost pattern : JsString) : Bool :=
  let hostLabels := requestHost.splitOn (unit '.')
  let patternLabels := pattern.splitOn (unit '.')
  if hostLabels.length ≠ patternLabels.length then false
  else (hostLabels.zip patternLabels).all fun (hostLabel, patternLabel) =>
    labelMatches hostLabel patternLabel

/-- `hostMatches`: the two regimes, split on the number of wildcards. -/
def hostMatches (requestHost pattern : JsString) : Bool :=
  if 2 ≤ pattern.count (unit '*') then multiWildcardMatches requestHost pattern
  else match pattern.idxOf? (unit '*') with
    | none => asciiLower requestHost == asciiLower pattern
    | some star =>
      let front := pattern.take star
      let back := pattern.drop (star + 1)
      decide (front.length + back.length ≤ requestHost.length) &&
        asciiLower (requestHost.take front.length) == asciiLower front &&
        asciiLower (requestHost.drop (requestHost.length - back.length)) == asciiLower back

/-! ## Requests -/

/-- `conditionMatches`. -/
def conditionMatches (c : OldCondition JsString) (body : Option JsString) : Bool :=
  if c.target = js "body" ∧ c.operator = js "contains" then
    match body with
    | none => false
    | some body => includesStr (asciiLower body) (asciiLower c.value)
  else true

/-- `conditionsMatch`. -/
def conditionsMatch (conditions : Option (List (OldCondition JsString))) (body : Option JsString) :
    Bool :=
  match conditions with
  | none => true
  | some conditions => conditions.isEmpty || conditions.all (conditionMatches · body)

/-- The `base` and the `query` of a path, cut at the first `?`. -/
def baseAndQuery (path : JsString) : JsString × JsString :=
  match path.idxOf? (unit '?') with
  | none => (path, [])
  | some qIdx => (path.take qIdx, path.drop (qIdx + 1))

/-- `isGitDiscovery`: `/info/refs?service=<service>`. -/
def isGitDiscovery (path service : JsString) : Bool :=
  let (base, query) := baseAndQuery path
  (js "/info/refs").isSuffixOf base &&
    (query.splitOn (unit '&')).any fun p => p == js "service=" ++ service

/-- `GIT_PACK_SERVICES`. -/
def gitPackServices : List JsString := [js "git-receive-pack", js "git-upload-pack"]

/-- `EndpointPattern`. -/
structure EndpointPattern where
  pathPattern : JsString
  method : Option JsString
  conditions : Option (List (OldCondition JsString))

/-- `endpointMatches`. -/
def endpointMatches (request : PolicyRequest JsString) (pattern : EndpointPattern) : Bool :=
  let direct := pathMatches request.path pattern.pathPattern &&
    pattern.method.all (fun method => asciiLower method == asciiLower request.method) &&
    conditionsMatch pattern.conditions request.body
  if direct then true
  else if asciiLower request.method == js "get" then
    match gitPackServices.find? fun service =>
        (js "/" ++ service).isSuffixOf pattern.pathPattern && isGitDiscovery request.path service with
    | some _ => conditionsMatch pattern.conditions request.body
    | none => false
  else false

/-- The path and the method of a pattern cover the request, directly or as a discovery. -/
def endpointCovers (request : PolicyRequest JsString) (pathPattern : JsString)
    (method : Option JsString) : Bool :=
  (pathMatches request.path pathPattern &&
      method.all (fun method => asciiLower method == asciiLower request.method)) ||
    (asciiLower request.method == js "get" && gitPackServices.any fun service =>
      (js "/" ++ service).isSuffixOf pathPattern && isGitDiscovery request.path service)

/-- The matcher joins two answers that do not depend on each other: the endpoint, and the
conditions on the body. -/
theorem endpointMatches_eq (request : PolicyRequest JsString) (pattern : EndpointPattern) :
    endpointMatches request pattern =
      (endpointCovers request pattern.pathPattern pattern.method &&
        conditionsMatch pattern.conditions request.body) := by
  rw [endpointMatches, endpointCovers, ← List.isSome_find?]
  cases gitPackServices.find? _ <;> cases conditionsMatch pattern.conditions request.body <;>
    cases asciiLower request.method == js "get" <;> cases pathMatches request.path pattern.pathPattern <;>
    cases pattern.method.all _ <;> rfl

end Onecli.Api
