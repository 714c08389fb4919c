import Onecli.Gateway.Registry

/-!
# Resolving app connections

`proxy/src/connect.rs`: the connections of an agent are resolved to injection rules for one
request. Rules are put in front of the request by their path patterns alone; the policy, the
host rewrite and the other metadata are those of the connection that serves the request. Each
rule and pending credential remembers the connection that it was built for, which the source
does not keep. Decrypting, parsing and resolving an access token are answers of the outside.
-/

namespace Onecli.Gateway

/-- `db::AppConnectionRow`. -/
structure AppConnectionRow where
  id : Str
  provider : Str
  scope : Str
  credentials : Option Str
  label : Option Str
  metadata : Option (Json Str)
  sessionPolicy : Option (Json Str)

/-- `Injection`, of which app connections use two. -/
inductive Injection where
  | setHeader (name value : Str)
  | setParam (name value : Str)

/-- `InjectionRule`; the rules of an app connection have no secret. -/
structure InjectionRule where
  pathPattern : Str
  injections : List Injection

/-- `TokenFailure`. -/
inductive TokenFailure where
  | unavailable
  | needsReconnect

/-- What a resolution asks of the outside: the keys, `serde_json`, base64, `resolve_access_token`
and the clock. -/
structure Outside where
  decrypt : Str → Option Str
  fromStr : Str → Option (Json Str)
  toText : Json Str → Str
  base64 : Str → Str
  resolveAccessToken : AppConnectionRow → Str → Except TokenFailure (Str × Option ℤ)
  now : ℤ

section Rules

/-- The `injections` of a strategy. -/
def AuthStrategy.injections (outside : Outside) (token : Str) : AuthStrategy → List Injection
  | .bearer => [.setHeader "authorization".toList ("Bearer ".toList ++ token)]
  | .basicXAccessToken => [basic ("x-access-token:".toList ++ token)]
  | .basicXTokenAuth => [basic ("x-token-auth:".toList ++ token)]
  | .zohoOauthtoken => [.setHeader "authorization".toList ("Zoho-oauthtoken ".toList ++ token)]
  | .pagerDutyToken => [.setHeader "authorization".toList ("Token token=".toList ++ token)]
  | .basicCredentials => [basic token]
  | .none => []
where
  /-- `basic_credentials_header`. -/
  basic (pair : Str) : Injection := .setHeader "authorization".toList ("Basic ".toList ++ outside.base64 pair)

/-- The path pattern of a host rule. -/
def HostRule.pathPattern (rule : HostRule) : Str :=
  match rule.pathPrefix with
  | none => "*".toList
  | some front => front ++ "*".toList

/-- `build_app_injection_rules`. -/
def buildAppInjectionRules (outside : Outside) (registry : List AppProvider) (provider hostname token : Str) :
    List InjectionRule :=
  match providerById registry provider with
  | none => []
  | some app =>
    (app.hostRules.filter (·.pattern.matchesHost hostname)).map fun rule =>
      ⟨rule.pathPattern, rule.strategy.injections outside token⟩

/-- The injections of mapped fields of a JSON value. -/
def fieldInjections (value : Option (Json Str)) (mappings : List FieldMapping) (make : Str → Str → Injection) :
    List Injection :=
  match value with
  | none => []
  | some value => mappings.filterMap fun m => ((value.get m.field).bind Json.asStr).map (make m.name)

/-- `CachedAppInjection`. -/
structure CachedAppInjection where
  rules : List InjectionRule
  rewriteHost : Option Str
  connectionLabel : Option Str

/-- The cache of injection rules. -/
abbrev RuleCache := Str → Option CachedAppInjection

/-- `injection_cache_prefix`. -/
def injectionCachePrefix (organizationId workspaceId : Str) : Str :=
  "app_injection:".toList ++ organizationId ++ ":".toList ++ workspaceId ++ ":".toList

/-- `injection_cache_key`. -/
def injectionCacheKey (outside : Outside) (organizationId workspaceId : Str) (conn : AppConnectionRow)
    (hostname : Str) : Str :=
  let policySuffix :=
    match conn.sessionPolicy with
    | none => []
    | some policy => ":".toList ++ outside.toText policy
  injectionCachePrefix organizationId workspaceId ++ conn.id ++ ":".toList ++ hostname ++ policySuffix

/-- `CACHE_TTL_SECS`. -/
def cacheTtlSecs : ℤ := 60

/-- How long built rules are cached: not past the token's expiry. -/
def cacheTtl (now : ℤ) (expiresAt : Option ℤ) : ℤ :=
  match expiresAt with
  | some exp => if now < exp then min (exp - now) cacheTtlSecs else 0
  | none => cacheTtlSecs

/-- What `build_connection_rules` answers. -/
structure BuiltRules where
  rules : List InjectionRule
  rewriteHost : Option Str
  expiresAt : Option ℤ

/-- `build_connection_rules`, without the write to the cache. -/
def connectionRules (outside : Outside) (registry : List AppProvider) (conn : AppConnectionRow)
    (decryptedJson hostname : Str) : Except TokenFailure BuiltRules :=
  let creds := outside.fromStr decryptedJson
  let app := providerById registry conn.provider
  let credentialHeaders := (app.map (·.credentialHeaders)).getD []
  let credentialParams := (app.map (·.credentialParams)).getD []
  let resolved :=
    if needsAccessToken registry conn.provider then outside.resolveAccessToken conn decryptedJson
    else .ok ([], none)
  resolved.map fun (token, expiresAt) =>
    let built := buildAppInjectionRules outside registry conn.provider hostname token
    -- credential-only providers have a catch-all rule to attach to
    let rules :=
      if built.isEmpty && (!credentialHeaders.isEmpty || !credentialParams.isEmpty) then [⟨"*".toList, []⟩]
      else built
    let attached :=
      fieldInjections conn.metadata ((app.map (·.metadataHeaders)).getD []) .setHeader ++
        fieldInjections creds credentialHeaders .setHeader ++ fieldInjections creds credentialParams .setParam
    { rules := rules.map fun rule => { rule with injections := rule.injections ++ attached }
      rewriteHost := creds.bind fun creds => rewriteHost registry conn.provider creds hostname
      expiresAt := expiresAt }

/-- `build_connection_rules`: rules are cached while their token is alive. -/
def buildConnectionRules (outside : Outside) (registry : List AppProvider) (conn : AppConnectionRow)
    (decryptedJson hostname cacheKey : Str) (cache : RuleCache) :
    Except TokenFailure BuiltRules × RuleCache :=
  match connectionRules outside registry conn decryptedJson hostname with
  | .error failure => (.error failure, cache)
  | .ok built =>
    if 0 < cacheTtl outside.now built.expiresAt then
      (.ok built, Function.update cache cacheKey (some ⟨built.rules, built.rewriteHost, conn.label⟩))
    else (.ok built, cache)

end Rules

section Results

/-- `ConnectionChoice`, without its display name. -/
structure ConnectionChoice where
  id : Str
  label : Option Str
  provider : Str
  host : Option Str

/-- `from_row`. -/
def ConnectionChoice.fromRow (row : AppConnectionRow) : ConnectionChoice := ⟨row.id, row.label, row.provider, none⟩

/-- An injection rule and the connection that it was built for. -/
structure OwnedRule where
  owner : AppConnectionRow
  rule : InjectionRule

/-- `PendingInjection`. -/
structure PendingInjection where
  conn : AppConnectionRow
  decryptedJson : Str
  hostname : Str
  cacheKey : Str
  workspaceId : Str

/-- The fields of `AppConnectionResult::Rules`. -/
structure Resolution where
  rules : List OwnedRule
  tokenExpiresAt : Option ℤ
  rewriteHost : Option Str
  connectionLabel : Option Str
  finalizer : Option RequestFinalizer
  bodyTransform : Option BodyTransform
  provider : Str
  sessionPolicy : Option (Json Str)
  connectionId : Option Str
  pending : List PendingInjection

/-- `AppConnectionResult`. -/
inductive AppConnectionResult where
  | rules (resolution : Resolution)
  | noConnections
  | ambiguous (connections : List ConnectionChoice)
  | multipleProviders (connections : List ConnectionChoice)
  | notFound (connections : List ConnectionChoice)
  | hostMismatch (connections : List ConnectionChoice)
  | needsReconnect (connection : ConnectionChoice)

end Results

section HostGate

/-- `find` of a text and what follows it. -/
def afterFirst (needle s : Str) : Option Str := (s.tails.find? needle.isPrefixOf).map (·.drop needle.length)

/-- `normalize_host`. -/
def normalizeHost (s : Str) : Str :=
  let h := trim s
  let h := (afterFirst "://".toList h).getD h
  toAsciiLowercase ((h.takeWhile (· ≠ '/')).takeWhile (· ≠ ':'))

/-- `is_bare_hostname`. -/
def isBareHostname (host : Str) : Bool :=
  !host.isEmpty && byteLen host ≤ 253 && (host.splitOn '.').all fun label =>
    !label.isEmpty && byteLen label ≤ 63 && label.head? ≠ some '-' && label.getLast? ≠ some '-' &&
      label.all fun c => c.isAlphanum || c == '-'

/-- `HostGate`. -/
inductive HostGate where
  | pass
  | mismatch (boundHost : Option Str)

/-- `vouched_bound_host`. -/
def vouchedBoundHost (registry : List AppProvider) (provider host : Str) : Bool :=
  isBareHostname host && (providersForHost registry host).contains provider

/-- `credential_host_gate`. -/
def credentialHostGate (registry : List AppProvider) (provider : Str) (creds : Option (Json Str))
    (hostname : Str) : HostGate :=
  match credentialHostField registry provider hostname with
  | none => .pass
  | some field =>
    let stored := (((creds.bind (·.get field)).bind Json.asStr).map normalizeHost).filter (!·.isEmpty)
    match stored with
    | none => .mismatch none
    | some bound =>
      if bound = normalizeHost hostname then .pass
      else if vouchedBoundHost registry provider bound then .mismatch (some bound)
      else .mismatch none

end HostGate

section OneConnection

/-- `finalizer_for_provider`. -/
def finalizerForProvider (registry : List AppProvider) (provider : Str) : Option RequestFinalizer :=
  registry.findSome? fun app => if app.provider = provider then app.finalizer else none

/-- `body_transform_for_provider`. -/
def bodyTransformForProvider (registry : List AppProvider) (provider : Str) : Option BodyTransform :=
  registry.findSome? fun app => if app.provider = provider then app.bodyTransform else none

/-- `granular_scoping_requested`: a non-empty object. -/
def granularScopingRequested (sessionPolicy : Option (Json Str)) : Bool :=
  (sessionPolicy.bind Json.asObject).any (!·.isEmpty)

/-- `has_token_scoper`. -/
def hasTokenScoper (credType : Str) : Bool := credType == "github_app".toList

/-- What one connection contributes, with the metadata that is its own. -/
def Resolution.ofConnection (registry : List AppProvider) (conn : AppConnectionRow) (rules : List InjectionRule)
    (tokenExpiresAt : Option ℤ) (rewriteHost connectionLabel : Option Str) (pending : List PendingInjection) :
    Resolution where
  rules := rules.map (OwnedRule.mk conn)
  tokenExpiresAt := tokenExpiresAt
  rewriteHost := rewriteHost
  connectionLabel := connectionLabel
  finalizer := finalizerForProvider registry conn.provider
  bodyTransform := bodyTransformForProvider registry conn.provider
  provider := conn.provider
  sessionPolicy := conn.sessionPolicy
  connectionId := some conn.id
  pending := pending

/-- `resolve_connection_injections`. -/
def resolveConnectionInjections (outside : Outside) (registry : List AppProvider)
    (organizationId workspaceId hostname : Str) (conn : AppConnectionRow) (cache : RuleCache) :
    AppConnectionResult × RuleCache :=
  let cacheKey := injectionCacheKey outside organizationId workspaceId conn hostname
  match cache cacheKey with
  | some cached =>
    (.rules (.ofConnection registry conn cached.rules none cached.rewriteHost cached.connectionLabel []), cache)
  | none =>
    match conn.credentials.bind outside.decrypt with
    | none => (.noConnections, cache)
    | some decryptedJson =>
      let creds := outside.fromStr decryptedJson
      let label := conn.label
      if deniesEverything conn.sessionPolicy then
        (.rules { Resolution.ofConnection registry conn [] none none label [] with
          finalizer := none, bodyTransform := none }, cache)
      else
        match credentialHostGate registry conn.provider creds hostname with
        | .mismatch boundHost => (.hostMismatch [{ ConnectionChoice.fromRow conn with host := boundHost }], cache)
        | .pass =>
          let credType := ((creds.bind (·.get "type".toList)).bind Json.asStr).getD []
          -- a resource-scoped credential is minted only once the request is allowed
          if needsAccessToken registry conn.provider && hasTokenScoper credType &&
              granularScopingRequested conn.sessionPolicy && !hostHasInterceptRules registry hostname then
            let rewritten := creds.bind fun creds => rewriteHost registry conn.provider creds hostname
            (.rules (.ofConnection registry conn [] none rewritten label
              [⟨conn, decryptedJson, hostname, cacheKey, workspaceId⟩]), cache)
          else
            match buildConnectionRules outside registry conn decryptedJson hostname cacheKey cache with
            | (.error .needsReconnect, cache) => (.needsReconnect (.fromRow conn), cache)
            | (.error .unavailable, cache) => (.noConnections, cache)
            | (.ok built, cache) =>
              (.rules (.ofConnection registry conn built.rules built.expiresAt built.rewriteHost label []), cache)

end OneConnection

section Request

/-- `provider_serves_request`. -/
def providerServesRequest (registry : List AppProvider) (provider hostname : Str) (requestPath : Option Str) :
    Bool :=
  requestPath.any (providerMatchesHostAndPath registry provider hostname)

/-- `narrow_connections_by_path`. -/
def narrowConnectionsByPath (registry : List AppProvider) (connections : List AppConnectionRow) (hostname : Str)
    (requestPath : Option Str) : List AppConnectionRow :=
  if connections.length ≤ 1 then connections
  else
    match requestPath with
    | none => connections
    | some path =>
      if !hostHasPathScopedProviders registry hostname then connections
      else
        let narrowed := connections.filter fun c => providerMatchesHostAndPath registry c.provider hostname path
        if narrowed.isEmpty then connections else narrowed

/-- The accumulators of the loop over several connections. -/
structure Merged where
  rules : List OwnedRule
  earliestExpiresAt : Option ℤ
  rewriteHost : Option Str
  label : Option Str
  finalizer : Option RequestFinalizer
  bodyTransform : Option BodyTransform
  provider : Option Str
  sessionPolicy : Option (Json Str)
  connectionId : Option Str
  pending : List PendingInjection
  hostMismatches : List ConnectionChoice

/-- The accumulators before the loop. -/
def Merged.empty : Merged := ⟨[], none, none, none, none, none, none, none, none, [], []⟩

/-- The earlier of two expiries. -/
def earlier (earliest expiresAt : Option ℤ) : Option ℤ :=
  match earliest, expiresAt with
  | none, exp => exp
  | some cur, some exp => if exp < cur then some exp else some cur
  | some cur, none => some cur

/-- The loop's body, on the rules of one connection; only one that serves the request gives more. -/
def Merged.addRules (acc : Merged) (r : Resolution) (serves : Bool) : Merged :=
  let acc := { acc with
    rules := acc.rules ++ r.rules
    pending := acc.pending ++ r.pending
    earliestExpiresAt := earlier acc.earliestExpiresAt r.tokenExpiresAt }
  if serves then
    { acc with
      rewriteHost := r.rewriteHost.or acc.rewriteHost
      label := acc.label.or r.connectionLabel
      finalizer := r.finalizer.or acc.finalizer
      bodyTransform := r.bodyTransform.or acc.bodyTransform
      sessionPolicy := r.sessionPolicy
      connectionId := r.connectionId
      provider := some r.provider }
  else { acc with provider := acc.provider.or (some r.provider) }

/-- The loop's body; the error is the connection to reconnect. -/
def mergeConnection (outside : Outside) (registry : List AppProvider) (organizationId workspaceId hostname : Str)
    (requestPath : Option Str) (acc : Merged) (conn : AppConnectionRow) (cache : RuleCache) :
    Except ConnectionChoice Merged × RuleCache :=
  match resolveConnectionInjections outside registry organizationId workspaceId hostname conn cache with
  | (.rules r, cache) =>
    (.ok (acc.addRules r (providerServesRequest registry r.provider hostname requestPath)), cache)
  | (.hostMismatch connections, cache) =>
    (.ok { acc with hostMismatches := acc.hostMismatches ++ connections }, cache)
  | (.needsReconnect connection, cache) =>
    if providerServesRequest registry connection.provider hostname requestPath then (.error connection, cache)
    else (.ok acc, cache)
  | (_, cache) => (.ok acc, cache)

/-- The loop over several connections. -/
def mergeConnections (outside : Outside) (registry : List AppProvider) (organizationId workspaceId hostname : Str)
    (requestPath : Option Str) :
    List AppConnectionRow → Merged → RuleCache → Except ConnectionChoice Merged × RuleCache
  | [], acc, cache => (.ok acc, cache)
  | conn :: rest, acc, cache =>
    match mergeConnection outside registry organizationId workspaceId hostname requestPath acc conn cache with
    | (.error connection, cache) => (.error connection, cache)
    | (.ok acc, cache) =>
      mergeConnections outside registry organizationId workspaceId hostname requestPath rest acc cache

/-- Several connections, of which each provider has one, resolve together. -/
def resolveSeveral (outside : Outside) (registry : List AppProvider) (organizationId workspaceId hostname : Str)
    (requestPath : Option Str) (connections : List AppConnectionRow) (cache : RuleCache) :
    AppConnectionResult × RuleCache :=
  if !connections.all (fun c => connections.countP (·.provider == c.provider) == 1) then
    (.ambiguous (connections.map .fromRow), cache)
  else
    let matching := connections.filter fun c => providerServesRequest registry c.provider hostname requestPath
    if 1 < matching.length then (.multipleProviders (matching.map .fromRow), cache)
    else
      match mergeConnections outside registry organizationId workspaceId hostname requestPath connections .empty
        cache with
      | (.error connection, cache) => (.needsReconnect connection, cache)
      | (.ok m, cache) =>
        if m.rules.isEmpty && m.pending.isEmpty && !m.hostMismatches.isEmpty then
          (.hostMismatch m.hostMismatches, cache)
        else
          (.rules {
            rules := m.rules
            tokenExpiresAt := m.earliestExpiresAt
            rewriteHost := m.rewriteHost
            connectionLabel := m.label
            finalizer := m.finalizer
            bodyTransform := m.bodyTransform
            provider := m.provider.getD []
            sessionPolicy := m.sessionPolicy
            connectionId := m.connectionId
            pending := m.pending }, cache)

/-- A single connection resolves alone; one that does not serve the request gives its rules only. -/
def resolveSingle (outside : Outside) (registry : List AppProvider) (organizationId workspaceId hostname : Str)
    (requestPath : Option Str) (conn : AppConnectionRow) (cache : RuleCache) :
    AppConnectionResult × RuleCache :=
  match resolveConnectionInjections outside registry organizationId workspaceId hostname conn cache with
  | (.needsReconnect connection, cache) =>
    if providerServesRequest registry connection.provider hostname requestPath then
      (.needsReconnect connection, cache)
    else (.noConnections, cache)
  | (.rules r, cache) =>
    if providerServesRequest registry r.provider hostname requestPath then (.rules r, cache)
    else
      (.rules { r with
        rewriteHost := none
        connectionLabel := none
        finalizer := none
        bodyTransform := none
        sessionPolicy := none
        connectionId := none }, cache)
  | (result, cache) => (result, cache)

/-- `resolve_app_injection_for_request`, past the pin. -/
def resolveUnpinned (outside : Outside) (registry : List AppProvider) (organizationId workspaceId hostname : Str)
    (requestPath : Option Str) (connections : List AppConnectionRow) (cache : RuleCache) :
    AppConnectionResult × RuleCache :=
  match narrowConnectionsByPath registry connections hostname requestPath with
  | [conn] => resolveSingle outside registry organizationId workspaceId hostname requestPath conn cache
  | candidates => resolveSeveral outside registry organizationId workspaceId hostname requestPath candidates cache

/-- `resolve_app_injection_for_request`. -/
def resolveAppInjectionForRequest (outside : Outside) (registry : List AppProvider)
    (appConnections : List AppConnectionRow) (hostname : Str) (requestPath connectionId : Option Str)
    (organizationId workspaceId : Str) (cache : RuleCache) : AppConnectionResult × RuleCache :=
  let serves := fun provider => providerServesRequest registry provider hostname requestPath
  let unpinned := resolveUnpinned outside registry organizationId workspaceId hostname requestPath appConnections
    cache
  if appConnections.isEmpty then (.noConnections, cache)
  else
    match connectionId with
    | none => unpinned
    | some connId =>
      match appConnections.find? (·.id == connId) with
      | none => (.notFound (appConnections.map .fromRow), cache)
      | some conn =>
        let pinServes := serves conn.provider
        let anotherServes := appConnections.any fun c => c.id ≠ conn.id && serves c.provider
        if pinServes || !anotherServes then
          match resolveConnectionInjections outside registry organizationId workspaceId hostname conn cache with
          | (.needsReconnect connection, cache) =>
            if pinServes then (.needsReconnect connection, cache) else (.noConnections, cache)
          | (result, cache) => (result, cache)
        else unpinned

end Request

end Onecli.Gateway
