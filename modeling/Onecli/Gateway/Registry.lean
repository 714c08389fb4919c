import Onecli.Gateway.Matchers
import Onecli.Gateway.GranularAccess

/-!
# The injection registry

The host rules of `apps/src/lib.rs`: on which hosts and under which paths a provider's
credential is injected. The registry itself is a table of the source and a parameter here.
-/

namespace Onecli.Gateway

/-- `HostPattern`. -/
inductive HostPattern where
  | exact (host : Str)
  | endsWith (back : Str)
  deriving DecidableEq

/-- `HostPattern::matches`; a suffix has to be shorter than the host. -/
def HostPattern.matchesHost (pattern : HostPattern) (hostname : Str) : Bool :=
  match pattern with
  | .exact host => host == hostname
  | .endsWith back => back.isSuffixOf hostname && byteLen back < byteLen hostname

/-- `AuthStrategy`. -/
inductive AuthStrategy where
  | bearer
  | basicXAccessToken
  | basicXTokenAuth
  | zohoOauthtoken
  | pagerDutyToken
  | basicCredentials
  | none
  deriving DecidableEq

/-- `HostRule`. -/
structure HostRule where
  pattern : HostPattern
  pathPrefix : Option Str
  strategy : AuthStrategy
  intercept : Bool
  credentialHostField : Option Str

/-- `RequestFinalizer`. -/
inductive RequestFinalizer where
  | awsSigV4
  | awsAssumeRole

/-- `BodyTransform`. -/
inductive BodyTransform where
  | gitHubCommitTrailer

/-- `MetadataHeader`, `CredentialHeader` and `CredentialParam`: what a field is injected as. -/
structure FieldMapping where
  field : Str
  name : Str

/-- `HostRewrite`. -/
structure HostRewrite where
  credentialField : Str
  template : Str → Str → Option Str

/-- `AppProvider`, without the refresh configuration. -/
structure AppProvider where
  provider : Str
  displayName : Str
  hostRules : List HostRule
  metadataHeaders : List FieldMapping
  credentialHeaders : List FieldMapping
  credentialParams : List FieldMapping
  hostRewrite : Option HostRewrite
  finalizer : Option RequestFinalizer
  bodyTransform : Option BodyTransform

/-- `path_under_prefix`; the pattern ends in `*`, so the path matcher answers. -/
def pathUnderPrefix (path front : Str) : Bool := pathMatchesAnswer path (front ++ "*".toList)

/-- `provider_by_id`. -/
def providerById (registry : List AppProvider) (provider : Str) : Option AppProvider :=
  registry.find? (·.provider == provider)

/-- `provider_matches_host_and_path`. -/
def providerMatchesHostAndPath (registry : List AppProvider) (provider hostname path : Str) : Bool :=
  (providerById registry provider).any fun app => app.hostRules.any fun r =>
    r.pattern.matchesHost hostname && r.pathPrefix.all (pathUnderPrefix path)

/-- `provider_matches_path_scoped`. -/
def providerMatchesPathScoped (registry : List AppProvider) (provider hostname path : Str) : Bool :=
  (providerById registry provider).any fun app => app.hostRules.any fun r =>
    r.pattern.matchesHost hostname && r.pathPrefix.any (pathUnderPrefix path)

/-- Some rule of the provider is for the host. -/
def AppProvider.matchesHost (app : AppProvider) (hostname : Str) : Bool :=
  app.hostRules.any (·.pattern.matchesHost hostname)

/-- `provider_for_host`, the id. -/
def providerForHost (registry : List AppProvider) (hostname : Str) : Option Str :=
  (registry.find? (·.matchesHost hostname)).map (·.provider)

/-- `host_has_path_scoped_providers`. -/
def hostHasPathScopedProviders (registry : List AppProvider) (hostname : Str) : Bool :=
  registry.any fun app => app.hostRules.any fun r => r.pattern.matchesHost hostname && r.pathPrefix.isSome

/-- `provider_for_host_and_path`, the id. -/
def providerForHostAndPath (registry : List AppProvider) (hostname path : Str) : Option Str :=
  let pathMatch := registry.find? fun app => app.hostRules.any fun r =>
    r.pattern.matchesHost hostname && r.pathPrefix.any (pathUnderPrefix path)
  match pathMatch with
  | some app => some app.provider
  | none => if hostHasPathScopedProviders registry hostname then none else providerForHost registry hostname

/-- `providers_for_host`. -/
def providersForHost (registry : List AppProvider) (hostname : Str) : List Str :=
  (registry.filter (·.matchesHost hostname)).map (·.provider)

/-- `needs_access_token`. -/
def needsAccessToken (registry : List AppProvider) (provider : Str) : Bool :=
  (providerById registry provider).any fun app => app.hostRules.any (·.strategy ≠ .none)

/-- `credential_host_field`. -/
def credentialHostField (registry : List AppProvider) (provider hostname : Str) : Option Str := do
  let app ← providerById registry provider
  let rule ← app.hostRules.find? (·.pattern.matchesHost hostname)
  rule.credentialHostField

/-- `host_has_intercept_rules`. -/
def hostHasInterceptRules (registry : List AppProvider) (hostname : Str) : Bool :=
  registry.any fun app => app.hostRules.any (·.intercept) && app.matchesHost hostname

/-- `rewrite_host`. -/
def rewriteHost (registry : List AppProvider) (provider : Str) (creds : Json Str) (originalHost : Str) :
    Option Str := do
  let app ← providerById registry provider
  let rewrite ← app.hostRewrite
  let value ← (creds.get rewrite.credentialField).bind Json.asStr
  rewrite.template value originalHost

/-- What `path_under_prefix` asks of the path matcher is always answered. -/
theorem pathMatches_prefix_star (path front : Str) :
    pathMatches path (front ++ "*".toList) = some (pathUnderPrefix path front) := by
  rw [pathMatches_eq, if_pos (endsInAscii_append_star front)]
  rfl

/-! ## Request guards

`enforce_request` of `ee/src/granular_access.rs`: the guard of the provider that serves a host
and path judges the request under the policy. How the two guards check a request against their
entries is a parameter here.
-/

/-- What a guard reads of a request, besides its host. -/
structure GuardedRequest where
  method : Str
  path : Str
  headers : List (Str × Str)
  body : Option (List UInt8)

/-- `RequestGuard`, of which every one is a resource axis. -/
structure RequestGuard where
  axis : ResourceAxis
  ruleName : Str
  hint : Option Str
  check : List Str → Str → GuardedRequest → Option Str

/-- The checks of the guards. -/
structure GuardChecks where
  dropbox : List Str → Str → GuardedRequest → Option Str
  googleDrive : List Str → Str → GuardedRequest → Option Str

/-- `HINT` of `google_drive.rs`. -/
def googleDriveHint : Str :=
  "Each allowed entry is a path of Google Drive folder IDs (top/…/selected); ".toList ++
    "only the LAST folder in each path and everything inside it can be reached, ".toList ++
    "not the folders above it. List a folder with q=\"'<folderId>' in parents\", ".toList ++
    "and create or move files only into an allowed folder.".toList

/-- `request_guard`. -/
def requestGuard (checks : GuardChecks) (provider : Str) : Option RequestGuard :=
  if provider = "dropbox".toList then
    some ⟨dropbox, "Dropbox folder policy".toList, none, checks.dropbox⟩
  else if provider = "google-drive".toList then
    some ⟨googleDrive, "Google Drive folder policy".toList, some googleDriveHint, checks.googleDrive⟩
  else none

/-- `Denial`. -/
structure Denial where
  reason : Str
  allowed : List Str
  ruleName : Str
  hint : Option Str

/-- `guard_for_request`. -/
def guardForRequest (registry : List AppProvider) (checks : GuardChecks) (host path : Str) :
    Option (Str × RequestGuard) := do
  let host := stripPort host
  let provider ← providerForHostAndPath registry host path
  let guard ← requestGuard checks provider
  return (host, guard)

/-- A guard's judgement of a request under a policy. -/
def RequestGuard.judge (guard : RequestGuard) (policy : Json Str) (host : Str) (request : GuardedRequest) :
    Option Denial :=
  match guardScope policy guard.axis with
  | .unrestricted => none
  | .unenforceable reason => some ⟨reason, [], guard.ruleName, none⟩
  | .allowed allowed =>
    (guard.check allowed host request).map fun reason => ⟨reason, allowed, guard.ruleName, guard.hint⟩

/-- `enforce_request`. -/
def enforceRequest (registry : List AppProvider) (checks : GuardChecks) (policy : Option (Json Str))
    (host : Str) (request : GuardedRequest) : Option Denial := do
  let policy ← policy
  let (host, guard) ← guardForRequest registry checks host request.path
  guard.judge policy host request

end Onecli.Gateway
