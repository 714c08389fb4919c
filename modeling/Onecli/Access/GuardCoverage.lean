import Onecli.Gateway.AppInjection
import Onecli.Parity.Matchers

/-!
# Guard coverage

Where the credential of a Dropbox or Drive connection is put on a request, the request is judged
by that provider's guard under that connection's policy. The rules of connections that do not
serve the request are merged too, and their patterns keep them off it: a pattern that fits the
path makes its provider the one that serves the request, the only one that several connections
may have, and the first one registered for the path.
-/

namespace Onecli.Access.GuardCoverage

open Gateway List Option Except

section Registry

/-- The path prefixes of a provider's rules for a host. -/
def fronts (app : AppProvider) (hostname : Str) : List (Option Str) :=
  (app.hostRules.filter (·.pattern.matchesHost hostname)).map (·.pathPrefix)

/-- What the registry has for a host: the providers with rules for it, and their path prefixes. -/
def entriesFor (registry : List AppProvider) (hostname : Str) : List (Str × List (Option Str)) :=
  registry.filterMap fun app =>
    if (fronts app hostname).isEmpty then none else some (app.provider, fronts app hostname)

/-- The hosts of the Dropbox API. -/
def dropboxHosts : List Str := ["api.dropboxapi.com".toList, "content.dropboxapi.com".toList]

/-- The host that Drive shares with other Google providers. -/
def googleHost : Str := "www.googleapis.com".toList

/-- The path prefixes of Drive. -/
def drivePrefixes : List Str := ["/drive/".toList, "/upload/drive/".toList, "/batch/drive/".toList]

/-- The entries for the shared host, in the order of the registry. -/
def googleEntries : List (Str × List (Option Str)) :=
  [("gmail".toList, [some "/gmail/".toList, some "/batch/gmail/".toList]),
    ("google-calendar".toList, [some "/calendar/".toList, some "/batch/calendar/".toList]),
    ("google-drive".toList, drivePrefixes.map some), ("google-search-console".toList, [some "/webmasters/".toList]),
    ("youtube".toList, [some "/youtube/".toList, some "/upload/youtube/".toList, some "/batch/youtube/".toList])]

/-- A provider's rules are for the given hosts only, and only its token is injected. -/
structure PlainOn (hosts : List Str) (app : AppProvider) : Prop where
  pattern_mem : ∀ r ∈ app.hostRules, ∃ host ∈ hosts, r.pattern = .exact host
  credentialHeaders_eq : app.credentialHeaders = []
  credentialParams_eq : app.credentialParams = []
  hostRewrite_eq : app.hostRewrite = none

/-- The entries of the registry for the hosts of the two guarded providers. -/
structure KnownEntries (registry : List AppProvider) : Prop where
  dropbox : ∀ host ∈ dropboxHosts, entriesFor registry host = [("dropbox".toList, [none])]
  google : entriesFor registry googleHost = googleEntries
  dropbox_plain : ∀ app, providerById registry "dropbox".toList = some app → PlainOn dropboxHosts app
  drive_plain : ∀ app, providerById registry "google-drive".toList = some app → PlainOn [googleHost] app

/-- The two providers with a guard of their own. -/
def Guarded (provider : Str) : Prop := provider = "dropbox".toList ∨ provider = "google-drive".toList

variable {registry : List AppProvider} {app : AppProvider}

theorem providerById_eq_some {provider : Str} (h : providerById registry provider = some app) :
    app ∈ registry ∧ app.provider = provider := by
  refine ⟨List.mem_of_find?_eq_some h, ?_⟩
  exact beq_iff_eq.mp (List.find?_some (p := fun app : AppProvider => app.provider == provider) h)

theorem KnownEntries.plain (h : KnownEntries registry) {provider : Str} (hguard : Guarded provider)
    (happ : providerById registry provider = some app) : ∃ hosts, PlainOn hosts app := by
  rcases hguard with rfl | rfl
  · exact ⟨_, h.dropbox_plain app happ⟩
  · exact ⟨_, h.drive_plain app happ⟩

theorem mem_fronts {r : HostRule} (hr : r ∈ app.hostRules) {hostname : Str}
    (hhost : r.pattern.matchesHost hostname = true) : r.pathPrefix ∈ fronts app hostname :=
  List.mem_map_of_mem (mem_filter.mpr ⟨hr, hhost⟩)

theorem mem_entriesFor (happ : app ∈ registry) {hostname : Str} (hne : fronts app hostname ≠ []) :
    (app.provider, fronts app hostname) ∈ entriesFor registry hostname := by
  refine mem_filterMap.mpr ⟨app, happ, if_neg ?_⟩
  rw [List.isEmpty_iff]
  exact hne

theorem find?_entriesFor (registry : List AppProvider) (hostname : Str) {Q : List (Option Str) → Bool}
    (hnil : Q [] = false) :
    (registry.find? fun app => Q (fronts app hostname)).map (·.provider) =
      ((entriesFor registry hostname).find? fun e => Q e.2).map (·.1) := by
  induction registry with
  | nil => rfl
  | cons app registry ih =>
    rw [entriesFor, filterMap_cons, List.find?_cons]
    cases hfronts : fronts app hostname with
    | nil =>
      rw [hnil]
      exact ih
    | cons front rest =>
      simp only [isEmpty_cons, Bool.false_eq_true, ↓reduceIte, List.find?_cons]
      cases Q (front :: rest) with
      | true => rfl
      | false => exact ih

theorem providerForHostAndPath_eq (registry : List AppProvider) (hostname path : Str) :
    providerForHostAndPath registry hostname path =
      match ((entriesFor registry hostname).find? fun e => e.2.any (·.any (pathUnderPrefix path))).map (·.1) with
      | some provider => some provider
      | none =>
        if ((entriesFor registry hostname).find? fun e => e.2.any (·.isSome)).isSome then none
        else ((entriesFor registry hostname).find? fun e => !e.2.isEmpty).map (·.1) := by
  have hfronts (Q : Option Str → Bool) :
      (fun app : AppProvider => app.hostRules.any fun r => r.pattern.matchesHost hostname && Q r.pathPrefix) =
        fun app => (fronts app hostname).any Q := by
    funext app
    rw [fronts, List.any_map, List.any_filter]
    rfl
  have hmatches : (fun app : AppProvider => app.matchesHost hostname) = fun app => !(fronts app hostname).isEmpty := by
    funext app
    rw [Bool.eq_iff_iff, AppProvider.matchesHost, fronts, Bool.not_eq_true', isEmpty_eq_false_iff, List.any_eq_true, Ne,
      map_eq_nil_iff]
    simp
  have hscoped : (registry.any fun app => (fronts app hostname).any (·.isSome)) =
      ((entriesFor registry hostname).find? fun e => e.2.any (·.isSome)).isSome := by
    rw [← isSome_map (f := Prod.fst),
      ← find?_entriesFor registry hostname (Q := fun fronts => fronts.any (·.isSome)) rfl, isSome_map]
    exact (Bool.eq_iff_iff.mpr (by rw [List.find?_isSome, List.any_eq_true])).symm
  rw [providerForHostAndPath, hostHasPathScopedProviders, providerForHost, hmatches,
    hfronts (·.any (pathUnderPrefix path)), hfronts (·.isSome), hscoped,
    ← find?_entriesFor registry hostname (Q := fun fronts => fronts.any (·.any (pathUnderPrefix path))) rfl,
    ← find?_entriesFor registry hostname (Q := fun fronts => !fronts.isEmpty) rfl]
  cases registry.find? fun app => (fronts app hostname).any (·.any (pathUnderPrefix path)) <;> rfl

end Registry

section Paths

/-- A path is under a prefix that ends in `/` when it is so as a folder. -/
theorem pathUnderPrefix_folder_iff (path : Str) {front : Str} (hstar : '*' ∉ front) :
    pathUnderPrefix path (front ++ "/".toList) = true ↔ front ++ "/".toList <+: withoutQuery path ++ "/".toList := by
  have hpat : front ++ "/".toList ++ "*".toList = front ++ "/*".toList := append_assoc _ _ _
  have hnotStar : front ++ "/*".toList ≠ "*".toList := by
    intro h
    exact absurd (congrArg List.length h) (by simp)
  have hmid : (front ++ "/*".toList).dropLast.contains '*' = false := by
    have hdrop : (front ++ "/*".toList).dropLast = front ++ ['/'] := dropLast_append_of_ne_nil (cons_ne_nil _ _)
    rw [hdrop, Bool.eq_false_iff, Ne, contains_iff_mem, mem_append]
    rintro (hmem | hslash)
    · exact hstar hmem
    · exact absurd hslash (by decide)
  have hstrip : stripSuffix (front ++ "/*".toList) "/*".toList = some front := (stripSuffix_eq_some_iff _ _ _).mpr rfl
  rw [pathUnderPrefix, hpat, pathMatchesAnswer, if_neg hnotStar, hmid, hstrip]
  change (withoutQuery path == front || (front.isPrefixOf (withoutQuery path) &&
    (asBytes (withoutQuery path))[byteLen front]? == some 0x2F)) = true ↔
      front ++ ['/'] <+: withoutQuery path ++ ['/']
  rw [prefix_concat_iff, append_left_inj, Bool.or_eq_true, beq_iff_eq, Bool.and_eq_true,
    isPrefixOf_iff_prefix, beq_iff_eq, eq_comm]
  refine or_congr_right ?_
  constructor
  · rintro ⟨⟨rest, hrest⟩, hslash⟩
    rw [← hrest] at hslash ⊢
    obtain ⟨back, rfl⟩ := (Parity.asBytes_getElem?_slash front rest).mp hslash
    exact ⟨back, append_assoc _ _ _⟩
  · rintro ⟨back, hback⟩
    have hfront : front ++ '/' :: back = withoutQuery path := by
      rw [← hback]
      exact append_cons front '/' back
    refine ⟨⟨'/' :: back, hfront⟩, ?_⟩
    rw [← hfront]
    exact (Parity.asBytes_getElem?_slash front _).mpr ⟨back, rfl⟩

/-- Two prefixes that end in `/` have a path in common only when one begins with the other. -/
theorem prefix_or_prefix_of_under {path front back : Str} (hfront : '*' ∉ front) (hback : '*' ∉ back)
    (h : pathUnderPrefix path (front ++ "/".toList) = true)
    (h' : pathUnderPrefix path (back ++ "/".toList) = true) :
    front ++ "/".toList <+: back ++ "/".toList ∨ back ++ "/".toList <+: front ++ "/".toList :=
  prefix_or_prefix_of_prefix ((pathUnderPrefix_folder_iff path hfront).mp h)
    ((pathUnderPrefix_folder_iff path hback).mp h')

theorem pathMatches_pathPattern_iff (path : Str) (r : HostRule) :
    pathMatches path r.pathPattern = some true ↔ r.pathPrefix.all (pathUnderPrefix path) = true := by
  rw [HostRule.pathPattern]
  cases r.pathPrefix with
  | none => exact ⟨fun _ => rfl, fun _ => rfl⟩
  | some => rw [pathMatches_prefix_star, Option.some.injEq, all_some]

/-- The prefixes of Drive, without their last `/`. -/
def driveFronts : List Str := ["/drive".toList, "/upload/drive".toList, "/batch/drive".toList]

/-- The prefixes of the providers registered before Drive, without their last `/`. -/
def earlierFronts : List Str := ["/gmail".toList, "/batch/gmail".toList, "/calendar".toList, "/batch/calendar".toList]

theorem not_under_earlier {path front : Str} (hfront : front ∈ driveFronts)
    (hunder : pathUnderPrefix path (front ++ "/".toList) = true) {back : Str} (hback : back ∈ earlierFronts) :
    pathUnderPrefix path (back ++ "/".toList) = false := by
  have hstar : ∀ f ∈ driveFronts ++ earlierFronts, '*' ∉ f := by decide
  have happart : ∀ f ∈ driveFronts, ∀ b ∈ earlierFronts,
      ¬ (f ++ "/".toList <+: b ++ "/".toList ∨ b ++ "/".toList <+: f ++ "/".toList) := by decide
  rw [Bool.eq_false_iff]
  intro h
  exact happart front hfront back hback (prefix_or_prefix_of_under
    (hstar front (mem_append_left _ hfront)) (hstar back (mem_append_right _ hback)) hunder h)

end Paths

section Serving

variable {registry : List AppProvider} (hknown : KnownEntries registry)

include hknown in
theorem host_of_rule {provider : Str} {app : AppProvider} (happ : providerById registry provider = some app)
    {r : HostRule} (hr : r ∈ app.hostRules) {hostname : Str} (hhost : r.pattern.matchesHost hostname = true) :
    (provider = "dropbox".toList → hostname ∈ dropboxHosts) ∧
      (provider = "google-drive".toList → hostname = googleHost) := by
  have hexact {hosts : List Str} (hplain : PlainOn hosts app) : hostname ∈ hosts := by
    obtain ⟨host, hmem, hpat⟩ := hplain.pattern_mem r hr
    rw [hpat] at hhost
    exact beq_iff_eq.mp hhost ▸ hmem
  constructor
  · rintro rfl
    exact hexact (hknown.dropbox_plain app happ)
  · rintro rfl
    exact mem_singleton.mp (hexact (hknown.drive_plain app happ))

include hknown in
theorem providerForHostAndPath_of_rule {provider : Str} (hguard : Guarded provider) {app : AppProvider}
    (happ : providerById registry provider = some app) {r : HostRule} (hr : r ∈ app.hostRules)
    {hostname path : Str} (hhost : r.pattern.matchesHost hostname = true)
    (hpath : r.pathPrefix.all (pathUnderPrefix path) = true) :
    providerForHostAndPath registry hostname path = some provider := by
  obtain ⟨hmem, hid⟩ := providerById_eq_some happ
  have hhosts := host_of_rule hknown happ hr hhost
  have hfront := mem_fronts hr hhost
  rw [providerForHostAndPath_eq]
  rcases hguard with rfl | rfl
  · rw [hknown.dropbox hostname (hhosts.1 rfl)]
    rfl
  · obtain rfl := hhosts.2 rfl
    have hentry := mem_entriesFor hmem (ne_nil_of_mem hfront)
    rw [hknown.google, hid] at hentry
    have hdrive : fronts app googleHost = drivePrefixes.map some := by
      simp only [googleEntries, mem_cons, not_mem_nil, or_false, Prod.mk.injEq] at hentry
      rcases hentry with ⟨h, -⟩ | ⟨h, -⟩ | ⟨-, h⟩ | ⟨h, -⟩ | ⟨h, -⟩
      · exact absurd h (by decide)
      · exact absurd h (by decide)
      · exact h
      · exact absurd h (by decide)
      · exact absurd h (by decide)
    have hprefixes : drivePrefixes.map some = driveFronts.map fun f => some (f ++ "/".toList) := rfl
    rw [hdrive, hprefixes] at hfront
    obtain ⟨front, hmemFront, hprefix⟩ := List.mem_map.mp hfront
    rw [← hprefix] at hpath
    have hgmail : pathUnderPrefix path "/gmail/".toList = false :=
      @not_under_earlier path front hmemFront hpath "/gmail".toList (by decide)
    have hbatchGmail : pathUnderPrefix path "/batch/gmail/".toList = false :=
      @not_under_earlier path front hmemFront hpath "/batch/gmail".toList (by decide)
    have hcalendar : pathUnderPrefix path "/calendar/".toList = false :=
      @not_under_earlier path front hmemFront hpath "/calendar".toList (by decide)
    have hbatchCalendar : pathUnderPrefix path "/batch/calendar/".toList = false :=
      @not_under_earlier path front hmemFront hpath "/batch/calendar".toList (by decide)
    have hfound : (drivePrefixes.map some).any (·.any (pathUnderPrefix path)) = true :=
      List.any_eq_true.mpr ⟨_, hfront, hprefix ▸ hpath⟩
    rw [hknown.google, googleEntries]
    simp only [List.find?_cons, any_cons, any_nil, any_some, hgmail, hbatchGmail, hcalendar,
      hbatchCalendar, Bool.or_false, hfound, map_some]

end Serving

section Built

variable {registry : List AppProvider} (hknown : KnownEntries registry)

/-- Rules and a host rewrite that were built for a connection of a provider on a host. -/
def Built (registry : List AppProvider) (provider hostname : Str) (rules : List InjectionRule)
    (rewrite : Option Str) : Prop :=
  ∃ outside conn json built, conn.provider = provider ∧
    connectionRules outside registry conn json hostname = .ok built ∧ built.rules = rules ∧
    built.rewriteHost = rewrite

/-- A rule for a host comes from one of a provider's host rules. -/
def FromHostRule (registry : List AppProvider) (provider hostname : Str) (rule : InjectionRule) : Prop :=
  ∃ app r, providerById registry provider = some app ∧ r ∈ app.hostRules ∧
    r.pattern.matchesHost hostname = true ∧ rule.pathPattern = r.pathPattern

include hknown in
theorem rewriteHost_guarded {provider : Str} (hguard : Guarded provider) (creds : Option (Json Str))
    (hostname : Str) : (creds.bind fun creds => rewriteHost registry provider creds hostname) = none := by
  cases creds with
  | none => rfl
  | some creds =>
    rw [bind_some, rewriteHost]
    cases happ : providerById registry provider with
    | none => rfl
    | some app =>
      obtain ⟨hosts, hplain⟩ := hknown.plain hguard happ
      change (app.hostRewrite.bind fun rewrite =>
        ((creds.get rewrite.credentialField).bind Json.asStr).bind fun value =>
          rewrite.template value hostname) = none
      rw [hplain.hostRewrite_eq]
      rfl

include hknown in
theorem built_guarded {provider hostname : Str} (hguard : Guarded provider) {rules : List InjectionRule}
    {rewrite : Option Str} (h : Built registry provider hostname rules rewrite) :
    (∀ rule ∈ rules, FromHostRule registry provider hostname rule) ∧ rewrite = none := by
  obtain ⟨outside, conn, json, built, rfl, hbuilt, rfl, rfl⟩ := h
  unfold connectionRules at hbuilt
  generalize hresolved : (if needsAccessToken registry conn.provider = true then
    outside.resolveAccessToken conn json else ok ([], none)) = resolved at hbuilt
  cases resolved with
  | error => cases hbuilt
  | ok =>
    cases hbuilt
    refine ⟨fun rule hrule => ?_, rewriteHost_guarded hknown hguard _ _⟩
    cases happ : providerById registry conn.provider with
    | none =>
      simp only [buildAppInjectionRules, happ] at hrule
      cases hrule
    | some app =>
      obtain ⟨hosts, hplain⟩ := hknown.plain hguard happ
      simp only [map_some, getD_some, hplain.credentialHeaders_eq, hplain.credentialParams_eq,
        isEmpty_nil, Bool.not_true, Bool.or_self, Bool.and_false, Bool.false_eq_true, ↓reduceIte,
        buildAppInjectionRules, happ, List.map_map, List.mem_map, mem_filter] at hrule
      obtain ⟨r, ⟨hr, hhost⟩, rfl⟩ := hrule
      exact ⟨app, r, happ, hr, hhost, rfl⟩

include hknown in
/-- A guarded provider's rule that fits a path makes the provider serve the request, and the one
that is found for it. -/
theorem serves_of_applies {provider hostname path : Str} (hguard : Guarded provider) {rule : InjectionRule}
    (hrule : FromHostRule registry provider hostname rule)
    (happlies : pathMatches path rule.pathPattern = some true) :
    providerServesRequest registry provider hostname (some path) = true ∧
      providerForHostAndPath registry hostname path = some provider := by
  obtain ⟨app, r, happ, hr, hhost, hpat⟩ := hrule
  rw [hpat] at happlies
  have hpath := (pathMatches_pathPattern_iff path r).mp happlies
  refine ⟨?_, providerForHostAndPath_of_rule hknown hguard happ hr hhost hpath⟩
  rw [providerServesRequest, any_some, providerMatchesHostAndPath, happ, any_some, List.any_eq_true]
  exact ⟨r, hr, by rw [hhost, hpath]; rfl⟩

end Built

section Cache

/-- The ids of a request have no colon, and a connection keeps its provider. -/
structure KnownRows (providerOf : Str → Str) (organizationId workspaceId : Str)
    (connections : List AppConnectionRow) : Prop where
  organization : ':' ∉ organizationId
  workspace : ':' ∉ workspaceId
  id : ∀ c ∈ connections, ':' ∉ c.id
  provider : ∀ c ∈ connections, c.provider = providerOf c.id

theorem colon_notMem_stripPort (host : Str) : ':' ∉ stripPort host := by
  intro h
  simpa using mem_takeWhile_imp h

theorem split_at_colon {a b x y : Str} (ha : ':' ∉ a) (hb : ':' ∉ b)
    (h : a ++ ":".toList ++ x = b ++ ":".toList ++ y) : a = b ∧ x = y := by
  have hleft := (CodeUnits.splitOnce_eq_some_iff ':' (a ++ ":".toList ++ x) a x).mpr
    ⟨(append_cons a ':' x).symm, ha⟩
  have hright := (CodeUnits.splitOnce_eq_some_iff ':' (b ++ ":".toList ++ y) b y).mpr
    ⟨(append_cons b ':' y).symm, hb⟩
  rw [h, hright, Option.some.injEq, Prod.mk.injEq] at hleft
  exact ⟨hleft.1.symm, hleft.2.symm⟩

theorem injectionCacheKey_eq (outside : Outside) (organizationId workspaceId : Str) (conn : AppConnectionRow)
    {hostname : Str} (hhost : ':' ∉ hostname) :
    ∃ rest, rest.takeWhile (· ≠ ':') = hostname ∧
      injectionCacheKey outside organizationId workspaceId conn hostname = "app_injection:".toList ++
        (organizationId ++ ":".toList ++ (workspaceId ++ ":".toList ++ (conn.id ++ ":".toList ++ rest))) := by
  have hall : ∀ c ∈ hostname, decide (c ≠ ':') = true := fun c hc =>
    decide_eq_true fun heq => hhost (heq ▸ hc)
  unfold injectionCacheKey injectionCachePrefix
  cases conn.sessionPolicy with
  | none =>
    refine ⟨hostname, takeWhile_eq_self_iff.mpr hall, ?_⟩
    simp only [append_assoc, append_nil]
  | some policy =>
    refine ⟨hostname ++ (":".toList ++ outside.toText policy), ?_, by simp only [append_assoc]⟩
    rw [takeWhile_append_of_pos hall]
    exact append_nil hostname

theorem injectionCacheKey_inj {providerOf : Str → Str} {outside outside' : Outside}
    {organizationId workspaceId organizationId' workspaceId' : Str} {connections connections' : List AppConnectionRow}
    (hrows : KnownRows providerOf organizationId workspaceId connections)
    (hrows' : KnownRows providerOf organizationId' workspaceId' connections') {conn conn' : AppConnectionRow}
    (hconn : conn ∈ connections) (hconn' : conn' ∈ connections') {hostname hostname' : Str}
    (hhost : ':' ∉ hostname) (hhost' : ':' ∉ hostname')
    (h : injectionCacheKey outside organizationId workspaceId conn hostname =
      injectionCacheKey outside' organizationId' workspaceId' conn' hostname') :
    conn.id = conn'.id ∧ hostname = hostname' := by
  obtain ⟨rest, hrest, hkey⟩ := injectionCacheKey_eq outside organizationId workspaceId conn hhost
  obtain ⟨rest', hrest', hkey'⟩ := injectionCacheKey_eq outside' organizationId' workspaceId' conn' hhost'
  rw [hkey, hkey'] at h
  have horg := split_at_colon hrows.organization hrows'.organization (append_cancel_left h)
  have hspace := split_at_colon hrows.workspace hrows'.workspace horg.2
  have hid := split_at_colon (hrows.id conn hconn) (hrows'.id conn' hconn') hspace.2
  refine ⟨hid.1, ?_⟩
  rw [← hrest, ← hrest', hid.2]

/-- What the cache holds for a connection and a host was built for its provider on that host. -/
def CacheSound (registry : List AppProvider) (providerOf : Str → Str) (cache : RuleCache) : Prop :=
  ∀ outside organizationId workspaceId connections conn host cached,
    KnownRows providerOf organizationId workspaceId connections → conn ∈ connections →
    cache (injectionCacheKey outside organizationId workspaceId conn (stripPort host)) = some cached →
    Built registry conn.provider (stripPort host) cached.rules cached.rewriteHost

theorem buildConnectionRules_fst (outside : Outside) (registry : List AppProvider) (conn : AppConnectionRow)
    (json hostname cacheKey : Str) (cache : RuleCache) :
    (buildConnectionRules outside registry conn json hostname cacheKey cache).1 =
      connectionRules outside registry conn json hostname := by
  unfold buildConnectionRules
  cases connectionRules outside registry conn json hostname with
  | error => rfl
  | ok =>
    dsimp only
    split <;> rfl

theorem cacheSound_build {registry : List AppProvider} {providerOf : Str → Str} (outside : Outside)
    {organizationId workspaceId : Str} {connections : List AppConnectionRow} {cache : RuleCache}
    (hsound : CacheSound registry providerOf cache)
    (hrows : KnownRows providerOf organizationId workspaceId connections) {conn : AppConnectionRow}
    (hconn : conn ∈ connections) (json host : Str) :
    CacheSound registry providerOf (buildConnectionRules outside registry conn json (stripPort host)
      (injectionCacheKey outside organizationId workspaceId conn (stripPort host)) cache).2 := by
  unfold buildConnectionRules
  cases hbuilt : connectionRules outside registry conn json (stripPort host) with
  | error => exact hsound
  | ok built =>
    dsimp only
    split
    · intro outside' organizationId' workspaceId' connections' conn' host' cached hrows' hconn' hcached
      dsimp only at hcached
      by_cases hkey : injectionCacheKey outside' organizationId' workspaceId' conn' (stripPort host') =
          injectionCacheKey outside organizationId workspaceId conn (stripPort host)
      · rw [hkey, Function.update_self] at hcached
        cases hcached
        obtain ⟨hid, hhost⟩ := injectionCacheKey_inj hrows' hrows hconn' hconn (colon_notMem_stripPort host')
          (colon_notMem_stripPort host) hkey
        refine ⟨outside, conn, json, built, ?_, hhost ▸ hbuilt, rfl, rfl⟩
        rw [hrows.provider conn hconn, hrows'.provider conn' hconn', hid]
      · rw [Function.update_of_ne hkey] at hcached
        exact hsound outside' organizationId' workspaceId' connections' conn' host' cached hrows' hconn' hcached
    · exact hsound

end Cache

section Resolving

variable {registry : List AppProvider} {providerOf : Str → Str} {outside : Outside}
  {organizationId workspaceId : Str} {connections : List AppConnectionRow} {host : Str}

/-- A rule that a connection contributes: one merged already, or one that its pending credential
will build. -/
def Contributes (registry : List AppProvider) (rules : List OwnedRule) (pending : List PendingInjection)
    (conn : AppConnectionRow) (rule : InjectionRule) : Prop :=
  ⟨conn, rule⟩ ∈ rules ∨ ∃ p ∈ pending, p.conn = conn ∧ ∃ outside built,
    connectionRules outside registry p.conn p.decryptedJson p.hostname = .ok built ∧ rule ∈ built.rules

/-- The rules of one connection, with the metadata that is its own. -/
structure OwnResolution (registry : List AppProvider) (hostname : Str) (conn : AppConnectionRow)
    (r : Resolution) : Prop where
  provider_eq : r.provider = conn.provider
  sessionPolicy_eq : r.sessionPolicy = conn.sessionPolicy
  contributes : ∀ c rule, Contributes registry r.rules r.pending c rule →
    c = conn ∧ ∃ rules rewrite, Built registry conn.provider hostname rules rewrite ∧ rule ∈ rules
  rewriteHost_eq : KnownEntries registry → Guarded conn.provider → r.rewriteHost = none

variable {conn : AppConnectionRow} {cache : RuleCache} {c : AppConnectionRow} {rule : InjectionRule} {acc : Merged}
  {r : Resolution}

theorem ownResolution_built {hostname : Str} {rules : List InjectionRule} {expiry : Option ℤ}
    {rewrite label : Option Str} (h : Built registry conn.provider hostname rules rewrite) :
    OwnResolution registry hostname conn (.ofConnection registry conn rules expiry rewrite label []) where
  provider_eq := rfl
  sessionPolicy_eq := rfl
  contributes c rule hadds := by
    rcases hadds with hmem | ⟨p, hp, -⟩
    · obtain ⟨rule', hrule', heq⟩ := List.mem_map.mp hmem
      cases heq
      exact ⟨rfl, rules, rewrite, h, hrule'⟩
    · cases hp
  rewriteHost_eq hknown hguard := (built_guarded hknown hguard h).2

/-- A resolution is of the connection's own provider. -/
theorem resolveConnectionInjections_own (outside : Outside) (host : Str) (hsound : CacheSound registry providerOf cache)
    (hrows : KnownRows providerOf organizationId workspaceId connections) (hconn : conn ∈ connections) :
    CacheSound registry providerOf (resolveConnectionInjections outside registry organizationId workspaceId
        (stripPort host) conn cache).2 ∧
      ∀ r, (resolveConnectionInjections outside registry organizationId workspaceId (stripPort host) conn
        cache).1 = .rules r → OwnResolution registry (stripPort host) conn r := by
  unfold resolveConnectionInjections
  dsimp only
  split
  · next cached hcached =>
    refine ⟨hsound, fun r hr => ?_⟩
    cases hr
    exact ownResolution_built (hsound _ _ _ _ _ _ _ hrows hconn hcached)
  · split
    · exact ⟨hsound, fun r hr => by cases hr⟩
    · next json _ =>
      split
      · refine ⟨hsound, fun r hr => ?_⟩
        cases hr
        refine ⟨rfl, rfl, fun c rule hadds => ?_, fun _ _ => rfl⟩
        rcases hadds with hmem | ⟨p, hp, -⟩
        · cases hmem
        · cases hp
      · split
        · exact ⟨hsound, fun r hr => by cases hr⟩
        · split
          · refine ⟨hsound, fun r hr => ?_⟩
            cases hr
            refine ⟨rfl, rfl, fun c rule hadds => ?_, fun hknown hguard => rewriteHost_guarded hknown hguard _ _⟩
            rcases hadds with hmem | ⟨p, hp, rfl, outside', built, hbuilt, hrule⟩
            · cases hmem
            · obtain rfl := mem_singleton.mp hp
              exact ⟨rfl, built.rules, built.rewriteHost, ⟨outside', conn, json, built, rfl, hbuilt, rfl, rfl⟩, hrule⟩
          · have hcache := cacheSound_build outside hsound hrows hconn json host
            have hanswer := buildConnectionRules_fst outside registry conn json (stripPort host)
              (injectionCacheKey outside organizationId workspaceId conn (stripPort host)) cache
            split
            · next hbuild =>
              rw [hbuild] at hcache
              exact ⟨hcache, fun r hr => by cases hr⟩
            · next hbuild =>
              rw [hbuild] at hcache
              exact ⟨hcache, fun r hr => by cases hr⟩
            · next built cache' hbuild =>
              rw [hbuild] at hcache hanswer
              refine ⟨hcache, fun r hr => ?_⟩
              cases hr
              exact ownResolution_built ⟨outside, conn, json, built, rfl, hanswer.symm, rfl, rfl⟩

theorem contributes_append {rules rules' : List OwnedRule} {pending pending' : List PendingInjection}
    (h : Contributes registry (rules ++ rules') (pending ++ pending') c rule) :
    Contributes registry rules pending c rule ∨ Contributes registry rules' pending' c rule := by
  rcases h with hmem | ⟨p, hp, hbuilt⟩
  · exact (mem_append.mp hmem).imp .inl .inl
  · exact (mem_append.mp hp).imp (fun hp => .inr ⟨p, hp, hbuilt⟩) fun hp => .inr ⟨p, hp, hbuilt⟩

/-- Two accumulators with the same rules, policy and host rewrite. -/
structure SameCredentials (acc acc' : Merged) : Prop where
  rules_eq : acc'.rules = acc.rules
  pending_eq : acc'.pending = acc.pending
  sessionPolicy_eq : acc'.sessionPolicy = acc.sessionPolicy
  rewriteHost_eq : acc'.rewriteHost = acc.rewriteHost

theorem mergeConnection_cases (outside : Outside) (host : Str) (hsound : CacheSound registry providerOf cache)
    (hrows : KnownRows providerOf organizationId workspaceId connections) (hconn : conn ∈ connections)
    (path : Option Str) (acc : Merged) :
    CacheSound registry providerOf (mergeConnection outside registry organizationId workspaceId (stripPort host)
        path acc conn cache).2 ∧
      ∀ acc', (mergeConnection outside registry organizationId workspaceId (stripPort host) path acc conn
        cache).1 = .ok acc' → SameCredentials acc acc' ∨
          ∃ r, OwnResolution registry (stripPort host) conn r ∧
            acc' = acc.addRules r (providerServesRequest registry conn.provider (stripPort host) path) := by
  obtain ⟨hcache, hown⟩ := resolveConnectionInjections_own outside host hsound hrows hconn
  have hsame : SameCredentials acc acc := ⟨rfl, rfl, rfl, rfl⟩
  unfold mergeConnection
  split
  · next r cache' hresult =>
    rw [hresult] at hcache hown
    refine ⟨hcache, fun acc' hacc => .inr ⟨r, hown r rfl, ?_⟩⟩
    rw [← ok.inj hacc, (hown r rfl).provider_eq]
  · next hresult =>
    rw [hresult] at hcache
    refine ⟨hcache, fun acc' hacc => .inl ?_⟩
    rw [← ok.inj hacc]
    exact ⟨rfl, rfl, rfl, rfl⟩
  · next hresult =>
    rw [hresult] at hcache
    split
    · exact ⟨hcache, fun acc' hacc => by cases hacc⟩
    · refine ⟨hcache, fun acc' hacc => .inl ?_⟩
      rw [← ok.inj hacc]
      exact hsame
  · next hresult =>
    rw [hresult] at hcache
    refine ⟨hcache, fun acc' hacc => .inl ?_⟩
    rw [← ok.inj hacc]
    exact hsame

theorem not_contributes_nil : ¬ Contributes registry [] [] c rule := by
  rintro (hmem | ⟨p, hp, -⟩)
  · exact not_mem_nil hmem
  · exact not_mem_nil hp

/-- What is merged was built for connections of the list. -/
def MergedSound (registry : List AppProvider) (hostname : Str) (connections : List AppConnectionRow)
    (acc : Merged) : Prop :=
  ∀ c rule, Contributes registry acc.rules acc.pending c rule →
    c ∈ connections ∧ ∃ rules rewrite, Built registry c.provider hostname rules rewrite ∧ rule ∈ rules

/-- A connection that contributes has its policy adopted, and no host is rewritten. -/
structure Adopted (registry : List AppProvider) (c : AppConnectionRow) (acc : Merged) : Prop where
  sessionPolicy_eq : (∃ rule, Contributes registry acc.rules acc.pending c rule) → acc.sessionPolicy = c.sessionPolicy
  rewriteHost_eq : acc.rewriteHost = none

theorem mergedSound_addRules (h : MergedSound registry (stripPort host) connections acc) (hconn : conn ∈ connections)
    (hown : OwnResolution registry (stripPort host) conn r) (serves : Bool) :
    MergedSound registry (stripPort host) connections (acc.addRules r serves) := by
  intro c rule hadds
  have hjoined : Contributes registry (acc.rules ++ r.rules) (acc.pending ++ r.pending) c rule := by
    cases serves <;> exact hadds
  rcases contributes_append hjoined with hold | hnew
  · exact h c rule hold
  · obtain ⟨rfl, hbuilt⟩ := hown.contributes c rule hnew
    exact ⟨hconn, hbuilt⟩

theorem adopted_addRules (hknown : KnownEntries registry) (hguard : Guarded c.provider) (h : Adopted registry c acc)
    (hown : OwnResolution registry (stripPort host) conn r) {serves : Bool} (honly : serves = true ↔ conn = c) :
    Adopted registry c (acc.addRules r serves) := by
  cases serves with
  | true =>
    obtain rfl := honly.mp rfl
    refine ⟨fun _ => hown.sessionPolicy_eq, ?_⟩
    change r.rewriteHost.or acc.rewriteHost = none
    rw [hown.rewriteHost_eq hknown hguard, h.rewriteHost_eq]
    rfl
  | false =>
    refine ⟨fun ⟨rule, hadds⟩ => ?_, h.rewriteHost_eq⟩
    rcases contributes_append hadds with hold | hnew
    · exact h.sessionPolicy_eq ⟨rule, hold⟩
    · obtain ⟨rfl, -⟩ := hown.contributes c rule hnew
      cases honly.mpr rfl

theorem mergeConnections_invariant {I : Merged → Prop} (outside : Outside) (host : Str)
    (hrows : KnownRows providerOf organizationId workspaceId connections) (path : Option Str)
    (hsame : ∀ acc acc', I acc → SameCredentials acc acc' → I acc')
    (hadd : ∀ acc conn r, conn ∈ connections → I acc → OwnResolution registry (stripPort host) conn r → I (acc.addRules r (providerServesRequest registry conn.provider (stripPort host) path)))
    {rest : List AppConnectionRow} (hrest : rest ⊆ connections) (hacc : I acc)
    (hsound : CacheSound registry providerOf cache) :
    CacheSound registry providerOf (mergeConnections outside registry organizationId workspaceId (stripPort host)
        path rest acc cache).2 ∧
      ∀ m, (mergeConnections outside registry organizationId workspaceId (stripPort host) path rest acc
        cache).1 = .ok m → I m := by
  induction rest generalizing acc cache with
  | nil =>
    refine ⟨hsound, fun m hm => ?_⟩
    rw [← ok.inj hm]
    exact hacc
  | cons conn rest ih =>
    have hconn : conn ∈ connections := hrest mem_cons_self
    obtain ⟨hcache, hcases⟩ := mergeConnection_cases outside host hsound hrows hconn
      path acc
    rw [mergeConnections]
    split
    · next hstep =>
      rw [hstep] at hcache
      exact ⟨hcache, fun m hm => by cases hm⟩
    · next acc' cache' hstep =>
      rw [hstep] at hcache hcases
      refine ih (fun c hc => hrest (mem_cons_of_mem conn hc)) ?_ hcache
      rcases hcases acc' rfl with hsame' | ⟨r, hown, rfl⟩
      · exact hsame acc acc' hacc hsame'
      · exact hadd acc conn r hconn hacc hown

/-- A guarded connection's rule that fits the path brings the connection's policy, leaves the host
alone and is for the provider that is found for the request. -/
def Credited (registry : List AppProvider) (hostname : Str) (requestPath : Option Str) (r : Resolution) : Prop :=
  ∀ path, requestPath = some path → ∀ c rule, Contributes registry r.rules r.pending c rule → Guarded c.provider →
    pathMatches path rule.pathPattern = some true → r.sessionPolicy = c.sessionPolicy ∧ r.rewriteHost = none ∧
      providerForHostAndPath registry hostname path = some c.provider

/-- A resolution that keeps the cache sound and credits its rules to their connections. -/
def Sound (registry : List AppProvider) (providerOf : Str → Str) (hostname : Str) (requestPath : Option Str)
    (answer : AppConnectionResult × RuleCache) : Prop :=
  CacheSound registry providerOf answer.2 ∧ ∀ r, answer.1 = .rules r → Credited registry hostname requestPath r

/-- A rule that was built serves the request. -/
theorem serves_of_built (hknown : KnownEntries registry) (hguard : Guarded c.provider) {hostname path : Str}
    (hbuilt : ∃ rules rewrite, Built registry c.provider hostname rules rewrite ∧ rule ∈ rules)
    (happlies : pathMatches path rule.pathPattern = some true) :
    providerServesRequest registry c.provider hostname (some path) = true ∧
      providerForHostAndPath registry hostname path = some c.provider := by
  obtain ⟨rules, rewrite, hbuilt, hrule⟩ := hbuilt
  exact serves_of_applies hknown hguard ((built_guarded hknown hguard hbuilt).1 rule hrule) happlies

theorem credited_own (hknown : KnownEntries registry) (hown : OwnResolution registry (stripPort host) conn r)
    (path : Option Str) : Credited registry (stripPort host) path r := by
  intro path hpath c rule hadds hguard happlies
  obtain ⟨rfl, hbuilt⟩ := hown.contributes c rule hadds
  exact ⟨hown.sessionPolicy_eq, hown.rewriteHost_eq hknown hguard, (serves_of_built hknown hguard hbuilt happlies).2⟩

/-- A single connection is credited with its rules, and loses its policy only where it does not
serve. -/
theorem resolveSingle_sound (hknown : KnownEntries registry) (hsound : CacheSound registry providerOf cache)
    (hrows : KnownRows providerOf organizationId workspaceId connections) (hconn : conn ∈ connections)
    (path : Option Str) :
    Sound registry providerOf (stripPort host) path (resolveSingle outside registry organizationId
      workspaceId (stripPort host) path conn cache) := by
  obtain ⟨hcache, hown⟩ := resolveConnectionInjections_own outside host hsound hrows hconn
  unfold resolveSingle
  split
  · next hresult =>
    rw [hresult] at hcache
    split <;> exact ⟨hcache, fun r hr => by cases hr⟩
  · next r cache' hresult =>
    rw [hresult] at hcache hown
    split
    · refine ⟨hcache, fun r' hr => ?_⟩
      cases hr
      exact credited_own hknown (hown r rfl) path
    · next hserves =>
      refine ⟨hcache, fun r' hr => ?_⟩
      cases hr
      rintro path rfl c rule hadds hguard happlies
      obtain ⟨rfl, hbuilt⟩ := (hown r rfl).contributes c rule hadds
      rw [(hown r rfl).provider_eq] at hserves
      exact absurd (serves_of_built hknown hguard hbuilt happlies).1 hserves
  · next result cache' hne hrules hresult =>
    rw [hresult] at hcache
    refine ⟨hcache, fun r hr => ?_⟩
    have hrules' : result = .rules r := hr
    subst hrules'
    exact (hrules r rfl).elim

theorem eq_of_mem_of_length_le_one {A : Type} {l : List A} (h : l.length ≤ 1) {a b : A} (ha : a ∈ l) (hb : b ∈ l) :
    a = b := by
  match l, h with
  | [c], _ => rw [mem_singleton.mp ha, mem_singleton.mp hb]

theorem resolveSeveral_sound (hknown : KnownEntries registry) (hsound : CacheSound registry providerOf cache)
    (hrows : KnownRows providerOf organizationId workspaceId connections) {candidates : List AppConnectionRow}
    (hcandidates : candidates ⊆ connections) (path : Option Str) :
    Sound registry providerOf (stripPort host) path (resolveSeveral outside registry organizationId
      workspaceId (stripPort host) path candidates cache) := by
  unfold resolveSeveral
  split
  · exact ⟨hsound, fun r hr => by cases hr⟩
  · dsimp only
    split
    · exact ⟨hsound, fun r hr => by cases hr⟩
    · next hfew =>
      have hrows' : KnownRows providerOf organizationId workspaceId candidates :=
        ⟨hrows.organization, hrows.workspace, fun c hc => hrows.id c (hcandidates hc),
          fun c hc => hrows.provider c (hcandidates hc)⟩
      have hempty : MergedSound registry (stripPort host) candidates .empty := fun c rule h =>
        absurd h not_contributes_nil
      obtain ⟨hcache, hmerged⟩ := mergeConnections_invariant (I := MergedSound registry (stripPort host) candidates)
        outside host hrows' path
        (fun acc acc' hacc hsame c rule h => hacc c rule (hsame.rules_eq ▸ hsame.pending_eq ▸ h))
        (fun acc conn r hconn hacc hown => mergedSound_addRules hacc hconn hown _) (List.Subset.refl _)
        hempty hsound
      split
      · next hmerge =>
        rw [hmerge] at hcache
        exact ⟨hcache, fun r hr => by cases hr⟩
      · next m cache' hmerge =>
        rw [hmerge] at hcache hmerged
        split
        · exact ⟨hcache, fun r hr => by cases hr⟩
        · refine ⟨hcache, fun r hr => ?_⟩
          cases hr
          rintro path rfl c rule hadds hguard happlies
          obtain ⟨hc, hbuilt⟩ := hmerged m rfl c rule hadds
          obtain ⟨hserves, hprov⟩ := serves_of_built hknown hguard hbuilt happlies
          have honly (d : AppConnectionRow) (hd : d ∈ candidates) :
              providerServesRequest registry d.provider (stripPort host) (some path) = true ↔ d = c := by
            constructor
            · intro hservesD
              exact eq_of_mem_of_length_le_one (Nat.le_of_not_lt hfew) (mem_filter.mpr ⟨hd, hservesD⟩)
                (mem_filter.mpr ⟨hc, hserves⟩)
            · rintro rfl
              exact hserves
          have hunadopted : Adopted registry c .empty := ⟨fun ⟨rule, h⟩ => absurd h not_contributes_nil, rfl⟩
          have hadopted := (mergeConnections_invariant (I := Adopted registry c) outside host hrows' (some path)
            (fun acc acc' hacc hsame => ⟨fun h => hsame.sessionPolicy_eq.trans
              (hacc.sessionPolicy_eq (by rwa [hsame.rules_eq, hsame.pending_eq] at h)),
              hsame.rewriteHost_eq.trans hacc.rewriteHost_eq⟩)
            (fun acc conn r hconn hacc hown => adopted_addRules hknown hguard hacc hown (honly conn hconn))
            (List.Subset.refl _) hunadopted hsound).2
          rw [hmerge] at hadopted
          exact ⟨(hadopted m rfl).sessionPolicy_eq ⟨rule, hadds⟩, (hadopted m rfl).rewriteHost_eq, hprov⟩

theorem narrowConnectionsByPath_subset (registry : List AppProvider) (connections : List AppConnectionRow)
    (hostname : Str) (path : Option Str) :
    narrowConnectionsByPath registry connections hostname path ⊆ connections := by
  unfold narrowConnectionsByPath
  split
  · exact List.Subset.refl _
  · split
    · exact List.Subset.refl _
    · split
      · exact List.Subset.refl _
      · dsimp only
        split
        · exact List.Subset.refl _
        · exact fun c hc => (mem_filter.mp hc).1

section

variable (hknown : KnownEntries registry) (hsound : CacheSound registry providerOf cache) (hrows : KnownRows providerOf organizationId workspaceId connections)
include hknown hsound hrows

theorem resolveUnpinned_sound (path : Option Str) : Sound registry providerOf (stripPort host) path
    (resolveUnpinned outside registry organizationId workspaceId (stripPort host) path connections cache) := by
  have hsubset := narrowConnectionsByPath_subset registry connections (stripPort host) path
  unfold resolveUnpinned
  split
  · next conn hnarrowed =>
    rw [hnarrowed] at hsubset
    exact resolveSingle_sound hknown hsound hrows (hsubset mem_cons_self) path
  · exact resolveSeveral_sound hknown hsound hrows hsubset path

/-- An injection is of a connection of the right provider. -/
theorem resolveAppInjectionForRequest_sound (path connId : Option Str) : Sound registry providerOf
    (stripPort host) path (resolveAppInjectionForRequest outside registry connections (stripPort host)
    path connId organizationId workspaceId cache) := by
  have hunpinned : Sound registry providerOf (stripPort host) path (resolveUnpinned outside registry
      organizationId workspaceId (stripPort host) path connections cache) :=
    resolveUnpinned_sound hknown hsound hrows path
  unfold resolveAppInjectionForRequest
  dsimp only
  split
  · exact ⟨hsound, fun r hr => by cases hr⟩
  · split
    · exact hunpinned
    · split
      · exact ⟨hsound, fun r hr => by cases hr⟩
      · next conn hfound =>
        split
        · obtain ⟨hcache, hown⟩ := resolveConnectionInjections_own outside host hsound hrows
            (List.mem_of_find?_eq_some hfound)
          split
          · next hresult =>
            rw [hresult] at hcache
            split <;> exact ⟨hcache, fun r hr => by cases hr⟩
          · next result cache' _ hresult =>
            rw [hresult] at hcache hown
            exact ⟨hcache, fun r hr => credited_own hknown (hown r hr) path⟩
        · exact hunpinned

end

end Resolving

section Runs

/-- What happens to the cache of injection rules. -/
inductive CacheEvent where
  | resolve (outside : Outside) (organizationId workspaceId : Str) (connections : List AppConnectionRow)
      (host : Str) (requestPath connectionId : Option Str)
  | materialize (outside : Outside) (organizationId workspaceId : Str) (conn : AppConnectionRow) (json host : Str)
  | evict (keys : Str → Bool)

/-- The cache after an event: a request resolved, a pending credential materialized, entries
evicted. -/
def cacheStep (registry : List AppProvider) (cache : RuleCache) : CacheEvent → RuleCache
  | .resolve outside organizationId workspaceId connections host requestPath connectionId =>
    (resolveAppInjectionForRequest outside registry connections (stripPort host) requestPath connectionId
      organizationId workspaceId cache).2
  | .materialize outside organizationId workspaceId conn json host =>
    (buildConnectionRules outside registry conn json (stripPort host)
      (injectionCacheKey outside organizationId workspaceId conn (stripPort host)) cache).2
  | .evict keys => fun key => if keys key then none else cache key

/-- The cache that a process has after events, from an empty one. -/
def cacheAfter (registry : List AppProvider) (events : List CacheEvent) : RuleCache :=
  events.foldl (cacheStep registry) fun _ => none

/-- The rows of an event are known. -/
def CacheEvent.Known (providerOf : Str → Str) : CacheEvent → Prop
  | .resolve _ organizationId workspaceId connections _ _ _ =>
    KnownRows providerOf organizationId workspaceId connections
  | .materialize _ organizationId workspaceId conn _ _ => KnownRows providerOf organizationId workspaceId [conn]
  | .evict _ => True

/-- An event keeps the cache sound. -/
theorem cacheSound_step {registry : List AppProvider} (hknown : KnownEntries registry) {providerOf : Str → Str}
    {cache : RuleCache} (hsound : CacheSound registry providerOf cache) {event : CacheEvent}
    (hevent : event.Known providerOf) : CacheSound registry providerOf (cacheStep registry cache event) := by
  cases event with
  | resolve outside organizationId workspaceId connections host path connId =>
    exact (resolveAppInjectionForRequest_sound hknown hsound hevent path connId).1
  | materialize outside organizationId workspaceId conn json host =>
    exact cacheSound_build outside hsound hevent mem_cons_self json host
  | evict keys =>
    intro outside organizationId workspaceId connections conn host cached hrows hconn hcached
    change (if keys _ then none else cache _) = some cached at hcached
    split at hcached
    · cases hcached
    · exact hsound outside organizationId workspaceId connections conn host cached hrows hconn hcached

/-- The cache holds what resolutions answered. -/
theorem cacheSound_after {registry : List AppProvider} (hknown : KnownEntries registry) {providerOf : Str → Str}
    {events : List CacheEvent} (hevents : ∀ e ∈ events, e.Known providerOf) :
    CacheSound registry providerOf (cacheAfter registry events) := by
  have hempty : CacheSound registry providerOf fun _ => none := fun _ _ _ _ _ _ _ _ _ hcached => by cases hcached
  rw [cacheAfter]
  generalize (fun _ => none : RuleCache) = cache at hempty
  induction events generalizing cache with
  | nil => exact hempty
  | cons event events ih =>
    exact ih (fun e he => hevents e (mem_cons_of_mem event he)) _
      (cacheSound_step hknown hempty (hevents event mem_cons_self))

end Runs

section Coverage

/-- Every guarded provider has a guard. -/
theorem requestGuard_of_guarded (checks : GuardChecks) {provider : Str} (h : Guarded provider) :
    ∃ guard, requestGuard checks provider = some guard := by
  rcases h with rfl | rfl <;> exact ⟨_, rfl⟩

/-- Where a rule of a guarded connection fits the path of a request, the request is judged under
that connection's policy by that connection's provider's guard, on the host that it is sent to. -/
theorem guard_coverage {registry : List AppProvider} (hknown : KnownEntries registry) (checks : GuardChecks)
    {providerOf : Str → Str} {events : List CacheEvent} (hevents : ∀ e ∈ events, e.Known providerOf)
    (outside : Outside) {organizationId workspaceId : Str} {connections : List AppConnectionRow}
    (hrows : KnownRows providerOf organizationId workspaceId connections) (host : Str)
    (request : GuardedRequest) (pin : Option Str) {resolution : Resolution}
    (hresolved : (resolveAppInjectionForRequest outside registry connections (stripPort host) (some request.path)
      pin organizationId workspaceId (cacheAfter registry events)).1 = .rules resolution)
    {c : AppConnectionRow} {rule : InjectionRule}
    (hcontributes : Contributes registry resolution.rules resolution.pending c rule) (hguarded : Guarded c.provider)
    (happlies : pathMatches request.path rule.pathPattern = some true) :
    resolution.sessionPolicy = c.sessionPolicy ∧
      ∃ guard, requestGuard checks c.provider = some guard ∧
        enforceRequest registry checks resolution.sessionPolicy (resolution.rewriteHost.getD host) request =
          c.sessionPolicy.bind fun policy => guard.judge policy (stripPort host) request := by
  obtain ⟨guard, hguard⟩ := requestGuard_of_guarded checks hguarded
  obtain ⟨hpolicy, hrewrite, hprovider⟩ := (resolveAppInjectionForRequest_sound hknown
    (cacheSound_after hknown hevents) hrows (some request.path) pin).2 resolution hresolved request.path rfl c rule
    hcontributes hguarded happlies
  refine ⟨hpolicy, guard, hguard, ?_⟩
  rw [hpolicy, hrewrite, Option.getD_none, enforceRequest, guardForRequest, hprovider]
  simp only [Option.bind_eq_bind, Option.bind_some, hguard, Option.pure_def]

/-- A provider whose bearer token is all that is injected. -/
def bearerProvider (provider displayName : Str) (rules : List (Str × Option Str)) : AppProvider where
  provider := provider
  displayName := displayName
  hostRules := rules.map fun (host, front) => ⟨.exact host, front, .bearer, false, none⟩
  metadataHeaders := []
  credentialHeaders := []
  credentialParams := []
  hostRewrite := none
  finalizer := none
  bodyTransform := none

/-- The providers of the source's registry with rules for the hosts of the guarded ones. -/
def guardedRegistry : List AppProvider :=
  [bearerProvider "gmail".toList "Gmail".toList [("gmail.googleapis.com".toList, none),
      (googleHost, some "/gmail/".toList), (googleHost, some "/batch/gmail/".toList)],
    bearerProvider "google-calendar".toList "Google Calendar".toList
      [(googleHost, some "/calendar/".toList), (googleHost, some "/batch/calendar/".toList)],
    bearerProvider "google-drive".toList "Google Drive".toList
      (drivePrefixes.map fun front => (googleHost, some front)),
    bearerProvider "google-search-console".toList "Google Search Console".toList
      [("searchconsole.googleapis.com".toList, none), (googleHost, some "/webmasters/".toList)],
    bearerProvider "youtube".toList "YouTube".toList [(googleHost, some "/youtube/".toList),
      (googleHost, some "/upload/youtube/".toList), (googleHost, some "/batch/youtube/".toList)],
    bearerProvider "dropbox".toList "Dropbox".toList (dropboxHosts.map fun host => (host, none))]

/-- The registry knows its entries. -/
theorem knownEntries_guardedRegistry : KnownEntries guardedRegistry where
  dropbox := by decide
  google := by decide
  dropbox_plain app happ := by
    cases happ
    exact ⟨by decide, rfl, rfl, rfl⟩
  drive_plain app happ := by
    cases happ
    exact ⟨by decide, rfl, rfl, rfl⟩

/-- A Drive connection that is restricted to one folder. -/
def driveConnection : AppConnectionRow where
  id := "c1".toList
  provider := "google-drive".toList
  scope := "workspace".toList
  credentials := some "sealed".toList
  label := none
  metadata := none
  sessionPolicy := some (listPolicy googleDrive ["A/B".toList])

/-- An outside that opens every credential and has a token for it. -/
def tokenOutside : Outside where
  decrypt sealed := some sealed
  fromStr _ := none
  toText _ := []
  base64 s := s
  resolveAccessToken _ _ := .ok ("token".toList, none)
  now := 0

/-- Checks that refuse whatever Drive is asked. -/
def refusingChecks : GuardChecks := ⟨fun _ _ _ => none, fun _ _ _ => some "outside the allowed folders".toList⟩

/-- A listing of Drive's files. -/
def driveListing : GuardedRequest := ⟨"GET".toList, "/drive/v3/files".toList, [], none⟩

/-- The connections of an agent: one to Gmail without a policy, and the one to Drive. -/
def agentConnections : List AppConnectionRow :=
  [{ driveConnection with id := "c2".toList, provider := "gmail".toList, sessionPolicy := none }, driveConnection]

/-- Both connections were resolved before, for another request each, and some of the entries were evicted. -/
def earlierEvents : List CacheEvent :=
  [.resolve tokenOutside "o".toList "w".toList agentConnections (googleHost ++ ":443".toList)
      (some "/gmail/v1/users/me/messages".toList) none,
    .resolve tokenOutside "o".toList "w".toList agentConnections (googleHost ++ ":443".toList)
      (some "/drive/v3/about".toList) none,
    .evict fun key => decide (key.length < 8)]

/-- A listing of Drive's files is judged by Drive's guard under its connection's policy, beside a connection of the same
host and from a filled cache. -/
theorem guard_coverage_beside_gmail :
    ∃ guard, requestGuard refusingChecks "google-drive".toList = some guard ∧
      enforceRequest guardedRegistry refusingChecks driveConnection.sessionPolicy
          (googleHost ++ ":443".toList) driveListing =
        driveConnection.sessionPolicy.bind fun policy =>
          guard.judge policy (stripPort (googleHost ++ ":443".toList)) driveListing := by
  have hrows : KnownRows (fun id => if id = "c1".toList then "google-drive".toList else "gmail".toList)
      "o".toList "w".toList agentConnections := ⟨by decide, by decide, by decide, by decide⟩
  have hevents : ∀ e ∈ earlierEvents,
      e.Known fun id => if id = "c1".toList then "google-drive".toList else "gmail".toList :=
    forall_mem_cons.mpr ⟨hrows, forall_mem_cons.mpr ⟨hrows, forall_mem_singleton.mpr trivial⟩⟩
  exact (@guard_coverage guardedRegistry knownEntries_guardedRegistry refusingChecks _ earlierEvents hevents tokenOutside
    "o".toList "w".toList agentConnections hrows (googleHost ++ ":443".toList) driveListing none _ rfl
    driveConnection _ (.inl List.mem_cons_self) (.inr rfl) (by decide)).2

end Coverage

end Onecli.Access.GuardCoverage
