import Onecli.Gateway.HostDecision

/-!
# What is injected on a spelling of a host

The resolution of app connections, run side by side on two spellings that no entry of the registry tells apart.
The rules that it answers are equal. What it carries along of the host itself, the rewritten host and the
credentials that are pending, is equal up to case, and so stay the two parts of the cache.
-/

namespace Onecli.Gateway

open PartialSearch List Option Except Function

/-- A pending credential but for the spelling of its host. -/
def PendingInjection.unspelled (p : PendingInjection) : PendingInjection :=
  { p with hostname := toAsciiLowercase p.hostname, cacheKey := [] }

/-- A resolution but for the spelling of its hosts. -/
def Resolution.unspelled (r : Resolution) : Resolution :=
  { r with rewriteHost := r.rewriteHost.map toAsciiLowercase, pending := r.pending.map PendingInjection.unspelled }

/-- Two answers that differ in the spelling of hosts alone. -/
inductive AppConnectionResult.Agrees : AppConnectionResult → AppConnectionResult → Prop
  | rules {r r' : Resolution} (h : r.unspelled = r'.unspelled) : Agrees (.rules r) (.rules r')
  | same (result : AppConnectionResult) : Agrees result result

/-- Cached rules but for the spelling of their host. -/
def CachedAppInjection.unspelled (c : CachedAppInjection) : CachedAppInjection :=
  { c with rewriteHost := c.rewriteHost.map toAsciiLowercase }

/-- Built rules but for the spelling of their host. -/
def BuiltRules.unspelled (b : BuiltRules) : BuiltRules := { b with rewriteHost := b.rewriteHost.map toAsciiLowercase }

/-- Two caches hold alike what they hold for a connection under either spelling. -/
def CacheAgree (outside : Outside) (organizationId workspaceId host host' : Str) (cache cache' : RuleCache) : Prop :=
  ∀ conn : AppConnectionRow, ':' ∉ conn.id →
    (cache (injectionCacheKey outside organizationId workspaceId conn host)).map CachedAppInjection.unspelled =
      (cache' (injectionCacheKey outside organizationId workspaceId conn host')).map CachedAppInjection.unspelled

section Keys

variable {outside : Outside} {organizationId workspaceId : Str}

theorem append_cons_inj {c : Char} {front front' back back' : Str} (hfront : c ∉ front) (hfront' : c ∉ front')
    (h : front ++ c :: back = front' ++ c :: back') : front = front' ∧ back = back' := by
  have hcut (front back : Str) (hfront : c ∉ front) : (front ++ c :: back).takeWhile (· ≠ c) = front := by
    have hall (a : Char) (ha : a ∈ front) : decide (a ≠ c) = true := decide_eq_true fun heq => hfront (heq ▸ ha)
    rw [takeWhile_append_of_pos hall, takeWhile_cons_of_neg (by simp), append_nil]
  have heq : front = front' := by rw [← hcut front back hfront, h, hcut front' back' hfront']
  subst heq
  exact ⟨rfl, (List.cons.inj (append_cancel_left h)).2⟩

theorem injectionCacheKey_congr {conn conn' : AppConnectionRow} (hid : ':' ∉ conn.id) (hid' : ':' ∉ conn'.id)
    {host : Str} (host' : Str)
    (h : injectionCacheKey outside organizationId workspaceId conn host =
      injectionCacheKey outside organizationId workspaceId conn' host) :
    injectionCacheKey outside organizationId workspaceId conn host' =
      injectionCacheKey outside organizationId workspaceId conn' host' := by
  simp only [injectionCacheKey, append_assoc] at h ⊢
  obtain ⟨hsame, hrest⟩ := append_cons_inj hid hid' (append_cancel_left h)
  have hpolicy := @append_cancel_left _ host _ _ hrest
  rw [hsame]
  exact congrArg (fun rest => injectionCachePrefix organizationId workspaceId ++
    (conn'.id ++ (":".toList ++ (host' ++ rest)))) hpolicy

end Keys

section Connection

variable {outside : Outside} {registry : List AppProvider} {organizationId workspaceId host host' : Str}
  {cache cache' : RuleCache}

variable {conn : AppConnectionRow}

theorem CacheAgree.update (h : CacheAgree outside organizationId workspaceId host host' cache cache')
    (hid : ':' ∉ conn.id) {entry entry' : CachedAppInjection} (hentry : entry.unspelled = entry'.unspelled) :
    CacheAgree outside organizationId workspaceId host host'
      (update cache (injectionCacheKey outside organizationId workspaceId conn host) (some entry))
      (update cache' (injectionCacheKey outside organizationId workspaceId conn host') (some entry')) := by
  intro other hother
  by_cases hkey : injectionCacheKey outside organizationId workspaceId other host =
      injectionCacheKey outside organizationId workspaceId conn host
  · rw [hkey, injectionCacheKey_congr hother hid host' hkey, update_self, update_self]
    exact congrArg some hentry
  · have hkey' : injectionCacheKey outside organizationId workspaceId other host' ≠
        injectionCacheKey outside organizationId workspaceId conn host' :=
      fun heq => hkey (injectionCacheKey_congr hother hid host heq)
    rw [update_of_ne hkey, update_of_ne hkey']
    exact h other hother

/-- Two answers, each with the cache that it leaves. -/
structure SameAnswer (outside : Outside) (organizationId workspaceId host host' : Str)
    (answer answer' : AppConnectionResult × RuleCache) : Prop where
  result : answer.1.Agrees answer'.1
  cache : CacheAgree outside organizationId workspaceId host host' answer.2 answer'.2

theorem SpelledAlike.connectionRules (h : SpelledAlike registry host host') (outside : Outside)
    (conn : AppConnectionRow) (decryptedJson : Str) :
    (connectionRules outside registry conn decryptedJson host).map BuiltRules.unspelled =
      (connectionRules outside registry conn decryptedJson host').map BuiltRules.unspelled := by
  have hrewrite : ((outside.fromStr decryptedJson).bind fun creds =>
      Gateway.rewriteHost registry conn.provider creds host).map toAsciiLowercase =
      ((outside.fromStr decryptedJson).bind fun creds =>
        Gateway.rewriteHost registry conn.provider creds host').map toAsciiLowercase := by
    cases outside.fromStr decryptedJson with
    | none => rfl
    | some creds => exact h.rewriteHost conn.provider creds
  simp only [Gateway.connectionRules, h.buildAppInjectionRules]
  generalize (if needsAccessToken registry conn.provider then outside.resolveAccessToken conn decryptedJson
    else .ok ([], none)) = resolved
  cases resolved with
  | error => rfl
  | ok => exact congrArg ok (congrArg (BuiltRules.mk _ · _) hrewrite)

theorem SpelledAlike.credentialHostGate (h : SpelledAlike registry host host') (provider : Str)
    (creds : Option (Json Str)) :
    credentialHostGate registry provider creds host = credentialHostGate registry provider creds host' := by
  rw [Gateway.credentialHostGate, Gateway.credentialHostGate, h.credentialHostField, h.spelling.normalizeHost]

theorem SpelledAlike.buildConnectionRules (h : SpelledAlike registry host host')
    (hcache : CacheAgree outside organizationId workspaceId host host' cache cache') (hid : ':' ∉ conn.id)
    (decryptedJson : Str) :
    let built := buildConnectionRules outside registry conn decryptedJson host
      (injectionCacheKey outside organizationId workspaceId conn host) cache
    let built' := buildConnectionRules outside registry conn decryptedJson host'
      (injectionCacheKey outside organizationId workspaceId conn host') cache'
    built.1.map BuiltRules.unspelled = built'.1.map BuiltRules.unspelled ∧
      CacheAgree outside organizationId workspaceId host host' built.2 built'.2 := by
  have hrules := h.connectionRules outside conn decryptedJson
  simp only [Gateway.buildConnectionRules]
  cases hbuilt : Gateway.connectionRules outside registry conn decryptedJson host with
  | error =>
    cases hbuilt' : Gateway.connectionRules outside registry conn decryptedJson host' with
    | error =>
      rw [hbuilt, hbuilt'] at hrules
      exact ⟨hrules, hcache⟩
    | ok =>
      rw [hbuilt, hbuilt'] at hrules
      cases hrules
  | ok built =>
    cases hbuilt' : Gateway.connectionRules outside registry conn decryptedJson host' with
    | error =>
      rw [hbuilt, hbuilt'] at hrules
      cases hrules
    | ok built' =>
      rw [hbuilt, hbuilt'] at hrules
      have hsame : built.unspelled = built'.unspelled := ok.inj hrules
      have hexpires : built.expiresAt = built'.expiresAt := (BuiltRules.mk.inj hsame).2.2
      simp only [hexpires]
      split
      · refine ⟨hrules, hcache.update hid ?_⟩
        obtain ⟨hlist, hrewrite, -⟩ := BuiltRules.mk.inj hsame
        exact congrArg₂ (CachedAppInjection.mk · · conn.label) hlist hrewrite
      · exact ⟨hrules, hcache⟩

theorem Resolution.ofConnection_unspelled (registry : List AppProvider) (conn : AppConnectionRow)
    (rules : List InjectionRule) (expiry : Option ℤ) {rewritten rewritten' : Option Str} (label : Option Str)
    {pending pending' : List PendingInjection}
    (hrewritten : rewritten.map toAsciiLowercase = rewritten'.map toAsciiLowercase)
    (hpend : pending.map PendingInjection.unspelled = pending'.map PendingInjection.unspelled) :
    (Resolution.ofConnection registry conn rules expiry rewritten label pending).unspelled =
      (Resolution.ofConnection registry conn rules expiry rewritten' label pending').unspelled := by
  simp only [Resolution.unspelled, Resolution.ofConnection, hrewritten, hpend]

/-- Spellings alike inject the same. -/
theorem SpelledAlike.resolveConnectionInjections (h : SpelledAlike registry host host')
    (hcache : CacheAgree outside organizationId workspaceId host host' cache cache') (hid : ':' ∉ conn.id) :
    SameAnswer outside organizationId workspaceId host host'
      (resolveConnectionInjections outside registry organizationId workspaceId host conn cache)
      (resolveConnectionInjections outside registry organizationId workspaceId host' conn cache') := by
  have hkey := hcache conn hid
  rw [Gateway.resolveConnectionInjections, Gateway.resolveConnectionInjections]
  simp only
  cases hcached : cache (injectionCacheKey outside organizationId workspaceId conn host) with
  | some =>
    cases hcached' : cache' (injectionCacheKey outside organizationId workspaceId conn host') with
    | none =>
      rw [hcached, hcached'] at hkey
      cases hkey
    | some =>
      rw [hcached, hcached'] at hkey
      obtain ⟨hrules, hrewrite, hlabel⟩ := CachedAppInjection.mk.inj (some.inj hkey)
      refine ⟨.rules ?_, hcache⟩
      simp only [hrules, hlabel]
      exact Resolution.ofConnection_unspelled registry conn _ none _ hrewrite rfl
  | none =>
    have hmiss : cache' (injectionCacheKey outside organizationId workspaceId conn host') = none := by
      cases hcached' : cache' (injectionCacheKey outside organizationId workspaceId conn host') with
      | none => rfl
      | some =>
        rw [hcached, hcached'] at hkey
        cases hkey
    rw [hmiss]
    cases conn.credentials.bind outside.decrypt with
    | none => exact ⟨.same _, hcache⟩
    | some decryptedJson =>
      simp only [h.credentialHostGate, h.hostHasInterceptRules]
      split
      · exact ⟨.same _, hcache⟩
      · split
        · exact ⟨.same _, hcache⟩
        · split
          · refine ⟨.rules (Resolution.ofConnection_unspelled registry conn [] none _ ?_ ?_), hcache⟩
            · cases outside.fromStr decryptedJson with
              | none => rfl
              | some creds => exact h.rewriteHost conn.provider creds
            · have hhost : toAsciiLowercase host = toAsciiLowercase host' := h.spelling
              simp only [map_cons, map_nil, PendingInjection.unspelled, hhost]
          · obtain ⟨hbuilt, hleft⟩ := h.buildConnectionRules hcache hid decryptedJson
            generalize Gateway.buildConnectionRules outside registry conn decryptedJson host
              (injectionCacheKey outside organizationId workspaceId conn host) cache = built at hbuilt hleft ⊢
            generalize Gateway.buildConnectionRules outside registry conn decryptedJson host'
              (injectionCacheKey outside organizationId workspaceId conn host') cache' = built' at hbuilt hleft ⊢
            obtain ⟨answer, left⟩ := built
            obtain ⟨answer', left'⟩ := built'
            cases answer with
            | error failure =>
              cases answer' with
              | ok => cases hbuilt
              | error =>
                cases hbuilt
                cases failure <;> exact ⟨.same _, hleft⟩
            | ok =>
              cases answer' with
              | error => cases hbuilt
              | ok =>
                obtain ⟨hrules, hrewrite, hexpires⟩ := BuiltRules.mk.inj (ok.inj hbuilt)
                refine ⟨.rules ?_, hleft⟩
                rw [hrules, hexpires]
                exact Resolution.ofConnection_unspelled registry conn _ _ _ hrewrite rfl

end Connection

section Request

variable {outside : Outside} {registry : List AppProvider} {organizationId workspaceId host host' : Str}
  {cache cache' : RuleCache}

/-- Spellings alike are served alike. -/
theorem SpelledAlike.providerServesRequest (h : SpelledAlike registry host host') (provider : Str)
    (path : Option Str) :
    providerServesRequest registry provider host path = providerServesRequest registry provider host' path := by
  cases path with
  | none => rfl
  | some path => exact h.providerMatchesHostAndPath provider path

theorem SpelledAlike.narrowConnectionsByPath (h : SpelledAlike registry host host')
    (conns : List AppConnectionRow) (path : Option Str) :
    narrowConnectionsByPath registry conns host path = narrowConnectionsByPath registry conns host' path := by
  simp only [Gateway.narrowConnectionsByPath, h.hostHasPathScopedProviders, h.providerMatchesHostAndPath]

variable {conns : List AppConnectionRow} {conn : AppConnectionRow}

theorem mem_of_mem_narrowConnectionsByPath {hostname : Str} {path : Option Str}
    (h : conn ∈ narrowConnectionsByPath registry conns hostname path) : conn ∈ conns := by
  unfold narrowConnectionsByPath at h
  split at h
  · exact h
  · split at h
    · exact h
    · split at h
      · exact h
      · simp only at h
        split at h
        · exact h
        · exact mem_of_mem_filter h

/-- The accumulators but for the spelling of hosts. -/
def Merged.unspelled (m : Merged) : Merged :=
  { m with rewriteHost := m.rewriteHost.map toAsciiLowercase, pending := m.pending.map PendingInjection.unspelled }

theorem Merged.addRules_unspelled (acc : Merged) (r : Resolution) (serves : Bool) :
    (acc.addRules r serves).unspelled = acc.unspelled.addRules r.unspelled serves := by
  cases serves <;> simp [Merged.addRules, Merged.unspelled, Resolution.unspelled, map_or]

/-- What the loop answers, and the cache that it leaves. -/
structure SameMerge (outside : Outside) (organizationId workspaceId host host' : Str)
    (answer answer' : Except ConnectionChoice Merged × RuleCache) : Prop where
  merged : answer.1.map Merged.unspelled = answer'.1.map Merged.unspelled
  cache : CacheAgree outside organizationId workspaceId host host' answer.2 answer'.2

section

variable (h : SpelledAlike registry host host')
include h

theorem SpelledAlike.mergeConnection (hcache : CacheAgree outside organizationId workspaceId host host' cache cache')
    (hid : ':' ∉ conn.id) (path : Option Str) {acc acc' : Merged} (hacc : acc.unspelled = acc'.unspelled) :
    SameMerge outside organizationId workspaceId host host'
    (mergeConnection outside registry organizationId workspaceId host path acc conn cache)
    (mergeConnection outside registry organizationId workspaceId host' path acc' conn cache') := by
  obtain ⟨hresult, hleft⟩ := h.resolveConnectionInjections hcache hid
  rw [Gateway.mergeConnection, Gateway.mergeConnection]
  generalize Gateway.resolveConnectionInjections outside registry organizationId workspaceId host conn cache =
    answer at hresult hleft
  generalize Gateway.resolveConnectionInjections outside registry organizationId workspaceId host' conn cache' =
    answer' at hresult hleft
  obtain ⟨result, left⟩ := answer
  obtain ⟨result', left'⟩ := answer'
  cases hresult with
  | @rules r r' hsame =>
    refine ⟨congrArg ok ?_, hleft⟩
    have hprov : r.provider = r'.provider := congrArg (·.provider) hsame
    rw [Merged.addRules_unspelled, Merged.addRules_unspelled, hacc, hsame, hprov, h.providerServesRequest]
  | same =>
    cases result with
    | rules =>
      refine ⟨congrArg ok ?_, hleft⟩
      rw [Merged.addRules_unspelled, Merged.addRules_unspelled, hacc, h.providerServesRequest]
    | hostMismatch conns =>
      refine ⟨congrArg ok ?_, hleft⟩
      exact congrArg (fun m : Merged => { m with hostMismatches := m.hostMismatches ++ conns }) hacc
    | needsReconnect =>
      simp only [h.providerServesRequest]
      split
      · exact ⟨rfl, hleft⟩
      · exact ⟨congrArg ok hacc, hleft⟩
    | _ => exact ⟨congrArg ok hacc, hleft⟩

theorem SpelledAlike.mergeConnections (path : Option Str) (conns : List AppConnectionRow)
    (hids : ∀ conn ∈ conns, ':' ∉ conn.id)
    (hcache : CacheAgree outside organizationId workspaceId host host' cache cache') {acc acc' : Merged}
    (hacc : acc.unspelled = acc'.unspelled) : SameMerge outside organizationId workspaceId host host'
    (mergeConnections outside registry organizationId workspaceId host path conns acc cache)
    (mergeConnections outside registry organizationId workspaceId host' path conns acc' cache') := by
  induction conns generalizing acc acc' cache cache' with
  | nil => exact ⟨congrArg ok hacc, hcache⟩
  | cons conn rest ih =>
    obtain ⟨hid, hrest⟩ := forall_mem_cons.mp hids
    obtain ⟨hmerged, hleft⟩ := h.mergeConnection hcache hid path hacc
    rw [Gateway.mergeConnections, Gateway.mergeConnections]
    generalize Gateway.mergeConnection outside registry organizationId workspaceId host path acc conn cache =
      answer at hmerged hleft
    generalize Gateway.mergeConnection outside registry organizationId workspaceId host' path acc' conn cache' =
      answer' at hmerged hleft
    obtain ⟨merged, left⟩ := answer
    obtain ⟨merged', left'⟩ := answer'
    cases merged with
    | error =>
      cases merged' with
      | error => exact ⟨hmerged, hleft⟩
      | ok => cases hmerged
    | ok =>
      cases merged' with
      | error => cases hmerged
      | ok => exact ih hrest hleft (ok.inj hmerged)

theorem SpelledAlike.resolveSeveral (path : Option Str) (hids : ∀ conn ∈ conns, ':' ∉ conn.id)
    (hcache : CacheAgree outside organizationId workspaceId host host' cache cache') : SameAnswer outside
    organizationId workspaceId host host'
    (resolveSeveral outside registry organizationId workspaceId host path conns cache)
    (resolveSeveral outside registry organizationId workspaceId host' path conns cache') := by
  obtain ⟨hmerged, hleft⟩ := h.mergeConnections path conns hids hcache (Eq.refl Merged.empty.unspelled)
  rw [Gateway.resolveSeveral, Gateway.resolveSeveral]
  simp only [h.providerServesRequest]
  split
  · exact ⟨.same _, hcache⟩
  · split
    · exact ⟨.same _, hcache⟩
    · generalize Gateway.mergeConnections outside registry organizationId workspaceId host path conns
        .empty cache = answer at hmerged hleft
      generalize Gateway.mergeConnections outside registry organizationId workspaceId host' path conns
        .empty cache' = answer' at hmerged hleft
      obtain ⟨merged, left⟩ := answer
      obtain ⟨merged', left'⟩ := answer'
      cases merged with
      | error =>
        cases merged' with
        | ok => cases hmerged
        | error =>
          cases hmerged
          exact ⟨.same _, hleft⟩
      | ok m =>
        cases merged' with
        | error => cases hmerged
        | ok m' =>
          obtain ⟨hrules, hexpires, hrewrite, hlabel, hfinalizer, htransform, hprov, hpolicy, hid, hpend,
            hmismatches⟩ := Merged.mk.inj (ok.inj hmerged)
          have hempty : m.pending.isEmpty = m'.pending.isEmpty := by
            have hmap := congrArg List.isEmpty hpend
            rwa [isEmpty_map, isEmpty_map] at hmap
          simp only [hrules, hmismatches, hempty]
          split
          · exact ⟨.same _, hleft⟩
          · refine ⟨.rules ?_, hleft⟩
            simp only [Resolution.unspelled, hexpires, hrewrite, hlabel, hfinalizer, htransform, hprov, hpolicy,
              hid, hpend]

theorem SpelledAlike.resolveSingle (path : Option Str) (hid : ':' ∉ conn.id)
    (hcache : CacheAgree outside organizationId workspaceId host host' cache cache') : SameAnswer outside
    organizationId workspaceId host host'
    (resolveSingle outside registry organizationId workspaceId host path conn cache)
    (resolveSingle outside registry organizationId workspaceId host' path conn cache') := by
  obtain ⟨hresult, hleft⟩ := h.resolveConnectionInjections hcache hid
  rw [Gateway.resolveSingle, Gateway.resolveSingle]
  generalize Gateway.resolveConnectionInjections outside registry organizationId workspaceId host conn cache =
    answer at hresult hleft
  generalize Gateway.resolveConnectionInjections outside registry organizationId workspaceId host' conn cache' =
    answer' at hresult hleft
  obtain ⟨result, left⟩ := answer
  obtain ⟨result', left'⟩ := answer'
  cases hresult with
  | @rules r r' hsame =>
    obtain ⟨hrules, hexpires, hrewrite, hlabel, hfinalizer, htransform, hprov, hpolicy, hconn, hpend⟩ :=
      Resolution.mk.inj hsame
    simp only [hprov, h.providerServesRequest]
    split
    · exact ⟨.rules hsame, hleft⟩
    · refine ⟨.rules ?_, hleft⟩
      simp only [Resolution.unspelled, hrules, hexpires, hpend]
  | same =>
    cases result with
    | needsReconnect conn | rules r =>
      simp only [h.providerServesRequest]
      split <;> exact ⟨.same _, hleft⟩
    | _ => exact ⟨.same _, hleft⟩

theorem SpelledAlike.resolveUnpinned (path : Option Str) (hids : ∀ conn ∈ conns, ':' ∉ conn.id)
    (hcache : CacheAgree outside organizationId workspaceId host host' cache cache') : SameAnswer outside
    organizationId workspaceId host host'
    (resolveUnpinned outside registry organizationId workspaceId host path conns cache)
    (resolveUnpinned outside registry organizationId workspaceId host' path conns cache') := by
  have hnarrowed (conn : AppConnectionRow)
      (hmem : conn ∈ Gateway.narrowConnectionsByPath registry conns host path) : ':' ∉ conn.id :=
    hids conn (mem_of_mem_narrowConnectionsByPath hmem)
  rw [Gateway.resolveUnpinned, Gateway.resolveUnpinned, ← h.narrowConnectionsByPath]
  generalize Gateway.narrowConnectionsByPath registry conns host path = candidates at hnarrowed ⊢
  match candidates with
  | [] => exact h.resolveSeveral path hnarrowed hcache
  | [conn] => exact h.resolveSingle path (hnarrowed conn (mem_singleton.mpr rfl)) hcache
  | conn :: conn' :: rest => exact h.resolveSeveral path hnarrowed hcache

/-- Spellings alike resolve to the same injection. -/
theorem SpelledAlike.resolveAppInjectionForRequest {appConnections : List AppConnectionRow}
    (hids : ∀ conn ∈ appConnections, ':' ∉ conn.id)
    (hcache : CacheAgree outside organizationId workspaceId host host' cache cache')
    (path connId : Option Str) : SameAnswer outside organizationId workspaceId host host'
    (resolveAppInjectionForRequest outside registry appConnections host path connId organizationId
    workspaceId cache)
    (resolveAppInjectionForRequest outside registry appConnections host' path connId organizationId
    workspaceId cache') := by
  have hunpinned := h.resolveUnpinned path hids hcache
  simp only [Gateway.resolveAppInjectionForRequest, h.providerServesRequest]
  split
  · exact ⟨.same _, hcache⟩
  · cases connId with
    | none => exact hunpinned
    | some connId =>
      simp only
      cases hfound : appConnections.find? (·.id == connId) with
      | none => exact ⟨.same _, hcache⟩
      | some conn =>
        simp only
        split
        · obtain ⟨hresult, hleft⟩ :=
            h.resolveConnectionInjections hcache (hids conn (List.mem_of_find?_eq_some hfound))
          generalize Gateway.resolveConnectionInjections outside registry organizationId workspaceId host conn cache =
            answer at hresult hleft
          generalize Gateway.resolveConnectionInjections outside registry organizationId workspaceId host' conn
            cache' = answer' at hresult hleft
          obtain ⟨result, left⟩ := answer
          obtain ⟨result', left'⟩ := answer'
          cases hresult with
          | rules hsame => exact ⟨.rules hsame, hleft⟩
          | same =>
            cases result with
            | needsReconnect =>
              simp only
              split <;> exact ⟨.same _, hleft⟩
            | _ => exact ⟨.same _, hleft⟩
        · exact hunpinned

end

end Request

section Decision

variable {authority authority' : Str}

/-- A rule whose targets name hosts or secrets alone. -/
def NewRule.NamesNoApp (rule : NewRule) : Prop :=
  ∀ target ∈ rule.targets, (∀ provider tools, target ≠ .app provider tools) ∧
    ∀ id provider tools methods, target ≠ .connection id provider tools methods

/-- Without app rules the spelling of the host does not matter. -/
theorem SameSpelling.evaluateOutcome (h : SameSpelling authority authority') (env : Env) {rules : List NewRule}
    (hrules : ∀ rule ∈ rules, rule.NamesNoApp) (request : PolicyRequest) (body : ConditionBody) :
    evaluateOutcome env rules { request with host := authority } body =
      evaluateOutcome env rules { request with host := authority' } body := by
  have hrule (rule : NewRule) (hmem : rule ∈ rules) : ruleMatches env { request with host := authority } body rule =
      ruleMatches env { request with host := authority' } body rule := by
    rw [ruleMatches, ruleMatches]
    exact if_congr Iff.rfl
      (anyM_congr fun target htarget => h.targetMatches env request body rule (hrules rule hmem target htarget)) rfl
  have hfirst (scope : Scope) : firstMatch env (explicitRules rules scope) { request with host := authority } body =
      firstMatch env (explicitRules rules scope) { request with host := authority' } body := by
    refine findM?_congr fun rule hmem => hrule rule ?_
    exact mem_of_mem_filter ((mem_insertionSort RuleLe).mp hmem)
  rw [Gateway.evaluateOutcome, Gateway.evaluateOutcome, hfirst, hfirst]
  rfl

/-- Spellings alike have one guard. -/
theorem SpelledAlike.guardForRequest {registry : List AppProvider}
    (h : SpelledAlike registry (stripPort authority) (stripPort authority')) (checks : GuardChecks) (path : Str) :
    (guardForRequest registry checks authority path).map Prod.snd =
      (guardForRequest registry checks authority' path).map Prod.snd := by
  simp only [Gateway.guardForRequest, h.providerForHostAndPath]
  cases Gateway.providerForHostAndPath registry (stripPort authority') path with
  | none => rfl
  | some provider =>
    cases hguard : requestGuard checks provider with
    | none | some => simp [hguard]

end Decision

section Mirror

end Mirror

end Onecli.Gateway
