import Onecli.Gateway.AppInjection
import Onecli.Gateway.Evaluate
import Mathlib.Data.List.Find

/-!
# Spellings of a host

Two spellings of a host that differ only in ASCII case have one folded form. The host matcher of network
and secret targets reads the folded form alone, and so do cutting off a port and normalizing.
-/

namespace Onecli.Gateway

open CodeUnits List

theorem encode_toLower (s : Str) : encode (fun c => [c.toLower]) s = toAsciiLowercase s := by
  induction s with
  | nil => rfl
  | cons c s ih =>
    rw [encode_cons, ih]
    rfl

/-- Lowering keeps what is no letter. -/
theorem isDelimiter_toLower {d : Char} (hlower : d.toLower = d) (hletter : ¬ (97 ≤ d.toNat ∧ d.toNat ≤ 122)) :
    IsDelimiter (fun c => [c.toLower]) d d := by
  refine ⟨congrArg (fun c => [c]) hlower, fun c hne hmem => ?_⟩
  have hfold : d = c.toLower := mem_singleton.mp hmem
  have hnat := toNat_toLower c
  by_cases hupper : 65 ≤ c.toNat ∧ c.toNat ≤ 90
  · rw [if_pos hupper, ← hfold] at hnat
    omega
  · rw [if_neg hupper, ← hfold] at hnat
    exact hne (Char.ext (UInt32.toNat_inj.mp hnat.symm))

theorem toAsciiLowercase_takeWhile {d : Char} (hlower : d.toLower = d)
    (hletter : ¬ (97 ≤ d.toNat ∧ d.toNat ≤ 122)) (s : Str) :
    toAsciiLowercase (s.takeWhile (· ≠ d)) = (toAsciiLowercase s).takeWhile (· ≠ d) := by
  rw [← encode_toLower, ← encode_toLower, takeWhile_encode (isDelimiter_toLower hlower hletter)]

theorem toAsciiLowercase_splitOn {d : Char} (hlower : d.toLower = d)
    (hletter : ¬ (97 ≤ d.toNat ∧ d.toNat ≤ 122)) (s : Str) :
    (toAsciiLowercase s).splitOn d = (s.splitOn d).map toAsciiLowercase := by
  rw [← encode_toLower, splitOn_encode (isDelimiter_toLower hlower hletter)]
  exact map_congr_left fun piece _ => encode_toLower piece

/-- Two spellings of one host. -/
def SameSpelling (host host' : Str) : Prop := toAsciiLowercase host = toAsciiLowercase host'

variable {host host' : Str}

section

variable (h : SameSpelling host host')
include h

theorem SameSpelling.byteLen : byteLen host = byteLen host' := by
  rw [← byteLen_toAsciiLowercase host, ← byteLen_toAsciiLowercase host', h]

/-- Spellings stay alike without their ports. -/
theorem SameSpelling.stripPort : SameSpelling (stripPort host) (stripPort host') := by
  rw [SameSpelling, Gateway.stripPort, Gateway.stripPort, toAsciiLowercase_takeWhile (by decide) (by decide),
    toAsciiLowercase_takeWhile (by decide) (by decide), h]

/-- Spellings compare alike. -/
theorem SameSpelling.eqIgnoreAsciiCase (text : Str) : eqIgnoreAsciiCase host text = eqIgnoreAsciiCase host' text := by
  rw [Gateway.eqIgnoreAsciiCase, Gateway.eqIgnoreAsciiCase, h]

theorem SameSpelling.get_ends (front back : Str) (bound : ℕ → Bool)
    (hbound : bound (Gateway.byteLen host) = true → Gateway.byteLen back ≤ Gateway.byteLen host) :
    (bound (Gateway.byteLen host) && (getTo host (Gateway.byteLen front)).any (Gateway.eqIgnoreAsciiCase · front) &&
    (getFrom host (Gateway.byteLen host - Gateway.byteLen back)).any (Gateway.eqIgnoreAsciiCase · back)) =
    (bound (Gateway.byteLen host') && (getTo host' (Gateway.byteLen front)).any (Gateway.eqIgnoreAsciiCase · front) &&
    (getFrom host' (Gateway.byteLen host' - Gateway.byteLen back)).any (Gateway.eqIgnoreAsciiCase · back)) := by
  have hends : (toAsciiLowercase front <+: toAsciiLowercase host ∧ toAsciiLowercase back <:+ toAsciiLowercase host) ↔
      (toAsciiLowercase front <+: toAsciiLowercase host' ∧ toAsciiLowercase back <:+ toAsciiLowercase host') := by
    rw [h]
  rw [Bool.eq_iff_iff]
  simp only [Bool.and_eq_true, and_assoc]
  rw [← get_ends_match_iff, ← get_ends_match_iff, h.byteLen] at hends
  rw [h.byteLen] at hbound ⊢
  constructor
  · rintro ⟨hlength, hfront, hback⟩
    obtain ⟨hfront, hback, -⟩ := hends.mp ⟨hfront, hback, hbound hlength⟩
    exact ⟨hlength, hfront, hback⟩
  · rintro ⟨hlength, hfront, hback⟩
    obtain ⟨hfront, hback, -⟩ := hends.mpr ⟨hfront, hback, hbound hlength⟩
    exact ⟨hlength, hfront, hback⟩

theorem SameSpelling.labelMatches (patternLabel : Str) : labelMatches host patternLabel = labelMatches host'
    patternLabel := by
  have hempty : host.isEmpty = host'.isEmpty := by
    have hmap := congrArg List.isEmpty h
    simpa only [toAsciiLowercase, isEmpty_map] using hmap
  rw [Gateway.labelMatches, Gateway.labelMatches, hempty]
  split
  · rfl
  · split
    · exact h.eqIgnoreAsciiCase patternLabel
    · rename_i front back _
      split
      · rfl
      · refine h.get_ends front back (fun n => decide (Gateway.byteLen front + Gateway.byteLen back < n)) fun hlength => ?_
        have hlt := of_decide_eq_true hlength
        omega

end

theorem labelsMatch_congr {labels labels' : List Str} (h : labels.map toAsciiLowercase = labels'.map toAsciiLowercase)
    (patternLabels : List Str) : labelsMatch labels patternLabels = labelsMatch labels' patternLabels := by
  induction labels generalizing labels' patternLabels with
  | nil => rw [map_eq_nil_iff.mp h.symm]
  | cons label labels ih =>
    obtain ⟨label', labels', rfl⟩ : ∃ label' rest, labels' = label' :: rest := by
      cases labels' with
      | nil => cases h
      | cons label' rest => exact ⟨label', rest, rfl⟩
    obtain ⟨hlabel, hrest⟩ := List.cons.inj h
    cases patternLabels with
    | nil => rfl
    | cons =>
      have hspelling : SameSpelling label label' := hlabel
      rw [labelsMatch, labelsMatch, hspelling.labelMatches, ih hrest]

/-- Spellings match the same patterns. -/
theorem SameSpelling.hostMatches (h : SameSpelling host host') (pattern : Str) :
    hostMatches host pattern = hostMatches host' pattern := by
  rw [Gateway.hostMatches, Gateway.hostMatches]
  split
  · refine labelsMatch_congr ?_ _
    rw [← toAsciiLowercase_splitOn (by decide) (by decide), ← toAsciiLowercase_splitOn (by decide) (by decide), h]
  · split
    · exact h.eqIgnoreAsciiCase pattern
    · rename_i front back _
      refine h.get_ends front back (fun n => decide (Gateway.byteLen front + Gateway.byteLen back ≤ n)) fun hlength => ?_
      have hle := of_decide_eq_true hlength
      omega

theorem toLower_beq {d : Char} (hlower : d.toLower = d) (hletter : ¬ (97 ≤ d.toNat ∧ d.toNat ≤ 122)) (c : Char) :
    (d == c.toLower) = (d == c) := by
  rw [Bool.eq_iff_iff, beq_iff_eq, beq_iff_eq]
  constructor
  · intro hfold
    by_contra hne
    exact (isDelimiter_toLower hlower hletter).not_mem_other c (Ne.symm hne) (mem_singleton.mpr hfold)
  · rintro rfl
    exact hlower.symm

theorem isWhitespace_toLower (c : Char) : isWhitespace c.toLower = isWhitespace c := by
  have hnat := toNat_toLower c
  by_cases hupper : 65 ≤ c.toNat ∧ c.toNat ≤ 90
  · have hno (v : ℕ) (hv : 65 ≤ v ∧ v ≤ 122) :
        ((0x9 ≤ v && v ≤ 0xD) || v == 0x20 || v == 0x85 || v == 0xA0 || v == 0x1680 ||
          (0x2000 ≤ v && v ≤ 0x200A) || v == 0x2028 || v == 0x2029 || v == 0x202F || v == 0x205F || v == 0x3000) =
        false := by
      simp only [Bool.or_eq_false_iff, Bool.and_eq_false_iff, decide_eq_false_iff_not, beq_eq_false_iff_ne]
      omega
    rw [if_pos hupper] at hnat
    exact (hno _ (by omega)).trans (hno _ (by omega)).symm
  · rw [if_neg hupper] at hnat
    rw [isWhitespace, isWhitespace, hnat]

theorem toAsciiLowercase_trim (s : Str) : trim (toAsciiLowercase s) = toAsciiLowercase (trim s) := by
  have hsame : isWhitespace ∘ Char.toLower = isWhitespace := funext isWhitespace_toLower
  have hfront (s : Str) : (toAsciiLowercase s).dropWhile isWhitespace = toAsciiLowercase (s.dropWhile isWhitespace) := by
    rw [toAsciiLowercase, dropWhile_map, hsame, toAsciiLowercase]
  have hreverse (s : Str) : (toAsciiLowercase s).reverse = toAsciiLowercase s.reverse := map_reverse.symm
  rw [trim, trim, List.rdropWhile, List.rdropWhile, hfront, hreverse, hfront, hreverse]

theorem isPrefixOf_toAsciiLowercase {needle : Str}
    (h : ∀ d ∈ needle, d.toLower = d ∧ ¬ (97 ≤ d.toNat ∧ d.toNat ≤ 122)) (s : Str) :
    needle.isPrefixOf (toAsciiLowercase s) = needle.isPrefixOf s := by
  induction needle generalizing s with
  | nil => rw [isPrefixOf_nil_left, isPrefixOf_nil_left]
  | cons d needle ih =>
    cases s with
    | nil => rfl
    | cons c s =>
      obtain ⟨hd, hneedle⟩ := forall_mem_cons.mp h
      change ((d == c.toLower) && needle.isPrefixOf (toAsciiLowercase s)) = ((d == c) && needle.isPrefixOf s)
      rw [toLower_beq hd.1 hd.2, ih hneedle]

theorem afterFirst_toAsciiLowercase {needle : Str}
    (h : ∀ d ∈ needle, d.toLower = d ∧ ¬ (97 ≤ d.toNat ∧ d.toNat ≤ 122)) (s : Str) :
    afterFirst needle (toAsciiLowercase s) = (afterFirst needle s).map toAsciiLowercase := by
  have hdrop (s : Str) : (toAsciiLowercase s).drop needle.length = toAsciiLowercase (s.drop needle.length) :=
    map_drop.symm
  induction s with
  | nil =>
    change ([[]].find? needle.isPrefixOf).map _ = (([[]].find? needle.isPrefixOf).map _).map _
    cases hfound : needle.isPrefixOf [] <;> simp [hfound, toAsciiLowercase]
  | cons c s ih =>
    have hbegins := isPrefixOf_toAsciiLowercase h (c :: s)
    rw [afterFirst, afterFirst, tails_cons]
    change ((toAsciiLowercase (c :: s) :: (toAsciiLowercase s).tails).find? needle.isPrefixOf).map _ = _
    rw [List.find?_cons, List.find?_cons, hbegins]
    cases needle.isPrefixOf (c :: s) with
    | true => exact congrArg some (hdrop (c :: s))
    | false => exact ih

theorem normalizeHost_toAsciiLowercase (s : Str) : normalizeHost (toAsciiLowercase s) = normalizeHost s := by
  have hidem (s : Str) : toAsciiLowercase (toAsciiLowercase s) = toAsciiLowercase s := by
    rw [toAsciiLowercase, toAsciiLowercase, List.map_map]
    refine map_congr_left fun c _ => Char.ext (UInt32.toNat_inj.mp ?_)
    change c.toLower.toLower.toNat = c.toLower.toNat
    rw [toNat_toLower c.toLower, toNat_toLower]
    split_ifs <;> omega
  have hscheme : ((afterFirst "://".toList (trim (toAsciiLowercase s))).getD (trim (toAsciiLowercase s))) =
      toAsciiLowercase ((afterFirst "://".toList (trim s)).getD (trim s)) := by
    rw [toAsciiLowercase_trim, afterFirst_toAsciiLowercase (by decide)]
    cases afterFirst "://".toList (trim s) <;> rfl
  change toAsciiLowercase ((List.takeWhile (· ≠ '/') ((afterFirst _ (trim (toAsciiLowercase s))).getD _)).takeWhile
    (· ≠ ':')) = _
  rw [hscheme, ← toAsciiLowercase_takeWhile (by decide) (by decide),
    ← toAsciiLowercase_takeWhile (by decide) (by decide), hidem]
  rfl

theorem SameSpelling.normalizeHost (h : SameSpelling host host') : normalizeHost host = normalizeHost host' := by
  rw [← normalizeHost_toAsciiLowercase host, ← normalizeHost_toAsciiLowercase host', h]

/-! ## What the gateway decides on a spelling of a host

The host of a request is carried as the client wrote it. Network and secret targets and the app availability
check fold it; the injection registry compares it byte by byte, and with it credential injection, app targets
and the granular guards. Two spellings are told apart by an entry of the registry alone.
-/

open PartialSearch Option

section Model

/-- The texts of `is_llm_host`. -/
def llmHosts : List Str :=
  ["anthropic.com".toList, "openai.com".toList, "chatgpt.com".toList, "deepseek.com".toList, "groq.com".toList,
    "openrouter.ai".toList, "moonshot.cn".toList, "generativelanguage.googleapis.com".toList]

/-- `is_llm_host`. -/
def isLlmHost (host : Str) : Bool := llmHosts.any (containsStr (stripPort host))

/-- A request on the authority of a CONNECT, forwarded to another host when an app connection rewrites it. -/
def PolicyRequest.on (request : PolicyRequest) (authority forward : Str) : PolicyRequest :=
  { request with host := stripPort authority, isLlmHost := Gateway.isLlmHost forward }

end Model

section Folded

variable {host host' : Str}

theorem SameSpelling.targetMatches (h : SameSpelling host host') (env : Env) (request : PolicyRequest)
    (body : ConditionBody) (rule : NewRule) {target : Target}
    (hfolds : (∀ provider tools, target ≠ .app provider tools) ∧
      ∀ id provider tools methods, target ≠ .connection id provider tools methods) :
    targetMatches env target rule { request with host := host } body =
      targetMatches env target rule { request with host := host' } body := by
  cases target with
  | network => rw [Gateway.targetMatches, Gateway.targetMatches, h.hostMatches]
  | app provider tools => exact absurd rfl (hfolds.1 provider tools)
  | connection id provider tools methods => exact absurd rfl (hfolds.2 id provider tools methods)
  | secret => exact congrArg some (any_congr fun pattern _ => h.hostMatches pattern)
  | unresolved => rfl

end Folded

section Registry

/-- No entry of the registry tells two spellings of a host apart. -/
structure SpelledAlike (registry : List AppProvider) (host host' : Str) : Prop where
  spelling : SameSpelling host host'
  patterns : ∀ app ∈ registry, ∀ rule ∈ app.hostRules, rule.pattern.matchesHost host = rule.pattern.matchesHost host'
  rewrites : ∀ app ∈ registry, ∀ rewrite, app.hostRewrite = some rewrite → ∀ value,
    (rewrite.template value host).map toAsciiLowercase = (rewrite.template value host').map toAsciiLowercase

variable {registry : List AppProvider} {host host' : Str}

/-- A provider is in the registry. -/
theorem providerById_mem {provider : Str} {app : AppProvider} (h : providerById registry provider = some app) :
    app ∈ registry := mem_of_find?_eq_some h

section

variable (h : SpelledAlike registry host host')
include h

/-- Spellings meet the same rules. -/
theorem SpelledAlike.rules_any {app : AppProvider} (happ : app ∈ registry) (holds : HostRule → Bool) :
    (app.hostRules.any fun r => r.pattern.matchesHost host && holds r) = app.hostRules.any fun r =>
    r.pattern.matchesHost host' && holds r :=
  any_congr fun rule hrule => by rw [h.patterns app happ rule hrule]

theorem SpelledAlike.provider_any (provider : Str) (holds : HostRule → Bool) :
    ((providerById registry provider).any fun app => app.hostRules.any fun r => r.pattern.matchesHost host && holds
    r) = (providerById registry provider).any fun app => app.hostRules.any fun r => r.pattern.matchesHost host' &&
    holds r := by
  cases hfound : providerById registry provider with
  | none => rfl
  | some => exact h.rules_any (providerById_mem hfound) holds

/-- Spellings match the same paths. -/
theorem SpelledAlike.providerMatchesHostAndPath (provider path : Str) : providerMatchesHostAndPath registry provider
    host path = providerMatchesHostAndPath registry provider host' path :=
  h.provider_any provider fun r => r.pathPrefix.all (pathUnderPrefix path)

theorem SpelledAlike.providerMatchesPathScoped (provider path : Str) : providerMatchesPathScoped registry provider
    host path = providerMatchesPathScoped registry provider host' path :=
  h.provider_any provider fun r => r.pathPrefix.any (pathUnderPrefix path)

/-- Spellings match the same apps. -/
theorem SpelledAlike.matchesHost {app : AppProvider} (happ : app ∈ registry) : app.matchesHost host = app.matchesHost
    host' :=
  any_congr (h.patterns app happ)

theorem SpelledAlike.hostHasPathScopedProviders : hostHasPathScopedProviders registry host =
    hostHasPathScopedProviders registry host' :=
  any_congr fun _ happ => h.rules_any happ fun r => r.pathPrefix.isSome

theorem SpelledAlike.hostHasInterceptRules : hostHasInterceptRules registry host = hostHasInterceptRules registry
    host' :=
  any_congr fun app happ => by rw [h.matchesHost happ]

/-- Spellings alike have the same providers. -/
theorem SpelledAlike.providersForHost : providersForHost registry host = providersForHost registry host' :=
  congrArg (map AppProvider.provider) (filter_congr fun _ happ => h.matchesHost happ)

theorem SpelledAlike.providerForHostAndPath (path : Str) : providerForHostAndPath registry host path =
    providerForHostAndPath registry host' path := by
  have hscoped : (registry.find? fun app => app.hostRules.any fun r =>
      r.pattern.matchesHost host && r.pathPrefix.any (pathUnderPrefix path)) =
      registry.find? fun app => app.hostRules.any fun r =>
        r.pattern.matchesHost host' && r.pathPrefix.any (pathUnderPrefix path) :=
    find?_congr fun _ happ => h.rules_any happ _
  have hhost : providerForHost registry host = providerForHost registry host' :=
    congrArg (Option.map AppProvider.provider) (find?_congr fun _ happ => h.matchesHost happ)
  rw [Gateway.providerForHostAndPath, Gateway.providerForHostAndPath, hscoped, h.hostHasPathScopedProviders, hhost]

theorem SpelledAlike.credentialHostField (provider : Str) : credentialHostField registry provider host =
    credentialHostField registry provider host' := by
  rw [Gateway.credentialHostField, Gateway.credentialHostField]
  cases hfound : providerById registry provider with
  | none => rfl
  | some app =>
    have hrule := find?_congr (h.patterns app (providerById_mem hfound))
    exact congrArg (fun rule => rule.bind (·.credentialHostField)) hrule

theorem SpelledAlike.buildAppInjectionRules (outside : Outside) (provider token : Str) : buildAppInjectionRules
    outside registry provider host token = buildAppInjectionRules outside registry provider host' token := by
  rw [Gateway.buildAppInjectionRules, Gateway.buildAppInjectionRules]
  cases hfound : providerById registry provider with
  | none => rfl
  | some app => exact congrArg _ (filter_congr (h.patterns app (providerById_mem hfound)))

theorem SpelledAlike.rewriteHost (provider : Str) (creds : Json Str) : (rewriteHost registry provider creds host).map
    toAsciiLowercase = (rewriteHost registry provider creds host').map toAsciiLowercase := by
  rw [Gateway.rewriteHost, Gateway.rewriteHost]
  cases hfound : providerById registry provider with
  | none => rfl
  | some app =>
    cases hrewrite : app.hostRewrite with
    | none => simp only [bind_eq_bind, bind_some, hrewrite, bind_none]
    | some rewrite =>
      cases hvalue : (creds.get rewrite.credentialField).bind Json.asStr with
      | none => simp only [bind_eq_bind, bind_some, hrewrite, hvalue, bind_none]
      | some value =>
        simp only [bind_eq_bind, bind_some, hrewrite, hvalue]
        exact h.rewrites app (providerById_mem hfound) rewrite hrewrite value

end

end Registry

section Policy

variable {env : Env} {host host' : Str}

theorem SameSpelling.onHost (h : SameSpelling host host') (tool : CatalogTool) : tool.onHost host = tool.onHost host' :=
  any_congr fun pattern _ => h.hostMatches pattern

section

variable (h : SpelledAlike env.registry host host')
include h

theorem SpelledAlike.appTargetMatches (provider : Str) (tools : List Str) (method path : Str) (body : ConditionBody)
    (conditions : Option (Json Str)) (polarity : PolicyAction) : appTargetMatches env provider tools host method path
    body conditions polarity = appTargetMatches env provider tools host' method path body conditions polarity := by
  have hmirror (providerTools : ProviderTools) :
      hostViaMirror env provider providerTools host path = hostViaMirror env provider providerTools host' path := by
    rw [hostViaMirror, hostViaMirror, h.providerMatchesPathScoped, h.providerMatchesHostAndPath]
  have htool (tool : CatalogTool) (viaMirror : Bool) :
      toolMatches env tool viaMirror host method path body conditions polarity =
        toolMatches env tool viaMirror host' method path body conditions polarity := by
    rw [toolMatches, toolMatches, h.spelling.onHost]
  rw [Gateway.appTargetMatches, Gateway.appTargetMatches]
  cases env.catalog.lookup provider with
  | none => rfl
  | some => simp only [hmirror, htool, h.spelling.onHost, h.providerMatchesHostAndPath]

theorem SpelledAlike.targetMatches (request : PolicyRequest) (body : ConditionBody) (rule : NewRule) (target : Target)
    :
    targetMatches env target rule { request with host := host } body =
      targetMatches env target rule { request with host := host' } body := by
  cases target with
  | app provider tools => exact h.appTargetMatches provider tools _ _ _ _ _
  | connection => simp only [Gateway.targetMatches, h.appTargetMatches]
  | network | secret => exact h.spelling.targetMatches env request body rule ⟨by simp, by simp⟩
  | unresolved => rfl

/-- Spellings alike have one outcome. -/
theorem SpelledAlike.evaluateOutcome (rules : List NewRule) (request : PolicyRequest) (body : ConditionBody) :
    evaluateOutcome env rules { request with host := host } body =
      evaluateOutcome env rules { request with host := host' } body := by
  have hrule (rule : NewRule) : ruleMatches env { request with host := host } body rule =
      ruleMatches env { request with host := host' } body rule := by
    exact if_congr Iff.rfl (anyM_congr fun target _ => h.targetMatches request body rule target) rfl
  have hfirst (rules : List NewRule) : firstMatch env rules { request with host := host } body =
      firstMatch env rules { request with host := host' } body :=
    findM?_congr fun rule _ => hrule rule
  rw [Gateway.evaluateOutcome, Gateway.evaluateOutcome, hfirst, hfirst]
  rfl

end

end Policy

end Onecli.Gateway
