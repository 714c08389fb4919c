import Onecli.Gateway.Evaluate

/-!
# The pre-check covers everything that reads the body

`needs_body_buffer` of `policy-engine/src/enforce.rs` asks whether a loaded rule could ask for the
body of a request to this host. It looks at the rows themselves and at hosts only. Where it answers no, no target of an assembled rule reads the body: each of
its arms is set against the arm of the matcher that could ask, and the outcome follows rule by
rule. The body may then be anything, also cut short.
-/

namespace Onecli.Gateway

/-- `has_conditions`: the conditions are a nonempty array. -/
def hasConditions (r : PolicyRuleV2Row) : Bool := (r.conditions.bind Json.asArray).any (!·.isEmpty)

/-- Whether a target row could ask for the body. -/
def targetNeedsBody (env : Env) (providers : ConnectionProviders) (conditioned : Bool)
    (t : PolicyTargetRow) (host path : Str) : Bool :=
  if t.kind = "network".toList then conditioned && t.hostPattern.any (hostMatches host)
  else if t.kind = "app".toList ∨ t.kind = "connection".toList then
    (t.appProvider.or (connectionProvider t providers)).any fun provider =>
      anyGraphqlDiscriminatedForHost env provider t.appTools host path ||
        (conditioned && !t.appTools.isEmpty &&
          appTargetCouldMatchHost env provider t.appTools host path)
  else false

/-- `needs_body_buffer`. -/
def needsBodyBuffer (env : Env) (v2 : PolicyV2Rules) (policyHost path : Str) : Bool :=
  let host := stripPort policyHost
  (enforcedRows (v2.org ++ v2.workspace)).any fun r =>
    r.targets.any fun t => targetNeedsBody env v2.connectionProviders (hasConditions r) t host path

end Onecli.Gateway

namespace Onecli.Policy

open Gateway PartialSearch

variable {env : Env}

variable {row : PolicyRuleV2Row}

theorem conditionsMatch_of_not_hasConditions (h : hasConditions row = false) (action : PolicyAction)
    (body : ConditionBody) : conditionsMatch row.conditions action body = true := by
  refine conditionsMatch_of_parse_none ?_ action body
  cases hraw : row.conditions with
  | none => rfl
  | some raw =>
    cases raw with
    | arr items =>
      cases items with
      | nil => rfl
      | cons => simp [hasConditions, hraw, Json.asArray] at h
    | _ => rfl

theorem untagged_of_not_discriminated {provider : Str} {tools : List Str} {host path : Str}
    (hreach : appTargetCouldMatchHost env provider tools host path = true)
    (h : anyGraphqlDiscriminatedForHost env provider tools host path = false)
    {providerTools : ProviderTools} (hprovider : env.catalog.lookup provider = some providerTools)
    {toolId : Str} (htool : toolId ∈ tools) {tool : CatalogTool}
    (hlookup : providerTools.lookup toolId = some tool) : tool.graphqlOps = none := by
  rw [anyGraphqlDiscriminatedForHost, hprovider] at h
  simp only [hreach, Bool.and_true, List.any_eq_false] at h
  simpa [hlookup] using h toolId htool

theorem appTargetMatches_of_unneeded {provider : Str} {tools : List Str} {host path : Str} (method : Str)
    (body body' : ConditionBody) (polarity : PolicyAction)
    (hgraphql : anyGraphqlDiscriminatedForHost env provider tools host path = false)
    (hconditioned : (hasConditions row && !tools.isEmpty && appTargetCouldMatchHost env provider tools host path) = false) :
    appTargetMatches env provider tools host method path body row.conditions polarity =
      appTargetMatches env provider tools host method path body' row.conditions polarity := by
  cases hreach : appTargetCouldMatchHost env provider tools host path with
  | false =>
    cases tools with
    | nil => rfl
    | cons =>
      rw [appTargetMatches_of_host_missed (List.cons_ne_nil _ _) hreach,
        appTargetMatches_of_host_missed (List.cons_ne_nil _ _) hreach]
  | true =>
    refine appTargetMatches_congr (fun providerTools hprovider toolId htool tool hlookup => ?_) fun hne => ?_
    · have huntagged := untagged_of_not_discriminated hreach hgraphql hprovider htool hlookup
      rw [CatalogTool.acceptsOp_of_untagged huntagged, CatalogTool.acceptsOp_of_untagged huntagged]
    · have hscoped : tools.isEmpty = false := by simpa using hne
      have hnone : hasConditions row = false := by simpa [hreach, hscoped] using hconditioned
      rw [conditionsMatch_of_not_hasConditions hnone, conditionsMatch_of_not_hasConditions hnone]

/-- A network target that the pre-check lets pass does not read the body; a missing host
pattern matches no host but the empty one. -/
theorem networkTarget_of_unneeded {t : PolicyTargetRow} {rule : NewRule} {request : PolicyRequest}
    (hrule : rule.conditions = row.conditions) (hhost : request.host ≠ [])
    (h : (hasConditions row && t.hostPattern.any (hostMatches request.host)) = false) (body body' : ConditionBody) :
    targetMatches env (.network (t.hostPattern.getD []) t.pathPattern t.method) rule request body =
      targetMatches env (.network (t.hostPattern.getD []) t.pathPattern t.method) rule request body' := by
  simp only [targetMatches]
  cases hreach : hostMatches request.host (t.hostPattern.getD []) with
  | false => rfl
  | true =>
    have hsome : t.hostPattern.any (hostMatches request.host) = true := by
      cases hpattern : t.hostPattern with
      | some => simpa [hpattern] using hreach
      | none =>
        rw [hpattern] at hreach
        have hempty : request.host = [] := by
          simpa [hostMatches, CodeUnits.splitOnce, eqIgnoreAsciiCase, toAsciiLowercase] using hreach
        exact absurd hempty hhost
    have hnone : hasConditions row = false := by simpa [hsome] using h
    refine if_congr Iff.rfl rfl (matchesRequest_congr ?_ _ _)
    simp only [pseudoRule, hrule]
    rw [conditionsMatch_of_not_hasConditions hnone, conditionsMatch_of_not_hasConditions hnone]

theorem kind_ne : "app".toList ≠ "network".toList ∧ "connection".toList ≠ "network".toList ∧
    "connection".toList ≠ "app".toList ∧ "secret".toList ≠ "network".toList ∧
    "secret".toList ≠ "app".toList ∧ "secret".toList ≠ "connection".toList := by
  decide

/-- A target that needs no body matches alike on any. -/
theorem targetMatches_of_unneeded {t : PolicyTargetRow} {rule : NewRule} {request : PolicyRequest}
    {secretHosts : SecretHosts} {providers : ConnectionProviders} (hshape : KindShape t)
    (hrule : rule.conditions = row.conditions) (hhost : request.host ≠ [])
    (h : targetNeedsBody env providers (hasConditions row) t request.host request.path = false)
    (body body' : ConditionBody) :
    targetMatches env (decodeTarget secretHosts providers t) rule request body =
      targetMatches env (decodeTarget secretHosts providers t) rule request body' := by
  obtain ⟨happ, hconn, hconnApp, hsecret, hsecretApp, hsecretConn⟩ := kind_ne
  obtain ⟨hkind, hprovider, -⟩ | ⟨hkind, hconnection, hprovider, -⟩ | ⟨hkind, -⟩ | ⟨hkind, -⟩ := hshape
  · -- app: the provider stands in the row
    obtain ⟨provider, hsome⟩ := Option.ne_none_iff_exists'.mp hprovider
    simp only [targetNeedsBody, hkind, happ, hsome, true_or, ↓reduceIte, Option.some_or,
      Option.any_some, Bool.or_eq_false_iff] at h
    simp only [decodeTarget, hkind, happ, hsome, ↓reduceIte, targetMatches, hrule]
    exact appTargetMatches_of_unneeded _ body body' _ h.1 h.2
  · -- connection: the provider comes from the same map on both sides
    obtain ⟨id, hid⟩ := Option.ne_none_iff_exists'.mp hconnection
    simp only [decodeTarget, hkind, hconn, hconnApp, hid, ↓reduceIte]
    cases hmap : connectionProvider t providers with
    | none => rfl
    | some =>
      simp only [targetNeedsBody, hkind, hconn, or_true, ↓reduceIte, hprovider, hmap,
        Option.none_or, Option.any_some, Bool.or_eq_false_iff] at h
      simp only [targetMatches, hrule]
      exact if_congr Iff.rfl (appTargetMatches_of_unneeded _ body body' _ h.1 h.2) rfl
  · simp only [decodeTarget, hkind, hsecret, hsecretApp, hsecretConn, ↓reduceIte, targetMatches]
  · simp only [targetNeedsBody, hkind, ↓reduceIte] at h
    simp only [decodeTarget, hkind, ↓reduceIte]
    exact networkTarget_of_unneeded hrule hhost h body body'

/-- A rule set that needs no body for a request decides it the same on every body: missing,
complete or cut short. -/
theorem evaluateOutcome_of_unneeded (env : Env) (v2 : PolicyV2Rules) (request : PolicyRequest)
    (policyHost : Str) (hshape : ∀ row ∈ v2.org ++ v2.workspace, ∀ t ∈ row.targets, KindShape t)
    (hhost : request.host = stripPort policyHost) (hne : stripPort policyHost ≠ [])
    (h : needsBodyBuffer env v2 policyHost request.path = false) (body body' : ConditionBody) :
    evaluateOutcome env v2.rules request body = evaluateOutcome env v2.rules request body' := by
  have hrule : ∀ rule ∈ v2.rules, ruleMatches env request body rule = ruleMatches env request body' rule := by
    intro rule hmem
    obtain ⟨scope, row, hrow, hsource, rfl⟩ := exists_row_of_mem_rules hmem
    refine if_congr Iff.rfl (anyM_congr fun target htarget => ?_) rfl
    obtain ⟨t, ht, rfl⟩ := List.mem_map.mp htarget
    refine targetMatches_of_unneeded (hshape row hrow t ht) rfl (hhost ▸ hne) ?_ body body'
    have henforced : row ∈ enforcedRows (v2.org ++ v2.workspace) := by
      rw [enforcedRows, List.mem_filter, decide_eq_true_eq]
      exact ⟨hrow, hsource⟩
    rw [hhost]
    simpa using List.any_eq_false.mp (by simpa using List.any_eq_false.mp h row henforced) t ht
  have hlevel (scope : Scope) : firstMatch env (explicitRules v2.rules scope) request body =
      firstMatch env (explicitRules v2.rules scope) request body' := by
    refine findM?_congr fun rule hmem => hrule rule ?_
    exact (List.mem_filter.mp ((List.mem_insertionSort RuleLe).mp hmem)).1
  rw [evaluateOutcome, evaluateOutcome, hlevel, hlevel]

section OtherHost

/-- One provider with one query tool on the host `g`. -/
def queryTool : Env :=
  ⟨[("p".toList, [("q".toList, ⟨["g".toList], ["/graphql".toList], ["POST".toList], some "query".toList⟩)])],
    [], fun _ => none⟩

/-- Blocks the query tool, and blocks the host `a` when the body contains `x`. -/
def bodyRules : PolicyV2Rules where
  org := [⟨"r".toList, "r".toList, "r".toList, "custom".toList, 0, false, "block".toList, none, none, false,
    some (.arr [.arr [.str "body".toList, .str "contains".toList, .str "x".toList]]), [],
    [⟨"app".toList, some "p".toList, ["q".toList], none, none, none, none, none, none, none⟩,
      ⟨"network".toList, none, [], none, none, none, none, some "a".toList, none, none⟩]⟩]
  workspace := []
  secretHosts := ⟨[], [], []⟩
  connectionProviders := ⟨[]⟩
  principals := ⟨[], []⟩

/-- A request to the host `b`. -/
def requestToB : PolicyRequest := ⟨"b".toList, "/".toList, "GET".toList, "agent".toList, [], [], true, false, none⟩

/-- A request to another host is decided alike without a body and with one cut short. -/
theorem evaluateOutcome_of_unneeded_other_host :
    evaluateOutcome queryTool bodyRules.rules requestToB .none =
      evaluateOutcome queryTool bodyRules.rules requestToB (.truncated [0x61]) := by
  refine evaluateOutcome_of_unneeded queryTool bodyRules requestToB "b:443".toList ?_ (by decide)
    (by decide) (by decide) .none (.truncated [0x61])
  intro row hrow t ht
  rw [List.mem_singleton.mp hrow] at ht
  rcases List.mem_cons.mp ht with rfl | ht
  · exact .inl ⟨rfl, by decide, rfl, rfl, rfl, rfl⟩
  · rw [List.mem_singleton.mp ht]
    exact .inr (.inr (.inr ⟨rfl, by decide, rfl, rfl, rfl, rfl, rfl⟩))

end OtherHost

end Onecli.Policy
