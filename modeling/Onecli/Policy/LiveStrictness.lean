import Onecli.Policy.TwoLevelLaw

/-!
# The live decision

`evaluate` and `decision_for_rule` of `policy-engine/src/enforce.rs`. The two levels are combined
by the rank of their rules, which reads the rate limit alone, and the winner is executed by
`decision_for_rule`, which needs the limit and its window. A limit whose window has no name keeps
its rank and counts nothing. `percentDecode` is what the crate `percent_encoding` decodes.
-/

namespace Onecli.Policy

open Gateway PartialSearch Option

/-- `PolicyDecision`. -/
inductive PolicyDecision where
  | allow
  | blocked (ruleName : Str)
  | rateLimited (ruleName : Str) (limit : ℕ) (window : Str) (retryAfterSecs : ℕ)
  | manualApproval (ruleId : Str)
  | blockedByDefaultPolicy
  deriving DecidableEq

/-- `MatchedRule`. -/
structure MatchedRule where
  logicalId : Str
  name : Str
  scope : Str
  deriving DecidableEq

/-- What the decision reads of a `ProxyContext`. -/
structure ProxyContext where
  organizationId : Option Str
  workspaceId : Option Str
  agentId : Option Str
  agentToken : Str

/-- The arguments of `evaluate` that describe the request. -/
structure LiveRequest where
  host : Str
  method : Str
  path : Str
  body : ConditionBody
  hasInjections : Bool
  isLlmHost : Bool
  winningConnectionId : Option Str

/-- The clock in seconds, and what the cache answers to `incr` of a key and its time to live. -/
structure Counters where
  now : ℕ
  incr : Str → ℕ → Option ℕ

/-- A decision, and the rate counters that were incremented for it. -/
structure Decided where
  decision : PolicyDecision
  counted : List Str
  deriving DecidableEq

/-- How strict a decision is: block 0, approval 1, counted rate limit 2, allow 3. -/
def Decided.strictness (decided : Decided) : ℕ :=
  match decided.decision with
  | .blocked _ => 0
  | .blockedByDefaultPolicy => 0
  | .manualApproval _ => 1
  | _ => if decided.counted = [] then 3 else 2

/-! ## Requests that return a secret -/

/-- `SecretRead`. -/
structure SecretRead where
  host : Str
  segment : Str
  why : Str

/-- `SECRET_READS`. -/
def secretReads : List SecretRead :=
  [⟨"api.github.com".toList, "secret-scanning".toList,
    "Secret scanning alerts include the leaked secret in clear text".toList⟩]

/-- `secret_read`. -/
def secretRead (percentDecode : List UInt8 → List UInt8) (host path : Str) (hasInjections : Bool) : Option Str :=
  if !hasInjections then none
  else do
    let host := (stripPort host).rdropWhile (· == '.')
    let read ← secretReads.find? fun read => eqIgnoreAsciiCase host read.host
    let segments := (fromUtf8Lossy (percentDecode (asBytes (path.takeWhile (· ≠ '?'))))).splitOnP
      fun c => c == '/' || c == '\\'
    if segments.any (eqIgnoreAsciiCase · read.segment) then some read.why else none

/-! ## The decision -/

/-- The length of a window. -/
def RateWindow.secs : RateWindow → ℕ
  | .minute => 60
  | .hour => 3600
  | .day => 86400

/-- `rate_window_name`. -/
def rateWindowName (windowSecs : ℕ) : Str :=
  if windowSecs = 60 then "minute".toList
  else if windowSecs = 3600 then "hour".toList
  else if windowSecs = 86400 then "day".toList
  else "window".toList

/-- The key of a rate counter. -/
def rateKey (orgId workspaceId ruleId agentToken : Str) (windowId : ℕ) : Str :=
  "rate:".toList ++ orgId ++ ":".toList ++ workspaceId ++ ":".toList ++ ruleId ++ ":".toList ++ agentToken ++
    ":".toList ++ (toString windowId).toList

/-- `check_rate_limit`, with the counter it increments. -/
def checkRateLimit (orgId workspaceId ruleId ruleName : Str) (maxRequests windowSecs : ℕ) (agentToken : Str)
    (cache : Counters) : Option PolicyDecision × Str :=
  let windowId := cache.now / max windowSecs 1
  let key := rateKey orgId workspaceId ruleId agentToken windowId
  (match cache.incr key windowSecs with
    | some count =>
      if maxRequests < count then
        some (.rateLimited ruleName maxRequests (rateWindowName windowSecs)
          ((windowId + 1) * windowSecs - cache.now))
      else none
    | none => none, key)

/-- `decision_for_rule`. -/
def decisionForRule (rule : NewRule) (orgId workspaceId agentToken : Str) (cache : Counters) : Decided :=
  if rule.action = .block then ⟨.blocked rule.name, []⟩
  else if rule.requireApproval then ⟨.manualApproval rule.id, []⟩
  else
    match rule.rateLimit, rule.rateLimitWindow with
    | some limit, some window =>
      let (limited, key) := checkRateLimit orgId workspaceId rule.logicalId rule.name limit
        (RateWindow.secs window) agentToken cache
      ⟨limited.getD .allow, [key]⟩
    | _, _ => ⟨.allow, []⟩

/-- The request that `policy_input` builds. -/
def policyInput (agentId : Str) (req : LiveRequest) (v2 : PolicyV2Rules) : PolicyRequest where
  host := stripPort req.host
  path := req.path
  method := req.method
  agentId := agentId
  userIds := v2.principals.userIds
  groupIds := v2.principals.groupIds
  hasInjections := req.hasInjections
  isLlmHost := req.isLlmHost
  winningConnectionId := req.winningConnectionId

/-- The rule that a decision is put down to. -/
def matchedOf (rule : NewRule) : MatchedRule where
  logicalId := rule.logicalId
  name := rule.name
  scope := match rule.scope with
    | .organization => "organization".toList
    | .workspace => "workspace".toList

/-- The request returns a secret. -/
def LiveRequest.returnsSecret (percentDecode : List UInt8 → List UInt8) (req : LiveRequest) : Bool :=
  (secretRead percentDecode req.host req.path req.hasInjections).isSome

/-- Who a request is of: `none` where a part of the identity was not resolved. -/
def ProxyContext.identity (ctx : ProxyContext) : Option (Str × Str × Str) :=
  match ctx.organizationId, ctx.workspaceId, ctx.agentId with
  | some orgId, some workspaceId, some agentId => some (orgId, workspaceId, agentId)
  | _, _, _ => none

/-- A request that is held for the secret it returns. -/
def heldForSecret : Decided × Option MatchedRule := (⟨.manualApproval [], []⟩, none)

/-- How `evaluate` executes an outcome. -/
def execute (orgId workspaceId agentToken : Str) (cache : Counters) (returnsSecret : Bool) (outcome : Outcome) :
    Decided × Option MatchedRule :=
  match outcome with
  | .rule rule =>
    if returnsSecret ∧ rule.action = .allow ∧ rule.requireApproval = false then heldForSecret
    else (decisionForRule rule orgId workspaceId agentToken cache, some (matchedOf rule))
  | .denyDefault default => (⟨.blockedByDefaultPolicy, []⟩, default.map matchedOf)
  | .allow => if returnsSecret then heldForSecret else (⟨.allow, []⟩, none)

/-- `evaluate`; `none` is a panic of the path matcher. -/
def evaluate (percentDecode : List UInt8 → List UInt8) (env : Env) (ctx : ProxyContext) (req : LiveRequest)
    (cache : Counters) (v2 : PolicyV2Rules) : Option (Decided × Option MatchedRule) :=
  match ctx.identity with
  | none => some (⟨.allow, []⟩, none)
  | some (orgId, workspaceId, agentId) =>
    (evaluateOutcome env v2.rules (policyInput agentId req v2) req.body).map
      (execute orgId workspaceId ctx.agentToken cache (req.returnsSecret percentDecode))

/-! ## Two readings of a rule -/

/-- A rule that allows without asking and has a rate limit. -/
def Limited (rule : NewRule) : Prop := rule.action = .allow ∧ rule.requireApproval = false ∧ rule.rateLimit ≠ none

/-- The class that `decision_for_rule` reads off a rule. -/
def ruleClass (rule : NewRule) : ℕ :=
  if rule.action = .block then 0
  else if rule.requireApproval then 1
  else if rule.rateLimit.isSome && rule.rateLimitWindow.isSome then 2
  else 3

/-- The class of an outcome. -/
def outcomeClass : Outcome → ℕ
  | .rule rule => ruleClass rule
  | .denyDefault _ => 0
  | .allow => 3

/-- The live decision for a rule is as strict as the rule's class. -/
theorem strictness_decisionForRule (rule : NewRule) (orgId space agentToken : Str) (cache : Counters) :
    (decisionForRule rule orgId space agentToken cache).strictness = ruleClass rule := by
  unfold decisionForRule ruleClass
  split_ifs with hblock hask hboth
  · rfl
  · rfl
  · rw [Bool.and_eq_true, isSome_iff_exists, isSome_iff_exists] at hboth
    obtain ⟨⟨limit, hlimit⟩, window, hwindow⟩ := hboth
    rw [hlimit, hwindow]
    simp only [checkRateLimit]
    split
    · split <;> rfl
    · rfl
  · split
    · next limit window hlimit hwindow => simp [hlimit, hwindow] at hboth
    · rfl

theorem strictnessRank_eq_two_iff (rule : NewRule) : strictnessRank rule = 2 ↔ Limited rule := by
  obtain ⟨id, logicalId, name, scope, priority, isDefault, identities, targets, action, requireApproval,
    rateLimit, rateLimitWindow, conds⟩ := rule
  cases action <;> cases requireApproval <;> cases rateLimit <;> simp [strictnessRank, Limited]

/-- A class is the rank, but for a limit without a window. -/
theorem ruleClass_cases (rule : NewRule) :
    (ruleClass rule = strictnessRank rule ∧ (Limited rule → rule.rateLimitWindow ≠ none)) ∨
      (strictnessRank rule = 2 ∧ ruleClass rule = 3 ∧ rule.rateLimitWindow = none) := by
  obtain ⟨id, logicalId, name, scope, priority, isDefault, identities, targets, action, requireApproval,
    rateLimit, rateLimitWindow, conds⟩ := rule
  cases action <;> cases requireApproval <;> cases rateLimit <;> cases rateLimitWindow <;>
    simp [ruleClass, strictnessRank, Limited]

/-- The organization's rule has a limit that counts nothing, and the workspace's has one that counts. -/
def Idle (org workspace : NewRule) : Prop :=
  Limited org ∧ org.rateLimitWindow = none ∧ Limited workspace ∧ workspace.rateLimitWindow ≠ none

/-- When a limit runs idle. -/
theorem idle_iff (o p : NewRule) : Idle o p ↔
    strictnessRank o = 2 ∧ strictnessRank p = 2 ∧ ruleClass o = 3 ∧ ruleClass p = 2 := by
  have ho := ruleClass_cases o
  have hp := ruleClass_cases p
  rw [Idle, ← strictnessRank_eq_two_iff, ← strictnessRank_eq_two_iff]
  rw [← strictnessRank_eq_two_iff] at ho hp
  constructor
  · rintro ⟨hrank, hnone, hrank', hsome⟩
    rcases ho with ⟨-, hwindow⟩ | ⟨-, hclass, -⟩
    · exact absurd hnone (hwindow hrank)
    · rcases hp with ⟨hclass', -⟩ | ⟨-, -, hwindow⟩
      · exact ⟨hrank, hrank', hclass, hclass'.trans hrank'⟩
      · exact absurd hwindow hsome
  · rintro ⟨hrank, hrank', hclass, hclass'⟩
    rcases ho with ⟨hsame, -⟩ | ⟨-, -, hnone⟩
    · omega
    · rcases hp with ⟨-, hwindow⟩ | ⟨-, hclass'', -⟩
      · exact ⟨hrank, hnone, hrank', hwindow hrank'⟩
      · omega

theorem ruleClass_winner_iff (o p : NewRule) :
    (ruleClass (if strictnessRank p < strictnessRank o then p else o) ≤ ruleClass o ∧
        ruleClass (if strictnessRank p < strictnessRank o then p else o) ≤ ruleClass p) ↔ ¬ Idle o p := by
  rw [idle_iff]
  have ho := ruleClass_cases o
  have hp := ruleClass_cases p
  split_ifs <;> omega

/-! ## The combined outcome -/

section Combined

variable (rules : List NewRule) (request : PolicyRequest)

/-- A lone match of the organization is never loosened. -/
theorem outcomeClass_combine_left (o : NewRule) :
    outcomeClass (combine rules request (some o) none) ≤ ruleClass o := by
  rw [combine_eq]
  rcases verdictOf_none rules request .workspace with ⟨-, d, hdeny⟩ | ⟨-, hsilent⟩
  · rw [hdeny, verdictOf, prefer_rule_deny]
    split_ifs
    · exact Nat.zero_le _
    · exact le_rfl
  · rw [hsilent, verdictOf, prefer_rule_silent]
    exact le_rfl

/-- A lone match of the workspace is never loosened. -/
theorem outcomeClass_combine_right (p : NewRule) :
    outcomeClass (combine rules request none (some p)) ≤ ruleClass p := by
  rw [combine_eq]
  rcases verdictOf_none rules request .organization with ⟨-, d, hdeny⟩ | ⟨-, hsilent⟩
  · rw [hdeny, verdictOf, prefer_deny_rule]
    split_ifs
    · exact Nat.zero_le _
    · exact le_rfl
  · rw [hsilent, verdictOf, prefer_silent_rule]
    exact le_rfl

theorem combine_both (o p : NewRule) : combine rules request (some o) (some p) =
    .rule (if strictnessRank p < strictnessRank o then p else o) := by
  rfl

end Combined

theorem one_lt_ruleClass_iff (rule : NewRule) :
    1 < ruleClass rule ↔ rule.action = .allow ∧ rule.requireApproval = false := by
  unfold ruleClass
  cases haction : rule.action with
  | block => simp
  | allow =>
    cases hask : rule.requireApproval with
    | true => simp
    | false =>
      simp only [reduceCtorEq, Bool.false_eq_true, if_false, and_self, iff_true]
      split_ifs <;> omega

theorem strictness_execute (orgId space agentToken : Str) (cache : Counters) (returnsSecret : Bool)
    (outcome : Outcome) :
    (execute orgId space agentToken cache returnsSecret outcome).1.strictness =
      if returnsSecret then min 1 (outcomeClass outcome) else outcomeClass outcome := by
  cases outcome with
  | rule rule =>
    have hclass := one_lt_ruleClass_iff rule
    cases returnsSecret with
    | false =>
      exact strictness_decisionForRule ..
    | true =>
      by_cases hheld : rule.action = .allow ∧ rule.requireApproval = false
      · rw [execute, if_pos ⟨rfl, hheld⟩]
        exact (min_eq_left (hclass.mpr hheld).le).symm
      · rw [execute, if_neg (by simpa using hheld)]
        rw [← hclass, not_lt] at hheld
        exact (strictness_decisionForRule ..).trans (min_eq_right hheld).symm
  | _ => cases returnsSecret <;> rfl

/-! ## Live strictness -/

variable (percentDecode : List UInt8 → List UInt8) (env : Env) (ctx : ProxyContext) (req : LiveRequest) (cache : Counters)
  (v2 : PolicyV2Rules)

/-- The winning rule of a level: its least match in the order of priority and id. -/
def LevelWinner (agentId : Str) (scope : Scope) (rule : NewRule) : Prop :=
  LeastHit RuleLe (ruleMatches env (policyInput agentId req v2) req.body) (explicitRules v2.rules scope) rule

/-- The decision is at least as strict as what either level's winning rule would give alone. -/
def LiveStrict : Prop :=
  ∀ orgId workspaceId agentId, ctx.identity = some (orgId, workspaceId, agentId) →
    ∀ decided matched, evaluate percentDecode env ctx req cache v2 = some (decided, matched) →
      ∀ scope rule, LevelWinner env req v2 agentId scope rule →
        decided.strictness ≤ (decisionForRule rule orgId workspaceId ctx.agentToken cache).strictness

/-- The request is not held for a secret, and an idle limit of the organization meets a limit of
the workspace that counts. -/
def IdleWins : Prop :=
  ∃ orgId workspaceId agentId, ctx.identity = some (orgId, workspaceId, agentId) ∧
    req.returnsSecret percentDecode = false ∧ ∃ org workspace, LevelWinner env req v2 agentId .organization org ∧
      LevelWinner env req v2 agentId .workspace workspace ∧ Idle org workspace

variable {percentDecode env ctx req cache v2}

/-- A level's winner is the first of its rules that matches. -/
theorem levelWinner_iff {agentId : Str} {scope : Scope} {rule : NewRule} :
    LevelWinner env req v2 agentId scope rule ↔
      firstMatch env (explicitRules v2.rules scope) (policyInput agentId req v2) req.body = some (some rule) :=
  (firstMatch_eq_some_iff env _ _ _ rule).symm

/-- How strict the live decision is, by the winners of both levels. -/
theorem strictness_evaluate {orgId space agentId : Str}
    (hids : ctx.identity = some (orgId, space, agentId)) {decided : Decided} {matched : Option MatchedRule}
    (h : evaluate percentDecode env ctx req cache v2 = some (decided, matched)) :
    ∃ o p, firstMatch env (explicitRules v2.rules .organization) (policyInput agentId req v2) req.body = some o ∧
      firstMatch env (explicitRules v2.rules .workspace) (policyInput agentId req v2) req.body = some p ∧
      decided.strictness = if req.returnsSecret percentDecode then
          min 1 (outcomeClass (combine v2.rules (policyInput agentId req v2) o p))
        else outcomeClass (combine v2.rules (policyInput agentId req v2) o p) := by
  simp only [evaluate, hids] at h
  obtain ⟨outcome, hout, hexec⟩ := map_eq_some_iff.mp h
  obtain ⟨o, p, ho, hp, rfl⟩ := (evaluateOutcome_eq_some_iff env v2.rules _ _ outcome).mp hout
  refine ⟨o, p, ho, hp, ?_⟩
  rw [← strictness_execute orgId space ctx.agentToken cache]
  exact congrArg (fun result => result.1.strictness) hexec.symm

/-- Neither level is loosened exactly where neither is idle. -/
theorem outcomeClass_both_iff (rules : List NewRule) (request : PolicyRequest) (o p : NewRule) :
    (outcomeClass (combine rules request (some o) (some p)) ≤ ruleClass o ∧
        outcomeClass (combine rules request (some o) (some p)) ≤ ruleClass p) ↔ ¬ Idle o p := by
  exact ruleClass_winner_iff o p

/-- A block at either level blocks. -/
theorem outcomeClass_eq_zero (rules : List NewRule) (request : PolicyRequest) {o p rule : NewRule}
    (hrule : rule = o ∨ rule = p) (h : ruleClass rule = 0) :
    outcomeClass (combine rules request (some o) (some p)) = 0 := by
  rw [combine_both]
  have ho := ruleClass_cases o
  have hp := ruleClass_cases p
  show ruleClass (if strictnessRank p < strictnessRank o then p else o) = 0
  rcases hrule with rfl | rfl <;> split_ifs <;> omega

/-- The live decision is at least as strict as each level's winning rule alone, exactly when no idle
limit of the organization wins against a limit of the workspace that counts. -/
theorem live_strict_iff (percentDecode : List UInt8 → List UInt8) (env : Env) (ctx : ProxyContext) (req : LiveRequest)
    (cache : Counters) (v2 : PolicyV2Rules) :
    LiveStrict percentDecode env ctx req cache v2 ↔ ¬ IdleWins percentDecode env ctx req v2 := by
  constructor
  · rintro hstrict ⟨orgId, workspaceId, agentId, hids, hsecret, o, p, ho, hp, hidle⟩
    rw [levelWinner_iff] at ho hp
    obtain ⟨⟨decided, matched⟩, heval⟩ : ∃ result, evaluate percentDecode env ctx req cache v2 = some result := by
      simp only [evaluate, hids]
      rw [(evaluateOutcome_eq_some_iff env v2.rules _ _ _).mpr ⟨_, _, ho, hp, rfl⟩]
      exact ⟨_, rfl⟩
    obtain ⟨o', p', ho', hp', hclass⟩ := strictness_evaluate hids heval
    obtain rfl : some o = o' := some.inj (ho.symm.trans ho')
    obtain rfl : some p = p' := some.inj (hp.symm.trans hp')
    rw [hsecret, if_neg (by simp)] at hclass
    have horg := hstrict orgId workspaceId agentId hids decided matched heval .organization o
      (levelWinner_iff.mpr ho)
    have hworkspace := hstrict orgId workspaceId agentId hids decided matched heval .workspace p
      (levelWinner_iff.mpr hp)
    rw [strictness_decisionForRule, hclass] at horg hworkspace
    exact (outcomeClass_both_iff v2.rules _ o p).mp ⟨horg, hworkspace⟩ hidle
  · intro hidle orgId workspaceId agentId hids decided matched heval scope rule hrule
    obtain ⟨o, p, ho, hp, hclass⟩ := strictness_evaluate hids heval
    rw [levelWinner_iff] at hrule
    have hfound : (scope = .organization ∧ o = some rule) ∨ (scope = .workspace ∧ p = some rule) := by
      cases scope with
      | organization => exact .inl ⟨rfl, some.inj (ho.symm.trans hrule)⟩
      | workspace => exact .inr ⟨rfl, some.inj (hp.symm.trans hrule)⟩
    rw [strictness_decisionForRule, hclass]
    cases o with
    | none =>
      obtain ⟨-, rfl⟩ := hfound.resolve_left (by simp)
      have hle := outcomeClass_combine_right v2.rules (policyInput agentId req v2) rule
      split_ifs <;> omega
    | some o =>
      cases p with
      | none =>
        obtain ⟨-, heq⟩ := hfound.resolve_right (by simp)
        obtain rfl : o = rule := some.inj heq
        have hle := outcomeClass_combine_left v2.rules (policyInput agentId req v2) o
        split_ifs <;> omega
      | some p =>
        have hmem : rule = o ∨ rule = p := by
          rcases hfound with ⟨-, heq⟩ | ⟨-, heq⟩
          · exact .inl (some.inj heq).symm
          · exact .inr (some.inj heq).symm
        cases hsecret : req.returnsSecret percentDecode with
        | true =>
          have hblock := outcomeClass_eq_zero v2.rules (policyInput agentId req v2) hmem
          rw [if_pos rfl]
          omega
        | false =>
          have hboth := (outcomeClass_both_iff v2.rules (policyInput agentId req v2) o p).mpr
            fun h => hidle ⟨orgId, workspaceId, agentId, hids, hsecret, o, p, levelWinner_iff.mpr ho,
              levelWinner_iff.mpr hp, h⟩
          rcases hmem with rfl | rfl
          · exact hboth.1
          · exact hboth.2

/-! ## A window without a name -/

/-- A rate limit on every path of one host. -/
def limitRow (id window : Str) : PolicyRuleV2Row where
  id := id
  logicalId := id
  name := id
  source := "custom".toList
  priority := 0
  isDefault := false
  action := "allow".toList
  rateLimit := some 5
  rateLimitWindow := some window
  requireApproval := false
  conditions := none
  identities := []
  targets := [⟨"network".toList, none, [], none, none, none, none, some "api.acme.test".toList, none, none⟩]

/-- The organization limits by the week, which no window is named, and the workspace by the hour. -/
def weekAndHour : PolicyV2Rules where
  org := [limitRow "org".toList "week".toList]
  workspace := [limitRow "ws".toList "hour".toList]
  secretHosts := ⟨[], [], []⟩
  connectionProviders := ⟨[]⟩
  principals := ⟨[], []⟩

/-- A request to that host. -/
def plainRequest : LiveRequest where
  host := "api.acme.test".toList
  method := "GET".toList
  path := "/v1/items".toList
  body := .none
  hasInjections := true
  isLlmHost := false
  winningConnectionId := none

/-- A resolved agent. -/
def agentContext : ProxyContext := ⟨some "o".toList, some "w".toList, some "a".toList, "t".toList⟩

/-- The organization's limit wins the tie, and the request passes without being counted. -/
theorem live_strict_fails_on_a_week :
    ¬ LiveStrict id Env.empty agentContext plainRequest ⟨0, fun _ _ => some 9⟩ weekAndHour := by
  intro h
  have hle := h "o".toList "w".toList "a".toList rfl ⟨.allow, []⟩
    (some ⟨"org".toList, "org".toList, "organization".toList⟩) (by decide +kernel) .workspace
    (decodeRow .workspace ⟨[], [], []⟩ ⟨[]⟩ (limitRow "ws".toList "hour".toList))
    ⟨[], [], rfl, by decide +kernel, by simp⟩
  exact absurd hle (by decide +kernel)

end Onecli.Policy
