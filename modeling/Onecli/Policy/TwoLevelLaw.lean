import Onecli.Gateway.Evaluate

/-!
# What a level decides

The declarative reading of one policy level: its verdict is its least matching explicit rule,
else its Default Rule when that one denies the request, else nothing. Verdicts and outcomes
have a strictness rank, and the verdict is what the search of the level computes.
-/

namespace Onecli.Policy

open Gateway PartialSearch

/-- What one level says about a request. -/
inductive Verdict where
  | rule (r : NewRule)
  | deny (d : NewRule)
  | silent

/-- The rank of a verdict: a denial is as strict as a block, silence as loose as an allow. -/
def Verdict.rank : Verdict → ℕ
  | .rule r => strictnessRank r
  | .deny _ => 0
  | .silent => 3

/-- The rank of an outcome. -/
def outcomeRank : Outcome → ℕ
  | .rule r => strictnessRank r
  | .denyDefault _ => 0
  | .allow => 3

/-- A Default Rule of the level that denies the request. -/
def Denies (rules : List NewRule) (request : PolicyRequest) (scope : Scope) (d : NewRule) : Prop :=
  d ∈ rules ∧ d.isDefault = true ∧ d.scope = scope ∧ d.action = .block ∧ request.enforceDeny = true

/-- `v` is the verdict of a level: nothing that comes before the deciding rule matches, and a
default speaks only where no explicit rule matches. -/
def IsVerdict (env : Env) (rules : List NewRule) (request : PolicyRequest) (body : ConditionBody)
    (scope : Scope) : Verdict → Prop
  | .rule r => LeastHit RuleLe (ruleMatches env request body) (explicitRules rules scope) r
  | .deny d => NoHit (ruleMatches env request body) (explicitRules rules scope) ∧ Denies rules request scope d
  | .silent => NoHit (ruleMatches env request body) (explicitRules rules scope) ∧ ∀ d, ¬ Denies rules request scope d

/-- A level has at most one Default Rule. -/
def OneDefault (rules : List NewRule) : Prop :=
  ∀ scope, (rules.filter fun r => r.isDefault && r.scope == scope).length ≤ 1

/-- The verdict that follows from the match of a level. -/
def verdictOf (rules : List NewRule) (request : PolicyRequest) (scope : Scope) :
    Option NewRule → Verdict
  | some r => .rule r
  | none =>
    match defaultRule rules scope with
    | some d => if d.action = .block ∧ request.enforceDeny = true then .deny d else .silent
    | none => .silent

variable {env : Env} {rules : List NewRule} {request : PolicyRequest} {body : ConditionBody}

/-- When the default denies. -/
theorem denies_iff (hone : OneDefault rules) (scope : Scope) (d : NewRule) :
    Denies rules request scope d ↔
      defaultRule rules scope = some d ∧ d.action = .block ∧ request.enforceDeny = true := by
  have hmem : (d ∈ rules ∧ d.isDefault = true ∧ d.scope = scope) ↔ defaultRule rules scope = some d := by
    have hfilter : d ∈ rules.filter (fun r => r.isDefault && r.scope == scope) ↔
        d ∈ rules ∧ d.isDefault = true ∧ d.scope = scope := by simp
    rw [← hfilter, defaultRule, ← List.head?_filter]
    have hlen := hone scope
    generalize rules.filter (fun r => r.isDefault && r.scope == scope) = defaults at hlen ⊢
    match defaults with
    | [] => simp
    | [x] => simp [eq_comm]
    | _ :: _ :: _ => simp at hlen
  rw [Denies]
  tauto

/-- A verdict is the first matching rule of its level, or its default. -/
theorem isVerdict_iff (hone : OneDefault rules) (scope : Scope) (v : Verdict) :
    IsVerdict env rules request body scope v ↔
      ∃ found, firstMatch env (explicitRules rules scope) request body = some found ∧
        v = verdictOf rules request scope found := by
  constructor
  · intro hv
    cases v with
    | rule r => exact ⟨some r, (firstMatch_eq_some_iff env _ request body r).mpr hv, rfl⟩
    | deny d =>
      obtain ⟨hno, hdeny⟩ := hv
      obtain ⟨hdef, hblock⟩ := (denies_iff hone scope d).mp hdeny
      refine ⟨none, (firstMatch_eq_none_iff env _ request body).mpr hno, ?_⟩
      simp only [verdictOf, hdef]
      rw [if_pos hblock]
    | silent =>
      obtain ⟨hno, hquiet⟩ := hv
      refine ⟨none, (firstMatch_eq_none_iff env _ request body).mpr hno, ?_⟩
      rw [verdictOf]
      cases hdef : defaultRule rules scope with
      | none => rfl
      | some d => exact (if_neg fun hblock => hquiet d ((denies_iff hone scope d).mpr ⟨hdef, hblock⟩)).symm
  · rintro ⟨found, hfound, rfl⟩
    cases found with
    | some r => exact (firstMatch_eq_some_iff env _ request body r).mp hfound
    | none =>
      have hno := (firstMatch_eq_none_iff env _ request body).mp hfound
      rw [verdictOf]
      cases hdef : defaultRule rules scope with
      | none =>
        refine ⟨hno, fun d hdeny => ?_⟩
        rw [denies_iff hone, hdef] at hdeny
        cases hdeny.1
      | some d =>
        by_cases hblock : d.action = .block ∧ request.enforceDeny = true
        · simp only [hblock, and_self, ↓reduceIte]
          exact ⟨hno, (denies_iff hone scope d).mpr ⟨hdef, hblock⟩⟩
        · simp only [hblock, ↓reduceIte]
          refine ⟨hno, fun d' hdeny => ?_⟩
          obtain ⟨hd', hblock'⟩ := (denies_iff hone scope d').mp hdeny
          rw [hdef] at hd'
          cases hd'
          exact hblock hblock'

theorem Verdict.rank_le (v : Verdict) : v.rank ≤ 3 := by
  cases v with
  | rule r => exact strictnessRank_le r
  | deny => exact Nat.zero_le 3
  | silent => exact Nat.le_refl 3

/-! ## The two-level law

The outcome of `evaluate_outcome` is the stricter of the two level verdicts. Between verdicts
of one rank an explicit rule goes before a denial by default, and then the organization before
the workspace; a denial names the organization's Default Rule whenever that one denies too. So
neither level loosens what the other decides alone.
-/

open List

/-- What two verdicts are compared by: the rank, and an explicit rule before a default. -/
def Verdict.key (v : Verdict) : ℕ ×ₗ ℕ :=
  match v with
  | .rule r => toLex (strictnessRank r, 0)
  | .deny _ => toLex (0, 1)
  | .silent => toLex (3, 1)

/-- The verdict that wins, the organization's on a tie. -/
def prefer (org workspace : Verdict) : Verdict := if workspace.key < org.key then workspace else org

/-- The Default Rule that a denial is put down to. -/
def deniedBy (rules : List NewRule) (request : PolicyRequest) : Option NewRule :=
  if defaultBlocks (defaultRule rules .organization) request then defaultRule rules .organization
  else defaultRule rules .workspace

/-- The outcome that a winning verdict means. -/
def Verdict.outcome (rules : List NewRule) (request : PolicyRequest) : Verdict → Outcome
  | .rule r => .rule r
  | .deny _ => .denyDefault (deniedBy rules request)
  | .silent => .allow

variable {env : Env} {rules : List NewRule} {request : PolicyRequest} {body : ConditionBody}

/-- An outcome ranks as the verdict that it comes from. -/
theorem outcomeRank_outcome (v : Verdict) : outcomeRank (v.outcome rules request) = v.rank := by
  cases v <;> rfl

theorem key_fst (v : Verdict) : (ofLex v.key).1 = v.rank := by
  cases v <;> rfl

/-- The verdict of the lower rank is preferred. -/
theorem rank_prefer (org workspace : Verdict) :
    (prefer org workspace).rank = min org.rank workspace.rank := by
  rw [prefer]
  split
  · next h =>
    rcases Prod.Lex.lt_iff.mp h with hlt | ⟨heq, -⟩
    · rw [key_fst, key_fst] at hlt
      omega
    · rw [key_fst, key_fst] at heq
      omega
  · next h =>
    have hnot : ¬ workspace.rank < org.rank := by
      intro hlt
      refine h (Prod.Lex.lt_iff.mpr (.inl ?_))
      rw [key_fst, key_fst]
      exact hlt
    omega

section Winners

theorem prefer_rule_rule (o p : NewRule) : prefer (.rule o) (.rule p) =
    .rule (if strictnessRank p < strictnessRank o then p else o) := by
  simp only [prefer, Verdict.key, Prod.Lex.toLex_lt_toLex, lt_irrefl, and_false, or_false]
  split <;> rfl

theorem prefer_rule_deny (o d : NewRule) : prefer (.rule o) (.deny d) =
    if o.action = .allow then .deny d else .rule o := by
  have hrank := strictnessRank_eq_zero_iff o
  cases haction : o.action with
  | allow =>
    have hpos : 0 < strictnessRank o := Nat.pos_of_ne_zero fun h => by simp [hrank.mp h] at haction
    simp [prefer, Verdict.key, Prod.Lex.toLex_lt_toLex, hpos]
  | block => simp [prefer, Verdict.key, Prod.Lex.toLex_lt_toLex, hrank.mpr haction]

theorem prefer_rule_silent (o : NewRule) : prefer (.rule o) .silent = .rule o := by
  have hle := strictnessRank_le o
  rw [prefer, if_neg]
  simp only [Verdict.key, Prod.Lex.toLex_lt_toLex]
  omega

theorem prefer_deny_rule (d p : NewRule) : prefer (.deny d) (.rule p) =
    if p.action = .allow then .deny d else .rule p := by
  have hrank := strictnessRank_eq_zero_iff p
  cases haction : p.action with
  | allow =>
    have hne : strictnessRank p ≠ 0 := fun h => by simp [hrank.mp h] at haction
    simp [prefer, Verdict.key, Prod.Lex.toLex_lt_toLex, hne]
  | block => simp [prefer, Verdict.key, Prod.Lex.toLex_lt_toLex, hrank.mpr haction]

theorem prefer_silent_rule (p : NewRule) : prefer .silent (.rule p) = .rule p := by
  have hle := strictnessRank_le p
  rw [prefer, if_pos]
  simp only [Verdict.key, Prod.Lex.toLex_lt_toLex]
  omega

end Winners

/-- Without a match the default decides, or nothing. -/
theorem verdictOf_none (rules : List NewRule) (request : PolicyRequest) (scope : Scope) :
    (defaultBlocks (defaultRule rules scope) request = true ∧ ∃ d, verdictOf rules request scope none = .deny d) ∨
      (defaultBlocks (defaultRule rules scope) request = false ∧ verdictOf rules request scope none = .silent) := by
  rw [verdictOf]
  cases defaultRule rules scope with
  | none => exact .inr ⟨rfl, rfl⟩
  | some d =>
    by_cases hblock : d.action = .block ∧ request.enforceDeny = true
    · exact .inl ⟨by simp [defaultBlocks, hblock], d, if_pos hblock⟩
    · exact .inr ⟨by simpa [defaultBlocks] using hblock, if_neg hblock⟩

/-- Where a Default Rule denies and no match survives, the denial is put down to `deniedBy`. -/
theorem unmatched_eq_denied {rules : List NewRule} {request : PolicyRequest}
    (h : defaultBlocks (defaultRule rules .organization) request = true ∨
      defaultBlocks (defaultRule rules .workspace) request = true) :
    (if defaultBlocks (defaultRule rules .organization) request then
        Outcome.denyDefault (defaultRule rules .organization)
      else if defaultBlocks (defaultRule rules .workspace) request then
        .denyDefault (defaultRule rules .workspace)
      else .allow) = .denyDefault (deniedBy rules request) := by
  rw [deniedBy]
  cases horg : defaultBlocks (defaultRule rules .organization) request with
  | true => rfl
  | false =>
    rw [horg] at h
    simp [h.resolve_left (by simp)]

/-- `combine` is the preferred of both levels' verdicts. -/
theorem combine_eq (orgMatch workspaceMatch : Option NewRule) :
    combine rules request orgMatch workspaceMatch =
      (prefer (verdictOf rules request .organization orgMatch)
        (verdictOf rules request .workspace workspaceMatch)).outcome rules request := by
  have horg := verdictOf_none rules request .organization
  have hspace := verdictOf_none rules request .workspace
  unfold combine
  cases orgMatch with
  | some o =>
    cases workspaceMatch with
    | some =>
      simp only [verdictOf, prefer_rule_rule]
      rfl
    | none =>
      rcases hspace with ⟨hblocks, d, hdeny⟩ | ⟨hblocks, hsilent⟩
      · have hd := unmatched_eq_denied (.inr hblocks)
        rw [hdeny, verdictOf, prefer_rule_deny]
        simp only [bestMatch, hblocks, and_true] at hd ⊢
        cases o.action with
        | allow => exact hd
        | block => rfl
      · rw [hsilent, verdictOf, prefer_rule_silent]
        simp only [bestMatch, hblocks, Bool.false_eq_true, and_false, ↓reduceIte]
        rfl
  | none =>
    cases workspaceMatch with
    | some p =>
      rcases horg with ⟨hblocks, d, hdeny⟩ | ⟨hblocks, hsilent⟩
      · have hd := unmatched_eq_denied (.inl hblocks)
        rw [hdeny, verdictOf, prefer_deny_rule]
        simp only [bestMatch, hblocks, and_true] at hd ⊢
        cases p.action with
        | allow => exact hd
        | block => rfl
      · rw [hsilent, verdictOf, prefer_silent_rule]
        simp only [bestMatch, hblocks, Bool.false_eq_true, and_false, ↓reduceIte]
        rfl
    | none =>
      rcases horg with ⟨hblocks, d, hdeny⟩ | ⟨hblocks, hsilent⟩ <;>
        rcases hspace with ⟨hblocks', d', hdeny'⟩ | ⟨hblocks', hsilent'⟩
      · rw [hdeny, hdeny']
        exact unmatched_eq_denied (.inl hblocks)
      · rw [hdeny, hsilent']
        exact unmatched_eq_denied (.inl hblocks)
      · rw [hsilent, hdeny']
        exact unmatched_eq_denied (.inr hblocks')
      · rw [hsilent, hsilent']
        simp only [bestMatch, hblocks, hblocks', Bool.false_eq_true, ↓reduceIte]
        rfl

/-- The outcome is the preferred of both levels' verdicts. -/
theorem evaluateOutcome_eq_iff (hone : OneDefault rules) (out : Outcome) :
    evaluateOutcome env rules request body = some out ↔
      ∃ org workspace, IsVerdict env rules request body .organization org ∧
        IsVerdict env rules request body .workspace workspace ∧
        out = (prefer org workspace).outcome rules request := by
  rw [evaluateOutcome_eq_some_iff]
  simp only [isVerdict_iff hone, combine_eq]
  constructor
  · rintro ⟨o, p, ho, hp, rfl⟩
    exact ⟨_, _, ⟨o, ho, rfl⟩, ⟨p, hp, rfl⟩, rfl⟩
  · rintro ⟨_, _, ⟨o, ho, rfl⟩, ⟨p, hp, rfl⟩, rfl⟩
    exact ⟨o, p, ho, hp, rfl⟩

section OneLevel

/-- The rules of one level alone. -/
def levelRules (rules : List NewRule) (scope : Scope) : List NewRule := rules.filter fun r => r.scope == scope

theorem explicitRules_levelRules (rules : List NewRule) (scope : Scope) :
    explicitRules (levelRules rules scope) scope = explicitRules rules scope := by
  simp only [explicitRules, levelRules, filter_filter]
  refine filter_congr fun r _ => ?_
  cases r.isDefault <;> cases r.scope == scope <;> rfl

theorem levelRules_other {scope other : Scope} (hne : other ≠ scope) (rules : List NewRule) :
    explicitRules (levelRules rules scope) other = [] ∧ defaultRule (levelRules rules scope) other = none := by
  have hscope : ∀ r ∈ levelRules rules scope, (r.scope == other) = false := by
    intro r hr
    rw [levelRules, mem_filter, beq_iff_eq] at hr
    rw [hr.2, beq_eq_false_iff_ne]
    exact hne.symm
  constructor
  · rw [explicitRules, filter_eq_nil_iff]
    intro r hr
    simp [hscope r hr]
  · rw [defaultRule, find?_eq_none]
    intro r hr
    simp [hscope r hr]

theorem defaultRule_levelRules (rules : List NewRule) (scope : Scope) :
    defaultRule (levelRules rules scope) scope = defaultRule rules scope := by
  rw [defaultRule, levelRules, find?_filter]
  congr 1
  funext r
  cases r.isDefault <;> cases r.scope == scope <;> rfl

/-- The rules of one level alone answer with its verdict. -/
theorem evaluateOutcome_levelRules {scope : Scope} {found : Option NewRule}
    (hfound : firstMatch env (explicitRules rules scope) request body = some found) :
    ∃ out, evaluateOutcome env (levelRules rules scope) request body = some out ∧
      outcomeRank out = (verdictOf rules request scope found).rank := by
  have hnone : firstMatch env [] request body = some none := rfl
  have hself : verdictOf (levelRules rules scope) request scope found = verdictOf rules request scope found := by
    cases found with
    | some => rfl
    | none => rw [verdictOf, verdictOf, defaultRule_levelRules]
  have hsilent {other : Scope} (hne : other ≠ scope) :
      verdictOf (levelRules rules scope) request other none = .silent := by
    rw [verdictOf, (levelRules_other hne rules).2]
  have hle := (verdictOf rules request scope found).rank_le
  cases scope with
  | organization =>
    refine ⟨_, (evaluateOutcome_eq_some_iff env _ request body _).mpr
      ⟨found, none, ?_, ?_, rfl⟩, ?_⟩
    · rw [explicitRules_levelRules, hfound]
    · rw [(levelRules_other (by decide) rules).1, hnone]
    · rw [combine_eq, outcomeRank_outcome, rank_prefer, hself, hsilent (by decide)]
      exact min_eq_left hle
  | workspace =>
    refine ⟨_, (evaluateOutcome_eq_some_iff env _ request body _).mpr
      ⟨none, found, ?_, ?_, rfl⟩, ?_⟩
    · rw [(levelRules_other (by decide) rules).1, hnone]
    · rw [explicitRules_levelRules, hfound]
    · rw [combine_eq, outcomeRank_outcome, rank_prefer, hself, hsilent (by decide)]
      exact min_eq_right hle

end OneLevel

/-- The two-level law. The evaluation answers exactly with the outcome of the winning verdict;
its rank is the smaller of the two verdicts' ranks, so it is never less strict than either
level alone; and it always answers when no rule panics. -/
theorem two_level_law (env : Env) (rules : List NewRule) (request : PolicyRequest)
    (body : ConditionBody) (hone : OneDefault rules) :
    (∀ out, evaluateOutcome env rules request body = some out ↔
      ∃ org workspace, IsVerdict env rules request body .organization org ∧
        IsVerdict env rules request body .workspace workspace ∧ out = (prefer org workspace).outcome rules request ∧
        outcomeRank out = min org.rank workspace.rank) ∧
    (∀ out, evaluateOutcome env rules request body = some out → ∀ scope,
      ∃ alone, evaluateOutcome env (levelRules rules scope) request body = some alone ∧
        outcomeRank out ≤ outcomeRank alone) ∧
    ((∀ rule ∈ rules, ruleMatches env request body rule ≠ none) →
      ∃ out, evaluateOutcome env rules request body = some out) := by
  have hrank (org workspace : Verdict) :
      outcomeRank ((prefer org workspace).outcome rules request) = min org.rank workspace.rank := by
    rw [outcomeRank_outcome, rank_prefer]
  refine ⟨fun out => ?_, fun out hout scope => ?_, fun htotal => ?_⟩
  · rw [evaluateOutcome_eq_iff hone]
    constructor
    · rintro ⟨org, workspace, horg, hworkspace, rfl⟩
      exact ⟨org, workspace, horg, hworkspace, rfl, hrank org workspace⟩
    · rintro ⟨org, workspace, horg, hworkspace, hout, -⟩
      exact ⟨org, workspace, horg, hworkspace, hout⟩
  · obtain ⟨o, p, ho, hp, rfl⟩ := (evaluateOutcome_eq_some_iff env rules request body out).mp hout
    rw [combine_eq, hrank]
    cases scope with
    | organization =>
      obtain ⟨alone, halone, heq⟩ := evaluateOutcome_levelRules ho
      exact ⟨alone, halone, heq ▸ min_le_left _ _⟩
    | workspace =>
      obtain ⟨alone, halone, heq⟩ := evaluateOutcome_levelRules hp
      exact ⟨alone, halone, heq ▸ min_le_right _ _⟩
  · have hlevel (scope : Scope) := exists_firstMatch env (explicitRules rules scope) request body
      fun rule hrule => htotal rule (mem_filter.mp hrule).1
    obtain ⟨o, ho⟩ := hlevel .organization
    obtain ⟨p, hp⟩ := hlevel .workspace
    exact ⟨_, (evaluateOutcome_eq_some_iff env rules request body _).mpr ⟨o, p, ho, hp, rfl⟩⟩

section Tie

/-- The organization denies by default. -/
def orgFloor : NewRule :=
  ⟨"d".toList, "d".toList, "Default".toList, .organization, 0, true, [], [], .block, false, none, none, none⟩

/-- The workspace blocks the host `a`. -/
def workspaceBlock : NewRule :=
  ⟨"b".toList, "b".toList, "Block".toList, .workspace, 0, false, [], [.secret ["a".toList]], .block,
    false, none, none, none⟩

/-- A credentialed request to the host `a`. -/
def requestToA : PolicyRequest := ⟨"a".toList, "/".toList, "GET".toList, "agent".toList, [], [], true, false, none⟩

/-- The law holds of the organization's floor and the workspace's block. -/
theorem two_level_law_floor_and_block :
    (∀ out, evaluateOutcome Env.empty [orgFloor, workspaceBlock] requestToA .none = some out ↔
      ∃ org workspace, IsVerdict Env.empty [orgFloor, workspaceBlock] requestToA .none .organization org ∧
        IsVerdict Env.empty [orgFloor, workspaceBlock] requestToA .none .workspace workspace ∧
        out = (prefer org workspace).outcome [orgFloor, workspaceBlock] requestToA ∧
        outcomeRank out = min org.rank workspace.rank) ∧
    (∀ out, evaluateOutcome Env.empty [orgFloor, workspaceBlock] requestToA .none = some out → ∀ scope,
      ∃ alone, evaluateOutcome Env.empty (levelRules [orgFloor, workspaceBlock] scope) requestToA .none =
          some alone ∧ outcomeRank out ≤ outcomeRank alone) ∧
    ((∀ rule ∈ [orgFloor, workspaceBlock], ruleMatches Env.empty requestToA .none rule ≠ none) →
      ∃ out, evaluateOutcome Env.empty [orgFloor, workspaceBlock] requestToA .none = some out) :=
  two_level_law Env.empty [orgFloor, workspaceBlock] requestToA .none fun scope => by cases scope <;> decide

/-- The block wins against the floor although both have rank zero, so a tie does not always
go to the organization. -/
theorem tie_not_always_organization :
    ¬ ∀ (env : Env) (rules : List NewRule) (request : PolicyRequest) (body : ConditionBody),
      OneDefault rules → ∀ out, evaluateOutcome env rules request body = some out →
        ∀ org workspace, IsVerdict env rules request body .organization org →
          IsVerdict env rules request body .workspace workspace →
          out = (if workspace.rank < org.rank then workspace else org).outcome rules request := by
  intro hclaim
  have hone : OneDefault [orgFloor, workspaceBlock] := fun scope => by cases scope <;> decide
  have hout : evaluateOutcome .empty [orgFloor, workspaceBlock] requestToA .none =
      some (.rule workspaceBlock) := rfl
  have horg : IsVerdict .empty [orgFloor, workspaceBlock] requestToA .none .organization
      (.deny orgFloor) := (isVerdict_iff hone _ _).mpr ⟨none, rfl, rfl⟩
  have hworkspace : IsVerdict .empty [orgFloor, workspaceBlock] requestToA .none .workspace
      (.rule workspaceBlock) := (isVerdict_iff hone _ _).mpr ⟨some workspaceBlock, rfl, rfl⟩
  have htie := hclaim .empty _ requestToA .none hone _ hout _ _ horg hworkspace
  cases htie

end Tie

/-! ## Truncated bodies

What a body cut at the buffer limit does to the outcome. Whether a restrictive rule applies is then a matter of the rules
and the request alone: its conditions are left open and taken as met, and the operation is taken for a mutation. A single
restrictive rule can only start to match, but a list of rules is decided by its first match: a rule that is left open
shadows whatever stands behind it, also a stricter rule or a denial by default, and a tool tagged as a query stops
matching.
-/

/-- Whether the cut leaves a restrictive rule open: the request reaches it, its conditions set aside and the operation
taken for a mutation. -/
def leftOpen (env : Env) (request : PolicyRequest) (rule : NewRule) : Option Bool :=
  ruleMatches env request (.truncated []) { rule with conditions := none }

/-- What the cut leaves of a rule: a restrictive one that is left open, and a plain allow whose conditions what was read
meets. -/
def leaves (env : Env) (request : PolicyRequest) (front : List UInt8) (rule : NewRule) : Option Bool :=
  if strictnessRank rule < 3 then leftOpen env request rule else ruleMatches env request (.truncated front) rule

variable {env : Env} {rules : List NewRule} {request : PolicyRequest} {body : ConditionBody}

section Cut

variable {rule : NewRule} (front : List UInt8)

end Cut

section Shadowed

end Shadowed

end Onecli.Policy
