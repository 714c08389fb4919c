import Onecli.Api.PolicyOverlap

/-!
# Covers

A cover is read off the literal rules: hosts and paths as patterns, identities and conditions
as strings. Each comparison that answers yes carries every request of the later pattern over
to the earlier one; conditions are compared by their entries, so there it is the conditions
behind the entries that have to be the same.
-/

namespace Onecli.Api

open CodeUnits Utf16 List Bool

/-! ## Hosts -/

theorem asciiLowerUnit_eq_iff {d : UInt16} (hd : d.toNat < 65) (u : UInt16) :
    asciiLowerUnit u = d ↔ u = d := by
  rw [← UInt16.toNat_inj, ← UInt16.toNat_inj, toNat_asciiLowerUnit]
  split_ifs <;> omega

/-- Lowering goes unit by unit. -/
theorem asciiLower_eq_encode (s : JsString) : asciiLower s = encode (fun u => [asciiLowerUnit u]) s := map_eq_flatMap

/-- Lowering keeps the delimiters. -/
theorem isDelimiter_asciiLower {d : UInt16} (hd : d.toNat < 65) :
    IsDelimiter (fun u => [asciiLowerUnit u]) d d where
  block_eq := by rw [(asciiLowerUnit_eq_iff hd d).mpr rfl]
  not_mem_other u hu := by
    rw [mem_singleton]
    exact fun h => hu ((asciiLowerUnit_eq_iff hd u).mp h.symm)

section Star

variable {d : UInt16} (hd : d.toNat < 65)

include hd

theorem count_asciiLower (s : JsString) : (asciiLower s).count d = s.count d := by
  rw [asciiLower_eq_encode]
  exact count_encode (isDelimiter_asciiLower hd) s

theorem contains_asciiLower (s : JsString) : (asciiLower s).contains d = s.contains d := by
  rw [Bool.eq_iff_iff, contains_iff_mem, contains_iff_mem, asciiLower_eq_encode]
  exact mem_encode_iff (isDelimiter_asciiLower hd) s

theorem splitOn_asciiLower (s : JsString) :
    (asciiLower s).splitOn d = (s.splitOn d).map asciiLower := by
  rw [asciiLower_eq_encode, splitOn_encode (isDelimiter_asciiLower hd)]
  exact map_congr_left fun piece _ => (asciiLower_eq_encode piece).symm

theorem idxOf?_asciiLower (s : JsString) : (asciiLower s).idxOf? d = s.idxOf? d := by
  induction s with
  | nil => rfl
  | cons u s ih =>
    have hhead : (asciiLowerUnit u == d) = (u == d) := by
      rw [Bool.eq_iff_iff, beq_iff_eq, beq_iff_eq, asciiLowerUnit_eq_iff hd]
    change (asciiLowerUnit u :: asciiLower s).idxOf? d = (u :: s).idxOf? d
    rw [List.idxOf?_cons, List.idxOf?_cons, hhead, ih]

end Star

theorem asciiLower_take (s : JsString) (n : ℕ) : (asciiLower s).take n = asciiLower (s.take n) := map_take.symm

theorem asciiLower_drop (s : JsString) (n : ℕ) : (asciiLower s).drop n = asciiLower (s.drop n) := map_drop.symm

theorem labelMatches_asciiLower (hostLabel patternLabel : JsString) :
    labelMatches (asciiLower hostLabel) (asciiLower patternLabel) = labelMatches hostLabel patternLabel := by
  unfold labelMatches
  rw [asciiLower_length, idxOf?_asciiLower (by decide)]
  cases patternLabel.idxOf? (unit '*') with
  | none => simp only [asciiLower_asciiLower]
  | some =>
    simp only [asciiLower_take, asciiLower_drop, asciiLower_length, asciiLower_asciiLower,
      contains_asciiLower (d := unit '*') (by decide)]

theorem multiWildcardMatches_asciiLower (host pattern : JsString) :
    multiWildcardMatches (asciiLower host) (asciiLower pattern) = multiWildcardMatches host pattern := by
  have hlabels : (fun (x : JsString × JsString) => labelMatches x.1 x.2) ∘ Prod.map asciiLower asciiLower =
      fun x => labelMatches x.1 x.2 := by
    funext ⟨hostLabel, patternLabel⟩
    exact labelMatches_asciiLower hostLabel patternLabel
  have hall (hosts patterns : List JsString) :
      ((hosts.map asciiLower).zip (patterns.map asciiLower)).all (fun x => labelMatches x.1 x.2) =
        (hosts.zip patterns).all fun x => labelMatches x.1 x.2 := by
    rw [zip_map, all_map, hlabels]
  unfold multiWildcardMatches
  rw [splitOn_asciiLower (by decide), splitOn_asciiLower (by decide)]
  simp only [length_map]
  exact if_congr Iff.rfl rfl (hall _ _)

theorem hostMatches_asciiLower (host pattern : JsString) :
    hostMatches (asciiLower host) (asciiLower pattern) = hostMatches host pattern := by
  unfold hostMatches
  rw [count_asciiLower (by decide), idxOf?_asciiLower (by decide), multiWildcardMatches_asciiLower]
  cases pattern.idxOf? (unit '*') with
  | none => simp only [asciiLower_asciiLower]
  | some => simp only [asciiLower_take, asciiLower_drop, asciiLower_length, asciiLower_asciiLower]

/-- A pattern without `*` is a host up to the case of its letters. -/
theorem hostMatches_concrete {pattern : JsString} (hpat : unit '*' ∉ pattern) (host : JsString) :
    hostMatches host pattern = true ↔ asciiLower host = asciiLower pattern := by
  have hcount : pattern.count (unit '*') = 0 := count_eq_zero.mpr hpat
  have hidx : pattern.idxOf? (unit '*') = none := List.idxOf?_eq_none_iff.mpr hpat
  unfold hostMatches
  rw [if_neg (by omega), hidx, beq_iff_eq]

theorem hostMatches_star (host : JsString) : hostMatches host (js "*") = true := by
  change (decide (0 + 0 ≤ host.length) && asciiLower (host.take 0) == asciiLower [] &&
    asciiLower (host.drop (host.length - 0)) == asciiLower []) = true
  simp

theorem hostMatches_of_hostCover {pattern1 pattern2 host : JsString}
    (hcover : hostCover pattern1 pattern2 = true) (hmatch : hostMatches host pattern2 = true) :
    hostMatches host pattern1 = true := by
  unfold hostCover at hcover
  split_ifs at hcover with hstar hsame
  · subst hstar
    exact hostMatches_star host
  · rw [← hostMatches_asciiLower, hsame, hostMatches_asciiLower]
    exact hmatch
  · simp only [and_eq_true, Bool.not_eq_true', ← not_eq_true, contains_iff_mem] at hcover
    have hhost := (hostMatches_concrete hcover.1 host).mp hmatch
    rw [← hostMatches_asciiLower, hhost, hostMatches_asciiLower]
    exact hcover.2

/-! ## Endpoints -/

theorem pathMatches_withoutQuery (path pattern : JsString) :
    pathMatches (withoutQuery path) pattern = pathMatches path pattern := by
  have hidem : withoutQuery (withoutQuery path) = withoutQuery path := takeWhile_idem
  unfold pathMatches
  rw [hidem]

theorem pathMatches_concrete {pattern : JsString} (hpat : unit '*' ∉ pattern) (path : JsString) :
    pathMatches path pattern = true ↔ withoutQuery path = pattern := by
  have hstar : pattern ≠ js "*" := by
    rintro rfl
    exact hpat mem_cons_self
  have hmid : hasMidPathWildcard pattern = false := by
    rw [hasMidPathWildcard, and_eq_false_iff]
    exact Or.inr (by simpa using fun h => hpat (dropLast_subset _ h))
  have hends (tail : JsString) (htail : unit '*' ∈ tail) : tail.isSuffixOf pattern = false := by
    rw [← not_eq_true, isSuffixOf_iff_suffix]
    exact fun h => hpat (h.subset htail)
  simp only [pathMatches, if_neg hstar, hmid, hends (js "/*") (by decide), hends (js "*") (by decide),
    false_eq_true, if_false, beq_iff_eq]

theorem pathMatches_of_concrete {pattern1 pattern2 path : JsString} (hpat : unit '*' ∉ pattern2)
    (hcover : pathMatches pattern2 pattern1 = true) (hmatch : pathMatches path pattern2 = true) :
    pathMatches path pattern1 = true := by
  rw [pathMatches_concrete hpat] at hmatch
  rw [← pathMatches_withoutQuery, hmatch]
  exact hcover

theorem pathMatches_star (path : JsString) : pathMatches path (js "*") = true := by
  simp only [pathMatches, if_true]

theorem pathMatches_of_anyPath {p : Option JsString} (h : anyPath p = true) (path : JsString) :
    pathMatches path (p.getD (js "*")) = true := by
  simp only [anyPath, or_eq_true, beq_iff_eq] at h
  rcases h with rfl | rfl <;> exact pathMatches_star path

/-- The method of a request passes a pattern's. -/
def methodPasses (request : PolicyRequest JsString) (method : Option JsString) : Bool :=
  method.all fun method => asciiLower method == asciiLower request.method

variable {request : PolicyRequest JsString} {r1 r2 : PolicyRuleRow} {env : Env} {provider : JsString} {res : Resolution}

theorem methodPasses_of_methodCover {m1 m2 : Option JsString} (hcover : methodCover m1 m2 = true)
    (hmatch : methodPasses request m2 = true) : methodPasses request m1 = true := by
  cases m1 with
  | none => rfl
  | some m1 =>
    cases m2 with
    | none => exact absurd hcover Bool.false_ne_true
    | some m2 =>
      have heq : asciiLower m1 = asciiLower m2 := beq_iff_eq.mp hcover
      rw [methodPasses, Option.all_some, heq]
      exact hmatch

/-- A request is the discovery of the Git service that a pattern ends in. -/
def discoveryPasses (request : PolicyRequest JsString) (pathPattern : JsString) : Bool :=
  asciiLower request.method == js "get" && gitPackServices.any fun service =>
    (js "/" ++ service).isSuffixOf pathPattern && isGitDiscovery request.path service

theorem endpointCovers_eq_true_iff (request : PolicyRequest JsString) (pathPattern : JsString)
    (method : Option JsString) :
    endpointCovers request pathPattern method = true ↔
      (pathMatches request.path pathPattern = true ∧ methodPasses request method = true) ∨
        discoveryPasses request pathPattern = true := by
  rw [← and_eq_true, ← or_eq_true]
  exact Iff.rfl

theorem isGitPackPattern_of_discoveryPasses {pathPattern : JsString} (h : discoveryPasses request pathPattern = true) :
    isGitPackPattern pathPattern = true := by
  simp only [discoveryPasses, gitPackServices, any_cons, any_nil, Bool.or_false, and_eq_true, or_eq_true] at h
  simp only [isGitPackPattern, any_cons, any_nil, Bool.or_false, or_eq_true]
  exact h.2.imp And.left And.left

/-- A covering host and path match as well. -/
theorem networkCover_sound {host1 host2 : JsString} {p1 m1 p2 m2 : Option JsString}
    (hcover : networkCover host1 p1 m1 host2 p2 m2 = true) (hhost : hostMatches request.host host2 = true)
    (hmatch : endpointCovers request (p2.getD (js "*")) m2 = true) :
    hostMatches request.host host1 = true ∧ endpointCovers request (p1.getD (js "*")) m1 = true := by
  unfold networkCover at hcover
  split_ifs at hcover with hhosts hgit hpath
  · refine ⟨hostMatches_of_hostCover (by simpa using hhosts) hhost, ?_⟩
    rw [endpointCovers_eq_true_iff] at hmatch ⊢
    simp only [or_eq_true, and_eq_true, beq_iff_eq] at hcover
    rcases hcover with ⟨hany, rfl⟩ | ⟨rfl, hmethod⟩
    · exact Or.inl ⟨pathMatches_of_anyPath hany request.path, rfl⟩
    · exact hmatch.imp_left fun h => ⟨h.1, methodPasses_of_methodCover hmethod h.2⟩
  · refine ⟨hostMatches_of_hostCover (by simpa using hhosts) hhost, ?_⟩
    rw [endpointCovers_eq_true_iff] at hmatch ⊢
    -- the later pattern has no discovery, so it covers directly
    have hnot : ¬ discoveryPasses request (p2.getD (js "*")) = true := by
      intro h
      have hpack := isGitPackPattern_of_discoveryPasses h
      cases p2 with
      | none => exact absurd hpack (by decide)
      | some => exact hgit hpack
    obtain ⟨hdirect, hmethod⟩ := hmatch.resolve_right hnot
    refine Or.inl ⟨?_, methodPasses_of_methodCover hcover hmethod⟩
    have hpaths : anyPath p1 = true ∨ (p2.any fun pattern2 => p1.any fun pattern1 =>
        pattern1 == pattern2 || (!pattern2.contains (unit '*') && !isGitPackPattern pattern1 &&
          pathMatches pattern2 pattern1)) = true := by
      simpa only [Bool.not_eq_true', not_eq_false, or_eq_true] using hpath
    rcases hpaths with hany | hboth
    · exact pathMatches_of_anyPath hany request.path
    · match p1, p2, hboth with
      | some pattern1, some pattern2, hboth =>
        simp only [Option.any_some, or_eq_true, beq_iff_eq, and_eq_true,
          Bool.not_eq_true', ← not_eq_true, contains_iff_mem] at hboth
        rcases hboth with rfl | ⟨⟨hconcrete, -⟩, hliteral⟩
        · exact hdirect
        · exact pathMatches_of_concrete hconcrete hliteral hdirect

/-! ## Targets -/

/-- The conditions of a row that decode. -/
def PolicyRuleRow.decoded (row : PolicyRuleRow) : List (OldCondition JsString) :=
  (decodeConditions row.conditions).getD []

theorem conditionsMatch_eq_true_iff (conds : Option (List (OldCondition JsString)))
    (body : Option JsString) :
    conditionsMatch conds body = true ↔ ∀ c ∈ conds.getD [], conditionMatches c body = true := by
  cases conds with
  | none => simp [conditionsMatch]
  | some conds => cases conds <;> simp [conditionsMatch]

theorem conditionsMatch_mono (hsubset : ∀ c ∈ r1.decoded, c ∈ r2.decoded) {body : Option JsString}
    (hmatch : conditionsMatch (decodeConditions r2.conditions) body = true) :
    conditionsMatch (decodeConditions r1.conditions) body = true := by
  rw [conditionsMatch_eq_true_iff] at hmatch ⊢
  exact fun c hc => hmatch c (hsubset c hc)

theorem toolMatches_eq (env : Env) (request : PolicyRequest JsString)
    (conds : Option (List (OldCondition JsString))) (tool : AppTool JsString) :
    toolMatches env request conds tool =
      (toolMatches env request none tool && conditionsMatch conds request.body) := by
  have hvariants : (allRuleVariants tool).any (fun v => endpointMatches request ⟨v.1, v.2, conds⟩) =
      ((allRuleVariants tool).any (fun v => endpointMatches request ⟨v.1, v.2, none⟩) &&
        conditionsMatch conds request.body) := by
    have hnone : conditionsMatch none request.body = true := rfl
    simp only [endpointMatches_eq, hnone, Bool.and_true]
    exact and_any_distrib_right.symm
  unfold toolMatches
  split_ifs with hhost hops
  · rfl
  · rfl
  · exact hvariants

/-- Conditions of an app target are apart from its tools. -/
theorem appTargetMatches_eq (env : Env) (request : PolicyRequest JsString) (provider : JsString)
    (tools : List JsString) (conds : Option (List (OldCondition JsString))) :
    appTargetMatches env request provider tools conds =
      (appTargetMatches env request provider tools none && conditionsMatch conds request.body) := by
  unfold appTargetMatches
  rw [and_any_distrib_right]
  refine congrArg tools.any (funext fun id => ?_)
  cases getAppTool env provider id with
  | none => rfl
  | some tool => exact toolMatches_eq env request conds tool

theorem appTargetMatches_mono {tools1 tools2 : List JsString} (hsubset : ∀ id ∈ tools2, id ∈ tools1)
    {conds : Option (List (OldCondition JsString))}
    (hmatch : appTargetMatches env request provider tools2 conds = true) :
    appTargetMatches env request provider tools1 conds = true := by
  unfold appTargetMatches at hmatch ⊢
  rw [any_eq_true] at hmatch ⊢
  obtain ⟨id, hid, htool⟩ := hmatch
  exact ⟨id, hsubset id hid, htool⟩

theorem providerHostMatches_of_appTargetMatches {tools : List JsString}
    {conds : Option (List (OldCondition JsString))}
    (hmatch : appTargetMatches env request provider tools conds = true) :
    providerHostMatches env request.host provider = true := by
  unfold appTargetMatches at hmatch
  rw [any_eq_true] at hmatch
  obtain ⟨id, -, hmatch⟩ := hmatch
  cases htool : getAppTool env provider id with
  | none => simp [htool] at hmatch
  | some tool =>
    simp only [htool] at hmatch
    have hhost : (hostPatternsOf tool).any (hostMatches request.host) = true := by
      unfold toolMatches at hmatch
      split_ifs at hmatch with hhost hops
      simpa using hhost
    unfold getAppTool at htool
    rw [providerHostMatches_eq]
    cases hdefn : getAppPermissionDefinition env provider with
    | none => simp [hdefn] at htool
    | some =>
      simp only [hdefn] at htool
      exact any_eq_true.mpr ⟨tool, List.mem_of_find?_eq_some htool, hhost⟩

/-- A network target matches by host, endpoint and conditions. -/
theorem targetMatches_network (env : Env) (res : Resolution) (row : PolicyRuleRow)
    (hostPattern : JsString) (pathPattern method : Option JsString) (request : PolicyRequest JsString) :
    targetMatches env (decodeTarget res (.network hostPattern pathPattern method)) (toSimRule res row)
        request = true ↔
      hostMatches request.host hostPattern = true ∧ endpointCovers request (pathPattern.getD (js "*")) method = true ∧
        conditionsMatch (decodeConditions row.conditions) request.body = true := by
  rw [← and_eq_true, ← and_eq_true, ← endpointMatches_eq request ⟨_, _, _⟩]
  exact Iff.rfl

/-- An app target matches its hosts, or its tools. -/
theorem targetMatches_app (env : Env) (res : Resolution) (row : PolicyRuleRow) (hprov : provider.isEmpty = false)
    (tools : List JsString) (scope : Option JsString) (request : PolicyRequest JsString) :
    targetMatches env (decodeTarget res (.app provider tools scope)) (toSimRule res row) request =
      if tools.length = 0 then providerHostMatches env request.host provider
      else appTargetMatches env request provider tools (decodeConditions row.conditions) := by
  rw [decodeTarget, hprov]
  rfl

theorem conditionsMatch_of_targetMatches {row : PolicyRuleRow} {target : TargetRow}
    (hhonors : ignoresConditions (toTargetDto target) = false)
    (hmatch : targetMatches env (decodeTarget res target) (toSimRule res row) request = true) :
    conditionsMatch (decodeConditions row.conditions) request.body = true := by
  cases target with
  | app provider tools =>
    cases hprov : provider.isEmpty with
    | true =>
      rw [decodeTarget, hprov] at hmatch
      cases hmatch
    | false =>
      have htools : tools.length ≠ 0 := by simpa [toTargetDto, ignoresConditions] using hhonors
      rw [targetMatches_app env res row hprov, if_neg htools, appTargetMatches_eq, and_eq_true] at hmatch
      exact hmatch.2
  | network =>
    rw [targetMatches_network] at hmatch
    exact hmatch.2.2
  | _ => exact absurd hhonors.symm Bool.false_ne_true

theorem targetMatches_of_isUniversal {row : PolicyRuleRow} {target : TargetRow}
    (huniversal : isUniversal (toTargetDto target) = true)
    (hconds : conditionsMatch (decodeConditions row.conditions) request.body = true) :
    targetMatches env (decodeTarget res target) (toSimRule res row) request = true := by
  cases target with
  | network =>
    simp only [toTargetDto, isUniversal, and_eq_true, beq_iff_eq] at huniversal
    obtain ⟨⟨rfl, hpath⟩, rfl⟩ := huniversal
    rw [targetMatches_network, endpointCovers_eq_true_iff]
    exact ⟨hostMatches_star _, Or.inl ⟨pathMatches_of_anyPath hpath _, rfl⟩, hconds⟩
  | _ => exact absurd huniversal Bool.false_ne_true

/-- A covering target matches as well. -/
theorem targetCover_sound {t1 t2 : TargetRow} (hcover : targetCover (toTargetDto t1) (toTargetDto t2) = true)
    (hconds : conditionsMatch (decodeConditions r1.conditions) request.body = true)
    (hmatch : targetMatches env (decodeTarget res t2) (toSimRule res r2) request = true) :
    targetMatches env (decodeTarget res t1) (toSimRule res r1) request = true := by
  unfold targetCover at hcover
  split_ifs at hcover with huniversal
  · exact targetMatches_of_isUniversal huniversal hconds
  · match t1, t2, hcover with
    | .network host1 p1 m1, .network host2 p2 m2, hcover =>
      rw [targetMatches_network] at hmatch ⊢
      obtain ⟨hhost, hendpoint⟩ := networkCover_sound hcover hmatch.1 hmatch.2.1
      exact ⟨hhost, hendpoint, hconds⟩
    | .app provider1 tools1 scope1, .app provider2 tools2 scope2, hcover =>
      simp only [toTargetDto, and_eq_true, beq_iff_eq, or_eq_true, decide_eq_true_eq] at hcover
      obtain ⟨rfl, htools⟩ := hcover
      cases hprov : provider1.isEmpty with
      | true =>
        rw [decodeTarget, hprov] at hmatch
        cases hmatch
      | false =>
        rw [targetMatches_app env res r2 hprov] at hmatch
        rw [targetMatches_app env res r1 hprov]
        rcases htools with hwhole | ⟨hnamed, hsubset⟩
        · rw [if_pos hwhole]
          split_ifs at hmatch with hempty
          · exact hmatch
          · exact providerHostMatches_of_appTargetMatches hmatch
        · rw [all_eq_true] at hsubset
          simp only [contains_iff_mem] at hsubset
          have hnamed1 : tools1.length ≠ 0 := by
            intro hempty
            obtain ⟨id, hid⟩ := exists_mem_of_length_pos hnamed
            have hmem := hsubset id hid
            rw [length_eq_zero_iff.mp hempty] at hmem
            exact not_mem_nil hmem
          rw [if_neg (by omega), appTargetMatches_eq, and_eq_true] at hmatch
          rw [if_neg hnamed1, appTargetMatches_eq, and_eq_true]
          exact ⟨appTargetMatches_mono hsubset hmatch.1, hconds⟩

/-! ## Rules -/

theorem identityKey_injective : Function.Injective identityKey := by
  intro a b h
  cases a <;> cases b <;> simp_all [identityKey, js, utf16Char]

/-- An identity of an earlier rule is one that the later rule names, or the earlier rule names
none. -/
theorem identityMatches_mono (h : r1.identities = [] ∨ (r2.identities ≠ [] ∧ ∀ i ∈ r2.identities, i ∈ r1.identities))
    (hmatch : identityMatches (toSimRule res r2) request = true) :
    identityMatches (toSimRule res r1) request = true := by
  unfold identityMatches toSimRule at hmatch ⊢
  simp only [or_eq_true, beq_iff_eq, length_eq_zero_iff] at hmatch ⊢
  rcases h with hnone | ⟨hsome, hsubset⟩
  · exact Or.inl hnone
  · obtain ⟨i, hi, hprincipal⟩ := any_eq_true.mp (hmatch.resolve_left hsome)
    exact Or.inr (any_eq_true.mpr ⟨i, hsubset i hi, hprincipal⟩)

/-- A rule that covers has all the identities. -/
theorem identitiesCover_sound (hcover : identitiesCover (toRuleDto r1) (toRuleDto r2) = true) :
    r1.identities = [] ∨ (r2.identities ≠ [] ∧ ∀ i ∈ r2.identities, i ∈ r1.identities) := by
  unfold identitiesCover toRuleDto at hcover
  simp only [length_eq_zero_iff] at hcover
  split_ifs at hcover with hnone hsome
  · exact Or.inl hnone
  · refine Or.inr ⟨hsome, fun i hi => ?_⟩
    have hkey := all_eq_true.mp hcover i hi
    rw [contains_iff_mem, mem_map] at hkey
    obtain ⟨j, hj, hsame⟩ := hkey
    exact identityKey_injective hsame ▸ hj

/-- A rule matches what another does when its identities are met and each target that matches
has a matching one. -/
theorem ruleMatches_mono
    (hidentities : r1.identities = [] ∨ (r2.identities ≠ [] ∧ ∀ i ∈ r2.identities, i ∈ r1.identities))
    (htargets : ∀ t2 ∈ r2.targets, targetMatches env (decodeTarget res t2) (toSimRule res r2) request = true → ∃ t1 ∈ r1.targets, targetMatches env (decodeTarget res t1) (toSimRule res r1) request = true)
    (hmatch : ruleMatches env request (toSimRule res r2) = true) :
    ruleMatches env request (toSimRule res r1) = true := by
  unfold ruleMatches at hmatch ⊢
  rw [and_eq_true, and_eq_true, any_eq_true] at hmatch
  obtain ⟨⟨hidentity, -⟩, target, hmem, htarget⟩ := hmatch
  obtain ⟨t2, ht2, rfl⟩ := mem_map.mp hmem
  obtain ⟨t1, ht1, htarget⟩ := htargets t2 ht2 htarget
  have hmem1 : decodeTarget res t1 ∈ (toSimRule res r1).targets := mem_map_of_mem ht1
  rw [and_eq_true, and_eq_true, any_eq_true, decide_eq_true_eq]
  exact ⟨⟨identityMatches_mono hidentities hidentity, length_pos_of_mem hmem1⟩, _, hmem1, htarget⟩

/-- A rule that covers another matches all of its requests, when the conditions behind the
covered entries are conditions of the other. -/
theorem ruleCovers_sound (hcover : ruleCovers (toRuleDto r1) (toRuleDto r2) = true)
    (hconds : ∀ c ∈ r1.decoded, c ∈ r2.decoded) (hmatch : ruleMatches env request (toSimRule res r2) = true) :
    ruleMatches env request (toSimRule res r1) = true := by
  unfold ruleCovers at hcover
  split_ifs at hcover with hidentities hents hnone hignores
  refine ruleMatches_mono (identitiesCover_sound (by simpa using hidentities)) ?_ hmatch
  intro t2 ht2 htarget
  have hmem2 : toTargetDto t2 ∈ (toRuleDto r2).targets := mem_map_of_mem ht2
  obtain ⟨target, hmem1, htargets⟩ := any_eq_true.mp (all_eq_true.mp hcover _ hmem2)
  obtain ⟨t1, ht1, rfl⟩ := mem_map.mp hmem1
  refine ⟨t1, ht1, targetCover_sound htargets ?_ htarget⟩
  cases hhonors : ignoresConditions (toTargetDto t2) with
  | false => exact conditionsMatch_mono hconds (conditionsMatch_of_targetMatches hhonors htarget)
  | true =>
    -- the later target matches under any conds, so the earlier rule has none
    have hempty : (conditionSet r1.conditions).length = 0 := by
      by_contra hpos
      refine hignores (and_eq_true_iff.mpr ⟨any_eq_true.mpr ⟨_, hmem2, hhonors⟩, ?_⟩)
      exact decide_eq_true (Nat.pos_of_ne_zero hpos)
    rw [conditionsMatch_eq_true_iff]
    intro c hc
    have hentry : conditionEntry c ∈ conditionSet r1.conditions := mem_eraseDups.mpr (mem_map_of_mem hc)
    rw [length_eq_zero_iff.mp hempty] at hentry
    cases hentry

end Onecli.Api
