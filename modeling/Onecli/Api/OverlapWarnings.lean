import Onecli.Api.OverlapCovers
import Onecli.Foundation.PartialSearch

/-!
# Overlap warnings name dead rules

Both loops of the analysis blame a rule of the ordered list on an earlier one. Where the joined
texts of the analysis tell the two rules apart, the earlier rule matches whatever the later
one does, so the first-match walk never stops at the later one. They do not always: a method
filter is in no signature, and the separators of a text can occur in its parts.
-/

namespace Onecli.Api

open Utf16 List Bool

/-! ## What the joined texts have to tell apart -/

/-- An earlier target the engine reads as it reads a later one, up to the order of tools; a
method filter counts where the whole app is meant, and may be the wider one. -/
def TargetRow.Agrees (env : Env) : TargetRow → TargetRow → Prop
  | .app provider1 tools1 _, .app provider2 tools2 _ => provider1 = provider2 ∧ tools1.Perm tools2
  | .connection id1 tools1 method1, .connection id2 tools2 method2 =>
    id1 = id2 ∧ tools1.Perm tools2 ∧ (tools2 = [] → ∀ method,
      methodAllows env method2 method = true → methodAllows env method1 method = true)
  | .secret id1 scope1, .secret id2 scope2 => id1 = id2 ∧ scope1 = scope2
  | .network host1 path1 method1, .network host2 path2 method2 => host1 = host2 ∧ path1 = path2 ∧ method1 = method2
  | _, _ => False

/-- An earlier row with the identities and the conditions of a later one, and with its targets. -/
structure PolicyRuleRow.Agrees (env : Env) (r1 r2 : PolicyRuleRow) : Prop where
  identities : ∀ i, i ∈ r1.identities ↔ i ∈ r2.identities
  conditions : ∀ c, c ∈ r1.decoded ↔ c ∈ r2.decoded
  targets : ∀ t2 ∈ r2.targets, ∃ t1 ∈ r1.targets, t1.Agrees env t2

/-- The rows that the analysis and the walk read. -/
def liveRows (rows : List PolicyRuleRow) : List PolicyRuleRow := rows.filter fun row => row.enabled && !row.isDefault

/-- The texts that a warning rests on tell the blamed row from the reported one: a shadow's covered entries come from the
same conditions, and twins agree. -/
def OverlapWarning.TextsTell (env : Env) (w : OverlapWarning) (blamed reported : PolicyRuleRow) : Prop :=
  match w.kind with
  | .shadowed => ∀ c ∈ blamed.decoded, c ∈ reported.decoded
  | _ => blamed.Agrees env reported

/-- The texts of a warning tell apart the rows that it names. -/
def OverlapWarning.Grounded (env : Env) (rows : List PolicyRuleRow) (w : OverlapWarning) : Prop :=
  ∀ blamed ∈ liveRows rows, ∀ reported ∈ liveRows rows, blamed.logicalId = w.byLogicalId →
    reported.logicalId = w.logicalId → blamed.priority < reported.priority → w.TextsTell env blamed reported

/-! ## Rules of one signature -/

theorem methodAllows_filter (env : Env) (raw : Option JsString) (method : JsString) :
    methodAllows env (raw.filter (!·.isEmpty)) method = methodAllows env raw method := by
  match raw with
  | none => rfl
  | some [] => rfl
  | some (u :: us) => rfl

theorem targetMatches_connection (env : Env) (res : Resolution) (row : PolicyRuleRow) (id : JsString)
    (tools : List JsString) (method : Option JsString) (request : PolicyRequest JsString) :
    targetMatches env (decodeTarget res (.connection id tools method)) (toSimRule res row) request = true ↔
      ∃ provider, (if id.isEmpty then none else res.connectionProviders id) = some provider ∧
        request.winningConnectionId = some id ∧
        if tools.length = 0 then methodAllows env method request.method = true ∧
          providerHostMatches env request.host provider = true
        else appTargetMatches env request provider tools (decodeConditions row.conditions) = true := by
  rw [decodeTarget]
  cases hprov : (if id.isEmpty then none else res.connectionProviders id) with
  | none => simp [targetMatches]
  | some =>
    simp only [targetMatches, methodAllows_filter, Option.some.injEq, exists_eq_left']
    by_cases hwins : request.winningConnectionId = some id
    · rw [if_neg (not_not_intro hwins)]
      by_cases hwhole : tools.length = 0
      · cases methodAllows env method request.method <;> simp [hwins, hwhole]
      · rw [if_neg hwhole, if_neg hwhole]
        exact (and_iff_right hwins).symm
    · simp [hwins]

theorem TargetRow.Agrees.targetMatches {env : Env} {res : Resolution} {r1 r2 : PolicyRuleRow}
    {t1 t2 : TargetRow} (h : t1.Agrees env t2) (hsubset : ∀ c ∈ r1.decoded, c ∈ r2.decoded)
    {request : PolicyRequest JsString}
    (hmatch : targetMatches env (decodeTarget res t2) (toSimRule res r2) request = true) :
    Api.targetMatches env (decodeTarget res t1) (toSimRule res r1) request = true := by
  have htools (provider : JsString) {tools1 tools2 : List JsString} (hperm : tools1.Perm tools2)
      (hfound : appTargetMatches env request provider tools2 (decodeConditions r2.conditions) = true) :
      appTargetMatches env request provider tools1 (decodeConditions r1.conditions) = true := by
    rw [appTargetMatches_eq, and_eq_true] at hfound ⊢
    exact ⟨appTargetMatches_mono (fun id hid => hperm.mem_iff.mpr hid) hfound.1,
      conditionsMatch_mono hsubset hfound.2⟩
  match t1, t2, h with
  | .app provider tools1 scope1, .app _ tools2 scope2, ⟨rfl, hperm⟩ =>
    cases hprov : provider.isEmpty with
    | true =>
      rw [decodeTarget, hprov] at hmatch
      cases hmatch
    | false =>
      rw [targetMatches_app env res r2 hprov, ← hperm.length_eq] at hmatch
      rw [targetMatches_app env res r1 hprov]
      split_ifs at hmatch ⊢ with hwhole
      · exact hmatch
      · exact htools provider hperm hmatch
  | .connection id tools1 method1, .connection _ tools2 method2, ⟨rfl, hperm, hmeth⟩ =>
    rw [targetMatches_connection, ← hperm.length_eq] at hmatch
    rw [targetMatches_connection]
    obtain ⟨provider, hprov, hwins, hmatch⟩ := hmatch
    refine ⟨provider, hprov, hwins, ?_⟩
    split_ifs at hmatch ⊢ with hwhole
    · have hempty : tools2 = [] := length_eq_zero_iff.mp (hperm.length_eq ▸ hwhole)
      exact ⟨hmeth hempty _ hmatch.1, hmatch.2⟩
    · exact htools provider hperm hmatch
  | .secret id scope, .secret _ _, ⟨rfl, rfl⟩ => exact hmatch
  | .network host path method, .network _ _ _, ⟨rfl, rfl, rfl⟩ =>
    rw [targetMatches_network] at hmatch ⊢
    exact ⟨hmatch.1, hmatch.2.1, conditionsMatch_mono hsubset hmatch.2.2⟩

/-- Rules that agree match alike. -/
theorem PolicyRuleRow.Agrees.ruleMatches {env : Env} {res : Resolution} {r1 r2 : PolicyRuleRow}
    (h : r1.Agrees env r2) {request : PolicyRequest JsString}
    (hmatch : ruleMatches env request (toSimRule res r2) = true) :
    Api.ruleMatches env request (toSimRule res r1) = true := by
  refine ruleMatches_mono ?_ (fun t2 ht2 htarget => ?_) hmatch
  · by_cases hnone : r1.identities = []
    · exact .inl hnone
    · obtain ⟨i, hi⟩ := exists_mem_of_ne_nil _ hnone
      exact .inr ⟨ne_nil_of_mem ((h.identities i).mp hi), fun i hi => (h.identities i).mpr hi⟩
  · obtain ⟨t1, ht1, hagrees⟩ := h.targets t2 ht2
    exact ⟨t1, ht1, hagrees.targetMatches (fun c hc => (h.conditions c).mp hc) htarget⟩

/-! ## The two loops -/

/-- A warning is about a rule of the list, and blames a rule before it that covers it or has its signature. -/
def Blames (ordered : List OverlapRule) (w : OverlapWarning) : Prop :=
  ∃ before r after, ordered = before ++ r :: after ∧ w.logicalId = r.logicalId ∧
    ∃ head ∈ before, w.byLogicalId = head.logicalId ∧
      if w.kind = .shadowed then ruleCovers head r = true else matchSig head = matchSig r

variable {w : OverlapWarning}

theorem Blames.snoc {ordered : List OverlapRule} (h : Blames ordered w) (r : OverlapRule) :
    Blames (ordered ++ [r]) w := by
  obtain ⟨before, victim, after, rfl, hid, hhead⟩ := h
  exact ⟨before, victim, after ++ [r], by simp, hid, hhead⟩

theorem Twins.mem_visit_firstBySig {s : Twins} {r head : OverlapRule}
    (h : head ∈ (s.visit r).firstBySig) : head ∈ s.firstBySig ∨ head = r := by
  unfold Twins.visit at h
  split at h
  · rcases mem_append.mp h with h | h
    · exact .inl h
    · exact .inr (mem_singleton.mp h)
  · dsimp only at h
    split_ifs at h <;> exact .inl h

theorem Twins.mem_visit_warnings {s : Twins} {r : OverlapRule} (h : w ∈ (s.visit r).warnings) :
    w ∈ s.warnings ∨ (w.logicalId = r.logicalId ∧ w.kind ≠ .shadowed ∧
      ∃ head ∈ s.firstBySig, w.byLogicalId = head.logicalId ∧ matchSig head = matchSig r) := by
  unfold Twins.visit at h
  split at h
  · exact Or.inl h
  · next head hfound =>
    have hsig : matchSig head = matchSig r := by simpa using List.find?_some hfound
    have hkind : (if verdictSig head = verdictSig r then OverlapKind.duplicate else .conflict) ≠ .shadowed := by
      split <;> exact OverlapKind.noConfusion
    generalize (if verdictSig head = verdictSig r then OverlapKind.duplicate else .conflict) = kind at h hkind
    dsimp only at h
    split_ifs at h
    · exact Or.inl h
    · rcases mem_append.mp h with h | h
      · exact Or.inl h
      · obtain rfl := mem_singleton.mp h
        exact .inr ⟨rfl, hkind, head, List.mem_of_find?_eq_some hfound, rfl, hsig⟩

theorem Shadows.mem_visit_warnings {s : Shadows} {r : OverlapRule} (h : w ∈ (s.visit r).warnings) :
    w ∈ s.warnings ∨ (w.logicalId = r.logicalId ∧ w.kind = .shadowed ∧
      ∃ head ∈ s.earlier, w.byLogicalId = head.logicalId ∧ ruleCovers head r = true) := by
  unfold Shadows.visit at h
  split_ifs at h with hskipped
  · exact .inl h
  · split at h
    · exact .inl h
    · next head hfound =>
      have hcovers : ruleCovers head r = true := by simpa using List.find?_some hfound
      rcases mem_append.mp h with h | h
      · exact .inl h
      · obtain rfl := mem_singleton.mp h
        exact .inr ⟨rfl, rfl, head, List.mem_of_find?_eq_some hfound, rfl, hcovers⟩

theorem twins_blame (ordered : List OverlapRule) :
    (∀ head ∈ (ordered.foldl Twins.visit ⟨[], []⟩).firstBySig, head ∈ ordered) ∧
      ∀ w ∈ (ordered.foldl Twins.visit ⟨[], []⟩).warnings, Blames ordered w := by
  induction ordered using List.reverseRecOn with
  | nil => simp
  | append_singleton walked r ih =>
    rw [foldl_append, foldl_cons]
    obtain ⟨hheads, hwarnings⟩ := ih
    refine ⟨fun head hhead => ?_, fun w hw => ?_⟩
    · rcases Twins.mem_visit_firstBySig hhead with hhead | rfl
      · exact mem_append_left _ (hheads head hhead)
      · exact mem_append_right _ mem_cons_self
    · rcases Twins.mem_visit_warnings hw with hw | ⟨hid, hkind, head, hhead, hby, hsig⟩
      · exact (hwarnings w hw).snoc r
      · exact ⟨walked, r, [], rfl, hid, head, hheads head hhead, hby, by rwa [if_neg hkind]⟩

theorem shadows_blame (warnings : List OverlapWarning) (ordered : List OverlapRule) :
    (ordered.foldl Shadows.visit ⟨[], warnings⟩).earlier = ordered ∧
      ∀ w ∈ (ordered.foldl Shadows.visit ⟨[], warnings⟩).warnings, w ∈ warnings ∨ Blames ordered w := by
  induction ordered using List.reverseRecOn with
  | nil => exact ⟨rfl, fun w hw => .inl hw⟩
  | append_singleton walked r ih =>
    rw [foldl_append, foldl_cons]
    obtain ⟨hearlier, hwarnings⟩ := ih
    refine ⟨congrArg (· ++ [r]) hearlier, fun w hw => ?_⟩
    rcases Shadows.mem_visit_warnings hw with hw | ⟨hid, hkind, head, hhead, hby, hcovers⟩
    · exact (hwarnings w hw).imp_right fun h => h.snoc r
    · exact .inr ⟨walked, r, [], rfl, hid, head, hearlier ▸ hhead, hby, by rwa [if_pos hkind]⟩

/-- Every warning blames an earlier rule. -/
theorem blames_of_mem_findPolicyOverlaps {rules : List OverlapRule} (hw : w ∈ findPolicyOverlaps rules) :
    Blames (orderedRules rules) w :=
  ((shadows_blame _ _).2 w hw).elim ((twins_blame _).2 w) id

/-! ## Dead rows -/

/-- The live rows by priority. -/
def orderedRows (rows : List PolicyRuleRow) : List PolicyRuleRow :=
  (liveRows rows).insertionSort fun a b => a.priority ≤ b.priority

/-- Rows and their DTOs are ordered alike. -/
theorem orderedRules_map (rows : List PolicyRuleRow) :
    orderedRules (rows.map toRuleDto) = (orderedRows rows).map toRuleDto := by
  unfold orderedRules orderedRows liveRows
  rw [filter_map]
  exact (map_insertionSort _ _ toRuleDto _ fun _ _ _ _ => Iff.rfl).symm

theorem firstMatch_levelRules (env : Env) (res : Resolution) (rows : List PolicyRuleRow)
    (request : PolicyRequest JsString) :
    firstMatch env (levelRules res rows) request =
      ((orderedRows rows).find? fun row => ruleMatches env request (toSimRule res row)).map
        (toSimRule res) := by
  have hsorted : (levelRules res rows).insertionSort (fun a b => a.priority ≤ b.priority) =
      (orderedRows rows).map (toSimRule res) := by
    unfold levelRules orderedRows liveRows
    rw [filter_map, filter_filter]
    simp only [Function.comp_apply, Bool.and_comm]
    exact (map_insertionSort _ _ (toSimRule res) _ fun _ _ _ _ => Iff.rfl).symm
  rw [firstMatch, hsorted, List.find?_map]
  rfl

/-- `orderedRows` sorts the live rows by priority. -/
theorem orderedRows_perm_sorted (rows : List PolicyRuleRow) :
    (orderedRows rows).Perm (liveRows rows) ∧ (orderedRows rows).Pairwise fun a b => a.priority ≤ b.priority :=
  ⟨perm_insertionSort _ _, pairwise_insertionSort _ _⟩

/-- No request is decided by the row, and the level decides alike without it. -/
structure Dead (env : Env) (rows : List PolicyRuleRow) (r : PolicyRuleRow) : Prop where
  never_first : ∀ res request, firstMatch env (levelRules res rows) request ≠ some (toSimRule res r)
  redundant : ∀ front back, rows = front ++ r :: back → ∀ res request,
    firstMatch env (levelRules res (front ++ back)) request = firstMatch env (levelRules res rows) request

section Order

variable {rows : List PolicyRuleRow} (hpriorities : (rows.map (·.priority)).Nodup)

include hpriorities

/-- Priorities tell the rows of a level apart. -/
theorem eq_of_priority_eq {a b : PolicyRuleRow} (ha : a ∈ rows) (hb : b ∈ rows)
    (h : a.priority = b.priority) : a = b :=
  inj_on_of_nodup_map hpriorities ha hb h

theorem orderedRows_erase {front back before after : List PolicyRuleRow} {r : PolicyRuleRow}
    (hrows : rows = front ++ r :: back) (hord : orderedRows rows = before ++ r :: after) :
    orderedRows (front ++ back) = before ++ after := by
  obtain ⟨hperm, hsorted⟩ := orderedRows_perm_sorted rows
  obtain ⟨hperm', hsorted'⟩ := orderedRows_perm_sorted (front ++ back)
  rw [hord] at hperm hsorted
  have hlive : r ∈ liveRows rows := hperm.subset (by simp)
  have hkeeps : (r.enabled && !r.isDefault) = true := (mem_filter.mp hlive).2
  have hsplit : liveRows rows = liveRows front ++ r :: liveRows back := by
    rw [hrows, liveRows, filter_append]
    exact congrArg _ (filter_cons_of_pos (p := fun row : PolicyRuleRow => row.enabled && !row.isDefault) hkeeps)
  have hrest : (before ++ after).Perm (liveRows (front ++ back)) := by
    have hcons : (r :: (before ++ after)).Perm (r :: (liveRows front ++ liveRows back)) :=
      perm_middle.symm.trans ((hsplit ▸ hperm).trans perm_middle)
    rw [liveRows, filter_append]
    exact hcons.cons_inv
  have hsame : (orderedRows (front ++ back)).Perm (before ++ after) := hperm'.trans hrest.symm
  have hmem {a : PolicyRuleRow} (ha : a ∈ before ++ after) : a ∈ rows := by
    refine (mem_filter.mp (hperm.subset ?_)).1
    rw [mem_append, mem_cons]
    exact (mem_append.mp ha).imp_right .inr
  have hsublist : (before ++ after).Sublist (before ++ r :: after) :=
    (List.Sublist.refl before).append (sublist_cons_self r after)
  refine List.Perm.eq_of_pairwise (fun a b ha hb hab hba => ?_) hsorted' (hsorted.sublist hsublist) hsame
  exact eq_of_priority_eq hpriorities (hmem (hsame.subset ha)) (hmem hb) (Nat.le_antisymm hab hba)

/-- A rule behind one that matches all it matches is dead. -/
theorem dead_of_shadowed {env : Env} {before after : List PolicyRuleRow} {r head : PolicyRuleRow}
    (hord : orderedRows rows = before ++ r :: after) (hhead : head ∈ before)
    (hmatches : ∀ res request, ruleMatches env request (toSimRule res r) = true →
      ruleMatches env request (toSimRule res head) = true) : Dead env rows r where
  never_first res request hfirst := by
    rw [firstMatch_levelRules] at hfirst
    obtain ⟨found, hfound, hsame⟩ := Option.map_eq_some_iff.mp hfirst
    have hmem {a : PolicyRuleRow} (ha : a ∈ orderedRows rows) : a ∈ rows :=
      (mem_filter.mp ((orderedRows_perm_sorted rows).1.subset ha)).1
    have hr : r ∈ orderedRows rows := hord ▸ by simp
    obtain rfl : found = r := eq_of_priority_eq hpriorities (hmem (List.mem_of_find?_eq_some hfound))
      (hmem hr) (congrArg NewRule.priority hsame)
    rw [hord] at hfound
    refine PartialSearch.find?_ne_of_shadowed ?_ (fun h => ⟨head, hhead, hmatches res request h⟩) hfound
    intro hbefore
    have hnodup : (before ++ found :: after).Nodup :=
      hord ▸ (orderedRows_perm_sorted rows).1.nodup_iff.mpr (hpriorities.of_map.filter _)
    exact (nodup_append.mp hnodup).2.2 found hbefore found mem_cons_self rfl
  redundant front back hrows res request := by
    rw [firstMatch_levelRules, firstMatch_levelRules, hord, orderedRows_erase hpriorities hrows hord]
    rw [PartialSearch.find?_of_shadowed fun h => ⟨head, hhead, hmatches res request h⟩]

end Order

/-- A warning whose texts tell apart the rows that it names is about a dead rule. -/
theorem overlap_warnings_name_dead_rules (env : Env) (rows : List PolicyRuleRow)
    (hpriorities : (rows.map (·.priority)).Nodup) :
    ∀ w ∈ findPolicyOverlaps (rows.map toRuleDto), w.Grounded env rows →
      ∃ r ∈ liveRows rows, r.logicalId = w.logicalId ∧ Dead env rows r := by
  intro w hw hgrounded
  obtain ⟨before', r', after', hsplit, hid, head', hhead', hby, hblame⟩ := blames_of_mem_findPolicyOverlaps hw
  rw [orderedRules_map] at hsplit
  obtain ⟨before, rest, hordered, rfl, hrest⟩ := List.map_eq_append_iff.mp hsplit
  obtain ⟨r, after, rfl, rfl, -⟩ := List.map_eq_cons_iff.mp hrest
  obtain ⟨head, hhead, rfl⟩ := List.mem_map.mp hhead'
  obtain ⟨hperm, hsorted⟩ := orderedRows_perm_sorted rows
  have hlive {a : PolicyRuleRow} (ha : a ∈ before ++ r :: after) : a ∈ liveRows rows := hperm.subset (hordered ▸ ha)
  have hr : r ∈ liveRows rows := hlive (by simp)
  have hheadlive : head ∈ liveRows rows := hlive (List.mem_append_left _ hhead)
  have hnodup : (before ++ r :: after).Nodup := hordered ▸ hperm.nodup_iff.mpr (hpriorities.of_map.filter _)
  have hearlier : head.priority < r.priority := by
    rw [hordered] at hsorted
    refine Nat.lt_of_le_of_ne ((List.pairwise_append.mp hsorted).2.2 head hhead r List.mem_cons_self) ?_
    intro hsame
    have heq := eq_of_priority_eq hpriorities (List.mem_filter.mp hheadlive).1 (List.mem_filter.mp hr).1 hsame
    exact (List.nodup_append.mp hnodup).2.2 head hhead r List.mem_cons_self heq
  refine ⟨r, hr, hid.symm, dead_of_shadowed hpriorities hordered hhead fun res request hmatch => ?_⟩
  have htexts := hgrounded head hheadlive r hr hby.symm hid.symm hearlier
  unfold OverlapWarning.TextsTell at htexts
  split at htexts
  · next hkind =>
    rw [if_pos hkind] at hblame
    exact ruleCovers_sound hblame htexts hmatch
  · exact htexts.ruleMatches hmatch

/-- A rule of the level without conditions, rate limit or approval. -/
def plainRow (logicalId : String) (priority : ℕ) (identities : List (NewIdentity JsString))
    (target : TargetRow) : PolicyRuleRow where
  id := js logicalId
  logicalId := js logicalId
  scope := .workspace
  priority := priority
  enabled := true
  isDefault := false
  name := js logicalId
  action := .allow
  requireApproval := false
  rateLimit := none
  rateLimitWindow := none
  identities := identities
  targets := [target]
  conditions := .null

/-- A catalog of one provider on one host. -/
def githubEnv : Env where
  permissionRegistry := [⟨js "github", [⟨[⟨js "repos", js "api.github.com", none, js "/repos/*", none,
    none, none, none⟩], none⟩]⟩]
  parse _ := none
  toUpperCase s := s

/-- A rule for every request, and a rule for one host behind it. -/
def shadowedRows : List PolicyRuleRow :=
  [plainRow "everything" 1 [] (.network (js "*") none none),
    plainRow "one host" 2 [.agent (js "agent")] (.network (js "api.github.com") (some (js "/repos/*")) none)]

/-- A block of one host leaves the rule behind it dead. -/
theorem overlap_warnings_name_dead_rules_shadowed :
    ∃ r ∈ liveRows shadowedRows, r.logicalId = js "one host" ∧ Dead githubEnv shadowedRows r := by
  refine overlap_warnings_name_dead_rules githubEnv shadowedRows (by decide)
    ⟨js "one host", .shadowed, js "everything", js "everything"⟩ (by decide +kernel) ?_
  intro blamed hblamed reported _ _ _ _ c hc
  have hnone : ∀ r ∈ liveRows shadowedRows, r.decoded = [] := by decide
  rw [hnone blamed hblamed] at hc
  cases hc

/-- The catch-alls of a grant that asks before writes: all but reads first, then the rest. -/
def catchAllRows : List PolicyRuleRow :=
  [{ plainRow "all other writes" 1 [.agent (js "agent")]
      (.connection (js "connection") [] (some (js "!GET,HEAD"))) with requireApproval := true },
    plainRow "all other reads" 2 [.agent (js "agent")] (.connection (js "connection") [] none)]

/-- The reads of a grant are reported although they decide every read. -/
theorem overlap_warning_of_live_rule :
    ¬ ∀ (env : Env) (rows : List PolicyRuleRow), (rows.map (·.priority)).Nodup →
      ∀ w ∈ findPolicyOverlaps (rows.map toRuleDto),
        ∃ r ∈ liveRows rows, r.logicalId = w.logicalId ∧ Dead env rows r := by
  intro h
  obtain ⟨r, hr, hid, hdead⟩ := h githubEnv catchAllRows (by decide)
    ⟨js "all other reads", .conflict, js "all other writes", js "all other writes"⟩ (by decide +kernel)
  let res : Resolution := ⟨⟨fun _ => none, [], []⟩, fun _ => some (js "github")⟩
  let request : PolicyRequest JsString :=
    ⟨js "api.github.com", js "/repos/o/r", js "GET", none, js "agent", [], [], some (js "connection")⟩
  have hdecides : ∀ r ∈ liveRows catchAllRows, r.logicalId = js "all other reads" →
      firstMatch githubEnv (levelRules res catchAllRows) request = some (toSimRule res r) := by
    decide +kernel
  exact hdead.never_first res request (hdecides r hr hid)

end Onecli.Api
