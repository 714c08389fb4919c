import Onecli.Inject.HeaderNames
import Mathlib.Data.List.MinMax
import Mathlib.Data.List.Nodup
import Mathlib.Data.List.Perm.Basic
import Mathlib.Data.Prod.Lex

/-!
# The precedence of injection rules

`merge_injection_rules` orders two lists by class where both hold a rule, and passes a lone list through as it stands.
Where no injection rewrites the path, what a header is left with is decided by the operations on it, taken in that order.
-/

namespace Onecli.Inject

open List Function

open Gateway (Str pathMatches)

/-- `is_catch_all_pattern`. -/
def isCatchAllPattern (pattern : Str) : Bool := pattern == "*".toList || pattern == "/*".toList

/-- `merge_injection_rules`. -/
def mergeInjectionRules (appRules secretRules : List InjectionRule) : List InjectionRule :=
  if appRules.isEmpty then secretRules
  else if secretRules.isEmpty then appRules
  else
    let (appCatchAll, appSpecific) := appRules.partition (isCatchAllPattern ·.pathPattern)
    let (secretCatchAll, secretSpecific) := secretRules.partition (isCatchAllPattern ·.pathPattern)
    appCatchAll ++ secretCatchAll ++ appSpecific ++ secretSpecific

/-- The values that the headers hold for a name. -/
def HeaderMap.valuesOf (headers : HeaderMap) (name : Str) : List Str := (headers.filter (·.1 = name)).map Prod.snd

/-- The rules that apply to a path, where no pattern panics. -/
def applicable (path : Str) : List InjectionRule → Option (List InjectionRule)
  | [] => some []
  | rule :: rules => do
    if ← pathMatches path rule.pathPattern then (applicable path rules).map (rule :: ·) else applicable path rules

variable (crates : Crates)

/-- What an injection makes of the values of a header. -/
def valuesStep (name : Str) (values : List Str) (injection : Injection) : List Str :=
  match injection.headerOp crates with
  | none => values
  | some op =>
    if op.name ≠ name then values
    else match op.kind with
      | .set => [op.value]
      | .replace => if values = [] then [] else [op.value]
      | .remove => []

/-- What is left of the values of a header after some rules. -/
def valuesAfter (name : Str) (values : List Str) (rules : List InjectionRule) : List Str :=
  (rules.flatMap InjectionRule.injections).foldl (valuesStep crates name) values

/-- No injection of the rules rewrites the path. -/
def KeepsPath (path : Str) (rules : List InjectionRule) : Prop :=
  ∀ rule ∈ rules, ∀ injection ∈ rule.injections, rewritePath crates path injection = some path

instance (path : Str) (rules : List InjectionRule) : Decidable (KeepsPath crates path rules) :=
  inferInstanceAs (Decidable (∀ rule ∈ rules, ∀ injection ∈ rule.injections, rewritePath crates path injection = some path))

variable {crates}

theorem running_of_keepsPath {path : Str} {rules : List InjectionRule} (h : KeepsPath crates path rules) :
    running crates rules path = (applicable path rules).map fun ran => (ran, path) := by
  induction rules with
  | nil => rfl
  | cons rule rules ih =>
    obtain ⟨hrule, hrules⟩ := forall_mem_cons.1 h
    have hkeeps {injections : List Injection} (h : ∀ inj ∈ injections, rewritePath crates path inj = some path) :
        injections.foldlM (rewritePath crates) path = some path := by
      induction injections with
      | nil => rfl
      | cons inj injections ih =>
        rw [foldlM_cons, h inj mem_cons_self]
        exact ih fun other hother => h other (mem_cons_of_mem _ hother)
    rw [running, applicable]
    cases pathMatches path rule.pathPattern with
    | none => rfl
    | some applies =>
      cases applies with
      | false => exact ih hrules
      | true => simp [hkeeps hrule, ih hrules, comp_def]

theorem HeaderMap.valuesOf_remove (headers : HeaderMap) (removed name : Str) :
    (headers.remove removed).valuesOf name = if removed = name then [] else headers.valuesOf name := by
  unfold valuesOf remove
  rw [filter_filter]
  split
  · rename_i heq
    simp [heq]
  · rename_i hne
    refine congrArg _ (filter_congr fun header _ => ?_)
    by_cases hname : header.1 = name <;> simp [hname, Ne.symm hne]

theorem HeaderMap.valuesOf_insert (headers : HeaderMap) (inserted value name : Str) :
    (headers.insert inserted value).valuesOf name = if inserted = name then [value] else headers.valuesOf name := by
  have hremove := headers.valuesOf_remove inserted name
  unfold valuesOf at hremove ⊢
  rw [insert]
  by_cases h : inserted = name
  · subst h
    simp [hremove]
  · simp [h, hremove]

theorem HeaderMap.containsKey_eq_false_iff (headers : HeaderMap) (name : Str) :
    headers.containsKey name = false ↔ headers.valuesOf name = [] := by
  simp [containsKey, valuesOf]

theorem valuesOf_headerStep (carried : HeaderMap × List Str) (inj : Injection) (name : Str) :
    (headerStep crates carried inj).1.valuesOf name = valuesStep crates name (carried.1.valuesOf name) inj := by
  unfold headerStep valuesStep
  cases inj.headerOp crates with
  | none => rfl
  | some op =>
    obtain ⟨kind, opName, value⟩ := op
    cases kind with
    | set => by_cases h : opName = name <;> simp [HeaderOp.apply, HeaderMap.valuesOf_insert, h]
    | remove => by_cases h : opName = name <;> simp [HeaderOp.apply, HeaderMap.valuesOf_remove, h]
    | replace =>
      simp only [HeaderOp.apply]
      cases hkey : carried.1.containsKey opName with
      | false =>
        by_cases h : opName = name
        · simp [h, (carried.1.containsKey_eq_false_iff name).1 (h ▸ hkey)]
        · simp [h]
      | true =>
        by_cases h : opName = name
        · have hne : carried.1.valuesOf name ≠ [] := by
            rw [Ne, ← HeaderMap.containsKey_eq_false_iff, ← h, hkey]
            decide
          simp [HeaderMap.valuesOf_insert, h, hne]
        · simp [HeaderMap.valuesOf_insert, h]

/-- Headers after the rules are set in their order. -/
theorem valuesOf_applyInjections {headers : HeaderMap} {path : Str} {rules : List InjectionRule} (name : Str)
    (h : KeepsPath crates path rules) :
    (applyInjections crates headers path rules).map (·.headers.valuesOf name) =
      (applicable path rules).map (valuesAfter crates name (headers.valuesOf name)) := by
  have hview : (applyInjections crates headers path rules).map Applied.view = _ := applyRules_view rules _
  rw [running_of_keepsPath h, Option.map_map] at hview
  have hvalues := congrArg (Option.map fun view => view.2.1.valuesOf name) hview
  rw [Option.map_map, Option.map_map] at hvalues
  refine hvalues.trans (congrArg (Option.map · _) (funext fun ran => ?_))
  have htrace : (traceOf ran).map Prod.snd = ran.flatMap InjectionRule.injections := by
    simp [traceOf, map_flatMap, comp_def]
  simp only [comp, htrace, valuesAfter]
  exact (foldl_hom (·.1.valuesOf name) fun carried inj =>
    (valuesOf_headerStep carried inj name).symm).symm

/-- The classes of two lists that both hold a rule, from the lowest to the highest. -/
def classes (appRules secretRules : List InjectionRule) : List (List InjectionRule) :=
  [appRules.filter (isCatchAllPattern ·.pathPattern), secretRules.filter (isCatchAllPattern ·.pathPattern),
    appRules.filter (!isCatchAllPattern ·.pathPattern), secretRules.filter (!isCatchAllPattern ·.pathPattern)]

/-- The value that the highest class with a value for the header sets last. -/
def highestSet (crates : Crates) (name : Str) (classes : List (List InjectionRule)) : Option Str :=
  classes.reverse.findSome? fun rules => ((rules.flatMap InjectionRule.injections).filterMap fun injection =>
    match injection.headerOp crates with
    | some ⟨.set, opName, value⟩ => if opName = name then some value else none
    | _ => none).getLast?

/-- After the merge a header holds what the operations on it leave, class by class; a lone list is applied as it stands. -/
theorem merge_precedence (appRules secretRules : List InjectionRule) (headers : HeaderMap) (path name : Str)
    (h : KeepsPath crates path (appRules ++ secretRules)) :
    (appRules ≠ [] → secretRules ≠ [] →
      (applyInjections crates headers path (mergeInjectionRules appRules secretRules)).map (·.headers.valuesOf name) =
        (applicable path (classes appRules secretRules).flatten).map (valuesAfter crates name (headers.valuesOf name))) ∧
    (appRules = [] → applyInjections crates headers path (mergeInjectionRules appRules secretRules) =
      applyInjections crates headers path secretRules) ∧
    (secretRules = [] → applyInjections crates headers path (mergeInjectionRules appRules secretRules) =
      applyInjections crates headers path appRules) := by
  refine ⟨fun happ hsecret => ?_, ?_, ?_⟩
  · have hmerge : mergeInjectionRules appRules secretRules = (classes appRules secretRules).flatten := by
      simp [mergeInjectionRules, classes, happ, hsecret, partition_eq_filter_filter, comp_def]
    rw [hmerge]
    refine valuesOf_applyInjections name fun rule hrule => h rule ?_
    simp only [classes, flatten_cons, flatten_nil, append_nil, mem_append, mem_filter] at hrule
    rw [mem_append]
    tauto
  · rintro rfl
    rfl
  · rintro rfl
    cases appRules <;> rfl

/-- The header has the value that the highest class sets last, for app rules of a kind. -/
def HighestSets (kind : List InjectionRule → Prop) : Prop :=
  ∀ (crates : Crates) (appRules secretRules : List InjectionRule) (headers : HeaderMap) (path name : Str),
    kind appRules → secretRules ≠ [] → KeepsPath crates path (appRules ++ secretRules) →
      (∀ rule ∈ appRules ++ secretRules, pathMatches path rule.pathPattern = some true) →
      ∀ value, highestSet crates name (classes appRules secretRules) = some value →
        (applyInjections crates headers path (mergeInjectionRules appRules secretRules)).map
          (·.headers.valuesOf name) = some [value]

/-- Neither ranking of paths is by the highest pattern alone. -/
theorem not_highestSets : ¬ HighestSets (· ≠ []) ∧ ¬ HighestSets (· = []) := by
  constructor <;> intro h
  · exact absurd (h plainCrates [⟨"*".toList, [.setHeader "x-key".toList "a".toList]⟩]
      [⟨"/v1/*".toList, [.removeHeader "x-key".toList]⟩] [] "/v1/x".toList "x-key".toList (cons_ne_nil _ _)
      (cons_ne_nil _ _) (by decide) (by decide +kernel) "a".toList rfl) (by decide +kernel)
  · exact absurd (h plainCrates [] [⟨"/v1/*".toList, [.setHeader "x-key".toList "a".toList]⟩,
      ⟨"*".toList, [.setHeader "x-key".toList "b".toList]⟩] [] "/v1/x".toList "x-key".toList rfl
      (cons_ne_nil _ _) (by decide) (by decide +kernel) "a".toList rfl) (by decide +kernel)

/-- The specific rule's header wins over the global one. -/
theorem merge_precedence_specific :
    (applyInjections plainCrates [] "/v1/x".toList (mergeInjectionRules [⟨"/v1/*".toList,
      [.setHeader "x-key".toList "a".toList]⟩] [⟨"*".toList, [.setHeader "x-key".toList "b".toList]⟩])).map
        (·.headers.valuesOf "x-key".toList) = some ["a".toList] :=
  ((merge_precedence [⟨"/v1/*".toList, [.setHeader "x-key".toList "a".toList]⟩]
    [⟨"*".toList, [.setHeader "x-key".toList "b".toList]⟩] [] "/v1/x".toList "x-key".toList (by decide)).1
      (cons_ne_nil _ _) (cons_ne_nil _ _)).trans (by decide +kernel)

/-! ## The choice between secrets

`disambiguate_secret_rules` of `secret_choice.rs`. It works at indices of the rules, collects the candidates of each slot
and drops the losers in a second pass. What it decides depends on the candidates of a slot only as a set.
-/

open Gateway (Str pathMatches toAsciiLowercase)
open Option Prod

/-- `SecretRef`. -/
structure SecretRef where
  id : Str
  name : Str
  scope : Str

/-- An `InjectionRule` with the secret that it came from. -/
structure TaggedRule extends InjectionRule where
  secret : Option SecretRef

/-- `Slot`. -/
inductive Slot where
  | header (name : Str)
  | param (name : Str)
  | path
  deriving DecidableEq

/-- `SecretDisambiguation`. -/
inductive SecretDisambiguation where
  | resolved (rules : List TaggedRule)
  | ambiguous (secrets : List SecretRef)

/-- `slots_of`. -/
def slotsOf (rule : TaggedRule) : List Slot := rule.injections.filterMap fun
  | .setHeader name _ | .replaceHeader name _ => some (.header (toAsciiLowercase name))
  | .setParam name _ => some (.param name)
  | .setPath .. | .replacePathRegex .. => some .path
  | .removeHeader _ => none

/-- `specificity`, compared in order. -/
def specificity (pattern : Str) : ℕ ×ₗ ℕ :=
  if isCatchAllPattern pattern then toLex (0, 0)
  else toLex (1 + (if '*' ∈ pattern then 0 else 1), (pattern.filter (· ≠ '*')).length)

/-- A rule at its index. -/
abbrev Member := TaggedRule × ℕ

/-- The rule is tagged and serves the path. -/
def TaggedRule.serves (path : Str) (rule : TaggedRule) : Bool :=
  rule.secret.isSome && pathMatches path rule.pathPattern == some true

/-- The secret is not one of the organization. -/
def TaggedRule.ofWorkspace (rule : TaggedRule) : Bool := rule.secret.any (·.scope ≠ "organization".toList)

/-- The pin names the secret of the rule. -/
def TaggedRule.pinned (pin : Option Str) (rule : TaggedRule) : Bool := pin.any fun p => rule.secret.any (·.id = p)

/-- A rule enters a slot: the slot's members grow, or the slot is new. -/
def pushMember (m : Member) (slots : List (Slot × List Member)) (slot : Slot) : List (Slot × List Member) :=
  if slots.any (·.1 = slot) then
    slots.map fun entry =>
      if entry.1 = slot ∧ ¬ entry.2.any (·.2 = m.2) then (entry.1, entry.2 ++ [m]) else entry
  else slots ++ [(slot, [m])]

/-- The slots of the candidates, with their members. -/
def slotsWithMembers (candidates : List Member) : List (Slot × List Member) :=
  candidates.foldl (fun slots m => (slotsOf m.1).foldl (pushMember m) slots) []

/-- `winners` of a slot. -/
def winnersOf (pin : Option Str) (members : List Member) : List Member :=
  let pinned := members.filter (·.1.pinned pin)
  if pinned.isEmpty then
    let hasWorkspace := members.any (·.1.ofWorkspace)
    let inScope := members.filter fun m => !hasWorkspace || m.1.ofWorkspace
    let best := (inScope.map fun m => specificity m.1.pathPattern).maximum
    inScope.filter fun m => best = specificity m.1.pathPattern
  else pinned

/-- The loop over the slots: the indices that are dropped, or the secrets that are left over. -/
def dropLosers (pin : Option Str) : List (Slot × List Member) → Except (List SecretRef) (List ℕ)
  | [] => .ok []
  | (_, members) :: slots =>
    if members.length < 2 then dropLosers pin slots
    else
      let winners := winnersOf pin members
      if 2 ≤ winners.length then .error (winners.filterMap (·.1.secret))
      else (dropLosers pin slots).map fun dropped =>
        (members.map snd).filter (fun i => !winners.any (·.2 = i)) ++ dropped

/-- `disambiguate_secret_rules`. -/
def disambiguateSecretRules (rules : List TaggedRule) (requestPath pin : Option Str) : Option SecretDisambiguation :=
  match requestPath with
  | none => some (.resolved rules)
  | some path =>
    if rules.any fun rule => (pathMatches path rule.pathPattern).isNone then none
    else
      match dropLosers pin (slotsWithMembers (rules.zipIdx.filter (·.1.serves path))) with
      | .error secrets => some (.ambiguous secrets)
      | .ok dropped => some (.resolved ((rules.zipIdx.filter fun m => m.2 ∉ dropped).map fst))

/-! ## What is chosen -/

section Choice

variable (path : Str) (pin : Option Str) (rules : List TaggedRule) (slot : Slot)

/-- The tagged rules that serve the path in a slot. -/
def servingIn : List TaggedRule := rules.filter fun rule => rule.serves path ∧ slot ∈ slotsOf rule

/-- Workspace over organization, then by path specificity. -/
def TaggedRule.rank (rule : TaggedRule) : ℕ ×ₗ ℕ ×ₗ ℕ :=
  toLex (if rule.ofWorkspace then 1 else 0, specificity rule.pathPattern)

/-- The rule is pinned, or maximal where none of the slot is pinned. -/
def wins (members : List TaggedRule) (rule : TaggedRule) : Bool :=
  if members.any (·.pinned pin) then rule.pinned pin else members.all (·.rank ≤ rule.rank)

/-- The winners of a slot. -/
def slotWinners : List TaggedRule := (servingIn path rules slot).filter (wins pin (servingIn path rules slot))

end Choice

variable {path : Str} {pin : Option Str} {rules : List TaggedRule}

/-- A workspace's rule ranks first, then the more specific one. -/
theorem rank_le_iff (a b : TaggedRule) : a.rank ≤ b.rank ↔
    (a.ofWorkspace = true → b.ofWorkspace = true) ∧
      (a.ofWorkspace = b.ofWorkspace → specificity a.pathPattern ≤ specificity b.pathPattern) := by
  unfold TaggedRule.rank
  rw [Prod.Lex.toLex_le_toLex]
  cases a.ofWorkspace <;> cases b.ofWorkspace <;> simp

/-- Winners by their test. -/
theorem winnersOf_eq (pin : Option Str) (members : List Member) :
    winnersOf pin members = members.filter fun m => wins pin (members.map fst) m.1 := by
  unfold winnersOf wins
  cases hpinned : members.any (·.1.pinned pin) with
  | true =>
    have hsome : (members.filter (·.1.pinned pin)).isEmpty = false := by simpa using hpinned
    simp only [hsome, List.any_map, Function.comp_def, hpinned, if_true, Bool.false_eq_true, if_false]
  | false =>
    have hnone : (members.filter (·.1.pinned pin)).isEmpty = true := by simpa using hpinned
    simp only [hnone, List.any_map, Function.comp_def, hpinned, if_true, Bool.false_eq_true, if_false, List.filter_filter]
    refine filter_congr fun m hm => ?_
    rw [Bool.eq_iff_iff]
    simp only [Bool.and_eq_true, decide_eq_true_eq, maximum_eq_coe_iff, List.all_map, List.all_eq_true,
      Function.comp_def, List.forall_mem_map, rank_le_iff, mem_filter, and_imp]
    cases hany : members.any (·.1.ofWorkspace) with
    | false =>
      have hnone : ∀ o ∈ members, o.1.ofWorkspace = false := by simpa using hany
      simp only [Bool.not_false, Bool.true_or, and_true, forall_const]
      refine ⟨fun hbest o ho => ⟨fun hw => by simp [hnone o ho] at hw, fun _ => hbest.2 o ho⟩, fun hrank => ⟨?_, fun o ho => ?_⟩⟩
      · exact List.mem_map.2 ⟨m, mem_filter.2 ⟨hm, rfl⟩, rfl⟩
      · exact (hrank o ho).2 ((hnone o ho).trans (hnone m hm).symm)
    | true =>
      obtain ⟨x, hx, hwx⟩ := List.any_eq_true.1 hany
      refine ⟨fun hbest o ho => ⟨fun _ => hbest.2, fun heq => hbest.1.2 o ho (heq.trans hbest.2)⟩, fun hrank => ?_⟩
      have hw := (hrank x hx).1 hwx
      exact ⟨⟨List.mem_map.2 ⟨m, mem_filter.2 ⟨hm, hw⟩, rfl⟩, fun o ho hwo => (hrank o ho).2 (hwo.trans hw.symm)⟩, hw⟩
/-- Every slot that has members is there, with its members. -/
def Tracks (members : Slot → List Member) (slots : List (Slot × List Member)) : Prop :=
  (∀ entry ∈ slots, entry.2 = members entry.1) ∧ ∀ s, members s ≠ [] → ∃ entry ∈ slots, entry.1 = s

theorem Tracks.pushMember {members : Slot → List Member} {slots : List (Slot × List Member)} (h : Tracks members slots)
    (m : Member) (slot : Slot) :
    Tracks (fun s => if s = slot ∧ ¬ (members s).any (·.2 = m.2) then members s ++ [m] else members s)
      (pushMember m slots slot) := by
  unfold Inject.pushMember
  split <;> rename_i hslots
  · refine ⟨fun entry hentry => ?_, fun s hs => ?_⟩
    · obtain ⟨⟨old, ms⟩, hold, rfl⟩ := List.mem_map.1 hentry
      obtain rfl : ms = members old := h.1 _ hold
      dsimp only
      split <;> simp_all
    · have hsome : ∃ entry ∈ slots, entry.1 = s := by
        by_cases hslot : s = slot
        · simpa [hslot] using hslots
        · exact h.2 s (by simpa [hslot] using hs)
      obtain ⟨entry, hentry, rfl⟩ := hsome
      exact ⟨_, List.mem_map_of_mem hentry, by split <;> rfl⟩
  · have hnew : members slot = [] := by
      by_contra hne
      obtain ⟨entry, hentry, heq⟩ := h.2 slot hne
      exact hslots (List.any_eq_true.2 ⟨entry, hentry, decide_eq_true heq⟩)
    refine ⟨fun entry hentry => ?_, fun s hs => ?_⟩
    · rcases mem_append.1 hentry with hmem | hmem
      · have hne : entry.1 ≠ slot := fun heq => hslots (List.any_eq_true.2 ⟨entry, hmem, decide_eq_true heq⟩)
        simp [hne, h.1 entry hmem]
      · rw [mem_singleton.1 hmem]
        simp [hnew]
    · by_cases hslot : s = slot
      · exact ⟨_, mem_append_right _ (mem_singleton_self _), hslot.symm⟩
      · obtain ⟨entry, hentry, heq⟩ := h.2 s (by simpa [hslot] using hs)
        exact ⟨entry, mem_append_left _ hentry, heq⟩

theorem Tracks.foldl {members : Slot → List Member} {m : Member} (hnew : ∀ s, ∀ o ∈ members s, o.2 ≠ m.2)
    (slotList done : List Slot) {slots : List (Slot × List Member)}
    (h : Tracks (fun s => if s ∈ done then members s ++ [m] else members s) slots) :
    Tracks (fun s => if s ∈ done ++ slotList then members s ++ [m] else members s)
      (slotList.foldl (Inject.pushMember m) slots) := by
  induction slotList generalizing done slots with
  | nil => simpa using h
  | cons slot slotList ih =>
    rw [append_cons]
    refine ih (done ++ [slot]) ?_
    convert h.pushMember m slot using 2 with s
    have hany : (members s).any (·.2 = m.2) = false := by simpa using hnew s
    by_cases hs : s = slot
    · by_cases hdone : s ∈ done <;> simp [hdone, hany]
    · simp [hs]

theorem tracks_slotsWithMembers {candidates : List Member} (h : candidates.Pairwise fun a b => a.2 ≠ b.2) :
    Tracks (fun s => candidates.filter fun m => s ∈ slotsOf m.1) (slotsWithMembers candidates) := by
  induction candidates using List.reverseRecOn with
  | nil => exact ⟨nofun, fun s hs => absurd rfl hs⟩
  | append_singleton candidates m ih =>
    rw [pairwise_append] at h
    have hfold : slotsWithMembers (candidates ++ [m]) =
        (slotsOf m.1).foldl (pushMember m) (slotsWithMembers candidates) := foldl_concat ..
    have hstep := Tracks.foldl (m := m) (fun s o ho => h.2.2 o (mem_of_mem_filter ho) m (mem_singleton_self m))
      (slotsOf m.1) [] (by simpa using ih h.1)
    convert hstep using 2 with s
    by_cases hs : s ∈ slotsOf m.1 <;> simp [hs]

/-- What `dropLosers` drops. -/
theorem dropLosers_spec (pin : Option Str) (slots : List (Slot × List Member)) :
    (∃ entry ∈ slots, 2 ≤ (winnersOf pin entry.2).length ∧
      dropLosers pin slots = .error ((winnersOf pin entry.2).filterMap (·.1.secret))) ∨
    (∀ entry ∈ slots, (winnersOf pin entry.2).length < 2) ∧ ∃ dropped, dropLosers pin slots = .ok dropped ∧
      ∀ i, i ∈ dropped ↔ ∃ entry ∈ slots, 2 ≤ entry.2.length ∧
        (∃ m ∈ entry.2, m.2 = i) ∧ ∀ w ∈ winnersOf pin entry.2, w.2 ≠ i := by
  induction slots with
  | nil => exact .inr ⟨nofun, [], rfl, by simp⟩
  | cons entry slots ih =>
    have hle : (winnersOf pin entry.2).length ≤ entry.2.length := winnersOf_eq pin entry.2 ▸ length_filter_le _ _
    obtain ⟨slot, members⟩ := entry
    unfold dropLosers
    by_cases hfew : members.length < 2
    · rw [if_pos hfew]
      rcases ih with ⟨entry, hentry, htwo, herror⟩ | ⟨hall, dropped, hok, hdropped⟩
      · exact .inl ⟨entry, mem_cons_of_mem _ hentry, htwo, herror⟩
      · refine .inr ⟨forall_mem_cons.2 ⟨hle.trans_lt hfew, hall⟩, dropped, hok, fun i => ?_⟩
        rw [hdropped, exists_mem_cons_iff, or_iff_right fun h => hfew.not_ge h.1]
    · rw [if_neg hfew]
      by_cases htwo : 2 ≤ (winnersOf pin members).length
      · exact .inl ⟨_, mem_cons_self, htwo, if_pos htwo⟩
      · rw [if_neg htwo]
        rcases ih with ⟨entry, hentry, htwo', herror⟩ | ⟨hall, dropped, hok, hdropped⟩
        · exact .inl ⟨entry, mem_cons_of_mem _ hentry, htwo', by rw [herror]; rfl⟩
        · refine .inr ⟨forall_mem_cons.2 ⟨not_le.1 htwo, hall⟩, _, by rw [hok]; rfl, fun i => ?_⟩
          rw [mem_append, hdropped]
          simp [not_lt.1 hfew]

theorem map_fst_filter (q : TaggedRule → Bool) (members : List Member) :
    (members.filter (q ·.1)).map fst = (members.map fst).filter q := List.filter_map.symm

variable (path pin rules)

/-- The rule is no candidate, or wins in each of its slots. -/
def keeps (rule : TaggedRule) : Bool :=
  !(rule.serves path && (slotsOf rule).any fun slot => !wins pin (servingIn path rules slot) rule)

/-- The candidates of a slot. -/
def candidatesIn (slot : Slot) : List Member :=
  (rules.zipIdx.filter (·.1.serves path)).filter fun m => slot ∈ slotsOf m.1

theorem map_fst_candidatesIn (slot : Slot) : (candidatesIn path rules slot).map fst = servingIn path rules slot := by
  rw [candidatesIn, map_fst_filter (slot ∈ slotsOf ·), map_fst_filter, zipIdx_map_fst, servingIn]
  simp [and_comm]

theorem map_fst_winnersOf (slot : Slot) :
    (winnersOf pin (candidatesIn path rules slot)).map fst = slotWinners path pin rules slot := by
  rw [winnersOf_eq, map_fst_filter, map_fst_candidatesIn, slotWinners]

theorem wins_singleton (rule : TaggedRule) : wins pin [rule] rule = true := by
  unfold wins
  cases h : rule.pinned pin <;> simp [h]

/-- Rules are ambiguous where a slot has two winners; else the losers go. -/
theorem disambiguate_eq (hreads : ∀ rule ∈ rules, (pathMatches path rule.pathPattern).isSome) :
    (∃ slot, 2 ≤ (slotWinners path pin rules slot).length ∧ disambiguateSecretRules rules (some path) pin =
      some (.ambiguous ((slotWinners path pin rules slot).filterMap (·.secret)))) ∨
    (∀ slot, (slotWinners path pin rules slot).length < 2) ∧ disambiguateSecretRules rules (some path) pin =
      some (.resolved (rules.filter (keeps path pin rules))) := by
  have hsnd : (rules.zipIdx.map snd).Nodup := by
    rw [zipIdx_map_snd]
    exact List.nodup_range'
  have htracks : Tracks (candidatesIn path rules) _ := tracks_slotsWithMembers ((pairwise_map.1 hsnd).filter _)
  have hno : (rules.any fun rule => (pathMatches path rule.pathPattern).isNone) = false := by
    simpa [isSome_iff_ne_none] using hreads
  have hlength (slot : Slot) :
      (winnersOf pin (candidatesIn path rules slot)).length = (slotWinners path pin rules slot).length := by
    rw [← map_fst_winnersOf, length_map]
  simp only [disambiguateSecretRules, hno, Bool.false_eq_true, if_false]
  rcases dropLosers_spec pin (slotsWithMembers (rules.zipIdx.filter (·.1.serves path))) with
    ⟨entry, hentry, htwo, herror⟩ | ⟨hall, dropped, hok, hdropped⟩
  · rw [htracks.1 entry hentry] at htwo herror
    refine .inl ⟨entry.1, hlength entry.1 ▸ htwo, ?_⟩
    rw [herror, ← map_fst_winnersOf, filterMap_map]
    rfl
  · refine .inr ⟨fun slot => ?_, ?_⟩
    · rw [← hlength]
      by_cases hslot : candidatesIn path rules slot = []
      · rw [hslot]
        exact Nat.zero_lt_two
      · obtain ⟨entry, hentry, rfl⟩ := htracks.2 slot hslot
        exact htracks.1 entry hentry ▸ hall entry hentry
    · rw [hok]
      have hkept : (rules.zipIdx.filter fun m => m.2 ∉ dropped) = rules.zipIdx.filter (keeps path pin rules ·.1) := by
        refine filter_congr fun m hm => ?_
        have hsame {o : Member} {slot : Slot} (ho : o ∈ candidatesIn path rules slot) (heq : o.2 = m.2) : o = m :=
          inj_on_of_nodup_map hsnd (mem_of_mem_filter (mem_of_mem_filter ho)) hm heq
        have hmem (slot : Slot) : m ∈ candidatesIn path rules slot ↔ m.1.serves path = true ∧ slot ∈ slotsOf m.1 := by
          simp [candidatesIn, hm, and_comm]
        have hwins (slot : Slot) : m ∈ winnersOf pin (candidatesIn path rules slot) ↔
            m ∈ candidatesIn path rules slot ∧ wins pin (servingIn path rules slot) m.1 = true := by
          rw [winnersOf_eq, mem_filter, map_fst_candidatesIn]
        have hlost : m.2 ∈ dropped ↔ keeps path pin rules m.1 = false := by
          rw [hdropped, keeps, Bool.not_eq_false', Bool.and_eq_true, List.any_eq_true]
          constructor
          · rintro ⟨entry, hentry, -, ⟨o, ho, heq⟩, hlose⟩
            rw [htracks.1 entry hentry] at ho hlose
            cases hsame ho heq
            refine ⟨((hmem _).1 ho).1, entry.1, ((hmem _).1 ho).2, ?_⟩
            rw [Bool.not_eq_true', Bool.eq_false_iff]
            exact fun hwin => hlose m ((hwins _).2 ⟨ho, hwin⟩) rfl
          · rintro ⟨hserves, slot, hslot, hlose⟩
            have ho := (hmem slot).2 ⟨hserves, hslot⟩
            obtain ⟨entry, hentry, rfl⟩ := htracks.2 slot (ne_nil_of_mem ho)
            refine ⟨entry, hentry, ?_, ⟨m, htracks.1 entry hentry ▸ ho, rfl⟩, fun w hw heq => ?_⟩
            · rw [htracks.1 entry hentry]
              by_contra hfew
              obtain ⟨o, hone⟩ := length_eq_one_iff.1
                (le_antisymm (Nat.le_of_lt_succ (not_le.1 hfew)) (length_pos_of_mem ho))
              rw [hone, mem_singleton] at ho
              rw [← map_fst_candidatesIn, hone, ← ho, map_singleton, wins_singleton] at hlose
              cases hlose
            · rw [htracks.1 entry hentry] at hw
              cases hsame (mem_of_mem_filter (winnersOf_eq pin _ ▸ hw)) heq
              rw [((hwins _).1 hw).2] at hlose
              cases hlose
        rw [Bool.eq_iff_iff, decide_eq_true_iff, hlost, Bool.not_eq_false]
      have hrules := map_fst_filter (keeps path pin rules) rules.zipIdx
      rw [← hkept, zipIdx_map_fst] at hrules
      exact congrArg (fun kept => some (SecretDisambiguation.resolved kept)) hrules

variable {path pin rules}

/-- Winners do not depend on the order. -/
theorem slotWinners_perm {rules' : List TaggedRule} (h : rules'.Perm rules) (slot : Slot) :
    (slotWinners path pin rules' slot).Perm (slotWinners path pin rules slot) := by
  have hserving : (servingIn path rules' slot).Perm (servingIn path rules slot) := h.filter _
  have hwins : wins pin (servingIn path rules' slot) = wins pin (servingIn path rules slot) := by
    funext rule
    unfold wins
    rw [hserving.any_eq, hserving.all_eq]
  unfold slotWinners
  rw [hwins]
  exact hserving.filter _

/-- The tagged rules that serve the path have one slot each. -/
def OneSlot (path : Str) (rules : List TaggedRule) : Prop :=
  ∀ rule ∈ rules, rule.serves path → ∃ slot, ∀ s ∈ slotsOf rule, s = slot

/-- What `disambiguateSecretRules` keeps, when it is ambiguous, and that the order of the rules does not matter. -/
theorem disambiguate_spec (hreads : ∀ rule ∈ rules, (pathMatches path rule.pathPattern).isSome)
    (hone : OneSlot path rules) :
    (∀ out, disambiguateSecretRules rules (some path) pin = some (.resolved out) → out.Sublist rules ∧
      out.filter (!·.serves path) = rules.filter (!·.serves path) ∧
      ∀ slot, servingIn path out slot = slotWinners path pin rules slot ∧ (slotWinners path pin rules slot).length ≤ 1) ∧
    ((∃ secrets, disambiguateSecretRules rules (some path) pin = some (.ambiguous secrets)) ↔
      ∃ slot, 2 ≤ (slotWinners path pin rules slot).length) ∧
    ∀ rules' : List TaggedRule, rules'.Perm rules → ∀ slot,
      (slotWinners path pin rules' slot).Perm (slotWinners path pin rules slot) := by
  refine ⟨?_, ?_, fun rules' h slot => slotWinners_perm h slot⟩
  · intro out hout
    rcases disambiguate_eq path pin rules hreads with ⟨slot, -, heq⟩ | ⟨hall, heq⟩ <;> rw [heq] at hout <;> cases hout
    refine ⟨List.filter_sublist, ?_, fun slot => ⟨?_, Nat.le_of_lt_succ (hall slot)⟩⟩
    · rw [List.filter_filter]
      refine List.filter_congr fun rule _ => ?_
      cases h : rule.serves path <;> simp [keeps, h]
    · unfold slotWinners
      generalize hwin : wins pin (servingIn path rules slot) = win
      rw [servingIn, servingIn, List.filter_filter, List.filter_filter]
      refine List.filter_congr fun rule hrule => ?_
      cases hserves : rule.serves path with
      | false => simp
      | true =>
        by_cases hslot : slot ∈ slotsOf rule
        · obtain ⟨only, honly⟩ := hone rule hrule hserves
          have hany : (slotsOf rule).any (fun s => !wins pin (servingIn path rules s) rule) = !win rule := by
            rw [← hwin, Bool.eq_iff_iff, List.any_eq_true]
            refine ⟨fun ⟨s, hs, hlose⟩ => ?_, fun hlose => ⟨slot, hslot, hlose⟩⟩
            rwa [honly slot hslot, ← honly s hs]
          simp only [keeps, hserves, hany, hslot, and_self, decide_true, Bool.true_and, Bool.and_true, Bool.not_not]
        · simp [hslot]
  · rcases disambiguate_eq path pin rules hreads with ⟨slot, htwo, heq⟩ | ⟨hall, heq⟩
    · exact iff_of_true ⟨_, heq⟩ ⟨slot, htwo⟩
    · refine iff_of_false ?_ fun ⟨slot, htwo⟩ => (hall slot).not_ge htwo
      rintro ⟨secrets, hambiguous⟩
      rw [heq] at hambiguous
      cases hambiguous

/-- A secret of a workspace that sets one header. -/
def keyRule (id pattern : String) : TaggedRule where
  pathPattern := pattern.toList
  injections := [.setHeader "x-key".toList id.toList]
  secret := some ⟨id.toList, id.toList, "workspace".toList⟩

/-- A specific rule and a global one are not ambiguous. -/
theorem disambiguate_spec_specific :
    ¬ ∃ slot, 2 ≤ (slotWinners "/v1/x".toList none [keyRule "a" "*", keyRule "b" "/v1/*"] slot).length := by
  have hone : OneSlot "/v1/x".toList [keyRule "a" "*", keyRule "b" "/v1/*"] := by
    rintro rule hrule -
    exact ⟨.header "x-key".toList, by revert rule; decide +kernel⟩
  rw [← (disambiguate_spec (by decide +kernel) hone).2.1]
  rintro ⟨secrets, h⟩
  cases h

/-- A pin on an id that two rules have leaves them ambiguous. -/
theorem ambiguous_pinned : ¬ ∀ (path : Str) (pin : Option Str) (rules : List TaggedRule),
    (∀ rule ∈ rules, (pathMatches path rule.pathPattern).isSome) → OneSlot path rules →
      ((∃ secrets, disambiguateSecretRules rules (some path) pin = some (.ambiguous secrets)) ↔
        ∃ slot, (∀ rule ∈ servingIn path rules slot, rule.pinned pin = false) ∧
          2 ≤ (slotWinners path pin rules slot).length) := by
  intro h
  have hone : OneSlot "/".toList [keyRule "a" "*", keyRule "a" "*"] := by
    rintro rule hrule -
    exact ⟨.header "x-key".toList, by revert rule; decide +kernel⟩
  obtain ⟨slot, hpinned, htwo⟩ := (h "/".toList (some "a".toList) _ (by decide +kernel) hone).1 ⟨_, rfl⟩
  obtain ⟨winner, hwinner⟩ := List.exists_mem_of_length_pos (Nat.zero_lt_two.trans_le htwo)
  have hserving := List.mem_of_mem_filter hwinner
  have hall : ∀ rule ∈ [keyRule "a" "*", keyRule "a" "*"], rule.pinned (some "a".toList) = true := by decide
  exact Bool.false_ne_true ((hpinned winner hserving).symm.trans (hall winner (List.mem_of_mem_filter hserving)))

end Onecli.Inject
