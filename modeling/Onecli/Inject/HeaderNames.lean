import Onecli.Inject.Rules

/-!
# The headers that injection sets

`injected_header_names` answers for the path that a request arrived with. `apply_injections` tests each rule against the
path as the rules before it left it, so a rule may run that the names leave out. The names agree with what was injected
exactly when each header that such a rule sets, and no later one removes, is set by a rule for the arrived path as well.
-/

namespace Onecli.Inject

open Gateway (Str pathMatches EndsInAscii pathMatches_eq pathMatchesAnswer)
open List

variable (crates : Crates)

section Traces

/-- What an injection does to the path. -/
def rewritePath (path : Str) : Injection → Option Str
  | .setParam name value => applySetParam crates path name value
  | .setPath template value => some ((applySetPath path template value).getD path)
  | .replacePathRegex pattern replacement value =>
    some ((applyReplacePathRegex crates path pattern replacement value).getD path)
  | _ => some path

/-- The rules that run, each on the path as the rules before it left it, and the path after them. -/
def running : List InjectionRule → Str → Option (List InjectionRule × Str)
  | [], path => some ([], path)
  | rule :: rules, path => do
    if ← pathMatches path rule.pathPattern then
      let rewritten ← rule.injections.foldlM (rewritePath crates) path
      (running rules rewritten).map fun ran => (rule :: ran.1, ran.2)
    else running rules path

/-- The injections of the rules that run, in order. -/
def traceOf (ran : List InjectionRule) : List (InjectionRule × Injection) :=
  ran.flatMap fun rule => rule.injections.map fun injection => (rule, injection)

/-- The three ways to change a header. -/
inductive HeaderOpKind where
  | set
  | replace
  | remove
  deriving DecidableEq

/-- What an injection with a valid name and value does to the headers; a removal has no value. -/
structure HeaderOp where
  kind : HeaderOpKind
  name : Str
  value : Str

/-- The operation of an injection on the headers, if it has one. -/
def Injection.headerOp : Injection → Option HeaderOp
  | .setHeader name value =>
    match crates.headerName name, crates.headerValue value with
    | some headerName, some headerValue => some ⟨.set, headerName, headerValue⟩
    | _, _ => none
  | .replaceHeader name value =>
    match crates.headerName name, crates.headerValue value with
    | some headerName, some headerValue => some ⟨.replace, headerName, headerValue⟩
    | _, _ => none
  | .removeHeader name => (crates.headerName name).map fun headerName => ⟨.remove, headerName, []⟩
  | _ => none

/-- The injection changes the header in this way: `set` always, `replace` where the request carries it. -/
def Injection.Does (kind : HeaderOpKind) (name : Str) (injection : Injection) : Prop :=
  ∃ op, injection.headerOp crates = some op ∧ op.kind = kind ∧ op.name = name

/-- In a trace the rule sets the header and no later injection removes it; a header that is only replaced must have been
there from the start. -/
def Stays (headers : HeaderMap) (trace : List (InjectionRule × Injection)) (rule : InjectionRule) (name : Str) : Prop :=
  (∃ before injection after, trace = before ++ (rule, injection) :: after ∧ injection.Does crates .set name ∧
      ∀ later ∈ after, ¬ later.2.Does crates .remove name) ∨
  ((∃ injection, (rule, injection) ∈ trace ∧ injection.Does crates .replace name) ∧
    headers.containsKey name = true ∧ ∀ step ∈ trace, ¬ step.2.Does crates .remove name)

/-- The rule matches the path and sets or replaces the header. -/
def Names (path : Str) (rule : InjectionRule) (name : Str) : Prop :=
  pathMatches path rule.pathPattern = some true ∧
    ∃ injection ∈ rule.injections, injection.headerName crates = some name

/-- A header that a rule sets for good, though the rule matches only the rewritten path, is named for the arrived path. -/
def LateRulesNamed (rules : List InjectionRule) (headers : HeaderMap) (path : Str) : Prop :=
  ∀ ran, running crates rules path = some ran → ∀ rule name, Stays crates headers (traceOf ran.1) rule name →
    pathMatches path rule.pathPattern ≠ some true → ∃ other ∈ rules, Names crates path other name

/-- Every header that is left with an injected value is among the names for the arrived path. -/
def NamesAgree (rules : List InjectionRule) (headers : HeaderMap) (path : Str) : Prop :=
  ∀ st, applyInjections crates headers path rules = some st →
    ∃ names, injectedHeaderNames crates rules path = some names ∧ ∀ name ∈ st.injected, name ∈ names

end Traces

section Effects

variable {crates}

/-- What an operation leaves of the headers and the injected names. -/
def HeaderOp.apply (op : HeaderOp) (carried : HeaderMap × List Str) : HeaderMap × List Str :=
  match op.kind with
  | .set => (carried.1.insert op.name op.value, op.name :: carried.2)
  | .replace =>
    if carried.1.containsKey op.name then (carried.1.insert op.name op.value, op.name :: carried.2) else carried
  | .remove => (carried.1.remove op.name, carried.2.filter (· ≠ op.name))

/-- What an injection leaves of the headers and the injected names. -/
def headerStep (crates : Crates) (carried : HeaderMap × List Str) (injection : Injection) : HeaderMap × List Str :=
  match injection.headerOp crates with
  | none => carried
  | some op => op.apply carried

/-- The path, the headers and the injected names. -/
def Applied.view (st : Applied) : Str × HeaderMap × List Str := (st.requestPath, st.headers, st.injected)

theorem Applied.view_rewrite (st : Applied) (path : Option Str) :
    (st.rewrite path).view = (path.getD st.requestPath, st.headers, st.injected) := by
  cases path with
  | none => rfl
  | some => rfl

theorem applyInjection_view (st : Applied) (injection : Injection) :
    (applyInjection crates st injection).map Applied.view =
      (rewritePath crates st.requestPath injection).map fun path =>
        (path, headerStep crates (st.headers, st.injected) injection) := by
  cases injection with
  | setHeader name value =>
    unfold applyInjection headerStep Injection.headerOp
    dsimp only
    cases crates.headerName name with
    | none => rfl
    | some =>
      cases crates.headerValue value with
      | none => rfl
      | some => rfl
  | replaceHeader name value =>
    unfold applyInjection headerStep Injection.headerOp
    dsimp only
    cases crates.headerName name with
    | none => rfl
    | some =>
      cases crates.headerValue value with
      | none =>
        dsimp only
        split <;> rfl
      | some =>
        unfold HeaderOp.apply
        dsimp only
        split <;> rfl
  | removeHeader name =>
    unfold applyInjection headerStep Injection.headerOp
    dsimp only
    cases crates.headerName name with
    | none => rfl
    | some => rfl
  | setParam =>
    unfold applyInjection rewritePath
    rw [Option.map_map]
    rfl
  | _ => exact congrArg some (st.view_rewrite _)

theorem foldlM_view {S P C I : Type} {step : S → I → Option S} {view : S → P × C} {path : P → I → Option P}
    {carry : C → I → C} (h : ∀ s i, (step s i).map view = (path (view s).1 i).map fun p => (p, carry (view s).2 i))
    (items : List I) (s : S) :
    (items.foldlM step s).map view =
      (items.foldlM path (view s).1).map fun p => (p, items.foldl carry (view s).2) := by
  induction items generalizing s with
  | nil => rfl
  | cons i items ih =>
    rw [foldlM_cons, foldlM_cons, foldl_cons]
    have hstep := h s i
    cases hs : step s i with
    | none =>
      rw [hs] at hstep
      cases hp : path (view s).1 i with
      | none => rfl
      | some =>
        rw [hp] at hstep
        cases hstep
    | some next =>
      rw [hs] at hstep
      cases hp : path (view s).1 i with
      | none =>
        rw [hp] at hstep
        cases hstep
      | some p =>
        rw [hp] at hstep
        have hview : view next = (p, carry (view s).2 i) := Option.some.inj hstep
        change (items.foldlM step next).map view = (items.foldlM path p).map _
        rw [ih next, hview]

theorem map_snd_traceOf_cons (rule : InjectionRule) (ran : List InjectionRule) :
    (traceOf (rule :: ran)).map Prod.snd = rule.injections ++ (traceOf ran).map Prod.snd := by
  unfold traceOf
  rw [flatMap_cons, map_append, map_map]
  exact congrArg (fun injections => injections ++ _) (map_id rule.injections)

/-- Rules are applied header by header. -/
theorem applyRules_view (rules : List InjectionRule) (st : Applied) :
    (rules.foldlM (applyRule crates) st).map Applied.view =
      (running crates rules st.requestPath).map fun ran =>
        (ran.2, ((traceOf ran.1).map Prod.snd).foldl (headerStep crates) (st.headers, st.injected)) := by
  induction rules generalizing st with
  | nil => rfl
  | cons rule rules ih =>
    rw [foldlM_cons]
    unfold running applyRule
    cases hmatch : pathMatches st.requestPath rule.pathPattern with
    | none => rfl
    | some matched =>
      cases matched with
      | false => exact ih st
      | true =>
        have hinjections := foldlM_view (@applyInjection_view crates) rule.injections st
        change ((rule.injections.foldlM (applyInjection crates) st).bind fun next =>
            rules.foldlM (applyRule crates) next).map Applied.view =
          ((rule.injections.foldlM (rewritePath crates) st.requestPath).bind fun rewritten =>
            (running crates rules rewritten).map fun ran => (rule :: ran.1, ran.2)).map _
        cases hnext : rule.injections.foldlM (applyInjection crates) st with
        | none =>
          rw [hnext] at hinjections
          cases hpath : rule.injections.foldlM (rewritePath crates) st.requestPath with
          | none => rfl
          | some =>
            have hcontra := hinjections.trans (congrArg (Option.map _) hpath)
            cases hcontra
        | some next =>
          rw [hnext] at hinjections
          cases hpath : rule.injections.foldlM (rewritePath crates) st.requestPath with
          | none =>
            have hcontra := hinjections.trans (congrArg (Option.map _) hpath)
            cases hcontra
          | some =>
            have hview := Option.some.inj (hinjections.trans (congrArg (Option.map _) hpath))
            obtain ⟨hrequestPath, hcarried⟩ := Prod.mk.inj hview
            rw [Option.bind_some, Option.bind_some, ih next, hrequestPath, hcarried, Option.map_map]
            refine congrArg (fun carry => Option.map carry _) (funext fun ran => ?_)
            change _ = (ran.2, ((traceOf (rule :: ran.1)).map Prod.snd).foldl _ _)
            rw [map_snd_traceOf_cons, foldl_append]
            rfl

end Effects

section Characterization

variable {crates} {name : Str}

theorem HeaderMap.containsKey_insert (headers : HeaderMap) (inserted value name : Str) :
    (headers.insert inserted value).containsKey name = true ↔ inserted = name ∨ headers.containsKey name = true := by
  unfold HeaderMap.containsKey HeaderMap.insert HeaderMap.remove
  simp only [any_cons, Bool.or_eq_true, decide_eq_true_eq, any_eq_true, mem_filter]
  constructor
  · intro h
    cases h with
    | inl heq => exact .inl heq
    | inr hrest =>
      obtain ⟨header, hheader, heq⟩ := hrest
      exact .inr ⟨header, hheader.1, heq⟩
  · intro h
    by_cases heq : inserted = name
    · exact .inl heq
    · obtain ⟨header, hheader, hname⟩ := h.resolve_left heq
      exact .inr ⟨header, ⟨hheader, fun hcontra => heq (hcontra.symm.trans hname)⟩, hname⟩

theorem HeaderMap.containsKey_remove (headers : HeaderMap) (removed name : Str) :
    (headers.remove removed).containsKey name = true ↔ headers.containsKey name = true ∧ removed ≠ name := by
  unfold HeaderMap.containsKey HeaderMap.remove
  simp only [decide_eq_true_eq, any_eq_true, mem_filter]
  constructor
  · intro h
    obtain ⟨header, hheader, hname⟩ := h
    exact ⟨⟨header, hheader.1, hname⟩, fun heq => hheader.2 (hname.trans heq.symm)⟩
  · intro h
    obtain ⟨header, hheader, hname⟩ := h.1
    exact ⟨header, ⟨hheader, fun hcontra => h.2 (hcontra.symm.trans hname)⟩, hname⟩

variable {injection : Injection}

theorem does_iff {op : HeaderOp} (h : injection.headerOp crates = some op) (kind : HeaderOpKind) (name : Str) :
    injection.Does crates kind name ↔ op.kind = kind ∧ op.name = name := by
  unfold Injection.Does
  rw [h]
  constructor
  · intro hdoes
    obtain ⟨other, hother, hkind⟩ := hdoes
    rwa [Option.some.inj hother]
  · exact fun hkind => ⟨op, rfl, hkind⟩

theorem not_does (h : injection.headerOp crates = none) (kind : HeaderOpKind) (name : Str) :
    ¬ injection.Does crates kind name := by
  intro hdoes
  obtain ⟨op, hop, -⟩ := hdoes
  rw [h] at hop
  cases hop

theorem HeaderOp.apply_other {op : HeaderOp} {name : Str} (h : op.name ≠ name) (carried : HeaderMap × List Str) :
    ((op.apply carried).1.containsKey name = true ↔ carried.1.containsKey name = true) ∧
      (name ∈ (op.apply carried).2 ↔ name ∈ carried.2) := by
  have hinsert : (carried.1.insert op.name op.value).containsKey name = true ↔ carried.1.containsKey name = true := by
    rw [HeaderMap.containsKey_insert, or_iff_right h]
  have hcons : name ∈ op.name :: carried.2 ↔ name ∈ carried.2 := by rw [mem_cons, or_iff_right (Ne.symm h)]
  unfold HeaderOp.apply
  cases op.kind with
  | set => exact ⟨hinsert, hcons⟩
  | replace =>
    dsimp only
    split
    · exact ⟨hinsert, hcons⟩
    · exact ⟨Iff.rfl, Iff.rfl⟩
  | remove =>
    rw [HeaderMap.containsKey_remove, and_iff_left h, mem_filter, decide_eq_true_eq, and_iff_left (Ne.symm h)]
    exact ⟨Iff.rfl, Iff.rfl⟩

theorem headerStep_spec (carried : HeaderMap × List Str) (injection : Injection) (name : Str) :
    ((headerStep crates carried injection).1.containsKey name = true ↔
      injection.Does crates .set name ∨ (¬ injection.Does crates .remove name ∧ carried.1.containsKey name = true)) ∧
    (name ∈ (headerStep crates carried injection).2 ↔
      injection.Does crates .set name ∨ (¬ injection.Does crates .remove name ∧
        (name ∈ carried.2 ∨ (injection.Does crates .replace name ∧ carried.1.containsKey name = true)))) := by
  unfold headerStep
  cases hop : injection.headerOp crates with
  | none => simp [not_does hop]
  | some op =>
    simp only [does_iff hop]
    by_cases hname : op.name = name
    · unfold HeaderOp.apply
      cases op.kind with
      | set => simp [hname, HeaderMap.containsKey_insert]
      | replace =>
        dsimp only
        rw [hname]
        split
        · next hcarried => simp [hcarried, HeaderMap.containsKey_insert]
        · next hcarried => simp [hcarried]
      | remove => simp [hname, HeaderMap.containsKey_remove]
    · obtain ⟨hkey, hmem⟩ := op.apply_other hname carried
      simp [hname, hkey, hmem]

theorem exists_split_cons {A : Type} {P : A → List A → Prop} {x : A} {items : List A} :
    (∃ before y after, x :: items = before ++ y :: after ∧ P y after) ↔
      P x items ∨ ∃ before y after, items = before ++ y :: after ∧ P y after := by
  constructor
  · intro h
    obtain ⟨before, y, after, heq, hP⟩ := h
    cases before with
    | nil =>
      cases heq
      exact .inl hP
    | cons first before => exact .inr ⟨before, y, after, (List.cons.inj heq).2, hP⟩
  · intro h
    cases h with
    | inl hP => exact ⟨[], x, items, rfl, hP⟩
    | inr h =>
      obtain ⟨before, y, after, rfl, hP⟩ := h
      exact ⟨x :: before, y, after, rfl, hP⟩

theorem left_injected_iff {later kept sets removes injected replaces replacesLater carried : Prop} :
    later ∨ kept ∧ ((sets ∨ ¬ removes ∧ (injected ∨ replaces ∧ carried)) ∨
        replacesLater ∧ (sets ∨ ¬ removes ∧ carried)) ↔
      (sets ∧ kept ∨ later) ∨ (¬ removes ∧ kept) ∧ (injected ∨ (replaces ∨ replacesLater) ∧ carried) := by
  tauto

/-- Which names are injected. -/
theorem mem_injected_iff (injections : List Injection) (carried : HeaderMap × List Str) (name : Str) :
    name ∈ (injections.foldl (headerStep crates) carried).2 ↔
      (∃ before injection after, injections = before ++ injection :: after ∧
        (injection.Does crates .set name ∧ ∀ later ∈ after, ¬ later.Does crates .remove name)) ∨
      ((∀ step ∈ injections, ¬ step.Does crates .remove name) ∧
        (name ∈ carried.2 ∨ ((∃ step ∈ injections, step.Does crates .replace name) ∧
          carried.1.containsKey name = true))) := by
  induction injections generalizing carried with
  | nil => simp
  | cons injection injections ih =>
    obtain ⟨hkey, hmem⟩ := @headerStep_spec crates carried injection name
    rw [foldl_cons, ih, hkey, hmem, exists_split_cons, forall_mem_cons, exists_mem_cons_iff]
    exact left_injected_iff

/-- The injected names are those that stay. -/
theorem mem_injected_traceOf_iff (headers : HeaderMap) (trace : List (InjectionRule × Injection)) (name : Str) :
    name ∈ ((trace.map Prod.snd).foldl (headerStep crates) (headers, [])).2 ↔
      ∃ rule, Stays crates headers trace rule name := by
  rw [mem_injected_iff]
  unfold Stays
  rw [exists_or]
  refine or_congr ?_ ?_
  · constructor
    · intro h
      obtain ⟨before, injection, after, heq, hset, hkept⟩ := h
      obtain ⟨front, rest, rfl, rfl, hrest⟩ := map_eq_append_iff.mp heq
      obtain ⟨step, back, rfl, rfl, rfl⟩ := map_eq_cons_iff.mp hrest
      exact ⟨step.1, front, step.2, back, rfl, hset, fun later hlater => hkept _ (mem_map_of_mem hlater)⟩
    · intro h
      obtain ⟨rule, before, injection, after, rfl, hset, hkept⟩ := h
      refine ⟨before.map Prod.snd, injection, after.map Prod.snd, ?_, hset, ?_⟩
      · rw [map_append, map_cons]
      · exact forall_mem_map.mpr hkept
  · rw [forall_mem_map]
    constructor
    · intro h
      obtain ⟨hkept, hinjected⟩ := h
      obtain ⟨hreplaced, hcarried⟩ := hinjected.resolve_left not_mem_nil
      obtain ⟨injection, hmem, hreplace⟩ := hreplaced
      obtain ⟨step, hstep, rfl⟩ := mem_map.mp hmem
      exact ⟨step.1, ⟨step.2, hstep, hreplace⟩, hcarried, hkept⟩
    · intro h
      obtain ⟨rule, hreplaced, hcarried, hkept⟩ := h
      obtain ⟨injection, hmem, hreplace⟩ := hreplaced
      exact ⟨hkept, .inr ⟨⟨injection, mem_map_of_mem hmem, hreplace⟩, hcarried⟩⟩

theorem headerName_of_does {kind : HeaderOpKind} (hkind : kind ≠ .remove) (h : injection.Does crates kind name) :
    injection.headerName crates = some name := by
  obtain ⟨op, hop, rfl, rfl⟩ := h
  unfold Injection.headerOp at hop
  unfold Injection.headerName
  cases injection with
  | setHeader n value | replaceHeader n value =>
    dsimp only at hop ⊢
    cases hn : crates.headerName n with
    | none => rw [hn] at hop; cases hop
    | some =>
      cases hv : crates.headerValue value with
      | none => rw [hn, hv] at hop; cases hop
      | some => rw [hn, hv] at hop; cases hop; rfl
  | removeHeader =>
    obtain ⟨headerName, -, rfl⟩ := Option.map_eq_some_iff.mp hop
    exact absurd rfl hkind
  | _ => cases hop

theorem mem_traceOf {ran : List InjectionRule} {rule : InjectionRule} :
    (rule, injection) ∈ traceOf ran ↔ rule ∈ ran ∧ injection ∈ rule.injections := by
  unfold traceOf
  rw [mem_flatMap]
  constructor
  · intro h
    obtain ⟨other, hother, hmem⟩ := h
    obtain ⟨step, hstep, heq⟩ := mem_map.mp hmem
    cases heq
    exact ⟨hother, hstep⟩
  · exact fun h => ⟨rule, h.1, mem_map_of_mem h.2⟩

/-- A name that stays is of a rule that ran. -/
theorem Stays.headerName {headers : HeaderMap} {ran : List InjectionRule} {rule : InjectionRule}
    (h : Stays crates headers (traceOf ran) rule name) :
    rule ∈ ran ∧ ∃ injection ∈ rule.injections, injection.headerName crates = some name := by
  cases h with
  | inl hset =>
    obtain ⟨before, injection, after, htrace, hdoes, -⟩ := hset
    have hmem : (rule, injection) ∈ traceOf ran := by
      rw [htrace]
      exact mem_append_right before mem_cons_self
    obtain ⟨hrule, hinjection⟩ := mem_traceOf.mp hmem
    exact ⟨hrule, injection, hinjection, headerName_of_does (by decide) hdoes⟩
  | inr hreplaced =>
    obtain ⟨⟨injection, hmem, hdoes⟩, -, -⟩ := hreplaced
    obtain ⟨hrule, hinjection⟩ := mem_traceOf.mp hmem
    exact ⟨hrule, injection, hinjection, headerName_of_does (by decide) hdoes⟩

end Characterization

section Agreement

variable {crates}

variable {rules : List InjectionRule}

/-- Where the rules run, every pattern ends in ASCII. -/
theorem endsInAscii_of_running {path : Str} {ran : List InjectionRule × Str}
    (h : running crates rules path = some ran) : ran.1 ⊆ rules ∧ ∀ rule ∈ rules, EndsInAscii rule.pathPattern := by
  induction rules generalizing path ran with
  | nil =>
    cases h
    exact ⟨List.Subset.refl _, nofun⟩
  | cons rule rules ih =>
    obtain ⟨matched, hmatched, h⟩ := Option.bind_eq_some_iff.mp h
    have hascii : EndsInAscii rule.pathPattern := by
      rw [pathMatches_eq] at hmatched
      split at hmatched
      · next hascii => exact hascii
      · cases hmatched
    cases matched with
    | true =>
      obtain ⟨rewritten, -, h⟩ := Option.bind_eq_some_iff.mp h
      obtain ⟨later, hlater, rfl⟩ := Option.map_eq_some_iff.mp h
      obtain ⟨hsubset, hall⟩ := ih hlater
      exact ⟨cons_subset_cons rule hsubset, forall_mem_cons.mpr ⟨hascii, hall⟩⟩
    | false =>
      obtain ⟨hsubset, hall⟩ := ih h
      exact ⟨List.Subset.trans hsubset (subset_cons_self rule rules), forall_mem_cons.mpr ⟨hascii, hall⟩⟩

theorem mem_foldl_addName (injections : List Injection) (names : List Str) (name : Str) :
    name ∈ injections.foldl (addName crates) names ↔
      name ∈ names ∨ ∃ injection ∈ injections, injection.headerName crates = some name := by
  induction injections generalizing names with
  | nil => simp
  | cons injection injections ih =>
    rw [foldl_cons, ih, exists_mem_cons_iff, ← or_assoc]
    refine or_congr ?_ Iff.rfl
    unfold addName
    cases injection.headerName crates with
    | none => simp
    | some =>
      dsimp only
      rw [Option.some.injEq]
      split
      · next hn =>
        constructor
        · exact .inl
        · intro h
          cases h with
          | inl h => exact h
          | inr heq => rwa [← heq]
      · rw [mem_append, mem_singleton, eq_comm]

/-- The names are those of matching rules. -/
theorem foldlM_names_spec (h : ∀ rule ∈ rules, EndsInAscii rule.pathPattern) (path : Str) (start : List Str) :
    ∃ names, rules.foldlM (fun names rule => do
        if ← pathMatches path rule.pathPattern then some (rule.injections.foldl (addName crates) names)
        else some names) start = some names ∧
      ∀ name, name ∈ names ↔ name ∈ start ∨ ∃ rule ∈ rules, Names crates path rule name := by
  induction rules generalizing start with
  | nil => exact ⟨start, rfl, fun name => by simp⟩
  | cons rule rules ih =>
    obtain ⟨hrule, hrest⟩ := forall_mem_cons.mp h
    have hmatched : pathMatches path rule.pathPattern = some (pathMatchesAnswer path rule.pathPattern) := by
      rw [pathMatches_eq, if_pos hrule]
    rw [foldlM_cons, hmatched]
    cases hanswer : pathMatchesAnswer path rule.pathPattern with
    | true =>
      obtain ⟨names, hnames, hmem⟩ := ih hrest (rule.injections.foldl (addName crates) start)
      refine ⟨names, hnames, fun name => ?_⟩
      rw [hmem, mem_foldl_addName, exists_mem_cons_iff, or_assoc, Names, hmatched, hanswer, and_iff_right rfl]
    | false =>
      obtain ⟨names, hnames, hmem⟩ := ih hrest start
      refine ⟨names, hnames, fun name => ?_⟩
      have hnot : ¬ Names crates path rule name := by
        intro hn
        rw [Names, hmatched, hanswer] at hn
        exact absurd hn.1 (by decide)
      rw [hmem, exists_mem_cons_iff, or_iff_right hnot]

/-- The names agree with what is injected exactly when each header that a rule sets for good, though it matches only the
rewritten path, is named for the arrived path. -/
theorem injected_names_agree_iff (crates : Crates) (rules : List InjectionRule) (headers : HeaderMap) (path : Str) :
    NamesAgree crates rules headers path ↔ LateRulesNamed crates rules headers path := by
  have hview := @applyRules_view crates rules ⟨headers, path, 0, []⟩
  constructor
  · intro hagree ran hran rule name hstays _
    rw [hran] at hview
    obtain ⟨st, hst, heq⟩ := Option.map_eq_some_iff.mp hview
    have hinjected := congrArg (fun view => view.2.2) heq
    obtain ⟨names, hnames, hmem⟩ := hagree st hst
    have hname : name ∈ names := by
      refine hmem name ?_
      change name ∈ st.view.2.2
      rw [hinjected]
      exact (mem_injected_traceOf_iff headers (traceOf ran.1) name).mpr ⟨rule, hstays⟩
    obtain ⟨found, hfound, hspec⟩ := @foldlM_names_spec crates _ (endsInAscii_of_running hran).2 path []
    cases hfound.symm.trans hnames
    exact ((hspec name).mp hname).resolve_left List.not_mem_nil
  · intro hlate st hst
    rw [applyInjections] at hst
    rw [hst] at hview
    obtain ⟨ran, hran, heq⟩ := Option.map_eq_some_iff.mp hview.symm
    obtain ⟨hsubset, hascii⟩ := endsInAscii_of_running hran
    obtain ⟨names, hnames, hspec⟩ := @foldlM_names_spec crates _ hascii path []
    refine ⟨names, hnames, fun name hname => (hspec name).mpr (.inr ?_)⟩
    have hinjected := congrArg (fun view => view.2.2) heq
    change _ = st.injected at hinjected
    rw [← hinjected] at hname
    obtain ⟨rule, hstays⟩ := (mem_injected_traceOf_iff headers (traceOf ran.1) name).mp hname
    by_cases hmatch : pathMatches path rule.pathPattern = some true
    · exact ⟨rule, hsubset hstays.headerName.1, hmatch, hstays.headerName.2⟩
    · exact hlate ran hran rule name hstays hmatch

/-- Header names of lowercase letters, any value, and no regex. -/
def plainCrates : Crates where
  headerName name := if name.isEmpty then none else some name
  headerValue value := some value
  appendPair name value := name ++ '=' :: value
  regex _ := none

/-- A token goes into the path, and the path with the token has a key of its own. -/
def tokenThenKey : List InjectionRule :=
  [⟨"/bot*".toList, [.setPath ("/bot".toList ++ hole) "7".toList]⟩,
    ⟨"/bot7/*".toList, [.setHeader "x-api-key".toList "k".toList]⟩]

/-- The request arrives without the token, so the names for its path leave the key out. -/
theorem not_injected_names_agree : ¬ ∀ (crates : Crates) (rules : List InjectionRule) (headers : HeaderMap) (path : Str),
    NamesAgree crates rules headers path := by
  intro hclaim
  have happlied : applyInjections plainCrates [] "/bot/getMe".toList tokenThenKey =
      some ⟨[("x-api-key".toList, "k".toList)], "/bot7/getMe".toList, 2, ["x-api-key".toList]⟩ := by decide
  have hnone : injectedHeaderNames plainCrates tokenThenKey "/bot/getMe".toList = some [] := by decide
  obtain ⟨names, hnames, hmem⟩ := hclaim plainCrates tokenThenKey [] "/bot/getMe".toList _ happlied
  cases hnone.symm.trans hnames
  exact List.not_mem_nil (hmem _ (List.mem_singleton_self _))

end Agreement

end Onecli.Inject
