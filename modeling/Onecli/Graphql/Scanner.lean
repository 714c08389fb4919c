import Onecli.Foundation.CodeUnits

/-!
# The GraphQL document scanner

`classify_graphql_document` and `count_top_level_literal_query_keys`, which both ports write
the same way over their own code units. The scanner is stated once over an alphabet: the
units it compares with and the two name predicates. An index into the source is modelled by
what is left to read. `scanStep` answers `none` where the source returns `Mutation` early.
-/

namespace Onecli.Graphql

open List Option

/-- `GraphqlOpKind`. -/
inductive OpKind where
  | query
  | mutation
  deriving DecidableEq, Repr

/-- `as_catalog_str`. -/
def OpKind.asCatalogStr : OpKind → List Char
  | .query => "query".toList
  | .mutation => "mutation".toList

/-- The code units a port of the scanner works on. -/
structure Alphabet (U : Type) where
  unit : Char → U
  isNameStart : U → Bool
  isNamePart : U → Bool

namespace Alphabet

variable {U : Type} [DecidableEq U] (A : Alphabet U)

/-- A literal of the source in the units of the alphabet. -/
def lit (s : String) : List U := s.toList.map A.unit

/-- `starts_with` at the current position. -/
def startsWith (src : List U) (pat : String) : Bool := (A.lit pat).isPrefixOf src

/-- The insignificant characters. -/
def isIgnored (c : U) : Bool :=
  c == A.unit ' ' || c == A.unit '\t' || c == A.unit '\n' || c == A.unit '\r' ||
    c == A.unit ',' || c == A.unit '\uFEFF'

/-- The three opening brackets. -/
def opens (c : U) : Bool := c == A.unit '{' || c == A.unit '(' || c == A.unit '['

/-- The three closing brackets. -/
def closes (c : U) : Bool := c == A.unit '}' || c == A.unit ')' || c == A.unit ']'

/-- What is left at the end of the line. -/
def skipComment (src : List U) : List U := src.dropWhile fun c => c != A.unit '\n' && c != A.unit '\r'

/-- What is left after the closing quote of a string; a backslash takes the next unit along. -/
def skipString : List U → Option (List U)
  | [] => none
  | c :: rest =>
    if c = A.unit '"' then some rest
    else if c = A.unit '\\' then
      match rest with
      | [] => none
      | _ :: rest => skipString rest
    else skipString rest

/-- What is left after the closing quotes of a block string. -/
def skipBlockString : List U → Option (List U)
  | [] => none
  | c :: rest =>
    if A.startsWith (c :: rest) "\"\"\"" then some (rest.drop 2)
    else if A.startsWith (c :: rest) "\\\"\"\"" then skipBlockString (rest.drop 3)
    else skipBlockString rest
termination_by src => src.length

/-- `read_name`: the longest name at the current position. -/
def readName : List U → Option (List U)
  | [] => none
  | c :: rest => if A.isNameStart c then some (c :: rest.takeWhile A.isNamePart) else none

end Alphabet

/-- The variables of the scanning loop. -/
structure Scan where
  depth : ℤ
  expectingDefinition : Bool
  sawQueryOperation : Bool

/-- The scanner before the first character. -/
def Scan.start : Scan := ⟨0, true, false⟩

/-- The answer at the end of the source. -/
def Scan.kind (st : Scan) : OpKind :=
  if st.depth ≠ 0 then .mutation
  else if !st.expectingDefinition then .mutation
  else if st.sawQueryOperation then .query
  else .mutation

section Machine

variable {U : Type} [DecidableEq U] (A : Alphabet U)

/-- The first token of a definition decides its kind. -/
def definitionStart (st : Scan) (c : U) (rest : List U) : Option (Scan × List U) :=
  if c = A.unit '{' then some (⟨st.depth + 1, false, true⟩, rest)
  else
    match A.readName (c :: rest) with
    | none => none
    | some word =>
      let rest := (c :: rest).drop word.length
      if word = A.lit "query" then some (⟨st.depth, false, true⟩, rest)
      else if word = A.lit "fragment" then some (⟨st.depth, false, st.sawQueryOperation⟩, rest)
      else none

/-- Inside a definition only the nesting is tracked. -/
def insideStep (st : Scan) (c : U) (rest : List U) : Option (Scan × List U) :=
  if A.opens c then some ({ st with depth := st.depth + 1 }, rest)
  else if A.closes c then
    if st.depth - 1 < 0 then none
    else
      let expecting := st.expectingDefinition || (st.depth - 1 == 0 && c == A.unit '}')
      some (⟨st.depth - 1, expecting, st.sawQueryOperation⟩, rest)
  else some (st, rest)

/-- One round of the scanning loop at the character `c`. -/
def scanStep (st : Scan) (c : U) (rest : List U) : Option (Scan × List U) :=
  if A.isIgnored c then some (st, rest)
  else if c = A.unit '#' then some (st, A.skipComment rest)
  else if A.startsWith (c :: rest) "\"\"\"" then
    (A.skipBlockString (rest.drop 2)).map fun rest => (st, rest)
  else if c = A.unit '"' then (A.skipString rest).map fun rest => (st, rest)
  else if st.expectingDefinition && st.depth == 0 then definitionStart A st c rest
  else insideStep A st c rest

theorem skipString_length {src rest : List U} (h : A.skipString src = some rest) :
    rest.length < src.length := by
  fun_induction Alphabet.skipString A src with
  | case1 => cases h
  | case2 rest' =>
    cases h
    simp
  | case3 => cases h
  | case4 d rest' hquote ih | case5 c rest' hquote hback ih =>
    have := ih h
    simp only [length_cons]
    omega

theorem skipBlockString_length {src rest : List U} (h : A.skipBlockString src = some rest) :
    rest.length < src.length := by
  fun_induction Alphabet.skipBlockString A src with
  | case1 => cases h
  | case2 c rest' hclose =>
    cases h
    simp only [length_drop, length_cons]
    omega
  | case3 c rest' hclose hescape ih =>
    have := ih h
    simp only [length_drop, length_cons] at this ⊢
    omega
  | case4 c rest' hclose hescape ih =>
    have := ih h
    simp only [length_cons]
    omega

omit [DecidableEq U] in
theorem readName_length_pos {src word : List U} (h : A.readName src = some word) :
    0 < word.length := by
  cases src with
  | nil => cases h
  | cons =>
    rw [Alphabet.readName] at h
    split at h
    · cases h
      simp
    · cases h

/-- A step takes characters. -/
theorem scanStep_length {st st' : Scan} {c : U} {rest rest' : List U}
    (h : scanStep A st c rest = some (st', rest')) : rest'.length < (c :: rest).length := by
  have hdrop (n : ℕ) : (rest.drop n).length < (c :: rest).length := by
    simp only [length_drop, length_cons]
    omega
  unfold scanStep at h
  split at h
  · cases h
    simp
  split at h
  · cases h
    have := (dropWhile_sublist (l := rest) (fun c => c != A.unit '\n' && c != A.unit '\r')).length_le
    simp only [Alphabet.skipComment, length_cons]
    omega
  split at h
  · obtain ⟨r, hskip, heq⟩ := map_eq_some_iff.mp h
    cases heq
    exact (skipBlockString_length A hskip).trans (hdrop 2)
  split at h
  · obtain ⟨r, hskip, heq⟩ := map_eq_some_iff.mp h
    cases heq
    exact (skipString_length A hskip).trans (hdrop 0)
  split at h
  · unfold definitionStart at h
    split at h
    · cases h
      simp
    · cases hword : A.readName (c :: rest) with
      | none => simp [hword] at h
      | some word =>
        have hpos := readName_length_pos A hword
        have hshort : ((c :: rest).drop word.length).length < (c :: rest).length := by
          simp only [length_drop, length_cons]
          omega
        simp only [hword] at h
        split_ifs at h <;> cases h <;> exact hshort
  · unfold insideStep at h
    split_ifs at h <;> cases h <;> simp

/-- The scanning loop. -/
def scan (st : Scan) : List U → OpKind
  | [] => st.kind
  | c :: rest =>
    match h : scanStep A st c rest with
    | none => .mutation
    | some (st', rest') =>
      have : rest'.length < (c :: rest).length := scanStep_length A h
      scan st' rest'
termination_by src => src.length
decreasing_by exact this

/-- `classify_graphql_document`. -/
def classifyDocument (document : List U) : OpKind := scan A .start document

@[simp] theorem scan_nil (st : Scan) : scan A st [] = st.kind := by rw [scan]

/-- A scan goes on after a step. -/
theorem scan_of_step {st st' : Scan} {c : U} {rest rest' : List U}
    (h : scanStep A st c rest = some (st', rest')) : scan A st (c :: rest) = scan A st' rest' := by
  rw [scan]
  split
  · next hnone => cases h.symm.trans hnone
  · next st'' rest'' hsome =>
    cases h.symm.trans hsome
    rfl

/-- A scan that stops is a mutation. -/
theorem scan_of_step_none {st : Scan} {c : U} {rest : List U} (h : scanStep A st c rest = none) :
    scan A st (c :: rest) = .mutation := by
  rw [scan]
  split
  · rfl
  · next st'' rest'' hsome => cases h.symm.trans hsome

end Machine

section Keys

variable {U : Type} [DecidableEq U] (unit : Char → U)

/-- The contents of a JSON string, whether they hold an escape, and what follows it. -/
def readString : List U → Option (List U × Bool × List U)
  | [] => none
  | c :: rest =>
    if c = unit '"' then some ([], false, rest)
    else if c = unit '\\' then
      match rest with
      | [] => none
      | d :: rest => (readString rest).map fun (value, _, rest) => (c :: d :: value, true, rest)
    else (readString rest).map fun (value, hasEscape, rest) => (c :: value, hasEscape, rest)

/-- JSON white space. -/
def isJsonSpace (c : U) : Bool := c == unit ' ' || c == unit '\t' || c == unit '\n' || c == unit '\r'

/-- A string takes characters. -/
theorem readString_length {src value rest : List U} {hasEscape : Bool}
    (h : readString unit src = some (value, hasEscape, rest)) : rest.length < src.length := by
  fun_induction readString unit src generalizing value hasEscape with
  | case1 => cases h
  | case2 rest' =>
    cases h
    simp
  | case3 => cases h
  | case4 d rest' hquote ih | case5 c rest' hquote hback ih =>
    obtain ⟨⟨v, e, r⟩, hread, heq⟩ := map_eq_some_iff.mp h
    cases heq
    have := ih hread
    simp only [length_cons]
    omega

/-- The loop of `count_top_level_literal_query_keys`; `-1` once a top-level key has an escape. -/
def countKeys (count depth : ℤ) : List U → ℤ
  | [] => count
  | c :: rest =>
    if c = unit '"' then
      match h : readString unit rest with
      | none => -1
      | some (value, hasEscape, after) =>
        have : after.length < (c :: rest).length := (readString_length unit h).trans (Nat.lt_succ_self _)
        if depth = 1 ∧ (after.dropWhile (isJsonSpace unit)).head? = some (unit ':') then
          if hasEscape then -1
          else if value = "query".toList.map unit then countKeys (count + 1) depth after
          else countKeys count depth after
        else countKeys count depth after
    else if c = unit '{' ∨ c = unit '[' then countKeys count (depth + 1) rest
    else if c = unit '}' ∨ c = unit ']' then countKeys count (depth - 1) rest
    else countKeys count depth rest
termination_by src => src.length
decreasing_by
  iterate 3 exact this
  all_goals exact Nat.lt_succ_self _

/-- `count_top_level_literal_query_keys`. -/
def countTopLevelLiteralQueryKeys (text : List U) : ℤ := countKeys unit 0 0 text

end Keys

/-! ## Characters that mean nothing to the scanner -/

section Plain

/-- The characters that the document scanner compares with. -/
def punctuation : List Char := [' ', '\t', '\n', '\r', ',', '\uFEFF', '#', '"', '\\', '{', '(', '[', '}', ')', ']']

variable {U : Type} [DecidableEq U] (A : Alphabet U)

theorem startsWith_of_ne {d : Char} {u : U} {pat : String}
    (hpat : pat.toList.head? = some d) (hud : u ≠ A.unit d) (rest : List U) :
    A.startsWith (u :: rest) pat = false := by
  obtain ⟨tail, htail⟩ := List.head?_eq_some_iff.mp hpat
  rw [Alphabet.startsWith, Alphabet.lit, htail, map_cons, isPrefixOf_cons_cons,
    beq_eq_false_iff_ne.mpr (Ne.symm hud), Bool.false_and]

theorem skipString_append {block : List U}
    (hblock : ∀ u ∈ block, u ≠ A.unit '"' ∧ u ≠ A.unit '\\') (rest : List U) :
    A.skipString (block ++ rest) = A.skipString rest := by
  induction block with
  | nil => rfl
  | cons u block ih =>
    obtain ⟨⟨hquote, hback⟩, hrest⟩ := forall_mem_cons.mp hblock
    rw [cons_append, Alphabet.skipString.eq_def]
    simp only [hquote, hback, ↓reduceIte]
    exact ih hrest

theorem skipBlockString_append {block : List U}
    (hblock : ∀ u ∈ block, u ≠ A.unit '"' ∧ u ≠ A.unit '\\') (rest : List U) :
    A.skipBlockString (block ++ rest) = A.skipBlockString rest := by
  induction block with
  | nil => rfl
  | cons u block ih =>
    obtain ⟨⟨hquote, hback⟩, hrest⟩ := forall_mem_cons.mp hblock
    rw [cons_append, Alphabet.skipBlockString, startsWith_of_ne A (d := '"') (by decide) hquote,
      startsWith_of_ne A (d := '\\') (by decide) hback]
    exact ih hrest

omit [DecidableEq U] in
theorem readName_prefix {s word : List U} (hword : A.readName s = some word) : word <+: s := by
  cases s with
  | nil => cases hword
  | cons =>
    rw [Alphabet.readName] at hword
    split at hword
    · cases hword
      exact cons_prefix_cons.mpr ⟨rfl, takeWhile_prefix _⟩
    · cases hword

/-- A unit that is no punctuation. -/
theorem scanStep_plain (st : Scan) {u : U} (hplain : ∀ d ∈ punctuation, u ≠ A.unit d)
    (rest : List U) :
    scanStep A st u rest = if st.expectingDefinition && st.depth == 0 then definitionStart A st u rest
      else some (st, rest) := by
  have hbeq (d : Char) (hd : d ∈ punctuation) : (u == A.unit d) = false := beq_eq_false_iff_ne.mpr (hplain d hd)
  have hignored : A.isIgnored u = false := by
    simp only [Alphabet.isIgnored]
    rw [hbeq _ (by decide), hbeq _ (by decide), hbeq _ (by decide), hbeq _ (by decide),
      hbeq _ (by decide), hbeq _ (by decide)]
    rfl
  have hopens : A.opens u = false := by
    simp only [Alphabet.opens]
    rw [hbeq _ (by decide), hbeq _ (by decide), hbeq _ (by decide)]
    rfl
  have hcloses : A.closes u = false := by
    simp only [Alphabet.closes]
    rw [hbeq _ (by decide), hbeq _ (by decide), hbeq _ (by decide)]
    rfl
  unfold scanStep
  rw [hignored, if_neg (by simp), if_neg (hplain _ (by decide)),
    startsWith_of_ne A (d := '"') (by decide) (hplain _ (by decide)), if_neg (by simp), if_neg (hplain _ (by decide))]
  refine if_congr Iff.rfl rfl ?_
  rw [insideStep, hopens, hcloses]
  rfl

theorem scan_plain_append {st : Scan} (hinside : (st.expectingDefinition && st.depth == 0) = false)
    {block : List U} (hplain : ∀ u ∈ block, ∀ d ∈ punctuation, u ≠ A.unit d) (rest : List U) :
    scan A st (block ++ rest) = scan A st rest := by
  induction block with
  | nil => rfl
  | cons u us ih =>
    obtain ⟨hu, hrest⟩ := forall_mem_cons.mp hplain
    have hstep : scanStep A st u (us ++ rest) = some (st, us ++ rest) := by
      rw [scanStep_plain A st hu, hinside]
      rfl
    rw [cons_append, scan_of_step A hstep, ih hrest]

end Plain

end Onecli.Graphql
