import Onecli.Graphql.Scanner

/-!
# The scanner does not depend on the encoding

A text scanned over its characters and over the code units of an encoding gets the same
answer, when the encoding spells the characters the scanner knows. A block of several units
is read unit by unit, and none of them means anything to the scanner; the one place where a
block can be cut is the character after a backslash in a string, and the rest of that block
is skipped as plain contents.
-/

namespace Onecli.Graphql

open CodeUnits List Option Bool

/-- The characters that matter to the document scanner. -/
def Significant (C : Alphabet Char) (c : Char) : Prop := c ∈ punctuation ∨ C.isNamePart c = true

theorem significant_blockString (C : Alphabet Char) :
    (∀ d ∈ ("\"\"\"").toList, Significant C d) ∧ ∀ d ∈ ("\\\"\"\"").toList, Significant C d := by
  simp [Significant, punctuation]

variable {U : Type} [DecidableEq U]

/-- The units of an encoding answer the scanner as the characters do. -/
structure Encodes (C : Alphabet Char) (A : Alphabet U) (enc : Char → List U) : Prop where
  unit_self : ∀ c, C.unit c = c
  spells : Spells enc A.unit (Significant C)
  nameStart : ∀ c, ∀ u ∈ enc c, A.isNameStart u = C.isNameStart c
  namePart : ∀ c, ∀ u ∈ enc c, A.isNamePart u = C.isNamePart c
  part_of_start : ∀ c, C.isNameStart c = true → C.isNamePart c = true
  keyword : ∀ c ∈ "query".toList ++ "fragment".toList, C.isNamePart c = true

variable {C : Alphabet Char} {A : Alphabet U} {enc : Char → List U} (h : Encodes C A enc)

section Characters

include h

omit [DecidableEq U] in
/-- A unit of punctuation is its own. -/
theorem Encodes.eq_unit_iff {c d : Char} {u : U} (hu : u ∈ enc c) (hd : d ∈ punctuation) :
    u = A.unit d ↔ c = C.unit d := by
  rw [h.unit_self]
  exact h.spells.unit_eq_iff hu (.inl hd)

/-- Comparing with punctuation agrees. -/
theorem Encodes.beq_unit {c d : Char} {u : U} (hu : u ∈ enc c) (hd : d ∈ punctuation) :
    (u == A.unit d) = (c == C.unit d) := by
  rw [Bool.eq_iff_iff, beq_iff_eq, beq_iff_eq, h.eq_unit_iff hu hd]

theorem Encodes.isIgnored_eq {c : Char} {u : U} (hu : u ∈ enc c) : A.isIgnored u = C.isIgnored c := by
  simp only [Alphabet.isIgnored]
  rw [h.beq_unit hu (by decide), h.beq_unit hu (by decide), h.beq_unit hu (by decide),
    h.beq_unit hu (by decide), h.beq_unit hu (by decide), h.beq_unit hu (by decide)]

theorem Encodes.opens_eq {c : Char} {u : U} (hu : u ∈ enc c) : A.opens u = C.opens c := by
  simp only [Alphabet.opens]
  rw [h.beq_unit hu (by decide), h.beq_unit hu (by decide), h.beq_unit hu (by decide)]

theorem Encodes.closes_eq {c : Char} {u : U} (hu : u ∈ enc c) : A.closes u = C.closes c := by
  simp only [Alphabet.closes]
  rw [h.beq_unit hu (by decide), h.beq_unit hu (by decide), h.beq_unit hu (by decide)]

omit [DecidableEq U] in
/-- A literal is its characters. -/
theorem Encodes.lit_eq (s : String) : C.lit s = s.toList :=
  (map_congr_left fun c _ => h.unit_self c).trans (List.map_id _)

omit [DecidableEq U] in
/-- Punctuation is one unit. -/
theorem Encodes.block_eq {c : Char} (hc : c ∈ punctuation) : enc c = [A.unit c] := h.spells.block_eq (.inl hc)

omit [DecidableEq U] in
theorem Encodes.backslash_ne_quote : A.unit '\\' ≠ A.unit '"' := by
  have hmem : A.unit '\\' ∈ enc '\\' := by simp [h.block_eq (c := '\\') (by decide)]
  rw [ne_eq, h.eq_unit_iff hmem (by decide), h.unit_self]
  decide

theorem Encodes.startsWith_encode {pat : String} (hpat : ∀ d ∈ pat.toList, Significant C d)
    (s : List Char) : A.startsWith (encode enc s) pat = C.startsWith s pat := by
  rw [Bool.eq_iff_iff, Alphabet.startsWith, Alphabet.startsWith, h.lit_eq, isPrefixOf_iff_prefix, isPrefixOf_iff_prefix]
  exact h.spells.map_prefix_encode_iff hpat s

end Characters

section Skips

include h

omit [DecidableEq U] in
theorem Encodes.tail_plain {c : Char} {u : U} {us : List U} (hblock : enc c = u :: us) :
    ∀ v ∈ us, v ≠ A.unit '"' ∧ v ≠ A.unit '\\' := by
  intro v hv
  cases us with
  | nil => cases hv
  | cons =>
    have hmem : v ∈ enc c := by
      rw [hblock]
      exact mem_cons_of_mem u hv
    exact ⟨h.spells.ne_unit_of_long hblock (.inl (by decide)) v hmem,
      h.spells.ne_unit_of_long hblock (.inl (by decide)) v hmem⟩

theorem Encodes.skipString_encode (s : List Char) :
    A.skipString (encode enc s) = (C.skipString s).map (encode enc) := by
  fun_induction Alphabet.skipString C s with
  | case1 => rfl
  | case2 rest =>
    rw [h.unit_self, encode_cons, h.block_eq (by decide), Alphabet.skipString.eq_def]
    simp
  | case3 hquote =>
    rw [h.unit_self, encode_cons, h.block_eq (by decide), Alphabet.skipString.eq_def]
    simp [h.backslash_ne_quote]
  | case4 d rest hquote ih =>
    -- the escape takes the first unit of the next block, the others are plain contents
    obtain ⟨u, us, hblock⟩ := exists_cons_of_ne_nil (h.spells.block_ne_nil d)
    rw [h.unit_self, encode_cons, h.block_eq (by decide), singleton_append, encode_cons,
      hblock, cons_append, Alphabet.skipString.eq_def]
    simp only [h.backslash_ne_quote, ↓reduceIte]
    rw [skipString_append A (h.tail_plain hblock), ih]
  | case5 c rest hquote hback ih =>
    have hplain : ∀ u ∈ enc c, u ≠ A.unit '"' ∧ u ≠ A.unit '\\' := fun u hu =>
      ⟨fun heq => hquote ((h.eq_unit_iff hu (by decide)).mp heq),
        fun heq => hback ((h.eq_unit_iff hu (by decide)).mp heq)⟩
    rw [encode_cons, skipString_append A hplain, ih]

omit [DecidableEq U] in
theorem Encodes.exists_of_startsWith {pat : String} {s : List Char} (hstart : C.startsWith s pat = true) :
    ∃ rest, s = pat.toList ++ rest := by
  rw [Alphabet.startsWith, h.lit_eq, isPrefixOf_iff_prefix] at hstart
  obtain ⟨rest, hrest⟩ := hstart
  exact ⟨rest, hrest.symm⟩

theorem Encodes.skipBlockString_encode (s : List Char) :
    A.skipBlockString (encode enc s) = (C.skipBlockString s).map (encode enc) := by
  obtain ⟨hclose, hescape⟩ := significant_blockString C
  fun_induction Alphabet.skipBlockString C s with
  | case1 => simp [Alphabet.skipBlockString]
  | case2 c rest hstart =>
    have hsame := (h.startsWith_encode hclose (c :: rest)).trans hstart
    obtain ⟨after, hafter⟩ := h.exists_of_startsWith hstart
    change c :: rest = '"' :: '"' :: '"' :: after at hafter
    cases hafter
    simp only [encode_cons, h.block_eq (c := '"') (by decide), singleton_append] at hsame ⊢
    rw [Alphabet.skipBlockString, if_pos hsame]
    rfl
  | case3 c rest hstart hesc ih =>
    have hnot := (h.startsWith_encode hclose (c :: rest)).trans (eq_false_of_ne_true hstart)
    have hsame := (h.startsWith_encode hescape (c :: rest)).trans hesc
    obtain ⟨after, hafter⟩ := h.exists_of_startsWith hesc
    change c :: rest = '\\' :: '"' :: '"' :: '"' :: after at hafter
    cases hafter
    simp only [encode_cons, h.block_eq (c := '"') (by decide), h.block_eq (c := '\\') (by decide),
      singleton_append] at hnot hsame ⊢
    rw [Alphabet.skipBlockString, if_neg (by simp [hnot]), if_pos hsame]
    exact ih
  | case4 c rest hstart hesc ih =>
    have hnot := (h.startsWith_encode hclose (c :: rest)).trans (eq_false_of_ne_true hstart)
    have hnot' := (h.startsWith_encode hescape (c :: rest)).trans (eq_false_of_ne_true hesc)
    obtain ⟨u, us, hblock⟩ := exists_cons_of_ne_nil (h.spells.block_ne_nil c)
    rw [encode_cons, hblock, cons_append] at hnot hnot' ⊢
    rw [Alphabet.skipBlockString, if_neg (by simp [hnot]), if_neg (by simp [hnot']),
      skipBlockString_append A (h.tail_plain hblock), ih]

omit [DecidableEq U] in
theorem Encodes.skipComment_encode [DecidableEq U] (s : List Char) :
    A.skipComment (encode enc s) = encode enc (C.skipComment s) := by
  refine dropWhile_encode_blockwise h.spells.block_ne_nil (fun c u hu => ?_) s
  rw [bne, bne, bne, bne, h.beq_unit hu (by decide), h.beq_unit hu (by decide)]

omit [DecidableEq U] in
theorem Encodes.readName_encode (s : List Char) :
    A.readName (encode enc s) = (C.readName s).map (encode enc) := by
  cases s with
  | nil => rfl
  | cons c =>
    obtain ⟨u, us, hblock⟩ := exists_cons_of_ne_nil (h.spells.block_ne_nil c)
    have hu : u ∈ enc c := by simp [hblock]
    rw [encode_cons, hblock, cons_append, Alphabet.readName, Alphabet.readName, h.nameStart c u hu]
    cases hstart : C.isNameStart c with
    | false => rfl
    | true =>
      rw [h.spells.block_eq (.inr (h.part_of_start c hstart))] at hblock
      cases hblock
      rw [if_pos rfl, if_pos rfl, map_some, nil_append,
        takeWhile_encode_blockwise h.spells.block_ne_nil h.namePart, encode_cons,
        h.spells.block_eq (.inr (h.part_of_start c hstart)), singleton_append]

end Skips

section Loop

/-- A unit that is no punctuation and starts no name is passed over inside a definition and
refused before one. -/
theorem scanStep_meaningless (st : Scan) {u : U} (hplain : ∀ d ∈ punctuation, u ≠ A.unit d)
    (hname : A.isNameStart u = false) (rest : List U) :
    scanStep A st u rest = if st.expectingDefinition && st.depth == 0 then none else some (st, rest) := by
  rw [scanStep_plain A st hplain]
  refine if_congr Iff.rfl ?_ rfl
  rw [definitionStart, if_neg (hplain _ (by decide)), Alphabet.readName, hname]
  rfl

theorem scan_meaningless_append (st : Scan) {block : List U} (hne : block ≠ [])
    (hplain : ∀ u ∈ block, (∀ d ∈ punctuation, u ≠ A.unit d) ∧ A.isNameStart u = false)
    (rest : List U) :
    scan A st (block ++ rest) = if st.expectingDefinition && st.depth == 0 then .mutation else scan A st rest := by
  by_cases hstart : (st.expectingDefinition && st.depth == 0) = true
  · obtain ⟨u, us, rfl⟩ := exists_cons_of_ne_nil hne
    obtain ⟨hu, hname⟩ := hplain u mem_cons_self
    rw [if_pos hstart]
    refine scan_of_step_none A ?_
    rw [scanStep_meaningless st hu hname, if_pos hstart]
  · rw [if_neg hstart, scan_plain_append A (eq_false_iff.mpr hstart) fun u hu => (hplain u hu).1]

include h

theorem Encodes.definitionStart_encode (st : Scan) (c : Char) (rest : List Char) {u : U}
    {us : List U} (hblock : enc c = u :: us) :
    definitionStart A st u (us ++ encode enc rest) =
      (definitionStart C st c rest).map fun (st, rest) => (st, encode enc rest) := by
  have hu : u ∈ enc c := by simp [hblock]
  have hkeyword (kw : String) (hkw : ∀ d ∈ kw.toList, d ∈ "query".toList ++ "fragment".toList)
      (word : List Char) : encode enc word = A.lit kw ↔ word = C.lit kw := by
    rw [h.lit_eq]
    exact h.spells.encode_eq_map_iff (fun d hd => .inr (h.keyword d (hkw d hd))) word
  have hquery := hkeyword "query" (by decide)
  have hfragment := hkeyword "fragment" (by decide)
  have hall : u :: (us ++ encode enc rest) = encode enc (c :: rest) := by
    rw [encode_cons, hblock, cons_append]
  unfold definitionStart
  rw [hall, h.readName_encode]
  simp only [h.eq_unit_iff hu (d := '{') (by decide)]
  by_cases hbrace : c = C.unit '{'
  · rw [if_pos hbrace, if_pos hbrace]
    rw [hbrace, h.unit_self, h.block_eq (by decide)] at hblock
    rw [(List.cons.inj hblock).2.symm]
    rfl
  rw [if_neg hbrace, if_neg hbrace]
  cases hword : C.readName (c :: rest) with
  | none => rfl
  | some word =>
    have hdrop : (encode enc (c :: rest)).drop (encode enc word).length =
        encode enc ((c :: rest).drop word.length) := by
      obtain ⟨after, hafter⟩ := readName_prefix C hword
      rw [← hafter, encode_append, drop_left, drop_left]
    simp only [map_some, hquery, hfragment, hdrop]
    split_ifs <;> rfl

theorem Encodes.scanStep_encode (st : Scan) (c : Char) (rest : List Char) {u : U}
    (hblock : enc c = [u]) :
    scanStep A st u (encode enc rest) = (scanStep C st c rest).map fun (st, rest) => (st, encode enc rest) := by
  have hu : u ∈ enc c := by simp [hblock]
  have hall : u :: encode enc rest = encode enc (c :: rest) := by
    rw [encode_cons, hblock, singleton_append]
  unfold scanStep
  rw [hall, h.isIgnored_eq hu, h.startsWith_encode (significant_blockString C).1]
  simp only [h.eq_unit_iff hu (d := '#') (by decide), h.eq_unit_iff hu (d := '"') (by decide)]
  split_ifs with hignored hcomment hblockString hquote hstart
  · rfl
  · rw [h.skipComment_encode]
    rfl
  · obtain ⟨after, hafter⟩ := h.exists_of_startsWith hblockString
    change c :: rest = '"' :: '"' :: '"' :: after at hafter
    cases hafter
    simp only [encode_cons, h.block_eq (c := '"') (by decide), singleton_append]
    change (A.skipBlockString (encode enc after)).map _ = ((C.skipBlockString after).map _).map _
    rw [h.skipBlockString_encode, Option.map_map, Option.map_map]
    rfl
  · rw [h.skipString_encode, Option.map_map, Option.map_map]
    rfl
  · exact h.definitionStart_encode st c rest hblock
  · unfold insideStep
    rw [h.opens_eq hu, h.closes_eq hu, h.beq_unit hu (by decide)]
    split_ifs <;> rfl

theorem Encodes.scan_encode (st : Scan) (s : List Char) :
    scan A st (encode enc s) = scan C st s := by
  induction hn : s.length using Nat.strong_induction_on generalizing st s with
  | _ n ih =>
    cases s with
    | nil => rw [encode_nil, scan_nil, scan_nil]
    | cons c rest =>
      obtain ⟨u, us, hblock⟩ := exists_cons_of_ne_nil (h.spells.block_ne_nil c)
      cases us with
      | nil =>
        have hstep := h.scanStep_encode st c rest hblock
        rw [encode_cons, hblock, singleton_append]
        cases hC : scanStep C st c rest with
        | none =>
          rw [hC] at hstep
          rw [scan_of_step_none A hstep, scan_of_step_none C hC]
        | some next =>
          obtain ⟨st', rest'⟩ := next
          rw [hC] at hstep
          rw [scan_of_step A hstep, scan_of_step C hC]
          exact ih rest'.length (hn ▸ scanStep_length C hC) st' rest' rfl
      | cons =>
        -- a longer block means nothing to the scanner, and neither does its character
        have hplain : ∀ w ∈ enc c, (∀ d ∈ punctuation, w ≠ A.unit d) ∧ A.isNameStart w = false := by
          intro w hw
          refine ⟨fun d hd => h.spells.ne_unit_of_long hblock (.inl hd) w hw, ?_⟩
          rw [h.nameStart c w hw, eq_false_iff]
          intro hstart
          rw [h.spells.block_eq (.inr (h.part_of_start c hstart))] at hblock
          cases hblock
        have hplainC : ∀ w ∈ [c], (∀ d ∈ punctuation, w ≠ C.unit d) ∧ C.isNameStart w = false := by
          intro w hw
          rw [mem_singleton.mp hw]
          have hu : u ∈ enc c := by simp [hblock]
          refine ⟨fun d hd heq => (hplain u hu).1 d hd ((h.eq_unit_iff hu hd).mpr heq), ?_⟩
          rw [← h.nameStart c u hu]
          exact (hplain u hu).2
        rw [encode_cons, scan_meaningless_append st (h.spells.block_ne_nil c) hplain,
          ← singleton_append (l := rest), scan_meaningless_append st (by simp) hplainC]
        refine if_congr Iff.rfl rfl (ih rest.length ?_ st rest rfl)
        rw [← hn]
        exact Nat.lt_succ_self _

/-- A document is classified alike in every encoding. -/
theorem Encodes.classifyDocument_encode (document : List Char) :
    classifyDocument A (encode enc document) = classifyDocument C document :=
  h.scan_encode .start document

end Loop

end Onecli.Graphql
