import Onecli.Graphql.Scanner

/-!
# Counting keys in encoded texts

The count of a body's `query` keys compares units with JSON punctuation, white space and the letters
of the key only. Where an encoding spells these by single units that occur in no other block, the
count over the units is the count over the characters. A backslash takes one unit along and not one
character, which no count can tell, since the other units of that character are plain.
-/

namespace Onecli.Graphql

open CodeUnits List

/-- The characters that the count compares units with. -/
def keySignificant : List Char := ['"', '\\', '{', '}', '[', ']', ':', ' ', '\t', '\n', '\r', 'q', 'u', 'e', 'r', 'y']

/-- The characters that the count acts on outside of strings. -/
def keyMarks : List Char := ['"', '{', '}', '[', ']']

theorem mem_keySignificant_of_mem_keyMarks : ∀ d ∈ keyMarks, d ∈ keySignificant := by decide

variable {U : Type} [DecidableEq U] {unit : Char → U} {enc : Char → List U}

theorem readString_cons_plain {u : U} (hquote : u ≠ unit '"') (hback : u ≠ unit '\\') (rest : List U) :
    readString unit (u :: rest) = (readString unit rest).map fun r => (u :: r.1, r.2.1, r.2.2) := by
  rw [readString.eq_def]
  simp only [if_neg hquote, if_neg hback]

theorem readString_cons_escape (hback : unit '\\' ≠ unit '"') (u : U) (rest : List U) :
    readString unit (unit '\\' :: u :: rest) =
      (readString unit rest).map fun r => (unit '\\' :: u :: r.1, true, r.2.2) := by
  rw [readString.eq_def]
  simp only [if_neg hback, if_true]

theorem readString_append {block : List U} (hplain : ∀ u ∈ block, u ≠ unit '"' ∧ u ≠ unit '\\')
    (rest : List U) : readString unit (block ++ rest) =
      (readString unit rest).map fun r => (block ++ r.1, r.2.1, r.2.2) := by
  induction block with
  | nil =>
    rw [nil_append]
    cases readString unit rest <;> rfl
  | cons u block ih =>
    obtain ⟨⟨hquote, hback⟩, hplain⟩ := forall_mem_cons.mp hplain
    rw [cons_append, readString_cons_plain hquote hback, ih hplain, Option.map_map]
    rfl

theorem countKeys_quote_none {rest : List U} (h : readString unit rest = none) (count depth : ℤ) :
    countKeys unit count depth (unit '"' :: rest) = -1 := by
  rw [countKeys, if_pos rfl]
  split
  · rfl
  · next hsome => cases h.symm.trans hsome

/-- What a string adds to the count. -/
theorem countKeys_quote_some {value rest after : List U} {hasEscape : Bool}
    (h : readString unit rest = some (value, hasEscape, after)) (count depth : ℤ) :
    countKeys unit count depth (unit '"' :: rest) =
      if depth = 1 ∧ (after.dropWhile (isJsonSpace unit)).head? = some (unit ':') then
        if hasEscape then -1
        else if value = "query".toList.map unit then countKeys unit (count + 1) depth after
        else countKeys unit count depth after
      else countKeys unit count depth after := by
  rw [countKeys, if_pos rfl]
  split
  · next hnone => cases h.symm.trans hnone
  · next hsome =>
    cases h.symm.trans hsome
    rfl

theorem countKeys_append {block : List U} (hplain : ∀ u ∈ block, ∀ d ∈ keyMarks, u ≠ unit d)
    (count depth : ℤ) (rest : List U) :
    countKeys unit count depth (block ++ rest) = countKeys unit count depth rest := by
  induction block with
  | nil => rfl
  | cons u block ih =>
    obtain ⟨hu, hplain⟩ := forall_mem_cons.mp hplain
    have hopen : ¬ (u = unit '{' ∨ u = unit '[') := by
      rintro (h | h)
      · exact hu '{' (by decide) h
      · exact hu '[' (by decide) h
    have hclose : ¬ (u = unit '}' ∨ u = unit ']') := by
      rintro (h | h)
      · exact hu '}' (by decide) h
      · exact hu ']' (by decide) h
    rw [cons_append, countKeys, if_neg (hu '"' (by decide)), if_neg hopen, if_neg hclose]
    exact ih hplain

section Encoded

variable (h : Spells enc unit (· ∈ keySignificant))

include h

omit [DecidableEq U] in
theorem tail_meaningless {c : Char} {u : U} {us : List U} (hblock : enc c = u :: us) :
    ∀ v ∈ us, ∀ d ∈ keySignificant, v ≠ unit d := by
  intro v hv d hd
  cases us with
  | nil => cases hv
  | cons =>
    have hmem : v ∈ enc c := by
      rw [hblock]
      exact mem_cons_of_mem u hv
    exact h.ne_unit_of_long hblock hd v hmem

omit [DecidableEq U] in
theorem backslash_ne_quote : unit '\\' ≠ unit '"' := by
  intro heq
  have hmem : unit '\\' ∈ enc '\\' := by
    rw [h.block_eq (by decide)]
    exact mem_singleton_self _
  exact absurd ((h.unit_eq_iff hmem (d := '"') (by decide)).mp heq) (by decide)

theorem readString_encode (s : List Char) :
    readString unit (encode enc s) = (readString id s).map fun r => (encode enc r.1, r.2.1, encode enc r.2.2) := by
  fun_induction readString id s with
  | case1 => rfl
  | case2 rest =>
    change readString unit (enc '"' ++ encode enc rest) = _
    rw [h.block_eq (by decide), singleton_append, readString.eq_def]
    simp only [if_true]
    rfl
  | case3 hquote =>
    change readString unit (enc '\\' ++ []) = _
    rw [h.block_eq (by decide), singleton_append, readString.eq_def]
    simp only [if_neg (backslash_ne_quote h), if_true]
    rfl
  | case4 d rest hquote ih =>
    -- the escape takes the first unit of the next block, the others are plain contents
    obtain ⟨u, us, hblock⟩ := exists_cons_of_ne_nil (h.block_ne_nil d)
    have hplain : ∀ v ∈ us, v ≠ unit '"' ∧ v ≠ unit '\\' := fun v hv =>
      ⟨tail_meaningless h hblock v hv '"' (by decide), tail_meaningless h hblock v hv '\\' (by decide)⟩
    change readString unit (enc '\\' ++ (enc d ++ encode enc rest)) = _
    rw [h.block_eq (by decide), singleton_append, hblock, cons_append,
      readString_cons_escape (backslash_ne_quote h), readString_append hplain, ih]
    cases readString id rest with
    | none => rfl
    | some =>
      simp only [Option.map_some, encode_cons, hblock]
      rw [h.block_eq (by decide)]
      rfl
  | case5 c rest hquote hback ih =>
    have hplain : ∀ u ∈ enc c, u ≠ unit '"' ∧ u ≠ unit '\\' := fun u hu =>
      ⟨fun heq => hquote ((h.unit_eq_iff hu (by decide)).mp heq),
        fun heq => hback ((h.unit_eq_iff hu (by decide)).mp heq)⟩
    rw [encode_cons, readString_append hplain, ih]
    cases readString id rest <;> rfl

theorem dropWhile_isJsonSpace_encode (s : List Char) :
    (encode enc s).dropWhile (isJsonSpace unit) = encode enc (s.dropWhile (isJsonSpace id)) := by
  refine dropWhile_encode_blockwise h.block_ne_nil (fun c u hu => ?_) s
  have hspace (d : Char) (hd : d ∈ keySignificant) : (u == unit d) = (c == d) := by
    rw [Bool.eq_iff_iff, beq_iff_eq, beq_iff_eq]
    exact h.unit_eq_iff hu hd
  unfold isJsonSpace
  rw [hspace ' ' (by decide), hspace '\t' (by decide), hspace '\n' (by decide), hspace '\r' (by decide)]
  rfl

omit [DecidableEq U] in
theorem head?_encode_eq_unit {d : Char} (hd : d ∈ keySignificant) (s : List Char) :
    (encode enc s).head? = some (unit d) ↔ s.head? = some d := by
  cases s with
  | nil => simp
  | cons c =>
    obtain ⟨u, us, hblock⟩ := exists_cons_of_ne_nil (h.block_ne_nil c)
    have hmem : u ∈ enc c := by
      rw [hblock]
      exact mem_cons_self
    rw [encode_cons, hblock, cons_append, List.head?_cons, List.head?_cons, Option.some.injEq, Option.some.injEq]
    exact h.unit_eq_iff hmem hd

theorem countKeys_encode (count depth : ℤ) (s : List Char) :
    countKeys unit count depth (encode enc s) = countKeys id count depth s := by
  have hkey (value : List Char) :
      encode enc value = "query".toList.map unit ↔ value = "query".toList.map id := by
    exact h.encode_eq_map_iff (by decide) value
  have hcolon (rest : List Char) :
      ((encode enc rest).dropWhile (isJsonSpace unit)).head? = some (unit ':') ↔
        (rest.dropWhile (isJsonSpace id)).head? = some (id ':') := by
    rw [dropWhile_isJsonSpace_encode h]
    exact head?_encode_eq_unit h (by decide) _
  induction hlength : s.length using Nat.strong_induction_on generalizing s count depth with
  | _ n ih =>
  subst hlength
  cases s with
  | nil => rw [encode_nil, countKeys, countKeys]
  | cons c rest =>
    have hrest (count depth : ℤ) :
        countKeys unit count depth (encode enc rest) = countKeys id count depth rest :=
      ih rest.length (Nat.lt_succ_self _) count depth rest rfl
    by_cases hspecial : c ∈ keySignificant
    · have hunit (d : Char) (hd : d ∈ keySignificant) : unit c = unit d ↔ c = id d := by
        refine h.unit_eq_iff ?_ hd
        rw [h.block_eq hspecial]
        exact mem_singleton_self _
      rw [encode_cons, h.block_eq hspecial, singleton_append]
      by_cases hquote : c = '"'
      · subst hquote
        have hread := readString_encode h rest
        cases hchars : readString id rest with
        | none =>
          rw [hchars] at hread
          rw [countKeys_quote_none hread]
          exact (countKeys_quote_none hchars count depth).symm
        | some r =>
          obtain ⟨value, hasEscape, after⟩ := r
          rw [hchars] at hread
          have hafter (count depth : ℤ) :
              countKeys unit count depth (encode enc after) = countKeys id count depth after :=
            ih after.length ((readString_length id hchars).trans (Nat.lt_succ_self _)) count depth after rfl
          rw [countKeys_quote_some hread]
          refine Eq.trans ?_ (countKeys_quote_some hchars count depth).symm
          exact if_congr (and_congr_right fun _ => hcolon after)
            (if_congr Iff.rfl rfl (if_congr (hkey value) (hafter _ _) (hafter _ _))) (hafter _ _)
      · have hnot : ¬ unit c = unit '"' := (hunit '"' (by decide)).not.mpr hquote
        rw [countKeys, countKeys, if_neg hnot, if_neg (show ¬ c = id '"' from hquote)]
        exact if_congr (or_congr (hunit '{' (by decide)) (hunit '[' (by decide))) (hrest _ _)
          (if_congr (or_congr (hunit '}' (by decide)) (hunit ']' (by decide))) (hrest _ _) (hrest _ _))
    · have hplain : ∀ u ∈ enc c, ∀ d ∈ keyMarks, u ≠ unit d := by
        intro u hu d hd heq
        have hmark := mem_keySignificant_of_mem_keyMarks d hd
        exact hspecial ((h.unit_eq_iff hu hmark).mp heq ▸ hmark)
      have hchar : ∀ u ∈ [c], ∀ d ∈ keyMarks, u ≠ id d := by
        intro u hu d hd heq
        rw [mem_singleton.mp hu] at heq
        exact hspecial (heq ▸ mem_keySignificant_of_mem_keyMarks d hd)
      rw [encode_cons, countKeys_append hplain, hrest]
      exact (countKeys_append hchar count depth rest).symm

/-- Keys are counted alike in every encoding. -/
theorem countTopLevelLiteralQueryKeys_encode (s : List Char) :
    countTopLevelLiteralQueryKeys unit (encode enc s) = countTopLevelLiteralQueryKeys id s :=
  countKeys_encode h 0 0 s

end Encoded

end Onecli.Graphql
