import Onecli.Api.Text
import Mathlib.Logic.Relation

/-!
# Sections of a message

`sectionChunks` of `slack/text.ts`. A cut is taken at a newline in the back half of the window, moved back before a token that is
still open there, and one newline after the cut is swallowed. A token that opens in the front half is not looked at.
-/

namespace Onecli.Channels.SectionChunks

open Api (JsString unit)
open List Option Nat

/-- `SECTION_TEXT_LIMIT`. -/
def SECTION_TEXT_LIMIT : ℕ := 2900

/-- `lastIndexOf`, among the units before an index. -/
def lastIndexOf (u : UInt16) (text : JsString) : ℕ → Option ℕ
  | 0 => none
  | n + 1 => if text[n]? = some u then some n else lastIndexOf u text n

/-- `indexOf`, from an index on. -/
def indexOf (u : UInt16) (text : JsString) (start : ℕ) : Option ℕ := ((text.drop start).idxOf? u).map (· + start)

/-- The cut at a newline in the back half of the window, or at its end. -/
def newlineCut (rest : JsString) : ℕ :=
  match lastIndexOf (unit '\n') (rest.take SECTION_TEXT_LIMIT) SECTION_TEXT_LIMIT with
  | some newline => if SECTION_TEXT_LIMIT / 2 < newline then newline else SECTION_TEXT_LIMIT
  | none => SECTION_TEXT_LIMIT

/-- The cut, before a token of the back half that is still open there. -/
def cutAt (rest : JsString) : ℕ :=
  match lastIndexOf (unit '<') rest (newlineCut rest) with
  | some opened =>
    if SECTION_TEXT_LIMIT / 2 < opened ∧ (indexOf (unit '>') rest opened).all (newlineCut rest ≤ ·) then opened
    else newlineCut rest
  | none => newlineCut rest

/-- What is left after a cut, without one newline. -/
def afterCut (rest : JsString) : JsString :=
  let rest := rest.drop (cutAt rest)
  if rest.head? = some (unit '\n') then rest.tail else rest

section Indices

variable {u : UInt16} {text : JsString} {n i : ℕ}

/-- The last occurrence below a bound. -/
theorem lastIndexOf_eq_some_iff : lastIndexOf u text n = some i ↔
    i < n ∧ text[i]? = some u ∧ ∀ j, i < j → j < n → text[j]? ≠ some u := by
  induction n with
  | zero => exact iff_of_false nofun fun h => absurd h.1 (not_lt_zero i)
  | succ n ih =>
    rw [lastIndexOf]
    split_ifs with hat
    · constructor
      · intro h
        obtain rfl := some.inj h
        exact ⟨lt_succ_self n, hat, fun j hj hlt => absurd hj (not_lt.mpr (le_of_lt_succ hlt))⟩
      · rintro ⟨hi, -, hlast⟩
        by_contra hne
        have hlt : i < n := by
          have : i ≠ n := fun heq => hne (congrArg some heq.symm)
          omega
        exact hlast n hlt (lt_succ_self n) hat
    · rw [ih]
      constructor
      · rintro ⟨hi, hunit, hlast⟩
        refine ⟨lt_succ_of_lt hi, hunit, fun j hj hlt => ?_⟩
        rcases Nat.lt_succ_iff_lt_or_eq.mp hlt with hlt | rfl
        · exact hlast j hj hlt
        · exact hat
      · rintro ⟨hi, hunit, hlast⟩
        have hne : i ≠ n := by
          rintro rfl
          exact hat hunit
        exact ⟨by omega, hunit, fun j hj hlt => hlast j hj (lt_succ_of_lt hlt)⟩

theorem indexOf_all_iff {cut : ℕ} :
    (indexOf u text i).all (cut ≤ ·) = true ↔ ∀ j, i ≤ j → j < cut → text[j]? ≠ some u := by
  rw [indexOf]
  cases hfind : (text.drop i).idxOf? u with
  | none =>
    refine iff_of_true rfl fun j hj _ hunit => List.idxOf?_eq_none_iff.mp hfind ?_
    refine mem_of_getElem? (i := j - i) ?_
    rw [List.getElem?_drop, Nat.add_sub_cancel' hj]
    exact hunit
  | some k =>
    obtain ⟨hk, hunit, hfirst⟩ := List.idxOf?_eq_some_iff.mp hfind
    rw [map_some, all_some, decide_eq_true_eq]
    constructor
    · intro hcut j hj hlt hother
      have hlen : j - i < (text.drop i).length := by omega
      refine hfirst (j - i) (by omega) ?_
      have hat : (text.drop i)[j - i]? = some u := by
        rw [List.getElem?_drop, Nat.add_sub_cancel' hj]
        exact hother
      exact some.inj ((List.getElem?_eq_getElem hlen).symm.trans hat)
    · intro hnone
      by_contra hlt
      refine hnone (k + i) (le_add_left i k) (not_le.mp hlt) ?_
      rw [add_comm, ← List.getElem?_drop, List.getElem?_eq_getElem hk, hunit]

/-- A search below a cut does not see it. -/
theorem lastIndexOf_take {m : ℕ} (h : n ≤ m) : lastIndexOf u (text.take m) n = lastIndexOf u text n := by
  induction n with
  | zero => rfl
  | succ n ih => rw [lastIndexOf, lastIndexOf, List.getElem?_take_of_lt h, ih (le_of_succ_le h)]

/-- The last occurrence is found. -/
theorem lastIndexOf_append {front back : JsString} (hback : u ∉ back) (hlt : front.length < n) :
    lastIndexOf u (front ++ u :: back) n = some front.length := by
  refine lastIndexOf_eq_some_iff.mpr ⟨hlt, by simp, fun j hj _ hunit => hback ?_⟩
  obtain ⟨k, rfl⟩ := Nat.exists_eq_add_of_lt hj
  rw [Nat.add_assoc, List.getElem?_append_right (Nat.le_add_right _ _), Nat.add_sub_cancel_left] at hunit
  exact mem_of_getElem? hunit

end Indices

theorem half_lt_newlineCut (rest : JsString) :
    SECTION_TEXT_LIMIT / 2 < newlineCut rest ∧ newlineCut rest ≤ SECTION_TEXT_LIMIT := by
  have hlimit : SECTION_TEXT_LIMIT / 2 < SECTION_TEXT_LIMIT := by decide
  rw [newlineCut]
  split
  · rename_i newline hnewline
    split_ifs with hhalf
    · exact ⟨hhalf, le_of_lt (lastIndexOf_eq_some_iff.mp hnewline).1⟩
    · exact ⟨hlimit, le_refl _⟩
  · exact ⟨hlimit, le_refl _⟩

/-- A cut is in the second half. -/
theorem cutAt_bounds (rest : JsString) : SECTION_TEXT_LIMIT / 2 < cutAt rest ∧ cutAt rest ≤ SECTION_TEXT_LIMIT := by
  obtain ⟨hhalf, hlimit⟩ := half_lt_newlineCut rest
  rw [cutAt]
  split
  · rename_i opened hopened
    split_ifs with hmoves
    · exact ⟨hmoves.1, le_trans (le_of_lt (lastIndexOf_eq_some_iff.mp hopened).1) hlimit⟩
    · exact ⟨hhalf, hlimit⟩
  · exact ⟨hhalf, hlimit⟩

theorem length_afterCut_le (rest : JsString) : (afterCut rest).length ≤ rest.length - cutAt rest := by
  rw [← length_drop, afterCut]
  split_ifs
  · exact le_trans (le_of_eq length_tail) (sub_le _ _)
  · exact le_refl _

/-- `sectionChunks`. -/
def sectionChunks (text : JsString) : List JsString :=
  if SECTION_TEXT_LIMIT < text.length then text.take (cutAt text) :: sectionChunks (afterCut text)
  else if text = [] then [] else [text]
termination_by text.length
decreasing_by
  have hle := length_afterCut_le text
  have hcut := (cutAt_bounds text).1
  omega

/-- One turn of the loop. -/
def Cuts (rest rest' : JsString) : Prop := SECTION_TEXT_LIMIT < rest.length ∧ rest' = afterCut rest

/-- A text that the loop cuts. -/
def IsCut (text rest : JsString) : Prop := Relation.ReflTransGen Cuts text rest ∧ SECTION_TEXT_LIMIT < rest.length

/-- A `<...>` token. -/
def IsToken (token : JsString) : Prop :=
  ∃ inner, token = unit '<' :: (inner ++ [unit '>']) ∧ unit '<' ∉ inner ∧ unit '>' ∉ inner

/-- The chunks joined, with a newline put back exactly at the cuts where the text had one. -/
inductive Joins : JsString → List JsString → Prop
  | empty : Joins [] []
  | last (text : JsString) : Joins text [text]
  | cut (chunk : JsString) {rest : JsString} {chunks : List JsString} (h : rest.head? ≠ some (unit '\n'))
      (hrest : Joins rest chunks) : Joins (chunk ++ rest) (chunk :: chunks)
  | newline (chunk : JsString) {rest : JsString} {chunks : List JsString} (hrest : Joins rest chunks) :
      Joins (chunk ++ unit '\n' :: rest) (chunk :: chunks)

/-- A short token holds a place of a text between two of its units. -/
def Spans (text : JsString) (place : ℕ) : Prop :=
  ∃ front token back, text = front ++ token ++ back ∧ IsToken token ∧ token.length < SECTION_TEXT_LIMIT / 2 ∧
    front.length < place ∧ place < front.length + token.length

/-- What sections promise. -/
structure Chunked (text : JsString) (chunks : List JsString) : Prop where
  bounded : ∀ chunk ∈ chunks, chunk ≠ [] ∧ chunk.length ≤ SECTION_TEXT_LIMIT
  joins : Joins text chunks
  tokens : ∀ rest, IsCut text rest → ¬ Spans text (text.length - rest.length + cutAt rest)

/-- The newline at which a text is cut is inside a short token that opens in the front half. -/
def TearsAtNewline (rest : JsString) : Prop :=
  ∃ front token back newline, rest = front ++ token ++ back ∧ IsToken token ∧
    token.length < SECTION_TEXT_LIMIT / 2 ∧ front.length ≤ SECTION_TEXT_LIMIT / 2 ∧
    lastIndexOf (unit '\n') (rest.take SECTION_TEXT_LIMIT) SECTION_TEXT_LIMIT = some newline ∧
    SECTION_TEXT_LIMIT / 2 < newline ∧ newline < front.length + token.length

/-- No chunk is empty or above the limit. -/
theorem sectionChunks_bounded (text : JsString) :
    ∀ chunk ∈ sectionChunks text, chunk ≠ [] ∧ chunk.length ≤ SECTION_TEXT_LIMIT := by
  fun_induction sectionChunks text with
  | case1 text hlong ih =>
    obtain ⟨hhalf, hlimit⟩ := cutAt_bounds text
    refine forall_mem_cons.mpr ⟨⟨fun hnil => ?_, ?_⟩, ih⟩
    · have hlength := congrArg List.length hnil
      rw [length_take, length_nil] at hlength
      omega
    · exact le_trans (length_take_le _ _) hlimit
  | case2 => nofun
  | case3 text hshort hne => exact forall_mem_singleton.mpr ⟨hne, not_lt.mp hshort⟩

/-- The chunks join to the text. -/
theorem joins_sectionChunks (text : JsString) : Joins text (sectionChunks text) := by
  fun_induction sectionChunks text with
  | case1 text hlong ih =>
    conv_lhs => rw [← take_append_drop (cutAt text) text]
    by_cases hnewline : (text.drop (cutAt text)).head? = some (unit '\n')
    · obtain ⟨rest, hrest⟩ := List.head?_eq_some_iff.mp hnewline
      have hafter : afterCut text = rest := by rw [afterCut, hrest, if_pos List.head?_cons, tail_cons]
      rw [hafter] at ih ⊢
      rw [hrest]
      exact .newline _ ih
    · have hafter : afterCut text = text.drop (cutAt text) := by rw [afterCut, if_neg hnewline]
      rw [hafter] at ih ⊢
      exact .cut _ hnewline ih
  | case2 => exact .empty
  | case3 text => exact .last text

section Tokens

variable {front token back : JsString} {place : ℕ}

theorem IsToken.inside (h : IsToken token) {k : ℕ} :
    (0 < k → token[k]? ≠ some (unit '<')) ∧ (k + 1 < token.length → token[k]? ≠ some (unit '>')) := by
  obtain ⟨inner, rfl, hopen, hclose⟩ := h
  constructor
  · intro hk hat
    obtain ⟨k, rfl⟩ := Nat.exists_eq_succ_of_ne_zero (Nat.ne_of_gt hk)
    rcases mem_append.mp (mem_of_getElem? (List.getElem?_cons_succ ▸ hat)) with hmem | hmem
    · exact hopen hmem
    · exact absurd (mem_singleton.mp hmem) (by decide)
  · intro hk hat
    rw [← cons_append, List.getElem?_append_left (by simpa using hk)] at hat
    rcases mem_cons.mp (mem_of_getElem? hat) with heq | hmem
    · exact absurd heq (by decide)
    · exact hclose hmem

theorem getElem?_token {k : ℕ} (hk : k < token.length) : (front ++ token ++ back)[front.length + k]? = token[k]? := by
  rw [append_assoc, List.getElem?_append_right (Nat.le_add_right _ _), Nat.add_sub_cancel_left,
    List.getElem?_append_left hk]

/-- The last opening before a place in a token is the token's own, and the token is open there. -/
theorem IsToken.lastIndexOf_open (h : IsToken token) (hplace : front.length < place)
    (hend : place < front.length + token.length) :
    lastIndexOf (unit '<') (front ++ token ++ back) place = some front.length ∧
      ∀ j, front.length ≤ j → j < place → (front ++ token ++ back)[j]? ≠ some (unit '>') := by
  have hat {j : ℕ} (hj : front.length ≤ j) (hlt : j ≤ place) :
      (front ++ token ++ back)[j]? = token[j - front.length]? := by
    obtain ⟨k, rfl⟩ := Nat.exists_eq_add_of_le hj
    rw [getElem?_token (by omega), Nat.add_sub_cancel_left]
  refine ⟨lastIndexOf_eq_some_iff.mpr ⟨hplace, ?_, fun j hj hlt => ?_⟩, fun j hj hlt => ?_⟩
  · rw [hat (Nat.le_refl _) (Nat.le_of_lt hplace), Nat.sub_self]
    obtain ⟨inner, rfl, -⟩ := h
    rfl
  · rw [hat (le_of_lt hj) (le_of_lt hlt)]
    exact h.inside.1 (Nat.sub_pos_of_lt hj)
  · rw [hat hj (le_of_lt hlt)]
    exact h.inside.2 (by omega)

end Tokens

/-- A cut is inside a short token of what is left exactly where it is taken at a newline of the token. -/
theorem spans_cutAt_iff (rest : JsString) : Spans rest (cutAt rest) ↔ TearsAtNewline rest := by
  constructor
  · rintro ⟨front, token, back, rfl, htoken, hshort, hfront, hend⟩
    have hcut : cutAt (front ++ token ++ back) = newlineCut (front ++ token ++ back) ∧
        front.length ≤ SECTION_TEXT_LIMIT / 2 := by
      revert hfront hend
      rw [cutAt]
      split
      · rename_i opened hopened
        split_ifs with hmoves <;> intro hfront hend
        · -- the place before a token that is open cannot be inside of another one
          obtain ⟨-, hunit, -⟩ := lastIndexOf_eq_some_iff.mp hopened
          obtain ⟨k, rfl⟩ := Nat.exists_eq_add_of_lt hfront
          rw [add_assoc, getElem?_token (by omega)] at hunit
          exact absurd hunit (htoken.inside.1 (succ_pos k))
        · obtain ⟨hlast, hopen⟩ := @IsToken.lastIndexOf_open _ _ back _ htoken hfront hend
          obtain rfl : front.length = opened := some.inj (hlast.symm.trans hopened)
          refine ⟨rfl, not_lt.mp fun hhalf => hmoves ⟨hhalf, indexOf_all_iff.mpr hopen⟩⟩
      · rename_i hnone
        intro hfront hend
        rw [(htoken.lastIndexOf_open hfront hend).1] at hnone
        cases hnone
    obtain ⟨hcut, hhalf⟩ := hcut
    rw [hcut, newlineCut] at hend
    split at hend
    · rename_i newline hnewline
      split_ifs at hend with hback
      · exact ⟨front, token, back, newline, rfl, htoken, hshort, hhalf, hnewline, hback, hend⟩
      · omega
    · omega
  · rintro ⟨front, token, back, newline, rfl, htoken, hshort, hhalf, hnewline, hback, hend⟩
    have hcut : newlineCut (front ++ token ++ back) = newline := by
      rw [newlineCut, hnewline]
      exact if_pos hback
    have hstays : cutAt (front ++ token ++ back) = newline := by
      rw [cutAt, hcut, (htoken.lastIndexOf_open (lt_of_le_of_lt hhalf hback) hend).1]
      exact if_neg fun h => absurd h.1 (not_lt.mpr hhalf)
    exact ⟨front, token, back, rfl, htoken, hshort, hstays ▸ lt_of_le_of_lt hhalf hback, hstays ▸ hend⟩

theorem IsCut.suffix {text rest : JsString} (h : IsCut text rest) : rest <:+ text := by
  obtain ⟨hrun, -⟩ := h
  induction hrun with
  | refl => exact suffix_refl text
  | tail _ hcuts ih =>
    obtain ⟨-, rfl⟩ := hcuts
    refine List.IsSuffix.trans ?_ ih
    rw [afterCut]
    split_ifs
    · exact (tail_suffix _).trans (drop_suffix _ _)
    · exact drop_suffix _ _

/-- A short token at a cut lies in what is left there. -/
theorem spans_iff {text rest : JsString} (h : IsCut text rest) :
    Spans text (text.length - rest.length + cutAt rest) ↔ Spans rest (cutAt rest) := by
  obtain ⟨before, rfl⟩ := h.suffix
  have hhalf := (cutAt_bounds rest).1
  rw [length_append, Nat.add_sub_cancel]
  constructor
  · rintro ⟨front, token, back, hsplit, htoken, hshort, hfront, hend⟩
    rw [append_assoc] at hsplit
    rcases append_eq_append_iff.mp hsplit with ⟨front', rfl, hrest⟩ | ⟨tail, rfl, -⟩
    · rw [length_append] at hfront hend
      exact ⟨front', token, back, hrest.trans (append_assoc _ _ _).symm, htoken, hshort, by omega, by omega⟩
    · rw [length_append] at hend
      omega
  · rintro ⟨front, token, back, rfl, htoken, hshort, hfront, hend⟩
    refine ⟨before ++ front, token, back, by simp, htoken, hshort, ?_, ?_⟩ <;> rw [length_append] <;> omega

/-- Sections are as promised exactly where no text that the loop cuts tears a token at a newline. -/
theorem sectionChunks_iff (text : JsString) :
    Chunked text (sectionChunks text) ↔ ∀ rest, IsCut text rest → ¬ TearsAtNewline rest := by
  have htokens (rest : JsString) (h : IsCut text rest) :
      Spans text (text.length - rest.length + cutAt rest) ↔ TearsAtNewline rest :=
    (spans_iff h).trans (spans_cutAt_iff rest)
  constructor
  · exact fun h rest hcut htears => h.tokens rest hcut ((htokens rest hcut).mpr htears)
  · exact fun h => ⟨sectionChunks_bounded text, joins_sectionChunks text,
      fun rest hcut hspans => h rest hcut ((htokens rest hcut).mp hspans)⟩

/-- A token with a newline, which opens just before the middle of the window and ends just after it. -/
def tornText : JsString :=
  List.replicate 1440 (unit 'a') ++ (unit '<' :: (List.replicate 20 (unit 'a') ++ unit '\n' ::
    List.replicate 5 (unit 'a') ++ [unit '>'])) ++ List.replicate 2000 (unit 'b')

/-- The token is cut at its newline. -/
theorem tornText_not_chunked : ¬ ∀ text, Chunked text (sectionChunks text) := by
  intro h
  have hlong : SECTION_TEXT_LIMIT < tornText.length := by
    simp only [tornText, List.length_append, List.length_cons, List.length_replicate, List.length_nil]
    decide
  have hsplit : tornText = (List.replicate 1440 (unit 'a') ++ unit '<' :: List.replicate 20 (unit 'a')) ++
      unit '\n' :: (List.replicate 5 (unit 'a') ++ unit '>' :: List.replicate 2000 (unit 'b')) := by
    simp only [tornText, List.append_assoc, List.cons_append, List.nil_append]
  have hlength : (List.replicate 1440 (unit 'a') ++ unit '<' :: List.replicate 20 (unit 'a')).length = 1461 := by
    rw [List.length_append, List.length_cons, List.length_replicate, List.length_replicate]
  refine (sectionChunks_iff tornText).mp (h tornText) tornText ⟨.refl, hlong⟩
    ⟨_, _, _, 1461, rfl, ⟨_, rfl, by decide, by decide⟩, by decide, ?_, ?_, by decide, ?_⟩
  · rw [List.length_replicate]
    decide
  · rw [lastIndexOf_take (le_refl _), ← hlength, hsplit]
    refine lastIndexOf_append ?_ (hlength ▸ by decide)
    simp only [List.mem_append, List.mem_cons, List.mem_replicate]
    decide
  · rw [List.length_replicate]
    decide

end Onecli.Channels.SectionChunks
