import Onecli.Foundation.CommonSubsequence
import Onecli.Gateway.Text
import Mathlib.Data.List.GetD

/-!
# A text change, line by line

`line_diff` and `around_changes` of `summary/src/change.rs`: the new text with every line marked
against the old one, and then the removed lines. A line that is not kept is moved when the old
text lost a line that reads the same; a lost line that the new text still holds somewhere is in
no row.
-/

namespace Onecli.Summary

open CommonSubsequence List Option Bool Function
open Gateway (Str byteLen)

/-- The Unicode tables that words are compared with. -/
structure Letters where
  isAlphanumeric : Char → Bool
  toLowercase : Str → Str

/-- What one row of the diff says. -/
inductive Entry where
  | kept (line : Str)
  | moved (line : Str)
  | edited (line was : Str)
  | added (line : Str)
  | removed (line : Str)

/-- The text of a row. -/
def Entry.text : Entry → Str
  | .kept line => line
  | .moved line => line ++ "   ← moved".toList
  | .edited line was => line ++ "   ← was: ".toList ++ was
  | .added line => line ++ "   ← new".toList
  | .removed line => "(removed) ".toList ++ line

/-- A marked row is part of the change. -/
def Entry.marked : Entry → Bool
  | .kept _ => false
  | _ => true

/-- A line ending in front of the newline that was split at. -/
def stripCr (line : Str) : Str := if line.getLast? = some '\r' then line.dropLast else line

/-- `str::lines`. -/
def lines (s : Str) : List Str :=
  let parts := s.splitOn '\n'
  parts.dropLast.map stripCr ++ (parts.getLast?.filter (!·.isEmpty)).toList

section Similarity

variable (letters : Letters)

/-- The words that lines are compared by. -/
def words (s : Str) : List Str :=
  ((s.splitOnP fun c => !letters.isAlphanumeric c && c != '$' && c != '.').filter (1 < byteLen ·)).map
    letters.toLowercase

/-- How many words a candidate shares with a line, where that is enough. -/
def shared (line candidate : Str) : Option ℕ :=
  let mine := words letters line
  let theirs := words letters candidate
  let shared := (mine.filter theirs.contains).length
  let base := max (min mine.length theirs.length) 1
  if base ≤ shared * 2 ∧ 0 < shared then some shared else none

/-- `max_by_key`: the last of the greatest. -/
def lastMax (best : Option (ℕ × ℕ)) (next : ℕ × ℕ) : Option (ℕ × ℕ) :=
  match best with
  | none => some next
  | some best => if best.2 ≤ next.2 then some next else some best

/-- `most_similar`. -/
def mostSimilar (line : Str) (candidates : List Str) : Option ℕ :=
  let scored := candidates.zipIdx.filterMap fun (candidate, i) => (shared letters line candidate).map (i, ·)
  (scored.foldl lastMax none).map Prod.fst

/-- The rows of the new lines, each with its flag, and then of the removed lines that are left. -/
def rowsOf (removed : List Str) : List Str → List (Str × Bool) → List Entry
  | unpaired, [] => unpaired.map .removed
  | unpaired, (line, true) :: rest => .kept line :: rowsOf removed unpaired rest
  | unpaired, (line, false) :: rest =>
    if removed.contains line then .moved line :: rowsOf removed unpaired rest
    else
      match mostSimilar letters line unpaired with
      | some k => .edited line (unpaired.getD k []) :: rowsOf removed (unpaired.eraseIdx k) rest
      | none => .added line :: rowsOf removed unpaired rest

/-- `out` of `line_diff`: its rows over the lines of the two texts. -/
def diffRows (a b : List Str) : List Entry :=
  let flags := walk (table a b) 0 0 a b
  let removed := flagged false flags.1 a
  rowsOf letters removed (removed.filter (!b.contains ·)) (b.zip flags.2)

end Similarity

/-- The row at a place or one next to it is marked. -/
def near (out : List Entry) (i : ℕ) : Bool := ((out.take (i + 2)).drop (i - 1)).any Entry.marked

/-- The loop of `around_changes` over the places of its rows. -/
def aroundFrom (out : List Entry) : Bool → List (Entry × ℕ) → List Str
  | _, [] => []
  | skipped, (row, i) :: rest =>
    if near out i then row.text :: aroundFrom out false rest
    else if skipped then aroundFrom out true rest
    else "…".toList :: aroundFrom out true rest

/-- `around_changes`. -/
def aroundChanges (out : List Entry) : List Str := aroundFrom out false out.zipIdx

/-- `MAX_DIFF_LINES`. -/
def maxDiffLines : ℕ := 24

/-- `MAX_DIFF_INPUT_LINES`. -/
def maxDiffInputLines : ℕ := 200

/-- `line_diff`. -/
def lineDiff (letters : Letters) (old new : Str) : Str :=
  let out := diffRows letters ((lines old).take maxDiffInputLines) ((lines new).take maxDiffInputLines)
  let cut := decide (maxDiffInputLines < (lines old).length) || decide (maxDiffInputLines < (lines new).length)
  let shown := if maxDiffLines < out.length then aroundChanges out else out.map Entry.text
  let shown := if maxDiffLines < shown.length then
      shown.take maxDiffLines ++
        ["… +".toList ++ (toString (shown.length - maxDiffLines)).toList ++ " more lines".toList]
    else shown
  let shown := if cut then shown ++ ["… longer than 200 lines: the rest is not compared".toList] else shown
  ['\n'].intercalate shown

/-- A short diff is shown as it is. -/
theorem lineDiff_of_short (letters : Letters) {old new : Str} (hold : (lines old).length ≤ maxDiffInputLines)
    (hnew : (lines new).length ≤ maxDiffInputLines)
    (hshort : (diffRows letters (lines old) (lines new)).length ≤ maxDiffLines) :
    lineDiff letters old new = ['\n'].intercalate ((diffRows letters (lines old) (lines new)).map Entry.text) := by
  simp [lineDiff, take_of_length_le hold, take_of_length_le hnew, not_lt.mpr hold,
    not_lt.mpr hnew, not_lt.mpr hshort]

/-! ## What the rows hold -/

/-- The line of the new text that a row shows. -/
def Entry.newLine : Entry → Option Str
  | .kept line | .moved line | .edited line _ | .added line => some line
  | .removed _ => none

/-- The line of a row without a mark. -/
def Entry.keptLine : Entry → Option Str
  | .kept line => some line
  | _ => none

/-- The line of the old text that a row shows as gone. -/
def Entry.goneLine : Entry → Option Str
  | .edited _ was => some was
  | .removed line => some line
  | _ => none

section Rows

variable (letters : Letters)

theorem mem_of_foldl_lastMax {scored : List (ℕ × ℕ)} {best : Option (ℕ × ℕ)} {x : ℕ × ℕ}
    (h : scored.foldl lastMax best = some x) : x ∈ scored ∨ best = some x := by
  induction scored generalizing best with
  | nil => exact Or.inr h
  | cons next scored ih =>
    rcases ih h with hmem | hnext
    · exact Or.inl (mem_cons_of_mem _ hmem)
    · unfold lastMax at hnext
      split at hnext
      · exact Or.inl (some.inj hnext ▸ mem_cons_self)
      · split_ifs at hnext
        · exact Or.inl (some.inj hnext ▸ mem_cons_self)
        · exact Or.inr hnext

theorem mostSimilar_lt {line : Str} {candidates : List Str} {k : ℕ}
    (h : mostSimilar letters line candidates = some k) : k < candidates.length := by
  obtain ⟨x, hx, rfl⟩ := map_eq_some_iff.mp h
  have hmem := (mem_of_foldl_lastMax hx).resolve_right (by simp)
  obtain ⟨⟨candidate, i⟩, hcandidate, hscore⟩ := mem_filterMap.mp hmem
  obtain ⟨score, -, rfl⟩ := map_eq_some_iff.mp hscore
  simpa using (mem_zipIdx hcandidate).2.1

theorem count_eraseIdx {candidates : List Str} {k : ℕ} (h : k < candidates.length) (v : Str) :
    candidates.count v = (if candidates.getD k [] = v then 1 else 0) + (candidates.eraseIdx k).count v := by
  rw [getD_eq_getElem _ _ h]
  have hperm := getElem_cons_eraseIdx_perm h
  rw [← hperm.count_eq v, count_cons, add_comm]
  simp

variable (removed : List Str)

theorem newLines_rowsOf (unpaired : List Str) (flagged : List (Str × Bool)) :
    (rowsOf letters removed unpaired flagged).filterMap Entry.newLine = flagged.map Prod.fst := by
  fun_induction rowsOf letters removed unpaired flagged with
  | case1 unpaired => simp [Entry.newLine, comp_def]
  | case2 unpaired line rest ih | case3 unpaired line rest hmoved ih | case4 unpaired line rest hnew k hk ih
  | case5 unpaired line rest hnew hnone ih => exact congrArg (line :: ·) ih

theorem keptLines_rowsOf (unpaired : List Str) (flags : List Bool) (b : List Str) :
    (rowsOf letters removed unpaired (b.zip flags)).filterMap Entry.keptLine = flagged true flags b := by
  induction b generalizing unpaired flags with
  | nil => cases flags <;> simp [rowsOf, flagged, Entry.keptLine, comp_def]
  | cons line b ih =>
    cases flags with
    | nil => simp [rowsOf, flagged, Entry.keptLine, comp_def]
    | cons flag flags =>
      cases flag with
      | true => exact congrArg (line :: ·) (ih unpaired flags)
      | false =>
        rw [zip_cons_cons, rowsOf]
        split_ifs
        · exact ih unpaired flags
        · split
          · exact ih _ flags
          · exact ih unpaired flags

theorem count_goneLines_rowsOf (unpaired : List Str) (flagged : List (Str × Bool)) (v : Str) :
    ((rowsOf letters removed unpaired flagged).filterMap Entry.goneLine).count v = unpaired.count v := by
  fun_induction rowsOf letters removed unpaired flagged with
  | case1 unpaired => simp [Entry.goneLine, filterMap_map, comp_def]
  | case2 unpaired line rest ih | case3 unpaired line rest hmoved ih | case5 unpaired line rest hnew hnone ih => exact ih
  | case4 unpaired line rest hnew k hk ih =>
    rw [count_eraseIdx (mostSimilar_lt letters hk) v, ← ih]
    simp [Entry.goneLine, count_cons, add_comm]

/-- The rows show the new lines. -/
theorem newLines_diffRows (a b : List Str) : (diffRows letters a b).filterMap Entry.newLine = b := by
  have hlen := (length_walk (table a b) 0 0 a b).2
  rw [diffRows, newLines_rowsOf, map_fst_zip hlen.ge]

/-- What is shown as kept is in both texts. -/
theorem keptLines_diffRows (a b : List Str) :
    ((diffRows letters a b).filterMap Entry.keptLine).Sublist a ∧
      ((diffRows letters a b).filterMap Entry.keptLine).Sublist b := by
  rw [diffRows, keptLines_rowsOf]
  exact ⟨kept_sublist .., flagged_sublist ..⟩

/-- A line of the old text is shown as gone in each of its copies, or in none where the new text
still holds one. -/
theorem count_goneLines_diffRows (a b : List Str) (v : Str) :
    ((diffRows letters a b).filterMap Entry.goneLine).count v = if v ∈ b then 0 else a.count v := by
  rw [diffRows, count_goneLines_rowsOf]
  split_ifs with hmem
  · exact count_eq_zero.mpr fun h => by simp [hmem] at h
  · have hkept : v ∉ flagged true (walk (table a b) 0 0 a b).1 a := by
      rw [flagged_walk]
      exact fun h => hmem ((flagged_sublist true _ b).subset h)
    rw [count_filter (by simpa using hmem), ← count_flagged (length_walk (table a b) 0 0 a b).1 v,
      count_eq_zero.mpr hkept, zero_add]

/-- Equal texts have no marked row. -/
theorem unmarked_of_same (b : List Str) : ∀ row ∈ diffRows letters b b, row.marked = false := by
  have hrows (removed lines : List Str) :
      ∀ row ∈ rowsOf letters removed [] (lines.zip (List.replicate lines.length true)), row.marked = false := by
    induction lines with
    | nil => simp [rowsOf]
    | cons line lines ih =>
      exact forall_mem_cons.mpr ⟨rfl, ih⟩
  have hkept : flagged false (List.replicate b.length true) b = [] := flagged_replicate false b
  simp only [diffRows, walk_self, hkept]
  exact hrows [] b

theorem rows_of_unmarked {rows : List Entry} (h : ∀ row ∈ rows, row.marked = false) :
    rows.filterMap Entry.keptLine = rows.filterMap Entry.newLine ∧ rows.filterMap Entry.goneLine = [] := by
  induction rows with
  | nil => exact ⟨rfl, rfl⟩
  | cons row rows ih =>
    obtain ⟨hkept, hgone⟩ := ih fun row' hmem => h row' (mem_cons_of_mem _ hmem)
    cases row with
    | kept line => exact ⟨congrArg (line :: ·) hkept, hgone⟩
    | _ => exact absurd (h _ mem_cons_self) (by simp [Entry.marked])

end Rows

/-! ## Faithful diffs -/

/-- The diff shows the new text as it will read and every line that it loses. -/
structure Faithful (letters : Letters) (old new : Str) : Prop where
  newLines : (diffRows letters (lines old) (lines new)).filterMap Entry.newLine = lines new
  common : ((diffRows letters (lines old) (lines new)).filterMap Entry.keptLine).Sublist (lines old) ∧
    ((diffRows letters (lines old) (lines new)).filterMap Entry.keptLine).Sublist (lines new)
  missing : ∀ v, (lines old).count v ≤
    (lines new).count v + ((diffRows letters (lines old) (lines new)).filterMap Entry.goneLine).count v
  differs : old ≠ new → ∃ row ∈ diffRows letters (lines old) (lines new), row.marked = true

/-- No line loses some of its copies and keeps others. -/
def LosesAllOrNone (old new : Str) : Prop := ∀ line ∈ lines new, (lines old).count line ≤ (lines new).count line

instance (old new : Str) : Decidable (LosesAllOrNone old new) := inferInstanceAs (Decidable (∀ line ∈ lines new, _))

/-- No removed line is missing exactly where each value loses all copies or none. -/
theorem missing_iff (letters : Letters) (old new : Str) :
    (∀ v, (lines old).count v ≤
      (lines new).count v + ((diffRows letters (lines old) (lines new)).filterMap Entry.goneLine).count v) ↔
      LosesAllOrNone old new := by
  simp only [count_goneLines_diffRows]
  constructor
  · intro h line hmem
    have hline := h line
    rwa [if_pos hmem] at hline
  · intro h v
    split_ifs with hmem
    · exact h v hmem
    · omega

/-- Texts that differ have a marked row. -/
theorem exists_marked (letters : Letters) {old new : Str} (hloses : LosesAllOrNone old new)
    (hne : lines old ≠ lines new) : ∃ row ∈ diffRows letters (lines old) (lines new), row.marked = true := by
  by_contra hnone
  push Not at hnone
  obtain ⟨hkept, hgone⟩ := rows_of_unmarked fun row hrow => eq_false_iff.mpr (hnone row hrow)
  rw [newLines_diffRows] at hkept
  have hsub : (lines new).Sublist (lines old) := hkept ▸ (keptLines_diffRows letters _ _).1
  have hcount : ∀ v, (lines old).count v ≤ (lines new).count v := by
    intro v
    have hv := (missing_iff letters old new).mpr hloses v
    rwa [hgone, count_nil, add_zero] at hv
  have hle : (lines old).length ≤ (lines new).length := (subperm_ext_iff.mpr fun v _ => hcount v).length_le
  exact hne (hsub.eq_of_length_le hle).symm

/-- The diff of short texts is its rows, and is faithful exactly when no line loses some of its
copies and keeps others, and the texts do not differ in their line ends alone. -/
theorem line_diff_faithful_iff (letters : Letters) (old new : Str)
    (hold : (lines old).length ≤ maxDiffInputLines) (hnew : (lines new).length ≤ maxDiffInputLines)
    (hshort : (diffRows letters (lines old) (lines new)).length ≤ maxDiffLines) :
    lineDiff letters old new = ['\n'].intercalate ((diffRows letters (lines old) (lines new)).map Entry.text) ∧
      (Faithful letters old new ↔ LosesAllOrNone old new ∧ (lines old = lines new → old = new)) := by
  refine ⟨lineDiff_of_short letters hold hnew hshort, ?_⟩
  constructor
  · intro h
    refine ⟨(missing_iff letters old new).mp h.missing, fun hlines => ?_⟩
    by_contra hne
    obtain ⟨row, hrow, hmarked⟩ := h.differs hne
    rw [hlines] at hrow
    rw [unmarked_of_same letters _ row hrow] at hmarked
    cases hmarked
  · rintro ⟨hloses, hends⟩
    exact ⟨newLines_diffRows letters _ _, keptLines_diffRows letters _ _, (missing_iff letters old new).mpr hloses,
      fun hne => exists_marked letters hloses fun hlines => hne (hends hlines)⟩

/-- The tables for ASCII texts. -/
def asciiLetters : Letters := ⟨Char.isAlphanum, Gateway.toAsciiLowercase⟩

/-- A text that loses a line and gains another. -/
theorem line_diff_faithful_iff_edit :
    Faithful asciiLetters "Hello Ann\nYour deal\nBye".toList "Hello Ann\nYour new deal".toList :=
  (line_diff_faithful_iff asciiLetters _ _ (by decide) (by decide) (by decide +kernel)).2.mpr
    ⟨by decide, by decide⟩

/-- One of two equal lines is dropped: the diff reads as the new text without a mark. -/
theorem line_diff_drops_a_copy :
    lineDiff asciiLetters "pay\npay".toList "pay".toList = "pay".toList ∧
      ¬ Faithful asciiLetters "pay\npay".toList "pay".toList := by
  refine ⟨by decide +kernel, fun h => ?_⟩
  exact absurd (h.missing "pay".toList) (by decide +kernel)

end Onecli.Summary
