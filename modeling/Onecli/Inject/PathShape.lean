import Onecli.Foundation.UrlPath
import Onecli.Inject.Rules

/-!
# The shape of a rewritten path

`apply_set_path` and `apply_replace_path_regex` write a secret into the path as it is, once `is_path_safe` has passed it. The
check stops what ends a segment or the path, but no backslash and no dots, which a URL parser reads too.
-/

namespace Onecli.Inject

open UrlPath (fill pieces countSegments)
open Gateway (Str)
open List Option Bool

/-- A rewrite of the path, whose secret is left open. -/
inductive PathRewrite where
  | setPath (template : Str)
  | replacePathRegex (pattern replacement : Str)

/-- The path with the secret in it, where it is rewritten. -/
def PathRewrite.apply (crates : Crates) (requestPath value : Str) : PathRewrite → Option Str
  | .setPath template => applySetPath requestPath template value
  | .replacePathRegex pattern replacement => applyReplacePathRegex crates requestPath pattern replacement value

/-- The rewritten path part, with a hole wherever the secret goes. -/
def PathRewrite.text (crates : Crates) (requestPath : Str) : PathRewrite → Option (List (Option Char))
  | .setPath template => do
    let (front, back) ← splitFirst hole template
    if (splitFirst hole back).isSome then none
    let afterFront ← (splitPathSuffix requestPath).1.dropPrefix? front
    let afterHole := afterFront.dropWhile (· ≠ '/')
    if !back.isPrefixOf afterHole then none
    return front.map some ++ none :: afterHole.map some
  | .replacePathRegex pattern replacement => do
    let captures ← (← crates.regex pattern) (splitPathSuffix requestPath).1
    let segments := (splitHoles replacement.length replacement).map captures.expand
    return captures.before.map some ++ [none].intercalate (segments.map (·.map some)) ++ captures.after.map some

theorem fill_append (value : Str) (text text' : List (Option Char)) :
    fill value (text ++ text') = fill value text ++ fill value text' := flatMap_append

theorem fill_map (value s : Str) : fill value (s.map some) = s := by
  induction s with
  | nil => rfl
  | cons c s ih => exact congrArg (c :: ·) ih

theorem fill_intercalate (value : Str) (segments : List Str) :
    fill value ([none].intercalate (segments.map (·.map some))) = value.intercalate segments := by
  induction segments with
  | nil => rfl
  | cons segment segments ih =>
    cases segments with
    | nil => simp [intercalate_singleton, fill_map]
    | cons =>
      rw [map_cons, map_cons, intercalate_cons_cons, fill_append, fill_append, fill_map, ← map_cons, ih]
      simp [fill]

/-- A path-safe secret is put into the holes, and the rewrite is kept where it starts with a slash. -/
theorem PathRewrite.apply_spec {crates : Crates} {rewrite : PathRewrite} {path value out : Str}
    (h : rewrite.apply crates path value = some out) :
    ∃ text, rewrite.text crates path = some text ∧ isPathSafe value = true ∧ "/".toList <+: fill value text ∧
      out = fill value text ++ (splitPathSuffix path).2 := by
  cases rewrite with
  | setPath template =>
    simp only [PathRewrite.apply, applySetPath, Option.pure_def, bind_eq_bind, bind_none,
      bind_eq_some_iff, ite_none_left_eq_some, not_eq_true, isSome_eq_false_iff,
      isNone_iff_eq_none, Bool.not_eq_true', not_eq_false, Option.some.injEq, Prod.exists] at h
    obtain ⟨front, back, hsplit, honce, hsafe, afterFront, hfront, hback, hslash, rfl⟩ := h
    have htext : (PathRewrite.setPath template).text crates path =
        some (front.map some ++ none :: (afterFront.dropWhile (· ≠ '/')).map some) := by
      simpa [PathRewrite.text, hsplit, honce, hfront] using isPrefixOf_iff_prefix.mp hback
    have hfill : front ++ value ++ afterFront.dropWhile (· ≠ '/') =
        fill value (front.map some ++ none :: (afterFront.dropWhile (· ≠ '/')).map some) := by
      rw [fill_append, fill_map, append_assoc]
      exact congrArg (fun back => front ++ (value ++ back)) (fill_map value _).symm
    rw [hfill] at hslash ⊢
    exact ⟨_, htext, hsafe, isPrefixOf_iff_prefix.mp hslash, rfl⟩
  | replacePathRegex pattern repl =>
    simp only [PathRewrite.apply, applyReplacePathRegex, Option.pure_def, bind_eq_bind, bind_none,
      bind_eq_some_iff, ite_none_left_eq_some, Bool.not_eq_true', not_eq_false, Option.some.injEq] at h
    obtain ⟨hsafe, find, hregex, captures, hfind, hslash, rfl⟩ := h
    have htext : (PathRewrite.replacePathRegex pattern repl).text crates path =
        some (captures.before.map some ++
          [none].intercalate (((splitHoles repl.length repl).map captures.expand).map (·.map some)) ++
            captures.after.map some) := by
      simp [PathRewrite.text, hregex, hfind]
    rw [← fill_intercalate value, ← fill_map value captures.before, ← fill_map value captures.after, ← fill_append,
      ← fill_append] at hslash ⊢
    exact ⟨_, htext, hsafe, isPrefixOf_iff_prefix.mp hslash, rfl⟩

/-- The number of segments of a path, as a URL parser reads it. -/
def segmentCount (path : Str) : ℕ := (UrlPath.pathStart (UrlPath.withoutTabs path)).length

/-- An alphanumeric value that is no part of a spelling of a dot. -/
structure IsPlain (value : Str) : Prop where
  alphanumeric : ∀ c ∈ value, c.isAlphanum = true
  other : ∃ c ∈ value, c.toLower ∉ ".%2e".toList

/-- What a rewrite promises: only the secret is new, and a plain value would make as many segments. -/
structure KeepsShape (crates : Crates) (rewrite : PathRewrite) (requestPath value out : Str) : Prop where
  slash : "/".toList <+: out
  suffix : (splitPathSuffix out).2 = (splitPathSuffix requestPath).2
  holes : ∃ text, rewrite.text crates requestPath = some text ∧ out = fill value text ++ (splitPathSuffix requestPath).2
  segments : ∀ plain out', IsPlain plain → rewrite.apply crates requestPath plain = some out' →
    segmentCount out = segmentCount out'

/-- The text without tabs and newlines, which a URL parser drops. -/
def withoutTabs (text : List (Option Char)) : List (Option Char) := text.filter fun c => c.all (· ∉ "\t\n\r".toList)

/-- The piece reads as a dot segment. -/
def isDots (piece : Str) : Bool :=
  UrlPath.isDoubleDot (piece.flatMap UrlPath.encodePathChar) || UrlPath.isSingleDot (piece.flatMap UrlPath.encodePathChar)

/-- What keeps the shape: nothing in the text ends the path part, and the value makes no piece of its own and no dots. -/
structure Fits (text : List (Option Char)) (value : Str) : Prop where
  delimiter : ∀ c, some c ∈ text → endsPathPart c = false
  backslash : '\\' ∉ value
  dots : ∀ piece ∈ pieces (withoutTabs text), none ∈ piece → isDots (fill value piece) = false

/-- The characters of a safe value. -/
theorem safe_char {value : Str} (h : isPathSafe value = true) {c : Char} (hc : c ∈ value) :
    c ≠ '/' ∧ endsPathPart c = false ∧ c ∉ "\t\n\r".toList := by
  have hany := List.any_eq_false.mp ((Bool.not_eq_true' _).mp h) c hc
  refine ⟨?_, ?_, ?_⟩
  · rintro rfl
    exact hany rfl
  · cases hends : endsPathPart c with
    | false => rfl
    | true =>
      rw [endsPathPart, or_eq_true, beq_iff_eq, beq_iff_eq] at hends
      rcases hends with rfl | rfl
      · exact absurd rfl hany
      · exact absurd rfl hany
  · intro hmem
    have hcases : c = '\t' ∨ c = '\n' ∨ c = '\r' := by simpa using hmem
    rcases hcases with rfl | rfl | rfl <;> exact hany rfl

theorem withoutTabs_fill {value : Str} (h : isPathSafe value = true) (text : List (Option Char)) :
    UrlPath.withoutTabs (fill value text) = fill value (withoutTabs text) := by
  have hvalue : value.filter (· ∉ "\t\n\r".toList) = value :=
    filter_eq_self.mpr fun c hc => decide_eq_true (safe_char h hc).2.2
  induction text with
  | nil => rfl
  | cons c text ih =>
    cases c with
    | none =>
      change (value ++ fill value text).filter _ = value ++ fill value (withoutTabs text)
      rw [filter_append, hvalue, ← ih]
      rfl
    | some c =>
      change (c :: fill value text).filter _ = fill value ((some c :: text).filter _)
      rw [filter_cons, filter_cons, all_some]
      split_ifs
      · exact congrArg (c :: ·) ih
      · exact ih

theorem plain_char {c : Char} (hc : c.isAlphanum = true) :
    UrlPath.isSeparator c = false ∧ UrlPath.encodePathChar c = [c] := by
  have hne {d : Char} (hd : d.isAlphanum = false) : c ≠ d := by
    rintro rfl
    exact absurd hc (eq_false_iff.mp hd)
  have hset : UrlPath.inPathSet c = false := by
    have hrange : 0x1F < c.toNat ∧ c.toNat ≤ 0x7E := by
      cases or_eq_true_iff.mp hc with
      | inl halpha =>
        have := (CodeUnits.isAlpha_iff c).mp halpha
        omega
      | inr hdigit =>
        simp only [Char.isDigit, and_eq_true, decide_eq_true_eq, ge_iff_le, UInt32.le_iff_toNat_le] at hdigit
        obtain ⟨_, _⟩ := hdigit
        simp_all
        omega
    have hlisted : c ∉ " \"#<>?^\x60\x7b\x7d".toList := by
      intro hmem
      have hall : ∀ d ∈ " \"#<>?^\x60\x7b\x7d".toList, d.isAlphanum = false := by decide
      exact hne (hall c hmem) rfl
    rw [UrlPath.inPathSet, decide_eq_false (not_le.mpr hrange.1), decide_eq_false (not_lt.mpr hrange.2),
      decide_eq_false hlisted]
    rfl
  refine ⟨?_, ?_⟩
  · simp [UrlPath.isSeparator, hne (d := '/') rfl, hne (d := '\\') rfl]
  · rw [UrlPath.encodePathChar, hset, if_neg Bool.false_ne_true]

/-- A filled segment is no dot segment. -/
theorem not_isDots_of_plain {plain : Str} (h : IsPlain plain) {piece : List (Option Char)} (hhole : none ∈ piece) :
    isDots (fill plain piece) = false := by
  obtain ⟨c, hc, hother⟩ := h.other
  have hmem : c.toLower ∈ ((fill plain piece).flatMap UrlPath.encodePathChar).map Char.toLower := by
    refine List.mem_map_of_mem (mem_flatMap.mpr ⟨c, mem_flatMap.mpr ⟨none, hhole, hc⟩, ?_⟩)
    rw [(plain_char (h.alphanumeric c hc)).2]
    exact mem_singleton_self c
  have hfree {spellings : List Str} (hspellings : ∀ s ∈ spellings, s ⊆ ".%2e".toList) :
      decide (((fill plain piece).flatMap UrlPath.encodePathChar).map Char.toLower ∈ spellings) = false :=
    decide_eq_false fun hdots => hother (hspellings _ hdots hmem)
  rw [isDots, UrlPath.isDoubleDot, UrlPath.isSingleDot, hfree (by decide), hfree (by decide)]
  rfl

/-- A safe value adds no delimiter. -/
theorem fill_no_delimiter_iff {value : Str} (h : isPathSafe value = true) (text : List (Option Char)) :
    (∀ c ∈ fill value text, endsPathPart c = false) ↔ ∀ c, some c ∈ text → endsPathPart c = false := by
  constructor
  · exact fun hall c hc => hall c (mem_flatMap.mpr ⟨some c, hc, mem_singleton_self c⟩)
  · intro hall c hc
    obtain ⟨d, hd, hcd⟩ := mem_flatMap.mp hc
    cases d with
    | none => exact (safe_char h hcd).2.1
    | some =>
      obtain rfl := mem_singleton.mp hcd
      exact hall c hd

/-- A path ends at its query or fragment. -/
theorem endsPathPart_iff (c : Char) : endsPathPart c = true ↔ c = '?' ∨ c = '#' := by simp [endsPathPart]

/-- The path, and what follows it. -/
theorem splitPathSuffix_eq (path : Str) :
    (splitPathSuffix path).1 = path.takeWhile (!endsPathPart ·) ∧
      (splitPathSuffix path).2 = path.dropWhile (!endsPathPart ·) := by
  rw [splitPathSuffix, span_eq_takeWhile_dropWhile]
  exact ⟨rfl, rfl⟩

/-- The suffix stays where the front has no delimiter. -/
theorem suffix_kept_iff {front path : Str} :
    (splitPathSuffix (front ++ (splitPathSuffix path).2)).2 = (splitPathSuffix path).2 ↔
      ∀ c ∈ front, endsPathPart c = false := by
  have hfront : front.dropWhile (!endsPathPart ·) = [] ↔ ∀ c ∈ front, endsPathPart c = false := by
    simp [dropWhile_eq_nil_iff]
  rw [(splitPathSuffix_eq _).2, (splitPathSuffix_eq path).2, dropWhile_append, ← hfront]
  cases hdrop : front.dropWhile (!endsPathPart ·) with
  | nil => exact iff_of_true (dropWhile_idempotent _ _) rfl
  | cons c tail =>
    refine iff_of_false (fun heq => ?_) (cons_ne_nil c tail)
    have hlength := congrArg List.length heq
    simp at hlength
    omega

/-- How a URL parser counts the segments of a rewritten path. -/
theorem segmentCount_fill {text : List (Option Char)} {value rest : Str} (hsafe : isPathSafe value = true)
    (hbackslash : '\\' ∉ value) (htext : ∀ c, some c ∈ text → endsPathPart c = false)
    (hrest : rest = [] ∨ ∃ c tail, rest = c :: tail ∧ (c = '?' ∨ c = '#')) :
    segmentCount (fill value (some '/' :: text) ++ rest) =
      countSegments 0 ((pieces (withoutTabs text)).map fun piece =>
        (fill value piece).flatMap UrlPath.encodePathChar) := by
  have hrest' : UrlPath.withoutTabs rest = [] ∨
      ∃ c tail, UrlPath.withoutTabs rest = c :: tail ∧ (c = '?' ∨ c = '#') := by
    rcases hrest with rfl | ⟨c, tail, rfl, hc⟩
    · exact Or.inl rfl
    · refine Or.inr ⟨c, UrlPath.withoutTabs tail, filter_cons_of_pos (decide_eq_true ?_), hc⟩
      rcases hc with rfl | rfl <;> decide
  have hread : UrlPath.withoutTabs (fill value (some '/' :: text) ++ rest) =
      '/' :: (fill value (withoutTabs text) ++ UrlPath.withoutTabs rest) := by
    rw [UrlPath.withoutTabs, filter_append]
    change UrlPath.withoutTabs _ ++ _ = _
    rw [withoutTabs_fill hsafe]
    rfl
  have hends : ∀ c ∈ fill value (withoutTabs text), ¬ (c = '?' ∨ c = '#') := by
    intro c hc hdelimiter
    have hfree := (fill_no_delimiter_iff hsafe (withoutTabs text)).mpr fun d hd => htext d (mem_filter.mp hd).1
    exact absurd ((endsPathPart_iff c).mpr hdelimiter) (eq_false_iff.mp (hfree c hc))
  have hseparators : ∀ c ∈ value, UrlPath.isSeparator c = false := by
    intro c hc
    have hne : c ≠ '\\' := fun heq => hbackslash (heq ▸ hc)
    simp [UrlPath.isSeparator, (safe_char hsafe hc).1, hne]
  rw [segmentCount, hread, UrlPath.pathStart, if_pos (Or.inl rfl), UrlPath.length_pathState _ _ hends hrest',
    UrlPath.splitOnP_fill hseparators, List.map_map]
  exact congrArg _ (congrFun modifyHead_id _)

/-- A rewrite keeps query and fragment exactly where nothing in its text ends the path part, as in a template; and it keeps
the shape of the path where the value fits into the holes. -/
theorem keepsShape_of_fits {crates : Crates} {rewrite : PathRewrite} {requestPath value out : Str}
    {text : List (Option Char)} (h : rewrite.apply crates requestPath value = some out)
    (htext : rewrite.text crates requestPath = some text) :
    ((splitPathSuffix out).2 = (splitPathSuffix requestPath).2 ↔ ∀ c, some c ∈ text → endsPathPart c = false) ∧
      ((∃ template, rewrite = .setPath template) → ∀ c, some c ∈ text → endsPathPart c = false) ∧
      (Fits text value → KeepsShape crates rewrite requestPath value out) := by
  obtain ⟨found, hfound, hsafe, hslash, rfl⟩ := PathRewrite.apply_spec h
  obtain rfl : found = text := Option.some.inj (hfound.symm.trans htext)
  have hsuffix := (@suffix_kept_iff (fill value found) requestPath).trans (fill_no_delimiter_iff hsafe found)
  refine ⟨hsuffix, ?_, fun hfits => ⟨hslash.trans (List.prefix_append _ _), hsuffix.mpr hfits.delimiter,
    ⟨_, htext, rfl⟩, fun plain out' hplain h' => ?_⟩⟩
  · rintro ⟨template, rfl⟩ c hc
    simp only [PathRewrite.text, Option.pure_def, Option.bind_eq_bind, Option.bind_none, Option.bind_eq_some_iff,
      Option.ite_none_left_eq_some, Option.some.injEq, Prod.exists] at htext
    obtain ⟨front, back, -, -, afterFront, hfront, -, rfl⟩ := htext
    obtain ⟨taken, hpath, hfront⟩ := List.dropPrefix?_eq_some_iff.mp hfront
    obtain rfl : taken = front := beq_iff_eq.mp hfront
    have hall : ∀ d ∈ (splitPathSuffix requestPath).1, endsPathPart d = false := by
      rw [(splitPathSuffix_eq requestPath).1]
      exact fun d hd => by simpa using List.mem_takeWhile_imp hd
    refine hall c (hpath ▸ List.mem_append.mpr ?_)
    have hmem : c ∈ taken ∨ c ∈ afterFront.dropWhile (· ≠ '/') := by simpa using hc
    exact hmem.imp_right fun hafter => (List.dropWhile_sublist _).subset hafter
  · obtain ⟨same, hsame, hsafe', hslash', rfl⟩ := PathRewrite.apply_spec h'
    obtain rfl : same = found := Option.some.inj (hsame.symm.trans htext)
    have hrest : (splitPathSuffix requestPath).2 = [] ∨
        ∃ c tail, (splitPathSuffix requestPath).2 = c :: tail ∧ (c = '?' ∨ c = '#') := by
      rw [(splitPathSuffix_eq requestPath).2]
      have hhead := List.head?_dropWhile_not (!endsPathPart ·) requestPath
      cases hdrop : requestPath.dropWhile (!endsPathPart ·) with
      | nil => exact Or.inl rfl
      | cons c tail =>
        rw [hdrop] at hhead
        exact Or.inr ⟨c, tail, rfl, (endsPathPart_iff c).mp (by simpa using hhead)⟩
    obtain ⟨tail, rfl⟩ : ∃ tail, same = some '/' :: tail := by
      cases same with
      | nil => simp [fill] at hslash'
      | cons c tail =>
        cases c with
        | none =>
          -- a hole at the front starts with a slash for no plain value
          obtain ⟨d, hd, -⟩ := hplain.other
          obtain ⟨e, rest, rfl⟩ := List.exists_cons_of_ne_nil (List.ne_nil_of_mem hd)
          obtain rfl : '/' = e := by simpa [fill] using hslash'
          exact absurd (hplain.alphanumeric '/' List.mem_cons_self) (by decide)
        | some c =>
          obtain rfl : '/' = c := by simpa [fill] using hslash'
          exact ⟨tail, rfl⟩
    have htail : ∀ c, some c ∈ tail → endsPathPart c = false := fun c hc =>
      hfits.delimiter c (List.mem_cons_of_mem _ hc)
    have hpieces : pieces (withoutTabs (some '/' :: tail)) = [] :: pieces (withoutTabs tail) :=
      (List.splitOnP_cons_eq_if_modifyHead _ _).trans (if_pos rfl)
    have hbackslash : '\\' ∉ plain := fun hmem => absurd (hplain.alphanumeric _ hmem) (by decide)
    rw [segmentCount_fill hsafe hfits.backslash htail hrest, segmentCount_fill hsafe' hbackslash htail hrest]
    refine UrlPath.countSegments_congr (fun piece hpiece => ?_) 0
    by_cases hhole : none ∈ piece
    · have hdots := hfits.dots piece (hpieces ▸ List.mem_cons_of_mem [] hpiece) hhole
      have hdots' := not_isDots_of_plain hplain hhole
      rw [isDots, Bool.or_eq_false_iff] at hdots hdots'
      exact ⟨hdots.1.trans hdots'.1.symm, hdots.2.trans hdots'.2.symm⟩
    · have heq : fill value piece = fill plain piece := by
        refine List.flatMap_congr fun c hc => ?_
        cases c with
        | none => exact absurd hc hhole
        | some => rfl
      rw [heq]
      exact ⟨rfl, rfl⟩

/-- A token with a colon in the first segment. -/
theorem keepsShape_of_fits_token :
    KeepsShape ⟨some, some, fun name value => name ++ value, fun _ => none⟩
      (.setPath "/bot\x7bvalue\x7d".toList) "/botX/send?a=1".toList "12:AB".toList "/bot12:AB/send?a=1".toList := by
  have hspec := @keepsShape_of_fits ⟨some, some, fun name value => name ++ value, fun _ => none⟩
    (.setPath "/bot\x7bvalue\x7d".toList) "/botX/send?a=1".toList "12:AB".toList _ _ rfl rfl
  exact hspec.2.2 ⟨hspec.2.1 ⟨_, rfl⟩, by decide, by decide⟩

/-- Two dots pass the check, and take a segment away. -/
theorem not_keepsShape_dots : ¬ ∀ (crates : Crates) (rewrite : PathRewrite) (requestPath value out : Str),
    rewrite.apply crates requestPath value = some out → KeepsShape crates rewrite requestPath value out := by
  intro hall
  have hshape := hall ⟨some, some, fun name value => name ++ value, fun _ => none⟩
    (.setPath "/v1/\x7bvalue\x7d".toList) "/v1/a/x".toList "..".toList "/v1/../x".toList rfl
  have hcount := hshape.segments "s".toList "/v1/s/x".toList ⟨by decide, by decide⟩ rfl
  exact absurd hcount (by decide)

end Onecli.Inject
