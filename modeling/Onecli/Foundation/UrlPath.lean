import Onecli.Foundation.CodeUnits

/-!
# The path of a special URL

The path part of the URL Standard's parser for the special schemes, from the first character
after the authority: tabs and newlines are dropped, a backslash reads as a slash, dot segments
(also percent-encoded ones) are resolved, and the characters of the path percent-encode set are
encoded. A path that is already in that form is left as it is, and only such a path is.
-/

namespace UrlPath

open List

/-- The path percent-encode set. -/
def inPathSet (c : Char) : Bool := c.toNat ≤ 0x1F || 0x7E < c.toNat || c ∈ " \"#<>?^\x60\x7b\x7d".toList

/-- The query percent-encode set of the special schemes. -/
def inSpecialQuerySet (c : Char) : Bool := c.toNat ≤ 0x1F || 0x7E < c.toNat || c ∈ " \"#<>'".toList

/-- An upper-case hexadecimal digit. -/
def hexDigit (n : ℕ) : Char := "0123456789ABCDEF".toList.getD n '0'

/-- UTF-8 percent-encoding of a character. -/
def percentEncode (c : Char) : List Char :=
  (String.utf8EncodeChar c).flatMap fun b => ['%', hexDigit (b.toNat / 16), hexDigit (b.toNat % 16)]

/-- A character of the path as the path state appends it. -/
def encodePathChar (c : Char) : List Char := if inPathSet c then percentEncode c else [c]

/-- A single-dot URL path segment. -/
def isSingleDot (s : List Char) : Bool := s.map Char.toLower ∈ [".".toList, "%2e".toList]

/-- A double-dot URL path segment. -/
def isDoubleDot (s : List Char) : Bool :=
  s.map Char.toLower ∈ ["..".toList, ".%2e".toList, "%2e.".toList, "%2e%2e".toList]

/-- The end of a segment in the path state, at a slash or at the end of the path. -/
def endSegment (segs : List (List Char)) (buffer : List Char) (slash : Bool) : List (List Char) :=
  if isDoubleDot buffer then if slash then segs.dropLast else segs.dropLast ++ [[]]
  else if isSingleDot buffer then if slash then segs else segs ++ [[]]
  else segs ++ [buffer]

/-- The path state. -/
def pathState (segs : List (List Char)) (buffer : List Char) : List Char → List (List Char)
  | [] => endSegment segs buffer false
  | c :: rest =>
    if c = '/' ∨ c = '\\' then pathState (endSegment segs buffer true) [] rest
    else if c = '?' ∨ c = '#' then endSegment segs buffer false
    else pathState segs (buffer ++ encodePathChar c) rest

/-- The input without tabs and newlines. -/
def withoutTabs (input : List Char) : List Char := input.filter (· ∉ "\t\n\r".toList)

/-- The path start state: a first slash only begins the path. -/
def pathStart : List Char → List (List Char)
  | [] => pathState [] [] []
  | c :: rest => if c = '/' ∨ c = '\\' then pathState [] [] rest else pathState [] [] (c :: rest)

/-- A path made of segments. -/
def serialize (segs : List (List Char)) : List Char := segs.flatMap ('/' :: ·)

/-- The path of a URL. -/
def urlPath (input : List Char) : List Char := serialize (pathStart (withoutTabs input))

/-- The query of a URL, with its question mark. -/
def urlQuery (input : List Char) : List Char :=
  match (withoutTabs input).takeWhile (· ≠ '#') |>.dropWhile (· ≠ '?') with
  | [] => []
  | _ :: query => '?' :: query.flatMap fun c => if inSpecialQuerySet c then percentEncode c else [c]

/-- A character that a path in normal form can hold. -/
def PathChar (c : Char) : Prop := inPathSet c = false ∧ c ≠ '/' ∧ c ≠ '\\'

instance (c : Char) : Decidable (PathChar c) := inferInstanceAs (Decidable (_ ∧ _))

/-- A segment in normal form. -/
structure PlainSegment (s : List Char) : Prop where
  chars : ∀ c ∈ s, PathChar c
  single : isSingleDot s = false
  double : isDoubleDot s = false

/-- A path in normal form. -/
def PlainPath (path : List Char) : Prop := ∃ segs, segs ≠ [] ∧ path = serialize segs ∧ ∀ s ∈ segs, PlainSegment s

theorem plainSegment_nil : PlainSegment [] := ⟨fun _ hc => (not_mem_nil hc).elim, rfl, rfl⟩

theorem pathChar_hexDigit {n : ℕ} (hn : n < 16) : PathChar (hexDigit n) := by
  have hall : ∀ n < 16, PathChar (hexDigit n) := by decide
  exact hall n hn

theorem pathChar_of_mem_encodePathChar {c d : Char} (hslash : c ≠ '/') (hback : c ≠ '\\')
    (hd : d ∈ encodePathChar c) : PathChar d := by
  unfold encodePathChar at hd
  cases hc : inPathSet c with
  | false =>
    rw [hc] at hd
    obtain rfl := mem_singleton.mp hd
    exact ⟨hc, hslash, hback⟩
  | true =>
    rw [hc] at hd
    obtain ⟨b, -, hb⟩ := mem_flatMap.mp hd
    have hbyte : b.toNat < 256 := b.toNat_lt
    rcases mem_cons.mp hb with rfl | hb
    · decide
    rcases mem_cons.mp hb with rfl | hb
    · exact pathChar_hexDigit (by omega)
    · obtain rfl := mem_singleton.mp hb
      exact pathChar_hexDigit (by omega)

variable {segs : List (List Char)}

theorem plainSegment_of_mem_endSegment {buffer s : List Char} {slash : Bool} (hsegs : ∀ s ∈ segs, PlainSegment s)
    (hbuffer : ∀ c ∈ buffer, PathChar c) (hs : s ∈ endSegment segs buffer slash) : PlainSegment s := by
  have happend {front : List (List Char)} {last : List Char} (hfront : ∀ s ∈ front, PlainSegment s)
      (hlast : PlainSegment last) (hs : s ∈ front ++ [last]) : PlainSegment s := by
    rcases mem_append.mp hs with hs | hs
    · exact hfront s hs
    · exact mem_singleton.mp hs ▸ hlast
  have hdrop : ∀ s ∈ segs.dropLast, PlainSegment s := fun s hs => hsegs s ((dropLast_sublist segs).subset hs)
  unfold endSegment at hs
  cases hdouble : isDoubleDot buffer with
  | true =>
    rw [hdouble] at hs
    cases slash with
    | true => exact hdrop s hs
    | false => exact happend hdrop plainSegment_nil hs
  | false =>
    rw [hdouble] at hs
    cases hsingle : isSingleDot buffer with
    | true =>
      rw [hsingle] at hs
      cases slash with
      | true => exact hsegs s hs
      | false => exact happend hsegs plainSegment_nil hs
    | false =>
      rw [hsingle] at hs
      exact happend hsegs ⟨hbuffer, hsingle, hdouble⟩ hs

theorem plainSegment_of_mem_pathState {buffer input s : List Char} (hsegs : ∀ s ∈ segs, PlainSegment s)
    (hbuffer : ∀ c ∈ buffer, PathChar c) (hs : s ∈ pathState segs buffer input) : PlainSegment s := by
  induction input generalizing segs buffer with
  | nil => exact plainSegment_of_mem_endSegment hsegs hbuffer hs
  | cons c rest ih =>
    unfold pathState at hs
    by_cases hslash : c = '/' ∨ c = '\\'
    · rw [if_pos hslash] at hs
      exact ih (fun s hs => plainSegment_of_mem_endSegment hsegs hbuffer hs) (fun _ hc => by cases hc) hs
    · rw [if_neg hslash] at hs
      by_cases hquery : c = '?' ∨ c = '#'
      · rw [if_pos hquery] at hs
        exact plainSegment_of_mem_endSegment hsegs hbuffer hs
      · rw [if_neg hquery] at hs
        refine ih hsegs (fun d hd => ?_) hs
        rcases mem_append.mp hd with hd | hd
        · exact hbuffer d hd
        · exact pathChar_of_mem_encodePathChar (not_or.mp hslash).1 (not_or.mp hslash).2 hd

theorem pathState_ne_nil (segs : List (List Char)) (buffer input : List Char) :
    pathState segs buffer input ≠ [] := by
  have hend (segs : List (List Char)) (buffer : List Char) : endSegment segs buffer false ≠ [] := by
    unfold endSegment
    split
    · simp
    · split <;> simp
  induction input generalizing segs buffer with
  | nil => exact hend segs buffer
  | cons c rest ih =>
    unfold pathState
    split
    · exact ih _ _
    · split
      · exact hend segs buffer
      · exact ih _ _

/-- A URL's path has no dot segments left. -/
theorem plainPath_urlPath (input : List Char) : PlainPath (urlPath input) := by
  have hstate (rest : List Char) : PlainPath (serialize (pathState [] [] rest)) :=
    ⟨_, pathState_ne_nil _ _ _, rfl, fun s hs =>
      plainSegment_of_mem_pathState (fun _ h => by cases h) (fun _ h => by cases h) hs⟩
  unfold urlPath
  cases withoutTabs input with
  | nil => exact hstate []
  | cons c rest =>
    by_cases hslash : c = '/' ∨ c = '\\'
    · rw [pathStart, if_pos hslash]
      exact hstate rest
    · rw [pathStart, if_neg hslash]
      exact hstate (c :: rest)

theorem pathState_append_of_pathChar (segs : List (List Char)) (buffer s rest : List Char)
    (hs : ∀ c ∈ s, PathChar c) :
    pathState segs buffer (s ++ rest) = pathState segs (buffer ++ s) rest := by
  induction s generalizing buffer with
  | nil => rw [nil_append, append_nil]
  | cons c s ih =>
    obtain ⟨hset, hslash, hback⟩ := hs c mem_cons_self
    have hquery : ¬ (c = '?' ∨ c = '#') := by
      rintro (rfl | rfl) <;> exact absurd hset (by decide)
    rw [cons_append, pathState, if_neg (not_or.mpr ⟨hslash, hback⟩), if_neg hquery,
      encodePathChar, hset, if_neg Bool.false_ne_true, ih _ fun d hd => hs d (mem_cons_of_mem c hd),
      append_assoc, singleton_append]

theorem endSegment_of_plain (segs : List (List Char)) {s : List Char} (hs : PlainSegment s)
    (slash : Bool) : endSegment segs s slash = segs ++ [s] := by
  rw [endSegment, hs.double, if_neg Bool.false_ne_true, hs.single, if_neg Bool.false_ne_true]

/-- What ends a path: the end of the input or a query. -/
def EndsPath (rest : List Char) : Prop := rest = [] ∨ ∃ query, rest = '?' :: query

theorem pathState_of_plain (front : List (List Char)) {s rest : List Char} (hs : PlainSegment s)
    (hsegs : ∀ s ∈ segs, PlainSegment s) (hrest : EndsPath rest) :
    pathState front [] (s ++ serialize segs ++ rest) = front ++ s :: segs := by
  induction segs generalizing front s with
  | nil =>
    rw [serialize, flatMap_nil, append_nil, pathState_append_of_pathChar _ _ _ _ hs.chars]
    rcases hrest with rfl | ⟨query, rfl⟩ <;> exact endSegment_of_plain front hs false
  | cons next segs ih =>
    have hinput : s ++ serialize (next :: segs) ++ rest = s ++ '/' :: (next ++ serialize segs ++ rest) := by
      rw [serialize, flatMap_cons, append_assoc, append_assoc, append_assoc]
      rfl
    rw [hinput, pathState_append_of_pathChar _ _ _ _ hs.chars, nil_append, pathState,
      if_pos (.inl rfl), endSegment_of_plain front hs true,
      ih _ (hsegs next mem_cons_self) fun t ht => hsegs t (mem_cons_of_mem next ht), append_assoc, singleton_append]

/-- A plain path is left as it is. -/
theorem urlPath_of_plain {path rest : List Char} (hpath : PlainPath path) (hrest : EndsPath rest)
    (htabs : withoutTabs (path ++ rest) = path ++ rest) : urlPath (path ++ rest) = path := by
  obtain ⟨segs, hne, rfl, hsegs⟩ := hpath
  cases segs with
  | nil => exact absurd rfl hne
  | cons s segs =>
    have hinput : serialize (s :: segs) ++ rest = '/' :: (s ++ serialize segs ++ rest) := by
      rfl
    rw [urlPath, htabs, hinput, pathStart, if_pos (.inl rfl),
      pathState_of_plain [] (hsegs s mem_cons_self) (fun t ht => hsegs t (mem_cons_of_mem s ht))
        hrest, nil_append]

theorem not_mem_of_plain {path : List Char} (hpath : PlainPath path) {c : Char} (hc : inPathSet c = true)
    (hslash : c ≠ '/') : c ∉ path := by
  obtain ⟨segs, -, rfl, hsegs⟩ := hpath
  intro hmem
  obtain ⟨s, hs, hcs⟩ := mem_flatMap.mp hmem
  rcases mem_cons.mp hcs with rfl | hcs
  · exact hslash rfl
  · exact absurd ((hsegs s hs).chars c hcs).1 (by rw [hc]; decide)

/-! ## Segments -/

/-- What separates segments. -/
def isSeparator (c : Char) : Bool := c == '/' || c == '\\'

/-- How many segments there are once the pieces between separators are read. -/
def countSegments : ℕ → List (List Char) → ℕ
  | n, [] => n
  | n, [last] => (if isDoubleDot last then n - 1 else n) + 1
  | n, piece :: pieces =>
    countSegments (if isDoubleDot piece then n - 1 else if isSingleDot piece then n else n + 1) pieces

/-- A text with holes, filled. -/
def fill (value : List Char) (text : List (Option Char)) : List Char := text.flatMap (·.elim value fun c => [c])

/-- The pieces of a text with holes. -/
def pieces (text : List (Option Char)) : List (List (Option Char)) := text.splitOnP (·.any isSeparator)

theorem length_pathState (segs : List (List Char)) (buffer : List Char) {s rest : List Char}
    (hs : ∀ c ∈ s, ¬ (c = '?' ∨ c = '#')) (hrest : rest = [] ∨ ∃ c tail, rest = c :: tail ∧ (c = '?' ∨ c = '#')) :
    (pathState segs buffer (s ++ rest)).length =
      countSegments segs.length (((s.splitOnP isSeparator).map (·.flatMap encodePathChar)).modifyHead (buffer ++ ·)) := by
  induction s generalizing segs buffer with
  | nil =>
    have hend : pathState segs buffer rest = endSegment segs buffer false := by
      obtain rfl | ⟨c, tail, rfl, hc⟩ := hrest
      · rfl
      · rw [pathState, if_neg, if_pos hc]
        rintro (rfl | rfl) <;> simp at hc
    have hlast (segs : List (List Char)) : (segs.dropLast ++ [[]]).length = segs.length - 1 + 1 := by simp
    simp only [nil_append, hend, endSegment, splitOnP_nil, map_cons, flatMap_nil, map_nil,
      modifyHead_cons, append_nil, countSegments]
    split
    · exact hlast segs
    · split <;> simp
  | cons c s ih =>
    have hs' : ∀ c ∈ s, ¬ (c = '?' ∨ c = '#') := fun d hd => hs d (mem_cons_of_mem c hd)
    obtain ⟨piece, rest', hpieces⟩ := exists_cons_of_ne_nil (splitOnP_ne_nil isSeparator s)
    rw [cons_append, pathState, splitOnP_cons_eq_if_modifyHead]
    by_cases hc : c = '/' ∨ c = '\\'
    · have hsep : isSeparator c = true := by simpa [isSeparator] using hc
      rw [if_pos hc, if_pos hsep, ih _ _ hs', hpieces]
      simp only [map_cons, modifyHead_cons, nil_append, flatMap_nil, append_nil, countSegments]
      congr 1
      rw [endSegment]
      split
      · simp
      · split <;> simp
    · have hsep : ¬ isSeparator c = true := by simpa [isSeparator] using hc
      rw [if_neg hc, if_neg (hs c mem_cons_self), if_neg hsep, ih _ _ hs', hpieces]
      simp [append_assoc]

/-- Only the dot segments of a path decide how many segments are left. -/
theorem countSegments_congr {X : Type} {f g : X → List Char} {xs : List X}
    (h : ∀ x ∈ xs, isDoubleDot (f x) = isDoubleDot (g x) ∧ isSingleDot (f x) = isSingleDot (g x)) (n : ℕ) :
    countSegments n (xs.map f) = countSegments n (xs.map g) := by
  induction xs generalizing n with
  | nil => rfl
  | cons x xs ih =>
    obtain ⟨hdouble, hsingle⟩ := h x mem_cons_self
    have hrest := ih fun y hy => h y (mem_cons_of_mem x hy)
    cases xs with
    | nil => simp [countSegments, hdouble]
    | cons => simpa [countSegments, hdouble, hsingle] using hrest _

theorem splitOnP_fill {value : List Char} (hvalue : ∀ c ∈ value, isSeparator c = false) (text : List (Option Char)) :
    (fill value text).splitOnP isSeparator = (pieces text).map (fill value) := by
  have hfront (s : List Char) :
      (value ++ s).splitOnP isSeparator = (s.splitOnP isSeparator).modifyHead (value ++ ·) := by
    induction value with
    | nil => exact (congrFun modifyHead_id _).symm
    | cons c value ih =>
      rw [cons_append, splitOnP_cons_eq_if_modifyHead, if_neg (by simp [hvalue c]),
        ih fun d hd => hvalue d (mem_cons_of_mem c hd)]
      simp [modifyHead_modifyHead, Function.comp_def]
  induction text with
  | nil => simp [fill, pieces]
  | cons c text ih =>
    obtain ⟨piece, rest, hpieces⟩ :=
      exists_cons_of_ne_nil (splitOnP_ne_nil (fun c : Option Char => c.any isSeparator) text)
    rw [pieces, hpieces] at ih
    rw [pieces, splitOnP_cons_eq_if_modifyHead, hpieces]
    cases c with
    | none =>
      change (value ++ fill value text).splitOnP isSeparator = _
      rw [hfront, ih]
      simp [fill]
    | some c =>
      change (c :: fill value text).splitOnP isSeparator = _
      rw [splitOnP_cons_eq_if_modifyHead, ih]
      by_cases hc : isSeparator c = true
      · simp [hc, fill]
      · simp [hc, fill]

end UrlPath
