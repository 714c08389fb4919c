import Onecli.Foundation.JsonText
import Onecli.Summary.Redact

/-!
# Masking a JSON text

The scan finds the members of a JSON text as a parser does, but reads their keys as they are written. What it shows of a
part of a text does not depend on where the part stands.
-/

namespace Onecli.Summary.Redact

open Nat

open JsonText List
open Gateway (Str)

/-! ## What the scan goes past -/

/-- The keys that the scan reads, as they are written. -/
def scannedKeys : Str → List Str
  | [] => []
  | c :: s =>
    (if c = '"' ∧ (afterColon (scanString s).2).isSome then [(scanString s).1] else []) ++ scannedKeys (jsonStep c s).2.1
termination_by s => s.length
decreasing_by exact lt_succ_of_le (length_jsonStep c s)

/-- The scan shows `text` as `shown` and reads `keys` in it, and goes on with `rest`. -/
def Scans (text rest shown : Str) (keys : List Str) : Prop :=
  (maskJsonValues (text ++ rest)).1 = shown ++ (maskJsonValues rest).1 ∧
    scannedKeys (text ++ rest) = keys ++ scannedKeys rest

theorem Scans.nil (rest : Str) : Scans [] rest [] [] := ⟨rfl, rfl⟩

/-- One scan after another. -/
theorem Scans.append {text text' rest shown shown' : Str} {keys keys' : List Str}
    (h : Scans text (text' ++ rest) shown keys) (h' : Scans text' rest shown' keys') :
    Scans (text ++ text') rest (shown ++ shown') (keys ++ keys') := by
  unfold Scans at *
  rw [append_assoc, h.1, h.2, h'.1, h'.2, append_assoc, append_assoc]
  exact ⟨rfl, rfl⟩

/-- A scan of one step. -/
theorem Scans.step {c : Char} {s rest shown : Str} {hit : Bool} (h : jsonStep c (s ++ rest) = (shown, rest, hit)) :
    Scans (c :: s) rest shown
      (if c = '"' ∧ (afterColon (scanString (s ++ rest)).2).isSome then [(scanString (s ++ rest)).1] else []) := by
  unfold Scans
  rw [cons_append, maskJsonValues, scannedKeys, h]
  exact ⟨rfl, rfl⟩

/-- A character outside strings is shown. -/
theorem Scans.plain {c : Char} (hc : c ≠ '"') (rest : Str) : Scans [c] rest [c] [] := by
  have hstep : jsonStep c ([] ++ rest) = ([c], rest, false) := if_pos hc
  have h := Scans.step hstep
  rw [if_neg fun hquote => hc hquote.1] at h
  exact h

variable {s : Str} {rest : Str} {v : Str} {colon between : Str} {keys : List Str}

/-- Text without quotation marks is shown. -/
theorem Scans.plains (hs : '"' ∉ s) (rest : Str) : Scans s rest s [] := by
  induction s with
  | nil => exact .nil rest
  | cons c s ih =>
    rw [mem_cons, not_or] at hs
    exact (Scans.plain (Ne.symm hs.1) (s ++ rest)).append (ih hs.2)

/-- White space has no quotation mark. -/
theorem not_mem_spaces (hs : IsSpaces s) : '"' ∉ s := fun h => absurd (hs _ h) (by decide)

theorem isAsciiWhitespace_of_mem (hs : IsSpaces s) : ∀ c ∈ s, isAsciiWhitespace c = true := by
  have hspaces : ∀ c ∈ [' ', '\t', '\n', '\r'], isAsciiWhitespace c = true := by decide
  exact fun c hc => hspaces c ((isSpace_iff c).mp (hs c hc))

theorem scanString_piece (piece : Piece) (rest : Str) :
    scanString (piece.chars ++ rest) = (piece.chars ++ (scanString rest).1, (scanString rest).2) := by
  have hplain {c : Char} (hc : c ≠ '"' ∧ c ≠ '\\') (s : Str) :
      scanString (c :: s) = (c :: (scanString s).1, (scanString s).2) := by
    rw [scanString.eq_def]
    simp only [if_neg hc.1, if_neg hc.2]
  have hescape (c : Char) (s : Str) :
      scanString ('\\' :: c :: s) = ('\\' :: c :: (scanString s).1, (scanString s).2) := by
    rw [scanString.eq_def]
    rfl
  have hplains {s : Str} (hs : ∀ c ∈ s, c ≠ '"' ∧ c ≠ '\\') :
      scanString (s ++ rest) = (s ++ (scanString rest).1, (scanString rest).2) := by
    induction s with
    | nil => rfl
    | cons c s ih =>
      obtain ⟨hc, hrest⟩ := forall_mem_cons.mp hs
      rw [cons_append, hplain hc, ih hrest]
      rfl
  cases piece with
  | plain c h => exact hplain ⟨h.1, h.2.1⟩ rest
  | escape c => exact hescape c rest
  | unit digits values hdigits =>
    have hdigit : ∀ c ∈ digits, c ≠ '"' ∧ c ≠ '\\' := by
      intro c hc
      have hmem : hexDigit c ∈ values.map some := hdigits ▸ mem_map_of_mem hc
      obtain ⟨value, -, hvalue⟩ := mem_map.mp hmem
      constructor
      · intro heq
        rw [heq] at hvalue
        cases hvalue
      · intro heq
        rw [heq] at hvalue
        cases hvalue
    change scanString ('\\' :: 'u' :: (digits ++ rest)) = _
    rw [hescape, hplains hdigit]
    rfl

/-- A string is scanned to its end. -/
theorem scanString_body (s : Text) (rest : Str) : scanString (s.body ++ '"' :: rest) = (s.body, '"' :: rest) := by
  induction s with
  | nil =>
    rw [scanString.eq_def]
    exact if_pos rfl
  | cons piece s ih =>
    change scanString (piece.chars ++ Text.body s ++ '"' :: rest) = _
    rw [append_assoc, scanString_piece, ih]
    rfl

/-! ## Values -/

/-- What stands behind a value: nothing, or the end of its container or a comma, after white space. -/
def Follows (rest : Str) : Prop := ∀ c, (rest.dropWhile isAsciiWhitespace).head? = some c → c ∈ [',', '\x7d', ']']

theorem follows_append (hs : IsSpaces s) (h : Follows rest) : Follows (s ++ rest) := by
  unfold Follows
  rw [dropWhile_append_of_pos (isAsciiWhitespace_of_mem hs)]
  exact h

theorem follows_cons {c : Char} (hc : c ∈ [',', '\x7d', ']']) (rest : Str) : Follows (c :: rest) := by
  have hspace : ∀ c ∈ [',', '\x7d', ']'], isAsciiWhitespace c = false := by decide
  intro d hd
  rw [dropWhile_cons_of_neg (by rw [hspace c hc]; exact Bool.false_ne_true)] at hd
  cases hd
  exact hc

theorem not_inScalar_of_follows (h : Follows rest) {c : Char} {tail : Str} (hrest : rest = c :: tail) :
    inScalar c = false := by
  by_cases hspace : isAsciiWhitespace c = true
  · unfold inScalar
    rw [hspace, Bool.not_true, Bool.and_false]
  · have hmarks : ∀ c ∈ [',', '\x7d', ']'], inScalar c = false := by decide
    refine hmarks c (h c ?_)
    rw [hrest, dropWhile_cons_of_neg hspace]
    rfl

theorem afterColon_of_follows (h : Follows rest) : afterColon ('"' :: rest) = none := by
  unfold afterColon
  dsimp only
  split
  · next tail heq =>
    have hcolon := h ':' (by rw [heq]; rfl)
    exact absurd hcolon (by decide)
  · rfl

/-- The characters of a scalar. -/
theorem scalar_chars (h : (∃ word ∈ ["null", "true", "false"], v = word.toList) ∨ IsNumber v) :
    ∀ c ∈ v, inScalar c = true ∧ c ∉ ['"', '\x7b', '[', '\x7d', ']'] := by
  cases h with
  | inl hword =>
    obtain ⟨word, hword, rfl⟩ := hword
    have hwords : ∀ word ∈ ["null", "true", "false"],
        ∀ c ∈ word.toList, inScalar c = true ∧ c ∉ ['"', '\x7b', '[', '\x7d', ']'] := by decide
    exact hwords word hword
  | inr hnumber =>
    intro c hc
    cases mem_number hnumber hc with
    | inl hdigit =>
      obtain ⟨hlow, hhigh⟩ := mem_digits_of_isDigit hdigit
      have hmarks : ∀ d ∈ [',', '\x7d', ']', ' ', '\t', '\n', '\x0c', '\r', '"', '\x7b', '['],
          ¬ (48 ≤ d.toNat ∧ d.toNat ≤ 57) := by decide
      have hno : c ∉ [',', '\x7d', ']', ' ', '\t', '\n', '\x0c', '\r', '"', '\x7b', '['] := fun hmem =>
        hmarks c hmem ⟨hlow, hhigh⟩
      simp only [mem_cons, not_mem_nil, or_false, not_or] at hno
      obtain ⟨hcomma, hbrace, hbracket, hspace, htab, hline, hfeed, hreturn, hquote, hopen, hopen'⟩ := hno
      constructor
      · unfold inScalar isAsciiWhitespace
        simp only [beq_eq_false_iff_ne.mpr hcomma, beq_eq_false_iff_ne.mpr hbrace, beq_eq_false_iff_ne.mpr hbracket,
          beq_eq_false_iff_ne.mpr hspace, beq_eq_false_iff_ne.mpr htab, beq_eq_false_iff_ne.mpr hline,
          beq_eq_false_iff_ne.mpr hfeed, beq_eq_false_iff_ne.mpr hreturn, Bool.or_false, Bool.not_false, Bool.and_true]
      · simp only [mem_cons, not_mem_nil, or_false, not_or]
        exact ⟨hquote, hopen, hopen', hbrace, hbracket⟩
    | inr hsign =>
      have hsigns : ∀ c ∈ ['-', '+', '.', 'e', 'E'], inScalar c = true ∧ c ∉ ['"', '\x7b', '[', '\x7d', ']'] := by decide
      exact hsigns c hsign

theorem dropWhile_inScalar (hv : ∀ c ∈ v, inScalar c = true) (h : Follows rest) :
    (v ++ rest).dropWhile inScalar = rest := by
  rw [dropWhile_append_of_pos hv]
  cases rest with
  | nil => rfl
  | cons => rw [dropWhile_cons_of_neg (by rw [not_inScalar_of_follows h rfl]; exact Bool.false_ne_true)]

theorem containerRest_plains (hs : ∀ c ∈ s, c ∉ ['"', '\x7b', '[', '\x7d', ']']) (depth : ℕ) (rest : Str) :
    containerRest depth (s ++ rest) = containerRest depth rest := by
  induction s with
  | nil => rfl
  | cons c s ih =>
    obtain ⟨hc, hrest⟩ := forall_mem_cons.mp hs
    simp only [mem_cons, not_mem_nil, or_false, not_or] at hc
    obtain ⟨hquote, hbrace, hbracket, hclose, hclose'⟩ := hc
    rw [cons_append, containerRest, if_neg hquote, if_neg (by simp [hbrace, hbracket]),
      if_neg (by simp [hclose, hclose']), ih hrest]

theorem containerRest_spaces (hs : IsSpaces s) (depth : ℕ) (rest : Str) :
    containerRest depth (s ++ rest) = containerRest depth rest := by
  refine containerRest_plains (fun c hc hmark => ?_) depth rest
  have hmarks : ∀ c ∈ ['"', '\x7b', '[', '\x7d', ']'], isSpace c = false := by decide
  have hspace := hs c hc
  rw [hmarks c hmark] at hspace
  cases hspace

theorem containerRest_quoted (s : Text) (depth : ℕ) (rest : Str) :
    containerRest depth (s.quoted ++ rest) = containerRest depth rest := by
  unfold Text.quoted
  rw [cons_append, append_assoc, singleton_append, containerRest, if_pos rfl, scanString_body]
  rfl

theorem containerRest_open {c : Char} (hc : c = '\x7b' ∨ c = '[') (depth : ℕ) (rest : Str) :
    containerRest depth (c :: rest) = containerRest (depth + 1) rest := by
  have hquote : c ≠ '"' := by
    cases hc with
    | inl h | inr h => rw [h]; decide
  rw [containerRest, if_neg hquote, if_pos hc]

theorem containerRest_close {c : Char} (hc : c = '\x7d' ∨ c = ']') (depth : ℕ) (rest : Str) :
    containerRest (depth + 1) (c :: rest) = if depth = 0 then rest else containerRest depth rest := by
  have hmarks : c ≠ '"' ∧ ¬ (c = '\x7b' ∨ c = '[') := by
    cases hc with
    | inl h => rw [h]; decide
    | inr h => rw [h]; decide
  rw [containerRest, if_neg hmarks.1, if_neg hmarks.2, if_pos hc, Nat.add_sub_cancel]

theorem containerRest_derives {part : Part} (h : Derives part s) (depth : ℕ) (rest : Str) :
    containerRest (depth + 1) (s ++ rest) = containerRest (depth + 1) rest := by
  have hcomma (rest : Str) (depth : ℕ) : containerRest depth (',' :: rest) = containerRest depth rest :=
    containerRest_plains (s := [',']) (by decide) depth rest
  have hcolon (rest : Str) (depth : ℕ) : containerRest depth (':' :: rest) = containerRest depth rest :=
    containerRest_plains (s := [':']) (by decide) depth rest
  induction h generalizing depth rest with
  | literal word hword =>
    exact containerRest_plains (fun c hc => (scalar_chars (.inl ⟨word, hword, rfl⟩) c hc).2) _ rest
  | number s hnumber => exact containerRest_plains (fun c hc => (scalar_chars (.inr hnumber) c hc).2) _ rest
  | string s => exact containerRest_quoted s _ rest
  | emptyArray space hspace =>
    rw [cons_append, append_assoc, containerRest_open (.inr rfl), containerRest_spaces hspace,
      singleton_append, containerRest_close (.inr rfl), if_neg (succ_ne_zero depth)]
  | array items hitems ih =>
    rw [cons_append, append_assoc, containerRest_open (.inr rfl), ih, singleton_append,
      containerRest_close (.inr rfl), if_neg (succ_ne_zero depth)]
  | emptyObject space hspace =>
    rw [cons_append, append_assoc, containerRest_open (.inl rfl), containerRest_spaces hspace,
      singleton_append, containerRest_close (.inl rfl), if_neg (succ_ne_zero depth)]
  | object entries members hmems ih =>
    rw [cons_append, append_assoc, containerRest_open (.inl rfl), ih, singleton_append,
      containerRest_close (.inl rfl), if_neg (succ_ne_zero depth)]
  | item before value after hbefore hvalue hafter ih =>
    rw [append_assoc, append_assoc, containerRest_spaces hbefore, ih, containerRest_spaces hafter]
  | moreItems before value after rest' hbefore hvalue hafter hrest ihvalue ihrest =>
    rw [append_assoc, append_assoc, append_assoc, containerRest_spaces hbefore, ihvalue,
      containerRest_spaces hafter, cons_append, hcomma, ihrest]
  | member before key colon between value after hbefore hcolon' hmid hvalue hafter ih =>
    rw [append_assoc, append_assoc, append_assoc, containerRest_spaces hbefore, containerRest_quoted,
      containerRest_spaces hcolon', cons_append, hcolon, append_assoc, append_assoc,
      containerRest_spaces hmid, ih, containerRest_spaces hafter]
  | moreMembers before key colon between value after rest' entries hbefore hcolon' hmid hvalue hafter hrest ihvalue
      ihrest =>
    rw [append_assoc, append_assoc, append_assoc, containerRest_spaces hbefore, containerRest_quoted,
      containerRest_spaces hcolon', cons_append, hcolon, append_assoc, append_assoc, append_assoc,
      containerRest_spaces hmid, ihvalue, containerRest_spaces hafter, cons_append, hcomma, ihrest]

/-- The mask of a value. -/
def maskText : Str := "\"***\"".toList

theorem maskedValue_scalar (hne : v ≠ []) (hscalar : (∃ word ∈ ["null", "true", "false"], v = word.toList) ∨ IsNumber v)
    (h : Follows rest) : maskedValue (v ++ rest) = (maskText, rest) := by
  obtain ⟨c, s, rfl⟩ := exists_cons_of_ne_nil hne
  have hchars := scalar_chars hscalar
  have hdrop := dropWhile_inScalar (fun c hc => (hchars c hc).1) h
  have hfirst := (hchars c mem_cons_self).2
  simp only [mem_cons, not_mem_nil, or_false, not_or] at hfirst
  obtain ⟨hquote, hbrace, hbracket, -, -⟩ := hfirst
  rw [cons_append] at hdrop ⊢
  unfold maskedValue
  dsimp only
  rw [if_neg hquote, if_neg (by simp [hbrace, hbracket]), hdrop]
  rfl

theorem maskedValue_container {opening close : Char} (hopening : opening = '\x7b' ∨ opening = '[')
    (hclose : close = '\x7d' ∨ close = ']') {inner : Str}
    (hinner : ∀ rest, containerRest 1 (inner ++ rest) = containerRest 1 rest) (rest : Str) :
    maskedValue (opening :: (inner ++ [close]) ++ rest) = (maskText, rest) := by
  have hquote : opening ≠ '"' := by
    cases hopening with
    | inl h => rw [h]; decide
    | inr h => rw [h]; decide
  rw [cons_append, append_assoc, singleton_append]
  unfold maskedValue
  dsimp only
  rw [if_neg hquote, if_pos hopening, containerRest_open hopening, hinner, containerRest_close hclose, if_pos rfl]
  rfl

theorem maskedValue_derives (hv : Derives .value v) (h : Follows rest) :
    maskedValue (v ++ rest) = (maskText, rest) := by
  have hne : v ≠ [] := by
    obtain ⟨c, s, hcons, -⟩ := exists_value_first hv
    rw [hcons]
    exact cons_ne_nil c s
  cases hv with
  | literal word hword => exact maskedValue_scalar hne (.inl ⟨word, hword, rfl⟩) h
  | number _ hnumber => exact maskedValue_scalar hne (.inr hnumber) h
  | string =>
    unfold Text.quoted maskedValue
    rw [cons_append, append_assoc, singleton_append]
    dsimp only
    rw [if_pos rfl, scanString_body]
    rfl
  | emptyArray space hspace =>
    exact maskedValue_container (.inr rfl) (.inr rfl) (containerRest_spaces hspace 1) rest
  | array items hitems => exact maskedValue_container (.inr rfl) (.inr rfl) (containerRest_derives hitems 0) rest
  | emptyObject space hspace =>
    exact maskedValue_container (.inl rfl) (.inl rfl) (containerRest_spaces hspace 1) rest
  | object entries members hmems =>
    exact maskedValue_container (.inl rfl) (.inl rfl) (containerRest_derives hmems 0) rest

/-! ## Strings and members -/

theorem Scans.quoted (s : Text) (h : Follows rest) : Scans s.quoted rest s.quoted [] := by
  have hstep : jsonStep '"' ((s.body ++ ['"']) ++ rest) = ('"' :: (s.body ++ ['"']), rest, false) := by
    rw [append_assoc, singleton_append]
    unfold jsonStep
    rw [if_neg (fun hne => hne rfl), scanString_body, afterColon_of_follows h]
    rfl
  have hscan := Scans.step hstep
  rw [append_assoc, singleton_append, scanString_body, afterColon_of_follows h,
    if_neg fun hkey => Bool.false_ne_true hkey.2] at hscan
  exact hscan

/-- A member's key with its colon, and the white space around that. -/
def memberFront (key : Text) (colon between : Str) : Str := key.quoted ++ (colon ++ ':' :: between)

theorem scan_member (key : Text) (hcolon : IsSpaces colon) (hmid : IsSpaces between)
    (hrest : ∀ c, rest.head? = some c → isAsciiWhitespace c = false) :
    scanString (key.body ++ '"' :: (colon ++ ':' :: (between ++ rest))) =
        (key.body, '"' :: (colon ++ ':' :: (between ++ rest))) ∧
      afterColon ('"' :: (colon ++ ':' :: (between ++ rest))) = some (between ++ rest) ∧
      (between ++ rest).dropWhile isAsciiWhitespace = rest ∧
      keyText key.body ('"' :: (colon ++ ':' :: (between ++ rest))) (between ++ rest) = memberFront key colon between := by
  have hcolons := isAsciiWhitespace_of_mem hcolon
  have hbetweens := isAsciiWhitespace_of_mem hmid
  have hstop : rest.dropWhile isAsciiWhitespace = rest ∧ rest.takeWhile isAsciiWhitespace = [] := by
    cases rest with
    | nil => exact ⟨rfl, rfl⟩
    | cons c =>
      have hc : ¬ isAsciiWhitespace c = true := by
        rw [hrest c rfl]
        exact Bool.false_ne_true
      exact ⟨dropWhile_cons_of_neg hc, takeWhile_cons_of_neg hc⟩
  refine ⟨scanString_body key _, ?_, ?_, ?_⟩
  · unfold afterColon
    dsimp only
    rw [dropWhile_append_of_pos hcolons, dropWhile_cons_of_neg (by decide)]
    rfl
  · rw [dropWhile_append_of_pos hbetweens, hstop.1]
  · have hlength : ('"' :: (colon ++ ':' :: (between ++ rest))).length - (between ++ rest).length =
        ('"' :: (colon ++ [':'])).length := by
      simp only [length_cons, length_append, length_nil]
      omega
    have hsplit : '"' :: (colon ++ ':' :: (between ++ rest)) = '"' :: (colon ++ [':']) ++ (between ++ rest) := by
      rw [cons_append, append_assoc, singleton_append]
    unfold keyText memberFront Text.quoted
    rw [hlength, hsplit, take_left, takeWhile_append_of_pos hbetweens, hstop.2, append_nil]
    simp only [cons_append, append_assoc, nil_append]

theorem memberFront_append (key : Text) (colon between tail : Str) : memberFront key colon between ++ tail =
    '"' :: (key.body ++ '"' :: (colon ++ ':' :: (between ++ tail))) := by
  unfold memberFront Text.quoted
  simp only [cons_append, append_assoc, nil_append]

theorem head?_value (hv : Derives .value v) (rest : Str) :
    ∀ c, (v ++ rest).head? = some c → isAsciiWhitespace c = false := by
  have hfirst {c : Char} {s : Str} (hcons : v = c :: s) (hc : isAsciiWhitespace c = false) :
      ∀ d, (v ++ rest).head? = some d → isAsciiWhitespace d = false := by
    intro d hd
    rw [hcons] at hd
    cases hd
    exact hc
  obtain ⟨word, hword, rfl⟩ | hnumber | ⟨s, rfl⟩ | ⟨inner, rfl⟩ | ⟨inner, rfl⟩ := value_cases hv
  · have hwords : ∀ word ∈ ["null", "true", "false"],
        ∃ c ∈ "ntf".toList, word.toList.head? = some c ∧ isAsciiWhitespace c = false := by decide
    obtain ⟨c, -, hhead, hc⟩ := hwords word hword
    obtain ⟨s, hs⟩ := List.head?_eq_some_iff.mp hhead
    exact hfirst hs hc
  · obtain ⟨c, s, rfl, hc⟩ := exists_number_first hnumber
    refine hfirst rfl ?_
    cases hc with
    | inl hdigit =>
      have hspaces : ∀ c ∈ [' ', '\t', '\n', '\x0c', '\r'], c.isDigit = false := by decide
      refine Bool.eq_false_iff.mpr fun hspace => ?_
      unfold isAsciiWhitespace at hspace
      simp only [Bool.or_eq_true, beq_iff_eq, or_assoc] at hspace
      rw [hspaces c (by simpa using hspace)] at hdigit
      cases hdigit
    | inr hminus =>
      rw [hminus]
      rfl
  iterate 3 exact hfirst rfl rfl

theorem Scans.masked (key : Text) (hcolon : IsSpaces colon) (hmid : IsSpaces between) (hv : Derives .value v)
    (hkey : isSensitiveKey key.body = true) (h : Follows rest) :
    Scans (memberFront key colon between ++ v) rest (memberFront key colon between ++ maskText) [key.body] := by
  obtain ⟨hscan, hafter, hdrop, hfront⟩ := scan_member key hcolon hmid (head?_value hv rest)
  have hne : v ++ rest ≠ [] := by
    obtain ⟨c, s, hcons, -⟩ := exists_value_first hv
    rw [hcons]
    exact cons_ne_nil _ _
  have hstep : jsonStep '"' (key.body ++ '"' :: (colon ++ ':' :: (between ++ (v ++ rest)))) =
      (memberFront key colon between ++ maskText, rest, true) := by
    unfold jsonStep
    rw [if_neg (fun hq => hq rfl), hscan]
    rw [hafter]
    dsimp only
    rw [hdrop, hfront, if_neg (by simp [hne, hkey]), maskedValue_derives hv h]
  have htext : (key.body ++ '"' :: (colon ++ ':' :: (between ++ v))) ++ rest =
      key.body ++ '"' :: (colon ++ ':' :: (between ++ (v ++ rest))) := by
    simp only [cons_append, append_assoc]
  rw [← htext] at hstep
  have hscans := Scans.step hstep
  rw [htext, hscan, hafter, if_pos ⟨rfl, rfl⟩] at hscans
  rw [memberFront_append]
  exact hscans

theorem Scans.front (key : Text) (hcolon : IsSpaces colon) (hmid : IsSpaces between) (hv : Derives .value v)
    (hkey : isSensitiveKey key.body = false) (rest : Str) :
    Scans (memberFront key colon between) (v ++ rest) (memberFront key colon between) [key.body] := by
  obtain ⟨hscan, hafter, hdrop, hfront⟩ := scan_member key hcolon hmid (head?_value hv rest)
  have hstep : jsonStep '"' (key.body ++ '"' :: (colon ++ ':' :: (between ++ (v ++ rest)))) =
      (memberFront key colon between, v ++ rest, false) := by
    unfold jsonStep
    rw [if_neg (fun hq => hq rfl), hscan]
    rw [hafter]
    dsimp only
    rw [hdrop, hfront, if_pos (.inr hkey)]
  have htext : (key.body ++ '"' :: (colon ++ ':' :: between)) ++ (v ++ rest) =
      key.body ++ '"' :: (colon ++ ':' :: (between ++ (v ++ rest))) := by
    simp only [cons_append, append_assoc]
  rw [← htext] at hstep
  have hscans := Scans.step hstep
  rw [htext, hscan, hafter, if_pos ⟨rfl, rfl⟩] at hscans
  have htail := memberFront_append key colon between []
  rw [append_nil, append_nil] at htail
  rw [htail] at hscans ⊢
  exact hscans

/-! ## Texts -/

/-- A text is shown as `shown` wherever it stands, and `keys` are read in it. -/
def Reads (text shown : Str) (keys : List Str) : Prop := ∀ rest, Follows rest → Scans text rest shown keys

/-- A scalar is shown. -/
theorem Reads.scalar (h : (∃ word ∈ ["null", "true", "false"], v = word.toList) ∨ IsNumber v) : Reads v v [] := by
  intro rest _
  refine .plains (fun hmem => ?_) rest
  exact (scalar_chars h '"' hmem).2 mem_cons_self

/-- A container is shown with what is in it. -/
theorem Reads.container {opening close : Char} (hopening : opening ∈ ['\x7b', '[']) (hclose : close ∈ ['\x7d', ']'])
    {inner shown : Str} (h : Reads inner shown keys) :
    Reads (opening :: (inner ++ [close])) (opening :: (shown ++ [close])) keys := by
  have hopenings : ∀ c ∈ ['\x7b', '['], c ≠ '"' := by decide
  have hcloses : ∀ c ∈ ['\x7d', ']'], c ≠ '"' ∧ c ∈ [',', '\x7d', ']'] := by decide
  intro rest _
  have hinner := (h ([close] ++ rest) (follows_cons (hcloses close hclose).2 rest)).append
    (Scans.plain (hcloses close hclose).1 rest)
  have hscans := (Scans.plain (hopenings opening hopening) ((inner ++ [close]) ++ rest)).append hinner
  rw [append_nil] at hscans
  exact hscans

/-- The last entry of a container. -/
theorem Reads.last {before after e shown : Str} (hbefore : IsSpaces before) (hafter : IsSpaces after)
    (h : Reads e shown keys) : Reads (before ++ (e ++ after)) (before ++ (shown ++ after)) keys := by
  intro rest hrest
  have hinner := (h (after ++ rest) (follows_append hafter hrest)).append (Scans.plains (not_mem_spaces hafter) rest)
  have hscans := (Scans.plains (not_mem_spaces hbefore) ((e ++ after) ++ rest)).append hinner
  rw [append_nil] at hscans
  exact hscans

theorem Reads.more {before after e tail shown shown' : Str} {keys keys' : List Str} (hbefore : IsSpaces before)
    (hafter : IsSpaces after) (h : Reads e shown keys) (htail : Reads tail shown' keys') :
    Reads (before ++ (e ++ (after ++ ',' :: tail))) (before ++ (shown ++ (after ++ ',' :: shown'))) (keys ++ keys') := by
  intro rest hrest
  have hcomma := (Scans.plain (show ',' ≠ '"' by decide) (tail ++ rest)).append (htail rest hrest)
  have hspaces := (Scans.plains (not_mem_spaces hafter) ((',' :: tail) ++ rest)).append hcomma
  have hinner := (h ((after ++ ',' :: tail) ++ rest)
    (by rw [append_assoc]; exact follows_append hafter (follows_cons (by decide) _))).append hspaces
  exact (Scans.plains (not_mem_spaces hbefore) ((e ++ (after ++ ',' :: tail)) ++ rest)).append hinner

theorem Reads.masked (key : Text) (hcolon : IsSpaces colon) (hmid : IsSpaces between) (hv : Derives .value v)
    (hkey : isSensitiveKey key.body = true) :
    Reads (memberFront key colon between ++ v) (memberFront key colon between ++ maskText) [key.body] :=
  fun _ hrest => .masked key hcolon hmid hv hkey hrest

theorem Reads.held (key : Text) (hcolon : IsSpaces colon) (hmid : IsSpaces between) (hv : Derives .value v)
    (hkey : isSensitiveKey key.body = false) {shown : Str} (h : Reads v shown keys) :
    Reads (memberFront key colon between ++ v) (memberFront key colon between ++ shown) (key.body :: keys) :=
  fun rest hrest => (Scans.front key hcolon hmid hv hkey rest).append (h rest hrest)

end Onecli.Summary.Redact
