import Onecli.Foundation.JsonText
import Onecli.Parity.GraphqlBody

/-!
# The count of `query` keys is exact

Over a JSON object text the count stands at the depth of the top-level members, passes over every value and sees every
key. It is one exactly where no key of a member contains an escape and one key is `query`, so that a reader that keeps
the first of several members and one that keeps the last extract the same document.
-/

namespace Onecli.Gateway

open Graphql JsonText Utf16 List Option

section Passing

variable {count depth : ℤ} {s t : List Char}

/-- Text without marks has no key. -/
theorem countKeys_of_not_mem (h : ∀ c ∈ s, c ∉ keyMarks) (rest : List Char) :
    countKeys id count depth (s ++ rest) = countKeys id count depth rest :=
  countKeys_append (fun u hu d hd heq => h u hu (by rw [heq]; exact hd)) count depth rest

/-- White space has no key. -/
theorem countKeys_spaces (h : IsSpaces s) (rest : List Char) :
    countKeys id count depth (s ++ rest) = countKeys id count depth rest := by
  refine countKeys_of_not_mem (fun c hc => ?_) rest
  have hspaces : ∀ c ∈ [' ', '\t', '\n', '\r'], c ∉ keyMarks := by decide
  exact hspaces c ((isSpace_iff c).mp (h c hc))

theorem not_mem_keyMarks_of_isDigit {c : Char} (h : c.isDigit = true) : c ∉ keyMarks := by
  have hmarks : ∀ c ∈ keyMarks, c.isDigit = false := by decide
  intro hmem
  rw [hmarks c hmem] at h
  exact Bool.false_ne_true h

theorem countKeys_number (h : JsonText.IsNumber s) (rest : List Char) :
    countKeys id count depth (s ++ rest) = countKeys id count depth rest := by
  refine countKeys_of_not_mem (fun c hc => ?_) rest
  have hsigns : ∀ c ∈ ['-', '+', '.', 'e', 'E'], c ∉ keyMarks := by decide
  cases mem_number h hc with
  | inl hdigit => exact not_mem_keyMarks_of_isDigit hdigit
  | inr hsign => exact hsigns c hsign

theorem countKeys_literal {word : String} (h : word ∈ ["null", "true", "false"]) (rest : List Char) :
    countKeys id count depth (word.toList ++ rest) = countKeys id count depth rest := by
  have hwords : ∀ word ∈ ["null", "true", "false"], ∀ c ∈ word.toList, c ∉ keyMarks := by decide
  exact countKeys_of_not_mem (hwords word h) rest

/-- An opening mark goes deeper. -/
theorem countKeys_open {c : Char} (h : c ∈ ['{', '[']) (rest : List Char) :
    countKeys id count depth (c :: rest) = countKeys id count (depth + 1) rest := by
  have hquote : c ≠ '"' := by
    have hbrackets : ∀ c ∈ ['{', '['], c ≠ '"' := by decide
    exact hbrackets c h
  have hopen : c = id '{' ∨ c = id '[' := by
    simpa only [mem_cons, not_mem_nil, or_false, id] using h
  rw [countKeys, if_neg (show ¬ c = id '"' from hquote), if_pos hopen]

/-- A closing mark comes back. -/
theorem countKeys_close {c : Char} (h : c ∈ ['}', ']']) (rest : List Char) :
    countKeys id count depth (c :: rest) = countKeys id count (depth - 1) rest := by
  have hbrackets : ∀ c ∈ ['}', ']'], c ≠ '"' ∧ ¬ (c = '{' ∨ c = '[') := by decide
  have hclose : c = id '}' ∨ c = id ']' := by
    simpa only [mem_cons, not_mem_nil, or_false, id] using h
  rw [countKeys, if_neg (show ¬ c = id '"' from (hbrackets c h).1),
    if_neg (show ¬ (c = id '{' ∨ c = id '[') from (hbrackets c h).2), if_pos hclose]

/-- A separator is passed. -/
theorem countKeys_separator {c : Char} (h : c ∈ [',', ':']) (rest : List Char) :
    countKeys id count depth (c :: rest) = countKeys id count depth rest := by
  have hseparators : ∀ c ∈ [',', ':'], c ∉ keyMarks := by decide
  refine countKeys_of_not_mem (s := [c]) (fun d hd => ?_) rest
  rw [mem_singleton.mp hd]
  exact hseparators c h

end Passing

section Strings

theorem ne_of_hexDigit {c : Char} {value : ℕ} (h : hexDigit c = some value) : c ≠ '"' ∧ c ≠ '\\' := by
  constructor
  · intro hquote
    rw [hquote] at h
    cases h
  · intro hback
    rw [hback] at h
    cases h

theorem readString_body (s : Text) (rest : List Char) :
    readString id (s.body ++ '"' :: rest) = some (s.body, s.hasEscape, rest) := by
  induction s with
  | nil =>
    rw [readString.eq_def]
    exact if_pos rfl
  | cons piece s ih =>
    have hback : (id '\\' : Char) ≠ id '"' := by decide
    cases piece with
    | plain c hplain =>
      change readString id (c :: (Text.body s ++ '"' :: rest)) = _
      rw [readString_cons_plain hplain.1 hplain.2.1, ih]
      rfl
    | escape c =>
      change readString id (id '\\' :: c :: (Text.body s ++ '"' :: rest)) = _
      rw [readString_cons_escape hback, ih]
      rfl
    | unit digits values hdigits =>
      have hplain : ∀ c ∈ digits, c ≠ id '"' ∧ c ≠ id '\\' := by
        intro c hc
        have hmem : hexDigit c ∈ digits.map hexDigit := List.mem_map_of_mem hc
        rw [hdigits] at hmem
        obtain ⟨value, -, hvalue⟩ := List.mem_map.mp hmem
        exact ne_of_hexDigit hvalue.symm
      change readString id (id '\\' :: 'u' :: (digits ++ Text.body s) ++ '"' :: rest) = _
      rw [cons_append, cons_append, append_assoc, readString_cons_escape hback, readString_append hplain, ih]
      rfl

variable {count depth : ℤ}

theorem countKeys_string (s : Text) (rest : List Char)
    (h : depth = 1 → (rest.dropWhile (isJsonSpace id)).head? ≠ some ':') :
    countKeys id count depth (s.quoted ++ rest) = countKeys id count depth rest := by
  change countKeys id count depth ('"' :: (s.body ++ ['"']) ++ rest) = _
  rw [cons_append, append_assoc]
  refine (countKeys_quote_some (readString_body s rest) count depth).trans (if_neg fun hkey => ?_)
  exact h hkey.1 hkey.2

theorem head?_dropWhile_colon {colon : List Char} (hcolon : IsSpaces colon) (rest : List Char) :
    ((colon ++ ':' :: rest).dropWhile (isJsonSpace id)).head? = some ':' := by
  induction colon with
  | nil => rfl
  | cons c colon ih =>
    have hspace : isJsonSpace id c = true := hcolon c mem_cons_self
    rw [cons_append, dropWhile_cons_of_pos hspace]
    exact ih fun d hd => hcolon d (mem_cons_of_mem c hd)

theorem countKeys_key (s : Text) {colon : List Char} (hcolon : IsSpaces colon) (rest : List Char) :
    countKeys id count 1 (s.quoted ++ (colon ++ ':' :: rest)) =
      if s.hasEscape then -1 else countKeys id (count + if s.body = "query".toList then 1 else 0) 1 rest := by
  change countKeys id count 1 ('"' :: (s.body ++ ['"']) ++ _) = _
  rw [cons_append, append_assoc]
  refine (countKeys_quote_some (readString_body s (colon ++ ':' :: rest)) count 1).trans ?_
  rw [if_pos ⟨rfl, head?_dropWhile_colon hcolon rest⟩, countKeys_spaces hcolon, countKeys_spaces hcolon,
    countKeys_separator (by decide), countKeys_separator (by decide), List.map_id]
  cases s.hasEscape with
  | true => rfl
  | false =>
    by_cases hquery : s.body = "query".toList
    · rw [if_pos hquery, if_pos hquery]
    · rw [if_neg hquery, if_neg hquery, Int.add_zero]

end Strings

section Derivations

variable {count : ℤ}

theorem countKeys_deep {part : Part} {t : List Char} (h : Derives part t) {depth : ℤ} (hdepth : 2 ≤ depth)
    (rest : List Char) : countKeys id count depth (t ++ rest) = countKeys id count depth rest := by
  have hstring (s : Text) (depth : ℤ) (hdepth : 2 ≤ depth) (rest : List Char) :
      countKeys id count depth (s.quoted ++ rest) = countKeys id count depth rest :=
    countKeys_string s rest fun htop => by omega
  induction h generalizing depth rest with
  | literal word hword => exact countKeys_literal hword rest
  | number s hnumber => exact countKeys_number hnumber rest
  | string s => exact hstring s depth hdepth rest
  | emptyArray space hspace | emptyObject space hspace =>
    rw [cons_append, countKeys_open (by decide), append_assoc, countKeys_spaces hspace,
      singleton_append, countKeys_close (by decide), Int.add_sub_cancel]
  | array items hitems ih | object entries members hmems ih =>
    rw [cons_append, countKeys_open (by decide), append_assoc, ih (by omega), singleton_append,
      countKeys_close (by decide), Int.add_sub_cancel]
  | item before value after hbefore hvalue hafter ih =>
    rw [append_assoc, countKeys_spaces hbefore, append_assoc, ih hdepth, countKeys_spaces hafter]
  | moreItems before value after more hbefore hvalue hafter hmore ih ihMore =>
    rw [append_assoc, countKeys_spaces hbefore, append_assoc, ih hdepth, append_assoc,
      countKeys_spaces hafter, cons_append, countKeys_separator (by decide), ihMore hdepth]
  | member before key colon between value after hbefore hcolon hmid hvalue hafter ih =>
    rw [append_assoc, countKeys_spaces hbefore, append_assoc, hstring key depth hdepth, append_assoc,
      countKeys_spaces hcolon, cons_append, countKeys_separator (by decide), append_assoc,
      countKeys_spaces hmid, append_assoc, ih hdepth, countKeys_spaces hafter]
  | moreMembers before key colon between value after more entries hbefore hcolon hmid hvalue hafter hmore ih ihMore =>
    rw [append_assoc, countKeys_spaces hbefore, append_assoc, hstring key depth hdepth, append_assoc,
      countKeys_spaces hcolon, cons_append, countKeys_separator (by decide), append_assoc,
      countKeys_spaces hmid, append_assoc, ih hdepth, append_assoc, countKeys_spaces hafter,
      cons_append, countKeys_separator (by decide), ihMore hdepth]

theorem countKeys_value {value : List Char} (h : Derives .value value) {rest : List Char}
    (hrest : (rest.dropWhile (isJsonSpace id)).head? ≠ some ':') :
    countKeys id count 1 (value ++ rest) = countKeys id count 1 rest := by
  cases h with
  | literal word hword => exact countKeys_literal hword rest
  | number s hnumber => exact countKeys_number hnumber rest
  | string s => exact countKeys_string s rest fun _ => hrest
  | emptyArray _ hspace | emptyObject _ hspace =>
    rw [cons_append, countKeys_open (by decide), append_assoc, countKeys_spaces hspace,
      singleton_append, countKeys_close (by decide), Int.add_sub_cancel]
  | array _ hitems | object _ _ hitems =>
    rw [cons_append, countKeys_open (by decide), append_assoc, countKeys_deep hitems (by omega),
      singleton_append, countKeys_close (by decide), Int.add_sub_cancel]

/-- What the count makes of the keys of the members. -/
def counted (count : ℤ) (entries : List (Text × List Char)) : ℤ :=
  if entries.any (fun entry => entry.1.hasEscape) then -1
  else count + entries.countP fun entry => entry.1.body = "query".toList

theorem counted_cons (count : ℤ) (entry : Text × List Char) (entries : List (Text × List Char)) :
    counted count (entry :: entries) = if entry.1.hasEscape then -1
      else counted (count + if entry.1.body = "query".toList then 1 else 0) entries := by
  have hany : (entry :: entries).any (fun entry => entry.1.hasEscape) =
      (entry.1.hasEscape || entries.any fun entry => entry.1.hasEscape) := any_cons
  have hcount : ((entry :: entries).countP fun entry => entry.1.body = "query".toList) =
      (entries.countP fun entry => entry.1.body = "query".toList) +
        if entry.1.body = "query".toList then 1 else 0 := by
    rw [countP_cons]
    exact congrArg _ (if_congr decide_eq_true_iff rfl rfl)
  unfold counted
  rw [hany, hcount]
  cases entry.1.hasEscape with
  | true => rfl
  | false =>
    rw [if_neg Bool.false_ne_true]
    refine if_congr Iff.rfl rfl ?_
    split
    · omega
    · omega

theorem head?_dropWhile_ne_colon {after : List Char} (hafter : IsSpaces after) {c : Char} (hc : c ∈ [',', '}'])
    (rest : List Char) : ((after ++ c :: rest).dropWhile (isJsonSpace id)).head? ≠ some ':' := by
  induction after with
  | nil =>
    have hends : ∀ c ∈ [',', '}'], isJsonSpace id c = false ∧ c ≠ ':' := by decide
    rw [nil_append, dropWhile_cons_of_neg (by rw [(hends c hc).1]; exact Bool.false_ne_true)]
    exact fun heq => (hends c hc).2 (some.inj heq)
  | cons d after ih =>
    have hspace : isJsonSpace id d = true := hafter d mem_cons_self
    rw [cons_append, dropWhile_cons_of_pos hspace]
    exact ih fun e he => hafter e (mem_cons_of_mem d he)

theorem countKeys_members {entries : List (Text × List Char)} {members : List Char}
    (h : Derives (.members entries) members) {after : List Char} (hafter : IsSpaces after) :
    countKeys id count 1 (members ++ '}' :: after) = counted count entries := by
  have hend (count : ℤ) : countKeys id count 1 ('}' :: after) = count := by
    rw [countKeys_close (by decide), ← append_nil after, countKeys_spaces hafter, countKeys]
  generalize hpart : Part.members entries = part at h
  induction h generalizing entries count with
  | literal | number | string | emptyArray | array | emptyObject | object | item | moreItems => cases hpart
  | member before key colon between value space hbefore hcolon hmid hvalue hspace =>
    cases hpart
    rw [append_assoc, countKeys_spaces hbefore, append_assoc, append_assoc, cons_append,
      countKeys_key key hcolon, counted_cons, append_assoc, countKeys_spaces hmid, append_assoc,
      countKeys_value hvalue (head?_dropWhile_ne_colon hspace (by decide) after), countKeys_spaces hspace, hend]
    exact if_congr Iff.rfl rfl (Int.add_zero _).symm
  | moreMembers before key colon between value space more rest hbefore hcolon hmid hvalue hspace hmore _ ih =>
    cases hpart
    rw [append_assoc, countKeys_spaces hbefore, append_assoc, append_assoc, cons_append,
      countKeys_key key hcolon, counted_cons, append_assoc, countKeys_spaces hmid, append_assoc,
      append_assoc, cons_append, countKeys_value hvalue (head?_dropWhile_ne_colon hspace (by decide) _),
      countKeys_spaces hspace, countKeys_separator (by decide), ih rfl]

/-- Keys of an object are counted. -/
theorem countKeys_object {entries : List (Text × List Char)} {text : List Char} (h : IsObject entries text) :
    countKeys id 0 0 text = counted 0 entries := by
  obtain ⟨before, members, after, hbefore, hafter, rfl, hmems⟩ := h
  rw [countKeys_spaces hbefore, countKeys_open (by decide)]
  cases hmems with
  | inl hempty =>
    rw [hempty.1, countKeys_spaces hempty.2, countKeys_close (by decide), ← append_nil after,
      countKeys_spaces hafter, countKeys]
    rfl
  | inr hmems => exact countKeys_members hmems hafter

end Derivations

section Readers

variable {entries : List (Text × List Char)} {text : List Char}

/-- Without escapes a key is its body. -/
theorem countP_units_eq (h : ∀ entry ∈ entries, entry.1.hasEscape = false) :
    entries.countP (fun entry => entry.1.units = js "query") =
      entries.countP fun entry => entry.1.body = "query".toList := by
  refine countP_congr fun entry hentry => ?_
  rw [decide_eq_true_iff, decide_eq_true_iff, Text.units_of_not_hasEscape (h entry hentry)]
  exact utf16_injective.eq_iff

/-- The document that `classify_graphql_body` hands to the document classifier, if it reaches it. -/
def classifiedDocument (fromSlice : List UInt8 → Option (Json Str)) (bytes : List UInt8) : Option Str :=
  if bytes.isEmpty then none
  else
    ((fromSlice bytes).bind fun parsed => (parsed.get "query".toList).bind Json.asStr).filter fun _ =>
      countTopLevelLiteralQueryKeys byteUnit bytes = 1

theorem classifyGraphqlBody_eq (fromSlice : List UInt8 → Option (Json Str)) (bytes : List UInt8) :
    classifyGraphqlBody fromSlice (some bytes) =
      (classifiedDocument fromSlice bytes).elim .mutation classifyGraphqlDocument := by
  unfold classifyGraphqlBody classifiedDocument
  dsimp only
  cases bytes.isEmpty with
  | true => rfl
  | false =>
    cases fromSlice bytes with
    | none => rfl
    | some parsed =>
      dsimp only [bind_some]
      cases (parsed.get "query".toList).bind Json.asStr with
      | none => rfl
      | some =>
        dsimp only
        by_cases hcount : countTopLevelLiteralQueryKeys byteUnit bytes = 1
        · rw [if_neg (not_not.mpr hcount), decide_eq_true hcount]
          rfl
        · rw [if_pos hcount, decide_eq_false hcount]
          rfl

/-- The count is one exactly where no key of a member contains an escape and one key alone is `query`; so where the body
reaches the document classifier, the first and the last member with that key have the same value. -/
theorem query_keys_exact (h : IsObject entries text) (fromSlice : List UInt8 → Option (Json Str)) :
    (countTopLevelLiteralQueryKeys byteUnit (asBytes text) = 1 ↔
      (∀ entry ∈ entries, entry.1.hasEscape = false) ∧ entries.countP (fun entry => entry.1.units = js "query") = 1) ∧
    ((classifiedDocument fromSlice (asBytes text)).isSome →
      ∃ value, firstWins entries (js "query") = some value ∧ lastWins entries (js "query") = some value) := by
  have hcount : countTopLevelLiteralQueryKeys byteUnit (asBytes text) = counted 0 entries :=
    (countTopLevelLiteralQueryKeys_encode Parity.utf8_spells_keys text).trans (countKeys_object h)
  have hexact : countTopLevelLiteralQueryKeys byteUnit (asBytes text) = 1 ↔
      (∀ entry ∈ entries, entry.1.hasEscape = false) ∧
        entries.countP (fun entry => entry.1.units = js "query") = 1 := by
    rw [hcount]
    unfold counted
    by_cases hescape : entries.any (fun entry => entry.1.hasEscape) = true
    · rw [if_pos hescape]
      obtain ⟨entry, hentry, hkey⟩ := List.any_eq_true.mp hescape
      refine iff_of_false (by decide) fun hnone => ?_
      rw [hnone.1 entry hentry] at hkey
      exact Bool.false_ne_true hkey
    · have hnone : ∀ entry ∈ entries, entry.1.hasEscape = false := by
        intro entry hentry
        refine Bool.eq_false_iff.mpr fun hkey => hescape ?_
        exact List.any_eq_true.mpr ⟨entry, hentry, hkey⟩
      rw [if_neg hescape, countP_units_eq hnone, and_iff_right hnone]
      omega
  refine ⟨hexact, fun hreaches => ?_⟩
  have hone : countTopLevelLiteralQueryKeys byteUnit (asBytes text) = 1 := by
    unfold classifiedDocument at hreaches
    split at hreaches
    · cases hreaches
    · obtain ⟨document, hdocument⟩ := Option.isSome_iff_exists.mp hreaches
      exact of_decide_eq_true (Option.filter_eq_some_iff.mp hdocument).2
  obtain ⟨hsame, hsome⟩ := lastWins_eq_firstWins (hexact.mp hone).2
  obtain ⟨value, hvalue⟩ := Option.isSome_iff_exists.mp hsome
  exact ⟨value, hvalue, hsame.trans hvalue⟩

end Readers

/-- The key `query`. -/
def queryKey : Text :=
  [.plain 'q' (by decide), .plain 'u' (by decide), .plain 'e' (by decide), .plain 'r' (by decide), .plain 'y' (by decide)]

/-- The key `v`. -/
def variablesKey : Text := [.plain 'v' (by decide)]

/-- The members of a body: variables that hold a key `query` themselves, the document, and a word behind white space. -/
def requestMembers : List (Text × List Char) :=
  [(variablesKey, "\x7b\"query\":1\x7d".toList), (queryKey, "\"\"".toList), (variablesKey, "null".toList)]

/-- The text is an object with these members. -/
theorem isObject_request :
    IsObject requestMembers " \x7b \"v\":\x7b\"query\":1\x7d,\n\"query\" : \"\" ,\"v\":null\x7d\n".toList := by
  have hnone : IsSpaces [] := nofun
  have hspace : IsSpaces [' '] := by simp [IsSpaces, isSpace]
  have hline : IsSpaces ['\n'] := by simp [IsSpaces, isSpace]
  have hnumber : Derives .value "1".toList :=
    .number _ ⟨[], ['1'], [], [], mem_cons_self, ⟨⟨cons_ne_nil _ _, by decide⟩, fun h => by simp at h⟩, .inl rfl, .inl rfl, rfl⟩
  have hnested := Derives.object _ _ (.member [] queryKey [] [] _ [] hnone hnone hnone hnumber hnone)
  have hlast := Derives.member [] variablesKey [] [] _ [] hnone hnone hnone (.literal "null" (by decide)) hnone
  have hrest := Derives.moreMembers ['\n'] queryKey [' '] [' '] _ [' '] _ _ hline hspace hspace (.string []) hspace hlast
  have hall := Derives.moreMembers [' '] variablesKey [] [] _ [] _ _ hspace hnone hnone hnested hnone hrest
  exact ⟨[' '], _, ['\n'], hspace, hline, rfl, .inr hall⟩

/-- The count is one in a body with several members and white space, whose variables hold the key as well. -/
theorem query_keys_exact_request :
    countTopLevelLiteralQueryKeys byteUnit
      (asBytes " \x7b \"v\":\x7b\"query\":1\x7d,\n\"query\" : \"\" ,\"v\":null\x7d\n".toList) = 1 :=
  ((query_keys_exact isObject_request fun _ => none).1).mpr ⟨by decide, by decide⟩

end Onecli.Gateway
