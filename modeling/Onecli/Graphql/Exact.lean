import Onecli.Graphql.Grammar
import Onecli.Gateway.Graphql

/-!
# The scanner reads tokens

On a text that lexes, the character scanner does what a machine over the tokens does: strings
and comments are passed over whole, brackets move the depth, and the first token of a
definition is read as a whole name. Nothing is assumed of the tokens here but that they lex.
-/

namespace Onecli.Graphql

open Gateway (chars)
open List

/-- The scanner inside a definition does not look at anything but brackets. -/
def punctStep (st : Scan) : Punctuator → Option Scan
  | .braceL | .parenL | .bracketL => some { st with depth := st.depth + 1 }
  | .parenR | .bracketR => if st.depth - 1 < 0 then none else some { st with depth := st.depth - 1 }
  | .braceR =>
    if st.depth - 1 < 0 then none
    else some ⟨st.depth - 1, st.expectingDefinition || st.depth - 1 == 0, st.sawQueryOperation⟩
  | _ => some st

/-- What the scanner does at one token. -/
def tokenStep (st : Scan) (t : Token) : Option Scan :=
  match t with
  | .string _ => some st
  | .punct p =>
    if st.expectingDefinition && st.depth == 0 then
      if p = .braceL then some ⟨st.depth + 1, false, true⟩ else none
    else punctStep st p
  | .name n =>
    if st.expectingDefinition && st.depth == 0 then
      if n.text = "query".toList then some ⟨st.depth, false, true⟩
      else if n.text = "fragment".toList then some ⟨st.depth, false, st.sawQueryOperation⟩
      else none
    else some st
  | .number _ _ => if st.expectingDefinition && st.depth == 0 then none else some st

/-- The tokens of a document one after the other. -/
def run (st : Scan) (ts : List Token) : Option Scan := ts.foldlM tokenStep st

/-- The answer after a run; a run that stopped early makes a mutation. -/
def answer : Option Scan → OpKind
  | none => .mutation
  | some st => st.kind

section Lexemes

variable {c : Char} {s : List Char}

theorem not_punctuation_of_nameContinue (hc : IsNameContinue c) :
    ∀ d ∈ punctuation, c ≠ chars.unit d := by
  have hall : ∀ d ∈ punctuation, ¬ IsNameContinue d := by decide
  intro d hd heq
  change c = d at heq
  exact hall d hd (heq ▸ hc)

theorem IsNameStart.continue (hc : IsNameStart c) : IsNameContinue c := by
  simp only [IsNameStart, IsNameContinue, Bool.or_eq_true, Char.isAlphanum] at hc ⊢
  exact hc.imp_right .inl

theorem IsDigit.continue (hc : IsDigit c) : IsNameContinue c := by
  simp only [IsDigit, IsNameContinue, Bool.or_eq_true, Char.isAlphanum] at hc ⊢
  exact .inr (.inr hc)

theorem IsNumber.chars (hs : IsNumber s) : ∀ c ∈ s, IsNameContinue c ∨ c ∈ ['+', '-', '.'] := by
  have hdigits {ds : List Char} (h : IsDigits ds) :
      ∀ c ∈ ds, IsNameContinue c ∨ c ∈ ['+', '-', '.'] := fun c hc => .inl (h.2 c hc).continue
  have hint {i : List Char} (h : IsIntegerPart i) :
      ∀ c ∈ i, IsNameContinue c ∨ c ∈ ['+', '-', '.'] := by
    obtain ⟨sign, ds, hsign, rfl, hds, -⟩ := h
    rcases hsign with rfl | rfl
    · exact hdigits hds
    · exact forall_mem_cons.mpr ⟨.inr (by decide), hdigits hds⟩
  have hfrac {f : List Char} (h : IsFractionalPart f) :
      ∀ c ∈ f, IsNameContinue c ∨ c ∈ ['+', '-', '.'] := by
    obtain ⟨ds, rfl, hds⟩ := h
    exact forall_mem_cons.mpr ⟨.inr (by decide), hdigits hds⟩
  have hexp {x : List Char} (h : IsExponentPart x) :
      ∀ c ∈ x, IsNameContinue c ∨ c ∈ ['+', '-', '.'] := by
    obtain ⟨e, sign, ds, he, hsign, rfl, hds⟩ := h
    have hfirst : IsNameContinue e := by rcases he with rfl | rfl <;> decide
    refine forall_mem_cons.mpr ⟨.inl hfirst, forall_mem_append.mpr ⟨?_, hdigits hds⟩⟩
    rcases hsign with rfl | rfl | rfl <;> simp
  cases hs with
  | int hi => exact hint hi
  | fraction hi hf => exact forall_mem_append.mpr ⟨hint hi, hfrac hf⟩
  | exponent hi hx => exact forall_mem_append.mpr ⟨hint hi, hexp hx⟩
  | both hi hf hx => exact forall_mem_append.mpr ⟨forall_mem_append.mpr ⟨hint hi, hfrac hf⟩, hexp hx⟩

theorem IsNumber.not_punctuation (hs : IsNumber s) :
    ∀ c ∈ s, ∀ d ∈ punctuation, c ≠ Gateway.chars.unit d := by
  intro c hc
  rcases hs.chars c hc with h | h
  · exact not_punctuation_of_nameContinue h
  · have hall : ∀ c ∈ ['+', '-', '.'], ∀ d ∈ punctuation, c ≠ Gateway.chars.unit d := by decide
    exact hall c h

theorem IsDigit.not_nameStart (hc : IsDigit c) : ¬ IsNameStart c := by
  intro hstart
  simp only [IsDigit, Char.isDigit, Bool.and_eq_true, decide_eq_true_eq, ge_iff_le, UInt32.le_iff_toNat_le] at hc
  simp only [IsNameStart, CodeUnits.isAlpha_iff, Bool.or_eq_true, beq_iff_eq] at hstart
  change 48 ≤ c.toNat ∧ c.toNat ≤ 57 at hc
  rcases hstart with rfl | hletter
  · exact absurd hc (by decide)
  · omega

theorem IsNumber.head_not_nameStart (hs : IsNumber s) :
    ∃ c rest, s = c :: rest ∧ ¬ IsNameStart c := by
  have hint {i : List Char} (h : IsIntegerPart i) : ∃ c rest, i = c :: rest ∧ ¬ IsNameStart c := by
    obtain ⟨sign, ds, hsign, rfl, ⟨hne, hall⟩, -⟩ := h
    rcases hsign with rfl | rfl
    · obtain ⟨c, rest, rfl⟩ := exists_cons_of_ne_nil hne
      exact ⟨c, rest, rfl, (hall c mem_cons_self).not_nameStart⟩
    · exact ⟨'-', ds, rfl, by decide⟩
  cases hs with
  | int hi => exact hint hi
  | fraction hi hf | exponent hi hx =>
    obtain ⟨c, rest, rfl, hc⟩ := hint hi
    exact ⟨c, rest ++ _, rfl, hc⟩
  | both hi =>
    obtain ⟨c, rest, rfl, hc⟩ := hint hi
    exact ⟨c, rest ++ _ ++ _, rfl, hc⟩

end Lexemes

section Strings

theorem skipString_plain {block : List Char} (hblock : ∀ c ∈ block, c ≠ '"' ∧ c ≠ '\\')
    (rest : List Char) : chars.skipString (block ++ rest) = chars.skipString rest :=
  skipString_append chars hblock rest

theorem skipString_escape (d : Char) (rest : List Char) :
    chars.skipString ('\\' :: d :: rest) = chars.skipString rest := by
  rfl

theorem IsHexDigit.plain {c : Char} (hc : IsHexDigit c) : c ≠ '"' ∧ c ≠ '\\' := by
  constructor
  · rintro rfl
    exact absurd hc (by decide)
  · rintro rfl
    exact absurd hc (by decide)

theorem skipString_stringChar (x : StringChar) (rest : List Char) :
    chars.skipString (x.text ++ rest) = chars.skipString rest := by
  cases x with
  | plain c hquote hback => exact skipString_plain (fun u hu => mem_singleton.mp hu ▸ ⟨hquote, hback⟩) rest
  | unicode a b c d =>
    change chars.skipString ('\\' :: 'u' :: ([a.1, b.1, c.1, d.1] ++ rest)) = _
    rw [skipString_escape, skipString_plain]
    simp only [forall_mem_cons]
    exact ⟨a.2.plain, b.2.plain, c.2.plain, d.2.plain, nofun⟩
  | unicodeBraced digits =>
    have hall : ∀ c ∈ '{' :: (digits.map Subtype.val ++ ['}']), c ≠ '"' ∧ c ≠ '\\' := by
      refine forall_mem_cons.mpr ⟨by decide, forall_mem_append.mpr ⟨?_, by decide⟩⟩
      intro c hc
      obtain ⟨x, -, rfl⟩ := List.mem_map.mp hc
      exact x.2.plain
    change chars.skipString ('\\' :: 'u' :: (('{' :: (digits.map Subtype.val ++ ['}'])) ++ rest)) = _
    rw [skipString_escape, skipString_plain hall]
  | escaped c => exact skipString_escape c rest

theorem skipString_quoted (contents : List StringChar) (rest : List Char) :
    chars.skipString (contents.flatMap StringChar.text ++ '"' :: rest) = some rest := by
  induction contents with
  | nil =>
    rw [flatMap_nil, Alphabet.skipString.eq_def]
    rfl
  | cons x contents ih => rw [flatMap_cons, append_assoc, skipString_stringChar, ih]

theorem skipBlockString_block {contents : List BlockChar} (hok : BlockOk contents)
    (rest : List Char) :
    chars.skipBlockString (blockText contents ++ '"' :: '"' :: '"' :: rest) = some rest := by
  have hsplit (s : List Char) : s ++ '"' :: '"' :: '"' :: rest = (s ++ ['"', '"', '"']) ++ rest := by
    simp
  induction contents with
  | nil =>
    rw [blockText, nil_append, Alphabet.skipBlockString]
    rfl
  | cons x contents ih =>
    cases x with
    | escapedQuotes =>
      rw [blockText, cons_append, Alphabet.skipBlockString]
      exact ih hok
    | plain c =>
      obtain ⟨hclose, hescape, hmore⟩ := hok
      have hnot (pat : String)
          (hlen : pat.toList.length ≤ (c :: (blockText contents ++ ['"', '"', '"'])).length)
          (hpat : ¬ pat.toList <+: c :: (blockText contents ++ ['"', '"', '"'])) :
          chars.startsWith (c :: (blockText contents ++ '"' :: '"' :: '"' :: rest)) pat = false := by
        rw [Bool.eq_false_iff, Alphabet.startsWith, ne_eq, isPrefixOf_iff_prefix, hsplit,
          ← cons_append, Alphabet.lit, show chars.unit = id from rfl, List.map_id, isPrefix_append_of_length hlen]
        exact hpat
      rw [blockText, cons_append, Alphabet.skipBlockString,
        hnot "\"\"\"" (by simp) hclose, hnot "\\\"\"\"" (by simp) hescape]
      exact ih hmore

end Strings

section Steps

theorem StringChar.text_eq_cons (x : StringChar) : ∃ c more, x.text = c :: more ∧ c ≠ '"' := by
  cases x with
  | plain c hquote => exact ⟨c, [], rfl, hquote⟩
  | _ => exact ⟨'\\', _, rfl, by decide⟩

variable {c : Char}

theorem startsWith_quotes_of_ne (hc : c ≠ '"') (rest : List Char) :
    chars.startsWith ('"' :: c :: rest) "\"\"\"" = false ∧
      chars.startsWith ('"' :: '"' :: c :: rest) "\"\"\"" = false := by
  have hbeq : ('"' == c) = false := beq_eq_false_iff_ne.mpr (Ne.symm hc)
  constructor
  · change ('"' == '"' && ('"' == c && _)) = false
    rw [hbeq, Bool.false_and, Bool.and_false]
  · change ('"' == '"' && ('"' == '"' && ('"' == c && _))) = false
    rw [hbeq, Bool.false_and, Bool.and_false, Bool.and_false]

theorem scan_string (st : Scan) (s : StringValue) (rest : List Char)
    (ht : (Token.string s).Allows rest) : scan chars st (s.text ++ rest) = scan chars st rest := by
  cases s with
  | quoted contents =>
    have hopen : chars.startsWith ('"' :: (contents.flatMap StringChar.text ++ '"' :: rest))
        "\"\"\"" = false := by
      cases contents with
      | nil =>
        cases rest with
        | nil => rfl
        | cons c rest => exact (startsWith_quotes_of_ne (fun h => ht (h ▸ rfl)) rest).2
      | cons x =>
        obtain ⟨c, more, htext, hc⟩ := x.text_eq_cons
        rw [flatMap_cons, htext]
        exact (startsWith_quotes_of_ne hc _).1
    rw [StringValue.text, cons_append, append_assoc, singleton_append]
    refine scan_of_step chars ?_
    unfold scanStep
    rw [hopen, skipString_quoted]
    rfl
  | block contents hok =>
    rw [StringValue.text, append_assoc, append_assoc]
    refine scan_of_step chars ?_
    change (chars.skipBlockString (blockText contents ++ '"' :: '"' :: '"' :: rest)).map _ = _
    rw [skipBlockString_block hok]
    rfl

theorem scanStep_bracket (st : Scan) (hc : c ∈ ['{', '(', '[', '}', ')', ']']) (rest : List Char) :
    scanStep chars st c rest = if st.expectingDefinition && st.depth == 0 then definitionStart chars st c rest
      else insideStep chars st c rest := by
  simp only [mem_cons, not_mem_nil, or_false] at hc
  rcases hc with rfl | rfl | rfl | rfl | rfl | rfl <;> rfl

theorem definitionStart_eq_none (st : Scan) {c : Char} (hbrace : c ≠ '{') (hname : ¬ IsNameStart c)
    (rest : List Char) : definitionStart chars st c rest = none := by
  have hread : chars.readName (c :: rest) = none := by
    exact if_neg hname
  rw [definitionStart, hread]
  exact if_neg hbrace

theorem scan_lexeme (st : Scan) {more : List Char}
    (hplain : ∀ x ∈ c :: more, ∀ d ∈ punctuation, x ≠ chars.unit d) (hname : ¬ IsNameStart c)
    (rest : List Char) :
    scan chars st (c :: more ++ rest) =
      if st.expectingDefinition && st.depth == 0 then .mutation else scan chars st rest := by
  by_cases hstart : (st.expectingDefinition && st.depth == 0) = true
  · have hc := hplain c mem_cons_self
    rw [if_pos hstart]
    refine scan_of_step_none chars ?_
    rw [scanStep_plain chars st hc, if_pos hstart, definitionStart_eq_none st (hc '{' (by decide)) hname]
  · rw [if_neg hstart, scan_plain_append chars (Bool.eq_false_iff.mpr hstart) hplain]

/-- The loop goes on after a token, or has returned. -/
def resume (next : Option Scan) (rest : List Char) : OpKind :=
  match next with
  | none => .mutation
  | some st => scan chars st rest

theorem scan_of_step_map {st : Scan} {rest rest' : List Char} {next : Option Scan}
    (h : scanStep chars st c rest' = next.map fun st => (st, rest)) :
    scan chars st (c :: rest') = resume next rest := by
  cases next with
  | none => exact scan_of_step_none chars h
  | some => exact scan_of_step chars h

theorem insideStep_bracket (st : Scan) (rest : List Char) :
    insideStep chars st '{' rest = (punctStep st .braceL).map (fun st => (st, rest)) ∧
      insideStep chars st '(' rest = (punctStep st .parenL).map (fun st => (st, rest)) ∧
      insideStep chars st '[' rest = (punctStep st .bracketL).map (fun st => (st, rest)) ∧
      insideStep chars st '}' rest = (punctStep st .braceR).map (fun st => (st, rest)) ∧
      insideStep chars st ')' rest = (punctStep st .parenR).map (fun st => (st, rest)) ∧
      insideStep chars st ']' rest = (punctStep st .bracketR).map (fun st => (st, rest)) := by
  have hclose (c : Char) (hc : chars.opens c = false ∧ chars.closes c = true) :
      insideStep chars st c rest = if st.depth - 1 < 0 then none
        else some (⟨st.depth - 1, st.expectingDefinition || (st.depth - 1 == 0 && c == '}'),
          st.sawQueryOperation⟩, rest) := by
    rw [insideStep, hc.1, hc.2]
    rfl
  refine ⟨rfl, rfl, rfl, ?_, ?_, ?_⟩
  · rw [hclose '}' (by decide), punctStep, beq_self_eq_true, Bool.and_true]
    split_ifs <;> rfl
  · rw [hclose ')' (by decide), punctStep, show (')' == '}') = false from rfl, Bool.and_false, Bool.or_false]
    split_ifs <;> rfl
  · rw [hclose ']' (by decide), punctStep, show (']' == '}') = false from rfl, Bool.and_false, Bool.or_false]
    split_ifs <;> rfl

theorem scan_other_punct (st : Scan) {p : Punctuator} {more : List Char} (hp : p.text = c :: more)
    (hplain : ∀ x ∈ c :: more, ∀ d ∈ punctuation, x ≠ chars.unit d) (hname : ¬ IsNameStart c)
    (hstep : punctStep st p = some st) (hbrace : p ≠ .braceL) (rest : List Char) :
    scan chars st (p.text ++ rest) = resume (tokenStep st (.punct p)) rest := by
  rw [hp, scan_lexeme st hplain hname, tokenStep]
  simp only [hstep, hbrace, ↓reduceIte]
  split_ifs <;> rfl

theorem scan_bracket (st : Scan) {p : Punctuator} {rest : List Char} (hp : p.text = [c])
    (hc : c ∈ ['{', '(', '[', '}', ')', ']'])
    (hinside : insideStep chars st c rest = (punctStep st p).map fun st => (st, rest))
    (hstart : definitionStart chars st c rest = (if p = .braceL then some ⟨st.depth + 1, false, true⟩ else none).map fun st => (st, rest)) :
    scan chars st (p.text ++ rest) = resume (tokenStep st (.punct p)) rest := by
  rw [hp, singleton_append]
  refine scan_of_step_map ?_
  rw [scanStep_bracket st hc, hinside, hstart, tokenStep]
  split_ifs <;> rfl

theorem scan_punct (st : Scan) (p : Punctuator) (rest : List Char) :
    scan chars st (p.text ++ rest) = resume (tokenStep st (.punct p)) rest := by
  obtain ⟨hbraceL, hparenL, hbracketL, hbraceR, hparenR, hbracketR⟩ := insideStep_bracket st rest
  cases p with
  | braceL => exact scan_bracket st rfl (by decide) hbraceL rfl
  | parenL => exact scan_bracket st rfl (by decide) hparenL rfl
  | bracketL => exact scan_bracket st rfl (by decide) hbracketL rfl
  | braceR => exact scan_bracket st rfl (by decide) hbraceR rfl
  | parenR => exact scan_bracket st rfl (by decide) hparenR rfl
  | bracketR => exact scan_bracket st rfl (by decide) hbracketR rfl
  | _ => exact scan_other_punct st rfl (by decide) (by decide) rfl (by decide) rest

theorem readName_name (n : Name) (rest : List Char) (ht : (Token.name n).Allows rest) :
    chars.readName (n.text ++ rest) = some n.text := by
  obtain ⟨text, hok⟩ := n
  cases text with
  | nil => exact hok.elim
  | cons c cs =>
    have hfirst : chars.isNameStart c = true := hok.1
    have hcs : ∀ d ∈ cs, chars.isNamePart d = true := hok.2
    have hstop : rest.takeWhile chars.isNamePart = [] := by
      cases rest with
      | nil => rfl
      | cons d => exact takeWhile_cons_of_neg (ht d rfl)
    change (if chars.isNameStart c then some (c :: (cs ++ rest).takeWhile chars.isNamePart) else none) = _
    rw [if_pos hfirst, takeWhile_append_of_pos hcs, hstop, append_nil]

theorem scan_name (st : Scan) (n : Name) (rest : List Char) (ht : (Token.name n).Allows rest) :
    scan chars st (n.text ++ rest) = resume (tokenStep st (.name n)) rest := by
  have hread := readName_name n rest ht
  obtain ⟨text, hok⟩ := n
  cases text with
  | nil => exact hok.elim
  | cons c cs =>
    have hplain : ∀ x ∈ c :: cs, ∀ d ∈ punctuation, x ≠ chars.unit d := by
      refine forall_mem_cons.mpr ⟨not_punctuation_of_nameContinue hok.1.continue, ?_⟩
      exact fun x hx => not_punctuation_of_nameContinue (hok.2 x hx)
    by_cases hstart : (st.expectingDefinition && st.depth == 0) = true
    · refine scan_of_step_map ?_
      have hc := hplain c mem_cons_self
      have hdrop : (c :: (cs ++ rest)).drop (c :: cs).length = rest := drop_left
      rw [tokenStep]
      change scanStep chars st c (cs ++ rest) = _
      change chars.readName (c :: (cs ++ rest)) = some (c :: cs) at hread
      have hbrace : ¬ c = chars.unit '{' := hc '{' (by decide)
      rw [scanStep_plain chars st hc, if_pos hstart, definitionStart, if_neg hbrace, hread]
      simp only [hdrop]
      change (if c :: cs = "query".toList then _ else if c :: cs = "fragment".toList then _ else _) = _
      split_ifs <;> rfl
    · rw [tokenStep, if_neg hstart]
      exact scan_plain_append chars (Bool.eq_false_iff.mpr hstart) hplain rest

theorem scan_token (st : Scan) (t : Token) (rest : List Char) (ht : t.Allows rest) :
    scan chars st (t.text ++ rest) = resume (tokenStep st t) rest := by
  cases t with
  | punct p => exact scan_punct st p rest
  | name n => exact scan_name st n rest ht
  | number s hs =>
    obtain ⟨c, more, rfl, hname⟩ := hs.head_not_nameStart
    rw [Token.text, scan_lexeme st hs.not_punctuation hname, tokenStep]
    split_ifs <;> rfl
  | string s => exact scan_string st s rest ht

theorem scan_ignored (st : Scan) (hc : IsIgnoredChar c) (rest : List Char) :
    scan chars st (c :: rest) = scan chars st rest := by
  have hignored : chars.isIgnored c = true := by
    rcases hc with rfl | rfl | rfl | (rfl | rfl) | rfl <;> decide
  exact scan_of_step chars (if_pos hignored)

theorem scan_comment (st : Scan) {body rest : List Char} (hbody : ∀ c ∈ body, ¬ IsLineTerminator c)
    (hend : ∀ c ∈ rest.head?, IsLineTerminator c) :
    scan chars st ('#' :: (body ++ rest)) = scan chars st rest := by
  have hkeep : ∀ c ∈ body, (c != chars.unit '\n' && c != chars.unit '\r') = true := by
    intro c hc
    rw [Bool.and_eq_true, bne_iff_ne, bne_iff_ne]
    exact not_or.mp (hbody c hc)
  have hstop : chars.skipComment rest = rest := by
    cases rest with
    | nil => rfl
    | cons c =>
      refine dropWhile_cons_of_neg ?_
      rcases hend c rfl with rfl | rfl <;> decide
  refine scan_of_step chars ?_
  change some (st, chars.skipComment (body ++ rest)) = _
  rw [Alphabet.skipComment, dropWhile_append_of_pos hkeep, ← Alphabet.skipComment, hstop]

/-- The scanner answers as its tokens say. -/
theorem scan_lexed {ts : List Token} {s : List Char} (h : Lexed ts s) (st : Scan) :
    scan chars st s = answer (run st ts) := by
  induction h generalizing st with
  | nil => exact scan_nil chars st
  | ignored c hc hs ih => rw [scan_ignored st hc, ih]
  | comment body hbody hend hs ih => rw [scan_comment st hbody hend, ih]
  | token t ht hs ih =>
    rw [scan_token st t _ ht, run, foldlM_cons]
    cases tokenStep st t with
    | none => rfl
    | some st' => exact ih st'

end Steps

/-! ## The classifier is exact on grammatical documents

Brackets balance in everything the grammar derives, so a definition leaves the depth where it
was and its selection set is the first `{ … }` that closes at depth zero. The scanner thus
stands before a definition exactly where the grammar has one, and reads its first token.
-/

open Option

open Gateway (chars classifyGraphqlDocument)

/-- The tokens change nothing inside brackets. -/
def Inert (ts : List Token) : Prop :=
  ∀ (depth : ℤ) (saw : Bool), 0 < depth → run ⟨depth, false, saw⟩ ts = some ⟨depth, false, saw⟩

/-- The tokens change nothing inside a definition, also outside of all brackets. -/
def Neutral (ts : List Token) : Prop :=
  ∀ (depth : ℤ) (saw : Bool), 0 ≤ depth → run ⟨depth, false, saw⟩ ts = some ⟨depth, false, saw⟩

theorem run_cons (st : Scan) (t : Token) (ts : List Token) :
    run st (t :: ts) = (tokenStep st t).bind fun st => run st ts := List.foldlM_cons

theorem run_append (st : Scan) (ts us : List Token) :
    run st (ts ++ us) = (run st ts).bind fun st => run st us := List.foldlM_append

section Balance

variable {ts : List Token}

/-- Neutral tokens are inert. -/
theorem Neutral.inert (h : Neutral ts) : Inert ts := fun depth saw hdepth => h depth saw (Int.le_of_lt hdepth)

theorem inert_nil : Inert [] := fun _ _ _ => rfl

theorem neutral_nil : Neutral [] := fun _ _ _ => rfl

/-- Inert tokens one after another. -/
theorem Inert.append {ts us : List Token} (hts : Inert ts) (hus : Inert us) : Inert (ts ++ us) := by
  intro depth saw hdepth
  rw [run_append, hts depth saw hdepth]
  exact hus depth saw hdepth

/-- Neutral tokens one after another. -/
theorem Neutral.append {ts us : List Token} (hts : Neutral ts) (hus : Neutral us) :
    Neutral (ts ++ us) := by
  intro depth saw hdepth
  rw [run_append, hts depth saw hdepth]
  exact hus depth saw hdepth

/-- The six tokens that move the depth. -/
def Token.isBracket : Token → Bool
  | .punct p => p ∈ [.braceL, .parenL, .bracketL, .braceR, .parenR, .bracketR]
  | _ => false

/-- A token that is no bracket is neutral. -/
theorem neutral_singleton {t : Token} (ht : t.isBracket = false) : Neutral [t] := by
  intro depth saw _
  cases t with
  | punct p => cases p <;> first | rfl | exact absurd ht (by decide)
  | name | number | string => rfl

theorem Neutral.cons {t : Token} (ht : t.isBracket = false) (hts : Neutral ts) :
    Neutral (t :: ts) := (neutral_singleton ht).append hts

theorem Inert.cons {t : Token} (ht : t.isBracket = false) (hts : Inert ts) :
    Inert (t :: ts) := (neutral_singleton ht).inert.append hts

/-- Inert tokens are passed inside brackets. -/
theorem run_enclosed (hts : Inert ts) {depth : ℤ} (hdepth : 0 ≤ depth) (saw : Bool) (close : Token) (us : List Token) :
    run ⟨depth + 1, false, saw⟩ (ts ++ close :: us) =
      (tokenStep ⟨depth + 1, false, saw⟩ close).bind fun st => run st us := by
  rw [run_append, hts _ _ (by omega), bind_some, run_cons]

theorem Inert.parens (hts : Inert ts) : Neutral (.punct .parenL :: (ts ++ [.punct .parenR])) := by
  intro depth saw hdepth
  change run ⟨depth + 1, false, saw⟩ _ = _
  rw [run_enclosed hts hdepth]
  change (punctStep ⟨depth + 1, false, saw⟩ .parenR).bind _ = _
  rw [punctStep, if_neg (by simp only; omega), Int.add_sub_cancel]
  rfl

theorem Inert.brackets (hts : Inert ts) : Neutral (.punct .bracketL :: (ts ++ [.punct .bracketR])) := by
  intro depth saw hdepth
  change run ⟨depth + 1, false, saw⟩ _ = _
  rw [run_enclosed hts hdepth]
  change (punctStep ⟨depth + 1, false, saw⟩ .bracketR).bind _ = _
  rw [punctStep, if_neg (by simp only; omega), Int.add_sub_cancel]
  rfl

/-- A selection is passed. -/
theorem run_braces (hts : Inert ts) {depth : ℤ} (hdepth : 0 ≤ depth) (saw : Bool) :
    run ⟨depth + 1, false, saw⟩ (ts ++ [.punct .braceR]) = some ⟨depth, depth == 0, saw⟩ := by
  rw [run_enclosed hts hdepth]
  change (punctStep ⟨depth + 1, false, saw⟩ .braceR).bind _ = _
  rw [punctStep, if_neg (by simp only; omega), Int.add_sub_cancel]
  rfl

theorem Inert.braces (hts : Inert ts) : Inert (.punct .braceL :: (ts ++ [.punct .braceR])) := by
  intro depth saw hdepth
  change run ⟨depth + 1, false, saw⟩ _ = _
  rw [run_braces hts (Int.le_of_lt hdepth), beq_eq_false_iff_ne.mpr (Int.ne_of_gt hdepth)]

theorem inert_flatMap {X : Type} {tokens : X → List Token} (h : ∀ x, Inert (tokens x)) (xs : List X) :
    Inert (xs.flatMap tokens) := by
  induction xs with
  | nil => exact inert_nil
  | cons x xs ih => exact (h x).append ih

theorem neutral_flatMap {X : Type} {tokens : X → List Token} (h : ∀ x, Neutral (tokens x))
    (xs : List X) : Neutral (xs.flatMap tokens) := by
  induction xs with
  | nil => exact neutral_nil
  | cons x xs ih => exact (h x).append ih

theorem Inert.parenthesized (hts : Inert ts) : Neutral (parenthesized ts) := by
  rw [Graphql.parenthesized]
  split
  · exact neutral_nil
  · exact hts.parens

end Balance

section Grammar

mutual

theorem Value.inert : (v : Value) → Inert v.tokens
  | .variable n => by
    exact Inert.cons rfl (Inert.cons rfl inert_nil)
  | .number s hs => by
    exact Inert.cons rfl inert_nil
  | .string s => by
    exact Inert.cons rfl inert_nil
  | .boolean true => by
    exact Inert.cons rfl inert_nil
  | .boolean false => by
    exact Inert.cons rfl inert_nil
  | .null => by
    exact Inert.cons rfl inert_nil
  | .enum n hn => by
    exact Inert.cons rfl inert_nil
  | .list items => by
    exact items.inert.brackets.inert
  | .object fields => by
    exact fields.inert.braces

theorem Values.inert : (vs : Values) → Inert vs.tokens
  | .nil => by
    exact inert_nil
  | .cons v rest => by
    exact v.inert.append rest.inert

theorem ObjectFields.inert : (fs : ObjectFields) → Inert fs.tokens
  | .nil => by
    exact inert_nil
  | .cons n v rest => by
    exact Inert.cons rfl (Inert.cons rfl (v.inert.append rest.inert))

end

theorem TypeRef.neutral (t : TypeRef) : Neutral t.tokens := by
  induction t with
  | named => exact neutral_singleton rfl
  | list t ih => exact ih.inert.brackets
  | nonNullNamed => exact .cons rfl (neutral_singleton rfl)
  | nonNullList t ih =>
    have h := ih.inert.brackets.append (neutral_singleton (t := .punct .bang) rfl)
    rw [TypeRef.tokens]
    simpa using h

theorem neutral_arguments (arguments : List (Name × Value)) : Neutral (argumentsTokens arguments) :=
  (inert_flatMap (fun (_, v) => .cons rfl (.cons rfl v.inert)) arguments).parenthesized

/-- Directives are neutral. -/
theorem neutral_directives (directives : List Directive) : Neutral (directivesTokens directives) := by
  have hone (d : Directive) : Neutral (.punct .at :: .name d.name :: argumentsTokens d.arguments) :=
    .cons rfl (.cons rfl (neutral_arguments d.arguments))
  exact neutral_flatMap hone directives

theorem neutral_typeCondition (n : Name) : Neutral (typeConditionTokens n) := Neutral.cons rfl (neutral_singleton rfl)

theorem neutral_field (aliasName : Option Name) (name : Name) (arguments : List (Name × Value))
    (directives : List Directive) : Neutral (fieldTokens aliasName name arguments directives) := by
  have halias : Neutral (aliasTokens aliasName) := by
    cases aliasName with
    | none => exact neutral_nil
    | some => exact .cons rfl (neutral_singleton rfl)
  exact halias.append (.cons rfl
    ((neutral_arguments arguments).append (neutral_directives directives)))

mutual

theorem Selection.inert : (s : Selection) → Inert s.tokens
  | .leaf aliasName name arguments directives => by
    exact (neutral_field aliasName name arguments directives).inert
  | .field aliasName name arguments directives selections => by
    exact (neutral_field aliasName name arguments directives).inert.append selections.inert.braces
  | .spread name directives => by
    exact Inert.cons rfl (Inert.cons rfl (neutral_directives directives).inert)
  | .inline on directives selections => by
    have hon : Neutral (on.elim [] typeConditionTokens) := by
      cases on with
      | none => exact neutral_nil
      | some n => exact neutral_typeCondition n
    exact .cons rfl
      ((hon.append (neutral_directives directives)).inert.append selections.inert.braces)

theorem SelectionSet.inert : (s : SelectionSet) → Inert s.tokens
  | .one s => by
    exact s.inert
  | .cons s rest => by
    exact s.inert.append rest.inert

end

theorem neutral_description (description : Option StringValue) :
    Neutral (descriptionTokens description) := by
  cases description with
  | none => exact neutral_nil
  | some => exact neutral_singleton rfl

theorem VariableDefinition.inert (v : VariableDefinition) : Inert v.tokens := by
  have hdef : Inert (v.defaultValue.elim [] fun d => .punct .equals :: d.tokens) := by
    cases v.defaultValue with
    | none => exact inert_nil
    | some d => exact .cons rfl d.inert
  have htail : Inert (v.type.tokens ++ (v.defaultValue.elim [] fun d => .punct .equals :: d.tokens) ++
      directivesTokens v.directives) :=
    (v.type.neutral.inert.append hdef).append (neutral_directives v.directives).inert
  exact (neutral_description v.description).inert.append
    (.cons rfl (.cons rfl (.cons rfl htail)))

theorem Definition.header_neutral (d : Definition) : Neutral d.header := by
  cases d with
  | shorthand => exact neutral_nil
  | operation description type name variableDefinitions directives =>
    have hname : Neutral (name.elim [] fun n => [.name n]) := by
      cases name with
      | none => exact neutral_nil
      | some => exact neutral_singleton rfl
    exact (hname.append (inert_flatMap VariableDefinition.inert variableDefinitions).parenthesized).append
      (neutral_directives directives)
  | fragment description name on directives =>
    exact .cons rfl ((neutral_typeCondition on).append (neutral_directives directives))

end Grammar

section Definitions

theorem run_body {header : List Token} (hheader : Neutral header) (selections : SelectionSet)
    (saw : Bool) : run ⟨0, false, saw⟩ (header ++ braced selections) = some ⟨0, true, saw⟩ := by
  rw [run_append, hheader 0 saw (Int.le_refl 0), bind_some, braced]
  exact run_braces selections.inert (Int.le_refl 0) saw

theorem run_description (st : Scan) (description : Option StringValue) (ts : List Token) :
    run st (descriptionTokens description ++ ts) = run st ts := by
  cases description <;> rfl

/-- A definition read from its start: a query or a fragment is read to its end, anything else
ends the scan. -/
theorem run_definition (d : Definition) (saw : Bool) :
    run ⟨0, true, saw⟩ d.tokens = match d.operationType with
      | some .query => some ⟨0, true, true⟩
      | none => some ⟨0, true, saw⟩
      | some _ => none := by
  cases d with
  | shorthand selections =>
    exact run_braces selections.inert (Int.le_refl 0) true
  | operation description type name variableDefinitions directives selections =>
    rw [Definition.tokens, run_description]
    cases type with
    | query => exact run_body (Definition.header_neutral _) selections true
    | mutation => rfl
    | subscription => rfl
  | fragment description name on directives selections =>
    rw [Definition.tokens, run_description]
    exact run_body (Definition.header_neutral _) selections saw

/-- A list of definitions is read to its end exactly when every operation is a query, and then
the scanner knows whether there was one. -/
theorem run_definitions (ds : List Definition) (saw : Bool) :
    answer (run ⟨0, true, saw⟩ (ds.flatMap Definition.tokens)) = .query ↔
      (saw = true ∨ ∃ d ∈ ds, d.operationType ≠ none) ∧ ∀ d ∈ ds, ∀ type ∈ d.operationType, type = .query := by
  induction ds generalizing saw with
  | nil => cases saw <;> simp [answer, Scan.kind, run]
  | cons d ds ih =>
    rw [List.flatMap_cons, run_append, run_definition]
    cases htype : d.operationType with
    | none =>
      rw [bind_some, ih]
      simp [htype]
    | some type =>
      cases type with
      | query =>
        rw [bind_some, ih]
        simp [htype]
      | mutation | subscription => simp [answer, htype]

end Definitions

/-- On a text that derives an executable document the classifier answers a query exactly when
the document has an operation and all its operations are queries. -/
theorem classifyGraphqlDocument_exact (doc : Document) (s : List Char) (h : Lexed doc.tokens s) :
    (classifyGraphqlDocument s = .query ↔ doc.HasOperation ∧ doc.OnlyQueries) ∧
      ((∃ d ∈ doc.definitions, d.operationType = some .mutation ∨ d.operationType = some .subscription) →
        classifyGraphqlDocument s = .mutation) := by
  have hquery : classifyGraphqlDocument s = .query ↔ doc.HasOperation ∧ doc.OnlyQueries := by
    rw [classifyGraphqlDocument, classifyDocument, scan_lexed h]
    exact (run_definitions doc.definitions false).trans (by simp [Document.HasOperation, Document.OnlyQueries])
  refine ⟨hquery, fun ⟨d, hd, hwrite⟩ => ?_⟩
  cases hkind : classifyGraphqlDocument s with
  | mutation => rfl
  | query =>
    have honly := (hquery.mp hkind).2 d hd
    rcases hwrite with hwrite | hwrite <;> exact absurd (honly _ hwrite) (by decide)

/-- A query with a string that reads like a mutation, the fragment it spreads, and a mutation. -/
def mixedDocument : Document where
  definitions :=
    [.operation none .query (some ⟨"Q".toList, by decide⟩) [] []
      (.one (.field none ⟨"a".toList, by decide⟩
        [(⟨"s".toList, by decide⟩,
          .string (.quoted [.plain '}' (by decide) (by decide) (by simp [IsLineTerminator]), .escaped '"' (by decide)]))]
        [] (.one (.spread ⟨⟨"F".toList, by decide⟩, by decide⟩ [])))),
      .fragment none ⟨⟨"F".toList, by decide⟩, by decide⟩ ⟨"T".toList, by decide⟩ []
        (.cons (.leaf none ⟨"b".toList, by decide⟩ [] []) (.one (.leaf none ⟨"c".toList, by decide⟩ [] []))),
      .operation none .mutation none [] [] (.one (.leaf none ⟨"d".toList, by decide⟩ [] []))]
  nonempty := List.cons_ne_nil _ _

/-- The text of the document, with a comment that closes a brace. -/
def mixedText : List Char :=
  "query Q\x7ba(s:\"\x7d\\\"\")\x7b...F\x7d\x7d#\x7d\nfragment F on T\x7bb,c\x7dmutation\x7bd\x7d".toList

/-- The text spells the document. -/
theorem lexed_mixedText : Lexed mixedDocument.tokens mixedText := by
  have name (word : String) (hword : IsName word.toList) {c : Char} {ts : List Token} {s : List Char}
      (hc : ¬ IsNameContinue c) (h : Lexed ts (c :: s)) : Lexed (.name ⟨word.toList, hword⟩ :: ts) (word.toList ++ c :: s) := by
    refine .token (.name ⟨word.toList, hword⟩) ?_ h
    rintro _ ⟨rfl⟩
    exact hc
  have space {ts : List Token} {s : List Char} (h : Lexed ts s) : Lexed ts (' ' :: s) :=
    .ignored ' ' (.inr (.inr (.inl rfl))) h
  have punct (p : Punctuator) {ts : List Token} {s : List Char} (h : Lexed ts s) : Lexed (.punct p :: ts) (p.text ++ s) :=
    .token (.punct p) trivial h
  have hmutation := name "mutation" (by decide) (by decide) (punct .braceL (name "d" (by decide) (by decide)
    (punct .braceR .nil)))
  have hfields := name "b" (by decide) (by decide) (.ignored ',' (.inr (.inr (.inr (.inr rfl))))
    (name "c" (by decide) (by decide) (punct .braceR hmutation)))
  have hfragment := name "fragment" (by decide) (by decide) (space (name "F" (by decide) (by decide) (space
    (name "on" (by decide) (by decide) (space (name "T" (by decide) (by decide) (punct .braceL hfields)))))))
  have hcomment := Lexed.comment ['}'] (by simp [IsLineTerminator]) (by simp [IsLineTerminator])
    (.ignored '\n' (.inr (.inr (.inr (.inl (.inl rfl))))) hfragment)
  have hspread := punct .braceL (punct .spread (name "F" (by decide) (by decide) (punct .braceR (punct .braceR hcomment))))
  have hargument := Lexed.token (.string (.quoted [.plain '}' (by decide) (by decide) (by simp [IsLineTerminator]),
    .escaped '"' (by decide)])) trivial (punct .parenR hspread)
  exact name "query" (by decide) (by decide) (space (name "Q" (by decide) (by decide) (punct .braceL
    (name "a" (by decide) (by decide) (punct .parenL (name "s" (by decide) (by decide) (punct .colon hargument)))))))

/-- The document has a mutation, whatever its string and its comment hold. -/
theorem classifyGraphqlDocument_exact_mixed :
    (classifyGraphqlDocument mixedText = .query ↔ mixedDocument.HasOperation ∧ mixedDocument.OnlyQueries) ∧
      ((∃ d ∈ mixedDocument.definitions, d.operationType = some .mutation ∨ d.operationType = some .subscription) →
        classifyGraphqlDocument mixedText = .mutation) :=
  classifyGraphqlDocument_exact mixedDocument mixedText lexed_mixedText

end Onecli.Graphql
