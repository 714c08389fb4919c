import Onecli.Foundation.BooleanQuery
import Onecli.Gateway.Text

/-!
# Confining a Drive listing

`ee/src/granular_access/google_drive.rs`: the tokenizer of search queries and `list_parents`, which answers the
folders that a `files.list` query is confined to. A query means the boolean formulas that its tokens read as; the
terms other than `'<id>' in parents` may mean anything.
-/

namespace Onecli.Gateway

open BooleanQuery List Option Bool

/-- `LIST_HINT`. -/
def listHint : Str :=
  "files.list must be confined to an allowed folder: q=\"'<folderId>' in parents\" (optionally `and` other terms)".toList

/-- `valid_id`. -/
def validId (s : Str) : Bool := !s.isEmpty && byteLen s ≤ 256 && s.all fun c => c.isAlphanum || c == '-' || c == '_'

/-- `QueryToken`. -/
inductive QueryToken where
  | str (value : Str) (escaped : Bool)
  | word (w : Str)
  | opening
  | closing

/-- The characters that end a word. -/
def endsWord (c : Char) : Bool := isWhitespace c || c == '(' || c == ')' || c == '\'' || c == '"'

/-- The loop of `tokenize` over a quoted string: its value, whether it was escaped, and what is left. -/
def quotedValue : Str → Option (Str × Bool × Str)
  | [] => none
  | c :: rest =>
    if c = '\\' then
      match rest with
      | [] => none
      | ch :: rest => (quotedValue rest).map fun read => (ch :: read.1, true, read.2.2)
    else if c = '\'' then some ([], false, rest)
    else (quotedValue rest).map fun read => (c :: read.1, read.2)

/-- A quoted value takes characters. -/
theorem length_of_quotedValue {s : Str} {read : Str × Bool × Str} (h : quotedValue s = some read) :
    read.2.2.length < s.length := by
  fun_induction quotedValue s generalizing read with
  | case1 => cases h
  | case2 => cases h
  | case3 ch rest ih =>
    obtain ⟨tail, htail, rfl⟩ := map_eq_some_iff.mp h
    have hshorter := ih htail
    exact Nat.lt_succ_of_lt (Nat.lt_succ_of_lt hshorter)
  | case4 rest =>
    cases h
    exact Nat.lt_succ_self _
  | case5 c rest _ _ ih =>
    obtain ⟨tail, htail, rfl⟩ := map_eq_some_iff.mp h
    have hshorter := ih htail
    exact Nat.lt_succ_of_lt hshorter

/-- The loop of `tokenize` at depth `depth`. -/
def tokenizeFrom (depth : ℤ) (q : Str) : Option (List QueryToken) :=
  match q with
  | [] => if depth = 0 then some [] else none
  | c :: rest =>
    if isWhitespace c then tokenizeFrom depth rest
    else if c = '(' then (tokenizeFrom (depth + 1) rest).map (.opening :: ·)
    else if c = ')' then
      if depth - 1 < 0 then none else (tokenizeFrom (depth - 1) rest).map (.closing :: ·)
    else if c = '"' then none
    else if c = '\'' then
      match h : quotedValue rest with
      | none => none
      | some read =>
        have := length_of_quotedValue h
        (tokenizeFrom depth read.2.2).map (.str read.1 read.2.1 :: ·)
    else
      have := List.length_dropWhile_le (fun ch => !endsWord ch) rest
      (tokenizeFrom depth (rest.dropWhile fun ch => !endsWord ch)).map
        (.word (c :: rest.takeWhile fun ch => !endsWord ch) :: ·)
termination_by q.length

/-- `tokenize`. -/
def tokenize (q : Str) : Option (List QueryToken) := tokenizeFrom 0 q

/-- The loop of `list_parents`: the tokens between the top-level `and`s. -/
def conjuncts (depth : ℤ) (current : List QueryToken) : List QueryToken → Except Str (List (List QueryToken))
  | [] => .ok [current]
  | .opening :: rest => conjuncts (depth + 1) (current ++ [.opening]) rest
  | .closing :: rest => conjuncts (depth - 1) (current ++ [.closing]) rest
  | .word w :: rest =>
    if depth = 0 ∧ eqIgnoreAsciiCase w "or".toList then
      .error ("top-level `or` is not allowed; ".toList ++ listHint)
    else if depth = 0 ∧ eqIgnoreAsciiCase w "and".toList then (conjuncts depth [] rest).map (current :: ·)
    else conjuncts depth (current ++ [.word w]) rest
  | .str value escaped :: rest => conjuncts depth (current ++ [.str value escaped]) rest

/-- The folder that a conjunct confines to. -/
def confinedTo : List QueryToken → Option Str
  | [.str value false, .word op, .word field] =>
    if op = "in".toList ∧ field = "parents".toList ∧ validId value then some value else none
  | _ => none

/-- `list_parents`. -/
def listParents (q : Str) : Except Str (List Str) :=
  match tokenize q with
  | none => .error ("unparseable search query; ".toList ++ listHint)
  | some tokens =>
    (conjuncts 0 [] tokens).bind fun conjuncts =>
      let ids := conjuncts.filterMap confinedTo
      if ids.isEmpty then .error listHint else .ok ids

/-- The characters between the quotes of a string, its value, and whether it has an escape. -/
inductive Quoted : Str → Str → Bool → Prop
  | nil : Quoted [] [] false
  | plain (c : Char) (body value : Str) (escaped : Bool) (hslash : c ≠ '\\') (hquote : c ≠ '\'')
      (h : Quoted body value escaped) : Quoted (c :: body) (c :: value) escaped
  | escape (c : Char) (body value : Str) (escaped : Bool) (h : Quoted body value escaped) :
      Quoted ('\\' :: c :: body) (c :: value) true

/-- The tokens that a query string is written with. -/
inductive Lexes : Str → List QueryToken → Prop
  | done : Lexes [] []
  | space (c : Char) (q : Str) (ts : List QueryToken) (hc : isWhitespace c = true) (h : Lexes q ts) : Lexes (c :: q) ts
  | opening (q : Str) (ts : List QueryToken) (h : Lexes q ts) : Lexes ('(' :: q) (.opening :: ts)
  | closing (q : Str) (ts : List QueryToken) (h : Lexes q ts) : Lexes (')' :: q) (.closing :: ts)
  | str (body value : Str) (escaped : Bool) (q : Str) (ts : List QueryToken) (hbody : Quoted body value escaped)
      (h : Lexes q ts) : Lexes ('\'' :: (body ++ '\'' :: q)) (.str value escaped :: ts)
  | word (c : Char) (w q : Str) (ts : List QueryToken) (hw : ∀ ch ∈ c :: w, endsWord ch = false)
      (hq : ∀ ch ∈ q.head?, endsWord ch = true) (h : Lexes q ts) : Lexes (c :: (w ++ q)) (.word (c :: w) :: ts)

/-- What a token stands for in a boolean query. -/
def QueryToken.mark : QueryToken → Mark
  | .opening => .opening
  | .closing => .closing
  | .str _ _ => .operand
  | .word w =>
    if eqIgnoreAsciiCase w "or".toList then .disjunction
    else if eqIgnoreAsciiCase w "and".toList then .conjunction
    else if eqIgnoreAsciiCase w "not".toList then .negation
    else .operand

/-- Whether a file with these parents satisfies a term; a term of another form means what `other` says. -/
def termHolds (parents : List Str) (other : List QueryToken → Prop) : List QueryToken → Prop
  | [.str value false, .word op, .word field] =>
    if op = "in".toList ∧ field = "parents".toList then value ∈ parents
    else other [.str value false, .word op, .word field]
  | ts => other ts

section Lexing

/-- A quoted value is read to its quote. -/
theorem quotedValue_spec {body value : Str} {escaped : Bool} (h : Quoted body value escaped) (q : Str) :
    quotedValue (body ++ '\'' :: q) = some (value, escaped, q) := by
  induction h with
  | nil => rw [nil_append, quotedValue.eq_def]; rfl
  | plain c body value escaped hslash hquote _ ih =>
    rw [cons_append, quotedValue.eq_def]
    dsimp only
    rw [if_neg hslash, if_neg hquote, ih]
    rfl
  | escape c body value escaped _ ih =>
    rw [cons_append, cons_append, quotedValue.eq_def]
    dsimp only
    rw [if_pos rfl, ih]
    rfl

theorem quoted_of_quotedValue {s : Str} {read : Str × Bool × Str} (h : quotedValue s = some read) :
    ∃ body, s = body ++ '\'' :: read.2.2 ∧ Quoted body read.1 read.2.1 := by
  fun_induction quotedValue s generalizing read with
  | case1 => cases h
  | case2 => cases h
  | case3 ch rest ih =>
    obtain ⟨tail, htail, rfl⟩ := map_eq_some_iff.mp h
    obtain ⟨body, hrest, hbody⟩ := ih htail
    exact ⟨_, congrArg (fun left => '\\' :: ch :: left) hrest, .escape ch body _ _ hbody⟩
  | case4 rest =>
    cases h
    exact ⟨[], rfl, .nil⟩
  | case5 c rest hslash hquote ih =>
    obtain ⟨tail, htail, rfl⟩ := map_eq_some_iff.mp h
    obtain ⟨body, hrest, hbody⟩ := ih htail
    exact ⟨_, congrArg (fun left => c :: left) hrest, .plain c body _ _ hslash hquote hbody⟩

/-- Other characters end no word. -/
theorem endsWord_eq_false {c : Char} (hspace : ¬ isWhitespace c = true) (hopen : c ≠ '(') (hclose : c ≠ ')')
    (hdouble : c ≠ '"') (hquote : c ≠ '\'') : endsWord c = false := by
  unfold endsWord
  rw [eq_false_iff.mpr hspace, beq_false_of_ne hopen, beq_false_of_ne hclose, beq_false_of_ne hquote,
    beq_false_of_ne hdouble]
  rfl

theorem ne_of_endsWord_eq_false {c : Char} (h : endsWord c = false) :
    ¬ isWhitespace c = true ∧ c ≠ '(' ∧ c ≠ ')' ∧ c ≠ '"' ∧ c ≠ '\'' := by
  unfold endsWord at h
  simp only [or_eq_false_iff, beq_eq_false_iff_ne] at h
  obtain ⟨⟨⟨⟨hspace, hopen⟩, hclose⟩, hquote⟩, hdouble⟩ := h
  exact ⟨eq_false_iff.mp hspace, hopen, hclose, hdouble, hquote⟩

variable {ts : List QueryToken}

theorem lexes_of_tokenizeFrom {depth : ℤ} {q : Str} (h : tokenizeFrom depth q = some ts) : Lexes q ts := by
  fun_induction tokenizeFrom depth q generalizing ts with
  | case1 =>
    cases h
    exact .done
  | case3 depth c rest hc ih => exact .space c rest ts hc (ih h)
  | case4 depth rest _ ih =>
    obtain ⟨tail, htail, rfl⟩ := map_eq_some_iff.mp h
    exact .opening rest tail (ih htail)
  | case6 depth rest _ _ _ ih =>
    obtain ⟨tail, htail, rfl⟩ := map_eq_some_iff.mp h
    exact .closing rest tail (ih htail)
  | case9 depth rest read hread _ _ _ _ _ ih =>
    obtain ⟨tail, htail, rfl⟩ := map_eq_some_iff.mp h
    obtain ⟨body, rfl, hbody⟩ := quoted_of_quotedValue hread
    exact .str body _ _ _ tail hbody (ih htail)
  | case10 depth c rest hspace hopen hclose hdouble hquote _ ih =>
    obtain ⟨tail, htail, rfl⟩ := map_eq_some_iff.mp h
    have hlexes := Lexes.word c (rest.takeWhile fun ch => !endsWord ch) (rest.dropWhile fun ch => !endsWord ch) tail
      (forall_mem_cons.mpr ⟨endsWord_eq_false hspace hopen hclose hdouble hquote, fun ch hch => ?_⟩)
      (fun ch hch => ?_) (ih htail)
    · rwa [takeWhile_append_dropWhile] at hlexes
    · have hword := mem_takeWhile_imp hch
      simpa using hword
    · rw [← List.find?_eq_head?_dropWhile_not] at hch
      exact List.find?_some (mem_def.mp hch)
  | _ => cases h

/-- What `tokenize` reads is a lexing. -/
theorem lexes_of_tokenize {q : Str} (h : tokenize q = some ts) : Lexes q ts := lexes_of_tokenizeFrom h

/-- A lexing is what `tokenize` reads. -/
theorem Lexes.eq_of_tokenizeFrom {q : Str} (hq : Lexes q ts) {depth : ℤ} {read : List QueryToken}
    (h : tokenizeFrom depth q = some read) : read = ts := by
  induction hq generalizing depth read with
  | done =>
    rw [tokenizeFrom] at h
    split at h
    · exact (some.inj h).symm
    · cases h
  | space c q ts hc _ ih =>
    rw [tokenizeFrom, if_pos hc] at h
    exact ih h
  | opening q ts _ ih =>
    rw [tokenizeFrom, if_neg (by decide), if_pos rfl] at h
    obtain ⟨tail, htail, rfl⟩ := map_eq_some_iff.mp h
    rw [ih htail]
  | closing q ts _ ih =>
    rw [tokenizeFrom, if_neg (by decide), if_neg (by decide), if_pos rfl] at h
    split at h
    · cases h
    · obtain ⟨tail, htail, rfl⟩ := map_eq_some_iff.mp h
      rw [ih htail]
  | str body value escaped q ts hbody _ ih =>
    rw [tokenizeFrom, if_neg (by decide), if_neg (by decide), if_neg (by decide), if_neg (by decide), if_pos rfl] at h
    split at h
    · cases h
    · next read hread =>
      rw [quotedValue_spec hbody] at hread
      cases hread
      obtain ⟨tail, htail, rfl⟩ := map_eq_some_iff.mp h
      rw [ih htail]
  | word c w q ts hw hq _ ih =>
    obtain ⟨hc, hrest⟩ := forall_mem_cons.mp hw
    obtain ⟨hspace, hopen, hclose, hdouble, hquote⟩ := ne_of_endsWord_eq_false hc
    have hall : ∀ ch ∈ w, (!endsWord ch) = true := fun ch hch => congrArg not (hrest ch hch)
    have htake : q.takeWhile (fun ch => !endsWord ch) = [] := by
      cases q with
      | nil => rfl
      | cons ch => exact takeWhile_cons_of_neg (by rw [hq ch rfl]; decide)
    have hdrop : q.dropWhile (fun ch => !endsWord ch) = q := by
      cases q with
      | nil => rfl
      | cons ch => exact dropWhile_cons_of_neg (by rw [hq ch rfl]; decide)
    rw [tokenizeFrom, if_neg hspace, if_neg hopen, if_neg hclose, if_neg hdouble, if_neg hquote] at h
    obtain ⟨tail, htail, rfl⟩ := map_eq_some_iff.mp h
    rw [takeWhile_append_of_pos hall, htake, append_nil]
    rw [dropWhile_append_of_pos hall, hdrop] at htail
    rw [ih htail]

end Lexing

section Confinement

/-- A word opens nothing. -/
theorem nesting_word (w : Str) : (QueryToken.word w).mark.nesting = 0 := by
  unfold QueryToken.mark
  dsimp only
  split
  · rfl
  · split
    · rfl
    · split
      · rfl
      · rfl

variable {depth : ℤ} {k : QueryToken} {out : List (List QueryToken)}

/-- The words that `list_parents` stops at are the binary operators. -/
theorem conjuncts_word_operand {w : Str} {current rest : List QueryToken}
    (h : depth = 0 → (QueryToken.word w).mark ≠ .conjunction ∧ (QueryToken.word w).mark ≠ .disjunction) :
    conjuncts depth current (.word w :: rest) = conjuncts depth (current ++ [.word w]) rest := by
  have hor : ¬ (depth = 0 ∧ eqIgnoreAsciiCase w "or".toList = true) := by
    rintro ⟨hdepth, hword⟩
    refine (h hdepth).2 ?_
    exact if_pos hword
  have hand : ¬ (depth = 0 ∧ eqIgnoreAsciiCase w "and".toList = true) := by
    rintro ⟨hdepth, hword⟩
    refine (h hdepth).1 ?_
    have hnotor : ¬ eqIgnoreAsciiCase w "or".toList = true := fun hw => hor ⟨hdepth, hw⟩
    unfold QueryToken.mark
    dsimp only
    rw [if_neg hnotor, if_pos hword]
  rw [conjuncts, if_neg hor, if_neg hand]

theorem conjuncts_inside {ts : List QueryToken} (h : Inside QueryToken.mark depth ts) (current : List QueryToken) :
    conjuncts depth current ts = .ok [current ++ ts] := by
  induction ts generalizing depth current with
  | nil => rw [conjuncts, append_nil]
  | cons t ts ih =>
    have hrest := ih h.2 (current ++ [t])
    rw [append_assoc, singleton_append] at hrest
    cases t with
    | opening | closing => exact hrest
    | str value escaped =>
      rw [conjuncts]
      rwa [show (QueryToken.str value escaped).mark.nesting = 0 from rfl, add_zero] at hrest
    | word =>
      rw [conjuncts_word_operand h.1]
      rwa [nesting_word, add_zero] at hrest

/-- The words that a reading joins formulas with are those that `list_parents` looks for. -/
theorem mark_eq_binary (h : k.mark = .conjunction ∨ k.mark = .disjunction) :
    ∃ w, k = .word w ∧ (k.mark = .disjunction ↔ eqIgnoreAsciiCase w "or".toList = true) ∧
      (k.mark = .conjunction → eqIgnoreAsciiCase w "and".toList = true) := by
  cases k with
  | opening | closing => exact absurd h (by decide)
  | str =>
    cases h with
    | inl h | inr h => cases h
  | word w =>
    refine ⟨w, rfl, ?_⟩
    unfold QueryToken.mark
    dsimp only
    split
    · next hor => exact ⟨iff_of_true rfl hor, fun hmark => absurd hmark (by decide)⟩
    · next hor =>
      split
      · next hand => exact ⟨iff_of_false (by decide) hor, fun _ => hand⟩
      · split <;> exact ⟨iff_of_false (by decide) hor, fun hmark => absurd hmark (by decide)⟩

theorem conjuncts_and (hk : k.mark = .conjunction) {r : List QueryToken} {l : List QueryToken}
    {current : List QueryToken} (hdepth : depth + nesting QueryToken.mark l = 0)
    (h : conjuncts depth current (l ++ k :: r) = .ok out) :
    ∃ before after, conjuncts depth current l = .ok before ∧ conjuncts 0 [] r = .ok after ∧ out = before ++ after := by
  induction l generalizing depth current out with
  | nil =>
    obtain ⟨w, rfl, hor, hand⟩ := mark_eq_binary (.inl hk)
    rw [nesting_nil, add_zero] at hdepth
    obtain rfl := hdepth
    have hnot : ¬ eqIgnoreAsciiCase w "or".toList = true := by
      intro hword
      rw [hor.mpr hword] at hk
      cases hk
    rw [nil_append, conjuncts, if_neg fun hw => hnot hw.2, if_pos ⟨rfl, hand hk⟩] at h
    cases hafter : conjuncts 0 [] r with
    | error =>
      rw [hafter] at h
      cases h
    | ok after =>
      rw [hafter] at h
      exact ⟨[current], after, rfl, rfl, (Except.ok.inj h).symm⟩
  | cons t l ih =>
    rw [nesting_cons, ← add_assoc] at hdepth
    cases t with
    | opening | closing => exact ih hdepth h
    | str value escaped =>
      rw [show (QueryToken.str value escaped).mark.nesting = 0 from rfl, add_zero] at hdepth
      exact ih hdepth h
    | word =>
      rw [nesting_word, add_zero] at hdepth
      rw [cons_append, conjuncts] at h
      rw [conjuncts]
      split at h
      · cases h
      · next hor =>
        rw [if_neg hor]
        split at h
        · next hand =>
          rw [if_pos hand]
          cases hrest : conjuncts depth [] (l ++ k :: r) with
          | error =>
            rw [hrest] at h
            cases h
          | ok =>
            rw [hrest] at h
            obtain ⟨before, after, hbefore, hafter, rfl⟩ := ih hdepth hrest
            exact ⟨current :: before, after, by rw [hbefore]; rfl, hafter, (Except.ok.inj h).symm⟩
        · next hand =>
          rw [if_neg hand]
          exact ih hdepth h

theorem conjuncts_or (hk : k.mark = .disjunction) {r : List QueryToken} {l : List QueryToken}
    {current : List QueryToken} (hdepth : depth + nesting QueryToken.mark l = 0) :
    conjuncts depth current (l ++ k :: r) ≠ .ok out := by
  induction l generalizing depth current out with
  | nil =>
    obtain ⟨w, rfl, hor, -⟩ := mark_eq_binary (.inr hk)
    rw [nesting_nil, add_zero] at hdepth
    rw [nil_append, conjuncts, if_pos ⟨hdepth, hor.mp hk⟩]
    intro h
    cases h
  | cons t l ih =>
    rw [nesting_cons, ← add_assoc] at hdepth
    cases t with
    | opening | closing => exact ih hdepth
    | str value escaped =>
      rw [show (QueryToken.str value escaped).mark.nesting = 0 from rfl, add_zero] at hdepth
      exact ih hdepth
    | word =>
      rw [nesting_word, add_zero] at hdepth
      rw [cons_append, conjuncts]
      split
      · intro h
        cases h
      · split
        · intro h
          cases hrest : conjuncts depth [] (l ++ k :: r) with
          | error =>
            rw [hrest] at h
            cases h
          | ok => exact ih hdepth hrest
        · exact ih hdepth

/-- Each conjunct is implied by the query. -/
theorem reads_conjuncts {ts : List QueryToken} {f : Formula (List QueryToken)} (h : Reads QueryToken.mark .formula ts f)
    (hout : conjuncts 0 [] ts = .ok out) {c : List QueryToken} (hc : c ∈ out) :
    ∃ g, Reads QueryToken.mark .factor c g ∧ ∀ valuation, f.holds valuation → g.holds valuation := by
  generalize hlevel : Level.formula = level at h
  induction h generalizing out with
  | factor ts f h =>
    rw [conjuncts_inside h.inside, nil_append] at hout
    cases hout
    rw [mem_singleton.mp hc]
    exact ⟨f, h, fun _ hf => hf⟩
  | conjunction k l r f g hk hl hr ihl ihr =>
    have hdepth : 0 + nesting QueryToken.mark l = 0 := by rw [hl.nesting, add_zero]
    obtain ⟨before, after, hbefore, hafter, rfl⟩ := conjuncts_and hk hdepth hout
    cases mem_append.mp hc with
    | inl hc =>
      obtain ⟨factor, hfactor, himplied⟩ := ihl hbefore hc rfl
      exact ⟨factor, hfactor, fun valuation hholds => himplied valuation hholds.1⟩
    | inr hc =>
      obtain ⟨factor, hfactor, himplied⟩ := ihr hafter hc rfl
      exact ⟨factor, hfactor, fun valuation hholds => himplied valuation hholds.2⟩
  | disjunction k l r f g hk hl =>
    have hdepth : 0 + nesting QueryToken.mark l = 0 := by rw [hl.nesting, add_zero]
    exact absurd hout (conjuncts_or hk hdepth)
  | _ => cases hlevel

/-- The conjuncts that confine are the `'<id>' in parents` terms. -/
theorem confinedTo_eq_some {c : List QueryToken} {id : Str} (h : confinedTo c = some id) :
    c = [.str id false, .word "in".toList, .word "parents".toList] := by
  unfold confinedTo at h
  split at h
  · next value op field =>
    split at h
    · next hterm =>
      obtain ⟨rfl, rfl, -⟩ := hterm
      rw [some.inj h]
    · cases h
  · cases h

/-- A parents clause holds of the children. -/
theorem termHolds_parents (parents : List Str) (other : List QueryToken → Prop) (id : Str) :
    termHolds parents other [.str id false, .word "in".toList, .word "parents".toList] = (id ∈ parents) := by
  rw [termHolds, if_pos ⟨rfl, rfl⟩]

/-- Where `listParents` answers, its ids are those of confining conjuncts. -/
theorem listParents_eq_ok {q : Str} {ids : List Str} (h : listParents q = .ok ids) :
    ids ≠ [] ∧ ∃ tokens out, tokenize q = some tokens ∧ conjuncts 0 [] tokens = .ok out ∧ ids = out.filterMap confinedTo := by
  unfold listParents at h
  split at h
  · cases h
  · next tokens htokens =>
    cases hout : conjuncts 0 [] tokens with
    | error =>
      rw [hout] at h
      cases h
    | ok out =>
      rw [hout] at h
      change (if (out.filterMap confinedTo).isEmpty then Except.error listHint else .ok (out.filterMap confinedTo)) = _ at h
      split at h
      · cases h
      · next hne =>
        cases h
        exact ⟨fun hnil => hne (List.isEmpty_iff.mpr hnil), tokens, out, htokens, hout, rfl⟩

/-- A listing that `list_parents` accepts names a folder, and whatever formula the query is read as, a file that satisfies
it has all of these folders among its parents. -/
theorem list_parents_confines {q : Str} {ids : List Str} (h : listParents q = .ok ids) :
    ids ≠ [] ∧ ∀ (tokens : List QueryToken) (f : Formula (List QueryToken)), Lexes q tokens →
      Reads QueryToken.mark .formula tokens f → ∀ (parents : List Str) (other : List QueryToken → Prop),
        f.holds (termHolds parents other) → ∀ id ∈ ids, id ∈ parents := by
  obtain ⟨hne, read, out, hread, hout, rfl⟩ := listParents_eq_ok h
  refine ⟨hne, fun tokens f hlexes hreads parents other hholds id hid => ?_⟩
  obtain rfl := hlexes.eq_of_tokenizeFrom hread
  obtain ⟨c, hc, hconfined⟩ := List.mem_filterMap.mp hid
  obtain ⟨g, hg, himplied⟩ := reads_conjuncts hreads hout hc
  obtain rfl := confinedTo_eq_some hconfined
  have hterm := himplied _ hholds
  rw [hg.eq_term rfl] at hterm
  rwa [Formula.holds, termHolds_parents] at hterm

/-- The tokens of a query that confines to one folder. -/
def confinedQuery : List QueryToken :=
  [.str "A".toList false, .word "in".toList, .word "parents".toList, .word "AND".toList, .word "trashed=false".toList]

/-- The tokens of the query. -/
theorem tokenize_confinedQuery : tokenize "'A'in parents AND trashed=false".toList = some confinedQuery := by
  simp [tokenize, tokenizeFrom, quotedValue, endsWord, isWhitespace, confinedQuery]

/-- The parents of the query. -/
theorem listParents_confinedQuery : listParents "'A'in parents AND trashed=false".toList = .ok ["A".toList] := by
  rw [listParents, tokenize_confinedQuery]
  rfl

/-- A reading of the query. -/
theorem reads_confinedQuery : Reads QueryToken.mark .formula confinedQuery
    (.and (.term [.str "A".toList false, .word "in".toList, .word "parents".toList]) (.term [.word "trashed=false".toList])) :=
  .conjunction (QueryToken.word "AND".toList)
    [QueryToken.str "A".toList false, QueryToken.word "in".toList, QueryToken.word "parents".toList]
    [QueryToken.word "trashed=false".toList] _ _ rfl (.factor _ _ (.term _ (by decide) (by decide)))
    (.factor _ _ (.term _ (by decide) (by decide)))

/-- A file in two folders that is not in the trash is found by a query that names one of them. -/
theorem list_parents_confines_one : "A".toList ∈ ["A".toList, "B".toList] := by
  have hholds : Formula.holds (termHolds ["A".toList, "B".toList] fun _ => True)
      (.and (.term [.str "A".toList false, .word "in".toList, .word "parents".toList])
        (.term [.word "trashed=false".toList])) :=
    ⟨by rw [Formula.holds, termHolds_parents]; decide, trivial⟩
  exact (list_parents_confines listParents_confinedQuery).2 confinedQuery _
    (lexes_of_tokenize tokenize_confinedQuery) reads_confinedQuery ["A".toList, "B".toList] (fun _ => True) hholds
    "A".toList (List.mem_singleton_self _)

end Confinement

end Onecli.Gateway
