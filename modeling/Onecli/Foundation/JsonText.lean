import Onecli.Foundation.Utf16

/-!
# JSON texts

The grammar of JSON over characters: white space, strings with their escapes, numbers, literals, arrays and objects. A
string is a list of pieces, so that its body and the code units it denotes are read off it. The members of an object are
listed as they stand in the text, with every key that occurs more than once.
-/

namespace JsonText

open Utf16 List

/-- White space. -/
def isSpace (c : Char) : Bool := c == ' ' || c == '\t' || c == '\n' || c == '\r'

/-- A run of white space. -/
def IsSpaces (s : List Char) : Prop := ∀ c ∈ s, isSpace c = true

/-- The characters that stand after a backslash, and the code unit that each of them denotes. -/
def escapes : List (Char × UInt16) :=
  [('"', 0x22), ('\\', 0x5C), ('/', 0x2F), ('b', 0x08), ('f', 0x0C), ('n', 0x0A), ('r', 0x0D), ('t', 0x09)]

/-- The value of a hexadecimal digit. -/
def hexDigit (c : Char) : Option ℕ :=
  if c.isDigit then some (c.toNat - 48)
  else if 'a' ≤ c ∧ c ≤ 'f' then some (c.toNat - 87)
  else if 'A' ≤ c ∧ c ≤ 'F' then some (c.toNat - 55)
  else none

/-- A piece of a string: a character that stands for itself, an escaped character, or an escaped code unit. -/
inductive Piece where
  | plain (c : Char) (hplain : c ≠ '"' ∧ c ≠ '\\' ∧ 0x20 ≤ c.toNat)
  | escape (c : Char) (u : UInt16) (hescape : (c, u) ∈ escapes)
  | unit (digits : List Char) (values : List ℕ) (hdigits : digits.map hexDigit = values.map some)
    (hlength : digits.length = 4)

/-- The characters of a piece. -/
def Piece.chars : Piece → List Char
  | .plain c _ => [c]
  | .escape c _ _ => ['\\', c]
  | .unit digits _ _ _ => '\\' :: 'u' :: digits

/-- The code units that a piece denotes. -/
def Piece.units : Piece → List UInt16
  | .plain c _ => utf16Char c
  | .escape _ u _ => [u]
  | .unit _ values _ _ => [(values.foldl (fun n digit => n * 16 + digit) 0).toUInt16]

/-- Whether a piece begins with a backslash. -/
def Piece.isEscape : Piece → Bool
  | .plain _ _ => false
  | .escape _ _ _ | .unit _ _ _ _ => true

/-- A string, piece by piece. -/
abbrev Text := List Piece

namespace Text

/-- What stands between the quotes. -/
def body (s : Text) : List Char := s.flatMap Piece.chars

/-- The string with its quotes. -/
def quoted (s : Text) : List Char := '"' :: (s.body ++ ['"'])

/-- The code units that a string denotes. -/
def units (s : Text) : List UInt16 := s.flatMap Piece.units

/-- Whether a string contains a backslash escape. -/
def hasEscape (s : Text) : Bool := s.any Piece.isEscape

theorem units_of_not_hasEscape {s : Text} (h : s.hasEscape = false) : s.units = utf16 s.body := by
  induction s with
  | nil => rfl
  | cons piece s ih =>
    unfold hasEscape at h
    rw [any_cons, Bool.or_eq_false_iff] at h
    have hrest : units s = utf16 (body s) := ih h.2
    change piece.units ++ units s = utf16 (piece.chars ++ body s)
    rw [hrest, utf16_append]
    cases piece with
    | plain c =>
      change utf16Char c ++ utf16 (body s) = utf16 [c] ++ utf16 (body s)
      rw [utf16_cons, utf16_nil, append_nil]
    | escape | unit => cases h.1

end Text

/-- At least one digit. -/
def IsDigits (s : List Char) : Prop := s ≠ [] ∧ ∀ c ∈ s, c.isDigit = true

/-- The integer part of a number: no zero stands before another digit. -/
def IsInteger (s : List Char) : Prop := IsDigits s ∧ (s.head? = some '0' → s = ['0'])

/-- The fraction of a number, if it has one. -/
def IsFraction (s : List Char) : Prop := s = [] ∨ ∃ digits, IsDigits digits ∧ s = '.' :: digits

/-- The exponent of a number, if it has one. -/
def IsExponent (s : List Char) : Prop :=
  s = [] ∨ ∃ e sign digits, e ∈ ['e', 'E'] ∧ sign ∈ [[], ['+'], ['-']] ∧ IsDigits digits ∧ s = e :: (sign ++ digits)

/-- A number. -/
def IsNumber (s : List Char) : Prop :=
  ∃ sign integer fraction exponent, sign ∈ [[], ['-']] ∧ IsInteger integer ∧ IsFraction fraction ∧
    IsExponent exponent ∧ s = sign ++ integer ++ fraction ++ exponent

/-- The parts of a text: a value, the items of an array, and the members of an object with their keys and the texts of
their values. -/
inductive Part where
  | value
  | items
  | members (entries : List (Text × List Char))

/-- The texts that the grammar derives. -/
inductive Derives : Part → List Char → Prop where
  | literal (word : String) (hword : word ∈ ["null", "true", "false"]) : Derives .value word.toList
  | number (s : List Char) (hnumber : IsNumber s) : Derives .value s
  | string (s : Text) : Derives .value s.quoted
  | emptyArray (space : List Char) (hspace : IsSpaces space) : Derives .value ('[' :: (space ++ [']']))
  | array (items : List Char) (hitems : Derives .items items) : Derives .value ('[' :: (items ++ [']']))
  | emptyObject (space : List Char) (hspace : IsSpaces space) : Derives .value ('{' :: (space ++ ['}']))
  | object (entries : List (Text × List Char)) (members : List Char) (hmembers : Derives (.members entries) members) :
    Derives .value ('{' :: (members ++ ['}']))
  | item (before value after : List Char) (hbefore : IsSpaces before) (hvalue : Derives .value value)
    (hafter : IsSpaces after) : Derives .items (before ++ (value ++ after))
  | moreItems (before value after rest : List Char) (hbefore : IsSpaces before) (hvalue : Derives .value value)
    (hafter : IsSpaces after) (hrest : Derives .items rest) :
    Derives .items (before ++ (value ++ (after ++ ',' :: rest)))
  | member (before : List Char) (key : Text) (colon between value after : List Char) (hbefore : IsSpaces before)
    (hcolon : IsSpaces colon) (hbetween : IsSpaces between) (hvalue : Derives .value value) (hafter : IsSpaces after) :
    Derives (.members [(key, value)])
      (before ++ (key.quoted ++ (colon ++ ':' :: (between ++ (value ++ after)))))
  | moreMembers (before : List Char) (key : Text) (colon between value after rest : List Char)
    (entries : List (Text × List Char)) (hbefore : IsSpaces before) (hcolon : IsSpaces colon)
    (hbetween : IsSpaces between) (hvalue : Derives .value value) (hafter : IsSpaces after)
    (hrest : Derives (.members entries) rest) :
    Derives (.members ((key, value) :: entries))
      (before ++ (key.quoted ++ (colon ++ ':' :: (between ++ (value ++ (after ++ ',' :: rest))))))

/-- A text that is one object, with its members. -/
def IsObject (entries : List (Text × List Char)) (text : List Char) : Prop :=
  ∃ before members after, IsSpaces before ∧ IsSpaces after ∧ text = before ++ '{' :: (members ++ '}' :: after) ∧
    (entries = [] ∧ IsSpaces members ∨ Derives (.members entries) members)

/-- The value that a reader extracts which keeps the first member with a key. -/
def firstWins (entries : List (Text × List Char)) (key : List UInt16) : Option (List Char) :=
  (entries.find? fun entry => entry.1.units = key).map Prod.snd

/-- The value that a reader extracts which keeps the last member with a key. -/
def lastWins (entries : List (Text × List Char)) (key : List UInt16) : Option (List Char) :=
  firstWins entries.reverse key

/-- Where a key is unique, last and first agree. -/
theorem lastWins_eq_firstWins {entries : List (Text × List Char)} {key : List UInt16}
    (h : entries.countP (fun entry => entry.1.units = key) = 1) :
    lastWins entries key = firstWins entries key ∧ (firstWins entries key).isSome := by
  have hone : (entries.filter fun entry => entry.1.units = key).length = 1 := by
    rw [← countP_eq_length_filter]
    exact h
  obtain ⟨entry, hfilter⟩ := length_eq_one_iff.mp hone
  have hfirst : firstWins entries key = some entry.2 := by
    unfold firstWins
    rw [← List.head?_filter, hfilter]
    rfl
  have hlast : lastWins entries key = some entry.2 := by
    unfold lastWins firstWins
    rw [← List.head?_filter, filter_reverse, hfilter]
    rfl
  rw [hfirst, hlast]
  exact ⟨rfl, rfl⟩

section Characters

/-- The four characters that JSON skips. -/
theorem isSpace_iff (c : Char) : isSpace c = true ↔ c ∈ [' ', '\t', '\n', '\r'] := by
  unfold isSpace
  simp only [Bool.or_eq_true, beq_iff_eq, mem_cons, not_mem_nil, or_false, or_assoc]

/-- The codes of the digits. -/
theorem mem_digits_of_isDigit {c : Char} (h : c.isDigit = true) : 48 ≤ c.toNat ∧ c.toNat ≤ 57 := by
  unfold Char.isDigit at h
  rw [Bool.and_eq_true, decide_eq_true_eq, decide_eq_true_eq] at h
  exact h

theorem mem_number {s : List Char} (h : IsNumber s) {c : Char} (hc : c ∈ s) :
    c.isDigit = true ∨ c ∈ ['-', '+', '.', 'e', 'E'] := by
  obtain ⟨sign, integer, fraction, exponent, hsign, hinteger, hfraction, hexponent, rfl⟩ := h
  simp only [mem_append] at hc
  obtain ((hmem | hmem) | hmem) | hmem := hc
  · simp only [mem_cons, not_mem_nil, or_false] at hsign
    cases hsign with
    | inl hnone =>
      rw [hnone] at hmem
      cases hmem
    | inr hminus =>
      rw [hminus, mem_singleton] at hmem
      rw [hmem]
      exact Or.inr (by decide)
  · exact Or.inl (hinteger.1.2 c hmem)
  · cases hfraction with
    | inl hnone =>
      rw [hnone] at hmem
      cases hmem
    | inr hsome =>
      obtain ⟨digits, hdigits, hfraction⟩ := hsome
      rw [hfraction] at hmem
      cases mem_cons.mp hmem with
      | inl hpoint =>
        rw [hpoint]
        exact Or.inr (by decide)
      | inr hdigit => exact Or.inl (hdigits.2 c hdigit)
  · cases hexponent with
    | inl hnone =>
      rw [hnone] at hmem
      cases hmem
    | inr hsome =>
      obtain ⟨e, sign', digits, he, hsign', hdigits, hexponent⟩ := hsome
      rw [hexponent] at hmem
      cases mem_cons.mp hmem with
      | inl hletter =>
        rw [hletter]
        exact Or.inr (mem_cons_of_mem _ (mem_cons_of_mem _ (mem_cons_of_mem _ he)))
      | inr hrest =>
        cases mem_append.mp hrest with
        | inl hmem' =>
          have hsigns : ∀ sign ∈ [[], ['+'], ['-']], ∀ c ∈ sign, c ∈ ['-', '+', '.', 'e', 'E'] := by decide
          exact Or.inr (hsigns sign' hsign' c hmem')
        | inr hdigit => exact Or.inl (hdigits.2 c hdigit)

/-- A number begins with a digit or a minus. -/
theorem exists_number_first {s : List Char} (h : IsNumber s) : ∃ c rest, s = c :: rest ∧ (c.isDigit = true ∨ c = '-') := by
  obtain ⟨sign, integer, fraction, exponent, hsign, hinteger, -, -, rfl⟩ := h
  obtain ⟨digit, digits, hdigits⟩ := exists_cons_of_ne_nil hinteger.1.1
  simp only [mem_cons, not_mem_nil, or_false] at hsign
  cases hsign with
  | inl hnone =>
    refine ⟨digit, digits ++ fraction ++ exponent, ?_, Or.inl (hinteger.1.2 digit ?_)⟩
    · rw [hnone, hdigits]
      rfl
    · rw [hdigits]
      exact mem_cons_self
  | inr hminus =>
    rw [hminus]
    exact ⟨'-', integer ++ fraction ++ exponent, rfl, Or.inr rfl⟩

theorem exists_number_last {s : List Char} (h : IsNumber s) : ∃ front c, s = front ++ [c] ∧ c.isDigit = true := by
  obtain ⟨sign, integer, fraction, exponent, -, hinteger, hfraction, hexponent, rfl⟩ := h
  have hlast {digits : List Char} (hdigits : IsDigits digits) : ∃ front c, digits = front ++ [c] ∧ c.isDigit = true :=
    ⟨digits.dropLast, digits.getLast hdigits.1, (dropLast_append_getLast hdigits.1).symm,
      hdigits.2 _ (getLast_mem hdigits.1)⟩
  have hafter (front : List Char) {digits : List Char} (hdigits : IsDigits digits) :
      ∃ front' c, front ++ digits = front' ++ [c] ∧ c.isDigit = true := by
    obtain ⟨front', c, hdigits, hc⟩ := hlast hdigits
    exact ⟨front ++ front', c, by rw [hdigits, append_assoc], hc⟩
  -- the last part that is not empty ends the number
  cases hexponent with
  | inr hsome =>
    obtain ⟨e, sign', digits, -, -, hdigits, hexponent⟩ := hsome
    rw [hexponent, ← cons_append, ← append_assoc]
    exact hafter _ hdigits
  | inl hnone =>
    rw [hnone, append_nil]
    cases hfraction with
    | inr hsome =>
      obtain ⟨digits, hdigits, hfraction⟩ := hsome
      rw [hfraction, ← singleton_append, ← append_assoc]
      exact hafter _ hdigits
    | inl hnone =>
      rw [hnone, append_nil]
      exact hafter _ hinteger.1

/-- The five forms of a value. -/
theorem value_cases {v : List Char} (h : Derives .value v) :
    (∃ word ∈ ["null", "true", "false"], v = word.toList) ∨ IsNumber v ∨ (∃ s : Text, v = s.quoted) ∨
      (∃ inner, v = '[' :: (inner ++ [']'])) ∨ ∃ inner, v = '{' :: (inner ++ ['}']) := by
  cases h with
  | literal word hword => exact Or.inl ⟨word, hword, rfl⟩
  | number _ hnumber => exact Or.inr (Or.inl hnumber)
  | string s => exact Or.inr (Or.inr (Or.inl ⟨s, rfl⟩))
  | emptyArray space | array space => exact Or.inr (Or.inr (Or.inr (Or.inl ⟨space, rfl⟩)))
  | emptyObject space | object _ space => exact Or.inr (Or.inr (Or.inr (Or.inr ⟨space, rfl⟩)))

/-- White space and the marks that stand between and after values. -/
def valueMarks : List Char := " \t\n\r]\x7d,:".toList

/-- How a value begins. -/
theorem exists_value_first {v : List Char} (h : Derives .value v) :
    ∃ c rest, v = c :: rest ∧ c.toNat ≤ 127 ∧ c ∉ valueMarks ∧ (c = '"' → ∃ s : Text, v = s.quoted) := by
  obtain ⟨word, hword, rfl⟩ | hnumber | ⟨s, rfl⟩ | ⟨inner, rfl⟩ | ⟨inner, rfl⟩ := value_cases h
  · have hwords : ∀ word ∈ ["null", "true", "false"], ∃ c ∈ "ntf".toList, word.toList.head? = some c := by decide
    have hfirsts : ∀ c ∈ "ntf".toList, c.toNat ≤ 127 ∧ c ∉ valueMarks ∧ c ≠ '"' := by decide
    obtain ⟨c, hc, hhead⟩ := hwords word hword
    obtain ⟨rest, hrest⟩ := List.head?_eq_some_iff.mp hhead
    obtain ⟨hascii, hmarks, hne⟩ := hfirsts c hc
    exact ⟨c, rest, hrest, hascii, hmarks, fun heq => absurd heq hne⟩
  · obtain ⟨c, rest, rfl, hc⟩ := exists_number_first hnumber
    refine ⟨c, rest, rfl, ?_⟩
    cases hc with
    | inl hdigit =>
      obtain ⟨hlow, hhigh⟩ := mem_digits_of_isDigit hdigit
      have hmarks : ∀ d ∈ '"' :: valueMarks, ¬ (48 ≤ d.toNat ∧ d.toNat ≤ 57) := by decide
      refine ⟨by omega, fun hmem => hmarks c (mem_cons_of_mem _ hmem) ⟨hlow, hhigh⟩, fun heq => ?_⟩
      exact absurd ⟨hlow, hhigh⟩ (hmarks c (heq ▸ mem_cons_self))
    | inr hminus =>
      rw [hminus]
      exact ⟨by decide, by decide, fun heq => absurd heq (by decide)⟩
  · exact ⟨'"', _, rfl, by decide, by decide, fun _ => ⟨s, rfl⟩⟩
  · exact ⟨'[', _, rfl, by decide, by decide, fun heq => absurd heq (by decide)⟩
  · exact ⟨'\x7b', _, rfl, by decide, by decide, fun heq => absurd heq (by decide)⟩

end Characters

end JsonText
