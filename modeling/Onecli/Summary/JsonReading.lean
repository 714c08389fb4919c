import Onecli.Foundation.JsonText
import Onecli.Gateway.Text

/-!
# A JSON body that may be cut

The `Cursor` of `summary/src/json_prefix.rs`: a body is read one value at a time, and a read that
meets the end of the body says so. What `serde_json` answers is a parameter: it reads a complete
value exactly, and a value that the body cuts is the end of its input, but for a number whose
digits so far are a number too.
-/

namespace Onecli.Summary.JsonPrefix

open Gateway (Str asBytes byteLen)

/-- `Stop`. -/
inductive Stop where
  | cut
  | bad

/-- `Items`. -/
structure Items where
  close : UInt8
  first : Bool

/-- `Cursor`. -/
structure Cursor where
  body : List UInt8
  pos : ℕ

/-- What the body holds from the cursor on. -/
def Cursor.rest (c : Cursor) : List UInt8 := c.body.drop c.pos

/-- The cursor some bytes further. -/
def Cursor.advance (c : Cursor) (n : ℕ) : Cursor := { c with pos := c.pos + n }

/-- What the iterator of the deserializer answers to the bytes it is given: nothing, an error and
whether it is the end of the input, or a value and where it ends. -/
abbrev Serde (T : Type) := List UInt8 → Option (Except Bool (T × ℕ))

/-- `is_json_space`. -/
def isJsonSpace (b : UInt8) : Bool := b == 0x20 || b == 0x09 || b == 0x0A || b == 0x0D

/-- `u8::is_ascii_digit`. -/
def isAsciiDigit (b : UInt8) : Bool := 0x30 ≤ b && b ≤ 0x39

/-- `byte`. -/
def byte (c : Cursor) : Except Stop UInt8 × Cursor :=
  let c := c.advance (c.rest.takeWhile isJsonSpace).length
  match c.rest with
  | b :: _ => (.ok b, c)
  | [] => (.error .cut, c)

/-- The byte that closes what another opens. -/
def closeOf (opening : UInt8) : Option UInt8 :=
  if opening = 0x7B then some 0x7D
  else if opening = 0x5B then some 0x5D
  else none

/-- `enter`. -/
def enter (opening : UInt8) (c : Cursor) : Except Stop Items × Cursor :=
  match closeOf opening with
  | none => (.error .bad, c)
  | some close =>
    match byte c with
    | (.error stop, c) => (.error stop, c)
    | (.ok b, c) => if b = opening then (.ok ⟨close, true⟩, c.advance 1) else (.error .bad, c)

/-- `next`. -/
def next (items : Items) (c : Cursor) : Except Stop Bool × Items × Cursor :=
  match byte c with
  | (.error stop, c) => (.error stop, items, c)
  | (.ok b, c) =>
    if b = items.close then (.ok false, items, c.advance 1)
    else if items.first then (.ok true, { items with first := false }, c)
    else if b = 0x2C then (.ok true, { items with first := false }, c.advance 1)
    else (.error .bad, items, c)

/-- `value`. -/
def value {T : Type} (serde : Serde T) (c : Cursor) : Except Stop T × Cursor :=
  match serde c.rest with
  | some (.ok (v, n)) =>
    if n = c.rest.length ∧ c.rest.getLast?.any isAsciiDigit = true then (.error .cut, c)
    else (.ok v, c.advance n)
  | some (.error isEof) => (.error (if isEof then .cut else .bad), c)
  | none => (.error .cut, c)

/-- `key`. -/
def key {K : Type} (serde : Serde K) (c : Cursor) : Except Stop K × Cursor :=
  match value serde c with
  | (.error stop, c) => (.error stop, c)
  | (.ok k, c) =>
    match byte c with
    | (.error stop, c) => (.error stop, c)
    | (.ok b, c) => if b = 0x3A then (.ok k, c.advance 1) else (.error .bad, c)

/-- What is left of an unclosed string after one of its characters. -/
def afterChar (b : UInt8) (tail : List UInt8) : List UInt8 :=
  if b = 0x5C ∧ tail.head? = some 0x75 then tail.drop 5
  else if b = 0x5C then tail.drop 1
  else tail

/-- The loop of `open_string_len`. -/
def openScan : List UInt8 → Option ℕ
  | [] => some 0
  | b :: tail => if b = 0x22 then none else (openScan (afterChar b tail)).map (· + 1)
termination_by text => text.length
decreasing_by
  unfold afterChar
  all_goals split_ifs <;> (simp only [List.length_drop, List.length_cons]; omega)

/-- `open_string_len`. -/
def openStringLen (c : Cursor) : Option ℕ :=
  match c.rest.dropWhile isJsonSpace with
  | b :: text => if b = 0x22 then openScan text else none
  | [] => none

/-! ## Reading in document order -/

/-- A call of the cursor. -/
inductive Op where
  | enter (opening : UInt8)
  | next
  | key
  | value

/-- What a call answers. -/
inductive Event (K T : Type) where
  | entered
  | item (more : Bool)
  | key (k : K)
  | value (v : T)

/-- How keys and values are deserialized. -/
structure Readers (K T : Type) where
  key : Serde K
  value : Serde T

/-- The cursor, and the items of the containers that it is in. -/
structure State where
  cursor : Cursor
  inside : List Items

variable {K T : Type}

/-- One call; `next` is about the innermost container. -/
def step (r : Readers K T) (op : Op) (s : State) : Except Stop (Event K T) × State :=
  match op with
  | .enter opening =>
    match enter opening s.cursor with
    | (.ok items, c) => (.ok .entered, ⟨c, items :: s.inside⟩)
    | (.error stop, c) => (.error stop, ⟨c, s.inside⟩)
  | .next =>
    match s.inside with
    | [] => (.error .bad, s)
    | items :: outer =>
      match next items s.cursor with
      | (.ok true, items, c) => (.ok (.item true), ⟨c, items :: outer⟩)
      | (.ok false, _, c) => (.ok (.item false), ⟨c, outer⟩)
      | (.error stop, items, c) => (.error stop, ⟨c, items :: outer⟩)
  | .key =>
    match key r.key s.cursor with
    | (.ok k, c) => (.ok (.key k), ⟨c, s.inside⟩)
    | (.error stop, c) => (.error stop, ⟨c, s.inside⟩)
  | .value =>
    match value r.value s.cursor with
    | (.ok v, c) => (.ok (.value v), ⟨c, s.inside⟩)
    | (.error stop, c) => (.error stop, ⟨c, s.inside⟩)

/-- Calls up to the first that stops: the answers, each with the number of bytes that its call went past, and where and why
the calls stopped. -/
def run (r : Readers K T) : List Op → State → List (Event K T × ℕ) × Option Stop × State
  | [], s => ([], none, s)
  | op :: ops, s =>
    match step r op s with
    | (.ok event, s') =>
      let rest := run r ops s'
      ((event, s'.cursor.pos - s.cursor.pos) :: rest.1, rest.2)
    | (.error stop, s') => ([], some stop, s')

/-! ## What a call of the cursor answers

Where the body holds what a call reads, the call answers it and goes past it. Where the body ends first, what stops the
call is the cut, and the length of a string that is open there is no more than that of the whole string. A number that
runs to the end of the body is not answered: it may go on.
-/

open Nat

open CodeUnits Utf16 JsonText List Option Bool
open Gateway (Str asBytes byteLen asBytes_cons_of_ascii)

/-! ## Bytes -/

/-- Bytes of two texts. -/
theorem asBytes_append (s t : Str) : asBytes (s ++ t) = asBytes s ++ asBytes t := encode_append _ s t

variable {ws : List Char} {k n : ℕ}

/-- White space in bytes. -/
theorem isJsonSpace_of_mem (hws : IsSpaces ws) : ∀ b ∈ asBytes ws, isJsonSpace b = true := by
  have hspaces : ∀ c ∈ [' ', '\t', '\n', '\r'], ∀ b ∈ String.utf8EncodeChar c, isJsonSpace b = true := by decide +kernel
  intro b hb
  obtain ⟨c, hc, hb⟩ := mem_flatMap.mp hb
  exact hspaces c ((isSpace_iff c).mp (hws c hc)) b hb

theorem exists_take_spaces (hws : IsSpaces ws) (k : ℕ) : ∃ ws', IsSpaces ws' ∧ (asBytes ws).take k = asBytes ws' := by
  have hsize : ∀ c ∈ [' ', '\t', '\n', '\r'], c.toNat ≤ 127 := by decide
  induction ws generalizing k with
  | nil => exact ⟨[], hws, take_nil⟩
  | cons c ws ih =>
    obtain ⟨hc, hrest⟩ := forall_mem_cons.mp hws
    cases k with
    | zero => exact ⟨[], forall_mem_nil _, rfl⟩
    | succ k =>
      obtain ⟨ws', hws', htake⟩ := ih hrest k
      have hascii := hsize c ((isSpace_iff c).mp hc)
      refine ⟨c :: ws', forall_mem_cons.mpr ⟨hc, hws'⟩, ?_⟩
      rw [asBytes_cons_of_ascii hascii, take_succ_cons, htake, asBytes_cons_of_ascii hascii]

theorem char_eq_of_byte {c d : Char} (hc : c.toNat ≤ 127) (hd : d.toNat ≤ 127) (h : c.val.toUInt8 = d.val.toUInt8) :
    c = d := by
  have hnat : c.toNat % 256 = d.toNat % 256 := by
    have hbyte := congrArg UInt8.toNat h
    rwa [UInt32.toNat_toUInt8, UInt32.toNat_toUInt8] at hbyte
  rw [mod_eq_of_lt (by omega), mod_eq_of_lt (by omega)] at hnat
  exact Char.toNat_inj.mp hnat

theorem byte_of_not_mark {c : Char} (hascii : c.toNat ≤ 127) (hmarks : c ∉ valueMarks) :
    isJsonSpace c.val.toUInt8 = false ∧ c.val.toUInt8 ≠ 0x5D ∧ c.val.toUInt8 ≠ 0x7D := by
  have hne : ∀ d ∈ valueMarks, c.val.toUInt8 ≠ d.val.toUInt8 := by
    have hmark : ∀ d ∈ valueMarks, d.toNat ≤ 127 := by decide
    intro d hd heq
    exact hmarks (char_eq_of_byte hascii (hmark d hd) heq ▸ hd)
  refine ⟨?_, hne ']' (by decide), hne '\x7d' (by decide)⟩
  have hspace : c.val.toUInt8 ≠ 0x20 := hne ' ' (by decide)
  have htab : c.val.toUInt8 ≠ 0x09 := hne '\t' (by decide)
  have hline : c.val.toUInt8 ≠ 0x0A := hne '\n' (by decide)
  have hreturn : c.val.toUInt8 ≠ 0x0D := hne '\r' (by decide)
  unfold isJsonSpace
  simp only [or_eq_false_iff, beq_eq_false_iff_ne]
  exact ⟨⟨⟨hspace, htab⟩, hline⟩, hreturn⟩

/-- How a value begins in bytes. -/
theorem exists_value_byte {v : List Char} (h : Derives .value v) :
    ∃ b rest, asBytes v = b :: rest ∧ isJsonSpace b = false ∧ b ≠ 0x5D ∧ b ≠ 0x7D ∧
      (b = 0x22 → ∃ s : Text, v = s.quoted) := by
  obtain ⟨c, rest, hv, hascii, hmarks, hquote⟩ := exists_value_first h
  obtain ⟨hspace, hbracket, hbrace⟩ := byte_of_not_mark hascii hmarks
  refine ⟨c.val.toUInt8, asBytes rest, ?_, hspace, hbracket, hbrace, fun hb => hquote ?_⟩
  · rw [hv, asBytes_cons_of_ascii hascii]
  · exact char_eq_of_byte hascii (by decide) hb

theorem getLast?_number {s : List Char} (h : IsNumber s) : (asBytes s).getLast?.any isAsciiDigit = true := by
  obtain ⟨front, c, rfl, hc⟩ := exists_number_last h
  obtain ⟨hlow, hhigh⟩ := mem_digits_of_isDigit hc
  rw [asBytes_append, asBytes_cons_of_ascii (by omega), List.getLast?_append]
  change Option.any isAsciiDigit (some c.val.toUInt8) = true
  rw [any_some]
  unfold isAsciiDigit
  have hval : c.val.toUInt8.toNat = c.toNat := by
    change c.toNat % 256 = c.toNat
    omega
  rw [and_eq_true, decide_eq_true_eq, decide_eq_true_eq, UInt8.le_iff_toNat_le, UInt8.le_iff_toNat_le, hval]
  exact ⟨hlow, hhigh⟩

/-! ## The length of an open string -/

/-- What `open_string_len` can count of a piece. -/
def charge : Piece → ℕ
  | .plain c _ => c.utf8Size
  | .escape _ _ _ | .unit _ _ _ _ => 1

theorem openScan_plain {bs : List UInt8} (hbs : ∀ b ∈ bs, b ≠ 0x22 ∧ b ≠ 0x5C) (rest : List UInt8)
    (h : openScan ((bs ++ rest).take k) = some n) :
    ∃ n', openScan (rest.take (k - bs.length)) = some n' ∧ n ≤ bs.length + n' := by
  induction bs generalizing k n with
  | nil => exact ⟨n, h, by omega⟩
  | cons b bs ih =>
    obtain ⟨⟨hquote, hslash⟩, hrest⟩ := forall_mem_cons.mp hbs
    cases k with
    | zero =>
      rw [take_zero, openScan] at h
      refine ⟨0, ?_, by cases h; omega⟩
      rw [Nat.zero_sub, take_zero, openScan]
    | succ =>
      rw [cons_append, take_succ_cons, openScan, if_neg hquote, map_eq_some_iff] at h
      obtain ⟨n₁, hscan, rfl⟩ := h
      have hafter (tail : List UInt8) : afterChar b tail = tail := by
        unfold afterChar
        rw [if_neg fun hb => hslash hb.1, if_neg hslash]
      rw [hafter] at hscan
      obtain ⟨n', hn', hle⟩ := ih hrest hscan
      refine ⟨n', ?_, ?_⟩
      · rw [length_cons, Nat.add_sub_add_right]
        exact hn'
      · rw [length_cons]
        omega

theorem openScan_escape {bs rest : List UInt8}
    (hafter : ∀ k, afterChar 0x5C ((bs ++ rest).take k) = rest.take (k - bs.length))
    (h : openScan ((0x5C :: (bs ++ rest)).take k) = some n) :
    ∃ n', openScan (rest.take (k - (bs.length + 1))) = some n' ∧ n ≤ 1 + n' := by
  cases k with
  | zero =>
    rw [take_zero, openScan] at h
    refine ⟨0, ?_, by cases h; omega⟩
    rw [Nat.zero_sub, take_zero, openScan]
  | succ =>
    rw [take_succ_cons, openScan, if_neg (by decide), map_eq_some_iff] at h
    obtain ⟨n', hscan, rfl⟩ := h
    rw [hafter] at hscan
    refine ⟨n', ?_, by omega⟩
    rw [Nat.add_sub_add_right]
    exact hscan

theorem ascii_of_hexDigit {c : Char} {value : ℕ} (h : hexDigit c = some value) : c.toNat ≤ 127 := by
  have hbound {d : Char} (hle : c ≤ d) (hd : d.toNat ≤ 127) : c.toNat ≤ 127 :=
    le_trans (UInt32.le_iff_toNat_le.mp hle) hd
  unfold hexDigit at h
  split_ifs at h with hdigit hlower hupper
  · exact le_trans (mem_digits_of_isDigit hdigit).2 (by decide)
  · exact hbound hlower.2 (by decide)
  · exact hbound hupper.2 (by decide)

theorem length_asBytes_of_ascii {s : Str} (h : ∀ c ∈ s, c.toNat ≤ 127) : (asBytes s).length = s.length := by
  induction s with
  | nil => rfl
  | cons c s ih =>
    obtain ⟨hc, hs⟩ := forall_mem_cons.mp h
    rw [asBytes_cons_of_ascii hc, length_cons, length_cons, ih hs]

theorem length_digits {digits : List Char} {values : List ℕ} (hdigits : digits.map hexDigit = values.map some)
    (hlength : digits.length = 4) : (asBytes digits).length = 4 := by
  rw [length_asBytes_of_ascii, hlength]
  intro c hc
  have hmem : hexDigit c ∈ values.map some := hdigits ▸ List.mem_map_of_mem hc
  obtain ⟨value, -, hvalue⟩ := List.mem_map.mp hmem
  exact ascii_of_hexDigit hvalue.symm

theorem openScan_piece (piece : Piece) (rest : List UInt8)
    (h : openScan ((asBytes piece.chars ++ rest).take k) = some n) :
    ∃ n', openScan (rest.take (k - (asBytes piece.chars).length)) = some n' ∧ n ≤ charge piece + n' := by
  cases piece with
  | plain c hplain =>
    have hbytes : asBytes (Piece.plain c hplain).chars = String.utf8EncodeChar c := append_nil _
    rw [hbytes] at h ⊢
    have hlength : charge (.plain c hplain) = (String.utf8EncodeChar c).length :=
      (String.length_utf8EncodeChar c).symm
    rw [hlength]
    refine openScan_plain (fun b hb => ⟨fun hquote => hplain.1 ?_, fun hslash => hplain.2.1 ?_⟩) rest h
    · rw [hquote] at hb
      exact Char.toNat_inj.mp (Gateway.toNat_of_mem_utf8EncodeChar hb (by decide))
    · rw [hslash] at hb
      exact Char.toNat_inj.mp (Gateway.toNat_of_mem_utf8EncodeChar hb (by decide))
  | escape c u hescape =>
    have hescapes : ∀ entry ∈ escapes, entry.1.toNat ≤ 127 ∧ entry.1.val.toUInt8 ≠ 0x75 := by decide
    obtain ⟨hascii, hne⟩ := hescapes _ hescape
    have hbytes : asBytes (Piece.escape c u hescape).chars = 0x5C :: [c.val.toUInt8] := by
      change asBytes ('\\' :: [c]) = _
      rw [asBytes_cons_of_ascii (by decide), asBytes_cons_of_ascii hascii]
      rfl
    rw [hbytes] at h ⊢
    refine openScan_escape (fun k => ?_) h
    cases k with
    | zero => rfl
    | succ =>
      unfold afterChar
      rw [singleton_append, take_succ_cons, if_neg fun hu => hne (some.inj hu.2), if_pos rfl]
      rfl
  | unit digits values hdigits hlength =>
    have hbytes : asBytes (Piece.unit digits values hdigits hlength).chars = 0x5C :: (0x75 :: asBytes digits) := by
      change asBytes ('\\' :: 'u' :: digits) = _
      rfl
    have hfive : (0x75 :: asBytes digits).length = 5 := by rw [length_cons, length_digits hdigits hlength]
    rw [hbytes] at h ⊢
    refine openScan_escape (fun k => ?_) h
    cases k with
    | zero =>
      rw [hfive]
      rfl
    | succ =>
      unfold afterChar
      rw [cons_append, take_succ_cons, if_pos ⟨rfl, rfl⟩, ← take_succ_cons, ← cons_append, drop_take, ← hfive,
        drop_left]

theorem openScan_body (s : Text) (after : List UInt8)
    (h : openScan ((asBytes s.body ++ 0x22 :: after).take k) = some n) : n ≤ (s.map charge).sum := by
  induction s generalizing k n with
  | nil =>
    cases k with
    | zero =>
      rw [take_zero, openScan] at h
      cases h
      exact zero_le _
    | succ k =>
      have hclosed : openScan (0x22 :: after.take k) = some n := h
      rw [openScan] at hclosed
      cases hclosed
  | cons piece s ih =>
    have hbody : asBytes (Text.body (piece :: s)) = asBytes piece.chars ++ asBytes (Text.body s) := asBytes_append _ _
    rw [hbody, append_assoc] at h
    obtain ⟨n', hscan, hle⟩ := openScan_piece piece _ h
    have hrest := ih hscan
    rw [map_cons, sum_cons]
    omega

theorem piece_cases (piece : Piece) :
    (∃ c, piece.units = utf16Char c ∧ charge piece = c.utf8Size) ∨ ∃ u, piece.units = [u] ∧ charge piece = 1 := by
  cases piece with
  | plain c => exact .inl ⟨c, rfl, rfl⟩
  | escape _ u => exact .inr ⟨u, rfl, rfl⟩
  | unit => exact .inr ⟨_, rfl, rfl⟩

theorem two_le_utf8Size {c : Char} (h : ¬ c.toNat < 0x10000) : 2 ≤ c.utf8Size := by
  have hpos := c.utf8Size_pos
  have hne : c.utf8Size ≠ 1 := by
    intro hone
    rw [Char.utf8Size_eq_one_iff] at hone
    have hascii : c.toNat ≤ 127 := hone
    omega
  omega

/-- The charges of the pieces of a string add up to at most the bytes of the string that they denote: an escape of one
unit stands for a character of at least one byte, and the two halves of a surrogate pair for one of more. -/
theorem sum_charge_le (str : Str) (s : Text) (h : utf16 str = s.units) : (s.map charge).sum ≤ byteLen str := by
  induction str generalizing s with
  | nil =>
    cases s with
    | nil => exact le_refl _
    | cons piece =>
      obtain ⟨hpiece, -⟩ := append_eq_nil_iff.mp h.symm
      obtain ⟨c, hunits, -⟩ | ⟨u, hunits, -⟩ := piece_cases piece
      · exact absurd (hunits ▸ hpiece) (utf16Char_selfDelimiting.block_ne_nil c)
      · exact absurd (hunits ▸ hpiece) (cons_ne_nil u [])
  | cons d str ih =>
    have hsize : byteLen (d :: str) = d.utf8Size + byteLen str := width_cons _ d str
    have hpos := d.utf8Size_pos
    cases s with
    | nil => exact absurd (append_eq_nil_iff.mp h).1 (utf16Char_selfDelimiting.block_ne_nil d)
    | cons piece s =>
      change utf16Char d ++ utf16 str = piece.units ++ Text.units s at h
      rw [map_cons, sum_cons, hsize]
      obtain ⟨c, hunits, hcharge⟩ | ⟨u, hunits, hcharge⟩ := piece_cases piece
      · rw [hunits] at h
        have hdc : d = c := utf16Char_selfDelimiting.read_first d c _ _ h
        rw [hdc] at h ⊢
        have hrest := ih s (append_cancel_left h)
        omega
      · rw [hunits] at h
        by_cases hd : d.toNat < 0x10000
        · rw [utf16Char_of_lt hd] at h
          have hrest := ih s (List.cons.inj h).2
          omega
        · -- a pair: the next piece is the low surrogate
          have htwo := two_le_utf8Size hd
          obtain ⟨hi, lo, hblock, -, -⟩ := utf16Char_of_ge hd
          rw [hblock] at h
          have hlow : lo :: utf16 str = Text.units s := (List.cons.inj h).2
          cases s with
          | nil => exact absurd hlow (cons_ne_nil _ _)
          | cons second s =>
            change lo :: utf16 str = second.units ++ Text.units s at hlow
            rw [map_cons, sum_cons]
            obtain ⟨c, hunits', -⟩ | ⟨u', hunits', hcharge'⟩ := piece_cases second
            · rw [hunits'] at hlow
              have hhead : (utf16Char c).head? = some lo := by
                rw [← List.head?_append_of_ne_nil _ (utf16Char_selfDelimiting.block_ne_nil c), ← hlow]
                rfl
              exact absurd hhead (utf16Char_synchronizing d c hi [lo] hblock lo mem_cons_self)
            · rw [hunits'] at hlow
              have hrest := ih s (List.cons.inj hlow).2
              omega

/-! ## The calls of the cursor -/

/-- The rest after some bytes. -/
theorem rest_advance (c : Cursor) (n : ℕ) : (c.advance n).rest = c.rest.drop n := drop_drop.symm

/-- Advances add up. -/
theorem advance_advance (c : Cursor) (m n : ℕ) : (c.advance m).advance n = c.advance (m + n) := by
  unfold Cursor.advance
  rw [add_assoc]

/-- A string stands at the front of some bytes, after white space, and the string that it denotes is at least so long. -/
def OpenString (rest : List UInt8) (n : ℕ) : Prop :=
  ∃ (before : List Char) (s : Text) (after : List UInt8), IsSpaces before ∧ rest = asBytes before ++ (asBytes s.quoted ++ after) ∧
    ∀ str : Str, utf16 str = s.units → n ≤ byteLen str

/-- Where a cut stops the cursor that stands before `text`, of which the body holds less than all: it is `d` bytes further,
and where it is in a string the length of what it holds is no more than that of the whole string. -/
def CutWithin (text tail : List UInt8) (c c' : Cursor) : Prop :=
  ∃ d, c' = c.advance d ∧ ∀ n, openStringLen c' = some n → OpenString ((text ++ tail).drop d) n

/-- A call that answers `a` past `text` where the body holds `text`, and is stopped by a cut within it. -/
def Answers {α : Type} (call : Cursor → Except Stop α × Cursor) (text tail : List UInt8) (a : α) : Prop :=
  ∀ c k, c.rest = (text ++ tail).take k →
    (text.length ≤ k ∧ call c = (.ok a, c.advance text.length)) ∨
      (k ≤ text.length ∧ ∃ c', call c = (.error .cut, c') ∧ CutWithin text tail c c')

theorem openStringLen_of_spaces {c : Cursor} (h : ∀ b ∈ c.rest, isJsonSpace b = true) : openStringLen c = none := by
  unfold openStringLen
  rw [dropWhile_eq_nil_iff.mpr h]

/-- A byte behind white space, or the cut. -/
theorem byte_answers {ws : List UInt8} (hws : ∀ b ∈ ws, isJsonSpace b = true) {b : UInt8} (hb : isJsonSpace b = false)
    (tail : List UInt8) (c : Cursor) {k : ℕ} (hrest : c.rest = (ws ++ b :: tail).take k) :
    (ws.length < k ∧ byte c = (.ok b, c.advance ws.length)) ∨
      (k ≤ ws.length ∧ byte c = (.error .cut, c.advance k) ∧ (c.advance k).rest = []) := by
  by_cases hk : k ≤ ws.length
  · have htake : c.rest = ws.take k := by rw [hrest, take_append_of_le_length hk]
    have hspaces : ∀ x ∈ c.rest, isJsonSpace x = true := by
      rw [htake]
      exact fun x hx => hws x (mem_of_mem_take hx)
    have hlength : c.rest.length = k := by rw [htake, length_take, min_eq_left hk]
    have hnil : (c.advance k).rest = [] := by
      rw [rest_advance, ← hlength, drop_length]
    refine .inr ⟨hk, ?_, hnil⟩
    unfold byte
    dsimp only
    rw [takeWhile_eq_self_iff.mpr hspaces, hlength, hnil]
  · obtain ⟨j, rfl⟩ : ∃ j, k = ws.length + (j + 1) := ⟨k - ws.length - 1, by omega⟩
    have htake : c.rest = ws ++ b :: tail.take j := by rw [hrest, take_length_add_append, take_succ_cons]
    refine .inl ⟨by omega, ?_⟩
    have hspaces : c.rest.takeWhile isJsonSpace = ws := by
      rw [htake, takeWhile_append_of_pos hws, takeWhile_cons_of_neg (by rw [hb]; exact Bool.false_ne_true),
        append_nil]
    have hdrop : (c.advance ws.length).rest = b :: tail.take j := by rw [rest_advance, htake, drop_left]
    unfold byte
    dsimp only
    rw [hspaces, hdrop]

/-- The bytes that `serde_json` takes for the end of a value that does not close itself. -/
def valueEnds : List UInt8 := [0x20, 0x09, 0x0A, 0x0D, 0x22, 0x5B, 0x5D, 0x7B, 0x7D, 0x2C, 0x3A]

/-- A value ends before these bytes. -/
def EndsValue (after : List UInt8) : Prop := ∀ b ∈ after.head?, b ∈ valueEnds

/-- What `serde_json` is taken to answer: nothing to white space; to a complete value that it decodes, what it decodes and
where the value ends; and to the beginning of such a value that the input is at its end, unless that beginning is a number
itself. -/
structure SerdeReads {T : Type} (decode : List Char → Option T) (serde : Serde T) : Prop where
  space : ∀ ws, IsSpaces ws → serde (asBytes ws) = none
  whole : ∀ ws v t after, IsSpaces ws → Derives .value v → decode v = some t → EndsValue after →
    serde (asBytes ws ++ (asBytes v ++ after)) = some (.ok (t, (asBytes ws).length + (asBytes v).length))
  cut : ∀ ws v t p, IsSpaces ws → Derives .value v → decode v = some t → p ≠ [] → p <+: asBytes v → p ≠ asBytes v →
    serde (asBytes ws ++ p) = some (.error true) ∨
      ∃ number t', IsNumber number ∧ p = asBytes number ∧
        serde (asBytes ws ++ p) = some (.ok (t', (asBytes ws).length + p.length))

theorem openString_of_value {ws v : List Char} (hws : IsSpaces ws) (hv : Derives .value v) (tail : List UInt8)
    {c : Cursor} (hrest : c.rest = (asBytes ws ++ asBytes v ++ tail).take k) (hopen : openStringLen c = some n) :
    OpenString (asBytes ws ++ asBytes v ++ tail) n := by
  have hspaces := isJsonSpace_of_mem hws
  rw [append_assoc] at hrest ⊢
  by_cases hk : k ≤ (asBytes ws).length
  · -- the body ends within the white space
    rw [take_append_of_le_length hk] at hrest
    rw [openStringLen_of_spaces] at hopen
    · cases hopen
    · rw [hrest]
      exact fun b hb => hspaces b (mem_of_mem_take hb)
  · obtain ⟨j, rfl⟩ : ∃ j, k = (asBytes ws).length + (j + 1) := ⟨k - (asBytes ws).length - 1, by omega⟩
    obtain ⟨b, rest, hbytes, hspace, -, -, hquote⟩ := exists_value_byte hv
    rw [take_length_add_append, hbytes, cons_append, take_succ_cons] at hrest
    unfold openStringLen at hopen
    rw [hrest, dropWhile_append_of_pos hspaces,
      dropWhile_cons_of_neg (by rw [hspace]; exact Bool.false_ne_true)] at hopen
    dsimp only at hopen
    by_cases hb : b = 0x22
    · obtain ⟨s, rfl⟩ := hquote hb
      rw [if_pos hb] at hopen
      have hbody : asBytes s.quoted = 0x22 :: (asBytes s.body ++ [0x22]) := by
        unfold Text.quoted
        rw [asBytes_cons_of_ascii (by decide), asBytes_append]
        rfl
      have htext : rest = asBytes s.body ++ [0x22] := (List.cons.inj (hbytes.symm.trans hbody)).2
      rw [htext, append_assoc] at hopen
      exact ⟨ws, s, tail, hws, rfl, fun str hstr => le_trans (openScan_body s _ hopen) (sum_charge_le str s hstr)⟩
    · rw [if_neg hb] at hopen
      cases hopen

theorem value_answers {T : Type} {decode : List Char → Option T} {serde : Serde T} (hserde : SerdeReads decode serde)
    {ws v : List Char} (hws : IsSpaces ws) (hv : Derives .value v) {t : T} (ht : decode v = some t) {tail : List UInt8}
    (htail : EndsValue tail) (hlast : tail ≠ [] ∨ (asBytes v).getLast?.any isAsciiDigit = false) :
    Answers (value serde) (asBytes ws ++ asBytes v) tail t := by
  intro c k hrest
  have hcut : CutWithin (asBytes ws ++ asBytes v) tail c c :=
    ⟨0, rfl, fun n hopen => openString_of_value hws hv tail hrest hopen⟩
  have hlength : (asBytes ws ++ asBytes v).length = (asBytes ws).length + (asBytes v).length := length_append
  obtain ⟨b, bytes, hbytes, -⟩ := exists_value_byte hv
  rw [append_assoc] at hrest
  by_cases hspace : k ≤ (asBytes ws).length
  · -- nothing but white space is left
    obtain ⟨ws', hws', htake⟩ := exists_take_spaces hws k
    rw [take_append_of_le_length hspace, htake] at hrest
    refine .inr ⟨by omega, c, ?_, hcut⟩
    unfold value
    rw [hrest, hserde.space ws' hws']
  · obtain ⟨j, rfl⟩ : ∃ j, k = (asBytes ws).length + j := ⟨k - (asBytes ws).length, by omega⟩
    rw [take_length_add_append] at hrest
    by_cases hshort : j < (asBytes v).length
    · -- the body ends within the value
      rw [take_append_of_le_length (by omega)] at hrest
      refine .inr ⟨by omega, c, ?_, hcut⟩
      have hne : (asBytes v).take j ≠ [] := by
        rw [hbytes]
        obtain ⟨j', rfl⟩ : ∃ j', j = j' + 1 := ⟨j - 1, by omega⟩
        exact cons_ne_nil _ _
      have hless : (asBytes v).take j ≠ asBytes v := by
        intro heq
        have := congrArg List.length heq
        rw [length_take] at this
        omega
      unfold value
      rw [hrest]
      obtain herror | ⟨number, t', hnumber, hp, hok⟩ := hserde.cut ws v t _ hws hv ht hne (List.take_prefix j _) hless
      · rw [herror]
        rfl
      · rw [hok]
        have hdigit : (asBytes ws ++ (asBytes v).take j).getLast?.any isAsciiDigit = true := by
          rw [List.getLast?_append_of_ne_nil _ hne, hp]
          exact getLast?_number hnumber
        dsimp only
        rw [if_pos ⟨length_append.symm, hdigit⟩]
    · obtain ⟨i, rfl⟩ : ∃ i, j = (asBytes v).length + i := ⟨j - (asBytes v).length, by omega⟩
      rw [take_length_add_append] at hrest
      have hends : EndsValue (tail.take i) := by
        cases i with
        | zero => exact fun b hb => absurd hb (not_mem_none b)
        | succ =>
          cases tail with
          | nil | cons x tail => exact htail
      have hok := hserde.whole ws v t (tail.take i) hws hv ht hends
      by_cases hwhole : (asBytes ws).length + (asBytes v).length = c.rest.length ∧ c.rest.getLast?.any isAsciiDigit = true
      · -- a number up to the end of the body may go on
        refine .inr ⟨?_, c, ?_, hcut⟩
        · obtain ⟨hend, hdigit⟩ := hwhole
          rw [hrest, length_append, length_append] at hend
          have hnil : tail.take i = [] := eq_nil_of_length_eq_zero (by omega)
          rw [hrest, hnil, append_nil, List.getLast?_append_of_ne_nil _ (by rw [hbytes]; exact cons_ne_nil _ _)]
            at hdigit
          cases hlast with
          | inl htail =>
            obtain hi | htail' := take_eq_nil_iff.mp hnil
            · omega
            · exact absurd htail' htail
          | inr hnone =>
            rw [hdigit] at hnone
            cases hnone
        · unfold value
          rw [← hrest] at hok
          rw [hok]
          dsimp only
          rw [if_pos hwhole]
      · refine .inl ⟨by omega, ?_⟩
        unfold value
        rw [← hrest] at hok
        rw [hok]
        dsimp only
        rw [if_neg hwhole, hlength]

/-- A cut at the end of the text. -/
theorem cutWithin_byte {text tail : List UInt8} {c : Cursor} {n : ℕ} (h : (c.advance n).rest = []) :
    CutWithin text tail c (c.advance n) := by
  refine ⟨n, rfl, fun m hopen => ?_⟩
  rw [openStringLen_of_spaces (by rw [h]; exact forall_mem_nil _)] at hopen
  cases hopen

theorem enter_answers {opening close : UInt8} (hclose : closeOf opening = some close)
    (hopening : isJsonSpace opening = false) {ws : List UInt8} (hws : ∀ b ∈ ws, isJsonSpace b = true) (tail : List UInt8) :
    Answers (enter opening) (ws ++ [opening]) tail ⟨close, true⟩ := by
  intro c k hrest
  rw [append_assoc] at hrest
  have hlength : (ws ++ [opening]).length = ws.length + 1 := length_append
  rw [hlength]
  unfold enter
  rw [hclose]
  obtain ⟨hk, hbyte⟩ | ⟨hk, hbyte, hnil⟩ := byte_answers hws hopening tail c hrest
  · refine .inl ⟨hk, ?_⟩
    rw [hbyte]
    dsimp only
    rw [if_pos rfl, advance_advance]
  · refine .inr ⟨le_succ_of_le hk, c.advance k, ?_, cutWithin_byte hnil⟩
    rw [hbyte]

theorem endsValue_spaces (hws : IsSpaces ws) {b : UInt8} (hb : b ∈ valueEnds) (tail : List UInt8) :
    EndsValue (asBytes ws ++ b :: tail) := by
  have hspaces : ∀ c ∈ [' ', '\t', '\n', '\r'], c.toNat ≤ 127 ∧ c.val.toUInt8 ∈ valueEnds := by decide
  cases ws with
  | nil =>
    intro x hx
    cases hx
    exact hb
  | cons c =>
    obtain ⟨hascii, hc⟩ := hspaces c ((isSpace_iff c).mp (hws c mem_cons_self))
    intro x hx
    rw [asBytes_cons_of_ascii hascii] at hx
    cases hx
    exact hc

theorem key_answers {K : Type} {decode : List Char → Option K} {serde : Serde K} (hserde : SerdeReads decode serde)
    {ws colon : List Char} (hws : IsSpaces ws) (s : Text) {k : K} (hk : decode s.quoted = some k) (hcolon : IsSpaces colon)
    (tail : List UInt8) :
    Answers (key serde) (asBytes ws ++ asBytes s.quoted ++ (asBytes colon ++ [0x3A])) tail k := by
  intro c n hrest
  have hends : EndsValue (asBytes colon ++ 0x3A :: tail) := endsValue_spaces hcolon (by decide) tail
  have hlength : (asBytes ws ++ asBytes s.quoted ++ (asBytes colon ++ [0x3A])).length =
      (asBytes ws ++ asBytes s.quoted).length + ((asBytes colon).length + 1) := by
    rw [length_append]
    exact congrArg _ length_append
  have hassoc : asBytes ws ++ asBytes s.quoted ++ (asBytes colon ++ [0x3A]) ++ tail =
      asBytes ws ++ asBytes s.quoted ++ (asBytes colon ++ 0x3A :: tail) := by
    rw [append_assoc, append_assoc (asBytes colon), singleton_append]
  rw [hassoc] at hrest
  unfold key
  rw [hlength]
  obtain ⟨hlong, hvalue⟩ | ⟨hshort, c', hvalue, d, hd, hopen⟩ :=
    value_answers hserde hws (.string s) hk hends (.inl (by simp)) c n hrest
  · rw [hvalue]
    dsimp only
    obtain ⟨j, rfl⟩ : ∃ j, n = (asBytes ws ++ asBytes s.quoted).length + j := Nat.exists_eq_add_of_le hlong
    have hafter : (c.advance (asBytes ws ++ asBytes s.quoted).length).rest = (asBytes colon ++ 0x3A :: tail).take j := by
      rw [rest_advance, hrest, take_length_add_append, drop_left]
    obtain ⟨hj, hbyte⟩ | ⟨hj, hbyte, hnil⟩ := byte_answers (isJsonSpace_of_mem hcolon) (by decide) tail _ hafter
    · refine .inl ⟨by omega, ?_⟩
      rw [hbyte]
      dsimp only
      rw [if_pos rfl, advance_advance, advance_advance]
    · rw [advance_advance] at hbyte hnil
      refine .inr ⟨by omega, c.advance _, ?_, cutWithin_byte hnil⟩
      rw [hbyte]
  · rw [hvalue]
    refine .inr ⟨by omega, c', rfl, d, hd, fun m hm => ?_⟩
    rw [hassoc]
    exact hopen m hm

end Onecli.Summary.JsonPrefix
