import Onecli.Foundation.CodeUnits

/-!
# Rust strings

A `str` is modelled by its Unicode scalar values. Offsets into it are byte offsets of its
UTF-8 form: `get` answers `none` between the bytes of one character, where indexing panics.
ASCII case folding leaves every other character alone.
-/

namespace Onecli.Gateway

open CodeUnits List Char

/-- A Rust `str` or `String`. -/
abbrev Str := List Char

/-- `str::len`: the number of UTF-8 bytes. -/
def byteLen (s : Str) : ℕ := width utf8Size s

/-- `str::as_bytes`. -/
def asBytes (s : Str) : List UInt8 := encode String.utf8EncodeChar s

/-- `str::get(..n)`; the slice `s[..n]` panics where this is `none`. -/
def getTo (s : Str) (n : ℕ) : Option Str := sliceTo utf8Size s n

/-- `str::get(n..)`; the slice `s[n..]` panics where this is `none`. -/
def getFrom (s : Str) (n : ℕ) : Option Str := sliceFrom utf8Size s n

/-- `str::to_ascii_lowercase`. -/
def toAsciiLowercase (s : Str) : Str := s.map toLower

/-- `str::to_ascii_uppercase`. -/
def toAsciiUppercase (s : Str) : Str := s.map toUpper

/-- `str::eq_ignore_ascii_case`. -/
def eqIgnoreAsciiCase (a b : Str) : Bool := toAsciiLowercase a == toAsciiLowercase b

/-- `char::is_whitespace`: the Unicode property `White_Space`. -/
def isWhitespace (c : Char) : Bool :=
  let v := c.toNat
  (0x9 ≤ v && v ≤ 0xD) || v == 0x20 || v == 0x85 || v == 0xA0 || v == 0x1680 ||
    (0x2000 ≤ v && v ≤ 0x200A) || v == 0x2028 || v == 0x2029 || v == 0x202F || v == 0x205F || v == 0x3000

/-- `str::trim`. -/
def trim (s : Str) : Str := (s.dropWhile isWhitespace).rdropWhile isWhitespace

/-- `str::contains` of a string. -/
def containsStr (s needle : Str) : Bool := decide (needle <:+: s)

/-- A successful `get(..n)` is the beginning of the string that is `n` bytes long. -/
theorem getTo_eq_some_iff (s : Str) (n : ℕ) (p : Str) :
    getTo s n = some p ↔ p <+: s ∧ byteLen p = n :=
  sliceTo_eq_some_iff utf8Size_pos s n p

/-- A successful `get(n..)` is what remains of the string past `n` bytes. -/
theorem getFrom_eq_some_iff (s : Str) (n : ℕ) (r : Str) :
    getFrom s n = some r ↔ ∃ p, p ++ r = s ∧ byteLen p = n :=
  sliceFrom_eq_some_iff utf8Size_pos s n r

theorem utf8Size_of_ascii {c : Char} (h : c.toNat ≤ 127) : c.utf8Size = 1 := by
  rw [utf8Size_eq_one_iff]
  exact h

theorem toNat_of_mem_utf8EncodeChar {c : Char} {u : UInt8} (hu : u ∈ String.utf8EncodeChar c)
    (hsmall : u.toNat < 128) : c.val.toNat = u.toNat := by
  -- every byte of a longer block is a number with the high bit set
  have hlong {n : ℕ} (hn : 128 ≤ n) (hbyte : n < 256) (heq : u = UInt8.ofNat n) : False := by
    rw [heq, UInt8.toNat_ofNat'] at hsmall
    omega
  unfold String.utf8EncodeChar at hu
  dsimp only at hu
  split_ifs at hu with h1 h2 h3
  · rw [mem_singleton.mp hu]
    exact (Nat.mod_eq_of_lt (by omega)).symm
  · simp only [mem_cons, not_mem_nil, or_false] at hu
    rcases hu with heq | heq <;> exact (hlong (by omega) (by omega) heq).elim
  · simp only [mem_cons, not_mem_nil, or_false] at hu
    rcases hu with heq | heq | heq <;> exact (hlong (by omega) (by omega) heq).elim
  · simp only [mem_cons, not_mem_nil, or_false] at hu
    rcases hu with heq | heq | heq | heq <;> exact (hlong (by omega) (by omega) heq).elim

theorem utf8EncodeChar_of_ascii {c : Char} (h : c.toNat ≤ 127) : String.utf8EncodeChar c = [c.val.toUInt8] :=
  String.utf8EncodeChar_eq_singleton (utf8Size_of_ascii h)

/-- An ASCII character is its own byte. -/
theorem asBytes_cons_of_ascii {c : Char} (h : c.toNat ≤ 127) (s : Str) :
    asBytes (c :: s) = c.val.toUInt8 :: asBytes s := by
  rw [asBytes, encode_cons, utf8EncodeChar_of_ascii h]
  rfl

/-- The letters that are lowered. -/
theorem toNat_toLower (c : Char) :
    c.toLower.toNat = if 65 ≤ c.toNat ∧ c.toNat ≤ 90 then c.toNat + 32 else c.toNat := by
  have hcond : (c.val ≥ 'A'.val ∧ c.val ≤ 'Z'.val) ↔ 65 ≤ c.toNat ∧ c.toNat ≤ 90 := by
    exact Iff.rfl
  unfold toLower
  split
  · next h =>
    have hrange := hcond.mp h
    rw [if_pos hrange]
    change (c.val + ('a'.val - 'A'.val)).toNat = c.val.toNat + 32
    refine Nat.mod_eq_of_lt ?_
    change c.toNat + 32 < 2 ^ 32
    omega
  · next h => rw [if_neg fun hrange => h (hcond.mpr hrange)]

/-- Lowering twice is lowering once. -/
theorem toLower_toLower (c : Char) : c.toLower.toLower = c.toLower := by
  apply ext
  apply UInt32.toNat_inj.mp
  have hlower := toNat_toLower c
  have htwice := toNat_toLower c.toLower
  change c.toLower.toLower.toNat = c.toLower.toNat
  rw [htwice]
  split_ifs at hlower ⊢ <;> omega

/-- Lowering twice is lowering once. -/
theorem toAsciiLowercase_toAsciiLowercase (s : Str) :
    toAsciiLowercase (toAsciiLowercase s) = toAsciiLowercase s := by
  rw [toAsciiLowercase, toAsciiLowercase, map_map]
  exact map_congr_left fun c _ => toLower_toLower c

theorem utf8Size_toLower (c : Char) : c.toLower.utf8Size = c.utf8Size := by
  by_cases h : 65 ≤ c.toNat ∧ c.toNat ≤ 90
  · have hlower := toNat_toLower c
    rw [if_pos h] at hlower
    rw [utf8Size_of_ascii (by omega), utf8Size_of_ascii (by omega)]
  · have hsame : c.toLower = c := by
      have hlower := toNat_toLower c
      rw [if_neg h] at hlower
      exact ext (UInt32.toNat_inj.mp hlower)
    rw [hsame]

/-- Lowering keeps the length. -/
theorem byteLen_toAsciiLowercase (s : Str) : byteLen (toAsciiLowercase s) = byteLen s := by
  induction s with
  | nil => rfl
  | cons c s ih =>
    simp only [byteLen, toAsciiLowercase, map_cons, width_cons] at ih ⊢
    rw [utf8Size_toLower, ih]

theorem eqIgnoreAsciiCase_iff (a b : Str) :
    eqIgnoreAsciiCase a b = true ↔ toAsciiLowercase a = toAsciiLowercase b := by
  simp [eqIgnoreAsciiCase]

/-! ## Lossy UTF-8 decoding

`String::from_utf8_lossy`: well-formed sequences give their characters, and every maximal
beginning of a sequence that is cut short or broken gives one U+FFFD.
-/

/-- A continuation byte. -/
def isContinuation (b : UInt8) : Bool := 0x80 ≤ b && b ≤ 0xBF

/-- The second bytes that can follow the first byte of a three or four byte sequence. -/
def secondByteOk (first second : UInt8) : Bool :=
  if first = 0xE0 then 0xA0 ≤ second && second ≤ 0xBF
  else if first = 0xED then 0x80 ≤ second && second ≤ 0x9F
  else if first = 0xF0 then 0x90 ≤ second && second ≤ 0xBF
  else if first = 0xF4 then 0x80 ≤ second && second ≤ 0x8F
  else 0xE1 ≤ first && first ≤ 0xF3 && isContinuation second

/-- How many bytes after the first belong to a broken sequence. -/
def brokenTail (first : UInt8) (rest : List UInt8) : ℕ :=
  match rest with
  | [] => 0
  | second :: rest =>
    if secondByteOk first second then
      if 0xF0 ≤ first && rest.head?.any isContinuation then 2 else 1
    else 0

/-- The decoding loop; the number bounds the bytes that are left. -/
def decodeLossy : ℕ → List UInt8 → Str
  | 0, _ => []
  | _, [] => []
  | n + 1, first :: rest =>
    match (first :: rest).toByteArray.utf8DecodeChar? 0 with
    | some c => c :: decodeLossy n (rest.drop (c.utf8Size - 1))
    | none => '\uFFFD' :: decodeLossy n (rest.drop (brokenTail first rest))

/-- `String::from_utf8_lossy`. -/
def fromUtf8Lossy (bytes : List UInt8) : Str := decodeLossy bytes.length bytes

theorem decodeLossy_nil (n : ℕ) : decodeLossy n [] = [] := by
  cases n with
  | zero => rfl
  | succ => rfl

theorem decodeLossy_asBytes_append (s : Str) (after : List UInt8) (n : ℕ) (hn : (asBytes s ++ after).length ≤ n) :
    decodeLossy n (asBytes s ++ after) = s ++ decodeLossy (n - s.length) after := by
  induction s generalizing n with
  | nil => rfl
  | cons c s ih =>
    obtain ⟨b, bs, hblock⟩ : ∃ b bs, String.utf8EncodeChar c = b :: bs := by
      refine exists_cons_of_ne_nil ?_
      rw [← length_pos_iff, String.length_utf8EncodeChar]
      exact c.utf8Size_pos
    have hsize : bs.length = c.utf8Size - 1 := by
      have hlen := String.length_utf8EncodeChar c
      rw [hblock, length_cons] at hlen
      omega
    have hbytes : asBytes (c :: s) ++ after = b :: (bs ++ (asBytes s ++ after)) := by
      rw [asBytes, encode_cons, hblock, append_assoc]
      rfl
    have hdecode : (b :: (bs ++ (asBytes s ++ after))).toByteArray.utf8DecodeChar? 0 = some c := by
      rw [← cons_append, ← hblock, toByteArray_append]
      exact ByteArray.utf8DecodeChar?_utf8EncodeChar_append
    rw [hbytes] at hn ⊢
    cases n with
    | zero => simp at hn
    | succ n =>
      rw [length_cons, length_append] at hn
      rw [decodeLossy, hdecode]
      dsimp only
      rw [← hsize, drop_left, ih n (by omega), length_cons, Nat.add_sub_add_right, cons_append]

/-- Decoding a text's bytes gives the text. -/
theorem fromUtf8Lossy_asBytes (s : Str) : fromUtf8Lossy (asBytes s) = s := by
  have hdecode := decodeLossy_asBytes_append s [] (asBytes s).length (Nat.le_of_eq (by rw [append_nil]))
  rw [append_nil] at hdecode
  rw [fromUtf8Lossy, hdecode, decodeLossy_nil, append_nil]

end Onecli.Gateway
