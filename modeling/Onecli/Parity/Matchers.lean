import Onecli.Api.EndpointMatch

/-!
# The two ports of the path and host matchers

The gateway counts UTF-8 bytes and the API UTF-16 code units. Both answers are read off the
same facts about scalar values: which pieces begin and end which strings, and whether those
pieces overlap. The host matchers agree on all texts; the path matchers agree wherever the
gateway returns, which is exactly on patterns ending in an ASCII character.
-/

namespace Onecli.Parity

open Char

open CodeUnits Utf16 List Option
open Gateway (Str byteLen toAsciiLowercase)
open Api (unit asciiLower)

theorem map_asciiLowerUnit_utf16Char (c : Char) :
    (utf16Char c).map Api.asciiLowerUnit = utf16Char c.toLower := by
  have hlower := Gateway.toNat_toLower c
  by_cases hc : c.toNat < 0x10000
  · have hsmall : c.toLower.toNat < 0x10000 := by split_ifs at hlower <;> omega
    rw [utf16Char_of_lt hc, utf16Char_of_lt hsmall, map_singleton, List.cons.injEq,
      ← UInt16.toNat_inj, Api.toNat_asciiLowerUnit, toNat_toUInt16 hc, toNat_toUInt16 hsmall, hlower]
    exact ⟨rfl, rfl⟩
  · have hsame : c.toLower = c := toNat_inj.mp (by split_ifs at hlower <;> omega)
    obtain ⟨hi, lo, hblock, hhi, hlo⟩ := utf16Char_of_ge hc
    have hkeep (u : UInt16) (hu : 0xD800 ≤ u.toNat) : Api.asciiLowerUnit u = u := by
      rw [← UInt16.toNat_inj, Api.toNat_asciiLowerUnit, if_neg (by omega)]
    rw [hsame, hblock, map_cons, map_singleton, hkeep hi (by omega), hkeep lo (by omega)]

/-- Lowering agrees on both sides. -/
theorem asciiLower_utf16 (s : Str) : asciiLower (utf16 s) = utf16 (toAsciiLowercase s) := by
  induction s with
  | nil => rfl
  | cons c s ih =>
    rw [utf16_cons, Api.asciiLower_append, ih]
    exact congrArg (· ++ _) (map_asciiLowerUnit_utf16Char c)

/-- Comparing agrees on both sides. -/
theorem utf16_beq (s t : Str) : (utf16 s == utf16 t) = (s == t) := by
  rw [Bool.eq_iff_iff, beq_iff_eq, beq_iff_eq, utf16_injective.eq_iff]

theorem utf16_length (s : Str) : (utf16 s).length = width (fun c => (utf16Char c).length) s :=
  length_encode utf16Char s

section

variable (d : Char) (hd : d.toNat < 0x10000) (s : Str)
include d hd s

/-- Splitting agrees on both sides. -/
theorem splitOn_utf16 : (utf16 s).splitOn (unit d) = (s.splitOn d).map utf16 :=
  splitOn_encode (isDelimiter_utf16 d hd) s

/-- Splitting once agrees on both sides. -/
theorem splitOnce_utf16 : splitOnce (unit d) (utf16 s) = (splitOnce d s).map fun (front, back) =>
    (utf16 front, utf16 back) :=
  splitOnce_encode (isDelimiter_utf16 d hd) s

theorem contains_utf16 : (utf16 s).contains (unit d) = s.contains d := by
  rw [Bool.eq_iff_iff, contains_iff_mem, contains_iff_mem]
  exact mem_encode_iff (isDelimiter_utf16 d hd) s

end

section Segments

/-- The API's segment matcher, with the two slices around the `*` named. -/
theorem api_segmentMatches_eq (segment pattern : Api.JsString) :
    Api.segmentMatches segment pattern = match splitOnce (unit '*') pattern with
      | none => segment == pattern
      | some (front, back) => front.isPrefixOf segment && back.isSuffixOf segment &&
          decide (front.length + back.length ≤ segment.length) := by
  rw [splitOnce_eq_idxOf?, Api.segmentMatches]
  cases pattern.idxOf? (unit '*') <;> rfl

theorem segmentMatches_parity (segment pattern : Str) :
    Api.segmentMatches (utf16 segment) (utf16 pattern) = Gateway.segmentMatches segment pattern := by
  rw [api_segmentMatches_eq, splitOnce_utf16 '*' (by decide), Gateway.segmentMatches]
  match splitOnce '*' pattern with
  | none => exact utf16_beq segment pattern
  | some (front, back) =>
    rw [Bool.eq_iff_iff]
    simp only [map_some, Bool.and_eq_true, isPrefixOf_iff_prefix,
      isSuffixOf_iff_suffix, decide_eq_true_eq, utf16_length]
    have hfront : utf16 front <+: utf16 segment ↔ front <+: segment :=
      encode_prefix_iff utf16Char_selfDelimiting front segment
    have hback : utf16 back <:+ utf16 segment ↔ back <:+ segment :=
      encode_suffix_iff utf16Char_selfDelimiting back segment
    rw [hfront, hback]
    refine and_congr_right fun ⟨hbegins, hends⟩ => ?_
    rw [width_add_le_iff utf16Char_length_pos hbegins hends]
    exact (width_add_le_iff utf8Size_pos hbegins hends).symm

theorem zip_all_parity (pats segs : List Str) :
    ((pats.map utf16).zip (segs.map utf16)).all (fun (pat, seg) => Api.segmentMatches seg pat) =
      (pats.zip segs).all fun (pat, seg) => Gateway.segmentMatches seg pat := by
  rw [zip_map, List.all_map]
  congr 1
  funext ⟨pat, seg⟩
  exact segmentMatches_parity seg pat

theorem getLast?_map_utf16_beq (segs : List Str) (t : Str) :
    ((segs.map utf16).getLast? == some (utf16 t)) = (segs.getLast? == some t) := by
  rw [List.getLast?_map]
  cases segs.getLast? with
  | none => rfl
  | some last => simpa using utf16_beq last t

theorem segmentWildcardMatches_parity (path pattern : Str) :
    Api.segmentWildcardMatches (utf16 path) (utf16 pattern) = Gateway.segmentWildcardMatches path pattern := by
  have hempty (segs : List Str) :
      ((segs.map utf16).getLast? == some ([] : Api.JsString)) = (segs.getLast? == some []) :=
    getLast?_map_utf16_beq segs []
  have hstar (segs : List Str) : ((segs.map utf16).getLast? == some (js "*")) =
      (segs.getLast? == some ['*']) := getLast?_map_utf16_beq segs ['*']
  have hpush (segs : List Str) (b : Bool) :
      (if b then segs.map utf16 ++ [[]] else segs.map utf16) = (if b then segs ++ [[]] else segs).map utf16 := by
    cases b <;> simp
  unfold Api.segmentWildcardMatches Gateway.segmentWildcardMatches
  rw [splitOn_utf16 '/' (by decide), splitOn_utf16 '/' (by decide)]
  simp only [bne, hempty, hstar, hpush, length_map]
  cases (pattern.splitOn '/').getLast? == some ['*'] with
  | true => simp only [↓reduceIte, ← map_dropLast, zip_all_parity, length_map]
  | false => simp only [Bool.false_eq_true, ↓reduceIte, zip_all_parity]

end Segments

section Paths

theorem withoutQuery_utf16 (path : Str) :
    Api.withoutQuery (utf16 path) = utf16 (Gateway.withoutQuery path) :=
  takeWhile_encode (isDelimiter_utf16 '?' (by decide)) path

theorem utf16_append_ascii {c : Char} (hc : c.utf8Size = 1) (s : Str) :
    utf16 (s ++ [c]) = utf16 s ++ [unit c] := by
  have hval : c.val ≤ 127 := utf8Size_eq_one_iff.mp hc
  have hsmall : c.toNat ≤ 127 := UInt32.le_iff_toNat_le.mp hval
  rw [utf16_append, utf16_cons, utf16Char_of_lt (by omega)]
  rfl

/-- The byte after the first `n` is a slash exactly when the text goes on with one. -/
theorem asBytes_getElem?_slash (front rest : Str) :
    (Gateway.asBytes (front ++ rest))[byteLen front]? = some 0x2F ↔ ∃ back, rest = '/' :: back := by
  have hlen : (Gateway.asBytes front).length = byteLen front := by
    rw [Gateway.asBytes, length_encode]
    simp only [String.length_utf8EncodeChar]
    rfl
  rw [Gateway.asBytes, encode_append, ← Gateway.asBytes, List.getElem?_append_right (by omega), hlen, Nat.sub_self]
  cases rest with
  | nil => simp
  | cons c =>
    have hfirst : (String.utf8EncodeChar c)[0]? = some 0x2F ↔ c = '/' := by
      constructor
      · intro hbyte
        unfold String.utf8EncodeChar at hbyte
        refine toNat_inj.mp ?_
        change c.val.toNat = 47
        dsimp only at hbyte
        split_ifs at hbyte with h1 h2 h3 <;>
          simp only [List.getElem?_cons_zero, Option.some.injEq, ← UInt8.toNat_inj,
            UInt8.toNat_ofNat', UInt8.reduceToNat] at hbyte <;> omega
      · rintro rfl
        decide
    have hpos : 0 < (String.utf8EncodeChar c).length := by
      rw [String.length_utf8EncodeChar]
      exact c.utf8Size_pos
    rw [encode_cons, List.getElem?_append_left hpos, hfirst]
    simp

theorem utf16_getElem?_slash (front rest : Str) :
    (utf16 (front ++ rest))[(utf16 front).length]? = some (unit '/') ↔ ∃ back, rest = '/' :: back := by
  rw [utf16_append, List.getElem?_append_right (Nat.le_refl _), Nat.sub_self]
  cases rest with
  | nil => simp
  | cons c =>
    have hfirst : (utf16Char c)[0]? = some (unit '/') ↔ c = '/' := by
      constructor
      · intro hunit
        have hmem := (mem_utf16Char_iff (u := unit '/') (by decide)).mp (mem_of_getElem? hunit)
        exact toNat_inj.mp hmem
      · rintro rfl
        decide
    rw [utf16_cons, List.getElem?_append_left (utf16Char_length_pos c), hfirst]
    simp

/-- The answer of the prefix form `/p/*` is the same in bytes and in code units. -/
theorem boundary_parity (path front : Str) :
    (utf16 path == utf16 front || ((utf16 front).isPrefixOf (utf16 path) &&
        (utf16 path)[(utf16 front).length]? == some (unit '/'))) =
      (path == front || (front.isPrefixOf path &&
        (Gateway.asBytes path)[byteLen front]? == some 0x2F)) := by
  have hbegins : utf16 front <+: utf16 path ↔ front <+: path := encode_prefix_iff utf16Char_selfDelimiting front path
  rw [Bool.eq_iff_iff, utf16_beq]
  simp only [Bool.or_eq_true, Bool.and_eq_true, beq_iff_eq, isPrefixOf_iff_prefix, hbegins]
  refine or_congr_right (and_congr_right fun ⟨rest, hrest⟩ => ?_)
  rw [← hrest, utf16_getElem?_slash, asBytes_getElem?_slash]

/-- Looking for a `*` before the last character sees the same in both encodings. -/
theorem hasMidPathWildcard_parity (pattern : Str) (hascii : Gateway.EndsInAscii pattern) :
    Api.hasMidPathWildcard (utf16 pattern) = pattern.dropLast.contains '*' := by
  rcases eq_nil_or_concat pattern with rfl | ⟨front, c, rfl⟩
  · rfl
  · rw [concat_eq_append] at hascii ⊢
    have hc : c.utf8Size = 1 := by simpa [Gateway.EndsInAscii] using hascii
    rw [Api.hasMidPathWildcard, utf16_append_ascii hc, dropLast_concat, dropLast_concat,
      contains_utf16 '*' (by decide)]
    cases front with
    | nil => simp
    | cons d =>
      have hpos := utf16Char_length_pos d
      simp only [utf16_cons, length_append, length_singleton]
      rw [decide_eq_true (by omega), Bool.true_and]

theorem isSuffixOf_utf16_iff (back s : Str) :
    (utf16 back).isSuffixOf (utf16 s) = true ↔ back <:+ s := by
  rw [isSuffixOf_iff_suffix]
  exact encode_suffix_iff utf16Char_selfDelimiting back s

theorem take_utf16_append (front back : Str) :
    (utf16 (front ++ back)).take ((utf16 (front ++ back)).length - (utf16 back).length) = utf16 front := by
  rw [utf16_append, length_append, Nat.add_sub_cancel, take_left]

/-- Paths match alike on both sides. -/
theorem pathMatchesAnswer_parity (path pattern : Str) (hascii : Gateway.EndsInAscii pattern) :
    Api.pathMatches (utf16 path) (utf16 pattern) = Gateway.pathMatchesAnswer path pattern := by
  have hstar : utf16 pattern = js "*" ↔ pattern = "*".toList := utf16_injective.eq_iff
  have hslash : (js "/*").isSuffixOf (utf16 pattern) = true ↔ "/*".toList <:+ pattern := isSuffixOf_utf16_iff _ _
  have hany : (js "*").isSuffixOf (utf16 pattern) = true ↔ "*".toList <:+ pattern := isSuffixOf_utf16_iff _ _
  unfold Api.pathMatches Gateway.pathMatchesAnswer
  simp only [withoutQuery_utf16, hstar, hasMidPathWildcard_parity pattern hascii, segmentWildcardMatches_parity]
  by_cases hstarOnly : pattern = "*".toList
  · rw [if_pos hstarOnly, if_pos hstarOnly]
  rw [if_neg hstarOnly, if_neg hstarOnly]
  by_cases hmid : pattern.dropLast.contains '*' = true
  · rw [if_pos hmid, if_pos hmid]
  rw [if_neg hmid, if_neg hmid]
  by_cases hslashStar : "/*".toList <:+ pattern
  · -- `/p/*`: the cut pattern is the encoded beginning
    obtain ⟨front, rfl⟩ := hslashStar
    rw [if_pos (hslash.mpr (suffix_append _ _)), (Gateway.stripSuffix_eq_some_iff _ _ front).mpr rfl]
    have htake := take_utf16_append front "/*".toList
    rw [show (utf16 "/*".toList).length = 2 from rfl] at htake
    rw [htake]
    exact boundary_parity (Gateway.withoutQuery path) front
  rw [if_neg (fun h => hslashStar (hslash.mp h)), Gateway.stripSuffix_eq_none_iff.mpr hslashStar]
  by_cases hglob : "*".toList <:+ pattern
  · obtain ⟨front, rfl⟩ := hglob
    rw [if_pos (hany.mpr (suffix_append _ _)), (Gateway.stripSuffix_eq_some_iff _ _ front).mpr rfl]
    have htake := take_utf16_append front "*".toList
    rw [show (utf16 "*".toList).length = 1 from rfl] at htake
    rw [htake, Bool.eq_iff_iff, isPrefixOf_iff_prefix]
    rw [List.isPrefixOf_iff_prefix]
    exact encode_prefix_iff utf16Char_selfDelimiting front _
  rw [if_neg (fun h => hglob (hany.mp h)), Gateway.stripSuffix_eq_none_iff.mpr hglob]
  exact utf16_beq (Gateway.withoutQuery path) pattern

end Paths

section Hosts

/-- The two slices of a host, as the API takes them, match exactly when the folded host begins
and ends with the folded pieces. -/
theorem api_get_ends_match_iff (s front back : Str) :
    (asciiLower ((utf16 s).take (utf16 front).length) = asciiLower (utf16 front) ∧
        asciiLower ((utf16 s).drop ((utf16 s).length - (utf16 back).length)) = asciiLower (utf16 back)) ↔
      toAsciiLowercase front <+: toAsciiLowercase s ∧ toAsciiLowercase back <:+ toAsciiLowercase s := by
  have hlen (t : Str) : (utf16 t).length = (utf16 (toAsciiLowercase t)).length := by
    rw [← asciiLower_utf16, Api.asciiLower_length]
  have hbegins := encode_prefix_iff utf16Char_selfDelimiting (toAsciiLowercase front) (toAsciiLowercase s)
  have hends := encode_suffix_iff utf16Char_selfDelimiting (toAsciiLowercase back) (toAsciiLowercase s)
  rw [prefix_iff_eq_take] at hbegins
  rw [suffix_iff_eq_drop] at hends
  have htake (n : ℕ) : asciiLower ((utf16 s).take n) = (utf16 (toAsciiLowercase s)).take n := by
    rw [← asciiLower_utf16]
    exact map_take
  have hdrop (n : ℕ) : asciiLower ((utf16 s).drop n) = (utf16 (toAsciiLowercase s)).drop n := by
    rw [← asciiLower_utf16]
    exact map_drop
  rw [htake, hdrop, asciiLower_utf16, asciiLower_utf16, hlen front, hlen back, hlen s]
  exact and_congr (eq_comm.trans hbegins) (eq_comm.trans hends)

theorem ends_fit_parity (s front back : Str)
    (hbegins : toAsciiLowercase front <+: toAsciiLowercase s)
    (hends : toAsciiLowercase back <:+ toAsciiLowercase s) :
    ((utf16 front).length + (utf16 back).length ≤ (utf16 s).length ↔ byteLen front + byteLen back ≤ byteLen s) ∧
      ((utf16 front).length + (utf16 back).length < (utf16 s).length ↔ byteLen front + byteLen back < byteLen s) := by
  have hunits (t : Str) :
      (utf16 t).length = width (fun c => (utf16Char c).length) (toAsciiLowercase t) := by
    rw [← utf16_length, ← asciiLower_utf16, Api.asciiLower_length]
  have hbytes (t : Str) : byteLen t = width utf8Size (toAsciiLowercase t) :=
    (Gateway.byteLen_toAsciiLowercase t).symm
  simp only [hunits, hbytes]
  rw [width_add_le_iff utf16Char_length_pos hbegins hends, width_add_le_iff utf8Size_pos hbegins hends,
    width_add_lt_iff utf16Char_length_pos hbegins hends, width_add_lt_iff utf8Size_pos hbegins hends]
  exact ⟨Iff.rfl, Iff.rfl⟩

theorem asciiLower_beq_parity (s t : Str) :
    (asciiLower (utf16 s) == asciiLower (utf16 t)) = Gateway.eqIgnoreAsciiCase s t := by
  rw [asciiLower_utf16, asciiLower_utf16, utf16_beq]
  rfl

theorem labelMatches_parity (hostLabel patternLabel : Str) :
    Api.labelMatches (utf16 hostLabel) (utf16 patternLabel) = Gateway.labelMatches hostLabel patternLabel := by
  have hempty : (utf16 hostLabel).length = 0 ↔ hostLabel.isEmpty = true := by
    rw [length_eq_zero_iff, List.isEmpty_iff]
    exact encode_eq_nil_iff utf16Char_selfDelimiting hostLabel
  have hsplit := splitOnce_utf16 '*' (by decide) patternLabel
  rw [splitOnce_eq_idxOf?] at hsplit
  unfold Api.labelMatches Gateway.labelMatches
  simp only [hempty]
  by_cases hnil : hostLabel.isEmpty = true
  · rw [if_pos hnil, if_pos hnil]
  rw [if_neg hnil, if_neg hnil]
  match hstar : splitOnce '*' patternLabel with
  | none =>
    rw [hstar, map_none, map_eq_none_iff] at hsplit
    simp only [hsplit]
    exact asciiLower_beq_parity hostLabel patternLabel
  | some (front, back) =>
    rw [hstar, map_some, map_eq_some_iff] at hsplit
    obtain ⟨star, hidx, hparts⟩ := hsplit
    obtain ⟨hfront, hback⟩ := Prod.mk.inj hparts
    simp only [hidx, hfront, hback, contains_utf16 '*' (by decide)]
    by_cases hsecond : back.contains '*' = true
    · rw [if_pos hsecond, if_pos hsecond]
    rw [if_neg hsecond, if_neg hsecond, Bool.eq_iff_iff]
    simp only [Bool.and_eq_true, decide_eq_true_eq, beq_iff_eq, and_assoc]
    rw [api_get_ends_match_iff]
    constructor
    · rintro ⟨hfit, hbegins, hends⟩
      have hfit' := (ends_fit_parity hostLabel front back hbegins hends).2.mp hfit
      have hget := (Gateway.get_ends_match_iff hostLabel front back).mpr ⟨hbegins, hends⟩
      exact ⟨hfit', hget.1, hget.2.1⟩
    · rintro ⟨hfit, hgetFront, hgetBack⟩
      obtain ⟨hbegins, hends⟩ := (Gateway.get_ends_match_iff hostLabel front back).mp
        ⟨hgetFront, hgetBack, by omega⟩
      exact ⟨(ends_fit_parity hostLabel front back hbegins hends).2.mpr hfit, hbegins, hends⟩

theorem labelsMatch_parity (hostLabels patternLabels : List Str) :
    (if (hostLabels.map utf16).length ≠ (patternLabels.map utf16).length then false
      else ((hostLabels.map utf16).zip (patternLabels.map utf16)).all fun (hostLabel, patternLabel) =>
        Api.labelMatches hostLabel patternLabel) = Gateway.labelsMatch hostLabels patternLabels := by
  induction hostLabels generalizing patternLabels with
  | nil => cases patternLabels <;> simp [Gateway.labelsMatch]
  | cons hostLabel hostLabels ih =>
    cases patternLabels with
    | nil => simp [Gateway.labelsMatch]
    | cons patternLabel patternLabels =>
      rw [Gateway.labelsMatch, ← ih, ← labelMatches_parity]
      by_cases hlen : hostLabels.length = patternLabels.length <;> simp [hlen]

/-- Hosts match alike on both sides. -/
theorem hostMatches_agree (host pattern : Str) :
    Api.hostMatches (utf16 host) (utf16 pattern) = Gateway.hostMatches host pattern := by
  have hcount : (utf16 pattern).count (unit '*') = pattern.count '*' :=
    count_encode (isDelimiter_utf16 '*' (by decide)) pattern
  have hsplit := splitOnce_utf16 '*' (by decide) pattern
  rw [splitOnce_eq_idxOf?] at hsplit
  unfold Api.hostMatches Gateway.hostMatches
  simp only [hcount]
  by_cases hmany : 2 ≤ pattern.count '*'
  · rw [if_pos hmany, if_pos hmany, Api.multiWildcardMatches, splitOn_utf16 '.' (by decide),
      splitOn_utf16 '.' (by decide)]
    exact labelsMatch_parity _ _
  rw [if_neg hmany, if_neg hmany]
  match hstar : splitOnce '*' pattern with
  | none =>
    rw [hstar, map_none, map_eq_none_iff] at hsplit
    simp only [hsplit]
    exact asciiLower_beq_parity host pattern
  | some (front, back) =>
    rw [hstar, map_some, map_eq_some_iff] at hsplit
    obtain ⟨star, hidx, hparts⟩ := hsplit
    obtain ⟨hfront, hback⟩ := Prod.mk.inj hparts
    simp only [hidx, hfront, hback]
    rw [Bool.eq_iff_iff]
    simp only [Bool.and_eq_true, decide_eq_true_eq, beq_iff_eq, and_assoc]
    rw [api_get_ends_match_iff]
    constructor
    · rintro ⟨hfit, hbegins, hends⟩
      have hfit' := (ends_fit_parity host front back hbegins hends).1.mp hfit
      have hget := (Gateway.get_ends_match_iff host front back).mpr ⟨hbegins, hends⟩
      exact ⟨hfit', hget.1, hget.2.1⟩
    · rintro ⟨hfit, hgetFront, hgetBack⟩
      obtain ⟨hbegins, hends⟩ := (Gateway.get_ends_match_iff host front back).mp
        ⟨hgetFront, hgetBack, by omega⟩
      exact ⟨(ends_fit_parity host front back hbegins hends).1.mpr hfit, hbegins, hends⟩

end Hosts

/-- The gateway's two matchers return the API's two answers exactly when the path pattern ends
in an ASCII character or is empty; on every other path pattern the gateway panics. -/
theorem matchers_parity_iff (path pattern host hostPattern : Str) :
    (Gateway.pathMatches path pattern = some (Api.pathMatches (utf16 path) (utf16 pattern)) ∧
        Gateway.hostMatches host hostPattern = Api.hostMatches (utf16 host) (utf16 hostPattern)) ↔
      Gateway.EndsInAscii pattern := by
  rw [Gateway.pathMatches_eq, hostMatches_agree]
  constructor
  · rintro ⟨hpath, -⟩
    by_contra hascii
    rw [if_neg hascii] at hpath
    cases hpath
  · intro hascii
    rw [if_pos hascii, pathMatchesAnswer_parity path pattern hascii]
    exact ⟨rfl, rfl⟩

/-- A pattern ending in `é` panics the gateway where the API answers. -/
theorem matchers_disagree_on_accent :
    ¬ (Gateway.pathMatches "/caf".toList "/café".toList = some (Api.pathMatches (js "/caf") (js "/café")) ∧
        Gateway.hostMatches "a".toList "a".toList = Api.hostMatches (js "a") (js "a")) := by
  decide

end Onecli.Parity
