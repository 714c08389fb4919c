import Onecli.Gateway.Text

/-!
# The gateway's host matcher

`common::util::host_matches` and `strip_port`. A pattern with at most one `*` is a case
insensitive prefix/suffix split over the whole host; one with two or more is matched label
by label. Slices are taken with `get`, so a cut inside a character fails to match and never
panics.
-/

namespace Onecli.Gateway

open CodeUnits

/-- One host label against one pattern label: literal, or one `*` for at least one character. -/
def labelMatches (hostLabel patternLabel : Str) : Bool :=
  if hostLabel.isEmpty then false
  else match splitOnce '*' patternLabel with
    | none => eqIgnoreAsciiCase hostLabel patternLabel
    | some (front, back) =>
      -- a second `*` in the same label is refused
      if back.contains '*' then false
      else decide (byteLen front + byteLen back < byteLen hostLabel) &&
        (getTo hostLabel (byteLen front)).any (eqIgnoreAsciiCase · front) &&
        (getFrom hostLabel (byteLen hostLabel - byteLen back)).any (eqIgnoreAsciiCase · back)

/-- The two label iterators walked together, both of which have to end at the same time. -/
def labelsMatch : List Str → List Str → Bool
  | hostLabel :: hostLabels, patternLabel :: patternLabels =>
    labelMatches hostLabel patternLabel && labelsMatch hostLabels patternLabels
  | [], [] => true
  | _, _ => false

/-- Label-bounded matching of a pattern with two or more wildcards. -/
def multiWildcardMatches (requestHost pattern : Str) : Bool :=
  labelsMatch (requestHost.splitOn '.') (pattern.splitOn '.')

/-- `host_matches`: the two regimes, split on the number of wildcards. -/
def hostMatches (requestHost pattern : Str) : Bool :=
  if 2 ≤ pattern.count '*' then multiWildcardMatches requestHost pattern
  else match splitOnce '*' pattern with
    | none => eqIgnoreAsciiCase requestHost pattern
    | some (front, back) =>
      decide (byteLen front + byteLen back ≤ byteLen requestHost) &&
        (getTo requestHost (byteLen front)).any (eqIgnoreAsciiCase · front) &&
        (getFrom requestHost (byteLen requestHost - byteLen back)).any (eqIgnoreAsciiCase · back)

/-- `strip_port`: the text before the first `:`. -/
def stripPort (host : Str) : Str := host.takeWhile (· ≠ ':')

/-- The beginning and the end of a string match up to ASCII case exactly when the folded
string begins and ends with the folded pieces. -/
theorem get_ends_match_iff (s front back : Str) :
    ((getTo s (byteLen front)).any (eqIgnoreAsciiCase · front) = true ∧
        (getFrom s (byteLen s - byteLen back)).any (eqIgnoreAsciiCase · back) = true ∧ byteLen back ≤ byteLen s) ↔
      toAsciiLowercase front <+: toAsciiLowercase s ∧ toAsciiLowercase back <:+ toAsciiLowercase s := by
  have hfront : (getTo s (byteLen front)).any (eqIgnoreAsciiCase · front) = true ↔
      toAsciiLowercase front <+: toAsciiLowercase s := by
    simp only [Option.any_eq_true, getTo_eq_some_iff, eqIgnoreAsciiCase_iff]
    constructor
    · rintro ⟨p, ⟨hbegins, -⟩, hfold⟩
      exact hfold ▸ hbegins.map _
    · intro hbegins
      obtain ⟨rest, hrest⟩ := hbegins
      obtain ⟨p, r, rfl, hp, -⟩ := List.map_eq_append_iff.mp hrest.symm
      refine ⟨p, ⟨⟨r, rfl⟩, ?_⟩, hp⟩
      rw [← byteLen_toAsciiLowercase p, ← byteLen_toAsciiLowercase front]
      exact congrArg byteLen hp
  have hback : ((getFrom s (byteLen s - byteLen back)).any (eqIgnoreAsciiCase · back) = true ∧
      byteLen back ≤ byteLen s) ↔ toAsciiLowercase back <:+ toAsciiLowercase s := by
    simp only [Option.any_eq_true, getFrom_eq_some_iff, eqIgnoreAsciiCase_iff]
    constructor
    · rintro ⟨⟨r, ⟨p, rfl, -⟩, hfold⟩, -⟩
      exact hfold ▸ List.IsSuffix.map _ ⟨p, rfl⟩
    · rintro ⟨rest, hrest⟩
      obtain ⟨p, r, rfl, -, hr⟩ := List.map_eq_append_iff.mp hrest.symm
      have hlen : byteLen r = byteLen back := by
        rw [← byteLen_toAsciiLowercase r, ← byteLen_toAsciiLowercase back]
        exact congrArg byteLen hr
      have htotal : byteLen (p ++ r) = byteLen p + byteLen r := width_append _ p r
      exact ⟨⟨r, ⟨p, rfl, by omega⟩, hr⟩, by omega⟩
  rw [← and_assoc, and_assoc, hfront, hback]

/-! ## The gateway's path matcher

`inject::path_matches`, the matcher behind injection rules, policy rules and catalog tools.
`has_mid_path_wildcard` indexes the pattern one byte before its end, which panics when the
last character of the pattern takes several bytes. A panic is `none` here, and every caller
of the matcher passes it on.
-/

open List Option

/-- `str::strip_suffix`. -/
def stripSuffix (s back : Str) : Option Str := s.dropSuffix? back

/-- A suffix that is cut off. -/
theorem stripSuffix_eq_some_iff (s back front : Str) :
    stripSuffix s back = some front ↔ s = front ++ back := by
  simp [stripSuffix, dropSuffix?_eq_some_iff]

/-- `strip_suffix` answers nothing exactly when the string does not end so. -/
theorem stripSuffix_eq_none_iff {s back : Str} : stripSuffix s back = none ↔ ¬ back <:+ s := by
  rw [eq_none_iff_forall_ne_some]
  constructor
  · rintro h ⟨front, rfl⟩
    exact h front ((stripSuffix_eq_some_iff _ _ front).mpr rfl)
  · intro h front hfront
    exact h ⟨front, ((stripSuffix_eq_some_iff _ _ front).mp hfront).symm⟩

/-- `split('?').next()`: the path without its query string. -/
def withoutQuery (path : Str) : Str := path.takeWhile (· ≠ '?')

/-- A `*` before the last byte of the pattern; `none` is the panic of `pattern[..len - 1]`. -/
def hasMidPathWildcard (pattern : Str) : Option Bool :=
  if 1 < byteLen pattern then (getTo pattern (byteLen pattern - 1)).map (·.contains '*')
  else some false

/-- One path segment against one pattern segment with at most one effective `*`. -/
def segmentMatches (segment pattern : Str) : Bool :=
  match splitOnce '*' pattern with
  | none => segment == pattern
  | some (front, back) =>
    front.isPrefixOf segment && back.isSuffixOf segment &&
      decide (byteLen front + byteLen back ≤ byteLen segment)

/-- Segment-wise matching; a trailing `*` takes one or more of the remaining segments. -/
def segmentWildcardMatches (path pattern : Str) : Bool :=
  let pathSegs := path.splitOn '/'
  let patSegs := pattern.splitOn '/'
  -- a pattern ending in `/` also accepts the same path without its trailing slash
  let pathSegs :=
    if 1 < patSegs.length && patSegs.getLast? == some [] && pathSegs.getLast? != some [] &&
        pathSegs.length + 1 == patSegs.length then pathSegs ++ [[]]
    else pathSegs
  let trailingWild := patSegs.getLast? == some ['*']
  let fixedPats := if trailingWild then patSegs.dropLast else patSegs
  if trailingWild then
    if pathSegs.length < fixedPats.length + 1 then false
    else (fixedPats.zip pathSegs).all fun (pat, seg) => segmentMatches seg pat
  else if pathSegs.length ≠ patSegs.length then false
  else (fixedPats.zip pathSegs).all fun (pat, seg) => segmentMatches seg pat

/-- `path_matches`: the five pattern forms, tried in order. -/
def pathMatches (requestPath pattern : Str) : Option Bool := do
  let path := withoutQuery requestPath
  if pattern = "*".toList then return true
  if ← hasMidPathWildcard pattern then return segmentWildcardMatches path pattern
  match stripSuffix pattern "/*".toList with
  | some front =>
    return path == front ||
      (front.isPrefixOf path && (asBytes path)[byteLen front]? == some 0x2F)
  | none =>
    match stripSuffix pattern "*".toList with
    | some front => return front.isPrefixOf path
    | none => return path == pattern

/-- A pattern whose last character is ASCII, or which is empty. -/
def EndsInAscii (pattern : Str) : Prop := ∀ c ∈ pattern.getLast?, c.utf8Size = 1

instance (pattern : Str) : Decidable (EndsInAscii pattern) :=
  inferInstanceAs (Decidable (∀ c ∈ pattern.getLast?, c.utf8Size = 1))

/-- Cutting one byte off the end succeeds exactly when the last character is one byte long,
and then leaves the pattern without its last character. -/
theorem getTo_byteLen_sub_one (pattern : Str) (hne : pattern ≠ []) :
    getTo pattern (byteLen pattern - 1) = if EndsInAscii pattern then some pattern.dropLast else none := by
  obtain ⟨front, c, rfl⟩ := (eq_nil_or_concat pattern).resolve_left hne
  rw [concat_eq_append]
  have hlen : byteLen (front ++ [c]) = byteLen front + c.utf8Size := by simp [byteLen]
  have hpos := Char.utf8Size_pos c
  by_cases hc : c.utf8Size = 1
  · rw [if_pos (by simpa [EndsInAscii] using hc), getTo_eq_some_iff]
    simp only [dropLast_concat, prefix_append, true_and]
    omega
  · rw [if_neg (by simpa [EndsInAscii] using hc)]
    rw [eq_none_iff_forall_ne_some]
    intro p hp
    obtain ⟨hbegins, hwidth⟩ := (getTo_eq_some_iff _ _ _).mp hp
    -- a proper beginning misses the whole last character, so it is too short
    rcases prefix_concat_iff.mp hbegins with rfl | hshort
    · omega
    · obtain ⟨rest, rfl⟩ := hshort
      have hsplit : byteLen (p ++ rest) = byteLen p + byteLen rest := width_append _ p rest
      omega

/-- `has_mid_path_wildcard` returns exactly for patterns that end in an ASCII character. -/
theorem hasMidPathWildcard_eq (pattern : Str) :
    hasMidPathWildcard pattern = if EndsInAscii pattern then some (pattern.dropLast.contains '*') else none := by
  rcases eq_nil_or_concat pattern with rfl | ⟨front, c, rfl⟩
  · rfl
  · rw [concat_eq_append]
    have hpos := Char.utf8Size_pos c
    have hlen : byteLen (front ++ [c]) = byteLen front + c.utf8Size := by simp [byteLen]
    unfold hasMidPathWildcard
    by_cases hlong : 1 < byteLen (front ++ [c])
    · rw [if_pos hlong, getTo_byteLen_sub_one _ (by simp)]
      split <;> rfl
    · have hfront : front = [] := by
        by_contra hne
        have : 0 < byteLen front := (width_pos_iff Char.utf8Size_pos front).mpr hne
        omega
      subst hfront
      rw [if_neg hlong, if_pos]
      · rfl
      · simp only [EndsInAscii, nil_append, getLast?_singleton, mem_def,
          some.injEq, forall_eq']
        omega

/-- The answer of `path_matches` where it does not panic. -/
def pathMatchesAnswer (requestPath pattern : Str) : Bool :=
  let path := withoutQuery requestPath
  if pattern = "*".toList then true
  else if pattern.dropLast.contains '*' then segmentWildcardMatches path pattern
  else match stripSuffix pattern "/*".toList with
    | some front => path == front || (front.isPrefixOf path && (asBytes path)[byteLen front]? == some 0x2F)
    | none =>
      match stripSuffix pattern "*".toList with
      | some front => front.isPrefixOf path
      | none => path == pattern

/-- `path_matches` panics exactly on a pattern that ends in a non-ASCII character, whatever
the path is. -/
theorem pathMatches_eq (path pattern : Str) :
    pathMatches path pattern = if EndsInAscii pattern then some (pathMatchesAnswer path pattern) else none := by
  unfold pathMatches pathMatchesAnswer
  by_cases hstar : pattern = "*".toList
  · subst hstar
    rfl
  · rw [hasMidPathWildcard_eq]
    by_cases hascii : EndsInAscii pattern
    · simp only [hstar, hascii, ↓reduceIte]
      by_cases hmid : '*' ∈ pattern.dropLast
      · simp [hmid]
      · cases h1 : stripSuffix pattern "/*".toList <;> cases h2 : stripSuffix pattern "*".toList <;> simp [hmid]
    · simp only [hstar, hascii, ↓reduceIte]
      rfl

theorem endsInAscii_append_star (s : Str) : EndsInAscii (s ++ "*".toList) := by
  simp [EndsInAscii]
  decide

end Onecli.Gateway
