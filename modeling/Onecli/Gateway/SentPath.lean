import Onecli.Foundation.UrlPath
import Onecli.Gateway.Matchers

/-!
# The path that the upstream receives

`forward_request` of `proxy/src/forward.rs` judges the path of the request as it arrived and
sends the request to `{scheme}://{host}{path}`, which the client library parses as a URL. A
target is what the `http` crate hands on as `path_and_query`: it starts with the path or, in
absolute form without one, with the query, and holds no space or control character. The
asterisk of `OPTIONS *` names no path and is left out.
-/

namespace Onecli.Gateway

open CodeUnits UrlPath List Option Nat

/-- A request target that the proxy accepts. -/
structure RequestTarget where
  text : Str
  starts : text.head? = some '/' ∨ text.head? = some '?'
  printable : ∀ c ∈ text, 0x20 < c.toNat

/-- The request target that the upstream receives. -/
def sentTarget (target : Str) : Str := urlPath target ++ urlQuery target

/-- The path of a target is in the form that the URL parser leaves as it is. -/
def RequestTarget.Plain (target : RequestTarget) : Prop := PlainPath (withoutQuery target.text)

/-- A request target has no tabs. -/
theorem RequestTarget.withoutTabs_text (target : RequestTarget) : withoutTabs target.text = target.text := by
  refine filter_eq_self.mpr fun c hc => decide_eq_true fun htab => ?_
  have hprintable := target.printable c hc
  have hcontrol : ∀ d ∈ "\t\n\r".toList, d.toNat ≤ 0x20 := by decide
  exact absurd (hcontrol c htab) (not_le.mpr hprintable)

/-- What is cut off ends the path. -/
theorem exists_endsPath (text : Str) : ∃ rest, text = withoutQuery text ++ rest ∧ EndsPath rest := by
  induction text with
  | nil => exact ⟨[], rfl, .inl rfl⟩
  | cons c text ih =>
    by_cases hc : c = '?'
    · refine ⟨c :: text, ?_, .inr ⟨text, by rw [hc]⟩⟩
      rw [withoutQuery, takeWhile_cons_of_neg (by simp [hc])]
      rfl
    · obtain ⟨rest, htext, hrest⟩ := ih
      refine ⟨rest, ?_, hrest⟩
      rw [withoutQuery, takeWhile_cons_of_pos (by simp [hc])]
      exact congrArg (c :: ·) htext

theorem endsPath_urlQuery (input : Str) : EndsPath (urlQuery input) := by
  unfold urlQuery
  split
  · exact .inl rfl
  · exact .inr ⟨_, rfl⟩

/-- The path that is sent is the URL's. -/
theorem withoutQuery_sentTarget (target : Str) : withoutQuery (sentTarget target) = urlPath target := by
  have hpath : ∀ c ∈ urlPath target, decide (c ≠ '?') = true := by
    intro c hc
    refine decide_eq_true fun hquery => ?_
    exact not_mem_of_plain (plainPath_urlPath target) (c := '?') (by decide) (by decide) (hquery ▸ hc)
  rw [withoutQuery, sentTarget, takeWhile_append_of_pos hpath]
  rcases endsPath_urlQuery target with hnone | ⟨query, hquery⟩
  · rw [hnone, takeWhile_nil, append_nil]
  · rw [hquery, takeWhile_cons_of_neg (by decide), append_nil]

section Probes

theorem splitOn_serialize {s : Str} {segs : List Str} (hs : '/' ∉ s) (hsegs : ∀ t ∈ segs, '/' ∉ t) :
    (s ++ serialize segs).splitOn '/' = s :: segs := by
  induction segs generalizing s with
  | nil =>
    rw [CodeUnits.splitOn_append_of_not_mem s hs]
    exact congrArg (· :: []) (append_nil s)
  | cons t segs ih =>
    have hrest : serialize (t :: segs) = '/' :: (t ++ serialize segs) := rfl
    rw [CodeUnits.splitOn_append_of_not_mem s hs, hrest, splitOn_cons_eq_if_modifyHead,
      ih (hsegs t mem_cons_self) fun u hu => hsegs u (mem_cons_of_mem t hu)]
    exact congrArg (· :: t :: segs) (append_nil s)

/-- A pattern of segments whose first is a `*`. -/
def starPattern (pats : List Str) : Str := "*".toList ++ serialize pats

/-- A pattern of several segments whose first is a `*` is matched segment by segment. -/
theorem pathMatchesAnswer_starPattern (target : Str) {pats : List Str} (hne : pats ≠ []) :
    pathMatchesAnswer target (starPattern pats) =
      segmentWildcardMatches (withoutQuery target) (starPattern pats) := by
  obtain ⟨p, pats, rfl⟩ := exists_cons_of_ne_nil hne
  have hpat : starPattern (p :: pats) = '*' :: '/' :: (p ++ serialize pats) := rfl
  have hmid : (starPattern (p :: pats)).dropLast.contains '*' = true := by
    rw [hpat]
    simp
  have hstar : starPattern (p :: pats) ≠ "*".toList := by
    intro h
    cases (List.cons.inj (hpat.symm.trans h)).2
  unfold pathMatchesAnswer
  rw [if_neg hstar, if_pos hmid]

/-- A star matches every segment. -/
theorem segmentMatches_star (segment : Str) : segmentMatches segment "*".toList = true := by
  have hsplit : splitOnce '*' "*".toList = some ([], []) := by decide
  unfold segmentMatches
  rw [hsplit]
  simp [byteLen]

theorem segmentMatches_star_append (segment back : Str) :
    segmentMatches segment ('*' :: back) = true ↔ back <:+ segment := by
  have hsplit : splitOnce '*' ('*' :: back) = some ([], back) := by simp [splitOnce]
  unfold segmentMatches
  rw [hsplit]
  simp only [isPrefixOf_nil_left, Bool.true_and, Bool.and_eq_true, isSuffixOf_iff_suffix, decide_eq_true_eq]
  constructor
  · exact fun h => h.1
  · intro h
    obtain ⟨front, rfl⟩ := h
    refine ⟨suffix_append _ _, ?_⟩
    have hwidth : byteLen (front ++ back) = byteLen front + byteLen back := width_append _ front back
    have hempty : byteLen [] = 0 := rfl
    omega

theorem all_zip_replicate_star (segs : List Str) (i : ℕ) (hi : i < segs.length) (p : Str) :
    ((List.replicate i "*".toList ++ [p]).zip segs).all (fun (pat, seg) => segmentMatches seg pat) =
      segmentMatches segs[i] p := by
  induction i generalizing segs with
  | zero =>
    cases segs with
    | nil => exact absurd hi (not_lt_zero 0)
    | cons => simp
  | succ i ih =>
    cases segs with
    | nil => exact absurd hi (not_lt_zero _)
    | cons s segs =>
      have hi' : i < segs.length := lt_of_succ_lt_succ hi
      have hrest := ih segs hi'
      rw [replicate_succ, cons_append, zip_cons_cons, all_cons, hrest]
      change (segmentMatches s "*".toList && segmentMatches segs[i] p) = segmentMatches segs[i] p
      rw [segmentMatches_star, Bool.true_and]

theorem all_zip_replicate_stars (segs : List Str) (i : ℕ) :
    ((List.replicate i "*".toList).zip segs).all (fun (pat, seg) => segmentMatches seg pat) = true := by
  induction i generalizing segs with
  | zero => rfl
  | succ i ih =>
    cases segs with
    | nil => rfl
    | cons s =>
      rw [replicate_succ, zip_cons_cons, all_cons, ih]
      exact segmentMatches_star s

theorem answer_trailing {target first : Str} {segs pats : List Str}
    (htarget : (withoutQuery target).splitOn '/' = first :: segs) (hpats : ∀ p ∈ pats, '/' ∉ p) :
    pathMatchesAnswer target (starPattern (pats ++ ["*".toList])) =
      (decide (pats.length < segs.length) &&
        (pats.zip segs).all fun (pat, seg) => segmentMatches seg pat) := by
  have hsplit : (starPattern (pats ++ ["*".toList])).splitOn '/' = "*".toList :: (pats ++ ["*".toList]) := by
    refine splitOn_serialize (by decide) fun p hp => ?_
    rcases mem_append.mp hp with hp | hp
    · exact hpats p hp
    · obtain rfl := mem_singleton.mp hp
      decide
  have hlast : ("*".toList :: (pats ++ ["*".toList])).getLast? = some "*".toList := by
    rw [← cons_append, List.getLast?_concat]
  have hfixed : ("*".toList :: (pats ++ ["*".toList])).dropLast = "*".toList :: pats := by
    rw [← cons_append, dropLast_concat]
  rw [pathMatchesAnswer_starPattern target (by simp)]
  unfold segmentWildcardMatches
  rw [hsplit, htarget]
  dsimp only
  rw [hlast, hfixed]
  have hnoslash : (some "*".toList == some ([] : Str)) = false := by decide
  have hstar : (some "*".toList == some ['*']) = true := by decide
  rw [hnoslash, hstar, Bool.and_false, Bool.false_and, Bool.false_and, if_neg Bool.false_ne_true, if_pos rfl,
    if_pos rfl, zip_cons_cons, all_cons, segmentMatches_star]
  by_cases hlt : pats.length < segs.length
  · rw [if_neg (by simp; omega), decide_eq_true hlt, Bool.true_and]
  · rw [if_pos (by simp; omega), decide_eq_false hlt, Bool.false_and]

/-- A pattern without a `*` at the end is matched segment by segment. -/
theorem answer_exact {target first p : Str} {segs pats : List Str}
    (htarget : (withoutQuery target).splitOn '/' = first :: segs) (hpats : ∀ q ∈ pats, '/' ∉ q)
    (hp : '/' ∉ p) (hstar : p ≠ "*".toList) (hlen : segs.length = pats.length + 1) :
    pathMatchesAnswer target (starPattern (pats ++ [p])) =
      ((pats ++ [p]).zip segs).all fun (pat, seg) => segmentMatches seg pat := by
  have hsplit : (starPattern (pats ++ [p])).splitOn '/' = "*".toList :: (pats ++ [p]) := by
    refine splitOn_serialize (by decide) fun q hq => ?_
    rcases mem_append.mp hq with hq | hq
    · exact hpats q hq
    · exact mem_singleton.mp hq ▸ hp
  have hlast : ("*".toList :: (pats ++ [p])).getLast? = some p := by
    rw [← cons_append, List.getLast?_concat]
  have hnostar : (some p == some ['*']) = false := by
    rw [beq_eq_false_iff_ne]
    exact fun h => hstar (some.inj h)
  rw [pathMatchesAnswer_starPattern target (by simp)]
  unfold segmentWildcardMatches
  rw [hsplit, htarget]
  dsimp only
  rw [hlast, hnostar]
  have hpush : ((first :: segs).length + 1 == ("*".toList :: (pats ++ [p])).length) = false := by
    simp
    omega
  rw [hpush, Bool.and_false, if_neg Bool.false_ne_true, if_neg Bool.false_ne_true,
    if_neg Bool.false_ne_true, if_neg (by simp; omega), zip_cons_cons, all_cons, segmentMatches_star, Bool.true_and]

/-- Two segments that differ are told apart by `*` and one of them. -/
theorem exists_back {x y : Str} (hne : x ≠ y) : ¬ x <:+ y ∨ ¬ y <:+ x := by
  by_contra h
  rw [not_or, not_not, not_not] at h
  exact hne (h.1.eq_of_length (le_antisymm h.1.length_le h.2.length_le))

theorem exists_last {x y : Str} (hne : x ≠ y) (hy : ∀ c ∈ y, c.utf8Size = 1) :
    ∃ p : Str, p ≠ "*".toList ∧ (∀ c ∈ p.getLast?, c.utf8Size = 1) ∧
      (p ⊆ '*' :: x ∨ p ⊆ '*' :: y) ∧ segmentMatches x p ≠ segmentMatches y p := by
  have hstar (z w : Str) (hz : ¬ z <:+ w) :
      '*' :: z ≠ "*".toList ∧ ('*' :: z).getLast? = z.getLast? ∧
        segmentMatches z ('*' :: z) ≠ segmentMatches w ('*' :: z) := by
    have hnil : z ≠ [] := fun h => hz (h ▸ nil_suffix)
    refine ⟨fun h => hnil (List.cons.inj h).2, ?_, fun h => hz ?_⟩
    · rw [List.getLast?_cons, List.getLast?_eq_some_getLast hnil]
      rfl
    · have hself := (segmentMatches_star_append z z).mpr (suffix_refl z)
      exact (segmentMatches_star_append w z).mp (h ▸ hself)
  by_cases hback : y <:+ x
  · by_cases hx : ∀ c ∈ x.getLast?, c.utf8Size = 1
    · obtain ⟨hp, hlast, hdiffer⟩ := hstar x y ((exists_back hne).resolve_right (not_not.mpr hback))
      exact ⟨_, hp, hlast ▸ hx, .inl (List.Subset.refl _), hdiffer⟩
    · have hempty : y = [] := by
        by_contra hnil
        obtain ⟨front, rfl⟩ := hback
        refine hx fun c hc => hy c ?_
        rw [List.getLast?_append_of_ne_nil _ hnil] at hc
        exact List.mem_of_getLast? hc
      subst hempty
      have hmatch (z : Str) : segmentMatches z [] = (z == []) := rfl
      refine ⟨[], (cons_ne_nil _ _).symm, (fun c hc => by cases hc), .inl (nil_subset _), ?_⟩
      rw [hmatch, hmatch, beq_false_of_ne hne]
      exact Bool.false_ne_true
  · obtain ⟨hp, hlast, hdiffer⟩ := hstar y x hback
    refine ⟨_, hp, ?_, .inr (List.Subset.refl _), hdiffer.symm⟩
    rw [hlast]
    exact fun c hc => hy c (List.mem_of_getLast? hc)

/-- A pattern that begins with `*` ends as its last segment does. -/
theorem endsInAscii_starPattern (pats : List Str) {p : Str} (hp : ∀ c ∈ p.getLast?, c.utf8Size = 1) :
    EndsInAscii (starPattern (pats ++ [p])) := by
  intro c hc
  have hpat : starPattern (pats ++ [p]) = "*".toList ++ serialize pats ++ ('/' :: p) := by
    rw [starPattern, serialize, flatMap_append, flatMap_singleton]
    rfl
  rw [hpat, List.getLast?_append_of_ne_nil _ (cons_ne_nil _ _), List.getLast?_cons] at hc
  cases hc
  cases hlast : p.getLast? with
  | none => decide
  | some c => exact hp c hlast

/-- Paths that differ are told apart by a pattern. -/
theorem exists_pattern {t t' : Str} (hne : withoutQuery t ≠ withoutQuery t')
    (ht : withoutQuery t = [] ∨ ∃ rest, withoutQuery t = '/' :: rest)
    (ht' : ∃ rest, withoutQuery t' = '/' :: rest) (hascii : ∀ c ∈ withoutQuery t', c.utf8Size = 1) :
    ∃ pattern, EndsInAscii pattern ∧ pathMatchesAnswer t pattern ≠ pathMatchesAnswer t' pattern := by
  have hslash (rest : Str) : ('/' :: rest).splitOn '/' = [] :: rest.splitOn '/' := by
    rw [splitOn_cons_eq_if_modifyHead, if_pos (by decide)]
  obtain ⟨segs, hsegs⟩ : ∃ segs, (withoutQuery t).splitOn '/' = [] :: segs := by
    rcases ht with ht | ⟨rest, ht⟩
    · exact ⟨[], by rw [ht]; rfl⟩
    · exact ⟨_, by rw [ht]; exact hslash rest⟩
  obtain ⟨segs', hsegs'⟩ : ∃ segs', (withoutQuery t').splitOn '/' = [] :: segs' := by
    obtain ⟨rest, ht'⟩ := ht'
    exact ⟨_, by rw [ht']; exact hslash rest⟩
  have hdiffer : segs ≠ segs' := by
    intro hsame
    refine hne ?_
    calc withoutQuery t = ['/'].intercalate ((withoutQuery t).splitOn '/') := (intercalate_splitOn '/').symm
      _ = ['/'].intercalate ((withoutQuery t').splitOn '/') := by rw [hsegs, hsame, hsegs']
      _ = withoutQuery t' := intercalate_splitOn '/'
  have hstars (i : ℕ) : ∀ p ∈ List.replicate i "*".toList, '/' ∉ p := by
    intro p hp
    obtain rfl := eq_of_mem_replicate hp
    decide
  have hascii_star : ∀ c ∈ "*".toList.getLast?, c.utf8Size = 1 := by decide
  by_cases hlen : segs.length = segs'.length
  · -- the first segment that differs decides
    obtain ⟨i, hi, hi', hseg⟩ : ∃ (i : ℕ) (hi : i < segs.length) (hi' : i < segs'.length), segs[i] ≠ segs'[i] := by
      by_contra hall
      push Not at hall
      exact hdiffer (ext_getElem hlen fun i hi hi' => hall i hi hi')
    have hmem := CodeUnits.mem_splitOn (hsegs ▸ mem_cons_of_mem [] (getElem_mem hi))
    have hmem' := CodeUnits.mem_splitOn (hsegs' ▸ mem_cons_of_mem [] (getElem_mem hi'))
    obtain ⟨p, hstar, hlast, hsubset, hprobe⟩ := exists_last hseg fun c hc => hascii c (hmem'.1 hc)
    have hp : '/' ∉ p := by
      intro hslash
      rcases hsubset with hsub | hsub
      · exact (mem_cons.mp (hsub hslash)).elim (by decide) hmem.2
      · exact (mem_cons.mp (hsub hslash)).elim (by decide) hmem'.2
    by_cases hend : i + 1 = segs.length
    · refine ⟨starPattern (List.replicate i "*".toList ++ [p]), endsInAscii_starPattern _ hlast, ?_⟩
      rw [answer_exact hsegs (hstars i) hp hstar (by simp; omega),
        answer_exact hsegs' (hstars i) hp hstar (by simp; omega),
        all_zip_replicate_star segs i hi p, all_zip_replicate_star segs' i hi' p]
      exact hprobe
    · have hpats : ∀ q ∈ List.replicate i "*".toList ++ [p], '/' ∉ q := by
        intro q hq
        rcases mem_append.mp hq with hq | hq
        · exact hstars i q hq
        · exact mem_singleton.mp hq ▸ hp
      refine ⟨starPattern ((List.replicate i "*".toList ++ [p]) ++ ["*".toList]),
        endsInAscii_starPattern _ hascii_star, ?_⟩
      rw [answer_trailing hsegs hpats, answer_trailing hsegs' hpats, all_zip_replicate_star segs i hi p,
        all_zip_replicate_star segs' i hi' p, decide_eq_true (by simp; omega), decide_eq_true (by simp; omega),
        Bool.true_and]
      exact hprobe
  · -- the number of segments decides
    have hanswer {u : Str} {us : List Str} (hus : (withoutQuery u).splitOn '/' = [] :: us) (n : ℕ) :
        pathMatchesAnswer u (starPattern (List.replicate n "*".toList ++ ["*".toList])) = decide (n < us.length) := by
      rw [answer_trailing hus (hstars n), all_zip_replicate_stars, Bool.and_true, length_replicate]
    refine ⟨starPattern (List.replicate (min segs.length segs'.length) "*".toList ++ ["*".toList]),
      endsInAscii_starPattern _ hascii_star, ?_⟩
    rw [hanswer hsegs, hanswer hsegs']
    intro hsame
    have hiff := decide_eq_decide.mp hsame
    omega

end Probes

/-- A path character is one byte. -/
theorem utf8Size_of_pathChar {c : Char} (hc : PathChar c) : c.utf8Size = 1 := by
  have hset := hc.1
  unfold inPathSet at hset
  rw [Bool.or_eq_false_iff, Bool.or_eq_false_iff, decide_eq_false_iff_not, decide_eq_false_iff_not,
    not_lt] at hset
  have hsmall : c.toNat ≤ 0x7E := hset.1.2
  exact Char.utf8Size_eq_one_iff.mpr (by
    exact le_trans hsmall (by decide))

/-- Every pattern answers the same for a target as it arrived and as the upstream receives it
exactly when the path of the target is in normal form. -/
theorem judged_path_is_sent_path (target : RequestTarget) :
    (∀ pattern, pathMatches target.text pattern = pathMatches (sentTarget target.text) pattern) ↔ target.Plain := by
  have hsent := withoutQuery_sentTarget target.text
  have hplain := plainPath_urlPath target.text
  constructor
  · intro hsame
    by_contra hnot
    have hne : withoutQuery target.text ≠ withoutQuery (sentTarget target.text) := by
      rw [hsent]
      exact fun h => hnot (show PlainPath (withoutQuery target.text) from h ▸ hplain)
    have hstart : withoutQuery target.text = [] ∨ ∃ rest, withoutQuery target.text = '/' :: rest := by
      rcases target.starts with hslash | hquery
      · obtain ⟨rest, hrest⟩ := List.head?_eq_some_iff.mp hslash
        refine .inr ⟨withoutQuery rest, ?_⟩
        rw [hrest, withoutQuery]
        rfl
      · obtain ⟨rest, hrest⟩ := List.head?_eq_some_iff.mp hquery
        refine .inl ?_
        rw [hrest, withoutQuery, List.takeWhile_cons_of_neg (by decide)]
    have hstart' : ∃ rest, withoutQuery (sentTarget target.text) = '/' :: rest := by
      rw [hsent]
      obtain ⟨segs, hsegs, hpath, -⟩ := hplain
      obtain ⟨s, segs, rfl⟩ := List.exists_cons_of_ne_nil hsegs
      exact ⟨s ++ serialize segs, hpath⟩
    have hascii : ∀ c ∈ withoutQuery (sentTarget target.text), c.utf8Size = 1 := by
      rw [hsent]
      intro c hc
      obtain ⟨segs, -, hpath, hsegs⟩ := hplain
      rw [hpath] at hc
      obtain ⟨s, hs, hcs⟩ := List.mem_flatMap.mp hc
      rcases List.mem_cons.mp hcs with rfl | hcs
      · decide
      · exact utf8Size_of_pathChar ((hsegs s hs).chars c hcs)
    obtain ⟨pattern, hends, hanswer⟩ := exists_pattern hne hstart hstart' hascii
    have hboth := hsame pattern
    rw [pathMatches_eq, pathMatches_eq, if_pos hends, if_pos hends] at hboth
    exact hanswer (Option.some.inj hboth)
  · intro hnormal pattern
    obtain ⟨rest, htext, hrest⟩ := exists_endsPath target.text
    have hpath : withoutQuery (sentTarget target.text) = withoutQuery target.text := by
      have htabs := target.withoutTabs_text
      rw [htext] at htabs
      rw [hsent]
      conv_lhs => rw [htext]
      exact urlPath_of_plain hnormal hrest htabs
    rw [pathMatches_eq, pathMatches_eq]
    unfold pathMatchesAnswer
    rw [hpath]

/-- The path `/public/../admin`. -/
def publicAdmin : RequestTarget where
  text := "/public/../admin".toList
  starts := .inl rfl
  printable := by decide

/-- A request to `/public/../admin` is judged under `/public/*` and not as `/admin`, and is sent to
`/admin`. -/
theorem judged_path_publicAdmin :
    pathMatches publicAdmin.text "/public/*".toList = some true ∧
    pathMatches publicAdmin.text "/admin".toList = some false ∧ sentTarget publicAdmin.text = "/admin".toList ∧
    pathMatches (sentTarget publicAdmin.text) "/public/*".toList = some false ∧
    pathMatches (sentTarget publicAdmin.text) "/admin".toList = some true := by
  decide

end Onecli.Gateway
