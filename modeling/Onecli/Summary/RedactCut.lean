import Onecli.Foundation.Occurrences
import Onecli.Summary.Redact

/-!
# Masking a text that is cut

What the JSON scan shows of the beginning of a text is the beginning of what it shows of the whole: a string, a key or a
value that the cut goes through is shown or masked up to the cut. What it shows was in the text, but for the masks.
-/

namespace Onecli.Summary.Redact

open Gateway (Str toAsciiLowercase)
open List

/-! ## The parts of the scan -/

variable {p t : Str} {s after : Str}

/-- Dropping keeps prefixes. -/
theorem prefix_dropWhile (f : Char → Bool) (h : p <+: t) : p.dropWhile f <+: t.dropWhile f := by
  induction p generalizing t with
  | nil => exact nil_prefix
  | cons c p ih =>
    obtain ⟨tail, rfl⟩ := h
    by_cases hc : f c = true
    · rw [cons_append, dropWhile_cons_of_pos hc, dropWhile_cons_of_pos hc]
      exact ih (prefix_append p tail)
    · rw [cons_append, dropWhile_cons_of_neg hc, dropWhile_cons_of_neg hc]
      exact prefix_append _ tail

theorem prefix_takeWhile (f : Char → Bool) (h : p <+: t) : p.takeWhile f <+: t.takeWhile f := by
  induction p generalizing t with
  | nil => exact nil_prefix
  | cons c p ih =>
    obtain ⟨tail, rfl⟩ := h
    by_cases hc : f c = true
    · rw [cons_append, takeWhile_cons_of_pos hc, takeWhile_cons_of_pos hc, cons_prefix_cons]
      exact ⟨rfl, ih (prefix_append p tail)⟩
    · rw [takeWhile_cons_of_neg hc]
      exact nil_prefix

theorem takeWhile_eq_of_prefix {f : Char → Bool} (h : p <+: t) (hne : p.dropWhile f ≠ []) :
    p.takeWhile f = t.takeWhile f := by
  induction p generalizing t with
  | nil => exact absurd rfl hne
  | cons c p ih =>
    obtain ⟨tail, rfl⟩ := h
    by_cases hc : f c = true
    · rw [dropWhile_cons_of_pos hc] at hne
      rw [cons_append, takeWhile_cons_of_pos hc, takeWhile_cons_of_pos hc, ih (prefix_append p tail) hne]
    · rw [cons_append, takeWhile_cons_of_neg hc, takeWhile_cons_of_neg hc]

/-- A string scanned in a prefix. -/
theorem prefix_scanString (h : p <+: t) :
    (scanString p).2 <+: (scanString t).2 ∧ ((scanString p).2 = [] → (scanString p).1 = p ∧ p <+: (scanString t).1) ∧
      ((scanString p).2 ≠ [] → (scanString p).1 = (scanString t).1) := by
  fun_induction scanString p generalizing t with
  | case1 => exact ⟨List.nil_prefix, fun _ => ⟨rfl, nil_prefix⟩, fun hne => absurd rfl hne⟩
  | case2 s =>
    obtain ⟨tail, rfl⟩ := h
    have hscan : scanString ('"' :: (s ++ tail)) = ([], '"' :: (s ++ tail)) := by
      rw [scanString.eq_def]
      exact if_pos rfl
    rw [cons_append, hscan]
    exact ⟨prefix_append ('"' :: s) tail, fun hnil => absurd hnil (cons_ne_nil _ _), fun _ => rfl⟩
  | case3 =>
    obtain ⟨tail, rfl⟩ := h
    refine ⟨List.nil_prefix, fun _ => ⟨rfl, ?_⟩, fun hne => absurd rfl hne⟩
    cases tail with
    | nil => exact prefix_rfl
    | cons d tail =>
      have hscan : (scanString ('\\' :: d :: tail)).1 = '\\' :: d :: (scanString tail).1 := by
        rfl
      exact prefix_append ['\\'] _
  | case4 d s hquote ih =>
    obtain ⟨tail, rfl⟩ := h
    have hscan : scanString ('\\' :: d :: (s ++ tail)) =
        ('\\' :: d :: (scanString (s ++ tail)).1, (scanString (s ++ tail)).2) := by
      rfl
    obtain ⟨hrest, hopen, hclosed⟩ := ih (prefix_append s tail)
    refine ⟨hrest, fun hnil => ?_, fun hne => ?_⟩
    · obtain ⟨hall, hpre⟩ := hopen hnil
      exact ⟨by rw [hall], (prefix_append_right_inj ['\\', d]).mpr hpre⟩
    · exact congrArg (['\\', d] ++ ·) (hclosed hne)
  | case5 c s hquote hslash ih =>
    obtain ⟨tail, rfl⟩ := h
    have hscan : scanString (c :: (s ++ tail)) = (c :: (scanString (s ++ tail)).1, (scanString (s ++ tail)).2) := by
      rw [scanString.eq_def]
      simp only [if_neg hquote, if_neg hslash]
    obtain ⟨hrest, hopen, hclosed⟩ := ih (prefix_append s tail)
    rw [cons_append, hscan]
    refine ⟨hrest, fun hnil => ?_, fun hne => ?_⟩
    · obtain ⟨hall, hpre⟩ := hopen hnil
      exact ⟨by rw [hall], (prefix_append_right_inj [c]).mpr hpre⟩
    · exact congrArg ([c] ++ ·) (hclosed hne)

theorem prefix_containerRest {depth : ℕ} (h : p <+: t) : containerRest depth p <+: containerRest depth t := by
  fun_induction containerRest depth p generalizing t with
  | case1 => exact nil_prefix
  | case2 depth s ih =>
    obtain ⟨tail, rfl⟩ := h
    rw [cons_append, containerRest]
    exact ih ((prefix_scanString (prefix_append s tail)).1.drop 1)
  | case3 depth c s hquote hopen ih =>
    obtain ⟨tail, rfl⟩ := h
    rw [cons_append, containerRest, if_neg hquote, if_pos hopen]
    exact ih (prefix_append s tail)
  | case4 depth c s hquote hopen hclose hdepth =>
    obtain ⟨tail, rfl⟩ := h
    rw [cons_append, containerRest, if_neg hquote, if_neg hopen, if_pos hclose, if_pos hdepth]
    exact prefix_append s tail
  | case5 depth c s hquote hopen hclose hdepth ih =>
    obtain ⟨tail, rfl⟩ := h
    rw [cons_append, containerRest, if_neg hquote, if_neg hopen, if_pos hclose, if_neg hdepth]
    exact ih (prefix_append s tail)
  | case6 depth c s hquote hopen hclose ih =>
    obtain ⟨tail, rfl⟩ := h
    rw [cons_append, containerRest, if_neg hquote, if_neg hopen, if_neg hclose]
    exact ih (prefix_append s tail)

theorem maskedValue_prefix (h : p <+: t) (hne : p ≠ []) :
    (maskedValue p).2 <+: (maskedValue t).2 ∧
      ((maskedValue p).1 = (maskedValue t).1 ∨ (maskedValue p).2 = [] ∧ (maskedValue p).1 <+: (maskedValue t).1) := by
  obtain ⟨c, p, rfl⟩ := exists_cons_of_ne_nil hne
  obtain ⟨tail, rfl⟩ := h
  have hp : p <+: p ++ tail := prefix_append p tail
  have hcp : c :: p <+: c :: (p ++ tail) := prefix_append (c :: p) tail
  unfold maskedValue
  rw [cons_append]
  dsimp only
  split_ifs
  · obtain ⟨hrest, hopen, hclosed⟩ := prefix_scanString hp
    refine ⟨hrest.drop 1, ?_⟩
    cases hclose : (scanString p).2 with
    | nil => exact Or.inr ⟨rfl, by rw [take_nil, append_nil]; exact prefix_append _ _⟩
    | cons =>
      rw [hclose] at hrest
      obtain ⟨tail', htail⟩ := hrest
      rw [← htail]
      exact Or.inl rfl
  · exact ⟨prefix_containerRest hcp, Or.inl rfl⟩
  · exact ⟨prefix_dropWhile inScalar hcp, Or.inl rfl⟩

theorem exists_of_afterColon {close after : Str} (h : afterColon close = some after) :
    ∃ q ws, close = q :: (ws ++ ':' :: after) ∧ ∀ c ∈ ws, isAsciiWhitespace c = true := by
  unfold afterColon at h
  split at h
  · cases h
  · next q afterKey =>
    split at h
    · next tail heq =>
      cases h
      refine ⟨q, afterKey.takeWhile isAsciiWhitespace, ?_, fun c hc => mem_takeWhile_imp hc⟩
      rw [← heq, takeWhile_append_dropWhile]
    · cases h

theorem afterColon_cons {q : Char} {ws after : Str} (hws : ∀ c ∈ ws, isAsciiWhitespace c = true) :
    afterColon (q :: (ws ++ ':' :: after)) = some after := by
  unfold afterColon
  dsimp only
  rw [dropWhile_append_of_pos hws]
  rfl

theorem keyText_cons (key : Str) (q : Char) (ws after : Str) :
    keyText key (q :: (ws ++ ':' :: after)) after =
      '"' :: key ++ (q :: (ws ++ [':'])) ++ after.takeWhile isAsciiWhitespace := by
  have hlength : (q :: (ws ++ ':' :: after)).length - after.length = (q :: (ws ++ [':'])).length := by
    simp only [length_cons, length_append, length_nil]
    omega
  have hsplit : q :: (ws ++ ':' :: after) = q :: (ws ++ [':']) ++ after := by
    rw [cons_append, append_assoc, singleton_append]
  unfold keyText
  rw [hlength, hsplit, take_left]

/-! ## The scan -/

theorem maskJsonValues_spaces {s : Str} (hs : ∀ c ∈ s, isAsciiWhitespace c = true) : (maskJsonValues s).1 = s := by
  induction s with
  | nil => rw [maskJsonValues]
  | cons c s ih =>
    obtain ⟨hc, hrest⟩ := forall_mem_cons.mp hs
    have hquote : c ≠ '"' := by
      intro heq
      rw [heq] at hc
      cases hc
    rw [maskJsonValues, jsonStep, if_pos hquote]
    exact congrArg (c :: ·) (ih hrest)

theorem maskJsonValues_nil : maskJsonValues [] = ([], false) := by rw [maskJsonValues]

/-- A string that is no key is shown. -/
theorem jsonStep_of_none {s : Str} (h : afterColon (scanString s).2 = none) :
    jsonStep '"' s = ('"' :: (scanString s).1 ++ (scanString s).2.take 1, (scanString s).2.drop 1, false) := by
  unfold jsonStep
  rw [if_neg fun hne => hne rfl, h]

/-- A key's value is masked, or shown. -/
theorem jsonStep_of_some (h : afterColon (scanString s).2 = some after) :
    jsonStep '"' s =
      if after.dropWhile isAsciiWhitespace = [] ∨ isSensitiveKey (scanString s).1 = false then
        (keyText (scanString s).1 (scanString s).2 after, after.dropWhile isAsciiWhitespace, false)
      else
        (keyText (scanString s).1 (scanString s).2 after ++ (maskedValue (after.dropWhile isAsciiWhitespace)).1,
          (maskedValue (after.dropWhile isAsciiWhitespace)).2, true) := by
  unfold jsonStep
  rw [if_neg fun hne => hne rfl, h]

theorem keyText_prefix_jsonStep (h : afterColon (scanString s).2 = some after) :
    keyText (scanString s).1 (scanString s).2 after <+: (jsonStep '"' s).1 := by
  rw [jsonStep_of_some h]
  split_ifs
  · exact prefix_rfl
  · exact prefix_append _ _

/-- A string is shown in front. -/
theorem string_prefix_jsonStep (s : Str) : '"' :: (scanString s).1 <+: (jsonStep '"' s).1 := by
  cases h : afterColon (scanString s).2 with
  | none =>
    rw [jsonStep_of_none h]
    exact prefix_append _ _
  | some =>
    refine List.IsPrefix.trans ?_ (keyText_prefix_jsonStep h)
    unfold keyText
    rw [append_assoc]
    exact prefix_append _ _

theorem afterColon_prefix {q : Char} {s t : Str} (h : s <+: t) :
    (∃ after after', afterColon (q :: s) = some after ∧ afterColon (q :: t) = some after' ∧ after <+: after' ∧
        ∃ ws, q :: s = q :: (ws ++ ':' :: after) ∧ q :: t = q :: (ws ++ ':' :: after')) ∨
      (afterColon (q :: s) = none ∧ afterColon (q :: t) = none) ∨
        (afterColon (q :: s) = none ∧ ∃ ws after', afterColon (q :: t) = some after' ∧ q :: t = q :: (ws ++ ':' :: after') ∧
          (∀ c ∈ ws, isAsciiWhitespace c = true) ∧ s <+: ws) := by
  obtain ⟨tail, rfl⟩ := h
  cases hs : afterColon (q :: s) with
  | some after =>
    obtain ⟨q', ws, hsplit, hws⟩ := exists_of_afterColon hs
    cases hsplit
    refine Or.inl ⟨after, after ++ tail, rfl, ?_, prefix_append after tail, ws, rfl, ?_⟩
    · rw [append_assoc]
      exact afterColon_cons hws
    · rw [append_assoc, cons_append]
  | none =>
    cases ht : afterColon (q :: (s ++ tail)) with
    | none => exact Or.inr (Or.inl ⟨rfl, rfl⟩)
    | some after' =>
      obtain ⟨q', ws, hsplit, hws⟩ := exists_of_afterColon ht
      obtain ⟨rfl, hafter⟩ := List.cons.inj hsplit
      refine Or.inr (Or.inr ⟨rfl, ws, after', rfl, hsplit, hws, ?_⟩)
      cases append_eq_append_iff.mp hafter with
      | inl hshort =>
        obtain ⟨more, rfl, -⟩ := hshort
        exact prefix_append s more
      | inr hlong =>
        obtain ⟨more, rfl, hcolon⟩ := hlong
        cases more with
        | nil => rw [append_nil]
        | cons =>
          obtain ⟨rfl, -⟩ := List.cons.inj hcolon
          rw [afterColon_cons hws] at hs
          cases hs

theorem jsonStep_prefix (c : Char) (h : p <+: t) :
    ((jsonStep c p).1 = (jsonStep c t).1 ∧ (jsonStep c p).2.1 <+: (jsonStep c t).2.1) ∨
      (jsonStep c p).1 ++ (maskJsonValues (jsonStep c p).2.1).1 <+: (jsonStep c t).1 := by
  by_cases hc : c = '"'
  · subst hc
    obtain ⟨hrest, hopen, hclosed⟩ := prefix_scanString h
    cases hclose : (scanString p).2 with
    | nil =>
      -- the string is cut
      obtain ⟨hall, hpre⟩ := hopen hclose
      have hstep : jsonStep '"' p = ('"' :: p, [], false) := by
        rw [jsonStep_of_none (by rw [hclose]; rfl), hclose, hall, take_nil, append_nil, drop_nil]
      rw [hstep, maskJsonValues_nil, append_nil]
      exact Or.inr (((prefix_append_right_inj ['"']).mpr hpre).trans (string_prefix_jsonStep t))
    | cons q s =>
      have hkey := hclosed (by rw [hclose]; exact cons_ne_nil q s)
      rw [hclose] at hrest
      obtain ⟨tail, htail⟩ := hrest
      have hclose' : (scanString t).2 = q :: (s ++ tail) := htail.symm
      obtain ⟨after, after', hs, ht, hafter, ws, hsplit, hsplit'⟩ | ⟨hs, ht⟩ | ⟨hs, ws, after', ht, hsplit, hws, hpre⟩ :=
        afterColon_prefix (q := q) (prefix_append s tail)
      · -- a key with its colon
        rw [← hclose] at hs
        rw [← hclose'] at ht
        have hfront := keyText_cons (scanString t).1 q ws after
        have hfront' := keyText_cons (scanString t).1 q ws after'
        rw [← hsplit, ← hclose, ← hkey] at hfront
        rw [← hsplit', ← hclose'] at hfront'
        by_cases hvalue : after.dropWhile isAsciiWhitespace = []
        · -- the value is cut off
          have hstep : jsonStep '"' p = (keyText (scanString p).1 (scanString p).2 after, [], false) := by
            rw [jsonStep_of_some hs, if_pos (Or.inl hvalue), hvalue]
          rw [hstep, maskJsonValues_nil, append_nil]
          refine Or.inr (List.IsPrefix.trans ?_ (keyText_prefix_jsonStep ht))
          rw [hfront, hfront', hkey]
          exact (prefix_append_right_inj _).mpr (prefix_takeWhile _ hafter)
        · have hvalues := prefix_dropWhile isAsciiWhitespace hafter
          have hvalue' : after'.dropWhile isAsciiWhitespace ≠ [] := fun hnil => hvalue (by
            rw [hnil] at hvalues
            exact prefix_nil.mp hvalues)
          have hsame : keyText (scanString p).1 (scanString p).2 after = keyText (scanString t).1 (scanString t).2 after' := by
            rw [hfront, hfront', hkey, takeWhile_eq_of_prefix hafter hvalue]
          rw [jsonStep_of_some hs, jsonStep_of_some ht, hsame, hkey]
          by_cases hsensitive : isSensitiveKey (scanString t).1 = false
          · rw [if_pos (Or.inr hsensitive), if_pos (Or.inr hsensitive)]
            exact Or.inl ⟨rfl, hvalues⟩
          · rw [if_neg fun h => h.elim hvalue hsensitive, if_neg fun h => h.elim hvalue' hsensitive]
            obtain ⟨hmasked, hshown | ⟨hnil, hshown⟩⟩ := maskedValue_prefix hvalues hvalue
            · refine Or.inl ⟨?_, hmasked⟩
              rw [hshown]
            · refine Or.inr ?_
              rw [hnil, maskJsonValues_nil, append_nil]
              exact (prefix_append_right_inj _).mpr hshown
      · -- no key
        rw [← hclose] at hs
        rw [← hclose'] at ht
        rw [jsonStep_of_none hs, jsonStep_of_none ht, hclose, hclose', hkey]
        exact Or.inl ⟨rfl, prefix_append s tail⟩
      · -- the cut is before the colon
        rw [← hclose] at hs
        rw [← hclose'] at ht
        have hspaces : ∀ c ∈ s, isAsciiWhitespace c = true := fun c hc => hws c (hpre.subset hc)
        rw [jsonStep_of_none hs, hclose]
        rw [drop_one, tail_cons, maskJsonValues_spaces hspaces]
        refine Or.inr (List.IsPrefix.trans ?_ (keyText_prefix_jsonStep ht))
        rw [hclose', hsplit, keyText_cons, hkey]
        obtain ⟨more, rfl⟩ := hpre
        refine ⟨more ++ ':' :: after'.takeWhile isAsciiWhitespace, ?_⟩
        simp only [take_succ_cons, take_zero, cons_append, append_assoc, nil_append]
  · unfold jsonStep
    rw [if_pos hc, if_pos hc]
    exact Or.inl ⟨rfl, h⟩

/-- Values of a prefix are masked as a prefix. -/
theorem prefix_maskJsonValues (h : p <+: t) : (maskJsonValues p).1 <+: (maskJsonValues t).1 := by
  induction hlength : p.length using Nat.strong_induction_on generalizing p t with
  | _ n ih =>
    cases p with
    | nil =>
      rw [maskJsonValues]
      exact nil_prefix
    | cons c p =>
      obtain ⟨tail, rfl⟩ := h
      rw [cons_append, maskJsonValues, maskJsonValues]
      cases jsonStep_prefix c (prefix_append p tail) with
      | inl hsame =>
        obtain ⟨hshown, hrest⟩ := hsame
        rw [hshown, prefix_append_right_inj]
        refine ih _ ?_ hrest rfl
        rw [← hlength]
        exact Nat.lt_succ_of_le (length_jsonStep c p)
      | inr hcut => exact hcut.trans (prefix_append _ _)

/-! ## What the scan adds -/

theorem scanString_append (s : Str) : (scanString s).1 ++ (scanString s).2 = s := by
  fun_induction scanString s with
  | case1 | case2 | case3 => rfl
  | case4 d s hquote ih => exact congrArg (['\\', d] ++ ·) ih
  | case5 c s hquote hslash ih => exact congrArg ([c] ++ ·) ih

theorem keyText_append (h : afterColon (scanString s).2 = some after) :
    keyText (scanString s).1 (scanString s).2 after ++ after.dropWhile isAsciiWhitespace = '"' :: s := by
  obtain ⟨q, ws, hsplit, -⟩ := exists_of_afterColon h
  have htext := scanString_append s
  rw [hsplit] at htext ⊢
  rw [keyText_cons, append_assoc, takeWhile_append_dropWhile]
  conv_rhs => rw [← htext]
  simp only [cons_append, append_assoc, nil_append]

theorem scanString_suffix (s : Str) : (scanString s).2 <:+ s := ⟨_, scanString_append s⟩

theorem containerRest_suffix (depth : ℕ) (s : Str) : containerRest depth s <:+ s := by
  fun_induction containerRest depth s with
  | case1 => exact suffix_rfl
  | case2 depth s ih => exact ih.trans (((drop_suffix 1 _).trans (scanString_suffix s)).trans (suffix_cons _ s))
  | case3 depth c s hquote hopen ih | case5 depth c s hquote hopen hclose hdepth ih
  | case6 depth c s hquote hopen hclose ih => exact ih.trans (suffix_cons c s)
  | case4 depth c s hquote hopen hclose hdepth => exact suffix_cons c s

theorem mem_scanString_take (s : Str) : ∀ c ∈ (scanString s).2.take 1, c = '"' := by
  fun_induction scanString s with
  | case1 | case3 => exact forall_mem_nil _
  | case2 s => exact fun c hc => mem_singleton.mp hc
  | case4 _ _ _ ih | case5 _ _ _ _ ih => exact ih

theorem maskedValue_mark {s : Str} (hne : s ≠ []) : (maskedValue s).2 <:+ s ∧ (maskedValue s).1.head? = some '"' ∧
    ∀ c ∈ (maskedValue s).1, c ∈ ['"', '*'] := by
  obtain ⟨c, s, rfl⟩ := exists_cons_of_ne_nil hne
  have hwhole : ∀ c ∈ "\"***\"".toList, c ∈ ['"', '*'] := by decide
  unfold maskedValue
  dsimp only
  split_ifs
  · refine ⟨((drop_suffix 1 _).trans (scanString_suffix s)).trans (suffix_cons c s), rfl, fun d hd => ?_⟩
    have hmark : ∀ c ∈ '"' :: "***".toList, c ∈ ['"', '*'] := by decide
    cases mem_append.mp hd with
    | inl hd => exact hmark d hd
    | inr hd =>
      rw [mem_scanString_take s d hd]
      exact mem_cons_self
  · exact ⟨containerRest_suffix 0 _, rfl, hwhole⟩
  · exact ⟨dropWhile_suffix inScalar, rfl, hwhole⟩

theorem jsonStep_cases (s : Str) :
    (jsonStep '"' s).1 ++ (jsonStep '"' s).2.1 = '"' :: s ∨
      ∃ front mark, (jsonStep '"' s).1 = front ++ mark ∧ front <+: '"' :: s ∧ (jsonStep '"' s).2.1 <:+ '"' :: s ∧
        mark.head? = some '"' ∧ ∀ c ∈ mark, c ∈ ['"', '*'] := by
  cases h : afterColon (scanString s).2 with
  | none =>
    rw [jsonStep_of_none h]
    refine Or.inl ?_
    rw [append_assoc, take_append_drop, cons_append, scanString_append]
  | some =>
    have htext := keyText_append h
    rw [jsonStep_of_some h]
    split_ifs with hshown
    · exact Or.inl htext
    · obtain ⟨hrest, hhead, hmark⟩ := maskedValue_mark (not_or.mp hshown).1
      exact Or.inr ⟨_, _, rfl, ⟨_, htext⟩, hrest.trans ⟨_, htext⟩, hhead, hmark⟩

theorem prefix_of_prefix_mask {w t : Str} (hw : '"' ∉ w) (h : w <+: (maskJsonValues t).1) : w <+: t := by
  induction t generalizing w with
  | nil =>
    rw [maskJsonValues_nil] at h
    exact h
  | cons c s ih =>
    cases w with
    | nil => exact nil_prefix
    | cons =>
      rw [mem_cons, not_or] at hw
      rw [maskJsonValues] at h
      by_cases hc : c = '"'
      · subst hc
        obtain ⟨tail, htail⟩ := (string_prefix_jsonStep s).trans (prefix_append _ (maskJsonValues (jsonStep '"' s).2.1).1)
        rw [← htail] at h
        exact absurd (cons_prefix_cons.mp h).1.symm hw.1
      · have hstep : jsonStep c s = ([c], s, false) := if_pos hc
        rw [hstep] at h
        obtain ⟨rfl, h⟩ := cons_prefix_cons.mp h
        exact cons_prefix_cons.mpr ⟨rfl, ih hw.2 h⟩

theorem infix_of_mark {w front mark back : Str} (hne : mark ≠ []) (hmark : ∀ c ∈ mark, c ∉ w)
    (h : w <:+: front ++ (mark ++ back)) : w <:+: front ∨ w <:+: back := by
  have hnil {part : Str} (hpart : part ⊆ mark) (hin : part ⊆ w) : part = [] :=
    eq_nil_iff_forall_not_mem.mpr fun c hc => hmark c (hpart hc) (hin hc)
  obtain hfront | hback | ⟨x, y, rfl, hx, hy⟩ := infix_append_iff.mp h
  · exact Or.inl hfront
  · obtain hin | hback | ⟨x, y, rfl, hx, hy⟩ := infix_append_iff.mp hback
    · rw [hnil hin.subset (List.Subset.refl w)]
      exact Or.inl nil_infix
    · exact Or.inr hback
    · rw [hnil hx.subset (subset_append_left x y)]
      exact Or.inr hy.isInfix
  · cases y with
    | nil =>
      rw [append_nil]
      exact Or.inl hx.isInfix
    | cons c =>
      obtain ⟨d, mark, rfl⟩ := exists_cons_of_ne_nil hne
      obtain ⟨rfl, -⟩ := cons_prefix_cons.mp hy
      exact absurd (mem_append_right x mem_cons_self) (hmark c mem_cons_self)

theorem infix_of_infix_mask {w t : Str} (hw : ∀ c ∈ w, c ∉ ['"', '*']) (h : w <:+: (maskJsonValues t).1) : w <:+: t := by
  have hquote : '"' ∉ w := fun hmem => hw '"' hmem mem_cons_self
  induction hlength : t.length using Nat.strong_induction_on generalizing t with
  | _ n ih =>
    cases t with
    | nil =>
      rw [maskJsonValues_nil] at h
      exact h
    | cons c s =>
      have hless : (jsonStep c s).2.1.length < n := by
        rw [← hlength]
        exact Nat.lt_succ_of_le (length_jsonStep c s)
      by_cases hc : c = '"'
      · subst hc
        rw [maskJsonValues] at h
        obtain htext | ⟨front, mark, hstep, hfront, hrest, hhead, hmark⟩ := jsonStep_cases s
        · rw [← htext]
          obtain hin | hback | ⟨x, y, rfl, hx, hy⟩ := infix_append_iff.mp h
          · exact hin.trans (prefix_append _ _).isInfix
          · exact (ih _ hless hback rfl).trans (suffix_append _ _).isInfix
          · obtain ⟨before, hbefore⟩ := hx
            obtain ⟨after, hafter⟩ := prefix_of_prefix_mask (fun hmem => hquote (mem_append_right x hmem)) hy
            refine ⟨before, after, ?_⟩
            rw [← append_assoc before, hbefore, append_assoc, hafter]
        · rw [hstep, append_assoc] at h
          have hne : mark ≠ [] := by
            intro hnil
            rw [hnil] at hhead
            cases hhead
          cases infix_of_mark hne (fun c hc hmem => hw c hmem (hmark c hc)) h with
          | inl hin => exact hin.trans hfront.isInfix
          | inr hback => exact (ih _ hless hback rfl).trans hrest.isInfix
      · have hplain : jsonStep c s = ([c], s, false) := if_pos hc
        rw [maskJsonValues, hplain] at h
        rw [hplain] at hless
        cases infix_cons_iff.mp h with
        | inl hpre =>
          have hwhole : w <+: (maskJsonValues (c :: s)).1 := by
            rw [maskJsonValues, hplain]
            exact hpre
          exact (prefix_of_prefix_mask hquote hwhole).isInfix
        | inr hback => exact (ih _ hless hback rfl).trans (suffix_cons c s).isInfix

theorem exists_infix_of_lower {w s : Str} (h : w <:+: toAsciiLowercase s) : ∃ w', w' <:+: s ∧ toAsciiLowercase w' = w := by
  obtain ⟨before, after, htext⟩ := h
  obtain ⟨front, back, rfl, hfront, -⟩ := append_eq_map_iff.mp htext
  obtain ⟨front, mid, rfl, -, hmid⟩ := append_eq_map_iff.mp hfront.symm
  exact ⟨mid, infix_append front mid back, hmid⟩

/-- Text that changes at other marks stays multipart. -/
theorem isMultipart_of_infix {s t : Str} (marks : List Char) (hmark : ∀ c ∈ marks, c.toLower = c)
    (hneedle : ∀ c ∈ marks, c ∉ "content-disposition:".toList ∧ c ∉ "form-data".toList)
    (h : ∀ w, (∀ c ∈ w, c ∉ marks) → w <:+: s → w <:+: t) (hs : isMultipart s = true) : isMultipart t = true := by
  have hcontains {needle : Str} (hno : ∀ c ∈ marks, c ∉ needle) (hin : needle <:+: toAsciiLowercase s) :
      needle <:+: toAsciiLowercase t := by
    obtain ⟨w, hw, rfl⟩ := exists_infix_of_lower hin
    refine (h w (fun c hc hmem => ?_) hw).map Char.toLower
    refine hno c hmem ?_
    rw [← hmark c hmem]
    exact List.mem_map_of_mem hc
  unfold isMultipart Gateway.containsStr at hs ⊢
  rw [Bool.and_eq_true, decide_eq_true_eq, decide_eq_true_eq] at hs ⊢
  exact ⟨hcontains (fun c hc => (hneedle c hc).1) hs.1, hcontains (fun c hc => (hneedle c hc).2) hs.2⟩

/-- Masking makes no multipart body. -/
theorem isMultipart_mask {t : Str} (h : isMultipart t = false) : isMultipart (maskJsonValues t).1 = false := by
  refine Bool.eq_false_iff.mpr fun hmask => ?_
  have htext := isMultipart_of_infix ['"', '*'] (by decide) (by decide) (fun w hw hin => infix_of_infix_mask hw hin) hmask
  rw [h] at htext
  cases htext

theorem head?_dropWhile_mask (t : Str) :
    ((maskJsonValues t).1.dropWhile Gateway.isWhitespace).head? = (t.dropWhile Gateway.isWhitespace).head? := by
  induction t with
  | nil => rw [maskJsonValues_nil]
  | cons c s ih =>
    by_cases hc : c = '"'
    · subst hc
      obtain ⟨tail, htail⟩ := (string_prefix_jsonStep s).trans (prefix_append _ (maskJsonValues (jsonStep '"' s).2.1).1)
      rw [maskJsonValues]
      rw [← htail, cons_append, dropWhile_cons_of_neg (by decide)]
      rfl
    · have hstep : jsonStep c s = ([c], s, false) := if_pos hc
      rw [maskJsonValues, hstep]
      by_cases hspace : Gateway.isWhitespace c = true
      · rw [singleton_append, dropWhile_cons_of_pos hspace, dropWhile_cons_of_pos hspace]
        exact ih
      · rw [singleton_append, dropWhile_cons_of_neg hspace, dropWhile_cons_of_neg hspace]
        rfl

end Onecli.Summary.Redact
