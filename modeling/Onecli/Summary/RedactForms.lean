import Onecli.Summary.RedactSecrets

/-!
# Where the mask of a request hides its secrets

A form is masked pair by pair, by the names of the pairs as they are written. The raw view hides what a JSON text or a form
gives a sensitive name, and what of that stands in front of a cut, where the name is sensitive as written and the text looks
like one format only. `percentDecode` is what the crate `percent_encoding` decodes.
-/

namespace Onecli.Summary.Redact

open CodeUnits JsonText List
open Gateway (Str asBytes fromUtf8Lossy isWhitespace trim)

/-! ## Pairs -/

/-- What the form mask shows. -/
def formShown (text : Str) : Str := ['&'].intercalate ((text.splitOn '&').map fun pair => (maskPair pair).1)

/-- A text that looks like JSON. -/
def looksJson (text : Str) : Prop :=
  (text.dropWhile isWhitespace).head? = some '\x7b' ∨ (text.dropWhile isWhitespace).head? = some '['

theorem maskPair_append {k v : Str} (hk : '=' ∉ k) :
    (maskPair (k ++ '=' :: v)).1 = if isSensitiveKey (trim k) then k ++ "=***".toList else k ++ '=' :: v := by
  have hsplit : splitOnce '=' (k ++ '=' :: v) = some (k, v) := (splitOnce_eq_some_iff '=' _ k v).mpr ⟨rfl, hk⟩
  unfold maskPair
  rw [hsplit]
  dsimp only
  split_ifs <;> rfl

/-- A pair without `=` is left. -/
theorem maskPair_of_not_mem {pair : Str} (h : '=' ∉ pair) : (maskPair pair).1 = pair := by
  unfold maskPair
  rw [(splitOnce_eq_none_iff '=' pair).mpr h]

theorem not_mem_maskPair {pair : Str} (h : '&' ∉ pair) : '&' ∉ (maskPair pair).1 := by
  by_cases heq : '=' ∈ pair
  · obtain ⟨k, v, rfl, hk⟩ := eq_append_cons_of_mem heq
    rw [maskPair_append hk]
    split_ifs
    · intro hmem
      have hmask : '&' ∉ "=***".toList := by decide
      cases mem_append.mp hmem with
      | inl hname => exact h (mem_append_left _ hname)
      | inr hstars => exact hmask hstars
    · exact h
  · rw [maskPair_of_not_mem heq]
    exact h

theorem prefix_maskPair {q q' : Str} (h : q <+: q') : (maskPair q).1 <+: (maskPair q').1 := by
  obtain ⟨tail, rfl⟩ := h
  by_cases heq : '=' ∈ q
  · -- the cut is in the value
    obtain ⟨k, v, rfl, hk⟩ := eq_append_cons_of_mem heq
    rw [append_assoc, cons_append, maskPair_append hk, maskPair_append hk]
    split_ifs
    · exact prefix_rfl
    · rw [← cons_append, ← append_assoc]
      exact prefix_append _ tail
  · -- the cut is in the name
    rw [maskPair_of_not_mem heq]
    by_cases htail : '=' ∈ tail
    · obtain ⟨k, v, rfl, hk⟩ := eq_append_cons_of_mem htail
      have hname : '=' ∉ q ++ k := fun hmem => (mem_append.mp hmem).elim heq hk
      rw [← append_assoc, maskPair_append hname]
      split_ifs
      · rw [append_assoc]
        exact prefix_append q _
      · rw [append_assoc]
        exact prefix_append q _
    · rw [maskPair_of_not_mem fun hmem => (mem_append.mp hmem).elim heq htail]
      exact prefix_append q tail

/-! ## Lists of pairs -/

variable {p t : Str} {t : Str}

theorem splitOn_prefix (h : p <+: t) :
    ∃ front q q' back, p.splitOn '&' = front ++ [q] ∧ t.splitOn '&' = front ++ q' :: back ∧ q <+: q' := by
  induction p generalizing t with
  | nil =>
    obtain ⟨q', back, hsplit⟩ := exists_cons_of_ne_nil (splitOn_ne_nil '&' t)
    exact ⟨[], [], q', back, splitOn_nil '&', hsplit, nil_prefix⟩
  | cons c p ih =>
    obtain ⟨tail, rfl⟩ := h
    obtain ⟨front, q, q', back, hp, ht, hq⟩ := ih (prefix_append p tail)
    rw [cons_append, splitOn_cons_eq_if_modifyHead, splitOn_cons_eq_if_modifyHead, hp, ht]
    by_cases hc : (c == '&') = true
    · rw [if_pos hc, if_pos hc]
      exact ⟨[] :: front, q, q', back, rfl, rfl, hq⟩
    · rw [if_neg hc, if_neg hc]
      cases front with
      | nil => exact ⟨[], c :: q, c :: q', back, rfl, rfl, cons_prefix_cons.mpr ⟨rfl, hq⟩⟩
      | cons first front => exact ⟨(c :: first) :: front, q, q', back, rfl, rfl, hq⟩

theorem intercalate_prefix {x : Char} (front : List Str) {q q' : Str} (back : List Str) (h : q <+: q') :
    [x].intercalate (front ++ [q]) <+: [x].intercalate (front ++ q' :: back) := by
  induction front with
  | nil =>
    rw [nil_append, nil_append, intercalate_singleton]
    cases back with
    | nil =>
      rw [intercalate_singleton]
      exact h
    | cons =>
      rw [intercalate_cons_cons, append_assoc]
      exact h.trans (prefix_append _ _)
  | cons first front ih =>
    have hne (l : List Str) (e : Str) (l' : List Str) : l ++ e :: l' ≠ [] :=
      append_ne_nil_of_right_ne_nil l (cons_ne_nil e l')
    rw [cons_append, cons_append, intercalate_cons_of_ne_nil (hne front q []),
      intercalate_cons_of_ne_nil (hne front q' back), prefix_append_right_inj]
    exact ih

theorem formShown_prefix (h : p <+: t) : formShown p <+: formShown t := by
  obtain ⟨front, q, q', back, hp, ht, hq⟩ := splitOn_prefix h
  unfold formShown
  rw [hp, ht, map_append, map_append, map_cons, map_cons, map_nil]
  exact intercalate_prefix _ _ (prefix_maskPair hq)

theorem formShown_of_not_mem (h : '=' ∉ t) : formShown t = t := by
  have hpairs : (t.splitOn '&').map (fun pair => (maskPair pair).1) = t.splitOn '&' := by
    have hsame : (t.splitOn '&').map (fun pair => (maskPair pair).1) = (t.splitOn '&').map id :=
      map_congr_left fun pair hpair => maskPair_of_not_mem fun hmem => h ((mem_splitOn hpair).1 hmem)
    rw [hsame, List.map_id]
  unfold formShown
  rw [hpairs, intercalate_splitOn]

theorem maskPairs_eq (h : isMultipart t = false) (hlooks : ¬ looksJson t) : (maskPairs t).1 = formShown t := by
  unfold looksJson at hlooks
  unfold maskPairs
  rw [h, if_neg Bool.false_ne_true]
  unfold maskFormValues
  dsimp only
  by_cases heq : '=' ∈ t
  · rw [if_neg (by simp only [not_or, not_not] at hlooks ⊢; exact ⟨hlooks.1, hlooks.2, heq⟩), List.map_map]
    rfl
  · rw [if_pos (Or.inr (Or.inr heq)), formShown_of_not_mem heq]

/-- JSON is not read as pairs. -/
theorem maskPairs_of_looksJson (h : isMultipart t = false) (hlooks : looksJson t) : (maskPairs t).1 = t := by
  unfold maskPairs
  rw [h, if_neg Bool.false_ne_true]
  unfold maskFormValues
  rw [if_pos (hlooks.imp_right Or.inl)]

/-! ## Cuts -/

theorem isMultipart_prefix (h : p <+: t) (ht : isMultipart t = false) : isMultipart p = false := by
  refine Bool.eq_false_iff.mpr fun hp => ?_
  have hwhole := isMultipart_of_infix [] (forall_mem_nil _) (forall_mem_nil _)
    (fun w _ hw => hw.trans h.isInfix) hp
  rw [ht] at hwhole
  cases hwhole

/-- Pairs of a prefix are masked as a prefix. -/
theorem maskPairs_prefix (h : p <+: t) (ht : isMultipart t = false) : (maskPairs p).1 <+: (maskPairs t).1 := by
  have hp := isMultipart_prefix h ht
  have hdrop := prefix_dropWhile isWhitespace h
  by_cases hlooks : looksJson t
  · rw [maskPairs_of_looksJson ht hlooks]
    by_cases hlooks' : looksJson p
    · rw [maskPairs_of_looksJson hp hlooks']
      exact h
    · -- the cut is in the white space in front
      rw [maskPairs_eq hp hlooks', formShown_of_not_mem]
      · exact h
      · intro heq
        cases hnil : p.dropWhile isWhitespace with
        | nil => exact absurd (dropWhile_eq_nil_iff.mp hnil '=' heq) (by decide)
        | cons =>
          rw [hnil] at hdrop
          obtain ⟨tail, htail⟩ := hdrop
          refine hlooks' ?_
          unfold looksJson at hlooks ⊢
          rw [← htail] at hlooks
          rw [hnil]
          exact hlooks
  · have hlooks' : ¬ looksJson p := by
      intro hlooks'
      refine hlooks ?_
      unfold looksJson at hlooks' ⊢
      obtain ⟨tail, htail⟩ := hdrop
      rw [← htail]
      cases hnil : p.dropWhile isWhitespace with
      | nil =>
        rw [hnil] at hlooks'
        cases hlooks' with
        | inl hbrace | inr hbrace => cases hbrace
      | cons =>
        rw [hnil] at hlooks'
        exact hlooks'
    rw [maskPairs_eq hp hlooks', maskPairs_eq ht hlooks]
    exact formShown_prefix h

/-! ## JSON texts -/

/-- A text with keys looks like JSON. -/
theorem looksJson_of_keys {t t' : Str} (h : AlikeJson t t') (hkeys : scannedKeys t ≠ []) : looksJson t ∧ looksJson t' := by
  obtain ⟨before, v, v', after, hbefore, hafter, hv, hv', halike, rfl, rfl⟩ := h
  have hspaces : ∀ c ∈ before, isWhitespace c = true := by
    have hspace : ∀ c ∈ [' ', '\t', '\n', '\r'], isWhitespace c = true := by decide
    exact fun c hc => hspace c ((isSpace_iff c).mp (hbefore c hc))
  have hlooks {c : Char} {s : Str} (hc : c = '\x7b' ∨ c = '[') : looksJson (before ++ (c :: s ++ after)) := by
    unfold looksJson
    rw [dropWhile_append_of_pos hspaces, cons_append]
    cases hc with
    | inl hbrace =>
      rw [hbrace]
      exact Or.inl rfl
    | inr hbracket =>
      rw [hbracket]
      exact Or.inr rfl
  have hnone {shown : Str} (hreads : Reads v shown []) : False := hkeys (Reads.last hbefore hafter hreads).whole.2
  cases halike with
  | same _ hv =>
    obtain hword | hnumber | ⟨s, rfl⟩ | ⟨inner, rfl⟩ | ⟨inner, rfl⟩ := value_cases hv
    · exact (hnone (Reads.scalar (Or.inl hword))).elim
    · exact (hnone (Reads.scalar (Or.inr hnumber))).elim
    · exact (hnone fun _ hrest => Scans.quoted s hrest).elim
    · exact ⟨hlooks (Or.inr rfl), hlooks (Or.inr rfl)⟩
    · exact ⟨hlooks (Or.inl rfl), hlooks (Or.inl rfl)⟩
  | array => exact ⟨hlooks (Or.inr rfl), hlooks (Or.inr rfl)⟩
  | object => exact ⟨hlooks (Or.inl rfl), hlooks (Or.inl rfl)⟩

theorem looksJson_mask (t : Str) : looksJson (maskJsonValues t).1 ↔ looksJson t := by
  unfold looksJson
  rw [head?_dropWhile_mask]

/-- Another digit makes no multipart body. -/
theorem isMultipart_digit {t t' : Str} (h : DigitFor t t') (ht : isMultipart t = false) : isMultipart t' = false := by
  obtain ⟨front, v, back, d, hd, rfl, rfl⟩ := h
  obtain ⟨hlow, hhigh⟩ := mem_digits_of_isDigit hd
  have hlower : d.toLower = d := by
    apply Char.toNat_inj.mp
    rw [Gateway.toNat_toLower, if_neg (by omega)]
  have hneedles : ∀ c ∈ "content-disposition:form-data".toList, ¬ (48 ≤ c.toNat ∧ c.toNat ≤ 57) := by decide
  refine Bool.eq_false_iff.mpr fun ht' => ?_
  have hwhole : isMultipart (front ++ (v ++ back)) = true := by
    refine isMultipart_of_infix [d] (fun c hc => ?_) (fun c hc => ?_) (fun w hw hin => ?_) ht'
    · rw [mem_singleton.mp hc, hlower]
    · rw [mem_singleton.mp hc]
      exact ⟨fun hmem => hneedles d (mem_append_left "form-data".toList hmem) ⟨hlow, hhigh⟩,
        fun hmem => hneedles d (mem_append_right "content-disposition:".toList hmem) ⟨hlow, hhigh⟩⟩
    · have hmark : ∀ c ∈ [d], c ∉ w := fun c hc hmem => hw c hmem hc
      cases infix_of_mark (cons_ne_nil d []) hmark hin with
      | inl hfront => exact hfront.trans (prefix_append front _).isInfix
      | inr hback => exact hback.trans ((suffix_append v back).trans (suffix_append front _)).isInfix
  rw [ht] at hwhole
  cases hwhole

/-! ## Secrets -/

section Forms

variable (percentDecode : List UInt8 → List UInt8)

/-- The name of a pair, decoded. -/
def decodedName (k : Str) : Str := fromUtf8Lossy (percentDecode (asBytes (k.map fun c => if c = '+' then ' ' else c)))

/-- Two pairs that are the same, but for the value of a sensitive name. -/
def AlikePair (pair pair' : Str) : Prop :=
  pair = pair' ∨ ∃ k v v', '=' ∉ k ∧ isSensitiveKey (decodedName percentDecode k) = true ∧ pair = k ++ '=' :: v ∧
    pair' = k ++ '=' :: v'

/-- Two forms that differ only in the values of pairs whose names are sensitive when decoded. -/
def AlikeForm (t t' : Str) : Prop := List.Forall₂ (AlikePair percentDecode) (t.splitOn '&') (t'.splitOn '&')

end Forms

/-- A form in which the scan for JSON masks nothing, and which is not taken for multipart. -/
def PlainForm (t : Str) : Prop := (maskJsonValues t).2 = false ∧ isMultipart t = false

theorem jsonStep_append {c : Char} {s : Str} (h : (jsonStep c s).2.2 = false) :
    (jsonStep c s).1 ++ (jsonStep c s).2.1 = c :: s := by
  by_cases hc : c = '"'
  · subst hc
    cases hcolon : afterColon (scanString s).2 with
    | none =>
      rw [jsonStep_of_none hcolon]
      simp only [append_assoc, take_append_drop, cons_append, scanString_append]
    | some after =>
      rw [jsonStep_of_some hcolon] at h ⊢
      split_ifs at h ⊢
      exact keyText_append hcolon
  · have hstep : jsonStep c s = ([c], s, false) := if_pos hc
    rw [hstep]
    rfl

/-- A text in which nothing is masked is left as it is. -/
theorem maskJsonValues_of_no_hit {t : Str} (h : (maskJsonValues t).2 = false) : (maskJsonValues t).1 = t := by
  fun_induction maskJsonValues t with
  | case1 => rfl
  | case2 c s step rest ih =>
    obtain ⟨hstep, hrest⟩ := Bool.or_eq_false_iff.mp h
    change step.1 ++ rest.1 = c :: s
    rw [show rest.1 = step.2.1 from ih hrest]
    exact jsonStep_append hstep

theorem maskSecrets_form (h : PlainForm t) : (maskSecrets t).1 = (maskPairs t).1 := by
  unfold maskSecrets
  dsimp only
  rw [maskJsonValues_of_no_hit h.1]

/-- What looks like JSON is masked as JSON. -/
theorem maskSecrets_json (ht : isMultipart t = false) (hlooks : looksJson t) :
    (maskSecrets t).1 = (maskJsonValues t).1 :=
  maskPairs_of_looksJson (isMultipart_mask ht) ((looksJson_mask t).mpr hlooks)

/-- Forms are shown alike exactly where their pairs are. -/
theorem formShown_eq_iff (t t' : Str) : formShown t = formShown t' ↔
    (t.splitOn '&').map (fun pair => (maskPair pair).1) = (t'.splitOn '&').map fun pair => (maskPair pair).1 := by
  have hsplit (t : Str) : (formShown t).splitOn '&' = (t.splitOn '&').map fun pair => (maskPair pair).1 := by
    refine splitOn_intercalate '&' (fun pair hpair => ?_) (fun hnil => ?_)
    · obtain ⟨pair, hmem, rfl⟩ := List.mem_map.mp hpair
      exact not_mem_maskPair (mem_splitOn hmem).2
    · exact splitOn_ne_nil '&' t (map_eq_nil_iff.mp hnil)
  constructor
  · intro h
    rw [← hsplit, ← hsplit, h]
  · intro h
    unfold formShown
    rw [h]

variable {percentDecode : List UInt8 → List UInt8}

/-- Two pairs that are the same but for the value of a sensitive name are shown alike where they are the same, or where the
name is sensitive as it is written. -/
theorem maskPair_eq_iff {pair pair' : Str} (h : AlikePair percentDecode pair pair') : (maskPair pair).1 = (maskPair pair').1 ↔
    (pair ≠ pair' → isSensitiveKey (trim (pair.takeWhile (· ≠ '='))) = true) := by
  obtain rfl | ⟨k, v, v', hk, -, rfl, rfl⟩ := h
  · exact iff_of_true rfl fun hne => absurd rfl hne
  · have hname : (k ++ '=' :: v).takeWhile (· ≠ '=') = k := by
      rw [takeWhile_append_of_pos, takeWhile_cons_of_neg (by simp), append_nil]
      intro c hc
      rw [decide_eq_true_eq]
      exact fun heq => hk (heq ▸ hc)
    rw [maskPair_append hk, maskPair_append hk, hname]
    by_cases hkey : isSensitiveKey (trim k) = true
    · rw [if_pos hkey, if_pos hkey]
      exact iff_of_true rfl fun _ => hkey
    · rw [if_neg hkey, if_neg hkey]
      constructor
      · intro heq hne
        exact absurd heq hne
      · intro himp
        by_contra hne
        exact hkey (himp hne)

theorem map_maskPair_eq_iff {pairs pairs' : List Str} (h : List.Forall₂ (AlikePair percentDecode) pairs pairs') :
    pairs.map (fun pair => (maskPair pair).1) = pairs'.map (fun pair => (maskPair pair).1) ↔
      ∀ both ∈ pairs.zip pairs', both.1 ≠ both.2 → isSensitiveKey (trim (both.1.takeWhile (· ≠ '='))) = true := by
  induction h with
  | nil => exact iff_of_true rfl nofun
  | cons hpair _ ih =>
    rw [map_cons, map_cons, List.cons.injEq, maskPair_eq_iff hpair, ih, zip_cons_cons, forall_mem_cons]

theorem looksJson_append {s : Str} {c : Char} (hspace : isWhitespace c = false) (hc : c ≠ '\x7b' ∧ c ≠ '[') (rest : Str) :
    looksJson (s ++ c :: rest) ↔ looksJson s := by
  unfold looksJson
  by_cases hs : s.dropWhile isWhitespace = []
  · rw [dropWhile_append_of_pos (dropWhile_eq_nil_iff.mp hs), dropWhile_cons_of_neg (by rw [hspace]; decide), hs]
    simp [hc.1, hc.2]
  · rw [dropWhile_append, if_neg (by simpa using hs), head?_append_of_ne_nil _ hs]

theorem looksJson_splitOn (t : Str) : looksJson t ↔ ∃ first ∈ (t.splitOn '&').head?, looksJson first := by
  obtain ⟨first, rest, hsplit⟩ := exists_cons_of_ne_nil (splitOn_ne_nil '&' t)
  have ht : ['&'].intercalate (t.splitOn '&') = t := intercalate_splitOn '&'
  rw [hsplit, head?_cons] at *
  have hfirst : (∃ pair ∈ some first, looksJson pair) ↔ looksJson first := by simp
  rw [hfirst]
  cases rest with
  | nil => rw [← ht, intercalate_singleton]
  | cons second rest =>
    rw [← ht, intercalate_cons_cons, append_assoc, singleton_append, looksJson_append (by decide) (by decide)]

theorem AlikeForm.looksJson_iff {t t' : Str} (h : AlikeForm percentDecode t t') : looksJson t ↔ looksJson t' := by
  rw [looksJson_splitOn t, looksJson_splitOn t']
  unfold AlikeForm at h
  generalize t.splitOn '&' = pairs, t'.splitOn '&' = pairs' at h
  cases h with
  | nil => exact Iff.rfl
  | cons hpair =>
    simp only [head?_cons, Option.mem_def, Option.some.injEq, exists_eq_left']
    obtain rfl | ⟨k, v, v', -, -, rfl, rfl⟩ := hpair
    · rfl
    · rw [looksJson_append (by decide) (by decide), looksJson_append (by decide) (by decide)]

/-- Two forms in which only the pairs are masked are shown alike exactly where they are the same, or do not look like JSON and
the names of the pairs that differ are sensitive as they are written. -/
theorem maskSecrets_form_eq_iff {t t' : Str} (halike : AlikeForm percentDecode t t') (h : PlainForm t) (h' : PlainForm t') :
    (maskSecrets t).1 = (maskSecrets t').1 ↔ (looksJson t → t = t') ∧
      ∀ both ∈ (t.splitOn '&').zip (t'.splitOn '&'), both.1 ≠ both.2 →
        isSensitiveKey (trim (both.1.takeWhile (· ≠ '='))) = true := by
  rw [maskSecrets_form h, maskSecrets_form h']
  by_cases hlooks : looksJson t
  · rw [maskPairs_of_looksJson h.2 hlooks, maskPairs_of_looksJson h'.2 (halike.looksJson_iff.mp hlooks)]
    refine ⟨fun heq => ⟨fun _ => heq, (map_maskPair_eq_iff halike).mp ?_⟩, fun heq => heq.1 hlooks⟩
    rw [heq]
  · rw [maskPairs_eq h.2 hlooks, maskPairs_eq h'.2 (mt halike.looksJson_iff.mpr hlooks), formShown_eq_iff,
      map_maskPair_eq_iff halike]
    exact (and_iff_right fun hl => absurd hl hlooks).symm

/-- A JSON text is masked alike whatever its sensitive members hold, where every key that the scan reads as it is written is
sensitive as soon as it is when decoded; and only there, where nothing in it marks a multipart form. A form in which only the
pairs are masked is masked alike whatever its sensitive pairs hold exactly where it does not look like JSON and those that
differ are sensitive as they are written. Of a text that is cut, no more is shown than of the whole, but where it is a
multipart form: there what is masked is a beginning of the masked JSON text. -/
theorem secrets_hidden_iff (percentDecode : List UInt8 → List UInt8) (t : Str) :
    (∀ t', AlikeJson t t' → (∀ k ∈ scannedKeys t, ¬ Exposes k) → (maskSecrets t').1 = (maskSecrets t).1) ∧
      (IsJson t → isMultipart t = false →
        ((∀ t', AlikeJson t t' → (maskSecrets t').1 = (maskSecrets t).1) ↔ ∀ k ∈ scannedKeys t, ¬ Exposes k)) ∧
      (∀ t', AlikeForm percentDecode t t' → PlainForm t → PlainForm t' → ((maskSecrets t).1 = (maskSecrets t').1 ↔
        (looksJson t → t = t') ∧ ∀ both ∈ (t.splitOn '&').zip (t'.splitOn '&'), both.1 ≠ both.2 →
          isSensitiveKey (trim (both.1.takeWhile (· ≠ '='))) = true)) ∧
      (∀ p, p <+: t → isMultipart t = false → (maskSecrets p).1 <+: (maskSecrets t).1) ∧
      ∀ p, p <+: t → ∃ shown, shown <+: (maskJsonValues t).1 ∧ (maskSecrets p).1 = (maskPairs shown).1 := by
  have hsame {t' : Str} (h : AlikeJson t t') (hkeys : ∀ k ∈ scannedKeys t, ¬ Exposes k) :
      (maskSecrets t').1 = (maskSecrets t).1 := by
    unfold maskSecrets
    dsimp only
    rw [maskJsonValues_alike h hkeys]
  refine ⟨fun t' => hsame, fun ht hplain => ⟨fun hall => ?_, fun hkeys t' h => hsame h hkeys⟩, ?_, ?_, ?_⟩
  · by_contra hkeys
    simp only [not_forall, not_not] at hkeys
    obtain ⟨k, hk, hexposes⟩ := hkeys
    obtain ⟨t', halike, hdigit, hne⟩ := exists_maskJsonValues_ne ht ⟨k, hk, hexposes⟩
    obtain ⟨hlooks, hlooks'⟩ := looksJson_of_keys halike (List.ne_nil_of_mem hk)
    have hmask := hall t' halike
    rw [maskSecrets_json hplain hlooks, maskSecrets_json (isMultipart_digit hdigit hplain) hlooks'] at hmask
    exact hne hmask
  · exact fun t' halike hplain hplain' => maskSecrets_form_eq_iff halike hplain hplain'
  · intro p h ht
    exact maskPairs_prefix (prefix_maskJsonValues h) (isMultipart_mask ht)
  · intro p h
    exact ⟨_, prefix_maskJsonValues h, rfl⟩

/-- The value of a hexadecimal digit. -/
def hexValue (b : UInt8) : Option UInt8 :=
  if 0x30 ≤ b ∧ b ≤ 0x39 then some (b - 0x30)
  else if 0x41 ≤ b ∧ b ≤ 0x46 then some (b - 0x37)
  else if 0x61 ≤ b ∧ b ≤ 0x66 then some (b - 0x57)
  else none

/-- What is decoded of percent-encoded bytes; a percent sign without two digits stands for itself. -/
def percentDecoded : List UInt8 → List UInt8
  | [] => []
  | [b] => [b]
  | [b, c] => [b, c]
  | b :: c :: d :: rest =>
    match hexValue c, hexValue d with
    | some high, some low =>
      if b = 0x25 then (high * 16 + low) :: percentDecoded rest else b :: percentDecoded (c :: d :: rest)
    | _, _ => b :: percentDecoded (c :: d :: rest)

theorem plain_r : 'r' ≠ '"' ∧ 'r' ≠ '\\' ∧ 0x20 ≤ 'r'.toNat := by decide

/-- The key `password` with an escape for one of its letters. -/
def escapedKey : Text :=
  [.plain 'p' (by decide), .plain 'a' (by decide), .plain 's' (by decide), .plain 's' (by decide),
    .unit ['0', '0', '7', '7'] [0, 0, 7, 7] (by decide) rfl, .plain 'o' (by decide), .plain 'r' plain_r,
    .plain 'd' (by decide)]

/-- An object whose only key is that, and a form whose only name is written so: both show the value. A form whose value
reads like a member of an object shows less than it would with another. -/
theorem secrets_shown_under_escapes :
    (AlikeJson ("\x7b\"pass\\u0077ord\":1\x7d".toList) ("\x7b\"pass\\u0077ord\":2\x7d".toList) ∧
        (maskSecrets "\x7b\"pass\\u0077ord\":1\x7d".toList).1 = "\x7b\"pass\\u0077ord\":1\x7d".toList ∧
        (maskSecrets "\x7b\"pass\\u0077ord\":1\x7d".toList).1 ≠ (maskSecrets "\x7b\"pass\\u0077ord\":2\x7d".toList).1) ∧
      (AlikeForm percentDecoded "p%61ssword=1".toList "p%61ssword=2".toList ∧
        (maskSecrets "p%61ssword=1".toList).1 ≠ (maskSecrets "p%61ssword=2".toList).1) ∧
      AlikeForm percentDecoded "password=1&x=y".toList "password=\"token\":5&x=y".toList ∧
        (maskSecrets "password=1&x=y".toList).1 ≠ (maskSecrets "password=\"token\":5&x=y".toList).1 := by
  have hspaces : IsSpaces [] := List.forall_mem_nil _
  have hnumber {c : Char} (hc : c.isDigit = true) (hzero : c ≠ '0') : Derives .value [c] :=
    .number _ ⟨[], [c], [], [], List.mem_cons_self,
      ⟨⟨List.cons_ne_nil c [], by simpa using hc⟩, fun h => absurd (Option.some.inj h) hzero⟩, Or.inl rfl, Or.inl rfl, rfl⟩
  have hone : Derives .value ['1'] := hnumber rfl (by decide)
  have htwo : Derives .value ['2'] := hnumber rfl (by decide)
  have hobject {v : Str} (hv : Derives .value v) :
      Derives .value ('\x7b' :: (memberFront escapedKey [] [] ++ v ++ ['\x7d'])) := by
    have hmember := Derives.member [] escapedKey [] [] v [] hspaces hspaces hspaces hv hspaces
    rw [List.append_nil] at hmember
    exact .object _ _ hmember
  have hkey : SecretKey escapedKey.body := ⟨escapedKey, rfl, "password".toList, rfl, by decide⟩
  have halike : Alike .value ('\x7b' :: (memberFront escapedKey [] [] ++ ['1'] ++ ['\x7d']))
      ('\x7b' :: (memberFront escapedKey [] [] ++ ['2'] ++ ['\x7d'])) := by
    have hlast := Alike.last true [] [] _ _ hspaces hspaces
      (.secret escapedKey [] [] ['1'] ['2'] hspaces hspaces hone htwo hkey)
    rw [List.append_nil, List.append_nil] at hlast
    exact .object _ _ hlast
  refine ⟨⟨⟨[], _, _, [], hspaces, hspaces, hobject hone, hobject htwo, halike, rfl, rfl⟩, ?_, ?_⟩, ⟨?_, ?_⟩, ?_, ?_⟩
  · decide +kernel
  · decide +kernel
  · refine List.Forall₂.cons (Or.inr ⟨"p%61ssword".toList, ['1'], ['2'], by decide, ?_, rfl, rfl⟩) List.Forall₂.nil
    decide +kernel
  · decide +kernel
  · have hrest : List.Forall₂ (AlikePair percentDecoded) ["x=y".toList] ["x=y".toList] := .cons (Or.inl rfl) .nil
    refine List.Forall₂.cons (Or.inr ⟨"password".toList, ['1'], "\"token\":5".toList, by decide, ?_, rfl, rfl⟩) hrest
    decide +kernel
  · decide +kernel

end Onecli.Summary.Redact
