import Onecli.Summary.RedactCut
import Onecli.Summary.RedactJson

/-!
# Secrets in a masked JSON text

Where every key that is read as a sensitive one is also written as one, the values of such members never reach the masked
text. Where one is not, its value does.
-/

namespace Onecli.Summary.Redact

open JsonText Utf16 List Option
open Gateway (Str)

/-! ## Texts that differ in secrets -/

/-- A key that is read as a sensitive one, as it is written. -/
def SecretKey (raw : Str) : Prop :=
  ∃ s : Text, s.body = raw ∧ ∃ key : Str, utf16 key = s.units ∧ isSensitiveKey key = true

/-- The parts of a text: a value, an item or a member of a container, and what a container holds. -/
inductive Kind where
  | value
  | entry (inObject : Bool)
  | entries (inObject : Bool)

/-- Two texts that differ only in the values of members whose keys are read as sensitive ones. -/
inductive Alike : Kind → Str → Str → Prop where
  | same (v : Str) (hv : Derives .value v) : Alike .value v v
  | array (s s' : Str) (h : Alike (.entries false) s s') : Alike .value ('[' :: (s ++ [']'])) ('[' :: (s' ++ [']']))
  | object (s s' : Str) (h : Alike (.entries true) s s') :
    Alike .value ('\x7b' :: (s ++ ['\x7d'])) ('\x7b' :: (s' ++ ['\x7d']))
  | item (v v' : Str) (h : Alike .value v v') : Alike (.entry false) v v'
  | member (key : Text) (colon between v v' : Str) (hcolon : IsSpaces colon) (hbetween : IsSpaces between)
    (hv : Derives .value v) (hv' : Derives .value v') (h : Alike .value v v') :
    Alike (.entry true) (memberFront key colon between ++ v) (memberFront key colon between ++ v')
  | secret (key : Text) (colon between v v' : Str) (hcolon : IsSpaces colon) (hbetween : IsSpaces between)
    (hv : Derives .value v) (hv' : Derives .value v') (hkey : SecretKey key.body) :
    Alike (.entry true) (memberFront key colon between ++ v) (memberFront key colon between ++ v')
  | last (inObject : Bool) (before after e e' : Str) (hbefore : IsSpaces before) (hafter : IsSpaces after)
    (h : Alike (.entry inObject) e e') :
    Alike (.entries inObject) (before ++ (e ++ after)) (before ++ (e' ++ after))
  | more (inObject : Bool) (before after e e' tail tail' : Str) (hbefore : IsSpaces before) (hafter : IsSpaces after)
    (h : Alike (.entry inObject) e e') (htail : Alike (.entries inObject) tail tail') :
    Alike (.entries inObject) (before ++ (e ++ (after ++ ',' :: tail))) (before ++ (e' ++ (after ++ ',' :: tail')))

/-- A key that is read as a sensitive one and not written as one. -/
def Exposes (raw : Str) : Prop := SecretKey raw ∧ isSensitiveKey raw = false

/-- What is derived as a part of a text. -/
def WellFormed : Kind → Str → Prop
  | .value, s | .entry false, s => Derives .value s
  | .entry true, s => ∃ key colon between v, IsSpaces colon ∧ IsSpaces between ∧ Derives .value v ∧
      s = memberFront key colon between ++ v
  | .entries false, s => Derives .items s
  | .entries true, s => ∃ entries, Derives (.members entries) s

/-- A digit stands for a part of a text. -/
def DigitFor (s s' : Str) : Prop :=
  ∃ front v back d, d.isDigit = true ∧ s = front ++ (v ++ back) ∧ s' = front ++ ([d] ++ back)

/-- A digit within a text. -/
theorem DigitFor.within {s s' : Str} (h : DigitFor s s') (before after : Str) :
    DigitFor (before ++ (s ++ after)) (before ++ (s' ++ after)) := by
  obtain ⟨front, v, back, d, hd, rfl, rfl⟩ := h
  refine ⟨before ++ front, v, back ++ after, d, hd, ?_, ?_⟩
  · simp only [append_assoc]
  · simp only [append_assoc]

theorem DigitFor.behind {s s' : Str} (h : DigitFor s s') (before : Str) : DigitFor (before ++ s) (before ++ s') := by
  have hwithin := h.within before []
  rw [append_nil, append_nil] at hwithin
  exact hwithin

/-- A part of a text is shown as something, and where a key in it exposes its value, the same part with a digit for the value
is shown as something else. -/
def Told (kind : Kind) (s : Str) : Prop :=
  ∃ shown keys, Reads s shown keys ∧ Alike kind s s ∧ WellFormed kind s ∧
    ((∃ k ∈ keys, Exposes k) → ∃ s' shown' keys', Alike kind s s' ∧ WellFormed kind s' ∧ Reads s' shown' keys' ∧
      shown' ≠ shown ∧ DigitFor s s')

theorem Told.plain {v : Str} (hv : Derives .value v) (h : Reads v v []) : Told .value v :=
  ⟨v, [], h, .same v hv, hv, fun ⟨_, hk, _⟩ => absurd hk not_mem_nil⟩

variable {inObject : Bool}

theorem Told.container {opening close : Char} (hopening : opening ∈ ['\x7b', '[']) (hclose : close ∈ ['\x7d', ']'])
    {inner : Str}
    (halike : ∀ s s', Alike (.entries inObject) s s' → Alike .value (opening :: (s ++ [close])) (opening :: (s' ++ [close])))
    (hwell : ∀ s, WellFormed (.entries inObject) s → Derives .value (opening :: (s ++ [close])))
    (h : Told (.entries inObject) inner) : Told .value (opening :: (inner ++ [close])) := by
  obtain ⟨shown, keys, hreads, hsame, hinner, hexposed⟩ := h
  refine ⟨_, keys, .container hopening hclose hreads, halike _ _ hsame, hwell _ hinner, fun hk => ?_⟩
  obtain ⟨s', shown', keys', halike', hwell', hreads', hne, hdigit⟩ := hexposed hk
  refine ⟨_, _, keys', halike _ _ halike', hwell _ hwell', .container hopening hclose hreads', fun heq => hne ?_,
    hdigit.within [opening] [close]⟩
  exact append_cancel_right (List.cons.inj heq).2

theorem wellFormed_last {before after e : Str} (hbefore : IsSpaces before) (hafter : IsSpaces after)
    (h : WellFormed (.entry inObject) e) : WellFormed (.entries inObject) (before ++ (e ++ after)) := by
  cases inObject with
  | false => exact .item before e after hbefore h hafter
  | true =>
    obtain ⟨key, colon, between, v, hcolon, hmid, hv, rfl⟩ := h
    have hmember := Derives.member before key colon between v after hbefore hcolon hmid hv hafter
    refine ⟨[(key, v)], ?_⟩
    unfold memberFront
    simpa only [append_assoc, cons_append] using hmember

theorem wellFormed_more {before after e tail : Str} (hbefore : IsSpaces before) (hafter : IsSpaces after)
    (h : WellFormed (.entry inObject) e) (htail : WellFormed (.entries inObject) tail) :
    WellFormed (.entries inObject) (before ++ (e ++ (after ++ ',' :: tail))) := by
  cases inObject with
  | false => exact .moreItems before e after tail hbefore h hafter htail
  | true =>
    obtain ⟨key, colon, between, v, hcolon, hmid, hv, rfl⟩ := h
    obtain ⟨entries, htail⟩ := htail
    have hmems := Derives.moreMembers before key colon between v after tail entries hbefore hcolon hmid hv hafter htail
    refine ⟨(key, v) :: entries, ?_⟩
    unfold memberFront
    simpa only [append_assoc, cons_append] using hmems

theorem Told.last {before after e : Str} (hbefore : IsSpaces before) (hafter : IsSpaces after)
    (h : Told (.entry inObject) e) : Told (.entries inObject) (before ++ (e ++ after)) := by
  obtain ⟨shown, keys, hreads, hsame, hwell, hexposed⟩ := h
  refine ⟨_, keys, .last hbefore hafter hreads, .last inObject before after e e hbefore hafter hsame,
    wellFormed_last hbefore hafter hwell, fun hk => ?_⟩
  obtain ⟨s', shown', keys', halike, hwell', hreads', hne, hdigit⟩ := hexposed hk
  refine ⟨_, _, keys', .last inObject before after e s' hbefore hafter halike, wellFormed_last hbefore hafter hwell',
    .last hbefore hafter hreads', fun heq => hne ?_, hdigit.within before after⟩
  exact append_cancel_right (append_cancel_left heq)

theorem Told.more {before after e tail : Str} (hbefore : IsSpaces before) (hafter : IsSpaces after)
    (h : Told (.entry inObject) e) (htail : Told (.entries inObject) tail) :
    Told (.entries inObject) (before ++ (e ++ (after ++ ',' :: tail))) := by
  obtain ⟨shown, keys, hreads, hsame, hwell, hexposed⟩ := h
  obtain ⟨shownTail, keysTail, hreadsTail, hsameTail, hwellTail, hexposedTail⟩ := htail
  refine ⟨_, keys ++ keysTail, .more hbefore hafter hreads hreadsTail,
    .more inObject before after e e tail tail hbefore hafter hsame hsameTail,
    wellFormed_more hbefore hafter hwell hwellTail, fun ⟨k, hk, hexposes⟩ => ?_⟩
  cases mem_append.mp hk with
  | inl hk =>
    obtain ⟨s', shown', keys', halike, hwell', hreads', hne, hdigit⟩ := hexposed ⟨k, hk, hexposes⟩
    refine ⟨_, _, keys' ++ keysTail, .more inObject before after e s' tail tail hbefore hafter halike hsameTail,
      wellFormed_more hbefore hafter hwell' hwellTail, .more hbefore hafter hreads' hreadsTail, fun heq => hne ?_,
      hdigit.within before _⟩
    exact append_cancel_right (append_cancel_left heq)
  | inr hk =>
    obtain ⟨s', shown', keys', halike, hwell', hreads', hne, hdigit⟩ := hexposedTail ⟨k, hk, hexposes⟩
    refine ⟨_, _, keys ++ keys', .more inObject before after e e tail s' hbefore hafter hsame halike,
      wellFormed_more hbefore hafter hwell hwell', .more hbefore hafter hreads hreads', fun heq => hne ?_,
      (((hdigit.behind [',']).behind after).behind e).behind before⟩
    have hcomma := append_cancel_left (append_cancel_left (append_cancel_left heq))
    exact (List.cons.inj hcomma).2

theorem Told.item {v : Str} (h : Told .value v) : Told (.entry false) v := by
  obtain ⟨shown, keys, hreads, hsame, hwell, hexposed⟩ := h
  refine ⟨shown, keys, hreads, .item v v hsame, hwell, fun hk => ?_⟩
  obtain ⟨s', shown', keys', halike, hwell', hreads', hne, hdigit⟩ := hexposed hk
  exact ⟨s', shown', keys', .item v s' halike, hwell', hreads', hne, hdigit⟩

theorem exists_digit (shown : Str) : ∃ d, d.isDigit = true ∧ Derives .value [d] ∧ Reads [d] [d] [] ∧ [d] ≠ shown := by
  have hnumber {c : Char} (hc : c.isDigit = true) : IsNumber [c] :=
    ⟨[], [c], [], [], mem_cons_self,
      ⟨⟨cons_ne_nil c [], by simpa using hc⟩, fun h => by rw [some.inj h]⟩, .inl rfl, .inl rfl, rfl⟩
  by_cases h : shown = ['0']
  · refine ⟨'1', rfl, .number _ (hnumber rfl), .scalar (.inr (hnumber rfl)), ?_⟩
    rw [h]
    decide
  · exact ⟨'0', rfl, .number _ (hnumber rfl), .scalar (.inr (hnumber rfl)), Ne.symm h⟩

theorem Told.member (key : Text) {colon between v : Str} (hcolon : IsSpaces colon) (hmid : IsSpaces between)
    (h : Told .value v) : Told (.entry true) (memberFront key colon between ++ v) := by
  obtain ⟨shown, keys, hreads, hsame, hv, hexposed⟩ := h
  have hv : Derives .value v := hv
  have halike : Alike (.entry true) (memberFront key colon between ++ v) (memberFront key colon between ++ v) :=
    .member key colon between v v hcolon hmid hv hv hsame
  have hwell {v : Str} (hv : Derives .value v) : WellFormed (.entry true) (memberFront key colon between ++ v) :=
    ⟨key, colon, between, v, hcolon, hmid, hv, rfl⟩
  cases hkey : isSensitiveKey key.body with
  | true =>
    refine ⟨_, _, .masked key hcolon hmid hv hkey, halike, hwell hv, fun ⟨k, hk, hexposes⟩ => ?_⟩
    have hraw := hexposes.2
    rw [mem_singleton.mp hk, hkey] at hraw
    cases hraw
  | false =>
    refine ⟨_, _, .held key hcolon hmid hv hkey hreads, halike, hwell hv, fun ⟨k, hk, hexposes⟩ => ?_⟩
    cases mem_cons.mp hk with
    | inl hself =>
      rw [hself] at hexposes
      obtain ⟨d, hd, hv', hreads', hne⟩ := exists_digit shown
      have hdigit : DigitFor v [d] := ⟨[], v, [], d, hd, (append_nil v).symm, rfl⟩
      exact ⟨_, _, _, .secret key colon between v [d] hcolon hmid hv hv' hexposes.1, hwell hv',
        .held key hcolon hmid hv' hkey hreads', fun heq => hne (append_cancel_left heq), hdigit.behind _⟩
    | inr hk =>
      obtain ⟨v', shown', keys', halike', hv', hreads', hne, hdigit⟩ := hexposed ⟨k, hk, hexposes⟩
      exact ⟨_, _, _, .member key colon between v v' hcolon hmid hv hv' halike', hwell hv',
        .held key hcolon hmid hv' hkey hreads', fun heq => hne (append_cancel_left heq), hdigit.behind _⟩

/-- The kind of a part of the grammar. -/
def kindOf : Part → Kind
  | .value => .value
  | .items => .entries false
  | .members _ => .entries true

theorem told_derives {part : Part} {s : Str} (h : Derives part s) : Told (kindOf part) s := by
  induction h with
  | literal word hword => exact .plain (.literal word hword) (.scalar (.inl ⟨word, hword, rfl⟩))
  | number s hnumber => exact .plain (.number s hnumber) (.scalar (.inr hnumber))
  | string s => exact .plain (.string s) fun _ hrest => .quoted s hrest
  | emptyArray space hspace =>
    exact .plain (.emptyArray space hspace)
      (.container (by decide) (by decide) fun rest _ => .plains (not_mem_spaces hspace) rest)
  | array items hitems ih =>
    exact .container (by decide) (by decide) (fun s s' h => .array s s' h) (fun s hs => .array s hs) ih
  | emptyObject space hspace =>
    exact .plain (.emptyObject space hspace)
      (.container (by decide) (by decide) fun rest _ => .plains (not_mem_spaces hspace) rest)
  | object entries members hmems ih =>
    refine .container (by decide) (by decide) (fun s s' h => .object s s' h) (fun s hs => ?_) ih
    obtain ⟨entries, hs⟩ := hs
    exact .object entries s hs
  | item before value after hbefore hvalue hafter ih => exact .last hbefore hafter ih.item
  | moreItems before value after rest hbefore hvalue hafter hrest ihvalue ihrest =>
    exact .more hbefore hafter ihvalue.item ihrest
  | member before key colon between value after hbefore hcolon hmid hvalue hafter ih =>
    have h := Told.last hbefore hafter (.member key hcolon hmid ih)
    simp only [memberFront, append_assoc, cons_append] at h
    exact h
  | moreMembers before key colon between value after rest entries hbefore hcolon hmid hvalue hafter hrest ihvalue
      ihrest =>
    have h := Told.more hbefore hafter (.member key hcolon hmid ihvalue) ihrest
    simp only [memberFront, append_assoc, cons_append] at h
    exact h

theorem alike_reads {kind : Kind} {s s' : Str} (h : Alike kind s s') :
    ∃ shown keys, Reads s shown keys ∧ ((∀ k ∈ keys, ¬ Exposes k) → Reads s' shown keys) := by
  induction h with
  | same v hv =>
    obtain ⟨shown, keys, hreads, -⟩ := told_derives hv
    exact ⟨shown, keys, hreads, fun _ => hreads⟩
  | array s s' h ih | object s s' h ih =>
    obtain ⟨shown, keys, hreads, hreads'⟩ := ih
    exact ⟨_, keys, .container (by decide) (by decide) hreads,
      fun hk => .container (by decide) (by decide) (hreads' hk)⟩
  | item v v' h ih => exact ih
  | member key colon between v v' hcolon hmid hv hv' h ih =>
    cases hkey : isSensitiveKey key.body with
    | true => exact ⟨_, _, .masked key hcolon hmid hv hkey, fun _ => .masked key hcolon hmid hv' hkey⟩
    | false =>
      obtain ⟨shown, keys, hreads, hreads'⟩ := ih
      refine ⟨_, _, .held key hcolon hmid hv hkey hreads, fun hk => ?_⟩
      exact .held key hcolon hmid hv' hkey (hreads' fun k hmem => hk k (mem_cons_of_mem _ hmem))
  | secret key colon between v v' hcolon hmid hv hv' hsecret =>
    cases hkey : isSensitiveKey key.body with
    | true => exact ⟨_, _, .masked key hcolon hmid hv hkey, fun _ => .masked key hcolon hmid hv' hkey⟩
    | false =>
      obtain ⟨shown, keys, hreads, -⟩ := told_derives hv
      refine ⟨_, _, .held key hcolon hmid hv hkey hreads, fun hk => ?_⟩
      exact absurd ⟨hsecret, hkey⟩ (hk key.body mem_cons_self)
  | last inObject before after e e' hbefore hafter h ih =>
    obtain ⟨shown, keys, hreads, hreads'⟩ := ih
    exact ⟨_, keys, .last hbefore hafter hreads, fun hk => .last hbefore hafter (hreads' hk)⟩
  | more inObject before after e e' tail tail' hbefore hafter h htail ih ihtail =>
    obtain ⟨shown, keys, hreads, hreads'⟩ := ih
    obtain ⟨shownTail, keysTail, hreadsTail, hreadsTail'⟩ := ihtail
    refine ⟨_, _, .more hbefore hafter hreads hreadsTail, fun hk => ?_⟩
    exact .more hbefore hafter (hreads' fun k hmem => hk k (mem_append_left keysTail hmem))
      (hreadsTail' fun k hmem => hk k (mem_append_right keys hmem))

/-! ## JSON bodies -/

/-- Two JSON texts that differ only in the values of members whose keys are read as sensitive ones. -/
def AlikeJson (t t' : Str) : Prop :=
  ∃ before v v' after, IsSpaces before ∧ IsSpaces after ∧ Derives .value v ∧ Derives .value v' ∧ Alike .value v v' ∧
    t = before ++ (v ++ after) ∧ t' = before ++ (v' ++ after)

/-- A JSON text. -/
def IsJson (t : Str) : Prop :=
  ∃ before v after, IsSpaces before ∧ IsSpaces after ∧ Derives .value v ∧ t = before ++ (v ++ after)

/-- A reading of the whole text is its mask. -/
theorem Reads.whole {t shown : Str} {keys : List Str} (h : Reads t shown keys) :
    (maskJsonValues t).1 = shown ∧ scannedKeys t = keys := by
  have hnil : Follows [] := fun c hc => by cases hc
  have hscans := h [] hnil
  unfold Scans at hscans
  rw [append_nil, maskJsonValues, scannedKeys, append_nil, append_nil] at hscans
  exact hscans

/-- Where no key exposes its value, texts alike are masked alike. -/
theorem maskJsonValues_alike {t t' : Str} (h : AlikeJson t t') (hkeys : ∀ k ∈ scannedKeys t, ¬ Exposes k) :
    (maskJsonValues t').1 = (maskJsonValues t).1 := by
  obtain ⟨before, v, v', after, hbefore, hafter, hv, hv', halike, rfl, rfl⟩ := h
  obtain ⟨shown, keys, hreads, hreads'⟩ := alike_reads halike
  obtain ⟨hmask, hscanned⟩ := (Reads.last hbefore hafter hreads).whole
  rw [hscanned] at hkeys
  rw [(Reads.last hbefore hafter (hreads' hkeys)).whole.1, hmask]

/-- An exposing key shows through the mask. -/
theorem exists_maskJsonValues_ne {t : Str} (h : IsJson t) (hkeys : ∃ k ∈ scannedKeys t, Exposes k) :
    ∃ t', AlikeJson t t' ∧ DigitFor t t' ∧ (maskJsonValues t').1 ≠ (maskJsonValues t).1 := by
  obtain ⟨before, v, after, hbefore, hafter, hv, rfl⟩ := h
  obtain ⟨shown, keys, hreads, -, -, hexposed⟩ := told_derives hv
  obtain ⟨hmask, hscanned⟩ := (Reads.last hbefore hafter hreads).whole
  rw [hscanned] at hkeys
  obtain ⟨v', shown', keys', halike, hv', hreads', hne, hdigit⟩ := hexposed hkeys
  refine ⟨_, ⟨before, v, v', after, hbefore, hafter, hv, hv', halike, rfl, rfl⟩, hdigit.within before after,
    fun heq => hne ?_⟩
  rw [(Reads.last hbefore hafter hreads').whole.1, hmask] at heq
  exact append_cancel_right (append_cancel_left heq)

end Onecli.Summary.Redact
