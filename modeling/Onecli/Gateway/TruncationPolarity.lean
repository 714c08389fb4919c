import Onecli.Foundation.Occurrences
import Onecli.Gateway.Condition
import Onecli.Gateway.LossyPrefix

/-!
# The polarity of a truncated body

What `condition_match::matches` finds in the beginning of a body it should find in the whole: a restrictive rule may
only start to match on a truncated body, a permissive one only stop. Decoding the beginning is lossy, and a character
that the cut goes through becomes a U+FFFD that the whole body need not have. A permissive rule is fooled by it exactly
when one of its values ends with that character and no other value of the rule contains this one.
-/

namespace Onecli.Gateway

open CodeUnits Occurrences List Option Bool

/-- The replacement character. -/
def replacement : Char := '\uFFFD'

/-- The values that the conditions of a rule look for in the body. -/
def bodyValues (conditionsRaw : Option (Json Str)) : List Str :=
  (((conditionsRaw.bind parseConditions).getD []).filter fun condition =>
    condition.target = "body".toList ∧ condition.operator = "contains".toList).map ParsedCondition.valueLower

/-- What truncation may do to one rule: a restrictive rule keeps matching, a permissive one does not start to. -/
def TruncationSafe (conditionsRaw : Option (Json Str)) (action : PolicyAction) : Prop :=
  ∀ b p : List UInt8, p <+: b →
    (action ≠ .allow → conditionsMatch conditionsRaw action (.full b) = true →
      conditionsMatch conditionsRaw action (.truncated p) = true) ∧
    (action = .allow → conditionsMatch conditionsRaw action (.truncated p) = true →
      conditionsMatch conditionsRaw action (.full b) = true)

section Conditions

variable {conditionsRaw : Option (Json Str)}

theorem conditionsMatch_iff {action : PolicyAction} {body : ConditionBody} {bytes : List UInt8}
    (h : ∀ condition : ParsedCondition, conditionMatches condition body (action ≠ .allow) =
      if condition.target = "body".toList ∧ condition.operator = "contains".toList then
        containsValue bytes condition.valueLower
      else true) :
    conditionsMatch conditionsRaw action body = true ↔ ∀ v ∈ bodyValues conditionsRaw, containsValue bytes v = true := by
  unfold conditionsMatch bodyValues
  cases conditionsRaw.bind parseConditions with
  | none => exact iff_of_true rfl nofun
  | some =>
    rw [List.all_eq_true, List.forall_mem_map, forall_mem_filter]
    refine forall_congr' fun condition => imp_congr_right fun _ => ?_
    rw [h condition, decide_eq_true_eq]
    split
    · next hbody => exact ⟨fun hfound _ => hfound, fun hfound => hfound hbody⟩
    · next hbody => exact iff_of_true rfl fun hcontra => absurd hcontra hbody

/-- On a full body every value must be found. -/
theorem conditionsMatch_full_iff (action : PolicyAction) (b : List UInt8) :
    conditionsMatch conditionsRaw action (.full b) = true ↔ ∀ v ∈ bodyValues conditionsRaw, containsValue b v = true :=
  conditionsMatch_iff fun _ => rfl

/-- An allow rule must find its values in front of the cut. -/
theorem conditionsMatch_truncated_allow_iff (p : List UInt8) :
    conditionsMatch conditionsRaw .allow (.truncated p) = true ↔
      ∀ v ∈ bodyValues conditionsRaw, containsValue p v = true := by
  refine conditionsMatch_iff fun condition => ?_
  unfold conditionMatches
  split
  · exact Bool.or_false _
  · rfl

theorem exists_of_mapM {X Y : Type} {read : X → Option Y} {items : List X} {out : List Y} (h : items.mapM read = some out) :
    ∀ y ∈ out, ∃ x ∈ items, read x = some y := by
  induction items generalizing out with
  | nil =>
    cases h
    exact nofun
  | cons x items ih =>
    rw [mapM_cons] at h
    obtain ⟨y, hy, h⟩ := bind_eq_some_iff.mp h
    obtain ⟨rest, hrest, h⟩ := bind_eq_some_iff.mp h
    cases h
    intro z hz
    cases mem_cons.mp hz with
    | inl heq => exact ⟨x, mem_cons_self, by rw [heq]; exact hy⟩
    | inr hz =>
      obtain ⟨item, hitem, hread⟩ := ih hrest z hz
      exact ⟨item, mem_cons_of_mem x hitem, hread⟩

theorem toLower_of_rawCondition {item : Json Str} {condition : ParsedCondition} (h : rawCondition item = some condition) :
    ∀ c ∈ condition.valueLower, c.toLower = c := by
  have hfolded (value : Str) : ∀ c ∈ toAsciiLowercase value, c.toLower = c := by
    intro c hc
    obtain ⟨d, -, rfl⟩ := List.mem_map.mp hc
    exact toLower_toLower d
  unfold rawCondition at h
  split at h
  · cases h
    exact hfolded _
  · obtain ⟨target, -, h⟩ := bind_eq_some_iff.mp h
    obtain ⟨operator, -, h⟩ := bind_eq_some_iff.mp h
    obtain ⟨value, -, h⟩ := bind_eq_some_iff.mp h
    cases h
    exact hfolded _
  · cases h

/-- Body values are lower case. -/
theorem toLower_of_bodyValues {v : Str} (hv : v ∈ bodyValues conditionsRaw) : ∀ c ∈ v, c.toLower = c := by
  obtain ⟨condition, hcondition, rfl⟩ := List.mem_map.mp hv
  cases hparse : conditionsRaw.bind parseConditions with
  | none =>
    rw [hparse] at hcondition
    cases hcondition
  | some conditions =>
    rw [hparse] at hcondition
    have hmem : condition ∈ conditions := (mem_filter.mp hcondition).1
    obtain ⟨raw, -, hraw⟩ := bind_eq_some_iff.mp hparse
    unfold parseConditions at hraw
    split at hraw
    · next items =>
      split at hraw
      · cases hraw
      · next read hread =>
        split at hraw
        · cases hraw
        · cases hraw
          obtain ⟨item, -, hitem⟩ := exists_of_mapM hread condition hmem
          exact toLower_of_rawCondition hitem
    · cases hraw

/-- A value is found in the decoded bytes. -/
theorem containsValue_iff {bytes : List UInt8} {v : Str} :
    containsValue bytes v = true ↔ v <:+: toAsciiLowercase (fromUtf8Lossy bytes) := decide_eq_true_iff

end Conditions

section Polarity

theorem toAsciiLowercase_of_folded {s : Str} (h : ∀ c ∈ s, c.toLower = c) : toAsciiLowercase s = s := by
  rw [toAsciiLowercase, map_congr_left h, List.map_id']

theorem getLast?_of_fooled {v q t : Str} (ht : t = [] ∨ t = [replacement]) (hv : v <:+: q ++ t) (hq : ¬ v <:+: q) :
    v.getLast? = some replacement := by
  cases ht with
  | inl hnil =>
    rw [hnil, append_nil] at hv
    exact absurd hv hq
  | inr hcut =>
    rw [hcut] at hv
    exact getLast?_of_infix_concat hv hq

variable {values : List Str} {v : Str}

/-- A replacement at the cut fools no value that another covers. -/
theorem found_of_covered (h : ∀ v ∈ values, v.getLast? = some replacement → ∃ w ∈ values, w ≠ v ∧ v <:+: w)
    {q t whole : Str} (ht : t = [] ∨ t = [replacement]) (hwhole : q <+: whole) (hfound : ∀ v ∈ values, v <:+: q ++ t) :
    ∀ v ∈ values, v <:+: whole := by
  by_contra hmissing
  obtain ⟨v, hv, hnot⟩ : ∃ v ∈ values, ¬ v <:+: q := by
    by_contra hall
    refine hmissing fun v hv => ?_
    have hq : v <:+: q := by
      by_contra hnot
      exact hall ⟨v, hv, hnot⟩
    exact hq.trans hwhole.isInfix
  -- the longest value that is missing is part of a longer one, which is then missing as well
  obtain ⟨v, hv, hnot, hlongest⟩ := exists_longest (p := fun v => ¬ v <:+: q) ⟨v, hv, hnot⟩
  obtain ⟨w, hw, hne, hin⟩ := h v hv (getLast?_of_fooled ht (hfound v hv) hnot)
  have hle := hlongest w hw fun hwq => hnot (hin.trans hwq)
  exact hne (hin.eq_of_length_le hle).symm

/-- A body on which a rule is fooled: the other values, and at the cut the value that no other contains. -/
def foolingText (values : List Str) (v : Str) : Str :=
  ((values.filter (· ≠ v)).flatMap fun w => w ++ List.replicate v.length (if v.head? = some 'a' then 'b' else 'a')) ++
    v.dropLast

theorem not_infix_foolingText (hlast : v.getLast? = some replacement) (halone : ∀ w ∈ values, w ≠ v → ¬ v <:+: w) :
    ¬ v <:+: foolingText values v := by
  have hne : v ≠ [] := by
    rintro rfl
    cases hlast
  intro hin
  have hcases := infix_of_flatMap_separated hne ?_ ?_ hin
  · cases hcases with
    | inl hblock =>
      obtain ⟨w, hw, hvw⟩ := hblock
      obtain ⟨hw, hwv⟩ := mem_filter.mp hw
      exact halone w hw (of_decide_eq_true hwv) hvw
    | inr htail =>
      have hlength := htail.length_le
      rw [length_dropLast] at hlength
      have hpos := length_pos_iff.mpr hne
      omega
  · split
    · next ha => rw [ha]; decide
    · next ha => exact ha
  · rw [hlast]
    split
    · decide
    · decide

theorem infix_foolingText (hlast : v.getLast? = some replacement) {w : Str} (hw : w ∈ values) :
    w <:+: foolingText values v ++ [replacement] := by
  unfold foolingText
  by_cases hwv : w = v
  · have hsplit : v.dropLast ++ [replacement] = v := dropLast_append_getLast? replacement hlast
    rw [append_assoc, hsplit, hwv]
    exact infix_append_right
  · refine List.IsInfix.trans ?_ (infix_append_left.trans infix_append_left)
    have hblock : w ∈ values.filter (· ≠ v) := mem_filter.mpr ⟨hw, decide_eq_true hwv⟩
    obtain ⟨before, after, hblocks⟩ := append_of_mem hblock
    rw [hblocks, flatMap_append, flatMap_cons, append_assoc]
    exact List.infix_append' _ _ _

theorem toLower_foolingText (hv : v ∈ values) (h : ∀ w ∈ values, ∀ c ∈ w, c.toLower = c) :
    ∀ c ∈ foolingText values v, c.toLower = c := by
  intro c hc
  cases mem_append.mp hc with
  | inr hc => exact h v hv c (mem_of_mem_dropLast hc)
  | inl hc =>
    obtain ⟨w, hw, hc⟩ := mem_flatMap.mp hc
    cases mem_append.mp hc with
    | inl hc => exact h w (mem_filter.mp hw).1 c hc
    | inr hc =>
      rw [eq_of_mem_replicate hc]
      split
      · decide
      · decide

/-- A value that ends in a replacement can be fooled. -/
theorem exists_fooled (hv : v ∈ values) (hlast : v.getLast? = some replacement)
    (halone : ∀ w ∈ values, w ≠ v → ¬ v <:+: w) (hfolded : ∀ w ∈ values, ∀ c ∈ w, c.toLower = c) :
    ∃ b p : List UInt8, p <+: b ∧ (∀ w ∈ values, containsValue p w = true) ∧ containsValue b v = false := by
  have htext := toLower_foolingText hv hfolded
  refine ⟨asBytes (foolingText values v ++ ['é']), asBytes (foolingText values v) ++ [0xC3], ⟨[0xA9], ?_⟩, fun w hw => ?_, ?_⟩
  · rw [append_assoc, asBytes, asBytes, encode_append]
    rfl
  · rw [containsValue_iff, fromUtf8Lossy_cut]
    rw [toAsciiLowercase_of_folded]
    · exact infix_foolingText hlast hw
    · intro c hc
      cases mem_append.mp hc with
      | inl hc => exact htext c hc
      | inr hc =>
        rw [mem_singleton.mp hc]
        decide
  · refine eq_false_iff.mpr fun hfound => ?_
    rw [containsValue_iff, fromUtf8Lossy_asBytes, toAsciiLowercase_of_folded] at hfound
    · rw [getLast?_of_infix_concat hfound (not_infix_foolingText hlast halone)] at hlast
      exact absurd hlast (by decide)
    · intro c hc
      cases mem_append.mp hc with
      | inl hc => exact htext c hc
      | inr hc =>
        rw [mem_singleton.mp hc]
        decide

/-- Truncation keeps to the rule's polarity exactly where the rule is restrictive, or every value that ends with the
replacement character is part of another value of the rule. -/
theorem truncation_safe_iff (conditionsRaw : Option (Json Str)) (action : PolicyAction) :
    TruncationSafe conditionsRaw action ↔
      action ≠ .allow ∨ ∀ v ∈ bodyValues conditionsRaw, v.getLast? = some replacement →
        ∃ w ∈ bodyValues conditionsRaw, w ≠ v ∧ v <:+: w := by
  by_cases haction : action = .allow
  · subst haction
    rw [or_iff_right fun hne => hne rfl]
    constructor
    · intro hsafe v hv hlast
      by_contra halone
      obtain ⟨b, p, hcut, hfound, hmissing⟩ := exists_fooled hv hlast
        (fun w hw hne hin => halone ⟨w, hw, hne, hin⟩) fun w hw => toLower_of_bodyValues hw
      have hmatch := (hsafe b p hcut).2 rfl (conditionsMatch_truncated_allow_iff p |>.mpr hfound)
      rw [(conditionsMatch_full_iff .allow b).mp hmatch v hv] at hmissing
      cases hmissing
    · intro hcovered b p hcut
      refine ⟨fun hne => absurd rfl hne, fun _ hmatch => ?_⟩
      obtain ⟨q, t, hp, hq, ht⟩ := fromUtf8Lossy_of_prefix hcut
      refine (conditionsMatch_full_iff .allow b).mpr fun v hv => containsValue_iff.mpr ?_
      have hfound := (conditionsMatch_truncated_allow_iff p).mp hmatch
      have htail : toAsciiLowercase t = [] ∨ toAsciiLowercase t = [replacement] := by
        cases ht with
        | inl h => rw [h]; exact Or.inl rfl
        | inr h => rw [h]; exact Or.inr (by decide)
      refine found_of_covered hcovered htail (hq.map Char.toLower) (fun w hw => ?_) v hv
      have hw := containsValue_iff.mp (hfound w hw)
      rwa [hp, toAsciiLowercase, List.map_append] at hw
  · refine iff_of_true (fun b p _ => ⟨fun _ _ => ?_, fun heq => absurd heq haction⟩) (Or.inl haction)
    exact conditionsMatch_truncated_restrictive conditionsRaw haction p

/-- A rule that looks for the replacement character alone. -/
def replacementRule : Option (Json Str) :=
  some (.arr [.arr [.str "body".toList, .str "contains".toList, .str [replacement]]])

/-- A permissive rule starts to match on a body that is cut within its first character. -/
theorem not_truncation_safe : ¬ ∀ (conditionsRaw : Option (Json Str)) (action : PolicyAction),
    TruncationSafe conditionsRaw action := by
  intro hclaim
  have hmatch := (hclaim replacementRule .allow [0xC3, 0xA9] [0xC3] ⟨[0xA9], rfl⟩).2 rfl (by decide)
  exact absurd hmatch (by decide)

end Polarity

end Onecli.Gateway
