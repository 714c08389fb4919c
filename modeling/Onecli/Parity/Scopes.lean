import Onecli.Access.Axes
import Onecli.Api.ResourceAxis
import Onecli.Parity.Matchers
import Mathlib.Data.Set.List

/-!
# The scope shown is the scope enforced

The gateway normalizes the entries of two policies before it tests them against each other,
the API tests them as they are stored. A cover test does not tell an entry from its normalized
form, so both keep the same entries. Stored policies hold texts of scalar values; the API reads
them as their code units.
-/

namespace Onecli.Parity

open Function

open CodeUnits Utf16 List Option
open Gateway (Str toAsciiLowercase toAsciiLowercase_toAsciiLowercase)
open Api (JsString asciiLower)

section Twins

/-- An axis of the API does to code units what one of the gateway does to texts. -/
structure Twin (axis : Gateway.ResourceAxis) (twin : Api.ResourceAxis) : Prop where
  key_eq : twin.key = utf16 axis.key
  normalize_eq (e : Str) : twin.normalize (utf16 e) = utf16 (axis.normalize e)
  coveredBy_eq (e : Str) (b : List Str) :
    twin.coveredBy (utf16 e) (b.map utf16) = axis.coveredBy e b

theorem isEmpty_utf16 (s : Str) : (utf16 s).isEmpty = s.isEmpty := by
  rw [Bool.eq_iff_iff, List.isEmpty_iff, List.isEmpty_iff]
  exact encode_eq_nil_iff utf16Char_selfDelimiting s

theorem isPrefixOf_utf16 (front s : Str) : (utf16 front).isPrefixOf (utf16 s) = front.isPrefixOf s := by
  rw [Bool.eq_iff_iff, isPrefixOf_iff_prefix, isPrefixOf_iff_prefix]
  exact encode_prefix_iff utf16Char_selfDelimiting front s

theorem contains_map_utf16 (texts : List Str) (s : Str) :
    (texts.map utf16).contains (utf16 s) = texts.contains s := by
  rw [Bool.eq_iff_iff, contains_iff_mem, contains_iff_mem, List.mem_map_of_injective utf16_injective]

theorem foldersNormalize_utf16 (e : Str) :
    Api.foldersNormalize (utf16 e) = utf16 (Gateway.normalizePath e) := by
  rw [Api.foldersNormalize, asciiLower_utf16]
  exact rdropWhile_encode (isDelimiter_utf16 '/' (by decide)) utf16Char_selfDelimiting.block_ne_nil _

/-- Chains have the same ids on both sides. -/
theorem chainIds_utf16 (e : Str) : Api.chainIds (utf16 e) = (Gateway.chainIds e).map utf16 := by
  rw [Api.chainIds, splitOn_utf16 '/' (by decide), List.filter_map]
  congr 2
  funext piece
  rw [comp_apply, isEmpty_utf16]

theorem twin_repositories : Twin Gateway.github Api.repositories where
  key_eq := rfl
  normalize_eq := asciiLower_utf16
  coveredBy_eq e b := by
    change ((b.map utf16).any fun b => asciiLower b == asciiLower (utf16 e)) =
      b.any fun b => toAsciiLowercase b == toAsciiLowercase e
    rw [List.any_map]
    congr 1
    funext f
    rw [comp_apply, asciiLower_utf16, asciiLower_utf16, utf16_beq]

theorem twin_folders : Twin Gateway.dropbox Api.folders where
  key_eq := rfl
  normalize_eq := foldersNormalize_utf16
  coveredBy_eq e b := by
    have hbelow (f : Str) :
        (utf16 (Gateway.normalizePath e) == utf16 f ||
            (utf16 f ++ js "/").isPrefixOf (utf16 (Gateway.normalizePath e))) =
          (Gateway.normalizePath e == f || (f ++ "/".toList).isPrefixOf (Gateway.normalizePath e)) := by
      rw [utf16_beq, ← isPrefixOf_utf16 (f ++ "/".toList), utf16_append]
      rfl
    have habsolute : (js "/").isPrefixOf (utf16 e) = "/".toList.isPrefixOf e := isPrefixOf_utf16 _ e
    have hnormalized :
        (b.map utf16).map Api.foldersNormalize = (b.map Gateway.normalizePath).map utf16 := by
      rw [List.map_map, List.map_map]
      exact map_congr_left fun f _ => foldersNormalize_utf16 f
    change (if ((b.map utf16).map Api.foldersNormalize).any (·.isEmpty) then true
        else if !(js "/").isPrefixOf (utf16 e) then false
        else if (Api.foldersNormalize (utf16 e)).isEmpty then false
        else ((b.map utf16).map Api.foldersNormalize).any fun f =>
          Api.foldersNormalize (utf16 e) == f || (f ++ js "/").isPrefixOf (Api.foldersNormalize (utf16 e))) =
      if (b.map Gateway.normalizePath).any (·.isEmpty) then true
        else Gateway.pathAllowed e (b.map Gateway.normalizePath)
    rw [hnormalized, habsolute, foldersNormalize_utf16, Gateway.pathAllowed]
    simp only [List.any_map, comp_def, isEmpty_utf16, hbelow]

theorem intercalate_utf16 (sep : Str) (pieces : List Str) :
    (utf16 sep).intercalate (pieces.map utf16) = utf16 (sep.intercalate pieces) := by
  induction pieces with
  | nil => rfl
  | cons piece pieces ih =>
    cases pieces with
    | nil => rw [map_singleton, intercalate_singleton, intercalate_singleton]
    | cons =>
      rw [map_cons, map_cons, intercalate_cons_cons, intercalate_cons_cons,
        utf16_append, utf16_append, ← map_cons, ih]

theorem chainIds_utf16_length (e : Str) :
    ((Api.chainIds (utf16 e)).length == 0) = (Gateway.chainIds e).isEmpty := by
  rw [chainIds_utf16]
  cases Gateway.chainIds e <;> rfl

theorem chainIds_utf16_all (e f : Str) :
    (Api.chainIds (utf16 f)).all (Api.chainIds (utf16 e)).eraseDups.contains =
      (Gateway.chainIds f).all (Gateway.chainIds e).contains := by
  rw [chainIds_utf16, chainIds_utf16, List.all_map]
  congr 1
  funext id
  rw [comp_apply, ← contains_map_utf16 (Gateway.chainIds e), Bool.eq_iff_iff,
    contains_iff_mem, contains_iff_mem, mem_eraseDups]

theorem twin_driveFolders : Twin Gateway.googleDrive Api.driveFolders where
  key_eq := rfl
  normalize_eq e := by
    change (utf16 "/".toList).intercalate (Api.chainIds (utf16 e)) = _
    rw [chainIds_utf16]
    exact intercalate_utf16 _ _
  coveredBy_eq e b := by
    have hnone : ((Api.chainIds (utf16 e)).eraseDups.length == 0) = (Gateway.chainIds e).isEmpty := by
      rw [← chainIds_utf16_length]
      cases Api.chainIds (utf16 e) with
      | nil => rfl
      | cons => simp [eraseDups_cons]
    change (if (Api.chainIds (utf16 e)).eraseDups.length == 0
        then (b.map utf16).any fun f => (Api.chainIds f).length == 0
        else (b.map utf16).any fun f => (Api.chainIds f).all (Api.chainIds (utf16 e)).eraseDups.contains) =
      if (Gateway.chainIds e).isEmpty then b.any fun f => (Gateway.chainIds f).isEmpty
        else b.any fun f => (Gateway.chainIds f).all (Gateway.chainIds e).contains
    rw [hnone, List.any_map, List.any_map]
    simp only [comp_def, chainIds_utf16_length, chainIds_utf16_all]

theorem axes_twin : List.Forall₂ Twin Gateway.axes Api.axes :=
  .cons twin_repositories (.cons twin_folders (.cons twin_driveFolders .nil))

end Twins

section Normalizing

open Onecli.Access

variable {axis : Gateway.ResourceAxis}

theorem coveredBy_congr (h : LawfulAxis axis) (e : Str) {b c : List Str} (hsame : ∀ f, f ∈ b ↔ f ∈ c) :
    axis.coveredBy e b = axis.coveredBy e c := by
  rw [Bool.eq_iff_iff, h.covered_iff, h.covered_iff]
  exact exists_congr fun f => and_congr_left fun _ => hsame f

theorem covered_normalize_singleton (h : axis ∈ Gateway.axes) (e f : Str) :
    axis.coveredBy (axis.normalize e) [axis.normalize f] = true ↔ axis.coveredBy e [f] = true := by
  simp only [Gateway.axes, mem_cons, not_mem_nil, or_false] at h
  rcases h with rfl | rfl | rfl
  · rw [github_covered_singleton, github_covered_singleton]
    change toAsciiLowercase (toAsciiLowercase f) = toAsciiLowercase (toAsciiLowercase e) ↔ _
    rw [toAsciiLowercase_toAsciiLowercase, toAsciiLowercase_toAsciiLowercase]
  · rw [dropbox_covered_singleton, dropbox_covered_singleton]
    change Gateway.normalizePath (Gateway.normalizePath f) = [] ∨
      Below (Gateway.normalizePath e) (Gateway.normalizePath f) ↔ _
    rw [Below, folder, folder, normalizePath_normalizePath, normalizePath_normalizePath]
    refine or_congr_right (and_congr_left fun hbelow => ?_)
    exact head?_eq_slash_iff hbelow.1
  · rw [drive_covered_singleton, drive_covered_singleton, chainIds_normalize, chainIds_normalize]

theorem coveredBy_normalize (h : axis ∈ Gateway.axes) (e : Str) (b : List Str) :
    axis.coveredBy (axis.normalize e) (b.map axis.normalize) = axis.coveredBy e b := by
  have hlawful := lawful_of_mem_axes h
  rw [Bool.eq_iff_iff, hlawful.covered_iff, hlawful.covered_iff]
  simp only [List.mem_map, exists_exists_and_eq_and, covered_normalize_singleton h]

theorem mem_intersect_normalize (h : axis ∈ Gateway.axes) (a b : List Str) (e : Str) :
    e ∈ axis.intersect (a.map axis.normalize) (b.map axis.normalize) ↔
      ∃ f, ((f ∈ a ∧ axis.coveredBy f b = true) ∨ (f ∈ b ∧ axis.coveredBy f a = true)) ∧ axis.normalize f = e := by
  rw [Gateway.ResourceAxis.mem_intersect]
  simp only [or_and_right, exists_or, List.mem_map, and_assoc, exists_exists_and_eq_and,
    coveredBy_normalize h, (lawful_of_mem_axes h).normalize_normalize]

end Normalizing

section Entries

/-- Two lists hold the same entries up to the encoding. -/
def SameSet (stored : List Str) (shown : List JsString) : Prop := {u | u ∈ shown} = utf16 '' {e | e ∈ stored}

/-- Two policies list entries or not, and the same ones. -/
structure SameEntries (stored : Option (List Str)) (shown : Option (List JsString)) : Prop where
  isSome_eq : shown.isSome = stored.isSome
  sameSet : SameSet (stored.getD []) (shown.getD [])

theorem sameSet_map (stored : List Str) : SameSet stored (stored.map utf16) := by
  ext u
  exact List.mem_map

theorem SameSet.mem_iff {stored : List Str} {shown : List JsString} (h : SameSet stored shown) (e : Str) :
    utf16 e ∈ shown ↔ e ∈ stored := by
  change utf16 e ∈ {u | u ∈ shown} ↔ _
  rw [h, utf16_injective.mem_set_image]
  exact Iff.rfl

theorem SameSet.exists_map {stored : List Str} {shown : List JsString} (h : SameSet stored shown) :
    ∃ texts : List Str, shown = texts.map utf16 ∧ ∀ e, e ∈ texts ↔ e ∈ stored := by
  have hrange : shown ∈ Set.range (List.map utf16) := by
    rw [Set.range_list_map]
    intro u hu
    obtain ⟨e, -, he⟩ : u ∈ utf16 '' {e | e ∈ stored} := h ▸ hu
    exact ⟨e, he⟩
  obtain ⟨texts, rfl⟩ := hrange
  refine ⟨texts, rfl, fun e => ?_⟩
  rw [← h.mem_iff, List.mem_map_of_injective utf16_injective]

theorem Twin.coveredBy_sameSet {axis : Gateway.ResourceAxis} {twin : Api.ResourceAxis} (h : Twin axis twin)
    (hmem : axis ∈ Gateway.axes) (e : Str) {b : List Str} {b' : List JsString} (hb : SameSet b b') :
    twin.coveredBy (utf16 e) b' = axis.coveredBy e b := by
  obtain ⟨texts, rfl, hsame⟩ := hb.exists_map
  rw [h.coveredBy_eq]
  exact coveredBy_congr (Access.lawful_of_mem_axes hmem) e hsame

theorem Twin.kept_sameSet {axis : Gateway.ResourceAxis} {twin : Api.ResourceAxis} (h : Twin axis twin)
    (hmem : axis ∈ Gateway.axes) {a b : List Str} {a' b' : List JsString} (ha : SameSet a a')
    (hb : SameSet b b') :
    SameSet (axis.intersect (a.map axis.normalize) (b.map axis.normalize)) (twin.kept a' b') := by
  have hside {c d : List Str} {c' d' : List JsString} (hc : SameSet c c') (hd : SameSet d d') (u : JsString) :
      (u ∈ c' ∧ twin.coveredBy u d' = true) ↔ ∃ e, (e ∈ c ∧ axis.coveredBy e d = true) ∧ utf16 e = u := by
    have hu : u ∈ c' ↔ ∃ e, e ∈ c ∧ utf16 e = u := Set.ext_iff.mp hc u
    rw [hu]
    constructor
    · rintro ⟨⟨e, he, rfl⟩, hcov⟩
      exact ⟨e, ⟨he, h.coveredBy_sameSet hmem e hd ▸ hcov⟩, rfl⟩
    · rintro ⟨e, ⟨he, hcov⟩, rfl⟩
      exact ⟨⟨e, he, rfl⟩, (h.coveredBy_sameSet hmem e hd).trans hcov⟩
  ext u
  simp only [Api.ResourceAxis.mem_kept, mem_intersect_normalize hmem, hside ha hb, hside hb ha, ← exists_or,
    ← or_and_right]
  constructor
  · rintro ⟨_, ⟨e, he, rfl⟩, rfl⟩
    exact ⟨axis.normalize e, ⟨e, he, rfl⟩, (h.normalize_eq e).symm⟩
  · rintro ⟨_, ⟨e, he, rfl⟩, rfl⟩
    exact ⟨utf16 e, ⟨e, he, rfl⟩, h.normalize_eq e⟩

end Entries

section Scopes

/-- A policy as the API reads it; an absent one is `null`. -/
def apiPolicy (policy : Option (Json Str)) : Json JsString := (policy.map (Json.mapTexts utf16)).getD .null

/-- Two policies are the same scope: neither restricts, or both do so on the same axis by the
same entries. -/
inductive SameScope (enforced : Option (Json Str)) (shown : Json JsString) : Prop
  | unrestricted (henforced : enforced.bind Gateway.axisOf = none) (hshown : Api.axisOf shown = none)
  | restricted {policy : Json Str} {axis : Gateway.ResourceAxis} {twin : Api.ResourceAxis}
      (henforced : enforced = some policy) (haxis : Gateway.axisOf policy = some axis)
      (hshown : Api.axisOf shown = some twin) (htwin : Twin axis twin)
      (hentries : SameEntries (Gateway.rawEntries policy axis) (Api.rawEntries shown twin))

theorem rawEntries_parity {axis : Gateway.ResourceAxis} {twin : Api.ResourceAxis} (h : Twin axis twin)
    (policy : Json Str) :
    Api.rawEntries (policy.mapTexts utf16) twin = (Gateway.rawEntries policy axis).map (·.map utf16) := by
  rw [Api.rawEntries, Gateway.rawEntries, h.key_eq, Json.get_mapTexts utf16 utf16_injective]
  cases policy.get axis.key with
  | none => rfl
  | some =>
    rw [map_some, bind_some, Json.asArray_mapTexts, Option.map_map, Option.map_map]
    congr 1
    funext items
    exact Json.filterMap_asStr_mapTexts utf16 items

theorem find?_twin {P : Gateway.ResourceAxis → Bool} {Q : Api.ResourceAxis → Bool}
    (hfound : ∀ axis twin, Twin axis twin → Q twin = P axis) {axes : List Gateway.ResourceAxis}
    {twins : List Api.ResourceAxis} (h : List.Forall₂ Twin axes twins) :
    Option.Rel Twin (axes.find? P) (twins.find? Q) := by
  induction h with
  | nil => exact .none
  | @cons axis twin axes twins htwin _ ih =>
    rw [List.find?_cons, List.find?_cons, hfound axis twin htwin]
    cases P axis with
    | true => exact .some htwin
    | false => exact ih

theorem axisOf_parity (policy : Json Str) :
    Option.Rel Twin (Gateway.axisOf policy) (Api.axisOf (policy.mapTexts utf16)) := by
  cases policy with
  | obj members =>
    have hobject : Api.isSessionPolicy ((Json.obj members).mapTexts utf16) = true := by
      rw [Json.mapTexts]
      rfl
    rw [Api.axisOf, hobject]
    refine find?_twin (fun axis twin htwin => ?_) axes_twin
    rw [htwin.key_eq, Json.get_mapTexts utf16 utf16_injective, isSome_map]
    rw [Json.get, Json.asObject, bind_some]
    congr 2
    exact lawful_beq_subsingleton _ _
  | _ =>
    simp only [Json.mapTexts]
    exact .none

theorem sameScope_apiPolicy (policy : Option (Json Str)) : SameScope policy (apiPolicy policy) := by
  cases policy with
  | none => exact .unrestricted rfl rfl
  | some policy =>
    change SameScope (some policy) (policy.mapTexts utf16)
    have haxis := axisOf_parity policy
    cases hstored : Gateway.axisOf policy with
    | none =>
      rw [hstored] at haxis
      cases hshown : Api.axisOf (policy.mapTexts utf16) with
      | none => exact .unrestricted hstored hshown
      | some =>
        rw [hshown] at haxis
        cases haxis
    | some axis =>
      rw [hstored] at haxis
      cases hshown : Api.axisOf (policy.mapTexts utf16) with
      | none =>
        rw [hshown] at haxis
        cases haxis
      | some =>
        rw [hshown] at haxis
        obtain ⟨htwin⟩ := haxis
        refine .restricted rfl hstored hshown htwin ?_
        rw [rawEntries_parity htwin]
        cases Gateway.rawEntries policy axis with
        | none => exact ⟨rfl, sameSet_map []⟩
        | some entries => exact ⟨rfl, sameSet_map entries⟩

/-- Both sides see the same denial. -/
theorem SameScope.deniesEverything_eq {enforced : Option (Json Str)} {shown : Json JsString}
    (h : SameScope enforced shown) : Gateway.deniesEverything enforced = Api.deniesEverything shown := by
  cases h with
  | unrestricted henforced hshown =>
    rw [Api.deniesEverything, hshown]
    cases enforced with
    | none => rfl
    | some =>
      rw [bind_some] at henforced
      rw [Gateway.deniesEverything, henforced]
  | @restricted policy axis twin henforced haxis hshown htwin hents =>
    rw [henforced, Gateway.deniesEverything, haxis, Api.deniesEverything, hshown]
    change (Gateway.rawEntries policy axis).any (·.isEmpty) =
      (Api.rawEntries shown twin).any fun entries => entries.length == 0
    obtain ⟨hsome, hset⟩ := hents
    cases hstored : Gateway.rawEntries policy axis with
    | none =>
      rw [hstored, isSome_none, isSome_eq_false_iff, isNone_iff_eq_none] at hsome
      rw [hsome, any_none, any_none]
    | some entries =>
      rw [hstored, isSome_some, isSome_iff_exists] at hsome
      obtain ⟨units, hunits⟩ := hsome
      rw [hstored, hunits] at hset
      obtain ⟨texts, htexts, hsame⟩ := hset.exists_map
      change units = _ at htexts
      rw [hunits, htexts, any_some, any_some]
      have hempty : texts = [] ↔ entries = [] := by
        rw [eq_nil_iff_forall_not_mem, eq_nil_iff_forall_not_mem]
        exact forall_congr' fun e => not_congr (hsame e)
      rw [Bool.eq_iff_iff, List.isEmpty_iff, ← hempty, length_map, beq_iff_eq, length_eq_zero_iff]

theorem SameScope.intersect {a b : Option (Json Str)} {a' b' : Json JsString} (ha : SameScope a a')
    (hb : SameScope b b') :
    SameScope (Gateway.intersectPolicies a b) (Api.intersectPolicies a' b') := by
  cases ha with
  | unrestricted hnone hnone' =>
    cases hb with
    | unrestricted hother hother' =>
      rw [Api.intersectPolicies, hnone', hother']
      refine .unrestricted ?_ rfl
      cases a with
      | none => exact hother
      | some =>
        cases b with
        | none => exact hnone
        | some =>
          rw [bind_some] at hnone hother
          rw [Gateway.intersectPolicies, hnone, hother]
          rfl
    | @restricted policy axis twin henforced haxis hshown htwin hents =>
      have hright : Gateway.intersectPolicies a b = some policy := by
        rw [henforced]
        cases a with
        | none => rfl
        | some =>
          rw [bind_some] at hnone
          rw [Gateway.intersectPolicies, hnone, haxis]
      rw [hright, Api.intersectPolicies, hnone', hshown]
      exact .restricted rfl haxis hshown htwin hents
  | @restricted policy axis twin henforced haxis hshown htwin hents =>
    cases hb with
    | unrestricted hnone hnone' =>
      have hleft : Gateway.intersectPolicies a b = some policy := by
        rw [henforced]
        cases b with
        | none => rfl
        | some =>
          rw [bind_some] at hnone
          rw [Gateway.intersectPolicies, hnone, haxis]
      rw [hleft, Api.intersectPolicies, hnone', hshown]
      exact .restricted rfl haxis hshown htwin hents
    | @restricted other axis' twin' henforced' haxis' hshown' htwin' hentries' =>
      have hmem := Gateway.mem_axes_of_axisOf haxis
      have htwins := Api.mem_axes_of_axisOf hshown
      have hkeys : twin.key ≠ twin'.key ↔ axis.key ≠ axis'.key := by
        rw [htwin.key_eq, htwin'.key_eq, Ne, utf16_injective.eq_iff]
      rw [henforced, henforced', Gateway.intersectPolicies, haxis, haxis', Api.intersectPolicies, hshown, hshown']
      by_cases hne : axis.key ≠ axis'.key
      · simp only [if_pos hne, if_pos (hkeys.mpr hne)]
        refine .restricted rfl (Gateway.axisOf_listPolicy hmem []) (Api.axisOf_build htwins []) htwin ?_
        rw [Gateway.rawEntries_listPolicy, Api.rawEntries_build]
        exact ⟨rfl, sameSet_map []⟩
      · have hsame : axis = axis' := Gateway.axes_key_inj hmem (Gateway.mem_axes_of_axisOf haxis') (not_not.mp hne)
        subst hsame
        have hsame' : twin = twin' := Api.axes_key_inj htwins (Api.mem_axes_of_axisOf hshown')
          (by rw [htwin.key_eq, htwin'.key_eq])
        simp only [if_neg hne, if_neg (fun h => hne (hkeys.mp h))]
        refine .restricted rfl (Gateway.axisOf_listPolicy hmem _) (Api.axisOf_build htwins _) htwin ?_
        rw [Gateway.rawEntries_listPolicy, Api.rawEntries_build]
        exact ⟨rfl, htwin.kept_sameSet hmem hents.sameSet hentries'.sameSet⟩

end Scopes

section Compositions

/-- How a credential's scope is put together out of stored policies. -/
inductive Composition where
  | stored (policy : Option (Json Str))
  | intersect (a b : Composition)

/-- What the gateway enforces. -/
def Composition.enforced : Composition → Option (Json Str)
  | .stored policy => policy
  | .intersect a b => Gateway.intersectPolicies a.enforced b.enforced

/-- What the API shows. -/
def Composition.shown : Composition → Json JsString
  | .stored policy => apiPolicy policy
  | .intersect a b => Api.intersectPolicies a.shown b.shown

/-- However scopes are composed, what is shown is on the axis of what is enforced and lists the
same entries. -/
theorem sameScope_composition (scope : Composition) : SameScope scope.enforced scope.shown := by
  induction scope with
  | stored policy => exact sameScope_apiPolicy policy
  | intersect a b iha ihb => exact iha.intersect ihb

/-- The gateway and the API compose stored policies to the same scope, and read the same ones as
denying everything: that of two policies is an `intersect` of `stored` ones. -/
theorem scope_algebra_parity (scope : Composition) :
    SameScope scope.enforced scope.shown ∧
      Gateway.deniesEverything scope.enforced = Api.deniesEverything scope.shown :=
  ⟨sameScope_composition scope, (sameScope_composition scope).deniesEverything_eq⟩

end Compositions

end Onecli.Parity
