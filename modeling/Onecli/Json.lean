import Mathlib.Data.List.Basic

/-!
# JSON values

Parsed JSON over a type of texts: `serde_json::Value` over Rust strings and the values of
`JSON.parse` over JavaScript strings. An object lists its members; a key occurs at most once
in one, both parsers keep the last of several. Numbers keep their literal.
-/

namespace Onecli

/-- A JSON value with texts in `S`. -/
inductive Json (S : Type) where
  | null
  | bool (b : Bool)
  | num (literal : S)
  | str (s : S)
  | arr (items : List (Json S))
  | obj (members : List (S × Json S))

namespace Json

variable {S : Type}

/-- `as_str`. -/
def asStr : Json S → Option S
  | .str s => some s
  | _ => none

/-- `as_array`. -/
def asArray : Json S → Option (List (Json S))
  | .arr items => some items
  | _ => none

/-- `as_object`. -/
def asObject : Json S → Option (List (S × Json S))
  | .obj members => some members
  | _ => none

/-- `is_object`. -/
def isObject (v : Json S) : Bool := v.asObject.isSome

/-- `get` of a key, which answers nothing on anything but an object. -/
def get [DecidableEq S] (v : Json S) (key : S) : Option (Json S) := v.asObject.bind (List.lookup key)

/-- The same value over other texts. -/
def mapTexts {T : Type} (f : S → T) : Json S → Json T
  | .null => .null
  | .bool b => .bool b
  | .num literal => .num (f literal)
  | .str s => .str (f s)
  | .arr items => .arr (items.map (mapTexts f))
  | .obj members => .obj (members.map fun m => (f m.1, mapTexts f m.2))
decreasing_by
  · simp_wf
    have := List.sizeOf_lt_of_mem ‹_ ∈ _›
    omega
  · simp_wf
    have hmem := List.sizeOf_lt_of_mem ‹_ ∈ _›
    rcases m with ⟨key, value⟩
    simp at hmem ⊢
    omega

section MapTexts

variable {T : Type} (f : S → T)

theorem filterMap_asStr_mapTexts (items : List (Json S)) :
    (items.map (mapTexts f)).filterMap asStr = (items.filterMap asStr).map f := by
  have hitem (item : Json S) : (item.mapTexts f).asStr = item.asStr.map f := by
    cases item <;> simp [mapTexts, asStr]
  induction items with
  | nil => rfl
  | cons item items ih =>
    rw [List.map_cons, List.filterMap_cons, List.filterMap_cons, hitem, ih]
    cases item.asStr <;> rfl

theorem asArray_mapTexts (v : Json S) : (v.mapTexts f).asArray = v.asArray.map (·.map (mapTexts f)) := by
  cases v <;> simp [mapTexts, asArray]

theorem get_mapTexts [DecidableEq S] [DecidableEq T] (hf : Function.Injective f) (v : Json S) (key : S) :
    (v.mapTexts f).get (f key) = (v.get key).map (mapTexts f) := by
  cases v with
  | obj members =>
    simp only [mapTexts, get, asObject, Option.bind_some]
    induction members with
    | nil => rfl
    | cons m members ih =>
      by_cases hkey : key = m.1
      · subst hkey
        rw [List.map_cons, List.lookup_cons, List.lookup_cons, beq_self_eq_true, beq_self_eq_true]
        rfl
      · have hnew : f key ≠ f m.1 := hf.ne hkey
        rw [List.map_cons, List.lookup_cons, List.lookup_cons, beq_false_of_ne hkey, beq_false_of_ne hnew]
        exact ih
  | _ => simp [mapTexts, get, asObject]

end MapTexts

end Json

end Onecli
