import Onecli.Api.Text
import Onecli.Json
import Mathlib.Data.List.Sort

/-!
# Resource axes

`packages/api/src/lib/resource-axis.ts` with `isSessionPolicy` of `validations/policy.ts`: the
scope that the operator is shown. Entries are tested as they are stored, and what is kept of
two policies is normalized, freed of repetitions and sorted by code units. A JavaScript `Set`
of strings is the list of its elements in the order of their insertion.
-/

namespace Onecli.Api

open Utf16

/-- `ResourceAxis`, of which `entriesOf` and `build` follow from the key. -/
structure ResourceAxis where
  key : JsString
  normalize : JsString → JsString
  coveredBy : JsString → List JsString → Bool

/-- `repositories`. -/
def repositories : ResourceAxis where
  key := js "repositories"
  normalize := asciiLower
  coveredBy entry boundary :=
    let target := asciiLower entry
    boundary.any fun b => asciiLower b == target

/-- `folders.normalize`. -/
def foldersNormalize (entry : JsString) : JsString := (asciiLower entry).rdropWhile (· == unit '/')

/-- `folders`. -/
def folders : ResourceAxis where
  key := js "folders"
  normalize := foldersNormalize
  coveredBy entry boundary :=
    let normalized := boundary.map foldersNormalize
    if normalized.any (·.isEmpty) then true
    else if !(js "/").isPrefixOf entry then false
    else
      let target := foldersNormalize entry
      if target.isEmpty then false
      else normalized.any fun b => target == b || (b ++ js "/").isPrefixOf target

/-- `chainIds`. -/
def chainIds (entry : JsString) : List JsString := (entry.splitOn (unit '/')).filter (!·.isEmpty)

/-- `driveFolders`. -/
def driveFolders : ResourceAxis where
  key := js "driveFolders"
  normalize entry := (js "/").intercalate (chainIds entry)
  coveredBy entry boundary :=
    let required := (chainIds entry).eraseDups
    if required.length == 0 then boundary.any fun b => (chainIds b).length == 0
    else boundary.any fun b => (chainIds b).all required.contains

/-- `AXES`. -/
def axes : List ResourceAxis := [repositories, folders, driveFolders]

/-- `isSessionPolicy`: an object that is no array. -/
def isSessionPolicy (c : Json JsString) : Bool := c.isObject

/-- `axisOf`. -/
def axisOf (policy : Json JsString) : Option ResourceAxis :=
  if !isSessionPolicy policy then none else axes.find? fun axis => (policy.get axis.key).isSome

/-- `rawEntries`. -/
def rawEntries (policy : Json JsString) (axis : ResourceAxis) : Option (List JsString) :=
  ((policy.get axis.key).bind Json.asArray).map (·.filterMap Json.asStr)

/-- `build`. -/
def ResourceAxis.build (axis : ResourceAxis) (entries : List JsString) : Json JsString :=
  .obj [(axis.key, .arr (entries.map .str))]

/-- `deniesEverything`. -/
def deniesEverything (policy : Json JsString) : Bool :=
  match axisOf policy with
  | none => false
  | some axis => (rawEntries policy axis).any fun entries => entries.length == 0

/-- `kept` of two lists, without repetitions and sorted. -/
def ResourceAxis.kept (axis : ResourceAxis) (a b : List JsString) : List JsString :=
  let kept := (a.filter (axis.coveredBy · b) ++ b.filter (axis.coveredBy · a)).map axis.normalize
  kept.eraseDups.insertionSort (· ≤ ·)

/-- `intersectPolicies`. -/
def intersectPolicies (a b : Json JsString) : Json JsString :=
  match axisOf a, axisOf b with
  | none, none => .null
  | none, some _ => b
  | some _, none => a
  | some axisA, some axisB =>
    if axisA.key ≠ axisB.key then axisA.build []
    else axisA.build (axisA.kept ((rawEntries a axisA).getD []) ((rawEntries b axisB).getD []))

section Properties

theorem ResourceAxis.mem_kept (axis : ResourceAxis) (a b : List JsString) (e : JsString) :
    e ∈ axis.kept a b ↔
      ∃ x, ((x ∈ a ∧ axis.coveredBy x b = true) ∨ (x ∈ b ∧ axis.coveredBy x a = true)) ∧ axis.normalize x = e := by
  simp only [kept, List.mem_insertionSort, List.mem_eraseDups, List.mem_map, List.mem_append, List.mem_filter]

theorem mem_axes_of_axisOf {policy : Json JsString} {axis : ResourceAxis} (h : axisOf policy = some axis) :
    axis ∈ axes := by
  unfold axisOf at h
  split at h
  · cases h
  · exact List.mem_of_find?_eq_some h

theorem axes_key_inj {a b : ResourceAxis} (ha : a ∈ axes) (hb : b ∈ axes) (h : a.key = b.key) : a = b := by
  simp only [axes, List.mem_cons, List.not_mem_nil, or_false] at ha hb
  rcases ha with rfl | rfl | rfl <;> rcases hb with rfl | rfl | rfl <;> first | exact absurd h (by decide) | rfl

theorem axisOf_build {axis : ResourceAxis} (h : axis ∈ axes) (entries : List JsString) :
    axisOf (axis.build entries) = some axis := by
  simp only [axes, List.mem_cons, List.not_mem_nil, or_false] at h
  rcases h with rfl | rfl | rfl <;> rfl

theorem rawEntries_build (axis : ResourceAxis) (entries : List JsString) :
    rawEntries (axis.build entries) axis = some entries := by
  have hstr : (entries.map Json.str).filterMap Json.asStr = entries := by
    rw [List.filterMap_map]
    exact List.filterMap_some
  simp [rawEntries, ResourceAxis.build, Json.get, Json.asObject, Json.asArray, hstr]

end Properties

end Onecli.Api
