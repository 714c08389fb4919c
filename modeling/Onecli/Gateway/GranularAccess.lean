import Onecli.Gateway.Text
import Onecli.Json
import Mathlib.Data.Char
import Mathlib.Data.List.Lex
import Mathlib.Data.List.Sort

/-!
# Granular access

`ee/src/granular_access.rs` with its providers: a session policy restricts what a connection
reaches to a list of entries on one resource axis. A request guard reads the policy against
its own axis, and two policies compose to the overlap of their lists.
-/

namespace Onecli.Gateway

open List

/-- `ResourceAxis`. -/
structure ResourceAxis where
  key : Str
  coveredBy : Str → List Str → Bool
  normalize : Str → Str

/-- `Vec::dedup`: of equal neighbours one stays. -/
def dedup : List Str → List Str
  | [] => []
  | [x] => [x]
  | x :: y :: rest => if x = y then dedup (y :: rest) else x :: dedup (y :: rest)

/-- `ResourceAxis::intersect`. -/
def ResourceAxis.intersect (axis : ResourceAxis) (a b : List Str) : List Str :=
  let out := (a.filter (axis.coveredBy · b) ++ b.filter (axis.coveredBy · a)).map axis.normalize
  dedup (out.insertionSort (· ≤ ·))

section Github

/-- `GithubApp::normalize`. -/
def githubNormalize (entry : Str) : Str := toAsciiLowercase entry

/-- `GithubApp`: repositories are inside each other only by being the same. -/
def github : ResourceAxis where
  key := "repositories".toList
  normalize := githubNormalize
  coveredBy entry boundary := boundary.any fun b => githubNormalize b == githubNormalize entry

/-- `repositories` of `github.rs`. -/
def repositories (policy : Json Str) : List Str :=
  match (policy.get "repositories".toList).bind Json.asArray with
  | some items => items.filterMap Json.asStr
  | none => []

end Github

section Dropbox

/-- `normalize_path`. -/
def normalizePath (p : Str) : Str := (toAsciiLowercase p).rdropWhile (· == '/')

/-- `path_allowed`. -/
def pathAllowed (target : Str) (allowed : List Str) : Bool :=
  if !"/".toList.isPrefixOf target then false
  else
    let norm := normalizePath target
    if norm.isEmpty then false
    else allowed.any fun f => norm == f || (f ++ "/".toList).isPrefixOf norm

/-- `Dropbox`: folders nest, and the root is everything as a boundary. -/
def dropbox : ResourceAxis where
  key := "folders".toList
  normalize := normalizePath
  coveredBy entry boundary :=
    let normalized := boundary.map normalizePath
    if normalized.any (·.isEmpty) then true else pathAllowed entry normalized

end Dropbox

section GoogleDrive

/-- `chain_ids`. -/
def chainIds (entry : Str) : List Str := (entry.splitOn '/').filter (!·.isEmpty)

/-- `satisfied`. -/
def satisfied (seen : List Str) (allowed : List Str) : Bool := allowed.any fun c => (chainIds c).all seen.contains

/-- `GoogleDrive`: a chain contains those that require all of its ids. -/
def googleDrive : ResourceAxis where
  key := "driveFolders".toList
  normalize entry := "/".toList.intercalate (chainIds entry)
  coveredBy entry boundary :=
    let required := chainIds entry
    if required.isEmpty then boundary.any fun b => (chainIds b).isEmpty
    else boundary.any fun b => (chainIds b).all required.contains

end GoogleDrive

/-- `AXES`. -/
def axes : List ResourceAxis := [github, dropbox, googleDrive]

/-- `axis_of`: the axis a policy is written on. -/
def axisOf (policy : Json Str) : Option ResourceAxis :=
  policy.asObject.bind fun obj => axes.find? fun axis => (obj.lookup axis.key).isSome

/-- `raw_entries`. -/
def rawEntries (policy : Json Str) (axis : ResourceAxis) : Option (List Str) :=
  ((policy.get axis.key).bind Json.asArray).map (·.filterMap Json.asStr)

/-- `denies_everything`. -/
def deniesEverything (policy : Option (Json Str)) : Bool :=
  match policy with
  | none => false
  | some policy =>
    match axisOf policy with
    | none => false
    | some axis => (rawEntries policy axis).any (·.isEmpty)

/-- `GuardScope`. -/
inductive GuardScope where
  | unrestricted
  | allowed (entries : List Str)
  | unenforceable (reason : Str)

/-- `guard_scope`. -/
def guardScope (policy : Json Str) (guard : ResourceAxis) : GuardScope :=
  match axisOf policy with
  | none => .unrestricted
  | some axis =>
    if axis.key ≠ guard.key then
      .unenforceable ("`".toList ++ axis.key ++ "` scoping does not apply to this app".toList)
    else
      match rawEntries policy axis with
      | none => .unenforceable ("`".toList ++ axis.key ++ "` must be a list".toList)
      | some entries =>
        let allowed := (entries.map guard.normalize).filter (!·.isEmpty)
        if allowed.isEmpty then .unrestricted else .allowed allowed

/-- The policy that lists entries on one axis. -/
def listPolicy (axis : ResourceAxis) (entries : List Str) : Json Str := .obj [(axis.key, .arr (entries.map .str))]

/-- The normalized entries that composing reads of a policy. -/
def composedEntries (policy : Json Str) (axis : ResourceAxis) : List Str :=
  ((rawEntries policy axis).getD []).map axis.normalize

/-- `intersect_policies`. -/
def intersectPolicies (a b : Option (Json Str)) : Option (Json Str) :=
  match a, b with
  | none, b => b
  | a, none => a
  | some a, some b =>
    match axisOf a, axisOf b with
    | some _, none => some a
    | none, some _ => some b
    | none, none => none
    | some axisA, some axisB =>
      if axisA.key ≠ axisB.key then some (listPolicy axisA [])
      else some (listPolicy axisA (axisA.intersect (composedEntries a axisA) (composedEntries b axisA)))

section Properties

theorem mem_dedup (entries : List Str) (e : Str) : e ∈ dedup entries ↔ e ∈ entries := by
  fun_induction dedup entries with
  | case1 => rfl
  | case2 x => rfl
  | case3 x rest ih =>
    rw [ih]
    simp
  | case4 x y rest hne ih => rw [mem_cons, ih, ← mem_cons]

theorem ResourceAxis.mem_intersect (axis : ResourceAxis) (a b : List Str) (e : Str) :
    e ∈ axis.intersect a b ↔
      ∃ x, ((x ∈ a ∧ axis.coveredBy x b = true) ∨ (x ∈ b ∧ axis.coveredBy x a = true)) ∧ axis.normalize x = e := by
  simp only [intersect, mem_dedup, mem_insertionSort, mem_map, mem_append, mem_filter]

/-- A policy's axis is one of the three. -/
theorem mem_axes_of_axisOf {policy : Json Str} {axis : ResourceAxis} (h : axisOf policy = some axis) :
    axis ∈ axes := by
  obtain ⟨obj, -, hfind⟩ := Option.bind_eq_some_iff.mp h
  exact mem_of_find?_eq_some hfind

/-- The axes' keys differ. -/
theorem axes_key_inj {a b : ResourceAxis} (ha : a ∈ axes) (hb : b ∈ axes) (h : a.key = b.key) :
    a = b := by
  simp only [axes, mem_cons, not_mem_nil, or_false] at ha hb
  rcases ha with rfl | rfl | rfl <;> rcases hb with rfl | rfl | rfl <;> first | exact absurd h (by decide) | rfl

/-- A list is on its axis. -/
theorem axisOf_listPolicy {axis : ResourceAxis} (h : axis ∈ axes) (entries : List Str) :
    axisOf (listPolicy axis entries) = some axis := by
  simp only [axes, mem_cons, not_mem_nil, or_false] at h
  rcases h with rfl | rfl | rfl <;> rfl

/-- A list has its entries. -/
theorem rawEntries_listPolicy (axis : ResourceAxis) (entries : List Str) :
    rawEntries (listPolicy axis entries) axis = some entries := by
  have hstr : (entries.map Json.str).filterMap Json.asStr = entries := by
    rw [filterMap_map]
    exact filterMap_some
  simp [rawEntries, listPolicy, Json.get, Json.asObject, Json.asArray, hstr]

end Properties

end Onecli.Gateway
