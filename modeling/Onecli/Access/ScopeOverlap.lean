import Onecli.Access.Axes

/-!
# Composed scopes

What `intersect_policies` lets through against what its two sides do. A policy that lists the
root next to other entries is enforced by the other entries but composed by the root, so the
composition can reach what the policy does not. Drive chains without a common drive can hold a
third chain that neither of them is inside, so composing three Drive policies depends on which
two come first. Elsewhere composing is a true overlap.
-/

namespace Onecli.Access

open Gateway Overlap List Option

/-- The entries of a policy as a scope. -/
def scope (axis : ResourceAxis) (policy : Json Str) : Set Str := {e | e ∈ composedEntries policy axis}

/-- A policy lists a root next to other entries. -/
def MixesRoot (axis : ResourceAxis) (policy : Json Str) : Prop :=
  (∃ e ∈ composedEntries policy axis, NamesRoot axis e) ∧ ∃ e ∈ composedEntries policy axis, ¬ NamesRoot axis e

/-- Every entry of the second policy that names a place other than the root is inside such an
entry of the first. -/
def NarrowlyCovers (axis : ResourceAxis) (a b : Json Str) : Prop :=
  ∀ e ∈ composedEntries b axis, ¬ NamesRoot axis e → axis.coveredBy e [e] = true →
    ∃ f ∈ composedEntries a axis, ¬ NamesRoot axis f ∧ axis.coveredBy e [f] = true

/-- An entry of the third policy inside both others is inside two nested entries of them. -/
def ChainsMeet (axis : ResourceAxis) (a b c : Json Str) : Prop :=
  ∀ e ∈ composedEntries c axis, axis.coveredBy e (composedEntries a axis) = true →
    axis.coveredBy e (composedEntries b axis) = true →
    ∃ f ∈ composedEntries a axis, ∃ g ∈ composedEntries b axis,
      axis.coveredBy e [f] = true ∧ axis.coveredBy e [g] = true ∧
        (axis.coveredBy f [g] = true ∨ axis.coveredBy g [f] = true)

instance (axis : ResourceAxis) : DecidablePred (NamesRoot axis) :=
  fun e => inferInstanceAs (Decidable (axis.key ≠ github.key ∧ axis.normalize e = []))

instance (axis : ResourceAxis) (policy : Json Str) : Decidable (MixesRoot axis policy) :=
  inferInstanceAs (Decidable (_ ∧ _))

/-- Composing lets through what both sides do, whichever comes first. -/
structure ComposesTruly (axis : ResourceAxis) (a b c : Json Str) : Prop where
  within : ∀ r : Resource, r.axis = axis → reaches (intersectPolicies (some a) (some b)) r = true →
    reaches (some a) r = true ∧ reaches (some b) r = true
  whole : axis.key ≠ googleDrive.key → ∀ r : Resource, r.axis = axis → reaches (some a) r = true →
    reaches (some b) r = true → reaches (intersectPolicies (some a) (some b)) r = true
  comm : ∀ r : Resource, r.axis = axis →
    reaches (intersectPolicies (some a) (some b)) r = reaches (intersectPolicies (some b) (some a)) r
  assoc : ∀ r : Resource, r.axis = axis →
    reaches (intersectPolicies (intersectPolicies (some a) (some b)) (some c)) r =
      reaches (intersectPolicies (some a) (intersectPolicies (some b) (some c))) r

variable {axis : ResourceAxis} {a b c policy : Json Str}

theorem guardAdmits_iff (h : LawfulAxis axis) (hguard : axis.key ≠ github.key)
    (hlist : ListOn axis policy) (r : OnAxis axis) :
    (!deniesEverything (some policy) && guardAdmits axis policy r.1.check) = true ↔
      r ∈ h.places.admitted (scope axis policy) := by
  obtain ⟨haxis, hraw⟩ := hlist
  obtain ⟨raw, hraw⟩ := Option.ne_none_iff_exists'.mp hraw
  have hents : composedEntries policy axis = raw.map axis.normalize := by
    rw [composedEntries, hraw]
    rfl
  have hdenies : deniesEverything (some policy) = raw.isEmpty := by
    simp only [deniesEverything, haxis, hraw, any_some]
  have hscope : guardScope policy axis = if ((raw.map axis.normalize).filter (!·.isEmpty)).isEmpty then .unrestricted
      else .allowed ((raw.map axis.normalize).filter (!·.isEmpty)) := by
    simp only [guardScope, haxis, hraw, ne_eq, not_true_eq_false, ↓reduceIte]
  have hroot {e : Str} (he : e ∈ raw.map axis.normalize) : NamesRoot axis e ↔ e = [] := by
    obtain ⟨x, -, rfl⟩ := List.mem_map.mp he
    rw [NamesRoot, h.normalize_normalize]
    exact and_iff_right hguard
  have hcheck {e : Str} (he : e ∈ raw.map axis.normalize) :
      r.1.check [axis.normalize e] = r.1.check [e] := by
    obtain ⟨x, -, rfl⟩ := List.mem_map.mp he
    rw [h.normalize_normalize]
  rw [hdenies, guardAdmits, hscope]
  have hmem (e : Str) : e ∈ scope axis policy ↔ e ∈ raw.map axis.normalize := by
    rw [scope, hents]
    rfl
  by_cases hnarrow : ∃ e ∈ raw.map axis.normalize, e ≠ []
  · obtain ⟨e, he, hne⟩ := hnarrow
    have hallowed : ((raw.map axis.normalize).filter (!·.isEmpty)).isEmpty = false := by
      rw [isEmpty_eq_false_iff]
      exact ne_nil_of_mem (mem_filter.mpr ⟨he, by simpa using hne⟩)
    have hnonempty : raw.isEmpty = false := by
      rw [isEmpty_eq_false_iff]
      rintro rfl
      exact not_mem_nil he
    simp only [hallowed, hnonempty, Bool.not_false, Bool.true_and, Bool.false_eq_true, ↓reduceIte]
    rw [h.check_iff r.2]
    constructor
    · rintro ⟨f, hf, hrf⟩
      obtain ⟨hf, hfne⟩ := mem_filter.mp hf
      have hfnarrow : ¬ NamesRoot axis f := by
        rw [hroot hf]
        simpa using hfne
      exact .inl ⟨f, (hmem f).mpr hf, hfnarrow, (hcheck hf).trans hrf⟩
    · rintro (⟨f, hf, hfnarrow, hrf⟩ | ⟨-, hall⟩)
      · have hf' := (hmem f).mp hf
        refine ⟨f, mem_filter.mpr ⟨hf', ?_⟩, (hcheck hf').symm.trans hrf⟩
        have hfne : f ≠ [] := fun hempty => hfnarrow ((hroot hf').mpr hempty)
        simpa using hfne
      · exact absurd ⟨e, (hmem e).mpr he, fun hempty => hne ((hroot he).mp hempty)⟩ hall
  · have hallowed : ((raw.map axis.normalize).filter (!·.isEmpty)).isEmpty = true := by
      rw [List.isEmpty_iff, filter_eq_nil_iff]
      intro e he hne
      exact hnarrow ⟨e, he, by simpa using hne⟩
    simp only [hallowed, ↓reduceIte, Bool.and_true, Bool.not_eq_true', isEmpty_eq_false_iff]
    constructor
    · intro hne
      obtain ⟨x, xs, rfl⟩ := exists_cons_of_ne_nil hne
      have hx : axis.normalize x ∈ (x :: xs).map axis.normalize := List.mem_map_of_mem mem_cons_self
      refine .inr ⟨⟨axis.normalize x, (hmem _).mpr hx, (hroot hx).mpr ?_⟩, ?_⟩
      · by_contra hne'
        exact hnarrow ⟨_, hx, hne'⟩
      · rintro ⟨e, he, hne'⟩
        exact hnarrow ⟨e, (hmem e).mp he, fun hempty => hne' ((hroot ((hmem e).mp he)).mpr hempty)⟩
    · rintro (⟨f, hf, -, -⟩ | ⟨⟨f, hf, -⟩, -⟩) <;> rintro rfl <;> cases (hmem f).mp hf

theorem repositoryReached_iff (hlist : ListOn github policy) (name : Str) :
    letsThrough policy (.repository name) = true ↔
      (⟨.repository name, rfl⟩ : OnAxis github) ∈ lawful_github.places.admitted (scope github policy) := by
  obtain ⟨haxis, hraw⟩ := hlist
  obtain ⟨raw, hraw⟩ := Option.ne_none_iff_exists'.mp hraw
  have hlisted : repositories policy = raw := by
    have hitems : ((policy.get "repositories".toList).bind Json.asArray).map (·.filterMap Json.asStr) =
        some raw := hraw
    obtain ⟨items, hitems, hmap⟩ := map_eq_some_iff.mp hitems
    simp only [repositories, hitems, hmap]
  have hnoRoot (A : Set Str) : ¬ lawful_github.places.HasRoot A := by
    rintro ⟨x, -, hroot⟩
    exact hroot.1 rfl
  have hdenies : deniesEverything (some policy) = raw.isEmpty := by
    simp only [deniesEverything, haxis, hraw, any_some]
  have hleft : letsThrough policy (.repository name) = true ↔ github.coveredBy name raw = true := by
    rw [letsThrough, hdenies, hlisted]
    cases raw with
    | nil => rfl
    | cons => rfl
  rw [hleft, Places.mem_admitted_of_not_hasRoot (hnoRoot _), github_covered_iff]
  have hents (e : Str) : e ∈ scope github policy ↔ ∃ x ∈ raw, toAsciiLowercase x = e := by
    rw [scope, composedEntries, hraw]
    exact List.mem_map
  have hat (x : Str) : lawful_github.places.At ⟨.repository name, rfl⟩ (toAsciiLowercase x) ↔
      toAsciiLowercase x = toAsciiLowercase name := by
    refine (github_covered_singleton name _).trans ?_
    change toAsciiLowercase (toAsciiLowercase (toAsciiLowercase x)) = _ ↔ _
    rw [toAsciiLowercase_toAsciiLowercase, toAsciiLowercase_toAsciiLowercase]
  constructor
  · rintro ⟨x, hx, hname⟩
    exact ⟨_, (hents _).mpr ⟨x, hx, rfl⟩, (hat x).mpr hname⟩
  · rintro ⟨e, he, hname⟩
    obtain ⟨x, hx, rfl⟩ := (hents e).mp he
    exact ⟨x, hx, (hat x).mp hname⟩

/-- A list on an axis reaches what its scope admits. -/
theorem reaches_iff (h : LawfulAxis axis) (hlist : ListOn axis policy) (r : OnAxis axis) :
    reaches (some policy) r.1 = true ↔ r ∈ h.places.admitted (scope axis policy) := by
  have haxis : reaches (some policy) r.1 = letsThrough policy r.1 := by
    rw [reaches]
    simp only [hlist.1, r.2, beq_self_eq_true, Bool.true_and]
  rw [haxis]
  obtain ⟨r, rfl⟩ := r
  cases r with
  | path p absolute => exact guardAdmits_iff h (show dropbox.key ≠ github.key by decide) hlist ⟨.path p absolute, rfl⟩
  | repository name => exact repositoryReached_iff hlist name
  | file ancestors =>
    exact guardAdmits_iff h (show googleDrive.key ≠ github.key by decide) hlist ⟨.file ancestors, rfl⟩

/-- On one axis policies meet in their overlap. -/
theorem intersectPolicies_same (h : LawfulAxis axis) (ha : ListOn axis a) (hb : ListOn axis b) :
    ∃ d, intersectPolicies (some a) (some b) = some d ∧ ListOn axis d ∧
      scope axis d = h.places.overlap (scope axis a) (scope axis b) := by
  have hmem := mem_axes_of_axisOf ha.1
  refine ⟨listPolicy axis (axis.intersect (composedEntries a axis) (composedEntries b axis)), ?_,
    ⟨axisOf_listPolicy hmem _, by rw [rawEntries_listPolicy]; exact some_ne_none _⟩, ?_⟩
  · simp only [intersectPolicies, ha.1, hb.1, ne_eq, not_true_eq_false, ↓reduceIte]
  · have hnormal {policy : Json Str} {e : Str} (he : e ∈ composedEntries policy axis) :
        axis.normalize e = e := by
      obtain ⟨x, -, rfl⟩ := List.mem_map.mp he
      exact h.normalize_normalize x
    ext e
    rw [scope, composedEntries, rawEntries_listPolicy]
    change e ∈ (axis.intersect _ _).map axis.normalize ↔ _
    simp only [List.mem_map, ResourceAxis.mem_intersect]
    constructor
    · rintro ⟨_, ⟨x, hx, rfl⟩, rfl⟩
      rw [h.normalize_normalize]
      rcases hx with ⟨hx, hcov⟩ | ⟨hx, hcov⟩
      · rw [hnormal hx]
        exact .inl ⟨hx, (h.covered_iff_mem_reach x _).mp hcov⟩
      · rw [hnormal hx]
        exact .inr ⟨hx, (h.covered_iff_mem_reach x _).mp hcov⟩
    · rintro (⟨hx, hreach⟩ | ⟨hx, hreach⟩)
      · exact ⟨e, ⟨e, .inl ⟨hx, (h.covered_iff_mem_reach e _).mpr hreach⟩, hnormal hx⟩, hnormal hx⟩
      · exact ⟨e, ⟨e, .inr ⟨hx, (h.covered_iff_mem_reach e _).mpr hreach⟩, hnormal hx⟩, hnormal hx⟩

section Denying

/-- A policy with an empty list on its axis. -/
def Denies (policy : Json Str) : Prop := ∃ axis, ListOn axis policy ∧ composedEntries policy axis = []

theorem denies_listPolicy (h : axis ∈ axes) : Denies (listPolicy axis []) := by
  refine ⟨axis, ⟨axisOf_listPolicy h [], ?_⟩, ?_⟩
  · rw [rawEntries_listPolicy]
    exact some_ne_none _
  · rw [composedEntries, rawEntries_listPolicy]
    rfl

/-- A policy that denies lets nothing through. -/
theorem letsThrough_of_denies (h : Denies policy) (r : Resource) : letsThrough policy r = false := by
  obtain ⟨axis, ⟨haxis, hraw⟩, hents⟩ := h
  obtain ⟨raw, hraw⟩ := Option.ne_none_iff_exists'.mp hraw
  rw [composedEntries, hraw] at hents
  have hnil : raw = [] := map_eq_nil_iff.mp hents
  have hdenies : deniesEverything (some policy) = true := by
    simp only [deniesEverything, haxis, hraw, any_some, hnil, isEmpty_nil]
  simp only [letsThrough, hdenies, Bool.not_true, Bool.false_and]

theorem reaches_of_denies (h : Denies policy) (r : Resource) : reaches (some policy) r = false := by
  have hlets := letsThrough_of_denies h r
  obtain ⟨axis, ⟨haxis, -⟩, -⟩ := h
  rw [reaches]
  simp only [haxis, hlets, Bool.and_false]

/-- Policies on different axes meet in a denial. -/
theorem intersectPolicies_different {axis' : ResourceAxis} (ha : ListOn axis a) (hb : ListOn axis' b)
    (hne : axis.key ≠ axis'.key) : ∃ d, intersectPolicies (some a) (some b) = some d ∧ Denies d := by
  refine ⟨listPolicy axis [], ?_, denies_listPolicy (mem_axes_of_axisOf ha.1)⟩
  simp only [intersectPolicies, ha.1, hb.1, ne_eq, hne, not_false_eq_true, ↓reduceIte]

theorem intersectPolicies_denying (ha : ListOn axis a) (hb : Denies b) :
    (∃ d, intersectPolicies (some a) (some b) = some d ∧ Denies d) ∧
      ∃ d, intersectPolicies (some b) (some a) = some d ∧ Denies d := by
  obtain ⟨axis', hb', hempty⟩ := hb
  by_cases hkey : axis.key = axis'.key
  · obtain rfl := axes_key_inj (mem_axes_of_axisOf ha.1) (mem_axes_of_axisOf hb'.1) hkey
    have hlawful := lawful_of_mem_axes (mem_axes_of_axisOf ha.1)
    have hnone (e : Str) : e ∉ scope axis b := by
      rw [scope, hempty]
      exact not_mem_nil
    have hoverlap : hlawful.places.overlap (scope axis a) (scope axis b) = ∅ := by
      refine Set.eq_empty_of_forall_notMem ?_
      rintro e (⟨-, f, hf, -⟩ | ⟨he, -⟩)
      · exact hnone f hf
      · exact hnone e he
    have hdenies {d : Json Str} (hd : ListOn axis d) (hscope : scope axis d = ∅) : Denies d := by
      refine ⟨axis, hd, eq_nil_iff_forall_not_mem.mpr fun e he => ?_⟩
      have hmem : e ∈ scope axis d := he
      rw [hscope] at hmem
      exact hmem
    obtain ⟨d, hd, hlist, hscope⟩ := intersectPolicies_same hlawful ha hb'
    obtain ⟨d', hd', hlist', hscope'⟩ := intersectPolicies_same hlawful hb' ha
    rw [Places.overlap_comm] at hscope'
    exact ⟨⟨d, hd, hdenies hlist (hscope.trans hoverlap)⟩, ⟨d', hd', hdenies hlist' (hscope'.trans hoverlap)⟩⟩
  · exact ⟨intersectPolicies_different ha hb' hkey, intersectPolicies_different hb' ha (Ne.symm hkey)⟩

end Denying

section Nested

theorem dropbox_nests {e f g : Str} (hf : dropbox.coveredBy e [f] = true)
    (hg : dropbox.coveredBy e [g] = true) :
    dropbox.coveredBy f [g] = true ∨ dropbox.coveredBy g [f] = true := by
  have hself {x : Str} (hx : Below e x) (hne : ¬ normalizePath x = []) :
      x.head? = some '/' := ((below_self hx).resolve_left hne).1
  simp only [dropbox_covered_singleton] at hf hg ⊢
  by_cases hfroot : normalizePath f = []
  · exact .inr (.inl hfroot)
  by_cases hgroot : normalizePath g = []
  · exact .inl (.inl hgroot)
  have hf := hf.resolve_left hfroot
  have hg := hg.resolve_left hgroot
  rcases prefix_or_prefix_of_prefix hf.2.2 hg.2.2 with hfg | hgf
  · exact .inr (.inr ⟨hself hg hgroot, hgroot, hfg⟩)
  · exact .inl (.inr ⟨hself hf hfroot, hfroot, hgf⟩)

theorem github_nests {e f g : Str} (hf : github.coveredBy e [f] = true)
    (hg : github.coveredBy e [g] = true) :
    github.coveredBy f [g] = true ∨ github.coveredBy g [f] = true := by
  rw [github_covered_singleton] at hf hg
  rw [github_covered_singleton, hf, hg]
  exact .inl rfl

/-- Places of one resource are nested, but on the drive. -/
theorem nested_of_at (h : LawfulAxis axis) (hmem : axis ∈ axes) (hkey : axis.key ≠ googleDrive.key)
    (r : OnAxis axis) (f g : Str) (hf : h.places.At r f) (hg : h.places.At r g) :
    h.places.Nested f g := by
  simp only [axes, mem_cons, not_mem_nil, or_false] at hmem
  rcases hmem with rfl | rfl | rfl
  · obtain ⟨r, hr⟩ := r
    obtain ⟨name, rfl⟩ := eq_repository hr
    have hin {x : Str} (hx : lawful_github.places.At ⟨.repository name, hr⟩ x) :
        github.coveredBy name [x] = true := by
      have hcheck : github.coveredBy name [toAsciiLowercase x] = true := hx
      rw [github_covered_singleton, toAsciiLowercase_toAsciiLowercase] at hcheck
      exact (github_covered_singleton name x).mpr hcheck
    exact github_nests (hin hf) (hin hg)
  · obtain ⟨r, hr⟩ := r
    obtain ⟨p, absolute, rfl⟩ := eq_path hr
    have hin {x : Str} (hx : lawful_dropbox.places.At ⟨.path p absolute, hr⟩ x) :
        dropbox.coveredBy p [x] = true :=
      (dropbox_covered_singleton p x).mpr (.inr ((pathAllowed_singleton p x).mp hx))
    exact dropbox_nests (hin hf) (hin hg)
  · exact absurd rfl hkey

/-- Off the drive, any three scopes meet. -/
theorem meet_of_not_drive (h : LawfulAxis axis) (hmem : axis ∈ axes) (hkey : axis.key ≠ googleDrive.key)
    (A B C : Set Str) : h.places.Meet A B C := by
  rintro z - - ⟨x, hx, hzx⟩ ⟨y, hy, hzy⟩
  refine Places.mem_reach_overlap_iff.mpr ⟨x, hx, y, hy, hzx, hzy, ?_⟩
  simp only [axes, mem_cons, not_mem_nil, or_false] at hmem
  rcases hmem with rfl | rfl | rfl
  · exact github_nests hzx hzy
  · exact dropbox_nests hzx hzy
  · exact absurd rfl hkey

/-- On the drive, scopes meet where their chains do. -/
theorem meet_iff_chainsMeet (a b c : Json Str) :
    lawful_googleDrive.places.Meet (scope googleDrive a) (scope googleDrive b) (scope googleDrive c) ↔
      ChainsMeet googleDrive a b c := by
  have hself (e : Str) : googleDrive.coveredBy e [e] = true := (drive_covered_singleton e e).mpr fun id hid => hid
  refine forall_congr' fun e => forall_congr' fun _ => ?_
  rw [lawful_googleDrive.covered_iff_mem_reach, lawful_googleDrive.covered_iff_mem_reach,
    Places.mem_reach_overlap_iff]
  exact imp_iff_right (hself e)

end Nested

section SameAxis

section

variable (h : LawfulAxis axis) (ha : ListOn axis a) (hb : ListOn axis b)
include h ha hb

/-- A composition reaches what the overlap admits. -/
theorem reaches_intersectPolicies_iff (r : OnAxis axis) : reaches (intersectPolicies (some a) (some b)) r.1 = true ↔ r
    ∈ h.places.admitted (h.places.overlap (scope axis a) (scope axis b)) := by
  obtain ⟨d, hd, hlist, hscope⟩ := intersectPolicies_same h ha hb
  rw [hd, reaches_iff h hlist, hscope]

/-- Composition does not depend on the order. -/
theorem reaches_intersectPolicies_comm (r : OnAxis axis) : reaches (intersectPolicies (some a) (some b)) r.1 = reaches
    (intersectPolicies (some b) (some a)) r.1 := by
  rw [Bool.eq_iff_iff, reaches_intersectPolicies_iff h ha hb, reaches_intersectPolicies_iff h hb ha,
    Places.overlap_comm]

/-- Composing stays within the first side exactly when this does not mix roots with entries that
miss the other side. -/
theorem reaches_left_iff : (∀ r : OnAxis axis, reaches (intersectPolicies (some a) (some b)) r.1 = true → reaches
    (some a) r.1 = true) ↔ (MixesRoot axis a → NarrowlyCovers axis a b) := by
  simp only [reaches_intersectPolicies_iff h ha hb, reaches_iff h ha]
  constructor
  · intro hwithin hmixes
    exact Places.narrowlyCovers_of_admitted_overlap (P := h.places) (A := scope axis a)
      (B := scope axis b) hwithin hmixes.1 hmixes.2
  · intro hcovers
    exact Places.admitted_overlap_subset (P := h.places) (A := scope axis a) (B := scope axis b)
      fun hroot hnarrow => hcovers ⟨hroot, hnarrow⟩

/-- Composing three policies on one axis in two ways reaches the same exactly when their scopes
meet. -/
theorem reaches_assoc_iff (hc : ListOn axis c) :
    (∀ r : OnAxis axis, reaches (intersectPolicies (intersectPolicies (some a) (some b)) (some c)) r.1 = reaches
    (intersectPolicies (some a) (intersectPolicies (some b) (some c))) r.1) ↔ h.places.Meet (scope axis a)
    (scope axis b) (scope axis c) ∧ h.places.Meet (scope axis b) (scope axis c) (scope axis a) := by
  obtain ⟨ab, hab, habList, habScope⟩ := intersectPolicies_same h ha hb
  obtain ⟨bc, hbc, hbcList, hbcScope⟩ := intersectPolicies_same h hb hc
  rw [← Places.admitted_overlap_assoc_iff, ← habScope, ← hbcScope, Set.ext_iff, hab, hbc]
  refine forall_congr' fun r => ?_
  rw [Bool.eq_iff_iff, reaches_intersectPolicies_iff h habList hc, reaches_intersectPolicies_iff h ha hbcList]

end

end SameAxis

/-- Three policies that are not on one axis reach nothing. -/
theorem not_reaches_of_different {axis' axis'' : ResourceAxis} (ha : ListOn axis a)
    (hb : ListOn axis' b) (hc : ListOn axis'' c) (hne : ¬ (axis.key = axis'.key ∧ axis'.key = axis''.key))
    (r : Resource) :
    reaches (intersectPolicies (intersectPolicies (some a) (some b)) (some c)) r = false ∧
      reaches (intersectPolicies (some a) (intersectPolicies (some b) (some c))) r = false := by
  constructor
  · by_cases hab : axis.key = axis'.key
    · obtain rfl := axes_key_inj (mem_axes_of_axisOf ha.1) (mem_axes_of_axisOf hb.1) hab
      have h := lawful_of_mem_axes (mem_axes_of_axisOf ha.1)
      obtain ⟨d, hd, hlist, -⟩ := intersectPolicies_same h ha hb
      obtain ⟨d', hd', hdenies⟩ := intersectPolicies_different hlist hc fun hbc => hne ⟨rfl, hbc⟩
      rw [hd, hd']
      exact reaches_of_denies hdenies r
    · obtain ⟨d, hd, hdenies⟩ := intersectPolicies_different ha hb hab
      obtain ⟨d', hd', hdenies'⟩ := (intersectPolicies_denying hc hdenies).2
      rw [hd, hd']
      exact reaches_of_denies hdenies' r
  · by_cases hbc : axis'.key = axis''.key
    · obtain rfl := axes_key_inj (mem_axes_of_axisOf hb.1) (mem_axes_of_axisOf hc.1) hbc
      have h := lawful_of_mem_axes (mem_axes_of_axisOf hb.1)
      obtain ⟨d, hd, hlist, -⟩ := intersectPolicies_same h hb hc
      obtain ⟨d', hd', hdenies⟩ := intersectPolicies_different ha hlist fun hab => hne ⟨hab, rfl⟩
      rw [hd, hd']
      exact reaches_of_denies hdenies r
    · obtain ⟨d, hd, hdenies⟩ := intersectPolicies_different hb hc hbc
      obtain ⟨d', hd', hdenies'⟩ := (intersectPolicies_denying ha hdenies).1
      rw [hd, hd']
      exact reaches_of_denies hdenies' r

/-- Composing policies on one axis is a true overlap exactly when a side that lists a root next
to other entries covers the other side by these, and, on Drive, the chains meet. Policies on
different axes compose to what lets nothing through. -/
theorem intersectPolicies_composes_iff (axis axis' axis'' : ResourceAxis) (a b c : Json Str) :
    (axis ∈ axes → ListOn axis a → ListOn axis b → ListOn axis c →
      (ComposesTruly axis a b c ↔
        (MixesRoot axis a → NarrowlyCovers axis a b) ∧ (MixesRoot axis b → NarrowlyCovers axis b a) ∧
          (axis.key = googleDrive.key → ChainsMeet axis a b c ∧ ChainsMeet axis b c a))) ∧
    (ListOn axis a → ListOn axis' b → axis.key ≠ axis'.key →
      ∃ d, intersectPolicies (some a) (some b) = some d ∧ ∀ r, letsThrough d r = false) ∧
    (ListOn axis a → ListOn axis' b → ListOn axis'' c →
      ¬ (axis.key = axis'.key ∧ axis'.key = axis''.key) → ∀ r,
        reaches (intersectPolicies (intersectPolicies (some a) (some b)) (some c)) r = false ∧
          reaches (intersectPolicies (some a) (intersectPolicies (some b) (some c))) r = false) := by
  refine ⟨fun hmem ha hb hc => ?_, fun ha hb hne => ?_, fun ha hb hc hne r => not_reaches_of_different ha hb hc hne r⟩
  · have h := lawful_of_mem_axes hmem
    have hassoc := reaches_assoc_iff h ha hb hc
    constructor
    · intro hcomposes
      refine ⟨(reaches_left_iff h ha hb).mp fun r hr => (hcomposes.within r.1 r.2 hr).1,
        (reaches_left_iff h hb ha).mp fun r hr => ?_, fun hdrive => ?_⟩
      · rw [← reaches_intersectPolicies_comm h ha hb] at hr
        exact (hcomposes.within r.1 r.2 hr).2
      · obtain rfl := axes_key_inj hmem (by simp [axes]) hdrive
        rw [← meet_iff_chainsMeet, ← meet_iff_chainsMeet]
        exact hassoc.mp fun r => hcomposes.assoc r.1 r.2
    · rintro ⟨hmixesA, hmixesB, hdrive⟩
      refine ⟨fun r hr hreach => ⟨?_, ?_⟩, fun hkey r hr hra hrb => ?_,
        fun r hr => reaches_intersectPolicies_comm h ha hb ⟨r, hr⟩, fun r hr => ?_⟩
      · exact (reaches_left_iff h ha hb).mpr hmixesA ⟨r, hr⟩ hreach
      · rw [reaches_intersectPolicies_comm h ha hb ⟨r, hr⟩] at hreach
        exact (reaches_left_iff h hb ha).mpr hmixesB ⟨r, hr⟩ hreach
      · refine (reaches_intersectPolicies_iff h ha hb ⟨r, hr⟩).mpr ?_
        exact Places.subset_admitted_overlap (nested_of_at h hmem hkey)
          ⟨(reaches_iff h ha ⟨r, hr⟩).mp hra, (reaches_iff h hb ⟨r, hr⟩).mp hrb⟩
      · refine hassoc.mpr ?_ ⟨r, hr⟩
        by_cases hkey : axis.key = googleDrive.key
        · obtain rfl := axes_key_inj hmem (by simp [axes]) hkey
          rw [meet_iff_chainsMeet, meet_iff_chainsMeet]
          exact hdrive rfl
        · exact ⟨meet_of_not_drive h hmem hkey _ _ _, meet_of_not_drive h hmem hkey _ _ _⟩
  · obtain ⟨d, hd, hdenies⟩ := intersectPolicies_different ha hb hne
    exact ⟨d, hd, letsThrough_of_denies hdenies⟩

section MixedRoot

/-- A list of folders is on the folder axis. -/
theorem listOn_folders (entries : List Str) : ListOn dropbox (listPolicy dropbox entries) := by
  refine ⟨axisOf_listPolicy (by simp [axes]) entries, ?_⟩
  rw [rawEntries_listPolicy]
  exact some_ne_none entries

/-- Nested folders compose truly. -/
theorem intersectPolicies_composes_clients :
    ComposesTruly dropbox (listPolicy dropbox ["/clients".toList])
      (listPolicy dropbox ["/clients/acme".toList]) (listPolicy dropbox ["/".toList]) :=
  ((intersectPolicies_composes_iff dropbox dropbox dropbox _ _ _).1 (by simp [axes]) (listOn_folders _)
    (listOn_folders _) (listOn_folders _)).mpr
    ⟨fun hmixes => absurd hmixes (by decide), fun hmixes => absurd hmixes (by decide),
      fun hkey => absurd hkey (by decide)⟩

/-- The root next to `/foo` lets `/foo` through alone, but `/bar` together with `/bar`. -/
theorem intersectPolicies_widens :
    ¬ ∀ axis ∈ axes, ∀ a b c, ListOn axis a → ListOn axis b → ListOn axis c → ComposesTruly axis a b c := by
  intro hclaim
  have hcomposes := hclaim dropbox (by simp [axes]) (listPolicy dropbox ["/".toList, "/foo".toList])
    (listPolicy dropbox ["/bar".toList]) _ (listOn_folders _) (listOn_folders _) (listOn_folders [])
  have hwithin := hcomposes.within (.path "/bar".toList rfl) rfl (by decide)
  exact absurd hwithin.1 (by decide)

-- the drives `1` and `2` have nothing in common until a chain through both comes first
example :
    let drive (chain : String) : Option (Json Str) := some (listPolicy googleDrive [chain.toList])
    let file : Resource := .file ["1".toList, "2".toList]
    reaches (intersectPolicies (intersectPolicies (drive "1") (drive "2")) (drive "1/2")) file = false ∧
      reaches (intersectPolicies (drive "1") (intersectPolicies (drive "2") (drive "1/2"))) file = true := by
  decide

end MixedRoot

end Onecli.Access
