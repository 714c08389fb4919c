import Onecli.Foundation.Overlap
import Onecli.Gateway.GranularAccess

/-!
# The three axes

A policy on the Dropbox axis is read as a set of absolute paths, one on the repositories axis
as a set of names and one on the Drive axis as the sets of ancestors that satisfy it. The
entries of a lawful axis are places in the sense of `Overlap`: the cover test of the axis is
an inclusion, and the entries that normalize to nothing are its roots. Repository names are
inside each other only by being equal up to case, folders by their segments, and chains of
Drive folder ids by requiring all ids of the other. Only folders and repositories are laminar:
what two of them hold in common is one of them.
-/

namespace Onecli.Access

open Gateway List Option

/-! ## What a session policy lets through -/

/-- What a policy is asked about. -/
inductive Resource where
  | path (p : Str) (absolute : p.head? = some '/')
  | repository (name : Str)
  | file (ancestors : List Str)

/-- The axis that restricts a resource. -/
def Resource.axis : Resource → ResourceAxis
  | .path _ _ => dropbox
  | .repository _ => github
  | .file _ => googleDrive

/-- The test of a resource against a list of entries. -/
def Resource.check : Resource → List Str → Bool
  | .path p _ => pathAllowed p
  | .repository name => github.coveredBy name
  | .file ancestors => satisfied ancestors

/-- The resources that an axis restricts. -/
abbrev OnAxis (axis : ResourceAxis) := {r : Resource // r.axis = axis}

/-- A request guard's verdict under a policy. -/
def guardAdmits (guard : ResourceAxis) (policy : Json Str) (check : List Str → Bool) : Bool :=
  match guardScope policy guard with
  | .unrestricted => true
  | .allowed entries => check entries
  | .unenforceable _ => false

/-- A resource that is reached under a policy. For a repository this is what the minted token is
scoped to, which is all of them when the policy lists none. -/
def letsThrough (policy : Json Str) (resource : Resource) : Bool :=
  !deniesEverything (some policy) &&
    match resource with
    | .repository name => (repositories policy).isEmpty || github.coveredBy name (repositories policy)
    | resource => guardAdmits resource.axis policy resource.check

/-- What a stored policy reaches, read on its own axis; without an axis it restricts nothing. -/
def reaches (policy : Option (Json Str)) (resource : Resource) : Bool :=
  match policy with
  | none => true
  | some policy =>
    match axisOf policy with
    | none => true
    | some axis => axis.key == resource.axis.key && letsThrough policy resource

/-- An entry names the root of its provider; repositories have none. -/
def NamesRoot (axis : ResourceAxis) (entry : Str) : Prop := axis.key ≠ github.key ∧ axis.normalize entry = []

/-- A policy with a list on its axis. -/
def ListOn (axis : ResourceAxis) (policy : Json Str) : Prop :=
  axisOf policy = some axis ∧ rawEntries policy axis ≠ none

/-- What makes the entries of an axis places. -/
structure LawfulAxis (axis : ResourceAxis) : Prop where
  covered_iff (e : Str) (b : List Str) :
    axis.coveredBy e b = true ↔ ∃ f ∈ b, axis.coveredBy e [f] = true
  covered_trans {e f g : Str} :
    axis.coveredBy e [f] = true → axis.coveredBy f [g] = true → axis.coveredBy e [g] = true
  covered_root {e f : Str} : NamesRoot axis f → axis.coveredBy e [f] = true
  root_of_covered {e f : Str} : NamesRoot axis e → axis.coveredBy e [f] = true → NamesRoot axis f
  covered_self {e f : Str} : axis.coveredBy e [f] = true → axis.coveredBy f [f] = true
  check_iff {r : Resource} (h : r.axis = axis) (entries : List Str) :
    r.check entries = true ↔ ∃ f ∈ entries, r.check [f] = true
  check_of_covered {r : Resource} {e f : Str} : r.axis = axis → r.check [axis.normalize e] = true →
    axis.coveredBy e [f] = true → r.check [axis.normalize f] = true
  covered_of_check {r : Resource} {e : Str} : r.axis = axis → r.check [axis.normalize e] = true →
    axis.coveredBy e [e] = true
  exists_resource {e : Str} : ¬ NamesRoot axis e → axis.coveredBy e [e] = true →
    ∃ r : Resource, r.axis = axis ∧ ∀ f, r.check [axis.normalize f] = true ↔ axis.coveredBy e [f] = true
  normalize_normalize (e : Str) : axis.normalize (axis.normalize e) = axis.normalize e

namespace LawfulAxis

variable {axis : ResourceAxis}

/-- The places of an axis. -/
def places (h : LawfulAxis axis) : Overlap.Places Str (OnAxis axis) where
  Inside e f := axis.coveredBy e [f] = true
  Root := NamesRoot axis
  At r e := r.1.check [axis.normalize e] = true
  inside_trans := h.covered_trans
  inside_root := h.covered_root
  root_of_inside := h.root_of_covered
  inside_self := h.covered_self
  at_of_inside {r _ _} hat hinside := h.check_of_covered r.2 hat hinside
  inside_of_at {r _} hat := h.covered_of_check r.2 hat
  exists_target hnarrow hself := by
    obtain ⟨r, hr, hcheck⟩ := h.exists_resource hnarrow hself
    exact ⟨⟨r, hr⟩, hcheck⟩

theorem covered_iff_mem_reach (h : LawfulAxis axis) (e : Str) (b : List Str) :
    axis.coveredBy e b = true ↔ e ∈ h.places.reach {f | f ∈ b} :=
  h.covered_iff e b

end LawfulAxis

/-! ## The places of each axis -/

/-- The three axes differ. -/
theorem axes_ne : dropbox ≠ github ∧ dropbox ≠ googleDrive ∧ googleDrive ≠ github := by
  have hkeys {a b : ResourceAxis} (h : a.key ≠ b.key) : a ≠ b := fun heq => h (congrArg _ heq)
  exact ⟨hkeys (by decide), hkeys (by decide), hkeys (by decide)⟩

section Github

/-- A repository is covered by its name in any case. -/
theorem github_covered_iff (e : Str) (b : List Str) :
    github.coveredBy e b = true ↔ ∃ f ∈ b, toAsciiLowercase f = toAsciiLowercase e := by
  change (b.any fun f => toAsciiLowercase f == toAsciiLowercase e) = true ↔ _
  rw [List.any_eq_true]
  exact exists_congr fun f => and_congr_right fun _ => beq_iff_eq

/-- One repository covers its own name. -/
theorem github_covered_singleton (e f : Str) :
    github.coveredBy e [f] = true ↔ toAsciiLowercase f = toAsciiLowercase e := by
  rw [github_covered_iff]
  simp only [mem_singleton, exists_eq_left]

theorem eq_repository {r : Resource} (h : r.axis = github) : ∃ name, r = .repository name := by
  cases r with
  | repository name => exact ⟨name, rfl⟩
  | path => exact absurd h axes_ne.1
  | file => exact absurd h axes_ne.2.2

/-- The repository axis is lawful. -/
theorem lawful_github : LawfulAxis github where
  covered_iff e b := by
    simp only [github_covered_singleton]
    exact github_covered_iff e b
  covered_trans {e f g} h h' := by
    rw [github_covered_singleton] at h h' ⊢
    rw [h', h]
  covered_root h := absurd rfl h.1
  root_of_covered h _ := absurd rfl h.1
  covered_self {e f} _ := by rw [github_covered_singleton]
  check_iff {r} h entries := by
    obtain ⟨name, rfl⟩ := eq_repository h
    change github.coveredBy name entries = true ↔ ∃ f ∈ entries, github.coveredBy name [f] = true
    simp only [github_covered_singleton]
    exact github_covered_iff name entries
  check_of_covered {r e f} h hcheck hcov := by
    obtain ⟨name, rfl⟩ := eq_repository h
    change github.coveredBy name [toAsciiLowercase e] = true at hcheck
    change github.coveredBy name [toAsciiLowercase f] = true
    rw [github_covered_singleton] at *
    rw [hcov, hcheck]
  covered_of_check {r e} _ _ := by rw [github_covered_singleton]
  exists_resource {e} _ _ := by
    refine ⟨.repository e, rfl, fun f => ?_⟩
    change github.coveredBy e [toAsciiLowercase f] = true ↔ _
    rw [github_covered_singleton, github_covered_singleton, toAsciiLowercase_toAsciiLowercase]
  normalize_normalize := toAsciiLowercase_toAsciiLowercase

end Github

section Dropbox

/-- A normalized folder with its closing separator. -/
def folder (p : Str) : Str := normalizePath p ++ "/".toList

/-- A path is below a folder when it is absolute, not the root, and its folder extends the other. -/
def Below (p f : Str) : Prop := p.head? = some '/' ∧ normalizePath p ≠ [] ∧ folder f <+: folder p

theorem eq_slash_of_toLower {c : Char} (h : c.toLower = '/') : c = '/' := by
  have hlower := toNat_toLower c
  rw [h] at hlower
  change 47 = _ at hlower
  apply Char.ext
  apply UInt32.toNat_inj.mp
  change c.toNat = 47
  split_ifs at hlower <;> omega

theorem normalizePath_normalizePath (p : Str) : normalizePath (normalizePath p) = normalizePath p := by
  have hfolded : toAsciiLowercase (normalizePath p) = normalizePath p := by
    have hsub := List.IsPrefix.subset (List.rdropWhile_prefix (· == '/') (l := toAsciiLowercase p))
    refine (map_congr_left fun c hc => ?_).trans (List.map_id _)
    obtain ⟨d, -, rfl⟩ := List.mem_map.mp (hsub hc)
    exact toLower_toLower d
  change (toAsciiLowercase (normalizePath p)).rdropWhile (· == '/') = normalizePath p
  rw [hfolded]
  exact rdropWhile_idempotent _ _

/-- Normalizing keeps the leading slash. -/
theorem head?_eq_slash_iff {p : Str} (hne : normalizePath p ≠ []) :
    (normalizePath p).head? = some '/' ↔ p.head? = some '/' := by
  have hfront : (normalizePath p).head? = (toAsciiLowercase p).head? := by
    obtain ⟨rest, hrest⟩ := rdropWhile_prefix (· == '/') (l := toAsciiLowercase p)
    rw [← hrest]
    change _ = (normalizePath p ++ rest).head?
    rw [List.head?_append_of_ne_nil _ hne]
  rw [hfront]
  cases p with
  | nil => exact absurd rfl hne
  | cons c =>
    change some c.toLower = some '/' ↔ some c = some '/'
    rw [Option.some.injEq, Option.some.injEq]
    constructor
    · exact eq_slash_of_toLower
    · rintro rfl
      rfl

/-- A path is allowed below an allowed folder. -/
theorem pathAllowed_iff (target : Str) (allowed : List Str) :
    pathAllowed target allowed = true ↔ target.head? = some '/' ∧ normalizePath target ≠ [] ∧
      ∃ f ∈ allowed, f ++ "/".toList <+: folder target := by
  have hhead : "/".toList.isPrefixOf target = true ↔ target.head? = some '/' := by
    cases target with
    | nil => decide
    | cons c =>
      change ('/' == c && true) = true ↔ some c = some '/'
      rw [Bool.and_true, beq_iff_eq, Option.some.injEq]
      exact eq_comm
  have hbelow (f : Str) :
      (normalizePath target == f || (f ++ "/".toList).isPrefixOf (normalizePath target)) = true ↔
        f ++ "/".toList <+: folder target := by
    change _ ↔ f ++ ['/'] <+: normalizePath target ++ ['/']
    rw [prefix_concat_iff, append_left_inj, Bool.or_eq_true, beq_iff_eq, isPrefixOf_iff_prefix, eq_comm]
    rfl
  unfold pathAllowed
  by_cases hstart : target.head? = some '/'
  · by_cases hne : normalizePath target = []
    · simp [hne]
    · have hempty : (normalizePath target).isEmpty = false := by simpa using hne
      simp only [hhead.mpr hstart, Bool.not_true, Bool.false_eq_true, ↓reduceIte, hempty, List.any_eq_true,
        hbelow, hstart, true_and, ne_eq, hne, not_false_eq_true]
  · have hno : "/".toList.isPrefixOf target = false := by
      rw [Bool.eq_false_iff]
      exact fun h => hstart (hhead.mp h)
    simp only [hno, Bool.not_false, ↓reduceIte, Bool.false_eq_true, hstart, false_and]

theorem dropbox_covered_iff (e : Str) (b : List Str) :
    dropbox.coveredBy e b = true ↔ ∃ f ∈ b, normalizePath f = [] ∨ Below e f := by
  have hfolder : (∃ f ∈ b.map normalizePath, f ++ "/".toList <+: folder e) ↔ ∃ f ∈ b, folder f <+: folder e := by
    simp only [List.mem_map, exists_exists_and_eq_and]
    rfl
  have hroot : (b.map normalizePath).any (·.isEmpty) = true ↔ ∃ f ∈ b, normalizePath f = [] := by
    simp only [List.any_map, List.any_eq_true, Function.comp_apply, List.isEmpty_iff]
  change (if (b.map normalizePath).any (·.isEmpty) then true else pathAllowed e (b.map normalizePath)) = true ↔ _
  split
  · next h =>
    obtain ⟨f, hf, hempty⟩ := hroot.mp h
    simp only [true_iff]
    exact ⟨f, hf, .inl hempty⟩
  · next h =>
    rw [pathAllowed_iff, hfolder]
    constructor
    · rintro ⟨hstart, hne, f, hf, hbelow⟩
      exact ⟨f, hf, .inr ⟨hstart, hne, hbelow⟩⟩
    · rintro ⟨f, hf, hempty | ⟨hstart, hne, hbelow⟩⟩
      · exact absurd (hroot.mpr ⟨f, hf, hempty⟩) h
      · exact ⟨hstart, hne, f, hf, hbelow⟩

/-- A folder covers what is below it. -/
theorem dropbox_covered_singleton (e f : Str) :
    dropbox.coveredBy e [f] = true ↔ normalizePath f = [] ∨ Below e f := by
  rw [dropbox_covered_iff]
  simp only [mem_singleton, exists_eq_left]

theorem below_self {e f : Str} (h : Below e f) : normalizePath f = [] ∨ Below f f := by
  by_cases hne : normalizePath f = []
  · exact .inl hne
  · obtain ⟨hstart, hnonempty, hfolder⟩ := h
    refine .inr ⟨(head?_eq_slash_iff hne).mp ?_, hne, prefix_rfl⟩
    obtain ⟨rest, hrest⟩ := hfolder
    have hhead : (folder f ++ rest).head? = (folder e).head? := congrArg List.head? hrest
    rw [folder, folder, append_assoc, List.head?_append_of_ne_nil _ hne,
      List.head?_append_of_ne_nil _ hnonempty] at hhead
    rw [hhead]
    exact (head?_eq_slash_iff hnonempty).mpr hstart

theorem pathAllowed_singleton (p e : Str) : pathAllowed p [normalizePath e] = true ↔ Below p e := by
  rw [pathAllowed_iff]
  simp only [mem_singleton, exists_eq_left]
  rfl

theorem below_root {p q f : Str} (h : Below p q) (hf : normalizePath f = []) : Below p f := by
  obtain ⟨hstart, hne, -⟩ := h
  refine ⟨hstart, hne, ?_⟩
  have hhead := (head?_eq_slash_iff hne).mpr hstart
  rw [folder, folder, hf]
  cases hp : normalizePath p with
  | nil => exact absurd hp hne
  | cons c rest =>
    rw [hp] at hhead
    rw [some.inj hhead]
    exact ⟨rest ++ "/".toList, rfl⟩

theorem eq_path {r : Resource} (h : r.axis = dropbox) : ∃ p absolute, r = .path p absolute := by
  cases r with
  | path p absolute => exact ⟨p, absolute, rfl⟩
  | repository => exact absurd h.symm axes_ne.1
  | file => exact absurd h.symm axes_ne.2.1

theorem lawful_dropbox : LawfulAxis dropbox where
  covered_iff e b := by
    simp only [dropbox_covered_singleton]
    exact dropbox_covered_iff e b
  covered_trans {e f g} h h' := by
    rw [dropbox_covered_singleton] at h h' ⊢
    rcases h' with hroot | ⟨hstart, hne, hfg⟩
    · exact .inl hroot
    · rcases h with hempty | ⟨hstart', hne', hef⟩
      · exact absurd hempty hne
      · exact .inr ⟨hstart', hne', hfg.trans hef⟩
  covered_root {e f} h := (dropbox_covered_singleton e f).mpr (.inl h.2)
  root_of_covered {e f} h h' := by
    rcases (dropbox_covered_singleton e f).mp h' with hroot | ⟨-, hne, -⟩
    · exact ⟨h.1, hroot⟩
    · exact absurd h.2 hne
  covered_self {e f} h := by
    rw [dropbox_covered_singleton] at h ⊢
    rcases h with hroot | hbelow
    · exact .inl hroot
    · exact below_self hbelow
  check_iff {r} h entries := by
    obtain ⟨p, absolute, rfl⟩ := eq_path h
    change pathAllowed p entries = true ↔ ∃ f ∈ entries, pathAllowed p [f] = true
    simp only [pathAllowed_iff, mem_singleton, exists_eq_left]
    constructor
    · rintro ⟨hstart, hne, f, hf, hbelow⟩
      exact ⟨f, hf, hstart, hne, hbelow⟩
    · rintro ⟨f, hf, hstart, hne, hbelow⟩
      exact ⟨hstart, hne, f, hf, hbelow⟩
  check_of_covered {r e f} h hcheck hcov := by
    obtain ⟨p, absolute, rfl⟩ := eq_path h
    have hbelow := (pathAllowed_singleton p e).mp hcheck
    refine (pathAllowed_singleton p f).mpr ?_
    rcases (dropbox_covered_singleton e f).mp hcov with hroot | ⟨-, -, hef⟩
    · exact below_root hbelow hroot
    · exact ⟨hbelow.1, hbelow.2.1, hef.trans hbelow.2.2⟩
  covered_of_check {r e} h hcheck := by
    obtain ⟨p, absolute, rfl⟩ := eq_path h
    exact (dropbox_covered_singleton e e).mpr (below_self ((pathAllowed_singleton p e).mp hcheck))
  exists_resource {e} hnarrow hself := by
    have hne : normalizePath e ≠ [] := fun hempty => hnarrow ⟨by decide, hempty⟩
    have hbelow : Below e e := by
      rcases (dropbox_covered_singleton e e).mp hself with hroot | hbelow
      · exact absurd hroot hne
      · exact hbelow
    refine ⟨.path e hbelow.1, rfl, fun f => ?_⟩
    rw [dropbox_covered_singleton]
    refine (pathAllowed_singleton e f).trans ⟨.inr, ?_⟩
    rintro (hroot | hbelowf)
    · exact below_root hbelow hroot
    · exact hbelowf
  normalize_normalize := normalizePath_normalizePath

end Dropbox

section GoogleDrive

/-- Normalizing keeps a chain's ids. -/
theorem chainIds_normalize (e : Str) : chainIds (googleDrive.normalize e) = chainIds e := by
  change ((['/'].intercalate (chainIds e)).splitOn '/').filter (!·.isEmpty) = chainIds e
  cases hids : chainIds e with
  | nil => rfl
  | cons id ids =>
    have hmem {piece : Str} (h : piece ∈ id :: ids) : piece ∈ e.splitOn '/' ∧ (!piece.isEmpty) = true := by
      rw [← hids] at h
      exact mem_filter.mp h
    rw [splitOn_intercalate '/' (fun piece h => (CodeUnits.mem_splitOn (hmem h).1).2)
      (cons_ne_nil id ids)]
    exact filter_eq_self.mpr fun piece h => (hmem h).2

theorem normalize_eq_nil_iff (e : Str) : googleDrive.normalize e = [] ↔ chainIds e = [] := by
  constructor
  · intro h
    rw [← chainIds_normalize, h]
    rfl
  · intro h
    change ['/'].intercalate (chainIds e) = []
    rw [h]
    rfl

theorem drive_covered_iff (e : Str) (b : List Str) :
    googleDrive.coveredBy e b = true ↔ ∃ f ∈ b, ∀ id ∈ chainIds f, id ∈ chainIds e := by
  change (if (chainIds e).isEmpty then b.any fun f => (chainIds f).isEmpty
    else b.any fun f => (chainIds f).all (chainIds e).contains) = true ↔ _
  split
  · next h =>
    rw [List.any_eq_true]
    refine exists_congr fun f => and_congr_right fun _ => ?_
    rw [List.isEmpty_iff.mp h, List.isEmpty_iff, eq_nil_iff_forall_not_mem]
    simp only [not_mem_nil]
  · rw [List.any_eq_true]
    refine exists_congr fun f => and_congr_right fun _ => ?_
    simp only [List.all_eq_true, contains_iff_mem]

/-- A chain covers those that hold its ids. -/
theorem drive_covered_singleton (e f : Str) :
    googleDrive.coveredBy e [f] = true ↔ ∀ id ∈ chainIds f, id ∈ chainIds e := by
  rw [drive_covered_iff]
  simp only [mem_singleton, exists_eq_left]

theorem satisfied_iff (seen allowed : List Str) :
    satisfied seen allowed = true ↔ ∃ c ∈ allowed, ∀ id ∈ chainIds c, id ∈ seen := by
  simp only [satisfied, List.any_eq_true, List.all_eq_true, contains_iff_mem]

theorem satisfied_singleton (seen : List Str) (e : Str) :
    satisfied seen [googleDrive.normalize e] = true ↔ ∀ id ∈ chainIds e, id ∈ seen := by
  rw [satisfied_iff]
  simp only [mem_singleton, exists_eq_left, chainIds_normalize]

theorem eq_file {r : Resource} (h : r.axis = googleDrive) : ∃ ancestors, r = .file ancestors := by
  cases r with
  | file ancestors => exact ⟨ancestors, rfl⟩
  | repository => exact absurd h.symm axes_ne.2.2
  | path => exact absurd h axes_ne.2.1

/-- The drive's axis is lawful. -/
theorem lawful_googleDrive : LawfulAxis googleDrive where
  covered_iff e b := by
    simp only [drive_covered_singleton]
    exact drive_covered_iff e b
  covered_trans {e f g} h h' := by
    rw [drive_covered_singleton] at h h' ⊢
    exact fun id hid => h id (h' id hid)
  covered_root {e f} h := by
    rw [drive_covered_singleton, (normalize_eq_nil_iff f).mp h.2]
    exact nofun
  root_of_covered {e f} h h' := by
    rw [drive_covered_singleton, (normalize_eq_nil_iff e).mp h.2] at h'
    exact ⟨h.1, (normalize_eq_nil_iff f).mpr (eq_nil_iff_forall_not_mem.mpr
      fun id hid => absurd (h' id hid) not_mem_nil)⟩
  covered_self {e f} _ := by
    rw [drive_covered_singleton]
    exact fun id hid => hid
  check_iff {r} h entries := by
    obtain ⟨seen, rfl⟩ := eq_file h
    change satisfied seen entries = true ↔ ∃ f ∈ entries, satisfied seen [f] = true
    simp only [satisfied_iff, mem_singleton, exists_eq_left]
  check_of_covered {r e f} h hcheck hcov := by
    obtain ⟨seen, rfl⟩ := eq_file h
    have hseen := (satisfied_singleton seen e).mp hcheck
    rw [drive_covered_singleton] at hcov
    exact (satisfied_singleton seen f).mpr fun id hid => hseen id (hcov id hid)
  covered_of_check {r e} _ _ := by
    rw [drive_covered_singleton]
    exact fun id hid => hid
  exists_resource {e} _ _ := by
    refine ⟨.file (chainIds e), rfl, fun f => ?_⟩
    rw [drive_covered_singleton]
    exact satisfied_singleton (chainIds e) f
  normalize_normalize e := by
    change ['/'].intercalate (chainIds (googleDrive.normalize e)) = ['/'].intercalate (chainIds e)
    rw [chainIds_normalize]

end GoogleDrive

/-- Every axis is lawful. -/
theorem lawful_of_mem_axes {axis : ResourceAxis} (h : axis ∈ axes) : LawfulAxis axis := by
  simp only [axes, mem_cons, not_mem_nil, or_false] at h
  rcases h with rfl | rfl | rfl
  · exact lawful_github
  · exact lawful_dropbox
  · exact lawful_googleDrive

end Onecli.Access
