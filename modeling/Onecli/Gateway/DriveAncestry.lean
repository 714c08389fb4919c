import Onecli.Gateway.GranularAccess
import Mathlib.Data.List.Perm.Subperm

/-!
# The Drive ancestry walk

`in_scope` of `ee/src/granular_access/google_drive.rs` looks up the parents of a target, then those of the folders that
the answers name, until the names satisfy an allowed chain. `ParentLookup` is the environment: its answer may depend on
how many lookups went before. A parent relation says what consistent answers are taken from; it may have cycles and
several parents for one file.
-/

namespace Onecli.Gateway

open List

/-- `MAX_LOOKUPS`. -/
def maxLookups : ℕ := 101

/-- One file's canonical ID and parent IDs, or why they could not be read. -/
abbrev LookupAnswer := Except Str (Str × List Str)

/-- What `in_scope` answers, with the lookups that it made on the way. -/
structure Walk where
  answer : Bool
  made : List (Str × LookupAnswer)

/-- `seen.insert` and `queue.push` of one parent; the queue is popped at its head. -/
def nameParent (state : List Str × List Str) (p : Str) : List Str × List Str :=
  if p ∈ state.1 then state else (p :: state.1, p :: state.2)

/-- The loop over the parents of one answer. -/
def nameParents (seen queue parents : List Str) : List Str × List Str := parents.foldl nameParent (seen, queue)

/-- The loop of `in_scope`. -/
def inScopeLoop (lookup : ℕ → Str → LookupAnswer) (allowed : List Str) (lookups : ℕ) (seen queue : List Str) : Walk :=
  if satisfied seen allowed then ⟨true, []⟩
  else
    match queue with
    | [] => ⟨false, []⟩
    | node :: queue =>
      if maxLookups ≤ lookups then ⟨false, []⟩
      else
        match lookup lookups node with
        | .error message => ⟨false, [(node, .error message)]⟩
        | .ok found =>
          let named := nameParents seen queue found.2
          let walk := inScopeLoop lookup allowed (lookups + 1) named.1 named.2
          ⟨walk.answer, (node, .ok found) :: walk.made⟩
termination_by maxLookups - lookups

/-- `in_scope`. -/
def inScope (lookup : ℕ → Str → LookupAnswer) (target : Str) (allowed : List Str) : Walk :=
  match lookup 0 target with
  | .error message => ⟨false, [(target, .error message)]⟩
  | .ok found =>
    let named := nameParents [found.1] [] found.2
    let walk := inScopeLoop lookup allowed 1 named.1 named.2
    ⟨walk.answer, (target, .ok found) :: walk.made⟩

/-- Which files exist under which IDs and where they lie. -/
structure ParentRelation where
  canonical : Str → Str
  parents : Str → List Str
  canonical_canonical : ∀ id, canonical (canonical id) = canonical id

namespace ParentRelation

/-- The ID is the target's or one of a folder above it. -/
def AncestorOrSelf (drive : ParentRelation) (target : Str) : Str → Prop :=
  Relation.ReflTransGen (fun node p => p ∈ drive.parents (drive.canonical node)) (drive.canonical target)

/-- The lookups that succeed answer from the relation. -/
def Answers (drive : ParentRelation) (lookup : ℕ → Str → LookupAnswer) : Prop :=
  ∀ k id found, lookup k id = .ok found → found = (drive.canonical id, drive.parents (drive.canonical id))

end ParentRelation

section Naming

theorem mem_nameParent_seen (state : List Str × List Str) (p id : Str) :
    id ∈ (nameParent state p).1 ↔ id ∈ state.1 ∨ id = p := by
  unfold nameParent
  split
  · next hp =>
    constructor
    · exact Or.inl
    · intro h
      cases h with
      | inl h => exact h
      | inr h => rwa [h]
  · rw [mem_cons, or_comm]

theorem mem_nameParents_seen (state : List Str × List Str) (parents : List Str) (id : Str) :
    id ∈ (parents.foldl nameParent state).1 ↔ id ∈ state.1 ∨ id ∈ parents := by
  induction parents generalizing state with
  | nil => simp
  | cons p parents ih => rw [foldl_cons, ih, mem_nameParent_seen, mem_cons, or_assoc]

variable {state : List Str × List Str} {parents : List Str}

theorem mem_nameParents_queue {id : Str} (h : id ∈ state.2) : id ∈ (parents.foldl nameParent state).2 := by
  induction parents generalizing state with
  | nil => exact h
  | cons p parents ih =>
    refine ih ?_
    unfold nameParent
    split
    · exact h
    · exact mem_cons_of_mem p h

theorem mem_seen_of_mem_queue (h : ∀ id ∈ state.2, id ∈ state.1) {id : Str}
    (hid : id ∈ (parents.foldl nameParent state).2) : id ∈ (parents.foldl nameParent state).1 := by
  induction parents generalizing state with
  | nil => exact h id hid
  | cons p parents ih =>
    refine ih (fun other hother => ?_) hid
    unfold nameParent at hother ⊢
    split at hother
    · next hp =>
      rw [if_pos hp]
      exact h other hother
    · next hp =>
      rw [if_neg hp]
      cases mem_cons.mp hother with
      | inl heq => exact mem_cons.mpr (Or.inl heq)
      | inr hrest => exact mem_cons_of_mem p (h other hrest)

theorem mem_nameParents_queue_of_new {id : Str} (h : id ∈ (parents.foldl nameParent state).1) (hnew : id ∉ state.1) :
    id ∈ (parents.foldl nameParent state).2 := by
  induction parents generalizing state with
  | nil => exact absurd h hnew
  | cons p parents ih =>
    by_cases hp : id ∈ (nameParent state p).1
    · rw [foldl_cons]
      refine mem_nameParents_queue ?_
      obtain rfl := ((mem_nameParent_seen state p id).mp hp).resolve_left hnew
      unfold nameParent
      rw [if_neg hnew]
      exact mem_cons_self
    · exact ih h hp

theorem nodup_nameParents (parents : List Str) (h : state.1.Nodup) : (parents.foldl nameParent state).1.Nodup := by
  induction parents generalizing state with
  | nil => exact h
  | cons p parents ih =>
    refine ih ?_
    unfold nameParent
    split
    · exact h
    · next hp => exact nodup_cons.mpr ⟨hp, h⟩

theorem length_nameParents (state : List Str × List Str) (parents : List Str) :
    (parents.foldl nameParent state).1.length + state.2.length =
      state.1.length + (parents.foldl nameParent state).2.length := by
  induction parents generalizing state with
  | nil => rfl
  | cons p parents ih =>
    have hrest := ih (nameParent state p)
    rw [foldl_cons]
    unfold nameParent at hrest ⊢
    split at hrest
    · next hp => rwa [if_pos hp]
    · next hp =>
      rw [if_neg hp]
      rw [length_cons, length_cons] at hrest
      omega

end Naming

section Walking

variable {drive : ParentRelation} {target : Str}

/-- What the walk knows after `lookups` lookups: the names are ancestors, and those that are not queued have named their
parents. -/
structure Reached (drive : ParentRelation) (target : Str) (lookups : ℕ) (seen queue : List Str) : Prop where
  ancestors : ∀ id ∈ seen, drive.AncestorOrSelf target id
  self : drive.canonical target ∈ seen
  nodup : seen.Nodup
  queued : ∀ id ∈ queue, id ∈ seen
  named : ∀ id ∈ seen, id ∈ queue ∨ ∀ p ∈ drive.parents (drive.canonical id), p ∈ seen
  count : seen.length = lookups + queue.length

/-- The walk starts at the target. -/
theorem Reached.start (drive : ParentRelation) (target : Str) :
    Reached drive target 0 [drive.canonical target] [drive.canonical target] where
  ancestors id hid := by
    rw [mem_singleton.mp hid]
    exact Relation.ReflTransGen.refl
  self := mem_singleton_self _
  nodup := nodup_singleton _
  queued _ hid := hid
  named _ hid := Or.inl hid
  count := rfl

variable {lookups : ℕ} {seen queue : List Str}

/-- A lookup reaches the parents. -/
theorem Reached.lookup {node : Str} (h : Reached drive target lookups seen (node :: queue)) :
    Reached drive target (lookups + 1) (nameParents seen queue (drive.parents (drive.canonical node))).1
      (nameParents seen queue (drive.parents (drive.canonical node))).2 where
  ancestors id hid := by
    cases (mem_nameParents_seen _ _ id).mp hid with
    | inl hold => exact h.ancestors id hold
    | inr hparent => exact (h.ancestors node (h.queued node mem_cons_self)).tail hparent
  self := (mem_nameParents_seen _ _ _).mpr (Or.inl h.self)
  nodup := nodup_nameParents _ h.nodup
  queued _ hid := mem_seen_of_mem_queue (fun other hother => h.queued other (mem_cons_of_mem node hother)) hid
  named id hid := by
    by_cases hold : id ∈ seen
    · cases h.named id hold with
      | inl hqueued =>
        cases mem_cons.mp hqueued with
        | inl heq =>
          subst heq
          exact Or.inr fun p hp => (mem_nameParents_seen _ _ p).mpr (Or.inr hp)
        | inr hrest => exact Or.inl (mem_nameParents_queue hrest)
      | inr hparents => exact Or.inr fun p hp => (mem_nameParents_seen _ _ p).mpr (Or.inl (hparents p hp))
    · exact Or.inl (mem_nameParents_queue_of_new hid hold)
  count := by
    have hlength := length_nameParents (seen, queue) (drive.parents (drive.canonical node))
    have hcount := h.count
    rw [length_cons] at hcount
    unfold nameParents
    dsimp only at hlength
    omega

theorem Reached.complete {seen : List Str} (h : Reached drive target lookups seen []) {id : Str}
    (hid : drive.AncestorOrSelf target id) : id ∈ seen := by
  induction hid with
  | refl => exact h.self
  | tail _ hparent ih =>
    cases h.named _ ih with
    | inl hqueued => exact absurd hqueued not_mem_nil
    | inr hparents => exact hparents _ hparent

theorem satisfied_iff {seen allowed : List Str} :
    satisfied seen allowed = true ↔ ∃ chain ∈ allowed, ∀ id ∈ chainIds chain, id ∈ seen := by
  unfold satisfied
  rw [any_eq_true]
  refine exists_congr fun chain => and_congr_right fun _ => ?_
  rw [all_eq_true]
  exact forall_congr' fun id => imp_congr_right fun _ => contains_iff_mem

variable {lookup : ℕ → Str → LookupAnswer} {allowed : List Str}

/-- The walk makes no more lookups than are left. -/
theorem length_made_inScopeLoop (lookups : ℕ) (seen queue : List Str) :
    (inScopeLoop lookup allowed lookups seen queue).made.length ≤ maxLookups - lookups := by
  fun_induction inScopeLoop lookup allowed lookups seen queue with
  | case4 lookups seen _ node queue hroom message hanswer =>
    rw [length_singleton]
    omega
  | case5 lookups seen _ node queue hroom found hanswer named walk ih =>
    rw [length_cons]
    change walk.made.length ≤ maxLookups - (lookups + 1) at ih
    omega
  | _ => exact Nat.zero_le _

/-- A walk that answers yes has found every id of a chain. -/
theorem inScopeLoop_sound (hanswers : drive.Answers lookup) (h : Reached drive target lookups seen queue)
    (htrue : (inScopeLoop lookup allowed lookups seen queue).answer = true) :
    ∃ chain ∈ allowed, ∀ id ∈ chainIds chain, drive.AncestorOrSelf target id := by
  fun_induction inScopeLoop lookup allowed lookups seen queue with
  | case1 lookups seen queue hsatisfied =>
    obtain ⟨chain, hchain, hids⟩ := satisfied_iff.mp hsatisfied
    exact ⟨chain, hchain, fun id hid => h.ancestors id (hids id hid)⟩
  | case2 | case3 | case4 => cases htrue
  | case5 lookups seen _ node queue hroom found hanswer named walk ih =>
    refine ih ?_ htrue
    obtain rfl := hanswers _ _ _ hanswer
    exact h.lookup

/-- A walk without errors finds what is there. -/
theorem inScopeLoop_complete (hanswers : drive.Answers lookup) (h : Reached drive target lookups seen queue)
    {members : List Str} (hmems : members.length ≤ 100)
    (hclosure : ∀ id, drive.AncestorOrSelf target id → id ∈ members) {chain : Str} (hchain : chain ∈ allowed)
    (hids : ∀ id ∈ chainIds chain, drive.AncestorOrSelf target id)
    (hmade : ∀ made ∈ (inScopeLoop lookup allowed lookups seen queue).made, made.2.isOk = true) :
    (inScopeLoop lookup allowed lookups seen queue).answer = true := by
  fun_induction inScopeLoop lookup allowed lookups seen queue with
  | case1 => rfl
  | case2 lookups seen hsatisfied =>
    refine absurd (satisfied_iff.mpr ⟨chain, hchain, fun id hid => ?_⟩) hsatisfied
    exact h.complete (hids id hid)
  | case3 lookups seen _ node queue hfull =>
    -- every lookup but the first took a name off the queue, so more than 101 ancestors have been named
    have hsubset : seen ⊆ members := fun id hid => hclosure id (h.ancestors id hid)
    have hlength := (h.nodup.subperm hsubset).length_le
    have hcount := h.count
    unfold maxLookups at hfull
    omega
  | case4 lookups seen _ node queue hroom message hanswer => cases hmade _ mem_cons_self
  | case5 lookups seen _ node queue hroom found hanswer named walk ih =>
    refine ih ?_ fun made hin => hmade made (mem_cons_of_mem _ hin)
    obtain rfl := hanswers _ _ _ hanswer
    exact h.lookup

/-- The walk makes at most 101 lookups. It accepts a target only if all IDs of an allowed chain are the target's or those of
folders above it, and accepts every such target when no lookup fails and it has at most 100 of them. -/
theorem in_scope_walk (hanswers : drive.Answers lookup) :
    (inScope lookup target allowed).made.length ≤ maxLookups ∧
    ((inScope lookup target allowed).answer = true →
      ∃ chain ∈ allowed, ∀ id ∈ chainIds chain, drive.AncestorOrSelf target id) ∧
    ((∃ chain ∈ allowed, ∀ id ∈ chainIds chain, drive.AncestorOrSelf target id) →
      (∀ made ∈ (inScope lookup target allowed).made, made.2.isOk = true) →
      (∃ members : List Str, members.length ≤ 100 ∧ ∀ id, drive.AncestorOrSelf target id → id ∈ members) →
      (inScope lookup target allowed).answer = true) := by
  unfold inScope
  cases hanswer : lookup 0 target with
  | error =>
    refine ⟨?_, ?_, ?_⟩
    · exact Nat.le_add_left 1 100
    · intro htrue
      cases htrue
    · intro _ hmade
      cases hmade _ List.mem_cons_self
  | ok =>
    obtain rfl := hanswers _ _ _ hanswer
    have hfirst := (Reached.start drive target).lookup
    rw [drive.canonical_canonical] at hfirst
    refine ⟨?_, inScopeLoop_sound hanswers hfirst, ?_⟩
    · exact Nat.succ_le_succ (length_made_inScopeLoop 1 _ _)
    · intro hchain hmade hmembers
      obtain ⟨chain, hchain, hids⟩ := hchain
      obtain ⟨members, hlength, hclosure⟩ := hmembers
      exact inScopeLoop_complete hanswers hfirst hlength hclosure hchain hids fun made hin =>
        hmade made (List.mem_cons_of_mem _ hin)

/-- Two folders that lie in each other. -/
def cyclicDrive : ParentRelation where
  canonical id := id
  parents id := if id = "F".toList then ["P".toList] else ["F".toList]
  canonical_canonical _ := rfl

/-- The answers of a drive that can always be read. -/
def readable (drive : ParentRelation) (_ : ℕ) (id : Str) : LookupAnswer :=
  .ok (drive.canonical id, drive.parents (drive.canonical id))

/-- On a drive with a cycle one lookup is enough. -/
theorem inScope_cyclicDrive : inScope (readable cyclicDrive) "F".toList ["P/F".toList] =
    ⟨true, [("F".toList, .ok ("F".toList, ["P".toList]))]⟩ := by
  have hsatisfied : satisfied ["P".toList, "F".toList] ["P/F".toList] = true := by decide
  change Walk.mk (inScopeLoop (readable cyclicDrive) ["P/F".toList] 1 ["P".toList, "F".toList] ["P".toList]).answer
    (_ :: (inScopeLoop (readable cyclicDrive) ["P/F".toList] 1 ["P".toList, "F".toList] ["P".toList]).made) = _
  rw [inScopeLoop]
  rfl

/-- A folder of the cycle is within the chain of both. -/
theorem in_scope_walk_cyclic : (inScope (readable cyclicDrive) "F".toList ["P/F".toList]).answer = true := by
  have hparent : cyclicDrive.AncestorOrSelf "F".toList "P".toList := Relation.ReflTransGen.single (by decide)
  refine (@in_scope_walk cyclicDrive _ _ _ ?_).2.2 ⟨"P/F".toList, List.mem_singleton_self _, ?_⟩ ?_
    ⟨["F".toList, "P".toList], by decide, ?_⟩
  · exact fun _ _ _ hfound => (Except.ok.inj hfound).symm
  · intro id hid
    cases hid with
    | head => exact hparent
    | tail _ hid =>
      rw [List.mem_singleton.mp hid]
      exact Relation.ReflTransGen.refl
  · rw [inScope_cyclicDrive]
    exact List.forall_mem_singleton.mpr rfl
  · intro id hid
    induction hid with
    | refl => exact List.mem_cons_self
    | tail _ hparent =>
      unfold cyclicDrive at hparent
      dsimp only at hparent
      split at hparent
      · exact List.mem_cons_of_mem _ hparent
      · rw [List.mem_singleton.mp hparent]
        exact List.mem_cons_self

end Walking

end Onecli.Gateway
