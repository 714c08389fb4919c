import Onecli.Directory.Roles
import Mathlib.Data.List.Find

/-!
# Mapped roles follow the directory

A reconcile reads the roles, then the members, and writes role by role. A member whose role differs from the mappings is
covered while some call will still give the role that the mappings give now: who changes what the mappings give a user
covers the user, and a write loses the cover only where it is out of date.
-/

namespace Onecli.Directory.Mapping

open List Bool Runs Function

section Winning

theorem foldl_outrank_some (mapped : List (MappableRole × ℤ)) (winner : MappableRole × ℤ) :
    ∃ final, mapped.foldl outrank (some winner) = some final := by
  induction mapped generalizing winner with
  | nil => exact ⟨winner, rfl⟩
  | cons m mapped ih =>
    rw [foldl_cons, outrank]
    split
    · exact ih m
    · exact ih winner

theorem resolveWinningRole_ne_none {mapped : List (MappableRole × ℤ)} (h : mapped ≠ []) :
    resolveWinningRole mapped ≠ none := by
  cases mapped with
  | nil => exact absurd rfl h
  | cons m mapped =>
    obtain ⟨final, hfinal⟩ := foldl_outrank_some mapped m
    rw [resolveWinningRole, foldl_cons, outrank, hfinal]
    simp

end Winning

namespace Tables

variable {t t' : Tables} {userId : ℕ}

theorem winning_eq_none_iff :
    t.winning userId = none ↔ ∀ row ∈ t.groupMembers, row.userId = userId → t.roleMapping row.groupId = none := by
  have hmapped : t.mapped userId = [] ↔
      ∀ row ∈ t.groupMembers, row.userId = userId → t.roleMapping row.groupId = none := by
    rw [mapped, filterMap_eq_nil_iff]
    simp only [mem_filter, decide_eq_true_eq, Option.map_eq_none_iff, and_imp]
  rw [← hmapped]
  constructor
  · intro hnone
    by_contra hne
    exact resolveWinningRole_ne_none hne hnone
  · intro hnil
    rw [winning, hnil]
    rfl

/-- A user in a mapped group is among those of `allMappedMemberIds`. -/
theorem mem_allMappedMemberIds (h : t.winning userId ≠ none) : userId ∈ t.allMappedMemberIds := by
  rw [Ne, winning_eq_none_iff] at h
  push Not at h
  obtain ⟨row, hrow, rfl, hmap⟩ := h
  refine List.mem_dedup.mpr (mem_map_of_mem (mem_filter.mpr ⟨hrow, ?_⟩))
  exact Option.isSome_iff_ne_none.mpr hmap

theorem mem_memberIdsForGroup_iff (groupId : ℕ) :
    userId ∈ t.memberIdsForGroup groupId ↔ ⟨groupId, userId⟩ ∈ t.groupMembers := by
  rw [memberIdsForGroup, mem_map]
  constructor
  · rintro ⟨row, hrow, rfl⟩
    obtain ⟨hmem, hgroup⟩ := mem_filter.mp hrow
    rw [← of_decide_eq_true hgroup]
    exact hmem
  · exact fun hmem => ⟨⟨groupId, userId⟩, mem_filter.mpr ⟨hmem, decide_eq_true rfl⟩, rfl⟩

theorem lookup_resolveRolesForUsers_of_none (h : t.winning userId = none) (ids : List ℕ) :
    (t.resolveRolesForUsers ids).lookup userId = none := by
  refine lookup_eq_none_iff.mpr fun pair hpair => ?_
  obtain ⟨other, -, hother⟩ := mem_filterMap.mp hpair
  obtain ⟨role, hrole, rfl⟩ := Option.map_eq_some_iff.mp hother
  refine bne_iff_ne.mpr fun heq => ?_
  rw [heq, hrole] at h
  cases h

theorem lookup_resolveRolesForUsers {ids : List ℕ} (h : userId ∈ ids) :
    (t.resolveRolesForUsers ids).lookup userId = t.winning userId := by
  unfold resolveRolesForUsers
  induction ids with
  | nil => cases h
  | cons id ids ih =>
    by_cases hid : userId = id
    · subst hid
      cases hwin : t.winning userId with
      | some => rw [filterMap_cons_some (by rw [hwin]; rfl), lookup_cons_self]
      | none =>
        rw [filterMap_cons_none (by rw [hwin]; rfl)]
        exact lookup_resolveRolesForUsers_of_none hwin ids
    · have hrest := ih (mem_of_ne_of_mem hid h)
      cases hrole : t.winning id with
      | none => rwa [filterMap_cons_none (by rw [hrole]; rfl)]
      | some =>
        rw [filterMap_cons_some (by rw [hrole]; rfl), lookup_cons, beq_false_of_ne hid]
        exact hrest

/-- What a reconcile changes. -/
theorem mem_changes_iff (ids : List ℕ) (desired : List (ℕ × MappableRole)) (want : MappableRole) :
    (userId, want) ∈ t.changes ids desired ↔ ∃ member ∈ t.members, member.userId = userId ∧ userId ∈ ids ∧
      member.role ≠ .owner ∧ member.status = .active ∧ desired.lookup userId = some want ∧ want.role ≠ member.role := by
  rw [changes, mem_filterMap]
  constructor
  · rintro ⟨member, hmember, hsome⟩
    obtain ⟨⟨hids, howner, hstatus⟩, hsome⟩ := Option.ite_none_right_eq_some.mp hsome
    obtain ⟨role, hlookup, hsome⟩ := Option.bind_eq_some_iff.mp hsome
    obtain ⟨hne, hpair⟩ := Option.ite_none_left_eq_some.mp hsome
    cases hpair
    refine ⟨member, hmember, rfl, hids, howner, ?_, hlookup, hne⟩
    cases hactive : member.status with
    | active => rfl
    | suspended => exact absurd hactive hstatus
  · rintro ⟨member, hmember, rfl, hids, howner, hactive, hlookup, hne⟩
    refine ⟨member, hmember, ?_⟩
    rw [if_pos ⟨hids, howner, by rw [hactive]; decide⟩, hlookup, Option.bind_some, if_neg hne]

/-- A change leaves a user the groups and the role that the mappings give. -/
structure SameFor (t t' : Tables) (userId : ℕ) : Prop where
  groups : ∀ groupId, (⟨groupId, userId⟩ : GroupMember) ∈ t'.groupMembers ↔ ⟨groupId, userId⟩ ∈ t.groupMembers
  winning : t'.winning userId = t.winning userId

/-- A user is unchanged where the rows that are read are. -/
theorem sameFor_of_rows
    (hrows : (t'.groupMembers.filter fun row => row.userId = userId) =
      t.groupMembers.filter fun row => row.userId = userId)
    (hmappings : ∀ row ∈ t.groupMembers, row.userId = userId → t'.roleMapping row.groupId = t.roleMapping row.groupId) :
    SameFor t t' userId where
  groups := by
    intro groupId
    have hmem (u : Tables) : ⟨groupId, userId⟩ ∈ u.groupMembers ↔
        ⟨groupId, userId⟩ ∈ u.groupMembers.filter fun row => row.userId = userId := by
      rw [mem_filter, decide_eq_true_eq, and_iff_left rfl]
    rw [hmem, hrows, ← hmem]
  winning := by
    rw [winning, winning, mapped, hrows]
    refine congrArg resolveWinningRole (filterMap_congr fun row hrow => ?_)
    obtain ⟨hrow, huser⟩ := mem_filter.mp hrow
    rw [hmappings row hrow (of_decide_eq_true huser)]

theorem sameFor_of_members (members : List OrganizationMember) : SameFor t { t with members := members } userId :=
  ⟨fun _ => Iff.rfl, rfl⟩

theorem sameFor_setMembers {groupId : ℕ} {toRemove toAdd : List ℕ} (hremove : userId ∉ toRemove) (hadd : userId ∉ toAdd) :
    SameFor t (t.setMembers groupId toRemove toAdd) userId := by
  refine sameFor_of_rows ?_ fun _ _ _ => rfl
  rw [setMembers]
  rw [filter_append, filter_filter, filter_filter]
  have hnone : (toAdd.map fun userId => (⟨groupId, userId⟩ : GroupMember)).filter (fun row =>
      decide (row.userId = userId) && decide (row ∉ t.groupMembers.filter fun row =>
        ¬(row.groupId = groupId ∧ row.userId ∈ toRemove))) = [] := by
    refine filter_eq_nil_iff.mpr fun row hrow hboth => ?_
    obtain ⟨other, hother, rfl⟩ := mem_map.mp hrow
    obtain ⟨huser, -⟩ := and_eq_true_iff.mp hboth
    obtain rfl := of_decide_eq_true huser
    exact hadd hother
  rw [hnone, append_nil]
  refine filter_congr fun row _ => ?_
  by_cases huser : row.userId = userId
  · simp [huser, hremove]
  · simp [huser]

theorem sameFor_deleteGroup {groupId : ℕ} (h : userId ∉ t.memberIdsForGroup groupId) :
    SameFor t (t.deleteGroup groupId) userId := by
  rw [mem_memberIdsForGroup_iff] at h
  have hgroup : ∀ row ∈ t.groupMembers, row.userId = userId → row.groupId ≠ groupId := by
    rintro row hrow rfl rfl
    exact h hrow
  refine sameFor_of_rows ?_ fun row hrow huser => ?_
  · rw [deleteGroup]
    rw [filter_filter]
    refine filter_congr fun row hrow => ?_
    by_cases huser : row.userId = userId
    · simp [huser, hgroup row hrow huser]
    · simp [huser]
  · rw [roleMapping, deleteGroup, List.find?_filter]
    refine congrArg (List.find? · t.mappings) (funext fun mapping => ?_)
    have hne := hgroup row hrow huser
    by_cases heq : mapping.groupId = row.groupId
    · simp [heq, hne]
    · simp [heq]

theorem sameFor_createMapping {groupId : ℕ} {role : MappableRole} {priority : ℤ}
    (h : (⟨groupId, userId⟩ : GroupMember) ∉ t.groupMembers) :
    SameFor t (t.createMapping groupId role priority) userId := by
  refine sameFor_of_rows rfl fun row hrow huser => ?_
  rw [roleMapping, roleMapping, createMapping, List.find?_append]
  have hne : ¬ groupId = row.groupId := by
    rintro rfl
    rw [← huser] at h
    exact h hrow
  simp [hne]

theorem sameFor_updateMapping (hids : (t.mappings.map (·.id)).Nodup) {mapping : GroupRoleMapping}
    (hmap : mapping ∈ t.mappings) {role : MappableRole} {priority : Option ℤ}
    (h : (⟨mapping.groupId, userId⟩ : GroupMember) ∉ t.groupMembers) :
    SameFor t (t.updateMapping mapping.id role priority) userId := by
  refine sameFor_of_rows rfl fun row hrow huser => ?_
  rw [roleMapping, roleMapping, updateMapping, List.find?_map]
  have hkey : (fun mapping : GroupRoleMapping => decide (mapping.groupId = row.groupId)) ∘
      (fun other => if other.id = mapping.id then
        { other with role := role, priority := priority.getD other.priority } else other) =
      fun mapping => decide (mapping.groupId = row.groupId) := by
    funext other
    rw [comp_apply]
    split <;> rfl
  rw [hkey]
  cases hfind : t.mappings.find? fun mapping => mapping.groupId = row.groupId with
  | none => rfl
  | some =>
    have hgroup := of_decide_eq_true (List.find?_some (p := fun mapping : GroupRoleMapping =>
      mapping.groupId = row.groupId) hfind)
    rw [Option.map_some, if_neg]
    intro hid
    obtain rfl := inj_on_of_nodup_map hids (List.mem_of_find?_eq_some hfind) hmap hid
    rw [hgroup, ← huser] at h
    exact h hrow

theorem sameFor_deleteMapping {id groupId : ℕ} (hgroup : ∀ mapping ∈ t.mappings, mapping.id = id → mapping.groupId = groupId)
    (h : (⟨groupId, userId⟩ : GroupMember) ∉ t.groupMembers) : SameFor t (t.deleteMapping id) userId := by
  refine sameFor_of_rows rfl fun row hrow huser => ?_
  rw [roleMapping, deleteMapping, List.find?_filter]
  refine List.find?_congr fun mapping hmap => ?_
  by_cases heq : mapping.groupId = row.groupId
  · have hid : mapping.id ≠ id := by
      intro hid
      rw [← hgroup mapping hmap hid, heq, ← huser] at h
      exact h hrow
    simp [heq, hid]
  · simp [heq]

theorem winning_reorder_eq_none_iff (orderedIds : List ℕ) :
    (t.reorder orderedIds).winning userId = none ↔ t.winning userId = none := by
  rw [winning_eq_none_iff, winning_eq_none_iff]
  refine forall₂_congr fun row _ => imp_congr_right fun _ => ?_
  rw [roleMapping, reorder, List.find?_map, Option.map_eq_none_iff]
  refine iff_of_eq (congrArg (· = none) (congrArg (List.find? · t.mappings) (funext fun mapping => ?_)))
  rw [comp_apply]
  split <;> rfl

end Tables

/-- What a call knows: the group of the mapping that it deletes, and that those whose roles it writes are active and no
owner. -/
def Knows (t : Tables) : Point → Prop
  | .deleteMapping id groupId => id < t.minted ∧ ∀ mapping ∈ t.mappings, mapping.id = id → mapping.groupId = groupId
  | .setRoles changes => ∀ change ∈ changes, ∀ member ∈ t.members, member.userId = change.1 →
      member.role ≠ .owner ∧ member.status = .active
  | _ => True

/-- A reconcile covers the users it is called for. -/
theorem covers_reconcileMemberRoles {t : Tables} {userId : ℕ} {userIds : List ℕ} (h : userId ∈ userIds) :
    (reconcileMemberRoles userIds).Covers t userId := by
  have hmem := List.mem_dedup.mpr h
  rw [reconcileMemberRoles, if_neg (ne_nil_of_mem hmem)]
  exact hmem

theorem Point.Covers.sameFor {t t' : Tables} {userId : ℕ} {p : Point} (h : p.Covers t userId)
    (hsame : t.SameFor t' userId) : p.Covers t' userId := by
  cases p with
  | memberIdsForGroup groupId => exact (hsame.groups groupId).mpr h
  | allMappedMemberIds =>
    rw [Point.Covers, hsame.winning]
    exact h
  | resolve => exact h
  | findMembers => exact ⟨h.1, h.2.trans hsame.winning.symm⟩
  | setRoles =>
    obtain ⟨want, hmem, hwin⟩ := h
    exact ⟨want, hmem, hsame.winning.trans hwin⟩
  | _ => exact h

/-- A reconcile starts without having read. -/
theorem knows_reconcileMemberRoles (t : Tables) (userIds : List ℕ) : Knows t (reconcileMemberRoles userIds) := by
  unfold reconcileMemberRoles
  split <;> trivial

/-- A call has resolved a role for a user. -/
def Point.Holds (userId : ℕ) : Point → Prop
  | .findMembers _ desired => desired.lookup userId ≠ none
  | .setRoles changes => ∃ want, (userId, want) ∈ changes
  | _ => False

/-- A reconcile starts holding nothing. -/
theorem not_holds_reconcileMemberRoles (userId : ℕ) (userIds : List ℕ) :
    ¬ (reconcileMemberRoles userIds).Holds userId := by
  unfold reconcileMemberRoles
  split <;> exact id

/-- A statement leaves the members, and covers whom its call covered; or it writes a role; or a member is active again.
-/
inductive Writes (t : Tables) (p : Point) (t' : Tables) (p' : Point) : Prop where
  | none (members : t'.members = t.members)
    (keeps : ∀ member ∈ t.members, t.Differs member → p.Covers t member.userId → p'.Covers t' member.userId)
  | role (userId : ℕ) (want : MappableRole) (rest : List (ℕ × MappableRole))
    (before : p = .setRoles ((userId, want) :: rest)) (tables : t' = t.setRole userId want)
    (after : p' = if rest = [] then .returned else .setRoles rest)
  | active (userId : ℕ) (before : p = .setActive userId) (tables : t' = t.setActive userId)
    (after : p' = reconcileMemberRoles [userId])

/-- What a statement does to the tables: the constraints and what the other calls know are kept, and who is given another
role by the mappings, or put into or out of a group, is covered by the call. A role is resolved for who has one. -/
structure Advances (t : Tables) (p : Point) (t' : Tables) (p' : Point) : Prop where
  wellFormed : t'.WellFormed
  knows : Knows t' p'
  others : ∀ q, Knows t q → Knows t' q
  reaches : ∀ userId, t.SameFor t' userId ∨ p'.Covers t' userId
  writes : Writes t p t' p'
  holds : ∀ userId, t.winning userId = none → p'.Holds userId → p.Holds userId

namespace Advances

variable {t t' : Tables} {p p' : Point}

theorem read {q : Point} (hexec : some (t, q) = some (t', p')) (h : t.WellFormed) (hknows : Knows t q)
    (hkeeps : ∀ member ∈ t.members, t.Differs member → p.Covers t member.userId → q.Covers t member.userId)
    (hholds : ∀ userId, t.winning userId = none → q.Holds userId → p.Holds userId) : Advances t p t' p' := by
  cases hexec
  exact ⟨h, hknows, fun _ hq => hq, fun _ => .inl ⟨fun _ => Iff.rfl, rfl⟩, .none rfl hkeeps, hholds⟩

theorem before {q : Point} (hexec : some (t, q) = some (t', p')) (h : t.WellFormed) (hknows : Knows t q)
    (hcovers : ∀ userId, ¬ p.Covers t userId) (hholds : ∀ userId, ¬ q.Holds userId) : Advances t p t' p' :=
  read hexec h hknows (fun member _ _ hmember => absurd hmember (hcovers member.userId))
    fun userId _ hmember => absurd hmember (hholds userId)

theorem setMembers (h : t.WellFormed) {groupId : ℕ} {toRemove toAdd userIds : List ℕ}
    (hids : ∀ userId, userId ∈ toRemove ∨ userId ∈ toAdd → userId ∈ userIds) (hcovers : ∀ userId, ¬ p.Covers t userId) :
    Advances t p (t.setMembers groupId toRemove toAdd) (reconcileMemberRoles userIds) where
  wellFormed := ⟨h.memberships, h.mappingIds, h.fresh⟩
  knows := knows_reconcileMemberRoles _ _
  others := fun q hq => by cases q <;> exact hq
  reaches := by
    intro userId
    by_cases hmem : userId ∈ toRemove ∨ userId ∈ toAdd
    · exact .inr (covers_reconcileMemberRoles (hids userId hmem))
    · exact .inl (Tables.sameFor_setMembers (fun h => hmem (.inl h)) fun h => hmem (.inr h))
  writes := .none rfl fun member _ _ hmember => absurd hmember (hcovers member.userId)
  holds := fun userId _ hholds => absurd hholds (not_holds_reconcileMemberRoles userId _)

/-- A change of one group's mapping. -/
theorem mapping {groupId : ℕ} (hmems : t'.members = t.members) (hrows : t'.groupMembers = t.groupMembers)
    (hwellFormed : t'.WellFormed) (hothers : ∀ q, Knows t q → Knows t' q)
    (hsame : ∀ userId, (⟨groupId, userId⟩ : GroupMember) ∉ t.groupMembers → t.SameFor t' userId)
    (hcovers : ∀ userId, ¬ p.Covers t userId) : Advances t p t' (.memberIdsForGroup groupId) where
  wellFormed := hwellFormed
  knows := trivial
  others := hothers
  reaches := by
    intro userId
    by_cases hmem : (⟨groupId, userId⟩ : GroupMember) ∈ t.groupMembers
    · exact .inr (show _ ∈ t'.groupMembers from hrows ▸ hmem)
    · exact .inl (hsame userId hmem)
  writes := .none hmems fun member _ _ hmember => absurd hmember (hcovers member.userId)
  holds := fun _ _ hholds => absurd hholds id

section

variable (h : t.WellFormed)
include h

theorem deleteGroup (groupId : ℕ) (hcovers : ∀ userId, ¬ p.Covers t userId) : Advances t p (t.deleteGroup groupId)
    (reconcileMemberRoles (t.memberIdsForGroup groupId)) where
  wellFormed :=
    { memberships := h.memberships
      mappingIds := h.mappingIds.sublist (filter_sublist.map _)
      fresh := fun mapping hmap => h.fresh mapping (mem_of_mem_filter hmap) }
  knows := knows_reconcileMemberRoles _ _
  others := by
    intro q hq
    cases q with
    | deleteMapping => exact ⟨hq.1, fun mapping hmap => hq.2 mapping (mem_of_mem_filter hmap)⟩
    | _ => exact hq
  reaches := by
    intro userId
    by_cases hmem : userId ∈ t.memberIdsForGroup groupId
    · exact .inr (covers_reconcileMemberRoles hmem)
    · exact .inl (Tables.sameFor_deleteGroup hmem)
  writes := .none rfl fun member _ _ hmember => absurd hmember (hcovers member.userId)
  holds := fun userId _ hholds => absurd hholds (not_holds_reconcileMemberRoles userId _)

theorem createMapping (groupId : ℕ) (role : MappableRole) (priority : ℤ) (hcovers : ∀ userId, ¬ p.Covers t userId) :
    Advances t p (t.createMapping groupId role priority) (.memberIdsForGroup groupId) := by
  refine mapping rfl rfl ⟨h.memberships, ?_, ?_⟩ (fun q hq => ?_) (fun _ => Tables.sameFor_createMapping) hcovers
  · rw [Tables.createMapping, map_append]
    refine List.Nodup.append h.mappingIds (nodup_singleton _) (disjoint_singleton.mpr fun hmem => ?_)
    obtain ⟨mapping, hmap, hid⟩ := mem_map.mp hmem
    exact Nat.ne_of_lt (h.fresh mapping hmap) hid
  · intro mapping hmap
    rcases mem_append.mp hmap with hmap | hnew
    · exact Nat.lt_succ_of_lt (h.fresh mapping hmap)
    · rw [mem_singleton.mp hnew]
      exact Nat.lt_succ_self t.minted
  · cases q with
    | deleteMapping =>
      refine ⟨Nat.lt_succ_of_lt hq.1, fun mapping hmap hid => ?_⟩
      rcases mem_append.mp hmap with hmap | hnew
      · exact hq.2 mapping hmap hid
      · rw [mem_singleton.mp hnew] at hid
        exact absurd hid.symm (Nat.ne_of_lt hq.1)
    | _ => exact hq

theorem of_map {f : GroupRoleMapping → GroupRoleMapping}
    (hf : ∀ mapping, (f mapping).id = mapping.id ∧ (f mapping).groupId = mapping.groupId) :
    ({ t with mappings := t.mappings.map f } : Tables).WellFormed ∧
      ∀ q, Knows t q → Knows { t with mappings := t.mappings.map f } q := by
  refine ⟨⟨h.memberships, ?_, ?_⟩, fun q hq => ?_⟩
  · rw [map_map]
    have hids : (fun mapping : GroupRoleMapping => mapping.id) ∘ f = fun mapping => mapping.id :=
      funext fun mapping => (hf mapping).1
    rw [hids]
    exact h.mappingIds
  · intro mapping hmap
    obtain ⟨other, hother, rfl⟩ := mem_map.mp hmap
    rw [(hf other).1]
    exact h.fresh other hother
  · cases q with
    | deleteMapping =>
      refine ⟨hq.1, fun mapping hmap hid => ?_⟩
      obtain ⟨other, hother, rfl⟩ := mem_map.mp hmap
      rw [(hf other).1] at hid
      rw [(hf other).2]
      exact hq.2 other hother hid
    | _ => exact hq

theorem updateMapping {found : GroupRoleMapping} (hfound : found ∈ t.mappings) (role : MappableRole)
    (priority : Option ℤ) (hcovers : ∀ userId, ¬ p.Covers t userId) : Advances t p
    (t.updateMapping found.id role priority) (.memberIdsForGroup found.groupId) := by
  have hkeeps := of_map h (f := fun mapping =>
    if mapping.id = found.id then { mapping with role := role, priority := priority.getD mapping.priority } else mapping)
    fun mapping => by split <;> exact ⟨rfl, rfl⟩
  exact mapping rfl rfl hkeeps.1 hkeeps.2 (fun _ => Tables.sameFor_updateMapping h.mappingIds hfound) hcovers

theorem deleteMapping {id groupId : ℕ} (hknows : Knows t (.deleteMapping id groupId))
    (hcovers : ∀ userId, ¬ p.Covers t userId) : Advances t p (t.deleteMapping id) (.memberIdsForGroup groupId) := by
  refine mapping rfl rfl ⟨h.memberships, h.mappingIds.sublist (filter_sublist.map _), ?_⟩ (fun q hq => ?_)
    (fun _ => Tables.sameFor_deleteMapping hknows.2) hcovers
  · exact fun mapping hmap => h.fresh mapping (mem_of_mem_filter hmap)
  · cases q with
    | deleteMapping => exact ⟨hq.1, fun mapping hmap => hq.2 mapping (mem_of_mem_filter hmap)⟩
    | _ => exact hq

theorem reorder (orderedIds : List ℕ) (hcovers : ∀ userId, ¬ p.Covers t userId) : Advances t p (t.reorder orderedIds)
    .allMappedMemberIds := by
  have hkeeps := of_map h (f := fun mapping =>
    if mapping.id ∈ orderedIds then { mapping with priority := orderedIds.length - orderedIds.idxOf mapping.id }
    else mapping) fun mapping => by split <;> exact ⟨rfl, rfl⟩
  refine ⟨hkeeps.1, trivial, hkeeps.2, fun userId => ?_,
    .none rfl fun member _ _ hmember => absurd hmember (hcovers member.userId), fun _ _ hholds => absurd hholds id⟩
  cases hwin : t.winning userId with
  | none => exact .inl ⟨fun _ => Iff.rfl, by rw [hwin, Tables.winning_reorder_eq_none_iff, hwin]⟩
  | some =>
    refine .inr fun hnone => ?_
    rw [Tables.winning_reorder_eq_none_iff, hwin] at hnone
    cases hnone

end

end Advances

theorem Tables.WellFormed.mapMembers {t : Tables} (h : t.WellFormed) {f : OrganizationMember → OrganizationMember}
    (hf : ∀ member, (f member).userId = member.userId) :
    ({ t with members := t.members.map f } : Tables).WellFormed := by
  refine ⟨?_, h.mappingIds, h.fresh⟩
  rw [map_map]
  have hids : (fun member : OrganizationMember => member.userId) ∘ f = fun member => member.userId := funext hf
  rw [hids]
  exact h.memberships

theorem knows_mapMembers {t : Tables} {f : OrganizationMember → OrganizationMember}
    (hid : ∀ member, (f member).userId = member.userId)
    (hf : ∀ member, member.role ≠ .owner ∧ member.status = .active → (f member).role ≠ .owner ∧ (f member).status = .active)
    (q : Point) (hq : Knows t q) : Knows { t with members := t.members.map f } q := by
  cases q with
  | setRoles =>
    intro change hchange member hmember huser
    obtain ⟨other, hother, rfl⟩ := mem_map.mp hmember
    rw [hid] at huser
    exact hf other (hq change hchange other hother huser)
  | _ => exact hq

theorem knows_start (t : Tables) (h : t.WellFormed) (operation : Operation) : Knows t (start t operation) := by
  cases operation with
  | deleteRoleMapping id =>
    rw [start]
    split
    · rename_i mapping hfind
      have hmem : mapping ∈ t.mappings := List.mem_of_find?_eq_some hfind
      obtain rfl := of_decide_eq_true (List.find?_some (p := fun mapping : GroupRoleMapping => mapping.id = id) hfind)
      refine ⟨h.fresh mapping hmem, fun other hother hid => ?_⟩
      rw [inj_on_of_nodup_map h.mappingIds hother hmem hid]
    · trivial
  | createRoleMapping =>
    unfold start
    dsimp only
    split
    · split <;> trivial
    · trivial
  | _ =>
    unfold start
    dsimp only
    split <;> trivial

theorem not_holds_start (t : Tables) (operation : Operation) (userId : ℕ) : ¬ (start t operation).Holds userId := by
  cases operation with
  | deleteRoleMapping =>
    rw [start]
    split <;> exact fun hholds => hholds
  | createRoleMapping =>
    unfold start
    dsimp only
    split
    · split <;> exact id
    · exact id
  | _ =>
    unfold start
    dsimp only
    split <;> exact id

theorem advances_exec {c : Choice} {t t' : Tables} {p p' : Point} (h : t.WellFormed) (hknows : Knows t p)
    (hexec : exec c t p = some (t', p')) : Advances t p t' p' := by
  unfold exec at hexec
  split at hexec
  · -- a call starts
    exact .before hexec h (knows_start t h _) (fun _ => id) (not_holds_start t _)
  · refine .before hexec h ?_ (fun _ => id) fun userId => ?_
    · split <;> trivial
    · split <;> exact id
  · split at hexec
    · exact .before hexec h trivial (fun _ => id) fun _ => id
    · split at hexec
      · exact .before hexec h trivial (fun _ => id) fun _ => id
      · cases hexec
        exact Advances.setMembers h (by simp) fun _ => id
  · cases hexec
    exact Advances.setMembers h (by simp) fun _ => id
  · refine .before hexec h ?_ (fun _ => id) fun userId => ?_
    · split <;> trivial
    · split <;> exact id
  · refine .before hexec h ?_ (fun _ => id) fun userId => ?_
    · split <;> trivial
    · split <;> exact id
  · split at hexec
    · exact .before hexec h trivial (fun _ => id) fun _ => id
    · cases hexec
      exact .setMembers h (fun userId hmem => mem_append.mpr hmem.symm) fun _ => id
  · split at hexec
    · exact .before hexec h trivial (fun _ => id) fun _ => id
    · cases hexec
      exact .deleteGroup h _ fun _ => id
  · exact .before hexec h trivial (fun _ => id) fun _ => id
  · split at hexec
    · exact .before hexec h trivial (fun _ => id) fun _ => id
    · cases hexec
      exact .createMapping h _ _ _ fun _ => id
  · split at hexec
    · rename_i found hfind
      cases hexec
      obtain rfl := of_decide_eq_true (List.find?_some (p := fun mapping : GroupRoleMapping => mapping.id = _) hfind)
      exact .updateMapping h (List.mem_of_find?_eq_some hfind) _ _ fun _ => id
    · exact .before hexec h trivial (fun _ => id) fun _ => id
  · split at hexec
    · cases hexec
      exact .deleteMapping h hknows fun _ => id
    · exact .before hexec h trivial (fun _ => id) fun _ => id
  · split at hexec
    · cases hexec
      exact .reorder h _ fun _ => id
    · exact .before hexec h trivial (fun _ => id) fun _ => id
  · rename_i userId
    cases hexec
    refine ⟨h.mapMembers fun member => by split <;> rfl, knows_reconcileMemberRoles _ _, ?_,
      fun _ => .inl (Tables.sameFor_of_members _), .active userId rfl rfl rfl,
      fun other _ hholds => absurd hholds (not_holds_reconcileMemberRoles other _)⟩
    exact knows_mapMembers (fun member => by split <;> rfl) fun member hmember => by
      split
      · exact ⟨hmember.1, rfl⟩
      · exact hmember
  · refine .read hexec h (knows_reconcileMemberRoles _ _) (fun member _ _ hcovers => ?_) fun userId _ hholds =>
      absurd hholds (not_holds_reconcileMemberRoles userId _)
    exact covers_reconcileMemberRoles ((Tables.mem_memberIdsForGroup_iff _).mpr hcovers)
  · refine .read hexec h (knows_reconcileMemberRoles _ _) (fun member _ _ hcovers => ?_) fun userId _ hholds =>
      absurd hholds (not_holds_reconcileMemberRoles userId _)
    exact covers_reconcileMemberRoles (Tables.mem_allMappedMemberIds hcovers)
  · refine .read hexec h (by split <;> trivial) (fun member _ hdiffers hcovers => ?_) fun userId hnone hholds => ?_
    · obtain ⟨-, -, role, hwin, -⟩ := hdiffers
      have hlookup := Tables.lookup_resolveRolesForUsers (t := t) hcovers
      rw [if_neg]
      · exact ⟨hcovers, hlookup⟩
      · intro hnil
        rw [hnil, hwin] at hlookup
        cases hlookup
    · split at hholds
      · exact hholds
      · exact absurd (Tables.lookup_resolveRolesForUsers_of_none hnone _) hholds
  · rename_i ids desired
    refine .read hexec h ?_ (fun member hmember hdiffers hcovers => ?_) fun userId _ hholds => ?_
    · split
      · trivial
      · intro change hchange member hmember huser
        obtain ⟨other, hother, hid, -, howner, hactive, -⟩ := (Tables.mem_changes_iff ids desired change.2).mp hchange
        obtain rfl := inj_on_of_nodup_map h.memberships hmember hother (huser.trans hid.symm)
        exact ⟨howner, hactive⟩
    · obtain ⟨hactive, howner, role, hwin, hne⟩ := hdiffers
      have hchange := (Tables.mem_changes_iff (t := t) ids desired role).mpr
        ⟨member, hmember, rfl, hcovers.1, howner, hactive, hcovers.2.trans hwin, Ne.symm hne⟩
      rw [if_neg (ne_nil_of_mem hchange)]
      exact ⟨role, hchange, hwin⟩
    · split at hholds
      · exact absurd hholds id
      · obtain ⟨want, hchange⟩ := hholds
        obtain ⟨-, -, -, -, -, -, hlookup, -⟩ := (Tables.mem_changes_iff ids desired want).mp hchange
        exact fun hnone => by rw [hnone] at hlookup; cases hlookup
  · split at hexec
    · rename_i userId want rest
      cases hexec
      have hkeeps := knows_mapMembers (t := t)
        (f := fun member => if member.userId = userId then { member with role := want.role } else member)
        (fun member => by split <;> rfl) fun member hmember => by
          split
          · refine ⟨?_, hmember.2⟩
            cases want <;> simp [MappableRole.role]
          · exact hmember
      refine ⟨h.mapMembers fun member => by split <;> rfl, ?_, hkeeps, fun _ => .inl (Tables.sameFor_of_members _),
        .role userId want rest rfl rfl rfl, fun other _ hholds => ?_⟩
      · split
        · trivial
        · exact hkeeps (.setRoles rest) fun change hchange => hknows change (mem_cons_of_mem _ hchange)
      · split at hholds
        · exact absurd hholds id
        · obtain ⟨want', hchange⟩ := hholds
          exact ⟨want', mem_cons_of_mem _ hchange⟩
    · refine .before hexec h trivial (fun _ hcovers => ?_) fun _ => id
      obtain ⟨want, hmem, -⟩ := hcovers
      cases hmem
  · cases hexec

/-- What holds as long as the roles that are written are up to date: who differs from the mappings is covered. -/
structure Sound (w : World) : Prop where
  wellFormed : w.db.WellFormed
  knows : ∀ i, Knows w.db (w.calls i)

/-- Who differs from the mappings is covered by a call. -/
def Covered (w : World) : Prop :=
  ∀ member ∈ w.db.members, w.db.Differs member → ∃ i, (w.calls i).Covers w.db member.userId

namespace Sound

variable {w w' : World} {e : ℕ × Choice}

/-- A step advances its call and no other. -/
theorem advances (h : Sound w) (hstep : step w e = some w') :
    Advances w.db (w.calls e.1) w'.db (w'.calls e.1) ∧ ∀ j, j ≠ e.1 → w'.calls j = w.calls j := by
  obtain ⟨t, p, hexec, rfl⟩ := (Calls.step_eq_some_iff _ w w' e).mp hstep
  refine ⟨?_, fun j hj => update_of_ne hj _ _⟩
  dsimp only
  rw [update_self]
  exact advances_exec h.wellFormed (h.knows e.1) hexec

/-- Every statement keeps the members' roles sound. -/
theorem step (h : Sound w) (hstep : Mapping.step w e = some w') : Sound w' := by
  obtain ⟨hadvances, hothers⟩ := h.advances hstep
  refine ⟨hadvances.wellFormed, fun j => ?_⟩
  by_cases hj : j = e.1
  · rw [hj]
    exact hadvances.knows
  · rw [hothers j hj]
    exact hadvances.others _ (h.knows j)

/-- Well-formed tables start sound. -/
theorem initial {t : Tables} (h : t.WellFormed) : Sound (initial t) := ⟨h, fun _ => trivial⟩

theorem ownersKept (h : Sound w) (hstep : Mapping.step w e = some w') : w.OwnersKept w' := by
  intro member' hmember'
  cases (h.advances hstep).1.writes with
  | none members => exact ⟨member', members ▸ hmember', rfl, .inl rfl⟩
  | role userId want rest before tables =>
    rw [tables] at hmember'
    obtain ⟨member, hmember, rfl⟩ := mem_map.mp hmember'
    have hknows := h.knows e.1
    rw [before] at hknows
    by_cases huser : member.userId = userId
    · exact ⟨member, hmember, by rw [if_pos huser], .inr (hknows (userId, want) mem_cons_self member hmember huser)⟩
    · exact ⟨member, hmember, by rw [if_neg huser], .inl (by rw [if_neg huser])⟩
  | active userId before tables =>
    rw [tables] at hmember'
    obtain ⟨member, hmember, rfl⟩ := mem_map.mp hmember'
    refine ⟨member, hmember, ?_, .inl ?_⟩ <;> split <;> rfl

/-- An up-to-date statement leaves every change covered. -/
theorem covered (h : Sound w) (hcov : Covered w) (hupToDate : UpToDate w e)
    (hstep : Mapping.step w e = some w') : Covered w' := by
  obtain ⟨hadvances, hothers⟩ := h.advances hstep
  intro member' hmember' hdiffers
  rcases hadvances.reaches member'.userId with hsame | hcovers
  · -- another call still covers whom it covered
    have hstays (j : ℕ) (hj : j ≠ e.1) (hcovers : (w.calls j).Covers w.db member'.userId) :
        ∃ i, (w'.calls i).Covers w'.db member'.userId :=
      ⟨j, by rw [hothers j hj]; exact hcovers.sameFor hsame⟩
    obtain ⟨hactive, howner, role, hwin, hne⟩ := hdiffers
    rw [hsame.winning] at hwin
    cases hadvances.writes with
    | none members keeps =>
      rw [members] at hmember'
      have hbefore : w.db.Differs member' := ⟨hactive, howner, role, hwin, hne⟩
      obtain ⟨i, hcovers⟩ := hcov member' hmember' hbefore
      by_cases hi : i = e.1
      · rw [hi] at hcovers
        exact ⟨e.1, keeps member' hmember' hbefore hcovers⟩
      · exact hstays i hi hcovers
    | role userId want rest before tables after =>
      rw [tables] at hmember'
      obtain ⟨member, hmember, rfl⟩ := mem_map.mp hmember'
      by_cases huser : member.userId = userId
      · rw [if_pos huser] at hne hwin hstays
        rw [huser] at hwin hstays
        rcases hupToDate userId want rest before with hnone | hwant | ⟨j, hj, hcovers⟩
        · rw [hnone] at hwin
          cases hwin
        · rw [hwant] at hwin
          exact absurd (congrArg MappableRole.role (Option.some.inj hwin)) hne
        · rw [if_pos huser]
          rw [huser]
          exact hstays j hj hcovers
      · rw [if_neg huser] at hactive howner hwin hne hstays ⊢
        obtain ⟨i, hcovers⟩ := hcov member hmember ⟨hactive, howner, role, hwin, hne⟩
        by_cases hi : i = e.1
        · rw [hi, before] at hcovers
          obtain ⟨want', hmem, hwant'⟩ := hcovers
          rcases mem_cons.mp hmem with heq | hrest
          · exact absurd (congrArg Prod.fst heq) huser
          · refine ⟨e.1, ?_⟩
            rw [after, if_neg (ne_nil_of_mem hrest)]
            exact ⟨want', hrest, (tables ▸ hwant' : (w'.db).winning member.userId = some want')⟩
        · exact hstays i hi hcovers
    | active userId before tables after =>
      rw [tables] at hmember'
      obtain ⟨member, hmember, rfl⟩ := mem_map.mp hmember'
      by_cases huser : member.userId = userId
      · refine ⟨e.1, ?_⟩
        rw [if_pos huser, after]
        exact covers_reconcileMemberRoles (by rw [huser]; exact mem_cons_self)
      · rw [if_neg huser] at hactive howner hwin hne hstays ⊢
        obtain ⟨i, hcovers⟩ := hcov member hmember ⟨hactive, howner, role, hwin, hne⟩
        by_cases hi : i = e.1
        · rw [hi, before] at hcovers
          exact absurd hcovers id
        · exact hstays i hi hcovers
  · exact ⟨e.1, hcovers⟩

end Sound

/-- Once no change is left, covered roles are reconciled. -/
theorem Covered.reconciled {w : World} (h : Covered w) : w.Reconciled := by
  intro hreturned member hmember hdiffers
  obtain ⟨i, hcovers⟩ := h member hmember hdiffers
  have hdone := hreturned i
  cases hpoint : w.calls i with
  | idle | returned | failed => rwa [hpoint] at hcovers
  | _ =>
    rw [hpoint] at hdone
    exact hdone

theorem Tables.roleOf_mapMembers {t : Tables} {userId : ℕ} {f : OrganizationMember → OrganizationMember}
    (hid : ∀ member, (f member).userId = member.userId)
    (hrole : ∀ member, member.userId = userId → (f member).role = member.role) :
    ({ t with members := t.members.map f } : Tables).roleOf userId = t.roleOf userId := by
  rw [roleOf, roleOf, findMember, findMember, List.find?_map]
  have hkey : (fun member : OrganizationMember => decide (member.userId = userId)) ∘ f =
      fun member => decide (member.userId = userId) := by
    funext member
    rw [comp_apply, hid]
  rw [hkey]
  cases hfind : t.members.find? fun member => member.userId = userId with
  | none => rfl
  | some member =>
    have huser := of_decide_eq_true (List.find?_some (p := fun member : OrganizationMember => member.userId = userId) hfind)
    exact congrArg some (hrole member huser)

/-- No role was resolved for a user, and theirs is the one they had. -/
def Untouched (userId : ℕ) (role : Option Role) (w : World) : Prop :=
  (∀ i, ¬ (w.calls i).Holds userId) ∧ w.db.roleOf userId = role

theorem Sound.untouched {w w' : World} {e : ℕ × Choice} (h : Sound w) {userId : ℕ} {role : Option Role}
    (huntouched : Untouched userId role w) (hnone : w.db.winning userId = none) (hstep : Mapping.step w e = some w') :
    Untouched userId role w' := by
  obtain ⟨hadvances, hothers⟩ := h.advances hstep
  refine ⟨fun j => ?_, ?_⟩
  · by_cases hj : j = e.1
    · rw [hj]
      exact fun hholds => huntouched.1 e.1 (hadvances.holds userId hnone hholds)
    · rw [hothers j hj]
      exact huntouched.1 j
  · rw [← huntouched.2]
    cases hadvances.writes with
    | none members => rw [Tables.roleOf, Tables.roleOf, Tables.findMember, Tables.findMember, members]
    | role other want rest before tables =>
      rw [tables]
      refine Tables.roleOf_mapMembers (fun member => by split <;> rfl) fun member huser => ?_
      rw [if_neg]
      intro hother
      refine huntouched.1 e.1 ?_
      rw [before, ← huser, hother]
      exact ⟨want, mem_cons_self⟩
    | active other before tables =>
      rw [tables]
      exact Tables.roleOf_mapMembers (fun member => by split <;> rfl) fun member _ => by split <;> rfl

/-- A role that a reconcile changes is of an active member who is no owner, and who was never given a role by the
mappings keeps theirs, however the calls are interleaved. -/
theorem run_kept {t : Tables} (h : t.WellFormed) (es : List (ℕ × Choice)) :
    Runs.Steps step World.OwnersKept (initial t) es ∧
      ∀ userId front back w, es = front ++ back → run step (initial t) front = some w →
        Runs.Throughout step (fun w => w.db.winning userId = none) (initial t) front →
          w.db.roleOf userId = t.roleOf userId := by
  constructor
  · exact steps_of_meets step (I := Sound) (fun _ _ _ hsound _ hstep => ⟨hsound.step hstep, hsound.ownersKept hstep⟩)
      (.initial h) (meets_true step (initial t) es)
  · intro userId front back w _ hrun hnever
    have hmeets := meets_of_throughout step hnever
    have hboth := run_invariant_of_meets step
      (I := fun w => Sound w ∧ Untouched userId (t.roleOf userId) w)
      (fun u e v hu hnone hstep => ⟨hu.1.step hstep, hu.1.untouched hu.2 hnone hstep⟩)
      ⟨.initial h, fun _ => id, rfl⟩ hmeets hrun
    exact hboth.2.2

/-- Mapped roles follow the directory where every role that a reconcile writes is up to date. -/
theorem roles_follow {t : Tables} (h : t.WellFormed) (hfollows : t.Follows) {es : List (ℕ × Choice)}
    (hmeets : Runs.Meets step UpToDate (initial t) es) :
    Runs.Throughout step World.Reconciled (initial t) es ∧ Runs.Steps step World.OwnersKept (initial t) es ∧
      ∀ userId front back w, es = front ++ back → run step (initial t) front = some w →
        Runs.Throughout step (fun w => w.db.winning userId = none) (initial t) front →
          w.db.roleOf userId = t.roleOf userId := by
  refine ⟨fun front back w hsplit hrun => ?_, run_kept h es⟩
  have hboth := throughout_of_meets step (I := fun w => Sound w ∧ Covered w)
    (fun u e v hu hupToDate hstep => ⟨hu.1.step hstep, hu.1.covered hu.2 hupToDate hstep⟩)
    ⟨.initial h, fun member hmember hdiffers => absurd hdiffers (hfollows member hmember)⟩ hmeets
  exact (hboth front back w hsplit hrun).2.reconciled

/-- A role that is written is the one that the mappings give at that time. -/
def Fresh (w : World) (e : ℕ × Choice) : Prop :=
  match w.calls e.1 with
  | .setRoles ((userId, want) :: _) => w.db.winning userId = some want
  | _ => True

instance (w : World) (e : ℕ × Choice) : Decidable (Fresh w e) := by
  unfold Fresh
  split <;> infer_instance

/-- Mappings read at the write are up to date. -/
theorem upToDate_of_fresh (w : World) (e : ℕ × Choice) (h : Fresh w e) : UpToDate w e := by
  intro userId want rest hpoint
  rw [Fresh, hpoint] at h
  exact .inr (.inl h)

/-- An organization of an owner and a member, with a group for members and a group for admins. -/
def twoGroups (groupMembers : List GroupMember) : Tables :=
  ⟨[⟨0, [], .owner, .active⟩, ⟨7, [], .member, .active⟩], [1, 2], groupMembers, [⟨0, 1, .member, 1⟩, ⟨1, 2, .admin, 2⟩], 2⟩

/-- A member is put into both groups at once, and the group for admins goes. -/
def joined : List (ℕ × Choice) :=
  [(0, .start (.addGroupMember 1 7)), (1, .start (.addGroupMember 2 7)), (0, .go), (1, .go), (0, .go), (1, .go),
    (0, .go), (1, .go), (0, .go), (1, .go), (1, .go), (0, .go), (2, .start (.deleteGroup 2)), (2, .go), (2, .go),
    (2, .go), (2, .go)]

/-- The member is an admin, and then a member again. -/
theorem roles_follow_joined :
    Runs.Throughout step World.Reconciled (initial (twoGroups [])) joined :=
  (roles_follow ⟨by decide, by decide, by decide⟩
    (fun member hmember hdiffers => by
      obtain ⟨-, -, role, hwinning, -⟩ := hdiffers
      cases hwinning)
    (Runs.Meets.imp step upToDate_of_fresh (by decide +kernel : Runs.Meets step Fresh (initial (twoGroups [])) joined))).1

/-- A member is put into the group for admins and out of it again, and the first reconcile writes last. -/
def overtaken : List (ℕ × Choice) :=
  [(0, .start (.addGroupMember 2 7)), (0, .go), (0, .go), (0, .go), (0, .go), (1, .start (.removeGroupMember 2 7)),
    (1, .go), (1, .go), (1, .go), (0, .go)]

/-- The member stays an admin. -/
theorem stays_admin :
    ¬ Runs.Throughout step World.Reconciled (initial (twoGroups [⟨1, 7⟩])) overtaken := by
  intro hall
  obtain ⟨w, hw⟩ := Option.isSome_iff_exists.mp
    (show (run step (initial (twoGroups [⟨1, 7⟩])) overtaken).isSome by decide +kernel)
  have hend : (run step (initial (twoGroups [⟨1, 7⟩])) overtaken).all (fun w =>
      w.calls 0 = .returned ∧ w.calls 1 = .returned ∧ ⟨7, [], .admin, .active⟩ ∈ w.db.members ∧
        w.db.winning 7 = some .member) = true := by
    decide +kernel
  rw [hw, Option.all_some, decide_eq_true_eq] at hend
  obtain ⟨hzero, hone, hmember, hwinning⟩ := hend
  refine hall overtaken [] w (List.append_nil _).symm hw (fun i => ?_) _ hmember ⟨rfl, by decide, .member, hwinning, by decide⟩
  by_cases hi : i = 0
  · rw [hi, hzero]
    trivial
  · by_cases hi' : i = 1
    · rw [hi', hone]
      trivial
    · have hrest : w.calls i = .idle := Calls.run_calls_eq exec hw fun e he => by
        have hcall : e.1 = 0 ∨ e.1 = 1 := by
          revert e
          decide
        omega
      rw [hrest]
      trivial

end Onecli.Directory.Mapping
