import Onecli.Directory.Provision
import Mathlib.Data.List.Dedup

/-!
# Mapped roles

`reconcileMemberRoles` of `team-service.ts`, the resolution of `role-mapping-service.ts`, and what changes the groups
and the mappings of one organization: the cores of `group-service.ts`, the routes of the role mappings and the
reinstatement of a member. Each of them reconciles the members that it concerns when its change is made.

Every statement and every transaction is atomic. The organization is licensed, and what a reconcile does beside the
roles (the keys of a demoted admin, the audit, the gateway's cache) is left out.
-/

namespace Onecli.Directory.Mapping

/-- `MappableRole`. -/
inductive MappableRole where
  | admin
  | member
  deriving DecidableEq

/-- The role that is written. -/
def MappableRole.role : MappableRole → Role
  | .admin => .admin
  | .member => .member

/-- A row of `group_members`. -/
structure GroupMember where
  groupId : ℕ
  userId : ℕ
  deriving DecidableEq

/-- A row of `group_role_mappings`. -/
structure GroupRoleMapping where
  id : ℕ
  groupId : ℕ
  role : MappableRole
  priority : ℤ

/-- The tables of the organization. -/
structure Tables where
  members : List OrganizationMember
  groups : List ℕ
  groupMembers : List GroupMember
  mappings : List GroupRoleMapping
  minted : ℕ

/-- The loop of `resolveWinningRole`. -/
def outrank (winner : Option (MappableRole × ℤ)) (m : MappableRole × ℤ) : Option (MappableRole × ℤ) :=
  match winner with
  | none => some m
  | some winner => if winner.2 < m.2 ∨ m.2 = winner.2 ∧ m.1 = .admin ∧ winner.1 ≠ .admin then some m else some winner

/-- `resolveWinningRole`: the highest priority, and on a tie the admin. -/
def resolveWinningRole (mapped : List (MappableRole × ℤ)) : Option MappableRole :=
  (mapped.foldl outrank none).map Prod.fst

namespace Tables

/-- The mapping of a group. -/
def roleMapping (t : Tables) (groupId : ℕ) : Option GroupRoleMapping :=
  t.mappings.find? fun mapping => mapping.groupId = groupId

/-- The mappings of the groups that a user is in. -/
def mapped (t : Tables) (userId : ℕ) : List (MappableRole × ℤ) :=
  (t.groupMembers.filter fun row => row.userId = userId).filterMap fun row =>
    (t.roleMapping row.groupId).map fun mapping => (mapping.role, mapping.priority)

/-- The role that the mappings give a user. -/
def winning (t : Tables) (userId : ℕ) : Option MappableRole := resolveWinningRole (t.mapped userId)

/-- `resolveRolesForUsers`. -/
def resolveRolesForUsers (t : Tables) (userIds : List ℕ) : List (ℕ × MappableRole) :=
  userIds.filterMap fun userId => (t.winning userId).map fun role => (userId, role)

/-- `memberIdsForGroup`. -/
def memberIdsForGroup (t : Tables) (groupId : ℕ) : List ℕ :=
  (t.groupMembers.filter fun row => row.groupId = groupId).map (·.userId)

/-- `allMappedMemberIds`. -/
def allMappedMemberIds (t : Tables) : List ℕ :=
  ((t.groupMembers.filter fun row => (t.roleMapping row.groupId).isSome).map (·.userId)).dedup

/-- What `reconcileMemberRoles` writes, by the roles that it resolved and the members that it reads. -/
def changes (t : Tables) (ids : List ℕ) (desired : List (ℕ × MappableRole)) : List (ℕ × MappableRole) :=
  t.members.filterMap fun member =>
    if member.userId ∈ ids ∧ member.role ≠ .owner ∧ member.status ≠ .suspended then
      (desired.lookup member.userId).bind fun want =>
        if want.role = member.role then none else some (member.userId, want)
    else none

/-- The role of a member is written. -/
def setRole (t : Tables) (userId : ℕ) (role : MappableRole) : Tables :=
  { t with
    members := t.members.map fun member => if member.userId = userId then { member with role := role.role } else member }

/-- A member is active again. -/
def setActive (t : Tables) (userId : ℕ) : Tables :=
  { t with
    members := t.members.map fun member => if member.userId = userId then { member with status := .active } else member }

/-- Members of a group go, and others are added where they are none yet. -/
def setMembers (t : Tables) (groupId : ℕ) (toRemove toAdd : List ℕ) : Tables :=
  let kept := t.groupMembers.filter fun row => ¬(row.groupId = groupId ∧ row.userId ∈ toRemove)
  { t with
    groupMembers := kept ++ (toAdd.map fun userId => ⟨groupId, userId⟩).filter fun row => row ∉ kept }

/-- A group goes, with its members and its mapping. -/
def deleteGroup (t : Tables) (groupId : ℕ) : Tables :=
  { t with
    groups := t.groups.filter (· ≠ groupId)
    groupMembers := t.groupMembers.filter fun row => row.groupId ≠ groupId
    mappings := t.mappings.filter fun mapping => mapping.groupId ≠ groupId }

/-- A mapping is added. -/
def createMapping (t : Tables) (groupId : ℕ) (role : MappableRole) (priority : ℤ) : Tables :=
  { t with mappings := t.mappings ++ [⟨t.minted, groupId, role, priority⟩], minted := t.minted + 1 }

/-- A mapping is written over. -/
def updateMapping (t : Tables) (id : ℕ) (role : MappableRole) (priority : Option ℤ) : Tables :=
  { t with
    mappings := t.mappings.map fun mapping =>
      if mapping.id = id then { mapping with role := role, priority := priority.getD mapping.priority } else mapping }

/-- A mapping goes. -/
def deleteMapping (t : Tables) (id : ℕ) : Tables :=
  { t with mappings := t.mappings.filter fun mapping => mapping.id ≠ id }

/-- The priorities are written by the order, the highest first. -/
def reorder (t : Tables) (orderedIds : List ℕ) : Tables :=
  { t with
    mappings := t.mappings.map fun mapping =>
      if mapping.id ∈ orderedIds then
        { mapping with priority := orderedIds.length - orderedIds.idxOf mapping.id }
      else mapping }

/-- `nextLowestPriority`. -/
def nextLowestPriority (t : Tables) : ℤ := ((t.mappings.map (·.priority)).min?.getD 1) - 1

/-- A mapping by its id. -/
def findMapping (t : Tables) (id : ℕ) : Option GroupRoleMapping := t.mappings.find? fun mapping => mapping.id = id

/-- A membership by its user. -/
def findMember (t : Tables) (userId : ℕ) : Option OrganizationMember :=
  t.members.find? fun member => member.userId = userId

end Tables

/-- What changes a role by the mappings. -/
inductive Operation where
  | addGroupMember (groupId userId : ℕ)
  | removeGroupMember (groupId userId : ℕ)
  | setGroupMembers (groupId : ℕ) (userIds : List ℕ)
  | deleteGroup (groupId : ℕ)
  | createRoleMapping (groupId : ℕ) (role : MappableRole) (priority : Option ℤ)
  | updateRoleMapping (id : ℕ) (role : MappableRole) (priority : Option ℤ)
  | deleteRoleMapping (id : ℕ)
  | reorderRoleMappings (orderedIds : List ℕ)
  | reinstateMember (userId : ℕ)
  deriving DecidableEq

/-- Where a call stands: at the statement that is next, or at its end. -/
inductive Point where
  | idle
  | requireOrgMember (groupId userId : ℕ)
  | createMember (groupId userId : ℕ)
  | deleteMember (groupId userId : ℕ)
  | findValid (groupId : ℕ) (target : List ℕ)
  | findCurrent (groupId : ℕ) (target : List ℕ)
  | setMembers (groupId : ℕ) (toRemove toAdd : List ℕ)
  | deleteGroup (groupId : ℕ)
  | nextLowestPriority (groupId : ℕ) (role : MappableRole)
  | createMapping (groupId : ℕ) (role : MappableRole) (priority : ℤ)
  | updateMapping (id : ℕ) (role : MappableRole) (priority : Option ℤ)
  | deleteMapping (id groupId : ℕ)
  | reorder (orderedIds : List ℕ)
  | setActive (userId : ℕ)
  | memberIdsForGroup (groupId : ℕ)
  | allMappedMemberIds
  | resolve (ids : List ℕ)
  | findMembers (ids : List ℕ) (desired : List (ℕ × MappableRole))
  | setRoles (changes : List (ℕ × MappableRole))
  | returned
  | failed
  deriving DecidableEq

/-- The start of `reconcileMemberRoles`. -/
def reconcileMemberRoles (userIds : List ℕ) : Point :=
  if userIds.dedup = [] then .returned else .resolve userIds.dedup

/-- A call starts, or goes on. -/
inductive Choice where
  | start (operation : Operation)
  | go
  deriving DecidableEq

/-- The first statement of a call. -/
def start (t : Tables) : Operation → Point
  | .addGroupMember groupId userId => if groupId ∈ t.groups then .requireOrgMember groupId userId else .failed
  | .removeGroupMember groupId userId => if groupId ∈ t.groups then .deleteMember groupId userId else .failed
  | .setGroupMembers groupId userIds => if groupId ∈ t.groups then .findValid groupId userIds.dedup else .failed
  | .deleteGroup groupId => if groupId ∈ t.groups then .deleteGroup groupId else .failed
  | .createRoleMapping groupId role priority =>
    if groupId ∈ t.groups then
      match priority with
      | some priority => .createMapping groupId role priority
      | none => .nextLowestPriority groupId role
    else .failed
  | .updateRoleMapping id role priority =>
    if (t.findMapping id).isSome then .updateMapping id role priority else .failed
  | .deleteRoleMapping id =>
    match t.findMapping id with
    | some mapping => .deleteMapping id mapping.groupId
    | none => .failed
  | .reorderRoleMappings orderedIds =>
    if orderedIds.Nodup ∧ orderedIds.length = (t.mappings.map (·.id)).dedup.length ∧
        ∀ id ∈ orderedIds, id ∈ t.mappings.map (·.id) then .reorder orderedIds
    else .failed
  | .reinstateMember userId =>
    if (t.findMember userId).any fun member => member.status = .suspended then .setActive userId else .failed

/-- A statement of a call. -/
def exec : Calls.Exec Tables Point Choice
  | .start operation, t, .idle => some (t, start t operation)
  | .go, t, .requireOrgMember groupId userId =>
    some (t, if (t.findMember userId).isSome then .createMember groupId userId else .failed)
  | .go, t, .createMember groupId userId =>
    if groupId ∉ t.groups then some (t, .failed)
    else if ⟨groupId, userId⟩ ∈ t.groupMembers then some (t, .returned)
    else some (t.setMembers groupId [] [userId], reconcileMemberRoles [userId])
  | .go, t, .deleteMember groupId userId => some (t.setMembers groupId [userId] [], reconcileMemberRoles [userId])
  | .go, t, .findValid groupId target =>
    some (t, if target.all fun userId => (t.findMember userId).isSome then .findCurrent groupId target else .failed)
  | .go, t, .findCurrent groupId target =>
    let current := t.memberIdsForGroup groupId
    let toAdd := target.filter (· ∉ current)
    let toRemove := current.filter (· ∉ target)
    some (t, if toAdd = [] ∧ toRemove = [] then .returned else .setMembers groupId toRemove toAdd)
  | .go, t, .setMembers groupId toRemove toAdd =>
    if groupId ∉ t.groups ∧ toAdd ≠ [] then some (t, .failed)
    else some (t.setMembers groupId toRemove toAdd, reconcileMemberRoles (toAdd ++ toRemove))
  | .go, t, .deleteGroup groupId =>
    if groupId ∉ t.groups then some (t, .failed)
    else some (t.deleteGroup groupId, reconcileMemberRoles (t.memberIdsForGroup groupId))
  | .go, t, .nextLowestPriority groupId role => some (t, .createMapping groupId role t.nextLowestPriority)
  | .go, t, .createMapping groupId role priority =>
    if groupId ∉ t.groups ∨ (t.roleMapping groupId).isSome then some (t, .failed)
    else some (t.createMapping groupId role priority, .memberIdsForGroup groupId)
  | .go, t, .updateMapping id role priority =>
    match t.findMapping id with
    | some mapping => some (t.updateMapping id role priority, .memberIdsForGroup mapping.groupId)
    | none => some (t, .failed)
  | .go, t, .deleteMapping id groupId =>
    if (t.findMapping id).isSome then some (t.deleteMapping id, .memberIdsForGroup groupId) else some (t, .failed)
  | .go, t, .reorder orderedIds =>
    if orderedIds.all fun id => (t.findMapping id).isSome then some (t.reorder orderedIds, .allMappedMemberIds)
    else some (t, .failed)
  | .go, t, .setActive userId => some (t.setActive userId, reconcileMemberRoles [userId])
  | .go, t, .memberIdsForGroup groupId => some (t, reconcileMemberRoles (t.memberIdsForGroup groupId))
  | .go, t, .allMappedMemberIds => some (t, reconcileMemberRoles t.allMappedMemberIds)
  | .go, t, .resolve ids =>
    let desired := t.resolveRolesForUsers ids
    some (t, if desired = [] then .returned else .findMembers ids desired)
  | .go, t, .findMembers ids desired =>
    let changes := t.changes ids desired
    some (t, if changes = [] then .returned else .setRoles changes)
  | .go, t, .setRoles changes =>
    match changes with
    | (userId, want) :: rest => some (t.setRole userId want, if rest = [] then .returned else .setRoles rest)
    | [] => some (t, .returned)
  | _, _, _ => none

/-- The tables and the calls. -/
abbrev World := Calls.World Tables Point

/-- A call goes on. -/
abbrev step : World → ℕ × Choice → Option World := Calls.step exec

/-- Tables on which no call has started. -/
def initial (t : Tables) : World := ⟨t, fun _ => .idle⟩

/-- The constraints on the tables. -/
structure Tables.WellFormed (t : Tables) : Prop where
  memberships : (t.members.map (·.userId)).Nodup
  mappingIds : (t.mappings.map (·.id)).Nodup
  fresh : ∀ mapping ∈ t.mappings, mapping.id < t.minted

/-- A call has not started, or it is at its end. -/
def Point.Returned : Point → Prop
  | .idle | .returned | .failed => True
  | _ => False

/-- A member whose role is not the one that the mappings give. -/
def Tables.Differs (t : Tables) (member : OrganizationMember) : Prop :=
  member.status = .active ∧ member.role ≠ .owner ∧ ∃ role, t.winning member.userId = some role ∧ member.role ≠ role.role

/-- Every active member but the owner has the role that the mappings give, if they give one. -/
def Tables.Follows (t : Tables) : Prop := ∀ member ∈ t.members, ¬ t.Differs member

namespace World

/-- Once all calls have returned, the roles follow the mappings. -/
def Reconciled (w : World) : Prop := (∀ i, (w.calls i).Returned) → w.db.Follows

/-- A role that changes is of an active member who is no owner. -/
def OwnersKept (w w' : World) : Prop :=
  ∀ member' ∈ w'.db.members, ∃ member ∈ w.db.members, member.userId = member'.userId ∧
    (member'.role = member.role ∨ member.role ≠ .owner ∧ member.status = .active)

end World

/-- The role of a member. -/
def Tables.roleOf (t : Tables) (userId : ℕ) : Option Role := (t.findMember userId).map (·.role)

/-- A call will still give a user the role that the mappings give now. -/
def Point.Covers (t : Tables) (userId : ℕ) : Point → Prop
  | .memberIdsForGroup groupId => ⟨groupId, userId⟩ ∈ t.groupMembers
  | .allMappedMemberIds => t.winning userId ≠ none
  | .resolve ids => userId ∈ ids
  | .findMembers ids desired => userId ∈ ids ∧ desired.lookup userId = t.winning userId
  | .setRoles changes => ∃ want, (userId, want) ∈ changes ∧ t.winning userId = some want
  | _ => False

/-- A role that is written is the one that the mappings give at that time, if they give one, or another call will still
give it. -/
def UpToDate (w : World) (e : ℕ × Choice) : Prop :=
  ∀ userId want rest, w.calls e.1 = .setRoles ((userId, want) :: rest) →
    w.db.winning userId = none ∨ w.db.winning userId = some want ∨ ∃ j, j ≠ e.1 ∧ (w.calls j).Covers w.db userId

end Onecli.Directory.Mapping
