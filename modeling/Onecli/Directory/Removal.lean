import Onecli.Directory.Provision

/-!
# Removing a member

`removeMember` of `team-service.ts` beside the writers of one organization that run while it does:
`replaceWorkspaceAccess` of `workspace-access-service.ts`, the group writes of `group-service.ts` and
`provisionMember`. Every statement or transaction is atomic; between two of a call any others are executed. Groups and
users stay; keys and workspaces are not created here.

A write that a plan, a quota or the management source of a group refuses ends by choice, and the role mapping after a
group write is not looked at. Who was removed and not provisioned since, and what a workspace was bound to when it was
deleted, is kept beside the tables; no statement reads it.
-/

namespace Onecli.Directory.Removal

/-- The role of a binding. -/
inductive AccessRole where
  | owner
  | member
  deriving DecidableEq

/-- A row of `workspaces` of the organization. -/
structure Workspace where
  id : ℕ
  createdByUserId : ℕ

/-- A row of `workspace_access`. -/
structure WorkspaceAccess where
  workspaceId : ℕ
  userId : Option ℕ
  groupId : Option ℕ
  role : AccessRole

/-- A row of `group_members`. -/
structure GroupMember where
  groupId : ℕ
  userId : ℕ
  deriving DecidableEq

/-- The scope of a key: a workspace of the organization, or the organization. -/
inductive KeyScope where
  | workspace (id : ℕ)
  | organization
  deriving DecidableEq

/-- A row of `api_keys` with a scope in the organization. -/
structure ApiKey where
  userId : ℕ
  scope : KeyScope

/-- A workspace that was deleted for a user, and its bindings then. -/
structure Deletion where
  userId : ℕ
  workspaceId : ℕ
  bindings : List WorkspaceAccess

/-- The rows of the organization; and who was removed and not provisioned since, and the workspaces deleted. -/
structure Tables where
  members : List OrganizationMember
  groups : List ℕ
  groupMembers : List GroupMember
  workspaces : List Workspace
  access : List WorkspaceAccess
  apiKeys : List ApiKey
  gone : List ℕ
  deletions : List Deletion

/-- What a share replaces: the users with their roles and the groups to keep. -/
structure ShareInput where
  workspaceId : ℕ
  users : List (ℕ × AccessRole)
  groupIds : List ℕ

/-- The changes of a share. -/
structure ShareDiff where
  workspaceId : ℕ
  addUsers : List (ℕ × AccessRole)
  removeUsers : List ℕ
  toOwner : List ℕ
  toMember : List ℕ
  addGroups : List ℕ
  removeGroups : List ℕ

/-- Where a call stands: at the statement that is next, or at its end. -/
inductive Point where
  | idle
  | findMembership (userId : ℕ)
  | findDeletable (userId : ℕ)
  | deleteWorkspaces (userId : ℕ) (ids : List ℕ)
  | revokeKeys (userId : ℕ)
  | deleteAccess (userId : ℕ)
  | deleteGroupMembers (userId : ℕ)
  | deleteMembership (userId : ℕ)
  | findWorkspace (input : ShareInput)
  | findBindings (input : ShareInput)
  | findActiveMembers (diff : ShareDiff)
  | findGroups (diff : ShareDiff)
  | writeShares (diff : ShareDiff)
  | findGroup (groupId userId : ℕ)
  | requireOrgMember (groupId userId : ℕ)
  | createGroupMember (groupId userId : ℕ)
  | findGroupToLeave (groupId userId : ℕ)
  | deleteGroupMember (groupId userId : ℕ)
  | findGroupToSet (groupId : ℕ) (userIds : List ℕ)
  | findValid (groupId : ℕ) (target : List ℕ)
  | findCurrent (groupId : ℕ) (target : List ℕ)
  | writeGroupMembers (groupId : ℕ) (toAdd toRemove : List ℕ)
  | findProvisioned (member : OrganizationMember)
  | createMembership (member : OrganizationMember)
  | done
  | failed

/-- What a step chooses: a call starts, goes on or is refused. -/
inductive Choice where
  | remove (userId : ℕ)
  | share (input : ShareInput)
  | addGroupMember (groupId userId : ℕ)
  | removeGroupMember (groupId userId : ℕ)
  | setGroupMembers (groupId : ℕ) (userIds : List ℕ)
  | provision (member : OrganizationMember)
  | go
  | refuses

namespace Tables

/-- `db.organizationMember.findUnique` by the user. -/
def findMember (t : Tables) (userId : ℕ) : Option OrganizationMember :=
  t.members.find? fun member => member.userId = userId

/-- A user is a member. -/
def isMember (t : Tables) (userId : ℕ) : Bool := (t.findMember userId).isSome

/-- A user is an active member. -/
def isActive (t : Tables) (userId : ℕ) : Bool :=
  t.members.any fun member => member.userId = userId && member.status = .active

/-- A workspace is there. -/
def hasWorkspace (t : Tables) (id : ℕ) : Bool := t.workspaces.any fun workspace => workspace.id = id

/-- The bindings of a workspace. -/
def bindingsOf (t : Tables) (workspaceId : ℕ) : List WorkspaceAccess :=
  t.access.filter fun binding => binding.workspaceId = workspaceId

end Tables

/-- A binding of another user or of a group. -/
def WorkspaceAccess.others (binding : WorkspaceAccess) (userId : ℕ) : Bool :=
  binding.userId.any (· ≠ userId) || binding.groupId.isSome

namespace Tables

/-- `findDeletablePersonalWorkspaces`. -/
def findDeletablePersonalWorkspaces (t : Tables) (userId : ℕ) : List ℕ :=
  (t.workspaces.filter fun workspace => workspace.createdByUserId = userId &&
    ((t.bindingsOf workspace.id).any (fun binding => binding.userId = some userId) &&
      !(t.bindingsOf workspace.id).any fun binding => binding.others userId)).map (·.id)

/-- `deleteWorkspace`. -/
def deleteWorkspace (t : Tables) (userId id : ℕ) : Tables :=
  { t with
    workspaces := t.workspaces.filter fun workspace => workspace.id ≠ id
    access := t.access.filter fun binding => binding.workspaceId ≠ id
    apiKeys := t.apiKeys.filter fun key => key.scope ≠ .workspace id
    deletions := ⟨userId, id, t.bindingsOf id⟩ :: t.deletions }

/-- `revokeKeysForLostAccess` with the scope `all`. -/
def revokeKeys (t : Tables) (userId : ℕ) : Tables :=
  { t with apiKeys := t.apiKeys.filter fun key => key.userId ≠ userId }

/-- The shares of a user are deleted. -/
def deleteAccess (t : Tables) (userId : ℕ) : Tables :=
  { t with access := t.access.filter fun binding => binding.userId ≠ some userId }

/-- The group memberships of a user are deleted. -/
def deleteGroupMembers (t : Tables) (userId : ℕ) : Tables :=
  { t with groupMembers := t.groupMembers.filter fun row => row.userId ≠ userId }

/-- The membership of a user is deleted. -/
def deleteMembership (t : Tables) (userId : ℕ) : Tables :=
  { t with members := t.members.filter fun member => member.userId ≠ userId, gone := userId :: t.gone }

/-- A membership is created. -/
def createMembership (t : Tables) (member : OrganizationMember) : Tables :=
  { t with members := t.members ++ [member], gone := t.gone.filter fun userId => userId ≠ member.userId }

/-- The transaction of a group write: rows are deleted, and rows created that are not there. -/
def writeGroupMembers (t : Tables) (groupId : ℕ) (toAdd toRemove : List ℕ) : Tables :=
  let kept := t.groupMembers.filter fun row => ¬ (row.groupId = groupId ∧ row.userId ∈ toRemove)
  { t with groupMembers := kept ++ (toAdd.map (GroupMember.mk groupId)).filter fun row => row ∉ kept }

/-- The role of a binding after a share. -/
def reRole (diff : ShareDiff) (binding : WorkspaceAccess) : WorkspaceAccess :=
  if binding.workspaceId = diff.workspaceId then
    if binding.userId.any (· ∈ diff.toOwner) then { binding with role := .owner }
    else if binding.userId.any (· ∈ diff.toMember) then { binding with role := .member }
    else binding
  else binding

/-- The bindings that a share creates. -/
def created (diff : ShareDiff) : List WorkspaceAccess :=
  diff.addUsers.map (fun user => ⟨diff.workspaceId, some user.1, none, user.2⟩) ++
    diff.addGroups.map fun groupId => ⟨diff.workspaceId, none, some groupId, .member⟩

/-- The transaction of a share: bindings are deleted, given their roles, and created where they are not there. -/
def writeShares (t : Tables) (diff : ShareDiff) : Tables :=
  let kept := (t.access.filter fun binding => ¬ (binding.workspaceId = diff.workspaceId ∧
    (binding.userId.any (· ∈ diff.removeUsers) ∨ binding.groupId.any (· ∈ diff.removeGroups)))).map (reRole diff)
  { t with access := kept ++ (created diff).filter fun binding => !kept.any fun other =>
      other.workspaceId = binding.workspaceId && (other.userId = binding.userId && other.groupId = binding.groupId) }

end Tables

/-- The role of a user, the last one given, at the place of the first. -/
def setRole (roles : List (ℕ × AccessRole)) (user : ℕ × AccessRole) : List (ℕ × AccessRole) :=
  if roles.any (fun other => other.1 = user.1) then roles.map fun other => if other.1 = user.1 then user else other
  else roles ++ [user]

/-- What `replaceWorkspaceAccess` changes, from the bindings that it read. -/
def shareDiff (input : ShareInput) (current : List WorkspaceAccess) : ShareDiff :=
  let targetUserRoles := input.users.foldl setRole []
  let targetGroups := input.groupIds.dedup
  let currentUsers := current.filterMap fun binding => binding.userId.map fun userId => (userId, binding.role)
  let currentGroups := current.filterMap (·.groupId)
  { workspaceId := input.workspaceId
    addUsers := targetUserRoles.filter fun user => user.1 ∉ currentUsers.map Prod.fst
    removeUsers := (currentUsers.map Prod.fst).filter fun userId => userId ∉ targetUserRoles.map Prod.fst
    toOwner := (targetUserRoles.filter fun user => user.2 = .owner && (user.1, .member) ∈ currentUsers).map Prod.fst
    toMember := (targetUserRoles.filter fun user => user.2 = .member && (user.1, .owner) ∈ currentUsers).map Prod.fst
    addGroups := targetGroups.filter fun groupId => groupId ∉ currentGroups
    removeGroups := currentGroups.filter fun groupId => groupId ∉ targetGroups }

/-- A share changes nothing. -/
def ShareDiff.isEmpty (diff : ShareDiff) : Bool :=
  diff.addUsers.isEmpty && diff.removeUsers.isEmpty && diff.toOwner.isEmpty && diff.toMember.isEmpty &&
    diff.addGroups.isEmpty && diff.removeGroups.isEmpty

/-- `replaceWorkspaceAccess` after the users that it adds were found. -/
def afterUsers (diff : ShareDiff) : Point := if diff.addGroups = [] then .writeShares diff else .findGroups diff

/-- `removeMember` between two workspaces. -/
def nextWorkspace (userId : ℕ) (ids : List ℕ) : Point :=
  if ids = [] then .revokeKeys userId else .deleteWorkspaces userId ids

/-- A statement of a call. -/
def exec : Calls.Exec Tables Point Choice
  | .remove userId, t, .idle => some (t, .findMembership userId)
  | .go, t, .findMembership userId =>
    match t.findMember userId with
    | none => some (t, .failed)
    | some member => some (t, if member.role = .owner then .failed else .findDeletable userId)
  | .go, t, .findDeletable userId => some (t, nextWorkspace userId (t.findDeletablePersonalWorkspaces userId))
  | .go, t, .deleteWorkspaces userId (id :: ids) =>
    if t.hasWorkspace id then some (t.deleteWorkspace userId id, nextWorkspace userId ids) else some (t, .failed)
  | .go, t, .revokeKeys userId => some (t.revokeKeys userId, .deleteAccess userId)
  | .go, t, .deleteAccess userId => some (t.deleteAccess userId, .deleteGroupMembers userId)
  | .go, t, .deleteGroupMembers userId => some (t.deleteGroupMembers userId, .deleteMembership userId)
  | .go, t, .deleteMembership userId =>
    if t.isMember userId then some (t.deleteMembership userId, .done) else some (t, .failed)
  | .share input, t, .idle => some (t, .findWorkspace input)
  | .go, t, .findWorkspace input => some (t, if t.hasWorkspace input.workspaceId then .findBindings input else .failed)
  | .go, t, .findBindings input =>
    let diff := shareDiff input (t.bindingsOf input.workspaceId)
    some (t, if diff.isEmpty then .done else if diff.addUsers = [] then afterUsers diff else .findActiveMembers diff)
  | .go, t, .findActiveMembers diff =>
    some (t, if diff.addUsers.all fun user => t.isActive user.1 then afterUsers diff else .failed)
  | .go, t, .findGroups diff =>
    some (t, if diff.addGroups.all fun groupId => groupId ∈ t.groups then .writeShares diff else .failed)
  | .refuses, t, .writeShares _ => some (t, .failed)
  | .go, t, .writeShares diff =>
    if t.hasWorkspace diff.workspaceId || (diff.addUsers.isEmpty && diff.addGroups.isEmpty) then
      some (t.writeShares diff, .done)
    else some (t, .failed)
  | .addGroupMember groupId userId, t, .idle => some (t, .findGroup groupId userId)
  | .refuses, t, .findGroup _ _ => some (t, .failed)
  | .go, t, .findGroup groupId userId =>
    some (t, if groupId ∈ t.groups then .requireOrgMember groupId userId else .failed)
  | .go, t, .requireOrgMember groupId userId =>
    some (t, if t.isMember userId then .createGroupMember groupId userId else .failed)
  | .go, t, .createGroupMember groupId userId => some (t.writeGroupMembers groupId [userId] [], .done)
  | .removeGroupMember groupId userId, t, .idle => some (t, .findGroupToLeave groupId userId)
  | .refuses, t, .findGroupToLeave _ _ => some (t, .failed)
  | .go, t, .findGroupToLeave groupId userId =>
    some (t, if groupId ∈ t.groups then .deleteGroupMember groupId userId else .failed)
  | .go, t, .deleteGroupMember groupId userId => some (t.writeGroupMembers groupId [] [userId], .done)
  | .setGroupMembers groupId userIds, t, .idle => some (t, .findGroupToSet groupId userIds)
  | .refuses, t, .findGroupToSet _ _ => some (t, .failed)
  | .go, t, .findGroupToSet groupId userIds =>
    some (t, if groupId ∈ t.groups then .findValid groupId userIds.dedup else .failed)
  | .go, t, .findValid groupId target => some (t, if target.all t.isMember then .findCurrent groupId target else .failed)
  | .go, t, .findCurrent groupId target =>
    let current := (t.groupMembers.filter fun row => row.groupId = groupId).map (·.userId)
    let toAdd := target.filter fun userId => userId ∉ current
    let toRemove := current.filter fun userId => userId ∉ target
    some (t, if toAdd = [] ∧ toRemove = [] then .done else .writeGroupMembers groupId toAdd toRemove)
  | .go, t, .writeGroupMembers groupId toAdd toRemove => some (t.writeGroupMembers groupId toAdd toRemove, .done)
  | .provision member, t, .idle => some (t, .findProvisioned member)
  | .go, t, .findProvisioned member => some (t, if t.isMember member.userId then .done else .createMembership member)
  | .refuses, t, .createMembership _ => some (t, .failed)
  | .go, t, .createMembership member =>
    if t.isMember member.userId then some (t, .done) else some (t.createMembership member, .done)
  | _, _, _ => none

/-- The organization and the calls on it. -/
abbrev World := Calls.World Tables Point

/-- A call goes on. -/
abbrev step : World → ℕ × Choice → Option World := Calls.step exec

/-- An organization on which no call has started. -/
def initial (t : Tables) : World := ⟨{ t with gone := [], deletions := [] }, fun _ => .idle⟩

namespace Tables

/-- A user has no group membership and no workspace access. -/
def unshared (t : Tables) (userId : ℕ) : Bool :=
  !t.groupMembers.any (fun row => row.userId = userId) && !t.access.any fun binding => binding.userId = some userId

/-- Who was removed and not provisioned since has no membership, no group membership, no workspace access and no key. -/
def NothingLeft (t : Tables) : Prop :=
  ∀ userId ∈ t.gone, t.isMember userId = false ∧ t.unshared userId = true ∧ ∀ key ∈ t.apiKeys, key.userId ≠ userId

/-- No workspace was deleted that another user or a group was bound to. -/
def NothingShared (t : Tables) : Prop :=
  ∀ deletion ∈ t.deletions, ∀ binding ∈ deletion.bindings, binding.others deletion.userId = false

end Tables

/-- A removal that has deleted the group memberships of a user, and not yet the membership. -/
def Point.barsMember (userId : ℕ) : Point → Bool
  | .deleteMembership removed => removed = userId
  | _ => false

/-- A removal that has deleted the shares of the user of a binding and not yet the membership, or has listed the
workspace and not yet deleted it, where the binding is not its user's. -/
def Point.barsBinding (binding : WorkspaceAccess) : Point → Bool
  | .deleteGroupMembers removed | .deleteMembership removed => binding.userId = some removed
  | .deleteWorkspaces removed ids => binding.workspaceId ∈ ids && binding.others removed
  | _ => false

/-- A row is written for a member, and while no removal is past the read or the delete that is to find the row. -/
def Undisturbed (free : (Point → Bool) → Prop) (c : Choice) (t : Tables) (p : Point) : Prop :=
  match c, p with
  | .go, .createGroupMember _ userId => t.isMember userId = true ∧ free (Point.barsMember userId)
  | .go, .writeGroupMembers _ toAdd _ => ∀ userId ∈ toAdd, t.isMember userId = true ∧ free (Point.barsMember userId)
  | .go, .writeShares diff => t.hasWorkspace diff.workspaceId = true → ∀ binding ∈ Tables.created diff,
      (∀ userId ∈ binding.userId, t.isMember userId = true) ∧ free (Point.barsBinding binding)
  | _, _ => True

instance (free : (Point → Bool) → Prop) [DecidablePred free] (c : Choice) (t : Tables) (p : Point) :
    Decidable (Undisturbed free c t p) := by
  unfold Undisturbed
  split
  all_goals infer_instance

end Onecli.Directory.Removal
