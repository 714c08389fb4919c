import Onecli.Scim.Directory
import Mathlib.Data.Finset.Basic

/-!
# Writes to SCIM groups

The `POST`, `PUT` and `PATCH` routes of `scim/groups.ts`.
-/

namespace Onecli.Scim

open Api (JsString)
open Utf16 (js)

variable (services : Services)

/-- `requireDisplayName`. -/
def requireDisplayName (body : Json JsString) : Except Thrown JsString :=
  match filled (scimAttr services.toLanguage body "displayName") with
  | some displayName => .ok displayName
  | none => .error (scimError 400 "displayName is required." (some .invalidValue))

/-- `externalIdFrom`. -/
def externalIdFrom (body : Json JsString) : Option JsString := filled (scimAttr services.toLanguage body "externalId")

/-- One entry of `memberIdsFrom`. -/
def memberIdFrom (entry : Json JsString) : Except Thrown JsString :=
  match if isRecord entry then filled (scimAttr services.toLanguage entry "value") else none with
  | some id => .ok id
  | none => .error (scimError 400 "members entries must be objects with a \"value\" user id." (some .invalidValue))

/-- `memberIdsFrom`. -/
def memberIdsFrom : Option (Json JsString) → Except Thrown (List JsString)
  | some (.arr entries) => entries.mapM (memberIdFrom services)
  | some entry => [entry].mapM (memberIdFrom services)
  | none => .error (scimError 400 "members entries must be objects with a \"value\" user id." (some .invalidValue))

/-- The ids of a `members` list, where anything but a list has none. -/
def listedMembers : Json JsString → Except Thrown (List JsString)
  | .arr entries => memberIdsFrom services (some (.arr entries))
  | _ => .ok []

/-- The `members` list of a `POST`, where it has entries. -/
def postedMembers (body : Json JsString) : Option (Json JsString) :=
  match scimAttr services.toLanguage body "members" with
  | some (.arr (entry :: entries)) => some (.arr (entry :: entries))
  | _ => none

/-- `groupsRouter.post`. -/
def postGroup (organizationId : JsString) (body : Option (Json JsString)) : ScimM Unit := do
  let body ← .ofExcept (readScimBody body)
  let displayName ← .ofExcept (requireDisplayName services body)
  let created ← scimCreateGroup services organizationId displayName (externalIdFrom services body)
  match postedMembers services body with
  | some members =>
    let ids ← .ofExcept (memberIdsFrom services (some members))
    scimSetGroupMembers services organizationId created ids
  | none => pure ()
  scimAudit organizationId
  let _ ← requireScimGroup organizationId created

/-- The attributes of a `PUT`, in the order in which they are applied. -/
def putGroupAttributes (organizationId : JsString) (group : ScimGroupRecord) (displayName : JsString)
    (body : Json JsString) : ScimM Unit := do
  if displayName ≠ group.name then scimRenameGroup organizationId group.id displayName
  if (scimAttr services.toLanguage body "externalId").isSome ∧ externalIdFrom services body ≠ group.externalId then
    scimSetGroupExternalId organizationId group.id (externalIdFrom services body)
  match scimAttr services.toLanguage body "members" with
  | none => return
  | some members =>
    let ids ← .ofExcept (listedMembers services members)
    scimSetGroupMembers services organizationId group.id ids

/-- `groupsRouter.put`. -/
def putGroup (organizationId groupId : JsString) (body : Option (Json JsString)) : ScimM Unit := do
  let group ← requireScimGroup organizationId groupId
  let body ← .ofExcept (readScimBody body)
  let displayName ← .ofExcept (requireDisplayName services body)
  putGroupAttributes services organizationId group displayName body
  scimAudit organizationId
  let _ ← requireScimGroup organizationId group.id

/-- The attributes of an operation without a path, in the order in which they are applied. -/
def patchGroupAttributes (organizationId groupId : JsString) (record : Json JsString) : ScimM Unit := do
  match filled (scimAttr services.toLanguage record "displayName") with
  | some displayName => scimRenameGroup organizationId groupId displayName
  | none => pure ()
  if (scimAttr services.toLanguage record "externalId").isSome then
    scimSetGroupExternalId organizationId groupId (externalIdFrom services record)
  match scimAttr services.toLanguage record "members" with
  | none => return
  | some members =>
    let ids ← .ofExcept (listedMembers services members)
    scimSetGroupMembers services organizationId groupId ids

/-- The operations on `members`. -/
def patchGroupMembers (organizationId groupId : JsString) (op : ScimPatchOp) (filter : Option (JsString × JsString)) :
    ScimM Unit := do
  match filter with
  | some (name, value) =>
    if name ≠ js "value" ∨ op.op ≠ .remove then
      throw (scimError 400 "members filters support remove by [value eq \"<user id>\"] only." (some .invalidPath))
    else scimRemoveGroupMember services organizationId groupId value
  | none =>
    if op.op ≠ .add ∧ op.value.isNone then scimSetGroupMembers services organizationId groupId []
    else
      let ids ← .ofExcept (memberIdsFrom services op.value)
      match op.op with
      | .add => ids.forM (scimAddGroupMember services organizationId groupId)
      | .replace => scimSetGroupMembers services organizationId groupId ids
      | .remove => ids.forM (scimRemoveGroupMember services organizationId groupId)

/-- `applyGroupPatchOp`. -/
def applyGroupPatchOp (organizationId groupId : JsString) (op : ScimPatchOp) : ScimM Unit := do
  match op.path with
  | none =>
    let record ← .ofExcept op.objectValue
    patchGroupAttributes services organizationId groupId record
  | some path =>
    if path.base = js "displayname" then
      match if op.op = .remove then none else filled op.value with
      | none => throw (scimError 400 "displayName must be replaced with a non-empty string." (some .invalidValue))
      | some displayName => scimRenameGroup organizationId groupId displayName
    else if path.base = js "externalid" then
      scimSetGroupExternalId organizationId groupId (if op.op = .remove then none else filled op.value)
    else if path.base = js "members" then
      patchGroupMembers services organizationId groupId op path.filter
    else pure ()

/-- `groupsRouter.patch`. -/
def patchGroup (organizationId groupId : JsString) (body : Option (Json JsString)) : ScimM Unit := do
  let group ← requireScimGroup organizationId groupId
  let body ← .ofExcept (readScimBody body)
  let operations ← .ofExcept (parsePatchBody services.toLanguage body)
  operations.forM (applyGroupPatchOp services organizationId group.id)
  scimAudit organizationId
  let _ ← requireScimGroup organizationId group.id

/-! ## What a group's writes amount to

The attributes that SCIM keeps of a group, next to what the services ask about the organization before they write one.
A write of a group route either is refused for what it asks or sets attributes of this group and of no other.
-/

open Api (JsString)
open List

/-- A group, and what the services ask about its organization. -/
structure GroupStanding where
  record : ScimGroupRecord
  nameTaken : JsString → Bool
  externalIdTaken : JsString → Bool
  isMember : JsString → Bool

/-- A write of a group route. -/
inductive GroupWrite where
  | refuse (thrown : Thrown)
  | rename (name : JsString)
  | externalId (externalId : Option JsString)
  | setMembers (userIds : List JsString)
  | addMember (userId : JsString)
  | removeMember (userId : JsString)

/-- The ids that are no members of the organization, each once. -/
def GroupStanding.unknown (p : GroupStanding) (userIds : List JsString) : List JsString :=
  userIds.eraseDups.filter fun id => !p.isMember id

/-- The account of the writes of the group routes. -/
def groupAccount : Account GroupStanding GroupWrite Thrown where
  verdict p
    | .refuse thrown => some thrown
    | .rename name =>
      if p.nameTaken name then some (.service .conflict (js "A group with this name already exists.")) else none
    | .externalId externalId =>
      if externalId.any p.externalIdTaken then
        some (.service .conflict (js "A group with this externalId already exists."))
      else none
    | .setMembers userIds =>
      if p.unknown userIds ≠ [] then
        some (.service .badRequest
          (js "Not members of this organization: " ++ (js ", ").intercalate (p.unknown userIds)))
      else none
    | .addMember userId =>
      if p.isMember userId = false then
        some (.service .badRequest (js "User is not a member of this organization"))
      else none
    | .removeMember _ => none
  give p
    | .refuse _ => p
    | .rename name => { p with record := { p.record with name := name } }
    | .externalId externalId => { p with record := { p.record with externalId := externalId } }
    | .setMembers userIds => { p with record := { p.record with members := userIds.toFinset } }
    | .addMember userId => { p with record := { p.record with members := insert userId p.record.members } }
    | .removeMember userId => { p with record := { p.record with members := p.record.members.erase userId } }

namespace Directory

/-- The record of a group. -/
def recordOf (d : Directory) (group : Group) : ScimGroupRecord :=
  ⟨group.id, group.name, group.externalId, (d.membersOf group.id).toFinset⟩

/-- What is asked about a group. -/
def groupStandingOf (d : Directory) (group : Group) : GroupStanding where
  record := d.recordOf group
  nameTaken := d.groupNameTaken group.organizationId group.id
  externalIdTaken := d.externalIdTaken group.organizationId group.id group.source
  isMember := fun userId => (d.findMembership group.organizationId userId).isSome

/-- A group that is found has the ids. -/
theorem findGroup_key {d : Directory} {organizationId groupId : JsString} {group : Group}
    (h : d.findGroup organizationId groupId = some group) :
    group.id = groupId ∧ group.organizationId = organizationId := by
  simpa using find?_some h

theorem findGroup_organization {d : Directory} {organizationId other groupId : JsString} {group group' : Group}
    (h : d.findGroup organizationId groupId = some group) (h' : d.findGroup other groupId = some group') :
    other = organizationId := by
  have hsame : group' = group := by
    refine inj_on_of_nodup_map d.groupIds (mem_of_find?_eq_some h') (mem_of_find?_eq_some h) ?_
    rw [(findGroup_key h).1, (findGroup_key h').1]
  rw [← (findGroup_key h').2, hsame]
  exact (findGroup_key h).2

/-- A change of one group's row and members, and of roles. -/
structure GroupChange (d : Directory) (groupId : JsString) (f : Group → Group) (d' : Directory) : Prop where
  groups : d'.groups = d.groups.map f
  id : ∀ group, (f group).id = group.id
  organization : ∀ group, (f group).organizationId = group.organizationId
  source : ∀ group, (f group).source = group.source
  other : ∀ group, group.id ≠ groupId → f group = group
  membersOf : ∀ other ≠ groupId, d'.membersOf other = d.membersOf other
  users : d'.users = d.users
  members : ∃ role : OrganizationMember → Onecli.Directory.Role, d'.members = d.members.map fun member => { member with role := role member }

namespace GroupChange

variable {d d' : Directory} {groupId : JsString} {f : Group → Group}

section

variable (h : GroupChange d groupId f d')
include h

theorem findMembership : ∃ role : OrganizationMember → Onecli.Directory.Role, ∀ organizationId userId,
    d'.findMembership organizationId userId =
      (d.findMembership organizationId userId).map fun member => { member with role := role member } := by
  obtain ⟨role, hrole⟩ := h.members
  refine ⟨role, fun organizationId userId => ?_⟩
  rw [Directory.findMembership, hrole, find?_map]
  rfl

theorem member (organizationId userId : JsString) : d'.member organizationId userId = d.member organizationId userId := by
  obtain ⟨role, hrole⟩ := h.findMembership
  unfold Directory.member Directory.findUser
  rw [hrole, h.users]
  cases d.findMembership organizationId userId with
  | none => rfl
  | some => rfl

theorem isMember (organizationId userId : JsString) : (d'.findMembership organizationId userId).isSome =
    (d.findMembership organizationId userId).isSome := by
  obtain ⟨role, hrole⟩ := h.findMembership
  rw [hrole, Option.isSome_map]

theorem findGroup (organizationId other : JsString) : d'.findGroup organizationId other =
    (d.findGroup organizationId other).map f := by
  rw [Directory.findGroup, h.groups, find?_map]
  refine congrArg (fun p => (d.groups.find? p).map f) ?_
  funext group
  rw [Function.comp_apply, h.id, h.organization]

theorem group {organizationId : JsString} {row : Group} (hrow : d.findGroup organizationId groupId = some row)
    {org other : JsString} (hother : ¬(org = organizationId ∧ other = groupId)) : d'.group
    org other = d.group org other := by
  rw [Directory.group, Directory.group, h.findGroup, Option.map_map]
  cases hfound : d.findGroup org other with
  | none => rfl
  | some found =>
    have hne : other ≠ groupId := by
      rintro rfl
      exact hother ⟨findGroup_organization hrow hfound, rfl⟩
    have hid : found.id ≠ groupId := (findGroup_key hfound).1.trans_ne hne
    rw [Option.map_some, Option.map_some, Function.comp_apply, h.other found hid, h.membersOf found.id hid]

theorem groupStandingOf {row : Group} (hid : row.id = groupId) : d'.groupStandingOf (f row) =
      { d.groupStandingOf row with
        record := ⟨row.id, (f row).name, (f row).externalId, (d'.membersOf row.id).toFinset⟩ } := by
  have hname : d'.groupNameTaken row.organizationId row.id = d.groupNameTaken row.organizationId row.id := by
    funext name
    rw [Directory.groupNameTaken, h.groups, any_map]
    refine congrArg (fun p => d.groups.any p) ?_
    funext group
    by_cases hgroup : group.id = row.id
    · simp [h.id, hgroup]
    · simp [h.other group fun heq => hgroup (heq.trans hid.symm)]
  have hext : d'.externalIdTaken row.organizationId row.id row.source =
      d.externalIdTaken row.organizationId row.id row.source := by
    funext externalId
    rw [Directory.externalIdTaken, h.groups, any_map]
    refine congrArg (fun p => d.groups.any p) ?_
    funext group
    by_cases hgroup : group.id = row.id
    · simp [h.id, hgroup]
    · simp [h.other group fun heq => hgroup (heq.trans hid.symm)]
  unfold Directory.groupStandingOf Directory.recordOf
  rw [h.id, h.organization, h.source, hname, hext]
  simp only [h.isMember]

end

end GroupChange

end Directory

/-- A group stands somewhere, and every other group and everybody is as in a first directory. -/
structure GroupStands (first : Directory) (organizationId groupId : JsString) (d : Directory) (p : GroupStanding) :
    Prop where
  standing : ∃ group, d.findGroup organizationId groupId = some group ∧ p = d.groupStandingOf group
  groups : ∀ organization other, ¬(organization = organizationId ∧ other = groupId) →
    d.group organization other = first.group organization other
  members : ∀ organization userId, d.member organization userId = first.member organization userId

namespace GroupStands

variable {first d : Directory} {organizationId groupId : JsString} {p : GroupStanding}

/-- A standing group is its row. -/
theorem group (h : GroupStands first organizationId groupId d p) : d.group organizationId groupId = some p.record := by
  obtain ⟨row, hrow, rfl⟩ := h.standing
  rw [Directory.group, hrow]
  rfl

/-- A change of a standing group. -/
theorem change (h : GroupStands first organizationId groupId d p) {d' : Directory} {f : Group → Group}
    (hchange : d.GroupChange groupId f d') :
    ∃ row, d.findGroup organizationId groupId = some row ∧ p = d.groupStandingOf row ∧
      GroupStands first organizationId groupId d' { p with
        record := ⟨row.id, (f row).name, (f row).externalId, (d'.membersOf row.id).toFinset⟩ } := by
  obtain ⟨row, hrow, rfl⟩ := h.standing
  have hid := (Directory.findGroup_key hrow).1
  refine ⟨row, hrow, rfl, ?_, ?_, ?_⟩
  · exact ⟨f row, by rw [hchange.findGroup, hrow]; rfl, (hchange.groupStandingOf hid).symm⟩
  · intro org other hother
    exact (hchange.group hrow hother).trans (h.groups org other hother)
  · intro org userId
    exact (hchange.member org userId).trans (h.members org userId)

end GroupStands

end Onecli.Scim
