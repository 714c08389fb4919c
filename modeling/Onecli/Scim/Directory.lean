import Onecli.Foundation.Attempt
import Onecli.Directory.Provision
import Mathlib.Data.Finset.Dedup

/-!
# SCIM requests

`errors.ts`, `readScimBody` and `patch.ts` of the SCIM dialect. The Unicode `toLowerCase` and the text that `String`
makes of a value are parameters. An object lists its members in the order of `Object.entries`; an array has its indices
for keys.
-/

namespace Onecli.Scim

open Api (JsString unit trim isTrimmed asciiLower)
open Utf16 (js)

/-- `ScimType`. -/
inductive ScimType where
  | uniqueness
  | invalidFilter
  | invalidValue
  | invalidSyntax
  | invalidPath
  | mutability
  | noTarget
  deriving DecidableEq

/-- `ScimError`. -/
structure ScimError where
  status : ℕ
  detail : JsString
  scimType : Option ScimType
  deriving DecidableEq

/-- `ServiceErrorCode`. -/
inductive ServiceErrorCode where
  | conflict
  | notFound
  | badRequest
  | unprocessable
  | forbidden
  | gone
  | rateLimited
  deriving DecidableEq

/-- What a request throws: its own error, a service's, or any other. -/
inductive Thrown where
  | scim (error : ScimError)
  | service (code : ServiceErrorCode) (message : JsString)
  | other
  deriving DecidableEq

/-- `SERVICE_ERROR_MAP`. -/
def SERVICE_ERROR_MAP : ServiceErrorCode → ℕ × Option ScimType
  | .conflict => (409, some .uniqueness)
  | .notFound => (404, none)
  | .badRequest => (400, some .invalidValue)
  | .unprocessable => (400, some .invalidValue)
  | .forbidden => (403, none)
  | .gone => (400, some .invalidValue)
  | .rateLimited => (400, some .invalidValue)

/-- `toScimError`. -/
def toScimError : Thrown → Option ScimError
  | .scim error => some error
  | .service code message => some ⟨(SERVICE_ERROR_MAP code).1, message, (SERVICE_ERROR_MAP code).2⟩
  | .other => none

/-- The error that `onError` answers with. -/
def Thrown.answer (thrown : Thrown) : ScimError :=
  (toScimError thrown).getD ⟨500, js "An unexpected error occurred.", none⟩

/-- A `ScimError` as it is thrown. -/
def scimError (status : ℕ) (detail : String) (scimType : Option ScimType) : Thrown :=
  .scim ⟨status, js detail, scimType⟩

/-- `Object.entries` of a value. -/
def entries : Json JsString → List (JsString × Json JsString)
  | .obj members => members
  | .arr items => items.mapIdx fun i item => (js (toString i), item)
  | _ => []

/-- `typeof value === "object" && value !== null`. -/
def isRecord : Json JsString → Bool
  | .obj _ => true
  | .arr _ => true
  | _ => false

/-- A string that is not blank, trimmed. -/
def filled : Option (Json JsString) → Option JsString
  | some (.str s) => if trim s = [] then none else some (trim s)
  | _ => none

/-- `readScimBody`, of a body that may not parse. -/
def readScimBody : Option (Json JsString) → Except Thrown (Json JsString)
  | none => .error (scimError 400 "Request body must be valid JSON." (some .invalidSyntax))
  | some (.obj members) => .ok (.obj members)
  | some _ => .error (scimError 400 "Request body must be an object." (some .invalidSyntax))

/-- The kind of a patch operation. -/
inductive PatchKind where
  | add
  | remove
  | replace
  deriving DecidableEq

/-- `ScimPatchPath`. -/
structure ScimPatchPath where
  base : JsString
  filter : Option (JsString × JsString)
  subAttribute : Option JsString

/-- `ScimPatchOp`. -/
structure ScimPatchOp where
  op : PatchKind
  path : Option ScimPatchPath
  value : Option (Json JsString)

/-- The object value that an operation without a path must carry. -/
def ScimPatchOp.objectValue (op : ScimPatchOp) : Except Thrown (Json JsString) :=
  if op.op = .remove then .error (scimError 400 "remove requires a path." (some .noTarget))
  else
    match op.value.filter isRecord with
    | some value => .ok value
    | none => .error (scimError 400 "Operations without a path must carry an object value." (some .invalidValue))

/-- `[a-zA-Z]`. -/
def isLetter (u : UInt16) : Bool := (unit 'a' ≤ u && u ≤ unit 'z') || (unit 'A' ≤ u && u ≤ unit 'Z')

/-- `[a-zA-Z0-9._-]`. -/
def isAttributeUnit (u : UInt16) : Bool :=
  isLetter u || (unit '0' ≤ u && u ≤ unit '9') || u == unit '.' || u == unit '_' || u == unit '-'

/-- An attribute name at the beginning of a text, and what follows. -/
def attributeName : JsString → Option (JsString × JsString)
  | [] => none
  | u :: rest =>
    if isLetter u then some (u :: rest.takeWhile isAttributeUnit, rest.dropWhile isAttributeUnit) else none

/-- A unit that `.` does not match. -/
def isLineTerminator (u : UInt16) : Bool := u == 0xA || u == 0xD || u == 0x2028 || u == 0x2029

/-- What stands in front of the closing quote, and what follows it. -/
def quoted : JsString → Option (JsString × JsString)
  | [] => none
  | u :: rest =>
    if u = unit '"' then some ([], rest)
    else if u = unit '\\' then
      match rest with
      | [] => none
      | v :: rest => if isLineTerminator v then none else (quoted rest).map fun r => (u :: v :: r.1, r.2)
    else (quoted rest).map fun r => (u :: r.1, r.2)

/-- `filterValue.replace(/\\(.)/g, "$1")`. -/
def unescape : JsString → JsString
  | [] => []
  | u :: rest =>
    if u = unit '\\' then
      match rest with
      | [] => [u]
      | v :: rest => if isLineTerminator v then u :: v :: unescape rest else v :: unescape rest
    else u :: unescape rest

/-- The text without a character at its beginning. -/
def expect (c : Char) : JsString → Option JsString
  | u :: rest => if u = unit c then some rest else none
  | [] => none

/-- The text without white space at its beginning, of which there is some. -/
def expectSpace (s : JsString) : Option JsString :=
  if s.head?.any isTrimmed then some (s.dropWhile isTrimmed) else none

/-- The filter of a path after its bracket: `attr eq "value"]`. -/
def pathFilter (s : JsString) : Option ((JsString × JsString) × JsString) := do
  let (name, s) ← attributeName (s.dropWhile isTrimmed)
  let s ← expectSpace s
  let s ← if asciiLower (s.take 2) = js "eq" then some (s.drop 2) else none
  let s ← expectSpace s
  let s ← expect '"' s
  let (value, s) ← quoted s
  let s ← expect ']' (s.dropWhile isTrimmed)
  return ((asciiLower name, unescape value), s)

/-- `PATH_PATTERN.exec` of a path. -/
def matchPath (path : JsString) : Option ScimPatchPath := do
  let (base, s) ← attributeName (path.dropWhile isTrimmed)
  let s := s.dropWhile isTrimmed
  let (filter, s) ← match expect '[' s with
    | none => some (none, s)
    | some s => (pathFilter s).map fun r => (some r.1, r.2)
  let s := s.dropWhile isTrimmed
  let (subAttribute, s) ← match expect '.' s with
    | none => some (none, s)
    | some s => (attributeName s).map fun r => (some (asciiLower r.1), r.2)
  if s.dropWhile isTrimmed = [] then some ⟨asciiLower base, filter, subAttribute⟩ else none

/-- `parseScimPath`. -/
def parseScimPath (path : JsString) : Except Thrown ScimPatchPath :=
  match matchPath path with
  | some parsed => .ok parsed
  | none => .error (.scim ⟨400, js "Unsupported patch path \"" ++ path ++ js "\".", some .invalidPath⟩)

/-- `SCIM_PATCH_SCHEMA`. -/
def SCIM_PATCH_SCHEMA : JsString := js "urn:ietf:params:scim:api:messages:2.0:PatchOp"

/-- The functions of the language that stay parameters. -/
structure Language where
  toLowerCase : JsString → JsString
  string : Option (Json JsString) → JsString

variable (language : Language)

/-- `scimAttr`. -/
def scimAttr (obj : Json JsString) (key : String) : Option (Json JsString) :=
  ((entries obj).find? fun entry => language.toLowerCase entry.1 = language.toLowerCase (js key)).map (·.2)

/-- `coerceScimBoolean`. -/
def coerceScimBoolean : Option (Json JsString) → Option Bool
  | some (.bool b) => some b
  | some (.str s) =>
    if language.toLowerCase s = js "true" then some true
    else if language.toLowerCase s = js "false" then some false
    else none
  | _ => none

/-- The kind that an `op` names. -/
def patchKind (raw : Option (Json JsString)) : Option PatchKind :=
  match raw with
  | some (.str s) =>
    if language.toLowerCase s = js "add" then some .add
    else if language.toLowerCase s = js "remove" then some .remove
    else if language.toLowerCase s = js "replace" then some .replace
    else none
  | _ => none

/-- One operation of a patch body. -/
def parsePatchOp (raw : Json JsString) : Except Thrown ScimPatchOp :=
  if isRecord raw then
    match patchKind language (scimAttr language raw "op") with
    | none =>
      .error (.scim ⟨400, js "Unsupported patch op \"" ++ language.string (scimAttr language raw "op") ++ js "\".",
        some .invalidSyntax⟩)
    | some op =>
      match scimAttr language raw "path" with
      | none => .ok ⟨op, none, scimAttr language raw "value"⟩
      | some (.str path) => (parseScimPath path).map fun path => ⟨op, some path, scimAttr language raw "value"⟩
      | some _ => .error (scimError 400 "Patch path must be a string." (some .invalidPath))
  else .error (scimError 400 "Each operation must be an object." (some .invalidSyntax))

/-- `parsePatchBody`. -/
def parsePatchBody (body : Json JsString) : Except Thrown (List ScimPatchOp) :=
  match body.asObject, (scimAttr language body "schemas").bind Json.asArray,
      (scimAttr language body "operations").bind Json.asArray with
  | none, _, _ => .error (scimError 400 "Request body must be a PatchOp." (some .invalidSyntax))
  | some _, schemas, operations =>
    if SCIM_PATCH_SCHEMA ∈ (schemas.getD []).filterMap Json.asStr then
      match operations.getD [] with
      | [] => .error (scimError 400 "PatchOp requests must carry at least one operation." (some .invalidSyntax))
      | operation :: operations => (operation :: operations).mapM (parsePatchOp language)
    else
      .error (.scim ⟨400, js "PatchOp requests must declare the " ++ SCIM_PATCH_SCHEMA ++ js " schema.",
        some .invalidSyntax⟩)

/-! ## The organization directory under SCIM

`org-directory-service.ts`, the cores of `group-service.ts` and the suspension of `team-service.ts` that the SCIM routes
call, over the tables that they read and write. A call of a service checks before it writes, and its one write is a
statement or a transaction. The plan's limits, the fresh ids, the roles that the group mappings resolve and the form in
which the column keeps a JSON value are parameters. Signing a person out is best effort and writes none of the tables.
-/

open Api (JsString unit trim)
open Onecli.Directory (Role MemberStatus)

/-- A row of `users`. -/
structure User where
  id : JsString
  email : JsString
  name : Option JsString
  nameComponents : Json JsString

/-- A row of `organization_members`. -/
structure OrganizationMember where
  organizationId : JsString
  userId : JsString
  userEmail : JsString
  role : Role
  status : MemberStatus

/-- What manages a group. -/
inductive GroupSource where
  | manual
  | scim
  deriving DecidableEq

/-- A row of `groups`. -/
structure Group where
  id : JsString
  organizationId : JsString
  name : JsString
  source : GroupSource
  externalId : Option JsString

/-- A row of `group_members`. -/
structure GroupMember where
  groupId : JsString
  userId : JsString

/-- The tables, with the primary key of the groups. -/
structure Directory where
  users : List User
  members : List OrganizationMember
  groups : List Group
  groupMembers : List GroupMember
  pendingInvites : JsString → ℕ
  groupIds : (groups.map (·.id)).Nodup

/-- A program of the SCIM routes. -/
abbrev ScimM := Attempt Directory Thrown

/-- `DirectoryMember`, what the routes read of it. -/
structure DirectoryMember where
  userId : JsString
  email : JsString
  name : Option JsString
  status : MemberStatus
  nameComponents : Json JsString

/-- `ScimGroupRecord`, what the routes read of it. -/
@[ext]
structure ScimGroupRecord where
  id : JsString
  name : JsString
  externalId : Option JsString
  members : Finset JsString

namespace Directory

/-- `db.user.findUnique` by the id. -/
def findUser (d : Directory) (userId : JsString) : Option User := d.users.find? fun user => user.id = userId

/-- `db.user.findUnique` by the email. -/
def findUserByEmail (d : Directory) (email : JsString) : Option User := d.users.find? fun user => user.email = email

/-- `db.organizationMember.findUnique`. -/
def findMembership (d : Directory) (organizationId userId : JsString) : Option OrganizationMember :=
  d.members.find? fun member => member.organizationId = organizationId ∧ member.userId = userId

/-- `db.group.findFirst` by the id in the organization. -/
def findGroup (d : Directory) (organizationId groupId : JsString) : Option Group :=
  d.groups.find? fun group => group.id = groupId ∧ group.organizationId = organizationId

/-- The users in a group. -/
def membersOf (d : Directory) (groupId : JsString) : List JsString :=
  (d.groupMembers.filter fun member => member.groupId = groupId).map (·.userId)

/-- `toDirectoryMember` of a membership and its user. -/
def member (d : Directory) (organizationId userId : JsString) : Option DirectoryMember := do
  let membership ← d.findMembership organizationId userId
  let user ← d.findUser membership.userId
  return ⟨membership.userId, membership.userEmail, user.name, membership.status, user.nameComponents⟩

/-- `toScimGroupRecord` of a group. -/
def group (d : Directory) (organizationId groupId : JsString) : Option ScimGroupRecord :=
  (d.findGroup organizationId groupId).map fun group =>
    ⟨group.id, group.name, group.externalId, (d.membersOf group.id).toFinset⟩

/-- `db.user.update`. -/
def updateUser (d : Directory) (userId : JsString) (change : User → User) : Directory :=
  { d with users := d.users.map fun user => if user.id = userId then change user else user }

/-- `db.organizationMember.update`. -/
def updateMembership (d : Directory) (organizationId userId : JsString)
    (change : OrganizationMember → OrganizationMember) : Directory :=
  { d with members := d.members.map fun member =>
      if member.organizationId = organizationId ∧ member.userId = userId then change member else member }

theorem groupIds_updateGroup (groups : List Group) (groupId : JsString) {change : Group → Group}
    (hid : ∀ group, (change group).id = group.id) :
    (groups.map fun group => if group.id = groupId then change group else group).map (·.id) = groups.map (·.id) := by
  rw [List.map_map]
  refine List.map_congr_left fun group _ => ?_
  rw [Function.comp_apply]
  split
  · exact hid group
  · rfl

/-- `db.group.update`. -/
def updateGroup (d : Directory) (groupId : JsString) (change : Group → Group)
    (hid : ∀ group, (change group).id = group.id) : Directory where
  users := d.users
  members := d.members
  groups := d.groups.map fun group => if group.id = groupId then change group else group
  groupMembers := d.groupMembers
  pendingInvites := d.pendingInvites
  groupIds := by
    rw [groupIds_updateGroup d.groups groupId hid]
    exact d.groupIds

/-- `db.user.create`. -/
def createUser (d : Directory) (user : User) : Directory := { d with users := d.users ++ [user] }

/-- `db.organizationMember.create`. -/
def createMembership (d : Directory) (membership : OrganizationMember) : Directory :=
  { d with members := d.members ++ [membership] }

/-- The transaction of a rename: the user's email, and the copies of it in the memberships. -/
def renameUser (d : Directory) (userId email : JsString) : Directory :=
  { d.updateUser userId (fun user => { user with email := email }) with
    members := d.members.map fun member =>
      if member.userId = userId then { member with userEmail := email } else member }

/-- `db.group.create`, with an id that no group has. -/
def createGroup (d : Directory) (group : Group) (h : group.id ∉ d.groups.map (·.id)) : Directory where
  users := d.users
  members := d.members
  groups := d.groups ++ [group]
  groupMembers := d.groupMembers
  pendingInvites := d.pendingInvites
  groupIds := by
    rw [List.map_append]
    exact List.nodup_append_comm.mp (List.nodup_cons.mpr ⟨h, d.groupIds⟩)

/-- `db.groupMember.deleteMany` of some users of a group. -/
def deleteGroupMembers (d : Directory) (groupId : JsString) (userIds : List JsString) : Directory :=
  { d with groupMembers := d.groupMembers.filter fun member => ¬(member.groupId = groupId ∧ member.userId ∈ userIds) }

/-- `db.groupMember.createMany`. -/
def createGroupMembers (d : Directory) (groupId : JsString) (userIds : List JsString) : Directory :=
  { d with groupMembers := d.groupMembers ++ userIds.map fun userId => ⟨groupId, userId⟩ }

/-- The memberships with other roles. -/
def assignRoles (d : Directory) (role : OrganizationMember → Role) : Directory :=
  { d with members := d.members.map fun member => { member with role := role member } }

/-- The memberships of a user, in any organization. -/
def membershipCount (d : Directory) (userId : JsString) : ℕ :=
  (d.members.filter fun member => member.userId = userId).length

/-- Another user has the email. -/
def emailTaken (d : Directory) (userId email : JsString) : Bool :=
  d.users.any fun user => user.id ≠ userId && user.email = email

/-- Another group of the organization has the name. -/
def groupNameTaken (d : Directory) (organizationId groupId name : JsString) : Bool :=
  d.groups.any fun group => group.id ≠ groupId && group.organizationId = organizationId && group.name = name

/-- Another group of the organization and source has the external id. -/
def externalIdTaken (d : Directory) (organizationId groupId : JsString) (source : GroupSource)
    (externalId : JsString) : Bool :=
  d.groups.any fun group => group.id ≠ groupId && group.organizationId = organizationId && group.source = source &&
    group.externalId = some externalId

/-- The seats that `countSeatsInUse` counts. -/
def seatsInUse (d : Directory) (organizationId : JsString) : ℕ :=
  (d.members.filter fun member => member.organizationId = organizationId).length + d.pendingInvites organizationId

end Directory

/-- A role that a group mapping gives. -/
inductive MappableRole where
  | admin
  | member

/-- The role of a membership. -/
def MappableRole.role : MappableRole → Role
  | .admin => .admin
  | .member => .member

/-- What the services take from elsewhere. A new user's id is in no membership. -/
structure Services extends Language where
  jsonb : Json JsString → Json JsString
  entitled : Bool
  resolveRolesForUsers : Directory → JsString → List JsString → JsString → Option MappableRole
  maxMembers : JsString → Option ℕ
  planName : JsString → JsString
  newUserId : Directory → JsString
  newGroupId : Directory → JsString
  freshUser : ∀ (d : Directory) (organizationId : JsString), d.findMembership organizationId (newUserId d) = none

variable (services : Services)

/-- `normalizeEmail`. -/
def normalizeEmail (rawEmail : JsString) : Except Thrown JsString :=
  let email := services.toLowerCase (trim rawEmail)
  if unit '@' ∈ email then .ok email
  else .error (.service .badRequest (js "userName must be an email address"))

/-- `findMemberByUserId`, with the refusal of `requireMember`. -/
def requireMember (organizationId userId : JsString) : ScimM DirectoryMember := do
  match (← get).member organizationId userId with
  | some member => return member
  | none => throw (scimError 404 "User not found." none)

/-- `findScimGroupById`, with the refusal of `requireScimGroup`. -/
def requireScimGroup (organizationId groupId : JsString) : ScimM ScimGroupRecord := do
  match (← get).group organizationId groupId with
  | some group => return group
  | none => throw (scimError 404 "Group not found." none)

/-- `resolveScimActor`: the id of the owner. -/
def resolveScimActor (organizationId : JsString) : ScimM JsString := do
  match (← get).members.find? fun member => member.organizationId = organizationId ∧ member.role = .owner with
  | some owner => return owner.userId
  | none => throw (.service .notFound (js "Organization owner not found"))

/-- `scimAudit`, which writes none of the tables. -/
def scimAudit (organizationId : JsString) : ScimM Unit := do
  let _ ← resolveScimActor organizationId

/-- The role that a membership has once it is reconciled. -/
def reconciledRole (d : Directory) (organizationId : JsString) (userIds : List JsString)
    (member : OrganizationMember) : Role :=
  if member.organizationId = organizationId ∧ member.userId ∈ userIds ∧ member.role ≠ .owner ∧
      member.status ≠ .suspended then
    ((services.resolveRolesForUsers d organizationId userIds member.userId).map MappableRole.role).getD member.role
  else member.role

/-- `reconcileMemberRoles`. -/
def reconcileMemberRoles (organizationId : JsString) (userIds : List JsString) : ScimM Unit := do
  if services.entitled then
    modify fun d => d.assignRoles (reconciledRole services d organizationId userIds)

/-- `upsertUserByEmail`: the user, and whether it was created. -/
def upsertUserByEmail (rawEmail : JsString) (name : Option JsString) (nameComponents : Option (Json JsString)) :
    ScimM (User × Bool) := do
  match normalizeEmail services rawEmail with
  | .error refusal => throw refusal
  | .ok email =>
    let d ← get
    match d.findUserByEmail email with
    | some user => return (user, false)
    | none =>
      let user : User := ⟨services.newUserId d, email, name, services.jsonb (nameComponents.getD .null)⟩
      modify fun d => d.createUser user
      return (user, true)

/-- `assertCanInviteMember`. -/
def assertCanInviteMember (organizationId : JsString) : ScimM Unit := do
  let d ← get
  match services.maxMembers organizationId with
  | none => return
  | some limit =>
    if limit ≤ d.seatsInUse organizationId then
      throw (.service .forbidden (js "members limit reached (" ++ js (toString (d.seatsInUse organizationId)) ++ js "/" ++
        js (toString limit) ++ js " on the " ++ services.planName organizationId ++
        js " plan). Upgrade to add more."))

/-- `provisionMember`: the user, and whether the membership was created. -/
def provisionMember (organizationId email : JsString) (name : Option JsString)
    (nameComponents : Option (Json JsString)) : ScimM (User × Bool) := do
  let (user, _) ← upsertUserByEmail services email name nameComponents
  match (← get).findMembership organizationId user.id with
  | some _ => return (user, false)
  | none =>
    assertCanInviteMember services organizationId
    modify fun d => d.createMembership ⟨organizationId, user.id, user.email, .member, .active⟩
    return (user, true)

/-- `suspendMember`. -/
def suspendMember (organizationId targetUserId actingUserId : JsString) : ScimM Unit := do
  if targetUserId = actingUserId then throw (.service .badRequest (js "You cannot suspend yourself"))
  match (← get).findMembership organizationId targetUserId with
  | none => throw (.service .notFound (js "User is not a member of this organization"))
  | some membership =>
    if membership.role = .owner then
      throw (.service .badRequest (js "The organization owner cannot be suspended"))
    if membership.status = .suspended then throw (.service .conflict (js "This member is already suspended"))
    modify fun d => d.updateMembership organizationId targetUserId fun member => { member with status := .suspended }

/-- `reinstateMember`. -/
def reinstateMember (organizationId targetUserId : JsString) : ScimM Unit := do
  match (← get).findMembership organizationId targetUserId with
  | none => throw (.service .notFound (js "User is not a member of this organization"))
  | some membership =>
    if membership.status ≠ .suspended then throw (.service .conflict (js "This member is not suspended"))
    modify fun d => d.updateMembership organizationId targetUserId fun member => { member with status := .active }
    reconcileMemberRoles services organizationId [targetUserId]

/-- `deactivateMember`. -/
def deactivateMember (organizationId userId actorUserId : JsString) : ScimM Unit := do
  match (← get).findMembership organizationId userId with
  | none => throw (.service .notFound (js "User not found"))
  | some membership =>
    if membership.status = .suspended then return
    if membership.role = .owner then
      throw (.service .badRequest
        (js "The organization owner cannot be deactivated. Transfer ownership first."))
    suspendMember organizationId userId actorUserId

/-- `reactivateMember`. -/
def reactivateMember (organizationId userId : JsString) : ScimM Unit := do
  match (← get).findMembership organizationId userId with
  | none => throw (.service .notFound (js "User not found"))
  | some membership =>
    if membership.status ≠ .suspended then return
    reinstateMember services organizationId userId

/-- `MemberProfilePatch`; a `null` of the components is the JSON one. -/
structure MemberProfilePatch where
  displayName : Option (Option JsString)
  nameComponents : Option (Json JsString)

/-- The columns that `updateMemberProfile` writes. -/
def MemberProfilePatch.apply (patch : MemberProfilePatch) (user : User) : User :=
  { user with
    name := patch.displayName.getD user.name
    nameComponents := (patch.nameComponents.map services.jsonb).getD user.nameComponents }

/-- `updateMemberProfile`. -/
def updateMemberProfile (organizationId userId : JsString) (patch : MemberProfilePatch) : ScimM Unit := do
  match (← get).findMembership organizationId userId with
  | none => throw (.service .notFound (js "User not found"))
  | some _ => modify fun d => d.updateUser userId (patch.apply services)

/-- `renameMemberEmail`. -/
def renameMemberEmail (organizationId userId rawNewEmail : JsString) : ScimM Unit := do
  match normalizeEmail services rawNewEmail with
  | .error refusal => throw refusal
  | .ok email =>
    let d ← get
    match d.findMembership organizationId userId, d.findUser userId with
    | some _, some user =>
      if user.email = email then return
      if d.membershipCount userId ≠ 1 then
        throw (.service .badRequest
          (js "userName cannot be changed for a user who belongs to multiple organizations."))
      if d.emailTaken userId email then
        throw (.service .conflict (js "A user with this userName already exists."))
      modify fun d => d.renameUser userId email
    | _, _ => throw (.service .notFound (js "User not found"))

/-- `requireGroup`. -/
def requireGroup (organizationId groupId : JsString) : ScimM Group := do
  match (← get).findGroup organizationId groupId with
  | some group => return group
  | none => throw (.service .notFound (js "Group not found"))

/-- `createGroupCore` for `scimCreateGroup`: the id of the new group. The constraints are checked in the order in which
they were added. -/
def scimCreateGroup (organizationId displayName : JsString) (externalId : Option JsString) : ScimM JsString := do
  let d ← get
  if h : services.newGroupId d ∈ d.groups.map (·.id) then
    throw (.service .conflict (js "A group with this name already exists."))
  else if d.groupNameTaken organizationId (services.newGroupId d) displayName then
    throw (.service .conflict (js "A group with this name already exists."))
  else if externalId.any (d.externalIdTaken organizationId (services.newGroupId d) .scim) then
    throw (.service .conflict (js "A group with this externalId already exists."))
  else
    set (d.createGroup ⟨services.newGroupId d, organizationId, displayName, .scim, externalId⟩ h)
    return services.newGroupId d

/-- `renameGroupCore` for `scimRenameGroup`. -/
def scimRenameGroup (organizationId groupId name : JsString) : ScimM Unit := do
  let group ← requireGroup organizationId groupId
  if (← get).groupNameTaken organizationId group.id name then
    throw (.service .conflict (js "A group with this name already exists."))
  modify fun d => d.updateGroup group.id (fun group => { group with name := name }) fun _ => rfl

/-- `scimSetGroupExternalId`. -/
def scimSetGroupExternalId (organizationId groupId : JsString) (externalId : Option JsString) : ScimM Unit := do
  let group ← requireGroup organizationId groupId
  if externalId.any ((← get).externalIdTaken organizationId group.id group.source) then
    throw (.service .conflict (js "A group with this externalId already exists."))
  modify fun d => d.updateGroup group.id (fun group => { group with externalId := externalId }) fun _ => rfl

/-- `setGroupMembersCore` for `scimSetGroupMembers`. -/
def scimSetGroupMembers (organizationId groupId : JsString) (userIds : List JsString) : ScimM Unit := do
  let group ← requireGroup organizationId groupId
  let d ← get
  let target := userIds.eraseDups
  let unknown := target.filter fun id => (d.findMembership organizationId id).isNone
  if unknown ≠ [] then
    throw (.service .badRequest (js "Not members of this organization: " ++ (js ", ").intercalate unknown))
  let current := d.membersOf group.id
  let toAdd := target.filter (· ∉ current)
  let toRemove := current.filter (· ∉ target)
  if toAdd ≠ [] ∨ toRemove ≠ [] then
    modify fun d => (d.deleteGroupMembers group.id toRemove).createGroupMembers group.id toAdd
    reconcileMemberRoles services organizationId (toAdd ++ toRemove)

/-- `addGroupMemberCore` for `scimAddGroupMember`. -/
def scimAddGroupMember (organizationId groupId userId : JsString) : ScimM Unit := do
  let group ← requireGroup organizationId groupId
  if ((← get).findMembership organizationId userId).isNone then
    throw (.service .badRequest (js "User is not a member of this organization"))
  if userId ∉ (← get).membersOf group.id then
    modify fun d => d.createGroupMembers group.id [userId]
    reconcileMemberRoles services organizationId [userId]

/-- `removeGroupMemberCore` for `scimRemoveGroupMember`. -/
def scimRemoveGroupMember (organizationId groupId userId : JsString) : ScimM Unit := do
  let group ← requireGroup organizationId groupId
  modify fun d => d.deleteGroupMembers group.id [userId]
  reconcileMemberRoles services organizationId [userId]

end Onecli.Scim
