import Onecli.Scim.Directory

/-!
# Writes to SCIM users

The `POST`, `PUT` and `PATCH` routes of `scim/users.ts`. A request ends in an answer or in what it throws; the body of a
successful answer is read by no route.
-/

namespace Onecli.Scim

open Api (JsString unit trim)
open Onecli.Directory (MemberStatus)
open Utf16 (js)

variable (services : Services)

/-- `requireUserName`. -/
def requireUserName (body : Json JsString) : Except Thrown JsString :=
  match scimAttr services.toLanguage body "userName" with
  | some (.str userName) =>
    if trim userName = [] then .error (scimError 400 "userName is required." (some .invalidValue)) else .ok userName
  | _ => .error (scimError 400 "userName is required." (some .invalidValue))

/-- `nameComponentsFrom`. -/
def nameComponentsFrom (body : Json JsString) : Option (Json JsString) :=
  match scimAttr services.toLanguage body "name" with
  | some (.obj members) => some (.obj members)
  | _ => none

/-- `displayStringFrom`. -/
def displayStringFrom (body : Json JsString) : Option JsString :=
  match filled (scimAttr services.toLanguage body "displayName"), nameComponentsFrom services body with
  | some displayName, _ => some displayName
  | none, none => none
  | none, some components =>
    match filled (scimAttr services.toLanguage components "formatted") with
    | some formatted => some formatted
    | none =>
      match filled (scimAttr services.toLanguage components "givenName"),
          filled (scimAttr services.toLanguage components "familyName") with
      | some given, some family => some (given ++ js " " ++ family)
      | some given, none => some given
      | none, family => family

/-- `activeFrom`. -/
def activeFrom (body : Json JsString) : Except Thrown (Option Bool) :=
  match scimAttr services.toLanguage body "active" with
  | none => .ok none
  | some raw =>
    match coerceScimBoolean services.toLanguage (some raw) with
    | some active => .ok (some active)
    | none => .error (scimError 400 "active must be a boolean." (some .invalidValue))

/-- `CANONICAL_NAME_KEYS`. A lookup also finds the two properties that every object inherits under a name in lower
case, and the text of their values is then the key. -/
def CANONICAL_NAME_KEYS (sub : JsString) : Option JsString :=
  [(js "formatted", js "formatted"), (js "givenname", js "givenName"), (js "familyname", js "familyName"),
    (js "middlename", js "middleName"), (js "honorificprefix", js "honorificPrefix"),
    (js "honorificsuffix", js "honorificSuffix"), (js "constructor", js "function Object() \x7b [native code] \x7d"),
    (js "__proto__", js "[object Object]")].lookup sub

/-- `storedComponents`. -/
def storedComponents (nameComponents : Json JsString) : List (JsString × Option (Json JsString)) :=
  match nameComponents with
  | .obj members => members.map fun entry => (entry.1, some entry.2)
  | _ => []

/-- `components[key] = value`. -/
def setComponent (key : JsString) (value : Option (Json JsString)) :
    List (JsString × Option (Json JsString)) → List (JsString × Option (Json JsString))
  | [] => [(key, value)]
  | entry :: components =>
    if entry.1 = key then (key, value) :: components else entry :: setComponent key value components

/-- The components with one of them set to a value, or removed; the serialization leaves out what is `undefined`. -/
def withComponent (nameComponents : Json JsString) (key : JsString) (op : PatchKind) (value : Option (Json JsString)) :
    Json JsString :=
  let components := match op with
    | .remove => (storedComponents nameComponents).filter fun entry => entry.1 ≠ key
    | _ => setComponent key value (storedComponents nameComponents)
  if components = [] then .null
  else .obj (components.filterMap fun entry => entry.2.map fun value => (entry.1, value))

/-- The guard's rejection of a rename, re-shaped. -/
def asMutability : Thrown → Thrown
  | .service .badRequest message => .scim ⟨400, message, some .mutability⟩
  | thrown => thrown

/-- `applyUserName`. -/
def applyUserName (organizationId : JsString) (member : DirectoryMember) (rawUserName : JsString) : ScimM Bool := do
  if services.toLowerCase (trim rawUserName) = member.email then return false
  tryCatch (renameMemberEmail services organizationId member.userId rawUserName) fun thrown =>
    throw (asMutability thrown)
  return true

/-- `applyActive`. -/
def applyActive (organizationId : JsString) (member : DirectoryMember) (active : Bool) : ScimM Bool := do
  let currentlyActive : Bool := member.status ≠ .suspended
  if active = currentlyActive then return false
  if active then
    reactivateMember services organizationId member.userId
  else
    let actor ← resolveScimActor organizationId
    deactivateMember organizationId member.userId actor
  return true

/-- `usersRouter.post`. -/
def postUser (organizationId : JsString) (body : Option (Json JsString)) : ScimM Unit := do
  let body ← .ofExcept (readScimBody body)
  let userName ← .ofExcept (requireUserName services body)
  let active ← .ofExcept (activeFrom services body)
  let (user, created) ← provisionMember services organizationId userName (displayStringFrom services body)
    (nameComponentsFrom services body)
  if !created then
    throw (.scim ⟨409, js "A user with userName \"" ++ user.email ++ js "\" already exists in this organization.",
      some .uniqueness⟩)
  if active = some false then
    let actor ← resolveScimActor organizationId
    deactivateMember organizationId user.id actor
  scimAudit organizationId
  let _ ← requireMember organizationId user.id

/-- The profile that a `PUT` applies to a member. -/
def putProfile (member : DirectoryMember) (body : Json JsString) : MemberProfilePatch :=
  let displayName := filled (scimAttr services.toLanguage body "displayName")
  match nameComponentsFrom services body with
  | none => ⟨displayName.map some, none⟩
  | some components =>
    ⟨if displayName = none ∧ member.name = none then some (displayStringFrom services body) else displayName.map some,
      some components⟩

/-- A profile patch has a key. -/
def MemberProfilePatch.given (patch : MemberProfilePatch) : Bool :=
  patch.displayName.isSome || patch.nameComponents.isSome

/-- The attributes of a `PUT`, in the order in which they are applied; whether anything changed. -/
def putAttributes (organizationId : JsString) (member : DirectoryMember) (userName : JsString) (body : Json JsString) :
    ScimM Bool := do
  let userNameChanged ← applyUserName services organizationId member userName
  if (putProfile services member body).given then
    updateMemberProfile services organizationId member.userId (putProfile services member body)
  match ← .ofExcept (activeFrom services body) with
  | none => return (putProfile services member body).given || userNameChanged
  | some active =>
    let activeChanged ← applyActive services organizationId member active
    return (putProfile services member body).given || activeChanged || userNameChanged

/-- `usersRouter.put`. -/
def putUser (organizationId userId : JsString) (body : Option (Json JsString)) : ScimM Unit := do
  let member ← requireMember organizationId userId
  let body ← .ofExcept (readScimBody body)
  let userName ← .ofExcept (requireUserName services body)
  let changed ← putAttributes services organizationId member userName body
  let _ ← requireMember organizationId member.userId
  if changed then scimAudit organizationId

/-- Where a `PATCH` stands: the member as it was read last, and whether anything changed. -/
structure PatchState where
  current : DirectoryMember
  changed : Bool

/-- `refresh` after a change. -/
def refresh (organizationId userId : JsString) : ScimM PatchState := do
  let current ← requireMember organizationId userId
  return ⟨current, true⟩

/-- The `userName` that a `PATCH` gives: a string that is not blank, and no removal. -/
def patchedUserName (op : PatchKind) : Option (Json JsString) → Option JsString
  | some (.str userName) => if op = .remove ∨ trim userName = [] then none else some userName
  | _ => none

/-- The `active` that a `PATCH` gives. -/
def patchedActive (op : PatchKind) (value : Option (Json JsString)) : Except Thrown Bool :=
  if op = .remove then .error (scimError 400 "active cannot be removed." (some .invalidValue))
  else
    match coerceScimBoolean services.toLanguage value with
    | none => .error (scimError 400 "active must be a boolean." (some .invalidValue))
    | some active => .ok active

/-- The components that a `PATCH` of the whole name gives. -/
def patchedComponents (op : PatchKind) : Option (Json JsString) → Json JsString
  | some (.obj members) => if op = .remove then .null else .obj members
  | _ => .null

/-- `applyAttribute`. -/
def applyAttribute (organizationId : JsString) (state : PatchState) (base : JsString) (op : PatchKind)
    (value : Option (Json JsString)) : ScimM PatchState := do
  if base = js "username" then
    match patchedUserName op value with
    | none => throw (scimError 400 "userName is required." (some .invalidValue))
    | some userName =>
      if ← applyUserName services organizationId state.current userName then
        refresh organizationId state.current.userId
      else return state
  else if base = js "active" then
    let active ← .ofExcept (patchedActive services op value)
    if ← applyActive services organizationId state.current active then
      refresh organizationId state.current.userId
    else return state
  else if base = js "displayname" then
    if (if op = .remove then none else filled value) ≠ state.current.name then
      updateMemberProfile services organizationId state.current.userId
        ⟨some (if op = .remove then none else filled value), none⟩
      refresh organizationId state.current.userId
    else return state
  else if base = js "name" then
    updateMemberProfile services organizationId state.current.userId ⟨none, some (patchedComponents op value)⟩
    refresh organizationId state.current.userId
  else if js "name." <+: base then
    match CANONICAL_NAME_KEYS (base.drop 5) with
    | none => return state
    | some canonical =>
      updateMemberProfile services organizationId state.current.userId
        ⟨none, some (withComponent state.current.nameComponents canonical op value)⟩
      refresh organizationId state.current.userId
  else return state

/-- One operation of a `PATCH`. -/
def patchUserOp (organizationId : JsString) (state : PatchState) (op : ScimPatchOp) : ScimM PatchState := do
  match op.path with
  | some path => applyAttribute services organizationId state path.base op.op op.value
  | none =>
    let value ← .ofExcept op.objectValue
    (entries value).foldlM
      (fun state entry => do
        let path ← .ofExcept (parseScimPath entry.1)
        applyAttribute services organizationId state path.base op.op (some entry.2))
      state

/-- `usersRouter.patch`. -/
def patchUser (organizationId userId : JsString) (body : Option (Json JsString)) : ScimM Unit := do
  let member ← requireMember organizationId userId
  let body ← .ofExcept (readScimBody body)
  let operations ← .ofExcept (parsePatchBody services.toLanguage body)
  let state ← operations.foldlM (patchUserOp services organizationId) ⟨member, false⟩
  if state.changed then scimAudit organizationId

/-! ## What a member's writes amount to

The attributes that SCIM keeps of a member, next to what the services ask about the member before they write one. Every
write of a user route either is refused for what it asks or sets attributes of this member and of nobody else.
-/

open Option

/-- A member, and what the services ask about the member. -/
structure Standing where
  userId : JsString
  email : JsString
  name : Option JsString
  nameComponents : Json JsString
  status : MemberStatus
  userEmail : JsString
  owner : Bool
  sole : Bool
  taken : JsString → Bool
  actor : Option JsString

/-- The member that the routes read. -/
def Standing.member (p : Standing) : DirectoryMember := ⟨p.userId, p.email, p.name, p.status, p.nameComponents⟩

/-- A write of a user route. -/
inductive UserWrite where
  | refuse (thrown : Thrown)
  | userName (raw : JsString)
  | active (active : Bool)
  | profile (patch : MemberProfilePatch)
  | component (key : JsString) (op : PatchKind) (value : Option (Json JsString))

variable (services : Services)

/-- The email that a `userName` asks for. -/
def emailOf (raw : JsString) : JsString := services.toLowerCase (trim raw)

/-- Why a rename is refused. -/
def renameVerdict (p : Standing) (email : JsString) : Option Thrown :=
  if email = p.email then none
  else if unit '@' ∉ email then some (.scim ⟨400, js "userName must be an email address", some .mutability⟩)
  else if p.userEmail = email then none
  else if p.sole = false then
    some (.scim ⟨400, js "userName cannot be changed for a user who belongs to multiple organizations.",
      some .mutability⟩)
  else if p.taken email then some (.service .conflict (js "A user with this userName already exists."))
  else none

/-- Why a deactivation is refused. -/
def deactivateVerdict (p : Standing) : Option Thrown :=
  if p.status = .suspended then none
  else
    match p.actor with
    | none => some (.service .notFound (js "Organization owner not found"))
    | some actor =>
      if p.owner then
        some (.service .badRequest (js "The organization owner cannot be deactivated. Transfer ownership first."))
      else if p.userId = actor then some (.service .badRequest (js "You cannot suspend yourself"))
      else none

/-- The account of the writes of the user routes. -/
def userAccount : Account Standing UserWrite Thrown where
  verdict p
    | .refuse thrown => some thrown
    | .userName raw => renameVerdict p (emailOf services raw)
    | .active true => none
    | .active false => deactivateVerdict p
    | .profile _ => none
    | .component _ _ _ => none
  give p
    | .refuse _ => p
    | .userName raw =>
      if emailOf services raw = p.email ∨ p.userEmail = emailOf services raw then p
      else { p with email := emailOf services raw, userEmail := emailOf services raw }
    | .active active => { p with status := if active then .active else .suspended }
    | .profile patch =>
      { p with
        name := patch.displayName.getD p.name
        nameComponents := (patch.nameComponents.map services.jsonb).getD p.nameComponents }
    | .component key op value =>
      { p with nameComponents := services.jsonb (withComponent p.nameComponents key op value) }

namespace Directory

/-- The owner that `resolveScimActor` finds. -/
def actor (d : Directory) (organizationId : JsString) : Option JsString :=
  (d.members.find? fun member => member.organizationId = organizationId ∧ member.role = .owner).map (·.userId)

/-- What is asked about a member with a membership and a user. -/
def standingOf (d : Directory) (organizationId userId : JsString) (membership : OrganizationMember) (user : User) :
    Standing where
  userId := userId
  email := membership.userEmail
  name := user.name
  nameComponents := user.nameComponents
  status := membership.status
  userEmail := user.email
  owner := membership.role = .owner
  sole := d.membershipCount userId = 1
  taken := d.emailTaken userId
  actor := d.actor organizationId

/-- A map that keeps the test finds the same row. -/
theorem find_map_keeps {R : Type} {p : R → Bool} {f : R → R} (h : ∀ row, p (f row) = p row) (rows : List R) :
    (rows.map f).find? p = (rows.find? p).map f := by
  rw [List.find?_map]
  congr 2
  funext row
  exact h row

theorem filter_map_keeps {R : Type} {p : R → Bool} {f : R → R} (h : ∀ row, p (f row) = p row) (rows : List R) :
    ((rows.map f).filter p).length = (rows.filter p).length := by
  rw [List.filter_map, List.length_map]
  congr 2
  funext row
  exact h row

/-- A user that is found has the id. -/
theorem findUser_id {d : Directory} {userId : JsString} {user : User} (h : d.findUser userId = some user) :
    user.id = userId := by
  simpa using List.find?_some h

/-- A membership that is found has the ids. -/
theorem findMembership_key {d : Directory} {organizationId userId : JsString} {member : OrganizationMember}
    (h : d.findMembership organizationId userId = some member) :
    member.organizationId = organizationId ∧ member.userId = userId := by
  simpa using List.find?_some h

/-- A change of the rows of the users and memberships that keeps their keys, the owners, and the emails of others. -/
structure Changes (d : Directory) (userId : JsString) (f : OrganizationMember → OrganizationMember) (g : User → User)
    (d' : Directory) : Prop where
  members : d'.members = d.members.map f
  users : d'.users = d.users.map g
  groups : d'.groups = d.groups
  groupMembers : d'.groupMembers = d.groupMembers
  organization : ∀ member, (f member).organizationId = member.organizationId
  user : ∀ member, (f member).userId = member.userId
  owner : ∀ member, (f member).role = .owner ↔ member.role = .owner
  id : ∀ user, (g user).id = user.id
  email : ∀ user, user.id ≠ userId → (g user).email = user.email

namespace Changes

variable {d d' : Directory} {userId : JsString} {f : OrganizationMember → OrganizationMember} {g : User → User}

section

variable (h : Changes d userId f g d')
include h

theorem findMembership (organizationId other : JsString) : d'.findMembership organizationId other =
    (d.findMembership organizationId other).map f := by
  rw [Directory.findMembership, h.members]
  exact find_map_keeps (fun member => by rw [h.organization, h.user]) _

theorem findUser (other : JsString) : d'.findUser other = (d.findUser other).map g := by
  rw [Directory.findUser, h.users]
  exact find_map_keeps (fun user => by rw [h.id]) _

theorem actor (organizationId : JsString) : d'.actor organizationId = d.actor organizationId := by
  rw [Directory.actor, h.members, find_map_keeps (fun member => by simp only [h.organization, h.owner]), map_map]
  congr 1
  funext member
  exact h.user member

theorem membershipCount (other : JsString) : d'.membershipCount other = d.membershipCount other := by
  rw [Directory.membershipCount, h.members]
  exact filter_map_keeps (fun member => by rw [h.user]) _

theorem emailTaken : d'.emailTaken userId = d.emailTaken userId := by
  funext email
  rw [Directory.emailTaken, h.users, List.any_map]
  refine congrArg (fun p => d.users.any p) ?_
  funext user
  by_cases hid : user.id = userId
  · simp [h.id, hid]
  · simp [h.id, hid, h.email user hid]

theorem standingOf (organizationId : JsString) (member : OrganizationMember) (user : User) : d'.standingOf
    organizationId userId (f member) (g user) =
      { d.standingOf organizationId userId member user with
        email := (f member).userEmail
        name := (g user).name
        nameComponents := (g user).nameComponents
        status := (f member).status
        userEmail := (g user).email } := by
  unfold Directory.standingOf
  rw [h.membershipCount, h.emailTaken, h.actor]
  simp only [h.owner]

end

end Changes

end Directory

/-- A member stands somewhere, and everybody else and every group is as in a first directory. -/
structure Stands (first : Directory) (organizationId userId : JsString) (d : Directory) (p : Standing) : Prop where
  standing : ∃ member user, d.findMembership organizationId userId = some member ∧ d.findUser userId = some user ∧
    p = d.standingOf organizationId userId member user
  users : ∀ other ≠ userId, d.findUser other = first.findUser other
  members : ∀ organization other, ¬(organization = organizationId ∧ other = userId) →
    (d.findMembership organization other).map (fun member => (member.userId, member.userEmail, member.status)) =
      (first.findMembership organization other).map fun member => (member.userId, member.userEmail, member.status)
  groups : d.groups = first.groups
  groupMembers : d.groupMembers = first.groupMembers

namespace Stands

variable {services} {first d : Directory} {organizationId userId : JsString} {p : Standing}

section

variable (h : Stands first organizationId userId d p)
include h

/-- A standing is of its user. -/
theorem sameUser : p.userId = userId := by
  obtain ⟨membership, user, -, -, hp⟩ := h.standing
  exact congrArg Standing.userId hp

/-- A standing membership is its row. -/
theorem member : d.member organizationId userId = some p.member := by
  obtain ⟨membership, user, hmember, huser, rfl⟩ := h.standing
  have hkey := (Directory.findMembership_key hmember).2
  rw [Directory.member, hmember, bind_eq_bind, bind_some, hkey, huser]
  rfl

/-- A change of a standing member. -/
theorem change {d' : Directory} {f : OrganizationMember → OrganizationMember} {g : User → User}
    (hchanges : d.Changes userId f g d')
    (hmems : ∀ org other row, ¬(org = organizationId ∧ other = userId) → d.findMembership
    org other = some row → (f row).userEmail = row.userEmail ∧ (f row).status = row.status)
    (husers : ∀ user, user.id ≠ userId → g user = user) : ∃ member user, d.findMembership organizationId userId = some
    member ∧ d.findUser userId = some user ∧ p = d.standingOf organizationId userId member user ∧
      Stands first organizationId userId d' { p with
        email := (f member).userEmail
        name := (g user).name
        nameComponents := (g user).nameComponents
        status := (f member).status
        userEmail := (g user).email } := by
  obtain ⟨member, user, hmember, huser, rfl⟩ := h.standing
  refine ⟨member, user, hmember, huser, rfl, ?_, ?_, ?_, ?_, ?_⟩
  · exact ⟨f member, g user, by rw [hchanges.findMembership, hmember]; rfl, by rw [hchanges.findUser, huser]; rfl,
      (hchanges.standingOf organizationId member user).symm⟩
  · intro other hother
    rw [hchanges.findUser, ← h.users other hother]
    cases hfound : d.findUser other with
    | none => rfl
    | some found => rw [map_some, husers found ((Directory.findUser_id hfound).trans_ne hother)]
  · intro org other hother
    rw [hchanges.findMembership, ← h.members org other hother]
    cases hfound : d.findMembership org other with
    | none => rfl
    | some row =>
      obtain ⟨hemail, hstatus⟩ := hmems org other row hother hfound
      simp only [map_some, hchanges.user, hemail, hstatus]
  · exact hchanges.groups.trans h.groups
  · exact hchanges.groupMembers.trans h.groupMembers

end

end Stands

end Onecli.Scim
