import Onecli.Scim.Groups

/-!
# The group services follow the account
-/

namespace Onecli.Scim

open Api (JsString)
open Utf16 (js)
open Attempt List

variable {services : Services} {first d : Directory} {org groupId : JsString} {p : GroupStanding}

namespace Directory

theorem membersOf_createGroupMembers (d : Directory) (groupId : JsString) (userIds : List JsString) (other : JsString) :
    (d.createGroupMembers groupId userIds).membersOf other =
      d.membersOf other ++ if groupId = other then userIds else [] := by
  unfold createGroupMembers membersOf
  rw [filter_append, map_append]
  congr 1
  split
  · rename_i hsame
    subst hsame
    rw [filter_eq_self.mpr, map_map]
    · exact map_id userIds
    · intro member hmember
      obtain ⟨userId, -, rfl⟩ := mem_map.mp hmember
      exact decide_eq_true rfl
  · rename_i hne
    rw [filter_eq_nil_iff.mpr]
    · rfl
    · intro member hmember
      obtain ⟨userId, -, rfl⟩ := mem_map.mp hmember
      simpa using hne

theorem mem_membersOf_deleteGroupMembers (d : Directory) (groupId : JsString) (userIds : List JsString)
    (other userId : JsString) :
    userId ∈ (d.deleteGroupMembers groupId userIds).membersOf other ↔
      userId ∈ d.membersOf other ∧ ¬(other = groupId ∧ userId ∈ userIds) := by
  unfold deleteGroupMembers membersOf
  simp only [mem_map, mem_filter, decide_eq_true_eq]
  constructor
  · rintro ⟨member, ⟨⟨hmem, hkept⟩, rfl⟩, rfl⟩
    exact ⟨⟨member, ⟨hmem, rfl⟩, rfl⟩, by simpa using hkept⟩
  · rintro ⟨⟨member, ⟨hmem, rfl⟩, rfl⟩, hkept⟩
    exact ⟨member, ⟨⟨hmem, by simpa using hkept⟩, rfl⟩, rfl⟩

theorem membersOf_deleteGroupMembers_of_ne (d : Directory) {groupId other : JsString} (userIds : List JsString)
    (h : other ≠ groupId) : (d.deleteGroupMembers groupId userIds).membersOf other = d.membersOf other := by
  unfold deleteGroupMembers membersOf
  rw [filter_filter]
  congr 2
  funext member
  by_cases hmember : member.groupId = other
  · simp [hmember, h]
  · simp [hmember]

theorem createGroupMembers_nil (d : Directory) (groupId : JsString) : d.createGroupMembers groupId [] = d := by
  unfold createGroupMembers
  rw [map_nil, append_nil]

theorem deleteGroupMembers_nil (d : Directory) (groupId : JsString) : d.deleteGroupMembers groupId [] = d := by
  unfold deleteGroupMembers
  rw [filter_eq_self.mpr (fun member _ => by simp)]

namespace GroupChange

theorem updateGroup (d : Directory) (groupId : JsString) (change : Group → Group)
    (hid : ∀ group, (change group).id = group.id)
    (horg : ∀ group, (change group).organizationId = group.organizationId)
    (hsource : ∀ group, (change group).source = group.source) :
    d.GroupChange groupId (fun group => if group.id = groupId then change group else group)
      (d.updateGroup groupId change hid) where
  groups := rfl
  id group := by
    split
    · exact hid group
    · rfl
  organization group := by
    split
    · exact horg group
    · rfl
  source group := by
    split
    · exact hsource group
    · rfl
  other group hgroup := if_neg hgroup
  membersOf _ _ := rfl
  users := rfl
  members := ⟨fun member => member.role, (map_id d.members).symm⟩

theorem setMembers (d : Directory) (groupId : JsString) (removed added : List JsString) :
    d.GroupChange groupId (fun group => group)
      ((d.deleteGroupMembers groupId removed).createGroupMembers groupId added) where
  groups := (map_id d.groups).symm
  id _ := rfl
  organization _ := rfl
  source _ := rfl
  other _ _ := rfl
  membersOf other hother := by
    rw [membersOf_createGroupMembers, if_neg hother.symm, append_nil,
      membersOf_deleteGroupMembers_of_ne d removed hother]
  users := rfl
  members := ⟨fun member => member.role, (map_id d.members).symm⟩

theorem assignRoles (d : Directory) (groupId : JsString) (role : OrganizationMember → Onecli.Directory.Role) :
    d.GroupChange groupId (fun group => group) (d.assignRoles role) where
  groups := (map_id d.groups).symm
  id _ := rfl
  organization _ := rfl
  source _ := rfl
  other _ _ := rfl
  membersOf _ _ := rfl
  users := rfl
  members := ⟨role, rfl⟩

end GroupChange

end Directory

/-- A standing group is found. -/
theorem GroupStands.outcome_requireGroup (h : GroupStands first org groupId d p) :
    ∃ row, (requireGroup org groupId).outcome d = (.ok row, d) ∧ row.id = groupId ∧
      row.organizationId = org ∧ d.findGroup org groupId = some row ∧ p = d.groupStandingOf row := by
  obtain ⟨row, hrow, hp⟩ := h.standing
  refine ⟨row, ?_, (Directory.findGroup_key hrow).1, (Directory.findGroup_key hrow).2, hrow, hp⟩
  rw [requireGroup, outcome_get_bind, hrow]
  rfl

theorem GroupStands.reconcile (services : Services) (h : GroupStands first org groupId d p)
    (organization : JsString) (userIds : List JsString) :
    ∃ d', (reconcileMemberRoles services organization userIds).outcome d = (.ok (), d') ∧
      GroupStands first org groupId d' p := by
  unfold reconcileMemberRoles
  cases services.entitled with
  | true =>
    obtain ⟨row, hrow, rfl, hstands⟩ :=
      h.change (.assignRoles d groupId (reconciledRole services d organization userIds))
    exact ⟨_, rfl, hstands⟩
  | false => exact ⟨d, rfl, h⟩

/-- A rename follows its account. -/
theorem follows_scimRenameGroup (name : JsString) :
    Follows groupAccount (GroupStands first org groupId) p
      (scimRenameGroup org groupId name) (fun _ _ => True) [.rename name] := by
  refine .write fun d h => ?_
  obtain ⟨row, hrequire, hid, horg, -, hp⟩ := h.outcome_requireGroup
  have htaken : d.groupNameTaken org row.id name = p.nameTaken name := by
    rw [hp, ← horg]
    rfl
  unfold scimRenameGroup
  rw [outcome_bind_ok hrequire, outcome_get_bind, htaken]
  change (∃ thrown, (if p.nameTaken name then some _ else none) = some thrown ∧ _) ∨
    (if p.nameTaken name then some _ else none) = none ∧ _
  by_cases hname : p.nameTaken name = true
  · rw [if_pos hname, if_pos hname]
    exact .inl ⟨_, rfl, rfl⟩
  · rw [if_neg hname, if_neg hname]
    obtain ⟨row', hrow', rfl, hstands⟩ := h.change
      (.updateGroup d groupId (fun group => { group with name := name }) (fun _ => rfl) (fun _ => rfl) fun _ => rfl)
    rw [hid]
    rw [if_pos (Directory.findGroup_key hrow').1] at hstands
    exact .inr ⟨rfl, (), _, rfl, hstands, trivial⟩

theorem follows_scimSetGroupExternalId (externalId : Option JsString) :
    Follows groupAccount (GroupStands first org groupId) p
      (scimSetGroupExternalId org groupId externalId) (fun _ _ => True) [.externalId externalId] := by
  refine .write fun d h => ?_
  obtain ⟨row, hrequire, hid, horg, -, hp⟩ := h.outcome_requireGroup
  have htaken : d.externalIdTaken org row.id row.source = p.externalIdTaken := by
    rw [hp, ← horg]
    rfl
  unfold scimSetGroupExternalId
  rw [outcome_bind_ok hrequire, outcome_get_bind, htaken]
  change (∃ thrown, (if externalId.any p.externalIdTaken then some _ else none) = some thrown ∧ _) ∨
    (if externalId.any p.externalIdTaken then some _ else none) = none ∧ _
  by_cases hexternal : externalId.any p.externalIdTaken = true
  · rw [if_pos hexternal, if_pos hexternal]
    exact .inl ⟨_, rfl, rfl⟩
  · rw [if_neg hexternal, if_neg hexternal]
    obtain ⟨row', hrow', rfl, hstands⟩ := h.change
      (.updateGroup d groupId (fun group => { group with externalId := externalId }) (fun _ => rfl) (fun _ => rfl)
        fun _ => rfl)
    rw [hid]
    rw [if_pos (Directory.findGroup_key hrow').1] at hstands
    exact .inr ⟨rfl, (), _, rfl, hstands, trivial⟩

/-- Members that are set stand. -/
theorem GroupStands.setMembers (services : Services) (h : GroupStands first org groupId d p)
    (removed added : List JsString) (members : Finset JsString) (reconciled : List JsString)
    (hmembers : ∀ userId, userId ∈ members ↔ userId ∈ p.record.members ∧ userId ∉ removed ∨ userId ∈ added) :
    ∃ d', (reconcileMemberRoles services org reconciled).outcome
        ((d.deleteGroupMembers groupId removed).createGroupMembers groupId added) = (.ok (), d') ∧
      GroupStands first org groupId d' { p with record := { p.record with members := members } } := by
  obtain ⟨row, hrow, rfl, hstands⟩ := h.change (.setMembers d groupId removed added)
  have hid := (Directory.findGroup_key hrow).1
  have hset : (((d.deleteGroupMembers groupId removed).createGroupMembers groupId added).membersOf row.id).toFinset =
      members := by
    ext userId
    rw [hmembers, mem_toFinset, Directory.membersOf_createGroupMembers, if_pos hid.symm, mem_append,
      Directory.mem_membersOf_deleteGroupMembers]
    change _ ↔ userId ∈ (d.membersOf row.id).toFinset ∧ _ ∨ _
    rw [mem_toFinset, hid]
    simp only [true_and]
  rw [hset] at hstands
  exact hstands.reconcile services org reconciled

theorem follows_scimRemoveGroupMember (userId : JsString) :
    Follows groupAccount (GroupStands first org groupId) p
      (scimRemoveGroupMember services org groupId userId) (fun _ _ => True) [.removeMember userId] := by
  refine .write fun d h => ?_
  obtain ⟨row, hrequire, hid, -, -, -⟩ := h.outcome_requireGroup
  obtain ⟨d', hout, hstands⟩ := h.setMembers services [userId] [] (p.record.members.erase userId) [userId] (by
    intro other
    simp [and_comm])
  refine .inr ⟨rfl, (), d', ?_, hstands, trivial⟩
  unfold scimRemoveGroupMember
  rw [outcome_bind_ok hrequire, hid]
  rw [Directory.createGroupMembers_nil] at hout
  exact (outcome_bind_ok (outcome_modify _ d)).trans hout

theorem GroupStands.isMember {row : Group} (horg : row.organizationId = org)
    (hp : p = d.groupStandingOf row) (userId : JsString) :
    (d.findMembership org userId).isSome = p.isMember userId := by
  rw [hp, ← horg]
  rfl

theorem follows_scimAddGroupMember (userId : JsString) :
    Follows groupAccount (GroupStands first org groupId) p
      (scimAddGroupMember services org groupId userId) (fun _ _ => True) [.addMember userId] := by
  refine .write fun d h => ?_
  obtain ⟨row, hrequire, hid, horg, -, hp⟩ := h.outcome_requireGroup
  have hmember := GroupStands.isMember horg hp userId
  have hcurrent : userId ∈ d.membersOf groupId ↔ userId ∈ p.record.members := by
    rw [hp, ← hid]
    exact mem_toFinset.symm
  unfold scimAddGroupMember
  rw [outcome_bind_ok hrequire, outcome_get_bind, hid]
  change (∃ thrown, (if p.isMember userId = false then some _ else none) = some thrown ∧ _) ∨
    (if p.isMember userId = false then some _ else none) = none ∧ _
  cases hfound : p.isMember userId with
  | false =>
    rw [hfound, Option.isSome_eq_false_iff] at hmember
    rw [if_pos hmember]
    exact .inl ⟨_, rfl, rfl⟩
  | true =>
    rw [hfound] at hmember
    have hknown : ¬ (d.findMembership org userId).isNone = true := by
      rw [← Option.not_isSome, hmember]
      exact Bool.false_ne_true
    rw [if_neg hknown]
    refine .inr ⟨rfl, ?_⟩
    by_cases hin : userId ∈ p.record.members
    · refine ⟨(), d, ?_, ?_, trivial⟩
      · rw [outcome_get_bind, if_neg (not_not_intro (hcurrent.mpr hin))]
        rfl
      · change GroupStands first org groupId d
          { p with record := { p.record with members := insert userId p.record.members } }
        rw [Finset.insert_eq_self.mpr hin]
        exact h
    · obtain ⟨d', hout, hstands⟩ := h.setMembers services [] [userId] (insert userId p.record.members) [userId] (by
        intro other
        simp [or_comm])
      refine ⟨(), d', ?_, hstands, trivial⟩
      rw [Directory.deleteGroupMembers_nil] at hout
      rw [outcome_get_bind, if_pos (hin ∘ hcurrent.mp)]
      exact (outcome_bind_ok (outcome_modify _ d)).trans hout

theorem GroupStands.unknown {row : Group} (horg : row.organizationId = org)
    (hp : p = d.groupStandingOf row) (userIds : List JsString) :
    (userIds.eraseDups.filter fun id => (d.findMembership org id).isNone) = p.unknown userIds := by
  refine filter_congr fun id _ => ?_
  rw [← GroupStands.isMember horg hp, Option.not_isSome]

/-- Setting members follows its account. -/
theorem follows_scimSetGroupMembers (userIds : List JsString) :
    Follows groupAccount (GroupStands first org groupId) p
      (scimSetGroupMembers services org groupId userIds) (fun _ _ => True) [.setMembers userIds] := by
  refine .write fun d h => ?_
  obtain ⟨row, hrequire, hid, horg, -, hp⟩ := h.outcome_requireGroup
  have hcurrent (userId : JsString) : userId ∈ d.membersOf groupId ↔ userId ∈ p.record.members := by
    rw [hp, ← hid]
    exact mem_toFinset.symm
  unfold scimSetGroupMembers
  rw [outcome_bind_ok hrequire, outcome_get_bind, hid]
  simp only [GroupStands.unknown horg hp]
  change (∃ thrown, (if p.unknown userIds ≠ [] then some _ else none) = some thrown ∧ _) ∨
    (if p.unknown userIds ≠ [] then some _ else none) = none ∧ _
  by_cases hunknown : p.unknown userIds ≠ []
  · rw [if_pos hunknown, if_pos hunknown]
    exact .inl ⟨_, rfl, rfl⟩
  · rw [if_neg hunknown, if_neg hunknown]
    refine .inr ⟨rfl, ?_⟩
    have hset (userId : JsString) : userId ∈ userIds.toFinset ↔
        userId ∈ p.record.members ∧ userId ∉ (d.membersOf groupId).filter (· ∉ userIds.eraseDups) ∨
          userId ∈ userIds.eraseDups.filter (· ∉ d.membersOf groupId) := by
      simp only [mem_toFinset, mem_filter, mem_eraseDups, hcurrent, decide_eq_true_eq]
      tauto
    by_cases hchange : userIds.eraseDups.filter (· ∉ d.membersOf groupId) ≠ [] ∨
        (d.membersOf groupId).filter (· ∉ userIds.eraseDups) ≠ []
    · obtain ⟨d', hout, hstands⟩ := h.setMembers services _ _ userIds.toFinset
        (userIds.eraseDups.filter (· ∉ d.membersOf groupId) ++ (d.membersOf groupId).filter (· ∉ userIds.eraseDups))
        hset
      refine ⟨(), d', ?_, hstands, trivial⟩
      rw [if_pos hchange]
      exact (outcome_bind_ok (outcome_set d _)).trans hout
    · obtain ⟨hadded, hremoved⟩ := not_or.mp hchange
      have hsame : userIds.toFinset = p.record.members := by
        ext userId
        rw [hset, not_not.mp hadded, not_not.mp hremoved]
        simp
      refine ⟨(), d, ?_, ?_, trivial⟩
      · rw [if_neg hchange]
        rfl
      · change GroupStands first org groupId d
          { p with record := { p.record with members := userIds.toFinset } }
        rw [hsame]
        exact h

/-! ## The writes that a group request asks for -/

variable (services : Services)

/-- The writes that a `members` attribute asks for. -/
def membersWrites (members : Option (Json JsString)) : List GroupWrite :=
  match members with
  | none => []
  | some members =>
    match listedMembers services members with
    | .error thrown => [.refuse thrown]
    | .ok ids => [.setMembers ids]

/-- The writes that a `PUT` asks for. -/
def putGroupWrites (group : ScimGroupRecord) (displayName : JsString) (body : Json JsString) : List GroupWrite :=
  (if displayName ≠ group.name then [.rename displayName] else []) ++
    ((if (scimAttr services.toLanguage body "externalId").isSome ∧ externalIdFrom services body ≠ group.externalId then
        [.externalId (externalIdFrom services body)]
      else []) ++ membersWrites services (scimAttr services.toLanguage body "members"))

/-- The writes that an operation without a path asks for. -/
def recordWrites (record : Json JsString) : List GroupWrite :=
  (match filled (scimAttr services.toLanguage record "displayName") with
    | some displayName => [.rename displayName]
    | none => []) ++
    ((if (scimAttr services.toLanguage record "externalId").isSome then
        [.externalId (externalIdFrom services record)]
      else []) ++ membersWrites services (scimAttr services.toLanguage record "members"))

/-- The writes that an operation on `members` asks for. -/
def memberOpWrites (op : ScimPatchOp) (filter : Option (JsString × JsString)) : List GroupWrite :=
  match filter with
  | some (name, value) =>
    if name ≠ js "value" ∨ op.op ≠ .remove then
      [.refuse (scimError 400 "members filters support remove by [value eq \"<user id>\"] only."
        (some .invalidPath))]
    else [.removeMember value]
  | none =>
    if op.op ≠ .add ∧ op.value.isNone then [.setMembers []]
    else
      match memberIdsFrom services op.value with
      | .error thrown => [.refuse thrown]
      | .ok ids =>
        match op.op with
        | .add => ids.map .addMember
        | .replace => [.setMembers ids]
        | .remove => ids.map .removeMember

/-- The writes that one operation of a `PATCH` asks for. -/
def patchGroupWrites (op : ScimPatchOp) : List GroupWrite :=
  match op.path with
  | none =>
    match op.objectValue with
    | .error thrown => [.refuse thrown]
    | .ok record => recordWrites services record
  | some path =>
    if path.base = js "displayname" then
      match if op.op = .remove then none else filled op.value with
      | none => [.refuse (scimError 400 "displayName must be replaced with a non-empty string." (some .invalidValue))]
      | some displayName => [.rename displayName]
    else if path.base = js "externalid" then
      [.externalId (if op.op = .remove then none else filled op.value)]
    else if path.base = js "members" then memberOpWrites services op path.filter
    else []

variable {services} {first d : Directory} {org groupId : JsString} {p : GroupStanding}

theorem follows_membersWrites (members : Option (Json JsString)) :
    Follows groupAccount (GroupStands first org groupId) p
      (match members with
        | none => pure ()
        | some members => do
          let ids ← .ofExcept (listedMembers services members)
          scimSetGroupMembers services org groupId ids)
      (fun _ _ => True) (membersWrites services members) := by
  unfold membersWrites
  cases members with
  | none => exact .answer trivial
  | some members =>
    dsimp only
    cases listedMembers services members with
    | error => exact .refuse rfl
    | ok ids => exact follows_scimSetGroupMembers ids

theorem follows_externalIdWrites (given : Prop) [Decidable given] (externalId : Option JsString)
    (members : Option (Json JsString)) :
    Follows groupAccount (GroupStands first org groupId) p
      (do
        if given then scimSetGroupExternalId org groupId externalId
        match members with
        | none => return
        | some members =>
          let ids ← .ofExcept (listedMembers services members)
          scimSetGroupMembers services org groupId ids)
      (fun _ _ => True) ((if given then [.externalId externalId] else []) ++ membersWrites services members) := by
  by_cases hgiven : given
  · rw [if_pos hgiven, if_pos hgiven]
    exact (follows_scimSetGroupExternalId externalId).bind fun _ _ => follows_membersWrites members
  · rw [if_neg hgiven, if_neg hgiven]
    exact follows_membersWrites members

theorem follows_putGroupAttributes (hid : p.record.id = groupId) (displayName : JsString) (body : Json JsString) :
    Follows groupAccount (GroupStands first org groupId) p
      (putGroupAttributes services org p.record displayName body) (fun _ _ => True)
      (putGroupWrites services p.record displayName body) := by
  unfold putGroupAttributes putGroupWrites
  rw [hid]
  by_cases hname : displayName ≠ p.record.name
  · rw [if_pos hname, if_pos hname]
    exact (follows_scimRenameGroup displayName).bind fun _ _ => follows_externalIdWrites _ _ _
  · rw [if_neg hname, if_neg hname]
    exact follows_externalIdWrites _ _ _

theorem follows_patchGroupAttributes (record : Json JsString) :
    Follows groupAccount (GroupStands first org groupId) p
      (patchGroupAttributes services org groupId record) (fun _ _ => True) (recordWrites services record) := by
  unfold patchGroupAttributes recordWrites
  cases filled (scimAttr services.toLanguage record "displayName") with
  | none => exact follows_externalIdWrites _ _ _
  | some displayName => exact (follows_scimRenameGroup displayName).bind fun _ _ => follows_externalIdWrites _ _ _

theorem follows_patchGroupMembers (op : ScimPatchOp) (filter : Option (JsString × JsString)) :
    Follows groupAccount (GroupStands first org groupId) p
      (patchGroupMembers services org groupId op filter) (fun _ _ => True)
      (memberOpWrites services op filter) := by
  unfold patchGroupMembers memberOpWrites
  cases filter with
  | some condition =>
    obtain ⟨name, value⟩ := condition
    dsimp only
    by_cases hother : name ≠ js "value" ∨ op.op ≠ .remove
    · rw [if_pos hother, if_pos hother]
      exact .refuse rfl
    · rw [if_neg hother, if_neg hother]
      exact follows_scimRemoveGroupMember value
  | none =>
    by_cases hclear : op.op ≠ .add ∧ op.value.isNone
    · rw [if_pos hclear, if_pos hclear]
      exact follows_scimSetGroupMembers []
    · rw [if_neg hclear, if_neg hclear]
      cases memberIdsFrom services op.value with
      | error => exact .refuse rfl
      | ok ids =>
        dsimp only
        cases op.op with
        | add =>
          rw [List.map_eq_flatMap]
          exact .forM (fun _ id => follows_scimAddGroupMember id) ids
        | replace => exact follows_scimSetGroupMembers ids
        | remove =>
          change Follows _ _ _ _ _ (ids.map GroupWrite.removeMember)
          rw [List.map_eq_flatMap]
          exact .forM (fun _ id => follows_scimRemoveGroupMember id) ids

theorem follows_applyGroupPatchOp (op : ScimPatchOp) :
    Follows groupAccount (GroupStands first org groupId) p
      (applyGroupPatchOp services org groupId op) (fun _ _ => True) (patchGroupWrites services op) := by
  unfold applyGroupPatchOp patchGroupWrites
  cases op.path with
  | none =>
    cases op.objectValue with
    | error => exact .refuse rfl
    | ok record => exact follows_patchGroupAttributes record
  | some path =>
    dsimp only
    by_cases hdisplay : path.base = js "displayname"
    · rw [if_pos hdisplay, if_pos hdisplay]
      cases (if op.op = .remove then none else filled op.value) with
      | none => exact .refuse rfl
      | some displayName => exact follows_scimRenameGroup displayName
    rw [if_neg hdisplay, if_neg hdisplay]
    by_cases hext : path.base = js "externalid"
    · rw [if_pos hext, if_pos hext]
      exact follows_scimSetGroupExternalId _
    rw [if_neg hext, if_neg hext]
    by_cases hmems : path.base = js "members"
    · rw [if_pos hmems, if_pos hmems]
      exact follows_patchGroupMembers op path.filter
    rw [if_neg hmems, if_neg hmems]
    exact .answer trivial

theorem follows_applyGroupPatchOps (operations : List ScimPatchOp) :
    Follows groupAccount (GroupStands first org groupId) p
      (operations.forM (applyGroupPatchOp services org groupId)) (fun _ _ => True)
      (operations.flatMap (patchGroupWrites services)) :=
  .forM (fun _ op => follows_applyGroupPatchOp op) operations

end Onecli.Scim
