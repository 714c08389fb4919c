import Onecli.Scim.Users

/-!
# The user services follow the account
-/

namespace Onecli.Scim

open Api (JsString unit trim)
open Onecli.Directory (MemberStatus)
open Utf16 (js)
open Attempt List Bool

variable {services : Services} {first d : Directory} {org userId : JsString} {p : Standing}

theorem Directory.Changes.updateUser (d : Directory) (userId : JsString) (change : User → User)
    (hid : ∀ user, (change user).id = user.id) :
    d.Changes userId (fun member => member) (fun user => if user.id = userId then change user else user) (d.updateUser userId change) where
  members := (map_id d.members).symm
  users := rfl
  groups := rfl
  groupMembers := rfl
  organization _ := rfl
  user _ := rfl
  owner _ := Iff.rfl
  id user := by
    split
    · exact hid user
    · rfl
  email user huser := by rw [if_neg huser]

theorem Stands.updateProfile (h : Stands first org userId d p) (patch : MemberProfilePatch) :
    (updateMemberProfile services org userId patch).outcome d = (.ok (), d.updateUser userId (patch.apply services)) ∧
      Stands first org userId (d.updateUser userId (patch.apply services)) { p with
        name := patch.displayName.getD p.name
        nameComponents := (patch.nameComponents.map services.jsonb).getD p.nameComponents } := by
  obtain ⟨member, user, hmember, huser, rfl, hstands⟩ :=
    h.change (.updateUser d userId (patch.apply services) (fun _ => rfl)) (fun _ _ _ _ _ => ⟨rfl, rfl⟩) (fun _ huser => if_neg huser)
  constructor
  · rw [updateMemberProfile, outcome_get_bind, hmember]
    rfl
  · rw [if_pos (Directory.findUser_id huser)] at hstands
    exact hstands

theorem follows_updateMemberProfile (patch : MemberProfilePatch) :
    Follows (userAccount services) (Stands first org userId) p
      (updateMemberProfile services org userId patch) (fun _ _ => True) [.profile patch] := by
  refine .write fun d h => ?_
  obtain ⟨hout, hstands⟩ := h.updateProfile patch
  exact .inr ⟨rfl, (), _, hout, hstands, trivial⟩

theorem Directory.Changes.updateMembership (d : Directory) (org userId : JsString) (status : MemberStatus) :
    d.Changes userId
      (fun member => if member.organizationId = org ∧ member.userId = userId then
        { member with status := status } else member)
      (fun user => user)
      (d.updateMembership org userId fun member => { member with status := status }) where
  members := rfl
  users := (map_id d.users).symm
  groups := rfl
  groupMembers := rfl
  organization member := by split <;> rfl
  user member := by split <;> rfl
  owner member := by split <;> rfl
  id _ := rfl
  email _ _ := rfl

theorem Directory.Changes.assignRoles (services : Services) (d : Directory) (userId : JsString) (userIds : List JsString)
    (org : JsString) :
    d.Changes userId
      (fun member => { member with role := reconciledRole services d org userIds member })
      (fun user => user) (d.assignRoles (reconciledRole services d org userIds)) where
  members := rfl
  users := (map_id d.users).symm
  groups := rfl
  groupMembers := rfl
  organization _ := rfl
  user _ := rfl
  owner member := by
    unfold reconciledRole
    split
    · rename_i hmapped
      cases hwant : services.resolveRolesForUsers d org userIds member.userId with
      | none => exact Iff.rfl
      | some want =>
        refine iff_of_false ?_ hmapped.2.2.1
        cases want <;> exact Directory.Role.noConfusion
    · exact Iff.rfl
  id _ := rfl
  email _ _ := rfl

theorem Directory.Changes.renameUser (d : Directory) (userId email : JsString) :
    d.Changes userId (fun member => if member.userId = userId then { member with userEmail := email } else member)
      (fun user => if user.id = userId then { user with email := email } else user) (d.renameUser userId email) where
  members := rfl
  users := rfl
  groups := rfl
  groupMembers := rfl
  organization member := by split <;> rfl
  user member := by split <;> rfl
  owner member := by split <;> rfl
  id user := by split <;> rfl
  email user huser := by rw [if_neg huser]

theorem Directory.findMembership_of_sole {d : Directory} {member other : OrganizationMember} {organization : JsString}
    (hmember : d.findMembership org userId = some member) (hsole : d.membershipCount userId = 1)
    (hother : d.findMembership organization userId = some other) : organization = org := by
  have hmem {o : JsString} {row : OrganizationMember} (h : d.findMembership o userId = some row) :
      row ∈ d.members.filter fun row => row.userId = userId :=
    mem_filter.mpr ⟨mem_of_find?_eq_some h, decide_eq_true (Directory.findMembership_key h).2⟩
  obtain ⟨row, hrow⟩ := length_eq_one_iff.mp hsole
  have hsame : other = member := by
    rw [hrow] at hmem
    rw [mem_singleton.mp (hmem hmember), mem_singleton.mp (hmem hother)]
  rw [← (Directory.findMembership_key hother).1, hsame]
  exact (Directory.findMembership_key hmember).1

theorem Stands.rename (h : Stands first org userId d p) (hsole : p.sole = true) (email : JsString) :
    Stands first org userId (d.renameUser userId email) { p with email := email, userEmail := email } := by
  have hothers (organization other : JsString) (row : OrganizationMember)
      (hother : ¬(organization = org ∧ other = userId))
      (hfound : d.findMembership organization other = some row) : row.userId ≠ userId := by
    intro hsame
    obtain ⟨member, user, hmember, -, rfl⟩ := h.standing
    obtain rfl : other = userId := (Directory.findMembership_key hfound).2.symm.trans hsame
    exact hother ⟨Directory.findMembership_of_sole hmember (of_decide_eq_true hsole) hfound, rfl⟩
  obtain ⟨member, user, hmember, huser, rfl, hstands⟩ :=
    h.change (.renameUser d userId email)
      (by
        intro organization other row hother hfound
        rw [if_neg (hothers organization other row hother hfound)]
        exact ⟨rfl, rfl⟩)
      (fun _ huser => if_neg huser)
  rw [if_pos (Directory.findUser_id huser), if_pos (Directory.findMembership_key hmember).2] at hstands
  exact hstands

theorem Stands.outcome_renameMemberEmail (services : Services) (h : Stands first org userId d p) (raw : JsString) :
    (renameMemberEmail services org userId raw).outcome d =
      if unit '@' ∉ emailOf services raw then
        (.error (.service .badRequest (js "userName must be an email address")), d)
      else if p.userEmail = emailOf services raw then (.ok (), d)
      else if p.sole = false then
        (.error (.service .badRequest
          (js "userName cannot be changed for a user who belongs to multiple organizations.")), d)
      else if p.taken (emailOf services raw) then
        (.error (.service .conflict (js "A user with this userName already exists.")), d)
      else (.ok (), d.renameUser userId (emailOf services raw)) := by
  obtain ⟨member, user, hmember, huser, rfl⟩ := h.standing
  unfold renameMemberEmail normalizeEmail
  by_cases hat : unit '@' ∈ emailOf services raw
  · rw [if_neg (not_not_intro hat)]
    simp only [show services.toLowerCase (trim raw) = emailOf services raw from rfl, if_pos hat]
    rw [outcome_get_bind]
    simp only [hmember, huser]
    change _ = if user.email = emailOf services raw then _ else if decide (d.membershipCount userId = 1) = false then _
      else if d.emailTaken userId (emailOf services raw) = true then _ else _
    by_cases hsame : user.email = emailOf services raw
    · simp only [if_pos hsame]
      rfl
    · simp only [if_neg hsame]
      by_cases hsole : d.membershipCount userId = 1
      · simp only [hsole, ne_eq, not_true_eq_false, decide_true, true_eq_false, ↓reduceIte]
        by_cases htaken : d.emailTaken userId (emailOf services raw) = true
        · simp only [if_pos htaken]
          rfl
        · simp only [if_neg htaken]
          rfl
      · simp only [hsole, ne_eq, not_false_eq_true, decide_false, ↓reduceIte]
        rfl
  · rw [if_pos hat]
    simp only [show services.toLowerCase (trim raw) = emailOf services raw from rfl, if_neg hat]
    rfl

theorem follows_applyUserName (raw : JsString) :
    Follows (userAccount services) (Stands first org userId) p
      (applyUserName services org p.member raw) (fun changed p' => changed = false → p' = p)
      [.userName raw] := by
  refine .write fun d h => ?_
  have huserId : p.member.userId = userId := h.sameUser
  have hrename := h.outcome_renameMemberEmail services raw
  have hout : (applyUserName services org p.member raw).outcome d =
      if emailOf services raw = p.email then (.ok false, d)
      else match (renameMemberEmail services org userId raw).outcome d with
        | (.ok (), d') => (.ok true, d')
        | (.error thrown, d') => (.error (asMutability thrown), d') := by
    by_cases hemail : emailOf services raw = p.email
    · rw [if_pos hemail]
      exact congrArg (fun m => outcome m d) (if_pos hemail)
    · rw [if_neg hemail]
      refine (congrArg (fun m => outcome m d) (if_neg hemail)).trans ?_
      rw [huserId]
      obtain ⟨r, d', hr⟩ : ∃ r d', (renameMemberEmail services org userId raw).outcome d = (r, d') := ⟨_, _, rfl⟩
      rw [hr]
      cases r with
      | ok => exact outcome_bind_ok (outcome_tryCatch_ok hr)
      | error => exact outcome_bind_error (outcome_tryCatch_error hr)
  change (∃ thrown, renameVerdict p (emailOf services raw) = some thrown ∧ _) ∨
    renameVerdict p (emailOf services raw) = none ∧ ∃ changed d', _ ∧
      Stands first org userId d' (if emailOf services raw = p.email ∨ p.userEmail = emailOf services raw
        then p else { p with email := emailOf services raw, userEmail := emailOf services raw }) ∧
      (changed = false → (if emailOf services raw = p.email ∨ p.userEmail = emailOf services raw
        then p else { p with email := emailOf services raw, userEmail := emailOf services raw }) = p)
  unfold renameVerdict
  by_cases hemail : emailOf services raw = p.email
  · rw [if_pos hemail] at hout ⊢
    rw [if_pos (.inl hemail)]
    exact .inr ⟨rfl, false, d, hout, h, fun _ => rfl⟩
  rw [if_neg hemail] at hout ⊢
  by_cases hat : unit '@' ∉ emailOf services raw
  · rw [if_pos hat] at hrename ⊢
    rw [hrename] at hout
    exact .inl ⟨_, rfl, hout⟩
  rw [if_neg hat] at hrename ⊢
  by_cases hsame : p.userEmail = emailOf services raw
  · rw [if_pos hsame] at hrename ⊢
    rw [if_pos (.inr hsame)]
    rw [hrename] at hout
    exact .inr ⟨rfl, true, d, hout, h, fun _ => rfl⟩
  rw [if_neg hsame] at hrename ⊢
  rw [if_neg (not_or.mpr ⟨hemail, hsame⟩)]
  by_cases hsole : p.sole = false
  · rw [if_pos hsole] at hrename ⊢
    rw [hrename] at hout
    exact .inl ⟨_, rfl, hout⟩
  rw [if_neg hsole] at hrename ⊢
  by_cases htaken : p.taken (emailOf services raw) = true
  · rw [if_pos htaken] at hrename ⊢
    rw [hrename] at hout
    exact .inl ⟨_, rfl, hout⟩
  rw [if_neg htaken] at hrename ⊢
  rw [hrename] at hout
  exact .inr ⟨rfl, true, _, hout, h.rename (not_eq_false _ ▸ hsole) _, nofun⟩

theorem Stands.setStatus (h : Stands first org userId d p) (status : MemberStatus) :
    Stands first org userId
      (d.updateMembership org userId fun member => { member with status := status })
      { p with status := status } := by
  obtain ⟨member, user, hmember, -, rfl, hstands⟩ :=
    h.change (.updateMembership d org userId status)
      (by
        intro organization other row hother hfound
        obtain ⟨rfl, rfl⟩ := Directory.findMembership_key hfound
        rw [if_neg hother]
        exact ⟨rfl, rfl⟩)
      (fun _ _ => rfl)
  rw [if_pos (Directory.findMembership_key hmember)] at hstands
  exact hstands

theorem Stands.assignRoles (h : Stands first org userId d p) (organization : JsString)
    (userIds : List JsString) :
    Stands first org userId (d.assignRoles (reconciledRole services d organization userIds)) p := by
  obtain ⟨member, user, -, -, rfl, hstands⟩ :=
    h.change (.assignRoles services d userId userIds organization) (fun _ _ _ _ _ => ⟨rfl, rfl⟩) (fun _ _ => rfl)
  exact hstands

/-- `reconcileMemberRoles` leaves a member where the member stands. -/
theorem Stands.reconcile (services : Services) (h : Stands first org userId d p) (organization : JsString)
    (userIds : List JsString) :
    ∃ d', (reconcileMemberRoles services organization userIds).outcome d = (.ok (), d') ∧
      Stands first org userId d' p := by
  unfold reconcileMemberRoles
  cases services.entitled with
  | true => exact ⟨_, rfl, h.assignRoles organization userIds⟩
  | false => exact ⟨d, rfl, h⟩

theorem Stands.reactivate (services : Services) (h : Stands first org userId d p) (hstatus : p.status = .suspended) :
    ∃ d', (reactivateMember services org userId).outcome d = (.ok (), d') ∧
      Stands first org userId d' { p with status := .active } := by
  obtain ⟨d', hout, hstands⟩ := (h.setStatus .active).reconcile services org [userId]
  refine ⟨d', ?_, hstands⟩
  obtain ⟨member, user, hmember, -, rfl⟩ := h.standing
  have hnot : ¬ member.status ≠ .suspended := not_not_intro hstatus
  rw [reactivateMember, outcome_get_bind, hmember]
  refine (congrArg (fun m => outcome m d) (if_neg hnot)).trans ?_
  rw [reinstateMember, outcome_get_bind, hmember]
  simp only [if_neg hnot]
  exact hout

/-- The actor is the organization's owner. -/
theorem outcome_resolveScimActor (organization : JsString) (d : Directory) :
    (resolveScimActor organization).outcome d = match d.actor organization with
      | none => (.error (.service .notFound (js "Organization owner not found")), d)
      | some actor => (.ok actor, d) := by
  rw [resolveScimActor, outcome_get_bind, Directory.actor]
  cases d.members.find? fun member => member.organizationId = organization ∧ member.role = .owner with
  | none => rfl
  | some => rfl

theorem outcome_deactivateMember {member : OrganizationMember} {actor : JsString}
    (hmember : d.findMembership org userId = some member) (hstatus : member.status ≠ .suspended) :
    (deactivateMember org userId actor).outcome d =
      if member.role = .owner then
        (.error (.service .badRequest
          (js "The organization owner cannot be deactivated. Transfer ownership first.")), d)
      else if userId = actor then (.error (.service .badRequest (js "You cannot suspend yourself")), d)
      else (.ok (), d.updateMembership org userId fun member => { member with status := .suspended }) := by
  rw [deactivateMember, outcome_get_bind, hmember]
  simp only [if_neg hstatus]
  by_cases howner : member.role = .owner
  · simp only [howner, ↓reduceIte]
    rfl
  · simp only [howner, ↓reduceIte]
    by_cases hself : userId = actor
    · simp only [suspendMember, hself, ↓reduceIte]
      rfl
    · simp only [suspendMember, hself, ↓reduceIte]
      rw [outcome_get_bind, hmember]
      simp only [howner, if_neg hstatus, ↓reduceIte]
      rfl

theorem Stands.deactivate (h : Stands first org userId d p) (hstatus : p.status ≠ .suspended) :
    (resolveScimActor org >>= deactivateMember org userId).outcome d = match deactivateVerdict p with
      | some thrown => (.error thrown, d)
      | none => (.ok (), d.updateMembership org userId fun member => { member with status := .suspended }) := by
  obtain ⟨member, user, hmember, -, hp⟩ := h.standing
  have hid : p.userId = userId := h.sameUser
  have howns : p.owner = decide (member.role = .owner) := congrArg Standing.owner hp
  have hactor : p.actor = d.actor org := congrArg Standing.actor hp
  have hstatus' : member.status ≠ .suspended := (congrArg Standing.status hp).symm.trans_ne hstatus
  have hresolve := outcome_resolveScimActor org d
  unfold deactivateVerdict
  rw [if_neg hstatus, hactor]
  cases hfound : d.actor org with
  | none =>
    rw [hfound] at hresolve
    exact outcome_bind_error hresolve
  | some actor =>
    rw [hfound] at hresolve
    rw [outcome_bind_ok hresolve, outcome_deactivateMember hmember hstatus']
    by_cases howner : member.role = .owner
    · simp only [howns, howner, decide_true, ↓reduceIte]
    · simp only [howns, howner, decide_false, false_eq_true, ↓reduceIte, hid]
      by_cases hself : userId = actor <;> simp only [hself, ↓reduceIte]

theorem follows_applyActive (active : Bool) :
    Follows (userAccount services) (Stands first org userId) p
      (applyActive services org p.member active) (fun changed p' => changed = false → p' = p)
      [.active active] := by
  refine .write fun d h => ?_
  have huserId : p.member.userId = userId := h.sameUser
  change (∃ thrown, (userAccount services).verdict p (.active active) = some thrown ∧ _) ∨
    (userAccount services).verdict p (.active active) = none ∧ ∃ changed d', _ ∧
      Stands first org userId d' { p with status := if active then .active else .suspended } ∧
      (changed = false → { p with status := if active then .active else .suspended } = p)
  cases hstatus : p.status with
  | active =>
    have hcurrent : decide (p.member.status ≠ .suspended) = true := by simp [Standing.member, hstatus]
    cases active with
    | true =>
      rw [← hstatus]
      refine .inr ⟨rfl, false, d, ?_, h, fun _ => rfl⟩
      simp only [applyActive, hcurrent, ↓reduceIte]
      rfl
    | false =>
      have hsuspended : p.status ≠ .suspended := by simp [hstatus]
      have hout : (applyActive services org p.member false).outcome d =
          ((resolveScimActor org >>= deactivateMember org userId) >>=
            fun _ => pure true).outcome d := by
        simp only [applyActive, hcurrent, huserId, false_eq_true, ↓reduceIte]
        exact congrArg (fun m => outcome m d) (bind_assoc _ _ _).symm
      have hdeactivate := h.deactivate hsuspended
      change (∃ thrown, deactivateVerdict p = some thrown ∧ _) ∨ deactivateVerdict p = none ∧ _
      cases hverdict : deactivateVerdict p with
      | some thrown =>
        rw [hverdict] at hdeactivate
        exact .inl ⟨thrown, rfl, hout.trans (outcome_bind_error hdeactivate)⟩
      | none =>
        rw [hverdict] at hdeactivate
        exact .inr ⟨rfl, true, _, hout.trans (outcome_bind_ok hdeactivate), h.setStatus .suspended, nofun⟩
  | suspended =>
    have hcurrent : decide (p.member.status ≠ .suspended) = false := by simp [Standing.member, hstatus]
    cases active with
    | true =>
      obtain ⟨d', hout, hstands⟩ := h.reactivate services hstatus
      refine .inr ⟨rfl, true, d', ?_, hstands, nofun⟩
      simp only [applyActive, hcurrent, huserId, true_eq_false, ↓reduceIte]
      exact outcome_bind_ok hout
    | false =>
      rw [← hstatus]
      refine .inr ⟨if_pos hstatus, false, d, ?_, h, fun _ => rfl⟩
      simp only [applyActive, hcurrent, ↓reduceIte]
      rfl

/-! ## The writes that a user request asks for

A request of the user routes asks for a list of writes, which is read off its body alone, and carries it out in order.
-/

variable (services : Services)

/-- The writes that one attribute of a `PATCH` asks for. -/
def attributeWrites (base : JsString) (op : PatchKind) (value : Option (Json JsString)) : List UserWrite :=
  if base = js "username" then
    match patchedUserName op value with
    | none => [.refuse (scimError 400 "userName is required." (some .invalidValue))]
    | some userName => [.userName userName]
  else if base = js "active" then
    match patchedActive services op value with
    | .error thrown => [.refuse thrown]
    | .ok active => [.active active]
  else if base = js "displayname" then [.profile ⟨some (if op = .remove then none else filled value), none⟩]
  else if base = js "name" then [.profile ⟨none, some (patchedComponents op value)⟩]
  else if js "name." <+: base then
    match CANONICAL_NAME_KEYS (base.drop 5) with
    | none => []
    | some canonical => [.component canonical op value]
  else []

/-- The writes that one member of a value without a path asks for. -/
def entryWrites (op : PatchKind) (entry : JsString × Json JsString) : List UserWrite :=
  match parseScimPath entry.1 with
  | .error thrown => [.refuse thrown]
  | .ok path => attributeWrites services path.base op (some entry.2)

/-- The writes that one operation of a `PATCH` asks for. -/
def patchUserWrites (op : ScimPatchOp) : List UserWrite :=
  match op.path with
  | some path => attributeWrites services path.base op.op op.value
  | none =>
    match op.objectValue with
    | .error thrown => [.refuse thrown]
    | .ok value => (entries value).flatMap (entryWrites services op.op)

/-- The writes that the `active` of a `PUT` asks for. -/
def activeWrites (body : Json JsString) : List UserWrite :=
  match activeFrom services body with
  | .error thrown => [.refuse thrown]
  | .ok none => []
  | .ok (some active) => [.active active]

/-- The writes that a `PUT` asks for. -/
def putUserWrites (member : DirectoryMember) (userName : JsString) (body : Json JsString) : List UserWrite :=
  [.userName userName] ++
    ((if (putProfile services member body).given then [.profile (putProfile services member body)] else []) ++
      activeWrites services body)

variable {services} {first d : Directory} {org userId : JsString} {p : Standing}

/-- A `PATCH` knows its member. -/
def Current (userId : JsString) (state : PatchState) (p : Standing) : Prop :=
  state.current = p.member ∧ p.userId = userId

/-- A refresh writes nothing. -/
theorem follows_refresh :
    Follows (userAccount services) (Stands first org userId) p (refresh org userId)
      (Current userId) [] := by
  intro d h
  have hread : (requireMember org userId).outcome d = (.ok p.member, d) := by
    rw [requireMember, outcome_get_bind, h.member]
    rfl
  refine ⟨⟨p.member, true⟩, d, ?_, h, rfl, h.sameUser⟩
  rw [refresh, outcome_bind_ok hread]
  rfl

theorem follows_profile (patch : MemberProfilePatch) :
    Follows (userAccount services) (Stands first org userId) p
      (do
        updateMemberProfile services org userId patch
        refresh org userId)
      (Current userId) [.profile patch] :=
  (follows_updateMemberProfile patch).bind fun _ _ => follows_refresh

variable {state : PatchState}

theorem follows_changed {m : ScimM Bool} {w : UserWrite} (hstate : Current userId state p)
    (hm : Follows (userAccount services) (Stands first org userId) p m (fun changed p' => changed = false → p' = p) [w]) :
    Follows (userAccount services) (Stands first org userId) p
      (do
        if ← m then refresh org userId
        else return state)
      (Current userId) [w] := by
  refine .bind (v := []) hm fun changed hchanged => ?_
  cases changed with
  | true => exact follows_refresh
  | false =>
    refine .answer ?_
    rw [hchanged rfl]
    exact hstate

theorem follows_component (key : JsString) (op : PatchKind) (value : Option (Json JsString)) :
    Follows (userAccount services) (Stands first org userId) p
      (do
        updateMemberProfile services org userId ⟨none, some (withComponent p.nameComponents key op value)⟩
        refresh org userId)
      (Current userId) [.component key op value] := by
  have hwrite : Follows (userAccount services) (Stands first org userId) p
      (updateMemberProfile services org userId ⟨none, some (withComponent p.nameComponents key op value)⟩)
      (fun _ _ => True) [.component key op value] := by
    refine .write fun d h => ?_
    obtain ⟨hout, hstands⟩ := h.updateProfile ⟨none, some (withComponent p.nameComponents key op value)⟩
    exact .inr ⟨rfl, (), _, hout, hstands, trivial⟩
  exact hwrite.bind fun _ _ => follows_refresh

theorem follows_displayName (hstate : Current userId state p) (displayName : Option JsString) :
    Follows (userAccount services) (Stands first org userId) p
      (if displayName ≠ state.current.name then do
        updateMemberProfile services org userId ⟨some displayName, none⟩
        refresh org userId
      else return state)
      (Current userId) [.profile ⟨some displayName, none⟩] := by
  by_cases hsame : displayName ≠ state.current.name
  · rw [if_pos hsame]
    exact follows_profile _
  · rw [if_neg hsame]
    refine .write fun d h => .inr ⟨rfl, state, d, rfl, ?_⟩
    have hname : displayName = p.name := (not_not.mp hsame).trans (congrArg DirectoryMember.name hstate.1)
    subst hname
    exact ⟨h, hstate⟩

theorem follows_applyAttribute (hstate : Current userId state p) (base : JsString) (op : PatchKind)
    (value : Option (Json JsString)) :
    Follows (userAccount services) (Stands first org userId) p
      (applyAttribute services org state base op value) (Current userId)
      (attributeWrites services base op value) := by
  have hcurrentId : state.current.userId = userId := (congrArg DirectoryMember.userId hstate.1).trans hstate.2
  unfold applyAttribute attributeWrites
  rw [hcurrentId]
  by_cases husername : base = js "username"
  · rw [if_pos husername, if_pos husername]
    cases patchedUserName op value with
    | none => exact .refuse rfl
    | some userName =>
      rw [hstate.1]
      exact follows_changed hstate (follows_applyUserName userName)
  rw [if_neg husername, if_neg husername]
  by_cases hactive : base = js "active"
  · rw [if_pos hactive, if_pos hactive]
    cases patchedActive services op value with
    | error => exact .refuse rfl
    | ok active =>
      rw [hstate.1]
      exact follows_changed hstate (follows_applyActive active)
  rw [if_neg hactive, if_neg hactive]
  by_cases hdisplay : base = js "displayname"
  · rw [if_pos hdisplay, if_pos hdisplay]
    exact follows_displayName hstate _
  rw [if_neg hdisplay, if_neg hdisplay]
  by_cases hname : base = js "name"
  · rw [if_pos hname, if_pos hname]
    exact follows_profile _
  rw [if_neg hname, if_neg hname]
  by_cases hsub : js "name." <+: base
  · rw [if_pos hsub, if_pos hsub]
    cases CANONICAL_NAME_KEYS (base.drop 5) with
    | none => exact .answer hstate
    | some canonical =>
      rw [show state.current.nameComponents = p.nameComponents from congrArg DirectoryMember.nameComponents hstate.1]
      exact follows_component canonical op value
  rw [if_neg hsub, if_neg hsub]
  exact .answer hstate

theorem follows_patchUserOp (hstate : Current userId state p) (op : ScimPatchOp) :
    Follows (userAccount services) (Stands first org userId) p
      (patchUserOp services org state op) (Current userId) (patchUserWrites services op) := by
  unfold patchUserOp patchUserWrites
  cases op.path with
  | some => exact follows_applyAttribute hstate _ _ _
  | none =>
    cases op.objectValue with
    | error => exact .refuse rfl
    | ok value =>
      refine .foldlM (fun p state entry hstate => ?_) (entries value) hstate
      unfold entryWrites
      cases parseScimPath entry.1 with
      | error => exact .refuse rfl
      | ok => exact follows_applyAttribute hstate _ _ _

theorem follows_patchUserOps (hstate : Current userId state p) (operations : List ScimPatchOp) :
    Follows (userAccount services) (Stands first org userId) p
      (operations.foldlM (patchUserOp services org) state) (Current userId)
      (operations.flatMap (patchUserWrites services)) :=
  .foldlM (fun _ _ op hstate => follows_patchUserOp hstate op) operations hstate

theorem after_keeps {β : Type} (get : Standing → β) {w : UserWrite}
    (h : get ((userAccount services).give p w) = get p) : get ((userAccount services).after p [w]) = get p := by
  cases hw : (userAccount services).verdict p w with
  | some => rw [Account.after_refused _ hw]
  | none => rwa [Account.after_accepted _ hw, Account.after_nil]

theorem after_userName (services : Services) (p : Standing) (raw : JsString) :
    ((userAccount services).after p [.userName raw]).userId = p.userId ∧
      ((userAccount services).after p [.userName raw]).status = p.status := by
  constructor
  · refine after_keeps Standing.userId ?_
    simp only [userAccount]
    split <;> rfl
  · refine after_keeps Standing.status ?_
    simp only [userAccount]
    split <;> rfl

theorem after_profile (services : Services) (p : Standing) (patch : MemberProfilePatch) :
    ((userAccount services).after p [.profile patch]).userId = p.userId ∧
      ((userAccount services).after p [.profile patch]).status = p.status :=
  ⟨after_keeps Standing.userId rfl, after_keeps Standing.status rfl⟩

theorem applyActive_congr {member member' : DirectoryMember} (hid : member.userId = member'.userId)
    (hstatus : member.status = member'.status) (active : Bool) :
    applyActive services org member active = applyActive services org member' active := by
  unfold applyActive
  rw [hid, hstatus]

/-- The `active` of a `PUT`, applied to the member as it was loaded. -/
theorem follows_putActive {member : DirectoryMember} (hid : member.userId = p.userId) (hstatus : member.status = p.status)
    (body : Json JsString) (answer : Bool → Bool) :
    Follows (userAccount services) (Stands first org userId) p
      (do
        match ← .ofExcept (activeFrom services body) with
        | none => return answer false
        | some active =>
          let activeChanged ← applyActive services org member active
          return answer activeChanged)
      (fun _ _ => True) (activeWrites services body) := by
  unfold activeWrites
  cases activeFrom services body with
  | error => exact .refuse rfl
  | ok given =>
    cases given with
    | none => exact .answer trivial
    | some active =>
      change Follows _ _ _ (applyActive services org member active >>= fun changed => pure (answer changed)) _ _
      have hmember : applyActive services org member active =
          applyActive services org p.member active := applyActive_congr hid hstatus active
      rw [hmember]
      exact (follows_applyActive active).bind (v := []) fun _ _ => .answer trivial

theorem follows_putAttributes (userName : JsString) (body : Json JsString) (hid : p.userId = userId) :
    Follows (userAccount services) (Stands first org userId) p
      (putAttributes services org p.member userName body) (fun _ _ => True)
      (putUserWrites services p.member userName body) := by
  unfold putAttributes putUserWrites
  rw [show p.member.userId = userId from hid]
  refine (follows_applyUserName userName).bind fun changed _ => ?_
  obtain ⟨huser, hstatus⟩ := after_userName services p userName
  cases hgiven : (putProfile services p.member body).given with
  | true =>
    refine (follows_updateMemberProfile _).bind fun _ _ => ?_
    obtain ⟨huser', hstatus'⟩ :=
      after_profile services ((userAccount services).after p [.userName userName]) (putProfile services p.member body)
    exact follows_putActive (huser'.trans huser).symm (hstatus'.trans hstatus).symm body fun activeChanged =>
      true || activeChanged || changed
  | false =>
    exact follows_putActive huser.symm hstatus.symm body fun activeChanged => false || activeChanged || changed

end Onecli.Scim
