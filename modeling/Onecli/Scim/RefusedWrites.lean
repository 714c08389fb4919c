import Onecli.Scim.Refusals

/-!
# Refused writes of users
-/

namespace Onecli.Scim

open Api (JsString)
open Onecli.Directory (MemberStatus)
open Utf16 (js)
open Attempt Option List

variable {services : Services} {organizationId : JsString} {d first : Directory}

theorem Directory.member_eq (d : Directory) (organizationId userId : JsString) :
    d.member organizationId userId = (d.findMembership organizationId userId).bind fun membership =>
      (d.findUser userId).map fun user =>
        ⟨userId, membership.userEmail, user.name, membership.status, user.nameComponents⟩ := by
  unfold Directory.member
  cases hfound : d.findMembership organizationId userId with
  | none => rfl
  | some =>
    have hid := (Directory.findMembership_key hfound).2
    rw [bind_eq_bind, bind_some, hid]
    cases d.findUser userId with
    | none => rfl
    | some => rfl

variable {userId : JsString}

theorem member_congr {membership membership' : Option OrganizationMember} {user user' : Option User}
    (hseat : membership.map (fun row => (row.userId, row.userEmail, row.status)) = membership'.map fun row => (row.userId, row.userEmail, row.status))
    (huser : user.map (fun row => (row.name, row.nameComponents)) = user'.map fun row => (row.name, row.nameComponents)) :
    (membership.bind fun row => user.map fun found =>
        (⟨userId, row.userEmail, found.name, row.status, found.nameComponents⟩ : DirectoryMember)) =
      membership'.bind fun row => user'.map fun found =>
        ⟨userId, row.userEmail, found.name, row.status, found.nameComponents⟩ := by
  have hread (seats : Option OrganizationMember) (rows : Option User) :
      (seats.bind fun row => rows.map fun found =>
        (⟨userId, row.userEmail, found.name, row.status, found.nameComponents⟩ : DirectoryMember)) =
      (seats.map fun row => (row.userId, row.userEmail, row.status)).bind fun seat =>
        (rows.map fun row => (row.name, row.nameComponents)).map fun read =>
          ⟨userId, seat.2.1, read.1, seat.2.2, read.2⟩ := by
    cases seats with
    | none => rfl
    | some =>
      cases rows with
      | none => rfl
      | some => rfl
  rw [hread, hread, hseat, huser]

theorem Stands.same_iff {p p' : Standing} (hfirst : Stands first organizationId userId first p)
    (h : Stands first organizationId userId d p') : first.Same d ↔ p'.member = p.member := by
  constructor
  · intro hsame
    have hmember := hsame.members organizationId userId
    rw [h.member, hfirst.member] at hmember
    exact some.inj hmember
  · intro hmember
    refine ⟨fun org other => ?_, fun org groupId => ?_⟩
    · by_cases hkey : org = organizationId ∧ other = userId
      · obtain ⟨rfl, rfl⟩ := hkey
        rw [h.member, hfirst.member, hmember]
      · have hseat := h.members org other hkey
        have huser : (d.findUser other).map (fun user => (user.name, user.nameComponents)) =
            (first.findUser other).map fun user => (user.name, user.nameComponents) := by
          by_cases hother : other = userId
          · obtain ⟨row, user, -, huser, rfl⟩ := h.standing
            obtain ⟨row₀, user₀, -, huser₀, rfl⟩ := hfirst.standing
            rw [hother, huser, huser₀]
            exact congrArg some (Prod.ext (congrArg DirectoryMember.name hmember)
              (congrArg DirectoryMember.nameComponents hmember))
          · rw [h.users other hother]
        rw [Directory.member_eq, Directory.member_eq]
        exact member_congr hseat huser
    · unfold Directory.group Directory.findGroup Directory.membersOf
      rw [h.groups, h.groupMembers]

theorem outcome_requireMember_none (h : d.findMembership organizationId userId = none ∨ d.findUser userId = none) :
    (requireMember organizationId userId).outcome d = (.error (scimError 404 "User not found." none), d) := by
  have hmember : d.member organizationId userId = none := by
    rw [Directory.member_eq]
    rcases h with h | h
    · rw [h]
      rfl
    · rw [h]
      cases d.findMembership organizationId userId <;> rfl
  rw [requireMember, outcome_get_bind, hmember]
  rfl

/-- A membership that is read stands. -/
theorem Stands.here {membership : OrganizationMember} {user : User}
    (hmemb : d.findMembership organizationId userId = some membership) (huser : d.findUser userId = some user) :
    Stands d organizationId userId d (d.standingOf organizationId userId membership user) :=
  ⟨⟨membership, user, hmemb, huser, rfl⟩, fun _ _ => rfl, fun _ _ _ => rfl, rfl, rfl⟩

theorem atomic_member_iff {f : DirectoryMember → ScimM Unit} {X : Standing → Prop}
    (h : ∀ membership user, d.findMembership organizationId userId = some membership → d.findUser userId = some user → ((Refused ((f (d.standingOf organizationId userId membership user).member).outcome d).1 → d.Same ((f (d.standingOf organizationId userId membership user).member).outcome d).2) ↔ X (d.standingOf organizationId userId membership user))) :
    (Refused ((requireMember organizationId userId >>= f).outcome d).1 →
      d.Same ((requireMember organizationId userId >>= f).outcome d).2) ↔
      ∀ membership user, d.findMembership organizationId userId = some membership → d.findUser userId = some user →
        X (d.standingOf organizationId userId membership user) := by
  by_cases hthere : d.findMembership organizationId userId = none ∨ d.findUser userId = none
  · rw [outcome_bind_error (outcome_requireMember_none hthere)]
    refine iff_of_true ?_ ?_
    · rintro ⟨thrown, hthrown, hrefusal⟩
      cases hthrown
      exact absurd hrefusal (by decide)
    · intro membership user hmemb huser
      rw [hmemb, huser] at hthere
      rcases hthere with hthere | hthere <;> cases hthere
  · obtain ⟨hmemb, huser⟩ := not_or.mp hthere
    obtain ⟨membership, hmemb⟩ := ne_none_iff_exists'.mp hmemb
    obtain ⟨user, huser⟩ := ne_none_iff_exists'.mp huser
    have hread : (requireMember organizationId userId).outcome d =
        (.ok (d.standingOf organizationId userId membership user).member, d) := by
      rw [requireMember, outcome_get_bind, (Stands.here hmemb huser).member]
      rfl
    rw [outcome_bind_ok hread, h membership user hmemb huser]
    constructor
    · intro hX membership' user' hmembership' huser'
      rw [hmemb] at hmembership'
      rw [huser] at huser'
      cases hmembership'
      cases huser'
      exact hX
    · intro hX
      exact hX membership user hmemb huser

/-- A `PATCH` of a user is atomic exactly where it spares the member. -/
theorem patchUser_atomic_iff (services : Services) (organizationId userId : JsString) (body : Option (Json JsString))
    (d : Directory) :
    (Refused ((patchUser services organizationId userId body).outcome d).1 →
      d.Same ((patchUser services organizationId userId body).outcome d).2) ↔
      Atomic services organizationId d (.patchUser userId body) := by
  refine atomic_member_iff (X := fun p => Spares (userAccount services) (Undone services) p
    (patchUserAsks services body)) fun membership user hmemb huser => ?_
  have hfirst := Stands.here hmemb huser
  generalize d.standingOf organizationId userId membership user = p at hfirst
  refine spares_parse (readScimBody body) fun record => ?_
  refine spares_parse (parsePatchBody services.toLanguage record) fun operations => ?_
  have hstate : Current userId ⟨p.member, false⟩ p := ⟨rfl, hfirst.sameUser⟩
  exact spares_iff (follows_patchUserOps hstate operations)
    (fun state => .auditWhere state.changed organizationId) hfirst
    fun d' ws h => (hfirst.same_iff h).trans (foldl_give_member_iff p ws)

/-- A `PUT` of a user is atomic exactly where it spares the member. -/
theorem putUser_atomic_iff (services : Services) (organizationId userId : JsString) (body : Option (Json JsString))
    (d : Directory) :
    (Refused ((putUser services organizationId userId body).outcome d).1 →
      d.Same ((putUser services organizationId userId body).outcome d).2) ↔
      Atomic services organizationId d (.putUser userId body) := by
  refine atomic_member_iff (X := fun p => Spares (userAccount services) (Undone services) p
    (putUserAsks services p.member body)) fun membership user hmemb huser => ?_
  have hfirst := Stands.here hmemb huser
  generalize d.standingOf organizationId userId membership user = p at hfirst
  refine spares_parse (readScimBody body) fun record => ?_
  refine spares_parse (requireUserName services record) fun userName => ?_
  exact spares_iff (follows_putAttributes userName record hfirst.sameUser)
    (fun changed => (Quiet.requireMember organizationId p.member.userId).bind fun _ =>
      .auditWhere changed organizationId)
    hfirst fun d' ws h => (hfirst.same_iff h).trans (foldl_give_member_iff p ws)

/-- What a `POST` of a user does once the membership is there. -/
def afterPost (organizationId userId : JsString) (active : Option Bool) : ScimM Unit := do
  if active = some false then
    let actor ← resolveScimActor organizationId
    deactivateMember organizationId userId actor
  scimAudit organizationId
  let _ ← requireMember organizationId userId

theorem actor_ne_new {userId email actor : JsString} (h : d.findMembership organizationId userId = none)
    (hactor : (d.createMembership ⟨organizationId, userId, email, .member, .active⟩).actor organizationId = some actor) :
    actor ≠ userId := by
  obtain ⟨row, hrow, rfl⟩ := map_eq_some_iff.mp hactor
  obtain ⟨horg, howner⟩ : row.organizationId = organizationId ∧ row.role = .owner := by
    simpa using find?_some hrow
  rintro rfl
  rcases mem_append.mp (mem_of_find?_eq_some hrow) with hmem | hmem
  · exact find?_eq_none.mp h row hmem (decide_eq_true ⟨horg, rfl⟩)
  · rw [mem_singleton] at hmem
    rw [hmem] at howner
    cases howner

theorem afterPost_not_refused {userId email : JsString} (active : Option Bool)
    (h : d.findMembership organizationId userId = none) :
    ¬ Refused ((afterPost organizationId userId active).outcome
      (d.createMembership ⟨organizationId, userId, email, .member, .active⟩)).1 := by
  have hquiet : Quiet (do
      scimAudit organizationId
      let _ ← requireMember organizationId userId) :=
    (Quiet.scimAudit organizationId).bind fun _ =>
      (Quiet.requireMember organizationId userId).bind fun _ => Quiet.answer ()
  have hnew : (d.createMembership ⟨organizationId, userId, email, .member, .active⟩).findMembership organizationId
      userId = some ⟨organizationId, userId, email, .member, .active⟩ := by
    unfold Directory.findMembership Directory.createMembership
    rw [find?_append]
    rw [Directory.findMembership] at h
    rw [h]
    simp
  rintro ⟨thrown, hthrown, hrefusal⟩
  unfold afterPost at hthrown
  by_cases hactive : active = some false
  · rw [if_pos hactive] at hthrown
    have hresolve := outcome_resolveScimActor organizationId
      (d.createMembership ⟨organizationId, userId, email, .member, .active⟩)
    cases hactor : (d.createMembership ⟨organizationId, userId, email, .member, .active⟩).actor organizationId with
    | none =>
      rw [hactor] at hresolve
      rw [outcome_bind_error hresolve] at hthrown
      cases hthrown
      exact absurd hrefusal (by decide)
    | some actor =>
      rw [hactor] at hresolve
      rw [outcome_bind_ok hresolve] at hthrown
      have hdeactivate : (deactivateMember organizationId userId actor).outcome _ = _ :=
        outcome_deactivateMember hnew MemberStatus.noConfusion
      rw [if_neg (actor_ne_new h hactor).symm] at hdeactivate
      rw [outcome_bind_ok hdeactivate] at hthrown
      exact (hquiet _).2 thrown hthrown hrefusal
  · rw [if_neg hactive] at hthrown
    exact (hquiet _).2 thrown hthrown hrefusal

theorem assertCanInviteMember_not_refused (services : Services) (organizationId : JsString) (d : Directory) :
    (assertCanInviteMember services organizationId).outcome d = (.ok (), d) ∨
      ∃ thrown, (assertCanInviteMember services organizationId).outcome d = (.error thrown, d) ∧ ¬ thrown.Refusal := by
  unfold assertCanInviteMember
  rw [outcome_get_bind]
  cases services.maxMembers organizationId with
  | none => exact .inl rfl
  | some =>
    dsimp only
    split
    · refine .inr ⟨_, rfl, ?_⟩
      rintro (h | h) <;> cases h
    · exact .inl rfl

/-- How provisioning ends. -/
inductive Provisions (organizationId : JsString) (d : Directory) : Except Thrown (User × Bool) × Directory → Prop where
  | malformed (thrown : Thrown) : Provisions organizationId d (.error thrown, d)
  | overQuota (thrown : Thrown) (d' : Directory) (h : ¬ thrown.Refusal) :
      Provisions organizationId d (.error thrown, d')
  | existing (user : User) : Provisions organizationId d (.ok (user, false), d)
  | created (user : User) (d' : Directory) (h : d'.findMembership organizationId user.id = none) :
      Provisions organizationId d
        (.ok (user, true), d'.createMembership ⟨organizationId, user.id, user.email, .member, .active⟩)

theorem provisions_membership (services : Services) (first d : Directory) (user : User)
    (h : d.findMembership organizationId user.id = none) :
    Provisions organizationId first ((do
      assertCanInviteMember services organizationId
      modify fun d => d.createMembership ⟨organizationId, user.id, user.email, .member, .active⟩
      return (user, true) : ScimM (User × Bool)).outcome d) := by
  obtain hfree | ⟨thrown, hfull, hquota⟩ := assertCanInviteMember_not_refused services organizationId d
  · rw [outcome_bind_ok hfree]
    exact .created user d h
  · rw [outcome_bind_error hfull]
    exact .overQuota thrown d hquota

theorem upsertUserByEmail_cases (services : Services) (rawEmail : JsString) (name : Option JsString)
    (nameComponents : Option (Json JsString)) (d : Directory) :
    (∃ thrown, (upsertUserByEmail services rawEmail name nameComponents).outcome d = (.error thrown, d)) ∨
      (∃ user, (upsertUserByEmail services rawEmail name nameComponents).outcome d = (.ok (user, false), d)) ∨
      ∃ user : User, user.id = services.newUserId d ∧
        (upsertUserByEmail services rawEmail name nameComponents).outcome d = (.ok (user, true), d.createUser user) := by
  unfold upsertUserByEmail
  cases normalizeEmail services rawEmail with
  | error thrown => exact .inl ⟨thrown, rfl⟩
  | ok email =>
    rw [outcome_get_bind]
    cases d.findUserByEmail email with
    | some user => exact .inr (.inl ⟨user, rfl⟩)
    | none => exact .inr (.inr ⟨_, rfl, rfl⟩)

theorem provisions (services : Services) (organizationId email : JsString) (name : Option JsString)
    (nameComponents : Option (Json JsString)) (d : Directory) :
    Provisions organizationId d ((provisionMember services organizationId email name nameComponents).outcome d) := by
  unfold provisionMember
  obtain ⟨thrown, hout⟩ | ⟨user, hout⟩ | ⟨user, hid, hout⟩ :=
    upsertUserByEmail_cases services email name nameComponents d
  · rw [outcome_bind_error hout]
    exact .malformed thrown
  · rw [outcome_bind_ok hout]
    rw [outcome_get_bind]
    cases hfound : d.findMembership organizationId user.id with
    | some => exact .existing user
    | none => exact provisions_membership services d d user hfound
  · rw [outcome_bind_ok hout]
    have hnone : (d.createUser user).findMembership organizationId user.id = none := by
      rw [hid]
      exact services.freshUser d organizationId
    rw [outcome_get_bind, hnone]
    exact provisions_membership services d (d.createUser user) user hnone

/-- A `POST` of a user that is refused leaves everything the same. -/
theorem postUser_refused (services : Services) (organizationId : JsString) (body : Option (Json JsString))
    (d : Directory) (h : Refused ((postUser services organizationId body).outcome d).1) :
    d.Same ((postUser services organizationId body).outcome d).2 := by
  have hsame : d.Same d := ⟨fun _ _ => rfl, fun _ _ => rfl⟩
  unfold postUser at h ⊢
  cases hbody : readScimBody body with
  | error => exact hsame
  | ok record =>
    rw [hbody, outcome_ofExcept_bind] at h
    rw [outcome_ofExcept_bind]
    cases hname : requireUserName services record with
    | error => exact hsame
    | ok userName =>
      rw [hname, outcome_ofExcept_bind] at h
      rw [outcome_ofExcept_bind]
      cases hactive : activeFrom services record with
      | error => exact hsame
      | ok active =>
        rw [hactive, outcome_ofExcept_bind] at h
        rw [outcome_ofExcept_bind]
        have hends := provisions services organizationId userName (displayStringFrom services record)
          (nameComponentsFrom services record) d
        generalize hout : (provisionMember services organizationId userName (displayStringFrom services record)
          (nameComponentsFrom services record)).outcome d = r at hends
        cases hends with
        | malformed =>
          rw [outcome_bind_error hout]
          exact hsame
        | overQuota thrown d' hquota =>
          rw [outcome_bind_error hout] at h
          obtain ⟨thrown', hthrown, hrefusal⟩ := h
          exact absurd (Except.error.inj hthrown ▸ hrefusal) hquota
        | existing =>
          rw [outcome_bind_ok hout]
          exact hsame
        | created user d' hnone =>
          rw [outcome_bind_ok hout] at h
          exact absurd h (afterPost_not_refused active hnone)

/-! ## Refused writes of groups -/

variable {services : Services} {org : JsString} {d first : Directory}

variable {groupId : JsString} {p : GroupStanding}

theorem GroupStands.same_iff {p p' : GroupStanding} (hfirst : GroupStands first org groupId first p)
    (h : GroupStands first org groupId d p') : first.Same d ↔ p'.record = p.record := by
  constructor
  · intro hsame
    have hgroup := hsame.groups org groupId
    rw [h.group, hfirst.group] at hgroup
    exact some.inj hgroup
  · intro hrecord
    refine ⟨h.members, fun organization other => ?_⟩
    by_cases hkey : organization = org ∧ other = groupId
    · obtain ⟨rfl, rfl⟩ := hkey
      rw [h.group, hfirst.group, hrecord]
    · exact h.groups organization other hkey

/-- A group that is read stands. -/
theorem GroupStands.here {row : Group} (hrow : d.findGroup org groupId = some row) :
    GroupStands d org groupId d (d.groupStandingOf row) :=
  ⟨⟨row, hrow, rfl⟩, fun _ _ _ => rfl, fun _ _ => rfl⟩

theorem atomic_group_iff {f : ScimGroupRecord → ScimM Unit} {X : GroupStanding → Prop}
    (h : ∀ row, d.findGroup org groupId = some row → ((Refused ((f (d.recordOf row)).outcome d).1 → d.Same ((f (d.recordOf row)).outcome d).2) ↔ X (d.groupStandingOf row))) :
    (Refused ((requireScimGroup org groupId >>= f).outcome d).1 →
      d.Same ((requireScimGroup org groupId >>= f).outcome d).2) ↔
      ∀ row, d.findGroup org groupId = some row → X (d.groupStandingOf row) := by
  cases hrow : d.findGroup org groupId with
  | none =>
    have hread : (requireScimGroup org groupId).outcome d = (.error (scimError 404 "Group not found." none), d) := by
      rw [requireScimGroup, outcome_get_bind, Directory.group, hrow]
      rfl
    rw [outcome_bind_error hread]
    refine iff_of_true ?_ ?_
    · rintro ⟨thrown, hthrown, hrefusal⟩
      cases hthrown
      exact absurd hrefusal (by decide)
    · intro row hfound
      cases hfound
  | some row =>
    have hread : (requireScimGroup org groupId).outcome d = (.ok (d.recordOf row), d) := by
      rw [requireScimGroup, outcome_get_bind, (GroupStands.here hrow).group]
      rfl
    rw [outcome_bind_ok hread, h row hrow]
    constructor
    · intro hX row' hrow'
      cases hrow'
      exact hX
    · intro hX
      exact hX row rfl

/-- A `PATCH` of a group is atomic exactly where it spares the group. -/
theorem patchGroup_atomic_iff (services : Services) (org groupId : JsString)
    (body : Option (Json JsString)) (d : Directory) :
    (Refused ((patchGroup services org groupId body).outcome d).1 →
      d.Same ((patchGroup services org groupId body).outcome d).2) ↔
      Atomic services org d (.patchGroup groupId body) := by
  refine atomic_group_iff (X := fun p => Spares groupAccount GroupUndone p (patchGroupAsks services body))
    fun row hrow => ?_
  have hfirst := GroupStands.here hrow
  have hid : (d.recordOf row).id = groupId := (Directory.findGroup_key hrow).1
  refine spares_parse (readScimBody body) fun record => ?_
  refine spares_parse (parsePatchBody services.toLanguage record) fun operations => ?_
  rw [hid]
  exact spares_iff (follows_applyGroupPatchOps operations)
    (fun _ => (Quiet.scimAudit org).bind fun _ =>
      (Quiet.requireScimGroup org groupId).bind fun _ => Quiet.answer ())
    hfirst fun d' ws h => (hfirst.same_iff h).trans (foldl_give_record_iff _ ws)

/-- A `PUT` of a group is atomic exactly where it spares the group. -/
theorem putGroup_atomic_iff (services : Services) (org groupId : JsString) (body : Option (Json JsString))
    (d : Directory) :
    (Refused ((putGroup services org groupId body).outcome d).1 →
      d.Same ((putGroup services org groupId body).outcome d).2) ↔
      Atomic services org d (.putGroup groupId body) := by
  refine atomic_group_iff (X := fun p => Spares groupAccount GroupUndone p (putGroupAsks services p.record body))
    fun row hrow => ?_
  have hfirst := GroupStands.here hrow
  have hid : (d.recordOf row).id = groupId := (Directory.findGroup_key hrow).1
  refine spares_parse (readScimBody body) fun record => ?_
  refine spares_parse (requireDisplayName services record) fun displayName => ?_
  exact spares_iff (follows_putGroupAttributes hid displayName record)
    (fun _ => (Quiet.scimAudit org).bind fun _ =>
      (Quiet.requireScimGroup org (d.recordOf row).id).bind fun _ => Quiet.answer ())
    hfirst fun d' ws h => (hfirst.same_iff h).trans (foldl_give_record_iff _ ws)

theorem outcome_scimCreateGroup_refused {displayName : JsString} {externalId : Option JsString} {thrown : Thrown}
    (h : createVerdict services org d displayName externalId = some thrown) :
    (scimCreateGroup services org displayName externalId).outcome d = (.error thrown, d) := by
  unfold createVerdict at h
  unfold scimCreateGroup
  rw [outcome_get_bind]
  split at h
  · rename_i hid
    rw [dif_pos hid, ← some.inj h]
    rfl
  rename_i hid
  rw [dif_neg hid]
  split at h
  · rename_i hname
    rw [if_pos hname, ← some.inj h]
    rfl
  rename_i hname
  rw [if_neg hname]
  split at h
  · rename_i hext
    rw [if_pos hext, ← some.inj h]
    rfl
  · cases h

theorem outcome_scimCreateGroup {displayName : JsString} {externalId : Option JsString}
    (h : createVerdict services org d displayName externalId = none) :
    ∃ hid : services.newGroupId d ∉ d.groups.map (·.id),
      (scimCreateGroup services org displayName externalId).outcome d =
        (.ok (services.newGroupId d),
          d.createGroup ⟨services.newGroupId d, org, displayName, .scim, externalId⟩ hid) := by
  unfold createVerdict at h
  unfold scimCreateGroup
  rw [outcome_get_bind]
  split at h
  · cases h
  rename_i hid
  refine ⟨hid, ?_⟩
  rw [dif_neg hid]
  split at h
  · cases h
  rename_i hname
  rw [if_neg hname]
  split at h
  · cases h
  rename_i hext
  rw [if_neg hext]
  rfl

theorem Directory.findGroup_createGroup (d : Directory) (group : Group) (h : group.id ∉ d.groups.map (·.id)) :
    d.findGroup group.organizationId group.id = none ∧
      (d.createGroup group h).findGroup group.organizationId group.id = some group := by
  have hnone : d.findGroup group.organizationId group.id = none := by
    refine find?_eq_none.mpr fun other hother hfound => ?_
    exact h (mem_map.mpr ⟨other, hother, (of_decide_eq_true hfound).1⟩)
  refine ⟨hnone, ?_⟩
  unfold Directory.findGroup Directory.createGroup
  rw [find?_append]
  rw [Directory.findGroup] at hnone
  rw [hnone]
  simp

/-- The write that the members of a `POST` ask for. -/
def postedWrite (services : Services) (members : Json JsString) : GroupWrite :=
  match memberIdsFrom services (some members) with
  | .error thrown => .refuse thrown
  | .ok ids => .setMembers ids

theorem follows_postedWrite (members : Json JsString) :
    Follows groupAccount (GroupStands first org groupId) p
      (do
        let ids ← .ofExcept (memberIdsFrom services (some members))
        scimSetGroupMembers services org groupId ids)
      (fun _ _ => True) [postedWrite services members] := by
  unfold postedWrite
  cases memberIdsFrom services (some members) with
  | error => exact .refuse rfl
  | ok ids => exact follows_scimSetGroupMembers ids

theorem memberIdsFrom_refusal {members : Option (Json JsString)} {thrown : Thrown}
    (h : memberIdsFrom services members = .error thrown) : thrown.Refusal := by
  have hentry {entry : Json JsString} {thrown : Thrown} (h : memberIdFrom services entry = .error thrown) :
      thrown.Refusal := by
    unfold memberIdFrom at h
    split at h
    · cases h
    · cases h
      decide
  have hents (entries : List (Json JsString)) {thrown : Thrown}
      (h : entries.mapM (memberIdFrom services) = .error thrown) : thrown.Refusal := by
    induction entries generalizing thrown with
    | nil => cases h
    | cons entry entries ih =>
      rw [mapM_cons] at h
      cases hid : memberIdFrom services entry with
      | error =>
        rw [hid] at h
        cases h
        exact hentry hid
      | ok =>
        rw [hid] at h
        cases hids : entries.mapM (memberIdFrom services) with
        | error =>
          rw [hids] at h
          cases h
          exact ih hids
        | ok =>
          rw [hids] at h
          cases h
  unfold memberIdsFrom at h
  split at h
  · exact hents _ h
  · exact hents _ h
  · cases h
    decide

/-- The members of a `POST` are refused exactly where they cannot be set. -/
theorem postedWrite_refused_iff {members : Json JsString}
    (hmember : ∀ userId, p.isMember userId = (d.findMembership org userId).isSome) :
    (∃ thrown, (groupAccount.upTo p [postedWrite services members]).2 = some thrown ∧ thrown.Refusal) ↔
      ¬ ∃ ids, memberIdsFrom services (some members) = .ok ids ∧ ∀ id ∈ ids, (d.findMembership org id).isSome := by
  rw [Account.upTo_singleton, postedWrite]
  cases hids : memberIdsFrom services (some members) with
  | error thrown =>
    refine iff_of_true ⟨thrown, rfl, memberIdsFrom_refusal hids⟩ ?_
    rintro ⟨ids, hok, -⟩
    cases hok
  | ok ids =>
    have hunknown : p.unknown ids ≠ [] ↔ ¬ ∀ id ∈ ids, (d.findMembership org id).isSome := by
      refine not_congr ?_
      unfold GroupStanding.unknown
      simp only [filter_eq_nil_iff, mem_eraseDups, hmember, Bool.not_eq_true', Bool.not_eq_false]
    change (∃ thrown, (if p.unknown ids ≠ [] then some (Thrown.service .badRequest _) else none) = some thrown ∧ _) ↔ _
    by_cases hrefused : p.unknown ids ≠ []
    · rw [if_pos hrefused]
      refine iff_of_true ⟨_, rfl, .inl rfl⟩ ?_
      rintro ⟨ids', hok, hmems⟩
      cases hok
      exact hunknown.mp hrefused hmems
    · rw [if_neg hrefused]
      refine iff_of_false ?_ ?_
      · rintro ⟨thrown, hthrown, -⟩
        cases hthrown
      · exact not_not_intro ⟨ids, rfl, not_not.mp fun h => hrefused (hunknown.mpr h)⟩

theorem created_atomic_iff {d₁ : Directory} {f : Unit → ScimM Unit} (members : Json JsString)
    (hquiet : ∀ a, Quiet (f a)) (hstands : GroupStands d₁ org groupId d₁ p)
    (hnone : d.group org groupId = none)
    (hmember : ∀ userId, p.isMember userId = (d.findMembership org userId).isSome)
    {r : Except Thrown Unit × Directory}
    (hr : r = ((Attempt.ofExcept (memberIdsFrom services (some members)) >>= scimSetGroupMembers services org groupId) >>= f).outcome d₁) :
    (Refused r.1 → d.Same r.2) ↔
      ∃ ids, memberIdsFrom services (some members) = .ok ids ∧ ∀ id ∈ ids, (d.findMembership org id).isSome := by
  subst hr
  obtain ⟨hafter, hrefused⟩ := Follows.tail Thrown.Refusal (follows_postedWrite members) (fun a d => (hquiet a d).1)
    (fun a d => (hquiet a d).2) hstands
  have hdiffers {d' : Directory} {p' : GroupStanding} (h : GroupStands d₁ org groupId d' p') :
      ¬ d.Same d' := by
    intro hsame
    have hgroup := hsame.groups org groupId
    rw [h.group, hnone] at hgroup
    cases hgroup
  rw [iff_false_intro (hdiffers hafter)]
  refine (not_congr hrefused).trans ?_
  rw [postedWrite_refused_iff hmember, not_not]

/-- A `POST` of a group is atomic exactly where it is not created without its members. -/
theorem postGroup_atomic_iff (services : Services) (org : JsString) (body : Option (Json JsString))
    (d : Directory) :
    (Refused ((postGroup services org body).outcome d).1 → d.Same ((postGroup services org body).outcome d).2) ↔
      Atomic services org d (.postGroup body) := by
  have hsame (thrown : Thrown) {m : ScimM Unit} (h : m.outcome d = (.error thrown, d)) {Q : Prop} (hQ : Q) :
      (Refused (m.outcome d).1 → d.Same (m.outcome d).2) ↔ Q := by
    refine iff_of_true (fun _ => ?_) hQ
    rw [h]
    exact ⟨fun _ _ => rfl, fun _ _ => rfl⟩
  unfold postGroup
  cases hbody : readScimBody body with
  | error thrown =>
    refine hsame thrown rfl ?_
    intro record displayName hrecord
    rw [hbody] at hrecord
    cases hrecord
  | ok record =>
    rw [outcome_ofExcept_bind]
    cases hname : requireDisplayName services record with
    | error thrown =>
      refine hsame thrown rfl ?_
      intro record' displayName hrecord hdisplay
      rw [hbody] at hrecord
      cases hrecord
      rw [hname] at hdisplay
      cases hdisplay
    | ok displayName =>
      rw [outcome_ofExcept_bind]
      have hatomic : Atomic services org d (.postGroup body) ↔
          (createVerdict services org d displayName (externalIdFrom services record) = none →
            PostsMembers services org d record) := by
        constructor
        · intro h
          exact h record displayName hbody hname
        · intro h record' displayName' hrecord hdisplay
          rw [hbody] at hrecord
          cases hrecord
          rw [hname] at hdisplay
          cases hdisplay
          exact h
      rw [hatomic]
      cases hcreate : createVerdict services org d displayName (externalIdFrom services record) with
      | some thrown =>
        refine hsame thrown (outcome_bind_error (outcome_scimCreateGroup_refused hcreate)) ?_
        intro h
        cases h
      | none =>
        obtain ⟨hid, hcreated⟩ := outcome_scimCreateGroup hcreate
        rw [outcome_bind_ok hcreated]
        obtain ⟨hnone, hfound⟩ := d.findGroup_createGroup
          ⟨services.newGroupId d, org, displayName, .scim, externalIdFrom services record⟩ hid
        have hstands := GroupStands.here hfound
        have hquiet (d' : Directory) : Quiet (do
            scimAudit org
            let _ ← requireScimGroup org (services.newGroupId d)) :=
          (Quiet.scimAudit org).bind fun _ =>
            (Quiet.requireScimGroup org (services.newGroupId d)).bind fun _ => Quiet.answer ()
        unfold PostsMembers
        cases hposted : postedMembers services record with
        | none =>
          refine iff_of_true ?_ ?_
          · rintro ⟨thrown, hthrown, hrefusal⟩
            exact absurd hrefusal ((hquiet d _).2 thrown hthrown)
          · intro _ members hmems
            cases hmems
        | some members =>
          have hgroup : d.group org (services.newGroupId d) = none := by
            exact congrArg (Option.map _) hnone
          refine (created_atomic_iff members (fun _ => hquiet d) hstands hgroup (fun _ => rfl)
            (congrArg (fun m => outcome m _) (bind_assoc _ _ _)).symm).trans ?_
          constructor
          · rintro h _ members' hmembers'
            cases hmembers'
            exact h
          · exact fun h => h rfl members rfl

/-! ## A refused write changes nothing -/

/-- A refused write leaves every member and every group as it was exactly where what it carries out before is undone, and
a group is not created without its members. -/
theorem refused_write_exact (services : Services) (organizationId : JsString) (d : Directory) (write : ScimWrite) :
    (Refused ((handle services organizationId write).outcome d).1 →
      d.Same ((handle services organizationId write).outcome d).2) ↔ Atomic services organizationId d write := by
  cases write with
  | postUser body => exact iff_of_true (postUser_refused services organizationId body d) trivial
  | putUser userId body => exact putUser_atomic_iff services organizationId userId body d
  | patchUser userId body => exact patchUser_atomic_iff services organizationId userId body d
  | postGroup body => exact postGroup_atomic_iff services organizationId body d
  | putGroup groupId body => exact putGroup_atomic_iff services organizationId groupId body d
  | patchGroup groupId body => exact patchGroup_atomic_iff services organizationId groupId body d

/-- Services without a plan's limit and without group mappings, over ASCII texts. -/
def plainServices : Services where
  toLowerCase := Api.asciiLower
  string := fun _ => []
  jsonb := id
  entitled := false
  resolveRolesForUsers := fun _ _ _ _ => none
  maxMembers := fun _ => none
  planName := fun _ => []
  newUserId := fun d => Api.unit 'u' :: (d.members.map (·.userId)).flatten
  newGroupId := fun d => Api.unit 'g' :: (d.groups.map (·.id)).flatten
  freshUser := by
    intro d organizationId
    refine List.find?_eq_none.mpr fun member hmember hfound => ?_
    have hid : member.userId = Api.unit 'u' :: (d.members.map (·.userId)).flatten := (of_decide_eq_true hfound).2
    have hlength := (List.sublist_flatten_of_mem (List.mem_map_of_mem (f := (·.userId)) hmember)).length_le
    rw [hid, List.length_cons] at hlength
    exact absurd hlength (Nat.not_succ_le_self _)

/-- An organization with its owner and one member. -/
def pairDirectory : Directory where
  users := [⟨js "o", js "o@x", none, .null⟩, ⟨js "u", js "u@x", some (js "A"), .null⟩]
  members := [⟨js "x", js "o", js "o@x", .owner, .active⟩, ⟨js "x", js "u", js "u@x", .member, .active⟩]
  groups := []
  groupMembers := []
  pendingInvites := fun _ => 0
  groupIds := List.nodup_nil

/-- A `PATCH` of a display name and then of an `active` that is no boolean. -/
def renameThenMalformed : ScimWrite :=
  .patchUser (js "u") (some (.obj [(js "schemas", .arr [.str SCIM_PATCH_SCHEMA]),
    (js "Operations", .arr [
      .obj [(js "op", .str (js "replace")), (js "path", .str (js "displayName")), (js "value", .str (js "B"))],
      .obj [(js "op", .str (js "replace")), (js "path", .str (js "active")), (js "value", .str (js "maybe"))]])]))

/-- The display name stays changed although the request is refused. -/
theorem refused_write_renames : ¬ ∀ (services : Services) (organizationId : JsString) (d : Directory)
    (write : ScimWrite), Refused ((handle services organizationId write).outcome d).1 →
      d.Same ((handle services organizationId write).outcome d).2 := by
  intro h
  have hrefused : ((handle plainServices (js "x") renameThenMalformed).outcome pairDirectory).1 =
      .error (scimError 400 "active must be a boolean." (some .invalidValue)) := by decide +kernel
  have hsame := h plainServices (js "x") pairDirectory renameThenMalformed ⟨_, hrefused, Or.inl rfl⟩
  have hname := congrArg (Option.map DirectoryMember.name) (hsame.members (js "x") (js "u"))
  revert hname
  decide +kernel

end Onecli.Scim
