import Onecli.Scim.UserWrites
import Onecli.Scim.GroupWrites

/-!
# What the writes of a member or a group leave together

The writes before a refused one leave a member as the member was where, attribute by attribute, what was given last is
what was there before. The parts of the name are given one at a time, so they are put back or they are not. The members
of a group are given one at a time as well.
-/

namespace Onecli.Scim

open List

open Api (JsString)
open Onecli.Directory (MemberStatus)

variable (services : Services)

namespace UserWrite

/-- The email that a write asks for. -/
def email : UserWrite → Option JsString
  | .userName raw => some (emailOf services raw)
  | _ => none

/-- The status that a write gives. -/
def status : UserWrite → Option MemberStatus
  | .active on => some (if on then .active else .suspended)
  | _ => none

/-- The display name that a write gives. -/
def displayName : UserWrite → Option (Option JsString)
  | .profile patch => patch.displayName
  | _ => none

/-- The components of the name after a write. -/
def components (nameComponents : Json JsString) : UserWrite → Json JsString
  | .profile patch => (patch.nameComponents.map services.jsonb).getD nameComponents
  | .component key op value => services.jsonb (withComponent nameComponents key op value)
  | _ => nameComponents

end UserWrite

/-- Writes that leave every attribute of a member as it was. -/
structure Undone (p : Standing) (ws : List UserWrite) : Prop where
  email : (∀ email ∈ ws.filterMap (UserWrite.email services), email = p.email ∨ email = p.userEmail) ∨
    (ws.filterMap (UserWrite.email services)).getLast? = some p.email
  status : ∀ status ∈ (ws.filterMap UserWrite.status).getLast?, status = p.status
  displayName : ∀ displayName ∈ (ws.filterMap UserWrite.displayName).getLast?, displayName = p.name
  components : ws.foldl (UserWrite.components services) p.nameComponents = p.nameComponents

variable {services}

/-- A member's email and the email of the member's account, after an email is asked for. -/
def renamed (emails : JsString × JsString) (email : JsString) : JsString × JsString :=
  if email = emails.1 ∨ emails.2 = email then emails else (email, email)

theorem foldl_renamed_same (email : JsString) (given : List JsString) :
    (given.foldl renamed (email, email)).1 = given.getLast?.getD email := by
  induction given generalizing email with
  | nil => rfl
  | cons next given ih =>
    have hnext : renamed (email, email) next = (next, next) := by
      unfold renamed
      split
      · rename_i hsame
        obtain rfl | rfl := hsame <;> rfl
      · rfl
    rw [foldl_cons, hnext, ih, getLast?_cons]
    rfl

theorem foldl_renamed_eq_iff (emails : JsString × JsString) (given : List JsString) :
    (given.foldl renamed emails).1 = emails.1 ↔
      (∀ email ∈ given, email = emails.1 ∨ email = emails.2) ∨ given.getLast? = some emails.1 := by
  induction given with
  | nil => simp
  | cons next given ih =>
    rw [foldl_cons]
    by_cases hsame : next = emails.1 ∨ emails.2 = next
    · have hnext : renamed emails next = emails := if_pos hsame
      rw [hnext, ih, getLast?_cons]
      cases hlast : given.getLast? with
      | none =>
        obtain rfl := getLast?_eq_none_iff.mp hlast
        simp [hsame.imp id Eq.symm]
      | some => simp [hsame.imp id Eq.symm]
    · have hnext : renamed emails next = (next, next) := if_neg hsame
      rw [hnext, foldl_renamed_same, getLast?_cons]
      constructor
      · exact fun h => .inr (congrArg some h)
      · rintro (h | h)
        · exact absurd ((h next mem_cons_self).imp id Eq.symm) hsame
        · exact Option.some.inj h

theorem give_attributes (services : Services) (p : Standing) (w : UserWrite) :
    ((userAccount services).give p w).userId = p.userId ∧
      (((userAccount services).give p w).email, ((userAccount services).give p w).userEmail) =
        ((w.email services).map (renamed (p.email, p.userEmail))).getD (p.email, p.userEmail) ∧
      ((userAccount services).give p w).status = w.status.getD p.status ∧
      ((userAccount services).give p w).name = w.displayName.getD p.name ∧
      ((userAccount services).give p w).nameComponents = w.components services p.nameComponents := by
  cases w with
  | userName =>
    simp only [userAccount, UserWrite.email, renamed, Option.map_some, Option.getD_some]
    split <;> exact ⟨rfl, rfl, rfl, rfl, rfl⟩
  | _ => exact ⟨rfl, rfl, rfl, rfl, rfl⟩

theorem foldl_give_attributes (services : Services) (p : Standing) (ws : List UserWrite) :
    (ws.foldl (userAccount services).give p).userId = p.userId ∧
      (ws.foldl (userAccount services).give p).email =
        ((ws.filterMap (UserWrite.email services)).foldl renamed (p.email, p.userEmail)).1 ∧
      (ws.foldl (userAccount services).give p).status = (ws.filterMap UserWrite.status).getLast?.getD p.status ∧
      (ws.foldl (userAccount services).give p).name = (ws.filterMap UserWrite.displayName).getLast?.getD p.name ∧
      (ws.foldl (userAccount services).give p).nameComponents =
        ws.foldl (UserWrite.components services) p.nameComponents := by
  refine ⟨?_, ?_, ?_, ?_, ?_⟩
  · exact Account.foldl_kept _ Standing.userId (fun p w => (give_attributes services p w).1) p ws
  · exact congrArg Prod.fst (Account.foldl_given _ (fun p => (p.email, p.userEmail)) (fun p w => (give_attributes services p w).2.1) p ws)
  · exact Account.foldl_last _ Standing.status (fun p w => (give_attributes services p w).2.2.1) p ws
  · exact Account.foldl_last _ Standing.name (fun p w => (give_attributes services p w).2.2.2.1) p ws
  · exact Account.foldl_get _ Standing.nameComponents (fun p w => (give_attributes services p w).2.2.2.2) p ws

theorem foldl_give_member_iff (p : Standing) (ws : List UserWrite) :
    (ws.foldl (userAccount services).give p).member = p.member ↔ Undone services p ws := by
  obtain ⟨hid, hemail, hstatus, hname, hcomponents⟩ := foldl_give_attributes services p ws
  unfold Standing.member
  rw [DirectoryMember.mk.injEq, hid, hemail, hstatus, hname, hcomponents, foldl_renamed_eq_iff, Account.getD_eq_iff,
    Account.getD_eq_iff]
  constructor
  · rintro ⟨-, hemail, hname, hstatus, hcomponents⟩
    exact ⟨hemail, hstatus, hname, hcomponents⟩
  · rintro ⟨hemail, hstatus, hname, hcomponents⟩
    exact ⟨rfl, hemail, hname, hstatus, hcomponents⟩

/-! ## The writes of a group -/

namespace GroupWrite

/-- The name that a write gives. -/
def newName : GroupWrite → Option JsString
  | .rename name => some name
  | _ => none

/-- The external id that a write gives. -/
def newExternalId : GroupWrite → Option (Option JsString)
  | .externalId given => some given
  | _ => none

/-- The members after a write. -/
def members (members : Finset JsString) : GroupWrite → Finset JsString
  | .setMembers userIds => userIds.toFinset
  | .addMember userId => insert userId members
  | .removeMember userId => members.erase userId
  | _ => members

end GroupWrite

/-- Writes that leave every attribute of a group as it was. -/
structure GroupUndone (p : GroupStanding) (ws : List GroupWrite) : Prop where
  name : ∀ name ∈ (ws.filterMap GroupWrite.newName).getLast?, name = p.record.name
  externalId : ∀ externalId ∈ (ws.filterMap GroupWrite.newExternalId).getLast?, externalId = p.record.externalId
  members : ws.foldl GroupWrite.members p.record.members = p.record.members

theorem give_record (p : GroupStanding) (w : GroupWrite) :
    (groupAccount.give p w).record.id = p.record.id ∧
      (groupAccount.give p w).record.name = w.newName.getD p.record.name ∧
      (groupAccount.give p w).record.externalId = w.newExternalId.getD p.record.externalId ∧
      (groupAccount.give p w).record.members = w.members p.record.members := by
  cases w with
  | _ => exact ⟨rfl, rfl, rfl, rfl⟩

theorem foldl_give_record_iff (p : GroupStanding) (ws : List GroupWrite) :
    (ws.foldl groupAccount.give p).record = p.record ↔ GroupUndone p ws := by
  have hid := groupAccount.foldl_kept (fun p => p.record.id) (fun p w => (give_record p w).1) p ws
  have hname := groupAccount.foldl_last (fun p => p.record.name) (fun p w => (give_record p w).2.1) p ws
  have hext := groupAccount.foldl_last (fun p => p.record.externalId) (fun p w => (give_record p w).2.2.1) p ws
  have hmembers := groupAccount.foldl_get (fun p => p.record.members) (fun p w => (give_record p w).2.2.2) p ws
  rw [ScimGroupRecord.ext_iff, hid, hname, hext, hmembers, Account.getD_eq_iff, Account.getD_eq_iff]
  constructor
  · rintro ⟨-, hname, hext, hmembers⟩
    exact ⟨hname, hext, hmembers⟩
  · rintro ⟨hname, hext, hmembers⟩
    exact ⟨rfl, hname, hext, hmembers⟩

/-! ## Refused writes

A write is refused by an error that its content or a conflict raises. What it did before that stays, so a refused write
changes nothing exactly where what it carried out before, taken together, gives every attribute the value that it had.
-/

open Utf16 (js)
open Attempt

/-- A write of the SCIM users or groups. -/
inductive ScimWrite where
  | postUser (body : Option (Json JsString))
  | putUser (userId : JsString) (body : Option (Json JsString))
  | patchUser (userId : JsString) (body : Option (Json JsString))
  | postGroup (body : Option (Json JsString))
  | putGroup (groupId : JsString) (body : Option (Json JsString))
  | patchGroup (groupId : JsString) (body : Option (Json JsString))

/-- The answer blames the content of the request, or a conflict. -/
def Thrown.Refusal (thrown : Thrown) : Prop := thrown.answer.status = 400 ∨ thrown.answer.status = 409

instance (thrown : Thrown) : Decidable thrown.Refusal := inferInstanceAs (Decidable (_ ∨ _))

/-- A request is refused. -/
def Refused {α : Type} (r : Except Thrown α) : Prop := ∃ thrown, r = .error thrown ∧ thrown.Refusal

/-- Every member and every group is the same. -/
structure Directory.Same (d d' : Directory) : Prop where
  members : ∀ organizationId userId, d'.member organizationId userId = d.member organizationId userId
  groups : ∀ organizationId groupId, d'.group organizationId groupId = d.group organizationId groupId

variable (services : Services) (organizationId : JsString)

/-- The route of a write. -/
def handle : ScimWrite → ScimM Unit
  | .postUser body => postUser services organizationId body
  | .putUser userId body => putUser services organizationId userId body
  | .patchUser userId body => patchUser services organizationId userId body
  | .postGroup body => postGroup services organizationId body
  | .putGroup groupId body => putGroup services organizationId groupId body
  | .patchGroup groupId body => patchGroup services organizationId groupId body

/-- The writes that a `PUT` of a user asks for. -/
def putUserAsks (member : DirectoryMember) (body : Option (Json JsString)) : Except Thrown (List UserWrite) := do
  let body ← readScimBody body
  let userName ← requireUserName services body
  return putUserWrites services member userName body

/-- The writes that a `PATCH` of a user asks for. -/
def patchUserAsks (body : Option (Json JsString)) : Except Thrown (List UserWrite) := do
  let body ← readScimBody body
  let operations ← parsePatchBody services.toLanguage body
  return operations.flatMap (patchUserWrites services)

/-- The writes that a `PUT` of a group asks for. -/
def putGroupAsks (group : ScimGroupRecord) (body : Option (Json JsString)) : Except Thrown (List GroupWrite) := do
  let body ← readScimBody body
  let displayName ← requireDisplayName services body
  return putGroupWrites services group displayName body

/-- The writes that a `PATCH` of a group asks for. -/
def patchGroupAsks (body : Option (Json JsString)) : Except Thrown (List GroupWrite) := do
  let body ← readScimBody body
  let operations ← parsePatchBody services.toLanguage body
  return operations.flatMap (patchGroupWrites services)

/-- Where one of the writes is refused, the writes before it are undone. -/
def Spares {P W : Type} (A : Account P W Thrown) (Undoes : P → List W → Prop) (p : P)
    (asked : Except Thrown (List W)) : Prop :=
  ∀ ws, asked = .ok ws → ∀ thrown, (A.upTo p ws).2 = some thrown → thrown.Refusal → Undoes p (A.upTo p ws).1

/-- Why a group is not created. -/
def createVerdict (d : Directory) (displayName : JsString) (externalId : Option JsString) : Option Thrown :=
  if services.newGroupId d ∈ d.groups.map (·.id) then
    some (.service .conflict (js "A group with this name already exists."))
  else if d.groupNameTaken organizationId (services.newGroupId d) displayName then
    some (.service .conflict (js "A group with this name already exists."))
  else if externalId.any (d.externalIdTaken organizationId (services.newGroupId d) .scim) then
    some (.service .conflict (js "A group with this externalId already exists."))
  else none

/-- The members with which a group is posted, if any, can be set. -/
def PostsMembers (d : Directory) (body : Json JsString) : Prop :=
  ∀ members ∈ postedMembers services body, ∃ ids, memberIdsFrom services (some members) = .ok ids ∧
    ∀ id ∈ ids, (d.findMembership organizationId id).isSome

/-- A write after which nothing is left where it is refused: what it carries out before is undone, and a group is not
created without its members. -/
def Atomic (d : Directory) : ScimWrite → Prop
  | .postUser _ => True
  | .putUser userId body => ∀ member user, d.findMembership organizationId userId = some member →
      d.findUser userId = some user →
      Spares (userAccount services) (Undone services) (d.standingOf organizationId userId member user)
        (putUserAsks services (d.standingOf organizationId userId member user).member body)
  | .patchUser userId body => ∀ member user, d.findMembership organizationId userId = some member →
      d.findUser userId = some user →
      Spares (userAccount services) (Undone services) (d.standingOf organizationId userId member user)
        (patchUserAsks services body)
  | .postGroup body => ∀ record displayName, readScimBody body = .ok record →
      requireDisplayName services record = .ok displayName →
      createVerdict services organizationId d displayName (externalIdFrom services record) = none →
      PostsMembers services organizationId d record
  | .putGroup groupId body => ∀ group, d.findGroup organizationId groupId = some group →
      Spares groupAccount GroupUndone (d.groupStandingOf group) (putGroupAsks services (d.recordOf group) body)
  | .patchGroup groupId body => ∀ group, d.findGroup organizationId groupId = some group →
      Spares groupAccount GroupUndone (d.groupStandingOf group) (patchGroupAsks services body)

variable {services} {organizationId} {d first : Directory}

/-- A program that writes nothing and refuses nothing. -/
def Quiet {α : Type} (m : ScimM α) : Prop :=
  ∀ d, (m.outcome d).2 = d ∧ ∀ thrown, (m.outcome d).1 = .error thrown → ¬ thrown.Refusal

namespace Quiet

variable {α β : Type}

/-- An answer is quiet. -/
theorem answer (a : α) : Quiet (pure a : ScimM α) := by
  intro d
  refine ⟨rfl, fun thrown h => ?_⟩
  cases h

/-- Quiet programs in a row are quiet. -/
theorem bind {m : ScimM α} {f : α → ScimM β} (hm : Quiet m) (hf : ∀ a, Quiet (f a)) : Quiet (m >>= f) := by
  intro d
  obtain ⟨hkeeps, hthrows⟩ := hm d
  cases hout : m.outcome d with
  | mk r d' =>
    rw [hout] at hkeeps hthrows
    obtain rfl : d' = d := hkeeps
    cases r with
    | error =>
      rw [outcome_bind_error hout]
      exact ⟨rfl, fun thrown' h => hthrows thrown' (congrArg Except.error (Except.error.inj h))⟩
    | ok a =>
      rw [outcome_bind_ok hout]
      exact hf a d'

/-- A throw that is no refusal is quiet. -/
theorem throws {thrown : Thrown} (h : ¬ thrown.Refusal) : Quiet (throw thrown : ScimM α) := by
  intro d
  refine ⟨rfl, fun thrown' hthrown => ?_⟩
  cases hthrown
  exact h

theorem requireMember (organizationId userId : JsString) : Quiet (requireMember organizationId userId) := by
  intro d
  rw [Scim.requireMember, outcome_get_bind]
  cases d.member organizationId userId with
  | none => exact throws (by decide) d
  | some found => exact answer found d

/-- Finding a group is quiet. -/
theorem requireScimGroup (organizationId groupId : JsString) : Quiet (requireScimGroup organizationId groupId) := by
  intro d
  rw [Scim.requireScimGroup, outcome_get_bind]
  cases d.group organizationId groupId with
  | none => exact throws (by decide) d
  | some found => exact answer found d

theorem resolveScimActor (organizationId : JsString) : Quiet (resolveScimActor organizationId) := by
  intro d
  rw [outcome_resolveScimActor]
  cases d.actor organizationId with
  | none => exact throws (by decide) d
  | some actor => exact answer actor d

/-- An audit is quiet. -/
theorem scimAudit (organizationId : JsString) : Quiet (scimAudit organizationId) :=
  (resolveScimActor organizationId).bind fun _ => answer ()

theorem auditWhere (changed : Bool) (organizationId : JsString) :
    Quiet (if changed then Scim.scimAudit organizationId else pure ()) := by
  cases changed with
  | true => exact scimAudit organizationId
  | false => exact answer ()

end Quiet

/-- A refused request spares exactly where its account does. -/
theorem spares_iff {P W α β : Type} {A : Account P W Thrown} {I : Directory → P → Prop} {Undoes : P → List W → Prop}
    {p : P} {m : ScimM α} {f : α → ScimM β} {post : α → P → Prop} {ws : List W} (hm : Follows A I p m post ws)
    (hquiet : ∀ a, Quiet (f a)) (hfirst : I d p)
    (hsame : ∀ d' ws', I d' (ws'.foldl A.give p) → (d.Same d' ↔ Undoes p ws')) :
    (Refused ((m >>= f).outcome d).1 → d.Same ((m >>= f).outcome d).2) ↔ Spares A Undoes p (.ok ws) := by
  obtain ⟨hafter, hrefused⟩ := Follows.tail Thrown.Refusal hm (fun a s => (hquiet a s).1) (fun a s => (hquiet a s).2)
    hfirst
  rw [hsame _ (A.upTo p ws).1 hafter]
  unfold Spares Refused
  rw [hrefused]
  constructor
  · rintro h ws' hws thrown hthrown hrefusal
    cases hws
    exact h ⟨thrown, hthrown, hrefusal⟩
  · rintro h ⟨thrown, hthrown, hrefusal⟩
    exact h ws rfl thrown hthrown hrefusal

/-- The same behind a parse. -/
theorem spares_parse {P W α β : Type} {A : Account P W Thrown} {Undoes : P → List W → Prop} {p : P}
    (parse : Except Thrown α) {f : α → ScimM β} {asks : α → Except Thrown (List W)}
    (h : ∀ a, (Refused ((f a).outcome d).1 → d.Same ((f a).outcome d).2) ↔ Spares A Undoes p (asks a)) :
    (Refused ((Attempt.ofExcept parse >>= f).outcome d).1 → d.Same ((Attempt.ofExcept parse >>= f).outcome d).2) ↔
      Spares A Undoes p (parse >>= asks) := by
  cases parse with
  | error =>
    refine iff_of_true (fun _ => ⟨fun _ _ => rfl, fun _ _ => rfl⟩) ?_
    intro ws hws
    cases hws
  | ok a => exact h a

end Onecli.Scim
