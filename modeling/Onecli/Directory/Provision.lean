import Onecli.Api.Evaluator
import Onecli.Foundation.Calls

/-!
# Provisioning a member

`upsertUserByEmail` and `provisionMember` of `org-directory-service.ts` with the quota that they answer to, for one
organization. Every statement is atomic; between two statements of a call any others are executed. The limit is the
finite one of the organization's plan, and no invitation is added, so that what is pending only expires.

The Unicode `toLowerCase` is a parameter. A call carries whether its person was a member when it started, which no
statement reads.
-/

namespace Onecli.Directory

open List

open Api (JsString trim unit)

/-- A row of `users`. -/
structure User where
  id : ℕ
  email : JsString
  name : Option JsString

/-- The role of a membership. -/
inductive Role where
  | owner
  | admin
  | member
  deriving DecidableEq

/-- The status of a membership. -/
inductive MemberStatus where
  | active
  | suspended
  deriving DecidableEq

/-- A row of `organization_members` of the organization. -/
structure OrganizationMember where
  userId : ℕ
  userEmail : JsString
  role : Role
  status : MemberStatus
  deriving DecidableEq

/-- A row of `invitations` of the organization. -/
structure Invitation where
  email : JsString
  pending : Bool
  expiresAt : ℕ

/-- The tables, with the unique constraints on them. -/
structure Tables where
  users : List User
  members : List OrganizationMember
  invitations : List Invitation
  minted : ℕ
  now : ℕ
  fresh : ∀ user ∈ users, user.id < minted
  ids : (users.map (·.id)).Nodup
  emails : (users.map (·.email)).Nodup
  memberships : (members.map (·.userId)).Nodup

namespace Tables

/-- `db.user.findUnique` by the email. -/
def findUser (t : Tables) (email : JsString) : Option User := t.users.find? fun user => user.email = email

/-- `db.organizationMember.findUnique` by the user. -/
def findMembership (t : Tables) (userId : ℕ) : Option OrganizationMember :=
  t.members.find? fun member => member.userId = userId

/-- A person is a member. -/
def isMember (t : Tables) (email : JsString) : Bool :=
  (t.findUser email).any fun user => (t.findMembership user.id).isSome

/-- The members that `countSeatsInUse` counts. -/
def countMembers (t : Tables) : ℕ := t.members.length

/-- The invitations that `countSeatsInUse` counts. -/
def countPendingInvites (t : Tables) : ℕ :=
  (t.invitations.filter fun invitation => invitation.pending && t.now ≤ invitation.expiresAt).length

/-- The seats in use. -/
def seats (t : Tables) : ℕ := t.countMembers + t.countPendingInvites

theorem not_mem_of_findUser {t : Tables} {email : JsString} (h : t.findUser email = none) :
    email ∉ t.users.map (·.email) := by
  intro hmem
  obtain ⟨user, huser, hemail⟩ := mem_map.mp hmem
  exact absurd (decide_eq_true hemail) (find?_eq_none.mp h user huser)

theorem not_mem_of_findMembership {t : Tables} {userId : ℕ} (h : t.findMembership userId = none) :
    userId ∉ t.members.map (·.userId) := by
  intro hmem
  obtain ⟨member, hmember, hid⟩ := mem_map.mp hmem
  exact absurd (decide_eq_true hid) (find?_eq_none.mp h member hmember)

/-- `db.user.create` for an email that no row has. -/
def createUser (t : Tables) (email : JsString) (name : Option JsString) (h : t.findUser email = none) : Tables where
  users := t.users ++ [⟨t.minted, email, name⟩]
  members := t.members
  invitations := t.invitations
  minted := t.minted + 1
  now := t.now
  fresh := by
    intro user huser
    rcases mem_append.mp huser with huser | huser
    · exact Nat.lt_succ_of_lt (t.fresh user huser)
    · rw [mem_singleton.mp huser]
      exact Nat.lt_succ_self t.minted
  ids := by
    rw [map_append, map_singleton]
    refine List.Nodup.append t.ids (nodup_singleton _) (disjoint_singleton.mpr fun hmem => ?_)
    obtain ⟨user, huser, hid⟩ := mem_map.mp hmem
    exact Nat.ne_of_lt (t.fresh user huser) hid
  emails := by
    rw [map_append, map_singleton]
    exact List.Nodup.append t.emails (nodup_singleton _) (disjoint_singleton.mpr (not_mem_of_findUser h))
  memberships := t.memberships

/-- `db.organizationMember.create` for a user that no row has. -/
def createMembership (t : Tables) (member : OrganizationMember) (h : t.findMembership member.userId = none) :
    Tables where
  users := t.users
  members := t.members ++ [member]
  invitations := t.invitations
  minted := t.minted
  now := t.now
  fresh := t.fresh
  ids := t.ids
  emails := t.emails
  memberships := by
    rw [map_append, map_singleton]
    exact List.Nodup.append t.memberships (nodup_singleton _)
      (disjoint_singleton.mpr (not_mem_of_findMembership h))

/-- Time passes. -/
def tick (t : Tables) : Tables := { t with now := t.now + 1 }

end Tables

/-- `normalizeEmail`. -/
def normalizeEmail (toLowerCase : JsString → JsString) (rawEmail : JsString) : Option JsString :=
  let email := toLowerCase (trim rawEmail)
  if email.contains (unit '@') then some email else none

/-- What `provisionMember` is called with, and whether the person was a member then. -/
structure Request where
  email : JsString
  name : Option JsString
  member : Bool

/-- `DirectoryUser`. -/
structure DirectoryUser where
  userId : ℕ
  email : JsString
  name : Option JsString
  created : Bool

/-- `ProvisionedMember`. -/
structure ProvisionedMember where
  userId : ℕ
  email : JsString
  name : Option JsString
  role : Role
  status : MemberStatus
  created : Bool
  userCreated : Bool

/-- What is answered of a membership. -/
def DirectoryUser.provisioned (user : DirectoryUser) (membership : OrganizationMember) (created : Bool) :
    ProvisionedMember :=
  ⟨user.userId, user.email, user.name, membership.role, membership.status, created, user.created⟩

/-- Where a call of `provisionMember` stands: at the statement that is next, or at its end. -/
inductive Point where
  | idle
  | findUser (request : Request)
  | createUser (request : Request)
  | adoptUser (request : Request)
  | findMembership (request : Request) (user : DirectoryUser)
  | countSeats (request : Request) (user : DirectoryUser) (members pendingInvites : Option ℕ)
  | createMembership (request : Request) (user : DirectoryUser)
  | findRaced (request : Request) (user : DirectoryUser)
  | returned (request : Request) (member : ProvisionedMember)
  | quotaExceeded (request : Request) (count : ℕ)
  | badRequest
  | failed

/-- What a step chooses: a call starts or goes on, and where it counts, which of the two counts is answered. -/
inductive Choice where
  | start (rawEmail : JsString) (name : Option JsString)
  | go
  | goInvites
  | tick

/-- `assertCanInviteMember`, once both counts are there. -/
def assertCanInviteMember (maxMembers : ℕ) (request : Request) (user : DirectoryUser) (members pendingInvites : Option ℕ) :
    Point :=
  match members, pendingInvites with
  | some members, some pendingInvites =>
    if maxMembers ≤ members + pendingInvites then .quotaExceeded request (members + pendingInvites)
    else .createMembership request user
  | _, _ => .countSeats request user members pendingInvites

/-- A statement of `provisionMember`. -/
def exec (toLowerCase : JsString → JsString) (maxMembers : ℕ) : Calls.Exec Tables Point Choice
  | .tick, t, p => some (t.tick, p)
  | .start rawEmail name, t, .idle =>
    match normalizeEmail toLowerCase rawEmail with
    | some email => some (t, .findUser ⟨email, name, t.isMember email⟩)
    | none => some (t, .badRequest)
  | .go, t, .findUser request =>
    match t.findUser request.email with
    | some user => some (t, .findMembership request ⟨user.id, user.email, user.name, false⟩)
    | none => some (t, .createUser request)
  | .go, t, .createUser request =>
    if h : t.findUser request.email = none then
      some (t.createUser request.email request.name h,
        .findMembership request ⟨t.minted, request.email, request.name, true⟩)
    else some (t, .adoptUser request)
  | .go, t, .adoptUser request =>
    match t.findUser request.email with
    | some user => some (t, .findMembership request ⟨user.id, user.email, user.name, false⟩)
    | none => some (t, .failed)
  | .go, t, .findMembership request user =>
    match t.findMembership user.userId with
    | some membership => some (t, .returned request (user.provisioned membership false))
    | none => some (t, .countSeats request user none none)
  | .go, t, .countSeats request user none pendingInvites =>
    some (t, assertCanInviteMember maxMembers request user (some t.countMembers) pendingInvites)
  | .goInvites, t, .countSeats request user members none =>
    some (t, assertCanInviteMember maxMembers request user members (some t.countPendingInvites))
  | .go, t, .createMembership request user =>
    let membership : OrganizationMember := ⟨user.userId, user.email, .member, .active⟩
    if h : t.findMembership user.userId = none then
      some (t.createMembership membership h, .returned request (user.provisioned membership true))
    else some (t, .findRaced request user)
  | .go, t, .findRaced request user =>
    match t.findMembership user.userId with
    | some raced => some (t, .returned request (user.provisioned raced false))
    | none => some (t, .failed)
  | _, _, _ => none

/-- The tables and the calls of `provisionMember`. -/
abbrev World := Calls.World Tables Point

/-- A call goes on. -/
abbrev step (toLowerCase : JsString → JsString) (maxMembers : ℕ) : World → ℕ × Choice → Option World :=
  Calls.step (exec toLowerCase maxMembers)

/-- Tables on which no call has started. -/
def initial (t : Tables) : World := ⟨t, fun _ => .idle⟩

namespace World

/-- The seats in use are within the limit. -/
def Capped (maxMembers : ℕ) (w : World) : Prop := w.db.seats ≤ maxMembers

/-- No person has two rows of `users`, and no user has two memberships. -/
def Unique (w : World) : Prop := (w.db.users.map (·.email)).Nodup ∧ (w.db.members.map (·.userId)).Nodup

/-- Two calls that report created are for different persons. -/
def CreatedOnce (w : World) : Prop :=
  ∀ i j r s a b, w.calls i = .returned r a → w.calls j = .returned s b → a.created = true → b.created = true →
    r.email = s.email → i = j

/-- A call that is refused for quota is for a person who was no member when it started. -/
def RefusedNoMember (w : World) : Prop := ∀ i r count, w.calls i = .quotaExceeded r count → r.member = false

end World

/-- Where a membership is inserted, a seat is free. -/
def SeatFree (maxMembers : ℕ) (w : World) (e : ℕ × Choice) : Prop :=
  match e.2, w.calls e.1 with
  | .go, .createMembership _ user => w.db.findMembership user.userId = none → w.db.seats < maxMembers
  | _, _ => True

instance (maxMembers : ℕ) (w : World) (e : ℕ × Choice) : Decidable (SeatFree maxMembers w e) := by
  cases e with
  | mk i choice =>
    unfold SeatFree
    generalize w.calls i = point
    cases choice <;> cases point <;> infer_instance

end Onecli.Directory
