import Onecli.Directory.Provision

/-!
# The seat cap

A membership is inserted after the seats were counted, by statements of their own: the cap holds exactly where every
insert still finds a seat free. That a person has one row and one membership, that one call reports created and that no
member is refused for quota holds however the calls are interleaved.
-/

namespace Onecli.Directory

open Api (JsString)
open List Option Bool Runs

namespace Tables

variable {t t' : Tables}

theorem findUser_eq_some_iff (email : JsString) (user : User) :
    t.findUser email = some user ↔ user ∈ t.users ∧ user.email = email := by
  constructor
  · intro h
    exact ⟨List.mem_of_find?_eq_some h, of_decide_eq_true (List.find?_some (p := fun user : User => user.email = email) h)⟩
  · rintro ⟨hmem, rfl⟩
    cases h : t.findUser user.email with
    | none => exact absurd (List.mem_map_of_mem hmem) (not_mem_of_findUser h)
    | some other =>
      have hemail := of_decide_eq_true (List.find?_some (p := fun other : User => other.email = user.email) h)
      rw [inj_on_of_nodup_map t.emails (List.mem_of_find?_eq_some h) hmem hemail]

theorem findMembership_ne_none_iff (userId : ℕ) :
    t.findMembership userId ≠ none ↔ ∃ member ∈ t.members, member.userId = userId := by
  constructor
  · intro h
    obtain ⟨member, hmember⟩ := Option.ne_none_iff_exists'.mp h
    have hid := List.find?_some (p := fun member : OrganizationMember => member.userId = userId) hmember
    exact ⟨member, List.mem_of_find?_eq_some hmember, of_decide_eq_true hid⟩
  · rintro ⟨member, hmem, rfl⟩ hnone
    exact not_mem_of_findMembership hnone (List.mem_map_of_mem hmem)

/-- Rows are added and none goes. -/
structure Grows (t t' : Tables) : Prop where
  users : ∀ user ∈ t.users, user ∈ t'.users
  members : ∀ member ∈ t.members, member ∈ t'.members

theorem Grows.refl (t : Tables) : t.Grows t := ⟨fun _ h => h, fun _ h => h⟩

theorem grows_createUser (email : JsString) (name : Option JsString) (h : t.findUser email = none) :
    t.Grows (t.createUser email name h) :=
  ⟨fun _ huser => mem_append_left _ huser, fun _ hmember => hmember⟩

theorem grows_createMembership (member : OrganizationMember) (h : t.findMembership member.userId = none) :
    t.Grows (t.createMembership member h) :=
  ⟨fun _ huser => huser, fun _ hmember => mem_append_left _ hmember⟩

theorem Grows.findMembership (h : t.Grows t') {userId : ℕ} (hmember : t.findMembership userId ≠ none) :
    t'.findMembership userId ≠ none := by
  obtain ⟨member, hmem, hid⟩ := (findMembership_ne_none_iff userId).mp hmember
  exact (findMembership_ne_none_iff userId).mpr ⟨member, h.members member hmem, hid⟩

theorem isMember_of_findUser {email : JsString} {user : User} (h : t.findUser email = some user) :
    t.isMember email = true ↔ t.findMembership user.id ≠ none := by
  rw [isMember, h, any_some, isSome_iff_ne_none]

theorem Grows.isMember (h : t.Grows t') {email : JsString} (hmember : t.isMember email = true) :
    t'.isMember email = true := by
  cases hfind : t.findUser email with
  | none =>
    rw [Tables.isMember, hfind] at hmember
    cases hmember
  | some user =>
    obtain ⟨huser, hemail⟩ := (findUser_eq_some_iff email user).mp hfind
    have hfind' := (findUser_eq_some_iff (t := t') email user).mpr ⟨h.users user huser, hemail⟩
    exact (isMember_of_findUser hfind').mpr (h.findMembership ((isMember_of_findUser hfind).mp hmember))

/-- Time frees seats at most. -/
theorem seats_tick_le (t : Tables) : t.tick.seats ≤ t.seats := by
  refine Nat.add_le_add_left (List.Sublist.length_le ?_) _
  refine monotone_filter_right t.invitations fun invitation hpend => ?_
  rw [and_eq_true, decide_eq_true_eq] at hpend ⊢
  exact ⟨hpend.1, Nat.le_of_succ_le hpend.2⟩

theorem seats_createMembership (member : OrganizationMember) (h : t.findMembership member.userId = none) :
    (t.createMembership member h).seats = t.seats + 1 := by
  have hmems : (t.createMembership member h).countMembers = t.countMembers + 1 := length_append
  have hpend : (t.createMembership member h).countPendingInvites = t.countPendingInvites := rfl
  rw [seats, seats, hmems, hpend, Nat.add_right_comm]

end Tables

/-- The user that a call has is the row of its person. -/
def Request.Row (t : Tables) (request : Request) (userId : ℕ) : Prop :=
  ∃ user ∈ t.users, user.id = userId ∧ user.email = request.email

/-- What a call knows of the tables. -/
def Knows (t : Tables) : Point → Prop
  | .findUser request => request.member = true → t.isMember request.email = true
  | .createUser request | .adoptUser request => request.member = false
  | .findMembership request user =>
    request.Row t user.userId ∧ (request.member = true → t.findMembership user.userId ≠ none)
  | .countSeats request user _ _ | .createMembership request user | .findRaced request user =>
    request.Row t user.userId ∧ request.member = false
  | .returned request member =>
    request.Row t member.userId ∧ (member.created = true → t.findMembership member.userId ≠ none)
  | .quotaExceeded request _ => request.member = false
  | _ => True

variable {t t' : Tables} {request : Request} {maxMembers : ℕ}

/-- A person keeps the row. -/
theorem Request.Row.grows {userId : ℕ} (h : request.Row t userId) (hgrows : t.Grows t') : request.Row t' userId := by
  obtain ⟨user, huser, hrow⟩ := h
  exact ⟨user, hgrows.users user huser, hrow⟩

theorem Knows.grows {p : Point} (h : Knows t p) (hgrows : t.Grows t') : Knows t' p := by
  cases p with
  | findUser => exact fun hmember => hgrows.isMember (h hmember)
  | findMembership => exact ⟨h.1.grows hgrows, fun hmember => hgrows.findMembership (h.2 hmember)⟩
  | returned => exact ⟨h.1.grows hgrows, fun hcreated => hgrows.findMembership (h.2 hcreated)⟩
  | countSeats request user members pendingInvites | createMembership request user | findRaced request user => exact ⟨h.1.grows hgrows, h.2⟩
  | _ => exact h

theorem Request.row_of_findUser {t : Tables} {user : User} (h : t.findUser request.email = some user) :
    request.Row t user.id := by
  obtain ⟨huser, hemail⟩ := (Tables.findUser_eq_some_iff request.email user).mp h
  exact ⟨user, huser, rfl, hemail⟩

theorem knows_assertCanInviteMember {t : Tables} {user : DirectoryUser} {members pendingInvites : Option ℕ}
    (h : request.Row t user.userId ∧ request.member = false) :
    Knows t (assertCanInviteMember maxMembers request user members pendingInvites) := by
  unfold assertCanInviteMember
  split
  · split
    · exact h.2
    · exact h
  · exact h

/-- Two calls do not both report created for one person. -/
def Apart (p q : Point) : Prop :=
  ∀ r s a b, p = .returned r a → q = .returned s b → a.created = true → b.created = true → r.email ≠ s.email

/-- Calls are apart either way. -/
theorem Apart.symm {p q : Point} (h : Apart p q) : Apart q p :=
  fun r s a b hp hq ha hb heq => h s r b a hq hp hb ha heq.symm

theorem apart_of_not_created {p : Point} (h : ∀ r a, p = .returned r a → a.created = false) (q : Point) : Apart p q := by
  intro r s a b hp _ ha
  rw [h r a hp] at ha
  cases ha

/-- What a statement does: rows are added at most, its call knows what it did, it takes no seat but by inserting a
membership, and it reports created only for a person who had none. -/
structure Advances (maxMembers : ℕ) (t : Tables) (p : Point) (t' : Tables) (p' : Point) : Prop where
  grows : t.Grows t'
  knows : Knows t' p'
  seats : t'.seats ≤ t.seats ∨ ∃ request user, p = .createMembership request user ∧
    t.findMembership user.userId = none ∧ t'.seats = t.seats + 1
  created : p' = p ∨ ∀ r a, p' = .returned r a → a.created = true → t.findMembership a.userId = none

/-- A read takes no seat. -/
theorem Advances.read {p p' q : Point} (hexec : some (t, q) = some (t', p')) (hknows : Knows t q)
    (hcreated : ∀ r a, q = .returned r a → a.created = false) : Advances maxMembers t p t' p' := by
  cases hexec
  refine ⟨.refl t, hknows, .inl le_rfl, .inr fun r a hp ha => ?_⟩
  rw [hcreated r a hp] at ha
  cases ha

/-- The check returns no member. -/
theorem assertCanInviteMember_ne_returned (maxMembers : ℕ) (request : Request) (user : DirectoryUser)
    (members pendingInvites : Option ℕ) (r : Request) (a : ProvisionedMember) :
    assertCanInviteMember maxMembers request user members pendingInvites ≠ .returned r a := by
  unfold assertCanInviteMember
  split
  · split <;> simp
  · simp

theorem advances_exec {toLowerCase : JsString → JsString} {c : Choice} {p p' : Point} (h : Knows t p)
    (hexec : exec toLowerCase maxMembers c t p = some (t', p')) : Advances maxMembers t p t' p' := by
  unfold exec at hexec
  split at hexec
  · -- time passes
    cases hexec
    have hgrows : t.Grows t.tick := ⟨fun _ huser => huser, fun _ hmember => hmember⟩
    exact ⟨hgrows, h.grows hgrows, .inl t.seats_tick_le, .inl rfl⟩
  · split at hexec
    · exact Advances.read hexec id (by simp)
    · exact Advances.read hexec trivial (by simp)
  · split at hexec
    · rename_i user hfind
      refine Advances.read hexec ⟨Request.row_of_findUser hfind, fun hmember => ?_⟩ (by simp)
      exact (Tables.isMember_of_findUser hfind).mp (h hmember)
    · rename_i hnone
      refine Advances.read hexec ?_ (by simp)
      -- who has no row is no member
      by_contra hmember
      have hsome := h (eq_true_of_not_eq_false hmember)
      rw [Tables.isMember, hnone] at hsome
      cases hsome
  · rename_i request
    split at hexec
    · rename_i hnone
      cases hexec
      have hgrows := Tables.grows_createUser request.email request.name hnone
      refine ⟨hgrows, ⟨⟨_, mem_append_right _ mem_cons_self, rfl, rfl⟩, fun hmember => ?_⟩, .inl le_rfl,
        .inr (by simp)⟩
      have hnot : request.member = false := h
      rw [hnot] at hmember
      cases hmember
    · exact Advances.read hexec h (by simp)
  · rename_i request
    split at hexec
    · rename_i user hfind
      refine Advances.read hexec ⟨Request.row_of_findUser hfind, fun hmember => ?_⟩ (by simp)
      have hnot : request.member = false := h
      rw [hnot] at hmember
      cases hmember
    · exact Advances.read hexec trivial (by simp)
  · split at hexec
    · refine .read hexec ⟨h.1, fun hcreated => ?_⟩ fun r a heq => ?_
      · cases hcreated
      · rw [← (Point.returned.inj heq).2]
        rfl
    · rename_i hnone
      refine Advances.read hexec ⟨h.1, ?_⟩ (by simp)
      by_contra hmember
      exact h.2 (eq_true_of_not_eq_false hmember) hnone
  · exact .read hexec (knows_assertCanInviteMember h) fun r a heq =>
      absurd heq (assertCanInviteMember_ne_returned _ _ _ _ _ r a)
  · exact .read hexec (knows_assertCanInviteMember h) fun r a heq =>
      absurd heq (assertCanInviteMember_ne_returned _ _ _ _ _ r a)
  · rename_i request user
    dsimp only at hexec
    split at hexec
    · rename_i hnone
      cases hexec
      have hgrows := Tables.grows_createMembership ⟨user.userId, user.email, .member, .active⟩ hnone
      refine ⟨hgrows, ⟨h.1.grows hgrows, fun _ => ?_⟩,
        Or.inr ⟨request, user, rfl, hnone, Tables.seats_createMembership _ hnone⟩, Or.inr fun r a heq _ => ?_⟩
      · exact (Tables.findMembership_ne_none_iff _).mpr ⟨_, mem_append_right _ mem_cons_self, rfl⟩
      · rw [← (Point.returned.inj heq).2]
        exact hnone
    · exact Advances.read hexec h (by simp)
  · split at hexec
    · refine .read hexec ⟨h.1, fun hcreated => ?_⟩ fun r a heq => ?_
      · cases hcreated
      · rw [← (Point.returned.inj heq).2]
        rfl
    · exact Advances.read hexec trivial (by simp)
  · cases hexec

/-- Each call knows what it did, and no two report created for one person. -/
def Sound (w : World) : Prop := Calls.HoldsApart (fun _ => True) Knows Apart w

namespace Sound

variable {toLowerCase : JsString → JsString} {maxMembers : ℕ} {w w' : World} {e : ℕ × Choice}

/-- Idle calls know nothing. -/
theorem initial (t : Tables) : Sound (initial t) where
  db := trivial
  calls := fun _ => trivial
  apart := fun _ _ _ => apart_of_not_created (by simp [Directory.initial]) _

/-- Every statement keeps what the calls know. -/
theorem step (h : Sound w) (hstep : Directory.step toLowerCase maxMembers w e = some w') : Sound w' := by
  refine Calls.HoldsApart.step _ (fun _ _ => Apart.symm) h hstep fun t p hexec => ?_
  have hadvances := advances_exec (h.calls e.1) hexec
  refine ⟨trivial, hadvances.knows, fun j hj => ⟨(h.calls j).grows hadvances.grows, ?_⟩⟩
  rcases hadvances.created with rfl | hnone
  · exact h.apart e.1 j (Ne.symm hj)
  · intro r s a b hp hq ha hb hemail
    -- the other person has a membership, this one had none
    have hother : Knows w.db (.returned s b) := hq ▸ h.calls j
    have hmine : Knows t (.returned r a) := hp ▸ hadvances.knows
    obtain ⟨user, huser, hid, hrow⟩ := hmine.1
    obtain ⟨user', huser', hid', hrow'⟩ := hother.1.grows hadvances.grows
    obtain rfl := inj_on_of_nodup_map t.emails huser huser' (hrow.trans (hemail.trans hrow'.symm))
    refine hother.2 hb ?_
    rw [← hid', hid]
    exact hnone r a hp ha

/-- What the calls know gives the claims about persons. -/
theorem properties (h : Sound w) : w.Unique ∧ w.CreatedOnce ∧ w.RefusedNoMember := by
  refine ⟨⟨w.db.emails, w.db.memberships⟩, fun i j r s a b hi hj ha hb hemail => ?_, fun i r count hi => ?_⟩
  · by_contra hne
    exact h.apart i j hne r s a b hi hj ha hb hemail
  · have hknows := h.calls i
    rw [hi] at hknows
    exact hknows

end Sound

/-- One row and one membership a person, one call that reports created and no refusal of a member, however the calls are
interleaved. -/
theorem run_unique (toLowerCase : JsString → JsString) (maxMembers : ℕ) (t : Tables) (es : List (ℕ × Choice)) :
    Runs.Throughout (step toLowerCase maxMembers) (fun w => w.Unique ∧ w.CreatedOnce ∧ w.RefusedNoMember) (initial t)
      es := by
  intro front back w hsplit hrun
  have hsound := throughout_of_meets (step toLowerCase maxMembers) (I := Sound) (fun _ _ _ h _ hstep => h.step hstep)
    (.initial t) (meets_true _ (initial t) es)
  exact (hsound front back w hsplit hrun).properties

/-- From within the cap, a statement stays there exactly where `SeatFree` holds. -/
theorem capped_iff {toLowerCase : JsString → JsString} {maxMembers : ℕ} {w w' : World} {e : ℕ × Choice} (h : Sound w)
    (hcapped : w.Capped maxMembers) (hstep : step toLowerCase maxMembers w e = some w') :
    w'.Capped maxMembers ↔ SeatFree maxMembers w e := by
  obtain ⟨t, p, hexec, rfl⟩ := (Calls.step_eq_some_iff _ w w' e).mp hstep
  constructor
  · intro hcap
    unfold SeatFree
    split
    · rename_i hchoice hpoint
      intro hnone
      rw [hchoice, hpoint, exec, dif_pos hnone] at hexec
      obtain ⟨rfl, -⟩ := Prod.mk.inj (some.inj hexec)
      rw [World.Capped, Tables.seats_createMembership _ hnone] at hcap
      exact hcap
    · trivial
  · intro hfree
    rcases (advances_exec (h.calls e.1) hexec).seats with hle | ⟨request, user, hpoint, hnone, hseats⟩
    · exact hle.trans hcapped
    · cases hchoice : e.2 with
      | go =>
        rw [SeatFree, hchoice, hpoint] at hfree
        exact hseats.le.trans (hfree hnone)
      | tick =>
        rw [hchoice] at hexec
        obtain ⟨rfl, -⟩ := Prod.mk.inj (some.inj hexec)
        exact w.db.seats_tick_le.trans hcapped
      | _ =>
        rw [hchoice, hpoint] at hexec
        cases hexec

/-- The seats in use stay within the limit exactly where every membership is inserted while a seat is free. -/
theorem seat_cap_exact {toLowerCase : JsString → JsString} {maxMembers : ℕ} {t : Tables} (hstart : t.seats ≤ maxMembers)
    {es : List (ℕ × Choice)} {w : World} (hrun : run (step toLowerCase maxMembers) (initial t) es = some w) :
    Runs.Throughout (step toLowerCase maxMembers)
        (fun w => w.Capped maxMembers ∧ w.Unique ∧ w.CreatedOnce ∧ w.RefusedNoMember) (initial t) es ↔
      Runs.Meets (step toLowerCase maxMembers) (SeatFree maxMembers) (initial t) es := by
  exact throughout_iff_meets_of_iff _ (fun _ _ _ => Sound.step) (fun _ _ _ => capped_iff)
    (fun _ h => and_iff_left h.properties) (.initial t) hstart hrun

/-- An organization without a member. -/
def Tables.none : Tables := ⟨[], [], [], 0, 0, by simp, by simp, by simp, by simp⟩

/-- A call up to its counts. -/
def counted (i : ℕ) (rawEmail : String) : List (ℕ × Choice) :=
  [(i, .start (Utf16.js rawEmail) .none), (i, .go), (i, .go), (i, .go), (i, .go), (i, .goInvites)]

/-- Two seats are enough for two calls that count before either inserts. -/
theorem seat_cap_exact_two :
    Runs.Throughout (step id 2) (fun w => w.Capped 2 ∧ w.Unique ∧ w.CreatedOnce ∧ w.RefusedNoMember)
      (initial Tables.none) (counted 0 "a@x" ++ counted 1 "b@x" ++ [(0, .go), (1, .go)]) := by
  obtain ⟨w, hw⟩ := Option.isSome_iff_exists.mp
    (show (run (step id 2) (initial .none)
      (counted 0 "a@x" ++ counted 1 "b@x" ++ [(0, .go), (1, .go)])).isSome by decide +kernel)
  exact (seat_cap_exact (by decide) hw).mpr (by decide +kernel)

/-- One seat is taken twice where both calls count before either inserts. -/
theorem seat_taken_twice :
    ¬ Runs.Throughout (step id 1) (fun w => w.Capped 1 ∧ w.Unique ∧ w.CreatedOnce ∧ w.RefusedNoMember)
      (initial Tables.none) (counted 0 "a@x" ++ counted 1 "b@x" ++ [(0, .go), (1, .go)]) := by
  intro hall
  obtain ⟨w, hw⟩ := Option.isSome_iff_exists.mp
    (show (run (step id 1) (initial .none)
      (counted 0 "a@x" ++ counted 1 "b@x" ++ [(0, .go), (1, .go)])).isSome by decide +kernel)
  have hseats : (run (step id 1) (initial .none)
      (counted 0 "a@x" ++ counted 1 "b@x" ++ [(0, .go), (1, .go)])).all (fun w => 1 < w.db.seats) = true := by
    decide +kernel
  rw [hw, Option.all_some, decide_eq_true_eq] at hseats
  exact Nat.not_le.mpr hseats (hall _ [] w (List.append_nil _).symm hw).1

/-! ## Calls that do not overlap -/

/-- A call has counted and has not inserted yet. -/
def Point.counted : Point → Bool
  | .countSeats _ _ members pendingInvites => members.isSome || pendingInvites.isSome
  | .createMembership .. => true
  | _ => false

/-- No call inserts while another has counted and has not inserted yet. -/
def Alone (w : World) (e : ℕ × Choice) : Prop :=
  (∃ request user, w.calls e.1 = .createMembership request user) → ∀ j ≠ e.1, (w.calls j).counted = false

/-- The counts of a call are not below what they count, and a call that is about to insert finds a seat free. -/
def Counts (maxMembers : ℕ) (t : Tables) : Point → Prop
  | .countSeats _ _ members pendingInvites =>
    (∀ n ∈ members, t.countMembers ≤ n) ∧ ∀ n ∈ pendingInvites, t.countPendingInvites ≤ n
  | .createMembership .. => t.seats < maxMembers
  | _ => True

/-- Before its counts a call has none to be wrong. -/
theorem counts_of_not_counted {p : Point} (h : p.counted = false) : Counts maxMembers t p := by
  cases p with
  | countSeats _ _ members pendingInvites =>
    obtain ⟨hmembers, hpending⟩ := or_eq_false_iff.mp h
    rw [isSome_eq_false_iff, isNone_iff_eq_none] at hmembers hpending
    subst hmembers hpending
    exact ⟨fun n hn => (by cases hn), fun n hn => (by cases hn)⟩
  | createMembership => cases h
  | _ => trivial

/-- Counts stay right while no row is added and invitations only expire. -/
theorem Counts.mono {p : Point} (h : Counts maxMembers t p) (hmembers : t'.countMembers ≤ t.countMembers)
    (hpending : t'.countPendingInvites ≤ t.countPendingInvites) : Counts maxMembers t' p := by
  cases p with
  | countSeats => exact ⟨fun n hn => hmembers.trans (h.1 n hn), fun n hn => hpending.trans (h.2 n hn)⟩
  | createMembership => exact (Nat.add_le_add hmembers hpending).trans_lt h
  | _ => trivial

/-- Counts that are not below leave a seat free where the check passes. -/
theorem counts_assertCanInviteMember {user : DirectoryUser} {members pendingInvites : Option ℕ}
    (hmembers : ∀ n ∈ members, t.countMembers ≤ n) (hpending : ∀ n ∈ pendingInvites, t.countPendingInvites ≤ n) :
    Counts maxMembers t (assertCanInviteMember maxMembers request user members pendingInvites) := by
  unfold assertCanInviteMember
  split
  · rename_i m p
    split
    · trivial
    · rename_i hfree
      exact (Nat.add_le_add (hmembers m rfl) (hpending p rfl)).trans_lt (Nat.lt_of_not_le hfree)
  · exact ⟨hmembers, hpending⟩

/-- A statement of another call than an insert leaves the members and adds no pending invitation, and its call's
counts are right after it. -/
theorem counts_exec {toLowerCase : JsString → JsString} {c : Choice} {p p' : Point} (h : Counts maxMembers t p)
    (hexec : exec toLowerCase maxMembers c t p = some (t', p')) : Counts maxMembers t' p' ∧
      ((∃ request user, p = .createMembership request user) ∨
        t'.countMembers ≤ t.countMembers ∧ t'.countPendingInvites ≤ t.countPendingInvites) := by
  have hsame {q : Point} (hq : some (t, q) = some (t', p')) (hcounts : Counts maxMembers t q) :
      Counts maxMembers t' p' ∧ ((∃ request user, p = .createMembership request user) ∨
        t'.countMembers ≤ t.countMembers ∧ t'.countPendingInvites ≤ t.countPendingInvites) := by
    cases hq
    exact ⟨hcounts, .inr ⟨le_rfl, le_rfl⟩⟩
  unfold exec at hexec
  split at hexec
  · cases hexec
    have hpending : t.tick.countPendingInvites ≤ t.countPendingInvites :=
      Nat.le_of_add_le_add_left (a := t.countMembers) t.seats_tick_le
    exact ⟨h.mono le_rfl hpending, .inr ⟨le_rfl, hpending⟩⟩
  · split at hexec <;> exact hsame hexec trivial
  · split at hexec <;> exact hsame hexec trivial
  · split at hexec
    · cases hexec
      exact ⟨trivial, .inr ⟨le_rfl, le_rfl⟩⟩
    · exact hsame hexec trivial
  · split at hexec <;> exact hsame hexec trivial
  · split at hexec
    · exact hsame hexec trivial
    · exact hsame hexec ⟨fun n hn => (by cases hn), fun n hn => (by cases hn)⟩
  · refine hsame hexec (counts_assertCanInviteMember (fun n hn => ?_) h.2)
    exact (Option.some.inj hn).le
  · refine hsame hexec (counts_assertCanInviteMember h.1 fun n hn => ?_)
    exact (Option.some.inj hn).le
  · rename_i request user
    refine ⟨?_, .inl ⟨request, user, rfl⟩⟩
    dsimp only at hexec
    split at hexec <;> cases hexec <;> trivial
  · split at hexec <;> exact hsame hexec trivial
  · cases hexec

/-- The seats stay within the limit in every run in which no call inserts while another has counted and has not
inserted yet. -/
theorem capped_of_alone {toLowerCase : JsString → JsString} (hstart : t.seats ≤ maxMembers)
    {es : List (ℕ × Choice)} (halone : Runs.Meets (step toLowerCase maxMembers) Alone (initial t) es) :
    Runs.Throughout (step toLowerCase maxMembers) (World.Capped maxMembers) (initial t) es := by
  let I (w : World) : Prop := Sound w ∧ w.Capped maxMembers ∧ ∀ i, Counts maxMembers w.db (w.calls i)
  have hkeeps (w : World) (e : ℕ × Choice) (w' : World) (h : I w) (hin : Alone w e)
      (hstep : step toLowerCase maxMembers w e = some w') : I w' := by
    obtain ⟨hsound, hcapped, hcounts⟩ := h
    have hfree : SeatFree maxMembers w e := by
      unfold SeatFree
      split
      · rename_i hpoint
        have hmine := hcounts e.1
        rw [hpoint] at hmine
        exact fun _ => hmine
      · trivial
    refine ⟨hsound.step hstep, (capped_iff hsound hcapped hstep).mpr hfree, fun j => ?_⟩
    obtain ⟨hexec, hothers⟩ := Calls.exec_of_step _ hstep
    obtain ⟨hmine, hkind⟩ := counts_exec (hcounts e.1) hexec
    by_cases hj : j = e.1
    · rw [hj]
      exact hmine
    · rw [hothers j hj]
      rcases hkind with hinsert | ⟨hmembers, hpending⟩
      · exact counts_of_not_counted (hin hinsert j hj)
      · exact (hcounts j).mono hmembers hpending
  have hall := throughout_of_meets _ hkeeps ⟨.initial t, hstart, fun _ => trivial⟩ halone
  exact fun front back w hsplit hfront => (hall front back w hsplit hfront).2.1

end Onecli.Directory
