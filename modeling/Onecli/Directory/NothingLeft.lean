import Onecli.Directory.Removal

/-!
# Removal leaves nothing behind

The removal reads and deletes by statements of their own, and the writers check the membership before they insert.
What a removal has deleted stays away, and a workspace that it has listed stays the user's alone, as long as no row is
written that a removal under way has passed by: then nothing of a removed user is left, and nothing shared is destroyed.
-/

namespace Onecli.Directory.Removal

open List Bool Runs

namespace Tables

variable {t t' : Tables}

/-- No group has the user, and no binding names it. -/
theorem unshared_iff (userId : ℕ) : t.unshared userId = true ↔
    (∀ row ∈ t.groupMembers, row.userId ≠ userId) ∧ ∀ binding ∈ t.access, binding.userId ≠ some userId := by
  simp [unshared]

theorem isMember_iff (userId : ℕ) : t.isMember userId = true ↔ ∃ member ∈ t.members, member.userId = userId := by
  rw [isMember, findMember, List.find?_isSome]
  simp

/-- The bindings of a table are those of another, but for their roles and for new ones of a kind. -/
def Binds (t t' : Tables) (kind : WorkspaceAccess → Prop) : Prop :=
  ∀ binding ∈ t'.access, kind binding ∨ ∃ old ∈ t.access,
    old.workspaceId = binding.workspaceId ∧ old.userId = binding.userId ∧ old.groupId = binding.groupId

/-- Fewer bindings bind no more. -/
theorem Binds.of_subset {kind : WorkspaceAccess → Prop} (h : ∀ binding ∈ t'.access, binding ∈ t.access) :
    t.Binds t' kind := fun binding hbinding => .inr ⟨binding, h binding hbinding, rfl, rfl, rfl⟩

theorem isMember_eq (h : t'.members = t.members) (userId : ℕ) : t'.isMember userId = t.isMember userId := by
  rw [isMember, findMember, h]
  rfl

/-- Rows that are written for members leave a removed user with nothing. -/
theorem NothingLeft.keeps (h : t.NothingLeft) (hmembers : t'.members = t.members) (hgone : t'.gone = t.gone)
    (hgroups : ∀ row ∈ t'.groupMembers, t.isMember row.userId = true ∨ row ∈ t.groupMembers)
    (haccess : t.Binds t' fun binding => ∀ userId ∈ binding.userId, t.isMember userId = true)
    (hkeys : ∀ key ∈ t'.apiKeys, key ∈ t.apiKeys) : t'.NothingLeft := by
  intro userId hmem
  rw [hgone] at hmem
  obtain ⟨hnot, hunshared, hnone⟩ := h userId hmem
  obtain ⟨hrows, hbindings⟩ := (unshared_iff userId).mp hunshared
  have hapart : t.isMember userId ≠ true := hnot ▸ Bool.false_ne_true
  refine ⟨(isMember_eq hmembers userId).trans hnot, (unshared_iff userId).mpr ⟨fun row hrow huser => ?_,
    fun binding hbinding huser => ?_⟩, fun key hkey => hnone key (hkeys key hkey)⟩
  · rcases hgroups row hrow with hmember | hold
    · exact hapart (huser ▸ hmember)
    · exact hrows row hold huser
  · rcases haccess binding hbinding with hmember | ⟨old, hold, -, hsame, -⟩
    · exact hapart (hmember userId huser)
    · exact hbindings old hold (hsame.trans huser)

theorem mem_writeGroupMembers_iff (t : Tables) (groupId : ℕ) (toAdd toRemove : List ℕ) (row : GroupMember) :
    row ∈ (t.writeGroupMembers groupId toAdd toRemove).groupMembers ↔
      (row ∈ t.groupMembers ∧ ¬ (row.groupId = groupId ∧ row.userId ∈ toRemove)) ∨
        (row.groupId = groupId ∧ row.userId ∈ toAdd) := by
  simp only [writeGroupMembers, mem_append, mem_filter, decide_eq_true_eq, mem_map]
  constructor
  · rintro (hkept | ⟨⟨userId, hadd, rfl⟩, -⟩)
    · exact .inl hkept
    · exact .inr ⟨rfl, hadd⟩
  · intro h
    by_cases hkept : row ∈ t.groupMembers ∧ ¬ (row.groupId = groupId ∧ row.userId ∈ toRemove)
    · exact .inl hkept
    · rcases h with h | ⟨rfl, hadd⟩
      · exact absurd h hkept
      · exact .inr ⟨⟨row.userId, hadd, rfl⟩, hkept⟩

theorem reRole_fields (diff : ShareDiff) (binding : WorkspaceAccess) :
    (reRole diff binding).workspaceId = binding.workspaceId ∧ (reRole diff binding).userId = binding.userId ∧
      (reRole diff binding).groupId = binding.groupId := by
  unfold reRole
  split
  · split
    · exact ⟨rfl, rfl, rfl⟩
    · split <;> exact ⟨rfl, rfl, rfl⟩
  · exact ⟨rfl, rfl, rfl⟩

/-- A share binds anew only what it creates. -/
theorem binds_writeShares (t : Tables) (diff : ShareDiff) : t.Binds (t.writeShares diff) (· ∈ created diff) := by
  intro binding h
  rcases mem_append.mp h with hkept | hcreated
  · obtain ⟨old, hold, rfl⟩ := mem_map.mp hkept
    obtain ⟨hworkspace, huser, hgroup⟩ := reRole_fields diff old
    exact .inr ⟨old, (mem_filter.mp hold).1, hworkspace.symm, huser.symm, hgroup.symm⟩
  · exact .inl (mem_filter.mp hcreated).1

theorem not_others_of_mem_findDeletable {userId id : ℕ} (h : id ∈ t.findDeletablePersonalWorkspaces userId) :
    ∀ binding ∈ t.bindingsOf id, binding.others userId = false := by
  obtain ⟨workspace, hworkspace, rfl⟩ := mem_map.mp h
  have htest := (and_eq_true_iff.mp (and_eq_true_iff.mp (mem_filter.mp hworkspace).2).2).2
  rw [Bool.not_eq_true'] at htest
  exact fun binding hbinding => eq_false_of_not_eq_true (any_eq_false.mp htest binding hbinding)

end Tables

open Onecli.Directory.Removal.Tables

variable {t t' : Tables} {p p' : Point} {c : Choice}

/-- What a removal knows: what it has deleted is away, and the workspaces that it has listed are still the user's
alone. -/
def Knows (t : Tables) : Point → Prop
  | .deleteWorkspaces userId ids => ∀ id ∈ ids, ∀ binding ∈ t.bindingsOf id, binding.others userId = false
  | .deleteAccess userId => ∀ key ∈ t.apiKeys, key.userId ≠ userId
  | .deleteGroupMembers userId =>
    (∀ key ∈ t.apiKeys, key.userId ≠ userId) ∧ ∀ binding ∈ t.access, binding.userId ≠ some userId
  | .deleteMembership userId => (∀ key ∈ t.apiKeys, key.userId ≠ userId) ∧ t.unshared userId = true
  | _ => True

theorem mem_bindingsOf {id : ℕ} {binding : WorkspaceAccess} :
    binding ∈ t.bindingsOf id ↔ binding ∈ t.access ∧ binding.workspaceId = id := by
  rw [bindingsOf, mem_filter, decide_eq_true_eq]

/-- A removal goes on knowing what no written row bars. -/
theorem Knows.stays (h : Knows t p) (hkeys : ∀ key ∈ t'.apiKeys, key ∈ t.apiKeys)
    (hgroups : ∀ row ∈ t'.groupMembers, p.barsMember row.userId = false ∨ row ∈ t.groupMembers)
    (haccess : t.Binds t' fun binding => p.barsBinding binding = false) : Knows t' p := by
  have hfree (userId : ℕ) (hnone : ∀ binding ∈ t.access, binding.userId ≠ some userId)
      (hbars : ∀ binding : WorkspaceAccess, p.barsBinding binding = false → binding.userId ≠ some userId) :
      ∀ binding ∈ t'.access, binding.userId ≠ some userId := by
    intro binding hbinding
    rcases haccess binding hbinding with hfalse | ⟨old, hold, -, hsame, -⟩
    · exact hbars binding hfalse
    · exact hsame ▸ hnone old hold
  cases p with
  | deleteWorkspaces userId ids =>
    intro id hid binding hbinding
    obtain ⟨hmem, hworkspace⟩ := mem_bindingsOf.mp hbinding
    rcases haccess binding hmem with hfalse | ⟨old, hold, hsame, huser, hgroup⟩
    · rw [Point.barsBinding, hworkspace, decide_eq_true hid, Bool.true_and] at hfalse
      exact hfalse
    · have hothers := h id hid old (mem_bindingsOf.mpr ⟨hold, hsame.trans hworkspace⟩)
      rwa [WorkspaceAccess.others, huser, hgroup] at hothers
  | deleteAccess => exact fun key hkey => h key (hkeys key hkey)
  | deleteGroupMembers userId =>
    exact ⟨fun key hkey => h.1 key (hkeys key hkey), hfree userId h.2 fun _ hfalse => of_decide_eq_false hfalse⟩
  | deleteMembership userId =>
    obtain ⟨hrows, hbindings⟩ := (unshared_iff userId).mp h.2
    refine ⟨fun key hkey => h.1 key (hkeys key hkey), (unshared_iff userId).mpr ⟨fun row hrow => ?_, ?_⟩⟩
    · rcases hgroups row hrow with hfalse | hold
      · exact fun heq => of_decide_eq_false hfalse heq.symm
      · exact hrows row hold
    · exact hfree userId hbindings fun _ hfalse => of_decide_eq_false hfalse
  | _ => trivial

/-- Nothing of a removed user is left, and nothing was destroyed that another was bound to. -/
def Removed (t : Tables) : Prop := t.NothingLeft ∧ t.NothingShared

/-- What a statement does beside calls that stand at no barred point: it keeps what the removals promise, leaves its call
with what that knows, and takes from no other call what that one knows. -/
structure Advances (free : (Point → Bool) → Prop) (t : Tables) (p : Point) (t' : Tables) (p' : Point) : Prop where
  removed : Removed t → Removed t'
  knows : Knows t p → Knows t' p'
  apiKeys : ∀ key ∈ t'.apiKeys, key ∈ t.apiKeys
  groupMembers : ∀ row ∈ t'.groupMembers, free (Point.barsMember row.userId) ∨ row ∈ t.groupMembers
  access : t.Binds t' fun binding => free (Point.barsBinding binding)

variable {free : (Point → Bool) → Prop}

theorem Advances.read {q : Point} (hexec : some (t, q) = some (t', p')) (hknows : Knows t q) :
    Advances free t p t' p' := by
  cases hexec
  exact ⟨fun h => h, fun _ => hknows, fun _ h => h, fun _ h => .inr h, .of_subset fun _ h => h⟩

/-- A statement that only deletes rows. -/
theorem Advances.deletes {u : Tables} {q : Point} (hexec : some (u, q) = some (t', p'))
    (hremoved : Removed t → Knows t p → Removed u) (hknows : Knows t p → Knows u q)
    (hgroups : ∀ row ∈ u.groupMembers, row ∈ t.groupMembers) (haccess : ∀ binding ∈ u.access, binding ∈ t.access)
    (hkeys : ∀ key ∈ u.apiKeys, key ∈ t.apiKeys) (h : Knows t p) : Advances free t p t' p' := by
  cases hexec
  exact ⟨fun hold => hremoved hold h, hknows, hkeys, fun row hrow => .inr (hgroups row hrow), .of_subset haccess⟩

/-- Where no membership changes, deleting rows keeps what the removals promise. -/
theorem removed_of_subset {u : Tables} (hmembers : u.members = t.members) (hgone : u.gone = t.gone)
    (hdeletions : u.deletions = t.deletions) (hgroups : ∀ row ∈ u.groupMembers, row ∈ t.groupMembers)
    (haccess : ∀ binding ∈ u.access, binding ∈ t.access) (hkeys : ∀ key ∈ u.apiKeys, key ∈ t.apiKeys)
    (h : Removed t) : Removed u := by
  refine ⟨h.1.keeps hmembers hgone (fun row hrow => .inr (hgroups row hrow)) (.of_subset haccess) hkeys, ?_⟩
  rw [NothingShared, hdeletions]
  exact h.2

theorem knows_nextWorkspace {userId : ℕ} {ids : List ℕ}
    (h : ∀ id ∈ ids, ∀ binding ∈ t.bindingsOf id, binding.others userId = false) :
    Knows t (nextWorkspace userId ids) := by
  unfold nextWorkspace
  split
  · trivial
  · exact h

theorem knows_afterUsers (diff : ShareDiff) : Knows t (afterUsers diff) := by
  unfold afterUsers
  split <;> trivial

/-- A workspace is deleted that is its user's alone. -/
theorem advances_deleteWorkspace {userId id : ℕ} {ids : List ℕ} (h : Knows t (.deleteWorkspaces userId (id :: ids))) :
    Advances free t (.deleteWorkspaces userId (id :: ids)) (t.deleteWorkspace userId id) (nextWorkspace userId ids) := by
  have haccess : ∀ binding ∈ (t.deleteWorkspace userId id).access, binding ∈ t.access :=
    fun _ hmem => (mem_filter.mp hmem).1
  refine .deletes rfl (fun hold hknows => ⟨?_, ?_⟩) (fun hknows => ?_) (fun _ hmem => hmem) haccess
    (fun _ hmem => (mem_filter.mp hmem).1) h
  · exact hold.1.keeps rfl rfl (fun row hrow => .inr hrow) (.of_subset haccess) fun _ hmem => (mem_filter.mp hmem).1
  · intro deletion hmem
    rcases mem_cons.mp hmem with rfl | hmem
    · exact hknows id mem_cons_self
    · exact hold.2 deletion hmem
  · refine knows_nextWorkspace fun other hother binding hbinding => ?_
    obtain ⟨hmem, hworkspace⟩ := mem_bindingsOf.mp hbinding
    exact hknows other (mem_cons_of_mem id hother) binding (mem_bindingsOf.mpr ⟨haccess binding hmem, hworkspace⟩)

/-- The membership of a user of whom nothing is left is deleted. -/
theorem removed_deleteMembership {userId : ℕ} (hold : Removed t) (h : Knows t (.deleteMembership userId)) :
    Removed (t.deleteMembership userId) := by
  have hrest (other : ℕ) : (t.deleteMembership userId).isMember other = true →
      t.isMember other = true ∧ other ≠ userId := by
    rw [isMember_iff, isMember_iff]
    rintro ⟨member, hmem, rfl⟩
    obtain ⟨hmem, hne⟩ := mem_filter.mp hmem
    exact ⟨⟨member, hmem, rfl⟩, of_decide_eq_true hne⟩
  refine ⟨fun other hmem => ?_, hold.2⟩
  rcases mem_cons.mp hmem with rfl | hmem
  · exact ⟨eq_false_of_not_eq_true fun hstill => (hrest other hstill).2 rfl, h.2, h.1⟩
  · obtain ⟨hnot, hunshared, hkeys⟩ := hold.1 other hmem
    refine ⟨eq_false_of_not_eq_true fun hstill => ?_, hunshared, hkeys⟩
    rw [(hrest other hstill).1] at hnot
    cases hnot

/-- Who is provisioned is not gone any more. -/
theorem removed_createMembership {member : OrganizationMember} (hold : Removed t) :
    Removed (t.createMembership member) := by
  refine ⟨fun other hmem => ?_, hold.2⟩
  obtain ⟨hgone, hne⟩ := mem_filter.mp hmem
  obtain ⟨hnot, hunshared, hkeys⟩ := hold.1 other hgone
  refine ⟨eq_false_of_not_eq_true fun hstill => ?_, hunshared, hkeys⟩
  obtain ⟨row, hrow, rfl⟩ := (isMember_iff other).mp hstill
  rcases mem_append.mp hrow with hold' | hnew
  · rw [(isMember_iff row.userId).mpr ⟨row, hold', rfl⟩] at hnot
    cases hnot
  · exact of_decide_eq_true hne (congrArg _ (mem_singleton.mp hnew))

/-- Rows of a group are written for members whom no removal has passed by. -/
theorem advances_writeGroupMembers {groupId : ℕ} {toAdd toRemove : List ℕ}
    (hadd : ∀ userId ∈ toAdd, t.isMember userId = true ∧ free (Point.barsMember userId)) :
    Advances free t p (t.writeGroupMembers groupId toAdd toRemove) .done := by
  have hrows : ∀ row ∈ (t.writeGroupMembers groupId toAdd toRemove).groupMembers,
      row.userId ∈ toAdd ∨ row ∈ t.groupMembers := by
    intro row hrow
    rcases (mem_writeGroupMembers_iff t groupId toAdd toRemove row).mp hrow with ⟨hold, -⟩ | ⟨-, hnew⟩
    · exact .inr hold
    · exact .inl hnew
  refine ⟨fun h => ⟨h.1.keeps rfl rfl (fun row hrow => ?_) (.of_subset fun _ h => h) fun _ h => h, h.2⟩,
    fun _ => trivial, fun _ h => h, fun row hrow => ?_, .of_subset fun _ h => h⟩
  · exact (hrows row hrow).imp_left fun hmem => (hadd _ hmem).1
  · exact (hrows row hrow).imp_left fun hmem => (hadd _ hmem).2

/-- Shares are written for members, of users and workspaces that no removal has passed by. -/
theorem advances_writeShares {diff : ShareDiff}
    (hadd : ∀ binding ∈ created diff,
      (∀ userId ∈ binding.userId, t.isMember userId = true) ∧ free (Point.barsBinding binding)) :
    Advances free t p (t.writeShares diff) .done := by
  refine ⟨fun h => ⟨h.1.keeps rfl rfl (fun _ hrow => .inr hrow) ?_ fun _ h => h, h.2⟩, fun _ => trivial,
    fun _ h => h, fun _ hrow => .inr hrow, ?_⟩
  · exact fun binding hbinding => (binds_writeShares t diff binding hbinding).imp_left fun hmem => (hadd _ hmem).1
  · exact fun binding hbinding => (binds_writeShares t diff binding hbinding).imp_left fun hmem => (hadd _ hmem).2

/-- An undisturbed statement advances its call. -/
theorem advances_exec (h : Knows t p) (hcalm : Undisturbed free c t p) (hexec : exec c t p = some (t', p')) :
    Advances free t p t' p' := by
  unfold exec at hexec
  split at hexec
  all_goals try exact .read hexec trivial
  -- a member is removed
  · split at hexec
    · exact .read hexec trivial
    · exact .read hexec (by split <;> trivial)
  · exact .read hexec (knows_nextWorkspace fun _ hid => not_others_of_mem_findDeletable hid)
  · split at hexec
    · cases hexec
      exact advances_deleteWorkspace h
    · exact .read hexec trivial
  · refine .deletes hexec (fun hold _ => ?_) (fun _ key hkey => of_decide_eq_true (mem_filter.mp hkey).2)
      (fun _ hrow => hrow) (fun _ hbinding => hbinding) (fun _ hkey => (mem_filter.mp hkey).1) h
    exact removed_of_subset (t := t) rfl rfl rfl (fun _ hrow => hrow) (fun _ hbinding => hbinding)
      (fun _ hkey => (mem_filter.mp hkey).1) hold
  · refine .deletes hexec (fun hold _ => ?_) (fun hkeys => ⟨hkeys, fun binding hbinding => ?_⟩) (fun _ hrow => hrow)
      (fun _ hbinding => (mem_filter.mp hbinding).1) (fun _ hkey => hkey) h
    · exact removed_of_subset (t := t) rfl rfl rfl (fun _ hrow => hrow) (fun _ hbinding => (mem_filter.mp hbinding).1)
        (fun _ hkey => hkey) hold
    · exact of_decide_eq_true (mem_filter.mp hbinding).2
  · refine .deletes hexec (fun hold _ => ?_) (fun hnone => ⟨hnone.1, (unshared_iff _).mpr ⟨fun row hrow => ?_, hnone.2⟩⟩)
      (fun _ hrow => (mem_filter.mp hrow).1) (fun _ hbinding => hbinding) (fun _ hkey => hkey) h
    · exact removed_of_subset (t := t) rfl rfl rfl (fun _ hrow => (mem_filter.mp hrow).1) (fun _ hbinding => hbinding)
        (fun _ hkey => hkey) hold
    · exact of_decide_eq_true (mem_filter.mp hrow).2
  · split at hexec
    · exact .deletes hexec removed_deleteMembership (fun _ => trivial) (fun _ hrow => hrow)
        (fun _ hbinding => hbinding) (fun _ hkey => hkey) h
    · exact .read hexec trivial
  -- a space is shared
  · exact .read hexec (by split <;> trivial)
  · dsimp only at hexec
    refine .read hexec ?_
    split
    · trivial
    · split
      · exact knows_afterUsers _
      · trivial
  · refine .read hexec ?_
    split
    · exact knows_afterUsers _
    · trivial
  · exact .read hexec (by split <;> trivial)
  · rename_i diff
    split at hexec
    · rename_i hwrites
      cases hexec
      refine advances_writeShares fun binding hbinding => ?_
      rcases or_eq_true_iff.mp hwrites with hthere | hnone
      · exact hcalm hthere binding hbinding
      · obtain ⟨husers, hgroups⟩ := and_eq_true_iff.mp hnone
        rw [created, List.isEmpty_iff.mp husers, List.isEmpty_iff.mp hgroups] at hbinding
        cases hbinding
    · exact .read hexec trivial
  -- a member of a group is added
  · exact .read hexec (by split <;> trivial)
  · exact .read hexec (by split <;> trivial)
  · cases hexec
    exact advances_writeGroupMembers fun other hother => mem_singleton.mp hother ▸ hcalm
  -- a member of a group is removed
  · exact .read hexec (by split <;> trivial)
  · cases hexec
    exact advances_writeGroupMembers nofun
  -- the members of a group are set
  · exact .read hexec (by split <;> trivial)
  · exact .read hexec (by split <;> trivial)
  · dsimp only at hexec
    exact .read hexec (by split <;> trivial)
  · cases hexec
    exact advances_writeGroupMembers hcalm
  -- a member is provisioned
  · exact .read hexec (by split <;> trivial)
  · split at hexec
    · exact .read hexec trivial
    · cases hexec
      exact ⟨removed_createMembership, fun _ => trivial, fun _ hkey => hkey, fun _ hrow => .inr hrow,
        .of_subset fun _ hbinding => hbinding⟩
  · cases hexec

/-- The removals promise what they do, and each call knows what it has read and deleted. -/
abbrev Sound (w : World) : Prop := Calls.Holds Removed Knows w

/-- A step is disturbed at fewer points. -/
theorem Undisturbed.imp (f g : (Point → Bool) → Prop) (himp : ∀ kind, kind .idle = false → f kind → g kind) (c : Choice)
    (t : Tables) (p : Point) (h : Undisturbed f c t p) : Undisturbed g c t p := by
  unfold Undisturbed at h ⊢
  split
  · exact ⟨h.1, himp _ rfl h.2⟩
  · exact fun userId hmem => ⟨(h userId hmem).1, himp _ rfl (h userId hmem).2⟩
  · exact fun hthere binding hbinding => ⟨(h hthere binding hbinding).1, himp _ rfl (h hthere binding hbinding).2⟩
  · trivial

end Onecli.Directory.Removal
