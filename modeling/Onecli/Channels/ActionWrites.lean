import Onecli.Channels.ActionApproval

/-!
# The writes to an approval

The flips are conditioned on pending, so that one call owns a row from its flip to its settlement; the handler is
called by the owner alone, and what it is called with was judged on what never changes of the row.
-/

namespace Onecli.Channels.ActionApproval

open Api (JsString)
open List Option Function

variable {Payload : Type}

namespace Tables

variable {t t' : Tables Payload}

/-- Pending is the row's status. -/
theorem isPending_iff (id : ℕ) : t.isPending id = true ↔ ∃ row, t.rows id = some row ∧ row.status = .pending := by
  rw [isPending, Option.any_eq_true]
  simp

/-- A row is stored with what was written of it once. -/
def Stored (t : Tables Payload) (ask : Ask Payload) : Prop := ∃ row, t.rows ask.id = some row ∧ row.ask = ask

/-- A row is not pending any more, and not settled. -/
def Owned (t : Tables Payload) (id : ℕ) : Prop :=
  (∃ row, t.rows id = some row ∧ row.status ≠ .pending) ∧ id ∉ t.settled

/-- A row that a decision approved and whose outcome is not written. -/
def Approved (t : Tables Payload) (ask : Ask Payload) : Prop :=
  (∃ row, t.rows ask.id = some row ∧ row.ask = ask ∧ row.status = .approved ∧ row.fate = some .decided) ∧
    ask.id ∉ t.settled

/-- The rows, the handlers called and the approvals settled. -/
structure Sound (service : Service Payload) (t : Tables Payload) : Prop where
  fresh : ∀ id, t.minted ≤ id → t.rows id = none
  ask : ∀ id row, t.rows id = some row → row.ask.id = id ∧ row.ask.createdAt ≤ t.now
  fate : ∀ id row, t.rows id = some row → (row.status = .pending ↔ row.fate = none)
  executes : t.ExecutesOnce service
  settles : t.SettlesOnce
  ended : ∀ id ∈ t.settled, ∃ row, t.rows id = some row ∧ row.status ≠ .pending

/-- What a statement of another call leaves of a row that is not pending. -/
structure Same (t t' : Tables Payload) (id : ℕ) : Prop where
  row : t'.rows id = t.rows id
  settled : id ∈ t'.settled → id ∈ t.settled
  invoked : id ∈ t'.invoked.map (·.id) → id ∈ t.invoked.map (·.id)

/-- A stored ask stays stored. -/
theorem Follows.stored (h : t.Follows t') {ask : Ask Payload} (hstored : t.Stored ask) : t'.Stored ask := by
  obtain ⟨row, hrow, hask⟩ := hstored
  obtain ⟨row', hrow', hask', -⟩ := h.row ask.id row hrow
  exact ⟨row', hrow', hask'.trans hask⟩

/-- Rows that stay follow. -/
theorem Follows.of_rows_eq (h : t'.rows = t.rows) : t.Follows t' where
  row := fun id row hrow => ⟨row, h ▸ hrow, rfl, Or.inl rfl⟩
  fresh := fun id row' hnone hrow' => by
    rw [h, hnone] at hrow'
    cases hrow'

end Tables

open Tables

/-- What a call knows of the rows that it will supersede for a request. -/
def EndingKnows (service : Service Payload) (t : Tables Payload) (ending : Ending Payload) (ids : List ℕ) : Prop :=
  ∀ ask, ending = .superseded ask → t.Stored ask ∧ ∀ id ∈ ids, ∃ row, t.rows id = some row ∧
    service.SameKey row.ask ask

/-- What a call knows of the tables. -/
def Knows (service : Service Payload) (t : Tables Payload) : Point Payload → Prop
  | .findOlder ask _ => t.Stored ask
  | .findPending ending ids _ => EndingKnows service t ending ids
  | .flip ending id ids _ _ => EndingKnows service t ending (id :: ids)
  | .settle ending id ids _ _ => EndingKnows service t ending ids ∧ t.Owned id
  | .compareExpiry input ask | .findDecider input ask | .decide input ask =>
    t.Stored ask ∧ service.refusal input ask = none
  | .settleParked ask => t.Owned ask.id
  | .handle input ask =>
    t.Approved ask ∧ input.decision = .approve ∧ service.refusal input ask = none ∧
      (t.rows ask.id).bind (·.decidedByUserId) = some input.deciderUserId ∧ ask.id ∉ t.invoked.map (·.id)
  | .handling _ ask => t.Approved ask
  | .update ask status _ => t.Approved ask ∧ (status = .executed ∨ status = .failed)
  | .settleDecided ask _ => t.Stored ask ∧ t.Owned ask.id
  | _ => True

/-- The row that a call moved from pending and has not settled. -/
def owner : Point Payload → Option ℕ
  | .settle _ id _ _ _ => some id
  | .settleParked ask | .handle _ ask | .handling _ ask | .update ask _ _ | .settleDecided ask _ => some ask.id
  | _ => none

/-- No two calls own one row. -/
def Apart (p q : Point Payload) : Prop := ∀ id, owner p = some id → owner q ≠ some id

theorem Apart.symm {p q : Point Payload} (h : Apart p q) : Apart q p := fun id hq hp => h id hp hq

variable {service : Service Payload} {t t' : Tables Payload} {p p' q : Point Payload}

variable {id : ℕ} {ask : Ask Payload} {c : Choice Payload} {row : Row Payload} {change : Row Payload → Row Payload}

theorem Knows.owned (h : Knows service t p) (howner : owner p = some id) : t.Owned id := by
  have happroved {ask : Ask Payload} (h : t.Approved ask) : t.Owned ask.id := by
    obtain ⟨⟨row, hrow, -, hstatus, -⟩, hsettled⟩ := h
    exact ⟨⟨row, hrow, by rw [hstatus]; decide⟩, hsettled⟩
  cases p with
  | settle ending i ids count outcome | settleDecided ask status => exact some.inj howner ▸ h.2
  | settleParked => exact some.inj howner ▸ h
  | handle input ask | update ask status detail => exact some.inj howner ▸ happroved h.1
  | handling => exact some.inj howner ▸ happroved h
  | _ => cases howner

/-- An ending keeps what it knows. -/
theorem EndingKnows.follows {ending : Ending Payload} {ids : List ℕ} (h : EndingKnows service t ending ids)
    (hfol : t.Follows t') : EndingKnows service t' ending ids := by
  intro ask hending
  obtain ⟨hstored, hids⟩ := h ask hending
  refine ⟨hfol.stored hstored, fun id hid => ?_⟩
  obtain ⟨row, hrow, hkey⟩ := hids id hid
  obtain ⟨row', hrow', hask, -⟩ := hfol.row id row hrow
  exact ⟨row', hrow', hask ▸ hkey⟩

theorem EndingKnows.subset {ending : Ending Payload} {ids ids' : List ℕ} (h : EndingKnows service t ending ids)
    (hsub : ∀ id ∈ ids', id ∈ ids) : EndingKnows service t ending ids' :=
  fun ask hending => ⟨(h ask hending).1, fun id hid => (h ask hending).2 id (hsub id hid)⟩

theorem Tables.Owned.same (h : t.Owned id) (hsame : t.Same t' id) : t'.Owned id := by
  refine ⟨?_, fun hmem => h.2 (hsame.settled hmem)⟩
  rw [hsame.row]
  exact h.1

theorem Tables.Approved.same (h : t.Approved ask) (hsame : t.Same t' ask.id) : t'.Approved ask := by
  refine ⟨?_, fun hmem => h.2 (hsame.settled hmem)⟩
  rw [hsame.row]
  exact h.1

theorem Knows.follows (h : Knows service t q) (hfol : t.Follows t')
    (hsame : ∀ id, owner q = some id → t.Same t' id) : Knows service t' q := by
  cases q with
  | findOlder => exact hfol.stored h
  | findPending => exact h.follows hfol
  | flip => exact .follows h hfol
  | settle ending id => exact ⟨h.1.follows hfol, h.2.same (hsame id rfl)⟩
  | compareExpiry input ask | findDecider input ask | decide input ask => exact ⟨hfol.stored h.1, h.2⟩
  | settleParked ask => exact h.same (hsame ask.id rfl)
  | handle input ask =>
    have hrow := hsame ask.id rfl
    refine ⟨h.1.same hrow, h.2.1, h.2.2.1, ?_, fun hmem => h.2.2.2.2 (hrow.invoked hmem)⟩
    rw [hrow.row]
    exact h.2.2.2.1
  | handling note ask => exact .same h (hsame ask.id rfl)
  | update ask => exact ⟨h.1.same (hsame ask.id rfl), h.2⟩
  | settleDecided ask => exact ⟨hfol.stored h.1, h.2.same (hsame ask.id rfl)⟩
  | _ => trivial

/-- What a statement does: the rows follow, a row of another call stays, the call owns a row at most that was pending
before, what holds of the tables is kept, and the newest requests stay pending exactly where the keys are spared. -/
structure Advances (service : Service Payload) (c : Choice Payload) (t : Tables Payload) (p : Point Payload)
    (t' : Tables Payload) (p' : Point Payload) : Prop where
  follows : t.Follows t'
  same : ∀ id, t.Owned id → owner p ≠ some id → t.Same t' id
  owns : ∀ id, owner p' = some id → owner p = some id ∨ t.isPending id = true
  sound : t'.Sound service
  knows : Knows service t' p'
  newest : t.NewestPending service → (t'.NewestPending service ↔ service.Spares c t p)

/-- The newest requests stay pending where a statement leaves what was written once, what is pending and what was ended
how. -/
theorem newestPending_of_rows (h : t.NewestPending service)
    (hrows : ∀ id row', t'.rows id = some row' → ∃ row, t.rows id = some row ∧ row'.ask = row.ask ∧ row'.left = row.left)
    (hpend : ∀ id row, t.rows id = some row → ∃ row', t'.rows id = some row' ∧ row'.ask = row.ask ∧
      row'.left = row.left ∧ (row.status = .pending → row'.status = .pending)) : t'.NewestPending service := by
  intro id row' hrow' hkey hleft
  obtain ⟨row, hrow, hask, -⟩ := hrows id row' hrow'
  obtain ⟨newest, n, hn, hsame, hstatus, hmax⟩ := h id row hrow (hask ▸ hkey) fun other r hr hr' => by
    obtain ⟨r', hr'', hask', hl, -⟩ := hpend other r hr
    rw [← hl]
    exact hleft other r' hr'' (by rw [hask', hask]; exact hr')
  obtain ⟨n', hn', hask', -, hstatus'⟩ := hpend newest n hn
  refine ⟨newest, n', hn', by rw [hask', hask]; exact hsame, hstatus' hstatus, fun other r' hr' hkey' => ?_⟩
  obtain ⟨r, hr, haskr, -⟩ := hrows other r' hr'
  rw [haskr, hask']
  exact hmax other r hr (by rw [← haskr, ← hask]; exact hkey')

theorem Advances.read {q : Point Payload} (hexec : some (t, q) = some (t', p')) (hsound : t.Sound service)
    (hknows : Knows service t q) (howner : owner q = none ∨ owner q = owner p) (hspares : service.Spares c t p) :
    Advances service c t p t' p' := by
  cases hexec
  refine ⟨.of_rows_eq rfl, fun _ _ _ => ⟨rfl, fun h => h, fun h => h⟩, fun id h => .inl ?_, hsound, hknows,
    fun h => iff_of_true h hspares⟩
  rcases howner with hnone | hsame
  · rw [hnone] at h
    cases h
  · exact hsame.symm.trans h

theorem Advances.tick (hsound : t.Sound service) (hknows : Knows service t p) (hspares : service.Spares c t p) :
    Advances service c t p t.tick p where
  follows := Follows.of_rows_eq rfl
  same := fun _ _ _ => ⟨rfl, fun h => h, fun h => h⟩
  owns := fun _ h => Or.inl h
  sound :=
    { hsound with
      ask := fun id row hrow => ⟨(hsound.ask id row hrow).1, Nat.le_succ_of_le (hsound.ask id row hrow).2⟩ }
  knows := hknows.follows (.of_rows_eq rfl) fun _ _ => ⟨rfl, fun h => h, fun h => h⟩
  newest := fun h => iff_of_true h hspares

/-- A row after a change. -/
theorem Tables.modify_rows (t : Tables Payload) (id : ℕ) (change : Row Payload → Row Payload) (other : ℕ) :
    (t.modify id change).rows other = if other = id then (t.rows id).map change else t.rows other :=
  update_apply ..

/-- A row was changed, or is as before. -/
theorem Tables.modify_cases (hrow : t.rows id = some row) (change : Row Payload → Row Payload) {other : ℕ}
    {r' : Row Payload} (hr' : (t.modify id change).rows other = some r') :
    (other = id ∧ r' = change row) ∨ (other ≠ id ∧ t.rows other = some r') := by
  rw [modify_rows] at hr'
  split at hr'
  · rename_i heq
    rw [hrow] at hr'
    exact .inl ⟨heq, (some.inj hr').symm⟩
  · rename_i hne
    exact .inr ⟨hne, hr'⟩

/-- The changed row. -/
theorem Tables.modify_self (hrow : t.rows id = some row) (change : Row Payload → Row Payload) :
    (t.modify id change).rows id = some (change row) := by
  rw [modify_rows, if_pos rfl, hrow, map_some]

/-- The other rows. -/
theorem Tables.modify_of_ne {id other : ℕ} (hne : other ≠ id) (change : Row Payload → Row Payload) :
    (t.modify id change).rows other = t.rows other := by
  rw [modify_rows, if_neg hne]

/-- A status that moves follows. -/
theorem Tables.follows_modify (hrow : t.rows id = some row) (hask : (change row).ask = row.ask)
    (hmoves : row.status.Moves (change row).status) : t.Follows (t.modify id change) where
  row := by
    intro other r hr
    by_cases hother : other = id
    · subst hother
      cases hrow.symm.trans hr
      exact ⟨change row, modify_self hrow change, hask, .inr hmoves⟩
    · exact ⟨r, (modify_of_ne hother change).trans hr, rfl, .inl rfl⟩
  fresh := by
    intro other r' hnone hr'
    rcases modify_cases hrow change hr' with ⟨rfl, -⟩ | ⟨-, hr⟩
    · rw [hrow] at hnone
      cases hnone
    · rw [hr] at hnone
      cases hnone

theorem Tables.Sound.modify (h : t.Sound service) (hrow : t.rows id = some row) (hask : (change row).ask = row.ask)
    (hstatus : (change row).status ≠ .pending) (hfate : (change row).fate ≠ none)
    (hexecutes : ∀ call ∈ t.invoked, call.id = id → (change row).fate = some .decided ∧ (change row).decidedByUserId = row.decidedByUserId ∧ ((change row).status = .approved ∨ (change row).status = .executed ∨ (change row).status = .failed)) :
    (t.modify id change).Sound service where
  fresh := by
    intro other hother
    have hnone := h.fresh other hother
    rw [modify_rows]
    split
    · rename_i heq
      rw [heq] at hnone
      rw [hnone]
      rfl
    · exact hnone
  ask := by
    intro other r' hr'
    rcases modify_cases hrow change hr' with ⟨rfl, rfl⟩ | ⟨-, hr⟩
    · rw [hask]
      exact h.ask other row hrow
    · exact h.ask other r' hr
  fate := by
    intro other r' hr'
    rcases modify_cases hrow change hr' with ⟨rfl, rfl⟩ | ⟨-, hr⟩
    · exact iff_of_false hstatus hfate
    · exact h.fate other r' hr
  executes := by
    refine ⟨h.executes.1, fun call hcall => ?_⟩
    obtain ⟨hadmits, r, hr, haction, hpayload, hrfate, hdecider, hrstatus⟩ := h.executes.2 call hcall
    refine ⟨hadmits, ?_⟩
    by_cases hid : call.id = id
    · cases hrow.symm.trans (hid ▸ hr)
      obtain ⟨hfate', hdecider', hstatus'⟩ := hexecutes call hcall hid
      refine ⟨change row, hid ▸ modify_self hrow change, ?_, ?_, hfate', hdecider'.trans hdecider, hstatus'⟩
      · rw [hask]
        exact haction
      · rw [hask]
        exact hpayload
    · exact ⟨r, (modify_of_ne hid change).trans hr, haction, hpayload, hrfate, hdecider, hrstatus⟩
  settles := h.settles
  ended := by
    intro other hother
    obtain ⟨r, hr, hne⟩ := h.ended other hother
    by_cases hid : other = id
    · exact ⟨change row, hid ▸ modify_self hrow change, hstatus⟩
    · exact ⟨r, (modify_of_ne hid change).trans hr, hne⟩

theorem Tables.same_modify {id other : ℕ} (hne : other ≠ id) (change : Row Payload → Row Payload) :
    t.Same (t.modify id change) other :=
  ⟨modify_of_ne hne change, fun h => h, fun h => h⟩

theorem Tables.Sound.not_invoked (h : t.Sound service) (hrow : t.rows id = some row)
    (hpend : row.status = .pending) : id ∉ t.invoked.map (·.id) := by
  intro hmem
  obtain ⟨call, hcall, rfl⟩ := List.mem_map.mp hmem
  obtain ⟨-, r, hr, -, -, -, -, hstatus⟩ := h.executes.2 call hcall
  cases hrow.symm.trans hr
  rw [hpend] at hstatus
  rcases hstatus with hstatus | hstatus | hstatus <;> cases hstatus

theorem Tables.Sound.not_settled (h : t.Sound service) (hrow : t.rows id = some row)
    (hpend : row.status = .pending) : id ∉ t.settled := by
  intro hmem
  obtain ⟨r, hr, hne⟩ := h.ended id hmem
  cases hrow.symm.trans hr
  exact hne hpend

/-- A flip of a pending row advances. -/
theorem Advances.flip (hsound : t.Sound service) (hrow : t.rows id = some row) (hpend : row.status = .pending)
    (hask : (change row).ask = row.ask) (hmoves : row.status.Moves (change row).status)
    (hstatus : (change row).status ≠ .pending) (hfate : (change row).fate ≠ none)
    (hknows : (t.modify id change).Owned id → Knows service (t.modify id change) p') (howner : owner p' = some id)
    (hnewest : t.NewestPending service → ((t.modify id change).NewestPending service ↔ service.Spares c t p)) :
    Advances service c t p (t.modify id change) p' where
  follows := follows_modify hrow hask hmoves
  same := by
    intro other hother _
    refine same_modify (fun heq => ?_) change
    obtain ⟨⟨r, hr, hne⟩, -⟩ := hother
    rw [heq] at hr
    cases hrow.symm.trans hr
    exact hne hpend
  owns := by
    intro other hother
    cases howner.symm.trans hother
    exact .inr ((isPending_iff id).mpr ⟨row, hrow, hpend⟩)
  sound := hsound.modify hrow hask hstatus hfate fun call hcall hid =>
    absurd (List.mem_map.mpr ⟨call, hcall, hid⟩) (hsound.not_invoked hrow hpend)
  knows := hknows ⟨⟨change row, modify_self hrow change, hstatus⟩, hsound.not_settled hrow hpend⟩
  newest := hnewest

theorem Service.SameKey.refl (h : service.keyOf ask ≠ none) : service.SameKey ask ask := ⟨rfl, rfl, rfl, h⟩

theorem Service.SameKey.trans {a b d : Ask Payload} (h : service.SameKey a b) (h' : service.SameKey b d) :
    service.SameKey a d :=
  ⟨h.1.trans h'.1, h.2.1.trans h'.2.1, h.2.2.1.trans h'.2.2.1, h.2.2.2⟩

theorem Service.SameKey.symm {a b : Ask Payload} (h : service.SameKey a b) : service.SameKey b a :=
  ⟨h.1.symm, h.2.1.symm, h.2.2.1.symm, h.2.2.1 ▸ h.2.2.2⟩

/-- Ids are below the next one. -/
theorem Tables.Sound.lt_minted (h : t.Sound service) (hrow : t.rows id = some row) : id < t.minted := by
  by_contra hle
  rw [h.fresh id (Nat.le_of_not_lt hle)] at hrow
  cases hrow

theorem Tables.create_cases {other : ℕ} {r : Row Payload} (hr : (t.create ask).rows other = some r) :
    (other = t.minted ∧ r = ⟨ask, .pending, none, none, none⟩) ∨ (other ≠ t.minted ∧ t.rows other = some r) := by
  rw [Tables.create] at hr
  exact (update_cases hr).imp_left (And.imp_right fun hr => (some.inj hr).symm)

theorem Tables.Sound.create_rows (h : t.Sound service) (ask : Ask Payload) (hrow : t.rows id = some row) :
    (t.create ask).rows id = some row :=
  (update_of_ne (Nat.ne_of_lt (h.lt_minted hrow)) ..).trans hrow

theorem Advances.create (hsound : t.Sound service) (hid : ask.id = t.minted) (hcreated : ask.createdAt = t.now)
    (hknows : (t.create ask).Stored ask → Knows service (t.create ask) p') (howner : owner p' = none)
    (hspares : service.Spares c t p) : Advances service c t p (t.create ask) p' := by
  have hself : (t.create ask).rows t.minted = some ⟨ask, .pending, none, none, none⟩ := update_self ..
  refine ⟨⟨fun id row hrow => ⟨row, hsound.create_rows ask hrow, rfl, .inl rfl⟩, fun id row' hnone hrow' => ?_⟩,
    fun id hid _ => ?_, fun id h => ?_, ?_, hknows ⟨_, hid ▸ hself, rfl⟩, fun h => iff_of_true ?_ hspares⟩
  · rcases create_cases hrow' with ⟨-, rfl⟩ | ⟨-, hr⟩
    · rfl
    · rw [hnone] at hr
      cases hr
  · obtain ⟨⟨row, hrow, -⟩, -⟩ := hid
    exact ⟨(hsound.create_rows ask hrow).trans hrow.symm, fun h => h, fun h => h⟩
  · rw [howner] at h
    cases h
  · refine ⟨fun id hle => ?_, fun id row hrow => ?_, fun id row hrow => ?_, ⟨hsound.executes.1, fun call hcall => ?_⟩,
      hsound.settles, fun id hmem => ?_⟩
    · have hne : id ≠ t.minted := Nat.ne_of_gt hle
      exact (update_of_ne hne ..).trans (hsound.fresh id (Nat.le_of_succ_le hle))
    · rcases create_cases hrow with ⟨rfl, rfl⟩ | ⟨-, hr⟩
      · exact ⟨hid, hcreated.le⟩
      · exact hsound.ask id row hr
    · rcases create_cases hrow with ⟨rfl, rfl⟩ | ⟨-, hr⟩
      · exact iff_of_true rfl rfl
      · exact hsound.fate id row hr
    · obtain ⟨hadmits, row, hrow, hrest⟩ := hsound.executes.2 call hcall
      exact ⟨hadmits, row, hsound.create_rows ask hrow, hrest⟩
    · obtain ⟨row, hrow, hne⟩ := hsound.ended id hmem
      exact ⟨row, hsound.create_rows ask hrow, hne⟩
  · intro id row hrow hkey hleft
    by_cases hsame : service.SameKey ask row.ask
    · -- nothing was created later
      refine ⟨t.minted, _, hself, hsame, rfl, fun other r hr _ => ?_⟩
      rcases create_cases hr with ⟨-, rfl⟩ | ⟨-, hr'⟩
      · exact le_rfl
      · exact (hsound.ask other r hr').2.trans hcreated.ge
    · rcases create_cases hrow with ⟨-, rfl⟩ | ⟨-, hrow'⟩
      · exact absurd (.refl hkey) hsame
      · obtain ⟨newest, n, hn, hnkey, hstatus, hmax⟩ := h id row hrow' hkey fun other r hr =>
          hleft other r (hsound.create_rows ask hr)
        refine ⟨newest, n, hsound.create_rows ask hn, hnkey, hstatus, fun other r hr hrkey => ?_⟩
        rcases create_cases hr with ⟨-, rfl⟩ | ⟨-, hr'⟩
        · exact absurd hrkey hsame
        · exact hmax other r hr' hrkey

theorem Service.admits_invocation {registered : RegisteredAction Payload} {input : DecideInput}
    (hregistered : service.handlers ask.action = some registered) (happrove : input.decision = .approve)
    (hrefusal : service.refusal input ask = none) : service.Admits (invocation registered input ask) := by
  unfold Service.refusal at hrefusal
  rw [hregistered, happrove] at hrefusal
  dsimp only [bind_some] at hrefusal
  split at hrefusal
  · cases hrefusal
  rename_i hdecider
  rw [if_neg (by decide)] at hrefusal
  split at hrefusal
  · cases hrefusal
  rename_i happrovable
  split at hrefusal
  · cases hrefusal
  rename_i hchoice
  split at hrefusal
  · cases hrefusal
  rename_i hsecret
  have hsome (other : RegisteredAction Payload) (h : other ∈ service.handlers ask.action) : other = registered :=
    some.inj ((mem_def.mp h).symm.trans hregistered)
  refine ⟨?_, ?_, ?_, ?_, ?_⟩
  · change (service.handlers ask.action).isSome = true
    rw [hregistered]
    rfl
  · intro other hother decidedBy hdecidedBy
    obtain rfl := hsome other hother
    rw [mem_def.mp hdecidedBy] at hdecider
    change decidedBy ask.payload = some input.deciderUserId
    simpa using hdecider
  · intro other hother approvable hmem
    obtain rfl := hsome other hother
    rw [mem_def.mp hmem] at happrovable
    exact happrovable
  · intro other hother choices hmem
    obtain rfl := hsome other hother
    rw [hmem] at hchoice
    have hgiven : (invocation other input ask).choice = input.choice := by
      rw [invocation, hmem]
      rfl
    rw [hgiven]
    cases hc : input.choice with
    | none =>
      rw [hc] at hchoice
      simp at hchoice
    | some choice =>
      rw [hc] at hchoice
      simp only [any_some, Bool.or_eq_true, Bool.not_eq_true', decide_eq_false_iff_not, not_or, not_not] at hchoice
      exact ⟨choice, hchoice.2, rfl⟩
  · intro other hother hrequires
    obtain rfl := hsome other hother
    have hgiven : (invocation other input ask).secretValue = input.secretValue := by
      exact if_pos hrequires
    rw [hgiven]
    simpa [hrequires] using hsecret

theorem Advances.invoke (hsound : t.Sound service) {input : DecideInput} {registered : RegisteredAction Payload}
    (hregistered : service.handlers ask.action = some registered) {n : ℕ} (h : Knows service t (.handle input ask)) :
    Advances service c t (.handle input ask) (t.invoke (invocation registered input ask)) (.handling n ask) := by
  obtain ⟨happroved, happrove, hrefusal, hdecider, hinvoked⟩ := h
  obtain ⟨⟨row, hrow, hask, hstatus, hfate⟩, hsettled⟩ := happroved
  refine ⟨.of_rows_eq rfl, fun id _ howner => ⟨rfl, fun h => h, fun hmem => ?_⟩, fun id h => .inl h,
    { hsound with executes := ⟨nodup_cons.mpr ⟨hinvoked, hsound.executes.1⟩, fun call hcall => ?_⟩ },
    ⟨⟨row, hrow, hask, hstatus, hfate⟩, hsettled⟩, fun h => iff_of_true h ?_⟩
  · rcases mem_cons.mp hmem with rfl | hmem
    · exact absurd rfl howner
    · exact hmem
  · rcases mem_cons.mp hcall with rfl | hcall
    · refine ⟨service.admits_invocation hregistered happrove hrefusal, row, hrow, ?_, ?_, hfate, ?_, .inl hstatus⟩
      · rw [hask]
        rfl
      · rw [hask]
        rfl
      · rw [hrow] at hdecider
        exact hdecider
    · exact hsound.executes.2 call hcall
  · cases c <;> trivial

theorem Advances.settle (hsound : t.Sound service) (howned : t.Owned id) (howner : owner p = some id)
    (howner' : owner p' = none) (hknows : Knows service (t.settle id) p') (hspares : service.Spares c t p) :
    Advances service c t p (t.settle id) p' where
  follows := Follows.of_rows_eq rfl
  same := by
    intro other _ hother
    refine ⟨rfl, fun hmem => ?_, fun h => h⟩
    rcases mem_cons.mp hmem with rfl | hmem
    · exact absurd howner hother
    · exact hmem
  owns := by
    intro other hother
    rw [howner'] at hother
    cases hother
  sound :=
    { hsound with
      settles := nodup_cons.mpr ⟨howned.2, hsound.settles⟩
      ended := fun other hmem => by
        rcases mem_cons.mp hmem with rfl | hmem
        · exact howned.1
        · exact hsound.ended other hmem }
  knows := hknows
  newest := fun h => iff_of_true h hspares

theorem Advances.update (hsound : t.Sound service) {status : ActionApprovalStatus} {detail : Option JsString}
    (h : Knows service t (.update ask status detail)) :
    Advances service c t (.update ask status detail) (t.modify ask.id (outcomeOf status detail))
      (.settleDecided ask status) := by
  obtain ⟨⟨⟨row, hrow, hask, hstatus, hfate⟩, hsettled⟩, houtcome⟩ := h
  have hself := modify_self hrow (outcomeOf status detail)
  have hnot : status ≠ .pending := by
    rcases houtcome with rfl | rfl <;> decide
  have hmoves : row.status.Moves (outcomeOf status detail row).status := by
    rw [hstatus]
    rcases houtcome with rfl | rfl <;> trivial
  have hleft : (outcomeOf status detail row).left = row.left := by
    have hfate' : (outcomeOf status detail row).fate = row.fate := rfl
    have hstatus' : (outcomeOf status detail row).status = status := rfl
    rw [Row.left, Row.left, hstatus', hstatus, decide_eq_false hnot]
    rfl
  refine ⟨follows_modify hrow rfl hmoves, fun other _ hother => same_modify (fun heq => hother (congrArg some heq.symm)) _,
    fun other h => .inl h, hsound.modify hrow rfl hnot ?_ fun call hcall hid => ⟨hfate, rfl, .inr houtcome⟩,
    ⟨⟨_, hself, hask⟩, ⟨_, hself, hnot⟩, hsettled⟩, fun h => iff_of_true (newestPending_of_rows h ?_ ?_) ?_⟩
  · change row.fate ≠ none
    rw [hfate]
    exact some_ne_none _
  · intro other r' hr'
    rcases modify_cases hrow _ hr' with ⟨rfl, rfl⟩ | ⟨-, hr⟩
    · exact ⟨row, hrow, rfl, hleft⟩
    · exact ⟨r', hr, rfl, rfl⟩
  · intro other r hr
    by_cases hother : other = ask.id
    · subst hother
      cases hrow.symm.trans hr
      refine ⟨_, hself, rfl, hleft, fun hpend => ?_⟩
      rw [hstatus] at hpend
      cases hpend
    · exact ⟨r, (modify_of_ne hother _).trans hr, rfl, rfl, id⟩
  · cases c <;> trivial

end Onecli.Channels.ActionApproval
