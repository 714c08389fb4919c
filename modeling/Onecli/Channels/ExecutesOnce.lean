import Onecli.Channels.ActionWrites

/-!
# An approval executes and ends once

Superseding by key compares the times at which two requests were created: the newest request of a key stays pending
exactly where no row is superseded for one that is not newer, unless its key is spared.
-/

namespace Onecli.Channels.ActionApproval


open Tables List Option Advances Runs

variable {Payload : Type} {service : Service Payload} {t t' : Tables Payload} {p p' q : Point Payload}

variable {id : ℕ} {row : Row Payload} {ask : Ask Payload} {ending : Ending Payload} {ids : List ℕ}

/-- A row that is not left keeps the newest pending. -/
theorem newestPending_of_ended (hrow : t.rows id = some row) {change : Row Payload → Row Payload}
    (hask : (change row).ask = row.ask) (hleft : (change row).left = false) (h : t.NewestPending service) :
    (t.modify id change).NewestPending service := by
  intro other r' hr' hkey hall
  have hapart : ¬ service.SameKey row.ask r'.ask := by
    intro hsame
    have hgone := hall id (change row) (modify_self hrow change) (by rw [hask]; exact hsame)
    rw [hleft] at hgone
    cases hgone
  rcases modify_cases hrow change hr' with ⟨rfl, rfl⟩ | ⟨hother, hr⟩
  · exact absurd (.refl (hask ▸ hkey)) (hask ▸ hapart)
  obtain ⟨newest, n, hn, hnkey, hnstatus, hmax⟩ := h other r' hr hkey fun k r hrk hsame => by
    by_cases hk : k = id
    · subst hk
      cases hrow.symm.trans hrk
      exact absurd hsame hapart
    · exact hall k r ((modify_of_ne hk change).trans hrk) hsame
  have hne : newest ≠ id := by
    rintro rfl
    cases hrow.symm.trans hn
    exact hapart hnkey
  refine ⟨newest, n, (modify_of_ne hne change).trans hn, hnkey, hnstatus, fun k r hr hsame => ?_⟩
  rcases modify_cases hrow change hr with ⟨rfl, rfl⟩ | ⟨-, hrk⟩
  · exact absurd (hask ▸ hsame) hapart
  · exact hmax k r hrk hsame

theorem Service.spared_iff (h : t.Sound service) :
    service.spared t id row = true ↔ ∃ other r, other ≠ id ∧ t.rows other = some r ∧ service.SameKey r.ask row.ask ∧
      ((r.status = .pending ∧ row.ask.createdAt ≤ r.ask.createdAt) ∨ r.left = false) := by
  unfold Service.spared
  rw [List.any_eq_true]
  constructor
  · rintro ⟨other, -, htest⟩
    rw [Bool.and_eq_true, decide_eq_true_eq, Option.any_eq_true] at htest
    obtain ⟨hne, r, hr, htest⟩ := htest
    refine ⟨other, r, hne, hr, ?_⟩
    simpa using htest
  · rintro ⟨other, r, hne, hr, hkey, htest⟩
    refine ⟨other, mem_range.mpr (h.lt_minted hr), ?_⟩
    rw [Bool.and_eq_true, decide_eq_true_eq, Option.any_eq_true]
    refine ⟨hne, r, hr, ?_⟩
    simpa using ⟨hkey, htest⟩

/-- Where a row is superseded, the newest requests stay pending exactly where the other one is newer or the key is
spared. -/
theorem newestPending_superseded_iff (hsound : t.Sound service) (hrow : t.rows id = some row)
    (hpend : row.status = .pending) (hstored : t.Stored ask) (hkey : service.SameKey row.ask ask)
    (h : t.NewestPending service) :
    (t.modify id ((Ending.superseded ask).change service)).NewestPending service ↔
      (row.ask.createdAt < ask.createdAt ∨ service.spared t id row = true) := by
  set change := (Ending.superseded ask).change service
  have hself : (t.modify id change).rows id = some (change row) := modify_self hrow change
  have hask : (change row).ask = row.ask := rfl
  have hleft : (change row).left = true := rfl
  rw [service.spared_iff hsound]
  constructor
  · intro hnewest
    by_contra hnot
    rw [not_or] at hnot
    obtain ⟨hnewer, hspared⟩ := hnot
    obtain ⟨newest, n, hn, hnkey, hnstatus, hmax⟩ := hnewest id (change row) hself hkey.2.2.2 fun other r hr hsame => by
      rcases modify_cases hrow change hr with ⟨rfl, rfl⟩ | ⟨hother, hr'⟩
      · exact hleft
      · by_contra hgone
        exact hspared ⟨other, r, hother, hr', hsame, .inr (Bool.eq_false_of_not_eq_true hgone)⟩
    rcases modify_cases hrow change hn with ⟨rfl, rfl⟩ | ⟨hother, hn'⟩
    · cases hnstatus
    · exact hspared ⟨newest, n, hother, hn', hnkey, .inl ⟨hnstatus, hmax id (change row) hself (.refl hkey.2.2.2)⟩⟩
  · intro hspares other r' hr' hkey' hall
    have hbefore : ∀ k r, t.rows k = some r → service.SameKey r.ask r'.ask → r.left = true := by
      intro k r hr hsame
      by_cases hk : k = id
      · subst hk
        cases hrow.symm.trans hr
        rw [Row.left, hpend]
        rfl
      · exact hall k r ((modify_of_ne hk change).trans hr) hsame
    -- the newest request of the key before the row was superseded
    have hfound : ∃ newest n, t.rows newest = some n ∧ service.SameKey n.ask r'.ask ∧ n.status = .pending ∧
        ∀ k r, t.rows k = some r → service.SameKey r.ask r'.ask → r.ask.createdAt ≤ n.ask.createdAt := by
      rcases modify_cases hrow change hr' with ⟨rfl, rfl⟩ | ⟨-, hr⟩
      · exact h other row hrow hkey' hbefore
      · exact h other r' hr hkey' hbefore
    obtain ⟨newest, n, hn, hnkey, hnstatus, hmax⟩ := hfound
    have hmax' : ∀ m : Row Payload, n.ask.createdAt ≤ m.ask.createdAt → ∀ k r, (t.modify id change).rows k = some r →
        service.SameKey r.ask r'.ask → r.ask.createdAt ≤ m.ask.createdAt := by
      intro m hm k r hr hsame
      rcases modify_cases hrow change hr with ⟨rfl, rfl⟩ | ⟨-, hr⟩
      · exact (hmax k row hrow hsame).trans hm
      · exact (hmax k r hr hsame).trans hm
    by_cases hne : newest = id
    · subst hne
      cases hrow.symm.trans hn
      rcases hspares with hnewer | ⟨spare, r, hother, hr, hrkey, hrest⟩
      · -- the newest request is not superseded for a newer one
        obtain ⟨stored, hstored, hstoredAsk⟩ := hstored
        have hle := hmax ask.id stored hstored (hstoredAsk ▸ hkey.symm.trans hnkey)
        rw [hstoredAsk] at hle
        exact absurd hle (Nat.not_le.mpr hnewer)
      · rcases hrest with ⟨hstatus, hle⟩ | hgone
        · exact ⟨spare, r, (modify_of_ne hother change).trans hr, hrkey.trans hnkey, hstatus, hmax' r hle⟩
        · rw [hbefore spare r hr (hrkey.trans hnkey)] at hgone
          cases hgone
    · exact ⟨newest, n, (modify_of_ne hne change).trans hn, hnkey, hnstatus, hmax' n le_rfl⟩

theorem knows_endNext (count : ℕ) (outcome : Option Outcome) (h : EndingKnows service t ending ids) :
    Knows service t (endNext ending ids count outcome) := by
  cases ids with
  | nil => trivial
  | cons => exact h

theorem knows_endAll (outcome : Option Outcome) (h : EndingKnows service t ending ids) :
    Knows service t (endAll ending ids outcome) := by
  unfold endAll
  split
  · trivial
  · exact h

theorem owner_endNext (ending : Ending Payload) (ids : List ℕ) (count : ℕ) (outcome : Option Outcome) :
    owner (endNext ending ids count outcome) = none := by
  cases ids <;> rfl

theorem owner_endAll (ending : Ending Payload) (ids : List ℕ) (outcome : Option Outcome) :
    owner (endAll ending ids outcome) = none := by
  unfold endAll
  split <;> rfl

theorem knows_supersedeOlderSameKey (outcome : Outcome) (h : t.Stored ask) :
    Knows service t (service.supersedeOlderSameKey ask outcome) := by
  unfold Service.supersedeOlderSameKey
  split
  · trivial
  · exact h

theorem owner_supersedeOlderSameKey (service : Service Payload) (ask : Ask Payload) (outcome : Outcome) :
    owner (service.supersedeOlderSameKey ask outcome) = none := by
  unfold Service.supersedeOlderSameKey
  split <;> rfl

theorem endingKnows_older (h : t.Stored ask) : EndingKnows service t (.superseded ask) (service.older t ask) := by
  intro other hother
  cases hother
  refine ⟨h, fun id hid => ?_⟩
  have htest := (mem_filter.mp hid).2
  rw [Option.any_eq_true] at htest
  obtain ⟨row, hrow, htest⟩ := htest
  simp only [Bool.and_eq_true, decide_eq_true_eq] at htest
  exact ⟨row, hrow, htest.2.2.2⟩

theorem endingKnows_of_ne (hending : ∀ ask, ending ≠ .superseded ask) (ids : List ℕ) :
    EndingKnows service t ending ids :=
  fun ask h => absurd h (hending ask)

theorem Advances.flipEnding (hsound : t.Sound service) {count n : ℕ} {outcome : Option Outcome}
    (hknows : Knows service t (.flip ending id ids count outcome)) (hpend : t.isPending id = true) :
    Advances service .go t (.flip ending id ids count outcome) (t.modify id (ending.change service))
      (.settle ending id ids n outcome) := by
  obtain ⟨row, hrow, hstatus⟩ := (isPending_iff id).mp hpend
  have hask : (ending.change service row).ask = row.ask := by cases ending <;> rfl
  have hmoves : row.status.Moves (ending.change service row).status := by
    rw [hstatus]
    cases ending <;> trivial
  have hrest : EndingKnows service t ending ids := EndingKnows.subset hknows fun _ => mem_cons_of_mem id
  refine flip hsound hrow hstatus hask hmoves ?_ ?_
    (fun howned => ⟨hrest.follows (follows_modify hrow hask hmoves), howned⟩) rfl fun hnewest => ?_
  · intro hsame
    cases ending <;> cases hsame
  · cases ending <;> exact some_ne_none _
  · cases ending with
    | superseded ask =>
      obtain ⟨hstored, hids⟩ := hknows ask rfl
      obtain ⟨r, hr, hkey⟩ := hids id mem_cons_self
      cases hrow.symm.trans hr
      rw [newestPending_superseded_iff hsound hrow hstatus hstored hkey hnewest]
      constructor
      · intro hspares r hr _
        cases hrow.symm.trans (mem_def.mp hr)
        exact hspares
      · exact fun hspares => hspares row (mem_def.mpr hrow) hstatus
    | _ => exact iff_of_true (newestPending_of_ended hrow rfl rfl hnewest) trivial

theorem Advances.flipDecision (hsound : t.Sound service) {input : DecideInput}
    (hknows : Knows service t (.decide input ask)) (hpend : t.isPending ask.id = true) :
    Advances service .go t (.decide input ask) (t.modify ask.id (service.decide input))
      (match input.decision with
        | .approve => .handle input ask
        | .reject => .settleDecided ask .rejected) := by
  obtain ⟨row, hrow, hstatus⟩ := (isPending_iff ask.id).mp hpend
  obtain ⟨⟨r, hr, hrask⟩, hrefusal⟩ := hknows
  cases hrow.symm.trans hr
  have hask : (service.decide input row).ask = row.ask := rfl
  have hself := modify_self hrow (service.decide input)
  have hnewest (hne : (service.decide input row).status ≠ .pending) (h : t.NewestPending service) :
      (t.modify ask.id (service.decide input)).NewestPending service := by
    refine newestPending_of_ended hrow hask ?_ h
    have hfate : (service.decide input row).fate = some .decided := rfl
    rw [Row.left, hfate, decide_eq_false hne]
    rfl
  cases hdecision : input.decision with
  | approve =>
    have happroved : (service.decide input row).status = .approved := by
      unfold Service.decide
      rw [hdecision]
    have hne : (service.decide input row).status ≠ .pending := by
      rw [happroved]
      decide
    refine flip hsound hrow hstatus hask ?_ hne (some_ne_none _) (fun howned => ?_) rfl
      fun h => iff_of_true (hnewest hne h) trivial
    · rw [hstatus, happroved]
      trivial
    · refine ⟨⟨⟨_, hself, hask.trans hrask, happroved, rfl⟩, howned.2⟩, hdecision, hrefusal, ?_,
        hsound.not_invoked hrow hstatus⟩
      rw [hself]
      rfl
  | reject =>
    have hrejected : (service.decide input row).status = .rejected := by
      unfold Service.decide
      rw [hdecision]
    have hne : (service.decide input row).status ≠ .pending := by
      rw [hrejected]
      decide
    refine flip hsound hrow hstatus hask ?_ hne (some_ne_none _) (fun howned => ?_) rfl
      fun h => iff_of_true (hnewest hne h) trivial
    · rw [hstatus, hrejected]
      trivial
    · exact ⟨⟨_, hself, hask.trans hrask⟩, howned⟩

/-- Every statement advances its call. -/
theorem advances_exec {c : Choice Payload} (hsound : t.Sound service) (h : Knows service t p)
    (hexec : exec service c t p = some (t', p')) : Advances service c t p t' p' := by
  unfold exec at hexec
  split at hexec
  · -- time passes
    cases hexec
    exact tick hsound h (by cases p <;> trivial)
  · refine read hexec hsound ?_ ?_ trivial
    · split <;> trivial
    · split <;> exact .inl rfl
  · cases hexec
    exact create hsound rfl rfl (fun hstored => knows_supersedeOlderSameKey _ hstored)
      (owner_supersedeOlderSameKey service _ _) trivial
  · exact read hexec hsound (knows_endAll _ (endingKnows_older h)) (.inl (owner_endAll _ _ _)) trivial
  · exact read hexec hsound trivial (.inr rfl) trivial
  · exact read hexec hsound (knows_endAll _ (endingKnows_of_ne (by simp) _)) (.inl (owner_endAll _ _ _)) trivial
  · exact read hexec hsound (knows_endAll _ (endingKnows_of_ne (by simp) _)) (.inl (owner_endAll _ _ _)) trivial
  · exact read hexec hsound (knows_endAll _ (endingKnows_of_ne (by simp) _)) (.inl (owner_endAll _ _ _)) trivial
  · exact read hexec hsound (knows_endAll _ (endingKnows_of_ne (by simp) _)) (.inl (owner_endAll _ _ _)) trivial
  · rename_i ending ids outcome
    cases hexec
    have hids : EndingKnows service t ending (t.pendingOf ids) := by
      refine EndingKnows.subset h fun id hid => ?_
      have htest := (mem_filter.mp hid).2
      rw [Bool.and_eq_true, decide_eq_true_eq] at htest
      exact htest.1
    exact read rfl hsound (knows_endNext _ _ hids)
      (.inl (owner_endNext _ _ _ _)) (by cases ending <;> trivial)
  · rename_i ending id ids count outcome
    split at hexec
    · rename_i hpend
      cases hexec
      exact flipEnding hsound h hpend
    · rename_i hpend
      refine read hexec hsound (knows_endNext _ _ (EndingKnows.subset h fun _ => mem_cons_of_mem id))
        (.inl (owner_endNext _ _ _ _)) ?_
      cases ending with
      | superseded => exact fun row hrow hstatus => absurd ((isPending_iff id).mpr ⟨row, hrow, hstatus⟩) hpend
      | _ => trivial
  · rename_i ending id ids count outcome
    cases hexec
    exact settle hsound h.2 rfl (owner_endNext _ _ _ _)
      (knows_endNext _ _ (h.1.follows (Follows.of_rows_eq rfl))) (by cases ending <;> trivial)
  · exact read hexec hsound trivial (.inr rfl) trivial
  · split at hexec
    · exact read hexec hsound trivial (.inr rfl) trivial
    · rename_i row hrow
      split at hexec
      · exact read hexec hsound trivial (.inr rfl) trivial
      · split at hexec
        · exact read hexec hsound trivial (.inr rfl) trivial
        · rename_i hrefusal
          have hstored : t.Stored row.ask := ⟨row, (hsound.ask _ row hrow).1 ▸ hrow, rfl⟩
          exact read hexec hsound ⟨hstored, hrefusal⟩ (.inr rfl) trivial
  · cases hexec
    split
    · exact read rfl hsound trivial (.inr rfl) trivial
    · exact read rfl hsound h (.inr rfl) trivial
  · rename_i ask
    split at hexec
    · rename_i hpend
      cases hexec
      obtain ⟨row, hrow, hstatus⟩ := (isPending_iff ask.id).mp hpend
      refine flip hsound hrow hstatus rfl ?_ (fun hsame => by cases hsame) (some_ne_none _) (fun howned => howned) rfl
        fun hnewest => iff_of_true (newestPending_of_ended hrow rfl rfl hnewest) trivial
      rw [hstatus]
      trivial
    · exact read hexec hsound trivial (.inr rfl) trivial
  · cases hexec
    exact settle hsound h rfl rfl trivial trivial
  · cases hexec
    split
    · exact read rfl hsound h (.inr rfl) trivial
    · exact read rfl hsound trivial (.inr rfl) trivial
  · split at hexec
    · rename_i hpend
      cases hexec
      exact flipDecision hsound h hpend
    · exact read hexec hsound trivial (.inl rfl) trivial
  · rename_i input ask
    split at hexec
    · exact read hexec hsound ⟨h.1, .inr rfl⟩ (.inr rfl) trivial
    · rename_i registered hregistered
      cases hexec
      exact invoke hsound hregistered h
  · exact read hexec hsound ⟨h, .inl rfl⟩ (.inr rfl) trivial
  · exact read hexec hsound ⟨h, .inr rfl⟩ (.inr rfl) trivial
  · cases hexec
    exact update hsound h
  · cases hexec
    exact settle hsound h.2 rfl (owner_supersedeOlderSameKey service _ _)
      (knows_supersedeOlderSameKey _ ((Follows.of_rows_eq rfl).stored h.1)) trivial
  · cases hexec

/-- The tables are sound, each call knows what it read, and no two own one row. -/
def Sound (service : Service Payload) (w : World Payload) : Prop :=
  Calls.HoldsApart (fun t => t.Sound service) (Knows service) Apart w

namespace Sound

variable {w w' : World Payload} {e : ℕ × Choice Payload}

/-- Without asks the approvals are sound. -/
theorem initial (users : List ℕ) (now : ℕ) : Sound service (initial users now) where
  db :=
    ⟨fun _ _ => rfl, nofun, nofun, ⟨nodup_nil, nofun⟩, nodup_nil, nofun⟩
  calls := fun _ => trivial
  apart := fun _ _ _ _ h => by cases h

/-- Every statement keeps the approvals sound. -/
theorem step (h : Sound service w) (hstep : ActionApproval.step service w e = some w') : Sound service w' := by
  refine Calls.HoldsApart.step _ (fun _ _ => Apart.symm) h hstep fun t p hexec => ?_
  have hadvances := advances_exec h.db (h.calls e.1) hexec
  refine ⟨hadvances.sound, hadvances.knows, fun j hj => ⟨?_, fun id hown hother => ?_⟩⟩
  · refine (h.calls j).follows hadvances.follows fun id hown => ?_
    exact hadvances.same id ((h.calls j).owned hown) fun hmine => h.apart e.1 j (Ne.symm hj) id hmine hown
  · rcases hadvances.owns id hown with hmine | hpend
    · exact h.apart e.1 j (Ne.symm hj) id hmine hother
    · -- the row of another call is not pending
      obtain ⟨⟨row, hrow, hne⟩, -⟩ := (h.calls j).owned hother
      obtain ⟨row', hrow', hstatus⟩ := (isPending_iff id).mp hpend
      cases hrow.symm.trans hrow'
      exact hne hstatus

end Sound

/-- The newest ask stays the pending one exactly where the older ones are superseded. -/
theorem newest_iff {w w' : World Payload} {e : ℕ × Choice Payload} (h : Sound service w)
    (hnewest : w.db.NewestPending service) (hstep : step service w e = some w') :
    w'.db.NewestPending service ↔ SupersedesOlder service w e := by
  obtain ⟨t, p, hexec, rfl⟩ := (Calls.step_eq_some_iff _ w w' e).mp hstep
  exact (advances_exec h.db (h.calls e.1) hexec).newest hnewest

/-- Every handler is called once and for an admitted decision, every approval is settled once, and a row goes on with
what was written once, however the doors are interleaved. -/
theorem run_executes (service : Service Payload) (users : List ℕ) (now : ℕ) (es : List (ℕ × Choice Payload)) :
    Runs.Throughout (step service) (fun w => w.db.ExecutesOnce service ∧ w.db.SettlesOnce) (initial users now) es ∧
      Runs.Steps (step service) (fun w w' => w.db.Follows w'.db) (initial users now) es := by
  have hkeeps : ∀ w e w', Sound service w → True → step service w e = some w' →
      Sound service w' ∧ w.db.Follows w'.db := by
    intro w e w' h _ hstep
    refine ⟨h.step hstep, ?_⟩
    obtain ⟨t, p, hexec, rfl⟩ := (Calls.step_eq_some_iff _ w w' e).mp hstep
    exact (advances_exec h.db (h.calls e.1) hexec).follows
  constructor
  · intro front back w hsplit hrun
    have hsound := throughout_of_meets (step service) (fun w e w' h htrue hstep => (hkeeps w e w' h htrue hstep).1)
      (.initial users now) (meets_true _ _ es)
    have hdb := (hsound front back w hsplit hrun).db
    exact ⟨hdb.executes, hdb.settles⟩
  · exact steps_of_meets (step service) hkeeps (.initial users now) (meets_true _ _ es)

/-- An approval executes and ends once, and the newest requests of the keys stay pending exactly where no request is
superseded for one that is not newer, unless its key is spared. -/
theorem approval_exact {service : Service Payload} {users : List ℕ} {now : ℕ} {es : List (ℕ × Choice Payload)}
    {w : World Payload} (hrun : run (step service) (initial users now) es = some w) :
    (Runs.Throughout (step service)
        (fun w => w.db.ExecutesOnce service ∧ w.db.SettlesOnce ∧ w.db.NewestPending service) (initial users now) es ∧
      Runs.Steps (step service) (fun w w' => w.db.Follows w'.db) (initial users now) es) ↔
      Runs.Meets (step service) (SupersedesOlder service) (initial users now) es := by
  rw [and_iff_left (run_executes service users now es).2]
  refine throughout_iff_meets_of_iff _ (fun _ _ _ => Sound.step) (fun _ _ _ => newest_iff) (fun w h => ?_)
    (Sound.initial users now) (fun _ _ hrow => by cases hrow) hrun
  exact ⟨fun hall => hall.2.2, fun hnewest => ⟨h.db.executes, h.db.settles, hnewest⟩⟩

/-- A key whose asks have all ended has no pending one. -/
theorem not_newestPending_of_left (hsound : t.Sound service) {id : ℕ} {row : Row Payload} (hrow : t.rows id = some row)
    (hkey : service.keyOf row.ask ≠ none)
    (hleft : ∀ other < t.minted, ∀ r ∈ t.rows other, r.left = true ∧ r.status ≠ .pending) :
    ¬ t.NewestPending service := by
  intro h
  obtain ⟨newest, n, hn, -, hstatus, -⟩ := h id row hrow hkey fun other r hr _ =>
    (hleft other (hsound.lt_minted hr) r hr).1
  exact (hleft newest (hsound.lt_minted hn) n hn).2 hstatus

/-- An action whose requests are of one key. -/
def keyed : Service Bool where
  handlers _ := some ⟨none, none, none, false, some fun _ => some [], none⟩
  cleanLabel text _ := text

/-- A request that is made, up to the search for older ones. -/
def made (i : ℕ) : List (ℕ × Choice Bool) := [(i, .request ⟨0, [], true, none⟩), (i, .go)]

/-- A call that supersedes what it finds. -/
def superseding (i : ℕ) : List (ℕ × Choice Bool) := [(i, .go), (i, .go), (i, .go), (i, .go)]

/-- A request supersedes an older one and is approved. -/
theorem approval_exact_keyed :
    Runs.Throughout (step keyed)
        (fun w => w.db.ExecutesOnce keyed ∧ w.db.SettlesOnce ∧ w.db.NewestPending keyed) (initial [7] 0)
        (made 0 ++ [(0, .go), (1, .tick)] ++ made 1 ++ superseding 1 ++
          [(2, .decide ⟨1, .approve, 7, none, none, none⟩), (2, .go), (2, .go), (2, .go), (2, .go), (2, .go),
            (2, .executes none), (2, .go), (2, .go)]) ∧
      Runs.Steps (step keyed) (fun w w' => w.db.Follows w'.db) (initial [7] 0)
        (made 0 ++ [(0, .go), (1, .tick)] ++ made 1 ++ superseding 1 ++
          [(2, .decide ⟨1, .approve, 7, none, none, none⟩), (2, .go), (2, .go), (2, .go), (2, .go), (2, .go),
            (2, .executes none), (2, .go), (2, .go)]) := by
  obtain ⟨w, hw⟩ := Option.isSome_iff_exists.mp
    (show (run (step keyed) (initial [7] 0)
      (made 0 ++ [(0, .go), (1, .tick)] ++ made 1 ++ superseding 1 ++
          [(2, .decide ⟨1, .approve, 7, none, none, none⟩), (2, .go), (2, .go), (2, .go), (2, .go), (2, .go),
            (2, .executes none), (2, .go), (2, .go)])).isSome by decide +kernel)
  exact (approval_exact hw).mpr (by decide +kernel)

/-- Two requests of one key that are created at one time supersede each other. -/
theorem both_superseded :
    ¬ (Runs.Throughout (step keyed)
        (fun w => w.db.ExecutesOnce keyed ∧ w.db.SettlesOnce ∧ w.db.NewestPending keyed) (initial [7] 0)
        (made 0 ++ made 1 ++ superseding 0 ++ superseding 1) ∧
      Runs.Steps (step keyed) (fun w w' => w.db.Follows w'.db) (initial [7] 0)
        (made 0 ++ made 1 ++ superseding 0 ++ superseding 1)) := by
  rintro ⟨hall, -⟩
  obtain ⟨w, hw⟩ := Option.isSome_iff_exists.mp
    (show (run (step keyed) (initial [7] 0) (made 0 ++ made 1 ++ superseding 0 ++ superseding 1)).isSome by
      decide +kernel)
  have hend : (run (step keyed) (initial [7] 0) (made 0 ++ made 1 ++ superseding 0 ++ superseding 1)).all
      (fun w => (w.db.rows 0).any (fun row => keyed.keyOf row.ask ≠ none) &&
        ∀ id < w.db.minted, ∀ r ∈ w.db.rows id, r.left = true ∧ r.status ≠ .pending) = true := by
    decide +kernel
  rw [hw, Option.all_some, Bool.and_eq_true, decide_eq_true_eq, Option.any_eq_true] at hend
  obtain ⟨⟨row, hrow, hkey⟩, hleft⟩ := hend
  have hsound := run_invariant (step keyed) (I := Sound keyed) (fun _ _ _ h hstep => h.step hstep)
    (.initial [7] 0) hw
  exact not_newestPending_of_left hsound.db hrow (of_decide_eq_true hkey) hleft
    (hall _ [] w (List.append_nil _).symm hw).2.2

end Onecli.Channels.ActionApproval
