import Onecli.Runner.Capacity

/-!
# Capacity holds where admissions are current

A start which passed the check executes until it has ended, and no check prunes it. What a check misses is a container
that its listing does not show yet; what it counts too often is an admission that nobody gives back.
-/

namespace Onecli.Runner.Capacity

open Function (update update_apply update_of_ne update_self)
open Copy List Option Bool

variable {t t' : Copy} {p p' q : Point} {c : Choice} {x y : Place} {id ticket : ℕ}

/-- Every sandbox that a start can still bring up which passed the check is admitted. -/
def Admits (t : Copy) : Prop := ∀ id, id ∈ t.underway ∨ t.comesUp id → id ∈ t.admittedNew

/-- A sandbox whose start failed, or that was stopped, is not admitted. -/
def GivenBack (t : Copy) : Prop := ∀ id, t.ended id = some .failed ∨ t.ended id = some .stopped → id ∉ t.admittedNew

section Containers

/-- What comes up is booting and admitted. -/
theorem comesUp_iff (t : Copy) (id : ℕ) :
    t.comesUp id ↔ ∃ c ∈ t.containers, c.sandboxId = id ∧ c.state = .booting ∧ c.admitted := by
  unfold comesUp
  simp only [List.any_eq_true, and_eq_true, decide_eq_true_eq]

/-- What went down does not come up. -/
theorem comesUp_of_map {changes : Container → Prop} [DecidablePred changes] {f : Container → Container}
    (hcontainers : t'.containers = t.containers.map fun c => if changes c then f c else c)
    (hdown : ∀ c, (f c).state ≠ .booting) (id : ℕ) (h : t'.comesUp id) : t.comesUp id := by
  obtain ⟨c, hc, hid, hup⟩ := (comesUp_iff t' id).mp h
  rw [hcontainers] at hc
  obtain ⟨old, hold, rfl⟩ := List.mem_map.mp hc
  split at hid
  · rename_i hchanges
    rw [if_pos hchanges] at hup
    exact absurd hup.1 (hdown old)
  · rename_i hstays
    rw [if_neg hstays] at hup
    exact (comesUp_iff t id).mpr ⟨old, hold, hid, hup⟩

theorem comesUp_of_filter (f : Container → Bool) (hcontainers : t'.containers = t.containers.filter f) (id : ℕ)
    (h : t'.comesUp id) : t.comesUp id := by
  obtain ⟨c, hc, hrest⟩ := (comesUp_iff t' id).mp h
  rw [hcontainers] at hc
  exact (comesUp_iff t id).mpr ⟨c, mem_of_mem_filter hc, hrest⟩

theorem comesUp_boots (id other : ℕ) (h : (t.boots other).comesUp id) : t.comesUp id :=
  comesUp_of_map rfl (fun _ => ContainerState.noConfusion) id h

theorem comesUp_exits (id other : ℕ) (h : (t.exits other).comesUp id) : t.comesUp id :=
  comesUp_of_map rfl (fun _ => ContainerState.noConfusion) id h

theorem comesUp_stopSandbox (id ref : ℕ) (h : (t.stopSandbox ref).comesUp id) : t.comesUp id :=
  comesUp_of_map rfl (fun _ => ContainerState.noConfusion) id h

theorem comesUp_createSandbox (start : Start) (state : ContainerState) (id : ℕ)
    (h : (t.createSandbox start state).comesUp id) : t.comesUp id ∨ id = start.sandboxId ∧ start.existing = none := by
  obtain ⟨c, hc, hid, hstate, hadmitted⟩ := (comesUp_iff _ id).mp h
  rcases mem_append.mp hc with hold | hnew
  · exact .inl ((comesUp_iff t id).mpr ⟨c, hold, hid, hstate, hadmitted⟩)
  · obtain rfl := mem_singleton.mp hnew
    exact .inr ⟨hid.symm, isNone_iff_eq_none.mp hadmitted⟩

theorem comesUp_startSandbox (start : Start) (ref : ℕ) (state : ContainerState) (id : ℕ)
    (h : (t.startSandbox start ref state).comesUp id) :
    t.comesUp id ∨ id = start.sandboxId ∧ start.existing = none := by
  obtain ⟨c, hc, hid, hstate, hadmitted⟩ := (comesUp_iff _ id).mp h
  obtain ⟨old, hold, rfl⟩ := List.mem_map.mp hc
  split at hid
  · rename_i hmatch
    rw [if_pos hmatch] at hadmitted
    exact .inr ⟨hid.symm.trans hmatch.1, isNone_iff_eq_none.mp hadmitted⟩
  · rename_i hmatch
    rw [if_neg hmatch] at hstate hadmitted
    exact .inl ((comesUp_iff t id).mpr ⟨old, hold, hid, hstate, hadmitted⟩)

end Containers

variable {u : Copy} {maxSandboxes lifecycleConcurrency : ℕ} {start : Start}

/-- What a statement does: it moves in the chains; where it is current, what can come up stays admitted; and what was
given back stays so. -/
structure Advances (maxSandboxes : ℕ) (c : Choice) (t : Copy) (p : Point) (t' : Copy) (p' : Point) : Prop where
  moves : Moves t p t' p'
  admits : Chained t → Knows t p → Current maxSandboxes c t p → Admits t → Admits t'
  givenBack : GivenBack t → GivenBack t'

namespace Advances

theorem quiet (hexec : some (u, q) = some (t', p'))
    (hframe : u = { t with containers := u.containers, refs := u.refs, inUse := u.inUse })
    (hcomesUp : ∀ id, u.comesUp id → t.comesUp id) (hq : q.place = p.place ∨ q.place = none) :
    Advances maxSandboxes c t p t' p' := by
  cases hexec
  refine ⟨?_, fun _ _ _ hadmits id hid => ?_, fun hback => ?_⟩
  · rw [hframe]
    exact .stays hq rfl rfl rfl rfl
  · have hin : id ∈ t.admittedNew := by
      apply hadmits id
      rcases hid with hunder | hup
      · rw [hframe] at hunder
        exact .inl hunder
      · exact .inr (hcomesUp id hup)
    rw [hframe]
    exact hin
  · rw [hframe]
    exact hback

theorem read (hexec : some (t, q) = some (t', p')) (hq : q.place = p.place ∨ q.place = none) :
    Advances maxSandboxes c t p t' p' :=
  quiet hexec rfl (fun _ h => h) hq

theorem grows (hexec : some (u, q) = some (t', p')) (hframe : u = { t with containers := u.containers, refs := u.refs })
    (hcomesUp : ∀ id, u.comesUp id → t.comesUp id ∨ id = start.sandboxId ∧ start.existing = none)
    (hp : p.place = some start.place) (hq : q.place = p.place) : Advances maxSandboxes c t p t' p' := by
  cases hexec
  refine ⟨?_, fun _ hknows _ hadmits id hid => ?_, fun hback => ?_⟩
  · rw [hframe]
    exact .stays (.inl hq) rfl rfl rfl rfl
  · have hin : id ∈ t.admittedNew := by
      apply hadmits id
      rcases hid with hunder | hup
      · rw [hframe] at hunder
        exact .inl hunder
      · rcases hcomesUp id hup with hold | ⟨rfl, hnew⟩
        · exact .inr hold
        · -- a start that passed the check is under way
          have hholds := hknows _ hp
          unfold Start.place Start.stage at hholds
          rw [if_pos hnew] at hholds
          exact .inl hholds.2
    rw [hframe]
    exact hin
  · rw [hframe]
    exact hback

theorem queues (hexec : some (u, q) = some (t', p'))
    (hframe : u = { t with queuedStarts := u.queuedStarts, queuedStops := u.queuedStops })
    (hq : q.place = p.place ∨ q.place = none) : Advances maxSandboxes c t p t' p' := by
  cases hexec
  rw [hframe]
  exact ⟨.stays hq rfl rfl rfl rfl, fun _ _ _ hadmits => hadmits, fun hback => hback⟩

theorem enqueues {id : ℕ} (hexec : some (u, q) = some (t', p'))
    (hframe : u = { t.enqueue id with queuedStarts := u.queuedStarts, queuedStops := u.queuedStops })
    (hp : p.place = none) (hq : q.place = some ⟨id, t.tickets, .queued⟩) : Advances maxSandboxes c t p t' p' := by
  cases hexec
  rw [hframe]
  exact ⟨.enqueues id hp hq rfl rfl rfl rfl, fun _ _ _ hadmits => hadmits, fun hback => hback⟩

variable {id ticket : ℕ} {stage : Stage}

theorem begins (hexec : some (t.beginStart id, q) = some (t', p')) (hp : p.place = some ⟨id, ticket, .queued⟩)
    (hhead : (t.chains id).head? = some ticket) (hq : q.place = some ⟨id, ticket, .begun⟩) :
    Advances maxSandboxes c t p t' p' := by
  cases hexec
  exact ⟨.starts id ticket _ hp hhead hq rfl rfl rfl rfl, fun _ _ _ hadmits => hadmits, fun hback => hback⟩

theorem stops (hexec : some (u, q) = some (t', p'))
    (hframe : u = { t with queuedStarts := u.queuedStarts, queuedStops := u.queuedStops })
    (hp : p.place = some ⟨id, ticket, .queued⟩) (hhead : (t.chains id).head? = some ticket)
    (hq : q.place = some ⟨id, ticket, .stopping⟩) : Advances maxSandboxes c t p t' p' := by
  cases hexec
  rw [hframe]
  exact ⟨.stops id ticket hp hhead hq rfl rfl rfl rfl, fun _ _ _ hadmits => hadmits, fun hback => hback⟩

theorem settles (hexec : some (u, q) = some (t', p'))
    (hframe : u = { t.dequeue id with inUse := u.inUse, executingStartHash := u.executingStartHash })
    (hp : p.place = some ⟨id, ticket, stage⟩) (hstage : stage = .begun ∨ stage = .stopping) (hq : q.place = none)
    (hothers : ∀ other ≠ id, u.executingStartHash other = t.executingStartHash other)
    (hself : t.executingStartHash id = none ∨ stage = .begun → u.executingStartHash id = none) :
    Advances maxSandboxes c t p t' p' := by
  cases hexec
  refine ⟨?_, fun _ _ _ hadmits => ?_, fun hback => ?_⟩
  · exact Moves.settles id ticket stage hp hstage hq (by rw [hframe]; rfl) (by rw [hframe]; rfl) hothers hself
      (by rw [hframe]; rfl)
  · rw [hframe]
    exact hadmits
  · rw [hframe]
    exact hback

/-- A place that is given back admits no one else. -/
theorem admits_erase {id : ℕ} (h : Admits t) (hcontainers : t'.containers = t.containers)
    (hadmitted : t'.admittedNew = t.admittedNew.erase id) (hway : t'.underway ⊆ t.underway)
    (hgone : id ∉ t'.underway) (hup : ¬ t.comesUp id) : Admits t' := by
  intro other hother
  have hup' : t'.comesUp other ↔ t.comesUp other := by
    unfold comesUp
    rw [hcontainers]
  rw [hadmitted]
  refine Finset.mem_erase.mpr ⟨?_, ?_⟩
  · rintro rfl
    rcases hother with hunder | hcomes
    · exact hgone hunder
    · exact hup (hup'.mp hcomes)
  · exact h other (hother.imp (fun hunder => hway hunder) hup'.mp)

theorem ends (hexec : some (u, q) = some (t', p'))
    (hframe : u = { t with admittedNew := u.admittedNew, underway := t.underway.erase id, ended := u.ended })
    (hp : p.place = some ⟨id, ticket, stage⟩) (hstage : stage = .begun ∨ stage = .admitted)
    (hq : q.place = some ⟨id, ticket, .begun⟩) (hadmits : Current maxSandboxes c t p → Admits t → Admits u)
    (hback : GivenBack t → GivenBack u) : Advances maxSandboxes c t p t' p' := by
  cases hexec
  refine ⟨?_, fun _ _ => hadmits, hback⟩
  exact Moves.ends id ticket stage hp hstage hq (by rw [hframe]) (by rw [hframe]) (by rw [hframe]) (by rw [hframe])

theorem finish {ending : Option Ending} (hexec : some (t.finish id ending, q) = some (t', p'))
    (hp : p.place = some ⟨id, ticket, stage⟩) (hstage : stage = .begun ∨ stage = .admitted)
    (hq : q.place = some ⟨id, ticket, .begun⟩) (hending : ending ≠ some .failed ∧ ending ≠ some .stopped) :
    Advances maxSandboxes c t p t' p' := by
  refine ends hexec rfl hp hstage hq (fun _ hadmits other hother => ?_) fun hback other hended => ?_
  · exact hadmits other (hother.imp_left fun hunder => Finset.mem_of_mem_erase hunder)
  · change update t.ended id ending other = _ ∨ update t.ended id ending other = _ at hended
    rw [update_apply] at hended
    split at hended
    · rcases hended with h | h
      · exact absurd h hending.1
      · exact absurd h hending.2
    · exact hback other hended

theorem fail (hexec : some (t.fail id, q) = some (t', p')) (hp : p.place = some ⟨id, ticket, stage⟩)
    (hstage : stage = .begun ∨ stage = .admitted) (hq : q.place = some ⟨id, ticket, .begun⟩)
    (hcurrent : Current maxSandboxes c t p → ¬ t.comesUp id) : Advances maxSandboxes c t p t' p' := by
  refine ends hexec rfl hp hstage hq (fun hc hadmits => ?_) fun hback other hended => ?_
  · exact admits_erase hadmits rfl rfl (Finset.erase_subset id _) (Finset.notMem_erase id _) (hcurrent hc)
  · obtain ⟨rfl, -⟩ | ⟨-, hended⟩ := update_holds (fun ending => ending = _ ∨ ending = _) hended
    · exact Finset.notMem_erase other _
    · exact fun hmem => hback other hended (Finset.mem_of_mem_erase hmem)

theorem release (hexec : some (t.release id, q) = some (t', p')) (hp : p.place = some ⟨id, ticket, .stopping⟩)
    (hq : q.place = p.place) (hcurrent : Current maxSandboxes c t p → ¬ t.comesUp id) :
    Advances maxSandboxes c t p t' p' := by
  cases hexec
  refine ⟨.stays (.inl hq) rfl rfl rfl rfl, fun hchained hknows hc hadmits => ?_, fun hback other hended => ?_⟩
  · refine admits_erase hadmits rfl rfl (Finset.Subset.refl _) (fun hunder => ?_) (hcurrent hc)
    exact hchained.executes id hunder (hknows _ hp).2
  · obtain ⟨rfl, -⟩ | ⟨-, hended⟩ := update_holds (fun ending => ending = _ ∨ ending = _) hended
    · exact Finset.notMem_erase other _
    · exact fun hmem => hback other hended (Finset.mem_of_mem_erase hmem)

theorem drop {id : ℕ} (hexec : some (t.drop id, q) = some (t', p')) (hq : q.place = p.place ∨ q.place = none)
    (hcurrent : Current maxSandboxes c t p → ¬ t.comesUp id ∧ id ∉ t.underway) : Advances maxSandboxes c t p t' p' := by
  cases hexec
  refine ⟨.stays hq rfl rfl rfl rfl, fun _ _ hc hadmits => ?_, fun hback other hended hmem => ?_⟩
  · exact admits_erase hadmits rfl rfl (Finset.Subset.refl _) (hcurrent hc).2 (hcurrent hc).1
  · exact hback other hended (Finset.mem_of_mem_erase hmem)

end Advances

namespace Copy

variable {snaps : List SandboxSnapshot} {id : ℕ}

theorem mem_kept_of_executing (h : id ∈ t.admittedNew) (hexe : t.executingStartHash id ≠ none) :
    id ∈ t.kept snaps := by
  refine Finset.mem_filter.mpr ⟨h, ?_⟩
  have hmarked : t.marked id = true := by
    unfold marked
    rw [isSome_iff_ne_none.mpr hexe, Bool.or_true]
  rw [hmarked, Bool.true_or]

theorem mem_kept (hchained : Chained t) (hadmits : Admits t)
    (hcurrent : ∀ gone ∈ t.admittedNew, gone ∉ t.kept snaps → ¬ t.comesUp gone)
    (hid : id ∈ t.underway ∨ t.comesUp id) : id ∈ t.kept snaps := by
  have hadmitted := hadmits id hid
  rcases hid with hunder | hup
  · exact mem_kept_of_executing hadmitted (hchained.executes id hunder)
  · by_contra hgone
    exact hcurrent id hadmitted hgone hup

theorem runs_iff (t : Copy) (id : ℕ) : t.runs id ↔ ∃ c ∈ t.containers, c.sandboxId = id ∧ c.state = .running := by
  unfold runs
  simp only [List.any_eq_true, and_eq_true, decide_eq_true_eq]

section

variable (hchained : Chained t) (hadmits : Admits t) (hcurrent : ∀ gone ∈ t.admittedNew, gone ∉ t.kept snaps → ¬ t.comesUp gone) (hseen : Seen t snaps id)
include hchained hadmits hcurrent hseen

theorem holding_subset : t.holding.erase id ⊆ ((live snaps).map (·.sandboxId)).toFinset ∪ t.kept snaps := by
  intro other hother
  obtain ⟨hne, hholds⟩ := Finset.mem_erase.mp hother
  rw [Finset.mem_union]
  have hkept (h : other ∈ t.underway ∨ t.comesUp other) : other ∈ t.kept snaps := mem_kept hchained hadmits hcurrent h
  rcases Finset.mem_union.mp hholds with hunder | hcont
  · exact .inr (hkept (.inl hunder))
  · have hstate := (Finset.mem_filter.mp hcont).2
    rw [or_eq_true] at hstate
    rcases hstate with hruns | hup
    · obtain ⟨c, hc, rfl, hrunning⟩ := (runs_iff t other).mp hruns
      rcases hseen c hc hrunning hne with ⟨s, hs, hlisted, hsame⟩ | hin
      · refine .inl (mem_toFinset.mpr (List.mem_map.mpr ⟨s, ?_, hsame⟩))
        exact mem_filter.mpr ⟨hs, hlisted⟩
      · exact .inr hin
    · exact .inr (hkept (.inr hup))

theorem card_holding_lt (hroom : hasRoom maxSandboxes t snaps) : (t.holding.erase id).card < maxSandboxes :=
  calc (t.holding.erase id).card
    _ ≤ (((live snaps).map (·.sandboxId)).toFinset ∪ t.kept snaps).card :=
      Finset.card_le_card (holding_subset hchained hadmits hcurrent hseen)
    _ ≤ ((live snaps).map (·.sandboxId)).toFinset.card + (t.kept snaps).card := Finset.card_union_le _ _
    _ ≤ (live snaps).length + (t.kept snaps).card := by
      have hle := toFinset_card_le ((live snaps).map (·.sandboxId))
      rw [length_map] at hle
      exact Nat.add_le_add_right hle _
    _ < maxSandboxes := hroom

end

theorem countedWithout_eq (hback : GivenBack t) (hforgotten : Forgotten t snaps) :
    t.countedWithout snaps = (live snaps).length + (t.kept snaps).card := by
  have hlive : (live snaps).filter (fun s => !t.isOver s.sandboxId) = live snaps := by
    refine filter_eq_self.mpr fun s hs => ?_
    obtain ⟨hmem, hrunning⟩ := mem_filter.mp hs
    rw [Bool.not_eq_true', eq_false_iff]
    exact hforgotten.1 s hmem hrunning
  have hkept : (t.kept snaps).filter (fun other => ¬ t.isOver other) = t.kept snaps := by
    refine Finset.filter_eq_self.mpr fun other hother hover => ?_
    obtain ⟨hadmitted, hcnt⟩ := Finset.mem_filter.mp hother
    have hfailed : t.ended other ≠ some .failed := fun h => hback other (.inl h) hadmitted
    have hstop : t.ended other ≠ some .stopped := fun h => hback other (.inr h) hadmitted
    obtain ⟨hmarked, hlisted⟩ := hforgotten.2 other hadmitted hover hfailed hstop
    rcases (or_eq_true _ _).mp hcnt with h | h
    · exact hmarked h
    · unfold listedIdle at h
      cases hseen : snaps.find? fun s => s.sandboxId = other with
      | none =>
        rw [hseen] at h
        cases h
      | some seen =>
        have hmatch := List.find?_some hseen
        exact hlisted seen (List.mem_of_find?_eq_some hseen) (of_decide_eq_true hmatch)
  unfold countedWithout
  rw [hlive, hkept]

end Copy

/-- A current count makes the statement right. -/
theorem right_of_current (hchained : Chained t) (hadmits : Admits t) (hback : GivenBack t)
    (hcurrent : Current maxSandboxes c t p) : Right maxSandboxes c t p := by
  unfold Right
  split
  · intro hnone
    obtain ⟨hprune, hcounts⟩ := hcurrent hnone
    refine ⟨fun hroom => ?_, fun hfull => ?_⟩
    · rw [if_pos hroom] at hcounts
      exact card_holding_lt hchained hadmits hprune hcounts hroom
    · rw [if_neg hfull] at hcounts
      rw [countedWithout_eq hback hcounts]
      exact not_lt.mp hfull
  · trivial

theorem Advances.check (lifecycleConcurrency : ℕ) {id ticket : ℕ} {snaps : List SandboxSnapshot}
    (hexec : exec maxSandboxes lifecycleConcurrency .go t (.check id ticket snaps) = some (t', p')) :
    Advances maxSandboxes .go t (.check id ticket snaps) t' p' := by
  have hplace : (Point.check id ticket snaps).place = some ⟨id, ticket, .begun⟩ := rfl
  unfold exec at hexec
  dsimp only at hexec
  have hclears (hback : GivenBack t) (ending : Option Ending) (hending : ending ≠ some .failed ∧ ending ≠ some .stopped)
      (other : ℕ) (hended : update t.ended id ending other = some .failed ∨
        update t.ended id ending other = some .stopped) : other ≠ id ∧ other ∉ t.admittedNew := by
    rw [update_apply] at hended
    split at hended
    · rcases hended with h | h
      · exact absurd h hending.1
      · exact absurd h hending.2
    · rename_i hother
      exact ⟨hother, hback other hended⟩
  split at hexec
  · cases hexec
    refine ⟨.stays (.inl rfl) rfl rfl rfl rfl, fun _ _ _ hadmits => hadmits, fun hback other hended => ?_⟩
    exact (hclears hback none ⟨some_ne_none _ ∘ Eq.symm, some_ne_none _ ∘ Eq.symm⟩ other hended).2
  · rename_i hnone
    split at hexec
    · -- it passes, and what can come up is not pruned
      cases hexec
      refine ⟨.passes id ticket hplace rfl rfl rfl rfl rfl, fun hchained _ hcurrent hadmits other hother => ?_,
        fun hback other hended hmem => ?_⟩
      · refine Finset.mem_insert.mpr ?_
        rcases hother with hunder | hup
        · rcases Finset.mem_insert.mp hunder with hsame | hunder
          · exact .inl hsame
          · exact .inr (mem_kept hchained hadmits (hcurrent hnone).1 (.inl hunder))
        · exact .inr (mem_kept hchained hadmits (hcurrent hnone).1 (.inr hup))
      · obtain ⟨hne, hout⟩ := hclears hback none ⟨some_ne_none _ ∘ Eq.symm, some_ne_none _ ∘ Eq.symm⟩
          other hended
        rcases Finset.mem_insert.mp hmem with hsame | hkept
        · exact hne hsame
        · exact hout (Finset.mem_of_mem_filter other hkept)
    · cases hexec
      refine ⟨.stays (.inl rfl) rfl rfl rfl rfl, fun hchained _ hcurrent hadmits other hother => ?_,
        fun hback other hended hmem => ?_⟩
      · exact mem_kept hchained hadmits (hcurrent hnone).1 hother
      · obtain ⟨-, hout⟩ := hclears hback (some .refused) ⟨by decide, by decide⟩ other hended
        exact hout (Finset.mem_of_mem_filter other hmem)

theorem Advances.nothing {id ticket : ℕ} {ref : Option ℕ}
    (hexec : some (t.nothingToStop id, Point.settleStop id ticket) = some (t', p')) :
    Advances maxSandboxes c t (.listStop id ticket ref) t' p' := by
  cases hexec
  refine ⟨.stays (.inl rfl) rfl rfl rfl rfl, fun _ _ _ hadmits => hadmits, fun hback other hended => ?_⟩
  change update t.ended id _ other = _ ∨ update t.ended id _ other = _ at hended
  rw [update_apply] at hended
  split at hended
  · rcases hended with h | h
    · cases h
    · cases h
  · exact hback other hended

theorem Start.stage_cases (start : Start) : start.stage = .begun ∨ start.stage = .admitted := by
  unfold Start.stage
  split
  · exact .inr rfl
  · exact .inl rfl

theorem place_cleaned (start : Start) (rethrow : Bool) :
    (if rethrow then Point.catching start else .standDown start).place = some start.place := by
  cases rethrow <;> rfl

theorem advances_exec (hexec : exec maxSandboxes lifecycleConcurrency c t p = some (t', p')) :
    Advances maxSandboxes c t p t' p' := by
  unfold exec at hexec
  split at hexec
  all_goals try exact .read hexec (.inl rfl)
  -- a container changes by itself
  · exact .quiet hexec rfl (fun id => comesUp_boots id _) (.inl rfl)
  · exact .quiet hexec rfl (fun id => comesUp_exits id _) (.inl rfl)
  · exact .quiet hexec rfl (comesUp_of_filter _ rfl) (.inl rfl)
  -- a start, up to its check
  · split at hexec
    · exact .queues hexec rfl (.inl rfl)
    · split at hexec
      · exact .read hexec (.inl rfl)
      · exact .enqueues hexec rfl rfl rfl
  · split at hexec
    · rename_i hhead
      exact .begins hexec rfl hhead rfl
    · cases hexec
  · split at hexec
    · exact .quiet hexec rfl (fun _ h => h) (.inl rfl)
    · cases hexec
  · exact .fail hexec rfl (.inl rfl) rfl fun hcurrent => hcurrent
  · exact .check lifecycleConcurrency hexec
  -- a start, after its check
  · split at hexec <;> exact .read hexec (.inl rfl)
  · exact .quiet hexec rfl (fun id => comesUp_stopSandbox id _) (.inl rfl)
  · exact .quiet hexec rfl (comesUp_of_filter _ rfl) (.inl rfl)
  · rename_i state start
    split at hexec
    · cases hexec
    · exact .grows hexec rfl (comesUp_createSandbox start state) rfl rfl
  · rename_i state start
    split at hexec
    · cases hexec
    · exact .grows hexec rfl (comesUp_createSandbox start state) rfl rfl
  · exact .quiet hexec rfl (fun id => comesUp_stopSandbox id _) (.inl rfl)
  · exact .read hexec (.inl (place_cleaned _ _))
  · exact .quiet hexec rfl (comesUp_of_filter _ rfl) (.inl (place_cleaned _ _))
  · exact .read hexec (.inl (place_cleaned _ _))
  · rename_i start
    exact .finish hexec rfl start.stage_cases rfl ⟨by decide, by decide⟩
  · rename_i state start ref
    exact .grows hexec rfl (comesUp_startSandbox start ref state) rfl rfl
  · rename_i state start ref
    exact .grows hexec rfl (comesUp_startSandbox start ref state) rfl rfl
  · rename_i start
    exact .finish hexec rfl start.stage_cases rfl ⟨by decide, by decide⟩
  · rename_i start
    exact .fail hexec rfl start.stage_cases rfl fun hcurrent => hcurrent
  · exact .settles hexec rfl rfl (.inl rfl) rfl (fun other hother => update_of_ne hother _ _)
      fun _ => update_self _ _ _
  -- a stop, and a stray stop
  · split at hexec
    · exact .queues hexec rfl (.inl rfl)
    · exact .enqueues hexec rfl rfl rfl
  · split at hexec
    · rename_i hhead
      exact .stops hexec rfl rfl hhead rfl
    · cases hexec
  · split at hexec
    · exact .read hexec (.inl rfl)
    · exact .nothing hexec
  · exact .enqueues hexec rfl rfl rfl
  · split at hexec
    · rename_i hhead
      exact .stops hexec rfl rfl hhead rfl
    · cases hexec
  · exact .quiet hexec rfl (fun id => comesUp_stopSandbox id _) (.inl rfl)
  · exact .release hexec rfl rfl fun hcurrent => hcurrent
  · exact Advances.settles hexec rfl rfl (.inr rfl) rfl (fun _ _ => rfl) fun h => h.resolve_right Stage.noConfusion
  -- the arms of the reconciler
  · split at hexec
    · cases hexec
    · exact .read hexec (.inl rfl)
  · exact .quiet hexec rfl (fun id => comesUp_stopSandbox id _) (.inl rfl)
  · exact .quiet hexec rfl (comesUp_of_filter _ rfl) (.inl rfl)
  · exact .drop hexec (.inl rfl) fun hcurrent => hcurrent
  · exact .quiet hexec rfl (fun id => comesUp_stopSandbox id _) (.inl rfl)
  · exact .quiet hexec rfl (comesUp_of_filter _ rfl) (.inl rfl)
  · exact .drop hexec (.inl rfl) fun hcurrent => hcurrent
  · split at hexec
    · cases hexec
    · exact .drop hexec (.inl rfl) fun hcurrent => hcurrent
  · cases hexec

/-- What holds of the copy and of every call on it where the steps are current. -/
structure Sound (w : World) : Prop where
  chained : Chained w.db
  calls : ∀ i, Knows w.db (w.calls i)
  apart : ∀ i j, i ≠ j → Apart (w.calls i) (w.calls j)
  admits : Admits w.db
  givenBack : GivenBack w.db

/-- Before any claim the counts are sound. -/
theorem Sound.initial (containers : List (ℕ × ContainerState)) : Sound (initial containers) where
  chained := ⟨fun id hid => absurd hid (Finset.notMem_empty id), fun _ _ => rfl, nofun⟩
  calls := fun i x hx => by cases hx
  apart := fun i j hij x y hx => by cases hx
  admits := by
    intro id hid
    rcases hid with hunder | hup
    · exact absurd hunder (Finset.notMem_empty id)
    · obtain ⟨c, hc, -, -, hadmitted⟩ := (comesUp_iff _ id).mp hup
      obtain ⟨old, hold, rfl⟩ := List.mem_map.mp hc
      cases hadmitted
  givenBack := fun id _ hmem => absurd hmem (Finset.notMem_empty id)

variable {w w' : World} {e : ℕ × Choice}

/-- Every current statement keeps the counts sound. -/
theorem Sound.step (h : Sound w) (hcurrent : StepCurrent maxSandboxes w e)
    (hstep : Capacity.step maxSandboxes lifecycleConcurrency w e = some w') : Sound w' := by
  obtain ⟨t, p, hexec, rfl⟩ := (Calls.step_eq_some_iff _ w w' e).mp hstep
  have hadvances := advances_exec hexec
  have hmoves := hadvances.moves
  have hheld : Calls.HoldsApart Chained Knows Apart w := ⟨⟨h.chained, h.calls⟩, h.apart⟩
  have hnext := hheld.step (exec maxSandboxes lifecycleConcurrency)
    (fun p q hpq x y hx hy => (hpq y x hy hx).symm) hstep fun db point hpoint => by
      cases hexec.symm.trans hpoint
      refine ⟨hmoves.chained h.chained (h.calls e.1), hmoves.knows h.chained (h.calls e.1), fun j hj => ?_⟩
      exact ⟨hmoves.others (h.calls e.1) (h.calls j) (h.apart e.1 j hj.symm),
        hmoves.apart h.chained (h.calls j) (h.apart e.1 j hj.symm)⟩
  exact ⟨hnext.db, hnext.calls, hnext.apart,
    hadvances.admits h.chained (h.calls e.1) hcurrent h.admits, hadvances.givenBack h.givenBack⟩

/-- In a run whose steps are all current, every check is right. -/
theorem capacity_holds {containers : List (ℕ × ContainerState)} {es : List (ℕ × Choice)}
    (hcurrent : Runs.Meets (step maxSandboxes lifecycleConcurrency) (StepCurrent maxSandboxes) (initial containers)
      es) :
    Runs.Each (step maxSandboxes lifecycleConcurrency) (StepRight maxSandboxes) (initial containers) es :=
  Runs.each_of_meets _ (I := Sound)
    (fun _ _ _ h hstep hnext => ⟨h.step hstep hnext, right_of_current h.chained h.admits h.givenBack hstep⟩)
    (.initial containers) hcurrent

/-- A start of a sandbox without a container, up to the listing of its check. -/
def listed (i id payloadHash : ℕ) : List (ℕ × Choice) := [(i, .start id payloadHash), (i, .go), (i, .go), (i, .go)]

/-- It passes, and its container is created. -/
def created (i : ℕ) : List (ℕ × Choice) := [(i, .go), (i, .go), (i, .go), (i, .leaves .created)]

/-- The container runs, and the start has reported. -/
def brought (i : ℕ) : List (ℕ × Choice) := [(i, .go), (i, .leaves .running), (i, .go), (i, .go)]

/-- A stop of a sandbox with a container. -/
def stopped (i id : ℕ) : List (ℕ × Choice) :=
  [(i, .stop id none), (i, .go), (i, .go), (i, .go), (i, .go), (i, .go), (i, .go)]

/-- A start that is refused, the stop of the other sandbox, and a start that passes. -/
def handedOver : List (ℕ × Choice) :=
  listed 0 7 1 ++ created 0 ++ brought 0 ++ listed 1 8 1 ++ [(1, .go), (1, .go)] ++ stopped 2 7 ++ listed 3 8 1 ++
    created 3 ++ brought 3

/-- Commands that settle before the next check begins keep a capacity of one. -/
theorem capacity_holds_handedOver : Runs.Each (step 1 2) (StepRight 1) (initial []) handedOver :=
  capacity_holds (by decide +kernel)

/-- A start that stands down, and the next start of the same sandbox up to its check. -/
def stoodDown : List (ℕ × Choice) :=
  listed 0 7 1 ++ created 0 ++ [(0, .refuses), (0, .go), (0, .go), (0, .go), (0, .go)] ++ listed 1 7 1

/-- A start whose listing is taken before another start brings its container up, and answered after. -/
def overtaken : List (ℕ × Choice) :=
  listed 0 7 1 ++ [(0, .go), (0, .go), (0, .go)] ++ listed 1 8 1 ++ [(0, .leaves .created)] ++ brought 0

/-- One wrong statement breaks the run. -/
theorem not_each_of_wrong {maxSandboxes lifecycleConcurrency : ℕ} {es : List (ℕ × Choice)} {e : ℕ × Choice} {w : World}
    (hwrong : (Runs.run (step maxSandboxes lifecycleConcurrency) w es).any (fun u =>
      (step maxSandboxes lifecycleConcurrency u e).isSome && !decide (Right maxSandboxes e.2 u.db (u.calls e.1)))) :
    ¬ Runs.Each (step maxSandboxes lifecycleConcurrency) (StepRight maxSandboxes) w (es ++ [e]) := by
  intro hall
  obtain ⟨u, hu, hcheck⟩ := (Option.any_eq_true _ _).mp hwrong
  obtain ⟨hstep, hnot⟩ := (and_eq_true _ _).mp hcheck
  obtain ⟨v, hv⟩ := isSome_iff_exists.mp hstep
  rw [Bool.not_eq_true', decide_eq_false_iff_not] at hnot
  exact hnot (hall es e [] u v rfl hu hv)

/-- A sandbox whose start stood down is refused for its own admission, with no container there is; and a start passes
beside a container that runs, at a capacity of one. -/
theorem check_wrong :
    ¬ Runs.Each (step 1 2) (StepRight 1) (initial []) (stoodDown ++ [(1, .go)]) ∧
      ¬ Runs.Each (step 1 2) (StepRight 1) (initial []) (overtaken ++ [(1, .go)]) :=
  ⟨not_each_of_wrong (by decide +kernel), not_each_of_wrong (by decide +kernel)⟩

end Onecli.Runner.Capacity
