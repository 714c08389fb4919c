import Onecli.Runner.DeadReports

/-!
# A dead container is reported until the platform knows

A container that is marked as reported has had a report accepted, or one is under way: the mark is set before the post.
What is remembered as missing was seen missing by the pass before. Where both are kept, every pass posts a report of every
container that it owes one, and no stopped report is collected without a ground.
-/

namespace Onecli.Runner.Reconcile

open Memory List Function

section Missing

variable {t : Memory} {pass : Pass} {id : ℕ}

theorem mem_missingOf (statuses : List (ℕ × Status)) (present : Finset ℕ) (id : ℕ) :
    id ∈ missingOf statuses present ↔ (id, .running) ∈ statuses ∧ id ∉ present := by
  unfold missingOf
  rw [List.mem_map]
  constructor
  · intro h
    obtain ⟨entry, hentry, rfl⟩ := h
    obtain ⟨hmem, hmiss⟩ := mem_filter.mp hentry
    obtain ⟨hruns, habsent⟩ := of_decide_eq_true hmiss
    rw [← hruns]
    exact ⟨hmem, habsent⟩
  · intro h
    exact ⟨(id, .running), mem_filter.mpr ⟨h.1, decide_eq_true ⟨rfl, h.2⟩⟩, rfl⟩

theorem inFlight_of_busy (h : t.busy id) : t.inFlight id := by
  obtain ⟨work, hwork, hbusy⟩ := List.any_eq_true.mp h
  exact List.any_eq_true.mpr ⟨work, hwork, (Bool.and_eq_true_iff.mp hbusy).1⟩

theorem missing_of_missingOf_present (h : id ∈ missingOf pass.assigned.statuses (t.present pass)) :
    id ∈ missingOf pass.assigned.statuses (pass.snapshots.map (·.sandboxId)).toFinset ∧ t.busy id = false := by
  obtain ⟨hruns, habsent⟩ := (mem_missingOf _ _ id).mp h
  unfold present at habsent
  rw [Finset.mem_union, not_or] at habsent
  refine ⟨(mem_missingOf _ _ id).mpr ⟨hruns, habsent.1⟩, ?_⟩
  by_contra hbusy
  apply habsent.2
  rw [List.mem_toFinset, mem_filter]
  exact ⟨List.mem_map.mpr ⟨(id, .running), hruns, rfl⟩, Bool.eq_true_of_not_eq_false hbusy⟩

theorem mem_seesMissing (hstops : t.NoStopExecutes pass)
    (h : id ∈ missingOf pass.assigned.statuses (t.present pass)) : id ∈ t.seesMissing pass := by
  obtain ⟨hmiss, hidle⟩ := missing_of_missingOf_present h
  unfold seesMissing
  rw [Finset.mem_filter, List.mem_toFinset]
  refine ⟨hmiss, fun hwork => ?_⟩
  have hbusy := hstops id hmiss hwork
  rw [hidle] at hbusy
  exact Bool.false_ne_true hbusy

theorem remembered_vanish (hstops : t.NoStopExecutes pass) :
    (t.vanish pass).missingWhileRunning ⊆ (t.vanish pass).seenMissing := by
  intro id hid
  obtain ⟨hmiss, -⟩ := mem_filter.mp (mem_toFinset.mp hid)
  exact mem_seesMissing hstops hmiss

theorem vanishedReports_seen (hremembered : t.missingWhileRunning ⊆ t.seenMissing)
    (hstops : t.NoStopExecutes pass) :
    ∀ r ∈ vanishedReports t pass, r.sandboxId ∈ t.seenMissing ∧ r.sandboxId ∈ t.seesMissing pass := by
  intro r hr
  obtain ⟨id, hid, rfl⟩ := List.mem_map.mp hr
  obtain ⟨hmiss, hprevious⟩ := mem_filter.mp hid
  exact ⟨hremembered (of_decide_eq_true hprevious), mem_seesMissing hstops hmiss⟩

end Missing

section Looks

theorem lookAtClosed_missing (snaps : List SandboxSnapshot) (pending : List Closed) (t : Memory) :
    (lookAtClosed t snaps pending).1.missingWhileRunning = t.missingWhileRunning ∧
      (lookAtClosed t snaps pending).1.seenMissing = t.seenMissing := by
  induction pending generalizing t with
  | nil => exact ⟨rfl, rfl⟩
  | cons closed rest ih =>
    unfold lookAtClosed
    split
    · exact ih t
    · split
      · exact ih t
      · split
        · split <;> exact ih t
        · exact ih (t.mark closed.containerRef)

theorem lookAtClosed_reports (snaps : List SandboxSnapshot) (pending : List Closed) (t : Memory) :
    ∀ r ∈ (lookAtClosed t snaps pending).2.2, ∀ snapshot ∈ snaps,
      snapshot.sandboxId = r.sandboxId → snapshot.running = false := by
  induction pending generalizing t with
  | nil => exact nofun
  | cons closed rest ih =>
    unfold lookAtClosed
    split
    · exact ih t
    · split
      · exact ih t
      · split
        · split <;> exact ih t
        · rename_i hidle
          intro r hr snapshot hsnapshot hid
          cases mem_cons.mp hr with
          | inl hfirst =>
            rw [hfirst] at hid
            by_contra hruns
            apply hidle
            refine List.any_eq_true.mpr ⟨snapshot, hsnapshot, ?_⟩
            exact Bool.and_eq_true_iff.mpr ⟨decide_eq_true hid, Bool.eq_true_of_not_eq_false hruns⟩
          | inr hrest => exact ih _ r hrest snapshot hsnapshot hid

end Looks

section Statements

variable {config : Config} {c : Choice} {t t' : Memory} {p p' : Point}

/-- What a statement does that meets the condition: what is remembered as missing was seen missing, a pass ends only
with its post, and every stopped report that is collected rests on something. -/
structure Advances (config : Config) (c : Choice) (t : Memory) (p : Point) (t' : Memory) (p' : Point) : Prop where
  remembered : t.missingWhileRunning ⊆ t.seenMissing → t'.missingWhileRunning ⊆ t'.seenMissing
  settled : Settled p p'
  grounded : t.missingWhileRunning ⊆ t.seenMissing →
    ∀ r ∈ p'.reports, r.stopped → r ∈ p.reports ∨ Grounded config c t p r

/-- Without a pass there is nothing to settle. -/
theorem Settled.of_none (h : p.pass = none) (p' : Point) : Settled p p' := by
  intro pass hpass
  rw [h] at hpass
  cases hpass

/-- Before its end a pass is settled. -/
theorem Settled.of_ne (h : p' ≠ .done) : Settled p p' := fun _ _ hdone => absurd hdone h

/-- A statement that leaves the memory advances. -/
theorem Advances.quiet {u : Memory} {q : Point} (hexec : some (u, q) = some (t', p'))
    (hmiss : u.missingWhileRunning = t.missingWhileRunning) (hseen : u.seenMissing = t.seenMissing)
    (hsettled : Settled p q) (hreports : ∀ r ∈ q.reports, r ∈ p.reports) : Advances config c t p t' p' := by
  cases hexec
  refine ⟨fun h => ?_, hsettled, fun _ r hr _ => .inl (hreports r hr)⟩
  rw [hmiss, hseen]
  exact h

/-- A read advances. -/
theorem Advances.read {q : Point} (hexec : some (t, q) = some (t', p')) (hsettled : Settled p q)
    (hreports : ∀ r ∈ q.reports, r ∈ p.reports) : Advances config c t p t' p' :=
  .quiet hexec rfl rfl hsettled hreports

theorem Advances.ends {u : Memory} (hexec : some (u, .done) = some (t', p'))
    (hremembered : u.missingWhileRunning ⊆ u.seenMissing) (hsettled : Settled p .done) : Advances config c t p t' p' := by
  cases hexec
  exact ⟨fun _ => hremembered, hsettled, nofun⟩

theorem Advances.blind (hexec : some (t.blind, .done) = some (t', p')) (hforgotten : t.missingWhileRunning = ∅)
    (hsettled : Settled p .done) : Advances config c t p t' p' := by
  refine .ends hexec ?_ hsettled
  change t.missingWhileRunning ⊆ ∅
  rw [hforgotten]

section Judge

variable {pass : Pass} {snapshot : SandboxSnapshot} {rest : List SandboxSnapshot} {now : ℤ} {r : Report}

theorem classify_of_owes (howes : pass.Owes t snapshot)
    (hnames : namesOther (pass.assigned.channel snapshot.sandboxId) snapshot.containerRef = false) :
    classifySandbox (classify config pass snapshot now) = .dead :=
  classifySandbox_dead howes.1 howes.2.2.1 hnames

theorem grounded_stoppedReport (hrest : pass.rest = snapshot :: rest)
    (hverd : classifySandbox (classify config pass snapshot now) ≠ .leave) :
    Grounded config (.go now) t (.judge pass) (stoppedReport snapshot) := by
  change pass.Grounds config t now _
  unfold Pass.Grounds
  rw [hrest]
  refine ⟨rfl, rfl, fun hruns => ⟨fun howned => ?_, ?_⟩⟩
  · exact hverd (classifySandbox_leave hruns (.inl howned))
  · by_contra hback
    exact hverd (classifySandbox_leave hruns (.inr (Bool.eq_true_of_not_eq_false hback)))

theorem Advances.reports (hexec : some (t.mark snapshot.containerRef,
      .judge (pass.next.push (stoppedReport snapshot))) = some (t', p')) (hrest : pass.rest = snapshot :: rest)
    (hverd : classifySandbox (classify config pass snapshot now) ≠ .leave) :
    Advances config (.go now) t (.judge pass) t' p' := by
  cases hexec
  refine ⟨fun h => h, .of_ne nofun, fun _ r hr _ => ?_⟩
  refine (mem_append.mp hr).imp_right fun hnew => ?_
  rw [mem_singleton.mp hnew]
  exact grounded_stoppedReport hrest hverd

theorem Advances.actOn (hexec : some (actOn config t pass snapshot now) = some (t', p'))
    (hrest : pass.rest = snapshot :: rest) : Advances config (.go now) t (.judge pass) t' p' := by
  unfold Reconcile.actOn at hexec
  split at hexec
  · exact .read hexec (.of_ne nofun) fun _ hr => hr
  · split at hexec
    · exact .read hexec (.of_ne nofun) fun _ hr => hr
    · exact .quiet hexec rfl rfl (.of_ne nofun) fun _ hr => hr
  · split at hexec
    · exact .read hexec (.of_ne nofun) fun _ hr => hr
    · exact .quiet hexec rfl rfl (.of_ne nofun) fun _ hr => hr
  · rename_i hverd
    split at hexec
    · exact .read hexec (.of_ne nofun) fun _ hr => hr
    · exact .reports hexec hrest (by rw [hverd]; exact ReconcileVerdict.noConfusion)
  · rename_i hverd
    split at hexec
    · exact .read hexec (.of_ne nofun) fun _ hr => hr
    · exact .reports hexec hrest (by rw [hverd]; exact ReconcileVerdict.noConfusion)

theorem Advances.judge (hexec : some (judge config t pass now) = some (t', p'))
    (hstops : pass.rest = [] → t.NoStopExecutes pass) : Advances config (.go now) t (.judge pass) t' p' := by
  unfold Reconcile.judge at hexec
  cases hrest : pass.rest with
  | nil =>
    rw [hrest] at hexec
    cases hexec
    refine ⟨fun _ => remembered_vanish (hstops hrest), .of_ne nofun, fun hremembered r hr _ => ?_⟩
    refine (mem_append.mp hr).imp_right fun hnew => ?_
    change pass.Grounds config t now r
    unfold Pass.Grounds
    rw [hrest]
    exact vanishedReports_seen hremembered (hstops hrest) r hnew
  | cons =>
    rw [hrest] at hexec
    dsimp only at hexec
    split at hexec
    · split at hexec
      · exact .read hexec (.of_ne nofun) fun _ hr => hr
      · exact .actOn hexec hrest
    · exact .read hexec (.of_ne nofun) fun _ hr => hr

end Judge

theorem Advances.removed {pass : Pass} {snapshot : SandboxSnapshot} {now : ℤ}
    (hexec : some (t, .judge (pass.push (failedReport snapshot))) = some (t', p')) :
    Advances config (.go now) t (.removeQuietly pass snapshot) t' p' := by
  cases hexec
  refine ⟨fun h => h, .of_ne nofun, fun _ r hr hstop => ?_⟩
  cases mem_append.mp hr with
  | inl hold => exact .inl hold
  | inr hnew =>
    rw [mem_singleton.mp hnew] at hstop
    cases hstop

/-- A pass that has listed running containers only may be cut short. -/
theorem Settled.of_running {pass : Pass} (hpass : p.pass = some pass)
    (hruns : ∀ snapshot ∈ pass.snapshots, snapshot.running = true) : Settled p .done := by
  intro pass' hpass' _
  rw [hpass] at hpass'
  cases hpass'
  exact .inr hruns

theorem Settled.of_post (pass : Pass) : Settled (.postPass pass) .done := by
  intro pass' hpass' _
  cases hpass'
  exact .inl rfl

theorem Advances.look {snaps : List SandboxSnapshot}
    (hexec : some (looked t snaps, .postLook (lookAtClosed t snaps t.closedPending).2.2) = some (t', p')) :
    Advances config (.lists snaps) t .look t' p' := by
  cases hexec
  obtain ⟨hmiss, hseen⟩ := lookAtClosed_missing snaps t.closedPending t
  refine ⟨fun h => ?_, .of_none rfl _, fun _ r hr _ => .inr (lookAtClosed_reports snaps _ t r hr)⟩
  change (lookAtClosed t snaps t.closedPending).1.missingWhileRunning ⊆
    (lookAtClosed t snaps t.closedPending).1.seenMissing
  rw [hmiss, hseen]
  exact h

theorem Advances.sweepOn {u : Memory} {reports : List Report} (hexec : some (sweepOn u) = some (t', p'))
    (hmiss : u.missingWhileRunning = t.missingWhileRunning) (hseen : u.seenMissing = t.seenMissing) :
    Advances config c t (.postLook reports) t' p' := by
  unfold Reconcile.sweepOn at hexec
  split at hexec <;> exact .quiet hexec hmiss hseen (.of_none rfl _) nofun

theorem advances_exec (hexec : exec config c t p = some (t', p')) (hcond : Cond c t p) :
    Advances config c t p t' p' := by
  have hnone (p : Point) (r : Report) (hr : r ∈ ([] : List Report)) : r ∈ p.reports := absurd hr not_mem_nil
  have hsame : Settled p p := by
    by_cases hdone : p = .done
    · rw [hdone]
      exact .of_none rfl _
    · exact .of_ne hdone
  unfold exec at hexec
  split at hexec
  -- the sockets and the commands
  · exact .quiet hexec rfl rfl hsame fun _ hr => hr
  · exact .quiet hexec rfl rfl hsame fun _ hr => hr
  · split at hexec
    · exact .read hexec hsame fun _ hr => hr
    · exact .quiet hexec rfl rfl hsame fun _ hr => hr
  · split at hexec
    · exact .quiet hexec rfl rfl hsame fun _ hr => hr
    · cases hexec
  · split at hexec
    · exact .quiet hexec rfl rfl hsame fun _ hr => hr
    · cases hexec
  -- a pass, up to its listing
  · split at hexec
    · exact .read hexec (.of_none rfl _) (hnone _)
    · exact .quiet hexec rfl rfl (.of_none rfl _) (hnone _)
  · exact .read hexec (.of_none rfl _) (hnone _)
  · exact .ends hexec (Finset.Subset.refl ∅) (.of_none rfl _)
  · exact .blind hexec hcond (.of_none rfl _)
  · exact .quiet hexec rfl rfl (.of_none rfl _) (hnone _)
  · exact .ends hexec (Finset.Subset.refl ∅) (.of_none rfl _)
  · exact .blind hexec hcond (.of_none rfl _)
  · exact .read hexec (.of_none rfl _) (hnone _)
  · exact .blind hexec hcond (.of_none rfl _)
  -- a pass, after its listing
  · exact .judge hexec hcond
  · exact .read hexec (.of_ne nofun) fun _ hr => hr
  · exact .removed hexec
  · exact .quiet hexec rfl rfl (.of_ne nofun) fun _ hr => hr
  · exact .quiet hexec rfl rfl (.of_ne nofun) fun _ hr => hr
  · rename_i pass _
    refine .ends hexec ?_ (.of_running rfl hcond.1)
    change t.missingWhileRunning ⊆ t.seesMissing pass
    rw [hcond.2.2]
    exact Finset.empty_subset _
  · exact .read hexec (.of_ne nofun) fun _ hr => hr
  · exact .quiet hexec rfl rfl (.of_running rfl hcond.1) (hnone _)
  · exact .quiet hexec rfl rfl (.of_post _) (hnone _)
  · exact .quiet hexec rfl rfl (.of_post _) (hnone _)
  -- the looks
  · split at hexec <;> exact .quiet hexec rfl rfl (.of_none rfl _) (hnone _)
  · exact .look hexec
  · exact .quiet hexec rfl rfl (.of_none rfl _) (hnone _)
  · exact .sweepOn hexec rfl rfl
  · exact .sweepOn hexec rfl rfl
  -- the stray stops
  · split at hexec
    · exact .quiet hexec rfl rfl (.of_none rfl _) (hnone _)
    · cases hexec
  · exact .read hexec (.of_none rfl _) (hnone _)
  · exact .quiet hexec rfl rfl (.of_none rfl _) (hnone _)
  · exact .quiet hexec rfl rfl (.of_none rfl _) (hnone _)
  · exact .read hexec (.of_none rfl _) (hnone _)
  · cases hexec

end Statements

/-! ## What a pass answers for -/

/-- A pass has looked at every container once it goes on to the homes and the post. -/
def Point.AtEnd : Point → Prop
  | .listHomes pass | .postPass pass => pass.rest = []
  | _ => True

/-- A pass goes on with what it has read, and with the reports that it has collected. -/
structure Pass.Extends (pass pass' : Pass) : Prop where
  assigned : pass'.assigned = pass.assigned
  snapshots : pass'.snapshots = pass.snapshots
  reports : ∀ r ∈ pass.reports, r ∈ pass'.reports

theorem Pass.Extends.refl (pass : Pass) : pass.Extends pass := ⟨rfl, rfl, fun _ hr => hr⟩

theorem Pass.Extends.push (pass : Pass) (report : Report) : pass.Extends (pass.push report) :=
  ⟨rfl, rfl, fun _ hr => mem_append_left _ hr⟩

theorem Point.reports_of_pass {p : Point} {pass : Pass} (h : pass ∈ p.pass) : p.reports = pass.reports := by
  cases p <;> cases h <;> rfl

/-- What a statement does to the marks, the reports under way and the passes. -/
structure Goes (c : Choice) (t : Memory) (p : Point) (t' : Memory) (p' : Point) : Prop where
  accepted : t.accepted ⊆ t'.accepted
  marked : ∀ ref ∈ t'.reportedDead, ref ∈ t.reportedDead ∨ ref ∈ p'.underWay
  underWay : ∀ ref ∈ p.underWay, ref ∈ p'.underWay ∨ ref ∈ t'.accepted
  pass : ∀ pass' ∈ p'.pass, p.pass = none ∧ pass'.rest = pass'.snapshots ∨ ∃ pass ∈ p.pass, pass.Extends pass' ∧
    (pass'.rest = pass.rest ∨ ∃ now, c = .go now ∧ p = .judge pass ∧ pass'.rest = pass.rest.tail)
  atEnd : p.AtEnd → p'.AtEnd

section Goes

variable {config : Config} {c : Choice} {t t' : Memory} {p p' : Point} {pass : Pass} {snapshot : SandboxSnapshot}

theorem Goes.stay {u : Memory} (hexec : some (u, p) = some (t', p')) (hacc : u.accepted = t.accepted)
    (hdead : u.reportedDead = t.reportedDead) : Goes c t p t' p' := by
  cases hexec
  refine ⟨hacc ▸ Finset.Subset.refl _, fun ref href => .inl (hdead ▸ href), fun _ href => .inl href, ?_, fun h => h⟩
  exact fun pass hpass => .inr ⟨pass, hpass, .refl pass, .inl rfl⟩

/-- A statement outside of a pass, with no report under way. -/
theorem Goes.quiet {u : Memory} {q : Point} (hexec : some (u, q) = some (t', p')) (hacc : t.accepted ⊆ u.accepted)
    (hdead : u.reportedDead = t.reportedDead) (hunder : ∀ ref ∈ p.underWay, ref ∈ u.accepted) (hpass : q.pass = none)
    (hend : q.AtEnd) : Goes c t p t' p' := by
  cases hexec
  refine ⟨hacc, fun ref href => .inl (hdead ▸ href), fun ref href => .inr (hunder ref href), ?_, fun _ => hend⟩
  intro pass hsome
  rw [hpass] at hsome
  cases hsome

/-- A statement of a pass that marks nothing. -/
theorem Goes.on {u : Memory} {q : Point} {pass' : Pass} (hexec : some (u, q) = some (t', p'))
    (hacc : u.accepted = t.accepted) (hdead : u.reportedDead = t.reportedDead) (hp : p.pass = some pass)
    (hq : q.pass = some pass') (hextends : pass.Extends pass') (hunder : ∀ ref ∈ p.underWay, ref ∈ q.underWay)
    (hrest : pass'.rest = pass.rest ∨ ∃ now, c = .go now ∧ p = .judge pass ∧ pass'.rest = pass.rest.tail)
    (hend : p.AtEnd → q.AtEnd) : Goes c t p t' p' := by
  cases hexec
  refine ⟨hacc ▸ Finset.Subset.refl _, fun ref href => .inl (hdead ▸ href), fun ref href => .inl (hunder ref href), ?_,
    hend⟩
  intro pass'' hsome
  rw [hq] at hsome
  cases hsome
  exact .inr ⟨pass, hp, hextends, hrest⟩

theorem underWay_push (pass : Pass) (report : Report) {ref : ℕ} :
    ref ∈ (Point.judge (pass.push report)).underWay ↔
      ref ∈ (Point.judge pass).underWay ∨ report.observedContainerRef = some ref := by
  change ref ∈ filterMap _ (pass.reports ++ [report]) ↔ ref ∈ filterMap _ pass.reports ∨ _
  rw [filterMap_append, mem_append]
  refine or_congr_right ?_
  rw [mem_filterMap]
  constructor
  · rintro ⟨r, hr, href⟩
    rw [← mem_singleton.mp hr]
    exact href
  · exact fun href => ⟨report, mem_singleton_self _, href⟩

theorem goes_actOn {now : ℤ} (hexec : some (actOn config t pass snapshot now) = some (t', p')) :
    Goes (.go now) t (.judge pass) t' p' := by
  have hnext : pass.Extends pass.next := ⟨rfl, rfl, fun _ hr => hr⟩
  have hskip (hexec : some (t, Point.judge pass.next) = some (t', p')) : Goes (.go now) t (.judge pass) t' p' :=
    .on hexec rfl rfl rfl rfl hnext (fun _ href => href) (.inr ⟨now, rfl, rfl, rfl⟩) fun _ => trivial
  have hmarks (hexec : some (t.mark snapshot.containerRef, Point.judge (pass.next.push (stoppedReport snapshot))) =
      some (t', p')) : Goes (.go now) t (.judge pass) t' p' := by
    cases hexec
    refine ⟨Finset.Subset.refl _, fun ref href => ?_, fun ref href => ?_, fun pass' hpass' => ?_, fun _ => trivial⟩
    · rcases Finset.mem_insert.mp href with rfl | hold
      · exact .inr ((underWay_push pass.next _).mpr (.inr rfl))
      · exact .inl hold
    · exact .inl ((underWay_push pass.next _).mpr (.inl href))
    · cases hpass'
      exact .inr ⟨pass, rfl, ⟨rfl, rfl, fun _ hr => mem_append_left _ hr⟩, .inr ⟨now, rfl, rfl, rfl⟩⟩
  unfold Reconcile.actOn at hexec
  split at hexec
  · exact hskip hexec
  · split at hexec
    · exact hskip hexec
    · exact .on hexec rfl rfl rfl rfl hnext (fun _ href => href) (.inr ⟨now, rfl, rfl, rfl⟩) fun _ => trivial
  · split at hexec
    · exact hskip hexec
    · cases hexec
      refine ⟨Finset.Subset.refl _, fun ref href => ?_, fun ref href => .inl (mem_cons_of_mem _ href), ?_,
        fun _ => trivial⟩
      · rcases Finset.mem_insert.mp href with rfl | hold
        · exact .inr mem_cons_self
        · exact .inl hold
      · intro pass' hpass'
        cases hpass'
        exact .inr ⟨pass, rfl, hnext, .inr ⟨now, rfl, rfl, rfl⟩⟩
  · split at hexec
    · exact hskip hexec
    · exact hmarks hexec
  · split at hexec
    · exact hskip hexec
    · exact hmarks hexec

theorem goes_judge {now : ℤ} (hexec : some (judge config t pass now) = some (t', p')) :
    Goes (.go now) t (.judge pass) t' p' := by
  have hnext : pass.Extends pass.next := ⟨rfl, rfl, fun _ hr => hr⟩
  unfold Reconcile.judge at hexec
  cases hrest : pass.rest with
  | nil =>
    rw [hrest] at hexec
    refine .on hexec rfl rfl rfl rfl ⟨rfl, rfl, fun _ hr => mem_append_left _ hr⟩ (fun ref href => ?_)
      (.inl hrest.symm) fun _ => rfl
    change ref ∈ filterMap _ (pass.reports ++ vanishedReports t pass)
    rw [filterMap_append]
    exact mem_append_left _ href
  | cons =>
    rw [hrest] at hexec
    dsimp only at hexec
    split at hexec
    · split at hexec
      · exact .on hexec rfl rfl rfl rfl hnext (fun _ href => href) (.inr ⟨now, rfl, rfl, rfl⟩) fun _ => trivial
      · exact goes_actOn hexec
    · exact .on hexec rfl rfl rfl rfl hnext (fun _ href => href) (.inr ⟨now, rfl, rfl, rfl⟩) fun _ => trivial

/-- A look has a report under way of what it marks. -/
theorem lookAtClosed_marks (snaps : List SandboxSnapshot) (pending : List Closed) (t : Memory) :
    (lookAtClosed t snaps pending).1.accepted = t.accepted ∧
      ∀ ref ∈ (lookAtClosed t snaps pending).1.reportedDead, ref ∈ t.reportedDead ∨
        ref ∈ (lookAtClosed t snaps pending).2.2.filterMap (·.observedContainerRef) := by
  induction pending generalizing t with
  | nil => exact ⟨rfl, fun ref href => .inl href⟩
  | cons closed rest ih =>
    unfold lookAtClosed
    split
    · exact ih t
    · split
      · exact ih t
      · split
        · split <;> exact ih t
        · obtain ⟨hacc, hmarks⟩ := ih (t.mark closed.containerRef)
          refine ⟨hacc, fun ref href => ?_⟩
          rcases hmarks ref href with hold | hnew
          · rcases Finset.mem_insert.mp hold with rfl | hold
            · exact .inr mem_cons_self
            · exact .inl hold
          · exact .inr (mem_cons_of_mem _ hnew)

theorem mem_accept {reports : List Report} {ref : ℕ} (h : ref ∈ reports.filterMap (·.observedContainerRef)) :
    ref ∈ (t.accept reports).accepted := Finset.mem_union_right _ (mem_toFinset.mpr h)

/-- What a post that fails does not lose has been accepted. -/
theorem mem_accept_take {reports : List Report} {accepted ref : ℕ} (hlost : Lost t (reports.drop accepted))
    (h : ref ∈ reports.filterMap (·.observedContainerRef)) : ref ∈ (t.accept (reports.take accepted)).accepted := by
  obtain ⟨r, hr, href⟩ := mem_filterMap.mp h
  rw [← take_append_drop accepted reports] at hr
  rcases mem_append.mp hr with htaken | hlater
  · exact mem_accept (mem_filterMap.mpr ⟨r, htaken, href⟩)
  · exact Finset.mem_union_left _ (hlost r hlater ref href)

theorem Goes.sweepOn {u : Memory} {reports : List Report} (hexec : some (sweepOn u) = some (t', p'))
    (hacc : t.accepted ⊆ u.accepted) (hdead : u.reportedDead = t.reportedDead)
    (hunder : ∀ ref ∈ reports.filterMap (·.observedContainerRef), ref ∈ u.accepted) :
    Goes c t (.postLook reports) t' p' := by
  unfold Reconcile.sweepOn at hexec
  split at hexec <;> exact .quiet hexec hacc hdead hunder rfl trivial

theorem goes_exec (hexec : exec config c t p = some (t', p')) (hcond : Cond c t p) : Goes c t p t' p' := by
  have hrefl : t.accepted ⊆ t.accepted := Finset.Subset.refl _
  unfold exec at hexec
  split at hexec
  -- the sockets and the commands
  · exact .stay hexec rfl rfl
  · exact .stay hexec rfl rfl
  · split at hexec <;> exact .stay hexec rfl rfl
  · split at hexec
    · exact .stay hexec rfl rfl
    · cases hexec
  · split at hexec
    · exact .stay hexec rfl rfl
    · cases hexec
  -- a pass, up to its listing
  · split at hexec <;> exact .quiet hexec hrefl rfl nofun rfl trivial
  · exact .quiet hexec hrefl rfl nofun rfl trivial
  · exact .quiet hexec hrefl rfl nofun rfl trivial
  · exact .quiet hexec hrefl rfl nofun rfl trivial
  · exact .quiet hexec hrefl rfl nofun rfl trivial
  · exact .quiet hexec hrefl rfl nofun rfl trivial
  · exact .quiet hexec hrefl rfl nofun rfl trivial
  · cases hexec
    refine ⟨hrefl, fun ref href => .inl href, nofun, fun pass' hpass' => ?_, fun _ => trivial⟩
    cases hpass'
    exact .inl ⟨rfl, rfl⟩
  · exact .quiet hexec hrefl rfl nofun rfl trivial
  -- a pass, after its listing
  · exact goes_judge hexec
  · exact .on hexec rfl rfl rfl rfl (.refl _) (fun _ href => href) (.inl rfl) fun _ => trivial
  · refine .on hexec rfl rfl rfl rfl (.push _ _) (fun ref href => ?_) (.inl rfl) fun _ => trivial
    refine (underWay_push _ _).mpr ?_
    rcases mem_cons.mp href with rfl | hold
    · exact .inr rfl
    · exact .inl hold
  · exact .on hexec rfl rfl rfl rfl (.refl _) (fun _ href => href) (.inl rfl) fun _ => trivial
  · exact .on hexec rfl rfl rfl rfl (.refl _) (fun _ href => href) (.inl rfl) fun _ => trivial
  · rename_i pass _
    refine .quiet hexec hrefl rfl (fun ref href => ?_) rfl trivial
    change ref ∈ pass.reports.filterMap _ at href
    rw [hcond.2.1] at href
    cases href
  · exact .on hexec rfl rfl rfl rfl (.refl _) (fun _ href => href) (.inl rfl) fun h => h
  · rename_i pass
    refine .quiet hexec hrefl rfl (fun ref href => ?_) rfl trivial
    change ref ∈ pass.reports.filterMap _ at href
    rw [hcond.2] at href
    cases href
  · exact .quiet hexec Finset.subset_union_left rfl (fun ref href => mem_accept href) rfl trivial
  · exact .quiet hexec Finset.subset_union_left rfl (fun ref href => mem_accept_take hcond href) rfl trivial
  -- the looks
  · split at hexec <;> exact .quiet hexec hrefl rfl nofun rfl trivial
  · cases hexec
    obtain ⟨hacc, hmarks⟩ := lookAtClosed_marks ‹_› t.closedPending t
    exact ⟨hacc ▸ hrefl, hmarks, nofun, nofun, fun _ => trivial⟩
  · exact .quiet hexec hrefl rfl nofun rfl trivial
  · exact .sweepOn hexec Finset.subset_union_left rfl fun ref href => mem_accept href
  · exact .sweepOn hexec Finset.subset_union_left rfl fun ref href => mem_accept_take hcond href
  -- the stray stops
  · split at hexec
    · exact .quiet hexec hrefl rfl nofun rfl trivial
    · cases hexec
  · exact .quiet hexec hrefl rfl nofun rfl trivial
  · exact .quiet hexec hrefl rfl nofun rfl trivial
  · exact .quiet hexec Finset.subset_union_left rfl nofun rfl trivial
  · exact .quiet hexec hrefl rfl nofun rfl trivial
  · cases hexec

end Goes

section Runs

variable {config : Config} {w w' : World} {e : ℕ × Choice} {es : List (ℕ × Choice)} {t t' : Memory} {p' : Point}
  {pass pass' : Pass} {snapshot : SandboxSnapshot} {now : ℤ} {i : ℕ}

/-- A pass that comes to a container that it owes a report names it, where no mark without an accepted report is in the
way. -/
theorem names_of_owes (hexec : exec config (.go now) t (.judge pass) = some (t', p'))
    (hhead : pass.rest.head? = some snapshot) (howes : pass.Owes t snapshot)
    (hassigned : snapshot.sandboxId ∈ pass.assigned.sandboxIds)
    (hnames : namesOther (pass.assigned.channel snapshot.sandboxId) snapshot.containerRef = false)
    (hmarked : snapshot.containerRef ∈ t.reportedDead → snapshot.containerRef ∈ t.accepted) :
    snapshot.containerRef ∈ t.accepted ∨ Names p'.reports snapshot.containerRef := by
  obtain ⟨rest, hrest⟩ := head?_eq_some_iff.mp hhead
  have hidle : t.busy snapshot.sandboxId = false := by
    by_contra hbusy
    have hflight := inFlight_of_busy (Bool.eq_true_of_not_eq_false hbusy)
    rw [howes.2.2.2] at hflight
    exact Bool.false_ne_true hflight
  change some (judge config t pass now) = some (t', p') at hexec
  unfold judge at hexec
  rw [hrest] at hexec
  dsimp only at hexec
  rw [if_pos hassigned, hidle, if_neg Bool.false_ne_true] at hexec
  unfold actOn at hexec
  rw [classify_of_owes howes hnames] at hexec
  dsimp only at hexec
  split at hexec
  · rename_i hdead
    exact .inl (hmarked hdead)
  · cases hexec
    exact .inr ⟨stoppedReport snapshot, mem_append_right _ mem_cons_self, rfl, rfl⟩

/-- What a pass has answered for it goes on answering for. -/
theorem Answered.later (h : Answered config es w i pass snapshot) (hacc : w.db.accepted ⊆ w'.db.accepted)
    (hextends : pass.Extends pass') : Answered config (es ++ [e]) w' i pass' snapshot := by
  obtain ⟨front, now, back, u, before, rfl, hrun, hcall, hhead, hassigned, hnames⟩ := h
  refine ⟨front, now, back ++ [e], u, before, by rw [append_assoc, cons_append], hrun, hcall, hhead,
    hassigned.trans hextends.assigned.symm, fun howes => ?_⟩
  rcases hnames howes with haccepted | ⟨r, hr, hnamed⟩
  · exact .inl (hacc haccepted)
  · exact .inr ⟨r, hextends.reports r hr, hnamed⟩

/-- A mark has an accepted report, or one under way; what is remembered as missing was seen missing by the pass before;
and a pass has answered for every container that it does not still look at. -/
structure Sound (config : Config) (es : List (ℕ × Choice)) (w : World) : Prop where
  run : Runs.run (step config) initial es = some w
  remembered : w.db.missingWhileRunning ⊆ w.db.seenMissing
  marked : ∀ ref ∈ w.db.reportedDead, ref ∈ w.db.accepted ∨ ∃ i, ref ∈ (w.calls i).underWay
  atEnd : ∀ i, (w.calls i).AtEnd
  answered : ∀ i, ∀ pass ∈ (w.calls i).pass, ∀ snapshot ∈ pass.snapshots,
    snapshot ∈ pass.rest ∨ Answered config es w i pass snapshot

/-- A start without reports is sound. -/
theorem Sound.initial (config : Config) : Sound config [] initial where
  run := rfl
  remembered := Finset.Subset.refl ∅
  marked := fun ref href => absurd href (Finset.notMem_empty ref)
  atEnd := fun _ => trivial
  answered := fun _ _ hpass => nomatch hpass

/-- The call that goes on has answered for what it does not still look at. -/
theorem Sound.answers (h : Sound config es w) (hcond : CondAt w e)
    (hexec : exec config e.2 w.db (w.calls e.1) = some (w'.db, w'.calls e.1))
    (hgoes : Goes e.2 w.db (w.calls e.1) w'.db (w'.calls e.1)) (hpass' : pass' ∈ (w'.calls e.1).pass)
    (hlisted : snapshot ∈ pass'.snapshots) :
    snapshot ∈ pass'.rest ∨ Answered config (es ++ [e]) w' e.1 pass' snapshot := by
  rcases hgoes.pass pass' hpass' with ⟨-, hrest⟩ | ⟨pass, hpass, hextends, hrest⟩
  · exact .inl (hrest ▸ hlisted)
  · rcases h.answered e.1 pass hpass snapshot (hextends.snapshots ▸ hlisted) with hstill | hanswered
    · rcases hrest with hrest | ⟨now, hgo, hjudge, hrest⟩
      · exact .inl (hrest ▸ hstill)
      · cases hhead : pass.rest with
        | nil =>
          rw [hhead] at hstill
          cases hstill
        | cons first rest =>
          rw [hhead] at hstill
          rcases mem_cons.mp hstill with rfl | hlater
          · -- the container that the pass has come to
            have hevent : e = (e.1, .go now) := Prod.ext rfl hgo
            refine .inr ⟨es, now, [], w, pass, by rw [← hevent], h.run, hjudge, by rw [hhead]; rfl,
              hextends.assigned.symm, fun howes => ?_⟩
            have hclear := hcond.2
            rw [hgo, hjudge] at hclear
            obtain ⟨hassigned, hnames, hfree⟩ := hclear snapshot (by rw [hhead]; exact Option.mem_some_self _) howes
            rw [hgo, hjudge] at hexec
            have hmarked (hdead : snapshot.containerRef ∈ w.db.reportedDead) : snapshot.containerRef ∈ w.db.accepted := by
              rcases h.marked _ hdead with haccepted | ⟨j, hunder⟩
              · exact haccepted
              · exact absurd hunder (of_decide_eq_false (hfree j))
            rcases names_of_owes hexec (by rw [hhead]; rfl) howes hassigned hnames hmarked with haccepted | hnamed
            · exact .inl (hgoes.accepted haccepted)
            · refine .inr ?_
              obtain ⟨r, hr, hnamed⟩ := hnamed
              refine ⟨r, ?_, hnamed⟩
              rwa [Point.reports_of_pass hpass'] at hr
          · rw [hrest, hhead]
            exact .inl hlater
    · exact .inr (hanswered.later hgoes.accepted hextends)

/-- Every pass that meets the condition is faithful and keeps the account. -/
theorem Sound.step (h : Sound config es w) (hcond : CondAt w e) (hstep : Reconcile.step config w e = some w') :
    Sound config (es ++ [e]) w' ∧ Faithful config w e w' := by
  obtain ⟨hexec, hothers⟩ := Calls.exec_of_step _ hstep
  have hadvances := advances_exec hexec hcond.1
  have hgoes := goes_exec hexec hcond.1
  refine ⟨{
    run := ?_
    remembered := hadvances.remembered h.remembered
    marked := fun ref href => ?_
    atEnd := fun j => ?_
    answered := fun j pass hpass snapshot hlisted => ?_ }, hadvances.settled, hadvances.grounded h.remembered⟩
  · rw [Runs.run_append, h.run]
    exact (Runs.run_cons_eq_some_iff _ _ _ _ _).mpr ⟨_, hstep, rfl⟩
  · rcases hgoes.marked ref href with hold | hnew
    · rcases h.marked ref hold with haccepted | ⟨j, hunder⟩
      · exact .inl (hgoes.accepted haccepted)
      · by_cases hj : j = e.1
        · rw [hj] at hunder
          exact (hgoes.underWay ref hunder).symm.imp_right fun hunder => ⟨e.1, hunder⟩
        · exact .inr ⟨j, by rw [hothers j hj]; exact hunder⟩
    · exact .inr ⟨e.1, hnew⟩
  · by_cases hj : j = e.1
    · rw [hj]
      exact hgoes.atEnd (h.atEnd e.1)
    · rw [hothers j hj]
      exact h.atEnd j
  · by_cases hj : j = e.1
    · subst hj
      exact h.answers hcond hexec hgoes hpass hlisted
    · rw [hothers j hj] at hpass
      exact (h.answered j pass hpass snapshot hlisted).imp_right fun hanswered =>
        hanswered.later hgoes.accepted (.refl _)

/-- The posts are those that the account owes. -/
theorem Sound.posts (h : Sound config es w) : PostsWhatItOwes config es w := by
  intro i pass hcall snapshot hlisted
  refine (h.answered i pass (by rw [hcall]; exact Option.mem_some_self _) snapshot hlisted).resolve_left fun hrest => ?_
  have hend := h.atEnd i
  rw [hcall] at hend
  rw [show pass.rest = [] from hend] at hrest
  cases hrest

/-- In a run whose steps all meet the condition, every pass posts what it owes, and every stopped report rests on
something. -/
theorem dead_reported {es : List (ℕ × Choice)} (hmeets : Runs.Meets (step config) CondAt initial es) :
    Reported config es := by
  have hstep (front : List (ℕ × Choice)) (w : World) (e : ℕ × Choice) (w' : World) (h : Sound config front w)
      (hcond : CondAt w e) (hnext : step config w e = some w') : Sound config (front ++ [e]) w' :=
    (h.step hcond hnext).1
  constructor
  · rintro front back w rfl hrun
    exact (Runs.history_of_meets (step config) hstep (Sound.initial config) (Runs.Meets.front _ hmeets) hrun).posts
  · refine Runs.each_of_meets _ (I := fun w => ∃ front, Sound config front w) ?_ ⟨[], Sound.initial config⟩ hmeets
    rintro w e w' ⟨front, h⟩ hcond hnext
    exact ⟨⟨_, (h.step hcond hnext).1⟩, (h.step hcond hnext).2⟩

end Runs

/-- A pass, up to its listing. -/
def listed (i : ℕ) (assigned : Assigned) (snapshots : List SandboxSnapshot) : List (ℕ × Choice) :=
  [(i, .pass), (i, .go 0), (i, .assigned assigned 0), (i, .lists snapshots)]

/-- A sandbox that is believed running, with no channel. -/
def believed (sandboxId containerRef : ℕ) : Assigned :=
  ⟨[sandboxId], [(sandboxId, .running)], [(sandboxId, ⟨some containerRef, .none, none⟩)]⟩

/-- A container that does not run. -/
def exited (sandboxId containerRef : ℕ) : SandboxSnapshot := ⟨sandboxId, containerRef, false, some .failed, false⟩

/-- A runner with sessions and no grace. -/
def plain : Config := ⟨true, ⟨0, 0, 0⟩⟩

/-- Two passes over a dead container, of which the first has its report accepted, and two that find none. -/
def acceptedRun : List (ℕ × Choice) :=
  listed 0 (believed 7 40) [exited 7 40] ++ [(0, .go 0), (0, .go 0), (0, .go 0), (0, .accepts)] ++
    listed 1 (believed 7 40) [exited 7 40] ++ [(1, .go 0), (1, .go 0), (1, .go 0), (1, .accepts)] ++
    listed 2 (believed 7 40) [] ++ [(2, .go 0), (2, .go 0), (2, .fails 0)] ++
    listed 3 (believed 7 40) [] ++ [(3, .go 0), (3, .go 0), (3, .accepts)]

/-- A pass that comes to a container finds it clear of what is under way at fewer points. -/
theorem Clear.imp (f g : (Point → Bool) → Prop) (himp : ∀ kind, kind .idle = false → f kind → g kind) (c : Choice)
    (t : Memory) (p : Point) (h : Clear f c t p) : Clear g c t p := by
  unfold Clear at h ⊢
  split
  · intro snapshot hhead howes
    obtain ⟨hassigned, hnames, hfree⟩ := h snapshot hhead howes
    exact ⟨hassigned, hnames, himp _ rfl hfree⟩
  · trivial

/-- A report that was accepted is not owed again, and two passes that see a sandbox missing report it. -/
theorem dead_reported_accepted :
    (Runs.run (step plain) initial acceptedRun).isSome ∧ Reported plain acceptedRun := by
  have hmeets : Runs.Meets (step plain) CondAt initial acceptedRun :=
    Calls.meets_of_below _ (f := fun f c t p => Cond c t p ∧ Clear f c t p) (i := .idle) (n := 4)
      (fun f g himp c t p h => ⟨h.1, h.2.imp f g himp c t p⟩) (by decide) (fun _ _ => rfl) (by decide +kernel)
  exact ⟨by decide +kernel, dead_reported hmeets⟩

/-- A pass whose post fails, and the next pass up to its post. -/
def failedPost : List (ℕ × Choice) :=
  listed 0 (believed 7 40) [exited 7 40] ++ [(0, .go 0), (0, .go 0), (0, .go 0), (0, .fails 0)] ++
    listed 1 (believed 7 40) [exited 7 40] ++ [(1, .go 0), (1, .go 0), (1, .go 0)]

/-- A pass that cannot list the homes once it has collected its report. -/
def cutShort : List (ℕ × Choice) := listed 0 (believed 7 40) [exited 7 40] ++ [(0, .go 0), (0, .go 0)]

/-- A pass that finds a sandbox missing, one that reads nothing, and one that finds it missing. -/
def blindBetween : List (ℕ × Choice) :=
  listed 0 (believed 7 40) [] ++ [(0, .go 0), (0, .go 0), (0, .accepts), (1, .pass), (1, .throws)] ++
    listed 2 (believed 7 40) []

/-- Two passes while a stop executes, whose container is gone. -/
def stopExecutes : List (ℕ × Choice) :=
  [(9, .queues 7 false), (9, .begins 7 false)] ++ listed 0 (believed 7 40) [] ++
    [(0, .go 0), (0, .go 0), (0, .accepts)] ++ listed 1 (believed 7 40) []

/-- One unfaithful pass breaks the run. -/
theorem not_each_of_unfaithful {config : Config} {es : List (ℕ × Choice)} {e : ℕ × Choice} {w : World}
    (hwrong : (Runs.run (step config) w es).any fun u =>
      (step config u e).any fun v => !decide (Faithful config u e v)) :
    ¬ Runs.Each (step config) (Faithful config) w (es ++ [e]) := by
  intro hall
  obtain ⟨u, hu, hnext⟩ := (Option.any_eq_true _ _).mp hwrong
  obtain ⟨v, hv, hnot⟩ := (Option.any_eq_true _ _).mp hnext
  rw [Bool.not_eq_true', decide_eq_false_iff_not] at hnot
  exact hnot (hall es e [] u v rfl hu hv)

/-- A pass that owes a report whenever it comes to a container has not answered for it, when none was accepted and it
names none. -/
theorem not_answered {config : Config} {es : List (ℕ × Choice)} {w : World} {i : ℕ} {pass : Pass}
    {snapshot : SandboxSnapshot}
    (howes : ∀ k < es.length, (Runs.run (step config) initial (es.take k)).all fun u =>
      match u.calls i with
      | .judge before => before.rest.head? ≠ some snapshot ∨ before.Owes u.db snapshot
      | _ => true)
    (hnone : ¬ (snapshot.containerRef ∈ w.db.accepted ∨ Names pass.reports snapshot.containerRef)) :
    ¬ Answered config es w i pass snapshot := by
  rintro ⟨front, now, back, u, before, rfl, hrun, hcall, hhead, -, hnames⟩
  have hat := howes front.length (by rw [length_append, length_cons]; omega)
  rw [take_left, hrun, Option.all_some, hcall] at hat
  exact hnone (hnames ((of_decide_eq_true hat).resolve_left fun hne => hne hhead))

/-- A container whose report was lost is not reported again, a pass that is cut short posts nothing of what it has
marked, and a sandbox is reported missing that the pass before did not see, or while its stop executes. -/
theorem dead_unreported :
    ¬ Reported plain failedPost ∧ ¬ Reported plain (cutShort ++ [(0, .throws)]) ∧
      ¬ Reported plain (blindBetween ++ [(2, .go 0)]) ∧ ¬ Reported plain (stopExecutes ++ [(1, .go 0)]) := by
  refine ⟨fun hall => ?_, fun hall => not_each_of_unfaithful (by decide +kernel) hall.2,
    fun hall => not_each_of_unfaithful (by decide +kernel) hall.2,
    fun hall => not_each_of_unfaithful (by decide +kernel) hall.2⟩
  have hend : (Runs.run (step plain) initial failedPost).any (fun w =>
      w.calls 1 = .postPass ⟨believed 7 40, [exited 7 40], 0, [], []⟩ ∧ 40 ∉ w.db.accepted) = true := by
    decide +kernel
  obtain ⟨w, hrun, hw⟩ := (Option.any_eq_true _ _).mp hend
  obtain ⟨hcall, hnone⟩ := of_decide_eq_true hw
  have hanswered := hall.1 failedPost [] w (append_nil _).symm hrun 1 _ hcall (exited 7 40) mem_cons_self
  refine not_answered (by decide +kernel) (fun h => ?_) hanswered
  rcases h with haccepted | ⟨r, hr, -⟩
  · exact hnone haccepted
  · cases hr

end Onecli.Runner.Reconcile
