import Onecli.Agents.Fates

/-!
# Stop is final

What a Stop promises, over every interleaving: the turn is not handed over again, and what its run was handed is
neither promoted nor run. A flag carries the Stop, and the claim of the abort clears it, so the promise is kept
where no recovery finds a stopped turn, no claim hands one over a second time, the turn and its follow-ups did
not slip away while `abortTurn` was at work, and no promotion writes what was flagged since it was read.
-/

namespace Onecli.Agents.Turns

open List Bool Option

section Logs

/-- No turn is handed over after its stop, and no follow-up that its run was handed before is promoted or handed
over. -/
def StopFinal (log : List Event) : Prop :=
  ∀ later turnId earlier, log = later ++ .stopped turnId :: earlier →
    .handed turnId ∉ later ∧
      ∀ followUpId, .steered followUpId turnId ∈ earlier → .promoted followUpId ∉ later ∧ .handed followUpId ∉ later

/-- A follow-up whose run was stopped after it was handed over. -/
def Barred (log : List Event) (followUpId : ℕ) : Prop :=
  ∃ later turnId earlier, log = later ++ .stopped turnId :: earlier ∧ .steered followUpId turnId ∈ earlier

variable {log new : List Event}

theorem stop_of_append (hquiet : ∀ turnId, .stopped turnId ∉ new) {later earlier : List Event} {turnId : ℕ}
    (hsplit : new ++ log = later ++ .stopped turnId :: earlier) :
    ∃ middle, later = new ++ middle ∧ log = middle ++ .stopped turnId :: earlier := by
  rcases append_eq_append_iff.mp hsplit with ⟨middle, hlater, hlog⟩ | ⟨rest, hnew, hrest⟩
  · exact ⟨middle, hlater, hlog⟩
  · cases rest with
    | nil => exact ⟨[], by rw [hnew, append_nil, append_nil], hrest.symm⟩
    | cons =>
      obtain ⟨rfl, -⟩ := List.cons.inj hrest
      refine absurd ?_ (hquiet turnId)
      rw [hnew]
      exact mem_append_right _ mem_cons_self

theorem barred_append (hquiet : ∀ turnId, .stopped turnId ∉ new) {followUp : ℕ} (h : Barred (new ++ log) followUp) :
    Barred log followUp := by
  obtain ⟨later, turnId, earlier, hsplit, hsteer⟩ := h
  obtain ⟨middle, -, hlog⟩ := stop_of_append hquiet hsplit
  exact ⟨middle, turnId, earlier, hlog, hsteer⟩

theorem barred_stop {turnId followUp : ℕ} (h : Barred (.stopped turnId :: log) followUp) :
    .steered followUp turnId ∈ log ∨ Barred log followUp := by
  obtain ⟨later, target, earlier, hsplit, hsteer⟩ := h
  cases later with
  | nil =>
    obtain ⟨hstop, rfl⟩ := List.cons.inj hsplit
    cases hstop
    exact .inl hsteer
  | cons event later => exact .inr ⟨later, target, earlier, (List.cons.inj hsplit).2, hsteer⟩

/-- Stop stays final when what is new has no stop, hands over nothing that was stopped or barred, and promotes
nothing that was barred. -/
theorem StopFinal.append (hfinal : StopFinal log) (hquiet : ∀ turnId, .stopped turnId ∉ new)
    (hhanded : ∀ turnId, .handed turnId ∈ new → .stopped turnId ∉ log ∧ ¬ Barred log turnId)
    (hpromoted : ∀ followUp, .promoted followUp ∈ new → ¬ Barred log followUp) : StopFinal (new ++ log) := by
  intro later turnId earlier hsplit
  obtain ⟨middle, rfl, hlog⟩ := stop_of_append hquiet hsplit
  obtain ⟨hturn, hfollowUps⟩ := hfinal middle turnId earlier hlog
  have hstop : .stopped turnId ∈ log := by
    rw [hlog]
    exact mem_append_right _ mem_cons_self
  constructor
  · intro hmem
    rcases mem_append.mp hmem with hnew | hmiddle
    · exact (hhanded turnId hnew).1 hstop
    · exact hturn hmiddle
  · intro followUp hsteer
    have hbarred : Barred log followUp := ⟨middle, turnId, earlier, hlog, hsteer⟩
    constructor
    · intro hmem
      rcases mem_append.mp hmem with hnew | hmiddle
      · exact hpromoted followUp hnew hbarred
      · exact (hfollowUps followUp hsteer).1 hmiddle
    · intro hmem
      rcases mem_append.mp hmem with hnew | hmiddle
      · exact (hhanded followUp hnew).2 hbarred
      · exact (hfollowUps followUp hsteer).2 hmiddle

theorem StopFinal.stop (hfinal : StopFinal log) (turnId : ℕ) : StopFinal (.stopped turnId :: log) := by
  intro later target earlier hsplit
  cases later with
  | nil => exact ⟨not_mem_nil, fun _ _ => ⟨not_mem_nil, not_mem_nil⟩⟩
  | cons event later =>
    obtain ⟨rfl, hlog⟩ := List.cons.inj hsplit
    obtain ⟨hturn, hfollowUps⟩ := hfinal later target earlier hlog
    have hother {other : Event} (hne : other ≠ .stopped turnId) (hnot : other ∉ later) :
        other ∉ .stopped turnId :: later := by
      intro hmem
      rcases mem_cons.mp hmem with heq | hmem
      · exact hne heq
      · exact hnot hmem
    refine ⟨hother nofun hturn, fun followUp hsteer => ?_⟩
    obtain ⟨hpromoted, hhanded⟩ := hfollowUps followUp hsteer
    exact ⟨hother nofun hpromoted, hother nofun hhanded⟩

end Logs

section Statements

/-- A claim hands a turn over a second time: it is past the window, and the same claim takes no abort of it. -/
def Db.redelivers (windows : Windows) (now : ℕ) (db : Db) (poll : Poll) (turnId : ℕ) (turn : Turn) : Bool :=
  turn.status == .dispatched && poll.turns.contains turnId && db.turnDue windows now turn && db.reaches poll turn &&
    !(poll.aborts.contains turnId && turn.abortDue)

/-- A turn that was never parked stands in a conversation. -/
def Db.Stands (db : Db) (turnId conversation : ℕ) : Prop :=
  ∃ t, db.turns[turnId]? = some t ∧ t.conversationId = conversation ∧ (t.status.active || t.status.terminal) = true

/-- What a call knows of the rows that it read. -/
def Knows (db : Db) : Point → Prop
  | .flag turnId conversation | .sweepUndelivered turnId conversation | .flagDelivered turnId conversation =>
    db.Stands turnId conversation
  | .count message target | .createFollowUp message target => db.Stands target message.conversation
  | _ => True

/-- What holds of the tables while every Stop is kept. -/
structure Kept (db : Db) : Prop where
  final : StopFinal db.log
  /-- A follow-up is in the conversation of its run. -/
  targets : ∀ (i target : ℕ) (f : Turn), db.turns[i]? = some f → f.followUpOfTurnId = some target →
    ∃ t, db.turns[target]? = some t ∧ t.conversationId = f.conversationId
  steered : ∀ followUpId turnId, .steered followUpId turnId ∈ db.log →
    ∃ f, db.turns[followUpId]? = some f ∧ f.followUpOfTurnId = some turnId ∧ f.steerDeliveredAt.isSome
  stopped : ∀ turnId, .stopped turnId ∈ db.log →
    ∃ t, db.turns[turnId]? = some t ∧ (t.status.inFlight || t.status.terminal) = true
  barred : ∀ followUpId, Barred db.log followUpId →
    ∃ f, db.turns[followUpId]? = some f ∧
      (f.status.terminal = true ∨ f.status = .joined ∨ (f.status = .joining ∧ f.abortRequested = true))

/-- A statement keeps every Stop. -/
structure KeepsStops (windows : Windows) (now : ℕ) (choice : Choice) (point : Point) (db : Db) : Prop where
  /-- No recovery finds a stopped turn. -/
  recovery : ∀ (i : ℕ) (t : Turn), db.turns[i]? = some t → .stopped i ∈ db.log → recovers db choice point i t = false
  /-- No claim hands a stopped turn over a second time. -/
  claim : ∀ (poll : Poll) (i : ℕ) (t : Turn), choice = .claimDueWork poll → db.turns[i]? = some t →
    .stopped i ∈ db.log → db.redelivers windows now poll i t = false
  /-- `abortTurn` ends where neither the turn nor a follow-up that its run was handed has slipped away. -/
  abort : ∀ turnId conversation, point = .flagDelivered turnId conversation →
    db.at turnId (·.status == .queued) = false ∧
      ∀ followUpId, .steered followUpId turnId ∈ db.log → db.at followUpId (·.status.active) = false
  /-- No promotion writes a row that was flagged since it was read. -/
  promotion : ∀ turnId after, point = .promote turnId after →
    (db.at turnId fun t => t.status == .joining && t.abortRequested && !db.occupied t.conversationId) = false

variable {windows : Windows} {now : ℕ} {choice : Choice} {point point' : Point} {db db' : Db}

theorem Changes.stands (h : Changes windows now choice point db db') {turnId conv : ℕ}
    (hstands : db.Stands turnId conv) : db'.Stands turnId conv := by
  obtain ⟨t, hrow, hconv, hstatus⟩ := hstands
  obtain ⟨t', hrow', hgoes⟩ := h.get hrow
  refine ⟨t', hrow', hgoes.kept.1.trans hconv, ?_⟩
  cases hgoes with
  | moves _ hmoves =>
    have hedge := hmoves.edge
    revert hedge hstatus
    generalize t.status = s
    generalize t'.status = s'
    cases s <;> cases s' <;> decide
  | promoted => rfl
  | refused => rfl

/-- What a call knows stays true. -/
theorem Changes.knows (h : Changes windows now choice point db db') {other : Point} (hknows : Knows db other) :
    Knows db' other := by
  cases other with
  | flag turnId conv | sweepUndelivered turnId conv | flagDelivered turnId conv
  | count message target | createFollowUp message target => exact h.stands hknows
  | _ => trivial

theorem knows_next (promoted : Bool) (after : After) : Knows db (after.next promoted) := by
  cases after with
  | send => cases promoted <;> trivial
  | _ => trivial

theorem knows_settleSweptTurns (turnIds : List ℕ) : Knows db (settleSweptTurns db' turnIds) := by
  cases turnIds <;> trivial

theorem knows_afterStrand (event : RunnerEvent) : Knows db event.afterStrand := by
  rw [RunnerEvent.afterStrand]
  split
  · split <;> trivial
  · trivial

theorem knows_abortArm (turnId attempt : ℕ) : Knows db (abortArm turnId attempt db.turns[turnId]?) := by
  cases hrow : db.turns[turnId]? with
  | none => trivial
  | some t =>
    have hstands (h : (t.status.active || t.status.terminal) = true) : db.Stands turnId t.conversationId :=
      ⟨t, hrow, rfl, h⟩
    rw [abortArm]
    cases hstatus : t.status <;> first | trivial | exact hstands (by rw [hstatus]; rfl)

theorem stands_of_activeTurnOf {conv target : ℕ} (h : db.activeTurnOf conv = some target) :
    db.Stands target conv := by
  obtain ⟨hlength, htest, -⟩ := List.findIdx?_eq_some_iff_getElem.mp h
  obtain ⟨hconv, hactive⟩ := and_eq_true_iff.mp htest
  refine ⟨db.turns[target], List.getElem?_eq_getElem hlength, beq_iff_eq.mp hconv, ?_⟩
  rw [hactive]
  rfl

theorem proceed_knows {answer : Answer} (h : proceed now answer db point = some (db', point'))
    (hchanges : Changes windows now choice point db db') (hknows : Knows db point) : Knows db' point' := by
  cases point with
  | idle => cases h
  | abort turnId attempt =>
    cases h
    split
    · exact knows_abortArm turnId attempt
    · trivial
  | abortJoining turnId attempt | abortQueued turnId conv attempt =>
    simp only [proceed, some.injEq] at h
    split at h <;> cases h <;> trivial
  | flag turnId conv | sweepUndelivered turnId conv =>
    cases h
    exact hchanges.stands hknows
  | promoteFind conv after =>
    simp only [proceed] at h
    split at h
    · cases h
      exact knows_next false after
    · split at h <;> cases h
      trivial
  | promote turnId after =>
    simp only [proceed, some.injEq] at h
    split at h <;> cases h <;> exact knows_next _ after
  | send =>
    cases h
    split
    · trivial
    · split
      · rename_i hactive
        exact stands_of_activeTurnOf hactive
      · trivial
  | sendPromoted =>
    cases h
    split
    · rename_i hactive
      exact stands_of_activeTurnOf hactive
    · trivial
  | count =>
    cases h
    split
    · trivial
    · exact hknows
  | stillActive conv target | blocker turnId message | waitedOut reporter =>
    cases h
    split <;> trivial
  | createTurn message door =>
    simp only [proceed, some.injEq] at h
    split at h <;> cases h
    · cases door <;> trivial
    · trivial
  | bookRefusal =>
    simp only [proceed, some.injEq] at h
    split at h
    · cases h
      trivial
    · split at h <;> cases h
      · split <;> trivial
      · trivial
  | strand event =>
    cases h
    split
    · trivial
    · exact knows_afterStrand event
  | wake event =>
    cases h
    exact knows_afterStrand event
  | settle conv turnId outcome rest =>
    cases h
    split
    · trivial
    · exact knows_settleSweptTurns rest
  | bookRun conv turnId outcome prior rest =>
    cases h
    exact knows_settleSweptTurns rest
  | _ =>
    cases h
    trivial

theorem begin_knows (h : begin windows now db choice = some (db', point')) : Knows db' point' := by
  cases choice with
  | proceed => cases h
  | receiveWebhook =>
    simp only [begin] at h
    split at h <;> cases h <;> trivial
  | finishTurn report =>
    have hpoint := congrArg Prod.snd (some.inj h)
    change (finishTurn now report db).2 = point' at hpoint
    rw [← hpoint]
    rcases finishTurn_cases now report with ⟨-, change, -, h⟩ | ⟨-, h⟩ | ⟨-, h⟩ <;> rw [h] <;> trivial
  | applyRunnerEvent =>
    simp only [begin, some.injEq] at h
    split at h <;> cases h
    · split <;> trivial
    · trivial
  | reclaimStaleTurns | failStalledTurns =>
    cases h
    exact knows_settleSweptTurns _
  | _ =>
    cases h
    trivial

/-- A statement's call knows what it did. -/
theorem exec_knows (h : exec windows (now, choice) db point = some (db', point')) (hknows : Knows db point) :
    Knows db' point' := by
  rcases exec_cases h with ⟨answer, rfl, hproceed⟩ | ⟨rfl, hbegin⟩
  · exact proceed_knows hproceed (exec_changes h) hknows
  · exact begin_knows hbegin

section

variable (hkept : Kept db) (hchanges : Changes windows now choice point db db')
include hkept hchanges

theorem Kept.keeps_targets (hknows : Knows db point) {i target : ℕ} {f : Turn} (hrow : db'.turns[i]? = some f)
    (htarget : f.followUpOfTurnId = some target) : ∃ t, db'.turns[target]? = some t ∧ t.conversationId =
    f.conversationId := by
  have hstays {t : Turn} (hrow : db.turns[target]? = some t) (hsame : t.conversationId = f.conversationId) :
      ∃ t, db'.turns[target]? = some t ∧ t.conversationId = f.conversationId := by
    obtain ⟨t', hrow', hgoes⟩ := hchanges.get hrow
    exact ⟨t', hrow', hgoes.kept.1.trans hsame⟩
  rcases hchanges.back hrow with ⟨f', hrow', hgoes⟩ | ⟨message, target', -, rfl, rfl⟩ | ⟨message, door, -, -, -, rfl⟩
  · obtain ⟨hconv, htarget', -⟩ := hgoes.kept
    obtain ⟨t, ht, hsame⟩ := hkept.targets i target f' hrow' (htarget'.symm.trans htarget)
    exact hstays ht (hsame.trans hconv.symm)
  · cases htarget
    obtain ⟨t, ht, hsame, -⟩ := hknows
    exact hstays ht hsame
  · cases htarget

theorem Kept.keeps_steered {followUp turnId : ℕ} (hsteer : .steered followUp turnId ∈ db.log) : ∃ f,
    db'.turns[followUp]? = some f ∧ f.followUpOfTurnId = some turnId ∧ f.steerDeliveredAt.isSome := by
  obtain ⟨f, hrow, htarget, hdeliv⟩ := hkept.steered followUp turnId hsteer
  obtain ⟨f', hrow', hgoes⟩ := hchanges.get hrow
  obtain ⟨-, htarget', -, hdelivered', -⟩ := hgoes.kept
  exact ⟨f', hrow', htarget'.trans htarget, hdelivered' hdeliv⟩

theorem Kept.keeps_stopped (hcond : KeepsStops windows now choice point db) {turnId : ℕ}
    (hstop : .stopped turnId ∈ db.log) : ∃ t, db'.turns[turnId]? = some t ∧
    (t.status.inFlight || t.status.terminal) = true := by
  obtain ⟨t, hrow, hstatus⟩ := hkept.stopped turnId hstop
  obtain ⟨t', hrow', hgoes⟩ := hchanges.get hrow
  refine ⟨t', hrow', ?_⟩
  cases hgoes with
  | moves _ hmoves =>
    have hunqueued : t.status.inFlight → t'.status ≠ .queued := by
      intro hflight hqueued
      have hagain := (hmoves.recovery hflight hqueued).1
      rw [hcond.recovery turnId t hrow hstop] at hagain
      cases hagain
    have hedge := hmoves.edge
    revert hedge hstatus hunqueued
    generalize t.status = s
    generalize t'.status = s'
    cases s <;> cases s' <;> decide
  | promoted after hpoint hjoin =>
    rw [hjoin] at hstatus
    cases hstatus
  | refused => rfl

theorem Kept.keeps_barred (hcond : KeepsStops windows now choice point db) {followUp : ℕ}
    (hbarred : Barred db.log followUp) : ∃ f, db'.turns[followUp]? = some f ∧
    (f.status.terminal = true ∨ f.status = .joined ∨ (f.status = .joining ∧ f.abortRequested = true)) := by
  obtain ⟨f, hrow, hstatus⟩ := hkept.barred followUp hbarred
  obtain ⟨f', hrow', hgoes⟩ := hchanges.get hrow
  refine ⟨f', hrow', ?_⟩
  cases hgoes with
  | moves _ hmoves =>
    have hedge := hmoves.edge
    have hflag := hmoves.flag
    revert hedge hflag
    rcases hstatus with hterm | hjoined | ⟨hjoin, hflagged⟩
    · revert hterm
      generalize f.status = s
      generalize f'.status = s'
      cases s <;> cases s' <;> simp [Edge, TurnStatus.active, TurnStatus.terminal, TurnStatus.inFlight]
    · rw [hjoined]
      generalize f'.status = s'
      cases s' <;> simp [Edge, TurnStatus.active, TurnStatus.terminal, TurnStatus.inFlight]
    · rw [hjoin, hflagged]
      generalize f'.status = s'
      cases s' <;> simp [Edge, TurnStatus.active, TurnStatus.terminal, TurnStatus.inFlight]
  | promoted after hpoint hjoin hfree =>
    rcases hstatus with hterm | hjoined | ⟨-, hflagged⟩
    · rw [hjoin] at hterm
      cases hterm
    · rw [hjoin] at hjoined
      cases hjoined
    · have hwrites : (db.at followUp fun t =>
          t.status == .joining && t.abortRequested && !db.occupied t.conversationId) = true := by
        refine at_iff.mpr ⟨f, hrow, ?_⟩
        rw [hjoin, hflagged, hfree]
        rfl
      rw [hcond.promotion followUp after hpoint] at hwrites
      cases hwrites
  | refused => exact .inl rfl

end

theorem handed_cases {poll : Poll} {turnId : ℕ}
    (h : turnId ∈ (claimSteers now poll (claimAborts now poll db)).handed windows now poll) :
    ∃ t, db.turns[turnId]? = some t ∧ (t.status = .queued ∨ db.redelivers windows now poll turnId t = true) := by
  have haborts : db.Maps (fun i t t' =>
      ((poll.aborts.contains i && t.abortDue && db.reaches poll t) = false ∧ t' = t) ∨
        (t'.updatedAt = now ∧ t'.status = t.status)) (claimAborts now poll db) := by
    refine .update fun i t _ => ?_
    split
    · exact .inr ⟨rfl, rfl⟩
    · rename_i hnot
      exact .inl ⟨(not_eq_true _).mp hnot, rfl⟩
  have hsteers : db.Maps (fun i t t' =>
      ((poll.aborts.contains i && t.abortDue && db.reaches poll t) = false ∧ t' = t) ∨
        (t'.updatedAt = now ∧ t'.status = t.status)) (claimSteers now poll (claimAborts now poll db)) := by
    refine haborts.then_update fun i t t' _ _ hR => ?_
    split
    · rcases hR with ⟨-, rfl⟩ | ⟨-, hstatus⟩
      · exact .inr ⟨rfl, rfl⟩
      · exact .inr ⟨rfl, hstatus⟩
    · exact hR
  obtain ⟨hlocked, hat⟩ := mem_filter.mp h
  obtain ⟨t', hrow', hdue⟩ := at_iff.mp hat
  obtain ⟨t, hrow, hR⟩ := hsteers.back hrow'
  refine ⟨t, hrow, ?_⟩
  obtain ⟨hturnDue, hreaches⟩ := and_eq_true_iff.mp hdue
  rcases hR with ⟨hspared, rfl⟩ | ⟨hstamped, hstatus⟩
  · have hturnDue' : db.turnDue windows now t' = true := hturnDue
    have hreaches' : db.reaches poll t' = true := hreaches
    rw [hreaches', Bool.and_true] at hspared
    by_cases hqueued : t'.status = .queued
    · exact .inl hqueued
    · have hdisp : t'.status = .dispatched := by
        simp only [Db.turnDue, and_eq_true, or_eq_true, beq_iff_eq] at hturnDue
        exact (hturnDue.2.resolve_left hqueued).1
      refine .inr ?_
      rw [Db.redelivers, hdisp, contains_iff_mem.mpr hlocked, hturnDue', hreaches', hspared]
      rfl
  · -- a row that an earlier arm stamped is not past the window
    simp only [Db.turnDue, and_eq_true, or_eq_true, beq_iff_eq, decide_eq_true_eq] at hturnDue
    rcases hturnDue.2 with hqueued | ⟨-, hpast⟩
    · exact .inl (hstatus.symm.trans hqueued)
    · omega

theorem Kept.advance (hkept : Kept db) (hchanges : Changes windows now choice point db db')
    (hcond : KeepsStops windows now choice point db) (hknows : Knows db point) (new : List Event)
    (hlog : db'.log = new ++ db.log) (hquiet : ∀ turnId, .stopped turnId ∉ new)
    (hhanded : ∀ turnId, .handed turnId ∈ new → .stopped turnId ∉ db.log ∧ ¬ Barred db.log turnId)
    (hpromoted : ∀ followUp, .promoted followUp ∈ new → ¬ Barred db.log followUp)
    (hsteer : ∀ followUp turnId, .steered followUp turnId ∈ new →
      ∃ f, db'.turns[followUp]? = some f ∧ f.followUpOfTurnId = some turnId ∧ f.steerDeliveredAt.isSome) :
    Kept db' where
  final := by
    rw [hlog]
    exact hkept.final.append hquiet hhanded hpromoted
  targets i target f hrow htarget := hkept.keeps_targets hchanges hknows hrow htarget
  steered followUp turnId hmem := by
    rw [hlog] at hmem
    rcases mem_append.mp hmem with hnew | hold
    · exact hsteer followUp turnId hnew
    · exact hkept.keeps_steered hchanges hold
  stopped turnId hmem := by
    rw [hlog] at hmem
    rcases mem_append.mp hmem with hnew | hold
    · exact absurd hnew (hquiet turnId)
    · exact hkept.keeps_stopped hchanges hcond hold
  barred followUp hbarred := by
    rw [hlog] at hbarred
    exact hkept.keeps_barred hchanges hcond (barred_append hquiet hbarred)

theorem Kept.unstopped_of_queued (hkept : Kept db) {turnId : ℕ} {t : Turn} (hrow : db.turns[turnId]? = some t)
    (hqueued : t.status = .queued) : .stopped turnId ∉ db.log := by
  intro hstop
  obtain ⟨t', hrow', hstatus⟩ := hkept.stopped turnId hstop
  cases hrow.symm.trans hrow'
  rw [hqueued] at hstatus
  cases hstatus

theorem Kept.unbarred_of_active (hkept : Kept db) {turnId : ℕ} {t : Turn} (hrow : db.turns[turnId]? = some t)
    (hactive : t.status.active) : ¬ Barred db.log turnId := by
  intro hbarred
  obtain ⟨t', hrow', hstatus⟩ := hkept.barred turnId hbarred
  cases hrow.symm.trans hrow'
  revert hactive hstatus
  generalize t.status = s
  cases s <;> simp [TurnStatus.active, TurnStatus.terminal]

theorem Kept.claims (hkept : Kept db) {poll : Poll}
    (hchanges : Changes windows now (.claimDueWork poll) point db (claimDueWork windows now poll db))
    (hcond : KeepsStops windows now (.claimDueWork poll) point db) (hknows : Knows db point) :
    Kept (claimDueWork windows now poll db) := by
  refine hkept.advance hchanges hcond hknows _ (append_assoc _ _ _).symm ?_ ?_ ?_ ?_
  · intro turnId hmem
    rcases mem_append.mp hmem with hhanded | hsteer
    · obtain ⟨i, -, hevent⟩ := mem_map.mp hhanded
      cases hevent
    · obtain ⟨i, -, hevent⟩ := mem_map.mp hsteer
      cases hevent
  · intro turnId hmem
    rcases mem_append.mp hmem with hhanded | hsteer
    · obtain ⟨i, hi, hevent⟩ := mem_map.mp hhanded
      obtain rfl := Event.handed.inj hevent
      obtain ⟨t, hrow, hqueued | hredelivers⟩ := handed_cases hi
      · refine ⟨hkept.unstopped_of_queued hrow hqueued, hkept.unbarred_of_active hrow ?_⟩
        rw [hqueued]
        rfl
      · have hdisp : t.status = .dispatched := by
          simp only [Db.redelivers, and_eq_true, beq_iff_eq] at hredelivers
          exact hredelivers.1.1.1.1
        refine ⟨fun hstop => ?_, hkept.unbarred_of_active hrow ?_⟩
        · rw [hcond.claim poll i t rfl hrow hstop] at hredelivers
          cases hredelivers
        · rw [hdisp]
          rfl
    · obtain ⟨i, -, hevent⟩ := mem_map.mp hsteer
      cases hevent
  · intro followUp hmem
    rcases mem_append.mp hmem with hhanded | hsteer
    · obtain ⟨i, -, hevent⟩ := mem_map.mp hhanded
      cases hevent
    · obtain ⟨i, -, hevent⟩ := mem_map.mp hsteer
      cases hevent
  · intro followUp turnId hmem
    rcases mem_append.mp hmem with hhanded | hsteer
    · obtain ⟨i, -, hevent⟩ := mem_map.mp hhanded
      cases hevent
    · exact steered_after hsteer

theorem Kept.stops (hkept : Kept db) (hchanges : Changes windows now choice point db db')
    (hcond : KeepsStops windows now choice point db) (hknows : Knows db point) {turnId conv : ℕ}
    (hpoint : point = .flagDelivered turnId conv)
    (hrows : db'.turns = (db.update fun _ t =>
      if t.joins conv turnId then { t with abortRequested := true, updatedAt := now } else t).turns)
    (hlog : db'.log = .stopped turnId :: db.log) : Kept db' where
  final := by
    rw [hlog]
    exact hkept.final.stop turnId
  targets i target f hrow htarget := hkept.keeps_targets hchanges hknows hrow htarget
  steered followUp target hmem := by
    rw [hlog] at hmem
    rcases mem_cons.mp hmem with hnew | hold
    · cases hnew
    · exact hkept.keeps_steered hchanges hold
  stopped target hmem := by
    rw [hlog] at hmem
    rcases mem_cons.mp hmem with hnew | hold
    · obtain rfl := Event.stopped.inj hnew
      subst hpoint
      obtain ⟨t, hrow, -, hstatus⟩ := hknows
      have hqueued : t.status ≠ .queued := fun hqueued => by
        have hat : db.at target (·.status == .queued) = true := at_iff.mpr ⟨t, hrow, beq_iff_eq.mpr hqueued⟩
        rw [(hcond.abort target conv rfl).1] at hat
        cases hat
      rw [hrows, get_update, hrow, map_some]
      refine ⟨_, rfl, ?_⟩
      have hsame (t' : Turn) (h : t'.status = t.status) : (t'.status.inFlight || t'.status.terminal) = true := by
        rw [h]
        revert hstatus hqueued
        generalize t.status = s
        cases s <;> decide
      split <;> exact hsame _ rfl
    · exact hkept.keeps_stopped hchanges hcond hold
  barred followUp hbarred := by
    rw [hlog] at hbarred
    rcases barred_stop hbarred with hsteer | hold
    · subst hpoint
      obtain ⟨f, hrow, htarget, hdeliv⟩ := hkept.steered followUp turnId hsteer
      obtain ⟨t, hrow', hsame⟩ := hkept.targets followUp turnId f hrow htarget
      obtain ⟨t', hrow'', hconv, -⟩ := hknows
      cases hrow'.symm.trans hrow''
      have hinactive : f.status.active = false := by
        by_contra hactive
        have hat : db.at followUp (·.status.active) = true := at_iff.mpr ⟨f, hrow, (not_eq_false _).mp hactive⟩
        rw [(hcond.abort turnId conv rfl).2 followUp hsteer] at hat
        cases hat
      rw [hrows, get_update, hrow, map_some]
      refine ⟨_, rfl, ?_⟩
      by_cases hjoin : f.status = .joining
      · have hjoins : f.joins conv turnId = true := by
          rw [Turn.joins, ← hsame, hconv, htarget, hjoin, hdeliv]
          simp
        rw [if_pos hjoins]
        exact .inr (.inr ⟨hjoin, rfl⟩)
      · have hnot : ¬ f.joins conv turnId = true := by
          intro hjoins
          simp only [Turn.joins, and_eq_true, beq_iff_eq] at hjoins
          exact hjoin hjoins.1.2
        rw [if_neg hnot]
        revert hinactive hjoin
        generalize f.status = s
        cases s <;> simp [TurnStatus.active, TurnStatus.terminal]
    · exact hkept.keeps_barred hchanges hcond hold

/-- A statement that keeps stops leaves them final. -/
theorem exec_kept (h : exec windows (now, choice) db point = some (db', point'))
    (hcond : KeepsStops windows now choice point db) (hkept : Kept db) (hknows : Knows db point) : Kept db' := by
  have hchanges := exec_changes h
  have hadvance {event : Event} (hlog : db'.log = event :: db.log) (hstop : ∀ turnId, event ≠ .stopped turnId)
      (hhanded : ∀ turnId, event ≠ .handed turnId) (hpromoted : ∀ followUp, event = .promoted followUp →
        ¬ Barred db.log followUp) (hsteer : ∀ followUp turnId, event ≠ .steered followUp turnId) : Kept db' := by
    refine hkept.advance hchanges hcond hknows [event] hlog ?_ ?_ ?_ ?_
    · exact fun turnId hmem => hstop turnId (mem_singleton.mp hmem).symm
    · exact fun turnId hmem => absurd (mem_singleton.mp hmem).symm (hhanded turnId)
    · exact fun followUp hmem => hpromoted followUp (mem_singleton.mp hmem).symm
    · exact fun followUp turnId hmem => absurd (mem_singleton.mp hmem).symm (hsteer followUp turnId)
  cases exec_notes h with
  | silent hlog => exact hkept.advance hchanges hcond hknows [] hlog nofun nofun nofun nofun
  | claims poll hchoice hdb =>
    subst hchoice hdb
    exact hkept.claims hchanges hcond hknows
  | flags turnId conv hpoint hlog | settles conv turnId outcome rest hpoint hlog
  | books turnId message hpoint hlog => exact hadvance hlog nofun nofun nofun nofun
  | stops turnId conv hpoint hrows hlog => exact hkept.stops hchanges hcond hknows hpoint hrows hlog
  | promotes turnId after hpoint hat hlog =>
    refine hadvance hlog nofun nofun (fun followUp hevent hbarred => ?_) nofun
    cases hevent
    obtain ⟨f, hrow, hadmits⟩ := at_iff.mp hat
    obtain ⟨hjoin, hfree⟩ := and_eq_true_iff.mp hadmits
    obtain ⟨f', hrow', hstatus⟩ := hkept.barred turnId hbarred
    cases hrow.symm.trans hrow'
    rw [beq_iff_eq.mp hjoin] at hstatus
    rcases hstatus with hterm | hjoined | ⟨-, hflagged⟩
    · cases hterm
    · cases hjoined
    · have hwrites : (db.at turnId fun t =>
          t.status == .joining && t.abortRequested && !db.occupied t.conversationId) = true := by
        refine at_iff.mpr ⟨f, hrow, ?_⟩
        rw [hjoin, hflagged, hfree]
        rfl
      rw [hcond.promotion turnId after hpoint] at hwrites
      cases hwrites

end Statements

section Runs

/-- A run from empty tables whose steps all keep the Stops: no claim hands a stopped turn over again, and what its
run was handed before the Stop is neither promoted nor run. -/
theorem run_stop_final (windows : Windows) (w : Calls.World Db Point) (es : List (ℕ × ℕ × Choice))
    (hturns : w.db.turns = []) (hlog : w.db.log = []) (hrest : ∀ i, w.calls i = .idle)
    (hmeets : Runs.Meets (Calls.step (exec windows))
      (fun v e => KeepsStops windows e.2.1 e.2.2 (v.calls e.1) v.db) w es) :
    Runs.Throughout (Calls.step (exec windows)) (fun v => StopFinal v.db.log) w es := by
  intro front back t hsplit hfront
  subst hsplit
  have hnone {turnId : ℕ} {turn : Turn} : w.db.turns[turnId]? ≠ some turn := by
    rw [hturns]
    exact nofun
  have hsilent (event : Event) : event ∉ w.db.log := by
    rw [hlog]
    exact List.not_mem_nil
  have hempty (followUpId : ℕ) : ¬ Barred w.db.log followUpId := by
    rintro ⟨later, turnId, earlier, hsplit, -⟩
    refine hsilent (.stopped turnId) ?_
    rw [hsplit]
    exact List.mem_append_right _ List.mem_cons_self
  have hstart : Calls.Holds Kept Knows w := by
    refine ⟨⟨?_, ?_, ?_, ?_, ?_⟩, fun i => ?_⟩
    · intro later turnId earlier hsplit
      refine absurd ?_ (hsilent (.stopped turnId))
      rw [hsplit]
      exact List.mem_append_right _ List.mem_cons_self
    · exact fun i target f hrow => absurd hrow hnone
    · exact fun followUpId turnId hmem => absurd hmem (hsilent _)
    · exact fun turnId hmem => absurd hmem (hsilent _)
    · exact fun followUpId hbarred => absurd hbarred (hempty followUpId)
    · rw [hrest i]
      trivial
  refine (Calls.run_holds_of_meets (exec windows) ?_ hstart (Runs.Meets.front _ hmeets) hfront).db.final
  intro v e db point hcond hholds hexec
  have hchanges := exec_changes hexec
  exact ⟨exec_kept hexec hcond hholds.db (hholds.calls e.1), exec_knows hexec (hholds.calls e.1),
    fun j _ => hchanges.knows (hholds.calls j)⟩

/-- The message, the poll and the next statement of the runs below. -/
def stopMessage : Message := ⟨0, .person, false, none⟩

/-- A poll of the sandbox's runner. -/
def stopPoll (aborts turns : List ℕ) : Poll := ⟨7, none, aborts, [], turns⟩

/-- A call goes on. -/
def goOn : Choice := .proceed ⟨0, false⟩

/-- A turn is sent and handed over, and stopped before it starts. -/
def stoppedCold : List (ℕ × ℕ × Choice) :=
  [(0, 1, .createTurn stopMessage), (0, 1, goOn), (0, 2, goOn), (1, 3, .claimDueWork (stopPoll [] [0])),
    (2, 4, .abortTurn 0), (2, 4, goOn), (2, 5, goOn), (2, 5, goOn), (2, 5, goOn)]

/-- The sandbox takes the abort and reports the turn aborted. -/
def confirmed : List (ℕ × ℕ × Choice) :=
  [(3, 6, .claimDueWork (stopPoll [0] [])), (4, 7, .finishTurn ⟨⟨7, 0⟩, 0, 0, .aborted, false, []⟩)]

/-- Before any stop there is none to keep. -/
theorem keepsStops_of_unstopped {windows : Windows} {now : ℕ} {choice : Choice} {point : Point} {db : Db}
    (hlog : db.log.any (· matches .stopped _) = false) (habort : ∀ turnId conv,
      point ≠ .flagDelivered turnId conv) (hpromote : ∀ turnId after, point ≠ .promote turnId after) :
    KeepsStops windows now choice point db := by
  have hunstopped (turnId : ℕ) : .stopped turnId ∉ db.log := by
    intro hmem
    have hany : db.log.any (· matches .stopped _) = true := any_eq_true.mpr ⟨.stopped turnId, hmem, rfl⟩
    rw [hlog] at hany
    cases hany
  exact ⟨fun i _ _ h => absurd h (hunstopped i), fun _ i _ _ _ h => absurd h (hunstopped i),
    fun turnId conv h => absurd h (habort turnId conv), fun turnId after h => absurd h (hpromote turnId after)⟩

/-- `abortTurn` ends while its turn is not queued and its run was handed nothing. -/
theorem keepsStops_flagDelivered {windows : Windows} {now turnId conv : ℕ} {answer : Answer} {db : Db}
    (hlog : db.log.any (· matches .stopped _ | .steered _ _) = false)
    (hqueued : db.at turnId (·.status == .queued) = false) :
    KeepsStops windows now (.proceed answer) (.flagDelivered turnId conv) db := by
  have hnone (event : Event) (hevent : (event matches .stopped _ | .steered _ _) = true) : event ∉ db.log := by
    intro hmem
    have hany : db.log.any (· matches .stopped _ | .steered _ _) = true := any_eq_true.mpr ⟨event, hmem, hevent⟩
    rw [hlog] at hany
    cases hany
  refine ⟨fun _ _ _ _ => rfl, (fun _ _ _ h _ _ => by cases h), fun target conversation' hpoint => ?_, nofun⟩
  obtain ⟨rfl, -⟩ := Point.flagDelivered.inj hpoint
  exact ⟨hqueued, fun followUp hsteer => absurd hsteer (hnone _ rfl)⟩

/-- A claim of aborts keeps the stops. -/
theorem keepsStops_claimAborts (windows : Windows) (now : ℕ) (db : Db) (aborts : List ℕ) :
    KeepsStops windows now (.claimDueWork (stopPoll aborts [])) .idle db := by
  refine ⟨fun _ _ _ _ => rfl, fun poll turnId turn hchoice _ _ => ?_, nofun, nofun⟩
  cases hchoice
  simp [Db.redelivers, stopPoll]

/-- A report without recovery keeps the stops. -/
theorem keepsStops_finishTurn (windows : Windows) (now : ℕ) (db : Db) {report : FinishTurnInput}
    (hrecovers : report.recovers = false) : KeepsStops windows now (.finishTurn report) .idle db := by
  refine ⟨fun i t _ _ => ?_, (fun _ _ _ h _ _ => by cases h), nofun, nofun⟩
  simp [recovers, Db.requeues, hrecovers]

/-- The abort reaches its sandbox. -/
theorem run_stop_final_confirmed : Runs.Throughout (Calls.step (exec ⟨60, 3600, 600⟩))
    (fun v => StopFinal v.db.log) (atRest oneConversation) (stoppedCold ++ confirmed) := by
  refine run_stop_final _ _ _ rfl rfl (fun _ => rfl) ?_
  iterate 8 refine Runs.meets_cons_of_eq _ rfl (keepsStops_of_unstopped rfl nofun nofun) ?_
  refine Runs.meets_cons_of_eq _ rfl (keepsStops_flagDelivered rfl rfl) ?_
  refine Runs.meets_cons_of_eq _ rfl (keepsStops_claimAborts _ _ _ _) ?_
  exact Runs.meets_cons_of_eq _ rfl (keepsStops_finishTurn _ _ _ rfl) trivial

/-- The sandbox dies first, and is started again. -/
def revived : List (ℕ × ℕ × Choice) :=
  [(3, 6, .applyRunnerEvent ⟨⟨7, 0⟩, .stopped, false, none, true⟩), (3, 6, goOn), (3, 6, goOn),
    (4, 7, .sandbox 0 ⟨7, .running, none, none, true, true⟩), (5, 8, .claimDueWork (stopPoll [0] [0]))]

/-- A sandbox that dies takes the Stop with it: the turn is revived, and handed over again. -/
theorem not_final_when_revived : ¬ ∀ (windows : Windows) (w : Calls.World Db Point) (es : List (ℕ × ℕ × Choice)),
    w.db.turns = [] → w.db.log = [] → (∀ i, w.calls i = .idle) →
      Runs.Throughout (Calls.step (exec windows)) (fun v => StopFinal v.db.log) w es := by
  intro hall
  have hfinal := hall ⟨60, 3600, 600⟩ (atRest oneConversation) (stoppedCold ++ revived) rfl rfl (fun _ => rfl)
    (stoppedCold ++ revived) [] _ (List.append_nil _).symm rfl
  have hhanded := (hfinal [.handed 0] 0 [.flagged 0, .handed 0] rfl).1
  exact hhanded List.mem_cons_self

end Runs

end Onecli.Agents.Turns
