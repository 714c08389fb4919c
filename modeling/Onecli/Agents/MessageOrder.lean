import Onecli.Agents.Fates

/-!
# No message overtakes an older one

A follow-up reaches the agent in two ways: a run takes it in, or it is promoted and runs by itself. A promotion takes
the oldest that waits, and the steer arm hands none over past an older one, unless the same run holds that one
already and takes it in first. The guard knows a run by its turn alone. A turn that was recovered runs again, and
what its first run was handed waits outside the second, so the order is kept where no claim hands a follow-up to a
turn past one that an earlier run of it was handed.
-/

namespace Onecli.Agents.Turns

open List Bool

section Hands

/-- The follow-ups that a run was handed: since its turn was handed over last, the latest first. -/
def inHand (turnId : ℕ) : List Event → List ℕ
  | [] => []
  | .handed i :: earlier => if i = turnId then [] else inHand turnId earlier
  | .steered followUpId target :: earlier =>
    if target = turnId then followUpId :: inHand turnId earlier else inHand turnId earlier
  | _ :: earlier => inHand turnId earlier

/-- A follow-up was handed to a run that held another one already. -/
def HeldBefore (log : List Event) (target first second : ℕ) : Prop :=
  ∃ later earlier, log = later ++ .steered second target :: earlier ∧ first ∈ inHand target earlier

variable {log : List Event} {target first second : ℕ}

theorem HeldBefore.append (h : HeldBefore log target first second) (new : List Event) :
    HeldBefore (new ++ log) target first second := by
  obtain ⟨later, earlier, hlog, hheld⟩ := h
  refine ⟨new ++ later, earlier, ?_, hheld⟩
  rw [hlog, append_assoc]

theorem steered_of_inHand (h : first ∈ inHand target log) : .steered first target ∈ log := by
  induction log with
  | nil => cases h
  | cons event earlier ih =>
    cases event with
    | handed =>
      rw [inHand] at h
      split at h
      · cases h
      · exact mem_cons_of_mem _ (ih h)
    | steered =>
      rw [inHand] at h
      split at h
      · rename_i hsame
        subst hsame
        rcases mem_cons.mp h with rfl | hmem
        · exact mem_cons_self
        · exact mem_cons_of_mem _ (ih hmem)
      · exact mem_cons_of_mem _ (ih h)
    | _ => exact mem_cons_of_mem _ (ih h)

theorem HeldBefore.steered (h : HeldBefore log target first second) : .steered first target ∈ log := by
  obtain ⟨later, earlier, hlog, hheld⟩ := h
  rw [hlog]
  exact mem_append_right _ (mem_cons_of_mem _ (steered_of_inHand hheld))

theorem heldBefore_cons {event : Event} :
    HeldBefore (event :: log) target first second ↔
      (event = .steered second target ∧ first ∈ inHand target log) ∨ HeldBefore log target first second := by
  constructor
  · rintro ⟨later, earlier, hlog, hheld⟩
    cases later with
    | nil =>
      obtain ⟨hevent, rfl⟩ := List.cons.inj hlog
      exact Or.inl ⟨hevent, hheld⟩
    | cons other later => exact Or.inr ⟨later, earlier, (List.cons.inj hlog).2, hheld⟩
  · rintro (⟨rfl, hheld⟩ | h)
    · exact ⟨[], log, rfl, hheld⟩
    · exact h.append [event]

theorem inHand_append {new : List Event} (hnew : ∀ event ∈ new, ∃ followUp turnId, event = .steered followUp turnId)
    (h : first ∈ inHand target log) : first ∈ inHand target (new ++ log) := by
  induction new with
  | nil => exact h
  | cons event new ih =>
    obtain ⟨followUp, turnId, rfl⟩ := hnew event mem_cons_self
    have hrest := ih fun event hmem => hnew event (mem_cons_of_mem _ hmem)
    rw [cons_append, inHand]
    split
    · exact mem_cons_of_mem _ hrest
    · exact hrest

theorem heldBefore_of_mem {handed steered : List Event} (hevents : ∀ event ∈ steered, ∃ followUp turnId,
    event = .steered followUp turnId) (hmem : .steered second target ∈ steered) (h : first ∈ inHand target log) :
    HeldBefore (handed ++ (steered ++ log)) target first second := by
  obtain ⟨later, earlier, hsplit⟩ := append_of_mem hmem
  refine ⟨handed ++ later, earlier ++ log, ?_, inHand_append (fun event hin => hevents event ?_) h⟩
  · rw [hsplit, append_assoc, append_assoc, cons_append]
  · rw [hsplit]
    exact mem_append_right _ (mem_cons_of_mem _ hin)

end Hands

section Rows

/-- Two messages of a conversation, the one sent before the other. -/
structure Db.Precedes (db : Db) (i j : ℕ) (older newer : Turn) : Prop where
  before : i < j
  first : db.turns[i]? = some older
  second : db.turns[j]? = some newer
  conversation : older.conversationId = newer.conversationId
  created : older.createdAt < newer.createdAt

/-- A message takes effect: a run took it in, or it has its turn. -/
def effective (status : TurnStatus) : Bool := status.active || status == .done || status == .joined

/-- No follow-up takes effect while an older message of its conversation waits. -/
def Ordered (db : Db) : Prop :=
  ∀ i j older newer, db.Precedes i j older newer → newer.followUpOfTurnId.isSome → older.status = .joining →
    effective newer.status = false

/-- A run takes in what it was handed in that order. -/
def TakesInOrder (choice : Choice) (db : Db) : Prop :=
  ∀ conversation target joined, choice.takesIn = some (conversation, target, joined) → ∀ j ∈ joined, ∀ i,
    HeldBefore db.log target i j → db.at i (·.status == .joining) = true → i ∈ joined

/-- A statement keeps the order. -/
structure KeepsOrder (choice : Choice) (db : Db) : Prop where
  report : TakesInOrder choice db
  /-- A claim hands no follow-up to a turn past an older one that an earlier run of the turn was handed. -/
  claim : ∀ poll, choice = .claimDueWork poll → ∀ j ∈ db.steers poll, ∀ i older newer target,
    db.Precedes i j older newer → older.status = .joining → newer.followUpOfTurnId = some target →
      .steered i target ∈ db.log → i ∈ inHand target db.log

variable {windows : Windows} {now : ℕ} {choice : Choice} {point point' : Point} {db db' : Db} {i j : ℕ}
  {t t' older newer older' newer' : Turn}

/-- A turn that is joining was joining. -/
theorem Becomes.joining (h : Becomes windows now choice point db i t t') (hjoin : t'.status = .joining) :
    t.status = .joining := by
  cases h with
  | moves _ hmoves => exact hmoves.joining hjoin
  | promoted | refused => cases hjoin

/-- Who precedes preceded, or is older. -/
theorem Changes.precedes (h : Changes windows now choice point db db') (hprec : db'.Precedes i j older' newer') :
    ∃ older, db.turns[i]? = some older ∧ Becomes windows now choice point db i older older' ∧
      ((∃ newer, db.Precedes i j older newer ∧ Becomes windows now choice point db j newer newer') ∨
        (db.turns[j]? = none ∧ newer'.steerDeliveredAt = none ∧
          (newer'.status = .joining ∨ newer'.followUpOfTurnId = none))) := by
  obtain ⟨hbefore, holder, hnewer, hconv, hcreated⟩ := hprec
  have hold (hlength : i < db.turns.length) :
      ∃ older, db.turns[i]? = some older ∧ Becomes windows now choice point db i older older' := by
    rcases h.back holder with hback | ⟨message, target, hi, -⟩ | ⟨message, door, hi, -⟩
    · exact hback
    · omega
    · omega
  rcases h.back hnewer with ⟨newer, hrow, hgoes⟩ | ⟨message, target, hj, -, rfl⟩ | ⟨message, door, hj, -, -, rfl⟩
  · have hlength : j < db.turns.length := (List.getElem?_eq_some_iff.mp hrow).1
    obtain ⟨older, holdrow, hbecomes'⟩ := hold (by omega)
    refine ⟨older, holdrow, hbecomes', Or.inl ⟨newer, ⟨hbefore, holdrow, hrow, ?_, ?_⟩, hgoes⟩⟩
    · rw [← hbecomes'.kept.1, ← hgoes.kept.1]
      exact hconv
    · rw [← hbecomes'.kept.2.2.1, ← hgoes.kept.2.2.1]
      exact hcreated
  · obtain ⟨older, holdrow, hbecomes'⟩ := hold (by omega)
    exact ⟨older, holdrow, hbecomes', Or.inr ⟨List.getElem?_eq_none (by omega), rfl, Or.inl rfl⟩⟩
  · obtain ⟨older, holdrow, hbecomes'⟩ := hold (by omega)
    exact ⟨older, holdrow, hbecomes', Or.inr ⟨List.getElem?_eq_none (by omega), rfl, Or.inr rfl⟩⟩

end Rows

section Line

/-- What holds while the order is kept. -/
structure InLine (w : Calls.World Db Point) : Prop where
  ordered : Ordered w.db
  /-- A follow-up that was handed over was handed to its run. -/
  delivered : ∀ (i : ℕ) (f : Turn), w.db.turns[i]? = some f → f.steerDeliveredAt.isSome →
    ∃ target, f.followUpOfTurnId = some target ∧ .steered i target ∈ w.db.log
  steered : ∀ i target, .steered i target ∈ w.db.log →
    ∃ f, w.db.turns[i]? = some f ∧ f.followUpOfTurnId = some target ∧ f.steerDeliveredAt.isSome
  /-- What waits before a follow-up that was handed over is held by the same run. -/
  held : ∀ i j older newer, w.db.Precedes i j older newer → older.status = .joining → newer.status = .joining →
    newer.steerDeliveredAt.isSome → ∃ target, newer.followUpOfTurnId = some target ∧ HeldBefore w.db.log target i j
  /-- Nothing waits before what a call has found to be the oldest. -/
  found : ∀ n j after, w.calls n = .promote j after → ∃ newer, w.db.turns[j]? = some newer ∧
    ∀ i older, w.db.Precedes i j older newer → older.status ≠ .joining

variable {windows : Windows} {now : ℕ} {choice : Choice} {point' : Point} {db' : Db} {w : Calls.World Db Point}
  {n i j : ℕ} {older newer older' newer' : Turn}

theorem InLine.takesIn (hline : InLine w) (hkeeps : KeepsOrder choice w.db)
    (h : exec windows (now, choice) w.db (w.calls n) = some (db', point')) (hprec : w.db.Precedes i j older newer)
    (hwaits : older.status = .joining) (hfirst : db'.turns[i]? = some older') (hsecond : db'.turns[j]? = some newer')
    (hjoin : newer.status = .joining) (htaken : newer'.status = .joined) : older'.status = .joined := by
  rcases (exec_fate h hprec.second hsecond).joined htaken with hjoined | ⟨conv, target, joined, hchoice, hmem, hjoins⟩
  · rw [hjoin] at hjoined
    cases hjoined
  obtain ⟨⟨⟨hconv, htarget⟩, -⟩, hdeliv⟩ := by
    simpa only [Turn.joins, and_eq_true, beq_iff_eq] using hjoins
  obtain ⟨target', htarget', hheld⟩ := hline.held i j older newer hprec hwaits hjoin hdeliv
  cases htarget.symm.trans htarget'
  have hin : i ∈ joined := by
    refine hkeeps.report conv target joined hchoice j hmem i hheld (at_iff.mpr ⟨older, hprec.first, ?_⟩)
    rw [hwaits]
    rfl
  obtain ⟨f, hrow, hsame, hsteer⟩ := hline.steered i target hheld.steered
  cases hprec.first.symm.trans hrow
  have hjoins' : older.joins conv target = true := by
    simp only [Turn.joins, and_eq_true, beq_iff_eq]
    exact ⟨⟨⟨hprec.conversation.trans hconv, hsame⟩, hwaits⟩, hsteer⟩
  have hne : newer.status ≠ .joined := by
    rw [hjoin]
    simp
  obtain ⟨f', hrow', hstatus⟩ := exec_takesIn h hchoice hprec.second hsecond hne htaken hprec.first hin hjoins'
  cases hfirst.symm.trans hrow'
  exact hstatus

theorem InLine.keeps_ordered (hline : InLine w) (hkeeps : KeepsOrder choice w.db)
    (h : exec windows (now, choice) w.db (w.calls n) = some (db', point')) : Ordered db' := by
  intro i j older' newer' hprecedes' hfollowUp hwaits'
  have hchanges := exec_changes h
  obtain ⟨older, hfirst, hgoes, ⟨newer, hprec, hbecomes'⟩ | ⟨-, -, hnew⟩⟩ := hchanges.precedes hprecedes'
  · have hwaits : older.status = .joining := hgoes.joining hwaits'
    rw [hbecomes'.kept.2.1] at hfollowUp
    have hstill := hline.ordered i j older newer hprec hfollowUp hwaits
    cases hbecomes' with
    | moves _ hmoves =>
      by_cases hjoined : newer'.status = .joined
      · by_cases hjoin : newer.status = .joining
        · have htaken := hline.takesIn hkeeps h hprec hwaits hprecedes'.first hprecedes'.second hjoin hjoined
          rw [hwaits'] at htaken
          cases htaken
        · have hedge := hmoves.edge
          revert hedge hstill hjoin
          rw [hjoined]
          generalize newer.status = s
          cases s <;> decide
      · have hedge := hmoves.edge
        revert hedge hstill hjoined
        generalize newer.status = s
        generalize newer'.status = s'
        cases s <;> cases s' <;> decide
    | promoted after hpoint =>
      obtain ⟨found, hrow, hnone⟩ := hline.found n j after hpoint
      cases hprec.second.symm.trans hrow
      exact absurd hwaits (hnone i older hprec)
    | refused => rfl
  · rcases hnew with hjoin | hnone
    · rw [hjoin]
      rfl
    · rw [hnone] at hfollowUp
      cases hfollowUp

theorem InLine.keeps_delivered (hline : InLine w) (h : exec windows (now, choice) w.db (w.calls n) = some (db', point'))
    {f' : Turn} (hrow' : db'.turns[i]? = some f') (hdeliv : f'.steerDeliveredAt.isSome) :
    ∃ target, f'.followUpOfTurnId = some target ∧ .steered i target ∈ db'.log := by
  obtain ⟨new, hlog, -⟩ := exec_noted h
  rcases (exec_changes h).back hrow' with ⟨f, hrow, hgoes⟩ | ⟨message, target, -, -, rfl⟩ | ⟨message, door, -, -, -, rfl⟩
  · rw [hgoes.kept.2.1]
    rcases (exec_fate h hrow hrow').delivered hdeliv with hold | ⟨poll, rfl, hsteers⟩
    · obtain ⟨target, htarget, hsteer⟩ := hline.delivered i f hrow hold
      refine ⟨target, htarget, ?_⟩
      rw [hlog]
      exact mem_append_right _ hsteer
    · obtain ⟨handed, steered, hclaim, -, hall⟩ := claim_log h
      obtain ⟨u, target, hrow'', htarget, -⟩ := steers_row hsteers
      cases hrow.symm.trans hrow''
      refine ⟨target, htarget, ?_⟩
      rw [hclaim]
      exact mem_append_right _ (mem_append_left _ (hall i f target hsteers hrow htarget))
  · cases hdeliv
  · cases hdeliv

theorem InLine.keeps_steered (hline : InLine w) (h : exec windows (now, choice) w.db (w.calls n) = some (db', point'))
    {target : ℕ} (hsteer : .steered i target ∈ db'.log) :
    ∃ f, db'.turns[i]? = some f ∧ f.followUpOfTurnId = some target ∧ f.steerDeliveredAt.isSome := by
  obtain ⟨new, hlog, hnoted⟩ := exec_noted h
  rw [hlog] at hsteer
  rcases mem_append.mp hsteer with hnew | hold
  · obtain ⟨poll, rfl, hsteers, f, hrow, htarget⟩ := hnoted.steered i target hnew
    obtain ⟨handed, steered, -, hrows, hall⟩ := claim_log h
    obtain ⟨followUp, turnId, hevent, hrow'⟩ := hrows _ (hall i f target hsteers hrow htarget)
    cases hevent
    exact hrow'
  · obtain ⟨f, hrow, htarget, hdeliv⟩ := hline.steered i target hold
    obtain ⟨f', hrow', hgoes⟩ := (exec_changes h).get hrow
    exact ⟨f', hrow', hgoes.kept.2.1.trans htarget, hgoes.kept.2.2.2.1 hdeliv⟩

theorem delivered_of_steers {db : Db} {poll : Poll} (hsteers : j ∈ db.steers poll) (hprec : db.Precedes i j older newer)
    (hwaits : older.status = .joining) :
    older.steerDeliveredAt.isSome ∧ older.followUpOfTurnId = newer.followUpOfTurnId := by
  obtain ⟨f, target, hrow, -, -, -, hfree⟩ := steers_row hsteers
  cases hprec.second.symm.trans hrow
  have hpasses := any_eq_false.mp hfree older (mem_of_getElem? hprec.first)
  have hinside : (older.steerDeliveredAt.isNone || older.followUpOfTurnId != newer.followUpOfTurnId) = false := by
    rw [Turn.blocks, hprec.conversation, beq_self_eq_true, hwaits, decide_eq_true hprec.created] at hpasses
    exact (not_eq_true _).mp hpasses
  obtain ⟨hdeliv, htarget⟩ := or_eq_false_iff.mp hinside
  rw [bne_eq_false_iff_eq] at htarget
  refine ⟨?_, htarget⟩
  cases hstamp : older.steerDeliveredAt with
  | none =>
    rw [hstamp] at hdeliv
    cases hdeliv
  | some => rfl

theorem InLine.keeps_held (hline : InLine w) (hkeeps : KeepsOrder choice w.db)
    (h : exec windows (now, choice) w.db (w.calls n) = some (db', point')) (hprecedes' : db'.Precedes i j older' newer')
    (hwaits' : older'.status = .joining) (hwaits'' : newer'.status = .joining)
    (hdeliv : newer'.steerDeliveredAt.isSome) :
    ∃ target, newer'.followUpOfTurnId = some target ∧ HeldBefore db'.log target i j := by
  obtain ⟨older, hfirst, hgoes, ⟨newer, hprec, hbecomes'⟩ | ⟨-, hnone, -⟩⟩ := (exec_changes h).precedes hprecedes'
  · have hwaits := hgoes.joining hwaits'
    rw [hbecomes'.kept.2.1]
    rcases (exec_fate h hprec.second hprecedes'.second).delivered hdeliv with hold | ⟨poll, rfl, hsteers⟩
    · obtain ⟨target, htarget, hheld⟩ := hline.held i j older newer hprec hwaits (hbecomes'.joining hwaits'') hold
      obtain ⟨new, hlog, -⟩ := exec_noted h
      refine ⟨target, htarget, ?_⟩
      rw [hlog]
      exact hheld.append new
    · obtain ⟨hstamped, hsame⟩ := delivered_of_steers hsteers hprec hwaits
      obtain ⟨target, htarget, hsteer⟩ := hline.delivered i older hfirst hstamped
      have htarget' : newer.followUpOfTurnId = some target := hsame.symm.trans htarget
      have hheld := hkeeps.claim poll rfl j hsteers i older newer target hprec hwaits htarget' hsteer
      obtain ⟨handed, steered, hlog, hrows, hall⟩ := claim_log h
      have hevents : ∀ event ∈ steered, ∃ followUp turnId, event = .steered followUp turnId := by
        intro event hmem
        obtain ⟨followUp, turnId, hevent, -⟩ := hrows event hmem
        exact ⟨followUp, turnId, hevent⟩
      refine ⟨target, htarget', ?_⟩
      rw [hlog]
      exact heldBefore_of_mem hevents (hall j newer target hsteers hprec.second htarget') hheld
  · rw [hnone] at hdeliv
    cases hdeliv

theorem InLine.keeps_found (hline : InLine w) (h : exec windows (now, choice) w.db (w.calls n) = some (db', point'))
    {m : ℕ} {after : After} (hpoint : Function.update w.calls n point' m = .promote j after) :
    ∃ newer, db'.turns[j]? = some newer ∧ ∀ i older, db'.Precedes i j older newer → older.status ≠ .joining := by
  by_cases hm : m = n
  · subst hm
    rw [Function.update_self] at hpoint
    obtain ⟨hsame, conv, holdest⟩ := (exec_leads h).promote j after hpoint
    rw [hsame]
    obtain ⟨newer, hrow, hparked⟩ := at_iff.mp holdest
    simp only [and_eq_true, beq_iff_eq, all_eq_true, decide_eq_true_eq] at hparked
    obtain ⟨⟨hconv, -⟩, holdest⟩ := hparked
    refine ⟨newer, hrow, fun i older hprec hwaits => ?_⟩
    have hparked : older ∈ w.db.parked conv := by
      refine mem_filter.mpr ⟨mem_of_getElem? hprec.first, ?_⟩
      rw [hprec.conversation, hconv, hwaits, beq_self_eq_true]
      rfl
    have hle := holdest older hparked
    have hlt := hprec.created
    omega
  · rw [Function.update_of_ne hm] at hpoint
    obtain ⟨newer, hrow, hnone⟩ := hline.found m j after hpoint
    obtain ⟨newer', hrow', -⟩ := (exec_changes h).get hrow
    refine ⟨newer', hrow', fun i older' hprecedes' hwaits' => ?_⟩
    obtain ⟨older, -, hgoes, ⟨old, hprec, -⟩ | ⟨hnew, -⟩⟩ := (exec_changes h).precedes hprecedes'
    · cases hrow.symm.trans hprec.second
      exact hnone i older hprec (hgoes.joining hwaits')
    · rw [hrow] at hnew
      cases hnew

/-- A statement that keeps the order leaves the messages in line. -/
theorem InLine.step (hline : InLine w) (hkeeps : KeepsOrder choice w.db)
    (h : exec windows (now, choice) w.db (w.calls n) = some (db', point')) :
    InLine ⟨db', Function.update w.calls n point'⟩ where
  ordered := hline.keeps_ordered hkeeps h
  delivered _ _ hrow hdeliv := hline.keeps_delivered h hrow hdeliv
  steered _ _ hsteer := hline.keeps_steered h hsteer
  held _ _ _ _ hprec hwaits hwaits' hdeliv := hline.keeps_held hkeeps h hprec hwaits hwaits' hdeliv
  found _ _ _ hpoint := hline.keeps_found h hpoint

end Line

end Onecli.Agents.Turns
