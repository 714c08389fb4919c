import Onecli.Billing.AwsMarketplace
import Mathlib.Algebra.BigOperators.Group.List.Basic
import Mathlib.Algebra.Ring.Int.Defs

/-!
# Overage is billed once

A pass reads the entitlement, sums what is metered for the year and creates its record in three statements. While it is
to create the record, either nothing was metered since the sum, or its unique key is taken: for passes that counted the
same entitled agents, whoever creates first takes the key of all that summed the same.
-/

namespace Onecli.Billing

open Api (JsString)
open List Runs

namespace Tables

variable {t t' : Tables}

theorem billedOnce_congr (hrecords : t'.records = t.records) (hpasses : t'.passes = t.passes) :
    t'.BilledOnce ↔ t.BilledOnce := by
  have hmetered : t'.metered = t.metered := by
    funext org start
    rw [metered, metered, hrecords]
  constructor
  · rintro ⟨hbounded, honce, hplaced⟩
    rw [hmetered, hpasses] at hbounded
    exact ⟨hbounded, hrecords ▸ honce, hpasses ▸ hplaced⟩
  · rintro ⟨hbounded, honce, hplaced⟩
    rw [← hmetered, ← hpasses] at hbounded
    exact ⟨hbounded, hrecords ▸ honce, hpasses ▸ hplaced⟩

theorem metered_createRecord (t : Tables) (charge : Charge) (id : ℕ) (now : CivilDate) (org : ℕ)
    (start : CivilDate) : (t.createRecord (charge.record id now)).metered org start =
      t.metered org start + if charge.pass.sub.organizationId = org ∧
        charge.pass.contractYearStart = start then charge.delta else 0 := by
  unfold metered createRecord
  rw [filter_cons]
  by_cases hsame : charge.pass.sub.organizationId = org ∧ charge.pass.contractYearStart = start
  · have htrue : (decide ((charge.record id now).organizationId = org ∧
        (charge.record id now).dimension = AWS_MARKETPLACE_OVERAGE_DIMENSION ∧
        (charge.record id now).contractYearStart = start)) = true := decide_eq_true ⟨hsame.1, rfl, hsame.2⟩
    rw [if_pos htrue, if_pos hsame, map_cons, add_comm]
    rfl
  · have hfalse : ¬ (decide ((charge.record id now).organizationId = org ∧
        (charge.record id now).dimension = AWS_MARKETPLACE_OVERAGE_DIMENSION ∧
        (charge.record id now).contractYearStart = start)) = true := by
      intro htrue
      have hall := of_decide_eq_true htrue
      exact hsame ⟨hall.1, hall.2.2⟩
    rw [if_neg hfalse, if_neg hsame, add_zero]

variable {charge : Charge}

/-- A pass that takes a year that now is of keeps what is billed once. -/
theorem BilledOnce.see (h : t.BilledOnce) {pass : Pass} (hyear : InYear pass.contractYearStart pass.now) :
    (t.see pass).BilledOnce := by
  refine ⟨fun org start => ?_, h.once, fun seen hseen => ?_⟩
  · rcases h.bounded org start with hzero | ⟨seen, hseen, hrest⟩
    · exact .inl hzero
    · exact .inr ⟨seen, mem_cons_of_mem _ hseen, hrest⟩
  · rcases mem_cons.mp hseen with rfl | hold
    · exact hyear
    · exact h.placed seen hold

/-- A record that brings what is metered up to the overage of its pass keeps what is billed once. -/
theorem BilledOnce.createRecord (h : t.BilledOnce) (hpass : charge.pass ∈ t.passes)
    (hmetered : t.metered charge.pass.sub.organizationId charge.pass.contractYearStart = charge.alreadyMetered)
    {now : CivilDate} (hbehind : ∀ old ∈ t.records, ¬ old.LeftBehind charge.pass now) (id : ℕ) :
    (t.createRecord (charge.record id now)).BilledOnce := by
  refine ⟨fun org start => ?_, pairwise_cons.mpr ⟨fun old hold hagain => hbehind old hold hagain.1, h.once⟩, h.placed⟩
  rw [metered_createRecord]
  by_cases hsame : charge.pass.sub.organizationId = org ∧ charge.pass.contractYearStart = start
  · obtain ⟨rfl, rfl⟩ := hsame
    refine .inr ⟨charge.pass, hpass, rfl, rfl, ?_⟩
    rw [if_pos ⟨rfl, rfl⟩, hmetered]
    unfold Charge.delta Charge.coveredThrough Pass.overage
    omega
  · rw [if_neg hsame, add_zero]
    exact h.bounded org start

theorem metered_stampRecord (t : Tables) (id : ℕ) (meteringRecordId : JsString) :
    (t.stampRecord id meteringRecordId).metered = t.metered := by
  funext org start
  unfold metered stampRecord
  induction t.records with
  | nil => rfl
  | cons record records ih =>
    rw [map_cons, filter_cons, filter_cons]
    by_cases hid : record.id = id
    · rw [if_pos hid]
      split
      · rw [map_cons, map_cons, sum_cons, sum_cons, ih]
      · exact ih
    · rw [if_neg hid]
      split
      · rw [map_cons, map_cons, sum_cons, sum_cons, ih]
      · exact ih

theorem BilledOnce.stampRecord (h : t.BilledOnce) (id : ℕ) (meteringRecordId : JsString) :
    (t.stampRecord id meteringRecordId).BilledOnce := by
  refine ⟨fun org start => ?_, pairwise_map.mpr (h.once.imp fun {record old} hnot => ?_), h.placed⟩
  · rw [metered_stampRecord]
    exact h.bounded org start
  · split <;> split <;> exact hnot

theorem Taken.stampRecord {record : MeteredRecord} (h : t.Taken record) (id : ℕ) (meteringRecordId : JsString) :
    (t.stampRecord id meteringRecordId).Taken record := by
  obtain ⟨old, hold, hkey⟩ := h
  refine ⟨_, mem_map_of_mem hold, ?_⟩
  split <;> exact hkey

end Tables

variable {t t' : Tables} {p p' : Point} {c : Choice}

/-- A call is not to create a record. -/
def Point.Quiet (p : Point) : Prop := ∀ charge after, p ≠ .createRecord charge after

theorem quiet_point (after : After) : after.point.Quiet := by
  intro charge next
  cases after <;> exact Point.noConfusion

/-- What a statement does: the records and passes stay, an id is stamped on a record, a pass sums what is metered, or it
creates its record. -/
inductive Advances (c : Choice) (t : Tables) (p : Point) (t' : Tables) (p' : Point) : Prop where
  | quiet (hrecords : t'.records = t.records) (hpasses : t'.passes = t.passes) (hp' : p' = p ∨ p'.Quiet)
  | stamp (id : ℕ) (meteringRecordId : JsString) (ht' : t' = t.stampRecord id meteringRecordId) (hp' : p'.Quiet)
  | see (now : CivilDate) (sub : Subscription) (licenseArn : JsString) (agentCount : ℕ) (after : After)
    (hc : c = .go now) (hp : p = .sumMetered sub licenseArn agentCount after)
    (ht' : t' = t.see ⟨sub, licenseArn, agentCount, now⟩)
    (hp' : p'.Quiet ∨ p' = .createRecord (t.chargeOf ⟨sub, licenseArn, agentCount, now⟩) after)
  | create (now : CivilDate) (charge : Charge) (after : After) (id : ℕ) (hc : c = .go now)
    (hp : p = .createRecord charge after) (hfree : ¬ t.Taken (charge.record id now))
    (ht' : t' = t.createRecord (charge.record id now)) (hp' : p'.Quiet)

theorem Advances.read {q : Point} (hexec : some (t, q) = some (t', p')) (hq : q.Quiet) : Advances c t p t' p' := by
  cases hexec
  exact .quiet rfl rfl (.inr hq)

theorem upsertLicense_fields (t : Tables) (subscriptionId : ℕ) (licenseArn : JsString) (grant : Grant) :
    (t.upsertLicense subscriptionId licenseArn grant).records = t.records ∧
      (t.upsertLicense subscriptionId licenseArn grant).passes = t.passes := by
  unfold Tables.upsertLicense
  split <;> exact ⟨rfl, rfl⟩

theorem updateOrganization_fields (t : Tables) (org : ℕ) (status : SubscriptionStatus) :
    (t.updateOrganization org status).records = t.records ∧ (t.updateOrganization org status).passes = t.passes := by
  unfold Tables.updateOrganization
  split
  · exact ⟨rfl, rfl⟩
  · split <;> exact ⟨rfl, rfl⟩

theorem advances_exec (hexec : exec c t p = some (t', p')) : Advances c t p t' p' := by
  unfold exec at hexec
  split at hexec
  -- the agents change, and a registration
  · cases hexec
    exact .quiet rfl rfl (.inl rfl)
  · exact .read hexec fun _ _ => Point.noConfusion
  · split at hexec <;> exact .read hexec fun _ _ => Point.noConfusion
  · split at hexec <;> exact .read hexec fun _ _ => Point.noConfusion
  · split at hexec
    · exact .read hexec fun _ _ => Point.noConfusion
    · split at hexec
      · exact .read hexec fun _ _ => Point.noConfusion
      · cases hexec
        exact .quiet rfl rfl (.inr fun _ _ => Point.noConfusion)
  -- a sync
  · exact .read hexec fun _ _ => Point.noConfusion
  · split at hexec <;> exact .read hexec fun _ _ => Point.noConfusion
  · exact .read hexec fun _ _ => Point.noConfusion
  · exact .read hexec fun _ _ => Point.noConfusion
  · rename_i sync licenseArn grant rest
    cases hexec
    have hfields := upsertLicense_fields t sync.sub.id licenseArn grant
    exact .quiet hfields.1 hfields.2 (.inr fun _ _ => Point.noConfusion)
  · exact .read hexec fun _ _ => Point.noConfusion
  · cases hexec
    exact .quiet rfl rfl (.inr fun _ _ => Point.noConfusion)
  · exact .read hexec fun _ _ => Point.noConfusion
  · exact .read hexec fun _ _ => Point.noConfusion
  · cases hexec
    exact .quiet rfl rfl (.inr fun _ _ => Point.noConfusion)
  · rename_i org status
    cases hexec
    have hfields := updateOrganization_fields t org status
    exact .quiet hfields.1 hfields.2 (.inr fun _ _ => Point.noConfusion)
  -- a metering pass, and the final metering of a license
  · exact .read hexec fun _ _ => Point.noConfusion
  · exact .read hexec fun _ _ => Point.noConfusion
  · split at hexec <;> exact .read hexec fun _ _ => Point.noConfusion
  iterate 3 exact .read hexec fun _ _ => Point.noConfusion
  · split at hexec
    · split at hexec <;> exact .read hexec fun _ _ => Point.noConfusion
    · exact .read hexec fun _ _ => Point.noConfusion
  · exact .read hexec fun _ _ => Point.noConfusion
  · exact .read hexec fun _ _ => Point.noConfusion
  -- the delta of one subscription
  · rename_i now sub licenseArn agentCount after
    split at hexec
    · cases hexec
      exact .see now sub licenseArn agentCount after rfl rfl rfl (.inl (quiet_point after))
    · cases hexec
      exact .see now sub licenseArn agentCount after rfl rfl rfl (.inr rfl)
  · rename_i now charge after
    split at hexec
    · exact .read hexec (quiet_point after)
    · rename_i hfree
      cases hexec
      exact .create now charge after _ rfl rfl hfree rfl fun _ _ => Point.noConfusion
  · exact .read hexec fun _ _ => Point.noConfusion
  · rename_i after
    exact .read hexec (quiet_point after)
  · rename_i id meteringRecordId after
    cases hexec
    exact .stamp id meteringRecordId rfl (quiet_point after)
  · cases hexec

/-- A pass that is to create its record was seen, and nothing was metered for the year since it summed it, or the unique
key of its record is taken. -/
structure Tallied (t : Tables) (charge : Charge) : Prop where
  seen : charge.pass ∈ t.passes
  summed : t.metered charge.pass.sub.organizationId charge.pass.contractYearStart = charge.alreadyMetered ∨
    t.Taken (charge.record 0 charge.pass.now)

theorem Tallied.congr {charge : Charge} (h : Tallied t charge) (hmetered : t'.metered = t.metered)
    (htaken : ∀ record, t.Taken record → t'.Taken record) (hpasses : ∀ pass ∈ t.passes, pass ∈ t'.passes) :
    Tallied t' charge where
  seen := hpasses _ h.seen
  summed := by
    rw [hmetered]
    exact h.summed.imp_right (htaken _)

/-- A record was created under the same entitled agents: who summed what it found takes its key to be taken. -/
theorem Tallied.createRecord {charge other : Charge} (h : Tallied t other) (hsummed :
      t.metered charge.pass.sub.organizationId charge.pass.contractYearStart = charge.alreadyMetered)
    (hsame : other.pass.sub.organizationId = charge.pass.sub.organizationId →
      other.pass.contractYearStart = charge.pass.contractYearStart →
        other.pass.sub.entitledAgents = charge.pass.sub.entitledAgents) (id : ℕ) (now : CivilDate) :
    Tallied (t.createRecord (charge.record id now)) other where
  seen := h.seen
  summed := by
    rcases h.summed with hmetered | ⟨old, hold, hkey⟩
    · rw [Tables.metered_createRecord]
      by_cases hyear : charge.pass.sub.organizationId = other.pass.sub.organizationId ∧
          charge.pass.contractYearStart = other.pass.contractYearStart
      · obtain ⟨horg, hstart⟩ := hyear
        refine .inr ⟨charge.record id now, mem_cons_self, horg, rfl, hstart, ?_⟩
        have halready : other.alreadyMetered = charge.alreadyMetered := by
          rw [← hmetered, ← hsummed, horg, hstart]
        change charge.pass.sub.entitledAgents + charge.alreadyMetered + 1 =
          other.pass.sub.entitledAgents + other.alreadyMetered + 1
        rw [hsame horg.symm hstart.symm, halready]
      · rw [if_neg hyear, add_zero]
        exact .inl hmetered
    · exact .inr ⟨old, mem_cons_of_mem _ hold, hkey⟩

/-- Overage was billed once, every pass that is to create its record is tallied, and two of one contract year counted the
same entitled agents. -/
structure World.Tallied (w : World) : Prop where
  billed : w.db.BilledOnce
  charges : ∀ i charge after, w.calls i = .createRecord charge after → Billing.Tallied w.db charge
  entitled : ∀ i j charge other after next, w.calls i = .createRecord charge after → w.calls j = .createRecord other next →
    charge.pass.sub.organizationId = other.pass.sub.organizationId →
      charge.pass.contractYearStart = other.pass.contractYearStart →
        charge.pass.sub.entitledAgents = other.pass.sub.entitledAgents

namespace World.Tallied

variable {w w' : World} {e : ℕ × Choice}

theorem initial (plans : ℕ → PlanStatus) (agents : ℕ → ℕ) : (initial plans agents).Tallied where
  billed := ⟨fun _ _ => .inl rfl, .nil, nofun⟩
  charges := fun _ _ _ h => Point.noConfusion h
  entitled := fun _ _ _ _ _ _ h => Point.noConfusion h

/-- A statement after which no more calls are to create a record. -/
theorem keep (h : w.Tallied) (hbilled : w'.db.BilledOnce)
    (hcalls : ∀ i charge after, w'.calls i = .createRecord charge after → w.calls i = .createRecord charge after)
    (hcharges : ∀ i charge after, w'.calls i = .createRecord charge after → Billing.Tallied w'.db charge) :
    w'.Tallied where
  billed := hbilled
  charges := hcharges
  entitled := fun i j charge other after next hi hj =>
    h.entitled i j charge other after next (hcalls i _ _ hi) (hcalls j _ _ hj)

/-- A settled statement keeps the passes tallied. -/
theorem step (h : w.Tallied) (hsettled : StepSettled w e) (hstep : Billing.step w e = some w') : w'.Tallied := by
  obtain ⟨hexec, hothers⟩ := Calls.exec_of_step _ hstep
  have hcalls (hp : w'.calls e.1 = w.calls e.1 ∨ (w'.calls e.1).Quiet) (i : ℕ) (charge : Charge) (after : After)
      (hi : w'.calls i = .createRecord charge after) : w.calls i = .createRecord charge after := by
    by_cases hie : i = e.1
    · subst hie
      rcases hp with hsame | hquiet
      · exact hsame ▸ hi
      · exact absurd hi (hquiet charge after)
    · exact hothers i hie ▸ hi
  cases advances_exec hexec with
  | quiet hrecords hpasses hp' =>
    have hmetered : w'.db.metered = w.db.metered := by
      funext org start
      rw [Tables.metered, Tables.metered, hrecords]
    refine h.keep ((Tables.billedOnce_congr hrecords hpasses).mpr h.billed) (hcalls hp') fun i charge after hi => ?_
    refine (h.charges i charge after (hcalls hp' i charge after hi)).congr hmetered (fun record => ?_) fun pass => ?_
    · rw [Tables.Taken, Tables.Taken, hrecords]
      exact id
    · rw [hpasses]
      exact id
  | stamp id meteringRecordId ht' hp' =>
    refine h.keep (ht' ▸ h.billed.stampRecord id meteringRecordId) (hcalls (.inr hp')) fun i charge after hi => ?_
    rw [ht']
    exact (h.charges i charge after (hcalls (.inr hp') i charge after hi)).congr (w.db.metered_stampRecord id _)
      (fun _ htaken => htaken.stampRecord id _) fun _ hpass => hpass
  | see now sub licenseArn agentCount after hc hp ht' hp' =>
    unfold StepSettled at hsettled
    rw [hc, hp] at hsettled
    obtain ⟨hyear, hfree⟩ : (sub.contractExpiresAt = none → InYear sub.createdAt now) ∧
      Calls.Free w (Pass.contested ⟨sub, licenseArn, agentCount, now⟩) := hsettled
    have hbilled : w'.db.BilledOnce := by
      rw [ht']
      exact h.billed.see ((inYear_iff sub.dates now).mpr hyear)
    have hcharges {i : ℕ} {charge : Charge} {next : After} (hi : w.calls i = .createRecord charge next) :
        Billing.Tallied w'.db charge := by
      rw [ht']
      exact (h.charges i charge next hi).congr rfl (fun _ htaken => htaken) fun _ hpass => mem_cons_of_mem _ hpass
    rcases hp' with hp' | hp'
    · exact h.keep hbilled (hcalls (.inr hp')) fun i charge next hi => hcharges (hcalls (.inr hp') i charge next hi)
    · -- a charge of the year that is about to be created counted the same
      have hother {i : ℕ} {charge : Charge} {next : After} (hi : w'.calls i = .createRecord charge next) :
          i = e.1 ∧ charge = w.db.chargeOf ⟨sub, licenseArn, agentCount, now⟩ ∨ w.calls i = .createRecord charge next := by
        by_cases hie : i = e.1
        · subst hie
          exact .inl ⟨rfl, (Point.createRecord.inj (hi.symm.trans hp')).1⟩
        · exact .inr ((hothers i hie).symm.trans hi)
      have hsame {i : ℕ} {charge : Charge} {next : After} (hi : w.calls i = .createRecord charge next)
          (horg : charge.pass.sub.organizationId = sub.organizationId)
          (hstart : charge.pass.contractYearStart = Pass.contractYearStart ⟨sub, licenseArn, agentCount, now⟩) :
          charge.pass.sub.entitledAgents = sub.entitledAgents := by
        have hi' := hfree i
        rw [hi, Pass.contested, decide_eq_true horg, decide_eq_true hstart, Bool.true_and, Bool.true_and] at hi'
        exact not_not.mp (of_decide_eq_false hi')
      refine ⟨hbilled, fun i charge next hi => ?_, fun i j charge other next next' hi hj horg hstart => ?_⟩
      · rcases hother hi with ⟨-, rfl⟩ | hi
        · rw [ht']
          exact ⟨mem_cons_self, .inl rfl⟩
        · exact hcharges hi
      · rcases hother hi with ⟨-, rfl⟩ | hi
        · rcases hother hj with ⟨-, rfl⟩ | hj
          · rfl
          · exact (hsame hj horg.symm hstart.symm).symm
        · rcases hother hj with ⟨-, rfl⟩ | hj
          · exact hsame hi horg hstart
          · exact h.entitled i j charge other next next' hi hj horg hstart
  | create now charge after id hc hp hfree ht' hp' =>
    have hsummed := (h.charges e.1 charge after hp).summed.resolve_right hfree
    unfold StepSettled at hsettled
    rw [hc, hp] at hsettled
    refine h.keep ?_ (hcalls (.inr hp')) fun i other next hi => ?_
    · rw [ht']
      exact h.billed.createRecord (h.charges e.1 charge after hp).seen hsummed hsettled id
    · have hi := hcalls (.inr hp') i other next hi
      rw [ht']
      exact (h.charges i other next hi).createRecord hsummed (h.entitled i e.1 other charge next after hi hp) id now

end World.Tallied

/-- Where the steps of a run are settled, overage is billed once in every state. -/
theorem throughout_billedOnce {plans : ℕ → PlanStatus} {agents : ℕ → ℕ} {es : List (ℕ × Choice)}
    (hmeets : Runs.Meets step StepSettled (initial plans agents) es) :
    Runs.Throughout step (fun w => w.db.BilledOnce) (initial plans agents) es := fun front back w hsplit hrun =>
  (throughout_of_meets step (fun _ _ _ => World.Tallied.step) (.initial plans agents) hmeets front back w hsplit hrun).billed

/-- The start of a contract year is of the year of now exactly where an expiry is known or the registration is of the
last year; and overage is billed once throughout a run whose steps are all settled. -/
theorem billed_once_exact (sub : ContractDates) (now : CivilDate) {plans : ℕ → PlanStatus} {agents : ℕ → ℕ}
    {es : List (ℕ × Choice)} (hmeets : Runs.Meets step StepSettled (initial plans agents) es) :
    (InYear (currentContractYearStart sub now) now ↔ (sub.contractExpiresAt = none → InYear sub.createdAt now)) ∧
      Runs.Throughout step (fun w => w.db.BilledOnce) (initial plans agents) es :=
  ⟨inYear_iff sub now, throughout_billedOnce hmeets⟩

/-- What settles under a condition settles under a weaker one. -/
theorem Settled.imp {f g : (Point → Bool) → Prop} (hfg : ∀ kind, kind .idle = false → f kind → g kind)
    (h : Settled f c t p) : Settled g c t p := by
  unfold Settled at h ⊢
  split at h
  · exact ⟨h.1, hfg _ rfl h.2⟩
  · exact h
  · trivial

/-- The contract of a license: the agents that it commits, and its expiry. -/
def contract (licenseArn : JsString) (value : ℤ) (expirationDate : CivilDate) : Entitlement :=
  ⟨licenseArn, AWS_MARKETPLACE_CONTRACT_DIMENSION, value, some expirationDate⟩

/-- A sync by one call that is answered with one license, which no other license precedes. -/
def synced (i : ℕ) (entitlement : Entitlement) (now : CivilDate) : List (ℕ × Choice) :=
  [(i, .sync [1]), (i, .go now), (i, .entitled [entitlement] now), (i, .go now), (i, .go now), (i, .go now),
    (i, .go now), (i, .go now), (i, .go now)]

/-- An organization registers in January with ten agents until the next June. -/
def registered : List (ℕ × Choice) :=
  [(0, .register 7 [1]), (0, .go (.firstOfMonth 2026 0)), (0, .go (.firstOfMonth 2026 0)),
    (0, .go (.firstOfMonth 2026 0))] ++ synced 1 (contract [2] 10 (.firstOfMonth 2027 5)) (.firstOfMonth 2026 6)

/-- A metering pass up to what it finds metered. -/
def summed (i : ℕ) (now : CivilDate) : List (ℕ × Choice) := [(i, .meter), (i, .go now), (i, .go now), (i, .go now)]

/-- It creates its record and meters it. -/
def charged (i : ℕ) (now : CivilDate) : List (ℕ × Choice) :=
  [(i, .go now), (i, .metered [3]), (i, .go now), (i, .go now)]

/-- The calls on tables where no organization has a plan, and every one has twelve agents. -/
def start : World := initial (fun _ => .free) fun _ => 12

/-- Two passes of one contract year at once, and a third after another agent was added. -/
def grown : List (ℕ × Choice) :=
  registered ++ summed 2 (.firstOfMonth 2026 7) ++ summed 5 (.firstOfMonth 2026 7) ++
    charged 2 (.firstOfMonth 2026 7) ++ [(5, .go (.firstOfMonth 2026 7)), (3, .agents 7 13)] ++
      summed 4 (.firstOfMonth 2026 9) ++ charged 4 (.firstOfMonth 2026 9)

/-- Passes under one contract bill every agent once, two of them at once. -/
theorem billed_once_exact_grown :
    (InYear (currentContractYearStart ⟨.firstOfMonth 2026 0, some (.firstOfMonth 2027 5)⟩ (.firstOfMonth 2026 9))
      (.firstOfMonth 2026 9)) ∧ (Runs.run step start grown).isSome ∧
        Runs.Throughout step (fun w => w.db.BilledOnce) start grown := by
  have hexact := billed_once_exact ⟨.firstOfMonth 2026 0, some (.firstOfMonth 2027 5)⟩ (.firstOfMonth 2026 9)
    (Calls.meets_of_below exec (f := Settled) (i := .idle) (n := 6) (fun _ _ hfg _ _ _ => .imp hfg) (by decide)
      (fun _ _ => rfl) (by decide +kernel) : Runs.Meets step StepSettled start grown)
  exact ⟨hexact.1.mpr (by decide), by decide +kernel, hexact.2⟩

/-- Two agents are billed, and the contract is renewed until September. -/
def renewed : List (ℕ × Choice) :=
  registered ++ summed 2 (.firstOfMonth 2026 7) ++ charged 2 (.firstOfMonth 2026 7) ++
    synced 3 (contract [2] 10 (.firstOfMonth 2027 8)) (.firstOfMonth 2026 9) ++ summed 4 (.firstOfMonth 2026 9) ++
      charged 4 (.firstOfMonth 2026 9)

/-- Two passes sum at once, one of them with the entitlement of before a sync. -/
def crossed : List (ℕ × Choice) :=
  registered ++ [(2, .meter), (2, .go (.firstOfMonth 2026 7))] ++
    synced 3 (contract [2] 11 (.firstOfMonth 2027 5)) (.firstOfMonth 2026 7) ++ summed 4 (.firstOfMonth 2026 7) ++
      [(2, .go (.firstOfMonth 2026 7)), (2, .go (.firstOfMonth 2026 7))] ++ charged 4 (.firstOfMonth 2026 7) ++
        charged 2 (.firstOfMonth 2026 7)


instance (record : MeteredRecord) (slot : ℤ) : Decidable (record.Bills slot) := by
  unfold MeteredRecord.Bills
  infer_instance

/-- Two records that bill a slot in common bill the first slot of one of them. -/
theorem billsAgain_iff (record old : MeteredRecord) : old.LeftBehind record.pass record.usageTimestamp ∧
    old.Bills (max old.quantityOrdinal record.quantityOrdinal) ∧
      record.Bills (max old.quantityOrdinal record.quantityOrdinal) ↔ record.BillsAgain old := by
  refine and_congr Iff.rfl ⟨fun h => ⟨_, h⟩, ?_⟩
  rintro ⟨slot, hold, hrecord⟩
  unfold MeteredRecord.Bills at *
  omega

instance (record old : MeteredRecord) : Decidable (record.BillsAgain old) :=
  decidable_of_iff _ (billsAgain_iff record old)

/-- Slots are billed again two months later, after the contract was renewed; two passes with different entitlements bill
more than either saw; and without an expiry the year starts at the registration, however long ago. -/
theorem billed_again :
    ¬ Runs.Throughout step (fun w => w.db.BilledOnce) start renewed ∧
      ¬ Runs.Throughout step (fun w => w.db.BilledOnce) start crossed ∧
      ¬ InYear (currentContractYearStart ⟨.firstOfMonth 2024 0, none⟩ (.firstOfMonth 2026 0))
        (.firstOfMonth 2026 0) := by
  refine ⟨fun hall => ?_, fun hall => ?_, by decide⟩
  · obtain ⟨w, hw⟩ := Option.isSome_iff_exists.mp (show (run step start renewed).isSome by decide +kernel)
    have honce := (hall _ [] w (List.append_nil _).symm hw).once
    have hend : (run step start renewed).all (fun w => ¬ w.db.records.Pairwise fun record old =>
        ¬ record.BillsAgain old) = true := by
      decide +kernel
    rw [hw, Option.all_some] at hend
    exact of_decide_eq_true hend honce
  · obtain ⟨w, hw⟩ := Option.isSome_iff_exists.mp (show (run step start crossed).isSome by decide +kernel)
    have hbounded := (hall _ [] w (List.append_nil _).symm hw).bounded 7 (.firstOfMonth 2026 5)
    have hend : (run step start crossed).all (fun w => ¬ (w.db.metered 7 (.firstOfMonth 2026 5) = 0 ∨
        ∃ pass ∈ w.db.passes, pass.sub.organizationId = 7 ∧ pass.contractYearStart = .firstOfMonth 2026 5 ∧
          w.db.metered 7 (.firstOfMonth 2026 5) ≤ pass.overage)) = true := by
      decide +kernel
    rw [hw, Option.all_some] at hend
    exact of_decide_eq_true hend hbounded

end Onecli.Billing
