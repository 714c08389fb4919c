import Onecli.Foundation.CivilDate
import Onecli.Api.Text
import Onecli.Foundation.Calls

/-!
# The contract year

`currentContractYearStart` of the marketplace billing. From the expiry of the contracts it goes back one year, then back
until the start is not after now, then forward to the last start not after now; the first step leaves a day that every
year has, so that the years are whole from there on. Without an expiry it answers with the day of registration.
-/

namespace Onecli.Billing

/-- The dates that a subscription gives to `currentContractYearStart`. -/
structure ContractDates where
  createdAt : CivilDate
  contractExpiresAt : Option CivilDate

/-- `while (start > now) start.setFullYear(start.getFullYear() - 1)`. -/
def walkBack (now start : CivilDate) : CivilDate :=
  if now < start then walkBack now (start.setFullYear (start.year - 1)) else start
termination_by (start.stamp - now.stamp).toNat
decreasing_by
  have hback := CivilDate.lt_iff.mp start.setFullYear_year_before_lt
  have hafter := CivilDate.lt_iff.mp ‹now < start›
  omega

/-- `while (next <= now)`, with the start a year before `next`. -/
def walkForward (now start next : CivilDate) : CivilDate :=
  if next ≤ now then walkForward now (start.setFullYear (start.year + 1)) (next.setFullYear (next.year + 1))
  else start
termination_by (now.stamp + 1 - next.stamp).toNat
decreasing_by
  have hforward := CivilDate.lt_iff.mp next.lt_setFullYear_year_after
  have hbefore := CivilDate.le_iff.mp ‹next ≤ now›
  omega

/-- `currentContractYearStart`. -/
def currentContractYearStart (sub : ContractDates) (now : CivilDate) : CivilDate :=
  match sub.contractExpiresAt with
  | some expiry =>
    walkForward now (walkBack now (expiry.setFullYear (expiry.year - 1)))
      ((walkBack now (expiry.setFullYear (expiry.year - 1))).setFullYear
        ((walkBack now (expiry.setFullYear (expiry.year - 1))).year + 1))
  | none => sub.createdAt

/-- A moment is of the year that starts at a date: not before it, and less than one year after it. -/
def InYear (start now : CivilDate) : Prop := start ≤ now ∧ now < start.setFullYear (start.year + 1)

instance (start now : CivilDate) : Decidable (InYear start now) := by
  unfold InYear
  infer_instance

/-- The walk back ends by today. -/
theorem walkBack_spec (now start : CivilDate) (h : ¬ start.IsLeapDay) :
    walkBack now start ≤ now ∧ ¬ (walkBack now start).IsLeapDay := by
  induction start using walkBack.induct now with
  | case1 start hafter ih =>
    rw [walkBack, if_pos hafter]
    exact ih start.not_isLeapDay_year_before
  | case2 start hnot =>
    rw [walkBack, if_neg hnot]
    exact ⟨not_lt.mp hnot, h⟩

theorem walkForward_inYear (now start next : CivilDate) (hle : start ≤ now) (hday : ¬ start.IsLeapDay)
    (hnext : next = start.setFullYear (start.year + 1)) : InYear (walkForward now start next) now := by
  induction start, next using walkForward.induct now with
  | case1 start next hbefore ih =>
    rw [walkForward, if_pos hbefore]
    refine ih (hnext ▸ hbefore) (CivilDate.not_isLeapDay_setFullYear hday _) ?_
    rw [hnext]
  | case2 start next hnot =>
    rw [walkForward, if_neg hnot]
    exact ⟨hle, hnext ▸ not_le.mp hnot⟩

theorem inYear_of_expiry (createdAt expiry now : CivilDate) :
    InYear (currentContractYearStart ⟨createdAt, some expiry⟩ now) now := by
  obtain ⟨hle, hday⟩ := walkBack_spec now (expiry.setFullYear (expiry.year - 1)) expiry.not_isLeapDay_year_before
  exact walkForward_inYear now _ _ hle hday rfl

/-- The year holds today, where the creation's does if no expiry is known. -/
theorem inYear_iff (sub : ContractDates) (now : CivilDate) :
    InYear (currentContractYearStart sub now) now ↔ (sub.contractExpiresAt = none → InYear sub.createdAt now) := by
  obtain ⟨createdAt, expiry⟩ := sub
  cases expiry with
  | none => exact ⟨fun h _ => h, fun h => h rfl⟩
  | some expiry =>
    exact iff_of_true (inYear_of_expiry createdAt expiry now) fun hnone => absurd hnone (Option.some_ne_none _)

/-! ## AWS Marketplace billing

`aws-marketplace/service.ts`: registration, the sync of entitlements, the metering pass and the final metering of a
license that ends, statement by statement. What AWS answers, what the clock shows and how many agents an organization has
are choices. A thrown error ends its call, or goes on where the caller catches it.

A record keeps the pass that billed it, and the passes that compared the agents with the entitlement are kept; no
statement reads them.
-/

open Api (JsString unit)

/-- `AWS_MARKETPLACE_CONTRACT_DIMENSION`, as it is set by default. -/
def AWS_MARKETPLACE_CONTRACT_DIMENSION : JsString := "team_plan".toList.map unit

/-- `AWS_MARKETPLACE_OVERAGE_DIMENSION`, as it is set by default. -/
def AWS_MARKETPLACE_OVERAGE_DIMENSION : JsString := "team_plan".toList.map unit

/-- `AWS_MARKETPLACE_INCLUDED_AGENTS`. -/
def AWS_MARKETPLACE_INCLUDED_AGENTS : ℤ := 10

/-- One row of what `getEntitlements` answers. -/
structure Entitlement where
  licenseArn : JsString
  dimension : JsString
  value : ℤ
  expirationDate : Option CivilDate
  deriving DecidableEq

/-- The status of a subscription. -/
inductive SubscriptionStatus where
  | pending
  | subscribed
  | unsubscribed
  deriving DecidableEq

/-- The status of a license. -/
inductive LicenseStatus where
  | active
  | deprovisioned
  deriving DecidableEq

/-- `Organization.subscriptionStatus`. -/
inductive PlanStatus where
  | free
  | awsMarketplace
  | other (name : JsString)
  deriving DecidableEq

/-- `AwsMarketplaceSubscription`. -/
structure Subscription where
  id : ℕ
  organizationId : ℕ
  customerAwsAccountId : JsString
  status : SubscriptionStatus
  entitledAgents : ℤ
  contractExpiresAt : Option CivilDate
  createdAt : CivilDate
  deriving DecidableEq

/-- `AwsMarketplaceLicense`. -/
structure License where
  subscriptionId : ℕ
  licenseArn : JsString
  status : LicenseStatus
  entitledAgents : ℤ
  expiresAt : Option CivilDate
  deriving DecidableEq

/-- What a metering pass saw of a subscription: the row as it was read, the license to bill, the agents that were
counted, and the moment at which it took the contract year. -/
structure Pass where
  sub : Subscription
  licenseArn : JsString
  agentCount : ℕ
  now : CivilDate
  deriving DecidableEq

namespace Subscription

/-- The dates of the contracts, as the row has them. -/
def dates (sub : Subscription) : ContractDates := ⟨sub.createdAt, sub.contractExpiresAt⟩

end Subscription

namespace Pass

/-- `contractYearStart` of `meterOverageDelta`. -/
def contractYearStart (pass : Pass) : CivilDate := currentContractYearStart pass.sub.dates pass.now

/-- The agents above the entitlement. -/
def overage (pass : Pass) : ℤ := pass.agentCount - pass.sub.entitledAgents

end Pass

/-- `AwsMarketplaceMeteredRecord`, and the pass that created it. -/
structure MeteredRecord where
  id : ℕ
  organizationId : ℕ
  licenseArn : JsString
  dimension : JsString
  quantity : ℤ
  contractYearStart : CivilDate
  quantityOrdinal : ℤ
  usageTimestamp : CivilDate
  meteringRecordId : Option JsString
  pass : Pass

/-- A pass that found agents to bill, and what it found metered for the year. -/
structure Charge where
  pass : Pass
  alreadyMetered : ℤ
  deriving DecidableEq

namespace Charge

/-- `coveredThrough`. -/
def coveredThrough (charge : Charge) : ℤ := charge.pass.sub.entitledAgents + charge.alreadyMetered

/-- `delta`. -/
def delta (charge : Charge) : ℤ := charge.pass.agentCount - charge.coveredThrough

/-- The record that is created. -/
def record (charge : Charge) (id : ℕ) (usageTimestamp : CivilDate) : MeteredRecord :=
  ⟨id, charge.pass.sub.organizationId, charge.pass.licenseArn, AWS_MARKETPLACE_OVERAGE_DIMENSION, charge.delta,
    charge.pass.contractYearStart, charge.coveredThrough + 1, usageTimestamp, none, charge.pass⟩

end Charge

/-- The tables, the agents of each organization, and the passes so far. -/
structure Tables where
  subscriptions : List Subscription
  licenses : List License
  records : List MeteredRecord
  subscriptionStatus : ℕ → PlanStatus
  agents : ℕ → ℕ
  passes : List Pass

/-- What a license grants by its entitlements. -/
structure Grant where
  status : LicenseStatus
  entitledAgents : ℤ
  expiresAt : Option CivilDate
  deriving DecidableEq

/-- The latest of the dates that are known. -/
def latest (dates : List (Option CivilDate)) : Option CivilDate := (dates.filterMap id).max?

/-- `byLicense`, in the order in which the licenses come. -/
def byLicense (entitlements : List Entitlement) : List (JsString × List Entitlement) :=
  ((entitlements.map (·.licenseArn)).filter (· ≠ [])).eraseDups.map fun licenseArn =>
    (licenseArn, entitlements.filter fun e => e.licenseArn = licenseArn)

/-- The committed agents, the expiry and the status that the entitlements of one license give. -/
def grantOf (group : List Entitlement) : Grant :=
  match group.find? fun e => e.dimension = AWS_MARKETPLACE_CONTRACT_DIMENSION with
  | some contract =>
    ⟨.active, max contract.value AWS_MARKETPLACE_INCLUDED_AGENTS +
      ((group.filter fun e => e.dimension ≠ AWS_MARKETPLACE_CONTRACT_DIMENSION).map (·.value)).sum,
      latest (group.map (·.expirationDate))⟩
  | none => ⟨.deprovisioned, 0, latest (group.map (·.expirationDate))⟩

/-- The grants of the licenses whose entitlements have not expired. -/
def grants (entitlements : List Entitlement) (now : CivilDate) : List (JsString × Grant) :=
  (byLicense (entitlements.filter fun e => e.expirationDate.all (now < ·))).map fun entry => (entry.1, grantOf entry.2)

/-- `pickBillingLicense`: the latest expiry, none being the furthest, and the first of equals. -/
def pickBillingLicense : List License → Option License
  | [] => none
  | license :: licenses =>
    match pickBillingLicense licenses with
    | none => some license
    | some best => if expiresBefore license best then some best else some license
where
  /-- The horizon of one license is before that of another. -/
  expiresBefore (a b : License) : Bool :=
    match a.expiresAt, b.expiresAt with
    | none, _ => false
    | some _, none => true
    | some x, some y => x < y

/-- What goes on after metering one subscription. -/
inductive After where
  | pass (subs : List (Subscription × List License))
  | sync (customerAwsAccountId : JsString)
  deriving DecidableEq

/-- A sync that has its answer: the subscription and the licenses as they were read, and the grants. -/
structure Sync where
  sub : Subscription
  known : List License
  byLicense : List (JsString × Grant)
  deriving DecidableEq

/-- Where a call stands: at the statement that is next, or at its end. -/
inductive Point where
  | idle
  | findExisting (organizationId : ℕ) (customerAwsAccountId : JsString)
  | findOrgSub (organizationId : ℕ) (customerAwsAccountId : JsString)
  | upsertSubscription (organizationId : ℕ) (customerAwsAccountId : JsString)
  | readSubscription (customerAwsAccountId : JsString)
  | getEntitlements (sub : Subscription) (known : List License)
  | upsertLicenses (sync : Sync) (rest : List (JsString × Grant))
  | deprovision (sync : Sync) (rest : List License)
  | findActive (sync : Sync)
  | updateSubscription (sync : Sync) (active : List License)
  | updateOrganization (organizationId : ℕ) (status : SubscriptionStatus)
  | findSubscribed
  | pass (subs : List (Subscription × List License))
  | findEnding (customerAwsAccountId licenseArn : JsString)
  | countEnding (sub : Subscription) (licenseArn : JsString)
  | sumMetered (sub : Subscription) (licenseArn : JsString) (agentCount : ℕ) (after : After)
  | createRecord (charge : Charge) (after : After)
  | meterUsage (id : ℕ) (after : After)
  | stampRecord (id : ℕ) (meteringRecordId : JsString) (after : After)
  | done
  deriving DecidableEq

/-- What a step chooses: a call arrives, the agents of an organization change, a call goes on at a moment, AWS answers,
or the statement throws. -/
inductive Choice where
  | register (organizationId : ℕ) (customerAwsAccountId : JsString)
  | sync (customerAwsAccountId : JsString)
  | meter
  | deprovisioned (customerAwsAccountId licenseArn : JsString)
  | agents (organizationId count : ℕ)
  | go (now : CivilDate)
  | entitled (entitlements : List Entitlement) (now : CivilDate)
  | metered (meteringRecordId : JsString)
  | throws
  deriving DecidableEq

/-- Where a call goes on. -/
def After.point : After → Point
  | .pass subs => .pass subs
  | .sync customerAwsAccountId => .readSubscription customerAwsAccountId

namespace Tables

/-- The subscription of a customer. -/
def findSubscription (t : Tables) (customerAwsAccountId : JsString) : Option Subscription :=
  t.subscriptions.find? fun sub => sub.customerAwsAccountId = customerAwsAccountId

/-- The subscription of an organization. -/
def findOrgSub (t : Tables) (organizationId : ℕ) : Option Subscription :=
  t.subscriptions.find? fun sub => sub.organizationId = organizationId

/-- The licenses of a subscription. -/
def licensesOf (t : Tables) (sub : Subscription) : List License :=
  t.licenses.filter fun license => license.subscriptionId = sub.id

/-- The active licenses of a subscription. -/
def activeLicenses (t : Tables) (sub : Subscription) : List License :=
  (t.licensesOf sub).filter fun license => license.status = .active

/-- A subscription is created. -/
def createSubscription (t : Tables) (organizationId : ℕ) (customerAwsAccountId : JsString) (createdAt : CivilDate) :
    Tables :=
  { t with
    subscriptions := t.subscriptions ++
      [⟨t.subscriptions.length, organizationId, customerAwsAccountId, .pending, 0, none, createdAt⟩] }

/-- The upsert of a license. -/
def upsertLicense (t : Tables) (subscriptionId : ℕ) (licenseArn : JsString) (grant : Grant) : Tables :=
  if t.licenses.any fun license => license.licenseArn = licenseArn then
    { t with
      licenses := t.licenses.map fun license =>
        if license.licenseArn = licenseArn then
          ⟨license.subscriptionId, licenseArn, grant.status, grant.entitledAgents, grant.expiresAt⟩
        else license }
  else
    { t with
      licenses := t.licenses ++ [⟨subscriptionId, licenseArn, grant.status, grant.entitledAgents, grant.expiresAt⟩] }

/-- A license is deprovisioned. -/
def deprovision (t : Tables) (licenseArn : JsString) : Tables :=
  { t with
    licenses := t.licenses.map fun license =>
      if license.licenseArn = licenseArn then { license with status := .deprovisioned } else license }

/-- The aggregate over the active licenses is written to the subscription of a customer. -/
def updateSubscription (t : Tables) (customerAwsAccountId : JsString) (status : SubscriptionStatus)
    (active : List License) : Tables :=
  { t with
    subscriptions := t.subscriptions.map fun sub =>
      if sub.customerAwsAccountId = customerAwsAccountId then
        { sub with
          status
          entitledAgents := (active.map (·.entitledAgents)).sum
          contractExpiresAt := latest (active.map (·.expiresAt)) }
      else sub }

/-- The plan of the organization converges. -/
def updateOrganization (t : Tables) (organizationId : ℕ) (status : SubscriptionStatus) : Tables :=
  if status = .subscribed then
    { t with subscriptionStatus := Function.update t.subscriptionStatus organizationId .awsMarketplace }
  else if t.subscriptionStatus organizationId = .awsMarketplace then
    { t with subscriptionStatus := Function.update t.subscriptionStatus organizationId .free }
  else t

/-- The subscribed rows, with their active licenses. -/
def subscribed (t : Tables) : List (Subscription × List License) :=
  (t.subscriptions.filter fun sub => sub.status = .subscribed).map fun sub => (sub, t.activeLicenses sub)

/-- What is metered for an organization and a contract year. -/
def metered (t : Tables) (organizationId : ℕ) (contractYearStart : CivilDate) : ℤ :=
  ((t.records.filter fun record => record.organizationId = organizationId ∧
    record.dimension = AWS_MARKETPLACE_OVERAGE_DIMENSION ∧ record.contractYearStart = contractYearStart).map
      (·.quantity)).sum

/-- A pass compares the agents with the entitlement. -/
def see (t : Tables) (pass : Pass) : Tables := { t with passes := pass :: t.passes }

/-- What a pass has to charge. -/
def chargeOf (t : Tables) (pass : Pass) : Charge := ⟨pass, t.metered pass.sub.organizationId pass.contractYearStart⟩

/-- A record has the unique key of another. -/
def Taken (t : Tables) (record : MeteredRecord) : Prop :=
  ∃ old ∈ t.records, old.organizationId = record.organizationId ∧ old.dimension = record.dimension ∧
    old.contractYearStart = record.contractYearStart ∧ old.quantityOrdinal = record.quantityOrdinal

instance (t : Tables) (record : MeteredRecord) : Decidable (t.Taken record) := by
  unfold Taken
  infer_instance

/-- A record is created. -/
def createRecord (t : Tables) (record : MeteredRecord) : Tables := { t with records := record :: t.records }

/-- The id that AWS gave is stamped on a record. -/
def stampRecord (t : Tables) (id : ℕ) (meteringRecordId : JsString) : Tables :=
  { t with
    records := t.records.map fun record =>
      if record.id = id then { record with meteringRecordId := some meteringRecordId } else record }

/-- The agents of an organization change. -/
def setAgents (t : Tables) (organizationId count : ℕ) : Tables :=
  { t with agents := Function.update t.agents organizationId count }

end Tables

/-- The status of a subscription after a sync. -/
def Sync.status (sync : Sync) (active : List License) : SubscriptionStatus :=
  if active ≠ [] then .subscribed
  else if sync.known ≠ [] ∨ sync.byLicense ≠ [] then .unsubscribed else .pending

/-- A statement of a call. -/
def exec : Calls.Exec Tables Point Choice
  | .agents organizationId count, t, p => some (t.setAgents organizationId count, p)
  | .register organizationId customer, t, .idle => some (t, .findExisting organizationId customer)
  | .go _, t, .findExisting organizationId customer =>
    if (t.findSubscription customer).any fun existing => existing.organizationId ≠ organizationId then some (t, .done)
    else some (t, .findOrgSub organizationId customer)
  | .go _, t, .findOrgSub organizationId customer =>
    if (t.findOrgSub organizationId).any fun orgSub => orgSub.customerAwsAccountId ≠ customer then some (t, .done)
    else some (t, .upsertSubscription organizationId customer)
  | .go now, t, .upsertSubscription organizationId customer =>
    if (t.findSubscription customer).isSome then some (t, .readSubscription customer)
    else if (t.findOrgSub organizationId).isSome then some (t, .done)
    else some (t.createSubscription organizationId customer now, .readSubscription customer)
  | .sync customer, t, .idle => some (t, .readSubscription customer)
  | .go _, t, .readSubscription customer =>
    match t.findSubscription customer with
    | some sub => some (t, .getEntitlements sub (t.licensesOf sub))
    | none => some (t, .done)
  | .entitled entitlements now, t, .getEntitlements sub known =>
    some (t, .upsertLicenses ⟨sub, known, grants entitlements now⟩ (grants entitlements now))
  | .throws, t, .getEntitlements _ _ => some (t, .done)
  | .go _, t, .upsertLicenses sync ((licenseArn, grant) :: rest) =>
    some (t.upsertLicense sync.sub.id licenseArn grant, .upsertLicenses sync rest)
  | .go _, t, .upsertLicenses sync [] =>
    some (t, .deprovision sync (sync.known.filter fun known =>
      known.licenseArn ∉ sync.byLicense.map (·.1) ∧ known.status = .active))
  | .go _, t, .deprovision sync (known :: rest) => some (t.deprovision known.licenseArn, .deprovision sync rest)
  | .go _, t, .deprovision sync [] => some (t, .findActive sync)
  | .go _, t, .findActive sync => some (t, .updateSubscription sync (t.activeLicenses sync.sub))
  | .go _, t, .updateSubscription sync active =>
    some (t.updateSubscription sync.sub.customerAwsAccountId (sync.status active) active,
      .updateOrganization sync.sub.organizationId (sync.status active))
  | .go _, t, .updateOrganization organizationId status => some (t.updateOrganization organizationId status, .done)
  | .meter, t, .idle => some (t, .findSubscribed)
  | .go _, t, .findSubscribed => some (t, .pass t.subscribed)
  | .go _, t, .pass ((sub, licenses) :: rest) =>
    match pickBillingLicense licenses with
    | some billingLicense =>
      some (t, .sumMetered sub billingLicense.licenseArn (t.agents sub.organizationId) (.pass rest))
    | none => some (t, .pass rest)
  | .throws, t, .pass (_ :: rest) => some (t, .pass rest)
  | .go _, t, .pass [] => some (t, .done)
  | .deprovisioned customer licenseArn, t, .idle => some (t, .findEnding customer licenseArn)
  | .go _, t, .findEnding customer licenseArn =>
    match t.findSubscription customer with
    | some sub =>
      if sub.status = .subscribed then some (t, .countEnding sub licenseArn) else some (t, .readSubscription customer)
    | none => some (t, .readSubscription customer)
  | .go _, t, .countEnding sub licenseArn =>
    some (t, .sumMetered sub licenseArn (t.agents sub.organizationId) (.sync sub.customerAwsAccountId))
  | .throws, t, .countEnding sub _ => some (t, .readSubscription sub.customerAwsAccountId)
  | .go now, t, .sumMetered sub licenseArn agentCount after =>
    if (t.chargeOf ⟨sub, licenseArn, agentCount, now⟩).delta ≤ 0 then
      some (t.see ⟨sub, licenseArn, agentCount, now⟩, after.point)
    else
      some (t.see ⟨sub, licenseArn, agentCount, now⟩,
        .createRecord (t.chargeOf ⟨sub, licenseArn, agentCount, now⟩) after)
  | .go now, t, .createRecord charge after =>
    if t.Taken (charge.record t.records.length now) then some (t, after.point)
    else some (t.createRecord (charge.record t.records.length now), .meterUsage t.records.length after)
  | .metered meteringRecordId, t, .meterUsage id after => some (t, .stampRecord id meteringRecordId after)
  | .throws, t, .meterUsage _ after => some (t, after.point)
  | .go _, t, .stampRecord id meteringRecordId after => some (t.stampRecord id meteringRecordId, after.point)
  | _, _, _ => none

/-- The tables and the calls on them. -/
abbrev World := Calls.World Tables Point

/-- A call goes on. -/
abbrev step : World → ℕ × Choice → Option World := Calls.step exec

/-- Nobody has registered. -/
def initial (plans : ℕ → PlanStatus) (agents : ℕ → ℕ) : World := ⟨⟨[], [], [], plans, agents, []⟩, fun _ => .idle⟩

namespace MeteredRecord

/-- A record bills an agent slot. -/
def Bills (record : MeteredRecord) (slot : ℤ) : Prop :=
  record.quantityOrdinal ≤ slot ∧ slot < record.quantityOrdinal + record.quantity

/-- By the dates that a record was billed under, its contract year still runs at a moment. -/
def StillRuns (record : MeteredRecord) (now : CivilDate) : Prop :=
  currentContractYearStart record.pass.sub.dates now = record.contractYearStart

/-- A moment is less than twelve months after a record was billed. -/
def WithinTwelveMonths (record : MeteredRecord) (now : CivilDate) : Prop :=
  now < record.usageTimestamp.setFullYear (record.usageTimestamp.year + 1)

/-- A record of the last twelve months, of the same organization, whose contract year would still run if the dates had
not changed, but is not the year that is billed now. -/
def LeftBehind (old : MeteredRecord) (pass : Pass) (usageTimestamp : CivilDate) : Prop :=
  old.organizationId = pass.sub.organizationId ∧ old.WithinTwelveMonths usageTimestamp ∧ old.StillRuns pass.now ∧
    old.contractYearStart ≠ pass.contractYearStart

instance (old : MeteredRecord) (pass : Pass) (usageTimestamp : CivilDate) :
    Decidable (old.LeftBehind pass usageTimestamp) := by
  unfold LeftBehind WithinTwelveMonths StillRuns
  infer_instance

/-- A record bills an agent slot again because the dates of the contracts changed. -/
def BillsAgain (record old : MeteredRecord) : Prop :=
  old.LeftBehind record.pass record.usageTimestamp ∧ ∃ slot, old.Bills slot ∧ record.Bills slot

end MeteredRecord

/-- Overage is billed once: what is metered for a contract year is at most the largest overage that a pass of the year
saw, no slot is billed again because the dates changed, and every pass took a year that now is of. -/
structure Tables.BilledOnce (t : Tables) : Prop where
  bounded : ∀ organizationId start, t.metered organizationId start = 0 ∨ ∃ pass ∈ t.passes,
    pass.sub.organizationId = organizationId ∧ pass.contractYearStart = start ∧
      t.metered organizationId start ≤ pass.overage
  once : t.records.Pairwise fun record old => ¬ record.BillsAgain old
  placed : ∀ pass ∈ t.passes, InYear pass.contractYearStart pass.now

/-- A call is to create a record of the contract year of a pass, and has counted other entitled agents for it. -/
def Pass.contested (pass : Pass) : Point → Bool
  | .createRecord charge _ =>
    charge.pass.sub.organizationId = pass.sub.organizationId && (charge.pass.contractYearStart = pass.contractYearStart &&
      charge.pass.sub.entitledAgents ≠ pass.sub.entitledAgents)
  | _ => false

/-- Where a pass takes the contract year, an expiry is known or the registration is of the last year, and no other pass
is to create a record of that year under other entitled agents; where it creates its record, none is left behind. -/
def Settled (free : (Point → Bool) → Prop) (c : Choice) (t : Tables) (p : Point) : Prop :=
  match c, p with
  | .go now, .sumMetered sub licenseArn agentCount _ =>
    (sub.contractExpiresAt = none → InYear sub.createdAt now) ∧ free (Pass.contested ⟨sub, licenseArn, agentCount, now⟩)
  | .go now, .createRecord charge _ => ∀ old ∈ t.records, ¬ old.LeftBehind charge.pass now
  | _, _ => True

instance (free : (Point → Bool) → Prop) [DecidablePred free] (c : Choice) (t : Tables) (p : Point) :
    Decidable (Settled free c t p) := by
  unfold Settled
  split <;> infer_instance

/-- A step meets it. -/
def StepSettled (w : World) (e : ℕ × Choice) : Prop := Settled (Calls.Free w) e.2 w.db (w.calls e.1)

end Onecli.Billing
