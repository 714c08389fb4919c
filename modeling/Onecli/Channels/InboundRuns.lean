import Onecli.Foundation.Calls
import Mathlib.Algebra.Group.Nat.Defs
import Mathlib.Data.List.MinMax

/-!
# The inbox of channel events

`inbound-event-service.ts` on the rows of `channel_inbound_events`: an event is accepted and processed off its request,
or found by a recovery pass of any replica. Every statement is atomic, a call may die at any point, and time passes by
choice. A renewal comes whenever the run is at work. What the provider's dispatch answers is a choice: it returns, it
throws `EventInFlightError`, or it throws otherwise.

Of a row, whether a run of it finished and how many of its runs began to dispatch it and then died or failed otherwise
than by `EventInFlightError` is kept beside it, and of a run until when its lease holds; so are the rows that were
deleted. No statement reads them.
-/

namespace Onecli.Channels.InboundEvent

/-- `MAX_ATTEMPTS`. -/
def MAX_ATTEMPTS : ℕ := 5

/-- `retryDelayMs`. -/
def retryDelayMs (attempts : ℕ) : ℕ := 30000 * 2 ^ (attempts - 1)

/-- `RETENTION_MS`. -/
def RETENTION_MS : ℕ := 24 * 60 * 60 * 1000

/-- `MAX_IN_FLIGHT`. -/
def MAX_IN_FLIGHT : ℕ := 32

/-- `RECOVERY_BATCH`. -/
def RECOVERY_BATCH : ℕ := 25

/-- `LEASE_MS`. -/
def LEASE_MS : ℕ := 2 * 60 * 1000

/-- `claimToken` and `claimExpiresAt` of a row, which are set and cleared together. -/
structure Lease where
  claimToken : ℕ
  claimExpiresAt : ℕ

/-- A row of `channel_inbound_events`. -/
structure Row where
  agentChannelId : ℕ
  eventId : ℕ
  attempts : ℕ
  nextAttemptAt : ℕ
  lease : Option Lease
  expiresAt : ℕ
  finished : Bool
  spent : ℕ

/-- A row that was deleted, and when. -/
structure Deletion where
  row : Row
  at_ : ℕ

/-- The rows, the clock and the detached runs of every replica; and what was deleted. -/
structure Tables where
  rows : ℕ → Option Row
  minted : ℕ
  tokens : ℕ
  now : ℕ
  inFlight : ℕ → ℕ
  deletions : List Deletion

/-- `InboundClaim`, and until when the lease of its run holds. -/
structure InboundClaim where
  id : ℕ
  claimToken : ℕ
  holds : ℕ
  deriving DecidableEq

/-- What a run is part of: detached on a replica, or a recovery pass with so many rows left. -/
inductive Origin where
  | detached (replica : ℕ)
  | pass (left : ℕ)
  deriving DecidableEq

/-- Where a call stands: at the statement that is next, or at its end. -/
inductive Point where
  | idle
  | create (replica agentChannelId eventId : ℕ)
  | detach (replica : ℕ) (claim : InboundClaim)
  | release (claim : InboundClaim)
  | dropExhausted
  | claimNext (left : ℕ)
  | findClaimed (origin : Origin) (claim : InboundClaim)
  | dispatch (origin : Origin) (claim : InboundClaim) (attempts : ℕ)
  | deleteFinished (origin : Origin) (claim : InboundClaim)
  | retryOrDrop (origin : Origin) (claim : InboundClaim) (attempts : ℕ)
  | done
  deriving DecidableEq

/-- What a step chooses: an event or a pass arrives, a call goes on or dies, a lease is renewed, a dispatch ends, or time
passes. -/
inductive Choice where
  | accept (replica agentChannelId eventId : ℕ)
  | recover
  | go
  | renew
  | finishes
  | inFlightElsewhere
  | fails
  | dies
  | wait (ms : ℕ)
  deriving DecidableEq

/-- The lease of a row lapsed, or it has none. -/
def Row.unclaimed (row : Row) (now : ℕ) : Bool := row.lease.all fun lease => lease.claimExpiresAt < now

namespace Tables

/-- A row is written. -/
def modify (t : Tables) (id : ℕ) (change : Row → Row) : Tables :=
  { t with rows := Function.update t.rows id ((t.rows id).map change) }

/-- A row is deleted. -/
def delete (t : Tables) (id : ℕ) : Tables :=
  { t with
    rows := Function.update t.rows id none
    deletions := (t.rows id).toList.map (Deletion.mk · t.now) ++ t.deletions }

/-- `fence`: the row of a claim has its token. -/
def fenced (t : Tables) (claim : InboundClaim) : Bool :=
  (t.rows claim.id).any fun row => row.lease.any fun lease => lease.claimToken = claim.claimToken

/-- An event is in the inbox. -/
def hasEvent (t : Tables) (agentChannelId eventId : ℕ) : Bool :=
  (List.range t.minted).any fun id => (t.rows id).any fun row =>
    row.agentChannelId = agentChannelId && row.eventId = eventId

/-- `db.channelInboundEvent.create`, with its claim. -/
def create (t : Tables) (agentChannelId eventId : ℕ) : Tables :=
  { t with
    rows := Function.update t.rows t.minted (some ⟨agentChannelId, eventId, 1, t.now,
      some ⟨t.tokens, t.now + LEASE_MS⟩, t.now + RETENTION_MS, false, 0⟩)
    minted := t.minted + 1
    tokens := t.tokens + 1 }

/-- `releaseClaim`. -/
def release (t : Tables) (claim : InboundClaim) : Tables :=
  if t.fenced claim then t.modify claim.id fun row => { row with lease := none } else t

/-- The lease is renewed. -/
def renew (t : Tables) (claim : InboundClaim) : Tables :=
  t.modify claim.id fun row => { row with lease := some ⟨claim.claimToken, t.now + LEASE_MS⟩ }

/-- The rows that the recovery pass may claim. -/
def claimable (t : Tables) (row : Row) : Bool :=
  row.nextAttemptAt ≤ t.now && (t.now < row.expiresAt && (row.attempts < MAX_ATTEMPTS && row.unclaimed t.now))

/-- The row that the recovery pass claims. -/
def candidate (t : Tables) : Option ℕ :=
  ((List.range t.minted).filter fun id => (t.rows id).any t.claimable).argmin fun id =>
    (t.rows id).elim 0 (·.nextAttemptAt)

/-- The recovery pass claims a row. -/
def claim (t : Tables) (id : ℕ) : Tables :=
  { t.modify id fun row =>
      { row with lease := some ⟨t.tokens, t.now + LEASE_MS⟩, attempts := row.attempts + 1 } with
    tokens := t.tokens + 1 }

/-- A row that the recovery pass drops. -/
def exhausted (t : Tables) (row : Row) : Bool :=
  (row.expiresAt ≤ t.now || MAX_ATTEMPTS ≤ row.attempts) && row.unclaimed t.now

/-- The recovery pass drops the expired and exhausted rows. -/
def dropExhausted (t : Tables) : Tables :=
  { t with
    rows := fun id => (t.rows id).filter fun row => !t.exhausted row
    deletions := (((List.range t.minted).filterMap t.rows).filter t.exhausted).map (Deletion.mk · t.now) ++ t.deletions }

/-- The row of a claim that is held. -/
def findClaimed (t : Tables) (claim : InboundClaim) : Option Row :=
  (t.rows claim.id).filter fun row =>
    row.lease.any fun lease => lease.claimToken = claim.claimToken && t.now < lease.claimExpiresAt

/-- A run of a row finished. -/
def finish (t : Tables) (claim : InboundClaim) : Tables := t.modify claim.id fun row => { row with finished := true }

/-- A run of a row that had begun to dispatch it died or failed. -/
def spend (t : Tables) (claim : InboundClaim) : Tables :=
  t.modify claim.id fun row => { row with spent := row.spent + 1 }

/-- A run deletes the row of its claim. -/
def deleteFenced (t : Tables) (claim : InboundClaim) : Tables := if t.fenced claim then t.delete claim.id else t

/-- A run reschedules the row of its claim. -/
def reschedule (t : Tables) (claim : InboundClaim) (attempts : ℕ) : Tables :=
  if t.fenced claim then
    t.modify claim.id fun row => { row with lease := none, nextAttemptAt := t.now + retryDelayMs attempts }
  else t

/-- A detached run starts. -/
def enter (t : Tables) (replica : ℕ) : Tables :=
  { t with inFlight := Function.update t.inFlight replica (t.inFlight replica + 1) }

/-- A run ends, which is one less in flight when it is detached. -/
def leave (t : Tables) : Origin → Tables
  | .detached replica => { t with inFlight := Function.update t.inFlight replica (t.inFlight replica - 1) }
  | .pass _ => t

/-- Time passes. -/
def wait (t : Tables) (ms : ℕ) : Tables := { t with now := t.now + ms }

end Tables

/-- Where a call goes on when its run ended. -/
def Origin.next : Origin → Point
  | .detached _ => .done
  | .pass left => .claimNext left

/-- A statement of a call. -/
def exec : Calls.Exec Tables Point Choice
  | .wait ms, t, p => some (t.wait ms, p)
  | .dies, t, .dispatch _ claim _ => some (t.spend claim, .done)
  | .dies, t, _ => some (t, .done)
  | .accept replica agentChannelId eventId, t, .idle => some (t, .create replica agentChannelId eventId)
  | .go, t, .create replica agentChannelId eventId =>
    if t.hasEvent agentChannelId eventId then some (t, .done)
    else some (t.create agentChannelId eventId, .detach replica ⟨t.minted, t.tokens, t.now + LEASE_MS⟩)
  | .go, t, .detach replica claim =>
    if MAX_IN_FLIGHT ≤ t.inFlight replica then some (t, .release claim)
    else some (t.enter replica, .findClaimed (.detached replica) claim)
  | .go, t, .release claim => some (t.release claim, .done)
  | .recover, t, .idle => some (t, .dropExhausted)
  | .go, t, .dropExhausted => some (t.dropExhausted, .claimNext RECOVERY_BATCH)
  | .go, t, .claimNext 0 => some (t, .done)
  | .go, t, .claimNext (left + 1) =>
    match t.candidate with
    | none => some (t, .done)
    | some id => some (t.claim id, .findClaimed (.pass left) ⟨id, t.tokens, t.now + LEASE_MS⟩)
  | .go, t, .findClaimed origin claim =>
    match t.findClaimed claim with
    | none => some (t.leave origin, origin.next)
    | some row => some (t, .dispatch origin claim row.attempts)
  | .renew, t, .dispatch origin claim attempts =>
    if t.fenced claim then some (t.renew claim, .dispatch origin { claim with holds := t.now + LEASE_MS } attempts)
    else some (t, .dispatch origin claim attempts)
  | .finishes, t, .dispatch origin claim _ => some (t.finish claim, .deleteFinished origin claim)
  | .inFlightElsewhere, t, .dispatch origin claim attempts => some (t, .retryOrDrop origin claim attempts)
  | .fails, t, .dispatch origin claim attempts => some (t.spend claim, .retryOrDrop origin claim attempts)
  | .go, t, .deleteFinished origin claim => some ((t.deleteFenced claim).leave origin, origin.next)
  | .go, t, .retryOrDrop origin claim attempts =>
    some ((if MAX_ATTEMPTS ≤ attempts then t.deleteFenced claim else t.reschedule claim attempts).leave origin, origin.next)
  | _, _, _ => none

/-- The inbox and the calls on it. -/
abbrev World := Calls.World Tables Point

/-- A call goes on. -/
abbrev step : World → ℕ × Choice → Option World := Calls.step exec

/-- An empty inbox. -/
def initial (now : ℕ) : World := ⟨⟨fun _ => none, 0, 0, now, fun _ => 0, []⟩, fun _ => .idle⟩

/-- The claim of a run. -/
def Point.claim : Point → Option InboundClaim
  | .detach _ claim | .release claim | .findClaimed _ claim | .dispatch _ claim _ | .deleteFinished _ claim
  | .retryOrDrop _ claim _ => some claim
  | _ => none

/-- A row that may be deleted: a run of it finished, its retention ended, or so many of its runs as the attempts began to
dispatch it and died or failed. -/
def Row.tried (row : Row) (now : ℕ) : Prop := row.finished = true ∨ row.expiresAt ≤ now ∨ MAX_ATTEMPTS ≤ row.spent

namespace World

/-- Every row that was deleted was tried. -/
def DropsTried (w : World) : Prop := ∀ deletion ∈ w.db.deletions, deletion.row.tried deletion.at_

/-- No two runs hold claims of one row that have not expired. -/
def OneClaim (w : World) : Prop :=
  ∀ i j a b, (w.calls i).claim = some a → (w.calls j).claim = some b → a.id = b.id → w.db.now ≤ a.holds →
    w.db.now ≤ b.holds → i = j

/-- A run whose claim was taken over leaves the row as it is for whoever has it, except for what is kept beside it. -/
def Fenced (w : World) (e : ℕ × Choice) (w' : World) : Prop :=
  ∀ claim, (w.calls e.1).claim = some claim → w.db.fenced claim = false →
    (w'.db.rows claim.id).map (fun row => (row.attempts, row.nextAttemptAt, row.lease)) =
      (w.db.rows claim.id).map fun row => (row.attempts, row.nextAttemptAt, row.lease)

end World

/-- All attempts of a row were spent by runs that began to dispatch it and died or failed, or it may be deleted
otherwise. -/
def Row.spentAll (row : Row) (now : ℕ) : Prop := row.finished = true ∨ row.expiresAt ≤ now ∨ row.attempts ≤ row.spent

/-- Where a row is deleted for its attempts, they were all spent. -/
def SpentAll (c : Choice) (t : Tables) (p : Point) : Prop :=
  match c, p with
  | .go, .dropExhausted => ∀ id < t.minted, ∀ row ∈ t.rows id, t.exhausted row = true → row.spentAll t.now
  | .go, .retryOrDrop _ claim attempts =>
    MAX_ATTEMPTS ≤ attempts → t.fenced claim = true → ∀ row ∈ t.rows claim.id, row.spentAll t.now
  | _, _ => True

/-- The claim of a run that has not dispatched yet, or is dispatching. -/
def Point.live : Point → Option InboundClaim
  | .detach _ claim | .findClaimed _ claim | .dispatch _ claim _ => some claim
  | _ => none

/-- No lease lapses while its run is live; no run is deferred by the in-flight bound, or dies before it dispatches; and
no dispatch finds the event held by another run. -/
def Prompt (free : (Point → Bool) → Prop) (c : Choice) (t : Tables) (p : Point) : Prop :=
  match c, p with
  | .wait ms, _ => free fun p => p.live.any fun claim => claim.holds ≤ t.now + ms
  | .go, .detach replica _ => t.inFlight replica < MAX_IN_FLIGHT
  | .dies, .detach _ _ | .dies, .findClaimed _ _ | .inFlightElsewhere, .dispatch _ _ _ => False
  | _, _ => True

instance (free : (Point → Bool) → Prop) [DecidablePred free] (c : Choice) (t : Tables) (p : Point) :
    Decidable (Prompt free c t p) := by
  unfold Prompt
  split
  all_goals infer_instance

/-- A step comes in time for the runs that are live. -/
def RunsOn (w : World) (e : ℕ × Choice) : Prop := Prompt (Calls.Free w) e.2 w.db (w.calls e.1)

/-! ## No accepted event is dropped untried

A claim is fenced by its token, and only a lapsed one is taken over: no two runs hold a row, and one that lost it
leaves it. The counter that decides when a row is dropped is advanced by the accept and by every claim, whatever
becomes of their runs. Where every run dispatches in time, it is ahead of the runs that died or failed by the live run
only, whose lease keeps the row from being dropped.
-/

open Function (update_apply update_of_ne update_self)
open List Option Bool Nat Runs

namespace Tables

variable {t t' : Tables}

/-- The rows of the inbox. -/
structure Sound (t : Tables) : Prop where
  fresh : ∀ id, t.minted ≤ id → t.rows id = none
  tokens : ∀ id row lease, t.rows id = some row → row.lease = some lease → lease.claimToken < t.tokens
  attempts : ∀ id row, t.rows id = some row → row.attempts ≤ MAX_ATTEMPTS

/-- The rows that were deleted were tried. -/
def DropsTried (t : Tables) : Prop := ∀ deletion ∈ t.deletions, deletion.row.tried deletion.at_

theorem Sound.lt_minted (h : t.Sound) {id : ℕ} {row : Row} (hrow : t.rows id = some row) : id < t.minted := by
  by_contra hle
  rw [h.fresh id (Nat.le_of_not_lt hle)] at hrow
  cases hrow

/-- A claim is fenced by its lease's token. -/
theorem fenced_iff (claim : InboundClaim) : t.fenced claim = true ↔
    ∃ row lease, t.rows claim.id = some row ∧ row.lease = some lease ∧ lease.claimToken = claim.claimToken := by
  rw [fenced, Option.any_eq_true]
  constructor
  · rintro ⟨row, hrow, hlease⟩
    obtain ⟨lease, hlease, htoken⟩ := (Option.any_eq_true ..).mp hlease
    exact ⟨row, lease, hrow, hlease, of_decide_eq_true htoken⟩
  · rintro ⟨row, lease, hrow, hlease, htoken⟩
    refine ⟨row, hrow, (Option.any_eq_true ..).mpr ⟨lease, hlease, decide_eq_true htoken⟩⟩

/-- A row after a change. -/
theorem modify_rows (t : Tables) (id : ℕ) (change : Row → Row) (other : ℕ) :
    (t.modify id change).rows other = if other = id then (t.rows id).map change else t.rows other :=
  update_apply ..

/-- A row was changed, or is as before. -/
theorem modify_cases {id : ℕ} {change : Row → Row} {other : ℕ} {row' : Row}
    (h : (t.modify id change).rows other = some row') :
    (other = id ∧ ∃ row, t.rows id = some row ∧ row' = change row) ∨ (other ≠ id ∧ t.rows other = some row') := by
  rw [modify_rows] at h
  split at h
  · rename_i hother
    obtain ⟨row, hrow, hchange⟩ := map_eq_some_iff.mp h
    exact .inl ⟨hother, row, hrow, hchange.symm⟩
  · rename_i hother
    exact .inr ⟨hother, h⟩

end Tables

open Tables

/-- What is known of a claim: its token was given out, and while its lease holds, the row has it. -/
structure ClaimKnown (t : Tables) (claim : InboundClaim) : Prop where
  token : claim.claimToken < t.tokens
  id : claim.id < t.minted
  holds : t.now ≤ claim.holds → ∃ row, t.rows claim.id = some row ∧ row.lease = some ⟨claim.claimToken, claim.holds⟩

/-- What a run knows of its row besides: it has no fewer attempts than were read, or a run of it finished. -/
def RowKnown (t : Tables) : Point → Prop
  | .dispatch _ claim attempts | .retryOrDrop _ claim attempts =>
    ∀ row, t.rows claim.id = some row → attempts ≤ row.attempts
  | .deleteFinished _ claim => ∀ row, t.rows claim.id = some row → row.finished = true
  | _ => True

/-- What a call knows. -/
def Knows (t : Tables) (p : Point) : Prop := (∀ claim, p.claim = some claim → ClaimKnown t claim) ∧ RowKnown t p

/-- Two calls hold claims of different tokens. -/
def Apart (p q : Point) : Prop := ∀ a b, p.claim = some a → q.claim = some b → a.claimToken ≠ b.claimToken

theorem Apart.symm {p q : Point} (h : Apart p q) : Apart q p := fun a b ha hb => (h b a hb ha).symm

variable {t t' : Tables} {p p' q : Point} {c : Choice}

/-- What a statement does: counters only grow, so do the attempts and what finished, a lease that holds is left to
whoever has it, and so is the row of a claim that was taken over. -/
structure Evolves (t : Tables) (p : Point) (t' : Tables) : Prop where
  tokens : t.tokens ≤ t'.tokens
  minted : t.minted ≤ t'.minted
  now : t.now ≤ t'.now
  rows : ∀ id < t.minted, ∀ row', t'.rows id = some row' → ∃ row, t.rows id = some row ∧ row.attempts ≤ row'.attempts ∧
    (row.finished = true → row'.finished = true)
  leases : ∀ id row lease, t.rows id = some row → row.lease = some lease → t.now ≤ lease.claimExpiresAt →
    (∀ own, p.claim = some own → own.claimToken ≠ lease.claimToken) → ∃ row', t'.rows id = some row' ∧ row'.lease = some lease
  fenced : ∀ claim, p.claim = some claim → t.fenced claim = false →
    (t'.rows claim.id).map (fun row => (row.attempts, row.nextAttemptAt, row.lease)) =
      (t.rows claim.id).map fun row => (row.attempts, row.nextAttemptAt, row.lease)

/-- What a call knows stays true of apart rows. -/
theorem Knows.evolves (h : Knows t q) (hevolves : Evolves t p t') (hapart : Apart p q) : Knows t' q := by
  constructor
  · intro claim hclaim
    have hknown := h.1 claim hclaim
    refine ⟨hknown.token.trans_le hevolves.tokens, hknown.id.trans_le hevolves.minted, fun hholds => ?_⟩
    obtain ⟨row, hrow, hlease⟩ := hknown.holds (hevolves.now.trans hholds)
    exact hevolves.leases claim.id row _ hrow hlease (hevolves.now.trans hholds) fun own hown => hapart own claim hown hclaim
  · have hrow := h.2
    cases q with
    | dispatch origin claim attempts | retryOrDrop origin claim attempts =>
      intro row' hrow'
      obtain ⟨row, hrow₀, hle, -⟩ := hevolves.rows claim.id (h.1 claim rfl).id row' hrow'
      exact (hrow row hrow₀).trans hle
    | deleteFinished origin claim =>
      intro row' hrow'
      obtain ⟨row, hrow₀, -, hfinished⟩ := hevolves.rows claim.id (h.1 claim rfl).id row' hrow'
      exact hfinished (hrow row hrow₀)
    | _ => trivial

/-- A statement with what it keeps: the inbox is sound, its call knows what it did, it goes on with its token or a new
one, and what was dropped was tried exactly where the attempts were spent. -/
structure Advances (c : Choice) (t : Tables) (p : Point) (t' : Tables) (p' : Point) : Prop where
  evolves : Evolves t p t'
  sound : t'.Sound
  knows : Knows t' p'
  token : ∀ claim', p'.claim = some claim' →
    (∃ claim, p.claim = some claim ∧ claim.claimToken = claim'.claimToken) ∨ t.tokens ≤ claim'.claimToken
  drops : t.DropsTried → (t'.DropsTried ↔ SpentAll c t p)

/-- Rows that stay evolve. -/
theorem Evolves.of_rows_eq (hrows : t'.rows = t.rows) (htokens : t'.tokens = t.tokens) (hminted : t'.minted = t.minted)
    (hnow : t.now ≤ t'.now) : Evolves t p t' where
  tokens := htokens.ge
  minted := hminted.ge
  now := hnow
  rows := fun id _ row' hrow' => ⟨row', hrows ▸ hrow', le_rfl, fun h => h⟩
  leases := fun id row lease hrow hlease _ _ => ⟨row, hrows ▸ hrow, hlease⟩
  fenced := fun claim _ _ => by rw [hrows]

/-- Without a claim nothing is known. -/
theorem knows_of_claim_none (h : p'.claim = none) : Knows t p' := by
  refine ⟨fun claim hclaim => ?_, ?_⟩
  · rw [h] at hclaim
    cases hclaim
  · cases p' with
    | dispatch origin claim attempts | retryOrDrop origin claim attempts | deleteFinished origin claim => cases h
    | _ => trivial

theorem Advances.read {u : Tables} {q : Point} (hexec : some (u, q) = some (t', p')) (hsound : t.Sound)
    (hsame : (u.rows, u.tokens, u.minted, u.now, u.deletions) = (t.rows, t.tokens, t.minted, t.now, t.deletions))
    (hclaim : q.claim = none ∨ q.claim = p.claim ∧ Knows u q) (hspent : SpentAll c t p) : Advances c t p t' p' := by
  obtain ⟨rfl, rfl⟩ := Prod.mk.inj (some.inj hexec)
  have hrows : u.rows = t.rows := congrArg (·.1) hsame
  have htokens : u.tokens = t.tokens := congrArg (·.2.1) hsame
  have hminted : u.minted = t.minted := congrArg (·.2.2.1) hsame
  have hnow : u.now = t.now := congrArg (·.2.2.2.1) hsame
  have hdeletions : u.deletions = t.deletions := congrArg (·.2.2.2.2) hsame
  refine ⟨.of_rows_eq hrows htokens hminted hnow.ge,
    ⟨fun id hle => ?_, fun id row lease hrow hlease => ?_, fun id row hrow => ?_⟩, ?_, fun claim' hclaim' => ?_, fun h => ?_⟩
  · rw [hrows]
    exact hsound.fresh id (hminted ▸ hle)
  · rw [htokens]
    exact hsound.tokens id row lease (hrows ▸ hrow) hlease
  · exact hsound.attempts id row (hrows ▸ hrow)
  · rcases hclaim with hnone | ⟨-, hknows⟩
    · exact knows_of_claim_none hnone
    · exact hknows
  · rcases hclaim with hnone | ⟨hsame, -⟩
    · rw [hnone] at hclaim'
      cases hclaim'
    · exact .inl ⟨claim', hsame ▸ hclaim', rfl⟩
  · rw [DropsTried, hdeletions]
    exact iff_of_true h hspent

theorem Advances.leave (h : Advances c t p t' p') (origin : Origin) : Advances c t p (t'.leave origin) p' := by
  cases origin with
  | detached =>
    exact ⟨⟨h.evolves.tokens, h.evolves.minted, h.evolves.now, h.evolves.rows, h.evolves.leases, h.evolves.fenced⟩,
      ⟨h.sound.fresh, h.sound.tokens, h.sound.attempts⟩,
      h.knows.evolves (p := .idle) (Evolves.of_rows_eq rfl rfl rfl le_rfl) (fun _ _ ha => by cases ha), h.token, h.drops⟩
  | pass => exact h

variable {change : Row → Row}

/-- A row whose attempts do not fall evolves. -/
theorem Evolves.modify {id : ℕ} (hattempts : ∀ row, row.attempts ≤ (change row).attempts)
    (hfinished : ∀ row, row.finished = true → (change row).finished = true)
    (hleases : ∀ row lease, t.rows id = some row → row.lease = some lease → t.now ≤ lease.claimExpiresAt → (∀ own, p.claim = some own → own.claimToken ≠ lease.claimToken) → (change row).lease = some lease)
    (hfenced : ∀ claim row, p.claim = some claim → claim.id = id → t.fenced claim = false → t.rows id = some row → ((change row).attempts, (change row).nextAttemptAt, (change row).lease) = (row.attempts, row.nextAttemptAt, row.lease)) :
    Evolves t p (t.modify id change) where
  tokens := le_rfl
  minted := le_rfl
  now := le_rfl
  rows := by
    intro other _ row' hrow'
    rcases modify_cases hrow' with ⟨rfl, row, hrow, rfl⟩ | ⟨-, hrow⟩
    · exact ⟨row, hrow, hattempts row, hfinished row⟩
    · exact ⟨row', hrow, le_rfl, fun h => h⟩
  leases := by
    intro other row lease hrow hlease hholds hown
    rw [modify_rows]
    split
    · rename_i hother
      subst hother
      exact ⟨change row, by rw [hrow]; rfl, hleases row lease hrow hlease hholds hown⟩
    · exact ⟨row, hrow, hlease⟩
  fenced := by
    intro claim hclaim hnot
    rw [modify_rows]
    split
    · rename_i hid
      rw [hid]
      cases hrow : t.rows id with
      | none => rfl
      | some row => exact congrArg some (hfenced claim row hclaim hid hnot hrow)
    · rfl

/-- A change below the cap keeps the inbox sound. -/
theorem Tables.Sound.modify (h : t.Sound) {id : ℕ}
    (hlease : ∀ row lease, t.rows id = some row → (change row).lease = some lease → lease.claimToken < t.tokens)
    (hattempts : ∀ row, t.rows id = some row → (change row).attempts ≤ MAX_ATTEMPTS) : (t.modify id change).Sound where
  fresh := by
    intro other hle
    have hnone := h.fresh other hle
    rw [modify_rows]
    split
    · rename_i hother
      rw [hother] at hnone
      rw [hnone]
      rfl
    · exact hnone
  tokens := by
    intro other row' lease hrow' hlease'
    rcases modify_cases hrow' with ⟨-, row, hrow, rfl⟩ | ⟨-, hrow⟩
    · exact hlease row lease hrow hlease'
    · exact h.tokens other row' lease hrow hlease'
  attempts := by
    intro other row' hrow'
    rcases modify_cases hrow' with ⟨-, row, hrow, rfl⟩ | ⟨-, hrow⟩
    · exact hattempts row hrow
    · exact h.attempts other row' hrow

theorem Advances.mark (hsound : t.Sound) (h : Knows t p) {claim : InboundClaim} (hclaim : p.claim = some claim)
    (hsame : ∀ row, ((change row).attempts, (change row).nextAttemptAt, (change row).lease) = (row.attempts, row.nextAttemptAt, row.lease))
    (hfinished : ∀ row, row.finished = true → (change row).finished = true)
    (hclaim' : p'.claim = none ∨ p'.claim = some claim) (hrow : RowKnown (t.modify claim.id change) p')
    (hspent : SpentAll c t p) : Advances c t p (t.modify claim.id change) p' := by
  have hattempts (row : Row) : (change row).attempts = row.attempts := congrArg (·.1) (hsame row)
  have hlease (row : Row) : (change row).lease = row.lease := congrArg (·.2.2) (hsame row)
  have hevolves {r : Point} : Evolves t r (t.modify claim.id change) :=
    .modify (fun row => (hattempts row).ge) hfinished
      (fun row lease _ hrow _ _ => (hlease row).trans hrow) fun _ row _ _ _ _ => hsame row
  have hknown := h.1 claim hclaim
  refine ⟨hevolves, hsound.modify (fun row lease hrow hl => ?_) (fun row hrow => ?_), ⟨fun other hother => ?_, hrow⟩,
    fun other hother => ?_, fun h => iff_of_true h hspent⟩
  · exact hsound.tokens claim.id row lease hrow ((hlease row).symm.trans hl)
  · rw [hattempts]
    exact hsound.attempts claim.id row hrow
  · rcases hclaim' with hnone | hsome
    · rw [hnone] at hother
      cases hother
    · cases hsome.symm.trans hother
      refine ⟨hknown.token, hknown.id, fun hholds => ?_⟩
      obtain ⟨row, hrow, hl⟩ := hknown.holds hholds
      refine ⟨change row, ?_, (hlease row).trans hl⟩
      rw [modify_rows, if_pos rfl, hrow]
      rfl
  · rcases hclaim' with hnone | hsome
    · rw [hnone] at hother
      cases hother
    · cases hsome.symm.trans hother
      exact .inl ⟨_, hclaim, rfl⟩

theorem Advances.giveUp (hsound : t.Sound) {claim : InboundClaim} (hclaim : p.claim = some claim)
    (hfenced : t.fenced claim = true) (hattempts : ∀ row, (change row).attempts = row.attempts)
    (hfinished : ∀ row, (change row).finished = row.finished) (hlease : ∀ row, (change row).lease = none)
    (hclaim' : p'.claim = none) (hspent : SpentAll c t p) : Advances c t p (t.modify claim.id change) p' := by
  obtain ⟨row₀, lease₀, hrow₀, hlease₀, htoken⟩ := (fenced_iff claim).mp hfenced
  refine ⟨.modify (fun row => (hattempts row).ge) (fun row h => (hfinished row).trans h)
      (fun row lease hrow hl _ hown => ?_) (fun other row hother _ hnot _ => ?_),
    hsound.modify (fun row lease _ hl => ?_) (fun row hrow => ?_), knows_of_claim_none hclaim', fun other hother => ?_,
    fun h => iff_of_true h hspent⟩
  · -- the lease is the run's own
    cases hrow₀.symm.trans hrow
    cases hlease₀.symm.trans hl
    exact absurd htoken.symm (hown claim hclaim)
  · cases hclaim.symm.trans hother
    rw [hfenced] at hnot
    cases hnot
  · rw [hlease] at hl
    cases hl
  · rw [hattempts]
    exact hsound.attempts claim.id row hrow
  · rw [hclaim'] at hother
    cases hother

theorem Advances.renew (hsound : t.Sound) {origin : Origin} {claim : InboundClaim} {attempts : ℕ}
    (h : Knows t (.dispatch origin claim attempts)) (hfenced : t.fenced claim = true) :
    Advances .renew t (.dispatch origin claim attempts) (t.renew claim)
      (.dispatch origin { claim with holds := t.now + LEASE_MS } attempts) := by
  obtain ⟨row₀, lease₀, hrow₀, hlease₀, htoken⟩ := (fenced_iff claim).mp hfenced
  have hknown := h.1 claim rfl
  refine ⟨.modify (fun _ => le_rfl) (fun _ h => h) (fun row lease hrow hl _ hown => ?_)
      (fun other row hother _ hnot _ => ?_),
    hsound.modify (fun row lease _ hl => ?_) (fun row hrow => hsound.attempts claim.id row hrow), ⟨fun other hother => ?_,
      fun row' hrow' => ?_⟩, fun other hother => ?_, fun h => iff_of_true h trivial⟩
  · cases hrow₀.symm.trans hrow
    cases hlease₀.symm.trans hl
    exact absurd htoken.symm (hown claim rfl)
  · cases hother
    rw [hfenced] at hnot
    cases hnot
  · rw [← some.inj hl]
    exact hknown.token
  · cases hother
    refine ⟨hknown.token, hknown.id, fun _ =>
      ⟨{ row₀ with lease := some ⟨claim.claimToken, t.now + LEASE_MS⟩ }, ?_, rfl⟩⟩
    exact (modify_rows ..).trans ((if_pos rfl).trans (congrArg (Option.map _) hrow₀))
  · rcases modify_cases hrow' with ⟨-, row, hrow, rfl⟩ | ⟨hne, -⟩
    · exact h.2 row hrow
    · exact absurd rfl hne
  · cases hother
    exact .inl ⟨claim, rfl, rfl⟩

theorem Row.tried_iff {row : Row} {now : ℕ} (hexhausted : row.expiresAt ≤ now ∨ MAX_ATTEMPTS ≤ row.attempts)
    (hattempts : row.attempts ≤ MAX_ATTEMPTS) : row.tried now ↔ row.spentAll now := by
  constructor
  · rintro (hfinished | hexpired | hspent)
    · exact .inl hfinished
    · exact .inr (.inl hexpired)
    · exact .inr (.inr (hattempts.trans hspent))
  · rintro (hfinished | hexpired | hspent)
    · exact .inl hfinished
    · exact .inr (.inl hexpired)
    · rcases hexhausted with hexpired | hmax
      · exact .inr (.inl hexpired)
      · exact .inr (.inr (hmax.trans hspent))

section

variable (hsound : t.Sound)
include hsound

theorem Advances.delete {claim : InboundClaim} (hclaim : p.claim = some claim) (hfenced : t.fenced claim = true)
    (hclaim' : p'.claim = none) (hspent : (∀ row, t.rows claim.id = some row → row.tried t.now) ↔ SpentAll c t p) :
    Advances c t p (t.delete claim.id) p' := by
  obtain ⟨row₀, lease₀, hrow₀, hlease₀, htoken⟩ := (fenced_iff claim).mp hfenced
  have hrows {other : ℕ} {row : Row} (h : (t.delete claim.id).rows other = some row) :
      other ≠ claim.id ∧ t.rows other = some row := by
    exact (update_cases h).resolve_left fun h => nomatch h.2
  refine ⟨⟨le_rfl, le_rfl, le_rfl, fun other _ row' hrow' => ⟨row', (hrows hrow').2, le_rfl, fun h => h⟩,
      fun other row lease hrow hl _ hown => ?_, fun other hother hnot => ?_⟩,
    ⟨fun other hle => ?_, fun other row lease hrow hl => hsound.tokens other row lease (hrows hrow).2 hl,
      fun other row hrow => hsound.attempts other row (hrows hrow).2⟩,
    knows_of_claim_none hclaim', fun other hother => ?_, fun h => ?_⟩
  · have hne : other ≠ claim.id := by
      rintro rfl
      cases hrow₀.symm.trans hrow
      cases hlease₀.symm.trans hl
      exact hown claim hclaim htoken.symm
    exact ⟨row, (update_of_ne hne ..).trans hrow, hl⟩
  · cases hclaim.symm.trans hother
    rw [hfenced] at hnot
    cases hnot
  · by_cases hother : other = claim.id
    · rw [Tables.delete, hother]
      exact update_self ..
    · exact (update_of_ne hother ..).trans (hsound.fresh other hle)
  · rw [hclaim'] at hother
    cases hother
  · rw [← hspent]
    constructor
    · intro hdrops row hrow
      refine hdrops ⟨row, t.now⟩ (mem_append_left _ (List.mem_map.mpr ⟨row, ?_, rfl⟩))
      rw [hrow]
      exact mem_singleton_self row
    · intro htried deletion hmem
      rcases mem_append.mp hmem with hnew | hold
      · obtain ⟨row, hrow, rfl⟩ := List.mem_map.mp hnew
        exact htried row (mem_toList.mp hrow)
      · exact h deletion hold

theorem Advances.deleteFenced {claim : InboundClaim} (hclaim : p.claim = some claim) (hclaim' : p'.claim = none)
    (hspent : (t.fenced claim = true → ∀ row, t.rows claim.id = some row → row.tried t.now) ↔ SpentAll c t p) :
    Advances c t p (t.deleteFenced claim) p' := by
  unfold Tables.deleteFenced
  split
  · rename_i hfenced
    refine .delete hsound hclaim hfenced hclaim' ?_
    rw [← hspent]
    exact ⟨fun h _ => h, fun h => h hfenced⟩
  · rename_i hnot
    exact .read rfl hsound rfl (.inl hclaim') (hspent.mp fun hfenced => absurd hfenced hnot)

theorem Advances.dropExhausted : Advances .go t .dropExhausted t.dropExhausted (.claimNext RECOVERY_BATCH) := by
  have hrows {id : ℕ} {row : Row} (h : t.dropExhausted.rows id = some row) : t.rows id = some row :=
    (filter_eq_some_iff.mp h).1
  refine ⟨⟨le_rfl, le_rfl, le_rfl, fun id _ row' hrow' => ⟨row', hrows hrow', le_rfl, fun h => h⟩,
      fun id row lease hrow hlease hholds _ => ⟨row, ?_, hlease⟩, nofun⟩,
    ⟨fun id hle => ?_, fun id row lease hrow hl => hsound.tokens id row lease (hrows hrow) hl,
      fun id row hrow => hsound.attempts id row (hrows hrow)⟩, knows_of_claim_none rfl, nofun, fun h => ?_⟩
  · -- the lease has not lapsed
    refine filter_eq_some_iff.mpr ⟨hrow, ?_⟩
    have hclaimed : row.unclaimed t.now = false := by
      rw [Row.unclaimed, hlease]
      exact decide_eq_false (not_lt.mpr hholds)
    rw [exhausted, hclaimed, Bool.and_false]
    rfl
  · change (t.rows id).filter _ = none
    rw [hsound.fresh id hle]
    rfl
  · have hexhausted {row : Row} (h : t.exhausted row = true) : row.expiresAt ≤ t.now ∨ MAX_ATTEMPTS ≤ row.attempts := by
      have htest := (and_eq_true_iff.mp h).1
      rw [or_eq_true, decide_eq_true_eq, decide_eq_true_eq] at htest
      exact htest
    constructor
    · intro hdrops id hid row hrow hdropped
      refine (Row.tried_iff (hexhausted hdropped) (hsound.attempts id row hrow)).mp ?_
      refine hdrops ⟨row, t.now⟩ (mem_append_left _ (List.mem_map.mpr ⟨row, mem_filter.mpr ⟨?_, hdropped⟩, rfl⟩))
      exact mem_filterMap.mpr ⟨id, mem_range.mpr hid, hrow⟩
    · intro hspent deletion hmem
      rcases mem_append.mp hmem with hnew | hold
      · obtain ⟨row, hrow, rfl⟩ := List.mem_map.mp hnew
        obtain ⟨hrow, hdropped⟩ := mem_filter.mp hrow
        obtain ⟨id, hid, hrow⟩ := mem_filterMap.mp hrow
        exact (Row.tried_iff (hexhausted hdropped) (hsound.attempts id row hrow)).mpr
          (hspent id (mem_range.mp hid) row hrow hdropped)
      · exact h deletion hold

theorem Advances.create (replica agentChannelId eventId : ℕ) : Advances .go t (.create replica agentChannelId eventId)
    (t.create agentChannelId eventId) (.detach replica ⟨t.minted, t.tokens, t.now + LEASE_MS⟩) := by
  have hself : (t.create agentChannelId eventId).rows t.minted = some ⟨agentChannelId, eventId, 1, t.now,
      some ⟨t.tokens, t.now + LEASE_MS⟩, t.now + RETENTION_MS, false, 0⟩ := update_self ..
  have hother {id : ℕ} (hid : id ≠ t.minted) : (t.create agentChannelId eventId).rows id = t.rows id :=
    update_of_ne hid ..
  refine ⟨⟨le_succ _, le_succ _, le_rfl, fun id hid row' hrow' => ?_, fun id row lease hrow hlease _ _ => ?_,
      nofun⟩,
    ⟨fun id hle => ?_, fun id row lease hrow hlease => ?_, fun id row hrow => ?_⟩, ⟨fun claim hclaim => ?_, trivial⟩,
    fun claim hclaim => ?_, fun h => iff_of_true h trivial⟩
  · exact ⟨row', (hother (Nat.ne_of_lt hid)).symm.trans hrow', le_rfl, fun h => h⟩
  · exact ⟨row, (hother (Nat.ne_of_lt (hsound.lt_minted hrow))).trans hrow, hlease⟩
  · exact (hother (ne_of_gt hle)).trans (hsound.fresh id (le_of_succ_le hle))
  · by_cases hid : id = t.minted
    · cases hself.symm.trans (hid ▸ hrow)
      rw [← some.inj hlease]
      exact lt_succ_self _
    · exact lt_succ_of_lt (hsound.tokens id row lease ((hother hid).symm.trans hrow) hlease)
  · by_cases hid : id = t.minted
    · cases hself.symm.trans (hid ▸ hrow)
      exact one_le_of_lt (lt_succ_self 4)
    · exact hsound.attempts id row ((hother hid).symm.trans hrow)
  · cases hclaim
    exact ⟨lt_succ_self _, lt_succ_self _, fun _ => ⟨_, hself, rfl⟩⟩
  · cases hclaim
    exact .inr le_rfl

theorem Advances.claim {left id : ℕ} (hid : t.candidate = some id) : Advances .go t (.claimNext (left + 1))
    (t.claim id) (.findClaimed (.pass left) ⟨id, t.tokens, t.now + LEASE_MS⟩) := by
  obtain ⟨hmem, htest⟩ := mem_filter.mp (argmin_mem hid)
  obtain ⟨row₀, hrow₀, hclaimable⟩ := (Option.any_eq_true ..).mp htest
  rw [claimable, and_eq_true, and_eq_true, and_eq_true, decide_eq_true_eq, decide_eq_true_eq,
    decide_eq_true_eq] at hclaimable
  obtain ⟨-, -, hattempts, hunclaimed⟩ := hclaimable
  set change : Row → Row := fun row =>
    { row with lease := some ⟨t.tokens, t.now + LEASE_MS⟩, attempts := row.attempts + 1 }
  have hevolves : Evolves t (.claimNext (left + 1)) (t.modify id change) := by
    refine .modify (fun row => le_succ _) (fun _ h => h) (fun row lease hrow hlease hholds _ => ?_)
      nofun
    cases hrow₀.symm.trans hrow
    rw [Row.unclaimed, hlease] at hunclaimed
    exact absurd hholds (not_le.mpr (of_decide_eq_true hunclaimed))
  have hself : (t.claim id).rows id = some (change row₀) := by
    change (t.modify id change).rows id = _
    rw [modify_rows, if_pos rfl, hrow₀]
    rfl
  refine ⟨⟨le_succ _, le_rfl, le_rfl, hevolves.rows, hevolves.leases, nofun⟩,
    ⟨fun other hle => ?_, fun other row' lease hrow' hlease => ?_, fun other row' hrow' => ?_⟩,
    ⟨fun claim hclaim => ?_, trivial⟩, fun claim hclaim => ?_, fun h => iff_of_true h trivial⟩
  · change (t.modify id change).rows other = none
    rw [modify_rows, if_neg (fun h => ?_)]
    · exact hsound.fresh other hle
    · rw [h] at hle
      exact absurd (mem_range.mp hmem) (not_lt.mpr hle)
  · rcases modify_cases hrow' with ⟨-, row, hrow, rfl⟩ | ⟨-, hrow⟩
    · rw [← some.inj hlease]
      exact lt_succ_self _
    · exact lt_succ_of_lt (hsound.tokens other row' lease hrow hlease)
  · rcases modify_cases hrow' with ⟨-, row, hrow, rfl⟩ | ⟨-, hrow⟩
    · cases hrow₀.symm.trans hrow
      exact hattempts
    · exact hsound.attempts other row' hrow
  · cases hclaim
    exact ⟨lt_succ_self _, mem_range.mp hmem, fun _ => ⟨_, hself, rfl⟩⟩
  · cases hclaim
    exact .inr le_rfl

theorem Advances.wait (h : Knows t p) (ms : ℕ) (hspent : SpentAll c t p) : Advances c t p (t.wait ms) p where
  evolves := Evolves.of_rows_eq rfl rfl rfl (le_add_right _ _)
  sound := ⟨hsound.fresh, hsound.tokens, hsound.attempts⟩
  knows := h.evolves (p := .idle) (Evolves.of_rows_eq rfl rfl rfl (le_add_right _ _)) nofun
  token := fun claim' hclaim' => .inl ⟨claim', hclaim', rfl⟩
  drops := fun h => iff_of_true h hspent

end

theorem claim_next (origin : Origin) : origin.next.claim = none := by
  cases origin <;> rfl

/-- Every statement advances its call. -/
theorem advances_exec (hsound : t.Sound) (h : Knows t p) (hexec : exec c t p = some (t', p')) : Advances c t p t' p' := by
  unfold exec at hexec
  split at hexec
  · -- time passes
    cases hexec
    exact Advances.wait hsound h _ (by cases p <;> trivial)
  · cases hexec
    exact .mark hsound h rfl (fun _ => rfl) (fun _ h => h) (.inl rfl) trivial trivial
  · exact Advances.read hexec hsound rfl (.inl rfl) (by cases p <;> trivial)
  · exact .read hexec hsound rfl (.inl rfl) trivial
  · split at hexec
    · exact .read hexec hsound rfl (.inl rfl) trivial
    · cases hexec
      exact .create hsound _ _ _
  · split at hexec
    · exact .read hexec hsound rfl (.inr ⟨rfl, h.1, trivial⟩) trivial
    · refine .read hexec hsound rfl (.inr ⟨rfl, fun other hother => ?_, trivial⟩) trivial
      have hknown := h.1 other hother
      exact ⟨hknown.token, hknown.id, hknown.holds⟩
  · cases hexec
    unfold Tables.release
    split
    · rename_i hfenced
      exact .giveUp hsound rfl hfenced (fun _ => rfl) (fun _ => rfl) (fun _ => rfl) rfl trivial
    · exact .read rfl hsound rfl (.inl rfl) trivial
  · exact .read hexec hsound rfl (.inl rfl) trivial
  · cases hexec
    exact .dropExhausted hsound
  · exact .read hexec hsound rfl (.inl rfl) trivial
  · split at hexec
    · exact .read hexec hsound rfl (.inl rfl) trivial
    · rename_i id hid
      cases hexec
      exact .claim hsound hid
  · rename_i origin claim
    split at hexec
    · cases hexec
      refine .leave ?_ origin
      exact .read rfl hsound rfl (.inl (claim_next origin)) trivial
    · rename_i row hrow
      refine .read hexec hsound rfl (.inr ⟨rfl, h.1, fun other hother => ?_⟩) trivial
      cases (filter_eq_some_iff.mp hrow).1.symm.trans hother
      exact le_rfl
  · split at hexec
    · rename_i hfenced
      cases hexec
      exact .renew hsound h hfenced
    · exact .read hexec hsound rfl (.inr ⟨rfl, h⟩) trivial
  · cases hexec
    refine .mark hsound h rfl (fun _ => rfl) (fun _ _ => rfl) (.inr rfl) (fun row' hrow' => ?_) trivial
    rcases modify_cases hrow' with ⟨-, row, -, rfl⟩ | ⟨hne, -⟩
    · rfl
    · exact absurd rfl hne
  · exact .read hexec hsound rfl (.inr ⟨rfl, h⟩) trivial
  · cases hexec
    refine .mark hsound h rfl (fun _ => rfl) (fun _ h => h) (.inr rfl) (fun row' hrow' => ?_) trivial
    rcases modify_cases hrow' with ⟨-, row, hrow, rfl⟩ | ⟨hne, -⟩
    · exact h.2 row hrow
    · exact absurd rfl hne
  · rename_i origin claim
    cases hexec
    refine .leave (.deleteFenced hsound rfl (claim_next origin) ?_) origin
    exact iff_of_true (fun _ row hrow => .inl (h.2 row hrow)) trivial
  · rename_i origin claim attempts
    cases hexec
    refine .leave ?_ origin
    split
    · rename_i hlast
      refine .deleteFenced hsound rfl (claim_next origin) ?_
      have hiff (row : Row) (hrow : t.rows claim.id = some row) : row.tried t.now ↔ row.spentAll t.now :=
        Row.tried_iff (.inr (hlast.trans (h.2 row hrow))) (hsound.attempts claim.id row hrow)
      constructor
      · exact fun htried _ hfenced row hrow => (hiff row hrow).mp (htried hfenced row hrow)
      · exact fun hspent hfenced row hrow => (hiff row hrow).mpr (hspent hlast hfenced row hrow)
    · rename_i hnot
      have hspent : SpentAll .go t (.retryOrDrop origin claim attempts) := fun hlast => absurd hlast hnot
      unfold Tables.reschedule
      split
      · rename_i hfenced
        exact .giveUp hsound rfl hfenced (fun _ => rfl) (fun _ => rfl) (fun _ => rfl) (claim_next origin) hspent
      · exact .read rfl hsound rfl (.inl (claim_next origin)) hspent
  · cases hexec

/-- The inbox is sound, each run knows of its claim, and no two have one token. -/
def Sound (w : World) : Prop := Calls.HoldsApart Tables.Sound Knows Apart w

namespace Sound

variable {w w' : World} {e : ℕ × Choice}

/-- An empty inbox is sound. -/
theorem initial (now : ℕ) : Sound (initial now) where
  db := ⟨fun _ _ => rfl, nofun, nofun⟩
  calls := fun _ => knows_of_claim_none rfl
  apart := fun _ _ _ _ _ h => by cases h

/-- Every statement keeps the inbox sound. -/
theorem step (h : Sound w) (hstep : InboundEvent.step w e = some w') : Sound w' := by
  refine Calls.HoldsApart.step _ (fun _ _ => Apart.symm) h hstep fun t p hexec => ?_
  have hadvances := advances_exec h.db (h.calls e.1) hexec
  refine ⟨hadvances.sound, hadvances.knows, fun j hj => ?_⟩
  have hapart := h.apart e.1 j (Ne.symm hj)
  refine ⟨(h.calls j).evolves hadvances.evolves hapart, fun a b ha hb => ?_⟩
  rcases hadvances.token a ha with ⟨own, hown, htoken⟩ | hfresh
  · exact htoken ▸ hapart own b hown hb
  · exact ne_of_gt (((h.calls j).1 b hb).token.trans_le hfresh)

theorem oneClaim (h : Sound w) : w.OneClaim := by
  intro i j a b hi hj hid ha hb
  by_contra hne
  obtain ⟨row, hrow, hlease⟩ := ((h.calls i).1 a hi).holds ha
  obtain ⟨row', hrow', hlease'⟩ := ((h.calls j).1 b hj).holds hb
  cases hrow.symm.trans (hid ▸ hrow')
  exact h.apart i j hne a b hi hj (congrArg Lease.claimToken (some.inj (hlease.symm.trans hlease')))

end Sound

/-- One claim at a time, and fenced ends, in every run. -/
theorem run_claims_fenced (now : ℕ) (es : List (ℕ × Choice)) :
    Runs.Throughout step World.OneClaim (initial now) es ∧ Runs.Each step World.Fenced (initial now) es := by
  constructor
  · intro front back w hsplit hrun
    exact (throughout_of_meets step (I := Sound) (fun _ _ _ h _ hstep => h.step hstep) (.initial now)
      (meets_true _ _ es) front back w hsplit hrun).oneClaim
  · refine each_of_meets step (I := Sound) (fun w e w' h _ hstep => ⟨h.step hstep, fun claim hclaim hnot => ?_⟩)
      (.initial now) (meets_true _ _ es)
    obtain ⟨t, p, hexec, rfl⟩ := (Calls.step_eq_some_iff _ w w' e).mp hstep
    exact (advances_exec h.db (h.calls e.1) hexec).evolves.fenced claim hclaim hnot

/-! ## The attempts and the runs -/

/-- What becomes of a row in a statement: a run of it has finished; it stays as it is, and so does its live run; a run
of it was spent; a run claims it; or it is new. -/
inductive RowStep (t : Tables) (p p' : Point) (id : ℕ) (row' : Row) : Prop where
  | finished (hfinished : row'.finished = true)
  | kept (row : Row) (hrow : t.rows id = some row)
    (hsame : (row'.attempts, row'.spent, row'.finished) = (row.attempts, row.spent, row.finished))
    (hlive : ∀ claim, p.live = some claim → claim.id = id → ∃ claim', p'.live = some claim' ∧ claim'.id = id)
  | spent (row : Row) (hrow : t.rows id = some row)
    (hsame : (row'.attempts, row'.spent, row'.finished) = (row.attempts, row.spent + 1, row.finished))
  | claimed (row : Row) (hrow : t.rows id = some row) (hcandidate : t.candidate = some id)
    (hsame : (row'.attempts, row'.spent, row'.finished) = (row.attempts + 1, row.spent, row.finished))
    (hlive : ∃ claim', p'.live = some claim' ∧ claim'.id = id)
  | created (hattempts : row'.attempts = 1) (hlive : ∃ claim', p'.live = some claim' ∧ claim'.id = id)

section RowStep

variable {free : (Point → Bool) → Prop} {id : ℕ} {row' : Row}

/-- A row that stays. -/
theorem RowStep.same (hrow : t.rows id = some row')
    (hlive : ∀ claim, p.live = some claim → ∃ claim', p'.live = some claim' ∧ claim'.id = claim.id) :
    RowStep t p p' id row' := by
  refine .kept row' hrow rfl fun claim hclaim hid => ?_
  obtain ⟨claim', hclaim', hid'⟩ := hlive claim hclaim
  exact ⟨claim', hclaim', hid'.trans hid⟩

/-- A row is written by a call that is not live then, but for its attempts and runs. -/
theorem RowStep.modify {change : Row → Row} {other : ℕ} (hrow' : (t.modify other change).rows id = some row')
    (hchange : ∀ row, ((change row).attempts, (change row).spent, (change row).finished) =
      (row.attempts, row.spent, row.finished))
    (hlive : ∀ claim, p.live = some claim → ∃ claim', p'.live = some claim' ∧ claim'.id = claim.id) :
    RowStep t p p' id row' := by
  rcases modify_cases hrow' with ⟨rfl, row, hrow, rfl⟩ | ⟨-, hrow⟩
  · refine .kept row hrow (hchange row) fun claim hclaim hid => ?_
    obtain ⟨claim', hclaim', hid'⟩ := hlive claim hclaim
    exact ⟨claim', hclaim', hid'.trans hid⟩
  · exact .same hrow hlive

/-- The run of a call is spent. -/
theorem RowStep.spend {claim : InboundClaim} (hlive : p.live = some claim) (hrow' : (t.spend claim).rows id = some row') :
    RowStep t p p' id row' := by
  rcases modify_cases hrow' with ⟨rfl, row, hrow, rfl⟩ | ⟨hne, hrow⟩
  · exact .spent row hrow rfl
  · refine .kept row' hrow rfl fun other hother hid => ?_
    rw [hlive] at hother
    cases hother
    exact absurd hid.symm hne

theorem rows_leave (t : Tables) (origin : Origin) : (t.leave origin).rows = t.rows := by
  cases origin <;> rfl

theorem RowStep.deleteFenced {claim : InboundClaim} (hlive : p.live = none)
    (hrow' : (t.deleteFenced claim).rows id = some row') : RowStep t p p' id row' := by
  unfold Tables.deleteFenced at hrow'
  split at hrow'
  · exact .same ((update_cases hrow').resolve_left fun h => nomatch h.2).2 (by rw [hlive]; exact nofun)
  · exact .same hrow' (by rw [hlive]; exact nofun)

/-- A statement that comes in time. -/
theorem rowStep_exec (hprompt : Prompt free c t p) (hknown : ∀ claim, p.live = some claim → ClaimKnown t claim)
    (hholds : ∀ claim, p.live = some claim → t.now < claim.holds) (hexec : exec c t p = some (t', p'))
    (hrow' : t'.rows id = some row') : RowStep t p p' id row' := by
  have hnone {q : Point} (h : p.live = none) (claim : InboundClaim) (hclaim : p.live = some claim) :
      ∃ claim', q.live = some claim' ∧ claim'.id = claim.id := by
    rw [h] at hclaim
    cases hclaim
  unfold exec at hexec
  split at hexec
  · cases hexec
    exact .same hrow' fun claim hclaim => ⟨claim, hclaim, rfl⟩
  · cases hexec
    exact .spend rfl hrow'
  · cases hexec
    rename_i hdispatch
    refine .same hrow' (hnone ?_)
    cases p with
    | detach | findClaimed => exact hprompt.elim
    | dispatch => exact absurd rfl (hdispatch _ _ _)
    | _ => rfl
  · cases hexec
    exact .same hrow' nofun
  · split at hexec
    · cases hexec
      exact .same hrow' nofun
    · cases hexec
      rcases update_cases hrow' with ⟨rfl, hnew⟩ | ⟨-, hold⟩
      · cases hnew
        exact .created rfl ⟨_, rfl, rfl⟩
      · exact .same hold nofun
  · split at hexec
    · rename_i hfull
      exact absurd hprompt (not_lt.mpr hfull)
    · cases hexec
      exact .same hrow' fun claim hclaim => ⟨claim, hclaim, rfl⟩
  · cases hexec
    unfold Tables.release at hrow'
    split at hrow'
    · exact .modify hrow' (fun _ => rfl) nofun
    · exact .same hrow' nofun
  · cases hexec
    exact .same hrow' nofun
  · cases hexec
    exact .same (filter_eq_some_iff.mp hrow').1 nofun
  · cases hexec
    exact .same hrow' nofun
  · split at hexec
    · cases hexec
      exact .same hrow' nofun
    · rename_i candidate hcandidate
      cases hexec
      rcases modify_cases hrow' with ⟨rfl, row, hrow, rfl⟩ | ⟨-, hold⟩
      · exact .claimed row hrow hcandidate rfl ⟨_, rfl, rfl⟩
      · exact .same hold nofun
  · rename_i origin claim
    split at hexec
    · -- the lease of the run still holds
      rename_i hlost
      obtain ⟨row, hrow, hlease⟩ := (hknown claim rfl).holds (hholds claim rfl).le
      rw [findClaimed, hrow, Option.filter_some, hlease, Option.any_some, decide_eq_true rfl, Bool.true_and,
        decide_eq_true (hholds claim rfl)] at hlost
      cases hlost
    · cases hexec
      exact .same hrow' fun claim hclaim => ⟨claim, hclaim, rfl⟩
  · split at hexec
    · cases hexec
      refine .modify hrow' (fun _ => rfl) fun claim hclaim => ?_
      cases hclaim
      exact ⟨_, rfl, rfl⟩
    · cases hexec
      exact .same hrow' fun claim hclaim => ⟨claim, hclaim, rfl⟩
  · cases hexec
    rcases modify_cases hrow' with ⟨rfl, row, hrow, rfl⟩ | ⟨hne, hrow⟩
    · exact .finished rfl
    · refine .kept row' hrow rfl fun other hother hid => ?_
      cases hother
      exact absurd hid.symm hne
  · exact hprompt.elim
  · cases hexec
    exact .spend rfl hrow'
  · cases hexec
    rw [rows_leave] at hrow'
    exact .deleteFenced rfl hrow'
  · cases hexec
    rw [rows_leave] at hrow'
    split at hrow'
    · exact .deleteFenced rfl hrow'
    · unfold Tables.reschedule at hrow'
      split at hrow'
      · exact .modify hrow' (fun _ => rfl) nofun
      · exact .same hrow' nofun
  · cases hexec

end RowStep

/-- Time passes only where a statement says so. -/
theorem now_exec (hexec : exec c t p = some (t', p')) : t'.now = t.now ∨ ∃ ms, c = .wait ms ∧ t' = t.wait ms ∧ p' = p := by
  have hleave (t : Tables) (origin : Origin) : (t.leave origin).now = t.now := by cases origin <;> rfl
  unfold exec at hexec
  split at hexec
  · cases hexec
    exact .inr ⟨_, rfl, rfl, rfl⟩
  all_goals refine .inl ?_
  all_goals repeat' split at hexec
  all_goals cases hexec
  all_goals first
    | rfl
    | exact hleave _ _
    | (unfold Tables.release; split <;> rfl)
    | (rw [hleave]; unfold Tables.deleteFenced; split <;> rfl)
    | (rw [hleave]; unfold Tables.reschedule; split <;> rfl)

/-- A live run goes on with its claim, or with a lease that was just taken or renewed. -/
theorem live_exec (hexec : exec c t p = some (t', p')) {claim : InboundClaim} (hlive : p'.live = some claim) :
    p.live = some claim ∨ claim.holds = t.now + LEASE_MS := by
  have hnext (origin : Origin) : origin.next.live = none := by cases origin <;> rfl
  unfold exec at hexec
  split at hexec
  · cases hexec
    exact .inl hlive
  all_goals repeat' split at hexec
  all_goals cases hexec
  all_goals first
    | (rw [hnext] at hlive; cases hlive)
    | cases hlive
  all_goals first
    | exact .inl rfl
    | exact .inr rfl

/-- A live claim is the call's. -/
theorem claim_of_live {claim : InboundClaim} (hlive : p.live = some claim) : p.claim = some claim := by
  cases p <;> first | exact hlive | cases hlive

/-- Every live run holds its lease, and the attempts of a row that no run finished are ahead of its spent runs by its
live run only. -/
structure World.Attempted (w : World) : Prop where
  holds : ∀ i claim, (w.calls i).live = some claim → w.db.now < claim.holds
  rows : ∀ id row, w.db.rows id = some row → row.finished = true ∨ row.attempts ≤ row.spent ∨
    row.attempts ≤ row.spent + 1 ∧ ∃ i claim, (w.calls i).live = some claim ∧ claim.id = id

namespace World.Attempted

variable {w w' : World} {e : ℕ × Choice}

/-- The row of a live run has its lease. -/
theorem leased (h : w.Attempted) (hsound : Sound w) {j : ℕ} {claim : InboundClaim} {row : Row}
    (hlive : (w.calls j).live = some claim) (hrow : w.db.rows claim.id = some row) :
    row.lease = some ⟨claim.claimToken, claim.holds⟩ ∧ row.unclaimed w.db.now = false := by
  have hholds := h.holds j claim hlive
  obtain ⟨row', hrow', hlease⟩ := ((hsound.calls j).1 claim (claim_of_live hlive)).holds hholds.le
  cases hrow.symm.trans hrow'
  refine ⟨hlease, ?_⟩
  rw [Row.unclaimed, hlease]
  exact decide_eq_false (not_lt.mpr hholds.le)

/-- A row that is deleted for its attempts has had them all spent. -/
theorem spentAll (h : w.Attempted) (hsound : Sound w) : SpentAll e.2 w.db (w.calls e.1) := by
  obtain ⟨i, c⟩ := e
  cases hpoint : w.calls i with
  | dropExhausted =>
    cases c with
    | go =>
      intro id _ row hrow hexhausted
      rcases h.rows id row hrow with hfinished | hspent | ⟨-, j, claim, hlive, rfl⟩
      · exact .inl hfinished
      · exact .inr (.inr hspent)
      · -- the live run's lease keeps the row
        have hunclaimed := (and_eq_true_iff.mp hexhausted).2
        rw [(h.leased hsound hlive hrow).2] at hunclaimed
        cases hunclaimed
    | _ => simp only [SpentAll]
  | retryOrDrop origin claim attempts =>
    cases c with
    | go =>
      intro _ hfenced row hrow
      rcases h.rows claim.id row hrow with hfinished | hspent | ⟨-, j, other, hlive, hid⟩
      · exact .inl hfinished
      · exact .inr (.inr hspent)
      · -- the row has the token of the failed run, and so not that of a live one
        obtain ⟨row', lease, hrow', hlease, htoken⟩ := (fenced_iff claim).mp hfenced
        cases hrow.symm.trans hrow'
        have hother := (h.leased hsound hlive (hid ▸ hrow)).1
        cases hlease.symm.trans hother
        have hne : i ≠ j := by
          rintro rfl
          rw [hpoint] at hlive
          cases hlive
        refine absurd htoken.symm (hsound.apart i j hne claim other ?_ (claim_of_live hlive))
        rw [hpoint]
        rfl
    | _ => simp only [SpentAll]
  | _ => cases c <;> simp only [SpentAll]

/-- A statement that comes in time keeps the attempts with the runs. -/
theorem step (h : w.Attempted) (hsound : Sound w) (htimely : RunsOn w e) (hstep : InboundEvent.step w e = some w') :
    w'.Attempted := by
  obtain ⟨hexec, hothers⟩ := Calls.exec_of_step _ hstep
  constructor
  · intro j claim hlive
    rcases now_exec hexec with hnow | ⟨ms, hwait, hdb, hpoint⟩
    · rw [hnow]
      by_cases hj : j = e.1
      · subst hj
        rcases live_exec hexec hlive with hsame | hfresh
        · exact h.holds e.1 claim hsame
        · rw [hfresh]
          exact Nat.lt_add_of_pos_right (by decide)
      · rw [hothers j hj] at hlive
        exact h.holds j claim hlive
    · -- no lease of a live run lapses
      have hlive' : (w.calls j).live = some claim := by
        by_cases hj : j = e.1
        · rw [hj, ← hpoint, ← hj]
          exact hlive
        · rw [← hothers j hj]
          exact hlive
      have hfree : Prompt (Calls.Free w) (.wait ms) w.db (w.calls e.1) := hwait ▸ htimely
      have hnot : decide (claim.holds ≤ w.db.now + ms) = false := by
        have hj : (w.calls j).live.any (fun claim => claim.holds ≤ w.db.now + ms) = false := hfree j
        rwa [hlive'] at hj
      rw [hdb]
      exact not_le.mp (of_decide_eq_false hnot)
  · intro id row' hrow'
    have hknown (claim : InboundClaim) (hclaim : (w.calls e.1).live = some claim) : ClaimKnown w.db claim :=
      (hsound.calls e.1).1 claim (claim_of_live hclaim)
    have hself {claim : InboundClaim} (hlive : (w'.calls e.1).live = some claim) (hid : claim.id = id) :
        ∃ i claim, (w'.calls i).live = some claim ∧ claim.id = id := ⟨e.1, claim, hlive, hid⟩
    cases rowStep_exec htimely hknown (h.holds e.1) hexec hrow' with
    | finished hfinished => exact .inl hfinished
    | kept row hrow hsame hlive =>
      obtain ⟨hattempts, hspent, hfinished⟩ : row'.attempts = row.attempts ∧ row'.spent = row.spent ∧
          row'.finished = row.finished := by simpa only [Prod.mk.injEq] using hsame
      rw [hattempts, hspent, hfinished]
      refine (h.rows id row hrow).imp_right (.imp_right fun ⟨hle, j, claim, hlive', hid⟩ => ⟨hle, ?_⟩)
      by_cases hj : j = e.1
      · subst hj
        obtain ⟨claim', hclaim', hid'⟩ := hlive claim hlive' hid
        exact hself hclaim' hid'
      · exact ⟨j, claim, (hothers j hj).symm ▸ hlive', hid⟩
    | spent row hrow hsame =>
      obtain ⟨hattempts, hspent, hfinished⟩ : row'.attempts = row.attempts ∧ row'.spent = row.spent + 1 ∧
          row'.finished = row.finished := by simpa only [Prod.mk.injEq] using hsame
      rw [hattempts, hspent, hfinished]
      rcases h.rows id row hrow with hdone | hle | ⟨hle, -⟩
      · exact .inl hdone
      · exact .inr (.inl (le_succ_of_le hle))
      · exact .inr (.inl hle)
    | claimed row hrow hcandidate hsame hlive =>
      obtain ⟨hattempts, hspent, hfinished⟩ : row'.attempts = row.attempts + 1 ∧ row'.spent = row.spent ∧
          row'.finished = row.finished := by simpa only [Prod.mk.injEq] using hsame
      rw [hattempts, hspent, hfinished]
      rcases h.rows id row hrow with hdone | hle | ⟨-, j, claim, hlive', rfl⟩
      · exact .inl hdone
      · obtain ⟨claim', hclaim', hid'⟩ := hlive
        exact .inr (.inr ⟨Nat.succ_le_succ hle, hself hclaim' hid'⟩)
      · -- a row with a live run is not claimed
        obtain ⟨row₀, hrow₀, hclaimable⟩ := (Option.any_eq_true ..).mp (mem_filter.mp (argmin_mem hcandidate)).2
        cases hrow.symm.trans hrow₀
        rw [claimable, (h.leased hsound hlive' hrow).2, Bool.and_false, Bool.and_false, Bool.and_false] at hclaimable
        cases hclaimable
    | created hattempts hlive =>
      obtain ⟨claim', hclaim', hid'⟩ := hlive
      exact .inr (.inr ⟨hattempts.trans_le (Nat.le_add_left 1 _), hself hclaim' hid'⟩)

end World.Attempted

/-- Where the steps come in time for the runs that are live, no event is dropped untried; no two runs hold one row, and
a run that lost its claim leaves the row. -/
theorem inbox_exact {now : ℕ} {es : List (ℕ × Choice)} (hmeets : Runs.Meets step RunsOn (initial now) es) :
    Runs.Throughout step (fun w => w.DropsTried ∧ w.OneClaim) (initial now) es ∧
      Runs.Each step World.Fenced (initial now) es := by
  refine ⟨fun front back w hsplit hrun => ?_, (run_claims_fenced now es).2⟩
  refine ⟨(throughout_of_meets step (I := fun w => Sound w ∧ w.Attempted ∧ w.DropsTried) (P := RunsOn) ?_ ?_ hmeets
    front back w hsplit hrun).2.2, (run_claims_fenced now es).1 front back w hsplit hrun⟩
  · rintro w e w' ⟨hsound, hattempted, hdrops⟩ htimely hstep
    refine ⟨hsound.step hstep, hattempted.step hsound htimely hstep, ?_⟩
    have hadvances := advances_exec hsound.db (hsound.calls e.1) (Calls.exec_of_step _ hstep).1
    exact (hadvances.drops hdrops).mpr (hattempted.spentAll hsound)
  · exact ⟨.initial now, ⟨nofun, nofun⟩, nofun⟩

/-- Fewer calls to wait for make a step come in time. -/
theorem Prompt.imp {f g : (Point → Bool) → Prop} (hfg : ∀ kind, kind .idle = false → f kind → g kind)
    (h : Prompt f c t p) : Prompt g c t p := by
  unfold Prompt at h ⊢
  split at h
  · exact hfg _ rfl h
  all_goals exact h

/-- An event that is accepted, and whose run starts. -/
def accepted : List (ℕ × Choice) := [(0, .accept 0 1 1), (0, .go), (0, .go), (0, .go)]

/-- A recovery pass whose run starts, after the retry delay. -/
def recovered (i : ℕ) : List (ℕ × Choice) := [(i, .wait 480000), (i, .recover), (i, .go), (i, .go), (i, .go)]

/-- An event whose first run dies, whose second fails, and whose third finishes after a renewal. -/
def finishedThird : List (ℕ × Choice) :=
  accepted ++ [(0, .dies)] ++ recovered 1 ++ [(1, .fails), (1, .go)] ++ recovered 2 ++
    [(2, .wait 60000), (2, .renew), (2, .wait 90000), (2, .finishes), (2, .go)]

/-- A third run that finishes, after two that died. -/
theorem inbox_exact_recovered : (Runs.run step (initial 0) finishedThird).isSome ∧
    Runs.Throughout step (fun w => w.DropsTried ∧ w.OneClaim) (initial 0) finishedThird ∧
      Runs.Each step World.Fenced (initial 0) finishedThird := by
  refine ⟨by decide +kernel, inbox_exact ?_⟩
  exact Calls.meets_of_below exec (fun _ _ hfg _ _ _ => .imp hfg) (n := 3) (by decide) (fun _ _ => rfl)
    (by decide +kernel)

/-- An event that another run holds in the ledger at every attempt. -/
def heldElsewhere : List (ℕ × Choice) :=
  accepted ++ [(0, .inFlightElsewhere), (0, .go)] ++
    (List.range 4).flatMap fun i => recovered (i + 1) ++ [(i + 1, .inFlightElsewhere), (i + 1, .go)]

/-- An event is dropped of which no run failed. -/
theorem dropped_untried :
    ¬ (Runs.Throughout step (fun w => w.DropsTried ∧ w.OneClaim) (initial 0) heldElsewhere ∧
      Runs.Each step World.Fenced (initial 0) heldElsewhere) := by
  rintro ⟨hall, -⟩
  obtain ⟨w, hw⟩ := Option.isSome_iff_exists.mp
    (show (run step (initial 0) heldElsewhere).isSome by decide +kernel)
  have hend : (run step (initial 0) heldElsewhere).all (fun w => w.db.deletions.any fun deletion =>
      !deletion.row.finished && (deletion.at_ < deletion.row.expiresAt && deletion.row.spent < MAX_ATTEMPTS)) = true := by
    decide +kernel
  rw [hw, Option.all_some] at hend
  obtain ⟨deletion, hmem, htest⟩ := List.any_eq_true.mp hend
  rw [Bool.and_eq_true, Bool.and_eq_true, Bool.not_eq_true', decide_eq_true_eq, decide_eq_true_eq] at htest
  obtain ⟨hfinished, hexpires, hspent⟩ := htest
  rcases (hall _ [] w (List.append_nil _).symm hw).1 deletion hmem with h | h | h
  · rw [hfinished] at h
    cases h
  · exact absurd h (not_le.mpr hexpires)
  · exact absurd h (not_le.mpr hspent)

end Onecli.Channels.InboundEvent
