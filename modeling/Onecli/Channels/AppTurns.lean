import Onecli.Channels.ActionApproval

/-!
# The cap on app turns

`app-turn-cap-service.ts` on one conversation that stays, with the doors that call it. An app message is admitted,
creates its turn and is counted; a person's turn, an approved card or a resume from the dashboard sets the streak to
zero, and is the boundary between two rounds. The answer of the live gate and of the door that creates a turn are
choices.

The turns of a round, and those of them that are replayed from a card, are kept beside the streak; no statement reads
them.
-/

namespace Onecli.Channels.AppTurnCap

open Api (JsString)

/-- `APP_TURN_CAP`. -/
def APP_TURN_CAP : ℕ := 6

/-- `CapSpeaker`. -/
inductive CapSpeaker where
  | app (externalRef : JsString)
  | agent (agentId : ℕ)
  deriving DecidableEq

/-- `ContinuePayload`, of the one conversation. -/
structure ContinuePayload where
  message : JsString
  source : JsString
  speaker : CapSpeaker
  deriving DecidableEq

/-- A continue card, and the crossing that asked for it. -/
structure Card where
  id : ℕ
  payload : ContinuePayload
  crossing : ℕ
  status : ActionApprovalStatus
  expiresAt : ℕ
  deriving DecidableEq

/-- The conversation and its cards; the turns created since the boundary of the round, and those of them that were
replayed; and the crossings over all rounds. -/
structure Tables where
  appTurnStreak : ℕ
  cards : List Card
  now : ℕ
  turns : ℕ
  replayed : ℕ
  crossings : ℕ

/-- `isPastAppTurnCap`. -/
def isPastAppTurnCap (appTurnStreak : ℕ) : Bool := APP_TURN_CAP < appTurnStreak

/-- Where a call stands: at the statement that is next, or at its end. -/
inductive Point where
  | idle
  | readStreak (message : ContinuePayload)
  | claim (message : ContinuePayload)
  | requestCard (message : ContinuePayload) (crossing : ℕ)
  | paused (message : ContinuePayload) (crossing : ℕ)
  | silenced
  | createTurn (message : ContinuePayload)
  | countTurn
  | resetStreak
  | findPendingCard
  | findApproval (resume : Bool) (id : ℕ) (decision : ActionDecision)
  | compareExpiry (resume : Bool) (card : Card) (decision : ActionDecision)
  | park (resume : Bool) (id : ℕ)
  | findDecider (resume : Bool) (card : Card) (decision : ActionDecision)
  | decide (resume : Bool) (card : Card) (decision : ActionDecision)
  | verify (card : Card)
  | resetApproved (card : Card)
  | replay (card : Card)
  | update (id : ℕ) (status : ActionApprovalStatus)
  | findStale
  | findPending (ids : List ℕ)
  | expire (ids : List ℕ)
  | done
  deriving DecidableEq

/-- What a step chooses: a message, a person, a decision, a resume or the sweep arrives, a call goes on, or what it asks
refuses. -/
inductive Choice where
  | app (message : ContinuePayload)
  | person
  | decide (id : ℕ) (decision : ActionDecision)
  | resume
  | sweep
  | go
  | refuses
  | tick
  deriving DecidableEq

namespace Tables

/-- The card with an id. -/
def findCard (t : Tables) (id : ℕ) : Option Card := t.cards.find? fun card => card.id = id

/-- The latest pending card. -/
def findPendingCard (t : Tables) : Option Card := t.cards.reverse.find? fun card => card.status = .pending

/-- A card is pending. -/
def isPending (t : Tables) (id : ℕ) : Bool := (t.findCard id).any fun card => card.status = .pending

/-- The status of a card is written. -/
def setStatus (t : Tables) (id : ℕ) (status : ActionApprovalStatus) : Tables :=
  { t with cards := t.cards.map fun card => if card.id = id then { card with status } else card }

/-- `requestActionApproval` for a message that is parked. -/
def requestCard (t : Tables) (payload : ContinuePayload) (crossing : ℕ) : Tables :=
  { t with cards := t.cards ++ [⟨t.cards.length, payload, crossing, .pending, t.now + APPROVAL_MAX_AGE_MS⟩] }

/-- The messages parked at a crossing. -/
def parkedAt (t : Tables) (crossing : ℕ) : List ContinuePayload :=
  (t.cards.filter fun card => card.crossing = crossing).map (·.payload)

/-- The claim on the crossing. -/
def cross (t : Tables) : Tables := { t with appTurnStreak := t.appTurnStreak + 1, crossings := t.crossings + 1 }

/-- An app-authored turn is created. -/
def land (t : Tables) : Tables := { t with turns := t.turns + 1 }

/-- A parked message is replayed. -/
def replay (t : Tables) : Tables := { t.land with replayed := t.replayed + 1 }

/-- `countAppTurn`. -/
def count (t : Tables) : Tables :=
  if t.appTurnStreak < APP_TURN_CAP then { t with appTurnStreak := t.appTurnStreak + 1 } else t

/-- `resetAppTurnStreak`, and a round begins. -/
def reset (t : Tables) : Tables := { t with appTurnStreak := 0, turns := 0, replayed := 0 }

/-- The pending cards past their deadline. -/
def stale (t : Tables) : List ℕ :=
  ((t.cards.filter fun card => card.status = .pending && card.expiresAt < t.now).map (·.id)).take STALE_TAKE

/-- Time passes. -/
def tick (t : Tables) : Tables := { t with now := t.now + 1 }

end Tables

/-- How a decision ends that decided nothing: a resume goes on to the bare reset. -/
def undecided (resume : Bool) : Point := if resume then .resetStreak else .done

/-- A statement of a call. -/
def exec : Calls.Exec Tables Point Choice
  | .tick, t, p => some (t.tick, p)
  | .app message, t, .idle => some (t, .readStreak message)
  | .go, t, .readStreak message =>
    if t.appTurnStreak < APP_TURN_CAP then some (t, .createTurn message)
    else if APP_TURN_CAP < t.appTurnStreak then some (t, .silenced)
    else some (t, .claim message)
  | .go, t, .claim message =>
    if t.appTurnStreak = APP_TURN_CAP then some (t.cross, .requestCard message t.crossings) else some (t, .silenced)
  | .go, t, .requestCard message crossing => some (t.requestCard message crossing, .paused message crossing)
  | .go, t, .createTurn _ => some (t.land, .countTurn)
  | .refuses, t, .createTurn _ => some (t, .done)
  | .go, t, .countTurn => some (t.count, .done)
  | .person, t, .idle => some (t, .resetStreak)
  | .go, t, .resetStreak => some (t.reset, .done)
  | .resume, t, .idle => some (t, .findPendingCard)
  | .go, t, .findPendingCard =>
    match t.findPendingCard with
    | some card => some (t, .findApproval true card.id .approve)
    | none => some (t, .resetStreak)
  | .decide id decision, t, .idle => some (t, .findApproval false id decision)
  | .go, t, .findApproval resume id decision =>
    match t.findCard id with
    | none => some (t, undecided resume)
    | some card =>
      if card.status = .pending then some (t, .compareExpiry resume card decision) else some (t, undecided resume)
  | .go, t, .compareExpiry resume card decision =>
    if card.expiresAt < t.now then some (t, .park resume card.id) else some (t, .findDecider resume card decision)
  | .go, t, .park resume id => some (if t.isPending id then t.setStatus id .expired else t, undecided resume)
  | .go, t, .findDecider resume card decision => some (t, .decide resume card decision)
  | .refuses, t, .findDecider resume _ _ => some (t, undecided resume)
  | .go, t, .decide resume card decision =>
    if t.isPending card.id then
      match decision with
      | .approve => some (t.setStatus card.id .approved, .verify card)
      | .reject => some (t.setStatus card.id .rejected, .done)
    else some (t, undecided resume)
  | .go, t, .verify card => some (t, .resetApproved card)
  | .refuses, t, .verify card => some (t, .update card.id .failed)
  | .go, t, .resetApproved card => some (t.reset, .replay card)
  | .go, t, .replay card => some (t.replay, .update card.id .executed)
  | .refuses, t, .replay card => some (t, .update card.id .failed)
  | .go, t, .update id status => some (t.setStatus id status, .done)
  | .sweep, t, .idle => some (t, .findStale)
  | .go, t, .findStale => some (t, .findPending t.stale)
  | .go, t, .findPending ids => some (t, .expire (ids.filter t.isPending))
  | .go, t, .expire (id :: ids) => some (if t.isPending id then t.setStatus id .expired else t, .expire ids)
  | _, _, _ => none

/-- The conversation and the calls on it. -/
abbrev World := Calls.World Tables Point

/-- A call goes on. -/
abbrev step : World → ℕ × Choice → Option World := Calls.step exec

/-- A conversation that nobody has spoken in. -/
def initial (now : ℕ) : World := ⟨⟨0, [], now, 0, 0, 0⟩, fun _ => .idle⟩

/-- The crossing that a call claimed. -/
def Point.crossing : Point → Option ℕ
  | .requestCard _ crossing | .paused _ crossing => some crossing
  | _ => none

namespace World

/-- The app-authored turns of a round are within the cap. -/
def Capped (w : World) : Prop := w.db.turns ≤ APP_TURN_CAP

/-- Every crossing is of one call, which answers it with the pause; its message is parked in one card, and there is no
other card. -/
structure CrossesOnce (w : World) : Prop where
  call : ∀ k < w.db.crossings, ∃ i, (w.calls i).crossing = some k ∧ ∀ j, (w.calls j).crossing = some k → j = i
  known : ∀ i k, (w.calls i).crossing = some k → k < w.db.crossings
  parked : ∀ i message k, w.calls i = .paused message k → w.db.parkedAt k = [message]
  asked : ∀ i message k, w.calls i = .requestCard message k → w.db.parkedAt k = []
  free : ∀ k, w.db.crossings ≤ k → w.db.parkedAt k = []

end World

/-- A call that is about to count the turn that it has created. -/
def Point.counts : Point → Bool
  | .countTurn => true
  | _ => false

/-- A turn is created when every turn before it that is counted at all has been, and the streak, with the replayed turns
of the round, is below the cap. -/
def Counted (free : (Point → Bool) → Prop) (c : Choice) (t : Tables) (p : Point) : Prop :=
  match c, p with
  | .go, .createTurn _ | .go, .replay _ => t.appTurnStreak + t.replayed < APP_TURN_CAP ∧ free Point.counts
  | _, _ => True

instance (free : (Point → Bool) → Prop) [DecidablePred free] (c : Choice) (t : Tables) (p : Point) :
    Decidable (Counted free c t p) := by
  unfold Counted
  split
  all_goals infer_instance

/-- A step creates a turn only when the turns before it are counted. -/
def CountedFirst (w : World) (e : ℕ × Choice) : Prop := Counted (Calls.Free w) e.2 w.db (w.calls e.1)

/-! ## An app conversation does not run away

A message is admitted by a streak that counts the turns only after they were created, and a replayed turn is never
counted: a round keeps to the cap where each turn is counted before the next is created, since the streak is then short
by the replayed turns only. The crossing is one conditional write, so that one call answers it, parks its message and
nobody else's.
-/

open Function (update update_apply update_of_ne update_self)
open List Option Nat Runs

namespace Tables

variable {t : Tables}

theorem parkedAt_setStatus (t : Tables) (id : ℕ) (status : ActionApprovalStatus) (k : ℕ) :
    (t.setStatus id status).parkedAt k = t.parkedAt k := by
  unfold parkedAt setStatus
  induction t.cards with
  | nil => rfl
  | cons card cards ih =>
    have hcrossing : (if card.id = id then { card with status } else card).crossing = card.crossing := by
      split <;> rfl
    have hpayload : (if card.id = id then { card with status } else card).payload = card.payload := by
      split <;> rfl
    rw [map_cons, filter_cons, filter_cons, hcrossing]
    split
    · rw [map_cons, map_cons, ih, hpayload]
    · exact ih

theorem parkedAt_requestCard (t : Tables) (payload : ContinuePayload) (crossing k : ℕ) :
    (t.requestCard payload crossing).parkedAt k = t.parkedAt k ++ if crossing = k then [payload] else [] := by
  unfold parkedAt requestCard
  split
  · rename_i hk
    simp [hk]
  · rename_i hk
    simp [hk]

theorem count_fields (t : Tables) : t.count.turns = t.turns ∧ t.count.replayed = t.replayed ∧
    t.count.crossings = t.crossings ∧ t.count.cards = t.cards := by
  unfold count
  split <;> exact ⟨rfl, rfl, rfl, rfl⟩

end Tables

open Tables

variable {t t' : Tables} {p p' : Point} {c : Choice}

/-- What a statement does to the crossings: nothing, a call claims the next one, or it parks its message. -/
inductive Crosses (t : Tables) (p : Point) (t' : Tables) (p' : Point) : Prop where
  | keeps (hpoint : p' = p ∨ p.crossing = none ∧ p'.crossing = none) (hcrossings : t'.crossings = t.crossings)
    (hparked : ∀ k, t'.parkedAt k = t.parkedAt k)
  | claims (message : ContinuePayload) (hp : p.crossing = none) (hp' : p' = .requestCard message t.crossings)
    (hcrossings : t'.crossings = t.crossings + 1) (hparked : ∀ k, t'.parkedAt k = t.parkedAt k)
  | parks (message : ContinuePayload) (k : ℕ) (hp : p = .requestCard message k) (hp' : p' = .paused message k)
    (hcrossings : t'.crossings = t.crossings)
    (hparked : ∀ j, t'.parkedAt j = t.parkedAt j ++ if k = j then [message] else [])

/-- What a statement does to the streak and the turns of the round: nothing, the crossing raises the streak from the
cap, a turn is created, replayed or counted, or a round begins. -/
inductive Counts (c : Choice) (t : Tables) (p : Point) (t' : Tables) (p' : Point) : Prop where
  | keeps (hturns : t'.turns = t.turns) (hstreak : t'.appTurnStreak = t.appTurnStreak)
    (hreplayed : t'.replayed = t.replayed) (hpoint : p'.counts = p.counts)
  | crosses (hturns : t'.turns = t.turns) (hcap : t.appTurnStreak = APP_TURN_CAP)
    (hstreak : t'.appTurnStreak = t.appTurnStreak + 1) (hreplayed : t'.replayed = t.replayed)
    (hpoint : p'.counts = p.counts)
  | lands (message : ContinuePayload) (hc : c = .go) (hp : p = .createTurn message) (hp' : p' = .countTurn)
    (ht : t' = t.land)
  | replays (card : Card) (hc : c = .go) (hp : p = .replay card) (hp' : p'.counts = false) (ht : t' = t.replay)
  | counts (hp : p = .countTurn) (hp' : p'.counts = false) (ht : t' = t.count)
  | resets (hpoint : p'.counts = p.counts) (ht : t' = t.reset)

/-- What a statement does: it admits only while the streak is not past the cap, it crosses in one way, and it counts in
one way. -/
structure Advances (c : Choice) (t : Tables) (p : Point) (t' : Tables) (p' : Point) : Prop where
  admits : ∀ message, p' = .createTurn message → p = .createTurn message ∨ isPastAppTurnCap t.appTurnStreak = false
  crosses : Crosses t p t' p'
  counts : Counts c t p t' p'

theorem Advances.read {q : Point} (hexec : some (t, q) = some (t', p')) (hp : p.crossing = none) (hq : q.crossing = none)
    (hadmits : ∀ message, q ≠ .createTurn message) (hcounts : q.counts = p.counts) : Advances c t p t' p' := by
  cases hexec
  exact ⟨fun message h => absurd h (hadmits message), .keeps (.inr ⟨hp, hq⟩) rfl fun _ => rfl, .keeps rfl rfl rfl hcounts⟩

theorem Advances.status {id : ℕ} {status : ActionApprovalStatus} {q : Point}
    (hexec : some (t.setStatus id status, q) = some (t', p')) (hp : p.crossing = none) (hq : q.crossing = none)
    (hadmits : ∀ message, q ≠ .createTurn message) (hcounts : q.counts = p.counts) : Advances c t p t' p' := by
  cases hexec
  exact ⟨fun message h => absurd h (hadmits message), .keeps (.inr ⟨hp, hq⟩) rfl (parkedAt_setStatus t id status),
    .keeps rfl rfl rfl hcounts⟩

/-- A statement that only counts. -/
theorem Advances.tally {u : Tables} {q : Point} (hexec : some (u, q) = some (t', p')) (hcross : u.crossings = t.crossings)
    (hcards : u.cards = t.cards) (hp : p.crossing = none) (hq : q.crossing = none)
    (hadmits : ∀ message, q ≠ .createTurn message) (hcounts : Counts c t p u q) : Advances c t p t' p' := by
  cases hexec
  refine ⟨fun message h => absurd h (hadmits message), .keeps (.inr ⟨hp, hq⟩) hcross fun k => ?_, hcounts⟩
  rw [parkedAt, hcards]
  rfl

theorem crossing_undecided (resume : Bool) : (undecided resume).crossing = none := by
  cases resume <;> rfl

theorem undecided_ne (resume : Bool) (message : ContinuePayload) : undecided resume ≠ .createTurn message := by
  cases resume <;> simp [undecided]

theorem counts_undecided (resume : Bool) : (undecided resume).counts = false := by
  cases resume <;> rfl

/-- Every statement advances its call. -/
theorem advances_exec (hexec : exec c t p = some (t', p')) : Advances c t p t' p' := by
  unfold exec at hexec
  split at hexec
  all_goals try exact Advances.read hexec rfl rfl (by simp) rfl
  · -- time passes
    cases hexec
    exact ⟨fun message h => .inl h, .keeps (.inl rfl) rfl fun _ => rfl, .keeps rfl rfl rfl rfl⟩
  · split at hexec
    · rename_i hlt
      cases hexec
      refine ⟨fun _ _ => .inr ?_, .keeps (.inr ⟨rfl, rfl⟩) rfl fun _ => rfl, .keeps rfl rfl rfl rfl⟩
      exact decide_eq_false (not_lt.mpr hlt.le)
    · split at hexec <;> exact Advances.read hexec rfl rfl (by simp) rfl
  · rename_i message
    split at hexec
    · rename_i hcap
      cases hexec
      exact ⟨nofun, .claims message rfl rfl rfl fun _ => rfl, .crosses rfl hcap rfl rfl rfl⟩
    · exact Advances.read hexec rfl rfl (by simp) rfl
  · rename_i message crossing
    cases hexec
    exact ⟨nofun, .parks message crossing rfl rfl rfl (parkedAt_requestCard t message crossing),
      .keeps rfl rfl rfl rfl⟩
  · exact Advances.tally hexec rfl rfl rfl rfl (by simp) (.lands _ rfl rfl rfl rfl)
  · obtain ⟨-, -, hcross, hcards⟩ := count_fields t
    exact Advances.tally hexec hcross hcards rfl rfl (by simp) (.counts rfl rfl rfl)
  · exact Advances.tally hexec rfl rfl rfl rfl (by simp) (.resets rfl rfl)
  · split at hexec <;> exact Advances.read hexec rfl rfl (by simp) rfl
  · rename_i resume id decision
    split at hexec
    · exact .read hexec rfl (crossing_undecided resume) (undecided_ne resume) (counts_undecided resume)
    · split at hexec
      · exact Advances.read hexec rfl rfl (by simp) rfl
      · exact .read hexec rfl (crossing_undecided resume) (undecided_ne resume) (counts_undecided resume)
  · split at hexec <;> exact Advances.read hexec rfl rfl (by simp) rfl
  · rename_i resume id
    split at hexec
    · exact .status hexec rfl (crossing_undecided resume) (undecided_ne resume) (counts_undecided resume)
    · exact .read hexec rfl (crossing_undecided resume) (undecided_ne resume) (counts_undecided resume)
  · rename_i resume card decision
    exact .read hexec rfl (crossing_undecided resume) (undecided_ne resume) (counts_undecided resume)
  · rename_i resume card decision
    split at hexec
    · split at hexec <;> exact Advances.status hexec rfl rfl (by simp) rfl
    · exact .read hexec rfl (crossing_undecided resume) (undecided_ne resume) (counts_undecided resume)
  · exact Advances.tally hexec rfl rfl rfl rfl (by simp) (.resets rfl rfl)
  · exact Advances.tally hexec rfl rfl rfl rfl (by simp) (.replays _ rfl rfl rfl rfl)
  · exact Advances.status hexec rfl rfl (by simp) rfl
  · split at hexec
    · exact Advances.status hexec rfl rfl (by simp) rfl
    · exact Advances.read hexec rfl rfl (by simp) rfl
  · cases hexec

namespace World

variable {w : World} {i : ℕ}

/-- Which calls are crossing after one went on. -/
theorem crossing_update (w : World) (i : ℕ) (p : Point) (j : ℕ) :
    (update w.calls i p j).crossing = if j = i then p.crossing else (w.calls j).crossing := by
  rw [update_apply]
  split <;> rfl

theorem CrossesOnce.keeps (h : w.CrossesOnce) (hpoint : p' = w.calls i ∨ (w.calls i).crossing = none ∧ p'.crossing = none)
    (hcross : t'.crossings = w.db.crossings) (hparked : ∀ k, t'.parkedAt k = w.db.parkedAt k) :
    CrossesOnce ⟨t', update w.calls i p'⟩ := by
  have hcrossing : p'.crossing = (w.calls i).crossing := by
    rcases hpoint with rfl | ⟨hp, hp'⟩
    · rfl
    · rw [hp, hp']
  have hall (j : ℕ) : (update w.calls i p' j).crossing = (w.calls j).crossing := by
    rw [crossing_update]
    split
    · rename_i hj
      rw [hj, hcrossing]
    · rfl
  -- a point of a crossing stays
  have hsame (j : ℕ) (q : Point) (hq : q.crossing ≠ none) (hj : update w.calls i p' j = q) : w.calls j = q := by
    by_cases hji : j = i
    · subst hji
      rw [update_self] at hj
      rcases hpoint with hp | ⟨-, hnone⟩
      · exact hp.symm.trans hj
      · rw [← hj, hnone] at hq
        exact absurd rfl hq
    · rw [update_of_ne hji] at hj
      exact hj
  refine ⟨fun k hk => ?_, fun j k hj => ?_, fun j message k hj => ?_, fun j message k hj => ?_, fun k hk => ?_⟩
  · obtain ⟨j, hj, huniq⟩ := h.call k (hcross ▸ hk)
    exact ⟨j, (hall j).trans hj, fun l hl => huniq l ((hall l).symm.trans hl)⟩
  · rw [hcross]
    exact h.known j k ((hall j).symm.trans hj)
  · exact (hparked k).trans (h.parked j message k (hsame j _ (some_ne_none k) hj))
  · exact (hparked k).trans (h.asked j message k (hsame j _ (some_ne_none k) hj))
  · rw [hcross] at hk
    exact (hparked k).trans (h.free k hk)

theorem CrossesOnce.claims (h : w.CrossesOnce) {message : ContinuePayload} (hp : (w.calls i).crossing = none)
    (hcross : t'.crossings = w.db.crossings + 1) (hparked : ∀ k, t'.parkedAt k = w.db.parkedAt k) :
    CrossesOnce ⟨t', update w.calls i (.requestCard message w.db.crossings)⟩ := by
  have hother (j k : ℕ) (hj : (w.calls j).crossing = some k) : j ≠ i := by
    rintro rfl
    rw [hp] at hj
    cases hj
  refine ⟨fun k hk => ?_, fun j k hj => ?_, fun j m k hj => ?_, fun j m k hj => ?_, fun k hk => ?_⟩
  · rw [hcross] at hk
    rcases Nat.lt_succ_iff_lt_or_eq.mp hk with hlt | rfl
    · obtain ⟨j, hj, huniq⟩ := h.call k hlt
      refine ⟨j, by rw [crossing_update, if_neg (hother j k hj)]; exact hj, fun l hl => ?_⟩
      rw [crossing_update] at hl
      split at hl
      · exact absurd (some.inj hl).symm (Nat.ne_of_lt hlt)
      · exact huniq l hl
    · refine ⟨i, by rw [crossing_update, if_pos rfl]; rfl, fun l hl => ?_⟩
      rw [crossing_update] at hl
      split at hl
      · assumption
      · exact absurd (h.known l _ hl) (lt_irrefl _)
  · rw [hcross]
    rw [crossing_update] at hj
    split at hj
    · rw [← some.inj hj]
      exact lt_succ_self _
    · exact lt_succ_of_lt (h.known j k hj)
  · change update w.calls i _ j = _ at hj
    rw [update_apply] at hj
    split at hj
    · cases hj
    · exact (hparked k).trans (h.parked j m k hj)
  · change update w.calls i _ j = _ at hj
    rw [update_apply] at hj
    split at hj
    · obtain ⟨-, rfl⟩ := Point.requestCard.inj hj
      exact (hparked _).trans (h.free _ le_rfl)
    · exact (hparked k).trans (h.asked j m k hj)
  · rw [hcross] at hk
    exact (hparked k).trans (h.free k (le_of_succ_le hk))

theorem CrossesOnce.parks (h : w.CrossesOnce) {message : ContinuePayload} {k : ℕ}
    (hp : w.calls i = .requestCard message k) (hcross : t'.crossings = w.db.crossings)
    (hparked : ∀ j, t'.parkedAt j = w.db.parkedAt j ++ if k = j then [message] else []) :
    CrossesOnce ⟨t', update w.calls i (.paused message k)⟩ := by
  have hmine : (w.calls i).crossing = some k := by
    rw [hp]
    rfl
  have hk := h.known i k hmine
  have hall (j : ℕ) : (update w.calls i (.paused message k) j).crossing = (w.calls j).crossing := by
    rw [crossing_update]
    split
    · rename_i hj
      rw [hj, hmine]
      rfl
    · rfl
  have hrest {j : ℕ} (hj : k ≠ j) : t'.parkedAt j = w.db.parkedAt j := by
    rw [hparked, if_neg hj, append_nil]
  -- no other call is of the crossing
  have hother {j l : ℕ} (hji : j ≠ i) (hj : (w.calls j).crossing = some l) : k ≠ l := by
    rintro rfl
    obtain ⟨o, -, huniq⟩ := h.call k hk
    exact hji ((huniq j hj).trans (huniq i hmine).symm)
  refine ⟨fun l hl => ?_, fun j l hj => ?_, fun j m l hj => ?_, fun j m l hj => ?_, fun l hl => ?_⟩
  · obtain ⟨j, hj, huniq⟩ := h.call l (hcross ▸ hl)
    exact ⟨j, (hall j).trans hj, fun o ho => huniq o ((hall o).symm.trans ho)⟩
  · rw [hcross]
    exact h.known j l ((hall j).symm.trans hj)
  · change update w.calls i _ j = _ at hj
    rw [update_apply] at hj
    split at hj
    · cases hj
      rw [hparked, if_pos rfl, h.asked i message k hp, nil_append]
    · rename_i hji
      exact (hrest (hother hji (by rw [hj]; rfl))).trans (h.parked j m l hj)
  · change update w.calls i _ j = _ at hj
    rw [update_apply] at hj
    split at hj
    · cases hj
    · rename_i hji
      exact (hrest (hother hji (by rw [hj]; rfl))).trans (h.asked j m l hj)
  · rw [hcross] at hl
    exact (hrest (Nat.ne_of_lt (hk.trans_le hl))).trans (h.free l hl)

theorem CrossesOnce.initial (now : ℕ) : (AppTurnCap.initial now).CrossesOnce where
  call := fun k hk => absurd hk (not_lt_zero k)
  known := nofun
  parked := nofun
  asked := nofun
  free := fun _ _ => rfl

theorem CrossesOnce.step {w w' : World} {e : ℕ × Choice} (h : w.CrossesOnce) (hstep : AppTurnCap.step w e = some w') :
    w'.CrossesOnce := by
  obtain ⟨t, p, hexec, rfl⟩ := (Calls.step_eq_some_iff _ w w' e).mp hstep
  cases (advances_exec hexec).crosses with
  | keeps hpoint hcross hparked => exact h.keeps hpoint hcross hparked
  | claims message hp hp' hcross hparked => exact hp' ▸ h.claims hp hcross hparked
  | parks message k hp hp' hcross hparked => exact hp' ▸ h.parks hp hcross hparked

end World

/-- The streak is short of the turns of a round by the replayed ones, and by the one that is about to be counted, while
it is below the cap. -/
structure Tallied (w : World) : Prop where
  capped : w.Capped
  counted : Calls.Free w Point.counts → w.db.turns ≤ w.db.appTurnStreak + w.db.replayed
  counting : ∀ i, (w.calls i).counts = true → w.db.appTurnStreak < APP_TURN_CAP ∧
    w.db.turns ≤ w.db.appTurnStreak + w.db.replayed + 1 ∧ ∀ j, (w.calls j).counts = true → j = i

/-- Without turns the tally is right. -/
theorem Tallied.initial (now : ℕ) : Tallied (initial now) := ⟨zero_le _, fun _ => le_rfl, nofun⟩

namespace Tallied

variable {w w' : World} {i : ℕ}

/-- Where the calls that count stay where they are, and the streak holds up to the turns. -/
theorem keeps (h : Tallied w) (hsame : ∀ j, (w'.calls j).counts = (w.calls j).counts)
    (hturns : w'.db.turns ≤ w.db.turns)
    (hstreak : w'.db.turns = 0 ∨ w.db.appTurnStreak + w.db.replayed ≤ w'.db.appTurnStreak + w'.db.replayed)
    (hbelow : w.db.appTurnStreak < APP_TURN_CAP → w'.db.appTurnStreak < APP_TURN_CAP) : Tallied w' where
  capped := hturns.trans h.capped
  counted := fun hfree => by
    have hold := h.counted fun j => (hsame j).symm.trans (hfree j)
    omega
  counting := fun j hj => by
    obtain ⟨hlt, hle, hsole⟩ := h.counting j ((hsame j).symm.trans hj)
    exact ⟨hbelow hlt, by omega, fun k hk => hsole k ((hsame k).symm.trans hk)⟩

end Tallied

/-- A turn that is counted first keeps the tally. -/
theorem Tallied.step {w w' : World} {e : ℕ × Choice} (h : Tallied w) (hcond : CountedFirst w e)
    (hstep : AppTurnCap.step w e = some w') : Tallied w' := by
  obtain ⟨hexec, hothers⟩ := Calls.exec_of_step _ hstep
  have hsame (hpoint : (w'.calls e.1).counts = (w.calls e.1).counts) (j : ℕ) :
      (w'.calls j).counts = (w.calls j).counts := by
    by_cases hj : j = e.1
    · rw [hj]
      exact hpoint
    · rw [hothers j hj]
  cases (advances_exec hexec).counts with
  | keeps hturns hstreak hreplayed hpoint =>
    exact h.keeps (hsame hpoint) hturns.le (.inr (by rw [hstreak, hreplayed])) fun hlt => hstreak ▸ hlt
  | crosses hturns hcap hstreak hreplayed hpoint =>
    refine h.keeps (hsame hpoint) hturns.le (.inr ?_) fun hlt => absurd hcap (Nat.ne_of_lt hlt)
    rw [hstreak, hreplayed]
    omega
  | lands message hc hp hp' ht =>
    have hroom : w.db.appTurnStreak + w.db.replayed < APP_TURN_CAP ∧ Calls.Free w Point.counts := by
      unfold CountedFirst at hcond
      rw [hc, hp] at hcond
      exact hcond
    have hcounted := h.counted hroom.2
    have hturns : w'.db.turns = w.db.turns + 1 := by rw [ht]; rfl
    have hstreak : w'.db.appTurnStreak + w'.db.replayed = w.db.appTurnStreak + w.db.replayed := by rw [ht]; rfl
    have hsole (j : ℕ) (hj : (w'.calls j).counts = true) : j = e.1 := by
      by_contra hne
      rw [hothers j hne, hroom.2 j] at hj
      cases hj
    refine ⟨?_, fun hfree => ?_, fun j hj => ⟨?_, by omega, fun k hk => (hsole k hk).trans (hsole j hj).symm⟩⟩
    · unfold World.Capped
      omega
    · have hnone := hfree e.1
      rw [hp'] at hnone
      cases hnone
    · omega
  | replays card hc hp hp' ht =>
    have hroom : w.db.appTurnStreak + w.db.replayed < APP_TURN_CAP ∧ Calls.Free w Point.counts := by
      unfold CountedFirst at hcond
      rw [hc, hp] at hcond
      exact hcond
    have hcounted := h.counted hroom.2
    have hturns : w'.db.turns = w.db.turns + 1 := by rw [ht]; rfl
    have hstreak : w'.db.appTurnStreak + w'.db.replayed = w.db.appTurnStreak + w.db.replayed + 1 := by rw [ht]; rfl
    have hnone (j : ℕ) : (w'.calls j).counts = false := by
      by_cases hj : j = e.1
      · rw [hj]
        exact hp'
      · rw [hothers j hj]
        exact hroom.2 j
    refine ⟨?_, fun _ => by omega, fun j hj => ?_⟩
    · unfold World.Capped
      omega
    · rw [hnone j] at hj
      cases hj
  | counts hp hp' ht =>
    obtain ⟨hlt, hle, hsole⟩ := h.counting e.1 (by rw [hp]; rfl)
    obtain ⟨hturns, hreplayed, -, -⟩ := count_fields w.db
    have hraised : w.db.count.appTurnStreak = w.db.appTurnStreak + 1 := by
      unfold Tables.count
      rw [if_pos hlt]
    have hnone (j : ℕ) : (w'.calls j).counts = false := by
      by_cases hj : j = e.1
      · rw [hj]
        exact hp'
      · rw [hothers j hj]
        exact Bool.eq_false_of_not_eq_true fun hcounts => hj (hsole j hcounts)
    refine ⟨?_, fun _ => ?_, fun j hj => ?_⟩
    · unfold World.Capped
      rw [ht, hturns]
      exact h.capped
    · rw [ht, hturns, hreplayed, hraised]
      omega
    · rw [hnone j] at hj
      cases hj
  | resets hpoint ht =>
    have hzero : w'.db.turns = 0 := by rw [ht]; rfl
    refine h.keeps (hsame hpoint) (hzero ▸ zero_le _) (.inl hzero) fun _ => ?_
    rw [ht]
    exact (by decide : 0 < APP_TURN_CAP)

/-- A message of an app. -/
def said : ContinuePayload := ⟨[], [], .app []⟩

/-- An app message whose turn is created and counted. -/
def answered (i : ℕ) : List (ℕ × Choice) := [(i, .app said), (i, .go), (i, .go), (i, .go)]

/-- The messages that fill a round. -/
def filled : List (ℕ × Choice) := (List.range APP_TURN_CAP).flatMap answered

/-- A message that crosses the cap, and one that is silenced. -/
def crossed : List (ℕ × Choice) := [(10, .app said), (10, .go), (10, .go), (10, .go), (11, .app said), (11, .go)]

/-- The card of the paused message is approved, and another message is answered in the round that it opens. -/
def approved : List (ℕ × Choice) :=
  (12, .decide 0 .approve) :: List.replicate 8 (12, .go) ++ answered 13

/-- A condition on fewer points. -/
theorem Counted.imp (f g : (Point → Bool) → Prop) (himp : ∀ kind, kind .idle = false → f kind → g kind) (c : Choice)
    (t : Tables) (p : Point) (h : Counted f c t p) : Counted g c t p := by
  unfold Counted at h ⊢
  split
  · exact ⟨h.1, himp _ rfl h.2⟩
  · exact ⟨h.1, himp _ rfl h.2⟩
  · trivial

end Onecli.Channels.AppTurnCap
