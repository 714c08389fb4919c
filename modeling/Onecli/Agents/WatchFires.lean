import Onecli.Agents.Types
import Onecli.Foundation.Calls

/-!
# The fires of a watch

`watch-fire-service.ts`, and the claim and the release of `due-work.ts`, on one watch. A poller claims
the triggered row by stamping a lease that runs out, and gives the wake: a turn in the origin
conversation or in the watch's own, a follow-up of a wake that runs, or a notice. The row is marked
fired in a later statement. What the other services answer is a choice of the environment; a turn that
is born failed in the watch's own conversation wakes nobody, and its notice says so.
-/

namespace Onecli.Agents.WatchFires

open Option Runs

/-- `WATCH_FIRE_LEASE_SECONDS`. -/
def watchFireLeaseSeconds : ℕ := 300

/-- A row of `process_watches`, as a fire reads it. -/
structure Watch where
  status : WatchStatus
  trigger : Option WatchTrigger
  fireClaimedAt : Option ℕ
  expiresAt : ℕ
  originConversationId : Option ℕ
  createdByUserId : Option ℕ

/-- What reaches somebody. -/
inductive Delivery where
  | turn
  | followUp
  | notice

/-- The row, and what was delivered for it. -/
structure Db where
  watch : Watch
  delivered : List Delivery

/-- The next statement of a poller that claimed the watch. -/
inductive Point where
  | idle
  | due
  | notice
  | partition
  | cancel
  /-- In the bucket of its origin. -/
  | bucket
  | join
  | followUp
  | joinMark
  | busy
  /-- On the hidden path. -/
  | authorize
  | conversation
  | create
  | mark (delivered : Bool)
  | markFailed
  | failedNotice
  deriving DecidableEq

/-- What another service or the database answers. -/
inductive Answer where
  | ok
  /-- A turn is born failed. -/
  | failed
  /-- A conversation is busy. -/
  | conflict
  | error
  deriving DecidableEq

/-- Where `partitionDue` puts a watch. -/
inductive Route where
  | bucket
  | single
  | cancel

/-- What a call does next. -/
inductive Choice where
  | trigger (trigger : WatchTrigger)
  | expire (now : ℕ)
  | claim (now : ℕ)
  /-- The straggler claim of a poller that has the watch already. -/
  | absorb (now : ℕ)
  | release
  | proceed (now : ℕ) (route : Route) (answer : Answer)
  | crash

/-- `claimTriggeredWatches` and `claimTriggeredWatchesForOrigins`, of this row. -/
def claimTriggered (now : ℕ) (watch : Watch) : Option Watch :=
  if watch.status = .triggered ∧ ∀ claimedAt ∈ watch.fireClaimedAt, claimedAt + watchFireLeaseSeconds < now then
    some { watch with fireClaimedAt := some now }
  else none

/-- `releaseWatchFireClaimsForConversation`, when a turn of the origin finishes. -/
def releaseClaim (watch : Watch) : Watch :=
  if watch.originConversationId ≠ none ∧ watch.status = .triggered then { watch with fireClaimedAt := none }
  else watch

/-- A frame or the coherence sweep triggers the watch. -/
def triggerWatch (trigger : WatchTrigger) (watch : Watch) : Watch :=
  if watch.status = .armed then { watch with status := .triggered, trigger := some trigger } else watch

/-- `sweepExpiredWatches`. -/
def expireWatch (now : ℕ) (watch : Watch) : Watch :=
  if watch.status = .armed ∧ watch.expiresAt < now then { watch with status := .expired } else watch

/-- `markFired`. -/
def markFired (watch : Watch) : Watch := if watch.status = .triggered then { watch with status := .fired } else watch

/-- `cancelWatch`. -/
def cancelWatch (watch : Watch) : Watch :=
  if watch.status = .triggered then { watch with status := .canceled } else watch

/-- Something is delivered. -/
def Db.deliver (db : Db) (delivery : Delivery) : Db := { db with delivered := delivery :: db.delivered }

/-- The row is written. -/
def Db.write (db : Db) (change : Watch → Watch) : Db := { db with watch := change db.watch }

/-- The next statement of `fireDueWatches`, for this watch. -/
def proceed (now : ℕ) (route : Route) (answer : Answer) (db : Db) : Point → Option (Db × Point)
  | .idle => none
  | .due =>
    some (db,
      if db.watch.trigger = some .parked then
        if db.watch.originConversationId = none then .mark false else .notice
      else .partition)
  -- `settleParkedWatch`
  | .notice => some (if answer = .ok then (db.deliver .notice, .mark true) else (db, .idle))
  -- `partitionDue`
  | .partition =>
    some (db, match route with
      | .bucket => if db.watch.originConversationId = none then .authorize else .bucket
      | .single => .authorize
      | .cancel => .cancel)
  | .cancel => some (if answer = .ok then db.write cancelWatch else db, .idle)
  -- `fireBucket`
  | .bucket =>
    some (match answer with
      | .ok | .failed => (db.deliver .turn, .mark true)
      | .conflict => (db, .join)
      | .error => (db, .idle))
  -- `joinRunningWake`
  | .join => some (db, if answer = .ok then .followUp else .busy)
  | .followUp => some (if answer = .ok then (db.deliver .followUp, .joinMark) else (db, .busy))
  | .joinMark => some (if answer = .ok then (db.write markFired, .idle) else (db, .busy))
  -- the watches past their deadline take the hidden path
  | .busy => some (db, if db.watch.expiresAt < now then .authorize else .idle)
  -- `fireOne`
  | .authorize => some (db, if db.watch.createdByUserId = none ∨ answer = .ok then .conversation else .cancel)
  | .conversation => some (db, if answer = .ok then .create else .idle)
  | .create =>
    some (match answer with
      | .ok => (db.deliver .turn, .mark true)
      | .failed => (db, .markFailed)
      | .conflict => (db, .mark false)
      | .error => (db, .idle))
  | .mark _ => some (if answer = .ok then db.write markFired else db, .idle)
  | .markFailed =>
    some (if answer = .ok then
        (db.write markFired, if db.watch.originConversationId = none then .idle else .failedNotice)
      else (db, .idle))
  | .failedNotice => some (if answer = .ok then db.deliver .notice else db, .idle)

/-- One statement. -/
def exec : Calls.Exec Db Point Choice
  | .trigger trigger, db, .idle => some (db.write (triggerWatch trigger), .idle)
  | .expire now, db, .idle => some (db.write (expireWatch now), .idle)
  | .claim now, db, .idle => (claimTriggered now db.watch).map fun watch => ({ db with watch }, .due)
  | .absorb now, db, .bucket => (claimTriggered now db.watch).map fun watch => ({ db with watch }, .bucket)
  | .release, db, .idle => some (db.write releaseClaim, .idle)
  | .proceed now route answer, db, point => proceed now route answer db point
  | .crash, db, _ => some (db, .idle)
  | _, _, _ => none

/-- A watch is claimed while no other poller has it, and no poller fails or dies between a delivery and
its mark. -/
def Settled (w : Calls.World Db Point) : Choice → Point → Prop
  | .claim _, _ => ∀ j, w.calls j = .idle
  | .crash, .mark true | .crash, .joinMark => False
  | .proceed _ _ answer, .mark true | .proceed _ _ answer, .joinMark => answer = .ok
  | _, _ => True

/-- What holds of the row, by where the poller that has it stands. -/
def Phase (db : Db) : Point → Prop
  | .idle => db.delivered.length ≤ 1 ∧ (¬ db.watch.status.terminal → db.delivered = [])
  | .mark true | .joinMark => db.delivered.length = 1 ∧ db.watch.status ≠ .armed
  | .failedNotice => db.delivered = [] ∧ db.watch.status.terminal
  | _ => db.delivered = [] ∧ db.watch.status ≠ .armed

variable {db : Db} {point : Point} {w : Calls.World Db Point}

/-- A fire is delivered once. -/
theorem Phase.length_le (h : Phase db point) : db.delivered.length ≤ 1 := by
  have hnil : db.delivered = [] → db.delivered.length ≤ 1 := fun h => by
    rw [h]
    exact Nat.zero_le 1
  cases point with
  | idle => exact h.1
  | mark delivered =>
    cases delivered with
    | true => exact Nat.le_of_eq h.1
    | false => exact hnil h.1
  | joinMark => exact Nat.le_of_eq h.1
  | _ => exact hnil h.1

/-- Before a delivery an idle call is in its phase. -/
theorem phase_idle_of_nil (h : db.delivered = []) : Phase db .idle := ⟨by rw [h]; exact Nat.zero_le 1, fun _ => h⟩

/-- A write that only ends watches keeps the phase. -/
theorem Phase.write (h : Phase db point) {change : Watch → Watch}
    (hterm : ∀ watch, watch.status.terminal → (change watch).status.terminal)
    (harmed : ∀ watch, watch.status ≠ .armed → (change watch).status ≠ .armed) : Phase (db.write change) point := by
  cases point with
  | idle => refine ⟨h.1, fun hopen => h.2 fun hend => hopen (hterm db.watch hend)⟩
  | mark delivered =>
    cases delivered with
    | true | false => exact ⟨h.1, harmed db.watch h.2⟩
  | failedNotice => exact ⟨h.1, hterm db.watch h.2⟩
  | _ => exact ⟨h.1, harmed db.watch h.2⟩

theorem terminal_markFired {watch : Watch} (h : watch.status ≠ .armed) : (markFired watch).status.terminal := by
  rw [markFired]
  by_cases htriggered : watch.status = .triggered
  · rw [if_pos htriggered]
    rfl
  · rw [if_neg htriggered]
    cases hstatus : watch.status with
    | armed => exact absurd hstatus h
    | triggered => exact absurd hstatus htriggered
    | _ => rfl

theorem phase_idle_of_marked (hlength : db.delivered.length ≤ 1) (h : db.watch.status ≠ .armed) :
    Phase (db.write markFired) .idle :=
  ⟨hlength, fun hopen => absurd (terminal_markFired h) hopen⟩

theorem proceed_phase {point point' : Point} {now : ℕ} {route : Route} {answer : Answer} {db db' : Db}
    (hcond : Settled w (.proceed now route answer) point) (h : Phase db point)
    (hexec : proceed now route answer db point = some (db', point')) : Phase db' point' := by
  have hfirst {delivery : Delivery} (hnil : db.delivered = []) : (db.deliver delivery).delivered.length = 1 := by
    rw [Db.deliver, hnil]
    rfl
  cases point with
  | idle => cases hexec
  | due =>
    cases hexec
    split
    · split <;> exact h
    · exact h
  | notice =>
    simp only [proceed, some.injEq] at hexec
    split at hexec
    · cases hexec
      exact ⟨hfirst h.1, h.2⟩
    · cases hexec
      exact phase_idle_of_nil h.1
  | partition =>
    cases hexec
    cases route with
    | bucket =>
      dsimp only
      split <;> exact h
    | single | cancel => exact h
  | cancel =>
    cases hexec
    split <;> exact phase_idle_of_nil h.1
  | bucket =>
    cases answer with
    | conflict =>
      cases hexec
      exact h
    | error =>
      cases hexec
      exact phase_idle_of_nil h.1
    | _ =>
      cases hexec
      exact ⟨hfirst h.1, h.2⟩
  | join | authorize =>
    cases hexec
    split
    · exact h
    · exact h
  | followUp =>
    simp only [proceed, some.injEq] at hexec
    split at hexec
    · cases hexec
      exact ⟨hfirst h.1, h.2⟩
    · cases hexec
      exact h
  | joinMark =>
    obtain rfl : answer = .ok := hcond
    cases hexec
    exact phase_idle_of_marked (Nat.le_of_eq h.1) h.2
  | create =>
    cases answer with
    | ok =>
      cases hexec
      exact ⟨hfirst h.1, h.2⟩
    | failed | conflict =>
      cases hexec
      exact h
    | error =>
      cases hexec
      exact phase_idle_of_nil h.1
  | mark delivered =>
    cases hexec
    cases delivered with
    | true =>
      obtain rfl : answer = .ok := hcond
      exact phase_idle_of_marked (Nat.le_of_eq h.1) h.2
    | false => split <;> exact phase_idle_of_nil h.1
  | markFailed =>
    simp only [proceed, some.injEq] at hexec
    split at hexec
    · cases hexec
      split
      · exact phase_idle_of_nil h.1
      · exact ⟨h.1, terminal_markFired h.2⟩
    · cases hexec
      exact phase_idle_of_nil h.1
  | failedNotice =>
    cases hexec
    split
    · exact ⟨Nat.le_of_eq (hfirst h.1), fun hopen => absurd h.2 hopen⟩
    · exact phase_idle_of_nil h.1
  | _ =>
    cases hexec
    split
    · exact h
    · exact phase_idle_of_nil h.1

theorem claimTriggered_status {now : ℕ} {watch watch' : Watch} (h : claimTriggered now watch = some watch') :
    watch.status = .triggered ∧ watch'.status = .triggered := by
  simp only [claimTriggered, ite_none_right_eq_some, some.injEq] at h
  obtain ⟨⟨hstatus, -⟩, rfl⟩ := h
  exact ⟨hstatus, hstatus⟩

theorem Phase.trigger (h : Phase db point) (trigger : WatchTrigger) :
    Phase (db.write (triggerWatch trigger)) point := by
  refine h.write (fun watch hend => ?_) fun watch harmed => ?_
  · rw [triggerWatch, if_neg]
    · exact hend
    · intro harmed
      rw [harmed] at hend
      cases hend
  · rw [triggerWatch, if_neg harmed]
    exact harmed

theorem Phase.expire (h : Phase db point) (now : ℕ) : Phase (db.write (expireWatch now)) point := by
  refine h.write (fun watch hend => ?_) fun watch harmed => ?_
  · rw [expireWatch]
    split
    · rfl
    · exact hend
  · rw [expireWatch, if_neg fun h => harmed h.1]
    exact harmed

theorem Phase.release (h : Phase db point) : Phase (db.write releaseClaim) point := by
  have hstatus (watch : Watch) : (releaseClaim watch).status = watch.status := by
    rw [releaseClaim]
    split
    · rfl
    · rfl
  refine h.write (fun watch hend => ?_) fun watch harmed => ?_
  · rw [hstatus]
    exact hend
  · rw [hstatus]
    exact harmed

theorem Phase.crash (hcond : Settled w .crash point) (h : Phase db point) : Phase db .idle := by
  cases point with
  | idle => exact h
  | mark delivered =>
    cases delivered with
    | true => exact absurd hcond id
    | false => exact phase_idle_of_nil h.1
  | joinMark => exact absurd hcond id
  | _ => exact phase_idle_of_nil h.1

/-- A watch that is armed or triggered, and that no poller has. -/
def unclaimed (watch : Watch) : Calls.World Db Point := ⟨⟨watch, []⟩, fun _ => .idle⟩

/-- One statement: a sweep's keeps what holds, and another is of the poller that has the watch, or takes
it while no poller has it. -/
theorem exec_phase {point point' : Point} {choice : Choice} (hcond : Settled w choice point)
    (hexec : exec choice w.db point = some (db, point')) :
    (point = .idle ∧ point' = .idle ∧ ∀ q, Phase w.db q → Phase db q) ∨
      ((point = .idle → ∀ j, w.calls j = .idle) ∧ (Phase w.db point → Phase db point')) := by
  cases choice with
  | trigger trigger =>
    cases point with
    | idle =>
      cases hexec
      exact .inl ⟨rfl, rfl, fun q h => h.trigger trigger⟩
    | _ => cases hexec
  | expire now =>
    cases point with
    | idle =>
      cases hexec
      exact .inl ⟨rfl, rfl, fun q h => h.expire now⟩
    | _ => cases hexec
  | release =>
    cases point with
    | idle =>
      cases hexec
      exact .inl ⟨rfl, rfl, fun q h => h.release⟩
    | _ => cases hexec
  | claim =>
    cases point with
    | idle =>
      obtain ⟨watch, hclaim, hresult⟩ := map_eq_some_iff.mp hexec
      obtain ⟨hstatus, hstatus'⟩ := claimTriggered_status hclaim
      cases hresult
      refine .inr ⟨fun _ => hcond, fun h => ⟨h.2 ?_, ?_⟩⟩
      · rw [hstatus]
        exact Bool.false_ne_true
      · rw [hstatus']
        exact WatchStatus.noConfusion
    | _ => cases hexec
  | absorb =>
    cases point with
    | bucket =>
      obtain ⟨watch, hclaim, hresult⟩ := map_eq_some_iff.mp hexec
      obtain ⟨-, hstatus'⟩ := claimTriggered_status hclaim
      cases hresult
      refine .inr ⟨Point.noConfusion, fun h => ⟨h.1, ?_⟩⟩
      rw [hstatus']
      exact WatchStatus.noConfusion
    | _ => cases hexec
  | proceed =>
    refine .inr ⟨?_, fun h => proceed_phase hcond h hexec⟩
    rintro rfl
    cases hexec
  | crash =>
    cases hexec
    by_cases hidle : point = .idle
    · exact .inl ⟨hidle, rfl, fun q h => h⟩
    · exact .inr ⟨fun h => absurd h hidle, fun h => h.crash hcond⟩

/-- In a run in which a watch is claimed only while no other poller has it, and no poller fails or dies
between a delivery and its mark, one watch has one delivery at most. -/
theorem run_delivers_once (watch : Watch) (t : Calls.World Db Point) (es : List (ℕ × Choice))
    (hrun : run (Calls.step exec) (unclaimed watch) es = some t)
    (hmeets : Runs.Meets (Calls.step exec) (fun w e => Settled w e.2 (w.calls e.1)) (unclaimed watch) es) :
    t.db.delivered.length ≤ 1 := by
  have hstart : Calls.Sole .idle Phase (unclaimed watch) := ⟨0, fun _ _ => rfl, phase_idle_of_nil rfl⟩
  obtain ⟨i, -, hphase⟩ :=
    Calls.run_sole_of_meets exec (fun _ _ _ _ hcond hexec => exec_phase hcond hexec) hstart hmeets hrun
  exact hphase.length_le

/-- A triggered watch of a direct conversation. -/
def finished : Watch := ⟨.triggered, some .exited, none, 9000, some 4, none⟩

/-- A poller claims the watch and finds its origin busy with a wake. -/
def toJoin (poller now : ℕ) : List (ℕ × Choice) :=
  [(poller, .claim now), (poller, .proceed now .bucket .ok), (poller, .proceed now .bucket .ok),
    (poller, .proceed now .bucket .conflict), (poller, .proceed now .bucket .ok)]

/-- A poller dies before it delivers, and after the lease another one joins the wake that runs. -/
def joined : List (ℕ × Choice) :=
  toJoin 0 100 ++ (0, .crash) :: toJoin 1 500 ++ [(1, .proceed 500 .bucket .ok), (1, .proceed 500 .bucket .ok)]

/-- The second poller's follow-up is the only delivery. -/
theorem run_delivers_once_joined :
    ∃ t, run (Calls.step exec) (unclaimed finished) joined = some t ∧ t.db.delivered.length ≤ 1 := by
  refine ⟨_, rfl, run_delivers_once finished _ joined rfl ?_⟩
  refine meets_cons_of_eq _ rfl (fun j => rfl) ?_
  iterate 5 refine meets_cons_of_eq _ rfl trivial ?_
  refine meets_cons_of_eq _ rfl ?_ ?_
  · intro j
    match j with
    | 0 => rfl
    | j + 1 => rfl
  iterate 5 refine meets_cons_of_eq _ rfl trivial ?_
  exact meets_cons_of_eq _ rfl rfl trivial

/-- A poller creates the turn of a watch, the turn finishes and releases the claim before the row is marked,
and a second poller creates another turn. -/
theorem not_once_after_release : ¬ ∀ (watch : Watch) (t : Calls.World Db Point) (es : List (ℕ × Choice)),
    run (Calls.step exec) (unclaimed watch) es = some t → t.db.delivered.length ≤ 1 := by
  intro hall
  have hlength := hall finished _ [(0, .claim 100), (0, .proceed 100 .bucket .ok), (0, .proceed 100 .bucket .ok),
    (0, .proceed 100 .bucket .ok), (2, .release), (1, .claim 101), (1, .proceed 101 .bucket .ok),
    (1, .proceed 101 .bucket .ok), (1, .proceed 101 .bucket .ok)] rfl
  exact absurd hlength (by decide)

end Onecli.Agents.WatchFires
