import Onecli.Foundation.Runs
import Onecli.Foundation.TtlCache
import Onecli.Gateway.Text
import Mathlib.Algebra.Order.Group.Nat
import Mathlib.Data.List.Nodup

/-!
# The window of an "approve similar"

`open` and `claim` of `approval/src/similar.rs`, for any number of calls at once. Each await is
a step of its own: between its steps a call is suspended for as long as the executor likes. The
allowance of a scope and the counter of an approval are two entries of the cache, each kept no
shorter than it was asked to be. An approval lands once, so its id opens one window.
-/

namespace Onecli.Approval.Similar

open Function (update update_of_ne update_self)
open Gateway (Str)
open TtlCache List Option Runs Nat

/-- `SIMILAR_WINDOW_SECS`. -/
def similarWindowSecs : ℕ := 15 * 60

/-- `SIMILAR_WINDOW_MAX_REQUESTS`. -/
def similarWindowMaxRequests : ℕ := 100

/-- The clock counts nanoseconds. -/
def nanos : ℕ := 1000000000

/-- `unix_now`. -/
def unixNow (now : ℕ) : ℕ := now / nanos

/-- `SimilarAllowance`. -/
structure SimilarAllowance where
  approvalId : Str
  approvedBy : Option Str
  expiresAt : ℕ

/-- `uses_key`. -/
def usesKey (approvalId : Str) : Str := "approval-similar-uses:".toList ++ approvalId

/-- Where a call of `claim` stands. -/
inductive Claim where
  /-- Before the answer of `cache.get`. -/
  | reading (key : Str)
  /-- The answer is on its way. -/
  | answered (allowance : SimilarAllowance)
  /-- The clock is read; before the answer of `cache.incr`. -/
  | counting (allowance : SimilarAllowance) (checkedAt remaining : ℕ)
  | returned (outcome : Option SimilarAllowance)

/-- The cache, the calls, and what was opened and let through. -/
structure State where
  now : ℕ
  windows : Cache Str SimilarAllowance
  uses : Cache Str ℕ
  /-- Calls of `open` before the answer of `cache.set`. -/
  opening : ℕ → Option (Str × SimilarAllowance)
  claims : ℕ → Option Claim
  opened : List SimilarAllowance
  /-- The claims let through, each with the time. -/
  passed : List (SimilarAllowance × ℕ)

/-- Nothing is stored and nothing is called. -/
def State.init (now : ℕ) : State := ⟨now, fun _ => none, fun _ => none, fun _ => none, fun _ => none, [], []⟩

/-- What can happen next. -/
inductive Event where
  | tick (nanoseconds : ℕ)
  /-- `open` is called, reads the clock and sends its `cache.set`. -/
  | «open» (call : ℕ) (key approvalId : Str) (approvedBy : Option Str)
  /-- `cache.set` is carried out. -/
  | set (call : ℕ)
  /-- The cache drops an allowance or a counter. -/
  | evictWindow (key : Str)
  | evictUses (key : Str)
  /-- `claim` is called. -/
  | claim (call : ℕ) (key : Str)
  /-- `cache.get` is carried out. -/
  | get (call : ℕ)
  /-- `claim` goes on with an allowance and reads the clock. -/
  | check (call : ℕ)
  /-- `cache.incr` is carried out; its answer may be lost. -/
  | incr (call : ℕ) (answered : Bool)
  /-- The cache fails and carries out nothing. -/
  | fail (call : ℕ)

namespace State

/-- A claim moves on. -/
def move (s : State) (call : ℕ) (claim : Claim) : State := { s with claims := update s.claims call (some claim) }

/-- `open` up to its `cache.set`. -/
def openCall (s : State) (call : ℕ) (key approvalId : Str) (approvedBy : Option Str) : Option State :=
  if s.opening call = none ∧ approvalId ∉ s.opened.map (·.approvalId) then
    let allowance : SimilarAllowance := ⟨approvalId, approvedBy, unixNow s.now + similarWindowSecs⟩
    some { s with
      opening := update s.opening call (some (key, allowance))
      opened := s.opened ++ [allowance] }
  else none

/-- `expires_at.checked_sub(unix_now())`, which must be positive. -/
def checkCall (s : State) (call : ℕ) (allowance : SimilarAllowance) : State :=
  let remaining := allowance.expiresAt - unixNow s.now
  if 0 < remaining then s.move call (.counting allowance (unixNow s.now) remaining)
  else s.move call (.returned none)

/-- `cache.incr`, and the comparison with the limit. -/
def incrCall (s : State) (call : ℕ) (allowance : SimilarAllowance) (remaining : ℕ) (answered : Bool) :
    State :=
  let key := usesKey allowance.approvalId
  let ttl := remaining * nanos
  let used := (increment s.now ttl (s.uses key)).value
  let counted := { s with uses := TtlCache.incr s.uses s.now ttl key }
  if answered ∧ used ≤ similarWindowMaxRequests then
    { counted.move call (.returned (some allowance)) with passed := s.passed ++ [(allowance, s.now)] }
  else counted.move call (.returned none)

/-- The state after an event, when it can happen. -/
def step (s : State) : Event → Option State
  | .tick nanoseconds => some { s with now := s.now + nanoseconds }
  | .«open» call key approvalId approvedBy => s.openCall call key approvalId approvedBy
  | .set call =>
    match s.opening call with
    | some (key, allowance) =>
      some { s with
        windows := put s.windows s.now (similarWindowSecs * nanos) key allowance
        opening := update s.opening call none }
    | none => none
  | .evictWindow key => (evict s.windows s.now key).map fun windows => { s with windows }
  | .evictUses key => (evict s.uses s.now key).map fun uses => { s with uses }
  | .claim call key => if (s.claims call).isNone then some (s.move call (.reading key)) else none
  | .get call =>
    match s.claims call with
    | some (.reading key) =>
      match s.windows key with
      | some entry => some (s.move call (.answered entry.value))
      | none => some (s.move call (.returned none))
    | _ => none
  | .check call =>
    match s.claims call with
    | some (.answered allowance) => some (s.checkCall call allowance)
    | _ => none
  | .incr call answered =>
    match s.claims call with
    | some (.counting allowance _ remaining) => some (s.incrCall call allowance remaining answered)
    | _ => none
  | .fail call =>
    match s.claims call with
    | some (.reading _) | some (.counting _ _ _) => some (s.move call (.returned none))
    | _ => none

end State

/-- The claims that a window let through. -/
def passes (s : State) (approvalId : Str) : ℕ := s.passed.countP fun pass => pass.1.approvalId = approvalId

/-- Each window lets through as many claims as it may, all of them before it ends. -/
structure Bounded (s : State) : Prop where
  limit : ∀ approvalId, passes s approvalId ≤ similarWindowMaxRequests
  inside : ∀ pass ∈ s.passed, pass.1 ∈ s.opened ∧ unixNow pass.2 < pass.1.expiresAt

/-- A claim is counted within the seconds that remained when it read the clock. -/
def Prompt (s : State) : Event → Prop
  | .incr call _ => ∀ allowance checkedAt remaining,
      s.claims call = some (.counting allowance checkedAt remaining) → unixNow s.now < checkedAt + remaining
  | _ => True

/-- What a claim carries comes from a window that was opened, and its clock was read before now. -/
def Known (s : State) : Claim → Prop
  | .answered allowance => allowance ∈ s.opened
  | .counting allowance checkedAt remaining =>
    allowance ∈ s.opened ∧ checkedAt * nanos ≤ s.now ∧ checkedAt + remaining = allowance.expiresAt
  | .reading _ | .returned _ => True

/-- Up to the end of a window, its counter has counted the claims it let through. -/
structure Inv (s : State) : Prop extends Bounded s where
  distinct : (s.opened.map (·.approvalId)).Nodup
  opening : ∀ call key allowance, s.opening call = some (key, allowance) → allowance ∈ s.opened
  windows : ∀ key entry, s.windows key = some entry → entry.value ∈ s.opened
  claims : ∀ call claim, s.claims call = some claim → Known s claim
  counters : ∀ key, s.uses key ≠ none → ∃ allowance ∈ s.opened, key = usesKey allowance.approvalId
  counted : ∀ allowance ∈ s.opened,
    Counted s.uses s.now (allowance.expiresAt * nanos) (usesKey allowance.approvalId)
      (passes s allowance.approvalId)

theorem usesKey_injective : Function.Injective usesKey := fun _ _ h => append_cancel_left h

theorem unixNow_lt_iff (now seconds : ℕ) : unixNow now < seconds ↔ now < seconds * nanos :=
  div_lt_iff_lt_mul (by decide)

theorem update_eq_some {K A : Type} [DecidableEq K] {f : K → Option A} {call other : K} {value : Option A} {a : A}
    (h : update f call value other = some a) : value = some a ∨ f other = some a := by
  exact (update_cases h).imp And.right And.right

section Steps

variable {s s' : State}

/-- The empty window. -/
theorem inv_init (now : ℕ) : Inv (State.init now) where
  limit _ := zero_le _
  inside _ h := absurd h not_mem_nil
  distinct := nodup_nil
  opening _ _ _ h := by cases h
  windows _ _ h := by cases h
  claims _ _ h := by cases h
  counters _ h := absurd rfl h
  counted _ h := absurd h not_mem_nil

theorem Inv.tick (h : Inv s) (nanoseconds : ℕ) : Inv { s with now := s.now + nanoseconds } where
  __ := h
  claims call claim hclaim := by
    have hknown := h.claims call claim hclaim
    cases claim with
    | reading | returned => trivial
    | answered => exact hknown
    | counting => exact ⟨hknown.1, hknown.2.1.trans (le_add_right _ _), hknown.2.2⟩
  counted allowance hopened := (h.counted allowance hopened).later (le_add_right _ _)

/-- A known claim moves on. -/
theorem Inv.move (h : Inv s) (call : ℕ) {claim : Claim} (hknown : Known s claim) :
    Inv (s.move call claim) where
  __ := h
  claims other moved hmoved := by
    rcases update_eq_some hmoved with hself | hother
    · exact some.inj hself ▸ hknown
    · exact h.claims other moved hother

theorem Inv.openCall (h : Inv s) {call : ℕ} {key approvalId : Str} {approvedBy : Option Str}
    (hopen : s.openCall call key approvalId approvedBy = some s') : Inv s' := by
  unfold State.openCall at hopen
  split_ifs at hopen with hfresh
  cases hopen
  have hold {allowance : SimilarAllowance} (hmem : allowance ∈ s.opened) (new : SimilarAllowance) :
      allowance ∈ s.opened ++ [new] := mem_append_left _ hmem
  refine ⟨⟨h.limit, fun pass hpass => ⟨hold (h.inside pass hpass).1 _, (h.inside pass hpass).2⟩⟩,
    ?_, ?_, ?_, ?_, ?_, ?_⟩
  · rw [map_append]
    refine nodup_append.mpr ⟨h.distinct, by simp, fun id hid new hnew heq => ?_⟩
    rw [map_singleton, mem_singleton] at hnew
    have hsame : id = approvalId := heq.trans hnew
    exact hfresh.2 (hsame ▸ hid)
  · intro other otherKey allowance hallowance
    rcases update_eq_some hallowance with hself | hother
    · obtain ⟨-, rfl⟩ := Prod.mk.inj (some.inj hself)
      exact mem_append_right _ mem_cons_self
    · exact hold (h.opening other otherKey allowance hother) _
  · exact fun windowKey entry hentry => hold (h.windows windowKey entry hentry) _
  · intro other claim hclaim
    have hknown := h.claims other claim hclaim
    cases claim with
    | reading => trivial
    | answered => exact hold hknown _
    | counting => exact ⟨hold hknown.1 _, hknown.2⟩
    | returned => trivial
  · intro counter hcounter
    obtain ⟨allowance, hmem, heq⟩ := h.counters counter hcounter
    exact ⟨allowance, hold hmem _, heq⟩
  · intro allowance hmem
    rcases mem_append.mp hmem with hmem | hmem
    · exact h.counted allowance hmem
    · obtain rfl := mem_singleton.mp hmem
      have hnone : s.uses (usesKey approvalId) = none := by
        by_contra hcounter
        obtain ⟨opened, hopened, hkey⟩ := h.counters _ hcounter
        exact hfresh.2 (usesKey_injective hkey ▸ List.mem_map_of_mem hopened)
      have hzero : passes s approvalId = 0 := by
        refine countP_eq_zero.mpr fun pass hpass hid => hfresh.2 ?_
        exact (decide_eq_true_eq.mp hid) ▸ List.mem_map_of_mem (h.inside pass hpass).1
      intro _
      simp only [hnone]
      exact hzero

variable {key : Str} {allowance : SimilarAllowance}

theorem Inv.set (h : Inv s) {call : ℕ} (hopening : s.opening call = some (key, allowance)) (ttl : ℕ) :
    Inv { s with
      windows := put s.windows s.now ttl key allowance
      opening := update s.opening call none } where
  __ := h
  opening other otherKey found hfound := by
    rcases update_eq_some hfound with hself | hother
    · cases hself
    · exact h.opening other otherKey found hother
  windows windowKey entry hentry := by
    rcases update_eq_some hentry with hself | hother
    · cases hself
      exact h.opening call key allowance hopening
    · exact h.windows windowKey entry hother

theorem of_evict {V : Type} {c c' : Cache Str V} {now : ℕ} (hevict : evict c now key = some c') (other : Str) :
    c' other = none ∨ c' other = c other := by
  unfold evict at hevict
  split at hevict
  · split_ifs at hevict
    cases hevict
    by_cases hother : other = key
    · subst hother
      exact .inl (update_self _ _ _)
    · exact .inr (update_of_ne hother _ _)
  · cases hevict

theorem Inv.evictWindow (h : Inv s) {windows : Cache Str SimilarAllowance}
    (hevict : evict s.windows s.now key = some windows) : Inv { s with windows } where
  __ := h
  windows other entry hentry := by
    rcases of_evict hevict other with hnone | hsame
    · cases hnone.symm.trans hentry
    · exact h.windows other entry (hsame ▸ hentry)

theorem Inv.evictUses (h : Inv s) {uses : Cache Str ℕ} (hevict : evict s.uses s.now key = some uses) :
    Inv { s with uses } where
  __ := h
  counters other hcounter := by
    rcases of_evict hevict other with hnone | hsame
    · exact absurd hnone hcounter
    · exact h.counters other (hsame ▸ hcounter)
  counted allowance hopened := (h.counted allowance hopened).evict hevict

theorem Inv.checkCall (h : Inv s) (call : ℕ) (hopened : allowance ∈ s.opened) : Inv (s.checkCall call allowance) := by
  unfold State.checkCall
  dsimp only
  split_ifs with hremaining
  · exact h.move call ⟨hopened, div_mul_le_self _ _, by omega⟩
  · exact h.move call trivial

theorem Inv.incrCall (h : Inv s) {call : ℕ} {checkedAt remaining : ℕ}
    (hclaim : s.claims call = some (.counting allowance checkedAt remaining))
    (hprompt : unixNow s.now < checkedAt + remaining) (answered : Bool) :
    Inv (s.incrCall call allowance remaining answered) := by
  obtain ⟨hopened, hchecked, hexpires⟩ := h.claims call _ hclaim
  have hin : unixNow s.now < allowance.expiresAt := hexpires ▸ hprompt
  have hbefore : s.now < allowance.expiresAt * nanos := (unixNow_lt_iff _ _).mp hin
  -- the counter is asked to be kept to the end of the window, whenever the clock was read
  have hkept : allowance.expiresAt * nanos ≤ s.now + remaining * nanos := by
    rw [← hexpires, Nat.add_mul]
    omega
  have hcount := h.counted allowance hopened
  have hsame : ∀ other ∈ s.opened, other.approvalId = allowance.approvalId → other = allowance :=
    fun other hother heq => inj_on_of_nodup_map h.distinct hother hopened heq
  have hcounters : ∀ key, TtlCache.incr s.uses s.now (remaining * nanos) (usesKey allowance.approvalId) key ≠ none →
      ∃ opened ∈ s.opened, key = usesKey opened.approvalId := by
    intro key hcounter
    by_cases hkey : key = usesKey allowance.approvalId
    · exact ⟨allowance, hopened, hkey⟩
    · unfold TtlCache.incr at hcounter
      rw [update_of_ne hkey] at hcounter
      exact h.counters key hcounter
  have hothers : ∀ other ∈ s.opened, other.approvalId ≠ allowance.approvalId →
      Counted (TtlCache.incr s.uses s.now (remaining * nanos) (usesKey allowance.approvalId)) s.now
        (other.expiresAt * nanos) (usesKey other.approvalId) (passes s other.approvalId) :=
    fun other hother hne => (h.counted other hother).incr_of_ne fun hkey => hne (usesKey_injective hkey)
  have hcnt : Inv { s with
      uses := TtlCache.incr s.uses s.now (remaining * nanos) (usesKey allowance.approvalId) } :=
    { h with
      counters := hcounters
      counted := fun other hother => by
        by_cases heq : other.approvalId = allowance.approvalId
        · obtain rfl := hsame other hother heq
          exact hcount.incr hkept (le_succ _)
        · exact hothers other hother heq }
  unfold State.incrCall
  dsimp only
  split_ifs with hused
  · have hpasses (id : Str) : passes { s with passed := s.passed ++ [(allowance, s.now)] } id =
        passes s id + if allowance.approvalId = id then 1 else 0 := by
      simp [passes, countP_append, countP_cons]
    have hreturned : Known { s with
        uses := TtlCache.incr s.uses s.now (remaining * nanos) (usesKey allowance.approvalId) }
        (.returned (some allowance)) := trivial
    refine { hcnt.move call hreturned with
      limit := fun id => ?_, inside := fun pass hpass => ?_, counted := fun other hother => ?_ }
    · change passes { s with passed := s.passed ++ [(allowance, s.now)] } id ≤ _
      rw [hpasses]
      split_ifs with hid
      · subst hid
        exact (hcount.lt_increment hbefore).trans_le hused.2
      · exact h.limit id
    · rcases mem_append.mp hpass with hpass | hpass
      · exact h.inside pass hpass
      · obtain rfl := mem_singleton.mp hpass
        exact ⟨hopened, hin⟩
    · change Counted _ _ _ _ (passes { s with passed := s.passed ++ [(allowance, s.now)] } other.approvalId)
      rw [hpasses]
      split_ifs with hid
      · obtain rfl := hsame other hother hid.symm
        exact hcount.incr hkept le_rfl
      · exact hothers other hother (Ne.symm hid)
  · exact hcnt.move call trivial

/-- A prompt step keeps the window bounded. -/
theorem Inv.step (h : Inv s) {event : Event} (hprompt : Prompt s event) (hstep : s.step event = some s') :
    Inv s' := by
  cases event with
  | tick nanoseconds =>
    cases hstep
    exact h.tick nanoseconds
  | «open» => exact h.openCall hstep
  | set =>
    simp only [State.step] at hstep
    split at hstep
    · next key allowance hopening =>
      cases hstep
      exact h.set hopening _
    · cases hstep
  | evictWindow =>
    obtain ⟨windows, hevict, rfl⟩ := map_eq_some_iff.mp hstep
    exact h.evictWindow hevict
  | evictUses =>
    obtain ⟨uses, hevict, rfl⟩ := map_eq_some_iff.mp hstep
    exact h.evictUses hevict
  | claim call =>
    simp only [State.step] at hstep
    split_ifs at hstep
    cases hstep
    exact h.move call trivial
  | get call =>
    simp only [State.step] at hstep
    split at hstep
    · next key hclaim =>
      split at hstep
      · next entry hentry =>
        cases hstep
        exact h.move call (h.windows key entry hentry)
      · cases hstep
        exact h.move call trivial
    · cases hstep
  | check call =>
    simp only [State.step] at hstep
    split at hstep
    · next allowance hclaim =>
      cases hstep
      exact h.checkCall call (h.claims call _ hclaim)
    · cases hstep
  | incr call answered =>
    simp only [State.step] at hstep
    split at hstep
    · next allowance checkedAt remaining hclaim =>
      cases hstep
      exact h.incrCall hclaim (hprompt allowance checkedAt remaining hclaim) answered
    · cases hstep
  | fail call =>
    simp only [State.step] at hstep
    split at hstep
    · cases hstep
      exact h.move call trivial
    · cases hstep
      exact h.move call trivial
    · cases hstep

end Steps

/-- Where every claim is counted promptly, every window is bounded throughout. -/
theorem similar_window_bounded (now : ℕ) (events : List Event)
    (hprompt : Runs.Meets State.step Prompt (State.init now) events) :
    Runs.Throughout State.step Bounded (State.init now) events := by
  intro front back t hsplit hrun
  have hinv := throughout_of_meets State.step (fun _ _ _ hinv hmeets hstep => hinv.step hmeets hstep)
    (inv_init now) hprompt
  exact (hinv front back t hsplit hrun).toBounded

/-- One claim under a window that was just opened. -/
def oneClaim : List Event :=
  [.«open» 0 "scope".toList "approval".toList none, .set 0, .claim 0 "scope".toList, .get 0, .check 0, .incr 0 true]

/-- One claim within its window. -/
theorem similar_window_bounded_one_claim :
    Runs.Throughout State.step Bounded (State.init 0) oneClaim := by
  refine similar_window_bounded 0 oneClaim ?_
  refine meets_cons_of_eq State.step rfl trivial (meets_cons_of_eq State.step rfl trivial ?_)
  refine meets_cons_of_eq State.step rfl trivial (meets_cons_of_eq State.step rfl trivial ?_)
  refine meets_cons_of_eq State.step rfl trivial (meets_cons_of_eq State.step rfl ?_ trivial)
  intro allowance checkedAt remaining hclaim
  cases hclaim
  decide

/-- A hundred claims use the window up. One more reads the clock in its last second, and is counted a second
later, after the counter was dropped. -/
def refilled : List Event :=
  [.«open» 0 "scope".toList "approval".toList none, .set 0] ++
    (List.range 100).flatMap (fun call => [.claim call "scope".toList, .get call, .check call, .incr call true]) ++
    [.tick (899 * nanos), .claim 100 "scope".toList, .get 100, .check 100, .tick nanos,
      .evictUses (usesKey "approval".toList), .incr 100 true]

/-- A late increment refills a spent window. -/
theorem similar_window_refilled :
    ¬ ∀ (now : ℕ) (events : List Event), Runs.Throughout State.step Bounded (State.init now) events := by
  intro h
  have hpasses : (run State.step (State.init 0) refilled).map (passes · "approval".toList) = some 101 := by
    decide +kernel
  obtain ⟨t, hrun, ht⟩ := Option.map_eq_some_iff.mp hpasses
  have hlimit := (h 0 refilled refilled [] t (List.append_nil _).symm hrun).limit "approval".toList
  rw [ht] at hlimit
  exact absurd hlimit (by decide)

end Onecli.Approval.Similar
