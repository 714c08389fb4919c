import Mathlib.Data.Rat.Floor

/-!
# The jitter of a schedule

`nextFireOrNull` of `agent-cron-service.ts`, and the fires of a schedule that each fire recomputes. Instants are
milliseconds. What croner, the time zones and the arithmetic of doubles promise is stated in `Cron` and `Platform`.
-/

namespace Onecli.Agents.CronJitter

/-- A `Cron` of croner: `nextRun` answers the first occurrence after an instant. -/
structure Cron where
  occurrences : Set ℤ
  nextRun : ℤ → Option ℤ
  isLeast_of_some : ∀ {t o}, nextRun t = some o → IsLeast {u ∈ occurrences | t < u} o
  le_of_none : ∀ {t}, nextRun t = none → ∀ o ∈ occurrences, o ≤ t

/-- What the code takes from outside. A product of doubles is rounded: in order, and exactly where it is a small integer. -/
structure Platform where
  isValidTimezone : String → Bool
  newCron : String → String → Except String Cron
  round : ℚ → ℚ
  round_mono : Monotone round
  round_natCast : ∀ n : ℕ, n ≤ 2 ^ 53 → round n = n

/-- A value of `random()`. -/
abbrev Seed := Set.Ico (0 : ℚ) 1

/-- `ServiceError("UNPROCESSABLE", …)`. -/
structure Unprocessable where
  message : String
  deriving DecidableEq

/-- `CRON_JITTER_MAX_SECONDS`. -/
def CRON_JITTER_MAX_SECONDS : ℤ := 300

namespace Cron

variable {cron : Cron} {t u o o' fire : ℤ}

/-- Between two occurrences the next is the same. -/
theorem nextRun_of_between (h : cron.nextRun t = some o) (htu : t ≤ u) (huo : u < o) : cron.nextRun u = some o := by
  obtain ⟨⟨ho, -⟩, hleast⟩ := cron.isLeast_of_some h
  cases hu : cron.nextRun u with
  | none => exact absurd (cron.le_of_none hu o ho) huo.not_ge
  | some =>
    obtain ⟨⟨ho', huo'⟩, hleast'⟩ := cron.isLeast_of_some hu
    exact congrArg some (le_antisymm (hleast' ⟨ho, huo⟩) (hleast ⟨ho', htu.trans_lt huo'⟩))

theorem exists_following (ho : o' ∈ cron.occurrences) (h : o < o') : ∃ following ∈ cron.nextRun o, following ≤ o' := by
  cases hnext : cron.nextRun o with
  | none => exact absurd (cron.le_of_none hnext o' ho) h.not_ge
  | some following => exact ⟨following, rfl, (cron.isLeast_of_some hnext).2 ⟨ho, h⟩⟩

/-- The fire is made from the occurrence on and before the following one. -/
def firedFor (cron : Cron) (occurrence fire : ℤ) : Bool :=
  occurrence ≤ fire && (cron.nextRun occurrence).all (fire < ·)

/-- A fire is for the occurrence before it. -/
theorem firedFor_iff :
    cron.firedFor o fire = true ↔ o ≤ fire ∧ ∀ following ∈ cron.nextRun o, fire < following := by
  cases h : cron.nextRun o <;> simp [firedFor, h]

/-- A fire is for one occurrence. -/
theorem firedFor_unique (ho : o ∈ cron.occurrences) (ho' : o' ∈ cron.occurrences)
    (h : cron.firedFor o fire) (h' : cron.firedFor o' fire) : o = o' := by
  rw [firedFor_iff] at h h'
  apply le_antisymm <;> apply le_of_not_gt <;> intro hlt
  · obtain ⟨following, hnext, hle⟩ := exists_following ho hlt
    exact (h'.2 _ hnext).not_ge (hle.trans h.1)
  · obtain ⟨following, hnext, hle⟩ := exists_following ho' hlt
    exact (h.2 _ hnext).not_ge (hle.trans h'.1)

end Cron

namespace Platform

variable (p : Platform) (schedule timezone : String)

/-- `assertValidTimezone`. -/
def assertValidTimezone : Except Unprocessable Unit :=
  if p.isValidTimezone timezone then .ok () else .error
    ⟨s!"Unknown timezone \"{timezone}\". Use an IANA zone name like \"America/Los_Angeles\""⟩

/-- `cronOf`. -/
def cronOf : Except Unprocessable Cron :=
  (p.newCron schedule timezone).mapError fun error => ⟨s!"Invalid schedule expression: {error}"⟩

/-- `jitterMs` in `nextFireOrNull`. -/
def jitterMs (gapMs : ℤ) (random : Seed) : ℤ :=
  let ceilingMs := min (CRON_JITTER_MAX_SECONDS * 1000) (gapMs / 2)
  if 0 < ceilingMs then ⌊p.round (random.1 * ceilingMs)⌋ else 0

/-- `nextFireOrNull`. -/
def nextFireOrNull (start : ℤ) (random : Seed) : Except Unprocessable (Option ℤ) := do
  p.assertValidTimezone timezone
  let cron ← p.cronOf schedule timezone
  match cron.nextRun start with
  | none => return none
  | some next =>
    match cron.nextRun next with
    | none => return some next
    | some following => return some (next + p.jitterMs (following - next) random)

/-- The jittered time of an occurrence. -/
def jittered (cron : Cron) (random : Seed) (occurrence : ℤ) : ℤ :=
  match cron.nextRun occurrence with
  | none => occurrence
  | some following => occurrence + p.jitterMs (following - occurrence) random

variable {p schedule timezone} {cron : Cron} {random : Seed} {start due : ℤ}

theorem jitterMs_bounds (random : Seed) {gapMs : ℤ} (hgap : 0 < gapMs) :
    0 ≤ p.jitterMs gapMs random ∧ p.jitterMs gapMs random < gapMs := by
  unfold jitterMs
  generalize hc : min (CRON_JITTER_MAX_SECONDS * 1000) (gapMs / 2) = ceilingMs
  have hsmall : ceilingMs ≤ 300000 := hc ▸ min_le_left _ _
  dsimp only
  split
  case isFalse => exact ⟨le_rfl, hgap⟩
  case isTrue hpos =>
    obtain ⟨n, rfl⟩ := Int.eq_ofNat_of_zero_le hpos.le
    have hn : n ≤ 2 ^ 53 := by omega
    obtain ⟨hzero, hone⟩ := random.2
    have hlow : (0 : ℚ) ≤ p.round (random.1 * n) := by
      calc (0 : ℚ) = p.round (0 : ℕ) := by rw [p.round_natCast 0 (Nat.zero_le _), Nat.cast_zero]
        _ ≤ p.round (random.1 * n) := p.round_mono (by rw [Nat.cast_zero]; positivity)
    have hhigh : p.round (random.1 * n) ≤ n := by
      calc p.round (random.1 * n) ≤ p.round n := p.round_mono (mul_le_of_le_one_left n.cast_nonneg hone.le)
        _ = n := p.round_natCast n hn
    have hfloor : ⌊p.round (random.1 * n)⌋ ≤ n := Int.floor_le_iff.2 (by exact_mod_cast hhigh.trans_lt (lt_add_one _))
    rw [Int.cast_natCast]
    exact ⟨Int.floor_nonneg.2 hlow, by omega⟩

/-- A jittered fire is for its own occurrence. -/
theorem firedFor_jittered (p : Platform) (cron : Cron) (random : Seed) (occurrence : ℤ) :
    cron.firedFor occurrence (p.jittered cron random occurrence) := by
  rw [Cron.firedFor_iff, jittered]
  cases hnext : cron.nextRun occurrence with
  | none => exact ⟨le_rfl, nofun⟩
  | some following =>
    have hgap : occurrence < following := (cron.isLeast_of_some hnext).1.2
    have hbounds := jitterMs_bounds (p := p) random (sub_pos.2 hgap)
    refine ⟨by dsimp only; omega, ?_⟩
    rintro _ ⟨⟩
    dsimp only
    omega

/-- The next fire is the next run, jittered. -/
theorem nextFireOrNull_eq (hzone : p.isValidTimezone timezone) (hcron : p.newCron schedule timezone = .ok cron) :
    p.nextFireOrNull schedule timezone start random = .ok ((cron.nextRun start).map (p.jittered cron random)) := by
  simp only [nextFireOrNull, assertValidTimezone, hzone, cronOf, hcron]
  cases hnext : cron.nextRun start with
  | none => simp [Except.mapError, bind, Except.bind, hnext, pure, Except.pure]
  | some next => cases hfollowing : cron.nextRun next <;>
    simp [Except.mapError, bind, Except.bind, hnext, hfollowing, pure, Except.pure, jittered]

/-- What a next fire is made of. -/
theorem of_nextFireOrNull (h : p.nextFireOrNull schedule timezone start random = .ok (some due)) :
    p.isValidTimezone timezone = true ∧ ∃ cron next, p.newCron schedule timezone = .ok cron ∧
      cron.nextRun start = some next ∧ due = p.jittered cron random next := by
  by_cases hzone : p.isValidTimezone timezone = true
  case neg => simp [nextFireOrNull, assertValidTimezone, hzone, bind, Except.bind] at h
  cases hcron : p.newCron schedule timezone with
  | error => simp [nextFireOrNull, assertValidTimezone, hzone, cronOf, hcron, Except.mapError, bind, Except.bind] at h
  | ok cron =>
    rw [nextFireOrNull_eq hzone hcron, Except.ok.injEq, Option.map_eq_some_iff] at h
    obtain ⟨next, hnext, rfl⟩ := h
    exact ⟨hzone, cron, next, rfl, hnext, rfl⟩

variable (p schedule timezone cron)

/-- The fires of a schedule computed at `start`: each is made at or after its jittered time and before the following
occurrence, and the next one is computed from it. -/
inductive HealthyRun : ℤ → List ℤ → Prop
  | done (start : ℤ) : HealthyRun start []
  | fire {start due fire : ℤ} {fires : List ℤ} (random : Seed)
      (hdue : p.nextFireOrNull schedule timezone start random = .ok (some due)) (hlate : due ≤ fire)
      (hbefore : ∀ next ∈ cron.nextRun start, ∀ following ∈ cron.nextRun next, fire < following)
      (hrest : HealthyRun fire fires) : HealthyRun start (fire :: fires)

variable {p schedule timezone cron} {fires : List ℤ}

section

variable (hcron : p.newCron schedule timezone = .ok cron)
include hcron

theorem firedFor_of_healthy {fire : ℤ} (hdue : p.nextFireOrNull schedule timezone start random = .ok (some due))
    (hlate : due ≤ fire) (hbefore : ∀ next ∈ cron.nextRun start, ∀ following ∈ cron.nextRun next, fire < following) :
    ∃ next, IsLeast {u ∈ cron.occurrences | start < u} next ∧ cron.firedFor next fire := by
  obtain ⟨-, read, next, hread, hnext, rfl⟩ := of_nextFireOrNull hdue
  cases hcron.symm.trans hread
  have hjittered := Cron.firedFor_iff.1 (p.firedFor_jittered cron random next)
  exact ⟨next, cron.isLeast_of_some hnext, Cron.firedFor_iff.2 ⟨hjittered.1.trans hlate, hbefore next hnext⟩⟩

/-- Every fire is for an occurrence. -/
theorem HealthyRun.exists_occurrence (h : p.HealthyRun schedule timezone cron start fires) : ∀ fire ∈ fires, ∃ o,
    (o ∈ cron.occurrences ∧ start < o) ∧ cron.firedFor o fire := by
  induction h with
  | done => exact nofun
  | fire random hdue hlate hbefore hrest ih =>
    obtain ⟨next, hnext, hfired⟩ := firedFor_of_healthy hcron hdue hlate hbefore
    rintro fire (_ | ⟨_, hmem⟩)
    · exact ⟨next, hnext.1, hfired⟩
    · obtain ⟨o, ⟨ho, hlt⟩, hfired'⟩ := ih fire hmem
      exact ⟨o, ⟨ho, hnext.1.2.trans ((Cron.firedFor_iff.1 hfired).1.trans_lt hlt)⟩, hfired'⟩

/-- Every occurrence that was reached is fired once. -/
theorem HealthyRun.countP_firedFor (h : p.HealthyRun schedule timezone cron start fires) {o : ℤ}
    (ho : o ∈ cron.occurrences) (hstart : start < o) (hreached : ∃ fire ∈ fires, o ≤ fire) : fires.countP
    (cron.firedFor o) = 1 := by
  induction h with
  | done => simp at hreached
  | @fire start due fire fires random hdue hlate hbefore hrest ih =>
    obtain ⟨next, hnext, hfired⟩ := firedFor_of_healthy hcron hdue hlate hbefore
    have hfire := Cron.firedFor_iff.1 hfired
    rcases (hnext.2 ⟨ho, hstart⟩).eq_or_lt with rfl | hlt
    · have hothers : fires.countP (cron.firedFor next) = 0 := by
        refine List.countP_eq_zero.2 fun other hmem hother => ?_
        obtain ⟨o, ⟨ho', hlt⟩, hfired'⟩ := hrest.exists_occurrence hcron other hmem
        exact hlt.not_ge (Cron.firedFor_unique ho ho' hother hfired' ▸ hfire.1)
      rw [List.countP_cons_of_pos hfired, hothers]
    · obtain ⟨following, hfollowing, hle⟩ := Cron.exists_following ho hlt
      have hafter : fire < o := (hfire.2 following hfollowing).trans_le hle
      rw [List.countP_cons_of_neg fun hfired' => hafter.not_ge (Cron.firedFor_iff.1 hfired').1]
      refine ih hafter (hreached.imp fun other hother => ⟨?_, hother.2⟩)
      exact List.mem_of_ne_of_mem (by rintro rfl; exact hafter.not_ge hother.2) hother.1

end

/-- A schedule skips and repeats nothing: a fire is due from its occurrence on and before the following one, a recompute
from any fire made until then answers the following occurrence's jittered time, and over a healthy run every fire is
made for one occurrence and every occurrence reached is fired once. -/
theorem nextFireOrNull_once_each (p : Platform) (schedule timezone : String) :
    (∀ start random due, p.nextFireOrNull schedule timezone start random = .ok (some due) →
      ∃ cron next, p.newCron schedule timezone = .ok cron ∧ cron.nextRun start = some next ∧ next ≤ due ∧
        ∀ following, cron.nextRun next = some following → due < following ∧
          ∀ fire, due ≤ fire → fire < following → ∀ random', p.nextFireOrNull schedule timezone fire random' =
            .ok (some (p.jittered cron random' following))) ∧
    ∀ cron, p.newCron schedule timezone = .ok cron → ∀ start fires, p.HealthyRun schedule timezone cron start fires →
      (∀ fire ∈ fires, ∃! o, (o ∈ cron.occurrences ∧ start < o) ∧ cron.firedFor o fire) ∧
      ∀ o ∈ cron.occurrences, start < o → (∃ fire ∈ fires, o ≤ fire) → fires.countP (cron.firedFor o) = 1 := by
  constructor
  · intro start random due h
    obtain ⟨hzone, cron, next, hcron, hnext, rfl⟩ := of_nextFireOrNull h
    have hdue := Cron.firedFor_iff.1 (p.firedFor_jittered cron random next)
    refine ⟨cron, next, hcron, hnext, hdue.1, fun following hfollowing => ⟨hdue.2 following hfollowing, ?_⟩⟩
    intro fire hlate hbefore random'
    rw [nextFireOrNull_eq hzone hcron, Cron.nextRun_of_between hfollowing (hdue.1.trans hlate) hbefore]
    rfl
  · intro cron hcron start fires h
    refine ⟨fun fire hmem => ?_, fun o ho hstart hreached => h.countP_firedFor hcron ho hstart hreached⟩
    obtain ⟨o, ho, hfired⟩ := h.exists_occurrence hcron fire hmem
    exact ⟨o, ⟨ho, hfired⟩, fun o' ho' => Cron.firedFor_unique ho'.1.1 ho.1 ho'.2 hfired⟩

/-- Every minute. -/
def everyMinute : Cron where
  occurrences := {o | o % 60000 = 0}
  nextRun t := some ((t / 60000 + 1) * 60000)
  isLeast_of_some := by
    rintro t _ ⟨⟩
    exact ⟨⟨Int.mul_emod_left _ _, by omega⟩, fun u ⟨hu, hlt⟩ => by simp only [Set.mem_ofPred_eq] at hu; omega⟩
  le_of_none := nofun

/-- A platform that reads every schedule as every minute. -/
def minutely : Platform := ⟨fun _ => true, fun _ _ => .ok everyMinute, id, monotone_id, fun _ _ => rfl⟩

/-- A seed of one half. -/
def half : Seed := ⟨1 / 2, by norm_num, by norm_num⟩

/-- Two healthy fires of a schedule of every minute, the second one late. -/
theorem nextFireOrNull_once_each_minutely :
    [75000, 179999].countP (everyMinute.firedFor 120000) = 1 ∧
      minutely.nextFireOrNull "* * * * *" "UTC" 75000 half = .ok (some 135000) := by
  have hfirst : minutely.nextFireOrNull "* * * * *" "UTC" 0 half = .ok (some 75000) := by decide +kernel
  have hsecond : minutely.nextFireOrNull "* * * * *" "UTC" 75000 half = .ok (some 135000) := by decide +kernel
  have hrun : minutely.HealthyRun "* * * * *" "UTC" everyMinute 0 [75000, 179999] :=
    .fire half hfirst le_rfl (by decide) (.fire half hsecond (by decide) (by decide) (.done _))
  exact ⟨((nextFireOrNull_once_each minutely "* * * * *" "UTC").2 everyMinute rfl 0 _ hrun).2 120000 rfl (by decide)
    ⟨179999, by decide, by decide⟩, hsecond⟩

end Platform

end Onecli.Agents.CronJitter
