import Mathlib.Tactic.Ring

/-!
# Civil dates

A moment by its date and its time of day in the Gregorian calendar, at one fixed offset, ordered in time. A moment is
moved to another year as calendars do: the leap day goes to the first of March where the year has none. Only the leap
day is moved so, and no year before a leap year is one, so that going back a year leaves a day that every year has.
-/

/-- The milliseconds of a day. -/
def MS_OF_DAY : ℕ := 86400000

/-- A year has a leap day. -/
def IsLeapYear (year : ℤ) : Prop := year % 4 = 0 ∧ (year % 100 ≠ 0 ∨ year % 400 = 0)

instance (year : ℤ) : Decidable (IsLeapYear year) := by
  unfold IsLeapYear
  infer_instance

/-- The days of a month. -/
def daysOfMonth (year : ℤ) (month : ℕ) : ℕ :=
  if month = 2 then if IsLeapYear year then 29 else 28
  else if month = 4 ∨ month = 6 ∨ month = 9 ∨ month = 11 then 30 else 31

/-- A date and a time of day. -/
structure CivilDate where
  year : ℤ
  month : ℕ
  day : ℕ
  ms : ℕ
  month_pos : 0 < month
  month_le : month ≤ 12
  day_pos : 0 < day
  day_le : day ≤ daysOfMonth year month
  ms_lt : ms < MS_OF_DAY
  deriving DecidableEq

namespace CivilDate

theorem daysOfMonth_le (year : ℤ) (month : ℕ) : daysOfMonth year month ≤ 31 := by
  unfold daysOfMonth
  split
  · split <;> omega
  · split <;> omega

theorem daysOfMonth_pos (year : ℤ) (month : ℕ) : 0 < daysOfMonth year month := by
  unfold daysOfMonth
  split
  · split <;> omega
  · split <;> omega

/-- The first moment of a month, January being 0. -/
def firstOfMonth (year : ℤ) (month : Fin 12) : CivilDate :=
  ⟨year, month + 1, 1, 0, Nat.succ_pos _, month.isLt, Nat.one_pos, daysOfMonth_pos year _, by decide⟩

/-- A number that orders the moments. -/
def stamp (d : CivilDate) : ℤ := ((d.year * 12 + d.month) * 31 + d.day) * 86400000 + d.ms

theorem stamp_injective : Function.Injective stamp := by
  intro a b h
  have ha := a.day_le.trans (daysOfMonth_le ..)
  have hb := b.day_le.trans (daysOfMonth_le ..)
  obtain ⟨ay, am, ad, an, ham, ham', had, hda, han⟩ := a
  obtain ⟨bY, bm, bd, bn, hbm, hbm', hbd, hdb, hbn⟩ := b
  simp only [stamp] at h ha hb
  unfold MS_OF_DAY at han hbn
  obtain ⟨rfl, rfl, rfl, rfl⟩ : ay = bY ∧ am = bm ∧ ad = bd ∧ an = bn := by omega
  rfl

/-- Moments are ordered in time. -/
instance : LinearOrder CivilDate := LinearOrder.lift' stamp stamp_injective

theorem le_iff {a b : CivilDate} : a ≤ b ↔ a.stamp ≤ b.stamp := Iff.rfl

/-- Dates are ordered by their stamps. -/
theorem lt_iff {a b : CivilDate} : a < b ↔ a.stamp < b.stamp := Iff.rfl

/-- The leap day. -/
def IsLeapDay (d : CivilDate) : Prop := d.month = 2 ∧ d.day = 29

instance (d : CivilDate) : Decidable d.IsLeapDay := by
  unfold IsLeapDay
  infer_instance

variable {d : CivilDate}

theorem day_le_of_not_isLeapDay (h : ¬ d.IsLeapDay) (year : ℤ) : d.day ≤ daysOfMonth year d.month := by
  have hday := d.day_le
  unfold daysOfMonth at hday ⊢
  by_cases hmonth : d.month = 2
  · rw [if_pos hmonth] at hday ⊢
    have hle : d.day ≤ 29 := hday.trans (by split <;> omega)
    have hne : d.day ≠ 29 := fun heq => h ⟨hmonth, heq⟩
    split <;> omega
  · rw [if_neg hmonth] at hday ⊢
    exact hday

theorem day_le_of_isLeapYear {year : ℤ} (h : IsLeapYear year) : d.day ≤ daysOfMonth year d.month := by
  have hday := d.day_le
  unfold daysOfMonth at hday ⊢
  by_cases hmonth : d.month = 2
  · rw [if_pos hmonth] at hday ⊢
    exact hday.trans (by split <;> omega)
  · rw [if_neg hmonth] at hday ⊢
    exact hday

/-- `setFullYear`: the same day and time in another year. -/
def setFullYear (d : CivilDate) (year : ℤ) : CivilDate :=
  if h : d.IsLeapDay ∧ ¬ IsLeapYear year then
    ⟨year, 3, 1, d.ms, by omega, by omega, by omega, by simp [daysOfMonth], d.ms_lt⟩
  else
    { d with
      year
      day_le := by
        by_cases hleap : d.IsLeapDay
        · exact day_le_of_isLeapYear (Classical.byContradiction fun hyear => h ⟨hleap, hyear⟩)
        · exact day_le_of_not_isLeapDay hleap year }

theorem stamp_setFullYear_le (d : CivilDate) (year : ℤ) :
    d.stamp + (year - d.year) * 32140800000 ≤ (d.setFullYear year).stamp ∧
      (d.setFullYear year).stamp < d.stamp + (year - d.year) * 32140800000 + 345600000 := by
  by_cases h : d.IsLeapDay ∧ ¬ IsLeapYear year
  · rw [setFullYear, dif_pos h]
    simp only [stamp, h.1.1, h.1.2]
    constructor <;> omega
  · rw [setFullYear, dif_neg h]
    simp only [stamp]
    constructor <;> omega

theorem not_isLeapYear_sub_one {year : ℤ} (h : IsLeapYear year) : ¬ IsLeapYear (year - 1) := by
  unfold IsLeapYear at h ⊢
  omega

theorem IsLeapDay.year (h : d.IsLeapDay) : IsLeapYear d.year := by
  have hday := d.day_le
  rw [h.1, h.2, daysOfMonth, if_pos rfl] at hday
  by_contra hnot
  rw [if_neg hnot] at hday
  omega

theorem not_isLeapDay_setFullYear (h : ¬ d.IsLeapDay) (year : ℤ) : ¬ (d.setFullYear year).IsLeapDay := by
  rw [setFullYear, dif_neg fun hboth => h hboth.1]
  exact h

theorem not_isLeapDay_year_before (d : CivilDate) : ¬ (d.setFullYear (d.year - 1)).IsLeapDay := by
  by_cases h : d.IsLeapDay
  · rw [setFullYear, dif_pos ⟨h, not_isLeapYear_sub_one h.year⟩]
    exact fun hleap => absurd hleap.1 (Nat.succ_ne_self 2)
  · exact not_isLeapDay_setFullYear h _

theorem setFullYear_year_before_lt (d : CivilDate) : d.setFullYear (d.year - 1) < d := by
  have hlt := (d.stamp_setFullYear_le (d.year - 1)).2
  rw [lt_iff]
  omega

theorem lt_setFullYear_year_after (d : CivilDate) : d < d.setFullYear (d.year + 1) := by
  have hle := (d.stamp_setFullYear_le (d.year + 1)).1
  rw [lt_iff]
  omega

end CivilDate
