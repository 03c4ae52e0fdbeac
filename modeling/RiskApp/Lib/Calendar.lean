import Mathlib.Algebra.Order.Group.Nat
import Mathlib.Order.Monotone.Basic

namespace RiskApp.Lib.Calendar

def isLeap (year : ℕ) : Bool := year % 4 = 0 && (year % 100 ≠ 0 || year % 400 = 0)

def daysInMonth (year month : ℕ) : ℕ :=
  if month = 2 then if isLeap year then 29 else 28
  else if month = 4 ∨ month = 6 ∨ month = 9 ∨ month = 11 then 30
  else 31

def daysInYear (year : ℕ) : ℕ := if isLeap year then 366 else 365

def daysBeforeYear (year : ℕ) : ℕ :=
  let y := year - 1
  y * 365 + y / 4 - y / 100 + y / 400

/-- The days of the months 1 to `month - 1`. -/
def daysBeforeMonth (year : ℕ) : ℕ → ℕ
  | 0 | 1 => 0
  | month + 2 => daysBeforeMonth year (month + 1) + daysInMonth year (month + 1)

/-- A day of the proleptic Gregorian calendar. -/
structure Date where
  year : ℕ
  month : ℕ
  day : ℕ
  year_pos : 1 ≤ year
  month_range : 1 ≤ month ∧ month ≤ 12
  day_range : 1 ≤ day ∧ day ≤ daysInMonth year month

namespace Date

def ordinal (d : Date) : ℕ := daysBeforeYear d.year + daysBeforeMonth d.year d.month + d.day

end Date

theorem isLeap_iff (year : ℕ) : isLeap year = true ↔ 4 ∣ year ∧ (¬ 100 ∣ year ∨ 400 ∣ year) := by
  simp [isLeap, Nat.dvd_iff_mod_eq_zero]

theorem daysBeforeYear_succ {year : ℕ} (h : 1 ≤ year) :
    daysBeforeYear (year + 1) = daysBeforeYear year + daysInYear year := by
  obtain ⟨y, rfl⟩ := Nat.exists_eq_add_of_le' h
  have hle : y / 100 ≤ y / 4 := Nat.div_le_div_left (by decide) (by decide)
  have hcentury : 100 ∣ y + 1 → 4 ∣ y + 1 := Nat.dvd_trans (by decide)
  have hcycle : 400 ∣ y + 1 → 100 ∣ y + 1 := Nat.dvd_trans (by decide)
  have hleap := isLeap_iff (y + 1)
  unfold daysBeforeYear daysInYear
  simp only [Nat.add_sub_cancel, Nat.succ_div, hleap]
  split_ifs <;> omega

theorem daysInMonth_pos (year month : ℕ) : 28 ≤ daysInMonth year month := by
  unfold daysInMonth
  split_ifs <;> omega

theorem daysInMonth_le (year month : ℕ) : daysInMonth year month ≤ 31 := by
  unfold daysInMonth
  split_ifs <;> omega

theorem daysBeforeMonth_succ (year : ℕ) {month : ℕ} (h : 1 ≤ month) :
    daysBeforeMonth year (month + 1) = daysBeforeMonth year month + daysInMonth year month := by
  cases month with
  | zero => cases h
  | succ month => rfl

theorem daysBeforeMonth_mono (year : ℕ) : Monotone (daysBeforeMonth year) := by
  refine monotone_nat_of_le_succ fun month ↦ ?_
  cases month with
  | zero => exact le_rfl
  | succ month => exact Nat.le_add_right _ _

theorem daysBeforeYear_mono : Monotone daysBeforeYear := by
  refine monotone_nat_of_le_succ fun year ↦ ?_
  cases year with
  | zero => exact le_rfl
  | succ year =>
    rw [daysBeforeYear_succ (Nat.succ_pos year)]
    exact Nat.le_add_right _ _

theorem daysBeforeMonth_thirteen (year : ℕ) : daysBeforeMonth year 13 = daysInYear year := by
  simp [daysBeforeMonth, daysInMonth, daysInYear]
  split <;> rfl

namespace Date

variable {d e : Date}

theorem day_le (d : Date) : d.day ≤ 31 := d.day_range.2.trans (daysInMonth_le _ _)

theorem ordinal_le_month (d : Date) :
    d.ordinal ≤ daysBeforeYear d.year + daysBeforeMonth d.year (d.month + 1) := by
  have hmonth := daysBeforeMonth_succ d.year d.month_range.1
  have hday := d.day_range.2
  unfold ordinal
  omega

theorem ordinal_le_year (d : Date) : d.ordinal ≤ daysBeforeYear (d.year + 1) := by
  have hmonth := d.ordinal_le_month
  have hlast : daysBeforeMonth d.year (d.month + 1) ≤ daysBeforeMonth d.year 13 :=
    daysBeforeMonth_mono d.year (Nat.succ_le_succ d.month_range.2)
  have hyear := daysBeforeYear_succ d.year_pos
  rw [daysBeforeMonth_thirteen] at hlast
  omega

theorem ordinal_lt_of_year (h : d.year < e.year) : d.ordinal < e.ordinal := by
  have hd := d.ordinal_le_year
  have hmono : daysBeforeYear (d.year + 1) ≤ daysBeforeYear e.year := daysBeforeYear_mono h
  have hday := e.day_range.1
  unfold ordinal at *
  omega

theorem ordinal_lt_of_month (hyear : d.year = e.year) (h : d.month < e.month) :
    d.ordinal < e.ordinal := by
  have hd := d.ordinal_le_month
  have hmono : daysBeforeMonth d.year (d.month + 1) ≤ daysBeforeMonth d.year e.month :=
    daysBeforeMonth_mono d.year h
  have hday := e.day_range.1
  unfold ordinal at *
  rw [← hyear]
  omega

theorem ordinal_lt_of_day (hyear : d.year = e.year) (hmonth : d.month = e.month)
    (h : d.day < e.day) : d.ordinal < e.ordinal := by
  unfold ordinal
  rw [hyear, hmonth]
  omega

theorem ordinal_lt : d.ordinal < e.ordinal ↔
    d.year < e.year ∨ d.year = e.year ∧
      (d.month < e.month ∨ d.month = e.month ∧ d.day < e.day) := by
  constructor
  · intro h
    by_contra hnot
    have hge : e.ordinal ≤ d.ordinal := by
      rcases Nat.lt_trichotomy e.year d.year with hyear | hyear | hyear
      · exact (ordinal_lt_of_year hyear).le
      · rcases Nat.lt_trichotomy e.month d.month with hmonth | hmonth | hmonth
        · exact (ordinal_lt_of_month hyear hmonth).le
        · rcases Nat.lt_trichotomy e.day d.day with hday | hday | hday
          · exact (ordinal_lt_of_day hyear hmonth hday).le
          · unfold ordinal
            rw [hyear, hmonth, hday]
          · exact absurd (Or.inr ⟨hyear.symm, Or.inr ⟨hmonth.symm, hday⟩⟩) hnot
        · exact absurd (Or.inr ⟨hyear.symm, Or.inl hmonth⟩) hnot
      · exact absurd (Or.inl hyear) hnot
    omega
  · rintro (hyear | ⟨hyear, hmonth | ⟨hmonth, hday⟩⟩)
    · exact ordinal_lt_of_year hyear
    · exact ordinal_lt_of_month hyear hmonth
    · exact ordinal_lt_of_day hyear hmonth hday

theorem ordinal_eq : d.ordinal = e.ordinal ↔
    d.year = e.year ∧ d.month = e.month ∧ d.day = e.day := by
  have hde := @ordinal_lt d e
  have hed := @ordinal_lt e d
  constructor
  · intro h
    have hd := hde.not.mp (by omega)
    have he := hed.not.mp (by omega)
    omega
  · rintro ⟨hyear, hmonth, hday⟩
    unfold ordinal
    rw [hyear, hmonth, hday]

def next (d : Date) : Date :=
  if hday : d.day < daysInMonth d.year d.month then
    { d with day := d.day + 1, day_range := ⟨Nat.succ_pos _, hday⟩ }
  else if hmonth : d.month < 12 then
    { d with
      month := d.month + 1
      day := 1
      month_range := ⟨Nat.succ_pos _, hmonth⟩
      day_range := ⟨le_rfl, (by decide : 1 ≤ 28).trans (daysInMonth_pos _ _)⟩ }
  else
    { year := d.year + 1
      month := 1
      day := 1
      year_pos := Nat.succ_pos _
      month_range := ⟨le_rfl, by decide⟩
      day_range := ⟨le_rfl, (by decide : 1 ≤ 28).trans (daysInMonth_pos _ _)⟩ }

/-- `days` days later. -/
def plus (d : Date) (days : ℕ) : Date := Nat.iterate next days d

end Date

end RiskApp.Lib.Calendar
