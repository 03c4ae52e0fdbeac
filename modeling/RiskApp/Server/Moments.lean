import Mathlib.Order.WithBot
import RiskApp.Lib.Calendar
import RiskApp.Server.Backfill

namespace RiskApp.Server

open Lib Calendar

/-- A naive `datetime` in UTC, on a day of the calendar. -/
structure Moment extends DateTime where
  year_pos : 1 ≤ year
  month_range : 1 ≤ month ∧ month ≤ 12
  day_range : 1 ≤ day ∧ day ≤ daysInMonth year month

namespace Moment

def date (t : Moment) : Date where
  year := t.year
  month := t.month
  day := t.day
  year_pos := t.year_pos
  month_range := t.month_range
  day_range := t.day_range

def secondOfDay (t : Moment) : ℕ := (t.hour * 60 + t.minute) * 60 + t.second

/-- Microseconds, counted from the day before the first day of the year 1. -/
def instant (t : Moment) : ℕ :=
  (t.date.ordinal * 86400 + t.secondOfDay) * 1000000 + t.microsecond

def ofParts (date : Date) (hyear : date.year ≤ 9999) (second : ℕ) (hsecond : second < 86400)
    (microsecond : ℕ) (hmicrosecond : microsecond < 1000000) : Moment where
  year := date.year
  month := date.month
  day := date.day
  hour := second / 3600
  minute := second / 60 % 60
  second := second % 60
  microsecond := microsecond
  valid := ⟨hyear, date.month_range.2, date.day_le, by omega, Nat.mod_lt _ (by decide),
    Nat.mod_lt _ (by decide), hmicrosecond⟩
  year_pos := date.year_pos
  month_range := date.month_range
  day_range := date.day_range

theorem microsecond_lt (t : Moment) : t.microsecond < 1000000 := t.valid.2.2.2.2.2.2

/-- `t + timedelta(seconds=...)`, which fails beyond the year 9999. -/
def plusSeconds (t : Moment) (seconds : ℕ) : Option Moment :=
  let total := t.secondOfDay + seconds
  let date := t.date.plus (total / 86400)
  if h : date.year ≤ 9999 then
    some (ofParts date h (total % 86400) (Nat.mod_lt _ (by decide)) t.microsecond t.microsecond_lt)
  else none

variable {a b t u : Moment}

theorem secondOfDay_lt (t : Moment) : t.secondOfDay < 86400 := by
  obtain ⟨-, -, -, hhour, hminute, hsecond, -⟩ := t.valid
  unfold secondOfDay
  omega

theorem ext_fields (h : a.fields = b.fields) : a = b := by
  obtain ⟨⟨⟩⟩ := a
  obtain ⟨⟨⟩⟩ := b
  simp only [DateTime.fields, List.cons.injEq] at h
  obtain ⟨rfl, rfl, rfl, rfl, rfl, rfl, rfl, -⟩ := h
  rfl

theorem fields_lt : a.fields < b.fields ↔ a.instant < b.instant := by
  obtain ⟨-, -, -, hhour, hminute, hsecond, hmicro⟩ := a.valid
  obtain ⟨-, -, -, hhour', hminute', hsecond', hmicro'⟩ := b.valid
  have hsod : a.secondOfDay < 86400 := a.secondOfDay_lt
  have hsod' : b.secondOfDay < 86400 := b.secondOfDay_lt
  rw [instant, instant, Digits.mul_add_lt hmicro hmicro', Digits.mul_add_lt hsod hsod',
    Date.ordinal_lt]
  have hdays : a.date.ordinal * 86400 + a.secondOfDay = b.date.ordinal * 86400 + b.secondOfDay ↔
      a.date.ordinal = b.date.ordinal ∧ a.secondOfDay = b.secondOfDay := by
    omega
  have hseconds : a.secondOfDay < b.secondOfDay ↔
      a.hour < b.hour ∨ a.hour = b.hour ∧
        (a.minute < b.minute ∨ a.minute = b.minute ∧ a.second < b.second) := by
    unfold secondOfDay
    omega
  have htime : a.secondOfDay = b.secondOfDay ↔
      a.hour = b.hour ∧ a.minute = b.minute ∧ a.second = b.second := by
    unfold secondOfDay
    omega
  rw [hdays, hseconds, htime, Date.ordinal_eq]
  simp only [DateTime.fields, List.cons_lt_cons_iff, List.lt_irrefl, and_false, or_false, date,
    and_or_left, or_assoc, and_assoc]

theorem instant_injective : Function.Injective instant := by
  intro a b h
  have hab := (@fields_lt a b).not.mpr (by omega)
  have hba := (@fields_lt b a).not.mpr (by omega)
  exact ext_fields (le_antisymm (not_lt.mp hba) (not_lt.mp hab))

instance : LinearOrder Moment := LinearOrder.lift' instant instant_injective

theorem le_iff : a ≤ b ↔ a.instant ≤ b.instant := Iff.rfl

theorem isoformat_lt_iff : a.isoformat < b.isoformat ↔ a < b :=
  DateTime.isoformat_lt.trans fields_lt

def shown (t : WithBot Moment) : List Char := t.recBotCoe [] fun t ↦ t.isoformat

@[simp] theorem shown_bot : shown ⊥ = [] := rfl

@[simp] theorem shown_coe (t : Moment) : shown t = t.isoformat := rfl

theorem isoformat_ne_nil (t : Moment) : t.isoformat ≠ [] := by
  unfold DateTime.isoformat Digits.field Digits.padded
  simp

theorem shown_lt {s t : WithBot Moment} : shown s < shown t ↔ s < t := by
  cases s with
  | bot =>
    cases t with
    | bot => simp
    | coe t =>
      obtain ⟨c, text, htext⟩ := List.exists_cons_of_ne_nil t.isoformat_ne_nil
      simp [htext]
  | coe s =>
    cases t with
    | bot => simp
    | coe t =>
      rw [shown_coe, shown_coe, WithBot.coe_lt_coe]
      exact isoformat_lt_iff

theorem shown_le {s t : WithBot Moment} : shown s ≤ shown t ↔ s ≤ t := by
  rw [← not_lt, ← not_lt]
  exact shown_lt.not

end Moment

end RiskApp.Server
