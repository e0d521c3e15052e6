import Stynx.Cron
import Stynx.OffsetClocks

/-!
# Dates and minutes of a wall clock

A minute of the wall clock is counted from the start of 1970 on it. From the year 100 on, its
fields give it back, and the minutes of a date are the hours and minutes of a day.
-/

namespace Stynx.Cron

open IsoInstants OffsetClocks

variable {m : Int}

def firstDate : Int := dayFromYear 100

def dateOf (m : Int) : Int := m / 1440

theorem dayFromYear_add_period (year k : Int) :
    dayFromYear (year + 400 * k) = dayFromYear year + 146097 * k := by
  simp only [dayFromYear]
  omega

theorem inLeapYear_add_period (year k : Int) : inLeapYear (year + 400 * k) = inLeapYear year := by
  have hfour : (year + 400 * k) % 4 = year % 4 := by omega
  have hhundred : (year + 400 * k) % 100 = year % 100 := by omega
  have hperiod : (year + 400 * k) % 400 = year % 400 := by omega
  rw [inLeapYear, inLeapYear, hfour, hhundred, hperiod]

/-- What the fields of a date say. -/
structure FieldsOf (day : Int) (wall : WallMinute) : Prop where
  ofDay : dayFromYear wall.year + monthStart (inLeapYear wall.year) (wall.month - 1) +
    (wall.day - 1) = day
  ofYear : dayFromYear wall.year ≤ day ∧ day < dayFromYear (wall.year + 1)

theorem fieldsOf_utcWall (time : Int) : FieldsOf (time / dayMs) (utcWall time) := by
  have hnonneg : 0 ≤ time / dayMs % 146097 := Int.emod_nonneg _ (by decide)
  have hwithin : (((time / dayMs % 146097).toNat : Nat) : Int) = time / dayMs % 146097 :=
    Int.toNat_of_nonneg hnonneg
  obtain ⟨hday, hbound⟩ := dayWithinYear_spec (time / dayMs % 146097).toNat
  obtain ⟨-, hlow, hhigh⟩ := yearFromDay_spec (time / dayMs % 146097).toNat
  have hleap : inLeapYear (yearFromDay (time / dayMs % 146097).toNat + 400 * (time / dayMs / 146097)) =
      inLeapYear (yearFromDay (time / dayMs % 146097).toNat) := inLeapYear_add_period _ _
  obtain ⟨-, hstart, -⟩ := monthFromDay_spec hbound
  refine ⟨?_, ?_⟩
  · simp only [utcWall, hleap, Nat.add_sub_cancel, dayFromYear_add_period]
    omega
  · simp only [utcWall]
    rw [Int.add_right_comm, dayFromYear_add_period, dayFromYear_add_period]
    omega

theorem FieldsOf.fullYear {day : Int} {wall : WallMinute} (h : FieldsOf day wall)
    (hday : firstDate ≤ day) : fullYear wall.year = wall.year := by
  have hyear : 100 ≤ wall.year := by
    have hhigh := h.ofYear.2
    simp only [firstDate, dayFromYear] at hday hhigh
    omega
  exact if_neg (by omega)

variable {hour minute : Nat} {date : Int}

theorem utcWall_minute (date : Int) (hhour : hour < 24) (hminute : minute < 60) :
    utcWall ((date * 1440 + hour * 60 + minute) * minuteMs) =
      { utcWall (date * dayMs) with hour := hour, minute := minute } := by
  have hdate : (date * 1440 + hour * 60 + minute) * minuteMs / dayMs = date := by
    simp only [minuteMs, dayMs]
    omega
  have hsame : date * dayMs / dayMs = date := Int.mul_ediv_cancel _ (by decide)
  have hours : ((date * 1440 + hour * 60 + minute) * minuteMs / (60 * minuteMs) % 24).toNat = hour := by
    simp only [minuteMs]
    omega
  have hminutes : ((date * 1440 + hour * 60 + minute) * minuteMs / minuteMs % 60).toNat = minute := by
    simp only [minuteMs]
    omega
  simp only [utcWall, hdate, hsame, hours, hminutes]

theorem minute_eq (m : Int) : ∃ hour minute : Nat, hour < 24 ∧ minute < 60 ∧
    m = dateOf m * 1440 + hour * 60 + minute := by
  refine ⟨(m / 60 % 24).toNat, (m % 60).toNat, by omega, by omega, ?_⟩
  simp only [dateOf]
  omega

theorem wallTime_date (hdate : firstDate ≤ date) (hour minute : Nat) :
    wallTime { utcWall (date * dayMs) with hour := hour, minute := minute } =
      (date * 1440 + hour * 60 + minute) * minuteMs := by
  have hfields := fieldsOf_utcWall (date * dayMs)
  rw [Int.mul_ediv_cancel _ (by decide : dayMs ≠ 0)] at hfields
  have hyear := hfields.fullYear hdate
  have hday := hfields.ofDay
  simp only [wallTime]
  rw [hyear, hday]
  simp only [minuteMs, dayMs]
  omega

theorem wallTime_utcWall (hm : firstDate ≤ dateOf m) : wallTime (utcWall (m * minuteMs)) = m * minuteMs := by
  obtain ⟨hour, minute, hhour, hminute, heq⟩ := minute_eq m
  rw [heq, utcWall_minute _ hhour hminute, wallTime_date hm]

theorem dateOf_eq_of_fields (hyear : (utcWall (m * minuteMs)).year = (utcWall (date * dayMs)).year)
    (hmonth : (utcWall (m * minuteMs)).month = (utcWall (date * dayMs)).month)
    (hday : (utcWall (m * minuteMs)).day = (utcWall (date * dayMs)).day) : dateOf m = date := by
  have hone := (fieldsOf_utcWall (m * minuteMs)).ofDay
  have htwo := (fieldsOf_utcWall (date * dayMs)).ofDay
  rw [hyear, hmonth, hday, htwo] at hone
  simp only [dayMs, minuteMs] at hone
  simp only [dateOf]
  omega

theorem fields_of_dateOf_eq (h : dateOf m = date) :
    (utcWall (m * minuteMs)).year = (utcWall (date * dayMs)).year ∧
      (utcWall (m * minuteMs)).month = (utcWall (date * dayMs)).month ∧
      (utcWall (m * minuteMs)).day = (utcWall (date * dayMs)).day := by
  obtain ⟨hour, minute, hhour, hminute, heq⟩ := minute_eq m
  rw [heq, h, utcWall_minute _ hhour hminute]
  exact ⟨rfl, rfl, rfl⟩

theorem midnight_utcWall (hm : firstDate ≤ dateOf m) :
    midnight (utcWall (m * minuteMs)) = dateOf m * dayMs := by
  obtain ⟨hour, minute, hhour, hminute, heq⟩ := minute_eq m
  have htime := wallTime_date hm 0 0
  have hfields : ({ utcWall (m * minuteMs) with hour := 0, minute := 0 } : WallMinute) =
      { utcWall (dateOf m * dayMs) with hour := 0, minute := 0 } := by
    obtain ⟨hyear, hmonth, hday⟩ := fields_of_dateOf_eq (m := m) rfl
    rw [WallMinute.mk.injEq]
    exact ⟨hyear, hmonth, hday, rfl, rfl⟩
  rw [midnight, hfields, htime]
  simp only [minuteMs, dayMs]
  omega

variable {parsed : ParsedCron}

def Matches (parsed : ParsedCron) (m : Int) : Prop := matchesWall parsed (utcWall (m * minuteMs)) = true

instance : Decidable (Matches parsed m) := inferInstanceAs (Decidable (_ = true))

/-- A date may have matching minutes. -/
def DateMatches (parsed : ParsedCron) (date : Int) : Prop :=
  parsed.month.contains (utcWall (date * dayMs)).month = true ∧
    matchesDay parsed (utcWall (date * dayMs)) = true

variable (hdate : firstDate ≤ date) (hhour : hour < 24) (hminute : minute < 60)
include hdate hhour hminute

theorem weekday_date :
    weekday { utcWall (date * dayMs) with hour := hour, minute := minute } =
      ((date + 4) % 7).toNat := by
  rw [weekday, wallTime_date hdate]
  have hday : (date * 1440 + hour * 60 + minute) * minuteMs / dayMs = date := by
    simp only [minuteMs, dayMs]
    omega
  rw [hday]

theorem matchesDay_date :
    matchesDay parsed { utcWall (date * dayMs) with hour := hour, minute := minute } =
      matchesDay parsed (utcWall (date * dayMs)) := by
  have hown : utcWall (date * dayMs) = { utcWall (date * dayMs) with hour := 0, minute := 0 } := by
    have hstart := utcWall_minute date (by decide : 0 < 24) (by decide : 0 < 60)
    rw [← hstart]
    congr 1
    simp only [minuteMs, dayMs]
    omega
  have hweekday : weekday (utcWall (date * dayMs)) = ((date + 4) % 7).toNat := by
    rw [hown, weekday_date hdate (by decide) (by decide)]
  simp only [matchesDay, weekday_date hdate hhour hminute, hweekday]

theorem matches_iff :
    Matches parsed (date * 1440 + hour * 60 + minute) ↔
      DateMatches parsed date ∧ hour ∈ parsed.hour ∧ minute ∈ parsed.minute := by
  rw [Matches, utcWall_minute date hhour hminute, matchesWall, matchesDay_date hdate hhour hminute]
  simp only [Bool.and_eq_true, List.contains_iff_mem, DateMatches]
  tauto

end Stynx.Cron
