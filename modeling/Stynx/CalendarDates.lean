import Stynx.IsoInstants

/-!
# Calendar dates

Days before and after 1970 and their dates, by the day and year functions of the
ECMAScript standard; the same count of days made from the lengths of years and
months.
-/

namespace Stynx.CalendarDates

open IsoInstants

def epochDay : Int := 719528

def eraDays : Int := 146097

/-- `YearFromTime`, of a day before or after 1970. -/
def yearOfDay (day : Int) : Int :=
  400 * ((day + epochDay) / eraDays) +
    Nat.findGreatest (fun year => dayFromYear year + epochDay ≤ (day + epochDay) % eraDays) 399

theorem dayFromYear_era (era year : Int) :
    dayFromYear (400 * era + year) = eraDays * era + dayFromYear year := by
  simp only [dayFromYear, eraDays]
  omega

theorem yearOfDay_spec (day : Int) :
    dayFromYear (yearOfDay day) ≤ day ∧ day < dayFromYear (yearOfDay day + 1) := by
  have hfirst : dayFromYear ((0 : Nat) : Int) + epochDay ≤ (day + epochDay) % eraDays := by
    simp only [dayFromYear, epochDay, eraDays]
    omega
  have hspec := Nat.findGreatest_spec
    (P := fun year : Nat => dayFromYear year + epochDay ≤ (day + epochDay) % eraDays)
    (Nat.zero_le 399) hfirst
  have hle := Nat.findGreatest_le
    (P := fun year : Nat => dayFromYear year + epochDay ≤ (day + epochDay) % eraDays) 399
  have hnot := Nat.findGreatest_is_greatest
    (P := fun year : Nat => dayFromYear year + epochDay ≤ (day + epochDay) % eraDays)
    (n := 399) (k := Nat.findGreatest
      (fun year : Nat => dayFromYear year + epochDay ≤ (day + epochDay) % eraDays) 399 + 1)
    (Nat.lt_add_one _)
  rw [yearOfDay, Int.add_assoc, dayFromYear_era, dayFromYear_era]
  generalize Nat.findGreatest
    (fun year : Nat => dayFromYear year + epochDay ≤ (day + epochDay) % eraDays) 399 = year
    at hspec hle hnot ⊢
  have hday : day =
      eraDays * ((day + epochDay) / eraDays) + (day + epochDay) % eraDays - epochDay := by
    have h := Int.mul_ediv_add_emod (day + epochDay) eraDays
    omega
  have hrest : (day + epochDay) % eraDays < eraDays := Int.emod_lt_of_pos _ (by decide)
  have hnext : (day + epochDay) % eraDays < dayFromYear ((year : Int) + 1) + epochDay := by
    rcases Nat.lt_or_ge year 399 with hlt | hge
    · have h := hnot hlt
      push_cast at h
      omega
    · have hlast : year = 399 := by omega
      rw [hlast]
      simp only [dayFromYear, epochDay, eraDays] at hrest ⊢
      omega
  constructor <;> omega

theorem dayFromYear_mono {a b : Int} (h : a ≤ b) : dayFromYear a ≤ dayFromYear b := by
  simp only [dayFromYear]
  omega

variable {year : Int} {day month : Nat}

theorem yearOfDay_eq {day : Int} (hle : dayFromYear year ≤ day) (hlt : day < dayFromYear (year + 1)) :
    yearOfDay day = year := by
  obtain ⟨hspec, hspec'⟩ := yearOfDay_spec day
  rcases lt_trichotomy (yearOfDay day) year with h | h | h
  · have hmono := dayFromYear_mono (show yearOfDay day + 1 ≤ year by omega)
    omega
  · exact h
  · have hmono := dayFromYear_mono (show year + 1 ≤ yearOfDay day by omega)
    omega

theorem yearOfDay_mono {a b : Int} (h : a ≤ b) : yearOfDay a ≤ yearOfDay b := by
  by_contra hlt
  have hmono := dayFromYear_mono (show yearOfDay b + 1 ≤ yearOfDay a by omega)
  have ha := (yearOfDay_spec a).1
  have hb := (yearOfDay_spec b).2
  omega

/-- The days of a month, months counted from zero. -/
def monthLength (leap : Bool) (month : Nat) : Nat :=
  monthStart leap (month + 1) - monthStart leap month

theorem monthStart_mono (leap : Bool) :
    ∀ month ≤ 12, ∀ other ≤ month, monthStart leap other ≤ monthStart leap month := by
  cases leap <;> decide

theorem monthStart_succ (leap : Bool) (month : Nat) (h : month < 12) :
    monthStart leap (month + 1) = monthStart leap month + monthLength leap month := by
  have hmono := monthStart_mono leap (month + 1) (by omega) month (by omega)
  rw [monthLength]
  omega

theorem monthFromDay_lt {leap : Bool} (h : day < monthStart leap 12) :
    day < monthStart leap (monthFromDay leap day + 1) := by
  have hle : monthFromDay leap day ≤ 11 := Nat.findGreatest_le 11
  rcases Nat.lt_or_ge (monthFromDay leap day) 11 with hlt | hge
  · have hnot := Nat.findGreatest_is_greatest (P := fun month => monthStart leap month ≤ day)
      (Nat.lt_add_one (monthFromDay leap day)) hlt
    omega
  · have hlast : monthFromDay leap day = 11 := by omega
    rw [hlast]
    exact h

theorem monthFromDay_eq {leap : Bool} (hmonth : month < 12) (hle : monthStart leap month ≤ day)
    (hlt : day < monthStart leap (month + 1)) :
    monthFromDay leap day = month := by
  have hyear := monthStart_mono leap 12 le_rfl (month + 1) (by omega)
  have hbound : day < monthStart leap 12 := by omega
  have hlt' := monthFromDay_lt hbound
  obtain ⟨hle', hspec, -⟩ := monthFromDay_spec hbound
  rcases lt_trichotomy (monthFromDay leap day) month with h | h | h
  · have hmono := monthStart_mono leap month (by omega) (monthFromDay leap day + 1) (by omega)
    omega
  · exact h
  · have hmono := monthStart_mono leap (monthFromDay leap day) (by omega) (month + 1) (by omega)
    omega

/-- A date, months and days of the month counted from one. -/
structure Date where
  year : Int
  month : Nat
  day : Nat
  deriving DecidableEq

def Date.Real (d : Date) : Prop :=
  1 ≤ d.month ∧ d.month ≤ 12 ∧ 1 ≤ d.day ∧ d.day ≤ monthLength (inLeapYear d.year) (d.month - 1)

instance (d : Date) : Decidable d.Real :=
  inferInstanceAs (Decidable (1 ≤ d.month ∧ _ ∧ _ ∧ _))

/-- `MakeDay`, of a month of the year; the day of the month may lie outside the month. -/
def makeDay (year : Int) (month : Nat) (day : Nat) : Int :=
  dayFromYear year + monthStart (inLeapYear year) (month - 1) + day - 1

def dayOfYear (day : Int) : Nat := (day - dayFromYear (yearOfDay day)).toNat

/-- `YearFromTime`, `MonthFromTime` and `DateFromTime`, of a day. -/
def dateOf (day : Int) : Date :=
  let leap := inLeapYear (yearOfDay day)
  let month := monthFromDay leap (dayOfYear day)
  ⟨yearOfDay day, month + 1, dayOfYear day - monthStart leap month + 1⟩

theorem monthStart_twelve (leap : Bool) :
    (monthStart leap 12 : Int) = 365 + if leap then 1 else 0 := by
  cases leap <;> rfl

theorem dayOfYear_spec (day : Int) :
    (dayOfYear day : Int) = day - dayFromYear (yearOfDay day) ∧
      dayOfYear day < monthStart (inLeapYear (yearOfDay day)) 12 := by
  obtain ⟨hle, hlt⟩ := yearOfDay_spec day
  rw [dayFromYear_succ] at hlt
  have hday : (dayOfYear day : Int) = day - dayFromYear (yearOfDay day) := by
    rw [dayOfYear]
    omega
  have htwelve := monthStart_twelve (inLeapYear (yearOfDay day))
  refine ⟨hday, ?_⟩
  omega

theorem dateOf_spec (day : Int) :
    (dateOf day).Real ∧ makeDay (dateOf day).year (dateOf day).month (dateOf day).day = day := by
  obtain ⟨hday, hbound⟩ := dayOfYear_spec day
  obtain ⟨hle, hspec, -⟩ := monthFromDay_spec hbound
  have hlt := monthFromDay_lt hbound
  simp only [Date.Real, makeDay, dateOf, monthLength, Nat.add_sub_cancel]
  refine ⟨⟨by omega, by omega, by omega, by omega⟩, by omega⟩

theorem dateOf_makeDay (h : (Date.mk year month day).Real) :
    dateOf (makeDay year month day) = ⟨year, month, day⟩ := by
  obtain ⟨hmonth, hmonth', hday, hday'⟩ := h
  dsimp only at hmonth hmonth' hday hday'
  have hsucc := monthStart_succ (inLeapYear year) (month - 1) (by omega)
  have htwelve := monthStart_twelve (inLeapYear year)
  have hmono := monthStart_mono (inLeapYear year) 12 le_rfl (month - 1 + 1) (by omega)
  have hyear : yearOfDay (makeDay year month day) = year := by
    apply yearOfDay_eq
    · rw [makeDay]
      omega
    · rw [dayFromYear_succ, makeDay]
      omega
  have hoffset : dayOfYear (makeDay year month day) =
      monthStart (inLeapYear year) (month - 1) + day - 1 := by
    rw [dayOfYear, hyear, makeDay]
    omega
  have hfrom : monthFromDay (inLeapYear year)
      (monthStart (inLeapYear year) (month - 1) + day - 1) = month - 1 :=
    monthFromDay_eq (by omega) (by omega) (by omega)
  rw [dateOf, hyear, hoffset]
  simp only [hfrom, Date.mk.injEq, true_and]
  omega

theorem dateOf_makeDay_iff :
    dateOf (makeDay year month day) = ⟨year, month, day⟩ ↔ (Date.mk year month day).Real := by
  constructor
  · intro h
    have hreal := (dateOf_spec (makeDay year month day)).1
    rw [h] at hreal
    exact hreal
  · exact dateOf_makeDay

def yearLength (year : Int) : Nat := if inLeapYear year then 366 else 365

def daysOfYears (years : Nat) : Nat := ((List.range years).map fun year : Nat => yearLength year).sum

def daysOfMonths (leap : Bool) (months : Nat) : Nat :=
  ((List.range months).map (monthLength leap)).sum

/-- The days from 1970 to a date of year 0 or later, counted year by year and month by month. -/
def countDays (year month day : Nat) : Int :=
  (daysOfYears year + daysOfMonths (inLeapYear year) (month - 1) + (day - 1) : Nat) -
    (daysOfYears 1970 : Nat)

theorem daysOfYears_eq (years : Nat) :
    (daysOfYears years : Int) = dayFromYear years + epochDay := by
  induction years with
  | zero => rfl
  | succ years ih =>
    have hlast : daysOfYears (years + 1) = daysOfYears years + yearLength years := by
      rw [daysOfYears, List.range_succ, List.map_append, List.sum_append]
      rfl
    rw [hlast, Nat.cast_add, ih, Nat.cast_add, Nat.cast_one, dayFromYear_succ, yearLength]
    split_ifs <;> omega

theorem daysOfMonths_eq (leap : Bool) {months : Nat} (h : months ≤ 12) :
    daysOfMonths leap months = monthStart leap months := by
  induction months with
  | zero => rfl
  | succ months ih =>
    have hlast : daysOfMonths leap (months + 1) =
        daysOfMonths leap months + monthLength leap months := by
      rw [daysOfMonths, List.range_succ, List.map_append, List.sum_append]
      rfl
    rw [hlast, ih (by omega), monthStart_succ leap months (by omega)]

theorem makeDay_eq_countDays {year : Nat} (hmonth : month ≤ 12) (hday : 1 ≤ day) :
    makeDay year month day = countDays year month day := by
  have hyears := daysOfYears_eq year
  have hepoch := daysOfYears_eq 1970
  have hmonths := daysOfMonths_eq (inLeapYear year) (show month - 1 ≤ 12 by omega)
  have hzero : dayFromYear ((1970 : Nat) : Int) = 0 := rfl
  rw [makeDay, countDays, hmonths]
  omega

def yearText (year : Int) : List Char :=
  if 0 ≤ year ∧ year ≤ 9999 then pad 4 year.toNat
  else if 0 ≤ year then '+' :: pad 6 year.toNat else '-' :: pad 6 (-year).toNat

/-- `Date.prototype.toISOString`, of a time value before or after 1970. -/
def isoOf (time : Int) : List Char :=
  let date := dateOf (time / msPerDay)
  let clock := (time % msPerDay).toNat
  isoText (yearText date.year) date.month date.day (clock / 3600000) (clock / 60000 % 60)
    (clock / 1000 % 60) (clock % 1000)

end Stynx.CalendarDates
