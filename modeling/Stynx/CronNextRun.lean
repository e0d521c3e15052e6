import Stynx.CronOccurrences

/-!
# The walk over the dates

The dates come in the order of the clock, and what is due at an earlier minute happens no later. So
the first date with a candidate holds the least occurrence, where the search starts and ends at
instants that the clock has left behind for good.
-/

namespace Stynx.Cron

open IsoInstants OffsetClocks

variable {offset : Int → Int} {zones : Zones} {expression timezone : String} {first last : Int}
  {parsed : ParsedCron} {after : Int}

/-- An instant, in minutes, at which an expression is due in a zone. -/
def Occurs (offset : Int → Int) (parsed : ParsedCron) (t : Int) : Prop :=
  ∃ m, Matches parsed m ∧ Due offset m t

def IsZone (zones : Zones) (timezone : String) (offset : Int → Int) : Prop :=
  formatter zones timezone = some none ∧ offset = (fun _ => 0) ∨
    ∃ resolve, formatter zones timezone = some (some resolve) ∧
      ∀ t, resolve (t * minuteMs) = utcWall (clock offset t * minuteMs)

/-- What is due in a search is due for the date shown at its first minute, or for a later one. -/
def StartsClear (offset : Int → Int) (parsed : ParsedCron) (first last : Int) : Prop :=
  ∀ m t, Matches parsed m → Due offset m t → first ≤ t → t ≤ last →
    dateOf (clock offset first) ≤ dateOf m

/-- After a search, the clock shows no matching minute again that it has shown in it. -/
def EndsClear (offset : Int → Int) (parsed : ParsedCron) (first last : Int) : Prop :=
  ∀ t u, Matches parsed (clock offset t) → first ≤ t → t ≤ last → last < u →
    clock offset u ≠ clock offset t

def firstMinute (after : Int) : Int := after / minuteMs + 1

def lastMinute (after : Int) : Int := firstMinute after + (maxSearchMinutes - 1)

theorem searchStart_eq (after : Int) : searchStart after = firstMinute after * minuteMs := by
  rw [searchStart, firstMinute, Int.add_mul, Int.one_mul]

theorem searchEnd_eq (after : Int) : searchEnd after = lastMinute after * minuteMs := by
  rw [searchEnd, lastMinute, searchStart_eq, Int.add_mul]

variable {m t : Int} {zone : Option (Int → WallMinute)}

theorem dateOf_mono {m' : Int} (h : m ≤ m') : dateOf m ≤ dateOf m' :=
  Int.ediv_le_ediv (by decide) h

theorem candidate_iff (hend : EndsClear offset parsed first last) {date x : Int} :
    Candidate offset parsed first last date x ↔ ∃ m t, dateOf m = date ∧ Matches parsed m ∧
      x = t * minuteMs ∧ Due offset m t ∧ first ≤ t ∧ t ≤ last := by
  constructor
  · rintro ⟨m, t, hdate, hmatch, rfl, ⟨hlow, hhigh, hshown, hnone⟩ | ⟨hlow, hhigh, hskip⟩⟩
    · refine ⟨m, t, hdate, hmatch, rfl, .inl ⟨hshown, fun u hlt => ?_⟩, hlow, hhigh⟩
      by_cases hu : u ≤ last
      · exact hnone u hlt hu
      · exact hshown ▸ hend t u (hshown ▸ hmatch) hlow hhigh (not_le.mp hu)
    · exact ⟨m, t, hdate, hmatch, rfl, .inr hskip, hlow, hhigh⟩
  · rintro ⟨m, t, hdate, hmatch, rfl, ⟨hshown, hlast⟩ | hskip, hlow, hhigh⟩
    · exact ⟨m, t, hdate, hmatch, rfl, .inl ⟨hlow, hhigh, hshown, fun u hlt _ => hlast u hlt⟩⟩
    · exact ⟨m, t, hdate, hmatch, rfl, .inr ⟨hlow, hhigh, hskip⟩⟩

theorem date_of_due {bound : Int} (hpaced : Paced sixHours bound offset)
    (hstart : StartsClear offset parsed first last) (hmatch : Matches parsed m)
    (hdue : Due offset m t) (hlow : first ≤ t) (hhigh : t ≤ last) :
    dateOf (clock offset first) ≤ dateOf m ∧ dateOf m ≤ dateOf (clock offset last) := by
  refine ⟨hstart m t hmatch hdue hlow hhigh, dateOf_mono ?_⟩
  rcases Int.lt_or_eq_of_le hhigh with hlt | rfl
  · exact (hpaced.lt_clock_of_due hdue hlt).le
  · exact hdue.elim (fun hlatest => hlatest.1.ge) fun hskip => hskip.2.le

theorem searchDays_cases (left : Nat) (date : Int) :
    (∃ i : Nat, i < left ∧ searchDays parsed zone first last left (date * dayMs) =
      searchDay parsed zone first last ((date + i) * dayMs) ∧
      (searchDay parsed zone first last ((date + i) * dayMs)).isSome = true ∧
      ∀ j : Nat, j < i → searchDay parsed zone first last ((date + j) * dayMs) = none) ∨
    searchDays parsed zone first last left (date * dayMs) = none ∧
      ∀ j : Nat, j < left → searchDay parsed zone first last ((date + j) * dayMs) = none := by
  induction left generalizing date with
  | zero => exact .inr ⟨rfl, fun j hj => absurd hj (Nat.not_lt_zero j)⟩
  | succ left ih =>
    have hzero : (date + (0 : Nat)) * dayMs = date * dayMs := by
      rw [Int.natCast_zero, Int.add_zero]
    have hsucc : ∀ j : Nat, (date + 1 + j) * dayMs = (date + (j + 1 : Nat)) * dayMs := by
      intro j
      congr 1
      omega
    have hnext : date * dayMs + dayMs = (date + 1) * dayMs := by
      rw [Int.add_mul, Int.one_mul]
    rw [searchDays]
    split
    case h_1 best hbest =>
      refine .inl ⟨0, by omega, ?_, ?_, fun j hj => absurd hj (Nat.not_lt_zero j)⟩
      · rw [hzero, hbest]
      · rw [hzero, hbest]
        rfl
    case h_2 hnone =>
      have hbefore : ∀ n : Nat, (∀ j : Nat, j < n →
          searchDay parsed zone first last ((date + 1 + j) * dayMs) = none) →
          ∀ j : Nat, j < n + 1 → searchDay parsed zone first last ((date + j) * dayMs) = none := by
        intro n hn j hj
        rcases Nat.eq_zero_or_pos j with rfl | hpos
        · rw [hzero, hnone]
        · have hrest := hn (j - 1) (by omega)
          rw [hsucc, Nat.sub_add_cancel hpos] at hrest
          exact hrest
      rw [hnext]
      rcases ih (date + 1) with ⟨i, hi, heq, hsome, hearlier⟩ | ⟨heq, hearlier⟩
      · rw [hsucc] at heq hsome
        exact .inl ⟨i + 1, by omega, heq, hsome, hbefore i hearlier⟩
      · exact .inr ⟨heq, hbefore left hearlier⟩

theorem searchDays_least {bound : Int} (hpaced : Paced sixHours bound offset)
    (hstart : StartsClear offset parsed first last) (hend : EndsClear offset parsed first last)
    (hday : ∀ date, dateOf (clock offset first) ≤ date →
      Least (Candidate offset parsed first last date)
        (searchDay parsed zone (first * minuteMs) (last * minuteMs) (date * dayMs))) :
    Least (fun x => ∃ t, x = t * minuteMs ∧ Occurs offset parsed t ∧ first ≤ t ∧ t ≤ last)
      (searchDays parsed zone (first * minuteMs) (last * minuteMs)
        (dateOf (clock offset last) - dateOf (clock offset first) + 1).toNat
        (dateOf (clock offset first) * dayMs)) := by
  -- an occurrence belongs to one of the dates
  have hindex : ∀ {m t}, Matches parsed m → Due offset m t → first ≤ t → t ≤ last →
      ∃ j : Nat, j < (dateOf (clock offset last) - dateOf (clock offset first) + 1).toNat ∧
        dateOf m = dateOf (clock offset first) + j := by
    intro m t hmatch hdue hlow hhigh
    obtain ⟨hfrom, hto⟩ := date_of_due hpaced hstart hmatch hdue hlow hhigh
    exact ⟨(dateOf m - dateOf (clock offset first)).toNat, by omega, by omega⟩
  have hcandidate : ∀ {m t}, Matches parsed m → Due offset m t → first ≤ t → t ≤ last →
      Candidate offset parsed first last (dateOf m) (t * minuteMs) :=
    fun hmatch hdue hlow hhigh =>
      (candidate_iff hend).mpr ⟨_, _, rfl, hmatch, rfl, hdue, hlow, hhigh⟩
  rcases searchDays_cases (dateOf (clock offset last) - dateOf (clock offset first) + 1).toNat
    (dateOf (clock offset first)) with ⟨i, -, heq, hsome, hbefore⟩ | ⟨heq, hnone⟩
  · obtain ⟨best, hbest⟩ := Option.isSome_iff_exists.mp hsome
    have hleast := hday (dateOf (clock offset first) + i) (by omega)
    rw [hbest] at hleast
    obtain ⟨m, t, hdate, hmatch, rfl, hdue, hlow, hhigh⟩ := (candidate_iff hend).mp hleast.1
    rw [heq, hbest]
    refine ⟨⟨t, rfl, ⟨m, hmatch, hdue⟩, hlow, hhigh⟩, ?_⟩
    rintro x ⟨t', rfl, ⟨m', hmatch', hdue'⟩, hlow', hhigh'⟩
    have hcand := hcandidate hmatch' hdue' hlow' hhigh'
    obtain ⟨j, -, hj⟩ := hindex hmatch' hdue' hlow' hhigh'
    rcases lt_trichotomy j i with hlt | rfl | hlt
    · have hempty := hday (dateOf (clock offset first) + j) (by omega)
      rw [hbefore j hlt, ← hj] at hempty
      exact absurd hcand (hempty _)
    · exact hleast.2 _ (hj ▸ hcand)
    · -- what is due at a later date happens no earlier
      have hless : m < m' := by
        simp only [dateOf] at hdate hj
        omega
      have hle := hpaced.due_le_due hdue' hdue hless
      exact Int.mul_le_mul_of_nonneg_right hle (by decide)
  · rw [heq]
    rintro x ⟨t, rfl, ⟨m, hmatch, hdue⟩, hlow, hhigh⟩
    have hcand := hcandidate hmatch hdue hlow hhigh
    obtain ⟨j, hlt, hj⟩ := hindex hmatch hdue hlow hhigh
    have hempty := hday (dateOf (clock offset first) + j) (by omega)
    rw [hnone j hlt, ← hj] at hempty
    exact hempty _ hcand

theorem nextCronRunAt_eq (hparsed : parseCronExpression expression = some parsed)
    (hformatter : formatter zones timezone = some zone)
    (hshows : ∀ t, zone.getD utcWall (t * minuteMs) = utcWall (clock offset t * minuteMs))
    (hfirst : firstDate ≤ dateOf (clock offset (firstMinute after)))
    (hlast : firstDate ≤ dateOf (clock offset (lastMinute after))) :
    nextCronRunAt zones expression after timezone =
      searchDays parsed zone (firstMinute after * minuteMs) (lastMinute after * minuteMs)
        (dateOf (clock offset (lastMinute after)) -
          dateOf (clock offset (firstMinute after)) + 1).toNat
        (dateOf (clock offset (firstMinute after)) * dayMs) := by
  have hwalk : ∀ a b : Int, (a * dayMs - b * dayMs) / dayMs = a - b := fun a b => by
    rw [← Int.sub_mul, Int.mul_ediv_cancel _ (by decide)]
  rw [nextCronRunAt, hparsed, Option.bind_some, hformatter, Option.bind_some]
  dsimp only
  rw [searchStart_eq, searchEnd_eq, hshows, hshows, midnight_utcWall hfirst,
    midnight_utcWall hlast, hwalk]

def InSearch (offset : Int → Int) (parsed : ParsedCron) (after time : Int) : Prop :=
  ∃ t, time = t * minuteMs ∧ Occurs offset parsed t ∧ after < time ∧ time ≤ searchEnd after

/-- The wall clock of a zone with given offsets. -/
def showing (offset : Int → Int) (time : Int) : WallMinute :=
  utcWall (time + offset (time / minuteMs) * minuteMs)

def zonesOf (offset : Int → Int) : Zones := fun _ => some (showing offset)

theorem showing_minute (offset : Int → Int) (t : Int) :
    showing offset (t * minuteMs) = utcWall (clock offset t * minuteMs) := by
  have hminute : t * minuteMs / minuteMs = t := Int.mul_ediv_cancel _ (by decide)
  rw [showing, hminute, clock, Int.add_mul]

theorem isZone_zonesOf (h : formatter (zonesOf offset) timezone = some (some (showing offset))) :
    IsZone (zonesOf offset) timezone offset :=
  .inr ⟨showing offset, h, showing_minute offset⟩

def changesOnce (change before after t : Int) : Int := if t < change then before else after

theorem changesOnce_changes {change before after : Int}
    (h : Changes (changesOnce change before after) t) : t = change := by
  simp only [Changes, changesOnce] at h
  split_ifs at h
  all_goals omega

theorem spaced_changesOnce (change before after gap : Int) :
    Spaced gap (changesOnce change before after) := by
  intro t u ht hu hlt
  have hfirst := changesOnce_changes ht
  have hsecond := changesOnce_changes hu
  omega

def changesTwice (change before between next after t : Int) : Int :=
  if t < change then before else changesOnce next between after t

theorem spaced_changesTwice {change before between next after gap : Int} (hgap : change + gap ≤ next) :
    Spaced gap (changesTwice change before between next after) := by
  have hchange : ∀ t, Changes (changesTwice change before between next after) t →
      t = change ∨ t = next := by
    intro t ht
    simp only [Changes, changesTwice, changesOnce] at ht
    split_ifs at ht
    all_goals omega
  intro t u ht hu hlt
  have hfirst := hchange t ht
  have hsecond := hchange u hu
  omega

def daily (hour minute : Nat) : ParsedCron where
  minute := [minute]
  hour := [hour]
  dayOfMonth := List.range' 1 31
  month := List.range' 1 12
  dayOfWeek := List.range 7
  dayOfMonthRestricted := false
  dayOfWeekRestricted := false

theorem runs_given :
    nextCronRunAt (zonesOf (changesOnce 28800001 0 (-60))) "30 23 * * *" (28799940 * minuteMs)
      "America/St_Johns" = some (28800030 * minuteMs) ∧
    nextCronRunAt (zonesOf (changesOnce 28798560 1441 1501)) "0 0 * * *" (28798558 * minuteMs)
      "Pacific/Kiritimati" = some (28799939 * minuteMs) ∧
    nextCronRunAt (zonesOf (changesTwice 28800735 780 (-1100) 28801095 780)) "0 0 * * *"
      (28799220 * minuteMs) "Pacific/Apia" = some (28801095 * minuteMs) ∧
    nextCronRunAt (zonesOf (changesOnce 28800001 0 (-60))) "30 23 * * *" (28799999 * minuteMs)
      "America/St_Johns" = some (28801470 * minuteMs) ∧
    nextCronRunAt (zonesOf fun _ => 0) "0 0 * * *" (dayFromYear 99 * dayMs) "UTC" = none := by
  decide +kernel

/-- In a zone with at most one change in any six hours it does not give the least occurrence. -/
def Misses (zones : Zones) (timezone : String) (offset : Int → Int) (expression : String)
    (after : Int) : Prop :=
  IsZone zones timezone offset ∧ Spaced sixHours offset ∧
    ∃ parsed, parseCronExpression expression = some parsed ∧
      ¬ Least (InSearch offset parsed after) (nextCronRunAt zones expression after timezone)

theorem not_least_of_later {S : Int → Prop} {run : Option Int} {x : Int} (hx : S x)
    (hlate : run.all fun best => decide (x < best)) : ¬ Least S run := by
  cases run with
  | none => exact fun hleast => hleast x hx
  | some best => exact fun hleast => absurd (hleast.2 x hx) (not_le.mpr (of_decide_eq_true hlate))

theorem inSearch_of_due (hmatch : Matches parsed m) (hdue : Due offset m t)
    (hlow : after < t * minuteMs) (hhigh : t * minuteMs ≤ searchEnd after) :
    InSearch offset parsed after (t * minuteMs) :=
  ⟨t, rfl, ⟨m, hmatch, hdue⟩, hlow, hhigh⟩

theorem misses_far : Misses (zonesOf (changesOnce 28798560 1441 1501)) "Pacific/Kiritimati"
    (changesOnce 28798560 1441 1501) "0 0 * * *" (28798558 * minuteMs) := by
  refine ⟨isZone_zonesOf rfl, spaced_changesOnce _ _ _ _, daily 0 0, rfl, ?_⟩
  refine not_least_of_later (inSearch_of_due (m := 28800000) (t := 28798559) (by decide)
    (.inl ⟨by decide, fun u hlt => ?_⟩) (by decide) (by decide)) (by rw [runs_given.2.1]; decide)
  simp only [clock, changesOnce]
  split_ifs
  all_goals omega

theorem misses_unpaced : Misses (zonesOf (changesTwice 28800735 780 (-1100) 28801095 780))
    "Pacific/Apia" (changesTwice 28800735 780 (-1100) 28801095 780) "0 0 * * *"
    (28799220 * minuteMs) := by
  refine ⟨isZone_zonesOf rfl, spaced_changesTwice (by decide), daily 0 0, rfl, ?_⟩
  refine not_least_of_later (inSearch_of_due (m := 28801440) (t := 28800660) (by decide)
    (.inl ⟨by decide, fun u hlt => ?_⟩) (by decide) (by decide)) (by rw [runs_given.2.2.1]; decide)
  simp only [clock, changesTwice, changesOnce]
  split_ifs
  all_goals omega

theorem misses_start : Misses (zonesOf (changesOnce 28800001 0 (-60))) "America/St_Johns"
    (changesOnce 28800001 0 (-60)) "30 23 * * *" (28799999 * minuteMs) := by
  refine ⟨isZone_zonesOf rfl, spaced_changesOnce _ _ _ _, daily 23 30, rfl, ?_⟩
  refine not_least_of_later (inSearch_of_due (m := 28799970) (t := 28800030) (by decide)
    (.inl ⟨by decide, fun u hlt => ?_⟩) (by decide) (by decide)) (by rw [runs_given.2.2.2.1]; decide)
  simp only [clock, changesOnce]
  split_ifs
  all_goals omega

/-- Once in a leap year. -/
def leapDay (hour minute : Nat) : ParsedCron where
  minute := [minute]
  hour := [hour]
  dayOfMonth := [29]
  month := [2]
  dayOfWeek := List.range 7
  dayOfMonthRestricted := true
  dayOfWeekRestricted := false

theorem leapDay_date {date : Int} (hfrom : dayFromYear 1899 ≤ date) (hto : date < dayFromYear 1905)
    (hmonth : (utcWall (date * dayMs)).month = 2) (hday : (utcWall (date * dayMs)).day = 29) :
    date = dayFromYear 1904 + 59 := by
  obtain ⟨hof, hlow, hhigh⟩ := fieldsOf_utcWall (date * dayMs)
  rw [Int.mul_ediv_cancel _ (by decide)] at hof hlow hhigh
  rw [hmonth, hday] at hof
  generalize (utcWall (date * dayMs)).year = year at hof hlow hhigh
  have hstart : monthStart (inLeapYear year) (2 - 1) = 31 := by cases inLeapYear year <;> rfl
  have hdate : date = dayFromYear year + 59 := by
    rw [hstart] at hof
    omega
  have hyear : 1899 ≤ year ∧ year ≤ 1904 := by
    simp only [dayFromYear] at hfrom hto hlow hhigh
    omega
  -- in each other year the day after the 28th is in March
  have hcommon : ∀ i : Fin 5,
      (utcWall ((dayFromYear (1899 + (i : Nat)) + 59) * dayMs)).month ≠ 2 := by decide +kernel
  rcases Int.lt_or_eq_of_le hyear.2 with hlt | rfl
  · have hindex : year = 1899 + ((year - 1899).toNat : Nat) := by omega
    refine absurd hmonth ?_
    rw [hdate, hindex]
    exact hcommon ⟨(year - 1899).toNat, by omega⟩
  · exact hdate

theorem searchDay_leapDay {hour minute : Nat} {low high dayTime : Int}
    (h : (searchDay (leapDay hour minute) zone low high dayTime).isSome = true) :
    (utcWall dayTime).month = 2 ∧ (utcWall dayTime).day = 29 := by
  by_cases hmatches : (leapDay hour minute).month.contains (utcWall dayTime).month = false ∨
      matchesDay (leapDay hour minute) (utcWall dayTime) = false
  · have hnone : searchDay (leapDay hour minute) zone low high dayTime = none := by
      cases zone <;> exact if_pos hmatches
    rw [hnone] at h
    cases h
  · rw [not_or, Bool.not_eq_false, Bool.not_eq_false] at hmatches
    obtain ⟨hmonth, hday⟩ := hmatches
    rw [matchesDay] at hday
    simp only [leapDay, List.contains_cons, List.contains_nil, Bool.or_false, beq_iff_eq,
      Bool.and_false, Bool.false_eq_true, if_false, Bool.and_eq_true] at hmonth hday
    exact ⟨hmonth, hday.1⟩

/-- A search that ends before the clock is set back: the minute is not shown last yet. -/
theorem misses_end : Misses (zonesOf (changesOnce (-34627690) 0 (-60))) "Europe/London"
    (changesOnce (-34627690) 0 (-60)) "30 23 29 2 *" (-37262905 * minuteMs) := by
  have hrun : nextCronRunAt (zonesOf (changesOnce (-34627690) 0 (-60))) "30 23 29 2 *"
      (-37262905 * minuteMs) "Europe/London" = some (-34627710 * minuteMs) := by
    have hfirst : firstMinute (-37262905 * minuteMs) = -37262904 := by decide
    have hlast : lastMinute (-37262905 * minuteMs) = -34627705 := by decide
    have hwalk : nextCronRunAt (zonesOf (changesOnce (-34627690) 0 (-60))) "30 23 29 2 *"
        (-37262905 * minuteMs) "Europe/London" =
        searchDays (leapDay 23 30) (some (showing (changesOnce (-34627690) 0 (-60))))
          (-37262904 * minuteMs) (-34627705 * minuteMs) 1831 (-25878 * dayMs) := by
      have hparsed : parseCronExpression "30 23 29 2 *" = some (leapDay 23 30) := rfl
      have hformatter : formatter (zonesOf (changesOnce (-34627690) 0 (-60))) "Europe/London" =
          some (some (showing (changesOnce (-34627690) 0 (-60)))) := rfl
      have hshows : ∀ t, (some (showing (changesOnce (-34627690) 0 (-60)))).getD utcWall
          (t * minuteMs) = utcWall (clock (changesOnce (-34627690) 0 (-60)) t * minuteMs) :=
        showing_minute _
      rw [nextCronRunAt_eq hparsed hformatter hshows (by decide) (by decide), hfirst, hlast]
      rfl
    have hleap : searchDay (leapDay 23 30) (some (showing (changesOnce (-34627690) 0 (-60))))
        (-37262904 * minuteMs) (-34627705 * minuteMs) ((-25878 + (1830 : Nat)) * dayMs) =
        some (-34627710 * minuteMs) := by decide +kernel
    rw [hwalk]
    rcases searchDays_cases 1831 (-25878) with ⟨i, hi, heq, hsome, -⟩ | ⟨-, hnone⟩
    · obtain ⟨hmonth, hday⟩ := searchDay_leapDay hsome
      have hdate := leapDay_date (by simp only [dayFromYear]; omega)
        (by simp only [dayFromYear]; omega) hmonth hday
      have hindex : i = 1830 := by
        simp only [dayFromYear] at hdate
        omega
      rw [heq, hindex, hleap]
    · have hmissed := hnone 1830 (by decide)
      rw [hleap] at hmissed
      cases hmissed
  refine ⟨isZone_zonesOf rfl, spaced_changesOnce _ _ _ _, leapDay 23 30, rfl, ?_⟩
  rw [hrun]
  rintro ⟨⟨t, ht, ⟨m, -, hdue⟩, -⟩, -⟩
  have hfirst : t = -34627710 := (Int.eq_of_mul_eq_mul_right (by decide) ht).symm
  subst hfirst
  rcases hdue with ⟨hshown, hlast⟩ | hskip
  · exact hlast (-34627650) (by decide) (hshown ▸ by decide)
  · exact changesOnce_changes hskip.changes |> absurd <| by decide

theorem misses_year : Misses (zonesOf fun _ => 0) "UTC" (fun _ => 0) "0 0 * * *"
    (dayFromYear 99 * dayMs) := by
  refine ⟨.inl ⟨rfl, rfl⟩, fun _ _ ht => absurd rfl ht, daily 0 0, rfl, ?_⟩
  refine not_least_of_later (inSearch_of_due (m := (dayFromYear 99 + 1) * 1440)
    (t := (dayFromYear 99 + 1) * 1440) (by decide)
    (.inl ⟨Int.add_zero _, fun u hlt => ?_⟩) (by decide) (by decide)) (by rw [runs_given.2.2.2.2]; decide)
  simp only [clock]
  omega

end Stynx.Cron
