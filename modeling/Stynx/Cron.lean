import Stynx.IsoInstants
import Stynx.RegExp

/-!
# Cron expressions

`packages/jobs/src/cron.ts`: expressions of five fields and the next instant at which one
is due, in UTC or in a zone whose wall clock the platform shows. Instants are
milliseconds since 1970.
-/

namespace Stynx.Cron

open IsoInstants

structure FieldRange where
  min : Nat
  max : Nat

/-- `/^\d+$/u` and `Number.parseInt`. -/
def digits? (text : List Char) : Option Nat :=
  if text ≠ [] ∧ text.all Char.isDigit then some (read text) else none

/-- Where a part of a field starts and ends, by `/^(\d+)(?:-(\d+))?$/u` or the star. -/
def bounds? (range : FieldRange) (base : List Char) (hasStep : Bool) : Option (Nat × Nat) :=
  if base = ['*'] then some (range.min, range.max)
  else
    match base.splitOn '-' with
    | [start] => (digits? start).map fun start => (start, if hasStep then range.max else start)
    | [start, last] =>
      match digits? start, digits? last with
      | some start, some last => some (start, last)
      | _, _ => none
    | _ => none

def parsePart (range : FieldRange) (part : List Char) : Option (List Nat) :=
  let parsed := match part.splitOn '/' with
    | [base] => some (base, 1, false)
    | [base, step] => (digits? step).bind fun step => if step = 0 then none else some (base, step, true)
    | _ => none
  parsed.bind fun (base, step, hasStep) =>
    (bounds? range base hasStep).bind fun (start, last) =>
      if start < range.min ∨ last > range.max ∨ start > last then none
      else some ((List.range ((last - start) / step + 1)).map fun i => start + i * step)

/-- `parseField`, as the values in the order in which they are added. -/
def parseField (range : FieldRange) (raw : List Char) : Option (List Nat) :=
  ((raw.splitOn ',').mapM (parsePart range)).map fun values => values.flatten.eraseDups

structure ParsedCron where
  minute : List Nat
  hour : List Nat
  dayOfMonth : List Nat
  month : List Nat
  dayOfWeek : List Nat
  dayOfMonthRestricted : Bool
  dayOfWeekRestricted : Bool

/-- `text.split(/\s+/u)`. -/
def fields (text : List Char) : List (List Char) :=
  text.splitOnP RegExp.isSpace |>.filter (· ≠ [])

/-- `parseCronExpression`; `none` is `InvalidCronExpressionError`. -/
def parseCronExpression (expression : String) : Option ParsedCron :=
  match fields (RegExp.trim expression.toList) with
  | [minuteRaw, hourRaw, domRaw, monthRaw, dowRaw] =>
    match parseField ⟨0, 59⟩ minuteRaw, parseField ⟨0, 23⟩ hourRaw, parseField ⟨1, 31⟩ domRaw,
      parseField ⟨1, 12⟩ monthRaw, parseField ⟨0, 6⟩ dowRaw with
    | some minute, some hour, some dayOfMonth, some month, some dayOfWeek => some {
        minute := minute
        hour := hour
        dayOfMonth := dayOfMonth
        month := month
        dayOfWeek := dayOfWeek
        dayOfMonthRestricted := decide (domRaw ≠ ['*'])
        dayOfWeekRestricted := decide (dowRaw ≠ ['*']) }
    | _, _, _, _, _ => none
  | _ => none

def minuteMs : Int := 60000

def dayMs : Int := 24 * 60 * minuteMs

def maxSearchMinutes : Int := 60 * 24 * 366 * 5

structure WallMinute where
  year : Int
  month : Nat
  day : Nat
  hour : Nat
  minute : Nat

/-- The year that `Date.UTC` takes: one of two digits lies in the twentieth century. -/
def fullYear (year : Int) : Int := if 0 ≤ year ∧ year ≤ 99 then 1900 + year else year

/-- `wallTime`: `Date.UTC` of the fields. -/
def wallTime (wall : WallMinute) : Int :=
  let year := fullYear wall.year
  (dayFromYear year + monthStart (inLeapYear year) (wall.month - 1) + (wall.day - 1)) * dayMs +
    wall.hour * (60 * minuteMs) + wall.minute * minuteMs

/-- `utcWall`. The calendar repeats itself after 400 years. -/
def utcWall (time : Int) : WallMinute :=
  let day := time / dayMs
  let within := (day % 146097).toNat
  let year : Int := yearFromDay within + 400 * (day / 146097)
  let ofYear := dayWithinYear within
  let month := monthFromDay (inLeapYear year) ofYear
  { year := year
    month := month + 1
    day := ofYear - monthStart (inLeapYear year) month + 1
    hour := (time / (60 * minuteMs) % 24).toNat
    minute := (time / minuteMs % 60).toNat }

/-- The day of the week, from Sunday: `getUTCDay`. -/
def weekday (wall : WallMinute) : Nat := ((wallTime wall / dayMs + 4) % 7).toNat

def matchesDay (parsed : ParsedCron) (wall : WallMinute) : Bool :=
  let domMatches := parsed.dayOfMonth.contains wall.day
  let dowMatches := parsed.dayOfWeek.contains (weekday wall)
  if parsed.dayOfMonthRestricted && parsed.dayOfWeekRestricted then domMatches || dowMatches
  else domMatches && dowMatches

def matchesWall (parsed : ParsedCron) (wall : WallMinute) : Bool :=
  parsed.minute.contains wall.minute && parsed.hour.contains wall.hour &&
    parsed.month.contains wall.month && matchesDay parsed wall

/-- What `Intl.DateTimeFormat` shows of an instant in a zone, or that it does not know the zone. -/
abbrev Zones := String → Option (Int → WallMinute)

def formatter (zones : Zones) (timezone : String) : Option (Option (Int → WallMinute)) :=
  if timezone = "UTC" then some none
  else if timezone.toList.contains '/' = false ∨
      "Etc/GMT+".toList <+: timezone.toList ∨ "Etc/GMT-".toList <+: timezone.toList then none
  else (zones timezone).map some

/-- A change of the offset. -/
structure Transition where
  «at» : Int
  before : Int
  after : Int

/-- The bisection for a change of the offset, in minutes. -/
def bisect (offsetAt : Int → Int) (previousOffset : Int) : Nat → Int → Int → Int
  | 0, _, high => high
  | fuel + 1, low, high =>
    if high - low > 1 then
      let middle := (low + high) / 2
      if offsetAt (middle * minuteMs) = previousOffset then
        bisect offsetAt previousOffset fuel middle high
      else bisect offsetAt previousOffset fuel low middle
    else high

/-- The probes of a window: the offsets, and where they change. -/
def probe (offsetAt : Int → Int) : Nat → Int → List Int × List Transition →
    List Int × List Transition
  | 0, _, found => found
  | left + 1, previousTime, (offsets, transitions) =>
    let time := previousTime + 6 * 60 * minuteMs
    let previousOffset := offsetAt previousTime
    let currentOffset := offsetAt time
    let transitions :=
      if currentOffset ≠ previousOffset then
        let high := bisect offsetAt previousOffset 360 (previousTime / minuteMs) (time / minuteMs)
        transitions ++ [⟨high * minuteMs, previousOffset, currentOffset⟩]
      else transitions
    probe offsetAt left time (if currentOffset ∈ offsets then offsets else offsets ++ [currentOffset],
      transitions)

/-- The lesser of two instants, when there are any. -/
def earlier (best : Option Int) (time : Int) : Option Int :=
  match best with
  | none => some time
  | some found => if time < found then some time else some found

def laterOf (resolve : Int → WallMinute) (offsets : List Int) (first last wallMs : Int) :
    Option Int :=
  offsets.foldl (fun later offset =>
    let time := wallMs - offset
    if time < first ∨ time > last then later
    else if wallTime (resolve time) = wallMs ∧ (later.all fun found => time > found) then some time
    else later) none

def dayMatch (parsed : ParsedCron) (resolve : Int → WallMinute) (offsets : List Int)
    (first last : Int) (day : WallMinute) : Option Int :=
  (parsed.hour.mergeSort (· ≤ ·)).foldl (fun best hour =>
    (parsed.minute.mergeSort (· ≤ ·)).foldl (fun best minute =>
      match laterOf resolve offsets first last
        (wallTime { day with hour := hour, minute := minute }) with
      | some later => earlier best later
      | none => best) best) none

/-- Whether a forward jump skips a matching minute of a day. -/
def skips (parsed : ParsedCron) (day : WallMinute) (transition : Transition) : Bool :=
  (List.range ((transition.after - transition.before) / minuteMs).toNat).any fun i =>
    let wall := utcWall (transition.«at» + transition.before + i * minuteMs)
    wall.year = day.year && wall.month = day.month && wall.day = day.day && matchesWall parsed wall

def jumps (parsed : ParsedCron) (first last : Int) (day : WallMinute)
    (transitions : List Transition) (best : Option Int) : Option Int :=
  transitions.foldl (fun best transition =>
    if transition.after ≤ transition.before ∨ transition.«at» < first ∨ transition.«at» > last then
      best
    else if skips parsed day transition then earlier best transition.«at»
    else best) best

def searchDay (parsed : ParsedCron) (zone : Option (Int → WallMinute)) (first last dayTime : Int) :
    Option Int :=
  let day := utcWall dayTime
  if parsed.month.contains day.month = false ∨ matchesDay parsed day = false then none
  else
    match zone with
    | none => dayMatch parsed utcWall [0] first last day
    | some resolve =>
      let offsetAt := fun time => wallTime (resolve time) - time
      let windowStart := dayTime - dayMs
      let (offsets, transitions) := probe offsetAt 12 windowStart ([offsetAt windowStart], [])
      jumps parsed first last day transitions (dayMatch parsed resolve offsets first last day)

/-- The walk over the days. -/
def searchDays (parsed : ParsedCron) (zone : Option (Int → WallMinute)) (first last : Int) :
    Nat → Int → Option Int
  | 0, _ => none
  | left + 1, dayTime =>
    match searchDay parsed zone first last dayTime with
    | some best => some best
    | none => searchDays parsed zone first last left (dayTime + dayMs)

def midnight (wall : WallMinute) : Int := wallTime { wall with hour := 0, minute := 0 }

/-- The first instant of a search. -/
def searchStart (after : Int) : Int := after / minuteMs * minuteMs + minuteMs

/-- The last instant of a search. -/
def searchEnd (after : Int) : Int := searchStart after + (maxSearchMinutes - 1) * minuteMs

/-- `nextCronRunAt`, of a search that stays in the range; `none` is `InvalidCronExpressionError`. -/
def nextCronRunAt (zones : Zones) (expression : String) (after : Int) (timezone : String) :
    Option Int :=
  (parseCronExpression expression).bind fun parsed =>
    (formatter zones timezone).bind fun zone =>
      let first := searchStart after
      let last := searchEnd after
      let resolve := zone.getD utcWall
      let firstDay := midnight (resolve first)
      let lastDay := midnight (resolve last)
      searchDays parsed zone first last ((lastDay - firstDay) / dayMs + 1).toNat firstDay

variable {first last : Int}

/-- An instant, if there is one, lies in the window. -/
def Within (first last : Int) (best : Option Int) : Prop :=
  ∀ time, best = some time → first ≤ time ∧ time ≤ last

theorem within_none : Within first last none := fun _ h => by cases h

theorem Within.earlier {best : Option Int} (h : Within first last best) {time : Int}
    (htime : first ≤ time ∧ time ≤ last) : Within first last (earlier best time) := by
  intro found hfound
  unfold Cron.earlier at hfound
  split at hfound
  · cases hfound
    exact htime
  · split at hfound
    · cases hfound
      exact htime
    · exact h found hfound

theorem within_laterOf (resolve : Int → WallMinute) (offsets : List Int) (wallMs : Int) :
    Within first last (laterOf resolve offsets first last wallMs) := by
  refine List.foldlRecOn offsets _ within_none fun later hlater offset _ => ?_
  simp only
  split
  · exact hlater
  case isFalse hin =>
    split
    · intro time htime
      cases htime
      omega
    · exact hlater

theorem within_dayMatch (parsed : ParsedCron) (resolve : Int → WallMinute) (offsets : List Int)
    (day : WallMinute) : Within first last (dayMatch parsed resolve offsets first last day) := by
  refine List.foldlRecOn _ _ within_none fun best hbest hour _ => ?_
  refine List.foldlRecOn _ _ hbest fun best hbest minute _ => ?_
  split
  case h_1 later hlater => exact hbest.earlier (within_laterOf _ _ _ later hlater)
  case h_2 => exact hbest

theorem Within.jumps {best : Option Int} (h : Within first last best) (parsed : ParsedCron)
    (day : WallMinute) (transitions : List Transition) :
    Within first last (jumps parsed first last day transitions best) := by
  refine List.foldlRecOn _ _ h fun best hbest transition _ => ?_
  split
  · exact hbest
  case isFalse hin =>
    split
    · exact hbest.earlier (by omega)
    · exact hbest

theorem within_searchDays (parsed : ParsedCron) (zone : Option (Int → WallMinute)) (left : Nat)
    (dayTime : Int) : Within first last (searchDays parsed zone first last left dayTime) := by
  induction left generalizing dayTime with
  | zero => exact within_none
  | succ left ih =>
    rw [searchDays]
    split
    case h_1 best hbest =>
      intro time htime
      cases htime
      unfold searchDay at hbest
      simp only at hbest
      split at hbest
      · cases hbest
      · split at hbest
        · exact within_dayMatch _ _ _ _ _ hbest
        · exact (within_dayMatch _ _ _ _).jumps _ _ _ _ hbest
    case h_2 => exact ih _

theorem nextCronRunAt_bounds {zones : Zones} {expression timezone : String} {after next : Int}
    (h : nextCronRunAt zones expression after timezone = some next) :
    after < next ∧ next ≤ searchEnd after := by
  obtain ⟨parsed, -, hparsed⟩ := Option.bind_eq_some_iff.mp h
  obtain ⟨zone, -, hzone⟩ := Option.bind_eq_some_iff.mp hparsed
  obtain ⟨hfirst, hlast⟩ := within_searchDays _ _ _ _ _ hzone
  have hminute : after < searchStart after := by
    simp only [searchStart, minuteMs]
    omega
  exact ⟨by omega, hlast⟩

end Stynx.Cron
