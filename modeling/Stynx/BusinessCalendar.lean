import Mathlib.Data.Int.ConditionallyCompleteOrder
import Stynx.CalendarDates

/-!
# Business days of a tenant

`addBusinessDays` of `packages/worklist/src/tenant-business-calendar.ts`. The time zone
is the map from instants to civil days that the formatter computes, and instants and
days are integers.
-/

namespace Stynx.BusinessCalendar

open CalendarDates IsoInstants

def dayMs : Int := 86400000

def maxCivilDates : Nat := 1098

structure WorklistInputError where
  message : String
  reason : Option String := none
  deriving DecidableEq

def calendarExhausted : WorklistInputError :=
  ⟨"Business calendar exhausted", some "calendar_exhausted"⟩

def noSuchDate : WorklistInputError := ⟨"Due date does not exist in the tenant timezone", none⟩

/-- The day of a date; the month, counted from one, may lie outside the year. -/
def civilDay (year month day : Nat) : Int :=
  let months : Int := 12 * year + month - 1
  dayFromYear (months / 12) + monthStart (inLeapYear (months / 12)) (months % 12).toNat + day - 1

def validHoliday (value : String) : Bool :=
  match value.toList with
  | [y, y', y'', y''', '-', m, m', '-', d, d'] =>
    [y, y', y'', y''', m, m', d, d'].all Char.isDigit &&
      dateOf (civilDay (read [y, y', y'', y''']) (read [m, m']) (read [d, d'])) =
        ⟨read [y, y', y'', y'''], read [m, m'], read [d, d']⟩
  | _ => false

def padStart (width : Nat) (value : String) : List Char :=
  List.replicate (width - value.length) '0' ++ value.toList

def civilKey (ordinal : Int) : String :=
  let date := dateOf ordinal
  String.ofList (padStart 4 (toString date.year) ++ '-' :: padStart 2 (toString date.month) ++
    '-' :: padStart 2 (toString date.day))

/-- Neither a Saturday, a Sunday nor a holiday. -/
def isBusinessDay (holidays : List String) (ordinal : Int) : Bool :=
  (ordinal + 4) % 7 ≠ 0 && (ordinal + 4) % 7 ≠ 6 && !holidays.contains (civilKey ordinal)

/-- `holidaysForYear`; the source answers `none` with something that is not a set. -/
def holidaysForYear (source : Int → Option (List String)) (year : Int) :
    Except WorklistInputError (List String) :=
  match source year with
  | none => .error ⟨"Tenant holidays must be a set of civil dates", none⟩
  | some supplied =>
    if supplied.all validHoliday then .ok supplied
    else .error ⟨"Tenant holiday must be a valid YYYY-MM-DD date", none⟩

/-- The loop of `startOfLocalDate`. -/
def searchDate (localOrdinal : Int → Int) (ordinal lower upper : Int) : Int :=
  if lower < upper then
    let middle := lower + (upper - lower) / 2
    if localOrdinal middle < ordinal then searchDate localOrdinal ordinal (middle + 1) upper
    else searchDate localOrdinal ordinal lower middle
  else lower
termination_by (upper - lower).toNat
decreasing_by all_goals omega

def startOfLocalDate (localOrdinal : Int → Int) (ordinal : Int) : Except WorklistInputError Int :=
  let lower := searchDate localOrdinal ordinal (ordinal * dayMs - 2 * dayMs)
    (ordinal * dayMs + 2 * dayMs)
  if localOrdinal lower ≠ ordinal then .error noSuchDate else .ok lower

/-- The loop of `addBusinessDays`, with as many dates left to examine. -/
def examineDates (localOrdinal : Int → Int) (source : Int → Option (List String)) :
    Nat → Int → Nat → Except WorklistInputError Int
  | 0, _, _ => .error calendarExhausted
  | left + 1, ordinal, remaining => do
    let holidays ← holidaysForYear source (dateOf (ordinal + 1)).year
    if isBusinessDay holidays (ordinal + 1) then
      if remaining - 1 = 0 then startOfLocalDate localOrdinal (ordinal + 1 + 1)
      else examineDates localOrdinal source left (ordinal + 1) (remaining - 1)
    else examineDates localOrdinal source left (ordinal + 1) remaining

/-- `none` stands for a time zone that is refused. -/
def addBusinessDays (timezone : Option (Int → Int)) (source : Int → Option (List String))
    (startAt businessDays : Int) : Except WorklistInputError Int :=
  if businessDays < 0 ∨ businessDays > 366 then
    .error ⟨"businessDays must be an integer from 0 through 366", none⟩
  else match timezone with
    | none => .error ⟨"Tenant timezone must be a valid IANA timezone", none⟩
    | some localOrdinal =>
      if businessDays = 0 then .ok startAt
      else examineDates localOrdinal source maxCivilDates (localOrdinal startAt) businessDays.toNat

variable {zone : Int → Int}

theorem searchDate_isLeast {ordinal lower upper : Int} (hmono : Monotone zone)
    (hbefore : ∀ t < lower, zone t < ordinal) (hle : lower ≤ upper) (hafter : ordinal ≤ zone upper) :
    IsLeast {t | ordinal ≤ zone t} (searchDate zone ordinal lower upper) := by
  induction lower, upper using searchDate.induct zone ordinal with
  | case1 lower upper hlt middle hmiddle ih =>
    rw [searchDate, if_pos hlt, if_pos hmiddle]
    refine ih ?_ (by omega) hafter
    intro t ht
    exact lt_of_le_of_lt (hmono (by omega : t ≤ middle)) hmiddle
  | case2 lower upper hlt middle hmiddle ih =>
    rw [searchDate, if_pos hlt, if_neg hmiddle]
    exact ih hbefore (by omega) (not_lt.mp hmiddle)
  | case3 lower upper hnot =>
    rw [searchDate, if_neg hnot]
    obtain rfl : lower = upper := by omega
    refine ⟨hafter, ?_⟩
    intro t ht
    by_contra hlt
    exact absurd (hbefore t (not_le.mp hlt)) (not_lt.mpr ht)

/-- The local date is at most one day away from the date in UTC. -/
def NearUtc (zone : Int → Int) : Prop := ∀ t, t / dayMs - 1 ≤ zone t ∧ zone t ≤ t / dayMs + 1

theorem startOfLocalDate_spec (hmono : Monotone zone) (hnear : NearUtc zone) (ordinal : Int) :
    (startOfLocalDate zone ordinal = .error noSuchDate ∧ ∀ t, zone t ≠ ordinal) ∨
      ∃ due, startOfLocalDate zone ordinal = .ok due ∧ IsLeast {t | zone t = ordinal} due := by
  have hleast : IsLeast {t | ordinal ≤ zone t} (searchDate zone ordinal
      (ordinal * dayMs - 2 * dayMs) (ordinal * dayMs + 2 * dayMs)) := by
    refine searchDate_isLeast hmono ?_ (by simp only [dayMs]; omega) ?_
    · intro t ht
      have hzone := (hnear t).2
      simp only [dayMs] at ht hzone
      omega
    · have hzone := (hnear (ordinal * dayMs + 2 * dayMs)).1
      simp only [dayMs] at hzone ⊢
      omega
  rw [startOfLocalDate]
  generalize searchDate zone ordinal (ordinal * dayMs - 2 * dayMs) (ordinal * dayMs + 2 * dayMs) =
    lower at hleast ⊢
  split_ifs with hdate
  · refine .inl ⟨rfl, ?_⟩
    rintro t rfl
    exact hdate (le_antisymm (hmono (hleast.2 (le_refl (zone t)))) hleast.1)
  · refine .inr ⟨lower, rfl, not_not.mp hdate, ?_⟩
    intro t ht
    exact hleast.2 (le_of_eq (Eq.symm ht))

variable {source : Int → Option (List String)} {holidays : Int → List String}

def Supplies (source : Int → Option (List String)) (holidays : Int → List String) : Prop :=
  ∀ year, source year = some (holidays year) ∧ (holidays year).all validHoliday = true

def BusinessDay (holidays : Int → List String) (ordinal : Int) : Prop :=
  isBusinessDay (holidays (dateOf ordinal).year) ordinal = true

instance (ordinal : Int) : Decidable (BusinessDay holidays ordinal) :=
  inferInstanceAs (Decidable (_ = true))

/-- How many of the next dates are business days. -/
def businessDaysAmong (holidays : Int → List String) (today : Int) (count : Nat) : Nat :=
  (List.range count).countP fun i : Nat => BusinessDay holidays (today + 1 + i)

theorem businessDaysAmong_succ (today : Int) (count : Nat) :
    businessDaysAmong holidays today (count + 1) =
      businessDaysAmong holidays (today + 1) count +
        if BusinessDay holidays (today + 1) then 1 else 0 := by
  have hshift : (fun i : Nat => decide (BusinessDay holidays (today + 1 + i))) ∘ Nat.succ =
      fun i : Nat => decide (BusinessDay holidays (today + 1 + 1 + i)) := by
    funext i
    rw [Function.comp_apply, Nat.cast_succ, add_assoc (today + 1), add_comm (i : Int), ← add_assoc]
  rw [businessDaysAmong, businessDaysAmong, List.range_succ_eq_map, List.countP_cons,
    List.countP_map, hshift]
  simp

theorem businessDaysAmong_mono (holidays : Int → List String) (today : Int) {count count' : Nat}
    (h : count ≤ count') :
    businessDaysAmong holidays today count ≤ businessDaysAmong holidays today count' :=
  (List.range_sublist.mpr h).countP_le

def NthAfter (holidays : Int → List String) (today : Int) (n : Nat) (ordinal : Int) : Prop :=
  ∃ k : Nat, ordinal = today + 1 + k ∧ BusinessDay holidays ordinal ∧
    businessDaysAmong holidays today k + 1 = n

theorem examineDates_spec (zone : Int → Int) (hsource : Supplies source holidays) (left : Nat)
    (today : Int) {n : Nat} (hn : 0 < n) :
    (businessDaysAmong holidays today left < n ∧
        examineDates zone source left today n = .error calendarExhausted) ∨
      n ≤ businessDaysAmong holidays today left ∧ ∃ ordinal, NthAfter holidays today n ordinal ∧
        examineDates zone source left today n = startOfLocalDate zone (ordinal + 1) := by
  induction left generalizing today n with
  | zero => exact .inl ⟨hn, rfl⟩
  | succ left ih =>
    obtain ⟨hset, hvalid⟩ := hsource (dateOf (today + 1)).year
    have hyear : holidaysForYear source (dateOf (today + 1)).year =
        .ok (holidays (dateOf (today + 1)).year) := by
      rw [holidaysForYear, hset]
      exact if_pos hvalid
    have hstep : examineDates zone source (left + 1) today n =
        if BusinessDay holidays (today + 1) then
          if n - 1 = 0 then startOfLocalDate zone (today + 1 + 1)
          else examineDates zone source left (today + 1) (n - 1)
        else examineDates zone source left (today + 1) n := by
      rw [examineDates, hyear]
      rfl
    -- A number counted from tomorrow counts from today, with tomorrow.
    have hnext : ∀ m ordinal, NthAfter holidays (today + 1) m ordinal → NthAfter holidays today
        (m + if BusinessDay holidays (today + 1) then 1 else 0) ordinal := by
      rintro m ordinal ⟨k, rfl, hbusiness, hcount⟩
      refine ⟨k + 1, by push_cast; omega, hbusiness, ?_⟩
      rw [businessDaysAmong_succ]
      omega
    rw [hstep, businessDaysAmong_succ]
    by_cases hbusiness : BusinessDay holidays (today + 1)
    · rw [if_pos hbusiness, if_pos hbusiness]
      split_ifs with hone
      · refine .inr ⟨by omega, today + 1, ⟨0, by simp, hbusiness, ?_⟩, rfl⟩
        rw [businessDaysAmong, List.range_zero, List.countP_nil]
        omega
      · rcases ih (today + 1) (n := n - 1) (by omega) with ⟨hless, heq⟩ | ⟨hmany, ordinal, hnth, heq⟩
        · exact .inl ⟨by omega, heq⟩
        · have hafter := hnext _ _ hnth
          rw [if_pos hbusiness, Nat.sub_add_cancel hn] at hafter
          exact .inr ⟨by omega, ordinal, hafter, heq⟩
    · rw [if_neg hbusiness, if_neg hbusiness]
      rcases ih (today + 1) hn with ⟨hless, heq⟩ | ⟨hmany, ordinal, hnth, heq⟩
      · exact .inl ⟨by omega, heq⟩
      · have hafter := hnext _ _ hnth
        rw [if_neg hbusiness] at hafter
        exact .inr ⟨by omega, ordinal, hafter, heq⟩

theorem NthAfter.lt {today : Int} {n m : Nat} {ordinal ordinal' : Int}
    (h : NthAfter holidays today n ordinal) (h' : NthAfter holidays today m ordinal') (hlt : n < m) :
    ordinal < ordinal' := by
  obtain ⟨k, rfl, -, hcount⟩ := h
  obtain ⟨k', rfl, -, hcount'⟩ := h'
  by_contra hnot
  have := businessDaysAmong_mono holidays today (by omega : k' ≤ k)
  omega

theorem addBusinessDays_cases (hmono : Monotone zone) (hnear : NearUtc zone)
    (hsource : Supplies source holidays) (startAt : Int) {n : Nat} (hn : 1 ≤ n) (hmax : n ≤ 366) :
    (businessDaysAmong holidays (zone startAt) maxCivilDates < n ∧
        addBusinessDays (some zone) source startAt n = .error calendarExhausted) ∨
      n ≤ businessDaysAmong holidays (zone startAt) maxCivilDates ∧
        ∃ ordinal, NthAfter holidays (zone startAt) n ordinal ∧
          (addBusinessDays (some zone) source startAt n = .error noSuchDate ∧
              (∀ t, zone t ≠ ordinal + 1) ∨
            ∃ due, addBusinessDays (some zone) source startAt n = .ok due ∧
              IsLeast {t | zone t = ordinal + 1} due) := by
  have hloop : addBusinessDays (some zone) source startAt n =
      examineDates zone source maxCivilDates (zone startAt) n := by
    rw [addBusinessDays, if_neg (by omega), Int.toNat_natCast]
    exact if_neg (by omega)
  rw [hloop]
  refine (examineDates_spec zone hsource maxCivilDates (zone startAt) hn).imp_right ?_
  rintro ⟨hmany, ordinal, hnth, heq⟩
  rw [heq]
  exact ⟨hmany, ordinal, hnth, startOfLocalDate_spec hmono hnear (ordinal + 1)⟩

end Stynx.BusinessCalendar
