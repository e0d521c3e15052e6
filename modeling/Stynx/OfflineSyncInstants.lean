import Mathlib.Data.List.Induction
import Stynx.CalendarDates
import Stynx.TextOrder

/-!
# Instants with microseconds

`instantMicroseconds` of the offline sync package, and the text that
`reconciliationSortInstant` makes of an instant for the keys of the
reconciliation listing.
-/

namespace Stynx.OfflineSyncInstants

open IsoInstants CalendarDates

/-- What the pattern captures, with the numbers of the digits. -/
structure Fields where
  year : Nat
  month : Nat
  day : Nat
  hour : Nat
  minute : Nat
  second : Nat
  /-- The digits after the point; none without a point. -/
  fraction : List Char
  /-- Whether the offset is west of UTC, and its hours and minutes; `none` for `Z`. -/
  zone : Option (Bool × Nat × Nat)

/-- The part of the pattern before the fraction. -/
def dateTimeTemplate : List Char := "dddd-dd-ddTdd:dd:dd".toList

def fractionOf : List Char → List Char × List Char
  | '.' :: more =>
    let digits := more.takeWhile Char.isDigit
    if 1 ≤ digits.length ∧ digits.length ≤ 6 then (digits, more.dropWhile Char.isDigit)
    else ([], '.' :: more)
  | rest => ([], rest)

def zoneOf : List Char → Option (Option (Bool × Nat × Nat))
  | ['Z'] => some none
  | [sign, a, b, ':', c, d] =>
    if (sign = '+' ∨ sign = '-') ∧ [a, b, c, d].all Char.isDigit then
      some (some (sign == '-', read [a, b], read [c, d]))
    else none
  | _ => none

def exec (value : List Char) : Option Fields :=
  if fits dateTimeTemplate (value.take 19) then
    let (fraction, rest) := fractionOf (value.drop 19)
    (zoneOf rest).map fun zone =>
      { year := column value 0 4, month := column value 5 2, day := column value 8 2,
        hour := column value 11 2, minute := column value 14 2, second := column value 17 2,
        fraction := fraction, zone := zone }
  else none

/-- `zoneHours`; zero without an offset. -/
def Fields.zoneHours (f : Fields) : Nat := (f.zone.map fun z => z.2.1).getD 0

/-- `zoneMinutes`; zero without an offset. -/
def Fields.zoneMinutes (f : Fields) : Nat := (f.zone.map fun z => z.2.2).getD 0

def Fields.zoneSign (f : Fields) : Int := if (f.zone.map fun z => z.1) = some true then -1 else 1

/-- The time value of `calendar`, after `setUTCFullYear` and `setUTCHours`. -/
def calendarTime (f : Fields) : Int :=
  makeDay f.year f.month f.day * msPerDay +
    (f.hour * 3600000 + f.minute * 60000 + f.second * 1000 : Nat)

def padEnd6 (digits : List Char) : List Char := digits ++ List.replicate (6 - digits.length) '0'

def instantMicroseconds (value : List Char) : Option Int :=
  match exec value with
  | none => none
  | some f =>
    if f.year < 1 ∨ f.month < 1 ∨ f.month > 12 ∨ f.day < 1 ∨ f.day > 31 ∨ f.hour > 23 ∨
        f.minute > 59 ∨ f.second > 59 ∨ f.zoneHours > 15 ∨ f.zoneMinutes > 59 then
      none
    else if dateOf (calendarTime f / msPerDay) ≠ ⟨f.year, f.month, f.day⟩ then none
    else
      let offset : Int := (f.zoneHours * 60 + f.zoneMinutes : Nat) * 60000 * f.zoneSign
      some ((calendarTime f - offset) * 1000 + (read (padEnd6 f.fraction) : Nat))

def replaceZ (value text : List Char) : List Char :=
  match value.dropWhile (· ≠ 'Z') with
  | [] => value
  | _ :: rest => value.takeWhile (· ≠ 'Z') ++ text ++ rest

/-- The sort text of a number of microseconds; `%` and `/` of `bigint` round to zero. -/
def sortText (micros : Int) : List Char :=
  let remainder := (micros.tmod 1000 + 1000).tmod 1000
  replaceZ (isoOf ((micros - remainder).tdiv 1000)) (pad 3 remainder.toNat ++ ['Z'])

def reconciliationSortInstant (value : List Char) : Option (List Char) :=
  (instantMicroseconds value).map sortText

def zoneText : Option (Bool × Nat × Nat) → List Char
  | none => ['Z']
  | some (west, hours, minutes) =>
    (if west then '-' else '+') :: (pad 2 hours ++ ':' :: pad 2 minutes)

def fractionText (digits : List Char) : List Char := if digits = [] then [] else '.' :: digits

def Fields.dateTimeText (f : Fields) : List Char :=
  pad 4 f.year ++ '-' :: (pad 2 f.month ++ '-' :: (pad 2 f.day ++ 'T' :: (pad 2 f.hour ++
    ':' :: (pad 2 f.minute ++ ':' :: pad 2 f.second))))

def Fields.text (f : Fields) : List Char :=
  f.dateTimeText ++ (fractionText f.fraction ++ zoneText f.zone)

/-- The fields have the widths of the grammar. -/
structure Fields.Wide (f : Fields) : Prop where
  /-- Four digits of the year. -/
  year : f.year < 10000
  /-- Two digits each. -/
  pairs : f.month < 100 ∧ f.day < 100 ∧ f.hour < 100 ∧ f.minute < 100 ∧ f.second < 100
  /-- At most six digits after the point. -/
  fraction : (∀ c ∈ f.fraction, c.isDigit = true) ∧ f.fraction.length ≤ 6
  /-- Two digits for the hours and the minutes of an offset. -/
  zone : f.zoneHours < 100 ∧ f.zoneMinutes < 100

/-- The fields are those of a real calendar date and time with offset. -/
structure Fields.Real (f : Fields) : Prop where
  date : (Date.mk f.year f.month f.day).Real
  time : f.hour < 24 ∧ f.minute < 60 ∧ f.second < 60
  /-- The offset is less than a day. -/
  zone : f.zoneHours < 24 ∧ f.zoneMinutes < 60

/-- Microseconds since 1970, in the proleptic Gregorian calendar. -/
def Fields.micros (f : Fields) : Int :=
  (countDays f.year f.month f.day * 86400 + (f.hour * 3600 + f.minute * 60 + f.second : Nat) -
      f.zoneSign * (f.zoneHours * 3600 + f.zoneMinutes * 60 : Nat)) * 1000000 +
    (read f.fraction * 10 ^ (6 - f.fraction.length) : Nat)

theorem toNat_digitChar : ∀ n : Fin 10, (Nat.digitChar n).toNat = 48 + n := by decide

variable {c : Char} {digits shape text : List Char} {width : Nat} {f : Fields} {a b : Int}

theorem isDigit_range (h : c.isDigit = true) : 48 ≤ c.toNat ∧ c.toNat ≤ 57 := by
  simp only [Char.isDigit, Bool.and_eq_true, decide_eq_true_eq, UInt32.le_iff_toNat_le,
    ge_iff_le] at h
  exact h

theorem digitChar_of_isDigit (h : c.isDigit = true) : Nat.digitChar (c.toNat - 48) = c := by
  obtain ⟨hlow, hhigh⟩ := isDigit_range h
  have hvalue : (Nat.digitChar (c.toNat - 48)).toNat = 48 + (c.toNat - 48) :=
    toNat_digitChar ⟨c.toNat - 48, by omega⟩
  exact Char.toNat_inj.mp (by omega)

theorem pad_read (h : ∀ c ∈ digits, c.isDigit = true) :
    pad digits.length (read digits) = digits ∧ read digits < 10 ^ digits.length := by
  induction digits using List.reverseRecOn with
  | nil =>
    exact ⟨rfl, Nat.one_pos⟩
  | append_singleton init c ih =>
    obtain ⟨hinit, hbound⟩ := ih fun d hd => h d (List.mem_append_left _ hd)
    have hc : c.isDigit = true := h c (by simp)
    obtain ⟨hlow, hhigh⟩ := isDigit_range hc
    have hread : read (init ++ [c]) = 10 * read init + (c.toNat - 48) := by
      rw [IsoInstants.read, Nat.ofDigitChars_append, Nat.ofDigitChars_cons, Nat.ofDigitChars_nil]
      rfl
    have hdiv : (10 * read init + (c.toNat - 48)) / 10 = read init := by omega
    have hmod : (10 * read init + (c.toNat - 48)) % 10 = c.toNat - 48 := by omega
    rw [hread, List.length_append, List.length_singleton, pad, hdiv, hmod, hinit,
      digitChar_of_isDigit hc, Nat.pow_succ]
    exact ⟨rfl, by omega⟩

theorem digits_of_fits (h : fits (List.replicate width 'd' ++ shape) text = true) :
    ∃ digits rest, (∀ c ∈ digits, c.isDigit = true) ∧ digits.length = width ∧
      text = digits ++ rest ∧ fits shape rest = true := by
  induction width generalizing text with
  | zero => exact ⟨[], text, fun c hc => absurd hc List.not_mem_nil, rfl, rfl, h⟩
  | succ width ih =>
    rw [List.replicate_succ, List.cons_append] at h
    cases text with
    | nil => cases h
    | cons c text =>
      rw [fits, Bool.and_eq_true] at h
      obtain ⟨digits, rest, hdigits, hlength, rfl, hrest⟩ := ih h.2
      refine ⟨c :: digits, rest, fun d hd => ?_, by rw [List.length_cons, hlength], rfl, hrest⟩
      rcases List.mem_cons.mp hd with rfl | hd
      · exact h.1
      · exact hdigits d hd

theorem pad_of_fits (h : fits (List.replicate width 'd' ++ shape) text = true) :
    ∃ n rest, n < 10 ^ width ∧ text = pad width n ++ rest ∧ fits shape rest = true := by
  obtain ⟨digits, rest, hdigits, rfl, rfl, hrest⟩ := digits_of_fits h
  obtain ⟨hpad, hbound⟩ := pad_read hdigits
  exact ⟨read digits, rest, hbound, by rw [hpad], hrest⟩

theorem separator_of_fits (hc : c ≠ 'd') (h : fits (c :: shape) text = true) :
    ∃ rest, text = c :: rest ∧ fits shape rest = true := by
  cases text with
  | nil =>
    rw [fits] at h
    · cases h
    all_goals simp
  | cons d text =>
    rw [fits] at h
    · rw [Bool.and_eq_true, beq_iff_eq] at h
      exact ⟨text, by rw [h.1], h.2⟩
    · exact fun heq => hc heq

theorem dateTimeTemplate_eq : dateTimeTemplate = List.replicate 4 'd' ++ '-' ::
    (List.replicate 2 'd' ++ '-' :: (List.replicate 2 'd' ++ 'T' :: (List.replicate 2 'd' ++
      ':' :: (List.replicate 2 'd' ++ ':' :: (List.replicate 2 'd' ++ []))))) := by decide

theorem fits_dateTimeText (f : Fields) : fits dateTimeTemplate f.dateTimeText = true := by
  have htext : f.dateTimeText = pad 4 f.year ++ '-' :: (pad 2 f.month ++ '-' :: (pad 2 f.day ++
      'T' :: (pad 2 f.hour ++ ':' :: (pad 2 f.minute ++ ':' :: (pad 2 f.second ++ []))))) := by
    rw [List.append_nil]
    rfl
  rw [dateTimeTemplate_eq, htext, fits_pad, fits_separator (by decide), fits_pad,
    fits_separator (by decide), fits_pad, fits_separator (by decide), fits_pad,
    fits_separator (by decide), fits_pad, fits_separator (by decide), fits_pad, fits]

theorem dateTime_of_fits (h : fits dateTimeTemplate text = true) :
    ∃ year month day hour minute second, year < 10000 ∧ (month < 100 ∧ day < 100 ∧ hour < 100 ∧
      minute < 100 ∧ second < 100) ∧ ∀ fraction zone, text =
        (Fields.mk year month day hour minute second fraction zone).dateTimeText := by
  rw [dateTimeTemplate_eq] at h
  obtain ⟨year, _, hyear, rfl, h1⟩ := pad_of_fits h
  obtain ⟨_, rfl, h2⟩ := separator_of_fits (by decide) h1
  obtain ⟨month, _, hmonth, rfl, h3⟩ := pad_of_fits h2
  obtain ⟨_, rfl, h4⟩ := separator_of_fits (by decide) h3
  obtain ⟨day, _, hday, rfl, h5⟩ := pad_of_fits h4
  obtain ⟨_, rfl, h6⟩ := separator_of_fits (by decide) h5
  obtain ⟨hour, _, hhour, rfl, h7⟩ := pad_of_fits h6
  obtain ⟨_, rfl, h8⟩ := separator_of_fits (by decide) h7
  obtain ⟨minute, _, hminute, rfl, h9⟩ := pad_of_fits h8
  obtain ⟨_, rfl, h10⟩ := separator_of_fits (by decide) h9
  obtain ⟨second, rest, hsecond, rfl, h11⟩ := pad_of_fits h10
  have hend : rest = [] := by
    cases rest with
    | nil => rfl
    | cons c rest => simp [fits] at h11
  refine ⟨year, month, day, hour, minute, second, hyear,
    ⟨hmonth, hday, hhour, hminute, hsecond⟩, fun fraction zone => ?_⟩
  rw [hend, List.append_nil]
  rfl

theorem length_dateTimeText (f : Fields) : f.dateTimeText.length = 19 := by
  simp only [Fields.dateTimeText, List.length_append, List.length_cons, length_pad]

theorem columns_dateTimeText (h : f.Wide) (rest : List Char) :
    column (f.dateTimeText ++ rest) 0 4 = f.year ∧ column (f.dateTimeText ++ rest) 5 2 = f.month ∧
      column (f.dateTimeText ++ rest) 8 2 = f.day ∧ column (f.dateTimeText ++ rest) 11 2 = f.hour ∧
      column (f.dateTimeText ++ rest) 14 2 = f.minute ∧
      column (f.dateTimeText ++ rest) 17 2 = f.second := by
  obtain ⟨hmonth, hday, hhour, hminute, hsecond⟩ := h.pairs
  exact ⟨read_pad 4 h.year, read_pad 2 hmonth, read_pad 2 hday, read_pad 2 hhour,
    read_pad 2 hminute, read_pad 2 hsecond⟩

variable {rest value s t : List Char} {zone : Option (Bool × Nat × Nat)}

theorem fractionOf_spec (h : fractionOf text = (digits, rest)) :
    text = fractionText digits ++ rest ∧ (∀ c ∈ digits, c.isDigit = true) ∧ digits.length ≤ 6 := by
  have hnone : ∀ {t : List Char}, (([] : List Char), t) = (digits, rest) →
      t = fractionText digits ++ rest ∧ (∀ c ∈ digits, c.isDigit = true) ∧ digits.length ≤ 6 := by
    intro t heq
    obtain ⟨rfl, rfl⟩ := Prod.mk.inj heq
    exact ⟨rfl, fun c hc => absurd hc List.not_mem_nil, Nat.zero_le _⟩
  unfold fractionOf at h
  split at h
  · next more =>
    dsimp only at h
    split_ifs at h with hlength
    · obtain ⟨rfl, rfl⟩ := Prod.mk.inj h
      refine ⟨?_, fun c hc => List.mem_takeWhile_imp hc, hlength.2⟩
      have hne : more.takeWhile Char.isDigit ≠ [] := by
        intro hnil
        rw [hnil] at hlength
        exact absurd hlength.1 (by decide)
      rw [fractionText, if_neg hne, List.cons_append, List.takeWhile_append_dropWhile]
    · exact hnone h
  · exact hnone h

theorem fractionOf_append (hdigits : ∀ c ∈ digits, c.isDigit = true) (hlength : digits.length ≤ 6)
    (hrest : ∀ c more, rest = c :: more → c ≠ '.' ∧ c.isDigit = false) :
    fractionOf (fractionText digits ++ rest) = (digits, rest) := by
  by_cases hnil : digits = []
  · rw [fractionText, if_pos hnil, hnil, List.nil_append]
    cases rest with
    | nil => rfl
    | cons c more =>
      unfold fractionOf
      split
      · next heq => exact absurd (List.cons.inj heq).1 (hrest c more rfl).1
      · rfl
  · have hpos : 1 ≤ digits.length := List.length_pos_iff.mpr hnil
    have htake : (digits ++ rest).takeWhile Char.isDigit = digits := by
      rw [List.takeWhile_append_of_pos hdigits]
      cases rest with
      | nil => rw [List.takeWhile_nil, List.append_nil]
      | cons c more =>
        rw [List.takeWhile_cons_of_neg (by rw [(hrest c more rfl).2]; decide), List.append_nil]
    have hdrop : (digits ++ rest).dropWhile Char.isDigit = rest := by
      rw [List.dropWhile_append_of_pos hdigits]
      cases rest with
      | nil => rfl
      | cons c more => rw [List.dropWhile_cons_of_neg (by rw [(hrest c more rfl).2]; decide)]
    rw [fractionText, if_neg hnil, List.cons_append, fractionOf]
    simp only [htake, hdrop]
    rw [if_pos ⟨hpos, hlength⟩]

theorem pad_two (n : Nat) : pad 2 n = [Nat.digitChar (n / 10 % 10), Nat.digitChar (n % 10)] := rfl

theorem zoneOf_spec (h : zoneOf text = some zone) :
    text = zoneText zone ∧ (zone.map fun z => z.2.1).getD 0 < 100 ∧
      (zone.map fun z => z.2.2).getD 0 < 100 := by
  unfold zoneOf at h
  split at h
  · rw [← Option.some.inj h]
    exact ⟨rfl, by decide, by decide⟩
  · next sign a b c d =>
    split_ifs at h with hguard
    obtain ⟨hsign, hdigits⟩ := hguard
    simp only [List.all_cons, List.all_nil, Bool.and_true, Bool.and_eq_true] at hdigits
    obtain ⟨ha, hb, hc, hd⟩ := hdigits
    obtain ⟨hhours, hhours'⟩ := pad_read (show ∀ x ∈ [a, b], x.isDigit = true by simp [ha, hb])
    obtain ⟨hminutes, hminutes'⟩ := pad_read (show ∀ x ∈ [c, d], x.isDigit = true by simp [hc, hd])
    rw [← Option.some.inj h]
    refine ⟨?_, hhours', hminutes'⟩
    have hpadHours : pad 2 (read [a, b]) = [a, b] := hhours
    have hpadMinutes : pad 2 (read [c, d]) = [c, d] := hminutes
    rw [zoneText, hpadHours, hpadMinutes]
    rcases hsign with rfl | rfl
    · rfl
    · rfl
  · cases h

theorem zoneOf_zoneText (hhours : (zone.map fun z => z.2.1).getD 0 < 100)
    (hminutes : (zone.map fun z => z.2.2).getD 0 < 100) : zoneOf (zoneText zone) = some zone := by
  cases zone with
  | none => rfl
  | some z =>
    obtain ⟨west, hours, minutes⟩ := z
    have hreadHours : read [Nat.digitChar (hours / 10 % 10), Nat.digitChar (hours % 10)] = hours :=
      read_pad 2 hhours
    have hreadMinutes :
        read [Nat.digitChar (minutes / 10 % 10), Nat.digitChar (minutes % 10)] = minutes :=
      read_pad 2 hminutes
    have hall : [Nat.digitChar (hours / 10 % 10), Nat.digitChar (hours % 10),
        Nat.digitChar (minutes / 10 % 10), Nat.digitChar (minutes % 10)].all Char.isDigit = true := by
      simp only [List.all_cons, List.all_nil, isDigit_digitChar_mod, Bool.and_true]
    rw [zoneText, pad_two, pad_two]
    simp only [List.cons_append, List.nil_append]
    cases west with
    | false =>
      rw [if_neg Bool.false_ne_true, zoneOf, if_pos ⟨.inl rfl, hall⟩, hreadHours, hreadMinutes]
      rfl
    | true =>
      rw [if_pos rfl, zoneOf, if_pos ⟨.inr rfl, hall⟩, hreadHours, hreadMinutes]
      rfl

theorem zoneText_head (zone : Option (Bool × Nat × Nat)) (c : Char) (more : List Char)
    (h : zoneText zone = c :: more) : c ≠ '.' ∧ c.isDigit = false := by
  unfold zoneText at h
  split at h
  · rw [← (List.cons.inj h).1]
    decide
  · next west hours minutes =>
    rw [← (List.cons.inj h).1]
    cases west <;> decide

theorem exec_eq_some : exec value = some f ↔ f.Wide ∧ value = f.text := by
  constructor
  · intro h
    unfold exec at h
    split_ifs at h with hfits
    obtain ⟨year, month, day, hour, minute, second, hyear, hpairs, htext⟩ := dateTime_of_fits hfits
    cases hfraction : fractionOf (value.drop 19) with
    | mk digits rest =>
      obtain ⟨hdrop, hdigits, hlength⟩ := fractionOf_spec hfraction
      rw [hfraction] at h
      dsimp only at h
      rw [Option.map_eq_some_iff] at h
      obtain ⟨zone, hzone, rfl⟩ := h
      obtain ⟨rfl, hhours, hminutes⟩ := zoneOf_spec hzone
      have hwide : (Fields.mk year month day hour minute second digits zone).Wide :=
        ⟨hyear, hpairs, ⟨hdigits, hlength⟩, ⟨hhours, hminutes⟩⟩
      have hvalue : value = (Fields.mk year month day hour minute second digits zone).text := by
        rw [Fields.text, ← htext digits zone, ← hdrop, List.take_append_drop]
      have hcolumns := columns_dateTimeText hwide (fractionText digits ++ zoneText zone)
      rw [Fields.text] at hvalue
      rw [← hvalue] at hcolumns
      obtain ⟨hy, hmo, hd, hh, hmi, hs⟩ := hcolumns
      rw [hy, hmo, hd, hh, hmi, hs]
      exact ⟨hwide, hvalue⟩
  · rintro ⟨hwide, rfl⟩
    obtain ⟨hy, hmo, hd, hh, hmi, hs⟩ :=
      columns_dateTimeText hwide (fractionText f.fraction ++ zoneText f.zone)
    have htake : f.text.take 19 = f.dateTimeText := by
      rw [Fields.text, List.take_left' (length_dateTimeText f)]
    have hdrop : f.text.drop 19 = fractionText f.fraction ++ zoneText f.zone := by
      rw [Fields.text, List.drop_left' (length_dateTimeText f)]
    have hfraction := fractionOf_append hwide.fraction.1 hwide.fraction.2 (zoneText_head f.zone)
    rw [exec, htake, if_pos (fits_dateTimeText f), hdrop, hfraction]
    dsimp only
    rw [zoneOf_zoneText hwide.zone.1 hwide.zone.2, Option.map_some]
    rw [Fields.text, hy, hmo, hd, hh, hmi, hs]

theorem read_padEnd6 : read (padEnd6 digits) = read digits * 10 ^ (6 - digits.length) := by
  rw [IsoInstants.read, padEnd6, Nat.ofDigitChars_append, Nat.ofDigitChars_replicate_zero,
    Nat.mul_comm]
  rfl

theorem calendarTime_day (htime : f.hour < 24 ∧ f.minute < 60 ∧ f.second < 60) :
    calendarTime f / msPerDay = makeDay f.year f.month f.day := by
  simp only [calendarTime, msPerDay]
  omega

/-- `instantMicroseconds` accepts the texts of real dates and times, from year 1 on and with an
offset up to 15:59, and gives their microseconds since 1970. -/
theorem instantMicroseconds_eq_some {micros : Int} :
    instantMicroseconds value = some micros ↔
      ∃ f : Fields, f.Wide ∧ value = f.text ∧ f.Real ∧ 1 ≤ f.year ∧ f.zoneHours ≤ 15 ∧
        micros = f.micros := by
  have hmicros : ∀ f : Fields, f.Real →
      (calendarTime f - (f.zoneHours * 60 + f.zoneMinutes : Nat) * 60000 * f.zoneSign) * 1000 +
        (read (padEnd6 f.fraction) : Nat) = f.micros := by
    intro f hreal
    obtain ⟨-, hmonth, hday, -⟩ := hreal.date
    rw [calendarTime, makeDay_eq_countDays hmonth hday, read_padEnd6, Fields.micros]
    push_cast
    simp only [msPerDay]
    push_cast
    ring
  constructor
  · intro h
    unfold instantMicroseconds at h
    split at h
    · cases h
    · next f hexec =>
      obtain ⟨hwide, hvalue⟩ := exec_eq_some.mp hexec
      split_ifs at h with hguard hdate
      rw [not_ne_iff, calendarTime_day (by omega), dateOf_makeDay_iff] at hdate
      have hreal : f.Real := ⟨hdate, by omega, by omega⟩
      refine ⟨f, hwide, hvalue, hreal, by omega, by omega, ?_⟩
      rw [← hmicros f hreal]
      exact (Option.some.inj h).symm
  · rintro ⟨f, hwide, hvalue, hreal, hyear, hzone, hresult⟩
    obtain ⟨hmonth, hmonth', hday, hday'⟩ := hreal.date
    dsimp only at hmonth hmonth' hday hday'
    have htime := hreal.time
    have hminutes := hreal.zone.2
    have hthirtyOne : f.day ≤ 31 := hday'.trans (by
      have hlength := monthStart_succ_le (inLeapYear f.year) (f.month - 1) (by omega)
      rw [monthLength, Nat.sub_le_iff_le_add']
      exact hlength)
    have hdate : dateOf (calendarTime f / msPerDay) = ⟨f.year, f.month, f.day⟩ := by
      rw [calendarTime_day htime, dateOf_makeDay_iff]
      exact hreal.date
    rw [instantMicroseconds, exec_eq_some.mpr ⟨hwide, hvalue⟩]
    dsimp only
    rw [if_neg (by omega), if_neg (not_ne_iff.mpr hdate), hmicros f hreal, hresult]

def dateText (day : Int) : List Char :=
  pad 4 (dateOf day).year.toNat ++ '-' :: (pad 2 (dateOf day).month ++
    '-' :: pad 2 (dateOf day).day)

/-- The time of day of a text, to the millisecond. -/
def clockText (clock : Nat) : List Char :=
  'T' :: (pad 2 (clock / 3600000) ++ ':' :: (pad 2 (clock / 60000 % 60) ++
    ':' :: (pad 2 (clock / 1000 % 60) ++ '.' :: pad 3 (clock % 1000))))

theorem isoOf_eq {time : Int} (hyear : 0 ≤ (dateOf (time / msPerDay)).year ∧
    (dateOf (time / msPerDay)).year ≤ 9999) :
    isoOf time = dateText (time / msPerDay) ++ clockText (time % msPerDay).toNat ++ ['Z'] := by
  rw [isoOf, yearText, if_pos hyear, isoText, dateText, clockText]
  simp only [List.append_assoc, List.cons_append]

theorem ne_Z_of_isDigit (h : c.isDigit = true) : c ≠ 'Z' := by
  rintro rfl
  exact absurd h (by decide)

theorem no_Z_in_dateText {day : Int} (hc : c ∈ dateText day) : c ≠ 'Z' := by
  simp only [dateText, List.mem_append, List.mem_cons] at hc
  rcases hc with hc | rfl | hc | rfl | hc
  · exact ne_Z_of_isDigit (isDigit_of_mem_pad hc)
  · decide
  · exact ne_Z_of_isDigit (isDigit_of_mem_pad hc)
  · decide
  · exact ne_Z_of_isDigit (isDigit_of_mem_pad hc)

theorem no_Z_in_clockText {clock : Nat} (hc : c ∈ clockText clock) : c ≠ 'Z' := by
  simp only [clockText, List.mem_append, List.mem_cons] at hc
  rcases hc with rfl | hc | rfl | hc | rfl | hc | rfl | hc
  · decide
  · exact ne_Z_of_isDigit (isDigit_of_mem_pad hc)
  · decide
  · exact ne_Z_of_isDigit (isDigit_of_mem_pad hc)
  · decide
  · exact ne_Z_of_isDigit (isDigit_of_mem_pad hc)
  · decide
  · exact ne_Z_of_isDigit (isDigit_of_mem_pad hc)

theorem replaceZ_append {body : List Char} (h : ∀ c ∈ body, c ≠ 'Z') (text : List Char) :
    replaceZ (body ++ ['Z']) text = body ++ text := by
  have hplain : ∀ c ∈ body, decide (c ≠ 'Z') = true := fun c hc => decide_eq_true (h c hc)
  have hdrop : (body ++ ['Z']).dropWhile (· ≠ 'Z') = ['Z'] := by
    rw [List.dropWhile_append_of_pos hplain]
    rfl
  have htake : (body ++ ['Z']).takeWhile (· ≠ 'Z') = body := by
    rw [List.takeWhile_append_of_pos hplain]
    exact List.append_nil body
  rw [replaceZ, hdrop]
  dsimp only
  rw [htake, List.append_nil]

theorem remainder_eq (micros : Int) : (micros.tmod 1000 + 1000).tmod 1000 = micros % 1000 := by
  rw [Int.tmod_eq_emod_of_nonneg (a := micros.tmod 1000 + 1000)
    (by have := Int.lt_tmod_of_pos micros (show (0 : Int) < 1000 by decide); omega)]
  rcases Int.le_total 0 micros with h | h
  · rw [Int.tmod_eq_emod_of_nonneg h]
    omega
  · have hneg : micros.tmod 1000 = -((-micros) % 1000) := by
      rw [← Int.tmod_eq_emod_of_nonneg (Int.neg_nonneg_of_nonpos h), Int.neg_tmod, Int.neg_neg]
    rw [hneg]
    omega

def utcYear (micros : Int) : Int := yearOfDay (micros / 1000 / msPerDay)

theorem sortText_eq {micros : Int} (hyear : 0 ≤ utcYear micros ∧ utcYear micros ≤ 9999) :
    sortText micros = dateText (micros / 1000 / msPerDay) ++
      (clockText (micros / 1000 % msPerDay).toNat ++ (pad 3 (micros % 1000).toNat ++ ['Z'])) := by
  have hdiv : (micros - micros % 1000).tdiv 1000 = micros / 1000 := by
    rw [Int.tdiv_eq_ediv_of_dvd (Int.dvd_self_sub_emod)]
    omega
  rw [sortText, remainder_eq, hdiv, isoOf_eq hyear, replaceZ_append, List.append_assoc]
  intro c hc
  rcases List.mem_append.mp hc with hc | hc
  · exact no_Z_in_dateText hc
  · exact no_Z_in_clockText hc

/-- The order of `<` between strings: UTF-16 code units. -/
def TextLt (a b : List Char) : Prop := TextOrder.units a < TextOrder.units b

theorem units_append (a b : List Char) :
    TextOrder.units (a ++ b) = TextOrder.units a ++ TextOrder.units b := by
  rw [TextOrder.units, List.map_append, List.flatMap_append]
  rfl

theorem textLt_append_left (a : List Char) (h : TextLt s t) : TextLt (a ++ s) (a ++ t) := by
  rw [TextLt, units_append, units_append]
  exact List.append_left_lt h

theorem textLt_cons (c : Char) (h : TextLt s t) : TextLt (c :: s) (c :: t) :=
  textLt_append_left [c] h

theorem units_digitChar (n : Fin 10) (text : List Char) :
    TextOrder.units (Nat.digitChar n :: text) = (48 + n.val) :: TextOrder.units text := by
  have hvalue := toNat_digitChar n
  have hunits : (JsonTokens.CodePoint.scalar (Nat.digitChar n)).units = [48 + n.val] := by
    rw [JsonTokens.CodePoint.units, if_pos (by omega), hvalue]
  rw [TextOrder.units_cons, hunits]
  rfl

theorem textLt_pad {a b : Nat} (hlt : a < b) (hb : b < 10 ^ width) (s t : List Char) :
    TextLt (pad width a ++ s) (pad width b ++ t) := by
  induction width generalizing a b s t with
  | zero =>
    rw [Nat.pow_zero] at hb
    omega
  | succ width ih =>
    rw [Nat.pow_succ] at hb
    rw [pad, pad, List.append_assoc, List.append_assoc]
    rcases Nat.lt_or_ge (a / 10) (b / 10) with hhigh | hhigh
    · exact ih hhigh (by omega) _ _
    · have hsame : a / 10 = b / 10 := by omega
      rw [hsame]
      apply textLt_append_left
      have ha := units_digitChar ⟨a % 10, Nat.mod_lt a (by decide)⟩ s
      have hb' := units_digitChar ⟨b % 10, Nat.mod_lt b (by decide)⟩ t
      rw [TextLt, List.singleton_append, List.singleton_append, ha, hb', List.cons_lt_cons_iff]
      left
      show 48 + a % 10 < 48 + b % 10
      omega

theorem textLt_dateText (hlt : a < b) (ha : 0 ≤ (dateOf a).year) (hb : (dateOf b).year ≤ 9999)
    (s t : List Char) :
    TextLt (dateText a ++ s) (dateText b ++ t) := by
  have hyears : (dateOf a).year ≤ (dateOf b).year := yearOfDay_mono (by omega)
  obtain ⟨⟨hma, hma', hda, hda'⟩, hdayA⟩ := dateOf_spec a
  obtain ⟨⟨hmb, hmb', hdb, hdb'⟩, hdayB⟩ := dateOf_spec b
  have hthirtyOne : ∀ leap : Bool, ∀ month < 12, monthLength leap month ≤ 31 := by
    intro leap
    cases leap <;> decide
  have hdayOfMonth := hthirtyOne (inLeapYear (dateOf b).year) ((dateOf b).month - 1) (by omega)
  simp only [dateText, List.append_assoc, List.cons_append]
  rcases lt_or_eq_of_le hyears with hyear | hyear
  · exact textLt_pad (by omega) (by omega) _ _
  · rw [hyear]
    apply textLt_append_left
    apply textLt_cons
    rw [makeDay] at hdayA hdayB
    rw [hyear] at hdayA hda'
    have hmonths : (dateOf a).month ≤ (dateOf b).month := by
      by_contra hgt
      have hmono := monthStart_mono (inLeapYear (dateOf b).year) ((dateOf a).month - 1) (by omega)
        ((dateOf b).month - 1 + 1) (by omega)
      have hsucc := monthStart_succ (inLeapYear (dateOf b).year) ((dateOf b).month - 1) (by omega)
      omega
    rcases lt_or_eq_of_le hmonths with hmonth | hmonth
    · exact textLt_pad hmonth (by omega) _ _
    · rw [hmonth]
      apply textLt_append_left
      apply textLt_cons
      rw [hmonth] at hdayA
      exact textLt_pad (by omega) (by omega) _ _

theorem textLt_clockText {a b : Nat} (hlt : a < b) (hb : b < msPerDay) (s t : List Char) :
    TextLt (clockText a ++ s) (clockText b ++ t) := by
  rw [msPerDay] at hb
  simp only [clockText, List.append_assoc, List.cons_append]
  apply textLt_cons
  rcases Nat.lt_or_ge (a / 3600000) (b / 3600000) with hhour | hhour
  · exact textLt_pad hhour (by omega) _ _
  · rw [show a / 3600000 = b / 3600000 by omega]
    apply textLt_append_left
    apply textLt_cons
    rcases Nat.lt_or_ge (a / 60000 % 60) (b / 60000 % 60) with hminute | hminute
    · exact textLt_pad hminute (by omega) _ _
    · rw [show a / 60000 % 60 = b / 60000 % 60 by omega]
      apply textLt_append_left
      apply textLt_cons
      rcases Nat.lt_or_ge (a / 1000 % 60) (b / 1000 % 60) with hsecond | hsecond
      · exact textLt_pad hsecond (by omega) _ _
      · rw [show a / 1000 % 60 = b / 1000 % 60 by omega]
        apply textLt_append_left
        apply textLt_cons
        exact textLt_pad (by omega) (by omega) _ _

theorem sortText_lt (hlt : a < b) (ha : 0 ≤ utcYear a ∧ utcYear a ≤ 9999)
    (hb : 0 ≤ utcYear b ∧ utcYear b ≤ 9999) : TextLt (sortText a) (sortText b) := by
  rw [sortText_eq ha, sortText_eq hb]
  rcases lt_trichotomy (a / 1000 / msPerDay) (b / 1000 / msPerDay) with hday | hday | hday
  · exact textLt_dateText hday ha.1 hb.2 _ _
  · rw [hday]
    apply textLt_append_left
    simp only [msPerDay] at hday ⊢
    rcases Nat.lt_or_ge (a / 1000 % (86400000 : Nat)).toNat (b / 1000 % (86400000 : Nat)).toNat
      with hclock | hclock
    · exact textLt_clockText hclock (by simp only [msPerDay]; omega) _ _
    · rw [show (a / 1000 % (86400000 : Nat)).toNat = (b / 1000 % (86400000 : Nat)).toNat by omega]
      apply textLt_append_left
      exact textLt_pad (by omega) (by omega) _ _
  · simp only [msPerDay] at hday
    omega

theorem sortText_lt_iff (ha : 0 ≤ utcYear a ∧ utcYear a ≤ 9999)
    (hb : 0 ≤ utcYear b ∧ utcYear b ≤ 9999) : TextLt (sortText a) (sortText b) ↔ a < b := by
  constructor
  · intro h
    rcases lt_trichotomy a b with hlt | heq | hgt
    · exact hlt
    · rw [heq] at h
      exact absurd h (lt_irrefl (α := List Nat) _)
    · exact absurd h (lt_asymm (α := List Nat) (sortText_lt hgt hb ha))
  · intro h
    exact sortText_lt h ha hb

/-- Accepted are the texts of real dates and times, from year 1 on and with an offset up to 15:59,
with their microseconds; and the sort texts of accepted instants of the UTC years 0000 to 9999 are
in their order. -/
theorem instants_and_sort_texts :
    (∀ (value : List Char) (micros : Int), instantMicroseconds value = some micros ↔
      ∃ f : Fields, f.Wide ∧ value = f.text ∧ f.Real ∧ 1 ≤ f.year ∧ f.zoneHours ≤ 15 ∧
        micros = f.micros) ∧
    ∀ (a b : List Char) (microsA microsB : Int) (sortA sortB : List Char),
      instantMicroseconds a = some microsA → instantMicroseconds b = some microsB →
      0 ≤ utcYear microsA ∧ utcYear microsA ≤ 9999 → 0 ≤ utcYear microsB ∧ utcYear microsB ≤ 9999 →
      reconciliationSortInstant a = some sortA → reconciliationSortInstant b = some sortB →
      (TextLt sortA sortB ↔ microsA < microsB) := by
  refine ⟨fun value micros => instantMicroseconds_eq_some, ?_⟩
  intro a b microsA microsB sortA sortB ha hb hyearA hyearB hsortA hsortB
  rw [reconciliationSortInstant, ha, Option.map_some] at hsortA
  rw [reconciliationSortInstant, hb, Option.map_some] at hsortB
  rw [← Option.some.inj hsortA, ← Option.some.inj hsortB]
  exact sortText_lt_iff hyearA hyearB

/-- The last microsecond before 1970 and the first one of 1970. -/
theorem sort_texts_1970 :
    TextLt "1969-12-31T23:59:59.999999Z".toList "1970-01-01T00:00:00.000000Z".toList :=
  (instants_and_sort_texts.2 "1970-01-01T01:59:59.999999+02:00".toList
    "1970-01-01T00:00:00Z".toList (-1) 0 _ _ (by decide) (by decide) (by decide) (by decide)
    (by decide) (by decide)).mpr (by decide)

/-- The first instant of year 0 is refused, though the grammar has its text. -/
theorem year_zero_refused :
    ∃ f : Fields, f.Wide ∧ f.Real ∧ f.text = "0000-01-01T00:00:00Z".toList ∧
      instantMicroseconds f.text = none := by
  refine ⟨⟨0, 1, 1, 0, 0, 0, [], none⟩, ⟨by simp, by simp, by simp, by decide⟩,
    ⟨by decide, by decide, by decide⟩, by decide, by decide⟩

end Stynx.OfflineSyncInstants
