import Mathlib.Data.Nat.Digits.Defs

/-!
# Instants and their ISO text

Time values in milliseconds since 1970, their calendar fields, and the text
that `Date.prototype.toISOString` prints and `Date.parse` reads, by the day and
year functions of the ECMAScript standard. An instant up to year 9999 reads
back as itself.
-/

namespace Stynx.IsoInstants

def dayFromYear (year : Int) : Int :=
  365 * (year - 1970) + (year - 1969) / 4 - (year - 1901) / 100 + (year - 1601) / 400

def inLeapYear (year : Int) : Bool := year % 4 == 0 && (year % 100 != 0 || year % 400 == 0)

/-- The day of the year on which a month starts, months counted from zero. -/
def monthStart (leap : Bool) (month : Nat) : Nat :=
  let extra := if leap then 1 else 0
  match month with
  | 0 => 0
  | 1 => 31
  | 2 => 59 + extra
  | 3 => 90 + extra
  | 4 => 120 + extra
  | 5 => 151 + extra
  | 6 => 181 + extra
  | 7 => 212 + extra
  | 8 => 243 + extra
  | 9 => 273 + extra
  | 10 => 304 + extra
  | 11 => 334 + extra
  | _ => 365 + extra

/-- `YearFromTime`, of a day since 1970. -/
def yearFromDay (day : Nat) : Nat :=
  Nat.findGreatest (fun year => dayFromYear year ≤ day) (1970 + day / 365)

def dayWithinYear (day : Nat) : Nat := (day - dayFromYear (yearFromDay day)).toNat

def monthFromDay (leap : Bool) (day : Nat) : Nat :=
  Nat.findGreatest (fun month => monthStart leap month ≤ day) 11

theorem dayFromYear_succ (year : Int) :
    dayFromYear (year + 1) = dayFromYear year + 365 + if inLeapYear year then 1 else 0 := by
  simp only [dayFromYear, inLeapYear, Bool.and_eq_true, Bool.or_eq_true, beq_iff_eq, bne_iff_ne]
  split_ifs <;> omega

theorem yearFromDay_spec (day : Nat) :
    1970 ≤ yearFromDay day ∧ dayFromYear (yearFromDay day) ≤ day ∧
      (day : Int) < dayFromYear ((yearFromDay day : Int) + 1) := by
  have hfirst : dayFromYear ((1970 : Nat) : Int) ≤ day := by
    simp [dayFromYear]
  have hle : 1970 ≤ yearFromDay day := Nat.le_findGreatest (by omega) hfirst
  have hspec : dayFromYear (yearFromDay day) ≤ day :=
    Nat.findGreatest_spec (P := fun year => dayFromYear year ≤ day) (by omega) hfirst
  refine ⟨hle, hspec, ?_⟩
  by_cases hbound : yearFromDay day + 1 ≤ 1970 + day / 365
  · have hnot := Nat.findGreatest_is_greatest (P := fun year => dayFromYear year ≤ day)
      (Nat.lt_add_one (yearFromDay day)) hbound
    push_cast at hnot
    omega
  · simp only [dayFromYear]
    omega

variable {day n year month date hour minute second milli time width a b : Nat} {leap : Bool}
  {c : Char}

theorem yearFromDay_le (h : day < 2932897) : yearFromDay day ≤ 9999 := by
  have hspec := (yearFromDay_spec day).2.1
  simp only [dayFromYear] at hspec
  omega

theorem dayWithinYear_spec (day : Nat) :
    (dayWithinYear day : Int) = day - dayFromYear (yearFromDay day) ∧
      dayWithinYear day < monthStart (inLeapYear (yearFromDay day)) 12 := by
  obtain ⟨-, hle, hlt⟩ := yearFromDay_spec day
  rw [dayFromYear_succ] at hlt
  have hday : (dayWithinYear day : Int) = day - dayFromYear (yearFromDay day) := by
    rw [dayWithinYear]
    omega
  refine ⟨hday, ?_⟩
  cases hleap : inLeapYear (yearFromDay day) with
  | false =>
    rw [hleap] at hlt
    simp [monthStart] at hlt ⊢
    omega
  | true =>
    rw [hleap] at hlt
    simp [monthStart] at hlt ⊢
    omega

theorem monthStart_succ_le (leap : Bool) :
    ∀ month ≤ 11, monthStart leap (month + 1) ≤ monthStart leap month + 31 := by
  cases leap <;> decide

theorem monthFromDay_spec (h : day < monthStart leap 12) :
    monthFromDay leap day ≤ 11 ∧ monthStart leap (monthFromDay leap day) ≤ day ∧
      day < monthStart leap (monthFromDay leap day) + 31 := by
  have hle : monthFromDay leap day ≤ 11 := Nat.findGreatest_le 11
  have hspec : monthStart leap (monthFromDay leap day) ≤ day :=
    Nat.findGreatest_spec (P := fun month => monthStart leap month ≤ day) (m := 0) (by omega)
      (by cases leap <;> simp [monthStart])
  have hstep := monthStart_succ_le leap _ hle
  refine ⟨hle, hspec, ?_⟩
  rcases Nat.lt_or_ge (monthFromDay leap day) 11 with hlt | hge
  · have hnot := Nat.findGreatest_is_greatest (P := fun month => monthStart leap month ≤ day)
      (Nat.lt_add_one (monthFromDay leap day)) hlt
    simp only [not_le] at hnot
    omega
  · have heq : monthFromDay leap day = 11 := by omega
    have hlast : monthStart leap 12 ≤ monthStart leap 11 + 31 := monthStart_succ_le leap 11 (by omega)
    rw [heq]
    omega

/-- Decimal digits at a fixed width. -/
def pad : Nat → Nat → List Char
  | 0, _ => []
  | width + 1, n => pad width (n / 10) ++ [Nat.digitChar (n % 10)]

/-- The number that digits stand for. -/
def read (digits : List Char) : Nat := Nat.ofDigitChars 10 digits 0

theorem read_pad (width : Nat) (h : n < 10 ^ width) : read (pad width n) = n := by
  induction width generalizing n with
  | zero =>
    rw [Nat.pow_zero] at h
    rw [pad, read, Nat.ofDigitChars_nil]
    omega
  | succ width ih =>
    rw [Nat.pow_succ] at h
    have hread := ih (n := n / 10) (by omega)
    rw [read] at hread
    rw [pad, read, Nat.ofDigitChars_append, hread,
      Nat.ofDigitChars_cons_digitChar_of_lt_ten (by omega), Nat.ofDigitChars_nil]
    omega

def msPerDay : Nat := 86400000

/-- The text of an instant, from its fields. -/
def isoText (year : List Char) (month date hour minute second milli : Nat) : List Char :=
  year ++ '-' :: pad 2 month ++ '-' :: pad 2 date ++ 'T' :: pad 2 hour ++ ':' :: pad 2 minute ++
    ':' :: pad 2 second ++ '.' :: pad 3 milli ++ ['Z']

/-- `Date.prototype.toISOString`, of a time value that is not negative. -/
def toISOString (time : Nat) : List Char :=
  let day := time / msPerDay
  let year := yearFromDay day
  let month := monthFromDay (inLeapYear year) (dayWithinYear day)
  let date := dayWithinYear day - monthStart (inLeapYear year) month
  isoText (if year ≤ 9999 then pad 4 year else '+' :: pad 6 year) (month + 1) (date + 1)
    (time / 3600000 % 24) (time / 60000 % 60) (time / 1000 % 60) (time % 1000)

/-- Digits `d` and separators of the text of an instant. -/
def template : List Char := "dddd-dd-ddTdd:dd:dd.dddZ".toList

/-- `/^\d{4}-\d\d-\d\dT\d\d:\d\d:\d\d\.\d{3}Z$/u`. -/
def fits : List Char → List Char → Bool
  | [], [] => true
  | 'd' :: shape, c :: text => c.isDigit && fits shape text
  | s :: shape, c :: text => c == s && fits shape text
  | _, _ => false

def column (text : List Char) (start width : Nat) : Nat := read ((text.drop start).take width)

/-- `Date.parse` of a text that fits the template; `none` is not a number. -/
def parse (text : List Char) : Option Int :=
  let year := column text 0 4
  let month := column text 5 2
  let date := column text 8 2
  let hour := column text 11 2
  let minute := column text 14 2
  let second := column text 17 2
  let milli := column text 20 3
  if (1 ≤ month ∧ month ≤ 12) ∧ (1 ≤ date ∧ date ≤ 31) ∧
      (hour < 24 ∧ minute < 60 ∧ second < 60 ∨ hour = 24 ∧ minute = 0 ∧ second = 0 ∧ milli = 0) then
    some ((dayFromYear year + monthStart (inLeapYear year) (month - 1) + (date - 1 : Nat)) *
      msPerDay + (hour * 3600000 + minute * 60000 + second * 1000 + milli : Nat))
  else none

/-- The first time value of year 10000. -/
def year10000 : Nat := 253402300800000

theorem isDigit_digitChar : ∀ n : Fin 10, (Nat.digitChar n).isDigit = true := by decide

theorem isDigit_digitChar_mod (n : Nat) : (Nat.digitChar (n % 10)).isDigit = true :=
  isDigit_digitChar ⟨n % 10, Nat.mod_lt n (by decide)⟩

theorem fits_pad (width n : Nat) (shape text : List Char) :
    fits (List.replicate width 'd' ++ shape) (pad width n ++ text) = fits shape text := by
  induction width generalizing n shape text with
  | zero => rfl
  | succ width ih =>
    rw [pad, List.append_assoc, List.replicate_succ', List.append_assoc, ih, List.singleton_append,
      List.singleton_append, fits, isDigit_digitChar_mod, Bool.true_and]

theorem fits_separator (hc : c ≠ 'd') (shape text : List Char) :
    fits (c :: shape) (c :: text) = fits shape text := by
  rw [fits, beq_self_eq_true, Bool.true_and]
  exact fun h => hc h

theorem fits_isoText (year month date hour minute second milli : Nat) :
    fits template (isoText (pad 4 year) month date hour minute second milli) = true := by
  have htemplate : template = List.replicate 4 'd' ++ '-' :: (List.replicate 2 'd' ++
      '-' :: (List.replicate 2 'd' ++ 'T' :: (List.replicate 2 'd' ++ ':' :: (List.replicate 2 'd' ++
        ':' :: (List.replicate 2 'd' ++ '.' :: (List.replicate 3 'd' ++ ['Z'])))))) := by decide
  rw [htemplate]
  simp only [isoText, List.append_assoc, List.cons_append]
  rw [fits_pad, fits_separator (by decide), fits_pad, fits_separator (by decide), fits_pad,
    fits_separator (by decide), fits_pad, fits_separator (by decide), fits_pad,
    fits_separator (by decide), fits_pad, fits_separator (by decide), fits_pad,
    fits_separator (by decide), fits]

theorem parse_isoText (hyear : year < 10000) (hmonth : 1 ≤ month ∧ month ≤ 12)
    (hdate : 1 ≤ date ∧ date ≤ 31) (hhour : hour < 24) (hminute : minute < 60)
    (hsecond : second < 60) (hmilli : milli < 1000) :
    parse (isoText (pad 4 year) month date hour minute second milli) =
      some ((dayFromYear year + monthStart (inLeapYear year) (month - 1) + (date - 1 : Nat)) *
        msPerDay + (hour * 3600000 + minute * 60000 + second * 1000 + milli : Nat)) := by
  have hy : column (isoText (pad 4 year) month date hour minute second milli) 0 4 = year :=
    read_pad 4 hyear
  have hmo : column (isoText (pad 4 year) month date hour minute second milli) 5 2 = month :=
    read_pad 2 (by omega)
  have hda : column (isoText (pad 4 year) month date hour minute second milli) 8 2 = date :=
    read_pad 2 (by omega)
  have hho : column (isoText (pad 4 year) month date hour minute second milli) 11 2 = hour :=
    read_pad 2 (by omega)
  have hmi : column (isoText (pad 4 year) month date hour minute second milli) 14 2 = minute :=
    read_pad 2 (by omega)
  have hse : column (isoText (pad 4 year) month date hour minute second milli) 17 2 = second :=
    read_pad 2 (by omega)
  have hms : column (isoText (pad 4 year) month date hour minute second milli) 20 3 = milli :=
    read_pad 3 hmilli
  simp only [parse, hy, hmo, hda, hho, hmi, hse, hms]
  rw [if_pos ⟨hmonth, hdate, .inl ⟨hhour, hminute, hsecond⟩⟩]

theorem parse_toISOString (h : time < year10000) :
    fits template (toISOString time) = true ∧ parse (toISOString time) = some (time : Int) := by
  have hyear : yearFromDay (time / msPerDay) ≤ 9999 :=
    yearFromDay_le (by simp only [msPerDay, year10000] at h ⊢; omega)
  obtain ⟨hday, hbound⟩ := dayWithinYear_spec (time / msPerDay)
  obtain ⟨hmonth, hstart, hend⟩ := monthFromDay_spec hbound
  simp only [toISOString, if_pos hyear]
  refine ⟨fits_isoText _ _ _ _ _ _ _, ?_⟩
  rw [parse_isoText (by omega) (by omega) (by omega) (by omega) (by omega) (by omega) (by omega)]
  congr 1
  simp only [Nat.add_sub_cancel]
  simp only [msPerDay] at hday hstart hend ⊢
  omega

/-- The greatest time value. -/
def maxTime : Nat := 8640000000000000

theorem time_of_fields (time : Nat) :
    (time : Int) = (dayFromYear (yearFromDay (time / msPerDay)) +
      monthStart (inLeapYear (yearFromDay (time / msPerDay)))
        (monthFromDay (inLeapYear (yearFromDay (time / msPerDay)))
          (dayWithinYear (time / msPerDay))) +
      (dayWithinYear (time / msPerDay) - monthStart (inLeapYear (yearFromDay (time / msPerDay)))
        (monthFromDay (inLeapYear (yearFromDay (time / msPerDay)))
          (dayWithinYear (time / msPerDay))) : Nat)) * msPerDay +
      (time / 3600000 % 24 * 3600000 + time / 60000 % 60 * 60000 + time / 1000 % 60 * 1000 +
        time % 1000 : Nat) := by
  obtain ⟨hday, hbound⟩ := dayWithinYear_spec (time / msPerDay)
  obtain ⟨-, hstart, -⟩ := monthFromDay_spec hbound
  simp only [msPerDay] at hday hstart ⊢
  omega

theorem length_pad (width n : Nat) : (pad width n).length = width := by
  induction width generalizing n with
  | zero => rfl
  | succ width ih => rw [pad, List.length_append, ih, List.length_singleton]

theorem pad_injective {n' : Nat} (hn : n < 10 ^ width) (hn' : n' < 10 ^ width)
    (h : pad width n = pad width n') : n = n' := by
  rw [← read_pad width hn, h, read_pad width hn']

theorem isoText_inj {month' date' hour' minute' second' milli' : Nat} {head head' : List Char}
    (h : isoText head month date hour minute second milli =
      isoText head' month' date' hour' minute' second' milli')
    (hmonth : month < 100 ∧ month' < 100) (hdate : date < 100 ∧ date' < 100)
    (hhour : hour < 100 ∧ hour' < 100) (hminute : minute < 100 ∧ minute' < 100)
    (hsecond : second < 100 ∧ second' < 100) (hmilli : milli < 1000 ∧ milli' < 1000) :
    head = head' ∧ month = month' ∧ date = date' ∧ hour = hour' ∧ minute = minute' ∧
      second = second' ∧ milli = milli' := by
  simp only [isoText, List.append_assoc, List.cons_append] at h
  have hhead : head.length = head'.length := by
    have hlength := congrArg List.length h
    simp only [List.length_append, List.length_cons, length_pad] at hlength
    omega
  obtain ⟨hyear, h⟩ := List.append_inj h hhead
  obtain ⟨hmo, h⟩ := List.append_inj (List.cons.inj h).2 (by rw [length_pad, length_pad])
  obtain ⟨hda, h⟩ := List.append_inj (List.cons.inj h).2 (by rw [length_pad, length_pad])
  obtain ⟨hho, h⟩ := List.append_inj (List.cons.inj h).2 (by rw [length_pad, length_pad])
  obtain ⟨hmi, h⟩ := List.append_inj (List.cons.inj h).2 (by rw [length_pad, length_pad])
  obtain ⟨hse, h⟩ := List.append_inj (List.cons.inj h).2 (by rw [length_pad, length_pad])
  obtain ⟨hms, -⟩ := List.append_inj (List.cons.inj h).2 (by rw [length_pad, length_pad])
  exact ⟨hyear, pad_injective hmonth.1 hmonth.2 hmo, pad_injective hdate.1 hdate.2 hda,
    pad_injective hhour.1 hhour.2 hho, pad_injective hminute.1 hminute.2 hmi,
    pad_injective hsecond.1 hsecond.2 hse, pad_injective hmilli.1 hmilli.2 hms⟩

theorem yearText_injective {year' : Nat} (hyear : year < 1000000) (hyear' : year' < 1000000)
    (h : (if year ≤ 9999 then pad 4 year else '+' :: pad 6 year) =
      if year' ≤ 9999 then pad 4 year' else '+' :: pad 6 year') : year = year' := by
  have hlength := congrArg List.length h
  by_cases hy : year ≤ 9999
  · by_cases hy' : year' ≤ 9999
    · rw [if_pos hy, if_pos hy'] at h
      exact pad_injective (by omega) (by omega) h
    · rw [if_pos hy, if_neg hy', List.length_cons, length_pad, length_pad] at hlength
      omega
  · by_cases hy' : year' ≤ 9999
    · rw [if_neg hy, if_pos hy', List.length_cons, length_pad, length_pad] at hlength
      omega
    · rw [if_neg hy, if_neg hy'] at h
      exact pad_injective (by omega) (by omega) (List.cons.inj h).2

theorem yearFromDay_lt_of_le_maxTime (h : time ≤ maxTime) :
    yearFromDay (time / msPerDay) < 1000000 := by
  have hyear := (yearFromDay_spec (time / msPerDay)).2.1
  simp only [maxTime] at h
  simp only [dayFromYear, msPerDay] at hyear ⊢
  omega

theorem dayWithinMonth_le (hbound : day < monthStart leap 12) :
    day - monthStart leap (monthFromDay leap day) ≤ 30 := by
  obtain ⟨-, hstart, hend⟩ := monthFromDay_spec hbound
  omega

theorem toISOString_injective (ha : a ≤ maxTime) (hb : b ≤ maxTime)
    (h : toISOString a = toISOString b) : a = b := by
  obtain ⟨-, hbound⟩ := dayWithinYear_spec (a / msPerDay)
  obtain ⟨-, hbound'⟩ := dayWithinYear_spec (b / msPerDay)
  have hdate := dayWithinMonth_le hbound
  have hdate' := dayWithinMonth_le hbound'
  have hmonth := (monthFromDay_spec hbound).1
  have hmonth' := (monthFromDay_spec hbound').1
  obtain ⟨hhead, hmo, hda, hho, hmi, hse, hms⟩ := isoText_inj h ⟨by omega, by omega⟩
    ⟨by omega, by omega⟩ (by omega) (by omega) (by omega) (by omega)
  have hsame := yearText_injective (yearFromDay_lt_of_le_maxTime ha)
    (yearFromDay_lt_of_le_maxTime hb) hhead
  have hread := time_of_fields a
  have hread' := time_of_fields b
  rw [Nat.add_right_cancel hda, Nat.add_right_cancel hmo, hho, hmi, hse, hms, hsame] at hread
  exact Int.ofNat.inj (hread.trans hread'.symm)

theorem isDigit_of_mem_pad (h : c ∈ pad width n) : c.isDigit = true := by
  induction width generalizing n with
  | zero => cases h
  | succ width ih =>
    rcases List.mem_append.mp h with hinit | hlast
    · exact ih hinit
    · rw [List.mem_singleton.mp hlast]
      exact isDigit_digitChar_mod n

theorem length_isoText (head : List Char) (month date hour minute second milli : Nat) :
    (isoText head month date hour minute second milli).length = head.length + 20 := by
  simp only [isoText, List.append_assoc, List.cons_append, List.length_append, List.length_cons,
    List.length_nil, length_pad]

theorem toISOString_shape (time : Nat) :
    (toISOString time).length = 24 ∨
      (toISOString time).length = 27 ∧ (toISOString time)[2]? ≠ some ':' := by
  simp only [toISOString, length_isoText]
  by_cases hyear : yearFromDay (time / msPerDay) ≤ 9999
  · rw [if_pos hyear, length_pad]
    exact .inl rfl
  · rw [if_neg hyear, List.length_cons, length_pad]
    refine .inr ⟨rfl, fun hcolon => ?_⟩
    simp only [isoText, List.append_assoc, List.cons_append, List.getElem?_cons_succ] at hcolon
    rw [List.getElem?_append_left (by rw [length_pad]; decide)] at hcolon
    have hdigit := isDigit_of_mem_pad (List.mem_of_getElem? hcolon)
    exact absurd hdigit (by decide)

theorem append_toISOString_injective {before before' : List Char} (ha : a ≤ maxTime)
    (hb : b ≤ maxTime) (h : before ++ ':' :: toISOString a = before' ++ ':' :: toISOString b) :
    before = before' ∧ a = b := by
  have hlength := congrArg List.length h
  simp only [List.length_append, List.length_cons] at hlength
  -- texts of different lengths have a colon and a digit at one place
  have hsame : ∀ {u u' : List Char} {x y : Nat}, u ++ ':' :: toISOString x =
      u' ++ ':' :: toISOString y → u.length = u'.length + 3 → (toISOString y)[2]? = some ':' := by
    intro u u' x y heq hlen
    have hat := congrArg (fun text : List Char => text[u.length]?) heq
    simp only [List.getElem?_append_right le_rfl, Nat.sub_self, List.getElem?_cons_zero] at hat
    rw [hlen, List.getElem?_append_right (Nat.le_add_right _ _), Nat.add_sub_cancel_left,
      List.getElem?_cons_succ] at hat
    exact hat.symm
  have hequal : (toISOString a).length = (toISOString b).length := by
    rcases toISOString_shape a with hla | ⟨hla, hna⟩
    · rcases toISOString_shape b with hlb | ⟨hlb, hnb⟩
      · rw [hla, hlb]
      · exact absurd (hsame h (by omega)) hnb
    · rcases toISOString_shape b with hlb | ⟨hlb, hnb⟩
      · exact absurd (hsame h.symm (by omega)) hna
      · rw [hla, hlb]
  obtain ⟨hbefore, htexts⟩ := List.append_inj h (by omega)
  exact ⟨hbefore, toISOString_injective ha hb (List.cons.inj htexts).2⟩

end Stynx.IsoInstants
