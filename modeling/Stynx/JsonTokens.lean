import Mathlib.Algebra.GroupWithZero.Nat
import Mathlib.Data.List.Basic
import Mathlib.Data.List.TakeWhile

/-!
# Strings and numbers as JSON text

The text that `JSON.stringify` gives to a string and to a number, in the terms
of the ECMAScript standard. A string is a list of code points, an unpaired
surrogate being one of them. A finite number is its shortest decimal: a
significand that does not end in zero, and the place of the decimal point.
-/

namespace Stynx.JsonTokens

/-- A code point of an ECMAScript string. -/
inductive CodePoint where
  /-- A Unicode scalar value. -/
  | scalar (c : Char)
  /-- A surrogate without its partner, as its offset from the first surrogate. -/
  | surrogate (offset : Fin 2048)
  deriving DecidableEq

abbrev JsString := List CodePoint

instance : LawfulBEq JsString := inferInstance

def ofString (text : String) : JsString := text.toList.map CodePoint.scalar

theorem ofString_injective : Function.Injective ofString := by
  intro a b h
  have hlist : a.toList = b.toList :=
    List.map_injective_iff.mpr (fun x y hxy => CodePoint.scalar.inj hxy) h
  exact String.toList_injective hlist

def CodePoint.units : CodePoint → List Nat
  | .scalar c =>
    if c.toNat < 0x10000 then [c.toNat]
    else [0xD800 + (c.toNat - 0x10000) / 0x400, 0xDC00 + (c.toNat - 0x10000) % 0x400]
  | .surrogate offset => [0xD800 + offset.val]

/-- The order of `Array.prototype.sort` without a comparison: UTF-16 code units. -/
def keyOrder (first second : JsString) : Prop :=
  ¬List.Lex (fun a b : Nat => a < b) (second.flatMap CodePoint.units)
    (first.flatMap CodePoint.units)

instance (first second : JsString) : Decidable (keyOrder first second) :=
  inferInstanceAs (Decidable (¬List.Lex (fun a b : Nat => a < b) _ _))

/-- Four lowercase hexadecimal digits. -/
def hex4 (n : Nat) : List Char :=
  [Nat.digitChar (n / 4096 % 16), Nat.digitChar (n / 256 % 16), Nat.digitChar (n / 16 % 16),
    Nat.digitChar (n % 16)]

def hexValue (c : Char) : Nat := (List.range 16).findIdx fun n => Nat.digitChar n == c

theorem hexValue_digitChar : ∀ n : Fin 16, hexValue (Nat.digitChar n) = n := by decide

theorem hexValue_digitChar_mod (n : Nat) : hexValue (Nat.digitChar (n % 16)) = n % 16 :=
  hexValue_digitChar ⟨n % 16, Nat.mod_lt n (by decide)⟩

/-- The number that four hexadecimal digits stand for. -/
def hexValue4 (a b c d : Char) : Nat :=
  hexValue a * 4096 + hexValue b * 256 + hexValue c * 16 + hexValue d

/-- The letter of a two-character escape. -/
def shortEscape (c : Char) : Option Char :=
  if c = '\x08' then some 'b' else if c = '\t' then some 't' else if c = '\n' then some 'n'
  else if c = '\x0c' then some 'f' else if c = '\r' then some 'r' else if c = '"' then some '"'
  else if c = '\\' then some '\\' else none

/-- The text of a code point between quotation marks. -/
def quotePoint : CodePoint → List Char
  | .scalar c =>
    match shortEscape c with
    | some letter => ['\\', letter]
    | none => if c.toNat < 0x20 then '\\' :: 'u' :: hex4 c.toNat else [c]
  | .surrogate offset => '\\' :: 'u' :: hex4 (0xD800 + offset.val)

/-- `JSON.stringify` of a string. -/
def quote (s : JsString) : List Char := '"' :: (s.flatMap quotePoint ++ ['"'])

/-- The character that a two-character escape stands for. -/
def shortUnescape (letter : Char) : Char :=
  if letter = 'b' then '\x08' else if letter = 't' then '\t' else if letter = 'n' then '\n'
  else if letter = 'f' then '\x0c' else if letter = 'r' then '\r' else letter

instance surrogates : NeZero 2048 := ⟨by decide⟩

/-- The code point of a numeric escape. -/
def pointOf (n : Nat) : CodePoint :=
  if 0xD800 ≤ n then .surrogate (Fin.ofNat 2048 (n - 0xD800)) else .scalar (Char.ofNat n)

/-- Read one code point back. -/
def unquotePoint : List Char → Option (CodePoint × List Char)
  | [] => none
  | first :: rest =>
    if first = '\\' then
      match rest with
      | 'u' :: a :: b :: c :: d :: rest' => some (pointOf (hexValue4 a b c d), rest')
      | letter :: rest' => some (.scalar (shortUnescape letter), rest')
      | [] => none
    else some (.scalar first, rest)

variable {c : Char} {n : Nat} {rest more digits text : List Char}

theorem shortEscape_eq_some {letter : Char} (h : shortEscape c = some letter) :
    letter ≠ 'u' ∧ shortUnescape letter = c := by
  unfold shortEscape at h
  split_ifs at h with h₁ h₂ h₃ h₄ h₅ h₆ h₇ <;> cases h <;> subst c <;> decide

theorem ne_of_shortEscape_eq_none (h : shortEscape c = none) : c ≠ '\\' ∧ c ≠ '"' := by
  constructor
  · rintro rfl
    revert h
    decide
  · rintro rfl
    revert h
    decide

theorem hexValue4_hex4 (h : n < 65536) :
    hexValue4 (Nat.digitChar (n / 4096 % 16)) (Nat.digitChar (n / 256 % 16))
      (Nat.digitChar (n / 16 % 16)) (Nat.digitChar (n % 16)) = n := by
  simp only [hexValue4, hexValue_digitChar_mod]
  omega

theorem unquotePoint_hex4 (h : n < 65536) (rest : List Char) :
    unquotePoint ('\\' :: 'u' :: hex4 n ++ rest) = some (pointOf n, rest) := by
  show some (pointOf (hexValue4 (Nat.digitChar (n / 4096 % 16)) (Nat.digitChar (n / 256 % 16))
    (Nat.digitChar (n / 16 % 16)) (Nat.digitChar (n % 16))), rest) = _
  rw [hexValue4_hex4 h]

theorem unquotePoint_quotePoint (p : CodePoint) (rest : List Char) :
    unquotePoint (quotePoint p ++ rest) = some (p, rest) := by
  cases p with
  | scalar c =>
    rw [quotePoint]
    cases hshort : shortEscape c with
    | some letter =>
      obtain ⟨hu, hletter⟩ := shortEscape_eq_some hshort
      simp only [List.cons_append, List.nil_append, unquotePoint, if_pos]
      split
      · next heq => exact absurd (List.cons.inj heq).1 hu
      · next heq =>
        obtain ⟨rfl, rfl⟩ := List.cons.inj heq
        rw [hletter]
      · next heq => cases heq
    | none =>
      have hraw := ne_of_shortEscape_eq_none hshort
      dsimp only
      split_ifs with hcontrol
      · rw [unquotePoint_hex4 (by omega), pointOf, if_neg (by omega), Char.ofNat_toNat]
      · simp only [List.cons_append, List.nil_append, unquotePoint, if_neg hraw.1]
  | surrogate offset =>
    have hbound := offset.isLt
    have hoffset : Fin.ofNat 2048 (0xD800 + offset.val - 0xD800) = offset := by
      apply Fin.ext
      show (0xD800 + offset.val - 0xD800) % 2048 = offset.val
      omega
    rw [quotePoint, unquotePoint_hex4 (by omega), pointOf, if_pos (by omega), hoffset]

theorem quotePoint_head_ne (p : CodePoint) (rest more : List Char) :
    quotePoint p ++ rest ≠ '"' :: more := by
  intro h
  cases p with
  | scalar c =>
    rw [quotePoint] at h
    cases hshort : shortEscape c with
    | some letter =>
      rw [hshort] at h
      exact absurd (List.cons.inj h).1 (by decide)
    | none =>
      have hraw := ne_of_shortEscape_eq_none hshort
      rw [hshort] at h
      dsimp only at h
      split_ifs at h with hcontrol
      · exact absurd (List.cons.inj h).1 (by decide)
      · exact hraw.2 (List.cons.inj h).1
  | surrogate offset => exact absurd (List.cons.inj h).1 (by decide)

theorem quoteBody_append_inj {s t : JsString}
    (h : s.flatMap quotePoint ++ '"' :: rest = t.flatMap quotePoint ++ '"' :: more) :
    s = t ∧ rest = more := by
  induction s generalizing t with
  | nil =>
    cases t with
    | nil => exact ⟨rfl, (List.cons.inj h).2⟩
    | cons q t =>
      rw [List.flatMap_cons, List.append_assoc] at h
      exact absurd h.symm (quotePoint_head_ne q _ rest)
  | cons p s ih =>
    cases t with
    | nil =>
      rw [List.flatMap_cons, List.append_assoc] at h
      exact absurd h (quotePoint_head_ne p _ more)
    | cons q t =>
      rw [List.flatMap_cons, List.flatMap_cons, List.append_assoc, List.append_assoc] at h
      have hread := congrArg unquotePoint h
      rw [unquotePoint_quotePoint, unquotePoint_quotePoint] at hread
      obtain ⟨hpoint, htail⟩ := Prod.mk.inj (Option.some.inj hread)
      obtain ⟨hs, hrest⟩ := ih htail
      exact ⟨by rw [hpoint, hs], hrest⟩

theorem quote_append_inj {s t : JsString} (h : quote s ++ rest = quote t ++ more) :
    s = t ∧ rest = more := by
  rw [quote, quote, List.cons_append, List.cons_append, List.append_assoc, List.append_assoc] at h
  exact quoteBody_append_inj (List.cons.inj h).2

/-- A finite number other than zero, in its shortest decimal. -/
structure Decimal where
  negative : Bool
  significand : Nat
  /-- The place of the decimal point from the first digit. -/
  exponent : Int
  /-- The digits do not end in zero. -/
  significand_normal : significand % 10 ≠ 0
  deriving DecidableEq

/-- A finite number; the two zeros are one JSON number. -/
inductive JsonNumber where
  | zero
  /-- Any other number. -/
  | decimal (d : Decimal)
  deriving DecidableEq

/-- The digits of a number with its decimal point. -/
def mantissa (digits : List Char) : List Char :=
  match digits with
  | first :: second :: rest => first :: '.' :: second :: rest
  | short => short

/-- The sign that a number's exponent is written with. -/
def exponentSign (exponent : Int) : Char := if exponent < 0 then '-' else '+'

/-- `Number::toString` of a positive number. -/
def magnitudeText (digits : List Char) (exponent : Int) : List Char :=
  if -5 ≤ exponent ∧ exponent ≤ 21 then
    if (digits.length : Int) ≤ exponent then
      digits ++ List.replicate (exponent - digits.length).toNat '0'
    else if 0 < exponent then digits.take exponent.toNat ++ '.' :: digits.drop exponent.toNat
    else '0' :: '.' :: (List.replicate (-exponent).toNat '0' ++ digits)
  else
    mantissa digits ++ 'e' :: exponentSign exponent :: Nat.toDigits 10 (exponent - 1).natAbs

/-- `JSON.stringify` of a finite number. -/
def numberText : JsonNumber → List Char
  | .zero => ['0']
  | .decimal d =>
    (if d.negative then ['-'] else []) ++ magnitudeText (Nat.toDigits 10 d.significand) d.exponent

/-- Divide by ten while the last digit is zero. -/
def stripZeros : Nat → Nat → Nat
  | 0, n => n
  | fuel + 1, n => if n % 10 = 0 then stripZeros fuel (n / 10) else n

theorem stripZeros_normal {fuel : Nat} (hpos : 0 < n) (hfuel : n ≤ fuel) :
    stripZeros fuel n % 10 ≠ 0 := by
  induction fuel generalizing n with
  | zero => omega
  | succ fuel ih =>
    rw [stripZeros]
    split_ifs with hlast
    · exact ih (by omega) (by omega)
    · exact hlast

def ofNat (n : Nat) : JsonNumber :=
  if h : 0 < n then
    .decimal ⟨false, stripZeros n n, (Nat.toDigits 10 n).length, stripZeros_normal h (Nat.le_refl n)⟩
  else .zero

theorem stripZeros_spec (fuel : Nat) (hpos : 0 < n) :
    ∃ k, n = stripZeros fuel n * 10 ^ k ∧
      (Nat.toDigits 10 n).length = (Nat.toDigits 10 (stripZeros fuel n)).length + k := by
  induction fuel generalizing n with
  | zero => exact ⟨0, by simp [stripZeros], rfl⟩
  | succ fuel ih =>
    rw [stripZeros]
    split_ifs with hlast
    · obtain ⟨k, hvalue, hlength⟩ := ih (n := n / 10) (by omega)
      refine ⟨k + 1, ?_, ?_⟩
      · rw [Nat.pow_succ, ← Nat.mul_assoc, ← hvalue]
        omega
      · rw [Nat.toDigits_eq_if (by decide), if_neg (by omega), List.length_append, hlength]
        rfl
    · exact ⟨0, by simp, rfl⟩

theorem ofNat_injective : Function.Injective ofNat := by
  intro m n h
  unfold ofNat at h
  split_ifs at h with hm hn hn
  · have hdecimal := JsonNumber.decimal.inj h
    have hstrip : stripZeros m m = stripZeros n n := congrArg Decimal.significand hdecimal
    have hplace : ((Nat.toDigits 10 m).length : Int) = (Nat.toDigits 10 n).length :=
      congrArg Decimal.exponent hdecimal
    obtain ⟨k, hvalue, hlength⟩ := stripZeros_spec m hm
    obtain ⟨l, hvalue', hlength'⟩ := stripZeros_spec n hn
    rw [hstrip] at hvalue hlength
    have hkl : k = l := by omega
    rw [hkl] at hvalue
    exact hvalue.trans hvalue'.symm
  · omega

/-- Digits as they stand in a shortest decimal: no zero at either end. -/
structure Trimmed (digits : List Char) : Prop where
  digit : ∀ c ∈ digits, c.isDigit = true
  first : ∃ c rest, digits = c :: rest ∧ c ≠ '0'
  last : ∃ c rest, digits.reverse = c :: rest ∧ c ≠ '0'

theorem isDigit_toDigits (h : c ∈ Nat.toDigits 10 n) : c.isDigit = true :=
  Nat.isDigit_of_mem_toDigits (by decide) (by decide) h

theorem digitChar_ne_zero (hpos : n ≠ 0) (hlt : n < 10) : Nat.digitChar n ≠ '0' := by
  have hall : ∀ m : Fin 10, m.val ≠ 0 → Nat.digitChar m ≠ '0' := by decide
  exact hall ⟨n, hlt⟩ hpos

theorem toDigits_first (hpos : 0 < n) : ∃ c rest, Nat.toDigits 10 n = c :: rest ∧ c ≠ '0' := by
  induction n using Nat.strongRecOn with
  | ind n ih =>
    rw [Nat.toDigits_eq_if (by decide)]
    split_ifs with hsmall
    · exact ⟨Nat.digitChar n, [], rfl, digitChar_ne_zero (by omega) hsmall⟩
    · obtain ⟨c, rest, hdigits, hc⟩ := ih (n / 10) (by omega) (by omega)
      exact ⟨c, rest ++ [Nat.digitChar (n % 10)], by rw [hdigits, List.cons_append], hc⟩

theorem toDigits_last (h : n % 10 ≠ 0) :
    ∃ c rest, (Nat.toDigits 10 n).reverse = c :: rest ∧ c ≠ '0' := by
  rw [Nat.toDigits_eq_if (by decide)]
  split_ifs with hsmall
  · exact ⟨Nat.digitChar n, [], rfl, digitChar_ne_zero (by omega) hsmall⟩
  · refine ⟨Nat.digitChar (n % 10), (Nat.toDigits 10 (n / 10)).reverse, ?_,
      digitChar_ne_zero h (by omega)⟩
    rw [List.reverse_append, List.reverse_cons, List.reverse_nil, List.nil_append,
      List.cons_append, List.nil_append]

theorem Decimal.trimmed (d : Decimal) : Trimmed (Nat.toDigits 10 d.significand) where
  digit _ hc := isDigit_toDigits hc
  first := toDigits_first (by have := d.significand_normal; omega)
  last := toDigits_last d.significand_normal

theorem toDigits_injective {m : Nat} (h : Nat.toDigits 10 m = Nat.toDigits 10 n) : m = n := by
  rw [← Nat.ofDigitChars_ten_toDigits (n := m), h, Nat.ofDigitChars_ten_toDigits]

theorem ne_of_isDigit {d : Char} (hc : c.isDigit = true) (hd : d.isDigit = false) : c ≠ d := by
  rintro rfl
  rw [hc] at hd
  cases hd

def trimZeros (text : List Char) : List Char :=
  ((text.dropWhile (· = '0')).reverse.dropWhile (· = '0')).reverse

theorem dropWhile_zeros (count : Nat) (text : List Char) :
    (List.replicate count '0' ++ text).dropWhile (· = '0') = text.dropWhile (· = '0') := by
  induction count with
  | zero => rfl
  | succ count ih => rw [List.replicate_succ, List.cons_append, List.dropWhile_cons_of_pos rfl, ih]

theorem trimZeros_zeros (h : Trimmed digits) (before after : Nat) :
    trimZeros (List.replicate before '0' ++ (digits ++ List.replicate after '0')) = digits := by
  obtain ⟨c, rest, hfirst, hc⟩ := h.first
  obtain ⟨d, init, hlast, hd⟩ := h.last
  have hstart : (digits ++ List.replicate after '0').dropWhile (· = '0') =
      digits ++ List.replicate after '0' := by
    rw [hfirst, List.cons_append, List.dropWhile_cons_of_neg (by simpa using hc)]
  have hend : digits.reverse.dropWhile (· = '0') = digits.reverse := by
    rw [hlast, List.dropWhile_cons_of_neg (by simpa using hd)]
  rw [trimZeros, dropWhile_zeros, hstart, List.reverse_append, List.reverse_replicate,
    dropWhile_zeros, hend, List.reverse_reverse]

/-- The digits of a number's text. -/
def digitsOf (text : List Char) : List Char :=
  trimZeros ((text.takeWhile (· ≠ 'e')).filter (· ≠ '.'))

theorem filter_point_eq_self (h : ∀ c ∈ text, c.isDigit = true) : text.filter (· ≠ '.') = text :=
  List.filter_eq_self.mpr fun c hc => by simpa using ne_of_isDigit (h c hc) (d := '.') rfl

theorem takeWhile_e_eq_self (h : 'e' ∉ text) : text.takeWhile (· ≠ 'e') = text :=
  List.takeWhile_eq_self_iff.mpr fun c hc => by
    simp only [ne_eq, decide_not, Bool.not_eq_true', decide_eq_false_iff_not]
    rintro rfl
    exact h hc

theorem takeWhile_e_append (h : 'e' ∉ text) : (text ++ 'e' :: rest).takeWhile (· ≠ 'e') = text := by
  rw [List.takeWhile_append_of_pos, List.takeWhile_cons_of_neg (by decide), List.append_nil]
  intro c hc
  simp only [ne_eq, decide_not, Bool.not_eq_true', decide_eq_false_iff_not]
  rintro rfl
  exact h hc

theorem Trimmed.e_notMem (h : Trimmed digits) : 'e' ∉ digits := fun hmem =>
  absurd (h.digit 'e' hmem) (by decide)

theorem Trimmed.point_notMem (h : Trimmed digits) : '.' ∉ digits := fun hmem =>
  absurd (h.digit '.' hmem) (by decide)

theorem mantissa_filter (h : ∀ c ∈ digits, c.isDigit = true) :
    (mantissa digits).filter (· ≠ '.') = digits := by
  unfold mantissa
  split
  · next first second rest =>
    have hfirst : first ≠ '.' := ne_of_isDigit (h first (.head _)) rfl
    have hrest := filter_point_eq_self fun c hc => h c (.tail first hc)
    rw [List.filter_cons_of_pos (by simpa using hfirst), List.filter_cons_of_neg (by decide), hrest]
  · exact filter_point_eq_self h

theorem e_notMem_mantissa (h : Trimmed digits) : 'e' ∉ mantissa digits := by
  have he := h.e_notMem
  unfold mantissa
  split
  · next first second rest =>
    simp only [List.mem_cons, not_or] at he ⊢
    exact ⟨he.1, by decide, he.2⟩
  · exact he

/-- The digits can be read off a number's text, wherever its decimal point is. -/
theorem digitsOf_magnitudeText (h : Trimmed digits) (exponent : Int) :
    digitsOf (magnitudeText digits exponent) = digits := by
  have htrim : trimZeros digits = digits := by
    simpa using trimZeros_zeros h 0 0
  have he := h.e_notMem
  unfold magnitudeText
  split_ifs with hplain hlong hpoint
  · have hmem : ∀ c ∈ digits ++ List.replicate (exponent - digits.length).toNat '0',
        c.isDigit = true := by
      intro c hc
      rcases List.mem_append.mp hc with hc | hc
      · exact h.digit c hc
      · rw [List.eq_of_mem_replicate hc]
        rfl
    rw [digitsOf, takeWhile_e_eq_self, filter_point_eq_self hmem]
    · exact trimZeros_zeros h 0 _
    · intro hc
      exact absurd (hmem 'e' hc) (by decide)
  · have htext : 'e' ∉ digits.take exponent.toNat ++ '.' :: digits.drop exponent.toNat := by
      simp only [List.mem_append, List.mem_cons, not_or]
      exact ⟨fun hc => he (List.mem_of_mem_take hc), by decide,
        fun hc => he (List.mem_of_mem_drop hc)⟩
    rw [digitsOf, takeWhile_e_eq_self htext, List.filter_append,
      List.filter_cons_of_neg (by decide),
      filter_point_eq_self fun c hc => h.digit c (List.mem_of_mem_take hc),
      filter_point_eq_self fun c hc => h.digit c (List.mem_of_mem_drop hc), List.take_append_drop,
      htrim]
  · have hmem : ∀ c ∈ List.replicate (-exponent).toNat '0' ++ digits, c.isDigit = true := by
      intro c hc
      rcases List.mem_append.mp hc with hc | hc
      · rw [List.eq_of_mem_replicate hc]
        rfl
      · exact h.digit c hc
    have htext : 'e' ∉ '0' :: '.' :: (List.replicate (-exponent).toNat '0' ++ digits) := by
      intro hc
      rcases List.mem_cons.mp hc with hc | hc
      · exact absurd hc (by decide)
      rcases List.mem_cons.mp hc with hc | hc
      · exact absurd hc (by decide)
      exact absurd (hmem 'e' hc) (by decide)
    rw [digitsOf, takeWhile_e_eq_self htext, List.filter_cons_of_pos (by decide),
      List.filter_cons_of_neg (by decide), filter_point_eq_self hmem]
    have hzeros := trimZeros_zeros h ((-exponent).toNat + 1) 0
    rwa [List.replicate_succ, List.replicate_zero, List.append_nil, List.cons_append] at hzeros
  · rw [digitsOf, takeWhile_e_append (e_notMem_mantissa h), mantissa_filter h.digit, htrim]

/-- The exponent that a number's text ends with. -/
def readExponent : List Char → Int
  | _ :: sign :: digits =>
    if sign = '-' then 1 - Nat.ofDigitChars 10 digits 0 else 1 + Nat.ofDigitChars 10 digits 0
  | _ => 0

/-- The place of the decimal point in a number's text, given how many digits it has. -/
def exponentOf (count : Nat) (text : List Char) : Int :=
  if 'e' ∈ text then readExponent (text.dropWhile (· ≠ 'e'))
  else if '.' ∈ text then
    if text.head? = some '0' then count + 2 - text.length
    else (text.takeWhile (· ≠ '.')).length
  else text.length

theorem dropWhile_e_append (h : 'e' ∉ text) :
    (text ++ 'e' :: rest).dropWhile (· ≠ 'e') = 'e' :: rest := by
  rw [List.dropWhile_append_of_pos, List.dropWhile_cons_of_neg (by decide)]
  intro c hc
  simp only [ne_eq, decide_not, Bool.not_eq_true', decide_eq_false_iff_not]
  rintro rfl
  exact h hc

theorem takeWhile_point_append (h : '.' ∉ text) :
    (text ++ '.' :: rest).takeWhile (· ≠ '.') = text := by
  rw [List.takeWhile_append_of_pos, List.takeWhile_cons_of_neg (by decide), List.append_nil]
  intro c hc
  simp only [ne_eq, decide_not, Bool.not_eq_true', decide_eq_false_iff_not]
  rintro rfl
  exact h hc

/-- The place of the decimal point can be read off a number's text. -/
theorem exponentOf_magnitudeText (h : Trimmed digits) (exponent : Int) :
    exponentOf digits.length (magnitudeText digits exponent) = exponent := by
  have he := h.e_notMem
  have hp := h.point_notMem
  obtain ⟨c, rest, hfirst, hc⟩ := h.first
  unfold magnitudeText
  split_ifs with hplain hlong hpoint
  · have hzero : ∀ d : Char, d ≠ '0' → d ∉ List.replicate (exponent - digits.length).toNat '0' :=
      fun d hd hmem => hd (List.eq_of_mem_replicate hmem)
    rw [exponentOf, if_neg, if_neg, List.length_append, List.length_replicate]
    · omega
    · rw [List.mem_append, not_or]
      exact ⟨hp, hzero '.' (by decide)⟩
    · rw [List.mem_append, not_or]
      exact ⟨he, hzero 'e' (by decide)⟩
  · have hlt : exponent.toNat < digits.length := by omega
    have hhead : (digits.take exponent.toNat ++ '.' :: digits.drop exponent.toNat).head? ≠
        some '0' := by
      obtain ⟨count, hcount⟩ : ∃ count, exponent.toNat = count + 1 :=
        ⟨exponent.toNat - 1, by omega⟩
      rw [hcount, hfirst, List.take_succ_cons, List.cons_append, List.head?_cons]
      intro heq
      exact hc (Option.some.inj heq)
    rw [exponentOf, if_neg, if_pos, if_neg hhead, takeWhile_point_append, List.length_take]
    · omega
    · exact fun hmem => hp (List.mem_of_mem_take hmem)
    · exact List.mem_append_right _ (.head _)
    · simp only [List.mem_append, List.mem_cons, not_or]
      exact ⟨fun hmem => he (List.mem_of_mem_take hmem), by decide,
        fun hmem => he (List.mem_of_mem_drop hmem)⟩
  · rw [exponentOf, if_neg, if_pos, List.head?_cons, if_pos rfl]
    · simp only [List.length_cons, List.length_append, List.length_replicate]
      omega
    · exact .tail _ (.head _)
    · simp only [List.mem_append, List.mem_cons, not_or]
      exact ⟨by decide, by decide, fun hmem => absurd (List.eq_of_mem_replicate hmem) (by decide),
        he⟩
  · rw [exponentOf, if_pos, dropWhile_e_append (e_notMem_mantissa h), readExponent,
      Nat.ofDigitChars_ten_toDigits, exponentSign]
    · by_cases hneg : exponent < 0
      · rw [if_pos hneg, if_pos rfl]
        omega
      · rw [if_neg hneg, if_neg (by decide)]
        omega
    · exact List.mem_append_right _ (.head _)

theorem magnitudeText_head (h : Trimmed digits) (exponent : Int) :
    ∃ c rest, magnitudeText digits exponent = c :: rest ∧ c.isDigit = true := by
  obtain ⟨c, rest, hfirst, -⟩ := h.first
  have hc := h.digit c (by rw [hfirst]; exact List.mem_cons_self)
  unfold magnitudeText
  split_ifs with hplain hlong hpoint
  · exact ⟨c, rest ++ _, by rw [hfirst, List.cons_append], hc⟩
  · obtain ⟨count, hcount⟩ : ∃ count, exponent.toNat = count + 1 :=
      ⟨exponent.toNat - 1, by omega⟩
    exact ⟨c, _, by rw [hcount, hfirst, List.take_succ_cons, List.cons_append], hc⟩
  · exact ⟨'0', _, rfl, rfl⟩
  · rw [hfirst]
    cases rest with
    | nil => exact ⟨c, _, rfl, hc⟩
    | cons second more => exact ⟨c, _, rfl, hc⟩

theorem magnitudeText_inj {d e : List Char} (hd : Trimmed d) (he : Trimmed e) {m n : Int}
    (h : magnitudeText d m = magnitudeText e n) : d = e ∧ m = n := by
  have hdigits : d = e := by
    rw [← digitsOf_magnitudeText hd m, h, digitsOf_magnitudeText he n]
  subst e
  refine ⟨rfl, ?_⟩
  rw [← exponentOf_magnitudeText hd m, h, exponentOf_magnitudeText hd n]

theorem sign_append_inj {a b : Bool} {d : Char} {s t : List Char} (hc : c.isDigit = true)
    (hd : d.isDigit = true)
    (h : (if a then ['-'] else []) ++ c :: s = (if b then ['-'] else []) ++ d :: t) :
    a = b ∧ c :: s = d :: t := by
  cases a with
  | false =>
    cases b with
    | false => exact ⟨rfl, h⟩
    | true => exact absurd (List.cons.inj h).1 (ne_of_isDigit hc rfl)
  | true =>
    cases b with
    | false => exact absurd (List.cons.inj h).1.symm (ne_of_isDigit hd rfl)
    | true => exact ⟨rfl, (List.cons.inj h).2⟩

theorem numberText_decimal_ne_zero (d : Decimal) : numberText (.decimal d) ≠ numberText .zero := by
  intro h
  obtain ⟨c, rest, hmagnitude, hc⟩ := magnitudeText_head d.trimmed d.exponent
  have hread := digitsOf_magnitudeText d.trimmed d.exponent
  simp only [numberText, hmagnitude] at h
  have hzero := (sign_append_inj (b := false) (d := '0') (t := []) hc rfl h).2
  rw [hmagnitude, hzero] at hread
  exact Nat.toDigits_ne_nil hread.symm

theorem numberText_injective : Function.Injective numberText := by
  intro m n h
  cases m with
  | zero =>
    cases n with
    | zero => rfl
    | decimal d => exact absurd h.symm (numberText_decimal_ne_zero d)
  | decimal d =>
    cases n with
    | zero => exact absurd h (numberText_decimal_ne_zero d)
    | decimal e =>
      obtain ⟨c, s, hd, hc⟩ := magnitudeText_head d.trimmed d.exponent
      obtain ⟨c', t, he, hc'⟩ := magnitudeText_head e.trimmed e.exponent
      rw [numberText, numberText, hd, he] at h
      obtain ⟨hsign, hmagnitude⟩ := sign_append_inj hc hc' h
      rw [← hd, ← he] at hmagnitude
      obtain ⟨hdigits, hexponent⟩ := magnitudeText_inj d.trimmed e.trimmed hmagnitude
      have hsignificand := toDigits_injective hdigits
      cases d
      cases e
      simp only at hsign hsignificand hexponent
      subst hsign hsignificand hexponent
      rfl

def isNumberChar (c : Char) : Bool :=
  c.isDigit || c == '-' || c == '+' || c == '.' || c == 'e'

theorem isNumberChar_of_isDigit (h : c.isDigit = true) : isNumberChar c = true := by
  simp [isNumberChar, h]

theorem isNumberChar_magnitudeText (h : ∀ c ∈ digits, c.isDigit = true) (exponent : Int) :
    ∀ c ∈ magnitudeText digits exponent, isNumberChar c = true := by
  have hdigits : ∀ c ∈ digits, isNumberChar c = true := fun c hc => isNumberChar_of_isDigit (h c hc)
  have hzeros : ∀ count c, c ∈ List.replicate count '0' → isNumberChar c = true := fun count c hc => by
    rw [List.eq_of_mem_replicate hc]
    rfl
  intro c hc
  unfold magnitudeText at hc
  split_ifs at hc with hplain hlong hpoint
  · rcases List.mem_append.mp hc with hc | hc
    · exact hdigits c hc
    · exact hzeros _ c hc
  · rcases List.mem_append.mp hc with hc | hc
    · exact hdigits c (List.mem_of_mem_take hc)
    rcases List.mem_cons.mp hc with rfl | hc
    · rfl
    · exact hdigits c (List.mem_of_mem_drop hc)
  · rcases List.mem_cons.mp hc with rfl | hc
    · rfl
    rcases List.mem_cons.mp hc with rfl | hc
    · rfl
    rcases List.mem_append.mp hc with hc | hc
    · exact hzeros _ c hc
    · exact hdigits c hc
  · rcases List.mem_append.mp hc with hc | hc
    · unfold mantissa at hc
      split at hc
      · next first second rest =>
        rcases List.mem_cons.mp hc with rfl | hc
        · exact hdigits c (.head _)
        rcases List.mem_cons.mp hc with rfl | hc
        · rfl
        · exact hdigits c (.tail _ hc)
      · exact hdigits c hc
    rcases List.mem_cons.mp hc with rfl | hc
    · rfl
    rcases List.mem_cons.mp hc with rfl | hc
    · unfold exponentSign
      split_ifs <;> rfl
    · exact isNumberChar_of_isDigit (isDigit_toDigits hc)

theorem isNumberChar_numberText (n : JsonNumber) : ∀ c ∈ numberText n, isNumberChar c = true := by
  intro c hc
  cases n with
  | zero =>
    rw [numberText, List.mem_singleton] at hc
    rw [hc]
    rfl
  | decimal d =>
    rcases List.mem_append.mp hc with hc | hc
    · split_ifs at hc with hsign
      · rw [List.mem_singleton.mp hc]
        rfl
      · exact absurd hc List.not_mem_nil
    · exact isNumberChar_magnitudeText d.trimmed.digit d.exponent c hc

theorem numberText_head (n : JsonNumber) :
    ∃ c rest, numberText n = c :: rest ∧ isNumberChar c = true := by
  cases htext : numberText n with
  | nil =>
    cases n with
    | zero => cases htext
    | decimal d =>
      obtain ⟨c, rest, hd, -⟩ := magnitudeText_head d.trimmed d.exponent
      rw [numberText, hd] at htext
      exact absurd (List.append_eq_nil_iff.mp htext).2 (List.cons_ne_nil c rest)
  | cons c rest =>
    exact ⟨c, rest, rfl, isNumberChar_numberText n c (by rw [htext]; exact List.mem_cons_self)⟩

end Stynx.JsonTokens
