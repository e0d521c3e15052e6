import Mathlib.Data.List.TakeWhile

/-!
# The grammar of JSON texts

JSON texts as RFC 8259 has them, over UTF-16 code units: white space, numbers,
strings with their escapes, arrays and objects, each with the value it stands
for. A string token is decoded to the code units it names. What a number token
stands for is left to the reader of numbers.
-/

namespace Stynx.JsonGrammar

/-- A string of UTF-16 code units. -/
abbrev Units := List UInt16

/-- The code unit of a character of the basic plane. -/
def unit (c : Char) : UInt16 := UInt16.ofNat c.toNat

def isSpace (c : UInt16) : Bool :=
  c == unit ' ' || c == unit '\t' || c == unit '\r' || c == unit '\n'

def isDigit (c : UInt16) : Bool := unit '0' ≤ c && c ≤ unit '9'

def Spaces (text : Units) : Prop := ∀ c ∈ text, isSpace c = true

def Digits (text : Units) : Prop := ∀ c ∈ text, isDigit c = true

inductive IsInt : Units → Prop
  | zero : IsInt [unit '0']
  | more {d : UInt16} {ds : Units} : isDigit d = true → d ≠ unit '0' → Digits ds → IsInt (d :: ds)

inductive IsFrac : Units → Prop
  | none : IsFrac []
  | point {d : UInt16} {ds : Units} : Digits (d :: ds) → IsFrac (unit '.' :: d :: ds)

/-- The optional sign of an exponent. -/
def IsSign (sign : Units) : Prop := sign = [] ∨ sign = [unit '+'] ∨ sign = [unit '-']

inductive IsExp : Units → Prop
  | none : IsExp []
  | exp {e d : UInt16} {sign ds : Units} : e = unit 'e' ∨ e = unit 'E' → IsSign sign →
      Digits (d :: ds) → IsExp (e :: (sign ++ d :: ds))

inductive IsNumber : Units → Prop
  | mk {sign int frac exp : Units} : sign = [] ∨ sign = [unit '-'] → IsInt int → IsFrac frac →
      IsExp exp → IsNumber (sign ++ (int ++ (frac ++ exp)))

/-- The code unit that a two-character escape names. -/
def shortUnit (letter : UInt16) : Option UInt16 :=
  if letter = unit '"' ∨ letter = unit '\\' ∨ letter = unit '/' then some letter
  else if letter = unit 'b' then some 8 else if letter = unit 'f' then some 12
  else if letter = unit 'n' then some 10 else if letter = unit 'r' then some 13
  else if letter = unit 't' then some 9 else none

/-- The value of a hexadecimal digit. -/
def hexDigit (c : UInt16) : Option Nat :=
  if isDigit c then some (c.toNat - 48)
  else if unit 'a' ≤ c ∧ c ≤ unit 'f' then some (c.toNat - 87)
  else if unit 'A' ≤ c ∧ c ≤ unit 'F' then some (c.toNat - 55) else none

/-- The code unit that four hexadecimal digits name. -/
def hexUnit (a b c d : UInt16) : Option UInt16 := do
  let a ← hexDigit a
  let b ← hexDigit b
  let c ← hexDigit c
  let d ← hexDigit d
  some (UInt16.ofNat (a * 4096 + b * 256 + c * 16 + d))

/-- A character that stands in a string as it is. -/
def isUnescaped (c : UInt16) : Bool := 0x20 ≤ c && c != unit '"' && c != unit '\\'

/-- `char`, with the code unit it names. -/
inductive IsChar : Units → UInt16 → Prop
  | plain {c : UInt16} : isUnescaped c = true → IsChar [c] c
  | short {letter c : UInt16} : shortUnit letter = some c → IsChar [unit '\\', letter] c
  | unicode {a b c d u : UInt16} : hexUnit a b c d = some u →
      IsChar [unit '\\', unit 'u', a, b, c, d] u

/-- `*char`, with the code units it names. -/
inductive IsChars : Units → Units → Prop
  | nil : IsChars [] []
  | cons {text rest s : Units} {u : UInt16} : IsChar text u → IsChars rest s →
      IsChars (text ++ rest) (u :: s)

def IsString (token s : Units) : Prop :=
  ∃ chars, token = unit '"' :: (chars ++ [unit '"']) ∧ IsChars chars s

/-- What four hexadecimal digits name. -/
def readHex : Units → Option (UInt16 × Units)
  | a :: b :: c :: d :: rest => (hexUnit a b c d).map (·, rest)
  | _ => none

/-- What an escape names, from behind its backslash. -/
def readEscape : Units → Option (UInt16 × Units)
  | [] => none
  | letter :: rest =>
    if letter = unit 'u' then readHex rest else (shortUnit letter).map (·, rest)

/-- A character of a string and what follows it. -/
def readChar : Units → Option (UInt16 × Units)
  | [] => none
  | c :: rest =>
    if c = unit '\\' then readEscape rest
    else if isUnescaped c then some (c, rest) else none

/-- Characters up to a quotation mark that ends the text. -/
def decodeChars : Nat → Units → Option Units
  | 0, _ => none
  | fuel + 1, text =>
    if text = [unit '"'] then some []
    else (readChar text).bind fun p => (decodeChars fuel p.2).map (p.1 :: ·)

/-- `JSON.parse` of a string token. -/
def decodeString : Units → Option Units
  | [] => none
  | first :: rest => if first = unit '"' then decodeChars rest.length rest else none

variable {text s : Units} {u : UInt16} {fuel : Nat}

theorem IsChar.length_pos (h : IsChar text u) : 0 < text.length := by
  cases h <;> simp

theorem IsChar.readChar (h : IsChar text u) (rest : Units) :
    readChar (text ++ rest) = some (u, rest) := by
  cases h with
  | plain hc =>
    have hne : u ≠ unit '\\' := by
      simp only [isUnescaped, Bool.and_eq_true, bne_iff_ne] at hc
      exact hc.2
    simp only [List.cons_append, List.nil_append, JsonGrammar.readChar, if_neg hne, if_pos hc]
  | @short letter c hletter =>
    have hu : letter ≠ unit 'u' := by
      intro hu
      rw [hu, show shortUnit (unit 'u') = none by decide] at hletter
      cases hletter
    simp only [List.cons_append, List.nil_append, JsonGrammar.readChar, if_pos, readEscape, if_neg hu,
      hletter, Option.map_some]
  | unicode hunit =>
    simp only [List.cons_append, List.nil_append, JsonGrammar.readChar, if_pos, readEscape, readHex, hunit,
      Option.map_some]

theorem isChar_of_readChar {rest : Units} (h : readChar text = some (u, rest)) :
    ∃ t, text = t ++ rest ∧ IsChar t u := by
  cases text with
  | nil => cases h
  | cons c text =>
    rw [readChar] at h
    split_ifs at h with hback hplain
    · cases text with
      | nil => cases h
      | cons letter text =>
        rw [readEscape] at h
        split_ifs at h with hu
        · match text, h with
          | a :: b :: c :: d :: text, h =>
            rw [readHex] at h
            obtain ⟨v, hv, heq⟩ := Option.map_eq_some_iff.mp h
            obtain ⟨rfl, rfl⟩ := Prod.mk.inj heq
            exact ⟨_, by rw [hback, hu]; rfl, IsChar.unicode hv⟩
        · obtain ⟨v, hv, heq⟩ := Option.map_eq_some_iff.mp h
          obtain ⟨rfl, rfl⟩ := Prod.mk.inj heq
          exact ⟨_, by rw [hback]; rfl, IsChar.short hv⟩
    · obtain ⟨rfl, rfl⟩ := Prod.mk.inj (Option.some.inj h)
      exact ⟨_, rfl, IsChar.plain hplain⟩

theorem decodeChars_of_isChars {chars : Units} (h : IsChars chars s) (hfuel : chars.length < fuel) :
    decodeChars fuel (chars ++ [unit '"']) = some s := by
  induction h generalizing fuel with
  | nil =>
    cases fuel with
    | zero => cases hfuel
    | succ fuel => rfl
  | @cons text rest s u hchar _ ih =>
    cases fuel with
    | zero => cases hfuel
    | succ fuel =>
      have hpos := hchar.length_pos
      rw [List.length_append] at hfuel
      have hne : text ++ rest ++ [unit '"'] ≠ [unit '"'] := by
        intro heq
        have hlength := congrArg List.length heq
        simp only [List.length_append, List.length_singleton] at hlength
        omega
      rw [decodeChars, if_neg hne, List.append_assoc, hchar.readChar, Option.bind_some,
        ih (by omega), Option.map_some]

theorem isChars_of_decodeChars (h : decodeChars fuel text = some s) :
    ∃ chars, text = chars ++ [unit '"'] ∧ IsChars chars s := by
  induction fuel generalizing text s with
  | zero => cases h
  | succ fuel ih =>
    rw [decodeChars] at h
    split_ifs at h with hend
    · rw [hend, ← Option.some.inj h]
      exact ⟨[], rfl, IsChars.nil⟩
    · obtain ⟨p, hp, hrest⟩ := Option.bind_eq_some_iff.mp h
      obtain ⟨s', hs', rfl⟩ := Option.map_eq_some_iff.mp hrest
      obtain ⟨t, htext, hchar⟩ := isChar_of_readChar hp
      obtain ⟨chars, hchars, hs⟩ := ih hs'
      exact ⟨t ++ chars, by rw [htext, hchars, List.append_assoc], IsChars.cons hchar hs⟩

theorem decodeString_eq_some {token : Units} : decodeString token = some s ↔ IsString token s := by
  constructor
  · intro h
    cases token with
    | nil => cases h
    | cons first rest =>
      rw [decodeString] at h
      split_ifs at h with hfirst
      obtain ⟨chars, hrest, hs⟩ := isChars_of_decodeChars h
      exact ⟨chars, by rw [hfirst, hrest], hs⟩
  · rintro ⟨chars, rfl, hs⟩
    rw [decodeString, if_pos rfl]
    exact decodeChars_of_isChars hs (by simp)

/-- A JSON value with numbers of some type. -/
inductive Value (N : Type) where
  | null
  /-- A truth value. -/
  | bool (b : Bool)
  | num (n : N)
  | str (s : Units)
  | arr (items : List (Value N))
  /-- An object, its members as they stand in the text. -/
  | obj (members : List (Units × Value N))

variable {N : Type} (readNumber : Units → N)

def literal (text : List Char) : Units := text.map unit

mutual

/-- The texts of a value, from its first to its last character. -/
def IsValue : Value N → Units → Prop
  | .null, text => text = literal ['n', 'u', 'l', 'l']
  | .bool true, text => text = literal ['t', 'r', 'u', 'e']
  | .bool false, text => text = literal ['f', 'a', 'l', 's', 'e']
  | .num n, text => IsNumber text ∧ readNumber text = n
  | .str s, text => IsString text s
  | .arr items, text => ∃ body, text = unit '[' :: (body ++ [unit ']']) ∧
      (items = [] ∧ Spaces body ∨ IsElements items body)
  | .obj members, text => ∃ body, text = unit '{' :: (body ++ [unit '}']) ∧
      (members = [] ∧ Spaces body ∨ IsMembers members body)

/-- The elements of an array, with white space around each. -/
def IsElements : List (Value N) → Units → Prop
  | [], _ => False
  | v :: vs, text => ∃ before core after tail, Spaces before ∧ IsValue v core ∧ Spaces after ∧
      text = before ++ (core ++ (after ++ tail)) ∧
        (vs = [] ∧ tail = [] ∨ ∃ rest, tail = unit ',' :: rest ∧ IsElements vs rest)

/-- The members of an object, with white space around each name and value. -/
def IsMembers : List (Units × Value N) → Units → Prop
  | [], _ => False
  | (key, v) :: ms, text => ∃ first name second before core after tail,
      Spaces first ∧ IsString name key ∧ Spaces second ∧
      Spaces before ∧ IsValue v core ∧ Spaces after ∧
      text = first ++ (name ++ (second ++ unit ':' :: (before ++ (core ++ (after ++ tail))))) ∧
        (ms = [] ∧ tail = [] ∨ ∃ rest, tail = unit ',' :: rest ∧ IsMembers ms rest)

end

def IsText (v : Value N) (text : Units) : Prop :=
  ∃ before core after, Spaces before ∧ IsValue readNumber v core ∧ Spaces after ∧
    text = before ++ (core ++ after)

mutual

/-- No object has two members with one name. -/
def Value.Distinct : Value N → Prop
  | .arr items => DistinctItems items
  | .obj members => (members.map Prod.fst).Nodup ∧ DistinctMembers members
  | _ => True

/-- Nor has any object of an array. -/
def DistinctItems : List (Value N) → Prop
  | [] => True
  | v :: vs => v.Distinct ∧ DistinctItems vs

/-- Nor has any object under an object. -/
def DistinctMembers : List (Units × Value N) → Prop
  | [] => True
  | (_, v) :: ms => v.Distinct ∧ DistinctMembers ms

end

end Stynx.JsonGrammar
