import Mathlib.Data.List.Basic
import Stynx.JsonGrammar

/-!
# The strict JSON reader of imports

`parseImportJson` of the offline-sync import validation, over the code units of
its text. A string is cut out at its closing quotation mark and a number by the
expression for tokens before `JSON.parse` decodes them. What is read is what the
grammar of RFC 8259 derives; a name that an object has twice is refused before
its value is read.

What a number token stands for is a parameter.
-/

namespace Stynx.ImportJson

open JsonGrammar

/-- The reason that `importRefuse` gives. -/
inductive Refusal where
  | jsonString
  | jsonProperty
  | duplicateJsonProperty
  | jsonColon
  | jsonSeparator
  | jsonValue
  | jsonTrailing
  | jsonSyntax
  /-- No result: the reader was not given enough steps. -/
  | exhausted

def whitespace (text : Units) : Units := text.dropWhile isSpace

/-- The loop of `string`, from behind the opening quotation mark. -/
def scanString : Units → Option (Units × Units)
  | [] => none
  | [c] => if c = unit '"' then some ([c], []) else none
  | c :: d :: rest =>
    if c = unit '"' then some ([c], d :: rest)
    else if c = unit '\\' then (scanString rest).map fun p => (c :: d :: p.1, p.2)
    else (scanString (d :: rest)).map fun p => (c :: p.1, p.2)

/-- `string`, from behind the opening quotation mark. -/
def string (text : Units) : Except Refusal (Units × Units) :=
  match scanString text with
  | none => .error .jsonString
  | some (token, rest) =>
    match decodeString (unit '"' :: token) with
    | none => .error .jsonSyntax
    | some s => .ok (s, rest)

def minusToken : Units → Units × Units
  | c :: rest => if c = unit '-' then ([c], rest) else ([], c :: rest)
  | [] => ([], [])

def intToken : Units → Option (Units × Units)
  | [] => none
  | c :: rest =>
    if c = unit '0' then some ([c], rest)
    else if isDigit c then some (c :: rest.takeWhile isDigit, rest.dropWhile isDigit) else none

def fracToken : Units → Units × Units
  | c :: d :: rest =>
    if c = unit '.' ∧ isDigit d = true then
      (c :: d :: rest.takeWhile isDigit, rest.dropWhile isDigit)
    else ([], c :: d :: rest)
  | text => ([], text)

def signToken : Units → Units × Units
  | c :: rest => if c = unit '+' ∨ c = unit '-' then ([c], rest) else ([], c :: rest)
  | [] => ([], [])

def expToken : Units → Units × Units
  | e :: rest =>
    if e = unit 'e' ∨ e = unit 'E' then
      match (signToken rest).2 with
      | d :: ds =>
        if isDigit d then
          (e :: ((signToken rest).1 ++ d :: ds.takeWhile isDigit), ds.dropWhile isDigit)
        else ([], e :: rest)
      | [] => ([], e :: rest)
    else ([], e :: rest)
  | [] => ([], [])

def numberToken (text : Units) : Option (Units × Units) :=
  (intToken (minusToken text).2).map fun int =>
    ((minusToken text).1 ++ (int.1 ++ ((fracToken int.2).1 ++ (expToken (fracToken int.2).2).1)),
      (expToken (fracToken int.2).2).2)

def afterLiteral (name text : Units) : Option Units :=
  if name.isPrefixOf text then some (text.drop name.length) else none

section

variable {N : Type} (readNumber : Units → N)

/-- `token`, with the value that `JSON.parse` gives it. -/
def token (text : Units) : Option (Value N × Units) :=
  match afterLiteral (literal ['t', 'r', 'u', 'e']) text with
  | some rest => some (.bool true, rest)
  | none =>
    match afterLiteral (literal ['f', 'a', 'l', 's', 'e']) text with
    | some rest => some (.bool false, rest)
    | none =>
      match afterLiteral (literal ['n', 'u', 'l', 'l']) text with
      | some rest => some (.null, rest)
      | none => (numberToken text).map fun p => (.num (readNumber p.1), p.2)

/-- A property's name up to its colon. With `unique` no name before it may be the same. -/
def property (unique : Bool) (keys : List Units) (text : Units) : Except Refusal (Units × Units) :=
  if (whitespace text).head? ≠ some (unit '"') then .error .jsonProperty
  else
    match string (whitespace text).tail with
    | .error refusal => .error refusal
    | .ok (key, rest) =>
      if unique = true ∧ key ∈ keys then .error .duplicateJsonProperty
      else if (whitespace rest).head? = some (unit ':') then .ok (key, (whitespace rest).tail)
      else .error .jsonColon

/-- What follows a value: the closing bracket, or a comma. -/
def separator (close : UInt16) (text : Units) : Except Refusal (Bool × Units) :=
  if (whitespace text).head? = some close then .ok (true, (whitespace text).tail)
  else if (whitespace text).head? = some (unit ',') then .ok (false, (whitespace text).tail)
  else .error .jsonSeparator

variable (unique : Bool)

mutual

def value : Nat → Units → Except Refusal (Value N × Units)
  | 0, _ => .error .exhausted
  | fuel + 1, text =>
    match whitespace text with
    | [] => .error .jsonValue
    | char :: rest =>
      if char = unit '"' then (string rest).map fun p => (.str p.1, p.2)
      else if char = unit '{' then
        if (whitespace rest).head? = some (unit '}') then .ok (.obj [], (whitespace rest).tail)
        else (members fuel [] (whitespace rest)).map fun p => (.obj p.1, p.2)
      else if char = unit '[' then
        if (whitespace rest).head? = some (unit ']') then .ok (.arr [], (whitespace rest).tail)
        else (elements fuel [] (whitespace rest)).map fun p => (.arr p.1, p.2)
      else
        match token readNumber (char :: rest) with
        | none => .error .jsonValue
        | some p => .ok p

/-- The loop of `value` in an object, after some members. -/
def members : Nat → List (Units × Value N) → Units → Except Refusal (List (Units × Value N) × Units)
  | 0, _, _ => .error .exhausted
  | fuel + 1, result, text =>
    match property unique (result.map Prod.fst) text with
    | .error refusal => .error refusal
    | .ok (key, rest) =>
      match value fuel rest with
      | .error refusal => .error refusal
      | .ok (entry, rest) =>
        match separator (unit '}') rest with
        | .error refusal => .error refusal
        | .ok (true, rest) => .ok (result ++ [(key, entry)], rest)
        | .ok (false, rest) => members fuel (result ++ [(key, entry)]) rest

/-- The loop of `value` in an array, after some elements. -/
def elements : Nat → List (Value N) → Units → Except Refusal (List (Value N) × Units)
  | 0, _, _ => .error .exhausted
  | fuel + 1, result, text =>
    match value fuel text with
    | .error refusal => .error refusal
    | .ok (entry, rest) =>
      match separator (unit ']') rest with
      | .error refusal => .error refusal
      | .ok (true, rest) => .ok (result ++ [entry], rest)
      | .ok (false, rest) => elements fuel (result ++ [entry]) rest

end

/-- A value and nothing but white space after it. -/
def readText (text : Units) : Except Refusal (Value N) :=
  match value readNumber unique (2 * text.length + 1) text with
  | .error refusal => .error refusal
  | .ok (parsed, rest) => if whitespace rest = [] then .ok parsed else .error .jsonTrailing

end

def parseImportJson {N : Type} (readNumber : Units → N) (text : Units) :
    Except Refusal (Value N) := readText readNumber true text

/-- A text that no number goes on with. -/
def Stops (text : Units) : Prop :=
  ∀ c rest, text = c :: rest → isDigit c = false ∧ c ≠ unit '.' ∧ c ≠ unit 'e' ∧ c ≠ unit 'E'

def NoDigit (text : Units) : Prop := ∀ c rest, text = c :: rest → isDigit c = false

variable {text rest t s int : Units} {c d : UInt16}

theorem Stops.noDigit (h : Stops text) : NoDigit text := fun c rest heq =>
  (h c rest heq).1

theorem takeWhile_digits {ds : Units} (hds : Digits ds) (hrest : NoDigit rest) :
    (ds ++ rest).takeWhile isDigit = ds ∧ (ds ++ rest).dropWhile isDigit = rest := by
  rw [List.takeWhile_append_of_pos hds, List.dropWhile_append_of_pos hds]
  cases rest with
  | nil => simp
  | cons c rest =>
    have hc : ¬isDigit c = true := by simp [hrest c rest rfl]
    rw [List.takeWhile_cons_of_neg hc, List.dropWhile_cons_of_neg hc, List.append_nil]
    exact ⟨rfl, rfl⟩

theorem digits_takeWhile (text : Units) : Digits (text.takeWhile isDigit) := fun _ hc =>
  List.mem_takeWhile_imp hc

theorem takeWhile_spaces {w : Units} (hw : Spaces w)
    (hrest : ∀ c more, rest = c :: more → isSpace c = false) : whitespace (w ++ rest) = rest := by
  rw [whitespace, List.dropWhile_append_of_pos hw]
  cases rest with
  | nil => rfl
  | cons c rest => rw [List.dropWhile_cons_of_neg (by simp [hrest c rest rfl])]

theorem whitespace_spec (text : Units) : ∃ w, Spaces w ∧ text = w ++ whitespace text :=
  ⟨text.takeWhile isSpace, fun _ hc => List.mem_takeWhile_imp hc,
    List.takeWhile_append_dropWhile.symm⟩

theorem whitespace_whitespace (text : Units) : whitespace (whitespace text) = whitespace text := by
  induction text with
  | nil => rfl
  | cons c text ih =>
    cases hc : isSpace c with
    | true =>
      rw [show whitespace (c :: text) = whitespace text from List.dropWhile_cons_of_pos hc, ih]
    | false =>
      have hsame : whitespace (c :: text) = c :: text :=
        List.dropWhile_cons_of_neg (ne_true_of_eq_false hc)
      rw [hsame, hsame]

theorem isDigit_ne (hc : isDigit c = true) (hd : isDigit d = false) : c ≠ d := by
  rintro rfl
  rw [hc] at hd
  cases hd

theorem scanString_cons (hquote : c ≠ unit '"') (hback : c ≠ unit '\\') :
    scanString (c :: d :: rest) = (scanString (d :: rest)).map fun p => (c :: p.1, p.2) := by
  rw [scanString, if_neg hquote, if_neg hback]

theorem scanString_escape (d : UInt16) (rest : Units) :
    scanString (unit '\\' :: d :: rest) =
      (scanString rest).map fun p => (unit '\\' :: d :: p.1, p.2) := by
  rw [scanString, if_neg (by decide), if_pos rfl]

theorem hexDigit_plain {n : Nat} (h : hexDigit c = some n) : c ≠ unit '"' ∧ c ≠ unit '\\' := by
  have hquote : hexDigit (unit '"') = none := by decide
  have hback : hexDigit (unit '\\') = none := by decide
  constructor
  · rintro rfl
    rw [hquote] at h
    cases h
  · rintro rfl
    rw [hback] at h
    cases h

theorem hexUnit_plain {a b u : UInt16} (h : hexUnit a b c d = some u) {x : UInt16}
    (hx : x ∈ [a, b, c, d]) : x ≠ unit '"' ∧ x ≠ unit '\\' := by
  simp only [hexUnit, Option.bind_eq_bind, Option.bind_eq_some_iff] at h
  obtain ⟨_, ha, _, hb, _, hc, _, hd, -⟩ := h
  simp only [List.mem_cons, List.not_mem_nil, or_false] at hx
  rcases hx with rfl | rfl | rfl | rfl
  · exact hexDigit_plain ha
  · exact hexDigit_plain hb
  · exact hexDigit_plain hc
  · exact hexDigit_plain hd

theorem scanString_char {u : UInt16} (h : IsChar t u) (d : UInt16) (rest : Units) :
    scanString (t ++ d :: rest) = (scanString (d :: rest)).map fun p => (t ++ p.1, p.2) := by
  cases h with
  | plain hc =>
    simp only [isUnescaped, Bool.and_eq_true, bne_iff_ne] at hc
    exact scanString_cons hc.1.2 hc.2
  | short => exact scanString_escape _ _
  | @unicode a b c e u hunit =>
    have ha := hexUnit_plain hunit (x := a) (by simp)
    have hb := hexUnit_plain hunit (x := b) (by simp)
    have hc := hexUnit_plain hunit (x := c) (by simp)
    have he := hexUnit_plain hunit (x := e) (by simp)
    simp only [List.cons_append, List.nil_append]
    rw [scanString_escape, scanString_cons ha.1 ha.2, scanString_cons hb.1 hb.2,
      scanString_cons hc.1 hc.2, scanString_cons he.1 he.2]
    simp only [Option.map_map]
    rfl

theorem scanString_chars {chars : Units} (h : IsChars chars s) (rest : Units) :
    scanString (chars ++ unit '"' :: rest) = some (chars ++ [unit '"'], rest) := by
  induction h with
  | nil =>
    cases rest with
    | nil => rfl
    | cons d rest => rw [List.nil_append, scanString, if_pos rfl, List.nil_append]
  | @cons t more s u hchar _ ih =>
    have hnext : ∃ d rest', more ++ unit '"' :: rest = d :: rest' := by
      cases more with
      | nil => exact ⟨_, _, rfl⟩
      | cons d more => exact ⟨d, _, rfl⟩
    obtain ⟨d, rest', hmore⟩ := hnext
    rw [hmore] at ih
    rw [List.append_assoc, hmore, scanString_char hchar, ih, Option.map_some, List.append_assoc]

theorem scanString_split {token : Units} (h : scanString text = some (token, rest)) :
    text = token ++ rest := by
  induction text using scanString.induct generalizing token rest with
  | case1 => cases h
  | case2 =>
    rw [scanString, if_pos rfl] at h
    obtain ⟨rfl, rfl⟩ := Prod.mk.inj (Option.some.inj h)
    rfl
  | case3 c hquote =>
    rw [scanString, if_neg hquote] at h
    cases h
  | case4 d more =>
    rw [scanString, if_pos rfl] at h
    obtain ⟨rfl, rfl⟩ := Prod.mk.inj (Option.some.inj h)
    rfl
  | case5 d more hquote ih =>
    rw [scanString_escape] at h
    obtain ⟨p, hp, heq⟩ := Option.map_eq_some_iff.mp h
    obtain ⟨rfl, rfl⟩ := Prod.mk.inj heq
    simp only [List.cons_append, ← ih hp]
  | case6 c d more hquote hback ih =>
    rw [scanString_cons hquote hback] at h
    obtain ⟨p, hp, heq⟩ := Option.map_eq_some_iff.mp h
    obtain ⟨rfl, rfl⟩ := Prod.mk.inj heq
    simp only [List.cons_append, ← ih hp]

theorem string_of_isString {token : Units} (h : IsString token s) (rest : Units) :
    string (token.tail ++ rest) = .ok (s, rest) := by
  obtain ⟨chars, rfl, hchars⟩ := h
  have hdecode : decodeString (unit '"' :: (chars ++ [unit '"'])) = some s :=
    decodeString_eq_some.mpr ⟨chars, rfl, hchars⟩
  rw [List.tail_cons, List.append_assoc, List.singleton_append, string, scanString_chars hchars]
  simp only [hdecode]

theorem isString_of_string (h : string text = .ok (s, rest)) :
    ∃ token, unit '"' :: text = token ++ rest ∧ IsString token s := by
  unfold string at h
  cases hscan : scanString text with
  | none =>
    rw [hscan] at h
    cases h
  | some p =>
    obtain ⟨token, rest'⟩ := p
    simp only [hscan] at h
    cases hdecode : decodeString (unit '"' :: token) with
    | none =>
      rw [hdecode] at h
      cases h
    | some s' =>
      rw [hdecode] at h
      obtain ⟨rfl, rfl⟩ := Prod.mk.inj (Except.ok.inj h)
      exact ⟨unit '"' :: token, by rw [scanString_split hscan, List.cons_append],
        decodeString_eq_some.mp hdecode⟩

theorem isInt_head (h : IsInt int) : ∃ c rest, int = c :: rest ∧ isDigit c = true := by
  cases h with
  | zero => exact ⟨_, _, rfl, by decide⟩
  | more hd _ _ => exact ⟨_, _, rfl, hd⟩

theorem intToken_of_isInt (h : IsInt int) (hrest : NoDigit rest) :
    intToken (int ++ rest) = some (int, rest) := by
  cases h with
  | zero => rw [List.cons_append, intToken, if_pos rfl, List.nil_append]
  | more hd hzero hds =>
    have hdigits := takeWhile_digits hds hrest
    rw [List.cons_append, intToken, if_neg hzero, if_pos hd, hdigits.1, hdigits.2]

theorem isInt_of_intToken (h : intToken text = some (int, rest)) :
    text = int ++ rest ∧ IsInt int := by
  cases text with
  | nil => cases h
  | cons c text =>
    rw [intToken] at h
    split_ifs at h with hzero hdigit
    · obtain ⟨rfl, rfl⟩ := Prod.mk.inj (Option.some.inj h)
      rw [hzero]
      exact ⟨rfl, IsInt.zero⟩
    · obtain ⟨rfl, rfl⟩ := Prod.mk.inj (Option.some.inj h)
      rw [List.cons_append, List.takeWhile_append_dropWhile]
      exact ⟨rfl, IsInt.more hdigit hzero (digits_takeWhile text)⟩

/-- A text that no fraction starts. -/
def NoPoint (text : Units) : Prop := ∀ c rest, text = c :: rest → c ≠ unit '.'

theorem fracToken_of_isFrac {frac : Units} (h : IsFrac frac) (hdigit : NoDigit rest)
    (hpoint : NoPoint rest) : fracToken (frac ++ rest) = (frac, rest) := by
  cases h with
  | none =>
    rw [List.nil_append]
    match rest, hpoint with
    | [], _ => rfl
    | [_], _ => rfl
    | c :: d :: rest, hpoint =>
      rw [fracToken, if_neg fun hc => hpoint c _ rfl hc.1]
  | @point d ds hds =>
    have hrest : Digits ds := fun c hc => hds c (.tail _ hc)
    have hdigits := takeWhile_digits hrest hdigit
    rw [List.cons_append, List.cons_append, fracToken, if_pos ⟨rfl, hds d List.mem_cons_self⟩,
      hdigits.1, hdigits.2]

theorem isFrac_fracToken (text : Units) :
    text = (fracToken text).1 ++ (fracToken text).2 ∧ IsFrac (fracToken text).1 := by
  match text with
  | [] => exact ⟨rfl, IsFrac.none⟩
  | [_] => exact ⟨rfl, IsFrac.none⟩
  | c :: d :: text =>
    rw [fracToken]
    split_ifs with hpoint
    · refine ⟨by simp, ?_⟩
      rw [hpoint.1]
      refine IsFrac.point fun x hx => ?_
      rcases List.mem_cons.mp hx with rfl | hx
      · exact hpoint.2
      · exact digits_takeWhile text x hx
    · exact ⟨rfl, IsFrac.none⟩

theorem signToken_of_isSign {sign : Units} (h : IsSign sign) (hd : isDigit d = true) :
    signToken (sign ++ d :: rest) = (sign, d :: rest) := by
  rcases h with rfl | rfl | rfl
  · have hplus : d ≠ unit '+' := isDigit_ne hd (by decide)
    have hminus : d ≠ unit '-' := isDigit_ne hd (by decide)
    rw [List.nil_append, signToken, if_neg (not_or.mpr ⟨hplus, hminus⟩)]
  · rw [List.singleton_append, signToken, if_pos (.inl rfl)]
  · rw [List.singleton_append, signToken, if_pos (.inr rfl)]

theorem isSign_signToken (text : Units) :
    text = (signToken text).1 ++ (signToken text).2 ∧ IsSign (signToken text).1 := by
  cases text with
  | nil => exact ⟨rfl, .inl rfl⟩
  | cons c text =>
    rw [signToken]
    split_ifs with hsign
    · refine ⟨rfl, ?_⟩
      rcases hsign with rfl | rfl
      · exact .inr (.inl rfl)
      · exact .inr (.inr rfl)
    · exact ⟨rfl, .inl rfl⟩

def NoExponent (text : Units) : Prop :=
  ∀ c rest, text = c :: rest → c ≠ unit 'e' ∧ c ≠ unit 'E'

theorem expToken_of_isExp {exp : Units} (h : IsExp exp) (hdigit : NoDigit rest)
    (hexp : NoExponent rest) : expToken (exp ++ rest) = (exp, rest) := by
  cases h with
  | none =>
    rw [List.nil_append]
    cases rest with
    | nil => rfl
    | cons c rest =>
      have hc := hexp c rest rfl
      rw [expToken, if_neg (not_or.mpr hc)]
  | @exp e d sign ds he hsign hds =>
    have hd := hds d (.head _)
    have hrest : Digits ds := fun c hc => hds c (.tail _ hc)
    have hdigits := takeWhile_digits hrest hdigit
    rw [List.cons_append, List.append_assoc, List.cons_append, expToken, if_pos he,
      signToken_of_isSign hsign hd]
    simp only [if_pos hd, hdigits.1, hdigits.2]

theorem isExp_expToken (text : Units) :
    text = (expToken text).1 ++ (expToken text).2 ∧ IsExp (expToken text).1 := by
  cases text with
  | nil => exact ⟨rfl, IsExp.none⟩
  | cons e text =>
    rw [expToken]
    split_ifs with he
    · obtain ⟨hsplit, hsign⟩ := isSign_signToken text
      cases hafter : (signToken text).2 with
      | nil => exact ⟨rfl, IsExp.none⟩
      | cons d ds =>
        rw [hafter] at hsplit
        dsimp only
        split_ifs with hd
        · constructor
          · simp only [List.cons_append, List.append_assoc, List.takeWhile_append_dropWhile]
            rw [← hsplit]
          · refine IsExp.exp he hsign fun x hx => ?_
            rcases List.mem_cons.mp hx with rfl | hx
            · exact hd
            · exact digits_takeWhile ds x hx
        · exact ⟨rfl, IsExp.none⟩
    · exact ⟨rfl, IsExp.none⟩

theorem isExp_noDigit {exp : Units} (h : IsExp exp) (hrest : Stops rest) :
    NoDigit (exp ++ rest) ∧ NoPoint (exp ++ rest) := by
  cases h with
  | none => exact ⟨hrest.noDigit, fun c more heq => (hrest c more heq).2.1⟩
  | exp he _ _ =>
    rw [List.cons_append]
    constructor
    · intro c more heq
      rw [← (List.cons.inj heq).1]
      rcases he with rfl | rfl <;> decide
    · intro c more heq
      rw [← (List.cons.inj heq).1]
      rcases he with rfl | rfl <;> decide

theorem isFrac_noDigit {frac : Units} (h : IsFrac frac) (hrest : NoDigit rest) :
    NoDigit (frac ++ rest) := by
  cases h with
  | none => exact hrest
  | point _ =>
    intro c more heq
    rw [List.cons_append] at heq
    rw [← (List.cons.inj heq).1]
    decide

theorem minusToken_of_isInt {sign : Units} (hsign : sign = [] ∨ sign = [unit '-'])
    (hint : IsInt int) : minusToken (sign ++ (int ++ rest)) = (sign, int ++ rest) := by
  rcases hsign with rfl | rfl
  · obtain ⟨c, more, rfl, hc⟩ := isInt_head hint
    rw [List.nil_append, List.cons_append, minusToken, if_neg (isDigit_ne hc (by decide))]
  · rw [List.singleton_append, minusToken, if_pos rfl]

theorem minusToken_spec (text : Units) :
    text = (minusToken text).1 ++ (minusToken text).2 ∧
      ((minusToken text).1 = [] ∨ (minusToken text).1 = [unit '-']) := by
  cases text with
  | nil => exact ⟨rfl, .inl rfl⟩
  | cons c text =>
    rw [minusToken]
    split_ifs with hc
    · exact ⟨rfl, .inr (by rw [hc])⟩
    · exact ⟨rfl, .inl rfl⟩

theorem numberToken_of_isNumber (h : IsNumber t) (hrest : Stops rest) :
    numberToken (t ++ rest) = some (t, rest) := by
  obtain @⟨sign, int, frac, exp, hsign, hint, hfrac, hexp⟩ := h
  have hafter := isExp_noDigit hexp hrest
  have hminus : minusToken (sign ++ (int ++ (frac ++ (exp ++ rest)))) =
      (sign, int ++ (frac ++ (exp ++ rest))) := minusToken_of_isInt hsign hint
  have hint' := intToken_of_isInt hint (isFrac_noDigit hfrac hafter.1)
  have hfrac' := fracToken_of_isFrac hfrac hafter.1 hafter.2
  have hexp' := expToken_of_isExp hexp hrest.noDigit fun c more heq => (hrest c more heq).2.2
  simp only [List.append_assoc]
  rw [numberToken, hminus, hint', Option.map_some, hfrac', hexp']

theorem isNumber_of_numberToken (h : numberToken text = some (t, rest)) :
    text = t ++ rest ∧ IsNumber t := by
  obtain ⟨int, hint, heq⟩ := Option.map_eq_some_iff.mp h
  obtain ⟨rfl, rfl⟩ := Prod.mk.inj heq
  obtain ⟨hminus, hsign⟩ := minusToken_spec text
  obtain ⟨hint, hisInt⟩ := isInt_of_intToken hint
  obtain ⟨hfrac, hisFrac⟩ := isFrac_fracToken int.2
  obtain ⟨hexp, hisExp⟩ := isExp_expToken (fracToken int.2).2
  refine ⟨?_, IsNumber.mk hsign hisInt hisFrac hisExp⟩
  rw [List.append_assoc, List.append_assoc, List.append_assoc, ← hexp, ← hfrac, ← hint, ← hminus]

end Stynx.ImportJson
