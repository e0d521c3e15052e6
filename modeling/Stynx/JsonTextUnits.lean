import Stynx.JsonGrammar
import Stynx.JsonRendering
import Stynx.TextOrder

/-!
# Rendered values as JSON texts

The texts that `JSON.stringify` writes are in the grammar of RFC 8259, and stand
for the value that was written: tokens first, then arrays and objects. Texts and
strings are taken to UTF-16 code units.
-/

namespace Stynx.JsonTextUnits

open JsonTokens CanonicalJson JsonRendering JsonGrammar

/-- The UTF-16 code units of a string. -/
def unitsOf (s : JsString) : Units := s.flatMap fun p => p.units.map UInt16.ofNat

/-- The code point of a code unit that has no partner. -/
def pointOf (u : UInt16) : CodePoint :=
  if h : 0xD800 ≤ u.toNat ∧ u.toNat < 0xE000 then .surrogate ⟨u.toNat - 0xD800, by omega⟩
  else .scalar (Char.ofNat u.toNat)

/-- The character of two surrogates, from the offsets in their ranges. -/
def pairOf (high low : Nat) : CodePoint := .scalar (Char.ofNat (0x10000 + high * 0x400 + low))

/-- `StringToCodePoints`: the code points of a string of code units. -/
def pointsOf : Units → JsString
  | u :: v :: rest =>
    if (0xD800 ≤ u.toNat ∧ u.toNat < 0xDC00) ∧ (0xDC00 ≤ v.toNat ∧ v.toNat < 0xE000) then
      pairOf (u.toNat - 0xD800) (v.toNat - 0xDC00) :: pointsOf rest
    else pointOf u :: pointsOf (v :: rest)
  | [u] => [pointOf u]
  | [] => []

theorem toNat_ofNat {n : Nat} (h : n.isValidChar) : (Char.ofNat n).toNat = n := by
  rw [Char.ofNat, dif_pos h]
  rfl

theorem units_pointOf (u : UInt16) : (pointOf u).units.map UInt16.ofNat = [u] := by
  have hlt : u.toNat < 65536 := u.toNat_lt
  unfold pointOf
  split_ifs with h
  · rw [CodePoint.units, List.map_singleton, Nat.add_sub_cancel' h.1, UInt16.ofNat_toNat]
  · have hvalid : (Char.ofNat u.toNat).toNat = u.toNat := toNat_ofNat (by
      rcases Nat.lt_or_ge u.toNat 0xD800 with hlow | hlow
      · exact .inl hlow
      · exact .inr ⟨by omega, by omega⟩)
    rw [CodePoint.units, hvalid, if_pos hlt, List.map_singleton, UInt16.ofNat_toNat]

theorem units_pairOf {high low : Nat} (hhigh : high < 0x400) (hlow : low < 0x400) :
    (pairOf high low).units = [0xD800 + high, 0xDC00 + low] := by
  have hvalid : (Char.ofNat (0x10000 + high * 0x400 + low)).toNat = 0x10000 + high * 0x400 + low :=
    toNat_ofNat (.inr ⟨by omega, by omega⟩)
  have hfirst : 0xD800 + (0x10000 + high * 0x400 + low - 0x10000) / 0x400 = 0xD800 + high := by
    omega
  have hsecond : 0xDC00 + (0x10000 + high * 0x400 + low - 0x10000) % 0x400 = 0xDC00 + low := by
    omega
  rw [pairOf, CodePoint.units, hvalid, if_neg (by omega), hfirst, hsecond]

theorem unitsOf_pointsOf (s : Units) : unitsOf (pointsOf s) = s := by
  fun_induction pointsOf s with
  | case1 u v rest hpair ih =>
    rw [unitsOf, List.flatMap_cons, ← unitsOf, ih, units_pairOf (by omega) (by omega)]
    have hu : 0xD800 + (u.toNat - 0xD800) = u.toNat := by omega
    have hv : 0xDC00 + (v.toNat - 0xDC00) = v.toNat := by omega
    rw [hu, hv, List.map_cons, List.map_singleton, UInt16.ofNat_toNat, UInt16.ofNat_toNat]
    rfl
  | case2 u v rest hpair ih =>
    rw [unitsOf, List.flatMap_cons, ← unitsOf, ih, units_pointOf]
    rfl
  | case3 u => rw [unitsOf, List.flatMap_cons, units_pointOf, List.flatMap_nil, List.append_nil]
  | case4 => rfl

def utf16 (text : List Char) : Units := unitsOf (text.map .scalar)

theorem utf16_append (s t : List Char) : utf16 (s ++ t) = utf16 s ++ utf16 t := by
  rw [utf16, List.map_append, unitsOf, List.flatMap_append]
  rfl

variable {c : Char} {ds : List Char}

theorem utf16_cons (hc : c.toNat < 0x10000) (text : List Char) :
    utf16 (c :: text) = unit c :: utf16 text := by
  rw [utf16, List.map_cons, unitsOf, List.flatMap_cons, CodePoint.units, if_pos hc]
  rfl

theorem utf16_ascii {text : List Char} (h : ∀ c ∈ text, c.toNat < 0x10000) :
    utf16 text = text.map unit := by
  induction text with
  | nil => rfl
  | cons c text ih =>
    rw [utf16_cons (h c List.mem_cons_self), ih fun d hd => h d (List.mem_cons_of_mem _ hd),
      List.map_cons]

theorem shortUnit_of_shortEscape {letter : Char} (h : shortEscape c = some letter) :
    shortUnit (unit letter) = some (unit c) ∧ c.toNat < 0x10000 ∧ letter.toNat < 0x10000 := by
  unfold shortEscape at h
  split_ifs at h with h₁ h₂ h₃ h₄ h₅ h₆ h₇ <;> cases h <;> subst c <;> decide

theorem hexDigit_digitChar : ∀ n : Fin 16, hexDigit (unit (Nat.digitChar n)) = some n.val := by
  decide

theorem digitChar_small : ∀ n : Fin 16, (Nat.digitChar n).toNat < 0x10000 := by decide

theorem hexUnit_hex4 {n : Nat} (h : n < 65536) :
    hexUnit (unit (Nat.digitChar (n / 4096 % 16))) (unit (Nat.digitChar (n / 256 % 16)))
      (unit (Nat.digitChar (n / 16 % 16))) (unit (Nat.digitChar (n % 16))) =
        some (UInt16.ofNat n) := by
  have hdigit : ∀ m, hexDigit (unit (Nat.digitChar (m % 16))) = some (m % 16) := fun m =>
    hexDigit_digitChar ⟨m % 16, Nat.mod_lt m (by decide)⟩
  have hvalue : n / 4096 % 16 * 4096 + n / 256 % 16 * 256 + n / 16 % 16 * 16 + n % 16 = n := by
    omega
  simp only [hexUnit, hdigit, Option.bind_eq_bind, Option.bind_some, hvalue]

theorem isUnescaped_of_toNat {u : UInt16} (hlow : 0x20 ≤ u.toNat) (hquote : u.toNat ≠ 34)
    (hback : u.toNat ≠ 92) : isUnescaped u = true := by
  have hle : (0x20 : UInt16) ≤ u := UInt16.le_iff_toNat_le.mpr hlow
  have hne : ∀ d : UInt16, u.toNat ≠ d.toNat → u ≠ d := fun d h heq => h (congrArg _ heq)
  simp only [isUnescaped, hle, decide_true, Bool.true_and, Bool.and_eq_true, bne_iff_ne]
  exact ⟨hne (unit '"') hquote, hne (unit '\\') hback⟩

/-- The text of a code point between quotation marks stands for its code units. -/
theorem isChars_quotePoint (p : CodePoint) : IsChars (utf16 (quotePoint p)) (unitsOf [p]) := by
  have hescape : ∀ n, n < 65536 → IsChars (utf16 ('\\' :: 'u' :: hex4 n)) [UInt16.ofNat n] := by
    intro n hn
    have hsmall : ∀ m, (Nat.digitChar (m % 16)).toNat < 0x10000 := fun m =>
      digitChar_small ⟨m % 16, Nat.mod_lt m (by decide)⟩
    rw [hex4, utf16_cons (by decide), utf16_cons (by decide), utf16_cons (hsmall _),
      utf16_cons (hsmall _), utf16_cons (hsmall _), utf16_cons (hsmall _)]
    exact IsChars.cons (IsChar.unicode (hexUnit_hex4 hn)) IsChars.nil
  cases p with
  | surrogate offset =>
    have hoffset := offset.isLt
    exact hescape (0xD800 + offset.val) (by omega)
  | scalar c =>
    have hunits : c.toNat < 0x10000 → unitsOf [.scalar c] = [unit c] := fun h => by
      rw [unitsOf, List.flatMap_cons, CodePoint.units, if_pos h]
      rfl
    rw [quotePoint]
    cases hshort : shortEscape c with
    | some letter =>
      obtain ⟨hletter, hc, hsmall⟩ := shortUnit_of_shortEscape hshort
      rw [hunits hc, utf16_cons (by decide), utf16_cons hsmall]
      exact IsChars.cons (IsChar.short hletter) IsChars.nil
    | none =>
      obtain ⟨hback, hquote⟩ := ne_of_shortEscape_eq_none hshort
      dsimp only
      split_ifs with hcontrol
      · rw [hunits (by omega)]
        exact hescape c.toNat (by omega)
      · have hrange := TextOrder.toNat_range c
        have hquote' : c.toNat ≠ 34 := fun h => hquote (Char.toNat_inj.mp h)
        have hback' : c.toNat ≠ 92 := fun h => hback (Char.toNat_inj.mp h)
        have hplain : ∀ n, n < 65536 → 0x20 ≤ n → n ≠ 34 → n ≠ 92 →
            isUnescaped (UInt16.ofNat n) = true := by
          intro n hn hlow hne hne'
          have hvalue : (UInt16.ofNat n).toNat = n := by
            rw [UInt16.toNat_ofNat']
            exact Nat.mod_eq_of_lt hn
          exact isUnescaped_of_toNat (by omega) (by omega) (by omega)
        show IsChars (unitsOf [.scalar c]) (unitsOf [.scalar c])
        by_cases hsmall : c.toNat < 0x10000
        · rw [hunits hsmall]
          exact IsChars.cons (IsChar.plain (hplain _ (by omega) (by omega) hquote' hback'))
            IsChars.nil
        · have hhigh := hplain (0xD800 + (c.toNat - 0x10000) / 0x400) (by omega) (by omega)
            (by omega) (by omega)
          have hlow := hplain (0xDC00 + (c.toNat - 0x10000) % 0x400) (by omega) (by omega)
            (by omega) (by omega)
          rw [unitsOf, List.flatMap_cons, CodePoint.units, if_neg hsmall, List.flatMap_nil,
            List.append_nil]
          exact IsChars.cons (IsChar.plain hhigh) (IsChars.cons (IsChar.plain hlow) IsChars.nil)

theorem IsChars.append {s t u v : Units} (hs : IsChars s u) (ht : IsChars t v) :
    IsChars (s ++ t) (u ++ v) := by
  induction hs with
  | nil => exact ht
  | cons hchar _ ih =>
    rw [List.append_assoc]
    exact JsonGrammar.IsChars.cons hchar ih

theorem isString_quote (s : JsString) : IsString (utf16 (quote s)) (unitsOf s) := by
  have hchars : IsChars (utf16 (s.flatMap quotePoint)) (unitsOf s) := by
    induction s with
    | nil => exact IsChars.nil
    | cons p s ih =>
      have hunits : unitsOf (p :: s) = unitsOf [p] ++ unitsOf s := by
        simp [unitsOf]
      rw [hunits, List.flatMap_cons, utf16_append]
      exact IsChars.append (isChars_quotePoint p) ih
  refine ⟨_, ?_, hchars⟩
  rw [quote, utf16_cons (by decide), utf16_append, utf16_cons (c := '"') (by decide)]
  rfl

theorem isDigit_unit (h : c.isDigit = true) : JsonGrammar.isDigit (unit c) = true := by
  simp only [Char.isDigit, ge_iff_le, Bool.and_eq_true, decide_eq_true_eq] at h
  have hlow : '0'.toNat ≤ c.toNat := h.1
  have hhigh : c.toNat ≤ '9'.toNat := h.2
  have hvalue : (unit c).toNat = c.toNat := by
    rw [unit, UInt16.toNat_ofNat']
    exact Nat.mod_eq_of_lt (Nat.lt_of_le_of_lt hhigh (by decide))
  simp only [JsonGrammar.isDigit, Bool.and_eq_true, decide_eq_true_eq, UInt16.le_iff_toNat_le]
  rw [hvalue]
  exact ⟨hlow, hhigh⟩

theorem digits_map (h : ∀ c ∈ ds, c.isDigit = true) : Digits (ds.map unit) := by
  intro u hu
  obtain ⟨c, hc, rfl⟩ := List.mem_map.mp hu
  exact isDigit_unit (h c hc)

theorem unit_zero_iff (h : c.isDigit = true) : unit c = unit '0' ↔ c = '0' := by
  constructor
  · intro heq
    simp only [Char.isDigit, ge_iff_le, Bool.and_eq_true, decide_eq_true_eq] at h
    have hhigh : c.toNat ≤ '9'.toNat := h.2
    have hsmall : c.toNat < 65536 := Nat.lt_of_le_of_lt hhigh (by decide)
    have hvalue := congrArg UInt16.toNat heq
    simp only [unit, UInt16.toNat_ofNat'] at hvalue
    rw [Nat.mod_eq_of_lt hsmall] at hvalue
    exact Char.toNat_inj.mp hvalue
  · rintro rfl
    rfl

theorem isInt_map (hc : c ≠ '0') (h : ∀ d ∈ c :: ds, d.isDigit = true) :
    IsInt ((c :: ds).map unit) := by
  have hdigit := h c (.head _)
  exact IsInt.more (isDigit_unit hdigit) (fun heq => hc ((unit_zero_iff hdigit).mp heq))
    (digits_map fun d hd => h d (.tail _ hd))

theorem isFrac_map (hne : ds ≠ []) (h : ∀ d ∈ ds, d.isDigit = true) :
    IsFrac (('.' :: ds).map unit) := by
  cases ds with
  | nil => exact absurd rfl hne
  | cons d ds => exact IsFrac.point (digits_map h)

theorem isNumber_plain {int frac : Units} (hint : IsInt int) (hfrac : IsFrac frac) :
    IsNumber (int ++ frac) := by
  have hnumber := IsNumber.mk (.inl rfl) hint hfrac IsExp.none
  rwa [List.nil_append, List.append_nil] at hnumber

theorem magnitude_parts {digits : List Char} (h : Trimmed digits) (exponent : Int) :
    ∃ int frac exp, (magnitudeText digits exponent).map unit = int ++ (frac ++ exp) ∧ IsInt int ∧
      IsFrac frac ∧ IsExp exp := by
  obtain ⟨c, rest, hfirst, hc⟩ := h.first
  have hzeros : ∀ count, ∀ d ∈ List.replicate count '0', d.isDigit = true := fun count d hd => by
    rw [List.eq_of_mem_replicate hd]
    rfl
  have hne : digits ≠ [] := by simp [hfirst]
  unfold magnitudeText
  split_ifs with hplain hlong hpoint
  · refine ⟨_, [], [], (List.append_nil _).symm, ?_, IsFrac.none, IsExp.none⟩
    rw [hfirst, List.cons_append]
    refine isInt_map hc fun d hd => ?_
    rw [← List.cons_append, ← hfirst] at hd
    rcases List.mem_append.mp hd with hd | hd
    · exact h.digit d hd
    · exact hzeros _ d hd
  · refine ⟨(digits.take exponent.toNat).map unit, ('.' :: digits.drop exponent.toNat).map unit, [],
      by rw [List.map_append, List.append_nil], ?_, ?_, IsExp.none⟩
    · obtain ⟨count, hcount⟩ : ∃ count, exponent.toNat = count + 1 :=
        ⟨exponent.toNat - 1, by omega⟩
      have htake : ∀ d ∈ digits.take exponent.toNat, d.isDigit = true := fun d hd =>
        h.digit d (List.mem_of_mem_take hd)
      rw [hcount, hfirst, List.take_succ_cons] at htake ⊢
      exact isInt_map hc htake
    · refine isFrac_map ?_ fun d hd => h.digit d (List.mem_of_mem_drop hd)
      intro hnil
      have hlength := List.drop_eq_nil_iff.mp hnil
      omega
  · refine ⟨[unit '0'], ('.' :: (List.replicate (-exponent).toNat '0' ++ digits)).map unit, [],
      by rw [List.append_nil]; rfl, IsInt.zero, ?_, IsExp.none⟩
    refine isFrac_map (by simp [hne]) fun d hd => ?_
    rcases List.mem_append.mp hd with hd | hd
    · exact hzeros _ d hd
    · exact h.digit d hd
  · have hexp : IsExp (('e' :: exponentSign exponent ::
        Nat.toDigits 10 (exponent - 1).natAbs).map unit) := by
      have hdigits : ∀ d ∈ Nat.toDigits 10 (exponent - 1).natAbs, d.isDigit = true := fun d hd =>
        isDigit_toDigits hd
      cases hds : Nat.toDigits 10 (exponent - 1).natAbs with
      | nil => exact absurd hds Nat.toDigits_ne_nil
      | cons d ds =>
        rw [hds] at hdigits
        have hsign : IsSign [unit (exponentSign exponent)] → IsExp (unit 'e' ::
            ([unit (exponentSign exponent)] ++ unit d :: ds.map unit)) := fun hsign =>
          IsExp.exp (.inl rfl) hsign (digits_map hdigits)
        apply hsign
        unfold exponentSign
        split_ifs
        · exact .inr (.inr rfl)
        · exact .inr (.inl rfl)
    have hall := h.digit
    rw [hfirst] at hall ⊢
    cases rest with
    | nil =>
      exact ⟨[c].map unit, [], _, List.map_append, isInt_map hc hall, IsFrac.none, hexp⟩
    | cons second more =>
      refine ⟨[c].map unit, ('.' :: second :: more).map unit, _, ?_, isInt_map hc fun d hd => ?_,
        isFrac_map (by simp) fun d hd => hall d (.tail _ hd), hexp⟩
      · rw [mantissa, List.map_append]
        rfl
      · exact hall d (by rw [List.mem_singleton.mp hd]; exact List.mem_cons_self)

theorem number_small (h : isNumberChar c = true) : c.toNat < 0x10000 := by
  simp only [isNumberChar, Bool.or_eq_true, beq_iff_eq] at h
  rcases h with (((hdigit | rfl) | rfl) | rfl) | rfl
  · simp only [Char.isDigit, ge_iff_le, Bool.and_eq_true, decide_eq_true_eq] at hdigit
    have hle : c.toNat ≤ '9'.toNat := hdigit.2
    exact Nat.lt_of_le_of_lt hle (by decide)
  all_goals decide

theorem isNumber_numberText (n : JsonNumber) : IsNumber (utf16 (numberText n)) := by
  rw [utf16_ascii fun c hc => number_small (isNumberChar_numberText n c hc)]
  cases n with
  | zero => exact isNumber_plain IsInt.zero IsFrac.none
  | decimal d =>
    obtain ⟨int, frac, exp, hmagnitude, hint, hfrac, hexp⟩ :=
      magnitude_parts d.trimmed d.exponent
    rw [numberText, List.map_append, hmagnitude]
    split_ifs
    · exact IsNumber.mk (.inr rfl) hint hfrac hexp
    · exact IsNumber.mk (.inl rfl) hint hfrac hexp

mutual

/-- A value with its strings as code units. -/
def toValue : Json → Value JsonNumber
  | .null => .null
  | .bool b => .bool b
  | .num n => .num n
  | .str s => .str (unitsOf s)
  | .arr items => .arr (toItems items)
  | .obj members => .obj (toMembers members)

def toItems : List Json → List (Value JsonNumber)
  | [] => []
  | x :: xs => toValue x :: toItems xs

def toMembers : List (JsString × Json) → List (Units × Value JsonNumber)
  | [] => []
  | (key, value) :: ms => (unitsOf key, toValue value) :: toMembers ms

end

/-- A reader of number tokens that reads back what `JSON.stringify` writes. -/
structure NumberReader where
  /-- `JSON.parse` of a number token. -/
  read : Units → JsonNumber
  read_numberText : ∀ n, read (utf16 (numberText n)) = n

variable (reader : NumberReader)

theorem spaces_nil : Spaces [] := fun _ h => absurd h List.not_mem_nil

theorem utf16_comma (s : List Char) : utf16 (',' :: s) = unit ',' :: utf16 s :=
  utf16_cons (by decide) s

theorem utf16_bracketed {opening closing : Char} (ho : opening.toNat < 0x10000)
    (hc : closing.toNat < 0x10000) (body : List Char) :
    utf16 (opening :: (body ++ [closing])) = unit opening :: (utf16 body ++ [unit closing]) := by
  rw [utf16_cons ho, utf16_append, utf16_cons hc]
  rfl

mutual

theorem isValue_render : ∀ v : Json, IsValue reader.read (toValue v) (utf16 (jsonLexicon.render v))
  | .null => by
    rw [Spelling.render, toValue, IsValue]
    rfl
  | .bool true => by
    rw [Spelling.render, toValue, IsValue]
    rfl
  | .bool false => by
    rw [Spelling.render, toValue, IsValue]
    rfl
  | .num n => by
    have hword : jsonLexicon.render (.num n) = numberText n := List.map_id _
    rw [hword, toValue, IsValue]
    exact ⟨isNumber_numberText n, reader.read_numberText n⟩
  | .str s => by
    rw [Spelling.render, toValue, IsValue]
    exact isString_quote s
  | .arr items => by
    rw [Spelling.render, toValue, IsValue]
    refine ⟨_, utf16_bracketed (by decide) (by decide) _, ?_⟩
    by_cases hnil : items = []
    · rw [hnil]
      exact .inl ⟨rfl, spaces_nil⟩
    · exact .inr (isElements_render items hnil)
  | .obj members => by
    rw [Spelling.render, toValue, IsValue]
    refine ⟨_, utf16_bracketed (by decide) (by decide) _, ?_⟩
    by_cases hnil : members = []
    · rw [hnil]
      exact .inl ⟨rfl, spaces_nil⟩
    · exact .inr (isMembers_render members hnil)

theorem isElements_render : ∀ items : List Json, items ≠ [] →
    IsElements reader.read (toItems items) (utf16 (joined ',' (jsonLexicon.renderItems items)))
  | [] => fun hnil => absurd rfl hnil
  | [x] => fun _ => by
    rw [Spelling.renderItems, Spelling.renderItems, joined, toItems, toItems, IsElements]
    refine ⟨[], _, [], [], spaces_nil, isValue_render x, spaces_nil, ?_, .inl ⟨rfl, rfl⟩⟩
    rw [List.append_nil, List.append_nil, List.nil_append]
  | x :: y :: ys => fun _ => by
    have hrest := isElements_render (y :: ys) (List.cons_ne_nil y ys)
    rw [Spelling.renderItems, toItems, IsElements]
    rw [Spelling.renderItems] at hrest ⊢
    rw [joined, utf16_append, utf16_comma]
    exact ⟨[], _, [], _, spaces_nil, isValue_render x, spaces_nil, rfl, .inr ⟨_, rfl, hrest⟩⟩

theorem isMembers_render : ∀ members : List (JsString × Json), members ≠ [] →
    IsMembers reader.read (toMembers members)
      (utf16 (joined ',' ((jsonLexicon.renderMembers members).map jsonLexicon.member)))
  | [] => fun hnil => absurd rfl hnil
  | [(key, value)] => fun _ => by
    rw [Spelling.renderMembers, Spelling.renderMembers, List.map_cons, List.map_nil, joined,
      toMembers, toMembers, IsMembers]
    refine ⟨[], _, [], [], _, [], [], spaces_nil, isString_quote key, spaces_nil, spaces_nil,
      isValue_render value, spaces_nil, ?_, .inl ⟨rfl, rfl⟩⟩
    rw [Spelling.member, utf16_append, List.append_nil, List.append_nil]
    exact congrArg _ (utf16_cons (by decide) _)
  | (key, value) :: (k, w) :: ns => fun _ => by
    have hrest := isMembers_render ((k, w) :: ns) (List.cons_ne_nil _ ns)
    rw [Spelling.renderMembers, List.map_cons, toMembers, IsMembers]
    rw [Spelling.renderMembers, List.map_cons] at hrest ⊢
    rw [joined, utf16_append, utf16_comma]
    refine ⟨[], _, [], [], _, [], _, spaces_nil, isString_quote key, spaces_nil, spaces_nil,
      isValue_render value, spaces_nil, ?_, .inr ⟨_, rfl, hrest⟩⟩
    rw [Spelling.member, utf16_append, List.append_assoc]
    exact congrArg (_ ++ ·) (congrArg (· ++ _) (utf16_cons (by decide) _))

end

theorem isText_render (v : Json) : IsText reader.read (toValue v) (utf16 (jsonLexicon.render v)) :=
  ⟨[], _, [], spaces_nil, isValue_render reader v, spaces_nil, by
    rw [List.nil_append, List.append_nil]⟩

/-- The number that a text of `Number::toString` stands for. -/
def ofShortest (text : List Char) : JsonNumber :=
  let magnitude := if text.head? = some '-' then text.tail else text
  let digits := digitsOf magnitude
  if h : Nat.ofDigitChars 10 digits 0 % 10 ≠ 0 then
    .decimal ⟨text.head? = some '-', Nat.ofDigitChars 10 digits 0,
      exponentOf digits.length magnitude, h⟩
  else .zero

theorem ofShortest_numberText (n : JsonNumber) : ofShortest (numberText n) = n := by
  cases n with
  | zero => decide
  | decimal d =>
    have hdigits := digitsOf_magnitudeText d.trimmed d.exponent
    have hexponent := exponentOf_magnitudeText d.trimmed d.exponent
    obtain ⟨c, rest, hhead, hc⟩ := magnitudeText_head d.trimmed d.exponent
    have hne : c ≠ '-' := ne_of_isDigit hc rfl
    obtain ⟨negative, significand, exponent, hnormal⟩ := d
    simp only at hdigits hexponent hhead
    cases negative with
    | false =>
      have htext : numberText (.decimal ⟨false, significand, exponent, hnormal⟩) =
          magnitudeText (Nat.toDigits 10 significand) exponent := rfl
      have hplain : (magnitudeText (Nat.toDigits 10 significand) exponent).head? ≠ some '-' := by
        rw [hhead, List.head?_cons]
        exact fun h => hne (Option.some.inj h)
      simp only [ofShortest, htext, if_neg hplain, hdigits, hexponent,
        Nat.ofDigitChars_ten_toDigits, dif_pos hnormal, decide_eq_false hplain]
    | true =>
      have htext : numberText (.decimal ⟨true, significand, exponent, hnormal⟩) =
          '-' :: magnitudeText (Nat.toDigits 10 significand) exponent := rfl
      simp only [ofShortest, htext, List.head?_cons, if_pos, List.tail_cons, hdigits, hexponent,
        Nat.ofDigitChars_ten_toDigits, dif_pos hnormal, decide_true]

/-- The characters of ASCII code units. -/
def charsOf (text : Units) : List Char := text.map fun u => Char.ofNat u.toNat

def shortestReader : NumberReader where
  read text := ofShortest (charsOf text)
  read_numberText n := by
    have hsmall : ∀ c ∈ numberText n, c.toNat < 0x10000 := fun c hc =>
      number_small (isNumberChar_numberText n c hc)
    have hchars : charsOf (utf16 (numberText n)) = numberText n := by
      rw [utf16_ascii hsmall, charsOf, List.map_map]
      refine (List.map_congr_left fun c hc => ?_).trans (List.map_id _)
      have hvalue : (unit c).toNat = c.toNat := by
        rw [unit, UInt16.toNat_ofNat']
        exact Nat.mod_eq_of_lt (hsmall c hc)
      show Char.ofNat (unit c).toNat = c
      rw [hvalue, Char.ofNat_toNat]
    rw [hchars, ofShortest_numberText]

end Stynx.JsonTextUnits
