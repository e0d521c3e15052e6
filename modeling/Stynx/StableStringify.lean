import Stynx.CommandFingerprints

/-!
# Stable texts of request bodies

`stableStringify` of the offline-sync transport and of the two idempotency interceptors, which
have the same three branches. Keys are sorted by `localeCompare`, and only their quotation marks
are escaped.

Two readings of a text that differ at some quotation mark are inside and outside of strings in turn
from there on, and never both at an end.
-/

namespace Stynx.StableStringify

open JsonTokens CanonicalJson JsonRendering JsonArrangements SortedJson JsonObjects
open CommandFingerprints

/-- `String.prototype.localeCompare` of the host, which may find different strings equal. -/
structure Collation where
  localeCompare : JsString → JsString → Int
  /-- Any two strings are comparable. -/
  total : ∀ a b, localeCompare a b ≤ 0 ∨ localeCompare b a ≤ 0
  trans : ∀ a b c, localeCompare a b ≤ 0 → localeCompare b c ≤ 0 → localeCompare a c ≤ 0

/-- The order in which `sort` with the comparison leaves keys. -/
def Collation.Le (collation : Collation) (a b : JsString) : Prop := collation.localeCompare a b ≤ 0

instance (collation : Collation) : DecidableRel collation.Le := fun _ _ =>
  inferInstanceAs (Decidable (_ ≤ _))

instance (collation : Collation) : Std.Total collation.Le := ⟨collation.total⟩

instance (collation : Collation) : IsTrans JsString collation.Le := ⟨collation.trans⟩

/-- A code point of a key, as `replace(/"/g, '\\"')` leaves it. -/
def escapeQuote (p : CodePoint) : List CodePoint :=
  if p = .scalar '"' then [.scalar '\\', p] else [p]

/-- How `stableStringify` writes strings and keys. -/
def stableSpelling : Spelling CodePoint where
  letter := .scalar
  string s := (quote s).map .scalar
  key k := .scalar '"' :: (k.flatMap escapeQuote ++ [.scalar '"'])

def stableStringify (collation : Collation) (value : Json) : JsString :=
  sortedText stableSpelling collation.Le value

/-- A symbol, and whether the text is inside a string after it. -/
abbrev Marked := CodePoint × Bool

/-- A string's symbols between its quotation marks. -/
def inString (body : List CodePoint) : List Marked :=
  (.scalar '"', true) :: (body.map (·, true) ++ [(.scalar '"', false)])

variable {s body : List CodePoint} {t rest text : List Marked} {prev : CodePoint} {inside : Bool}

theorem inString_append_inj {t : List CodePoint} {more : List Marked}
    (h : inString s ++ rest = inString t ++ more) : s = t ∧ rest = more := by
  have hbody : s.map (·, true) ++ (.scalar '"', false) :: rest =
      t.map (·, true) ++ (.scalar '"', false) :: more := by
    simpa [inString] using h
  clear h
  induction s generalizing t with
  | nil =>
    cases t with
    | nil => exact ⟨rfl, (List.cons.inj hbody).2⟩
    | cons q t => exact absurd (congrArg Prod.snd (List.cons.inj hbody).1) Bool.false_ne_true
  | cons p s ih =>
    cases t with
    | nil => exact absurd (congrArg Prod.snd (List.cons.inj hbody).1).symm Bool.false_ne_true
    | cons q t =>
      obtain ⟨hhead, htail⟩ := List.cons.inj hbody
      obtain ⟨hst, hrest⟩ := ih htail
      have hpq : p = q := congrArg Prod.fst hhead
      exact ⟨by rw [hpq, hst], hrest⟩

theorem quotePoints_injective :
    Function.Injective fun s : JsString => (s.flatMap quotePoint).map CodePoint.scalar := by
  intro s t h
  have hchars := List.map_injective_iff.mpr (fun _ _ hxy => CodePoint.scalar.inj hxy) h
  exact (quoteBody_append_inj (congrArg (· ++ ['"']) hchars)).1

theorem escapeQuote_head_ne (k : JsString) (rest : List CodePoint) :
    k.flatMap escapeQuote ≠ .scalar '"' :: rest := by
  cases k with
  | nil => exact fun h => by cases h
  | cons p k =>
    rw [List.flatMap_cons, escapeQuote]
    split_ifs with hp
    · exact fun h => absurd (CodePoint.scalar.inj (List.cons.inj h).1) (by decide)
    · exact fun h => hp (List.cons.inj h).1

theorem escapeQuotes_injective : Function.Injective fun k : JsString => k.flatMap escapeQuote := by
  intro k l h
  induction k generalizing l with
  | nil =>
    cases l with
    | nil => rfl
    | cons q l =>
      simp only [List.flatMap_cons, List.flatMap_nil, escapeQuote] at h
      split_ifs at h <;> cases h
  | cons p k ih =>
    cases l with
    | nil =>
      simp only [List.flatMap_cons, List.flatMap_nil, escapeQuote] at h
      split_ifs at h <;> cases h
    | cons q l =>
      simp only [List.flatMap_cons, escapeQuote] at h
      split_ifs at h with hp hq hq
      · obtain ⟨-, htail⟩ := List.cons.inj h
        rw [hp, hq, ih (List.cons.inj htail).2]
      · obtain ⟨-, htail⟩ := List.cons.inj h
        rw [hp] at htail
        exact absurd htail.symm (escapeQuote_head_ne l _)
      · obtain ⟨-, htail⟩ := List.cons.inj h
        rw [hq] at htail
        exact absurd htail (escapeQuote_head_ne k _)
      · obtain ⟨hhead, htail⟩ := List.cons.inj h
        rw [hhead, ih htail]

def markedLexicon : Lexicon Marked where
  letter c := (.scalar c, false)
  string s := inString ((s.flatMap quotePoint).map .scalar)
  key k := inString (k.flatMap escapeQuote)
  opening := (.scalar '"', true)
  letter_injective _ _ h := CodePoint.scalar.inj (congrArg Prod.fst h)
  eq_quote_of_opening _ h := absurd (congrArg Prod.snd h).symm Bool.false_ne_true
  string_head _ := ⟨_, rfl⟩
  key_head _ := ⟨_, rfl⟩
  string_append_inj h := by
    obtain ⟨hbody, hrest⟩ := inString_append_inj h
    exact ⟨quotePoints_injective hbody, hrest⟩
  key_append_inj h := by
    obtain ⟨hbody, hrest⟩ := inString_append_inj h
    exact ⟨escapeQuotes_injective hbody, hrest⟩

theorem inString_fst (body : List CodePoint) :
    (inString body).map Prod.fst = .scalar '"' :: (body ++ [.scalar '"']) := by
  simp [inString, List.map_map, Function.comp_def]

theorem markedLexicon_maps : markedLexicon.Maps stableSpelling Prod.fst where
  letter _ := rfl
  string s := by
    rw [show markedLexicon.string s = inString _ from rfl, inString_fst]
    simp [stableSpelling, quote]
  key k := inString_fst _

/-- Outside of strings a quotation mark opens one and no backslash stands; inside, only a mark after
a backslash does not close it. -/
def Turns (prev : CodePoint) (inside : Bool) (p : CodePoint) (next : Bool) : Prop :=
  if p = .scalar '"' then
    (inside = false → next = true) ∧ (inside = true → next = true → prev = .scalar '\\')
  else next = inside ∧ (inside = false → p ≠ .scalar '\\')

/-- A text's marks go from a state to the outside of strings. -/
def Marks : CodePoint → Bool → List Marked → Prop
  | _, inside, [] => inside = false
  | prev, inside, (p, next) :: rest => Turns prev inside p next ∧ Marks p next rest

/-- Readings on different sides of a quotation mark never both end. -/
theorem marks_disagree {s : List Marked} (hprev : prev ≠ .scalar '\\') (hs : Marks prev inside s)
    (ht : Marks prev (!inside) t) (h : s.map Prod.fst = t.map Prod.fst) : False := by
  induction s generalizing prev inside t with
  | nil =>
    cases t with
    | nil =>
      have hboth : inside = !inside := hs.trans ht.symm
      exact absurd hboth (by simp)
    | cons q t => cases h
  | cons p s ih =>
    cases t with
    | nil => cases h
    | cons q t =>
      obtain ⟨p, next⟩ := p
      obtain ⟨q, other⟩ := q
      obtain ⟨hpq, htail⟩ := List.cons.inj h
      have hpq : p = q := hpq
      subst q
      obtain ⟨hturn, hs⟩ := hs
      obtain ⟨hturn', ht⟩ := ht
      unfold Turns at hturn hturn'
      split_ifs at hturn hturn' with hquote
      · -- the mark opens a string in the one reading and closes one in the other
        have hswap : next = !inside ∧ other = inside := by
          cases inside with
          | false =>
            have hother : other ≠ true := fun hopen => hprev (hturn'.2 rfl hopen)
            exact ⟨hturn.1 rfl, Bool.eq_false_iff.mpr hother⟩
          | true =>
            have hnext : next ≠ true := fun hopen => hprev (hturn.2 rfl hopen)
            exact ⟨Bool.eq_false_iff.mpr hnext, hturn'.1 rfl⟩
        rw [hswap.1] at hs
        rw [hswap.2, ← Bool.not_not inside] at ht
        exact ih (by rw [hquote]; simp) hs ht htail
      · obtain ⟨rfl, hback⟩ := hturn
        obtain ⟨rfl, hback'⟩ := hturn'
        have hp : p ≠ .scalar '\\' := by
          cases next with
          | false => exact hback rfl
          | true => exact hback' rfl
        exact ih hp hs ht htail

theorem marks_unique {s : List Marked} (hs : Marks prev inside s) (ht : Marks prev inside t)
    (h : s.map Prod.fst = t.map Prod.fst) :
    s = t := by
  induction s generalizing prev inside t with
  | nil =>
    cases t with
    | nil => rfl
    | cons q t => cases h
  | cons p s ih =>
    cases t with
    | nil => cases h
    | cons q t =>
      obtain ⟨p, next⟩ := p
      obtain ⟨q, other⟩ := q
      obtain ⟨hpq, htail⟩ := List.cons.inj h
      have hpq : p = q := hpq
      subst q
      obtain ⟨hturn, hs⟩ := hs
      obtain ⟨hturn', ht⟩ := ht
      by_cases hnext : next = other
      · subst other
        rw [ih hs ht htail]
      · unfold Turns at hturn hturn'
        split_ifs at hturn hturn' with hquote
        · have hother : other = !next := by
            cases next <;> cases other <;> simp_all
          rw [hother] at ht
          exact (marks_disagree (by rw [hquote]; simp) hs ht htail).elim
        · exact absurd (hturn.1.trans hturn'.1.symm) hnext

/-- A text that may stand outside of strings. -/
def Outside (text : List Marked) : Prop :=
  ∀ prev rest, (∀ last, Marks last false rest) → Marks prev false (text ++ rest)

theorem Outside.nil : Outside [] := fun _ _ h => h _

theorem Outside.append {s : List Marked} (hs : Outside s) (ht : Outside t) : Outside (s ++ t) := by
  intro prev rest hrest
  rw [List.append_assoc]
  exact hs prev _ fun last => ht last rest hrest

theorem Outside.letter {c : Char} (hquote : c ≠ '"') (hback : c ≠ '\\') (h : Outside text) :
    Outside (markedLexicon.letter c :: text) := by
  intro prev rest hrest
  refine ⟨?_, h _ rest hrest⟩
  rw [Turns, if_neg (by simpa using hquote)]
  exact ⟨rfl, fun _ => by simpa using hback⟩

theorem Outside.word {text : List Char} (hquote : '"' ∉ text) (hback : '\\' ∉ text) :
    Outside (markedLexicon.word text) := by
  induction text with
  | nil => exact Outside.nil
  | cons c text ih =>
    rw [List.mem_cons, not_or] at hquote hback
    exact Outside.letter (Ne.symm hquote.1) (Ne.symm hback.1) (ih hquote.2 hback.2)

/-- Every quotation mark follows a backslash. -/
def Escaped : CodePoint → List CodePoint → Prop
  | _, [] => True
  | prev, p :: rest => (p = .scalar '"' → prev = .scalar '\\') ∧ Escaped p rest

theorem marks_inString_tail (hbody : Escaped prev body) (hrest : ∀ last, Marks last false rest) :
    Marks prev true (body.map (·, true) ++ (.scalar '"', false) :: rest) := by
  induction body generalizing prev with
  | nil => exact ⟨by simp [Turns], hrest _⟩
  | cons p body ih =>
    refine ⟨?_, ih hbody.2⟩
    rw [Turns]
    split_ifs with hquote
    · exact ⟨fun h => (by cases h), fun _ _ => hbody.1 hquote⟩
    · exact ⟨rfl, fun h => (by cases h)⟩

theorem Outside.inString (h : Escaped (.scalar '"') body) : Outside (inString body) := by
  intro prev rest hrest
  rw [StableStringify.inString, List.cons_append, List.append_assoc, List.singleton_append]
  exact ⟨by simp [Turns], marks_inString_tail h hrest⟩

theorem escaped_append {t : List CodePoint} (hs : Escaped prev s) (ht : ∀ last, Escaped last t) :
    Escaped prev (s ++ t) := by
  induction s generalizing prev with
  | nil => exact ht prev
  | cons p s ih => exact ⟨hs.1, ih hs.2⟩

theorem escaped_of_notMem (h : .scalar '"' ∉ s) : Escaped prev s := by
  induction s generalizing prev with
  | nil => trivial
  | cons p s ih =>
    rw [List.mem_cons, not_or] at h
    exact ⟨fun hp => absurd hp.symm h.1, ih h.2⟩

theorem escaped_key (k : JsString) (prev : CodePoint) : Escaped prev (k.flatMap escapeQuote) := by
  induction k generalizing prev with
  | nil => trivial
  | cons p k ih =>
    rw [List.flatMap_cons]
    refine escaped_append ?_ ih
    rw [escapeQuote]
    split_ifs with hp
    · exact ⟨fun h => absurd (CodePoint.scalar.inj h) (by decide), fun _ => rfl, trivial⟩
    · exact ⟨fun h => absurd h hp, trivial⟩

theorem digitChar_ne_quote (n : Nat) : Nat.digitChar (n % 16) ≠ '"' := by
  have hall : ∀ m : Fin 16, Nat.digitChar m ≠ '"' := by decide
  exact hall ⟨n % 16, Nat.mod_lt n (by decide)⟩

theorem escaped_unicode (prev : CodePoint) (n : Nat) :
    Escaped prev (('\\' :: 'u' :: hex4 n).map CodePoint.scalar) := by
  apply escaped_of_notMem
  simp [hex4, (digitChar_ne_quote _).symm]

theorem escaped_string (s : JsString) (prev : CodePoint) :
    Escaped prev ((s.flatMap quotePoint).map CodePoint.scalar) := by
  induction s generalizing prev with
  | nil => trivial
  | cons p s ih =>
    rw [List.flatMap_cons, List.map_append]
    refine escaped_append ?_ ih
    cases p with
    | scalar c =>
      rw [quotePoint]
      cases hshort : shortEscape c with
      | some letter => exact ⟨fun h => absurd (CodePoint.scalar.inj h) (by decide), fun _ => rfl, trivial⟩
      | none =>
        have hraw := ne_of_shortEscape_eq_none hshort
        dsimp only
        split_ifs with hcontrol
        · exact escaped_unicode prev c.toNat
        · exact ⟨fun h => absurd (CodePoint.scalar.inj h) hraw.2, trivial⟩
    | surrogate offset => exact escaped_unicode prev _

theorem outside_number (n : JsonNumber) : Outside (markedLexicon.word (numberText n)) :=
  Outside.word (fun h => absurd (isNumberChar_numberText n _ h) (by decide))
    (fun h => absurd (isNumberChar_numberText n _ h) (by decide))

theorem outside_joined {texts : List (List Marked)} (h : ∀ text ∈ texts, Outside text) :
    Outside (joined (markedLexicon.letter ',') texts) := by
  induction texts with
  | nil => exact Outside.nil
  | cons text texts ih =>
    have htail := ih fun t ht => h t (.tail _ ht)
    cases texts with
    | nil => exact h text (.head _)
    | cons next more =>
      exact (h text (.head _)).append (Outside.letter (by decide) (by decide) htail)

theorem outside_brackets {opening closing : Char} (h : Outside text)
    (ho : opening ≠ '"' ∧ opening ≠ '\\') (hc : closing ≠ '"' ∧ closing ≠ '\\') :
    Outside (markedLexicon.letter opening :: (text ++ [markedLexicon.letter closing])) :=
  Outside.letter ho.1 ho.2 (h.append (Outside.letter hc.1 hc.2 Outside.nil))

mutual

theorem outside_render : ∀ v : Json, Outside (markedLexicon.render v)
  | .null => by
    rw [Spelling.render]
    exact Outside.word (by decide) (by decide)
  | .bool b => by
    cases b
    all_goals
      rw [Spelling.render]
      exact Outside.word (by decide) (by decide)
  | .num n => by
    rw [Spelling.render]
    exact outside_number n
  | .str s => by
    rw [Spelling.render]
    exact Outside.inString (escaped_string s _)
  | .arr items => by
    rw [Spelling.render]
    exact outside_brackets (outside_joined (outside_renderItems items)) (by decide) (by decide)
  | .obj members => by
    rw [Spelling.render]
    exact outside_brackets (outside_joined (outside_renderMembers members)) (by decide) (by decide)

theorem outside_renderItems : ∀ items : List Json,
    ∀ text ∈ markedLexicon.renderItems items, Outside text
  | [] => fun _ h => absurd h List.not_mem_nil
  | x :: xs => fun text h => by
    rcases List.mem_cons.mp h with heq | h
    · rw [heq]
      exact outside_render x
    · exact outside_renderItems xs text h

theorem outside_renderMembers : ∀ members : List (JsString × Json),
    ∀ text ∈ (markedLexicon.renderMembers members).map markedLexicon.member, Outside text
  | [] => fun _ h => absurd h List.not_mem_nil
  | (key, value) :: ms => fun text h => by
    rcases List.mem_cons.mp h with heq | h
    · have hvalue := Outside.letter (c := ':') (by decide) (by decide) (outside_render value)
      rw [heq]
      exact (Outside.inString (escaped_key key _)).append hvalue
    · exact outside_renderMembers ms text h

end

theorem marks_render (v : Json) : Marks (.scalar ' ') false (markedLexicon.render v) := by
  have hmarks := outside_render v (.scalar ' ') [] fun _ => rfl
  rwa [List.append_nil] at hmarks

theorem stableSpelling_injective : Function.Injective stableSpelling.render := by
  intro v w h
  rw [← markedLexicon_maps.render v, ← markedLexicon_maps.render w] at h
  exact Lexicon.render_injective (marks_unique (marks_render v) (marks_render w) h)

variable (collation : Collation)

/-- Bodies with one text are equal up to the order of keys. -/
theorem same_of_stableStringify_eq {a b : Json}
    (h : stableStringify collation a = stableStringify collation b) : Same a b :=
  same_of_arrange_eq a b ((sortedText_eq_iff_of_injective stableSpelling_injective).mp h)

/-- Equal bodies have one text when keys that compare as equal stand in one order in both. -/
theorem stableStringify_eq_iff_alike {a b : Json} (ha : a.WellFormed) (hb : b.WellFormed)
    (hsame : Same a b) :
    stableStringify collation a = stableStringify collation b ↔ Alike collation.Le a b := by
  rw [stableStringify, stableStringify, sortedText_eq_iff_of_injective stableSpelling_injective,
    arrange_eq_iff ha hb]
  exact and_iff_right hsame

/-- The accented letter in one code point, written in two. -/
def decompose (s : JsString) : JsString :=
  s.flatMap fun p => if p = .scalar 'é' then [.scalar 'e', .scalar '\u0301'] else [p]

/-- A collation that does not tell the two ways of writing the letter apart. -/
def accentCollation : Collation where
  localeCompare a b := compareCodePoint (decompose a) (decompose b)
  total a b := Std.Total.total (r := PointLe) (decompose a) (decompose b)
  trans _ _ _ hab hbc := IsTrans.trans (r := PointLe) _ _ _ hab hbc

/-- An object with two members. -/
def pair (key other : List Char) (hne : key ≠ other) : Value :=
  ⟨.obj [(key.map .scalar, .null), (other.map .scalar, .bool true)], by
    have hkeys : key.map CodePoint.scalar ≠ other.map CodePoint.scalar := fun h =>
      hne (List.map_injective_iff.mpr (fun _ _ hxy => CodePoint.scalar.inj hxy) h)
    simp [Json.WellFormed, WellFormedMembers, hkeys]⟩

/-- The members of a body in the other order. -/
def swapped (key other : List Char) (hne : key ≠ other) : Value :=
  ⟨.obj [(other.map .scalar, .bool true), (key.map .scalar, .null)], by
    have hkeys : other.map CodePoint.scalar ≠ key.map CodePoint.scalar := fun h =>
      hne (List.map_injective_iff.mpr (fun _ _ hxy => CodePoint.scalar.inj hxy) h).symm
    simp [Json.WellFormed, WellFormedMembers, hkeys]⟩

/-- A key that ends in a backslash does not hide where it ends. -/
theorem same_of_stableStringify_eq_backslash :
    Same (pair ['a', '\\'] ['"'] (by decide)).val (swapped ['a', '\\'] ['"'] (by decide)).val :=
  same_of_stableStringify_eq accentCollation rfl

/-- Keys that do not compare as equal may come in any order. -/
theorem stableStringify_eq_iff_alike_plain :
    Alike accentCollation.Le (pair ['a'] ['b'] (by decide)).val
      (swapped ['a'] ['b'] (by decide)).val :=
  (stableStringify_eq_iff_alike accentCollation (pair ['a'] ['b'] (by decide)).property
    (swapped ['a'] ['b'] (by decide)).property
    ((canonicalJson_eq_iff (pair ['a'] ['b'] (by decide)) (swapped ['a'] ['b'] (by decide))).mp
      rfl)).mp rfl

/-- The two ways of writing one letter, sent in another order, change the text. -/
theorem accents_told_apart : ¬ ∀ (collation : Collation) (a b : Value), Same a.val b.val →
    stableStringify collation a.val = stableStringify collation b.val := by
  intro h
  have hsame := (canonicalJson_eq_iff (pair ['é'] ['e', '\u0301'] (by decide))
    (swapped ['é'] ['e', '\u0301'] (by decide))).mp rfl
  exact absurd (h accentCollation _ _ hsame) (by decide)

end Stynx.StableStringify
