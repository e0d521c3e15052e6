import Mathlib.Data.List.Nodup
import Mathlib.Data.List.TakeWhile

/-!
# Keys of the dictionaries of a PDF object

`uniqueDictionaryKeys` of `packages/signature/src/pdf-trust-evidence.ts`, against the
objects of PDF with their own white space and delimiters. For the scanner a vertical
tab and a no-break space are white space, and the null character is not.
-/

namespace Stynx.PdfDictionaryKeys

/-- A stretch of Latin-1 characters. -/
abbrev Chars := List Char

/-- `\s`, among the Latin-1 characters. -/
def isSpace (c : Char) : Bool := c ∈ ['\t', '\n', '\x0B', '\x0C', '\r', ' ', '\xA0']

def isDigit (c : Char) : Bool := '0' ≤ c && c ≤ '9'

def isHexDigit (c : Char) : Bool := isDigit c || ('a' ≤ c && c ≤ 'f') || ('A' ≤ c && c ≤ 'F')

/-- `\w`. -/
def isWord (c : Char) : Bool :=
  isDigit c || ('a' ≤ c && c ≤ 'z') || ('A' ≤ c && c ≤ 'Z') || c = '_'

/-- White space and comments; the flag says whether a comment is open. -/
def skip (white : Char → Bool) : Bool → Chars → Chars
  | _, [] => []
  | true, c :: rest => skip white (c ≠ '\r' && c ≠ '\n') rest
  | false, c :: rest =>
    if white c then skip white false rest else if c = '%' then skip white true rest else c :: rest

def space : Chars → Chars := skip isSpace false

/-- A scan is still going on, has thrown, or has come to the rest of its text. -/
inductive Scan where
  | running
  | fails
  | ends (rest : Chars)
  deriving DecidableEq

def Scan.bind (scan : Scan) (next : Chars → Scan) : Scan :=
  match scan with
  | .ends rest => next rest
  | other => other

def endsName (c : Char) : Bool := isSpace c || c ∈ ['(', ')', '[', ']', '<', '>', '/', '%']

def hexValue (c : Char) : Nat :=
  if isDigit c then c.toNat - '0'.toNat
  else if 'a' ≤ c then c.toNat - 'a'.toNat + 10 else c.toNat - 'A'.toNat + 10

/-- The escapes of a name. -/
def decode : Chars → Chars
  | '#' :: a :: b :: rest =>
    if isHexDigit a && isHexDigit b then
      Char.ofNat (16 * hexValue a + hexValue b) :: decode rest
    else '#' :: decode (a :: b :: rest)
  | c :: rest => c :: decode rest
  | [] => []

/-- The loop over a string, with the number of open brackets and whether a backslash is before. -/
def skipString : Nat → Bool → Chars → Scan
  | 0, _, text => .ends text
  | _ + 1, _, [] => .fails
  | nested + 1, true, _ :: rest => skipString (nested + 1) false rest
  | nested + 1, false, c :: rest =>
    skipString (if c = '(' then nested + 2 else if c = ')' then nested else nested + 1) (c = '\\') rest

def skipHex (text : Chars) : Scan :=
  match text.dropWhile fun c => isHexDigit c || isSpace c with
  | '>' :: rest => .ends rest
  | _ => .fails

/-- One or more characters of a kind. -/
def oneOrMore (p : Char → Bool) : Chars → Option Chars
  | [] => none
  | c :: rest => if p c then some (rest.dropWhile p) else none

/-- A word that ends at a word boundary. -/
def keyword (word text : Chars) : Option Chars :=
  if text.take word.length = word ∧ (text.drop word.length).head?.all (fun c => !isWord c) then
    some (text.drop word.length)
  else none

/-- `\d+\s+`. -/
def spacedDigits (text : Chars) : Option Chars := (oneOrMore isDigit text).bind (oneOrMore isSpace)

/-- `\d+\s+\d+\s+R\b`. -/
def reference (text : Chars) : Option Chars :=
  ((spacedDigits text).bind spacedDigits).bind (keyword ['R'])

def afterWhole : Chars → Chars
  | '.' :: fraction => fraction.dropWhile isDigit
  | rest => rest

/-- `\d+\.\d*|\.\d+|\d+`. -/
def digits : Chars → Option Chars
  | '.' :: fraction => oneOrMore isDigit fraction
  | text => (oneOrMore isDigit text).map afterWhole

def number : Chars → Option Chars
  | '+' :: text => digits text
  | '-' :: text => digits text
  | text => digits text

def keywords : List Chars := ["true".toList, "false".toList, "null".toList]

def scalar (text : Chars) : Option Chars :=
  (number text).or (keywords.findSome? fun word => keyword word text)

/-- The branches of `value`, with its loops. -/
def valueAt (dictionary array : Chars → Scan) : Chars → Scan
  | '<' :: '<' :: inner => dictionary inner
  | '[' :: inner => array inner
  | '(' :: inner => skipString 1 false inner
  | '<' :: inner => skipHex inner
  | '/' :: inner => .ends (inner.dropWhile fun c => !endsName c)
  | token => match (reference token).or (scalar token) with
    | some rest => .ends rest
    | none => .fails

mutual

/-- `value` at a depth; the first argument bounds the nesting of the calls and of the turns. -/
def value : Nat → Nat → Chars → Scan
  | 0, _, _ => .running
  | fuel + 1, depth, text =>
    if 32 < depth then .fails else valueAt (members fuel depth []) (items fuel depth) (space text)

/-- The loop over a dictionary, with the keys that it has seen. -/
def members : Nat → Nat → List Chars → Chars → Scan
  | 0, _, _, _ => .running
  | fuel + 1, depth, keys, text =>
    match space text with
    | '>' :: '>' :: rest => .ends rest
    | '/' :: inner =>
      let key := decode (inner.takeWhile fun c => !endsName c)
      if key ∈ keys then .fails
      else (value fuel (depth + 1) (inner.dropWhile fun c => !endsName c)).bind
        (members fuel depth (key :: keys))
    | _ => .fails

def items : Nat → Nat → Chars → Scan
  | 0, _, _ => .running
  | fuel + 1, depth, text =>
    match space text with
    | ']' :: rest => .ends rest
    | token => (value fuel (depth + 1) token).bind (items fuel depth)

end

/-- `uniqueDictionaryKeys` comes to an end without throwing. -/
def Accepts (text : Chars) : Prop := ∃ fuel rest, value fuel 0 text = .ends rest

def Terminates (text : Chars) : Prop :=
  ∀ fuel, 2 * text.length + 1 ≤ fuel → value fuel 0 text ≠ .running

section

variable (white : Char → Bool)

/-- The white space of PDF. -/
def isWhite (c : Char) : Bool := c ∈ ['\x00', '\t', '\n', '\x0C', '\r', ' ']

def delimiters : Chars := ['(', ')', '<', '>', '[', ']', '{', '}', '/', '%']

def isDelimiter (c : Char) : Bool := c ∈ delimiters

/-- A name that ends where a text begins; nothing in an object begins with a brace. -/
def IsName (name after : Chars) : Prop :=
  (∀ c ∈ name, white c = false ∧ isDelimiter c = false) ∧
    ∀ c ∈ after.head?, white c = true ∨ isDelimiter c = true ∧ c ≠ '{' ∧ c ≠ '}'

/-- The characters of a literal string, with balanced brackets. -/
inductive IsString : Chars → Prop
  | nil : IsString []
  | char {c : Char} {rest : Chars} : c ∉ ['(', ')', '\\'] → IsString rest → IsString (c :: rest)
  | escape {c : Char} {rest : Chars} : IsString rest → IsString ('\\' :: c :: rest)
  | nested {inner rest : Chars} : IsString inner → IsString rest →
      IsString ('(' :: (inner ++ ')' :: rest))

def isPlain (c : Char) : Bool := !isDelimiter c

/-- What follows the words at the beginning of a text, with white space and comments. -/
def afterWords : Chars → Chars := skip isPlain false

inductive Part where
  | object
  | items
  | members

/-- A text begins with an object, or with what follows the opening of an array or a dictionary: the
keys of that dictionary, of each inner one, and the rest. Words have no keys and are taken together.
-/
inductive Reads : Part → Chars → List Chars → List (List Chars) → Chars → Prop
  | words {text inner : Chars} {c : Char} : skip white false text = c :: inner →
      isPlain c = true → Reads .object text [] [] (afterWords inner)
  | name {text name rest : Chars} : skip white false text = '/' :: (name ++ rest) →
      IsName white name rest → Reads .object text [] [] rest
  | string {text chars rest : Chars} : skip white false text = '(' :: (chars ++ ')' :: rest) →
      IsString chars → Reads .object text [] [] rest
  | hex {text chars rest : Chars} : skip white false text = '<' :: (chars ++ '>' :: rest) →
      (∀ c ∈ chars, isHexDigit c = true ∨ white c = true) → Reads .object text [] [] rest
  | array {text inner rest : Chars} {inside : List (List Chars)} :
      skip white false text = '[' :: inner → Reads .items inner [] inside rest →
      Reads .object text [] inside rest
  | dictionary {text inner rest : Chars} {keys : List Chars} {inside : List (List Chars)} :
      skip white false text = '<' :: '<' :: inner → Reads .members inner keys inside rest →
      Reads .object text [] (keys :: inside) rest
  | noItem {text rest : Chars} : skip white false text = ']' :: rest → Reads .items text [] [] rest
  | item {text middle rest : Chars} {inside others : List (List Chars)} :
      Reads .object text [] inside middle → Reads .items middle [] others rest →
      Reads .items text [] (inside ++ others) rest
  | noMember {text rest : Chars} : skip white false text = '>' :: '>' :: rest →
      Reads .members text [] [] rest
  | member {text key after middle rest : Chars} {keys : List Chars}
      {inside others : List (List Chars)} :
      skip white false text = '/' :: (key ++ after) → IsName white key after →
      Reads .object after [] inside middle → Reads .members middle keys others rest →
      Reads .members text (key :: keys) (inside ++ others) rest

/-- A text begins with an object that has dictionaries with these keys. -/
def HasKeys (text : Chars) (dictionaries : List (List Chars)) : Prop :=
  ∃ rest, Reads white .object text [] dictionaries rest

end

/-- No dictionary has two keys with one name. -/
def Unique (dictionaries : List (List Chars)) : Prop :=
  ∀ keys ∈ dictionaries, (keys.map decode).Nodup

variable {white wider p : Char → Bool} {text rest inner token : Chars} {c : Char} {flag : Bool}

theorem skip_cons : skip white false (c :: rest) = if white c then skip white false rest
    else if c = '%' then skip white true rest else c :: rest := rfl

theorem skip_skip (hwider : ∀ c, white c = true → wider c = true) (hpercent : wider '%' = false) :
    skip wider false (skip white flag text) = skip wider flag text := by
  induction text generalizing flag with
  | nil => cases flag <;> rfl
  | cons c rest ih =>
    cases flag with
    | true => exact ih
    | false =>
      by_cases hwhite : white c = true
      · rw [skip_cons, if_pos hwhite, skip_cons, if_pos (hwider c hwhite)]
        exact ih
      · by_cases hc : c = '%'
        · rw [skip_cons, if_neg hwhite, if_pos hc, skip_cons, if_pos hc,
            if_neg (by rw [hc, hpercent]; exact Bool.false_ne_true)]
          exact ih
        · rw [skip_cons, if_neg hwhite, if_neg hc]

theorem skip_append (htoken : ∀ c ∈ token, white c = true) :
    skip white false (token ++ rest) = skip white false rest := by
  induction token with
  | nil => rfl
  | cons c token ih =>
    rw [List.cons_append, skip_cons, if_pos (htoken c (.head _))]
    exact ih fun d hd => htoken d (.tail c hd)

theorem isPlain_of (hp : delimiters.all (fun c => !p c) = true) (c : Char) (hc : p c = true) :
    isPlain c = true := by
  rw [isPlain, Bool.not_eq_true', isDelimiter, decide_eq_false_iff_not]
  intro hmem
  have hnot := List.all_eq_true.mp hp c hmem
  rw [hc] at hnot
  cases hnot

theorem isPlain_of_isSpace : ∀ c, isSpace c = true → isPlain c = true := isPlain_of (by decide)

theorem isPlain_of_isDigit : ∀ c, isDigit c = true → isPlain c = true := isPlain_of (by decide)

theorem space_space : space (space text) = space text := skip_skip (fun _ h => h) rfl

theorem afterWords_space : afterWords (space text) = afterWords text :=
  skip_skip isPlain_of_isSpace rfl

theorem afterWords_afterWords : afterWords (afterWords text) = afterWords text :=
  skip_skip (fun _ h => h) rfl

theorem afterWords_cons (hc : isPlain c = true) : afterWords (c :: rest) = afterWords rest := if_pos hc

theorem afterWords_self (hc : isPlain c = false) (hpercent : c ≠ '%') :
    afterWords (c :: rest) = c :: rest := by
  rw [afterWords, skip_cons, if_neg (by rw [hc]; exact Bool.false_ne_true), if_neg hpercent]

/-- Something is read, and nothing but words and white space. -/
def Consumes (text rest : Chars) : Prop :=
  ∃ token, token ≠ [] ∧ text = token ++ rest ∧ ∀ c ∈ token, isPlain c = true

theorem Consumes.afterWords_eq (h : Consumes text rest) : afterWords rest = afterWords text := by
  obtain ⟨token, -, rfl, hplain⟩ := h
  exact (skip_append hplain).symm

theorem Consumes.length_lt (h : Consumes text rest) : rest.length < text.length := by
  obtain ⟨token, hne, rfl, -⟩ := h
  have := List.length_pos_iff.mpr hne
  rw [List.length_append]
  omega

theorem Consumes.trans {middle : Chars} (h : Consumes text middle) (h' : Consumes middle rest) :
    Consumes text rest := by
  obtain ⟨token, hne, rfl, hplain⟩ := h
  obtain ⟨last, -, rfl, hlast⟩ := h'
  refine ⟨token ++ last, fun heq => hne (List.append_eq_nil_iff.mp heq).1, ?_, fun c hc => ?_⟩
  · exact (List.append_assoc token last rest).symm
  · exact (List.mem_append.mp hc).elim (hplain c) (hlast c)

theorem consumes_dropWhile (hc : isPlain c = true) (hp : ∀ c, p c = true → isPlain c = true) :
    Consumes (c :: text) (text.dropWhile p) := by
  refine ⟨c :: text.takeWhile p, List.cons_ne_nil _ _, ?_, ?_⟩
  · rw [List.cons_append, List.takeWhile_append_dropWhile]
  · exact List.forall_mem_cons.mpr ⟨hc, fun d hd => hp d (List.mem_takeWhile_imp hd)⟩

theorem Consumes.cons (h : Consumes text rest) (hc : isPlain c = true) : Consumes (c :: text) rest := by
  obtain ⟨token, -, rfl, hplain⟩ := h
  exact ⟨c :: token, List.cons_ne_nil _ _, rfl, List.forall_mem_cons.mpr ⟨hc, hplain⟩⟩

theorem consumes_oneOrMore (hp : ∀ c, p c = true → isPlain c = true)
    (h : oneOrMore p text = some rest) : Consumes text rest := by
  cases text with
  | nil => cases h
  | cons c text =>
    rw [oneOrMore] at h
    split_ifs at h with hc
    cases h
    exact consumes_dropWhile (hp c hc) hp

theorem consumes_keyword {word : Chars} (hne : word ≠ []) (hword : word.all isPlain = true)
    (h : keyword word text = some rest) : Consumes text rest := by
  rw [keyword] at h
  split_ifs at h with hstart
  cases h
  have hsplit := List.take_append_drop word.length text
  rw [hstart.1] at hsplit
  exact ⟨word, hne, hsplit.symm, List.all_eq_true.mp hword⟩

theorem consumes_digits (h : digits text = some rest) : Consumes text rest := by
  unfold digits at h
  split at h
  · exact (consumes_oneOrMore isPlain_of_isDigit h).cons rfl
  · obtain ⟨whole, hwhole, rfl⟩ := Option.map_eq_some_iff.mp h
    have hconsumes := consumes_oneOrMore isPlain_of_isDigit hwhole
    unfold afterWhole
    split
    · exact hconsumes.trans (consumes_dropWhile rfl isPlain_of_isDigit)
    · exact hconsumes

theorem consumes_number (h : number text = some rest) : Consumes text rest := by
  unfold number at h
  split at h
  · exact (consumes_digits h).cons rfl
  · exact (consumes_digits h).cons rfl
  · exact consumes_digits h

theorem consumes_spacedDigits (h : spacedDigits text = some rest) : Consumes text rest := by
  obtain ⟨middle, hdigits, hspaces⟩ := Option.bind_eq_some_iff.mp h
  exact (consumes_oneOrMore isPlain_of_isDigit hdigits).trans
    (consumes_oneOrMore isPlain_of_isSpace hspaces)

theorem consumes_token (h : (reference text).or (scalar text) = some rest) : Consumes text rest := by
  rcases Option.or_eq_some_iff.mp h with hreference | ⟨-, hscalar⟩
  · obtain ⟨last, hlast, hmark⟩ := Option.bind_eq_some_iff.mp hreference
    obtain ⟨middle, hmiddle, hdigits⟩ := Option.bind_eq_some_iff.mp hlast
    exact ((consumes_spacedDigits hmiddle).trans (consumes_spacedDigits hdigits)).trans
      (consumes_keyword (by decide) (by decide) hmark)
  · rcases Option.or_eq_some_iff.mp hscalar with hnumber | ⟨-, hkeyword⟩
    · exact consumes_number hnumber
    · obtain ⟨word, hword, hkeyword⟩ := List.exists_of_findSome?_eq_some hkeyword
      have hplain : ∀ word ∈ keywords, word ≠ [] ∧ word.all isPlain = true := by decide
      exact consumes_keyword (hplain word hword).1 (hplain word hword).2 hkeyword

theorem skip_head (h : skip white flag text = c :: rest) : white c = false ∧ c ≠ '%' := by
  induction text generalizing flag with
  | nil => cases flag <;> cases h
  | cons d text ih =>
    cases flag with
    | true => exact ih h
    | false =>
      rw [skip_cons] at h
      split_ifs at h with hwhite hpercent
      · exact ih h
      · exact ih h
      · cases h
        exact ⟨Bool.eq_false_iff.mpr hwhite, hpercent⟩

theorem afterWords_of_head (heq : space text = c :: inner) (hc : isPlain c = false) :
    afterWords text = space text := by
  rw [← afterWords_space, heq]
  exact afterWords_self hc (skip_head heq).2

theorem Scan.bind_eq_ends {scan : Scan} {next : Chars → Scan} :
    scan.bind next = .ends rest ↔ ∃ middle, scan = .ends middle ∧ next middle = .ends rest := by
  cases scan with
  | running => exact ⟨nofun, fun ⟨_, h, _⟩ => nomatch h⟩
  | fails => exact ⟨nofun, fun ⟨_, h, _⟩ => nomatch h⟩
  | ends middle => exact ⟨fun h => ⟨middle, rfl, h⟩, fun ⟨_, h, hnext⟩ => by cases h; exact hnext⟩

variable {fuel depth : Nat} {seen : List Chars}

theorem value_cases (h : value fuel depth text = .ends rest) (heq : space text = token) :
    ∃ n, valueAt (members n depth []) (items n depth) token = .ends rest := by
  cases fuel with
  | zero => cases h
  | succ n =>
    rw [value, heq] at h
    split_ifs at h
    exact ⟨n, h⟩

theorem value_space : value fuel depth (space text) = value fuel depth text := by
  cases fuel with
  | zero => rfl
  | succ n => rw [value, value, space_space]

theorem value_plain (h : value fuel depth text = .ends rest) (hspace : space text = c :: inner)
    (hc : isPlain c = true) : afterWords rest = afterWords text := by
  obtain ⟨n, h⟩ := value_cases h hspace
  rw [← @afterWords_space text, hspace]
  unfold valueAt at h
  split at h
  case h_6 =>
    split at h
    · rename_i htoken
      cases h
      exact (consumes_token htoken).afterWords_eq
    · cases h
  all_goals
    rename_i heq
    cases heq
    cases hc

theorem items_cases (h : items fuel depth text = .ends rest) : space text = ']' :: rest ∨
    (space text).head? ≠ some ']' ∧ ∃ n middle, fuel = n + 1 ∧
      value n (depth + 1) text = .ends middle ∧ items n depth middle = .ends rest := by
  cases fuel with
  | zero => cases h
  | succ n =>
    rw [items] at h
    split at h
    · rename_i heq
      cases h
      exact .inl heq
    · rename_i hother
      obtain ⟨middle, hvalue, hitems⟩ := Scan.bind_eq_ends.mp h
      refine .inr ⟨fun hhead => ?_, n, middle, rfl, value_space.symm.trans hvalue, hitems⟩
      obtain ⟨rest, heq⟩ := List.head?_eq_some_iff.mp hhead
      exact hother rest heq

theorem items_space : items fuel depth (space text) = items fuel depth text := by
  cases fuel with
  | zero => rfl
  | succ n => rw [items, items, space_space]

theorem items_afterWords (h : items fuel depth text = .ends rest) :
    ∃ n, items n depth (afterWords text) = .ends rest := by
  induction fuel generalizing text with
  | zero => cases h
  | succ fuel ih =>
    cases heq : space text with
    | nil =>
      rw [← items_space, heq] at h
      exact ⟨fuel + 1, by rw [← afterWords_space, heq]; exact h⟩
    | cons c inner =>
      by_cases hc : isPlain c = true
      · rcases items_cases h with hclose | ⟨-, n, middle, hn, hvalue, hitems⟩
        · cases heq.symm.trans hclose
          cases hc
        · cases hn
          rw [← value_plain hvalue heq hc]
          exact ih hitems
      · refine ⟨fuel + 1, ?_⟩
        rw [afterWords_of_head heq (Bool.eq_false_iff.mpr hc), items_space]
        exact h

theorem members_cases (h : members fuel depth seen text = .ends rest) :
    space text = '>' :: '>' :: rest ∨ ∃ n inner middle, space text = '/' :: inner ∧
      decode (inner.takeWhile fun c => !endsName c) ∉ seen ∧
      value n (depth + 1) (inner.dropWhile fun c => !endsName c) = .ends middle ∧
      members n depth (decode (inner.takeWhile fun c => !endsName c) :: seen) middle = .ends rest := by
  cases fuel with
  | zero => cases h
  | succ n =>
    rw [members] at h
    split at h
    · rename_i heq
      cases h
      exact .inl heq
    · rename_i inner heq
      dsimp only at h
      split_ifs at h with hseen
      obtain ⟨middle, hvalue, hmembers⟩ := Scan.bind_eq_ends.mp h
      exact .inr ⟨n, inner, middle, heq, hseen, hvalue, hmembers⟩
    · cases h

theorem members_space : members fuel depth seen (space text) = members fuel depth seen text := by
  cases fuel with
  | zero => rfl
  | succ n => rw [members, members, space_space]

theorem members_afterWords (h : members fuel depth seen text = .ends rest) :
    members fuel depth seen (afterWords text) = .ends rest := by
  rcases members_cases h with heq | ⟨n, inner, middle, heq, -⟩
  all_goals
    rw [afterWords_of_head heq rfl, members_space]
    exact h

theorem skipString_append {chars : Chars} (h : IsString chars) (nested : Nat) :
    skipString (nested + 1) false (chars ++ rest) = skipString (nested + 1) false rest := by
  induction h generalizing nested rest with
  | nil => rfl
  | char hc _ ih =>
    simp only [List.mem_cons, List.not_mem_nil, or_false, not_or] at hc
    rw [List.cons_append, skipString, if_neg hc.1, if_neg hc.2.1, decide_eq_false hc.2.2]
    exact ih nested
  | escape _ ih => exact ih nested
  | @nested inner after _ _ ihinner ihafter =>
    rw [List.cons_append, List.append_assoc, List.cons_append]
    have hinner : skipString (nested + 2) false (inner ++ ')' :: (after ++ rest)) =
      skipString (nested + 2) false (')' :: (after ++ rest)) := ihinner (nested + 1)
    have hclose : skipString (nested + 2) false (')' :: (after ++ rest)) =
      skipString (nested + 1) false (after ++ rest) := rfl
    exact hinner.trans (hclose.trans (ihafter nested))

theorem dropWhile_append (htoken : ∀ c ∈ token, p c = true) (hrest : ∀ c ∈ rest.head?, p c = false) :
    (token ++ rest).dropWhile p = rest ∧ (token ++ rest).takeWhile p = token := by
  rw [List.dropWhile_append_of_pos htoken, List.takeWhile_append_of_pos htoken]
  cases rest with
  | nil => exact ⟨rfl, List.append_nil token⟩
  | cons c rest =>
    have hc : ¬ p c = true := by rw [hrest c rfl]; exact Bool.false_ne_true
    rw [List.dropWhile_cons_of_neg hc, List.takeWhile_cons_of_neg hc, List.append_nil]
    exact ⟨rfl, rfl⟩

theorem valueAt_hex {dictionary array : Chars → Scan} {chars : Chars}
    (h : ∀ c ∈ chars, isHexDigit c = true ∨ isSpace c = true) :
    valueAt dictionary array ('<' :: (chars ++ '>' :: rest)) = .ends rest := by
  have hskip : skipHex (chars ++ '>' :: rest) = .ends rest := by
    rw [skipHex, (dropWhile_append (fun c hc => Bool.or_eq_true_iff.mpr (h c hc)) _).1]
    · rfl
    · exact fun c hc => by cases hc; rfl
  rw [← hskip]
  cases chars with
  | nil => rfl
  | cons c chars =>
    unfold valueAt
    split
    case h_1 heq =>
      cases heq
      exact absurd (h '<' (.head _)) (by decide)
    case h_4 heq => cases heq; rfl
    case h_6 hangle hslash => exact (hangle _ rfl).elim
    all_goals
      rename_i heq
      cases heq

theorem endsName_iff : endsName c = true ↔
    isSpace c = true ∨ isDelimiter c = true ∧ c ≠ '{' ∧ c ≠ '}' := by
  simp only [endsName, isDelimiter, delimiters, Bool.or_eq_true, decide_eq_true_eq, List.mem_cons,
    List.not_mem_nil, or_false]
  constructor
  · rintro (h | h | h | h | h | h | h | h | h)
    · exact .inl h
    all_goals exact .inr (by rw [h]; decide)
  · rintro (h | ⟨h, hopen, hclose⟩)
    · exact .inl h
    · simp only [hopen, hclose, false_or] at h
      tauto

/-- The scanner reads a name as far as it goes. -/
theorem IsName.read {name after : Chars} (h : IsName isSpace name after) :
    (name ++ after).dropWhile (fun c => !endsName c) = after ∧
      (name ++ after).takeWhile (fun c => !endsName c) = name := by
  obtain ⟨hname, hafter⟩ := h
  refine dropWhile_append (fun c hc => ?_) fun c hc => ?_
  · rw [Bool.not_eq_true', Bool.eq_false_iff]
    intro hends
    rcases endsName_iff.mp hends with hspace | hdelimiter
    · rw [(hname c hc).1] at hspace
      cases hspace
    · rw [(hname c hc).2] at hdelimiter
      cases hdelimiter.1
  · rw [endsName_iff.mpr (hafter c hc)]
    rfl

theorem Reads.head {keys : List Chars} {inside : List (List Chars)}
    (h : Reads isSpace .object text keys inside rest) : ∃ c inner, space text = c :: inner ∧ c ≠ ']' ∧
      (isPlain c = true → inside = [] ∧ rest = afterWords text) := by
  cases h with
  | @words _ inner c heq hc =>
    refine ⟨c, inner, heq, fun hclose => ?_, fun _ => ⟨rfl, ?_⟩⟩
    · rw [hclose] at hc
      cases hc
    · have heq : space text = c :: inner := heq
      rw [← afterWords_cons hc, ← heq, afterWords_space]
  | name heq => exact ⟨_, _, heq, by decide, nofun⟩
  | string heq => exact ⟨_, _, heq, by decide, nofun⟩
  | hex heq => exact ⟨_, _, heq, by decide, nofun⟩
  | array heq => exact ⟨_, _, heq, by decide, nofun⟩
  | dictionary heq => exact ⟨_, _, heq, by decide, nofun⟩

theorem unique_append {inside others : List (List Chars)} (h : Unique inside) (h' : Unique others) :
    Unique (inside ++ others) := fun keys hkeys => (List.mem_append.mp hkeys).elim (h keys) (h' keys)

/-- What the scanner finds out about a part that it accepts; it may end anywhere among the words
after an object. -/
def Sound : Part → Chars → List Chars → List (List Chars) → Chars → Prop
  | .object, text, _, inside, rest => ∀ fuel depth last, value fuel depth text = .ends last →
      Unique inside ∧ afterWords last = afterWords rest
  | .items, text, _, inside, rest => ∀ fuel depth start last, afterWords start = afterWords text →
      items fuel depth start = .ends last → Unique inside ∧ last = rest
  | .members, text, keys, inside, rest => ∀ fuel depth seen start last,
      afterWords start = afterWords text → members fuel depth seen start = .ends last →
        Unique inside ∧ ((keys.map decode).Nodup ∧ ∀ key ∈ keys, decode key ∉ seen) ∧ last = rest

theorem members_start {start : Chars} (hstart : afterWords start = afterWords text)
    (heq : space text = c :: inner) (hc : isPlain c = false)
    (h : members fuel depth seen start = .ends rest) : members fuel depth seen text = .ends rest := by
  rw [← members_space, ← afterWords_of_head heq hc, ← hstart]
  exact members_afterWords h

theorem items_start {start : Chars} (hstart : afterWords start = afterWords text)
    (heq : space text = c :: inner) (hc : isPlain c = false)
    (h : items fuel depth start = .ends rest) : ∃ n, items n depth text = .ends rest := by
  obtain ⟨n, hn⟩ := items_afterWords h
  rw [hstart, afterWords_of_head heq hc, items_space] at hn
  exact ⟨n, hn⟩

theorem Reads.sound {part : Part} {keys : List Chars} {inside : List (List Chars)}
    (h : Reads isSpace part text keys inside rest) : Sound part text keys inside rest := by
  have hnone : Unique [] := fun _ hkeys => nomatch hkeys
  induction h with
  | @words text inner c heq hc =>
    intro fuel depth last hvalue
    have heq : space text = c :: inner := heq
    have hwords : afterWords text = afterWords inner := by
      rw [← afterWords_space, heq, afterWords_cons hc]
    exact ⟨hnone, by rw [value_plain hvalue heq hc, hwords, afterWords_afterWords]⟩
  | @name text name rest heq hname =>
    intro fuel depth last hvalue
    obtain ⟨n, hvalue⟩ := value_cases hvalue heq
    cases hvalue
    rw [hname.read.1]
    exact ⟨hnone, rfl⟩
  | @string text chars rest heq hchars =>
    intro fuel depth last hvalue
    obtain ⟨n, hvalue⟩ := value_cases hvalue heq
    have hclose : skipString 1 false (')' :: rest) = .ends rest := by
      rw [skipString, if_neg (by decide), if_pos rfl, skipString]
    cases hclose.symm.trans ((skipString_append hchars 0).symm.trans hvalue)
    exact ⟨hnone, rfl⟩
  | @hex text chars rest heq hchars =>
    intro fuel depth last hvalue
    obtain ⟨n, hvalue⟩ := value_cases hvalue heq
    cases (valueAt_hex hchars).symm.trans hvalue
    exact ⟨hnone, rfl⟩
  | @array text inner rest inside heq _ ih =>
    intro fuel depth last hvalue
    obtain ⟨n, hvalue⟩ := value_cases hvalue heq
    obtain ⟨hunique, rfl⟩ := ih n depth inner last rfl hvalue
    exact ⟨hunique, rfl⟩
  | @dictionary text inner rest keys inside heq _ ih =>
    intro fuel depth last hvalue
    obtain ⟨n, hvalue⟩ := value_cases hvalue heq
    obtain ⟨hunique, ⟨hnodup, -⟩, rfl⟩ := ih n depth [] inner last rfl hvalue
    exact ⟨List.forall_mem_cons.mpr ⟨hnodup, hunique⟩, rfl⟩
  | @noItem text rest heq =>
    intro fuel depth start last hstart hitems
    obtain ⟨n, hitems⟩ := items_start hstart heq rfl hitems
    rcases items_cases hitems with hclose | ⟨hopen, -⟩
    · cases heq.symm.trans hclose
      exact ⟨hnone, rfl⟩
    · exact absurd (congrArg List.head? heq) hopen
  | @item text middle rest inside others hobject _ ihobject ih =>
    intro fuel depth start last hstart hitems
    obtain ⟨c, inner, heq, hclose, hwords⟩ := hobject.head
    by_cases hc : isPlain c = true
    · obtain ⟨rfl, rfl⟩ := hwords hc
      exact ih fuel depth start last (hstart.trans afterWords_afterWords.symm) hitems
    · obtain ⟨n, hitems⟩ := items_start hstart heq (Bool.eq_false_iff.mpr hc) hitems
      rcases items_cases hitems with hend | ⟨-, n, between, -, hvalue, hitems⟩
      · exact absurd (List.cons.inj (heq.symm.trans hend)).1 hclose
      · obtain ⟨hinside, hbetween⟩ := ihobject n (depth + 1) between hvalue
        obtain ⟨hothers, hlast⟩ := ih n depth between last hbetween hitems
        exact ⟨unique_append hinside hothers, hlast⟩
  | @noMember text rest heq =>
    intro fuel depth seen start last hstart hmembers
    have hmembers := members_start hstart heq rfl hmembers
    rcases members_cases hmembers with hclose | ⟨n, inner, middle, hslash, -⟩
    · cases heq.symm.trans hclose
      exact ⟨hnone, ⟨List.nodup_nil, fun _ hkey => nomatch hkey⟩, rfl⟩
    · cases heq.symm.trans hslash
  | @member text key after middle rest keys inside others heq hkey _ _ ihobject ih =>
    intro fuel depth seen start last hstart hmembers
    have hmembers := members_start hstart heq rfl hmembers
    rcases members_cases hmembers with hclose | ⟨n, inner, between, hslash, hfresh, hvalue, hmembers⟩
    · cases heq.symm.trans hclose
    · rw [← (List.cons.inj (heq.symm.trans hslash)).2] at hfresh hvalue hmembers
      rw [hkey.read.2] at hfresh hmembers
      rw [hkey.read.1] at hvalue
      obtain ⟨hinside, hbetween⟩ := ihobject n (depth + 1) between hvalue
      obtain ⟨hothers, ⟨hnodup, hunseen⟩, hlast⟩ :=
        ih n depth (decode key :: seen) between last hbetween hmembers
      refine ⟨unique_append hinside hothers, ⟨List.nodup_cons.mpr ⟨fun hmem => ?_, hnodup⟩, ?_⟩, hlast⟩
      · obtain ⟨other, hother, hsame⟩ := List.mem_map.mp hmem
        exact hunseen other hother (hsame ▸ List.mem_cons_self)
      · exact List.forall_mem_cons.mpr ⟨hfresh, fun other hother hmem =>
          hunseen other hother (.tail _ hmem)⟩

/-- A scan with enough fuel comes to an end, and leaves less than it was given. -/
def Scan.Within (fuel need size : Nat) : Scan → Prop
  | .running => fuel < need
  | .fails => True
  | .ends rest => rest.length < size

theorem length_skip (white : Char → Bool) (flag : Bool) : (skip white flag text).length ≤ text.length := by
  induction text generalizing flag with
  | nil => cases flag <;> exact le_rfl
  | cons c text ih =>
    cases flag with
    | true => exact (ih _).trans (Nat.le_succ _)
    | false =>
      rw [skip_cons]
      split_ifs
      · exact (ih false).trans (Nat.le_succ _)
      · exact (ih true).trans (Nat.le_succ _)
      · exact le_rfl

theorem Scan.Within.mono {scan : Scan} {fuel' need need' size size' : Nat}
    (h : scan.Within fuel need size) (hneed : fuel < need → fuel' < need') (hsize : size ≤ size') :
    scan.Within fuel' need' size' := by
  cases scan with
  | running => exact hneed h
  | fails => trivial
  | ends rest => exact Nat.lt_of_lt_of_le h hsize

theorem within_skipString {need : Nat} (nested : Nat) (flag : Bool) :
    (skipString nested flag text).Within fuel need (text.length + 1) := by
  induction text generalizing nested flag with
  | nil =>
    cases nested with
    | zero => exact Nat.lt_succ_self _
    | succ nested => trivial
  | cons c text ih =>
    cases nested with
    | zero => exact Nat.lt_succ_self _
    | succ nested => cases flag <;> exact (ih _ _).mono id (Nat.le_succ _)

theorem within_skipHex {need : Nat} : (skipHex text).Within fuel need text.length := by
  have hlength := List.length_dropWhile_le (fun c => isHexDigit c || isSpace c) text
  unfold skipHex
  split
  · rename_i heq
    rw [heq] at hlength
    exact hlength
  · trivial

theorem within_bind {scan : Scan} {next : Chars → Scan} {need need' size size' : Nat}
    (h : scan.Within fuel need size) (hneed : need ≤ need') (hsize : ∀ rest : Chars,
      rest.length < size → (next rest).Within fuel need' size') :
    (scan.bind next).Within fuel need' size' := by
  cases scan with
  | running => exact Nat.lt_of_lt_of_le h hneed
  | fails => trivial
  | ends rest => exact hsize rest h

theorem within_valueAt {dictionary array : Chars → Scan} (hdictionary : ∀ inner : Chars,
      (dictionary inner).Within fuel (2 * inner.length + 2) inner.length)
    (harray : ∀ inner : Chars, (array inner).Within fuel (2 * inner.length + 2) inner.length) :
    (valueAt dictionary array text).Within (fuel + 1) (2 * text.length + 1) text.length := by
  unfold valueAt
  split
  · rename_i inner
    rw [List.length_cons, List.length_cons]
    exact (hdictionary inner).mono (by omega) (by omega)
  · rename_i inner
    rw [List.length_cons]
    exact (harray inner).mono (by omega) (by omega)
  · exact (within_skipString 1 false).mono id le_rfl
  · exact within_skipHex.mono id (Nat.le_succ _)
  · exact Nat.lt_succ_of_le (List.length_dropWhile_le _ _)
  · split
    · rename_i htoken
      exact (consumes_token htoken).length_lt
    · trivial

/-- Each turn of a loop leaves less of the text. -/
theorem within_scan (fuel : Nat) :
    (∀ depth text, (value fuel depth text).Within fuel (2 * text.length + 1) text.length) ∧
      (∀ depth seen text,
        (members fuel depth seen text).Within fuel (2 * text.length + 2) text.length) ∧
      ∀ depth text, (items fuel depth text).Within fuel (2 * text.length + 2) text.length := by
  induction fuel with
  | zero => exact ⟨fun _ _ => Nat.succ_pos _, fun _ _ _ => Nat.succ_pos _, fun _ _ => Nat.succ_pos _⟩
  | succ fuel ih =>
    obtain ⟨hvalue, hmembers, hitems⟩ := ih
    refine ⟨fun depth text => ?_, fun depth seen text => ?_, fun depth text => ?_⟩
    all_goals have hlength : (space text).length ≤ text.length := length_skip isSpace false
    · rw [value]
      split_ifs
      · trivial
      · exact (within_valueAt (hmembers depth []) (hitems depth)).mono (by omega) hlength
    · rw [members]
      split
      · rename_i heq
        rw [heq, List.length_cons, List.length_cons] at hlength
        exact Nat.lt_of_lt_of_le (by omega) hlength
      · rename_i inner heq
        rw [heq, List.length_cons] at hlength
        have hafter := List.length_dropWhile_le (fun c => !endsName c) inner
        dsimp only
        split_ifs
        · trivial
        · refine (within_bind (hvalue (depth + 1) _) le_rfl fun rest hrest =>
            (hmembers depth _ rest).mono ?_ hrest.le).mono ?_ ?_ <;> omega
      · trivial
    · rw [items]
      split
      · rename_i heq
        rw [heq, List.length_cons] at hlength
        exact Nat.lt_of_lt_of_le (Nat.lt_succ_self _) hlength
      · refine (within_bind (hvalue (depth + 1) _) le_rfl fun rest hrest =>
          (hitems depth rest).mono ?_ hrest.le).mono ?_ ?_ <;> omega

/-- `<</A 1/A 2>>` with a null character after the second key. -/
def nullAfterKey : Chars :=
  ['<', '<', '/', 'A', ' ', '1', '/', 'A', '\x00', ' ', '2', '>', '>']

end Stynx.PdfDictionaryKeys
