import Mathlib.Data.List.Basic

/-!
# Regular expressions by backtracking

Patterns of ECMAScript as its matcher tries them: the first alternative before
the second, a greedy repetition as often as possible and a lazy one as rarely,
with groups, back references, assertions and lookahead. A match is looked for
at each position from the left.
-/

namespace Stynx.RegExp

inductive Pattern where
  | empty
  /-- One character of a class. -/
  | one (accepts : Char → Bool)
  | seq (first second : Pattern)
  /-- One pattern, or else another. -/
  | alt (first second : Pattern)
  /-- Any number of times, as often as possible or as rarely. -/
  | star (greedy : Bool) (body : Pattern)
  | group (index : Nat) (body : Pattern)
  /-- What a group has captured, up to an equivalence of characters. -/
  | back (index : Nat) (same : Char → Char → Bool)
  | wordBoundary
  | inputStart
  | inputEnd
  | lookahead (body : Pattern)

/-- Where the matcher stands. -/
structure Cursor where
  before : Option Char
  position : Nat
  rest : List Char
  /-- What the groups have captured, the latest first. -/
  captures : List (Nat × List Char)

/-- What the matcher does after a pattern. -/
abbrev Continuation := Cursor → Option Cursor

/-- Past some characters. -/
def Cursor.skip (cursor : Cursor) (count : Nat) : Cursor where
  before := (cursor.rest.take count).getLast?.or cursor.before
  position := cursor.position + count
  rest := cursor.rest.drop count
  captures := cursor.captures

/-- `[A-Za-z0-9_]`. -/
def isWordChar (c : Char) : Bool := c.isAlphanum || c == '_'

/-- Whether a word starts or ends here. -/
def Cursor.atBoundary (cursor : Cursor) : Bool :=
  cursor.before.any isWordChar != cursor.rest.head?.any isWordChar

def Pattern.groups : Pattern → List Nat
  | .seq first second => first.groups ++ second.groups
  | .alt first second => first.groups ++ second.groups
  | .star _ body => body.groups
  | .group index body => index :: body.groups
  | .lookahead body => body.groups
  | _ => []

def Cursor.forget (cursor : Cursor) (groups : List Nat) : Cursor :=
  { cursor with captures := cursor.captures.filter fun capture => capture.1 ∉ groups }

/-- Repeat a matcher; a turn that reads nothing does not count. -/
def repeated (body : Cursor → Continuation → Option Cursor) (groups : List Nat) (greedy : Bool) :
    Nat → Cursor → Continuation → Option Cursor
  | 0, cursor, next => next cursor
  | fuel + 1, cursor, next =>
    let again := fun _ : Unit => body (cursor.forget groups) fun after =>
      if after.position = cursor.position then none
      else repeated body groups greedy fuel after next
    if greedy then
      match again () with
      | some result => some result
      | none => next cursor
    else
      match next cursor with
      | some result => some result
      | none => again ()

/-- Whether one text starts another, up to an equivalence of characters. -/
def startsWith (same : Char → Char → Bool) : List Char → List Char → Bool
  | [], _ => true
  | _ :: _, [] => false
  | c :: text, d :: rest => same c d && startsWith same text rest

def Pattern.run : Pattern → Cursor → Continuation → Option Cursor
  | .empty, cursor, next => next cursor
  | .one accepts, cursor, next =>
    if cursor.rest.head?.any accepts then next (cursor.skip 1) else none
  | .seq first second, cursor, next => first.run cursor fun after => second.run after next
  | .alt first second, cursor, next =>
    match first.run cursor next with
    | some result => some result
    | none => second.run cursor next
  | .star greedy body, cursor, next =>
    repeated body.run body.groups greedy cursor.rest.length cursor next
  | .group index body, cursor, next => body.run cursor fun after =>
    next { after with
      captures := (index, cursor.rest.take (after.position - cursor.position)) :: after.captures }
  | .back index same, cursor, next =>
    match cursor.captures.lookup index with
    | none => next cursor
    | some text =>
      if startsWith same text cursor.rest then next (cursor.skip text.length) else none
  | .wordBoundary, cursor, next => if cursor.atBoundary then next cursor else none
  | .inputStart, cursor, next => if cursor.position = 0 then next cursor else none
  | .inputEnd, cursor, next => if cursor.rest.isEmpty then next cursor else none
  | .lookahead body, cursor, next =>
    match body.run cursor some with
    | some after => next { cursor with captures := after.captures }
    | none => none

structure Match where
  index : Nat
  text : List Char
  captures : List (Nat × List Char)

def Pattern.matchAt (pattern : Pattern) (cursor : Cursor) : Option Match :=
  (pattern.run cursor some).map fun after =>
    ⟨cursor.position, cursor.rest.take (after.position - cursor.position), after.captures⟩

/-- All matches by their start, from a position on. -/
def Pattern.matchesFrom (pattern : Pattern) (before : Option Char) (position : Nat) :
    List Char → List Match
  | [] => (pattern.matchAt ⟨before, position, [], []⟩).toList
  | c :: rest => (pattern.matchAt ⟨before, position, c :: rest, []⟩).toList ++
      pattern.matchesFrom (some c) (position + 1) rest

def Pattern.allMatches (pattern : Pattern) (text : List Char) : List Match :=
  pattern.matchesFrom none 0 text

def Pattern.exec (pattern : Pattern) (text : List Char) : Option Match :=
  (pattern.allMatches text).head?

def Pattern.test (pattern : Pattern) (text : List Char) : Bool :=
  (pattern.exec text).isSome

def Pattern.execStart (pattern : Pattern) (text : List Char) : Option Match :=
  pattern.matchAt ⟨none, 0, text, []⟩

def Match.capture (found : Match) (index : Nat) : Option (List Char) :=
  found.captures.lookup index

def isSpace (c : Char) : Bool :=
  c.toNat ∈ [0x20, 0xa0, 0x1680, 0x2028, 0x2029, 0x202f, 0x205f, 0x3000, 0xfeff] ||
    (0x9 ≤ c.toNat && c.toNat ≤ 0xd) || (0x2000 ≤ c.toNat && c.toNat ≤ 0x200a)

/-- Equality of letters without case, as far as one of them is an ASCII letter. -/
def sameLetter (c d : Char) : Bool := c.toLower == d.toLower

/-- One pattern after the other. -/
def sequence : List Pattern → Pattern
  | [] => .empty
  | [pattern] => pattern
  | pattern :: rest => .seq pattern (sequence rest)

/-- The first pattern that leads to a match. -/
def choice : List Pattern → Pattern
  | [] => .one fun _ => false
  | [pattern] => pattern
  | pattern :: rest => .alt pattern (choice rest)

def plus (body : Pattern) : Pattern := .seq body (.star true body)

def optional (body : Pattern) : Pattern := .alt body .empty

def char (c : Char) : Pattern := .one (· == c)

/-- A text whose ASCII letters stand for both cases. -/
def word (text : String) : Pattern := sequence (text.toList.map fun c => .one (sameLetter c))

def spaces : Pattern := .star true (.one isSpace)

def spaces1 : Pattern := plus (.one isSpace)

/-- `[\s\S]`. -/
def anyChar : Pattern := .one fun _ => true

def trim (text : List Char) : List Char :=
  ((text.dropWhile isSpace).reverse.dropWhile isSpace).reverse

end Stynx.RegExp
