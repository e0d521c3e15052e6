import Stynx.RegExp

/-!
# Cutting SQL texts

`tools/migration-linter/src/sql.ts`: three functions go through a text character
by character and keep track of comments, quoted texts and dollar quotes in the
same way; `turn` is what one round of their loops reads.
-/

namespace Stynx.SqlScanner

open RegExp

abbrev Text := List Char

/-- The single quote. -/
def apostrophe : Char := Char.ofNat 39

def slice (text : Text) (start stop : Nat) : Text := (text.drop start).take (stop - start)

def indexIn (piece : Text) : Text → Option Nat
  | [] => if piece.isEmpty then some 0 else none
  | c :: rest =>
    if piece.isPrefixOf (c :: rest) then some 0 else (indexIn piece rest).map (· + 1)

def indexOf (text piece : Text) (fromIndex : Nat) : Option Nat :=
  (indexIn piece (text.drop fromIndex)).map (· + fromIndex)

def lineNumberAt (text : Text) (index : Nat) : Nat := 1 + (text.take index).count '\n'

def normalizeIdentifier (value : Text) : Text :=
  let trimmed := trim value
  if trimmed.head? = some '"' ∧ trimmed.getLast? = some '"' then (trimmed.drop 1).dropLast
  else trimmed.map Char.toLower

def toQualifiedName (schema table : Text) : Text :=
  normalizeIdentifier schema ++ '.' :: normalizeIdentifier table

def toArchiveName (schema table : Text) : Text :=
  normalizeIdentifier schema ++ '_' :: normalizeIdentifier table

/-- `/^\$[A-Za-z0-9_]*\$/` on what is left of a text. -/
def dollarTag (rest : Text) : Option Text :=
  match rest with
  | '$' :: after =>
    match after.dropWhile isWordChar with
    | '$' :: _ => some ('$' :: after.takeWhile isWordChar ++ ['$'])
    | _ => none
  | _ => none

/-- What a scanner is inside of. -/
inductive Mode where
  | code
  | lineComment
  | blockComment
  | dollar (tag : Text)
  | singleQuote
  | doubleQuote

/-- One round of a scanner. -/
structure Turn where
  mode : Mode
  count : Nat
  /-- The character, when it stands outside of comments and quotes and opens none. -/
  plain : Option Char := none

/-- One round outside of comments and quotes. -/
def codeTurn (current : Char) (after : Text) : Turn :=
  if current = '-' ∧ after.head? = some '-' then ⟨.lineComment, 2, none⟩
  else if current = '/' ∧ after.head? = some '*' then ⟨.blockComment, 2, none⟩
  else
    match dollarTag (current :: after) with
    | some tag => ⟨.dollar tag, tag.length, none⟩
    | none =>
      if current = apostrophe then ⟨.singleQuote, 1, none⟩
      else if current = '"' then ⟨.doubleQuote, 1, none⟩
      else ⟨.code, 1, some current⟩

/-- One round of a scanner. -/
def turn (mode : Mode) (current : Char) (after : Text) : Turn :=
  match mode with
  | .lineComment => ⟨if current = '\n' then .code else .lineComment, 1, none⟩
  | .blockComment =>
    if current = '*' ∧ after.head? = some '/' then ⟨.code, 2, none⟩ else ⟨.blockComment, 1, none⟩
  | .dollar tag =>
    if tag.isPrefixOf (current :: after) then ⟨.code, tag.length, none⟩ else ⟨.dollar tag, 1, none⟩
  | .singleQuote =>
    if current = apostrophe ∧ after.head? = some apostrophe then ⟨.singleQuote, 2, none⟩
    else if current = apostrophe then ⟨.code, 1, none⟩
    else ⟨.singleQuote, 1, none⟩
  | .doubleQuote => ⟨if current = '"' then .code else .doubleQuote, 1, none⟩
  | .code => codeTurn current after

structure Statement where
  text : Text
  start : Nat
  line : Nat
  deriving DecidableEq

/-- A piece of a text as a statement, unless it is blank. -/
def piece (sql : Text) (start stop : Nat) : List Statement :=
  let text := trim (slice sql start stop)
  if 0 < text.length then [⟨text, start, lineNumberAt sql start⟩] else []

/-- The loop of `splitStatements`; each round reads a character at least. -/
def splitLoop (sql : Text) : Nat → Mode → Nat → Nat → Nat → List Statement
  | 0, _, _, start, _ => piece sql start sql.length
  | fuel + 1, mode, depth, start, cursor =>
    match sql.drop cursor with
    | [] => piece sql start sql.length
    | current :: after =>
      let next := turn mode current after
      let cursor' := cursor + next.count
      match next.plain with
      | some '(' => splitLoop sql fuel next.mode (depth + 1) start cursor'
      | some ')' => splitLoop sql fuel next.mode (depth - 1) start cursor'
      | some ';' =>
        if depth = 0 then
          piece sql start cursor' ++ splitLoop sql fuel next.mode depth cursor' cursor'
        else splitLoop sql fuel next.mode depth start cursor'
      | _ => splitLoop sql fuel next.mode depth start cursor'

def splitStatements (sql : Text) : List Statement := splitLoop sql sql.length .code 0 0 0

def topLevelLoop (text : Text) (separator : Char) : Nat → Mode → Nat → Nat → Nat → List Text
  | 0, _, _, start, _ => [text.drop start]
  | fuel + 1, mode, depth, start, cursor =>
    match text.drop cursor with
    | [] => [text.drop start]
    | current :: after =>
      let next := turn mode current after
      let cursor' := cursor + next.count
      match next.plain with
      | some '(' => topLevelLoop text separator fuel next.mode (depth + 1) start cursor'
      | some ')' => topLevelLoop text separator fuel next.mode (depth - 1) start cursor'
      | some c =>
        if c = separator ∧ depth = 0 then
          slice text start cursor :: topLevelLoop text separator fuel next.mode depth cursor' cursor'
        else topLevelLoop text separator fuel next.mode depth start cursor'
      | none => topLevelLoop text separator fuel next.mode depth start cursor'

def splitTopLevel (text : Text) (separator : Char) : List Text :=
  topLevelLoop text separator text.length .code 0 0 0

def parenthesizedLoop (text : Text) (start : Nat) : Nat → Mode → Nat → Nat → Option Text
  | 0, _, _, _ => none
  | fuel + 1, mode, depth, cursor =>
    match text.drop cursor with
    | [] => none
    | current :: after =>
      let next := turn mode current after
      let cursor' := cursor + next.count
      match next.plain with
      | some '(' => parenthesizedLoop text start fuel next.mode (depth + 1) cursor'
      | some ')' =>
        if depth - 1 = 0 then some (slice text (start + 1) cursor)
        else parenthesizedLoop text start fuel next.mode (depth - 1) cursor'
      | _ => parenthesizedLoop text start fuel next.mode depth cursor'

def extractParenthesized (text : Text) (fromIndex : Nat) : Option Text :=
  match indexOf text ['('] fromIndex with
  | none => none
  | some start => parenthesizedLoop text start text.length .code 0 start

end Stynx.SqlScanner
