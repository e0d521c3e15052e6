import Stynx.SqlScanner

/-!
# Destructive SQL

`tools/migration-linter/src/destructive.ts`: a statement is destructive when it
drops a table or a column or truncates, after the privilege names in catalog
inquiries have been masked, with comments as they are or as blanks.
-/

namespace Stynx.DestructiveSql

open RegExp SqlScanner

def privilege : Pattern :=
  .seq (choice [word "SELECT", word "INSERT", word "UPDATE", word "DELETE", word "TRUNCATE",
    word "REFERENCES", word "TRIGGER", word "MAINTAIN"]) (optional (word " WITH GRANT OPTION"))

def privilegeList : Pattern :=
  sequence [.inputStart, privilege,
    .star true (sequence [spaces, char ',', spaces, privilege]), .inputEnd]

/-- `/^pg_catalog\s*\.\s*has_table_privilege\s*\(/i`. -/
def inquiry : Pattern :=
  sequence [.inputStart, word "pg_catalog", spaces, char '.', spaces, word "has_table_privilege",
    spaces, char '(']

/-- `/^\s*'([^'\n\r]*)'(?=\s*(?:$|\|\|))/`. -/
def privilegeLiteral : Pattern :=
  sequence [.inputStart, spaces, char apostrophe,
    .group 1 (.star true (.one fun c => c ≠ apostrophe && c ≠ '\n' && c ≠ '\r')), char apostrophe,
    .lookahead (.seq spaces (.alt .inputEnd (.seq (char '|') (char '|'))))]

/-- A character from U+0080 on. -/
def isHigh (c : Char) : Bool := 0x80 ≤ c.toNat

/-- `/^[A-Za-z_\u0080-\uffff][A-Za-z0-9_$\u0080-\uffff]*/`. -/
def identifier : Pattern :=
  sequence [.inputStart, .one fun c => c.isAlpha || c == '_' || isHigh c,
    .star true (.one fun c => isWordChar c || c == '$' || isHigh c)]

/-- `/^\$(?:[A-Za-z_][A-Za-z0-9_]*)?\$/`. -/
def dollarQuote : Pattern :=
  sequence [.inputStart, char '$', optional (.seq (.one fun c => c.isAlpha || c == '_')
    (.star true (.one isWordChar))), char '$']

/-- Write a text over another from a position on. -/
def overwrite (output : Text) (start : Nat) (body : Text) : Text :=
  output.take start ++ body ++ output.drop (start + body.length)

/-- Blanks from a position up to another. -/
def blank (output : Text) (start stop : Nat) : Text :=
  overwrite output start (List.replicate (stop - start) ' ')

/-- The end of a block comment with the comments inside of it, of which `depth` are open. -/
def blockCommentEnd : Nat → Nat → Text → Option Nat
  | _, 0, _ => some 0
  | 0, _ + 1, _ => none
  | _ + 1, _ + 1, [] => none
  | fuel + 1, depth + 1, c :: rest =>
    if ['/', '*'].isPrefixOf (c :: rest) then
      (blockCommentEnd fuel (depth + 2) (rest.drop 1)).map (· + 2)
    else if ['*', '/'].isPrefixOf (c :: rest) then
      (blockCommentEnd fuel depth (rest.drop 1)).map (· + 2)
    else (blockCommentEnd fuel (depth + 1) rest).map (· + 1)

/-- The end of a quoted text after its opening quote; a backslash makes the text ambiguous. -/
def quoteEnd (quote : Char) : Nat → Text → Option Nat
  | 0, _ => none
  | _ + 1, [] => none
  | fuel + 1, c :: rest =>
    if c = '\\' then none
    else if c = quote then
      if rest.head? = some quote then (quoteEnd quote fuel (rest.drop 1)).map (· + 2) else some 1
    else (quoteEnd quote fuel rest).map (· + 1)

/-- Where the privilege names of a catalog inquiry stand, from its text on. -/
def privilegeSpan (text : Text) (opening : Nat) : Option (Nat × Nat) :=
  match extractParenthesized text opening with
  | none => none
  | some body =>
    match splitTopLevel body ',' with
    | [first, second, third] =>
      match privilegeLiteral.execStart third with
      | none => none
      | some literal =>
        match literal.capture 1 with
        | none => none
        | some value =>
          if privilegeList.test value then
            let start := opening + 1 + first.length + 1 + second.length + 1 +
              (indexIn [apostrophe] literal.text).getD 0
            some (start, start + value.length + 2)
          else none
    | _ => none

/-- Whether a catalog inquiry may start here. -/
def startsInquiry (text : Text) (cursor : Nat) (previousWord : Text) : Bool :=
  previousWord ≠ ['.'] &&
    (cursor == 0 || !(text[cursor - 1]?).any fun c => isWordChar c || c == '$' || c == '.' || isHigh c)

/-- The output after a catalog inquiry at the cursor, if there is one. -/
def maskInquiry (text output : Text) (cursor : Nat) (previousWord : Text) : Text :=
  match inquiry.execStart (text.drop cursor) with
  | none => output
  | some call =>
    if startsInquiry text cursor previousWord then
      match privilegeSpan text (cursor + (call.text.length - 1)) with
      | some span => blank output span.1 span.2
      | none => output
    else output

/-- The loop of `catalogInquiryProjection`; `none` is its early `return text`. -/
def projectionLoop (normalizeComments : Bool) : Nat → Text → Text → Nat → Text → Option Text
  | 0, _, output, _, _ => some output
  | fuel + 1, text, output, cursor, previousWord =>
    let comment := fun stop : Nat =>
      projectionLoop normalizeComments fuel text
        (if normalizeComments then blank output cursor stop else output) stop previousWord
    match text.drop cursor with
    | [] => some output
    | current :: after =>
      if isSpace current then
        projectionLoop normalizeComments fuel text output (cursor + 1) previousWord
      else if ['-', '-'].isPrefixOf (current :: after) then
        match indexOf text ['\n'] cursor with
        | some stop => comment (stop + 1)
        | none => comment text.length
      else if ['/', '*'].isPrefixOf (current :: after) then
        match blockCommentEnd text.length 1 (after.drop 1) with
        | none => none
        | some count => comment (cursor + 2 + count)
      else if current = apostrophe ∨ current = '"' then
        match quoteEnd current text.length after with
        | none => none
        | some count => projectionLoop normalizeComments fuel text output (cursor + 1 + count) []
      else
        match dollarQuote.execStart (current :: after) with
        | some dollar =>
          let bodyStart := cursor + dollar.text.length
          match indexOf text dollar.text bodyStart with
          | none => none
          | some stop =>
            let body := slice text bodyStart stop
            let output' :=
              if previousWord = "DO".toList then
                overwrite output bodyStart
                  ((projectionLoop normalizeComments fuel body body 0 []).getD body)
              else output
            projectionLoop normalizeComments fuel text output' (stop + dollar.text.length) []
        | none =>
          let output' := maskInquiry text output cursor previousWord
          match identifier.execStart (current :: after) with
          | some found =>
            projectionLoop normalizeComments fuel text output' (cursor + found.text.length)
              (found.text.map Char.toUpper)
          | none =>
            projectionLoop normalizeComments fuel text output' (cursor + 1)
              (if current = '.' then ['.'] else [])

def catalogInquiryProjection (text : Text) (normalizeComments : Bool) : Text :=
  (projectionLoop normalizeComments text.length text text 0 []).getD text

/-- `/\b(DROP\s+TABLE|TRUNCATE\b|ALTER\s+TABLE[\s\S]*DROP\s+COLUMN)\b/i`. -/
def destructive : Pattern :=
  sequence [.wordBoundary, .group 1 (choice [sequence [word "DROP", spaces1, word "TABLE"],
    sequence [word "TRUNCATE", .wordBoundary],
    sequence [word "ALTER", spaces1, word "TABLE", .star true anyChar, word "DROP", spaces1,
      word "COLUMN"]]), .wordBoundary]

def containsDestructiveSql (text : Text) : Bool :=
  destructive.test (catalogInquiryProjection text false) ||
    destructive.test (catalogInquiryProjection text true)

end Stynx.DestructiveSql
