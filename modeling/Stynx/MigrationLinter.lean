import Stynx.DestructiveSql

/-!
# Statement rules of the migration linter

`tools/migration-linter/src/lint.ts`: a file that the SQL parser accepts is cut
into statements, and each statement is looked at in turn. One that creates a
table, by the helper or by itself, is set aside for the table rules; any other
is checked for destructive SQL (LINT005), for SECURITY DEFINER (LINT006) and for
grants on audit tables (LINT007).
-/

namespace Stynx.MigrationLinter

open RegExp SqlScanner DestructiveSql

def name : Pattern :=
  sequence [optional (char '"'), plus (.one fun c => isWordChar c || c == '$'), optional (char '"')]

def qualifiedName : Pattern :=
  sequence [.group 1 name, spaces, char '.', spaces, .group 2 name]

/-- `findStatementTableName`. -/
def tableName : Pattern :=
  sequence [choice [word "CREATE", word "ALTER"], spaces1, word "TABLE", spaces1,
    optional (sequence [word "IF", spaces1, word "NOT", spaces1, word "EXISTS", spaces1]),
    qualifiedName]

/-- `/CREATE\s+TABLE/i`. -/
def createTable : Pattern := sequence [word "CREATE", spaces1, word "TABLE"]

/-- The call of the helper around a dollar quote. -/
def helperCall : Pattern :=
  sequence [word "data.create_soft_deletable_table", spaces, char '(', spaces,
    .group 1 (sequence [char '$', .star true (.one isWordChar), char '$']),
    .group 2 (.star false anyChar), .back 1 sameLetter, spaces, char ')']

/-- `/(^|[,\s(])tenant_id\b/i`. -/
def tenantColumn : Pattern :=
  sequence [.group 1 (.alt .inputStart (.one fun c => c == ',' || isSpace c || c == '(')),
    word "tenant_id", .wordBoundary]

/-- `/@no_soft_delete\s*:/i`. -/
def noSoftDeleteNote : Pattern := sequence [word "@no_soft_delete", spaces, char ':']

structure QualifiedTableName where
  schema : Text
  table : Text

/-- Where a table creation is written. -/
inductive Source where
  | helper
  /-- In the statement itself. -/
  | explicit

structure TableDescriptor extends QualifiedTableName where
  body : Option Text
  qualifiedName : Text
  archiveName : Text
  line : Nat
  statementLine : Nat
  source : Source
  hasTenantId : Bool
  /-- Whether it opts out of soft deletion. -/
  noSoftDelete : Bool

def findStatementTableName (statement : Text) : Option QualifiedTableName :=
  match tableName.exec statement with
  | none => none
  | some found =>
    match found.capture 1, found.capture 2 with
    | some schema, some table => some ⟨normalizeIdentifier schema, normalizeIdentifier table⟩
    | _, _ => none

/-- `extractParenthesized(text, text.search(/CREATE\s+TABLE/i))`, from the start without a match. -/
def tableBody (text : Text) : Option Text :=
  extractParenthesized text (((createTable.exec text).map Match.index).getD 0)

def given (text : Option Text) : Option Text := text.filter fun t => !t.isEmpty

def helperCreateTable (statement : Statement) : Option TableDescriptor :=
  match helperCall.exec statement.text with
  | none => none
  | some found =>
    match given (found.capture 2) with
    | none => none
    | some ddl => (findStatementTableName ddl).map fun table =>
      { table with
        body := given (tableBody ddl)
        qualifiedName := toQualifiedName table.schema table.table
        archiveName := toArchiveName table.schema table.table
        line := statement.line
        statementLine := statement.line
        source := .helper
        hasTenantId := true
        noSoftDelete := false }

def explicitCreateTable (statement : Statement) : Option TableDescriptor :=
  if createTable.test statement.text then
    match findStatementTableName statement.text with
    | none => none
    | some table => (given (tableBody statement.text)).map fun body =>
      { table with
        body := some body
        qualifiedName := toQualifiedName table.schema table.table
        archiveName := toArchiveName table.schema table.table
        line := statement.line
        statementLine := statement.line
        source := .explicit
        hasTenantId := tenantColumn.test body
        noSoftDelete := noSoftDeleteNote.test statement.text }
  else none

def destructiveApproved (statement : Text) : Bool :=
  (sequence [word "@destructive:", spaces, word "approved-by="]).test statement

/-- `/\bSECURITY\s+DEFINER\b/i`. -/
def securityDefiner : Pattern :=
  sequence [.wordBoundary, word "SECURITY", spaces1, word "DEFINER", .wordBoundary]

def securityDefinerApproved (statement : Text) : Bool :=
  (sequence [word "@security-definer-approved:", spaces,
    plus (.one fun c => c ≠ '/' && !isSpace c), char '/', plus (.one fun c => !isSpace c)]).test
      statement

/-- `/ON\s+TABLE?\s+audit\./i`: the question mark is about the last letter of the word. -/
def onAuditTable : Pattern :=
  sequence [word "ON", spaces1, word "TABL", optional (word "E"), spaces1, word "audit."]

/-- `/TO\s+stynx_app\b/i`. -/
def toApplication : Pattern := sequence [word "TO", spaces1, word "stynx_app", .wordBoundary]

/-- `/GRANT\s+([\s\S]*?)\s+ON\s+TABLE?\s+audit\./i`. -/
def auditGrant : Pattern :=
  sequence [word "GRANT", spaces1, .group 1 (.star false anyChar), spaces1, onAuditTable]

/-- `text.replace(/\s+/g, ' ')`: each run of blanks becomes one space. -/
def joinBlanks : Text → Text
  | [] => []
  | c :: rest =>
    if isSpace c then
      if rest.head?.any isSpace then joinBlanks rest else ' ' :: joinBlanks rest
    else c :: joinBlanks rest

/-- `toUpperCase`, as far as it leads to ASCII letters. -/
def upperChar (c : Char) : Char :=
  if c.toNat = 0x131 then 'I' else if c.toNat = 0x17f then 'S' else c.toUpper

/-- `privileges.replace(/\s+/g, ' ').trim().toUpperCase() !== 'SELECT'`. -/
def beyondSelect (privileges : Text) : Bool :=
  (trim (joinBlanks privileges)).map upperChar ≠ "SELECT".toList

def grantViolatesAuditRule (statement : Text) : Bool :=
  if (word "GRANT").test statement && toApplication.test statement && onAuditTable.test statement then
    match (auditGrant.exec statement).bind fun found => given (found.capture 1) with
    | none => false
    | some privileges => beyondSelect privileges
  else false

/-- The rules about one statement. -/
inductive LintCode where
  /-- Destructive SQL. -/
  | lint005
  /-- SECURITY DEFINER. -/
  | lint006
  /-- Grants on audit tables. -/
  | lint007

structure LintIssue where
  code : LintCode
  file : String
  message : String
  line : Nat
  statementLine : Nat

def createIssue (file : String) (statement : Statement) (code : LintCode) (message : String) :
    LintIssue := ⟨code, file, message, statement.line, statement.line⟩

/-- The turn of the loop of `lintRoot` for one statement, as far as it reports. -/
def statementIssues (file : String) (statement : Statement) : List LintIssue :=
  match helperCreateTable statement with
  | some _ => []
  | none =>
    match explicitCreateTable statement with
    | some _ => []
    | none =>
      (if containsDestructiveSql statement.text && !destructiveApproved statement.text then
        [createIssue file statement .lint005
          "Destructive migration statement requires -- @destructive: approved-by=<ticket>."]
      else []) ++
      (if securityDefiner.test statement.text && !securityDefinerApproved statement.text then
        [createIssue file statement .lint006
          "SECURITY DEFINER requires -- @security-definer-approved: <name>/<ticket>."]
      else []) ++
      (if grantViolatesAuditRule statement.text then
        [createIssue file statement .lint007 "audit.* tables are SELECT-only to stynx_app."]
      else [])

structure FileResult where
  issues : List LintIssue
  /-- The message of the parser, when it rejects the file. -/
  parserIssue : Option String

/-- `lintRoot` for one file; `validate` is the SQL parser. -/
def lintFile (validate : Text → Option String) (file : String) (sql : Text) : FileResult :=
  match validate sql with
  | some message => ⟨[], some message⟩
  | none => ⟨(splitStatements sql).flatMap (statementIssues file), none⟩

def anyAuditGrant : Pattern :=
  sequence [word "GRANT", spaces1, .group 1 (.star false anyChar), spaces1, word "ON", spaces1,
    optional (.seq (word "TABLE") spaces1), word "audit."]

/-- Some grant on an audit table to the application is of more than SELECT. -/
def grantsBeyondSelect (statement : Text) : Bool :=
  toApplication.test statement && (anyAuditGrant.allMatches statement).any fun found =>
    (given (found.capture 1)).any beyondSelect

/-- What each statement rule is about, without an approval of the statement's own. -/
def needsReport (statement : Text) : LintCode → Bool
  | .lint005 => containsDestructiveSql statement && !destructiveApproved statement
  | .lint006 => securityDefiner.test statement && !securityDefinerApproved statement
  | .lint007 => grantsBeyondSelect statement

/-- The turn of a statement reports under a rule. -/
def Reported (file : String) (statement : Statement) (code : LintCode) : Prop :=
  ∃ issue ∈ statementIssues file statement, issue.code = code

def notSetAside (statement : Statement) : Bool :=
  (helperCreateTable statement).isNone && (explicitCreateTable statement).isNone

/-- When the linter does report what it has to report for a statement. -/
def ReportsAll (statement : Statement) : Prop :=
  ((∃ code, needsReport statement.text code = true) → notSetAside statement = true) ∧
    (grantsBeyondSelect statement.text = true → grantViolatesAuditRule statement.text = true)

theorem mem_optional {cond : Bool} {issue found : LintIssue} :
    found ∈ (if cond then [issue] else []) ↔ cond = true ∧ found = issue := by
  cases cond <;> simp

theorem reported_iff (file : String) (statement : Statement) (code : LintCode) :
    Reported file statement code ↔ notSetAside statement = true ∧
      match code with
      | .lint005 => needsReport statement.text .lint005 = true
      | .lint006 => needsReport statement.text .lint006 = true
      | .lint007 => grantViolatesAuditRule statement.text = true := by
  rw [Reported, statementIssues, notSetAside]
  cases helperCreateTable statement with
  | some table => simp
  | none =>
    cases explicitCreateTable statement with
    | some table => simp
    | none =>
      simp only [List.mem_append, mem_optional, or_and_right, exists_or, and_assoc]
      cases code <;> simp [createIssue, needsReport]

def creatingBlock : Text :=
  "DO $$ BEGIN CREATE TABLE app.b (id int); DROP TABLE app.c; END $$;".toList

theorem creatingBlock_chars : creatingBlock =
    ['D', 'O', ' ', '$', '$', ' ', 'B', 'E', 'G', 'I', 'N', ' ', 'C', 'R', 'E', 'A', 'T', 'E', ' ',
     'T', 'A', 'B', 'L', 'E', ' ', 'a', 'p', 'p', '.', 'b', ' ', '(', 'i', 'd', ' ', 'i', 'n', 't',
     ')', ';', ' ', 'D', 'R', 'O', 'P', ' ', 'T', 'A', 'B', 'L', 'E', ' ', 'a', 'p', 'p', '.', 'c',
     ';', ' ', 'E', 'N', 'D', ' ', '$', '$', ';'] :=
  String.toList_ofList

/-- A grant without the word TABLE. -/
def plainGrant : Text := "GRANT INSERT ON audit.events TO stynx_app;".toList

theorem plainGrant_chars : plainGrant =
    ['G', 'R', 'A', 'N', 'T', ' ', 'I', 'N', 'S', 'E', 'R', 'T', ' ', 'O', 'N', ' ', 'a', 'u', 'd',
     'i', 't', '.', 'e', 'v', 'e', 'n', 't', 's', ' ', 'T', 'O', ' ', 's', 't', 'y', 'n', 'x', '_',
     'a', 'p', 'p', ';'] :=
  String.toList_ofList

def threeViolations : Text := ("DO $$ BEGIN DROP TABLE app.c; ALTER FUNCTION app.f SECURITY DEFINER;" ++
  " GRANT INSERT ON TABLE audit.events TO stynx_app; END $$;").toList

def threeViolationsChars : Text :=
  ['D', 'O', ' ', '$', '$', ' ', 'B', 'E', 'G', 'I', 'N', ' ', 'D', 'R', 'O', 'P', ' ', 'T', 'A',
   'B', 'L', 'E', ' ', 'a', 'p', 'p', '.', 'c', ';', ' ', 'A', 'L', 'T', 'E', 'R', ' ', 'F', 'U',
   'N', 'C', 'T', 'I', 'O', 'N', ' ', 'a', 'p', 'p', '.', 'f', ' ', 'S', 'E', 'C', 'U', 'R', 'I',
   'T', 'Y', ' ', 'D', 'E', 'F', 'I', 'N', 'E', 'R', ';'] ++
  [' ', 'G', 'R', 'A', 'N', 'T', ' ', 'I', 'N', 'S', 'E', 'R', 'T', ' ', 'O', 'N', ' ', 'T', 'A',
   'B', 'L', 'E', ' ', 'a', 'u', 'd', 'i', 't', '.', 'e', 'v', 'e', 'n', 't', 's', ' ', 'T', 'O',
   ' ', 's', 't', 'y', 'n', 'x', '_', 'a', 'p', 'p', ';', ' ', 'E', 'N', 'D', ' ', '$', '$',
   ';']

theorem threeViolations_chars : threeViolations = threeViolationsChars :=
  String.toList_append.trans (congrArg₂ (· ++ ·) String.toList_ofList String.toList_ofList)

end Stynx.MigrationLinter
