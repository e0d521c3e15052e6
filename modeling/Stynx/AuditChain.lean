import Mathlib.Data.List.Dedup
import Mathlib.Data.List.Sort
import Stynx.LinkedLists
import Stynx.ReadCommitted

/-!
# The audit chain

The events of each tenant, and those without a tenant, form a chain of hashes. A transaction that
writes an event takes the advisory lock of the chain, reads its head, chooses an instant after
the head, and inserts the event; it stays with its first chain.

The functions of the database (hashes, the texts of instants and of rows) are given. The clock and
the generated keys may be any.
-/

namespace Stynx.AuditChain

open ReadCommitted
open LinkedLists

/-- `to_jsonb` of a row: the texts of its columns. -/
abbrev Row := List (String × Option String)

inductive Json where
  | row (columns : Row)
  | given (text : String)
  deriving DecidableEq

inductive TagValue where
  | flag
  | text (value : String)
  deriving DecidableEq

inductive Metadata where
  | given (text : String)
  | tags (tags : List (String × TagValue))
  deriving DecidableEq

/-- What an entry point passes to the insert. -/
structure EventFields where
  tenancyId : Option Nat
  actorId : Option Nat
  actorRole : Option String
  operation : String
  entity : String
  entityId : Option String
  pk : Option Json
  metadata : Metadata
  ipAddress : Option String
  requestId : Option String
  oldData : Option Json
  newData : Option Json
  deriving DecidableEq

/-- A row of `audit.events`. -/
structure Event extends EventFields where
  eventId : Nat
  occurredAt : Int
  previousHash : Option String
  rowHash : String
  /-- Epoch; the legacy rows are in epoch 0. -/
  epochId : Nat
  deriving DecidableEq

structure Functions where
  hashtextextended : String → Int
  /-- `encode(digest(text, 'sha256'), 'hex')`. -/
  sha256 : String → String
  md5 : Row → String
  formatHashTimestamp : Int → String
  jsonText : Json → String
  /-- `pg_column_size` of a JSON value. -/
  columnSize : String → Nat

/-- The settings of a transaction; an empty text is none. -/
structure Settings where
  tenantId : Option Nat
  actorId : Option Nat
  role : Option String
  requestId : Option String
  archiveMove : Option String
  archiveReason : Option String
  /-- `app.erasure_strategy`, or `app.lgpd_strategy`. -/
  erasureStrategy : Option String

/-- `TG_OP`. -/
inductive TriggerOperation where
  | insert
  | update
  | delete
  deriving DecidableEq

/-- The text of `TG_OP`. -/
def TriggerOperation.text : TriggerOperation → String
  | .insert => "INSERT"
  | .update => "UPDATE"
  | .delete => "DELETE"

structure RowChange where
  /-- `TG_OP`. -/
  operation : TriggerOperation
  /-- `TG_TABLE_SCHEMA`. -/
  schema : String
  /-- `TG_TABLE_NAME`. -/
  table : String
  old : Row
  new : Row

/-- The arguments of `audit.write_command_event`. -/
structure CommandEvent where
  operation : Option String
  entity : Option String
  entityId : Option String
  metadata : Option String
  ipAddress : Option String
  sessionId : Option String
  requestId : Option String
  oldData : Option Json
  newData : Option Json
  pk : Option Json

def Row.text? (row : Row) (column : String) : Option String :=
  (row.find? fun entry => entry.1 = column).bind Prod.snd

section

variable (f : Functions)

def changeTags (settings : Settings) (change : RowChange) : List (String × TagValue) :=
  let archive : Bool := change.schema = "archive"
  let moving (reason : String) : Bool :=
    settings.archiveMove = some "in_progress" && settings.archiveReason = some reason
  match settings.erasureStrategy with
  | some strategy =>
    [("lgpd_erasure", .flag), ("strategy", .text strategy)] ++
      if archive then [("from_archive", .flag)] else []
  | none =>
    if moving "soft_delete" && !archive && change.operation = .delete then
      [("soft_delete", .flag), ("archived", .flag),
        ("archive_table", .text ("archive." ++ change.schema ++ "_" ++ change.table))]
    else if moving "restore" && !archive && change.operation = .insert then
      [("restore", .flag), ("from_archive", .flag)]
    else if change.operation = .delete then
      ("hard_delete", .flag) :: if archive then [("from_archive", .flag)] else []
    else []

def isArchiveHalf (settings : Settings) (change : RowChange) : Bool :=
  settings.archiveMove = some "in_progress" && change.schema = "archive" &&
    (change.operation = .insert && settings.archiveReason = some "soft_delete" ||
      change.operation = .delete && settings.archiveReason = some "restore")

/-- `audit.fn_row_change`, up to the lock. -/
def fnRowChange (settings : Settings) (change : RowChange) : Option EventFields :=
  if isArchiveHalf settings change then none
  else
    let oldRow : Option Row := if change.operation = .insert then none else some change.old
    let newRow : Option Row := if change.operation = .delete then none else some change.new
    let row : Row := (newRow <|> oldRow).getD []
    let rowId : String :=
      (row.text? "id" <|> row.text? "tenant_id" <|> row.text? "document_id").getD (f.md5 row)
    some
      { tenancyId := settings.tenantId
        actorId := settings.actorId
        actorRole := none
        operation := change.operation.text
        entity := change.schema ++ "." ++ change.table
        entityId := some rowId
        pk := some (.row [("row_id", some rowId)])
        metadata := .tags (changeTags settings change)
        ipAddress := none
        requestId := settings.requestId
        oldData := oldRow.map .row
        newData := newRow.map .row }

def isBlank (text : Option String) : Bool := text.all fun t => t.toList.all (· = ' ')

/-- The length of a text; null has none. -/
def lengthOf (text : Option String) : Nat := (text.map String.length).getD 0

/-- `split_part(text, '.', n)` is empty for the first or the second part of a dotted text. -/
def hasEmptyPart (text : String) : Bool :=
  let chars := text.toList
  let rest := (chars.dropWhile (· ≠ '.')).drop 1
  chars.contains '.' && ((chars.takeWhile (· ≠ '.')).isEmpty || (rest.takeWhile (· ≠ '.')).isEmpty)

def exceedsBounds (event : CommandEvent) : Bool :=
  isBlank event.operation || isBlank event.entity || hasEmptyPart (event.entity.getD "") ||
    256 < lengthOf event.operation || 256 < lengthOf event.entity ||
    1024 < lengthOf event.entityId || 256 < lengthOf event.ipAddress ||
    1024 < lengthOf event.sessionId || 1024 < lengthOf event.requestId ||
    65536 < f.columnSize (event.metadata.getD "\x7b\x7d")

/-- `audit.write_command_event`, up to the lock; errors are `ERRCODE`s. -/
def writeCommandEvent (settings : Settings) (event : CommandEvent) : Except String EventFields :=
  if settings.role ≠ some "app" ∨ settings.tenantId = none ∨ settings.actorId = none then
    .error "42501"
  else if exceedsBounds f event then .error "22023"
  else
    let entity : String := event.entity.getD ""
    .ok
      { tenancyId := settings.tenantId
        actorId := settings.actorId
        actorRole := settings.role
        operation := event.operation.getD ""
        entity := if entity.toList.contains '.' then entity else "command." ++ entity
        entityId := event.entityId
        pk := event.pk
        metadata := .given (event.metadata.getD "\x7b\x7d")
        ipAddress := event.ipAddress
        requestId := event.requestId
        oldData := event.oldData
        newData := event.newData }

inductive EntryPoint where
  | rowChange (settings : Settings) (change : RowChange)
  | write (fields : EventFields)
  | commandEvent (settings : Settings) (event : CommandEvent)

/-- What an entry point does first. -/
def EntryPoint.fields : EntryPoint → Except String (Option EventFields)
  | .rowChange settings change => .ok (fnRowChange f settings change)
  | .write fields => .ok (some fields)
  | .commandEvent settings event => (writeCommandEvent f settings event).map some

end

section

variable (f : Functions)

def computeEventHash (event : Event) : String :=
  f.sha256 (String.intercalate "|"
    [toString event.eventId, f.formatHashTimestamp event.occurredAt,
      (event.tenancyId.map toString).getD "", (event.actorId.map toString).getD "",
      event.entity, event.entityId.getD "", event.operation,
      (event.oldData.map f.jsonText).getD "", (event.newData.map f.jsonText).getD "",
      event.previousHash.getD "GENESIS"])

def setEventRowHash (event : Event) : Event := { event with rowHash := computeEventHash f event }

def chainKey (tenancyId : Option Nat) : String := (tenancyId.map toString).getD "<null-tenant>"

def chainOf (tenancyId : Option Nat) (events : List Event) : List Event :=
  events.filter fun event => event.tenancyId = tenancyId

/-- `ORDER BY occurred_at DESC, event_id DESC`. -/
def headOrder (first second : Event) : Prop :=
  second.occurredAt < first.occurredAt ∨
    second.occurredAt = first.occurredAt ∧ second.eventId ≤ first.eventId

instance (first second : Event) : Decidable (headOrder first second) :=
  inferInstanceAs (Decidable (_ ∨ _ ∧ _))

/-- `ORDER BY occurred_at, event_id`. -/
def eventOrder (first second : Event) : Prop := headOrder second first

instance (first second : Event) : Decidable (eventOrder first second) :=
  inferInstanceAs (Decidable (headOrder second first))

def headOf (tenancyId : Option Nat) (events : List Event) : Option Event :=
  ((chainOf tenancyId events).insertionSort headOrder).head?

/-- `greatest(clock_timestamp(), head_at + interval '1 microsecond')`, which ignores null. -/
def chosenAt (now : Int) (headAt : Option Int) : Int :=
  match headAt with
  | some instant => max now (instant + 1)
  | none => now

/-- `audit.lock_chain`, from the head on. -/
def readHead (tenancyId : Option Nat) (now : Int) (events : List Event) : Option String × Int :=
  let head := headOf tenancyId events
  (head.map Event.rowHash, chosenAt now (head.map Event.occurredAt))

/-- The row that an entry point inserts. -/
def insertedEvent (fields : EventFields) (eventId : Nat) (previousHash : Option String)
    (occurredAt : Int) : Event :=
  setEventRowHash f ⟨fields, eventId, occurredAt, previousHash, "", 1⟩

def anchorOf (tenancyId : Option Nat) (tip : Event) (anchorId : Nat) (now : Int) : Event :=
  setEventRowHash f
    { tenancyId := tenancyId
      actorId := none
      actorRole := none
      operation := "EPOCH_ANCHOR"
      entity := "audit.chain"
      entityId := some (chainKey tenancyId)
      pk := none
      metadata := .tags [("legacy_tip_event_id", .text (toString tip.eventId)),
        ("legacy_tip_hash", .text tip.rowHash)]
      ipAddress := none
      requestId := none
      oldData := none
      newData := none
      eventId := anchorId
      occurredAt := chosenAt now (some tip.occurredAt)
      previousHash := none
      rowHash := ""
      epochId := 1 }

/-- The migration: each chain of legacy events is sealed by an anchor. -/
def sealLegacy (anchorId : Option Nat → Nat) (now : Option Nat → Int) (legacy : List Event) :
    List Event :=
  let rows := legacy.map fun event => { event with epochId := 0 }
  rows ++ (rows.map fun event => event.tenancyId).dedup.filterMap fun tenancyId =>
    (headOf tenancyId rows).map fun tip => anchorOf f tenancyId tip (anchorId tenancyId)
      (now tenancyId)

def currentEpoch (tenancyId : Option Nat) (events : List Event) : List Event :=
  ((chainOf tenancyId events).filter fun event => event.epochId = 1).insertionSort eventOrder

structure VerifiedRow where
  eventId : Nat
  occurredAt : Int
  expectedHash : String
  storedHash : String
  chainValid : Bool

def verifyCurrentEpoch (tenancyId : Option Nat) (limit : Nat) (events : List Event) :
    List VerifiedRow :=
  ((lag Event.rowHash none (currentEpoch tenancyId events)).map fun row =>
    { eventId := row.2.eventId
      occurredAt := row.2.occurredAt
      expectedHash := computeEventHash f row.2
      storedHash := row.2.rowHash
      chainValid := row.2.rowHash = computeEventHash f row.2 && row.2.previousHash = row.1 }).take
    limit

end

inductive Isolation where
  | readCommitted
  | repeatableRead
  | serializable
  deriving DecidableEq

/-- What is locked: the advisory lock of a chain, and the key of a new event. -/
inductive LockKey where
  | advisory (key : Int)
  | event (eventId : Nat)
  deriving DecidableEq

/-- Where a transaction is; it keeps its `stynx.audit_chain_key`. -/
inductive WriterPhase where
  /-- Outside transactions. -/
  | idle
  /-- Between statements. -/
  | active (isolation : Isolation) (priorKey : Option String)
  /-- In `audit.lock_chain`, before the lock. -/
  | locking (fields : EventFields)
  | locked (fields : EventFields)
  | headRead (fields : EventFields) (previousHash : Option String) (occurredAt : Int)

/-- What a transaction does next. -/
inductive Action where
  | start (isolation : Isolation)
  | call (entry : EntryPoint)
  /-- `clock_timestamp()` shows this instant. -/
  | clock (now : Int)
  /-- `gen_random_uuid()` generates this key. -/
  | uuid (eventId : Nat)
  /-- It goes on where there is no choice, or commits. -/
  | next

def insertEvent (events : List Event) (event : Event) : List Event := events ++ [event]

variable (f : Functions)

/-- The checks of `audit.lock_chain` and its settings. -/
def lockChain (isolation : Isolation) (priorKey : Option String) (fields : EventFields) :
    Except String WriterPhase :=
  if isolation ≠ .readCommitted then .error "40001"
  else if priorKey.any fun key => key ≠ chainKey fields.tenancyId then .error "STY41"
  else .ok (.locking fields)

/-- The next statement of a transaction; one that raises takes no turn. -/
def writerTurn (events : List Event) : WriterPhase → Action → Option (Turn LockKey Event WriterPhase)
  | .idle, .start isolation => some (.go (.active isolation none))
  | .active isolation priorKey, .call entry =>
    match entry.fields f with
    | .error _ => none
    | .ok none => some (.go (.active isolation priorKey))
    | .ok (some fields) => (lockChain isolation priorKey fields).toOption.map Turn.go
  | .active _ _, .next => some (.commit .idle)
  | .locking fields, .next =>
    some (.lock (.advisory (f.hashtextextended (chainKey fields.tenancyId))) (.locked fields))
  | .locked fields, .clock now =>
    let head := readHead fields.tenancyId now events
    some (.go (.headRead fields head.1 head.2))
  | .headRead fields previousHash occurredAt, .uuid eventId =>
    -- the key of an event is unique
    if events.any fun event => event.eventId = eventId then none
    else
      some (.write (insertedEvent f fields eventId previousHash occurredAt)
        (.active .readCommitted (some (chainKey fields.tenancyId))))
  | _, _ => none

def auditWriters : Program (List Event) LockKey Event WriterPhase Action where
  apply := insertEvent
  guard event := some (.event event.eventId)
  idle := .idle
  turn events _ phase action := writerTurn f events phase action

end Stynx.AuditChain
