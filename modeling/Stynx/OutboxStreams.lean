import Stynx.CursorLogs
import Stynx.EventStreamMoves
import Stynx.OutboxTables
import Stynx.UuidTexts

/-!
# Event streams over the outbox

`OutboxEventStreamSource` of `packages/outbox/src/event-stream-source.ts` serves the streams of a
tenant from `outbox.events`, while transactions append events. An append first takes the row of
`outbox.tenant_clock`, and keeps it until its transaction ends; the preflight of a stream takes the
same row.
-/

namespace Stynx.OutboxStreams

open CursorLogs EventStream OutboxTables

/-- A place in the order `(created_at, id)`; the empty identifier comes before all others. -/
abbrev Place := Int ×ₗ WithBot Nat

def place (p : Nat × Event) : Place := toLex ((p.2.createdAt : Int), (p.1 : WithBot Nat))

/-- The place of a cursor; `none` is an identifier that is no UUID. -/
def cursorPlace (cursor : Cursor) : Option Place :=
  if cursor.id = "" then some (toLex (cursor.createdAt, ⊥))
  else (UuidTexts.parse cursor.id).map fun (id : Nat) =>
    toLex (cursor.createdAt, (id : WithBot Nat))

def log (db : Db) (tenantId : String) : List (Nat × Event) :=
  db.events.entries.filter fun p => p.2.tenantId = tenantId

def toRow (p : Nat × Event) : Row where
  createdAt := p.2.createdAt
  id := UuidTexts.text p.1
  event := p.2.entity

/-- `listSince`; `none` when the query fails. -/
def listSince (db : Db) (tenantId : String) (cursor : Cursor) (limit : Nat) : Option (List Row) :=
  (cursorPlace cursor).map fun from_ =>
    let rows := (log db tenantId).filter fun p => decide (from_ < place p)
    (((rows.mergeSort fun a b => decide (place a ≤ place b)).take limit).map toRow)

def findById (db : Db) (tenantId id : String) : Option Row :=
  (UuidTexts.parse id).bind fun uuid =>
    let mapped := (db.legacyEventMap.get? (UuidTexts.text uuid)).bind fun mapping =>
      if mapping.tenantId = tenantId then some mapping.eventId else none
    let wanted := mapped.getD uuid
    (db.events.get? wanted).bind fun event =>
      if event.tenantId = tenantId then some (toRow (wanted, event)) else none

/-- The transaction that holds the row of the clock. -/
structure Writer where
  tx : Nat
  /-- The millisecond that the clock has given it. -/
  ms : Nat
  view : Db
  aborted : Bool := false

/-- What a stream has passed. -/
inductive Fate where
  | framed
  | dropped
  | filtered
  deriving DecidableEq

/-- What a run has seen of a connection. -/
structure Reader where
  /-- The cursor with which its stream began. -/
  start : Option Cursor := none
  /-- The rows that it has passed, oldest first. -/
  passed : List (Row × Fate) := []

/-- The tables, the append that is going on, the service and what was seen of its connections. -/
structure State where
  db : Db
  /-- The transaction that holds the clock. -/
  writer : Option Writer := none
  service : EventStream.State := .initial
  readers : List Reader := []

/-- The tables of a transaction; a sequence is shared. -/
def Writer.tables (writer : Writer) (db : Db) : Db :=
  { writer.view with eventOrder := db.eventOrder }

inductive Label where
  /-- A transaction enters `appendManyInTransaction`, with a reading of the wall clock. -/
  | clock (tx reading : Nat)
  | insert (tx : Nat) (now : Int) (event : AppendEvent)
  | commit (tx : Nat)
  | rollback (tx : Nat)
  /-- Another tenant draws from the sequence. -/
  | draw (order : Nat)
  /-- A preflight whose reply is lost, or that of another process. -/
  | otherPreflight (reading : Nat)
  /-- An event of the service that asks nothing of the source. -/
  | service (label : EventStream.Label)
  /-- `findById` of a connection. -/
  | find (index : Nat) (succeeds : Bool)
  /-- `now` of a connection. -/
  | preflight (index reading : Nat) (succeeds : Bool)
  /-- `listSince` of a connection. -/
  | list (index : Nat) (succeeds : Bool)

/-- The error of a statement, after which a transaction can only be rolled back. -/
def failsTransaction : OutboxError → Bool
  | .uniqueViolation | .sequenceExhausted => true
  | _ => false

def tick (db : Db) (tenantId : String) (reading : Nat) : Db :=
  { db with tenantClock := advanceClock db.tenantClock tenantId reading }

/-- A transaction takes the clock, or reads it again. -/
def enter (s : State) (tenantId : String) (tx reading : Nat) : Option State :=
  let entered := fun view : Db => some { s with
    writer := some ⟨tx, clockValue view.tenantClock tenantId reading,
      tick view tenantId reading, false⟩ }
  match s.writer with
  | none => entered s.db
  | some writer => if writer.tx = tx ∧ writer.aborted = false then entered writer.view else none

def insert (policy : Policy) (s : State) (tenantId : String) (tx : Nat) (now : Int)
    (event : AppendEvent) : Option State :=
  s.writer.bind fun writer =>
    if writer.tx = tx ∧ writer.aborted = false then
      let (view, result) := appendOne policy tenantId writer.ms now (writer.tables s.db) event
      some { s with
        db := { s.db with eventOrder := view.eventOrder }
        writer := some { writer with
          view := view
          aborted := match result with
            | .error e => failsTransaction e
            | .ok _ => false } }
    else none

/-- A transaction ends. -/
def finish (s : State) (tx : Nat) (commits : Bool) : Option State :=
  s.writer.bind fun writer =>
    if writer.tx = tx then
      some { s with
        db := if commits && !writer.aborted then writer.tables s.db else s.db
        writer := none }
    else none

def passedRow (before after : Connection) : Option Row :=
  match before.tick, after.tick with
  | .rows (row :: _), .rows _ => some row
  | .projecting row _, .rows _ => some row
  | _, _ => none

/-- How it has passed it. -/
def fate (before after : EventStream.State) : Fate :=
  if before.frames < after.frames then .framed
  else if before.drops < after.drops then .dropped
  else .filtered

/-- What was seen of a connection, after a step. -/
def Reader.watch (reader : Reader) (label : EventStream.Label)
    (before after : EventStream.State) (c c' : Connection) : Reader :=
  match label with
  | .nowReply _ _ => if c'.isOpened then { reader with start := some c'.cursor } else reader
  | .row _ _ | .projected _ _ _ =>
    match passedRow c c' with
    | some row => { reader with passed := reader.passed ++ [(row, fate before after)] }
    | none => reader
  | _ => reader

/-- What was seen, after a step. -/
def watch (label : EventStream.Label) (before after : EventStream.State)
    (readers : List Reader) : List Reader :=
  match label.about with
  | some i =>
    match readers[i]?, before.connections[i]?, after.connections[i]? with
    | some reader, some c, some c' => readers.set i (reader.watch label before after c c')
    | _, _, _ => readers
  | none =>
    if before.connections.length < after.connections.length then readers ++ [{}] else readers

def serve (ports : Ports) (s : State) (label : EventStream.Label) : Option State :=
  (EventStream.step ports s.service label).map fun service =>
    { s with service := service, readers := watch label s.service service s.readers }

/-- A step of the service that asks nothing of the source; the streams are those of the tenant. -/
def ownStep (tenantId : String) : EventStream.Label → Bool
  | .openStream _ options => options.scope.tenantId == some tenantId
  | .findReply _ _ | .nowReply _ _ | .listReply _ _ => false
  | _ => true

def step (policy : Policy) (ports : Ports) (tenantId : String) (s : State) : Label → Option State
  | .clock tx reading => enter s tenantId tx reading
  | .insert tx now event => insert policy s tenantId tx now event
  | .commit tx => finish s tx true
  | .rollback tx => finish s tx false
  | .draw order =>
    if s.db.eventOrder ≤ order ∧ order < 2 ^ 63 then
      some { s with db := { s.db with eventOrder := order } }
    else none
  | .otherPreflight reading =>
    if s.writer.isNone then some { s with db := tick s.db tenantId reading } else none
  | .service label => if ownStep tenantId label then serve ports s label else none
  | .find index succeeds =>
    (s.service.connections[index]?).bind fun c =>
      match c.phase with
      | .findById lastId => serve ports s (.findReply index
          (if succeeds then some (findById s.db tenantId lastId) else none))
      | _ => none
  | .preflight index reading succeeds =>
    if succeeds then
      if s.writer.isNone then
        serve ports { s with db := tick s.db tenantId reading }
          (.nowReply index (some (clockValue s.db.tenantClock tenantId reading)))
      else none
    else serve ports s (.nowReply index none)
  | .list index succeeds =>
    (s.service.connections[index]?).bind fun c =>
      serve ports s (.listReply index (if succeeds then
        listSince s.db tenantId c.cursor c.settings.batchSize.num.toNat else none))

end Stynx.OutboxStreams
