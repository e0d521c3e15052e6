import Mathlib.Data.List.Sort
import Mathlib.Data.Nat.Log
import Mathlib.Data.Prod.Lex
import Mathlib.Data.String.Basic
import Stynx.OrderedMap

/-!
# The outbox tables and their transactions

The event log, the delivery projection with its ledgers, the legacy message table and the
ownership marker, with one function for each transaction of `OutboxService` on them. A
transaction that throws leaves the tables as they were, but for the event sequence.

Readings of `clock_timestamp()` are arguments and may go backwards.
-/

namespace Stynx.OutboxTables

/-- What a transaction can throw. -/
inductive OutboxError where
  | notFound
  | eventNotFailed
  | eventTransaction
  | eventConflict
  | alreadyEnqueued
  | ambiguousAck
  | legacyCutover
  | uniqueViolation
  | sequenceExhausted
  | attemptImmutable
  | retirementInput
  | retirementConflict (reason : String)

/-- A row of `outbox.events`; the id is the key of the row. -/
structure Event where
  tenantId : String
  entity : String
  entityId : String
  /-- Deduplication key, unique in the tenant. -/
  idempotencyKey : String
  payload : String
  metadata : Option String
  createdAt : Nat

inductive DeliveryStatus where
  | pending
  | sent
  | sentUnresolved
  | error
  | acked
  | retired
  deriving DecidableEq

def DeliveryStatus.isTerminal : DeliveryStatus → Bool
  | .acked | .retired => true
  | _ => false

/-- A row of `outbox.event_delivery`; tenant and event id are the key of the row. -/
structure Delivery where
  /-- Legacy message the row was migrated from. -/
  legacyId : Option String
  status : DeliveryStatus
  attempts : Nat
  leaseUntil : Option Int
  nextAttemptAt : Option Int
  lastError : Option String
  updatedAt : Int

/-- Results recorded in the attempt ledger. -/
inductive AttemptResult where
  | claimed
  | sent
  | error
  | legacyHistoryUnavailable
  deriving DecidableEq

/-- A row of `outbox.event_attempts`; tenant, event id and ordinal are the key of the row. -/
structure Attempt where
  result : AttemptResult
  error : Option String
  leasedAt : Option Int
  completedAt : Option Int
  /-- Legacy message the attempt was made for. -/
  legacyMessageId : Option String

/-- The two acknowledgement states. -/
inductive AckStatus where
  | acked
  | error
  deriving DecidableEq

/-- The delivery state an acknowledgement asks for. -/
def AckStatus.delivery : AckStatus → DeliveryStatus
  | .acked => .acked
  | .error => .error

/-- A row of `outbox.event_acks`. -/
structure EventAck where
  tenantId : String
  eventId : Nat
  status : AckStatus
  verificationSource : String

/-- A row of `outbox.event_retirements`. -/
structure Retirement where
  tenantId : String
  eventId : Nat
  idempotencyKey : String
  actorId : String
  reason : String
  previousStatus : DeliveryStatus

inductive MessageStatus where
  | pending
  | sent
  | acked
  | error
  deriving DecidableEq

/-- A row of `outbox.messages`; the id is the key of the row. -/
structure Message where
  tenantId : String
  entity : String
  entityId : String
  payload : String
  metadata : Option String
  status : MessageStatus
  attempts : Nat
  lastError : Option String
  nextAttemptAt : Option Int
  /-- Deduplication key, unique in the tenant. -/
  idempotencyKey : String
  ackTime : Option Int
  createdAt : Int
  updatedAt : Int
  migratedEventId : Option Nat
  cutoverGeneration : Option Nat

/-- A row of `outbox.acknowledgements`; the message is the key of the row. -/
structure LegacyAck where
  status : AckStatus
  message : Option String
  ackTime : Int

/-- A row of `outbox.legacy_event_map`; the legacy message is the key of the row. -/
structure LegacyMapping where
  tenantId : String
  eventId : Nat
  generation : Nat

/-- Which path owns the legacy messages. -/
inductive OwnershipState where
  | legacy
  | new
  deriving DecidableEq

abbrev DeliveryKey := String × Nat

structure Db where
  /-- Last value of `outbox.event_order_seq`. -/
  eventOrder : Nat
  ownership : OwnershipState
  generation : Nat
  /-- Last millisecond given to each tenant. -/
  tenantClock : OrderedMap String Nat
  events : OrderedMap Nat Event
  deliveries : OrderedMap DeliveryKey Delivery
  attempts : OrderedMap (String × Nat × Nat) Attempt
  eventAcks : List EventAck
  retirements : List Retirement
  messages : OrderedMap String Message
  acknowledgements : OrderedMap String LegacyAck
  legacyEventMap : OrderedMap String LegacyMapping

/-- The tables after the migrations ran. -/
def Db.empty : Db :=
  ⟨0, .legacy, 0, .empty, .empty, .empty, .empty, [], [], .empty, .empty, .empty⟩

/-- Options and ports that the transactions read. -/
structure Policy where
  /-- `backoffPolicy.nextAttemptAt(attempt, now)`. -/
  nextAttemptAt : Nat → Int → Int
  eventLeaseMs : Int
  /-- Whether an appended event of this entity gets a delivery row. -/
  hasDestination : String → Bool

/-- What a transaction leaves behind: the tables, and a value or an exception. -/
abbrev Outcome (α : Type) := Db × Except OutboxError α

/-- `lpad(to_hex(value), width, '0')` read as a number; `lpad` cuts on the right. -/
def hexField (value width : Nat) : Nat :=
  if value < 16 ^ width then value else value / 16 ^ (Nat.log 16 value + 1 - width)

/-- `outbox.event_uuid`: the 128 bits of the UUID. -/
def eventUuid (ms order : Nat) : Nat :=
  hexField ms 12 * 2 ^ 80 + 7 * 2 ^ 76 + hexField (order / 2 ^ 62) 3 * 2 ^ 64 +
    (8 + order / 2 ^ 60 % 4) * 2 ^ 60 + order % 2 ^ 60

def precedes (id : Nat) (e : Event) (id' : Nat) (e' : Event) : Bool :=
  e.createdAt < e'.createdAt || (e.createdAt = e'.createdAt && id < id')

def advanceClock (clock : OrderedMap String Nat) (tenantId : String) (reading : Nat) :
    OrderedMap String Nat :=
  clock.set tenantId (max ((clock.get? tenantId).getD 0) reading)

/-- The instant the upsert returns. -/
def clockValue (clock : OrderedMap String Nat) (tenantId : String) (reading : Nat) : Nat :=
  max ((clock.get? tenantId).getD 0) reading

structure AppendEvent where
  entity : String
  entityId : String
  idempotencyKey : String
  payload : String
  metadata : Option String

def newDelivery (now : Int) : Delivery := ⟨none, .pending, 0, none, none, none, now⟩

/-- The event stored under a deduplication key. -/
def findDuplicate (db : Db) (tenantId idempotencyKey : String) : Option (Nat × Event) :=
  db.events.entries.find? fun p =>
    p.2.tenantId = tenantId && p.2.idempotencyKey = idempotencyKey

/-- `nextval('outbox.event_order_seq')`, which does not cycle. -/
def nextOrder (db : Db) : Except OutboxError Nat :=
  if 2 ^ 63 ≤ db.eventOrder + 1 then .error .sequenceExhausted else .ok (db.eventOrder + 1)

/-- The insert of one event with a drawn order, or the violated primary key. -/
def insertEvent (db : Db) (ms order : Nat) (event : Event) : Outcome Nat :=
  let id := eventUuid ms order
  let drawn := { db with eventOrder := order }
  if db.events.has id then (drawn, .error .uniqueViolation)
  else ({ drawn with events := db.events.set id event }, .ok id)

/-- The loop body of `appendManyInTransaction`; the order is drawn before a conflict is found. -/
def appendOne (policy : Policy) (tenantId : String) (ms : Nat) (now : Int) (db : Db)
    (event : AppendEvent) : Outcome Nat :=
  if event.entity = "" ∨ event.entityId = "" ∨ event.idempotencyKey = "" then
    (db, .error .eventTransaction)
  else
    match nextOrder db with
    | .error e => (db, .error e)
    | .ok order =>
      match findDuplicate db tenantId event.idempotencyKey with
      | some (id, previous) =>
        let drawn := { db with eventOrder := order }
        if previous.entity = event.entity ∧ previous.entityId = event.entityId ∧
            previous.payload = event.payload ∧ previous.metadata = event.metadata then
          (drawn, .ok id)
        else (drawn, .error .eventConflict)
      | none =>
        match insertEvent db ms order ⟨tenantId, event.entity, event.entityId,
            event.idempotencyKey, event.payload, event.metadata, ms⟩ with
        | (inserted, .error e) => (inserted, .error e)
        | (inserted, .ok id) =>
          if policy.hasDestination event.entity then
            ({ inserted with
                deliveries := inserted.deliveries.set (tenantId, id) (newDelivery now) }, .ok id)
          else (inserted, .ok id)

/-- The loop of `appendManyInTransaction`. -/
def appendLoop (policy : Policy) (tenantId : String) (ms : Nat) (now : Int) :
    Db → List AppendEvent → Outcome (List Nat)
  | db, [] => (db, .ok [])
  | db, event :: rest =>
    match appendOne policy tenantId ms now db event with
    | (db', .error e) => (db', .error e)
    | (db', .ok id) =>
      match appendLoop policy tenantId ms now db' rest with
      | (db'', .error e) => (db'', .error e)
      | (db'', .ok ids) => (db'', .ok (id :: ids))

/-- What a rolled-back transaction keeps. -/
def rollback (before reached : Db) : Db := { before with eventOrder := reached.eventOrder }

def appendManyInTransaction (policy : Policy) (db : Db) (tenantId : String) (reading : Nat)
    (now : Int) (events : List AppendEvent) (commits : Bool) : Outcome (List Nat) :=
  if events = [] then (db, .ok [])
  else
    let ms := clockValue db.tenantClock tenantId reading
    let clocked := { db with tenantClock := advanceClock db.tenantClock tenantId reading }
    match appendLoop policy tenantId ms now clocked events with
    | (reached, .error e) => (rollback db reached, .error e)
    | (reached, .ok ids) =>
      if commits then (reached, .ok ids) else (rollback db reached, .ok ids)

/-- `OutboxDispatchFilter` as the claim query reads it. -/
structure EntityMatcher where
  entities : List String
  prefixes : List String

/-- `entityFilterSql`. -/
def matchesEntity (matcher : EntityMatcher) (entity : String) : Bool :=
  matcher.entities.contains entity ||
    matcher.prefixes.any fun start => start.toList.isPrefixOf entity.toList

/-- One claim call: its scope, its limit and what other transactions hold. -/
structure ClaimInput where
  /-- Tenant of `dispatchTenantEventsDue`, or `none` for the sweep over all tenants. -/
  tenantId : Option String
  limit : Nat
  filter : Option EntityMatcher
  /-- Rows locked by other transactions, which the query skips. -/
  locked : List DeliveryKey
  now : Int

def isDue (event : Event) (delivery : Delivery) (now : Int) : Bool :=
  ((delivery.status = .pending || delivery.status = .error) &&
      delivery.nextAttemptAt.getD event.createdAt ≤ now) ||
    (delivery.status = .sent && delivery.leaseUntil.any (· < now))

/-- The `NOT EXISTS` of the claim query: no earlier delivery of the aggregate is outstanding. -/
def earlierSettled (db : Db) (id : Nat) (event : Event) : Bool :=
  db.deliveries.entries.all fun p =>
    match db.events.get? p.1.2 with
    | some earlier =>
      !(earlier.tenantId = p.1.1 && earlier.tenantId = event.tenantId &&
          earlier.entity = event.entity && earlier.entityId = event.entityId &&
          precedes p.1.2 earlier id event) || p.2.status.isTerminal
    | none => true

/-- The `WHERE` of the claim query for one delivery row. -/
def isEligible (db : Db) (input : ClaimInput) (key : DeliveryKey) (delivery : Delivery) : Bool :=
  match db.events.get? key.2 with
  | none => false
  | some event =>
    event.tenantId = key.1 && input.tenantId.all (· = key.1) &&
      (delivery.legacyId = none || db.ownership = .new) && isDue event delivery input.now &&
      earlierSettled db key.2 event && input.filter.all (matchesEntity · event.entity) &&
      !input.locked.contains key

/-- Position of a delivery row in the claim order. -/
def position (db : Db) (key : DeliveryKey) : Nat ×ₗ Nat :=
  toLex ((db.events.get? key.2).elim 0 Event.createdAt, key.2)

/-- The keys the claim query locks, oldest event first. -/
def dueKeys (db : Db) (input : ClaimInput) : List DeliveryKey :=
  (((db.deliveries.entries.filter fun p => isEligible db input p.1 p.2).map Prod.fst).insertionSort
    (fun a b => position db a ≤ position db b)).take input.limit

def claimDelivery (policy : Policy) (now : Int) (delivery : Delivery) : Delivery :=
  { delivery with
    status := .sent
    attempts := delivery.attempts + 1
    leaseUntil := some (now + policy.eventLeaseMs)
    nextAttemptAt := none
    updatedAt := now }

/-- `on conflict do nothing`. -/
def insertIfAbsent {κ ν : Type} [DecidableEq κ] (m : OrderedMap κ ν) (k : κ) (v : ν) :
    OrderedMap κ ν :=
  if m.has k then m else m.set k v

/-- The ledger rows of the claimed deliveries. -/
def recordClaims (attempts : OrderedMap (String × Nat × Nat) Attempt)
    (claimed : List (DeliveryKey × Nat)) (now : Int) : OrderedMap (String × Nat × Nat) Attempt :=
  claimed.foldl (fun table p =>
    insertIfAbsent table (p.1.1, p.1.2, p.2) ⟨.claimed, none, some now, none, none⟩) attempts

/-- The claim of `dispatchEventsDue` and `dispatchTenantEventsDue`, with the claimed rows and their
ordinals. -/
def claimEvents (policy : Policy) (db : Db) (input : ClaimInput) : Db × List (DeliveryKey × Nat) :=
  let due := dueKeys db input
  let deliveries := db.deliveries.mapValues fun key delivery =>
    if due.contains key then claimDelivery policy input.now delivery else delivery
  let claimed := due.filterMap fun key =>
    (deliveries.get? key).map fun delivery => (key, delivery.attempts)
  ({ db with
      deliveries := deliveries
      attempts := recordClaims db.attempts claimed input.now }, claimed)

/-- The guard shared by both completions. -/
def ownsProjection (ordinal : Nat) (delivery : Delivery) : Bool :=
  delivery.attempts = ordinal && delivery.status = .sent

def updateDelivery (db : Db) (key : DeliveryKey) (guard : Delivery → Bool)
    (change : Delivery → Delivery) : Db :=
  { db with
    deliveries := db.deliveries.mapValues fun k delivery =>
      if k = key ∧ guard delivery then change delivery else delivery }

/-- Which role completes an attempt; only the owner may rewrite a completed ledger row. -/
inductive CompletionRole where
  | app
  | owner
  deriving DecidableEq

/-- The ledger half of a completion, refused by the trigger for a completed row. -/
def completeAttempt (db : Db) (role : CompletionRole) (key : DeliveryKey) (ordinal : Nat)
    (result : AttemptResult) (error : Option String) (now : Int) : Except OutboxError Db :=
  match db.attempts.get? (key.1, key.2, ordinal) with
  | none => .ok db
  | some attempt =>
    if role = .app ∧ (attempt.result ≠ .claimed ∨ attempt.completedAt ≠ none) then
      .error .attemptImmutable
    else
      .ok { db with
        attempts := db.attempts.set (key.1, key.2, ordinal)
          { attempt with
            result := result
            error := error.or attempt.error
            completedAt := some now } }

/-- The transaction of a successful send. -/
def completeSent (policy : Policy) (db : Db) (role : CompletionRole) (key : DeliveryKey)
    (ordinal : Nat) (now : Int) : Outcome Unit :=
  let renewed := updateDelivery db key (ownsProjection ordinal) fun delivery =>
    { delivery with leaseUntil := some (now + policy.eventLeaseMs), updatedAt := now }
  match completeAttempt renewed role key ordinal .sent none now with
  | .error e => (db, .error e)
  | .ok db' => (db', .ok ())

/-- The transaction of a failed send. -/
def completeError (policy : Policy) (db : Db) (role : CompletionRole) (key : DeliveryKey)
    (ordinal : Nat) (message : String) (now : Int) : Outcome Unit :=
  let failed := updateDelivery db key (ownsProjection ordinal) fun delivery =>
    { delivery with
      status := .error
      leaseUntil := none
      nextAttemptAt := some (policy.nextAttemptAt ordinal now)
      lastError := some message
      updatedAt := now }
  match completeAttempt failed role key ordinal .error (some message) now with
  | .error e => (db, .error e)
  | .ok db' => (db', .ok ())

/-- The projection half of an acknowledgement. -/
def acknowledge (db : Db) (key : DeliveryKey) (status : AckStatus) (nextAttemptAt : Option Int)
    (now : Int) : Db :=
  updateDelivery db key (fun delivery => !delivery.status.isTerminal) fun delivery =>
    { delivery with
      status := status.delivery
      nextAttemptAt := nextAttemptAt
      leaseUntil := none
      updatedAt := now }

/-- The event an acknowledgement names by exactly one of id and deduplication key. -/
def findAckEvent (db : Db) (tenantId : String) (eventId : Option Nat)
    (idempotencyKey : Option String) : Option Nat :=
  match eventId, idempotencyKey with
  | some id, none =>
    match db.events.get? id with
    | some event => if event.tenantId = tenantId then some id else none
    | none => none
  | none, some k => if k = "" then none else (findDuplicate db tenantId k).map Prod.fst
  | _, _ => none

/-- `ackEvent` and `ackTenantEvent` after the identity checks. -/
def ackEvent (policy : Policy) (db : Db) (tenantId : String) (eventId : Option Nat)
    (idempotencyKey : Option String) (status : AckStatus) (hmacVerified : Bool) (now : Int) :
    Outcome Unit :=
  match findAckEvent db tenantId eventId idempotencyKey with
  | none => (db, .error .notFound)
  | some id =>
    if !hmacVerified then (db, .error .notFound)
    else
      match db.deliveries.get? (tenantId, id) with
      | none => (db, .error .notFound)
      | some delivery =>
        let next :=
          if status = .error then some (policy.nextAttemptAt delivery.attempts now) else none
        let acknowledged := acknowledge db (tenantId, id) status next now
        ({ acknowledged with
            eventAcks := db.eventAcks ++ [⟨tenantId, id, status, "verified-raw-body"⟩] }, .ok ())

def retryEvent (policy : Policy) (db : Db) (key : DeliveryKey) (immediate : Bool) (now : Int) :
    Outcome Unit :=
  match db.deliveries.get? key with
  | none => (db, .error .notFound)
  | some delivery =>
    if delivery.status ≠ .error then (db, .error .eventNotFailed)
    else
      let next :=
        if immediate then now
        else min (delivery.nextAttemptAt.getD now) (policy.nextAttemptAt delivery.attempts now)
      (updateDelivery db key (fun delivery => delivery.status = .error) fun delivery =>
        { delivery with
          status := .pending
          nextAttemptAt := some next
          leaseUntil := none
          updatedAt := now }, .ok ())

structure RetirementInput where
  idempotencyKey : String
  reason : String

/-- The input checks of `retireEvent`; the whitespace set is that of `trim`. -/
def validRetirement (input : RetirementInput) : Bool :=
  input.idempotencyKey ≠ "" && input.idempotencyKey.utf8ByteSize ≤ 255 &&
    !input.reason.toList.all (fun c => c.val ∈ [0x9, 0xA, 0xB, 0xC, 0xD, 0x20, 0xA0, 0x1680, 0x2028,
      0x2029, 0x202F, 0x205F, 0x3000, 0xFEFF] || (0x2000 ≤ c.val && c.val ≤ 0x200A)) &&
    input.reason.utf8ByteSize ≤ 2048 && !input.idempotencyKey.toList.contains '\x00' &&
    !input.reason.toList.contains '\x00'

def retireEvent (db : Db) (key : DeliveryKey) (input : RetirementInput) (actorId : String)
    (now : Int) : Outcome Retirement :=
  if !validRetirement input then (db, .error .retirementInput)
  else
    match db.deliveries.get? key with
    | none => (db, .error .notFound)
    | some current =>
      match db.retirements.filter fun row => row.tenantId = key.1 &&
          (row.eventId = key.2 || row.idempotencyKey = input.idempotencyKey) with
      | receipt :: others =>
        if others = [] ∧ receipt.eventId = key.2 ∧ receipt.idempotencyKey = input.idempotencyKey ∧
            receipt.actorId = actorId ∧ receipt.reason = input.reason then
          (db, .ok receipt)
        else if (receipt :: others).any fun row => row.idempotencyKey = input.idempotencyKey then
          (db, .error (.retirementConflict "operation-conflict"))
        else (db, .error (.retirementConflict "already-retired"))
      | [] =>
        if current.status = .acked then (db, .error (.retirementConflict "already-acked"))
        else if current.status = .retired then (db, .error (.retirementConflict "already-retired"))
        else if current.leaseUntil.any (now < ·) then
          (db, .error (.retirementConflict "active-lease"))
        else
          let receipt : Retirement :=
            ⟨key.1, key.2, input.idempotencyKey, actorId, input.reason, current.status⟩
          let retired := updateDelivery db key (fun _ => true) fun delivery =>
            { delivery with
              status := .retired
              leaseUntil := none
              nextAttemptAt := none
              updatedAt := now }
          ({ retired with retirements := db.retirements ++ [receipt] }, .ok receipt)

structure Envelope where
  entity : String
  entityId : String
  payload : String
  metadata : Option String
  idempotencyKey : Option String

/-- `enqueue` under the tenant of the transaction; `uuid` is what `gen_random_uuid()` returns. -/
def enqueue (db : Db) (tenantId : String) (envelope : Envelope) (uuid : String) (now : Int) :
    Outcome String :=
  let idempotencyKey := envelope.idempotencyKey.getD (envelope.entity ++ ":" ++ envelope.entityId)
  if db.ownership ≠ .legacy then (db, .error .legacyCutover)
  else
    let clashes (except : Option String) := db.messages.entries.any fun p =>
      some p.1 ≠ except && p.2.tenantId = tenantId && p.2.idempotencyKey = idempotencyKey
    match db.messages.entries.find? fun p =>
        p.2.tenantId = tenantId && p.2.entity = envelope.entity &&
          p.2.entityId = envelope.entityId with
    | some (id, message) =>
      if clashes (some id) then (db, .error .alreadyEnqueued)
      else
        ({ db with
            messages := db.messages.set id
              { message with updatedAt := now, idempotencyKey := idempotencyKey } }, .ok id)
    | none =>
      if clashes none ∨ db.messages.has uuid then (db, .error .alreadyEnqueued)
      else
        ({ db with
            messages := db.messages.set uuid
              { tenantId := tenantId
                entity := envelope.entity
                entityId := envelope.entityId
                payload := envelope.payload
                metadata := envelope.metadata
                status := .pending
                attempts := 0
                lastError := none
                nextAttemptAt := none
                idempotencyKey := idempotencyKey
                ackTime := none
                createdAt := now
                updatedAt := now
                migratedEventId := none
                cutoverGeneration := none } }, .ok uuid)

/-- The `WHERE` of the legacy claim query. -/
def isLegacyDue (db : Db) (message : Message) (now : Int) : Bool :=
  (message.status = .pending || message.status = .error) && db.ownership = .legacy &&
    message.migratedEventId = none && message.nextAttemptAt.getD message.createdAt ≤ now

/-- The ids the legacy claim locks, oldest first. -/
def legacyDueIds (db : Db) (limit : Nat) (locked : List String) (now : Int) : List String :=
  (((db.messages.entries.filter fun p => isLegacyDue db p.2 now && !locked.contains p.1).insertionSort
    (fun a b => a.2.createdAt ≤ b.2.createdAt)).map Prod.fst).take limit

/-- `claimDue`; the result names the claimed messages with their new attempts. -/
def claimDue (db : Db) (limit : Nat) (locked : List String) (now : Int) :
    Db × List (String × Nat) :=
  let due := legacyDueIds db limit locked now
  let messages := db.messages.mapValues fun id message =>
    if due.contains id then
      { message with
        status := .sent
        attempts := message.attempts + 1
        lastError := none
        nextAttemptAt := none
        updatedAt := now }
    else message
  ({ db with messages := messages },
    due.filterMap fun id => (messages.get? id).map fun message => (id, message.attempts))

def rerouteFailure (db : Db) (id : String) (message : Message) (attempts : Nat) (text : String)
    (next now : Int) : Db :=
  match message.migratedEventId with
  | none => db
  | some eventId =>
    let ledger :=
      { db with
        attempts := insertIfAbsent db.attempts (message.tenantId, eventId, attempts)
          ⟨.error, some text, none, some now, some id⟩ }
    updateDelivery ledger (message.tenantId, eventId)
      (fun delivery => delivery.status = .sentUnresolved) fun delivery =>
        { delivery with
          status := .error
          nextAttemptAt := some next
          lastError := some text
          updatedAt := now }

/-- `recordDispatchFailure` for a claimed message and the attempts its claim returned. -/
def recordDispatchFailure (policy : Policy) (db : Db) (id : String) (attempts : Nat)
    (text : String) (now : Int) : Outcome Unit :=
  let next := policy.nextAttemptAt attempts now
  match db.messages.get? id with
  | none => (db, .error .notFound)
  | some message =>
    let updated :=
      if message.status = .acked then db
      else
        { db with
          messages := db.messages.set id
            { message with
              status := .error
              lastError := some (String.ofList (text.toList.take 4000))
              nextAttemptAt := some next
              updatedAt := now } }
    (rerouteFailure updated id message attempts text next now, .ok ())

def retry (policy : Policy) (db : Db) (id : String) (immediate : Bool) (now : Int) : Outcome Unit :=
  match db.messages.get? id with
  | none => (db, .error .notFound)
  | some message =>
    if message.migratedEventId ≠ none then (db, .error .legacyCutover)
    else
      let attempts := message.attempts + 1
      ({ db with
          messages := db.messages.set id
            { message with
              attempts := attempts
              status := .pending
              lastError := none
              nextAttemptAt := some (if immediate then now else policy.nextAttemptAt attempts now)
              updatedAt := now } }, .ok ())

/-- The message state an acknowledgement asks for. -/
def AckStatus.message : AckStatus → MessageStatus
  | .acked => .acked
  | .error => .error

structure AckInput where
  entity : String
  entityId : String
  status : AckStatus
  detail : Option String
  tenantId : Option String

def ackTargets (db : Db) (input : AckInput) : List (String × Message) :=
  db.messages.entries.filter fun p =>
    p.2.entity = input.entity && p.2.entityId = input.entityId &&
      (match input.tenantId with
        | some t => t = "" || p.2.tenantId = t
        | none => true)

/-- The message row after a legacy acknowledgement. -/
def ackMessage (message : Message) (input : AckInput) (next : Option Int) (now : Int) : Message :=
  { message with
    status := input.status.message
    ackTime := some now
    lastError := if input.status = .error then input.detail else none
    nextAttemptAt := next
    updatedAt := now }

def rerouteAck (db : Db) (message : Message) (status : AckStatus) (next : Option Int) (now : Int) :
    Db :=
  match message.migratedEventId with
  | none => db
  | some eventId =>
    let acknowledged := acknowledge db (message.tenantId, eventId) status next now
    { acknowledged with
      eventAcks := db.eventAcks ++
        [⟨message.tenantId, eventId, status, "caller-asserted-legacy-api"⟩] }

def ack (policy : Policy) (db : Db) (input : AckInput) (now : Int) : Outcome Unit :=
  match ackTargets db input with
  | [] => (db, .error .notFound)
  | [(id, message)] =>
    let next :=
      if input.status = .error then some (policy.nextAttemptAt message.attempts now) else none
    let acked :=
      { db with
        messages := db.messages.set id (ackMessage message input next now)
        acknowledgements :=
          insertIfAbsent db.acknowledgements id ⟨input.status, input.detail, now⟩ }
    (rerouteAck acked message input.status next now, .ok ())
  | _ => (db, .error .ambiguousAck)

def MessageStatus.migrated : MessageStatus → DeliveryStatus
  | .pending => .pending
  | .sent => .sentUnresolved
  | .acked => .acked
  | .error => .error

def migratedDelivery (id : String) (message : Message) (now : Int) : Delivery :=
  { legacyId := some id
    status := message.status.migrated
    attempts := message.attempts
    leaseUntil := none
    nextAttemptAt := message.nextAttemptAt
    lastError := message.lastError
    updatedAt := now }

def migratedEvent (message : Message) (ms : Nat) : Event :=
  ⟨message.tenantId, message.entity, message.entityId, message.idempotencyKey, message.payload,
    message.metadata, ms⟩

/-- The rows written for a migrated message after its event. -/
def recordMigration (db : Db) (id : String) (message : Message) (eventId generation : Nat)
    (now : Int) : Db :=
  let key := (message.tenantId, eventId)
  { db with
    deliveries := db.deliveries.set key (migratedDelivery id message now)
    legacyEventMap := db.legacyEventMap.set id ⟨message.tenantId, eventId, generation⟩
    attempts :=
      if 0 < message.attempts then
        db.attempts.set (message.tenantId, eventId, 0)
          ⟨.legacyHistoryUnavailable, message.lastError, none, none, some id⟩
      else db.attempts
    eventAcks :=
      match db.acknowledgements.get? id with
      | some legacyAck =>
        db.eventAcks ++ [⟨message.tenantId, eventId, legacyAck.status, "legacy-import"⟩]
      | none => db.eventAcks
    messages := db.messages.set id
      { message with migratedEventId := some eventId, cutoverGeneration := some generation } }

/-- The loop body of `cutoverLegacyMessages`. -/
def migrateOne (generation reading : Nat) (now : Int) (db : Db) (id : String) (message : Message) :
    Outcome Unit :=
  let ms := clockValue db.tenantClock message.tenantId reading
  let clocked := { db with tenantClock := advanceClock db.tenantClock message.tenantId reading }
  match nextOrder db with
  | .error e => (db, .error e)
  | .ok order =>
    if (findDuplicate db message.tenantId message.idempotencyKey).isSome then
      ({ clocked with eventOrder := order }, .error .uniqueViolation)
    else
      match insertEvent clocked ms order (migratedEvent message ms) with
      | (inserted, .error e) => (inserted, .error e)
      | (inserted, .ok eventId) =>
        if db.legacyEventMap.has id then (inserted, .error .uniqueViolation)
        else (recordMigration inserted id message eventId generation now, .ok ())

/-- The loop of `cutoverLegacyMessages`; each row comes with its reading of the clock. -/
def migrateLoop (generation : Nat) (now : Int) : Db → List (Nat × String × Message) → Outcome Unit
  | db, [] => (db, .ok ())
  | db, (reading, id, message) :: rest =>
    match migrateOne generation reading now db id message with
    | (db', .error e) => (db', .error e)
    | (db', .ok _) => migrateLoop generation now db' rest

def migrationRows (db : Db) : List (String × Message) :=
  db.messages.entries.insertionSort fun a b =>
    toLex (a.2.tenantId, toLex (a.2.createdAt, a.1)) ≤
      toLex (b.2.tenantId, toLex (b.2.createdAt, b.1))

def cutoverLegacyMessages (db : Db) (clock : Nat → Nat) (now : Int) : Outcome (Nat × Nat) :=
  match db.ownership with
  | .new => (db, .ok (db.legacyEventMap.entries.length, db.generation))
  | .legacy =>
    let rows := migrationRows db
    let generation := db.generation + 1
    match migrateLoop generation now db (rows.zipIdx.map fun p => (clock p.2, p.1.1, p.1.2)) with
    | (reached, .error e) => (rollback db reached, .error e)
    | (reached, .ok _) =>
      ({ reached with ownership := .new, generation := generation }, .ok (rows.length, generation))

end Stynx.OutboxTables
