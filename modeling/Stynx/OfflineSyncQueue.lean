import Stynx.OfflineSyncNumbering

/-!
# Queue items, receipts and conflicts of the in-memory offline-sync store

The queue half of `InMemoryOfflineSyncStore` and the commands that resolve conflicts. A command
that throws leaves no write behind. Commands are taken one at a time: a durable batch excludes
the other commands of its tenant, and the ports answer without calling the store.

A host context is a map from member names to the values that the store itself writes or reads.
-/

namespace Stynx.OfflineSyncQueue

open OfflineSyncNumbering

/-- `OfflineSyncConflictResolutionStrategy`. -/
inductive Strategy where
  | deviceWins
  | serverWins
  | manualReview
  | accept_server
  | reject
  | retry_after_correction
  | manual_review
  deriving DecidableEq

/-- A member of a host-visible context. -/
inductive ContextValue where
  | text (value : String)
  | number (value : Int)
  | null
  | actions (value : List Strategy)
  /-- Any other value of the host, as JSON text. -/
  | json (value : String)

/-- A host-visible context. -/
abbrev Context := OrderedMap String ContextValue

def mergeContext (base patch : Context) : Context :=
  patch.entries.foldl (fun context member => context.set member.1 member.2) base

def contextOf (members : List (String × ContextValue)) : Context :=
  members.foldl (fun context member => context.set member.1 member.2) .empty

def contextActions (context : Option Context) : Option (List Strategy) :=
  match context.bind fun members => members.get? "allowedActions" with
  | some (.actions value) => some value
  | some _ => some []
  | none => none

/-- `OfflineSyncConcurrentPair`. -/
structure Pair where
  firstItemId : String
  secondItemId : String

/-- Whether two pairs name the same items. -/
def Pair.same (left right : Pair) : Bool :=
  (left.firstItemId = right.firstItemId && left.secondItemId = right.secondItemId) ||
    (left.firstItemId = right.secondItemId && left.secondItemId = right.firstItemId)

def Pair.names (pair : Pair) (queueItemId : String) : Bool :=
  pair.firstItemId = queueItemId || pair.secondItemId = queueItemId

/-- `OfflineSyncStynxContext`. -/
structure StynxContext where
  receiptId : Option String := none
  appliedAt : Option String := none
  serverEntityId : Option String := none
  errorCode : Option String := none
  errorMessage : Option String := none
  attempts : Option Nat := none
  reasonCode : Option String := none
  receivedPayloadHash : Option String := none
  storedPayloadHash : Option String := none
  relatedQueueItemId : Option String := none
  retryable : Option Bool := none
  /-- Whether the host ended the item as received. -/
  terminalReceived : Bool := false
  /-- Attributes of the host, as JSON text. -/
  consumerAttributes : Option String := none
  concurrencySuspected : Option Bool := none
  concurrentPairs : Option (List Pair) := none
  /-- Whether the policy gives no concurrency window. -/
  windowPending : Bool := false

/-- `{ ...base, ...patch }`, where an absent member does not overwrite. -/
def StynxContext.merge (base patch : StynxContext) : StynxContext :=
  { receiptId := patch.receiptId <|> base.receiptId
    appliedAt := patch.appliedAt <|> base.appliedAt
    serverEntityId := patch.serverEntityId <|> base.serverEntityId
    errorCode := patch.errorCode <|> base.errorCode
    errorMessage := patch.errorMessage <|> base.errorMessage
    attempts := patch.attempts <|> base.attempts
    reasonCode := patch.reasonCode <|> base.reasonCode
    receivedPayloadHash := patch.receivedPayloadHash <|> base.receivedPayloadHash
    storedPayloadHash := patch.storedPayloadHash <|> base.storedPayloadHash
    relatedQueueItemId := patch.relatedQueueItemId <|> base.relatedQueueItemId
    retryable := patch.retryable <|> base.retryable
    terminalReceived := patch.terminalReceived || base.terminalReceived
    consumerAttributes := patch.consumerAttributes <|> base.consumerAttributes
    concurrencySuspected := patch.concurrencySuspected <|> base.concurrencySuspected
    concurrentPairs := patch.concurrentPairs <|> base.concurrentPairs
    windowPending := patch.windowPending || base.windowPending }

/-- `CTG9SyncBatchItemInput`. -/
structure ItemInput where
  queueItemId : String
  entityType : String
  localEntityId : String
  /-- Identity that the device gives the item. -/
  idempotencyKey : Option String
  payloadHash : String
  payloadJson : String
  /-- Instant at which the device made the item. -/
  createdLocallyAt : String
  reservedNumber : Option Int
  reservationId : Option String

/-- `StoredSyncQueueItem`. -/
structure StoredItem extends ItemInput where
  tenantId : String
  agentId : String
  orgUnitId : String
  deviceId : String
  status : ItemStatus
  receivedAt : String

/-- What spreading `undefined` leaves of a queue item. -/
def StoredItem.absent : StoredItem :=
  { queueItemId := ""
    entityType := ""
    localEntityId := ""
    idempotencyKey := none
    payloadHash := ""
    payloadJson := ""
    createdLocallyAt := ""
    reservedNumber := none
    reservationId := none
    tenantId := ""
    agentId := ""
    orgUnitId := ""
    deviceId := ""
    status := .received
    receivedAt := "" }

structure ItemReceipt where
  queueItemId : String
  status : ItemStatus
  errorCode : Option String
  context : Option Context
  stynx : Option StynxContext

structure ReceiptEntry where
  hash : String
  batchKey : String
  receipt : ItemReceipt
  item : StoredItem
  deviceBatchId : String
  receivedAt : String

structure E6Item where
  item : StoredItem
  batchKey : String
  deviceBatchId : String

inductive ConflictStatus where
  | opened
  | resolved
  deriving DecidableEq

/-- The status as it stands in messages. -/
def ConflictStatus.text : ConflictStatus → String
  | .opened => "open"
  | .resolved => "resolved"

structure Conflict where
  conflictId : String
  tenantId : String
  queueItemId : String
  localEntityId : String
  payloadHash : String
  conflictType : String
  description : String
  status : ConflictStatus
  resolution : Option Strategy := none
  resolvedBy : Option String := none
  resolvedAt : Option String := none

structure IntegrityRejection where
  tenantId : String
  deviceId : String
  deviceBatchId : String
  queueItemId : String
  idempotencyKey : String
  receivedPayloadHash : String
  storedPayloadHash : Option String
  originalQueueItemId : Option String
  rejectedAt : String

inductive BatchStatus where
  | opened
  | closed

/-- `SyncBatchReceipt` without response bytes and headers. -/
structure BatchReceipt where
  deviceId : String
  deviceBatchId : String
  /-- Position among the batches of the device. -/
  batchSequence : Option Int
  status : BatchStatus
  items : List ItemReceipt
  responseStatus : Option Nat

/-- `CTG9SubmitSyncBatchResult`. -/
structure BatchResult where
  batchId : String
  acceptedItems : Nat
  duplicateItems : Nat
  conflicts : List String
  items : List StoredItem
  receipt : BatchReceipt

/-- The two initial states of a keyed item. -/
inductive InitialStatus where
  | received
  | pending
  deriving DecidableEq

structure BatchRecord where
  contextHash : String
  initialQueueStatus : InitialStatus
  receipt : BatchReceipt
  result : Option BatchResult
  transportKey : String
  fingerprint : String
  createdAt : String

structure TransportBinding where
  batchIdentity : String
  fingerprint : String
  deriving DecidableEq

structure Store where
  numbering : OfflineSyncNumbering.Store
  queueItems : OrderedMap String StoredItem
  queueBatches : OrderedMap String String
  /-- Queue items by tenant and payload hash. -/
  payloadIndex : OrderedMap String String
  /-- Items of the older interface, by tenant and identity. -/
  e6Items : OrderedMap String E6Item
  itemReceipts : OrderedMap String ReceiptEntry
  conflicts : OrderedMap String Conflict
  conflictAllowedActions : OrderedMap String (List Strategy)
  /-- Integrity conflicts by tenant, identity and hash. -/
  integrityConflicts : OrderedMap String String
  /-- Integrity rejections by tenant and attempt. -/
  integrityRejections : OrderedMap String IntegrityRejection
  batches : OrderedMap String BatchRecord
  transport : OrderedMap String TransportBinding

def Store.empty : Store :=
  ⟨.empty, .empty, .empty, .empty, .empty, .empty, .empty, .empty, .empty, .empty, .empty, .empty⟩

/-- Which class an exception is of. -/
inductive ErrorKind where
  | configuration
  | upgradeRequired
  /-- `OfflineSyncNumberingOutcome`. -/
  | numbering (code : NumberingCode) (number : Int) (reservationId : Option String)
  /-- Any other `OfflineSyncError`. -/
  | offlineSync (status : Nat)
  /-- Any other `HttpException`. -/
  | http (status : Nat)
  | object
  /-- A text, number or boolean. -/
  | primitive
  | nullish
  deriving DecidableEq

def ErrorKind.httpStatus : ErrorKind → Option Nat
  | .upgradeRequired => some 503
  | .numbering _ _ _ => some 409
  | .offlineSync status => some status
  | .http status => some status
  | _ => none

/-- Whether an exception is a domain error: an object that is no error of this library. -/
def ErrorKind.isDomain : ErrorKind → Bool
  | .http _ => true
  | .object => true
  | _ => false

/-- An exception, with what the store reads of it. -/
structure Thrown where
  kind : ErrorKind
  code : Option String := none
  /-- Whether `domainErrorContext` accepts its context. -/
  contextValid : Bool := true
  context : Option Context := none
  message : String

def offlineSyncError (code : String) (status : Nat) (message : String) : Thrown :=
  { kind := .offlineSync status, code := some code, message := message }

def configurationError (option : String) : Thrown :=
  { kind := .configuration
    code := some "OFFLINE_SYNC_CONFIGURATION_ERROR"
    message := "Invalid offline-sync configuration: " ++ option }

/-- A property access on `undefined`. -/
def typeError : Thrown := { kind := .object, message := "TypeError" }

def saveConflict (s : Store) (conflict : Conflict) (allowedActions : Option (List Strategy)) :
    Store :=
  let conflictKey := key conflict.tenantId conflict.conflictId
  { s with
    conflicts := s.conflicts.set conflictKey conflict
    conflictAllowedActions :=
      match allowedActions with
      | some actions => s.conflictAllowedActions.set conflictKey actions
      | none => s.conflictAllowedActions }

def setQueueStatus (s : Store) (queueKey : String) (item : StoredItem) (status : ItemStatus) :
    Store :=
  { s with queueItems := s.queueItems.set queueKey { item with status := status } }

/-- `openConflict`; `conflictId` is the value `randomUUID()` returns. -/
def openConflict (s : Store) (scope : Scope) (queueItemId conflictType description : String)
    (conflictId : String) : Except Thrown (Store × Conflict) :=
  let queueKey := key scope.tenantId queueItemId
  match s.queueItems.get? queueKey with
  | none =>
    .error (offlineSyncError "OFFLINE_SYNC_QUEUE_ITEM_NOT_FOUND" 404
      ("Sync queue item " ++ queueItemId ++ " was not found."))
  | some item =>
    let conflict : Conflict :=
      { conflictId := conflictId
        tenantId := scope.tenantId
        queueItemId := queueItemId
        localEntityId := item.localEntityId
        payloadHash := item.payloadHash
        conflictType := conflictType
        description := description
        status := .opened }
    .ok (saveConflict (setQueueStatus s queueKey item .conflict) conflict none, conflict)

/-- `ResolveSyncConflictInput`. -/
structure ResolveInput where
  resolution : Strategy
  description : Option String

def resolveConflict (s : Store) (scope : Scope) (conflictId : String) (input : ResolveInput)
    (now : String) : Except Thrown (Store × Conflict) :=
  let conflictKey := key scope.tenantId conflictId
  match s.conflicts.get? conflictKey with
  | none =>
    .error (offlineSyncError "OFFLINE_SYNC_CONFLICT_NOT_FOUND" 404
      ("Sync conflict " ++ conflictId ++ " was not found."))
  | some conflict =>
    if conflict.status ≠ .opened then
      .error (offlineSyncError "OFFLINE_SYNC_CONFLICT_STATE" 409
        ("Sync conflict " ++ conflictId ++ " is " ++ conflict.status.text ++ "; expected open."))
    else
      let resolved :=
        { conflict with
          description := input.description.getD conflict.description
          status := .resolved
          resolution := some input.resolution
          resolvedBy := some scope.actorId
          resolvedAt := some now }
      let t := { s with conflicts := s.conflicts.set conflictKey resolved }
      let queueKey := key scope.tenantId conflict.queueItemId
      match t.queueItems.get? queueKey with
      | some item =>
        .ok (setQueueStatus t queueKey item
          (if input.resolution = .serverWins then .rejected else .applied), resolved)
      | none => .ok (t, resolved)

/-- `OfflineSyncItemContext`. -/
structure ItemContext where
  tenantId : String
  actorId : String
  agentId : String
  orgUnitId : String
  deviceId : String
  batchId : String
  now : String
  receiptId : Option String := none
  /-- Whether a concurrent item was found before the application. -/
  concurrencySuspected : Option Bool := none
  /-- The pairs found before the application. -/
  concurrentPairs : Option (List Pair) := none

/-- `OfflineSyncEvent`. -/
structure Event where
  entity : String
  entityId : String
  idempotencyKey : String

/-- The answer of a conflict resolver: a status, or `none` for another value, and attributes. -/
structure ResolverAnswer where
  status : Option ConflictStatus
  /-- Attributes of the host, as JSON text. -/
  consumerAttributes : Option String

/-- `OfflineSyncConflictResolver` and the event port of a resolution. -/
structure ResolverPorts where
  /-- `allowedActions`, with `none` where the port has none or returns none. -/
  allowedActions : ItemContext → Except Thrown (Option (List Strategy))
  resolve : Strategy → ItemContext → Except Thrown ResolverAnswer
  appendInTransaction : Event → Except Thrown Unit
  /-- Whether a callback left work open in the frame. -/
  unfinished : Bool

def boundedConsumerAttributes (value : Option String) : Except Thrown (Option String) :=
  match value with
  | none => .ok none
  | some json =>
    if json.utf8ByteSize > 4096 then
      .error (offlineSyncError "OFFLINE_SYNC_INVALID_INPUT" 400
        "consumerAttributes must be a JSON object of at most 4096 bytes.")
    else .ok (some json)

def assertFrameComplete (unfinished : Bool) : Except Thrown Unit :=
  if unfinished then
    .error (offlineSyncError "OFFLINE_SYNC_CONFLICT_STATE" 409
      "Memory transaction cannot commit closed or unfinished owned work.")
  else .ok ()

def receiptOf (s : Store) (tenantId queueItemId : String) : Option (String × ReceiptEntry) :=
  s.itemReceipts.entries.find? fun (storedKey, value) =>
    startsWith storedKey (tenantId ++ ":") && value.item.queueItemId = queueItemId

def otherOpen (s : Store) (tenantId conflictKey queueItemId : String) : Bool :=
  s.conflicts.entries.any fun (storedKey, other) =>
    startsWith storedKey (tenantId ++ ":") && storedKey ≠ conflictKey &&
      other.queueItemId = queueItemId && other.status = .opened

def appliedNumber (s : Store) (tenantId : String) (item : StoredItem) : Bool :=
  match item.reservedNumber with
  | none => false
  | some number =>
    s.numbering.reservations.entries.any fun (reservationKey, reservation) =>
      startsWith reservationKey (tenantId ++ ":") && reservation.deviceId = item.deviceId &&
        reservation.orgUnitId = item.orgUnitId && reservation.entityType = item.entityType &&
        entryStatus s.numbering reservationKey number = some .applied

/-- `retry_after_correction`, of an item in conflict without a committed effect or another open
conflict. -/
def returnToPending (s : Store) (tenantId conflictKey : String) (conflict : Conflict)
    (item : StoredItem) : Except Thrown Store :=
  let refusal : Except Thrown Store := .error (offlineSyncError
    "OFFLINE_SYNC_CONFLICT_RESOLUTION" 409 "The item cannot return to pending.")
  match receiptOf s tenantId conflict.queueItemId with
  | none => refusal
  | some (storedKey, entry) =>
    if item.status ≠ .conflict ∨ entry.receipt.status ≠ .conflict ∨
        (entry.receipt.stynx.bind StynxContext.appliedAt).isSome = true ∨
        appliedNumber s tenantId item = true ∨
        otherOpen s tenantId conflictKey conflict.queueItemId = true then
      refusal
    else
      let t := setQueueStatus s (key tenantId conflict.queueItemId) item .pending
      .ok { t with
        itemReceipts := t.itemReceipts.set storedKey
          { entry with receipt := { entry.receipt with status := .pending, errorCode := none } } }

/-- What the store does for a resolution before it records it. -/
def correct (s : Store) (tenantId conflictKey : String) (conflict : Conflict) (item : StoredItem)
    (status : ConflictStatus) (resolution : Strategy) : Except Thrown Store :=
  if status = .resolved ∧ resolution = .retry_after_correction then
    returnToPending s tenantId conflictKey conflict item
  else .ok s

def allowedResolutions (s : Store) (conflictKey : String)
    (receipt : Option (String × ReceiptEntry)) (answer : Option (List Strategy)) : List Strategy :=
  ((answer <|> s.conflictAllowedActions.get? conflictKey) <|>
    contextActions (receipt.bind fun entry => entry.2.receipt.context)).getD
    [.deviceWins, .serverWins, .manualReview]

/-- `resolveWithPort`; `actionId` is the value `randomUUID()` returns. -/
def resolveWithPort (s : Store) (scope : Scope) (id : String) (input : ResolveInput)
    (now actionId : String) (ports : ResolverPorts) : Except Thrown (Store × Conflict) := do
  let conflictKey := key scope.tenantId id
  let some conflict := s.conflicts.get? conflictKey
    | .error (offlineSyncError "OFFLINE_SYNC_CONFLICT_NOT_FOUND" 404 "Conflict was not found.")
  if conflict.status ≠ .opened then
    .error (offlineSyncError "OFFLINE_SYNC_CONFLICT_STATE" 409 "Conflict is already resolved.")
  else
    let some item := s.queueItems.get? (key scope.tenantId conflict.queueItemId)
      | .error typeError
    let receipt := receiptOf s scope.tenantId conflict.queueItemId
    let context : ItemContext :=
      { tenantId := scope.tenantId
        actorId := scope.actorId
        agentId := item.agentId
        orgUnitId := item.orgUnitId
        deviceId := item.deviceId
        batchId := (receipt.map fun entry => entry.2.deviceBatchId).getD ""
        now := now }
    let answer ← ports.allowedActions context
    if !(allowedResolutions s conflictKey receipt answer).contains input.resolution then
      .error (offlineSyncError "OFFLINE_SYNC_CONFLICT_RESOLUTION" 409
        "Resolution action is not allowed.")
    else
      let resolved ← ports.resolve input.resolution context
      let some status := resolved.status
        | .error (offlineSyncError "OFFLINE_SYNC_CONFLICT_RESOLUTION" 409
            "Conflict resolver did not resolve the conflict.")
      let _ ← boundedConsumerAttributes resolved.consumerAttributes
      let t ← correct s scope.tenantId conflictKey conflict item status input.resolution
      let settled : Conflict :=
        { conflict with
          status := .resolved
          resolution := some input.resolution
          resolvedBy := some scope.actorId
          resolvedAt := some now }
      let t := if status = .resolved then
          { t with conflicts := t.conflicts.set conflictKey settled }
        else t
      ports.appendInTransaction
        { entity := "offline.sync-conflict"
          entityId := id
          idempotencyKey := "stynx:offline-sync:resolution:" ++ actionId }
      assertFrameComplete ports.unfinished
      .ok (t, if status = .resolved then settled else conflict)

/-- `SubmitSyncBatchInput`. -/
structure E6BatchInput where
  orgUnitId : String
  deviceId : String
  deviceBatchId : String
  /-- The items; the older interface requires their identities. -/
  items : List (ItemInput × String)

def storeE6Item (scope : Scope) (input : E6BatchInput) (now : String) (s : Store)
    (entry : ItemInput × String) : Except Thrown Store :=
  let (item, idempotencyKey) := entry
  let payloadKey := key scope.tenantId item.payloadHash
  let existing := (s.payloadIndex.get? payloadKey).bind fun id =>
    if id = "" then none else s.queueItems.get? (key scope.tenantId id)
  match existing with
  | some _ => .ok s
  | none =>
    let itemKey := key scope.tenantId item.queueItemId
    if (s.queueItems.get? itemKey).any fun reused => reused.payloadHash ≠ item.payloadHash then
      .error (offlineSyncError "OFFLINE_SYNC_QUEUE_ID_REUSED" 409
        ("Queue item " ++ item.queueItemId ++ " was already used with another payload hash."))
    else
      let queueItem : StoredItem :=
        { item with
          idempotencyKey := some idempotencyKey
          tenantId := scope.tenantId
          agentId := scope.actorId
          orgUnitId := input.orgUnitId
          deviceId := input.deviceId
          status := .received
          receivedAt := now }
      .ok { s with
        queueItems := s.queueItems.set itemKey queueItem
        queueBatches := s.queueBatches.set itemKey input.deviceBatchId
        e6Items := s.e6Items.set (key scope.tenantId idempotencyKey)
          { item := queueItem
            batchKey := key scope.tenantId (input.deviceId ++ ":" ++ input.deviceBatchId)
            deviceBatchId := input.deviceBatchId }
        payloadIndex := s.payloadIndex.set payloadKey item.queueItemId }

def submitSyncBatch (s : Store) (scope : Scope) (input : E6BatchInput) (now : String) :
    Except Thrown Store :=
  input.items.foldlM (storeE6Item scope input now) s

end Stynx.OfflineSyncQueue
