import Stynx.OfflineSyncQueue

/-!
# Durable batches of the in-memory offline-sync store

`submitDurableSyncBatch` with its two levels of frames. The writes of an item are final when its
frame ends. Inside it, preparation, numbering check, domain applier, concurrency check and event
run in a second frame, which is rolled back when one of them throws; the failure then decides the
receipt.

The ports of the host are functions, chosen anew for every submission. Digests are parameters.
What happened to the applier is recorded beside the result.
-/

namespace Stynx.OfflineSyncBatches

open OfflineSyncNumbering hiding Store
open OfflineSyncQueue

/-- `OfflineSyncConcurrencyResult`. -/
structure Detection where
  suspected : Bool
  pairs : List Pair

/-- `OfflineSyncApplyResult`. -/
structure Applied where
  serverEntityId : String
  /-- Attributes of the host, as JSON text. -/
  consumerAttributes : Option String

/-- Statuses that a classifier may give. -/
inductive OutcomeStatus where
  | received
  | rejected
  | conflict
  deriving DecidableEq

def OutcomeStatus.itemStatus : OutcomeStatus → ItemStatus
  | .received => .received
  | .rejected => .rejected
  | .conflict => .conflict

/-- Kinds of conflict that a classifier may open. -/
inductive ConflictKind where
  | domain
  | concurrency
  deriving DecidableEq

def ConflictKind.text : ConflictKind → String
  | .domain => "domain"
  | .concurrency => "concurrency"

/-- `OfflineSyncDomainOutcome`. -/
structure DomainOutcome where
  status : OutcomeStatus
  /-- The conflict to open, with its description. -/
  conflict : Option (ConflictKind × String)

inductive ClassifierAnswer where
  | undefined
  | outcome (value : DomainOutcome)
  /-- An exception, or a value of another shape. -/
  | malformed

/-- `OfflineSyncDomainFailure`. -/
structure DomainFailure where
  code : String
  httpStatus : Option Nat
  context : Option Context

/-- What to do with an item for which a concurrent one was found. -/
inductive ConcurrencyApplication where
  | apply
  | defer
  deriving DecidableEq

/-- `OfflineSyncPolicy`, as far as a batch reads it. -/
structure Policy where
  concurrencyWindowMinutes : Option Nat
  /-- Decision for a found concurrent item. -/
  concurrencyApplication : Option ConcurrencyApplication

/-- Where a conflict gets its identity. -/
inductive UuidCall where
  | integrity
  /-- In the given round of `recordPairs`. -/
  | pair (round : Nat)
  /-- In the `catch` block of an attempt. -/
  | failure

/-- The ports of the host, for one submission. -/
structure Ports where
  /-- Initial state of the keyed items of a new batch. -/
  initialQueueStatus : Option InitialStatus
  /-- `payloadHashPort`, or the digest of the canonical payload without it. -/
  payloadHash : ItemInput → ItemContext → Except Thrown String
  legacyItemIdentityResolver : Option (ItemInput → Except Thrown String)
  /-- `preApplyDetector`, with `none` for a value of another shape. -/
  preApplyDetector : Option (ItemInput → ItemContext → Except Thrown (Option Detection))
  handoffPort : Option (Pair → ItemContext → Except Thrown Bool)
  itemApplier : Option (ItemInput → ItemContext → Except Thrown Applied)
  concurrencyDetector : Option (ItemInput → ItemContext → Except Thrown Detection)
  /-- `conflictResolver?.allowedActions?.`, with `none` where it has or returns none. -/
  allowedActions : String → ItemContext → Except Thrown (Option (List Strategy))
  eventPort : Option (Event → Except Thrown Unit)
  domainOutcomeClassifier : Option (DomainFailure → ItemInput → ItemContext → ClassifierAnswer)
  policyResolver : Bool
  /-- Values of `randomUUID()` while an item is processed, by its identity and the call. -/
  randomUUID : String → UuidCall → String
  /-- Whether a callback leaves work open in the inner frame of an item. -/
  applyUnfinished : ItemInput → Bool
  /-- Whether a callback leaves work open in the outer frame of an item. -/
  itemUnfinished : ItemInput → Bool

/-- `CTG9SubmitSyncBatchInput`. -/
structure BatchInput where
  orgUnitId : String
  deviceId : String
  deviceBatchId : String
  agentId : Option String
  /-- Position among the batches of the device. -/
  batchSequence : Option Int
  items : List ItemInput

/-- `SubmitSyncBatchOptions`. -/
structure TransportOptions where
  transportIdempotencyKey : String
  path : String
  /-- User of the request, when it is not the actor. -/
  transportUserId : Option (Option String)
  requestBody : Option String

/-- `DurableBatchExecutionOptions`. -/
structure Execution where
  agentId : String
  policy : Policy
  ports : Ports
  transport : TransportOptions

/-- What a batch takes from its platform. -/
structure Platform where
  host : Host
  sha256 : String → String
  batchContextFingerprint : BatchInput → String → String
  transportFingerprint : TransportOptions → BatchInput → String
  transportCompositeKey : Scope → TransportOptions → String

/-- What the items of a batch share. -/
structure Batch where
  host : Host
  scope : Scope
  input : BatchInput
  execution : Execution
  now : String
  identity : String
  initialQueueStatus : InitialStatus
  itemKeys : OrderedMap String String

def executionStynxContext (execution : Execution) (fields : StynxContext) : StynxContext :=
  { fields with
    windowPending := execution.ports.policyResolver &&
      execution.ports.concurrencyDetector.isSome &&
      execution.policy.concurrencyWindowMinutes.isNone }

def canonicalPayloadHash (value : String) : Bool :=
  startsWith value "sha256:" && (value.toList.drop 7).length = 64 &&
    (value.toList.drop 7).all fun c => c.isDigit || ('a' ≤ c && c ≤ 'f')

def verifyOfflineSyncPayloadHash (item : ItemInput) (context : ItemContext) (ports : Ports) :
    Except Thrown Bool := do
  if !canonicalPayloadHash item.payloadHash then .ok false
  else
    let computed ← ports.payloadHash item context
    if !canonicalPayloadHash computed then .error (configurationError "payloadHashPort")
    else .ok (computed = item.payloadHash)

/-- One character inside a JSON text. -/
def jsonChar (c : Char) : List Char :=
  let escaped (code : Nat) : List Char := [Char.ofNat 92, Char.ofNat code]
  match c.toNat with
  | 34 => escaped 34
  | 92 => escaped 92
  | 8 => escaped 98
  | 9 => escaped 116
  | 10 => escaped 110
  | 12 => escaped 102
  | 13 => escaped 114
  | code =>
    if code < 32 then
      escaped 117 ++ ['0', '0', Nat.digitChar (code / 16), Nat.digitChar (code % 16)]
    else [c]

def jsonTexts (texts : List String) : String :=
  let quoted := texts.map fun text =>
    String.ofList ([Char.ofNat 34] ++ text.toList.flatMap jsonChar ++ [Char.ofNat 34])
  "[" ++ ",".intercalate quoted ++ "]"

namespace Batch

variable (batch : Batch)

def tenantId : String := batch.scope.tenantId

/-- The context of an item before its preparation. -/
def itemContext (receiptId : String) : ItemContext :=
  { tenantId := batch.scope.tenantId
    actorId := batch.scope.actorId
    agentId := batch.execution.agentId
    orgUnitId := batch.input.orgUnitId
    deviceId := batch.input.deviceId
    batchId := batch.input.deviceBatchId
    now := batch.now
    receiptId := some receiptId }

def storedItem (item : ItemInput) (status : ItemStatus) : StoredItem :=
  { item with
    tenantId := batch.tenantId
    agentId := batch.execution.agentId
    orgUnitId := batch.input.orgUnitId
    deviceId := batch.input.deviceId
    status := status
    receivedAt := batch.now }

/-- `saveRejection`: the first rejection of an attempt stays. -/
def saveRejection (s : Store) (rejectionKey : String) (item : ItemInput) (receiptKey : String)
    (original : Option StoredItem) : Store :=
  match s.integrityRejections.get? rejectionKey with
  | some _ => s
  | none =>
    { s with
      integrityRejections := s.integrityRejections.set rejectionKey
        { tenantId := batch.tenantId
          deviceId := batch.input.deviceId
          deviceBatchId := batch.input.deviceBatchId
          queueItemId := item.queueItemId
          idempotencyKey := receiptKey
          receivedPayloadHash := item.payloadHash
          storedPayloadHash := original.map fun stored => stored.payloadHash
          originalQueueItemId := original.map fun stored => stored.queueItemId
          rejectedAt := batch.now } }

def rejectionContext (s : Store) (rejectionKey : String) : Except Thrown StynxContext :=
  match s.integrityRejections.get? rejectionKey with
  | none => .error typeError
  | some recorded =>
    .ok
      { receiptId := some recorded.idempotencyKey
        errorCode := some "OFFLINE_SYNC_ITEM_INTEGRITY"
        reasonCode := some "OFFLINE_SYNC_ITEM_INTEGRITY"
        receivedPayloadHash := some recorded.receivedPayloadHash
        storedPayloadHash := recorded.storedPayloadHash
        relatedQueueItemId := recorded.originalQueueItemId
        retryable := some false }

/-- `integrityConflict`: one conflict for each identity and received hash. -/
def integrityConflict (s : Store) (item : ItemInput) (receiptKey : String)
    (original : Option StoredItem) : Except Thrown (Store × StynxContext) := do
  let rejectionKey := key batch.tenantId
    (jsonTexts [batch.input.deviceId, batch.input.deviceBatchId, item.queueItemId])
  let dedupe := key batch.tenantId (receiptKey ++ "\x00" ++ item.payloadHash)
  match original, s.integrityConflicts.get? dedupe with
  | some stored, none =>
    let conflictId := batch.execution.ports.randomUUID receiptKey .integrity
    let answer ← batch.execution.ports.allowedActions conflictId (batch.itemContext receiptKey)
    let t := batch.saveRejection s rejectionKey item receiptKey original
    let t := { t with integrityConflicts := t.integrityConflicts.set dedupe conflictId }
    let t := saveConflict t
      { conflictId := conflictId
        tenantId := batch.tenantId
        queueItemId := stored.queueItemId
        localEntityId := stored.localEntityId
        payloadHash := stored.payloadHash
        conflictType := "integrity"
        description := "Payload hash differs from the stored item."
        status := .opened }
      (some (answer.getD [.reject]))
    let context ← rejectionContext t rejectionKey
    .ok (t, context)
  | _, _ =>
    let t := batch.saveRejection s rejectionKey item receiptKey original
    let context ← rejectionContext t rejectionKey
    .ok (t, context)

def permits (pair : Pair) (context : ItemContext) : Except Thrown Bool :=
  match batch.execution.ports.handoffPort with
  | some port => port pair context
  | none => .ok false

end Batch

structure Prepared where
  context : ItemContext
  pairs : List Pair
  defer : Bool

namespace Batch

variable (batch : Batch)

/-- The loop body of `prepareOfflineSyncItem`; the first list is `seen`. -/
def admitPair (s : Store) (item : ItemInput) (context : ItemContext)
    (found : List Pair × List Pair) (pair : Pair) : Except Thrown (List Pair × List Pair) := do
  let known (id : String) : Bool :=
    id = item.queueItemId || s.queueItems.has (key batch.tenantId id)
  if pair.firstItemId = "" ∨ pair.secondItemId = "" ∨ pair.firstItemId = pair.secondItemId ∨
      pair.names item.queueItemId = false ∨ known pair.firstItemId = false ∨
      known pair.secondItemId = false then
    .error (configurationError "preApplyDetector")
  else if found.1.any pair.same then .ok found
  else
    let permitted ← batch.permits pair context
    .ok (found.1 ++ [pair], if permitted then found.2 else found.2 ++ [pair])

def prepareOfflineSyncItem (s : Store) (item : ItemInput) (original : ItemContext) :
    Except Thrown Prepared := do
  match batch.execution.ports.preApplyDetector with
  | none => .ok { context := original, pairs := [], defer := false }
  | some detect =>
    let some result ← detect item original
      | .error (configurationError "preApplyDetector")
    if result.suspected ≠ !result.pairs.isEmpty then
      .error (configurationError "preApplyDetector")
    else
      let found ← result.pairs.foldlM (batch.admitPair s item original) ([], [])
      .ok
        { context :=
            { original with
              concurrencySuspected := some (!found.2.isEmpty)
              concurrentPairs := some found.2 }
          pairs := found.2
          defer := !found.2.isEmpty &&
            batch.execution.policy.concurrencyApplication.getD .defer = .defer }

end Batch

/-- What an attempt works on. -/
structure Target where
  receiptKey : String
  item : ItemInput
  queueItemId : String
  previous : Option ReceiptEntry
  /-- Whether a `pending` receipt is applied again. -/
  reapplying : Bool
  initialStatus : ItemStatus

def Target.portItem (target : Target) : ItemInput :=
  { target.item with queueItemId := target.queueItemId }

def Target.attempts (target : Target) : Nat :=
  ((target.previous.bind fun entry => entry.receipt.stynx.bind StynxContext.attempts).getD 0) + 1

structure Attempt where
  status : ItemStatus
  errorCode : Option String := none
  serverEntityId : Option String := none
  receiptContext : Option Context := none
  coveringReservationKey : Option String := none
  stynx : Option StynxContext := none

/-- What `recordPairs` notes about its own item. -/
structure PairNotes where
  receiptContext : Option Context
  stynx : Option StynxContext

namespace Batch

variable (batch : Batch)

def concurrencyConflict (conflictId affected localEntityId payloadHash : String) : Conflict :=
  { conflictId := conflictId
    tenantId := batch.tenantId
    queueItemId := affected
    localEntityId := localEntityId
    payloadHash := payloadHash
    conflictType := "concurrency"
    description := "Concurrent agent activity"
    status := .opened }

/-- The loop body over the receipts in `recordPairs`. -/
def markReceipt (affected conflictId : String) (evidence : Context)
    (allowedActions : List Strategy) (conflictStynx : StynxContext) (s : Store)
    (entry : String × ReceiptEntry) : Store :=
  let storedKey := entry.1
  let old := entry.2
  if old.item.queueItemId = affected ∧ startsWith storedKey (batch.tenantId ++ ":") = true then
    let queueKey := key batch.tenantId affected
    let t := { s with
      itemReceipts := s.itemReceipts.set storedKey
        { old with
          receipt :=
            { old.receipt with
              status := .conflict
              context := some evidence
              stynx := some ((old.receipt.stynx.getD {}).merge conflictStynx) } } }
    let t := setQueueStatus t queueKey ((t.queueItems.get? queueKey).getD .absent) .conflict
    saveConflict t
      (batch.concurrencyConflict conflictId affected old.item.localEntityId old.item.payloadHash)
      (some allowedActions)
  else s

def recordAffected (target : Target) (context : ItemContext) (pair : Pair) (round : Nat)
    (state : Store × PairNotes) (affected : String) : Except Thrown (Store × PairNotes) := do
  let conflictId := batch.execution.ports.randomUUID target.receiptKey (.pair round)
  let relatedQueueItemId :=
    if affected = pair.firstItemId then pair.secondItemId else pair.firstItemId
  let answer ← batch.execution.ports.allowedActions conflictId context
  let allowedActions := answer.getD [.manualReview]
  let evidence := contextOf
    [("conflictId", .text conflictId), ("relatedQueueItemId", .text relatedQueueItemId),
      ("allowedActions", .actions allowedActions)]
  let conflictStynx := executionStynxContext batch.execution
    { reasonCode := some "OFFLINE_SYNC_CONCURRENCY_SUSPECTED"
      concurrencySuspected := some true
      concurrentPairs := some [pair]
      relatedQueueItemId := some relatedQueueItemId
      retryable := some (allowedActions.contains .retry_after_correction) }
  let t := state.1.itemReceipts.entries.foldl
    (batch.markReceipt affected conflictId evidence allowedActions conflictStynx) state.1
  if affected = target.queueItemId then
    .ok (saveConflict t
      (batch.concurrencyConflict conflictId affected target.item.localEntityId
        target.item.payloadHash) (some allowedActions), ⟨some evidence, some conflictStynx⟩)
  else .ok (t, state.2)

/-- The loop body over the pairs in `recordPairs`. -/
def recordPair (target : Target) (context : ItemContext) (state : Store × PairNotes)
    (entry : Pair × Nat) : Except Thrown (Store × PairNotes) := do
  let first ← batch.recordAffected target context entry.1 (2 * entry.2) state entry.1.firstItemId
  batch.recordAffected target context entry.1 (2 * entry.2 + 1) first entry.1.secondItemId

def recordPairs (target : Target) (context : ItemContext) (s : Store) (pairs : List Pair) :
    Except Thrown (Store × PairNotes) :=
  pairs.zipIdx.foldlM (batch.recordPair target context) (s, ⟨none, none⟩)

def deferItem (target : Target) (s : Store) (prepared : Prepared) :
    Except Thrown (Store × Attempt) := do
  let (t, notes) ← batch.recordPairs target prepared.context s prepared.pairs
  let platform := executionStynxContext batch.execution
    { receiptId := some target.receiptKey
      attempts := some target.attempts
      concurrencySuspected := prepared.context.concurrencySuspected
      concurrentPairs := prepared.context.concurrentPairs }
  .ok (t,
    { status := .conflict
      receiptContext := notes.receiptContext
      stynx := some (platform.merge (notes.stynx.getD {})) })

/-- Whether the host looks for concurrent items after the application. -/
def detectsConcurrency : Bool :=
  batch.execution.policy.concurrencyWindowMinutes.any (· ≠ 0) &&
    batch.execution.ports.concurrencyDetector.isSome

def addDetected (context : ItemContext) (pairs : List Pair) (pair : Pair) :
    Except Thrown (List Pair) := do
  let permitted ← batch.permits pair context
  if permitted then .ok pairs
  else if pairs.any fun old => old.names pair.firstItemId && old.names pair.secondItemId then
    .ok pairs
  else .ok (pairs ++ [pair])

/-- The pairs after the application. -/
def detectedPairs (item : ItemInput) (prepared : Prepared) : Except Thrown (List Pair) := do
  match batch.execution.ports.concurrencyDetector with
  | some detect =>
    if batch.detectsConcurrency then
      let detected ← detect item prepared.context
      if detected.suspected then
        detected.pairs.foldlM (batch.addDetected prepared.context) prepared.pairs
      else .ok prepared.pairs
    else .ok prepared.pairs
  | none => .ok prepared.pairs

/-- What follows a call of the applier that returned. -/
def finishApply (target : Target) (s : Store) (prepared : Prepared)
    (coveringReservationKey : Option String) (applied : Applied) :
    Except Thrown (Store × Attempt) := do
  let consumerAttributes ← boundedConsumerAttributes applied.consumerAttributes
  let pairs ← batch.detectedPairs target.portItem prepared
  let (t, notes) ← batch.recordPairs target prepared.context s pairs
  let checked := prepared.context.concurrencySuspected.isSome || batch.detectsConcurrency
  let platform := executionStynxContext batch.execution
    { concurrencySuspected := if checked then some (!pairs.isEmpty) else none
      concurrentPairs := if checked then some pairs else none
      receiptId := some target.receiptKey
      appliedAt := some batch.now
      serverEntityId := some applied.serverEntityId
      attempts := some target.attempts
      consumerAttributes := consumerAttributes }
  match batch.execution.ports.eventPort with
  | none => .error typeError
  | some append =>
    append
      { entity := target.item.entityType
        entityId := applied.serverEntityId
        idempotencyKey :=
          if target.reapplying then
            target.receiptKey ++ ":retry:" ++ toString target.attempts
          else target.receiptKey }
    .ok (t,
      { status :=
          if pairs.any fun pair => pair.names target.queueItemId then .conflict else .applied
        serverEntityId := some applied.serverEntityId
        receiptContext := notes.receiptContext
        coveringReservationKey := coveringReservationKey
        stynx := some ((notes.stynx.getD {}).merge platform) })

end Batch

def numberingText : NumberingCode → String
  | .noCoverage => "OFFLINE_SYNC_NUMBERING_NO_COVERAGE"
  | .ambiguous => "OFFLINE_SYNC_NUMBERING_AMBIGUOUS"
  | .expired => "OFFLINE_SYNC_NUMBERING_EXPIRED"
  | .alreadyApplied => "OFFLINE_SYNC_NUMBERING_ALREADY_APPLIED"

/-- `OfflineSyncNumberingOutcome.context`. -/
def numberingContext (number : Int) (reservationId : Option String) : Context :=
  contextOf [("number", .number number), ("reservationId", (reservationId.map .text).getD .null)]

/-- The exception of the covering check. -/
def numberingThrown : Failure → Thrown
  | .numberingOutcome code number reservationId =>
    { kind := .numbering code number reservationId
      code := some (numberingText code)
      context := some (numberingContext number reservationId)
      message := numberingText code }
  | _ => typeError

/-- An exception in the inner frame, with the context the item had then. -/
structure Failed where
  error : Thrown
  context : ItemContext

/-- `apply` in its frame: whether the applier was called, and how the frame ended. -/
structure Applying where
  called : Bool
  ending : Except Failed (Store × Attempt)

namespace Batch

variable (batch : Batch)

/-- The members of an item that the numbering code reads. -/
def numberedItem (item : ItemInput) : NumberedItem :=
  { tenantId := batch.tenantId
    deviceId := batch.input.deviceId
    orgUnitId := batch.input.orgUnitId
    entityType := item.entityType
    reservedNumber := item.reservedNumber
    reservationId := item.reservationId
    createdLocallyAt := item.createdLocallyAt }

def endFrame (target : Target) (context : ItemContext)
    (result : Except Thrown (Store × Attempt)) : Except Failed (Store × Attempt) :=
  match result with
  | .error error => .error ⟨error, context⟩
  | .ok value =>
    match assertFrameComplete (batch.execution.ports.applyUnfinished target.item) with
    | .error error => .error ⟨error, context⟩
    | .ok _ => .ok value

def applyItem (target : Target) (s : Store) : Applying :=
  let original := batch.itemContext target.receiptKey
  match batch.prepareOfflineSyncItem s target.portItem original with
  | .error error => ⟨false, .error ⟨error, original⟩⟩
  | .ok prepared =>
    if prepared.defer then
      ⟨false, batch.endFrame target prepared.context (batch.deferItem target s prepared)⟩
    else
      match coveringReservation batch.host s.numbering (batch.numberedItem target.item) with
      | .error failure => ⟨false, .error ⟨numberingThrown failure, prepared.context⟩⟩
      | .ok coveringReservationKey =>
        match batch.execution.ports.itemApplier with
        | none =>
          ⟨false, batch.endFrame target prepared.context (.ok (s,
            { status := target.initialStatus
              coveringReservationKey := coveringReservationKey }))⟩
        | some apply =>
          ⟨true, batch.endFrame target prepared.context (do
            let applied ← apply target.portItem prepared.context
            batch.finishApply target s prepared coveringReservationKey applied)⟩

end Batch

def domainFailureCode (error : Thrown) : Option String :=
  error.code.filter fun code => !code.toList.all isTrimmed && code.utf8ByteSize ≤ 255

/-- The checks on a classifier's outcome. -/
def DomainOutcome.isLegal (outcome : DomainOutcome) : Bool :=
  match outcome.conflict with
  | none => true
  | some (_, description) =>
    outcome.status ≠ .received && !description.toList.all isTrimmed &&
      description.utf8ByteSize ≤ 4000

/-- What `classifyDomainOutcome` returns. -/
structure Classification where
  valid : Bool
  outcome : Option DomainOutcome := none
  code : Option String := none

def classifyDomainOutcome (ports : Ports) (error : Thrown) (item : ItemInput)
    (context : ItemContext) : Classification :=
  match ports.domainOutcomeClassifier with
  | none => { valid := true }
  | some classify =>
    if !error.contextValid || !error.kind.isDomain then { valid := true }
    else
      match domainFailureCode error with
      | none => { valid := true }
      | some code =>
        if startsWith code "OFFLINE_SYNC" then { valid := true }
        else
          match classify ⟨code, error.kind.httpStatus, error.context⟩ item context with
          | .undefined => { valid := true, code := some code }
          | .malformed => { valid := false }
          | .outcome value =>
            if value.isLegal then { valid := true, outcome := some value, code := some code }
            else { valid := false }

/-- `classified`: a client error of the host. -/
def isClassified (error : Thrown) (classification : Classification) : Bool :=
  error.contextValid && classification.valid &&
    (error.kind.httpStatus.any fun status => 400 ≤ status && status < 500) &&
    !(match error.kind with
      | .offlineSync _ => error.code = some "OFFLINE_SYNC_BATCH_CONFLICT"
      | _ => false)

def failureCode (ports : Ports) (error : Thrown) (classification : Classification) : String :=
  if !error.contextValid then "OFFLINE_SYNC_DOMAIN_CONTEXT_INVALID"
  else if !classification.valid then "OFFLINE_SYNC_DOMAIN_OUTCOME_INVALID"
  else if ports.domainOutcomeClassifier.isSome then
    (classification.code <|> domainFailureCode error).getD "OFFLINE_SYNC_ITEM_FAILED"
  else error.code.getD "OFFLINE_SYNC_ITEM_FAILED"

/-- `receiptStatus` of a numbering outcome. -/
def numberingStatus : ErrorKind → Option ItemStatus
  | .numbering code _ _ => some (if code = .expired then .conflict else .rejected)
  | _ => none

/-- The conflict that a failed attempt opens: its type, description and default actions. -/
def failureConflict (error : Thrown) (classification : Classification) :
    Option (String × String × List Strategy) :=
  match error.kind with
  | .numbering code _ _ =>
    some ("domain", numberingText code, [.reject, .retry_after_correction])
  | _ =>
    (classification.outcome.bind DomainOutcome.conflict).map fun (kind, description) =>
      (kind.text, description,
        if kind = .concurrency then [.manual_review] else [.reject, .retry_after_correction])

namespace Batch

variable (batch : Batch)

/-- The `catch` block of an attempt: the receipt of a failure, and whether the batch stays open. -/
def failItem (target : Target) (s : Store) (failed : Failed) :
    Except Thrown (Store × Attempt × Bool) := do
  let ports := batch.execution.ports
  let error := failed.error
  if error.kind = .configuration then .error error
  else if error.kind = .nullish ∧ ports.domainOutcomeClassifier.isNone = true then
    .error typeError
  else
    let classification :=
      classifyDomainOutcome ports error target.portItem failed.context
    let classified := isClassified error classification
    let status := (numberingStatus error.kind <|>
        classification.outcome.map fun outcome => outcome.status.itemStatus).getD
      (if classified then .rejected
        else if target.reapplying then .pending else target.initialStatus)
    let errorCode := failureCode ports error classification
    let numbering := (numberingStatus error.kind).isSome
    let stynx := executionStynxContext batch.execution
      { receiptId := some target.receiptKey
        errorCode := some errorCode
        errorMessage := some error.message
        attempts := some target.attempts
        reasonCode :=
          if numbering then error.code
          else if classification.outcome.isSome then some errorCode else none
        retryable := some (if classification.outcome.isSome then false else !classified)
        terminalReceived :=
          classification.outcome.any fun outcome => outcome.status = .received }
    let receiptContext :=
      if (classified || classification.outcome.isSome) && !numbering then error.context else none
    let retryable := !classified && classification.outcome.isNone
    match failureConflict error classification with
    | none =>
      .ok (s,
        { status := status, errorCode := some errorCode, receiptContext := receiptContext,
          stynx := some stynx }, retryable)
    | some (conflictType, description, defaultActions) =>
      let conflictId := ports.randomUUID target.receiptKey .failure
      let answer ← ports.allowedActions conflictId failed.context
      let allowedActions := answer.getD defaultActions
      let evidence := contextOf
        [("conflictId", .text conflictId), ("allowedActions", .actions allowedActions)]
      let t := saveConflict s
        { conflictId := conflictId
          tenantId := batch.tenantId
          queueItemId := target.queueItemId
          localEntityId := target.item.localEntityId
          payloadHash := target.item.payloadHash
          conflictType := conflictType
          description := description
          status := .opened }
        (some allowedActions)
      .ok (t,
        { status := status
          errorCode := some errorCode
          receiptContext :=
            if numbering then some (mergeContext (error.context.getD .empty) evidence)
            else receiptContext
          stynx := some stynx }, retryable)

end Batch

/-- What happens to the applier. -/
inductive Mark where
  | called
  /-- The frame of the item ended well and the receipt has an application instant. -/
  | committed
  deriving DecidableEq

/-- A mark with the receipt and the item it is about. -/
structure ApplierEvent where
  mark : Mark
  itemKey : String
  tenantId : String
  /-- Identity that the device gave the item. -/
  idempotencyKey : Option String

/-- What a batch has gathered. -/
structure Progress where
  stored : List StoredItem
  itemReceipts : List ItemReceipt
  duplicates : Nat
  retryable : Bool

def Progress.push (progress : Progress) (item : StoredItem) (receipt : ItemReceipt) : Progress :=
  { progress with
    stored := progress.stored ++ [item]
    itemReceipts := progress.itemReceipts ++ [receipt] }

/-- How the frame of an item ended. -/
structure ItemRun where
  events : List ApplierEvent
  ending : Except Thrown (Store × Progress)

/-- What the receipt of an item decides. -/
inductive Gate where
  /-- The item is processed. -/
  | attempt
  /-- The receipt answers. -/
  | repeated
  /-- The payload differs. -/
  | tampered

namespace Batch

variable (batch : Batch)

def initialStatus (item : ItemInput) : ItemStatus :=
  if (truthy item.idempotencyKey).isSome ∧ batch.initialQueueStatus = .pending then .pending
  else .received

def reapplies (item : ItemInput) (previous : ReceiptEntry) : Bool :=
  previous.hash = item.payloadHash && previous.receipt.status = .pending &&
    previous.item.deviceId = batch.input.deviceId && previous.batchKey ≠ batch.identity &&
    (truthy item.idempotencyKey).isSome && batch.execution.ports.itemApplier.isSome

/-- Whether the host ended the item as received. -/
def isTerminal (previous : ReceiptEntry) : Bool :=
  previous.receipt.stynx.any StynxContext.terminalReceived

/-- What an earlier receipt of the item decides. -/
def gate (item : ItemInput) (previous : ReceiptEntry) : Gate :=
  if batch.reapplies item previous then .attempt
  else if previous.hash = item.payloadHash ∧
      (previous.batchKey ≠ batch.identity ∨
        previous.receipt.status ≠ batch.initialStatus item ∨
        isTerminal previous = true ∨ (truthy item.idempotencyKey).isNone = true) then .repeated
  else if previous.hash ≠ item.payloadHash then .tampered
  else .attempt

def rejectItem (progress : Progress) (item : StoredItem) (queueItemId errorCode : String)
    (stynx : Option StynxContext) : Progress :=
  progress.push { item with queueItemId := queueItemId, status := .rejected }
    { queueItemId := queueItemId
      status := .rejected
      errorCode := some errorCode
      context := none
      stynx := stynx }

def rejectIntegrity (s : Store) (progress : Progress) (item : ItemInput) (receiptKey : String)
    (original : Option StoredItem) (answer : StoredItem) : Except Thrown (Store × Progress) := do
  let (t, stynx) ← batch.integrityConflict s item receiptKey original
  .ok (t, rejectItem progress answer item.queueItemId "OFFLINE_SYNC_ITEM_INTEGRITY" (some stynx))

/-- The conflict of an item of the older interface whose payload differs. -/
def conflictE6 (s : Store) (item : ItemInput) (receiptKey : String) (legacy : StoredItem) :
    Except Thrown (Store × Option StynxContext) :=
  if legacy.payloadHash = item.payloadHash then .ok (s, none)
  else do
    let (t, stynx) ← batch.integrityConflict s item receiptKey (some legacy)
    .ok (t, some stynx)

/-- An item that the older interface brought. -/
def answerE6 (s : Store) (progress : Progress) (item : ItemInput) (receiptKey : String)
    (e6 : E6Item) : Except Thrown (Store × Progress) := do
  let some legacy := s.queueItems.get? (key batch.tenantId e6.item.queueItemId)
    | .error typeError
  let (t, stynx) ← batch.conflictE6 s item receiptKey legacy
  let sameHash : Bool := legacy.payloadHash = item.payloadHash
  let legacyReceived : Bool := sameHash && legacy.status = .received
  let status := if !sameHash || legacyReceived then .rejected else legacy.status
  let errorCode :=
    if !sameHash then some "OFFLINE_SYNC_ITEM_INTEGRITY"
    else if legacyReceived then some "OFFLINE_SYNC_LEGACY_ITEM_NOT_APPLIED" else none
  let context :=
    if legacy.queueItemId ≠ item.queueItemId then
      some (contextOf [("originalQueueItemId", .text legacy.queueItemId)])
    else none
  let t := { t with
    itemReceipts := t.itemReceipts.set (key batch.tenantId receiptKey)
      { hash := legacy.payloadHash
        batchKey := e6.batchKey
        receipt :=
          { queueItemId := legacy.queueItemId
            status := legacy.status
            errorCode := none
            context := none
            stynx := none }
        item := legacy
        deviceBatchId := e6.deviceBatchId
        receivedAt := legacy.receivedAt } }
  let counted :=
    if sameHash && e6.batchKey ≠ batch.identity then
      { progress with duplicates := progress.duplicates + 1 }
    else progress
  .ok (t, counted.push (batch.storedItem item status)
    { queueItemId := item.queueItemId
      status := status
      errorCode := errorCode
      context := context
      stynx := stynx })

def answerRepeated (progress : Progress) (item : ItemInput) (previous : ReceiptEntry) : Progress :=
  let counted :=
    if previous.batchKey ≠ batch.identity then
      { progress with duplicates := progress.duplicates + 1 }
    else progress
  let waits : Bool := previous.receipt.status = batch.initialStatus item &&
    (truthy item.idempotencyKey).isSome && batch.execution.ports.itemApplier.isSome &&
    !isTerminal previous
  let context := mergeContext (previous.receipt.context.getD .empty)
    (if previous.item.queueItemId ≠ item.queueItemId then
      contextOf [("originalQueueItemId", .text previous.item.queueItemId)]
    else .empty)
  { counted with retryable := counted.retryable || waits }.push
    { previous.item with queueItemId := item.queueItemId }
    { queueItemId := item.queueItemId
      status := previous.receipt.status
      errorCode := previous.receipt.errorCode
      context := if context.entries.isEmpty then none else some context
      stynx := previous.receipt.stynx }

/-- Whether the applier was called, the maps, the decision and whether the batch stays open. -/
def attemptItem (target : Target) (s : Store) : Bool × Except Thrown (Store × Attempt × Bool) :=
  match truthy target.item.idempotencyKey with
  | none =>
    (false, .ok (s,
      { status := target.initialStatus
        errorCode := some "OFFLINE_SYNC_LEGACY_ITEM_NOT_APPLIED" }, false))
  | some _ =>
    let applying := batch.applyItem target s
    (applying.called,
      match applying.ending with
      | .ok (t, attempt) => .ok (t, attempt, false)
      | .error failed => batch.failItem target s failed)

def storedReceipt (target : Target) (attempt : Attempt) : ReceiptEntry :=
  let kept := target.previous.bind fun entry => entry.receipt.context
  { hash := target.item.payloadHash
    batchKey :=
      match target.reapplying, target.previous with
      | true, some previous => previous.batchKey
      | _, _ => batch.identity
    receipt :=
      { queueItemId := target.queueItemId
        status := attempt.status
        errorCode := attempt.errorCode
        context :=
          if kept.isSome || attempt.receiptContext.isSome then
            some (mergeContext (kept.getD .empty) (attempt.receiptContext.getD .empty))
          else none
        stynx := attempt.stynx }
    item := { batch.storedItem target.item attempt.status with queueItemId := target.queueItemId }
    deviceBatchId :=
      match target.reapplying, target.previous with
      | true, some previous => previous.deviceBatchId
      | _, _ => batch.input.deviceBatchId
    receivedAt := (target.previous.map ReceiptEntry.receivedAt).getD batch.now }

def answeredReceipt (target : Target) (stored : ItemReceipt) : ItemReceipt :=
  let context := mergeContext (stored.context.getD .empty)
    (if target.reapplying && target.queueItemId ≠ target.item.queueItemId then
      contextOf [("originalQueueItemId", .text target.queueItemId)]
    else .empty)
  { stored with
    queueItemId := target.item.queueItemId
    context := if context.entries.isEmpty then none else some context }

/-- The writes at the end of an attempt. -/
def recordItem (target : Target) (s : Store) (progress : Progress) (attempt : Attempt)
    (retryable : Bool) : Except Thrown (Store × Progress) := do
  assertFrameComplete (batch.execution.ports.itemUnfinished target.item)
  let queueKey := key batch.tenantId target.queueItemId
  let entry := batch.storedReceipt target attempt
  let t := { s with
    queueItems := s.queueItems.set queueKey
      { entry.item with idempotencyKey := some target.receiptKey }
    queueBatches :=
      if target.reapplying then s.queueBatches
      else s.queueBatches.set queueKey batch.input.deviceBatchId
    itemReceipts := s.itemReceipts.set (key batch.tenantId target.receiptKey) entry }
  match recordConsumption t.numbering (truthy attempt.coveringReservationKey)
      (batch.numberedItem target.item) attempt.status attempt.serverEntityId batch.now with
  | (_, .error _) => .error typeError
  | (numbering, .ok _) =>
    .ok ({ t with numbering := numbering },
      { progress with retryable := progress.retryable || retryable }.push
        (batch.storedItem target.item attempt.status)
        (answeredReceipt target entry.receipt))

/-- What an attempt works on. -/
def target (item : ItemInput) (receiptKey : String) (previous : Option ReceiptEntry) : Target :=
  let reapplying := previous.any (batch.reapplies item)
  { receiptKey := receiptKey
    item := item
    queueItemId :=
      match reapplying, previous with
      | true, some entry => entry.item.queueItemId
      | _, _ => item.queueItemId
    previous := previous
    reapplying := reapplying
    initialStatus := batch.initialStatus item }

def event (mark : Mark) (item : ItemInput) (receiptKey : String) : ApplierEvent :=
  ⟨mark, key batch.tenantId receiptKey, batch.tenantId, item.idempotencyKey⟩

def processAttempt (s : Store) (progress : Progress) (item : ItemInput) (receiptKey : String)
    (previous : Option ReceiptEntry) : ItemRun :=
  let target := batch.target item receiptKey previous
  let attempted := batch.attemptItem target s
  let called := if attempted.1 then [batch.event .called item receiptKey] else []
  match attempted.2 with
  | .error error => ⟨called, .error error⟩
  | .ok (t, attempt, retryable) =>
    match batch.recordItem target t progress attempt retryable with
    | .error error => ⟨called, .error error⟩
    | .ok ending =>
      ⟨called ++
        if attempted.1 ∧ (attempt.stynx.bind StynxContext.appliedAt).isSome = true then
          [batch.event .committed item receiptKey]
        else [], .ok ending⟩

def processVerified (s : Store) (progress : Progress) (item : ItemInput) (receiptKey : String) :
    ItemRun :=
  if (s.queueItems.get? (key batch.tenantId item.queueItemId)).any
      fun queued => queued.idempotencyKey ≠ some receiptKey then
    ⟨[], .ok (s, rejectItem progress (batch.storedItem item .rejected) item.queueItemId
      "OFFLINE_SYNC_QUEUE_ID_REUSED" none)⟩
  else
    match s.e6Items.get? (key batch.tenantId receiptKey) with
    | some e6 => ⟨[], batch.answerE6 s progress item receiptKey e6⟩
    | none =>
      match s.itemReceipts.get? (key batch.tenantId receiptKey) with
      | none => batch.processAttempt s progress item receiptKey none
      | some previous =>
        match batch.gate item previous with
        | .attempt => batch.processAttempt s progress item receiptKey (some previous)
        | .repeated => ⟨[], .ok (s, batch.answerRepeated progress item previous)⟩
        | .tampered =>
          ⟨[], batch.rejectIntegrity s progress item receiptKey
            (some { previous.item with idempotencyKey := some receiptKey }) previous.item⟩

def processItem (s : Store) (progress : Progress) (item : ItemInput) : ItemRun :=
  match batch.itemKeys.get? item.queueItemId with
  | none => ⟨[], .error typeError⟩
  | some receiptKey =>
    match verifyOfflineSyncPayloadHash item (batch.itemContext receiptKey)
        batch.execution.ports with
    | .error error => ⟨[], .error error⟩
    | .ok false =>
      ⟨[], batch.rejectIntegrity s progress item receiptKey
        ((s.itemReceipts.get? (key batch.tenantId receiptKey)).map fun entry =>
          { entry.item with idempotencyKey := some receiptKey })
        (batch.storedItem item .rejected)⟩
    | .ok true => batch.processVerified s progress item receiptKey

/-- The loop over the items: what a finished item wrote stays. -/
def processItems (s : Store) (progress : Progress) :
    List ItemInput → List ApplierEvent × Store × Except Thrown Progress
  | [] => ([], s, .ok progress)
  | item :: rest =>
    let first := batch.processItem s progress item
    match first.ending with
    | .error error => (first.events, s, .error error)
    | .ok (t, next) =>
      let later := processItems t next rest
      (first.events ++ later.1, later.2)

end Batch

/-- How a submission ended. -/
structure Submission where
  events : List ApplierEvent
  store : Store
  ending : Except Thrown BatchResult

def declaredKey (platform : Platform) (scope : Scope) (input : BatchInput) (ports : Ports)
    (item : ItemInput) : Except Thrown String := do
  if item.reservedNumber.any fun number => !isSafeInteger number then
    .error (offlineSyncError "OFFLINE_SYNC_INVALID_INPUT" 400
      "reservedNumber must be a safe integer.")
  else if item.idempotencyKey.any fun given => startsWith given "stynx:legacy:" then
    .error (offlineSyncError "OFFLINE_SYNC_INVALID_INPUT" 400 "Reserved item namespace.")
  else
    match truthy item.idempotencyKey with
    | some given => .ok given
    | none =>
      let identityText ← match ports.legacyItemIdentityResolver with
        | some resolve => resolve item
        | none => .ok ("\x00".intercalate
            [input.deviceId, input.deviceBatchId, item.queueItemId])
      if identityText = "" then
        .error (offlineSyncError "OFFLINE_SYNC_INVALID_INPUT" 400 "Legacy identity is empty.")
      else
        .ok ("stynx:legacy:v1:" ++ platform.sha256 (scope.tenantId ++ "\x00" ++ identityText))

/-- The loop that collects the identities; the list holds those declared so far. -/
def declareKey (platform : Platform) (scope : Scope) (input : BatchInput) (ports : Ports)
    (found : OrderedMap String String × List String) (item : ItemInput) :
    Except Thrown (OrderedMap String String × List String) := do
  let receiptKey ← declaredKey platform scope input ports item
  if found.2.contains receiptKey then
    .error (offlineSyncError "OFFLINE_SYNC_INVALID_INPUT" 400
      "Item identity appears more than once in the batch.")
  else .ok (found.1.set item.queueItemId receiptKey, found.2 ++ [receiptKey])

def checkPorts (input : BatchInput) (ports : Ports) : Except Thrown Unit :=
  if ports.itemApplier.isNone ∧ input.items.any (fun item =>
      (truthy item.idempotencyKey).isSome && item.reservedNumber.isSome) = true then
    .error (configurationError "itemApplier")
  else if ports.itemApplier.isSome ∧ ports.eventPort.isNone then
    .error (configurationError "eventPort")
  else .ok ()

/-- The check of the position of a new batch. -/
def checkSequence (s : Store) (scope : Scope) (input : BatchInput) : Except Thrown Unit :=
  match input.batchSequence with
  | none => .ok ()
  | some received =>
    let siblings := (s.batches.entries.filter fun (batchKey, record) =>
      startsWith batchKey (scope.tenantId ++ ":") &&
        record.receipt.deviceId = input.deviceId).map fun entry => entry.2.receipt
    let expected := siblings.foldl
      (fun highest receipt => max highest (receipt.batchSequence.getD 0)) 0 + 1
    if siblings.any fun receipt => receipt.batchSequence = some received then
      .error (offlineSyncError "OFFLINE_SYNC_BATCH_CONFLICT" 409 "Batch sequence is already used.")
    else if received ≠ expected then
      .error (offlineSyncError "OFFLINE_SYNC_BATCH_SEQUENCE" 422
        ("Expected batch sequence " ++ toString expected ++ "; received " ++ toString received ++
          "."))
    else .ok ()

def checkTransport (s : Store) (transportKey fingerprint identity : String) : Except Thrown Unit :=
  match s.transport.get? transportKey with
  | none => .ok ()
  | some bound =>
    if bound.fingerprint ≠ fingerprint then
      .error { kind := .http 422, message := "IDEMPOTENT_KEY_REUSE_DIFFERENT_BODY" }
    else if bound.batchIdentity ≠ identity then
      .error (offlineSyncError "OFFLINE_SYNC_BATCH_CONFLICT" 409
        "Transport key belongs to another batch.")
    else .ok ()

/-- The record under which a submission runs. -/
def batchRecord (prior : Option BatchRecord) (input : BatchInput) (ports : Ports)
    (contextHash transportKey fingerprint now : String) : BatchRecord :=
  prior.getD
    { contextHash := contextHash
      initialQueueStatus := ports.initialQueueStatus.getD .received
      receipt :=
        { deviceId := input.deviceId
          deviceBatchId := input.deviceBatchId
          batchSequence := input.batchSequence
          status := .opened
          items := []
          responseStatus := none }
      result := none
      transportKey := transportKey
      fingerprint := fingerprint
      createdAt := now }

/-- The result of a batch whose items were all processed. -/
def batchResult (input : BatchInput) (receipt : BatchReceipt) (progress : Progress) : BatchResult :=
  { batchId := input.deviceBatchId
    acceptedItems := input.items.length
    duplicateItems := progress.duplicates
    conflicts := (progress.stored.filter fun item => item.status = .conflict).map
      fun item => item.queueItemId
    items := progress.stored
    receipt :=
      { receipt with
        status := if progress.retryable then .opened else .closed
        items := progress.itemReceipts
        responseStatus := if progress.retryable then none else some 201 } }

/-- The part of `submitDurableSyncBatch` under the tenant's gate. -/
def runBatch (s : Store) (batch : Batch) (record : BatchRecord) : Submission :=
  let processed := batch.processItems s ⟨[], [], 0, false⟩ batch.input.items
  match processed.2.2 with
  | .error error => ⟨processed.1, processed.2.1, .error error⟩
  | .ok progress =>
    let result := batchResult batch.input record.receipt progress
    let settled :=
      { record with
        receipt := result.receipt
        result := if progress.retryable then none else some result }
    ⟨processed.1,
      { processed.2.1 with batches := processed.2.1.batches.set batch.identity settled },
      .ok result⟩

def batchIdentity (scope : Scope) (input : BatchInput) : String :=
  key scope.tenantId (input.deviceId ++ ":" ++ input.deviceBatchId)

/-- The check of an earlier record of the batch, or of the position of a new one. -/
def checkContext (platform : Platform) (s : Store) (scope : Scope) (input : BatchInput)
    (execution : Execution) : Except Thrown Unit :=
  match s.batches.get? (batchIdentity scope input) with
  | some record =>
    if record.contextHash ≠ platform.batchContextFingerprint input execution.agentId then
      .error (offlineSyncError "OFFLINE_SYNC_BATCH_CONFLICT" 409
        "Batch context differs from the original.")
    else .ok ()
  | none => checkSequence s scope input

def checkSubmission (platform : Platform) (s : Store) (scope : Scope) (input : BatchInput)
    (execution : Execution) : Except Thrown (OrderedMap String String) := do
  let declared ← input.items.foldlM (declareKey platform scope input execution.ports) (.empty, [])
  checkPorts input execution.ports
  checkContext platform s scope input execution
  checkTransport s (platform.transportCompositeKey scope execution.transport)
    (platform.transportFingerprint execution.transport input) (batchIdentity scope input)
  .ok declared.1

def bindTransport (platform : Platform) (s : Store) (scope : Scope) (input : BatchInput)
    (execution : Execution) : Store :=
  { s with
    transport := s.transport.set (platform.transportCompositeKey scope execution.transport)
      ⟨batchIdentity scope input, platform.transportFingerprint execution.transport input⟩ }

def submitDurableSyncBatch (platform : Platform) (s : Store) (scope : Scope) (input : BatchInput)
    (execution : Execution) (now : String) : Submission :=
  match checkSubmission platform s scope input execution with
  | .error error => ⟨[], s, .error error⟩
  | .ok itemKeys =>
    let bound := bindTransport platform s scope input execution
    let prior := s.batches.get? (batchIdentity scope input)
    match prior.bind BatchRecord.result with
    | some result => ⟨[], bound, .ok result⟩
    | none =>
      let record := batchRecord prior input execution.ports
        (platform.batchContextFingerprint input execution.agentId)
        (platform.transportCompositeKey scope execution.transport)
        (platform.transportFingerprint execution.transport input) now
      runBatch { bound with batches := bound.batches.set (batchIdentity scope input) record }
        { host := platform.host
          scope := scope
          input := input
          execution := execution
          now := now
          identity := batchIdentity scope input
          initialQueueStatus := record.initialQueueStatus
          itemKeys := itemKeys } record

end Stynx.OfflineSyncBatches
