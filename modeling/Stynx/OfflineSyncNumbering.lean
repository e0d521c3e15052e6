import Mathlib.Data.List.Sort
import Mathlib.Data.List.Range
import Stynx.OrderedMap

/-!
# Numbering ranges and reservations of the in-memory offline-sync store

The numbering half of `InMemoryOfflineSyncStore`, with the two places where a sync item touches
it: the covering check before the domain applier and the consumption write after it. A method
that throws keeps the map writes it made before, so every operation returns the store, too.

Digests, `Date.parse`, the microsecond instant parser and the bounded consumer attributes are
parameters. Numbers are integers: the source only admits safe ones.
-/

namespace Stynx.OfflineSyncNumbering

/-- The `OFFLINE_SYNC_*` codes raised by the numbering operations. -/
inductive ErrorCode where
  | invalidInput
  | rangeIdempotencyConflict
  | rangeConflict
  | rangeState
  | rangeNotFound
  | reservationNotFound
  | reservationState
  | activeReservation
  | reconciliationIdempotencyConflict

/-- Why a range refused a reservation. -/
inductive UnavailableReason where
  | inactive
  | exhausted
  | insufficientCapacity

/-- The four outcomes of the covering check that stop an item. -/
inductive NumberingCode where
  | noCoverage
  | ambiguous
  | expired
  | alreadyApplied
  deriving DecidableEq

/-- What a numbering operation can throw. -/
inductive Failure where
  | offlineSync (code : ErrorCode) (status : Nat) (message : String)
  /-- `OfflineSyncRangeUnavailableError(reason, message)`, always status 409. -/
  | rangeUnavailable (reason : UnavailableReason) (message : String)
  | reservationReplay
  /-- `OfflineSyncConfigurationError(option)`. -/
  | configuration (option : String)
  | numberingOutcome (code : NumberingCode) (number : Int) (reservationId : Option String)
  /-- A property access on `undefined`. -/
  | typeError

inductive RangeStatus where
  | active
  | exhausted
  | cancelled
  deriving DecidableEq

structure NumberingRange where
  id : String
  tenantId : String
  /-- Organizational unit the range serves. -/
  orgUnitId : String
  entityType : String
  /-- Series label, unique in its tenant, unit and entity type. -/
  series : String
  startNumber : Int
  endNumber : Int
  nextNumber : Int
  status : RangeStatus
  /-- Opaque bounded attributes, as canonical text. -/
  consumerAttributes : Option String
  createdBy : Option String
  createdAt : Option String
  /-- Instant of the last administrative change. -/
  updatedAt : Option String
  cancelledBy : Option String
  cancellationReason : Option String
  cancelledAt : Option String

inductive ReservationStatus where
  | reserved
  | consumed
  | expired
  | cancelled
  | blocked
  deriving DecidableEq

/-- The status as it stands in messages. -/
def ReservationStatus.text : ReservationStatus → String
  | .reserved => "reserved"
  | .consumed => "consumed"
  | .expired => "expired"
  | .cancelled => "cancelled"
  | .blocked => "blocked"

structure NumberingReservation where
  reservationId : String
  rangeId : String
  tenantId : String
  orgUnitId : String
  entityType : String
  series : String
  agentId : String
  deviceId : String
  /-- Shift, or `none` for a durable reservation without one. -/
  shiftId : Option String
  startNumber : Int
  endNumber : Int
  /-- First granted number again; the store never moves it. -/
  nextNumber : Int
  /-- Instant until which the numbers may be used. -/
  validUntil : String
  status : ReservationStatus

/-- Status of one reserved number. -/
inductive ConsumptionStatus where
  | available
  | claimedLocally
  | applied
  | blocked
  | expired
  deriving DecidableEq

structure ConsumptionEntry where
  number : Int
  status : ConsumptionStatus
  serverEntityId : Option String
  /-- Instant at which the number was applied. -/
  finalizedAt : Option String

/-- Which interface granted a reservation. -/
inductive Origin where
  | e6
  | ctg9
  deriving DecidableEq

/-- `TrustedOfflineSyncScope` with the two optional members the store reads. -/
structure Scope where
  tenantId : String
  actorId : String
  /-- Agent identity, when the caller has one. -/
  agentId : Option String
  /-- Whether the caller entered through the durable interface. -/
  ctg9 : Bool

structure CreateNumberingRangeInput where
  orgUnitId : String
  entityType : String
  series : String
  startNumber : Int
  endNumber : Int
  /-- Request key, when the caller wants replay. -/
  idempotencyKey : Option String
  consumerAttributes : Option String

structure ReserveNumberingInput where
  orgUnitId : String
  deviceId : String
  /-- Shift, `none` for the JavaScript `null`. -/
  shiftId : Option String
  entityType : String
  requestedSize : Int
  rangeId : Option String
  series : Option String
  validUntil : Option String
  /-- Request key, when the caller wants replay. -/
  idempotencyKey : Option String
  /-- Agent named in the request; read by the fingerprint only. -/
  agentId : Option String

/-- The object whose digest identifies a range creation. -/
structure RangeRequest where
  tenantId : String
  input : CreateNumberingRangeInput

/-- The object whose digest identifies a reservation request. -/
structure ReservationRequest where
  /-- Agent of the caller, the actor when there is none. -/
  agentId : String
  requestedAgentId : Option String
  orgUnitId : String
  deviceId : String
  shiftId : Option String
  entityType : String
  requestedSize : Int
  rangeId : Option String
  series : Option String
  /-- Explicit end of validity, in normal form when it parses. -/
  validUntil : Option String

/-- What the store takes from its platform. -/
structure Host where
  /-- `Date.parse`, with `none` for `NaN`. -/
  dateParse : String → Option Int
  /-- `new Date(ms).toISOString()`. -/
  toISOString : Int → String
  /-- `instantMicroseconds`, with `none` where it refuses. -/
  instantMicroseconds : String → Option Int
  /-- Canonical, bounded consumer attributes, with `none` where the check throws. -/
  boundedConsumerAttributes : String → Option String
  rangeDigest : RangeRequest → String
  reservationDigest : ReservationRequest → String
  /-- Digest of a reconciliation request: the claimed numbers and the user reference. -/
  reconciliationDigest : List Int → Option String → String

/-- A digest next to the range it was first used for. -/
structure RangeCreationReceipt where
  fingerprint : String
  receipt : NumberingRange

/-- A digest next to the reservation it was first used for. -/
structure ReservationKey where
  fingerprint : String
  reservationId : String

structure ReconcileNumberingInput where
  /-- Request key, when the caller wants replay. -/
  idempotencyKey : Option String
  claimedNumbers : Option (List Int)
  userRef : Option String

structure ReconcileNumberingResult where
  /-- The reconciled reservation, as the caller named it. -/
  reservationId : String
  status : ReservationStatus
  /-- Projected entries in iteration order. -/
  consumption : List ConsumptionEntry
  reconciliationId : String
  /-- Claimed numbers that are not applied. -/
  missingOnServer : List Int
  /-- Applied numbers that were not claimed. -/
  unexpectedOnServer : List Int

/-- `NumberingReconciliationRecord` with its request digest. -/
structure ReconciliationRecord where
  fingerprint : String
  reconciliationId : String
  tenantId : String
  /-- The reconciled reservation, as the caller named it. -/
  reservationId : String
  actorId : String
  createdAt : String
  /-- Claimed numbers, deduplicated and sorted. -/
  claimedNumbers : List Int
  userRef : Option String
  idempotencyKey : Option String
  result : ReconcileNumberingResult

/-- Entries of one reservation, by number. -/
abbrev Entries := OrderedMap Int ConsumptionEntry

/-- The numbering maps of the store. -/
structure Store where
  rangeCreationReceipts : OrderedMap String RangeCreationReceipt
  ranges : OrderedMap String NumberingRange
  reservations : OrderedMap String NumberingReservation
  /-- Granting interface of each reservation. -/
  reservationOrigins : OrderedMap String Origin
  reservationKeys : OrderedMap String ReservationKey
  /-- Entries by tenant and reservation id. -/
  consumption : OrderedMap String Entries
  /-- Reconciliation records by tenant and id. -/
  reconciliations : OrderedMap String ReconciliationRecord

def Store.empty : Store :=
  ⟨.empty, .empty, .empty, .empty, .empty, .empty, .empty⟩

/-- What a method leaves behind: the maps, and a value or an exception. -/
abbrev Outcome (α : Type) := Store × Except Failure α

def key (tenantId id : String) : String := tenantId ++ ":" ++ id

def startsWith (a b : String) : Bool := b.toList.isPrefixOf a.toList

/-- An optional string is truthy when it is present and not empty. -/
def truthy (value : Option String) : Option String :=
  value.filter fun text => text ≠ ""

def isTrimmed (c : Char) : Bool :=
  c.val ∈ [0x9, 0xA, 0xB, 0xC, 0xD, 0x20, 0xA0, 0x1680, 0x2028, 0x2029, 0x202F, 0x205F, 0x3000,
    0xFEFF] || (0x2000 ≤ c.val && c.val ≤ 0x200A)

/-- `rangeText`: nonblank text without NUL within a byte limit. -/
def rangeText (value : String) (maximum : Nat) : Bool :=
  !value.toList.all isTrimmed && !value.toList.contains '\x00' && value.utf8ByteSize ≤ maximum

def isSafeInteger (n : Int) : Bool := n.natAbs < 2 ^ 53

/-- One hexadecimal digit of either case. -/
def isHexDigit (c : Char) : Bool :=
  c.isDigit || ('a' ≤ c && c ≤ 'f') || ('A' ≤ c && c ≤ 'F')

/-- The UUID pattern of `rangeIdentity`. -/
def isUuid (value : String) : Bool :=
  value.length == 36 &&
    value.toList.zipIdx.all fun p =>
      if p.2 = 8 ∨ p.2 = 13 ∨ p.2 = 18 ∨ p.2 = 23 then p.1 == '-' else isHexDigit p.1

/-- The refusal shared by the range checks. -/
def invalid : Failure :=
  .offlineSync .invalidInput 400 "Numbering range input is invalid."

def rangeIdentity (value : String) : Except Failure String :=
  if isUuid value then .ok value.toLower else .error invalid

variable (host : Host)

def rangeCreation (scope : Scope) (input : CreateNumberingRangeInput) :
    Except Failure (CreateNumberingRangeInput × String) :=
  if !(rangeText input.orgUnitId 255 && rangeText input.entityType 100 &&
      rangeText input.series 80 && input.idempotencyKey.all (rangeText · 255)) then
    .error invalid
  else if !(isSafeInteger input.startNumber && isSafeInteger input.endNumber &&
      isSafeInteger (input.endNumber + 1)) || input.startNumber > input.endNumber then
    .error invalid
  else
    match input.consumerAttributes.map host.boundedConsumerAttributes with
    | some none => .error invalid
    | some (some attributes) =>
      let request := { input with consumerAttributes := some attributes }
      .ok (request, host.rangeDigest ⟨scope.tenantId, { request with idempotencyKey := none }⟩)
    | none =>
      .ok (input, host.rangeDigest ⟨scope.tenantId, { input with idempotencyKey := none }⟩)

/-- `createNumberingRange`; `uuid` is the value `randomUUID()` returns. -/
def createNumberingRange (s : Store) (scope : Scope) (original : CreateNumberingRangeInput)
    (now : String) (uuid : String) : Outcome NumberingRange :=
  match rangeCreation host scope original with
  | .error e => (s, .error e)
  | .ok (input, fingerprint) =>
    let receiptKey := input.idempotencyKey.map (key scope.tenantId)
    match receiptKey.bind s.rangeCreationReceipts.get? with
    | some prior =>
      if prior.fingerprint ≠ fingerprint then
        (s, .error (.offlineSync .rangeIdempotencyConflict 409
          "Range creation key was already used with a different request."))
      else (s, .ok prior.receipt)
    | none =>
      if s.ranges.values.any fun range =>
          range.tenantId = scope.tenantId && range.orgUnitId = input.orgUnitId &&
            range.entityType = input.entityType && range.series = input.series then
        (s, .error (.offlineSync .rangeConflict 409
          "A numbering range already exists for this organizational unit, entity and series."))
      else
        match host.dateParse now with
        | none => (s, .error (.configuration "rangeTimestamp"))
        | some at_ =>
          let range : NumberingRange :=
            { id := uuid
              tenantId := scope.tenantId
              orgUnitId := input.orgUnitId
              entityType := input.entityType
              series := input.series
              startNumber := input.startNumber
              endNumber := input.endNumber
              nextNumber := input.startNumber
              status := .active
              consumerAttributes := input.consumerAttributes
              createdBy := some scope.actorId
              createdAt := some (host.toISOString at_)
              updatedAt := none
              cancelledBy := none
              cancellationReason := none
              cancelledAt := none }
          let receipts :=
            match receiptKey with
            | some k => s.rangeCreationReceipts.set k ⟨fingerprint, range⟩
            | none => s.rangeCreationReceipts
          ({ s with
              ranges := s.ranges.set (key scope.tenantId uuid) range
              rangeCreationReceipts := receipts }, .ok range)

def cancelNumberingRange (s : Store) (scope : Scope) (original : String) (reason : Option String)
    (now : String) : Outcome NumberingRange :=
  match rangeIdentity original with
  | .error e => (s, .error e)
  | .ok id =>
    if !reason.all (rangeText · 500) then (s, .error invalid)
    else
      match s.ranges.get? (key scope.tenantId id) with
      | none =>
        (s, .error (.offlineSync .rangeNotFound 404 "Numbering range was not found."))
      | some range =>
        match range.status with
        | .cancelled => (s, .ok range)
        | .exhausted =>
          (s, .error (.offlineSync .rangeState 409
            "Only an active numbering range can be cancelled."))
        | .active =>
          match host.dateParse now with
          | none => (s, .error (.configuration "rangeTimestamp"))
          | some at_ =>
            let cancelled : NumberingRange :=
              { range with
                status := .cancelled
                cancelledBy := some scope.actorId
                cancelledAt := some (host.toISOString at_)
                updatedAt := some (host.toISOString at_)
                cancellationReason := reason.or range.cancellationReason }
            ({ s with ranges := s.ranges.set (key scope.tenantId id) cancelled }, .ok cancelled)

/-- `legacyReservation`: the refusal of a legacy path to show a durable-only reservation. -/
def legacyReservation (value : NumberingReservation) : Except Failure NumberingReservation :=
  if value.shiftId = none ∨ value.status = .blocked then
    .error (.offlineSync .reservationState 409
      "This numbering reservation requires a durable operation.")
  else .ok value

/-- `reservationShiftScope`: the "no shift" sentinel admits like a missing shift. -/
def reservationShiftScope (shift : Option String) : Option String :=
  if shift = some "stynx:no-shift" then none else shift

/-- `Date.parse(a) > Date.parse(b)`, false when either does not parse. -/
def isLater (a b : String) : Bool :=
  match host.dateParse a, host.dateParse b with
  | some x, some y => y < x
  | _, _ => false

/-- The admission loop: an active reservation of the same device and shift blocks a new one. -/
def assertReservationAdmission (s : Store) (tenantId deviceId : String) (shiftId : Option String)
    (now : String) (origin : Option Origin) (excludeId : Option String) : Except Failure Unit :=
  if s.reservations.entries.any fun (k, existing) =>
      some existing.reservationId ≠ excludeId && existing.tenantId = tenantId &&
        existing.deviceId = deviceId &&
        reservationShiftScope existing.shiftId = reservationShiftScope shiftId &&
        (existing.status = .reserved || existing.status = .blocked) &&
        isLater host existing.validUntil now &&
        (origin = some .ctg9 || s.reservationOrigins.get? k = some .ctg9) then
    .error (.offlineSync .activeReservation 409
      "An active numbering reservation already exists for this device and shift.")
  else .ok ()

/-- The normal form of an explicit end of validity in a fingerprint. -/
def normalInstant (value : Option String) : Option String :=
  value.map fun text =>
    match host.dateParse text with
    | some parsed => host.toISOString parsed
    | none => text

def reservationFingerprint (scope : Scope) (input : ReserveNumberingInput) : String :=
  host.reservationDigest
    { agentId := scope.agentId.getD scope.actorId
      requestedAgentId := input.agentId
      orgUnitId := input.orgUnitId
      deviceId := input.deviceId
      shiftId := input.shiftId
      entityType := input.entityType
      requestedSize := input.requestedSize
      rangeId := input.rangeId
      series := input.series
      validUntil := normalInstant host input.validUntil }

/-- `replayReservation`: the reservation an earlier request with this key created. -/
def replayReservation (s : Store) (scope : Scope) (input : ReserveNumberingInput) :
    Except Failure (Option NumberingReservation) :=
  match input.idempotencyKey.bind fun k => s.reservationKeys.get? (key scope.tenantId k) with
  | none => .ok none
  | some prior =>
    if prior.fingerprint ≠ reservationFingerprint host scope input then .error .reservationReplay
    else .ok (s.reservations.get? (key scope.tenantId prior.reservationId))

/-- The candidate test of `allocateReservation`. -/
def isCandidate (scope : Scope) (input : ReserveNumberingInput) (candidate : NumberingRange) :
    Bool :=
  candidate.tenantId = scope.tenantId &&
    match truthy input.rangeId with
    | some id => candidate.id = id
    | none =>
      candidate.orgUnitId = input.orgUnitId && candidate.entityType = input.entityType &&
        match truthy input.series with
        | some series => candidate.series = series
        | none => candidate.status ≠ .cancelled

def rangeUnavailableReason (range : NumberingRange) (input : ReserveNumberingInput) :
    UnavailableReason :=
  if range.status = .exhausted ∧ range.orgUnitId = input.orgUnitId ∧
      range.entityType = input.entityType then .exhausted
  else .inactive

/-- The entry of a number nobody used yet. -/
def availableEntry (number : Int) : ConsumptionEntry := ⟨number, .available, none, none⟩

/-- The loop that gives every number of a new reservation its entry. -/
def availableEntries (startNumber : Int) (count : Nat) : Entries :=
  (List.range count).foldl
    (fun entries (i : Nat) => entries.set (startNumber + i) (availableEntry (startNumber + i)))
    .empty

def grantedReservation (scope : Scope) (input : ReserveNumberingInput) (range : NumberingRange)
    (defaultValidUntil uuid : String) : NumberingReservation :=
  { reservationId := uuid
    rangeId := range.id
    tenantId := scope.tenantId
    orgUnitId := input.orgUnitId
    entityType := input.entityType
    series := range.series
    agentId := scope.agentId.getD scope.actorId
    deviceId := input.deviceId
    shiftId := input.shiftId
    startNumber := range.nextNumber
    endNumber := range.nextNumber + input.requestedSize - 1
    nextNumber := range.nextNumber
    validUntil := input.validUntil.getD defaultValidUntil
    status := .reserved }

def grantedRange (range : NumberingRange) (endNumber : Int) : NumberingRange :=
  { range with
    nextNumber := endNumber + 1
    status := if endNumber = range.endNumber then .exhausted else .active }

/-- The map writes of a grant, in source order. -/
def recordGrant (s : Store) (scope : Scope) (range : NumberingRange)
    (reservation : NumberingReservation) (origin : Origin) (keyed : Option (String × String)) :
    Store :=
  let reservationKey := key scope.tenantId reservation.reservationId
  { s with
    ranges := s.ranges.set (key scope.tenantId range.id) (grantedRange range reservation.endNumber)
    reservations := s.reservations.set reservationKey reservation
    reservationOrigins := s.reservationOrigins.set reservationKey origin
    reservationKeys :=
      match keyed with
      | some (replayKey, fingerprint) =>
        s.reservationKeys.set replayKey ⟨fingerprint, reservation.reservationId⟩
      | none => s.reservationKeys
    consumption := s.consumption.set reservationKey
      (availableEntries reservation.startNumber
        (reservation.endNumber + 1 - reservation.startNumber).toNat) }

/-- `allocateReservation`; `uuid` is the value `randomUUID()` returns. -/
def allocateReservation (s : Store) (scope : Scope) (input : ReserveNumberingInput)
    (now defaultValidUntil : String) (origin : Origin) (uuid : String) :
    Outcome NumberingReservation :=
  match replayReservation host s scope input with
  | .error e => (s, .error e)
  | .ok (some replay) => (s, .ok replay)
  | .ok none =>
    if origin = .e6 ∧ input.shiftId = none then
      (s, .error (.offlineSync .invalidInput 400 "shiftId is required."))
    else
      match assertReservationAdmission host s scope.tenantId input.deviceId input.shiftId now
          (some origin) none with
      | .error e => (s, .error e)
      | .ok _ =>
        match s.ranges.values.find? (isCandidate scope input) with
        | none =>
          (s, .error (.offlineSync .rangeNotFound 404
            "No tenant-scoped numbering range matches this entity and organizational unit."))
        | some range =>
          if range.status ≠ .active ∨ range.orgUnitId ≠ input.orgUnitId ∨
              range.entityType ≠ input.entityType then
            (s, .error (.rangeUnavailable (rangeUnavailableReason range input)
              "The selected numbering range is not active for this entity and organizational unit."))
          else if range.nextNumber + input.requestedSize - 1 > range.endNumber then
            (s, .error (.rangeUnavailable .insufficientCapacity
              "The selected numbering range has insufficient capacity."))
          else
            let reservation := grantedReservation scope input range defaultValidUntil uuid
            let keyed := input.idempotencyKey.map fun k =>
              (key scope.tenantId k, reservationFingerprint host scope input)
            (recordGrant s scope range reservation origin keyed, .ok reservation)

def reserveNumbering (s : Store) (scope : Scope) (input : ReserveNumberingInput)
    (now defaultValidUntil uuid : String) : Outcome NumberingReservation :=
  let outcome := allocateReservation host s scope input now defaultValidUntil .e6 uuid
  (outcome.1, outcome.2.bind legacyReservation)

def reserveDurableNumbering (s : Store) (scope : Scope) (input : ReserveNumberingInput)
    (now defaultValidUntil uuid : String) : Outcome NumberingReservation :=
  allocateReservation host s scope input now defaultValidUntil .ctg9 uuid

/-- A number that a returned tail must keep behind it. -/
def ConsumptionStatus.isUsed (status : ConsumptionStatus) : Bool :=
  status = .applied || status = .claimedLocally

/-- `highestApplied` of a cancelled reservation: the last used number, else the one before it. -/
def highestApplied (reservation : NumberingReservation) (entries : Entries) : Int :=
  ((entries.values.filter (·.status.isUsed)).map ConsumptionEntry.number).foldl max
    (reservation.startNumber - 1)

/-- The loop that moves every available entry to another status. -/
def retireAvailable (status : ConsumptionStatus) (entries : Entries) : Entries :=
  entries.mapValues fun _ entry =>
    if entry.status = .available then { entry with status := status } else entry

/-- Whether a cancelled reservation was the tail of a range that can take its numbers back. -/
def returnsTail (range : NumberingRange) (reservation : NumberingReservation) : Bool :=
  range.nextNumber = reservation.endNumber + 1 && range.status ≠ .cancelled

/-- The ranges after the cancellation of `reservation` with the given entries. -/
def returnTail (s : Store) (scope : Scope) (reservation : NumberingReservation)
    (entries : Entries) : OrderedMap String NumberingRange :=
  let rangeKey := key scope.tenantId reservation.rangeId
  match s.ranges.get? rangeKey with
  | some range =>
    if returnsTail range reservation then
      s.ranges.set rangeKey
        { range with nextNumber := highestApplied reservation entries + 1, status := .active }
    else s.ranges
  | none => s.ranges

def cancelReservation (s : Store) (scope : Scope) (reservationId : String) (durable : Bool) :
    Outcome NumberingReservation :=
  let reservationKey := key scope.tenantId reservationId
  match s.reservations.get? reservationKey with
  | none =>
    (s, .error (.offlineSync .reservationNotFound 404
      ("Numbering reservation " ++ reservationId ++ " was not found.")))
  | some reservation =>
    match if durable then .ok reservation else legacyReservation reservation with
    | .error e => (s, .error e)
    | .ok _ =>
      if reservation.status = .cancelled ∧ (durable ∨ scope.ctg9) then (s, .ok reservation)
      else if reservation.status ≠ .reserved then
        (s, .error (.offlineSync .reservationState 409
          ("Numbering reservation " ++ reservationId ++ " is " ++ reservation.status.text ++
            "; expected reserved.")))
      else
        let cancelled := { reservation with status := .cancelled }
        let t := { s with reservations := s.reservations.set reservationKey cancelled }
        if durable ∨ scope.ctg9 then
          match s.consumption.get? reservationKey with
          | none => (t, .error .typeError)
          | some entries =>
            ({ t with
                ranges := returnTail s scope reservation entries
                consumption := s.consumption.set reservationKey
                  (retireAvailable .expired entries) }, .ok cancelled)
        else (t, .ok cancelled)

def cancelNumberingReservation (s : Store) (scope : Scope) (id : String) :
    Outcome NumberingReservation :=
  let outcome := cancelReservation s scope id false
  (outcome.1, outcome.2.bind legacyReservation)

def cancelDurableNumberingReservation (s : Store) (scope : Scope) (id : String) :
    Outcome NumberingReservation :=
  cancelReservation s scope id true

/-- The two targets of `transitionReservation`. -/
inductive Transition where
  | blocked
  | consumed
  deriving DecidableEq

def Transition.status : Transition → ReservationStatus
  | .blocked => .blocked
  | .consumed => .consumed

def Transition.unused : Transition → ConsumptionStatus
  | .blocked => .blocked
  | .consumed => .expired

def transitionReservation (s : Store) (scope : Scope) (id : String) (target : Transition)
    (now : String) : Outcome NumberingReservation :=
  let reservationKey := key scope.tenantId id
  match s.reservations.get? reservationKey with
  | none =>
    (s, .error (.offlineSync .reservationNotFound 404 "Reservation was not found."))
  | some current =>
    if current.status = target.status then (s, .ok current)
    else if current.status ≠ .reserved ∧ current.status ≠ .expired then
      (s, .error (.offlineSync .reservationState 409
        "Reservation cannot transition from its current state."))
    else
      let admission :=
        if target = .blocked ∧ isLater host current.validUntil now then
          assertReservationAdmission host s scope.tenantId current.deviceId current.shiftId now
            (s.reservationOrigins.get? reservationKey) (some id)
        else .ok ()
      match admission with
      | .error e => (s, .error e)
      | .ok _ =>
        let changed := { current with status := target.status }
        let t := { s with reservations := s.reservations.set reservationKey changed }
        match s.consumption.get? reservationKey with
        | none => (t, .error .typeError)
        | some entries =>
          ({ t with
              consumption := s.consumption.set reservationKey
                (retireAvailable target.unused entries) }, .ok changed)

def blockNumberingReservation (s : Store) (scope : Scope) (id now : String) :
    Outcome NumberingReservation :=
  transitionReservation host s scope id .blocked now

def closeNumberingReservation (s : Store) (scope : Scope) (id now : String) :
    Outcome NumberingReservation :=
  transitionReservation host s scope id .consumed now

def settleNumberingReservation (s : Store) (scope : Scope) (id now : String) :
    Outcome NumberingReservation :=
  transitionReservation host s scope id .consumed now

/-- `reconciliationRequest`: the claimed numbers in canonical order and the request digest. -/
def reconciliationRequest (scope : Scope) (input : ReconcileNumberingInput) :
    Except Failure (List Int × String) :=
  if !(rangeText scope.actorId 255 && rangeText scope.tenantId 255 &&
      input.idempotencyKey.all (rangeText · 255)) then
    .error invalid
  else if !input.userRef.all fun ref => !ref.toList.contains '\x00' && ref.utf8ByteSize ≤ 255 then
    .error (.offlineSync .invalidInput 400 "userRef is invalid.")
  else if !input.claimedNumbers.all fun numbers => numbers.all isSafeInteger then
    .error (.offlineSync .invalidInput 400 "claimedNumbers is invalid.")
  else
    let claimedNumbers := ((input.claimedNumbers.getD []).dedup).insertionSort (· ≤ ·)
    .ok (claimedNumbers, host.reconciliationDigest claimedNumbers input.userRef)

/-- `projectNumberingConsumption`: unused numbers of a closed or overdue reservation read expired. -/
def projectNumberingConsumption (reservation : NumberingReservation)
    (entries : List ConsumptionEntry) (observedAt : Int) : Except Failure (List ConsumptionEntry) :=
  let project (fallback : ConsumptionStatus) := entries.map fun entry =>
    if entry.status = .available then { entry with status := fallback } else entry
  match reservation.status with
  | .blocked => .ok (project .blocked)
  | .expired | .cancelled | .consumed => .ok (project .expired)
  | .reserved =>
    match host.instantMicroseconds reservation.validUntil with
    | none =>
      .error (.offlineSync .invalidInput 400 "Invalid consumption read instant.")
    | some limit => .ok (project (if limit ≤ observedAt then .expired else .available))

def reconciliationResult (id : String) (status : ReservationStatus)
    (consumption : List ConsumptionEntry) (claimedNumbers : List Int) (reconciliationId : String) :
    ReconcileNumberingResult :=
  { reservationId := id
    status := status
    consumption := consumption
    reconciliationId := reconciliationId
    missingOnServer := (consumption.filter fun e =>
      claimedNumbers.contains e.number && e.status ≠ .applied).map ConsumptionEntry.number
    unexpectedOnServer := (consumption.filter fun e =>
      !claimedNumbers.contains e.number && e.status = .applied).map ConsumptionEntry.number }

/-- Mark one claimed number, when nothing happened to it yet. -/
def claimLocally (entries : Entries) (number : Int) : Entries :=
  match entries.get? number with
  | some entry =>
    if entry.status = .available then entries.set number { entry with status := .claimedLocally }
    else entries
  | none => entries

/-- The entries after the claim loop, which only an open reservation runs. -/
def claimEntries (reservation : NumberingReservation) (claimedNumbers : List Int)
    (entries : Entries) : Entries :=
  if reservation.status = .reserved then claimedNumbers.foldl claimLocally entries else entries

/-- `reconcileNumberingReservation`; `uuid` is the value `randomUUID()` returns. -/
def reconcileNumberingReservation (s : Store) (scope : Scope) (id : String)
    (input : ReconcileNumberingInput) (now uuid : String) : Outcome ReconcileNumberingResult :=
  match host.instantMicroseconds now with
  | none => (s, .error (.offlineSync .invalidInput 400 "Invalid consumption read instant."))
  | some observedAt =>
    match reconciliationRequest host scope input with
    | .error e => (s, .error e)
    | .ok (claimedNumbers, fingerprint) =>
      let reservationKey := key scope.tenantId id
      match s.reservations.get? reservationKey, s.consumption.get? reservationKey with
      | some reservation, some entries =>
        match input.idempotencyKey.bind fun k => s.reconciliations.values.find? fun record =>
            record.tenantId = scope.tenantId && record.reservationId = id &&
              record.idempotencyKey = some k with
        | some replay =>
          if replay.fingerprint ≠ fingerprint then
            (s, .error (.offlineSync .reconciliationIdempotencyConflict 409
              "Reconciliation idempotency key was already used with a different request."))
          else (s, .ok replay.result)
        | none =>
          if !claimedNumbers.all entries.has then
            (s, .error (.offlineSync .invalidInput 400
              "Claimed number is outside the reservation."))
          else
            let claimed := claimEntries reservation claimedNumbers entries
            let t := { s with consumption := s.consumption.set reservationKey claimed }
            match projectNumberingConsumption host reservation claimed.values observedAt with
            | .error e => (t, .error e)
            | .ok consumption =>
              let result :=
                reconciliationResult id reservation.status consumption claimedNumbers uuid
              let record : ReconciliationRecord :=
                { fingerprint := fingerprint
                  reconciliationId := uuid
                  tenantId := scope.tenantId
                  reservationId := id
                  actorId := scope.actorId
                  createdAt := now
                  claimedNumbers := claimedNumbers
                  userRef := input.userRef
                  idempotencyKey := input.idempotencyKey
                  result := result }
              ({ t with
                  reconciliations := s.reconciliations.set (key scope.tenantId uuid) record },
                .ok result)
      | _, _ =>
        (s, .error (.offlineSync .reservationNotFound 404 "Reservation was not found."))

/-- The members of a submitted item and its batch that the numbering code reads. -/
structure NumberedItem where
  tenantId : String
  deviceId : String
  orgUnitId : String
  entityType : String
  reservedNumber : Option Int
  reservationId : Option String
  /-- Instant at which the device created the item. -/
  createdLocallyAt : String

def entryStatus (s : Store) (reservationKey : String) (number : Int) : Option ConsumptionStatus :=
  (s.consumption.get? reservationKey).bind fun entries =>
    (entries.get? number).map ConsumptionEntry.status

def covers (s : Store) (item : NumberedItem) (number : Int) (reservationKey : String)
    (reservation : NumberingReservation) : Bool :=
  startsWith reservationKey (item.tenantId ++ ":") && reservation.deviceId = item.deviceId &&
    reservation.orgUnitId = item.orgUnitId && reservation.entityType = item.entityType &&
    reservation.startNumber ≤ number && number ≤ reservation.endNumber &&
    (match truthy item.reservationId with
      | some id => reservation.reservationId = id
      | none => true) &&
    (reservation.status ≠ .cancelled ||
      (entryStatus s reservationKey number).any ConsumptionStatus.isUsed)

/-- The covering check: the reservation under which an item may be applied, or `none` without a
number. -/
def coveringReservation (s : Store) (item : NumberedItem) : Except Failure (Option String) :=
  match item.reservedNumber with
  | none => .ok none
  | some number =>
    match s.reservations.entries.filter fun (k, reservation) => covers s item number k reservation with
    | [] => .error (.numberingOutcome .noCoverage number item.reservationId)
    | [(reservationKey, reservation)] =>
      if entryStatus s reservationKey number = some .applied then
        .error (.numberingOutcome .alreadyApplied number (some reservation.reservationId))
      else if reservation.status ≠ .reserved ∨
          isLater host item.createdLocallyAt reservation.validUntil then
        .error (.numberingOutcome .expired number (some reservation.reservationId))
      else .ok (some reservationKey)
    | _ => .error (.numberingOutcome .ambiguous number none)

/-- Receipt statuses of a processed item. -/
inductive ItemStatus where
  | received
  | pending
  | applied
  | conflict
  | rejected
  deriving DecidableEq

/-- The entry written for an applied number; `entry` is what was stored before. -/
def appliedEntry (number : Int) (entry : Option ConsumptionEntry) (serverEntityId now : String) :
    ConsumptionEntry :=
  { number := (entry.map ConsumptionEntry.number).getD number
    status := .applied
    serverEntityId := some serverEntityId
    finalizedAt := some now }

/-- The consumption write at the end of an item. -/
def recordConsumption (s : Store) (coveringReservationKey : Option String) (item : NumberedItem)
    (status : ItemStatus) (serverEntityId : Option String) (now : String) : Outcome Unit :=
  match coveringReservationKey, serverEntityId, item.reservedNumber with
  | some reservationKey, some entity, some number =>
    if status = .applied ∨ status = .conflict then
      match s.consumption.get? reservationKey with
      | none => (s, .error .typeError)
      | some entries =>
        ({ s with
            consumption := s.consumption.set reservationKey
              (entries.set number (appliedEntry number (entries.get? number) entity now)) }, .ok ())
    else (s, .ok ())
  | _, _, _ => (s, .ok ())

end Stynx.OfflineSyncNumbering
