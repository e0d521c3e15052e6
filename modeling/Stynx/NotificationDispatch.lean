import Mathlib.Data.List.Sort
import Mathlib.Data.Rat.Floor
import Stynx.OrderedMap

/-!
# Dispatch of notifications

`dispatchDue` of `packages/notifications/src/dispatch.service.ts` claims due deliveries in one
transaction, which marks them as sent, hands them to the adapters of their channels one by one, and
writes each outcome in a transaction of its own. Each `await` ends a step, and any number of
runs go on at a time.

Numbers are rational and attempts are whole.
-/

namespace Stynx.NotificationDispatch

inductive Channel where
  | email
  | sms
  | push
  | inapp
  deriving DecidableEq

inductive DeliveryStatus where
  | queued
  | sent
  | delivered
  | failed
  | suppressed
  deriving DecidableEq

def DeliveryStatus.isTerminal : DeliveryStatus → Bool
  | .delivered | .failed | .suppressed => true
  | _ => false

structure ChannelRetryPolicy where
  maxAttempts : Int
  baseDelayMs : ℚ
  maxDelayMs : Option ℚ
  jitterRatio : Option ℚ

def defaultRetryPolicy : ChannelRetryPolicy := ⟨5, 30000, some 3600000, some (1 / 5)⟩

/-- What the service is given. -/
structure Options where
  retryPolicies : Channel → Option ChannelRetryPolicy
  hasAdapter : Channel → Bool

def Options.policy (options : Options) (channel : Channel) : ChannelRetryPolicy :=
  (options.retryPolicies channel).getD defaultRetryPolicy

/-- A row of `notifications.deliveries`; instants in milliseconds. -/
structure Delivery where
  tenantId : String
  channel : Channel
  status : DeliveryStatus
  suppressedReason : Option String
  providerMessageId : Option String
  errorCode : Option String
  errorDetail : Option String
  attemptCount : Nat
  nextAttemptAt : Int
  lastAttemptAt : Option Int
  sentAt : Option Int
  deliveredAt : Option Int
  failedAt : Option Int
  createdAt : Int

/-- `deliveries_status_timestamps_ck`. -/
def Delivery.check (d : Delivery) : Bool :=
  match d.status with
  | .queued => d.deliveredAt.isNone && d.failedAt.isNone
  | .sent => d.sentAt.isSome
  | .delivered => d.deliveredAt.isSome
  | .failed => d.failedAt.isSome
  | .suppressed => d.suppressedReason.isSome

/-- A row that `enqueue` inserts. -/
def enqueued (tenantId : String) (channel : Channel) (suppressed : Bool) (now : Int) :
    Delivery where
  tenantId := tenantId
  channel := channel
  status := if suppressed then .suppressed else .queued
  suppressedReason := if suppressed then some "preference_opted_out" else none
  providerMessageId := none
  errorCode := none
  errorDetail := none
  attemptCount := 0
  nextAttemptAt := now
  lastAttemptAt := none
  sentAt := none
  deliveredAt := none
  failedAt := none
  createdAt := now

structure ClaimedDelivery where
  id : String
  channel : Channel
  attemptCount : Nat
  deriving DecidableEq

structure ChannelSendResult where
  status : DeliveryStatus
  providerMessageId : Option String := none
  errorCode : Option String := none
  errorDetail : Option String := none
  suppressedReason : Option String := none
  terminal : Bool := false
  /-- The type has no such status. -/
  notQueued : status ≠ .queued := by decide

def adapterUnavailable : ChannelSendResult where
  status := .failed
  errorCode := some "CHANNEL_ADAPTER_UNAVAILABLE"
  terminal := true

def sendException (errorDetail : String) : ChannelSendResult where
  status := .failed
  errorCode := some "CHANNEL_SEND_EXCEPTION"
  errorDetail := some errorDetail

/-- Where a run stands. -/
inductive Phase where
  /-- At the head of the loop. -/
  | next (rest : List ClaimedDelivery)
  /-- Waits for the adapter. -/
  | sending (delivery : ClaimedDelivery) (rest : List ClaimedDelivery)
  /-- Waits for the transaction of the outcome. -/
  | persisting (delivery : ClaimedDelivery) (result : ChannelSendResult)
      (rest : List ClaimedDelivery)
  | returned
  /-- Has thrown, or its process has ended. -/
  | stopped

/-- A run of `dispatchDue`. -/
structure Run where
  claimed : List ClaimedDelivery
  phase : Phase
  outcomes : List (String × Channel × DeliveryStatus) := []

/-- A claim of a delivery, with the number of its attempt. -/
structure Claim where
  id : String
  attempt : Nat
  deriving DecidableEq

/-- The table, the runs and the calls of the adapters. -/
structure State where
  deliveries : OrderedMap String Delivery := .empty
  runs : List Run := []
  /-- Claims whose deliveries were handed to their adapters, oldest first. -/
  handed : List Claim := []

inductive Label where
  /-- `enqueue` inserts a delivery. -/
  | enqueue (id tenantId : String) (channel : Channel) (suppressed : Bool) (now : Int)
  /-- The claim of a run commits; it skips rows that others lock. -/
  | claim (tenantId : String) (asOf : Int) (batchSize : Option Int) (locked : List String)
      (now : Int)
  /-- The next delivery is handed to its adapter, unless an exception comes first; without one the
  run returns. -/
  | send (index : Nat) (exception : Option String)
  /-- The adapter returns, or throws an exception with a name. -/
  | answer (index : Nat) (outcome : Except String ChannelSendResult)
  /-- `persistOutcome`, which may fail. -/
  | persist (index : Nat) (succeeds : Bool) (now : Int) (random : ℚ)
  /-- A run ends early. -/
  | stop (index : Nat)

/-- The query of the claim. -/
def due (deliveries : OrderedMap String Delivery) (tenantId : String) (asOf : Int)
    (batchSize : Option Int) (locked : List String) : List (String × Delivery) :=
  let rows := deliveries.entries.filter fun p =>
    p.2.tenantId == tenantId && p.2.status == .queued && decide (p.2.nextAttemptAt ≤ asOf) &&
      !locked.contains p.1
  let limit := min (max (batchSize.getD 50) 1) 500
  (rows.insertionSort fun p q => p.2.nextAttemptAt < q.2.nextAttemptAt ∨
    p.2.nextAttemptAt = q.2.nextAttemptAt ∧ p.2.createdAt ≤ q.2.createdAt).take limit.toNat

def Delivery.claim (d : Delivery) (now : Int) : Delivery :=
  { d with
    status := .sent
    attemptCount := d.attemptCount + 1
    lastAttemptAt := some now
    sentAt := some now }

/-- A claimed row, as it was read. -/
def toClaimed (p : String × Delivery) : ClaimedDelivery := ⟨p.1, p.2.channel, p.2.attemptCount⟩

def claimDue (s : State) (tenantId : String) (asOf : Int) (batchSize : Option Int)
    (locked : List String) (now : Int) : State :=
  let rows := due s.deliveries tenantId asOf batchSize locked
  { s with
    deliveries := rows.foldl (fun deliveries p => deliveries.set p.1 (p.2.claim now)) s.deliveries
    runs := s.runs ++ [{ claimed := rows.map toClaimed, phase := .next (rows.map toClaimed) }] }

/-- The claim that has read the row. -/
def ClaimedDelivery.claim (d : ClaimedDelivery) : Claim := ⟨d.id, d.attemptCount + 1⟩

def round (x : ℚ) : Int := ⌊x + 1 / 2⌋

def retryDelay (policy : ChannelRetryPolicy) (attempt : Nat) (random : ℚ) : Int :=
  let uncapped := policy.baseDelayMs * 2 ^ (attempt - 1)
  let capped := min uncapped (policy.maxDelayMs.getD uncapped)
  let jitter := policy.jitterRatio.getD 0 * capped
  round (capped - jitter + random * jitter * 2)

/-- The status that `persistOutcome` writes. -/
def finalStatus (options : Options) (d : ClaimedDelivery) (result : ChannelSendResult) :
    DeliveryStatus :=
  let exhausted := decide (max (options.policy d.channel).maxAttempts 1 ≤ d.attemptCount + 1)
  if result.status == .failed && !result.terminal && !exhausted then .queued else result.status

/-- The update of `persistOutcome`. -/
def Delivery.persist (row : Delivery) (options : Options) (d : ClaimedDelivery)
    (result : ChannelSendResult) (now : Int) (random : ℚ) : Delivery :=
  let status := finalStatus options d result
  { row with
    status := status
    providerMessageId := result.providerMessageId
    errorCode := result.errorCode
    errorDetail := result.errorDetail
    suppressedReason := result.suppressedReason
    nextAttemptAt :=
      if status = .queued then
        now + retryDelay (options.policy d.channel) (d.attemptCount + 1) random
      else row.nextAttemptAt
    deliveredAt := if status = .delivered then some now else row.deliveredAt
    failedAt := if status = .failed then some now else row.failedAt }

/-- `persistOutcome`; `none` when the row violates a constraint. -/
def persistOutcome (options : Options) (deliveries : OrderedMap String Delivery)
    (d : ClaimedDelivery) (result : ChannelSendResult) (now : Int) (random : ℚ) :
    Option (OrderedMap String Delivery) :=
  match deliveries.get? d.id with
  | none => some deliveries
  | some row =>
    let next := row.persist options d result now random
    if next.check then some (deliveries.set d.id next) else none

def State.put (s : State) (index : Nat) (run : Run) : State :=
  { s with runs := s.runs.set index run }

/-- The body of the loop up to the adapter, or up to the outcome where it is not called. -/
def send (options : Options) (s : State) (index : Nat) (run : Run) (d : ClaimedDelivery)
    (rest : List ClaimedDelivery) (exception : Option String) : State :=
  if options.hasAdapter d.channel then
    match exception with
    | some name => s.put index { run with phase := .persisting d (sendException name) rest }
    | none => { s.put index { run with phase := .sending d rest } with
        handed := s.handed ++ [d.claim] }
  else s.put index { run with phase := .persisting d adapterUnavailable rest }

def persist (options : Options) (s : State) (index : Nat) (run : Run) (d : ClaimedDelivery)
    (result : ChannelSendResult) (rest : List ClaimedDelivery) (succeeds : Bool) (now : Int)
    (random : ℚ) : State :=
  match succeeds, persistOutcome options s.deliveries d result now random with
  | true, some deliveries =>
    { s.put index { run with
        phase := .next rest
        outcomes := run.outcomes ++ [(d.id, d.channel, finalStatus options d result)] } with
      deliveries := deliveries }
  | _, _ => s.put index { run with phase := .stopped }

def step (options : Options) (s : State) : Label → Option State
  | .enqueue id tenantId channel suppressed now =>
    if s.deliveries.has id then none
    else some { s with
      deliveries := s.deliveries.set id (enqueued tenantId channel suppressed now) }
  | .claim tenantId asOf batchSize locked now => some (claimDue s tenantId asOf batchSize locked now)
  | .send index exception =>
    (s.runs[index]?).bind fun run =>
      match run.phase with
      | .next [] => some (s.put index { run with phase := .returned })
      | .next (d :: rest) => some (send options s index run d rest exception)
      | _ => none
  | .answer index outcome =>
    (s.runs[index]?).bind fun run =>
      match run.phase with
      | .sending d rest =>
        let result := match outcome with
          | .ok result => result
          | .error name => sendException name
        some (s.put index { run with phase := .persisting d result rest })
      | _ => none
  | .persist index succeeds now random =>
    (s.runs[index]?).bind fun run =>
      match run.phase with
      | .persisting d result rest =>
        some (persist options s index run d result rest succeeds now random)
      | _ => none
  | .stop index =>
    (s.runs[index]?).bind fun run =>
      match run.phase with
      | .returned | .stopped => none
      | _ => some (s.put index { run with phase := .stopped })

end Stynx.NotificationDispatch
