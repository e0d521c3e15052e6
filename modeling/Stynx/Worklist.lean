import Mathlib.Data.List.Lex
import Mathlib.Data.List.Sort
import Stynx.OrderedMap
import Stynx.ReadCommitted

/-!
# The worklist

The items of one tenant, their events, and the functions that write them, one statement after the
other. A function for one item locks the row of the item and then the capacity of the user; a
function for the next item locks the capacity first, and takes the first pending row that nobody
has locked.

The queues are given. Permissions, availability and the order among eligible workers are what a
call finds in other tables. A function raises by ending in an error.
-/

namespace Stynx.Worklist

open ReadCommitted

inductive ItemStatus where
  | pending
  | claimed
  | completed
  | canceled
  deriving DecidableEq

/-- `worklist.event_kind`; breaches are detected elsewhere. -/
inductive EventKind where
  | enqueue
  | claim
  | assign
  | release
  | complete
  | cancel
  | reassign
  | override
  | deadlineSet
  deriving DecidableEq

/-- A row of `worklist.queues`. -/
structure Queue where
  code : String
  strategy : String
  requiredPermission : String
  supervisorPermission : String
  claimLimit : Option Nat
  defaultSlaSeconds : Option Int
  defaultSlaBusinessDays : Option Nat

/-- A row of `worklist.items`. -/
structure Item where
  queueId : Nat
  priority : Int
  dueAt : Option Int
  createdAt : Int
  status : ItemStatus
  assigneeId : Option Nat
  deriving DecidableEq

inductive OverrideOperation where
  | release
  | complete
  | reassign
  deriving DecidableEq

inductive EventPayload where
  | empty
  | entity (entityType entityId : String)
  | deadline (dueAt : Int)
  | strategy (strategy : Option String)
  | operation (operation : OverrideOperation) (rest : Option String)
  | given (payload : Option String)
  deriving DecidableEq

/-- A row of `worklist.item_events`. -/
structure ItemEvent where
  id : Nat
  itemId : Nat
  kind : EventKind
  actorId : Option Nat
  fromAssignee : Option Nat
  toAssignee : Option Nat
  reason : Option String
  payload : EventPayload
  createdAt : Int
  deriving DecidableEq

/-- The tables; the ledger is in the order of the commits. -/
@[ext]
structure Db where
  items : OrderedMap Nat Item
  events : List ItemEvent

/-- The tables before the first call. -/
def Db.empty : Db := ⟨.empty, []⟩

def Db.eventsOf (db : Db) (itemId : Nat) : List ItemEvent :=
  db.events.filter fun event => event.itemId = itemId

inductive ItemUpdate where
  | claim (user : Nat)
  | release
  | complete
  | cancel

/-- The effect of an `UPDATE` on its row. -/
def ItemUpdate.apply (item : Item) : ItemUpdate → Item
  | .claim user => { item with status := .claimed, assigneeId := some user }
  | .release => { item with status := .pending, assigneeId := none }
  | .complete => { item with status := .completed }
  | .cancel => { item with status := .canceled }

/-- What is locked: rows, the unique keys of new rows, and advisory locks. -/
inductive LockKey where
  | item (itemId : Nat)
  | event (eventId : Nat)
  | advisory (key : Int)
  deriving DecidableEq

inductive RowWrite where
  | insertItem (itemId : Nat) (item : Item)
  | updateItem (itemId : Nat) (update : ItemUpdate)
  | insertEvent (event : ItemEvent)

/-- The effect of a row on the tables. -/
def RowWrite.apply (db : Db) : RowWrite → Db
  | .insertItem itemId item => { db with items := db.items.set itemId item }
  | .updateItem itemId update =>
    match db.items.get? itemId with
    | some item => { db with items := db.items.set itemId (update.apply item) }
    | none => db
  | .insertEvent event => { db with events := db.events ++ [event] }

def RowWrite.guard : RowWrite → Option LockKey
  | .insertItem itemId _ => some (.item itemId)
  | .updateItem itemId _ => some (.item itemId)
  | .insertEvent event => some (.event event.id)

/-- How a call fails. -/
structure Failure where
  code : String
  message : String

/-- The functions of the schema, with their arguments. -/
inductive Operation where
  | enqueue (queueCode : String) (entityType entityId : Option String) (priority : Option Int)
      (dueAt : Option Int)
  | claim (itemId : Nat) (user : Option Nat)
  | claimNext (queueId : Nat) (user : Option Nat)
  | assignNext (queueId : Nat)
  | itemAssignNext (queueId : Nat) (user : Option Nat) (strategy : Option String)
  | release (itemId : Nat) (reason : Option String) (force : Bool)
  | complete (itemId : Nat) (note payload : Option String) (force : Bool)
  | cancel (itemId : Nat) (reason : Option String)
  | reassign (itemId : Nat) (toUser : Option Nat) (reason : Option String) (override : Bool)

/-- A call, and what it finds outside the tables. -/
structure Call where
  operation : Operation
  /-- `app.actor_id`. -/
  actor : Option Nat
  /-- `worklist.user_holds_permission`. -/
  holdsPermission : Nat → String → Bool
  /-- The worker state of a user in a queue says that the user is not available. -/
  unavailable : Nat → Nat → Bool
  /-- `gen_random_uuid()` for the item. -/
  itemId : Nat
  /-- `gen_random_uuid()` for the first and the second event. -/
  eventId : Bool → Nat
  /-- `clock_timestamp()` for the item. -/
  now : Int
  /-- `clock_timestamp()` for the first and the second event. -/
  eventNow : Bool → Int

/-- A write to one item, with its event. -/
structure Mutation where
  itemId : Nat
  /-- `SET` clause. -/
  update : ItemUpdate
  kind : EventKind
  fromAssignee : Option Nat
  toAssignee : Option Nat
  reason : Option String
  payload : EventPayload

/-- How a function for one item goes on when it has read the row. -/
inductive Plan where
  | done
  /-- It writes, after `assert_claim_capacity` for a queue and a user if there is one. -/
  | write (mutation : Mutation) (capacity : Option (Nat × Nat))

/-- What a call is about to write. -/
inductive Target where
  | item (mutation : Mutation)
  /-- The next pending item of a queue, for a user. -/
  | next (queueId user : Nat) (kind : EventKind) (payload : EventPayload)

inductive CallPhase where
  /-- Outside transactions. -/
  | idle
  /-- Before the first statement. -/
  | called (call : Call)
  | rowLocked (call : Call) (itemId : Nat)
  /-- The worker selection of the queue is locked. -/
  | assignLocked (call : Call) (queueId : Nat) (queue : Queue)
  /-- Before `assert_claim_capacity`. -/
  | checking (call : Call) (target : Target) (capacity : Option (Nat × Nat))
  | capacityLocked (call : Call) (target : Target) (queueId user limit : Nat)
  /-- Before the `UPDATE`. -/
  | admitted (call : Call) (target : Target) (capacity : Option (Nat × Nat))
  /-- Events are left to be written. -/
  | logging (events : List ItemEvent)
  /-- Before the commit. -/
  | returned

/-- `p IS NULL OR btrim(p) = ''`. -/
def isBlank (text : Option String) : Bool :=
  text.all fun t => t.toList.all (· = ' ')

def Item.claimedBy (queueId user : Nat) (item : Item) : Bool :=
  item.queueId = queueId && item.assigneeId = some user && item.status = .claimed

def Db.openClaimCount (db : Db) (queueId user : Nat) : Nat :=
  db.items.entries.countP fun entry => entry.2.claimedBy queueId user

section

variable (queues : OrderedMap Nat Queue) (call : Call)

def assertCanWork (queueId : Nat) (user : Option Nat) (ignoreAvailability : Bool) :
    Except Failure Nat :=
  match queues.get? queueId with
  | none => .error ⟨"WK404", "queue not found"⟩
  | some queue =>
    match user with
    | none => .error ⟨"WK403", "actor is required to work queue " ++ queue.code⟩
    | some userId =>
      if !call.holdsPermission userId queue.requiredPermission then
        .error ⟨"WK403", "user does not hold permission " ++ queue.requiredPermission ++
          " required by queue " ++ queue.code⟩
      else if !ignoreAvailability && call.unavailable queueId userId then
        .error ⟨"WK403", "worker is unavailable in queue " ++ queue.code⟩
      else .ok userId

def assertSupervisor (queueId : Nat) : Except Failure Unit :=
  match queues.get? queueId with
  | none => .error ⟨"WK404", "queue not found"⟩
  | some queue =>
    if call.actor.any fun actor => call.holdsPermission actor queue.supervisorPermission then .ok ()
    else
      .error ⟨"WK403", "actor does not hold supervisor permission " ++
        queue.supervisorPermission ++ " for queue " ++ queue.code⟩

def itemClaim (itemId : Nat) (user : Option Nat) (row : Item) : Except Failure Plan :=
  if row.status ≠ .pending then .error ⟨"WK409", "item is not pending"⟩
  else
    match assertCanWork queues call row.queueId (user <|> call.actor) false with
    | .error failure => .error failure
    | .ok userId =>
      .ok (.write ⟨itemId, .claim userId, .claim, none, some userId, none, .empty⟩
        (some (row.queueId, userId)))

/-- The check of `item_release` and `item_complete` on who may call them. -/
def assertHolder (row : Item) (reason : Option String) (force : Bool) (verb : String) :
    Except Failure Unit :=
  if force then
    if isBlank reason then .error ⟨"WK400", "supervisor override reason is required"⟩
    else assertSupervisor queues call row.queueId
  else if row.assigneeId ≠ call.actor then
    .error ⟨"WK403", "only the current assignee may " ++ verb ++ " the item"⟩
  else .ok ()

def itemRelease (itemId : Nat) (reason : Option String) (force : Bool) (row : Item) :
    Except Failure Plan :=
  if row.status ≠ .claimed then .error ⟨"WK409", "item is not claimed"⟩
  else
    match assertHolder queues call row reason force "release" with
    | .error failure => .error failure
    | .ok () =>
      .ok (.write ⟨itemId, .release, if force then .override else .release, row.assigneeId, none,
        reason, if force then .operation .release none else .empty⟩ none)

def itemComplete (itemId : Nat) (note payload : Option String) (force : Bool) (row : Item) :
    Except Failure Plan :=
  if row.status = .completed then .ok .done
  else if row.status ≠ .claimed then .error ⟨"WK409", "item is not claimed"⟩
  else
    match assertHolder queues call row note force "complete" with
    | .error failure => .error failure
    | .ok () =>
      .ok (.write ⟨itemId, .complete, if force then .override else .complete, row.assigneeId, none,
        note, if force then .operation .complete payload else .given payload⟩ none)

def Item.isOpen (row : Item) : Bool := row.status = .pending || row.status = .claimed

def itemCancel (itemId : Nat) (reason : Option String) (row : Item) : Except Failure Plan :=
  if !row.isOpen then .error ⟨"WK409", "item is not open"⟩
  else
    match assertSupervisor queues call row.queueId with
    | .error failure => .error failure
    | .ok () =>
      .ok (.write ⟨itemId, .cancel, .cancel, row.assigneeId, none, reason, .empty⟩ none)

def itemReassign (itemId toUser : Nat) (reason : Option String) (override : Bool) (row : Item) :
    Except Failure Plan :=
  if !row.isOpen then .error ⟨"WK409", "item is not open"⟩
  else
    match assertSupervisor queues call row.queueId with
    | .error failure => .error failure
    | .ok () =>
      match assertCanWork queues call row.queueId (some toUser) override with
      | .error failure => .error failure
      | .ok _ =>
        .ok (.write ⟨itemId, .claim toUser, if override then .override else .reassign,
          row.assigneeId, some toUser, reason,
          if override then .operation .reassign none else .empty⟩
          (if row.assigneeId = some toUser then none else some (row.queueId, toUser)))

def planOf (itemId : Nat) (row : Item) : Except Failure Plan :=
  match call.operation with
  | .claim _ user => itemClaim queues call itemId user row
  | .release _ reason force => itemRelease queues call itemId reason force row
  | .complete _ note payload force => itemComplete queues call itemId note payload force row
  | .cancel _ reason => itemCancel queues call itemId reason row
  | .reassign _ (some toUser) reason override =>
    itemReassign queues call itemId toUser reason override row
  | _ => .ok .done

def Mutation.event (mutation : Mutation) : ItemEvent :=
  ⟨call.eventId false, mutation.itemId, mutation.kind, call.actor, mutation.fromAssignee,
    mutation.toAssignee, mutation.reason, mutation.payload, call.eventNow false⟩

/-- The order of the next item: priority, deadline with null last, instant of insertion, key. -/
def claimOrder (first second : Nat × Item) : Prop :=
  let key (entry : Nat × Item) : List Int :=
    [entry.2.priority, if entry.2.dueAt.isNone then 1 else 0, entry.2.dueAt.getD 0,
      entry.2.createdAt, entry.1]
  key first ≤ key second

instance (first second : Nat × Item) : Decidable (claimOrder first second) :=
  inferInstanceAs (Decidable (_ ≤ _))

/-- The first pending item of a queue that nobody else has locked. -/
def Db.nextItem (db : Db) (free : LockKey → Bool) (queueId : Nat) : Option (Nat × Item) :=
  ((db.items.entries.filter fun entry : Nat × Item =>
    entry.2.queueId = queueId && entry.2.status = .pending && free (.item entry.1)).insertionSort
      claimOrder).head?

/-- The row that `item_enqueue` inserts. -/
def enqueuedItem (queueId : Nat) (priority dueAt : Option Int) : Item :=
  ⟨queueId, priority.getD 100, dueAt, call.now, .pending, none⟩

def enqueueEvents (entityType entityId : String) (dueAt : Option Int) : List ItemEvent :=
  ⟨call.eventId false, call.itemId, .enqueue, call.actor, none, none, none,
      .entity entityType entityId, call.eventNow false⟩ ::
    dueAt.toList.map fun due =>
      ⟨call.eventId true, call.itemId, .deadlineSet, call.actor, none, none, none, .deadline due,
        call.eventNow true⟩

def enqueueDue (queue : Queue) (dueAt : Option Int) : Except Failure (Option Int) :=
  match dueAt, queue.defaultSlaSeconds, queue.defaultSlaBusinessDays with
  | some due, _, _ => .ok (some due)
  | none, some seconds, _ => .ok (some (call.now + seconds))
  | none, none, some _ =>
    .error ⟨"WK400", "business calendar deadline must be resolved by the application"⟩
  | none, none, none => .ok none

/-- `worklist.item_enqueue` up to the `INSERT`. -/
def itemEnqueue (queueCode : String) (entityType entityId : Option String)
    (priority dueAt : Option Int) : Except Failure (Item × List ItemEvent) :=
  if call.actor.isNone then
    .error ⟨"WK403", "app.tenant_id and app.actor_id are required"⟩
  else if isBlank entityType || isBlank entityId then
    .error ⟨"WK400", "entity type and id are required"⟩
  else
    match queues.entries.find? fun entry => entry.2.code = queueCode with
    | none => .error ⟨"WK404", "queue " ++ queueCode ++ " not found"⟩
    | some (queueId, queue) =>
      match enqueueDue call queue dueAt with
      | .error failure => .error failure
      | .ok due =>
        .ok (enqueuedItem call queueId priority due,
          enqueueEvents call (entityType.getD "") (entityId.getD "") due)

/-- The arguments that a function for one item checks before it reads the row. -/
def checkArguments : Operation → Except Failure Unit
  | .cancel _ reason =>
    if isBlank reason then .error ⟨"WK400", "cancel reason is required"⟩ else .ok ()
  | .reassign _ toUser reason _ =>
    if toUser.isNone then .error ⟨"WK400", "target user is required"⟩
    else if isBlank reason then .error ⟨"WK400", "reassign reason is required"⟩
    else .ok ()
  | _ => .ok ()

def Operation.itemId? : Operation → Option Nat
  | .claim itemId _ | .release itemId _ _ | .complete itemId _ _ _ | .cancel itemId _
  | .reassign itemId _ _ _ => some itemId
  | _ => none

def limitOf (queueId : Nat) : Option Nat := (queues.get? queueId).bind Queue.claimLimit

end

variable (queues : OrderedMap Nat Queue) (hash : String → Int)

def capacityKey (queueId user : Nat) : LockKey :=
  .advisory (hash (toString queueId ++ ":" ++ toString user))

def assignKey (queueId : Nat) : LockKey :=
  .advisory (hash ("worklist:assign:" ++ toString queueId))

/-- The first statement of a function, after the checks of its arguments. -/
def callTurn (db : Db) (call : Call) : Except Failure (Turn LockKey RowWrite CallPhase) :=
  match call.operation with
  | .enqueue queueCode entityType entityId priority dueAt =>
    match itemEnqueue queues call queueCode entityType entityId priority dueAt with
    | .error failure => .error failure
    | .ok (item, events) =>
      if db.items.has call.itemId then .error ⟨"23505", "duplicate key value"⟩
      else .ok (.write (.insertItem call.itemId item) (.logging events))
  | .claimNext queueId user =>
    match assertCanWork queues call queueId (user <|> call.actor) false with
    | .error failure => .error failure
    | .ok userId =>
      .ok (.go (.checking call (.next queueId userId .claim .empty) (some (queueId, userId))))
  | .itemAssignNext queueId user strategy =>
    match assertCanWork queues call queueId user false with
    | .error failure => .error failure
    | .ok userId =>
      .ok (.go (.checking call (.next queueId userId .assign (.strategy strategy))
        (some (queueId, userId))))
  | .assignNext queueId =>
    match queues.get? queueId with
    | none => .error ⟨"WK404", "queue not found"⟩
    | some queue =>
      if queue.strategy ≠ "round_robin" ∧ queue.strategy ≠ "load_balanced" then
        .error ⟨"WK409", "queue strategy " ++ queue.strategy ++
          " does not use built-in push assignment"⟩
      else .ok (.lock (assignKey hash queueId) (.assignLocked call queueId queue))
  | .claim itemId _ | .release itemId _ _ | .complete itemId _ _ _ | .cancel itemId _
  | .reassign itemId _ _ _ =>
    match checkArguments call.operation with
    | .error failure => .error failure
    | .ok () => .ok (.lock (.item itemId) (.rowLocked call itemId))

/-- `SELECT * INTO v_row`, and the checks on the row. -/
def rowTurn (db : Db) (call : Call) (itemId : Nat) :
    Except Failure (Turn LockKey RowWrite CallPhase) :=
  match db.items.get? itemId with
  | none => .error ⟨"WK404", "item not found"⟩
  | some row =>
    match planOf queues call itemId row with
    | .error failure => .error failure
    | .ok .done => .ok (.go .returned)
    | .ok (.write mutation capacity) => .ok (.go (.checking call (.item mutation) capacity))

def assignTurn (db : Db) (call : Call) (queueId : Nat) (queue : Queue) (worker : Option Nat) :
    Option (Turn LockKey RowWrite CallPhase) :=
  match worker with
  | none => some (.go .returned)
  | some user =>
    if queue.claimLimit.all fun limit => db.openClaimCount queueId user < limit then
      match assertCanWork queues call queueId (some user) false with
      | .error _ => none
      | .ok userId =>
        some (.go (.checking call (.next queueId userId .assign (.strategy (some queue.strategy)))
          (some (queueId, userId))))
    else none

def assertClaimCapacity (db : Db) (queueId user limit : Nat) : Except Failure Unit :=
  if limit ≤ db.openClaimCount queueId user then
    .error ⟨"WK409", "claim limit " ++ toString limit ++ " reached for queue"⟩
  else .ok ()

def updateTurn (db : Db) (free : LockKey → Bool) (call : Call) :
    Target → Turn LockKey RowWrite CallPhase
  | .item mutation =>
    .write (.updateItem mutation.itemId mutation.update) (.logging [mutation.event call])
  | .next queueId user kind payload =>
    match db.nextItem free queueId with
    | none => .go .returned
    | some (itemId, _) =>
      let mutation : Mutation := ⟨itemId, .claim user, kind, none, some user, none, payload⟩
      .write (.updateItem itemId (.claim user)) (.logging [mutation.event call])

/-- What a turn is told. -/
inductive Action where
  | call (call : Call)
  /-- The query over the eligible workers returns this user. -/
  | worker (user : Option Nat)
  /-- There is no choice. -/
  | next

/-- The next statement of a call; a call that raises takes no turn. -/
def callStatement (db : Db) (free : LockKey → Bool) (phase : CallPhase) (action : Action) :
    Option (Turn LockKey RowWrite CallPhase) :=
  match phase with
  | .idle =>
    match action with
    | .call call => some (.go (.called call))
    | _ => none
  | .called call => (callTurn queues hash db call).toOption
  | .rowLocked call itemId => (rowTurn queues db call itemId).toOption
  | .assignLocked call queueId queue =>
    match action with
    | .worker user => assignTurn queues db call queueId queue user
    | _ => none
  | .checking call target capacity =>
    match capacity with
    | none => some (.go (.admitted call target none))
    | some (queueId, user) =>
      match limitOf queues queueId with
      | none => some (.go (.admitted call target capacity))
      | some limit =>
        some (.lock (capacityKey hash queueId user)
          (.capacityLocked call target queueId user limit))
  | .capacityLocked call target queueId user limit =>
    match assertClaimCapacity db queueId user limit with
    | .error _ => none
    | .ok () => some (.go (.admitted call target (some (queueId, user))))
  | .admitted call target _ => some (updateTurn db free call target)
  | .logging [] => some (.go .returned)
  | .logging (event :: rest) =>
    -- the key of a new event is unique
    if db.events.any fun other => other.id = event.id then none
    else some (.write (.insertEvent event) (.logging rest))
  | .returned => some (.commit .idle)

def worklistProgram : Program Db LockKey RowWrite CallPhase Action where
  apply := RowWrite.apply
  guard := RowWrite.guard
  idle := .idle
  turn := callStatement queues hash

end Stynx.Worklist
