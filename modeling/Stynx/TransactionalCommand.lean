import Mathlib.Data.String.Basic
import Stynx.OrderedMap

/-!
# Transactional commands

`TransactionalCommandInterceptor.execute` from its transaction on, over the statements of
`TransactionalIdempotencyStore`, for the requests with one tenant, scope and key. A request is
one transaction at read committed.

The database is assumed to give ACID transactions with row locks: the statement that reserves the
key waits for the lock, keeps it also when it finds the key taken, and the lock is given back with
the transaction. The clock does not go back.
-/

namespace Stynx.TransactionalCommand

/-- `Record<string, string>` of response headers. -/
abbrev Headers := OrderedMap String String

def allowedHeaders : List String := ["location", "retry-after", "cache-control", "etag"]

/-- `filterHeaders`: the allowed headers, under their lower-case names. -/
def filterHeaders (headers : Headers) : Headers :=
  headers.entries.foldl (fun result p =>
    if allowedHeaders.contains p.1.toLower then result.set p.1.toLower p.2 else result) .empty

def captureHeaders (headers : OrderedMap String (Option String)) : Headers :=
  allowedHeaders.foldl (fun selected name =>
    match headers.get? name with
    | some (some value) => selected.set name value
    | _ => selected) .empty

/-- A value a handler returns, as far as `encodeBody` tells values apart. -/
inductive Payload where
  | undefined
  | json (text : String)
  | notJson

/-- `encodeBody`: the bytes to store, or an exception. -/
def encodeBody : Payload → Option (Option String)
  | .undefined => some none
  | .json text => some (some text)
  | .notJson => none

structure CommandOutcome where
  statusCode : Int
  body : Payload
  headers : Headers
  /-- Whether the handler threw a `CommittedCommandError`. -/
  error : Bool

/-- Options the execution reads. -/
structure CommandOptions where
  /-- `persistStatus`, if configured; `none` is a throw or a result that is not a boolean. -/
  persistStatus : Option (CommandOutcome → Option Bool)

inductive CallbackFailure where
  | statusInvalid
  | statusPolicyInvalid
  | responseNotJson
  | auditMetadataFailed

/-- How a request is answered. -/
inductive Answer where
  | committed (statusCode : Int) (bytes : Option String) (headers : Headers)
  | replayed (statusCode : Int) (bytes : Option String) (headers : Headers)
  | returned (payload : Payload)
  | mismatch
  | inProgress
  | handlerFailed
  | httpException (statusCode : Int) (body : Payload)
  | configuration (failure : CallbackFailure)
  | transactionFailed

/-- What the handler does; a status that is not an integer is `none`. -/
inductive HandlerResult where
  | returned (payload : Payload) (statusCode : Option Int)
      (responseHeaders : OrderedMap String (Option String))
  | committedError (statusCode : Option Int) (body : Payload) (headers : Headers)
  | threw

/-- What the handler's outcome is turned into before the audit record is written. -/
structure Settled where
  selected : Bool
  statusCode : Int
  bytes : Option String
  headers : Headers
  payload : Payload

/-- `persistStatus`, or the rule that stores errors and successes. -/
def selects (options : CommandOptions) (outcome : CommandOutcome) : Option Bool :=
  match options.persistStatus with
  | some policy => policy outcome
  | none => some (outcome.error || (200 ≤ outcome.statusCode && outcome.statusCode < 300))

/-- The callbacks between the handler and the audit record. -/
def settle (options : CommandOptions) (statusCode : Option Int) (payload : Payload)
    (headers : Headers) (error auditMetadata : Bool) : Except Answer Settled :=
  match statusCode with
  | none => .error (.configuration .statusInvalid)
  | some statusCode =>
    if statusCode < 100 ∨ 599 < statusCode then .error (.configuration .statusInvalid)
    else
      match selects options ⟨statusCode, payload, headers, error⟩ with
      | none => .error (.configuration .statusPolicyInvalid)
      | some selected =>
        if error && !selected then .error (.httpException statusCode payload)
        else
          match encodeBody payload with
          | none => .error (.configuration .responseNotJson)
          | some bytes =>
            if auditMetadata then .ok ⟨selected, statusCode, bytes, headers, payload⟩
            else .error (.configuration .auditMetadataFailed)

/-- The handler and the callbacks after it. -/
def runHandler (options : CommandOptions) (result : HandlerResult) (auditMetadata : Bool) :
    Except Answer Settled :=
  match result with
  | .threw => .error .handlerFailed
  | .returned payload statusCode responseHeaders =>
    settle options statusCode payload (captureHeaders responseHeaders) false auditMetadata
  | .committedError statusCode body headers =>
    settle options statusCode body (filterHeaders headers) true auditMetadata

inductive RowStatus where
  | pending
  | completed
  deriving DecidableEq

structure CommandRow where
  fingerprint : String
  status : RowStatus
  responseStatus : Option Int
  responseBytes : Option String
  responseHeaders : Option Headers
  expiresAt : Nat

/-- A request's fingerprint and lifetime. -/
structure Identity where
  /-- Fingerprint of method, path and body. -/
  fingerprint : String
  ttlMs : Nat

def lookup (committed : Option CommandRow) (now : Nat) : Option CommandRow :=
  committed.filter fun row => now < row.expiresAt

def reservedRow (identity : Identity) (now : Nat) : CommandRow :=
  ⟨identity.fingerprint, .pending, none, none, none, now + 1000 * max 1 ((identity.ttlMs + 999) / 1000)⟩

/-- `reserve` once it has the lock: insert, take over an expired row, or give up. -/
def reserve (committed : Option CommandRow) (identity : Identity) (now : Nat) : Option CommandRow :=
  match committed with
  | none => some (reservedRow identity now)
  | some row => if row.expiresAt ≤ now then some (reservedRow identity now) else none

/-- `complete`; `none` is the exception of a lost reservation. -/
def complete (row : CommandRow) (identity : Identity) (settled : Settled) : Option CommandRow :=
  if row.status = .pending ∧ row.fingerprint = identity.fingerprint then
    some
      { row with
        status := .completed
        responseStatus := some settled.statusCode
        responseBytes := settled.bytes
        responseHeaders := some settled.headers }
  else none

def clear (row : CommandRow) (identity : Identity) : Option CommandRow :=
  if row.status = .pending ∧ row.fingerprint = identity.fingerprint then none else some row

/-- `replay`: the stored response, or a refusal. -/
def replay (existing : CommandRow) (identity : Identity) : Except Answer Answer :=
  if existing.fingerprint ≠ identity.fingerprint then .error .mismatch
  else
    match existing.status, existing.responseStatus with
    | .completed, some statusCode =>
      .ok (.replayed statusCode existing.responseBytes
        (filterHeaders (existing.responseHeaders.getD .empty)))
    | _, _ => .error .inProgress

/-- What a transaction has to commit: the version of the row it leaves, and when it reserved. -/
structure Writes where
  /-- The version of the row; `none` deletes it. -/
  row : Option CommandRow
  reservedAt : Nat

/-- Where a request stands in its transaction. -/
inductive Phase where
  | lookup
  | reserve
  | lookupWinner
  | handler (row : CommandRow) (reservedAt : Nat)
  | audit (row : CommandRow) (reservedAt : Nat) (settled : Settled)
  | store (row : CommandRow) (reservedAt : Nat) (settled : Settled)
  | commit (writes : Option Writes) (answer : Answer)
  | done (answer : Answer)

structure Request where
  identity : Identity
  phase : Phase

/-- A committed handler run. -/
structure Effect where
  id : Nat
  selected : Bool
  reservedAt : Nat
  /-- End of the lifetime of what it stored. -/
  expiresAt : Nat

/-- The database and the requests. -/
structure System where
  now : Nat
  committed : Option CommandRow
  /-- The request whose transaction holds the lock of the row. -/
  lock : Option Nat
  requests : OrderedMap Nat Request
  /-- Handler runs that committed, oldest first. -/
  effects : List Effect

/-- No request yet and no row. -/
def System.start : System := ⟨0, none, none, .empty, []⟩

/-- One step of the clock, of a request or of the database. -/
inductive Label where
  | tick (now : Nat)
  | arrive (id : Nat) (identity : Identity)
  | statement (id : Nat)
  | lockTimeout (id : Nat)
  | handled (id : Nat) (result : HandlerResult) (auditMetadata : Bool)
  | commit (id : Nat) (acknowledged : Bool)
  | fail (id : Nat)

def System.move (s : System) (id : Nat) (request : Request) (phase : Phase) : System :=
  { s with requests := s.requests.set id { request with phase := phase } }

/-- The lock after the transaction of a request has ended. -/
def System.unlocked (s : System) (id : Nat) : Option Nat :=
  if s.lock = some id then none else s.lock

/-- The transaction of a request is rolled back. -/
def System.rollback (s : System) (id : Nat) (request : Request) (answer : Answer) : System :=
  { s.move id request (.done answer) with lock := s.unlocked id }

def effectOf (id : Nat) (writes : Writes) : Effect :=
  ⟨id, writes.row.isSome, writes.reservedAt, writes.row.elim 0 CommandRow.expiresAt⟩

def System.committing (s : System) (id : Nat) (request : Request) (writes : Option Writes)
    (answer : Answer) : System :=
  let ended := s.rollback id request answer
  match writes with
  | none => ended
  | some writes =>
    { ended with committed := writes.row, effects := s.effects ++ [effectOf id writes] }

/-- A found row is replayed, which ends in a commit or in a refusal that rolls back. -/
def System.replaying (s : System) (id : Nat) (request : Request) (existing : CommandRow) : System :=
  match replay existing request.identity with
  | .ok answer => s.move id request (.commit none answer)
  | .error answer => s.rollback id request answer

/-- The next statement of a request; `none` when it has to wait for the lock or has none. -/
def statement (s : System) (id : Nat) (request : Request) : Option System :=
  match request.phase with
  | .lookup =>
    match lookup s.committed s.now with
    | some existing => some (s.replaying id request existing)
    | none => some (s.move id request .reserve)
  | .reserve =>
    if s.lock = none then
      let locked := { s with lock := some id }
      match reserve s.committed request.identity s.now with
      | some row => some (locked.move id request (.handler row s.now))
      | none => some (locked.move id request .lookupWinner)
    else none
  | .lookupWinner =>
    match lookup s.committed s.now with
    | some winner => some (s.replaying id request winner)
    | none => some (s.rollback id request .inProgress)
  | .audit row reservedAt settled => some (s.move id request (.store row reservedAt settled))
  | .store row reservedAt settled =>
    if settled.selected then
      match complete row request.identity settled with
      | some completed =>
        some (s.move id request (.commit (some ⟨some completed, reservedAt⟩)
          (.committed settled.statusCode settled.bytes settled.headers)))
      | none => some (s.rollback id request .transactionFailed)
    else
      some (s.move id request (.commit (some ⟨clear row request.identity, reservedAt⟩)
        (.returned settled.payload)))
  | _ => none

/-- The step of a stored request. -/
def resume (options : CommandOptions) (s : System) (id : Nat) (request : Request) :
    Label → Option System
  | .statement _ => statement s id request
  | .lockTimeout _ =>
    match request.phase with
    | .reserve => if s.lock = none then none else some (s.rollback id request .inProgress)
    | _ => none
  | .handled _ result auditMetadata =>
    match request.phase with
    | .handler row reservedAt =>
      match runHandler options result auditMetadata with
      | .ok settled => some (s.move id request (.audit row reservedAt settled))
      | .error answer => some (s.rollback id request answer)
    | _ => none
  | .commit _ acknowledged =>
    match request.phase with
    | .commit writes answer =>
      some (s.committing id request writes (if acknowledged then answer else .transactionFailed))
    | _ => none
  | .fail _ =>
    match request.phase with
    | .done _ => none
    | _ => some (s.rollback id request .transactionFailed)
  | _ => none

def Label.request : Label → Option Nat
  | .tick _ => none
  | .arrive id _ | .statement id | .lockTimeout id | .handled id _ _ | .commit id _ | .fail id =>
    some id

/-- The interleaving of any number of requests. -/
def step (options : CommandOptions) (s : System) (a : Label) : Option System :=
  match a with
  | .tick now => if s.now ≤ now then some { s with now := now } else none
  | .arrive id identity =>
    if s.requests.has id then none
    else some { s with requests := s.requests.set id ⟨identity, .lookup⟩ }
  | a =>
    match a.request with
    | none => none
    | some id =>
      match s.requests.get? id with
      | none => none
      | some request => resume options s id request a

end Stynx.TransactionalCommand
