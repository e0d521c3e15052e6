import Stynx.OrderedMap

/-!
# The idempotency interceptor and its stores

`IdempotencyInterceptor.run` as a coroutine: a request stands at the call it is about to make and
goes on with the reply. The durable row of the key, the cached entry and the lock of the backend
are shared by all requests with the key.

Replies of the backend are part of the step, so that it may lose a lock or grant it twice; the
shared state also keeps what an honest backend would hold. A call to the durable store is one
statement.
-/

namespace Stynx.IdempotencyInterceptor

inductive EntryStatus where
  | pending
  | completed
  deriving DecidableEq

/-- A response as the client sees it. -/
structure Response where
  statusCode : Nat
  body : String
  headers : List (String × String)
  deriving DecidableEq

structure StoredEntry where
  /-- Fingerprint of the request that reserved the key. -/
  requestFingerprint : String
  statusCode : Option Nat
  body : String
  headers : List (String × String)
  expiresAt : Int
  status : EntryStatus
  deriving DecidableEq

/-- What a replay sends. -/
def StoredEntry.response (entry : StoredEntry) : Response :=
  ⟨entry.statusCode.getD 200, entry.body, entry.headers⟩

/-- The row of `core.idempotency_keys` for the key. -/
structure DurableRow where
  requestFingerprint : Option String
  /-- `response`: the status and the body. -/
  response : Option (Nat × String)
  responseHeaders : Option (List (String × String))
  status : EntryStatus
  expiresAt : Option Int

/-- `make_interval(secs => max(1, floor(ttlMs / 1000)))` in milliseconds. -/
def lifetime (ttlMs : Nat) : Int := 1000 * max 1 (ttlMs / 1000 : Nat)

def lookup (row : Option DurableRow) (ttlMs : Nat) (now : Int) : Option StoredEntry :=
  match row with
  | none => none
  | some row =>
    if row.expiresAt.all (now < ·) then
      some
        { requestFingerprint := row.requestFingerprint.getD ""
          statusCode := row.response.map Prod.fst
          body := (row.response.map Prod.snd).getD "null"
          headers := row.responseHeaders.getD []
          expiresAt := row.expiresAt.getD (now + ttlMs)
          status := row.status }
    else none

/-- `reserve`: insert if absent, and whether a row was inserted. -/
def reserve (row : Option DurableRow) (fingerprint : String) (ttlMs : Nat) (now : Int) :
    Option DurableRow × Bool :=
  match row with
  | some row => (some row, false)
  | none => (some ⟨some fingerprint, none, none, .pending, some (now + lifetime ttlMs)⟩, true)

def persistResponse (row : Option DurableRow) (response : Response) (ttlMs : Nat) (now : Int) :
    Option DurableRow :=
  row.map fun row =>
    { row with
      status := .completed
      response := some (response.statusCode, response.body)
      responseHeaders := some response.headers
      expiresAt := some (now + lifetime ttlMs) }

/-- `clearReservation`: delete a pending row, whoever reserved it. -/
def clearReservation (row : Option DurableRow) : Option DurableRow :=
  row.filter fun row => row.status ≠ .pending

/-- What `next.handle()` does. -/
inductive HandlerOutcome where
  | returned (response : Response)
  | httpException (response : Response)
  | exception
  deriving DecidableEq

def HandlerOutcome.storable : HandlerOutcome → Option Response
  | .returned response => if response.statusCode < 500 then some response else none
  | .httpException response => if response.statusCode < 500 then some response else none
  | .exception => none

/-- How a request ends. -/
inductive Result where
  | replayed (response : Response)
  | handled (outcome : HandlerOutcome)
  | differentBody
  | unavailable
  | backendFailed
  deriving DecidableEq

/-- The call a request is about to make; `locked` says whether it was granted the lock. -/
inductive Phase where
  | get
  | lookup
  | setReplay (entry : StoredEntry)
  | acquireLock
  | waitGet (attempt : Nat)
  | waitLookup (attempt : Nat)
  | waitIsLocked (attempt : Nat)
  | waitTimer (attempt : Nat)
  | reserve
  | handle (locked : Bool)
  | set (locked : Bool) (outcome : HandlerOutcome) (entry : StoredEntry)
  | persist (locked : Bool) (outcome : HandlerOutcome) (entry : StoredEntry)
  | clear (locked : Bool) (outcome : HandlerOutcome)
  | releaseLock (result : Result)
  | done (result : Result)
  deriving DecidableEq

/-- What a pending call comes back with. -/
inductive Reply where
  | entry (entry : Option StoredEntry)
  | granted (granted : Bool)
  | settled
  | store (now : Int)
  | handler (outcome : HandlerOutcome) (now : Int)
  | rejected

structure Request where
  /-- Fingerprint of method, path and body. -/
  fingerprint : String
  ttlMs : Nat
  phase : Phase

/-- Options the run reads. -/
structure Options where
  durableStrict : Bool
  waitAttempts : Nat

/-- What the requests with the key share. -/
structure Shared where
  row : Option DurableRow
  cache : Option StoredEntry
  /-- The request an honest backend holds the lock for. -/
  lock : Option Nat
  /-- Handler runs that completed with a status below 500, oldest first. -/
  successes : List (Nat × Response)

/-- The part of `run` and of `waitForReadyEntry` that looks at an entry. -/
def inspect (request : Request) (entry : Option StoredEntry) (replay : StoredEntry → Phase)
    (next : Phase) : Phase :=
  match entry with
  | none => next
  | some entry =>
    if entry.requestFingerprint ≠ request.fingerprint then .done .differentBody
    else if entry.status = .completed then replay entry
    else next

/-- A replay that needs no further call. -/
def replayed (entry : StoredEntry) : Phase := .done (.replayed entry.response)

/-- `waitForReadyEntry` returned `null`. -/
def waitedInVain (options : Options) : Phase :=
  if options.durableStrict then .done .unavailable else .handle false

/-- The head of the loop of `waitForReadyEntry`. -/
def waitFrom (options : Options) (attempt : Nat) : Phase :=
  if attempt < options.waitAttempts then .waitGet attempt else waitedInVain options

/-- The `finally` block. -/
def finish (locked : Bool) (result : Result) : Phase :=
  if locked then .releaseLock result else .done result

/-- The entry built from a handler outcome. -/
def completedEntry (request : Request) (response : Response) (now : Int) : StoredEntry :=
  { requestFingerprint := request.fingerprint
    statusCode := some response.statusCode
    body := response.body
    headers := response.headers
    expiresAt := now + request.ttlMs
    status := .completed }

/-- Calls of the backend that may reject outside the handling of a finished response. -/
def Phase.mayReject : Phase → Bool
  | .get | .setReplay _ | .acquireLock | .waitGet _ | .waitIsLocked _ | .releaseLock _ => true
  | _ => false

/-- `run` from a reply to its next call. -/
def resume (options : Options) (shared : Shared) (id : Nat) (request : Request) :
    Reply → Option (Shared × Phase)
  | .entry entry =>
    match request.phase with
    | .get => some (shared, inspect request entry replayed .lookup)
    | .waitGet attempt => some (shared, inspect request entry replayed (.waitLookup attempt))
    | _ => none
  | .granted granted =>
    match request.phase with
    | .acquireLock =>
      if granted then some ({ shared with lock := some id }, .reserve)
      else some (shared, waitFrom options 0)
    | .waitIsLocked attempt =>
      if granted then some (shared, .waitTimer attempt) else some (shared, waitedInVain options)
    | _ => none
  | .settled =>
    match request.phase with
    | .setReplay entry => some ({ shared with cache := some entry }, replayed entry)
    | .waitTimer attempt => some (shared, waitFrom options (attempt + 1))
    | .set locked outcome entry =>
      some ({ shared with cache := some entry }, .persist locked outcome entry)
    | .releaseLock result =>
      some ({ shared with lock := if shared.lock = some id then none else shared.lock },
        .done result)
    | _ => none
  | .store now =>
    match request.phase with
    | .lookup =>
      some (shared, inspect request (lookup shared.row request.ttlMs now) .setReplay .acquireLock)
    | .waitLookup attempt =>
      some (shared, inspect request (lookup shared.row request.ttlMs now) replayed
        (.waitIsLocked attempt))
    | .reserve =>
      let reserved := reserve shared.row request.fingerprint request.ttlMs now
      if !reserved.2 && options.durableStrict then some (shared, .releaseLock .unavailable)
      else some ({ shared with row := reserved.1 }, .handle true)
    | .persist locked outcome entry =>
      some ({ shared with row := persistResponse shared.row entry.response request.ttlMs now },
        finish locked (.handled outcome))
    | .clear locked outcome =>
      some ({ shared with row := clearReservation shared.row }, finish locked (.handled outcome))
    | _ => none
  | .handler outcome now =>
    match request.phase with
    | .handle locked =>
      match outcome.storable with
      | some response =>
        some ({ shared with successes := shared.successes ++ [(id, response)] },
          .set locked outcome (completedEntry request response now))
      | none => some (shared, .clear locked outcome)
    | _ => none
  | .rejected =>
    if request.phase.mayReject then some (shared, .done .backendFailed) else none

/-- The requests with one key and what they share. -/
structure System where
  shared : Shared
  requests : OrderedMap Nat Request

/-- No request yet, over a given row. -/
def System.start (row : Option DurableRow) : System := ⟨⟨row, none, none, []⟩, .empty⟩

def System.after (s : System) (id : Nat) (request : Request) (shared : Shared) (phase : Phase) :
    System :=
  ⟨shared, s.requests.set id { request with phase := phase }⟩

/-- A new request, or a reply for one. -/
inductive Label where
  | arrive (id : Nat) (fingerprint : String) (ttlMs : Nat)
  | reply (id : Nat) (reply : Reply)

/-- The interleaving of any number of requests. -/
def step (options : Options) (s : System) : Label → Option System
  | .arrive id fingerprint ttlMs =>
    if s.requests.has id then none
    else some (s.after id ⟨fingerprint, ttlMs, .get⟩ s.shared .get)
  | .reply id reply =>
    match s.requests.get? id with
    | none => none
    | some request =>
      match resume options s.shared id request reply with
      | none => none
      | some (shared, phase) => some (s.after id request shared phase)

end Stynx.IdempotencyInterceptor
