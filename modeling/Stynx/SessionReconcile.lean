import Stynx.SessionControl

/-!
# Reconciliation of session operations

`reconcile` of `packages/sessions/src/control/session-control.service.ts` beside the calls of
`execute`, over one registry that has the operations and the registrations of
`packages/sessions/src/control/postgres-registry.ts`.
-/

namespace Stynx.SessionReconcile

open SessionControl

def retrySeconds : List Nat := [5, 30, 120, 600, 1800, 7200]

def terminal : List RegistrationState := [.revoked, .unsupported, .expired, .retired]

/-- How long an operation is leased, in milliseconds. -/
def leaseMs : Nat := 60000

/-- What a reconciliation has in hand: an operation whose items it goes through. -/
structure Task where
  operation : Operation
  rows : List SessionRegistration
  done : List SessionItemResult
  rest : List SessionItemResult
  others : List Operation

/-- Where a reconciliation stands. -/
inductive Phase where
  /-- At `registry.claimPending`. -/
  | claiming (now : Nat)
  | listing (operation : Operation) (others : List Operation)
  /-- At `provider.revoke`. -/
  | asking (task : Task) (item : SessionItemResult) (registration : SessionRegistration)
  /-- At `registry.update` of what the provider has answered. -/
  | updating (task : Task) (registration : SessionRegistration)
  /-- Past the items of an operation. -/
  | counting (task : Task)
  /-- At `registry.update` of a session whose retries have run out. -/
  | failing (task : Task) (registration : SessionRegistration)
  | saving (operation : Operation) (others : List Operation)
  | returned
  | thrown
  /-- It has thrown for a delay that the table does not have. -/
  | outside

structure Reconciliation where
  context : TrustedSessionContext
  /-- How many operations it claims at most. -/
  limit : Nat
  claimed : Nat
  phase : Phase

/-- A reconciliation at another place. -/
def Reconciliation.to (call : Reconciliation) (phase : Phase) : Reconciliation :=
  { call with phase := phase }

/-- The process with its reconciliations, and the registrations in the registry. -/
structure System where
  /-- The calls of `execute` and the operations in the registry. -/
  process : Process
  registrations : OrderedMap String SessionRegistration
  reconciliations : List Reconciliation := []

/-- A registry without operations. -/
def start (registrations : OrderedMap String SessionRegistration) : System where
  process := SessionControl.start .empty
  registrations := registrations

def registrationOf (rows : List SessionRegistration) (item : SessionItemResult) :
    Option SessionRegistration :=
  rows.find? fun candidate => candidate.sid = item.sid

def setRow (rows : List SessionRegistration) (registration : SessionRegistration) :
    List SessionRegistration :=
  rows.map fun row => if row.sid = registration.sid then registration else row

def nextItem (operation : Operation) (rows : List SessionRegistration) (others : List Operation)
    (done : List SessionItemResult) : List SessionItemResult → Phase
  | [] => .counting ⟨operation, rows, done, [], others⟩
  | item :: rest =>
    if item.status = .pending then
      match registrationOf rows item with
      | some registration => .asking ⟨operation, rows, done, rest, others⟩ item registration
      | none => nextItem operation rows others (done ++ [item]) rest
    else nextItem operation rows others (done ++ [item]) rest

def itemAfter (item : SessionItemResult) (outcome : ProviderRevocationResult) : SessionItemResult :=
  { item with
    status := outcome.status
    guarantee := outcome.guarantee
    errorCode := if truthy outcome.errorCode then outcome.errorCode else none }

def registrationAfter (registration : SessionRegistration) (outcome : ProviderRevocationResult)
    (now : Nat) : SessionRegistration :=
  let state := registrationState outcome.status
  { registration with
    state := state
    guarantee := outcome.guarantee
    terminalAt := if state ∈ terminal then some now else registration.terminalAt }

def withResults (operation : Operation) (results : List SessionItemResult) : Operation :=
  { operation with result := { operation.result with results := results } }

/-- An item whose retries have run out. -/
def failedItem (item : SessionItemResult) : SessionItemResult :=
  { item with status := .failed, errorCode := some "SESSION_PROVIDER_FAILED" }

/-- The next pending item with a registration out of retries, or the end of the items. -/
def nextFailed (operation : Operation) (rows : List SessionRegistration) (others : List Operation)
    (now : Nat) (done : List SessionItemResult) : List SessionItemResult → Phase
  | [] => .saving { withResults operation done with leaseUntil := none } others
  | item :: rest =>
    if item.status = .pending then
      match registrationOf rows item with
      | some registration =>
        let registration := { registration with state := .failed, terminalAt := some now }
        .failing ⟨operation, setRow rows registration, done ++ [failedItem item], rest, others⟩
          registration
      | none => nextFailed operation rows others now (done ++ [failedItem item]) rest
    else nextFailed operation rows others now (done ++ [item]) rest

def count (task : Task) (now : Nat) : Phase :=
  let attempts := task.operation.attempts + 1
  let stillPending := task.done.any fun item => item.status = .pending
  let operation := { task.operation with attempts := attempts }
  if stillPending ∧ attempts > retrySeconds.length then
    nextFailed { operation with
      result := { operation.result with
        status := .failed
        errorCode := some "SESSION_PROVIDER_FAILED" }
      nextAttemptAt := none } task.rows task.others now [] task.done
  else if stillPending then
    match retrySeconds[attempts - 1]? with
    | some seconds => .saving { withResults operation task.done with
        nextAttemptAt := some (now + seconds * 1000)
        leaseUntil := none } task.others
    | none => .outside
  else
    .saving { withResults { operation with
        result := { operation.result with
          status := if task.done.all fun item => item.status = .revoked then .revoked
            else .unsupported } } task.done with
      nextAttemptAt := none
      leaseUntil := none } task.others

def nextOperation : List Operation → Phase
  | [] => .returned
  | operation :: others => .listing operation others

def claimable (operation : Operation) (now : Nat) : Bool :=
  operation.result.status = .pending ∧ (operation.nextAttemptAt.all fun next => next ≤ now) ∧
    operation.leaseUntil.all fun lease => lease ≤ now

def claim (operations : SessionOperations.Memory SessionMutationResult) (now : Nat)
    (keys : List String) : List Operation :=
  keys.filterMap fun key => (operations.get? key).map fun operation =>
    { operation with leaseUntil := some (now + leaseMs) }

def Stored (s : System) (rows : List SessionRegistration) : Prop :=
  ∀ row ∈ rows, s.registrations.get? row.sid = some row

instance decidableStored (s : System) (rows : List SessionRegistration) : Decidable (Stored s rows) :=
  inferInstanceAs (Decidable (∀ row ∈ rows, _))

/-- A registration is written, unless the registry throws. -/
def writes (s : System) (registration : SessionRegistration) (stored : Bool) : System :=
  if stored then { s with registrations := s.registrations.set registration.sid registration } else s

def goes (s : System) (index : Nat) (call : Reconciliation) (phase : Phase) : System :=
  { s with reconciliations := s.reconciliations.set index (call.to phase) }

inductive Label where
  /-- A step of the calls of `execute`. -/
  | execute (label : SessionControl.Label)
  | reconcile (context : TrustedSessionContext) (limit now : Nat)
  /-- The registry claims the operations with some keys. -/
  | claim (index : Nat) (keys : List String)
  | list (index : Nat) (rows : List SessionRegistration)
  | answer (index now : Nat) (given : Option ProviderRevocationResult)
  /-- The registry writes a registration, or throws. -/
  | update (index now : Nat) (stored : Bool)
  /-- What follows the items of an operation. -/
  | count (index now : Nat)
  /-- The registry saves an operation, or throws. -/
  | save (index : Nat) (stored : Bool)
  /-- A new session is registered; it is active. -/
  | register (input : SessionRegistration)
  | purge (before : Nat)
  /-- `eraseSubject`, of the sessions that the subject has. -/
  | erase (sids : List String)

/-- What the registry does for a call of `execute` beside what the process says. -/
def serves (s : System) : SessionControl.Label → Option System
  | .registry index rows =>
    match (s.process.calls[index]?).map Call.phase with
    | some .listing => if Stored s rows then some s else none
    | some (.updating target _ _) => some (writes s target true)
    | _ => some s
  | _ => some s

/-- The registry answers a reconciliation that claims. -/
def claims (s : System) (index : Nat) (call : Reconciliation) (keys : List String) : Option System :=
  match call.phase with
  | .claiming now =>
    if keys.Nodup ∧ keys.length ≤ call.limit ∧
        ∀ key ∈ keys, (s.process.operations.get? key).any fun operation => claimable operation now then
      let found := claim s.process.operations now keys
      some { s with
        process := { s.process with
          operations := found.foldl (fun operations item => operations.saveOperation item)
            s.process.operations }
        reconciliations := s.reconciliations.set index
          { call with claimed := found.length, phase := nextOperation found } }
    else none
  | _ => none

/-- The registry answers a reconciliation that lists; no session stands twice in what it lists. -/
def lists (s : System) (index : Nat) (call : Reconciliation) (rows : List SessionRegistration) :
    Option System :=
  match call.phase with
  | .listing operation others =>
    if Stored s rows ∧ (rows.map SessionRegistration.sid).Nodup then
      some (goes s index call (nextItem operation rows others [] operation.result.results))
    else none
  | _ => none

/-- The provider answers a reconciliation; none says that it throws. -/
def answers (s : System) (index now : Nat) (call : Reconciliation)
    (given : Option ProviderRevocationResult) : Option System :=
  match call.phase with
  | .asking task item registration =>
    match given.filter fun outcome => validGuarantee outcome.guarantee with
    | none => some (goes s index call
        (nextItem task.operation task.rows task.others (task.done ++ [item]) task.rest))
    | some outcome =>
      let registration := registrationAfter registration outcome now
      some (goes s index call (.updating { task with
        rows := setRow task.rows registration
        done := task.done ++ [itemAfter item outcome] } registration))
  | _ => none

def updates (s : System) (index now : Nat) (call : Reconciliation) (stored : Bool) : Option System :=
  match call.phase with
  | .updating task registration => some (goes (writes s registration stored) index call
      (nextItem task.operation task.rows task.others task.done task.rest))
  | .failing task registration => some (goes (writes s registration stored) index call
      (if stored then nextFailed task.operation task.rows task.others now task.done task.rest
      else .thrown))
  | _ => none

/-- A reconciliation is past the items of an operation. -/
def counts (s : System) (index now : Nat) (call : Reconciliation) : Option System :=
  match call.phase with
  | .counting task => some (goes s index call (count task now))
  | _ => none

/-- The registry answers a reconciliation that saves. -/
def saves (s : System) (index : Nat) (call : Reconciliation) (stored : Bool) : Option System :=
  match call.phase with
  | .saving operation others =>
    if stored then
      some (goes { s with process := { s.process with
        operations := s.process.operations.saveOperation operation } } index call
        (nextOperation others))
    else some (goes s index call .thrown)
  | _ => none

def step (validateUuid : String → Bool) (s : System) : Label → Option System
  | .execute label => (serves s label).bind fun served =>
      (SessionControl.step validateUuid s.process label).map fun process =>
        { served with process := process }
  | .reconcile context limit now => some { s with
      reconciliations := s.reconciliations ++ [⟨context, limit, 0, .claiming now⟩] }
  | .claim index keys => (s.reconciliations[index]?).bind fun call => claims s index call keys
  | .list index rows => (s.reconciliations[index]?).bind fun call => lists s index call rows
  | .answer index now given =>
      (s.reconciliations[index]?).bind fun call => answers s index now call given
  | .update index now stored =>
      (s.reconciliations[index]?).bind fun call => updates s index now call stored
  | .count index now => (s.reconciliations[index]?).bind fun call => counts s index now call
  | .save index stored => (s.reconciliations[index]?).bind fun call => saves s index call stored
  | .register input =>
    if s.registrations.get? input.sid = none ∧ input.state = .active then some (writes s input true)
    else none
  | .purge before => some { s with
      registrations := s.registrations.filter fun entry => !entry.2.terminalAt.any (· < before) }
  | .erase sids => some { s with
      registrations := s.registrations.filter fun entry => entry.1 ∉ sids }

end Stynx.SessionReconcile
