import Mathlib.Data.Rat.Defs
import Stynx.SessionOperations
import Stynx.TransitionRuns

/-!
# Execution of session control commands

`execute` of `packages/sessions/src/control/session-control.service.ts` in one process. A
call is cut at its `await`s: what stands between two of them is one step, and a
call of the registry runs at some time before its answer is taken up.

The registry is any one: what `list` answers is an input of the step, as is what the
provider answers.
-/

namespace Stynx.SessionControl

open TransitionRuns

inductive SessionScope where
  | tenant
  | identity
  deriving DecidableEq

def SessionScope.text : SessionScope → String
  | .tenant => "tenant"
  | .identity => "identity"

inductive SessionAction where
  | logoutCurrent
  | revokeOne
  | revokeOthers
  | revokeAll
  | revokeSubject
  | revokeTenant
  deriving DecidableEq

def SessionAction.text : SessionAction → String
  | .logoutCurrent => "logout-current"
  | .revokeOne => "revoke-one"
  | .revokeOthers => "revoke-others"
  | .revokeAll => "revoke-all"
  | .revokeSubject => "revoke-subject"
  | .revokeTenant => "revoke-tenant"

inductive RegistrationState where
  | active
  | revocationPending
  | revoked
  | failed
  | unsupported
  | expired
  | retired
  deriving DecidableEq

inductive MutationStatus where
  | pending
  | revoked
  | unsupported
  | failed
  deriving DecidableEq

inductive InvalidationGuarantee where
  | immediateLocal
  | boundedLocal
  | refreshRevokedAccessExpires
  | providerConfirmed
  | none
  deriving DecidableEq

inductive SessionAuthority where
  | self
  | tenantManage
  | identityManage
  deriving DecidableEq

/-- `SessionControlCapabilities`, as far as `supports` reads it. -/
structure SessionControlCapabilities where
  controlScopes : List SessionScope
  revokeOne : Bool
  revokeOthers : Bool
  revokeAll : Bool
  deriving DecidableEq

structure SessionGuarantee where
  kind : InvalidationGuarantee
  effectiveBy : Option String
  /-- Within how many seconds it reaches all. -/
  propagationBoundSeconds : Option Rat
  accessTokenExpiresAt : Option String
  deriving DecidableEq

structure TrustedSessionContext where
  actorId : String
  /-- On whom, if the command does not say. -/
  subjectId : String
  tenantId : String
  currentSessionId : String
  authorities : List SessionAuthority

/-- `SessionRegistration`, as far as `execute` reads or writes it. -/
structure SessionRegistration where
  sid : String
  state : RegistrationState
  capabilities : SessionControlCapabilities
  guarantee : SessionGuarantee
  terminalAt : Option Nat
  sharedAnchor : Bool
  deriving DecidableEq

structure SessionControlCommand where
  action : SessionAction
  operationId : String
  /-- The scope, `tenant` if none is given. -/
  scope : Option SessionScope
  targetSessionId : Option String
  targetSubjectId : Option String

structure SessionItemResult where
  sid : String
  status : MutationStatus
  guarantee : SessionGuarantee
  errorCode : Option String

structure SessionMutationResult where
  operationId : String
  action : SessionAction
  scope : SessionScope
  status : MutationStatus
  guarantee : SessionGuarantee
  effectiveBy : Option String
  results : List SessionItemResult
  errorCode : Option String := none

structure ProviderRevocationRequest where
  operationId : String
  action : SessionAction
  registration : SessionRegistration

structure ProviderRevocationResult where
  status : MutationStatus
  guarantee : SessionGuarantee
  errorCode : Option String

/-- The types of audit events that `execute` writes. -/
inductive AuditType where
  | controlRequest
  | providerAttempt
  | pending
  | result
  | failure

structure SessionAuditEvent where
  type : AuditType
  operationId : String
  sessionId : Option String
  tenantId : String
  actorId : String
  action : SessionAction
  state : Option MutationStatus
  «at» : Nat

structure SessionControlError where
  code : String
  status : Nat

abbrev Operation := SessionOperations.Operation SessionMutationResult

def truthy (text : Option String) : Bool := !(text.getD "").isEmpty

def validateCommand (validateUuid : String → Bool) (command : SessionControlCommand) :
    Except SessionControlError Unit :=
  if validateUuid command.operationId = false ∨
      truthy command.targetSessionId = true ∧
        validateUuid (command.targetSessionId.getD "") = false then
    .error ⟨"SESSION_INVALID", 400⟩
  else if command.action = .revokeOne ∧ truthy command.targetSessionId = false then
    .error ⟨"SESSION_INVALID", 400⟩
  else .ok ()

def authorize (context : TrustedSessionContext) (scope : SessionScope) (subject : String) :
    Except SessionControlError Unit :=
  if context.actorId = "" then .error ⟨"SESSION_UNAUTHENTICATED", 401⟩
  else if scope = .identity ∧ SessionAuthority.identityManage ∉ context.authorities then
    .error ⟨"SESSION_FORBIDDEN", 403⟩
  else if scope = .tenant ∧ subject ≠ context.actorId ∧
      SessionAuthority.tenantManage ∉ context.authorities then
    .error ⟨"SESSION_FORBIDDEN", 403⟩
  else if subject = context.actorId ∧ SessionAuthority.self ∉ context.authorities ∧
      SessionAuthority.tenantManage ∉ context.authorities then
    .error ⟨"SESSION_FORBIDDEN", 403⟩
  else .ok ()

def targets (all : List SessionRegistration) (current : String) (command : SessionControlCommand) :
    List SessionRegistration :=
  match command.action with
  | .logoutCurrent => all.filter fun item => item.sid = current
  | .revokeOne => all.filter fun item => some item.sid = command.targetSessionId
  | .revokeOthers => all.filter fun item => item.sid ≠ current ∧ item.state = .active
  | _ => all.filter fun item => item.state = .active

def supports (c : SessionControlCapabilities) (action : SessionAction) (scope : SessionScope) :
    Bool :=
  c.controlScopes.contains scope &&
    (if action = .revokeOne ∨ action = .logoutCurrent then c.revokeOne
    else if action = .revokeOthers then c.revokeOthers
    else c.revokeAll)

def noGuarantee : SessionGuarantee := ⟨.none, none, none, none⟩

def validGuarantee (guarantee : SessionGuarantee) : Bool :=
  guarantee.kind ≠ .boundedLocal ||
    (match guarantee.propagationBoundSeconds with
      | none => false
      | some seconds => decide (seconds.isInt = true ∧ 1 ≤ seconds ∧ seconds ≤ 30)) &&
    truthy guarantee.effectiveBy

def statusOf (results : List SessionItemResult) : MutationStatus :=
  if results.any fun item => item.status = .pending then .pending
  else if results.any fun item => item.status = .failed then .failed
  else if results.any fun item => item.status = .unsupported then .unsupported
  else .revoked

def firstRetrySeconds : Nat := 5

/-- The state of a registration after an answer of the provider. -/
def registrationState : MutationStatus → RegistrationState
  | .pending => .revocationPending
  | .revoked => .revoked
  | .unsupported => .unsupported
  | .failed => .failed

def outage : ProviderRevocationResult := ⟨.pending, noGuarantee, some "SESSION_OPERATION_PENDING"⟩

def afterAnswer (target : SessionRegistration) (answer : ProviderRevocationResult) (now : Nat) :
    SessionRegistration :=
  { target with
    state := registrationState answer.status
    guarantee := answer.guarantee
    terminalAt := if answer.status = .pending ∨ answer.status = .failed then none else some now }

/-- Where a call stands. Before a call of the registry has run and after it are two places. -/
inductive Phase where
  | looking
  /-- The registry has answered. -/
  | found (existing : Option Operation)
  /-- At the promise of the call that is in flight. -/
  | waiting (owner : Nat)
  | listing
  | listed (all : List SessionRegistration)
  | requested (targets : List SessionRegistration)
  | attempting (target : SessionRegistration) (rest : List SessionRegistration)
    (results : List SessionItemResult)
  | revoking (target : SessionRegistration) (rest : List SessionRegistration)
    (results : List SessionItemResult)
  | updating (target : SessionRegistration) (rest : List SessionRegistration)
    (results : List SessionItemResult)
  | updated (rest : List SessionRegistration) (results : List SessionItemResult)
  | saving (operation : Operation)
  /-- The registry has answered. -/
  | saved (result : SessionMutationResult)
  | reporting (result : SessionMutationResult)
  | returned (result : SessionMutationResult)
  | thrown (error : SessionControlError)

structure Call where
  context : TrustedSessionContext
  command : SessionControlCommand
  requestHash : String
  phase : Phase

def Call.scope (call : Call) : SessionScope := call.command.scope.getD .tenant

def Call.key (call : Call) : String :=
  SessionOperations.Parts.key ⟨call.scope.text, call.context.actorId, call.command.action.text,
    call.command.operationId⟩

/-- A call at another place. -/
def Call.to (call : Call) (phase : Phase) : Call := { call with phase := phase }

def Call.event (call : Call) (type : AuditType) (sessionId : Option String)
    (state : Option MutationStatus) (now : Nat) : SessionAuditEvent where
  type := type
  operationId := call.command.operationId
  sessionId := sessionId
  tenantId := call.context.tenantId
  actorId := call.context.actorId
  action := call.command.action
  state := state
  «at» := now

/-- An entry of the table of calls in flight. -/
structure InFlight where
  requestHash : String
  owner : Nat

/-- The process, its registry and what it has asked of others. -/
structure Process where
  operations : SessionOperations.Memory SessionMutationResult
  inFlight : OrderedMap String InFlight := .empty
  calls : List Call := []
  /-- The calls of `provider.revoke`, each with the key of its operation. -/
  revocations : List (String × ProviderRevocationRequest) := []
  updates : List SessionRegistration := []
  audits : List SessionAuditEvent := []

/-- A process starts over a registry. -/
def start (operations : SessionOperations.Memory SessionMutationResult) : Process where
  operations := operations

/-- A call goes to another place. -/
def callTo (s : Process) (index : Nat) (call : Call) (phase : Phase) : Process :=
  { s with calls := s.calls.set index (call.to phase) }

/-- A call throws within its `try`. -/
def throws (s : Process) (index : Nat) (call : Call) (error : SessionControlError) : Process :=
  { callTo s index call (.thrown error) with inFlight := s.inFlight.delete call.key }

/-- The operation of a call whose targets have all been tried. -/
def operationOf (call : Call) (results : List SessionItemResult) (now : Nat) : Operation :=
  let guarantee := (results.head?.map SessionItemResult.guarantee).getD noGuarantee
  { key := call.key
    requestHash := call.requestHash
    result := {
      operationId := call.command.operationId
      action := call.command.action
      scope := call.scope
      status := statusOf results
      guarantee := guarantee
      effectiveBy := guarantee.effectiveBy
      results := results }
    attempts := 1
    nextAttemptAt :=
      if statusOf results = .pending then some (now + firstRetrySeconds * 1000) else none
    leaseUntil := none }

/-- A turn of the loop over the targets, or its end. -/
def turn (s : Process) (index : Nat) (call : Call) (rest : List SessionRegistration)
    (results : List SessionItemResult) (now : Nat) : Process :=
  match rest with
  | [] => callTo s index call (.saving (operationOf call results now))
  | target :: rest =>
    if supports target.capabilities call.command.action call.scope then
      { callTo s index call (.attempting target rest results) with
        audits := s.audits ++ [call.event .providerAttempt (some target.sid) none now] }
    else
      callTo s index call (.updating { target with state := .unsupported, terminalAt := some now }
        rest (results ++ [⟨target.sid, .unsupported, noGuarantee,
          some "SESSION_CAPABILITY_UNSUPPORTED"⟩]))

/-- The answer of `registry.list` is taken up. -/
def choose (s : Process) (index : Nat) (call : Call) (all : List SessionRegistration) (now : Nat) :
    Process :=
  let chosen := targets all call.context.currentSessionId call.command
  if chosen = [] then throws s index call ⟨"SESSION_NOT_FOUND", 404⟩
  else if (chosen.any fun item => item.sharedAnchor) = true ∧
      SessionAuthority.identityManage ∉ call.context.authorities then
    throws s index call ⟨"SESSION_FORBIDDEN", 403⟩
  else { callTo s index call (.requested chosen) with
    audits := s.audits ++ [call.event .controlRequest none none now] }

/-- The answer of `registry.operation` is taken up. -/
def lookedUp (s : Process) (index : Nat) (call : Call) (existing : Option Operation) : Process :=
  match existing with
  | some existing =>
    if existing.requestHash ≠ call.requestHash then
      callTo s index call (.thrown ⟨"SESSION_IDEMPOTENCY_CONFLICT", 409⟩)
    else callTo s index call (.returned existing.result)
  | none =>
    match s.inFlight.get? call.key with
    | some inFlight =>
      if inFlight.requestHash ≠ call.requestHash then
        callTo s index call (.thrown ⟨"SESSION_IDEMPOTENCY_CONFLICT", 409⟩)
      else callTo s index call (.waiting inFlight.owner)
    | none => { callTo s index call .listing with
        inFlight := s.inFlight.set call.key ⟨call.requestHash, index⟩ }

def reportType (status : MutationStatus) : AuditType :=
  match status with
  | .failed => .failure
  | .pending => .pending
  | _ => .result

def continueCall (s : Process) (index now : Nat) (call : Call) : Option Process :=
  match call.phase with
  | .found existing => some (lookedUp s index call existing)
  | .waiting owner =>
    match (s.calls[owner]?).map Call.phase with
    | some (.returned result) => some (callTo s index call (.returned result))
    | some (.thrown error) => some (callTo s index call (.thrown error))
    | _ => none
  | .listed all => some (choose s index call all now)
  | .requested chosen => some (turn s index call chosen [] now)
  | .attempting target rest results =>
    some { callTo s index call (.revoking target rest results) with
      revocations := s.revocations ++
        [(call.key, ⟨call.command.operationId, call.command.action, target⟩)] }
  | .updated rest results => some (turn s index call rest results now)
  | .saved result => some { callTo s index call (.reporting result) with
      audits := s.audits ++ [call.event (reportType result.status) none (some result.status) now] }
  | .reporting result => some { callTo s index call (.returned result) with
      inFlight := s.inFlight.delete call.key }
  | _ => none

/-- The answer of the provider is taken up; none says that it throws. -/
def answer (s : Process) (index now : Nat) (call : Call)
    (given : Option ProviderRevocationResult) : Option Process :=
  match call.phase with
  | .revoking target rest results =>
    let provided := given.getD outage
    if validGuarantee provided.guarantee = false then
      some (throws s index call ⟨"SESSION_INVALID", 400⟩)
    else some (callTo s index call (.updating (afterAnswer target provided now) rest
      (results ++ [⟨target.sid, provided.status, provided.guarantee, provided.errorCode⟩])))
  | _ => none

/-- The registry runs what it was asked; `rows` is what `list` answers, each session once. -/
def registry (s : Process) (index : Nat) (call : Call) (rows : List SessionRegistration) :
    Option Process :=
  match call.phase with
  | .looking => some (callTo s index call (.found (s.operations.get? call.key)))
  | .listing =>
    if (rows.map SessionRegistration.sid).Nodup then some (callTo s index call (.listed rows))
    else none
  | .updating target rest results => some { callTo s index call (.updated rest results) with
      updates := s.updates ++ [target] }
  | .saving operation => some { callTo s index call (.saved operation.result) with
      operations := s.operations.saveOperation operation }
  | _ => none

/-- What a call does before its first `await`. -/
def firstPhase (validateUuid : String → Bool) (context : TrustedSessionContext)
    (command : SessionControlCommand) : Phase :=
  match validateCommand validateUuid command with
  | .error error => .thrown error
  | .ok () =>
    match authorize context (command.scope.getD .tenant)
        (command.targetSubjectId.getD context.subjectId) with
    | .error error => .thrown error
    | .ok () => .looking

inductive Label where
  | execute (context : TrustedSessionContext) (command : SessionControlCommand)
    (requestHash : String)
  /-- The registry runs what a call has asked of it. -/
  | registry (index : Nat) (rows : List SessionRegistration)
  | answer (index now : Nat) (given : Option ProviderRevocationResult)
  /-- A call goes on. -/
  | continue_ (index now : Nat)

def step (validateUuid : String → Bool) (s : Process) : Label → Option Process
  | .execute context command requestHash => some { s with
      calls := s.calls ++
        [⟨context, command, requestHash, firstPhase validateUuid context command⟩] }
  | .registry index rows => (s.calls[index]?).bind fun call => registry s index call rows
  | .answer index now given => (s.calls[index]?).bind fun call => answer s index now call given
  | .continue_ index now => (s.calls[index]?).bind fun call => continueCall s index now call

end Stynx.SessionControl
