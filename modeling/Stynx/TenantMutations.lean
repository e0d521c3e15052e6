import Stynx.Microtasks
import Stynx.OrderedMap

/-!
# Admission of mutations of a tenant

`mutateTenant` of `packages/offline-sync/src/in-memory-offline-sync.store.ts`. A root call waits
for the gate of the last exclusive call, and an exclusive call for the gates of the shared calls
before it, too. A gate is a reaction to the result of an operation, and so is the rest of the
call.

A step is a call up to its first `await`, a job, or something that an operation does between
jobs.
-/

namespace Stynx.TenantMutations

open Microtasks

inductive PromiseId where
  /-- `Promise.resolve()`, fulfilled from the start. -/
  | resolved
  | all (call : Nat)
  | operation (call : Nat)
  | result (call : Nat)
  | gate (call : Nat)
  deriving DecidableEq

inductive Reaction where
  | element (call index : Nat) (source : PromiseId)
  | run (call : Nat) (admitted : PromiseId)
  /-- The job by which `result` subscribes to what the operation returns. -/
  | resolveThenable (call : Nat)
  /-- `result` follows what the operation returns. -/
  | adopt (call : Nat)
  | settleGate (call : Nat)
  /-- What follows `await result`. -/
  | finish (call : Nat)

def Reaction.source : Reaction → Option PromiseId
  | .element _ _ source => some source
  | .run _ admitted => some admitted
  | .resolveThenable _ => none
  | .adopt call => some (.operation call)
  | .settleGate call => some (.result call)
  | .finish call => some (.result call)

/-- Where a call stands. -/
inductive Phase where
  | waiting
  /-- From the start of its operation. -/
  | running
  | committed
  | rolledBack
  deriving DecidableEq

/-- A root call, known by its index. -/
structure Call where
  tenantId : String
  exclusive : Bool
  /-- The promises that its admission waits for. -/
  sources : List PromiseId
  /-- `readers`, a reference to a set. -/
  readers : Nat
  phase : Phase := .waiting

/-- Calls and tables; a gate is the index of its call. -/
structure Admissions where
  calls : List Call := []
  tenantGate : OrderedMap String Nat := .empty
  sharedMutations : OrderedMap String Nat := .empty
  sets : List (List Nat) := []

/-- Promises beside calls. -/
structure State extends Admissions where
  tasks : Tasks PromiseId Reaction := ({} : Tasks PromiseId Reaction).settle .resolved true
  /-- The elements of `Promise.all(…)` without a value. -/
  missing : Nat → List Nat := fun _ => []
  /-- The open frames that the frame of a call owns. -/
  children : Nat → Nat := fun _ => 0

inductive Label where
  /-- A root call. -/
  | request (tenantId : String) (exclusive : Bool)
  | job
  /-- An operation opens a frame of its own. -/
  | openFrame (call : Nat)
  /-- A frame that an operation has opened ends. -/
  | closeFrame (call : Nat)
  /-- An operation returns, or throws. -/
  | settle (call : Nat) (succeeds : Bool)

/-- The promise that comes before a call: `previous`. -/
def Admissions.previous (s : Admissions) (tenantId : String) : PromiseId :=
  match s.tenantGate.get? tenantId with
  | some last => .gate last
  | none => .resolved

def Admissions.sharedGates (s : Admissions) (tenantId : String) : List PromiseId :=
  match (s.sharedMutations.get? tenantId).bind fun readers => s.sets[readers]? with
  | some readers => readers.map .gate
  | none => []

/-- `mutateTenant` enters the call in the tables. -/
def Admissions.enter (s : Admissions) (tenantId : String) (exclusive : Bool) : Admissions :=
  let call := s.calls.length
  let readers := (s.sharedMutations.get? tenantId).getD s.sets.length
  let sources := if exclusive then s.previous tenantId :: s.sharedGates tenantId
    else [s.previous tenantId]
  let entry : Call :=
    { tenantId := tenantId, exclusive := exclusive, sources := sources, readers := readers }
  let calls := s.calls ++ [entry]
  if exclusive then { s with calls, tenantGate := s.tenantGate.set tenantId call }
  else { s with
    calls
    sharedMutations := s.sharedMutations.set tenantId readers
    sets :=
      if s.sharedMutations.has tenantId then s.sets.modify readers (List.insert call)
      else s.sets ++ [[call]] }

def subscribeElements (tasks : Tasks PromiseId Reaction) (call : Nat) :
    Nat → List PromiseId → Tasks PromiseId Reaction
  | _, [] => tasks
  | index, source :: rest =>
    subscribeElements (tasks.subscribe source (.element call index source)) call (index + 1) rest

/-- `mutateTenant` up to `await result`. -/
def request (s : State) (tenantId : String) (exclusive : Bool) : State :=
  let call := s.calls.length
  let previous := s.previous tenantId
  let sources := previous :: s.sharedGates tenantId
  let admitted := if exclusive then .all call else previous
  let tasks := if exclusive then subscribeElements s.tasks call 0 sources else s.tasks
  let tasks := tasks.subscribe admitted (.run call admitted)
  let tasks := tasks.subscribe (.result call) (.settleGate call)
  { s with
    toAdmissions := s.enter tenantId exclusive
    tasks := tasks.subscribe (.result call) (.finish call)
    missing := Function.update s.missing call (if exclusive then List.range sources.length else [])
    children := Function.update s.children call 0 }

def Admissions.put (s : Admissions) (index : Nat) (call : Call) (phase : Phase) : Admissions :=
  { s with calls := s.calls.set index { call with phase } }

/-- An element of `Promise.all(…)` has a value, or is rejected. -/
def resolveElement (s : State) (call index : Nat) (fulfilled : Bool) : State :=
  if fulfilled then
    let missing := (s.missing call).filter (· ≠ index)
    { s with
      missing := Function.update s.missing call missing
      tasks := if missing = [] then s.tasks.settle (.all call) true else s.tasks }
  else { s with tasks := s.tasks.settle (.all call) false }

def Admissions.leave (s : Admissions) (index : Nat) (call : Call) : Admissions :=
  if call.exclusive then
    { s with
      tenantGate :=
        if s.tenantGate.get? call.tenantId = some index then s.tenantGate.delete call.tenantId
        else s.tenantGate }
  else
    let sets := s.sets.modify call.readers fun readers => readers.filter (· ≠ index)
    { s with
      sets
      sharedMutations :=
        if sets[call.readers]? = some [] then s.sharedMutations.delete call.tenantId
        else s.sharedMutations }

/-- After `await result` the frame is committed, unless it is incomplete or the operation has
thrown. -/
def finish (s : State) (index : Nat) (call : Call) (fulfilled : Bool) : State :=
  let complete := s.children index == 0
  let phase := if fulfilled && complete then .committed else .rolledBack
  { s with toAdmissions := (s.put index call phase).leave index call }

def runJob (s : State) (fulfilled : Bool) : Reaction → Option State
  | .element call index _ => some (resolveElement s call index fulfilled)
  | .run index _ => (s.calls[index]?).map fun call =>
    { s with
      toAdmissions := s.put index call .running
      tasks := s.tasks.enqueue (.resolveThenable index) }
  | .resolveThenable call =>
    some { s with tasks := s.tasks.subscribe (.operation call) (.adopt call) }
  | .adopt call => some { s with tasks := s.tasks.settle (.result call) fulfilled }
  | .settleGate call => some { s with tasks := s.tasks.settle (.gate call) true }
  | .finish index => (s.calls[index]?).map fun call => finish s index call fulfilled

/-- The call is between its start and its end. -/
def State.isRunning (s : State) (index : Nat) : Bool :=
  (s.calls[index]?).any fun call => call.phase == .running

def step (s : State) : Label → Option State
  | .request tenantId exclusive => some (request s tenantId exclusive)
  | .job =>
    match s.tasks.queue with
    | [] => none
    | (reaction, fulfilled) :: rest =>
      runJob { s with tasks := { s.tasks with queue := rest } } fulfilled reaction
  | .openFrame call =>
    if s.isRunning call then
      some { s with children := Function.update s.children call (s.children call + 1) }
    else none
  | .closeFrame call =>
    if 0 < s.children call then
      some { s with children := Function.update s.children call (s.children call - 1) }
    else none
  | .settle call succeeds =>
    if s.isRunning call then
      some { s with tasks := s.tasks.settle (.operation call) succeeds }
    else none

end Stynx.TenantMutations
