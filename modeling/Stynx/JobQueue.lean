import Mathlib.Data.Rat.Floor
import Stynx.OrderedMap
import Stynx.TransitionRuns

/-!
# The job queue

`packages/jobs/src/jobs.repository.ts` and `jobs.worker.ts` over the table `jobs.jobs` of
`0018_jobs.sql`. A statement is one step and reads the clock of the database once. A call
of `execute` is cut where it waits: for the membership of the actor, for the handler
and for the statement that records its outcome, which a stopped process never sends.
-/

namespace Stynx.JobQueue

open TransitionRuns

inductive JobStatus where
  | pending
  | running
  | succeeded
  | failed
  | deadLetter
  | canceled
  deriving DecidableEq

structure JobRecord where
  id : String
  tenantId : String
  scheduleId : Option String := none
  jobType : String
  /-- `payload`, as JSON text. -/
  payload : String
  status : JobStatus := .pending
  priority : Int
  attempts : Nat := 0
  maxAttempts : Nat
  runAt : Nat
  lockedBy : Option String := none
  lockedUntil : Option Nat := none
  startedAt : Option Nat := none
  finishedAt : Option Nat := none
  lastError : Option String := none
  deadLetterReason : Option String := none
  idempotencyKey : Option String := none
  actorId : Option String := none
  createdAt : Nat
  updatedAt : Nat

/-- The rows by identifier. -/
abbrev Jobs := OrderedMap String JobRecord

/-- The input of `insertJob`. -/
structure NewJob where
  tenantId : String
  jobType : String
  payload : String
  runAt : Nat
  priority : Int
  maxAttempts : Nat
  idempotencyKey : Option String := none
  actorId : Option String := none
  scheduleId : Option String := none

/-- A row has the key of an input: the unique index `idx_jobs_jobs_idempotency`. -/
def conflicts (input : NewJob) (job : JobRecord) : Bool :=
  input.idempotencyKey.isSome && (job.idempotencyKey == input.idempotencyKey &&
    (job.tenantId == input.tenantId && job.jobType == input.jobType))

def newRow (id : String) (input : NewJob) (now : Nat) : JobRecord where
  id := id
  tenantId := input.tenantId
  scheduleId := input.scheduleId
  jobType := input.jobType
  payload := input.payload
  priority := input.priority
  maxAttempts := input.maxAttempts
  runAt := input.runAt
  idempotencyKey := input.idempotencyKey
  actorId := input.actorId
  createdAt := now
  updatedAt := now

def insertJob (jobs : Jobs) (id : String) (input : NewJob) (now : Nat) : Jobs :=
  match jobs.values.find? (conflicts input) with
  | some job => jobs.set job.id { job with updatedAt := now }
  | none => jobs.set id (newRow id input now)

/-- The condition of `claim` on a row. -/
def due (job : JobRecord) (now : Nat) : Bool :=
  job.status = .pending && decide (job.runAt ≤ now) ||
    job.status = .running && job.lockedUntil.any fun lockedUntil => lockedUntil ≤ now

def claimedRow (job : JobRecord) (workerId : String) (visibilityTimeoutMs now : Nat) : JobRecord :=
  { job with
    status := .running
    attempts := job.attempts + 1
    lockedBy := some workerId
    lockedUntil := some (now + visibilityTimeoutMs)
    startedAt := some (job.startedAt.getD now)
    updatedAt := now }

/-- `claim`: the rows that are due and that no other statement has locked, at most `limit`. -/
def claimable (jobs : Jobs) (limit now : Nat) (ids : List String) : Bool :=
  decide (ids.length ≤ limit) && decide ids.Nodup &&
    ids.all fun id => (jobs.get? id).any fun job => due job now

def claim (jobs : Jobs) (workerId : String) (visibilityTimeoutMs now : Nat) (ids : List String) :
    Jobs :=
  jobs.mapValues fun id job =>
    if id ∈ ids then claimedRow job workerId visibilityTimeoutMs now else job

def cut (error : String) : String := String.ofList (error.toList.take 4000)

/-- What a worker records of an execution. -/
inductive Report where
  | succeed
  | fail (error : String) (retryAt : Option Nat)
  | deadLetter (reason : String)

def Report.row (report : Report) (job : JobRecord) (now : Nat) : JobRecord :=
  match report with
  | .succeed => { job with
      status := .succeeded
      lockedBy := none
      lockedUntil := none
      finishedAt := some now
      updatedAt := now }
  | .fail error none => { job with
      status := .deadLetter
      lockedBy := none
      lockedUntil := none
      finishedAt := some now
      lastError := some (cut error)
      deadLetterReason := some (cut error)
      updatedAt := now }
  | .fail error (some retryAt) => { job with
      status := .pending
      runAt := retryAt
      lockedBy := none
      lockedUntil := none
      finishedAt := none
      lastError := some (cut error)
      deadLetterReason := none
      updatedAt := now }
  | .deadLetter reason => { job with
      status := .deadLetter
      lockedBy := none
      lockedUntil := none
      finishedAt := some now
      deadLetterReason := some reason
      updatedAt := now }

def heldBy (job : JobRecord) (workerId : String) : Bool :=
  job.lockedBy == some workerId && job.status = .running

/-- Whether a report finds its row. -/
def finds (jobs : Jobs) (id workerId : String) : Bool :=
  (jobs.get? id).any fun job => heldBy job workerId

def record (jobs : Jobs) (id workerId : String) (report : Report) (now : Nat) : Jobs :=
  match jobs.get? id with
  | some job => if heldBy job workerId then jobs.set id (report.row job now) else jobs
  | none => jobs

def cancel (jobs : Jobs) (id tenantId : String) (now : Nat) : Jobs :=
  match jobs.get? id with
  | some job =>
    if job.tenantId = tenantId ∧ (job.status = .pending ∨ job.status = .running) then
      jobs.set id { job with status := .canceled, finishedAt := some now, updatedAt := now }
    else jobs
  | none => jobs

/-- Where an execution stands. -/
inductive Phase where
  | claimed
  /-- It asks for the membership of the actor. -/
  | checking
  | handling
  | reporting (report : Report)
  /-- The report has been executed, and has found its row or not. -/
  | reported (report : Report) (found : Bool)
  /-- It reports nothing: its process has stopped, or the report has failed. -/
  | lost

/-- An execution of a claimed job. -/
structure Execution where
  /-- The job, as `claim` has returned it. -/
  job : JobRecord
  workerId : String
  phase : Phase
  started : Bool := false

structure Queue where
  jobs : Jobs := .empty
  /-- The executions, in the order of the claims. -/
  executions : List Execution := []

def defaultBackoff : Nat × Nat × Nat := (1000, 300000, 2)

/-- `computeBackoffMs`, with the number that has been drawn. -/
def computeBackoffMs (policy : Nat × Nat × Nat) (attempt : Nat) (random : Rat) : Nat :=
  let ceiling := min policy.2.1 (policy.1 * policy.2.2 ^ (attempt - 1))
  ⌊random * (ceiling + 1 : Nat)⌋.toNat

def failure (job : JobRecord) (error : String) (now : Nat) (random : Rat) : Report :=
  .fail error (if job.attempts ≥ job.maxAttempts then none
    else some (now + computeBackoffMs defaultBackoff job.attempts random))

/-- An execution goes to another place. -/
def Execution.to (execution : Execution) (phase : Phase) : Execution :=
  { execution with phase := phase }

/-- What an execution takes up. -/
inductive Event where
  /-- The claim returns: whether there is a handler for the type. -/
  | claimed (known : Bool)
  | member (active : Bool)
  | handled
  /-- The handler throws, or the question for the membership fails. -/
  | thrown (error : String)

/-- `execute`, with the clock of the worker and the number that a backoff draws. -/
def Execution.take (execution : Execution) (now : Nat) (random : Rat) (event : Event) :
    Option Execution :=
  let job := execution.job
  match execution.phase, event with
  | .claimed, .claimed known =>
    if job.tenantId = "" ∨ job.actorId.getD "" = "" then
      some (execution.to (.reporting (.deadLetter "missing_actor")))
    else if known then some (execution.to .checking)
    else some (execution.to (.reporting
      (failure job ("No handler registered for job type: " ++ job.jobType) now random)))
  | .checking, .member active =>
    if active then some { execution with phase := .handling, started := true }
    else some (execution.to (.reporting (.deadLetter "inactive_actor_membership")))
  | .handling, .handled => some (execution.to (.reporting .succeed))
  | .checking, .thrown error => some (execution.to (.reporting (failure job error now random)))
  | .handling, .thrown error => some (execution.to (.reporting (failure job error now random)))
  | _, _ => none

/-- An execution that may still report. -/
def Phase.live : Phase → Bool
  | .reported _ _ | .lost => false
  | _ => true

inductive Label where
  | insert (id : String) (input : NewJob) (now : Nat)
  | cancel (id tenantId : String) (now : Nat)
  /-- The claim of a `tick`; `ids` are the rows that it takes. -/
  | claim (workerId : String) (limit visibilityTimeoutMs now : Nat) (ids : List String)
  | execute (index now : Nat) (random : Rat) (event : Event)
  /-- The report of an execution is executed. -/
  | report (index now : Nat)
  /-- An execution is lost. -/
  | lose (index : Nat)

def step (s : Queue) : Label → Option Queue
  | .insert id input now =>
    if s.jobs.has id then none else some { s with jobs := insertJob s.jobs id input now }
  | .cancel id tenantId now => some { s with jobs := JobQueue.cancel s.jobs id tenantId now }
  | .claim workerId limit visibilityTimeoutMs now ids =>
    if claimable s.jobs limit now ids then
      let jobs := JobQueue.claim s.jobs workerId visibilityTimeoutMs now ids
      some {
        jobs := jobs
        executions := s.executions ++ (ids.filterMap fun id => jobs.get? id).map fun job =>
          { job := job, workerId := workerId, phase := .claimed } }
    else none
  | .execute index now random event =>
    (s.executions[index]?).bind fun execution =>
      (execution.take now random event).map fun next =>
        { s with executions := s.executions.set index next }
  | .report index now =>
    (s.executions[index]?).bind fun execution =>
      match execution.phase with
      | .reporting report => some {
          jobs := record s.jobs execution.job.id execution.workerId report now
          executions := s.executions.set index (execution.to
            (.reported report (finds s.jobs execution.job.id execution.workerId))) }
      | _ => none
  | .lose index =>
    (s.executions[index]?).bind fun execution =>
      if execution.phase.live then
        some { s with executions := s.executions.set index (execution.to .lost) }
      else none

end Stynx.JobQueue
