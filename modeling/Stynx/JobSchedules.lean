import Stynx.Cron
import Stynx.JobQueue

/-!
# Schedules of jobs

`materialize` and `setScheduleEnabled` of `packages/jobs/src/jobs.repository.ts` over the table
`jobs.schedules`, beside the steps of the job queue. A tick is a transaction: it locks the
rows that are due and that no other tick has locked, takes them one after the other, and what
it has written is seen when it commits. A statement on a locked row waits, and so does an
insertion with the key of a job that a tick has inserted.
-/

namespace Stynx.JobSchedules

open IsoInstants TransitionRuns

/-- A date that is not invalid. -/
abbrev Instant := { time : Nat // time ≤ maxTime }

/-- The kind of a schedule, with the column that `schedules_cron_fields` asks for. -/
inductive Recurrence where
  | cron (expression timezone : String)
  | interval (seconds : Nat) (positive : 0 < seconds)

structure ScheduleRecord where
  id : String
  tenantId : String
  jobType : String
  /-- `kind`, `cron_expression`, `timezone` and `interval_seconds`. -/
  recurrence : Recurrence
  /-- `payload`, as JSON text. -/
  payload : String
  priority : Int
  maxAttempts : Nat
  actorId : Option String
  isEnabled : Bool := true
  disabledReason : Option String := none
  nextRunAt : Instant
  lastEnqueuedAt : Option Nat := none
  updatedAt : Nat

/-- The rows by identifier. -/
abbrev Schedules := OrderedMap String ScheduleRecord

/-- What the computation of the next occurrence comes to. -/
inductive Occurrence where
  | «at» (next : Instant)
  /-- `InvalidCronExpressionError`. -/
  | invalid
  /-- Another error: an invalid date is shown in a zone or sent to the database. -/
  | throws

/-- A date, or the error that sending an invalid one makes. -/
def dated (time : Nat) : Occurrence := if h : time ≤ maxTime then .at ⟨time, h⟩ else .throws

/-- The occurrence after one; a search that leaves the range finds nothing in UTC and throws in a
zone. -/
def occurrence (zones : Cron.Zones) (recurrence : Recurrence) (time : Instant) : Occurrence :=
  match recurrence with
  | .cron expression timezone =>
    if Cron.searchEnd time.val ≤ maxTime then
      match Cron.nextCronRunAt zones expression time.val timezone with
      | some next => dated next.toNat
      | none => .invalid
    else if timezone = "UTC" ∨ (Cron.parseCronExpression expression).isNone ∨
        (Cron.formatter zones timezone).isNone then .invalid
    else .throws
  | .interval seconds _ => dated (time.val + seconds * 1000)

def occurrenceKey (id : String) (time : Instant) : String :=
  "schedule:" ++ id ++ ":" ++ String.ofList (toISOString time.val)

def occurrenceJob (schedule : ScheduleRecord) : JobQueue.NewJob where
  tenantId := schedule.tenantId
  scheduleId := some schedule.id
  jobType := schedule.jobType
  payload := schedule.payload
  runAt := schedule.nextRunAt.val
  priority := schedule.priority
  maxAttempts := schedule.maxAttempts
  idempotencyKey := some (occurrenceKey schedule.id schedule.nextRunAt)
  actorId := schedule.actorId

/-- What a tick writes for a schedule. -/
inductive Write where
  | disable (now : Nat)
  /-- The job is inserted and the schedule goes on to the next occurrence. -/
  | advance (next : Instant) (jobId : String) (insertedAt now : Nat)

/-- A schedule that a tick has taken: the row as it was read, and what is written. -/
structure Done where
  schedule : ScheduleRecord
  write : Write

/-- A tick. One that has ended holds nothing. -/
structure Tick where
  due : List ScheduleRecord := []
  done : List Done := []

def Tick.locked (tick : Tick) : List String :=
  tick.due.map ScheduleRecord.id ++ tick.done.map fun done => done.schedule.id

/-- The queue, the schedules and the ticks of all schedulers. -/
structure State where
  queue : JobQueue.Queue := {}
  /-- The rows of `jobs.schedules`. -/
  schedules : Schedules := .empty
  ticks : List Tick := []

def locked (s : State) (id : String) : Bool := s.ticks.any fun tick => decide (id ∈ tick.locked)

/-- Whether an insertion waits for a tick that has inserted a job with the key. -/
def waits (ticks : List Tick) (input : JobQueue.NewJob) : Bool :=
  ticks.any fun tick => tick.done.any fun done =>
    match done.write with
    | .disable _ => false
    | .advance _ jobId insertedAt _ =>
      JobQueue.conflicts input (JobQueue.newRow jobId (occurrenceJob done.schedule) insertedAt)

/-- The condition of `materialize` on a row. -/
def due (schedule : ScheduleRecord) (now : Nat) : Bool :=
  schedule.isEnabled && (schedule.actorId.isSome && decide (schedule.nextRunAt.val ≤ now))

/-- The rows that a tick selects: due, not locked, at most `limit`. -/
def selectable (s : State) (limit now : Nat) (ids : List String) : Bool :=
  decide (ids.length ≤ limit) && decide ids.Nodup && ids.all fun id =>
    !locked s id && (s.schedules.get? id).any fun schedule => due schedule now

def disabledRow (schedule : ScheduleRecord) (now : Nat) : ScheduleRecord :=
  { schedule with
    isEnabled := false
    disabledReason := some "invalid_schedule"
    updatedAt := now }

def advancedRow (schedule : ScheduleRecord) (next : Instant) (now : Nat) : ScheduleRecord :=
  { schedule with
    nextRunAt := next
    lastEnqueuedAt := some now
    updatedAt := now }

/-- What a tick has written for a schedule is seen. -/
def write (s : State) (done : Done) : Option State :=
  match done.write with
  | .disable now => some { s with
      schedules := s.schedules.set done.schedule.id (disabledRow done.schedule now) }
  | .advance next jobId insertedAt now =>
    (JobQueue.step s.queue (.insert jobId (occurrenceJob done.schedule) insertedAt)).map fun queue =>
      { s with
        queue := queue
        schedules := s.schedules.set done.schedule.id (advancedRow done.schedule next now) }

/-- Whether `setScheduleEnabled` writes: an actor is needed, and no reason against it. -/
def resumable (schedule : ScheduleRecord) : Bool :=
  schedule.actorId.isSome && schedule.disabledReason.getD "" == ""

def setScheduleEnabled (schedules : Schedules) (id tenantId : String) (enabled : Bool)
    (now : Nat) : Schedules :=
  match schedules.get? id with
  | some schedule =>
    if schedule.tenantId = tenantId ∧ (enabled = true → resumable schedule = true) then
      schedules.set id { schedule with isEnabled := enabled, updatedAt := now }
    else schedules
  | none => schedules

inductive Label where
  | queue (label : JobQueue.Label)
  /-- A tick selects and locks rows. -/
  | begin (limit now : Nat) (ids : List String)
  /-- A tick takes the next row. -/
  | turn (index : Nat) (jobId : String) (insertedAt now : Nat)
  | commit (index : Nat)
  /-- A tick is rolled back. -/
  | abort (index : Nat)
  /-- A pause or a resume. -/
  | setEnabled (id tenantId : String) (enabled : Bool) (now : Nat)

def held (ticks : List Tick) : JobQueue.Label → Bool
  | .insert _ input _ => waits ticks input
  | _ => false

def Tick.take (zones : Cron.Zones) (tick : Tick) (ticks : List Tick) (jobId : String)
    (insertedAt now : Nat) : Option Tick :=
  match tick.due with
  | [] => none
  | schedule :: rest =>
    match occurrence zones schedule.recurrence schedule.nextRunAt with
    | .invalid => some ⟨rest, tick.done ++ [⟨schedule, .disable now⟩]⟩
    | .throws => some {}
    | .at next =>
      if waits ticks (occurrenceJob schedule) then none
      else some ⟨rest, tick.done ++ [⟨schedule, .advance next jobId insertedAt now⟩]⟩

def step (zones : Cron.Zones) (s : State) : Label → Option State
  | .queue label =>
    if held s.ticks label then none
    else (JobQueue.step s.queue label).map fun queue => { s with queue := queue }
  | .begin limit now ids =>
    if selectable s limit now ids then
      some { s with ticks := s.ticks ++ [{ due := ids.filterMap fun id => s.schedules.get? id }] }
    else none
  | .turn index jobId insertedAt now =>
    (s.ticks[index]?).bind fun tick =>
      (tick.take zones s.ticks jobId insertedAt now).map fun next =>
        { s with ticks := s.ticks.set index next }
  | .commit index =>
    (s.ticks[index]?).bind fun tick =>
      if tick.due = [] then tick.done.foldlM write { s with ticks := s.ticks.set index {} }
      else none
  | .abort index =>
    (s.ticks[index]?).map fun _ => { s with ticks := s.ticks.set index {} }
  | .setEnabled id tenantId enabled now =>
    if locked s id then none
    else some { s with
      schedules := setScheduleEnabled s.schedules id tenantId enabled now }

theorem val_of_dated {time : Nat} {next : Instant} (h : dated time = .at next) :
    next.val = time := by
  unfold dated at h
  split at h
  · cases h
    rfl
  · cases h

theorem lt_of_occurrence {zones : Cron.Zones} {recurrence : Recurrence} {time next : Instant}
    (h : occurrence zones recurrence time = .at next) : time.val < next.val := by
  unfold occurrence at h
  split at h
  case h_1 expression timezone =>
    split at h
    · split at h
      case h_1 found hfound =>
        have hlt := (Cron.nextCronRunAt_bounds hfound).1
        have hval := val_of_dated h
        omega
      case h_2 => cases h
    · split at h <;> cases h
  case h_2 seconds positive =>
    have hval := val_of_dated h
    omega

theorem occurrenceKey_injective {id id' : String} {time time' : Instant}
    (h : occurrenceKey id time = occurrenceKey id' time') : id = id' ∧ time = time' := by
  have hlist := congrArg String.toList h
  simp only [occurrenceKey, String.toList_append, String.toList_ofList, List.append_assoc] at hlist
  obtain ⟨hid, htime⟩ := append_toISOString_injective time.property time'.property
    (List.append_cancel_left hlist)
  exact ⟨String.toList_inj.mp hid, Subtype.ext htime⟩

theorem prefix_occurrenceKey (id : String) (time : Instant) :
    "schedule:".toList <+: (occurrenceKey id time).toList := by
  simp only [occurrenceKey, String.toList_append, List.append_assoc]
  exact List.prefix_append _ _

end Stynx.JobSchedules
