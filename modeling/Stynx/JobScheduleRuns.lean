import Stynx.JobQueueRuns
import Stynx.JobSchedules

/-!
# Runs of the schedules

A locked row stays as its tick has read it, so a tick writes the occurrence after the value that is
stored; no other job has the key of that occurrence, because the walk goes strictly upwards.
-/

namespace Stynx.JobSchedules

open TransitionRuns CallTables JobQueue OrderedMap

/-- The occurrences from `start` up to the last, which has not been passed. -/
inductive Chain (zones : Cron.Zones) (recurrence : Recurrence) (start : Instant) :
    List Instant → Instant → Prop
  /-- None has been passed. -/
  | nil : Chain zones recurrence start [] start
  | snoc {passed : List Instant} {time next : Instant} : Chain zones recurrence start passed time →
    occurrence zones recurrence time = .at next → Chain zones recurrence start (passed ++ [time]) next

namespace Chain

variable {zones : Cron.Zones} {recurrence : Recurrence} {start last : Instant}
  {passed : List Instant}

theorem start_le (h : Chain zones recurrence start passed last) : start.val ≤ last.val := by
  induction h with
  | nil => exact le_rfl
  | snoc hchain hnext ih =>
    have hlt := lt_of_occurrence hnext
    omega

theorem lt_last (h : Chain zones recurrence start passed last) {time : Instant}
    (hmem : time ∈ passed) : time.val < last.val := by
  induction h with
  | nil => cases hmem
  | snoc hchain hnext ih =>
    have hlt := lt_of_occurrence hnext
    rcases mem_concat_iff.mp hmem with hold | rfl
    · have hbefore := ih hold
      omega
    · exact hlt

end Chain

/-- A row keeps what it was inserted for. -/
structure SameJob (job job' : JobRecord) : Prop where
  idempotencyKey : job'.idempotencyKey = job.idempotencyKey
  scheduleId : job'.scheduleId = job.scheduleId
  tenantId : job'.tenantId = job.tenantId
  jobType : job'.jobType = job.jobType
  payload : job'.payload = job.payload
  priority : job'.priority = job.priority
  maxAttempts : job'.maxAttempts = job.maxAttempts
  actorId : job'.actorId = job.actorId

theorem SameJob.refl (job : JobRecord) : SameJob job job :=
  ⟨rfl, rfl, rfl, rfl, rfl, rfl, rfl, rfl⟩

variable {id : String} {tick : Tick} {ids : List String} {now : Nat}

variable {label : JobQueue.Label} {job job' : JobRecord} {ticks : List Tick} {done : Done}
  {limit insertedAt index : Nat} {next : Tick} {jobId : String}

theorem sameJob_of_moves {queue : Queue} (h : RowMoves queue id label (some job) (some job')) :
    SameJob job job' := by
  cases h with
  | same => exact .refl job
  | touched => exact ⟨rfl, rfl, rfl, rfl, rfl, rfl, rfl, rfl⟩
  | canceled => exact ⟨rfl, rfl, rfl, rfl, rfl, rfl, rfl, rfl⟩
  | claimed => exact ⟨rfl, rfl, rfl, rfl, rfl, rfl, rfl, rfl⟩
  | reported index now execution report =>
    unfold Report.row
    split <;> exact ⟨rfl, rfl, rfl, rfl, rfl, rfl, rfl, rfl⟩

def Keyed (jobs : Jobs) (jobId id : String) (time : Instant) : Prop :=
  ∃ job, jobs.get? jobId = some job ∧ job.idempotencyKey = some (occurrenceKey id time)

structure Stands (schedule : ScheduleRecord) (time : Instant) (job : JobRecord) : Prop where
  key : job.idempotencyKey = some (occurrenceKey schedule.id time)
  scheduleId : job.scheduleId = some schedule.id
  tenantId : job.tenantId = schedule.tenantId
  jobType : job.jobType = schedule.jobType
  payload : job.payload = schedule.payload
  priority : job.priority = schedule.priority
  maxAttempts : job.maxAttempts = schedule.maxAttempts
  actorId : job.actorId = schedule.actorId

theorem Stands.same {schedule : ScheduleRecord} {time : Instant} (h : Stands schedule time job)
    (hsame : SameJob job job') : Stands schedule time job' where
  key := hsame.idempotencyKey.trans h.key
  scheduleId := hsame.scheduleId.trans h.scheduleId
  tenantId := hsame.tenantId.trans h.tenantId
  jobType := hsame.jobType.trans h.jobType
  payload := hsame.payload.trans h.payload
  priority := hsame.priority.trans h.priority
  maxAttempts := hsame.maxAttempts.trans h.maxAttempts
  actorId := hsame.actorId.trans h.actorId

/-- A row keeps what makes its occurrences and its jobs. -/
structure SameSchedule (row row' : ScheduleRecord) : Prop where
  id : row'.id = row.id
  tenantId : row'.tenantId = row.tenantId
  jobType : row'.jobType = row.jobType
  recurrence : row'.recurrence = row.recurrence
  payload : row'.payload = row.payload
  priority : row'.priority = row.priority
  maxAttempts : row'.maxAttempts = row.maxAttempts
  actorId : row'.actorId = row.actorId

theorem SameSchedule.refl (row : ScheduleRecord) : SameSchedule row row :=
  ⟨rfl, rfl, rfl, rfl, rfl, rfl, rfl, rfl⟩

theorem SameSchedule.trans {a b c : ScheduleRecord} (h : SameSchedule a b)
    (h' : SameSchedule b c) : SameSchedule a c :=
  ⟨h'.id.trans h.id, h'.tenantId.trans h.tenantId, h'.jobType.trans h.jobType,
    h'.recurrence.trans h.recurrence, h'.payload.trans h.payload, h'.priority.trans h.priority,
    h'.maxAttempts.trans h.maxAttempts, h'.actorId.trans h.actorId⟩

theorem stands_newRow {start row : ScheduleRecord} (h : SameSchedule start row) (jobId : String)
    (now : Nat) : Stands start row.nextRunAt (newRow jobId (occurrenceJob row) now) where
  key := by
    rw [← h.id]
    rfl
  scheduleId := congrArg some h.id
  tenantId := h.tenantId
  jobType := h.jobType
  payload := h.payload
  priority := h.priority
  maxAttempts := h.maxAttempts
  actorId := h.actorId

/-- A schedule that was `start` has passed some occurrences, and each of them has one job. -/
structure Passed (zones : Cron.Zones) (start row : ScheduleRecord) (jobs : Jobs)
    (passed : List Instant) : Prop where
  /-- The row is the one that it was, but for when it runs and whether. -/
  same : SameSchedule start row
  chain : Chain zones start.recurrence start.nextRunAt passed row.nextRunAt
  job : ∀ time ∈ passed, ∃ jobId job, jobs.get? jobId = some job ∧ Stands start time job
  unique : ∀ time ∈ passed, ∀ jobId jobId', Keyed jobs jobId start.id time →
    Keyed jobs jobId' start.id time → jobId = jobId'
  only : ∀ (time : Instant) jobId, start.nextRunAt.val ≤ time.val → Keyed jobs jobId start.id time →
    time ∈ passed

namespace Passed

variable {zones : Cron.Zones} {start row row' : ScheduleRecord} {jobs jobs' : Jobs}
  {passed : List Instant}

section

variable (h : Passed zones start row jobs passed)
include h

theorem of_row (hsame : SameSchedule row row') (hnext : row'.nextRunAt = row.nextRunAt) :
    Passed zones start row' jobs passed where
  same := h.same.trans hsame
  chain := hnext ▸ h.chain
  job := h.job
  unique := h.unique
  only := h.only

theorem of_jobs
    (hstay : ∀ jobId job, jobs.get? jobId = some job → ∃ job', jobs'.get? jobId = some job' ∧ SameJob job job')
    (horigin : ∀ jobId job', jobs'.get? jobId = some job' → (∃ job, jobs.get? jobId = some job ∧ SameJob job job') ∨ ∀ time, job'.idempotencyKey ≠ some (occurrenceKey start.id time)) :
    Passed zones start row jobs' passed := by
  have hkeyed : ∀ {jobId : String} {time : Instant}, Keyed jobs' jobId start.id time →
      Keyed jobs jobId start.id time := by
    intro jobId time ⟨job', hget', hkey⟩
    rcases horigin jobId job' hget' with ⟨job, hget, hsame⟩ | hnone
    · exact ⟨job, hget, hsame.idempotencyKey ▸ hkey⟩
    · exact absurd hkey (hnone time)
  refine ⟨h.same, h.chain, ?_, ?_, ?_⟩
  · intro time hmem
    obtain ⟨jobId, job, hget, hstands⟩ := h.job time hmem
    obtain ⟨job', hget', hsame⟩ := hstay jobId job hget
    exact ⟨jobId, job', hget', hstands.same hsame⟩
  · intro time hmem jobId jobId' hone htwo
    exact h.unique time hmem jobId jobId' (hkeyed hone) (hkeyed htwo)
  · intro time jobId hle hone
    exact h.only time jobId hle (hkeyed hone)

theorem next_free (jobId : String) : ¬ Keyed jobs jobId start.id row.nextRunAt := by
  intro hkeyed
  have hmem := h.only row.nextRunAt jobId h.chain.start_le hkeyed
  exact Nat.lt_irrefl _ (h.chain.lt_last hmem)

theorem insertJob_eq (jobId : String) (now : Nat) : insertJob jobs jobId (occurrenceJob row) now =
      jobs.set jobId (newRow jobId (occurrenceJob row) now) := by
  unfold insertJob
  split
  case h_1 job hfind =>
    obtain ⟨stored, hget⟩ := mem_values_iff.mp (List.mem_of_find?_eq_some hfind)
    have hconflicts := List.find?_some hfind
    simp only [conflicts, Bool.and_eq_true, beq_iff_eq] at hconflicts
    refine absurd ⟨job, hget, ?_⟩ (h.next_free stored)
    rw [hconflicts.2.1, ← h.same.id]
    rfl
  case h_2 => rfl

theorem advance {next : Instant} {jobId : String} (insertedAt now : Nat)
    (hfresh : jobs.get? jobId = none)
    (hnext : occurrence zones row.recurrence row.nextRunAt = .at next) :
    Passed zones start (advancedRow row next now)
      (jobs.set jobId (newRow jobId (occurrenceJob row) insertedAt))
      (passed ++ [row.nextRunAt]) := by
  have hnew := stands_newRow h.same jobId insertedAt
  -- a job with a key of the schedule is an earlier one, or the new one
  have hkeyed : ∀ {found : String} {time : Instant},
      Keyed (jobs.set jobId (newRow jobId (occurrenceJob row) insertedAt)) found start.id time →
      (found = jobId ∧ time = row.nextRunAt) ∨ Keyed jobs found start.id time := by
    intro found time ⟨job, hget, hkey⟩
    rw [get?_set] at hget
    split at hget
    case isTrue hid =>
      cases hget
      rw [hnew.key] at hkey
      exact .inl ⟨hid.symm, ((occurrenceKey_injective (Option.some.inj hkey)).2).symm⟩
    case isFalse => exact .inr ⟨job, hget, hkey⟩
  refine ⟨h.same.trans ⟨rfl, rfl, rfl, rfl, rfl, rfl, rfl, rfl⟩, ?_, ?_, ?_, ?_⟩
  · exact .snoc h.chain (h.same.recurrence ▸ hnext)
  · intro time hmem
    rcases mem_concat_iff.mp hmem with hold | rfl
    · obtain ⟨found, job, hget, hstands⟩ := h.job time hold
      have hne : jobId ≠ found := by
        intro heq
        rw [heq, hget] at hfresh
        cases hfresh
      exact ⟨found, job, (get?_set_of_ne jobs _ hne).trans hget, hstands⟩
    · exact ⟨jobId, _, get?_set_self jobs jobId _, hnew⟩
  · intro time hmem one two hone htwo
    rcases hkeyed hone with ⟨hone, htime⟩ | hone
    · rcases hkeyed htwo with ⟨htwo, -⟩ | htwo
      · rw [hone, htwo]
      · exact absurd (htime ▸ htwo) (h.next_free two)
    · rcases hkeyed htwo with ⟨-, htime⟩ | htwo
      · exact absurd (htime ▸ hone) (h.next_free one)
      · rcases mem_concat_iff.mp hmem with hold | hlast
        · exact h.unique time hold one two hone htwo
        · exact absurd (hlast ▸ hone) (h.next_free one)
  · intro time found hle hone
    rcases hkeyed hone with ⟨-, htime⟩ | hone
    · rw [htime]
      exact List.mem_concat_self
    · exact List.mem_append_left _ (h.only time found hle hone)

end

end Passed

/-- The tables before a run. No job has the key of an occurrence that is still to come. -/
structure Tables where
  jobs : Jobs := .empty
  schedules : Schedules := .empty
  /-- Each job is stored under its identifier. -/
  jobs_named : Named jobs
  schedules_named : ∀ id row, schedules.get? id = some row → row.id = id
  /-- The occurrences that are still to come have no jobs. -/
  ahead : ∀ id row, schedules.get? id = some row → ∀ (time : Instant) jobId,
    row.nextRunAt.val ≤ time.val → ¬ Keyed jobs jobId id time

/-- The state before a run. -/
def Tables.start (tables : Tables) : State where
  queue := { jobs := tables.jobs }
  schedules := tables.schedules

/-- A client gives no key that begins like those of the schedules. -/
def ClientKeys (_ : State) : Label → Prop
  | .queue (.insert _ input _) =>
    ∀ key ∈ input.idempotencyKey, ¬ "schedule:".toList <+: key.toList
  | _ => True

instance (s : State) : ∀ label, Decidable (ClientKeys s label)
  | .queue (.insert _ input _) => inferInstanceAs (Decidable (∀ key ∈ input.idempotencyKey,
      ¬ "schedule:".toList <+: key.toList))
  | .queue (.cancel _ _ _) | .queue (.claim _ _ _ _ _) | .queue (.execute _ _ _ _)
  | .queue (.report _ _) | .queue (.lose _) | .begin _ _ _ | .turn _ _ _ _ | .commit _ | .abort _
  | .setEnabled _ _ _ _ => isTrue trivial

variable {zones : Cron.Zones} {tables : Tables} {s t : State}

structure Holds (zones : Cron.Zones) (tables : Tables) (s : State) : Prop where
  /-- Each job is stored under its identifier. -/
  jobs : Named s.queue.jobs
  stays : ∀ id start, tables.schedules.get? id = some start → ∃ row, s.schedules.get? id = some row
  /-- Each schedule has walked along its occurrences. -/
  passed : ∀ id row, s.schedules.get? id = some row → ∃ start times,
    tables.schedules.get? id = some start ∧ Passed zones start row s.queue.jobs times

theorem Holds.named (h : Holds zones tables s) {row : ScheduleRecord}
    (hget : s.schedules.get? id = some row) : row.id = id := by
  obtain ⟨start, times, hstart, hpassed⟩ := h.passed id row hget
  exact hpassed.same.id.trans (tables.schedules_named id start hstart)

theorem Holds.set (h : Holds zones tables s) {id : String} {row : ScheduleRecord}
    {queue : JobQueue.Queue} (hnamed : Named queue.jobs)
    (hself : ∃ start times, tables.schedules.get? id = some start ∧
      Passed zones start row queue.jobs times)
    (hothers : ∀ other start row times, other ≠ id → tables.schedules.get? other = some start →
      Passed zones start row s.queue.jobs times → Passed zones start row queue.jobs times) :
    Holds zones tables ⟨queue, s.schedules.set id row, ticks⟩ := by
  refine ⟨hnamed, fun other start hstart => ?_, fun other found hget => ?_⟩
  · obtain ⟨old, hold⟩ := h.stays other start hstart
    rw [get?_set]
    split
    · exact ⟨row, rfl⟩
    · exact ⟨old, hold⟩
  · rw [get?_set] at hget
    split at hget
    case isTrue hid =>
      cases hget
      exact hid ▸ hself
    case isFalse hid =>
      obtain ⟨start, times, hstart, hpassed⟩ := h.passed other found hget
      exact ⟨start, times, hstart,
        hothers other start found times (fun heq => hid heq.symm) hstart hpassed⟩

theorem Holds.queue (h : Holds zones tables s) {queue : JobQueue.Queue}
    (hclient : ClientKeys s (.queue label)) (hstep : JobQueue.step s.queue label = some queue) :
    Holds zones tables ⟨queue, s.schedules, ticks⟩ := by
  refine ⟨h.jobs.step hstep, h.stays, fun id row hget => ?_⟩
  obtain ⟨start, times, hstart, hpassed⟩ := h.passed id row hget
  refine ⟨start, times, hstart, hpassed.of_jobs ?_ ?_⟩
  · intro jobId job hjob
    obtain ⟨job', hjob'⟩ := row_stays h.jobs hstep hjob
    have hmoves := step_moves h.jobs hstep jobId
    rw [hjob, hjob'] at hmoves
    exact ⟨job', hjob', sameJob_of_moves hmoves⟩
  · intro jobId job' hjob'
    have hmoves := step_moves h.jobs hstep jobId
    rw [hjob'] at hmoves
    cases hbefore : s.queue.jobs.get? jobId with
    | some job =>
      rw [hbefore] at hmoves
      exact .inl ⟨job, rfl, sameJob_of_moves hmoves⟩
    | none =>
      rw [hbefore] at hmoves
      cases hmoves with
      | inserted input now =>
        refine .inr fun time hkey => ?_
        exact hclient _ hkey (prefix_occurrenceKey start.id time)

def Done.row (done : Done) : ScheduleRecord :=
  match done.write with
  | .disable now => disabledRow done.schedule now
  | .advance next _ _ now => advancedRow done.schedule next now

/-- A row that a tick writes is disabled, or goes on to the occurrence after the one that the tick
has read. -/
def Done.Computed (zones : Cron.Zones) (done : Done) : Prop :=
  match done.write with
  | .disable _ => True
  | .advance next _ _ _ =>
    occurrence zones done.schedule.recurrence done.schedule.nextRunAt = .at next

theorem write_spec (h : Holds zones tables s) (hcomputed : done.Computed zones)
    (hread : s.schedules.get? done.schedule.id = some done.schedule)
    (hwrite : write s done = some t) :
    Holds zones tables t ∧ t.ticks = s.ticks ∧
      t.schedules = s.schedules.set done.schedule.id done.row := by
  obtain ⟨start, times, hstart, hpassed⟩ := h.passed _ _ hread
  unfold write at hwrite
  unfold Done.Computed at hcomputed
  split at hwrite
  case h_1 now hdisable =>
    cases hwrite
    have hrow : done.row = disabledRow done.schedule now := by
      rw [Done.row, hdisable]
    refine ⟨h.set h.jobs ⟨start, times, hstart, ?_⟩ fun _ _ _ _ _ _ hother => hother, rfl, ?_⟩
    · exact hpassed.of_row ⟨rfl, rfl, rfl, rfl, rfl, rfl, rfl, rfl⟩ rfl
    · rw [hrow]
  case h_2 next jobId insertedAt now hadvance =>
    obtain ⟨queue, hinsert, rfl⟩ := Option.map_eq_some_iff.mp hwrite
    have hnamed := h.jobs.step hinsert
    have hrow : done.row = advancedRow done.schedule next now := by
      rw [Done.row, hadvance]
    rw [hadvance] at hcomputed
    rw [JobQueue.step] at hinsert
    split at hinsert
    case isTrue => cases hinsert
    case isFalse hnew =>
      have hfresh := get?_eq_none_of_not_has (Bool.eq_false_iff.mpr hnew)
      rw [hpassed.insertJob_eq] at hinsert
      cases hinsert
      refine ⟨h.set hnamed ⟨start, _, hstart, hpassed.advance insertedAt now hfresh hcomputed⟩ ?_,
        rfl, ?_⟩
      · -- the new job has the key of another schedule
        intro other first row passed hne hfirst hother
        refine hother.of_jobs ?_ ?_
        · intro found job hget
          have hdiffer : jobId ≠ found := by
            intro heq
            rw [heq, hget] at hfresh
            cases hfresh
          exact ⟨job, (get?_set_of_ne _ _ hdiffer).trans hget, .refl job⟩
        · intro found job hget
          rw [get?_set] at hget
          split at hget
          case isTrue =>
            cases hget
            refine .inr fun time hkey => hne ?_
            rw [← tables.schedules_named other first hfirst]
            exact (occurrenceKey_injective (Option.some.inj hkey)).1.symm
          case isFalse => exact .inl ⟨job, hget, .refl job⟩
      · rw [hrow]

theorem writes_spec {dones : List Done} (h : Holds zones tables s)
    (hcomputed : ∀ done ∈ dones, done.Computed zones)
    (hread : ∀ done ∈ dones, s.schedules.get? done.schedule.id = some done.schedule)
    (hnodup : (dones.map fun done => done.schedule.id).Nodup)
    (hwrites : dones.foldlM write s = some t) :
    Holds zones tables t ∧ t.ticks = s.ticks ∧
      (∀ id, id ∉ dones.map (fun done => done.schedule.id) →
        t.schedules.get? id = s.schedules.get? id) ∧
      ∀ done ∈ dones, t.schedules.get? done.schedule.id = some done.row := by
  induction dones generalizing s with
  | nil =>
    cases hwrites
    exact ⟨h, rfl, fun _ _ => rfl, fun _ hmem => by cases hmem⟩
  | cons first rest ih =>
    rw [List.foldlM_cons] at hwrites
    obtain ⟨mid, hfirst, hrest⟩ := Option.bind_eq_some_iff.mp hwrites
    obtain ⟨hmid, hticks, hset⟩ := write_spec h (hcomputed first (.head _))
      (hread first (.head _)) hfirst
    obtain ⟨hnot, hnodup⟩ := List.nodup_cons.mp hnodup
    have hframe : ∀ id, first.schedule.id ≠ id → mid.schedules.get? id = s.schedules.get? id := by
      intro id hne
      rw [hset, get?_set_of_ne _ _ hne]
    have hothers : ∀ done ∈ rest, mid.schedules.get? done.schedule.id = some done.schedule := by
      intro done hmem
      rw [hframe _ fun heq => hnot (List.mem_map.mpr ⟨done, hmem, heq.symm⟩)]
      exact hread done (.tail _ hmem)
    obtain ⟨hholds, hticks', hunchanged, hwritten⟩ := ih hmid
      (fun done hmem => hcomputed done (.tail _ hmem)) hothers hnodup hrest
    refine ⟨hholds, hticks'.trans hticks, fun id hid => ?_, fun done hmem => ?_⟩
    · rw [List.map_cons, List.mem_cons, not_or] at hid
      rw [hunchanged id hid.2, hframe id fun heq => hid.1 heq.symm]
    · rcases List.mem_cons.mp hmem with rfl | hmem
      · rw [hunchanged _ hnot, hset, get?_set_self]
      · exact hwritten done hmem

/-- The rows that a tick has locked are as it has read them. -/
structure Tick.Reads (zones : Cron.Zones) (schedules : Schedules) (tick : Tick) : Prop where
  /-- Those that are left. -/
  due : ∀ schedule ∈ tick.due, schedules.get? schedule.id = some schedule
  /-- Those that it has taken. -/
  done : ∀ done ∈ tick.done, schedules.get? done.schedule.id = some done.schedule
  computed : ∀ done ∈ tick.done, done.Computed zones

theorem Tick.reads_empty (schedules : Schedules) : Tick.Reads zones schedules {} where
  due schedule hmem := by cases hmem
  done done hmem := by cases hmem
  computed done hmem := by cases hmem

theorem Tick.Reads.of_frame {schedules schedules' : Schedules} (h : tick.Reads zones schedules)
    (hframe : ∀ id ∈ tick.locked, schedules'.get? id = schedules.get? id) :
    tick.Reads zones schedules' where
  due schedule hmem := by
    rw [hframe _ (List.mem_append_left _ (List.mem_map_of_mem hmem))]
    exact h.due schedule hmem
  done done hmem := by
    rw [hframe _ (List.mem_append_right _ (List.mem_map.mpr ⟨done, hmem, rfl⟩))]
    exact h.done done hmem
  computed := h.computed

structure Inv (zones : Cron.Zones) (tables : Tables) (s : State) : Prop where
  holds : Holds zones tables s
  locks : Exclusive Tick.locked s.ticks
  /-- Locked rows are as they were read. -/
  reads : ∀ (i : Nat) tick, s.ticks[i]? = some tick → tick.Reads zones s.schedules

def Advance (zones : Cron.Zones) (row row' : ScheduleRecord) : Prop :=
  row'.nextRunAt = row.nextRunAt ∨
    occurrence zones row.recurrence row.nextRunAt = .at row'.nextRunAt ∧
      row.nextRunAt.val < row'.nextRunAt.val

/-- What a step does to the schedules. -/
def Advances (zones : Cron.Zones) (s t : State) : Prop :=
  ∀ id row, s.schedules.get? id = some row →
    ∃ row', t.schedules.get? id = some row' ∧ Advance zones row row'

theorem advances_of_eq (h : t.schedules = s.schedules) : Advances zones s t :=
  fun _ row hget => ⟨row, h ▸ hget, .inl rfl⟩

theorem Done.advance (h : done.Computed zones) : Advance zones done.schedule done.row := by
  unfold Done.Computed at h
  unfold Done.row
  split
  case h_1 now hwrite => exact .inl rfl
  case h_2 next jobId insertedAt now hwrite =>
    rw [hwrite] at h
    exact .inr ⟨h, lt_of_occurrence h⟩

theorem not_mem_locked (h : locked s id = false) {i : Nat} (htick : s.ticks[i]? = some tick) :
    id ∉ tick.locked := by
  intro hmem
  have hany := List.any_eq_false.mp h tick (List.mem_of_getElem? htick)
  exact hany (decide_eq_true hmem)

theorem locked_selected (h : Holds zones tables s)
    (hrows : ∀ id ∈ ids, ∃ row, s.schedules.get? id = some row) :
    Tick.locked { due := ids.filterMap fun id => s.schedules.get? id } = ids := by
  simp only [Tick.locked, List.map_nil, List.append_nil]
  induction ids with
  | nil => rfl
  | cons first rest ih =>
    obtain ⟨row, hget⟩ := hrows first (.head _)
    have hrest := ih fun id hmem => hrows id (.tail _ hmem)
    rw [List.filterMap_cons_some hget, List.map_cons, hrest, h.named hget]

theorem selectable_iff :
    selectable s limit now ids = true ↔ ids.length ≤ limit ∧ ids.Nodup ∧ ∀ id ∈ ids,
      locked s id = false ∧ ∃ row, s.schedules.get? id = some row ∧ due row now = true := by
  simp only [selectable, Bool.and_eq_true, decide_eq_true_eq, List.all_eq_true, Option.any_eq_true,
    Bool.not_eq_true', and_assoc]

theorem Inv.drop (h : Inv zones tables s) (index : Nat) :
    Inv zones tables { s with ticks := s.ticks.set index {} } := by
  refine ⟨⟨h.holds.jobs, h.holds.stays, h.holds.passed⟩, h.locks.drop rfl, ?_⟩
  intro i tick htick
  rcases getElem?_set_cases htick with ⟨-, rfl⟩ | ⟨-, hold⟩
  · exact Tick.reads_empty _
  · exact h.reads i tick hold

theorem Inv.begin (h : Inv zones tables s) (hselect : selectable s limit now ids = true) :
    Inv zones tables { s with
      ticks := s.ticks ++ [{ due := ids.filterMap fun id => s.schedules.get? id }] } := by
  obtain ⟨-, hnodup, hrows⟩ := selectable_iff.mp hselect
  have hlocked := locked_selected h.holds fun id hmem => by
    obtain ⟨-, row, hget, -⟩ := hrows id hmem
    exact ⟨row, hget⟩
  refine ⟨⟨h.holds.jobs, h.holds.stays, h.holds.passed⟩, h.locks.concat_of_free ?_ ?_, ?_⟩
  · rw [hlocked]
    exact hnodup
  · rw [hlocked]
    intro i other id hother hkey hmem
    exact not_mem_locked (hrows id hmem).1 hother hkey
  · intro i tick htick
    rcases getElem?_concat_cases htick with ⟨-, rfl⟩ | ⟨-, hold⟩
    · refine ⟨fun schedule hmem => ?_, fun _ hmem => (by cases hmem), fun _ hmem => (by cases hmem)⟩
      obtain ⟨id, -, hget⟩ := List.mem_filterMap.mp hmem
      rw [h.holds.named hget]
      exact hget
    · exact h.reads i tick hold

theorem take_locked (htake : tick.take zones ticks jobId insertedAt now = some next) :
    next = {} ∨ next.locked.Perm tick.locked ∧ ∃ schedule done, tick.due = schedule :: next.due ∧
      next.done = tick.done ++ [done] ∧ done.schedule = schedule ∧ done.Computed zones := by
  unfold Tick.take at htake
  split at htake
  case h_1 => cases htake
  case h_2 schedule rest hdue =>
    -- the row that is taken goes from the front to the end
    have hperm : ∀ what : Write, (Tick.locked ⟨rest, tick.done ++ [⟨schedule, what⟩]⟩).Perm
        tick.locked := by
      intro what
      simp only [Tick.locked, hdue, List.map_append, List.map_cons, List.map_nil,
        ← List.append_assoc]
      exact List.perm_append_singleton _ _
    split at htake
    case h_1 =>
      cases htake
      exact .inr ⟨hperm _, schedule, _, hdue, rfl, rfl, trivial⟩
    case h_2 =>
      cases htake
      exact .inl rfl
    case h_3 found hoccurs =>
      split at htake
      · cases htake
      · cases htake
        exact .inr ⟨hperm _, schedule, _, hdue, rfl, rfl, hoccurs⟩

theorem Inv.turn (h : Inv zones tables s) (htick : s.ticks[index]? = some tick)
    (htake : tick.take zones s.ticks jobId insertedAt now = some next) :
    Inv zones tables { s with ticks := s.ticks.set index next } := by
  rcases take_locked htake with rfl | ⟨hperm, schedule, done, hdue, hdone, hschedule, hcomputed⟩
  · exact h.drop index
  · refine ⟨⟨h.holds.jobs, h.holds.stays, h.holds.passed⟩, h.locks.set ?_ ?_, ?_⟩
    · exact hperm.nodup_iff.mpr (h.locks.nodup index tick htick)
    · intro i other id hne hother hkey hmem
      exact hne (h.locks.apart i index other tick id hother htick hkey (hperm.mem_iff.mp hmem))
    · intro i found hfound
      rcases getElem?_set_cases hfound with ⟨-, rfl⟩ | ⟨-, hold⟩
      · have hreads := h.reads index tick htick
        refine ⟨fun row hmem => hreads.due row (hdue ▸ .tail _ hmem), ?_, ?_⟩
        · intro taken hmem
          rw [hdone] at hmem
          rcases mem_concat_iff.mp hmem with hold | rfl
          · exact hreads.done taken hold
          · rw [hschedule]
            exact hreads.due schedule (hdue ▸ (.head _))
        · intro taken hmem
          rw [hdone] at hmem
          rcases mem_concat_iff.mp hmem with hold | rfl
          · exact hreads.computed taken hold
          · exact hcomputed
      · exact h.reads i found hold

theorem Inv.commit (h : Inv zones tables s) {tick : Tick} (htick : s.ticks[index]? = some tick)
    (hwrites : tick.done.foldlM write { s with ticks := s.ticks.set index {} } = some t) :
    Inv zones tables t ∧ Advances zones s t := by
  have hreads := h.reads index tick htick
  have hdrop := h.drop index
  have hnodup := (List.nodup_append.mp (h.locks.nodup index tick htick)).2.1
  obtain ⟨hholds, hticks, hframe, hwritten⟩ :=
    writes_spec hdrop.holds hreads.computed hreads.done hnodup hwrites
  refine ⟨⟨hholds, hticks ▸ hdrop.locks, fun i other hother => ?_⟩, fun id row hget => ?_⟩
  · -- the rows of the other ticks are not those of this one
    rw [hticks] at hother
    rcases getElem?_set_cases hother with ⟨-, rfl⟩ | ⟨hne, hold⟩
    · exact Tick.reads_empty _
    · refine (h.reads i other hold).of_frame fun id hlocked => hframe id fun hmem => ?_
      exact hne (h.locks.apart i index other tick id hold htick hlocked
        (List.mem_append_right _ hmem))
  · by_cases hmem : id ∈ tick.done.map fun done => done.schedule.id
    · obtain ⟨done, hdone, hid⟩ := List.mem_map.mp hmem
      have hrow := hreads.done done hdone
      rw [hid, hget] at hrow
      cases hrow
      exact ⟨done.row, hid ▸ hwritten done hdone, Done.advance (hreads.computed done hdone)⟩
    · exact ⟨row, (hframe id hmem).trans hget, .inl rfl⟩

theorem Inv.setEnabled (h : Inv zones tables s) (hfree : locked s id = false) (tenantId : String)
    (enabled : Bool) (now : Nat) :
    Inv zones tables { s with
        schedules := setScheduleEnabled s.schedules id tenantId enabled now } ∧
      Advances zones s { s with
        schedules := setScheduleEnabled s.schedules id tenantId enabled now } := by
  unfold setScheduleEnabled
  split
  case h_1 schedule hget =>
    split
    case isTrue =>
      obtain ⟨start, times, hstart, hpassed⟩ := h.holds.passed id schedule hget
      have hpassed' : Passed zones start { schedule with isEnabled := enabled, updatedAt := now }
          s.queue.jobs times := hpassed.of_row ⟨rfl, rfl, rfl, rfl, rfl, rfl, rfl, rfl⟩ rfl
      have hset : Holds zones tables ⟨s.queue,
          s.schedules.set id { schedule with isEnabled := enabled, updatedAt := now }, s.ticks⟩ :=
        h.holds.set h.holds.jobs ⟨start, times, hstart, hpassed'⟩ fun _ _ _ _ _ _ hother => hother
      refine ⟨⟨hset, h.locks, fun i tick htick => ?_⟩, fun other row hother => ?_⟩
      · refine (h.reads i tick htick).of_frame fun other hlocked => ?_
        refine get?_set_of_ne _ _ fun heq => ?_
        exact not_mem_locked hfree htick (heq ▸ hlocked)
      · rw [get?_set]
        split
        case isTrue hid =>
          rw [← hid, hget] at hother
          cases hother
          exact ⟨_, rfl, .inl rfl⟩
        case isFalse => exact ⟨row, hother, .inl rfl⟩
    case isFalse => exact ⟨h, advances_of_eq rfl⟩
  case h_2 => exact ⟨h, advances_of_eq rfl⟩

theorem Inv.step (h : Inv zones tables s) {label : Label} (hclient : ClientKeys s label)
    (hstep : step zones s label = some t) : Inv zones tables t ∧ Advances zones s t := by
  cases label with
  | queue label =>
    rw [JobSchedules.step] at hstep
    split at hstep
    · cases hstep
    · obtain ⟨queue, hqueue, rfl⟩ := Option.map_eq_some_iff.mp hstep
      exact ⟨⟨h.holds.queue hclient hqueue, h.locks, h.reads⟩, advances_of_eq rfl⟩
  | begin limit now ids =>
    rw [JobSchedules.step] at hstep
    split at hstep
    case isTrue hselect =>
      cases hstep
      exact ⟨h.begin hselect, advances_of_eq rfl⟩
    case isFalse => cases hstep
  | turn index jobId insertedAt now =>
    obtain ⟨tick, htick, hmoved⟩ := Option.bind_eq_some_iff.mp hstep
    obtain ⟨next, htake, rfl⟩ := Option.map_eq_some_iff.mp hmoved
    exact ⟨h.turn htick htake, advances_of_eq rfl⟩
  | commit index =>
    obtain ⟨tick, htick, hmoved⟩ := Option.bind_eq_some_iff.mp hstep
    split at hmoved
    · exact h.commit htick hmoved
    · cases hmoved
  | abort index =>
    obtain ⟨tick, -, rfl⟩ := Option.map_eq_some_iff.mp hstep
    exact ⟨h.drop index, advances_of_eq rfl⟩
  | setEnabled id tenantId enabled now =>
    rw [JobSchedules.step] at hstep
    split at hstep
    · cases hstep
    case isFalse hfree =>
      cases hstep
      exact h.setEnabled (Bool.eq_false_iff.mpr hfree) tenantId enabled now

theorem Tables.inv (zones : Cron.Zones) (tables : Tables) : Inv zones tables tables.start where
  holds := {
    jobs := tables.jobs_named
    stays := fun id start hstart => ⟨start, hstart⟩
    passed := fun id row hget => ⟨row, [], hget, .refl row, .nil, fun _ hmem => (by cases hmem),
      fun _ hmem => (by cases hmem), fun time jobId hle hkeyed =>
        absurd (tables.schedules_named id row hget ▸ hkeyed) (tables.ahead id row hget time jobId hle)⟩ }
  locks := .nil
  reads i tick htick := by cases htick

/-- Each schedule goes from an occurrence to the next, and each occurrence that it has passed has
exactly one job, those to come none. -/
theorem occurrences_once (zones : Cron.Zones) (tables : Tables) {labels : List Label}
    (hclients : RunMeets (step zones) ClientKeys tables.start labels)
    (hrun : run (step zones) tables.start labels = some s) :
    RunMeets (step zones) (fun before label => ∀ after, step zones before label = some after →
        Advances zones before after) tables.start labels ∧
      ∀ id start, tables.schedules.get? id = some start →
        ∃ row passed, s.schedules.get? id = some row ∧
          Chain zones start.recurrence start.nextRunAt passed row.nextRunAt ∧
          (∀ time ∈ passed, (∃ jobId job, s.queue.jobs.get? jobId = some job ∧
              Stands start time job) ∧
            ∀ jobId jobId', Keyed s.queue.jobs jobId id time → Keyed s.queue.jobs jobId' id time →
              jobId = jobId') ∧
          ∀ (time : Instant) jobId, start.nextRunAt.val ≤ time.val →
            Keyed s.queue.jobs jobId id time → time ∈ passed := by
  obtain ⟨hadvances, hinv⟩ := runMeets_of_steps (D := fun before label => ∀ after,
      step zones before label = some after → Advances zones before after)
    (fun before label after hinv hclient hstep => by
      obtain ⟨hnext, hadvance⟩ := hinv.step hclient hstep
      refine ⟨hnext, fun other hother => ?_⟩
      rw [hstep] at hother
      cases hother
      exact hadvance) (tables.inv zones) hclients hrun
  refine ⟨hadvances, fun id start hstart => ?_⟩
  obtain ⟨row, hget⟩ := hinv.holds.stays id start hstart
  obtain ⟨first, passed, hfirst, hpassed⟩ := hinv.holds.passed id row hget
  rw [hstart] at hfirst
  cases hfirst
  have hid := tables.schedules_named id start hstart
  refine ⟨row, passed, hget, hpassed.chain, fun time hmem => ⟨hpassed.job time hmem, ?_⟩, ?_⟩
  · rw [← hid]
    exact hpassed.unique time hmem
  · rw [← hid]
    exact hpassed.only

def minutely : ScheduleRecord where
  id := "s1"
  tenantId := "tenant"
  jobType := "sweep"
  recurrence := .interval 60 (by decide)
  payload := "null"
  priority := 0
  maxAttempts := 5
  actorId := some "user"
  nextRunAt := ⟨60000, by decide⟩
  updatedAt := 0

/-- The schedule, before it has run. -/
def oneSchedule : Tables where
  schedules := OrderedMap.empty.set "s1" minutely
  jobs_named id job hget := by cases hget
  schedules_named id row hget := by
    rcases get?_set_eq_some.mp hget with ⟨hid, hrow⟩ | ⟨-, hnone⟩
    · rw [← hrow]
      exact hid
    · cases hnone
  ahead id row hget time jobId hle hkeyed := by
    obtain ⟨job, hjob, -⟩ := hkeyed
    cases hjob

/-- Two ticks overlap, a third is rolled back, and a fourth takes the second occurrence. -/
def overlapping : List Label :=
  [.queue (.insert "c1" sweep 0), .begin 10 130000 ["s1"], .begin 10 130000 [],
    .turn 0 "j1" 130000 130001, .commit 0, .commit 1, .begin 10 130002 ["s1"],
    .turn 2 "j2" 130003 130004, .abort 2, .setEnabled "s1" "tenant" false 130005,
    .setEnabled "s1" "tenant" true 130006, .begin 10 130007 ["s1"], .turn 3 "j3" 130008 130009,
    .commit 3]

theorem occurrences_once_run : ∃ s row passed,
    run (step fun _ => none) oneSchedule.start overlapping = some s ∧
      s.schedules.get? "s1" = some row ∧ row.nextRunAt.val = 180000 ∧
      Chain (fun _ => none) (.interval 60 (by decide)) ⟨60000, by decide⟩ passed row.nextRunAt ∧
      ∀ time ∈ passed, ∃ jobId job, s.queue.jobs.get? jobId = some job ∧
        Stands minutely time job := by
  have hnext : (run (step fun _ => none) oneSchedule.start overlapping).bind (fun s =>
      (s.schedules.get? "s1").map fun row => row.nextRunAt.val) = some 180000 := by
    decide
  obtain ⟨s, hrun, hrow⟩ := Option.bind_eq_some_iff.mp hnext
  obtain ⟨row, passed, hget, hchain, hjobs, -⟩ :=
    (occurrences_once (fun _ => none) oneSchedule (by decide) hrun).2 "s1" minutely rfl
  rw [hget] at hrow
  exact ⟨s, row, passed, hrun, hget, Option.some.inj hrow, hchain,
    fun time hmem => (hjobs time hmem).1⟩

end Stynx.JobSchedules
