import Stynx.JobQueueRuns

/-!
# The ceiling of attempts

A claim counts an attempt, so the row of a job counts its claims, and its handler is not
started more often. The ceiling itself is looked at when a failure is reported, not when
a row is claimed.
-/

namespace Stynx.JobQueue

open TransitionRuns CallTables

variable {s t : Queue} {label : Label} {id : String}

/-- How often a job has been claimed. -/
def claimsOf (id : String) (s : Queue) : Nat := s.executions.countP fun e => e.job.id = id

/-- How often its handler has been started. -/
def startsOf (id : String) (s : Queue) : Nat :=
  s.executions.countP fun e => e.job.id = id ∧ e.started = true

/-- No handler has been started more often than its job may be attempted. -/
def WithinCeiling (s : Queue) : Prop :=
  ∀ id job, s.jobs.get? id = some job → startsOf id s ≤ job.maxAttempts

/-- A poll that reaches a job whose attempts are used up leaves it dead-lettered. -/
def DeadLetters (s : Queue) (label : Label) : Prop :=
  ∀ t, step s label = some t → ∀ id ∈ label.claims, ∀ job, s.jobs.get? id = some job →
    job.maxAttempts ≤ job.attempts →
    ∃ job', t.jobs.get? id = some job' ∧ job'.status = .deadLetter

def AttemptsLeft (s : Queue) (label : Label) : Prop :=
  ∀ id ∈ label.claims, ∀ job ∈ s.jobs.get? id, job.attempts < job.maxAttempts

instance decidableAttemptsLeft (s : Queue) (label : Label) : Decidable (AttemptsLeft s label) :=
  inferInstanceAs (Decidable (∀ id ∈ label.claims, ∀ job ∈ s.jobs.get? id,
    job.attempts < job.maxAttempts))

theorem startsOf_le (id : String) (s : Queue) : startsOf id s ≤ claimsOf id s := by
  refine List.countP_mono_left fun e _ h => ?_
  simp only [decide_eq_true_eq] at h ⊢
  exact h.1

def Counted (s : Queue) : Prop :=
  Named s.jobs ∧ ∀ id, claimsOf id s = ((s.jobs.get? id).map JobRecord.attempts).getD 0

theorem claimsOf_set {i : Nat} {e e' : Execution} (he : s.executions[i]? = some e)
    (hgoes : Goes e e') (ht : t.executions = s.executions.set i e') (id : String) :
    claimsOf id t = claimsOf id s := by
  obtain ⟨hi, rfl⟩ := List.getElem?_eq_some_iff.mp he
  have hmem : e'.job.id = s.executions[i].job.id := by rw [hgoes.job]
  rw [claimsOf, ht, List.countP_set hi, hmem]
  by_cases hid : s.executions[i].job.id = id
  · have hpos : 0 < claimsOf id s := by
      rw [claimsOf, List.countP_pos_iff]
      exact ⟨_, List.getElem_mem hi, by simpa using hid⟩
    simp only [hid, decide_true, if_true]
    rw [claimsOf] at hpos ⊢
    omega
  · simp [hid, claimsOf]

theorem claimsOf_append {new : List Execution} {ids : List String} (hnodup : ids.Nodup)
    (hids : new.map (fun e => e.job.id) = ids) (ht : t.executions = s.executions ++ new)
    (id : String) : claimsOf id t = claimsOf id s + if id ∈ ids then 1 else 0 := by
  have hcount : new.countP (fun e => e.job.id = id) = ids.count id := by
    rw [← hids, List.count, List.countP_map]
    refine List.countP_congr fun e _ => ?_
    simp
  rw [claimsOf, ht, List.countP_append, hcount, List.Nodup.count hnodup]
  rfl

theorem counted_init : Counted {} := ⟨named_init, fun _ => rfl⟩

theorem Report.attempts_row (report : Report) (job : JobRecord) (now : Nat) :
    (report.row job now).attempts = job.attempts := by
  unfold Report.row
  split <;> rfl

theorem attempts_step (hmoves : RowMoves s id label (s.jobs.get? id) (t.jobs.get? id)) :
    ((t.jobs.get? id).map JobRecord.attempts).getD 0 =
      ((s.jobs.get? id).map JobRecord.attempts).getD 0 + if id ∈ label.claims then 1 else 0 := by
  generalize s.jobs.get? id = before at hmoves
  generalize t.jobs.get? id = after at hmoves
  cases hmoves with
  | same _ _ hnot => rw [if_neg hnot, Nat.add_zero]
  | inserted => rfl
  | touched => rfl
  | canceled => rfl
  | claimed _ _ _ _ ids job hid =>
    rw [Label.claims, if_pos hid]
    rfl
  | reported index now execution report job =>
    rw [Option.map_some, Report.attempts_row]
    rfl

theorem Counted.step (h : Counted s) (hstep : step s label = some t) : Counted t := by
  refine ⟨h.1.step hstep, fun id => ?_⟩
  rw [attempts_step (step_moves h.1 hstep id), ← h.2 id]
  cases step_executions h.1 hstep with
  | same _ hnone hsame =>
    rw [hnone, if_neg List.not_mem_nil, claimsOf, hsame]
    rfl
  | one _ i e e' hnone he hset hgoes =>
    rw [hnone, if_neg List.not_mem_nil]
    exact claimsOf_set he hgoes hset id
  | claimed workerId limit visibilityTimeoutMs now ids new happend hids hnodup =>
    exact claimsOf_append hnodup hids happend id

/-- No row has been claimed more often than its job may be attempted. -/
def Below (s : Queue) : Prop :=
  ∀ id job, s.jobs.get? id = some job → job.attempts ≤ job.maxAttempts

theorem Below.step (h : Below s) (hnamed : Named s.jobs) (hok : AttemptsLeft s label)
    (hstep : step s label = some t) : Below t := by
  intro id job' hget'
  have hmoves := step_moves hnamed hstep id
  have hattempts := attempts_step hmoves
  rw [hget'] at hmoves hattempts
  cases hget : s.jobs.get? id with
  | none =>
    rw [hget] at hmoves
    cases hmoves
    exact Nat.zero_le _
  | some job =>
    rw [hget] at hmoves hattempts
    have hceiling := hmoves.kept.2
    have hbelow := h id job hget
    simp only [Option.map_some, Option.getD_some] at hattempts
    by_cases hid : id ∈ label.claims
    · have hleft := hok id hid job hget
      rw [if_pos hid] at hattempts
      omega
    · rw [if_neg hid] at hattempts
      omega

theorem Counted.within (h : Counted s) (hbelow : Below s) : WithinCeiling s := by
  intro id job hget
  have hcount := h.2 id
  rw [hget] at hcount
  have hstarts := startsOf_le id s
  have hattempts := hbelow id job hget
  simp only [Option.map_some, Option.getD_some] at hcount
  omega

theorem attemptsLeft_of_deadLetters (hnamed : Named s.jobs) (h : DeadLetters s label)
    (hstep : step s label = some t) : AttemptsLeft s label := by
  intro id hid job hget
  by_contra hnone
  obtain ⟨job', hget', hstatus⟩ := h t hstep id hid job hget (Nat.le_of_not_lt hnone)
  have hmoves := step_moves hnamed hstep id
  rw [hget, hget'] at hmoves
  cases hmoves with
  | same _ _ hnot => exact hnot hid
  | touched => cases hid
  | canceled => cases hid
  | claimed => cases hstatus
  | reported => cases hid

/-- The polls take only jobs with attempts left exactly when no handler is started more often than
its job may be attempted and each poll leaves a job without attempts dead-lettered. -/
theorem ceiling_iff (labels : List Label) (s : Queue) (hrun : run step {} labels = some s) :
    RunMeets step (fun u label => WithinCeiling u ∧ DeadLetters u label) {} labels ∧
      WithinCeiling s ↔ RunMeets step AttemptsLeft {} labels := by
  constructor
  · rintro ⟨hmeets, -⟩
    refine (runMeets_of_steps (I := fun u => Named u.jobs) ?_ named_init hmeets hrun).1
    rintro u label v hu ⟨-, hdead⟩ hstep
    exact ⟨hu.step hstep, attemptsLeft_of_deadLetters hu hdead hstep⟩
  · intro hmeets
    have hboth := runMeets_of_steps (I := fun u => Counted u ∧ Below u)
      (D := fun u label => WithinCeiling u ∧ DeadLetters u label) ?_
      ⟨counted_init, fun _ _ hget => by cases hget⟩ hmeets hrun
    · exact ⟨hboth.1, hboth.2.1.within hboth.2.2⟩
    · rintro u label v ⟨hcounted, hbelow⟩ hleft hstep
      refine ⟨⟨hcounted.step hstep, hbelow.step hcounted.1 hleft hstep⟩, hcounted.within hbelow, ?_⟩
      -- no job that is taken has used its attempts up
      intro _ _ id hid job hget hover
      exact absurd (hleft id hid job hget) (Nat.not_lt.mpr hover)

/-- A job that may be attempted once. -/
def single : NewJob := ⟨"tenant", "sweep", "{}", 0, 0, 1, none, some "actor", none⟩

/-- A worker stops while the handler runs; after the lease another one starts it again. -/
def stops : List Label :=
  .insert "j1" single 0 :: claims "w" 0 :: handles 0 ++ .lose 0 :: claims "v" 60000 :: handles 1

def startsAfter (labels : List Label) : Option (JobStatus × Nat × Nat) :=
  (run step {} labels).bind fun s => (s.jobs.get? "j1").map fun job =>
    (job.status, job.attempts, startsOf "j1" s)

/-- The poll takes a job whose attempts are used up, and its handler starts twice. -/
theorem stopped_worker_passes_ceiling : startsAfter (stops.take 5) = some (.running, 1, 1) ∧
    startsAfter (stops.take 6) = some (.running, 2, 1) ∧
    startsAfter stops = some (.running, 2, 2) := by
  refine ⟨?_, ?_, ?_⟩ <;> decide

/-- The job may be attempted twice, and its second failure is recorded. -/
theorem ceiling_iff_run : ∃ s, run step {} reclaimed = some s ∧ WithinCeiling s :=
  ⟨_, rfl, ((ceiling_iff reclaimed _ rfl).mpr (by decide)).2⟩

end Stynx.JobQueue
