import Stynx.CallTables
import Stynx.JobQueue

/-!
# Runs of the job queue

What a step does to a row and to the executions, and what follows for claims and late
reports. A row that runs names the worker of its last claim. That tells an earlier
execution from the last one unless both are of the same worker.
-/

namespace Stynx.JobQueue

open TransitionRuns CallTables OrderedMap

variable {s t : Queue} {label : Label} {id : String}

/-- Each row is stored under its identifier. -/
def Named (jobs : Jobs) : Prop := ∀ id job, jobs.get? id = some job → job.id = id

/-- The jobs that a step claims. -/
def Label.claims : Label → List String
  | .claim _ _ _ _ ids => ids
  | _ => []

/-- What a step does to a row. -/
inductive RowMoves (s : Queue) (id : String) : Label → Option JobRecord → Option JobRecord → Prop
  | same (label' : Label) (row) : id ∉ label'.claims → RowMoves s id label' row row
  | inserted (input now) : RowMoves s id (.insert id input now) none (some (newRow id input now))
  /-- It stands for an input with its key. -/
  | touched (id' input now job) :
    RowMoves s id (.insert id' input now) (some job) (some { job with updatedAt := now })
  | canceled (tenantId now job) :
    job.status = .pending ∨ job.status = .running →
    RowMoves s id (.cancel id tenantId now) (some job)
      (some { job with status := .canceled, finishedAt := some now, updatedAt := now })
  | claimed (workerId limit visibilityTimeoutMs now ids job) : id ∈ ids → due job now = true →
    RowMoves s id (.claim workerId limit visibilityTimeoutMs now ids) (some job)
      (some (claimedRow job workerId visibilityTimeoutMs now))
  | reported (index now execution report job) : s.executions[index]? = some execution →
    execution.phase = .reporting report → execution.job.id = id →
    heldBy job execution.workerId = true →
    RowMoves s id (.report index now) (some job) (some (report.row job now))

variable {jobs : Jobs} {now i index : Nat} {ids : List String} {row job : JobRecord}
  {e e' : Execution} {labels : List Label}

theorem claimable_iff {limit : Nat} :
    claimable jobs limit now ids = true ↔ ids.length ≤ limit ∧ ids.Nodup ∧
      ∀ id ∈ ids, ∃ job, jobs.get? id = some job ∧ due job now = true := by
  simp only [claimable, Bool.and_eq_true, decide_eq_true_eq, List.all_eq_true,
    Option.any_eq_true, and_assoc]

theorem moves_set {key : String} {P : Option JobRecord → Option JobRecord → Prop}
    (hsame : ∀ row, P row row) (hself : key = id → P (jobs.get? id) (some row)) :
    P (jobs.get? id) ((jobs.set key row).get? id) := by
  rw [get?_set]
  split
  · exact hself ‹_›
  · exact hsame _

theorem step_moves (hnamed : Named s.jobs) (hstep : step s label = some t) (id : String) :
    RowMoves s id label (s.jobs.get? id) (t.jobs.get? id) := by
  cases label with
  | insert key input now =>
    rw [step] at hstep
    split at hstep
    case isTrue => cases hstep
    case isFalse hfresh =>
      cases hstep
      simp only [insertJob]
      split
      case h_1 job hfind =>
        refine moves_set (RowMoves.same _ · List.not_mem_nil) fun hid => ?_
        obtain ⟨stored, hget⟩ := mem_values_iff.mp (List.mem_of_find?_eq_some hfind)
        rw [← hnamed stored job hget, hid] at hget
        rw [hget]
        exact .touched key input now job
      case h_2 =>
        refine moves_set (RowMoves.same _ · List.not_mem_nil) fun hid => ?_
        subst hid
        rw [get?_eq_none_of_not_has (Bool.eq_false_iff.mpr hfresh)]
        exact .inserted input now
  | cancel key tenantId now =>
    cases hstep
    simp only [JobQueue.cancel]
    split
    case h_1 job hget =>
      split
      case isTrue hopen =>
        refine moves_set (RowMoves.same _ · List.not_mem_nil) fun hid => ?_
        subst hid
        rw [hget]
        exact .canceled tenantId now job hopen.2
      case isFalse => exact .same _ _ List.not_mem_nil
    case h_2 => exact .same _ _ List.not_mem_nil
  | claim workerId limit visibilityTimeoutMs now ids =>
    rw [step] at hstep
    split at hstep
    case isTrue hclaim =>
      cases hstep
      obtain ⟨-, -, hdue⟩ := claimable_iff.mp hclaim
      simp only [JobQueue.claim, get?_mapValues]
      by_cases hid : id ∈ ids
      · obtain ⟨job, hget, hready⟩ := hdue id hid
        rw [hget, Option.map_some, if_pos hid]
        exact .claimed workerId limit visibilityTimeoutMs now ids job hid hready
      · simp only [if_neg hid, Option.map_id']
        exact .same _ _ hid
    case isFalse => cases hstep
  | execute index now random event =>
    obtain ⟨execution, -, hmoved⟩ := Option.bind_eq_some_iff.mp hstep
    obtain ⟨next, -, rfl⟩ := Option.map_eq_some_iff.mp hmoved
    exact .same _ _ List.not_mem_nil
  | report index now =>
    obtain ⟨execution, hget, hmoved⟩ := Option.bind_eq_some_iff.mp hstep
    split at hmoved
    case h_1 report hphase =>
      cases hmoved
      simp only [record]
      split
      case h_1 job hjob =>
        split
        case isTrue hheld =>
          refine moves_set (RowMoves.same _ · List.not_mem_nil) fun hid => ?_
          subst hid
          rw [hjob]
          exact .reported index now execution report job hget hphase rfl hheld
        case isFalse => exact .same _ _ List.not_mem_nil
      case h_2 => exact .same _ _ List.not_mem_nil
    case h_2 => cases hmoved
  | lose index =>
    obtain ⟨execution, -, hmoved⟩ := Option.bind_eq_some_iff.mp hstep
    split at hmoved
    · cases hmoved
      exact .same _ _ List.not_mem_nil
    · cases hmoved

theorem RowMoves.kept {job' : JobRecord} (h : RowMoves s id label (some job) (some job')) :
    job'.id = job.id ∧ job'.maxAttempts = job.maxAttempts := by
  cases h with
  | same => exact ⟨rfl, rfl⟩
  | touched => exact ⟨rfl, rfl⟩
  | canceled => exact ⟨rfl, rfl⟩
  | claimed => exact ⟨rfl, rfl⟩
  | reported index now execution report =>
    unfold Report.row
    split <;> exact ⟨rfl, rfl⟩

theorem Named.step (h : Named s.jobs) (hstep : step s label = some t) : Named t.jobs := by
  intro id job hget
  have hmoves := step_moves h hstep id
  rw [hget] at hmoves
  cases hbefore : s.jobs.get? id with
  | none =>
    rw [hbefore] at hmoves
    cases hmoves
    rfl
  | some before =>
    rw [hbefore] at hmoves
    exact hmoves.kept.1.trans (h id before hbefore)

theorem row_stays (hnamed : Named s.jobs) (hstep : step s label = some t)
    (hget : s.jobs.get? id = some job) : ∃ job', t.jobs.get? id = some job' := by
  have hmoves := step_moves hnamed hstep id
  rw [hget] at hmoves
  cases hafter : t.jobs.get? id with
  | some job' => exact ⟨job', rfl⟩
  | none =>
    rw [hafter] at hmoves
    cases hmoves

def JobStatus.final : JobStatus → Bool
  | .succeeded | .deadLetter | .canceled => true
  | _ => false

theorem final_stays (hnamed : Named s.jobs) (hstep : step s label = some t)
    (hget : s.jobs.get? id = some job) (hfinal : job.status.final = true) :
    ∃ job', t.jobs.get? id = some job' ∧ job'.status = job.status := by
  have hmoves := step_moves hnamed hstep id
  obtain ⟨job', hget'⟩ := row_stays hnamed hstep hget
  rw [hget, hget'] at hmoves
  refine ⟨job', hget', ?_⟩
  cases hmoves with
  | same => rfl
  | touched => rfl
  | canceled tenantId now _ hopen =>
    rcases hopen with hopen | hopen <;> rw [hopen] at hfinal <;> cases hfinal
  | claimed workerId limit visibilityTimeoutMs now ids _ hid hdue =>
    simp only [due, Bool.or_eq_true, Bool.and_eq_true, decide_eq_true_eq] at hdue
    rcases hdue with ⟨hopen, -⟩ | ⟨hopen, -⟩ <;> rw [hopen] at hfinal <;> cases hfinal
  | reported index now execution report _ he hphase hid hheld =>
    simp only [heldBy, Bool.and_eq_true, decide_eq_true_eq] at hheld
    rw [hheld.2] at hfinal
    cases hfinal

/-- An execution goes on: it is of the same job and worker, and one that is over stays. -/
structure Goes (e e' : Execution) : Prop where
  job : e'.job = e.job
  workerId : e'.workerId = e.workerId
  stays : e.phase.live = false → e' = e

/-- What a step does to the executions. -/
inductive ExecutionsMove (s t : Queue) : Label → Prop
  | same (label' : Label) : label'.claims = [] → t.executions = s.executions →
    ExecutionsMove s t label'
  | one (label' : Label) (i : Nat) (e e') : label'.claims = [] → s.executions[i]? = some e →
    t.executions = s.executions.set i e' → Goes e e' → ExecutionsMove s t label'
  /-- One begins for each row that is claimed. -/
  | claimed (workerId limit visibilityTimeoutMs now ids new) :
    t.executions = s.executions ++ new → new.map (fun e => e.job.id) = ids →
    ids.Nodup →
    (∀ e ∈ new, e.workerId = workerId ∧ e.started = false ∧ e.phase.live = true ∧
      t.jobs.get? e.job.id = some e.job ∧
      ∃ job, e.job = claimedRow job workerId visibilityTimeoutMs now) →
    ExecutionsMove s t (.claim workerId limit visibilityTimeoutMs now ids)

theorem Execution.take_of_over (h : e.phase.live = false) (now : Nat) (random : Rat) (event : Event) :
    e.take now random event = none := by
  unfold Execution.take
  cases hphase : e.phase with
  | reported report found => simp
  | lost => simp
  | _ => simp [hphase, Phase.live] at h

theorem Execution.take_goes {random : Rat} {event : Event} (h : e.take now random event = some e') :
    Goes e e' := by
  have hkept : e'.job = e.job ∧ e'.workerId = e.workerId := by
    unfold Execution.take at h
    simp only at h
    split at h
    case h_1 =>
      split_ifs at h <;> cases h <;> exact ⟨rfl, rfl⟩
    case h_2 =>
      split_ifs at h <;> cases h <;> exact ⟨rfl, rfl⟩
    case h_6 => cases h
    all_goals
      cases h
      exact ⟨rfl, rfl⟩
  refine ⟨hkept.1, hkept.2, fun hover => ?_⟩
  rw [Execution.take_of_over hover] at h
  cases h

theorem map_id_filterMap (hnamed : Named jobs) (h : ∀ id ∈ ids, ∃ job, jobs.get? id = some job) :
    (ids.filterMap fun id => jobs.get? id).map JobRecord.id = ids := by
  induction ids with
  | nil => rfl
  | cons first rest ih =>
    obtain ⟨job, hget⟩ := h first (.head _)
    have hrest := ih fun id hid => h id (.tail _ hid)
    rw [List.filterMap_cons_some hget, List.map_cons, hrest, hnamed first job hget]

theorem step_executions (hnamed : Named s.jobs) (hstep : step s label = some t) :
    ExecutionsMove s t label := by
  have hnamed' := hnamed.step hstep
  cases label with
  | insert key input now =>
    rw [step] at hstep
    split at hstep
    · cases hstep
    · cases hstep
      exact .same _ rfl rfl
  | cancel key tenantId now =>
    cases hstep
    exact .same _ rfl rfl
  | claim workerId limit visibilityTimeoutMs now ids =>
    have hmoves := step_moves hnamed hstep
    rw [step] at hstep
    split at hstep
    case isTrue hclaim =>
      obtain ⟨-, hnodup, hdue⟩ := claimable_iff.mp hclaim
      cases hstep
      -- each identifier has a row, before and after
      have hrows : ∀ id ∈ ids, ∃ job, s.jobs.get? id = some job ∧
          (JobQueue.claim s.jobs workerId visibilityTimeoutMs now ids).get? id =
            some (claimedRow job workerId visibilityTimeoutMs now) := by
        intro id hid
        obtain ⟨job, hget, -⟩ := hdue id hid
        refine ⟨job, hget, ?_⟩
        simp only [JobQueue.claim, get?_mapValues, hget, Option.map_some, if_pos hid]
      refine .claimed workerId limit visibilityTimeoutMs now ids _ rfl ?_ hnodup ?_
      · rw [List.map_map]
        exact map_id_filterMap hnamed' fun id hid => by
          obtain ⟨job, -, hget⟩ := hrows id hid
          exact ⟨_, hget⟩
      · intro e he
        obtain ⟨job, hjob, rfl⟩ := List.mem_map.mp he
        obtain ⟨id, hid, hget⟩ := List.mem_filterMap.mp hjob
        obtain ⟨before, -, hafter⟩ := hrows id hid
        refine ⟨rfl, rfl, rfl, ?_, before, ?_⟩
        · rw [hnamed' id job hget]
          exact hget
        · rw [hafter] at hget
          exact (Option.some.inj hget).symm
    case isFalse => cases hstep
  | execute index now random event =>
    obtain ⟨execution, hget, hmoved⟩ := Option.bind_eq_some_iff.mp hstep
    obtain ⟨next, hnext, rfl⟩ := Option.map_eq_some_iff.mp hmoved
    exact .one _ index execution next rfl hget rfl (Execution.take_goes hnext)
  | report index now =>
    obtain ⟨execution, hget, hmoved⟩ := Option.bind_eq_some_iff.mp hstep
    split at hmoved
    case h_1 report hphase =>
      cases hmoved
      refine .one _ index execution _ rfl hget rfl ⟨rfl, rfl, fun hover => ?_⟩
      rw [hphase] at hover
      cases hover
    case h_2 => cases hmoved
  | lose index =>
    obtain ⟨execution, hget, hmoved⟩ := Option.bind_eq_some_iff.mp hstep
    split at hmoved
    case isTrue hlive =>
      cases hmoved
      refine .one _ index execution _ rfl hget rfl ⟨rfl, rfl, fun hover => ?_⟩
      rw [hlive] at hover
      cases hover
    case isFalse => cases hmoved

theorem execution_stays (hmove : ExecutionsMove s t label) (he : s.executions[i]? = some e) :
    ∃ e', t.executions[i]? = some e' ∧ Goes e e' := by
  have hself : Goes e e := ⟨rfl, rfl, fun _ => rfl⟩
  cases hmove with
  | same _ _ hsame => exact ⟨e, hsame ▸ he, hself⟩
  | one _ index old new _ hold hset hgoes =>
    rw [hset, List.getElem?_set]
    by_cases hi : index = i
    · subst hi
      rw [he] at hold
      cases hold
      rw [if_pos rfl, if_pos (List.getElem?_eq_some_iff.mp he).1]
      exact ⟨new, rfl, hgoes⟩
    · rw [if_neg hi]
      exact ⟨e, he, hself⟩
  | claimed workerId limit visibilityTimeoutMs now ids new happend =>
    rw [happend, List.getElem?_append_left (List.getElem?_eq_some_iff.mp he).1]
    exact ⟨e, he, hself⟩

/-- An execution after a step goes on from one before it, or has been begun by a claim. -/
theorem execution_origin (hmove : ExecutionsMove s t label) (he' : t.executions[i]? = some e') :
    (∃ e, s.executions[i]? = some e ∧ Goes e e') ∨
      s.executions.length ≤ i ∧ ∃ workerId limit visibilityTimeoutMs now ids,
        label = .claim workerId limit visibilityTimeoutMs now ids ∧ e'.job.id ∈ ids ∧
        e'.workerId = workerId ∧ t.jobs.get? e'.job.id = some e'.job ∧
        (∃ job, e'.job = claimedRow job workerId visibilityTimeoutMs now) ∧
        ∀ (j : Nat) e, s.executions.length ≤ j → t.executions[j]? = some e →
          e.job.id = e'.job.id → j = i := by
  cases hmove with
  | same _ _ hsame => exact .inl ⟨e', hsame ▸ he', rfl, rfl, fun _ => rfl⟩
  | one _ index old new _ hold hset hgoes =>
    rw [hset] at he'
    rcases getElem?_set_cases he' with ⟨rfl, rfl⟩ | ⟨-, hbefore⟩
    · exact .inl ⟨old, hold, hgoes⟩
    · exact .inl ⟨e', hbefore, rfl, rfl, fun _ => rfl⟩
  | claimed workerId limit visibilityTimeoutMs now ids new happend hids hnodup hnew =>
    rw [happend, List.getElem?_append] at he'
    split at he'
    case isTrue => exact .inl ⟨e', he', rfl, rfl, fun _ => rfl⟩
    case isFalse hge =>
      right
      obtain ⟨hworker, -, -, hrow, hjob⟩ := hnew e' (List.mem_of_getElem? he')
      refine ⟨Nat.le_of_not_lt hge, workerId, limit, visibilityTimeoutMs, now, ids, rfl, ?_,
        hworker, hrow, hjob, ?_⟩
      · rw [← hids]
        exact List.mem_map_of_mem (List.mem_of_getElem? he')
      · intro j e hj he hsame
        rw [happend, List.getElem?_append_right hj] at he
        -- both stand for one identifier, and no identifier is claimed twice
        have hone : ids[i - s.executions.length]? = some e'.job.id := by
          rw [← hids, List.getElem?_map, he', Option.map_some]
        have htwo : ids[j - s.executions.length]? = some e'.job.id := by
          rw [← hids, List.getElem?_map, he, Option.map_some, hsame]
        have hplace := (List.nodup_iff_getElem?_ne_getElem?.mp hnodup)
        by_contra hne
        rcases Nat.lt_or_gt_of_ne hne with hlt | hgt
        · exact hplace (j - s.executions.length) (i - s.executions.length) (by omega)
            (List.getElem?_eq_some_iff.mp hone).1 (htwo.trans hone.symm)
        · exact hplace (i - s.executions.length) (j - s.executions.length) (by omega)
            (List.getElem?_eq_some_iff.mp htwo).1 (hone.trans htwo.symm)

def Last (s : Queue) (i : Nat) (e : Execution) : Prop :=
  s.executions[i]? = some e ∧
    ∀ (j : Nat) e', s.executions[j]? = some e' → e'.job.id = e.job.id → j ≤ i

theorem exists_last (he : s.executions[i]? = some e) :
    ∃ (j : Nat) (e' : Execution), Last s j e' ∧ e'.job.id = e.job.id ∧ i ≤ j := by
  classical
  let P : Nat → Prop := fun j => ∃ e' : Execution, s.executions[j]? = some e' ∧ e'.job.id = e.job.id
  have hlt : ∀ j, P j → j ≤ s.executions.length := by
    rintro j ⟨e', hget, -⟩
    exact Nat.le_of_lt (List.getElem?_eq_some_iff.mp hget).1
  have hP : P i := ⟨e, he, rfl⟩
  obtain ⟨e', hget, hsame⟩ := Nat.findGreatest_spec (hlt i hP) hP
  refine ⟨Nat.findGreatest P s.executions.length, e', ⟨hget, ?_⟩, hsame,
    Nat.le_findGreatest (hlt i hP) hP⟩
  intro k e'' hget'' hsame''
  have hk : P k := ⟨e'', hget'', hsame''.trans hsame⟩
  exact Nat.le_findGreatest (hlt k hk) hk

/-- What the last execution says about its row. -/
structure Matches (e : Execution) (row : JobRecord) : Prop where
  /-- A row that runs is held by its worker, for as long as it has claimed. -/
  running : row.status = .running →
    row.lockedBy = some e.workerId ∧ row.lockedUntil = e.job.lockedUntil
  /-- A row that is pending is to be retried after it. -/
  pending : row.status = .pending →
    ∃ error retryAt, e.phase = .reported (.fail error (some retryAt)) true

structure Kept (s : Queue) : Prop where
  /-- Each row is stored under its identifier. -/
  named : Named s.jobs
  stored : ∀ e ∈ s.executions, ∃ row, s.jobs.get? e.job.id = some row
  /-- A worker claims a job again when its last execution of the job is over. -/
  apart : ∀ (i j : Nat) e e', i < j → s.executions[i]? = some e → s.executions[j]? = some e' →
    e'.job.id = e.job.id → e'.workerId = e.workerId → e.phase.live = false
  last : ∀ (i : Nat) e row, Last s i e → s.jobs.get? e.job.id = some row → Matches e row

theorem kept_init : Kept {} where
  named id job h := by cases h
  stored e h := by cases h
  apart i j e e' hlt h := by cases h
  last i e row h := by cases h.1

def EndsBeforeReclaim (s : Queue) : Label → Prop
  | .claim workerId _ _ _ ids => ∀ e ∈ s.executions, e.workerId = workerId → e.job.id ∈ ids →
      e.phase.live = false
  | _ => True

instance decidableEndsBeforeReclaim (s : Queue) (label : Label) :
    Decidable (EndsBeforeReclaim s label) := by
  unfold EndsBeforeReclaim
  split <;> infer_instance

theorem report_step (h : step s (.report index now) = some t) :
    ∃ e report, s.executions[index]? = some e ∧ e.phase = .reporting report ∧
      t.jobs = record s.jobs e.job.id e.workerId report now ∧
      t.executions = s.executions.set index
        (e.to (.reported report (finds s.jobs e.job.id e.workerId))) := by
  obtain ⟨e, hget, hmoved⟩ := Option.bind_eq_some_iff.mp h
  split at hmoved
  case h_1 report hphase =>
    cases hmoved
    exact ⟨e, report, hget, hphase, rfl, rfl⟩
  case h_2 => cases hmoved

theorem Kept.held_last (h : Kept s) (he : s.executions[index]? = some e)
    (hlive : e.phase.live = true) (hrow : s.jobs.get? e.job.id = some row)
    (hheld : heldBy row e.workerId = true) :
    Last s index e := by
  simp only [heldBy, Bool.and_eq_true, beq_iff_eq, decide_eq_true_eq] at hheld
  obtain ⟨j, e', hlast, hsame, hle⟩ := exists_last he
  have hworker := ((h.last j e' row hlast (hsame ▸ hrow)).running hheld.2).1
  rw [hheld.1] at hworker
  rcases Nat.eq_or_lt_of_le hle with rfl | hlt
  · rw [hlast.1] at he
    cases he
    exact hlast
  · have hover := h.apart index j e e' hlt he hlast.1 hsame (Option.some.inj hworker).symm
    rw [hlive] at hover
    cases hover

theorem Kept.apart_step (h : Kept s) (hok : EndsBeforeReclaim s label)
    (hstep : step s label = some t) {j : Nat} (hlt : i < j) (he : t.executions[i]? = some e)
    (he' : t.executions[j]? = some e') (hsame : e'.job.id = e.job.id)
    (hworker : e'.workerId = e.workerId) :
    e.phase.live = false := by
  have hmove := step_executions h.named hstep
  have hkept : ∀ old : Execution, Goes old e → old.phase.live = false → e.phase.live = false := by
    intro old hgoes hover
    rw [hgoes.stays hover]
    exact hover
  rcases execution_origin hmove he with ⟨old, hold, hgoes⟩ | ⟨hge, _, _, _, _, _, -, -, -, -, -, honly⟩
  · refine hkept old hgoes ?_
    rcases execution_origin hmove he' with ⟨old', hold', hgoes'⟩ |
      ⟨-, worker, limit, timeout, now, ids, rfl, hids, hnew, -⟩
    · exact h.apart i j old old' hlt hold hold' (by rw [← hgoes'.job, hsame, hgoes.job])
        (by rw [← hgoes'.workerId, hworker, hgoes.workerId])
    · -- the worker claims the job again
      refine hok old (List.mem_of_getElem? hold) ?_ ?_
      · rw [← hgoes.workerId, ← hworker, hnew]
      · rw [← hgoes.job, ← hsame]
        exact hids
  · have hplace := honly j e' (by omega) he' hsame
    omega

theorem Last.before (hmove : ExecutionsMove s t label) (hlast : Last t i e')
    (he : s.executions[i]? = some e) (hgoes : Goes e e') : Last s i e := by
  refine ⟨he, fun j other hother hsame => ?_⟩
  obtain ⟨other', hother', hgoes'⟩ := execution_stays hmove hother
  exact hlast.2 j other' hother' (by rw [hgoes'.job, hgoes.job, hsame])

theorem Last.not_claimed (hmove : ExecutionsMove s t label) (hlast : Last t i e')
    (he : s.executions[i]? = some e) : e'.job.id ∉ label.claims := by
  intro hid
  cases hmove with
  | same _ hnone =>
    rw [hnone] at hid
    cases hid
  | one _ _ _ _ hnone =>
    rw [hnone] at hid
    cases hid
  | claimed workerId limit visibilityTimeoutMs now ids new happend hids =>
    rw [Label.claims, ← hids] at hid
    obtain ⟨other, hother, hsame⟩ := List.mem_map.mp hid
    obtain ⟨k, hk⟩ := List.getElem?_of_mem hother
    have hplace : t.executions[s.executions.length + k]? = some other := by
      rw [happend, List.getElem?_append_right (Nat.le_add_right _ _), Nat.add_sub_cancel_left]
      exact hk
    have hle := hlast.2 _ other hplace hsame
    have hlt := (List.getElem?_eq_some_iff.mp he).1
    omega

theorem matches_report {report : Report} (hphase : e.phase = .reported report true) :
    Matches e (report.row row now) := by
  cases report with
  | succeed => exact ⟨fun hstatus => by simp [Report.row] at hstatus,
      fun hstatus => by simp [Report.row] at hstatus⟩
  | deadLetter reason => exact ⟨fun hstatus => by simp [Report.row] at hstatus,
      fun hstatus => by simp [Report.row] at hstatus⟩
  | fail error retryAt =>
    cases retryAt with
    | none => exact ⟨fun hstatus => by simp [Report.row] at hstatus,
        fun hstatus => by simp [Report.row] at hstatus⟩
    | some retryAt => exact ⟨fun hstatus => by simp [Report.row] at hstatus,
        fun _ => ⟨error, retryAt, hphase⟩⟩

theorem Matches.goes {row' : JobRecord} (h : Matches e row) (hgoes : Goes e e')
    (hstatus : row'.status = row.status) (hby : row'.lockedBy = row.lockedBy)
    (huntil : row'.lockedUntil = row.lockedUntil) : Matches e' row' := by
  refine ⟨fun hrunning => ?_, fun hpending => ?_⟩
  · rw [hby, huntil, hgoes.workerId, hgoes.job]
    exact h.running (hstatus.symm.trans hrunning)
  · obtain ⟨error, retryAt, hphase⟩ := h.pending (hstatus.symm.trans hpending)
    have hover : e.phase.live = false := by rw [hphase]; rfl
    rw [hgoes.stays hover]
    exact ⟨error, retryAt, hphase⟩

theorem Kept.last_step (h : Kept s) (hstep : step s label = some t) {row' : JobRecord}
    (hlast : Last t i e') (hrow' : t.jobs.get? e'.job.id = some row') :
    Matches e' row' := by
  have hmove := step_executions h.named hstep
  rcases execution_origin hmove hlast.1 with ⟨e, he, hgoes⟩ |
    ⟨-, worker, limit, timeout, now, ids, -, -, hworker, hget, ⟨job, hjob⟩, -⟩
  · obtain ⟨row, hrow⟩ := h.stored e (List.mem_of_getElem? he)
    have hbefore := hlast.before hmove he hgoes
    have hmatches := h.last i e row hbefore hrow
    have hnot := hlast.not_claimed hmove he
    have hmoves := step_moves h.named hstep e.job.id
    rw [hgoes.job] at hrow' hnot
    rw [hrow, hrow'] at hmoves
    cases hmoves with
    | same => exact hmatches.goes hgoes rfl rfl rfl
    | touched => exact hmatches.goes hgoes rfl rfl rfl
    | canceled => exact ⟨fun hstatus => (by cases hstatus), fun hstatus => (by cases hstatus)⟩
    | claimed _ _ _ _ ids _ hid => exact absurd hid hnot
    | reported index now execution report _ hexecution hphase hid hheld =>
      have hlive : execution.phase.live = true := by rw [hphase]; rfl
      have hown := h.held_last hexecution hlive (hid ▸ hrow) hheld
      -- the report is that of the last execution
      have hindex : index = i := Nat.le_antisymm (hbefore.2 index execution hexecution hid)
        (hown.2 i e he hid.symm)
      subst hindex
      obtain ⟨found, report', hfound, hreporting, -, hexecutions⟩ := report_step hstep
      rw [hexecution] at hfound
      cases hfound
      rw [hphase] at hreporting
      cases hreporting
      have hfinds : finds s.jobs execution.job.id execution.workerId = true := by
        rw [finds, hid, hrow]
        exact hheld
      have hafter := hlast.1
      rw [hexecutions, hfinds, List.getElem?_set_self (List.getElem?_eq_some_iff.mp he).1] at hafter
      cases hafter
      exact matches_report rfl
  · rw [hget] at hrow'
    cases hrow'
    refine ⟨fun _ => ⟨?_, rfl⟩, fun hpending => ?_⟩
    · rw [hjob, hworker]
      rfl
    · rw [hjob] at hpending
      cases hpending

theorem Kept.step (h : Kept s) (hok : EndsBeforeReclaim s label) (hstep : step s label = some t) :
    Kept t where
  named := h.named.step hstep
  stored e' he' := by
    obtain ⟨i, hi⟩ := List.getElem?_of_mem he'
    rcases execution_origin (step_executions h.named hstep) hi with ⟨e, he, hgoes⟩ |
      ⟨-, _, _, _, _, _, -, -, -, hget, -⟩
    · obtain ⟨row, hrow⟩ := h.stored e (List.mem_of_getElem? he)
      rw [hgoes.job]
      exact row_stays h.named hstep hrow
    · exact ⟨_, hget⟩
  apart _ _ _ _ hlt he he' hsame hworker := h.apart_step hok hstep hlt he he' hsame hworker
  last _ _ _ hlast hrow := h.last_step hstep hlast hrow

theorem named_init : Named ({} : Queue).jobs := fun _ _ h => by cases h

theorem kept_of_run (hrun : run step {} labels = some s)
    (hmeets : RunMeets step EndsBeforeReclaim {} labels) : Kept s :=
  run_invariant_of_meets (fun _ _ _ hs hok hstep => hs.step hok hstep) kept_init hmeets hrun

theorem final_of_run (hnamed : Named s.jobs) (hget : s.jobs.get? id = some job)
    (hfinal : job.status.final = true) (hrun : run step s labels = some t) :
    ∃ job', t.jobs.get? id = some job' ∧ job'.status = job.status := by
  have hend : Named t.jobs ∧ ∃ job', t.jobs.get? id = some job' ∧ job'.status = job.status := by
    refine run_invariant (I := fun u => Named u.jobs ∧ ∃ job', u.jobs.get? id = some job' ∧
      job'.status = job.status) ?_ ⟨hnamed, job, hget, rfl⟩ hrun
    rintro u label v ⟨hu, job', hget', hstatus⟩ hstep
    obtain ⟨job'', hget'', hstatus'⟩ := final_stays hu hstep hget' (hstatus ▸ hfinal)
    exact ⟨hu.step hstep, job'', hget'', hstatus'.trans hstatus⟩
  exact hend.2

/-- The lease of a claim has expired, or its outcome has been recorded as a retry. -/
def GivenUp (e : Execution) (now : Nat) : Prop :=
  (∃ lockedUntil, e.job.lockedUntil = some lockedUntil ∧ lockedUntil ≤ now) ∨
    ∃ error retryAt, e.phase = .reported (.fail error (some retryAt)) true

theorem Kept.givenUp (h : Kept s) {workerId : String} {limit visibilityTimeoutMs : Nat}
    (hstep : JobQueue.step s (.claim workerId limit visibilityTimeoutMs now ids) = some t)
    (hlast : Last s i e) (hid : e.job.id ∈ ids) : GivenUp e now := by
  rw [JobQueue.step] at hstep
  split at hstep
  case isFalse => cases hstep
  case isTrue hclaim =>
    obtain ⟨-, -, hdue⟩ := claimable_iff.mp hclaim
    obtain ⟨row, hrow, hready⟩ := hdue _ hid
    have hmatches := h.last i e row hlast hrow
    simp only [due, Bool.or_eq_true, Bool.and_eq_true, decide_eq_true_eq,
      Option.any_eq_true] at hready
    rcases hready with ⟨hpending, -⟩ | ⟨hrunning, lockedUntil, huntil, hle⟩
    · exact .inr (hmatches.pending hpending)
    · rw [(hmatches.running hrunning).2] at huntil
      exact .inl ⟨lockedUntil, huntil, hle⟩

theorem Kept.report_last (h : Kept s) (hstep : JobQueue.step s (.report index now) = some t)
    (he : s.executions[index]? = some e) (hchanged : t.jobs.get? e.job.id ≠ s.jobs.get? e.job.id) :
    Last s index e := by
  have hmoves := step_moves h.named hstep e.job.id
  obtain ⟨row, hrow⟩ := h.stored e (List.mem_of_getElem? he)
  rw [hrow] at hmoves hchanged
  generalize t.jobs.get? e.job.id = after at hmoves hchanged
  cases hmoves with
  | same => exact absurd rfl hchanged
  | reported _ _ execution report _ hexecution hphase hid hheld =>
    rw [he] at hexecution
    cases hexecution
    exact h.held_last he (by rw [hphase]; rfl) hrow hheld

/-- In a run in which no worker claims a job of which it still has an execution: a final status
stays, what is claimed again has been given up before, and a report changes a row only for the last
execution. -/
theorem queue_law (labels : List Label) (s : Queue) (hrun : run step {} labels = some s)
    (hmeets : RunMeets step EndsBeforeReclaim {} labels) :
    (∀ (rest : List Label) (t : Queue), run step s rest = some t → ∀ id job,
      s.jobs.get? id = some job → job.status.final = true →
      ∃ job', t.jobs.get? id = some job' ∧ job'.status = job.status) ∧
    (∀ (workerId : String) (limit visibilityTimeoutMs now : Nat) (ids : List String) (t : Queue),
      step s (.claim workerId limit visibilityTimeoutMs now ids) = some t →
      ∀ i e, Last s i e → e.job.id ∈ ids → GivenUp e now) ∧
    ∀ (index now : Nat) (t : Queue) (e : Execution), step s (.report index now) = some t →
      s.executions[index]? = some e → t.jobs.get? e.job.id ≠ s.jobs.get? e.job.id →
      Last s index e := by
  have hkept := kept_of_run hrun hmeets
  refine ⟨fun rest t hrest id job hget hfinal => ?_, fun _ _ _ _ _ _ hstep i e hlast hid => ?_,
    fun _ _ _ _ hstep he hchanged => ?_⟩
  · exact final_of_run hkept.named hget hfinal hrest
  · exact hkept.givenUp hstep hlast hid
  · exact hkept.report_last hstep he hchanged

def sweep : NewJob := ⟨"tenant", "sweep", "{}", 0, 0, 2, none, some "actor", none⟩

def claims (workerId : String) (now : Nat) : Label := .claim workerId 10 60000 now ["j1"]

/-- An execution goes on to its handler. -/
def handles (index : Nat) : List Label :=
  [.execute index 0 0 (.claimed true), .execute index 0 0 (.member true)]

/-- Its handler throws, and that is recorded. -/
def fails (index now : Nat) : List Label :=
  [.execute index now 0 (.thrown "boom"), .report index now]

def rowAfter (labels : List Label) : Option (JobStatus × Option String × Option Nat × Nat) :=
  (run step {} labels).bind fun s => (s.jobs.get? "j1").map fun job =>
    (job.status, job.lockedBy, job.lockedUntil, job.attempts)

/-- The worker claims the job again after its lease, and the report of the first execution returns
the row of the second to the queue. -/
theorem late_report_finds_row :
    rowAfter (.insert "j1" sweep 0 :: claims "w" 0 :: handles 0 ++ [claims "w" 60000]) =
      some (.running, some "w", some 120000, 2) ∧
    rowAfter (.insert "j1" sweep 0 :: claims "w" 0 :: handles 0 ++ [claims "w" 60000] ++
      fails 0 60001) = some (.pending, none, none, 2) ∧
    rowAfter (.insert "j1" sweep 0 :: claims "w" 0 :: handles 0 ++ [claims "w" 60000] ++
      fails 0 60001 ++ [claims "v" 60002]) = some (.running, some "v", some 120002, 3) := by
  refine ⟨?_, ?_, ?_⟩ <;> decide +kernel

/-- The lease of a slow execution expires, and another worker claims the job; both report. -/
def reclaimed : List Label :=
  .insert "j1" sweep 0 :: claims "w" 0 :: handles 0 ++ claims "v" 60000 :: handles 1 ++
    fails 0 60001 ++ [.execute 1 60002 0 .handled, .report 1 60002]

theorem queue_law_run : ∃ s t, run step {} reclaimed = some s ∧
    run step s [.cancel "j1" "tenant" 60003] = some t ∧
    ∃ job, t.jobs.get? "j1" = some job ∧ job.status = .succeeded :=
  ⟨_, _, rfl, rfl, (queue_law reclaimed _ rfl (by decide)).1
    [.cancel "j1" "tenant" 60003] _ rfl "j1" _ rfl rfl⟩

end Stynx.JobQueue
