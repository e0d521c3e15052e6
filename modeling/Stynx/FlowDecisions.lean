import Mathlib.Algebra.Field.Rat
import Stynx.FlowSoundness

/-!
# Decisions of human nodes

A human node run is to be completed by a decision, and to keep an open task
until then. Each fails for one kind of call: a signal may find the policy of a
node run met with nothing decided, and a withdrawal or a decision short of the
quorum may take the last open task.
-/

namespace Stynx.Flow

open ExceptFolds TransitionRuns

variable {design : Design} {depth : Nat} {env : Env}

def Design.isHuman (design : Design) (nodeId : Nat) : Bool :=
  (design.node? nodeId).any fun node => node.kind = .human

theorem Design.isHuman_iff {nodeId : Nat} :
    design.isHuman nodeId = true ↔ ∃ node, design.node? nodeId = some node ∧ node.kind = .human := by
  rw [Design.isHuman, Option.any_eq_true]
  exact exists_congr fun node => and_congr_right fun _ => decide_eq_true_iff

theorem Design.isHuman_eq_false {nodeId : Nat} {node : Node} (hnode : design.node? nodeId = some node)
    (hkind : node.kind ≠ .human) : design.isHuman nodeId = false := by
  rw [Design.isHuman, hnode]
  simpa using hkind

variable {db next : Db} {nodeRunId id : Nat} {nodeRun : NodeRun}

theorem Db.mem_tasksOf {task : Task} :
    task ∈ db.tasksOf nodeRunId ↔ task ∈ db.tasks ∧ task.nodeRunId = nodeRunId := by
  rw [Db.tasksOf, List.mem_filter, decide_eq_true_iff]

theorem Db.tasksOf_congr (h : next.tasks = db.tasks) (nodeRunId : Nat) :
    next.tasksOf nodeRunId = db.tasksOf nodeRunId := by
  rw [Db.tasksOf, Db.tasksOf, h]

theorem Db.tasksOf_append {newTasks : List Task} (h : next.tasks = db.tasks ++ newTasks)
    (hnew : ∀ task ∈ newTasks, task.nodeRunId ≠ nodeRunId) :
    next.tasksOf nodeRunId = db.tasksOf nodeRunId := by
  have hnone : newTasks.filter (fun task => decide (task.nodeRunId = nodeRunId)) = [] := by
    rw [List.filter_eq_nil_iff]
    intro task htask
    simpa using hnew task htask
  rw [Db.tasksOf, Db.tasksOf, h, List.filter_append, hnone, List.append_nil]

theorem Db.tasksOf_closeNodeRun (db : Db) (now closedId : Nat) (nodeRun : NodeRun)
    (nodeRunId : Nat) :
    (db.closeNodeRun now closedId nodeRun).tasksOf nodeRunId =
      (db.tasksOf nodeRunId).map (Task.retire now closedId) := by
  rw [Db.tasksOf, Db.tasksOf, Db.closeNodeRun, List.filter_map]
  congr 1
  refine List.filter_congr fun task _ => ?_
  simp

theorem Db.tasksOf_closeNodeRun_of_ne {now closedId : Nat} (h : nodeRunId ≠ closedId) :
    (db.closeNodeRun now closedId nodeRun).tasksOf nodeRunId = db.tasksOf nodeRunId := by
  have hretire : ∀ task ∈ db.tasksOf nodeRunId, task.retire now closedId = id task := by
    intro task htask
    refine Task.retire_of_ne ?_
    rw [(Db.mem_tasksOf.mp htask).2]
    exact h
  rw [Db.tasksOf_closeNodeRun, List.map_congr_left hretire, List.map_id]

theorem Change.length_le (h : Change design db next) :
    db.nodeRuns.length ≤ next.nodeRuns.length := by
  cases h with
  | log runs nodeRuns tasks => rw [nodeRuns]
  | openAuto runId run node hrun hnode hkind runs nodeRuns tasks =>
    rw [nodeRuns, List.length_append]
    exact Nat.le_add_right _ _
  | openHuman runId run node hrun hnode hkind runs nodeRuns tasks =>
    rw [nodeRuns, List.length_append]
    exact Nat.le_add_right _ _
  | closeAuto now nodeRunId nodeRun node hnodeRun hnode hkind runs nodeRuns tasks =>
    rw [nodeRuns, Db.closeNodeRun, List.length_set]
  | finish runId run hrun hactive hidle runs nodeRuns tasks => rw [nodeRuns]

theorem Changes.length_le (h : Changes design db next) :
    db.nodeRuns.length ≤ next.nodeRuns.length := by
  induction h with
  | refl => exact le_refl _
  | tail _ hlast ih => exact ih.trans hlast.length_le

theorem getElem?_concat_cases {rows : List NodeRun} {new : NodeRun}
    (h : (rows ++ [new])[id]? = some nodeRun) :
    rows[id]? = some nodeRun ∧ id < rows.length ∨ id = rows.length ∧ nodeRun = new := by
  rcases Nat.lt_or_ge id rows.length with hlt | hge
  · rw [List.getElem?_append_left hlt] at h
    exact .inl ⟨h, hlt⟩
  · rw [List.getElem?_append_right hge, List.getElem?_singleton] at h
    split_ifs at h with hzero
    cases h
    exact .inr ⟨by omega, rfl⟩

structure SameTasks (db next : Db) (id : Nat) (nodeRun : NodeRun) : Prop where
  row : db.nodeRuns[id]? = some nodeRun
  tasks : next.tasksOf id = db.tasksOf id

/-- A node run was inserted, in progress and with an open task. -/
structure FreshTasks (db next : Db) (id : Nat) (nodeRun : NodeRun) : Prop where
  /-- The key is new. -/
  fresh : db.nodeRuns.length ≤ id
  status : nodeRun.status = .inProgress
  task : ∃ task ∈ next.tasksOf id, task.status = .open_

theorem Change.human_cases (h : Change design db next) (hrow : next.nodeRuns[id]? = some nodeRun)
    (hhuman : design.isHuman nodeRun.nodeId = true) :
    SameTasks db next id nodeRun ∨ FreshTasks db next id nodeRun := by
  cases h with
  | log runs nodeRuns tasks =>
    rw [nodeRuns] at hrow
    exact .inl ⟨hrow, Db.tasksOf_congr tasks id⟩
  | openAuto runId run node hrun hnode hkind runs nodeRuns tasks =>
    rw [nodeRuns] at hrow
    rcases getElem?_concat_cases hrow with ⟨hold, -⟩ | ⟨-, rfl⟩
    · exact .inl ⟨hold, Db.tasksOf_congr tasks id⟩
    · rw [Design.isHuman_eq_false hnode hkind] at hhuman
      cases hhuman
  | openHuman runId run node hrun hnode hkind runs nodeRuns tasks =>
    rw [nodeRuns] at hrow
    rcases getElem?_concat_cases hrow with ⟨hold, hlt⟩ | ⟨rfl, rfl⟩
    · refine .inl ⟨hold, Db.tasksOf_append tasks ?_⟩
      intro task htask
      rw [(Design.mem_openTasks htask).2.1]
      exact hlt.ne'
    · obtain ⟨task, htask⟩ :=
        design.exists_mem_openTasks runId db.nodeRuns.length run.graphId node
      obtain ⟨-, hnodeRunId, hopen⟩ := Design.mem_openTasks htask
      refine .inr ⟨le_refl _, rfl, task, Db.mem_tasksOf.mpr ⟨?_, hnodeRunId⟩, hopen⟩
      rw [tasks]
      exact List.mem_append_right _ htask
  | closeAuto now nodeRunId closed node hclosed hnode hkind runs nodeRuns tasks =>
    rw [nodeRuns, Db.closeNodeRun] at hrow
    by_cases hid : id = nodeRunId
    · subst hid
      rw [List.getElem?_set_self (List.getElem?_eq_some_iff.mp hclosed).1] at hrow
      cases hrow
      rw [Design.isHuman_eq_false hnode hkind] at hhuman
      cases hhuman
    · rw [List.getElem?_set_ne (Ne.symm hid)] at hrow
      refine .inl ⟨hrow, ?_⟩
      rw [Db.tasksOf_congr tasks id, Db.tasksOf_closeNodeRun_of_ne hid]
  | finish runId run hrun hactive hidle runs nodeRuns tasks =>
    rw [nodeRuns] at hrow
    exact .inl ⟨hrow, Db.tasksOf_congr tasks id⟩

theorem Changes.human_cases (h : Changes design db next) (hrow : next.nodeRuns[id]? = some nodeRun)
    (hhuman : design.isHuman nodeRun.nodeId = true) :
    SameTasks db next id nodeRun ∨ FreshTasks db next id nodeRun := by
  induction h with
  | refl => exact .inl ⟨hrow, rfl⟩
  | tail hinit hlast ih =>
    rcases hlast.human_cases hrow hhuman with hsame | hfresh
    · rcases ih hsame.row with hbefore | hbefore
      · exact .inl ⟨hbefore.row, hsame.tasks.trans hbefore.tasks⟩
      · refine .inr ⟨hbefore.fresh, hbefore.status, ?_⟩
        rw [hsame.tasks]
        exact hbefore.task
    · exact .inr ⟨(Changes.length_le hinit).trans hfresh.fresh, hfresh.status, hfresh.task⟩

/-- A human node run was completed; its open tasks are retired. -/
structure ClosedTasks (design : Design) (env : Env) (db next : Db) (id : Nat) (nodeRun : NodeRun) :
    Prop where
  row : ∃ old, db.nodeRuns[id]? = some old ∧ old.nodeId = nodeRun.nodeId
  status : nodeRun.status = .completed
  tasks : next.tasksOf id = (db.tasksOf id).map (Task.retire env.now id)
  /-- The policy was met. -/
  done : ∃ node run, design.node? nodeRun.nodeId = some node ∧ node.kind = .human ∧
    nodeDone db (Run.facts env run) id node = true

theorem Tried.human_cases (h : Tried design env nodeRunId db next)
    (hrow : next.nodeRuns[id]? = some nodeRun) (hhuman : design.isHuman nodeRun.nodeId = true) :
    SameTasks db next id nodeRun ∧ (id = nodeRunId → ∀ node run,
        design.node? nodeRun.nodeId = some node → db.runs[nodeRun.runId]? = some run →
        nodeRun.status = .completed ∨ nodeDone db (run.facts env) id node = false) ∨
      FreshTasks db next id nodeRun ∨
      id = nodeRunId ∧ ClosedTasks design env db next id nodeRun := by
  cases h with
  | idle same hidle =>
    subst same
    refine .inl ⟨⟨hrow, rfl⟩, ?_⟩
    rintro rfl node run hnode hrun
    exact hidle nodeRun node run hrow hnode hrun
  | completed old node run hold _ hnode _ hdone changes =>
    rcases changes.human_cases hrow hhuman with hsame | hfresh
    · have hrow' := hsame.row
      rw [Db.closeNodeRun] at hrow'
      by_cases hid : id = nodeRunId
      · subst hid
        rw [List.getElem?_set_self (List.getElem?_eq_some_iff.mp hold).1] at hrow'
        cases hrow'
        obtain ⟨node', hnode', hkind⟩ := Design.isHuman_iff.mp hhuman
        obtain rfl := Option.some.inj (hnode.symm.trans hnode')
        refine .inr (.inr ⟨rfl, ⟨old, hold, rfl⟩, rfl, ?_, node, run, hnode, hkind, hdone⟩)
        rw [hsame.tasks, Db.tasksOf_closeNodeRun]
      · rw [List.getElem?_set_ne (Ne.symm hid)] at hrow'
        refine .inl ⟨⟨hrow', ?_⟩, fun h => absurd h hid⟩
        rw [hsame.tasks, Db.tasksOf_closeNodeRun_of_ne hid]
    · refine .inr (.inl ⟨?_, hfresh.status, hfresh.task⟩)
      have hlength := hfresh.fresh
      rw [Db.closeNodeRun, List.length_set] at hlength
      exact hlength

section

def DecisionsTaken (design : Design) (db : Db) : Prop :=
  ∀ (id : Nat) (nodeRun : NodeRun), db.nodeRuns[id]? = some nodeRun →
    design.isHuman nodeRun.nodeId = true → nodeRun.status = .completed →
    ∃ task ∈ db.tasksOf id, task.decidedAt.isSome = true

def Node.metUndecided (node : Node) (tasks : List Task) : Bool :=
  match node.decisionPolicy with
  | .all => !tasks.any fun task => task.status = .open_
  | .quorum => node.quorumRatio.getD (1 / 2) ≤ 0
  | .any => false

/-- A human node run with no decided task, whose policy is met. -/
def Db.metUndecided (design : Design) (db : Db) (nodeRunId : Nat) : Bool :=
  !((db.tasksOf nodeRunId).any fun task => task.decidedAt.isSome) &&
    (db.nodeRuns[nodeRunId]?).any fun nodeRun =>
      (design.node? nodeRun.nodeId).any fun node =>
        node.kind = .human && node.metUndecided (db.tasksOf nodeRunId)

/-- The call signals no node run whose policy is met with nothing decided. -/
def Command.awaitsDecisions (design : Design) (db : Db) : Command → Prop
  | .signalChanged _ _ _ order => ∀ id ∈ order, db.metUndecided design id = false
  | _ => True

instance (db : Db) : DecidablePred (Command.awaitsDecisions design db)
  | .signalChanged _ _ _ order => inferInstanceAs (Decidable (∀ id ∈ order, _))
  | .runEnsure .. | .taskComplete .. | .taskAssign .. | .taskUnassign .. | .taskAccept ..
  | .taskDecline .. | .taskUnaccept .. | .taskWithdraw .. | .updateRun .. => isTrue trivial

variable {db next : Db} {id nodeRunId : Nat}

theorem Db.metUndecided_iff :
    db.metUndecided design id = true ↔
      (∀ task ∈ db.tasksOf id, task.decidedAt.isSome = false) ∧
      ∃ nodeRun node, db.nodeRuns[id]? = some nodeRun ∧
        design.node? nodeRun.nodeId = some node ∧ node.kind = .human ∧
        node.metUndecided (db.tasksOf id) = true := by
  rw [Db.metUndecided, Bool.and_eq_true, Option.any_eq_true, Bool.not_eq_true', List.any_eq_false]
  refine and_congr (forall₂_congr fun task _ => iff_of_eq (Bool.not_eq_true _)) ?_
  simp only [Option.any_eq_true, Bool.and_eq_true, decide_eq_true_eq]
  constructor
  · rintro ⟨nodeRun, hrow, node, hnode, hkind, hmet⟩
    exact ⟨nodeRun, node, hrow, hnode, hkind, hmet⟩
  · rintro ⟨nodeRun, node, hrow, hnode, hkind, hmet⟩
    exact ⟨nodeRun, hrow, node, hnode, hkind, hmet⟩

theorem numericDiv_zero (divisor : Nat) : numericDiv 0 divisor = 0 := by
  have hround : (2 * 0 * 10 ^ selectDivScale 0 divisor + divisor) / (2 * divisor) = 0 := by
    rcases Nat.eq_zero_or_pos divisor with rfl | hpos
    · rfl
    · exact Nat.div_eq_of_lt (by omega)
  rw [numericDiv, hround, Nat.cast_zero, zero_div]

theorem metUndecided_of_nodeDone {facts : Facts} {node : Node} (hkind : node.kind = .human)
    (hdone : nodeDone db facts id node = true)
    (hnone : ∀ task ∈ db.tasksOf id, task.status ≠ .completed) :
    node.metUndecided (db.tasksOf id) = true := by
  rw [nodeDone, if_pos hkind] at hdone
  rw [Node.metUndecided]
  cases hpolicy : node.decisionPolicy with
  | all =>
    rw [hpolicy] at hdone
    exact hdone
  | quorum =>
    rw [hpolicy] at hdone
    have hcount : (db.tasksOf id).countP (fun task => decide (task.status = .completed)) = 0 := by
      rw [List.countP_eq_zero]
      intro task htask
      simpa using hnone task htask
    simpa [hcount, numericDiv_zero] using hdone
  | any =>
    rw [hpolicy, List.any_eq_true] at hdone
    obtain ⟨task, htask, hcompleted⟩ := hdone
    exact absurd (by simpa using hcompleted) (hnone task htask)

theorem ClosedTasks.exists_decided {nodeRun : NodeRun}
    (h : ClosedTasks design env db next id nodeRun) (hs : Sound design db)
    (hmet : db.metUndecided design id = false) :
    ∃ task ∈ next.tasksOf id, task.decidedAt.isSome = true := by
  obtain ⟨old, hrow, hnodeId⟩ := h.row
  obtain ⟨node, run, hnode, hkind, hdone⟩ := h.done
  by_contra hnone
  have hundecided : ∀ task ∈ db.tasksOf id, task.decidedAt.isSome = false := by
    intro task htask
    by_contra hdecided
    refine hnone ⟨task.retire env.now id, ?_, ?_⟩
    · rw [h.tasks]
      exact List.mem_map_of_mem htask
    · rw [Task.retire_decidedAt]
      exact Bool.eq_true_of_not_eq_false hdecided
  have hincomplete : ∀ task ∈ db.tasksOf id, task.status ≠ .completed := by
    intro task htask hcompleted
    have hdecided := hs.decided task (Db.mem_tasksOf.mp htask).1 hcompleted
    rw [hundecided task htask] at hdecided
    cases hdecided
  have hmet' : db.metUndecided design id = true := by
    refine Db.metUndecided_iff.mpr ⟨hundecided, old, node, hrow, ?_, hkind, ?_⟩
    · rw [hnodeId]
      exact hnode
    · exact metUndecided_of_nodeDone hkind hdone hincomplete
  rw [hmet] at hmet'
  cases hmet'

theorem DecisionsTaken.tried (hs : Sound design db) (hdecided : DecisionsTaken design db)
    (h : Tried design env nodeRunId db next) (hmet : db.metUndecided design nodeRunId = false) :
    DecisionsTaken design next := by
  intro id nodeRun hrow hhuman hcompleted
  rcases h.human_cases hrow hhuman with ⟨hsame, -⟩ | hfresh | ⟨rfl, hclosed⟩
  · rw [hsame.tasks]
    exact hdecided id nodeRun hsame.row hhuman hcompleted
  · rw [hfresh.status] at hcompleted
    cases hcompleted
  · exact hclosed.exists_decided hs hmet

theorem metUndecided_tried (hs : Sound design db) (h : Tried design env nodeRunId db next)
    (hmet : db.metUndecided design nodeRunId = false) (hlt : id < db.nodeRuns.length)
    (hid : db.metUndecided design id = false) :
    next.metUndecided design id = false := by
  by_contra hnext
  obtain ⟨hundecided, nodeRun, node, hrow, hnode, hkind, hpolicy⟩ :=
    Db.metUndecided_iff.mp (Bool.eq_true_of_not_eq_false hnext)
  rcases h.human_cases hrow (Design.isHuman_iff.mpr ⟨node, hnode, hkind⟩) with
    ⟨hsame, -⟩ | hfresh | ⟨rfl, hclosed⟩
  · rw [hsame.tasks] at hundecided hpolicy
    have hbefore : db.metUndecided design id = true :=
      Db.metUndecided_iff.mpr ⟨hundecided, nodeRun, node, hsame.row, hnode, hkind, hpolicy⟩
    rw [hid] at hbefore
    cases hbefore
  · exact absurd hlt (Nat.not_lt.mpr hfresh.fresh)
  · obtain ⟨task, htask, hdecided⟩ := hclosed.exists_decided hs hmet
    rw [hundecided task htask] at hdecided
    cases hdecided

theorem Tried.length_le (h : Tried design env nodeRunId db next) :
    db.nodeRuns.length ≤ next.nodeRuns.length := by
  cases h with
  | idle same _ =>
    subst same
    exact le_refl _
  | completed old node run hold _ hnode _ hdone changes =>
    have hlength := Changes.length_le changes
    rw [Db.closeNodeRun, List.length_set] at hlength
    exact hlength

theorem DecisionsTaken.loop {order : List Nat} {note : Option String} (hs : Sound design db)
    (hdecided : DecisionsTaken design db) (hlt : ∀ id ∈ order, id < db.nodeRuns.length)
    (hmet : ∀ id ∈ order, db.metUndecided design id = false)
    (h : order.foldlM (fun db id => nodeTryComplete design env depth id none note db) db =
      .ok next) : DecisionsTaken design next := by
  induction order generalizing db with
  | nil =>
    cases h
    exact hdecided
  | cons first rest ih =>
    rw [List.foldlM_cons] at h
    obtain ⟨middle, hfirst, hrest⟩ := bind_eq_ok.mp h
    have htried := nodeTryComplete_tried hfirst
    have hmetFirst := hmet first (.head _)
    refine ih (sound_tried hs htried) (hdecided.tried hs htried hmetFirst) ?_ ?_ hrest
    · intro id hid
      exact (hlt id (.tail _ hid)).trans_le htried.length_le
    · intro id hid
      exact metUndecided_tried hs htried hmetFirst (hlt id (.tail _ hid)) (hmet id (.tail _ hid))

theorem DecisionsTaken.congr (hdecided : DecisionsTaken design db)
    (hnodeRuns : next.nodeRuns = db.nodeRuns)
    (htasks : ∀ (id : Nat) (task : Task), task ∈ db.tasksOf id → task.decidedAt.isSome = true →
      ∃ new ∈ next.tasksOf id, new.decidedAt.isSome = true) : DecisionsTaken design next := by
  intro id nodeRun hrow hhuman hcompleted
  rw [hnodeRuns] at hrow
  obtain ⟨task, htask, hsome⟩ := hdecided id nodeRun hrow hhuman hcompleted
  exact htasks id task htask hsome

theorem exists_decided_set {taskId : Nat} {task new : Task} (htask : db.tasks[taskId]? = some task)
    (htasks : next.tasks = db.tasks.set taskId new) (hnodeRunId : new.nodeRunId = task.nodeRunId)
    (hstays : task.decidedAt.isSome = true → new.decidedAt.isSome = true) {other : Task}
    (hother : other ∈ db.tasksOf id) (hsome : other.decidedAt.isSome = true) :
    ∃ found ∈ next.tasksOf id, found.decidedAt.isSome = true := by
  obtain ⟨hmem, rfl⟩ := Db.mem_tasksOf.mp hother
  obtain ⟨index, hindex⟩ := List.mem_iff_getElem?.mp hmem
  by_cases hsame : index = taskId
  · subst hsame
    obtain rfl := Option.some.inj (htask.symm.trans hindex)
    refine ⟨new, Db.mem_tasksOf.mpr ⟨?_, hnodeRunId⟩, hstays hsome⟩
    rw [htasks]
    exact List.mem_set (List.getElem?_eq_some_iff.mp htask).1 new
  · refine ⟨other, Db.mem_tasksOf.mpr ⟨?_, rfl⟩, hsome⟩
    refine List.mem_of_getElem? (i := index) ?_
    rw [htasks, List.getElem?_set_ne (Ne.symm hsame)]
    exact hindex

theorem DecisionsTaken.changes (hdecided : DecisionsTaken design db) (h : Changes design db next) :
    DecisionsTaken design next := by
  intro id nodeRun hrow hhuman hcompleted
  rcases h.human_cases hrow hhuman with hsame | hfresh
  · rw [hsame.tasks]
    exact hdecided id nodeRun hsame.row hhuman hcompleted
  · rw [hfresh.status] at hcompleted
    cases hcompleted

@[simp] theorem Db.upsertRun_nodeRuns (db : Db) (graph : Graph)
    (adapterKey targetType targetId : String) :
    (db.upsertRun graph adapterKey targetType targetId).1.nodeRuns = db.nodeRuns := by
  rw [Db.upsertRun]
  split <;> rfl

@[simp] theorem Db.upsertRun_tasks (db : Db) (graph : Graph)
    (adapterKey targetType targetId : String) :
    (db.upsertRun graph adapterKey targetType targetId).1.tasks = db.tasks := by
  rw [Db.upsertRun]
  split <;> rfl

theorem Db.lt_of_mem_signalledNodeRuns {scopeId : Nat} {targetType : Option String}
    {targetId : String} (h : id ∈ db.signalledNodeRuns scopeId targetType targetId) :
    id < db.nodeRuns.length :=
  List.mem_range.mp (List.mem_filter.mp h).1

theorem metUndecided_writeTask {taskId : Nat} {task : Task} (htask : db.tasks[taskId]? = some task)
    (action : String) (note payload : Option String) (eventPayload : EventPayload) :
    (db.writeTask taskId task (task.decide env.now action note payload) .taskDone env note
      eventPayload).metUndecided design task.nodeRunId = false := by
  by_contra hmet
  obtain ⟨hundecided, -⟩ := Db.metUndecided_iff.mp (Bool.eq_true_of_not_eq_false hmet)
  have hmem : task.decide env.now action note payload ∈ (db.writeTask taskId task
      (task.decide env.now action note payload) .taskDone env note
      eventPayload).tasksOf task.nodeRunId := by
    refine Db.mem_tasksOf.mpr ⟨?_, rfl⟩
    exact List.mem_set (List.getElem?_eq_some_iff.mp htask).1 _
  have hsome := hundecided _ hmem
  cases hsome

theorem DecisionsTaken.acts {command : Command} (hs : Sound design db)
    (hdecided : DecisionsTaken design db) (hawaits : command.awaitsDecisions design db)
    (h : Acts design depth env db next command) : DecisionsTaken design next := by
  cases h with
  | rejected _ same =>
    subst same
    exact hdecided
  | ensured graphCode version scopeCode adapterKey targetType targetId runId h =>
    obtain ⟨graph, scopeKey, -, -, changes⟩ := runEnsure_changes h
    refine DecisionsTaken.changes (hdecided.congr (db.upsertRun_nodeRuns _ _ _ _) ?_) changes
    intro id task htask hsome
    refine ⟨task, ?_, hsome⟩
    rw [Db.tasksOf_congr (db.upsertRun_tasks _ _ _ _)]
    exact htask
  | decided taskId action note payload task htask hopen hforms h =>
    refine DecisionsTaken.tried (hs.decide_task htask _ _ _ _ _) (hdecided.congr rfl ?_)
      (nodeTryComplete_tried h) (metUndecided_writeTask htask _ _ _ _)
    intro id other hother hsome
    refine exists_decided_set htask rfl ?_ ?_ hother hsome
    · rfl
    · exact fun _ => rfl
  | rewritten _ taskId task new htask hsame runs nodeRuns tasks =>
    refine hdecided.congr nodeRuns ?_
    intro id other hother hsome
    refine exists_decided_set htask tasks hsame.nodeRunId ?_ hother hsome
    rw [hsame.decidedAt]
    exact fun hsome => hsome
  | withdrawn taskId note task htask runs nodeRuns tasks =>
    refine hdecided.congr nodeRuns ?_
    intro id other hother hsome
    exact exists_decided_set htask tasks rfl (fun hsome => hsome) hother hsome
  | signalled scopeId targetType targetId order horder h =>
    refine DecisionsTaken.loop ?_ ?_ ?_ ?_ h
    · exact hs.congr rfl rfl rfl
    · exact hdecided
    · intro id hid
      exact Db.lt_of_mem_signalledNodeRuns (horder.mem_iff.mp hid)
    · exact hawaits
  | updated runId status run hrun runs nodeRuns tasks =>
    refine hdecided.congr nodeRuns ?_
    intro id task htask hsome
    refine ⟨task, ?_, hsome⟩
    rw [Db.tasksOf_congr tasks]
    exact htask

/-- In a run in which every call awaits the decisions, every completed human node run was
decided. -/
theorem decisions_taken {calls : List Call} {db : Db}
    (hawaits : RunMeets (step design depth) (fun db call => call.command.awaitsDecisions design db)
      Db.empty calls)
    (h : run (step design depth) Db.empty calls = some db) : DecisionsTaken design db := by
  have hstep : ∀ (db : Db) (call : Call) (next : Db), Sound design db ∧ DecisionsTaken design db →
      call.command.awaitsDecisions design db → step design depth db call = some next →
      Sound design next ∧ DecisionsTaken design next := by
    rintro db call next ⟨hs, hdecided⟩ hawaits hstep
    exact ⟨sound_acts hs (step_acts hstep), hdecided.acts hs hawaits (step_acts hstep)⟩
  have hempty : DecisionsTaken design Db.empty := by
    intro id nodeRun hrow
    cases hrow
  exact (run_invariant_of_meets hstep ⟨sound_empty, hempty⟩ hawaits h).2

def reviewDesign (policy : DecisionPolicy) (ratio : Option ℚ) (reviewers : List AgentRule) :
    Design where
  scopes := [⟨1, "orders", "erp"⟩]
  graphs := [⟨1, 1, "approval", "1", true, 0⟩]
  nodes :=
    [⟨1, 1, "start", .start, .all, none, [], none, none, 0⟩,
      ⟨2, 1, "review", .human, policy, ratio, ["approve", "reject"], none, none, 1⟩,
      ⟨3, 1, "end", .end_, .all, none, [], none, none, 2⟩]
  edges := [⟨1, 1, 1, 2, none, none, 0⟩, ⟨2, 1, 2, 3, none, none, 0⟩]
  agentRules := reviewers
  transitionEffects := []
  forms := []
  nodeFormRules := []
  graphs_unique := approval_unique
  nodes_unique := by simp
  edges_target := by simp

def reviewer (id : Nat) (user : String) : AgentRule := ⟨id, 2, .user, none, some user, none, id⟩

/-- Surroundings in which no rule holds. -/
def quietEnv (now : Nat) : Env where
  actor := some "u1"
  now := now
  facts := fun _ _ _ => ⟨fun _ => false, fun _ => none, fun _ => none⟩
  answered := fun _ _ _ _ => false
  waived := fun _ _ _ _ => false

def ensureReview (now : Nat) : Call :=
  ⟨quietEnv now, .runEnsure "approval" "1" "orders" none "order" "o1"⟩

def approve (now taskId : Nat) : Call :=
  ⟨quietEnv now, .taskComplete taskId "approve" none none⟩

def withdraw (now taskId : Nat) : Call := ⟨quietEnv now, .taskWithdraw taskId none⟩

/-- The target is signalled, with the review in progress. -/
def signalReview (now : Nat) : Call := ⟨quietEnv now, .signalChanged 1 none "o1" [1]⟩

/-- Two of three reviewers approve, and a signal finds the review decided. -/
theorem decisions_taken_majority :
    ∃ db, run (step (reviewDesign .quorum none [reviewer 1 "a", reviewer 2 "b", reviewer 3 "c"]) 4)
        Db.empty [ensureReview 0, signalReview 1, approve 2 0, approve 3 1] = some db ∧
      (db.nodeRuns[1]?).map NodeRun.status = some .completed ∧
      DecisionsTaken (reviewDesign .quorum none [reviewer 1 "a", reviewer 2 "b", reviewer 3 "c"])
        db := by
  have hprobe : (run (step (reviewDesign .quorum none
      [reviewer 1 "a", reviewer 2 "b", reviewer 3 "c"]) 4) Db.empty
      [ensureReview 0, signalReview 1, approve 2 0, approve 3 1]).map
        (fun db => (db.nodeRuns[1]?).map NodeRun.status) = some (some .completed) := by
    decide +kernel
  obtain ⟨db, hrun, hstatus⟩ := Option.map_eq_some_iff.mp hprobe
  refine ⟨db, hrun, hstatus, decisions_taken ?_ hrun⟩
  decide +kernel

/-- The only task of the review is withdrawn, and a signal completes the review undecided. -/
theorem withdrawn_review_completes :
    ∃ db, run (step (reviewDesign .all none []) 4) Db.empty
        [ensureReview 0, withdraw 1 0, signalReview 2] = some db ∧
      ¬ DecisionsTaken (reviewDesign .all none []) db := by
  have hprobe : (run (step (reviewDesign .all none []) 4) Db.empty
      [ensureReview 0, withdraw 1 0, signalReview 2]).map
        (fun db => ((db.nodeRuns[1]?).map fun nodeRun =>
          (nodeRun.nodeId, nodeRun.status), (db.tasksOf 1).map Task.decidedAt)) =
      some (some (2, .completed), [none]) := by
    decide
  obtain ⟨db, hrun, hstatus⟩ := Option.map_eq_some_iff.mp hprobe
  refine ⟨db, hrun, ?_⟩
  intro hdecided
  obtain ⟨hrow, htasks⟩ := Prod.mk.inj hstatus
  obtain ⟨nodeRun, hget, heq⟩ := Option.map_eq_some_iff.mp hrow
  obtain ⟨hnode, hcompleted⟩ := Prod.mk.inj heq
  have hhuman : (reviewDesign .all none []).isHuman nodeRun.nodeId = true := by
    rw [hnode]
    decide
  obtain ⟨task, htask, hsome⟩ := hdecided 1 nodeRun hget hhuman hcompleted
  have hmem : task.decidedAt ∈ [none] := by
    rw [← htasks]
    exact List.mem_map_of_mem htask
  rw [List.mem_singleton.mp hmem] at hsome
  cases hsome

end

def OpenTasksRemain (design : Design) (db : Db) : Prop :=
  ∀ (id : Nat) (nodeRun : NodeRun), db.nodeRuns[id]? = some nodeRun →
    design.isHuman nodeRun.nodeId = true → nodeRun.status = .inProgress →
    ∃ task ∈ db.tasksOf id, task.status = .open_

def Db.openCount (db : Db) (nodeRunId : Nat) : Nat :=
  (db.tasksOf nodeRunId).countP fun task => task.status = .open_

def Db.lastOpen (db : Db) (task : Task) : Bool :=
  task.status = .open_ && db.openCount task.nodeRunId = 1

/-- The node run needs a quorum, and with one more completed task it is still short of it. -/
def Db.missesQuorum (design : Design) (db : Db) (nodeRunId : Nat) : Bool :=
  (db.nodeRuns[nodeRunId]?).any fun nodeRun =>
    (design.node? nodeRun.nodeId).any fun node =>
      node.decisionPolicy = .quorum &&
        numericDiv (((db.tasksOf nodeRunId).countP fun task => task.status = .completed) + 1)
          (max (db.tasksOf nodeRunId).length 1) < node.quorumRatio.getD (1 / 2)

/-- The call does not take the last open task of a node run that then stays in progress. -/
def Command.keepsOpenTask (design : Design) (env : Env) (db : Db) : Command → Bool
  | .taskWithdraw taskId _ => (db.tasks[taskId]?).all fun task => !db.lastOpen task
  | .taskComplete taskId _ _ _ => (db.tasks[taskId]?).all fun task =>
      !(db.lastOpen task && db.missesQuorum design task.nodeRunId &&
        (nodeFormRulesSatisfied design env task.nodeRunId db).toOption = some true)
  | _ => true

variable {db next : Db} {taskId : Nat} {task new : Task}

theorem Db.openCount_pos {id : Nat} :
    0 < db.openCount id ↔ ∃ task ∈ db.tasksOf id, task.status = .open_ := by
  rw [Db.openCount, List.countP_pos_iff]
  simp

theorem Db.countP_tasksOf_set {p : Task → Bool} (htask : db.tasks[taskId]? = some task)
    (htasks : next.tasks = db.tasks.set taskId new) (hnodeRunId : new.nodeRunId = task.nodeRunId)
    (id : Nat) :
    (next.tasksOf id).countP p + (if task.nodeRunId = id ∧ p task = true then 1 else 0) =
      (db.tasksOf id).countP p + (if task.nodeRunId = id ∧ p new = true then 1 else 0) := by
  obtain ⟨hlt, hget⟩ := List.getElem?_eq_some_iff.mp htask
  have hcounted : ∀ other : Task, other.nodeRunId = task.nodeRunId →
      ((p other && decide (other.nodeRunId = id)) = true ↔
        task.nodeRunId = id ∧ p other = true) := by
    intro other hother
    rw [Bool.and_eq_true, decide_eq_true_eq, hother, and_comm]
  have hpos : task.nodeRunId = id ∧ p task = true →
      0 < db.tasks.countP fun other => p other && decide (other.nodeRunId = id) := by
    intro hcount
    exact List.countP_pos_iff.mpr ⟨task, List.mem_of_getElem? htask, (hcounted task rfl).mpr hcount⟩
  rw [Db.tasksOf, Db.tasksOf, List.countP_filter, List.countP_filter, htasks,
    List.countP_set hlt, hget]
  simp only [hcounted task rfl, hcounted new hnodeRunId]
  split_ifs with hold hnew hnew
  · have := hpos hold
    omega
  · have := hpos hold
    omega
  · omega
  · omega

theorem OpenTasksRemain.changes (hopen : OpenTasksRemain design db) (h : Changes design db next) :
    OpenTasksRemain design next := by
  intro id nodeRun hrow hhuman hprogress
  rcases h.human_cases hrow hhuman with hsame | hfresh
  · rw [hsame.tasks]
    exact hopen id nodeRun hsame.row hhuman hprogress
  · exact hfresh.task

theorem OpenTasksRemain.tried {nodeRunId : Nat}
    (hopen : ∀ (id : Nat) (nodeRun : NodeRun), db.nodeRuns[id]? = some nodeRun →
      design.isHuman nodeRun.nodeId = true → nodeRun.status = .inProgress →
      (∃ task ∈ db.tasksOf id, task.status = .open_) ∨ id = nodeRunId ∧ ∃ node run,
        design.node? nodeRun.nodeId = some node ∧ db.runs[nodeRun.runId]? = some run ∧
        nodeDone db (run.facts env) id node = true)
    (h : Tried design env nodeRunId db next) : OpenTasksRemain design next := by
  intro id nodeRun hrow hhuman hprogress
  rcases h.human_cases hrow hhuman with ⟨hsame, hidle⟩ | hfresh | ⟨rfl, hclosed⟩
  · rcases hopen id nodeRun hsame.row hhuman hprogress with
      htask | ⟨hid, node, run, hnode, hrun, hdone⟩
    · rw [hsame.tasks]
      exact htask
    · rcases hidle hid node run hnode hrun with hcompleted | hnot
      · rw [hprogress] at hcompleted
        cases hcompleted
      · rw [hdone] at hnot
        cases hnot
  · exact hfresh.task
  · rw [hclosed.status] at hprogress
    cases hprogress

theorem Db.openCount_pos_of_set (htask : db.tasks[taskId]? = some task)
    (htasks : next.tasks = db.tasks.set taskId new) (hnodeRunId : new.nodeRunId = task.nodeRunId)
    {id : Nat} (hkeeps : new.status = task.status ∨ db.lastOpen task = false ∨ id ≠ task.nodeRunId)
    (hpos : 0 < db.openCount id) : 0 < next.openCount id := by
  have hcount : next.openCount id + (if task.nodeRunId = id ∧ task.status = .open_ then 1 else 0) =
      db.openCount id + (if task.nodeRunId = id ∧ new.status = .open_ then 1 else 0) := by
    simpa [Db.openCount] using Db.countP_tasksOf_set htask htasks hnodeRunId id
      (p := fun task => decide (task.status = .open_))
  rcases hkeeps with hstatus | hlast | hid
  · rw [hstatus] at hcount
    omega
  · by_cases hcounted : task.nodeRunId = id ∧ task.status = .open_
    · obtain ⟨rfl, hopen⟩ := hcounted
      have htwo : db.openCount task.nodeRunId ≠ 1 := by
        simpa [Db.lastOpen, hopen] using hlast
      rw [if_pos ⟨rfl, hopen⟩] at hcount
      omega
    · rw [if_neg hcounted] at hcount
      omega
  · rw [if_neg fun h => hid h.1.symm] at hcount
    omega

theorem OpenTasksRemain.set_task (hopen : OpenTasksRemain design db)
    (htask : db.tasks[taskId]? = some task) (htasks : next.tasks = db.tasks.set taskId new)
    (hnodeRunId : new.nodeRunId = task.nodeRunId)
    (hkeeps : new.status = task.status ∨ db.lastOpen task = false)
    (hnodeRuns : next.nodeRuns = db.nodeRuns) : OpenTasksRemain design next := by
  intro id nodeRun hrow hhuman hprogress
  rw [hnodeRuns] at hrow
  have hpos := Db.openCount_pos.mpr (hopen id nodeRun hrow hhuman hprogress)
  exact Db.openCount_pos.mp
    (Db.openCount_pos_of_set htask htasks hnodeRunId (hkeeps.imp_right .inl) hpos)

theorem nodeDone_of_lastOpen {facts : Facts} {nodeRun : NodeRun} {node : Node}
    (htask : db.tasks[taskId]? = some task) (htasks : next.tasks = db.tasks.set taskId new)
    (hnodeRunId : new.nodeRunId = task.nodeRunId) (hcompleted : new.status = .completed)
    (hrow : db.nodeRuns[task.nodeRunId]? = some nodeRun)
    (hnode : design.node? nodeRun.nodeId = some node) (hkind : node.kind = .human)
    (hlast : db.lastOpen task = true) (hquorum : db.missesQuorum design task.nodeRunId = false) :
    nodeDone next facts task.nodeRunId node = true := by
  have hboth : task.status = .open_ ∧ db.openCount task.nodeRunId = 1 := by
    simpa [Db.lastOpen] using hlast
  obtain ⟨hopen, hone⟩ := hboth
  have hcount := fun p => Db.countP_tasksOf_set (p := p) htask htasks hnodeRunId task.nodeRunId
  have hdone : (next.tasksOf task.nodeRunId).countP
      (fun task => decide (task.status = .completed)) =
      (db.tasksOf task.nodeRunId).countP (fun task => decide (task.status = .completed)) + 1 := by
    simpa [hopen, hcompleted] using hcount fun task => decide (task.status = .completed)
  have hlength : (next.tasksOf task.nodeRunId).length = (db.tasksOf task.nodeRunId).length := by
    simpa using hcount fun _ => true
  have hnone : next.openCount task.nodeRunId = 0 := by
    have := hcount fun task => decide (task.status = .open_)
    simp [hopen, hcompleted] at this
    rw [Db.openCount] at hone ⊢
    omega
  rw [nodeDone, if_pos hkind]
  cases hpolicy : node.decisionPolicy with
  | all =>
    rw [Db.openCount, List.countP_eq_zero] at hnone
    simpa using hnone
  | quorum =>
    have hmissed : (db.missesQuorum design task.nodeRunId) = false := hquorum
    simp only [Db.missesQuorum, hrow, hnode, Option.any_some, hpolicy, decide_true, Bool.true_and,
      decide_eq_false_iff_not, not_lt] at hmissed
    rw [decide_eq_true_eq, hdone, hlength]
    exact hmissed
  | any =>
    have hpos : 0 < (next.tasksOf task.nodeRunId).countP
        (fun task => decide (task.status = .completed)) := by omega
    rw [List.any_eq_true]
    exact List.countP_pos_iff.mp hpos

/-- A call that keeps an open task leaves no node run without one. -/
theorem OpenTasksRemain.acts {command : Command} (hs : Sound design db)
    (hopen : OpenTasksRemain design db) (hkeeps : command.keepsOpenTask design env db = true)
    (h : Acts design depth env db next command) : OpenTasksRemain design next := by
  cases h with
  | rejected _ same =>
    subst same
    exact hopen
  | ensured graphCode version scopeCode adapterKey targetType targetId runId h =>
    obtain ⟨graph, scopeKey, -, -, changes⟩ := runEnsure_changes h
    refine OpenTasksRemain.changes ?_ changes
    intro id nodeRun hrow hhuman hprogress
    rw [Db.upsertRun_nodeRuns] at hrow
    rw [Db.tasksOf_congr (db.upsertRun_tasks _ _ _ _)]
    exact hopen id nodeRun hrow hhuman hprogress
  | decided taskId action note payload task htask hstatus hforms h =>
    refine OpenTasksRemain.tried ?_ (nodeTryComplete_tried h)
    intro id nodeRun hrow hhuman hprogress
    have hpos := Db.openCount_pos.mpr (hopen id nodeRun hrow hhuman hprogress)
    by_cases hlast : id = task.nodeRunId ∧ db.lastOpen task = true
    · obtain ⟨rfl, hlast⟩ := hlast
      have hquorum : db.missesQuorum design task.nodeRunId = false := by
        simpa [Command.keepsOpenTask, htask, hlast, hforms, Except.toOption] using hkeeps
      obtain ⟨node, hnode, hkind⟩ := Design.isHuman_iff.mp hhuman
      obtain ⟨-, hrun, -⟩ := hs.nodeRuns nodeRun (List.mem_of_getElem? hrow)
      refine .inr ⟨rfl, node, db.runs[nodeRun.runId], hnode, List.getElem?_eq_getElem hrun, ?_⟩
      refine nodeDone_of_lastOpen htask rfl ?_ ?_ hrow hnode hkind hlast hquorum
      · rfl
      · rfl
    · refine .inl (Db.openCount_pos.mp (Db.openCount_pos_of_set htask rfl ?_ (.inr ?_) hpos))
      · rfl
      · rcases not_and_or.mp hlast with hid | hlast
        · exact .inr hid
        · exact .inl (Bool.eq_false_of_not_eq_true hlast)
  | rewritten _ taskId task new htask hsame runs nodeRuns tasks =>
    exact hopen.set_task htask tasks hsame.nodeRunId (.inl hsame.status) nodeRuns
  | withdrawn taskId note task htask runs nodeRuns tasks =>
    refine hopen.set_task htask tasks rfl (.inr ?_) nodeRuns
    simpa [Command.keepsOpenTask, htask] using hkeeps
  | signalled scopeId targetType targetId order horder h =>
    refine foldlM_relation (fun db next => OpenTasksRemain design db → OpenTasksRemain design next)
      (fun _ => fun h => h) (fun _ _ _ h h' hs => h' (h hs)) ?_ h hopen
    intro db id next h hopen
    exact OpenTasksRemain.tried (fun id nodeRun hrow hhuman hprogress =>
      .inl (hopen id nodeRun hrow hhuman hprogress)) (nodeTryComplete_tried h)
  | updated runId status run hrun runs nodeRuns tasks =>
    intro id nodeRun hrow hhuman hprogress
    rw [nodeRuns] at hrow
    rw [Db.tasksOf_congr tasks]
    exact hopen id nodeRun hrow hhuman hprogress

/-- In a run in which every call keeps an open task, every human node run in progress has one. -/
theorem open_tasks_remain {calls : List Call} {db : Db}
    (hkeeps : RunMeets (step design depth)
      (fun db call => call.command.keepsOpenTask design call.env db = true) Db.empty calls)
    (h : run (step design depth) Db.empty calls = some db) : OpenTasksRemain design db := by
  have hstep : ∀ (db : Db) (call : Call) (next : Db), Sound design db ∧ OpenTasksRemain design db →
      call.command.keepsOpenTask design call.env db = true →
      step design depth db call = some next → Sound design next ∧ OpenTasksRemain design next := by
    rintro db call next ⟨hs, hopen⟩ hkeeps hstep
    exact ⟨sound_acts hs (step_acts hstep), hopen.acts hs hkeeps (step_acts hstep)⟩
  have hempty : OpenTasksRemain design Db.empty := by
    intro id nodeRun hrow
    cases hrow
  exact (run_invariant_of_meets hstep ⟨sound_empty, hempty⟩ hkeeps h).2

/-- One of three tasks is withdrawn and one decided; the third is still open. -/
theorem open_tasks_remain_mixed :
    ∃ db, run (step (reviewDesign .all none [reviewer 1 "a", reviewer 2 "b", reviewer 3 "c"]) 4)
        Db.empty [ensureReview 0, withdraw 1 0, approve 2 1] = some db ∧
      (db.nodeRuns[1]?).map NodeRun.status = some .inProgress ∧
      OpenTasksRemain (reviewDesign .all none [reviewer 1 "a", reviewer 2 "b", reviewer 3 "c"])
        db := by
  have hprobe : (run (step (reviewDesign .all none
      [reviewer 1 "a", reviewer 2 "b", reviewer 3 "c"]) 4) Db.empty
      [ensureReview 0, withdraw 1 0, approve 2 1]).map
        (fun db => (db.nodeRuns[1]?).map NodeRun.status) = some (some .inProgress) := by
    decide
  obtain ⟨db, hrun, hstatus⟩ := Option.map_eq_some_iff.mp hprobe
  refine ⟨db, hrun, hstatus, open_tasks_remain ?_ hrun⟩
  decide

/-- One of two tasks is decided, the other withdrawn: three quarters of them are never reached. -/
theorem withdrawn_review_is_stuck :
    ∃ db, run (step (reviewDesign .quorum (some (3 / 4)) [reviewer 1 "a", reviewer 2 "b"]) 4)
        Db.empty [ensureReview 0, approve 1 0, withdraw 2 1] = some db ∧
      ¬ OpenTasksRemain (reviewDesign .quorum (some (3 / 4)) [reviewer 1 "a", reviewer 2 "b"])
        db := by
  have hprobe : (run (step (reviewDesign .quorum (some (3 / 4))
      [reviewer 1 "a", reviewer 2 "b"]) 4) Db.empty
      [ensureReview 0, approve 1 0, withdraw 2 1]).map
        (fun db => ((db.nodeRuns[1]?).map fun nodeRun =>
          (nodeRun.nodeId, nodeRun.status), (db.tasksOf 1).map Task.status)) =
      some (some (2, .inProgress), [.completed, .canceled]) := by
    decide +kernel
  obtain ⟨db, hrun, hprobed⟩ := Option.map_eq_some_iff.mp hprobe
  refine ⟨db, hrun, ?_⟩
  intro hopen
  obtain ⟨hrow, htasks⟩ := Prod.mk.inj hprobed
  obtain ⟨nodeRun, hget, heq⟩ := Option.map_eq_some_iff.mp hrow
  obtain ⟨hnode, hprogress⟩ := Prod.mk.inj heq
  have hhuman : (reviewDesign .quorum (some (3 / 4))
      [reviewer 1 "a", reviewer 2 "b"]).isHuman nodeRun.nodeId = true := by
    rw [hnode]
    decide
  obtain ⟨task, htask, hstatus⟩ := hopen 1 nodeRun hget hhuman hprogress
  have hmem : task.status ∈ [TaskStatus.completed, TaskStatus.canceled] := by
    rw [← htasks]
    exact List.mem_map_of_mem htask
  rw [hstatus] at hmem
  revert hmem
  decide

end Stynx.Flow
