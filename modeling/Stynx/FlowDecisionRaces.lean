import Stynx.FlowTaskComplete

/-!
# Concurrent decisions complete a node run once

Every transaction that writes holds the row of the node run when it commits, so what it has read of
the node run is committed. What the calls settle is whether the node run is completed by the time
it is decided.
-/

namespace Stynx.Flow

open ExceptFolds ReadCommitted
open TransitionRuns

section

variable {design : Design} {depth nodeRunId runId nodeId : Nat}

structure HumanRow (design : Design) (nodeRunId runId nodeId : Nat) (db : Db) : Prop where
  human : design.isHuman nodeId = true
  row : ∃ nodeRun, db.nodeRuns[nodeRunId]? = some nodeRun ∧ nodeRun.runId = runId ∧
    nodeRun.nodeId = nodeId

/-- A node run and its tasks are as they were. -/
structure SameNodeRun (nodeRunId : Nat) (db next : Db) : Prop where
  row : next.nodeRuns[nodeRunId]? = db.nodeRuns[nodeRunId]?
  tasks : ∀ (taskId : Nat) (task : Task), db.tasks[taskId]? = some task →
    task.nodeRunId = nodeRunId → next.tasks[taskId]? = some task
  tasksOf : next.tasksOf nodeRunId = db.tasksOf nodeRunId

theorem SameNodeRun.refl (nodeRunId : Nat) (db : Db) : SameNodeRun nodeRunId db db :=
  ⟨rfl, fun _ _ h _ => h, rfl⟩

variable {db next : Db} {closing : Closing} {edge : Edge}

theorem SameNodeRun.trans {middle : Db} (h : SameNodeRun nodeRunId db middle)
    (h' : SameNodeRun nodeRunId middle next) : SameNodeRun nodeRunId db next where
  row := h'.row.trans h.row
  tasks taskId task htask hof := h'.tasks taskId task (h.tasks taskId task htask hof) hof
  tasksOf := h'.tasksOf.trans h.tasksOf

theorem SameNodeRun.of_eq (hnodeRuns : next.nodeRuns = db.nodeRuns) (htasks : next.tasks = db.tasks) :
    SameNodeRun nodeRunId db next where
  row := by rw [hnodeRuns]
  tasks taskId task htask _ := by rw [htasks, htask]
  tasksOf := Db.tasksOf_congr htasks nodeRunId

section

variable (hrow : HumanRow design nodeRunId runId nodeId db)
include hrow

theorem Change.sameNodeRun (h : Change design db next) : SameNodeRun nodeRunId db next := by
  obtain ⟨hhuman, nodeRun, hget, -, rfl⟩ := hrow
  have hlt : nodeRunId < db.nodeRuns.length := (List.getElem?_eq_some_iff.mp hget).1
  cases h with
  | log runs nodeRuns tasks => exact .of_eq nodeRuns tasks
  | openAuto openRunId run node hrun hnode hkind runs nodeRuns tasks =>
    refine ⟨?_, fun taskId task htask _ => by rw [tasks, htask], Db.tasksOf_congr tasks nodeRunId⟩
    rw [nodeRuns, List.getElem?_append_left hlt]
  | openHuman openRunId run node hrun hnode hkind runs nodeRuns tasks =>
    refine ⟨?_, ?_, Db.tasksOf_append tasks ?_⟩
    · rw [nodeRuns, List.getElem?_append_left hlt]
    · intro taskId task htask _
      rw [tasks, List.getElem?_append_left (List.getElem?_eq_some_iff.mp htask).1, htask]
    · intro task htask
      rw [(Design.mem_openTasks htask).2.1]
      exact hlt.ne'
  | closeAuto now closedId closed node hclosed hnode hkind runs nodeRuns tasks =>
    have hne : nodeRunId ≠ closedId := by
      rintro rfl
      obtain rfl := Option.some.inj (hget.symm.trans hclosed)
      rw [Design.isHuman_eq_false hnode hkind] at hhuman
      cases hhuman
    refine ⟨?_, ?_, ?_⟩
    · rw [nodeRuns, Db.closeNodeRun, List.getElem?_set_ne hne.symm]
    · intro taskId task htask hof
      have hretire : task.retire now closedId = task := by
        refine Task.retire_of_ne ?_
        rw [hof]
        exact hne
      rw [tasks, Db.closeNodeRun, List.getElem?_map, htask, Option.map_some, hretire]
    · rw [Db.tasksOf_congr tasks nodeRunId, Db.tasksOf_closeNodeRun_of_ne hne]
  | finish openRunId run hrun hactive hidle runs nodeRuns tasks => exact .of_eq nodeRuns tasks

theorem HumanRow.congr (h : next.nodeRuns[nodeRunId]? = db.nodeRuns[nodeRunId]?) :
    HumanRow design nodeRunId runId nodeId next := by
  refine ⟨hrow.human, ?_⟩
  rw [h]
  exact hrow.row

theorem Changes.sameNodeRun (h : Changes design db next) : SameNodeRun nodeRunId db next := by
  induction h with
  | refl => exact .refl nodeRunId db
  | tail _ hlast ih => exact ih.trans (hlast.sameNodeRun (hrow.congr ih.row))

theorem Closing.takeEdge_sameNodeRun (h : closing.takeEdge design depth db edge = .ok next) :
    SameNodeRun nodeRunId db next :=
  (takeEdge_changes (fun _ _ _ _ _ hnodeRun hnode hkind hdone =>
    (nodeTryComplete_tried hdone).changes hnodeRun hnode hkind) h).sameNodeRun hrow

end

theorem Closing.takeEdge_nodeLog (hnode : design.isHuman closing.node.id = true)
    (h : closing.takeEdge design depth db edge = .ok next) :
    next.nodeLog closing.runId closing.node.id =
      db.nodeLog closing.runId closing.node.id ++ [closing.transition edge] := by
  obtain ⟨human, hhuman, hkind⟩ := Design.isHuman_iff.mp hnode
  rw [Flow.takeEdge_nodeLog (fun _ _ _ _ _ hr hn ha hd =>
    nodeTryComplete_nodeLog hhuman hkind hr hn ha hd) h]
  simp [Event.ofNode, Closing.transition]

theorem modify_eq_set_of_getElem? {α : Type} {rows : List α} {f : α → α} {id : Nat} {row : α}
    (h : rows[id]? = some row) : rows.modify id f = rows.set id (f row) := by
  rw [List.modify_eq_set_getElem?, h]
  rfl

theorem RowWrite.apply_takeEdge (h : closing.takeEdge design depth db edge = .ok next) :
    RowWrite.apply design depth db (.takeEdge closing edge) = next := by
  rw [RowWrite.apply, h]

theorem RowWrite.apply_humanRow (hrow : HumanRow design nodeRunId runId nodeId db) (row : RowWrite) :
    HumanRow design nodeRunId runId nodeId (row.apply design depth db) := by
  cases row with
  | completeNodeRun id now =>
    obtain ⟨hhuman, nodeRun, hget, hrun, hnode⟩ := hrow
    refine ⟨hhuman, ?_⟩
    by_cases hid : id = nodeRunId
    · subst hid
      refine ⟨{ nodeRun with status := .completed, closedAt := some now }, ?_, hrun, hnode⟩
      rw [apply, List.getElem?_modify_eq, hget]
      rfl
    · refine ⟨nodeRun, ?_, hrun, hnode⟩
      rw [apply, List.getElem?_modify_ne _ _ hid, hget]
  | takeEdge closing edge =>
    rw [apply]
    split
    · rename_i next h
      exact hrow.congr (Closing.takeEdge_sameNodeRun hrow h).row
    · exact hrow
  | decideTask call => exact hrow.congr rfl
  | retireTask taskId now => exact hrow.congr rfl
  | event row => exact hrow.congr rfl
  | completeRun id => exact hrow.congr rfl

variable {taskId : Nat} {task : Task}

section

variable (hrow : HumanRow design nodeRunId runId nodeId db) (htask : db.tasks[taskId]? = some task)
  (hof : task.nodeRunId = nodeRunId)
include hrow htask hof

theorem RowWrite.apply_task {row : RowWrite} (hguard : row.guard ≠ some (.task taskId)) :
    (row.apply design depth db).tasks[taskId]? = some task := by
  cases row with
  | decideTask call =>
    have hne : call.taskId ≠ taskId := by
      rintro rfl
      exact hguard rfl
    rw [apply, List.getElem?_modify_ne _ _ hne, htask]
  | retireTask id now =>
    have hne : id ≠ taskId := by
      rintro rfl
      exact hguard rfl
    rw [apply, List.getElem?_modify_ne _ _ hne, htask]
  | takeEdge closing edge =>
    rw [apply]
    split
    · rename_i next h
      exact (Closing.takeEdge_sameNodeRun hrow h).tasks taskId task htask hof
    · exact htask
  | completeNodeRun id now => exact htask
  | event row => exact htask
  | completeRun id => exact htask

theorem RowWrite.apply_place (row : RowWrite) :
    ∃ current, (row.apply design depth db).tasks[taskId]? = some current ∧
      current.nodeRunId = nodeRunId := by
  by_cases hguard : row.guard = some (.task taskId)
  · cases row with
    | decideTask call =>
      obtain rfl : call.taskId = taskId := by simpa [guard] using hguard
      refine ⟨task.decide call.env.now call.action call.note call.payload, ?_, hof⟩
      rw [apply, List.getElem?_modify_eq, htask]
      rfl
    | retireTask id now =>
      obtain rfl : id = taskId := by simpa [guard] using hguard
      refine ⟨{ task with status := .canceled, retiredAt := some now }, ?_, hof⟩
      rw [apply, List.getElem?_modify_eq, htask]
      rfl
    | completeNodeRun id now => cases hguard
    | completeRun id => cases hguard
    | event row => cases hguard
    | takeEdge closing edge => cases hguard
  · exact ⟨task, apply_task hrow htask hof hguard, hof⟩

end

end

variable {db : Db} {nodeRunId : Nat} {node : Node}

theorem nodeDone_of_counts {next : Db} {facts facts' : Facts} (hkind : node.kind = .human)
    (hopen : (next.tasksOf nodeRunId).countP (fun task => decide (task.status = .open_)) ≤
      (db.tasksOf nodeRunId).countP fun task => decide (task.status = .open_))
    (hcompleted : (next.tasksOf nodeRunId).countP (fun task => decide (task.status = .completed)) =
      (db.tasksOf nodeRunId).countP fun task => decide (task.status = .completed))
    (hlength : (next.tasksOf nodeRunId).length = (db.tasksOf nodeRunId).length)
    (h : nodeDone db facts nodeRunId node = true) : nodeDone next facts' nodeRunId node = true := by
  rw [nodeDone, if_pos hkind] at h ⊢
  cases hpolicy : node.decisionPolicy with
  | all =>
    simp only [hpolicy] at h ⊢
    rw [Bool.not_eq_true', List.any_eq_false] at h ⊢
    have hzero := List.countP_eq_zero.mpr h
    exact List.countP_eq_zero.mp (Nat.le_zero.mp (hzero ▸ hopen))
  | quorum =>
    simp only [hpolicy] at h ⊢
    rw [hcompleted, hlength]
    exact h
  | any =>
    simp only [hpolicy] at h ⊢
    rw [List.any_eq_true] at h ⊢
    have hpos := List.countP_pos_iff.mpr h
    exact List.countP_pos_iff.mp (hcompleted ▸ hpos)

theorem nodeDone_facts (hkind : node.kind = .human) (facts facts' : Facts) :
    nodeDone db facts nodeRunId node = nodeDone db facts' nodeRunId node := by
  rw [nodeDone, nodeDone, if_pos hkind, if_pos hkind]

def Db.nodeRunCompleted (db : Db) (nodeRunId : Nat) : Bool :=
  (db.nodeRuns[nodeRunId]?).any fun nodeRun => nodeRun.status = .completed

/-- The edges that the completion takes. -/
def Closing.enabledEdges (design : Design) (closing : Closing) : List Edge :=
  design.enabledEdges closing.graphId closing.node.id (some closing.call.action) closing.facts

/-- What the completion writes to the ledger of its node when it has taken some edges. -/
def Closing.log (closing : Closing) (edges : List Edge) : List Event :=
  closing.completed :: edges.map closing.transition

section

variable (design : Design) (depth nodeRunId runId : Nat) (node : Node) (facts : Facts)

def OpenAmong (db : Db) (taskIds : List Nat) : Prop :=
  ∀ (taskId : Nat) (task : Task), db.tasks[taskId]? = some task → task.nodeRunId = nodeRunId →
    task.status = .open_ → taskId ∈ taskIds

structure OwnsTask (db : Db) (held : RowKey → Prop) (call : TaskCompletion) (task : Task) :
    Prop where
  held : held (.task call.taskId)
  row : db.tasks[call.taskId]? = some task
  nodeRun : task.nodeRunId = nodeRunId
  isOpen : task.status = .open_

/-- The owner of the node run has written its decision only. -/
structure Waits (db view : Db) : Prop where
  isOpen : db.nodeRunCompleted nodeRunId = false
  nodeRuns : view.nodeRuns = db.nodeRuns
  log : view.nodeLog runId node.id = db.nodeLog runId node.id

/-- The owner of the node run has completed it. -/
structure Closes (db view : Db) (closing : Closing) (log : List Event) : Prop where
  wasOpen : db.nodeRunCompleted nodeRunId = false
  isClosed : view.nodeRunCompleted nodeRunId = true
  sameRun : closing.runId = runId
  sameNode : closing.node = node
  /-- The policy is met. -/
  done : nodeDone view facts nodeRunId node = true
  log : view.nodeLog runId node.id = db.nodeLog runId node.id ++ log

/-- What a transaction that has written commits. -/
inductive Returns (db view : Db) : Prop
  /-- The policy is not met. -/
  | waits (h : Waits nodeRunId runId node db view)
      (done : nodeDone view facts nodeRunId node = false)
  /-- The node run is completed and its successors are opened. -/
  | closes (closing : Closing)
      (h : Closes nodeRunId runId node facts db view closing
        (closing.log (closing.enabledEdges design)))
      (retired : OpenAmong nodeRunId view [])

def OwnerAsserted (db view : Db) : CallPhase → Prop
  | .nodeRunLocked _ => Waits nodeRunId runId node db view
  | .nodeRunRead _ nodeRun =>
    Waits nodeRunId runId node db view ∧ db.nodeRuns[nodeRunId]? = some nodeRun
  | .closing closing =>
    Waits nodeRunId runId node db view ∧ closing.runId = runId ∧ closing.node = node ∧
      nodeDone view facts nodeRunId node = true
  | .closed closing => Closes nodeRunId runId node facts db view closing []
  | .retiring closing taskIds =>
    Closes nodeRunId runId node facts db view closing [] ∧ OpenAmong nodeRunId view taskIds
  | .retireLocked closing taskId taskIds =>
    Closes nodeRunId runId node facts db view closing [] ∧
      OpenAmong nodeRunId view (taskId :: taskIds)
  | .effects closing _ =>
    Closes nodeRunId runId node facts db view closing (closing.log []) ∧ OpenAmong nodeRunId view []
  | .edges closing rest =>
    ∃ taken, closing.enabledEdges design = taken ++ rest ∧
      Closes nodeRunId runId node facts db view closing (closing.log taken) ∧
      OpenAmong nodeRunId view []
  | .finishing closing | .finished closing =>
    Closes nodeRunId runId node facts db view closing (closing.log (closing.enabledEdges design)) ∧
      OpenAmong nodeRunId view []
  | .returned => Returns design nodeRunId runId node facts db view
  | _ => False

def OwnerEstablishes (db view : Db) : Turn RowKey RowWrite CallPhase → Prop
  | .lock _ next => OwnerAsserted design nodeRunId runId node facts db view next
  | .write row next =>
    OwnerAsserted design nodeRunId runId node facts db (row.apply design depth view) next
  | .go next => OwnerAsserted design nodeRunId runId node facts db view next
  | .commit _ => Returns design nodeRunId runId node facts db view

/-- What a call may assert at its statements. -/
def Asserted (db : Db) (held : RowKey → Prop) (session : Session RowWrite CallPhase) : Prop :=
  match session.phase with
  | .idle => session.writes = []
  | .called call =>
    session.writes = [] ∧ ∃ task, db.tasks[call.taskId]? = some task ∧ task.nodeRunId = nodeRunId
  | .taskLocked call =>
    session.writes = [] ∧ held (.task call.taskId) ∧
      ∃ task, db.tasks[call.taskId]? = some task ∧ task.nodeRunId = nodeRunId
  | .taskRead call task | .formsPassed call task =>
    session.writes = [] ∧ OwnsTask nodeRunId db held call task
  | .decided call task =>
    session.writes = [.decideTask call] ∧ OwnsTask nodeRunId db held call task
  | .logged call task =>
    session.writes = [.decideTask call, .event (call.taskDone task)] ∧
      OwnsTask nodeRunId db held call task
  | .returned =>
    session.writes = [] ∨ held (.nodeRun nodeRunId) ∧
      OwnerAsserted design nodeRunId runId node facts db
        (session.view (taskCompleteProgram design depth nodeRunId) db) .returned
  | phase =>
    held (.nodeRun nodeRunId) ∧ OwnerAsserted design nodeRunId runId node facts db
      (session.view (taskCompleteProgram design depth nodeRunId) db) phase

/-- What holds of the committed tables, from the start of the calls on. -/
structure Decisions (start db : Db) : Prop where
  row : HumanRow design nodeRunId runId node.id db
  retired : db.nodeRunCompleted nodeRunId = true → OpenAmong nodeRunId db []
  /-- Until the node run is completed, nothing is opened. -/
  waiting : db.nodeRunCompleted nodeRunId = false →
    db.nodeLog runId node.id = start.nodeLog runId node.id ∧ db.nodeRuns = start.nodeRuns
  once : db.nodeRunCompleted nodeRunId = true →
    start.nodeRunCompleted nodeRunId = true ∧
        db.nodeLog runId node.id = start.nodeLog runId node.id ∨
      start.nodeRunCompleted nodeRunId = false ∧ ∃ closing : Closing,
        closing.runId = runId ∧ closing.node = node ∧
          db.nodeLog runId node.id = start.nodeLog runId node.id ++
            closing.log (closing.enabledEdges design)
  /-- The node run is completed when it is decided, unless nothing was decided. -/
  settled : SameNodeRun nodeRunId start db ∨
    start.nodeRunCompleted nodeRunId = false ∧
      (db.nodeRunCompleted nodeRunId = true ↔ nodeDone db facts nodeRunId node = true)

end

variable {design : Design} {depth nodeRunId runId : Nat} {node : Node} {facts : Facts}

theorem Closing.completed_ofNode (closing : Closing) :
    closing.completed.ofNode closing.runId closing.node.id = true := by
  simp [Event.ofNode, completed]

theorem Closing.requested_ofNode (closing : Closing) (effect : TransitionEffect) (id nodeId : Nat) :
    (closing.requested effect).ofNode id nodeId = false := by
  simp [Event.ofNode, requested]

theorem TaskCompletion.taskDone_ofNode (call : TaskCompletion) (task : Task) (id nodeId : Nat) :
    (call.taskDone task).ofNode id nodeId = false := by
  simp [Event.ofNode, taskDone]

variable {db view : Db} {held : RowKey → Prop} {call : TaskCompletion} {task : Task}
  {closing : Closing}

theorem Db.nodeLog_log_of_not {event : Event} {id nodeId : Nat} (h : event.ofNode id nodeId = false) :
    (db.log event).nodeLog id nodeId = db.nodeLog id nodeId := by
  rw [Db.nodeLog_log]
  simp [h]

theorem OwnsTask.waits (h : OwnsTask nodeRunId db held call task) (design : Design) (depth : Nat)
    (hretired : db.nodeRunCompleted nodeRunId = true → OpenAmong nodeRunId db []) :
    Waits nodeRunId runId node db (RowWrite.apply design depth
      (RowWrite.apply design depth db (.decideTask call)) (.event (call.taskDone task))) where
  isOpen := by
    rw [Bool.eq_false_iff]
    intro hcompleted
    exact List.not_mem_nil (hretired hcompleted _ task h.row h.nodeRun h.isOpen)
  nodeRuns := rfl
  log := Db.nodeLog_log_of_not (call.taskDone_ofNode task runId node.id)

variable {now taskId : Nat} {next start : Db} {taskIds : List Nat} {free : RowKey → Bool}
  {phase : CallPhase} {action : Option TaskCompletion} {session : Session RowWrite CallPhase}

theorem Waits.closes (h : Waits nodeRunId runId node db view)
    (hrow : HumanRow design nodeRunId runId node.id db) (hrun : closing.runId = runId)
    (hnode : closing.node = node) (hdone : nodeDone view facts nodeRunId node = true) :
    Closes nodeRunId runId node facts db
      (RowWrite.apply design depth view (.completeNodeRun nodeRunId now)) closing [] where
  wasOpen := h.isOpen
  isClosed := by
    obtain ⟨-, nodeRun, hget, -, -⟩ := hrow
    rw [Db.nodeRunCompleted, RowWrite.apply, List.getElem?_modify_eq, h.nodeRuns, hget]
    rfl
  sameRun := hrun
  sameNode := hnode
  done := hdone
  log := by
    rw [List.append_nil]
    exact h.log

theorem Closes.congr {log log' : List Event}
    (h : Closes nodeRunId runId node facts db view closing log)
    (hsame : SameNodeRun nodeRunId view next)
    (hlog : next.nodeLog runId node.id = view.nodeLog runId node.id ++ log') :
    Closes nodeRunId runId node facts db next closing (log ++ log') where
  wasOpen := h.wasOpen
  isClosed := by
    rw [Db.nodeRunCompleted, hsame.row]
    exact h.isClosed
  sameRun := h.sameRun
  sameNode := h.sameNode
  done := by
    rw [nodeDone_congr fun _ => hsame.tasksOf]
    exact h.done
  log := by rw [hlog, h.log, List.append_assoc]

theorem openAmong_nil_iff :
    OpenAmong nodeRunId db [] ↔ ∀ task ∈ db.tasksOf nodeRunId, task.status ≠ .open_ := by
  constructor
  · intro h task htask hopen
    obtain ⟨hmem, hof⟩ := Db.mem_tasksOf.mp htask
    obtain ⟨taskId, hget⟩ := List.mem_iff_getElem?.mp hmem
    exact List.not_mem_nil (h taskId task hget hof hopen)
  · intro h taskId task hget hof hopen
    exact absurd hopen (h task (Db.mem_tasksOf.mpr ⟨List.mem_of_getElem? hget, hof⟩))

theorem SameNodeRun.openAmong_nil (h : SameNodeRun nodeRunId db next)
    (hopen : OpenAmong nodeRunId db []) : OpenAmong nodeRunId next [] := by
  rw [openAmong_nil_iff] at hopen ⊢
  rw [h.tasksOf]
  exact hopen

theorem Db.openTaskIds_openAmong (db : Db) : OpenAmong nodeRunId db (db.openTaskIds nodeRunId) := by
  intro taskId task hget hof hopen
  rw [Db.openTaskIds, List.mem_filter, List.mem_range, hget]
  exact ⟨(List.getElem?_eq_some_iff.mp hget).1, by simp [hof, hopen]⟩

theorem OpenAmong.tail (h : OpenAmong nodeRunId db (taskId :: taskIds))
    (hclosed : ∀ task, db.tasks[taskId]? = some task → task.nodeRunId = nodeRunId →
      task.status ≠ .open_) : OpenAmong nodeRunId db taskIds := by
  intro id task hget hof hopen
  rcases List.mem_cons.mp (h id task hget hof hopen) with rfl | hmem
  · exact absurd hopen (hclosed task hget hof)
  · exact hmem

theorem Closes.retire (h : Closes nodeRunId runId node facts db view closing [])
    (hamong : OpenAmong nodeRunId view (taskId :: taskIds)) (hkind : node.kind = .human)
    (hget : view.tasks[taskId]? = some task) (hopen : task.status = .open_) :
    Closes nodeRunId runId node facts db
        (RowWrite.apply design depth view (.retireTask taskId now)) closing [] ∧
      OpenAmong nodeRunId (RowWrite.apply design depth view (.retireTask taskId now)) taskIds := by
  have htasks : (RowWrite.apply design depth view (.retireTask taskId now)).tasks =
      view.tasks.set taskId { task with status := .canceled, retiredAt := some now } :=
    modify_eq_set_of_getElem? hget
  have hcount := fun p => Db.countP_tasksOf_set (p := p) hget htasks rfl nodeRunId
  constructor
  · refine ⟨h.wasOpen, h.isClosed, h.sameRun, h.sameNode, ?_, h.log⟩
    refine nodeDone_of_counts hkind ?_ ?_ ?_ h.done
    · have := hcount fun task => decide (task.status = .open_)
      simp at this
      omega
    · simpa [hopen] using hcount fun task => decide (task.status = .completed)
    · simpa using hcount fun _ => true
  · intro id other hother hof hstatus
    rw [htasks] at hother
    by_cases hid : id = taskId
    · subst hid
      rw [List.getElem?_set_self (List.getElem?_eq_some_iff.mp hget).1] at hother
      cases hother
      cases hstatus
    · rw [List.getElem?_set_ne (Ne.symm hid)] at hother
      rcases List.mem_cons.mp (hamong id other hother hof hstatus) with rfl | hmem
      · exact absurd rfl hid
      · exact hmem

theorem phase_of_commit {next : CallPhase}
    (h : (taskCompleteProgram design depth nodeRunId).turn db free phase action =
      some (.commit next)) : phase = .returned := by
  cases phase with
  | returned => rfl
  | idle =>
    cases action with
    | none => cases h
    | some call =>
      simp only [taskCompleteProgram] at h
      split_ifs at h
      cases h
  | called call => cases h
  | taskLocked call =>
    simp only [taskCompleteProgram, taskCompleteTurn] at h
    split at h
    · cases h
    · split_ifs at h <;> cases h
  | taskRead call task =>
    simp only [taskCompleteProgram] at h
    split at h <;> cases h
  | formsPassed call task => cases h
  | decided call task => cases h
  | logged call task => cases h
  | nodeRunLocked call =>
    simp only [taskCompleteProgram] at h
    split at h
    · cases h
    · split_ifs at h <;> cases h
  | nodeRunRead call nodeRun =>
    simp only [taskCompleteProgram, nodeTryCompleteTurn] at h
    split at h
    · split_ifs at h <;> cases h
    · cases h
  | closing closing => cases h
  | closed closing => cases h
  | retiring closing taskIds => cases taskIds <;> cases h
  | retireLocked closing taskId taskIds =>
    simp only [taskCompleteProgram] at h
    split_ifs at h <;> cases h
  | effects closing effects => cases effects <;> cases h
  | edges closing edges =>
    cases edges with
    | nil => cases h
    | cons edge rest =>
      simp only [taskCompleteProgram] at h
      split at h <;> cases h
  | finishing closing =>
    simp only [taskCompleteProgram] at h
    split_ifs at h <;> cases h
  | finished closing => cases h

theorem kept_task (taskId : Nat) (task : Task) (hof : task.nodeRunId = nodeRunId) :
    Kept (taskCompleteProgram design depth nodeRunId) (fun key => key = .task taskId)
      fun db => HumanRow design nodeRunId runId node.id db ∧ db.tasks[taskId]? = some task := by
  rintro db row hkeys ⟨hrow, htask⟩
  refine ⟨RowWrite.apply_humanRow hrow row, RowWrite.apply_task hrow htask hof ?_⟩
  intro hguard
  exact hkeys _ hguard rfl

theorem kept_place (taskId : Nat) :
    Kept (taskCompleteProgram design depth nodeRunId) (fun _ => False)
      fun db => HumanRow design nodeRunId runId node.id db ∧
        ∃ task, db.tasks[taskId]? = some task ∧ task.nodeRunId = nodeRunId := by
  rintro db row - ⟨hrow, task, htask, hof⟩
  exact ⟨RowWrite.apply_humanRow hrow row, RowWrite.apply_place hrow htask hof row⟩

theorem kept_row : Kept (taskCompleteProgram design depth nodeRunId) (fun _ => False)
    (HumanRow design nodeRunId runId node.id) :=
  fun _ row _ hrow => RowWrite.apply_humanRow hrow row

theorem nodeTryCompleteTurn_cases {nodeRun : NodeRun} {turn : Turn RowKey RowWrite CallPhase}
    (hrow : HumanRow design nodeRunId runId node.id db)
    (hget : db.nodeRuns[nodeRunId]? = some nodeRun) (hnode : design.node? node.id = some node)
    (hkind : node.kind = .human)
    (hturn : nodeTryCompleteTurn design nodeRunId view call nodeRun = some turn) :
    (∃ closing, turn = .go (.closing closing) ∧ closing.runId = runId ∧ closing.node = node ∧
      nodeDone view facts nodeRunId node = true) ∨
    turn = .go .returned ∧ nodeDone view facts nodeRunId node = false := by
  obtain ⟨-, row, hrow, hrun, hnodeId⟩ := hrow
  obtain rfl := Option.some.inj (hget.symm.trans hrow)
  rw [nodeTryCompleteTurn, hnodeId, hnode] at hturn
  split at hturn
  · rename_i node' run hnode' _
    cases hnode'
    dsimp only at hturn
    rw [nodeDone_facts hkind (run.facts call.env) facts] at hturn
    split_ifs at hturn with hdone
    · cases hturn
      exact .inl ⟨_, rfl, hrun, rfl, hdone⟩
    · cases hturn
      exact .inr ⟨rfl, by simpa using hdone⟩
  · cases hturn

theorem Decisions.returns (h : Decisions design nodeRunId runId node facts start db)
    (hreturns : Returns design nodeRunId runId node facts db view)
    (hrow : HumanRow design nodeRunId runId node.id view) :
    Decisions design nodeRunId runId node facts start view := by
  have hstart : db.nodeRunCompleted nodeRunId = false →
      start.nodeRunCompleted nodeRunId = false := by
    intro hopen
    rw [Db.nodeRunCompleted, ← (h.waiting hopen).2]
    exact hopen
  cases hreturns with
  | waits hwaits hdone =>
    have hview : view.nodeRunCompleted nodeRunId = false := by
      rw [Db.nodeRunCompleted, hwaits.nodeRuns]
      exact hwaits.isOpen
    obtain ⟨hlog, hnodeRuns⟩ := h.waiting hwaits.isOpen
    refine ⟨hrow, ?_, ?_, ?_, .inr ⟨hstart hwaits.isOpen, ?_⟩⟩
    · intro hcompleted
      rw [hview] at hcompleted
      cases hcompleted
    · intro _
      exact ⟨hwaits.log.trans hlog, hwaits.nodeRuns.trans hnodeRuns⟩
    · intro hcompleted
      rw [hview] at hcompleted
      cases hcompleted
    · rw [hview, hdone]
  | closes closing hcloses hretired =>
    obtain ⟨hlog, -⟩ := h.waiting hcloses.wasOpen
    refine ⟨hrow, fun _ => hretired, ?_, ?_, .inr ⟨hstart hcloses.wasOpen, ?_⟩⟩
    · intro hopen
      rw [hcloses.isClosed] at hopen
      cases hopen
    · intro _
      refine .inr ⟨hstart hcloses.wasOpen, closing, hcloses.sameRun, hcloses.sameNode, ?_⟩
      rw [hcloses.log, hlog]
    · rw [hcloses.isClosed, hcloses.done]

theorem OwnerAsserted.turn (hnode : design.node? node.id = some node) (hkind : node.kind = .human)
    {db view : Db} {turn : Turn RowKey RowWrite CallPhase}
    (hrow : HumanRow design nodeRunId runId node.id db)
    (hview : HumanRow design nodeRunId runId node.id view)
    (h : OwnerAsserted design nodeRunId runId node facts db view phase)
    (hturn : (taskCompleteProgram design depth nodeRunId).turn view free phase action = some turn) :
    OwnerEstablishes design depth nodeRunId runId node facts db view turn := by
  cases phase with
  | nodeRunLocked call =>
    obtain ⟨-, nodeRun, hget, -, -⟩ := hrow
    have hstatus : nodeRun.status ≠ .completed := by
      have hopen := h.isOpen
      rw [Db.nodeRunCompleted, hget] at hopen
      simpa using hopen
    simp only [taskCompleteProgram, h.nodeRuns, hget, if_neg hstatus] at hturn
    cases hturn
    exact ⟨h, hget⟩
  | nodeRunRead call nodeRun =>
    rcases nodeTryCompleteTurn_cases hrow h.2 hnode hkind hturn with ⟨closing, rfl, hrun, hnode', hdone⟩ |
      ⟨rfl, hdone⟩
    · exact ⟨h.1, hrun, hnode', hdone⟩
    · exact .waits h.1 hdone
  | closing closing =>
    cases hturn
    obtain ⟨hwaits, hrun, hnode', hdone⟩ := h
    exact hwaits.closes hrow hrun hnode' hdone
  | closed closing =>
    cases hturn
    exact ⟨h, Db.openTaskIds_openAmong view⟩
  | retiring closing taskIds =>
    obtain ⟨hcloses, hamong⟩ := h
    cases taskIds with
    | nil =>
      cases hturn
      refine ⟨hcloses.congr (.of_eq rfl rfl) ((Db.nodeLog_log _ _ _ _).trans ?_), hamong⟩
      have hof := closing.completed_ofNode
      rw [hcloses.sameRun, hcloses.sameNode] at hof
      simp [hof]
    | cons taskId rest =>
      cases hturn
      exact ⟨hcloses, hamong⟩
  | retireLocked closing taskId taskIds =>
    obtain ⟨hcloses, hamong⟩ := h
    simp only [taskCompleteProgram] at hturn
    split_ifs at hturn with hopen
    · cases hturn
      obtain ⟨task, hget, hstatus⟩ := (Option.any_eq_true _ _).mp hopen
      rw [Bool.and_eq_true, decide_eq_true_eq, decide_eq_true_eq] at hstatus
      exact hcloses.retire hamong hkind hget hstatus.2
    · cases hturn
      refine ⟨hcloses, hamong.tail ?_⟩
      intro task hget hof hstatus
      exact hopen (by rw [hget]; simp [hof, hstatus])
  | effects closing effects =>
    obtain ⟨hcloses, hamong⟩ := h
    cases effects with
    | nil =>
      cases hturn
      exact ⟨[], rfl, hcloses, hamong⟩
    | cons effect rest =>
      cases hturn
      refine ⟨⟨hcloses.wasOpen, hcloses.isClosed, hcloses.sameRun, hcloses.sameNode, hcloses.done,
        ?_⟩, hamong⟩
      rw [← hcloses.log]
      exact Db.nodeLog_log_of_not (closing.requested_ofNode effect runId node.id)
  | edges closing edges =>
    obtain ⟨taken, hedges, hcloses, hamong⟩ := h
    cases edges with
    | nil =>
      cases hturn
      rw [List.append_nil] at hedges
      rw [← hedges] at hcloses
      exact ⟨hcloses, hamong⟩
    | cons edge rest =>
      simp only [taskCompleteProgram] at hturn
      split at hturn
      · rename_i next htake
        cases hturn
        have hsame := Closing.takeEdge_sameNodeRun hview htake
        have hlog := Closing.takeEdge_nodeLog (by rw [hcloses.sameNode]; exact hrow.human) htake
        rw [hcloses.sameRun, hcloses.sameNode] at hlog
        rw [OwnerEstablishes, RowWrite.apply_takeEdge htake]
        refine ⟨taken ++ [edge], by rw [hedges, List.append_assoc]; rfl, ?_,
          hsame.openAmong_nil hamong⟩
        simpa [Closing.log] using hcloses.congr hsame hlog
      · cases hturn
  | finishing closing =>
    obtain ⟨hcloses, hamong⟩ := h
    simp only [taskCompleteProgram] at hturn
    split_ifs at hturn with hbusy hactive
    · cases hturn
      exact .closes closing hcloses hamong
    · cases hturn
      exact ⟨⟨hcloses.wasOpen, hcloses.isClosed, hcloses.sameRun, hcloses.sameNode, hcloses.done,
        hcloses.log⟩, hamong⟩
    · cases hturn
      exact ⟨hcloses, hamong⟩
  | finished closing =>
    obtain ⟨hcloses, hamong⟩ := h
    cases hturn
    refine .closes closing ⟨hcloses.wasOpen, hcloses.isClosed, hcloses.sameRun, hcloses.sameNode,
      hcloses.done, ?_⟩ hamong
    rw [← hcloses.log]
    exact Db.nodeLog_log_of_not (by simp [Event.ofNode])
  | returned =>
    cases hturn
    exact h
  | idle | called | taskLocked | taskRead | formsPassed | decided | logged => cases h

theorem OwnerAsserted.asserted {writes : List RowWrite}
    (h : OwnerAsserted design nodeRunId runId node facts db view phase) (held : RowKey → Prop)
    (hheld : held (.nodeRun nodeRunId))
    (hview : (⟨writes, phase⟩ : Session RowWrite CallPhase).view
      (taskCompleteProgram design depth nodeRunId) db = view) :
    Asserted design depth nodeRunId runId node facts db held ⟨writes, phase⟩ := by
  subst hview
  cases phase with
  | nodeRunLocked | nodeRunRead | closing | closed | retiring | retireLocked | effects | edges
  | finishing | finished => exact ⟨hheld, h⟩
  | returned => exact .inr ⟨hheld, h⟩
  | idle | called | taskLocked | taskRead | formsPassed | decided | logged => cases h

theorem OwnerAsserted.establishes (hnode : design.node? node.id = some node)
    (hkind : node.kind = .human) {db : Db} {held : RowKey → Prop}
    {turn : Turn RowKey RowWrite CallPhase}
    (hdecisions : Decisions design nodeRunId runId node facts start db)
    (hlocked : Locked (taskCompleteProgram design depth nodeRunId) held session)
    (hheld : held (.nodeRun nodeRunId))
    (h : OwnerAsserted design nodeRunId runId node facts db
      (session.view (taskCompleteProgram design depth nodeRunId) db) session.phase)
    (hturn : (taskCompleteProgram design depth nodeRunId).turn
      (session.view (taskCompleteProgram design depth nodeRunId) db) free session.phase action =
        some turn) :
    Establishes (taskCompleteProgram design depth nodeRunId)
      (Decisions design nodeRunId runId node facts start)
      (Asserted design depth nodeRunId runId node facts) db held session turn := by
  have hview := kept_row.view hlocked (fun _ hkey => hkey.elim) hdecisions.row
  have hnext := h.turn hnode hkind hdecisions.row hview hturn
  cases turn with
  | lock key next =>
    exact hnext.asserted (fun k => k = key ∨ held k) (.inr hheld) rfl
  | write row next =>
    exact hnext.asserted (fun k => row.guard = some k ∨ held k) (.inr hheld)
      (Session.view_write _ _ _ _)
  | go next => exact hnext.asserted held hheld rfl
  | commit next =>
    refine ⟨hdecisions.returns hnext hview, ?_⟩
    have hreturned := phase_of_commit hturn
    rw [hreturned] at hturn
    cases hturn
    rfl

theorem OwnsTask.stable {held' : RowKey → Prop} (h : OwnsTask nodeRunId db held call task)
    (hrow : HumanRow design nodeRunId runId node.id db)
    (hlocked : Locked (taskCompleteProgram design depth nodeRunId) held' session)
    (hapart : ∀ key, held key → ¬held' key) :
    OwnsTask nodeRunId (session.view (taskCompleteProgram design depth nodeRunId) db) held call
      task := by
  refine ⟨h.held, ?_, h.nodeRun, h.isOpen⟩
  have hkeys : ∀ key, key = .task call.taskId → ¬held' key := by
    rintro key rfl
    exact hapart _ h.held
  exact ((kept_task call.taskId task h.nodeRun).view hlocked hkeys ⟨hrow, h.row⟩).2

theorem taskComplete_outline (hnode : design.node? node.id = some node)
    (hkind : node.kind = .human) (start : Db) :
    Outline (taskCompleteProgram design depth nodeRunId)
      (Decisions design nodeRunId runId node facts start)
      (Asserted design depth nodeRunId runId node facts) where
  idle _ := rfl
  turn := by
    intro db held free session action turn h hturn
    obtain ⟨hdecisions, hlocked, hgood⟩ := h
    obtain ⟨writes, phase⟩ := session
    cases phase with
    | idle =>
      obtain rfl : writes = [] := hgood
      cases action with
      | none => cases hturn
      | some call =>
        simp only [taskCompleteProgram] at hturn
        split_ifs at hturn with hplace
        cases hturn
        obtain ⟨task, htask, hof⟩ := (Option.any_eq_true _ _).mp hplace
        exact ⟨rfl, task, htask, by simpa using hof⟩
    | called call =>
      obtain ⟨rfl, hplace⟩ := hgood
      cases hturn
      exact ⟨rfl, .inl rfl, hplace⟩
    | taskLocked call =>
      obtain ⟨rfl, hheld, task, htask, hof⟩ := hgood
      have hread : taskCompleteTurn db call = some turn := hturn
      rw [taskCompleteTurn, htask] at hread
      dsimp only at hread
      split_ifs at hread with hcompleted hopen
      · cases hread
        exact .inl rfl
      · cases hread
        exact ⟨rfl, hheld, htask, hof, not_not.mp hopen⟩
    | taskRead call task =>
      simp only [taskCompleteProgram] at hturn
      split at hturn
      · cases hturn
        exact hgood
      · cases hturn
    | formsPassed call task =>
      obtain ⟨rfl, howns⟩ := hgood
      cases hturn
      exact ⟨rfl, .inr howns.held, howns.row, howns.nodeRun, howns.isOpen⟩
    | decided call task =>
      obtain ⟨rfl, howns⟩ := hgood
      cases hturn
      exact ⟨rfl, .inr howns.held, howns.row, howns.nodeRun, howns.isOpen⟩
    | logged call task =>
      obtain ⟨rfl, howns⟩ := hgood
      cases hturn
      exact ⟨.inl (by rw [howns.nodeRun]), howns.waits design depth hdecisions.retired⟩
    | returned =>
      rcases hgood with hnothing | ⟨hheld, howner⟩
      · obtain rfl : writes = [] := hnothing
        cases hturn
        exact ⟨hdecisions, rfl⟩
      · exact howner.establishes hnode hkind hdecisions hlocked hheld hturn
    | nodeRunLocked | nodeRunRead | closing | closed | retiring | retireLocked | effects | edges
    | finishing | finished =>
      exact hgood.2.establishes hnode hkind hdecisions hlocked hgood.1 hturn
  stable := by
    intro db held held' free session session' action next h h' hapart hturn
    have hreturned := phase_of_commit hturn
    have hgood' := h'.good
    rw [Asserted, hreturned] at hgood'
    rcases hgood' with hnothing | ⟨hheld', -⟩
    · have hsame : session'.view (taskCompleteProgram design depth nodeRunId) db = db := by
        rw [Session.view, hnothing]
        rfl
      rw [hsame]
      exact h.good
    · have hnot : ¬held (.nodeRun nodeRunId) := fun hheld => hapart _ hheld hheld'
      have hgood := h.good
      have hplace : ∀ taskId : Nat, (∃ task : Task, db.tasks[taskId]? = some task ∧
          task.nodeRunId = nodeRunId) →
          ∃ task : Task, (session'.view (taskCompleteProgram design depth nodeRunId) db).tasks[taskId]? =
            some task ∧ task.nodeRunId = nodeRunId := fun taskId hplace =>
        ((kept_place taskId).view h'.locked (fun _ hkey => hkey.elim) ⟨h.inv.row, hplace⟩).2
      obtain ⟨writes, phase⟩ := session
      cases phase with
      | idle => exact hgood
      | called call => exact ⟨hgood.1, hplace _ hgood.2⟩
      | taskLocked call => exact ⟨hgood.1, hgood.2.1, hplace _ hgood.2.2⟩
      | taskRead call task => exact ⟨hgood.1, hgood.2.stable h.inv.row h'.locked hapart⟩
      | formsPassed call task => exact ⟨hgood.1, hgood.2.stable h.inv.row h'.locked hapart⟩
      | decided call task => exact ⟨hgood.1, hgood.2.stable h.inv.row h'.locked hapart⟩
      | logged call task => exact ⟨hgood.1, hgood.2.stable h.inv.row h'.locked hapart⟩
      | returned =>
        rcases hgood with hnothing | ⟨hheld, -⟩
        · exact .inl hnothing
        · exact absurd hheld hnot
      | nodeRunLocked | nodeRunRead | closing | closed | retiring | retireLocked | effects | edges
      | finishing | finished => exact absurd hgood.1 hnot

theorem decisions_start (hs : Sound design db) (hrow : HumanRow design nodeRunId runId node.id db) :
    Decisions design nodeRunId runId node facts db db where
  row := hrow
  retired hcompleted := by
    obtain ⟨nodeRun, hget, hstatus⟩ := (Option.any_eq_true _ _).mp hcompleted
    rw [decide_eq_true_eq] at hstatus
    refine openAmong_nil_iff.mpr fun task htask hopen => ?_
    obtain ⟨hmem, hof⟩ := Db.mem_tasksOf.mp htask
    obtain ⟨row, node', hrow', -, -, -, hprogress⟩ := hs.tasks task hmem
    rw [hof, hget] at hrow'
    cases hrow'
    rw [hprogress hopen] at hstatus
    cases hstatus
  waiting _ := ⟨rfl, rfl⟩
  once hcompleted := .inl ⟨hcompleted, rfl⟩
  settled := .inl (.refl nodeRunId db)

/-- After the completion nothing is written to the ledger of the node, and no node run is opened. -/
def Finished (nodeRunId runId nodeId : Nat) (db next : Db) : Prop :=
  db.nodeRunCompleted nodeRunId = true →
    next.nodeRunCompleted nodeRunId = true ∧
      next.nodeLog runId nodeId = db.nodeLog runId nodeId ∧ next.nodeRuns = db.nodeRuns

theorem commit_finished {next : CallPhase}
    (h : At (taskCompleteProgram design depth nodeRunId)
      (Decisions design nodeRunId runId node facts start)
      (Asserted design depth nodeRunId runId node facts) db held session)
    (hturn : (taskCompleteProgram design depth nodeRunId).turn
      (session.view (taskCompleteProgram design depth nodeRunId) db) free session.phase action =
        some (.commit next)) :
    Finished nodeRunId runId node.id db
      (session.view (taskCompleteProgram design depth nodeRunId) db) := by
  intro hcompleted
  have hgood := h.good
  rw [Asserted, phase_of_commit hturn] at hgood
  rcases hgood with hnothing | ⟨-, hreturns⟩
  · rw [Session.view, hnothing]
    exact ⟨hcompleted, rfl, rfl⟩
  · have hopen : db.nodeRunCompleted nodeRunId = false := by
      cases hreturns with
      | waits hwaits _ => exact hwaits.isOpen
      | closes _ hcloses _ => exact hcloses.wasOpen
    rw [hopen] at hcompleted
    cases hcompleted

def Db.decidedSince (nodeRunId : Nat) (start db : Db) : Prop :=
  ∃ (taskId : Nat) (old new : Task), start.tasks[taskId]? = some old ∧ old.nodeRunId = nodeRunId ∧
    old.status = .open_ ∧ db.tasks[taskId]? = some new ∧ new.status = .completed

/-- In any interleaving of calls on its tasks a human node run is completed at most once, with one
`node_complete` and one transition along each enabled edge; nothing is opened before or after; and
it is completed exactly when its tasks satisfy the policy, if this was so at the start or a task has
been completed since. -/
theorem node_run_completes_once {db : Db} (hs : Sound design db)
    (hrow : HumanRow design nodeRunId runId node.id db) (hnode : design.node? node.id = some node)
    (hkind : node.kind = .human)
    {before after : List (Label (Option TaskCompletion))}
    {s t : State Db RowKey RowWrite CallPhase}
    (hbefore : run (ReadCommitted.step (taskCompleteProgram design depth nodeRunId))
      (State.start (taskCompleteProgram design depth nodeRunId) db) before = some s)
    (hafter : run (ReadCommitted.step (taskCompleteProgram design depth nodeRunId)) s after =
      some t) :
    (s.committed.nodeRunCompleted nodeRunId = false →
      s.committed.nodeLog runId node.id = db.nodeLog runId node.id ∧
        s.committed.nodeRuns = db.nodeRuns) ∧
    (s.committed.nodeRunCompleted nodeRunId = true → db.nodeRunCompleted nodeRunId = false →
      ∃ closing : Closing, closing.runId = runId ∧ closing.node = node ∧
        s.committed.nodeLog runId node.id = db.nodeLog runId node.id ++
          closing.log (closing.enabledEdges design)) ∧
    (s.committed.nodeRunCompleted nodeRunId = true →
      t.committed.nodeLog runId node.id = s.committed.nodeLog runId node.id ∧
        t.committed.nodeRuns = s.committed.nodeRuns) ∧
    ((db.nodeRunCompleted nodeRunId = true ↔ nodeDone db facts nodeRunId node = true) ∨
        db.decidedSince nodeRunId s.committed →
      (s.committed.nodeRunCompleted nodeRunId = true ↔
        nodeDone s.committed facts nodeRunId node = true)) := by
  have houtline : Outline (taskCompleteProgram design depth nodeRunId)
      (Decisions design nodeRunId runId node facts db)
      (Asserted design depth nodeRunId runId node facts) := taskComplete_outline hnode hkind db
  have hholds := houtline.run (houtline.start (decisions_start hs hrow)) hbefore
  have hinv := hholds.inv
  refine ⟨hinv.waiting, ?_, ?_, ?_⟩
  · intro hcompleted hopen
    rcases hinv.once hcompleted with ⟨hstart, -⟩ | ⟨-, hclosed⟩
    · rw [hopen] at hstart
      cases hstart
    · exact hclosed
  · intro hcompleted
    have hrel : Finished nodeRunId runId node.id s.committed t.committed := by
      refine houtline.committed_relation (fun _ h => ⟨h, rfl, rfl⟩) ?_ commit_finished hholds hafter
      intro a b c hab hbc ha
      obtain ⟨hb, hlog, hrows⟩ := hab ha
      obtain ⟨hc, hlog', hrows'⟩ := hbc hb
      exact ⟨hc, hlog'.trans hlog, hrows'.trans hrows⟩
    exact (hrel hcompleted).2
  · intro hstart
    rcases hinv.settled with hsame | ⟨-, hiff⟩
    · rcases hstart with hstart | ⟨taskId, old, new, hold, hof, hopen, hnew, hcompleted⟩
      · rw [Db.nodeRunCompleted, hsame.row, nodeDone_congr fun _ => hsame.tasksOf]
        exact hstart
      · rw [hsame.tasks taskId old hold hof] at hnew
        cases hnew
        rw [hopen] at hcompleted
        cases hcompleted
    · exact hiff

/-- The review of the graph, by two reviewers who both have to decide. -/
def pairDesign : Design := reviewDesign .all none [reviewer 1 "a", reviewer 2 "b"]

def pairReview : Node := ⟨2, 1, "review", .human, .all, none, ["approve", "reject"], none, none, 1⟩

def noFacts : Facts := ⟨fun _ => false, fun _ => none, fun _ => none⟩

def pairProgram : Program Db RowKey RowWrite CallPhase (Option TaskCompletion) :=
  taskCompleteProgram pairDesign 4 1

def begins (session now taskId : Nat) : Label (Option TaskCompletion) :=
  .act session (some ⟨taskId, "approve", none, none, quietEnv now⟩)

def goesOn (session turns : Nat) : List (Label (Option TaskCompletion)) :=
  List.replicate turns (.act session none)

/-- The second reviewer decides before the first call has returned, and completes the review. -/
theorem node_run_completes_once_pair :
    ∃ db s, run (step pairDesign 4) Db.empty [ensureReview 0] = some db ∧
      run (ReadCommitted.step pairProgram) (State.start pairProgram db)
        (begins 0 1 0 :: begins 1 2 1 :: goesOn 0 6 ++ goesOn 1 5 ++ goesOn 0 3 ++ goesOn 1 12) =
          some s ∧
      s.committed.nodeRunCompleted 1 = true ∧
      (s.committed.nodeRunCompleted 1 = true ↔
        nodeDone s.committed noFacts 1 pairReview = true) := by
  have hprobe : ((run (step pairDesign 4) Db.empty [ensureReview 0]).bind fun db =>
      (run (ReadCommitted.step pairProgram) (State.start pairProgram db)
        (begins 0 1 0 :: begins 1 2 1 :: goesOn 0 6 ++ goesOn 1 5 ++ goesOn 0 3 ++
          goesOn 1 12)).map fun s =>
        (((db.nodeRuns[1]?).map fun nodeRun => (nodeRun.runId, nodeRun.nodeId)),
          ((db.tasks[0]?).map fun task => (task.nodeRunId, task.status)),
          (s.committed.tasks[0]?).map Task.status, s.committed.nodeRunCompleted 1)) =
      some (some (0, 2), some (1, .open_), some .completed, true) := by
    decide
  obtain ⟨db, hdb, hmap⟩ := Option.bind_eq_some_iff.mp hprobe
  obtain ⟨s, hs, hprobed⟩ := Option.map_eq_some_iff.mp hmap
  obtain ⟨hrow, hprobed⟩ := Prod.mk.inj hprobed
  obtain ⟨htask, hprobed⟩ := Prod.mk.inj hprobed
  obtain ⟨hdecided, hcompleted⟩ := Prod.mk.inj hprobed
  obtain ⟨nodeRun, hget, heq⟩ := Option.map_eq_some_iff.mp hrow
  obtain ⟨hrun, hnode⟩ := Prod.mk.inj heq
  obtain ⟨old, hold, heq⟩ := Option.map_eq_some_iff.mp htask
  obtain ⟨hof, hopen⟩ := Prod.mk.inj heq
  obtain ⟨new, hnew, hstatus⟩ := Option.map_eq_some_iff.mp hdecided
  refine ⟨db, s, hdb, hs, hcompleted, ?_⟩
  exact (node_run_completes_once (sound_run hdb) ⟨by decide, nodeRun, hget, hrun, hnode⟩ rfl rfl hs
    (run_nil _ s)).2.2.2 (.inr ⟨0, old, new, hold, hof, hopen, hnew, hstatus⟩)

/-- The policy is met by a withdrawal, and the review stays. -/
theorem early_return_leaves_review :
    ∃ db s, run (step pairDesign 4) Db.empty [ensureReview 0, approve 1 0, withdraw 2 1] = some db ∧
      run (ReadCommitted.step pairProgram) (State.start pairProgram db)
        (begins 0 3 0 :: goesOn 0 3) = some s ∧
      s.committed.nodeRunCompleted 1 = false ∧
      nodeDone s.committed noFacts 1 pairReview = true := by
  have hprobe : ((run (step pairDesign 4) Db.empty [ensureReview 0, approve 1 0, withdraw 2 1]).bind
      fun db => (run (ReadCommitted.step pairProgram) (State.start pairProgram db)
        (begins 0 3 0 :: goesOn 0 3)).map fun s =>
          (s.committed.nodeRunCompleted 1, nodeDone s.committed noFacts 1 pairReview)) =
      some (false, true) := by
    decide
  obtain ⟨db, hdb, hmap⟩ := Option.bind_eq_some_iff.mp hprobe
  obtain ⟨s, hs, hprobed⟩ := Option.map_eq_some_iff.mp hmap
  obtain ⟨hopen, hdone⟩ := Prod.mk.inj hprobed
  exact ⟨db, s, hdb, hs, hopen, hdone⟩

end Stynx.Flow
