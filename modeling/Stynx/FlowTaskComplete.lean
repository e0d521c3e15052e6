import Stynx.FlowTermination
import Stynx.ReadCommitted

/-!
# Concurrent completions of the tasks of one node run

The statements of `flow.task_complete` and of the `flow.node_try_complete` that it calls. A
transaction owns the row of its task, then the row of the node run; it retires the open tasks one
by one and waits for each row. A target of an enabled edge is opened by one statement, which only
the owner of the node run reaches.
-/

namespace Stynx.Flow

open ExceptFolds ReadCommitted

/-- A call of `flow.task_complete`. -/
structure TaskCompletion where
  taskId : Nat
  action : String
  note : Option String
  payload : Option String
  env : Env

inductive RowKey where
  | task (taskId : Nat)
  | nodeRun (nodeRunId : Nat)
  | run (runId : Nat)
  deriving DecidableEq

/-- What `node_try_complete` has read when the policy is met. -/
structure Closing where
  call : TaskCompletion
  /-- `v_nr.run_id`. -/
  runId : Nat
  node : Node
  /-- `v_run.graph_id`. -/
  graphId : Nat
  facts : Facts

inductive RowWrite where
  | decideTask (call : TaskCompletion)
  | completeNodeRun (nodeRunId now : Nat)
  /-- An open task is canceled. -/
  | retireTask (taskId now : Nat)
  /-- A row of the ledger. -/
  | event (event : Event)
  /-- The transition along an edge, and the rows of `node_open`. -/
  | takeEdge (closing : Closing) (edge : Edge)
  | completeRun (runId : Nat)

inductive CallPhase where
  /-- Outside transactions. -/
  | idle
  /-- Before the lock of the task. -/
  | called (call : TaskCompletion)
  | taskLocked (call : TaskCompletion)
  /-- `v_task` is open. -/
  | taskRead (call : TaskCompletion) (task : Task)
  /-- The form rules are satisfied. -/
  | formsPassed (call : TaskCompletion) (task : Task)
  | decided (call : TaskCompletion) (task : Task)
  /-- The event of the task is written; before the lock of the node run. -/
  | logged (call : TaskCompletion) (task : Task)
  | nodeRunLocked (call : TaskCompletion)
  /-- `v_nr` is not completed. -/
  | nodeRunRead (call : TaskCompletion) (nodeRun : NodeRun)
  /-- The policy is met. -/
  | closing (closing : Closing)
  /-- The node run is completed. -/
  | closed (closing : Closing)
  /-- Open tasks are left to be canceled. -/
  | retiring (closing : Closing) (taskIds : List Nat)
  /-- The row of one of them is locked. -/
  | retireLocked (closing : Closing) (taskId : Nat) (taskIds : List Nat)
  /-- Effects are left to be requested. -/
  | effects (closing : Closing) (effects : List TransitionEffect)
  /-- Edges are left to be taken. -/
  | edges (closing : Closing) (edges : List Edge)
  /-- Before the last statement. -/
  | finishing (closing : Closing)
  /-- The row of the run is written. -/
  | finished (closing : Closing)
  /-- Before the commit. -/
  | returned

section

variable (design : Design) (depth nodeRunId : Nat)

def TaskCompletion.taskDone (call : TaskCompletion) (task : Task) : Event :=
  ⟨task.runId, some task.nodeId, some call.taskId, .taskDone, call.env.actor, call.note,
    .decision (call.payload.getD "\x7b\x7d")⟩

/-- `node_try_complete` on the node run of a node that the transition opens. -/
def Closing.cascade (closing : Closing) : Nat → Db → Except Failure Db :=
  fun id db => nodeTryComplete design closing.call.env depth id none none db

/-- The transition along an edge. -/
def Closing.takeEdge (closing : Closing) (db : Db) (edge : Edge) : Except Failure Db :=
  Flow.takeEdge design closing.call.env (closing.cascade design depth) closing.runId closing.node
    (some closing.call.action) closing.facts db edge

def Closing.completed (closing : Closing) : Event :=
  ⟨closing.runId, some closing.node.id, none, .nodeComplete, closing.call.env.actor,
    closing.call.note, .empty⟩

def Closing.requested (closing : Closing) (effect : TransitionEffect) : Event :=
  ⟨closing.runId, some closing.node.id, none, .effectRequested, closing.call.env.actor, none,
    .effect effect.effectKey effect.payload⟩

def Closing.transition (closing : Closing) (edge : Edge) : Event :=
  ⟨closing.runId, some closing.node.id, none, .transition, closing.call.env.actor, none,
    .edge closing.node.id edge.toNodeId (some closing.call.action)⟩

/-- The effect of a row on the tables. -/
def RowWrite.apply (db : Db) : RowWrite → Db
  | .decideTask call =>
    { db with
      tasks := db.tasks.modify call.taskId fun task =>
        task.decide call.env.now call.action call.note call.payload }
  | .completeNodeRun id now =>
    { db with
      nodeRuns := db.nodeRuns.modify id fun nodeRun =>
        { nodeRun with status := .completed, closedAt := some now } }
  | .retireTask taskId now =>
    { db with
      tasks := db.tasks.modify taskId fun task =>
        { task with status := .canceled, retiredAt := some now } }
  | .event row => db.log row
  | .takeEdge closing edge =>
    match closing.takeEdge design depth db edge with
    | .ok next => next
    | .error _ => db
  | .completeRun runId =>
    { db with runs := db.runs.modify runId fun run => { run with status := .completed } }

def RowWrite.guard : RowWrite → Option RowKey
  | .decideTask call => some (.task call.taskId)
  | .completeNodeRun id _ => some (.nodeRun id)
  | .retireTask taskId _ => some (.task taskId)
  | .completeRun runId => some (.run runId)
  | .event _ => none
  | .takeEdge _ _ => none

/-- The open tasks of the node run, as the scan of the `UPDATE` finds them. -/
def Db.openTaskIds (db : Db) : List Nat :=
  (List.range db.tasks.length).filter fun id =>
    (db.tasks[id]?).any fun task => task.nodeRunId = nodeRunId && task.status = .open_

/-- `flow.task_complete` up to the lock of the node run. -/
def taskCompleteTurn (db : Db) (call : TaskCompletion) : Option (Turn RowKey RowWrite CallPhase) :=
  match db.tasks[call.taskId]? with
  | none => none
  | some task =>
    if task.status = .completed then some (.go .returned)
    else if task.status ≠ .open_ then none
    else some (.go (.taskRead call task))

/-- `flow.node_try_complete` up to the policy. -/
def nodeTryCompleteTurn (db : Db) (call : TaskCompletion) (nodeRun : NodeRun) :
    Option (Turn RowKey RowWrite CallPhase) :=
  match design.node? nodeRun.nodeId, db.runs[nodeRun.runId]? with
  | some node, some run =>
    let facts := run.facts call.env
    if nodeDone db facts nodeRunId node then
      some (.go (.closing ⟨call, nodeRun.runId, node, run.graphId, facts⟩))
    else some (.go .returned)
  | _, _ => none

/-- The next statement of a call; only the beginning of a transaction has a choice. -/
def taskCompleteProgram : Program Db RowKey RowWrite CallPhase (Option TaskCompletion) where
  apply := RowWrite.apply design depth
  guard := RowWrite.guard
  idle := .idle
  turn db _ phase action :=
    match phase with
    | .idle =>
      match action with
      | none => none
      | some call =>
        if (db.tasks[call.taskId]?).any fun task => task.nodeRunId = nodeRunId then
          some (.go (.called call))
        else none
    | .called call => some (.lock (.task call.taskId) (.taskLocked call))
    | .taskLocked call => taskCompleteTurn db call
    | .taskRead call task =>
      match nodeFormRulesSatisfied design call.env task.nodeRunId db with
      | .ok true => some (.go (.formsPassed call task))
      | _ => none
    | .formsPassed call task => some (.write (.decideTask call) (.decided call task))
    | .decided call task =>
      some (.write (.event (call.taskDone task)) (.logged call task))
    | .logged call task => some (.lock (.nodeRun task.nodeRunId) (.nodeRunLocked call))
    | .nodeRunLocked call =>
      match db.nodeRuns[nodeRunId]? with
      | none => none
      | some nodeRun =>
        if nodeRun.status = .completed then some (.go .returned)
        else some (.go (.nodeRunRead call nodeRun))
    | .nodeRunRead call nodeRun => nodeTryCompleteTurn design nodeRunId db call nodeRun
    | .closing closing =>
      some (.write (.completeNodeRun nodeRunId closing.call.env.now) (.closed closing))
    | .closed closing => some (.go (.retiring closing (db.openTaskIds nodeRunId)))
    | .retiring closing [] =>
      some (.write (.event closing.completed) (.effects closing
        (design.requestedEffects closing.graphId closing.node.code (some closing.call.action))))
    | .retiring closing (taskId :: rest) =>
      some (.lock (.task taskId) (.retireLocked closing taskId rest))
    | .retireLocked closing taskId rest =>
      -- a row that was changed while the statement waited is checked again
      if (db.tasks[taskId]?).any fun task => task.nodeRunId = nodeRunId && task.status = .open_ then
        some (.write (.retireTask taskId closing.call.env.now) (.retiring closing rest))
      else some (.go (.retiring closing rest))
    | .effects closing [] =>
      some (.go (.edges closing (design.enabledEdges closing.graphId closing.node.id
        (some closing.call.action) closing.facts)))
    | .effects closing (effect :: rest) =>
      some (.write (.event (closing.requested effect)) (.effects closing rest))
    | .edges closing [] => some (.go (.finishing closing))
    | .edges closing (edge :: rest) =>
      match closing.takeEdge design depth db edge with
      | .ok _ => some (.write (.takeEdge closing edge) (.edges closing rest))
      | .error _ => none
    | .finishing closing =>
      if db.busy closing.runId then some (.go .returned)
      else if (db.runs[closing.runId]?).any fun run => run.status = .active then
        some (.write (.completeRun closing.runId) (.finished closing))
      else some (.go (.finished closing))
    | .finished closing =>
      some (.write (.event ⟨closing.runId, none, none, .runComplete, closing.call.env.actor, none,
        .empty⟩) .returned)
    | .returned => some (.commit .idle)

end

def Event.ofNode (runId nodeId : Nat) (event : Event) : Bool :=
  event.runId = runId && event.nodeId = some nodeId &&
    (event.kind = .nodeComplete || event.kind = .transition)

def Db.nodeLog (db : Db) (runId nodeId : Nat) : List Event :=
  db.events.filter (Event.ofNode runId nodeId)

variable {db next : Db} {log : List Event}

theorem Db.nodeLog_append (h : next.events = db.events ++ log) (runId nodeId : Nat) :
    next.nodeLog runId nodeId = db.nodeLog runId nodeId ++ log.filter (Event.ofNode runId nodeId) := by
  rw [Db.nodeLog, h, List.filter_append]
  rfl

theorem Db.nodeLog_log (db : Db) (event : Event) (runId nodeId : Nat) :
    (db.log event).nodeLog runId nodeId =
      db.nodeLog runId nodeId ++ [event].filter (Event.ofNode runId nodeId) :=
  Db.nodeLog_append rfl runId nodeId

theorem Db.nodeLog_eq (h : next.events = db.events ++ log) {runId nodeId : Nat}
    (hlog : ∀ event ∈ log, event.ofNode runId nodeId = false) :
    next.nodeLog runId nodeId = db.nodeLog runId nodeId := by
  have hnone : log.filter (Event.ofNode runId nodeId) = [] := by
    rw [List.filter_eq_nil_iff]
    intro event hevent
    simp [hlog event hevent]
  rw [Db.nodeLog_append h, hnone, List.append_nil]

variable {design : Design} {env : Env} {runId nodeId : Nat}

variable {complete : Nat → Db → Except Failure Db} {facts : Facts} {db next : Db} {node : Node}
  {action : Option String}

section

variable
  (hcomplete : ∀ id db next nodeRun node, db.nodeRuns[id]? = some nodeRun → design.node? nodeRun.nodeId = some node → node.kind ≠ .human → complete id db = .ok next → next.nodeLog runId nodeId = db.nodeLog runId nodeId)
include hcomplete

theorem nodeOpen_nodeLog {openRunId toNodeId : Nat} {opened : Option Nat}
    (h : nodeOpen design env complete openRunId toNodeId facts db = .ok (next, opened)) :
    next.nodeLog runId nodeId = db.nodeLog runId nodeId := by
  rw [nodeOpen] at h
  split at h
  · cases h
  · split at h
    · cases h
    · rename_i node hnode
      obtain ⟨-, rfl⟩ := design.node?_eq_some_iff.mp hnode
      split_ifs at h with hentry hkind
      · cases h
        rw [Db.nodeLog, List.append_assoc, List.filter_append, Db.nodeLog]
        simp [Event.ofNode]
      · dsimp only at h
        split at h
        · cases h
        · rename_i done hdone
          cases h
          rw [hcomplete _ _ _ _ node List.getElem?_concat_length hnode hkind hdone]
          exact Db.nodeLog_eq rfl (by simp [Event.ofNode])
      · cases h
        rfl

theorem takeEdge_nodeLog {fromRunId : Nat} {edge : Edge}
    (h : takeEdge design env complete fromRunId node action facts db edge = .ok next) :
    next.nodeLog runId nodeId = db.nodeLog runId nodeId ++
      [(⟨fromRunId, some node.id, none, .transition, env.actor, none,
        .edge node.id edge.toNodeId action⟩ : Event)].filter (Event.ofNode runId nodeId) := by
  rw [takeEdge] at h
  obtain ⟨result, hopen, rfl⟩ := map_eq_ok.mp h
  rw [nodeOpen_nodeLog hcomplete hopen, Db.nodeLog_log]

end

/-- An automatic node run that is tried writes nothing to the ledger of a human node. -/
theorem nodeTryComplete_nodeLog {human : Node} (hhuman : design.node? nodeId = some human)
    (hkind : human.kind = .human) {depth nodeRunId : Nat} {note : Option String} {nodeRun : NodeRun}
    (hrow : db.nodeRuns[nodeRunId]? = some nodeRun)
    (hnode : design.node? nodeRun.nodeId = some node) (hauto : node.kind ≠ .human)
    (h : nodeTryComplete design env depth nodeRunId action note db = .ok next) :
    next.nodeLog runId nodeId = db.nodeLog runId nodeId := by
  induction depth generalizing nodeRunId action note db next nodeRun node with
  | zero => cases h
  | succ depth ih =>
    have hne : node.id ≠ nodeId := by
      rintro rfl
      obtain ⟨-, hid⟩ := design.node?_eq_some_iff.mp hnode
      rw [← hid, hhuman] at hnode
      cases hnode
      exact hauto hkind
    rw [nodeTryComplete, hrow] at h
    dsimp only at h
    split_ifs at h with hstatus
    · cases h
      rfl
    · rw [hnode] at h
      split at h
      · rename_i node' run hnode' hrun
        cases hnode'
        split_ifs at h with hdone
        · split at h
          · cases h
          · rename_i opened hopened
            have hclosed : ((db.closeNodeRun env.now nodeRunId nodeRun).logCompletion design env
                nodeRun.runId run.graphId node action note).nodeLog runId nodeId =
                  db.nodeLog runId nodeId := by
              refine Db.nodeLog_eq rfl ?_
              intro event hevent
              rcases List.mem_cons.mp hevent with rfl | heffect
              · simp [Event.ofNode, hne]
              · obtain ⟨effect, -, rfl⟩ := List.mem_map.mp heffect
                simp [Event.ofNode]
            have hloop : opened.nodeLog runId nodeId = db.nodeLog runId nodeId := by
              rw [← hclosed]
              refine foldlM_relation
                (fun db next => Db.nodeLog next runId nodeId = Db.nodeLog db runId nodeId)
                (fun _ => rfl) (fun _ _ _ hab hbc => hbc.trans hab) ?_ hopened
              intro db edge next htake
              rw [takeEdge_nodeLog (fun _ _ _ _ _ hr hn ha hd => ih hr hn ha hd) htake]
              simp [Event.ofNode, hne]
            split at h
            · cases h
              exact hloop
            · cases h
              rw [Db.finishRun]
              split
              · exact hloop
              · rw [← hloop]
                exact Db.nodeLog_eq rfl (by simp [Event.ofNode])
        · cases h
          rfl
      · cases h

end Stynx.Flow
