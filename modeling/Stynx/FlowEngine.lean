import Mathlib.Algebra.Group.Nat.Defs
import Stynx.ExceptFolds
import Stynx.FlowDesign
import Stynx.TransitionRuns

/-!
# The flow engine

The runtime tables of one tenant and the functions that write them. A call is one transaction.
`node_open` and `node_try_complete` call each other; the depth of their stack is limited, and a
call that goes deeper raises.

Rows are never deleted, and the key of a run, a node run or a task is its position. Timestamps
are readings of the clock of the call.
-/

namespace Stynx.Flow

inductive RunStatus where
  | active
  | completed
  | canceled
  deriving DecidableEq

inductive NodeRunStatus where
  | pending
  | inProgress
  | completed
  | canceled
  deriving DecidableEq

inductive TaskStatus where
  | open_
  | completed
  | expired
  | canceled
  deriving DecidableEq

/-- A row of `flow.runs`. -/
structure Run where
  graphId : Nat
  scopeId : Nat
  adapterKey : String
  targetType : String
  targetId : String
  status : RunStatus

/-- A row of `flow.node_runs`. -/
structure NodeRun where
  runId : Nat
  nodeId : Nat
  status : NodeRunStatus
  closedAt : Option Nat

/-- A row of `flow.tasks`. -/
structure Task where
  runId : Nat
  nodeRunId : Nat
  nodeId : Nat
  assigneeType : AssigneeType
  assigneeId : Option String
  assigneeUserId : Option String
  assignedBy : Option String
  status : TaskStatus
  allowedActions : List String
  payload : String
  note : Option String
  decidedAction : Option String
  decidedAt : Option Nat
  assignedAt : Option Nat
  acceptedAt : Option Nat
  declinedAt : Option Nat
  withdrawnAt : Option Nat
  retiredAt : Option Nat

/-- The kinds of `flow.event_kind` that the engine writes. -/
inductive EventKind where
  | runEnsure
  | nodeOpen
  | taskCreate
  | taskDone
  | taskAssign
  | nodeComplete
  | transition
  | effectRequested
  | runComplete
  | signalReceived
  | taskAccept
  | taskDecline
  | taskWithdraw
  | taskUnaccept
  deriving DecidableEq

inductive EventPayload where
  | empty
  | decision (payload : String)
  | effect (effectKey payload : String)
  | edge (fromNodeId toNodeId : Nat) (action : Option String)

/-- A row of `flow.events`. -/
structure Event where
  runId : Nat
  nodeId : Option Nat
  taskId : Option Nat
  kind : EventKind
  actorId : Option String
  note : Option String
  payload : EventPayload

/-- The runtime tables. -/
structure Db where
  runs : List Run
  nodeRuns : List NodeRun
  tasks : List Task
  events : List Event

/-- The tables before the first call. -/
def Db.empty : Db := ⟨[], [], [], []⟩

/-- What a call finds outside the runtime tables. -/
structure Env where
  /-- `app.actor_id`. -/
  actor : Option String
  /-- `clock_timestamp()`. -/
  now : Nat
  /-- `flow.build_facts` of a scope and a target. -/
  facts : Nat → String → String → Facts
  /-- A form has an answer for a scope and a target. -/
  answered : Nat → Nat → String → String → Bool
  /-- A form has a waiver in force for a scope and a target. -/
  waived : Nat → Nat → String → String → Bool

/-- How a call fails. -/
inductive Failure where
  | raised (message : String)
  | stackDepth

def Db.log (db : Db) (event : Event) : Db := { db with events := db.events ++ [event] }

def Run.facts (env : Env) (run : Run) : Facts := env.facts run.scopeId run.targetType run.targetId

def Db.tasksOf (db : Db) (nodeRunId : Nat) : List Task :=
  db.tasks.filter fun task => task.nodeRunId = nodeRunId

def NodeRun.isOpen (nodeRun : NodeRun) : Bool :=
  nodeRun.status = .pending || nodeRun.status = .inProgress

/-- Some node run of the run is pending or in progress. -/
def Db.busy (db : Db) (runId : Nat) : Bool :=
  db.nodeRuns.any fun nodeRun => nodeRun.runId = runId && nodeRun.isOpen

def Task.opened (runId nodeRunId : Nat) (node : Node) (assigneeType : AssigneeType)
    (assigneeId assigneeUserId : Option String) : Task :=
  { runId := runId, nodeRunId := nodeRunId, nodeId := node.id
    assigneeType := assigneeType, assigneeId := assigneeId, assigneeUserId := assigneeUserId
    assignedBy := none, status := .open_, allowedActions := node.allowedActions
    payload := "\x7b\x7d", note := none, decidedAction := none, decidedAt := none
    assignedAt := none, acceptedAt := none, declinedAt := none, withdrawnAt := none
    retiredAt := none }

/-- The tasks of a node run that is opened: one for each agent, or one without assignee. -/
def Design.openTasks (design : Design) (runId nodeRunId graphId : Nat) (node : Node) : List Task :=
  match design.resolveAgents node.id graphId with
  | [] => [Task.opened runId nodeRunId node .unassigned none none]
  | agents => agents.map fun (agentType, agentId) =>
      Task.opened runId nodeRunId node agentType (some agentId)
        (if agentType = .user then some agentId else none)

/-- The position of the first digit of a `numeric` in base 10000. -/
def numericWeight (n : Nat) : Nat := ((Nat.toDigits 10 n).length - 1) / 4

/-- The scale of the quotient of two whole `numeric`s: sixteen significant digits, in groups of
four. -/
def selectDivScale (dividend divisor : Nat) : Nat :=
  let quotientWeight : Int := numericWeight dividend - numericWeight divisor -
    if dividend / 10000 ^ numericWeight dividend ≤ divisor / 10000 ^ numericWeight divisor then 1
    else 0
  (16 - quotientWeight * 4).toNat

/-- The quotient of two whole `numeric`s, rounded half up to its scale. -/
def numericDiv (dividend divisor : Nat) : ℚ :=
  let unit := 10 ^ selectDivScale dividend divisor
  (((2 * dividend * unit + divisor) / (2 * divisor) : Nat) : ℚ) / ((unit : Nat) : ℚ)

/-- `v_done`: the decision policy of a human node, the exit rule of any other. -/
def nodeDone (db : Db) (facts : Facts) (nodeRunId : Nat) (node : Node) : Bool :=
  if node.kind = .human then
    match node.decisionPolicy with
    | .all => !(db.tasksOf nodeRunId).any fun task => task.status = .open_
    | .quorum =>
      node.quorumRatio.getD (1 / 2) ≤
        numericDiv ((db.tasksOf nodeRunId).countP fun task => task.status = .completed)
          (max (db.tasksOf nodeRunId).length 1)
    | .any => (db.tasksOf nodeRunId).any fun task => task.status = .completed
  else evalRule node.exitRule facts

def Task.retire (now nodeRunId : Nat) (task : Task) : Task :=
  if task.nodeRunId = nodeRunId && task.status = .open_ then
    { task with status := .canceled, retiredAt := some now }
  else task

def Db.closeNodeRun (db : Db) (now nodeRunId : Nat) (nodeRun : NodeRun) : Db :=
  { db with
    nodeRuns := db.nodeRuns.set nodeRunId
      { nodeRun with status := .completed, closedAt := some now }
    tasks := db.tasks.map (Task.retire now nodeRunId) }

def Db.logCompletion (db : Db) (design : Design) (env : Env) (runId graphId : Nat) (node : Node)
    (action note : Option String) : Db :=
  { db with
    events := db.events ++
      ⟨runId, some node.id, none, .nodeComplete, env.actor, note, .empty⟩ ::
        (design.requestedEffects graphId node.code action).map fun effect =>
          ⟨runId, some node.id, none, .effectRequested, env.actor, none,
            .effect effect.effectKey effect.payload⟩ }

/-- The last statement of `node_try_complete`: the run is completed when nothing is open in it. -/
def Db.finishRun (db : Db) (env : Env) (runId : Nat) (run : Run) : Db :=
  if db.busy runId then db
  else
    { db with
      runs := if run.status = .active then db.runs.set runId { run with status := .completed }
        else db.runs
      events := db.events ++ [⟨runId, none, none, .runComplete, env.actor, none, .empty⟩] }

section

variable (design : Design) (env : Env)

/-- `flow.node_open`, for a given `node_try_complete`. -/
def nodeOpen (complete : Nat → Db → Except Failure Db) (runId nodeId : Nat) (facts : Facts)
    (db : Db) : Except Failure (Db × Option Nat) :=
  match db.runs[runId]? with
  | none => .error (.raised "run not found")
  | some run =>
    match design.node? nodeId with
    | none => .error (.raised "node not found")
    | some node =>
      if evalRule node.entryRule facts then
        let nodeRunId := db.nodeRuns.length
        let opened : Db :=
          { db with
            nodeRuns := db.nodeRuns ++ [⟨runId, nodeId, .inProgress, none⟩]
            events := db.events ++
              [⟨runId, some nodeId, none, .nodeOpen, env.actor, none, .empty⟩] }
        if node.kind = .human then
          .ok
            ({ opened with
                tasks := db.tasks ++ design.openTasks runId nodeRunId run.graphId node
                events := opened.events ++
                  [⟨runId, some nodeId, none, .taskCreate, env.actor, none, .empty⟩] },
              some nodeRunId)
        else
          match complete nodeRunId opened with
          | .error failure => .error failure
          | .ok done => .ok (done, some nodeRunId)
      else .ok (db, none)

/-- One turn of the loop over the enabled edges. -/
def takeEdge (complete : Nat → Db → Except Failure Db) (runId : Nat) (node : Node)
    (action : Option String) (facts : Facts) (db : Db) (edge : Edge) : Except Failure Db :=
  (nodeOpen design env complete runId edge.toNodeId facts
    (db.log ⟨runId, some node.id, none, .transition, env.actor, none,
      .edge node.id edge.toNodeId action⟩)).map Prod.fst

def nodeTryComplete : Nat → Nat → Option String → Option String → Db → Except Failure Db
  | 0, _, _, _, _ => .error .stackDepth
  | depth + 1, nodeRunId, action, note, db =>
    match db.nodeRuns[nodeRunId]? with
    | none => .error (.raised "node_run not found")
    | some nodeRun =>
      if nodeRun.status = .completed then .ok db
      else
        match design.node? nodeRun.nodeId, db.runs[nodeRun.runId]? with
        | some node, some run =>
          let facts := run.facts env
          if nodeDone db facts nodeRunId node then
            let closed := (db.closeNodeRun env.now nodeRunId nodeRun).logCompletion design env
              nodeRun.runId run.graphId node action note
            match (design.enabledEdges run.graphId node.id action facts).foldlM
                (takeEdge design env (fun id db => nodeTryComplete depth id none none db)
                  nodeRun.runId node action facts) closed with
            | .error failure => .error failure
            | .ok opened =>
              match opened.runs[nodeRun.runId]? with
              | none => .ok opened
              | some current => .ok (opened.finishRun env nodeRun.runId current)
          else .ok db
        | _, _ => .error (.raised "null value violates not-null constraint")

end

variable (design : Design) (depth : Nat) (env : Env)

def Db.findRun (db : Db) (graphId : Nat) (targetType targetId : String) : Option Nat :=
  db.runs.findIdx? fun run =>
    run.graphId = graphId && run.targetType = targetType && run.targetId = targetId

def Db.upsertRun (db : Db) (graph : Graph) (adapterKey targetType targetId : String) : Db × Nat :=
  match db.findRun graph.id targetType targetId with
  | some runId => (db, runId)
  | none =>
    ({ db with
        runs := db.runs ++ [⟨graph.id, graph.scopeId, adapterKey, targetType, targetId, .active⟩] },
      db.runs.length)

def runEnsure (graphCode version scopeCode : String) (adapterKey : Option String)
    (targetType targetId : String) (db : Db) : Except Failure (Db × Nat) :=
  match design.runnableGraph graphCode version scopeCode adapterKey with
  | none => .error (.raised ("flow graph " ++ graphCode ++ "." ++ version ++ " for scope " ++
      scopeCode ++ " not found"))
  | some graph =>
    let scopeKey := ((design.scopes.find? fun scope => scope.id = graph.scopeId).map
      Scope.adapterKey).getD ""
    let (db, runId) := db.upsertRun graph scopeKey targetType targetId
    let facts := env.facts graph.scopeId targetType targetId
    let logged := db.log ⟨runId, none, none, .runEnsure, env.actor, none, .empty⟩
    match (design.startNodes graph.id).foldlM (fun db start =>
        (nodeOpen design env (fun id db => nodeTryComplete design env depth id none none db) runId
          start.id facts db).map Prod.fst) logged with
    | .error failure => .error failure
    | .ok opened => .ok (opened, runId)

def formRulePasses (rule : NodeFormRule) (form : Form) (run : Run) : Bool :=
  match rule.gatingMode with
  | .allRequired => ((run.facts env).autoPass form.code).getD false
  | .threshold => rule.threshold.getD 0 ≤ ((run.facts env).score form.code).getD 0
  | .any => env.answered rule.formId run.scopeId run.targetType run.targetId ||
      env.waived rule.formId run.scopeId run.targetType run.targetId

def nodeFormRulesSatisfied (nodeRunId : Nat) (db : Db) : Except Failure Bool :=
  match db.nodeRuns[nodeRunId]? with
  | none => .error (.raised "node_run not found")
  | some nodeRun =>
    match design.node? nodeRun.nodeId, db.runs[nodeRun.runId]? with
    | some node, some run =>
      .ok (node.kind ≠ .human || !design.nodeFormRules.any fun rule =>
        rule.nodeId = node.id && rule.required && design.forms.any fun form =>
          form.id = rule.formId && form.isActive && !formRulePasses env rule form run)
    | _, _ => .ok true

/-- Rewrite a task and append an event about it. -/
def Db.writeTask (db : Db) (taskId : Nat) (old new : Task) (kind : EventKind) (env : Env)
    (note : Option String) (payload : EventPayload) : Db :=
  ({ db with tasks := db.tasks.set taskId new }).log
    ⟨old.runId, some old.nodeId, some taskId, kind, env.actor, note, payload⟩

def Task.decide (task : Task) (now : Nat) (action : String) (note payload : Option String) : Task :=
  { task with
    status := .completed, decidedAction := some action, decidedAt := some now, note := note
    payload := payload.getD "\x7b\x7d", retiredAt := some now }

def taskComplete (taskId : Nat) (action : String) (note payload : Option String) (db : Db) :
    Except Failure Db :=
  match db.tasks[taskId]? with
  | none => .error (.raised "task not found")
  | some task =>
    if task.status = .completed then .ok db
    else if task.status ≠ .open_ then .error (.raised "task is not open")
    else
      match nodeFormRulesSatisfied design env task.nodeRunId db with
      | .error failure => .error failure
      | .ok false => .error (.raised "required flow form rules are not satisfied")
      | .ok true =>
        nodeTryComplete design env depth task.nodeRunId (some action) note
          (db.writeTask taskId task (task.decide env.now action note payload) .taskDone env note
            (.decision (payload.getD "\x7b\x7d")))

def taskAssign (taskId : Nat) (user : Option String) (note : Option String) (db : Db) :
    Except Failure Db :=
  match user with
  | none => .error (.raised "user_id is required")
  | some userId =>
    match db.tasks[taskId]? with
    | none => .error (.raised "task not found")
    | some task =>
      .ok (db.writeTask taskId task
        { task with
          assigneeType := .user, assigneeId := some userId, assigneeUserId := some userId
          assignedBy := env.actor, assignedAt := some env.now, acceptedAt := none
          declinedAt := none, withdrawnAt := none } .taskAssign env note .empty)

def taskUnassign (taskId : Nat) (note : Option String) (db : Db) : Except Failure Db :=
  match db.tasks[taskId]? with
  | none => .error (.raised "task not found")
  | some task =>
    .ok (db.writeTask taskId task
      { task with
        assigneeType := .unassigned, assigneeId := none, assigneeUserId := none
        assignedBy := none, assignedAt := none, acceptedAt := none } .taskAssign env note .empty)

/-- The check of the current assignee. -/
def foreignTask (task : Task) : Bool :=
  task.assigneeUserId.isSome && task.assigneeUserId ≠ env.actor

def taskAccept (taskId : Nat) (note : Option String) (db : Db) : Except Failure Db :=
  match db.tasks[taskId]? with
  | none => .error (.raised "task not found")
  | some task =>
    if foreignTask env task then
      .error (.raised "only the current assignee may accept the task")
    else
      .ok (db.writeTask taskId task
        { task with acceptedAt := some env.now, declinedAt := none, withdrawnAt := none }
        .taskAccept env note .empty)

def taskDecline (taskId : Nat) (note : Option String) (db : Db) : Except Failure Db :=
  match db.tasks[taskId]? with
  | none => .error (.raised "task not found")
  | some task =>
    if foreignTask env task then
      .error (.raised "only the current assignee may decline the task")
    else
      taskUnassign env taskId note (db.writeTask taskId task
        { task with declinedAt := some env.now, acceptedAt := none } .taskDecline env note .empty)

def taskUnaccept (taskId : Nat) (note : Option String) (db : Db) : Except Failure Db :=
  match db.tasks[taskId]? with
  | none => .error (.raised "task not found")
  | some task =>
    if foreignTask env task then
      .error (.raised "only the current assignee may unaccept the task")
    else
      .ok (db.writeTask taskId task { task with acceptedAt := none } .taskUnaccept env note .empty)

def taskWithdraw (taskId : Nat) (note : Option String) (db : Db) : Except Failure Db :=
  match db.tasks[taskId]? with
  | none => .error (.raised "task not found")
  | some task =>
    .ok (db.writeTask taskId task
      { task with
        withdrawnAt := some env.now, status := .canceled, retiredAt := some env.now }
      .taskWithdraw env note .empty)

def Run.signalled (scopeId : Nat) (targetType : Option String) (targetId : String) (run : Run) :
    Bool :=
  run.scopeId = scopeId && run.targetId = targetId &&
    (targetType.isNone || targetType = some run.targetType) && run.status = .active

def Db.signalledNodeRuns (db : Db) (scopeId : Nat) (targetType : Option String)
    (targetId : String) : List Nat :=
  (List.range db.nodeRuns.length).filter fun id =>
    (db.nodeRuns[id]?).any fun nodeRun =>
      nodeRun.isOpen && (db.runs[nodeRun.runId]?).any (Run.signalled scopeId targetType targetId)

def Db.logSignal (db : Db) (env : Env) (scopeId : Nat) (targetType : Option String)
    (targetId : String) : Db :=
  { db with
    events := db.events ++ ((List.range db.runs.length).filter fun id =>
      (db.runs[id]?).any (Run.signalled scopeId targetType targetId)).map fun id =>
        ⟨id, none, none, .signalReceived, env.actor, none, .empty⟩ }

/-- `flow.signal_changed`; the query has no order, so the call is given one. -/
def signalChanged (scopeId : Nat) (targetType : Option String) (targetId : String)
    (order : List Nat) (db : Db) : Except Failure Db :=
  order.foldlM (fun db id => nodeTryComplete design env depth id none (some "facts_changed") db)
    (db.logSignal env scopeId targetType targetId)

def updateRun (runId : Nat) (status : RunStatus) (db : Db) : Except Failure Db :=
  match db.runs[runId]? with
  | none => .error (.raised "Run not found")
  | some run => .ok { db with runs := db.runs.set runId { run with status := status } }

/-- The calls of the engine. -/
inductive Command where
  | runEnsure (graphCode version scopeCode : String) (adapterKey : Option String)
      (targetType targetId : String)
  | taskComplete (taskId : Nat) (action : String) (note payload : Option String)
  | taskAssign (taskId : Nat) (user : Option String) (note : Option String)
  | taskUnassign (taskId : Nat) (note : Option String)
  | taskAccept (taskId : Nat) (note : Option String)
  | taskDecline (taskId : Nat) (note : Option String)
  | taskUnaccept (taskId : Nat) (note : Option String)
  | taskWithdraw (taskId : Nat) (note : Option String)
  | signalChanged (scopeId : Nat) (targetType : Option String) (targetId : String)
      (order : List Nat)
  | updateRun (runId : Nat) (status : RunStatus)

def Command.exec (db : Db) : Command → Except Failure Db
  | .runEnsure graphCode version scopeCode adapterKey targetType targetId =>
    (Flow.runEnsure design depth env graphCode version scopeCode adapterKey targetType targetId
      db).map Prod.fst
  | .taskComplete taskId action note payload =>
    Flow.taskComplete design depth env taskId action note payload db
  | .taskAssign taskId user note => Flow.taskAssign env taskId user note db
  | .taskUnassign taskId note => Flow.taskUnassign env taskId note db
  | .taskAccept taskId note => Flow.taskAccept env taskId note db
  | .taskDecline taskId note => Flow.taskDecline env taskId note db
  | .taskUnaccept taskId note => Flow.taskUnaccept env taskId note db
  | .taskWithdraw taskId note => Flow.taskWithdraw env taskId note db
  | .signalChanged scopeId targetType targetId order =>
    Flow.signalChanged design depth env scopeId targetType targetId order db
  | .updateRun runId status => Flow.updateRun runId status db

def Command.enabled (db : Db) : Command → Bool
  | .signalChanged scopeId targetType targetId order =>
    order.isPerm (db.signalledNodeRuns scopeId targetType targetId)
  | _ => true

/-- A call and what it finds outside. -/
structure Call where
  env : Env
  command : Command

def step (design : Design) (depth : Nat) (db : Db) (call : Call) : Option Db :=
  if call.command.enabled db then
    match call.command.exec design depth call.env db with
    | .ok next => some next
    | .error _ => some db
  else none

end Stynx.Flow
