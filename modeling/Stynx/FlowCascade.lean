import Stynx.FlowEngine

/-!
# What a cascade does to the tables

A cascade opens node runs, completes automatic ones and may complete its run.
Each of these is one elementary change; what every elementary change preserves,
every cascade preserves.
-/

namespace Stynx.Flow

open ExceptFolds TransitionRuns
open Relation (ReflTransGen)

/-- An elementary change of a cascade; the ledger is free. -/
inductive Change (design : Design) (db next : Db) : Prop
  /-- Only the ledger grows. -/
  | log (runs : next.runs = db.runs) (nodeRuns : next.nodeRuns = db.nodeRuns)
      (tasks : next.tasks = db.tasks)
  | openAuto (runId : Nat) (run : Run) (node : Node) (hrun : db.runs[runId]? = some run)
      (hnode : design.node? node.id = some node) (hkind : node.kind ≠ .human)
      (runs : next.runs = db.runs)
      (nodeRuns : next.nodeRuns = db.nodeRuns ++ [⟨runId, node.id, .inProgress, none⟩])
      (tasks : next.tasks = db.tasks)
  | openHuman (runId : Nat) (run : Run) (node : Node) (hrun : db.runs[runId]? = some run)
      (hnode : design.node? node.id = some node) (hkind : node.kind = .human)
      (runs : next.runs = db.runs)
      (nodeRuns : next.nodeRuns = db.nodeRuns ++ [⟨runId, node.id, .inProgress, none⟩])
      (tasks : next.tasks = db.tasks ++ design.openTasks runId db.nodeRuns.length run.graphId node)
  | closeAuto (now nodeRunId : Nat) (nodeRun : NodeRun) (node : Node)
      (hnodeRun : db.nodeRuns[nodeRunId]? = some nodeRun)
      (hnode : design.node? nodeRun.nodeId = some node) (hkind : node.kind ≠ .human)
      (runs : next.runs = db.runs)
      (nodeRuns : next.nodeRuns = (db.closeNodeRun now nodeRunId nodeRun).nodeRuns)
      (tasks : next.tasks = (db.closeNodeRun now nodeRunId nodeRun).tasks)
  /-- A run in which nothing is open is completed. -/
  | finish (runId : Nat) (run : Run) (hrun : db.runs[runId]? = some run)
      (hactive : run.status = .active) (hidle : db.busy runId = false)
      (runs : next.runs = db.runs.set runId { run with status := .completed })
      (nodeRuns : next.nodeRuns = db.nodeRuns) (tasks : next.tasks = db.tasks)

variable {design : Design} {db next : Db}

theorem Change.runs_cases (h : Change design db next) :
    next.runs = db.runs ∨ ∃ runId run, db.runs[runId]? = some run ∧
      next.runs = db.runs.set runId { run with status := .completed } := by
  cases h with
  | log runs => exact .inl runs
  | openAuto _ _ _ _ _ _ runs => exact .inl runs
  | openHuman _ _ _ _ _ _ runs => exact .inl runs
  | closeAuto _ _ _ _ _ _ _ runs => exact .inl runs
  | finish runId run hrun _ _ runs => exact .inr ⟨runId, run, hrun, runs⟩

/-- Any number of elementary changes. -/
abbrev Changes (design : Design) : Db → Db → Prop := ReflTransGen (Change design)

theorem Changes.invariant {inv : Db → Prop}
    (hstep : ∀ db next, inv db → Change design db next → inv next) (hs : inv db)
    (h : Changes design db next) : inv next := by
  induction h with
  | refl => exact hs
  | tail _ hlast ih => exact hstep _ _ ih hlast

section

variable {design : Design} {env : Env}

theorem Change.of_log (db : Db) (event : Event) : Change design db (db.log event) :=
  .log rfl rfl rfl

variable {db next : Db} {runId : Nat}

theorem Db.finishRun_changes {run : Run} (hrun : db.runs[runId]? = some run) :
    Changes design db (db.finishRun env runId run) := by
  rw [Db.finishRun]
  split_ifs with hbusy hactive
  · exact .refl
  · exact .single (.finish runId run hrun hactive (by simpa using hbusy) rfl rfl rfl)
  · exact .single (.log rfl rfl rfl)

variable {complete : Nat → Db → Except Failure Db} {facts : Facts} {node : Node}
  {action : Option String} {nodeRunId depth : Nat}

theorem nodeOpen_changes {nodeId : Nat} {opened : Option Nat}
    (hcomplete : ∀ id db next nodeRun node, db.nodeRuns[id]? = some nodeRun →
      design.node? nodeRun.nodeId = some node → node.kind ≠ .human →
      complete id db = .ok next → Changes design db next)
    (h : nodeOpen design env complete runId nodeId facts db = .ok (next, opened)) :
    Changes design db next := by
  rw [nodeOpen] at h
  split at h
  · cases h
  · rename_i run hrun
    split at h
    · cases h
    · rename_i node hnode
      obtain ⟨-, rfl⟩ := design.node?_eq_some_iff.mp hnode
      split_ifs at h with hentry hkind
      · cases h
        exact .single (.openHuman runId run node hrun hnode hkind rfl rfl rfl)
      · dsimp only at h
        split at h
        · cases h
        · rename_i done hdone
          cases h
          refine .trans (.single ?_)
            (hcomplete _ _ _ _ node List.getElem?_concat_length hnode hkind hdone)
          exact .openAuto runId run node hrun hnode hkind rfl rfl rfl
      · cases h
        exact .refl

theorem takeEdge_changes {edge : Edge}
    (hcomplete : ∀ id db next nodeRun node, db.nodeRuns[id]? = some nodeRun →
      design.node? nodeRun.nodeId = some node → node.kind ≠ .human →
      complete id db = .ok next → Changes design db next)
    (h : takeEdge design env complete runId node action facts db edge = .ok next) :
    Changes design db next := by
  rw [takeEdge] at h
  obtain ⟨result, hopen, rfl⟩ := map_eq_ok.mp h
  exact .head (.of_log db _) (nodeOpen_changes hcomplete hopen)

/-- A call of `node_try_complete` finds its node run completed or not done, or completes it and
cascades. -/
inductive Tried (design : Design) (env : Env) (nodeRunId : Nat) (db next : Db) : Prop
  /-- Nothing happens. -/
  | idle (same : next = db)
      (hidle : ∀ nodeRun node run, db.nodeRuns[nodeRunId]? = some nodeRun →
        design.node? nodeRun.nodeId = some node → db.runs[nodeRun.runId]? = some run →
        nodeRun.status = .completed ∨ nodeDone db (run.facts env) nodeRunId node = false)
  | completed (nodeRun : NodeRun) (node : Node) (run : Run)
      (hnodeRun : db.nodeRuns[nodeRunId]? = some nodeRun)
      (hopen : nodeRun.status ≠ .completed)
      (hnode : design.node? nodeRun.nodeId = some node)
      (hrun : db.runs[nodeRun.runId]? = some run)
      (hdone : nodeDone db (run.facts env) nodeRunId node = true)
      (changes : Changes design (db.closeNodeRun env.now nodeRunId nodeRun) next)

theorem Tried.changes {nodeRun : NodeRun} (h : Tried design env nodeRunId db next)
    (hnodeRun : db.nodeRuns[nodeRunId]? = some nodeRun)
    (hnode : design.node? nodeRun.nodeId = some node) (hkind : node.kind ≠ .human) :
    Changes design db next := by
  cases h with
  | idle same _ =>
    subst same
    exact .refl
  | completed nodeRun' node' run hnodeRun' _ hnode' _ _ changes =>
    obtain rfl := Option.some.inj (hnodeRun.symm.trans hnodeRun')
    obtain rfl := Option.some.inj (hnode.symm.trans hnode')
    refine .trans (.single ?_) changes
    exact .closeAuto env.now nodeRunId nodeRun node hnodeRun hnode hkind rfl rfl rfl

theorem nodeTryComplete_tried {note : Option String}
    (h : nodeTryComplete design env depth nodeRunId action note db = .ok next) :
    Tried design env nodeRunId db next := by
  induction depth generalizing nodeRunId action note db next with
  | zero => cases h
  | succ depth ih =>
    have hcascade : ∀ id db next nodeRun node, db.nodeRuns[id]? = some nodeRun →
        design.node? nodeRun.nodeId = some node → node.kind ≠ .human →
        nodeTryComplete design env depth id none none db = .ok next → Changes design db next :=
      fun id db next nodeRun node hnodeRun hnode hkind h => (ih h).changes hnodeRun hnode hkind
    rw [nodeTryComplete] at h
    split at h
    · cases h
    · rename_i nodeRun hnodeRun
      split_ifs at h with hstatus
      · cases h
        refine .idle rfl ?_
        intro nodeRun' _ _ hnodeRun' _ _
        obtain rfl := Option.some.inj (hnodeRun.symm.trans hnodeRun')
        exact .inl hstatus
      · split at h
        · rename_i node run hnode hrun
          dsimp only at h
          split_ifs at h with hdone
          · refine .completed nodeRun node run hnodeRun hstatus hnode hrun hdone ?_
            split at h
            · cases h
            · rename_i opened hopened
              have hloop : Changes design (db.closeNodeRun env.now nodeRunId nodeRun) opened := by
                refine .trans (.single ?_) (foldlM_relation (Changes design) (fun _ => .refl)
                  (fun _ _ _ => .trans) (fun db edge next h => takeEdge_changes hcascade h) hopened)
                exact .log rfl rfl rfl
              split at h
              · cases h
                exact hloop
              · rename_i current hcurrent
                cases h
                exact hloop.trans (Db.finishRun_changes hcurrent)
          · cases h
            refine .idle rfl ?_
            intro nodeRun' node' run' hnodeRun' hnode' hrun'
            obtain rfl := Option.some.inj (hnodeRun.symm.trans hnodeRun')
            obtain rfl := Option.some.inj (hnode.symm.trans hnode')
            obtain rfl := Option.some.inj (hrun.symm.trans hrun')
            exact .inr (by simpa using hdone)
        · cases h

theorem runEnsure_changes {graphCode version scopeCode : String} {adapterKey : Option String}
    {targetType targetId : String}
    (h : runEnsure design depth env graphCode version scopeCode adapterKey targetType targetId db =
      .ok (next, runId)) :
    ∃ graph scopeKey, design.runnableGraph graphCode version scopeCode adapterKey = some graph ∧
      runId = (db.upsertRun graph scopeKey targetType targetId).2 ∧
      Changes design (db.upsertRun graph scopeKey targetType targetId).1 next := by
  rw [runEnsure] at h
  split at h
  · cases h
  · rename_i graph hgraph
    dsimp only at h
    split at h
    · cases h
    · rename_i opened hopened
      cases h
      have hloop := foldlM_relation (Changes design) (fun _ => .refl) (fun _ _ _ => .trans)
        (fun db start next hstart => by
          obtain ⟨result, hopen, rfl⟩ := map_eq_ok.mp hstart
          exact nodeOpen_changes (fun _ _ _ _ _ hnodeRun hnode hkind h =>
            (nodeTryComplete_tried h).changes hnodeRun hnode hkind) hopen) hopened
      exact ⟨graph, _, hgraph, rfl, .head (.of_log _ _) hloop⟩

end

variable {design : Design} {depth : Nat}

/-- A task keeps its place, its status and its decision. -/
structure SameDecision (old new : Task) : Prop where
  runId : new.runId = old.runId
  nodeRunId : new.nodeRunId = old.nodeRunId
  status : new.status = old.status
  decidedAction : new.decidedAction = old.decidedAction
  decidedAt : new.decidedAt = old.decidedAt

/-- Everything that a call can do. -/
inductive Acts (design : Design) (depth : Nat) (env : Env) (db next : Db) : Command → Prop
  /-- It raises, or finds nothing to do. -/
  | rejected (command : Command) (same : next = db) : Acts design depth env db next command
  /-- The run is found or inserted and its start nodes are opened. -/
  | ensured (graphCode version scopeCode : String) (adapterKey : Option String)
      (targetType targetId : String) (runId : Nat)
      (h : runEnsure design depth env graphCode version scopeCode adapterKey targetType targetId
        db = .ok (next, runId)) :
      Acts design depth env db next
        (.runEnsure graphCode version scopeCode adapterKey targetType targetId)
  | decided (taskId : Nat) (action : String) (note payload : Option String) (task : Task)
      (htask : db.tasks[taskId]? = some task) (hopen : task.status = .open_)
      (hforms : nodeFormRulesSatisfied design env task.nodeRunId db = .ok true)
      (h : nodeTryComplete design env depth task.nodeRunId (some action) note
        (db.writeTask taskId task (task.decide env.now action note payload) .taskDone env note
          (.decision (payload.getD "\x7b\x7d"))) = .ok next) :
      Acts design depth env db next (.taskComplete taskId action note payload)
  /-- A task is rewritten and keeps its decision. -/
  | rewritten (command : Command) (taskId : Nat) (task new : Task)
      (htask : db.tasks[taskId]? = some task) (hsame : SameDecision task new)
      (runs : next.runs = db.runs) (nodeRuns : next.nodeRuns = db.nodeRuns)
      (tasks : next.tasks = db.tasks.set taskId new) : Acts design depth env db next command
  | withdrawn (taskId : Nat) (note : Option String) (task : Task)
      (htask : db.tasks[taskId]? = some task) (runs : next.runs = db.runs)
      (nodeRuns : next.nodeRuns = db.nodeRuns)
      (tasks : next.tasks = db.tasks.set taskId
        { task with
          withdrawnAt := some env.now, status := .canceled, retiredAt := some env.now }) :
      Acts design depth env db next (.taskWithdraw taskId note)
  /-- The open node runs of a target are tried. -/
  | signalled (scopeId : Nat) (targetType : Option String) (targetId : String) (order : List Nat)
      (horder : order.Perm (db.signalledNodeRuns scopeId targetType targetId))
      (h : order.foldlM (fun db id => nodeTryComplete design env depth id none
        (some "facts_changed") db) (db.logSignal env scopeId targetType targetId) = .ok next) :
      Acts design depth env db next (.signalChanged scopeId targetType targetId order)
  | updated (runId : Nat) (status : RunStatus) (run : Run) (hrun : db.runs[runId]? = some run)
      (runs : next.runs = db.runs.set runId { run with status := status })
      (nodeRuns : next.nodeRuns = db.nodeRuns) (tasks : next.tasks = db.tasks) :
      Acts design depth env db next (.updateRun runId status)

variable {env : Env} {db next : Db}

variable {command : Command} {taskId : Nat} {note : Option String}

theorem Acts.of_writeTask {task new : Task} {kind : EventKind} {payload : EventPayload}
    (htask : db.tasks[taskId]? = some task)
    (h : Except.ok (db.writeTask taskId task new kind env note payload) =
      (.ok next : Except Failure Db))
    (hsame : SameDecision task new) :
    Acts design depth env db next command := by
  cases h
  exact .rewritten command taskId task new htask hsame rfl rfl rfl

theorem taskUnassign_eq_ok (h : taskUnassign env taskId note db = .ok next) :
    ∃ task new, db.tasks[taskId]? = some task ∧ SameDecision task new ∧ next.runs = db.runs ∧
      next.nodeRuns = db.nodeRuns ∧ next.tasks = db.tasks.set taskId new := by
  rw [taskUnassign] at h
  split at h
  · cases h
  · rename_i task htask
    cases h
    refine ⟨task, _, htask, ?_, rfl, rfl, rfl⟩
    exact ⟨rfl, rfl, rfl, rfl, rfl⟩

theorem exec_acts (henabled : command.enabled db = true)
    (h : command.exec design depth env db = .ok next) : Acts design depth env db next command := by
  cases command with
  | runEnsure graphCode version scopeCode adapterKey targetType targetId =>
    obtain ⟨result, hresult, rfl⟩ := map_eq_ok.mp h
    exact .ensured graphCode version scopeCode adapterKey targetType targetId result.2 hresult
  | taskComplete taskId action note payload =>
    rw [Command.exec, taskComplete] at h
    split at h
    · cases h
    · rename_i task htask
      split_ifs at h with hcompleted hopen
      · cases h
        exact .rejected _ rfl
      · split at h
        · cases h
        · cases h
        · rename_i hforms
          exact .decided taskId action note payload task htask (not_not.mp hopen) hforms h
  | taskAssign taskId user note =>
    rw [Command.exec, taskAssign.eq_def] at h
    split at h
    · cases h
    · split at h
      · cases h
      · rename_i task htask
        exact .of_writeTask htask h ⟨rfl, rfl, rfl, rfl, rfl⟩
  | taskUnassign taskId note =>
    obtain ⟨task, new, htask, hsame, hruns, hnodeRuns, htasks⟩ := taskUnassign_eq_ok h
    exact .rewritten _ taskId task new htask hsame hruns hnodeRuns htasks
  | taskAccept taskId note =>
    rw [Command.exec, taskAccept] at h
    split at h
    · cases h
    · rename_i task htask
      split_ifs at h
      exact .of_writeTask htask h ⟨rfl, rfl, rfl, rfl, rfl⟩
  | taskDecline taskId note =>
    rw [Command.exec, taskDecline] at h
    split at h
    · cases h
    · rename_i task htask
      split_ifs at h
      obtain ⟨task', new, htask', hsame, hruns, hnodeRuns, htasks⟩ := taskUnassign_eq_ok h
      have hlt : taskId < db.tasks.length := (List.getElem?_eq_some_iff.mp htask).1
      dsimp only [Db.writeTask, Db.log] at htask' htasks
      rw [List.getElem?_set_self hlt] at htask'
      cases htask'
      rw [List.set_set] at htasks
      exact .rewritten _ taskId task new htask
        ⟨hsame.runId, hsame.nodeRunId, hsame.status, hsame.decidedAction, hsame.decidedAt⟩ hruns
        hnodeRuns htasks
  | taskUnaccept taskId note =>
    rw [Command.exec, taskUnaccept] at h
    split at h
    · cases h
    · rename_i task htask
      split_ifs at h
      exact .of_writeTask htask h ⟨rfl, rfl, rfl, rfl, rfl⟩
  | taskWithdraw taskId note =>
    rw [Command.exec, taskWithdraw] at h
    split at h
    · cases h
    · rename_i task htask
      cases h
      exact .withdrawn taskId note task htask rfl rfl rfl
  | signalChanged scopeId targetType targetId order =>
    exact .signalled scopeId targetType targetId order (List.isPerm_iff.mp henabled) h
  | updateRun runId status =>
    rw [Command.exec, updateRun] at h
    split at h
    · cases h
    · rename_i run hrun
      cases h
      exact .updated runId status run hrun rfl rfl rfl

theorem step_acts {call : Call} (h : step design depth db call = some next) :
    Acts design depth call.env db next call.command := by
  rw [step] at h
  split_ifs at h with henabled
  split at h
  · rename_i result hresult
    cases h
    exact exec_acts henabled hresult
  · cases h
    exact .rejected _ rfl

end Stynx.Flow
