import Stynx.FlowCascade

/-!
# Invariants of the runtime tables

Runs keep the scope of their graph, node runs are in progress or completed,
tasks belong to node runs of human nodes, an open task to one in progress, and
the completed tasks are decided. Every call keeps this.
-/

namespace Stynx.Flow

open ExceptFolds TransitionRuns
open Relation (ReflTransGen)

variable {design : Design} {depth : Nat}

/-- What holds of the runtime tables between any two calls. -/
structure Sound (design : Design) (db : Db) : Prop where
  /-- A run has the scope of its graph. -/
  runs : ∀ run ∈ db.runs,
    ∃ graph ∈ design.graphs, graph.id = run.graphId ∧ graph.scopeId = run.scopeId
  /-- A node run is in progress or completed, in a run, for a node. -/
  nodeRuns : ∀ nodeRun ∈ db.nodeRuns,
    (nodeRun.status = .inProgress ∨ nodeRun.status = .completed) ∧
      nodeRun.runId < db.runs.length ∧ ∃ node, design.node? nodeRun.nodeId = some node
  /-- A task belongs to a human node run, which is in progress while the task is open. -/
  tasks : ∀ task ∈ db.tasks, ∃ nodeRun node, db.nodeRuns[task.nodeRunId]? = some nodeRun ∧
    nodeRun.runId = task.runId ∧ design.node? nodeRun.nodeId = some node ∧ node.kind = .human ∧
    (task.status = .open_ → nodeRun.status = .inProgress)
  decided : ∀ task ∈ db.tasks, task.status = .completed → task.decidedAt.isSome = true

theorem sound_empty : Sound design Db.empty where
  runs _ h := by cases h
  nodeRuns _ h := by cases h
  tasks _ h := by cases h
  decided _ h := by cases h

variable {db next : Db} {nodeRunId runId : Nat} {task : Task}

theorem Sound.exists_rows (hs : Sound design db) (hlt : nodeRunId < db.nodeRuns.length) :
    ∃ nodeRun node run, db.nodeRuns[nodeRunId]? = some nodeRun ∧
      design.node? nodeRun.nodeId = some node ∧ db.runs[nodeRun.runId]? = some run := by
  obtain ⟨-, hbound, node, hnode⟩ := hs.nodeRuns _ (List.getElem_mem hlt)
  exact ⟨_, node, _, List.getElem?_eq_getElem hlt, hnode, List.getElem?_eq_getElem hbound⟩

theorem Sound.congr (hs : Sound design db) (hruns : next.runs = db.runs)
    (hnodeRuns : next.nodeRuns = db.nodeRuns) (htasks : next.tasks = db.tasks) :
    Sound design next := by
  refine ⟨?_, ?_, ?_, ?_⟩
  · rw [hruns]
    exact hs.runs
  · rw [hnodeRuns, hruns]
    exact hs.nodeRuns
  · rw [htasks, hnodeRuns]
    exact hs.tasks
  · rw [htasks]
    exact hs.decided

theorem Sound.set_run (hs : Sound design db) {run : Run} (hrun : db.runs[runId]? = some run)
    (status : RunStatus) (hruns : next.runs = db.runs.set runId { run with status := status })
    (hnodeRuns : next.nodeRuns = db.nodeRuns) (htasks : next.tasks = db.tasks) :
    Sound design next := by
  refine ⟨?_, ?_, ?_, ?_⟩
  · intro other hother
    rw [hruns] at hother
    rcases List.mem_or_eq_of_mem_set hother with hother | rfl
    · exact hs.runs other hother
    · exact hs.runs run (List.mem_of_getElem? hrun)
  · rw [hnodeRuns, hruns, List.length_set]
    exact hs.nodeRuns
  · rw [htasks, hnodeRuns]
    exact hs.tasks
  · rw [htasks]
    exact hs.decided

variable {node : Node} {now taskId : Nat} {env : Env} {graph : Graph}

theorem Sound.open_nodeRun (hs : Sound design db) (hrun : runId < db.runs.length)
    (hnode : design.node? node.id = some node) {newTasks : List Task}
    (hnew : ∀ task ∈ newTasks, node.kind = .human ∧ task.runId = runId ∧
      task.nodeRunId = db.nodeRuns.length ∧ task.status = .open_)
    (hruns : next.runs = db.runs)
    (hnodeRuns : next.nodeRuns = db.nodeRuns ++ [⟨runId, node.id, .inProgress, none⟩])
    (htasks : next.tasks = db.tasks ++ newTasks) : Sound design next := by
  refine ⟨?_, ?_, ?_, ?_⟩
  · rw [hruns]
    exact hs.runs
  · intro nodeRun hnodeRun
    rw [hruns]
    rw [hnodeRuns, List.mem_append, List.mem_singleton] at hnodeRun
    rcases hnodeRun with hnodeRun | rfl
    · exact hs.nodeRuns nodeRun hnodeRun
    · exact ⟨.inl rfl, hrun, node, hnode⟩
  · intro task htask
    rw [htasks, List.mem_append] at htask
    rcases htask with htask | htask
    · obtain ⟨nodeRun, node', hget, hrest⟩ := hs.tasks task htask
      refine ⟨nodeRun, node', ?_, hrest⟩
      obtain ⟨hlt, -⟩ := List.getElem?_eq_some_iff.mp hget
      rw [hnodeRuns, List.getElem?_append_left hlt]
      exact hget
    · obtain ⟨hkind, hrunId, hnodeRunId, -⟩ := hnew task htask
      refine ⟨⟨runId, node.id, .inProgress, none⟩, node, ?_, hrunId.symm, hnode, hkind,
        fun _ => rfl⟩
      rw [hnodeRuns, hnodeRunId]
      exact List.getElem?_concat_length
  · intro task htask
    rw [htasks, List.mem_append] at htask
    rcases htask with htask | htask
    · exact hs.decided task htask
    · obtain ⟨-, -, -, hopen⟩ := hnew task htask
      rw [hopen]
      intro h
      cases h

theorem Design.mem_openTasks {graphId : Nat}
    (h : task ∈ design.openTasks runId nodeRunId graphId node) :
    task.runId = runId ∧ task.nodeRunId = nodeRunId ∧ task.status = .open_ := by
  rw [Design.openTasks] at h
  split at h
  · rw [List.mem_singleton.mp h]
    exact ⟨rfl, rfl, rfl⟩
  · obtain ⟨agent, -, rfl⟩ := List.mem_map.mp h
    exact ⟨rfl, rfl, rfl⟩

theorem Design.exists_mem_openTasks (runId nodeRunId graphId : Nat) (node : Node) :
    ∃ task, task ∈ design.openTasks runId nodeRunId graphId node := by
  rw [Design.openTasks]
  cases design.resolveAgents node.id graphId with
  | nil => exact ⟨_, .head _⟩
  | cons agent rest => exact ⟨_, List.mem_map.mpr ⟨agent, (.head _), rfl⟩⟩

@[simp] theorem Task.retire_runId (now nodeRunId : Nat) (task : Task) :
    (task.retire now nodeRunId).runId = task.runId := by
  rw [Task.retire]
  split_ifs <;> rfl

@[simp] theorem Task.retire_nodeRunId (now nodeRunId : Nat) (task : Task) :
    (task.retire now nodeRunId).nodeRunId = task.nodeRunId := by
  rw [Task.retire]
  split_ifs <;> rfl

@[simp] theorem Task.retire_decidedAt (now nodeRunId : Nat) (task : Task) :
    (task.retire now nodeRunId).decidedAt = task.decidedAt := by
  rw [Task.retire]
  split_ifs <;> rfl

theorem Task.retire_of_ne (h : task.nodeRunId ≠ nodeRunId) : task.retire now nodeRunId = task := by
  rw [Task.retire, if_neg (by simp [h])]

theorem Task.retire_status (now nodeRunId : Nat) (task : Task) :
    (task.retire now nodeRunId).status = task.status ∨
      (task.retire now nodeRunId).status = .canceled := by
  rw [Task.retire]
  split_ifs
  · exact .inr rfl
  · exact .inl rfl

theorem Task.retire_not_open (now : Nat) (task : Task) :
    (task.retire now task.nodeRunId).status ≠ .open_ := by
  rw [Task.retire]
  split_ifs with h
  · exact fun h => by cases h
  · simpa using h

section

variable (hs : Sound design db)
include hs

theorem Sound.close {nodeRun : NodeRun} (hnodeRun : db.nodeRuns[nodeRunId]? = some nodeRun)
    (hruns : next.runs = db.runs)
    (hnodeRuns : next.nodeRuns = (db.closeNodeRun now nodeRunId nodeRun).nodeRuns)
    (htasks : next.tasks = (db.closeNodeRun now nodeRunId nodeRun).tasks) : Sound design next := by
  have hlt : nodeRunId < db.nodeRuns.length := (List.getElem?_eq_some_iff.mp hnodeRun).1
  refine ⟨?_, ?_, ?_, ?_⟩
  · rw [hruns]
    exact hs.runs
  · intro other hother
    rw [hruns]
    rw [hnodeRuns] at hother
    rcases List.mem_or_eq_of_mem_set hother with hother | rfl
    · exact hs.nodeRuns other hother
    · exact ⟨.inr rfl, (hs.nodeRuns nodeRun (List.mem_of_getElem? hnodeRun)).2⟩
  · intro task htask
    rw [htasks] at htask
    obtain ⟨old, hold, rfl⟩ := List.mem_map.mp htask
    obtain ⟨owner, node, howner, hrunId, hnode, hkind, hopen⟩ := hs.tasks old hold
    rw [hnodeRuns, Task.retire_nodeRunId, Task.retire_runId]
    by_cases hsame : old.nodeRunId = nodeRunId
    · subst hsame
      obtain rfl := Option.some.inj (hnodeRun.symm.trans howner)
      refine ⟨_, node, List.getElem?_set_self hlt, hrunId, hnode, hkind, ?_⟩
      intro h
      exact absurd h (Task.retire_not_open now old)
    · refine ⟨owner, node, ?_, hrunId, hnode, hkind, ?_⟩
      · rw [← howner]
        exact List.getElem?_set_ne (Ne.symm hsame)
      · rw [Task.retire_of_ne hsame]
        exact hopen
  · intro task htask
    rw [htasks] at htask
    obtain ⟨old, hold, rfl⟩ := List.mem_map.mp htask
    rw [Task.retire_decidedAt]
    intro hstatus
    rcases Task.retire_status now nodeRunId old with h | h
    · exact hs.decided old hold (h.symm.trans hstatus)
    · rw [h] at hstatus
      cases hstatus

theorem sound_change (h : Change design db next) : Sound design next := by
  cases h with
  | log runs nodeRuns tasks => exact hs.congr runs nodeRuns tasks
  | openAuto runId run node hrun hnode hkind runs nodeRuns tasks =>
    have htasks : next.tasks = db.tasks ++ [] := by rw [tasks, List.append_nil]
    refine hs.open_nodeRun (List.getElem?_eq_some_iff.mp hrun).1 hnode ?_ runs nodeRuns htasks
    intro task htask
    cases htask
  | openHuman runId run node hrun hnode hkind runs nodeRuns tasks =>
    refine hs.open_nodeRun (List.getElem?_eq_some_iff.mp hrun).1 hnode ?_ runs nodeRuns tasks
    intro task htask
    exact ⟨hkind, Design.mem_openTasks htask⟩
  | closeAuto now nodeRunId nodeRun node hnodeRun hnode hkind runs nodeRuns tasks =>
    exact hs.close hnodeRun runs nodeRuns tasks
  | finish runId run hrun hactive hidle runs nodeRuns tasks =>
    exact hs.set_run hrun .completed runs nodeRuns tasks

theorem sound_changes (h : Changes design db next) : Sound design next :=
  Changes.invariant (fun _ _ => sound_change) hs h

theorem sound_tried (h : Tried design env nodeRunId db next) : Sound design next := by
  cases h with
  | idle same _ =>
    subst same
    exact hs
  | completed nodeRun node run hnodeRun _ _ _ _ changes =>
    have hclosed : Sound design (db.closeNodeRun env.now nodeRunId nodeRun) :=
      hs.close hnodeRun rfl rfl rfl
    exact sound_changes hclosed changes

theorem Sound.set_task {new : Task} (htask : db.tasks[taskId]? = some task)
    (hrunId : new.runId = task.runId) (hnodeRunId : new.nodeRunId = task.nodeRunId)
    (hopen : new.status = .open_ → task.status = .open_)
    (hdecided : new.status = .completed → new.decidedAt.isSome = true) (hruns : next.runs = db.runs)
    (hnodeRuns : next.nodeRuns = db.nodeRuns) (htasks : next.tasks = db.tasks.set taskId new) :
    Sound design next := by
  have hmem : task ∈ db.tasks := List.mem_of_getElem? htask
  refine ⟨?_, ?_, ?_, ?_⟩
  · rw [hruns]
    exact hs.runs
  · rw [hnodeRuns, hruns]
    exact hs.nodeRuns
  · intro other hother
    rw [hnodeRuns]
    rw [htasks] at hother
    rcases List.mem_or_eq_of_mem_set hother with hother | rfl
    · exact hs.tasks other hother
    · obtain ⟨nodeRun, node, hget, hrun, hnode, hkind, hprogress⟩ := hs.tasks task hmem
      rw [hrunId, hnodeRunId]
      exact ⟨nodeRun, node, hget, hrun, hnode, hkind, fun h => hprogress (hopen h)⟩
  · intro other hother
    rw [htasks] at hother
    rcases List.mem_or_eq_of_mem_set hother with hother | rfl
    · exact hs.decided other hother
    · exact hdecided

theorem Sound.decide_task (htask : db.tasks[taskId]? = some task) (env : Env) (action : String)
    (note payload : Option String) (eventPayload : EventPayload) :
    Sound design (db.writeTask taskId task (task.decide env.now action note payload) .taskDone env
      note eventPayload) := by
  refine hs.set_task htask ?_ ?_ ?_ ?_ rfl rfl rfl
  · rfl
  · rfl
  · intro h
    cases h
  · exact fun _ => rfl

end

theorem Design.mem_of_runnableGraph {graphCode version scopeCode : String}
    {adapterKey : Option String}
    (h : design.runnableGraph graphCode version scopeCode adapterKey = some graph) :
    graph ∈ design.graphs := by
  rw [Design.runnableGraph] at h
  have hmem := List.mem_of_mem_head? h
  rw [List.mem_insertionSort] at hmem
  exact (List.mem_filter.mp hmem).1

theorem Sound.upsertRun (hs : Sound design db) (hgraph : graph ∈ design.graphs)
    (adapterKey targetType targetId : String) :
    Sound design (db.upsertRun graph adapterKey targetType targetId).1 := by
  rw [Db.upsertRun]
  split
  · exact hs
  · refine ⟨?_, ?_, hs.tasks, hs.decided⟩
    · intro run hrun
      rcases mem_concat_iff.mp hrun with hrun | rfl
      · exact hs.runs run hrun
      · exact ⟨graph, hgraph, rfl, rfl⟩
    · intro nodeRun hnodeRun
      obtain ⟨hstatus, hrun, hnode⟩ := hs.nodeRuns nodeRun hnodeRun
      refine ⟨hstatus, ?_, hnode⟩
      rw [List.length_append]
      exact Nat.lt_add_right _ hrun

theorem sound_acts {command : Command} (hs : Sound design db)
    (h : Acts design depth env db next command) : Sound design next := by
  cases h with
  | rejected _ same =>
    subst same
    exact hs
  | ensured graphCode version scopeCode adapterKey targetType targetId runId h =>
    obtain ⟨graph, scopeKey, hgraph, -, changes⟩ := runEnsure_changes h
    exact sound_changes (hs.upsertRun (Design.mem_of_runnableGraph hgraph) _ _ _) changes
  | decided taskId action note payload task htask hopen hforms h =>
    exact sound_tried (hs.decide_task htask _ _ _ _ _) (nodeTryComplete_tried h)
  | rewritten _ taskId task new htask hsame runs nodeRuns tasks =>
    refine hs.set_task htask hsame.runId hsame.nodeRunId ?_ ?_ runs nodeRuns tasks
    · rw [hsame.status]
      exact id
    · rw [hsame.status, hsame.decidedAt]
      exact hs.decided task (List.mem_of_getElem? htask)
  | withdrawn taskId note task htask runs nodeRuns tasks =>
    refine hs.set_task htask ?_ ?_ ?_ ?_ runs nodeRuns tasks
    · rfl
    · rfl
    · intro h
      cases h
    · intro h
      cases h
  | signalled scopeId targetType targetId order horder h =>
    refine foldlM_relation (fun db next => Sound design db → Sound design next) (fun _ => id)
      (fun _ _ _ h h' hs => h' (h hs)) ?_ h (hs.congr rfl rfl rfl)
    intro db id next h hs
    exact sound_tried hs (nodeTryComplete_tried h)
  | updated runId status run hrun runs nodeRuns tasks =>
    exact hs.set_run hrun status runs nodeRuns tasks

theorem sound_run {calls : List Call} (h : run (step design depth) Db.empty calls = some db) :
    Sound design db :=
  run_invariant (fun _ _ _ hs h => sound_acts hs (step_acts h)) sound_empty h

end Stynx.Flow
