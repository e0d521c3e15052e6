import Stynx.FlowDecisions

/-!
# The status of a closed task

A cascade retires open tasks only, and a decision is taken on an open task. The
functions that assign, accept or decline write neither the status nor the action.
`flow.task_withdraw` is the one function that writes the status without reading
it.
-/

namespace Stynx.Flow

open ExceptFolds TransitionRuns

variable {design : Design} {depth : Nat} {env : Env} {db next : Db} {id : Nat} {task : Task}

/-- A closed task has the same status and the same action in a later state. -/
def StaysClosed (id : Nat) (task : Task) (db : Db) : Prop :=
  ∃ now, db.tasks[id]? = some now ∧ now.status = task.status ∧
    now.decidedAction = task.decidedAction

section

variable (h : StaysClosed id task db)
include h

theorem StaysClosed.congr (htasks : next.tasks = db.tasks) : StaysClosed id task next := by
  rw [StaysClosed, htasks]
  exact h

theorem StaysClosed.close (hclosed : task.status ≠ .open_) {now nodeRunId : Nat} {nodeRun : NodeRun} :
    StaysClosed id task (db.closeNodeRun now nodeRunId nodeRun) := by
  obtain ⟨row, hrow, hstatus, haction⟩ := h
  refine ⟨row.retire now nodeRunId, ?_, ?_⟩
  · rw [Db.closeNodeRun, List.getElem?_map, hrow, Option.map_some]
  · have hretire : row.retire now nodeRunId = row := by
      rw [Task.retire, if_neg]
      simp [hstatus, hclosed]
    rw [hretire]
    exact ⟨hstatus, haction⟩

theorem StaysClosed.change (hclosed : task.status ≠ .open_) (hchange : Change design db next) :
    StaysClosed id task next := by
  cases hchange with
  | log runs nodeRuns tasks => exact h.congr tasks
  | openAuto runId run node hrun hnode hkind runs nodeRuns tasks => exact h.congr tasks
  | openHuman runId run node hrun hnode hkind runs nodeRuns tasks =>
    obtain ⟨row, hrow, hsame⟩ := h
    refine ⟨row, ?_, hsame⟩
    rw [tasks, List.getElem?_append_left (List.getElem?_eq_some_iff.mp hrow).1, hrow]
  | closeAuto now nodeRunId nodeRun node hnodeRun hnode hkind runs nodeRuns tasks =>
    exact (h.close hclosed).congr tasks
  | finish runId run hrun hactive hidle runs nodeRuns tasks => exact h.congr tasks

theorem StaysClosed.tried (hclosed : task.status ≠ .open_) {nodeRunId : Nat}
    (htried : Tried design env nodeRunId db next) : StaysClosed id task next := by
  cases htried with
  | idle same _ =>
    subst same
    exact h
  | completed nodeRun node run hnodeRun _ _ _ _ changes =>
    exact Changes.invariant (fun _ _ hs => hs.change hclosed) (h.close hclosed) changes

theorem StaysClosed.set_ne {taskId : Nat} {new : Task} (hne : taskId ≠ id)
    (htasks : next.tasks = db.tasks.set taskId new) :
    StaysClosed id task next := by
  obtain ⟨row, hrow, hsame⟩ := h
  refine ⟨row, ?_, hsame⟩
  rw [htasks, List.getElem?_set_ne hne, hrow]

theorem StaysClosed.set_self {row new : Task} (hrow : db.tasks[id]? = some row)
    (htasks : next.tasks = db.tasks.set id new) (hstatus : new.status = row.status)
    (haction : new.decidedAction = row.decidedAction) :
    StaysClosed id task next := by
  obtain ⟨row', hrow', hsame⟩ := h
  obtain rfl := Option.some.inj (hrow.symm.trans hrow')
  refine ⟨new, ?_, hstatus.trans hsame.1, haction.trans hsame.2⟩
  rw [htasks, List.getElem?_set_self (List.getElem?_eq_some_iff.mp hrow).1]

end

def Command.sparesCompleted (db : Db) : Command → Bool
  | .taskWithdraw taskId _ => (db.tasks[taskId]?).all (·.status ≠ .completed)
  | _ => true

/-- A call on the tables leaves a closed task closed, unless it withdraws it. -/
theorem StaysClosed.acts {command : Command} (h : StaysClosed id task db)
    (hclosed : task.status = .completed ∨ task.status = .canceled)
    (hspares : task.status = .completed → command.sparesCompleted db = true)
    (hacts : Acts design depth env db next command) : StaysClosed id task next := by
  have hnot : task.status ≠ .open_ := by
    rintro hopen
    rw [hopen] at hclosed
    rcases hclosed with hclosed | hclosed <;> cases hclosed
  cases hacts with
  | rejected _ same =>
    subst same
    exact h
  | ensured graphCode version scopeCode adapterKey targetType targetId runId hensure =>
    obtain ⟨graph, scopeKey, -, -, changes⟩ := runEnsure_changes hensure
    exact Changes.invariant (fun _ _ hs => hs.change hnot) (h.congr (Db.upsertRun_tasks ..)) changes
  | decided taskId action note payload row hrow hopen hforms hcomplete =>
    have hne : taskId ≠ id := by
      rintro rfl
      obtain ⟨row', hrow', hstatus, -⟩ := h
      obtain rfl := Option.some.inj (hrow.symm.trans hrow')
      exact hnot (hstatus.symm.trans hopen)
    exact (h.set_ne hne rfl).tried hnot (nodeTryComplete_tried hcomplete)
  | rewritten _ taskId row new hrow hsame runs nodeRuns tasks =>
    by_cases hid : taskId = id
    · subst hid
      exact h.set_self hrow tasks hsame.status hsame.decidedAction
    · exact h.set_ne hid tasks
  | withdrawn taskId note row hrow runs nodeRuns tasks =>
    by_cases hid : taskId = id
    · subst hid
      refine h.set_self hrow tasks ?_ rfl
      obtain ⟨row', hrow', hstatus, -⟩ := h
      obtain rfl := Option.some.inj (hrow.symm.trans hrow')
      rcases hclosed with hcompleted | hcanceled
      · -- a completed task is not the one that is withdrawn
        have hspared := hspares hcompleted
        simp [Command.sparesCompleted, hrow, hstatus, hcompleted] at hspared
      · exact (hstatus.trans hcanceled).symm
    · exact h.set_ne hid tasks
  | signalled scopeId targetType targetId order horder hfold =>
    refine foldlM_relation (fun db next => StaysClosed id task db → StaysClosed id task next)
      (fun _ hs => hs) (fun _ _ _ first second hs => second (first hs)) ?_ hfold (h.congr rfl)
    intro db nodeRunId next htry hs
    exact hs.tried hnot (nodeTryComplete_tried htry)
  | updated runId status run hrun runs nodeRuns tasks => exact h.congr tasks

/-- From any state, unless it is withdrawn: a completed task keeps its status and its action. A
canceled one does so in every run. -/
theorem closed_task_stays {calls : List Call} (htask : db.tasks[id]? = some task)
    (hclosed : task.status = .completed ∨ task.status = .canceled)
    (hspares : task.status = .completed →
      RunMeets (step design depth) (fun db call => call.command.sparesCompleted db = true) db calls)
    (hrun : run (step design depth) db calls = some next) : StaysClosed id task next := by
  have hmeets : RunMeets (step design depth)
      (fun db call => task.status = .completed → call.command.sparesCompleted db = true) db
      calls := by
    by_cases hcompleted : task.status = .completed
    · exact (hspares hcompleted).mono fun _ _ h _ => h
    · have hall : RunMeets (step design depth) (fun _ _ => True) db calls :=
        runMeets_of_forall_mem fun _ _ => trivial
      exact hall.mono fun _ _ _ h => absurd h hcompleted
  exact run_invariant_of_meets (fun _ _ _ hs hok hstep => hs.acts hclosed hok (step_acts hstep))
    ⟨task, htask, rfl, rfl⟩ hmeets hrun

/-- An approved task stays approved when it is assigned to somebody else. -/
theorem approved_task_stays : ∃ db next task,
    run (step (reviewDesign .all none []) 4) Db.empty [ensureReview 0, approve 1 0] = some db ∧
      run (step (reviewDesign .all none []) 4) db [⟨quietEnv 2, .taskAssign 0 (some "u2") none⟩] =
        some next ∧
      db.tasks[0]? = some task ∧ task.status = .completed ∧ StaysClosed 0 task next := by
  have hprobe : ((run (step (reviewDesign .all none []) 4) Db.empty
      [ensureReview 0, approve 1 0]).bind fun db =>
        (run (step (reviewDesign .all none []) 4) db
          [⟨quietEnv 2, .taskAssign 0 (some "u2") none⟩]).bind fun _ =>
            (db.tasks[0]?).map Task.status) = some .completed := by
    decide
  obtain ⟨db, hdb, hrest⟩ := Option.bind_eq_some_iff.mp hprobe
  obtain ⟨next, hnext, hfound⟩ := Option.bind_eq_some_iff.mp hrest
  obtain ⟨task, htask, hstatus⟩ := Option.map_eq_some_iff.mp hfound
  refine ⟨db, next, task, hdb, hnext, htask, hstatus,
    closed_task_stays htask (.inl hstatus) (fun _ => ?_) hnext⟩
  exact runMeets_cons.mpr ⟨rfl, fun _ _ => trivial⟩

/-- An approved task is withdrawn: it is canceled after it was completed. -/
theorem withdrawn_after_approval :
    ((run (step (reviewDesign .all none []) 4) Db.empty [ensureReview 0, approve 1 0]).bind
        fun db => (db.tasks[0]?).map Task.status) = some .completed ∧
      ((run (step (reviewDesign .all none []) 4) Db.empty
        [ensureReview 0, approve 1 0, withdraw 2 0]).bind
          fun db => (db.tasks[0]?).map Task.status) = some .canceled := by
  decide

end Stynx.Flow
