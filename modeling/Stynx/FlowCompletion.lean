import Stynx.FlowEnsure

/-!
# Completed runs

`node_try_complete` tests that nothing is open before it completes the run, but
it is called for every branch, and the branches after it are opened later. What
opening a list of nodes does to a run is computed from the graph and the facts.
-/

namespace Stynx.Flow

open ExceptFolds TransitionRuns

variable {design : Design} {depth : Nat} {env : Env}

section

variable (design : Design) (graphId : Nat) (facts : Facts)

/-- The nodes that a completed node opens, in their order. -/
def Design.targets (nodeId : Nat) (action : Option String) : List Nat :=
  (design.enabledEdges graphId nodeId action facts).map Edge.toNodeId

/-- The node is completed as soon as it is opened. -/
def Node.passes (node : Node) : Bool := node.kind ≠ .human && evalRule node.exitRule facts

/-- Opening the node leaves a node run in progress. -/
def Design.waits : Nat → Nat → Bool
  | 0, nodeId => (design.node? nodeId).any fun node =>
      evalRule node.entryRule facts && !node.passes facts
  | depth + 1, nodeId => (design.node? nodeId).any fun node =>
      evalRule node.entryRule facts &&
        (!node.passes facts || (design.targets graphId facts nodeId none).any (waits depth))

/-- Some item ends while none before it waits. -/
def endsBefore (waits ends : Nat → Bool) : List Nat → Bool
  | [] => false
  | first :: rest => ends first || !waits first && endsBefore waits ends rest

/-- Opening the node finds at some point nothing open, in a run with nothing open before. -/
def Design.ends : Nat → Nat → Bool
  | 0, _ => false
  | depth + 1, nodeId => (design.node? nodeId).any fun node =>
      evalRule node.entryRule facts && node.passes facts &&
        (endsBefore (design.waits graphId facts depth) (ends depth)
          (design.targets graphId facts nodeId none) ||
          !(design.targets graphId facts nodeId none).any (design.waits graphId facts depth))

end

theorem nodeDone_eq_passes {db : Db} {facts : Facts} {nodeRunId : Nat} {node : Node}
    (hkind : node.kind ≠ .human) : nodeDone db facts nodeRunId node = node.passes facts := by
  rw [nodeDone, if_neg hkind, Node.passes, decide_eq_true hkind, Bool.true_and]

section

variable {graphId : Nat} {facts : Facts} {node : Node}

theorem Design.branch_of_not_entered (hnode : design.node? node.id = some node)
    (hentry : evalRule node.entryRule facts = false) :
    design.waits graphId facts depth node.id = false ∧
      design.ends graphId facts depth node.id = false := by
  cases depth <;> simp [Design.waits, Design.ends, hnode, hentry]

theorem Design.branch_of_not_passes (hnode : design.node? node.id = some node)
    (hentry : evalRule node.entryRule facts = true) (hpasses : node.passes facts = false) :
    design.waits graphId facts depth node.id = true ∧
      design.ends graphId facts depth node.id = false := by
  cases depth <;> simp [Design.waits, Design.ends, hnode, hentry, hpasses]

theorem Design.branch_of_passes (hnode : design.node? node.id = some node)
    (hentry : evalRule node.entryRule facts = true) (hpasses : node.passes facts = true) :
    design.waits graphId facts (depth + 1) node.id =
        (design.targets graphId facts node.id none).any (design.waits graphId facts depth) ∧
      design.ends graphId facts (depth + 1) node.id =
        (endsBefore (design.waits graphId facts depth) (design.ends graphId facts depth)
          (design.targets graphId facts node.id none) ||
          !(design.targets graphId facts node.id none).any (design.waits graphId facts depth)) := by
  simp [Design.waits, Design.ends, hnode, hentry, hpasses]

end

section

/-- The run after a cascade: it is completed if nothing was open and some branch ends. -/
def Run.after (busy ends : Bool) (run : Run) : Run :=
  { run with
    status := if !busy && ends && run.status = .active then .completed else run.status }

def SameRun (run current : Run) : Prop := ∃ status, current = { run with status := status }

theorem SameRun.refl (run : Run) : SameRun run run := ⟨run.status, rfl⟩

variable {current : Run} {db next : Db} {runId nodeId : Nat} {nodeRun : NodeRun}

theorem SameRun.facts {run : Run} (h : SameRun run current) :
    current.facts env = run.facts env := by
  obtain ⟨status, rfl⟩ := h
  rfl

theorem SameRun.graphId {run : Run} (h : SameRun run current) : current.graphId = run.graphId := by
  obtain ⟨status, rfl⟩ := h
  rfl

theorem SameRun.after {run : Run} (h : SameRun run current) (busy ends : Bool) :
    SameRun run (current.after busy ends) := by
  obtain ⟨status, rfl⟩ := h
  exact ⟨_, rfl⟩

@[simp] theorem Run.after_false (busy : Bool) (run : Run) : run.after busy false = run := by
  simp [Run.after]

theorem Run.after_after (busy waits ends ends' : Bool) (run : Run) :
    (run.after busy ends).after (busy || waits) ends' = run.after busy (ends || !waits && ends') := by
  obtain ⟨graphId, scopeId, adapterKey, targetType, targetId, status⟩ := run
  cases status <;> cases busy <;> cases waits <;> cases ends <;> cases ends' <;> rfl

/-- What a cascade does to a run, and that it leaves the others alone. -/
structure Effect (db next : Db) (runId : Nat) (run : Run) (waits ends : Bool) : Prop where
  /-- Something is open afterwards if it was, or if the cascade waits. -/
  busy : next.busy runId = (db.busy runId || waits)
  row : next.runs[runId]? = some (run.after (db.busy runId) ends)
  others : ∀ other, other ≠ runId → next.busy other = db.busy other ∧
    next.runs[other]? = db.runs[other]?

theorem Effect.refl {run : Run} (hrun : db.runs[runId]? = some run) :
    Effect db db runId run false false where
  busy := by rw [Bool.or_false]
  row := by simpa using hrun
  others _ _ := ⟨rfl, rfl⟩

theorem Effect.congr_left {db' : Db} {run : Run} {waits ends : Bool}
    (h : Effect db next runId run waits ends) (hbusy : ∀ id, db'.busy id = db.busy id)
    (hruns : db'.runs = db.runs) : Effect db' next runId run waits ends where
  busy := by rw [hbusy, h.busy]
  row := by rw [hbusy, h.row]
  others other hother := by
    rw [hbusy, hruns]
    exact h.others other hother

theorem Effect.trans {middle : Db} {run : Run} {waits ends waits' ends' : Bool}
    (h : Effect db middle runId run waits ends)
    (h' : Effect middle next runId (run.after (db.busy runId) ends) waits' ends') :
    Effect db next runId run (waits || waits') (ends || !waits && ends') := by
  refine ⟨?_, ?_, ?_⟩
  · rw [h'.busy, h.busy, Bool.or_assoc]
  · rw [h'.row, h.busy, Run.after_after]
  · intro other hother
    rw [(h'.others other hother).1, (h'.others other hother).2]
    exact h.others other hother

theorem Effect.foldlM {β : Type} {target : β → Nat} {waits ends : Nat → Bool}
    {f : Db → β → Except Failure Db} {run : Run}
    (hstep : ∀ db item next current, SameRun run current → db.runs[runId]? = some current →
      f db item = .ok next →
      Effect db next runId current (waits (target item)) (ends (target item)))
    {items : List β} (hsame : SameRun run current) (hrun : db.runs[runId]? = some current)
    (h : items.foldlM f db = .ok next) :
    Effect db next runId current ((items.map target).any waits)
      (endsBefore waits ends (items.map target)) := by
  induction items generalizing db current with
  | nil =>
    cases h
    exact .refl hrun
  | cons first rest ih =>
    rw [List.foldlM_cons] at h
    obtain ⟨middle, hfirst, hrest⟩ := bind_eq_ok.mp h
    have heffect := hstep db first middle current hsame hrun hfirst
    exact heffect.trans (ih (hsame.after _ _) heffect.row hrest)

theorem Db.finishRun_effect (env : Env) {run : Run} (hrun : db.runs[runId]? = some run) :
    Effect db (db.finishRun env runId run) runId run false true := by
  obtain ⟨hlt, -⟩ := List.getElem?_eq_some_iff.mp hrun
  rw [Db.finishRun]
  split_ifs with hbusy hactive
  · refine ⟨by rw [Bool.or_false], ?_, fun _ _ => ⟨rfl, rfl⟩⟩
    simpa [hbusy, Run.after] using hrun
  · refine ⟨by rw [Bool.or_false]; rfl, ?_, fun other hother => ⟨rfl, ?_⟩⟩
    · dsimp only
      rw [List.getElem?_set_self hlt]
      simp [hbusy, hactive, Run.after]
    · exact List.getElem?_set_ne (Ne.symm hother)
  · refine ⟨by rw [Bool.or_false]; rfl, ?_, fun _ _ => ⟨rfl, rfl⟩⟩
    simpa [hactive, Run.after] using hrun

/-- Some other node run of the run is pending or in progress. -/
def Db.busyBesides (db : Db) (runId nodeRunId : Nat) : Bool :=
  (db.nodeRuns.eraseIdx nodeRunId).any fun nodeRun => nodeRun.runId = runId && nodeRun.isOpen

variable {α : Type} {p : α → Bool} {a : α} {nodeRunId : Nat}

theorem any_set_eq_any_eraseIdx (ha : p a = false) (items : List α) (index : Nat) :
    (items.set index a).any p = (items.eraseIdx index).any p := by
  induction items generalizing index with
  | nil => rfl
  | cons first rest ih =>
    cases index with
    | zero => simp [ha]
    | succ index => simp [ih index]

theorem any_eraseIdx_of_eq_false (ha : p a = false) {items : List α} {index : Nat}
    (h : items[index]? = some a) :
    (items.eraseIdx index).any p = items.any p := by
  rw [← any_set_eq_any_eraseIdx ha]
  congr 1
  obtain ⟨hlt, rfl⟩ := List.getElem?_eq_some_iff.mp h
  exact List.set_getElem_self hlt

theorem Db.closeNodeRun_busy (db : Db) (now nodeRunId : Nat) (nodeRun : NodeRun) (runId : Nat) :
    (db.closeNodeRun now nodeRunId nodeRun).busy runId = db.busyBesides runId nodeRunId := by
  rw [Db.busy, Db.busyBesides, Db.closeNodeRun]
  refine any_set_eq_any_eraseIdx ?_ _ _
  simp [NodeRun.isOpen]

theorem Db.busyBesides_of_ne (hrow : db.nodeRuns[nodeRunId]? = some nodeRun)
    (hne : runId ≠ nodeRun.runId) :
    db.busyBesides runId nodeRunId = db.busy runId := by
  rw [Db.busy, Db.busyBesides]
  refine any_eraseIdx_of_eq_false ?_ hrow
  simp [hne.symm]

theorem Db.busy_concat (h : next.nodeRuns = db.nodeRuns ++ [⟨runId, nodeId, .inProgress, none⟩])
    (other : Nat) :
    next.busy other = (db.busy other || decide (runId = other)) := by
  rw [Db.busy, Db.busy, h, List.any_append]
  simp [NodeRun.isOpen]

theorem Db.busyBesides_concat (h : next.nodeRuns = db.nodeRuns ++ [nodeRun]) (runId : Nat) :
    next.busyBesides runId db.nodeRuns.length = db.busy runId := by
  rw [Db.busyBesides, Db.busy, h]
  congr 1
  rw [List.eraseIdx_append_of_length_le (le_refl _), Nat.sub_self]
  simp

theorem Effect.of_open {run : Run} (hrun : db.runs[runId]? = some run) (hruns : next.runs = db.runs)
    (h : next.nodeRuns = db.nodeRuns ++ [⟨runId, nodeId, .inProgress, none⟩]) :
    Effect db next runId run true false where
  busy := by rw [Db.busy_concat h, decide_eq_true rfl]
  row := by
    rw [hruns]
    simpa using hrun
  others other hother := by
    rw [Db.busy_concat h, hruns, decide_eq_false (Ne.symm hother), Bool.or_false]
    exact ⟨rfl, rfl⟩

def CompletionEffect (design : Design) (env : Env) : Nat → Prop
  | 0 => True
  | depth + 1 => ∀ (nodeRunId : Nat) (action note : Option String) (db next : Db)
      (nodeRun : NodeRun) (node : Node) (run : Run), db.nodeRuns[nodeRunId]? = some nodeRun →
      nodeRun.status ≠ .completed → design.node? nodeRun.nodeId = some node →
      db.runs[nodeRun.runId]? = some run → nodeDone db (run.facts env) nodeRunId node = true →
      nodeTryComplete design env (depth + 1) nodeRunId action note db = .ok next →
      Effect (db.closeNodeRun env.now nodeRunId nodeRun) next nodeRun.runId run
        ((design.targets run.graphId (run.facts env) node.id action).any
          (design.waits run.graphId (run.facts env) depth))
        (endsBefore (design.waits run.graphId (run.facts env) depth)
            (design.ends run.graphId (run.facts env) depth)
            (design.targets run.graphId (run.facts env) node.id action) ||
          !(design.targets run.graphId (run.facts env) node.id action).any
            (design.waits run.graphId (run.facts env) depth))

theorem nodeTryComplete_of_not_done {action note : Option String} {node : Node} {run : Run}
    (hnodeRun : db.nodeRuns[nodeRunId]? = some nodeRun)
    (hnode : design.node? nodeRun.nodeId = some node) (hrun : db.runs[nodeRun.runId]? = some run)
    (hdone : nodeDone db (run.facts env) nodeRunId node = false)
    (h : nodeTryComplete design env depth nodeRunId action note db = .ok next) : next = db := by
  cases nodeTryComplete_tried h with
  | idle same _ => exact same
  | completed nodeRun' node' run' hnodeRun' _ hnode' hrun' hdone' _ =>
    obtain rfl := Option.some.inj (hnodeRun.symm.trans hnodeRun')
    obtain rfl := Option.some.inj (hnode.symm.trans hnode')
    obtain rfl := Option.some.inj (hrun.symm.trans hrun')
    rw [hdone] at hdone'
    cases hdone'

theorem nodeOpen_effect (hcomplete : CompletionEffect design env depth) {run : Run}
    {result : Db × Option Nat} (hrun : db.runs[runId]? = some run)
    (h : nodeOpen design env (fun id db => nodeTryComplete design env depth id none none db) runId
      nodeId (run.facts env) db = .ok result) :
    Effect db result.1 runId run (design.waits run.graphId (run.facts env) depth nodeId)
      (design.ends run.graphId (run.facts env) depth nodeId) := by
  rw [nodeOpen, hrun] at h
  dsimp only at h
  split at h
  · cases h
  · rename_i node hnode
    obtain ⟨-, rfl⟩ := design.node?_eq_some_iff.mp hnode
    split_ifs at h with hentry hkind
    · cases h
      have hpasses : node.passes (run.facts env) = false := by simp [Node.passes, hkind]
      obtain ⟨hwaits, hends⟩ := Design.branch_of_not_passes hnode hentry hpasses
      rw [hwaits, hends]
      exact .of_open hrun rfl rfl
    · split at h
      · cases h
      · rename_i done hdone
        cases h
        have hrow : (db.nodeRuns ++ [⟨runId, node.id, .inProgress, none⟩])[db.nodeRuns.length]? =
            some (⟨runId, node.id, .inProgress, none⟩ : NodeRun) := List.getElem?_concat_length
        by_cases hpasses : node.passes (run.facts env) = true
        · cases depth with
          | zero => cases hdone
          | succ depth =>
            obtain ⟨hwaits, hends⟩ := Design.branch_of_passes hnode hentry hpasses
            rw [hwaits, hends]
            have heffect := hcomplete _ _ _ _ _ _ node run hrow (by simp) hnode (by exact hrun)
              ((nodeDone_eq_passes hkind).trans hpasses) hdone
            refine heffect.congr_left ?_ ?_
            · intro id
              rw [Db.closeNodeRun_busy]
              exact (Db.busyBesides_concat rfl id).symm
            · rfl
        · have hblocked := Bool.eq_false_of_not_eq_true hpasses
          obtain ⟨hwaits, hends⟩ := Design.branch_of_not_passes hnode hentry hblocked
          rw [hwaits, hends]
          have hsame := nodeTryComplete_of_not_done hrow hnode (by exact hrun)
            ((nodeDone_eq_passes hkind).trans hblocked) hdone
          rw [hsame]
          exact .of_open hrun rfl rfl
    · cases h
      obtain ⟨hwaits, hends⟩ :=
        Design.branch_of_not_entered hnode (Bool.eq_false_of_not_eq_true hentry)
      rw [hwaits, hends]
      exact .refl hrun

theorem completionEffect (design : Design) (env : Env) (depth : Nat) :
    CompletionEffect design env depth := by
  induction depth with
  | zero => trivial
  | succ depth ih =>
    intro nodeRunId action note db next nodeRun node run hnodeRun hopen hnode hrun hdone h
    rw [nodeTryComplete, hnodeRun] at h
    dsimp only at h
    rw [if_neg hopen, hnode, hrun] at h
    dsimp only at h
    rw [if_pos hdone] at h
    split at h
    · cases h
    · rename_i opened hopened
      have hstep : ∀ (db : Db) (item : Edge) (next : Db) (current : Run), SameRun run current →
          db.runs[nodeRun.runId]? = some current →
          takeEdge design env (fun id db => nodeTryComplete design env depth id none none db)
            nodeRun.runId node action (run.facts env) db item = .ok next →
          Effect db next nodeRun.runId current
            (design.waits run.graphId (run.facts env) depth item.toNodeId)
            (design.ends run.graphId (run.facts env) depth item.toNodeId) := by
        intro db item next current hsame hrun htake
        rw [takeEdge] at htake
        obtain ⟨result, hresult, rfl⟩ := map_eq_ok.mp htake
        rw [← hsame.facts, ← hsame.graphId] at *
        have heffect := nodeOpen_effect ih (by exact hrun) hresult
        exact heffect.congr_left (fun _ => rfl) rfl
      have hloop := Effect.foldlM hstep (.refl run) (by exact hrun) hopened
      rw [hloop.row] at h
      cases h
      have hfinish := hloop.trans (Db.finishRun_effect env hloop.row)
      rw [Bool.or_false, Bool.and_true] at hfinish
      exact hfinish.congr_left (fun _ => rfl) rfl

theorem openStarts_effect {starts : List Node} {run : Run} (hrun : db.runs[runId]? = some run)
    (h : openStarts design depth env runId (run.facts env) starts db = .ok next) :
    Effect db next runId run
      ((starts.map Node.id).any (design.waits run.graphId (run.facts env) depth))
      (endsBefore (design.waits run.graphId (run.facts env) depth)
        (design.ends run.graphId (run.facts env) depth) (starts.map Node.id)) := by
  rw [openStarts] at h
  refine Effect.foldlM ?_ (.refl run) hrun h
  intro db start next current hsame hrun hopen
  obtain ⟨result, hresult, rfl⟩ := map_eq_ok.mp hopen
  rw [← hsame.facts] at hresult
  rw [← hsame.facts, ← hsame.graphId]
  exact nodeOpen_effect (completionEffect design env depth) hrun hresult

end

/-- A completed run has nothing open. -/
def RunsSettled (db : Db) : Prop :=
  ∀ (runId : Nat) (run : Run), db.runs[runId]? = some run → run.status = .completed →
    db.busy runId = false

/-- The node run is done, nothing else is open in its active run, and of the branches that it opens
some ends while none before it waits, and some waits. -/
def Db.completesEarly (design : Design) (depth : Nat) (env : Env) (db : Db) (nodeRunId : Nat)
    (action : Option String) : Bool :=
  (db.nodeRuns[nodeRunId]?).any fun nodeRun =>
    (design.node? nodeRun.nodeId).any fun node =>
      (db.runs[nodeRun.runId]?).any fun run =>
        nodeDone db (run.facts env) nodeRunId node && run.status = .active &&
          !db.busyBesides nodeRun.runId nodeRunId &&
          endsBefore (design.waits run.graphId (run.facts env) (depth - 1))
            (design.ends run.graphId (run.facts env) (depth - 1))
            (design.targets run.graphId (run.facts env) node.id action) &&
          (design.targets run.graphId (run.facts env) node.id action).any
            (design.waits run.graphId (run.facts env) (depth - 1))

/-- Nothing is open in the run, some start node waits, and the run is or will be completed
meanwhile. -/
def Db.ensuresEarly (design : Design) (depth : Nat) (env : Env) (db : Db) (graph : Graph)
    (targetType targetId : String) : Bool :=
  let starts := (design.startNodes graph.id).map Node.id
  let facts := env.facts graph.scopeId targetType targetId
  let ends := endsBefore (design.waits graph.id facts depth) (design.ends graph.id facts depth)
    starts
  starts.any (design.waits graph.id facts depth) &&
    match db.findRun graph.id targetType targetId with
    | none => ends
    | some runId => !db.busy runId && (db.runs[runId]?).any fun run =>
        run.status = .completed || run.status = .active && ends

/-- One turn of the loop of `signal_changed`. -/
def tryStep (design : Design) (depth : Nat) (env : Env) (db : Db) (nodeRunId : Nat) : Option Db :=
  (nodeTryComplete design env depth nodeRunId none (some "facts_changed") db).toOption

/-- The call completes no run early, and does not complete one by hand. -/
def Command.completesLast (design : Design) (depth : Nat) (env : Env) (db : Db) : Command → Prop
  | .runEnsure graphCode version scopeCode adapterKey targetType targetId =>
    ((design.runnableGraph graphCode version scopeCode adapterKey).all fun graph =>
      !db.ensuresEarly design depth env graph targetType targetId) = true
  | .taskComplete taskId action note payload =>
    ((db.tasks[taskId]?).all fun task => task.status ≠ .open_ ||
      !(db.writeTask taskId task (task.decide env.now action note payload) .taskDone env note
        (.decision (payload.getD "\x7b\x7d"))).completesEarly design depth env task.nodeRunId
          (some action)) = true
  | .signalChanged scopeId targetType targetId order =>
    RunMeets (tryStep design depth env)
      (fun db id => db.completesEarly design depth env id none = false)
      (db.logSignal env scopeId targetType targetId) order
  | .updateRun _ status => status ≠ .completed
  | _ => True

instance (db : Db) : DecidablePred (Command.completesLast design depth env db)
  | .runEnsure .. => inferInstanceAs (Decidable (_ = true))
  | .taskComplete .. => inferInstanceAs (Decidable (_ = true))
  | .signalChanged .. => inferInstanceAs (Decidable (RunMeets _ _ _ _))
  | .updateRun .. => inferInstanceAs (Decidable (_ ≠ _))
  | .taskAssign .. | .taskUnassign .. | .taskAccept .. | .taskDecline .. | .taskUnaccept ..
  | .taskWithdraw .. => isTrue trivial

variable {db next : Db}

variable {runId nodeRunId : Nat} {graph : Graph} {targetType targetId : String}

theorem RunsSettled.of_effect {run : Run} {waits ends : Bool}
    (h : Effect db next runId run waits ends)
    (hothers : ∀ (other : Nat) (run : Run), other ≠ runId → db.runs[other]? = some run →
      run.status = .completed → db.busy other = false)
    (hrun : (run.after (db.busy runId) ends).status = .completed →
      (db.busy runId || waits) = false) : RunsSettled next := by
  intro other row hrow hcompleted
  by_cases hother : other = runId
  · subst hother
    rw [h.row] at hrow
    cases hrow
    rw [h.busy]
    exact hrun hcompleted
  · rw [(h.others other hother).2] at hrow
    rw [(h.others other hother).1]
    exact hothers other row hother hrow hcompleted

theorem Sound.busy_of_row (hs : Sound design db) {nodeRun : NodeRun}
    (hrow : db.nodeRuns[nodeRunId]? = some nodeRun) (hopen : nodeRun.status ≠ .completed) :
    db.busy nodeRun.runId = true := by
  have hmem := List.mem_of_getElem? hrow
  rw [Db.busy, List.any_eq_true]
  refine ⟨nodeRun, hmem, ?_⟩
  have hprogress := (hs.nodeRuns nodeRun hmem).1.resolve_right hopen
  simp [NodeRun.isOpen, hprogress]

theorem Run.after_status_eq_completed {busy ends : Bool} {run : Run} :
    (run.after busy ends).status = .completed ↔
      run.status = .completed ∨ busy = false ∧ ends = true ∧ run.status = .active := by
  obtain ⟨graphId, scopeId, adapterKey, targetType, targetId, status⟩ := run
  cases status <;> cases busy <;> cases ends <;> simp [Run.after]

theorem RunsSettled.tried {action note : Option String} (hs : Sound design db)
    (hsettled : RunsSettled db)
    (hlast : db.completesEarly design depth env nodeRunId action = false)
    (h : nodeTryComplete design env depth nodeRunId action note db = .ok next) :
    RunsSettled next := by
  cases nodeTryComplete_tried h with
  | idle same _ =>
    rw [same]
    exact hsettled
  | completed nodeRun node run hrow hopen hnode hrun hdone _ =>
    cases depth with
    | zero => cases h
    | succ depth =>
      have heffect := completionEffect design env (depth + 1) nodeRunId action note db next nodeRun
        node run hrow hopen hnode hrun hdone h
      refine RunsSettled.of_effect heffect ?_ ?_
      · intro other row hother hget hcompleted
        rw [Db.closeNodeRun_busy, Db.busyBesides_of_ne hrow hother]
        exact hsettled other row hget hcompleted
      · rw [Run.after_status_eq_completed, Db.closeNodeRun_busy]
        rintro (hcompleted | ⟨hbesides, hends, hactive⟩)
        · have hbusy := hs.busy_of_row hrow hopen
          rw [hsettled nodeRun.runId run hrun hcompleted] at hbusy
          cases hbusy
        · by_contra hbusy
          rw [hbesides, Bool.false_or, Bool.not_eq_false] at hbusy
          rw [hbusy, Bool.not_true, Bool.or_false] at hends
          have hearly : db.completesEarly design (depth + 1) env nodeRunId action = true := by
            simp [Db.completesEarly, hrow, hnode, hrun, hdone, hactive, hbesides, hends, hbusy]
          rw [hlast] at hearly
          cases hearly

theorem Sound.upsertRun_row (env : Env) (hs : Sound design db) (hgraph : graph ∈ design.graphs)
    (adapterKey targetType targetId : String) :
    ∃ run, (db.upsertRun graph adapterKey targetType targetId).1.runs[
        (db.upsertRun graph adapterKey targetType targetId).2]? = some run ∧
      run.graphId = graph.id ∧ run.facts env = env.facts graph.scopeId targetType targetId := by
  rw [Db.upsertRun]
  split
  · rename_i runId hfind
    obtain ⟨hlt, hkey, -⟩ := List.findIdx?_eq_some_iff_getElem.mp hfind
    refine ⟨db.runs[runId], List.getElem?_eq_getElem hlt, ?_⟩
    simp only [Bool.and_eq_true, decide_eq_true_eq] at hkey
    obtain ⟨⟨hgraphId, htargetType⟩, htargetId⟩ := hkey
    obtain ⟨graph', hgraph', hid, hscope⟩ := hs.runs _ (List.getElem_mem hlt)
    have hsame : graph' = graph :=
      List.inj_on_of_nodup_map design.graphs_unique hgraph' hgraph (hid.trans hgraphId)
    refine ⟨hgraphId, ?_⟩
    rw [Run.facts, ← hscope, hsame, htargetType, htargetId]
  · refine ⟨⟨graph.id, graph.scopeId, adapterKey, targetType, targetId, .active⟩, ?_, rfl, rfl⟩
    exact List.getElem?_concat_length

theorem RunsSettled.upsertRun (hsettled : RunsSettled db) (graph : Graph)
    (adapterKey targetType targetId : String) :
    RunsSettled (db.upsertRun graph adapterKey targetType targetId).1 := by
  rw [Db.upsertRun]
  split
  · exact hsettled
  · intro runId run hrun hcompleted
    dsimp only at hrun
    rcases Nat.lt_or_ge runId db.runs.length with hlt | hge
    · rw [List.getElem?_append_left hlt] at hrun
      exact hsettled runId run hrun hcompleted
    · rw [List.getElem?_append_right hge, List.getElem?_singleton] at hrun
      split_ifs at hrun
      cases hrun
      cases hcompleted

theorem Db.ensuresEarly_of_upsertRun {adapterKey : String} {run : Run}
    (hrun : (db.upsertRun graph adapterKey targetType targetId).1.runs[
      (db.upsertRun graph adapterKey targetType targetId).2]? = some run)
    (hbusy : (db.upsertRun graph adapterKey targetType targetId).1.busy
      (db.upsertRun graph adapterKey targetType targetId).2 = false)
    (hwaits : ((design.startNodes graph.id).map Node.id).any (design.waits graph.id
      (env.facts graph.scopeId targetType targetId) depth) = true)
    (hstatus : run.status = .completed ∨ run.status = .active ∧
      endsBefore (design.waits graph.id (env.facts graph.scopeId targetType targetId) depth)
        (design.ends graph.id (env.facts graph.scopeId targetType targetId) depth)
        ((design.startNodes graph.id).map Node.id) = true) :
    db.ensuresEarly design depth env graph targetType targetId = true := by
  rw [Db.ensuresEarly, hwaits, Bool.true_and]
  cases hfind : db.findRun graph.id targetType targetId with
  | none =>
    simp only [Db.upsertRun, hfind] at hrun
    rw [List.getElem?_concat_length] at hrun
    cases hrun
    rcases hstatus with hcompleted | ⟨-, hends⟩
    · cases hcompleted
    · exact hends
  | some runId =>
    simp only [Db.upsertRun, hfind] at hrun hbusy
    simpa [hrun, hbusy] using hstatus

theorem RunsSettled.ensured {graphCode version scopeCode : String} {adapterKey : Option String}
    (hs : Sound design db) (hsettled : RunsSettled db)
    (hlast : ∀ graph, design.runnableGraph graphCode version scopeCode adapterKey = some graph →
      db.ensuresEarly design depth env graph targetType targetId = false)
    (h : runEnsure design depth env graphCode version scopeCode adapterKey targetType targetId db =
      .ok (next, runId)) : RunsSettled next := by
  obtain ⟨graph, scopeKey, hgraph, rfl, hopen⟩ := runEnsure_openStarts h
  obtain ⟨run, hrun, hgraphId, hfacts⟩ :=
    hs.upsertRun_row env (Design.mem_of_runnableGraph hgraph) scopeKey targetType targetId
  rw [← hfacts] at hopen
  have heffect : Effect (db.upsertRun graph scopeKey targetType targetId).1 next _ run _ _ :=
    (openStarts_effect (by exact hrun) hopen).congr_left (fun _ => rfl) rfl
  have hbefore := hsettled.upsertRun graph scopeKey targetType targetId
  refine RunsSettled.of_effect heffect (fun other row _ => hbefore other row) ?_
  rw [Run.after_status_eq_completed]
  intro hstatus
  have hbusy : (db.upsertRun graph scopeKey targetType targetId).1.busy
      (db.upsertRun graph scopeKey targetType targetId).2 = false := by
    rcases hstatus with hcompleted | ⟨hbusy, -⟩
    · exact hbefore _ run hrun hcompleted
    · exact hbusy
  by_contra hnext
  have hwaits := Bool.eq_true_of_not_eq_false hnext
  rw [Bool.or_eq_true] at hwaits
  have hearly : db.ensuresEarly design depth env graph targetType targetId = true := by
    rw [hgraphId, hfacts] at hwaits hstatus
    refine Db.ensuresEarly_of_upsertRun hrun hbusy ?_ ?_
    · refine hwaits.resolve_left ?_
      rw [hbusy]
      exact Bool.false_ne_true
    · exact hstatus.imp_right fun h => ⟨h.2.2, h.2.1⟩
  rw [hlast graph hgraph] at hearly
  cases hearly

theorem RunsSettled.congr (hsettled : RunsSettled db) (hruns : next.runs = db.runs)
    (hnodeRuns : next.nodeRuns = db.nodeRuns) : RunsSettled next := by
  intro runId run hrun hcompleted
  rw [hruns] at hrun
  rw [Db.busy, hnodeRuns]
  exact hsettled runId run hrun hcompleted

theorem RunsSettled.acts {command : Command} (hs : Sound design db) (hsettled : RunsSettled db)
    (hlast : command.completesLast design depth env db) (h : Acts design depth env db next command) :
    RunsSettled next := by
  cases h with
  | rejected _ same =>
    rw [same]
    exact hsettled
  | ensured graphCode version scopeCode adapterKey targetType targetId runId h =>
    refine hsettled.ensured hs ?_ h
    intro graph hgraph
    rw [Command.completesLast, hgraph] at hlast
    simpa using hlast
  | decided taskId action note payload task htask hopen hforms h =>
    refine RunsSettled.tried (hs.decide_task htask _ _ _ _ _) (hsettled.congr rfl rfl) ?_ h
    rw [Command.completesLast, htask] at hlast
    simpa [hopen] using hlast
  | rewritten _ taskId task new htask hsame runs nodeRuns tasks => exact hsettled.congr runs nodeRuns
  | withdrawn taskId note task htask runs nodeRuns tasks => exact hsettled.congr runs nodeRuns
  | signalled scopeId targetType targetId order horder h =>
    have hstep : ∀ (db : Db) (id : Nat) (next : Db), Sound design db ∧ RunsSettled db →
        db.completesEarly design depth env id none = false →
        tryStep design depth env db id = some next → Sound design next ∧ RunsSettled next := by
      rintro db id next ⟨hs, hsettled⟩ hlast hstep
      rw [tryStep] at hstep
      cases htry : nodeTryComplete design env depth id none (some "facts_changed") db with
      | error failure =>
        rw [htry] at hstep
        cases hstep
      | ok result =>
        rw [htry] at hstep
        cases hstep
        exact ⟨sound_tried hs (nodeTryComplete_tried htry), hsettled.tried hs hlast htry⟩
    have hlogged : Sound design (db.logSignal env scopeId targetType targetId) ∧
        RunsSettled (db.logSignal env scopeId targetType targetId) :=
      ⟨hs.congr rfl rfl rfl, hsettled.congr rfl rfl⟩
    exact (run_invariant_of_meets hstep hlogged hlast (run_of_foldlM h)).2
  | updated runId status run hrun runs nodeRuns tasks =>
    intro other row hrow hcompleted
    rw [Db.busy, nodeRuns]
    rw [runs, List.getElem?_set] at hrow
    split_ifs at hrow with hother hlt
    · cases hrow
      exact absurd hcompleted hlast
    · exact hsettled other row hrow hcompleted

def CompletedRunsClosed (db : Db) : Prop :=
  ∀ (runId : Nat) (run : Run), db.runs[runId]? = some run → run.status = .completed →
    (∀ nodeRun ∈ db.nodeRuns, nodeRun.runId = runId →
      nodeRun.status ≠ .pending ∧ nodeRun.status ≠ .inProgress) ∧
    ∀ task ∈ db.tasks, task.runId = runId → task.status ≠ .open_

theorem RunsSettled.closed (hs : Sound design db) (hsettled : RunsSettled db) :
    CompletedRunsClosed db := by
  intro runId run hrun hcompleted
  have hidle := hsettled runId run hrun hcompleted
  have hnodeRuns : ∀ nodeRun ∈ db.nodeRuns, nodeRun.runId = runId →
      nodeRun.status ≠ .pending ∧ nodeRun.status ≠ .inProgress := by
    intro nodeRun hmem hrunId
    rw [Db.busy, List.any_eq_false] at hidle
    simpa [NodeRun.isOpen, hrunId] using hidle nodeRun hmem
  refine ⟨hnodeRuns, ?_⟩
  intro task htask hrunId hopen
  obtain ⟨nodeRun, node, hrow, howner, -, -, hprogress⟩ := hs.tasks task htask
  exact (hnodeRuns nodeRun (List.mem_of_getElem? hrow) (howner.trans hrunId)).2 (hprogress hopen)

/-- In a run in which every call completes its run last, a completed run has nothing open. -/
theorem completed_runs_closed {calls : List Call} {db : Db}
    (hlast : RunMeets (step design depth)
      (fun db call => call.command.completesLast design depth call.env db) Db.empty calls)
    (h : run (step design depth) Db.empty calls = some db) : CompletedRunsClosed db := by
  have hstep : ∀ (db : Db) (call : Call) (next : Db), Sound design db ∧ RunsSettled db →
      call.command.completesLast design depth call.env db →
      step design depth db call = some next → Sound design next ∧ RunsSettled next := by
    rintro db call next ⟨hs, hsettled⟩ hlast hstep
    exact ⟨sound_acts hs (step_acts hstep), hsettled.acts hs hlast (step_acts hstep)⟩
  have hempty : RunsSettled Db.empty := by
    intro runId run hrun
    cases hrun
  obtain ⟨hs, hsettled⟩ := run_invariant_of_meets hstep ⟨sound_empty, hempty⟩ hlast h
  exact hsettled.closed hs

/-- The review is approved after a signal, and its run is completed. -/
theorem completed_runs_closed_review :
    ∃ db, run (step (reviewDesign .all none []) 4) Db.empty
        [ensureReview 0, signalReview 1, approve 2 0] = some db ∧
      (db.runs[0]?).map Run.status = some .completed ∧ CompletedRunsClosed db := by
  have hprobe : (run (step (reviewDesign .all none []) 4) Db.empty
      [ensureReview 0, signalReview 1, approve 2 0]).map
        (fun db => (db.runs[0]?).map Run.status) = some (some .completed) := by
    decide
  obtain ⟨db, hrun, hstatus⟩ := Option.map_eq_some_iff.mp hprobe
  refine ⟨db, hrun, hstatus, completed_runs_closed ?_ hrun⟩
  decide

def forkDesign : Design where
  scopes := [⟨1, "orders", "erp"⟩]
  graphs := [⟨1, 1, "approval", "1", true, 0⟩]
  nodes :=
    [⟨1, 1, "start", .start, .all, none, [], none, none, 0⟩,
      ⟨2, 1, "end", .end_, .all, none, [], none, none, 1⟩,
      ⟨3, 1, "review", .human, .all, none, ["approve", "reject"], none, none, 2⟩]
  edges := [⟨1, 1, 1, 2, none, none, 0⟩, ⟨2, 1, 1, 3, none, none, 1⟩, ⟨3, 1, 3, 2, none, none, 0⟩]
  agentRules := []
  transitionEffects := []
  forms := []
  nodeFormRules := []
  graphs_unique := approval_unique
  nodes_unique := by decide
  edges_target := by decide

/-- The end is reached before the review is opened: the run is completed with an open task. -/
theorem forked_run_completes_early :
    ∃ db, run (step forkDesign 4) Db.empty [ensureReview 0] = some db ∧
      ¬ CompletedRunsClosed db := by
  have hprobe : (run (step forkDesign 4) Db.empty [ensureReview 0]).map
        (fun db => ((db.runs[0]?).map Run.status,
          (db.tasks[0]?).map fun task => (task.runId, task.status))) =
      some (some .completed, some (0, .open_)) := by
    decide
  obtain ⟨db, hrun, hprobed⟩ := Option.map_eq_some_iff.mp hprobe
  refine ⟨db, hrun, ?_⟩
  intro hclosed
  obtain ⟨hstatus, htasks⟩ := Prod.mk.inj hprobed
  obtain ⟨run, hget, hcompleted⟩ := Option.map_eq_some_iff.mp hstatus
  obtain ⟨task, htask, heq⟩ := Option.map_eq_some_iff.mp htasks
  obtain ⟨hrunId, hopen⟩ := Prod.mk.inj heq
  exact (hclosed 0 run hget hcompleted).2 task (List.mem_of_getElem? htask) hrunId hopen

end Stynx.Flow
