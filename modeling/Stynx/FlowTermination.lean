import Stynx.FiniteDescent
import Stynx.FlowCompletion

/-!
# Termination of a cascade

`node_open` and `node_try_complete` call each other for as long as automatic
nodes pass. Nothing of the tables decides how deep they go: the depth that a node
needs is computed from the graph and the facts.
-/

namespace Stynx.Flow

open ExceptFolds TransitionRuns FiniteDescent
open Relation (ReflTransGen TransGen)

variable {design : Design} {depth : Nat} {env : Env}

section

variable (design : Design) (graphId : Nat) (facts : Facts)

/-- The nodes that are opened next when a node is opened. -/
def Design.cascades (nodeId : Nat) : List Nat :=
  if (design.node? nodeId).any fun node => evalRule node.entryRule facts && node.passes facts then
    design.targets graphId facts nodeId none
  else []

/-- Opening the node does not go deeper than the stack. -/
def Design.fits : Nat → Nat → Bool
  | 0, nodeId => !(design.node? nodeId).any fun node =>
      evalRule node.entryRule facts && node.kind ≠ .human
  | depth + 1, nodeId => (design.cascades graphId facts nodeId).all (fits depth)

theorem Design.bounded_fits :
    Bounded (design.cascades graphId facts) (design.fits graphId facts) where
  zero nodeId h := by
    rw [Design.cascades, if_neg]
    intro hpasses
    rw [Option.any_eq_true] at hpasses
    obtain ⟨node, hnode, hboth⟩ := hpasses
    rw [Node.passes, Bool.and_eq_true, Bool.and_eq_true] at hboth
    simp [Design.fits, hnode, hboth.1] at h
    simp [h] at hboth
  succ _ _ := rfl

theorem Design.mem_cascades {nodeId next : Nat} (h : next ∈ design.cascades graphId facts nodeId) :
    next ∈ design.nodes.map Node.id := by
  rw [Design.cascades] at h
  split_ifs at h
  · obtain ⟨e, he, rfl⟩ := List.mem_map.mp h
    exact design.edges_target e (Design.mem_enabledEdges he)
  · cases h

theorem Design.finite_cascades (nodeId : Nat) :
    {b | ReflTransGen (fun a b => b ∈ design.cascades graphId facts a) nodeId b}.Finite := by
  refine (List.finite_toSet (nodeId :: design.nodes.map Node.id)).subset ?_
  intro b hreach
  have hreach' : ReflTransGen (fun a b => b ∈ design.cascades graphId facts a) nodeId b := hreach
  rcases ReflTransGen.cases_tail hreach' with rfl | ⟨a, -, hlast⟩
  · exact .head _
  · exact .tail _ (design.mem_cascades graphId facts hlast)

end

section

variable {graphId : Nat} {facts : Facts} {node : Node}

theorem Design.fits_of_not_auto (hnode : design.node? node.id = some node)
    (hauto : evalRule node.entryRule facts = false ∨ node.kind = .human) :
    design.fits graphId facts depth node.id = true := by
  cases depth with
  | zero => rcases hauto with h | h <;> simp [Design.fits, hnode, h]
  | succ depth =>
    rcases hauto with h | h <;> simp [Design.fits, Design.cascades, hnode, h, Node.passes]

theorem Design.fits_of_not_passes (hnode : design.node? node.id = some node)
    (hpasses : node.passes facts = false) :
    design.fits graphId facts (depth + 1) node.id = true := by
  simp [Design.fits, Design.cascades, hnode, hpasses]

theorem Design.fits_of_passes (hnode : design.node? node.id = some node)
    (hentry : evalRule node.entryRule facts = true) (hpasses : node.passes facts = true) :
    design.fits graphId facts (depth + 1) node.id =
      (design.targets graphId facts node.id none).all (design.fits graphId facts depth) := by
  simp [Design.fits, Design.cascades, hnode, hentry, hpasses]

end

section

/-- A computation that ends well if the stack is deep enough, and raises otherwise. -/
def Outcome {β : Type} (fits : Bool) (result : Except Failure β) : Prop :=
  fits = true ∧ (∃ value, result = .ok value) ∨ fits = false ∧ result = .error .stackDepth

variable {β : Type} {result : Except Failure β} {db : Db} {node : Node} {run : Run} {runId : Nat}

theorem Outcome.of_ok {value : β} (h : result = .ok value) :
    Outcome true result := .inl ⟨rfl, value, h⟩

theorem Outcome.map {γ : Type} {fits : Bool} (h : Outcome fits result) (f : β → γ) :
    Outcome fits (result.map f) := by
  rcases h with ⟨hfits, value, rfl⟩ | ⟨hfits, rfl⟩
  · exact .inl ⟨hfits, f value, rfl⟩
  · exact .inr ⟨hfits, rfl⟩

theorem Outcome.ne_stackDepth_iff {fits : Bool} (h : Outcome fits result) :
    result ≠ .error .stackDepth ↔ fits = true := by
  rcases h with ⟨hfits, value, rfl⟩ | ⟨hfits, rfl⟩
  · simp [hfits]
  · simp [hfits]

theorem Outcome.foldlM {fits : β → Bool} {inv : Db → Prop} {f : Db → β → Except Failure Db}
    {items : List β}
    (hstep : ∀ db item, item ∈ items → inv db → Outcome (fits item) (f db item) ∧
      ∀ next, f db item = .ok next → inv next)
    (hs : inv db) :
    Outcome (items.all fits) (items.foldlM f db) := by
  induction items generalizing db with
  | nil => exact Outcome.of_ok rfl
  | cons first rest ih =>
    obtain ⟨hfirst, hnext⟩ := hstep db first (.head _) hs
    rw [List.foldlM_cons, List.all_cons]
    rcases hfirst with ⟨hfits, middle, hmiddle⟩ | ⟨hfits, hraised⟩
    · rw [hfits, hmiddle, Bool.true_and]
      exact ih (fun db item hitem => hstep db item (.tail _ hitem)) (hnext middle hmiddle)
    · rw [hfits, hraised, Bool.false_and]
      exact .inr ⟨rfl, rfl⟩

/-- What `node_try_complete` needs of the stack when its node run is done. -/
def CompletionOutcome (design : Design) (env : Env) : Nat → Prop
  | 0 => True
  | depth + 1 => ∀ (nodeRunId : Nat) (action note : Option String) (db : Db) (nodeRun : NodeRun)
      (node : Node) (run : Run), db.nodeRuns[nodeRunId]? = some nodeRun →
      nodeRun.status ≠ .completed → design.node? nodeRun.nodeId = some node →
      db.runs[nodeRun.runId]? = some run → nodeDone db (run.facts env) nodeRunId node = true →
      Outcome ((design.targets run.graphId (run.facts env) node.id action).all
          (design.fits run.graphId (run.facts env) depth))
        (nodeTryComplete design env (depth + 1) nodeRunId action note db)

variable {nodeRunId nodeId : Nat}

theorem nodeTryComplete_eq_of_not_done {action note : Option String} {nodeRun : NodeRun}
    (hnodeRun : db.nodeRuns[nodeRunId]? = some nodeRun)
    (hnode : design.node? nodeRun.nodeId = some node) (hrun : db.runs[nodeRun.runId]? = some run)
    (hdone : nodeDone db (run.facts env) nodeRunId node = false) :
    nodeTryComplete design env (depth + 1) nodeRunId action note db = .ok db := by
  rw [nodeTryComplete, hnodeRun]
  dsimp only
  split_ifs with hstatus
  · rfl
  · rw [hnode, hrun]
    dsimp only
    rw [hdone]
    rfl

section

variable (hcomplete : CompletionOutcome design env depth)
include hcomplete

theorem nodeTryComplete_opened_outcome
    (hrow : db.nodeRuns[nodeRunId]? = some ⟨runId, node.id, .inProgress, none⟩)
    (hrun : db.runs[runId]? = some run) (hnode : design.node? node.id = some node)
    (hentry : evalRule node.entryRule (run.facts env) = true) (hkind : node.kind ≠ .human) :
    Outcome (design.fits run.graphId (run.facts env) depth node.id)
      (nodeTryComplete design env depth nodeRunId none none db) := by
  cases depth with
  | zero =>
    refine .inr ⟨?_, rfl⟩
    simp [Design.fits, hnode, hentry, hkind]
  | succ depth =>
    by_cases hpasses : node.passes (run.facts env) = true
    · rw [Design.fits_of_passes hnode hentry hpasses]
      exact hcomplete _ none none db _ node run hrow (by simp) hnode hrun
        ((nodeDone_eq_passes hkind).trans hpasses)
    · have hblocked := Bool.eq_false_of_not_eq_true hpasses
      rw [Design.fits_of_not_passes hnode hblocked,
        nodeTryComplete_eq_of_not_done hrow hnode hrun ((nodeDone_eq_passes hkind).trans hblocked)]
      exact Outcome.of_ok rfl

theorem nodeOpen_outcome (hrun : db.runs[runId]? = some run)
    (hnode : design.node? nodeId = some node) :
    Outcome (design.fits run.graphId (run.facts env) depth nodeId)
      (nodeOpen design env (fun id db => nodeTryComplete design env depth id none none db) runId
        nodeId (run.facts env) db) := by
  obtain ⟨-, rfl⟩ := design.node?_eq_some_iff.mp hnode
  rw [nodeOpen, hrun, hnode]
  dsimp only
  split_ifs with hentry hkind
  · rw [Design.fits_of_not_auto hnode (.inr hkind)]
    exact Outcome.of_ok rfl
  · have hrow : (db.nodeRuns ++ [⟨runId, node.id, .inProgress, none⟩])[db.nodeRuns.length]? =
        some (⟨runId, node.id, .inProgress, none⟩ : NodeRun) := List.getElem?_concat_length
    have hopened : ∀ (opened : Db) (result : Except Failure Db),
        nodeTryComplete design env depth db.nodeRuns.length none none opened = result →
        opened.nodeRuns[db.nodeRuns.length]? = some ⟨runId, node.id, .inProgress, none⟩ →
        opened.runs[runId]? = some run →
        Outcome (design.fits run.graphId (run.facts env) depth node.id) result := by
      intro opened result hresult hrow hrun
      rw [← hresult]
      exact nodeTryComplete_opened_outcome hcomplete hrow hrun hnode hentry hkind
    split
    · rename_i failure hfailure
      rcases hopened _ _ hfailure hrow hrun with ⟨-, value, hvalue⟩ | ⟨hfits, hraised⟩
      · cases hvalue
      · cases hraised
        exact .inr ⟨hfits, rfl⟩
    · rename_i done hdone
      rcases hopened _ _ hdone hrow hrun with ⟨hfits, -⟩ | ⟨-, hraised⟩
      · exact .inl ⟨hfits, _, rfl⟩
      · cases hraised
  · rw [Design.fits_of_not_auto hnode (.inl (Bool.eq_false_of_not_eq_true hentry))]
    exact Outcome.of_ok rfl

theorem nodeOpen_turn (hrun : ∃ current, SameRun run current ∧ db.runs[runId]? = some current)
    (hnode : design.node? nodeId = some node) :
    Outcome (design.fits run.graphId (run.facts env) depth nodeId)
        (nodeOpen design env (fun id db => nodeTryComplete design env depth id none none db) runId
          nodeId (run.facts env) db) ∧
      ∀ result, nodeOpen design env (fun id db => nodeTryComplete design env depth id none none db)
        runId nodeId (run.facts env) db = .ok result →
        ∃ current, SameRun run current ∧ result.1.runs[runId]? = some current := by
  obtain ⟨current, hsame, hcurrent⟩ := hrun
  rw [← hsame.facts, ← hsame.graphId]
  refine ⟨nodeOpen_outcome hcomplete hcurrent hnode, ?_⟩
  intro result hresult
  have heffect := nodeOpen_effect (completionEffect design env depth) hcurrent hresult
  exact ⟨_, hsame.after _ _, heffect.row⟩

end

/-- What `node_try_complete` needs of the stack, at every depth. -/
theorem completionOutcome (design : Design) (env : Env) (depth : Nat) :
    CompletionOutcome design env depth := by
  induction depth with
  | zero => trivial
  | succ depth ih =>
    intro nodeRunId action note db nodeRun node run hnodeRun hopen hnode hrun hdone
    rw [nodeTryComplete, hnodeRun]
    dsimp only
    rw [if_neg hopen, hnode, hrun]
    dsimp only
    rw [if_pos hdone]
    have hstep : ∀ (db : Db) (edge : Edge),
        edge ∈ design.enabledEdges run.graphId node.id action (run.facts env) →
        (∃ current, SameRun run current ∧ db.runs[nodeRun.runId]? = some current) →
        Outcome (design.fits run.graphId (run.facts env) depth edge.toNodeId)
          (takeEdge design env (fun id db => nodeTryComplete design env depth id none none db)
            nodeRun.runId node action (run.facts env) db edge) ∧
        ∀ next, takeEdge design env (fun id db => nodeTryComplete design env depth id none none db)
          nodeRun.runId node action (run.facts env) db edge = .ok next →
          ∃ current, SameRun run current ∧ next.runs[nodeRun.runId]? = some current := by
      intro db edge hedge hcurrent
      obtain ⟨target, htarget⟩ := Design.exists_target hedge
      constructor
      · rw [takeEdge]
        exact (nodeOpen_turn ih (by exact hcurrent) htarget).1.map Prod.fst
      · intro next hnext
        rw [takeEdge] at hnext
        obtain ⟨result, hresult, rfl⟩ := map_eq_ok.mp hnext
        exact (nodeOpen_turn ih (by exact hcurrent) htarget).2 result hresult
    have hclosed : ∃ current, SameRun run current ∧
        ((db.closeNodeRun env.now nodeRunId nodeRun).logCompletion design env nodeRun.runId
          run.graphId node action note).runs[nodeRun.runId]? = some current :=
      ⟨run, .refl run, hrun⟩
    have hloop := Outcome.foldlM hstep hclosed
    rw [Design.targets, List.all_map]
    split
    · rename_i failure hfailure
      rw [hfailure] at hloop
      exact hloop
    · rename_i opened hopened
      rw [hopened] at hloop
      rcases hloop with ⟨hfits, -⟩ | ⟨-, hraised⟩
      · split
        · exact .inl ⟨hfits, _, rfl⟩
        · exact .inl ⟨hfits, _, rfl⟩
      · cases hraised

end

section

/-- Rows other than those that are inserted keep their place. -/
def SameRows (db next : Db) : Prop :=
  db.nodeRuns.length ≤ next.nodeRuns.length ∧
    ∀ id, id < db.nodeRuns.length → next.nodeRuns[id]? = db.nodeRuns[id]?

theorem SameRows.refl (db : Db) : SameRows db db := ⟨le_refl _, fun _ _ => rfl⟩

variable {db next : Db} {runId : Nat} {run : Run}

theorem SameRows.trans {middle : Db} (h : SameRows db middle) (h' : SameRows middle next) :
    SameRows db next := by
  refine ⟨h.1.trans h'.1, ?_⟩
  intro id hid
  rw [h'.2 id (hid.trans_le h.1), h.2 id hid]

theorem nodeOpen_sameRows {complete : Nat → Db → Except Failure Db} {nodeId : Nat} {facts : Facts}
    {result : Db × Option Nat}
    (hcomplete : ∀ nodeRunId db next, complete nodeRunId db = .ok next →
      db.nodeRuns.length ≤ next.nodeRuns.length ∧
        ∀ id, id < db.nodeRuns.length → id ≠ nodeRunId → next.nodeRuns[id]? = db.nodeRuns[id]?)
    (h : nodeOpen design env complete runId nodeId facts db = .ok result) :
    SameRows db result.1 := by
  rw [nodeOpen] at h
  split at h
  · cases h
  · split at h
    · cases h
    · have hopened : SameRows db
          { db with nodeRuns := db.nodeRuns ++ [⟨runId, nodeId, .inProgress, none⟩] } := by
        refine ⟨?_, fun id hid => List.getElem?_append_left hid⟩
        rw [List.length_append]
        exact Nat.le_add_right _ _
      split_ifs at h with hentry hkind
      · cases h
        exact hopened
      · dsimp only at h
        split at h
        · cases h
        · rename_i done hdone
          cases h
          obtain ⟨hlength, hrows⟩ := hcomplete _ _ _ hdone
          refine ⟨hopened.1.trans hlength, ?_⟩
          intro id hid
          rw [hrows id (hid.trans_le hopened.1) hid.ne]
          exact hopened.2 id hid
      · cases h
        exact .refl db

variable {nodeRunId : Nat}

theorem nodeTryComplete_rows {action note : Option String}
    (h : nodeTryComplete design env depth nodeRunId action note db = .ok next) :
    db.nodeRuns.length ≤ next.nodeRuns.length ∧
      ∀ id, id < db.nodeRuns.length → id ≠ nodeRunId → next.nodeRuns[id]? = db.nodeRuns[id]? := by
  induction depth generalizing nodeRunId action note db next with
  | zero => cases h
  | succ depth ih =>
    refine ⟨(nodeTryComplete_tried h).length_le, ?_⟩
    rw [nodeTryComplete] at h
    split at h
    · cases h
    · rename_i nodeRun hnodeRun
      split_ifs at h with hstatus
      · cases h
        exact fun _ _ _ => rfl
      · split at h
        · rename_i node run hnode hrun
          dsimp only at h
          split_ifs at h with hdone
          · split at h
            · cases h
            · rename_i opened hopened
              have hstep : ∀ (db : Db) (edge : Edge) (next : Db),
                  takeEdge design env (fun id db => nodeTryComplete design env depth id none none
                    db) nodeRun.runId node action (run.facts env) db edge = .ok next →
                  SameRows db next := by
                intro db edge next htake
                rw [takeEdge] at htake
                obtain ⟨result, hresult, rfl⟩ := map_eq_ok.mp htake
                have hrows := nodeOpen_sameRows (fun _ _ _ hdone => ih hdone) hresult
                exact hrows
              have hloop := foldlM_relation SameRows SameRows.refl (fun _ _ _ => SameRows.trans)
                hstep hopened
              intro id hid hne
              have hclosed : (db.closeNodeRun env.now nodeRunId nodeRun).nodeRuns[id]? =
                  db.nodeRuns[id]? := List.getElem?_set_ne (Ne.symm hne)
              have hfinal : opened.nodeRuns[id]? = db.nodeRuns[id]? := by
                rw [← hclosed]
                refine hloop.2 id ?_
                rw [Db.logCompletion, Db.closeNodeRun, List.length_set]
                exact hid
              split at h
              · cases h
                exact hfinal
              · cases h
                rw [Db.finishRun]
                split <;> exact hfinal
          · cases h
            exact fun _ _ _ => rfl
        · cases h

theorem Change.sameRun (h : Change design db next) (hrun : db.runs[runId]? = some run) :
    ∃ current, SameRun run current ∧ next.runs[runId]? = some current := by
  rcases h.runs_cases with runs | ⟨finished, row, hrow, runs⟩
  · exact ⟨run, .refl run, by rw [runs, hrun]⟩
  · by_cases hid : runId = finished
    · subst hid
      obtain rfl := Option.some.inj (hrun.symm.trans hrow)
      refine ⟨_, ⟨.completed, rfl⟩, ?_⟩
      rw [runs, List.getElem?_set_self (List.getElem?_eq_some_iff.mp hrun).1]
    · refine ⟨run, .refl run, ?_⟩
      rw [runs, List.getElem?_set_ne (Ne.symm hid), hrun]

theorem Changes.sameRun (h : Changes design db next) (hrun : db.runs[runId]? = some run) :
    ∃ current, SameRun run current ∧ next.runs[runId]? = some current := by
  induction h with
  | refl => exact ⟨run, .refl run, hrun⟩
  | tail _ hlast ih =>
    obtain ⟨middle, ⟨status, rfl⟩, hmiddle⟩ := ih
    obtain ⟨current, ⟨status', rfl⟩, hcurrent⟩ := hlast.sameRun hmiddle
    exact ⟨_, ⟨status', rfl⟩, hcurrent⟩

theorem Tried.sameRun (h : Tried design env nodeRunId db next) (hrun : db.runs[runId]? = some run) :
    ∃ current, SameRun run current ∧ next.runs[runId]? = some current := by
  cases h with
  | idle same _ =>
    rw [same]
    exact ⟨run, .refl run, hrun⟩
  | completed nodeRun node row _ _ _ _ _ changes => exact Changes.sameRun changes (by exact hrun)

end

/-- A node to open, with the graph and the facts of its run. -/
structure Branch where
  graphId : Nat
  facts : Facts
  nodeId : Nat

/-- Opening the node does not go deeper than the stack. -/
def Branch.fits (design : Design) (depth : Nat) (branch : Branch) : Bool :=
  design.fits branch.graphId branch.facts depth branch.nodeId

/-- The node that is opened after another in a cascade. -/
def Branch.Next (design : Design) (branch : Branch) (nodeId next : Nat) : Prop :=
  next ∈ design.cascades branch.graphId branch.facts nodeId

/-- No node that the cascade from the branch reaches lies on a cycle of nodes that pass. -/
def Branch.Acyclic (design : Design) (branch : Branch) : Prop :=
  ∀ nodeId, ReflTransGen (branch.Next design) branch.nodeId nodeId →
    ¬ TransGen (branch.Next design) nodeId nodeId

def Db.opens (design : Design) (env : Env) (db : Db) (nodeRunId : Nat) (action : Option String) :
    List Branch :=
  match db.nodeRuns[nodeRunId]? with
  | none => []
  | some nodeRun =>
    match design.node? nodeRun.nodeId, db.runs[nodeRun.runId]? with
    | some node, some run =>
      if nodeRun.status ≠ .completed && nodeDone db (run.facts env) nodeRunId node then
        (design.targets run.graphId (run.facts env) node.id action).map fun target =>
          ⟨run.graphId, run.facts env, target⟩
      else []
    | _, _ => []

/-- The nodes that a call opens itself; all others are opened by the cascade. -/
def Command.opens (design : Design) (env : Env) (db : Db) : Command → List Branch
  | .runEnsure graphCode version scopeCode adapterKey targetType targetId =>
    match design.runnableGraph graphCode version scopeCode adapterKey with
    | none => []
    | some graph => (design.startNodes graph.id).map fun start =>
        ⟨graph.id, env.facts graph.scopeId targetType targetId, start.id⟩
  | .taskComplete taskId action note payload =>
    match db.tasks[taskId]? with
    | none => []
    | some task =>
      if task.status = .open_ &&
          (nodeFormRulesSatisfied design env task.nodeRunId db).toOption = some true then
        (db.writeTask taskId task (task.decide env.now action note payload) .taskDone env note
          (.decision (payload.getD "\x7b\x7d"))).opens design env task.nodeRunId (some action)
      else []
  | .signalChanged _ _ _ order => order.flatMap fun id => db.opens design env id none
  | _ => []

variable {db : Db} {nodeRunId : Nat}

variable {action note : Option String} {node : Node} {next : Db}

theorem Db.opens_eq {nodeRun : NodeRun} {run : Run}
    (hnodeRun : db.nodeRuns[nodeRunId]? = some nodeRun)
    (hnode : design.node? nodeRun.nodeId = some node) (hrun : db.runs[nodeRun.runId]? = some run) :
    db.opens design env nodeRunId action =
      if nodeRun.status ≠ .completed && nodeDone db (run.facts env) nodeRunId node then
        (design.targets run.graphId (run.facts env) node.id action).map fun target =>
          ⟨run.graphId, run.facts env, target⟩
      else [] := by
  rw [Db.opens, hnodeRun]
  dsimp only
  rw [hnode, hrun]

theorem nodeTryComplete_outcome (hs : Sound design db) (hlt : nodeRunId < db.nodeRuns.length)
    (action note : Option String) :
    Outcome ((db.opens design env nodeRunId action).all (Branch.fits design depth))
      (nodeTryComplete design env (depth + 1) nodeRunId action note db) := by
  obtain ⟨nodeRun, node, run, hnodeRun, hnode, hrun⟩ := hs.exists_rows hlt
  rw [Db.opens_eq hnodeRun hnode hrun]
  by_cases hstatus : nodeRun.status = .completed
  · have hidle : nodeTryComplete design env (depth + 1) nodeRunId action note db = .ok db := by
      rw [nodeTryComplete, hnodeRun]
      dsimp only
      rw [if_pos hstatus]
    rw [hidle, if_neg (by simp [hstatus])]
    exact Outcome.of_ok rfl
  · by_cases hdone : nodeDone db (run.facts env) nodeRunId node = true
    · rw [if_pos (by simp [hstatus, hdone]), List.all_map]
      exact completionOutcome design env (depth + 1) nodeRunId action note db nodeRun node run
        hnodeRun hstatus hnode hrun hdone
    · have hnot := Bool.eq_false_of_not_eq_true hdone
      rw [nodeTryComplete_eq_of_not_done hnodeRun hnode hrun hnot, if_neg (by simp [hnot])]
      exact Outcome.of_ok rfl

theorem nodeDone_congr {facts : Facts}
    (h : node.kind = .human → next.tasksOf nodeRunId = db.tasksOf nodeRunId) :
    nodeDone next facts nodeRunId node = nodeDone db facts nodeRunId node := by
  rw [nodeDone, nodeDone]
  split_ifs with hkind
  · rw [h hkind]
  · rfl

theorem opens_of_ne (hs : Sound design db) {other : Nat}
    (h : nodeTryComplete design env depth nodeRunId action note db = .ok next)
    (hlt : other < db.nodeRuns.length) (hne : other ≠ nodeRunId) :
    next.opens design env other none = db.opens design env other none := by
  obtain ⟨nodeRun, node, run, hrow, hnode, hrun⟩ := hs.exists_rows hlt
  have hrow' : next.nodeRuns[other]? = some nodeRun := by
    rw [(nodeTryComplete_rows h).2 other hlt hne, hrow]
  have htried := nodeTryComplete_tried h
  obtain ⟨current, hsame, hcurrent⟩ := htried.sameRun hrun
  have htasks : node.kind = .human → next.tasksOf other = db.tasksOf other := by
    intro hkind
    rcases htried.human_cases hrow' (Design.isHuman_iff.mpr ⟨node, hnode, hkind⟩) with
      ⟨hsame, -⟩ | hfresh | ⟨rfl, -⟩
    · exact hsame.tasks
    · exact absurd hlt (Nat.not_lt.mpr hfresh.fresh)
    · exact absurd rfl hne
  rw [Db.opens_eq hrow' hnode hcurrent, Db.opens_eq hrow hnode hrun, nodeDone_congr htasks,
    hsame.facts, hsame.graphId]

theorem signal_outcome {order : List Nat} (hs : Sound design db) (hnodup : order.Nodup)
    (hlt : ∀ id ∈ order, id < db.nodeRuns.length) :
    Outcome ((order.flatMap fun id => db.opens design env id none).all (Branch.fits design depth))
      (order.foldlM (fun db id => nodeTryComplete design env (depth + 1) id none note db) db) := by
  induction order generalizing db with
  | nil => exact Outcome.of_ok rfl
  | cons first rest ih =>
    rw [List.foldlM_cons, List.flatMap_cons, List.all_append]
    obtain ⟨hfirst, hrest⟩ := List.nodup_cons.mp hnodup
    rcases nodeTryComplete_outcome hs (hlt first (.head _)) none note with
      ⟨hfits, middle, hmiddle⟩ | ⟨hfits, hraised⟩
    · rw [hfits, hmiddle, Bool.true_and]
      have htried := nodeTryComplete_tried hmiddle
      have hopens : (rest.flatMap fun id => db.opens design env id none) =
          rest.flatMap fun id => middle.opens design env id none := by
        refine List.flatMap_congr ?_
        intro id hid
        refine (opens_of_ne hs hmiddle (hlt id (.tail _ hid)) ?_).symm
        rintro rfl
        exact hfirst hid
      rw [hopens]
      refine ih (sound_tried hs htried) hrest ?_
      intro id hid
      exact (hlt id (.tail _ hid)).trans_le htried.length_le
    · rw [hfits, hraised, Bool.false_and]
      exact .inr ⟨rfl, rfl⟩

theorem runEnsure_outcome {graphCode version scopeCode : String} {adapterKey : Option String}
    {targetType targetId : String} {graph : Graph} (hs : Sound design db)
    (hgraph : design.runnableGraph graphCode version scopeCode adapterKey = some graph) :
    Outcome ((design.startNodes graph.id).all fun start =>
        design.fits graph.id (env.facts graph.scopeId targetType targetId) depth start.id)
      (runEnsure design depth env graphCode version scopeCode adapterKey targetType targetId
        db) := by
  rw [runEnsure, hgraph]
  dsimp only
  obtain ⟨run, hrun, hgraphId, hfacts⟩ := hs.upsertRun_row env (Design.mem_of_runnableGraph hgraph)
    (((design.scopes.find? fun scope => scope.id = graph.scopeId).map Scope.adapterKey).getD "")
    targetType targetId
  generalize db.upsertRun graph (((design.scopes.find? fun scope => scope.id = graph.scopeId).map
    Scope.adapterKey).getD "") targetType targetId = upserted at hrun
  rw [← hfacts, ← hgraphId]
  have hstep : ∀ (db : Db) (start : Node), start ∈ design.startNodes run.graphId →
      (∃ current, SameRun run current ∧ db.runs[upserted.2]? = some current) →
      Outcome (design.fits run.graphId (run.facts env) depth start.id)
        ((nodeOpen design env (fun id db => nodeTryComplete design env depth id none none db)
          upserted.2 start.id (run.facts env) db).map Prod.fst) ∧
      ∀ next, (nodeOpen design env (fun id db => nodeTryComplete design env depth id none none db)
          upserted.2 start.id (run.facts env) db).map Prod.fst = .ok next →
        ∃ current, SameRun run current ∧ next.runs[upserted.2]? = some current := by
    intro db start hstart hcurrent
    have hnode : design.node? start.id = some start :=
      design.node?_eq_some_iff.mpr ⟨(Design.mem_startNodes.mp hstart).1, rfl⟩
    obtain ⟨houtcome, hstays⟩ := nodeOpen_turn (completionOutcome design env depth) hcurrent hnode
    refine ⟨houtcome.map Prod.fst, ?_⟩
    intro next hnext
    obtain ⟨result, hresult, rfl⟩ := map_eq_ok.mp hnext
    exact hstays result hresult
  have hlogged : ∃ current, SameRun run current ∧ (upserted.1.log
      ⟨upserted.2, none, none, .runEnsure, env.actor, none, .empty⟩).runs[upserted.2]? =
        some current := ⟨run, .refl run, hrun⟩
  have hloop := Outcome.foldlM hstep hlogged
  split
  · rename_i failure hfailure
    rw [hfailure] at hloop
    rcases hloop with ⟨-, value, hvalue⟩ | ⟨hfits, hraised⟩
    · cases hvalue
    · cases hraised
      exact .inr ⟨hfits, rfl⟩
  · rename_i opened hopened
    rw [hopened] at hloop
    rcases hloop with ⟨hfits, -⟩ | ⟨-, hraised⟩
    · exact .inl ⟨hfits, _, rfl⟩
    · cases hraised

theorem taskComplete_ne_stackDepth_iff (hs : Sound design db) (taskId : Nat) (action : String)
    (note payload : Option String) :
    taskComplete design (depth + 1) env taskId action note payload db ≠ .error .stackDepth ↔
      ((Command.taskComplete taskId action note payload).opens design env db).all
        (Branch.fits design depth) = true := by
  rw [taskComplete, Command.opens]
  cases htask : db.tasks[taskId]? with
  | none => simp
  | some task =>
    dsimp only
    by_cases hopen : task.status = .open_
    · obtain ⟨nodeRun, node, hrow, -, hnode, -⟩ := hs.tasks task (List.mem_of_getElem? htask)
      have hlt : task.nodeRunId < db.nodeRuns.length := (List.getElem?_eq_some_iff.mp hrow).1
      rw [if_neg (by simp [hopen]), if_neg (by simp [hopen])]
      cases hforms : nodeFormRulesSatisfied design env task.nodeRunId db with
      | error failure =>
        obtain ⟨nodeRun', node', run, hrow', hnode', hrun⟩ := hs.exists_rows hlt
        rw [nodeFormRulesSatisfied, hrow'] at hforms
        dsimp only at hforms
        rw [hnode', hrun] at hforms
        cases hforms
      | ok satisfied =>
        cases satisfied with
        | false => simp [hopen, Except.toOption]
        | true =>
          rw [if_pos (by simp [hopen, Except.toOption])]
          have hwritten := hs.decide_task htask env action note payload
            (.decision (payload.getD "\x7b\x7d"))
          exact (nodeTryComplete_outcome hwritten (by exact hlt) _ _).ne_stackDepth_iff
    · have hnot : ¬ (decide (task.status = .open_) && decide ((nodeFormRulesSatisfied design env
          task.nodeRunId db).toOption = some true)) = true := by
        simp [hopen]
      rw [if_neg hnot]
      split_ifs <;> simp

/-- What a call needs of the stack; a call of `node_try_complete` takes one level itself. -/
theorem exec_ne_stackDepth_iff (env : Env) (hs : Sound design db) {command : Command}
    (henabled : command.enabled db = true) :
    ∃ offset, ∀ depth, command.exec design (depth + offset) env db ≠ .error .stackDepth ↔
      (command.opens design env db).all (Branch.fits design depth) = true := by
  cases command with
  | runEnsure graphCode version scopeCode adapterKey targetType targetId =>
    refine ⟨0, fun depth => ?_⟩
    rw [Command.exec, Command.opens]
    cases hgraph : design.runnableGraph graphCode version scopeCode adapterKey with
    | none =>
      rw [runEnsure, hgraph]
      simp [Except.map]
    | some graph =>
      dsimp only
      rw [List.all_map]
      exact ((runEnsure_outcome hs hgraph).map Prod.fst).ne_stackDepth_iff
  | taskComplete taskId action note payload =>
    exact ⟨1, fun depth => taskComplete_ne_stackDepth_iff hs taskId action note payload⟩
  | taskAssign taskId user note =>
    refine ⟨0, fun depth => ?_⟩
    rw [Command.exec, taskAssign.eq_def]
    split
    · simp [Command.opens]
    · split <;> simp [Command.opens]
  | taskUnassign taskId note =>
    refine ⟨0, fun depth => ?_⟩
    rw [Command.exec, taskUnassign]
    split <;> simp [Command.opens]
  | taskAccept taskId note =>
    refine ⟨0, fun depth => ?_⟩
    rw [Command.exec, taskAccept]
    split
    · simp [Command.opens]
    · split_ifs <;> simp [Command.opens]
  | taskDecline taskId note =>
    refine ⟨0, fun depth => ?_⟩
    rw [Command.exec, taskDecline]
    split
    · simp [Command.opens]
    · split_ifs
      · simp [Command.opens]
      · rw [taskUnassign]
        split <;> simp [Command.opens]
  | taskUnaccept taskId note =>
    refine ⟨0, fun depth => ?_⟩
    rw [Command.exec, taskUnaccept]
    split
    · simp [Command.opens]
    · split_ifs <;> simp [Command.opens]
  | taskWithdraw taskId note =>
    refine ⟨0, fun depth => ?_⟩
    rw [Command.exec, taskWithdraw]
    split <;> simp [Command.opens]
  | signalChanged scopeId targetType targetId order =>
    refine ⟨1, fun depth => ?_⟩
    have hperm : order.Perm (db.signalledNodeRuns scopeId targetType targetId) :=
      List.isPerm_iff.mp henabled
    have hnodup : order.Nodup :=
      hperm.nodup_iff.mpr (List.nodup_range.filter _)
    have hlogged : Sound design (db.logSignal env scopeId targetType targetId) :=
      hs.congr rfl rfl rfl
    have hlt : ∀ id ∈ order, id < (db.logSignal env scopeId targetType targetId).nodeRuns.length :=
      fun id hid => Db.lt_of_mem_signalledNodeRuns (hperm.mem_iff.mp hid)
    exact (signal_outcome hlogged hnodup hlt).ne_stackDepth_iff
  | updateRun runId status =>
    refine ⟨0, fun depth => ?_⟩
    rw [Command.exec, updateRun]
    split <;> simp [Command.opens]

/-- The call ends, with a stack that is deep enough. -/
def Command.Terminates (design : Design) (env : Env) (db : Db) (command : Command) : Prop :=
  ∃ depth, ∀ more, depth ≤ more → command.exec design more env db ≠ .error .stackDepth

theorem Branch.exists_fits_iff (branch : Branch) :
    (∃ depth, branch.fits design depth = true) ↔ branch.Acyclic design :=
  (design.bounded_fits branch.graphId branch.facts).exists_iff_acyclic
    (design.finite_cascades branch.graphId branch.facts branch.nodeId)

theorem Branch.fits_mono {branch : Branch} {more : Nat} (hle : depth ≤ more)
    (h : branch.fits design depth = true) : branch.fits design more = true :=
  (design.bounded_fits branch.graphId branch.facts).mono hle h

/-- A call from a reachable state ends exactly when no node that its cascades reach lies on a cycle
of nodes that pass. -/
theorem terminates_iff_acyclic {calls : List Call} {db : Db} {command : Command}
    (h : run (step design depth) Db.empty calls = some db)
    (henabled : command.enabled db = true) :
    command.Terminates design env db ↔
      ∀ branch ∈ command.opens design env db, branch.Acyclic design := by
  obtain ⟨offset, hiff⟩ := exec_ne_stackDepth_iff env (sound_run h) henabled
  constructor
  · rintro ⟨enough, hends⟩ branch hbranch
    have hfits := (hiff enough).mp (hends (enough + offset) (Nat.le_add_right _ _))
    rw [List.all_eq_true] at hfits
    exact branch.exists_fits_iff.mp ⟨enough, hfits branch hbranch⟩
  · intro hacyclic
    have hfits : ∀ branch ∈ command.opens design env db,
        ∃ depth, Branch.fits design depth branch = true :=
      fun branch hbranch => branch.exists_fits_iff.mpr (hacyclic branch hbranch)
    have hmono : ∀ (depth more : Nat) (branch : Branch), depth ≤ more →
        Branch.fits design depth branch = true → Branch.fits design more branch = true :=
      fun _ _ _ hle hfits => Branch.fits_mono hle hfits
    obtain ⟨enough, henough⟩ := exists_common_bound hmono hfits
    refine ⟨enough + offset, ?_⟩
    intro more hmore
    obtain ⟨extra, rfl⟩ := Nat.exists_eq_add_of_le hmore
    rw [Nat.add_right_comm]
    refine (hiff (enough + extra)).mpr ?_
    rw [List.all_eq_true]
    intro branch hbranch
    exact Branch.fits_mono (Nat.le_add_right _ _) (henough branch hbranch)

/-- The approval of the review ends. -/
theorem terminates_approval :
    ∃ db, run (step (reviewDesign .all none []) 4) Db.empty [ensureReview 0] = some db ∧
      ((Command.taskComplete 0 "approve" none none).opens (reviewDesign .all none []) (quietEnv 1)
        db).length = 1 ∧
      (Command.taskComplete 0 "approve" none none).Terminates (reviewDesign .all none [])
        (quietEnv 1) db := by
  have hprobe : (run (step (reviewDesign .all none []) 4) Db.empty [ensureReview 0]).map
      (fun db => (((Command.taskComplete 0 "approve" none none).opens (reviewDesign .all none [])
          (quietEnv 1) db).length,
        ((Command.taskComplete 0 "approve" none none).opens (reviewDesign .all none [])
          (quietEnv 1) db).all (Branch.fits (reviewDesign .all none []) 1))) = some (1, true) := by
    decide
  obtain ⟨db, hrun, hprobed⟩ := Option.map_eq_some_iff.mp hprobe
  obtain ⟨hlength, hfits⟩ := Prod.mk.inj hprobed
  rw [List.all_eq_true] at hfits
  refine ⟨db, hrun, hlength, (terminates_iff_acyclic hrun rfl).mpr ?_⟩
  intro branch hbranch
  exact branch.exists_fits_iff.mp ⟨1, hfits branch hbranch⟩

def spinDesign : Design where
  scopes := [⟨1, "orders", "erp"⟩]
  graphs := [⟨1, 1, "approval", "1", true, 0⟩]
  nodes :=
    [⟨1, 1, "start", .start, .all, none, [], none, none, 0⟩,
      ⟨2, 1, "gateway", .gateway, .all, none, [], none, none, 1⟩,
      ⟨3, 1, "end", .end_, .all, none, [], none, none, 2⟩]
  edges := [⟨1, 1, 1, 2, none, none, 0⟩, ⟨2, 1, 2, 2, none, none, 0⟩, ⟨3, 1, 2, 3, none, none, 1⟩]
  agentRules := []
  transitionEffects := []
  forms := []
  nodeFormRules := []
  graphs_unique := approval_unique
  nodes_unique := by decide
  edges_target := by decide

/-- The graph is published, and `run_ensure` exhausts the stack whatever its depth. -/
theorem published_cycle_exhausts :
    spinDesign.publishable 1 = true ∧
      ∀ depth, runEnsure spinDesign depth (quietEnv 0) "approval" "1" "orders" none "order" "o1"
        Db.empty = .error .stackDepth := by
  refine ⟨by decide, ?_⟩
  intro depth
  have hgraph : spinDesign.runnableGraph "approval" "1" "orders" none =
      some ⟨1, 1, "approval", "1", true, 0⟩ := by
    decide
  have hstarts : (spinDesign.startNodes 1).map Node.id = [1] := by decide
  have hcycle : ∀ depth, spinDesign.fits 1 ((quietEnv 0).facts 1 "order" "o1") depth 2 = false := by
    intro depth
    induction depth with
    | zero => decide
    | succ depth ih =>
      have hnext : spinDesign.cascades 1 ((quietEnv 0).facts 1 "order" "o1") 2 = [2, 3] := by
        decide
      rw [Design.fits, hnext, List.all_cons, ih, Bool.false_and]
  have hstart : spinDesign.fits 1 ((quietEnv 0).facts 1 "order" "o1") depth 1 = false := by
    cases depth with
    | zero => decide
    | succ depth =>
      have hnext : spinDesign.cascades 1 ((quietEnv 0).facts 1 "order" "o1") 1 = [2] := by
        decide
      rw [Design.fits, hnext, List.all_cons, hcycle depth, Bool.false_and]
  have hfits : ((spinDesign.startNodes 1).all fun start =>
      spinDesign.fits 1 ((quietEnv 0).facts 1 "order" "o1") depth start.id) = false := by
    rw [← Function.comp_def (spinDesign.fits 1 _ depth) Node.id, ← List.all_map, hstarts,
      List.all_cons, hstart, Bool.false_and]
  rcases runEnsure_outcome sound_empty hgraph with ⟨htrue, -⟩ | ⟨-, hraised⟩
  · rw [hfits] at htrue
    cases htrue
  · exact hraised

end Stynx.Flow
