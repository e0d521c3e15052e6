import Mathlib.Data.List.Infix
import Stynx.FlowDecisions

/-!
# Ensuring a run a second time

A run is found again by its graph and target, whatever happened to it. The
second `run_ensure` still opens the start nodes.
-/

namespace Stynx.Flow

open ExceptFolds TransitionRuns

variable {design : Design} {depth : Nat} {env : Env}

section

def Db.runKeys (db : Db) : List (Nat × String × String) :=
  db.runs.map fun run => (run.graphId, run.targetType, run.targetId)

theorem Db.findRun_eq (db : Db) (graphId : Nat) (targetType targetId : String) :
    db.findRun graphId targetType targetId =
      db.runKeys.findIdx? fun key => key = (graphId, targetType, targetId) := by
  rw [Db.findRun, Db.runKeys, List.findIdx?_map]
  congr 1
  funext run
  simp [Bool.and_assoc]

variable {db next : Db}

variable {runId : Nat}

theorem Db.runKeys_set {run : Run} {status : RunStatus} (hrun : db.runs[runId]? = some run)
    (hruns : next.runs = db.runs.set runId { run with status := status }) :
    next.runKeys = db.runKeys := by
  obtain ⟨hlt, hget⟩ := List.getElem?_eq_some_iff.mp hrun
  rw [Db.runKeys, hruns, List.map_set, Db.runKeys]
  refine List.ext_getElem? fun index => ?_
  rw [List.getElem?_set]
  split_ifs with hindex hbound
  · subst hindex
    rw [List.getElem?_map, hrun]
    rfl
  · subst hindex
    rw [List.length_map] at hbound
    exact absurd hlt hbound
  · rfl

theorem Change.runKeys_eq (h : Change design db next) : next.runKeys = db.runKeys := by
  rcases h.runs_cases with runs | ⟨runId, run, hrun, runs⟩
  · rw [Db.runKeys, runs, Db.runKeys]
  · exact Db.runKeys_set hrun runs

theorem Changes.runKeys_eq (h : Changes design db next) : next.runKeys = db.runKeys := by
  induction h with
  | refl => rfl
  | tail _ hlast ih => rw [hlast.runKeys_eq, ih]

theorem Tried.runKeys_eq {nodeRunId : Nat} (h : Tried design env nodeRunId db next) :
    next.runKeys = db.runKeys := by
  cases h with
  | idle same _ => rw [same]
  | completed nodeRun node run _ _ _ _ _ changes =>
    have hkeys := Changes.runKeys_eq changes
    exact hkeys

theorem Db.runKeys_upsertRun (db : Db) (graph : Graph) (adapterKey targetType targetId : String) :
    db.runKeys <+: (db.upsertRun graph adapterKey targetType targetId).1.runKeys := by
  rw [Db.upsertRun]
  split
  · exact List.prefix_rfl
  · refine ⟨[(graph.id, targetType, targetId)], ?_⟩
    rw [Db.runKeys, Db.runKeys, List.map_append]
    rfl

theorem Db.findRun_upsertRun (db : Db) (graph : Graph) (adapterKey targetType targetId : String) :
    (db.upsertRun graph adapterKey targetType targetId).1.findRun graph.id targetType targetId =
      some (db.upsertRun graph adapterKey targetType targetId).2 := by
  rw [Db.upsertRun]
  split
  · assumption
  · rename_i hnone
    rw [Db.findRun] at hnone ⊢
    dsimp only
    rw [List.findIdx?_append, hnone]
    simp

theorem Acts.runKeys_isPrefix {command : Command} (h : Acts design depth env db next command) :
    db.runKeys <+: next.runKeys := by
  cases h with
  | rejected _ same => rw [same]
  | ensured graphCode version scopeCode adapterKey targetType targetId runId h =>
    obtain ⟨graph, scopeKey, -, -, changes⟩ := runEnsure_changes h
    rw [Changes.runKeys_eq changes]
    exact db.runKeys_upsertRun graph scopeKey targetType targetId
  | decided taskId action note payload task htask hopen hforms h =>
    rw [(nodeTryComplete_tried h).runKeys_eq]
    exact List.prefix_rfl
  | rewritten _ taskId task new htask hsame runs nodeRuns tasks =>
    rw [Db.runKeys, Db.runKeys, runs]
  | withdrawn taskId note task htask runs nodeRuns tasks =>
    rw [Db.runKeys, Db.runKeys, runs]
  | signalled scopeId targetType targetId order horder h =>
    refine foldlM_relation (fun db next => db.runKeys <+: next.runKeys) (fun _ => List.prefix_rfl)
      (fun _ _ _ => List.IsPrefix.trans) ?_ h
    intro db id next h
    rw [(nodeTryComplete_tried h).runKeys_eq]
  | updated runId status run hrun runs nodeRuns tasks =>
    rw [Db.runKeys_set hrun runs]

theorem findRun_run {calls : List Call} {graphId : Nat} {targetType targetId : String}
    (h : run (step design depth) db calls = some next)
    (hfind : db.findRun graphId targetType targetId = some runId) :
    next.findRun graphId targetType targetId = some runId := by
  have hprefix : db.runKeys <+: next.runKeys := by
    have hstep : ∀ (middle : Db) (call : Call) (last : Db), db.runKeys <+: middle.runKeys →
        step design depth middle call = some last → db.runKeys <+: last.runKeys :=
      fun _ _ _ hmiddle hstep => hmiddle.trans (step_acts hstep).runKeys_isPrefix
    exact run_invariant hstep List.prefix_rfl h
  obtain ⟨more, hmore⟩ := hprefix
  rw [Db.findRun_eq] at hfind ⊢
  rw [← hmore, List.findIdx?_append, hfind]
  rfl

end

variable {runId : Nat} {facts : Facts} {db next : Db} {starts : List Node}
  {targetType targetId : String}

variable {node start : Node} {result : Db × Option Nat} {graphCode version scopeCode : String}
  {adapterKey : Option String}

theorem nodeOpen_of_entryRule_eq_false {complete : Nat → Db → Except Failure Db} {run : Run}
    (hrun : db.runs[runId]? = some run) (hnode : design.node? node.id = some node)
    (hentry : evalRule node.entryRule facts = false) :
    nodeOpen design env complete runId node.id facts db = .ok (db, none) := by
  rw [nodeOpen, hrun, hnode]
  simp [hentry]

theorem nodeOpen_length_lt (hnode : design.node? node.id = some node)
    (hentry : evalRule node.entryRule facts = true)
    (h : nodeOpen design env (fun id db => nodeTryComplete design env depth id none none db) runId
      node.id facts db = .ok result) :
    db.nodeRuns.length < result.1.nodeRuns.length := by
  rw [nodeOpen] at h
  split at h
  · cases h
  · rw [hnode] at h
    dsimp only at h
    rw [if_pos hentry] at h
    split_ifs at h with hkind
    · cases h
      rw [List.length_append]
      exact Nat.lt_succ_self _
    · split at h
      · cases h
      · rename_i done hdone
        cases h
        have hlength := (nodeTryComplete_tried hdone).length_le
        rw [List.length_append] at hlength
        exact hlength

/-- The loop of `run_ensure` over some start nodes. -/
def openStarts (design : Design) (depth : Nat) (env : Env) (runId : Nat) (facts : Facts)
    (starts : List Node) (db : Db) : Except Failure Db :=
  starts.foldlM (fun db start =>
    (nodeOpen design env (fun id db => nodeTryComplete design env depth id none none db) runId
      start.id facts db).map Prod.fst) db

theorem openStarts_cons {rest : List Node} :
    openStarts design depth env runId facts (start :: rest) db = .ok next ↔
      ∃ result, nodeOpen design env (fun id db => nodeTryComplete design env depth id none none db)
        runId start.id facts db = .ok result ∧
        openStarts design depth env runId facts rest result.1 = .ok next := by
  rw [openStarts, List.foldlM_cons, bind_eq_ok]
  constructor
  · rintro ⟨middle, hfirst, hrest⟩
    obtain ⟨result, hopen, rfl⟩ := map_eq_ok.mp hfirst
    exact ⟨result, hopen, hrest⟩
  · rintro ⟨result, hopen, hrest⟩
    exact ⟨result.1, map_eq_ok.mpr ⟨result, hopen, rfl⟩, hrest⟩

theorem openStarts_of_forall_eq_false {run : Run} (hrun : db.runs[runId]? = some run)
    (hnodes : ∀ start ∈ starts, design.node? start.id = some start)
    (hentry : ∀ start ∈ starts, evalRule start.entryRule facts = false) :
    openStarts design depth env runId facts starts db = .ok db := by
  induction starts with
  | nil => rfl
  | cons start rest ih =>
    have hfirst : nodeOpen design env (fun id db => nodeTryComplete design env depth id none none
        db) runId start.id facts db = .ok (db, none) :=
      nodeOpen_of_entryRule_eq_false hrun (hnodes start (.head _)) (hentry start (.head _))
    refine openStarts_cons.mpr ⟨_, hfirst, ih ?_ ?_⟩
    · exact fun other hother => hnodes other (.tail _ hother)
    · exact fun other hother => hentry other (.tail _ hother)

theorem nodeOpen_length_le {nodeId : Nat}
    (h : nodeOpen design env (fun id db => nodeTryComplete design env depth id none none db) runId
      nodeId facts db = .ok result) : db.nodeRuns.length ≤ result.1.nodeRuns.length :=
  Changes.length_le (nodeOpen_changes (fun _ _ _ _ _ hnodeRun hnode hkind h =>
    (nodeTryComplete_tried h).changes hnodeRun hnode hkind) h)

theorem openStarts_length_le (h : openStarts design depth env runId facts starts db = .ok next) :
    db.nodeRuns.length ≤ next.nodeRuns.length := by
  induction starts generalizing db with
  | nil =>
    cases h
    exact le_refl _
  | cons start rest ih =>
    obtain ⟨result, hopen, hrest⟩ := openStarts_cons.mp h
    exact (nodeOpen_length_le hopen).trans (ih hrest)

theorem openStarts_length_lt (hnode : design.node? start.id = some start)
    (hentry : evalRule start.entryRule facts = true) (hmem : start ∈ starts)
    (h : openStarts design depth env runId facts starts db = .ok next) :
    db.nodeRuns.length < next.nodeRuns.length := by
  induction starts generalizing db with
  | nil => cases hmem
  | cons first rest ih =>
    obtain ⟨result, hopen, hrest⟩ := openStarts_cons.mp h
    rcases List.mem_cons.mp hmem with rfl | hmem
    · exact (nodeOpen_length_lt hnode hentry hopen).trans_le (openStarts_length_le hrest)
    · exact (nodeOpen_length_le hopen).trans_lt (ih hmem hrest)

theorem runEnsure_of_findRun {graph : Graph}
    (hgraph : design.runnableGraph graphCode version scopeCode adapterKey = some graph)
    (hfind : db.findRun graph.id targetType targetId = some runId) :
    runEnsure design depth env graphCode version scopeCode adapterKey targetType targetId db =
      (openStarts design depth env runId (env.facts graph.scopeId targetType targetId)
        (design.startNodes graph.id)
        (db.log ⟨runId, none, none, .runEnsure, env.actor, none, .empty⟩)).map
          fun next => (next, runId) := by
  rw [runEnsure, hgraph]
  dsimp only
  rw [Db.upsertRun, hfind]
  dsimp only
  rw [openStarts]
  split
  · rename_i failure hfailure
    rw [hfailure]
    rfl
  · rename_i opened hopened
    rw [hopened]
    rfl

theorem runEnsure_openStarts
    (h : runEnsure design depth env graphCode version scopeCode adapterKey targetType targetId db =
      .ok (next, runId)) :
    ∃ graph scopeKey, design.runnableGraph graphCode version scopeCode adapterKey = some graph ∧
      runId = (db.upsertRun graph scopeKey targetType targetId).2 ∧
      openStarts design depth env runId (env.facts graph.scopeId targetType targetId)
        (design.startNodes graph.id)
        ((db.upsertRun graph scopeKey targetType targetId).1.log
          ⟨runId, none, none, .runEnsure, env.actor, none, .empty⟩) = .ok next := by
  rw [runEnsure] at h
  split at h
  · cases h
  · rename_i graph hgraph
    dsimp only at h
    split at h
    · cases h
    · rename_i opened hopened
      cases h
      exact ⟨graph, _, hgraph, rfl, hopened⟩

theorem Db.exists_of_findRun {graphId : Nat}
    (h : db.findRun graphId targetType targetId = some runId) :
    ∃ run, db.runs[runId]? = some run := by
  obtain ⟨hlt, -⟩ := List.findIdx?_eq_some_iff_getElem.mp h
  exact ⟨_, List.getElem?_eq_getElem hlt⟩

/-- A second `run_ensure` returns the same run and inserts nothing exactly when no start node has a
true entry rule. -/
theorem ensure_again_inserts_nothing_iff {graphCode version scopeCode : String}
    {adapterKey : Option String} {targetType targetId : String} {before ensured after : Db}
    {first second : Env} {calls : List Call} {runId : Nat} {graph : Graph}
    (hgraph : design.runnableGraph graphCode version scopeCode adapterKey = some graph)
    (hensured : runEnsure design depth first graphCode version scopeCode adapterKey targetType
      targetId before = .ok (ensured, runId))
    (hbetween : run (step design depth) ensured calls = some after) :
    (∃ next, runEnsure design depth second graphCode version scopeCode adapterKey targetType
        targetId after = .ok (next, runId) ∧
      next.nodeRuns.length = after.nodeRuns.length ∧ next.tasks.length = after.tasks.length) ↔
    ∀ start ∈ design.startNodes graph.id,
      evalRule start.entryRule (second.facts graph.scopeId targetType targetId) = false := by
  have hfind : after.findRun graph.id targetType targetId = some runId := by
    obtain ⟨graph', scopeKey, hgraph', rfl, changes⟩ := runEnsure_changes hensured
    obtain rfl := Option.some.inj (hgraph.symm.trans hgraph')
    refine findRun_run hbetween ?_
    rw [Db.findRun_eq, Changes.runKeys_eq changes, ← Db.findRun_eq]
    exact before.findRun_upsertRun graph scopeKey targetType targetId
  have hnodes : ∀ start ∈ design.startNodes graph.id, design.node? start.id = some start := by
    intro start hstart
    exact design.node?_eq_some_iff.mpr ⟨(Design.mem_startNodes.mp hstart).1, rfl⟩
  rw [runEnsure_of_findRun hgraph hfind]
  constructor
  · rintro ⟨next, hnext, hnodeRuns, -⟩ start hstart
    obtain ⟨next', hopen, heq⟩ := map_eq_ok.mp hnext
    cases heq
    by_contra hentry
    have hlt := openStarts_length_lt (hnodes start hstart) (Bool.eq_true_of_not_eq_false hentry)
      hstart hopen
    rw [hnodeRuns] at hlt
    exact absurd hlt (Nat.lt_irrefl _)
  · intro hentry
    obtain ⟨run, hrun⟩ := Db.exists_of_findRun hfind
    rw [openStarts_of_forall_eq_false (by exact hrun) hnodes hentry]
    exact ⟨_, rfl, rfl, rfl⟩

/-- A graph whose only node is a start with an entry rule. -/
def gatedDesign : Design where
  scopes := [⟨1, "orders", "erp"⟩]
  graphs := [⟨1, 1, "approval", "1", true, 0⟩]
  nodes := [⟨1, 1, "start", .start, .all, none, [], some "$.ready", none, 0⟩]
  edges := []
  agentRules := []
  transitionEffects := []
  forms := []
  nodeFormRules := []
  graphs_unique := approval_unique
  nodes_unique := by decide
  edges_target := by decide

/-- Surroundings in which every rule holds. -/
def readyEnv : Env where
  actor := some "u1"
  now := 0
  facts := fun _ _ _ => ⟨fun _ => true, fun _ => none, fun _ => none⟩
  answered := fun _ _ _ _ => false
  waived := fun _ _ _ _ => false

/-- The run is canceled and its facts change; the second call finds it and opens nothing. -/
theorem ensure_again_inserts_nothing_gated :
    ∃ ensured after next, runEnsure gatedDesign 4 readyEnv "approval" "1" "orders" none "order" "o1"
        Db.empty = .ok (ensured, 0) ∧
      run (step gatedDesign 4) ensured [⟨quietEnv 1, .updateRun 0 .canceled⟩] = some after ∧
      runEnsure gatedDesign 4 (quietEnv 2) "approval" "1" "orders" none "order" "o1" after =
        .ok (next, 0) ∧
      next.nodeRuns.length = after.nodeRuns.length ∧ next.tasks.length = after.tasks.length := by
  have hgraph : gatedDesign.runnableGraph "approval" "1" "orders" none =
      some ⟨1, 1, "approval", "1", true, 0⟩ := by
    decide
  have hentry : ∀ start ∈ gatedDesign.startNodes 1,
      evalRule start.entryRule ((quietEnv 2).facts 1 "order" "o1") = false := by
    decide
  have hagain : ∀ ensured after : Db,
      runEnsure gatedDesign 4 readyEnv "approval" "1" "orders" none "order" "o1" Db.empty =
        .ok (ensured, 0) →
      run (step gatedDesign 4) ensured [⟨quietEnv 1, .updateRun 0 .canceled⟩] = some after →
      ∃ next, runEnsure gatedDesign 4 (quietEnv 2) "approval" "1" "orders" none "order" "o1"
          after = .ok (next, 0) ∧
        next.nodeRuns.length = after.nodeRuns.length ∧ next.tasks.length = after.tasks.length :=
    fun _ _ hensured hbetween =>
      (ensure_again_inserts_nothing_iff hgraph hensured hbetween).mpr hentry
  obtain ⟨next, hnext⟩ := hagain _ _ rfl rfl
  exact ⟨_, _, next, rfl, rfl, hnext⟩

/-- The review is ensured twice: the second call opens it again. -/
theorem ensured_review_opens_twice :
    ∃ ensured next, runEnsure (reviewDesign .all none []) 4 (quietEnv 0) "approval" "1" "orders"
        none "order" "o1" Db.empty = .ok (ensured, 0) ∧
      runEnsure (reviewDesign .all none []) 4 (quietEnv 1) "approval" "1" "orders" none "order"
        "o1" ensured = .ok (next, 0) ∧
      (ensured.nodeRuns.length, ensured.tasks.length) = (2, 1) ∧
      (next.nodeRuns.length, next.tasks.length) = (4, 2) :=
  ⟨_, _, rfl, rfl, rfl, rfl⟩

end Stynx.Flow
