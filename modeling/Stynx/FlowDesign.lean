import Mathlib.Data.List.Sort
import Mathlib.Data.Rat.Defs

/-!
# Graphs, rules and agents of the flow engine

The design tables of one tenant: scopes, graphs, nodes, edges, agent rules,
transition effects and form rules.

A rule is a path expression over the facts of a run. `holds` says which
expressions find something, and is false for one that fails to parse.
-/

namespace Stynx.Flow

inductive NodeKind where
  | human
  | auto
  | system
  | start
  | end_
  | gateway
  deriving DecidableEq

inductive DecisionPolicy where
  | all
  | any
  | quorum
  deriving DecidableEq

inductive AgentRuleType where
  | permission
  | user
  | resolverFn

inductive GatingMode where
  | allRequired
  | any
  | threshold

/-- A row of `flow.scopes`. -/
structure Scope where
  id : Nat
  code : String
  adapterKey : String

/-- A row of `flow.graphs`. -/
structure Graph where
  id : Nat
  scopeId : Nat
  code : String
  version : String
  isActive : Bool
  updatedAt : Nat
  deriving DecidableEq

/-- A row of `flow.nodes`. -/
structure Node where
  id : Nat
  graphId : Nat
  code : String
  kind : NodeKind
  /-- How the tasks of a human node decide it. -/
  decisionPolicy : DecisionPolicy
  /-- Share of the tasks that a quorum needs. -/
  quorumRatio : Option ℚ
  allowedActions : List String
  /-- Rule without which the node is not opened. -/
  entryRule : Option String
  /-- Rule without which an automatic node is not completed. -/
  exitRule : Option String
  sortOrder : Int

/-- A row of `flow.edges`. -/
structure Edge where
  id : Nat
  graphId : Nat
  fromNodeId : Nat
  toNodeId : Nat
  action : Option String
  rule : Option String
  sortOrder : Int

/-- A row of `flow.agent_rules`. -/
structure AgentRule where
  id : Nat
  nodeId : Nat
  ruleType : AgentRuleType
  permissionKey : Option String
  userId : Option String
  resolverKey : Option String
  sortOrder : Int

/-- A row of `flow.transition_effects`. -/
structure TransitionEffect where
  id : Nat
  graphId : Nat
  nodeCode : Option String
  action : Option String
  effectKey : String
  payload : String
  sortOrder : Int

/-- A row of `flow.forms`. -/
structure Form where
  id : Nat
  code : String
  isActive : Bool

structure NodeFormRule where
  nodeId : Nat
  formId : Nat
  required : Bool
  gatingMode : GatingMode
  threshold : Option ℚ

structure Design where
  scopes : List Scope
  graphs : List Graph
  nodes : List Node
  edges : List Edge
  agentRules : List AgentRule
  transitionEffects : List TransitionEffect
  forms : List Form
  nodeFormRules : List NodeFormRule
  graphs_unique : (graphs.map Graph.id).Nodup
  nodes_unique : (nodes.map Node.id).Nodup
  /-- The foreign key of the edges. -/
  edges_target : ∀ e ∈ edges, e.toNodeId ∈ nodes.map Node.id

theorem approval_unique : ([⟨1, 1, "approval", "1", true, 0⟩].map Graph.id).Nodup := by decide

/-- The facts of a target, as far as the engine reads them. -/
structure Facts where
  /-- `jsonb_path_exists` of an expression, false when it fails. -/
  holds : String → Bool
  /-- `forms.byFormCode.<code>.autoPass`. -/
  autoPass : String → Option Bool
  /-- `forms.byFormCode.<code>.score`. -/
  score : String → Option ℚ

/-- `flow.eval_rule`; `btrim` removes spaces. -/
def evalRule (expression : Option String) (facts : Facts) : Bool :=
  match expression with
  | none => true
  | some text => text.toList.all (· = ' ') || facts.holds text

def Design.node? (design : Design) (id : Nat) : Option Node :=
  design.nodes.find? fun node => node.id = id

def rowOrder (first second : Int × Nat) : Prop :=
  first.1 < second.1 ∨ first.1 = second.1 ∧ first.2 ≤ second.2

instance (first second : Int × Nat) : Decidable (rowOrder first second) :=
  inferInstanceAs (Decidable (_ ∨ _ ∧ _))

def startOrder (first second : Node) : Prop :=
  first.sortOrder < second.sortOrder ∨ first.sortOrder = second.sortOrder ∧ first.code ≤ second.code

instance (first second : Node) : Decidable (startOrder first second) :=
  inferInstanceAs (Decidable (_ ∨ _ ∧ _))

def Design.enabledEdges (design : Design) (graphId nodeId : Nat) (action : Option String)
    (facts : Facts) : List Edge :=
  (design.edges.filter fun e =>
    e.graphId = graphId && e.fromNodeId = nodeId && (e.action.isNone || e.action = action) &&
      evalRule e.rule facts).insertionSort fun first second =>
    rowOrder (first.sortOrder, first.id) (second.sortOrder, second.id)

def Design.requestedEffects (design : Design) (graphId : Nat) (nodeCode : String)
    (action : Option String) : List TransitionEffect :=
  (design.transitionEffects.filter fun effect =>
    effect.graphId = graphId && (effect.nodeCode.isNone || effect.nodeCode = some nodeCode) &&
      (effect.action.isNone || effect.action = action)).insertionSort fun first second =>
    rowOrder (first.sortOrder, first.id) (second.sortOrder, second.id)

def Design.startNodes (design : Design) (graphId : Nat) : List Node :=
  (design.nodes.filter fun node => node.graphId = graphId && node.kind = .start).insertionSort
    startOrder

/-- The kinds of `tasks.assignee_type`. -/
inductive AssigneeType where
  | unassigned
  | user
  | permission
  | resolver
  deriving DecidableEq

def AgentRule.candidate (rule : AgentRule) : Option (AssigneeType × String) :=
  match rule.ruleType with
  | .user => rule.userId.map fun id => (.user, id)
  | .permission => rule.permissionKey.map fun key => (.permission, key)
  | .resolverFn => rule.resolverKey.map fun key => (.resolver, key)

def Design.resolveAgents (design : Design) (nodeId graphId : Nat) : List (AssigneeType × String) :=
  ((design.agentRules.filter fun rule =>
    rule.nodeId = nodeId && (design.node? rule.nodeId).any fun node =>
      node.graphId = graphId).insertionSort fun first second =>
    rowOrder (first.sortOrder, first.id) (second.sortOrder, second.id)).filterMap AgentRule.candidate

/-- The graph that `run_ensure` uses. -/
def Design.runnableGraph (design : Design) (graphCode version scopeCode : String)
    (adapterKey : Option String) : Option Graph :=
  ((design.graphs.filter fun graph =>
    graph.code = graphCode && graph.version = version && graph.isActive &&
      design.scopes.any fun scope =>
        scope.id = graph.scopeId && scope.code = scopeCode &&
          (adapterKey.isNone || adapterKey = some scope.adapterKey)).insertionSort
    fun first second => second.updatedAt ≤ first.updatedAt).head?

def validatePublishableGraph (nodes : List Node) (edges : List Edge) : Except String Unit :=
  if (nodes.filter fun node => node.kind = .start).length ≠ 1 then
    .error "Graph publish requires exactly one start node"
  else if !nodes.any fun node => node.kind = .end_ then
    .error "Graph publish requires at least one terminal node"
  else if edges.any fun e =>
      !(nodes.map Node.id).contains e.fromNodeId || !(nodes.map Node.id).contains e.toNodeId then
    .error "Graph publish edge references a missing node"
  else .ok ()

def Design.publishable (design : Design) (graphId : Nat) : Bool :=
  (validatePublishableGraph (design.nodes.filter fun node => node.graphId = graphId)
    (design.edges.filter fun e => e.graphId = graphId)).isOk

variable {node : Node} {design : Design} {graphId nodeId : Nat} {action : Option String}
  {facts : Facts} {e : Edge}

theorem Design.node?_eq_some_iff (design : Design) {id : Nat} :
    design.node? id = some node ↔ node ∈ design.nodes ∧ node.id = id := by
  constructor
  · intro h
    have hid := List.find?_some h
    exact ⟨List.mem_of_find?_eq_some h, by simpa using hid⟩
  · rintro ⟨hmem, rfl⟩
    rw [Design.node?]
    cases hfind : design.nodes.find? fun other => other.id = node.id with
    | none =>
      have hnone := List.find?_eq_none.mp hfind node hmem
      simp at hnone
    | some other =>
      have hid : other.id = node.id := by simpa using List.find?_some hfind
      have hother : other ∈ design.nodes := List.mem_of_find?_eq_some hfind
      rw [List.inj_on_of_nodup_map design.nodes_unique hother hmem hid]

theorem Design.mem_enabledEdges (h : e ∈ design.enabledEdges graphId nodeId action facts) :
    e ∈ design.edges := by
  rw [Design.enabledEdges, List.mem_insertionSort] at h
  exact (List.mem_filter.mp h).1

theorem Design.exists_target (h : e ∈ design.enabledEdges graphId nodeId action facts) :
    ∃ node, design.node? e.toNodeId = some node := by
  obtain ⟨node, hnode, hid⟩ := List.mem_map.mp (design.edges_target e (Design.mem_enabledEdges h))
  exact ⟨node, design.node?_eq_some_iff.mpr ⟨hnode, hid⟩⟩

theorem Design.mem_startNodes :
    node ∈ design.startNodes graphId ↔
      node ∈ design.nodes ∧ node.graphId = graphId ∧ node.kind = .start := by
  rw [Design.startNodes, List.mem_insertionSort, List.mem_filter]
  simp

end Stynx.Flow
