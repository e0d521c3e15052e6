import Stynx.FlowDesign

/-!
# Import and export of a flow graph

`packages/flow/src/internal/design/graph-package.ts`. An import writes the rows of a
new graph with new identifiers in place of node codes, and returns the export of the
graph, which takes the codes back from joins.
-/

namespace Stynx.FlowGraphPackages

open Stynx.Flow

/-- The fields of an item by their names, as JSON texts. -/
abbrev Fields := String → Option String

structure GraphNode where
  code : String
  kind : NodeKind
  fields : Fields

structure GraphEdge where
  fromNodeCode : String
  toNodeCode : String
  action : Option String
  fields : Fields

/-- An agent rule or a form rule. -/
structure GraphRule where
  nodeCode : String
  fields : Fields

/-- `FlowGraphImportDocument` and what an export has of it. -/
structure GraphDocument where
  nodes : List GraphNode
  edges : List GraphEdge
  transitionEffects : List Fields
  agentRules : List GraphRule
  nodeFormRules : List GraphRule

def GraphDocument.codes (document : GraphDocument) : List String :=
  document.nodes.map GraphNode.code

/-- The loop of `validateImport` over the nodes, with the codes that it has seen. -/
def checkNodes : List GraphNode → List String → Except String Unit
  | [], _ => .ok ()
  | node :: rest, seen =>
    if node.code ∈ seen then .error ("Duplicate node code: " ++ node.code)
    else checkNodes rest (node.code :: seen)

def edgeKey (edge : GraphEdge) : String :=
  edge.fromNodeCode ++ ":" ++ edge.action.getD "" ++ ":" ++ edge.toNodeCode

def checkEdges (codes : List String) : List GraphEdge → List String → Except String Unit
  | [], _ => .ok ()
  | edge :: rest, seen =>
    if edge.fromNodeCode ∉ codes ∨ edge.toNodeCode ∉ codes then
      .error "Graph import edge references a missing node code"
    else if edgeKey edge ∈ seen then .error ("Duplicate graph edge: " ++ edgeKey edge)
    else checkEdges codes rest (edgeKey edge :: seen)

def validateImport (document : GraphDocument) : Except String Unit := do
  checkNodes document.nodes []
  if document.nodes.any (·.kind = .start) then checkEdges document.codes document.edges []
  else .error "Graph import requires at least one start node"

structure NodeRow extends GraphNode where
  id : Nat
  graphId : Nat

structure EdgeRow where
  graphId : Nat
  fromNodeId : Nat
  toNodeId : Nat
  action : Option String
  fields : Fields

structure EffectRow where
  graphId : Nat
  fields : Fields

structure RuleRow where
  nodeId : Nat
  fields : Fields

structure Tables where
  nodes : List NodeRow
  edges : List EdgeRow
  transitionEffects : List EffectRow
  agentRules : List RuleRow
  nodeFormRules : List RuleRow

/-- Tables with their keys; every identifier that was given out is below the next one. -/
structure Db extends Tables where
  nextId : Nat
  nodup : (nodes.map NodeRow.id).Nodup
  nodesBelow : ∀ node ∈ nodes, node.id < nextId ∧ node.graphId < nextId
  edgesBelow : ∀ edge ∈ edges, edge.graphId < nextId
  effectsBelow : ∀ effect ∈ transitionEffects, effect.graphId < nextId
  agentsBelow : ∀ rule ∈ agentRules, rule.nodeId < nextId
  formsBelow : ∀ rule ∈ nodeFormRules, rule.nodeId < nextId

/-- The defaults of the columns of each table. -/
structure Defaults where
  nodes : Fields
  edges : Fields
  transitionEffects : Fields
  agentRules : Fields
  nodeFormRules : Fields

/-- The columns of a row: the given fields, and the defaults of the others. -/
def stored (defaults given : Fields) : Fields := fun name => (given name).or (defaults name)

/-- The rows of the new nodes, whose identifiers follow the one of the graph. -/
def nodeRows (defaults : Fields) (graphId : Nat) (nodes : List GraphNode) : List NodeRow :=
  nodes.zipIdx.map fun (node, i) =>
    ⟨{ node with fields := stored defaults node.fields }, graphId + 1 + i, graphId⟩

/-- `nodeIds.get`: the identifier that was set last for the code. -/
def nodeId? (rows : List NodeRow) (code : String) : Option Nat :=
  (rows.reverse.find? (·.code = code)).map NodeRow.id

def edgeRow (defaults : Fields) (graphId : Nat) (rows : List NodeRow) (edge : GraphEdge) :
    Option EdgeRow :=
  (nodeId? rows edge.fromNodeCode).bind fun fromNodeId =>
    (nodeId? rows edge.toNodeCode).map fun toNodeId =>
      ⟨graphId, fromNodeId, toNodeId, edge.action, stored defaults edge.fields⟩

def ruleRow (defaults : Fields) (rows : List NodeRow) (rule : GraphRule) : Option RuleRow :=
  (nodeId? rows rule.nodeCode).map fun nodeId => ⟨nodeId, stored defaults rule.fields⟩

/-- The join with the nodes of a graph. -/
def node? (nodes : List NodeRow) (id : Nat) : Option NodeRow := nodes.find? (·.id = id)

def exportedEdge (nodes : List NodeRow) (edge : EdgeRow) : Option GraphEdge :=
  (node? nodes edge.fromNodeId).bind fun fromNode =>
    (node? nodes edge.toNodeId).map fun toNode =>
      ⟨fromNode.code, toNode.code, edge.action, edge.fields⟩

def exportedRule (nodes : List NodeRow) (graphId : Nat) (rule : RuleRow) : Option GraphRule :=
  ((node? nodes rule.nodeId).filter (·.graphId = graphId)).map fun node =>
    ⟨node.code, rule.fields⟩

def exportGraph (tables : Tables) (graphId : Nat) : GraphDocument where
  nodes := (tables.nodes.filter (·.graphId = graphId)).map (·.toGraphNode)
  edges := (tables.edges.filter (·.graphId = graphId)).filterMap (exportedEdge tables.nodes)
  transitionEffects := (tables.transitionEffects.filter (·.graphId = graphId)).map (·.fields)
  agentRules := tables.agentRules.filterMap (exportedRule tables.nodes graphId)
  nodeFormRules := tables.nodeFormRules.filterMap (exportedRule tables.nodes graphId)

/-- `importGraph`; a reference without an identifier leaves out a column that may not be null. -/
def importGraph (defaults : Defaults) (document : GraphDocument) (db : Db) :
    Except String GraphDocument := do
  validateImport document
  let rows := nodeRows defaults.nodes db.nextId document.nodes
  match document.edges.mapM (edgeRow defaults.edges db.nextId rows),
      document.agentRules.mapM (ruleRow defaults.agentRules rows),
      document.nodeFormRules.mapM (ruleRow defaults.nodeFormRules rows) with
  | some edges, some agents, some forms =>
    let effects := document.transitionEffects.map fun given =>
      ⟨db.nextId, stored defaults.transitionEffects given⟩
    .ok (exportGraph ⟨db.nodes ++ rows, db.edges ++ edges, db.transitionEffects ++ effects,
      db.agentRules ++ agents, db.nodeFormRules ++ forms⟩ db.nextId)
  | _, _, _ => .error "not-null constraint"

/-- The items of a document with all their fields: the given ones, and defaults. -/
def GraphDocument.stored (document : GraphDocument) (defaults : Defaults) : GraphDocument where
  nodes := document.nodes.map fun node =>
    { node with fields := FlowGraphPackages.stored defaults.nodes node.fields }
  edges := document.edges.map fun edge =>
    { edge with fields := FlowGraphPackages.stored defaults.edges edge.fields }
  transitionEffects :=
    document.transitionEffects.map (FlowGraphPackages.stored defaults.transitionEffects)
  agentRules := document.agentRules.map fun rule =>
    { rule with fields := FlowGraphPackages.stored defaults.agentRules rule.fields }
  nodeFormRules := document.nodeFormRules.map fun rule =>
    { rule with fields := FlowGraphPackages.stored defaults.nodeFormRules rule.fields }

/-- Two nodes have one code, none is a start, an edge names a missing node, or two have the same
ends and action. -/
def Faulty (document : GraphDocument) : Prop :=
  ¬ document.codes.Nodup ∨ (∀ node ∈ document.nodes, node.kind ≠ .start) ∨
    (∃ edge ∈ document.edges,
      edge.fromNodeCode ∉ document.codes ∨ edge.toNodeCode ∉ document.codes) ∨
    ¬ (document.edges.map fun edge => (edge.fromNodeCode, edge.action, edge.toNodeCode)).Nodup

/-- An import refuses exactly the faulty documents, and returns the document that it is given. -/
def ImportLaw (defaults : Defaults) (db : Db) (document : GraphDocument) : Prop :=
  ((∃ message, validateImport document = .error message) ↔ Faulty document) ∧
    ∀ exported, importGraph defaults document db = .ok exported →
      exported = document.stored defaults

theorem fresh_cons {α : Type} {f : α → String} {first : α} {rest : List α} {seen : List String} :
    ((first :: rest).map f).Nodup ∧ (∀ x ∈ first :: rest, f x ∉ seen) ↔
      f first ∉ seen ∧ (rest.map f).Nodup ∧ ∀ x ∈ rest, f x ∉ f first :: seen := by
  rw [List.forall_mem_cons]
  simp only [List.map_cons, List.nodup_cons, List.mem_map, not_exists, not_and, List.mem_cons, not_or]
  constructor
  · rintro ⟨⟨hfirst, hrest⟩, hunseen, hlater⟩
    exact ⟨hunseen, hrest, fun x hx => ⟨hfirst x hx, hlater x hx⟩⟩
  · rintro ⟨hunseen, hrest, hlater⟩
    exact ⟨⟨fun x hx => (hlater x hx).1, hrest⟩, hunseen, fun x hx => (hlater x hx).2⟩

theorem checkNodes_ok (nodes : List GraphNode) (seen : List String) :
    checkNodes nodes seen = .ok () ↔
      (nodes.map GraphNode.code).Nodup ∧ ∀ node ∈ nodes, node.code ∉ seen := by
  induction nodes generalizing seen with
  | nil => simp [checkNodes]
  | cons node rest ih =>
    rw [fresh_cons, checkNodes]
    split
    case isTrue hseen => simp [hseen]
    case isFalse hseen => rw [ih, and_iff_right hseen]

theorem checkEdges_ok (codes : List String) (edges : List GraphEdge) (seen : List String) :
    checkEdges codes edges seen = .ok () ↔
      (∀ edge ∈ edges, edge.fromNodeCode ∈ codes ∧ edge.toNodeCode ∈ codes) ∧
        (edges.map edgeKey).Nodup ∧ ∀ edge ∈ edges, edgeKey edge ∉ seen := by
  induction edges generalizing seen with
  | nil => simp [checkEdges]
  | cons edge rest ih =>
    rw [fresh_cons, checkEdges, List.forall_mem_cons]
    split_ifs with hmissing hseen
    · exact iff_of_false (by rintro ⟨⟩) fun h => by tauto
    · exact iff_of_false (by rintro ⟨⟩) fun h => h.2.1 hseen
    · rw [ih, and_iff_right hseen]
      tauto

theorem validateImport_ok (document : GraphDocument) : validateImport document = .ok () ↔
    ¬ Faulty document ∧ (document.edges.map edgeKey).Nodup := by
  have hnodes := checkNodes_ok document.nodes []
  have hedges := checkEdges_ok document.codes document.edges []
  have htriples : (document.edges.map edgeKey).Nodup → (document.edges.map fun edge =>
      (edge.fromNodeCode, edge.action, edge.toNodeCode)).Nodup := fun hkeys =>
    List.Nodup.of_map (fun triple : String × Option String × String =>
      triple.1 ++ ":" ++ triple.2.1.getD "" ++ ":" ++ triple.2.2)
      (by rw [List.map_map]; exact hkeys)
  simp only [List.not_mem_nil, not_false_eq_true, implies_true, and_true] at hnodes hedges
  have hchecks : validateImport document = .ok () ↔ checkNodes document.nodes [] = .ok () ∧
      (∃ node ∈ document.nodes, node.kind = .start) ∧
        checkEdges document.codes document.edges [] = .ok () := by
    have hstart : document.nodes.any (·.kind = .start) = true ↔
        ∃ node ∈ document.nodes, node.kind = .start := by simp
    rw [← hstart, validateImport]
    cases checkNodes document.nodes [] with
    | error message => exact iff_of_false (by rintro ⟨⟩) (fun h => by cases h.1)
    | ok =>
      cases document.nodes.any (·.kind = .start) with
      | false => exact iff_of_false (by rintro ⟨⟩) (fun h => by cases h.2.1)
      | true => exact ⟨fun h => ⟨rfl, rfl, h⟩, fun h => h.2.2⟩
  rw [hchecks, hnodes, hedges, Faulty]
  simp only [not_or, not_not, not_forall, not_exists, not_and, exists_prop]
  rw [GraphDocument.codes]
  tauto

theorem node?_of_mem {rows : List NodeRow} (hids : (rows.map NodeRow.id).Nodup) {row : NodeRow}
    (hrow : row ∈ rows) : node? rows row.id = some row := by
  induction rows with
  | nil => cases hrow
  | cons first rest ih =>
    obtain ⟨hfirst, hrest⟩ := List.nodup_cons.mp hids
    rw [node?, List.find?_cons]
    rcases List.mem_cons.mp hrow with rfl | hlater
    · simp
    · have hne : first.id ≠ row.id := fun heq => hfirst (heq ▸ List.mem_map_of_mem hlater)
      simp only [hne, decide_false]
      exact ih hrest hlater

theorem nodeId?_eq_some {rows : List NodeRow} {code : String} {id : Nat}
    (h : nodeId? rows code = some id) : ∃ row ∈ rows, row.code = code ∧ row.id = id := by
  obtain ⟨row, hfind, hid⟩ := Option.map_eq_some_iff.mp h
  exact ⟨row, List.mem_reverse.mp (List.mem_of_find?_eq_some hfind),
    by simpa using List.find?_some hfind, hid⟩

theorem exists_of_mapM {α β : Type} {write : α → Option β} {items : List α} {rows : List β}
    (hrows : items.mapM write = some rows) {row : β} (hrow : row ∈ rows) :
    ∃ item, write item = some row := by
  induction items generalizing rows with
  | nil => cases hrows; cases hrow
  | cons item rest ih =>
    rw [List.mapM_cons] at hrows
    obtain ⟨first, hfirst, hrows⟩ := Option.bind_eq_some_iff.mp hrows
    obtain ⟨later, hlater, hcons⟩ := Option.bind_eq_some_iff.mp hrows
    cases hcons
    rcases List.mem_cons.mp hrow with rfl | hrow
    · exact ⟨item, hfirst⟩
    · exact ih hlater hrow

theorem filterMap_of_mapM {α β γ : Type} {write : α → Option β} {read : β → Option γ} {f : α → γ}
    (h : ∀ item row, write item = some row → read row = some (f item)) {items : List α}
    {rows : List β} (hrows : items.mapM write = some rows) : rows.filterMap read = items.map f := by
  induction items generalizing rows with
  | nil => cases hrows; rfl
  | cons item rest ih =>
    rw [List.mapM_cons] at hrows
    obtain ⟨row, hrow, hrows⟩ := Option.bind_eq_some_iff.mp hrows
    obtain ⟨later, hlater, hcons⟩ := Option.bind_eq_some_iff.mp hrows
    cases hcons
    rw [List.filterMap_cons_some (h item row hrow), ih hlater, List.map_cons]

variable (db : Db) (defaults : Fields) (nodes : List GraphNode)

theorem mem_nodeRows {row : NodeRow} (h : row ∈ nodeRows defaults db.nextId nodes) :
    row.graphId = db.nextId ∧ db.nextId < row.id := by
  obtain ⟨⟨node, i⟩, -, rfl⟩ := List.mem_map.mp h
  exact ⟨rfl, by dsimp only; omega⟩

theorem nodup_nodeRows :
    ((db.nodes ++ nodeRows defaults db.nextId nodes).map NodeRow.id).Nodup := by
  have hids : (nodeRows defaults db.nextId nodes).map NodeRow.id =
      (nodes.zipIdx.map Prod.snd).map (db.nextId + 1 + ·) := by
    rw [nodeRows, List.map_map, List.map_map]
    rfl
  have hnew : ((nodeRows defaults db.nextId nodes).map NodeRow.id).Nodup := by
    rw [hids, List.zipIdx_map_snd]
    exact .map (fun _ _ heq => Nat.add_left_cancel heq) List.nodup_range'
  rw [List.map_append]
  refine List.nodup_append'.mpr ⟨db.nodup, hnew, fun id hold hlater => ?_⟩
  obtain ⟨old, hmem, rfl⟩ := List.mem_map.mp hold
  obtain ⟨new, hmem', heq⟩ := List.mem_map.mp hlater
  have hbelow := (db.nodesBelow old hmem).1
  have habove := (mem_nodeRows db defaults nodes hmem').2
  omega

theorem exportedEdge_edgeRow {given : Fields} {edge : GraphEdge} {row : EdgeRow}
    (h : edgeRow given db.nextId (nodeRows defaults db.nextId nodes) edge = some row) :
    exportedEdge (db.nodes ++ nodeRows defaults db.nextId nodes) row =
      some { edge with fields := stored given edge.fields } := by
  obtain ⟨fromId, hfrom, hrest⟩ := Option.bind_eq_some_iff.mp h
  obtain ⟨toId, hto, rfl⟩ := Option.map_eq_some_iff.mp hrest
  obtain ⟨fromRow, hmem, hcode, rfl⟩ := nodeId?_eq_some hfrom
  obtain ⟨toRow, hmem', hcode', rfl⟩ := nodeId?_eq_some hto
  have hids := nodup_nodeRows db defaults nodes
  rw [exportedEdge, node?_of_mem hids (List.mem_append_right _ hmem), Option.bind_some,
    node?_of_mem hids (List.mem_append_right _ hmem'), Option.map_some, hcode, hcode']

theorem exportedRule_ruleRow {given : Fields} {rule : GraphRule} {row : RuleRow}
    (h : ruleRow given (nodeRows defaults db.nextId nodes) rule = some row) :
    exportedRule (db.nodes ++ nodeRows defaults db.nextId nodes) db.nextId row =
      some { rule with fields := stored given rule.fields } := by
  obtain ⟨id, hid, rfl⟩ := Option.map_eq_some_iff.mp h
  obtain ⟨node, hmem, hcode, rfl⟩ := nodeId?_eq_some hid
  have hgraph := (mem_nodeRows db defaults nodes hmem).1
  rw [exportedRule, node?_of_mem (nodup_nodeRows db defaults nodes) (List.mem_append_right _ hmem),
    Option.filter_some_pos (by simpa using hgraph), Option.map_some, hcode]

theorem exportedRule_of_lt {rule : RuleRow} (h : rule.nodeId < db.nextId) :
    exportedRule (db.nodes ++ nodeRows defaults db.nextId nodes) db.nextId rule = none := by
  rw [exportedRule, Option.map_eq_none_iff, Option.filter_eq_none_iff]
  intro node hfind hgraph
  have hid : node.id = rule.nodeId := by simpa using List.find?_some hfind
  rcases List.mem_append.mp (List.mem_of_find?_eq_some hfind) with hold | hnew
  · have hbelow := (db.nodesBelow node hold).2
    have : node.graphId = db.nextId := by simpa using hgraph
    omega
  · have habove := (mem_nodeRows db defaults nodes hnew).2
    omega

theorem exportedRules {given : Fields} {rules : List RuleRow}
    (hbelow : ∀ rule ∈ rules, rule.nodeId < db.nextId) {items : List GraphRule}
    {rows : List RuleRow}
    (h : items.mapM (ruleRow given (nodeRows defaults db.nextId nodes)) = some rows) :
    (rules ++ rows).filterMap
        (exportedRule (db.nodes ++ nodeRows defaults db.nextId nodes) db.nextId) =
      items.map fun rule => { rule with fields := stored given rule.fields } := by
  rw [List.filterMap_append, List.filterMap_eq_nil_iff.mpr fun rule hrule =>
    exportedRule_of_lt db defaults nodes (hbelow rule hrule), List.nil_append]
  exact filterMap_of_mapM (fun _ _ hrow => exportedRule_ruleRow db defaults nodes hrow) h

theorem filter_append_graph {α : Type} {graph : α → Nat} {id : Nat} {old new : List α}
    (hold : ∀ row ∈ old, graph row < id) (hnew : ∀ row ∈ new, graph row = id) :
    (old ++ new).filter (fun row => graph row = id) = new := by
  rw [List.filter_append, List.filter_eq_nil_iff.mpr fun row hrow => by simpa using (hold row hrow).ne,
    List.nil_append, List.filter_eq_self.mpr fun row hrow => by simpa using hnew row hrow]

theorem importGraph_stored (defaults : Defaults) (db : Db) (document exported : GraphDocument)
    (h : importGraph defaults document db = .ok exported) :
    exported = document.stored defaults := by
  rw [importGraph] at h
  cases hvalid : validateImport document with
  | error message => rw [hvalid] at h; cases h
  | ok =>
    rw [hvalid] at h
    dsimp only [bind, Except.bind] at h
    split at h
    case h_2 => cases h
    case h_1 edges agents forms hedges hagents hforms =>
      obtain rfl := Except.ok.inj h
      have hedge : ∀ edge ∈ edges, edge.graphId = db.nextId := by
        intro row hrow
        obtain ⟨edge, hedge⟩ := exists_of_mapM hedges hrow
        obtain ⟨fromId, -, hrest⟩ := Option.bind_eq_some_iff.mp hedge
        obtain ⟨toId, -, rfl⟩ := Option.map_eq_some_iff.mp hrest
        rfl
      rw [exportGraph, GraphDocument.stored]
      congr 1
      · rw [filter_append_graph (fun node hnode => (db.nodesBelow node hnode).2)
          fun node hnode => (mem_nodeRows db _ _ hnode).1, nodeRows, List.map_map]
        conv_rhs => rw [← List.zipIdx_map_fst 0 document.nodes, List.map_map]
        rfl
      · rw [filter_append_graph db.edgesBelow hedge]
        exact filterMap_of_mapM (fun _ _ hrow => exportedEdge_edgeRow db _ _ hrow) hedges
      · rw [filter_append_graph db.effectsBelow (by simp), List.map_map]
        rfl
      · exact exportedRules db _ _ db.agentsBelow hagents
      · exact exportedRules db _ _ db.formsBelow hforms

/-- An import keeps the law exactly when the document is faulty or no two of its edges have one key. -/
theorem importLaw_iff (defaults : Defaults) (db : Db) (document : GraphDocument) :
    ImportLaw defaults db document ↔ Faulty document ∨ (document.edges.map edgeKey).Nodup := by
  have hrefuses : (∃ message, validateImport document = .error message) ↔
      ¬ validateImport document = .ok () := by
    cases validateImport document with
    | error message => simp
    | ok => simp
  rw [ImportLaw, and_iff_left (importGraph_stored defaults db document), hrefuses,
    validateImport_ok]
  by_cases hfaulty : Faulty document <;> simp [hfaulty]

def noFields : Fields := fun _ => none

def noDefaults : Defaults := ⟨noFields, noFields, noFields, noFields, noFields⟩

def emptyDb : Db where
  nodes := []
  edges := []
  transitionEffects := []
  agentRules := []
  nodeFormRules := []
  nextId := 0
  nodup := List.nodup_nil
  nodesBelow _ h := by cases h
  edgesBelow _ h := by cases h
  effectsBelow _ h := by cases h
  agentsBelow _ h := by cases h
  formsBelow _ h := by cases h

def colons : GraphDocument where
  nodes := [⟨"a", .start, noFields⟩, ⟨"a:b", .human, noFields⟩, ⟨"d", .end_, noFields⟩]
  edges := [⟨"a", "d", some "b:c", noFields⟩, ⟨"a:b", "d", some "c", noFields⟩]
  transitionEffects := []
  agentRules := []
  nodeFormRules := []

/-- Two different edges with one key are taken for duplicates. -/
theorem colons_refused : ¬ ∀ document, ImportLaw noDefaults emptyDb document := by
  intro h
  rcases (h colons).1.mp ⟨_, rfl⟩ with hcodes | hstart | ⟨edge, hedge, hmissing⟩ | htriples
  · exact hcodes (by decide)
  · exact hstart _ (.head _) rfl
  · simp [colons] at hedge
    rcases hedge with rfl | rfl <;> simp [GraphDocument.codes, colons] at hmissing
  · exact htriples (by decide)

end Stynx.FlowGraphPackages
