import Mathlib.Data.List.Sort
import Stynx.CallTables
import Stynx.OrderedMap
import Stynx.TransitionRuns

/-!
# Dispatch of flow effects

`packages/flow/src/internal/runtime/effect-dispatch.ts`: `dispatchPendingEffects`
selects the requested effects without a terminal event in one transaction, then
applies them one after the other through the adapter of their run and records
each outcome in a transaction of its own.
-/

namespace Stynx.FlowEffectDispatch

open TransitionRuns CallTables

inductive FlowJson where
  | null
  | bool (value : Bool)
  | number (text : String)
  | string (text : String)
  | array (items : List FlowJson)
  | object (members : List (String × FlowJson))

abbrev FlowJsonObject := List (String × FlowJson)

/-- `asJsonObject`: anything but an object counts as the empty object. -/
def asJsonObject : FlowJson → FlowJsonObject
  | .object members => members
  | _ => []

def optionalString : Option FlowJson → Option String
  | some (.string text) => if text = "" then none else some text
  | _ => none

inductive EventKind where
  | effectRequested
  | effectSucceeded
  | effectFailed
  | other (name : String)
  deriving DecidableEq

/-- Whether events of a kind end an effect. -/
def EventKind.terminal : EventKind → Bool
  | .effectSucceeded => true
  | .effectFailed => true
  | _ => false

structure FlowEvent where
  id : String
  tenantId : String
  runId : String
  nodeId : Option String
  taskId : Option String
  kind : EventKind
  actorId : Option String
  payload : FlowJson
  createdAt : Nat

structure FlowRun where
  adapterKey : String
  targetType : String
  targetId : String

structure PendingEffectRow where
  eventId : String
  runId : String
  nodeId : Option String
  taskId : Option String
  payload : FlowJson
  run : FlowRun
  nodeCode : Option String
  /-- The action that its task was decided with. -/
  action : Option String

def PendingEffectRow.effectKey (row : PendingEffectRow) : Option String :=
  optionalString ((asJsonObject row.payload).lookup "effectKey")

structure DispatchEffects where
  runId : Option String := none
  effectEventId : Option String := none
  limit : Option Nat := none
  /-- The schema allows one to a hundred. -/
  limitBounds : ∀ n ∈ limit, 0 < n ∧ n ≤ 100

structure FlowEffectInput where
  tenantId : String
  run : FlowRun
  runId : String
  effectKey : String
  nodeCode : Option String
  action : Option String
  payload : FlowJsonObject

structure FlowEffectResult where
  ok : Bool
  payload : Option FlowJsonObject := none

/-- An entry of `diagnostics`; an entry without an error is `ok`. -/
structure Diagnostic where
  effectEventId : String
  error : Option String

/-- The counters of a dispatch. -/
structure Progress where
  attempted : Nat
  succeeded : Nat := 0
  failed : Nat := 0
  diagnostics : List Diagnostic := []

/-- The outcome of an effect that is to be recorded. -/
inductive Outcome where
  | succeeded (effectKey : String) (result : FlowEffectResult)
  | failed (effectKey : Option String) (error : String)

def Outcome.kind : Outcome → EventKind
  | .succeeded _ _ => .effectSucceeded
  | .failed _ _ => .effectFailed

/-- What goes wrong in an outcome. -/
def Outcome.error : Outcome → Option String
  | .succeeded _ _ => none
  | .failed _ error => some error

def Outcome.payload (effectEventId : String) : Outcome → FlowJsonObject
  | .succeeded effectKey result =>
    [("effectEventId", .string effectEventId), ("effectKey", .string effectKey),
      ("ok", .bool result.ok)] ++
      (result.payload.map fun payload => ("result", FlowJson.object payload)).toList
  | .failed (some effectKey) error =>
    [("effectEventId", .string effectEventId), ("effectKey", .string effectKey),
      ("error", .string error)]
  | .failed none error => [("error", .string error), ("effectEventId", .string effectEventId)]

/-- How far a dispatch has come: what it does next. -/
inductive Phase where
  /-- It selects the pending effects. -/
  | list (input : DispatchEffects)
  | apply (row : PendingEffectRow) (effectKey : String) (rest : List PendingEffectRow)
      (progress : Progress)
  | record (row : PendingEffectRow) (outcome : Outcome) (rest : List PendingEffectRow)
      (progress : Progress)
  /-- It has returned, or thrown. -/
  | ended (result : Option Progress)

/-- The rows that a dispatch has selected and not yet recorded. -/
def Phase.rows : Phase → List PendingEffectRow
  | .apply row _ rest _ => row :: rest
  | .record row _ rest _ => row :: rest
  | _ => []

def Phase.recording : Phase → Option PendingEffectRow
  | .record row _ _ _ => some row
  | _ => none

/-- A call of `dispatchPendingEffects`. -/
structure Dispatch where
  tenantId : String
  actorId : String
  phase : Phase

def Dispatch.held (call : Dispatch) : List String := call.phase.rows.map PendingEffectRow.eventId

def next (rows : List PendingEffectRow) (progress : Progress) : Phase :=
  match rows with
  | [] => .ended (some progress)
  | row :: rest =>
    match row.effectKey with
    | some effectKey => .apply row effectKey rest progress
    | none => .record row (.failed none "effectKey is required") rest
        { progress with failed := progress.failed + 1 }

/-- The tables, the dispatches under way, and each call of an adapter so far. -/
structure Flow where
  events : List FlowEvent
  runs : OrderedMap String FlowRun
  nodeCodes : OrderedMap String String
  /-- The decided actions of `flow.tasks`. -/
  decidedActions : OrderedMap String String
  adapters : List String
  calls : List Dispatch
  /-- Each `applyEffect` of an adapter, with the event that it was called for. -/
  applied : List (String × FlowEffectInput)

def effectEventId (event : FlowEvent) : Option String :=
  match (asJsonObject event.payload).lookup "effectEventId" with
  | some (.string text) => some text
  | _ => none

def ends (terminal event : FlowEvent) : Bool :=
  terminal.tenantId == event.tenantId && terminal.runId == event.runId &&
    terminal.kind.terminal && effectEventId terminal == some event.id

def terminals (s : Flow) (event : FlowEvent) : List FlowEvent :=
  s.events.filter fun terminal => ends terminal event

def selects (s : Flow) (tenantId : String) (input : DispatchEffects) (event : FlowEvent) : Bool :=
  event.tenantId == tenantId && event.kind == .effectRequested &&
    (input.runId.all fun runId => event.runId == runId) &&
    (input.effectEventId.all fun id => event.id == id) && (terminals s event).isEmpty

/-- `order by e.created_at, e.id`. -/
def before (first second : FlowEvent) : Prop :=
  first.createdAt < second.createdAt ∨ first.createdAt = second.createdAt ∧ first.id ≤ second.id

instance : DecidableRel before := fun _ _ => inferInstanceAs (Decidable (_ ∨ _))

def rowOf (s : Flow) (event : FlowEvent) : Option PendingEffectRow :=
  (s.runs.get? event.runId).map fun run => {
    eventId := event.id, runId := event.runId, nodeId := event.nodeId, taskId := event.taskId
    payload := event.payload, run
    nodeCode := event.nodeId.bind s.nodeCodes.get?
    action := event.taskId.bind s.decidedActions.get? }

def pendingRows (s : Flow) (tenantId : String) (input : DispatchEffects) : List PendingEffectRow :=
  (((s.events.filter (selects s tenantId input)).insertionSort before).filterMap (rowOf s)).take
    (input.limit.getD 50)

/-- What an adapter is given for a row. -/
def effectInput (tenantId effectKey : String) (row : PendingEffectRow) : FlowEffectInput where
  tenantId := tenantId
  run := row.run
  runId := row.runId
  effectKey := effectKey
  nodeCode := row.nodeCode.filter (· ≠ "")
  action := row.action.filter (· ≠ "")
  payload := asJsonObject (((asJsonObject row.payload).lookup "payload").getD .null)

def resultEvent (call : Dispatch) (row : PendingEffectRow) (outcome : Outcome) (id : String)
    (createdAt : Nat) : FlowEvent where
  id := id
  tenantId := call.tenantId
  runId := row.runId
  nodeId := row.nodeId
  taskId := row.taskId
  kind := outcome.kind
  actorId := some call.actorId
  payload := .object (outcome.payload row.eventId)
  createdAt := createdAt

/-- What happens to the flow store. -/
inductive Label where
  /-- `dispatchPendingEffects` is called. -/
  | dispatch (tenantId actorId : String) (input : DispatchEffects)
  /-- It selects the pending effects. -/
  | list (index : Nat)
  /-- It applies an effect: the adapter answers, or something throws. -/
  | applyEffect (index : Nat) (answer : Except String FlowEffectResult)
  /-- The transaction that records an outcome commits. -/
  | record (index : Nat) (id : String) (createdAt : Nat)
  /-- It fails, before its commit or, with the event that it adds, after it. -/
  | recordFails (index : Nat) (message : String) (committed : Option (String × Nat))
  | stop (index : Nat)
  /-- Another operation adds an event. -/
  | append (event : FlowEvent)
  | change (runs : OrderedMap String FlowRun) (nodeCodes decidedActions : OrderedMap String String)

def callTo (s : Flow) (index : Nat) (call : Dispatch) (phase : Phase) : Flow :=
  { s with calls := s.calls.set index { call with phase := phase } }

def addEvent (s : Flow) (event : FlowEvent) : Flow := { s with events := s.events ++ [event] }

/-- After a failed record: a success is recorded as a failure, a failure throws. -/
def afterFailure (row : PendingEffectRow) (outcome : Outcome) (rest : List PendingEffectRow)
    (progress : Progress) (message : String) : Phase :=
  match outcome with
  | .succeeded effectKey _ => .record row (.failed (some effectKey) message) rest
      { progress with failed := progress.failed + 1 }
  | .failed _ _ => .ended none

def afterRecord (row : PendingEffectRow) (outcome : Outcome) (rest : List PendingEffectRow)
    (progress : Progress) : Phase :=
  next rest { progress with diagnostics := progress.diagnostics ++ [⟨row.eventId, outcome.error⟩] }

def afterApply (row : PendingEffectRow) (effectKey : String) (rest : List PendingEffectRow)
    (progress : Progress) : Except String FlowEffectResult → Phase
  | .ok result => .record row (.succeeded effectKey result) rest
      { progress with succeeded := progress.succeeded + 1 }
  | .error message => .record row (.failed (some effectKey) message) rest
      { progress with failed := progress.failed + 1 }

def callStep (s : Flow) (index : Nat) (call : Dispatch) : Label → Option Flow
  | .list _ =>
    match call.phase with
    | .list input =>
      let rows := pendingRows s call.tenantId input
      some (callTo s index call (next rows { attempted := rows.length }))
    | _ => none
  | .applyEffect _ answer =>
    match call.phase with
    | .apply row effectKey rest progress =>
      let s' := callTo s index call (afterApply row effectKey rest progress answer)
      if row.run.adapterKey ∈ s.adapters then
        some { s' with
          applied := s.applied ++ [(row.eventId, effectInput call.tenantId effectKey row)] }
      -- without an adapter the registry throws
      else if answer.isOk then none
      else some s'
    | _ => none
  | .record _ id createdAt =>
    match call.phase with
    | .record row outcome rest progress =>
      if id ∈ s.events.map FlowEvent.id then none
      else some (callTo (addEvent s (resultEvent call row outcome id createdAt)) index call
        (afterRecord row outcome rest progress))
    | _ => none
  | .recordFails _ message committed =>
    match call.phase with
    | .record row outcome rest progress =>
      match committed with
      | none => some (callTo s index call (afterFailure row outcome rest progress message))
      | some (id, createdAt) =>
        if id ∈ s.events.map FlowEvent.id then none
        else some (callTo (addEvent s (resultEvent call row outcome id createdAt)) index call
          (afterFailure row outcome rest progress message))
    | _ => none
  | .stop _ =>
    match call.phase with
    | .ended _ => none
    | _ => some (callTo s index call (.ended none))
  | _ => none

/-- The dispatch that a label is a step of. -/
def Label.call : Label → Option Nat
  | .list index => some index
  | .applyEffect index _ => some index
  | .record index _ _ => some index
  | .recordFails index _ _ => some index
  | .stop index => some index
  | _ => none

/-- One step over the flow store. -/
def step (s : Flow) (label : Label) : Option Flow :=
  match label.call with
  | some index => s.calls[index]?.bind fun call => callStep s index call label
  | none =>
    match label with
    | .dispatch tenantId actorId input =>
      some { s with calls := s.calls ++ [⟨tenantId, actorId, .list input⟩] }
    | .append event =>
      if event.id ∈ s.events.map FlowEvent.id ∨ event.kind.terminal then none
      else some (addEvent s event)
    | .change runs nodeCodes decidedActions => some { s with runs, nodeCodes, decidedActions }
    | _ => none

/-- The tables before the first dispatch. -/
structure Store where
  events : List FlowEvent
  runs : OrderedMap String FlowRun
  nodeCodes : OrderedMap String String := .empty
  /-- The decided actions of `flow.tasks`. -/
  decidedActions : OrderedMap String String := .empty
  adapters : List String
  /-- The primary key. -/
  ids : (events.map FlowEvent.id).Nodup
  /-- No effect has two terminal events. -/
  ended : ∀ event ∈ events, event.kind = .effectRequested →
    (events.filter fun terminal => ends terminal event).length ≤ 1
  named : ∀ terminal ∈ events, terminal.kind.terminal → ∀ id ∈ effectEventId terminal,
    id ∈ events.map FlowEvent.id

/-- The flow store before the first dispatch. -/
def start (store : Store) : Flow where
  events := store.events
  runs := store.runs
  nodeCodes := store.nodeCodes
  decidedActions := store.decidedActions
  adapters := store.adapters
  calls := []
  applied := []

/-- A dispatch selects no event that another dispatch holds. -/
def ListsUnheld (s : Flow) (label : Label) : Prop :=
  match label with
  | .list index =>
    ∀ call ∈ s.calls[index]?,
      match call.phase with
      | .list input =>
        ∀ row ∈ pendingRows s call.tenantId input, ∀ other ∈ s.calls, row.eventId ∉ other.held
      | _ => True
  | _ => True

/-- No dispatch stops before it records, no record of a success fails after its commit, and no
record of a failure fails before it. -/
def KeepsOutcome (s : Flow) (label : Label) : Prop :=
  match label with
  | .recordFails index _ committed =>
    ∀ call ∈ s.calls[index]?,
      match call.phase with
      | .record _ (.succeeded _ _) _ _ => committed = none
      | .record row (.failed _ _) _ _ =>
        committed ≠ none ∨ row.eventId ∉ s.applied.map Prod.fst
      | _ => True
  | .stop index =>
    ∀ call ∈ s.calls[index]?, ∀ row ∈ call.phase.recording, row.eventId ∉ s.applied.map Prod.fst
  | _ => True

instance (s : Flow) (call : Dispatch) : Decidable (match call.phase with
    | .list input =>
      ∀ row ∈ pendingRows s call.tenantId input, ∀ other ∈ s.calls, row.eventId ∉ other.held
    | _ => True) := by
  split <;> infer_instance

instance (s : Flow) (call : Dispatch) (committed : Option (String × Nat)) :
    Decidable (match call.phase with
      | .record _ (.succeeded _ _) _ _ => committed = none
      | .record row (.failed _ _) _ _ =>
        committed ≠ none ∨ row.eventId ∉ s.applied.map Prod.fst
      | _ => True) := by
  split <;> infer_instance

instance (s : Flow) (label : Label) : Decidable (ListsUnheld s label) := by
  unfold ListsUnheld
  split <;> infer_instance

instance (s : Flow) (label : Label) : Decidable (KeepsOutcome s label) := by
  unfold KeepsOutcome
  split <;> infer_instance

/-- What a step that keeps outcomes can do. -/
inductive Effect (s : Flow) : Label → Flow → Prop where
  /-- A dispatch selects its rows. -/
  | listed (index : Nat) (call : Dispatch) (input : DispatchEffects) (phase : Phase)
      (called : s.calls[index]? = some call) (listing : call.phase = .list input)
      (rows : phase.rows = pendingRows s call.tenantId input) :
      Effect s (.list index) (callTo s index call phase)
  | applied (label : Label) (index : Nat) (call : Dispatch) (row : PendingEffectRow)
      (effectKey : String) (rest : List PendingEffectRow) (progress : Progress) (phase : Phase)
      (input : FlowEffectInput) (called : s.calls[index]? = some call)
      (applying : call.phase = .apply row effectKey rest progress)
      (rows : phase.rows = row :: rest) (recording : phase.recording = some row) :
      Effect s label { callTo s index call phase with applied := s.applied ++ [(row.eventId, input)] }
  /-- A dispatch goes on with its rows, and records what it has been recording. -/
  | moved (label : Label) (index : Nat) (call : Dispatch) (phase : Phase)
      (called : s.calls[index]? = some call) (rows : phase.rows = call.phase.rows)
      (recording : call.phase.recording = none ∨ phase.recording = call.phase.recording) :
      Effect s label (callTo s index call phase)
  | recorded (label : Label) (index : Nat) (call : Dispatch) (row : PendingEffectRow)
      (outcome : Outcome) (rest : List PendingEffectRow) (progress : Progress) (id : String)
      (createdAt : Nat) (phase : Phase) (called : s.calls[index]? = some call)
      (recording : call.phase = .record row outcome rest progress)
      (fresh : id ∉ s.events.map FlowEvent.id) (rows : List.Sublist phase.rows rest) :
      Effect s label
        (callTo (addEvent s (resultEvent call row outcome id createdAt)) index call phase)
  /-- A dispatch ends without an outcome to be recorded. -/
  | released (label : Label) (index : Nat) (call : Dispatch)
      (called : s.calls[index]? = some call)
      (unapplied : ∀ row, call.phase.recording = some row → row.eventId ∉ s.applied.map Prod.fst) :
      Effect s label (callTo s index call (.ended none))
  | called (tenantId actorId : String) (input : DispatchEffects) :
      Effect s (.dispatch tenantId actorId input)
        { s with calls := s.calls ++ [⟨tenantId, actorId, .list input⟩] }
  /-- Another operation adds an event. -/
  | appended (event : FlowEvent) (fresh : event.id ∉ s.events.map FlowEvent.id)
      (open_ : event.kind.terminal = false) : Effect s (.append event) (addEvent s event)
  /-- Other tables change. -/
  | changed (label : Label) (t : Flow) (events : t.events = s.events) (calls : t.calls = s.calls)
      (applied : t.applied = s.applied) : Effect s label t

variable {s t : Flow} {label : Label}

@[simp] theorem rows_next (rows : List PendingEffectRow) (progress : Progress) :
    (next rows progress).rows = rows := by
  cases rows with
  | nil => rfl
  | cons row rest =>
    unfold next
    dsimp only
    split <;> rfl

theorem rows_afterApply (row : PendingEffectRow) (effectKey : String)
    (rest : List PendingEffectRow) (progress : Progress)
    (answer : Except String FlowEffectResult) :
    (afterApply row effectKey rest progress answer).rows = row :: rest ∧
      (afterApply row effectKey rest progress answer).recording = some row := by
  cases answer <;> exact ⟨rfl, rfl⟩

variable {index : Nat} {call : Dispatch} {event : FlowEvent} {row : PendingEffectRow}
  {phase : Phase}

theorem effect_of_callStep (hown : label.call = some index) (hcall : s.calls[index]? = some call)
    (hkeeps : KeepsOutcome s label) (h : callStep s index call label = some t) :
    Effect s label t := by
  cases label with
  | list =>
    cases hown
    simp only [callStep] at h
    split at h
    case h_1 input hphase =>
      cases h
      exact .listed index call input _ hcall hphase (rows_next _ _)
    case h_2 => cases h
  | applyEffect _ answer =>
    cases hown
    simp only [callStep] at h
    split at h
    case h_1 row effectKey rest progress hphase =>
      obtain ⟨hrows, hrecording⟩ := rows_afterApply row effectKey rest progress answer
      split at h
      · cases h
        exact .applied _ index call row effectKey rest progress _ _ hcall hphase hrows hrecording
      · split at h
        · cases h
        · cases h
          refine .moved _ index call _ hcall ?_ (.inl ?_)
          · rw [hrows, hphase]
            rfl
          · rw [hphase]
            rfl
    case h_2 => cases h
  | record _ id createdAt =>
    cases hown
    simp only [callStep] at h
    split at h
    case h_1 row outcome rest progress hphase =>
      split at h
      · cases h
      · rename_i hfresh
        cases h
        refine .recorded _ index call row outcome rest progress id createdAt _ hcall hphase
          hfresh ?_
        rw [afterRecord, rows_next]
    case h_2 => cases h
  | recordFails _ message committed =>
    cases hown
    simp only [callStep] at h
    split at h
    case h_1 row outcome rest progress hphase =>
      have hkeeps := hkeeps call hcall
      rw [hphase] at hkeeps
      cases committed with
      | none =>
        cases h
        cases outcome with
        | succeeded effectKey result =>
          refine .moved _ index call _ hcall ?_ (.inr ?_)
          · rw [hphase]
            rfl
          · rw [hphase]
            rfl
        | failed effectKey error =>
          refine .released _ index call hcall fun found hfound => ?_
          rw [hphase] at hfound
          cases hfound
          exact hkeeps.resolve_left fun hne => hne rfl
      | some added =>
        dsimp only at h
        split at h
        · cases h
        · rename_i hfresh
          cases h
          cases outcome with
          | succeeded effectKey result => cases hkeeps
          | failed effectKey error =>
            exact .recorded _ index call row _ rest progress added.1 added.2 _ hcall hphase
              hfresh (List.nil_sublist _)
    case h_2 => cases h
  | stop =>
    cases hown
    simp only [callStep] at h
    split at h
    case h_1 => cases h
    case h_2 =>
      cases h
      exact .released _ index call hcall (hkeeps call hcall)
  | dispatch => cases hown
  | append => cases hown
  | change => cases hown

theorem effect_of_step (hkeeps : KeepsOutcome s label) (h : step s label = some t) :
    Effect s label t := by
  unfold step at h
  cases hown : label.call with
  | some index =>
    rw [hown] at h
    obtain ⟨call, hcall, h⟩ := Option.bind_eq_some_iff.mp h
    exact effect_of_callStep hown hcall hkeeps h
  | none =>
    rw [hown] at h
    cases label with
    | dispatch tenantId actorId input =>
      cases h
      exact .called tenantId actorId input
    | append event =>
      dsimp only at h
      split at h
      · cases h
      · rename_i hok
        cases h
        obtain ⟨hfresh, hopen⟩ := not_or.mp hok
        exact .appended event hfresh (Bool.eq_false_iff.mpr hopen)
    | change runs nodeCodes decidedActions =>
      cases h
      exact .changed _ _ rfl rfl rfl
    | list => cases hown
    | applyEffect => cases hown
    | record => cases hown
    | recordFails => cases hown
    | stop => cases hown

section

variable (call : Dispatch) (row : PendingEffectRow) (outcome : Outcome) (id : String)
  (createdAt : Nat)

theorem effectEventId_resultEvent :
    effectEventId (resultEvent call row outcome id createdAt) = some row.eventId := by
  cases outcome with
  | succeeded effectKey result => rfl
  | failed effectKey error => cases effectKey <;> rfl

theorem kind_resultEvent : (resultEvent call row outcome id createdAt).kind.terminal = true := by
  cases outcome <;> rfl

end

theorem terminals_addEvent (s : Flow) (added event : FlowEvent) :
    terminals (addEvent s added) event =
      terminals s event ++ if ends added event then [added] else [] := by
  rw [terminals, addEvent, List.filter_append, List.filter_singleton]
  cases ends added event <;> rfl

theorem id_of_ends {terminal : FlowEvent} (h : ends terminal event = true) :
    terminal.kind.terminal = true ∧ effectEventId terminal = some event.id := by
  simp only [ends, Bool.and_eq_true, beq_iff_eq] at h
  exact ⟨h.1.2, h.2⟩

/-- What a dispatch holds: an event of its tenant without a terminal event. -/
def Pending (s : Flow) (tenantId : String) (row : PendingEffectRow) : Prop :=
  ∃ event ∈ s.events, event.id = row.eventId ∧ event.tenantId = tenantId ∧
    event.runId = row.runId ∧ event.kind = .effectRequested ∧ terminals s event = []

theorem ends_resultEvent (outcome : Outcome) (id : String) (createdAt : Nat)
    (hid : event.id = row.eventId) (htenant : event.tenantId = call.tenantId)
    (hrun : event.runId = row.runId) :
    ends (resultEvent call row outcome id createdAt) event = true := by
  simp only [ends, Bool.and_eq_true, beq_iff_eq]
  exact ⟨⟨⟨htenant.symm, hrun.symm⟩, kind_resultEvent call row outcome id createdAt⟩,
    (effectEventId_resultEvent call row outcome id createdAt).trans (congrArg some hid.symm)⟩

theorem pending_of_mem_pendingRows {tenantId : String} {input : DispatchEffects}
    (h : row ∈ pendingRows s tenantId input) : Pending s tenantId row := by
  obtain ⟨event, hevent, hrow⟩ := List.mem_filterMap.mp (List.mem_of_mem_take h)
  obtain ⟨hmem, hselects⟩ := List.mem_filter.mp ((List.mem_insertionSort before).mp hevent)
  obtain ⟨run, -, rfl⟩ := Option.map_eq_some_iff.mp hrow
  simp only [selects, Bool.and_eq_true, beq_iff_eq, List.isEmpty_iff] at hselects
  obtain ⟨⟨⟨⟨htenant, hkind⟩, -⟩, -⟩, hnone⟩ := hselects
  exact ⟨event, hmem, rfl, htenant, rfl, hkind, hnone⟩

theorem nodup_pendingRows (h : (s.events.map FlowEvent.id).Nodup) (tenantId : String)
    (input : DispatchEffects) :
    ((pendingRows s tenantId input).map PendingEffectRow.eventId).Nodup := by
  have hsorted : ((((s.events.filter (selects s tenantId input)).insertionSort before)).map
      FlowEvent.id).Nodup := by
    refine ((List.perm_insertionSort before _).map FlowEvent.id).nodup_iff.mpr ?_
    exact h.sublist (List.filter_sublist.map _)
  refine hsorted.sublist ?_
  refine ((List.take_sublist _ _).map PendingEffectRow.eventId).trans ?_
  -- the join drops events and keeps the identifier of the others
  induction (s.events.filter (selects s tenantId input)).insertionSort before with
  | nil => exact List.Sublist.refl _
  | cons event rest ih =>
    rw [List.filterMap_cons]
    cases hrow : rowOf s event with
    | none => exact ih.trans (List.sublist_cons_self _ _)
    | some row =>
      obtain ⟨run, -, rfl⟩ := Option.map_eq_some_iff.mp hrow
      exact ih.cons_cons event.id

def Recording (calls : List Dispatch) (id : String) : Prop :=
  ∃ (i : Nat) (call : Dispatch) (row : PendingEffectRow), calls[i]? = some call ∧
    call.phase.recording = some row ∧ row.eventId = id

/-- Events, dispatches and calls of adapters. -/
structure Delivery (s : Flow) : Prop where
  /-- The primary key. -/
  ids : (s.events.map FlowEvent.id).Nodup
  named : ∀ terminal ∈ s.events, terminal.kind.terminal → ∀ id ∈ effectEventId terminal,
    id ∈ s.events.map FlowEvent.id
  ended : ∀ event ∈ s.events, event.kind = .effectRequested → (terminals s event).length ≤ 1
  pending : ∀ (i : Nat) call row, s.calls[i]? = some call → row ∈ call.phase.rows →
    Pending s call.tenantId row
  exclusive : Exclusive Dispatch.held s.calls
  /-- No adapter has been called twice for an event. -/
  once : (s.applied.map Prod.fst).Nodup
  /-- An event that an adapter has been called for has a terminal event, or is to have one. -/
  kept : ∀ id ∈ s.applied.map Prod.fst, ∃ event ∈ s.events, event.id = id ∧
    event.kind = .effectRequested ∧ (terminals s event = [] → Recording s.calls id)

theorem delivery_start (store : Store) : Delivery (start store) where
  ids := store.ids
  named := store.named
  ended := store.ended
  pending i call row hcall := by cases hcall
  exclusive := Exclusive.nil
  once := List.nodup_nil
  kept id hid := by cases hid

variable {id : String} {added : FlowEvent} {rest : List PendingEffectRow} {progress : Progress}

theorem Recording.set {calls : List Dispatch} (h : Recording calls id) {after : Dispatch}
    (hcall : calls[index]? = some call)
    (hsame : ∀ row, call.phase.recording = some row → row.eventId = id →
      after.phase.recording = some row) : Recording (calls.set index after) id := by
  obtain ⟨i, found, row, hfound, hrecording, hid⟩ := h
  by_cases hi : index = i
  · subst hi
    rw [hcall] at hfound
    cases hfound
    have hlt : index < calls.length := (List.getElem?_eq_some_iff.mp hcall).1
    exact ⟨index, after, row, List.getElem?_set_self hlt, hsame row hrecording hid, hid⟩
  · exact ⟨i, found, row, (List.getElem?_set_ne hi).trans hfound, hrecording, hid⟩

theorem Delivery.callTo (h : Delivery s) (hcall : s.calls[index]? = some call)
    (hpending : ∀ row ∈ phase.rows, Pending s call.tenantId row)
    (hexclusive : Exclusive Dispatch.held (s.calls.set index { call with phase := phase }))
    (hsame : ∀ row, call.phase.recording = some row → row.eventId ∈ s.applied.map Prod.fst →
      phase.recording = some row) : Delivery (callTo s index call phase) where
  ids := h.ids
  named := h.named
  ended := h.ended
  pending i found row hfound hrow := by
    rcases getElem?_set_cases hfound with ⟨-, rfl⟩ | ⟨-, hold⟩
    · exact hpending row hrow
    · exact h.pending i found row hold hrow
  exclusive := hexclusive
  once := h.once
  kept id hid := by
    obtain ⟨event, hmem, hevent, hkind, hrecording⟩ := h.kept id hid
    refine ⟨event, hmem, hevent, hkind, fun hnone => (hrecording hnone).set hcall ?_⟩
    intro row hrow heq
    exact hsame row hrow (heq ▸ hid)

theorem Delivery.event_eq (h : Delivery s) {one two : FlowEvent} (hone : one ∈ s.events)
    (htwo : two ∈ s.events) (hid : one.id = two.id) : one = two :=
  List.inj_on_of_nodup_map h.ids hone htwo hid

theorem Delivery.not_applied (h : Delivery s) (hcall : s.calls[index]? = some call)
    (hrow : row ∈ call.phase.rows) (hnone : call.phase.recording = none) :
    row.eventId ∉ s.applied.map Prod.fst := by
  intro happlied
  obtain ⟨event, hmem, hid, -, -, -, hpending⟩ := h.pending index call row hcall hrow
  obtain ⟨event', hmem', hid', -, hrecording⟩ := h.kept row.eventId happlied
  have hsame : event' = event := h.event_eq hmem' hmem (hid'.trans hid.symm)
  subst hsame
  obtain ⟨j, other, recorded, hother, hrecorded, heq⟩ := hrecording hpending
  -- the dispatch that records the event holds it, so it is this one
  have hheld : row.eventId ∈ other.held := by
    rw [← heq]
    refine List.mem_map_of_mem ?_
    cases hphase : other.phase with
    | record found outcome rest progress =>
      rw [hphase] at hrecorded
      cases hrecorded
      exact .head _
    | list input => rw [hphase] at hrecorded; cases hrecorded
    | apply found effectKey rest progress => rw [hphase] at hrecorded; cases hrecorded
    | ended result => rw [hphase] at hrecorded; cases hrecorded
  have hindex : index = j := h.exclusive.apart index j call other row.eventId hcall hother
    (List.mem_map_of_mem hrow) hheld
  subst hindex
  rw [hcall] at hother
  cases hother
  rw [hnone] at hrecorded
  cases hrecorded

theorem nodup_addEvent (h : (s.events.map FlowEvent.id).Nodup)
    (hfresh : added.id ∉ s.events.map FlowEvent.id) :
    ((addEvent s added).events.map FlowEvent.id).Nodup := by
  rw [addEvent, List.map_append, List.map_singleton, ← List.concat_eq_append]
  exact h.concat hfresh

theorem terminals_addEvent_of_ne (h : effectEventId added ≠ some event.id) :
    terminals (addEvent s added) event = terminals s event := by
  rw [terminals_addEvent, if_neg fun hends => h (id_of_ends hends).2, List.append_nil]

theorem Delivery.recorded (h : Delivery s) {outcome : Outcome} {createdAt : Nat}
    (hcall : s.calls[index]? = some call) (hphase : call.phase = .record row outcome rest progress)
    (hfresh : id ∉ s.events.map FlowEvent.id) (hrows : List.Sublist phase.rows rest) :
    Delivery (FlowEffectDispatch.callTo (addEvent s (resultEvent call row outcome id createdAt))
      index call phase) := by
  have hheld : call.phase.rows = row :: rest := by rw [hphase]; rfl
  have hrow : row ∈ call.phase.rows := hheld ▸ (.head _)
  obtain ⟨target, htarget, hid, htenant, hrun, hkind, hnone⟩ := h.pending index call row hcall hrow
  have hnames := effectEventId_resultEvent call row outcome id createdAt
  have hother : ∀ event : FlowEvent, event.id ≠ row.eventId →
      terminals (addEvent s (resultEvent call row outcome id createdAt)) event =
        terminals s event := by
    intro event hne
    refine terminals_addEvent_of_ne fun heq => hne ?_
    rw [hnames] at heq
    exact (Option.some.inj heq).symm
  have hpending : ∀ (tenantId : String) (found : PendingEffectRow), found.eventId ≠ row.eventId →
      Pending s tenantId found →
      Pending (addEvent s (resultEvent call row outcome id createdAt)) tenantId found := by
    rintro tenantId found hne ⟨event, hmem, heq, hrest⟩
    refine ⟨event, List.mem_append_left _ hmem, heq, ?_⟩
    rw [hother event (heq ▸ hne)]
    exact hrest
  have hnodup : (row.eventId :: rest.map PendingEffectRow.eventId).Nodup := by
    have hcalls := h.exclusive.nodup index call hcall
    rwa [Dispatch.held, hheld] at hcalls
  refine ⟨?_, ?_, ?_, ?_, ?_, h.once, ?_⟩
  · exact nodup_addEvent h.ids hfresh
  · intro terminal hterminal hends name hname
    rcases mem_concat_iff.mp hterminal with hold | rfl
    · exact List.map_append ▸ List.mem_append_left _ (h.named terminal hold hends name hname)
    · rw [hnames] at hname
      cases hname
      exact List.map_append ▸ List.mem_append_left _ (hid ▸ List.mem_map_of_mem htarget)
  · intro event hevent hrequested
    rcases mem_concat_iff.mp hevent with hold | rfl
    · by_cases heq : event.id = row.eventId
      · have hsame : event = target := h.event_eq hold htarget (heq.trans hid.symm)
        subst hsame
        rw [show terminals (FlowEffectDispatch.callTo _ index call phase) event =
          terminals (addEvent s _) event from rfl, terminals_addEvent, hnone]
        split <;> simp
      · exact (congrArg List.length (hother event heq)).trans_le (h.ended event hold hrequested)
    · have hterminal := kind_resultEvent call row outcome id createdAt
      rw [hrequested] at hterminal
      cases hterminal
  · intro i found held hfound hmem
    rcases getElem?_set_cases hfound with ⟨-, rfl⟩ | ⟨hne, hold⟩
    · have hrest : held ∈ rest := hrows.subset hmem
      refine hpending call.tenantId held ?_
        (h.pending index call held hcall (hheld ▸ .tail row hrest))
      intro heq
      exact (List.nodup_cons.mp hnodup).1 (heq ▸ List.mem_map_of_mem hrest)
    · refine hpending found.tenantId held ?_ (h.pending i found held hold hmem)
      intro heq
      exact hne (h.exclusive.apart i index found call held.eventId hold hcall
        (List.mem_map_of_mem hmem) (heq ▸ List.mem_map_of_mem hrow))
  · refine h.exclusive.shrink hcall ?_
    rw [Dispatch.held, Dispatch.held, hheld]
    exact (hrows.trans (List.sublist_cons_self row rest)).map _
  · intro name happlied
    obtain ⟨event, hmem, hevent, hrequested, hrecording⟩ := h.kept name happlied
    refine ⟨event, List.mem_append_left _ hmem, hevent, hrequested, fun hstill => ?_⟩
    have hne : event.id ≠ row.eventId := by
      intro heq
      have hsame : event = target := h.event_eq hmem htarget (heq.trans hid.symm)
      subst hsame
      have hends := ends_resultEvent outcome id createdAt hid htenant hrun
      rw [show terminals (FlowEffectDispatch.callTo _ index call phase) event =
        terminals (addEvent s _) event from rfl, terminals_addEvent, if_pos hends] at hstill
      exact List.append_ne_nil_of_right_ne_nil _ (List.cons_ne_nil _ _) hstill
    refine (hrecording ((hother event hne).symm.trans hstill)).set hcall ?_
    intro found hfound heq
    rw [hphase] at hfound
    cases hfound
    exact absurd (hevent.trans heq.symm) hne

theorem Delivery.appended (h : Delivery s) (hfresh : event.id ∉ s.events.map FlowEvent.id)
    (hopen : event.kind.terminal = false) :
    Delivery (addEvent s event) := by
  have hends : ∀ other : FlowEvent, ends event other = false := by
    intro other
    rw [Bool.eq_false_iff]
    intro hends
    rw [(id_of_ends hends).1] at hopen
    cases hopen
  have hsame : ∀ other : FlowEvent, terminals (addEvent s event) other = terminals s other := by
    intro other
    rw [terminals_addEvent, hends other, if_neg Bool.false_ne_true, List.append_nil]
  refine ⟨?_, ?_, ?_, ?_, h.exclusive, h.once, ?_⟩
  · exact nodup_addEvent h.ids hfresh
  · intro terminal hterminal hkind name hname
    rcases mem_concat_iff.mp hterminal with hold | rfl
    · exact List.map_append ▸ List.mem_append_left _ (h.named terminal hold hkind name hname)
    · rw [hopen] at hkind
      cases hkind
  · intro other hother hrequested
    rw [hsame]
    rcases mem_concat_iff.mp hother with hold | hnew
    · exact h.ended other hold hrequested
    · -- nothing names the identifier of a new event
      rw [hnew]
      have hnone : terminals s event = [] := by
        refine List.filter_eq_nil_iff.mpr fun terminal hterminal hterminates => hfresh ?_
        obtain ⟨hkind, hname⟩ := id_of_ends hterminates
        exact h.named terminal hterminal hkind event.id hname
      rw [hnone]
      exact Nat.zero_le 1
  · intro i call row hcall hrow
    obtain ⟨target, hmem, hid, htenant, hrun, hkind, hnone⟩ := h.pending i call row hcall hrow
    exact ⟨target, List.mem_append_left _ hmem, hid, htenant, hrun, hkind, (hsame target).trans hnone⟩
  · intro name happlied
    obtain ⟨other, hmem, hid, hkind, hrecording⟩ := h.kept name happlied
    exact ⟨other, List.mem_append_left _ hmem, hid, hkind,
      fun hnone => hrecording ((hsame other).symm.trans hnone)⟩

theorem Delivery.applied (h : Delivery s) {effectKey : String} {input : FlowEffectInput}
    (hcall : s.calls[index]? = some call) (hphase : call.phase = .apply row effectKey rest progress)
    (hrows : phase.rows = row :: rest) (hrecording : phase.recording = some row) :
    Delivery { FlowEffectDispatch.callTo s index call phase with
      applied := s.applied ++ [(row.eventId, input)] } := by
  have hheld : phase.rows = call.phase.rows := by rw [hrows, hphase]; rfl
  have hidle : call.phase.recording = none := by rw [hphase]; rfl
  have hrow : row ∈ call.phase.rows := by rw [← hheld, hrows]; exact List.mem_cons_self
  have hnew := h.not_applied hcall hrow hidle
  obtain ⟨event, hmem, hid, -, -, hkind, -⟩ := h.pending index call row hcall hrow
  have hmoved : Delivery (FlowEffectDispatch.callTo s index call phase) := by
    refine h.callTo hcall (fun found hfound => ?_) (h.exclusive.shrink hcall ?_) ?_
    · exact h.pending index call found hcall (hheld ▸ hfound)
    · rw [Dispatch.held, Dispatch.held, hheld]
    · intro found hfound
      rw [hidle] at hfound
      cases hfound
  refine ⟨hmoved.ids, hmoved.named, hmoved.ended, hmoved.pending, hmoved.exclusive, ?_, ?_⟩
  · rw [List.map_append, List.map_singleton, ← List.concat_eq_append]
    exact h.once.concat hnew
  · intro name happlied
    rw [List.map_append, List.map_singleton] at happlied
    rcases mem_concat_iff.mp happlied with hold | rfl
    · exact hmoved.kept name hold
    · have hlt : index < s.calls.length := (List.getElem?_eq_some_iff.mp hcall).1
      exact ⟨event, hmem, hid, hkind, fun _ =>
        ⟨index, _, row, List.getElem?_set_self hlt, hrecording, rfl⟩⟩

theorem Delivery.step (h : Delivery s) (hunheld : ListsUnheld s label)
    (hkeeps : KeepsOutcome s label) (hstep : FlowEffectDispatch.step s label = some t) :
    Delivery t := by
  cases effect_of_step hkeeps hstep with
  | listed index call input phase hcall hphase hrows =>
    have hfree := hunheld call hcall
    rw [hphase] at hfree
    refine h.callTo hcall (fun row hrow => pending_of_mem_pendingRows (hrows ▸ hrow))
      (h.exclusive.set ?_ ?_) ?_
    · rw [Dispatch.held, hrows]
      exact nodup_pendingRows h.ids call.tenantId input
    · intro i other id hne hother hid hheld
      rw [Dispatch.held, hrows] at hheld
      obtain ⟨row, hrow, rfl⟩ := List.mem_map.mp hheld
      exact hfree row hrow other (List.mem_of_getElem? hother) hid
    · intro row hrow
      rw [hphase] at hrow
      cases hrow
  | applied _ index call row effectKey rest progress phase input hcall hphase hrows hrecording =>
    exact h.applied hcall hphase hrows hrecording
  | moved _ index call phase hcall hrows hrecording =>
    refine h.callTo hcall (fun row hrow => h.pending index call row hcall (hrows ▸ hrow))
      (h.exclusive.shrink hcall ?_) ?_
    · rw [Dispatch.held, Dispatch.held, hrows]
    · intro row hrow _
      rcases hrecording with hnone | hsame
      · rw [hnone] at hrow
        cases hrow
      · exact hsame.trans hrow
  | recorded _ index call row outcome rest progress id createdAt phase hcall hphase hfresh hrows =>
    exact h.recorded hcall hphase hfresh hrows
  | released _ index call hcall hunapplied =>
    refine h.callTo hcall (fun row hrow => absurd hrow List.not_mem_nil) (h.exclusive.drop rfl) ?_
    exact fun row hrow happlied => absurd happlied (hunapplied row hrow)
  | called tenantId actorId input =>
    refine ⟨h.ids, h.named, h.ended, ?_, h.exclusive.concat rfl, h.once, ?_⟩
    · intro i call row hcall hrow
      rcases getElem?_concat_cases hcall with ⟨-, rfl⟩ | ⟨-, hold⟩
      · exact absurd hrow List.not_mem_nil
      · exact h.pending i call row hold hrow
    · intro name happlied
      obtain ⟨event, hmem, hid, hkind, hrecording⟩ := h.kept name happlied
      refine ⟨event, hmem, hid, hkind, fun hnone => ?_⟩
      obtain ⟨i, call, row, hcall, hrest⟩ := hrecording hnone
      have hlt : i < s.calls.length := (List.getElem?_eq_some_iff.mp hcall).1
      exact ⟨i, call, row, (List.getElem?_append_left hlt).trans hcall, hrest⟩
  | appended event hfresh hopen => exact h.appended hfresh hopen
  | changed _ _ hevents hcalls happlied =>
    have hterminals : ∀ event, terminals t event = terminals s event := fun event => by
      rw [terminals, terminals, hevents]
    refine ⟨hevents ▸ h.ids, hevents ▸ h.named, ?_, ?_, hcalls ▸ h.exclusive, happlied ▸ h.once, ?_⟩
    · intro event hmem hkind
      rw [hterminals]
      exact h.ended event (hevents ▸ hmem) hkind
    · intro i call row hcall hrow
      obtain ⟨event, hmem, hid, htenant, hrun, hkind, hnone⟩ :=
        h.pending i call row (hcalls ▸ hcall) hrow
      exact ⟨event, hevents ▸ hmem, hid, htenant, hrun, hkind, (hterminals event).trans hnone⟩
    · intro name hname
      obtain ⟨event, hmem, hid, hkind, hrecording⟩ := h.kept name (happlied ▸ hname)
      refine ⟨event, hevents ▸ hmem, hid, hkind, fun hnone => ?_⟩
      rw [hcalls]
      exact hrecording ((hterminals event).symm.trans hnone)

/-- While no dispatch selects what another holds, and outcomes of applied effects are recorded: each
effect is applied at most once and has at most one terminal event. -/
theorem each_effect_once (store : Store) (labels : List Label) (last : Flow)
    (hmeets : RunMeets step (fun s label => ListsUnheld s label ∧ KeepsOutcome s label)
      (start store) labels)
    (hrun : run step (start store) labels = some last) :
    (last.applied.map Prod.fst).Nodup ∧
      ∀ event ∈ last.events, event.kind = .effectRequested → (terminals last event).length ≤ 1 := by
  have hlast : Delivery last := by
    refine run_invariant_of_meets ?_ (delivery_start store) hmeets hrun
    rintro s label t h ⟨hunheld, hkeeps⟩ hstep
    exact h.step hunheld hkeeps hstep
  exact ⟨hlast.once, hlast.ended⟩

def requested : FlowEvent where
  id := "e1"
  tenantId := "tenant"
  runId := "run"
  nodeId := none
  taskId := none
  kind := .effectRequested
  actorId := none
  payload := .object [("effectKey", .string "notify")]
  createdAt := 1

/-- Tables with one requested effect, whose adapter is registered. -/
def oneEffect : Store where
  events := [requested]
  runs := OrderedMap.empty.set "run" ⟨"adapter", "document", "d1"⟩
  adapters := ["adapter"]
  ids := List.nodup_singleton _
  ended event hevent hkind := by
    rw [List.mem_singleton.mp hevent]
    decide
  named terminal hterminal hkind := by
    rw [List.mem_singleton.mp hterminal] at hkind
    cases hkind

/-- A call of `dispatchPendingEffects` without filters. -/
def everything : Label := .dispatch "tenant" "actor" { limitBounds := by decide }

def applies (index : Nat) : Label := .applyEffect index (.ok { ok := true })

/-- The events that adapters have been called for, and the number of terminal events of the effect.
-/
def outcomeAfter (labels : List Label) : Option (List String × Nat) :=
  (run step (start oneEffect) labels).map fun s =>
    (s.applied.map Prod.fst, (terminals s requested).length)

/-- Two dispatches select the effect before either records it, or after a record has failed. -/
theorem overlapping_dispatches_apply_twice :
    outcomeAfter [everything, everything, .list 0, .list 1, applies 0, applies 1,
      .record 0 "e2" 2, .record 1 "e3" 3] = some (["e1", "e1"], 2) ∧
    outcomeAfter [everything, .list 0, applies 0, .recordFails 0 "lost" none,
      .recordFails 0 "lost" none, everything, .list 1, applies 1] = some (["e1", "e1"], 0) ∧
    outcomeAfter [everything, .list 0, applies 0, .recordFails 0 "lost" (some ("e2", 2)),
      .record 0 "e3" 3] = some (["e1"], 2) := by
  decide

/-- The second dispatch selects after the first has recorded. -/
def oneAfterTheOther : List Label :=
  [everything, everything, .list 0, applies 0, .record 0 "e2" 2, .list 1]

theorem each_effect_once_run :
    ∃ last, run step (start oneEffect) oneAfterTheOther = some last ∧
      (last.applied.map Prod.fst).Nodup :=
  ⟨_, rfl, (each_effect_once oneEffect oneAfterTheOther _ (by decide) rfl).1⟩

end Stynx.FlowEffectDispatch
