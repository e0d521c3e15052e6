import Mathlib.Data.Rat.Floor
import Stynx.OrderedMap

/-!
# The server-sent-event service

`open` takes a connection slot, reads the replay cursor from the source, and serves the stream
until the request or the response closes or the module is destroyed. Every `await` of `open` and
of a tick ends a step, and so does every call of the response or of the scheduler in the opening
block.
-/

namespace Stynx.EventStream

inductive Number where
  | nan
  | infinite (negative : Bool)
  | finite (value : ℚ)

/-- `EventStreamCursor`, with instants in milliseconds. -/
structure Cursor where
  createdAt : Int
  id : String
  deriving DecidableEq

/-- `EventStreamRow`. -/
structure Row extends Cursor where
  event : String
  deriving DecidableEq

/-- `StynxSseScope`: the fields that `open` reads. -/
structure Scope where
  tenantId : Option String
  actorId : Option String

/-- The numeric settings of `StynxEventStreamOptions` and the scope. -/
structure Options where
  scope : Scope
  heartbeatMs : Option Number
  replayWindowMs : Option Number
  tickMs : Option Number
  batchSize : Option Number
  retryMs : Option Number
  maxConnectionsPerActor : Option Number
  retryAfterSeconds : Option Number
  maxPayloadBytes : Option Number

structure Settings where
  heartbeatMs : ℚ
  /-- Oldest cursor that is replayed. -/
  replayWindowMs : ℚ
  tickMs : ℚ
  /-- Rows of one tick. -/
  batchSize : ℚ
  /-- Hint of a refused connection. -/
  retryAfterSeconds : ℚ
  retryMs : Option ℚ
  maxPayloadBytes : Option ℚ
  maxConnectionsPerActor : Option ℚ

def positive (value : Option Number) (fallback : ℚ) (name : String) : Except String ℚ :=
  match value.getD (.finite fallback) with
  | .finite resolved =>
    if resolved ≤ 0 then .error (name ++ " must be finite and positive") else .ok resolved
  | _ => .error (name ++ " must be finite and positive")

/-- `value === undefined ? undefined : positive(value, 1, name)`. -/
def positiveIfPresent (value : Option Number) (name : String) : Except String (Option ℚ) :=
  match value with
  | none => .ok none
  | some number => (positive (some number) 1 name).map some

/-- The checks of the settings, in their order. -/
def resolve (options : Options) : Except String Settings := do
  let heartbeatMs ← positive options.heartbeatMs 20000 "heartbeatMs"
  let replayWindowMs ← positive options.replayWindowMs 86400000 "replayWindowMs"
  let tickMs ← positive options.tickMs 1000 "tickMs"
  let batchSize ← positive options.batchSize 100 "batchSize"
  let retryAfterSeconds ← positive options.retryAfterSeconds 1 "retryAfterSeconds"
  let retryMs ← positiveIfPresent options.retryMs "retryMs"
  let maxPayloadBytes ← positiveIfPresent options.maxPayloadBytes "maxPayloadBytes"
  let maxConnectionsPerActor ←
    positiveIfPresent options.maxConnectionsPerActor "maxConnectionsPerActor"
  if batchSize.den ≠ 1 || maxConnectionsPerActor.any fun cap => cap.den ≠ 1 then
    .error "batchSize and maxConnectionsPerActor must be integers"
  else
    .ok
      { heartbeatMs, replayWindowMs, tickMs, batchSize, retryAfterSeconds, retryMs,
        maxPayloadBytes, maxConnectionsPerActor }

def utf16Length (value : String) : Nat :=
  (value.toList.map fun c => if 0x10000 ≤ c.val then 2 else 1).sum

def safeLine (value : String) : Bool :=
  0 < utf16Length value && utf16Length value ≤ 4096 &&
    value.toList.all fun c => c ≠ '\r' && c ≠ '\n' && c ≠ '\x00'

def isTrimmed (c : Char) : Bool :=
  c.val ∈ [0x9, 0xA, 0xB, 0xC, 0xD, 0x20, 0xA0, 0x1680, 0x2028, 0x2029, 0x202F, 0x205F, 0x3000,
    0xFEFF] || (0x2000 ≤ c.val && c.val ≤ 0x200A)

/-- `value?.trim()`, where it is truthy. -/
def present (value : Option String) : Option String :=
  value.filter fun text => !text.toList.all isTrimmed

inductive HeaderValue where
  | text (value : String)
  | texts (values : List String)
  | undefined

def header (headers : List (String × HeaderValue)) (name : String) : Bool × Option String :=
  match headers.filter fun entry => entry.1.toLower = name with
  | [] => (false, none)
  | [(_, .text value)] => (true, some value)
  | [(_, .texts [value])] => (true, some value)
  | _ => (true, none)

/-- Four hexadecimal digits. -/
def hex4 (n : Nat) : String :=
  String.ofList (([4096, 256, 16, 1].map fun place => n / place % 16).map Nat.digitChar)

def jsonString (value : String) : String :=
  let escape (c : Char) : String :=
    if c = '"' then "\\\"" else if c = '\\' then "\\\\" else if c = '\x08' then "\\b"
    else if c = '\x0c' then "\\f" else if c = '\n' then "\\n" else if c = '\r' then "\\r"
    else if c = '\t' then "\\t" else if c.toNat < 32 then "\\u" ++ hex4 c.toNat
    else String.singleton c
  "\"" ++ String.join (value.toList.map escape) ++ "\""

def slotKey (tenantId actorId : String) : String :=
  "[" ++ jsonString tenantId ++ "," ++ jsonString actorId ++ "]"

/-- The two schedules of a stream. -/
inductive Schedule where
  | heartbeat
  | tick
  deriving DecidableEq

/-- What the module takes from outside. -/
structure Ports where
  numberText : ℚ → String
  cancelThrows : Nat → Schedule → Bool

structure Response where
  statusCode : Nat
  /-- Headers in the order of their writing. -/
  headers : List (String × String)
  written : List String
  ended : Nat

def Response.fresh : Response := ⟨200, [], [], 0⟩

def reject (ports : Ports) (response : Response) (status : Nat) (code : Option String)
    (retryAfter : Option ℚ) : Response :=
  { response with
    statusCode := status
    headers := response.headers ++ (code.map fun value => ("X-Stynx-Error-Code", value)).toList ++
      (retryAfter.map fun value => ("Retry-After", ports.numberText ⌈value⌉)).toList
    ended := response.ended + 1 }

/-- A schedule that was pushed, and whether it was cancelled. -/
structure Timer where
  schedule : Schedule
  cancelled : Bool
  deriving DecidableEq

/-- The calls of the opening block, in their order. -/
inductive OpeningCall where
  | setHeader (name value : String)
  | flushHeaders
  | write (chunk : String)
  | every (schedule : Schedule)

def openingCalls (ports : Ports) (settings : Settings) : List OpeningCall :=
  [.setHeader "Content-Type" "text/event-stream", .setHeader "Cache-Control" "no-cache",
    .setHeader "Connection" "keep-alive", .setHeader "X-Accel-Buffering" "no", .flushHeaders] ++
  (settings.retryMs.map fun retryMs =>
    OpeningCall.write ("retry: " ++ ports.numberText retryMs ++ "\n\n")).toList ++
  [.write ": connected\n\n", .every .heartbeat, .every .tick]

/-- Where `open` stands. -/
inductive Phase where
  | findById (lastId : String)
  | now (visible : Option Row)
  | opening (calls : List OpeningCall)
  | opened
  /-- Returned before the opening block. -/
  | returned

/-- Where the tick of a stream stands; `running` says that it is not idle. -/
inductive Tick where
  | idle
  /-- Waits for `listSince`. -/
  | listing
  /-- At the head of the loop. -/
  | rows (rest : List Row)
  /-- Waits for `filter` or `project`. -/
  | projecting (row : Row) (rest : List Row)
  deriving DecidableEq

/-- The variables of one call of `open`. -/
structure Connection where
  slotKey : String
  settings : Settings
  lastId : Option String
  reserved : Bool
  disconnected : Bool
  closed : Bool
  /-- Where `open` stands. -/
  phase : Phase
  cursor : Cursor
  tick : Tick
  schedules : List Timer
  response : Response

/-- The opening block was entered. -/
def Connection.isOpened (c : Connection) : Bool :=
  match c.phase with
  | .opening _ => true
  | .opened => true
  | _ => false

/-- A stream is live from its admission until the client goes away or `open` returns early, and from
the opening block on until it is closed. -/
def Connection.live (c : Connection) : Bool :=
  match c.phase with
  | .findById _ => !c.disconnected
  | .now _ => !c.disconnected
  | .opening _ => !c.closed
  | .opened => !c.closed
  | .returned => false

/-- The service and its connections, numbered in the order of their admission. -/
structure State where
  slots : OrderedMap String Int
  connectionClosers : List Nat
  active : Int
  opened : Int
  frames : Int
  drops : Int
  closed : Int
  connections : List Connection
  /-- Connections whose slot was given back, oldest first. -/
  released : List Nat

/-- A new service. -/
def State.initial : State := ⟨OrderedMap.empty, [], 0, 0, 0, 0, 0, [], []⟩

def State.held (s : State) (key : String) : Int := (s.slots.get? key).getD 0

/-- Write the variables of a connection. -/
def State.put (s : State) (i : Nat) (c : Connection) : State :=
  { s with connections := s.connections.set i c }

def giveBack (slots : OrderedMap String Int) (key : String) : OrderedMap String Int :=
  let remaining := (slots.get? key).getD 0 - 1
  if 0 < remaining then slots.set key remaining else slots.delete key

def release (s : State) (i : Nat) (c : Connection) : State × Connection :=
  if c.reserved then
    ({ s with slots := giveBack s.slots c.slotKey, released := s.released ++ [i] },
      { c with reserved := false })
  else (s, c)

/-- The loop that cancels the schedules; the flag says that a call threw. -/
def cancelAll (throws : Schedule → Bool) : List Timer → List Timer × Bool
  | [] => ([], false)
  | timer :: rest =>
    if throws timer.schedule then (timer :: rest, true)
    else
      let (cancelled, threw) := cancelAll throws rest
      ({ timer with cancelled := true } :: cancelled, threw)

variable (ports : Ports)

/-- `close`; the flag says that a call of `cancel` threw. -/
def close (s : State) (i : Nat) (c : Connection) : State × Connection × Bool :=
  if c.closed then (s, c, false)
  else
    let (schedules, threw) := cancelAll (ports.cancelThrows i) c.schedules
    let c := { c with closed := true, schedules := schedules }
    if threw then (s, c, true)
    else
      let (s, c) := release s i c
      ({ s with
          connectionClosers := s.connectionClosers.erase i
          active := s.active - 1
          closed := s.closed + 1 }, c, false)

/-- `shutdown`: `response.end()` runs unless `close` threw. -/
def shutdown (s : State) (i : Nat) : State × Bool :=
  match s.connections[i]? with
  | none => (s, false)
  | some c =>
    let (s, c, threw) := close ports s i c
    if threw then (s.put i c, true)
    else (s.put i { c with response := { c.response with ended := c.response.ended + 1 } }, false)

/-- The loop of `onModuleDestroy`, which an exception leaves. -/
def shutdownAll (s : State) : List Nat → State
  | [] => s
  | i :: rest =>
    match shutdown ports s i with
    | (t, true) => t
    | (t, false) => shutdownAll t rest

def onModuleDestroy (s : State) : State := shutdownAll ports s s.connectionClosers

def markDisconnected (s : State) (i : Nat) (c : Connection) : State × Connection :=
  release s i { c with disconnected := true }

/-- The close event of the response: `markDisconnected`, and `close` once it is registered. -/
def responseClosed (s : State) (i : Nat) (c : Connection) : State :=
  let (s, c) := markDisconnected s i c
  if c.isOpened then
    let (s, c, _) := close ports s i c
    s.put i c
  else s.put i c

/-- The close event of the request: `requestClosed`, and the second listener once it is
registered. -/
def requestClosed (s : State) (i : Nat) (c : Connection) (complete aborted : Bool) : State :=
  let (s, c) := if complete && !aborted then (s, c) else markDisconnected s i c
  if c.isOpened && c.disconnected then
    let (s, c, _) := close ports s i c
    s.put i c
  else s.put i c

/-- What the checks of `open` give before a slot is taken. -/
inductive Opening where
  | rangeError (message : String)
  | rejected (response : Response)
  | admitted (slotKey : String) (settings : Settings)

def admission (s : State) (options : Options) : Opening :=
  match present options.scope.tenantId with
  | none => .rejected (reject ports .fresh 400 (some "SSE_TENANT_REQUIRED") none)
  | some tenantId =>
    match present options.scope.actorId with
    | none => .rejected (reject ports .fresh 401 (some "SSE_ACTOR_REQUIRED") none)
    | some actorId =>
      match resolve options with
      | .error message => .rangeError message
      | .ok settings =>
        let key := slotKey tenantId actorId
        if settings.maxConnectionsPerActor.any fun cap => cap ≤ (s.held key : ℚ) then
          .rejected
            (reject ports .fresh 429 (some "SSE_CONNECTION_LIMIT") (some settings.retryAfterSeconds))
        else .admitted key settings

def take (s : State) (c : Connection) : State :=
  { s with
    slots := s.slots.set c.slotKey (s.held c.slotKey + 1)
    connections := s.connections ++ [c] }

def admittedConnection (key : String) (settings : Settings) (lastId : Option String) : Connection :=
  { slotKey := key, settings := settings, lastId := lastId
    reserved := true, disconnected := false, closed := false
    phase := match lastId with
      | some id => .findById id
      | none => .now none
    cursor := ⟨0, ""⟩, tick := .idle, schedules := [], response := .fresh }

/-- `open` up to its first `await`. -/
def openStream (s : State) (headers : List (String × HeaderValue)) (options : Options) : State :=
  match admission ports s options with
  | .rangeError _ => s
  | .rejected _ => s
  | .admitted key settings =>
    let (found, lastId) := header headers "last-event-id"
    let c := admittedConnection key settings lastId
    let i := s.connections.length
    let s := take s c
    if found && !lastId.any safeLine then
      let (s, c) := release s i c
      s.put i
        { c with
          phase := .returned
          response := reject ports c.response 400 (some "SSE_INVALID_LAST_EVENT_ID") none }
    else s

/-- The answer of a preflight that ends without a stream. -/
def preflightAnswer (c : Connection) (status : Nat) (code : Option String) : Response :=
  if c.disconnected then c.response else reject ports c.response status code none

def preflightFailed (s : State) (i : Nat) (c : Connection) : State :=
  let (s, c) := release s i c
  s.put i
    { c with
      phase := .returned
      response := preflightAnswer ports c 503 (some "SSE_SOURCE_UNAVAILABLE") }

def findReply (s : State) (i : Nat) (c : Connection) (reply : Option (Option Row)) : State :=
  match reply with
  | none => preflightFailed ports s i c
  | some visible => s.put i { c with phase := .now visible }

/-- Start the opening block: the counters, the closer and the listeners. -/
def beginStream (s : State) (i : Nat) (c : Connection) (cursor : Cursor) : State :=
  { s with
    active := s.active + 1
    opened := s.opened + 1
    connectionClosers := s.connectionClosers ++ [i]
    connections := s.connections.set i
      { c with
        phase := .opening (openingCalls ports c.settings)
        cursor := cursor
        response := { c.response with statusCode := 200 } } }

def nowReply (s : State) (i : Nat) (c : Connection) (visible : Option Row) (reply : Option Int) :
    State :=
  match reply with
  | none => preflightFailed ports s i c
  | some now =>
    match visible with
    | some row =>
      if c.settings.replayWindowMs < ((now - row.createdAt : Int) : ℚ) then
        let (s, c) := release s i c
        s.put i { c with phase := .returned, response := preflightAnswer ports c 204 none }
      else if c.disconnected then s.put i { c with phase := .returned }
      else beginStream ports s i c row.toCursor
    | none =>
      if c.disconnected then s.put i { c with phase := .returned }
      else beginStream ports s i c ⟨now, ""⟩

def write (c : Connection) (chunk : String) : Connection :=
  if c.closed then c
  else { c with response := { c.response with written := c.response.written ++ [chunk] } }

def startTick (c : Connection) : Connection :=
  if c.tick ≠ .idle || c.closed then c else { c with tick := .listing }

/-- A call of the opening block that returns. -/
def performCall (c : Connection) : OpeningCall → Connection
  | .setHeader name value =>
    { c with response := { c.response with headers := c.response.headers ++ [(name, value)] } }
  | .flushHeaders => c
  | .write chunk => write c chunk
  | .every schedule => { c with schedules := c.schedules ++ [⟨schedule, false⟩] }

/-- A closed stream does not write. -/
def skips (c : Connection) : OpeningCall → Bool
  | .write _ => c.closed
  | _ => false

/-- The next call of the opening block returns or throws. -/
def openingStep (s : State) (i : Nat) (c : Connection) (call : OpeningCall)
    (rest : List OpeningCall) (throws : Bool) : State :=
  if throws && !skips c call then
    let (s, c, threw) := close ports s i c
    let ended := if threw then c.response.ended else c.response.ended + 1
    s.put i { c with phase := .opened, response := { c.response with ended := ended } }
  else
    let c := performCall c call
    match rest with
    | [] => s.put i (if c.lastId.isSome then startTick { c with phase := .opened }
        else { c with phase := .opened })
    | _ => s.put i { c with phase := .opening rest }

/-- What `filter` and `project` give for a row. -/
inductive Projection where
  | failed
  | filtered
  | payload (serialized : String)

def drop (s : State) (c : Connection) (row : Row) (throws : Bool) : Option (State × Connection) :=
  if safeLine row.id && !c.closed then
    if throws then none
    else some ({ s with drops := s.drops + 1 }, write c (": dropped " ++ row.id ++ "\n\n"))
  else some ({ s with drops := s.drops + 1 }, c)

/-- The row is handled: the cursor moves on and the loop continues, unless a write threw. -/
def handled (s : State) (i : Nat) (c : Connection) (row : Row) (rest : List Row)
    (result : Option (State × Connection)) : State :=
  match result with
  | none => s.put i { c with tick := .idle }
  | some (s, c) => s.put i { c with cursor := row.toCursor, tick := .rows rest }

/-- The head of the loop over the rows. -/
def rowStep (s : State) (i : Nat) (c : Connection) (rows : List Row) (throws : Bool) : State :=
  match rows with
  | [] => s.put i { c with tick := .idle }
  | row :: rest =>
    if c.closed then s.put i { c with tick := .idle }
    else if safeLine row.id && safeLine row.event then
      s.put i { c with tick := .projecting row rest }
    else handled s i c row rest (drop s c row throws)

def frame (row : Row) (serialized : String) : String :=
  "id: " ++ row.id ++ "\nevent: " ++ row.event ++ "\ndata: " ++ serialized ++ "\n\n"

def projectedStep (s : State) (i : Nat) (c : Connection) (row : Row) (rest : List Row)
    (projection : Projection) (throws : Bool) : State :=
  match projection with
  | .failed => handled s i c row rest (drop s c row throws)
  | .filtered =>
    if c.closed then s.put i { c with tick := .idle }
    else handled s i c row rest (some (s, c))
  | .payload serialized =>
    if c.closed then s.put i { c with tick := .idle }
    else if c.settings.maxPayloadBytes.any fun maximum =>
        maximum < (serialized.utf8ByteSize : ℚ) then
      handled s i c row rest (drop s c row throws)
    else if throws then handled s i c row rest none
    else handled s i c row rest
      (some ({ s with frames := s.frames + 1 }, write c (frame row serialized)))

/-- The events of the process. -/
inductive Label where
  | openStream (headers : List (String × HeaderValue)) (options : Options)
  | findReply (i : Nat) (reply : Option (Option Row))
  | nowReply (i : Nat) (reply : Option Int)
  | openingCall (i : Nat) (throws : Bool)
  | requestClose (i : Nat) (complete aborted : Bool)
  | responseClose (i : Nat)
  | heartbeat (i : Nat) (throws : Bool)
  | tick (i : Nat)
  | listReply (i : Nat) (reply : Option (List Row))
  | row (i : Nat) (throws : Bool)
  | projected (i : Nat) (projection : Projection) (throws : Bool)
  | destroy

/-- The process, one event at a time. -/
def step (s : State) : Label → Option State
  | .openStream headers options => some (openStream ports s headers options)
  | .findReply i reply =>
    s.connections[i]?.bind fun c =>
      match c.phase with
      | .findById _ => some (findReply ports s i c reply)
      | _ => none
  | .nowReply i reply =>
    s.connections[i]?.bind fun c =>
      match c.phase with
      | .now visible => some (nowReply ports s i c visible reply)
      | _ => none
  | .openingCall i throws =>
    s.connections[i]?.bind fun c =>
      match c.phase with
      | .opening (call :: rest) => some (openingStep ports s i c call rest throws)
      | _ => none
  | .requestClose i complete aborted =>
    s.connections[i]?.map fun c => requestClosed ports s i c complete aborted
  | .responseClose i => s.connections[i]?.map fun c => responseClosed ports s i c
  | .heartbeat i throws =>
    s.connections[i]?.bind fun c =>
      if c.schedules.contains ⟨.heartbeat, false⟩ then
        some (if throws then s else s.put i (write c ": heartbeat\n\n"))
      else none
  | .tick i =>
    s.connections[i]?.bind fun c =>
      if c.schedules.contains ⟨.tick, false⟩ then some (s.put i (startTick c)) else none
  | .listReply i reply =>
    s.connections[i]?.bind fun c =>
      if c.tick = .listing then
        some (s.put i { c with tick := (reply.map Tick.rows).getD .idle })
      else none
  | .row i throws =>
    s.connections[i]?.bind fun c =>
      match c.tick with
      | .rows rows => some (rowStep s i c rows throws)
      | _ => none
  | .projected i projection throws =>
    s.connections[i]?.bind fun c =>
      match c.tick with
      | .projecting row rest => some (projectedStep s i c row rest projection throws)
      | _ => none
  | .destroy => some (onModuleDestroy ports s)

end Stynx.EventStream
