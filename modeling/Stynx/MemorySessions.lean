import Stynx.CallTables
import Stynx.OrderedMap
import Stynx.SessionRecords
import Stynx.TransitionRuns

/-!
# Sessions in memory

`packages/sessions/src/in-memory-session-store.ts` under `session.service.ts`. An
operation of the store runs to its end before another starts; a call of the
service is cut at its `await`s, and what stands between two of them is one step.

Each call reads the clock in each step anew, at most twice. Tokens and identifiers
that a call draws are other ones than those drawn before.
-/

namespace Stynx.MemorySessions

open TransitionRuns CallTables SessionRecords

/-- `InMemorySessionStore`. -/
structure Store where
  sessions : OrderedMap String SessionRecord := .empty
  refreshLookups : OrderedMap String RefreshTokenLookup := .empty
  sessionsByUser : OrderedMap String (List String) := .empty
  sessionsByTenant : OrderedMap String (List String) := .empty

def bucket (index : OrderedMap String (List String)) (key : String) : List String :=
  (index.get? key).getD []

def addIndex (index : OrderedMap String (List String)) (key sid : String) :
    OrderedMap String (List String) :=
  index.set key (if sid ∈ bucket index key then bucket index key else bucket index key ++ [sid])

def removeIndex (index : OrderedMap String (List String)) (key sid : String) :
    OrderedMap String (List String) :=
  match index.get? key with
  | none => index
  | some values => index.set key (values.filter fun value => value ≠ sid)

def createSession (store : Store) (record : SessionRecord) : Store where
  sessions := store.sessions.set record.sid record
  refreshLookups := store.refreshLookups.set record.refreshTokenHash
    ⟨record.sid, record.refreshFamilyId, .active⟩
  sessionsByUser := addIndex store.sessionsByUser record.userId record.sid
  sessionsByTenant := addIndex store.sessionsByTenant record.tenantId record.sid

def removeSession (store : Store) (sid : String) (session : SessionRecord) : Store where
  sessions := store.sessions.delete sid
  refreshLookups := store.refreshLookups.set session.refreshTokenHash
    ⟨sid, session.refreshFamilyId, .used⟩
  sessionsByUser := removeIndex store.sessionsByUser session.userId sid
  sessionsByTenant := removeIndex store.sessionsByTenant session.tenantId sid

def revokeSession (store : Store) (sid : String) : Store :=
  match store.sessions.get? sid with
  | none => store
  | some session => removeSession store sid session

def rotatedRecord (session : SessionRecord) (nextHash : String) (idleExpiresAt touchedAt : Nat) :
    SessionRecord :=
  { session with
    refreshTokenHash := nextHash
    idleExpiresAt := idleExpiresAt
    lastTouchedAt := touchedAt
    updatedAt := touchedAt }

def rotateRefreshToken (store : Store) (sid currentHash nextHash : String)
    (idleExpiresAt touchedAt : Nat) : Option (Store × SessionRecord) :=
  match store.sessions.get? sid, store.refreshLookups.get? currentHash with
  | some session, some lookup =>
    if lookup.state = .active ∧ session.refreshTokenHash = currentHash then
      let updated := rotatedRecord session nextHash idleExpiresAt touchedAt
      some ({ store with
        sessions := store.sessions.set sid updated
        refreshLookups := (store.refreshLookups.set currentHash
          ⟨sid, session.refreshFamilyId, .used⟩).set nextHash
          ⟨sid, session.refreshFamilyId, .active⟩ }, updated)
    else none
  | _, _ => none

def touchedRecord (session : SessionRecord) (idleExpiresAt touchedAt : Nat) : SessionRecord :=
  { session with
    idleExpiresAt := idleExpiresAt
    lastTouchedAt := touchedAt
    updatedAt := touchedAt }

def touchSession (store : Store) (sid : String) (idleExpiresAt touchedAt : Nat) : Store :=
  match store.sessions.get? sid with
  | none => store
  | some session => { store with
      sessions := store.sessions.set sid (touchedRecord session idleExpiresAt touchedAt) }

def conflicts (store : Store) (record : SessionRecord) (priorSid : Option String) (now : Nat) :
    List SessionRecord :=
  (bucket store.sessionsByUser record.userId).filterMap fun sid =>
    if priorSid = some sid then none
    else (store.sessions.get? sid).filter fun session =>
      session.tenantId == record.tenantId && isActive session now

def priorSession (store : Store) (record : SessionRecord) (priorSid : Option String) (now : Nat) :
    Option SessionRecord :=
  priorSid.bind fun sid => (store.sessions.get? sid).filter fun found =>
    found.userId == record.userId && isActive found now

/-- Several sessions are revoked. -/
def removeSessions (store : Store) (sessions : List SessionRecord) : Store :=
  sessions.foldl (fun acc session => removeSession acc session.sid session) store

def createWithPolicy (store : Store) (record : SessionRecord) (mode : SingleSessionMode)
    (priorSid : Option String) (now : Nat) : Except PolicyError (Store × List SessionRecord) :=
  let prior := priorSession store record priorSid now
  if priorSid.isSome && prior.isNone then .error .prior
  else
    let others := conflicts store record priorSid now
    if mode = .rejectNew ∧ others ≠ [] then .error .conflict
    else
      let revoked := (if mode = .revokeExisting then others else []) ++ prior.toList
      .ok (createSession (removeSessions store revoked) record, revoked)

/-- `listSessionIdsByUser` and `listSessionIdsByTenant`. -/
def filterActive (store : Store) (values : List String) : List String :=
  values.filter fun sid => store.sessions.has sid

/-- How far a call has come: what it has read before the `await` that it is at. -/
inductive Phase where
  | found (hash : String) (now : Nat) (lookup : Option RefreshTokenLookup)
  /-- `refresh` has got the session. -/
  | read (hash : String) (now : Nat) (current : Option SessionRecord)
  /-- `refresh` resolves claims. -/
  | resolving (hash : String) (now : Nat) (current : SessionRecord)
  /-- `get`, of itself or for `touch`, has got the session. -/
  | getRead (sid : String) (session : Option SessionRecord) (touches : Bool)
  | touching (sid : String) (session : SessionRecord)
  | getActiveRead (sid : String) (session : Option SessionRecord)
  /-- `revokeAllForUser` or `revokeAllForTenant` has its sessions. -/
  | listed (sids : List String)
  | exchangeRead (sid actorUserId newTenantId : String) (current : Option SessionRecord)
  /-- `create` has got the prior session. -/
  | createRead (userId tenantId cognitoSub prior : String) (now : Nat)
    (found : Option SessionRecord)
  /-- `create` resolves claims. -/
  | creating (userId tenantId cognitoSub : String) (prior : Option String) (now : Nat)
  /-- The call has returned or thrown, or changes nothing more. -/
  | ended

structure Issue where
  hash : String
  sid : String
  familyId : String
  call : Nat

/-- The store, the calls of the process, and what has happened so far. -/
structure Memory where
  store : Store := {}
  calls : List Phase := []
  issued : List Issue := []
  clock : Nat := 0

inductive Act where
  | refresh (hash : String)
  | touch (sid : String)
  | get (sid : String)
  | getActive (sid : String)
  | revoke (sid : String)
  | revokeAllForUser (userId : String)
  | revokeAllForTenant (tenantId : String)
  | create (userId tenantId cognitoSub : String) (prior : Option String)
  | exchange (sid actorUserId newTenantId : String)
  /-- A call goes on. -/
  | goOn (index : Nat)
  /-- The resolver of claims throws. -/
  | fail (index : Nat)

/-- What happens, and what it is given from outside. -/
structure Label where
  act : Act
  draw : Draw

def callTo (s : Memory) (index : Nat) (phase : Phase) : Memory :=
  { s with calls := s.calls.set index phase }

def newCall (s : Memory) (phase : Phase) : Memory := { s with calls := s.calls ++ [phase] }

/-- What a call does to the store. -/
def withStore (s : Memory) (store : Store) : Memory := { s with store := store }

/-- What `getActive` demands of a record before it reads the clock. -/
def readable (sid : String) (session : SessionRecord) : Bool :=
  session.sid == sid &&
  [session.userId, session.tenantId, session.cognitoSub, session.refreshFamilyId,
    session.refreshTokenHash].all (fun value => value ≠ "") &&
  decide (session.createdAt ≤ session.lastTouchedAt) &&
  decide (session.lastTouchedAt ≤ session.updatedAt) &&
  decide (session.createdAt ≤ session.idleExpiresAt) &&
  decide (session.idleExpiresAt ≤ session.expiresAt) &&
  decide (session.lastTouchedAt ≤ session.expiresAt)

def createStored (options : SessionsOptions) (store : Store) (record : SessionRecord)
    (prior : Option String) (now : Nat) : Except PolicyError (Store × List SessionRecord) :=
  if options.mode = .off ∧ prior = none then .ok (createSession store record, [])
  else createWithPolicy store record options.mode prior now

/-- Whether a new session's token, identifier and family are new. -/
def freshDraw (s : Memory) (draw : Draw) : Bool :=
  s.issued.all fun issue =>
    issue.hash ≠ draw.hash && issue.sid ≠ draw.sid && issue.familyId ≠ draw.familyId

def callStep (options : SessionsOptions) (s : Memory) (index : Nat) (draw : Draw) :
    Phase → Option Memory
  | .found hash now lookup =>
    match lookup with
    | none => some (callTo s index .ended)
    | some lookup =>
      match lookup.state with
      | .used => some (withStore (callTo s index .ended) (revokeSession s.store lookup.sid))
      | .active => some (callTo s index (.read hash now (s.store.sessions.get? lookup.sid)))
  | .read hash now current =>
    match current with
    | none => some (callTo s index .ended)
    | some current =>
      if isActive current now then some (callTo s index (.resolving hash now current))
      else some (callTo s index .ended)
  | .resolving hash now current =>
    if s.issued.all fun issue => issue.hash ≠ draw.hash then
      match rotateRefreshToken s.store current.sid hash draw.hash
        (idleLimit options now current.expiresAt) now with
      | none => some (callTo s index .ended)
      | some (store, rotated) => some { withStore (callTo s index .ended) store with
          issued := s.issued ++ [⟨draw.hash, rotated.sid, rotated.refreshFamilyId, index⟩] }
    else none
  | .getRead sid session touches =>
    match session with
    | none => some (callTo s index .ended)
    | some session =>
      if isActive session draw.now then
        some (callTo s index (if touches then .touching sid session else .ended))
      else if session.status = .active then
        some (withStore (callTo s index .ended) (revokeSession s.store sid))
      else some (callTo s index .ended)
  | .touching sid session =>
    some (withStore (callTo s index .ended) (touchSession s.store sid
      (idleLimit options draw.now session.expiresAt) draw.now))
  | .getActiveRead sid session =>
    match session with
    | none => some (callTo s index .ended)
    | some session =>
      if readable sid session ∧ session.status = .active ∧ ¬ isActive session draw.now then
        some (withStore (callTo s index .ended) (revokeSession s.store sid))
      else some (callTo s index .ended)
  | .listed sids => some (withStore (callTo s index .ended) (sids.foldl revokeSession s.store))
  | .exchangeRead sid actorUserId newTenantId current =>
    match current with
    | none => some (callTo s index .ended)
    | some current =>
      if current.userId = actorUserId ∧ isActive current draw.now then
        some (callTo s index (.createRead actorUserId newTenantId current.cognitoSub sid draw.later
          (s.store.sessions.get? sid)))
      else some (callTo s index .ended)
  | .createRead userId tenantId cognitoSub prior now found =>
    match found with
    | none => some (callTo s index .ended)
    | some found =>
      if found.userId = userId ∧ isActive found now then
        some (callTo s index (.creating userId tenantId cognitoSub (some prior) now))
      else some (callTo s index .ended)
  | .creating userId tenantId cognitoSub prior now =>
    if freshDraw s draw then
      match createStored options s.store (newRecord options userId tenantId cognitoSub now draw)
        prior now with
      | .error _ => some (callTo s index .ended)
      | .ok (store, _) => some { withStore (callTo s index .ended) store with
          issued := s.issued ++ [⟨draw.hash, draw.sid, draw.familyId, index⟩] }
    else none
  | .ended => none

/-- A call throws where it resolves claims. -/
def failStep (s : Memory) (index : Nat) : Phase → Option Memory
  | .resolving _ _ _ => some (callTo s index .ended)
  | .creating _ _ _ _ _ => some (callTo s index .ended)
  | _ => none

def actStep (options : SessionsOptions) (s : Memory) (draw : Draw) : Act → Option Memory
  | .refresh hash => some (newCall s (.found hash draw.now (s.store.refreshLookups.get? hash)))
  | .touch sid => some (newCall s (.getRead sid (s.store.sessions.get? sid) true))
  | .get sid => some (newCall s (.getRead sid (s.store.sessions.get? sid) false))
  | .getActive sid => some (newCall s (.getActiveRead sid (s.store.sessions.get? sid)))
  | .revoke sid => some (withStore (newCall s .ended) (revokeSession s.store sid))
  | .revokeAllForUser userId =>
    some (newCall s (.listed (filterActive s.store (bucket s.store.sessionsByUser userId))))
  | .revokeAllForTenant tenantId =>
    some (newCall s (.listed (filterActive s.store (bucket s.store.sessionsByTenant tenantId))))
  | .create userId tenantId cognitoSub prior =>
    match prior with
    | none => some (newCall s (.creating userId tenantId cognitoSub none draw.now))
    | some sid => some (newCall s (.createRead userId tenantId cognitoSub sid draw.now
        (s.store.sessions.get? sid)))
  | .exchange sid actorUserId newTenantId =>
    some (newCall s (.exchangeRead sid actorUserId newTenantId (s.store.sessions.get? sid)))
  | .goOn index => s.calls[index]?.bind fun phase => callStep options s index draw phase
  | .fail index => s.calls[index]?.bind fun phase => failStep s index phase

def step (options : SessionsOptions) (s : Memory) (label : Label) : Option Memory :=
  (actStep options s label.draw label.act).map fun t => { t with clock := label.draw.later }

end Stynx.MemorySessions
