import Stynx.MemorySessions

/-!
# Lists of revoked sessions

`packages/sessions/src/session-revocation-list.ts` over a session store that several
instances share.

Store operations are atomic. A call sends an operation, the store runs it, and
the call goes on, each in a step of its own; the instances share one clock, and
each step happens at a time.
-/

namespace Stynx.RevocationLists

open TransitionRuns CallTables SessionRecords

/-- `RETENTION_SKEW_MS`. -/
def skew : Nat := 60000

/-- The options of all instances. -/
structure Options where
  sessions : SessionsOptions
  accessSeconds : Nat
  /-- How long a list serves without a refresh. -/
  maxStalenessMs : Nat
  /-- Whether the store stamps what `createWithPolicy` revokes with its own time. -/
  serverTime : Bool

def retentionMs (options : Options) : Nat := options.accessSeconds * 1000 + skew

structure RevocationList where
  /-- The revoked sessions, and how long to keep them. -/
  revoked : OrderedMap String Nat := .empty
  /-- When the last successful refresh began. -/
  lastRefreshedAt : Option Nat := none
  refreshing : Bool := false

def isRevoked (list : RevocationList) (sid : String) (now : Nat) : Bool :=
  match list.revoked.get? sid with
  | none => false
  | some deadline => decide (now < deadline)

def check (list : RevocationList) (sid : String) (now : Nat) : RevocationList :=
  match list.revoked.get? sid with
  | none => list
  | some deadline =>
    if deadline ≤ now then { list with revoked := list.revoked.delete sid } else list

def isStale (options : Options) (list : RevocationList) (now : Nat) : Bool :=
  match list.lastRefreshedAt with
  | none => true
  | some refreshedAt => decide (options.maxStalenessMs < now - refreshedAt)

def add (options : Options) (list : RevocationList) (sid : String) (revokedAt : Nat) :
    RevocationList :=
  let deadline := revokedAt + retentionMs options
  match list.revoked.get? sid with
  | none => { list with revoked := list.revoked.set sid deadline }
  | some current =>
    if current < deadline then { list with revoked := list.revoked.set sid deadline } else list

def prune (list : RevocationList) (now : Nat) : RevocationList :=
  { list with revoked := list.revoked.filter fun entry => now < entry.2 }

/-- The loop of `refreshFromStore`. -/
def addEntries (options : Options) (list : RevocationList) (entries : List (String × Nat)) :
    RevocationList :=
  entries.foldl (fun acc entry => if entry.1 = "" then acc else add options acc entry.1 entry.2)
    list

/-- `signAccessToken`: the `exp` of a token. -/
def expiresAtSeconds (options : Options) (record : SessionRecord) (issuedAt : Nat) : Nat :=
  min (issuedAt / 1000 + options.accessSeconds)
    (min (record.expiresAt / 1000) (record.idleExpiresAt / 1000))

/-- The sessions, and when they have been revoked. -/
structure Shared where
  store : MemorySessions.Store := {}
  /-- The revoked sessions with their scores. -/
  index : OrderedMap String Nat := .empty

def revokeSession (shared : Shared) (sid : String) (revokedAt : Nat) : Option Shared :=
  match shared.store.sessions.get? sid with
  | none => none
  | some session => some
      ⟨MemorySessions.removeSession shared.store sid session, shared.index.set sid revokedAt⟩

def setScores (index : OrderedMap String Nat) (revoked : List SessionRecord) (score : Nat) :
    OrderedMap String Nat :=
  revoked.foldl (fun acc session => acc.set session.sid score) index

def createShared (options : Options) (shared : Shared) (record : SessionRecord)
    (prior : Option String) (now time : Nat) :
    Except PolicyError (Shared × List SessionRecord) :=
  match MemorySessions.createStored options.sessions shared.store record prior now with
  | .error reason => .error reason
  | .ok (store, revoked) =>
    .ok (⟨store, setScores shared.index revoked (if options.serverTime then time else now)⟩,
      revoked)

/-- `listRevokedSessions`: the store after it, and what it answers. -/
def listRevokedSessions (shared : Shared) (since : Nat) : Shared × List (String × Nat) :=
  let kept := shared.index.filter fun entry => since ≤ entry.2
  ({ shared with index := kept }, kept.entries)

/-- What a call does next. -/
inductive Phase where
  /-- The store looks a token up for `refresh`. -/
  | lookup (hash : String) (now : Nat)
  | found (hash : String) (now : Nat) (lookup : RefreshTokenLookup)
  /-- The store gets the session for `refresh`. -/
  | readCurrent (hash : String) (now : Nat) (sid : String)
  /-- The store rotates the token. -/
  | rotate (hash : String) (now : Nat) (current : SessionRecord)
  /-- The store revokes a session. -/
  | revoke (sid : String) (revokedAt : Nat)
  /-- The store gets the prior session for `create`. -/
  | createRead (userId tenantId cognitoSub prior : String) (now : Nat)
  /-- The store creates a session. -/
  | create (userId tenantId cognitoSub : String) (prior : Option String) (now : Nat)
  /-- The call adds revocations to the list of its instance, and then mints a token. -/
  | recording (stamps : List (String × Nat)) (mint : Option (Nat × SessionRecord))
  /-- The call mints an access token. -/
  | signing (now : Nat) (record : SessionRecord)
  /-- The store lists revoked sessions. -/
  | list (startedAt : Nat)
  /-- The list of the instance takes them over. -/
  | listed (startedAt : Nat) (entries : List (String × Nat))
  /-- The call has returned or thrown. -/
  | ended

structure Call where
  node : Nat
  started : Nat
  /-- The sessions that had been revoked when it started. -/
  seen : List String
  phase : Phase

/-- The store, the instances, and what has happened so far. -/
structure Cluster where
  shared : Shared := {}
  lists : Nat → RevocationList := fun _ => {}
  calls : List Call := []
  /-- The refresh tokens that have been issued. -/
  issued : List MemorySessions.Issue := []
  /-- The access tokens that have been minted: session and `exp`. -/
  minted : List (String × Nat) := []
  /-- The sessions that the store has revoked, and when. -/
  revoked : List (String × Nat) := []
  /-- The sessions that had been revoked when the last successful refresh of an instance began. -/
  covered : Nat → List String := fun _ => []
  /-- The revocations that an instance has made and recorded. -/
  recorded : List (Nat × String) := []
  clock : Nat := 0

inductive Act where
  /-- `refresh` of the service is called. -/
  | refresh (node : Nat) (hash : String)
  | revoke (node : Nat) (sid : String)
  | create (node : Nat) (userId tenantId cognitoSub : String) (prior : Option String)
  | listRefresh (node : Nat)
  /-- `size` prunes the list. -/
  | prune (node : Nat)
  /-- `isRevoked` is called. -/
  | check (node : Nat) (sid : String)
  /-- The next step of a call. -/
  | goOn (index : Nat)
  /-- A call throws. -/
  | fail (index : Nat)

structure Label where
  act : Act
  draw : Draw

def callTo (s : Cluster) (index : Nat) (call : Call) (phase : Phase) : Cluster :=
  { s with calls := s.calls.set index { call with phase := phase } }

def newCall (s : Cluster) (node : Nat) (phase : Phase) : Cluster :=
  { s with calls := s.calls ++ [⟨node, s.clock, s.revoked.map Prod.fst, phase⟩] }

/-- The list of an instance changes. -/
def withList (s : Cluster) (node : Nat) (list : RevocationList) : Cluster :=
  { s with lists := fun other => if other = node then list else s.lists other }

/-- What follows the recording of revocations. -/
def afterRecording : Option (Nat × SessionRecord) → Phase
  | none => .ended
  | some (now, record) => .signing now record

def callStep (options : Options) (s : Cluster) (index : Nat) (draw : Draw) (call : Call) :
    Option Cluster :=
  match call.phase with
  | .lookup hash now =>
    match s.shared.store.refreshLookups.get? hash with
    | none => some (callTo s index call .ended)
    | some lookup => some (callTo s index call (.found hash now lookup))
  | .found hash now lookup =>
    match lookup.state with
    | .used => some (callTo s index call (.revoke lookup.sid s.clock))
    | .active => some (callTo s index call (.readCurrent hash now lookup.sid))
  | .readCurrent hash now sid =>
    match s.shared.store.sessions.get? sid with
    | none => some (callTo s index call .ended)
    | some current =>
      if isActive current now then some (callTo s index call (.rotate hash now current))
      else some (callTo s index call .ended)
  | .rotate hash now current =>
    if s.issued.all fun issue => issue.hash ≠ draw.hash then
      match MemorySessions.rotateRefreshToken s.shared.store current.sid hash draw.hash
        (idleLimit options.sessions now current.expiresAt) now with
      | none => some (callTo s index call .ended)
      | some (store, updated) => some { callTo s index call (.signing now updated) with
          shared := { s.shared with store := store }
          issued := s.issued ++ [⟨draw.hash, updated.sid, updated.refreshFamilyId, index⟩] }
    else none
  | .revoke sid revokedAt =>
    match revokeSession s.shared sid revokedAt with
    | none => some (callTo s index call .ended)
    | some shared => some { callTo s index call (.recording [(sid, revokedAt)] none) with
        shared := shared
        revoked := s.revoked ++ [(sid, s.clock)] }
  | .createRead userId tenantId cognitoSub prior now =>
    match s.shared.store.sessions.get? prior with
    | none => some (callTo s index call .ended)
    | some found =>
      if found.userId = userId ∧ isActive found now then
        some (callTo s index call (.create userId tenantId cognitoSub (some prior) now))
      else some (callTo s index call .ended)
  | .create userId tenantId cognitoSub prior now =>
    if draw.sid ≠ "" ∧ ∀ issue ∈ s.issued,
        issue.hash ≠ draw.hash ∧ issue.sid ≠ draw.sid ∧ issue.familyId ≠ draw.familyId then
      let record := newRecord options.sessions userId tenantId cognitoSub now draw
      match createShared options s.shared record prior now s.clock with
      | .error _ => some (callTo s index call .ended)
      | .ok (shared, revoked) => some
          { callTo s index call (.recording (revoked.map fun session => (session.sid, now))
              (some (now, record))) with
            shared := shared
            issued := s.issued ++ [⟨draw.hash, draw.sid, draw.familyId, index⟩]
            revoked := s.revoked ++ revoked.map fun session => (session.sid, s.clock) }
    else none
  | .recording stamps mint =>
    some { withList (callTo s index call (afterRecording mint)) call.node
        (stamps.foldl (fun acc stamp => add options acc stamp.1 stamp.2) (s.lists call.node)) with
      recorded := s.recorded ++ stamps.map fun stamp => (call.node, stamp.1) }
  | .signing now record =>
    some { callTo s index call .ended with
      minted := s.minted ++ [(record.sid, expiresAtSeconds options record now)] }
  | .list startedAt =>
    let (shared, entries) := listRevokedSessions s.shared (startedAt - retentionMs options)
    some { callTo s index call (.listed startedAt entries) with shared := shared }
  | .listed startedAt entries =>
    some { withList (callTo s index call .ended) call.node
        { prune (addEntries options (s.lists call.node) entries) s.clock with
          lastRefreshedAt := some startedAt
          refreshing := false } with
      covered := fun node => if node = call.node then call.seen else s.covered node }
  | .ended => none

def failStep (s : Cluster) (index : Nat) (call : Call) : Option Cluster :=
  match call.phase with
  | .ended => none
  | .list _ => some (withList (callTo s index call .ended) call.node
      { s.lists call.node with refreshing := false })
  | .listed _ _ => some (withList (callTo s index call .ended) call.node
      { s.lists call.node with refreshing := false })
  | _ => some (callTo s index call .ended)

/-- What happens at a time. -/
def actStep (options : Options) (s : Cluster) (draw : Draw) : Act → Option Cluster
  | .refresh node hash => some (newCall s node (.lookup hash s.clock))
  | .revoke node sid => some (newCall s node (.revoke sid s.clock))
  | .create node userId tenantId cognitoSub prior =>
    match prior with
    | none => some (newCall s node (.create userId tenantId cognitoSub none s.clock))
    | some sid => some (newCall s node (.createRead userId tenantId cognitoSub sid s.clock))
  | .listRefresh node =>
    if (s.lists node).refreshing then some s
    else some (withList (newCall s node (.list s.clock)) node
      { s.lists node with refreshing := true })
  | .prune node => some (withList s node (prune (s.lists node) s.clock))
  | .check node sid => some (withList s node (check (s.lists node) sid s.clock))
  | .goOn index => s.calls[index]?.bind fun call => callStep options s index draw call
  | .fail index => s.calls[index]?.bind fun call => failStep s index call

/-- Time passes. -/
def tick (s : Cluster) (now : Nat) : Cluster := { s with clock := now }

/-- One step: it does not happen before the last one. -/
def step (options : Options) (s : Cluster) (label : Label) : Option Cluster :=
  if label.draw.now < s.clock then none
  else actStep options (tick s label.draw.now) label.draw label.act

/-- A call goes on within the skew from its start. -/
def InTime (s : Cluster) (label : Label) : Prop :=
  match label.act with
  | .goOn index => ∀ call ∈ s.calls[index]?, label.draw.now ≤ call.started + skew
  | _ => True

instance decidableInTime (s : Cluster) : ∀ label, Decidable (InTime s label)
  | ⟨.goOn index, draw⟩ =>
    inferInstanceAs (Decidable (∀ call ∈ s.calls[index]?, draw.now ≤ call.started + skew))
  | ⟨.refresh _ _, _⟩ => isTrue trivial
  | ⟨.revoke _ _, _⟩ => isTrue trivial
  | ⟨.create _ _ _ _ _, _⟩ => isTrue trivial
  | ⟨.listRefresh _, _⟩ => isTrue trivial
  | ⟨.prune _, _⟩ => isTrue trivial
  | ⟨.check _ _, _⟩ => isTrue trivial
  | ⟨.fail _, _⟩ => isTrue trivial

end Stynx.RevocationLists
