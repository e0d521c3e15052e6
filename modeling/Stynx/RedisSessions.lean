import Stynx.CallTables
import Stynx.OrderedMap
import Stynx.SessionRecords
import Stynx.TransitionRuns

/-!
# Sessions in Redis

`packages/sessions/src/redis-session-store.ts` and `session.service.ts`: a session
is a record under its identifier, its refresh tokens are lookups under their
hashes. Creation and tenant switch run as one script or one transaction; rotation,
touch and revocation read with one command and write with another, so that the
calls of any number of processes interleave at commands.
-/

namespace Stynx.RedisSessions

open TransitionRuns CallTables SessionRecords OrderedMap

structure Store where
  sessions : OrderedMap String SessionRecord := .empty
  refresh : OrderedMap String RefreshTokenLookup := .empty
  /-- `sessions_by_user:` keys. -/
  byUser : OrderedMap String (List String) := .empty
  /-- The sessions whose time is over: Redis drops what is written to them. -/
  lapsed : List String := []

def setSession (store : Store) (sid : String) (record : SessionRecord) : Store :=
  if sid ∈ store.lapsed then store
  else { store with sessions := store.sessions.set sid record }

def setLookup (store : Store) (hash : String) (lookup : RefreshTokenLookup) : Store :=
  if lookup.sid ∈ store.lapsed then store
  else { store with refresh := store.refresh.set hash lookup }

def userIndex (store : Store) (userId : String) : List String :=
  (store.byUser.get? userId).getD []

/-- The keys of a new session. -/
def addSession (store : Store) (record : SessionRecord) : Store :=
  let indexed := { store with
    byUser := store.byUser.set record.userId
      (if record.sid ∈ userIndex store record.userId then userIndex store record.userId
        else userIndex store record.userId ++ [record.sid]) }
  setLookup (setSession indexed record.sid record) record.refreshTokenHash
    ⟨record.sid, record.refreshFamilyId, .active⟩

/-- The keys of a revoked session: its record goes, its token is used. -/
def dropSession (store : Store) (sid : String) (record : SessionRecord) : Store :=
  setLookup { store with
    sessions := store.sessions.delete sid
    byUser := store.byUser.set record.userId
      ((userIndex store record.userId).filter fun member => member ≠ sid) }
    record.refreshTokenHash ⟨sid, record.refreshFamilyId, .used⟩

def rotate (store : Store) (sid currentHash nextHash : String) (idleExpiresAt touchedAt : Nat)
    (current : SessionRecord) : Store :=
  setLookup (setLookup (setSession store sid { current with
      refreshTokenHash := nextHash
      idleExpiresAt := idleExpiresAt
      lastTouchedAt := touchedAt
      updatedAt := touchedAt })
    currentHash ⟨sid, current.refreshFamilyId, .used⟩)
    nextHash ⟨sid, current.refreshFamilyId, .active⟩

def touch (store : Store) (sid : String) (idleExpiresAt touchedAt : Nat)
    (current : SessionRecord) : Store :=
  setSession store sid { current with
    idleExpiresAt := idleExpiresAt
    lastTouchedAt := touchedAt
    updatedAt := touchedAt }

def conflicts (store : Store) (record : SessionRecord) (priorSid : Option String) (now : Nat) :
    List SessionRecord :=
  (userIndex store record.userId).filterMap fun sid =>
    if priorSid = some sid then none
    else (store.sessions.get? sid).filter fun other =>
      other.tenantId == record.tenantId && isActive other now

/-- `CREATE_WITH_POLICY`: the keys after it and the sessions that it has revoked. -/
def createWithPolicy (store : Store) (record : SessionRecord) (mode : SingleSessionMode)
    (priorSid : Option String) (now : Nat) : Except PolicyError (Store × List SessionRecord) :=
  let prior := priorSid.bind fun sid => (store.sessions.get? sid).filter fun found =>
    found.userId == record.userId && isActive found now
  if priorSid.isSome && prior.isNone then .error .prior
  else
    let others := conflicts store record priorSid now
    if mode = .rejectNew ∧ others ≠ [] then .error .conflict
    else
      let revoked := (if mode = .revokeExisting then others else []) ++ prior.toList
      .ok (addSession (revoked.foldl (fun acc other => dropSession acc other.sid other) store)
        record, revoked)

/-- How far a call has come: the command that it sends next. -/
inductive Phase where
  /-- `refresh` looks its token up. -/
  | lookup (hash : String) (now : Nat)
  /-- `refresh` gets the session. -/
  | readCurrent (hash sid : String) (now : Nat)
  /-- `rotateRefreshToken` gets the session. -/
  | rotateSession (hash sid : String) (now idleExpiresAt : Nat)
  /-- `rotateRefreshToken` looks the token up. -/
  | rotateLookup (hash sid : String) (now idleExpiresAt : Nat) (current : Option SessionRecord)
  /-- `rotateRefreshToken` writes. -/
  | rotateExec (hash sid : String) (now idleExpiresAt : Nat) (current : SessionRecord)
  | touchGet (sid : String)
  /-- `touchSession` gets the session. -/
  | touchRead (sid : String) (idleExpiresAt touchedAt : Nat)
  | touchExec (sid : String) (idleExpiresAt touchedAt : Nat) (current : SessionRecord)
  /-- `revokeSession` gets the session; `reuse` is the used token of a refresh. -/
  | revokeRead (sid : String) (reuse : Option String)
  | revokeExec (sid : String) (reuse : Option String) (current : SessionRecord)
  /-- `exchange` gets the session. -/
  | exchangeRead (sid actorUserId newTenantId : String)
  /-- `create` gets the prior session. -/
  | createRead (userId tenantId cognitoSub prior : String) (now : Nat)
  | createExec (userId tenantId cognitoSub : String) (prior : Option String) (now : Nat)
  /-- The call has returned or thrown. -/
  | ended
  deriving DecidableEq

/-- The keys, the calls of all processes, and what has happened so far. -/
structure Sessions where
  store : Store := {}
  calls : List Phase := []
  /-- The tokens that have been issued or presented. -/
  seen : List String := []
  /-- Each token that has been issued, with its session. -/
  issued : List (String × String) := []
  /-- Each token that has been exchanged, with its session. -/
  exchanges : List (String × String) := []
  refusals : List (String × Refusal) := []
  /-- The sessions whose revocation has completed. -/
  revoked : List String := []

inductive Label where
  | refresh (hash : String) (now : Nat)
  | touch (sid : String)
  | revoke (sid : String)
  | create (userId tenantId cognitoSub : String) (prior : Option String) (now : Nat)
  | exchange (sid actorUserId newTenantId : String)
  /-- A call sends its next command. -/
  | command (index : Nat) (draw : Draw)
  /-- A call throws before its next command. -/
  | fail (index : Nat)
  /-- The time of a session is over. -/
  | lapse (sid : String)

def callTo (s : Sessions) (index : Nat) (phase : Phase) : Sessions :=
  { s with calls := s.calls.set index phase }

def refuse (s : Sessions) (index : Nat) (hash : String) (reason : Refusal) : Sessions :=
  { callTo s index .ended with refusals := s.refusals ++ [(hash, reason)] }

def createKeys (options : SessionsOptions) (store : Store) (record : SessionRecord)
    (prior : Option String) (now : Nat) : Except PolicyError (Store × List SessionRecord) :=
  if options.mode = .off ∧ prior = none then .ok (addSession store record, [])
  else createWithPolicy store record options.mode prior now

/-- The end of a revocation: the call of `revoke` returns, a refresh is refused. -/
def endRevoke (s : Sessions) (index : Nat) (reuse : Option String) : Sessions :=
  match reuse with
  | none => callTo s index .ended
  | some hash => refuse s index hash .reuse

def callStep (options : SessionsOptions) (s : Sessions) (index : Nat) (draw : Draw) :
    Phase → Option Sessions
  | .lookup hash now =>
    match s.store.refresh.get? hash with
    | none => some (refuse s index hash .invalid)
    | some lookup =>
      match lookup.state with
      | .used => some (callTo s index (.revokeRead lookup.sid (some hash)))
      | .active => some (callTo s index (.readCurrent hash lookup.sid now))
  | .readCurrent hash sid now =>
    match s.store.sessions.get? sid with
    | none => some (refuse s index hash .invalid)
    | some current =>
      if isActive current now then
        some (callTo s index (.rotateSession hash current.sid now
          (idleLimit options now current.expiresAt)))
      else if current.status = .active then some (refuse s index hash .expired)
      else some (refuse s index hash .invalid)
  | .rotateSession hash sid now idleExpiresAt =>
    some (callTo s index (.rotateLookup hash sid now idleExpiresAt (s.store.sessions.get? sid)))
  | .rotateLookup hash sid now idleExpiresAt current =>
    match current, s.store.refresh.get? hash with
    | some current, some lookup =>
      if lookup.state = .active ∧ current.refreshTokenHash = hash then
        some (callTo s index (.rotateExec hash sid now idleExpiresAt current))
      else some (refuse s index hash .invalid)
    | _, _ => some (refuse s index hash .invalid)
  | .rotateExec hash sid now idleExpiresAt current =>
    if draw.hash ∈ s.seen then none
    else some { callTo s index .ended with
      store := rotate s.store sid hash draw.hash idleExpiresAt now current
      seen := s.seen ++ [draw.hash]
      issued := s.issued ++ [(draw.hash, sid)]
      exchanges := s.exchanges ++ [(hash, sid)] }
  | .touchGet sid =>
    match s.store.sessions.get? sid with
    | none => some (callTo s index .ended)
    | some session =>
      if isActive session draw.now then
        some (callTo s index (.touchRead sid (idleLimit options draw.later session.expiresAt)
          draw.later))
      else if session.status = .active then some (callTo s index (.revokeRead sid none))
      else some (callTo s index .ended)
  | .touchRead sid idleExpiresAt touchedAt =>
    match s.store.sessions.get? sid with
    | none => some (callTo s index .ended)
    | some current => some (callTo s index (.touchExec sid idleExpiresAt touchedAt current))
  | .touchExec sid idleExpiresAt touchedAt current =>
    some { callTo s index .ended with
      store := touch s.store sid idleExpiresAt touchedAt current }
  | .revokeRead sid reuse =>
    match s.store.sessions.get? sid with
    | none => some (endRevoke s index reuse)
    | some current => some (callTo s index (.revokeExec sid reuse current))
  | .revokeExec sid reuse current =>
    some { endRevoke s index reuse with
      store := dropSession s.store sid current
      revoked := s.revoked ++ [sid] }
  | .exchangeRead sid actorUserId newTenantId =>
    match s.store.sessions.get? sid with
    | none => some (callTo s index .ended)
    | some current =>
      if current.userId = actorUserId ∧ isActive current draw.now then
        some (callTo s index (.createRead actorUserId newTenantId current.cognitoSub sid draw.later))
      else some (callTo s index .ended)
  | .createRead userId tenantId cognitoSub prior now =>
    match s.store.sessions.get? prior with
    | none => some (callTo s index .ended)
    | some found =>
      if found.userId = userId ∧ isActive found now then
        some (callTo s index (.createExec userId tenantId cognitoSub (some prior) now))
      else some (callTo s index .ended)
  | .createExec userId tenantId cognitoSub prior now =>
    if draw.hash ∈ s.seen ∨ draw.sid ∈ s.issued.map Prod.snd then none
    else
      match createKeys options s.store (newRecord options userId tenantId cognitoSub now draw) prior
          now with
      | .error _ => some (callTo s index .ended)
      | .ok (store, revoked) => some { callTo s index .ended with
          store := store
          seen := s.seen ++ [draw.hash]
          issued := s.issued ++ [(draw.hash, draw.sid)]
          revoked := s.revoked ++ revoked.map SessionRecord.sid }
  | .ended => none

def newCall (s : Sessions) (phase : Phase) : Sessions := { s with calls := s.calls ++ [phase] }

def lapse (store : Store) (sid : String) : Store :=
  { store with
    sessions := store.sessions.delete sid
    refresh := store.refresh.filter fun entry => entry.2.sid ≠ sid
    lapsed := store.lapsed ++ [sid] }

def step (options : SessionsOptions) (s : Sessions) : Label → Option Sessions
  | .refresh hash now => some { newCall s (.lookup hash now) with seen := s.seen ++ [hash] }
  | .touch sid => some (newCall s (.touchGet sid))
  | .revoke sid => some (newCall s (.revokeRead sid none))
  | .create userId tenantId cognitoSub prior now =>
    match prior with
    | none => some (newCall s (.createExec userId tenantId cognitoSub none now))
    | some sid => some (newCall s (.createRead userId tenantId cognitoSub sid now))
  | .exchange sid actorUserId newTenantId =>
    some (newCall s (.exchangeRead sid actorUserId newTenantId))
  | .command index draw =>
    s.calls[index]?.bind fun phase => callStep options s index draw phase
  | .fail index =>
    s.calls[index]?.bind fun phase =>
      if phase = .ended then none else some (callTo s index .ended)
  | .lapse sid => some { s with store := lapse s.store sid }

variable {store : Store} {sid hash : String} {record : SessionRecord} {lookup : RefreshTokenLookup}

@[simp] theorem refresh_setSession : (setSession store sid record).refresh = store.refresh := by
  unfold setSession
  split <;> rfl

@[simp] theorem lapsed_setSession : (setSession store sid record).lapsed = store.lapsed := by
  unfold setSession
  split <;> rfl

@[simp] theorem sessions_setLookup : (setLookup store hash lookup).sessions = store.sessions := by
  unfold setLookup
  split <;> rfl

@[simp] theorem lapsed_setLookup : (setLookup store hash lookup).lapsed = store.lapsed := by
  unfold setLookup
  split <;> rfl

variable {key : String} {found : RefreshTokenLookup}

theorem get?_setSession {found : SessionRecord}
    (h : (setSession store sid record).sessions.get? key = some found) :
    key = sid ∧ found = record ∨ store.sessions.get? key = some found := by
  unfold setSession at h
  split at h
  · exact .inr h
  · rcases get?_set_eq_some.mp h with ⟨rfl, rfl⟩ | ⟨-, hold⟩
    · exact .inl ⟨rfl, rfl⟩
    · exact .inr hold

theorem get?_setSession_self (h : sid ∉ store.lapsed) :
    (setSession store sid record).sessions.get? sid = some record := by
  rw [setSession, if_neg h]
  exact get?_set_self _ _ _

theorem get?_setSession_of_ne (h : sid ≠ key) :
    (setSession store sid record).sessions.get? key = store.sessions.get? key := by
  unfold setSession
  split
  · rfl
  · exact get?_set_of_ne _ _ h

theorem get?_setLookup (h : (setLookup store hash lookup).refresh.get? key = some found) :
    key = hash ∧ found = lookup ∨ store.refresh.get? key = some found := by
  unfold setLookup at h
  split at h
  · exact .inr h
  · rcases get?_set_eq_some.mp h with ⟨rfl, rfl⟩ | ⟨-, hold⟩
    · exact .inl ⟨rfl, rfl⟩
    · exact .inr hold

theorem get?_setLookup_self (h : lookup.sid ∉ store.lapsed) :
    (setLookup store hash lookup).refresh.get? hash = some lookup := by
  rw [setLookup, if_neg h]
  exact get?_set_self _ _ _

theorem get?_setLookup_of_ne (h : hash ≠ key) :
    (setLookup store hash lookup).refresh.get? key = store.refresh.get? key := by
  unfold setLookup
  split
  · rfl
  · exact get?_set_of_ne _ _ h

@[simp] theorem lapsed_dropSession : (dropSession store sid record).lapsed = store.lapsed := by
  rw [dropSession, lapsed_setLookup]

theorem sessions_dropSession (key : String) :
    (dropSession store sid record).sessions.get? key =
      if sid = key then none else store.sessions.get? key := by
  rw [dropSession, sessions_setLookup]
  exact get?_delete _ _ _

theorem refresh_dropSession (h : (dropSession store sid record).refresh.get? key = some found) :
    key = record.refreshTokenHash ∧ found.sid = sid ∧ found.state = .used ∨
      store.refresh.get? key = some found := by
  rcases get?_setLookup h with ⟨rfl, rfl⟩ | hold
  · exact .inl ⟨rfl, rfl, rfl⟩
  · exact .inr hold

theorem refresh_dropSession_of_ne (h : record.refreshTokenHash ≠ key) :
    (dropSession store sid record).refresh.get? key = store.refresh.get? key := by
  rw [dropSession, get?_setLookup_of_ne h]

/-- Several sessions are revoked. -/
def dropSessions (store : Store) (records : List SessionRecord) : Store :=
  records.foldl (fun acc other => dropSession acc other.sid other) store

@[simp] theorem lapsed_dropSessions (records : List SessionRecord) :
    (dropSessions store records).lapsed = store.lapsed := by
  induction records generalizing store with
  | nil => rfl
  | cons first rest ih =>
    rw [dropSessions, List.foldl_cons]
    exact ih.trans lapsed_dropSession

theorem sessions_dropSessions (records : List SessionRecord) (key : String) :
    (dropSessions store records).sessions.get? key =
      if key ∈ records.map SessionRecord.sid then none else store.sessions.get? key := by
  induction records generalizing store with
  | nil => rfl
  | cons first rest ih =>
    have hrest := @ih (dropSession store first.sid first)
    rw [sessions_dropSession] at hrest
    rw [dropSessions, List.foldl_cons]
    refine hrest.trans ?_
    rw [List.map_cons]
    by_cases hfirst : first.sid = key
    · rw [if_pos hfirst, ite_self, if_pos (hfirst ▸ List.mem_cons_self)]
    · have hiff : key ∈ first.sid :: rest.map SessionRecord.sid ↔
          key ∈ rest.map SessionRecord.sid :=
        List.mem_cons.trans (or_iff_right (Ne.symm hfirst))
      rw [if_neg hfirst]
      simp only [hiff]

theorem refresh_dropSessions {records : List SessionRecord}
    (h : (dropSessions store records).refresh.get? key = some found) :
    (∃ other ∈ records, key = other.refreshTokenHash ∧ found.sid = other.sid ∧
      found.state = .used) ∨ store.refresh.get? key = some found := by
  induction records generalizing store with
  | nil => exact .inr h
  | cons first rest ih =>
    rw [dropSessions, List.foldl_cons] at h
    rcases ih h with ⟨other, hother, hrest⟩ | hold
    · exact .inl ⟨other, .tail first hother, hrest⟩
    · rcases refresh_dropSession hold with hnew | hold
      · exact .inl ⟨first, (.head _), hnew⟩
      · exact .inr hold

theorem refresh_dropSessions_of_ne {records : List SessionRecord}
    (h : ∀ other ∈ records, other.refreshTokenHash ≠ key) :
    (dropSessions store records).refresh.get? key = store.refresh.get? key := by
  induction records generalizing store with
  | nil => rfl
  | cons first rest ih =>
    rw [dropSessions, List.foldl_cons]
    refine (ih fun other hother => h other (.tail first hother)).trans ?_
    exact refresh_dropSession_of_ne (h first (.head _))

theorem createKeys_ok {options : SessionsOptions} {prior : Option String} {now : Nat}
    {after : Store} {revoked : List SessionRecord}
    (h : createKeys options store record prior now = .ok (after, revoked)) :
    after = addSession (dropSessions store revoked) record ∧
      ∀ other ∈ revoked, ∃ key, store.sessions.get? key = some other := by
  unfold createKeys at h
  split at h
  · cases h
    exact ⟨rfl, fun other hother => absurd hother List.not_mem_nil⟩
  · simp only [createWithPolicy] at h
    split at h
    · cases h
    · split at h
      · cases h
      · cases h
        refine ⟨rfl, fun other hother => ?_⟩
        rcases List.mem_append.mp hother with hconflict | hprior
        · split at hconflict
          · obtain ⟨key, -, hkey⟩ := List.mem_filterMap.mp hconflict
            split at hkey
            · cases hkey
            · exact ⟨key, (Option.filter_eq_some_iff.mp hkey).1⟩
          · exact absurd hconflict List.not_mem_nil
        · rw [Option.mem_toList] at hprior
          obtain ⟨key, -, hkey⟩ := Option.bind_eq_some_iff.mp hprior
          exact ⟨key, (Option.filter_eq_some_iff.mp hkey).1⟩

@[simp] theorem lapsed_addSession : (addSession store record).lapsed = store.lapsed := by
  rw [addSession, lapsed_setLookup, lapsed_setSession]

theorem sessions_addSession {found : SessionRecord}
    (h : (addSession store record).sessions.get? key = some found) :
    key = record.sid ∧ found = record ∨ store.sessions.get? key = some found := by
  rw [addSession, sessions_setLookup] at h
  rcases get?_setSession h with hnew | hold
  · exact .inl hnew
  · exact .inr hold

theorem sessions_addSession_of_ne (h : record.sid ≠ key) :
    (addSession store record).sessions.get? key = store.sessions.get? key := by
  rw [addSession, sessions_setLookup, get?_setSession_of_ne h]

theorem sessions_addSession_self (h : record.sid ∉ store.lapsed) :
    (addSession store record).sessions.get? record.sid = some record := by
  rw [addSession, sessions_setLookup]
  exact get?_setSession_self h

theorem refresh_addSession (h : (addSession store record).refresh.get? key = some found) :
    key = record.refreshTokenHash ∧ found = ⟨record.sid, record.refreshFamilyId, .active⟩ ∨
      store.refresh.get? key = some found := by
  rcases get?_setLookup h with hnew | hold
  · exact .inl hnew
  · rw [refresh_setSession] at hold
    exact .inr hold

theorem refresh_addSession_of_ne (h : record.refreshTokenHash ≠ key) :
    (addSession store record).refresh.get? key = store.refresh.get? key := by
  rw [addSession, get?_setLookup_of_ne h, refresh_setSession]

theorem refresh_addSession_self (h : record.sid ∉ store.lapsed) :
    (addSession store record).refresh.get? record.refreshTokenHash =
      some ⟨record.sid, record.refreshFamilyId, .active⟩ := by
  refine get?_setLookup_self ?_
  rw [lapsed_setSession]
  exact h

end Stynx.RedisSessions
