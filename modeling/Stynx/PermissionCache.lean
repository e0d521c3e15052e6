import Stynx.TtlLruCaches
import Stynx.TransitionRuns

/-!
# The permission cache of sessions

`PermissionCache` of `packages/auth/src/permission-cache.ts`: the permissions of a
session from memory, from a backend or from the database, with a probe of the
hash of the membership that is repeated once a second. The backend works: it
finds what was last set for a session, until it expires or is deleted.

The database is a function of time.
-/

namespace Stynx.PermissionCache

open TtlLruCaches

structure ResolvedPermissionState where
  membershipId : String
  permissions : List String
  /-- `computePermissionsHash` of the permissions. -/
  hash : String
  /-- `effective_hash_generation` -/
  generation : Nat

/-- `resolveForUser` of a user in a tenant; `none` where there is no active membership. -/
abbrev Database := String → String → Option ResolvedPermissionState

structure HashProbeState where
  hash : Option String
  generation : Nat

/-- `probeHash`. The hash that a membership keeps is that of its resolved permissions. -/
def probeHash (db : Database) (userId tenantId : String) : HashProbeState :=
  match db userId tenantId with
  | some membership => ⟨some membership.hash, membership.generation⟩
  | none => ⟨none, 0⟩

structure PermissionCacheRecord where
  sid : String
  userId : String
  tenantId : String
  membershipId : String
  permissions : List String
  hash : String
  generation : Nat
  computedAt : Int

/-- `StynxAccessTokenClaims`, as far as they are read. -/
structure StynxAccessTokenClaims where
  sub : String
  tenantId : String
  sid : String
  permsHash : Option String

structure Cache where
  /-- Records by session, for five seconds. -/
  inMemory : TtlLruCache PermissionCacheRecord
  /-- Probes by user and tenant, for one second. -/
  hashProbe : TtlLruCache HashProbeState
  /-- Records of the backend, with the instants at which they expire. -/
  backend : OrderedMap String (PermissionCacheRecord × Int)

/-- A new cache, with an empty backend. -/
def Cache.initial : Cache := ⟨.empty 5000 10000, .empty 1000 10000, .empty⟩

def hashProbeKey (userId tenantId : String) : String := userId ++ ":" ++ tenantId

def Cache.backendGet (s : Cache) (now : Int) (sid : String) : Option PermissionCacheRecord :=
  match s.backend.get? sid with
  | some (record, expiresAt) => if expiresAt ≤ now then none else some record
  | none => none

def Cache.backendSet (s : Cache) (now : Int) (record : PermissionCacheRecord)
    (ttlSeconds : Int) : Cache :=
  { s with backend := s.backend.set record.sid (record, now + ttlSeconds * 1000) }

def detectHashDrift (db : Database) (now : Int) (s : Cache) (userId tenantId currentHash : String) :
    Bool × Cache :=
  let key := hashProbeKey userId tenantId
  match s.hashProbe.get now key with
  | (some cached, probes) => (cached.hash ≠ some currentHash, { s with hashProbe := probes })
  | (none, probes) =>
    let probed := probeHash db userId tenantId
    (probed.hash ≠ none && probed.hash ≠ some currentHash,
      { s with hashProbe := probes.set now key probed })

def answers (claims : StynxAccessTokenClaims) (record : PermissionCacheRecord) : Bool :=
  match claims.permsHash with
  | none => true
  | some permsHash => permsHash = "" || record.hash = permsHash

/-- A record that was found, unless it does not answer the claims or its hash has drifted. -/
def checked (db : Database) (now : Int) (s : Cache) (claims : StynxAccessTokenClaims)
    (found : Option PermissionCacheRecord) : Option PermissionCacheRecord × Cache :=
  match found with
  | some record =>
    if answers claims record then
      let (drift, s) := detectHashDrift db now s record.userId record.tenantId record.hash
      (if drift then none else some record, s)
    else (none, s)
  | none => (none, s)

def recordOf (now : Int) (userId tenantId sid : String) (resolved : ResolvedPermissionState) :
    PermissionCacheRecord :=
  { sid := sid, userId := userId, tenantId := tenantId, membershipId := resolved.membershipId
    permissions := resolved.permissions, hash := resolved.hash
    generation := resolved.generation, computedAt := now }

/-- The writes of `recompute` and `prime`. -/
def remember (now : Int) (s : Cache) (record : PermissionCacheRecord) (ttlSeconds : Int) : Cache :=
  let s := { s with
    inMemory := s.inMemory.set now record.sid record
    hashProbe := s.hashProbe.set now (hashProbeKey record.userId record.tenantId)
      ⟨some record.hash, record.generation⟩ }
  s.backendSet now record ttlSeconds

/-- `recompute`; `none` where access is denied. -/
def recompute (db : Database) (now : Int) (s : Cache) (userId tenantId sid : String) :
    Option PermissionCacheRecord × Cache :=
  match db userId tenantId with
  | none => (none, s)
  | some resolved =>
    let record := recordOf now userId tenantId sid resolved
    (some record, remember now s record (24 * 60 * 60))

def getForSession (db : Database) (now : Int) (s : Cache) (claims : StynxAccessTokenClaims) :
    Option PermissionCacheRecord × Cache :=
  let (inMemory, records) := s.inMemory.get now claims.sid
  match checked db now { s with inMemory := records } claims inMemory with
  | (some record, s) => (some record, s)
  | (none, s) =>
    match checked db now s claims (s.backendGet now claims.sid) with
    | (some record, s) => (some record, { s with inMemory := s.inMemory.set now claims.sid record })
    | (none, s) => recompute db now s claims.sub claims.tenantId claims.sid

/-- `prime`, with the milliseconds of `expiresAtIso`: at least one second, rounded up. -/
def prime (now : Int) (s : Cache) (record : PermissionCacheRecord) (expiresAt : Int) : Cache :=
  remember now s record (max 1 (-((now - expiresAt) / 1000)))

def invalidateSid (s : Cache) (sid : String) : Cache :=
  { s with inMemory := s.inMemory.delete sid, backend := s.backend.delete sid }

def scopeOf (message : String) : Option (String × String) :=
  match message.toList.splitOn ':' with
  | userId :: tenantId :: _ =>
    if userId = [] ∨ tenantId = [] then none else some (.ofList userId, .ofList tenantId)
  | _ => none

def inScope (userId tenantId : String) (record : PermissionCacheRecord) : Bool :=
  (userId = "*" || record.userId = userId) && (tenantId = "*" || record.tenantId = tenantId)

/-- Whether `invalidateScope` of the backend deletes a record: there, only the user may be `*`. -/
def inBackendScope (userId tenantId : String) (record : PermissionCacheRecord) : Bool :=
  if userId = "*" then tenantId = "*" || record.tenantId = tenantId
  else record.userId = userId && record.tenantId = tenantId

/-- The loop of `handleInvalidation` over the records in memory. -/
def dropScope (userId tenantId : String) (records : List PermissionCacheRecord)
    (c : TtlLruCache PermissionCacheRecord) : TtlLruCache PermissionCacheRecord :=
  records.foldl
    (fun c record => if inScope userId tenantId record then c.delete record.sid else c) c

def handleInvalidation (s : Cache) (message : String) : Cache :=
  match scopeOf message with
  | none => s
  | some (userId, tenantId) =>
    { s with
      inMemory :=
        if userId = "*" ∧ tenantId = "*" then s.inMemory.clear
        else dropScope userId tenantId s.inMemory.values s.inMemory
      backend := s.backend.filter fun p => !inBackendScope userId tenantId p.2.1 }

/-- `resyncStaleCacheEntries`; a refresh that is denied leaves everything as it is. -/
def resyncStaleCacheEntries (db : Database) (now : Int) (s : Cache) (staleThresholdMs : Int) :
    Cache :=
  s.inMemory.values.foldl
    (fun s record =>
      if staleThresholdMs ≤ now - record.computedAt then
        (recompute db now s record.userId record.tenantId record.sid).2
      else s) s

end Stynx.PermissionCache
