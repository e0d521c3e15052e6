/-!
# Session records

`packages/sessions/src/types.ts` and the parts of `session.service.ts` that read
and write no store: what a session and a refresh token are, when a session is
active, and what a new one is.

A refresh token stands for its hash; times are milliseconds.
-/

namespace Stynx.SessionRecords

inductive SessionStatus where
  | active
  | revoked
  /-- Revoked since a used token was presented. -/
  | reuseDetected
  deriving DecidableEq

/-- `SessionRecord`, its times in milliseconds. -/
structure SessionRecord where
  sid : String
  userId : String
  tenantId : String
  /-- The subject of the identity provider. -/
  cognitoSub : String
  refreshFamilyId : String
  refreshTokenHash : String
  status : SessionStatus
  createdAt : Nat
  updatedAt : Nat
  lastTouchedAt : Nat
  expiresAt : Nat
  /-- When it expires unless it is touched. -/
  idleExpiresAt : Nat
  deriving DecidableEq

/-- Whether a refresh token may be exchanged. -/
inductive TokenState where
  | active
  | used
  deriving DecidableEq

structure RefreshTokenLookup where
  sid : String
  familyId : String
  state : TokenState

inductive SingleSessionMode where
  /-- Any number of sessions. -/
  | off
  /-- A new session revokes the others of its user and tenant. -/
  | revokeExisting
  /-- A new session is refused while there is another. -/
  | rejectNew
  deriving DecidableEq

structure SessionsOptions where
  absoluteSeconds : Nat
  idleSeconds : Nat
  mode : SingleSessionMode

/-- `isActive`, and `assertActive`: whether a session is active at a time. -/
def isActive (record : SessionRecord) (now : Nat) : Bool :=
  record.status == .active && now < record.expiresAt && now < record.idleExpiresAt

/-- Why a session is not created. -/
inductive PolicyError where
  /-- The prior session is not the user's, or not active. -/
  | prior
  /-- There is another session. -/
  | conflict

/-- Why a refresh is refused. -/
inductive Refusal where
  | invalid
  /-- `RefreshTokenReuseDetectedError`. -/
  | reuse
  /-- `SessionExpiredError`. -/
  | expired
  deriving DecidableEq

/-- What a call is given from outside: the time, and new identifiers. -/
structure Draw where
  now : Nat
  /-- The time, when the call reads the clock again. -/
  later : Nat := now
  sid : String := ""
  hash : String := ""
  familyId : String := ""

def idleLimit (options : SessionsOptions) (now expiresAt : Nat) : Nat :=
  min (now + options.idleSeconds * 1000) expiresAt

def newRecord (options : SessionsOptions) (userId tenantId cognitoSub : String) (now : Nat)
    (draw : Draw) : SessionRecord where
  sid := draw.sid
  userId := userId
  tenantId := tenantId
  cognitoSub := cognitoSub
  refreshFamilyId := draw.familyId
  refreshTokenHash := draw.hash
  status := .active
  createdAt := now
  updatedAt := now
  lastTouchedAt := now
  expiresAt := now + options.absoluteSeconds * 1000
  idleExpiresAt := idleLimit options now (now + options.absoluteSeconds * 1000)

end Stynx.SessionRecords
