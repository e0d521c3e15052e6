import Stynx.MembershipCache
import Stynx.RegExp
import Stynx.UuidTexts

/-!
# Admissions to tenants

`hasActiveMembership` of `packages/tenancy/src/tenant-context.interceptor.ts` asks the membership
cache and then the database, and writes what it has read into the cache.
`suspendTenant`, `archiveTenant` and `purgeTenant` of `packages/tenancy/src/tenancy.service.ts`
invalidate the tenant in the cache once their transaction has committed. Each `await` ends a
step. A query sees what is committed.
-/

namespace Stynx.TenantAdmissions

open MembershipCache

/-- Groups of four digits, with or without a hyphen between two groups, and what follows them. -/
def fourDigits : Nat → List Char → Option (List Char × List Char)
  | 0, rest => some ([], rest)
  | groups + 1, a :: b :: c :: d :: rest =>
    let rest := match groups, rest with
      | _ + 1, '-' :: tail => tail
      | _, _ => rest
    (fourDigits groups rest).map fun (digits, rest) => (a :: b :: c :: d :: digits, rest)
  | _, _ => none

/-- `value::uuid`; braces may stand around the digits. -/
def castUuid (value : String) : Option Nat :=
  let (closing, text) := match value.toList with
    | '\x7b' :: rest => (['\x7d'], rest)
    | text => ([], text)
  (fourDigits 8 text).bind fun (digits, rest) =>
    if rest = closing then UuidTexts.read digits else none

def isUuidV7 (value : String) : Bool :=
  (UuidTexts.parse value).isSome && value.toList[14]? == some '7' &&
    (value.toList[19]?).any fun c => c.toLower ∈ ['8', '9', 'a', 'b']

inductive TenantState where
  | provisioning
  | active
  | suspended
  | archived
  | purged
  deriving DecidableEq

structure Tenant where
  isActive : Bool
  state : TenantState
  suspendedReason : Option String
  archivedAt : Option Int

/-- The tables that an admission reads. -/
structure Db where
  tenants : OrderedMap Nat Tenant
  /-- `is_active` of `auth.memberships` by tenant and user. -/
  memberships : OrderedMap (Nat × Nat) Bool

/-- A tenant whose members may be admitted. -/
def Db.activeTenant (db : Db) (tenantId : Nat) : Bool :=
  (db.tenants.get? tenantId).any fun row => row.isActive && row.state == .active

/-- The query of `hasActiveMembership`; `none` when an identifier cannot be cast. -/
def activeMembership (db : Db) (userId tenantId : String) : Option Bool :=
  (castUuid userId).bind fun user => (castUuid tenantId).map fun tenant =>
    (db.memberships.get? (tenant, user)).getD false && db.activeTenant tenant

/-- The operations that end the admissions of a tenant. -/
inductive Lifecycle where
  | suspendTenant (reason : String)
  | archiveTenant
  | purgeTenant

/-- What an operation writes into the row of the tenant. -/
def Lifecycle.update (now : Int) (row : Tenant) : Lifecycle → Tenant
  | .suspendTenant reason =>
    { row with
      isActive := false
      state := .suspended
      suspendedReason := some (String.ofList (RegExp.trim reason.toList)) }
  | .archiveTenant =>
    { row with
      isActive := false
      state := .archived
      archivedAt := some (row.archivedAt.getD now) }
  | .purgeTenant => { row with isActive := false, state := .purged }

/-- Where `hasActiveMembership` stands. -/
inductive AdmissionPhase where
  | querying
  /-- The database has answered. -/
  | read (allowed : Bool)
  | returned (allowed : Bool)
  | failed
  deriving DecidableEq

/-- A call of `hasActiveMembership`. -/
structure Admission where
  userId : String
  /-- The tenant, as the request spells it. -/
  tenantId : String
  phase : AdmissionPhase

inductive OperationPhase where
  | running
  | committed
  | returned
  | failed
  deriving DecidableEq

structure Operation where
  kind : Lifecycle
  /-- The tenant, as the request spells it. -/
  id : String
  phase : OperationPhase

/-- The tables, the cache and the calls of the process. -/
structure State where
  db : Db
  cache : Entries := .empty
  /-- The admissions, in the order in which they began. -/
  admissions : List Admission := []
  /-- The operations, in the order in which they began. -/
  operations : List Operation := []

inductive Label where
  /-- `hasActiveMembership` is called, inside a transaction of its caller or not. -/
  | request (userId tenantId : String) (held : Bool) (now : Int)
  /-- The database answers an admission, or fails. -/
  | query (index : Nat) (succeeds : Bool)
  /-- An admission writes the cache and returns. -/
  | finish (index : Nat) (now : Int)
  /-- An operation is called. -/
  | begin (kind : Lifecycle) (id : String)
  /-- The transaction of an operation commits. -/
  | commit (index : Nat) (now : Int)
  /-- An operation throws. -/
  | fail (index : Nat)
  /-- An operation invalidates the tenant and returns. -/
  | settle (index : Nat)
  /-- Someone else has written the tables. -/
  | write (db : Db)

/-- `hasActiveMembership` up to its first `await`. -/
def hasActiveMembership (s : State) (userId tenantId : String) (held : Bool) (now : Int) : State :=
  if held then { s with admissions := s.admissions ++ [⟨userId, tenantId, .failed⟩] }
  else
    match get s.cache now userId tenantId with
    | (some cached, cache) =>
      { s with
        cache := cache
        admissions := s.admissions ++ [⟨userId, tenantId, .returned cached⟩] }
    | (none, cache) =>
      { s with cache := cache, admissions := s.admissions ++ [⟨userId, tenantId, .querying⟩] }

def Admission.answered (a : Admission) (db : Db) (succeeds : Bool) : Admission :=
  { a with
    phase := match succeeds, activeMembership db a.userId a.tenantId with
      | true, some allowed => .read allowed
      | _, _ => .failed }

/-- The transaction of an operation, which throws when there is no such tenant. -/
def commit (s : State) (index : Nat) (op : Operation) (now : Int) : State :=
  match (castUuid op.id).bind fun tenant => (s.db.tenants.get? tenant).map fun row =>
      (tenant, row) with
  | some (tenant, row) =>
    { s with
      db := { s.db with tenants := s.db.tenants.set tenant (op.kind.update now row) }
      operations := s.operations.set index { op with phase := .committed } }
  | none => { s with operations := s.operations.set index { op with phase := .failed } }

/-- What a step does. A tenant is checked by `isUuidV7` before `hasActiveMembership` is called. -/
def step (options : Options) (s : State) : Label → Option State
  | .request userId tenantId held now =>
    if isUuidV7 tenantId then some (hasActiveMembership s userId tenantId held now) else none
  | .query index succeeds =>
    (s.admissions[index]?).bind fun a =>
      match a.phase with
      | .querying => some { s with admissions := s.admissions.set index (a.answered s.db succeeds) }
      | _ => none
  | .finish index now =>
    (s.admissions[index]?).bind fun a =>
      match a.phase with
      | .read allowed =>
        some { s with
          cache := set options s.cache now a.userId a.tenantId allowed
          admissions := s.admissions.set index { a with phase := .returned allowed } }
      | _ => none
  | .begin kind id => some { s with operations := s.operations ++ [⟨kind, id, .running⟩] }
  | .commit index now =>
    (s.operations[index]?).bind fun op =>
      if op.phase = .running then some (commit s index op now) else none
  | .fail index =>
    (s.operations[index]?).bind fun op =>
      if op.phase = .running ∨ op.phase = .committed then
        some { s with operations := s.operations.set index { op with phase := .failed } }
      else none
  | .settle index =>
    (s.operations[index]?).bind fun op =>
      if op.phase = .committed then
        some { s with
          cache := invalidateTenant s.cache op.id
          operations := s.operations.set index { op with phase := .returned } }
      else none
  | .write db => some { s with db := db }

def resolveTenancyOptions : Options := ⟨5000, 1000, by decide⟩

end Stynx.TenantAdmissions
