import Stynx.PermissionWildcards

/-!
# Effective hashes of memberships

`packages/auth/src/permission-query.service.ts` resolves the permissions of a user in a tenant from
the tables of `packages/data/migrations/platform/0005_auth.sql`, and
`packages/auth/src/effective-hash-computer.ts` stores their hash with the membership. Each kind of
change has a hook that finds the memberships it concerns, in its transaction.
-/

namespace Stynx.EffectiveHashes

open Permissions TextOrder

structure Perm where
  id : String
  key : Key

structure Role where
  id : String
  /-- `tenant_id`: none for a role of the platform. -/
  tenantId : Option String
  deriving DecidableEq

structure RolePerm where
  roleId : String
  permId : String
  deriving DecidableEq

structure MembershipRole where
  membershipId : String
  roleId : String
  deriving DecidableEq

structure DirectPerm where
  id : String
  membershipId : String
  permId : String
  effect : String
  deriving DecidableEq

structure GroupMembership where
  groupId : String
  membershipId : String
  deriving DecidableEq

structure GroupRole where
  groupId : String
  roleId : String
  deriving DecidableEq

structure Membership where
  id : String
  tenantId : String
  userId : String
  isActive : Bool
  effectiveHash : Option (List Char)
  effectiveHashGeneration : Nat

/-- What the constraints of `auth.memberships` say. -/
structure Constrained (memberships : List Membership) : Prop where
  /-- The primary key. -/
  ids : (memberships.map Membership.id).Nodup
  owners : (memberships.map fun m => (m.tenantId, m.userId)).Nodup
  /-- No text of a `uuid` is empty. -/
  named : ∀ m ∈ memberships, m.id ≠ ""

structure Tables where
  perms : List Perm
  roles : List Role
  rolePerms : List RolePerm
  membershipRoles : List MembershipRole
  directPerms : List DirectPerm
  groupMemberships : List GroupMembership
  groupRoles : List GroupRole
  memberships : List Membership
  constrained : Constrained memberships

def Tables.keysOf (t : Tables) (permId : String) : List Key :=
  (t.perms.filter fun perm => perm.id = permId).map Perm.key

def Tables.keysOfRole (t : Tables) (roleId : String) : List Key :=
  (t.rolePerms.filter fun rolePerm => rolePerm.roleId = roleId).flatMap fun rolePerm =>
    t.keysOf rolePerm.permId

/-- The grants that `resolveForUser` selects, for the memberships with an identifier. -/
def Tables.grantsOf (t : Tables) (membershipId : String) : List Key :=
  let membership := t.memberships.filter fun m => m.id = membershipId
  (((t.directPerms.filter fun direct => direct.effect = "allow").flatMap fun direct =>
      (membership.filter fun m => m.id = direct.membershipId).flatMap fun _ =>
        t.keysOf direct.permId) ++
    (t.membershipRoles.flatMap fun membershipRole =>
      (membership.filter fun m => m.id = membershipRole.membershipId).flatMap fun _ =>
        t.keysOfRole membershipRole.roleId) ++
    (t.groupMemberships.flatMap fun groupMembership =>
      (membership.filter fun m => m.id = groupMembership.membershipId).flatMap fun _ =>
        (t.groupRoles.filter fun groupRole => groupRole.groupId = groupMembership.groupId).flatMap
          fun groupRole => t.keysOfRole groupRole.roleId)).dedup

structure ResolvedPermissionState where
  membershipId : String
  permissions : List Key
  hash : List Char
  generation : Nat

/-- `resolveForUser`, or none for `TENANT_ACCESS_DENIED`. -/
def resolveForUser (sha256Hex : List Char → List Char) (t : Tables) (userId tenantId : String) :
    Option ResolvedPermissionState :=
  (t.memberships.find? fun m => m.userId = userId ∧ m.tenantId = tenantId ∧ m.isActive).map
    fun current =>
      let permissions := expandPermissionWildcards (t.grantsOf current.id) (t.perms.map Perm.key)
      { membershipId := current.id
        permissions := permissions
        hash := computePermissionsHash sha256Hex permissions
        generation := current.effectiveHashGeneration }

/-- The grants that `recomputeMembershipIds` selects. -/
def Tables.grantsOfId (t : Tables) (membershipId : String) : List Key :=
  (((t.directPerms.filter fun direct =>
        direct.membershipId = membershipId ∧ direct.effect = "allow").flatMap fun direct =>
      t.keysOf direct.permId) ++
    ((t.membershipRoles.filter fun membershipRole =>
        membershipRole.membershipId = membershipId).flatMap fun membershipRole =>
      t.keysOfRole membershipRole.roleId) ++
    ((t.groupMemberships.filter fun groupMembership =>
        groupMembership.membershipId = membershipId).flatMap fun groupMembership =>
      (t.groupRoles.filter fun groupRole => groupRole.groupId = groupMembership.groupId).flatMap
        fun groupRole => t.keysOfRole groupRole.roleId)).dedup

/-- `update auth.memberships set effective_hash = …`, of one membership. -/
def Membership.stored (m : Membership) (membershipId : String) (hash : List Char) : Membership :=
  if m.id = membershipId then
    { m with effectiveHash := some hash, effectiveHashGeneration := m.effectiveHashGeneration + 1 }
  else m

theorem Constrained.stored {memberships : List Membership} (h : Constrained memberships)
    (membershipId : String) (hash : List Char) :
    Constrained (memberships.map fun m => m.stored membershipId hash) := by
  have hid : ∀ m : Membership, (m.stored membershipId hash).id = m.id := fun m => by
    unfold Membership.stored
    split <;> rfl
  have howner : ∀ m : Membership, ((m.stored membershipId hash).tenantId,
      (m.stored membershipId hash).userId) = (m.tenantId, m.userId) := fun m => by
    unfold Membership.stored
    split <;> rfl
  have hids : (memberships.map fun m => m.stored membershipId hash).map Membership.id =
      memberships.map Membership.id := by
    rw [List.map_map]
    exact List.map_congr_left fun m _ => hid m
  have howners : (memberships.map fun m => m.stored membershipId hash).map
      (fun m => (m.tenantId, m.userId)) = memberships.map fun m => (m.tenantId, m.userId) := by
    rw [List.map_map]
    exact List.map_congr_left fun m _ => howner m
  refine ⟨hids ▸ h.ids, howners ▸ h.owners, ?_⟩
  · intro m hm
    obtain ⟨old, hold, rfl⟩ := List.mem_map.mp hm
    rw [hid]
    exact h.named old hold

/-- One turn of the loop of `recomputeMembershipIds`. -/
def Tables.recomputed (t : Tables) (sha256Hex : List Char → List Char) (membershipId : String) :
    Tables :=
  let expanded := expandPermissionWildcards (t.grantsOfId membershipId) (t.perms.map Perm.key)
  let hash := computePermissionsHash sha256Hex expanded
  { t with
    memberships := t.memberships.map fun m => m.stored membershipId hash
    constrained := t.constrained.stored membershipId hash }

def recomputeMembershipIds (sha256Hex : List Char → List Char) (t : Tables)
    (membershipIds : List String) : Tables :=
  (membershipIds.filter fun id => id ≠ "").dedup.foldl (fun t id => t.recomputed sha256Hex id) t

/-- The memberships that `afterRolePermissionMutation` finds. -/
def Tables.holdersOf (t : Tables) (roleIds : List String) : List String :=
  ((t.membershipRoles.filter fun membershipRole => membershipRole.roleId ∈ roleIds).map
      MembershipRole.membershipId).dedup ++
    ((t.groupRoles.filter fun groupRole => groupRole.roleId ∈ roleIds).flatMap fun groupRole =>
      (t.groupMemberships.filter fun groupMembership =>
        groupMembership.groupId = groupRole.groupId).map GroupMembership.membershipId).dedup

/-- The memberships that `afterGroupRoleMutation` finds. -/
def Tables.membersOf (t : Tables) (groupIds : List String) : List String :=
  ((t.groupMemberships.filter fun groupMembership => groupMembership.groupId ∈ groupIds).map
    GroupMembership.membershipId).dedup

/-- The memberships that `afterPlatformRoleChange` finds. -/
def Tables.platformHolders (t : Tables) : List String :=
  (t.memberships.flatMap fun m =>
    (t.membershipRoles.filter fun membershipRole => membershipRole.membershipId = m.id).flatMap
      fun membershipRole =>
        (t.roles.filter fun role => role.id = membershipRole.roleId ∧ role.tenantId = none).map
          fun _ => m.id).dedup

/-- `EffectiveHashComputer`: its hooks. -/
inductive Hook where
  /-- `afterMembershipRoleMutation`. -/
  | membershipRole (membershipIds : List String)
  /-- `afterDirectPermissionMutation`. -/
  | directPermission (membershipIds : List String)
  /-- `afterGroupMembershipMutation`. -/
  | groupMembership (membershipIds : List String)
  /-- `afterRolePermissionMutation`. -/
  | rolePermission (roleIds : List String)
  /-- `afterGroupRoleMutation`. -/
  | groupRole (groupIds : List String)
  /-- `afterPlatformRoleChange`. -/
  | platformRole

def Hook.finds (t : Tables) : Hook → List String
  | .membershipRole membershipIds => membershipIds
  | .directPermission membershipIds => membershipIds
  | .groupMembership membershipIds => membershipIds
  | .rolePermission roleIds => if roleIds = [] then [] else t.holdersOf roleIds
  | .groupRole groupIds => if groupIds = [] then [] else t.membersOf groupIds
  | .platformRole => t.platformHolders

def Hook.run (sha256Hex : List Char → List Char) (hook : Hook) (t : Tables) : Tables :=
  recomputeMembershipIds sha256Hex t (hook.finds t)

/-- The rows that a change of a table removes or adds. -/
def touched {α : Type} [DecidableEq α] (before after : List α) : List α :=
  before.filter (· ∉ after) ++ after.filter (· ∉ before)

/-- A change of the tables: what a table holds afterwards. -/
inductive Mutation where
  | membershipRoles (after : List MembershipRole)
  | directPerms (after : List DirectPerm)
  | groupMemberships (after : List GroupMembership)
  | rolePerms (after : List RolePerm)
  | groupRoles (after : List GroupRole)
  | tenantRoles (after : List Role)
  /-- Of the roles of the platform in `auth.roles`, and of their permissions. -/
  | platformRoles (after : List Role) (permsAfter : List RolePerm)

/-- `on delete cascade` of `auth.roles`. -/
def Tables.withRoles (t : Tables) (after : List Role) : Tables :=
  let kept := fun roleId => decide (∀ role ∈ t.roles, role.id = roleId → role.id ∈ after.map Role.id)
  { t with
    roles := after
    rolePerms := t.rolePerms.filter fun row => kept row.roleId
    membershipRoles := t.membershipRoles.filter fun row => kept row.roleId
    groupRoles := t.groupRoles.filter fun row => kept row.roleId }

def Mutation.apply (t : Tables) : Mutation → Tables
  | .membershipRoles after => { t with membershipRoles := after }
  | .directPerms after => { t with directPerms := after }
  | .groupMemberships after => { t with groupMemberships := after }
  | .rolePerms after => { t with rolePerms := after }
  | .groupRoles after => { t with groupRoles := after }
  | .tenantRoles after => t.withRoles after
  | .platformRoles after permsAfter => { t.withRoles after with rolePerms := permsAfter }

/-- The hook for a change. For the roles of a tenant there is only that for their permissions. -/
def Mutation.hook (t : Tables) : Mutation → Hook
  | .membershipRoles after =>
    .membershipRole ((touched t.membershipRoles after).map MembershipRole.membershipId)
  | .directPerms after =>
    .directPermission ((touched t.directPerms after).map DirectPerm.membershipId)
  | .groupMemberships after =>
    .groupMembership ((touched t.groupMemberships after).map GroupMembership.membershipId)
  | .rolePerms after => .rolePermission ((touched t.rolePerms after).map RolePerm.roleId)
  | .groupRoles after => .groupRole ((touched t.groupRoles after).map GroupRole.groupId)
  | .tenantRoles after => .rolePermission ((touched t.roles after).map Role.id)
  | .platformRoles _ _ => .platformRole

def Mutation.run (sha256Hex : List Char → List Char) (mutation : Mutation) (t : Tables) : Tables :=
  (mutation.hook t).run sha256Hex (mutation.apply t)

end Stynx.EffectiveHashes
