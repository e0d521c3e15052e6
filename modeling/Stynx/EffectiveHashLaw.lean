import Stynx.EffectiveHashes

/-!
# Which hashes are right after a change

A hook stores the hash of each membership that it finds. The memberships whose permissions a change
alters are all found by the hooks for membership roles, direct permissions, group memberships, role
permissions and group roles.
-/

namespace Stynx.EffectiveHashes

open Permissions TextOrder

variable {sha256Hex : List Char → List Char} {t t' : Tables} {key : Key} {membershipId : String}

/-- A permission is granted to a membership: directly, by a role, or by a role of a group. -/
def Granted (t : Tables) (membershipId : String) (key : Key) : Prop :=
  (∃ direct ∈ t.directPerms, direct.membershipId = membershipId ∧ direct.effect = "allow" ∧
    key ∈ t.keysOf direct.permId) ∨
  (∃ membershipRole ∈ t.membershipRoles, membershipRole.membershipId = membershipId ∧
    key ∈ t.keysOfRole membershipRole.roleId) ∨
  ∃ groupMembership ∈ t.groupMemberships, groupMembership.membershipId = membershipId ∧
    ∃ groupRole ∈ t.groupRoles, groupRole.groupId = groupMembership.groupId ∧
      key ∈ t.keysOfRole groupRole.roleId

theorem mem_keysOfRole {roleId : String} : key ∈ t.keysOfRole roleId ↔
    ∃ rolePerm ∈ t.rolePerms, rolePerm.roleId = roleId ∧ key ∈ t.keysOf rolePerm.permId := by
  simp only [Tables.keysOfRole, List.mem_flatMap, List.mem_filter, decide_eq_true_eq, and_assoc]

theorem mem_grantsOfId : key ∈ t.grantsOfId membershipId ↔ Granted t membershipId key := by
  simp only [Tables.grantsOfId, Granted, List.mem_dedup, List.mem_append, List.mem_flatMap,
    List.mem_filter, decide_eq_true_eq, and_assoc, or_assoc]

variable {m : Membership} {membershipIds : List String}

theorem mem_grantsOf (hm : m ∈ t.memberships) : key ∈ t.grantsOf m.id ↔ Granted t m.id key := by
  have hjoin : ∀ (id : String) (rest : Prop),
      (∃ other, other ∈ t.memberships ∧ other.id = m.id ∧ other.id = id ∧ rest) ↔
        id = m.id ∧ rest := by
    intro id rest
    constructor
    · rintro ⟨other, -, hother, rfl, hrest⟩
      exact ⟨hother, hrest⟩
    · rintro ⟨rfl, hrest⟩
      exact ⟨m, hm, rfl, rfl, hrest⟩
  simp only [Tables.grantsOf, Granted, List.mem_dedup, List.mem_append, List.mem_flatMap,
    List.mem_filter, decide_eq_true_eq, and_assoc, or_assoc, hjoin]
  refine or_congr_left (exists_congr fun direct => and_congr_right fun _ => ?_)
  rw [and_left_comm]

def Tables.permissionsOf (t : Tables) (membershipId : String) : List Key :=
  expandPermissionWildcards (t.grantsOfId membershipId) (t.perms.map Perm.key)

def Tables.hashOf (t : Tables) (sha256Hex : List Char → List Char) (membershipId : String) :
    List Char :=
  computePermissionsHash sha256Hex (t.permissionsOf membershipId)

theorem permissionsOf_congr (hperms : t'.perms = t.perms)
    (hgranted : ∀ key, Granted t membershipId key ↔ Granted t' membershipId key) :
    t'.permissionsOf membershipId = t.permissionsOf membershipId := by
  rw [Tables.permissionsOf, Tables.permissionsOf, hperms]
  exact expand_congr fun key => by rw [mem_grantsOfId, mem_grantsOfId, hgranted]

theorem resolveForUser_eq_some {userId tenantId : String} {resolved : ResolvedPermissionState} :
    resolveForUser sha256Hex t userId tenantId = some resolved ↔
      ∃ m ∈ t.memberships, m.userId = userId ∧ m.tenantId = tenantId ∧ m.isActive = true ∧
        resolved = ⟨m.id, t.permissionsOf m.id, t.hashOf sha256Hex m.id,
          m.effectiveHashGeneration⟩ := by
  have hsame : ∀ m ∈ t.memberships, expandPermissionWildcards (t.grantsOf m.id)
      (t.perms.map Perm.key) = t.permissionsOf m.id := fun m hm =>
    expand_congr fun key => by rw [mem_grantsOf hm, mem_grantsOfId]
  rw [resolveForUser, Option.map_eq_some_iff]
  constructor
  · rintro ⟨m, hfind, rfl⟩
    have hm := List.mem_of_find?_eq_some hfind
    have hp := List.find?_some hfind
    simp only [decide_eq_true_eq] at hp
    exact ⟨m, hm, hp.1, hp.2.1, hp.2.2, by rw [hsame m hm, Tables.hashOf]⟩
  · rintro ⟨m, hm, rfl, rfl, hactive, rfl⟩
    refine ⟨m, ?_, by rw [hsame m hm, Tables.hashOf]⟩
    have hsome : (t.memberships.find? fun other =>
        other.userId = m.userId ∧ other.tenantId = m.tenantId ∧ other.isActive).isSome = true :=
      List.find?_isSome.mpr ⟨m, hm, decide_eq_true ⟨rfl, rfl, hactive⟩⟩
    obtain ⟨found, hfind⟩ := Option.isSome_iff_exists.mp hsome
    have hp := List.find?_some hfind
    simp only [decide_eq_true_eq] at hp
    -- a user has one membership in a tenant
    have heq : found = m := List.inj_on_of_nodup_map t.constrained.owners
      (List.mem_of_find?_eq_some hfind) hm (by rw [hp.1, hp.2.1])
    rw [hfind, heq]

def Membership.refreshed (m : Membership) (hashOf : String → List Char) (membershipIds : List String) :
    Membership :=
  if m.id ∈ membershipIds then m.stored m.id (hashOf m.id) else m

/-- What a loop over some memberships makes of the tables. -/
structure Refreshes (sha256Hex : List Char → List Char) (t t' : Tables) (membershipIds : List String) :
    Prop where
  perms : t'.perms = t.perms
  granted : ∀ membershipId key, Granted t' membershipId key ↔ Granted t membershipId key
  memberships : t'.memberships =
    t.memberships.map fun m => m.refreshed (t.hashOf sha256Hex) membershipIds

theorem Refreshes.permissionsOf (h : Refreshes sha256Hex t t' membershipIds) (membershipId : String) :
    t'.permissionsOf membershipId = t.permissionsOf membershipId :=
  permissionsOf_congr h.perms fun key => (h.granted membershipId key).symm

@[simp] theorem stored_id (m : Membership) (membershipId : String) (hash : List Char) :
    (m.stored membershipId hash).id = m.id := by
  unfold Membership.stored
  split <;> rfl

theorem refreshes_foldl (hnodup : membershipIds.Nodup) :
    Refreshes sha256Hex t (membershipIds.foldl (fun t id => t.recomputed sha256Hex id) t)
      membershipIds := by
  induction membershipIds generalizing t with
  | nil =>
    refine ⟨rfl, fun _ _ => Iff.rfl, ?_⟩
    have hsame : ∀ m : Membership, m.refreshed (t.hashOf sha256Hex) [] = m := fun _ => rfl
    rw [List.map_congr_left fun m _ => hsame m, List.map_id']
    rfl
  | cons id rest ih =>
    obtain ⟨hid, hrest⟩ := List.nodup_cons.mp hnodup
    have hlater := ih (t := t.recomputed sha256Hex id) hrest
    have hhash : ∀ other, (t.recomputed sha256Hex id).hashOf sha256Hex other =
        t.hashOf sha256Hex other := fun _ => rfl
    refine ⟨hlater.perms, hlater.granted, ?_⟩
    rw [List.foldl_cons, hlater.memberships]
    change (t.memberships.map fun m => m.stored id (t.hashOf sha256Hex id)).map _ = _
    rw [List.map_map]
    refine List.map_congr_left fun m _ => ?_
    simp only [Function.comp_apply, Membership.refreshed, stored_id, hhash, List.mem_cons]
    by_cases hm : m.id = id
    · subst hm
      rw [if_neg hid, if_pos (.inl rfl)]
    · have hsame : m.stored id (t.hashOf sha256Hex id) = m := if_neg hm
      simp only [hsame, hm, false_or]

theorem refreshes_recompute :
    Refreshes sha256Hex t (recomputeMembershipIds sha256Hex t membershipIds)
      (membershipIds.filter fun id => id ≠ "").dedup :=
  refreshes_foldl (List.nodup_dedup _)

/-- The stored hash of each active membership is that of its permissions. -/
def HashesRight (sha256Hex : List Char → List Char) (t : Tables) : Prop :=
  ∀ userId tenantId resolved, resolveForUser sha256Hex t userId tenantId = some resolved →
    ∃ m ∈ t.memberships, m.id = resolved.membershipId ∧ m.effectiveHash = some resolved.hash

/-- Memberships whose permissions have changed have the hash of the new ones. -/
def Refreshed (sha256Hex : List Char → List Char) (before after : Tables) : Prop :=
  ∀ userId tenantId resolved, resolveForUser sha256Hex after userId tenantId = some resolved →
    (resolveForUser sha256Hex before userId tenantId).map ResolvedPermissionState.permissions ≠
      some resolved.permissions →
    ∃ m ∈ after.memberships, m.id = resolved.membershipId ∧
      m.effectiveHash = some (computePermissionsHash sha256Hex resolved.permissions)

@[simp] theorem refreshed_id (m : Membership) (hashOf : String → List Char)
    (membershipIds : List String) : (m.refreshed hashOf membershipIds).id = m.id := by
  unfold Membership.refreshed
  split
  · exact stored_id m _ _
  · rfl

theorem refreshed_of_mem {hashOf : String → List Char} (hm : m.id ∈ membershipIds) :
    m.refreshed hashOf membershipIds = { m with
      effectiveHash := some (hashOf m.id)
      effectiveHashGeneration := m.effectiveHashGeneration + 1 } := by
  rw [Membership.refreshed, if_pos hm, Membership.stored, if_pos rfl]

theorem refreshed_of_not_mem {hashOf : String → List Char} (hm : m.id ∉ membershipIds) :
    m.refreshed hashOf membershipIds = m :=
  if_neg hm

theorem refreshed_owner (m : Membership) (hashOf : String → List Char)
    (membershipIds : List String) :
    (m.refreshed hashOf membershipIds).userId = m.userId ∧
      (m.refreshed hashOf membershipIds).tenantId = m.tenantId ∧
      (m.refreshed hashOf membershipIds).isActive = m.isActive := by
  by_cases hm : m.id ∈ membershipIds
  · rw [refreshed_of_mem hm]
    exact ⟨rfl, rfl, rfl⟩
  · rw [refreshed_of_not_mem hm]
    exact ⟨rfl, rfl, rfl⟩

theorem HashesRight.stored (hright : HashesRight sha256Hex t) (hm : m ∈ t.memberships)
    (hactive : m.isActive = true) :
    m.effectiveHash = some (t.hashOf sha256Hex m.id) := by
  obtain ⟨found, hfound, hid, hhash⟩ := hright m.userId m.tenantId _
    (resolveForUser_eq_some.mpr ⟨m, hm, rfl, rfl, hactive, rfl⟩)
  have heq : found = m := List.inj_on_of_nodup_map t.constrained.ids hfound hm hid
  rw [← heq, hhash, heq]

theorem resolveForUser_permissions (hm : m ∈ t.memberships) (hactive : m.isActive = true) :
    (resolveForUser sha256Hex t m.userId m.tenantId).map ResolvedPermissionState.permissions =
      some (t.permissionsOf m.id) := by
  rw [resolveForUser_eq_some.mpr ⟨m, hm, rfl, rfl, hactive, rfl⟩]
  rfl

/-- The hashes are right when the hook finds each membership whose permissions are other than
before, unless the hash is the same. -/
theorem refreshed_iff {hook : Hook} (hmemberships : t'.memberships = t.memberships)
    (hright : HashesRight sha256Hex t) :
    Refreshed sha256Hex t (hook.run sha256Hex t') ↔
      ∀ m ∈ t.memberships, m.isActive = true → t'.permissionsOf m.id ≠ t.permissionsOf m.id →
        m.id ∈ hook.finds t' ∨ t'.hashOf sha256Hex m.id = t.hashOf sha256Hex m.id := by
  have hrun : Refreshes sha256Hex t' (hook.run sha256Hex t') _ := refreshes_recompute
  have hrows := hrun.memberships
  rw [hmemberships] at hrows
  constructor
  · intro hall m hm hactive hne
    obtain ⟨huser, htenant, hstill⟩ := refreshed_owner m (t'.hashOf sha256Hex)
      ((hook.finds t').filter fun id => id ≠ "").dedup
    obtain ⟨found, hfound, hid, hhash⟩ := hall m.userId m.tenantId _
      (resolveForUser_eq_some.mpr ⟨_, hrows ▸ List.mem_map_of_mem hm, huser, htenant,
        hstill.trans hactive, rfl⟩)
      (by
        rw [resolveForUser_permissions hm hactive, refreshed_id, hrun.permissionsOf]
        exact fun heq => hne (Option.some.inj heq).symm)
    rw [hrows] at hfound
    obtain ⟨old, hold, rfl⟩ := List.mem_map.mp hfound
    simp only [refreshed_id] at hid hhash
    have heq : old = m := List.inj_on_of_nodup_map t.constrained.ids hold hm hid
    rw [heq, hrun.permissionsOf] at hhash
    by_cases hfinds : m.id ∈ ((hook.finds t').filter fun id => id ≠ "").dedup
    · exact .inl (List.mem_of_mem_filter (List.mem_dedup.mp hfinds))
    · rw [refreshed_of_not_mem hfinds, hright.stored hm hactive] at hhash
      exact .inr (Option.some.inj hhash).symm
  · intro hall userId tenantId resolved hresolved hne
    obtain ⟨row, hrow, huser, htenant, hactive, rfl⟩ := resolveForUser_eq_some.mp hresolved
    have hrow' := hrow
    rw [hrows] at hrow'
    obtain ⟨m, hm, rfl⟩ := List.mem_map.mp hrow'
    obtain ⟨husame, htsame, hasame⟩ := refreshed_owner m (t'.hashOf sha256Hex)
      ((hook.finds t').filter fun id => id ≠ "").dedup
    rw [hasame] at hactive
    rw [← huser, ← htenant, husame, htsame, resolveForUser_permissions hm hactive] at hne
    simp only [refreshed_id, hrun.permissionsOf] at hne ⊢
    refine ⟨_, hrow, refreshed_id m _ _, ?_⟩
    by_cases hfinds : m.id ∈ ((hook.finds t').filter fun id => id ≠ "").dedup
    · rw [refreshed_of_mem hfinds]
      rfl
    · rw [refreshed_of_not_mem hfinds, hright.stored hm hactive]
      have hmissed : m.id ∉ hook.finds t' := fun hin => hfinds
        (List.mem_dedup.mpr (List.mem_filter.mpr ⟨hin, decide_eq_true (t.constrained.named m hm)⟩))
      obtain hin | hsame := hall m hm hactive fun heq => hne (congrArg some heq.symm)
      · exact absurd hin hmissed
      · exact congrArg some hsame.symm

def HoldsRole (t : Tables) (membershipId roleId : String) : Prop :=
  ∃ membershipRole ∈ t.membershipRoles,
    membershipRole.membershipId = membershipId ∧ membershipRole.roleId = roleId

def GroupHoldsRole (t : Tables) (membershipId roleId : String) : Prop :=
  ∃ groupMembership ∈ t.groupMemberships, groupMembership.membershipId = membershipId ∧
    ∃ groupRole ∈ t.groupRoles, groupRole.groupId = groupMembership.groupId ∧
      groupRole.roleId = roleId

theorem mem_holdersOf {roleIds : List String} : membershipId ∈ t.holdersOf roleIds ↔
    ∃ roleId ∈ roleIds, HoldsRole t membershipId roleId ∨ GroupHoldsRole t membershipId roleId := by
  simp only [Tables.holdersOf, List.mem_append, List.mem_dedup, List.mem_map, List.mem_flatMap,
    List.mem_filter, decide_eq_true_eq]
  constructor
  · rintro (⟨row, ⟨hrow, hrole⟩, hid⟩ | ⟨row, ⟨hrow, hrole⟩, member, ⟨hmember, hgroup⟩, hid⟩)
    · exact ⟨row.roleId, hrole, .inl ⟨row, hrow, hid, rfl⟩⟩
    · exact ⟨row.roleId, hrole, .inr ⟨member, hmember, hid, row, hrow, hgroup.symm, rfl⟩⟩
  · rintro ⟨roleId, hrole, ⟨row, hrow, hid, rfl⟩ | ⟨member, hmember, hid, row, hrow, hgroup, rfl⟩⟩
    · exact .inl ⟨row, ⟨hrow, hrole⟩, hid⟩
    · exact .inr ⟨row, ⟨hrow, hrole⟩, member, ⟨hmember, hgroup.symm⟩, hid⟩

theorem mem_finds_rolePermission {roleIds : List String} :
    membershipId ∈ (Hook.rolePermission roleIds).finds t ↔ ∃ roleId ∈ roleIds,
      HoldsRole t membershipId roleId ∨ GroupHoldsRole t membershipId roleId := by
  by_cases hnil : roleIds = []
  · subst hnil
    simp [Hook.finds]
  · rw [Hook.finds, if_neg hnil, mem_holdersOf]

theorem mem_finds_groupRole {groupIds : List String} :
    membershipId ∈ (Hook.groupRole groupIds).finds t ↔ ∃ groupMembership ∈ t.groupMemberships,
      groupMembership.membershipId = membershipId ∧ groupMembership.groupId ∈ groupIds := by
  by_cases hnil : groupIds = []
  · subst hnil
    simp [Hook.finds]
  · simp only [Hook.finds, if_neg hnil, Tables.membersOf, List.mem_dedup, List.mem_map,
      List.mem_filter, decide_eq_true_eq]
    exact exists_congr fun member => ⟨fun h => ⟨h.1.1, h.2, h.1.2⟩, fun h => ⟨⟨h.1, h.2.2⟩, h.2.1⟩⟩

theorem mem_finds_platformRole (hm : m ∈ t.memberships) :
    m.id ∈ Hook.platformRole.finds t ↔
      ∃ role ∈ t.roles, role.tenantId = none ∧ HoldsRole t m.id role.id := by
  simp only [Hook.finds, Tables.platformHolders, List.mem_dedup, List.mem_flatMap, List.mem_map,
    List.mem_filter, decide_eq_true_eq]
  constructor
  · rintro ⟨other, -, row, ⟨hrow, hid⟩, role, ⟨hrole, heq, hplatform⟩, hsame⟩
    exact ⟨role, hrole, hplatform, row, hrow, hid.trans hsame, heq.symm⟩
  · rintro ⟨role, hrole, hplatform, row, hrow, hid, heq⟩
    exact ⟨m, hm, row, ⟨hrow, hid⟩, role, ⟨hrole, heq.symm, hplatform⟩, rfl⟩

theorem exists_untouched {α β : Type} [DecidableEq α] {before after : List α} {f : α → β} {b : β}
    (h : b ∉ (touched before after).map f) {P : α → Prop} :
    (∃ row ∈ after, f row = b ∧ P row) ↔ ∃ row ∈ before, f row = b ∧ P row := by
  refine exists_congr fun row => and_congr_left fun ⟨hrow, _⟩ => ?_
  have hnot : row ∉ touched before after := fun hin => h (hrow ▸ List.mem_map_of_mem hin)
  simp only [touched, List.mem_append, List.mem_filter, decide_eq_true_eq, not_or, not_and,
    not_not] at hnot
  exact ⟨hnot.2, hnot.1⟩

theorem keysOfRole_untouched {after : List RolePerm} {roleId : String}
    (h : roleId ∉ (touched t.rolePerms after).map RolePerm.roleId) :
    key ∈ { t with rolePerms := after }.keysOfRole roleId ↔ key ∈ t.keysOfRole roleId := by
  rw [mem_keysOfRole, mem_keysOfRole]
  exact exists_untouched h

theorem granted_unfound {mutation : Mutation} (hroles : ∀ after, mutation ≠ .tenantRoles after)
    (hplatform : ∀ after permsAfter, mutation ≠ .platformRoles after permsAfter)
    (h : membershipId ∉ (mutation.hook t).finds (mutation.apply t)) :
    Granted (mutation.apply t) membershipId key ↔ Granted t membershipId key := by
  cases mutation with
  | membershipRoles after => exact or_congr Iff.rfl (or_congr (exists_untouched h) Iff.rfl)
  | directPerms after => exact or_congr (exists_untouched h) Iff.rfl
  | groupMemberships after => exact or_congr Iff.rfl (or_congr Iff.rfl (exists_untouched h))
  | rolePerms after =>
    rw [Mutation.hook, mem_finds_rolePermission] at h
    have hrole : ∀ roleId, HoldsRole t membershipId roleId ∨ GroupHoldsRole t membershipId roleId →
        (key ∈ { t with rolePerms := after }.keysOfRole roleId ↔ key ∈ t.keysOfRole roleId) :=
      fun roleId hholds => keysOfRole_untouched fun hin => h ⟨roleId, hin, hholds⟩
    refine or_congr Iff.rfl (or_congr ?_ ?_)
    · exact exists_congr fun row => and_congr_right fun hrow => and_congr_right fun hid =>
        hrole _ (.inl ⟨row, hrow, hid, rfl⟩)
    · exact exists_congr fun member => and_congr_right fun hmember => and_congr_right fun hid =>
        exists_congr fun row => and_congr_right fun hrow => and_congr_right fun hgroup =>
          hrole _ (.inr ⟨member, hmember, hid, row, hrow, hgroup, rfl⟩)
  | groupRoles after =>
    rw [Mutation.hook, mem_finds_groupRole] at h
    refine or_congr Iff.rfl (or_congr Iff.rfl (exists_congr fun member =>
      and_congr_right fun hmember => and_congr_right fun hid => ?_))
    exact exists_untouched fun hin => h ⟨member, hmember, hid, hin⟩
  | tenantRoles after => exact absurd rfl (hroles after)
  | platformRoles after permsAfter => exact absurd rfl (hplatform after permsAfter)

@[simp] theorem apply_memberships (mutation : Mutation) :
    (mutation.apply t).memberships = t.memberships := by
  cases mutation <;> rfl

@[simp] theorem apply_perms (mutation : Mutation) : (mutation.apply t).perms = t.perms := by
  cases mutation <;> rfl

def Alters (sha256Hex : List Char → List Char) (t t' : Tables) (membershipId : String) : Prop :=
  t'.permissionsOf membershipId ≠ t.permissionsOf membershipId ∧
    t'.hashOf sha256Hex membershipId ≠ t.hashOf sha256Hex membershipId

/-- The changes that leave no active membership out: not those of roles, and those of the roles of a
tenant or of the platform only where each altered membership still holds such a role. -/
def Mutation.Covers (sha256Hex : List Char → List Char) (t : Tables) : Mutation → Prop
  | .tenantRoles after =>
    ∀ m ∈ t.memberships, m.isActive = true → Alters sha256Hex t (t.withRoles after) m.id →
      ∃ roleId ∈ (touched t.roles after).map Role.id,
        HoldsRole (t.withRoles after) m.id roleId ∨ GroupHoldsRole (t.withRoles after) m.id roleId
  | .platformRoles after permsAfter =>
    ∀ m ∈ t.memberships, m.isActive = true →
      Alters sha256Hex t { t.withRoles after with rolePerms := permsAfter } m.id →
      ∃ role ∈ after, role.tenantId = none ∧ HoldsRole (t.withRoles after) m.id role.id
  | _ => True

theorem alters_unfound {hook : Hook} :
    (∀ m ∈ t.memberships, m.isActive = true → t'.permissionsOf m.id ≠ t.permissionsOf m.id →
        m.id ∈ hook.finds t' ∨ t'.hashOf sha256Hex m.id = t.hashOf sha256Hex m.id) ↔
      ∀ m ∈ t.memberships, m.isActive = true → Alters sha256Hex t t' m.id →
        m.id ∈ hook.finds t' := by
  refine forall₃_congr fun m _ _ => ⟨?_, ?_⟩
  · intro h halters
    exact (h halters.1).resolve_right halters.2
  · intro h hne
    by_cases hhash : t'.hashOf sha256Hex m.id = t.hashOf sha256Hex m.id
    · exact .inr hhash
    · exact .inl (h ⟨hne, hhash⟩)

/-- With right hashes before, a change and its hook leave right hashes just when the change leaves
none out. -/
theorem mutation_refreshed_iff (mutation : Mutation) (hright : HashesRight sha256Hex t) :
    Refreshed sha256Hex t (mutation.run sha256Hex t) ↔ mutation.Covers sha256Hex t := by
  rw [Mutation.run, refreshed_iff (apply_memberships mutation) hright, alters_unfound]
  have hfound : (∀ after, mutation ≠ .tenantRoles after) →
      (∀ after permsAfter, mutation ≠ .platformRoles after permsAfter) →
      ∀ m ∈ t.memberships, m.isActive = true → Alters sha256Hex t (mutation.apply t) m.id →
        m.id ∈ (mutation.hook t).finds (mutation.apply t) := by
    intro hroles hplatform m _ _ halters
    by_contra hnot
    exact halters.1 (permissionsOf_congr (apply_perms mutation) fun key =>
      (granted_unfound hroles hplatform hnot).symm)
  cases mutation with
  | tenantRoles after =>
    exact forall₃_congr fun m _ _ => forall_congr' fun _ => mem_finds_rolePermission
  | platformRoles after permsAfter =>
    exact forall₃_congr fun m hm _ => forall_congr' fun _ => mem_finds_platformRole hm
  | membershipRoles | directPerms | groupMemberships | rolePerms | groupRoles =>
    exact iff_of_true (hfound (fun _ h => nomatch h) fun _ _ h => nomatch h) trivial

/-- A membership in a group that holds a role of the platform, which has no permission yet. -/
def sample : Tables where
  perms := [⟨"p", ['a', ':', 'b']⟩]
  roles := [⟨"r", none⟩]
  rolePerms := []
  membershipRoles := []
  directPerms := []
  groupMemberships := [⟨"g", "m"⟩]
  groupRoles := [⟨"g", "r"⟩]
  memberships := [⟨"m", "t", "u", true, some [], 0⟩]
  constrained := ⟨by decide, by decide, by decide⟩

theorem sample_right : HashesRight id sample := by
  intro userId tenantId resolved hresolved
  obtain ⟨m, hm, -, -, -, rfl⟩ := resolveForUser_eq_some.mp hresolved
  have heq : m = ⟨"m", "t", "u", true, some [], 0⟩ := List.mem_singleton.mp hm
  subst heq
  exact ⟨_, hm, rfl, by decide⟩

/-- The permission is given to the role through the hook for permissions of roles. -/
theorem mutation_refreshed_sample :
    Refreshed id sample ((Mutation.rolePerms [⟨"r", "p"⟩]).run id sample) :=
  (mutation_refreshed_iff (.rolePerms [⟨"r", "p"⟩]) sample_right).mpr trivial

/-- Through the hook for roles of the platform, the hash stays that of no permission. -/
theorem platform_group_stale : ¬ ∀ (sha256Hex : List Char → List Char) (t : Tables)
    (mutation : Mutation), HashesRight sha256Hex t →
      Refreshed sha256Hex t (mutation.run sha256Hex t) := by
  intro hall
  have hmemberships : ((Mutation.platformRoles [⟨"r", none⟩] [⟨"r", "p"⟩]).apply sample).memberships =
      sample.memberships := rfl
  have hfound := (refreshed_iff hmemberships sample_right).mp
    (hall id sample (.platformRoles [⟨"r", none⟩] [⟨"r", "p"⟩]) sample_right)
    ⟨"m", "t", "u", true, some [], 0⟩ (.head _) rfl (by decide)
  exact absurd hfound (by decide)

end Stynx.EffectiveHashes
