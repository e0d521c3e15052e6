import Stynx.PermissionCache
import Stynx.SeparatedLists

/-!
# Runs of the permission cache

Calls of the cache, invalidation messages and turns of its timer, each at a
reading of the clock. Records are of the session they are kept for, probes are as
old as they say. A probe that finds no hash counts as no drift.
-/

namespace Stynx.PermissionCache

open TtlLruCaches TransitionRuns OrderedMap

/-- What the cache runs in. -/
structure Environment where
  database : Int → Database
  /-- The user and the tenant of each session. -/
  owner : String → String × String
  /-- Users of memberships have UUIDs, without a colon. -/
  uuid : ∀ now userId tenantId membership,
    database now userId tenantId = some membership → ':' ∉ userId.toList
  /-- Resolved permissions with one hash are the same. -/
  distinct : ∀ now userId tenantId membership now' userId' tenantId' membership',
    database now userId tenantId = some membership →
    database now' userId' tenantId' = some membership' →
    membership.hash = membership'.hash → membership.permissions = membership'.permissions

/-- A call of the cache, an invalidation message, or the timer of the resynchronisation. -/
inductive Call where
  | getForSession (claims : StynxAccessTokenClaims)
  | prime (record : PermissionCacheRecord) (expiresAt : Int)
  | invalidateSid (sid : String)
  | handleInvalidation (message : String)
  | resyncStaleCacheEntries (staleThresholdMs : Int)

/-- The cache and the last reading of the clock. -/
structure State where
  cache : Cache
  clock : Int

/-- Claims and records are about the user and the tenant of their session, and a primed record is
new. -/
def admitted (env : Environment) (now : Int) : Call → Bool
  | .getForSession claims => env.owner claims.sid = (claims.sub, claims.tenantId)
  | .prime record _ => env.owner record.sid = (record.userId, record.tenantId) &&
      (env.database now record.userId record.tenantId).any fun membership =>
        membership.hash = record.hash && membership.permissions = record.permissions
  | _ => true

def execute (env : Environment) (now : Int) (s : Cache) : Call → Cache
  | .getForSession claims => (getForSession (env.database now) now s claims).2
  | .prime record expiresAt => prime now s record expiresAt
  | .invalidateSid sid => invalidateSid s sid
  | .handleInvalidation message => handleInvalidation s message
  | .resyncStaleCacheEntries staleThresholdMs =>
    resyncStaleCacheEntries (env.database now) now s staleThresholdMs

/-- A call happens at a reading of the clock that is not before the last one. -/
def step (env : Environment) (s : State) (label : Int × Call) : Option State :=
  if s.clock ≤ label.1 ∧ admitted env label.1 label.2 then
    some ⟨execute env label.1 s.cache label.2, label.1⟩
  else none

/-- The state in which a run starts. -/
def State.initial (clock : Int) : State := ⟨Cache.initial, clock⟩

/-- The permissions were those of the user in the tenant less than a second ago. -/
def Fresh (env : Environment) (now : Int) (userId tenantId : String) (permissions : List String) :
    Prop :=
  ∃ earlier membership, now - 1000 < earlier ∧ earlier ≤ now ∧
    env.database earlier userId tenantId = some membership ∧ membership.permissions = permissions

/-- A record of the session, resolved at some time. -/
structure RecordSound (env : Environment) (session : String) (record : PermissionCacheRecord) :
    Prop where
  sid : record.sid = session
  owner : env.owner session = (record.userId, record.tenantId)
  resolved : ∃ earlier membership, env.database earlier record.userId record.tenantId =
    some membership ∧ membership.hash = record.hash ∧ membership.permissions = record.permissions

/-- The probe of a user in a tenant, as of the instant at which it was made. -/
def ProbeSound (env : Environment) (clock : Int) (key : String) (entry : TtlEntry HashProbeState) :
    Prop :=
  entry.expiresAt ≤ clock + 1000 ∧ ∃ userId tenantId, ':' ∉ userId.toList ∧
    key = hashProbeKey userId tenantId ∧
    entry.value.hash =
      (env.database (entry.expiresAt - 1000) userId tenantId).map ResolvedPermissionState.hash

/-- What holds of the cache between any two calls. -/
structure Sound (env : Environment) (clock : Int) (s : Cache) : Prop where
  /-- Probes live for a second. -/
  lifetime : s.hashProbe.ttlMs = 1000
  records : s.inMemory.All fun sid entry => RecordSound env sid entry.value
  backend : ∀ sid record expiresAt, s.backend.get? sid = some (record, expiresAt) →
    RecordSound env sid record
  probes : s.hashProbe.All (ProbeSound env clock)

variable {env : Environment} {clock now : Int} {s : Cache}

theorem sound_initial (clock : Int) : Sound env clock Cache.initial where
  lifetime := rfl
  records := TtlLruCache.all_empty _ _
  backend sid record expiresAt h := by cases h
  probes := TtlLruCache.all_empty _ _

theorem Sound.later (h : Sound env clock s) (hle : clock ≤ now) : Sound env now s where
  lifetime := h.lifetime
  records := h.records
  backend := h.backend
  probes key entry hentry := by
    have hprobe := h.probes key entry hentry
    exact ⟨by have := hprobe.1; omega, hprobe.2⟩

variable {sid u t userId tenantId : String} {record : PermissionCacheRecord}
  {claims : StynxAccessTokenClaims} {found : Option PermissionCacheRecord}

theorem RecordSound.plain (h : RecordSound env sid record) : ':' ∉ record.userId.toList := by
  obtain ⟨earlier, membership, hresolved, -⟩ := h.resolved
  exact env.uuid earlier record.userId record.tenantId membership hresolved

theorem hashProbeKey_inj {u' t' : String} (hu : ':' ∉ u.toList) (hu' : ':' ∉ u'.toList)
    (h : hashProbeKey u t = hashProbeKey u' t') : u = u' ∧ t = t' := by
  have hlists : u.toList ++ ':' :: t.toList = u'.toList ++ ':' :: t'.toList := by
    have hsame := congrArg String.toList h
    simp only [hashProbeKey, String.toList_append, List.append_assoc] at hsame
    exact hsame
  obtain ⟨husers, htenants⟩ := SeparatedLists.eq_of_notMem_left hu hu' hlists
  exact ⟨String.toList_injective husers, String.toList_injective htenants⟩

def Live (now : Int) (s : Cache) (userId tenantId : String) : Prop :=
  (s.hashProbe.get now (hashProbeKey userId tenantId)).1.isSome = true

instance (now : Int) (s : Cache) (userId tenantId : String) :
    Decidable (Live now s userId tenantId) :=
  inferInstanceAs (Decidable (_ = true))

theorem probeSound_now (hplain : ':' ∉ u.toList) {ttlMs : Int} (httl : ttlMs = 1000)
    {probe : HashProbeState}
    (hhash : probe.hash = (env.database now u t).map ResolvedPermissionState.hash) :
    ProbeSound env now (hashProbeKey u t) ⟨probe, now + ttlMs⟩ := by
  rw [httl]
  refine ⟨le_refl _, u, t, hplain, rfl, ?_⟩
  rw [hhash]
  congr 2
  dsimp only
  omega

theorem probeHash_hash (db : Database) (u t : String) :
    (probeHash db u t).hash = (db u t).map ResolvedPermissionState.hash := by
  unfold probeHash
  cases db u t <;> rfl

theorem Sound.detect (h : Sound env now s) (hplain : ':' ∉ u.toList) (hash : String) :
    Sound env now (detectHashDrift (env.database now) now s u t hash).2 := by
  have hprobes := h.probes.get now (hashProbeKey u t)
  have hlifetime := TtlLruCache.ttlMs_get s.hashProbe now (hashProbeKey u t)
  unfold detectHashDrift
  dsimp only
  split
  · next cached probes heq =>
    rw [heq] at hprobes hlifetime
    exact ⟨hlifetime.trans h.lifetime, h.records, h.backend, hprobes⟩
  · next probes heq =>
    rw [heq] at hprobes hlifetime
    have httl : probes.ttlMs = 1000 := hlifetime.trans h.lifetime
    have hnew := probeSound_now hplain httl (probeHash_hash (env.database now) u t)
    exact ⟨(TtlLruCache.ttlMs_set _ _ _ _).trans httl, h.records, h.backend, hprobes.set hnew⟩

theorem Sound.no_drift (h : Sound env now s) {hash : String} (hplain : ':' ∉ u.toList)
    (hdrift : (detectHashDrift (env.database now) now s u t hash).1 = false)
    (hlive : Live now s u t ∨ (env.database now u t).isSome = true) :
    ∃ earlier membership, now - 1000 < earlier ∧ earlier ≤ now ∧
      env.database earlier u t = some membership ∧ membership.hash = hash := by
  unfold detectHashDrift at hdrift
  dsimp only at hdrift
  split at hdrift
  · next cached probes heq =>
    have hget : (s.hashProbe.get now (hashProbeKey u t)).1 = some cached := by rw [heq]
    obtain ⟨expiresAt, hexpires, hbound, u', t', hplain', hkey, hhash⟩ := h.probes.found hget
    obtain ⟨rfl, rfl⟩ := hashProbeKey_inj hplain hplain' hkey
    have hcached : cached.hash = some hash := by simpa using hdrift
    rw [hcached] at hhash
    obtain ⟨membership, hmembership, hsame⟩ := Option.map_eq_some_iff.mp hhash.symm
    dsimp only at hbound
    exact ⟨expiresAt - 1000, membership, by omega, by omega, hmembership, hsame⟩
  · next probes heq =>
    have hnot : ¬ Live now s u t := by
      rw [Live, heq]
      exact Bool.false_ne_true
    obtain ⟨membership, hmembership⟩ := Option.isSome_iff_exists.mp (hlive.resolve_left hnot)
    refine ⟨now, membership, by omega, le_refl _, hmembership, ?_⟩
    rw [probeHash_hash, hmembership] at hdrift
    simpa using hdrift

theorem Live.detect (h : Live now s u t) (db : Database) (u' t' hash : String) (hu : u' = u)
    (ht : t' = t) : Live now (detectHashDrift db now s u' t' hash).2 u t := by
  subst hu ht
  unfold detectHashDrift
  dsimp only
  split
  · next cached probes heq =>
    have hagain := TtlLruCache.get_get s.hashProbe now (hashProbeKey u' t')
    rw [heq] at hagain
    change ((probes.get now (hashProbeKey u' t')).1).isSome = true
    rw [hagain]
    rfl
  · next probes heq =>
    rw [Live, heq] at h
    cases h

theorem Sound.backendGet (h : Sound env now s) (hfound : s.backendGet now sid = some record) :
    RecordSound env sid record := by
  unfold Cache.backendGet at hfound
  split at hfound
  · next found expiresAt heq =>
    split_ifs at hfound
    rw [← Option.some.inj hfound]
    exact h.backend sid found expiresAt heq
  · cases hfound

theorem checked_snd (db : Database) (now : Int) (s : Cache) (claims : StynxAccessTokenClaims)
    (record : PermissionCacheRecord) :
    (checked db now s claims (some record)).2 =
      if answers claims record then
        (detectHashDrift db now s record.userId record.tenantId record.hash).2
      else s := by
  unfold checked
  dsimp only
  split <;> rfl

theorem Sound.checked (h : Sound env now s)
    (hfound : ∀ record, found = some record → RecordSound env claims.sid record) :
    Sound env now (checked (env.database now) now s claims found).2 := by
  cases found with
  | none => exact h
  | some record =>
    rw [checked_snd]
    split
    · exact h.detect (hfound record rfl).plain record.hash
    · exact h

theorem checked_eq_some {db : Database} (h : (checked db now s claims found).1 = some record) :
    found = some record ∧ answers claims record = true ∧
      (detectHashDrift db now s record.userId record.tenantId record.hash).1 = false := by
  unfold checked at h
  cases found with
  | none => cases h
  | some other =>
    by_cases hanswers : answers claims other = true
    · dsimp only at h
      rw [if_pos hanswers] at h
      dsimp only at h
      split_ifs at h with hdrift
      obtain rfl := Option.some.inj h
      exact ⟨rfl, hanswers, Bool.eq_false_of_not_eq_true hdrift⟩
    · dsimp only at h
      rw [if_neg hanswers] at h
      cases h

/-- A session has a record that answers its claims, in memory or in the backend. -/
def Kept (now : Int) (s : Cache) (claims : StynxAccessTokenClaims) : Prop :=
  (s.inMemory.get now claims.sid).1.any (answers claims) = true ∨
    (s.backendGet now claims.sid).any (answers claims) = true

instance (now : Int) (s : Cache) (claims : StynxAccessTokenClaims) : Decidable (Kept now s claims) :=
  inferInstanceAs (Decidable (_ ∨ _))

/-- A record is only trusted with a probe, or while the membership is active. -/
def Attended (db : Database) (now : Int) (s : Cache) (claims : StynxAccessTokenClaims) : Prop :=
  Kept now s claims → Live now s claims.sub claims.tenantId ∨
    (db claims.sub claims.tenantId).isSome = true

instance (db : Database) (now : Int) (s : Cache) (claims : StynxAccessTokenClaims) :
    Decidable (Attended db now s claims) :=
  inferInstanceAs (Decidable (_ → _))

theorem Sound.checked_fresh (h : Sound env now s)
    (hfound : ∀ record, found = some record → RecordSound env claims.sid record)
    (howner : env.owner claims.sid = (claims.sub, claims.tenantId))
    (hlive : found.any (answers claims) = true → Live now s claims.sub claims.tenantId ∨
      (env.database now claims.sub claims.tenantId).isSome = true)
    (hpass : (PermissionCache.checked (env.database now) now s claims found).1 = some record) :
    Fresh env now claims.sub claims.tenantId record.permissions := by
  obtain ⟨rfl, hanswers, hdrift⟩ := checked_eq_some hpass
  have hrecord := hfound record rfl
  have hsame : (record.userId, record.tenantId) = (claims.sub, claims.tenantId) := by
    rw [← hrecord.owner, howner]
  obtain ⟨huser, htenant⟩ := Prod.mk.inj hsame
  have hknown := hlive (by rw [Option.any_some, hanswers])
  rw [← huser, ← htenant] at hknown ⊢
  obtain ⟨earlier, membership, hafter, hbefore, hactive, hhash⟩ :=
    h.no_drift hrecord.plain hdrift hknown
  obtain ⟨resolvedAt, resolved, hresolved, hkept, hpermissions⟩ := hrecord.resolved
  refine ⟨earlier, membership, hafter, hbefore, hactive, ?_⟩
  rw [← hpermissions]
  exact env.distinct _ _ _ _ _ _ _ _ hactive hresolved (hhash.trans hkept.symm)

theorem Live.checked (h : Live now s claims.sub claims.tenantId)
    (hfound : ∀ record, found = some record → RecordSound env claims.sid record)
    (howner : env.owner claims.sid = (claims.sub, claims.tenantId)) (db : Database) :
    Live now (PermissionCache.checked db now s claims found).2 claims.sub claims.tenantId := by
  cases found with
  | none => exact h
  | some record =>
    have hsame : (record.userId, record.tenantId) = (claims.sub, claims.tenantId) := by
      rw [← (hfound record rfl).owner, howner]
    obtain ⟨huser, htenant⟩ := Prod.mk.inj hsame
    rw [checked_snd]
    split
    · exact h.detect db record.userId record.tenantId record.hash huser htenant
    · exact h

theorem backend_checked (db : Database) (now : Int) (s : Cache) (claims : StynxAccessTokenClaims)
    (found : Option PermissionCacheRecord) :
    (checked db now s claims found).2.backend = s.backend := by
  cases found with
  | none => rfl
  | some record =>
    rw [checked_snd]
    split
    · unfold detectHashDrift
      dsimp only
      split <;> rfl
    · rfl

/-- A record that has just been resolved, of a session. -/
structure Resolved (env : Environment) (now : Int) (record : PermissionCacheRecord) : Prop where
  /-- It is about the user and the tenant of the session. -/
  owner : env.owner record.sid = (record.userId, record.tenantId)
  current : ∃ membership, env.database now record.userId record.tenantId = some membership ∧
    membership.hash = record.hash ∧ membership.permissions = record.permissions

theorem Resolved.sound (h : Resolved env now record) : RecordSound env record.sid record := by
  obtain ⟨membership, hcurrent⟩ := h.current
  exact ⟨rfl, h.owner, now, membership, hcurrent⟩

theorem Sound.remember (h : Sound env now s) (hrecord : Resolved env now record) (ttlSeconds : Int) :
    Sound env now (remember now s record ttlSeconds) := by
  obtain ⟨membership, hcurrent, hhash, -⟩ := hrecord.current
  refine ⟨(TtlLruCache.ttlMs_set _ _ _ _).trans h.lifetime, h.records.set hrecord.sound, ?_, ?_⟩
  · intro sid found expiresAt hfound
    rcases get?_set_eq_some.mp hfound with ⟨rfl, hsame⟩ | ⟨-, hold⟩
    · rw [← (Prod.mk.inj hsame).1]
      exact hrecord.sound
    · exact h.backend sid found expiresAt hold
  · apply h.probes.set
    apply probeSound_now (hrecord.sound.plain) h.lifetime
    rw [hcurrent, Option.map_some, hhash]

theorem recordOf_resolved {membership : ResolvedPermissionState}
    (howner : env.owner sid = (userId, tenantId))
    (hactive : env.database now userId tenantId = some membership) :
    Resolved env now (recordOf now userId tenantId sid membership) :=
  ⟨howner, membership, hactive, rfl, rfl⟩

theorem Sound.recompute (h : Sound env now s) (howner : env.owner sid = (userId, tenantId)) :
    Sound env now (recompute (env.database now) now s userId tenantId sid).2 := by
  unfold PermissionCache.recompute
  split
  · exact h
  · next membership hactive => exact h.remember (recordOf_resolved howner hactive) _

theorem recompute_fresh
    (h : (recompute (env.database now) now s userId tenantId sid).1 = some record) :
    Fresh env now userId tenantId record.permissions := by
  unfold recompute at h
  split at h
  · cases h
  · next membership hactive =>
    obtain rfl := Option.some.inj h
    exact ⟨now, membership, by omega, le_refl _, hactive, rfl⟩

theorem Sound.inMemoryGet (h : Sound env now s) (hfound : (s.inMemory.get now sid).1 = some record) :
    RecordSound env sid record := by
  obtain ⟨expiresAt, -, hrecord⟩ := h.records.found hfound
  exact hrecord

theorem Sound.touched (h : Sound env now s) (sid : String) :
    Sound env now { s with inMemory := (s.inMemory.get now sid).2 } :=
  ⟨h.lifetime, h.records.get now sid, h.backend, h.probes⟩

theorem getForSession_cases (db : Database) (now : Int) (s : Cache)
    (claims : StynxAccessTokenClaims) :
    let first := checked db now { s with inMemory := (s.inMemory.get now claims.sid).2 } claims
      (s.inMemory.get now claims.sid).1
    let second := checked db now first.2 claims (first.2.backendGet now claims.sid)
    (∃ record, first.1 = some record ∧ getForSession db now s claims = (some record, first.2)) ∨
    (∃ record, second.1 = some record ∧ getForSession db now s claims =
      (some record, { second.2 with inMemory := second.2.inMemory.set now claims.sid record })) ∨
    getForSession db now s claims =
      recompute db now second.2 claims.sub claims.tenantId claims.sid := by
  intro first second
  have hfirst : checked db now { s with inMemory := (s.inMemory.get now claims.sid).2 } claims
      (s.inMemory.get now claims.sid).1 = first := rfl
  have hsecond : checked db now first.2 claims (first.2.backendGet now claims.sid) = second := rfl
  unfold getForSession
  dsimp only
  rw [hfirst]
  obtain ⟨found, after⟩ := first
  cases found with
  | some record => exact .inl ⟨record, rfl, rfl⟩
  | none =>
    dsimp only at hsecond ⊢
    rw [hsecond]
    obtain ⟨found, later⟩ := second
    cases found with
    | some record => exact .inr (.inl ⟨record, rfl, rfl⟩)
    | none => exact .inr (.inr rfl)

variable {claims : StynxAccessTokenClaims}

theorem Sound.getForSession (h : Sound env now s)
    (howner : env.owner claims.sid = (claims.sub, claims.tenantId)) :
    Sound env now (getForSession (env.database now) now s claims).2 := by
  have hmemory : ∀ record, (s.inMemory.get now claims.sid).1 = some record →
      RecordSound env claims.sid record := fun record hfound => h.inMemoryGet hfound
  have hfirst := (h.touched claims.sid).checked hmemory
  have hkept : ∀ record, (PermissionCache.checked (env.database now) now
      { s with inMemory := (s.inMemory.get now claims.sid).2 } claims
      (s.inMemory.get now claims.sid).1).2.backendGet now claims.sid = some record →
      RecordSound env claims.sid record := fun record hfound => hfirst.backendGet hfound
  have hsecond := hfirst.checked hkept
  rcases getForSession_cases (env.database now) now s claims with
    ⟨record, -, heq⟩ | ⟨record, hpass, heq⟩ | heq
  · rw [heq]
    exact hfirst
  · rw [heq]
    have hrecord := hfirst.backendGet (checked_eq_some hpass).1
    exact ⟨hsecond.lifetime, hsecond.records.set hrecord, hsecond.backend, hsecond.probes⟩
  · rw [heq]
    exact hsecond.recompute howner

theorem Sound.getForSession_fresh (h : Sound env now s)
    (howner : env.owner claims.sid = (claims.sub, claims.tenantId))
    (hattended : Attended (env.database now) now s claims) {record : PermissionCacheRecord}
    (hget : (PermissionCache.getForSession (env.database now) now s claims).1 = some record) :
    Fresh env now claims.sub claims.tenantId record.permissions := by
  have htouched := h.touched claims.sid
  have hmemory : ∀ record, (s.inMemory.get now claims.sid).1 = some record →
      RecordSound env claims.sid record := fun record hfound => h.inMemoryGet hfound
  have hfirst := htouched.checked hmemory
  rcases getForSession_cases (env.database now) now s claims with
    ⟨found, hpass, heq⟩ | ⟨found, hpass, heq⟩ | heq
  · rw [heq] at hget
    obtain rfl := Option.some.inj hget
    exact htouched.checked_fresh hmemory howner (fun hkept => hattended (.inl hkept)) hpass
  · rw [heq] at hget
    obtain rfl := Option.some.inj hget
    refine hfirst.checked_fresh (fun record hfound => hfirst.backendGet hfound) howner ?_ hpass
    intro hkept
    have hbackend : (s.backendGet now claims.sid).any (answers claims) = true := by
      rw [Cache.backendGet, backend_checked] at hkept
      exact hkept
    rcases hattended (.inr hbackend) with hlive | hactive
    · have hstays : Live now { s with inMemory := (s.inMemory.get now claims.sid).2 } claims.sub
          claims.tenantId := hlive
      exact .inl (hstays.checked hmemory howner _)
    · exact .inr hactive
  · rw [heq] at hget
    exact recompute_fresh hget

theorem Sound.prime (h : Sound env now s) (hrecord : Resolved env now record) (expiresAt : Int) :
    Sound env now (prime now s record expiresAt) :=
  h.remember hrecord _

theorem Sound.invalidateSid (h : Sound env now s) (sid : String) :
    Sound env now (invalidateSid s sid) := by
  refine ⟨h.lifetime, h.records.delete sid, ?_, h.probes⟩
  intro other record expiresAt hfound
  have hkept : s.backend.get? other = some (record, expiresAt) := by
    change (s.backend.delete sid).get? other = _ at hfound
    rw [get?_delete] at hfound
    split_ifs at hfound
    exact hfound
  exact h.backend other record expiresAt hkept

theorem all_dropScope {p : String → TtlEntry PermissionCacheRecord → Prop} (userId tenantId : String)
    (records : List PermissionCacheRecord) {c : TtlLruCache PermissionCacheRecord}
    (h : c.All p) : (dropScope userId tenantId records c).All p := by
  unfold dropScope
  induction records generalizing c with
  | nil => exact h
  | cons record rest ih =>
    rw [List.foldl_cons]
    split_ifs
    · exact ih (h.delete record.sid)
    · exact ih h

theorem Sound.handleInvalidation (h : Sound env now s) (message : String) :
    Sound env now (handleInvalidation s message) := by
  unfold PermissionCache.handleInvalidation
  split
  · exact h
  · next userId tenantId _ =>
    refine ⟨h.lifetime, ?_, ?_, h.probes⟩
    · dsimp only
      split_ifs
      · exact TtlLruCache.All.clear _ _
      · exact all_dropScope userId tenantId _ h.records
    · intro sid record expiresAt hfound
      exact h.backend sid record expiresAt (get?_filter_eq_some.mp hfound).1

theorem Sound.resyncStaleCacheEntries (h : Sound env now s) (staleThresholdMs : Int) :
    Sound env now (resyncStaleCacheEntries (env.database now) now s staleThresholdMs) := by
  have hvalues : ∀ record ∈ s.inMemory.values,
      env.owner record.sid = (record.userId, record.tenantId) := by
    intro record hrecord
    obtain ⟨sid, expiresAt, hsound⟩ := h.records.of_mem_values hrecord
    rw [hsound.sid]
    exact hsound.owner
  unfold PermissionCache.resyncStaleCacheEntries
  generalize s.inMemory.values = records at hvalues
  induction records generalizing s with
  | nil => exact h
  | cons record rest ih =>
    rw [List.foldl_cons]
    have hrest := fun other hother => hvalues other (.tail record hother)
    split_ifs
    · exact ih (h.recompute (hvalues record (.head _))) hrest
    · exact ih h hrest

theorem Sound.execute (h : Sound env now s) {call : Call} (hadmitted : admitted env now call = true) :
    Sound env now (execute env now s call) := by
  cases call with
  | getForSession claims => exact h.getForSession (by simpa [admitted] using hadmitted)
  | prime record expiresAt =>
    simp only [admitted, Bool.and_eq_true, decide_eq_true_eq, Option.any_eq_true] at hadmitted
    obtain ⟨howner, membership, hactive, hsame⟩ := hadmitted
    exact h.prime ⟨howner, membership, hactive, hsame⟩ expiresAt
  | invalidateSid sid => exact h.invalidateSid sid
  | handleInvalidation message => exact h.handleInvalidation message
  | resyncStaleCacheEntries staleThresholdMs => exact h.resyncStaleCacheEntries staleThresholdMs

theorem sound_of_run {labels : List (Int × Call)} {last : State}
    (hrun : run (step env) (State.initial clock) labels = some last) :
    Sound env last.clock last.cache := by
  apply run_invariant (I := fun s : State => Sound env s.clock s.cache) _ (sound_initial clock) hrun
  intro s label t hs hstep
  unfold step at hstep
  split_ifs at hstep with hlater
  obtain rfl := Option.some.inj hstep
  exact (hs.later hlater.1).execute hlater.2

/-- A call that is attended answers with permissions of the last second, and refuses a user without
an active membership in all that time. -/
theorem permissions_of_last_second {labels : List (Int × Call)} {last : State}
    (hrun : run (step env) (State.initial clock) labels = some last) (hlater : last.clock ≤ now)
    {claims : StynxAccessTokenClaims}
    (howner : env.owner claims.sid = (claims.sub, claims.tenantId))
    (hattended : Attended (env.database now) now last.cache claims) :
    (∀ record, (getForSession (env.database now) now last.cache claims).1 = some record →
      Fresh env now claims.sub claims.tenantId record.permissions) ∧
    ((∀ earlier, now - 1000 < earlier → earlier ≤ now →
        env.database earlier claims.sub claims.tenantId = none) →
      (getForSession (env.database now) now last.cache claims).1 = none) := by
  have hfresh : ∀ record,
      (getForSession (env.database now) now last.cache claims).1 = some record →
      Fresh env now claims.sub claims.tenantId record.permissions := fun record hget =>
    ((sound_of_run hrun).later hlater).getForSession_fresh howner hattended hget
  refine ⟨hfresh, ?_⟩
  intro hinactive
  cases hget : (getForSession (env.database now) now last.cache claims).1 with
  | none => rfl
  | some record =>
    obtain ⟨earlier, membership, hafter, hbefore, hactive, -⟩ := hfresh record hget
    rw [hinactive earlier hafter hbefore] at hactive
    cases hactive

/-- A membership that is active for half a second. -/
def deactivated : Environment where
  database now userId tenantId :=
    if now < 500 ∧ userId = "u" ∧ tenantId = "t" then some ⟨"m", ["orders:read"], "h", 1⟩ else none
  owner _ := ("u", "t")
  uuid := by
    intro now userId tenantId membership h
    split_ifs at h with hactive
    rw [hactive.2.1]
    decide
  distinct := by
    intro now userId tenantId membership now' userId' tenantId' membership' h h' _
    split_ifs at h h'
    rw [← Option.some.inj h, ← Option.some.inj h']

/-- The token of a session of the user. -/
def claimsOf : StynxAccessTokenClaims := ⟨"u", "t", "s", none⟩

/-- Half a second after the deactivation the kept probe still answers. -/
theorem permissions_while_probed :
    ∃ record, (getForSession (deactivated.database 990) 990
        (execute deactivated 0 Cache.initial (.getForSession claimsOf)) claimsOf).1 = some record ∧
      Fresh deactivated 990 "u" "t" record.permissions :=
  ⟨_, rfl, (permissions_of_last_second
    (show run (step deactivated) (State.initial 0) [(0, .getForSession claimsOf)] = some _ from rfl)
    (show (0 : Int) ≤ 990 by decide) (show deactivated.owner claimsOf.sid = _ from rfl)
    (by decide)).1 _ rfl⟩

/-- Long after the deactivation, the record in memory is handed out: no hash counts as no drift. -/
theorem deactivated_user_is_served :
    ∃ last, run (step deactivated) (State.initial 0) [(0, .getForSession claimsOf)] = some last ∧
      (∀ earlier, 3000 - 1000 < earlier → earlier ≤ 3000 →
        deactivated.database earlier "u" "t" = none) ∧
      (getForSession (deactivated.database 3000) 3000 last.cache claimsOf).1.map
        PermissionCacheRecord.permissions = some ["orders:read"] := by
  refine ⟨⟨execute deactivated 0 Cache.initial (.getForSession claimsOf), 0⟩, rfl, ?_, rfl⟩
  intro earlier hafter _
  exact if_neg fun hactive => by omega

end Stynx.PermissionCache
