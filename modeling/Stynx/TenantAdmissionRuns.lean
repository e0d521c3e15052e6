import Stynx.CallTables
import Stynx.TenantAdmissions
import Stynx.TransitionRuns

/-!
# Tenants that are closed

What a return leaves behind: admissions between their answer and their write, and grants in the
cache under another spelling of the tenant.
-/

namespace Stynx.TenantAdmissions

open CallTables MembershipCache TransitionRuns

variable {options : Options} {s t : State} {tenant : Nat}

variable {tenantId userId k : String} {count index : Nat} {a : Admission} {label : Label}

theorem length_of_isUuidV7 (h : isUuidV7 tenantId = true) : tenantId.toList.length = 36 := by
  simp only [isUuidV7, Bool.and_eq_true] at h
  exact UuidTexts.length_of_parse h.1.1

theorem tenantId_eq_of_key {userId' tenantId' : String} (h : isUuidV7 tenantId = true)
    (h' : isUuidV7 tenantId' = true) (hkey : key userId tenantId = key userId' tenantId') :
    tenantId = tenantId' := by
  have hlist := congrArg String.toList hkey
  simp only [key, String.toList_append] at hlist
  have hlength : tenantId.toList.length = tenantId'.toList.length := by
    rw [length_of_isUuidV7 h, length_of_isUuidV7 h']
  exact String.toList_inj.mp (List.append_inj_right' hlist hlength)

def Grants (tenant : Nat) (entries : Entries) (k : String) : Prop :=
  ∃ userId tenantId entry, k = key userId tenantId ∧ isUuidV7 tenantId = true ∧
    castUuid tenantId = some tenant ∧ entries.get? k = some entry ∧ entry.allowed = true

variable {entries cache : Entries} {now : Int} {allowed : Bool} {db : Db} {op : Operation}

theorem Grants.of_get? {entries' : Entries} (h : Grants tenant entries' k)
    (hsub : ∀ entry, entries'.get? k = some entry → entries.get? k = some entry) :
    Grants tenant entries k := by
  obtain ⟨userId, tenantId, entry, hkey, hv7, hcast, hget, hallowed⟩ := h
  exact ⟨userId, tenantId, entry, hkey, hv7, hcast, hsub entry hget, hallowed⟩

theorem Grants.of_set (h : Grants tenant (set options entries now userId tenantId allowed) k)
    (hv7 : isUuidV7 tenantId = true) (hdenied : castUuid tenantId = some tenant → allowed = false) :
    Grants tenant entries k := by
  obtain ⟨user, id, entry, rfl, hid, hcast, hget, hallowed⟩ := h
  rcases get?_set hget with ⟨hkey, hwritten⟩ | hold
  · have hsame := tenantId_eq_of_key hid hv7 hkey
    rw [← hwritten, hallowed, ← hsame] at hdenied
    cases hdenied hcast
  · exact ⟨user, id, entry, rfl, hid, hcast, hold, hallowed⟩

/-- A step does not make a tenant active again. -/
def StaysInactive (tenant : Nat) (_ : State) : Label → Prop
  | .write db => db.activeTenant tenant = false
  | _ => True

/-- No admission that begins later is granted, as long as nothing makes the tenant active again. -/
def Bars (options : Options) (tenant : Nat) (t : State) : Prop :=
  ∀ rest u, RunMeets (step options) (StaysInactive tenant) t rest →
    run (step options) t rest = some u → ∀ (i : Nat) (a : Admission), t.admissions.length ≤ i →
      u.admissions[i]? = some a → castUuid a.tenantId = some tenant → a.phase ≠ .returned true

/-- What a return has to find. -/
structure Clear (tenant : Nat) (id : String) (s : State) : Prop where
  /-- No admission of the tenant has been granted by the database and has yet to write. -/
  admissions : ∀ a ∈ s.admissions, castUuid a.tenantId = some tenant → a.phase ≠ .read true
  /-- All entries that grant the tenant are invalidated. -/
  cache : ∀ k, Grants tenant s.cache k → endsWithTenant id k = true

/-- What holds of a closed tenant; the admissions before the first `count` began earlier. -/
structure Closed (tenant count : Nat) (s : State) : Prop where
  inactive : s.db.activeTenant tenant = false
  checked : ∀ a ∈ s.admissions, isUuidV7 a.tenantId = true
  /-- No admission of the tenant has been granted by the database and has yet to write. -/
  reads : ∀ a ∈ s.admissions, castUuid a.tenantId = some tenant → a.phase ≠ .read true
  cache : ∀ k, ¬ Grants tenant s.cache k
  /-- No later admission was granted. -/
  late : ∀ (i : Nat) (a : Admission), count ≤ i → s.admissions[i]? = some a →
    castUuid a.tenantId = some tenant → a.phase ≠ .returned true

theorem activeMembership_inactive (h : db.activeTenant tenant = false)
    (hcast : castUuid tenantId = some tenant)
    (hanswer : activeMembership db userId tenantId = some allowed) : allowed = false := by
  obtain ⟨user, -, hmapped⟩ := Option.bind_eq_some_iff.mp hanswer
  rw [hcast, Option.map_some, h, Bool.and_false] at hmapped
  exact (Option.some.inj hmapped).symm

theorem activeTenant_update (kind : Lifecycle) (now : Int) (row : Tenant) (id : Nat)
    (h : db.activeTenant tenant = false) :
    ({ db with tenants := db.tenants.set id (kind.update now row) } : Db).activeTenant tenant =
      false := by
  rw [Db.activeTenant, OrderedMap.get?_set]
  split
  · cases kind <;> rfl
  · exact h

theorem Closed.concat {s : State} (h : Closed tenant count s) (hv7 : isUuidV7 a.tenantId = true)
    (hread : a.phase ≠ .read true)
    (hgranted : castUuid a.tenantId = some tenant → a.phase ≠ .returned true)
    (hcache : ∀ k entry, cache.get? k = some entry → s.cache.get? k = some entry) :
    Closed tenant count { s with cache := cache, admissions := s.admissions ++ [a] } where
  inactive := h.inactive
  checked b hb := by
    rcases mem_concat_iff.mp hb with hold | rfl
    · exact h.checked b hold
    · exact hv7
  reads b hb hcast := by
    rcases mem_concat_iff.mp hb with hold | rfl
    · exact h.reads b hold hcast
    · exact hread
  cache k hgrants := h.cache k (hgrants.of_get? fun entry => hcache k entry)
  late i b hle hb hcast := by
    rcases getElem?_concat_cases hb with ⟨-, rfl⟩ | ⟨-, hold⟩
    · exact hgranted hcast
    · exact h.late i b hle hold hcast

theorem Closed.set {s : State} (h : Closed tenant count s) {b : Admission}
    (ha : s.admissions[index]? = some a) (hsame : b.tenantId = a.tenantId)
    (hdenied : castUuid a.tenantId = some tenant → b.phase ≠ .read true ∧ b.phase ≠ .returned true)
    (hcache : ∀ k, ¬ Grants tenant cache k) :
    Closed tenant count { s with cache := cache, admissions := s.admissions.set index b } where
  inactive := h.inactive
  checked c hc := by
    rcases List.mem_or_eq_of_mem_set hc with hold | rfl
    · exact h.checked c hold
    · exact hsame ▸ h.checked a (List.mem_of_getElem? ha)
  reads c hc hcast := by
    rcases List.mem_or_eq_of_mem_set hc with hold | rfl
    · exact h.reads c hold hcast
    · exact (hdenied (hsame ▸ hcast)).1
  cache := hcache
  late i c hle hc hcast := by
    rcases getElem?_set_cases hc with ⟨-, rfl⟩ | ⟨-, hold⟩
    · exact (hdenied (hsame ▸ hcast)).2
    · exact h.late i c hle hold hcast

theorem Closed.request {s : State} (h : Closed tenant count s) (hv7 : isUuidV7 tenantId = true)
    (held : Bool) (now : Int) :
    Closed tenant count (hasActiveMembership s userId tenantId held now) := by
  rw [hasActiveMembership]
  split
  · exact h.concat hv7 (by simp) (fun _ => by simp) fun _ _ hget => hget
  · have hsub : ∀ k entry, (get s.cache now userId tenantId).2.get? k = some entry →
        s.cache.get? k = some entry := fun k entry => get?_get
    split
    case h_1 cached cache hget =>
      rw [hget] at hsub
      refine h.concat hv7 (by simp) (fun hcast hphase => ?_) hsub
      -- a grant would come from an entry
      have hgranted : (get s.cache now userId tenantId).1 = some true := by
        rw [hget]
        exact congrArg some (AdmissionPhase.returned.inj hphase)
      obtain ⟨entry, hentry, hallowed⟩ := get_eq_some hgranted
      exact h.cache _ ⟨userId, tenantId, entry, rfl, hv7, hcast, hentry, hallowed⟩
    case h_2 cache hget =>
      rw [hget] at hsub
      exact h.concat hv7 (by simp) (fun _ => by simp) hsub

theorem Closed.step (h : Closed tenant count s) (hstays : StaysInactive tenant s label)
    (hstep : step options s label = some t) :
    Closed tenant count t := by
  cases label with
  | request userId tenantId held now =>
    rw [TenantAdmissions.step] at hstep
    split at hstep
    case isTrue hv7 =>
      cases hstep
      exact h.request hv7 held now
    case isFalse => cases hstep
  | query index succeeds =>
    obtain ⟨a, ha, hmoved⟩ := Option.bind_eq_some_iff.mp hstep
    split at hmoved
    case h_2 => cases hmoved
    case h_1 =>
      cases hmoved
      refine h.set ha rfl (fun hcast => ?_) h.cache
      simp only [Admission.answered]
      split
      case h_1 allowed hanswer =>
        rw [activeMembership_inactive h.inactive hcast hanswer]
        exact ⟨by simp, by simp⟩
      case h_2 => exact ⟨by simp, by simp⟩
  | finish index now =>
    obtain ⟨a, ha, hmoved⟩ := Option.bind_eq_some_iff.mp hstep
    split at hmoved
    case h_2 => cases hmoved
    case h_1 allowed hphase =>
      cases hmoved
      have hmem := List.mem_of_getElem? ha
      have hdenied : castUuid a.tenantId = some tenant → allowed = false := by
        intro hcast
        cases allowed with
        | false => rfl
        | true => exact absurd hphase (h.reads a hmem hcast)
      refine h.set ha rfl (fun hcast => ?_) fun k hgrants =>
        h.cache k (hgrants.of_set (h.checked a hmem) hdenied)
      rw [hdenied hcast]
      exact ⟨by simp, by simp⟩
  | begin kind id =>
    cases hstep
    exact ⟨h.inactive, h.checked, h.reads, h.cache, h.late⟩
  | commit index now =>
    obtain ⟨op, -, hmoved⟩ := Option.bind_eq_some_iff.mp hstep
    split at hmoved
    case isFalse => cases hmoved
    case isTrue =>
      cases hmoved
      rw [commit]
      split
      · exact ⟨activeTenant_update op.kind now _ _ h.inactive, h.checked, h.reads, h.cache, h.late⟩
      · exact ⟨h.inactive, h.checked, h.reads, h.cache, h.late⟩
  | fail index =>
    obtain ⟨op, -, hmoved⟩ := Option.bind_eq_some_iff.mp hstep
    split at hmoved
    case isFalse => cases hmoved
    case isTrue =>
      cases hmoved
      exact ⟨h.inactive, h.checked, h.reads, h.cache, h.late⟩
  | settle index =>
    obtain ⟨op, -, hmoved⟩ := Option.bind_eq_some_iff.mp hstep
    split at hmoved
    case isFalse => cases hmoved
    case isTrue =>
      cases hmoved
      refine ⟨h.inactive, h.checked, h.reads, fun k hgrants => ?_, h.late⟩
      exact h.cache k (hgrants.of_get? fun entry hget => (get?_invalidateTenant.mp hget).1)
  | write db =>
    cases hstep
    exact ⟨hstays, h.checked, h.reads, h.cache, h.late⟩

/-- The process before its first request. -/
def initial (db : Db) : State := { db := db }

theorem checked_step (h : ∀ a ∈ s.admissions, isUuidV7 a.tenantId = true)
    (hstep : step options s label = some t) : ∀ a ∈ t.admissions, isUuidV7 a.tenantId = true := by
  -- an admission that goes on keeps its identifier
  have hset : ∀ (index : Nat) (a b : Admission), s.admissions[index]? = some a →
      b.tenantId = a.tenantId → ∀ c ∈ s.admissions.set index b, isUuidV7 c.tenantId = true := by
    intro index a b ha hsame c hc
    rcases List.mem_or_eq_of_mem_set hc with hold | rfl
    · exact h c hold
    · exact hsame ▸ h a (List.mem_of_getElem? ha)
  cases label with
  | request userId tenantId held now =>
    rw [step] at hstep
    split at hstep
    case isFalse => cases hstep
    case isTrue hv7 =>
      cases hstep
      have hconcat : ∀ phase, ∀ a ∈ s.admissions ++ [(⟨userId, tenantId, phase⟩ : Admission)],
          isUuidV7 a.tenantId = true := by
        intro phase a ha
        rcases mem_concat_iff.mp ha with hold | rfl
        · exact h a hold
        · exact hv7
      rw [hasActiveMembership]
      split
      · exact hconcat .failed
      · split
        case h_1 cached cache hget => exact hconcat (.returned cached)
        case h_2 cache hget => exact hconcat .querying
  | query index succeeds =>
    obtain ⟨a, ha, hmoved⟩ := Option.bind_eq_some_iff.mp hstep
    split at hmoved
    case h_2 => cases hmoved
    case h_1 =>
      cases hmoved
      exact hset index a _ ha rfl
  | finish index now =>
    obtain ⟨a, ha, hmoved⟩ := Option.bind_eq_some_iff.mp hstep
    split at hmoved
    case h_2 => cases hmoved
    case h_1 allowed hphase =>
      cases hmoved
      exact hset index a _ ha rfl
  | begin kind id =>
    cases hstep
    exact h
  | commit index now =>
    obtain ⟨op, -, hmoved⟩ := Option.bind_eq_some_iff.mp hstep
    split at hmoved
    case isFalse => cases hmoved
    case isTrue =>
      cases hmoved
      rw [commit]
      split <;> exact h
  | fail index =>
    obtain ⟨op, -, hmoved⟩ := Option.bind_eq_some_iff.mp hstep
    split at hmoved
    case isFalse => cases hmoved
    case isTrue =>
      cases hmoved
      exact h
  | settle index =>
    obtain ⟨op, -, hmoved⟩ := Option.bind_eq_some_iff.mp hstep
    split at hmoved
    case isFalse => cases hmoved
    case isTrue =>
      cases hmoved
      exact h
  | write db =>
    cases hstep
    exact h

theorem settle_eq (hop : s.operations[index]? = some op)
    (hstep : step options s (.settle index) = some t) :
    t = { s with
      cache := invalidateTenant s.cache op.id
      operations := s.operations.set index { op with phase := .returned } } := by
  rw [step, hop, Option.bind_some] at hstep
  split at hstep
  · exact (Option.some.inj hstep).symm
  · cases hstep

theorem Clear.closed (h : Clear tenant op.id s) (hinactive : s.db.activeTenant tenant = false)
    (hchecked : ∀ a ∈ s.admissions, isUuidV7 a.tenantId = true)
    (hop : s.operations[index]? = some op) (hstep : step options s (.settle index) = some t) :
    Closed tenant t.admissions.length t := by
  rw [settle_eq hop hstep]
  refine ⟨hinactive, hchecked, h.admissions, fun k hgrants => ?_, fun i a hle ha => ?_⟩
  · have hold := hgrants.of_get? fun entry hget => (get?_invalidateTenant.mp hget).1
    obtain ⟨userId, tenantId, entry, -, -, -, hget, -⟩ := hgrants
    have hkept := (get?_invalidateTenant.mp hget).2
    rw [h.cache k hold] at hkept
    cases hkept
  · have hlt := (List.getElem?_eq_some_iff.mp ha).1
    exact absurd hle (Nat.not_le_of_lt hlt)

theorem Closed.bars (h : Closed tenant t.admissions.length t) : Bars options tenant t := by
  intro rest u hstays hrun i a hle ha hcast
  have hclosed : Closed tenant t.admissions.length u :=
    run_invariant_of_meets (I := Closed tenant t.admissions.length)
      (fun _ _ _ hs hstay hstep => hs.step hstay hstep) h hstays hrun
  exact hclosed.late i a hle ha hcast

theorem called_granted {entry : Entry} (hget : s.cache.get? (key userId tenantId) = some entry)
    (hallowed : entry.allowed = true) :
    (hasActiveMembership s userId tenantId false (entry.expiresAt - 1)).admissions =
      s.admissions ++ [⟨userId, tenantId, .returned true⟩] := by
  have hgranted := get_of_lt hget (show entry.expiresAt - 1 < entry.expiresAt by omega)
  rw [hallowed] at hgranted
  rw [hasActiveMembership, if_neg Bool.false_ne_true]
  split
  case h_1 cached cache hfound =>
    rw [hfound] at hgranted
    rw [Option.some.inj hgranted]
  case h_2 cache hfound =>
    rw [hfound] at hgranted
    cases hgranted

theorem not_bars_of_grants (h : Grants tenant t.cache k) : ¬ Bars options tenant t := by
  obtain ⟨userId, tenantId, entry, rfl, hv7, hcast, hget, hallowed⟩ := h
  intro hbars
  have hrun : run (step options) t [.request userId tenantId false (entry.expiresAt - 1)] =
      some (hasActiveMembership t userId tenantId false (entry.expiresAt - 1)) := by
    rw [run, step, if_pos hv7]
    rfl
  have hlast : (hasActiveMembership t userId tenantId false (entry.expiresAt - 1)).admissions[
      t.admissions.length]? = some ⟨userId, tenantId, .returned true⟩ := by
    rw [called_granted hget hallowed, List.getElem?_concat_length]
  have hstays : RunMeets (step options) (StaysInactive tenant) t
      [.request userId tenantId false (entry.expiresAt - 1)] := by
    refine ⟨trivial, ?_⟩
    split <;> trivial
  exact hbars _ _ hstays hrun _ _ le_rfl hlast hcast rfl

theorem Bars.step (h : Bars options tenant s) (hstays : StaysInactive tenant s label)
    (hstep : TenantAdmissions.step options s label = some t)
    (hlength : s.admissions.length ≤ t.admissions.length) : Bars options tenant t := by
  intro rest u hrest hrun i a hle ha hcast
  have hmeets : RunMeets (TenantAdmissions.step options) (StaysInactive tenant) s
      (label :: rest) := by
    refine ⟨hstays, ?_⟩
    rw [hstep]
    exact hrest
  exact h (label :: rest) u hmeets (run_cons_eq_some.mpr ⟨t, hstep, hrun⟩) i a
    (hlength.trans hle) ha hcast

theorem not_bars_of_read (hchecked : ∀ a ∈ t.admissions, isUuidV7 a.tenantId = true)
    (hmem : a ∈ t.admissions) (hcast : castUuid a.tenantId = some tenant)
    (hphase : a.phase = .read true) : ¬ Bars options tenant t := by
  intro hbars
  obtain ⟨index, hlt, hget⟩ := List.mem_iff_getElem.mp hmem
  have ha : t.admissions[index]? = some a := by rw [List.getElem?_eq_getElem hlt, hget]
  have hstep : TenantAdmissions.step options t (.finish index 0) = some { t with
      cache := set options t.cache 0 a.userId a.tenantId true
      admissions := t.admissions.set index { a with phase := .returned true } } := by
    rw [TenantAdmissions.step, ha, Option.bind_some, hphase]
  have hstays : StaysInactive tenant t (.finish index 0) := trivial
  have hlater := hbars.step hstays hstep (List.length_set ▸ Nat.le_refl _)
  have hgrants : Grants tenant (set options t.cache 0 a.userId a.tenantId true)
      (key a.userId a.tenantId) :=
    ⟨a.userId, a.tenantId, _, rfl, hchecked a hmem, hcast, get?_set_self true, rfl⟩
  exact not_bars_of_grants hgrants hlater

/-- The transaction of an operation has ended: it has thrown, or its tenant is inactive. -/
def Ended (tenant index : Nat) (s : State) : Prop :=
  ∃ op, s.operations[index]? = some op ∧
    (castUuid op.id = some tenant → op.phase = .failed ∨ s.db.activeTenant tenant = false)

theorem ended_of_commit (hstep : step options s (.commit index now) = some t) :
    Ended tenant index t := by
  obtain ⟨op, hop, hmoved⟩ := Option.bind_eq_some_iff.mp hstep
  have hlt := (List.getElem?_eq_some_iff.mp hop).1
  split at hmoved
  case isFalse => cases hmoved
  case isTrue =>
    cases hmoved
    rw [commit]
    split
    case h_1 id row hfound =>
      refine ⟨_, List.getElem?_set_self hlt, fun hcast => .inr ?_⟩
      obtain ⟨id', hid, hrow⟩ := Option.bind_eq_some_iff.mp hfound
      obtain ⟨row', -, hpair⟩ := Option.map_eq_some_iff.mp hrow
      cases hpair
      rw [hid] at hcast
      cases hcast
      simp only [Db.activeTenant, OrderedMap.get?_set_self, Option.any_some]
      cases op.kind <;> rfl
    case h_2 => exact ⟨_, List.getElem?_set_self hlt, fun _ => .inl rfl⟩

theorem Ended.step (h : Ended tenant index s) (hstays : StaysInactive tenant s label)
    (hstep : TenantAdmissions.step options s label = some t) : Ended tenant index t := by
  obtain ⟨op, hop, hended⟩ := h
  have hlt := (List.getElem?_eq_some_iff.mp hop).1
  -- a step of the operations alone, which leaves this one or ends it with an exception
  have hset : ∀ (j : Nat) (next : Operation), (j = index → next.phase = .failed ∨
      op.phase ≠ .failed ∧ next.id = op.id) →
      ∃ op', (s.operations.set j next)[index]? = some op' ∧ (castUuid op'.id = some tenant →
        op'.phase = .failed ∨ s.db.activeTenant tenant = false) := by
    intro j next hnext
    by_cases hj : j = index
    · subst hj
      refine ⟨next, List.getElem?_set_self hlt, fun hcast => ?_⟩
      rcases hnext rfl with hfailed | ⟨hlive, hid⟩
      · exact .inl hfailed
      · rw [hid] at hcast
        exact .inr ((hended hcast).resolve_left hlive)
    · exact ⟨op, by rw [List.getElem?_set_ne hj, hop], hended⟩
  cases label with
  | request userId tenantId held now =>
    rw [TenantAdmissions.step] at hstep
    split at hstep
    case isFalse => cases hstep
    case isTrue =>
      cases hstep
      rw [hasActiveMembership]
      split
      · exact ⟨op, hop, hended⟩
      · split <;> exact ⟨op, hop, hended⟩
  | query j succeeds =>
    obtain ⟨a, -, hmoved⟩ := Option.bind_eq_some_iff.mp hstep
    split at hmoved
    case h_2 => cases hmoved
    case h_1 =>
      cases hmoved
      exact ⟨op, hop, hended⟩
  | finish j now =>
    obtain ⟨a, -, hmoved⟩ := Option.bind_eq_some_iff.mp hstep
    split at hmoved
    case h_2 => cases hmoved
    case h_1 =>
      cases hmoved
      exact ⟨op, hop, hended⟩
  | begin kind id =>
    cases hstep
    exact ⟨op, by rw [List.getElem?_append_left hlt, hop], hended⟩
  | commit j now =>
    by_cases hj : j = index
    · subst hj
      exact ended_of_commit hstep
    · obtain ⟨other, -, hmoved⟩ := Option.bind_eq_some_iff.mp hstep
      split at hmoved
      case isFalse => cases hmoved
      case isTrue =>
        cases hmoved
        have hsame : ∀ next, (s.operations.set j next)[index]? = some op := fun next => by
          rw [List.getElem?_set_ne hj, hop]
        rw [commit]
        split
        case h_1 id row hfound =>
          refine ⟨op, hsame _, fun hcast => (hended hcast).imp_right fun hinactive => ?_⟩
          exact activeTenant_update other.kind now row id hinactive
        case h_2 => exact ⟨op, hsame _, hended⟩
  | fail j =>
    obtain ⟨other, -, hmoved⟩ := Option.bind_eq_some_iff.mp hstep
    split at hmoved
    case isFalse => cases hmoved
    case isTrue =>
      cases hmoved
      exact hset j _ fun _ => .inl rfl
  | settle j =>
    obtain ⟨other, hother, hmoved⟩ := Option.bind_eq_some_iff.mp hstep
    split at hmoved
    case isFalse => cases hmoved
    case isTrue hcommitted =>
      cases hmoved
      refine hset j _ fun hj => .inr ?_
      rw [hj, hop] at hother
      cases hother
      rw [hcommitted]
      exact ⟨by simp, rfl⟩
  | write db =>
    cases hstep
    exact ⟨op, hop, fun hcast => (hended hcast).imp_right fun _ => hstays⟩

/-- An operation that commits and returns bars its tenant exactly when no admission of the tenant
stands between its answer and its write, and no entry of the cache grants the tenant under another
spelling. -/
theorem bars_iff_clear (db : Db) (before between : List Label) {m n : State} (index : Nat)
    (now : Int) (op : Operation) (hbefore : run (step options) (initial db) before = some m)
    (hcommit : step options m (.commit index now) = some n)
    (hstays : RunMeets (step options) (StaysInactive tenant) n between)
    (hbetween : run (step options) n between = some s)
    (hop : s.operations[index]? = some op) (hcast : castUuid op.id = some tenant)
    (hstep : step options s (.settle index) = some t) :
    Bars options tenant t ↔ Clear tenant op.id s := by
  have hrun : ∀ {m n : State} {labels : List Label},
      (∀ a ∈ m.admissions, isUuidV7 a.tenantId = true) → run (step options) m labels = some n →
        ∀ a ∈ n.admissions, isUuidV7 a.tenantId = true :=
    run_invariant (I := fun s => ∀ a ∈ s.admissions, isUuidV7 a.tenantId = true)
      fun _ _ _ h hstep => checked_step h hstep
  have hchecked : ∀ a ∈ s.admissions, isUuidV7 a.tenantId = true := by
    have hm := hrun (fun _ hmem => by cases hmem) hbefore
    exact hrun (checked_step hm hcommit) hbetween
  have hinactive : s.db.activeTenant tenant = false := by
    have hended : Ended tenant index s := run_invariant_of_meets (I := Ended tenant index)
      (fun _ _ _ h hstay hstep => h.step hstay hstep) (ended_of_commit hcommit) hstays hbetween
    obtain ⟨op', hop', hended⟩ := hended
    rw [hop] at hop'
    cases hop'
    refine (hended hcast).resolve_left fun hfailed => ?_
    rw [step, hop, Option.bind_some, hfailed, if_neg (by simp)] at hstep
    cases hstep
  constructor
  · intro hbars
    have ht := settle_eq hop hstep
    have hadmissions : t.admissions = s.admissions := by rw [ht]
    have hcache : t.cache = invalidateTenant s.cache op.id := by rw [ht]
    refine ⟨fun a hmem hown hphase => ?_, fun k hgrants => ?_⟩
    · rw [← hadmissions] at hchecked hmem
      exact not_bars_of_read hchecked hmem hown hphase hbars
    · by_contra hkept
      rw [Bool.not_eq_true] at hkept
      obtain ⟨userId, tenantId, entry, hkey, hv7, hown, hget, hallowed⟩ := hgrants
      have hleft : t.cache.get? k = some entry := by
        rw [hcache]
        exact get?_invalidateTenant.mpr ⟨hget, hkept⟩
      exact not_bars_of_grants ⟨userId, tenantId, entry, hkey, hv7, hown, hleft, hallowed⟩ hbars
  · intro hclear
    exact (hclear.closed hinactive hchecked hop hstep).bars

/-- A member of a tenant. -/
def sampleUser : String := "0197481e-7294-7c53-8b03-5c36d7c2831a"

def sampleTenant : String := "0197481e-6f84-77e4-8d6d-41f0b6fca9c1"

def capitalTenant : String := "0197481E-6F84-77E4-8D6D-41F0B6FCA9C1"

def sampleTenantId : Nat := 2114727566272993669030982021401061825

def sampleDb : Db where
  tenants := OrderedMap.empty.set sampleTenantId ⟨true, .active, none, none⟩
  memberships := OrderedMap.empty.set (sampleTenantId, (castUuid sampleUser).getD 0) true

/-- An admission has read the database when the tenant is to be suspended. -/
def racingRun : List Label :=
  [.request sampleUser sampleTenant false 0, .query 0 true,
    .begin (.suspendTenant "manual policy review") sampleTenant]

/-- An admission in capitals has been written into the cache when the tenant is to be archived. -/
def capitalRun : List Label :=
  [.request sampleUser capitalTenant false 0, .query 0 true, .finish 0 0,
    .begin .archiveTenant sampleTenant]

/-- An admission has been written into the cache when the tenant is to be purged. -/
def clearRun : List Label :=
  [.request sampleUser sampleTenant false 0, .query 0 true, .finish 0 0,
    .begin .purgeTenant sampleTenant]

/-- The first operation commits and returns. -/
structure Returns (before : List Label) (s t : State) : Prop where
  commits : ∃ m, run (step resolveTenancyOptions) (initial sampleDb) before = some m ∧
    step resolveTenancyOptions m (.commit 0 0) = some s
  operation : ∃ op, s.operations[0]? = some op ∧ castUuid op.id = some sampleTenantId
  settles : step resolveTenancyOptions s (.settle 0) = some t

/-- Operations that return bar their tenants: not those of two runs. -/
theorem operations_bar_fails :
    (∃ s t, Returns racingRun s t ∧ ¬ Bars resolveTenancyOptions sampleTenantId t) ∧
      ∃ s t, Returns capitalRun s t ∧ ¬ Bars resolveTenancyOptions sampleTenantId t := by
  -- a run after the return, whose last admission is granted
  have hfails : ∀ before rest : List Label, (∀ a ∈ rest, ∀ db, a ≠ .write db) →
      ((run (step resolveTenancyOptions) (initial sampleDb) before).bind fun m =>
        (step resolveTenancyOptions m (.commit 0 0)).bind fun s =>
          (step resolveTenancyOptions s (.settle 0)).bind fun t =>
            (run (step resolveTenancyOptions) t rest).bind fun u =>
              (u.admissions[t.admissions.length]?).map fun a =>
                ((s.operations[0]?).bind fun op => castUuid op.id, castUuid a.tenantId, a.phase)) =
        some (some sampleTenantId, some sampleTenantId, .returned true) →
      ∃ s t, Returns before s t ∧ ¬ Bars resolveTenancyOptions sampleTenantId t := by
    intro before rest hquiet hlast
    obtain ⟨m, hbefore, hlast⟩ := Option.bind_eq_some_iff.mp hlast
    obtain ⟨s, hcommit, hlast⟩ := Option.bind_eq_some_iff.mp hlast
    obtain ⟨t, hstep, hlast⟩ := Option.bind_eq_some_iff.mp hlast
    obtain ⟨u, hrest, hlast⟩ := Option.bind_eq_some_iff.mp hlast
    obtain ⟨a, ha, hfound⟩ := Option.map_eq_some_iff.mp hlast
    simp only [Prod.mk.injEq] at hfound
    obtain ⟨hop, hcast, hphase⟩ := hfound
    refine ⟨s, t, ⟨⟨m, hbefore, hcommit⟩, Option.bind_eq_some_iff.mp hop, hstep⟩, fun hbars => ?_⟩
    have hmeets : RunMeets (step resolveTenancyOptions)
        (fun _ a => StaysInactive sampleTenantId t a) t rest := by
      refine runMeets_of_forall_mem fun a hmem => ?_
      cases a with
      | write db => exact absurd rfl (hquiet _ hmem db)
      | _ => trivial
    exact hbars rest u hmeets hrest _ a le_rfl ha hcast hphase
  constructor
  · exact hfails racingRun [.finish 0 10, .request sampleUser sampleTenant false 20] (by simp)
      (by decide)
  · exact hfails capitalRun [.request sampleUser capitalTenant false 20] (by simp)
      (by decide +kernel)

theorem bars_iff_clear_clearRun :
    ∃ s t, Returns clearRun s t ∧ Bars resolveTenancyOptions sampleTenantId t := by
  have hlast : ((run (step resolveTenancyOptions) (initial sampleDb) clearRun).bind fun m =>
      (step resolveTenancyOptions m (.commit 0 0)).bind fun s =>
        (step resolveTenancyOptions s (.settle 0)).bind fun _ => (s.operations[0]?).map fun op =>
          (castUuid op.id, s.admissions.all fun a => a.phase ≠ .read true,
            s.cache.entries.all fun p => endsWithTenant op.id p.1)) =
      some (some sampleTenantId, true, true) := by
    decide +kernel
  obtain ⟨m, hbefore, hlast⟩ := Option.bind_eq_some_iff.mp hlast
  obtain ⟨s, hcommit, hlast⟩ := Option.bind_eq_some_iff.mp hlast
  obtain ⟨t, hstep, hlast⟩ := Option.bind_eq_some_iff.mp hlast
  obtain ⟨op, hop, hfound⟩ := Option.map_eq_some_iff.mp hlast
  simp only [Prod.mk.injEq] at hfound
  obtain ⟨hcast, hphases, hkeys⟩ := hfound
  have hclear : Clear sampleTenantId op.id s := by
    refine ⟨fun a hmem _ => of_decide_eq_true (List.all_eq_true.mp hphases a hmem),
      fun k hgrants => ?_⟩
    obtain ⟨-, -, entry, -, -, -, hget, -⟩ := hgrants
    exact List.all_eq_true.mp hkeys (k, entry) (OrderedMap.mem_entries_iff.mpr hget)
  have hbars := (bars_iff_clear sampleDb clearRun [] 0 0 op hbefore hcommit trivial rfl hop hcast
    hstep).mpr hclear
  exact ⟨s, t, ⟨⟨m, hbefore, hcommit⟩, ⟨op, hop, hcast⟩, hstep⟩, hbars⟩

end Stynx.TenantAdmissions
