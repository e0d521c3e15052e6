import Stynx.OfflineSyncReservationScopes

/-!
# The status of numbering ranges

A range is `exhausted` when no number of it is left.
-/

namespace Stynx.OfflineSyncRangeStatus

open OfflineSyncNumbering OfflineSyncReservationInvariant OrderedMap
open OfflineSyncNumberingRuns OfflineSyncReservationScopes TransitionRuns

/-- The next number lies in the range or just behind it, and the status says which. -/
structure StatusSound (r : NumberingRange) : Prop where
  /-- At most one number behind the range. -/
  bound : r.nextNumber ≤ r.endNumber + 1
  /-- Exhausted means that nothing is left. -/
  exhausted : r.status ≠ .cancelled → (r.status = .exhausted ↔ r.nextNumber = r.endNumber + 1)

/-- What holds of ranges, reservations and their entries between any two steps. -/
structure StatusInvariant (pending : Pending) (s : Store) : Prop where
  /-- Every range says whether anything is left. -/
  ranges : ∀ k r, s.ranges.get? k = some r → StatusSound r
  /-- Reservations are stored under tenant and id. -/
  keyed : ∀ k v, s.reservations.get? k = some v →
    k = key v.tenantId v.reservationId ∧ isUuid v.reservationId = true
  ordered : ∀ k v, s.reservations.get? k = some v → v.startNumber ≤ v.endNumber
  consumption : ∀ k v, s.reservations.get? k = some v →
    ∃ entries, s.consumption.get? k = some entries ∧ ExactEntries v entries
  /-- An item in flight was covered by a stored reservation. -/
  covered : ∀ k n, (k, n) ∈ pending → ∃ v, s.reservations.get? k = some v ∧ InInterval v n

theorem statusInvariant_empty : StatusInvariant [] Store.empty where
  ranges := by simp [Store.empty]
  keyed := by simp [Store.empty]
  ordered := by simp [Store.empty]
  consumption := by simp [Store.empty]
  covered := by simp

/-- A step that adds no reservation. -/
structure Revises (s t : Store) : Prop where
  /-- Reservations are those of the earlier store, up to their status. -/
  reservations : ∀ k v', t.reservations.get? k = some v' →
    ∃ v, s.reservations.get? k = some v ∧ v' = { v with status := v'.status }
  kept : ∀ k v, s.reservations.get? k = some v →
    ∃ status, t.reservations.get? k = some { v with status := status }
  /-- Every reservation keeps exact entries. -/
  entries : ∀ k v, s.reservations.get? k = some v →
    ∃ entries, t.consumption.get? k = some entries ∧ ExactEntries v entries

variable {s t : Store} {pending : Pending} {v : NumberingReservation} {entries : Entries}

theorem StatusInvariant.revise {before after : Pending} (hs : StatusInvariant before s)
    (h : Revises s t) (hranges : ∀ k r, t.ranges.get? k = some r → StatusSound r)
    (hpending : ∀ p, p ∈ after → p ∈ before) : StatusInvariant after t where
  ranges := hranges
  keyed k v' hv' := by
    obtain ⟨v, hv, hsame⟩ := h.reservations k v' hv'
    rw [hsame]
    exact hs.keyed k v hv
  ordered k v' hv' := by
    obtain ⟨v, hv, hsame⟩ := h.reservations k v' hv'
    rw [hsame]
    exact hs.ordered k v hv
  consumption k v' hv' := by
    obtain ⟨v, hv, hsame⟩ := h.reservations k v' hv'
    obtain ⟨entries, hc, hexact⟩ := h.entries k v hv
    rw [hsame]
    exact ⟨entries, hc, hexact.domain, hexact.number⟩
  covered k n hp := by
    obtain ⟨v, hv, hin⟩ := hs.covered k n (hpending _ hp)
    obtain ⟨status, hstatus⟩ := h.kept k v hv
    exact ⟨_, hstatus, hin⟩

theorem StatusInvariant.entries_set (hs : StatusInvariant pending s) {k : String}
    (hv : s.reservations.get? k = some v) (hexact : ExactEntries v entries) (j : String)
    (w : NumberingReservation) (hw : s.reservations.get? j = some w) :
    ∃ entries', (s.consumption.set k entries).get? j = some entries' ∧ ExactEntries w entries' := by
  rw [get?_set]
  split_ifs with hj
  · rw [← hj, hv] at hw
    rw [← Option.some.inj hw]
    exact ⟨entries, rfl, hexact⟩
  · exact hs.consumption j w hw

theorem revises_of_status {k : String} (hv : s.reservations.get? k = some v)
    {status : ReservationStatus}
    (hreservations : t.reservations = s.reservations.set k { v with status := status })
    (hentries : ∀ j w, s.reservations.get? j = some w →
      ∃ entries, t.consumption.get? j = some entries ∧ ExactEntries w entries) : Revises s t where
  reservations j w hw := by
    rw [hreservations] at hw
    rcases get?_set_eq_some.mp hw with ⟨rfl, rfl⟩ | ⟨-, hw⟩
    · exact ⟨v, hv, rfl⟩
    · exact ⟨w, hw, rfl⟩
  kept j w hw := by
    rw [hreservations, get?_set]
    split_ifs with hj
    · rw [← hj, hv] at hw
      rw [← Option.some.inj hw]
      exact ⟨status, rfl⟩
    · exact ⟨w.status, hw⟩
  entries := hentries

theorem revises_of_entries (hreservations : t.reservations = s.reservations)
    (hentries : ∀ j w, s.reservations.get? j = some w →
      ∃ entries, t.consumption.get? j = some entries ∧ ExactEntries w entries) : Revises s t where
  reservations k v hv := by
    rw [hreservations] at hv
    exact ⟨v, hv, rfl⟩
  kept k v hv := by
    rw [hreservations]
    exact ⟨v.status, hv⟩
  entries := hentries

theorem createNumberingRange_status (host : Host) (hs : StatusInvariant pending s) (scope : Scope)
    (input : CreateNumberingRangeInput) (now uuid : String) :
    StatusInvariant pending (createNumberingRange host s scope input now uuid).1 := by
  unfold createNumberingRange
  split
  · exact hs
  · next checked fingerprint hok =>
    have hle := rangeCreation_ok host hok
    dsimp only
    split
    · split <;> exact hs
    · split
      · exact hs
      · split
        · exact hs
        · refine hs.revise (revises_of_entries rfl hs.consumption) ?_ fun _ hp => hp
          intro k r hr
          rcases get?_set_eq_some.mp hr with ⟨-, rfl⟩ | ⟨-, hr⟩
          · constructor
            · dsimp only
              omega
            · intro _
              dsimp only
              constructor
              · intro h
                cases h
              · intro h
                omega
          · exact hs.ranges k r hr

theorem cancelNumberingRange_status (host : Host) (hs : StatusInvariant pending s) (scope : Scope)
    (id : String) (reason : Option String) (now : String) :
    StatusInvariant pending (cancelNumberingRange host s scope id reason now).1 := by
  rw [cancelNumberingRange]
  split
  · exact hs
  · split
    · exact hs
    · split
      · exact hs
      · next range hrange =>
        split
        · exact hs
        · exact hs
        · split
          · exact hs
          · refine hs.revise (revises_of_entries rfl hs.consumption) ?_ fun _ hp => hp
            intro k r hr
            rcases get?_set_eq_some.mp hr with ⟨-, rfl⟩ | ⟨-, hr⟩
            · exact ⟨(hs.ranges _ range hrange).bound, fun h => absurd rfl h⟩
            · exact hs.ranges k r hr

theorem statusSound_grantedRange {range : NumberingRange} {endNumber : Int}
    (h : endNumber ≤ range.endNumber) : StatusSound (grantedRange range endNumber) := by
  constructor
  · rw [grantedRange]
    dsimp only
    omega
  · intro _
    rw [grantedRange]
    dsimp only
    by_cases hend : endNumber = range.endNumber
    · rw [if_pos hend, hend]
      exact ⟨fun _ => rfl, fun _ => rfl⟩
    · rw [if_neg hend]
      constructor
      · intro h
        cases h
      · intro h
        omega

theorem allocateReservation_status (host : Host) (hs : StatusInvariant pending s) (scope : Scope)
    (input : ReserveNumberingInput) (now defaultValidUntil : String) (origin : Origin)
    {uuid : String} (hfresh : freshUuid s uuid = true) (hsize : 1 ≤ input.requestedSize) :
    StatusInvariant pending
      (allocateReservation host s scope input now defaultValidUntil origin uuid).1 := by
  rcases allocateReservation_cases host input defaultValidUntil origin with
    heq | ⟨range, keyed, -, -, hcapacity, heq⟩
  · rw [heq]
    exact hs
  · rw [heq]
    obtain ⟨huuid, -, hids⟩ := freshUuid_spec hfresh
    have hnew : s.reservations.get? (key scope.tenantId uuid) = none := by
      cases hv : s.reservations.get? (key scope.tenantId uuid) with
      | none => rfl
      | some v =>
        obtain ⟨hkey, hid⟩ := hs.keyed _ v hv
        exact absurd (key_injective huuid hid hkey).2.symm (hids _ v hv)
    have hkept : ∀ k v, s.reservations.get? k = some v → k ≠ key scope.tenantId uuid := by
      rintro k v hv rfl
      rw [hnew] at hv
      cases hv
    refine ⟨?_, ?_, ?_, ?_, ?_⟩
    · intro k r hr
      rcases get?_set_eq_some.mp hr with ⟨-, rfl⟩ | ⟨-, hr⟩
      · exact statusSound_grantedRange hcapacity
      · exact hs.ranges k r hr
    · intro k v hv
      rcases get?_set_eq_some.mp hv with ⟨rfl, rfl⟩ | ⟨-, hv⟩
      · exact ⟨rfl, huuid⟩
      · exact hs.keyed k v hv
    · intro k v hv
      rcases get?_set_eq_some.mp hv with ⟨rfl, rfl⟩ | ⟨-, hv⟩
      · dsimp only [grantedReservation]
        omega
      · exact hs.ordered k v hv
    · intro k v hv
      rcases get?_set_eq_some.mp hv with ⟨rfl, rfl⟩ | ⟨hk, hv⟩
      · exact ⟨_, get?_set_self _ _ _, exactEntries_availableEntries _⟩
      · obtain ⟨entries, hc, hexact⟩ := hs.consumption k v hv
        exact ⟨entries, (get?_set_of_ne _ _ hk).trans hc, hexact⟩
    · intro k n hp
      obtain ⟨v, hv, hin⟩ := hs.covered k n hp
      exact ⟨v, (get?_set_of_ne _ _ (hkept k v hv).symm).trans hv, hin⟩

/-- The last number of a range is used in a reservation whose cancellation returns its tail. -/
def lastUsed (s : Store) (scope : Scope) (id : String) (durable : Bool) : Bool :=
  match s.reservations.get? (key scope.tenantId id) with
  | some v =>
    match s.ranges.get? (key scope.tenantId v.rangeId) with
    | some range =>
      v.status = .reserved && (durable || v.shiftId.isSome && scope.ctg9) && returnsTail range v &&
        (entryStatus s (key scope.tenantId id) range.endNumber).any ConsumptionStatus.isUsed
    | none => false
  | none => false

theorem used_of_highestApplied (h : ExactEntries v entries) {n : Int}
    (hn : highestApplied v entries = n) (hstart : v.startNumber ≤ n) :
    ∃ e, entries.get? n = some e ∧ e.status.isUsed = true := by
  have hspec : ((v.startNumber - 1) ::
      (entries.values.filter (·.status.isUsed)).map ConsumptionEntry.number).max? =
      some (highestApplied v entries) := List.max?_cons'
  obtain ⟨hmem, -⟩ := List.max?_eq_some_iff.mp hspec
  rw [hn] at hmem
  rcases List.mem_cons.mp hmem with hbefore | hused
  · omega
  · obtain ⟨e, he, hnumber⟩ := List.mem_map.mp hused
    obtain ⟨hvalue, hstatus⟩ := List.mem_filter.mp he
    obtain ⟨m, hm⟩ := mem_values_iff.mp hvalue
    have hsame : m = n := (h.number m e hm).symm.trans hnumber
    rw [hsame] at hm
    exact ⟨e, hm, hstatus⟩

theorem returnTail_status (hs : StatusInvariant pending s) {scope : Scope} {id : String}
    (hv : s.reservations.get? (key scope.tenantId id) = some v)
    (hc : s.consumption.get? (key scope.tenantId id) = some entries)
    (hlast : ∀ range, s.ranges.get? (key scope.tenantId v.rangeId) = some range →
      returnsTail range v = true →
      (entryStatus s (key scope.tenantId id) range.endNumber).any ConsumptionStatus.isUsed = false)
    (k : String) (r : NumberingRange) (hr : (returnTail s scope v entries).get? k = some r) :
    StatusSound r := by
  rw [returnTail] at hr
  cases hrange : s.ranges.get? (key scope.tenantId v.rangeId) with
  | none =>
    rw [hrange] at hr
    exact hs.ranges k r hr
  | some range =>
    rw [hrange] at hr
    dsimp only at hr
    split_ifs at hr with htail
    · rcases get?_set_eq_some.mp hr with ⟨-, rfl⟩ | ⟨-, hr⟩
      · have hunused := hlast range hrange htail
        simp only [returnsTail, Bool.and_eq_true, decide_eq_true_eq] at htail
        obtain ⟨stored, hstored, hexact⟩ := hs.consumption _ v hv
        rw [hc] at hstored
        rw [← Option.some.inj hstored] at hexact
        have hordered := hs.ordered _ v hv
        obtain ⟨-, hle⟩ := highestApplied_bounds hexact hordered
        have hbound := (hs.ranges _ range hrange).bound
        have hne : highestApplied v entries ≠ range.endNumber := by
          intro heq
          obtain ⟨e, he, hused⟩ := used_of_highestApplied hexact heq (by omega)
          rw [entryStatus, hc, Option.bind_some, he, Option.map_some, Option.any_some,
            hused] at hunused
          cases hunused
        constructor
        · dsimp only
          omega
        · intro _
          dsimp only
          constructor
          · intro h
            cases h
          · intro h
            omega
      · exact hs.ranges k r hr
    · exact hs.ranges k r hr

theorem cancelReservation_status (hs : StatusInvariant pending s) (scope : Scope) (id : String)
    (durable : Bool) (hlast : lastUsed s scope id durable = false) :
    StatusInvariant pending (cancelReservation s scope id durable).1 := by
  rw [cancelReservation]
  dsimp only
  split
  · exact hs
  · next v hv =>
    split
    · exact hs
    · next hlegacy =>
      split
      · exact hs
      · split
        · exact hs
        · next hstatus =>
          have hreserved : v.status = .reserved := not_ne_iff.mp hstatus
          split
          · next hdurable =>
            obtain ⟨entries, hc, hexact⟩ := hs.consumption _ v hv
            rw [hc]
            have hshift : (durable || v.shiftId.isSome && scope.ctg9) = true := by
              cases durable with
              | true => rfl
              | false =>
                rw [if_neg Bool.false_ne_true, legacyReservation] at hlegacy
                split_ifs at hlegacy with hnone
                rw [not_or] at hnone
                simp only [Bool.false_eq_true, false_or] at hdurable
                rw [hdurable, Bool.and_true, Bool.false_or, Option.isSome_iff_ne_none]
                exact hnone.1
            have hunused : ∀ range, s.ranges.get? (key scope.tenantId v.rangeId) = some range →
                returnsTail range v = true →
                (entryStatus s (key scope.tenantId id) range.endNumber).any
                  ConsumptionStatus.isUsed = false := by
              intro range hrange htail
              rw [lastUsed, hv] at hlast
              dsimp only at hlast
              rw [hrange] at hlast
              dsimp only at hlast
              rw [hshift, htail, decide_eq_true hreserved, Bool.and_true, Bool.and_true,
                Bool.true_and] at hlast
              exact hlast
            exact hs.revise
              (revises_of_status hv rfl
                (hs.entries_set hv (exactEntries_retireAvailable hexact .expired)))
              (returnTail_status hs hv hc hunused) fun _ hp => hp
          · exact hs.revise (revises_of_status hv rfl hs.consumption) hs.ranges fun _ hp => hp

theorem transitionReservation_status (host : Host) (hs : StatusInvariant pending s) (scope : Scope)
    (id : String) (target : Transition) (now : String) :
    StatusInvariant pending (transitionReservation host s scope id target now).1 := by
  rcases transitionReservation_cases host id target with heq | ⟨v, hv, -, heq | ⟨entries, hc, heq⟩⟩
  · rw [heq]
    exact hs
  · rw [heq]
    exact hs.revise (revises_of_status hv rfl hs.consumption) hs.ranges fun _ hp => hp
  · rw [heq]
    obtain ⟨stored, hstored, hexact⟩ := hs.consumption _ v hv
    rw [hc] at hstored
    rw [← Option.some.inj hstored] at hexact
    exact hs.revise
      (revises_of_status hv rfl
        (hs.entries_set hv (exactEntries_retireAvailable hexact target.unused)))
      hs.ranges fun _ hp => hp

theorem reconcile_status (host : Host) (hs : StatusInvariant pending s) (scope : Scope)
    (id : String) (input : ReconcileNumberingInput) (now uuid : String) :
    StatusInvariant pending (reconcileNumberingReservation host s scope id input now uuid).1 := by
  rw [reconcileNumberingReservation]
  split
  · exact hs
  · split
    · exact hs
    · next claimedNumbers _ _ =>
      dsimp only
      split
      · next reservation entries hv hc =>
        obtain ⟨stored, hstored, hexact⟩ := hs.consumption _ reservation hv
        rw [hc] at hstored
        rw [← Option.some.inj hstored] at hexact
        split
        · split <;> exact hs
        · split
          · exact hs
          · have hclaimed := (claimEntries_spec claimedNumbers hexact).1
            split
            · exact hs.revise (revises_of_entries rfl (hs.entries_set hv hclaimed)) hs.ranges
                fun _ hp => hp
            · exact hs.revise (revises_of_entries rfl (hs.entries_set hv hclaimed)) hs.ranges
                fun _ hp => hp
      · exact hs

theorem recordConsumption_status {before after : Pending} (hs : StatusInvariant before s)
    (covering : Option String) (item : NumberedItem)
    (hcovering : ∀ k n, covering = some k → item.reservedNumber = some n → (k, n) ∈ before)
    (hpending : ∀ p, p ∈ after → p ∈ before) (status : ItemStatus) (entity : Option String)
    (now : String) :
    StatusInvariant after (recordConsumption s covering item status entity now).1 := by
  have hrest : StatusInvariant after s :=
    hs.revise (revises_of_entries rfl hs.consumption) hs.ranges hpending
  unfold recordConsumption
  split
  · next k entity n hnumber =>
    split
    · obtain ⟨v, hv, hin⟩ := hs.covered k n (hcovering k n rfl hnumber)
      obtain ⟨entries, hc, hexact⟩ := hs.consumption k v hv
      obtain ⟨old, hold⟩ := (hexact.domain n).mpr hin
      have hset : ExactEntries v (entries.set n (appliedEntry n (some old) entity now)) := by
        constructor
        · intro m
          rw [← hexact.domain m]
          by_cases hm : n = m
          · rw [← hm, get?_set_self, hold]
            exact ⟨fun _ => ⟨_, rfl⟩, fun _ => ⟨_, rfl⟩⟩
          · rw [get?_set_of_ne _ _ hm]
        · intro m e he
          rcases get?_set_eq_some.mp he with ⟨rfl, rfl⟩ | ⟨-, he'⟩
          · exact hexact.number _ old hold
          · exact hexact.number m e he'
      rw [hc]
      dsimp only
      rw [hold]
      exact hs.revise (revises_of_entries rfl (hs.entries_set hv hset)) hs.ranges hpending
    · exact hrest
  · exact hrest

/-- A cancellation does not find the last number of a range used. -/
def LeavesLast (s : SyncState) : Label → Prop
  | .command (.cancelNumberingReservation scope id) => lastUsed s.store scope id false = false
  | .command (.cancelDurableNumberingReservation scope id) => lastUsed s.store scope id true = false
  | _ => True

instance (s : SyncState) (a : Label) : Decidable (LeavesLast s a) := by
  unfold LeavesLast
  split <;> infer_instance

theorem exec_status (host : Host) {s : SyncState} (hs : StatusInvariant pending s.store)
    (c : Command) (henabled : c.enabled s.store = true) (hlast : LeavesLast s (.command c)) :
    StatusInvariant pending (c.exec host s.store) := by
  cases c with
  | createNumberingRange scope input now uuid =>
    exact createNumberingRange_status host hs scope input now uuid
  | cancelNumberingRange scope id reason now =>
    exact cancelNumberingRange_status host hs scope id reason now
  | reserveNumbering scope input now defaultValidUntil uuid =>
    simp only [Command.enabled, Bool.and_eq_true, decide_eq_true_eq] at henabled
    exact allocateReservation_status host hs scope input now defaultValidUntil .e6 henabled.1
      henabled.2
  | reserveDurableNumbering scope input now defaultValidUntil uuid =>
    simp only [Command.enabled, Bool.and_eq_true, decide_eq_true_eq] at henabled
    exact allocateReservation_status host hs scope input now defaultValidUntil .ctg9 henabled.1
      henabled.2
  | cancelNumberingReservation scope id => exact cancelReservation_status hs scope id false hlast
  | cancelDurableNumberingReservation scope id =>
    exact cancelReservation_status hs scope id true hlast
  | blockNumberingReservation scope id now =>
    exact transitionReservation_status host hs scope id .blocked now
  | closeNumberingReservation scope id now =>
    exact transitionReservation_status host hs scope id .consumed now
  | settleNumberingReservation scope id now =>
    exact transitionReservation_status host hs scope id .consumed now
  | reconcileNumberingReservation scope id input now uuid =>
    exact reconcile_status host hs scope id input now uuid

theorem step_status (host : Host) (s : SyncState) (a : Label) (t : SyncState)
    (hs : StatusInvariant (pendingOf s.inFlight) s.store) (hlast : LeavesLast s a)
    (h : step host s a = some t) : StatusInvariant (pendingOf t.inFlight) t.store := by
  cases a with
  | command c =>
    rw [step] at h
    split_ifs at h with henabled
    rw [← Option.some.inj h]
    exact exec_status host hs c henabled hlast
  | cover item =>
    rw [step] at h
    split at h
    · next covering hcovering =>
      rw [← Option.some.inj h]
      refine ⟨hs.ranges, hs.keyed, hs.ordered, hs.consumption, ?_⟩
      intro k n hp
      rw [pendingOf, List.filterMap_append, List.mem_append] at hp
      rcases hp with hp | hp
      · exact hs.covered k n hp
      · cases covering with
        | none => simp at hp
        | some j =>
          obtain ⟨m, v, hm, hv, -, hin⟩ := coveringReservation_spec host hcovering
          simp only [List.filterMap_cons, Option.bind_some, hm, Option.map_some,
            List.filterMap_nil, List.mem_singleton, Prod.mk.injEq] at hp
          obtain ⟨rfl, rfl⟩ := hp
          exact ⟨v, hv, hin⟩
    · rw [← Option.some.inj h]
      exact hs
  | finish index status serverEntityId now =>
    rw [step] at h
    split at h
    · next f hf =>
      rw [← Option.some.inj h]
      refine recordConsumption_status hs f.covering f.item ?_ ?_ status serverEntityId now
      · intro k n hk hn
        refine List.mem_filterMap.mpr ⟨f, List.mem_of_getElem? hf, ?_⟩
        rw [hk, Option.bind_some, hn, Option.map_some]
      · intro p hp
        obtain ⟨g, hg, hgp⟩ := List.mem_filterMap.mp hp
        exact List.mem_filterMap.mpr ⟨g, List.mem_of_mem_eraseIdx hg, hgp⟩
    · cases h

/-- While no cancellation returns the tail of a range whose last number is used, a range that is not
cancelled is exhausted exactly when no number of it is left. -/
theorem exhausted_iff_nothing_left (host : Host) (labels : List Label) (s : SyncState)
    (hok : RunMeets (step host) LeavesLast SyncState.initial labels)
    (hrun : run (step host) SyncState.initial labels = some s) (k : String) (r : NumberingRange)
    (hr : s.store.ranges.get? k = some r) (hlive : r.status ≠ .cancelled) :
    r.status = .exhausted ↔ r.nextNumber = r.endNumber + 1 := by
  have hempty : StatusInvariant (pendingOf SyncState.initial.inFlight) SyncState.initial.store :=
    statusInvariant_empty
  have hs : StatusInvariant (pendingOf s.inFlight) s.store :=
    run_invariant_of_meets (I := fun s => StatusInvariant (pendingOf s.inFlight) s.store)
      (step_status host) hempty hok hrun
  exact (hs.ranges k r hr).exhausted hlive

/-- A durable reservation of all ten numbers of the sample range. -/
def reserveAll : Command :=
  .reserveDurableNumbering sampleScope
    ⟨"unit", "d1", none, "order", 10, none, none, none, none, none⟩
    "2026-01-01T00:00:00.000Z" "2026-01-02T00:00:00.000Z" firstUuid

/-- The item of a device that uses a number of the sample range. -/
def numberedItem (number : Int) : NumberedItem :=
  ⟨"acme", "d1", "unit", "order", some number, none, "2026-01-01T00:00:00.000Z"⟩

def cancelledAfter (number : Int) : List Label :=
  [.command sampleRange, .command reserveAll, .cover (numberedItem number),
    .finish 0 .applied (some "entity") "2026-01-01T00:00:00.000Z",
    .command (.cancelDurableNumberingReservation sampleScope firstUuid)]

/-- The range of the sample runs: its next number, its last number and its status. -/
def sampleProgress (s : SyncState) : Option (Int × Int × RangeStatus) :=
  (s.store.ranges.get? (key "acme" "00000000-0000-4000-8000-000000000001")).map fun r =>
    (r.nextNumber, r.endNumber, r.status)

/-- The tail behind number 9 is returned. -/
theorem exhausted_iff_after_nine :
    ∃ s r, run (step sampleHost) SyncState.initial (cancelledAfter 9) = some s ∧
      s.store.ranges.get? (key "acme" "00000000-0000-4000-8000-000000000001") = some r ∧
      r.nextNumber = 10 ∧ (r.status = .exhausted ↔ r.nextNumber = r.endNumber + 1) := by
  have hok : RunMeets (step sampleHost) LeavesLast SyncState.initial (cancelledAfter 9) := by
    decide
  have hlast : (run (step sampleHost) SyncState.initial (cancelledAfter 9)).bind sampleProgress =
      some (10, 10, .active) := by
    decide
  obtain ⟨s, hrun, hs⟩ := Option.bind_eq_some_iff.mp hlast
  obtain ⟨r, hr, hprogress⟩ := Option.map_eq_some_iff.mp hs
  simp only [Prod.mk.injEq] at hprogress
  obtain ⟨hnext, -, hstatus⟩ := hprogress
  exact ⟨s, r, hrun, hr, hnext, exhausted_iff_nothing_left sampleHost _ s hok hrun _ r hr
    (by rw [hstatus]; decide)⟩

/-- With number 10 applied nothing is left, and the range is active again. -/
theorem active_with_nothing_left :
    ∃ s r, run (step sampleHost) SyncState.initial (cancelledAfter 10) = some s ∧
      s.store.ranges.get? (key "acme" "00000000-0000-4000-8000-000000000001") = some r ∧
      r.status = .active ∧ r.nextNumber = r.endNumber + 1 := by
  have hlast : (run (step sampleHost) SyncState.initial (cancelledAfter 10)).bind sampleProgress =
      some (11, 10, .active) := by
    decide
  obtain ⟨s, hrun, hs⟩ := Option.bind_eq_some_iff.mp hlast
  obtain ⟨r, hr, hprogress⟩ := Option.map_eq_some_iff.mp hs
  simp only [Prod.mk.injEq] at hprogress
  obtain ⟨hnext, hend, hstatus⟩ := hprogress
  exact ⟨s, r, hrun, hr, hstatus, by omega⟩

end Stynx.OfflineSyncRangeStatus
