import Stynx.TransitionRuns
import Stynx.OfflineSyncReservationInvariant

/-!
# Runs of the numbering store

Two systems over the numbering operations. In the first every operation is atomic. In the second
a sync item is admitted by the covering check and finished by the consumption write, and any
operation may run in between; any number of items may be in flight.

The methods of the store other than a batch contain no `await`. A UUID label is taken only when
it is new, and a reservation request only when its size is positive, which the service checks.
-/

namespace Stynx.OfflineSyncNumberingRuns

open OfflineSyncNumbering OfflineSyncReservationInvariant TransitionRuns

/-- A call of one numbering method, with the values its random UUIDs take. -/
inductive Command where
  | createNumberingRange (scope : Scope) (input : CreateNumberingRangeInput) (now uuid : String)
  | cancelNumberingRange (scope : Scope) (id : String) (reason : Option String) (now : String)
  | reserveNumbering (scope : Scope) (input : ReserveNumberingInput)
      (now defaultValidUntil uuid : String)
  | reserveDurableNumbering (scope : Scope) (input : ReserveNumberingInput)
      (now defaultValidUntil uuid : String)
  | cancelNumberingReservation (scope : Scope) (id : String)
  | cancelDurableNumberingReservation (scope : Scope) (id : String)
  | blockNumberingReservation (scope : Scope) (id now : String)
  | closeNumberingReservation (scope : Scope) (id now : String)
  | settleNumberingReservation (scope : Scope) (id now : String)
  | reconcileNumberingReservation (scope : Scope) (id : String) (input : ReconcileNumberingInput)
      (now uuid : String)

/-- What the platform and the service guarantee of a call. -/
def Command.enabled (s : Store) : Command → Bool
  | .createNumberingRange _ _ _ uuid => freshUuid s uuid
  | .reserveNumbering _ input _ _ uuid => freshUuid s uuid && 1 ≤ input.requestedSize
  | .reserveDurableNumbering _ input _ _ uuid => freshUuid s uuid && 1 ≤ input.requestedSize
  | _ => true

/-- The store a call leaves behind, whether it returns or throws. -/
def Command.exec (host : Host) (s : Store) : Command → Store
  | .createNumberingRange scope input now uuid =>
    (OfflineSyncNumbering.createNumberingRange host s scope input now uuid).1
  | .cancelNumberingRange scope id reason now =>
    (OfflineSyncNumbering.cancelNumberingRange host s scope id reason now).1
  | .reserveNumbering scope input now defaultValidUntil uuid =>
    (OfflineSyncNumbering.reserveNumbering host s scope input now defaultValidUntil uuid).1
  | .reserveDurableNumbering scope input now defaultValidUntil uuid =>
    (OfflineSyncNumbering.reserveDurableNumbering host s scope input now defaultValidUntil uuid).1
  | .cancelNumberingReservation scope id =>
    (OfflineSyncNumbering.cancelNumberingReservation s scope id).1
  | .cancelDurableNumberingReservation scope id =>
    (OfflineSyncNumbering.cancelDurableNumberingReservation s scope id).1
  | .blockNumberingReservation scope id now =>
    (OfflineSyncNumbering.blockNumberingReservation host s scope id now).1
  | .closeNumberingReservation scope id now =>
    (OfflineSyncNumbering.closeNumberingReservation host s scope id now).1
  | .settleNumberingReservation scope id now =>
    (OfflineSyncNumbering.settleNumberingReservation host s scope id now).1
  | .reconcileNumberingReservation scope id input now uuid =>
    (OfflineSyncNumbering.reconcileNumberingReservation host s scope id input now uuid).1

/-- The side condition of a call: a cancellation returns no number of an item in flight. -/
def Command.spares (pending : Pending) (s : Store) : Command → Bool
  | .cancelNumberingReservation scope id => rewindSpares pending s scope id false
  | .cancelDurableNumberingReservation scope id => rewindSpares pending s scope id true
  | _ => true

theorem exec_invariant (host : Host) {pending : Pending} {s : Store} (hs : Invariant pending s)
    (c : Command) (henabled : c.enabled s = true) (hspares : c.spares pending s = true) :
    Invariant pending (c.exec host s) := by
  cases c with
  | createNumberingRange scope input now uuid =>
    exact createNumberingRange_invariant host hs scope input now henabled
  | cancelNumberingRange scope id reason now =>
    exact cancelNumberingRange_invariant host hs scope id reason now
  | reserveNumbering scope input now defaultValidUntil uuid =>
    simp only [Command.enabled, Bool.and_eq_true, decide_eq_true_eq] at henabled
    exact allocateReservation_invariant host hs scope input now defaultValidUntil .e6 henabled.1
      henabled.2
  | reserveDurableNumbering scope input now defaultValidUntil uuid =>
    simp only [Command.enabled, Bool.and_eq_true, decide_eq_true_eq] at henabled
    exact allocateReservation_invariant host hs scope input now defaultValidUntil .ctg9 henabled.1
      henabled.2
  | cancelNumberingReservation scope id =>
    exact cancelReservation_invariant hs scope id false hspares
  | cancelDurableNumberingReservation scope id =>
    exact cancelReservation_invariant hs scope id true hspares
  | blockNumberingReservation scope id now =>
    exact transitionReservation_invariant host hs scope id .blocked now
  | closeNumberingReservation scope id now =>
    exact transitionReservation_invariant host hs scope id .consumed now
  | settleNumberingReservation scope id now =>
    exact transitionReservation_invariant host hs scope id .consumed now
  | reconcileNumberingReservation scope id input now uuid =>
    exact reconcileNumberingReservation_invariant host hs scope id input now uuid

theorem spares_nil (s : Store) (c : Command) : c.spares [] s = true := by
  have h : ∀ scope id durable, rewindSpares [] s scope id durable = true := by
    intro scope id durable
    unfold rewindSpares
    dsimp only
    split
    · split
      · split <;> rfl
      · rfl
    · rfl
  cases c with
  | cancelNumberingReservation scope id => exact h scope id false
  | cancelDurableNumberingReservation scope id => exact h scope id true
  | _ => rfl

/-- One step of the system in which a sync item is atomic. -/
inductive AtomicLabel where
  | command (c : Command)
  | syncItem (item : NumberedItem) (status : ItemStatus) (serverEntityId : Option String)
      (now : String)

/-- A sync item whose applier settles with the given status and entity at once. -/
def applySyncItem (host : Host) (s : Store) (item : NumberedItem) (status : ItemStatus)
    (serverEntityId : Option String) (now : String) : Outcome Unit :=
  match coveringReservation host s item with
  | .error e => (s, .error e)
  | .ok covering => recordConsumption s covering item status serverEntityId now

def atomicStep (host : Host) (s : Store) : AtomicLabel → Option Store
  | .command c => if c.enabled s then some (c.exec host s) else none
  | .syncItem item status serverEntityId now =>
    some (applySyncItem host s item status serverEntityId now).1

theorem applySyncItem_invariant (host : Host) {s : Store} (hs : Invariant [] s)
    (item : NumberedItem) (status : ItemStatus) (serverEntityId : Option String) (now : String) :
    Invariant [] (applySyncItem host s item status serverEntityId now).1 := by
  unfold applySyncItem
  split
  · exact hs
  · rename_i covering hcovering
    cases covering with
    | none => exact recordConsumption_invariant hs none item (by simp) (by simp) _ _ _
    | some k =>
      obtain ⟨n, v, hn, hv, hreserved, hin⟩ := coveringReservation_spec host hcovering
      have hlive : v.status ≠ .cancelled := by
        rw [hreserved]
        decide
      refine recordConsumption_invariant (hs.cover hv hlive hin) (some k) item ?_ (by simp) _ _ _
      intro k' n' hk hn'
      cases hk
      cases hn.symm.trans hn'
      exact .head _

theorem atomicStep_invariant (host : Host) (s : Store) (a : AtomicLabel) (t : Store)
    (hs : Invariant [] s) (h : atomicStep host s a = some t) : Invariant [] t := by
  cases a with
  | command c =>
    rw [atomicStep] at h
    split_ifs at h with henabled
    cases h
    exact exec_invariant host hs c henabled (spares_nil s c)
  | syncItem item status serverEntityId now =>
    cases h
    exact applySyncItem_invariant host hs item status serverEntityId now

/-- A reservation that still keeps its numbers from being granted again. -/
def IsOpen (v : NumberingReservation) : Prop := v.status = .reserved ∨ v.status = .blocked

structure RangeSound (s : Store) (r : NumberingRange) : Prop where
  /-- The next number lies in the range or just behind it. -/
  bounds : r.startNumber ≤ r.nextNumber ∧ r.nextNumber ≤ r.endNumber + 1
  contained : ∀ k v, s.reservations.get? k = some v → v.rangeId = r.id → IsOpen v →
    r.startNumber ≤ v.startNumber ∧ v.startNumber ≤ v.endNumber ∧ v.endNumber ≤ r.nextNumber - 1
  /-- Different open reservations have no number in common. -/
  disjoint : ∀ k v k' v', s.reservations.get? k = some v → s.reservations.get? k' = some v' →
    v.rangeId = r.id → v'.rangeId = r.id → IsOpen v → IsOpen v' → k ≠ k' →
    ∀ n, ¬ (InInterval v n ∧ InInterval v' n)
  /-- Applied numbers were granted. -/
  applied : ∀ k v n, s.reservations.get? k = some v → v.rangeId = r.id →
    entryStatus s k n = some .applied → n < r.nextNumber

theorem rangeSound_of_invariant {s : Store} (hs : Invariant [] s) {kr : String}
    {r : NumberingRange} (hr : s.ranges.get? kr = some r) : RangeSound s r where
  bounds := hs.rangeBounds kr r hr
  contained k v hv hid hopen := by
    obtain ⟨hle, kr', r', hr', hid', hstart⟩ := hs.reservationRange k v hv
    have hkr : kr' = kr := hs.rangeIds kr' r' kr r hr' hr (hid'.trans hid)
    subst hkr
    cases hr'.symm.trans hr
    have hlive : v.status ≠ .cancelled := by
      rcases hopen with h | h <;> rw [h] <;> decide
    have hlast := hs.heldBelow k v _ _ v.endNumber hv hr hid.symm (.inl ⟨hlive, hle, le_refl _⟩)
    exact ⟨hstart, hle, by omega⟩
  disjoint k v k' v' hv hv' hid hid' hopen hopen' hne n := by
    rintro ⟨hin, hin'⟩
    have hlive : v.status ≠ .cancelled := by
      rcases hopen with h | h <;> rw [h] <;> decide
    have hlive' : v'.status ≠ .cancelled := by
      rcases hopen' with h | h <;> rw [h] <;> decide
    exact hne (hs.heldUnique k v k' v' n hv hv' (hid.trans hid'.symm) (.inl ⟨hlive, hin⟩)
      (.inl ⟨hlive', hin'⟩))
  applied k v n hv hid happ := hs.heldBelow k v kr r n hv hr hid.symm (.inr (.inl happ))

/-- In every state of the atomic system, each range is sound and each reservation has exactly one
entry for each of its numbers. -/
theorem numbering_sound (host : Host) (labels : List AtomicLabel) (s : Store)
    (hrun : run (atomicStep host) Store.empty labels = some s) :
    (∀ kr r, s.ranges.get? kr = some r → RangeSound s r) ∧
    ∀ k v, s.reservations.get? k = some v →
      ∃ entries, s.consumption.get? k = some entries ∧ ExactEntries v entries := by
  have hs : Invariant [] s := run_invariant (atomicStep_invariant host) invariant_empty hrun
  exact ⟨fun kr r hr => rangeSound_of_invariant hs hr, hs.consumption⟩

/-- A platform that knows the two instants of the sample runs. -/
def sampleHost : Host where
  dateParse text :=
    if text = "2026-01-01T00:00:00.000Z" then some 1767225600000
    else if text = "2026-01-02T00:00:00.000Z" then some 1767312000000
    else none
  toISOString ms :=
    if ms = 1767312000000 then "2026-01-02T00:00:00.000Z" else "2026-01-01T00:00:00.000Z"
  instantMicroseconds text :=
    if text = "2026-01-01T00:00:00.000Z" then some 1767225600000000
    else if text = "2026-01-02T00:00:00.000Z" then some 1767312000000000
    else none
  boundedConsumerAttributes := some
  rangeDigest request := "sha256:" ++ request.tenantId ++ request.input.series
  reservationDigest request := "sha256:" ++ request.deviceId
  reconciliationDigest _ _ := "sha256:"

/-- The tenant of the sample runs. -/
def sampleScope : Scope := ⟨"acme", "agent", none, true⟩

def sampleRange : Command :=
  .createNumberingRange sampleScope ⟨"unit", "order", "A", 1, 10, none, none⟩
    "2026-01-01T00:00:00.000Z" "00000000-0000-4000-8000-000000000001"

def sampleReserve (device uuid : String) : Command :=
  .reserveDurableNumbering sampleScope
    ⟨"unit", device, none, "order", 2, none, none, none, none, none⟩
    "2026-01-01T00:00:00.000Z" "2026-01-02T00:00:00.000Z" uuid

def sampleItem (device : String) : NumberedItem :=
  ⟨"acme", device, "unit", "order", some 1, none, "2026-01-01T00:00:00.000Z"⟩

/-- The reservation granted first in the sample runs. -/
def firstUuid : String := "00000000-0000-4000-8000-000000000002"

/-- The reservation granted second in the sample runs. -/
def secondUuid : String := "00000000-0000-4000-8000-000000000003"

/-- A number is applied, the rest is cancelled and the returned tail granted to another device. -/
def returnedTailRun : List AtomicLabel :=
  [.command sampleRange, .command (sampleReserve "d1" firstUuid),
    .syncItem (sampleItem "d1") .applied (some "entity") "2026-01-01T00:00:00.000Z",
    .command (.cancelDurableNumberingReservation sampleScope firstUuid),
    .command (sampleReserve "d2" secondUuid)]

theorem numbering_sound_returnedTailRun :
    ∃ s, run (atomicStep sampleHost) Store.empty returnedTailRun = some s ∧
      (s.reservations.get? (key "acme" secondUuid)).map (fun v => (v.startNumber, v.endNumber)) =
        some (2, 3) ∧
      ∀ kr r, s.ranges.get? kr = some r → RangeSound s r := by
  have hlast : (run (atomicStep sampleHost) Store.empty returnedTailRun).bind
      (fun s => (s.reservations.get? (key "acme" secondUuid)).map
        fun v => (v.startNumber, v.endNumber)) = some (2, 3) := by
    decide +kernel
  obtain ⟨s, hrun, hs⟩ := Option.bind_eq_some_iff.mp hlast
  exact ⟨s, hrun, hs, (numbering_sound sampleHost returnedTailRun s hrun).1⟩

/-- An item between its covering check and its consumption write. -/
structure Flight where
  item : NumberedItem
  /-- The reservation key the covering check chose. -/
  covering : Option String

/-- The store and the items whose appliers have not settled. -/
structure SyncState where
  store : Store
  inFlight : List Flight

/-- A new store with no item in flight. -/
def SyncState.initial : SyncState := ⟨Store.empty, []⟩

def pendingOf (flights : List Flight) : Pending :=
  flights.filterMap fun f => f.covering.bind fun k => f.item.reservedNumber.map fun n => (k, n)

/-- One step between two `await` points. -/
inductive Label where
  | command (c : Command)
  | cover (item : NumberedItem)
  | finish (index : Nat) (status : ItemStatus) (serverEntityId : Option String) (now : String)

/-- The interleaved system; an item whose applier throws finishes without an entity. -/
def step (host : Host) (s : SyncState) : Label → Option SyncState
  | .command c =>
    if c.enabled s.store then some { s with store := c.exec host s.store } else none
  | .cover item =>
    match coveringReservation host s.store item with
    | .ok covering => some { s with inFlight := s.inFlight ++ [⟨item, covering⟩] }
    | .error _ => some s
  | .finish index status serverEntityId now =>
    match s.inFlight[index]? with
    | some f =>
      some
        { store := (recordConsumption s.store f.covering f.item status serverEntityId now).1
          inFlight := s.inFlight.eraseIdx index }
    | none => none

/-- The condition under which a label cannot return a number that an item in flight will apply. -/
def SparesFlights (s : SyncState) : Label → Prop
  | .command c => c.spares (pendingOf s.inFlight) s.store = true
  | _ => True

instance (s : SyncState) : (a : Label) → Decidable (SparesFlights s a)
  | .command _ => inferInstanceAs (Decidable (_ = _))
  | .cover _ | .finish .. => isTrue trivial

/-- No number of a range is applied under two reservations. -/
def AppliedOnce (s : Store) : Prop :=
  ∀ k v k' v' n, s.reservations.get? k = some v → s.reservations.get? k' = some v' →
    v.rangeId = v'.rangeId → entryStatus s k n = some .applied →
    entryStatus s k' n = some .applied → k = k'

/-- The reservation invariant with the items in flight counted as holders. -/
def SyncInvariant (s : SyncState) : Prop := Invariant (pendingOf s.inFlight) s.store

theorem syncInvariant_initial : SyncInvariant SyncState.initial := invariant_empty

theorem step_invariant (host : Host) (s : SyncState) (a : Label) (t : SyncState)
    (hs : SyncInvariant s) (hok : SparesFlights s a) (h : step host s a = some t) :
    SyncInvariant t := by
  cases a with
  | command c =>
    rw [step] at h
    split_ifs at h with henabled
    cases h
    exact exec_invariant host hs c henabled hok
  | cover item =>
    rw [step] at h
    split at h
    · rename_i covering hcovering
      cases h
      cases covering with
      | none => simpa [SyncInvariant, pendingOf] using hs
      | some k =>
        obtain ⟨n, v, hn, hv, hreserved, hin⟩ := coveringReservation_spec host hcovering
        have hlive : v.status ≠ .cancelled := by
          rw [hreserved]
          decide
        refine (Invariant.cover hs hv hlive hin).dropPending ?_
        intro p hp
        simp only [pendingOf, List.filterMap_append, List.filterMap_cons, Option.bind_some, hn,
          Option.map_some, List.filterMap_nil, List.mem_append, List.mem_singleton] at hp
        exact List.mem_cons.mpr hp.symm
    · cases h
      exact hs
  | finish index status serverEntityId now =>
    rw [step] at h
    split at h
    · rename_i f hf
      cases h
      refine recordConsumption_invariant hs f.covering f.item ?_ ?_ status serverEntityId now
      · intro k n hk hn
        refine List.mem_filterMap.mpr ⟨f, List.mem_of_getElem? hf, ?_⟩
        simp [hk, hn]
      · intro p hp
        obtain ⟨g, hg, hgp⟩ := List.mem_filterMap.mp hp
        exact List.mem_filterMap.mpr ⟨g, List.mem_of_mem_eraseIdx hg, hgp⟩
    · cases h

/-- While cancellations return no number of an item in flight, each number of a range is applied
under at most one reservation. -/
theorem applied_once_of_sparesFlights (host : Host) (labels : List Label) (s : SyncState)
    (hok : RunMeets (step host) SparesFlights SyncState.initial labels)
    (hrun : run (step host) SyncState.initial labels = some s) : AppliedOnce s.store := by
  have hs : SyncInvariant s :=
    run_invariant_of_meets (step_invariant host) syncInvariant_initial hok hrun
  intro k v k' v' n hv hv' hid happ happ'
  exact hs.heldUnique k v k' v' n hv hv' hid (.inr (.inl happ)) (.inr (.inl happ'))

/-- A reservation is cancelled while an item is in flight whose number a reconciliation has claimed.
-/
def sparedRun : List Label :=
  [.command sampleRange, .command (sampleReserve "d1" firstUuid), .cover (sampleItem "d1"),
    .command (.reconcileNumberingReservation sampleScope firstUuid ⟨none, some [1], none⟩
      "2026-01-01T00:00:00.000Z" "00000000-0000-4000-8000-000000000004"),
    .command (.cancelDurableNumberingReservation sampleScope firstUuid),
    .command (sampleReserve "d2" secondUuid),
    .finish 0 .applied (some "entity") "2026-01-01T00:00:00.000Z"]

theorem applied_once_sparedRun :
    ∃ s, run (step sampleHost) SyncState.initial sparedRun = some s ∧
      entryStatus s.store (key "acme" firstUuid) 1 = some .applied ∧ AppliedOnce s.store := by
  have hok : RunMeets (step sampleHost) SparesFlights SyncState.initial sparedRun := by
    decide
  have hlast : (run (step sampleHost) SyncState.initial sparedRun).bind
      (fun s => entryStatus s.store (key "acme" firstUuid) 1) = some .applied := by
    decide
  obtain ⟨s, hrun, hs⟩ := Option.bind_eq_some_iff.mp hlast
  exact ⟨s, hrun, hs, applied_once_of_sparesFlights sampleHost sparedRun s hok hrun⟩

/-- The reservation is cancelled while the applier is suspended, and the number is granted again. -/
def reissuedRun : List Label :=
  [.command sampleRange, .command (sampleReserve "d1" firstUuid), .cover (sampleItem "d1"),
    .command (.cancelDurableNumberingReservation sampleScope firstUuid),
    .command (sampleReserve "d2" secondUuid),
    .finish 0 .applied (some "first entity") "2026-01-01T00:00:00.000Z",
    .cover (sampleItem "d2"),
    .finish 0 .applied (some "second entity") "2026-01-01T00:00:00.000Z"]

theorem applied_twice_reissuedRun :
    ¬ ∀ host labels s, run (step host) SyncState.initial labels = some s → AppliedOnce s.store := by
  intro h
  have hlast : (run (step sampleHost) SyncState.initial reissuedRun).map (fun s =>
      (entryStatus s.store (key "acme" firstUuid) 1, entryStatus s.store (key "acme" secondUuid) 1,
        (s.store.reservations.get? (key "acme" firstUuid)).map (·.rangeId),
        (s.store.reservations.get? (key "acme" secondUuid)).map (·.rangeId))) =
      some (some .applied, some .applied, some "00000000-0000-4000-8000-000000000001",
        some "00000000-0000-4000-8000-000000000001") := by
    decide
  obtain ⟨s, hrun, hs⟩ := Option.map_eq_some_iff.mp hlast
  simp only [Prod.mk.injEq, Option.map_eq_some_iff] at hs
  obtain ⟨happ, happ', ⟨v, hv, hid⟩, ⟨v', hv', hid'⟩⟩ := hs
  have hkey := h sampleHost reissuedRun s hrun _ v _ v' 1 hv hv' (hid.trans hid'.symm) happ happ'
  exact absurd hkey (by decide)

end Stynx.OfflineSyncNumberingRuns
