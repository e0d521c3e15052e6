import Stynx.OfflineSyncNumberingRuns

/-!
# Live reservations of a device and shift

Then the admission rule under a clock that never goes back. A reservation is live while it is
reserved or blocked and its end of validity lies ahead. Nothing brings one back to life, so two
that are live together were so when the later one was granted, and admission has looked at the
earlier one.
-/

namespace Stynx.OfflineSyncReservationScopes

open OfflineSyncNumbering OfflineSyncNumberingRuns TransitionRuns OrderedMap

section

variable {s : Store} {scope : Scope} {now uuid : String}

theorem allocateReservation_cases (host : Host) (input : ReserveNumberingInput)
    (defaultValidUntil : String) (origin : Origin) :
    (allocateReservation host s scope input now defaultValidUntil origin uuid).1 = s ∨
      ∃ range keyed, range ∈ s.ranges.values ∧
        assertReservationAdmission host s scope.tenantId input.deviceId input.shiftId now
          (some origin) none = .ok () ∧
        range.nextNumber + input.requestedSize - 1 ≤ range.endNumber ∧
        (allocateReservation host s scope input now defaultValidUntil origin uuid).1 =
          recordGrant s scope range (grantedReservation scope input range defaultValidUntil uuid)
            origin keyed := by
  rw [allocateReservation]
  split
  · exact .inl rfl
  · exact .inl rfl
  · split
    · exact .inl rfl
    · split
      · exact .inl rfl
      · rename_i hadmitted
        split
        · exact .inl rfl
        · rename_i range hfind
          split
          · exact .inl rfl
          · split
            · exact .inl rfl
            · rename_i hcapacity
              exact .inr ⟨range, _, List.mem_of_find?_eq_some hfind, hadmitted,
                not_lt.mp hcapacity, rfl⟩

theorem cancelReservation_cases (id : String) (durable : Bool) :
    (cancelReservation s scope id durable).1 = s ∨
      ∃ v, s.reservations.get? (key scope.tenantId id) = some v ∧ v.status = .reserved ∧
        ((cancelReservation s scope id durable).1 =
            { s with
              reservations := s.reservations.set (key scope.tenantId id)
                { v with status := .cancelled } } ∨
          ∃ entries, s.consumption.get? (key scope.tenantId id) = some entries ∧
            (cancelReservation s scope id durable).1 =
              { s with
                reservations := s.reservations.set (key scope.tenantId id)
                  { v with status := .cancelled }
                ranges := returnTail s scope v entries
                consumption := s.consumption.set (key scope.tenantId id)
                  (retireAvailable .expired entries) }) := by
  unfold cancelReservation
  dsimp only
  split
  · exact .inl rfl
  · rename_i v hv
    split
    · exact .inl rfl
    · split
      · exact .inl rfl
      · split
        · exact .inl rfl
        · rename_i hreserved
          refine .inr ⟨v, hv, not_not.mp hreserved, ?_⟩
          split
          · split
            · exact .inl rfl
            · rename_i entries hentries
              exact .inr ⟨entries, hentries, rfl⟩
          · exact .inl rfl

theorem transitionReservation_cases (host : Host) (id : String) (target : Transition) :
    (transitionReservation host s scope id target now).1 = s ∨
      ∃ v, s.reservations.get? (key scope.tenantId id) = some v ∧
        (v.status = .reserved ∨ v.status = .expired) ∧
        ((transitionReservation host s scope id target now).1 =
            { s with
              reservations := s.reservations.set (key scope.tenantId id)
                { v with status := target.status } } ∨
          ∃ entries, s.consumption.get? (key scope.tenantId id) = some entries ∧
            (transitionReservation host s scope id target now).1 =
              { s with
                reservations := s.reservations.set (key scope.tenantId id)
                  { v with status := target.status }
                consumption := s.consumption.set (key scope.tenantId id)
                  (retireAvailable target.unused entries) }) := by
  unfold transitionReservation
  dsimp only
  split
  · exact .inl rfl
  · rename_i v hv
    split
    · exact .inl rfl
    · split
      · exact .inl rfl
      · rename_i hopen
        have hstatus : v.status = .reserved ∨ v.status = .expired := by
          by_contra hneither
          rw [not_or] at hneither
          exact hopen hneither
        split
        · exact .inl rfl
        · refine .inr ⟨v, hv, hstatus, ?_⟩
          split
          · exact .inl rfl
          · rename_i entries hentries
            exact .inr ⟨entries, hentries, rfl⟩

end

theorem reconcile_reservations (host : Host) (s : Store) (scope : Scope) (id : String)
    (input : ReconcileNumberingInput) (now uuid : String) :
    (reconcileNumberingReservation host s scope id input now uuid).1.reservations = s.reservations ∧
      (reconcileNumberingReservation host s scope id input now uuid).1.reservationOrigins =
        s.reservationOrigins := by
  rw [reconcileNumberingReservation]
  split
  · exact ⟨rfl, rfl⟩
  · split
    · exact ⟨rfl, rfl⟩
    · dsimp only
      split
      · split
        · split <;> exact ⟨rfl, rfl⟩
        · split
          · exact ⟨rfl, rfl⟩
          · split <;> exact ⟨rfl, rfl⟩
      · exact ⟨rfl, rfl⟩

theorem createNumberingRange_reservations (host : Host) (s : Store) (scope : Scope)
    (input : CreateNumberingRangeInput) (now uuid : String) :
    (createNumberingRange host s scope input now uuid).1.reservations = s.reservations ∧
      (createNumberingRange host s scope input now uuid).1.reservationOrigins =
        s.reservationOrigins := by
  unfold createNumberingRange
  split
  · exact ⟨rfl, rfl⟩
  · dsimp only
    split
    · split <;> exact ⟨rfl, rfl⟩
    · split
      · exact ⟨rfl, rfl⟩
      · split <;> exact ⟨rfl, rfl⟩

theorem cancelNumberingRange_reservations (host : Host) (s : Store) (scope : Scope) (id : String)
    (reason : Option String) (now : String) :
    (cancelNumberingRange host s scope id reason now).1.reservations = s.reservations ∧
      (cancelNumberingRange host s scope id reason now).1.reservationOrigins =
        s.reservationOrigins := by
  rw [cancelNumberingRange]
  split
  · exact ⟨rfl, rfl⟩
  · split
    · exact ⟨rfl, rfl⟩
    · split
      · exact ⟨rfl, rfl⟩
      · split
        · exact ⟨rfl, rfl⟩
        · exact ⟨rfl, rfl⟩
        · split <;> exact ⟨rfl, rfl⟩

theorem applySyncItem_reservations (host : Host) (s : Store) (item : NumberedItem)
    (status : ItemStatus) (serverEntityId : Option String) (now : String) :
    (applySyncItem host s item status serverEntityId now).1.reservations = s.reservations ∧
      (applySyncItem host s item status serverEntityId now).1.reservationOrigins =
        s.reservationOrigins := by
  rw [applySyncItem]
  split
  · exact ⟨rfl, rfl⟩
  · unfold recordConsumption
    split
    · split
      · split <;> exact ⟨rfl, rfl⟩
      · exact ⟨rfl, rfl⟩
    · exact ⟨rfl, rfl⟩

/-- The instant that a call is given, where it reads one. -/
def Command.now : Command → Option String
  | .createNumberingRange _ _ now _ => some now
  | .cancelNumberingRange _ _ _ now => some now
  | .reserveNumbering _ _ now _ _ => some now
  | .reserveDurableNumbering _ _ now _ _ => some now
  | .cancelNumberingReservation _ _ => none
  | .cancelDurableNumberingReservation _ _ => none
  | .blockNumberingReservation _ _ now => some now
  | .closeNumberingReservation _ _ now => some now
  | .settleNumberingReservation _ _ now => some now
  | .reconcileNumberingReservation _ _ _ now _ => some now

/-- The instant of a step. -/
def labelNow : AtomicLabel → Option String
  | .command c => Command.now c
  | .syncItem _ _ _ now => some now

/-- The store and the last reading of the clock. -/
structure ClockedState where
  store : Store
  clock : Int

/-- A step at a reading of the clock. -/
structure ClockedLabel where
  instant : Int
  label : AtomicLabel

/-- A step happens at a reading that is not before the last one, and is given that instant. -/
def clockedStep (host : Host) (s : ClockedState) (l : ClockedLabel) : Option ClockedState :=
  if s.clock ≤ l.instant ∧ (labelNow l.label).all fun now => host.dateParse now = some l.instant then
    (atomicStep host s.store l.label).map fun t => ⟨t, l.instant⟩
  else none

/-- Reserved or blocked, with the end of validity ahead. -/
def Live (host : Host) (instant : Int) (v : NumberingReservation) : Prop :=
  (v.status = .reserved ∨ v.status = .blocked) ∧
    ∃ limit, host.dateParse v.validUntil = some limit ∧ instant < limit

def SameScope (v w : NumberingReservation) : Prop :=
  v.tenantId = w.tenantId ∧ v.deviceId = w.deviceId ∧
    reservationShiftScope v.shiftId = reservationShiftScope w.shiftId

variable {v : NumberingReservation} {host : Host} {s : Store} {instant : Int} {now : String}

variable {w : NumberingReservation} {earlier later : Int} {t : Store} {k : String} {origin : Origin}

theorem SameScope.symm (h : SameScope v w) : SameScope w v :=
  ⟨h.1.symm, h.2.1.symm, h.2.2.symm⟩

theorem Live.mono (hle : earlier ≤ later) (h : Live host later v) : Live host earlier v := by
  obtain ⟨hstatus, limit, hlimit, hlt⟩ := h
  exact ⟨hstatus, limit, hlimit, lt_of_le_of_lt hle hlt⟩

/-- No live durable reservation shares its scope with another live one, and none is `expired`. -/
structure Exclusive (host : Host) (s : Store) (instant : Int) : Prop where
  /-- Whoever is live beside another live reservation of the scope is not durable. -/
  alone : ∀ k v k' v', s.reservations.get? k = some v → s.reservations.get? k' = some v' →
    k ≠ k' → SameScope v v' → Live host instant v → Live host instant v' →
    s.reservationOrigins.get? k ≠ some .ctg9
  /-- No operation sets this status. -/
  notExpired : ∀ k v, s.reservations.get? k = some v → v.status ≠ .expired

theorem Exclusive.mono (h : Exclusive host s earlier) (hle : earlier ≤ later) :
    Exclusive host s later :=
  ⟨fun k v k' v' hv hv' hne hscope hlive hlive' =>
    h.alone k v k' v' hv hv' hne hscope (hlive.mono hle) (hlive'.mono hle), h.notExpired⟩

theorem Exclusive.congr (h : Exclusive host s instant)
    (hsame : t.reservations = s.reservations ∧ t.reservationOrigins = s.reservationOrigins) :
    Exclusive host t instant := by
  obtain ⟨hreservations, horigins⟩ := hsame
  constructor
  · rw [hreservations, horigins]
    exact h.alone
  · rw [hreservations]
    exact h.notExpired

theorem Exclusive.restate (h : Exclusive host s instant) (hv : s.reservations.get? k = some v)
    (hreservations : t.reservations = s.reservations.set k w)
    (horigins : t.reservationOrigins = s.reservationOrigins) (hscope : SameScope v w)
    (hlive : Live host instant w → Live host instant v) (hstatus : w.status ≠ .expired) :
    Exclusive host t instant := by
  have hold : ∀ j q, t.reservations.get? j = some q → ∃ q', s.reservations.get? j = some q' ∧
      SameScope q' q ∧ (Live host instant q → Live host instant q') ∧
        (q'.status ≠ .expired → q.status ≠ .expired) := by
    intro j q hq
    rw [hreservations] at hq
    rcases get?_set_eq_some.mp hq with ⟨rfl, rfl⟩ | ⟨-, hq⟩
    · exact ⟨v, hv, hscope, hlive, fun _ => hstatus⟩
    · exact ⟨q, hq, ⟨rfl, rfl, rfl⟩, id, id⟩
  constructor
  · intro j q j' q' hq hq' hne hsame hq_live hq_live'
    obtain ⟨p, hp, hpq, hlive₁, -⟩ := hold j q hq
    obtain ⟨p', hp', hpq', hlive₂, -⟩ := hold j' q' hq'
    have hscopes : SameScope p p' :=
      ⟨hpq.1.trans (hsame.1.trans hpq'.1.symm), hpq.2.1.trans (hsame.2.1.trans hpq'.2.1.symm),
        hpq.2.2.trans (hsame.2.2.trans hpq'.2.2.symm)⟩
    rw [horigins]
    exact h.alone j p j' p' hp hp' hne hscopes (hlive₁ hq_live) (hlive₂ hq_live')
  · intro j q hq
    obtain ⟨p, hp, -, -, hexpired⟩ := hold j q hq
    exact hexpired (h.notExpired j p hp)

theorem not_live_of_admission {tenantId deviceId : String} {shiftId : Option String}
    (h : assertReservationAdmission host s tenantId deviceId shiftId now (some origin) none =
      .ok ())
    (hnow : host.dateParse now = some instant) (hv : s.reservations.get? k = some v)
    (htenant : v.tenantId = tenantId) (hdevice : v.deviceId = deviceId)
    (hshift : reservationShiftScope v.shiftId = reservationShiftScope shiftId)
    (hlive : Live host instant v) :
    origin ≠ .ctg9 ∧ s.reservationOrigins.get? k ≠ some .ctg9 := by
  obtain ⟨hstatus, limit, hlimit, hlt⟩ := hlive
  have hlater : isLater host v.validUntil now = true := by
    rw [isLater, hlimit, hnow]
    exact decide_eq_true hlt
  rw [assertReservationAdmission] at h
  split_ifs at h with hany
  rw [Bool.not_eq_true, List.any_eq_false] at hany
  have hthis := hany (k, v) (mem_entries_iff.mpr hv)
  simp only [Bool.and_eq_true, Bool.or_eq_true, decide_eq_true_eq, hlater, htenant, hdevice,
    hshift, hstatus, ne_eq, reduceCtorEq, not_false_eq_true, and_true, true_and, not_or,
    Option.some.injEq] at hthis
  exact hthis

section

variable (h : Exclusive host s instant)
include h

theorem Exclusive.grant {scope : Scope} {input : ReserveNumberingInput}
    {defaultValidUntil uuid : String} {range : NumberingRange} {keyed : Option (String × String)}
    (hnow : host.dateParse now = some instant)
    (hadmitted : assertReservationAdmission host s scope.tenantId input.deviceId input.shiftId now (some origin) none = .ok ()) :
    Exclusive host (recordGrant s scope range
      (grantedReservation scope input range defaultValidUntil uuid) origin keyed) instant := by
  let granted := grantedReservation scope input range defaultValidUntil uuid
  have hnew : ∀ k v, s.reservations.get? k = some v → SameScope v granted → Live host instant v →
      origin ≠ .ctg9 ∧ s.reservationOrigins.get? k ≠ some .ctg9 := by
    intro k v hv hscope hlive
    exact not_live_of_admission hadmitted hnow hv hscope.1 hscope.2.1 hscope.2.2 hlive
  constructor
  · intro k v k' v' hv hv' hne hscope hlive hlive'
    dsimp only [recordGrant] at hv hv' ⊢
    rw [get?_set]
    rcases get?_set_eq_some.mp hv with ⟨rfl, rfl⟩ | ⟨hk, hv⟩
    · rw [if_pos rfl]
      rcases get?_set_eq_some.mp hv' with ⟨rfl, -⟩ | ⟨-, hv'⟩
      · exact absurd rfl hne
      · intro horigin
        exact (hnew k' v' hv' hscope.symm hlive').1 (Option.some.inj horigin)
    · rw [if_neg hk]
      rcases get?_set_eq_some.mp hv' with ⟨rfl, rfl⟩ | ⟨-, hv'⟩
      · exact (hnew k v hv hscope hlive).2
      · exact h.alone k v k' v' hv hv' hne hscope hlive hlive'
  · intro k v hv
    rcases get?_set_eq_some.mp hv with ⟨rfl, rfl⟩ | ⟨-, hv⟩
    · intro hstatus
      cases hstatus
    · exact h.notExpired k v hv

theorem exclusive_allocate (scope : Scope) (input : ReserveNumberingInput)
    (defaultValidUntil uuid : String) (origin : Origin) (hnow : host.dateParse now = some instant) :
    Exclusive host
      (allocateReservation host s scope input now defaultValidUntil origin uuid).1 instant := by
  rcases allocateReservation_cases host input defaultValidUntil origin with
    heq | ⟨range, keyed, -, hadmitted, -, heq⟩
  · rw [heq]
    exact h
  · rw [heq]
    exact h.grant hnow hadmitted

theorem exclusive_cancel (scope : Scope) (id : String) (durable : Bool) :
    Exclusive host (cancelReservation s scope id durable).1 instant := by
  have hdead : ∀ v : NumberingReservation, Live host instant { v with status := .cancelled } →
      Live host instant v := by
    rintro v ⟨hstatus | hstatus, -⟩ <;> cases hstatus
  have hstatus : ReservationStatus.cancelled ≠ .expired := by decide
  rcases cancelReservation_cases id durable with heq | ⟨v, hv, -, heq | ⟨entries, -, heq⟩⟩
  · rw [heq]
    exact h
  · rw [heq]
    exact h.restate hv rfl rfl ⟨rfl, rfl, rfl⟩ (hdead v) hstatus
  · rw [heq]
    exact h.restate hv rfl rfl ⟨rfl, rfl, rfl⟩ (hdead v) hstatus

theorem exclusive_transition (scope : Scope) (id : String) (target : Transition) (now : String) :
    Exclusive host (transitionReservation host s scope id target now).1 instant := by
  have hlive : ∀ v : NumberingReservation, v.status = .reserved →
      Live host instant { v with status := target.status } → Live host instant v := by
    rintro v hreserved ⟨-, hlimit⟩
    exact ⟨.inl hreserved, hlimit⟩
  have hstatus : target.status ≠ .expired := by
    cases target <;> decide
  rcases transitionReservation_cases host id target with
    heq | ⟨v, hv, hopen, heq⟩
  · rw [heq]
    exact h
  · have hreserved : v.status = .reserved := hopen.resolve_right (h.notExpired _ v hv)
    rcases heq with heq | ⟨entries, -, heq⟩
    · rw [heq]
      exact h.restate hv rfl rfl ⟨rfl, rfl, rfl⟩ (hlive v hreserved) hstatus
    · rw [heq]
      exact h.restate hv rfl rfl ⟨rfl, rfl, rfl⟩ (hlive v hreserved) hstatus

theorem exclusive_exec (c : Command)
    (hnow : ∀ now, Command.now c = some now → host.dateParse now = some instant) :
    Exclusive host (c.exec host s) instant := by
  cases c with
  | createNumberingRange scope input now uuid =>
    exact h.congr (createNumberingRange_reservations host s scope input now uuid)
  | cancelNumberingRange scope id reason now =>
    exact h.congr (cancelNumberingRange_reservations host s scope id reason now)
  | reserveNumbering scope input now defaultValidUntil uuid =>
    exact exclusive_allocate h scope input defaultValidUntil uuid .e6 (hnow now rfl)
  | reserveDurableNumbering scope input now defaultValidUntil uuid =>
    exact exclusive_allocate h scope input defaultValidUntil uuid .ctg9 (hnow now rfl)
  | cancelNumberingReservation scope id => exact exclusive_cancel h scope id false
  | cancelDurableNumberingReservation scope id => exact exclusive_cancel h scope id true
  | blockNumberingReservation scope id now => exact exclusive_transition h scope id .blocked now
  | closeNumberingReservation scope id now => exact exclusive_transition h scope id .consumed now
  | settleNumberingReservation scope id now => exact exclusive_transition h scope id .consumed now
  | reconcileNumberingReservation scope id input now uuid =>
    exact h.congr (reconcile_reservations host s scope id input now uuid)

end

theorem clockedStep_exclusive (host : Host) (s : ClockedState) (l : ClockedLabel)
    (t : ClockedState) (hs : Exclusive host s.store s.clock)
    (h : clockedStep host s l = some t) : Exclusive host t.store t.clock := by
  rw [clockedStep] at h
  split_ifs at h with hclock
  obtain ⟨next, hnext, rfl⟩ := Option.map_eq_some_iff.mp h
  have hlater : Exclusive host s.store l.instant := hs.mono hclock.1
  have hnow : ∀ now, labelNow l.label = some now → host.dateParse now = some l.instant := by
    intro now hnow
    have hall := hclock.2
    rw [hnow] at hall
    exact of_decide_eq_true hall
  cases hlabel : l.label with
  | command c =>
    rw [hlabel] at hnext hnow
    rw [atomicStep] at hnext
    split_ifs at hnext
    cases hnext
    exact exclusive_exec hlater c hnow
  | syncItem item status serverEntityId now =>
    rw [hlabel] at hnext
    cases hnext
    exact hlater.congr (applySyncItem_reservations host s.store item status serverEntityId now)

/-- Under a clock that never goes back, a live reservation of the durable interface is always the
only live one of its tenant, device and shift scope. -/
theorem durable_reservation_alone (host : Host) (start : Int) (labels : List ClockedLabel)
    (s : ClockedState) (hrun : run (clockedStep host) ⟨Store.empty, start⟩ labels = some s)
    (instant : Int) (hinstant : s.clock ≤ instant) (k k' : String) (v v' : NumberingReservation)
    (hv : s.store.reservations.get? k = some v) (hv' : s.store.reservations.get? k' = some v')
    (hscope : SameScope v v') (hlive : Live host instant v) (hlive' : Live host instant v')
    (hdurable : s.store.reservationOrigins.get? k = some .ctg9) : k = k' := by
  have hempty : Exclusive host Store.empty start :=
    ⟨(fun _ _ _ _ h => by cases h), (fun _ _ h => by cases h)⟩
  have hs : Exclusive host s.store s.clock :=
    run_invariant (clockedStep_exclusive host) hempty hrun
  by_contra hne
  exact (hs.mono hinstant).alone k v k' v' hv hv' hne hscope hlive hlive' hdurable

/-- A durable reservation of a device, blocked while it is live. -/
def blockedRun : List ClockedLabel :=
  [⟨1767225600000, .command sampleRange⟩,
    ⟨1767225600000, .command (sampleReserve "d1" firstUuid)⟩,
    ⟨1767225600000, .command (.reserveNumbering sampleScope
      ⟨"unit", "d1", some "stynx:no-shift", "order", 2, none, none, none, none, none⟩
      "2026-01-01T00:00:00.000Z" "2026-01-02T00:00:00.000Z" secondUuid)⟩,
    ⟨1767225600000, .command (.blockNumberingReservation sampleScope firstUuid
      "2026-01-01T00:00:00.000Z")⟩]

theorem durable_reservation_alone_blockedRun :
    ∃ s v, run (clockedStep sampleHost) ⟨Store.empty, 0⟩ blockedRun = some s ∧
      s.store.reservations.get? (key "acme" firstUuid) = some v ∧ v.status = .blocked ∧
      ∀ k' v', s.store.reservations.get? k' = some v' → SameScope v v' →
        Live sampleHost 1767225600001 v' → key "acme" firstUuid = k' := by
  have hlast : (run (clockedStep sampleHost) ⟨Store.empty, 0⟩ blockedRun).bind (fun s =>
      (s.store.reservations.get? (key "acme" firstUuid)).map fun v =>
        (s.clock, s.store.reservationOrigins.get? (key "acme" firstUuid), v.status,
          sampleHost.dateParse v.validUntil)) =
      some (1767225600000, some .ctg9, .blocked, some 1767312000000) := by
    decide
  obtain ⟨s, hrun, hs⟩ := Option.bind_eq_some_iff.mp hlast
  obtain ⟨v, hv, hfacts⟩ := Option.map_eq_some_iff.mp hs
  simp only [Prod.mk.injEq] at hfacts
  obtain ⟨hclock, horigin, hstatus, hlimit⟩ := hfacts
  refine ⟨s, v, hrun, hv, hstatus, ?_⟩
  intro k' v' hv' hscope hlive'
  exact durable_reservation_alone sampleHost 0 blockedRun s hrun 1767225600001
    (by rw [hclock]; decide) _ k' v v' hv hv' hscope ⟨.inr hstatus, _, hlimit, by decide⟩ hlive'
    horigin

end Stynx.OfflineSyncReservationScopes
