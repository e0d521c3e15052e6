import Stynx.OfflineSyncReservationScopes

/-!
# Replayed reservation requests

A reservation request with a key that an earlier request of the tenant used finds
the reservation that was granted then, whatever happened since: no operation
removes a reservation, changes anything but its status, or writes over a key.

Keys of maps join a tenant and an identifier with a colon, so tenants are told
apart when their identifiers have no colon in them, as UUIDs do.
-/

namespace Stynx.OfflineSyncReservationReplays

open OfflineSyncNumbering OfflineSyncReservationInvariant OrderedMap
open OfflineSyncNumberingRuns OfflineSyncReservationScopes TransitionRuns

/-- A tenant identifier without the separator of `key`. -/
def Plain (tenantId : String) : Prop := ':' ∉ tenantId.toList

instance (tenantId : String) : Decidable (Plain tenantId) :=
  inferInstanceAs (Decidable (':' ∉ tenantId.toList))

theorem key_plain_injective {t t' i i' : String} (ht : Plain t) (ht' : Plain t')
    (h : key t i = key t' i') : t = t' ∧ i = i' := by
  have hlists : t.toList ++ ':' :: i.toList = t'.toList ++ ':' :: i'.toList := by
    rw [← toList_key, ← toList_key, h]
  obtain ⟨htenants, hids⟩ := SeparatedLists.eq_of_notMem_left ht ht' hlists
  exact ⟨String.toList_injective htenants, String.toList_injective hids⟩

/-- What holds of the keys of reservations between any two steps. -/
structure Keyed (s : Store) : Prop where
  /-- Reservations are stored under tenant and id. -/
  reservations : ∀ k v, s.reservations.get? k = some v →
    k = key v.tenantId v.reservationId ∧ isUuid v.reservationId = true
  /-- A request key of a tenant leads to a reservation of the tenant. -/
  requests : ∀ tenantId idempotencyKey prior, Plain tenantId →
    s.reservationKeys.get? (key tenantId idempotencyKey) = some prior →
    ∃ v, s.reservations.get? (key tenantId prior.reservationId) = some v ∧
      v.reservationId = prior.reservationId

/-- What a step leaves of reservations and request keys. -/
structure Keeps (s t : Store) : Prop where
  /-- Every reservation is there, up to its status. -/
  reservations : ∀ k v, s.reservations.get? k = some v →
    ∃ status, t.reservations.get? k = some { v with status := status }
  /-- Every request key leads where it led. -/
  requests : ∀ tenantId idempotencyKey prior, Plain tenantId →
    s.reservationKeys.get? (key tenantId idempotencyKey) = some prior →
    t.reservationKeys.get? (key tenantId idempotencyKey) = some prior

theorem Keeps.refl (s : Store) : Keeps s s :=
  ⟨fun _ v h => ⟨v.status, h⟩, fun _ _ _ _ h => h⟩

variable {s t : Store} {v : NumberingReservation} {uuid : String} {scope : Scope}
  {input : ReserveNumberingInput} {origin : Origin}

theorem Keeps.trans {u : Store} (h : Keeps s t) (h' : Keeps t u) : Keeps s u where
  reservations k v hv := by
    obtain ⟨status, hstatus⟩ := h.reservations k v hv
    obtain ⟨status', hstatus'⟩ := h'.reservations k _ hstatus
    exact ⟨status', hstatus'⟩
  requests tenantId idempotencyKey prior hplain hprior :=
    h'.requests tenantId idempotencyKey prior hplain
      (h.requests tenantId idempotencyKey prior hplain hprior)

/-- What a step does for keys. -/
structure Advances (s t : Store) : Prop where
  keyed : Keyed t
  keeps : Keeps s t

theorem keyed_empty : Keyed Store.empty where
  reservations := by simp [Store.empty]
  requests := by simp [Store.empty]

theorem Keyed.congr (hs : Keyed s) (hreservations : t.reservations = s.reservations)
    (hkeys : t.reservationKeys = s.reservationKeys) : Advances s t where
  keyed := by
    constructor
    · rw [hreservations]
      exact hs.reservations
    · rw [hreservations, hkeys]
      exact hs.requests
  keeps := by
    constructor
    · intro k v hv
      rw [hreservations]
      exact ⟨v.status, hv⟩
    · intro tenantId idempotencyKey prior _ hprior
      rw [hkeys]
      exact hprior

theorem Keyed.restate (hs : Keyed s) {k : String} (hv : s.reservations.get? k = some v)
    {status : ReservationStatus}
    (hreservations : t.reservations = s.reservations.set k { v with status := status })
    (hkeys : t.reservationKeys = s.reservationKeys) : Advances s t := by
  have hkept : ∀ j w, s.reservations.get? j = some w →
      ∃ status, t.reservations.get? j = some { w with status := status } := by
    intro j w hw
    rw [hreservations, get?_set]
    split_ifs with hj
    · rw [← hj] at hw
      cases hv.symm.trans hw
      exact ⟨status, rfl⟩
    · exact ⟨w.status, hw⟩
  refine ⟨⟨?_, ?_⟩, ⟨hkept, ?_⟩⟩
  · intro j w hw
    rw [hreservations] at hw
    rcases get?_set_eq_some.mp hw with ⟨rfl, rfl⟩ | ⟨-, hw⟩
    · exact hs.reservations k v hv
    · exact hs.reservations j w hw
  · intro tenantId idempotencyKey prior hplain hprior
    rw [hkeys] at hprior
    obtain ⟨w, hw, hid⟩ := hs.requests tenantId idempotencyKey prior hplain hprior
    obtain ⟨status', hstatus'⟩ := hkept _ w hw
    exact ⟨_, hstatus', hid⟩
  · intro tenantId idempotencyKey prior _ hprior
    rw [hkeys]
    exact hprior

theorem Keyed.fresh (hs : Keyed s) (h : freshUuid s uuid = true) (tenantId : String) :
    s.reservations.get? (key tenantId uuid) = none := by
  obtain ⟨huuid, -, hreservations⟩ := freshUuid_spec h
  cases hv : s.reservations.get? (key tenantId uuid) with
  | none => rfl
  | some v =>
    obtain ⟨hkey, hid⟩ := hs.reservations _ v hv
    exact absurd (key_injective huuid hid hkey).2.symm (hreservations _ v hv)

theorem allocateReservation_new (host : Host)
    (hreplay : replayReservation host s scope input = .ok none) (now defaultValidUntil : String)
    (origin : Origin) (uuid : String) :
    (∃ e, allocateReservation host s scope input now defaultValidUntil origin uuid =
        (s, .error e)) ∨
      ∃ range, allocateReservation host s scope input now defaultValidUntil origin uuid =
        (recordGrant s scope range (grantedReservation scope input range defaultValidUntil uuid)
            origin (input.idempotencyKey.map fun k =>
              (key scope.tenantId k, reservationFingerprint host scope input)),
          .ok (grantedReservation scope input range defaultValidUntil uuid)) := by
  rw [allocateReservation, hreplay]
  dsimp only
  split
  · exact .inl ⟨_, rfl⟩
  · split
    · exact .inl ⟨_, rfl⟩
    · split
      · exact .inl ⟨_, rfl⟩
      · next range hfind =>
        split
        · exact .inl ⟨_, rfl⟩
        · split
          · exact .inl ⟨_, rfl⟩
          · exact .inr ⟨range, rfl⟩

theorem Keyed.replayReservation_eq (hs : Keyed s) (host : Host) (hplain : Plain scope.tenantId)
    {idempotencyKey : String} (hkey : input.idempotencyKey = some idempotencyKey) :
    (s.reservationKeys.get? (key scope.tenantId idempotencyKey) = none ∧
        replayReservation host s scope input = .ok none) ∨
      ∃ prior v, s.reservationKeys.get? (key scope.tenantId idempotencyKey) = some prior ∧
        s.reservations.get? (key scope.tenantId prior.reservationId) = some v ∧
        v.reservationId = prior.reservationId ∧
        replayReservation host s scope input =
          if prior.fingerprint ≠ reservationFingerprint host scope input then
            .error .reservationReplay
          else .ok (some v) := by
  rw [replayReservation, hkey, Option.bind_some]
  cases hprior : s.reservationKeys.get? (key scope.tenantId idempotencyKey) with
  | none => exact .inl ⟨rfl, rfl⟩
  | some prior =>
    obtain ⟨v, hv, hid⟩ := hs.requests scope.tenantId idempotencyKey prior hplain hprior
    refine .inr ⟨prior, v, rfl, hv, hid, ?_⟩
    dsimp only
    rw [hv]

theorem Keyed.grant (hs : Keyed s) (hplain : Plain scope.tenantId) {range : NumberingRange}
    {keyed : Option (String × String)} (hfresh : freshUuid s v.reservationId = true)
    (htenant : v.tenantId = scope.tenantId)
    (hnew : ∀ replayKey fingerprint, keyed = some (replayKey, fingerprint) →
      s.reservationKeys.get? replayKey = none ∧ ∃ k, replayKey = key scope.tenantId k) :
    Advances s (recordGrant s scope range v origin keyed) := by
  obtain ⟨huuid, -, -⟩ := freshUuid_spec hfresh
  have hkept : ∀ k w, s.reservations.get? k = some w →
      (recordGrant s scope range v origin keyed).reservations.get? k = some w := by
    intro k w hw
    refine (get?_set_of_ne _ _ ?_).trans hw
    rintro rfl
    rw [hs.fresh hfresh] at hw
    cases hw
  have hgranted : (recordGrant s scope range v origin keyed).reservations.get?
      (key scope.tenantId v.reservationId) = some v := get?_set_self _ _ _
  refine ⟨⟨?_, ?_⟩, ⟨fun k w hw => ⟨w.status, hkept k w hw⟩, ?_⟩⟩
  · intro k w hw
    rcases get?_set_eq_some.mp hw with ⟨rfl, rfl⟩ | ⟨-, hw⟩
    · exact ⟨by rw [htenant], huuid⟩
    · exact hs.reservations k w hw
  · intro tenantId idempotencyKey prior hplain' hprior
    have hold : s.reservationKeys.get? (key tenantId idempotencyKey) = some prior →
        ∃ w, (recordGrant s scope range v origin keyed).reservations.get?
          (key tenantId prior.reservationId) = some w ∧ w.reservationId = prior.reservationId := by
      intro h
      obtain ⟨w, hw, hid⟩ := hs.requests tenantId idempotencyKey prior hplain' h
      exact ⟨w, hkept _ w hw, hid⟩
    cases hkeyed : keyed with
    | none =>
      rw [hkeyed] at hprior
      rw [← hkeyed]
      exact hold hprior
    | some entry =>
      obtain ⟨replayKey, fingerprint⟩ := entry
      obtain ⟨-, k, rfl⟩ := hnew replayKey fingerprint hkeyed
      rw [hkeyed] at hprior
      rw [← hkeyed]
      rcases get?_set_eq_some.mp hprior with ⟨hsame, rfl⟩ | ⟨-, hprior⟩
      · obtain ⟨rfl, -⟩ := key_plain_injective hplain hplain' hsame
        exact ⟨v, hgranted, rfl⟩
      · exact hold hprior
  · intro tenantId idempotencyKey prior hplain' hprior
    cases hkeyed : keyed with
    | none => exact hprior
    | some entry =>
      obtain ⟨replayKey, fingerprint⟩ := entry
      obtain ⟨habsent, -⟩ := hnew replayKey fingerprint hkeyed
      refine (get?_set_of_ne _ _ ?_).trans hprior
      rintro rfl
      rw [habsent] at hprior
      cases hprior

theorem Keyed.allocate (hs : Keyed s) (host : Host) (hplain : Plain scope.tenantId)
    (input : ReserveNumberingInput) (now defaultValidUntil : String) (origin : Origin)
    (hfresh : freshUuid s uuid = true) :
    Advances s (allocateReservation host s scope input now defaultValidUntil origin uuid).1 := by
  cases hreplay : replayReservation host s scope input with
  | error e =>
    rw [allocateReservation, hreplay]
    exact ⟨hs, .refl s⟩
  | ok found =>
    cases found with
    | some v =>
      rw [allocateReservation, hreplay]
      exact ⟨hs, .refl s⟩
    | none =>
      rcases allocateReservation_new host hreplay now defaultValidUntil origin uuid with
        ⟨e, heq⟩ | ⟨range, heq⟩
      · rw [heq]
        exact ⟨hs, .refl s⟩
      · rw [heq]
        refine hs.grant hplain hfresh rfl ?_
        intro replayKey fingerprint hkeyed
        obtain ⟨k, hk, hpair⟩ := Option.map_eq_some_iff.mp hkeyed
        obtain ⟨rfl, -⟩ := Prod.mk.inj hpair
        refine ⟨?_, k, rfl⟩
        rcases hs.replayReservation_eq host hplain hk with
          ⟨habsent, -⟩ | ⟨prior, v, -, -, -, hfound⟩
        · exact habsent
        · rw [hreplay] at hfound
          split_ifs at hfound
          cases Except.ok.inj hfound

theorem createNumberingRange_keys (host : Host) (s : Store) (scope : Scope)
    (input : CreateNumberingRangeInput) (now uuid : String) :
    (createNumberingRange host s scope input now uuid).1.reservationKeys = s.reservationKeys := by
  unfold createNumberingRange
  split
  · rfl
  · dsimp only
    split
    · split <;> rfl
    · split
      · rfl
      · split <;> rfl

theorem cancelNumberingRange_keys (host : Host) (s : Store) (scope : Scope) (id : String)
    (reason : Option String) (now : String) :
    (cancelNumberingRange host s scope id reason now).1.reservationKeys = s.reservationKeys := by
  rw [cancelNumberingRange]
  split
  · rfl
  · split
    · rfl
    · split
      · rfl
      · split
        · rfl
        · rfl
        · split <;> rfl

theorem reconcile_keys (host : Host) (s : Store) (scope : Scope) (id : String)
    (input : ReconcileNumberingInput) (now uuid : String) :
    (reconcileNumberingReservation host s scope id input now uuid).1.reservationKeys =
      s.reservationKeys := by
  rw [reconcileNumberingReservation]
  split
  · rfl
  · split
    · rfl
    · dsimp only
      split
      · split
        · split <;> rfl
        · split
          · rfl
          · split <;> rfl
      · rfl

theorem recordConsumption_keys (s : Store) (covering : Option String) (item : NumberedItem)
    (status : ItemStatus) (serverEntityId : Option String) (now : String) :
    (recordConsumption s covering item status serverEntityId now).1.reservations = s.reservations ∧
      (recordConsumption s covering item status serverEntityId now).1.reservationKeys =
        s.reservationKeys := by
  unfold recordConsumption
  split
  · split
    · split <;> exact ⟨rfl, rfl⟩
    · exact ⟨rfl, rfl⟩
  · exact ⟨rfl, rfl⟩

theorem Keyed.cancel (hs : Keyed s) (scope : Scope) (id : String) (durable : Bool) :
    Advances s (cancelReservation s scope id durable).1 := by
  rcases cancelReservation_cases id durable with heq | ⟨v, hv, -, heq | ⟨entries, -, heq⟩⟩
  · rw [heq]
    exact ⟨hs, .refl s⟩
  · rw [heq]
    exact hs.restate hv rfl rfl
  · rw [heq]
    exact hs.restate hv rfl rfl

theorem Keyed.transition (hs : Keyed s) (host : Host) (scope : Scope) (id : String)
    (target : Transition) (now : String) :
    Advances s (transitionReservation host s scope id target now).1 := by
  rcases transitionReservation_cases host id target with heq | ⟨v, hv, -, heq | ⟨entries, -, heq⟩⟩
  · rw [heq]
    exact ⟨hs, .refl s⟩
  · rw [heq]
    exact hs.restate hv rfl rfl
  · rw [heq]
    exact hs.restate hv rfl rfl

/-- A request names a tenant whose identifier has no colon. -/
def Command.Plain : Command → Prop
  | .reserveNumbering scope _ _ _ _ => OfflineSyncReservationReplays.Plain scope.tenantId
  | .reserveDurableNumbering scope _ _ _ _ => OfflineSyncReservationReplays.Plain scope.tenantId
  | _ => True

/-- The tenants of a label have identifiers without colons. -/
def PlainLabel : Label → Prop
  | .command c => Command.Plain c
  | _ => True

instance : (c : Command) → Decidable (Command.Plain c)
  | .reserveNumbering .. | .reserveDurableNumbering .. =>
    inferInstanceAs (Decidable (OfflineSyncReservationReplays.Plain _))
  | .createNumberingRange .. | .cancelNumberingRange .. | .cancelNumberingReservation .. => isTrue trivial
  | .cancelDurableNumberingReservation .. | .blockNumberingReservation .. => isTrue trivial
  | .closeNumberingReservation .. | .settleNumberingReservation .. => isTrue trivial
  | .reconcileNumberingReservation .. => isTrue trivial

instance : (a : Label) → Decidable (PlainLabel a)
  | .command c => inferInstanceAs (Decidable (Command.Plain c))
  | .cover _ | .finish .. => isTrue trivial

theorem Keyed.exec (hs : Keyed s) (host : Host) (c : Command) (henabled : c.enabled s = true)
    (hplain : Command.Plain c) : Advances s (c.exec host s) := by
  cases c with
  | createNumberingRange scope input now uuid =>
    exact hs.congr (createNumberingRange_reservations host s scope input now uuid).1
      (createNumberingRange_keys host s scope input now uuid)
  | cancelNumberingRange scope id reason now =>
    exact hs.congr (cancelNumberingRange_reservations host s scope id reason now).1
      (cancelNumberingRange_keys host s scope id reason now)
  | reserveNumbering scope input now defaultValidUntil uuid =>
    simp only [Command.enabled, Bool.and_eq_true] at henabled
    exact hs.allocate host hplain input now defaultValidUntil .e6 henabled.1
  | reserveDurableNumbering scope input now defaultValidUntil uuid =>
    simp only [Command.enabled, Bool.and_eq_true] at henabled
    exact hs.allocate host hplain input now defaultValidUntil .ctg9 henabled.1
  | cancelNumberingReservation scope id => exact hs.cancel scope id false
  | cancelDurableNumberingReservation scope id => exact hs.cancel scope id true
  | blockNumberingReservation scope id now => exact hs.transition host scope id .blocked now
  | closeNumberingReservation scope id now => exact hs.transition host scope id .consumed now
  | settleNumberingReservation scope id now => exact hs.transition host scope id .consumed now
  | reconcileNumberingReservation scope id input now uuid =>
    exact hs.congr (reconcile_reservations host s scope id input now uuid).1
      (reconcile_keys host s scope id input now uuid)

theorem advances_step {host : Host} {s t : SyncState} {a : Label} (hs : Keyed s.store)
    (hplain : PlainLabel a) (h : step host s a = some t) : Advances s.store t.store := by
  cases a with
  | command c =>
    rw [step] at h
    split_ifs at h with henabled
    rw [← Option.some.inj h]
    exact hs.exec host c henabled hplain
  | cover item =>
    rw [step] at h
    split at h
    · rw [← Option.some.inj h]
      exact ⟨hs, .refl s.store⟩
    · rw [← Option.some.inj h]
      exact ⟨hs, .refl s.store⟩
  | finish index status serverEntityId now =>
    rw [step] at h
    split at h
    · next f hf =>
      rw [← Option.some.inj h]
      obtain ⟨hreservations, hkeys⟩ :=
        recordConsumption_keys s.store f.covering f.item status serverEntityId now
      exact hs.congr hreservations hkeys
    · cases h

theorem advances_run {host : Host} {labels : List Label} {s t : SyncState} (hs : Keyed s.store)
    (hplain : ∀ a ∈ labels, PlainLabel a) (h : run (step host) s labels = some t) :
    Advances s.store t.store := by
  induction labels generalizing s with
  | nil =>
    cases h
    exact ⟨hs, .refl _⟩
  | cons a rest ih =>
    obtain ⟨m, hm, hrest⟩ := run_cons_eq_some.mp h
    have hfirst := advances_step hs (hplain a (.head _)) hm
    have hlater := ih hfirst.keyed (fun b hb => hplain b (.tail a hb)) hrest
    exact ⟨hlater.keyed, hfirst.keeps.trans hlater.keeps⟩

/-- A reservation request through one of the two interfaces. -/
def reserve (host : Host) (origin : Origin) (s : Store) (scope : Scope)
    (input : ReserveNumberingInput) (now defaultValidUntil uuid : String) :
    Outcome NumberingReservation :=
  match origin with
  | .e6 => reserveNumbering host s scope input now defaultValidUntil uuid
  | .ctg9 => reserveDurableNumbering host s scope input now defaultValidUntil uuid

/-- The request as a step. -/
def reserveCommand (origin : Origin) (scope : Scope) (input : ReserveNumberingInput)
    (now defaultValidUntil uuid : String) : Command :=
  match origin with
  | .e6 => .reserveNumbering scope input now defaultValidUntil uuid
  | .ctg9 => .reserveDurableNumbering scope input now defaultValidUntil uuid

/-- The legacy interface refuses to show a reservation that is blocked or without a shift. -/
def shown (origin : Origin) (v : NumberingReservation) : Except Failure NumberingReservation :=
  match origin with
  | .e6 => legacyReservation v
  | .ctg9 => .ok v

section

variable (host : Host) (origin : Origin) (s : Store) (scope : Scope) (input : ReserveNumberingInput)
  (now defaultValidUntil uuid : String)
include host

theorem reserve_eq :
    reserve host origin s scope input now defaultValidUntil uuid =
      ((allocateReservation host s scope input now defaultValidUntil origin uuid).1,
        (allocateReservation host s scope input now defaultValidUntil origin uuid).2.bind
          (shown origin)) := by
  cases origin with
  | e6 => rfl
  | ctg9 =>
    have hbind : ∀ x : Except Failure NumberingReservation, x.bind (shown .ctg9) = x := by
      intro x
      cases x <;> rfl
    rw [hbind]
    rfl

theorem exec_reserveCommand :
    (reserveCommand origin scope input now defaultValidUntil uuid).exec host s =
      (allocateReservation host s scope input now defaultValidUntil origin uuid).1 := by
  cases origin <;> rfl

end

theorem plain_reserveCommand (h : Plain scope.tenantId) (input : ReserveNumberingInput)
    (now defaultValidUntil uuid : String) :
    PlainLabel (.command (reserveCommand origin scope input now defaultValidUntil uuid)) := by
  cases origin <;> exact h

theorem eq_of_shown {w : NumberingReservation} (h : shown origin v = .ok w) : v = w := by
  cases origin with
  | e6 =>
    rw [shown, legacyReservation] at h
    split_ifs at h
    exact Except.ok.inj h
  | ctg9 => exact Except.ok.inj h

theorem Keyed.recorded (hs : Keyed s) (host : Host) (hplain : Plain scope.tenantId)
    {idempotencyKey : String} (hkey : input.idempotencyKey = some idempotencyKey)
    {now defaultValidUntil : String}
    (h : (allocateReservation host s scope input now defaultValidUntil origin uuid).2 = .ok v) :
    (allocateReservation host s scope input now defaultValidUntil origin uuid).1.reservationKeys.get?
        (key scope.tenantId idempotencyKey) =
      some ⟨reservationFingerprint host scope input, v.reservationId⟩ ∧
    (allocateReservation host s scope input now defaultValidUntil origin uuid).1.reservations.get?
        (key scope.tenantId v.reservationId) = some v := by
  rcases hs.replayReservation_eq host hplain hkey with
    ⟨-, hreplay⟩ | ⟨prior, w, hprior, hw, hid, hreplay⟩
  · rcases allocateReservation_new host hreplay now defaultValidUntil origin uuid with
      ⟨e, heq⟩ | ⟨range, heq⟩
    · rw [heq] at h
      cases h
    · rw [heq] at h ⊢
      rw [← Except.ok.inj h, hkey]
      exact ⟨get?_set_self _ _ _, get?_set_self _ _ _⟩
  · by_cases hfingerprint : prior.fingerprint = reservationFingerprint host scope input
    · rw [if_neg (not_not_intro hfingerprint)] at hreplay
      have heq : allocateReservation host s scope input now defaultValidUntil origin uuid =
          (s, .ok w) := by rw [allocateReservation, hreplay]
      rw [heq] at h ⊢
      rw [← Except.ok.inj h, hid, ← hfingerprint]
      exact ⟨hprior, hw⟩
    · rw [if_pos hfingerprint] at hreplay
      have heq : allocateReservation host s scope input now defaultValidUntil origin uuid =
          (s, .error .reservationReplay) := by rw [allocateReservation, hreplay]
      rw [heq] at h
      cases h

/-- A request with a key that an earlier one of the tenant used with success changes nothing; it is
answered with the reservation as it stands now when the fingerprints agree, unless the legacy
interface refuses to show it, and fails otherwise. -/
theorem replay_of_earlier_request (host : Host) {labels later : List Label} {s t : SyncState}
    (hplain : ∀ a ∈ labels, PlainLabel a) (hplainLater : ∀ a ∈ later, PlainLabel a)
    (hrun : run (step host) SyncState.initial labels = some s)
    {scope : Scope} (htenant : Plain scope.tenantId) {input : ReserveNumberingInput}
    {idempotencyKey now defaultValidUntil uuid : String}
    (hkey : input.idempotencyKey = some idempotencyKey) {origin : Origin}
    {granted : NumberingReservation}
    (hgranted : (reserve host origin s.store scope input now defaultValidUntil uuid).2 = .ok granted)
    (hlater : run (step host) s
      (.command (reserveCommand origin scope input now defaultValidUntil uuid) :: later) = some t)
    {scope' : Scope} (htenant' : scope'.tenantId = scope.tenantId) {input' : ReserveNumberingInput}
    (hkey' : input'.idempotencyKey = some idempotencyKey) (now' defaultValidUntil' uuid' : String)
    (origin' : Origin) :
    ∃ status, t.store.reservations.get? (key scope.tenantId granted.reservationId) =
        some { granted with status := status } ∧
      reserve host origin' t.store scope' input' now' defaultValidUntil' uuid' =
        (t.store,
          if reservationFingerprint host scope' input' = reservationFingerprint host scope input then
            shown origin' { granted with status := status }
          else .error .reservationReplay) := by
  have hs : Keyed s.store := (advances_run keyed_empty hplain hrun).keyed
  obtain ⟨m, hm, hrest⟩ := run_cons_eq_some.mp hlater
  have hfirst : Advances s.store m.store :=
    advances_step hs (plain_reserveCommand htenant input now defaultValidUntil uuid) hm
  have hstore : m.store =
      (allocateReservation host s.store scope input now defaultValidUntil origin uuid).1 := by
    rw [step] at hm
    split_ifs at hm
    rw [← Option.some.inj hm, ← exec_reserveCommand]
  have hallocated :
      (allocateReservation host s.store scope input now defaultValidUntil origin uuid).2 =
        .ok granted := by
    rw [reserve_eq] at hgranted
    dsimp only at hgranted
    cases hcase :
        (allocateReservation host s.store scope input now defaultValidUntil origin uuid).2 with
    | error e =>
      rw [hcase] at hgranted
      cases hgranted
    | ok v =>
      rw [hcase] at hgranted
      rw [eq_of_shown hgranted]
  obtain ⟨hrequest, hreservation⟩ := hs.recorded host htenant hkey hallocated
  rw [← hstore] at hrequest hreservation
  have hafter : Advances m.store t.store := advances_run hfirst.keyed hplainLater hrest
  obtain ⟨status, hstatus⟩ := hafter.keeps.reservations _ granted hreservation
  have hprior := hafter.keeps.requests scope.tenantId idempotencyKey _ htenant hrequest
  refine ⟨status, hstatus, ?_⟩
  have hplain' : Plain scope'.tenantId := by
    rw [htenant']
    exact htenant
  rcases hafter.keyed.replayReservation_eq host hplain' hkey' with
    ⟨habsent, -⟩ | ⟨prior, w, hprior', hw, -, hreplay⟩
  · rw [htenant', hprior] at habsent
    cases habsent
  · rw [htenant', hprior] at hprior'
    rw [← Option.some.inj hprior'] at hw hreplay
    rw [htenant', hstatus] at hw
    rw [← Option.some.inj hw] at hreplay
    rw [reserve_eq, allocateReservation, hreplay]
    by_cases hfingerprint :
        reservationFingerprint host scope' input' = reservationFingerprint host scope input
    · rw [if_neg (not_not_intro hfingerprint.symm), if_pos hfingerprint]
      rfl
    · rw [if_pos (fun h => hfingerprint h.symm), if_neg hfingerprint]
      rfl

def keyedInput (idempotencyKey : String) : ReserveNumberingInput :=
  ⟨"unit", "d1", some "shift", "order", 2, none, none, none, some idempotencyKey, none⟩

/-- A keyed request through an interface, in the sample runs. -/
def keyedReserve (origin : Origin) (tenantId idempotencyKey uuid : String) : Command :=
  reserveCommand origin { sampleScope with tenantId := tenantId } (keyedInput idempotencyKey)
    "2026-01-01T00:00:00.000Z" "2026-01-02T00:00:00.000Z" uuid

/-- A reservation is blocked after it was granted under a key. -/
def blockedLater : List Label :=
  [.command (.blockNumberingReservation sampleScope firstUuid "2026-01-01T00:00:00.000Z")]

/-- The durable interface shows the blocked reservation again. -/
theorem replay_of_blocked :
    ∃ (s t : SyncState) (granted : NumberingReservation) (status : ReservationStatus),
      run (step sampleHost) SyncState.initial [.command sampleRange] = some s ∧
      run (step sampleHost) s (.command (keyedReserve .e6 "acme" "k" firstUuid) :: blockedLater) =
        some t ∧
      reserve sampleHost .ctg9 t.store sampleScope (keyedInput "k") "2026-01-01T00:00:00.000Z"
          "2026-01-02T00:00:00.000Z" secondUuid =
        (t.store, .ok { granted with status := status }) := by
  have hall : (run (step sampleHost) SyncState.initial [.command sampleRange]).bind (fun s =>
      (run (step sampleHost) s
        (.command (keyedReserve .e6 "acme" "k" firstUuid) :: blockedLater)).map fun _ =>
          (reserve sampleHost .e6 s.store sampleScope (keyedInput "k") "2026-01-01T00:00:00.000Z"
            "2026-01-02T00:00:00.000Z" firstUuid).2.toOption.isSome) = some true := by
    decide
  obtain ⟨s, hs, hrest⟩ := Option.bind_eq_some_iff.mp hall
  obtain ⟨t, ht, hok⟩ := Option.map_eq_some_iff.mp hrest
  cases hgranted : (reserve sampleHost .e6 s.store sampleScope (keyedInput "k")
      "2026-01-01T00:00:00.000Z" "2026-01-02T00:00:00.000Z" firstUuid).2 with
  | error e =>
    rw [hgranted] at hok
    cases hok
  | ok granted =>
    obtain ⟨status, -, hreplay⟩ := replay_of_earlier_request sampleHost
      (show ∀ a ∈ [Label.command sampleRange], PlainLabel a by decide)
      (show ∀ a ∈ blockedLater, PlainLabel a by decide) hs
      (show Plain sampleScope.tenantId by decide)
      (show (keyedInput "k").idempotencyKey = some "k" from rfl) hgranted ht rfl
      (show (keyedInput "k").idempotencyKey = some "k" from rfl)
      "2026-01-01T00:00:00.000Z" "2026-01-02T00:00:00.000Z" secondUuid .ctg9
    rw [if_pos rfl] at hreplay
    exact ⟨s, t, granted, status, hs, ht, hreplay⟩

/-- A run in which a key of tenant `a` is written over by a request of tenant `a:b`. -/
def collidingRun : List Label :=
  [.command (.createNumberingRange { sampleScope with tenantId := "a" }
      ⟨"unit", "order", "A", 1, 10, none, none⟩ "2026-01-01T00:00:00.000Z"
      "00000000-0000-4000-8000-000000000001"),
    .command (.createNumberingRange { sampleScope with tenantId := "a:b" }
      ⟨"unit", "order", "A", 1, 10, none, none⟩ "2026-01-01T00:00:00.000Z"
      "00000000-0000-4000-8000-000000000005"),
    .command (keyedReserve .ctg9 "a" "b:c" firstUuid),
    .command (keyedReserve .ctg9 "a:b" "c" secondUuid)]

/-- The legacy interface refuses a blocked reservation, and a tenant with a colon takes over a key.
-/
theorem replay_refused :
    ((run (step sampleHost) SyncState.initial
        (.command sampleRange :: .command (keyedReserve .e6 "acme" "k" firstUuid) ::
          blockedLater)).map fun t =>
      (reserve sampleHost .e6 t.store sampleScope (keyedInput "k") "2026-01-01T00:00:00.000Z"
        "2026-01-02T00:00:00.000Z" secondUuid).2.toOption.isSome) = some false ∧
    ((run (step sampleHost) SyncState.initial (collidingRun.take 3)).map fun t =>
      (reserve sampleHost .ctg9 t.store { sampleScope with tenantId := "a" } (keyedInput "b:c")
        "2026-01-01T00:00:00.000Z" "2026-01-02T00:00:00.000Z" secondUuid).2.toOption.isSome) =
      some true ∧
    ((run (step sampleHost) SyncState.initial collidingRun).map fun t =>
      (reserve sampleHost .ctg9 t.store { sampleScope with tenantId := "a" } (keyedInput "b:c")
        "2026-01-01T00:00:00.000Z" "2026-01-02T00:00:00.000Z"
        "00000000-0000-4000-8000-000000000006").2.toOption.isSome) = some false := by
  refine ⟨by decide, by decide, by decide⟩

end Stynx.OfflineSyncReservationReplays
