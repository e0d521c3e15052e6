import Mathlib.Data.String.Basic
import Stynx.SeparatedLists
import Stynx.OfflineSyncNumbering

/-!
# The reservation invariant of the numbering store

A number of a range is held by a reservation while the reservation is not cancelled, for ever
once it was applied under it, and while an item that passed the covering check for it has not
finished. No number of a range is held twice, and every held number is below the range's next
number. So the tail that a cancellation returns is exactly the part that nobody holds.
-/

namespace Stynx.OfflineSyncReservationInvariant

open OfflineSyncNumbering SeparatedLists OrderedMap

theorem isHexDigit_colon : isHexDigit ':' = false := by decide

theorem colon_notMem_of_isUuid {value : String} (h : isUuid value = true) : ':' ∉ value.toList := by
  intro hmem
  rw [isUuid, Bool.and_eq_true, List.all_eq_true] at h
  obtain ⟨i, hi, hget⟩ := List.getElem_of_mem hmem
  have hz : (':', i) ∈ value.toList.zipIdx := by
    rw [List.mk_mem_zipIdx_iff_getElem?, List.getElem?_eq_getElem hi, hget]
  have hc := h.2 _ hz
  split_ifs at hc
  · exact absurd (beq_iff_eq.mp hc) (show ':' ≠ '-' by decide)
  · rw [isHexDigit_colon] at hc
    exact absurd hc (by decide)

theorem toList_key (t i : String) : (key t i).toList = t.toList ++ ':' :: i.toList := by
  rw [key, String.toList_append, String.toList_append, List.append_assoc]
  rfl

theorem key_injective {t t' i i' : String} (hi : isUuid i = true) (hi' : isUuid i' = true)
    (h : key t i = key t' i') : t = t' ∧ i = i' := by
  have hlists : t.toList ++ ':' :: i.toList = t'.toList ++ ':' :: i'.toList := by
    rw [← toList_key, ← toList_key, h]
  obtain ⟨ht, hi⟩ := eq_of_notMem_right (colon_notMem_of_isUuid hi) (colon_notMem_of_isUuid hi')
    hlists
  exact ⟨String.toList_inj.mp ht, String.toList_inj.mp hi⟩

/-- Covering decisions of items that have not finished: reservation key and number. -/
abbrev Pending := List (String × Int)

def InInterval (v : NumberingReservation) (n : Int) : Prop := v.startNumber ≤ n ∧ n ≤ v.endNumber

/-- The reservation stored under `k` keeps others away from `n`. -/
def Held (pending : Pending) (s : Store) (k : String) (v : NumberingReservation) (n : Int) : Prop :=
  (v.status ≠ .cancelled ∧ InInterval v n) ∨ entryStatus s k n = some .applied ∨ (k, n) ∈ pending

/-- The entries are those of the interval of a reservation, each under its own number. -/
structure ExactEntries (v : NumberingReservation) (entries : Entries) : Prop where
  /-- A number has an entry exactly when it was granted. -/
  domain : ∀ n, (∃ e, entries.get? n = some e) ↔ InInterval v n
  number : ∀ n e, entries.get? n = some e → e.number = n

/-- What holds of the numbering maps between any two steps. -/
structure Invariant (pending : Pending) (s : Store) : Prop where
  rangeKeyed : ∀ k r, s.ranges.get? k = some r → k = key r.tenantId r.id ∧ isUuid r.id = true
  /-- Range ids do not repeat. -/
  rangeIds : ∀ k r k' r', s.ranges.get? k = some r → s.ranges.get? k' = some r' →
    r.id = r'.id → k = k'
  /-- The next number stays in the range or just behind it. -/
  rangeBounds : ∀ k r, s.ranges.get? k = some r →
    r.startNumber ≤ r.nextNumber ∧ r.nextNumber ≤ r.endNumber + 1
  /-- Reservations are stored under tenant and id. -/
  reservationKeyed : ∀ k v, s.reservations.get? k = some v →
    k = key v.tenantId v.reservationId ∧ isUuid v.reservationId = true
  /-- A reservation is a nonempty interval of a stored range. -/
  reservationRange : ∀ k v, s.reservations.get? k = some v →
    v.startNumber ≤ v.endNumber ∧
      ∃ kr r, s.ranges.get? kr = some r ∧ r.id = v.rangeId ∧ r.startNumber ≤ v.startNumber
  consumption : ∀ k v, s.reservations.get? k = some v →
    ∃ entries, s.consumption.get? k = some entries ∧ ExactEntries v entries
  /-- A number of a range is held once. -/
  heldUnique : ∀ k v k' v' n, s.reservations.get? k = some v → s.reservations.get? k' = some v' →
    v.rangeId = v'.rangeId → Held pending s k v n → Held pending s k' v' n → k = k'
  /-- A held number was granted. -/
  heldBelow : ∀ k v kr r n, s.reservations.get? k = some v → s.ranges.get? kr = some r →
    r.id = v.rangeId → Held pending s k v n → n < r.nextNumber
  /-- An item in flight was covered by a stored reservation. -/
  pendingCovered : ∀ k n, (k, n) ∈ pending → ∃ v, s.reservations.get? k = some v ∧ InInterval v n

theorem invariant_empty : Invariant [] Store.empty where
  rangeKeyed := by simp [Store.empty]
  rangeIds := by simp [Store.empty]
  rangeBounds := by simp [Store.empty]
  reservationKeyed := by simp [Store.empty]
  reservationRange := by simp [Store.empty]
  consumption := by simp [Store.empty]
  heldUnique := by simp [Store.empty]
  heldBelow := by simp [Store.empty]
  pendingCovered := by simp

/-- The two versions of a range agree on everything but progress and status. -/
def SameRange (r r' : NumberingRange) : Prop :=
  r'.id = r.id ∧ r'.tenantId = r.tenantId ∧ r'.startNumber = r.startNumber ∧
    r'.endNumber = r.endNumber

/-- A step that adds no range and no reservation and holds nothing new. -/
structure Narrows (before after : Pending) (s t : Store) : Prop where
  /-- Ranges are those of the earlier store. -/
  ranges : ∀ k r', t.ranges.get? k = some r' → ∃ r, s.ranges.get? k = some r ∧ SameRange r r'
  rangesKept : ∀ k r, s.ranges.get? k = some r → ∃ r', t.ranges.get? k = some r'
  /-- Next numbers stay in their ranges. -/
  bounds : ∀ k r', t.ranges.get? k = some r' →
    r'.startNumber ≤ r'.nextNumber ∧ r'.nextNumber ≤ r'.endNumber + 1
  /-- Reservations are those of the earlier store, up to their status. -/
  reservations : ∀ k v', t.reservations.get? k = some v' →
    ∃ v, s.reservations.get? k = some v ∧ v' = { v with status := v'.status }
  /-- Every reservation keeps exact entries. -/
  entries : ∀ k v', t.reservations.get? k = some v' →
    ∃ entries, t.consumption.get? k = some entries ∧ ExactEntries v' entries
  held : ∀ k v v' n, s.reservations.get? k = some v → t.reservations.get? k = some v' →
    Held after t k v' n → Held before s k v n
  /-- What is held stays below the next number. -/
  below : ∀ k v' kr r' n, t.reservations.get? k = some v' → t.ranges.get? kr = some r' →
    r'.id = v'.rangeId → Held after t k v' n → n < r'.nextNumber
  /-- Items in flight stay covered. -/
  covered : ∀ k n, (k, n) ∈ after → ∃ v', t.reservations.get? k = some v' ∧ InInterval v' n

variable {before after pending : Pending} {s t : Store} {k uuid : String}
  {v v' : NumberingReservation} {entries : Entries} {n : Int} {e : ConsumptionEntry}

theorem Invariant.narrow (hs : Invariant before s) (h : Narrows before after s t) :
    Invariant after t where
  rangeKeyed k r' hr' := by
    obtain ⟨r, hr, hid, htenant, -, -⟩ := h.ranges k r' hr'
    rw [hid, htenant]
    exact hs.rangeKeyed k r hr
  rangeIds k₁ r₁' k₂ r₂' h₁ h₂ hid := by
    obtain ⟨r₁, hr₁, hid₁, -⟩ := h.ranges k₁ r₁' h₁
    obtain ⟨r₂, hr₂, hid₂, -⟩ := h.ranges k₂ r₂' h₂
    exact hs.rangeIds k₁ r₁ k₂ r₂ hr₁ hr₂ (by rw [← hid₁, ← hid₂, hid])
  rangeBounds := h.bounds
  reservationKeyed k v' hv' := by
    obtain ⟨v, hv, he⟩ := h.reservations k v' hv'
    rw [he]
    exact hs.reservationKeyed k v hv
  reservationRange k v' hv' := by
    obtain ⟨v, hv, he⟩ := h.reservations k v' hv'
    obtain ⟨hle, kr, r, hr, hid, hstart⟩ := hs.reservationRange k v hv
    obtain ⟨r', hr'⟩ := h.rangesKept kr r hr
    obtain ⟨r₀, hr₀, hid', -, hstart', -⟩ := h.ranges kr r' hr'
    cases hr₀.symm.trans hr
    rw [he]
    exact ⟨hle, kr, r', hr', hid'.trans hid, by rw [hstart']; exact hstart⟩
  consumption := h.entries
  heldUnique k₁ v₁' k₂ v₂' n h₁ h₂ hid hn₁ hn₂ := by
    obtain ⟨v₁, hv₁, he₁⟩ := h.reservations k₁ v₁' h₁
    obtain ⟨v₂, hv₂, he₂⟩ := h.reservations k₂ v₂' h₂
    have hrange : v₁.rangeId = v₂.rangeId := by
      rw [he₁, he₂] at hid
      exact hid
    exact hs.heldUnique k₁ v₁ k₂ v₂ n hv₁ hv₂ hrange (h.held k₁ v₁ v₁' n hv₁ h₁ hn₁)
      (h.held k₂ v₂ v₂' n hv₂ h₂ hn₂)
  heldBelow := h.below
  pendingCovered := h.covered

/-- A step that rewrites one stored reservation and its entries. -/
structure Rewrites (before after : Pending) (s t : Store) (k : String)
    (v v' : NumberingReservation) : Prop where
  stored : s.reservations.get? k = some v
  /-- Only this reservation is replaced. -/
  reservations : ∀ j, t.reservations.get? j = if k = j then some v' else s.reservations.get? j
  /-- Only the status may differ. -/
  same : v' = { v with status := v'.status }
  /-- A cancelled reservation stays cancelled. -/
  live : v'.status ≠ .cancelled → v.status ≠ .cancelled
  /-- Its entries stay exact and mark as applied only what was held. -/
  consumption : ∃ entries, ExactEntries v entries ∧
    (∀ j, t.consumption.get? j = if k = j then some entries else s.consumption.get? j) ∧
    ∀ n e, entries.get? n = some e → e.status = .applied → Held before s k v n
  /-- No item becomes pending. -/
  pending : ∀ p, p ∈ after → p ∈ before

theorem Rewrites.held (h : Rewrites before after s t k v v') (j : String)
    (w w' : NumberingReservation) (n : Int) (hw : s.reservations.get? j = some w)
    (hw' : t.reservations.get? j = some w') (hheld : Held after t j w' n) :
    Held before s j w n := by
  obtain ⟨entries, -, hc, happlied⟩ := h.consumption
  rw [h.reservations] at hw'
  by_cases hj : k = j
  · subst hj
    rw [if_pos rfl] at hw'
    cases hw'
    cases h.stored.symm.trans hw
    rcases hheld with ⟨hstatus, hin⟩ | happ | hpend
    · rw [h.same] at hin
      exact .inl ⟨h.live hstatus, hin⟩
    · simp only [entryStatus, hc, if_true, Option.bind_some, Option.map_eq_some_iff] at happ
      obtain ⟨e, he, hstatus⟩ := happ
      exact happlied n e he hstatus
    · exact .inr (.inr (h.pending _ hpend))
  · rw [if_neg hj] at hw'
    cases hw.symm.trans hw'
    rcases hheld with hlive | happ | hpend
    · exact .inl hlive
    · refine .inr (.inl ?_)
      simpa only [entryStatus, hc, if_neg hj] using happ
    · exact .inr (.inr (h.pending _ hpend))

theorem Rewrites.reservation (h : Rewrites before after s t k v v') (j : String)
    (w' : NumberingReservation) (hw' : t.reservations.get? j = some w') :
    ∃ w, s.reservations.get? j = some w ∧ w' = { w with status := w'.status } := by
  rw [h.reservations] at hw'
  by_cases hj : k = j
  · subst hj
    rw [if_pos rfl] at hw'
    cases hw'
    exact ⟨v, h.stored, h.same⟩
  · rw [if_neg hj] at hw'
    exact ⟨w', hw', rfl⟩

section

variable (hs : Invariant before s) (h : Rewrites before after s t k v v')
include hs h

theorem Rewrites.exactEntries (j : String) (w' : NumberingReservation)
    (hw' : t.reservations.get? j = some w') :
    ∃ entries, t.consumption.get? j = some entries ∧ ExactEntries w' entries := by
  obtain ⟨entries, hexact, hc, -⟩ := h.consumption
  rw [h.reservations] at hw'
  by_cases hj : k = j
  · subst hj
    rw [if_pos rfl] at hw'
    cases hw'
    refine ⟨entries, by rw [hc, if_pos rfl], ?_⟩
    rw [h.same]
    exact ⟨hexact.domain, hexact.number⟩
  · rw [if_neg hj] at hw'
    obtain ⟨old, hold, hexact'⟩ := hs.consumption j w' hw'
    exact ⟨old, by rw [hc, if_neg hj, hold], hexact'⟩

theorem Rewrites.covered (j : String) (n : Int) (hp : (j, n) ∈ after) :
    ∃ w', t.reservations.get? j = some w' ∧ InInterval w' n := by
  obtain ⟨w, hw, hin⟩ := hs.pendingCovered j n (h.pending _ hp)
  by_cases hj : k = j
  · subst hj
    cases h.stored.symm.trans hw
    refine ⟨v', by rw [h.reservations, if_pos rfl], ?_⟩
    rw [h.same]
    exact hin
  · exact ⟨w, by rw [h.reservations, if_neg hj, hw], hin⟩

theorem Invariant.rewrite (hranges : t.ranges = s.ranges) : Invariant after t := by
  refine hs.narrow ?_
  exact
    { ranges := by
        intro j r hr
        rw [hranges] at hr
        exact ⟨r, hr, rfl, rfl, rfl, rfl⟩
      rangesKept := by
        intro j r hr
        exact ⟨r, by rw [hranges, hr]⟩
      bounds := by
        intro j r hr
        rw [hranges] at hr
        exact hs.rangeBounds j r hr
      reservations := h.reservation
      entries := h.exactEntries hs
      held := h.held
      below := by
        intro j w' kr r n hw' hr hid hheld
        obtain ⟨w, hw, he⟩ := h.reservation j w' hw'
        rw [hranges] at hr
        rw [he] at hid
        exact hs.heldBelow j w kr r n hw hr hid (h.held j w w' n hw hw' hheld)
      covered := h.covered hs }

end

theorem exactEntries_retireAvailable (h : ExactEntries v entries) (status : ConsumptionStatus) :
    ExactEntries v (retireAvailable status entries) where
  domain n := by
    rw [← h.domain n, retireAvailable, get?_mapValues]
    cases entries.get? n <;> simp
  number n e he := by
    rw [retireAvailable, get?_mapValues, Option.map_eq_some_iff] at he
    obtain ⟨old, hold, rfl⟩ := he
    split_ifs
    · exact h.number n old hold
    · exact h.number n old hold

theorem applied_of_retireAvailable {status : ConsumptionStatus} (hstatus : status ≠ .applied)
    (he : (retireAvailable status entries).get? n = some e) (happ : e.status = .applied) :
    ∃ old, entries.get? n = some old ∧ old.status = .applied := by
  rw [retireAvailable, get?_mapValues, Option.map_eq_some_iff] at he
  obtain ⟨old, hold, rfl⟩ := he
  split_ifs at happ with h
  · exact absurd happ hstatus
  · exact ⟨old, hold, happ⟩

theorem entryStatus_eq_applied (hc : s.consumption.get? k = some entries)
    (he : entries.get? n = some e) (happ : e.status = .applied) :
    entryStatus s k n = some .applied := by
  simp [entryStatus, hc, he, happ]

theorem Invariant.retire (hs : Invariant pending s) (hv : s.reservations.get? k = some v)
    (hc : s.consumption.get? k = some entries) (status : ReservationStatus)
    (hlive : status ≠ .cancelled → v.status ≠ .cancelled) (unused : ConsumptionStatus)
    (hunused : unused ≠ .applied) :
    Rewrites pending pending s
      { s with
        reservations := s.reservations.set k { v with status := status }
        consumption := s.consumption.set k (retireAvailable unused entries) }
      k v { v with status := status } := by
  obtain ⟨stored, hstored, hexact⟩ := hs.consumption k v hv
  cases hc.symm.trans hstored
  exact
    { stored := hv
      reservations := fun j => get?_set _ _ _ _
      same := rfl
      live := hlive
      consumption := by
        refine ⟨retireAvailable unused entries, exactEntries_retireAvailable hexact unused,
          fun j => get?_set _ _ _ _, ?_⟩
        intro n e he happ
        obtain ⟨old, hold, hstatus⟩ := applied_of_retireAvailable hunused he happ
        exact .inr (.inl (entryStatus_eq_applied hc hold hstatus))
      pending := fun _ hp => hp }

theorem transitionReservation_invariant (host : Host) (hs : Invariant pending s) (scope : Scope)
    (id : String) (target : Transition) (now : String) :
    Invariant pending (transitionReservation host s scope id target now).1 := by
  rw [transitionReservation]
  dsimp only
  cases hv : s.reservations.get? (key scope.tenantId id) with
  | none => exact hs
  | some current =>
    dsimp only
    split
    · exact hs
    · split
      · exact hs
      · rename_i hstatus
        split
        · exact hs
        · obtain ⟨entries, hc, -⟩ := hs.consumption _ current hv
          simp only [hc]
          have hunused : target.unused ≠ .applied := by cases target <;> decide
          have hlive : target.status ≠ .cancelled → current.status ≠ .cancelled := by
            intro _ hcancelled
            rw [hcancelled] at hstatus
            exact hstatus ⟨by decide, by decide⟩
          exact hs.rewrite (hs.retire hv hc _ hlive _ hunused) rfl

theorem highestApplied_spec (v : NumberingReservation) (entries : Entries) :
    (highestApplied v entries = v.startNumber - 1 ∨
      ∃ e ∈ entries.values, e.number = highestApplied v entries) ∧
    v.startNumber - 1 ≤ highestApplied v entries ∧
    ∀ e ∈ entries.values, e.status.isUsed = true → e.number ≤ highestApplied v entries := by
  have hspec : ((v.startNumber - 1) ::
      (entries.values.filter (·.status.isUsed)).map ConsumptionEntry.number).max? =
      some (highestApplied v entries) := List.max?_cons'
  obtain ⟨hmem, hmax⟩ := List.max?_eq_some_iff.mp hspec
  refine ⟨?_, hmax _ (.head _), ?_⟩
  · rcases List.mem_cons.mp hmem with h | h
    · exact .inl h
    · obtain ⟨e, he, hnumber⟩ := List.mem_map.mp h
      exact .inr ⟨e, (List.mem_filter.mp he).1, hnumber⟩
  · intro e he hused
    exact hmax _ (.tail _ (List.mem_map.mpr ⟨e, List.mem_filter.mpr ⟨he, hused⟩, rfl⟩))

theorem highestApplied_bounds (h : ExactEntries v entries) (hle : v.startNumber ≤ v.endNumber) :
    v.startNumber - 1 ≤ highestApplied v entries ∧ highestApplied v entries ≤ v.endNumber := by
  obtain ⟨hcases, hstart, -⟩ := highestApplied_spec v entries
  refine ⟨hstart, ?_⟩
  rcases hcases with heq | ⟨e, he, hnumber⟩
  · omega
  · obtain ⟨n, hn⟩ := mem_values_iff.mp he
    have hin : InInterval v n := (h.domain n).mp ⟨e, hn⟩
    rw [← hnumber, h.number n e hn]
    exact hin.2

theorem le_highestApplied (h : ExactEntries v entries) (he : entries.get? n = some e)
    (happ : e.status = .applied) : n ≤ highestApplied v entries := by
  have hmem : e ∈ entries.values := mem_values_iff.mpr ⟨n, he⟩
  have hused : e.status.isUsed = true := by
    rw [happ]
    rfl
  rw [← h.number n e he]
  exact (highestApplied_spec v entries).2.2 e hmem hused

/-- A cancellation that returns a tail returns no number of an item in flight. -/
def rewindSpares (pending : Pending) (s : Store) (scope : Scope) (id : String) (durable : Bool) :
    Bool :=
  let k := key scope.tenantId id
  match s.reservations.get? k, s.consumption.get? k with
  | some v, some entries =>
    match s.ranges.get? (key scope.tenantId v.rangeId) with
    | some range =>
      if v.status = .reserved ∧ (durable ∨ v.shiftId ≠ none ∧ scope.ctg9) ∧
          returnsTail range v then
        pending.all fun p => p.1 ≠ k || p.2 ≤ highestApplied v entries
      else true
    | none => true
  | _, _ => true

/-- The store after a cancellation that returns the tail of `range`. -/
def rewound (s : Store) (scope : Scope) (k : String) (v : NumberingReservation)
    (entries : Entries) (range : NumberingRange) : Store :=
  { s with
    ranges := s.ranges.set (key scope.tenantId v.rangeId)
      { range with nextNumber := highestApplied v entries + 1, status := .active }
    reservations := s.reservations.set k { v with status := .cancelled }
    consumption := s.consumption.set k (retireAvailable .expired entries) }

/-- Returning a tail keeps the invariant when no number in flight is returned. -/
theorem rewound_invariant (hs : Invariant pending s) (scope : Scope) {range : NumberingRange}
    (hv : s.reservations.get? k = some v) (hc : s.consumption.get? k = some entries)
    (hlive : v.status ≠ .cancelled) (hr : s.ranges.get? (key scope.tenantId v.rangeId) = some range)
    (hid : range.id = v.rangeId) (htail : range.nextNumber = v.endNumber + 1)
    (hspare : ∀ n, (k, n) ∈ pending → n ≤ highestApplied v entries) :
    Invariant pending (rewound s scope k v entries range) := by
  obtain ⟨stored, hstored, hexact⟩ := hs.consumption k v hv
  cases hc.symm.trans hstored
  obtain ⟨hle, kr, r₀, hr₀, hid₀, hstart⟩ := hs.reservationRange k v hv
  have hkr : kr = key scope.tenantId v.rangeId :=
    hs.rangeIds kr r₀ _ range hr₀ hr (hid₀.trans hid.symm)
  subst hkr
  cases hr₀.symm.trans hr
  obtain ⟨hlow, hhigh⟩ := highestApplied_bounds hexact hle
  obtain ⟨-, hupper⟩ := hs.rangeBounds _ _ hr
  have hw : Rewrites pending pending s (rewound s scope k v entries range) k v
      { v with status := .cancelled } := by
    have h := hs.retire hv hc .cancelled (fun h => absurd rfl h) .expired (by decide)
    exact ⟨h.stored, h.reservations, h.same, h.live, h.consumption, h.pending⟩
  have hget : ∀ j r', (rewound s scope k v entries range).ranges.get? j = some r' →
      (j = key scope.tenantId v.rangeId ∧ r' = { range with
        nextNumber := highestApplied v entries + 1, status := .active }) ∨
      (key scope.tenantId v.rangeId ≠ j ∧ s.ranges.get? j = some r') := by
    intro j r' hr'
    rcases get?_set_eq_some.mp hr' with ⟨rfl, rfl⟩ | h
    · exact .inl ⟨rfl, rfl⟩
    · exact .inr h
  refine hs.narrow ?_
  exact
    { ranges := by
        intro j r' hr'
        rcases hget j r' hr' with ⟨rfl, rfl⟩ | ⟨-, h⟩
        · exact ⟨range, hr, rfl, rfl, rfl, rfl⟩
        · exact ⟨r', h, rfl, rfl, rfl, rfl⟩
      rangesKept := by
        intro j r h
        by_cases hj : key scope.tenantId v.rangeId = j
        · subst hj
          exact ⟨_, get?_set_self _ _ _⟩
        · exact ⟨r, by rw [rewound, get?_set_of_ne _ _ hj, h]⟩
      bounds := by
        intro j r' hr'
        rcases hget j r' hr' with ⟨rfl, rfl⟩ | ⟨-, h⟩
        · dsimp only
          omega
        · exact hs.rangeBounds j r' h
      reservations := hw.reservation
      entries := hw.exactEntries hs
      held := hw.held
      below := by
        intro j w' kr' r' n hw' hr' hid' hheld
        obtain ⟨w, hwj, he⟩ := hw.reservation j w' hw'
        have hold := hw.held j w w' n hwj hw' hheld
        have hrange : w'.rangeId = w.rangeId := by rw [he]
        rcases hget kr' r' hr' with ⟨rfl, rfl⟩ | ⟨hne, h⟩
        · dsimp only at hid' ⊢
          by_cases hj : k = j
          · subst hj
            cases hv.symm.trans hwj
            have hw'' : w' = { v with status := .cancelled } := by
              rw [hw.reservations, if_pos rfl] at hw'
              exact (Option.some.inj hw').symm
            rcases hheld with ⟨hstatus, -⟩ | happ | hpend
            · rw [hw''] at hstatus
              exact absurd rfl hstatus
            · simp only [entryStatus, rewound, get?_set_self, Option.bind_some,
                Option.map_eq_some_iff] at happ
              obtain ⟨e, hget', hstatus⟩ := happ
              obtain ⟨old, hold', hstatus'⟩ :=
                applied_of_retireAvailable (by decide) hget' hstatus
              have := le_highestApplied hexact hold' hstatus'
              omega
            · have := hspare n hpend
              omega
          · have hbelow := hs.heldBelow j w _ range n hwj hr (hid'.trans hrange) hold
            have hout : ¬ InInterval v n := by
              intro hin
              exact hj (hs.heldUnique k v j w n hv hwj (hid.symm.trans (hid'.trans hrange))
                (.inl ⟨hlive, hin⟩) hold)
            rw [InInterval] at hout
            omega
        · exact hs.heldBelow j w kr' r' n hwj h (hid'.trans hrange) hold
      covered := hw.covered hs }

theorem Invariant.cancelOnly (hs : Invariant pending s) (hv : s.reservations.get? k = some v) :
    Invariant pending
      { s with reservations := s.reservations.set k { v with status := .cancelled } } := by
  obtain ⟨entries, hc, hexact⟩ := hs.consumption k v hv
  have hw : Rewrites pending pending s
      { s with reservations := s.reservations.set k { v with status := .cancelled } } k v
      { v with status := .cancelled } :=
    { stored := hv
      reservations := fun j => get?_set _ _ _ _
      same := rfl
      live := fun h => absurd rfl h
      consumption := by
        refine ⟨entries, hexact, ?_, ?_⟩
        · intro j
          split_ifs with hj
          · rw [← hj, hc]
          · rfl
        · intro n e he happ
          exact .inr (.inl (entryStatus_eq_applied hc he happ))
      pending := fun _ hp => hp }
  exact hs.rewrite hw rfl

/-- Both cancellations keep the invariant when they return no number of an item in flight. -/
theorem cancelReservation_invariant (hs : Invariant pending s) (scope : Scope) (id : String)
    (durable : Bool) (hspare : rewindSpares pending s scope id durable = true) :
    Invariant pending (cancelReservation s scope id durable).1 := by
  rw [cancelReservation]
  dsimp only
  cases hv : s.reservations.get? (key scope.tenantId id) with
  | none => exact hs
  | some v =>
    dsimp only
    split
    · exact hs
    · rename_i hlegacy
      split
      · exact hs
      · split
        · exact hs
        · rename_i hstatus
          have hreserved : v.status = .reserved := not_not.mp hstatus
          split
          · rename_i hdurable
            obtain ⟨entries, hc, hexact⟩ := hs.consumption _ v hv
            simp only [hc]
            rw [returnTail]
            have hlive : v.status ≠ .cancelled := by
              rw [hreserved]
              decide
            cases hr : s.ranges.get? (key scope.tenantId v.rangeId) with
            | none =>
              exact hs.rewrite (hs.retire hv hc .cancelled (fun h => absurd rfl h) .expired
                (by decide)) rfl
            | some range =>
              dsimp only
              split
              · rename_i htail
                have hid : range.id = v.rangeId := by
                  obtain ⟨hkey, huuid⟩ := hs.rangeKeyed _ range hr
                  obtain ⟨-, kr, r, hr', hid, -⟩ := hs.reservationRange _ v hv
                  obtain ⟨-, huuid'⟩ := hs.rangeKeyed _ r hr'
                  rw [hid] at huuid'
                  exact (key_injective huuid' huuid hkey).2.symm
                have hshift : durable = true ∨ v.shiftId ≠ none ∧ scope.ctg9 = true := by
                  cases durable with
                  | true => exact .inl rfl
                  | false =>
                    simp only [Bool.false_eq_true, if_false, legacyReservation] at hlegacy
                    split_ifs at hlegacy with h
                    rw [not_or] at h
                    exact .inr ⟨h.1, by simpa using hdurable⟩
                have hnumbers : ∀ n, (key scope.tenantId id, n) ∈ pending →
                    n ≤ highestApplied v entries := by
                  intro n hn
                  simp only [rewindSpares, hv, hc, hr, hreserved, hshift, htail, true_and,
                    if_true, List.all_eq_true] at hspare
                  simpa using hspare _ hn
                simp only [returnsTail, Bool.and_eq_true, decide_eq_true_eq] at htail
                exact rewound_invariant hs scope hv hc hlive hr hid htail.1 hnumbers
              · exact hs.rewrite (hs.retire hv hc .cancelled (fun h => absurd rfl h) .expired
                  (by decide)) rfl
          · exact hs.cancelOnly hv

theorem exactEntries_claimLocally (h : ExactEntries v entries) (number : Int) :
    ExactEntries v (claimLocally entries number) := by
  rw [claimLocally]
  split
  · rename_i entry hentry
    split
    · constructor
      · intro n
        rw [← h.domain n]
        by_cases hn : number = n
        · subst hn
          simp [hentry]
        · rw [get?_set_of_ne _ _ hn]
      · intro n e he
        rcases get?_set_eq_some.mp he with ⟨rfl, rfl⟩ | ⟨-, he'⟩
        · exact h.number _ entry hentry
        · exact h.number n e he'
    · exact h
  · exact h

theorem applied_of_claimLocally {number : Int} (he : (claimLocally entries number).get? n = some e)
    (happ : e.status = .applied) :
    entries.get? n = some e := by
  rw [claimLocally] at he
  split at he
  · split at he
    · rcases get?_set_eq_some.mp he with ⟨rfl, rfl⟩ | ⟨-, he'⟩
      · exact absurd happ (by simp)
      · exact he'
    · exact he
  · exact he

theorem claimAll_spec (numbers : List Int) (h : ExactEntries v entries) :
    ExactEntries v (numbers.foldl claimLocally entries) ∧
      ∀ n e, (numbers.foldl claimLocally entries).get? n = some e → e.status = .applied →
        entries.get? n = some e := by
  induction numbers generalizing entries with
  | nil => exact ⟨h, fun _ _ he _ => he⟩
  | cons number rest ih =>
    obtain ⟨hexact, happlied⟩ := ih (exactEntries_claimLocally h number)
    refine ⟨hexact, ?_⟩
    intro n e he happ
    exact applied_of_claimLocally (happlied n e he happ) happ

theorem claimEntries_spec (numbers : List Int) (h : ExactEntries v entries) :
    ExactEntries v (claimEntries v numbers entries) ∧
      ∀ n e, (claimEntries v numbers entries).get? n = some e → e.status = .applied →
        entries.get? n = some e := by
  rw [claimEntries]
  split_ifs
  · exact claimAll_spec numbers h
  · exact ⟨h, fun _ _ he _ => he⟩

theorem Invariant.replaceEntries (hs : Invariant before s) (hv : s.reservations.get? k = some v)
    (hreservations : t.reservations = s.reservations) (hranges : t.ranges = s.ranges)
    (hc : t.consumption = s.consumption.set k entries) (hexact : ExactEntries v entries)
    (happlied : ∀ n e, entries.get? n = some e → e.status = .applied → Held before s k v n)
    (hpending : ∀ p, p ∈ after → p ∈ before) : Invariant after t := by
  have hw : Rewrites before after s t k v v :=
    { stored := hv
      reservations := by
        intro j
        rw [hreservations]
        split_ifs with hj
        · rw [← hj, hv]
        · rfl
      same := rfl
      live := id
      consumption := ⟨entries, hexact, fun j => by rw [hc, get?_set], happlied⟩
      pending := hpending }
  exact hs.rewrite hw hranges

theorem reconcileNumberingReservation_invariant (host : Host) (hs : Invariant pending s)
    (scope : Scope) (id : String) (input : ReconcileNumberingInput) (now uuid : String) :
    Invariant pending (reconcileNumberingReservation host s scope id input now uuid).1 := by
  rw [reconcileNumberingReservation]
  split
  · exact hs
  · split
    · exact hs
    · rename_i claimedNumbers _ _
      dsimp only
      split
      · rename_i reservation entries hv hc
        obtain ⟨stored, hstored, hexact⟩ := hs.consumption _ reservation hv
        cases hc.symm.trans hstored
        split
        · split <;> exact hs
        · split
          · exact hs
          · obtain ⟨hexact', happlied⟩ := claimEntries_spec claimedNumbers hexact
            have hheld : ∀ n e, (claimEntries reservation claimedNumbers entries).get? n = some e →
                e.status = .applied → Held pending s (key scope.tenantId id) reservation n := by
              intro n e he happ
              exact .inr (.inl (entryStatus_eq_applied hc (happlied n e he happ) happ))
            split
            · exact hs.replaceEntries hv rfl rfl rfl hexact' hheld fun _ hp => hp
            · exact hs.replaceEntries hv rfl rfl rfl hexact' hheld fun _ hp => hp
      · exact hs

theorem Invariant.dropPending (hs : Invariant before s) (hpending : ∀ p, p ∈ after → p ∈ before) :
    Invariant after s := by
  have hheld : ∀ k v n, Held after s k v n → Held before s k v n := by
    rintro k v n (h | h | h)
    · exact .inl h
    · exact .inr (.inl h)
    · exact .inr (.inr (hpending _ h))
  exact
    { hs with
      heldUnique := fun k v k' v' n hv hv' hid hn hn' =>
        hs.heldUnique k v k' v' n hv hv' hid (hheld k v n hn) (hheld k' v' n hn')
      heldBelow := fun k v kr r n hv hr hid hn => hs.heldBelow k v kr r n hv hr hid (hheld k v n hn)
      pendingCovered := fun k n hp => hs.pendingCovered k n (hpending _ hp) }

theorem coveringReservation_spec (host : Host) {item : NumberedItem}
    (h : coveringReservation host s item = .ok (some k)) :
    ∃ n v, item.reservedNumber = some n ∧ s.reservations.get? k = some v ∧ v.status = .reserved ∧
      InInterval v n := by
  rw [coveringReservation] at h
  split at h
  · cases h
  · rename_i n hn
    split at h
    · cases h
    · rename_i k' v hfilter
      split_ifs at h with happlied hopen
      have hmem : (k', v) ∈ [(k', v)] := .head _
      rw [← hfilter, List.mem_filter] at hmem
      obtain ⟨hstored, hcovers⟩ := hmem
      simp only [covers, Bool.and_eq_true, decide_eq_true_eq] at hcovers
      rw [not_or, not_not] at hopen
      cases h
      exact ⟨n, v, hn, mem_entries_iff.mp hstored, hopen.1, hcovers.1.1.1.2, hcovers.1.1.2⟩
    · cases h

theorem Invariant.cover (hs : Invariant pending s) (hv : s.reservations.get? k = some v)
    (hlive : v.status ≠ .cancelled) (hin : InInterval v n) : Invariant ((k, n) :: pending) s := by
  have hheld : ∀ j w m, s.reservations.get? j = some w → Held ((k, n) :: pending) s j w m →
      Held pending s j w m := by
    rintro j w m hw (h | h | h)
    · exact .inl h
    · exact .inr (.inl h)
    · rcases List.mem_cons.mp h with heq | h
      · cases heq
        cases hv.symm.trans hw
        exact .inl ⟨hlive, hin⟩
      · exact .inr (.inr h)
  exact
    { hs with
      heldUnique := fun j w j' w' m hw hw' hid hm hm' =>
        hs.heldUnique j w j' w' m hw hw' hid (hheld j w m hw hm) (hheld j' w' m hw' hm')
      heldBelow := fun j w kr r m hw hr hid hm =>
        hs.heldBelow j w kr r m hw hr hid (hheld j w m hw hm)
      pendingCovered := by
        intro j m hp
        rcases List.mem_cons.mp hp with heq | h
        · cases heq
          exact ⟨v, hv, hin⟩
        · exact hs.pendingCovered j m h }

theorem recordConsumption_invariant (hs : Invariant before s) (covering : Option String)
    (item : NumberedItem)
    (hcovering : ∀ k n, covering = some k → item.reservedNumber = some n → (k, n) ∈ before)
    (hpending : ∀ p, p ∈ after → p ∈ before) (status : ItemStatus) (entity : Option String)
    (now : String) :
    Invariant after (recordConsumption s covering item status entity now).1 := by
  unfold recordConsumption
  split
  · rename_i k entity n hnumber
    have hflight : (k, n) ∈ before := hcovering k n rfl hnumber
    split
    · obtain ⟨v, hv, hin⟩ := hs.pendingCovered k n hflight
      obtain ⟨entries, hc, hexact⟩ := hs.consumption k v hv
      obtain ⟨old, hold⟩ := (hexact.domain n).mpr hin
      simp only [hc, hold]
      refine hs.replaceEntries hv rfl rfl rfl ?_ ?_ hpending
      · constructor
        · intro m
          rw [← hexact.domain m]
          by_cases hm : n = m
          · subst hm
            simp [hold]
          · rw [get?_set_of_ne _ _ hm]
        · intro m e he
          rcases get?_set_eq_some.mp he with ⟨rfl, rfl⟩ | ⟨-, he'⟩
          · exact hexact.number _ old hold
          · exact hexact.number m e he'
      · intro m e he happ
        rcases get?_set_eq_some.mp he with ⟨rfl, -⟩ | ⟨-, he'⟩
        · exact .inr (.inr hflight)
        · exact .inr (.inl (entryStatus_eq_applied hc he' happ))
    · exact hs.dropPending hpending
  · exact hs.dropPending hpending

theorem Invariant.restateRange {r r' : NumberingRange} (hs : Invariant pending s)
    (hr : s.ranges.get? k = some r) (hsame : SameRange r r') (hnext : r'.nextNumber = r.nextNumber) :
    Invariant pending { s with ranges := s.ranges.set k r' } := by
  have hget : ∀ j q', (s.ranges.set k r').get? j = some q' →
      ∃ q, s.ranges.get? j = some q ∧ SameRange q q' ∧ q'.nextNumber = q.nextNumber := by
    intro j q' hq'
    rcases get?_set_eq_some.mp hq' with ⟨rfl, rfl⟩ | ⟨-, h⟩
    · exact ⟨r, hr, hsame, hnext⟩
    · exact ⟨q', h, ⟨rfl, rfl, rfl, rfl⟩, rfl⟩
  refine hs.narrow ?_
  exact
    { ranges := by
        intro j q' hq'
        obtain ⟨q, hq, hsq, -⟩ := hget j q' hq'
        exact ⟨q, hq, hsq⟩
      rangesKept := by
        intro j q hq
        by_cases hj : k = j
        · subst hj
          exact ⟨r', get?_set_self _ _ _⟩
        · exact ⟨q, by rw [get?_set_of_ne _ _ hj, hq]⟩
      bounds := by
        intro j q' hq'
        obtain ⟨q, hq, ⟨-, -, hstart, hend⟩, hn⟩ := hget j q' hq'
        rw [hstart, hend, hn]
        exact hs.rangeBounds j q hq
      reservations := fun j w hw => ⟨w, hw, rfl⟩
      entries := hs.consumption
      held := by
        intro j w w' n hw hw' h
        cases hw.symm.trans hw'
        exact h
      below := by
        intro j w kr q' n hw hq' hid hheld
        obtain ⟨q, hq, ⟨hqid, -⟩, hn⟩ := hget kr q' hq'
        rw [hn]
        exact hs.heldBelow j w kr q n hw hq (hqid.symm.trans hid) hheld
      covered := hs.pendingCovered }

theorem cancelNumberingRange_invariant (host : Host) (hs : Invariant pending s) (scope : Scope)
    (id : String) (reason : Option String) (now : String) :
    Invariant pending (cancelNumberingRange host s scope id reason now).1 := by
  rw [cancelNumberingRange]
  split
  · exact hs
  · split
    · exact hs
    · split
      · exact hs
      · rename_i range hr
        split
        · exact hs
        · exact hs
        · split
          · exact hs
          · exact hs.restateRange hr ⟨rfl, rfl, rfl, rfl⟩ rfl

/-- A UUID no stored range or reservation carries, as `randomUUID()` returns. -/
def freshUuid (s : Store) (uuid : String) : Bool :=
  isUuid uuid && s.ranges.values.all (·.id ≠ uuid) &&
    s.reservations.values.all (·.reservationId ≠ uuid)

theorem freshUuid_spec (h : freshUuid s uuid = true) :
    isUuid uuid = true ∧ (∀ k r, s.ranges.get? k = some r → r.id ≠ uuid) ∧
      ∀ k v, s.reservations.get? k = some v → v.reservationId ≠ uuid := by
  simp only [freshUuid, Bool.and_eq_true, List.all_eq_true, decide_eq_true_eq] at h
  exact ⟨h.1.1, fun k r hr => h.1.2 r (mem_values_iff.mpr ⟨k, hr⟩),
    fun k v hv => h.2 v (mem_values_iff.mpr ⟨k, hv⟩)⟩

theorem Invariant.ranges_fresh (hs : Invariant pending s) (h : freshUuid s uuid = true)
    (tenantId : String) :
    s.ranges.get? (key tenantId uuid) = none := by
  obtain ⟨huuid, hranges, -⟩ := freshUuid_spec h
  cases hr : s.ranges.get? (key tenantId uuid) with
  | none => rfl
  | some r =>
    obtain ⟨hkey, hid⟩ := hs.rangeKeyed _ r hr
    exact absurd (key_injective huuid hid hkey).2.symm (hranges _ r hr)

theorem Invariant.reservations_fresh (hs : Invariant pending s) (h : freshUuid s uuid = true)
    (tenantId : String) :
    s.reservations.get? (key tenantId uuid) = none := by
  obtain ⟨huuid, -, hreservations⟩ := freshUuid_spec h
  cases hv : s.reservations.get? (key tenantId uuid) with
  | none => rfl
  | some v =>
    obtain ⟨hkey, hid⟩ := hs.reservationKeyed _ v hv
    exact absurd (key_injective huuid hid hkey).2.symm (hreservations _ v hv)

/-- A new range under a fresh UUID, still without reservations, keeps the invariant. -/
theorem Invariant.addRange (hs : Invariant pending s) (hfresh : freshUuid s uuid = true)
    {tenantId : String} {r : NumberingRange} (htenant : r.tenantId = tenantId) (hid : r.id = uuid)
    (hle : r.startNumber ≤ r.endNumber) (hnext : r.nextNumber = r.startNumber)
    {receipts : OrderedMap String RangeCreationReceipt} :
    Invariant pending
      { s with
        ranges := s.ranges.set (key tenantId uuid) r
        rangeCreationReceipts := receipts } := by
  obtain ⟨huuid, hranges, -⟩ := freshUuid_spec hfresh
  have hnew := hs.ranges_fresh hfresh tenantId
  have hget : ∀ k q, (s.ranges.set (key tenantId uuid) r).get? k = some q →
      (k = key tenantId uuid ∧ q = r) ∨ s.ranges.get? k = some q := by
    intro k q hq
    rcases get?_set_eq_some.mp hq with ⟨rfl, rfl⟩ | ⟨-, h⟩
    · exact .inl ⟨rfl, rfl⟩
    · exact .inr h
  have hkept : ∀ k q, s.ranges.get? k = some q →
      (s.ranges.set (key tenantId uuid) r).get? k = some q := by
    intro k q hq
    rw [get?_set_of_ne, hq]
    rintro rfl
    rw [hnew] at hq
    cases hq
  have hother : ∀ k v, s.reservations.get? k = some v → v.rangeId ≠ uuid := by
    intro k v hv
    obtain ⟨-, kr, q, hq, hqid, -⟩ := hs.reservationRange k v hv
    rw [← hqid]
    exact hranges kr q hq
  exact
    { rangeKeyed := by
        intro k q hq
        rcases hget k q hq with ⟨rfl, rfl⟩ | h
        · exact ⟨by rw [htenant, hid], by rw [hid]; exact huuid⟩
        · exact hs.rangeKeyed k q h
      rangeIds := by
        intro k₁ r₁ k₂ r₂ h₁ h₂ he
        rcases hget k₁ r₁ h₁ with ⟨rfl, rfl⟩ | h₁' <;> rcases hget k₂ r₂ h₂ with ⟨rfl, rfl⟩ | h₂'
        · rfl
        · exact absurd (he.symm.trans hid) (hranges k₂ r₂ h₂')
        · exact absurd (he.trans hid) (hranges k₁ r₁ h₁')
        · exact hs.rangeIds k₁ r₁ k₂ r₂ h₁' h₂' he
      rangeBounds := by
        intro k q hq
        rcases hget k q hq with ⟨rfl, rfl⟩ | h
        · omega
        · exact hs.rangeBounds k q h
      reservationKeyed := hs.reservationKeyed
      reservationRange := by
        intro k v hv
        obtain ⟨hvle, kr, q, hq, hqid, hstart⟩ := hs.reservationRange k v hv
        exact ⟨hvle, kr, q, hkept kr q hq, hqid, hstart⟩
      consumption := hs.consumption
      heldUnique := hs.heldUnique
      heldBelow := by
        intro k v kr q n hv hq hqid hheld
        rcases hget kr q hq with ⟨rfl, rfl⟩ | h
        · exact absurd (hqid.symm.trans hid) (hother k v hv)
        · exact hs.heldBelow k v kr q n hv h hqid hheld
      pendingCovered := hs.pendingCovered }

theorem rangeCreation_ok (host : Host) {scope : Scope} {original input : CreateNumberingRangeInput}
    {fingerprint : String} (h : rangeCreation host scope original = .ok (input, fingerprint)) :
    input.startNumber ≤ input.endNumber := by
  unfold rangeCreation at h
  split_ifs at h with htext hnumbers
  simp only [Bool.or_eq_true, decide_eq_true_eq, not_or, not_lt] at hnumbers
  split at h
  · cases h
  · cases h
    exact hnumbers.2
  · cases h
    exact hnumbers.2

theorem createNumberingRange_invariant (host : Host) (hs : Invariant pending s) (scope : Scope)
    (input : CreateNumberingRangeInput) (now : String) (hfresh : freshUuid s uuid = true) :
    Invariant pending (createNumberingRange host s scope input now uuid).1 := by
  unfold createNumberingRange
  split
  · exact hs
  · rename_i checked fingerprint hok
    have hle := rangeCreation_ok host hok
    dsimp only
    split
    · split <;> exact hs
    · split
      · exact hs
      · split
        · exact hs
        · refine hs.addRange hfresh ?_ ?_ ?_ ?_
          · rfl
          · rfl
          · exact hle
          · rfl

theorem get?_availableEntries (startNumber : Int) (count : Nat) (n : Int) :
    (availableEntries startNumber count).get? n =
      if startNumber ≤ n ∧ n < startNumber + count then some (availableEntry n) else none := by
  induction count with
  | zero =>
    rw [if_neg (by omega)]
    rfl
  | succ count ih =>
    have hstep : availableEntries startNumber (count + 1) =
        (availableEntries startNumber count).set (startNumber + count)
          (availableEntry (startNumber + count)) := by
      rw [availableEntries, List.range_succ, List.foldl_append]
      rfl
    rw [hstep, get?_set, ih]
    by_cases hn : startNumber + count = n
    · subst hn
      rw [if_pos rfl, if_pos (by omega)]
    · rw [if_neg hn]
      by_cases hin : startNumber ≤ n ∧ n < startNumber + count
      · rw [if_pos hin, if_pos (by omega)]
      · rw [if_neg hin, if_neg (by omega)]

theorem exactEntries_availableEntries (v : NumberingReservation) :
    ExactEntries v (availableEntries v.startNumber (v.endNumber + 1 - v.startNumber).toNat) where
  domain n := by
    rw [get?_availableEntries, InInterval]
    split_ifs with h
    · exact ⟨fun _ => by omega, fun _ => ⟨_, rfl⟩⟩
    · constructor
      · rintro ⟨e, he⟩
        cases he
      · intro hin
        omega
  number n e he := by
    rw [get?_availableEntries] at he
    split_ifs at he
    cases he
    rfl

theorem recordGrant_invariant {scope : Scope} {range : NumberingRange} (hs : Invariant pending s)
    (hr : s.ranges.get? (key scope.tenantId range.id) = some range)
    (hfresh : freshUuid s v.reservationId = true) (htenant : v.tenantId = scope.tenantId)
    (hrange : v.rangeId = range.id) (hstart : v.startNumber = range.nextNumber)
    (hle : v.startNumber ≤ v.endNumber) (hend : v.endNumber ≤ range.endNumber)
    (hstatus : v.status = .reserved) (origin : Origin) (keyed : Option (String × String)) :
    Invariant pending (recordGrant s scope range v origin keyed) := by
  obtain ⟨huuid, -, -⟩ := freshUuid_spec hfresh
  have hnew := hs.reservations_fresh hfresh scope.tenantId
  obtain ⟨hlower, -⟩ := hs.rangeBounds _ range hr
  -- The new key carries no pending item and no applied entry, so only its interval is held.
  have hreservation : ∀ k w,
      (recordGrant s scope range v origin keyed).reservations.get? k = some w →
      (k = key scope.tenantId v.reservationId ∧ w = v) ∨
        (key scope.tenantId v.reservationId ≠ k ∧ s.reservations.get? k = some w) := by
    intro k w hw
    rcases get?_set_eq_some.mp hw with ⟨rfl, rfl⟩ | h
    · exact .inl ⟨rfl, rfl⟩
    · exact .inr h
  have hranges : ∀ k q, (recordGrant s scope range v origin keyed).ranges.get? k = some q →
      (k = key scope.tenantId range.id ∧ q = grantedRange range v.endNumber) ∨
        (key scope.tenantId range.id ≠ k ∧ s.ranges.get? k = some q) := by
    intro k q hq
    rcases get?_set_eq_some.mp hq with ⟨rfl, rfl⟩ | h
    · exact .inl ⟨rfl, rfl⟩
    · exact .inr h
  have hkept : ∀ k w, s.reservations.get? k = some w →
      (recordGrant s scope range v origin keyed).reservations.get? k = some w := by
    intro k w hw
    refine get?_set_eq_some.mpr (.inr ⟨?_, hw⟩)
    rintro rfl
    rw [hnew] at hw
    cases hw
  have hheldNew : ∀ n, Held pending (recordGrant s scope range v origin keyed)
      (key scope.tenantId v.reservationId) v n → InInterval v n := by
    rintro n (⟨-, hin⟩ | happ | hp)
    · exact hin
    · simp only [entryStatus, recordGrant, get?_set_self, Option.bind_some,
        Option.map_eq_some_iff] at happ
      obtain ⟨e, he, -⟩ := happ
      exact ((exactEntries_availableEntries v).domain n).mp ⟨e, he⟩
    · obtain ⟨w, hw, -⟩ := hs.pendingCovered _ n hp
      rw [hnew] at hw
      cases hw
  have hheldOld : ∀ k w n, key scope.tenantId v.reservationId ≠ k →
      Held pending (recordGrant s scope range v origin keyed) k w n → Held pending s k w n := by
    rintro k w n hk (h | happ | hp)
    · exact .inl h
    · refine .inr (.inl ?_)
      simpa only [entryStatus, recordGrant, get?_set_of_ne _ _ hk] using happ
    · exact .inr (.inr hp)
  have hbefore : ∀ k w n, s.reservations.get? k = some w → w.rangeId = range.id →
      Held pending s k w n → n < v.startNumber := by
    intro k w n hw hid hn
    rw [hstart]
    exact hs.heldBelow k w _ range n hw hr hid.symm hn
  exact
    { rangeKeyed := by
        intro k q hq
        rcases hranges k q hq with ⟨rfl, rfl⟩ | ⟨-, h⟩
        · exact hs.rangeKeyed _ range hr
        · exact hs.rangeKeyed k q h
      rangeIds := by
        intro k₁ r₁ k₂ r₂ h₁ h₂ he
        rcases hranges k₁ r₁ h₁ with ⟨rfl, rfl⟩ | ⟨-, h₁'⟩ <;>
          rcases hranges k₂ r₂ h₂ with ⟨rfl, rfl⟩ | ⟨-, h₂'⟩
        · rfl
        · exact hs.rangeIds _ range k₂ r₂ hr h₂' he
        · exact hs.rangeIds k₁ r₁ _ range h₁' hr he
        · exact hs.rangeIds k₁ r₁ k₂ r₂ h₁' h₂' he
      rangeBounds := by
        intro k q hq
        rcases hranges k q hq with ⟨rfl, rfl⟩ | ⟨-, h⟩
        · dsimp only [grantedRange]
          omega
        · exact hs.rangeBounds k q h
      reservationKeyed := by
        intro k w hw
        rcases hreservation k w hw with ⟨rfl, rfl⟩ | ⟨-, h⟩
        · exact ⟨by rw [htenant], huuid⟩
        · exact hs.reservationKeyed k w h
      reservationRange := by
        intro k w hw
        rcases hreservation k w hw with ⟨rfl, rfl⟩ | ⟨-, h⟩
        · exact ⟨hle, _, _, get?_set_self _ _ _, hrange.symm, by
            dsimp only [grantedRange]
            omega⟩
        · obtain ⟨hwle, kr, q, hq, hqid, hqstart⟩ := hs.reservationRange k w h
          by_cases hk : key scope.tenantId range.id = kr
          · subst hk
            cases hr.symm.trans hq
            exact ⟨hwle, _, _, get?_set_self _ _ _, hqid, hqstart⟩
          · exact ⟨hwle, kr, q, get?_set_eq_some.mpr (.inr ⟨hk, hq⟩), hqid, hqstart⟩
      consumption := by
        intro k w hw
        rcases hreservation k w hw with ⟨rfl, rfl⟩ | ⟨hk, h⟩
        · exact ⟨_, get?_set_self _ _ _, exactEntries_availableEntries w⟩
        · obtain ⟨entries, hc, hexact⟩ := hs.consumption k w h
          exact ⟨entries, get?_set_eq_some.mpr (.inr ⟨hk, hc⟩), hexact⟩
      heldUnique := by
        intro k₁ w₁ k₂ w₂ n h₁ h₂ hid hn₁ hn₂
        rcases hreservation k₁ w₁ h₁ with ⟨rfl, rfl⟩ | ⟨hk₁, h₁'⟩ <;>
          rcases hreservation k₂ w₂ h₂ with ⟨rfl, rfl⟩ | ⟨hk₂, h₂'⟩
        · rfl
        · have hin := hheldNew n hn₁
          have := hbefore k₂ w₂ n h₂' (hid.symm.trans hrange) (hheldOld k₂ w₂ n hk₂ hn₂)
          rw [InInterval] at hin
          omega
        · have hin := hheldNew n hn₂
          have := hbefore k₁ w₁ n h₁' (hid.trans hrange) (hheldOld k₁ w₁ n hk₁ hn₁)
          rw [InInterval] at hin
          omega
        · exact hs.heldUnique k₁ w₁ k₂ w₂ n h₁' h₂' hid (hheldOld k₁ w₁ n hk₁ hn₁)
            (hheldOld k₂ w₂ n hk₂ hn₂)
      heldBelow := by
        intro k w kr q n hw hq hqid hn
        rcases hreservation k w hw with ⟨rfl, rfl⟩ | ⟨hk, h⟩
        · have hin := hheldNew n hn
          rw [InInterval] at hin
          rcases hranges kr q hq with ⟨rfl, rfl⟩ | ⟨hne, hq'⟩
          · dsimp only [grantedRange]
            omega
          · exact absurd (hs.rangeIds _ range kr q hr hq' (hrange.symm.trans hqid.symm)) hne
        · have hold := hheldOld k w n hk hn
          rcases hranges kr q hq with ⟨rfl, rfl⟩ | ⟨-, hq'⟩
          · have := hbefore k w n h hqid.symm hold
            dsimp only [grantedRange]
            omega
          · exact hs.heldBelow k w kr q n h hq' hqid hold
      pendingCovered := by
        intro k n hp
        obtain ⟨w, hw, hin⟩ := hs.pendingCovered k n hp
        exact ⟨w, hkept k w hw, hin⟩ }

theorem allocateReservation_invariant (host : Host) (hs : Invariant pending s) (scope : Scope)
    (input : ReserveNumberingInput) (now defaultValidUntil : String) (origin : Origin)
    (hfresh : freshUuid s uuid = true) (hsize : 1 ≤ input.requestedSize) :
    Invariant pending
      (allocateReservation host s scope input now defaultValidUntil origin uuid).1 := by
  unfold allocateReservation
  split
  · exact hs
  · exact hs
  · split
    · exact hs
    · split
      · exact hs
      · split
        · exact hs
        · rename_i range hfind
          split
          · exact hs
          · split
            · exact hs
            · rename_i hcapacity
              have hcandidate := List.find?_some hfind
              obtain ⟨k, hr⟩ := mem_values_iff.mp (List.mem_of_find?_eq_some hfind)
              have htenant : range.tenantId = scope.tenantId := by
                simp only [isCandidate, Bool.and_eq_true, decide_eq_true_eq] at hcandidate
                exact hcandidate.1
              have hkey : k = key scope.tenantId range.id := by
                rw [← htenant]
                exact (hs.rangeKeyed k range hr).1
              rw [hkey] at hr
              have hle : (grantedReservation scope input range defaultValidUntil uuid).startNumber ≤
                  (grantedReservation scope input range defaultValidUntil uuid).endNumber := by
                dsimp only [grantedReservation]
                omega
              have hend : (grantedReservation scope input range defaultValidUntil uuid).endNumber ≤
                  range.endNumber := not_lt.mp hcapacity
              exact recordGrant_invariant
                (v := grantedReservation scope input range defaultValidUntil uuid) hs hr hfresh rfl
                rfl rfl hle hend rfl origin _

end Stynx.OfflineSyncReservationInvariant
