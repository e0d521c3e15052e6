import Mathlib.Data.List.Dedup
import Stynx.OfflineSyncBatches
import Stynx.OfflineSyncReservationScopes

/-!
# Applied numbers and the evidence of reconciliations

The entries of a reservation are one for each of its numbers, in order. Only the end of a sync
item gives one the status `applied`, and the other operations change available entries only.
Batches of one tenant run one at a time, so an applied entry never changes.

The record that a reconciliation stores is compared with the check that archived records must
pass on their import. In a row the `uuid` columns give lower-case texts.
-/

namespace Stynx.OfflineSyncEvidence

open OrderedMap

open OfflineSyncNumbering OfflineSyncNumberingRuns OfflineSyncReservationInvariant
open OfflineSyncReservationScopes TransitionRuns SeparatedLists
open OfflineSyncBatches

/-- `OfflineImportReconciliationsRow`. -/
structure ReconciliationsRow where
  id : String
  tenant_id : String
  reservation_id : String
  actor_id : String
  created_at : String
  claimed_numbers : List Int
  user_ref : Option String
  idempotency_key : Option String
  request_fingerprint : Option String
  result_json : ReconcileNumberingResult

/-- `format: 'uuid'` of the import schema: lower-case digits only. -/
def conformsUuid (value : String) : Bool :=
  isUuid value && value.toList.all fun c => !('A' ≤ c && c ≤ 'F')

def boundedImportText (value : String) (maximum minimum : Nat) : Bool :=
  !value.toList.contains '\x00' && minimum ≤ value.utf8ByteSize && value.utf8ByteSize ≤ maximum

/-- Every two neighbours are in the relation. -/
def adjacent (related : Int → Int → Bool) : List Int → Bool
  | first :: second :: rest => related first second && adjacent related (second :: rest)
  | _ => true

section

variable (host : Host)

/-- The instants of the import schema. -/
def conformsInstant (value : String) : Bool := (host.instantMicroseconds value).isSome

/-- `conforms(value, schema.$defs.reconciliationsRow)`, beyond what the types say. -/
def conformsRow (row : ReconciliationsRow) : Bool :=
  conformsUuid row.id && conformsUuid row.tenant_id && conformsUuid row.reservation_id &&
    conformsInstant host row.created_at && row.request_fingerprint.all canonicalPayloadHash &&
    conformsUuid row.result_json.reservationId && conformsUuid row.result_json.reconciliationId &&
    (row.result_json.consumption.all fun entry =>
      isSafeInteger entry.number && entry.finalizedAt.all (conformsInstant host)) &&
    row.result_json.missingOnServer.all isSafeInteger &&
    row.result_json.unexpectedOnServer.all isSafeInteger

/-- The check of the numbers against the bounds of the reservation. -/
def withinBounds (numbers : List Int) (bounds : Int × Int) : Bool :=
  isSafeInteger bounds.1 && isSafeInteger bounds.2 && bounds.1 ≤ bounds.2 &&
    numbers.head? = some bounds.1 && numbers.getLast? = some bounds.2

def validReconciliationEvidence (row : ReconciliationsRow) (bounds : Option (Int × Int)) : Bool :=
  let claims := row.claimed_numbers
  let result := row.result_json
  let entries := result.consumption
  let numbers := entries.map ConsumptionEntry.number
  conformsRow host row &&
    boundedImportText row.actor_id 255 1 && row.user_ref.all (boundedImportText · 255 0) &&
    row.idempotency_key.all (boundedImportText · 255 1) &&
    claims.all isSafeInteger && adjacent (fun before after => before < after) claims &&
    result.reconciliationId = row.id && result.reservationId = row.reservation_id &&
    (row.idempotency_key.isNone == row.request_fingerprint.isNone) &&
    (row.request_fingerprint.all fun digest =>
      digest = host.reconciliationDigest claims row.user_ref) &&
    !entries.isEmpty && adjacent (fun before after => after = before + 1) numbers &&
    claims.all numbers.contains && bounds.all (withinBounds numbers) &&
    result.missingOnServer = (entries.filter fun e =>
      claims.contains e.number && e.status ≠ .applied).map ConsumptionEntry.number &&
    result.unexpectedOnServer = (entries.filter fun e =>
      !claims.contains e.number && e.status = .applied).map ConsumptionEntry.number

end

def archivedRow (record : ReconciliationRecord) : ReconciliationsRow :=
  { id := record.reconciliationId
    tenant_id := record.tenantId.toLower
    reservation_id := record.reservationId
    actor_id := record.actorId
    created_at := record.createdAt
    claimed_numbers := record.claimedNumbers
    user_ref := record.userRef
    idempotency_key := record.idempotencyKey
    request_fingerprint := record.idempotencyKey.map fun _ => record.fingerprint
    result_json := record.result }

section

variable {host : Host} {v : NumberingReservation} {entries : Entries}

/-- As many consecutive numbers from a first one on. -/
def consecutive (start : Int) (count : Nat) : List Int :=
  (List.range count).map fun (i : Nat) => start + (i : Int)

def numbersOf (v : NumberingReservation) : List Int :=
  consecutive v.startNumber (v.endNumber + 1 - v.startNumber).toNat

/-- One entry for each number, in order, with instants that can be read. -/
structure EntriesSound (host : Host) (v : NumberingReservation) (entries : Entries) : Prop where
  keys : entries.entries.map Prod.fst = numbersOf v
  number : ∀ n e, entries.get? n = some e → e.number = n
  /-- Instants of applied numbers. -/
  finalized : ∀ n e, entries.get? n = some e → ∀ instant, e.finalizedAt = some instant →
    conformsInstant host instant = true

/-- Entries keep their numbers and instants, and an applied one its status. -/
structure Retires (before after : Entries) : Prop where
  /-- The numbers in order. -/
  keys : after.entries.map Prod.fst = before.entries.map Prod.fst
  /-- What became of each entry. -/
  get : ∀ n e', after.get? n = some e' → ∃ e, before.get? n = some e ∧
    (e' = e ∨ e.status ≠ .applied ∧ e'.status ≠ .applied ∧ e'.number = e.number ∧
      e'.finalizedAt = e.finalizedAt)

theorem Retires.refl (entries : Entries) : Retires entries entries :=
  ⟨rfl, fun _ e' h => ⟨e', h, .inl rfl⟩⟩

variable {after : Entries} {n : Int}

theorem Retires.trans {before middle : Entries} (h : Retires before middle)
    (h' : Retires middle after) : Retires before after := by
  refine ⟨h'.keys.trans h.keys, ?_⟩
  intro n e'' he''
  obtain ⟨e', he', hsame'⟩ := h'.get n e'' he''
  obtain ⟨e, he, hsame⟩ := h.get n e' he'
  refine ⟨e, he, ?_⟩
  rcases hsame' with rfl | ⟨hnot, hnot', hnumber, hinstant⟩
  · exact hsame
  · rcases hsame with rfl | ⟨hold, -, hnumber', hinstant'⟩
    · exact .inr ⟨hnot, hnot', hnumber, hinstant⟩
    · exact .inr ⟨hold, hnot', hnumber.trans hnumber', hinstant.trans hinstant'⟩

theorem mem_keys_iff : n ∈ entries.entries.map Prod.fst ↔ ∃ e, entries.get? n = some e := by
  constructor
  · intro h
    obtain ⟨⟨k, e⟩, hmem, rfl⟩ := List.mem_map.mp h
    exact ⟨e, mem_entries_iff.mp hmem⟩
  · rintro ⟨e, he⟩
    exact List.mem_map.mpr ⟨(n, e), mem_entries_iff.mpr he, rfl⟩

variable {e : ConsumptionEntry}

theorem Retires.applied_iff {before : Entries} (h : Retires before after)
    (happ : e.status = .applied) :
    after.get? n = some e ↔ before.get? n = some e := by
  constructor
  · intro he
    obtain ⟨old, hold, rfl | ⟨-, hnot, -, -⟩⟩ := h.get n e he
    · exact hold
    · exact absurd happ hnot
  · intro he
    obtain ⟨e', he'⟩ := mem_keys_iff.mp (h.keys ▸ mem_keys_iff.mpr ⟨e, he⟩)
    obtain ⟨old, hold, hsame⟩ := h.get n e' he'
    obtain rfl := Option.some.inj (he.symm.trans hold)
    rcases hsame with rfl | ⟨hnot, -, -, -⟩
    · exact he'
    · exact absurd happ hnot

theorem EntriesSound.retires (h : EntriesSound host v entries) (hretires : Retires entries after) :
    EntriesSound host v after := by
  refine ⟨hretires.keys.trans h.keys, ?_, ?_⟩
  · intro n e' he'
    obtain ⟨e, he, rfl | ⟨-, -, hnumber, -⟩⟩ := hretires.get n e' he'
    · exact h.number n e' he
    · exact hnumber.trans (h.number n e he)
  · intro n e' he' instant hinstant
    obtain ⟨e, he, rfl | ⟨-, -, -, hsame⟩⟩ := hretires.get n e' he'
    · exact h.finalized n e' he instant hinstant
    · exact h.finalized n e he instant (hsame.symm.trans hinstant)

theorem retires_retireAvailable (entries : Entries) {status : ConsumptionStatus}
    (hstatus : status ≠ .applied) : Retires entries (retireAvailable status entries) := by
  constructor
  · rw [retireAvailable, OrderedMap.mapValues, List.map_map]
    rfl
  · intro n e' he'
    rw [retireAvailable, get?_mapValues, Option.map_eq_some_iff] at he'
    obtain ⟨e, he, rfl⟩ := he'
    refine ⟨e, he, ?_⟩
    split_ifs with havailable
    · refine .inr ⟨?_, hstatus, rfl, rfl⟩
      rw [havailable]
      decide
    · exact .inl rfl

theorem keys_set {old : ConsumptionEntry} (hold : entries.get? n = some old) :
    (entries.set n e).entries.map Prod.fst = entries.entries.map Prod.fst :=
  OrderedMap.keys_set_of_mem (mem_keys_iff.mpr ⟨old, hold⟩) e

theorem retires_claimLocally (entries : Entries) (number : Int) :
    Retires entries (claimLocally entries number) := by
  rw [claimLocally]
  split
  · rename_i entry hentry
    split_ifs with havailable
    · refine ⟨keys_set hentry, ?_⟩
      intro n e' he'
      rcases get?_set_eq_some.mp he' with ⟨rfl, rfl⟩ | ⟨-, he'⟩
      · refine ⟨entry, hentry, .inr ⟨?_, (fun h => by cases h), rfl, rfl⟩⟩
        rw [havailable]
        decide
      · exact ⟨e', he', .inl rfl⟩
    · exact .refl entries
  · exact .refl entries

theorem retires_claimEntries (numbers : List Int) (entries : Entries) :
    Retires entries (claimEntries v numbers entries) := by
  have hloop : Retires entries (numbers.foldl claimLocally entries) := by
    induction numbers generalizing entries with
    | nil => exact .refl entries
    | cons number rest ih => exact (retires_claimLocally entries number).trans (ih _)
  rw [claimEntries]
  split_ifs
  · exact hloop
  · exact .refl entries

end

section

variable {c : Char}

theorem toNat_lt_of_isHexDigit (h : isHexDigit c = true) : c.toNat < 128 := by
  have hle : ∀ d : Char, d.toNat < 128 → c ≤ d → c.toNat < 128 := by
    intro d hd hcd
    have hval : c.val.toNat ≤ d.val.toNat := hcd
    exact lt_of_le_of_lt hval hd
  simp only [isHexDigit, Char.isDigit, Bool.or_eq_true, Bool.and_eq_true, decide_eq_true_eq] at h
  rcases h with (h | h) | h
  · exact hle '9' (by decide) h.2
  · exact hle 'f' (by decide) h.2
  · exact hle 'F' (by decide) h.2

theorem toLower_of_isHexDigit (h : isHexDigit c = true) :
    isHexDigit c.toLower = true ∧ (!('A' ≤ c.toLower && c.toLower ≤ 'F')) = true := by
  have hall : ∀ n < 128, isHexDigit (Char.ofNat n) = true →
      isHexDigit (Char.ofNat n).toLower = true ∧
        (!('A' ≤ (Char.ofNat n).toLower && (Char.ofNat n).toLower ≤ 'F')) = true := by
    decide
  have hc := hall c.toNat (toNat_lt_of_isHexDigit h)
  rw [Char.ofNat_toNat] at hc
  exact hc h

theorem conformsUuid_toLower {value : String} (h : isUuid value = true) :
    conformsUuid value.toLower = true := by
  have hlist : value.toLower.toList = value.toList.map Char.toLower := String.toList_map
  have hlength : value.toLower.length = value.length := String.length_map
  have hdash : ('-').toLower = '-' ∧ (!('A' ≤ ('-').toLower && ('-').toLower ≤ 'F')) = true := by
    decide
  rw [isUuid, Bool.and_eq_true, List.all_eq_true] at h
  obtain ⟨hsize, hchars⟩ := h
  rw [conformsUuid, isUuid, hlist, hlength, hsize, Bool.true_and, Bool.and_eq_true,
    List.zipIdx_map, List.all_map, List.all_eq_true, List.all_map, List.all_eq_true]
  refine ⟨?_, ?_⟩
  · rintro ⟨c, i⟩ hc
    have hthis := hchars (c, i) hc
    dsimp only [Function.comp_apply, Prod.map_apply, id_eq] at hthis ⊢
    split_ifs at hthis ⊢
    · rw [beq_iff_eq.mp hthis, hdash.1]
      rfl
    · exact (toLower_of_isHexDigit hthis).1
  · intro c hc
    obtain ⟨i, hi, hget⟩ := List.getElem_of_mem hc
    have hz : (c, i) ∈ value.toList.zipIdx := by
      rw [List.mk_mem_zipIdx_iff_getElem?, List.getElem?_eq_getElem hi, hget]
    have hthis := hchars (c, i) hz
    dsimp only [Function.comp_apply] at hthis ⊢
    split_ifs at hthis
    · rw [beq_iff_eq.mp hthis]
      exact hdash.2
    · exact (toLower_of_isHexDigit hthis).2

end

section

theorem adjacent_of_pairwise {related : Int → Int → Bool} {l : List Int}
    (h : l.Pairwise fun a b => related a b = true) : adjacent related l = true := by
  induction l with
  | nil => rfl
  | cons first rest ih =>
    obtain ⟨hfirst, hrest⟩ := List.pairwise_cons.mp h
    cases rest with
    | nil => rfl
    | cons second tail =>
      rw [adjacent, Bool.and_eq_true]
      exact ⟨hfirst second (.head _), ih hrest⟩

theorem adjacent_consecutive (start : Int) (count : Nat) :
    adjacent (fun before after => after = before + 1) (consecutive start count) = true := by
  have htail : ∀ (start : Int) (count : Nat),
      consecutive start (count + 1) = start :: consecutive (start + 1) count := by
    intro start count
    rw [consecutive, consecutive, List.range_succ_eq_map, List.map_cons, List.map_map]
    refine congrArg₂ List.cons (by simp) (List.map_congr_left fun i _ => ?_)
    simp only [Function.comp_apply, Nat.succ_eq_add_one]
    push_cast
    omega
  induction count generalizing start with
  | zero => rfl
  | succ count ih =>
    rw [htail]
    cases count with
    | zero => rfl
    | succ count =>
      have hrest := ih (start + 1)
      rw [htail] at hrest ⊢
      rw [adjacent, Bool.and_eq_true]
      exact ⟨decide_eq_true rfl, hrest⟩

variable {v : NumberingReservation}

theorem mem_numbersOf {n : Int} : n ∈ numbersOf v ↔ InInterval v n := by
  rw [numbersOf, consecutive, List.mem_map, InInterval]
  constructor
  · rintro ⟨i, hi, rfl⟩
    rw [List.mem_range] at hi
    omega
  · rintro ⟨hstart, hend⟩
    refine ⟨(n - v.startNumber).toNat, ?_, by omega⟩
    rw [List.mem_range]
    omega

theorem head?_numbersOf (hle : v.startNumber ≤ v.endNumber) :
    (numbersOf v).head? = some v.startNumber := by
  rw [numbersOf, consecutive, List.head?_map, List.head?_range, if_neg (by omega)]
  simp

theorem getLast?_numbersOf (hle : v.startNumber ≤ v.endNumber) :
    (numbersOf v).getLast? = some v.endNumber := by
  rw [numbersOf, consecutive, List.getLast?_map, List.getLast?_range, if_neg (by omega), Option.map_some]
  refine congrArg some ?_
  omega

variable {host : Host} {scope : Scope} {input : ReconcileNumberingInput}

theorem claims_of_request {claims : List Int} {fingerprint : String}
    (h : reconciliationRequest host scope input = .ok (claims, fingerprint)) :
    claims.all isSafeInteger = true ∧
      adjacent (fun before after => before < after) claims = true ∧
      fingerprint = host.reconciliationDigest claims input.userRef := by
  rw [reconciliationRequest] at h
  split_ifs at h with htexts href hnumbers
  cases h
  have hsorted : (((input.claimedNumbers.getD []).dedup).insertionSort (· ≤ ·)).Pairwise
      fun a b => decide (a < b) = true := by
    have hle := List.pairwise_insertionSort (· ≤ ·) (input.claimedNumbers.getD []).dedup
    have hnodup : ((input.claimedNumbers.getD []).dedup.insertionSort (· ≤ ·)).Nodup :=
      (List.perm_insertionSort (· ≤ ·) _).nodup_iff.mpr (List.nodup_dedup _)
    refine (hle.and hnodup).imp ?_
    rintro a b ⟨hab, hne⟩
    exact decide_eq_true (lt_of_le_of_ne hab hne)
  refine ⟨?_, adjacent_of_pairwise hsorted, rfl⟩
  rw [List.all_eq_true]
  intro n hn
  rw [List.mem_insertionSort, List.mem_dedup] at hn
  cases hclaimed : input.claimedNumbers with
  | none =>
    rw [hclaimed] at hn
    cases hn
  | some numbers =>
    rw [hclaimed] at hn hnumbers
    rw [Bool.not_eq_true', Bool.not_eq_false, Option.all_some, List.all_eq_true] at hnumbers
    exact hnumbers n hn

theorem texts_of_request {answer : List Int × String}
    (h : reconciliationRequest host scope input = .ok answer) :
    boundedImportText scope.actorId 255 1 = true ∧
      input.userRef.all (boundedImportText · 255 0) = true ∧
      input.idempotencyKey.all (boundedImportText · 255 1) = true := by
  have hrange : ∀ value, rangeText value 255 = true → boundedImportText value 255 1 = true := by
    intro value hvalue
    simp only [rangeText, Bool.and_eq_true, decide_eq_true_eq] at hvalue
    obtain ⟨⟨hblank, hnul⟩, hsize⟩ := hvalue
    have hpositive : 1 ≤ value.utf8ByteSize := by
      rw [Nat.one_le_iff_ne_zero]
      intro hzero
      rw [String.utf8ByteSize_eq_zero_iff.mp hzero] at hblank
      exact absurd hblank (by decide)
    simp only [boundedImportText, Bool.and_eq_true, decide_eq_true_eq]
    exact ⟨⟨hnul, hpositive⟩, hsize⟩
  rw [reconciliationRequest] at h
  split_ifs at h with htexts href hnumbers
  simp only [Bool.not_eq_true', Bool.not_eq_false, Bool.and_eq_true] at htexts href
  obtain ⟨⟨hactor, -⟩, hkey⟩ := htexts
  refine ⟨hrange _ hactor, ?_, ?_⟩
  · cases hvalue : input.userRef with
    | none => rfl
    | some value =>
      rw [hvalue] at href
      simp only [Option.all_some, Bool.and_eq_true, decide_eq_true_eq] at href
      simp only [Option.all_some, boundedImportText, Bool.and_eq_true, decide_eq_true_eq]
      exact ⟨⟨href.1, Nat.zero_le _⟩, href.2⟩
  · cases hvalue : input.idempotencyKey with
    | none => rfl
    | some value =>
      rw [hvalue] at hkey
      exact hrange value hkey

end

section

variable {host : Host} {v : NumberingReservation}

variable {consumption : List ConsumptionEntry} {observedAt : Int} {entries : Entries}

theorem project_eq_ok {entries : List ConsumptionEntry}
    (h : projectNumberingConsumption host v entries observedAt = .ok consumption) :
    ∃ fallback, consumption = entries.map fun entry =>
      if entry.status = .available then { entry with status := fallback } else entry := by
  rw [projectNumberingConsumption] at h
  dsimp only at h
  split at h
  · exact ⟨_, (Except.ok.inj h).symm⟩
  · exact ⟨_, (Except.ok.inj h).symm⟩
  · exact ⟨_, (Except.ok.inj h).symm⟩
  · exact ⟨_, (Except.ok.inj h).symm⟩
  · split at h
    · cases h
    · exact ⟨_, (Except.ok.inj h).symm⟩

theorem project_keeps {entries : List ConsumptionEntry}
    (h : projectNumberingConsumption host v entries observedAt = .ok consumption) :
    consumption.map ConsumptionEntry.number = entries.map ConsumptionEntry.number ∧
      ∀ e ∈ consumption, ∃ old ∈ entries, e.finalizedAt = old.finalizedAt := by
  obtain ⟨fallback, rfl⟩ := project_eq_ok h
  refine ⟨?_, ?_⟩
  · rw [List.map_map]
    refine List.map_congr_left fun entry _ => ?_
    dsimp only [Function.comp_apply]
    split_ifs <;> rfl
  · intro e he
    obtain ⟨old, hold, rfl⟩ := List.mem_map.mp he
    refine ⟨old, hold, ?_⟩
    split_ifs <;> rfl

theorem EntriesSound.numbers (h : EntriesSound host v entries) :
    entries.values.map ConsumptionEntry.number = numbersOf v := by
  rw [← h.keys, OrderedMap.values, List.map_map]
  refine List.map_congr_left fun p hp => ?_
  exact h.number p.1 p.2 (mem_entries_iff.mp hp)

def SafeInterval (v : NumberingReservation) : Prop :=
  -(2 ^ 53) < v.startNumber ∧ v.startNumber ≤ v.endNumber ∧ v.endNumber < 2 ^ 53

variable {n : Int} {claims : List Int}

theorem isSafeInteger_of_bounds (hlow : -(2 ^ 53) < n) (hhigh : n < 2 ^ 53) :
    isSafeInteger n = true := by
  rw [isSafeInteger, decide_eq_true_eq]
  omega

theorem SafeInterval.number (h : SafeInterval v) (hin : InInterval v n) : isSafeInteger n = true :=
  isSafeInteger_of_bounds (lt_of_lt_of_le h.1 hin.1) (lt_of_le_of_lt hin.2 h.2.2)

theorem numbers_of_projection (hentries : EntriesSound host v entries)
    (hproject : projectNumberingConsumption host v entries.values observedAt = .ok consumption) :
    consumption.map ConsumptionEntry.number = numbersOf v :=
  (project_keeps hproject).1.trans hentries.numbers

theorem safe_of_projection (hsafe : SafeInterval v)
    (hnumbers : consumption.map ConsumptionEntry.number = numbersOf v) {e : ConsumptionEntry}
    (he : e ∈ consumption) : isSafeInteger e.number = true := by
  refine hsafe.number (mem_numbersOf.mp ?_)
  rw [← hnumbers]
  exact List.mem_map.mpr ⟨e, he, rfl⟩

theorem conforms_of_projection (hsafe : SafeInterval v) (hentries : EntriesSound host v entries)
    (hproject : projectNumberingConsumption host v entries.values observedAt = .ok consumption) :
    (consumption.all fun entry =>
      isSafeInteger entry.number && entry.finalizedAt.all (conformsInstant host)) = true := by
  rw [List.all_eq_true]
  intro e he
  obtain ⟨old, hold, hinstant⟩ := (project_keeps hproject).2 e he
  obtain ⟨n, hn⟩ := mem_values_iff.mp hold
  rw [Bool.and_eq_true]
  refine ⟨safe_of_projection hsafe (numbers_of_projection hentries hproject) he, ?_⟩
  rw [hinstant]
  cases hfinal : old.finalizedAt with
  | none => rfl
  | some instant => exact hentries.finalized n old hn instant hfinal

theorem withinBounds_numbersOf (hsafe : SafeInterval v) :
    withinBounds (numbersOf v) (v.startNumber, v.endNumber) = true := by
  simp only [withinBounds, Bool.and_eq_true, decide_eq_true_eq, head?_numbersOf hsafe.2.1,
    getLast?_numbersOf hsafe.2.1]
  exact ⟨⟨⟨⟨hsafe.number ⟨le_refl _, hsafe.2.1⟩, hsafe.number ⟨hsafe.2.1, le_refl _⟩⟩,
    hsafe.2.1⟩, trivial⟩, trivial⟩

theorem contains_of_claims (hentries : EntriesSound host v entries)
    (hclaims : claims.all entries.has = true) :
    claims.all (numbersOf v).contains = true := by
  rw [List.all_eq_true] at hclaims ⊢
  intro n hn
  obtain ⟨e, he⟩ := Option.isSome_iff_exists.mp (hclaims n hn)
  rw [List.contains_iff_mem, ← hentries.keys]
  exact mem_keys_iff.mpr ⟨e, he⟩

/-- A record that a reconciliation of sound entries stores is accepted by the import. -/
theorem valid_of_reconciliation {scope : Scope} {id now uuid fingerprint : String}
    {input : ReconcileNumberingInput}
    (hdigest : ∀ numbers ref, canonicalPayloadHash (host.reconciliationDigest numbers ref) = true)
    (hnow : conformsInstant host now = true)
    (hrequest : reconciliationRequest host scope input = .ok (claims, fingerprint))
    (htenant : isUuid scope.tenantId = true) (hid : conformsUuid id = true)
    (huuid : conformsUuid uuid = true) (hsafe : SafeInterval v)
    (hentries : EntriesSound host v entries) (hclaims : claims.all entries.has = true)
    (hproject : projectNumberingConsumption host v entries.values observedAt = .ok consumption) :
    validReconciliationEvidence host
      (archivedRow
        { fingerprint := fingerprint
          reconciliationId := uuid
          tenantId := scope.tenantId
          reservationId := id
          actorId := scope.actorId
          createdAt := now
          claimedNumbers := claims
          userRef := input.userRef
          idempotencyKey := input.idempotencyKey
          result := reconciliationResult id v.status consumption claims uuid })
      (some (v.startNumber, v.endNumber)) = true := by
  obtain ⟨hclaimsSafe, hincreasing, hfingerprint⟩ := claims_of_request hrequest
  obtain ⟨hactor, href, hkey⟩ := texts_of_request hrequest
  have hnumbersOf := numbers_of_projection hentries hproject
  have hconsumption := conforms_of_projection hsafe hentries hproject
  have hfiltered : ∀ keep : ConsumptionEntry → Bool,
      ((consumption.filter keep).map ConsumptionEntry.number).all isSafeInteger = true := by
    intro keep
    rw [List.all_eq_true]
    intro n hn
    obtain ⟨e, he, rfl⟩ := List.mem_map.mp hn
    exact safe_of_projection hsafe hnumbersOf (List.mem_filter.mp he).1
  have hnonempty : consumption.isEmpty = false := by
    cases consumption with
    | nil =>
      have hhead := head?_numbersOf hsafe.2.1
      rw [← hnumbersOf] at hhead
      cases hhead
    | cons e rest => rfl
  have hcontains := contains_of_claims hentries hclaims
  have hbounds := withinBounds_numbersOf hsafe
  have hrow : conformsRow host (archivedRow
      { fingerprint := fingerprint
        reconciliationId := uuid
        tenantId := scope.tenantId
        reservationId := id
        actorId := scope.actorId
        createdAt := now
        claimedNumbers := claims
        userRef := input.userRef
        idempotencyKey := input.idempotencyKey
        result := reconciliationResult id v.status consumption claims uuid }) = true := by
    have hprint : (input.idempotencyKey.map fun _ => fingerprint).all canonicalPayloadHash =
        true := by
      cases input.idempotencyKey with
      | none => rfl
      | some given =>
        rw [hfingerprint]
        exact hdigest claims input.userRef
    simp only [conformsRow, archivedRow, reconciliationResult, huuid, conformsUuid_toLower htenant,
      hid, hnow, hprint, hconsumption, hfiltered, Bool.and_self]
  have hpaired : ∀ key : Option String,
      (key.isNone == (key.map fun _ => fingerprint).isNone) = true := by
    intro key
    cases key <;> rfl
  have hsame : ((input.idempotencyKey.map fun _ => fingerprint).all fun digest =>
      digest = host.reconciliationDigest claims input.userRef) = true := by
    cases input.idempotencyKey with
    | none => rfl
    | some given => exact decide_eq_true hfingerprint
  have hadjacent : adjacent (fun before after => after = before + 1) (numbersOf v) = true :=
    adjacent_consecutive _ _
  rw [validReconciliationEvidence, hrow]
  simp only [archivedRow, reconciliationResult, hactor, href, hkey, hclaimsSafe, hincreasing,
    hpaired, hnonempty, hnumbersOf, hadjacent, hcontains, Option.all_some, hbounds, decide_true,
    Bool.not_false, Bool.and_true, Bool.true_and]
  exact hsame

theorem valid_of_bounds {row : ReconciliationsRow} {bounds : Int × Int}
    (h : validReconciliationEvidence host row (some bounds) = true) :
    validReconciliationEvidence host row none = true := by
  simp only [validReconciliationEvidence, Bool.and_eq_true, Option.all_some, Option.all_none,
    and_true] at h ⊢
  tauto

end

/-- Same owner, identity and numbers. -/
structure SameGrant (v v' : NumberingReservation) : Prop where
  tenantId : v'.tenantId = v.tenantId
  reservationId : v'.reservationId = v.reservationId
  startNumber : v'.startNumber = v.startNumber
  endNumber : v'.endNumber = v.endNumber

/-- The numbers that a range can still grant are safe integers. -/
def SafeRange (r : NumberingRange) : Prop := -(2 ^ 53) < r.nextNumber ∧ r.endNumber < 2 ^ 53

/-- What holds of the numbering maps between any two steps. -/
structure StoreSound (host : Host) (s : Store) : Prop where
  /-- Numbers to grant are safe. -/
  ranges : ∀ k r, s.ranges.get? k = some r → SafeRange r
  /-- Reservations are stored under tenant and id. -/
  keyed : ∀ k v, s.reservations.get? k = some v →
    k = key v.tenantId v.reservationId ∧ isUuid v.tenantId = true ∧
      conformsUuid v.reservationId = true
  /-- Granted numbers are safe. -/
  interval : ∀ k v, s.reservations.get? k = some v → SafeInterval v
  entries : ∀ k v, s.reservations.get? k = some v →
    ∃ entries, s.consumption.get? k = some entries ∧ EntriesSound host v entries
  owned : ∀ k entries, s.consumption.get? k = some entries → ∃ v, s.reservations.get? k = some v
  /-- Reconciliation records are accepted by the import, against the bounds of their reservation. -/
  records : ∀ k record, s.reconciliations.get? k = some record →
    ∃ v, s.reservations.get? (key record.tenantId record.reservationId) = some v ∧
      validReconciliationEvidence host (archivedRow record)
        (some (v.startNumber, v.endNumber)) = true

/-- The entry of a number under a reservation key. -/
def entryAt (s : Store) (k : String) (n : Int) : Option ConsumptionEntry :=
  (s.consumption.get? k).bind fun entries => entries.get? n

/-- What a command leaves of the reservations: their grants, and their applied entries exactly. -/
structure Settles (s t : Store) : Prop where
  /-- Reservations keep their grants. -/
  kept : ∀ k v, s.reservations.get? k = some v →
    ∃ v', t.reservations.get? k = some v' ∧ SameGrant v v'
  /-- The same entries are applied. -/
  applied : ∀ k v n e, s.reservations.get? k = some v → e.status = .applied →
    (entryAt t k n = some e ↔ entryAt s k n = some e)

theorem SameGrant.refl (v : NumberingReservation) : SameGrant v v := ⟨rfl, rfl, rfl, rfl⟩

theorem Settles.of_eq {s t : Store} (hreservations : t.reservations = s.reservations)
    (hconsumption : t.consumption = s.consumption) : Settles s t := by
  constructor
  · intro k v hv
    rw [hreservations]
    exact ⟨v, hv, .refl v⟩
  · intro k v n e _ _
    rw [entryAt, entryAt, hconsumption]

theorem storeSound_empty (host : Host) : StoreSound host Store.empty where
  ranges := by intro k r h; cases h
  keyed := by intro k v h; cases h
  interval := by intro k v h; cases h
  entries := by intro k v h; cases h
  owned := by intro k entries h; cases h
  records := by intro k record h; cases h

section

variable {host : Host} {s t : Store} {k : String} {v v' : NumberingReservation}
  {entries entries' : Entries}

/-- The reservation under one key and its entries change; every other one stays. -/
structure Amends (s t : Store) (k : String) (v v' : NumberingReservation)
    (entries entries' : Entries) : Prop where
  stored : s.reservations.get? k = some v
  consumed : s.consumption.get? k = some entries
  reservations : ∀ j, t.reservations.get? j = if k = j then some v' else s.reservations.get? j
  consumption : ∀ j, t.consumption.get? j = if k = j then some entries' else s.consumption.get? j
  same : SameGrant v v'

theorem Amends.kept (h : Amends s t k v v' entries entries') (j : String)
    (w : NumberingReservation) (hw : s.reservations.get? j = some w) :
    ∃ w', t.reservations.get? j = some w' ∧ SameGrant w w' := by
  rw [h.reservations]
  by_cases hj : k = j
  · subst hj
    obtain rfl := Option.some.inj (h.stored.symm.trans hw)
    exact ⟨v', if_pos rfl, h.same⟩
  · exact ⟨w, by rw [if_neg hj, hw], .refl w⟩

theorem Amends.before (h : Amends s t k v v' entries entries') (j : String)
    (w' : NumberingReservation) (hw' : t.reservations.get? j = some w') :
    ∃ w, s.reservations.get? j = some w ∧ SameGrant w w' := by
  rw [h.reservations] at hw'
  by_cases hj : k = j
  · subst hj
    rw [if_pos rfl] at hw'
    cases hw'
    exact ⟨v, h.stored, h.same⟩
  · rw [if_neg hj] at hw'
    exact ⟨w', hw', .refl w'⟩

theorem EntriesSound.congr (h : EntriesSound host v entries) (hsame : SameGrant v v') :
    EntriesSound host v' entries := by
  refine ⟨?_, h.number, h.finalized⟩
  rw [h.keys, numbersOf, numbersOf, hsame.startNumber, hsame.endNumber]

/-- An amendment with sound entries, safe new ranges and accepted new records keeps the store sound.
-/
theorem StoreSound.amend (hs : StoreSound host s) (h : Amends s t k v v' entries entries')
    (hentries : EntriesSound host v entries')
    (hranges : ∀ j r, t.ranges.get? j = some r → SafeRange r)
    (hrecords : ∀ j record, t.reconciliations.get? j = some record →
      s.reconciliations.get? j = some record ∨
        key record.tenantId record.reservationId = k ∧
          validReconciliationEvidence host (archivedRow record)
            (some (v.startNumber, v.endNumber)) = true) : StoreSound host t where
  ranges := hranges
  keyed := by
    intro j w' hw'
    obtain ⟨w, hw, hsame⟩ := h.before j w' hw'
    rw [hsame.tenantId, hsame.reservationId]
    exact hs.keyed j w hw
  interval := by
    intro j w' hw'
    obtain ⟨w, hw, hsame⟩ := h.before j w' hw'
    rw [SafeInterval, hsame.startNumber, hsame.endNumber]
    exact hs.interval j w hw
  entries := by
    intro j w' hw'
    obtain ⟨w, hw, hsame⟩ := h.before j w' hw'
    rw [h.consumption]
    by_cases hj : k = j
    · subst hj
      obtain rfl := Option.some.inj (h.stored.symm.trans hw)
      exact ⟨entries', if_pos rfl, hentries.congr hsame⟩
    · obtain ⟨old, hold, hsound⟩ := hs.entries j w hw
      exact ⟨old, by rw [if_neg hj, hold], hsound.congr hsame⟩
  owned := by
    intro j old hold
    rw [h.consumption] at hold
    by_cases hj : k = j
    · subst hj
      obtain ⟨w', hw', -⟩ := h.kept k v h.stored
      exact ⟨w', hw'⟩
    · rw [if_neg hj] at hold
      obtain ⟨w, hw⟩ := hs.owned j old hold
      obtain ⟨w', hw', -⟩ := h.kept j w hw
      exact ⟨w', hw'⟩
  records := by
    intro j record hrecord
    rcases hrecords j record hrecord with hold | ⟨hkey, hvalid⟩
    · obtain ⟨w, hw, hvalid⟩ := hs.records j record hold
      obtain ⟨w', hw', hsame⟩ := h.kept _ w hw
      refine ⟨w', hw', ?_⟩
      rw [hsame.startNumber, hsame.endNumber]
      exact hvalid
    · obtain ⟨w', hw', hsame⟩ := h.kept k v h.stored
      refine ⟨w', by rw [hkey]; exact hw', ?_⟩
      rw [hsame.startNumber, hsame.endNumber]
      exact hvalid

theorem Amends.settles (h : Amends s t k v v' entries entries')
    (hretires : Retires entries entries') : Settles s t := by
  refine ⟨h.kept, ?_⟩
  intro j w n e _ happ
  rw [entryAt, entryAt, h.consumption]
  by_cases hj : k = j
  · subst hj
    rw [if_pos rfl, h.consumed, Option.bind_some, Option.bind_some]
    exact hretires.applied_iff happ
  · rw [if_neg hj]

section

variable (hv : s.reservations.get? k = some v) (hc : s.consumption.get? k = some entries)
include hv hc

theorem amends_set (hreservations : t.reservations = s.reservations.set k v')
    (hconsumption : t.consumption = s.consumption.set k entries') (hsame : SameGrant v v') :
    Amends s t k v v' entries entries' :=
  ⟨hv, hc, fun j => by rw [hreservations, get?_set],
    fun j => by rw [hconsumption, get?_set], hsame⟩

theorem amends_restate (hreservations : t.reservations = s.reservations.set k v')
    (hconsumption : t.consumption = s.consumption) (hsame : SameGrant v v') :
    Amends s t k v v' entries entries := by
  refine ⟨hv, hc, fun j => by rw [hreservations, get?_set], ?_, hsame⟩
  intro j
  rw [hconsumption]
  split_ifs with hj
  · rw [← hj, hc]
  · rfl

theorem amends_entries (hreservations : t.reservations = s.reservations)
    (hconsumption : t.consumption = s.consumption.set k entries') :
    Amends s t k v v entries entries' := by
  refine ⟨hv, hc, ?_, fun j => by rw [hconsumption, get?_set], .refl v⟩
  intro j
  rw [hreservations]
  split_ifs with hj
  · rw [← hj, hv]
  · rfl

end

end

section

variable {host : Host} {s : Store} {scope : Scope} {id now uuid : String}

structure Preserves (host : Host) (s t : Store) : Prop where
  sound : StoreSound host t
  settles : Settles s t

theorem StoreSound.preserves (hs : StoreSound host s) : Preserves host s s := ⟨hs, .of_eq rfl rfl⟩

variable {v : NumberingReservation}

theorem safe_returnTail (hs : StoreSound host s) (hv : SafeInterval v) (entries : Entries)
    (j : String) (r : NumberingRange) (hr : (returnTail s scope v entries).get? j = some r) :
    SafeRange r := by
  unfold returnTail at hr
  dsimp only at hr
  split at hr
  · rename_i range hrange
    split_ifs at hr
    · rcases get?_set_eq_some.mp hr with ⟨rfl, rfl⟩ | ⟨-, hr⟩
      · have hstart := (highestApplied_spec v entries).2.1
        have hlow := hv.1
        refine ⟨?_, (hs.ranges _ range hrange).2⟩
        dsimp only
        omega
      · exact hs.ranges j r hr
    · exact hs.ranges j r hr
  · exact hs.ranges j r hr

variable {t : Store}

theorem Amends.preserves {k : String} {v' : NumberingReservation} {entries entries' : Entries}
    (h : Amends s t k v v' entries entries') (hs : StoreSound host s)
    (hretires : Retires entries entries') (hranges : ∀ j r, t.ranges.get? j = some r → SafeRange r)
    (hrecords : ∀ j record, t.reconciliations.get? j = some record →
      s.reconciliations.get? j = some record ∨
        key record.tenantId record.reservationId = k ∧
          validReconciliationEvidence host (archivedRow record)
            (some (v.startNumber, v.endNumber)) = true) : Preserves host s t := by
  obtain ⟨stored, hstored, hsound⟩ := hs.entries k v h.stored
  obtain rfl := Option.some.inj (h.consumed.symm.trans hstored)
  exact ⟨hs.amend h (hsound.retires hretires) hranges hrecords, h.settles hretires⟩

section

variable (hs : StoreSound host s)
include hs

theorem preserves_cancelReservation (id : String) (durable : Bool) :
    Preserves host s (cancelReservation s scope id durable).1 := by
  rcases cancelReservation_cases id durable with heq | ⟨v, hv, -, heq | ⟨entries, hc, heq⟩⟩
  · rw [heq]
    exact hs.preserves
  · rw [heq]
    obtain ⟨stored, hstored, -⟩ := hs.entries _ v hv
    exact Amends.preserves (amends_restate hv hstored rfl rfl ⟨rfl, rfl, rfl, rfl⟩) hs
      (.refl stored) hs.ranges fun _ _ h => .inl h
  · rw [heq]
    exact Amends.preserves (amends_set hv hc rfl rfl ⟨rfl, rfl, rfl, rfl⟩) hs
      (retires_retireAvailable entries (by decide))
      (safe_returnTail hs (hs.interval _ v hv) entries) fun _ _ h => .inl h

theorem preserves_transitionReservation (id : String) (target : Transition) (now : String) :
    Preserves host s (transitionReservation host s scope id target now).1 := by
  have hunused : target.unused ≠ .applied := by cases target <;> decide
  rcases transitionReservation_cases host id target with
    heq | ⟨v, hv, -, heq | ⟨entries, hc, heq⟩⟩
  · rw [heq]
    exact hs.preserves
  · rw [heq]
    obtain ⟨stored, hstored, -⟩ := hs.entries _ v hv
    exact Amends.preserves (amends_restate hv hstored rfl rfl ⟨rfl, rfl, rfl, rfl⟩) hs
      (.refl stored) hs.ranges fun _ _ h => .inl h
  · rw [heq]
    exact Amends.preserves (amends_set hv hc rfl rfl ⟨rfl, rfl, rfl, rfl⟩) hs
      (retires_retireAvailable entries hunused) hs.ranges fun _ _ h => .inl h

theorem id_of_key (htenant : isUuid scope.tenantId = true)
    (hv : s.reservations.get? (key scope.tenantId id) = some v) : id = v.reservationId := by
  obtain ⟨hkey, hvTenant, -⟩ := hs.keyed _ v hv
  have hlists : scope.tenantId.toList ++ ':' :: id.toList =
      v.tenantId.toList ++ ':' :: v.reservationId.toList := by
    rw [← toList_key, ← toList_key, hkey]
  exact String.toList_inj.mp (eq_of_notMem_left (colon_notMem_of_isUuid htenant)
    (colon_notMem_of_isUuid hvTenant) hlists).2

theorem preserves_reconcileNumberingReservation
    (hdigest : ∀ numbers ref, canonicalPayloadHash (host.reconciliationDigest numbers ref) = true)
    (htenant : isUuid scope.tenantId = true) (huuid : conformsUuid uuid = true)
    (input : ReconcileNumberingInput) :
    Preserves host s (reconcileNumberingReservation host s scope id input now uuid).1 := by
  rw [reconcileNumberingReservation]
  split
  · exact hs.preserves
  · rename_i observedAt hobserved
    split
    · exact hs.preserves
    · rename_i claims fingerprint hrequest
      dsimp only
      split
      · rename_i v entries hv hc
        obtain ⟨stored, hstored, hsound⟩ := hs.entries _ v hv
        obtain rfl := Option.some.inj (hc.symm.trans hstored)
        split
        · split <;> exact hs.preserves
        · split
          · exact hs.preserves
          · rename_i hclaims
            have hretires : Retires entries (claimEntries v claims entries) :=
              retires_claimEntries claims entries
            have hclaimed := hsound.retires hretires
            split
            · exact Amends.preserves (amends_entries hv hc rfl rfl) hs hretires hs.ranges
                fun _ _ h => .inl h
            · rename_i consumption hproject
              have hhas : claims.all (claimEntries v claims entries).has = true := by
                rw [Bool.not_eq_true, Bool.not_eq_false', List.all_eq_true] at hclaims
                rw [List.all_eq_true]
                intro n hn
                obtain ⟨e, he⟩ := Option.isSome_iff_exists.mp (hclaims n hn)
                have hmem : n ∈ (claimEntries v claims entries).entries.map Prod.fst := by
                  rw [hretires.keys]
                  exact mem_keys_iff.mpr ⟨e, he⟩
                obtain ⟨e', he'⟩ := mem_keys_iff.mp hmem
                exact Option.isSome_iff_exists.mpr ⟨e', he'⟩
              have hconforms : conformsUuid id = true := by
                rw [id_of_key hs htenant hv]
                exact (hs.keyed _ v hv).2.2
              have hvalid := valid_of_reconciliation hdigest
                (Option.isSome_iff_exists.mpr ⟨observedAt, hobserved⟩) hrequest htenant hconforms
                huuid (hs.interval _ v hv) hclaimed hhas hproject
              refine Amends.preserves (amends_entries hv hc rfl rfl) hs hretires hs.ranges ?_
              intro j record hrecord
              rcases get?_set_eq_some.mp hrecord with ⟨rfl, rfl⟩ | ⟨-, hold⟩
              · exact .inr ⟨rfl, hvalid⟩
              · exact .inl hold
      · exact hs.preserves

theorem StoreSound.withRanges (hreservations : t.reservations = s.reservations)
    (hconsumption : t.consumption = s.consumption)
    (hreconciliations : t.reconciliations = s.reconciliations)
    (hranges : ∀ j r, t.ranges.get? j = some r → SafeRange r) : Preserves host s t := by
  refine ⟨⟨hranges, ?_, ?_, ?_, ?_, ?_⟩, .of_eq hreservations hconsumption⟩
  · rw [hreservations]
    exact hs.keyed
  · rw [hreservations]
    exact hs.interval
  · rw [hreservations, hconsumption]
    exact hs.entries
  · rw [hreservations, hconsumption]
    exact hs.owned
  · rw [hreservations, hreconciliations]
    exact hs.records

end

theorem safe_of_rangeCreation {original input : CreateNumberingRangeInput} {fingerprint : String}
    (h : rangeCreation host scope original = .ok (input, fingerprint)) :
    -(2 ^ 53) < input.startNumber ∧ input.endNumber < 2 ^ 53 := by
  have hbounds : ∀ start finish next : Int,
      (isSafeInteger start && isSafeInteger finish && isSafeInteger next) = true →
        -(2 ^ 53) < start ∧ finish < 2 ^ 53 := by
    intro start finish next hsafe
    simp only [isSafeInteger, Bool.and_eq_true, decide_eq_true_eq] at hsafe
    omega
  unfold rangeCreation at h
  split_ifs at h with htext hnumbers
  rw [Bool.or_eq_true, not_or, Bool.not_eq_true', Bool.not_eq_false] at hnumbers
  split at h
  · cases h
  · cases h
    exact hbounds _ _ _ hnumbers.1
  · cases h
    exact hbounds _ _ _ hnumbers.1

theorem preserves_createNumberingRange (hs : StoreSound host s)
    (input : CreateNumberingRangeInput) (now uuid : String) :
    Preserves host s (createNumberingRange host s scope input now uuid).1 := by
  unfold createNumberingRange
  split
  · exact hs.preserves
  · rename_i checked fingerprint hok
    have hsafe := safe_of_rangeCreation hok
    dsimp only
    split
    · split <;> exact hs.preserves
    · split
      · exact hs.preserves
      · split
        · exact hs.preserves
        · refine hs.withRanges rfl rfl rfl ?_
          intro j r hr
          rcases get?_set_eq_some.mp hr with ⟨rfl, rfl⟩ | ⟨-, hr⟩
          · exact hsafe
          · exact hs.ranges j r hr

theorem preserves_cancelNumberingRange (hs : StoreSound host s) (id : String)
    (reason : Option String) (now : String) :
    Preserves host s (cancelNumberingRange host s scope id reason now).1 := by
  rw [cancelNumberingRange]
  split
  · exact hs.preserves
  · split
    · exact hs.preserves
    · split
      · exact hs.preserves
      · rename_i range hrange
        split
        · exact hs.preserves
        · exact hs.preserves
        · split
          · exact hs.preserves
          · refine hs.withRanges rfl rfl rfl ?_
            intro j r hr
            rcases get?_set_eq_some.mp hr with ⟨rfl, rfl⟩ | ⟨-, hr⟩
            · exact hs.ranges _ range hrange
            · exact hs.ranges j r hr

theorem entriesSound_availableEntries (v : NumberingReservation) :
    EntriesSound host v
      (availableEntries v.startNumber (v.endNumber + 1 - v.startNumber).toNat) := by
  have hentries : ∀ count : Nat, (availableEntries v.startNumber count).entries =
      (List.range count).map fun (i : Nat) =>
        (v.startNumber + (i : Int), availableEntry (v.startNumber + (i : Int))) := by
    intro count
    have hloop := OrderedMap.entries_foldl_set
      ((List.range count).map fun (i : Nat) =>
        (v.startNumber + (i : Int), availableEntry (v.startNumber + (i : Int))))
      (OrderedMap.empty : Entries) (by
        rw [OrderedMap.empty, List.nil_append, List.map_map]
        refine List.Nodup.map ?_ List.nodup_range
        intro i j hij
        have hsame : v.startNumber + (i : Int) = v.startNumber + (j : Int) := hij
        omega)
    rw [List.foldl_map] at hloop
    exact hloop
  refine ⟨?_, ?_, ?_⟩
  · rw [hentries, List.map_map]
    rfl
  · intro n e he
    rw [get?_availableEntries] at he
    split_ifs at he
    cases he
    rfl
  · intro n e he instant hinstant
    rw [get?_availableEntries] at he
    split_ifs at he
    cases he
    cases hinstant

theorem preserves_recordGrant (hs : StoreSound host s) {range : NumberingRange} {origin : Origin}
    {keyed : Option (String × String)}
    (hnew : s.reservations.get? (key scope.tenantId v.reservationId) = none)
    (htenant : v.tenantId = scope.tenantId) (htenantUuid : isUuid scope.tenantId = true)
    (huuid : conformsUuid v.reservationId = true) (hsafe : SafeInterval v)
    (hrange : range.endNumber < 2 ^ 53) :
    Preserves host s (recordGrant s scope range v origin keyed) := by
  have hfresh : ∀ j w, s.reservations.get? j = some w → key scope.tenantId v.reservationId ≠ j := by
    rintro j w hw rfl
    rw [hnew] at hw
    cases hw
  have hkept : ∀ j w, s.reservations.get? j = some w →
      (recordGrant s scope range v origin keyed).reservations.get? j = some w := by
    intro j w hw
    refine get?_set_eq_some.mpr (.inr ⟨hfresh j w hw, hw⟩)
  refine ⟨⟨?_, ?_, ?_, ?_, ?_, ?_⟩, ⟨?_, ?_⟩⟩
  · intro j r hr
    rcases get?_set_eq_some.mp hr with ⟨rfl, rfl⟩ | ⟨-, hr⟩
    · have hlow := hsafe.1
      have hle := hsafe.2.1
      refine ⟨?_, hrange⟩
      dsimp only [grantedRange]
      omega
    · exact hs.ranges j r hr
  · intro j w hw
    rcases get?_set_eq_some.mp hw with ⟨rfl, rfl⟩ | ⟨-, hw⟩
    · rw [htenant]
      exact ⟨rfl, htenantUuid, huuid⟩
    · exact hs.keyed j w hw
  · intro j w hw
    rcases get?_set_eq_some.mp hw with ⟨rfl, rfl⟩ | ⟨-, hw⟩
    · exact hsafe
    · exact hs.interval j w hw
  · intro j w hw
    rcases get?_set_eq_some.mp hw with ⟨rfl, rfl⟩ | ⟨hj, hw⟩
    · exact ⟨_, get?_set_self _ _ _, entriesSound_availableEntries v⟩
    · obtain ⟨entries, hc, hsound⟩ := hs.entries j w hw
      exact ⟨entries, get?_set_eq_some.mpr (.inr ⟨hj, hc⟩), hsound⟩
  · intro j entries hc
    rcases get?_set_eq_some.mp hc with ⟨rfl, -⟩ | ⟨-, hc⟩
    · exact ⟨v, get?_set_self _ _ _⟩
    · obtain ⟨w, hw⟩ := hs.owned j entries hc
      exact ⟨w, hkept j w hw⟩
  · intro j record hrecord
    obtain ⟨w, hw, hvalid⟩ := hs.records j record hrecord
    exact ⟨w, hkept _ w hw, hvalid⟩
  · intro j w hw
    exact ⟨w, hkept j w hw, .refl w⟩
  · intro j w n e hw _
    dsimp only [entryAt, recordGrant]
    rw [get?_set_of_ne _ _ (hfresh j w hw)]

theorem StoreSound.fresh (hs : StoreSound host s) {uuid : String}
    (hfresh : freshUuid s uuid = true) (tenantId : String) :
    s.reservations.get? (key tenantId uuid) = none := by
  obtain ⟨huuid, -, hreservations⟩ := freshUuid_spec hfresh
  cases hv : s.reservations.get? (key tenantId uuid) with
  | none => rfl
  | some v =>
    obtain ⟨hkey, -, hid⟩ := hs.keyed _ v hv
    rw [conformsUuid, Bool.and_eq_true] at hid
    exact absurd (key_injective huuid hid.1 hkey).2.symm (hreservations _ v hv)

theorem preserves_allocateReservation (hs : StoreSound host s) (input : ReserveNumberingInput)
    (now defaultValidUntil : String) (origin : Origin) {uuid : String}
    (hfresh : freshUuid s uuid = true) (hsize : 1 ≤ input.requestedSize)
    (htenant : isUuid scope.tenantId = true) (huuid : conformsUuid uuid = true) :
    Preserves host s
      (allocateReservation host s scope input now defaultValidUntil origin uuid).1 := by
  rcases allocateReservation_cases host input defaultValidUntil origin with
    heq | ⟨range, keyed, hrange, -, hcapacity, heq⟩
  · rw [heq]
    exact hs.preserves
  · rw [heq]
    obtain ⟨k, hk⟩ := mem_values_iff.mp hrange
    obtain ⟨hlow, hhigh⟩ := hs.ranges k range hk
    refine preserves_recordGrant hs (hs.fresh hfresh scope.tenantId) rfl htenant huuid ?_ hhigh
    dsimp only [SafeInterval, grantedReservation]
    omega

end

/-- A batch holds the gate of its tenant, so at most one item of a tenant is in flight. -/
def gatedStep (host : Host) (s : SyncState) : Label → Option SyncState
  | .cover item =>
    if s.inFlight.any fun f => f.item.tenantId = item.tenantId then none
    else step host s (.cover item)
  | l => step host s l

/-- The tenant of a call and the UUID it makes, where it makes one that is stored. -/
def Command.identities : Command → String × Option String
  | .createNumberingRange scope _ _ _ => (scope.tenantId, none)
  | .cancelNumberingRange scope _ _ _ => (scope.tenantId, none)
  | .reserveNumbering scope _ _ _ uuid => (scope.tenantId, some uuid)
  | .reserveDurableNumbering scope _ _ _ uuid => (scope.tenantId, some uuid)
  | .cancelNumberingReservation scope _ => (scope.tenantId, none)
  | .cancelDurableNumberingReservation scope _ => (scope.tenantId, none)
  | .blockNumberingReservation scope _ _ => (scope.tenantId, none)
  | .closeNumberingReservation scope _ _ => (scope.tenantId, none)
  | .settleNumberingReservation scope _ _ => (scope.tenantId, none)
  | .reconcileNumberingReservation scope _ _ _ uuid => (scope.tenantId, some uuid)

/-- Tenants are UUIDs, `randomUUID()` gives lower case, and the clock gives instants. -/
def Supplied (host : Host) : Label → Prop
  | .command c => isUuid (Command.identities c).1 = true ∧
      (Command.identities c).2.all conformsUuid = true
  | .cover item => isUuid item.tenantId = true
  | .finish _ _ _ now => conformsInstant host now = true

instance (host : Host) : (l : Label) → Decidable (Supplied host l)
  | .command _ => inferInstanceAs (Decidable (_ ∧ _))
  | .cover _ => inferInstanceAs (Decidable (_ = _))
  | .finish .. => inferInstanceAs (Decidable (_ = _))

variable {host : Host}

variable {s : Store} {f : Flight} {now : String}

theorem preserves_exec (hs : StoreSound host s)
    (hdigest : ∀ numbers ref, canonicalPayloadHash (host.reconciliationDigest numbers ref) = true)
    (c : Command) (henabled : c.enabled s = true) (hsupplied : Supplied host (.command c)) :
    Preserves host s (c.exec host s) := by
  obtain ⟨htenant, huuid⟩ := hsupplied
  cases c with
  | createNumberingRange scope input now uuid => exact preserves_createNumberingRange hs input now uuid
  | cancelNumberingRange scope id reason now => exact preserves_cancelNumberingRange hs id reason now
  | reserveNumbering scope input now defaultValidUntil uuid =>
    simp only [Command.enabled, Bool.and_eq_true, decide_eq_true_eq] at henabled
    exact preserves_allocateReservation hs input now defaultValidUntil .e6 henabled.1 henabled.2
      htenant huuid
  | reserveDurableNumbering scope input now defaultValidUntil uuid =>
    simp only [Command.enabled, Bool.and_eq_true, decide_eq_true_eq] at henabled
    exact preserves_allocateReservation hs input now defaultValidUntil .ctg9 henabled.1 henabled.2
      htenant huuid
  | cancelNumberingReservation scope id => exact preserves_cancelReservation hs id false
  | cancelDurableNumberingReservation scope id => exact preserves_cancelReservation hs id true
  | blockNumberingReservation scope id now =>
    exact preserves_transitionReservation hs id .blocked now
  | closeNumberingReservation scope id now =>
    exact preserves_transitionReservation hs id .consumed now
  | settleNumberingReservation scope id now =>
    exact preserves_transitionReservation hs id .consumed now
  | reconcileNumberingReservation scope id input now uuid =>
    exact preserves_reconcileNumberingReservation hs hdigest htenant huuid input

def FlightSound (s : Store) (f : Flight) : Prop :=
  ∀ k n, f.covering = some k → f.item.reservedNumber = some n →
    (∃ v, s.reservations.get? k = some v ∧ v.tenantId = f.item.tenantId ∧ InInterval v n) ∧
      ∀ e, entryAt s k n = some e → e.status ≠ .applied

/-- What holds of the store and the items in flight. -/
structure GatedInvariant (host : Host) (s : SyncState) : Prop where
  sound : StoreSound host s.store
  gate : (s.inFlight.map fun f => f.item.tenantId).Nodup
  /-- Items in flight are covered. -/
  flights : ∀ f ∈ s.inFlight, FlightSound s.store f

theorem Settles.flight {t : Store} (h : Settles s t) (hf : FlightSound s f) : FlightSound t f := by
  intro k n hk hn
  obtain ⟨⟨v, hv, htenant, hin⟩, hopen⟩ := hf k n hk hn
  obtain ⟨v', hv', hsame⟩ := h.kept k v hv
  refine ⟨⟨v', hv', hsame.tenantId.trans htenant, ?_⟩, ?_⟩
  · rw [InInterval, hsame.startNumber, hsame.endNumber]
    exact hin
  · intro e he happ
    exact hopen e ((h.applied k v n e hv happ).mp he) happ

theorem covered_flight (hs : StoreSound host s) {item : NumberedItem} {k : String}
    (htenant : isUuid item.tenantId = true) (h : coveringReservation host s item = .ok (some k)) :
    FlightSound s ⟨item, some k⟩ := by
  rw [coveringReservation] at h
  split at h
  · cases h
  · rename_i n hn
    split at h
    · cases h
    · rename_i k' v hfilter
      split_ifs at h with happlied hopen
      cases h
      have hmem : (k, v) ∈ [(k, v)] := .head _
      rw [← hfilter, List.mem_filter] at hmem
      obtain ⟨hstored, hcovers⟩ := hmem
      have hv : s.reservations.get? k = some v := mem_entries_iff.mp hstored
      simp only [covers, Bool.and_eq_true, decide_eq_true_eq] at hcovers
      obtain ⟨⟨⟨⟨⟨⟨⟨hstarts, -⟩, -⟩, -⟩, hstart⟩, hend⟩, -⟩, -⟩ := hcovers
      obtain ⟨hkey, hvTenant, -⟩ := hs.keyed k v hv
      have hown : v.tenantId = item.tenantId := by
        rw [startsWith, List.isPrefixOf_iff_prefix] at hstarts
        obtain ⟨rest, hrest⟩ := hstarts
        have hlists : item.tenantId.toList ++ ':' :: rest =
            v.tenantId.toList ++ ':' :: v.reservationId.toList := by
          rw [← toList_key, ← hkey, ← hrest, String.toList_append, List.append_assoc]
          rfl
        exact (String.toList_inj.mp (eq_of_notMem_left (colon_notMem_of_isUuid htenant)
          (colon_notMem_of_isUuid hvTenant) hlists).1).symm
      intro k' n' hk' hn'
      cases hk'
      obtain rfl := Option.some.inj (hn.symm.trans hn')
      refine ⟨⟨v, hv, hown, hstart, hend⟩, ?_⟩
      intro e he happ
      refine happlied ?_
      obtain ⟨entries, hc, hget⟩ := Option.bind_eq_some_iff.mp he
      exact entryStatus_eq_applied hc hget happ
    · cases h

theorem recordConsumption_cases (s : Store) (covering : Option String) (item : NumberedItem)
    (status : ItemStatus) (serverEntityId : Option String) (now : String) :
    (recordConsumption s covering item status serverEntityId now).1 = s ∨
      ∃ k n entity entries, covering = some k ∧ item.reservedNumber = some n ∧
        s.consumption.get? k = some entries ∧
        (recordConsumption s covering item status serverEntityId now).1 =
          { s with
            consumption := s.consumption.set k
              (entries.set n (appliedEntry n (entries.get? n) entity now)) } := by
  unfold recordConsumption
  split
  · rename_i k entity n hn
    split
    · split
      · exact .inl rfl
      · rename_i entries hc
        exact .inr ⟨k, n, entity, entries, rfl, hn, hc, rfl⟩
    · exact .inl rfl
  · exact .inl rfl

theorem EntriesSound.apply {v : NumberingReservation} {entries : Entries}
    (h : EntriesSound host v entries) {n : Int} (hin : InInterval v n) (entity : String)
    (hnow : conformsInstant host now = true) :
    EntriesSound host v (entries.set n (appliedEntry n (entries.get? n) entity now)) := by
  obtain ⟨old, hold⟩ : ∃ e, entries.get? n = some e := by
    rw [← mem_keys_iff, h.keys, mem_numbersOf]
    exact hin
  rw [hold]
  refine ⟨(keys_set hold).trans h.keys, ?_, ?_⟩
  · intro m e he
    rcases get?_set_eq_some.mp he with ⟨rfl, rfl⟩ | ⟨-, he⟩
    · exact h.number n old hold
    · exact h.number m e he
  · intro m e he instant hinstant
    rcases get?_set_eq_some.mp he with ⟨rfl, rfl⟩ | ⟨-, he⟩
    · obtain rfl := Option.some.inj hinstant
      exact hnow
    · exact h.finalized m e he instant hinstant

theorem recordConsumption_spec (hs : StoreSound host s) (hf : FlightSound s f) (status : ItemStatus)
    (serverEntityId : Option String) (hnow : conformsInstant host now = true) :
    StoreSound host (recordConsumption s f.covering f.item status serverEntityId now).1 ∧
      (recordConsumption s f.covering f.item status serverEntityId now).1.reservations =
        s.reservations ∧
      ∀ k n, ¬ (f.covering = some k ∧ f.item.reservedNumber = some n) →
        entryAt (recordConsumption s f.covering f.item status serverEntityId now).1 k n =
          entryAt s k n := by
  rcases recordConsumption_cases s f.covering f.item status serverEntityId now with
    heq | ⟨k, n, entity, entries, hk, hn, hc, heq⟩
  · rw [heq]
    exact ⟨hs, rfl, fun _ _ _ => rfl⟩
  · rw [heq]
    obtain ⟨⟨v, hv, -, hin⟩, -⟩ := hf k n hk hn
    obtain ⟨stored, hstored, hsound⟩ := hs.entries k v hv
    obtain rfl := Option.some.inj (hc.symm.trans hstored)
    refine ⟨StoreSound.amend hs (amends_entries hv hc rfl rfl) (hsound.apply hin entity hnow)
      hs.ranges fun _ _ h => .inl h, rfl, ?_⟩
    intro j m hother
    dsimp only [entryAt]
    rw [get?_set]
    split_ifs with hj
    · subst hj
      have hm : n ≠ m := by
        rintro rfl
        exact hother ⟨hk, hn⟩
      rw [hc, Option.bind_some, Option.bind_some, get?_set_of_ne _ _ hm]
    · rfl

theorem flight_of_finish (hs : StoreSound host s) {g : Flight} (hf : FlightSound s f)
    (hg : FlightSound s g) (hne : g.item.tenantId ≠ f.item.tenantId) (status : ItemStatus)
    (serverEntityId : Option String) (hnow : conformsInstant host now = true) :
    FlightSound (recordConsumption s f.covering f.item status serverEntityId now).1 g := by
  obtain ⟨-, hreservations, hentries⟩ := recordConsumption_spec hs hf status serverEntityId hnow
  intro k n hk hn
  obtain ⟨⟨v, hv, htenant, hin⟩, hopen⟩ := hg k n hk hn
  refine ⟨⟨v, by rw [hreservations]; exact hv, htenant, hin⟩, ?_⟩
  intro e he
  rw [hentries k n ?_] at he
  · exact hopen e he
  · rintro ⟨hk', hn'⟩
    obtain ⟨⟨w, hw, howner, -⟩, -⟩ := hf k n hk' hn'
    obtain rfl := Option.some.inj (hv.symm.trans hw)
    exact hne (htenant.symm.trans howner)

theorem gatedStep_spec
    (hdigest : ∀ numbers ref, canonicalPayloadHash (host.reconciliationDigest numbers ref) = true)
    (s : SyncState) (l : Label) (t : SyncState) (hs : GatedInvariant host s)
    (hsupplied : Supplied host l) (h : gatedStep host s l = some t) :
    GatedInvariant host t ∧ ∀ k n e, entryAt s.store k n = some e → e.status = .applied →
      entryAt t.store k n = some e := by
  cases l with
  | command c =>
    change step host s (.command c) = some t at h
    rw [step] at h
    split_ifs at h with henabled
    cases h
    have hpreserves := preserves_exec hs.sound hdigest c henabled hsupplied
    refine ⟨⟨hpreserves.sound, hs.gate,
      fun f hf => hpreserves.settles.flight (hs.flights f hf)⟩, ?_⟩
    intro k n e he happ
    obtain ⟨entries, hc, -⟩ := Option.bind_eq_some_iff.mp he
    obtain ⟨v, hv⟩ := hs.sound.owned k entries hc
    exact (hpreserves.settles.applied k v n e hv happ).mpr he
  | cover item =>
    rw [gatedStep] at h
    split_ifs at h with hbusy
    rw [step] at h
    split at h
    · rename_i covering hcovering
      cases h
      refine ⟨⟨hs.sound, ?_, ?_⟩, fun _ _ _ he _ => he⟩
      · rw [List.map_append, List.map_cons, List.map_nil, List.nodup_append]
        refine ⟨hs.gate, List.nodup_singleton _, ?_⟩
        rintro tenant htenant other hother rfl
        obtain rfl := List.mem_singleton.mp hother
        obtain ⟨f, hf, hsame⟩ := List.mem_map.mp htenant
        exact hbusy (List.any_eq_true.mpr ⟨f, hf, decide_eq_true hsame⟩)
      · intro f hf
        rcases mem_concat_iff.mp hf with hf | rfl
        · exact hs.flights f hf
        · cases covering with
          | none =>
            intro k n hk
            cases hk
          | some k => exact covered_flight hs.sound hsupplied hcovering
    · cases h
      exact ⟨hs, fun _ _ _ he _ => he⟩
  | finish index status serverEntityId now =>
    change step host s (.finish index status serverEntityId now) = some t at h
    rw [step] at h
    split at h
    · rename_i f hf
      cases h
      have hmem : f ∈ s.inFlight := List.mem_of_getElem? hf
      have hflight := hs.flights f hmem
      obtain ⟨hsound, -, hentries⟩ :=
        recordConsumption_spec hs.sound hflight status serverEntityId hsupplied
      refine ⟨⟨hsound, ?_, ?_⟩, ?_⟩
      · exact hs.gate.sublist ((List.eraseIdx_sublist _ _).map _)
      · intro g hg
        refine flight_of_finish hs.sound hflight (hs.flights g (List.mem_of_mem_eraseIdx hg)) ?_
          status serverEntityId hsupplied
        obtain ⟨hindex, hget⟩ := List.getElem?_eq_some_iff.mp hf
        have hperm : (f :: s.inFlight.eraseIdx index).Perm s.inFlight := by
          rw [← hget]
          exact List.getElem_cons_eraseIdx_perm hindex
        have hnodup := (hperm.map fun f => f.item.tenantId).nodup_iff.mpr hs.gate
        rw [List.map_cons, List.nodup_cons] at hnodup
        intro hsame
        exact hnodup.1 (List.mem_map.mpr ⟨g, hg, hsame⟩)
      · intro k n e he happ
        dsimp only
        rw [hentries k n ?_]
        · exact he
        · rintro ⟨hk, hn⟩
          exact (hflight k n hk hn).2 e he happ
    · cases h

/-- An applied entry stays as it is, and every stored reconciliation record is accepted by the
import's check, alone and against the bounds of its reservation. -/
theorem applied_entries_stay (host : Host)
    (hdigest : ∀ numbers ref, canonicalPayloadHash (host.reconciliationDigest numbers ref) = true)
    (before after : List Label) (s t : SyncState)
    (hbefore : ∀ l ∈ before, Supplied host l) (hafter : ∀ l ∈ after, Supplied host l)
    (hs : run (gatedStep host) SyncState.initial before = some s)
    (ht : run (gatedStep host) s after = some t) :
    (∀ k n e, entryAt s.store k n = some e → e.status = .applied → entryAt t.store k n = some e) ∧
      ∀ k record, t.store.reconciliations.get? k = some record →
        validReconciliationEvidence host (archivedRow record) none = true ∧
        ∃ v, t.store.reservations.get? (key record.tenantId record.reservationId) = some v ∧
          validReconciliationEvidence host (archivedRow record)
            (some (v.startNumber, v.endNumber)) = true := by
  have hinitial : GatedInvariant host SyncState.initial :=
    ⟨storeSound_empty host, List.nodup_nil, fun f hf => by cases hf⟩
  have hstep : ∀ u l w, GatedInvariant host u → Supplied host l → gatedStep host u l = some w →
      GatedInvariant host w :=
    fun u l w hu hl h => (gatedStep_spec hdigest u l w hu hl h).1
  have hsound : GatedInvariant host s :=
    run_invariant_of_meets hstep hinitial (runMeets_of_forall_mem hbefore) hs
  have hlast : GatedInvariant host t :=
    run_invariant_of_meets hstep hsound (runMeets_of_forall_mem hafter) ht
  refine ⟨?_, ?_⟩
  · intro k n e he happ
    have hkept : ∀ u l w, (GatedInvariant host u ∧ entryAt u.store k n = some e) →
        Supplied host l → gatedStep host u l = some w →
        GatedInvariant host w ∧ entryAt w.store k n = some e := by
      intro u l w hu hl h
      obtain ⟨hw, happlied⟩ := gatedStep_spec hdigest u l w hu.1 hl h
      exact ⟨hw, happlied k n e hu.2 happ⟩
    exact (run_invariant_of_meets hkept ⟨hsound, he⟩ (runMeets_of_forall_mem hafter) ht).2
  · intro k record hrecord
    obtain ⟨v, hv, hvalid⟩ := hlast.sound.records k record hrecord
    exact ⟨valid_of_bounds hvalid, v, hv, hvalid⟩

/-- The sample platform with a digest of the import's form. -/
def digestHost : Host :=
  { sampleHost with
    reconciliationDigest := fun _ _ => "sha256:" ++ String.ofList (List.replicate 64 'a') }

def tenantUuid : String := "018f0000-0000-7000-8000-000000000001"

def tenantScope : Scope := ⟨tenantUuid, "agent", none, true⟩

def appliedRun : List Label :=
  [.command (.createNumberingRange tenantScope ⟨"unit", "order", "A", 1, 10, none, none⟩
      "2026-01-01T00:00:00.000Z" "00000000-0000-4000-8000-000000000001"),
    .command (.reserveDurableNumbering tenantScope
      ⟨"unit", "d1", none, "order", 3, none, none, none, none, none⟩
      "2026-01-01T00:00:00.000Z" "2026-01-02T00:00:00.000Z" firstUuid),
    .cover ⟨tenantUuid, "d1", "unit", "order", some 1, none, "2026-01-01T00:00:00.000Z"⟩,
    .finish 0 .applied (some "entity") "2026-01-01T00:00:00.000Z"]

def reconciledRun : List Label :=
  [.command (.reconcileNumberingReservation tenantScope firstUuid
      ⟨some "request", some [2, 1], none⟩ "2026-01-01T00:00:00.000Z" secondUuid),
    .command (.blockNumberingReservation tenantScope firstUuid "2026-01-01T00:00:00.000Z"),
    .command (.closeNumberingReservation tenantScope firstUuid "2026-01-01T00:00:00.000Z")]

theorem applied_entries_stay_reconciledRun :
    ∃ s t, run (gatedStep digestHost) SyncState.initial appliedRun = some s ∧
      run (gatedStep digestHost) s reconciledRun = some t ∧
      (entryAt s.store (key tenantUuid firstUuid) 1).map (·.status) = some .applied ∧
      entryAt t.store (key tenantUuid firstUuid) 1 = entryAt s.store (key tenantUuid firstUuid) 1 ∧
      t.store.reconciliations.entries.length = 1 ∧
      ∀ k record, t.store.reconciliations.get? k = some record →
        validReconciliationEvidence digestHost (archivedRow record) none = true := by
  have hdigest : ∀ numbers ref,
      canonicalPayloadHash (digestHost.reconciliationDigest numbers ref) = true := by
    intro numbers ref
    change canonicalPayloadHash ("sha256:" ++ String.ofList (List.replicate 64 'a')) = true
    decide +kernel
  have hfirst : (run (gatedStep digestHost) SyncState.initial appliedRun).bind (fun s =>
      (entryAt s.store (key tenantUuid firstUuid) 1).map (·.status)) = some .applied := by
    decide +kernel
  have hsecond : ((run (gatedStep digestHost) SyncState.initial appliedRun).bind fun s =>
      run (gatedStep digestHost) s reconciledRun).map (fun t => t.store.reconciliations.entries.length) =
        some 1 := by
    decide +kernel
  obtain ⟨s, hs, hstatus⟩ := Option.bind_eq_some_iff.mp hfirst
  rw [hs, Option.bind_some] at hsecond
  obtain ⟨t, ht, hrecord⟩ := Option.map_eq_some_iff.mp hsecond
  obtain ⟨e, he, happ⟩ := Option.map_eq_some_iff.mp hstatus
  obtain ⟨hstay, hrecords⟩ := applied_entries_stay digestHost hdigest appliedRun reconciledRun s t
    (by decide) (by decide) hs ht
  refine ⟨s, t, hs, ht, hstatus, ?_, hrecord, fun k record h => (hrecords k record h).1⟩
  rw [he]
  exact hstay _ _ e he happ

end Stynx.OfflineSyncEvidence
