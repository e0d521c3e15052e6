import Stynx.CallTables
import Stynx.OrderedMap
import Stynx.TransitionRuns

/-!
# Numbers on a mobile device

`packages/mobile-runtime/src/runtime.ts`: a device asks the backend for an
interval of numbers and stores the reservation. Each draft takes the next number
of a usable one: `consumeReservationNumber` lists the stored reservations,
chooses one and puts it back with its cursor moved on.
-/

namespace Stynx.MobileNumbering

open TransitionRuns CallTables OrderedMap

inductive ReservationStatus where
  | reserved
  /-- Its last number has been taken. -/
  | consumed
  | expired
  | cancelled
  deriving DecidableEq

structure MobileNumberingReservation where
  reservationId : String
  rangeId : String
  entityType : String
  series : String
  startNumber : Nat
  endNumber : Nat
  nextNumber : Nat
  /-- `Date.parse` of its end of validity. -/
  validUntil : Option Int
  status : ReservationStatus
  deriving DecidableEq

/-- The fields of `MobileSessionContext` that a draft takes over. -/
structure MobileSessionContext where
  tenantId : String
  orgUnitId : String
  agentId : String
  deviceId : String
  shiftId : String
  deriving DecidableEq

/-- The fields of `MobileNormativePackageSnapshot` that a draft takes over. -/
structure MobileNormativePackageSnapshot where
  packageId : String
  packageVersion : String
  deriving DecidableEq

/-- The fields of `CreateMobileDraftInput` that choose a number. -/
structure CreateMobileDraftInput where
  entityType : String
  /-- A number that has to be the next one; zero counts as absent. -/
  reservedNumber : Option Nat := none

/-- `MobileEntityDraft` as `createDraft` makes it; its status is `draft`. -/
structure MobileEntityDraft where
  localId : String
  entityType : String
  session : MobileSessionContext
  reservedNumber : Nat
  reservationId : String
  idempotencyKey : String
  normativePackage : MobileNormativePackageSnapshot
  localContentHash : String
  createdAt : String
  deriving DecidableEq

def MobileEntityDraft.number (draft : MobileEntityDraft) : String × Nat :=
  (draft.reservationId, draft.reservedNumber)

/-- `Date.parse(validUntil) > Date.parse(now)`; an invalid date compares as false. -/
def isAfter (validUntil now : Option Int) : Bool :=
  match validUntil, now with
  | some limit, some time => time < limit
  | _, _ => false

/-- Whether a draft may take the next number of a reservation at a time. -/
def usable (input : CreateMobileDraftInput) (now : Option Int)
    (candidate : MobileNumberingReservation) : Bool :=
  candidate.status == .reserved && candidate.entityType == input.entityType &&
    isAfter candidate.validUntil now && candidate.nextNumber ≤ candidate.endNumber &&
    match input.reservedNumber with
    | none => true
    | some number => number == 0 || candidate.nextNumber == number

/-- The reservation after its next number has been taken. -/
def consumed (reservation : MobileNumberingReservation) : MobileNumberingReservation :=
  { reservation with
    nextNumber := reservation.nextNumber + 1
    status := if reservation.endNumber ≤ reservation.nextNumber then .consumed else .reserved }

/-- How far a call of `createDraft` has come: the store call that it makes next. -/
inductive Phase where
  | session
  /-- `get` of the normative package. -/
  | package (session : MobileSessionContext)
  | list (session : MobileSessionContext) (package : MobileNormativePackageSnapshot)
  /-- `put` of the consumed reservation. -/
  | consume (session : MobileSessionContext) (package : MobileNormativePackageSnapshot)
      (reservation : MobileNumberingReservation)
  | draft (session : MobileSessionContext) (package : MobileNormativePackageSnapshot)
      (reservation : MobileNumberingReservation)
  /-- It has returned or thrown. -/
  | ended
  deriving DecidableEq

/-- A call of `createDraft`. -/
structure Call where
  input : CreateMobileDraftInput
  phase : Phase

/-- The device: its store, the calls in progress, and what has happened so far. -/
structure Runtime where
  session : Option MobileSessionContext
  package : Option MobileNormativePackageSnapshot
  reservations : OrderedMap String MobileNumberingReservation
  /-- The calls of `createDraft`. -/
  calls : List Call
  drafts : List MobileEntityDraft
  /-- Each cursor that has been stored, with its reservation. -/
  cursors : List (String × Nat)

/-- What happens on the device. -/
inductive Label where
  | createDraft (input : CreateMobileDraftInput)
  | readSession (index : Nat)
  /-- A call reads the normative package. -/
  | readPackage (index : Nat)
  /-- A call lists the reservations and chooses one by the clock `now`. -/
  | listReservations (index : Nat) (listed : List MobileNumberingReservation)
      (now : MobileNumberingReservation → Option Int)
  /-- A call puts its reservation back. -/
  | putReservation (index : Nat)
  /-- A call puts its draft, with what the ports for identifiers, hashes and time answer. -/
  | putDraft (index : Nat) (localId idempotencyKey localContentHash createdAt : String)
  /-- The store call of a call fails. -/
  | fail (index : Nat)
  /-- `reserveNumbering` puts the backend's answer. -/
  | reserveNumbering (entityType : String) (reservation : MobileNumberingReservation)
  | bootstrapSession (session : MobileSessionContext)
  | installPackage (package : MobileNormativePackageSnapshot)
  | applyRemoteWipe

def putRecord (s : Runtime) (reservation : MobileNumberingReservation) : Runtime :=
  { s with
    reservations := s.reservations.set reservation.reservationId reservation
    cursors := s.cursors ++ [(reservation.reservationId, reservation.nextNumber)] }

def callTo (s : Runtime) (index : Nat) (call : Call) (phase : Phase) : Runtime :=
  { s with calls := s.calls.set index { call with phase := phase } }

/-- `consumeReservationNumber` up to its `put`: the call ends when no reservation is usable. -/
def chosen (input : CreateMobileDraftInput) (listed : List MobileNumberingReservation)
    (now : MobileNumberingReservation → Option Int) (session : MobileSessionContext)
    (package : MobileNormativePackageSnapshot) : Phase :=
  match listed.find? fun candidate => usable input (now candidate) candidate with
  | some reservation => .consume session package reservation
  | none => .ended

def callStep (s : Runtime) (index : Nat) (call : Call) : Label → Option Runtime
  | .readSession _ =>
    match call.phase with
    | .session =>
      match s.session with
      | some session => some (callTo s index call (.package session))
      | none => some (callTo s index call .ended)
    | _ => none
  | .readPackage _ =>
    match call.phase with
    | .package session =>
      match s.package with
      | some package => some (callTo s index call (.list session package))
      | none => some (callTo s index call .ended)
    | _ => none
  | .listReservations _ listed now =>
    match call.phase with
    | .list session package =>
      -- the store may list its records in any order
      if listed.Perm s.reservations.values then
        some (callTo s index call (chosen call.input listed now session package))
      else none
    | _ => none
  | .putReservation _ =>
    match call.phase with
    | .consume session package reservation =>
      some (callTo (putRecord s (consumed reservation)) index call
        (.draft session package reservation))
    | _ => none
  | .putDraft _ localId idempotencyKey localContentHash createdAt =>
    match call.phase with
    | .draft session package reservation =>
      some { callTo s index call .ended with
        drafts := s.drafts ++ [{
          localId, entityType := call.input.entityType, session
          reservedNumber := reservation.nextNumber, reservationId := reservation.reservationId
          idempotencyKey, normativePackage := package, localContentHash, createdAt }] }
    | _ => none
  | .fail _ => if call.phase = .ended then none else some (callTo s index call .ended)
  | _ => none

def Label.call : Label → Option Nat
  | .readSession index => some index
  | .readPackage index => some index
  | .listReservations index _ _ => some index
  | .putReservation index => some index
  | .putDraft index _ _ _ _ => some index
  | .fail index => some index
  | _ => none

def step (s : Runtime) (label : Label) : Option Runtime :=
  match label.call with
  | some index => s.calls[index]?.bind fun call => callStep s index call label
  | none =>
    match label with
    | .createDraft input => some { s with calls := s.calls ++ [⟨input, .session⟩] }
    | .reserveNumbering entityType reservation =>
      if reservation.entityType ≠ entityType then some s else some (putRecord s reservation)
    | .bootstrapSession session => some { s with session := some session }
    | .installPackage package => some { s with package := some package }
    | .applyRemoteWipe =>
      some { s with session := none, package := none, reservations := .empty }
    | _ => none

/-- A device that starts with some store: each reservation under its identifier. -/
structure Store where
  session : Option MobileSessionContext := none
  package : Option MobileNormativePackageSnapshot := none
  reservations : OrderedMap String MobileNumberingReservation := .empty
  /-- Each is stored under its own identifier. -/
  keyed : ∀ entry ∈ reservations.entries, entry.2.reservationId = entry.1

/-- The device before its first call. -/
def start (store : Store) : Runtime where
  session := store.session
  package := store.package
  reservations := store.reservations
  calls := []
  drafts := []
  cursors := store.reservations.entries.map fun entry => (entry.1, entry.2.nextNumber)

/-- A reservation is put back only while the store still holds it as the call has read it. -/
def PutsWhatItRead (s : Runtime) (label : Label) : Prop :=
  match label with
  | .putReservation index =>
    match (s.calls[index]?).map Call.phase with
    | some (.consume _ _ reservation) =>
      s.reservations.get? reservation.reservationId = some reservation
    | _ => True
  | _ => True

/-- The backend grants reservations under identifiers that the device has not seen. -/
def GrantsFresh (s : Runtime) (label : Label) : Prop :=
  match label with
  | .reserveNumbering _ reservation =>
    ∀ cursor ∈ s.cursors, cursor.1 ≠ reservation.reservationId
  | _ => True

/-- The cursor of an answer is not behind one that has been stored for its reservation. -/
def AnswersUpToDate (s : Runtime) (label : Label) : Prop :=
  match label with
  | .reserveNumbering _ reservation =>
    ∀ cursor ∈ s.cursors, cursor.1 = reservation.reservationId → cursor.2 ≤ reservation.nextNumber
  | _ => True

/-- Nothing else happens while a call is in progress. -/
def Sequential (s : Runtime) (label : Label) : Prop :=
  label.call = none → ∀ call ∈ s.calls, call.phase = .ended

instance (s : Runtime) (label : Label) : Decidable (PutsWhatItRead s label) := by
  unfold PutsWhatItRead
  split
  · split <;> infer_instance
  · infer_instance

instance (s : Runtime) (label : Label) : Decidable (GrantsFresh s label) := by
  unfold GrantsFresh
  split <;> infer_instance

instance (s : Runtime) (label : Label) : Decidable (AnswersUpToDate s label) := by
  unfold AnswersUpToDate
  split <;> infer_instance

instance (s : Runtime) (label : Label) : Decidable (Sequential s label) :=
  inferInstanceAs (Decidable (_ → _))

/-- The number that a call has taken and not yet given to its draft. -/
def Call.holds (call : Call) : Option (String × Nat) :=
  match call.phase with
  | .draft _ _ reservation => some (reservation.reservationId, reservation.nextNumber)
  | _ => none

/-- What a step can do to reservations, numbers and calls. -/
inductive Effect (s : Runtime) : Label → Runtime → Prop where
  /-- A call goes on or ends without a number. -/
  | moved (label : Label) (index : Nat) (call : Call) (phase : Phase)
      (own : label.call = some index) (called : s.calls[index]? = some call)
      (active : call.phase ≠ .ended) (free : Call.holds { call with phase := phase } = none)
      (read : ∀ session package reservation, phase = .consume session package reservation →
        reservation ∈ s.reservations.values) :
      Effect s label (callTo s index call phase)
  /-- A call takes a number. -/
  | took (index : Nat) (call : Call) (session : MobileSessionContext)
      (package : MobileNormativePackageSnapshot) (reservation : MobileNumberingReservation)
      (called : s.calls[index]? = some call)
      (phase : call.phase = .consume session package reservation) :
      Effect s (.putReservation index) (callTo (putRecord s (consumed reservation)) index call
        (.draft session package reservation))
  /-- A call gives its number to its draft. -/
  | drafted (label : Label) (index : Nat) (call : Call) (draft : MobileEntityDraft)
      (own : label.call = some index) (called : s.calls[index]? = some call) (number : call.holds = some draft.number) :
      Effect s label { callTo s index call .ended with drafts := s.drafts ++ [draft] }
  | called (input : CreateMobileDraftInput) :
      Effect s (.createDraft input) { s with calls := s.calls ++ [⟨input, .session⟩] }
  | granted (entityType : String) (reservation : MobileNumberingReservation) :
      Effect s (.reserveNumbering entityType reservation) (putRecord s reservation)
  /-- Session, package or nothing at all changes. -/
  | other (label : Label) (t : Runtime) (reservations : t.reservations = s.reservations)
      (calls : t.calls = s.calls) (drafts : t.drafts = s.drafts) (cursors : t.cursors = s.cursors) :
      Effect s label t
  /-- The store is cleared. -/
  | wiped : Effect s .applyRemoteWipe
      { s with session := none, package := none, reservations := .empty }

variable {s t : Runtime} {label : Label}

theorem chosen_read {input : CreateMobileDraftInput} {listed : List MobileNumberingReservation}
    {now : MobileNumberingReservation → Option Int} {session : MobileSessionContext}
    {package : MobileNormativePackageSnapshot} :
    Call.holds ⟨input, chosen input listed now session package⟩ = none ∧
      ∀ session' package' reservation,
        chosen input listed now session package = .consume session' package' reservation →
        reservation ∈ listed := by
  rw [chosen]
  cases hfind : listed.find? fun candidate => usable input (now candidate) candidate with
  | none => exact ⟨rfl, fun _ _ _ h => by cases h⟩
  | some reservation =>
    refine ⟨rfl, fun _ _ _ h => ?_⟩
    cases h
    exact List.mem_of_find?_eq_some hfind

variable {index : Nat} {call : Call}

theorem effect_of_callStep (hown : label.call = some index) (hcall : s.calls[index]? = some call)
    (h : callStep s index call label = some t) :
    Effect s label t := by
  have hactive : call.phase ≠ .ended := by
    intro hended
    cases label <;> simp [callStep, hended] at h
  have hmoved : ∀ phase, Call.holds { call with phase := phase } = none →
      (∀ session package reservation, phase ≠ .consume session package reservation) →
      Effect s label (callTo s index call phase) := fun phase hfree hread =>
    .moved label index call phase hown hcall hactive hfree fun session package reservation hphase =>
      absurd hphase (hread session package reservation)
  cases label with
  | readSession =>
    simp only [callStep] at h
    split at h
    · split at h
      · cases h
        exact hmoved _ rfl (fun _ _ _ h => by cases h)
      · cases h
        exact hmoved _ rfl (fun _ _ _ h => by cases h)
    · cases h
  | readPackage =>
    simp only [callStep] at h
    split at h
    · split at h
      · cases h
        exact hmoved _ rfl (fun _ _ _ h => by cases h)
      · cases h
        exact hmoved _ rfl (fun _ _ _ h => by cases h)
    · cases h
  | listReservations _ listed now =>
    simp only [callStep] at h
    split at h
    · split at h
      case isTrue hperm =>
        cases h
        obtain ⟨hfree, hread⟩ := @chosen_read call.input listed now _ _
        exact .moved _ index call _ hown hcall hactive hfree fun session package reservation hphase =>
          hperm.mem_iff.mp (hread session package reservation hphase)
      case isFalse => cases h
    · cases h
  | putReservation =>
    cases hown
    simp only [callStep] at h
    split at h
    case h_1 hphase =>
      cases h
      exact .took index call _ _ _ hcall hphase
    case h_2 => cases h
  | putDraft =>
    simp only [callStep] at h
    split at h
    case h_1 hphase =>
      cases h
      exact .drafted _ index call _ hown hcall (by rw [Call.holds, hphase]; rfl)
    case h_2 => cases h
  | fail =>
    simp only [callStep] at h
    split at h
    · cases h
    · cases h
      exact hmoved _ rfl (fun _ _ _ h => by cases h)
  | createDraft => cases h
  | reserveNumbering => cases h
  | bootstrapSession => cases h
  | installPackage => cases h
  | applyRemoteWipe => cases h

theorem effect_of_step (h : step s label = some t) : Effect s label t := by
  unfold step at h
  cases hown : label.call with
  | some index =>
    rw [hown] at h
    obtain ⟨call, hcall, h⟩ := Option.bind_eq_some_iff.mp h
    exact effect_of_callStep hown hcall h
  | none =>
    rw [hown] at h
    cases label with
    | createDraft input =>
      cases h
      exact .called input
    | reserveNumbering entityType reservation =>
      simp only at h
      split at h
      · cases h
        exact .other _ _ rfl rfl rfl rfl
      · cases h
        exact .granted entityType reservation
    | bootstrapSession session =>
      cases h
      exact .other _ _ rfl rfl rfl rfl
    | installPackage package =>
      cases h
      exact .other _ _ rfl rfl rfl rfl
    | applyRemoteWipe =>
      cases h
      exact .wiped
    | readSession => cases hown
    | readPackage => cases hown
    | listReservations => cases hown
    | putReservation => cases hown
    | putDraft => cases hown
    | fail => cases hown

/-- Numbers of drafts and calls lie behind the cursor of their reservation, and no two are the same.
-/
structure Counted (s : Runtime) : Prop where
  /-- The cursor of a stored reservation has been recorded. -/
  stored : ∀ id reservation, s.reservations.get? id = some reservation →
    reservation.reservationId = id ∧ (id, reservation.nextNumber) ∈ s.cursors
  /-- No cursor has been further than the stored one. -/
  ahead : ∀ id reservation, s.reservations.get? id = some reservation →
    ∀ cursor ∈ s.cursors, cursor.1 = id → cursor.2 ≤ reservation.nextNumber
  passed : ∀ draft ∈ s.drafts, (draft.reservationId, draft.reservedNumber + 1) ∈ s.cursors
  distinct : (s.drafts.map MobileEntityDraft.number).Nodup
  /-- The number of a call has been passed, and no draft has it. -/
  held : ∀ (index : Nat) call number, s.calls[index]? = some call → call.holds = some number →
    (number.1, number.2 + 1) ∈ s.cursors ∧ number ∉ s.drafts.map MobileEntityDraft.number
  apart : ∀ (i j : Nat) first second number, s.calls[i]? = some first → s.calls[j]? = some second →
    first.holds = some number → second.holds = some number → i = j

theorem counted_start (store : Store) : Counted (start store) where
  stored id reservation h := by
    have hmem := mem_entries_iff.mpr h
    exact ⟨store.keyed _ hmem, List.mem_map.mpr ⟨_, hmem, rfl⟩⟩
  ahead id reservation h cursor hcursor hid := by
    obtain ⟨entry, hentry, rfl⟩ := List.mem_map.mp hcursor
    have hsame := mem_entries_iff.mp hentry
    rw [show entry.1 = id from hid] at hsame
    have heq : entry.2 = reservation := Option.some.inj (hsame.symm.trans h)
    exact Nat.le_of_eq (congrArg MobileNumberingReservation.nextNumber heq)
  passed draft h := by cases h
  distinct := List.nodup_nil
  held index call number h := by cases h
  apart i j first second number h := by cases h

variable {phase : Phase} {reservation : MobileNumberingReservation} {labels : List Label}

theorem getElem?_callTo {i : Nat} {found : Call}
    (h : (callTo s index call phase).calls[i]? = some found) :
    i = index ∧ found = { call with phase := phase } ∨ i ≠ index ∧ s.calls[i]? = some found :=
  getElem?_set_cases h

theorem Counted.callTo (h : Counted s) (index : Nat) (call : Call) (phase : Phase)
    (hfree : Call.holds { call with phase := phase } = none) :
    Counted (callTo s index call phase) where
  stored := h.stored
  ahead := h.ahead
  passed := h.passed
  distinct := h.distinct
  held i found number hfound hnumber := by
    rcases getElem?_callTo hfound with ⟨-, rfl⟩ | ⟨-, hold⟩
    · rw [hfree] at hnumber
      cases hnumber
    · exact h.held i found number hold hnumber
  apart i j first second number hi hj hfirst hsecond := by
    rcases getElem?_callTo hi with ⟨-, rfl⟩ | ⟨-, holdi⟩
    · rw [hfree] at hfirst
      cases hfirst
    · rcases getElem?_callTo hj with ⟨-, rfl⟩ | ⟨-, holdj⟩
      · rw [hfree] at hsecond
        cases hsecond
      · exact h.apart i j first second number holdi holdj hfirst hsecond

theorem Counted.putRecord (h : Counted s) (reservation : MobileNumberingReservation)
    (hahead : ∀ cursor ∈ s.cursors, cursor.1 = reservation.reservationId →
      cursor.2 ≤ reservation.nextNumber) : Counted (putRecord s reservation) where
  stored id found hfound := by
    rcases get?_set_eq_some.mp hfound with ⟨rfl, rfl⟩ | ⟨-, hold⟩
    · exact ⟨rfl, List.mem_concat_self⟩
    · obtain ⟨hid, hmem⟩ := h.stored id found hold
      exact ⟨hid, List.mem_append_left _ hmem⟩
  ahead id found hfound cursor hcursor hid := by
    rcases get?_set_eq_some.mp hfound with ⟨rfl, rfl⟩ | ⟨hne, hold⟩
    · rcases mem_concat_iff.mp hcursor with hmem | hlast
      · exact hahead cursor hmem hid
      · exact Nat.le_of_eq (congrArg Prod.snd hlast)
    · rcases mem_concat_iff.mp hcursor with hmem | rfl
      · exact h.ahead id found hold cursor hmem hid
      · exact absurd hid hne
  passed draft hdraft := List.mem_append_left _ (h.passed draft hdraft)
  distinct := h.distinct
  held index call number hcall hnumber := by
    obtain ⟨hmem, hnew⟩ := h.held index call number hcall hnumber
    exact ⟨List.mem_append_left _ hmem, hnew⟩
  apart := h.apart

theorem Counted.free (h : Counted s)
    (hstored : s.reservations.get? reservation.reservationId = some reservation) {number : Nat}
    (hpassed : (reservation.reservationId, number + 1) ∈ s.cursors) :
    number ≠ reservation.nextNumber := by
  have hle := h.ahead _ _ hstored _ hpassed rfl
  simp only at hle
  omega

theorem Counted.took (h : Counted s) {session : MobileSessionContext}
    {package : MobileNormativePackageSnapshot}
    (hstored : s.reservations.get? reservation.reservationId = some reservation) :
    Counted (MobileNumbering.callTo (MobileNumbering.putRecord s (consumed reservation)) index call
      (.draft session package reservation)) := by
  have hput : Counted (MobileNumbering.putRecord s (consumed reservation)) :=
    h.putRecord _ fun cursor hcursor hid =>
      Nat.le_succ_of_le (h.ahead _ _ hstored cursor hcursor hid)
  -- the number that is taken now is different from each one that was taken before
  have hnew : ∀ number : String × Nat, (number.1, number.2 + 1) ∈ s.cursors →
      number ≠ (reservation.reservationId, reservation.nextNumber) := by
    rintro ⟨id, number⟩ hmem heq
    obtain ⟨rfl, rfl⟩ := Prod.mk.inj heq
    exact h.free hstored hmem rfl
  refine ⟨hput.stored, hput.ahead, hput.passed, hput.distinct, ?_, ?_⟩
  · intro i found number hfound hnumber
    rcases getElem?_callTo hfound with ⟨-, rfl⟩ | ⟨-, hold⟩
    · cases hnumber
      refine ⟨List.mem_concat_self, fun hmem => ?_⟩
      obtain ⟨draft, hdraft, hsame⟩ := List.mem_map.mp hmem
      exact hnew draft.number (h.passed draft hdraft) hsame
    · exact hput.held i found number hold hnumber
  · intro i j first second number hi hj hfirst hsecond
    rcases getElem?_callTo hi with ⟨rfl, rfl⟩ | ⟨-, holdi⟩
    · rcases getElem?_callTo hj with ⟨rfl, rfl⟩ | ⟨-, holdj⟩
      · rfl
      · cases hfirst
        exact absurd rfl (hnew _ (h.held j second _ holdj hsecond).1)
    · rcases getElem?_callTo hj with ⟨rfl, rfl⟩ | ⟨-, holdj⟩
      · cases hsecond
        exact absurd rfl (hnew _ (h.held i first _ holdi hfirst).1)
      · exact h.apart i j first second number holdi holdj hfirst hsecond

theorem Counted.drafted (h : Counted s) {draft : MobileEntityDraft}
    (hcall : s.calls[index]? = some call) (hnumber : call.holds = some draft.number) :
    Counted { MobileNumbering.callTo s index call .ended with drafts := s.drafts ++ [draft] } := by
  obtain ⟨hpassed, hnew⟩ := h.held index call draft.number hcall hnumber
  refine ⟨h.stored, h.ahead, ?_, ?_, ?_, (h.callTo index call .ended rfl).apart⟩
  · intro found hfound
    rcases mem_concat_iff.mp hfound with hold | rfl
    · exact h.passed found hold
    · exact hpassed
  · rw [List.map_append, List.map_singleton]
    exact h.distinct.append (List.nodup_singleton _) (List.disjoint_singleton.mpr hnew)
  · intro i found number hfound hheld
    rcases getElem?_callTo hfound with ⟨-, rfl⟩ | ⟨hne, hold⟩
    · cases hheld
    · obtain ⟨hmem, hother⟩ := h.held i found number hold hheld
      refine ⟨hmem, ?_⟩
      rw [List.map_append, List.mem_append, List.map_singleton, List.mem_singleton, not_or]
      refine ⟨hother, fun heq => hne ?_⟩
      exact h.apart i index found call number hold hcall hheld (heq ▸ hnumber)

/-- What keeps the numbers apart in one step. -/
def Careful (s : Runtime) (label : Label) : Prop :=
  PutsWhatItRead s label ∧ AnswersUpToDate s label

theorem Counted.step (h : Counted s) (hcareful : Careful s label) (hstep : step s label = some t) :
    Counted t := by
  cases effect_of_step hstep with
  | moved _ index call phase hown hcall hactive hfree hread => exact h.callTo index call phase hfree
  | took index call session package reservation hcall hphase =>
    have hputs := hcareful.1
    simp only [PutsWhatItRead, hcall, Option.map_some, hphase] at hputs
    exact h.took hputs
  | drafted _ index call draft hown hcall hnumber => exact h.drafted hcall hnumber
  | called input =>
    have hlast : ∀ (i : Nat) found number, (s.calls ++ [⟨input, .session⟩])[i]? = some found →
        found.holds = some number → s.calls[i]? = some found := by
      intro i found number hfound hheld
      rcases getElem?_concat_cases hfound with ⟨-, rfl⟩ | ⟨-, hold⟩
      · cases hheld
      · exact hold
    refine ⟨h.stored, h.ahead, h.passed, h.distinct, ?_, ?_⟩
    · intro i found number hfound hheld
      exact h.held i found number (hlast i found number hfound hheld) hheld
    · intro i j first second number hi hj hfirst hsecond
      exact h.apart i j first second number (hlast i first number hi hfirst)
        (hlast j second number hj hsecond) hfirst hsecond
  | granted entityType reservation => exact h.putRecord reservation hcareful.2
  | other _ _ hreservations hcalls hdrafts hcursors =>
    exact ⟨by rw [hreservations, hcursors]; exact h.stored,
      by rw [hreservations, hcursors]; exact h.ahead, by rw [hdrafts, hcursors]; exact h.passed,
      by rw [hdrafts]; exact h.distinct, by rw [hcalls, hdrafts, hcursors]; exact h.held,
      by rw [hcalls]; exact h.apart⟩
  | wiped =>
    exact ⟨fun id reservation hget => (by cases hget), fun id reservation hget => (by cases hget),
      h.passed, h.distinct, h.held, h.apart⟩

theorem cursors_subset (h : step s label = some t) : s.cursors ⊆ t.cursors := by
  cases effect_of_step h with
  | moved => exact List.Subset.refl _
  | took => exact List.subset_append_left _ _
  | drafted => exact List.Subset.refl _
  | called => exact List.Subset.refl _
  | granted => exact List.subset_append_left _ _
  | other _ _ hreservations hcalls hdrafts hcursors => rw [hcursors]; exact List.Subset.refl _
  | wiped => exact List.Subset.refl _

theorem cursor_le_of_run (hs : Counted s) (ht : Counted t) (hrun : run step s labels = some t)
    {id : String} {earlier later : MobileNumberingReservation}
    (hearlier : s.reservations.get? id = some earlier)
    (hlater : t.reservations.get? id = some later) : earlier.nextNumber ≤ later.nextNumber := by
  have hsubset : s.cursors ⊆ t.cursors := by
    refine run_relation (I := fun _ => True) (R := fun a b => a.cursors ⊆ b.cursors)
      (fun _ => List.Subset.refl _) (fun _ _ _ h h' => List.Subset.trans h h') (fun _ _ _ _ _ => trivial)
      (fun _ _ _ _ hstep => cursors_subset hstep) trivial hrun
  exact ht.ahead id later hlater _ (hsubset (hs.stored id earlier hearlier).2) rfl

/-- At most one call is in progress, and what it has read is what is stored. -/
structure Settled (s : Runtime) : Prop where
  one : ∀ (i j : Nat) first second, s.calls[i]? = some first → s.calls[j]? = some second →
    first.phase ≠ .ended → second.phase ≠ .ended → i = j
  read : ∀ (i : Nat) call session package reservation, s.calls[i]? = some call →
    call.phase = .consume session package reservation →
    s.reservations.get? reservation.reservationId = some reservation

theorem Settled.putsWhatItRead (h : Settled s) (label : Label) : PutsWhatItRead s label := by
  cases label with
  | putReservation index =>
    simp only [PutsWhatItRead]
    split
    case h_1 session package reservation hphase =>
      obtain ⟨call, hcall, hphase⟩ := Option.map_eq_some_iff.mp hphase
      exact h.read index call session package reservation hcall hphase
    case h_2 => trivial
  | _ => trivial

theorem Settled.callTo_one (h : Settled s) (hcall : s.calls[index]? = some call)
    (hactive : call.phase ≠ .ended) (i j : Nat) {first second : Call}
    (hi : (callTo s index call phase).calls[i]? = some first)
    (hj : (callTo s index call phase).calls[j]? = some second) (hfirst : first.phase ≠ .ended)
    (hsecond : second.phase ≠ .ended) : i = j := by
  rcases getElem?_callTo hi with ⟨rfl, -⟩ | ⟨-, holdi⟩
  · rcases getElem?_callTo hj with ⟨rfl, -⟩ | ⟨-, holdj⟩
    · rfl
    · exact h.one i j call second hcall holdj hactive hsecond
  · rcases getElem?_callTo hj with ⟨rfl, -⟩ | ⟨-, holdj⟩
    · exact h.one i j first call holdi hcall hfirst hactive
    · exact h.one i j first second holdi holdj hfirst hsecond

theorem Settled.step (h : Settled s) (hcounted : Counted s) (hsequential : Sequential s label)
    (hstep : step s label = some t) : Settled t := by
  have hended : label.call = none → ∀ (i : Nat) call, s.calls[i]? = some call →
      call.phase = .ended := fun hnone i call hcall =>
    hsequential hnone call (List.mem_of_getElem? hcall)
  cases effect_of_step hstep with
  | moved _ index call phase hown hcall hactive hfree hread =>
    refine ⟨fun i j first second => h.callTo_one hcall hactive i j, ?_⟩
    intro i found session package reservation hfound hphase
    rcases getElem?_callTo hfound with ⟨-, rfl⟩ | ⟨-, hold⟩
    · obtain ⟨id, hstored⟩ := mem_values_iff.mp
        (hread session package reservation hphase)
      rw [(hcounted.stored id reservation hstored).1]
      exact hstored
    · exact h.read i found session package reservation hold hphase
  | took index call session package reservation hcall hphase =>
    have hactive : call.phase ≠ .ended := by rw [hphase]; exact fun h => by cases h
    refine ⟨fun i j first second => h.callTo_one hcall hactive i j, ?_⟩
    intro i found session' package' reservation' hfound hphase'
    rcases getElem?_callTo hfound with ⟨-, rfl⟩ | ⟨hne, hold⟩
    · cases hphase'
    · have hother : found.phase ≠ .ended := by rw [hphase']; exact fun h => by cases h
      exact absurd (h.one i index found call hold hcall hother hactive) hne
  | drafted _ index call draft hown hcall hnumber =>
    have hactive : call.phase ≠ .ended := by
      intro hend
      rw [Call.holds, hend] at hnumber
      cases hnumber
    refine ⟨fun i j first second => h.callTo_one hcall hactive i j, ?_⟩
    intro i found session package reservation hfound hphase
    rcases getElem?_callTo hfound with ⟨-, rfl⟩ | ⟨-, hold⟩
    · cases hphase
    · exact h.read i found session package reservation hold hphase
  | called input =>
    have hlast : ∀ (i : Nat) found, (s.calls ++ [⟨input, .session⟩])[i]? = some found →
        found.phase ≠ .ended → i = s.calls.length ∧ found = ⟨input, .session⟩ := by
      intro i found hfound hactive
      rcases getElem?_concat_cases hfound with hlast | ⟨-, hold⟩
      · exact hlast
      · exact absurd (hended rfl i found hold) hactive
    refine ⟨fun i j first second hi hj hfirst hsecond => ?_, ?_⟩
    · rw [(hlast i first hi hfirst).1, (hlast j second hj hsecond).1]
    · intro i found session package reservation hfound hphase
      obtain ⟨-, rfl⟩ := hlast i found hfound (by rw [hphase]; exact fun h => by cases h)
      cases hphase
  | granted entityType reservation =>
    refine ⟨h.one, fun i call session package found hcall hphase => ?_⟩
    rw [hended rfl i call hcall] at hphase
    cases hphase
  | other _ _ hreservations hcalls hdrafts hcursors =>
    exact ⟨by rw [hcalls]; exact h.one, by rw [hcalls, hreservations]; exact h.read⟩
  | wiped =>
    refine ⟨h.one, fun i call session package found hcall hphase => ?_⟩
    rw [hended rfl i call hcall] at hphase
    cases hphase

theorem settled_start (store : Store) : Settled (start store) where
  one i j first second h := by cases h
  read i call session package reservation h := by cases h

/-- Overlapping drafts: with fresh reservations and no stale put, no two have the same number. -/
theorem drafts_numbered_apart (store : Store) (labels : List Label) (last : Runtime)
    (hmeets : RunMeets step (fun s label => GrantsFresh s label ∧ PutsWhatItRead s label)
      (start store) labels)
    (hrun : run step (start store) labels = some last) :
    (last.drafts.map MobileEntityDraft.number).Nodup := by
  refine (run_invariant_of_meets (I := Counted) ?_ (counted_start store) hmeets hrun).distinct
  rintro s label t hcounted ⟨hfresh, hputs⟩ hstep
  refine hcounted.step ⟨hputs, ?_⟩ hstep
  cases label with
  | reserveNumbering entityType reservation =>
    exact fun cursor hcursor hid => absurd hid (hfresh cursor hcursor)
  | _ => trivial

def agent : MobileSessionContext := ⟨"tenant", "unit", "agent", "device", "shift"⟩

def rules : MobileNormativePackageSnapshot := ⟨"package", "1"⟩

def tenNumbers (nextNumber : Nat) : MobileNumberingReservation :=
  ⟨"r1", "range", "ait", "A", 1, 10, nextNumber, some 100, .reserved⟩

/-- A device that stores nothing. -/
def emptyStore : Store := { keyed := fun _ h => by cases h }

def prepared : List Label :=
  [.bootstrapSession agent, .installPackage rules, .reserveNumbering "ait" (tenNumbers 1)]

def reads (index nextNumber : Nat) : List Label :=
  [.readSession index, .readPackage index,
    .listReservations index [tenNumbers nextNumber] fun _ => some 50]

def puts (index : Nat) : List Label :=
  [.putReservation index, .putDraft index "local" "idem" "sha256:" "2026-05-20T12:00:00.000Z"]

def twoCalls : List Label := [.createDraft ⟨"ait", none⟩, .createDraft ⟨"ait", none⟩]

def numbersAfter (labels : List Label) : Option (List (String × Nat)) :=
  (run step (start emptyStore) labels).map fun s => s.drafts.map MobileEntityDraft.number

/-- Two calls list the reservation before either puts it back: both drafts get its number. -/
theorem overlapping_drafts_share_number :
    RunMeets step GrantsFresh (start emptyStore)
      (prepared ++ twoCalls ++ reads 0 1 ++ reads 1 1 ++ puts 0 ++ puts 1) ∧
    numbersAfter (prepared ++ twoCalls ++ reads 0 1 ++ reads 1 1 ++ puts 0 ++ puts 1) =
      some [("r1", 1), ("r1", 1)] := by
  decide

theorem drafts_numbered_apart_run :
    ∃ last, run step (start emptyStore) (prepared ++ twoCalls ++ reads 0 1 ++
        [.putReservation 0] ++ reads 1 2 ++ puts 1) = some last ∧
      (last.drafts.map MobileEntityDraft.number).Nodup :=
  ⟨_, rfl, drafts_numbered_apart emptyStore (prepared ++ twoCalls ++ reads 0 1 ++
    [.putReservation 0] ++ reads 1 2 ++ puts 1) _ (by decide) rfl⟩

/-- Calls one after the other: while no answer is behind what the device has stored, no stored
cursor goes back and no two drafts have one number. -/
theorem sequential_cursors_advance (store : Store) (before after : List Label) (s t : Runtime)
    (hmeets : RunMeets step (fun s label => Sequential s label ∧ AnswersUpToDate s label)
      (start store) (before ++ after))
    (hbefore : run step (start store) before = some s) (hafter : run step s after = some t) :
    (t.drafts.map MobileEntityDraft.number).Nodup ∧
      ∀ id earlier later, s.reservations.get? id = some earlier →
        t.reservations.get? id = some later → earlier.nextNumber ≤ later.nextNumber := by
  have hstep : ∀ s label t, Counted s ∧ Settled s → Sequential s label ∧ AnswersUpToDate s label →
      step s label = some t → Counted t ∧ Settled t := by
    rintro s label t ⟨hcounted, hsettled⟩ ⟨hsequential, hanswer⟩ hstep
    exact ⟨hcounted.step ⟨hsettled.putsWhatItRead label, hanswer⟩ hstep,
      hsettled.step hcounted hsequential hstep⟩
  obtain ⟨hmeets₁, hmeets₂⟩ := (runMeets_append hbefore).mp hmeets
  have hs := run_invariant_of_meets hstep ⟨counted_start store, settled_start store⟩ hmeets₁ hbefore
  have ht := run_invariant_of_meets hstep hs hmeets₂ hafter
  exact ⟨ht.1.distinct, fun id earlier later hearlier hlater =>
    cursor_le_of_run hs.1 ht.1 hafter hearlier hlater⟩

def wholeCall (index nextNumber : Nat) : List Label :=
  .createDraft ⟨"ait", none⟩ :: reads index nextNumber ++ puts index

def cursorAfter (labels : List Label) : Option Nat :=
  ((run step (start emptyStore) labels).bind fun s => s.reservations.get? "r1").map
    MobileNumberingReservation.nextNumber

/-- Reserve, draft, replay of the reservation, draft: a number is given again. -/
theorem replayed_reservation_reissues :
    RunMeets step Sequential (start emptyStore) (prepared ++ wholeCall 0 1 ++
      [.reserveNumbering "ait" (tenNumbers 1)] ++ wholeCall 1 1) ∧
    cursorAfter (prepared ++ wholeCall 0 1) = some 2 ∧
    cursorAfter (prepared ++ wholeCall 0 1 ++ [.reserveNumbering "ait" (tenNumbers 1)]) = some 1 ∧
    numbersAfter (prepared ++ wholeCall 0 1 ++ [.reserveNumbering "ait" (tenNumbers 1)] ++
      wholeCall 1 1) = some [("r1", 1), ("r1", 1)] := by
  decide

theorem sequential_cursors_advance_run :
    ∃ s t, run step (start emptyStore) (prepared ++ wholeCall 0 1) = some s ∧
      run step s (.reserveNumbering "ait" (tenNumbers 2) :: wholeCall 1 2) = some t ∧
      (t.drafts.map MobileEntityDraft.number).Nodup :=
  ⟨_, _, rfl, rfl, (sequential_cursors_advance emptyStore (prepared ++ wholeCall 0 1)
    (.reserveNumbering "ait" (tenNumbers 2) :: wholeCall 1 2) _ _ (by decide) rfl rfl).1⟩

end Stynx.MobileNumbering
