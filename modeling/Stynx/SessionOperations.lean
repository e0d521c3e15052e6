import Stynx.OrderedMap

/-!
# Stored session operations

`packages/sessions/src/control/postgres-registry.ts` and `in-memory-registry.ts`: the
operations of a tenant, saved and looked up by a key in one text. In memory the text
is the key. In the table of `0004_session_control.sql` an insert goes by the
operation's UUID, an update keeps the names that the row has, and a lookup compares
UUID and names.
-/

namespace Stynx.SessionOperations

open OrderedMap

variable {ρ : Type}

/-- `SessionOperationRecord`. -/
structure Operation (ρ : Type) where
  key : String
  requestHash : String
  result : ρ
  attempts : Nat
  nextAttemptAt : Option Nat
  leaseUntil : Option Nat

structure Parts where
  scope : String
  actorId : String
  action : String
  operationId : String

/-- The key that `execute` builds. -/
def Parts.key (parts : Parts) : String :=
  parts.scope ++ ":" ++ parts.actorId ++ ":" ++ parts.action ++ ":" ++ parts.operationId

def parseKey (key : String) : Option Parts :=
  match key.toList.splitOn ':' with
  | scope :: actorId :: action :: operationId :: _ =>
    if scope ≠ [] ∧ actorId ≠ [] ∧ action ≠ [] ∧ operationId ≠ [] then
      some ⟨String.ofList scope, String.ofList actorId, String.ofList action,
        String.ofList operationId⟩
    else none
  | _ => none

/-- The value of a hexadecimal digit. -/
def hexDigit (c : Char) : Option Nat :=
  if '0' ≤ c ∧ c ≤ '9' then some (c.toNat - '0'.toNat)
  else if 'a' ≤ c ∧ c ≤ 'f' then some (c.toNat - 'a'.toNat + 10)
  else if 'A' ≤ c ∧ c ≤ 'F' then some (c.toNat - 'A'.toNat + 10)
  else none

/-- Some bytes in hexadecimal, with a hyphen or none after each second one, and the rest. -/
def uuidBytes : Nat → List Char → Option (List Nat × List Char)
  | 0, rest => some ([], rest)
  | left + 1, high :: low :: rest =>
    match hexDigit high, hexDigit low with
    | some high, some low =>
      let next := match rest with
        | '-' :: after => if left % 2 = 0 ∧ left ≠ 0 then after else rest
        | _ => rest
      (uuidBytes left next).map fun read => ((high * 16 + low) :: read.1, read.2)
    | _, _ => none
  | _ + 1, _ => none

def uuidIn (text : String) : Option (List Nat) :=
  match text.toList with
  | '{' :: rest => (uuidBytes 16 rest).bind fun read => if read.2 = ['}'] then some read.1 else none
  | chars => (uuidBytes 16 chars).bind fun read => if read.2 = [] then some read.1 else none

/-- The operations of `InMemorySessionRegistry`. -/
abbrev Memory (ρ : Type) := OrderedMap String (Operation ρ)

def Memory.saveOperation (memory : Memory ρ) (input : Operation ρ) : Memory ρ :=
  memory.set input.key input

/-- A row of `auth.session_operations`. -/
structure OperationRow (ρ : Type) where
  scope : String
  actorId : String
  action : String
  requestHash : String
  resultJson : ρ
  attemptCount : Nat
  nextAttemptAt : Option Nat
  leaseUntil : Option Nat

/-- The rows of a tenant by `operation_id`. -/
abbrev Table (ρ : Type) := OrderedMap (List Nat) (OperationRow ρ)

/-- Why a call throws. -/
inductive Failure where
  /-- The key has no four parts. -/
  | invalidKey
  /-- The operation identifier is no UUID. -/
  | invalidUuid
  /-- The row breaks a check of the table. -/
  | check

/-- The checks of the table on what a row is inserted with. -/
def checks (parts : Parts) (requestHash : String) : Bool :=
  ["tenant", "identity"].contains parts.scope &&
  decide (1 ≤ parts.actorId.utf8ByteSize) && decide (parts.actorId.utf8ByteSize ≤ 255) &&
  ["logout-current", "revoke-one", "revoke-others", "revoke-all", "revoke-subject",
    "revoke-tenant"].contains parts.action &&
  decide (requestHash.toList.length = 64) &&
  requestHash.toList.all fun c => ('0' ≤ c ∧ c ≤ '9') ∨ 'a' ≤ c ∧ c ≤ 'f'

def OperationRow.names (row : OperationRow ρ) (parts : Parts) : Prop :=
  row.scope = parts.scope ∧ row.actorId = parts.actorId ∧ row.action = parts.action

instance decidableNames (row : OperationRow ρ) (parts : Parts) : Decidable (row.names parts) :=
  inferInstanceAs (Decidable (_ ∧ _ ∧ _))

def mapOperation (key : String) (row : OperationRow ρ) : Operation ρ where
  key := key
  requestHash := row.requestHash
  result := row.resultJson
  attempts := row.attemptCount
  nextAttemptAt := row.nextAttemptAt
  leaseUntil := row.leaseUntil

def operation (table : Table ρ) (key : String) : Except Failure (Option (Operation ρ)) :=
  match parseKey key with
  | none => .ok none
  | some parts =>
    match uuidIn parts.operationId with
    | none => .error .invalidUuid
    | some uuid => .ok ((table.get? uuid).bind fun row =>
        if row.names parts then some (mapOperation key row) else none)

def insertedRow (parts : Parts) (input : Operation ρ) : OperationRow ρ where
  scope := parts.scope
  actorId := parts.actorId
  action := parts.action
  requestHash := input.requestHash
  resultJson := input.result
  attemptCount := input.attempts
  nextAttemptAt := input.nextAttemptAt
  leaseUntil := input.leaseUntil

/-- The row after `on conflict (tenant_id, operation_id) do update`. -/
def updatedRow (row : OperationRow ρ) (input : Operation ρ) : OperationRow ρ :=
  { row with
    resultJson := input.result
    attemptCount := input.attempts
    nextAttemptAt := input.nextAttemptAt
    leaseUntil := input.leaseUntil }

def saveOperation (table : Table ρ) (input : Operation ρ) : Except Failure (Table ρ) :=
  match parseKey input.key with
  | none => .error .invalidKey
  | some parts =>
    match uuidIn parts.operationId with
    | none => .error .invalidUuid
    | some uuid =>
      if checks parts input.requestHash then
        .ok (table.set uuid (match table.get? uuid with
          | none => insertedRow parts input
          | some row => updatedRow row input))
      else .error .check

def OperationRow.holds (row : OperationRow ρ) (input : Operation ρ) : Prop :=
  row.requestHash = input.requestHash ∧ row.resultJson = input.result ∧
    row.attemptCount = input.attempts ∧ row.nextAttemptAt = input.nextAttemptAt ∧
    row.leaseUntil = input.leaseUntil

/-- The key has four parts and a UUID, and passes the checks; the row with that UUID, if any, is of
the same scope, actor, action and request; and the other key does not name the row, unless it holds
what is saved already. -/
def OwnRow (table : Table ρ) (input : Operation ρ) (other : String) : Prop :=
  ∃ parts uuid, parseKey input.key = some parts ∧ uuidIn parts.operationId = some uuid ∧
    checks parts input.requestHash = true ∧
    (∀ row, table.get? uuid = some row → row.names parts ∧ row.requestHash = input.requestHash) ∧
    ∀ parts', parseKey other = some parts' → uuidIn parts'.operationId = some uuid →
      parts'.scope = parts.scope → parts'.actorId = parts.actorId →
      parts'.action = parts.action → ∃ row, table.get? uuid = some row ∧ row.holds input

variable {row : OperationRow ρ} {input : Operation ρ} {table : Table ρ} {uuid : List Nat}
  {parts : Parts}

theorem mapOperation_eq_iff : mapOperation input.key row = input ↔ row.holds input := by
  constructor
  · intro h
    rw [← h]
    exact ⟨rfl, rfl, rfl, rfl, rfl⟩
  · rintro ⟨hhash, hresult, hattempts, hnext, hlease⟩
    cases input
    simp_all [mapOperation]

theorem mapOperation_congr {key : String} {row' : OperationRow ρ} (h : row.holds input)
    (h' : row'.holds input) :
    mapOperation key row = mapOperation key row' := by
  obtain ⟨hhash, hresult, hattempts, hnext, hlease⟩ := h
  obtain ⟨hhash', hresult', hattempts', hnext', hlease'⟩ := h'
  rw [mapOperation, mapOperation, hhash, hresult, hattempts, hnext, hlease, hhash', hresult',
    hattempts', hnext', hlease']

def savedRow (table : Table ρ) (uuid : List Nat) (parts : Parts) (input : Operation ρ) :
    OperationRow ρ :=
  match table.get? uuid with
  | none => insertedRow parts input
  | some row => updatedRow row input

theorem savedRow_iff :
    (savedRow table uuid parts input).names parts ∧ (savedRow table uuid parts input).holds input ↔
      ∀ row, table.get? uuid = some row → row.names parts ∧
        row.requestHash = input.requestHash := by
  unfold savedRow
  cases hrow : table.get? uuid with
  | none =>
    refine iff_of_true ⟨⟨rfl, rfl, rfl⟩, rfl, rfl, rfl, rfl, rfl⟩ fun row h => by cases h
  | some row =>
    constructor
    · rintro ⟨hnames, hhash, -⟩ found hfound
      cases hfound
      exact ⟨hnames, hhash⟩
    · intro h
      obtain ⟨hnames, hhash⟩ := h row rfl
      exact ⟨hnames, hhash, rfl, rfl, rfl, rfl⟩

theorem operation_eq {key : String} (hparts : parseKey key = some parts)
    (huuid : uuidIn parts.operationId = some uuid) :
    operation table key = .ok ((table.get? uuid).bind fun row =>
      if row.names parts then some (mapOperation key row) else none) := by
  simp only [operation, hparts, huuid]

theorem operation_set_of_ne {key : String}
    (h : ∀ parts, parseKey key = some parts → uuidIn parts.operationId ≠ some uuid) :
    operation (table.set uuid row) key = operation table key := by
  unfold operation
  cases hparts : parseKey key with
  | none => rfl
  | some parts =>
    simp only
    cases huuid : uuidIn parts.operationId with
    | none => rfl
    | some other =>
      have hne : uuid ≠ other := by
        rintro rfl
        exact h parts hparts huuid
      simp only [get?_set_of_ne _ _ hne]

theorem operation_saved_iff (hparts : parseKey input.key = some parts)
    (huuid : uuidIn parts.operationId = some uuid) :
    operation (table.set uuid (savedRow table uuid parts input)) input.key = .ok (some input) ↔
      ∀ row, table.get? uuid = some row → row.names parts ∧
        row.requestHash = input.requestHash := by
  rw [operation_eq hparts huuid, get?_set_self, Option.bind_some, ← savedRow_iff,
    ← mapOperation_eq_iff]
  constructor
  · intro h
    have hsome := Except.ok.inj h
    split at hsome
    · rename_i hnames
      exact ⟨hnames, Option.some.inj hsome⟩
    · cases hsome
  · rintro ⟨hnames, hmap⟩
    rw [if_pos hnames, hmap]

theorem operation_other_iff {parts' : Parts} {other : String}
    (hparts : parseKey other = some parts') (huuid : uuidIn parts'.operationId = some uuid)
    (hsaved : ∀ row, table.get? uuid = some row → row.names parts ∧
      row.requestHash = input.requestHash) :
    operation (table.set uuid (savedRow table uuid parts input)) other = operation table other ↔
      (parts'.scope = parts.scope → parts'.actorId = parts.actorId →
        parts'.action = parts.action → ∃ row, table.get? uuid = some row ∧ row.holds input) := by
  obtain ⟨hnames, hholds⟩ := savedRow_iff.mpr hsaved
  rw [operation_eq hparts huuid, operation_eq hparts huuid, get?_set_self, Option.bind_some]
  by_cases hsame : (savedRow table uuid parts input).names parts'
  · -- the other key names the row too
    have hscope := hsame.1.symm.trans hnames.1
    have hactor := hsame.2.1.symm.trans hnames.2.1
    have haction := hsame.2.2.symm.trans hnames.2.2
    rw [if_pos hsame]
    constructor
    · intro h _ _ _
      cases hrow : table.get? uuid with
      | none =>
        rw [hrow] at h
        cases h
      | some row =>
        rw [hrow, Option.bind_some] at h
        have hsome := Except.ok.inj h
        split at hsome
        · obtain ⟨hhash, hresult, hattempts, hnext, hlease⟩ := hholds
          injection Option.some.inj hsome with _ h1 h2 h3 h4 h5
          exact ⟨row, rfl, h1.symm.trans hhash, h2.symm.trans hresult, h3.symm.trans hattempts,
            h4.symm.trans hnext, h5.symm.trans hlease⟩
        · cases hsome
    · intro h
      obtain ⟨row, hrow, hrowholds⟩ := h hscope hactor haction
      obtain ⟨hrownames, -⟩ := hsaved row hrow
      have hrowsame : row.names parts' :=
        ⟨hrownames.1.trans hscope.symm, hrownames.2.1.trans hactor.symm,
          hrownames.2.2.trans haction.symm⟩
      rw [hrow, Option.bind_some, if_pos hrowsame, mapOperation_congr hholds hrowholds]
  · rw [if_neg hsame]
    refine iff_of_true ?_ fun hscope hactor haction => ?_
    · cases hrow : table.get? uuid with
      | none => rfl
      | some row =>
        obtain ⟨hrownames, -⟩ := hsaved row hrow
        have hother : ¬ row.names parts' := fun hrowsame => hsame
          ⟨hnames.1.trans (hrownames.1.symm.trans hrowsame.1),
            hnames.2.1.trans (hrownames.2.1.symm.trans hrowsame.2.1),
            hnames.2.2.trans (hrownames.2.2.symm.trans hrowsame.2.2)⟩
        rw [Option.bind_some, if_neg hother]
    · exact absurd ⟨hnames.1.trans hscope.symm, hnames.2.1.trans hactor.symm,
        hnames.2.2.trans haction.symm⟩ hsame

/-- A save returns, is then looked up, and leaves the lookup of another key, exactly when it has a
row of its own. -/
theorem saved_and_others_kept_iff (table : Table ρ) (input : Operation ρ) (other : String) :
    (∃ after, saveOperation table input = .ok after ∧
      operation after input.key = .ok (some input) ∧
      operation after other = operation table other) ↔ OwnRow table input other := by
  unfold saveOperation OwnRow
  cases hparts : parseKey input.key with
  | none => simp
  | some parts =>
    cases huuid : uuidIn parts.operationId with
    | none => simp [huuid]
    | some uuid =>
      by_cases hchecks : checks parts input.requestHash = true
      · simp only [huuid, hchecks, if_true]
        constructor
        · rintro ⟨after, hafter, hown, hother⟩
          cases hafter
          have hsaved := (operation_saved_iff hparts huuid).mp hown
          refine ⟨parts, uuid, rfl, huuid, hchecks, hsaved, fun parts' hparts' huuid' => ?_⟩
          exact (operation_other_iff hparts' huuid' hsaved).mp hother
        · rintro ⟨found, uuid', hfound, huuid', -, hsaved, hother⟩
          cases hfound
          obtain rfl := Option.some.inj (huuid.symm.trans huuid')
          refine ⟨_, rfl, (operation_saved_iff hparts huuid).mpr hsaved, ?_⟩
          by_cases hreach : ∃ parts', parseKey other = some parts' ∧
              uuidIn parts'.operationId = some uuid
          · obtain ⟨parts', hparts', huuid''⟩ := hreach
            exact (operation_other_iff hparts' huuid'' hsaved).mpr (hother parts' hparts' huuid'')
          · exact operation_set_of_ne fun parts' hparts' huuid'' =>
              hreach ⟨parts', hparts', huuid''⟩
      · simp [huuid, hchecks]

def finished (actorId action operationId result : String) : Operation String where
  key := Parts.key ⟨"tenant", actorId, action, operationId⟩
  requestHash := String.ofList (List.replicate 64 'a')
  result := result
  attempts := 1
  nextAttemptAt := none
  leaseUntil := none

/-- A client's operation identifier, and its other spelling. -/
def clientId : String × String :=
  ("0000000a-0000-4000-8000-000000000021", "0000000A-0000-4000-8000-000000000021")

/-- The results that keys are looked up to after some saves. -/
def lookups (inputs : List (Operation String)) (keys : List String) :
    Except Failure (List (Option String)) :=
  (inputs.foldlM saveOperation OrderedMap.empty).bind fun table =>
    keys.mapM fun key => (operation table key).map fun found => found.map Operation.result

/-- One identifier for two actions, a key that spells the identifier otherwise, and a name with a
colon. -/
theorem saves_share_a_row :
    (lookups [finished "alice" "revoke-one" clientId.1 "one",
        finished "alice" "revoke-all" clientId.1 "all"]
      [(finished "alice" "revoke-one" clientId.1 "").key,
        (finished "alice" "revoke-all" clientId.1 "").key]).toOption = some [some "all", none] ∧
    (lookups [finished "alice" "revoke-one" clientId.1 "one"]
      [(finished "alice" "revoke-one" clientId.2 "").key]).toOption = some [some "one"] ∧
    (lookups [finished "idp:alice" "revoke-one" clientId.1 "one"] []).toOption = none := by
  decide +kernel

end Stynx.SessionOperations
