import Stynx.SessionReconcile
import Stynx.SessionControlMoves

/-!
# Moves of a reconciliation

What a step of the system does to its calls and to the operations in its registry, and from it the rule
that what each move keeps holds of the operations and the calls after every step.
-/

namespace Stynx.SessionReconcile

open SessionControl CallTables OrderedMap

section

variable {operation : Operation} {rows : List SessionRegistration} {others : List Operation}
  {done items : List SessionItemResult}

/-- A place among the items. -/
inductive AtItem (operation : Operation) (rows : List SessionRegistration) (others : List Operation)
    (items : List SessionItemResult) : Phase → Prop
  | asking {done rest item registration} (hitems : done ++ item :: rest = items)
    (hpending : item.status = .pending) (hrow : registrationOf rows item = some registration) :
    AtItem operation rows others items
      (.asking ⟨operation, rows, done, rest, others⟩ item registration)
  /-- Past all of them. -/
  | counting : AtItem operation rows others items (.counting ⟨operation, rows, items, [], others⟩)

theorem nextItem_atItem (rest : List SessionItemResult) (hitems : done ++ rest = items) :
    AtItem operation rows others items (nextItem operation rows others done rest) := by
  induction rest generalizing done with
  | nil =>
    rw [List.append_nil] at hitems
    subst hitems
    exact .counting
  | cons item rest ih =>
    have hnext : AtItem operation rows others items (nextItem operation rows others (done ++ [item]) rest) :=
      ih (by rw [List.append_assoc]; exact hitems)
    rw [nextItem]
    split
    case isTrue hpending =>
      split
      case h_1 registration hrow => exact .asking hitems hpending hrow
      case h_2 => exact hnext
    case isFalse => exact hnext

/-- An item once retries have run out. -/
def exhausted (item : SessionItemResult) : SessionItemResult :=
  if item.status = .pending then failedItem item else item

/-- A place among the items once retries have run out. -/
inductive AtFailed (operation : Operation) (rows : List SessionRegistration) (others : List Operation)
    (now : Nat) (items : List SessionItemResult) : Phase → Prop
  | failing {before rest item registration} (hitems : before ++ item :: rest = items)
    (hpending : item.status = .pending) (hrow : registrationOf rows item = some registration) :
    AtFailed operation rows others now items (.failing ⟨operation,
      setRow rows { registration with state := .failed, terminalAt := some now },
      before.map exhausted ++ [failedItem item], rest, others⟩
      { registration with state := .failed, terminalAt := some now })
  /-- Past all of them. -/
  | saving : AtFailed operation rows others now items
    (.saving { withResults operation (items.map exhausted) with leaseUntil := none } others)

theorem nextFailed_atFailed {now : Nat} {before : List SessionItemResult} (rest : List SessionItemResult)
    (hdone : before.map exhausted = done) (hitems : before ++ rest = items) :
    AtFailed operation rows others now items (nextFailed operation rows others now done rest) := by
  induction rest generalizing done before with
  | nil =>
    rw [List.append_nil] at hitems
    subst hitems hdone
    exact .saving
  | cons item rest ih =>
    have hnext : ∀ item', exhausted item = item' → AtFailed operation rows others now items
        (nextFailed operation rows others now (done ++ [item']) rest) := by
      intro item' hitem
      have hmap : (before ++ [item]).map exhausted = done ++ [item'] := by
        rw [List.map_append, hdone, List.map_singleton, hitem]
      exact ih hmap (by rw [List.append_assoc]; exact hitems)
    rw [nextFailed]
    split
    case isTrue hpending =>
      split
      case h_1 registration hrow => exact hdone ▸ .failing hitems hpending hrow
      case h_2 => exact hnext _ (if_pos hpending)
    case isFalse hnot => exact hnext _ (if_neg hnot)

end

variable {validateUuid : String → Bool} {s t : System}

/-- How a reconciliation goes from one place to the next, when it counts only tasks of a kind. -/
inductive Turns (counted : Task → Prop) : Label → Phase → Phase → Prop
  | lists {operation others index} (rows : List SessionRegistration)
    (hnodup : (rows.map SessionRegistration.sid).Nodup) : Turns counted (.list index rows) (.listing operation others)
      (nextItem operation rows others [] operation.result.results)
  /-- The provider throws, or guarantees what the service does not take. -/
  | stays {label task item registration} : Turns counted label (.asking task item registration)
      (nextItem task.operation task.rows task.others (task.done ++ [item]) task.rest)
  | answered {label task item registration} (now : Nat) (outcome : ProviderRevocationResult) :
    Turns counted label (.asking task item registration) (.updating { task with
      rows := setRow task.rows (registrationAfter registration outcome now)
      done := task.done ++ [itemAfter item outcome] } (registrationAfter registration outcome now))
  /-- The registry has written a registration, or has thrown. -/
  | updates {label task registration} : Turns counted label (.updating task registration)
      (nextItem task.operation task.rows task.others task.done task.rest)
  /-- It is past the items. -/
  | counts {label task} (now : Nat) (hcounted : counted task) :
    Turns counted label (.counting task) (count task now)
  /-- The registry has written a registration whose retries have run out. -/
  | fails {label task registration} (now : Nat) : Turns counted label (.failing task registration)
      (nextFailed task.operation task.rows task.others now task.done task.rest)
  | saves {label operation others} : Turns counted label (.saving operation others) (nextOperation others)
  | throws {label phase} : Turns counted label phase .thrown

/-- The operations after a reconciliation has gone on. -/
def Phase.saves (operations : SessionOperations.Memory SessionMutationResult) :
    Phase → SessionOperations.Memory SessionMutationResult
  | .saving operation _ => operations.saveOperation operation
  | _ => operations

/-- The registration that a reconciliation writes. -/
def Phase.written : Phase → Option SessionRegistration
  | .updating _ registration | .failing _ registration => some registration
  | _ => none

/-- The reconciliation that a step is about. -/
def Label.index : Label → Option Nat
  | .claim index _ | .list index _ | .answer index _ _ | .update index _ _ | .count index _
  | .save index _ => some index
  | _ => none

/-- Whether a step removes sessions. -/
def Label.removes : Label → Bool
  | .purge _ | .erase _ => true
  | _ => false

/-- The task whose items a reconciliation is past. -/
def Phase.passed : Phase → Option Task
  | .counting task => some task
  | _ => none

/-- Whenever a reconciliation is past the items of an operation, the task is of a kind. -/
def Counts (counted : Task → Prop) (s : System) : Label → Prop
  | .count index _ => ∀ call ∈ s.reconciliations[index]?, ∀ task ∈ call.phase.passed, counted task
  | _ => True

instance decidableCounts (counted : Task → Prop) [DecidablePred counted] (s : System) (label : Label) :
    Decidable (Counts counted s label) := by
  unfold Counts
  split <;> infer_instance

theorem Counts.mono {counted counted' : Task → Prop} {s : System} {label : Label}
    (hcounts : Counts counted s label) (h : ∀ task, counted task → counted' task) :
    Counts counted' s label := by
  cases label with
  | count index now => exact fun call hcall task hphase => h task (hcounts call hcall task hphase)
  | _ => trivial

theorem counts_of_forall {counted : Task → Prop} {s : System} (h : ∀ task, counted task)
    (label : Label) : Counts counted s label := by
  cases label with
  | count index now => exact fun _ _ task _ => h task
  | _ => trivial

/-- A reconciliation goes on. -/
structure Advance (counted : Task → Prop) (s t : System) (label : Label) (index : Nat)
    (call : Reconciliation) (next : Phase) : Prop where
  ofLabel : label.index = some index
  found : s.reconciliations[index]? = some call
  reconciliations : t.reconciliations = s.reconciliations.set index (call.to next)
  turns : Turns counted label call.phase next
  stored : ∀ rows, label = .list index rows → Stored s rows
  /-- The calls of `execute` stay. -/
  calls : t.process.calls = s.process.calls
  /-- Only what it has to write is written. -/
  registrations : t.registrations = s.registrations ∨ ∃ registration,
    call.phase.written = some registration ∧
      t.registrations = s.registrations.set registration.sid registration
  /-- Only a reconciliation that saves writes an operation. -/
  operations : t.process.operations = s.process.operations ∨
    t.process.operations = call.phase.saves s.process.operations

structure Claim (s t : System) (index : Nat) (call : Reconciliation) (now : Nat)
    (keys : List String) : Prop where
  found : s.reconciliations[index]? = some call
  phase : call.phase = .claiming now
  /-- Each of the operations can be claimed. -/
  claimable : ∀ key ∈ keys, (s.process.operations.get? key).any fun operation => claimable operation now
  reconciliations : t.reconciliations = s.reconciliations.set index
    { call with
      claimed := (claim s.process.operations now keys).length
      phase := nextOperation (claim s.process.operations now keys) }
  /-- The calls of `execute` stay. -/
  calls : t.process.calls = s.process.calls
  registrations : t.registrations = s.registrations
  operations : t.process.operations = (claim s.process.operations now keys).foldl
    (fun operations item => operations.saveOperation item) s.process.operations

/-- What a step can do to the calls and the operations. -/
inductive Does (validateUuid : String → Bool) (counted : Task → Prop) (s t : System) : Label → Prop
  /-- A call of `execute` goes on. -/
  | executes {label} (served : System) (hserves : serves s label = some served)
    (hstep : SessionControl.step validateUuid s.process label = some t.process)
    (hrest : t = { served with process := t.process }) : Does validateUuid counted s t (.execute label)
  | begins {context limit now} (hprocess : t.process = s.process)
    (hregistrations : t.registrations = s.registrations) (hcalls : t.reconciliations = s.reconciliations ++ [⟨context, limit, 0, .claiming now⟩]) :
    Does validateUuid counted s t (.reconcile context limit now)
  | claims {index now keys} (call : Reconciliation) (hclaim : Claim s t index call now keys) :
    Does validateUuid counted s t (.claim index keys)
  | advances {label} (index : Nat) (call : Reconciliation) (next : Phase)
    (hadvance : Advance counted s t label index call next) : Does validateUuid counted s t label
  /-- A session is registered, or sessions are removed. -/
  | changes {label} (hprocess : t.process = s.process)
    (hcalls : t.reconciliations = s.reconciliations)
    (hnew : ∀ sid registration, t.registrations.get? sid = some registration →
      s.registrations.get? sid = some registration ∨ registration.state = .active)
    (hold : ∀ sid registration, s.registrations.get? sid = some registration →
      t.registrations.get? sid = some registration ∨
        label.removes = true ∧ t.registrations.get? sid = none) : Does validateUuid counted s t label

section

variable (registration : SessionRegistration) (stored : Bool)

theorem writes_process : (writes s registration stored).process = s.process := by
  rw [writes]
  split
  all_goals rfl

theorem writes_reconciliations :
    (writes s registration stored).reconciliations = s.reconciliations := by
  rw [writes]
  split
  all_goals rfl

theorem writes_registrations :
    (writes s registration stored).registrations = s.registrations ∨
      (writes s registration stored).registrations =
        s.registrations.set registration.sid registration := by
  rw [writes]
  split
  · exact .inr rfl
  · exact .inl rfl

end

variable {registrations : OrderedMap String SessionRegistration}
  {p : String × SessionRegistration → Bool} {sid key : String} {registration : SessionRegistration}

theorem get?_of_filter (h : (registrations.filter p).get? sid = some registration) :
    registrations.get? sid = some registration :=
  (get?_filter_eq_some.mp h).1

theorem get?_filter_cases (h : registrations.get? sid = some registration) :
    (registrations.filter p).get? sid = some registration ∨ (registrations.filter p).get? sid = none := by
  cases hget : (registrations.filter p).get? sid with
  | none => exact .inr rfl
  | some other => exact .inl ((get?_of_filter hget).symm.trans h ▸ rfl)

theorem serves_cases {label : SessionControl.Label} {served : System}
    (h : serves s label = some served) : served.process = s.process ∧
      served.reconciliations = s.reconciliations := by
  unfold serves at h
  split at h
  · split at h
    · split at h
      · cases h
        exact ⟨rfl, rfl⟩
      · cases h
    · cases h
      exact ⟨writes_process _ _, writes_reconciliations _ _⟩
    · cases h
      exact ⟨rfl, rfl⟩
  · cases h
    exact ⟨rfl, rfl⟩

theorem does_step {counted : Task → Prop} {label : Label} (hcounts : Counts counted s label)
    (hstep : step validateUuid s label = some t) : Does validateUuid counted s t label := by
  cases label with
  | execute label =>
    obtain ⟨served, hserves, hmap⟩ := Option.bind_eq_some_iff.mp hstep
    obtain ⟨process, hprocess, rfl⟩ := Option.map_eq_some_iff.mp hmap
    exact .executes served hserves hprocess rfl
  | reconcile context limit now =>
    cases hstep
    exact .begins rfl rfl rfl
  | claim index keys =>
    obtain ⟨call, hcall, hclaims⟩ := Option.bind_eq_some_iff.mp hstep
    unfold claims at hclaims
    split at hclaims
    case h_2 => cases hclaims
    case h_1 now hphase =>
      split at hclaims
      case isFalse => cases hclaims
      case isTrue hok =>
        cases hclaims
        exact .claims call ⟨hcall, hphase, hok.2.2, rfl, rfl, rfl, rfl⟩
  | list index rows =>
    obtain ⟨call, hcall, hlists⟩ := Option.bind_eq_some_iff.mp hstep
    unfold lists at hlists
    split at hlists
    case h_2 => cases hlists
    case h_1 operation others hphase =>
      split at hlists
      case isFalse => cases hlists
      case isTrue hok =>
        cases hlists
        exact .advances index call _
          ⟨rfl, hcall, rfl, hphase ▸ .lists rows hok.2, fun _ heq => by cases heq; exact hok.1, rfl,
            .inl rfl, .inl rfl⟩
  | answer index now given =>
    obtain ⟨call, hcall, hanswers⟩ := Option.bind_eq_some_iff.mp hstep
    unfold answers at hanswers
    split at hanswers
    case h_2 => cases hanswers
    case h_1 task item registration hphase =>
      split at hanswers
      case h_1 =>
        cases hanswers
        exact .advances index call _
          ⟨rfl, hcall, rfl, hphase ▸ .stays, fun _ heq => (by cases heq), rfl, .inl rfl, .inl rfl⟩
      case h_2 outcome _ =>
        cases hanswers
        exact .advances index call _
          ⟨rfl, hcall, rfl, hphase ▸ .answered now outcome, fun _ heq => (by cases heq), rfl, .inl rfl,
            .inl rfl⟩
  | update index now stored =>
    obtain ⟨call, hcall, hupdates⟩ := Option.bind_eq_some_iff.mp hstep
    unfold updates at hupdates
    split at hupdates
    case h_1 task registration hphase =>
      cases hupdates
      have hturn : Turns counted (.update index now stored) call.phase
          (nextItem task.operation task.rows task.others task.done task.rest) := hphase ▸ .updates
      refine .advances index call _
        ⟨rfl, hcall, ?_, hturn, fun _ heq => (by cases heq), ?_, ?_, .inl ?_⟩
      · rw [goes, writes_reconciliations]
      · rw [goes, writes_process]
      · exact (writes_registrations _ _).imp id fun heq => ⟨registration, by rw [hphase]; rfl, heq⟩
      · rw [goes, writes_process]
    case h_2 task registration hphase =>
      cases hupdates
      have hturn : Turns counted (.update index now stored) call.phase (if stored = true then
          nextFailed task.operation task.rows task.others now task.done task.rest else .thrown) := by
        split
        · exact hphase ▸ .fails now
        · exact .throws
      refine .advances index call _
        ⟨rfl, hcall, ?_, hturn, fun _ heq => (by cases heq), ?_, ?_, .inl ?_⟩
      · rw [goes, writes_reconciliations]
      · rw [goes, writes_process]
      · exact (writes_registrations _ _).imp id fun heq => ⟨registration, by rw [hphase]; rfl, heq⟩
      · rw [goes, writes_process]
    case h_3 => cases hupdates
  | count index now =>
    obtain ⟨call, hcall, hcounting⟩ := Option.bind_eq_some_iff.mp hstep
    unfold counts at hcounting
    split at hcounting
    case h_2 => cases hcounting
    case h_1 task hphase =>
      cases hcounting
      have hcounted : counted task := hcounts call hcall task (by rw [hphase]; rfl)
      exact .advances index call _
        ⟨rfl, hcall, rfl, hphase ▸ .counts now hcounted, fun _ heq => (by cases heq), rfl, .inl rfl,
          .inl rfl⟩
  | save index stored =>
    obtain ⟨call, hcall, hsaves⟩ := Option.bind_eq_some_iff.mp hstep
    unfold saves at hsaves
    split at hsaves
    case h_2 => cases hsaves
    case h_1 operation others hphase =>
      split at hsaves
      · cases hsaves
        exact .advances index call _ ⟨rfl, hcall, rfl, hphase ▸ .saves,
          fun _ heq => (by cases heq), rfl, .inl rfl, .inr (by rw [hphase]; rfl)⟩
      · cases hsaves
        exact .advances index call _ ⟨rfl, hcall, rfl, .throws, fun _ heq => (by cases heq), rfl,
          .inl rfl, .inl rfl⟩
  | register input =>
    rw [step] at hstep
    split at hstep
    case isFalse => cases hstep
    case isTrue hok =>
      cases hstep
      refine .changes (writes_process _ _) (writes_reconciliations _ _)
        (fun sid registration hget => ?_) fun sid registration hget => .inl ?_
      · rw [writes, if_pos rfl, get?_set] at hget
        split at hget
        · cases hget
          exact .inr hok.2
        · exact .inl hget
      · rw [writes, if_pos rfl, get?_set_of_ne]
        · exact hget
        · rintro rfl
          rw [hok.1] at hget
          cases hget
  | purge before =>
    cases hstep
    exact .changes rfl rfl (fun sid registration hget => .inl (get?_of_filter hget))
      fun sid registration hget => (get?_filter_cases hget).imp id fun hgone => ⟨rfl, hgone⟩
  | erase sids =>
    cases hstep
    exact .changes rfl rfl (fun sid registration hget => .inl (get?_of_filter hget))
      fun sid registration hget => (get?_filter_cases hget).imp id fun hgone => ⟨rfl, hgone⟩

/-- What holds of operations and of the places of calls is kept by each move. -/
structure Rules (counted : Task → Prop) (P : Operation → Prop) (R : SessionControl.Phase → Prop)
    (Q : Phase → Prop) : Prop where
  /-- A lease changes nothing. -/
  leased : ∀ operation lease, P operation → P { operation with leaseUntil := lease }
  executed : ∀ operation, R (.saving operation) → P operation
  /-- A call with nothing in hand. -/
  idle : ∀ phase : SessionControl.Phase, phase.idle = true → R phase
  goes : ∀ call label phase next, R phase → Goes call label phase next → R next
  saved : ∀ operation others, Q (.saving operation others) → P operation
  /-- A reconciliation begins. -/
  claiming : ∀ now, Q (.claiming now)
  opens : ∀ found : List Operation, (∀ operation ∈ found, P operation ∧
    operation.result.status = .pending) → Q (nextOperation found)
  turns : ∀ label phase next, Q phase → Turns counted label phase next → Q next

/-- What holds of the operations in the registry, the calls and the reconciliations. -/
structure Keeps (P : Operation → Prop) (R : SessionControl.Phase → Prop) (Q : Phase → Prop)
    (s : System) : Prop where
  stored : ∀ key operation, s.process.operations.get? key = some operation → P operation
  calls : ∀ call ∈ s.process.calls, R call.phase
  reconciliations : ∀ call ∈ s.reconciliations, Q call.phase

variable {counted : Task → Prop} {P : Operation → Prop} {R : SessionControl.Phase → Prop}
  {Q : Phase → Prop}

theorem keeps_start (registrations : OrderedMap String SessionRegistration) :
    Keeps P R Q (start registrations) where
  stored key operation h := by cases h
  calls call h := by cases h
  reconciliations call h := by cases h

variable {operations : SessionOperations.Memory SessionMutationResult} {operation : Operation}

theorem get?_saveOperation {input : Operation}
    (h : (operations.saveOperation input).get? key = some operation) :
    operation = input ∨ operations.get? key = some operation := by
  rw [SessionOperations.Memory.saveOperation, get?_set] at h
  split at h
  · exact .inl (Option.some.inj h).symm
  · exact .inr h

theorem get?_foldl_saveOperation {found : List Operation}
    (h : (found.foldl (fun operations item => operations.saveOperation item) operations).get? key =
      some operation) : operation ∈ found ∨ operations.get? key = some operation := by
  induction found generalizing operations with
  | nil => exact .inr h
  | cons item rest ih =>
    rcases ih h with hmem | hbefore
    · exact .inl (.tail _ hmem)
    · rcases get?_saveOperation hbefore with rfl | hold
      · exact .inl (.head _)
      · exact .inr hold

theorem mem_claim {now : Nat} {keys : List String}
    (hclaimable : ∀ key ∈ keys, (operations.get? key).any fun operation => claimable operation now)
    (h : operation ∈ claim operations now keys) : ∃ key stored, operations.get? key = some stored ∧
      stored.result.status = .pending ∧
      operation = { stored with leaseUntil := some (now + leaseMs) } := by
  obtain ⟨key, hkey, hmap⟩ := List.mem_filterMap.mp h
  obtain ⟨stored, hstored, rfl⟩ := Option.map_eq_some_iff.mp hmap
  have hclaim := hclaimable key hkey
  rw [hstored, Option.any_some, claimable, decide_eq_true_eq] at hclaim
  exact ⟨key, stored, hstored, hclaim.1, rfl⟩

variable {label : Label}

theorem Keeps.step (rules : Rules counted P R Q) (h : Keeps P R Q s)
    (hcounts : Counts counted s label) (hstep : step validateUuid s label = some t) :
    Keeps P R Q t := by
  cases does_step hcounts hstep with
  | executes served hserves hprocess hrest =>
    have hreconciliations : t.reconciliations = s.reconciliations := by
      rw [hrest]
      exact (serves_cases hserves).2
    rcases step_cases hprocess with ⟨call, -, hidle, hcalls, hoperations⟩ |
      ⟨index, call, next, hmove⟩
    · refine ⟨hoperations ▸ h.stored, fun other hother => ?_, hreconciliations ▸ h.reconciliations⟩
      rw [hcalls] at hother
      rcases TransitionRuns.mem_concat_iff.mp hother with hold | rfl
      · exact h.calls other hold
      · exact rules.idle _ hidle
    · have hcall : R call.phase := h.calls call (List.mem_of_getElem? hmove.found)
      refine ⟨fun key operation hget => ?_, fun other hother => ?_,
        hreconciliations ▸ h.reconciliations⟩
      · rw [hmove.operations] at hget
        cases hphase : call.phase with
        | saving input =>
          rw [hphase] at hget hcall
          rcases get?_saveOperation hget with rfl | hold
          · exact rules.executed _ hcall
          · exact h.stored key operation hold
        | _ =>
          rw [hphase] at hget
          exact h.stored key operation hget
      · rw [hmove.calls] at hother
        rcases List.mem_or_eq_of_mem_set hother with hold | rfl
        · exact h.calls other hold
        · exact rules.goes call _ _ _ hcall hmove.goes
  | begins hprocess _ hcalls =>
    refine ⟨hprocess ▸ h.stored, hprocess ▸ h.calls, fun call hcall => ?_⟩
    rw [hcalls] at hcall
    rcases TransitionRuns.mem_concat_iff.mp hcall with hold | rfl
    · exact h.reconciliations call hold
    · exact rules.claiming _
  | claims call hclaim =>
    have hfound : ∀ operation ∈ claim s.process.operations _ _, P operation ∧
        operation.result.status = .pending := fun operation hmem => by
      obtain ⟨key, stored, hstored, hpending, rfl⟩ := mem_claim hclaim.claimable hmem
      exact ⟨rules.leased _ _ (h.stored key stored hstored), hpending⟩
    refine ⟨fun key operation hget => ?_, hclaim.calls ▸ h.calls, fun other hother => ?_⟩
    · rw [hclaim.operations] at hget
      rcases get?_foldl_saveOperation hget with hmem | hold
      · exact (hfound operation hmem).1
      · exact h.stored key operation hold
    · rw [hclaim.reconciliations] at hother
      rcases List.mem_or_eq_of_mem_set hother with hold | rfl
      · exact h.reconciliations other hold
      · exact rules.opens _ hfound
  | advances index call next hadvance =>
    have hcall : Q call.phase := h.reconciliations call (List.mem_of_getElem? hadvance.found)
    refine ⟨fun key operation hget => ?_, hadvance.calls ▸ h.calls, fun other hother => ?_⟩
    · rcases hadvance.operations with hsame | hsaves
      · rw [hsame] at hget
        exact h.stored key operation hget
      · rw [hsaves] at hget
        cases hphase : call.phase with
        | saving input others =>
          rw [hphase] at hget hcall
          rcases get?_saveOperation hget with rfl | hold
          · exact rules.saved _ _ hcall
          · exact h.stored key operation hold
        | _ =>
          rw [hphase] at hget
          exact h.stored key operation hget
    · rw [hadvance.reconciliations] at hother
      rcases List.mem_or_eq_of_mem_set hother with hold | rfl
      · exact h.reconciliations other hold
      · exact rules.turns _ _ _ hcall hadvance.turns
  | changes hprocess hcalls _ _ =>
    exact ⟨hprocess ▸ h.stored, hprocess ▸ h.calls, hcalls ▸ h.reconciliations⟩

end Stynx.SessionReconcile
