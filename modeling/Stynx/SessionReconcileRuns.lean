import Stynx.SessionControlRuns
import Stynx.SessionReconcileMoves

/-!
# The status of a session operation

`execute` and `reconcile` compute the status of an operation each in its own way. A failed item is
failed for `execute` and unsupported for `reconcile`.
-/

namespace Stynx.SessionReconcile

open SessionControl TransitionRuns

variable {validateUuid : String → Bool} {s t : System} {operation : Operation}
  {items : List SessionItemResult}

def Alike (operation : Operation) : Prop := operation.result.status = statusOf operation.result.results

instance decidableAlike (operation : Operation) : Decidable (Alike operation) :=
  inferInstanceAs (Decidable (_ = _))

/-- Each operation in the registry has the status of its items. -/
def StatusesAlike (s : System) : Prop :=
  ∀ key operation, s.process.operations.get? key = some operation → Alike operation

/-- No reconciliation has read the table of delays where it has none. -/
def InTable (s : System) : Prop := ∀ call ∈ s.reconciliations, call.phase ≠ .outside

/-- After the pending items have been tried, some are pending or none has failed. -/
def NoneFailed (task : Task) : Prop :=
  (task.done.any fun item => item.status = .pending) = true ∨
    (task.done.any fun item => item.status = .failed) = false

instance decidableNoneFailed : DecidablePred NoneFailed := fun _ => inferInstanceAs (Decidable (_ ∨ _))

theorem statusOf_of_not_pending (h : (items.any fun item => item.status = .pending) = false) :
    statusOf items = if items.any fun item => item.status = .failed then .failed
      else if items.any fun item => item.status = .unsupported then .unsupported else .revoked := by
  rw [statusOf, h]
  rfl

theorem all_revoked_eq (hpending : (items.any fun item => item.status = .pending) = false)
    (hfailed : (items.any fun item => item.status = .failed) = false) :
    (items.all fun item => item.status = .revoked) =
      !items.any fun item => item.status = .unsupported := by
  induction items with
  | nil => rfl
  | cons item rest ih =>
    rw [List.any_cons, Bool.or_eq_false_iff, decide_eq_false_iff_not] at hpending hfailed
    have hrest := ih hpending.2 hfailed.2
    rw [List.all_cons, List.any_cons, hrest, Bool.not_or]
    congr 1
    cases hstatus : item.status with
    | pending => exact absurd hstatus hpending.1
    | failed => exact absurd hstatus hfailed.1
    | revoked => rfl
    | unsupported => rfl

theorem settled_iff (h : (items.any fun item => item.status = .pending) = false) :
    (if items.all fun item => item.status = .revoked then MutationStatus.revoked else .unsupported) =
      statusOf items ↔ (items.any fun item => item.status = .failed) = false := by
  rw [statusOf_of_not_pending h]
  cases hfailed : items.any fun item => item.status = .failed with
  | true =>
    rw [if_pos rfl]
    refine ⟨fun heq => ?_, fun heq => by cases heq⟩
    split at heq
    all_goals cases heq
  | false =>
    refine iff_of_true ?_ rfl
    rw [all_revoked_eq h hfailed]
    cases items.any fun item => item.status = .unsupported
    all_goals rfl

theorem exhausted_status (item : SessionItemResult) : (exhausted item).status ≠ .pending := by
  rw [exhausted]
  split
  case isTrue =>
    intro h
    cases h
  case isFalse hnot => exact hnot

theorem status_of_passed {item : SessionItemResult} :
    ∀ other ∈ items.map exhausted ++ [failedItem item], other.status ≠ .pending := by
  intro other hother
  rcases mem_concat_iff.mp hother with hbefore | rfl
  · obtain ⟨old, -, rfl⟩ := List.mem_map.mp hbefore
    exact exhausted_status old
  · intro h
    cases h

theorem statusOf_exhausted (h : (items.any fun item => item.status = .pending) = true) :
    statusOf (items.map exhausted) = .failed := by
  have hnone : ((items.map exhausted).any fun item => item.status = .pending) = false := by
    rw [List.any_eq_false]
    intro item hitem
    obtain ⟨before, -, rfl⟩ := List.mem_map.mp hitem
    rw [decide_eq_true_eq]
    exact exhausted_status before
  obtain ⟨item, hitem, hpending⟩ := List.any_eq_true.mp h
  have hfailed : ((items.map exhausted).any fun item => item.status = .failed) = true := by
    refine List.any_eq_true.mpr ⟨exhausted item, List.mem_map_of_mem hitem, ?_⟩
    rw [decide_eq_true_eq] at hpending ⊢
    rw [exhausted, if_pos hpending]
    rfl
  rw [statusOf_of_not_pending hnone, if_pos hfailed]

theorem map_exhausted_of_not_pending (h : ∀ item ∈ items, item.status ≠ .pending) :
    items.map exhausted = items :=
  (List.map_congr_left fun item hitem => if_neg (h item hitem)).trans (List.map_id items)

/-- An operation that can be tried again. -/
def Retriable (operation : Operation) : Prop :=
  operation.result.status = .pending ∧ 1 ≤ operation.attempts ∧
    operation.attempts ≤ retrySeconds.length

variable {strict : Prop}

/-- What is known of an operation in the registry, and of its status in a strict run. -/
structure Sound (strict : Prop) (operation : Operation) : Prop where
  tried : 1 ≤ operation.attempts
  left : operation.result.status = .pending → operation.attempts ≤ retrySeconds.length
  /-- Its status is that of its items. -/
  alike : strict → Alike operation

theorem Sound.retriable (h : Sound strict operation) (hpending : operation.result.status = .pending) :
    Retriable operation :=
  ⟨hpending, h.tried, h.left hpending⟩

/-- An operation whose retries have run out. -/
structure Spent (task : Task) : Prop where
  tried : 1 ≤ task.operation.attempts
  failed : task.operation.result.status = .failed
  /-- So say its items. -/
  alike : statusOf ((task.done ++ task.rest).map exhausted) = .failed
  /-- None of those that the loop has passed is pending. -/
  done : ∀ item ∈ task.done, item.status ≠ .pending

/-- What is known of a reconciliation at a place. -/
def PhaseSound (strict : Prop) : Phase → Prop
  | .listing operation others => ∀ o ∈ operation :: others, Retriable o
  | .asking task _ _ | .updating task _ | .counting task =>
    ∀ o ∈ task.operation :: task.others, Retriable o
  | .failing task _ => Spent task ∧ ∀ o ∈ task.others, Retriable o
  | .saving operation others => Sound strict operation ∧ ∀ o ∈ others, Retriable o
  | .outside => False
  | _ => True

/-- What is known of a call at a place. -/
def CallSound (strict : Prop) (phase : SessionControl.Phase) : Prop :=
  ∀ operation, phase = .saving operation → Sound strict operation

theorem sound_operationOf (call : Call) (results : List SessionItemResult) (now : Nat) :
    Sound strict (operationOf call results now) :=
  ⟨le_rfl, fun _ => (by decide : 1 ≤ retrySeconds.length), fun _ => rfl⟩

variable {rows : List SessionRegistration} {others : List Operation} {phase : Phase}

theorem phaseSound_atItem (h : AtItem operation rows others items phase)
    (hall : ∀ o ∈ operation :: others, Retriable o) :
    PhaseSound strict phase := by
  cases h with
  | asking => exact hall
  | counting => exact hall

theorem phaseSound_atFailed {now : Nat} (h : AtFailed operation rows others now items phase)
    (htried : 1 ≤ operation.attempts) (hfailed : operation.result.status = .failed)
    (halike : statusOf (items.map exhausted) = .failed) (hothers : ∀ o ∈ others, Retriable o) :
    PhaseSound strict phase := by
  cases h with
  | failing hitems hpending hrow =>
    rename_i before rest item registration
    have hitem : exhausted item = failedItem item := if_pos hpending
    have hdone : before.map exhausted ++ [failedItem item] = (before ++ [item]).map exhausted := by
      rw [List.map_append, List.map_singleton, hitem]
    refine ⟨⟨htried, hfailed, ?_, status_of_passed⟩, hothers⟩
    rw [List.map_append, map_exhausted_of_not_pending status_of_passed, hdone, ← List.map_append,
      List.append_assoc]
    exact hitems ▸ halike
  | saving =>
    refine ⟨⟨htried, fun hpending => ?_, fun _ => hfailed.trans halike.symm⟩, hothers⟩
    exact absurd (hfailed.symm.trans hpending) (by decide)

theorem phaseSound_count {task : Task} (hall : ∀ o ∈ task.operation :: task.others, Retriable o)
    (hcounted : strict → NoneFailed task) (now : Nat) : PhaseSound strict (count task now) := by
  obtain ⟨hstatus, htried, hleft⟩ := hall task.operation (.head _)
  have hothers : ∀ o ∈ task.others, Retriable o := fun o ho => hall o (.tail _ ho)
  rw [count]
  dsimp only
  split
  case isTrue hspent =>
    exact phaseSound_atFailed (nextFailed_atFailed task.done List.map_nil rfl)
      (Nat.le_add_left 1 _) rfl (statusOf_exhausted hspent.1) hothers
  case isFalse hnot =>
    split
    case isTrue hpending =>
      have hnext : task.operation.attempts + 1 ≤ retrySeconds.length :=
        not_lt.mp fun hlt => hnot ⟨hpending, hlt⟩
      have hin : task.operation.attempts + 1 - 1 < retrySeconds.length := by omega
      rw [List.getElem?_eq_getElem hin]
      refine ⟨⟨Nat.le_add_left 1 _, fun _ => hnext, fun _ => ?_⟩, hothers⟩
      exact hstatus.trans (if_pos hpending).symm
    case isFalse hpending =>
      have hnone : (task.done.any fun item => item.status = .pending) = false :=
        Bool.eq_false_iff.mpr hpending
      refine ⟨⟨Nat.le_add_left 1 _, fun heq => ?_, fun hstrict => ?_⟩, hothers⟩
      · dsimp only [withResults] at heq
        split at heq
        all_goals cases heq
      · exact (settled_iff hnone).mpr ((hcounted hstrict).resolve_left hpending)

theorem phaseSound_nextOperation (h : ∀ o ∈ others, Retriable o) :
    PhaseSound strict (nextOperation others) := by
  cases others with
  | nil => trivial
  | cons operation others => exact h

theorem rules_sound :
    Rules (fun task => strict → NoneFailed task) (Sound strict) (CallSound strict)
      (PhaseSound strict) where
  leased operation lease h := ⟨h.tried, h.left, h.alike⟩
  executed operation h := h operation rfl
  idle phase hidle operation hphase := by
    rw [hphase] at hidle
    cases hidle
  goes call label phase next _ hgoes operation hphase := by
    cases hgoes with
    | idles hidle =>
      rw [hphase] at hidle
      cases hidle
    | finishes now =>
      cases hphase
      exact sound_operationOf call _ now
    | _ => cases hphase
  saved operation others h := h.1
  claiming now := trivial
  opens found h := phaseSound_nextOperation fun operation hmem =>
    (h operation hmem).1.retriable (h operation hmem).2
  turns label phase next h hturns := by
    cases hturns with
    | lists rows => exact phaseSound_atItem (nextItem_atItem _ rfl) h
    | stays => exact phaseSound_atItem (nextItem_atItem _ rfl) h
    | answered => exact h
    | updates => exact phaseSound_atItem (nextItem_atItem _ rfl) h
    | counts now hcounted => exact phaseSound_count h hcounted now
    | fails now =>
      obtain ⟨hspent, hothers⟩ := h
      exact phaseSound_atFailed (nextFailed_atFailed _ (map_exhausted_of_not_pending hspent.done) rfl)
        hspent.tried hspent.failed hspent.alike hothers
    | saves => exact phaseSound_nextOperation h.2
    | throws => trivial

theorem sound_run {labels : List Label} {registrations : OrderedMap String SessionRegistration}
    {last : System} (hrun : run (step validateUuid) (start registrations) labels = some last)
    (hmeets : RunMeets (step validateUuid) (Counts fun task => strict → NoneFailed task)
      (start registrations) labels) :
    Keeps (Sound strict) (CallSound strict) (PhaseSound strict) last :=
  run_invariant_of_meets (fun _ _ _ hs hok hstep => hs.step rules_sound hok hstep)
    (keeps_start registrations) hmeets hrun

/-- The table of delays is read only where it has one; and when each reconciliation finds some item
pending or none failed, each stored operation has the status of its items. -/
theorem statuses_alike (validateUuid : String → Bool)
    (registrations : OrderedMap String SessionRegistration) (labels : List Label) (last : System)
    (hrun : run (step validateUuid) (start registrations) labels = some last) :
    InTable last ∧ (RunMeets (step validateUuid) (Counts NoneFailed) (start registrations) labels →
      StatusesAlike last) := by
  constructor
  · have hall : RunMeets (step validateUuid) (fun _ _ => True) (start registrations) labels :=
      runMeets_of_forall_mem fun _ _ => trivial
    have hany : ∀ s label, True → Counts (fun task => False → NoneFailed task) s label :=
      fun s label _ => counts_of_forall (fun _ hfalse => hfalse.elim) label
    have hsound := sound_run hrun (hall.mono hany)
    intro call hcall hphase
    have hat := hsound.reconciliations call hcall
    rw [hphase] at hat
    exact hat
  · intro hmeets
    have hstrict : RunMeets (step validateUuid) (Counts fun task => True → NoneFailed task)
        (start registrations) labels :=
      hmeets.mono fun _ _ hcounts => hcounts.mono fun _ h _ => h
    have hsound := sound_run hrun hstrict
    exact fun key operation hget => (hsound.stored key operation hget).alike trivial

def ownRegistry : OrderedMap String SessionRegistration := OrderedMap.empty.set "s1" ownSession

/-- A logout whose provider is out, from the call to its end. -/
def outageLabels : List Label :=
  ([logout, .registry 0 []] ++ asks 0 none ++ ends 0).map .execute

def pendingSession : SessionRegistration := afterAnswer ownSession outage 1

/-- A reconciliation up to the answer of the provider. -/
def reconciles (given : Option ProviderRevocationResult) : List Label :=
  [.reconcile ⟨"worker", "worker", "tenant", "s0", []⟩ 25 6000, .claim 0 [logoutKey],
    .list 0 [pendingSession], .answer 0 6001 given]

def rejected : ProviderRevocationResult := ⟨.failed, noGuarantee, some "PROVIDER_REJECTED"⟩

/-- The provider is out, and then refuses: a failed item in an unsupported operation. -/
theorem statuses_differ : ∃ last, run (step fun _ => true) (start ownRegistry)
    (outageLabels ++ reconciles (some rejected) ++ [.update 0 6001 true, .count 0 6002, .save 0 true]) =
      some last ∧ ¬ StatusesAlike last :=
  ⟨_, rfl, fun h => absurd (h logoutKey _ rfl) (by decide)⟩

/-- The provider is out twice, then confirms. -/
theorem statuses_alike_run : ∃ last, run (step fun _ => true) (start ownRegistry)
    (outageLabels ++ reconciles (some confirmed) ++
      [.update 0 6001 true, .count 0 6002, .save 0 true]) = some last ∧
    InTable last ∧ StatusesAlike last := by
  have hlaw := fun last => statuses_alike (fun _ => true) ownRegistry
    (outageLabels ++ reconciles (some confirmed) ++
      [.update 0 6001 true, .count 0 6002, .save 0 true]) last
  refine ⟨_, rfl, ?_⟩
  exact ⟨(hlaw _ rfl).1, (hlaw _ rfl).2 (by decide)⟩

end Stynx.SessionReconcile
