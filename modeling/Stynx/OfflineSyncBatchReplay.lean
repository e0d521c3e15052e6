import Stynx.OfflineSyncBatchRuns

/-!
# Closed batches and their identities

A closed record is final, and a submission of a closed batch writes nothing. A later one with the
same fingerprint gets the stored result; the identities of its items and the configuration of its
ports are checked before.

The identity of a batch joins device and batch with a colon, and neither is checked for colons:
two pairs have one identity when they are two ways of reading one text.
-/

namespace Stynx.OfflineSyncBatchReplay

open OfflineSyncNumbering hiding Store
open OfflineSyncQueue OfflineSyncBatches OfflineSyncBatchRuns OrderedMap
open TransitionRuns ExceptFolds SeparatedLists

section

variable {batch : Batch} {s : Store} {progress : Progress} {item : ItemInput}

theorem frame_processAttempt {receiptKey : String} {previous : Option ReceiptEntry} :
    SameBatches s (ItemRun.left (batch.processAttempt s progress item receiptKey previous) s) := by
  rw [Batch.processAttempt]
  split
  · exact (Keeps.refl s).frame
  · rename_i t attempt retryable hattempt
    have hkeeps := (keeps_attemptItem hattempt).1
    split
    · exact (Keeps.refl s).frame
    · rename_i next hrecord
      exact hkeeps.frame.trans (recordItem_eq_ok hrecord).2.2

theorem frame_processItem : SameBatches s (ItemRun.left (batch.processItem s progress item) s) := by
  rcases processItem_cases batch s progress item with
    ⟨ending, heq, hkeeps⟩ | ⟨receiptKey, previous, -, -, -, -, heq⟩
  · rw [heq]
    cases ending with
    | error error => exact (Keeps.refl s).frame
    | ok next => exact (hkeeps next rfl).frame
  · rw [heq]
    exact frame_processAttempt

theorem frame_processItems (items : List ItemInput) {s : Store} {progress : Progress} :
    SameBatches s (batch.processItems s progress items).2.1 := by
  induction items generalizing s progress with
  | nil => exact (Keeps.refl s).frame
  | cons item rest ih =>
    have hitem : SameBatches s (ItemRun.left (batch.processItem s progress item) s) :=
      frame_processItem
    rw [Batch.processItems]
    cases hending : (batch.processItem s progress item).ending with
    | error error => exact (Keeps.refl s).frame
    | ok next =>
      rw [ItemRun.left, hending] at hitem
      exact hitem.trans ih

end

section

variable {platform : Platform} {s : Store} {scope : Scope} {input : BatchInput}
  {execution : Execution} {now : String}

variable {record : BatchRecord}

variable {other : String} {result : BatchResult}

theorem batches_runBatch {batch : Batch} (hother : other ≠ batch.identity) :
    (runBatch s batch record).store.batches.get? other = s.batches.get? other := by
  have hframe : SameBatches s (batch.processItems s ⟨[], [], 0, false⟩ batch.input.items).2.1 :=
    frame_processItems batch.input.items
  rw [runBatch]
  split
  · exact congrArg (OrderedMap.get? · other) hframe.batches
  · dsimp only
    rw [get?_set_of_ne _ _ (Ne.symm hother), hframe.batches]

theorem batches_submit (hother : other ≠ batchIdentity scope input) :
    (submitDurableSyncBatch platform s scope input execution now).store.batches.get? other =
      s.batches.get? other := by
  rw [submitDurableSyncBatch]
  split
  · rfl
  · dsimp only
    split
    · rfl
    · refine (batches_runBatch hother).trans ?_
      exact get?_set_of_ne _ _ (Ne.symm hother)

def Closed (s : Store) (identity : String) (record : BatchRecord) (result : BatchResult) : Prop :=
  s.batches.get? identity = some record ∧ record.result = some result

theorem submit_closed (hclosed : Closed s (batchIdentity scope input) record result) :
    submitDurableSyncBatch platform s scope input execution now =
      match checkSubmission platform s scope input execution with
      | .error error => ⟨[], s, .error error⟩
      | .ok _ => ⟨[], bindTransport platform s scope input execution, .ok result⟩ := by
  rw [submitDurableSyncBatch]
  cases checkSubmission platform s scope input execution with
  | error error => rfl
  | ok itemKeys =>
    dsimp only
    rw [hclosed.1, Option.bind_some, hclosed.2]

theorem closed_submit {identity : String} (hclosed : Closed s identity record result) :
    Closed (submitDurableSyncBatch platform s scope input execution now).store identity record
      result := by
  by_cases hidentity : identity = batchIdentity scope input
  · subst hidentity
    rw [submit_closed hclosed]
    split
    · exact hclosed
    · exact hclosed
  · refine ⟨?_, hclosed.2⟩
    rw [batches_submit hidentity]
    exact hclosed.1

end

variable {identity : String} {record : BatchRecord} {result : BatchResult}

theorem Closed.congr {s t : Store} (hclosed : Closed s identity record result)
    (hframe : SameBatches s t) :
    Closed t identity record result :=
  ⟨by rw [hframe.batches]; exact hclosed.1, hclosed.2⟩

theorem step_closed (platform : Platform) (sys : System) (command : Command) (next : System)
    (hclosed : Closed sys.store identity record result) (h : step platform sys command = some next) :
    Closed next.store identity record result := by
  cases h
  cases command with
  | submitDurableSyncBatch scope input execution now => exact closed_submit hclosed
  | submitSyncBatch scope input now =>
    exact hclosed.congr (keeps_kept fun t h => keeps_submitSyncBatch h).frame
  | openConflict scope queueItemId conflictType description conflictId =>
    exact hclosed.congr (keeps_kept fun next h => keeps_openConflict h).frame
  | resolveConflict scope conflictId input now =>
    exact hclosed.congr (keeps_kept fun next h => keeps_resolveConflict h).frame
  | resolveWithPort scope id input now actionId ports =>
    exact hclosed.congr (keeps_kept fun next h => keeps_resolveWithPort h).frame
  | renumber numbering => exact hclosed.congr ⟨rfl, rfl⟩

section

variable {platform : Platform} {s : Store} {scope : Scope} {input : BatchInput}
  {execution : Execution}

/-- The identities of the items, for which the host may be asked, and the configuration of the
ports. -/
def PassesFirstChecks (platform : Platform) (scope : Scope) (input : BatchInput) (ports : Ports) :
    Prop :=
  (∃ declared, input.items.foldlM (declareKey platform scope input ports) (.empty, []) =
      .ok declared) ∧
    checkPorts input ports = .ok ()

/-- The transport key is new, or bound to this batch with the same fingerprint. -/
def TransportFits (platform : Platform) (s : Store) (scope : Scope) (input : BatchInput)
    (execution : Execution) : Prop :=
  ∀ bound, s.transport.get? (platform.transportCompositeKey scope execution.transport) =
      some bound →
    bound = ⟨batchIdentity scope input, platform.transportFingerprint execution.transport input⟩

theorem checkTransport_of_fits (hfits : TransportFits platform s scope input execution) :
    checkTransport s (platform.transportCompositeKey scope execution.transport)
      (platform.transportFingerprint execution.transport input) (batchIdentity scope input) =
        .ok () := by
  rw [checkTransport]
  split
  · rfl
  · rename_i bound hbound
    rw [hfits bound hbound, if_neg (not_not.mpr rfl), if_neg (not_not.mpr rfl)]

variable {record : BatchRecord}

theorem checkSubmission_eq_ok (hget : s.batches.get? (batchIdentity scope input) = some record)
    (hhash : record.contextHash = platform.batchContextFingerprint input execution.agentId)
    (hfits : TransportFits platform s scope input execution)
    (hfirst : PassesFirstChecks platform scope input execution.ports) :
    ∃ itemKeys, checkSubmission platform s scope input execution = .ok itemKeys := by
  obtain ⟨⟨declared, hdeclared⟩, hports⟩ := hfirst
  have hcontext : checkContext platform s scope input execution = .ok () := by
    rw [checkContext, hget]
    dsimp only
    rw [if_neg (not_not.mpr hhash)]
  refine ⟨declared.1, bind_eq_ok.mpr ⟨declared, hdeclared, ?_⟩⟩
  refine bind_eq_ok.mpr ⟨(), hports, ?_⟩
  refine bind_eq_ok.mpr ⟨(), hcontext, ?_⟩
  exact bind_eq_ok.mpr ⟨(), checkTransport_of_fits hfits, rfl⟩

theorem checkSubmission_ne_ok (hget : s.batches.get? (batchIdentity scope input) = some record)
    (hhash : record.contextHash ≠ platform.batchContextFingerprint input execution.agentId) :
    ∃ error, checkSubmission platform s scope input execution = .error error := by
  cases hchecks : checkSubmission platform s scope input execution with
  | error error => exact ⟨error, rfl⟩
  | ok itemKeys =>
    obtain ⟨_, -, hchecks⟩ := bind_eq_ok.mp hchecks
    obtain ⟨_, -, hchecks⟩ := bind_eq_ok.mp hchecks
    obtain ⟨_, hcontext, -⟩ := bind_eq_ok.mp hchecks
    rw [checkContext, hget] at hcontext
    dsimp only at hcontext
    rw [if_pos hhash] at hcontext
    cases hcontext

theorem checkSubmission_congr {other : Ports}
    (hresolver : other.legacyItemIdentityResolver = execution.ports.legacyItemIdentityResolver)
    (happlier : other.itemApplier.isSome = execution.ports.itemApplier.isSome)
    (hevent : other.eventPort.isSome = execution.ports.eventPort.isSome) :
    checkSubmission platform s scope input { execution with ports := other } =
      checkSubmission platform s scope input execution := by
  have hdeclare : declareKey platform scope input other =
      declareKey platform scope input execution.ports := by
    funext found item
    rw [declareKey, declareKey, declaredKey, declaredKey, hresolver]
  have hports : checkPorts input other = checkPorts input execution.ports := by
    rw [checkPorts, checkPorts, ← Option.not_isSome, ← Option.not_isSome, ← Option.not_isSome,
      ← Option.not_isSome, happlier, hevent]
  rw [checkSubmission, checkSubmission, hdeclare, hports]
  rfl

end

/-- Once a batch is closed, its record stays. A submission that passes the first checks and has the
same fingerprint gets the stored result, and only its transport key is bound; one with another
fingerprint is refused and changes nothing. No other port has a part in this. -/
theorem closed_batch_replays (platform : Platform) (scope : Scope) (input : BatchInput)
    (execution : Execution) (now : String) (record : BatchRecord) (result : BatchResult)
    (sys later : System) (commands : List Command)
    (hclosed : Closed sys.store (batchIdentity scope input) record result)
    (hrun : run (step platform) sys commands = some later) :
    Closed later.store (batchIdentity scope input) record result ∧
      (record.contextHash = platform.batchContextFingerprint input execution.agentId →
        TransportFits platform later.store scope input execution →
        PassesFirstChecks platform scope input execution.ports →
        submitDurableSyncBatch platform later.store scope input execution now =
          ⟨[], bindTransport platform later.store scope input execution, .ok result⟩) ∧
      (record.contextHash ≠ platform.batchContextFingerprint input execution.agentId →
        ∃ error, submitDurableSyncBatch platform later.store scope input execution now =
          ⟨[], later.store, .error error⟩) ∧
      ∀ other : Ports,
        other.legacyItemIdentityResolver = execution.ports.legacyItemIdentityResolver →
        other.itemApplier.isSome = execution.ports.itemApplier.isSome →
        other.eventPort.isSome = execution.ports.eventPort.isSome →
        submitDurableSyncBatch platform later.store scope input { execution with ports := other }
            now =
          submitDurableSyncBatch platform later.store scope input execution now := by
  have hlater : Closed later.store (batchIdentity scope input) record result :=
    run_invariant (fun sys command next => step_closed platform sys command next) hclosed hrun
  refine ⟨hlater, ?_, ?_, ?_⟩
  · intro hhash hfits hfirst
    obtain ⟨itemKeys, hchecks⟩ := checkSubmission_eq_ok hlater.1 hhash hfits hfirst
    rw [submit_closed hlater, hchecks]
  · intro hhash
    obtain ⟨error, hchecks⟩ := checkSubmission_ne_ok hlater.1 hhash
    refine ⟨error, ?_⟩
    rw [submit_closed hlater, hchecks]
  · intro other hresolver happlier hevent
    rw [submit_closed hlater, submit_closed hlater, checkSubmission_congr hresolver happlier hevent]
    rfl

/-- The ports of a host that resolves the identities of items without one. -/
def resolvingPorts (resolve : ItemInput → Except Thrown String) : Ports :=
  { samplePorts (fun _ _ => .ok ⟨"entity", none⟩) with legacyItemIdentityResolver := some resolve }

/-- A batch of one item without an identity. -/
def unkeyedInput : BatchInput :=
  ⟨"unit", "d1", "b1", none, none,
    [⟨"q1", "order", "local", none, sampleHash, "\x7b\x7d", "2026-01-01T00:00:00.000Z", none, none⟩]⟩

def unkeyedExecution (transportKey : String) (resolve : ItemInput → Except Thrown String) :
    Execution :=
  ⟨"agent", ⟨none, none⟩, resolvingPorts resolve,
    ⟨transportKey, "/offline-sync/sync-batches", none, none⟩⟩

def closingRequest : Command :=
  .submitDurableSyncBatch OfflineSyncNumberingRuns.sampleScope unkeyedInput
    (unkeyedExecution "first" fun _ => .ok "identity") "2026-01-01T00:00:00.000Z"

/-- The same request while the host cannot resolve identities. -/
def unresolvedExecution : Execution :=
  unkeyedExecution "second" fun _ => .error { kind := .object, message := "unavailable" }

/-- The closed record and the binding of a transport key, and whether one more submission returns.
-/
def probe (execution : Execution) (sys : System) : Option String × Option TransportBinding × Bool :=
  ((sys.store.batches.get? (batchIdentity OfflineSyncNumberingRuns.sampleScope unkeyedInput)).bind
      fun record => record.result.map fun _ => record.contextHash,
    sys.store.transport.get? (samplePlatform.transportCompositeKey
      OfflineSyncNumberingRuns.sampleScope execution.transport),
    match (submitDurableSyncBatch samplePlatform sys.store OfflineSyncNumberingRuns.sampleScope
        unkeyedInput execution "2026-01-02T00:00:00.000Z").ending with
    | .ok _ => true
    | .error _ => false)

theorem probe_closed {execution : Execution} {sys : System} {hash : String} {answered : Bool}
    (h : probe execution sys = (some hash, none, answered)) :
    ∃ record result, Closed sys.store
        (batchIdentity OfflineSyncNumberingRuns.sampleScope unkeyedInput) record result ∧
      record.contextHash = hash ∧ TransportFits samplePlatform sys.store
        OfflineSyncNumberingRuns.sampleScope unkeyedInput execution := by
  obtain ⟨hrecord, hrest⟩ := Prod.mk.inj h
  obtain ⟨htransport, -⟩ := Prod.mk.inj hrest
  obtain ⟨record, hget, hresult⟩ := Option.bind_eq_some_iff.mp hrecord
  obtain ⟨result, hresult, hhash⟩ := Option.map_eq_some_iff.mp hresult
  refine ⟨record, result, ⟨hget, hresult⟩, hhash, ?_⟩
  intro bound hbound
  rw [htransport] at hbound
  cases hbound

/-- The host is asked first for the identity that its item does not have. -/
theorem replay_asks_for_identity :
    ∃ sys record result, run (step samplePlatform) .initial [closingRequest] = some sys ∧
      Closed sys.store (batchIdentity OfflineSyncNumberingRuns.sampleScope unkeyedInput) record
        result ∧
      record.contextHash =
        samplePlatform.batchContextFingerprint unkeyedInput unresolvedExecution.agentId ∧
      TransportFits samplePlatform sys.store OfflineSyncNumberingRuns.sampleScope unkeyedInput
        unresolvedExecution ∧
      ∀ answer, (submitDurableSyncBatch samplePlatform sys.store
        OfflineSyncNumberingRuns.sampleScope unkeyedInput unresolvedExecution
        "2026-01-02T00:00:00.000Z").ending ≠ .ok answer := by
  have hprobe : (run (step samplePlatform) .initial [closingRequest]).map
      (probe unresolvedExecution) =
        some (some (samplePlatform.batchContextFingerprint unkeyedInput
          unresolvedExecution.agentId), none, false) := by
    decide
  obtain ⟨sys, hrun, hsys⟩ := Option.map_eq_some_iff.mp hprobe
  obtain ⟨record, result, hclosed, hhash, hfits⟩ := probe_closed hsys
  refine ⟨sys, record, result, hrun, hclosed, hhash, hfits, ?_⟩
  intro answer hanswer
  have hrefused := (Prod.mk.inj (Prod.mk.inj hsys).2).2
  rw [hanswer] at hrefused
  cases hrefused

/-- The closed batch, sent again under a new transport key after another batch. -/
theorem closed_batch_replays_unkeyed :
    ∃ sys later record result,
      Closed sys.store (batchIdentity OfflineSyncNumberingRuns.sampleScope unkeyedInput) record
        result ∧
      run (step samplePlatform) sys [sampleBatch "b2" fun _ _ => .ok ⟨"entity", none⟩] =
        some later ∧
      submitDurableSyncBatch samplePlatform later.store OfflineSyncNumberingRuns.sampleScope
          unkeyedInput (unkeyedExecution "third" fun _ => .ok "identity")
          "2026-01-02T00:00:00.000Z" =
        ⟨[], bindTransport samplePlatform later.store OfflineSyncNumberingRuns.sampleScope
          unkeyedInput (unkeyedExecution "third" fun _ => .ok "identity"), .ok result⟩ := by
  let execution := unkeyedExecution "third" fun _ => .ok "identity"
  have hclose : (run (step samplePlatform) .initial [closingRequest]).map (probe execution) =
      some (some (samplePlatform.batchContextFingerprint unkeyedInput execution.agentId), none,
        true) := by
    decide
  obtain ⟨sys, hrun, hsys⟩ := Option.map_eq_some_iff.mp hclose
  obtain ⟨record, result, hclosed, hhash, -⟩ := probe_closed hsys
  have hagain : ((run (step samplePlatform) .initial [closingRequest]).bind fun sys =>
      run (step samplePlatform) sys [sampleBatch "b2" fun _ _ => .ok ⟨"entity", none⟩]).map
        (probe execution) =
      some (some (samplePlatform.batchContextFingerprint unkeyedInput execution.agentId), none,
        true) := by
    decide
  rw [hrun, Option.bind_some] at hagain
  obtain ⟨later, hlater, hprobe⟩ := Option.map_eq_some_iff.mp hagain
  obtain ⟨-, -, -, -, hfits⟩ := probe_closed hprobe
  have hfirst : PassesFirstChecks samplePlatform OfflineSyncNumberingRuns.sampleScope unkeyedInput
      execution.ports := ⟨⟨_, rfl⟩, rfl⟩
  exact ⟨sys, later, record, result, hclosed, hlater,
    (closed_batch_replays samplePlatform OfflineSyncNumberingRuns.sampleScope unkeyedInput
      execution "2026-01-02T00:00:00.000Z" record result sys later _ hclosed hlater).2.1 hhash hfits
      hfirst⟩

def defaultTransportKey (input : BatchInput) : String :=
  "service:" ++ input.deviceId ++ ":" ++ input.deviceBatchId

def assertText (value : String) : Bool := !value.toList.all isTrimmed

def pairOf (input : BatchInput) : String × String := (input.deviceId, input.deviceBatchId)

/-- The device of one pair goes on after that of the other with a colon and the start of its batch.
-/
def Overlap (first second : BatchInput) : Prop :=
  (∃ w, second.deviceId = first.deviceId ++ ":" ++ w ∧
      first.deviceBatchId = w ++ ":" ++ second.deviceBatchId) ∨
    ∃ w, first.deviceId = second.deviceId ++ ":" ++ w ∧
      second.deviceBatchId = w ++ ":" ++ first.deviceBatchId

theorem toList_join (a b : String) : (a ++ ":" ++ b).toList = a.toList ++ ':' :: b.toList :=
  OfflineSyncReservationInvariant.toList_key a b

theorem joined_eq_iff (first second : BatchInput) :
    first.deviceId ++ ":" ++ first.deviceBatchId = second.deviceId ++ ":" ++ second.deviceBatchId ↔
      pairOf first = pairOf second ∨ Overlap first second := by
  have hlists : first.deviceId ++ ":" ++ first.deviceBatchId =
        second.deviceId ++ ":" ++ second.deviceBatchId ↔
      first.deviceId.toList ++ ':' :: first.deviceBatchId.toList =
        second.deviceId.toList ++ ':' :: second.deviceBatchId.toList := by
    rw [← toList_join, ← toList_join, String.toList_inj]
  have hcolon : ∀ (a b : String) (w : List Char),
      a.toList = b.toList ++ ':' :: w ↔ a = b ++ ":" ++ String.ofList w := by
    intro a b w
    rw [← String.toList_inj, toList_join, String.toList_ofList]
  have hbegins : ∀ (a b : String) (w : List Char),
      a.toList = w ++ ':' :: b.toList ↔ a = String.ofList w ++ ":" ++ b := by
    intro a b w
    rw [← String.toList_inj, toList_join, String.toList_ofList]
  rw [hlists, append_separator_eq_iff]
  constructor
  · rintro (⟨hdevice, hbatch⟩ | ⟨w, hdevice, hbatch⟩ | ⟨w, hdevice, hbatch⟩)
    · exact .inl (Prod.ext (String.toList_inj.mp hdevice) (String.toList_inj.mp hbatch))
    · exact .inr (.inl ⟨String.ofList w, (hcolon _ _ w).mp hdevice, (hbegins _ _ w).mp hbatch⟩)
    · exact .inr (.inr ⟨String.ofList w, (hcolon _ _ w).mp hdevice, (hbegins _ _ w).mp hbatch⟩)
  · rintro (hpair | ⟨w, hdevice, hbatch⟩ | ⟨w, hdevice, hbatch⟩)
    · obtain ⟨hdevice, hbatch⟩ := Prod.mk.inj hpair
      exact .inl ⟨congrArg String.toList hdevice, congrArg String.toList hbatch⟩
    · refine .inr (.inl ⟨w.toList, ?_, ?_⟩)
      · rw [hdevice, toList_join]
      · rw [hbatch, toList_join]
    · refine .inr (.inr ⟨w.toList, ?_, ?_⟩)
      · rw [hdevice, toList_join]
      · rw [hbatch, toList_join]

theorem batchIdentity_eq_iff (scope : Scope) (first second : BatchInput) :
    batchIdentity scope first = batchIdentity scope second ↔
      pairOf first = pairOf second ∨ Overlap first second := by
  rw [← joined_eq_iff, batchIdentity, batchIdentity, key, key]
  constructor
  · exact String.append_right_inj _ |>.mp
  · intro h
    rw [h]

theorem defaultTransportKey_eq_iff (first second : BatchInput) :
    defaultTransportKey first = defaultTransportKey second ↔
      pairOf first = pairOf second ∨ Overlap first second := by
  have hservice : ∀ input : BatchInput, defaultTransportKey input =
      "service:" ++ (input.deviceId ++ ":" ++ input.deviceBatchId) := by
    intro input
    rw [defaultTransportKey, String.append_assoc, String.append_assoc, String.append_assoc]
  rw [← joined_eq_iff, hservice, hservice, String.append_right_inj]

variable {platform : Platform} {s : Store} {scope : Scope} {input : BatchInput}
  {execution : Execution} {now : String}

/-- Every record satisfies a condition on its key and on the device and batch of its receipt. -/
def RecordsMeet (owns : String → String × String → Prop) (s : Store) : Prop :=
  ∀ identity record, s.batches.get? identity = some record →
    owns identity (record.receipt.deviceId, record.receipt.deviceBatchId)

variable {owns : String → String × String → Prop}

variable {t : Store}

theorem RecordsMeet.set {identity : String} {record : BatchRecord} (hs : RecordsMeet owns s)
    (hbatches : t.batches = s.batches.set identity record)
    (hrecord : owns identity (record.receipt.deviceId, record.receipt.deviceBatchId)) :
    RecordsMeet owns t := by
  intro other found hfound
  rw [hbatches] at hfound
  rcases get?_set_eq_some.mp hfound with ⟨rfl, rfl⟩ | ⟨-, hold⟩
  · exact hrecord
  · exact hs other found hold

theorem RecordsMeet.congr (hs : RecordsMeet owns s) (hframe : SameBatches s t) :
    RecordsMeet owns t := by
  intro identity record hrecord
  rw [hframe.batches] at hrecord
  exact hs identity record hrecord

theorem recordsMeet_submit (hs : RecordsMeet owns s)
    (hown : owns (batchIdentity scope input) (pairOf input)) :
    RecordsMeet owns (submitDurableSyncBatch platform s scope input execution now).store := by
  rw [submitDurableSyncBatch]
  split
  · exact hs
  · dsimp only
    split
    · exact hs
    · have hrecord : ∀ contextHash transportKey fingerprint,
          owns (batchIdentity scope input)
            ((batchRecord (s.batches.get? (batchIdentity scope input)) input execution.ports
                contextHash transportKey fingerprint now).receipt.deviceId,
              (batchRecord (s.batches.get? (batchIdentity scope input)) input execution.ports
                contextHash transportKey fingerprint now).receipt.deviceBatchId) := by
        intro contextHash transportKey fingerprint
        cases hprior : s.batches.get? (batchIdentity scope input) with
        | none => exact hown
        | some record => exact hs _ record hprior
      have hopened : ∀ record : BatchRecord,
          owns (batchIdentity scope input) (record.receipt.deviceId, record.receipt.deviceBatchId) →
          RecordsMeet owns
            { bindTransport platform s scope input execution with
              batches := (bindTransport platform s scope input execution).batches.set
                (batchIdentity scope input) record } :=
        fun record hmeets => hs.set rfl hmeets
      rw [runBatch]
      split
      · exact (hopened _ (hrecord _ _ _)).congr (frame_processItems _)
      · exact ((hopened _ (hrecord _ _ _)).congr (frame_processItems _)).set rfl (hrecord _ _ _)

def Submitted (commands : List Command) (scope : Scope) (input : BatchInput) : Prop :=
  ∃ execution now, Command.submitDurableSyncBatch scope input execution now ∈ commands

def SubmittedAt (commands : List Command) (identity : String) (pair : String × String) : Prop :=
  ∃ scope input, Submitted commands scope input ∧ identity = batchIdentity scope input ∧
    pair = pairOf input

theorem step_recordsMeet (platform : Platform) (commands : List Command) (sys : System)
    (command : Command) (next : System)
    (hsys : RecordsMeet (SubmittedAt commands) sys.store) (hcommand : command ∈ commands)
    (h : step platform sys command = some next) :
    RecordsMeet (SubmittedAt commands) next.store := by
  cases h
  cases command with
  | submitDurableSyncBatch scope input execution now =>
    exact recordsMeet_submit hsys ⟨scope, input, ⟨execution, now, hcommand⟩, rfl, rfl⟩
  | submitSyncBatch scope input now =>
    exact hsys.congr (keeps_kept fun t h => keeps_submitSyncBatch h).frame
  | openConflict scope queueItemId conflictType description conflictId =>
    exact hsys.congr (keeps_kept fun next h => keeps_openConflict h).frame
  | resolveConflict scope conflictId input now =>
    exact hsys.congr (keeps_kept fun next h => keeps_resolveConflict h).frame
  | resolveWithPort scope id input now actionId ports =>
    exact hsys.congr (keeps_kept fun next h => keeps_resolveWithPort h).frame
  | renumber numbering => exact hsys.congr ⟨rfl, rfl⟩

/-- Two batches of a tenant have different identities and transport keys exactly when their pairs do
not overlap, and then neither writes the record of the other. In a run in which no two overlap, a
record that a batch finds is its own. -/
theorem batches_apart_iff (platform : Platform) :
    (∀ (scope : Scope) (first second : BatchInput), pairOf first ≠ pairOf second →
      (batchIdentity scope first ≠ batchIdentity scope second ∧
          defaultTransportKey first ≠ defaultTransportKey second ↔ ¬ Overlap first second) ∧
        (¬ Overlap first second → ∀ s execution now,
          (submitDurableSyncBatch platform s scope second execution now).store.batches.get?
              (batchIdentity scope first) =
            s.batches.get? (batchIdentity scope first))) ∧
      ∀ (tenantId : String) (commands : List Command) (sys : System),
        run (step platform) .initial commands = some sys →
        (∀ scope input, Submitted commands scope input → scope.tenantId = tenantId) →
        (∀ scope first scope' second, Submitted commands scope first →
          Submitted commands scope' second → ¬ Overlap first second) →
        ∀ scope input, Submitted commands scope input → ∀ record,
          sys.store.batches.get? (batchIdentity scope input) = some record →
            (record.receipt.deviceId, record.receipt.deviceBatchId) = pairOf input := by
  refine ⟨?_, ?_⟩
  · intro scope first second hpairs
    have hidentity : batchIdentity scope first = batchIdentity scope second ↔
        Overlap first second := by
      rw [batchIdentity_eq_iff]
      exact or_iff_right hpairs
    have htransport : defaultTransportKey first = defaultTransportKey second ↔
        Overlap first second := by
      rw [defaultTransportKey_eq_iff]
      exact or_iff_right hpairs
    refine ⟨?_, ?_⟩
    · rw [Ne, Ne, hidentity, htransport, and_self]
    · intro hapart s execution now
      exact batches_submit fun h => hapart (hidentity.mp h)
  · intro tenantId commands sys hrun htenant hapart scope input hsubmitted record hrecord
    have hsys : RecordsMeet (SubmittedAt commands) sys.store :=
      run_invariant_of_meets (step_recordsMeet platform commands)
        (fun identity record h => by cases h) (runMeets_of_forall_mem fun _ h => h) hrun
    obtain ⟨scope', found, hfound, hidentity, hpair⟩ := hsys _ record hrecord
    have hsame : batchIdentity scope' found = batchIdentity scope found := by
      rw [batchIdentity, batchIdentity, htenant scope' found hfound, htenant scope input hsubmitted]
    rw [hsame, batchIdentity_eq_iff] at hidentity
    rcases hidentity with hown | hoverlap
    · rw [hpair, hown]
    · exact absurd hoverlap (hapart scope input scope' found hsubmitted hfound)

def colonInput (deviceId deviceBatchId : String) : BatchInput :=
  { unkeyedInput with deviceId := deviceId, deviceBatchId := deviceBatchId }

/-- Two admitted pairs that overlap: the second device receives the receipt of the first batch. -/
theorem colon_pairs_collide :
    pairOf (colonInput "a" "b:c") ≠ pairOf (colonInput "a:b" "c") ∧
      (["a", "b:c", "a:b", "c"].all assertText) = true ∧
      batchIdentity OfflineSyncNumberingRuns.sampleScope (colonInput "a" "b:c") =
        batchIdentity OfflineSyncNumberingRuns.sampleScope (colonInput "a:b" "c") ∧
      defaultTransportKey (colonInput "a" "b:c") = defaultTransportKey (colonInput "a:b" "c") ∧
      (run (step samplePlatform) .initial
        [.submitDurableSyncBatch OfflineSyncNumberingRuns.sampleScope (colonInput "a" "b:c")
          (unkeyedExecution "first" fun _ => .ok "identity") "2026-01-01T00:00:00.000Z"]).map
        (fun sys => (submitDurableSyncBatch samplePlatform sys.store
          OfflineSyncNumberingRuns.sampleScope (colonInput "a:b" "c")
          (unkeyedExecution "second" fun _ => .ok "identity")
          "2026-01-02T00:00:00.000Z").ending.toOption.map fun result =>
            (result.receipt.deviceId, result.receipt.deviceBatchId)) =
        some (some ("a", "b:c")) := by
  refine ⟨?_, ?_, ?_, ?_, ?_⟩ <;> decide

end Stynx.OfflineSyncBatchReplay
