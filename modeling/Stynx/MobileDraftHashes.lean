import Stynx.MobileQueue

/-!
# The content hash of a finalized draft

`packages/mobile-runtime/src/runtime.ts`: `finalizeOffline` hashes the draft that it
read, with its new status and its end, and `enqueue` hands the hash on to the queue
item. Each call reads a draft and puts it back later, so calls on one draft may
overlap.
-/

namespace Stynx.MobileDraftHashes

open TransitionRuns MobileNumbering MobileQueue OrderedMap

structure MobileEvidenceDraft where
  localEvidenceId : String
  hashAlgorithm : String
  hashValue : String
  mediaType : String
  capturedAt : String
  storageIntentId : Option String := none
  linkedLocalEntityId : String
  deriving DecidableEq

/-- A draft with all that its hash covers; payload and location are JSON texts. -/
structure EntityDraft extends StoredDraft where
  payload : String
  location : String
  evidence : List MobileEvidenceDraft
  finalizedAt : Option String
  deriving DecidableEq

/-- A call that has read a draft and goes on to put it. -/
inductive Op where
  | attachEvidence (evidence : MobileEvidenceDraft)
  | finalizeOffline (finalizedAt : String)
  /-- `enqueue`, before and after its put of the queue item. -/
  | enqueue (itemStored : Bool)
  | resolveSimpleConflict
  deriving DecidableEq

/-- `assertOfflineInvariant`; a location is an object, and so never false. -/
def assertOfflineInvariant (requireEvidenceToFinalize : Bool) (draft : EntityDraft) : Bool :=
  draft.idempotencyKey ≠ "" && draft.reservationId ≠ "" && draft.localContentHash ≠ "" &&
    draft.session.deviceId ≠ "" && draft.session.agentId ≠ "" &&
    draft.normativePackage.packageId ≠ "" && !(requireEvidenceToFinalize && draft.evidence.isEmpty)

/-- What a call checks before its first put. -/
def Op.admits (requireEvidenceToFinalize : Bool) (draft : EntityDraft) : Op → Bool
  | .attachEvidence evidence =>
    evidence.hashAlgorithm = "sha256" &&
      "sha256:".toList.isPrefixOf evidence.hashValue.toList &&
      evidence.linkedLocalEntityId = draft.localId
  | .finalizeOffline _ =>
    draft.status = .draft && assertOfflineInvariant requireEvidenceToFinalize draft
  | .enqueue itemStored => draft.status = .finalized && !itemStored
  | .resolveSimpleConflict => true

def Op.addsEvidence : Op → Bool
  | .attachEvidence _ => true
  | _ => false

/-- `updateDraft` with the patch of a call. -/
def Op.update (contentHash : EntityDraft → String) (draft : EntityDraft) (now : String) :
    Op → EntityDraft
  | .attachEvidence evidence =>
    { draft with evidence := draft.evidence ++ [evidence], updatedAt := now }
  | .finalizeOffline finalizedAt =>
    let finalized := { draft with status := .finalized, finalizedAt := some finalizedAt }
    { finalized with localContentHash := contentHash finalized, updatedAt := now }
  | .enqueue _ => { draft with status := .queued, updatedAt := now }
  | .resolveSimpleConflict => { draft with status := .synced, updatedAt := now }

structure Call where
  localEntityId : String
  /-- The draft as the call read it. -/
  draft : EntityDraft
  op : Op
  deriving DecidableEq

structure Runtime where
  drafts : OrderedMap String EntityDraft := .empty
  queue : OrderedMap String MobileSyncQueueItem := .empty
  /-- Queue items ever put; some call may still put one of them back. -/
  items : List MobileSyncQueueItem := []
  calls : List Call := []

inductive Label where
  | createDraft (draft : EntityDraft)
  | read (localEntityId : String) (op : Op)
  | putItem (call : Call) (queueItemId : String)
  | putDraft (call : Call) (now : String)
  /-- `submitPendingQueue` or `resolveSimpleConflict` puts an item that it has read. -/
  | putBack (item : MobileSyncQueueItem) (status : SyncQueueStatus) (attempts : Nat)
  | applyRemoteWipe

section

variable (contentHash : EntityDraft → String) (requireEvidenceToFinalize : Bool)

def step (s : Runtime) : Label → Option Runtime
  | .createDraft draft =>
    if draft.status = .draft ∧ draft.evidence = [] ∧ draft.finalizedAt = none then
      some { s with drafts := s.drafts.set draft.localId draft }
    else none
  | .read localEntityId op =>
    (s.drafts.get? localEntityId).bind fun draft =>
      if op.admits requireEvidenceToFinalize draft = true then
        some { s with calls := ⟨localEntityId, draft, op⟩ :: s.calls }
      else none
  | .putItem call queueItemId =>
    if call ∈ s.calls ∧ call.op = .enqueue false then
      let item := itemOf call.draft.toStoredDraft queueItemId
      some { s with
        queue := s.queue.set queueItemId item
        items := item :: s.items
        calls := { call with op := .enqueue true } :: s.calls.erase call }
    else none
  | .putDraft call now =>
    if call ∈ s.calls ∧ call.op ≠ .enqueue false then
      some { s with
        drafts := s.drafts.set call.localEntityId (call.op.update contentHash call.draft now)
        calls := s.calls.erase call }
    else none
  | .putBack item status attempts =>
    if item ∈ s.items then
      let next := { item with status := status, attempts := attempts }
      some { s with queue := s.queue.set item.queueItemId next, items := next :: s.items }
    else none
  | .applyRemoteWipe => some { s with drafts := .empty, queue := .empty }

end

/-- What the hash was computed from, but for the hash itself and the date of the last change. -/
def Covers (contentHash : EntityDraft → String) (draft : EntityDraft) (hash : String) : Prop :=
  ∃ earlier updatedAt, hash = contentHash
    { draft with status := .finalized, localContentHash := earlier, updatedAt := updatedAt }

def Sealed (draft : EntityDraft) : Prop := draft.status = .finalized ∨ draft.status = .queued

instance (draft : EntityDraft) : Decidable (Sealed draft) := inferInstanceAs (Decidable (_ ∨ _))

/-- Evidence comes to drafts that are not sealed, a put finds the draft that its call read, and
names of drafts are new. -/
def Careful (s : Runtime) : Label → Prop
  | .createDraft draft => s.drafts.get? draft.localId = none ∧
      ∀ item ∈ s.items, item.localEntityId ≠ draft.localId
  | .putItem call _ => s.drafts.get? call.localEntityId = some call.draft
  | .putDraft call _ => s.drafts.get? call.localEntityId = some call.draft ∧
      (call.op.addsEvidence = true → ¬ Sealed call.draft)
  | _ => True

instance (s : Runtime) (label : Label) : Decidable (Careful s label) := by
  unfold Careful
  split <;> infer_instance

def Hashed (contentHash : EntityDraft → String) (s : Runtime) : Prop :=
  ∀ id draft, s.drafts.get? id = some draft → Sealed draft →
    Covers contentHash draft draft.localContentHash ∧
      ∀ queueItemId item, s.queue.get? queueItemId = some item → item.localEntityId = id →
        Covers contentHash draft item.payloadHash

def Found (call : Call) : Prop :=
  (∀ finalizedAt, call.op = .finalizeOffline finalizedAt → call.draft.status = .draft) ∧
    ∀ itemStored, call.op = .enqueue itemStored → call.draft.status = .finalized

structure Kept (contentHash : EntityDraft → String) (s : Runtime) : Prop where
  named : ∀ id draft, s.drafts.get? id = some draft → draft.localId = id
  covered : ∀ id draft, s.drafts.get? id = some draft → Sealed draft →
    Covers contentHash draft draft.localContentHash
  /-- Only a draft that has been finalized has items, and they carry its hash. -/
  hashed : ∀ item ∈ s.items, ∀ draft, s.drafts.get? item.localEntityId = some draft →
    draft.status ≠ .draft ∧ item.payloadHash = draft.localContentHash
  stored : ∀ id item, s.queue.get? id = some item → item ∈ s.items
  calls : ∀ call ∈ s.calls, Found call

variable {contentHash : EntityDraft → String} {requireEvidenceToFinalize : Bool} {s t : Runtime}

theorem kept_cleared {items : List MobileSyncQueueItem} {calls : List Call}
    (h : ∀ call ∈ calls, Found call) :
    Kept contentHash { items := items, calls := calls } where
  named _ _ hget := by cases hget
  covered _ _ hget := by cases hget
  hashed _ _ _ hget := by cases hget
  stored _ _ hget := by cases hget
  calls := h

theorem Kept.putDraft {id : String} (h : Kept contentHash s) (draft : EntityDraft)
    (hid : draft.localId = id)
    (hcovered : Sealed draft → Covers contentHash draft draft.localContentHash)
    (hitems : ∀ item ∈ s.items, item.localEntityId = id →
      draft.status ≠ .draft ∧ item.payloadHash = draft.localContentHash)
    {calls : List Call} (hcalls : calls ⊆ s.calls) :
    Kept contentHash { s with drafts := s.drafts.set id draft, calls := calls } where
  named := by
    intro id' draft' hget
    rcases get?_set_eq_some.mp hget with ⟨rfl, rfl⟩ | ⟨-, hold⟩
    · exact hid
    · exact h.named id' draft' hold
  covered := by
    intro id' draft' hget
    rcases get?_set_eq_some.mp hget with ⟨rfl, rfl⟩ | ⟨-, hold⟩
    · exact hcovered
    · exact h.covered id' draft' hold
  hashed := by
    intro item hitem draft' hget
    rcases get?_set_eq_some.mp hget with ⟨heq, rfl⟩ | ⟨-, hold⟩
    · exact hitems item hitem heq.symm
    · exact h.hashed item hitem draft' hold
  stored := h.stored
  calls := fun call hcall => h.calls call (hcalls hcall)

theorem Kept.putItem {queueItemId : String} (h : Kept contentHash s) (item : MobileSyncQueueItem)
    (hitem : ∀ draft, s.drafts.get? item.localEntityId = some draft →
      draft.status ≠ .draft ∧ item.payloadHash = draft.localContentHash) {calls : List Call}
    (hcalls : ∀ call ∈ calls, Found call) :
    Kept contentHash { s with
      queue := s.queue.set queueItemId item, items := item :: s.items, calls := calls } where
  named := h.named
  covered := h.covered
  hashed := by
    intro other hother draft hget
    rcases List.mem_cons.mp hother with rfl | hold
    · exact hitem draft hget
    · exact h.hashed other hold draft hget
  stored := by
    intro id other hget
    rcases get?_set_eq_some.mp hget with ⟨-, rfl⟩ | ⟨-, hold⟩
    · exact .head _
    · exact .tail _ (h.stored id other hold)
  calls := hcalls

theorem Kept.step {label : Label} (h : Kept contentHash s) (hcareful : Careful s label)
    (hstep : step contentHash requireEvidenceToFinalize s label = some t) : Kept contentHash t := by
  cases label with
  | createDraft draft =>
    obtain ⟨⟨hstatus, -⟩, hsome⟩ := Option.ite_none_right_eq_some.mp hstep
    cases hsome
    refine h.putDraft draft rfl ?_ ?_ (List.Subset.refl _)
    · rintro (hsealed | hsealed) <;> rw [hstatus] at hsealed <;> cases hsealed
    · exact fun item hitem hname => absurd hname (hcareful.2 item hitem)
  | read localEntityId op =>
    obtain ⟨draft, -, hread⟩ := Option.bind_eq_some_iff.mp hstep
    obtain ⟨hadmits, hsome⟩ := Option.ite_none_right_eq_some.mp hread
    cases hsome
    refine ⟨h.named, h.covered, h.hashed, h.stored, ?_⟩
    intro call hcall
    rcases List.mem_cons.mp hcall with rfl | hold
    · refine ⟨?_, ?_⟩ <;> rintro _ rfl <;>
        simp only [Op.admits, Bool.and_eq_true, decide_eq_true_eq] at hadmits <;> exact hadmits.1
    · exact h.calls call hold
  | putItem call queueItemId =>
    obtain ⟨⟨hcall, hop⟩, hsome⟩ := Option.ite_none_right_eq_some.mp hstep
    cases hsome
    have hstatus := (h.calls call hcall).2 false hop
    refine h.putItem (itemOf call.draft.toStoredDraft queueItemId) ?_ ?_
    · intro draft hget
      have hname : call.draft.localId = call.localEntityId := h.named _ _ hcareful
      obtain rfl : call.draft = draft :=
        Option.some.inj (hcareful.symm.trans (hname ▸ hget))
      exact ⟨by rw [hstatus]; decide, rfl⟩
    · intro other hother
      rcases List.mem_cons.mp hother with rfl | hold
      · exact ⟨fun _ hfinal => (by cases hfinal), fun _ _ => hstatus⟩
      · exact h.calls other (List.mem_of_mem_erase hold)
  | putDraft call now =>
    obtain ⟨⟨hcall, hop⟩, hsome⟩ := Option.ite_none_right_eq_some.mp hstep
    cases hsome
    obtain ⟨hget, hevidence⟩ := hcareful
    obtain ⟨hfinalize, henqueue⟩ := h.calls call hcall
    have hname := h.named _ _ hget
    have hitems : ∀ item ∈ s.items, item.localEntityId = call.localEntityId →
        call.draft.status ≠ .draft ∧ item.payloadHash = call.draft.localContentHash :=
      fun item hitem hof => h.hashed item hitem _ (hof ▸ hget)
    refine h.putDraft (call.op.update contentHash call.draft now) ?_ ?_ ?_ List.erase_subset
    · cases call.op <;> exact hname
    · intro hsealed
      cases hcase : call.op with
      | attachEvidence evidence =>
        rw [hcase] at hsealed
        exact absurd hsealed (hevidence (by rw [hcase]; rfl))
      | finalizeOffline finalizedAt =>
        exact ⟨call.draft.localContentHash, call.draft.updatedAt, rfl⟩
      | enqueue itemStored =>
        have hcovers := h.covered _ _ hget (.inl (henqueue _ hcase))
        exact hcovers
      | resolveSimpleConflict =>
        rw [hcase] at hsealed
        rcases hsealed with hstatus | hstatus <;> cases hstatus
    · intro item hitem hof
      obtain ⟨hstatus, hhash⟩ := hitems item hitem hof
      cases hcase : call.op with
      | attachEvidence evidence => exact ⟨hstatus, hhash⟩
      | finalizeOffline finalizedAt => exact absurd (hfinalize _ hcase) hstatus
      | enqueue itemStored => exact ⟨fun hdraft => (by cases hdraft), hhash⟩
      | resolveSimpleConflict => exact ⟨fun hdraft => (by cases hdraft), hhash⟩
  | putBack item status attempts =>
    obtain ⟨hitem, hsome⟩ := Option.ite_none_right_eq_some.mp hstep
    cases hsome
    exact h.putItem { item with status := status, attempts := attempts } (h.hashed item hitem) h.calls
  | applyRemoteWipe =>
    cases hstep
    exact kept_cleared h.calls

/-- While evidence comes before the end of a draft and no two calls on it overlap, the hash of a
finalized or queued draft covers the draft as it is stored, and so do those of its queue items. -/
theorem finalized_hash_covers (requireEvidenceToFinalize : Bool) (labels : List Label) (s : Runtime)
    (hcareful : RunMeets (step contentHash requireEvidenceToFinalize) Careful {} labels)
    (hrun : run (step contentHash requireEvidenceToFinalize) {} labels = some s) :
    Hashed contentHash s := by
  have hkept : Kept contentHash s := run_invariant_of_meets
    (fun _ _ _ hs hok hstep => hs.step hok hstep)
    (kept_cleared fun _ hcall => by cases hcall) hcareful hrun
  intro id draft hget hsealed
  refine ⟨hkept.covered id draft hget hsealed, ?_⟩
  rintro queueItemId item hitem rfl
  rw [(hkept.hashed item (hkept.stored _ _ hitem) draft hget).2]
  exact hkept.covered _ draft hget hsealed

def photoHash (draft : EntityDraft) : String :=
  if draft.evidence.length ≤ 1 then "sha256:1" else "sha256:2"

def photo (localEvidenceId : String) : MobileEvidenceDraft :=
  ⟨localEvidenceId, "sha256", "sha256:0", "image/jpeg", "2026-05-20T12:00:00.000Z", none, "d1"⟩

def newDraft : EntityDraft :=
  { finalizedDraft with status := .draft, payload := "[]", location := "[]", evidence := [],
                        finalizedAt := none }

def wholeCall (draft : EntityDraft) (op : Op) : List Label :=
  [.read "d1" op, .putDraft ⟨"d1", draft, op⟩ "2026-05-20T12:01:00.000Z"]

def afterCall (draft : EntityDraft) (op : Op) : EntityDraft :=
  op.update photoHash draft "2026-05-20T12:01:00.000Z"

def withPhoto : EntityDraft := afterCall newDraft (.attachEvidence (photo "p1"))

def ended : EntityDraft := afterCall withPhoto (.finalizeOffline "2026-05-20T12:01:00.000Z")

def finalizing : List Label :=
  .createDraft newDraft :: wholeCall newDraft (.attachEvidence (photo "p1")) ++
    wholeCall withPhoto (.finalizeOffline "2026-05-20T12:01:00.000Z")

/-- A photo that is attached to a finalized draft is not in its hash. -/
theorem evidence_after_end_not_hashed : ¬ ∀ labels s,
    run (step photoHash true) {} labels = some s → Hashed photoHash s := by
  intro h
  obtain ⟨⟨_, _, heq⟩, -⟩ := h (finalizing ++ wholeCall ended (.attachEvidence (photo "p2"))) _ rfl
    "d1" (afterCall ended (.attachEvidence (photo "p2"))) rfl (.inl rfl)
  exact absurd (show "sha256:1" = "sha256:2" from heq) (by decide)

theorem finalized_hash_covers_run :
    ∃ s, run (step photoHash true) {} finalizing = some s ∧ Hashed photoHash s :=
  ⟨_, rfl, finalized_hash_covers true finalizing _ (by decide) rfl⟩

end Stynx.MobileDraftHashes
